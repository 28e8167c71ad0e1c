import ContentStream.Proofs.Graphics.Transform
import ContentStream.Proofs.Interpreter.Components
import ContentStream.Proofs.Interpreter.Failures

/-!
# Transformations and lines of text

What operations do to the text position depends on the leadings only, and by expressions
that make sense for any scalars.  `TextLines` are these components for an arbitrary type
of scalars: runs have doubles, and the laws of the expressions are stated for exact
scalars.
-/

namespace ContentStream

namespace Operation

variable {α : Type} (value : Operand → α)

def argument (operation : Operation) (index : Nat) : Operand :=
  operation.operands.getD index .null

def transform (operation : Operation) : Transform α where
  a := value (operation.argument 0)
  b := value (operation.argument 1)
  c := value (operation.argument 2)
  d := value (operation.argument 3)
  e := value (operation.argument 4)
  f := value (operation.argument 5)

def concatAll [Add α] [Mul α] (m : Transform α) (operations : List Operation) : Transform α :=
  operations.foldl (fun m operation => m.after (operation.transform value)) m

/-- Where the operation places the text, regardless of where it was. -/
def placed? [OfNat α 0] [OfNat α 1] (operation : Operation) : Option (Transform α) :=
  if operation.name = "BT" then some Transform.identity
  else if operation.name = "Tm" then some (operation.transform value)
  else none

/-- The offset of the line that the operation starts, for the leading in force. -/
def offset? [OfNat α 0] [Neg α] (leading : α) (operation : Operation) : Option (α × α) :=
  if operation.name ∈ ["Td", "TD"] then
    some (value (operation.argument 0), value (operation.argument 1))
  else if operation.name ∈ ["T*", "'", "\""] then some (0, -leading)
  else none

end Operation

structure Leadings (α : Type) where
  current : α
  saved : List α

namespace Leadings

variable {α : Type} (value : Operand → α)

def after (leadings : Leadings α) (operation : Operation) : Leadings α :=
  if operation.name = "TL" then { leadings with current := value (operation.argument 0) }
  else if operation.name = "TD" then
    { leadings with current := value (Operator.negate (operation.argument 1)) }
  else if operation.name = "q" then
    { leadings with saved := leadings.current :: leadings.saved }
  else if operation.name = "Q" then
    match leadings.saved with
    | [] => leadings
    | last :: saved => ⟨last, saved⟩
  else leadings

def ofOperations [OfNat α 0] (operations : List Operation) : Leadings α :=
  operations.foldl (after value) ⟨0, []⟩

/-- The offsets of the lines that the operations start, each by the leading at its moment. -/
def offsets [OfNat α 0] [Neg α] : Leadings α → List Operation → List (α × α)
  | _, [] => []
  | leadings, operation :: operations =>
    (operation.offset? value leadings.current).toList ++
      (leadings.after value operation).offsets operations

end Leadings

structure TextLines (α : Type) where
  leadings : Leadings α
  position : TextPosition α

namespace TextLines

variable {α : Type} [Add α] [Mul α] [Neg α] [OfNat α 0] [OfNat α 1] (value : Operand → α)

def initial : TextLines α :=
  ⟨⟨0, []⟩, TextPosition.start⟩

def after (lines : TextLines α) (operation : Operation) : TextLines α where
  leadings := lines.leadings.after value operation
  position :=
    match operation.placed? value with
    | some m => TextPosition.place m
    | none =>
      match operation.offset? value lines.leadings.current with
      | some (x, y) => lines.position.nextLine x y
      | none => lines.position

def ofOperations (operations : List Operation) : TextLines α :=
  operations.foldl (after value) initial

theorem after_of_placed? {lines : TextLines α} {operation : Operation} {m : Transform α}
    (h : operation.placed? value = some m) : lines.after value operation =
      ⟨lines.leadings.after value operation, TextPosition.place m⟩ := by
  simp only [after, h]

theorem after_of_offset? {lines : TextLines α} {operation : Operation} {offset : α × α}
    (hplaced : operation.placed? value = none)
    (h : operation.offset? value lines.leadings.current = some offset) :
    lines.after value operation =
      ⟨lines.leadings.after value operation, lines.position.nextLine offset.1 offset.2⟩ := by
  simp only [after, hplaced, h]

theorem after_of_none {lines : TextLines α} {operation : Operation}
    (hplaced : operation.placed? value = none)
    (h : operation.offset? value lines.leadings.current = none) :
    lines.after value operation = ⟨lines.leadings.after value operation, lines.position⟩ := by
  simp only [after, hplaced, h]

theorem position_foldl_after {operations : List Operation}
    (h : ∀ operation ∈ operations, operation.placed? value = none) (lines : TextLines α) :
    (operations.foldl (after value) lines).position =
      (lines.leadings.offsets value operations).foldl
        (fun position offset => position.nextLine offset.1 offset.2) lines.position := by
  induction operations generalizing lines with
  | nil => rfl
  | cons operation operations ih =>
      rw [List.foldl_cons, ih fun other hother => h other (by simp [hother]), Leadings.offsets,
        List.foldl_append]
      congr 1
      simp only [after, h operation (by simp)]
      cases operation.offset? value lines.leadings.current <;> rfl

theorem leadings_foldl_after (operations : List Operation) (lines : TextLines α) :
    (operations.foldl (after value) lines).leadings =
      operations.foldl (Leadings.after value) lines.leadings := by
  induction operations generalizing lines with
  | nil => rfl
  | cons operation operations ih => exact ih _

theorem text_eq_line_foldl_after (operations : List Operation) {lines : TextLines α}
    (h : lines.position.text = lines.position.line) :
    (operations.foldl (after value) lines).position.text =
      (operations.foldl (after value) lines).position.line := by
  induction operations generalizing lines with
  | nil => exact h
  | cons operation operations ih =>
      refine ih ?_
      unfold after
      dsimp only
      split
      · rfl
      · split
        · rfl
        · exact h

theorem position_ofOperations {R : Type} [CommRing R] (value : Operand → R)
    {start : Operation} {later : List Operation} {base : Transform R}
    (hstart : start.placed? value = some base)
    (hlater : ∀ operation ∈ later, operation.placed? value = none) (before : List Operation) :
    let offsets := (Leadings.ofOperations value (before ++ [start])).offsets value later
    (ofOperations value (before ++ start :: later)).position =
      TextPosition.place (base.after
        (Transform.shift (offsets.map Prod.fst).sum (offsets.map Prod.snd).sum)) := by
  intro offsets
  have hbefore := leadings_foldl_after value before initial
  rw [ofOperations, List.foldl_append, List.foldl_cons, after_of_placed? value hstart,
    position_foldl_after value hlater, hbefore, ← TextPosition.foldl_nextLine]
  congr 1
  show _ = Leadings.offsets value (Leadings.ofOperations value (before ++ [start])) later
  rw [Leadings.ofOperations, List.foldl_append]
  rfl

end TextLines

/-! ## Lines in runs -/

def StateStack.lineLeadings (stack : StateStack) : Leadings Float :=
  ⟨stack.current.text.leading, stack.saved.map (·.text.leading)⟩

theorem StateStack.lineLeadings_congr {stack stack' : StateStack}
    (h : stack.leadings = stack'.leadings) : stack.lineLeadings = stack'.lineLeadings := by
  obtain ⟨hcurrent, hsaved⟩ := List.cons.inj h
  exact congrArg₂ Leadings.mk hcurrent hsaved

def PageState.lines (state : PageState) : TextLines Float :=
  ⟨state.stack.lineLeadings, state.text⟩

private theorem Operand.amount_argument {name : String} {operands : List Operand} {index : Nat}
    {x : Float} (h : Arguments.number ⟨name, operands⟩ index = .ok x) :
    ((⟨name, operands⟩ : Operation).argument index).amount = x := by
  have hfound : (operands[index]?).bind Operand.number? = some x := Arguments.get_eq_ok.1 h
  obtain ⟨value, hvalue, hx⟩ := Option.bind_eq_some_iff.1 hfound
  simp [Operation.argument, List.getD_eq_getElem?_getD, hvalue, Operand.amount, hx]

private theorem Operand.argument_of_numeric {name : String} {operands : List Operand}
    {index : Nat} {value : Operand}
    (h : Arguments.numeric ⟨name, operands⟩ index = .ok value) :
    (⟨name, operands⟩ : Operation).argument index = value := by
  have hvalue : operands[index]? = some value := (Arguments.numeric_eq_ok.1 h).1
  simp [Operation.argument, List.getD_eq_getElem?_getD, hvalue]

theorem Operation.transform_of_transformArgument {name : String} {operands : List Operand}
    {m : Transform Float} (h : Operator.transformArgument ⟨name, operands⟩ = .ok m) :
    (⟨name, operands⟩ : Operation).transform Operand.amount = m := by
  obtain ⟨a, ha, h⟩ := Result.bind_eq_ok.1 h
  obtain ⟨b, hb, h⟩ := Result.bind_eq_ok.1 h
  obtain ⟨c, hc, h⟩ := Result.bind_eq_ok.1 h
  obtain ⟨d, hd, h⟩ := Result.bind_eq_ok.1 h
  obtain ⟨e, he, h⟩ := Result.bind_eq_ok.1 h
  obtain ⟨f, hf, h⟩ := Result.bind_eq_ok.1 h
  obtain rfl := Except.ok.inj h
  simp only [Operation.transform, Operand.amount_argument ha, Operand.amount_argument hb,
    Operand.amount_argument hc, Operand.amount_argument hd, Operand.amount_argument he,
    Operand.amount_argument hf]

namespace Environment

variable {env : Environment} {state next last : PageState} {operation : Operation}
  {name : String} {operands : List Operand} {operations : List Operation}

theorem Step.update_eq_ok (hbare : env.overrides = []) {shape : Shape}
    {update : Resources → PageState → Arguments → Except Error PageState}
    (hfound : Operator.builtIn? name = some (Operator.updating name shape update))
    (h : env.Step state ⟨name, operands⟩ next) :
    update env.resources state ⟨name, operands⟩ = .ok next :=
  (step_updating_iff hbare hfound operands).1 h

theorem Step.paint_eq_ok (hbare : env.overrides = []) {shape : Shape}
    {update : GraphicsState → Arguments → Except Error GraphicsState}
    (hfound : Operator.builtIn? name = some (Operator.painting name shape update))
    (h : env.Step state ⟨name, operands⟩ next) :
    ∃ graphics, update state.graphics ⟨name, operands⟩ = .ok graphics ∧
      next = state.withGraphics graphics := by
  obtain ⟨graphics, hgraphics, rfl⟩ := Result.map_eq_ok.1 (h.update_eq_ok hbare hfound)
  exact ⟨graphics, hgraphics, rfl⟩

theorem Step.number_eq_ok (hbare : env.overrides = [])
    {set : GraphicsState → Float → GraphicsState}
    (hfound : Operator.builtIn? name = some (Operator.numeric name set))
    (h : env.Step state ⟨name, operands⟩ next) :
    ∃ x, Arguments.number ⟨name, operands⟩ 0 = .ok x ∧
      next = state.withGraphics (set state.graphics x) := by
  obtain ⟨graphics, hgraphics, rfl⟩ := h.paint_eq_ok hbare hfound
  obtain ⟨x, hx, rfl⟩ := Result.map_eq_ok.1 hgraphics
  exact ⟨x, hx, rfl⟩

theorem Step.act_eq (hbare : env.overrides = []) {act : PageState → PageState × List Notice}
    (hfound : Operator.builtIn? name = some (Operator.acting name act))
    (h : env.Step state ⟨name, operands⟩ next) : next = (act state).1 := by
  have heffect : (env.invoke state ⟨name, operands⟩).effect = ((act state).1, none) :=
    effect_invoke ((operator?_eq_builtIn? hbare name).trans hfound) rfl
  exact (Prod.mk.inj (h.symm.trans heffect)).1

private theorem ne_of_mem_lineNames : ∀ name ∈ ["T*", "'", "\""], name ∉ ["BT", "Tm", "Td", "TD",
    "TL", "q", "Q"] := by
  decide

private theorem lines_apply_lineChange {change : Change}
    (htext : change.text = Operator.lineChange.text)
    (hstack : (change.stack.apply state.stack).lineLeadings = state.stack.lineLeadings)
    (hname : name ∈ ["T*", "'", "\""]) :
    (change.apply state).lines = state.lines.after Operand.amount ⟨name, operands⟩ := by
  have hnot := ne_of_mem_lineNames name hname
  simp only [List.mem_cons, List.not_mem_nil, or_false, not_or] at hnot
  have hplaced : (⟨name, operands⟩ : Operation).placed? Operand.amount = none := by
    simp [Operation.placed?, hnot]
  have hoffset : (⟨name, operands⟩ : Operation).offset? Operand.amount
      state.lines.leadings.current = some (0, -state.lines.leadings.current) := by
    simp [Operation.offset?, hnot, hname]
  have hleadings : state.lines.leadings.after Operand.amount ⟨name, operands⟩ =
      state.lines.leadings := by
    simp [Leadings.after, hnot]
  rw [TextLines.after_of_offset? Operand.amount hplaced hoffset, hleadings]
  refine congrArg₂ TextLines.mk hstack ?_
  show change.text _ _ = _
  rw [htext]
  rfl

section Steps

variable (hbare : env.overrides = [])
include hbare

private theorem lines_beginText (h : env.Step state ⟨"BT", operands⟩ next) :
    next.lines = state.lines.after Operand.amount ⟨"BT", operands⟩ := by
  rw [h.act_eq hbare rfl, TextLines.after_of_placed? Operand.amount rfl]
  rfl

private theorem lines_textMatrix (h : env.Step state ⟨"Tm", operands⟩ next) :
    next.lines = state.lines.after Operand.amount ⟨"Tm", operands⟩ := by
  obtain ⟨m, hm, rfl⟩ := Result.map_eq_ok.1 (h.update_eq_ok hbare rfl)
  rw [TextLines.after_of_placed? Operand.amount rfl, Operation.transform_of_transformArgument hm]
  rfl

private theorem lines_moveText (h : env.Step state ⟨"Td", operands⟩ next) :
    next.lines = state.lines.after Operand.amount ⟨"Td", operands⟩ := by
  obtain ⟨x, hx, hnext⟩ := Result.bind_eq_ok.1 (h.update_eq_ok hbare rfl)
  obtain ⟨y, hy, hnext⟩ := Result.bind_eq_ok.1 hnext
  obtain rfl := Except.ok.inj hnext
  rw [TextLines.after_of_offset? Operand.amount rfl rfl, Operand.amount_argument hx,
    Operand.amount_argument hy]
  rfl

private theorem lines_leading (h : env.Step state ⟨"TL", operands⟩ next) :
    next.lines = state.lines.after Operand.amount ⟨"TL", operands⟩ := by
  obtain ⟨x, hx, rfl⟩ := h.number_eq_ok hbare rfl
  rw [TextLines.after_of_none Operand.amount rfl rfl, Leadings.after, if_pos rfl,
    Operand.amount_argument hx]
  rfl

private theorem lines_save (h : env.Step state ⟨"q", operands⟩ next) :
    next.lines = state.lines.after Operand.amount ⟨"q", operands⟩ := by
  rw [h.act_eq hbare rfl]
  rfl

private theorem lines_restore (h : env.Step state ⟨"Q", operands⟩ next) :
    next.lines = state.lines.after Operand.amount ⟨"Q", operands⟩ := by
  rw [h.act_eq hbare rfl]
  obtain ⟨⟨current, saved⟩, object, text, sequences, depth⟩ := state
  cases saved <;> rfl

private theorem lines_moveTextWithLeading (h : env.Step state ⟨"TD", operands⟩ next) :
    next.lines = state.lines.after Operand.amount ⟨"TD", operands⟩ := by
  obtain ⟨_, hchange, rfl⟩ :=
    ((performs_moveTextWithLeading hbare).step_iff (by unfold levels; omega) operands).1 h
  obtain ⟨offset, hoffset, rfl⟩ := Result.map_eq_ok.1 hchange
  obtain ⟨x, hx, hoffset⟩ := Result.bind_eq_ok.1 hoffset
  obtain ⟨y, hy, hoffset⟩ := Result.bind_eq_ok.1 hoffset
  obtain rfl := Except.ok.inj hoffset
  rw [TextLines.after_of_offset? Operand.amount rfl rfl, Operand.argument_of_numeric hx,
    Operand.argument_of_numeric hy]
  show _ = TextLines.mk ⟨((Operator.negate ((⟨"TD", operands⟩ : Operation).argument 1)).amount),
    _⟩ _
  rw [Operand.argument_of_numeric hy]
  rfl

private theorem lines_nextLine (h : env.Step state ⟨"T*", operands⟩ next) :
    next.lines = state.lines.after Operand.amount ⟨"T*", operands⟩ := by
  obtain ⟨change, hchange, rfl⟩ :=
    ((performs_nextLine hbare).step_iff (by unfold levels; omega) operands).1 h
  obtain rfl := Except.ok.inj hchange
  exact lines_apply_lineChange rfl rfl (by decide)

private theorem lines_nextLineShowText (h : env.Step state ⟨"'", operands⟩ next) :
    next.lines = state.lines.after Operand.amount ⟨"'", operands⟩ := by
  obtain ⟨_, hchange, rfl⟩ :=
    ((performs_nextLineShowText hbare).step_iff (by unfold levels; omega) operands).1 h
  obtain ⟨bytes, -, rfl⟩ := Result.map_eq_ok.1 hchange
  exact lines_apply_lineChange rfl rfl (by decide)

private theorem lines_spacedNextLineShowText (h : env.Step state ⟨"\"", operands⟩ next) :
    next.lines = state.lines.after Operand.amount ⟨"\"", operands⟩ := by
  obtain ⟨_, hchange, rfl⟩ :=
    ((performs_spacedNextLineShowText hbare).step_iff (by unfold levels; omega) operands).1 h
  obtain ⟨spacing, -, rfl⟩ := Result.map_eq_ok.1 hchange
  exact lines_apply_lineChange rfl rfl (by decide)

private theorem lines_of_notMem (h : env.Step state operation next)
    (hname : operation.name ∉ Operator.textNames) :
    next.lines = state.lines.after Operand.amount operation := by
  obtain ⟨changes, hfit, hsteps⟩ := exists_step_iff hbare operation.name
  obtain ⟨change, hchange, rfl⟩ := (hsteps state operation.operands next).1 h
  have hfits := hfit.fits hchange
  have hsub : ∀ name ∈ Operator.movingNames, name ∈ Operator.textNames := by decide
  have htext := hfits.text fun hmem => hname (hsub _ hmem)
  have hstack : (change.stack.apply state.stack).lineLeadings = state.stack.lineLeadings :=
    StateStack.lineLeadings_congr (hfits.leadings_apply hname)
  simp only [Operator.textNames, List.mem_cons, List.not_mem_nil, or_false, not_or] at hname
  have hplaced : operation.placed? Operand.amount = none := by simp [Operation.placed?, hname]
  have hoffset : operation.offset? Operand.amount state.lines.leadings.current = none := by
    simp [Operation.offset?, hname]
  have hleadings : state.lines.leadings.after Operand.amount operation = state.lines.leadings := by
    simp [Leadings.after, hname]
  rw [TextLines.after_of_none Operand.amount hplaced hoffset, hleadings]
  refine congrArg₂ TextLines.mk hstack ?_
  show change.text _ _ = _
  rw [htext]
  rfl

theorem Step.lines (h : env.Step state operation next) :
    next.lines = state.lines.after Operand.amount operation := by
  by_cases hname : operation.name ∈ Operator.textNames
  · obtain ⟨name, operands⟩ := operation
    simp only [Operator.textNames, List.mem_cons, List.not_mem_nil, or_false] at hname
    rcases hname with rfl | rfl | rfl | rfl | rfl | rfl | rfl | rfl | rfl | rfl
    · exact lines_beginText hbare h
    · exact lines_moveText hbare h
    · exact lines_moveTextWithLeading hbare h
    · exact lines_textMatrix hbare h
    · exact lines_nextLine hbare h
    · exact lines_nextLineShowText hbare h
    · exact lines_spacedNextLineShowText hbare h
    · exact lines_leading hbare h
    · exact lines_save hbare h
    · exact lines_restore hbare h
  · exact lines_of_notMem hbare h hname

theorem Step.transform (h : env.Step state operation next) (hname : operation.name = "cm") :
    next.graphics.transform =
      state.graphics.transform.after (operation.transform Operand.amount) := by
  obtain ⟨name, operands⟩ := operation
  obtain rfl : name = "cm" := hname
  obtain ⟨graphics, hgraphics, rfl⟩ := h.paint_eq_ok hbare rfl
  obtain ⟨m, hm, rfl⟩ := Result.map_eq_ok.1 hgraphics
  rw [Operation.transform_of_transformArgument hm]
  rfl

end Steps

theorem Reaches.lines (hbare : env.overrides = []) (h : env.Reaches state operations last) :
    last.lines = operations.foldl (TextLines.after Operand.amount) state.lines := by
  induction operations generalizing state with
  | nil =>
      obtain rfl := reaches_nil.1 h
      rfl
  | cons operation operations ih =>
      obtain ⟨next, hstep, hothers⟩ := (reaches_cons hbare).1 h
      rw [ih hothers, hstep.lines hbare, List.foldl_cons]

theorem Reaches.transform (hbare : env.overrides = []) (h : env.Reaches state operations last)
    (hname : ∀ operation ∈ operations, operation.name = "cm") :
    last.graphics.transform =
      Operation.concatAll Operand.amount state.graphics.transform operations := by
  induction operations generalizing state with
  | nil =>
      obtain rfl := reaches_nil.1 h
      rfl
  | cons operation operations ih =>
      obtain ⟨next, hstep, hothers⟩ := (reaches_cons hbare).1 h
      rw [ih hothers fun other hother => hname other (by simp [hother]),
        hstep.transform hbare (hname operation (by simp))]
      rfl

/--
With exact scalars, transformations that are put one before the other act in the opposite
order, and form a monoid.  Runs put the operands of `cm` before the transformation by these
expressions, so the last one acts first.

The two text matrices are the same after every run, and are what the executed operations
make of the initial ones.  By exact scalars this is the last matrix that the text was placed
at, with a shift before it by the sum of the offsets of all lines since then, where lines
that have no offset of their own are offset by the leading in force.
-/
theorem run_transforms {R : Type} [CommRing R] (value : Operand → R) (resources : Resources) :
    let env : Environment := ⟨resources, []⟩
    ((∀ (m first : Transform R) point,
        (m.after first).apply point = m.apply (first.apply point)) ∧
      (∀ m first second : Transform R,
        (m.after first).after second = m.after (first.after second)) ∧
      ∀ m : Transform R, m.after Transform.identity = m ∧ Transform.identity.after m = m) ∧
    (∀ operations, (∀ operation ∈ operations, operation.name = "cm") →
      (∀ state, (env.run state operations).failure = none →
        (env.run state operations).state.graphics.transform =
          Operation.concatAll Operand.amount state.graphics.transform operations) ∧
      ∀ (m : Transform R) point, (Operation.concatAll value m operations).apply point =
        m.apply (operations.foldr (fun operation => (operation.transform value).apply) point)) ∧
    (∀ operations, let outcome := env.run PageState.initial operations
      outcome.state.text.text = outcome.state.text.line ∧
      ∃ done, done <+: operations ∧ (outcome.failure = none → done = operations) ∧
        outcome.state.lines = TextLines.ofOperations Operand.amount done) ∧
    ∀ before start later base, start.placed? value = some base →
      (∀ operation ∈ later, operation.placed? value = none) →
      let offsets := (Leadings.ofOperations value (before ++ [start])).offsets value later
      (TextLines.ofOperations value (before ++ start :: later)).position =
        TextPosition.place (base.after
          (Transform.shift (offsets.map Prod.fst).sum (offsets.map Prod.snd).sum)) := by
  intro env
  have hbare : env.overrides = [] := rfl
  refine ⟨⟨Transform.apply_after, Transform.after_assoc,
    fun m => ⟨Transform.after_identity m, Transform.identity_after m⟩⟩,
    fun operations hname => ⟨fun state h => ?_, fun m point => ?_⟩, fun operations => ?_,
    fun before start later base hstart hlater => ?_⟩
  · exact (reaches_of_failure h).transform hbare hname
  · exact Transform.apply_foldl_after (Operation.transform value) operations m point
  · obtain ⟨done, hprefix, hall, hreaches⟩ := exists_reaches hbare PageState.initial operations
    have hlines := hreaches.lines hbare
    refine ⟨?_, done, hprefix, hall, hlines⟩
    show (env.run PageState.initial operations).state.lines.position.text =
      (env.run PageState.initial operations).state.lines.position.line
    rw [hlines]
    exact TextLines.text_eq_line_foldl_after Operand.amount done rfl
  · exact TextLines.position_ofOperations value hstart hlater before

example : (TextLines.ofOperations (fun value => (value.integer?.getD 0).toInt)
    [⟨"BT", []⟩, ⟨"TD", [.integer 3, .integer (-14)]⟩, ⟨"q", []⟩, ⟨"TL", [.integer 5]⟩,
      ⟨"T*", []⟩, ⟨"Q", []⟩, ⟨"'", [.literalString []]⟩]).position =
    TextPosition.place (Transform.shift 3 (-33)) := by
  decide

end Environment

end ContentStream
