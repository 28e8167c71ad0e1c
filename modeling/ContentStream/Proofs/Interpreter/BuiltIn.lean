import ContentStream.Proofs.Graphics.Color
import ContentStream.Proofs.Interpreter.Levels
import ContentStream.Proofs.Operator.Changes

/-!
# Running built-in operators

Where no operators are installed, an operation changes the state as a whole or fails and
leaves it as it is.  This holds of operations that stand for others too: what their
operands do not make fail at once cannot fail later.
-/

namespace ContentStream

namespace Operand

def amount (value : Operand) : Float :=
  value.number?.getD 0

theorem number?_eq_amount {value : Operand} (h : value.isNumber = true) :
    value.number? = some value.amount := by
  obtain ⟨x, hx⟩ := (isNumber_iff_number? value).1 h
  rw [amount, hx, Option.getD_some]

theorem number?_negate {value : Operand} (h : value.isNumber = true) :
    (Operator.negate value).number? = some (Operator.negate value).amount := by
  refine number?_eq_amount ?_
  unfold Operator.negate
  split
  · split <;> rfl
  · rfl

end Operand

namespace Operator

def offsetArguments (args : Arguments) : Except Error (Operand × Operand) := do
  let x ← args.numeric 0
  let y ← args.numeric 1
  return (x, y)

def spacingArguments (args : Arguments) : Except Error (Operand × Operand) := do
  let word ← args.numeric 0
  let character ← args.numeric 1
  let _ ← args.string 2
  return (word, character)

def leadingChange (x y : Operand) : Change where
  stack := .update fun graphics => { graphics with text.leading := (negate y).amount }
  text _ position := position.nextLine x.amount y.amount

def lineChange : Change where
  text leading position := position.nextLine (Operand.integer 0).amount (-leading)

def withSpacing (graphics : GraphicsState) (word character : Operand) : GraphicsState :=
  { graphics with
    text.wordSpacing := word.amount
    text.characterSpacing := character.amount }

def spacedLineChange (word character : Operand) : Change :=
  { lineChange with stack := .update fun graphics => withSpacing graphics word character }

variable {resources : Resources} {state : PageState} {value other : Operand}
  {operands : List Operand}

private theorem effect?_numeric {name : String} {set : GraphicsState → Float → GraphicsState}
    {x : Float} (h : value.number? = some x) :
    ((numeric name set).action resources state (value :: operands)).effect? =
      some (state.withGraphics (set state.graphics x), none) := by
  have hvalue : (⟨name, value :: operands⟩ : Arguments).number 0 = .ok x :=
    Arguments.get_eq_ok.2 h
  simp [numeric, painting, updating, hvalue, Except.map, Reply.effect?]

private theorem effect?_moveText {x y : Float} (hx : value.number? = some x)
    (hy : other.number? = some y) :
    (moveText.action resources state (value :: other :: operands)).effect? =
      some ({ state with text := state.text.nextLine x y }, none) := by
  have hvalue : (⟨"Td", value :: other :: operands⟩ : Arguments).number 0 = .ok x :=
    Arguments.get_eq_ok.2 hx
  have hother : (⟨"Td", value :: other :: operands⟩ : Arguments).number 1 = .ok y :=
    Arguments.get_eq_ok.2 hy
  simp [moveText, updating, hvalue, hother, bind, Except.bind, pure, Except.pure, Reply.effect?]

private theorem effect?_showText {bytes : Bytes} (h : value.string? = some bytes) :
    (showText.action resources state (value :: operands)).effect? = some (state, none) := by
  have hvalue : (⟨"Tj", value :: operands⟩ : Arguments).string 0 = .ok bytes :=
    Arguments.get_eq_ok.2 h
  simp [showText, checking, updating, hvalue, Except.map, Reply.effect?]

end Operator

namespace Environment

variable {env : Environment} {state next : PageState} {operation : Operation}
  {operations : List Operation} {effect : PageState × Option Error} {levels : Nat}

def Does (env : Environment) (levels : Nat) (state : PageState) (operation : Operation)
    (effect : PageState × Option Error) : Prop :=
  ∃ notices, env.invokeWithin levels state operation =
    some ⟨effect.1, env.overrides, notices, effect.2⟩

def DoesAll (env : Environment) (levels : Nat) (state : PageState) (operations : List Operation)
    (effect : PageState × Option Error) : Prop :=
  ∃ notices, runWith (fun env => env.invokeWithin levels) env state operations =
    some ⟨effect.1, env.overrides, notices, effect.2⟩

theorem does_of_effect? {operator : Operator}
    (hfound : env.operator? operation.name = some operator)
    (hreply : (operator.action env.resources state operation.operands).effect? = some effect) :
    env.Does (levels + 1) state operation effect :=
  invokeWithin_of_effect? hfound hreply levels

theorem does_of_expands {operator : Operator}
    (hfound : env.operator? operation.name = some operator)
    (hreply : operator.action env.resources state operation.operands = .expands operations)
    (hrun : env.DoesAll levels state operations effect) :
    env.Does (levels + 1) state operation effect := by
  obtain ⟨notices, hrun⟩ := hrun
  unfold Does
  rw [invokeWithin, hfound]
  dsimp only
  rw [hreply, follow, hrun]
  exact ⟨_, rfl⟩

theorem doesAll_nil : env.DoesAll levels state [] (state, none) :=
  ⟨[], rfl⟩

theorem doesAll_cons (hfirst : env.Does levels state operation (next, none))
    (hothers : env.DoesAll levels next operations effect) :
    env.DoesAll levels state (operation :: operations) effect := by
  obtain ⟨notices, hfirst⟩ := hfirst
  obtain ⟨others, hothers⟩ := hothers
  refine ⟨notices ++ others, ?_⟩
  rw [runWith]
  refine Option.bind_eq_some_iff.2 ⟨_, hfirst, ?_⟩
  exact Option.map_eq_some_iff.2 ⟨_, hothers, rfl⟩

theorem Does.effect_invoke (h : env.Does levels state operation effect)
    (hle : levels ≤ env.levels) : (env.invoke state operation).effect = effect := by
  obtain ⟨notices, h⟩ := h
  rw [invoke_of_invokeWithin hle h]
  rfl

/-- Operations of the name make the changes, or fail as these do and leave the state as it is. -/
def Performs (env : Environment) (levels : Nat) (name : String) (changes : Changes) : Prop :=
  ∀ state operands, env.Does levels state ⟨name, operands⟩
    (state.settle ((changes state.graphics operands).map (·.apply state)))

/-! ## Operators that stand for others -/

section Shorthand

variable (hbare : env.overrides = [])
include hbare

private theorem operator?_of_builtIn? {name : String} {operator : Operator}
    (h : Operator.builtIn? name = some operator) : env.operator? name = some operator := by
  rw [operator?_eq_builtIn? hbare, h]

private theorem performs_expanding {α : Type} {name : String} {shape : Shape}
    {expansion : PageState → Arguments → Except Error (List Operation)}
    (check : Arguments → Except Error α) (change : α → Change)
    (meaning : PageState → Arguments → α → List Operation)
    (hfound : Operator.builtIn? name = some (Operator.expanding name shape expansion))
    (hexpansion : ∀ state args, expansion state args = (check args).map (meaning state args))
    (hmeaning : ∀ {state operands found}, check ⟨name, operands⟩ = .ok found →
      env.DoesAll levels state (meaning state ⟨name, operands⟩ found)
        ((change found).apply state, none)) :
    env.Performs (levels + 1) name fun _ operands => (check ⟨name, operands⟩).map change := by
  intro state operands
  have hfound := operator?_of_builtIn? hbare hfound
  dsimp only
  cases hcheck : check ⟨name, operands⟩ with
  | error error =>
      refine does_of_effect? hfound ?_
      simp [Operator.expanding, hexpansion, hcheck, Except.map, Reply.effect?, PageState.settle]
  | ok found =>
      refine does_of_expands hfound ?_ (hmeaning hcheck)
      simp [Operator.expanding, hexpansion, hcheck, Except.map]

theorem performs_moveTextWithLeading :
    env.Performs 2 "TD" fun _ operands => (Operator.offsetArguments ⟨"TD", operands⟩).map
      fun offset => Operator.leadingChange offset.1 offset.2 := by
  refine performs_expanding hbare Operator.offsetArguments _
    (fun _ _ offset => [⟨"TL", [Operator.negate offset.2]⟩, ⟨"Td", [offset.1, offset.2]⟩]) rfl
    (fun state args => ?_) fun {state operands offset} h => ?_
  · simp only [Operator.offsetArguments, Result.map_bind]
    rfl
  · obtain ⟨x, hx, h⟩ := Result.bind_eq_ok.1 h
    obtain ⟨y, hy, h⟩ := Result.bind_eq_ok.1 h
    obtain rfl := Except.ok.inj h
    have hx := (Arguments.numeric_eq_ok.1 hx).2
    have hy := (Arguments.numeric_eq_ok.1 hy).2
    exact doesAll_cons (does_of_effect? (operator?_of_builtIn? hbare rfl)
        (Operator.effect?_numeric (Operand.number?_negate hy)))
      (doesAll_cons (does_of_effect? (operator?_of_builtIn? hbare rfl)
        (Operator.effect?_moveText (Operand.number?_eq_amount hx)
          (Operand.number?_eq_amount hy))) doesAll_nil)

theorem performs_nextLine :
    env.Performs 2 "T*" fun _ _ => .ok Operator.lineChange :=
  performs_expanding hbare (fun _ => .ok ()) (fun _ => Operator.lineChange)
    (fun state _ _ => [⟨"Td", [.integer 0, .real (-state.graphics.text.leading)]⟩]) rfl
    (fun _ _ => rfl) fun _ =>
      doesAll_cons (does_of_effect? (operator?_of_builtIn? hbare rfl)
        (Operator.effect?_moveText rfl rfl)) doesAll_nil

theorem performs_nextLineShowText :
    env.Performs 3 "'" fun _ operands => (Arguments.string ⟨"'", operands⟩ 0).map
      fun _ => Operator.lineChange := by
  refine performs_expanding hbare (·.string 0) _
    (fun _ args _ => [⟨"T*", []⟩, ⟨"Tj", args.operands.take 1⟩]) rfl (fun state args => ?_)
    fun {state operands bytes} h => ?_
  · cases args.string 0 with
    | error error => rfl
    | ok bytes => rfl
  · obtain ⟨value, hvalue, hstring⟩ := Option.bind_eq_some_iff.1 (Arguments.get_eq_ok.1 h)
    rw [List.take_one, List.head?_eq_getElem?, hvalue]
    exact doesAll_cons (performs_nextLine hbare state []) (doesAll_cons
      (does_of_effect? (operator?_of_builtIn? hbare rfl) (Operator.effect?_showText hstring))
      doesAll_nil)

theorem performs_spacedNextLineShowText :
    env.Performs 4 "\"" fun _ operands => (Operator.spacingArguments ⟨"\"", operands⟩).map
      fun spacing => Operator.spacedLineChange spacing.1 spacing.2 := by
  refine performs_expanding hbare Operator.spacingArguments _
    (fun _ args spacing => [⟨"Tw", [spacing.1]⟩, ⟨"Tc", [spacing.2]⟩,
      ⟨"'", (args.operands.drop 2).take 1⟩]) rfl
    (fun state args => ?_) fun {state operands spacing} h => ?_
  · simp only [Operator.spacingArguments, Result.map_bind]
    rfl
  · obtain ⟨word, hword, h⟩ := Result.bind_eq_ok.1 h
    obtain ⟨character, hcharacter, h⟩ := Result.bind_eq_ok.1 h
    obtain ⟨bytes, hbytes, h⟩ := Result.bind_eq_ok.1 h
    obtain rfl := Except.ok.inj h
    have hword := (Arguments.numeric_eq_ok.1 hword).2
    have hcharacter := (Arguments.numeric_eq_ok.1 hcharacter).2
    obtain ⟨value, hvalue, hstring⟩ := Option.bind_eq_some_iff.1 (Arguments.get_eq_ok.1 hbytes)
    have hshow : Arguments.string ⟨"'", [value]⟩ 0 = .ok bytes := Arguments.get_eq_ok.2 hstring
    have hline := performs_nextLineShowText hbare
      (state.withGraphics (Operator.withSpacing state.graphics word character)) [value]
    dsimp only at hline
    rw [hshow] at hline
    rw [List.take_one, List.head?_drop, hvalue]
    exact doesAll_cons (does_of_effect? (operator?_of_builtIn? hbare rfl)
        (Operator.effect?_numeric (Operand.number?_eq_amount hword)))
      (doesAll_cons (does_of_effect? (operator?_of_builtIn? hbare rfl)
        (Operator.effect?_numeric (Operand.number?_eq_amount hcharacter)))
      (doesAll_cons hline doesAll_nil))

end Shorthand

/-! ## Changes of operations -/

private theorem fit_moveTextWithLeading : Changes.Fit "TD" fun _ operands =>
    (Operator.offsetArguments ⟨"TD", operands⟩).map
      fun offset => Operator.leadingChange offset.1 offset.2 :=
  Changes.fit_map fun _ => Change.fits_parts
    ⟨by decide, fun hnot => absurd (by decide) hnot, fun _ => ⟨_, fun _ => rfl⟩,
      fun hnot => absurd (by decide) hnot⟩
    (fun hnot => absurd (by decide) hnot) (by decide)

private theorem fit_spacedNextLineShowText : Changes.Fit "\"" fun _ operands =>
    (Operator.spacingArguments ⟨"\"", operands⟩).map
      fun spacing => Operator.spacedLineChange spacing.1 spacing.2 :=
  Changes.fit_map fun _ => Change.fits_parts
    ⟨by decide, fun hnot => absurd (by decide) hnot, fun hmem => absurd hmem (by decide),
      fun _ _ => rfl⟩
    (fun hnot => absurd (by decide) hnot) (by decide)

private theorem fit_unknown {name : String} (h : Operator.builtIn? name = none) :
    Changes.Fit name fun _ _ => .ok {} := by
  have hnot := Operator.notMem_actingNames_of_builtIn? h
  simp only [Operator.actingNames, List.mem_append, not_or] at hnot
  obtain ⟨⟨⟨⟨hstack, hobject⟩, -⟩, hsequences⟩, hdepth⟩ := hnot
  exact Changes.fit_ok fun _ => Change.fits_parts (StackChange.fits_id hstack) (fun _ => rfl)
    ⟨Operator.target?_of_notMem hobject, hsequences, hdepth⟩

private theorem performs_unknown {name : String} (h : env.operator? name = none) :
    env.Performs 1 name fun _ _ => .ok {} := by
  intro state operands
  unfold Does
  rw [invokeWithin, h]
  exact ⟨_, rfl⟩

theorem exists_performs (hbare : env.overrides = []) (name : String) :
    ∃ changes : Changes, changes.Fit name ∧ ∃ levels ≤ 4, env.Performs levels name changes := by
  have hfound := operator?_eq_builtIn? hbare name
  cases hbuiltIn : Operator.builtIn? name with
  | none =>
      rw [hbuiltIn] at hfound
      exact ⟨_, fit_unknown hbuiltIn, 1, by decide, performs_unknown hfound⟩
  | some operator =>
      rw [hbuiltIn] at hfound
      obtain rfl : operator.name = name := by simpa using List.find?_some hbuiltIn
      rcases Operator.makesChanges_builtIn operator (List.mem_of_find?_eq_some hbuiltIn) with
        ⟨changes, hfit, hreply⟩ | hshorthand
      · exact ⟨changes env.resources, hfit _, 1, by decide,
          fun state operands => does_of_effect? hfound (hreply env.resources state operands)⟩
      · simp only [Operator.shorthands, List.mem_cons, List.not_mem_nil, or_false] at hshorthand
        rcases hshorthand with rfl | rfl | rfl | rfl
        · exact ⟨_, fit_moveTextWithLeading, 2, by decide, performs_moveTextWithLeading hbare⟩
        · exact ⟨_, Changes.fit_ok (Operator.fits_text (by decide)), 2, by decide,
            performs_nextLine hbare⟩
        · exact ⟨_, Changes.fit_map fun _ => Operator.fits_text (by decide) _, 3, by decide,
            performs_nextLineShowText hbare⟩
        · exact ⟨_, fit_spacedNextLineShowText, 4, by decide,
            performs_spacedNextLineShowText hbare⟩

private theorem after_of_keeps (hbare : env.overrides = []) {outcome : Outcome}
    (h : outcome.Keeps [] fun _ => True) : env.after outcome = env := by
  have hnone : outcome.overrides = [] := List.subset_nil.1 h.overrides
  rw [after, hnone, ← hbare]

private theorem keeps_true (operator : Operator)
    (h : operator ∈ ([] : List Operator) ∨ operator ∈ Operator.builtIn) :
    operator.Keeps fun _ => True :=
  Operator.keeps_true_builtIn operator (h.resolve_left List.not_mem_nil)

theorem after_invoke (hbare : env.overrides = []) (state : PageState) (operation : Operation) :
    env.after (env.invoke state operation) = env :=
  after_of_keeps hbare (invoke_keeps keeps_true (hbare ▸ List.Subset.refl _) trivial
    operation)

theorem after_run (hbare : env.overrides = []) (state : PageState)
    (operations : List Operation) : env.after (env.run state operations) = env :=
  after_of_keeps hbare (run_keeps keeps_true (hbare ▸ List.Subset.refl _) trivial
    operations)

/-- An operation has its changes as a whole, or fails and leaves the state as it is. -/
theorem exists_changes (hbare : env.overrides = []) (name : String) :
    ∃ changes : Changes, changes.Fit name ∧ ∀ state operands,
      (env.invoke state ⟨name, operands⟩).effect =
        state.settle ((changes state.graphics operands).map (·.apply state)) := by
  obtain ⟨changes, hfit, levels, hlevels, hperforms⟩ := exists_performs hbare name
  refine ⟨changes, hfit, fun state operands => (hperforms state operands).effect_invoke ?_⟩
  unfold Environment.levels
  omega

def Step (env : Environment) (state : PageState) (operation : Operation) (next : PageState) :
    Prop :=
  (env.invoke state operation).effect = (next, none)

/-- The operations succeed and take the one state to the other. -/
def Reaches (env : Environment) (state : PageState) (operations : List Operation)
    (last : PageState) : Prop :=
  (env.run state operations).effect = (last, none)

theorem reaches_of_failure (h : (env.run state operations).failure = none) :
    env.Reaches state operations (env.run state operations).state := by
  rw [Reaches, Outcome.effect, h]

theorem reaches_nil {last : PageState} : env.Reaches state [] last ↔ last = state := by
  simp [Reaches, run, Outcome.effect, eq_comm]

variable {last : PageState} {others : List Operation}

theorem reaches_cons (hbare : env.overrides = []) :
    env.Reaches state (operation :: operations) last ↔
      ∃ next, env.Step state operation next ∧ env.Reaches next operations last := by
  unfold Reaches Step
  rw [run, after_invoke hbare]
  cases hfailed : (env.invoke state operation).failure with
  | some error => simp [Outcome.effect, hfailed]
  | none => simp [Outcome.effect, hfailed]

theorem reaches_append (hbare : env.overrides = []) :
    env.Reaches state (operations ++ others) last ↔
      ∃ next, env.Reaches state operations next ∧ env.Reaches next others last := by
  induction operations generalizing state with
  | nil => simp [reaches_nil]
  | cons operation operations ih =>
      simp only [List.cons_append, reaches_cons hbare, ih]
      constructor
      · rintro ⟨next, hnext, middle, hmiddle, hlast⟩
        exact ⟨middle, ⟨next, hnext, hmiddle⟩, hlast⟩
      · rintro ⟨middle, ⟨next, hnext, hmiddle⟩, hlast⟩
        exact ⟨next, hnext, middle, hmiddle, hlast⟩

private theorem settle_eq_iff {result : Except Error PageState} :
    state.settle result = (next, none) ↔ result = .ok next := by
  cases result with
  | error error => simp [PageState.settle]
  | ok found => simp [PageState.settle]

private theorem settle_map_eq_iff {changed : Except Error Change} :
    state.settle (changed.map (·.apply state)) = (next, none) ↔
      ∃ change, changed = .ok change ∧ next = change.apply state := by
  rw [settle_eq_iff, Result.map_eq_ok]
  simp only [eq_comm]

theorem step_updating_iff (hbare : env.overrides = []) {name : String} {shape : Shape}
    {update : Resources → PageState → Arguments → Except Error PageState}
    (hfound : Operator.builtIn? name = some (Operator.updating name shape update))
    (operands : List Operand) : env.Step state ⟨name, operands⟩ next ↔
      update env.resources state ⟨name, operands⟩ = .ok next := by
  rw [Step, effect_invoke ((operator?_eq_builtIn? hbare name).trans hfound)
    (Operator.effect?_updating update env.resources state operands), settle_eq_iff]

theorem Performs.step_iff {name : String} {changes : Changes}
    (h : env.Performs levels name changes) (hle : levels ≤ env.levels)
    (operands : List Operand) : env.Step state ⟨name, operands⟩ next ↔
      ∃ change, changes state.graphics operands = .ok change ∧ next = change.apply state := by
  rw [Step, (h state operands).effect_invoke hle, settle_map_eq_iff]

theorem exists_step_iff (hbare : env.overrides = []) (name : String) :
    ∃ changes : Changes, changes.Fit name ∧ ∀ state operands next,
      env.Step state ⟨name, operands⟩ next ↔
        ∃ change, changes state.graphics operands = .ok change ∧ next = change.apply state := by
  obtain ⟨changes, hfit, heffect⟩ := exists_changes hbare name
  refine ⟨changes, hfit, fun state operands next => ?_⟩
  rw [Step, heffect, settle_map_eq_iff]

end Environment

end ContentStream
