import ContentStream.Proofs.Interpreter.Nesting
import ContentStream.Proofs.Operator.Settings

/-!
# Scopes of parameters

What an operation sets between a save and the restore that closes it is undone.  So after a
run every parameter of the graphics state has the value that was written last outside of
such pairs, or its initial value if there is none.
-/

namespace ContentStream

namespace Operation

/-- The operation that stands between the others lies inside a save and the restore that
closes it. -/
def Hidden (before : List Operation) (operation : Operation) (after : List Operation) : Prop :=
  ∃ outer save inner inner' restore outer',
    before = outer ++ save :: inner ∧ after = inner' ++ restore :: outer' ∧
      save.name = "q" ∧ restore.name = "Q" ∧ nested 0 (inner ++ operation :: inner') = true

def openSaves : (depth : Nat) → List Operation → Nat
  | depth, [] => depth
  | depth, operation :: operations =>
    if operation.name = "q" then openSaves (depth + 1) operations
    else if operation.name = "Q" then openSaves (depth - 1) operations
    else openSaves depth operations

def openRestores : List Operation → Nat
  | [] => 0
  | operation :: operations =>
    if operation.name = "q" then openRestores operations - 1
    else if operation.name = "Q" then openRestores operations + 1
    else openRestores operations

/-- Induction that tells operations that save and restore from the others. -/
theorem induction_saves {motive : List Operation → Prop} (nil : motive [])
    (save : ∀ operation operations, operation.name = "q" → motive operations →
      motive (operation :: operations))
    (restore : ∀ operation operations, operation.name = "Q" → motive operations →
      motive (operation :: operations))
    (other : ∀ operation operations, operation.name ≠ "q" → operation.name ≠ "Q" →
      motive operations → motive (operation :: operations))
    (operations : List Operation) : motive operations := by
  induction operations with
  | nil => exact nil
  | cons operation operations ih =>
      by_cases hsave : operation.name = "q"
      · exact save operation operations hsave ih
      · by_cases hrestore : operation.name = "Q"
        · exact restore operation operations hrestore ih
        · exact other operation operations hsave hrestore ih

section Restore

variable {operation : Operation} (h : operation.name = "Q") (depth : Nat)
  (operations : List Operation)
include h

private theorem nested_restore : nested depth (operation :: operations) = true ↔
    0 < depth ∧ nested (depth - 1) operations = true := by
  simp [nested, h, Nat.pos_iff_ne_zero]

private theorem openSaves_restore :
    openSaves depth (operation :: operations) = openSaves (depth - 1) operations := by
  simp [openSaves, h]

private theorem openRestores_restore :
    openRestores (operation :: operations) = openRestores operations + 1 := by
  simp [openRestores, h]

end Restore

theorem openSaves_append (depth : Nat) (operations others : List Operation) :
    openSaves depth (operations ++ others) = openSaves (openSaves depth operations) others := by
  induction operations using induction_saves generalizing depth with
  | nil => rfl
  | save operation operations hname ih => simp [openSaves, hname, ih]
  | restore operation operations hname ih =>
      rw [List.cons_append, openSaves_restore hname, openSaves_restore hname, ih]
  | other operation operations hsave hrestore ih => simp [openSaves, hsave, hrestore, ih]

section Nested

variable {operations others : List Operation} {depth depth' : Nat}

theorem nested_append (h : nested depth operations = true)
    (hothers : nested depth' others = true) :
    nested (depth + depth') (operations ++ others) = true := by
  induction operations using induction_saves generalizing depth with
  | nil =>
      obtain rfl : depth = 0 := by simpa [nested] using h
      simpa using hothers
  | save operation operations hname ih =>
      simp only [List.cons_append, nested, hname, if_true] at h ⊢
      rw [Nat.add_right_comm]
      exact ih h
  | restore operation operations hname ih =>
      obtain ⟨hpositive, h⟩ := (nested_restore hname _ _).1 h
      rw [List.cons_append, nested_restore hname, Nat.sub_add_comm (by omega)]
      exact ⟨by omega, ih h⟩
  | other operation operations hsave hrestore ih =>
      simp only [List.cons_append, nested, hsave, hrestore, if_false] at h ⊢
      exact ih h

theorem openSaves_of_nested (h : nested depth (operations ++ others) = true) (more : Nat) :
    openSaves (depth + more) operations = openSaves depth operations + more ∧
      nested (openSaves depth operations) others = true := by
  induction operations using induction_saves generalizing depth with
  | nil => exact ⟨rfl, h⟩
  | save operation operations hname ih =>
      simp only [List.cons_append, nested, openSaves, hname, if_true] at h ⊢
      rw [Nat.add_right_comm]
      exact ih h
  | restore operation operations hname ih =>
      obtain ⟨hpositive, h⟩ := (nested_restore hname _ _).1 h
      rw [openSaves_restore hname, openSaves_restore hname, Nat.sub_add_comm (by omega)]
      exact ih h
  | other operation operations hsave hrestore ih =>
      simp only [List.cons_append, nested, openSaves, hsave, hrestore, if_false] at h ⊢
      exact ih h

theorem openRestores_append (h : nested depth operations = true) (others : List Operation) :
    openRestores (operations ++ others) = openRestores others + depth := by
  induction operations using induction_saves generalizing depth with
  | nil =>
      obtain rfl : depth = 0 := by simpa [nested] using h
      rfl
  | save operation operations hname ih =>
      simp only [List.cons_append, nested, openRestores, hname, if_true] at h ⊢
      rw [ih h]
      omega
  | restore operation operations hname ih =>
      obtain ⟨hpositive, h⟩ := (nested_restore hname _ _).1 h
      rw [List.cons_append, openRestores_restore hname, ih h]
      omega
  | other operation operations hsave hrestore ih =>
      simp only [List.cons_append, nested, openRestores, hsave, hrestore, if_false] at h ⊢
      exact ih h

end Nested

/-! ## Where an operation is hidden -/

private theorem openSaves_cases (depth : Nat) (operations : List Operation) :
    (∃ outer save inner, operations = outer ++ save :: inner ∧ save.name = "q" ∧
        nested 0 inner = true) ∨
      ∃ closed, nested closed operations = true ∧
        openSaves depth operations = depth - closed := by
  induction operations using induction_saves generalizing depth with
  | nil => exact .inr ⟨0, rfl, rfl⟩
  | save operation operations hname ih =>
      rcases ih (depth + 1) with ⟨outer, save, inner, rfl, h⟩ | ⟨closed, hnested, hopen⟩
      · exact .inl ⟨operation :: outer, save, inner, rfl, h⟩
      · cases closed with
        -- Nothing closes this save, and all later ones are closed.
        | zero => exact .inl ⟨[], operation, operations, rfl, hname, hnested⟩
        | succ closed =>
            refine .inr ⟨closed, by simpa [nested, hname] using hnested, ?_⟩
            simp only [openSaves, hname, if_true]
            omega
  | restore operation operations hname ih =>
      rcases ih (depth - 1) with ⟨outer, save, inner, rfl, h⟩ | ⟨closed, hnested, hopen⟩
      · exact .inl ⟨operation :: outer, save, inner, rfl, h⟩
      · refine .inr ⟨closed + 1, (nested_restore hname _ _).2 ⟨by omega, hnested⟩, ?_⟩
        rw [openSaves_restore hname]
        omega
  | other operation operations hsave hrestore ih =>
      rcases ih depth with ⟨outer, save, inner, rfl, h⟩ | ⟨closed, hnested, hopen⟩
      · exact .inl ⟨operation :: outer, save, inner, rfl, h⟩
      · exact .inr ⟨closed, by simpa [nested, hsave, hrestore] using hnested,
          by simpa [openSaves, hsave, hrestore] using hopen⟩

private theorem exists_save {operations : List Operation} (h : 0 < openSaves 0 operations) :
    ∃ outer save inner, operations = outer ++ save :: inner ∧ save.name = "q" ∧
      nested 0 inner = true := by
  refine (openSaves_cases 0 operations).resolve_right ?_
  rintro ⟨closed, -, hopen⟩
  omega

private theorem exists_restore {operations : List Operation} {depth : Nat}
    (h : depth < openRestores operations) :
    ∃ inner restore outer, operations = inner ++ restore :: outer ∧ restore.name = "Q" ∧
      nested depth inner = true := by
  induction operations using induction_saves generalizing depth with
  | nil => contradiction
  | save operation operations hname ih =>
      simp only [openRestores, hname, if_true] at h
      obtain ⟨inner, restore, outer, rfl, hrestore, hnested⟩ :=
        ih (show depth + 1 < openRestores operations by omega)
      exact ⟨operation :: inner, restore, outer, rfl, hrestore,
        by simpa [nested, hname] using hnested⟩
  | restore operation operations hname ih =>
      cases depth with
      | zero => exact ⟨[], operation, operations, rfl, hname, rfl⟩
      | succ depth =>
          rw [openRestores_restore hname] at h
          obtain ⟨inner, restore, outer, rfl, hrestore, hnested⟩ := ih (Nat.lt_of_succ_lt_succ h)
          exact ⟨operation :: inner, restore, outer, rfl, hrestore,
            (nested_restore hname _ _).2 ⟨by omega, hnested⟩⟩
  | other operation operations hsave hrestore ih =>
      simp only [openRestores, hsave, hrestore, if_false] at h
      obtain ⟨inner, restore, outer, rfl, hname, hnested⟩ := ih h
      exact ⟨operation :: inner, restore, outer, rfl, hname,
        by simpa [nested, hsave, hrestore] using hnested⟩

theorem hidden_iff {before after : List Operation} {operation : Operation}
    (hsave : operation.name ≠ "q") (hrestore : operation.name ≠ "Q") :
    Hidden before operation after ↔ 0 < openSaves 0 before ∧ 0 < openRestores after := by
  constructor
  · rintro ⟨outer, save, inner, inner', restore, outer', rfl, rfl, hopen, hclose, hnested⟩
    obtain ⟨hmore, hafter⟩ := openSaves_of_nested hnested (openSaves 0 outer + 1)
    constructor
    · simp only [openSaves_append, openSaves, hopen, if_true]
      rw [Nat.zero_add] at hmore
      omega
    · have hinner : nested (openSaves 0 inner) inner' = true := by
        simpa [nested, hsave, hrestore] using hafter
      rw [openRestores_append hinner, openRestores_restore hclose]
      omega
  · rintro ⟨hopen, hclose⟩
    obtain ⟨outer, save, inner, rfl, hname, hinner⟩ := exists_save hopen
    obtain ⟨inner', restore, outer', rfl, hname', hinner'⟩ := exists_restore hclose
    refine ⟨outer, save, inner, inner', restore, outer', rfl, rfl, hname, hname', ?_⟩
    have hothers : nested 0 (operation :: inner') = true := by
      simpa [nested, hsave, hrestore] using hinner'
    exact nested_append hinner hothers

end Operation

namespace StateStack

def restored : StateStack → Nat → GraphicsState
  | stack, 0 => stack.current
  | stack, count + 1 => restored (StackChange.restore.apply stack) count

theorem restored_save (stack : StateStack) (count : Nat) :
    stack.save.restored count = stack.restored (count - 1) := by
  cases count <;> rfl

theorem restored_of_saved_eq_nil {stack : StateStack} (h : stack.saved = []) (count : Nat) :
    stack.restored count = stack.current := by
  obtain ⟨current, saved⟩ := stack
  subst h
  induction count with
  | zero => rfl
  | succ count ih => exact ih

theorem restored_congr {stack stack' : StateStack} (h : stack.saved = stack'.saved) {count : Nat}
    (hcount : 0 < count) (hdepth : 0 < stack'.depth) :
    stack.restored count = stack'.restored count := by
  obtain ⟨current, saved⟩ := stack
  obtain ⟨current', saved'⟩ := stack'
  obtain rfl : saved = saved' := h
  cases saved with
  | nil => contradiction
  | cons first saved =>
      cases count with
      | zero => contradiction
      | succ count => rfl

theorem get_restored_congr {p : Parameter} {stack stack' : StateStack}
    (h : stack.saved = stack'.saved) (hget : p.get stack.current = p.get stack'.current)
    (count : Nat) : p.get (stack.restored count) = p.get (stack'.restored count) := by
  rcases Nat.eq_zero_or_pos count with rfl | hcount
  · exact hget
  rcases Nat.eq_zero_or_pos stack'.depth with hnone | hdepth
  · have hsaved' : stack'.saved = [] := List.eq_nil_of_length_eq_zero hnone
    rw [restored_of_saved_eq_nil (h.trans hsaved'), restored_of_saved_eq_nil hsaved', hget]
  · rw [restored_congr h hcount hdepth]

end StateStack

namespace Environment

variable {env : Environment} {state next last : PageState} {operation : Operation}
  {operations : List Operation}

/-! ## Single operations -/

private theorem follows_moveTextWithLeading (hbare : env.overrides = []) {operands : List Operand}
    (h : env.Step state ⟨"TD", operands⟩ next) (p : Parameter) :
    p.Follows env.resources ⟨"TD", operands⟩ state.graphics next.graphics := by
  obtain ⟨_, hchange, rfl⟩ :=
    ((performs_moveTextWithLeading hbare).step_iff (by unfold levels; omega) operands).1 h
  obtain ⟨offset, hoffset, rfl⟩ := Result.map_eq_ok.1 hchange
  obtain ⟨x, -, hoffset⟩ := Result.bind_eq_ok.1 hoffset
  obtain ⟨y, hy, hoffset⟩ := Result.bind_eq_ok.1 hoffset
  obtain rfl := Except.ok.inj hoffset
  obtain ⟨hy, hnumber⟩ := Arguments.numeric_eq_ok.1 hy
  have hy : operands[1]? = some y := hy
  refine Parameter.follows_set (p := .leading) (x := (Operator.negate y).amount) (by decide) ?_ p
  simp [Parameter.ofOperands?, hy, Operand.number?_negate hnumber]

private theorem follows_spacedNextLineShowText (hbare : env.overrides = [])
    {operands : List Operand} (h : env.Step state ⟨"\"", operands⟩ next) (p : Parameter) :
    p.Follows env.resources ⟨"\"", operands⟩ state.graphics next.graphics := by
  obtain ⟨_, hchange, rfl⟩ :=
    ((performs_spacedNextLineShowText hbare).step_iff (by unfold levels; omega) operands).1 h
  obtain ⟨spacing, hspacing, rfl⟩ := Result.map_eq_ok.1 hchange
  obtain ⟨word, hword, hspacing⟩ := Result.bind_eq_ok.1 hspacing
  obtain ⟨character, hcharacter, hspacing⟩ := Result.bind_eq_ok.1 hspacing
  obtain ⟨bytes, -, hspacing⟩ := Result.bind_eq_ok.1 hspacing
  obtain rfl := Except.ok.inj hspacing
  obtain ⟨hword, hwordNumber⟩ := Arguments.numeric_eq_ok.1 hword
  obtain ⟨hcharacter, hcharacterNumber⟩ := Arguments.numeric_eq_ok.1 hcharacter
  have hword : operands[0]? = some word := hword
  have hcharacter : operands[1]? = some character := hcharacter
  have hset : Parameter.AreSetBy "\"" [.wordSpacing, .characterSpacing] := by decide
  show p.Follows env.resources ⟨"\"", operands⟩ state.graphics (Parameter.characterSpacing.set
    (Parameter.wordSpacing.set state.graphics word.amount) character.amount)
  refine Parameter.follows_set_set hset (by decide) ?_ ?_ p
  · simp [Parameter.ofOperands?, hword, Operand.number?_eq_amount hwordNumber]
  · simp [Parameter.ofOperands?, hcharacter, Operand.number?_eq_amount hcharacterNumber]

private theorem follows_of_builtIn? (hbare : env.overrides = []) {operator : Operator}
    {operands : List Operand} (hfound : Operator.builtIn? operator.name = some operator)
    (h : env.Step state ⟨operator.name, operands⟩ next)
    (hstack : operator.name ∈ Operator.stackNames) (hname : operator.name ∉ ["q", "Q"])
    (p : Parameter) :
    p.Follows env.resources ⟨operator.name, operands⟩ state.graphics next.graphics := by
  have hmember := List.mem_of_find?_eq_some hfound
  by_cases hshorthand : operator ∈ Operator.shorthands
  · simp only [Operator.shorthands, List.mem_cons, List.not_mem_nil, or_false] at hshorthand
    rcases hshorthand with rfl | rfl | rfl | rfl
    · exact follows_moveTextWithLeading hbare h p
    -- The next two only move the text position.
    · exact absurd hstack (by decide)
    · exact absurd hstack (by decide)
    · exact follows_spacedNextLineShowText hbare h p
  · obtain ⟨changes, -, hreply⟩ :=
      (Operator.makesChanges_builtIn operator hmember).resolve_right hshorthand
    have heffect := hreply env.resources state operands
    have hinvoke := effect_invoke ((operator?_eq_builtIn? hbare operator.name).trans hfound) heffect
    rw [← hinvoke, h] at heffect
    rcases Operator.setsOrElse_builtIn operator hmember with hsets | hmem | hsaving
    · exact hsets heffect p
    · exact absurd hmem hshorthand
    · exact absurd (hsaving hstack) hname

theorem Step.follows (hbare : env.overrides = []) (h : env.Step state operation next)
    (hname : operation.name ∉ ["q", "Q"]) (p : Parameter) :
    p.Follows env.resources operation state.graphics next.graphics := by
  by_cases hstack : operation.name ∈ Operator.stackNames
  · cases hfound : Operator.builtIn? operation.name with
    | none =>
        have hnot := Operator.notMem_actingNames_of_builtIn? hfound
        simp only [Operator.actingNames, List.mem_append, not_or] at hnot
        exact absurd hstack hnot.1.1.1.1
    | some operator =>
        obtain ⟨name, operands⟩ := operation
        obtain rfl : operator.name = name := by simpa using List.find?_some hfound
        exact follows_of_builtIn? hbare hfound h hstack hname p
  · obtain ⟨changes, hfit, hsteps⟩ := exists_step_iff hbare operation.name
    obtain ⟨change, hchange, rfl⟩ := (hsteps state operation.operands next).1 h
    have hsame := (hfit.fits hchange).apply_stack_of_notMem hstack state.stack
    refine ⟨fun hset => absurd hset.mem_stackNames.1 hstack, fun _ => ?_⟩
    show p.get (change.stack.apply state.stack).current = p.get state.stack.current
    rw [hsame]

theorem Step.stack_cases (hbare : env.overrides = []) (h : env.Step state operation next) :
    (operation.name = "q" ∧ next.stack = state.stack.save) ∨
      (operation.name = "Q" ∧ next.stack = StackChange.restore.apply state.stack) ∨
        operation.name ∉ ["q", "Q"] ∧ next.stack.saved = state.stack.saved := by
  obtain ⟨changes, hfit, hsteps⟩ := exists_step_iff hbare operation.name
  obtain ⟨change, hchange, rfl⟩ := (hsteps state operation.operands next).1 h
  have hfits := (hfit.fits hchange).stack
  obtain ⟨stack, object, text, sequences, depth⟩ := change
  cases stack with
  | update f => exact .inr (.inr ⟨hfits.1, rfl⟩)
  | save => exact .inl ⟨hfits, rfl⟩
  | restore => exact .inr (.inl ⟨hfits, rfl⟩)

open Operation (openSaves openRestores)

theorem Step.depth (hbare : env.overrides = []) (h : env.Step state operation next) :
    next.stack.depth = openSaves state.stack.depth [operation] := by
  rcases h.stack_cases hbare with ⟨hname, hstack⟩ | ⟨hname, hstack⟩ | ⟨hname, hsaved⟩
  · simp [openSaves, hname, hstack, StateStack.save, StateStack.depth]
  · obtain ⟨⟨current, saved⟩, object, text, sequences, depth⟩ := state
    rw [hstack]
    cases saved <;> simp [openSaves, hname, StackChange.apply, StateStack.restore?,
      StateStack.depth]
  · simp only [List.mem_cons, List.not_mem_nil, or_false, not_or] at hname
    simp [openSaves, hname.1, hname.2, StateStack.depth, hsaved]

theorem Reaches.depth (hbare : env.overrides = []) (h : env.Reaches state operations last) :
    last.stack.depth = openSaves state.stack.depth operations := by
  induction operations generalizing state with
  | nil =>
      obtain rfl := reaches_nil.1 h
      rfl
  | cons operation operations ih =>
      obtain ⟨next, hstep, hothers⟩ := (reaches_cons hbare).1 h
      rw [ih hothers, hstep.depth hbare, ← Operation.openSaves_append]
      rfl

/-- A parameter that is set only between a save and a restore is what it was before, or what
it was at the save that the last open restore closes. -/
theorem Reaches.get_eq (hbare : env.overrides = []) {p : Parameter}
    (h : env.Reaches state operations last)
    (hhidden : ∀ before operation after, operations = before ++ operation :: after →
      p.IsSetBy env.resources operation →
        0 < openSaves state.stack.depth before ∧ 0 < openRestores after) :
    p.get last.graphics = p.get (state.stack.restored (openRestores operations)) := by
  -- The restores of the other operations that close no save of theirs are still to come.
  induction operations generalizing state with
  | nil =>
      obtain rfl := reaches_nil.1 h
      rfl
  | cons operation operations ih =>
      obtain ⟨next, hstep, hothers⟩ := (reaches_cons hbare).1 h
      have hlast := ih hothers fun before other after hsplit hset => by
        have hbefore := hhidden (operation :: before) other after (by rw [hsplit]; rfl) hset
        rwa [← List.singleton_append, Operation.openSaves_append, ← hstep.depth hbare] at hbefore
      rw [hlast]
      rcases hstep.stack_cases hbare with ⟨hname, hstack⟩ | ⟨hname, hstack⟩ | ⟨hname, hsaved⟩
      · simp [openRestores, hname, hstack, StateStack.restored_save]
      · simp [openRestores, hname, hstack, StateStack.restored]
      · have hfollows := hstep.follows hbare hname p
        simp only [List.mem_cons, List.not_mem_nil, or_false, not_or] at hname
        rw [openRestores, if_neg hname.1, if_neg hname.2]
        by_cases hset : p.IsSetBy env.resources operation
        · obtain ⟨hdepth, hrestores⟩ := hhidden [] operation operations rfl hset
          rw [StateStack.restored_congr hsaved hrestores hdepth]
        · exact StateStack.get_restored_congr hsaved (hfollows.kept hset) _

end Environment

/-! ## The last operation that is not hidden -/

/-- The operation that stands between the others sets the parameter outside of all scopes, and
all later ones that set it are hidden. -/
structure Parameter.IsLastSetBy (resources : Resources) (before : List Operation)
    (operation : Operation) (after : List Operation) (p : Parameter) : Prop where
  isSetBy : p.IsSetBy resources operation
  not_hidden : ¬Operation.Hidden before operation after
  later : ∀ middle other rest, after = middle ++ other :: rest → p.IsSetBy resources other →
    Operation.Hidden (before ++ operation :: middle) other rest

private theorem exists_last_or {α : Type} {q : List α → α → List α → Prop}
    (start items : List α) :
    (∃ before item after, items = before ++ item :: after ∧ q (start ++ before) item after ∧
        ∀ middle other rest, after = middle ++ other :: rest →
          ¬q (start ++ before ++ item :: middle) other rest) ∨
      ∀ before item after, items = before ++ item :: after → ¬q (start ++ before) item after := by
  induction items generalizing start with
  | nil => exact .inr fun before item after h => by simp at h
  | cons first items ih =>
      rcases ih (start ++ [first]) with ⟨before, item, after, rfl, hitem, hlater⟩ | hnone
      · exact .inl ⟨first :: before, item, after, rfl, by simpa using hitem, by simpa using hlater⟩
      · by_cases hfirst : q start first items
        · exact .inl ⟨[], first, items, rfl, by simpa using hfirst, by simpa using hnone⟩
        · refine .inr fun before item after h => ?_
          cases before with
          | nil =>
              obtain ⟨rfl, rfl⟩ := List.cons.inj h
              simpa using hfirst
          | cons other before =>
              obtain ⟨rfl, hitems⟩ := List.cons.inj h
              simpa using hnone before item after hitems

namespace Parameter

variable {resources : Resources} {operations before after : List Operation}
  {operation : Operation}

theorem exists_isLastSetBy_or (resources : Resources) (operations : List Operation)
    (p : Parameter) :
    (∃ before operation after, operations = before ++ operation :: after ∧
        p.IsLastSetBy resources before operation after) ∨
      ∀ before operation after, operations = before ++ operation :: after →
        p.IsSetBy resources operation → Operation.Hidden before operation after := by
  rcases exists_last_or (q := fun before operation after =>
      p.IsSetBy resources operation ∧ ¬Operation.Hidden before operation after) [] operations with
    ⟨before, operation, after, hsplit, ⟨hset, hhidden⟩, hlater⟩ | hnone
  · refine .inl ⟨before, operation, after, hsplit, hset, hhidden, ?_⟩
    intro middle other rest hrest hother
    by_contra hnot
    exact hlater middle other rest hrest ⟨hother, hnot⟩
  · refine .inr fun before operation after hsplit hset => ?_
    by_contra hnot
    exact hnone before operation after hsplit ⟨hset, hnot⟩

theorem IsSetBy.hidden_iff {p : Parameter} (h : p.IsSetBy resources operation) :
    Operation.Hidden before operation after ↔
      0 < Operation.openSaves 0 before ∧ 0 < Operation.openRestores after := by
  obtain ⟨-, hname⟩ := h.mem_stackNames
  simp only [List.mem_cons, List.not_mem_nil, or_false, not_or] at hname
  exact Operation.hidden_iff hname.1 hname.2

end Parameter

namespace Environment

variable {env : Environment} {last : PageState} {operations before after : List Operation}
  {operation : Operation} {p : Parameter}

private theorem get_eq_initial (hbare : env.overrides = [])
    (h : env.Reaches .initial operations last)
    (hhidden : ∀ before operation after, operations = before ++ operation :: after →
      p.IsSetBy env.resources operation → Operation.Hidden before operation after) :
    p.get last.graphics = p.get GraphicsState.initial := by
  have hlast := h.get_eq hbare fun before operation after hsplit hset =>
    hset.hidden_iff.1 (hhidden before operation after hsplit hset)
  rw [hlast, StateStack.restored_of_saved_eq_nil rfl]
  rfl

private theorem written?_of_isLastSetBy (hbare : env.overrides = [])
    (h : env.Reaches .initial (before ++ operation :: after) last)
    (hlast : p.IsLastSetBy env.resources before operation after) :
    p.written? env.resources (env.run .initial before).state.graphics operation =
      some (p.get last.graphics) := by
  obtain ⟨middle, hbefore, hrest⟩ := (reaches_append hbare).1 h
  obtain ⟨next, hstep, hafter⟩ := (reaches_cons hbare).1 hrest
  obtain rfl : (env.run .initial before).state = middle := (Prod.mk.inj hbefore).1
  have hname := hlast.isSetBy.mem_stackNames.2
  rw [(hstep.follows hbare hname p).written hlast.isSetBy]
  have hdepth : next.stack.depth = Operation.openSaves 0 (before ++ [operation]) := by
    rw [hstep.depth hbare, hbefore.depth hbare, Operation.openSaves_append]
    rfl
  have hget := hafter.get_eq hbare fun middle other rest hsplit hset => by
    have hhidden := hset.hidden_iff.1 (hlast.later middle other rest hsplit hset)
    rwa [hdepth, ← Operation.openSaves_append, List.append_assoc]
  have hvisible := mt hlast.isSetBy.hidden_iff.2 hlast.not_hidden
  rw [hget]
  -- Either no later restore closes a save from before, or there was no save to close.
  rcases Nat.eq_zero_or_pos (Operation.openRestores after) with hnone | hrestores
  · rw [hnone]
    rfl
  · have hsaved : next.stack.saved = [] := by
      refine List.eq_nil_of_length_eq_zero ?_
      simp only [List.mem_cons, List.not_mem_nil, or_false, not_or] at hname
      simp only [Operation.openSaves_append, Operation.openSaves, hname, if_false] at hdepth
      rw [StateStack.depth] at hdepth
      omega
    rw [StateStack.restored_of_saved_eq_nil hsaved]
    rfl

/-- What a parameter is after a run was written by one of the operations, or is its initial
value. -/
theorem Reaches.written_or_initial (hbare : env.overrides = [])
    (h : env.Reaches .initial operations last) (p : Parameter) :
    (∃ operation ∈ operations, p.IsSetBy env.resources operation ∧
        ∃ graphics, p.written? env.resources graphics operation = some (p.get last.graphics)) ∨
      p.get last.graphics = p.get GraphicsState.initial := by
  rcases p.exists_isLastSetBy_or env.resources operations with
    ⟨before, operation, after, rfl, hlast⟩ | hnone
  · have hwritten := written?_of_isLastSetBy hbare h hlast
    exact .inl ⟨operation, by simp, hlast.isSetBy, _, hwritten⟩
  · exact .inr (get_eq_initial hbare h hnone)

/--
After a successful run every parameter of the graphics state has the value that was written
by the last operation that sets it and is not hidden, or its initial value if there is no
such operation.
-/
theorem run_lastWritten (resources : Resources) (operations : List Operation)
    (h : (run ⟨resources, []⟩ .initial operations).failure = none) (p : Parameter) :
    let env : Environment := ⟨resources, []⟩
    let last := p.get (env.run .initial operations).state.graphics
    (∃ before operation after, operations = before ++ operation :: after ∧
        p.IsLastSetBy resources before operation after ∧
        p.written? resources (env.run .initial before).state.graphics operation = some last) ∨
      (∀ before operation after, operations = before ++ operation :: after →
        p.IsSetBy resources operation → Operation.Hidden before operation after) ∧
        last = p.get GraphicsState.initial := by
  have hbare : (⟨resources, []⟩ : Environment).overrides = [] := rfl
  have hreaches := reaches_of_failure h
  rcases p.exists_isLastSetBy_or resources operations with
    ⟨before, operation, after, rfl, hlast⟩ | hnone
  · have hwritten := written?_of_isLastSetBy hbare hreaches hlast
    exact .inl ⟨before, operation, after, rfl, hlast, hwritten⟩
  · exact .inr ⟨hnone, get_eq_initial hbare hreaches hnone⟩

theorem run_lastWritten_lineWidth :
    let resources : Resources := ⟨[("ExtGState", .dictionary
      [("thick", .dictionary [("LW", .integer 5)])])]⟩
    let operations : List Operation := [⟨"Q", []⟩, ⟨"w", [.integer 2]⟩, ⟨"q", []⟩,
      ⟨"gs", [.name "thick"]⟩, ⟨"Q", []⟩, ⟨"q", []⟩]
    let p := Parameter.lineWidth
    let env : Environment := ⟨resources, []⟩
    let last := p.get (env.run .initial operations).state.graphics
    (∃ before operation after, operations = before ++ operation :: after ∧
        p.IsLastSetBy resources before operation after ∧
        p.written? resources (env.run .initial before).state.graphics operation = some last) ∨
      (∀ before operation after, operations = before ++ operation :: after →
        p.IsSetBy resources operation → Operation.Hidden before operation after) ∧
        last = p.get GraphicsState.initial :=
  run_lastWritten _ _ rfl .lineWidth

end Environment

end ContentStream
