import ContentStream.Proofs.Interpreter.BuiltIn

/-!
# Saving and restoring

Operations in which every saved graphics state is restored again do not touch the states
that were saved before them.  So between an operation that saves and one that restores
they change only what is not saved.  Restoring where nothing is saved has no effect.
-/

namespace ContentStream

/-- Every save is closed by a later restore, the `depth` open ones at the start included, and
no restore goes below them. -/
def Operation.nested : (depth : Nat) → List Operation → Bool
  | depth, [] => depth = 0
  | depth, operation :: operations =>
    if operation.name = "q" then nested (depth + 1) operations
    else if operation.name = "Q" then depth ≠ 0 && nested (depth - 1) operations
    else nested depth operations

namespace PageState

def withSaved (state : PageState) (saved : List GraphicsState) : PageState :=
  { state with stack.saved := saved }

end PageState

namespace Environment

variable {env : Environment} {state last : PageState} {operations : List Operation}

/-- A run that restores what it saves ends with the states saved before it, and does the same
with others in their place. -/
theorem Reaches.nested (hbare : env.overrides = []) {above below : List GraphicsState}
    (h : env.Reaches state operations last)
    (hnested : Operation.nested above.length operations = true)
    (hsaved : state.stack.saved = above ++ below) (below' : List GraphicsState) :
    last.stack.saved = below ∧
      env.Reaches (state.withSaved (above ++ below')) operations (last.withSaved below') := by
  -- `above` holds what the run has saved and not restored yet.
  induction operations generalizing state above with
  | nil =>
      obtain rfl : above = [] := by simpa [Operation.nested] using hnested
      obtain rfl := reaches_nil.1 h
      exact ⟨hsaved, reaches_nil.2 rfl⟩
  | cons operation operations ih =>
      obtain ⟨next, hstep, hothers⟩ := (reaches_cons hbare).1 h
      obtain ⟨changes, hfit, hsteps⟩ := exists_step_iff hbare operation.name
      obtain ⟨change, hchange, rfl⟩ := (hsteps state operation.operands next).1 hstep
      have hfits := (hfit.fits hchange).stack
      have hstep' : env.Step (state.withSaved (above ++ below')) operation
          (change.apply (state.withSaved (above ++ below'))) :=
        (hsteps _ _ _).2 ⟨change, hchange, rfl⟩
      obtain ⟨stack, object, text, sequences, depth⟩ := change
      rw [Operation.nested] at hnested
      cases stack with
      | update f =>
          obtain ⟨hnot, -⟩ := hfits
          simp only [List.mem_cons, List.not_mem_nil, or_false, not_or] at hnot
          rw [if_neg hnot.1, if_neg hnot.2] at hnested
          obtain ⟨hlast, hreaches⟩ := ih hothers hnested hsaved
          exact ⟨hlast, (reaches_cons hbare).2 ⟨_, hstep', hreaches⟩⟩
      | save =>
          have hname : operation.name = "q" := hfits
          rw [if_pos hname] at hnested
          obtain ⟨hlast, hreaches⟩ := @ih _ (state.stack.current :: above) hothers hnested
            (congrArg (state.stack.current :: ·) hsaved)
          exact ⟨hlast, (reaches_cons hbare).2 ⟨_, hstep', hreaches⟩⟩
      | restore =>
          have hname : operation.name = "Q" := hfits
          rw [hname, if_neg (by decide), if_pos rfl, Bool.and_eq_true] at hnested
          obtain ⟨hpositive, hnested⟩ := hnested
          cases above with
          | nil => simp at hpositive
          | cons first above =>
              obtain ⟨hlast, hreaches⟩ := @ih _ above hothers hnested (by
                simp [Change.apply, StackChange.apply, StateStack.restore?, hsaved])
              refine ⟨hlast, (reaches_cons hbare).2 ⟨_, hstep', ?_⟩⟩
              simpa [Change.apply, StackChange.apply, StateStack.restore?, hsaved,
                PageState.withSaved, PageState.graphics] using hreaches

private theorem step_save (hbare : env.overrides = []) (state : PageState)
    (operands : List Operand) : env.Step state ⟨"q", operands⟩
      (state.withSaved (state.graphics :: state.stack.saved)) := by
  have hfound : env.operator? "q" = some Operator.save := by
    rw [operator?_eq_builtIn? hbare]
    rfl
  exact effect_invoke hfound rfl

private theorem step_restore (hbare : env.overrides = []) (state : PageState)
    (graphics : GraphicsState) (saved : List GraphicsState) (operands : List Operand) :
    env.Step (state.withSaved (graphics :: saved)) ⟨"Q", operands⟩
      { state with stack := ⟨graphics, saved⟩ } := by
  have hfound : env.operator? "Q" = some Operator.restore := by
    rw [operator?_eq_builtIn? hbare]
    rfl
  exact effect_invoke hfound rfl

theorem Reaches.enclosed (hbare : env.overrides = []) (h : env.Reaches state operations last)
    (hnested : Operation.nested 0 operations = true) (operands operands' : List Operand) :
    env.Reaches state (⟨"q", operands⟩ :: (operations ++ [⟨"Q", operands'⟩]))
      { last with stack := state.stack } := by
  have hnone : Operation.nested ([] : List GraphicsState).length operations = true := hnested
  obtain ⟨-, hinside⟩ := h.nested hbare hnone rfl (state.graphics :: state.stack.saved)
  have hclosed := step_restore hbare last state.graphics state.stack.saved operands'
  refine (reaches_cons hbare).2 ⟨_, step_save hbare state operands, ?_⟩
  refine (reaches_append hbare).2 ⟨_, hinside, ?_⟩
  exact (reaches_cons hbare).2 ⟨_, hclosed, reaches_nil.2 rfl⟩

/-! ## Restoring where nothing is saved -/

def RestoresNothing (env : Environment) (state : PageState) (operation : Operation) : Prop :=
  operation.name = "Q" ∧ (env.override? "Q").isNone ∧ state.stack.depth = 0

instance (env : Environment) (state : PageState) (operation : Operation) :
    Decidable (env.RestoresNothing state operation) :=
  inferInstanceAs (Decidable (_ ∧ _ ∧ _))

/-- The operations of a run without those that restore nothing when their turn comes. -/
def withoutIdleRestores : Environment → PageState → List Operation → List Operation
  | _, _, [] => []
  | env, state, operation :: operations =>
    let first := env.invoke state operation
    let others := (env.after first).withoutIdleRestores first.state operations
    if env.RestoresNothing state operation then others else operation :: others

private theorem invoke_of_restoresNothing {operation : Operation}
    (h : env.RestoresNothing state operation) :
    env.invoke state operation = ⟨state, env.overrides,
      [.called operation true, .nothingToRestore], none⟩ := by
  obtain ⟨hname, hoverride, hdepth⟩ := h
  have hsaved : state.stack.restore? = none := by
    rw [StateStack.restore?, List.eq_nil_of_length_eq_zero hdepth]
  have hfound : env.operator? "Q" = some Operator.restore := by
    rw [operator?, Option.isNone_iff_eq_none.1 hoverride]
    rfl
  have hwithin : env.invokeWithin 1 state operation =
      some ⟨state, env.overrides, [.called operation true, .nothingToRestore], none⟩ := by
    rw [invokeWithin, hname, hfound, hoverride]
    simp [Operator.restore, Operator.acting, hsaved, follow, Outcome.noting]
  exact invoke_of_invokeWithin (by unfold levels; omega) hwithin

theorem effect_run_withoutIdleRestores (env : Environment) (state : PageState)
    (operations : List Operation) :
    (env.run state (env.withoutIdleRestores state operations)).effect =
      (env.run state operations).effect := by
  induction operations generalizing env state with
  | nil => rfl
  | cons operation operations ih =>
      rw [withoutIdleRestores]
      by_cases hidle : env.RestoresNothing state operation
      · rw [if_pos hidle, run, invoke_of_restoresNothing hidle]
        exact ih env state
      · rw [if_neg hidle, run, run]
        cases (env.invoke state operation).failure with
        | some error => rfl
        | none =>
            exact ih (env.after (env.invoke state operation)) (env.invoke state operation).state

/--
Between a save and a restore, operations in which saves and restores are nested succeed as
they do alone; afterwards the graphics state and all saved ones are what they were before,
and the rest of the state is what the operations alone make of it.  Leaving out the
restores of a run that come where nothing is saved changes neither the state it ends in nor
whether it fails.
-/
theorem run_enclosed (env : Environment) (state : PageState) :
    (env.overrides = [] → ∀ body : List Operation, (env.run state body).failure = none →
      Operation.nested 0 body = true → ∀ operands operands',
        let outer := env.run state (⟨"q", operands⟩ :: (body ++ [⟨"Q", operands'⟩]))
        outer.failure = none ∧
          outer.state = { (env.run state body).state with stack := state.stack }) ∧
    ∀ operations,
      (env.run state (env.withoutIdleRestores state operations)).state =
          (env.run state operations).state ∧
        (env.run state (env.withoutIdleRestores state operations)).failure =
          (env.run state operations).failure := by
  constructor
  · intro hbare body hbody hnested operands operands'
    obtain ⟨hstate, hfailure⟩ := Prod.mk.inj
      ((reaches_of_failure hbody).enclosed hbare hnested operands operands')
    exact ⟨hfailure, hstate⟩
  · intro operations
    exact Prod.mk.inj (effect_run_withoutIdleRestores env state operations)

theorem run_enclosed_text :
    let env : Environment := ⟨Resources.empty, []⟩
    let state := PageState.initial.withSaved [GraphicsState.initial]
    let body : List Operation :=
      [⟨"BT", []⟩, ⟨"q", []⟩, ⟨"TD", [.integer 0, .integer 14]⟩, ⟨"Q", []⟩, ⟨"TL", [.integer 2]⟩]
    let outer := env.run state (⟨"q", []⟩ :: (body ++ [⟨"Q", []⟩]))
    outer.failure = none ∧
      outer.state = { (env.run state body).state with stack := state.stack } :=
  (run_enclosed _ _).1 rfl _ rfl rfl [] []

end Environment

end ContentStream
