import ContentStream.Proofs.Interpreter.BuiltIn

/-!
# Operations that fail

A run that fails has the effect of the first operation that fails, in the state that the
operations before it leave.  Where no operators are installed this operation changes
nothing, so a run that fails ends where it was before that operation.
-/

namespace ContentStream.Environment

variable {env : Environment} {state : PageState} {operations : List Operation}

theorem exists_of_failure {error : Error} (h : (env.run state operations).failure = some error) :
    ∃ index operation, env.failedAt? state operations = some index ∧
      operations[index]? = some operation ∧
      let before := env.run state (operations.take index)
      before.failure = none ∧
        ((env.after before).invoke before.state operation).effect =
          (env.run state operations).effect := by
  induction operations generalizing env state with
  | nil => simp [run] at h
  | cons operation operations ih =>
      rw [run] at h ⊢
      rw [failedAt?]
      cases hfailed : (env.invoke state operation).failure with
      | some error => exact ⟨0, operation, rfl, rfl, rfl, rfl⟩
      | none =>
          simp only [hfailed, Outcome.failure_noting] at h
          obtain ⟨index, failing, hindex, hfailing, hbefore, heffect⟩ := ih h
          refine ⟨index + 1, failing, ?_, ?_, ?_⟩
          · simp [hindex]
          · simpa using hfailing
          · rw [List.take_succ_cons, run, hfailed]
            exact ⟨hbefore, heffect⟩

theorem state_invoke_of_failure (hbare : env.overrides = []) (state : PageState)
    (operation : Operation) (h : (env.invoke state operation).failure ≠ none) :
    (env.invoke state operation).state = state := by
  obtain ⟨changes, -, heffect⟩ := exists_changes hbare operation.name
  obtain ⟨hstate, hfailure⟩ := Prod.mk.inj (heffect state operation.operands)
  cases hchange : changes state.graphics operation.operands with
  | error error =>
      rw [hstate, hchange]
      rfl
  | ok change =>
      rw [hchange] at hfailure
      exact absurd hfailure h

/--
With built-in operators alone, an operation that fails leaves the whole state as it is,
whatever it stands for.  A run that fails ends in the state after the operations before
the failing one, with the error of that one.
-/
theorem run_of_failure (resources : Resources) (state : PageState) :
    let env : Environment := ⟨resources, []⟩
    (∀ operation, (env.invoke state operation).failure ≠ none →
      (env.invoke state operation).state = state) ∧
    ∀ operations error, (env.run state operations).failure = some error →
      ∃ index operation, env.failedAt? state operations = some index ∧
        operations[index]? = some operation ∧
        let before := env.run state (operations.take index)
        before.failure = none ∧ (env.run state operations).state = before.state ∧
          (env.invoke before.state operation).failure = some error := by
  intro env
  have hbare : env.overrides = [] := rfl
  refine ⟨state_invoke_of_failure hbare state, fun operations error h => ?_⟩
  obtain ⟨index, operation, hindex, hoperation, hbefore, heffect⟩ := exists_of_failure h
  rw [after_run hbare] at heffect
  obtain ⟨hstate, hfailure⟩ := Prod.mk.inj heffect
  rw [h] at hfailure
  refine ⟨index, operation, hindex, hoperation, hbefore, ?_, hfailure⟩
  rw [← hstate, state_invoke_of_failure hbare]
  simp [hfailure]

/-- A run ends where the operations before the failing one, or all of them, lead. -/
theorem exists_reaches (hbare : env.overrides = []) (state : PageState)
    (operations : List Operation) : ∃ done, done <+: operations ∧
      ((env.run state operations).failure = none → done = operations) ∧
      env.Reaches state done (env.run state operations).state := by
  cases hfailure : (env.run state operations).failure with
  | none => exact ⟨operations, List.prefix_rfl, fun _ => rfl, reaches_of_failure hfailure⟩
  | some error =>
      obtain ⟨index, operation, -, -, hbefore, heffect⟩ := exists_of_failure hfailure
      rw [after_run hbare] at heffect
      obtain ⟨hstate, hfails⟩ := Prod.mk.inj heffect
      have hsame := state_invoke_of_failure hbare
        (env.run state (operations.take index)).state operation (by simp [hfails, hfailure])
      refine ⟨operations.take index, List.take_prefix _ _, fun h => ?_, ?_⟩
      · contradiction
      · rw [← hstate, hsame]
        exact reaches_of_failure hbefore

theorem run_of_failure_mistypedText :
    let env : Environment := ⟨Resources.empty, []⟩
    let text : Operation := ⟨"\"", [.integer 1, .integer 2, .name "x"]⟩
    let operations : List Operation := [⟨"TL", [.integer 14]⟩, text]
    let error := Error.invalidOperand "\"" (.mistyped 2 .string .name)
    (env.invoke PageState.initial text).state = PageState.initial ∧
      ∃ index operation, env.failedAt? PageState.initial operations = some index ∧
        operations[index]? = some operation ∧
        let before := env.run PageState.initial (operations.take index)
        before.failure = none ∧ (env.run PageState.initial operations).state = before.state ∧
          (env.invoke before.state operation).failure = some error := by
  intro env text operations error
  have hinvoke : (env.invoke PageState.initial text).failure = some error := rfl
  have hrun : (env.run PageState.initial operations).failure = some error := rfl
  obtain ⟨hfails, hstops⟩ := run_of_failure Resources.empty PageState.initial
  refine ⟨hfails text ?_, hstops operations error hrun⟩
  rw [hinvoke]
  exact Option.some_ne_none error

end ContentStream.Environment
