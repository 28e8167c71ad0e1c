import ContentStream.Proofs.Interpreter.BuiltIn
import ContentStream.Proofs.Operation.Formatting
import ContentStream.Proofs.Operator.Kept

/-!
# Running formatted streams

Formatting drops operands that no built-in operator looks at, so a formatted stream
has the effect of its source: it ends in the same state, and if it fails, it fails at
the same operation with the same error.  Only notices tell the two apart, because they
repeat the operands of the operations that were called.
-/

namespace ContentStream

namespace Environment

private theorem readsKept_of_builtIn? {name : String} {operator : Operator}
    (h : Operator.builtIn? name = some operator) : operator.ReadsKept :=
  Operator.readsKept_builtIn operator (List.mem_of_find?_eq_some h)

variable {env : Environment}

private theorem effect_invokeWithin_kept (hbare : env.overrides = []) {operation : Operation}
    (h : operation.Writable) (levels : Nat) (state : PageState) :
    (env.invokeWithin levels state operation.kept).map Outcome.effect =
      (env.invokeWithin levels state operation).map Outcome.effect := by
  cases levels with
  | zero => rfl
  | succ levels =>
      have hname : operation.kept.name = operation.name := rfl
      rw [invokeWithin, invokeWithin, hname, operator?_eq_builtIn? hbare]
      cases hfound : Operator.builtIn? operation.name with
      | none => rfl
      | some operator =>
          have hshape : operation.shape = operator.shape := by
            simp [Operation.shape, hfound]
          have haccepts := h.operands
          rw [hshape] at haccepts
          have hreply := readsKept_of_builtIn? hfound env.resources state _ haccepts
          have hoperands : operation.kept.operands =
              operator.shape.kept operation.operands := by
            rw [← hshape]
            rfl
          dsimp only
          rw [hoperands, hreply]
          simp [Function.comp_def]

theorem effect_invoke_kept (hbare : env.overrides = []) {operation : Operation}
    (h : operation.Writable) (state : PageState) :
    (env.invoke state operation.kept).effect = (env.invoke state operation).effect := by
  have heffect := effect_invokeWithin_kept hbare h env.levels state
  have hname : operation.kept.name = operation.name := rfl
  unfold invoke
  rw [hname]
  cases hkept : env.invokeWithin env.levels state operation.kept with
  | none =>
      rw [hkept, Option.map_none, eq_comm, Option.map_eq_none_iff] at heffect
      rw [heffect]
  | some outcome =>
      rw [hkept, Option.map_some, eq_comm, Option.map_eq_some_iff] at heffect
      obtain ⟨outcome', hsome, hsame⟩ := heffect
      rw [hsome]
      exact hsame.symm

theorem effect_run_kept (hbare : env.overrides = []) {operations : List Operation}
    (h : ∀ operation ∈ operations, operation.Writable) (state : PageState) :
    (env.run state (operations.map Operation.kept)).effect = (env.run state operations).effect ∧
      env.failedAt? state (operations.map Operation.kept) = env.failedAt? state operations := by
  induction operations generalizing state with
  | nil => exact ⟨rfl, rfl⟩
  | cons operation operations ih =>
      have hfirst := effect_invoke_kept hbare (h operation (by simp)) state
      obtain ⟨hstate, hfailure⟩ := Prod.mk.inj hfirst
      have hothers := ih fun other hother => h other (by simp [hother])
      rw [List.map_cons, run, run, failedAt?, failedAt?, hfailure, hstate, after_invoke hbare,
        after_invoke hbare]
      cases hfailed : (env.invoke state operation).failure with
      | some error => exact ⟨hfirst, rfl⟩
      | none =>
          obtain ⟨hrun, hindex⟩ := hothers (env.invoke state operation).state
          refine ⟨?_, by rw [hindex]⟩
          simpa using hrun

/--
Running a formatted stream from any state has the effect of running its source: both
end in the same state, and both succeed or fail at the same operation with the same
error.
-/
theorem run_formatted {source text : Bytes} {operations : List Operation}
    (hread : Operation.ofBytes source = .ok operations)
    (hwritten : Operation.writtenAll Operand.written operations = .ok text)
    (resources : Resources) (state : PageState) :
    ∃ again, Operation.ofBytes text = .ok again ∧
      let env : Environment := ⟨resources, []⟩
      (env.run state again).state = (env.run state operations).state ∧
      (env.run state again).failure = (env.run state operations).failure ∧
      env.failedAt? state again = env.failedAt? state operations := by
  have hwritable := Operation.writable_of_ofBytes hread hwritten
  have hbare : (⟨resources, []⟩ : Environment).overrides = [] := rfl
  obtain ⟨heffect, hindex⟩ := effect_run_kept hbare hwritable state
  obtain ⟨hstate, hfailure⟩ := Prod.mk.inj heffect
  exact ⟨_, Operation.ofBytes_formatted hread hwritten, hstate, hfailure, hindex⟩

theorem run_formatted_looseSource :
    ∃ again, Operation.ofBytes Operation.looseText = .ok again ∧
      let env : Environment := ⟨Resources.empty, []⟩
      (env.run PageState.initial again).state =
        (env.run PageState.initial Operation.looseOperations).state ∧
      (env.run PageState.initial again).failure =
        (env.run PageState.initial Operation.looseOperations).failure ∧
      env.failedAt? PageState.initial again =
        env.failedAt? PageState.initial Operation.looseOperations :=
  run_formatted Operation.ofBytes_looseSource Operation.writtenAll_looseOperations
    Resources.empty PageState.initial

end Environment

end ContentStream
