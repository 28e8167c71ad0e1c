import ContentStream.Proofs.Interpreter.Levels

/-!
# Calls of a run

The interpreter once more, with a record of every operation that is invoked, in the order in
which the invocations begin.  Apart from the record nothing is different.
-/

namespace ContentStream

/-- An outcome, and the operations that were invoked on the way. -/
structure Traced where
  outcome : Outcome
  calls : List Operation

namespace Traced

def behind (first : Traced) (last : Traced) : Traced :=
  ⟨last.outcome.noting first.outcome.notices, first.calls ++ last.calls⟩

end Traced

namespace Environment

def runTraced (invoke : Environment → PageState → Operation → Option Traced) :
    Environment → PageState → List Operation → Option Traced
  | env, state, [] => some ⟨⟨state, env.overrides, [], none⟩, []⟩
  | env, state, operation :: operations => do
    let first ← invoke env state operation
    match first.outcome.failure with
    | some _ => some first
    | none =>
      (runTraced invoke (env.after first.outcome) first.outcome.state operations).map first.behind

def followTraced (invoke : Environment → PageState → Operation → Option Traced) :
    Environment → PageState → Reply Operator → Option Traced
  | env, _, .done next notices => some ⟨⟨next, env.overrides, notices, none⟩, []⟩
  | env, _, .failed next error => some ⟨⟨next, env.overrides, [], some error⟩, []⟩
  | env, state, .expands operations => runTraced invoke env state operations
  | env, _, .calls next operations resume => do
    let called ← runTraced invoke env next operations
    (followTraced invoke (env.after called.outcome) called.outcome.state
      (resume called.outcome.state called.outcome.failure)).map called.behind
  | env, state, .installs operator next => followTraced invoke (env.install operator) state next
  | env, state, .removes name next => followTraced invoke (env.remove name) state next

def invokeTraced (env : Environment) :
    (levels : Nat) → PageState → Operation → Option Traced
  | 0, _, _ => none
  | levels + 1, state, operation =>
    match env.operator? operation.name with
    | none =>
      let notices :=
        if state.compatibilityDepth = 0 then [Notice.unknownOperator operation.name] else []
      some ⟨⟨state, env.overrides, notices, none⟩, [operation]⟩
    | some operator =>
      let called := Notice.called operation (env.override? operation.name).isNone
      (followTraced (fun env => env.invokeTraced levels) env state
        (operator.action env.resources state operation.operands)).map fun rest =>
          ⟨rest.outcome.noting [called], operation :: rest.calls⟩

section Outcomes

variable {invoke : Environment → PageState → Operation → Option Outcome}
  {traced : Environment → PageState → Operation → Option Traced}
  (hinvoke : ∀ env state operation,
    (traced env state operation).map Traced.outcome = invoke env state operation)
include hinvoke

theorem outcome_runTraced (env : Environment) (state : PageState) (operations : List Operation) :
    (runTraced traced env state operations).map Traced.outcome =
      runWith invoke env state operations := by
  induction operations generalizing env state with
  | nil => rfl
  | cons operation operations ih =>
      rw [runTraced, runWith, ← hinvoke]
      cases traced env state operation with
      | none => rfl
      | some first =>
          simp only [Option.map_some, bind, Option.bind]
          cases first.outcome.failure with
          | some error => rfl
          | none =>
              rw [← ih, Option.map_map, Option.map_map]
              rfl

theorem outcome_followTraced (env : Environment) (state : PageState) (reply : Reply Operator) :
    (followTraced traced env state reply).map Traced.outcome = follow invoke env state reply := by
  induction reply generalizing env state with
  | done => rfl
  | failed => rfl
  | expands operations => exact outcome_runTraced hinvoke env state operations
  | calls next operations resume ih =>
      rw [followTraced, follow, ← outcome_runTraced hinvoke]
      cases runTraced traced env next operations with
      | none => rfl
      | some called =>
          simp only [Option.map_some, bind, Option.bind]
          rw [← ih, Option.map_map, Option.map_map]
          rfl
  | installs operator next ih => exact ih _ _
  | removes name next ih => exact ih _ _

end Outcomes

theorem outcome_invokeTraced (env : Environment) (levels : Nat) (state : PageState)
    (operation : Operation) :
    (env.invokeTraced levels state operation).map Traced.outcome =
      env.invokeWithin levels state operation := by
  induction levels generalizing env state operation with
  | zero => rfl
  | succ levels ih =>
      rw [invokeTraced, invokeWithin]
      cases env.operator? operation.name with
      | none => rfl
      | some operator =>
          dsimp only
          rw [← outcome_followTraced fun env => ih env, Option.map_map, Option.map_map]
          rfl

theorem calls_invokeTraced {env : Environment} {levels : Nat} {state : PageState}
    {operation : Operation} {traced : Traced}
    (h : env.invokeTraced levels state operation = some traced) :
    ∃ calls, traced.calls = operation :: calls := by
  cases levels with
  | zero => simp [invokeTraced] at h
  | succ levels =>
      rw [invokeTraced] at h
      split at h
      next =>
        obtain rfl := Option.some.inj h
        exact ⟨[], rfl⟩
      next =>
        obtain ⟨rest, -, rfl⟩ := Option.map_eq_some_iff.1 h
        exact ⟨rest.calls, rfl⟩

end Environment

end ContentStream
