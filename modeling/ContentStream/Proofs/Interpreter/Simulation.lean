import ContentStream.Proofs.Interpreter.Runs
import Mathlib.Data.List.Forall2

/-!
# Runs side by side

Two runs are compared step by step: `r` relates their states and `q` their operations.
If the operators of related operations do the same in related states, then the runs end
in related states, and one fails exactly where the other does.  Errors and notices are
not compared, since both repeat names and operands.
-/

namespace ContentStream

variable {r : PageState → PageState → Prop} {q : Operation → Operation → Prop}

inductive Reply.Agrees (r : PageState → PageState → Prop) (q : Operation → Operation → Prop) :
    Reply Operator → Reply Operator → Prop
  | done {state state' notices notices'} : r state state' →
      Agrees r q (.done state notices) (.done state' notices')
  | failed {state state' error error'} : r state state' →
      Agrees r q (.failed state error) (.failed state' error')
  | expands {operations operations'} : List.Forall₂ q operations operations' →
      Agrees r q (.expands operations) (.expands operations')

structure Outcome.Agrees (env env' : Environment) (r : PageState → PageState → Prop)
    (outcome outcome' : Outcome) : Prop where
  state : r outcome.state outcome'.state
  failure : outcome'.failure.isSome = outcome.failure.isSome
  overrides : outcome.overrides = env.overrides
  overrides' : outcome'.overrides = env'.overrides

theorem Outcome.Agrees.failure_cases {env env' : Environment} {outcome outcome' : Outcome}
    (h : outcome.Agrees env env' r outcome') :
    (outcome.failure = none ∧ outcome'.failure = none) ∨
      ∃ error error', outcome.failure = some error ∧ outcome'.failure = some error' := by
  have hfailure := h.failure
  cases hfirst : outcome.failure <;> cases hsecond : outcome'.failure <;> simp_all

theorem Outcome.Agrees.noting {env env' : Environment} {outcome outcome' : Outcome}
    (h : outcome.Agrees env env' r outcome') (notices notices' : List Notice) :
    (outcome.noting notices).Agrees env env' r (outcome'.noting notices') :=
  ⟨h.state, h.failure, h.overrides, h.overrides'⟩

theorem Outcome.noting_rel {env env' : Environment} {outcome? outcome?' : Option Outcome}
    (h : Option.Rel (Outcome.Agrees env env' r) outcome? outcome?')
    (notices notices' : List Notice) :
    Option.Rel (Outcome.Agrees env env' r) (outcome?.map (Outcome.noting notices))
      (outcome?'.map (Outcome.noting notices')) := by
  cases h with
  | none => exact .none
  | some h => exact .some (h.noting notices notices')

namespace Environment

variable {env env' : Environment}

/-- Related operations have operators that do the same in related states, or none. -/
def Simulates (env env' : Environment) (r : PageState → PageState → Prop)
    (q : Operation → Operation → Prop) : Prop :=
  ∀ ⦃operation operation' state state'⦄, q operation operation' → r state state' →
    Option.Rel (fun operator operator' =>
        (operator.action env.resources state operation.operands).Agrees r q
          (operator'.action env'.resources state' operation'.operands))
      (env.operator? operation.name) (env'.operator? operation'.name)

theorem after_eq_self {outcome : Outcome} (h : outcome.overrides = env.overrides) :
    env.after outcome = env := by
  rw [after, h]

section Levels

variable {invoke invoke' : Environment → PageState → Operation → Option Outcome}
  (hinvoke : ∀ {operation operation' state state'}, q operation operation' → r state state' →
    Option.Rel (Outcome.Agrees env env' r) (invoke env state operation)
      (invoke' env' state' operation'))
include hinvoke

private theorem runWith_agrees {operations operations' : List Operation}
    (h : List.Forall₂ q operations operations') {state state' : PageState}
    (hstate : r state state') :
    Option.Rel (Outcome.Agrees env env' r) (runWith invoke env state operations)
      (runWith invoke' env' state' operations') := by
  induction h generalizing state state' with
  | nil => exact .some ⟨hstate, rfl, rfl, rfl⟩
  | cons hfirst _ ih =>
      have hagrees := hinvoke hfirst hstate
      rw [runWith, runWith]
      generalize invoke env state _ = first, invoke' env' state' _ = first' at hagrees
      cases hagrees with
      | none => exact .none
      | @some first first' hagrees =>
          have hothers := ih hagrees.state
          simp only [Option.bind_eq_bind, Option.bind_some, after_eq_self hagrees.overrides,
            after_eq_self hagrees.overrides']
          rcases hagrees.failure_cases with ⟨hnone, hnone'⟩ | ⟨error, error', hsome, hsome'⟩
          · rw [hnone, hnone']
            exact Outcome.noting_rel hothers _ _
          · rw [hsome, hsome']
            exact .some hagrees

private theorem follow_agrees {reply reply' : Reply Operator} (h : reply.Agrees r q reply')
    {state state' : PageState} (hstate : r state state') :
    Option.Rel (Outcome.Agrees env env' r) (follow invoke env state reply)
      (follow invoke' env' state' reply') := by
  cases h with
  | done hnext => exact .some ⟨hnext, rfl, rfl, rfl⟩
  | failed hnext => exact .some ⟨hnext, rfl, rfl, rfl⟩
  | expands hoperations => exact runWith_agrees hinvoke hoperations hstate

end Levels

theorem Simulates.invokeWithin (h : Simulates env env' r q) (levels : Nat) :
    ∀ {operation operation' state state'}, q operation operation' → r state state' →
      Option.Rel (Outcome.Agrees env env' r) (env.invokeWithin levels state operation)
        (env'.invokeWithin levels state' operation') := by
  -- Operations that run others run these with one level less.
  induction levels with
  | zero =>
      intro operation operation' state state' _ _
      exact .none
  | succ levels ih =>
      intro operation operation' state state' hoperation hstate
      have hreply := h hoperation hstate
      rw [Environment.invokeWithin, Environment.invokeWithin]
      generalize env.operator? _ = operator, env'.operator? _ = operator' at hreply
      cases hreply with
      | none => exact .some ⟨hstate, rfl, rfl, rfl⟩
      | some hreply => exact Outcome.noting_rel (follow_agrees ih hreply hstate) _ _

section Runs

variable (h : Simulates env env' r q) (hlevels : env'.levels = env.levels)
include h hlevels

theorem Simulates.invoke {operation operation' : Operation} {state state' : PageState}
    (hoperation : q operation operation') (hstate : r state state') :
    (env.invoke state operation).Agrees env env' r (env'.invoke state' operation') := by
  have hwithin := h.invokeWithin env.levels hoperation hstate
  unfold Environment.invoke
  rw [hlevels]
  generalize env.invokeWithin _ _ _ = outcome, env'.invokeWithin _ _ _ = outcome' at hwithin
  cases hwithin with
  | none => exact ⟨hstate, rfl, rfl, rfl⟩
  | some hagrees => exact hagrees

/-- Simulated runs end in related states and fail at the same operation, if at all. -/
theorem Simulates.run {operations operations' : List Operation}
    (hoperations : List.Forall₂ q operations operations') {state state' : PageState}
    (hstate : r state state') :
    (env.run state operations).Agrees env env' r (env'.run state' operations') ∧
      env'.failedAt? state' operations' = env.failedAt? state operations := by
  induction hoperations generalizing state state' with
  | nil => exact ⟨⟨hstate, rfl, rfl, rfl⟩, rfl⟩
  | @cons operation operation' _ _ hfirst _ ih =>
      have hagrees := h.invoke hlevels hfirst hstate
      obtain ⟨hothers, hindex⟩ := ih hagrees.state
      rw [Environment.run, Environment.run, failedAt?, failedAt?]
      simp only [after_eq_self hagrees.overrides, after_eq_self hagrees.overrides']
      rcases hagrees.failure_cases with ⟨hnone, hnone'⟩ | ⟨error, error', hsome, hsome'⟩
      · rw [hnone, hnone']
        exact ⟨hothers.noting _ _, congrArg (Option.map (· + 1)) hindex⟩
      · rw [hsome, hsome']
        exact ⟨hagrees, rfl⟩

end Runs

end Environment

end ContentStream
