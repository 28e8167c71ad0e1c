import Mathlib.Data.Option.Basic
import ContentStream.Interpreter
import ContentStream.Proofs.Result

/-!
# Runs

A property of states that every operator in force keeps is kept by whole runs, however
operations stand for each other and wherever a run fails.  The effect of an operation
whose operator does not stand for others is that of its action.
-/

namespace ContentStream

def Outcome.effect (outcome : Outcome) : PageState × Option Error :=
  (outcome.state, outcome.failure)

@[simp] theorem Outcome.effect_noting (notices : List Notice) (outcome : Outcome) :
    (outcome.noting notices).effect = outcome.effect := rfl

@[simp] theorem Outcome.state_noting (notices : List Notice) (outcome : Outcome) :
    (outcome.noting notices).state = outcome.state := rfl

@[simp] theorem Outcome.overrides_noting (notices : List Notice) (outcome : Outcome) :
    (outcome.noting notices).overrides = outcome.overrides := rfl

@[simp] theorem Outcome.failure_noting (notices : List Notice) (outcome : Outcome) :
    (outcome.noting notices).failure = outcome.failure := rfl

theorem Outcome.noting_noting (notices others : List Notice) (outcome : Outcome) :
    (outcome.noting others).noting notices = outcome.noting (notices ++ others) := by
  simp [noting]

def Reply.Leaves (p : PageState → Prop) : Reply Operator → Prop
  | .done state _ => p state
  | .failed state _ => p state
  | .expands _ => True
  | .calls state _ resume => p state ∧ ∀ next failure, p next → (resume next failure).Leaves p
  | .installs _ _ => False
  | .removes _ next => next.Leaves p

def Reply.effect? : Reply Operator → Option (PageState × Option Error)
  | .done state _ => some (state, none)
  | .failed state error => some (state, some error)
  | _ => none

theorem Reply.cases_of_effect? {reply : Reply Operator} {effect : PageState × Option Error}
    (h : reply.effect? = some effect) :
    (∃ notices, reply = .done effect.1 notices ∧ effect.2 = none) ∨
      ∃ error, reply = .failed effect.1 error ∧ effect.2 = some error := by
  unfold effect? at h
  split at h
  next next notices =>
    obtain rfl := Option.some.inj h
    exact .inl ⟨notices, rfl, rfl⟩
  next next error =>
    obtain rfl := Option.some.inj h
    exact .inr ⟨error, rfl, rfl⟩
  next => contradiction

theorem Reply.leaves_of_effect? {p : PageState → Prop} {reply : Reply Operator}
    {effect : PageState × Option Error} (h : reply.effect? = some effect) (hp : p effect.1) :
    reply.Leaves p := by
  rcases cases_of_effect? h with ⟨notices, rfl, -⟩ | ⟨error, rfl, -⟩
  · exact hp
  · exact hp

/-- The action takes states that satisfy `p` to such states, and installs nothing. -/
def Operator.Keeps (p : PageState → Prop) (operator : Operator) : Prop :=
  ∀ resources state operands, p state → (operator.action resources state operands).Leaves p

structure Outcome.Keeps (installed : List Operator) (p : PageState → Prop)
    (outcome : Outcome) : Prop where
  state : p outcome.state
  overrides : outcome.overrides ⊆ installed

theorem Outcome.Keeps.noting {installed : List Operator} {p : PageState → Prop}
    {outcome : Outcome} (h : outcome.Keeps installed p) (notices : List Notice) :
    (outcome.noting notices).Keeps installed p :=
  ⟨h.state, h.overrides⟩

namespace Environment

theorem mem_of_operator? {env : Environment} {name : String} {operator : Operator}
    (h : env.operator? name = some operator) :
    operator ∈ env.overrides ∨ operator ∈ Operator.builtIn := by
  rcases (Option.orElse_eq_some ..).1 h with hinstalled | ⟨-, hbuiltIn⟩
  · exact .inl (List.mem_of_find?_eq_some hinstalled)
  · exact .inr (List.mem_of_find?_eq_some hbuiltIn)

/-- The index of the first operation that fails. -/
def failedAt? : Environment → PageState → List Operation → Option Nat
  | _, _, [] => none
  | env, state, operation :: operations =>
    let first := env.invoke state operation
    match first.failure with
    | some _ => some 0
    | none => ((env.after first).failedAt? first.state operations).map (· + 1)

variable {env : Environment}

/-! ## Kept properties -/

section Keeps

variable {p : PageState → Prop} {installed : List Operator}

private theorem runWith_keeps {invoke : Environment → PageState → Operation → Option Outcome}
    (hinvoke : ∀ {env state operation outcome}, env.overrides ⊆ installed → p state →
      invoke env state operation = some outcome → outcome.Keeps installed p)
    {operations : List Operation} {state : PageState} {outcome : Outcome}
    (henv : env.overrides ⊆ installed) (hstate : p state)
    (h : runWith invoke env state operations = some outcome) : outcome.Keeps installed p := by
  -- A run that stops ends in the state of the operation that failed.
  induction operations generalizing env state outcome with
  | nil =>
      obtain rfl := Option.some.inj h
      exact ⟨hstate, henv⟩
  | cons operation operations ih =>
      rw [runWith] at h
      obtain ⟨first, hfirst, h⟩ := Option.bind_eq_some_iff.1 h
      have hnext := hinvoke henv hstate hfirst
      split at h
      next =>
        obtain rfl := Option.some.inj h
        exact hnext
      next =>
        obtain ⟨last, hlast, rfl⟩ := Option.map_eq_some_iff.1 h
        have henv' : (env.after first).overrides ⊆ installed := hnext.overrides
        exact (ih henv' hnext.state hlast).noting _

private theorem follow_keeps {invoke : Environment → PageState → Operation → Option Outcome}
    (hinvoke : ∀ {env state operation outcome}, env.overrides ⊆ installed → p state →
      invoke env state operation = some outcome → outcome.Keeps installed p)
    {reply : Reply Operator} {state : PageState} {outcome : Outcome}
    (henv : env.overrides ⊆ installed) (hstate : p state) (hleaves : reply.Leaves p)
    (h : follow invoke env state reply = some outcome) : outcome.Keeps installed p := by
  induction reply generalizing env state outcome with
  | done next notices =>
      obtain rfl := Option.some.inj h
      exact ⟨hleaves, henv⟩
  | failed next error =>
      obtain rfl := Option.some.inj h
      exact ⟨hleaves, henv⟩
  | expands operations => exact runWith_keeps hinvoke henv hstate h
  | calls next operations resume ih =>
      obtain ⟨hnext, hresume⟩ := hleaves
      rw [follow] at h
      obtain ⟨called, hcalled, h⟩ := Option.bind_eq_some_iff.1 h
      obtain ⟨last, hlast, rfl⟩ := Option.map_eq_some_iff.1 h
      have hkept := runWith_keeps hinvoke henv hnext hcalled
      have henv' : (env.after called).overrides ⊆ installed := hkept.overrides
      exact (ih _ _ henv' hkept.state (hresume _ _ hkept.state) hlast).noting _
  | installs operator next => exact hleaves.elim
  | removes name next ih =>
      have henv' : (env.remove name).overrides ⊆ installed :=
        fun _ hmember => henv (List.mem_filter.1 hmember).1
      exact ih henv' hstate hleaves h

private theorem invokeWithin_keeps
    (hkeeps : ∀ operator, operator ∈ installed ∨ operator ∈ Operator.builtIn → operator.Keeps p)
    (levels : Nat) : ∀ {env state operation outcome}, env.overrides ⊆ installed → p state →
      invokeWithin env levels state operation = some outcome → outcome.Keeps installed p := by
  -- Operations that run others run these with one level less.
  induction levels with
  | zero =>
      intro env state operation outcome _ _ h
      simp [invokeWithin] at h
  | succ levels ih =>
      intro env state operation outcome henv hstate h
      rw [invokeWithin] at h
      split at h
      next =>
        obtain rfl := Option.some.inj h
        exact ⟨hstate, henv⟩
      next operator hfound =>
        obtain ⟨last, hlast, rfl⟩ := Option.map_eq_some_iff.1 h
        have hmember := (mem_of_operator? hfound).imp_left fun h => henv h
        exact (follow_keeps ih henv hstate (hkeeps _ hmember _ _ _ hstate) hlast).noting _

theorem invoke_keeps
    (hkeeps : ∀ operator, operator ∈ installed ∨ operator ∈ Operator.builtIn → operator.Keeps p)
    {state : PageState} (henv : env.overrides ⊆ installed) (hstate : p state)
    (operation : Operation) : (env.invoke state operation).Keeps installed p := by
  unfold invoke
  cases h : env.invokeWithin env.levels state operation with
  | none => exact ⟨hstate, henv⟩
  | some outcome => exact invokeWithin_keeps hkeeps _ henv hstate h

theorem run_keeps
    (hkeeps : ∀ operator, operator ∈ installed ∨ operator ∈ Operator.builtIn → operator.Keeps p)
    {state : PageState} (henv : env.overrides ⊆ installed) (hstate : p state)
    (operations : List Operation) : (env.run state operations).Keeps installed p := by
  induction operations generalizing env state with
  | nil => exact ⟨hstate, henv⟩
  | cons operation operations ih =>
      have hnext := invoke_keeps hkeeps henv hstate operation
      rw [run]
      cases hfailed : (env.invoke state operation).failure with
      | some error => exact hnext
      | none =>
          have henv' : (env.after (env.invoke state operation)).overrides ⊆ installed :=
            hnext.overrides
          exact (ih henv' hnext.state).noting _

end Keeps

theorem operator?_eq_builtIn? (h : env.overrides = []) (name : String) :
    env.operator? name = Operator.builtIn? name := by
  simp [operator?, override?, h]

/-- With built-in operators only, a run keeps what each of them keeps. -/
theorem run_keeps_of_builtIn {p : PageState → Prop} (h : env.overrides = [])
    (hkeeps : ∀ operator ∈ Operator.builtIn, operator.Keeps p) {state : PageState}
    (hstate : p state) (operations : List Operation) :
    p (env.run state operations).state := by
  have henv : env.overrides ⊆ [] := h ▸ List.Subset.refl _
  refine (run_keeps (fun operator hmember => ?_) henv hstate operations).state
  exact hkeeps operator (hmember.resolve_left List.not_mem_nil)

theorem follow_of_effect? (invoke : Environment → PageState → Operation → Option Outcome)
    (env : Environment) (state : PageState) {reply : Reply Operator}
    {effect : PageState × Option Error} (h : reply.effect? = some effect) :
    ∃ notices, follow invoke env state reply =
      some ⟨effect.1, env.overrides, notices, effect.2⟩ := by
  obtain ⟨next, failure⟩ := effect
  rcases Reply.cases_of_effect? h with ⟨notices, rfl, rfl⟩ | ⟨error, rfl, rfl⟩
  · exact ⟨notices, rfl⟩
  · exact ⟨[], rfl⟩

theorem invokeWithin_of_effect? {operation : Operation} {operator : Operator}
    {state : PageState} {effect : PageState × Option Error}
    (hfound : env.operator? operation.name = some operator)
    (hreply : (operator.action env.resources state operation.operands).effect? = some effect)
    (levels : Nat) : ∃ notices, env.invokeWithin (levels + 1) state operation =
      some ⟨effect.1, env.overrides, notices, effect.2⟩ := by
  obtain ⟨notices, hfollow⟩ :=
    follow_of_effect? (fun env => env.invokeWithin levels) env state hreply
  rw [invokeWithin, hfound]
  dsimp only
  rw [hfollow]
  exact ⟨_, rfl⟩

theorem effect_invoke {name : String} {operator : Operator} {state : PageState}
    {operands : List Operand} {effect : PageState × Option Error}
    (hfound : env.operator? name = some operator)
    (hreply : (operator.action env.resources state operands).effect? = some effect) :
    (env.invoke state ⟨name, operands⟩).effect = effect := by
  have hfound : env.operator? (⟨name, operands⟩ : Operation).name = some operator := hfound
  obtain ⟨levels, hlevels⟩ : ∃ levels, env.levels = levels + 1 :=
    Nat.exists_eq_succ_of_ne_zero (by unfold levels; omega)
  obtain ⟨notices, hwithin⟩ := invokeWithin_of_effect? hfound hreply levels
  rw [invoke, hlevels, hwithin]
  rfl

end Environment

end ContentStream
