import ContentStream.Proofs.Interpreter.Runs

/-!
# Running without a bound on levels

An operation has an outcome if some number of levels suffices for it.  More levels
give the same outcome, so there is at most one, and `Environment.invoke` finds it
unless its own bound is too low.  Operations that run one after the other have the
outcomes of each in turn.
-/

namespace ContentStream

namespace Outcome

/-- The outcome of a run that begins with `first` and goes on, unless it fails, with `next`. -/
def Continued (first : Outcome) (next : Outcome → Prop) (outcome : Outcome) : Prop :=
  first.failure.isSome ∧ outcome = first ∨
    first.failure = none ∧ ∃ last, next last ∧ outcome = last.noting first.notices

variable {first outcome : Outcome} {next : Outcome → Prop}

theorem continued_start {state : PageState} {overrides : List Operator} :
    (⟨state, overrides, [], none⟩ : Outcome).Continued next outcome ↔ next outcome := by
  simp [Continued, noting]

theorem continued_exists (next' : PageState → List Operator → Outcome → Prop) :
    first.Continued (fun last => ∃ middle, next middle ∧
        middle.Continued (next' middle.state middle.overrides) last) outcome ↔
      ∃ middle, first.Continued next middle ∧
        middle.Continued (next' middle.state middle.overrides) outcome := by
  constructor
  · rintro (⟨hfailed, rfl⟩ | ⟨hfirst, last, ⟨middle, hmiddle, hlast⟩, rfl⟩)
    · exact ⟨outcome, .inl ⟨hfailed, rfl⟩, .inl ⟨hfailed, rfl⟩⟩
    · refine ⟨middle.noting first.notices, .inr ⟨hfirst, middle, hmiddle, rfl⟩, ?_⟩
      rcases hlast with ⟨hfailed, rfl⟩ | ⟨hnone, end', hend, rfl⟩
      · exact .inl ⟨hfailed, rfl⟩
      · exact .inr ⟨hnone, end', hend, noting_noting _ _ _⟩
  · rintro ⟨middle, ⟨hfailed, rfl⟩ | ⟨hfirst, last, hlast, rfl⟩, hrest⟩
    · rcases hrest with ⟨-, rfl⟩ | ⟨hnone, -⟩
      · exact .inl ⟨hfailed, rfl⟩
      · rw [hnone] at hfailed
        contradiction
    · rcases hrest with ⟨hfailed, rfl⟩ | ⟨hnone, end', hend, rfl⟩
      · exact .inr ⟨hfirst, last, ⟨last, hlast, .inl ⟨hfailed, rfl⟩⟩, rfl⟩
      · exact .inr ⟨hfirst, _, ⟨last, hlast, .inr ⟨hnone, end', hend, rfl⟩⟩,
          (noting_noting _ _ _).symm⟩

end Outcome

namespace Environment

variable {env : Environment} {state : PageState} {operation : Operation}
  {operations others : List Operation} {outcome outcome' : Outcome}

def Invokes (env : Environment) (state : PageState) (operation : Operation)
    (outcome : Outcome) : Prop :=
  ∃ levels, env.invokeWithin levels state operation = some outcome

def Runs (env : Environment) (state : PageState) (operations : List Operation)
    (outcome : Outcome) : Prop :=
  ∃ levels, runWith (fun env => env.invokeWithin levels) env state operations = some outcome

section Mono

variable {invoke invoke' : Environment → PageState → Operation → Option Outcome}

theorem runWith_mono (hle : ∀ {env state operation outcome},
      invoke env state operation = some outcome → invoke' env state operation = some outcome)
    (h : runWith invoke env state operations = some outcome) :
    runWith invoke' env state operations = some outcome := by
  induction operations generalizing env state outcome with
  | nil => exact h
  | cons operation operations ih =>
      rw [runWith] at h ⊢
      obtain ⟨first, hfirst, h⟩ := Option.bind_eq_some_iff.1 h
      refine Option.bind_eq_some_iff.2 ⟨first, hle hfirst, ?_⟩
      split at h
      next => exact h
      next =>
        obtain ⟨last, hlast, rfl⟩ := Option.map_eq_some_iff.1 h
        exact Option.map_eq_some_iff.2 ⟨last, ih hlast, rfl⟩

theorem follow_mono (hle : ∀ {env state operation outcome},
      invoke env state operation = some outcome → invoke' env state operation = some outcome)
    {reply : Reply Operator} (h : follow invoke env state reply = some outcome) :
    follow invoke' env state reply = some outcome := by
  induction reply generalizing env state outcome with
  | done next notices => exact h
  | failed next error => exact h
  | expands operations => exact runWith_mono hle h
  | calls next operations resume ih =>
      rw [follow] at h ⊢
      obtain ⟨called, hcalled, h⟩ := Option.bind_eq_some_iff.1 h
      obtain ⟨last, hlast, rfl⟩ := Option.map_eq_some_iff.1 h
      exact Option.bind_eq_some_iff.2
        ⟨called, runWith_mono hle hcalled, Option.map_eq_some_iff.2 ⟨last, ih _ _ hlast, rfl⟩⟩
  | installs operator next ih => exact ih h
  | removes name next ih => exact ih h

end Mono

theorem invokeWithin_succ (levels : Nat) :
    ∀ {env state operation outcome}, invokeWithin env levels state operation = some outcome →
      invokeWithin env (levels + 1) state operation = some outcome := by
  induction levels with
  | zero =>
      intro env state operation outcome h
      simp [invokeWithin] at h
  | succ levels ih =>
      intro env state operation outcome h
      rw [invokeWithin] at h ⊢
      split at h
      next => exact h
      next operator _ =>
        obtain ⟨last, hlast, rfl⟩ := Option.map_eq_some_iff.1 h
        exact Option.map_eq_some_iff.2 ⟨last, follow_mono ih hlast, rfl⟩

theorem invokeWithin_mono {levels levels' : Nat} (hle : levels ≤ levels')
    (h : env.invokeWithin levels state operation = some outcome) :
    env.invokeWithin levels' state operation = some outcome := by
  induction hle with
  | refl => exact h
  | step _ ih => exact invokeWithin_succ _ ih

theorem runWithin_mono {levels levels' : Nat} (hle : levels ≤ levels')
    (h : runWith (fun env => env.invokeWithin levels) env state operations = some outcome) :
    runWith (fun env => env.invokeWithin levels') env state operations = some outcome :=
  runWith_mono (fun h => invokeWithin_mono hle h) h

theorem Invokes.unique (h : env.Invokes state operation outcome)
    (h' : env.Invokes state operation outcome') : outcome = outcome' := by
  obtain ⟨levels, h⟩ := h
  obtain ⟨levels', h'⟩ := h'
  have hmax := invokeWithin_mono (Nat.le_max_left levels levels') h
  rw [invokeWithin_mono (Nat.le_max_right levels levels') h'] at hmax
  exact (Option.some.inj hmax).symm

theorem invoke_of_invokeWithin {levels : Nat} (hle : levels ≤ env.levels)
    (h : env.invokeWithin levels state operation = some outcome) :
    env.invoke state operation = outcome := by
  rw [invoke, invokeWithin_mono hle h, Option.getD_some]

theorem invokes_iff {operator : Operator} (hfound : env.operator? operation.name = some operator) :
    env.Invokes state operation outcome ↔
      ∃ levels rest, follow (fun env => env.invokeWithin levels) env state
          (operator.action env.resources state operation.operands) = some rest ∧
        outcome = rest.noting [.called operation (env.override? operation.name).isNone] := by
  constructor
  · rintro ⟨levels, h⟩
    cases levels with
    | zero => simp [invokeWithin] at h
    | succ levels =>
        rw [invokeWithin, hfound] at h
        obtain ⟨rest, hrest, rfl⟩ := Option.map_eq_some_iff.1 h
        exact ⟨levels, rest, hrest, rfl⟩
  · rintro ⟨levels, rest, hrest, rfl⟩
    refine ⟨levels + 1, ?_⟩
    rw [invokeWithin, hfound]
    exact Option.map_eq_some_iff.2 ⟨rest, hrest, rfl⟩

theorem invokes_invoke
    (h : (env.invoke state operation).failure ≠ some (.endlessCall operation.name)) :
    env.Invokes state operation (env.invoke state operation) := by
  unfold invoke at h ⊢
  cases hwithin : env.invokeWithin env.levels state operation with
  | none => simp [hwithin] at h
  | some outcome => exact ⟨_, hwithin⟩

theorem Runs.unique (h : env.Runs state operations outcome)
    (h' : env.Runs state operations outcome') : outcome = outcome' := by
  obtain ⟨levels, h⟩ := h
  obtain ⟨levels', h'⟩ := h'
  have hmax := runWithin_mono (Nat.le_max_left levels levels') h
  rw [runWithin_mono (Nat.le_max_right levels levels') h'] at hmax
  exact (Option.some.inj hmax).symm

theorem runs_nil : env.Runs state [] outcome ↔ outcome = ⟨state, env.overrides, [], none⟩ := by
  constructor
  · rintro ⟨levels, h⟩
    exact (Option.some.inj h).symm
  · rintro rfl
    exact ⟨0, rfl⟩

theorem runs_cons : env.Runs state (operation :: operations) outcome ↔
    ∃ first, env.Invokes state operation first ∧
      first.Continued ((env.after first).Runs first.state operations) outcome := by
  constructor
  · rintro ⟨levels, h⟩
    rw [runWith] at h
    obtain ⟨first, hfirst, h⟩ := Option.bind_eq_some_iff.1 h
    refine ⟨first, ⟨levels, hfirst⟩, ?_⟩
    split at h
    next error hfailed =>
      exact .inl ⟨by rw [hfailed]; rfl, (Option.some.inj h).symm⟩
    next hfailed =>
      obtain ⟨last, hlast, rfl⟩ := Option.map_eq_some_iff.1 h
      exact .inr ⟨hfailed, last, ⟨levels, hlast⟩, rfl⟩
  · rintro ⟨first, ⟨levels, hfirst⟩, ⟨hfailed, rfl⟩ | ⟨hfailed, last, ⟨levels', hlast⟩, rfl⟩⟩
    · obtain ⟨error, herror⟩ := Option.isSome_iff_exists.1 hfailed
      refine ⟨levels, ?_⟩
      rw [runWith]
      refine Option.bind_eq_some_iff.2 ⟨outcome, hfirst, ?_⟩
      rw [herror]
    · -- Enough levels for the first operation and for the others.
      refine ⟨max levels levels', ?_⟩
      rw [runWith]
      refine Option.bind_eq_some_iff.2
        ⟨first, invokeWithin_mono (Nat.le_max_left ..) hfirst, ?_⟩
      rw [hfailed]
      exact Option.map_eq_some_iff.2
        ⟨last, runWithin_mono (Nat.le_max_right ..) hlast, rfl⟩

/-- What is run in fact is the outcome, unless an operation needs too many levels. -/
theorem runs_run (h : ∀ name, (env.run state operations).failure ≠ some (.endlessCall name)) :
    env.Runs state operations (env.run state operations) := by
  induction operations generalizing env state with
  | nil => exact runs_nil.2 rfl
  | cons operation operations ih =>
      rw [run] at h ⊢
      refine runs_cons.2 ⟨env.invoke state operation, ?_⟩
      cases hfailed : (env.invoke state operation).failure with
      | some error =>
          simp only [hfailed] at h
          exact ⟨invokes_invoke (hfailed ▸ h operation.name), .inl ⟨by simp [hfailed], rfl⟩⟩
      | none =>
          simp only [hfailed, Outcome.failure_noting] at h
          exact ⟨invokes_invoke (by simp [hfailed]), .inr ⟨hfailed, _, ih h, rfl⟩⟩

theorem runs_append : env.Runs state (operations ++ others) outcome ↔
    ∃ first, env.Runs state operations first ∧
      first.Continued ((env.after first).Runs first.state others) outcome := by
  induction operations generalizing env state outcome with
  | nil =>
      simp only [List.nil_append, runs_nil, exists_eq_left]
      exact Outcome.continued_start.symm
  | cons operation operations ih =>
      have hsplit (first : Outcome) :
          first.Continued ((env.after first).Runs first.state (operations ++ others)) outcome ↔
            ∃ middle, first.Continued ((env.after first).Runs first.state operations) middle ∧
              middle.Continued ((env.after middle).Runs middle.state others) outcome := by
        rw [show (env.after first).Runs first.state (operations ++ others) = _ from
          funext fun last => propext ih]
        exact Outcome.continued_exists fun state overrides =>
          Runs { env with overrides := overrides } state others
      simp only [List.cons_append, runs_cons, hsplit]
      constructor
      · rintro ⟨first, hfirst, middle, hmiddle, hlast⟩
        exact ⟨middle, ⟨first, hfirst, hmiddle⟩, hlast⟩
      · rintro ⟨middle, ⟨first, hfirst, hmiddle⟩, hlast⟩
        exact ⟨first, hfirst, middle, hmiddle, hlast⟩

end Environment

end ContentStream
