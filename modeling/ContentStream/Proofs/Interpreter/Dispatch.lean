import ContentStream.Operator.StandIn
import ContentStream.Proofs.Interpreter.Calls
import ContentStream.Proofs.Interpreter.Shorthand
import ContentStream.Proofs.Operator.Changes

/-!
# Dispatch ends

Built-in operators stand for others without a cycle: each expansion goes down in rank.
Operators that are installed keep to this if they run nothing, or only what the built-in
operator of their own name stands for.  So an operation never invokes more than a few
others, however they are installed.
-/

namespace ContentStream

namespace Operator

/-- How deep operations of the name stand for others. -/
def rank (name : String) : Nat :=
  if name = "\"" then 3
  else if name = "'" then 2
  else if name = "T*" ∨ name = "TD" then 1
  else 0

/-- How many operations are invoked for one of the name, itself included. -/
def weight (name : String) : Nat :=
  if name = "\"" then 7
  else if name = "'" then 4
  else if name = "TD" then 3
  else if name = "T*" then 2
  else 1

theorem rank_lt (name : String) : rank name < 4 := by
  unfold rank
  repeat' split
  all_goals omega

theorem weight_pos (name : String) : 0 < weight name := by
  unfold weight
  repeat' split
  all_goals omega

theorem weight_le (name : String) : weight name ≤ 7 := by
  unfold weight
  repeat' split
  all_goals omega

def calls : List (String × List String) :=
  [("TD", ["TL", "Td"]), ("T*", ["Td"]), ("'", ["T*", "Tj"]), ("\"", ["Tw", "Tc", "'"])]

def IsExpansion (name : String) (operations : List Operation) : Prop :=
  ∃ operator resources state operands, builtIn? name = some operator ∧
    operator.action resources state operands = .expands operations

end Operator

def totalWeight : List Operation → Nat
  | [] => 0
  | operation :: operations => Operator.weight operation.name + totalWeight operations

/-- The operations rank below the name, and are invoked within its weight. -/
structure Descends (name : String) (operations : List Operation) : Prop where
  rank : ∀ operation ∈ operations, Operator.rank operation.name < Operator.rank name
  weight : totalWeight operations < Operator.weight name

theorem totalWeight_names (operations : List Operation) :
    totalWeight ((operations.map Operation.name).map fun name => ⟨name, []⟩) =
      totalWeight operations := by
  induction operations with
  | nil => rfl
  | cons operation operations ih => rw [List.map_cons, List.map_cons, totalWeight, ih, totalWeight]

namespace Operation

variable {leading : Float} {operation : Operation} {operations : List Operation}

theorem names_mem_calls (h : operation.expansion? leading = some operations) :
    (operation.name, operations.map Operation.name) ∈ Operator.calls := by
  unfold expansion? at h
  split at h
  next =>
    split at h
    · obtain rfl := Option.some.inj h
      simp [Operator.calls]
    · contradiction
  next =>
    obtain rfl := Option.some.inj h
    simp [Operator.calls]
  next =>
    split at h
    · obtain rfl := Option.some.inj h
      simp [Operator.calls]
    · contradiction
  next =>
    split at h
    · obtain rfl := Option.some.inj h
      simp [Operator.calls]
    · contradiction
  next => contradiction

/-- The calls have no cycle. -/
theorem descends_expansion? (h : operation.expansion? leading = some operations) :
    Descends operation.name operations := by
  have hrank : ∀ entry ∈ Operator.calls, ∀ name ∈ entry.2,
      Operator.rank name < Operator.rank entry.1 := by
    simp [Operator.calls, Operator.rank]
  have hweight : ∀ entry ∈ Operator.calls,
      totalWeight (entry.2.map fun name => ⟨name, []⟩) < Operator.weight entry.1 := by
    simp [Operator.calls, totalWeight, Operator.weight]
  have hcalls := names_mem_calls h
  refine ⟨fun other hother => hrank _ hcalls _ (List.mem_map_of_mem hother), ?_⟩
  rw [← totalWeight_names]
  exact hweight _ hcalls

end Operation

namespace Operator

variable {name : String} {operator : Operator} {operations : List Operation}

theorem effect?_or_expansion? (hfound : builtIn? name = some operator) (resources : Resources)
    (state : PageState) (operands : List Operand) :
    (∃ effect, (operator.action resources state operands).effect? = some effect) ∨
      ∃ operations, operator.action resources state operands = .expands operations ∧
        Operation.expansion? state.graphics.text.leading ⟨name, operands⟩ = some operations := by
  have hname : operator.name = name := by simpa using List.find?_some hfound
  rcases makesChanges_builtIn operator (List.mem_of_find?_eq_some hfound) with
    ⟨changes, -, heffect⟩ | hshorthand
  · exact .inl ⟨_, heffect resources state operands⟩
  · have hmem : name ∈ shorthandNames := by
      rw [← hname]
      simp only [shorthands, List.mem_cons, List.not_mem_nil, or_false] at hshorthand
      rcases hshorthand with rfl | rfl | rfl | rfl <;> decide
    obtain ⟨operator', hfound', -, hreplies⟩ := exists_repliesExpansion hmem
    obtain rfl := Option.some.inj (hfound.symm.trans hfound')
    have hexpansion := hreplies resources state operands
    unfold RepliesExpansion at hexpansion
    rw [hname] at hexpansion
    split at hexpansion
    next operations hsome => exact .inr ⟨operations, hexpansion, hsome⟩
    next =>
      obtain ⟨fault, hfailed⟩ := hexpansion
      exact .inl ⟨_, by rw [hfailed]; rfl⟩

theorem effect?_or_descends (hfound : builtIn? name = some operator) (resources : Resources)
    (state : PageState) (operands : List Operand) :
    (∃ effect, (operator.action resources state operands).effect? = some effect) ∨
      ∃ operations, operator.action resources state operands = .expands operations ∧
        Descends name operations := by
  refine (effect?_or_expansion? hfound resources state operands).imp_right ?_
  rintro ⟨operations, hexpands, hexpansion⟩
  exact ⟨operations, hexpands, Operation.descends_expansion? hexpansion⟩

theorem IsExpansion.descends (h : IsExpansion name operations) : Descends name operations := by
  obtain ⟨operator, resources, state, operands, hfound, hreply⟩ := h
  rcases effect?_or_descends hfound resources state operands with
    ⟨effect, heffect⟩ | ⟨found, hexpands, hdescends⟩
  · rw [hreply] at heffect
    contradiction
  · obtain rfl := Reply.expands.inj (hreply.symm.trans hexpands)
    exact hdescends

end Operator

mutual

/-- Whatever it is asked, the operator runs no operations, or those that the built-in operator of
its own name stands for. -/
inductive Operator.StandsIn : Operator → Prop where
  | intro {operator : Operator} : (∀ resources state operands,
      Reply.StandsInFor operator.name (operator.action resources state operands)) →
      Operator.StandsIn operator

inductive Reply.Quiet : Reply Operator → Prop where
  | done {state : PageState} {notices : List Notice} : Reply.Quiet (.done state notices)
  | failed {state : PageState} {error : Error} : Reply.Quiet (.failed state error)
  | installs {operator : Operator} {next : Reply Operator} :
      Operator.StandsIn operator → Reply.Quiet next → Reply.Quiet (.installs operator next)
  | removes {name : String} {next : Reply Operator} :
      Reply.Quiet next → Reply.Quiet (.removes name next)

/-- At most one expansion of the name is run, at the end or before something quiet. -/
inductive Reply.StandsInFor : String → Reply Operator → Prop where
  | quiet {name : String} {reply : Reply Operator} :
      Reply.Quiet reply → Reply.StandsInFor name reply
  | expands {name : String} {operations : List Operation} :
      Operator.IsExpansion name operations → Reply.StandsInFor name (.expands operations)
  | calls {name : String} {state : PageState} {operations : List Operation}
      {resume : PageState → Option Error → Reply Operator} :
      Operator.IsExpansion name operations →
      (∀ next failure, Reply.Quiet (resume next failure)) →
      Reply.StandsInFor name (.calls state operations resume)
  | installs {name : String} {operator : Operator} {next : Reply Operator} :
      Operator.StandsIn operator → Reply.StandsInFor name next →
      Reply.StandsInFor name (.installs operator next)
  | removes {name removed : String} {next : Reply Operator} :
      Reply.StandsInFor name next → Reply.StandsInFor name (.removes removed next)

end

namespace Operator

theorem standsInFor_builtIn {name : String} {operator : Operator}
    (hfound : builtIn? name = some operator) (resources : Resources) (state : PageState)
    (operands : List Operand) :
    Reply.StandsInFor name (operator.action resources state operands) := by
  rcases effect?_or_descends hfound resources state operands with
    ⟨effect, heffect⟩ | ⟨operations, hexpands, -⟩
  · rcases Reply.cases_of_effect? heffect with ⟨notices, hreply, -⟩ | ⟨error, hreply, -⟩
    · rw [hreply]
      exact .quiet .done
    · rw [hreply]
      exact .quiet .failed
  · rw [hexpands]
    exact .expands ⟨operator, resources, state, operands, hfound, hexpands⟩

theorem standsIn_inert (name : String) (shape : Shape) : (inert name shape).StandsIn :=
  .intro fun _ _ _ => .quiet .done

theorem standsIn_deferring (name : String) (shape : Shape) : (deferring name shape).StandsIn := by
  refine .intro fun resources state operands => ?_
  unfold deferring
  cases hfound : builtIn? name with
  | none => exact .quiet .done
  | some operator => exact standsInFor_builtIn hfound resources state operands

end Operator

/-! ## Invocations -/

namespace Environment

/-- Every operator that is installed only stands in for the built-in one of its name. -/
def OnlyStandsIn (env : Environment) : Prop :=
  ∀ operator ∈ env.overrides, operator.StandsIn

def Within (env : Environment) (result : Option Traced) (calls : Nat) : Prop :=
  ∃ traced, result = some traced ∧ traced.calls.length ≤ calls ∧
    (env.after traced.outcome).OnlyStandsIn

section Environments

variable {env : Environment} {operator : Operator}

theorem OnlyStandsIn.remove (h : env.OnlyStandsIn) (name : String) :
    (env.remove name).OnlyStandsIn :=
  fun operator hoperator => h operator (List.mem_filter.1 hoperator).1

theorem OnlyStandsIn.install (h : env.OnlyStandsIn) (hoperator : operator.StandsIn) :
    (env.install operator).OnlyStandsIn :=
  List.forall_mem_cons.2 ⟨hoperator, h.remove operator.name⟩

theorem OnlyStandsIn.standsInFor (h : env.OnlyStandsIn) {name : String}
    (hfound : env.operator? name = some operator) (state : PageState) (operands : List Operand) :
    Reply.StandsInFor name (operator.action env.resources state operands) := by
  rcases (Option.orElse_eq_some ..).1 hfound with hinstalled | ⟨-, hbuiltIn⟩
  · have hname : operator.name = name := by simpa using List.find?_some hinstalled
    obtain ⟨hreplies⟩ := h operator (List.mem_of_find?_eq_some hinstalled)
    rw [← hname]
    exact hreplies env.resources state operands
  · exact Operator.standsInFor_builtIn hbuiltIn env.resources state operands

theorem Within.mono {result : Option Traced} {calls calls' : Nat} (h : env.Within result calls)
    (hle : calls ≤ calls') : env.Within result calls' := by
  obtain ⟨traced, hresult, hcalls, hafter⟩ := h
  exact ⟨traced, hresult, Nat.le_trans hcalls hle, hafter⟩

end Environments

section Step

variable (invoke : Environment → PageState → Operation → Option Traced)

theorem within_runTraced {operations : List Operation}
    (hinvoke : ∀ env : Environment, env.OnlyStandsIn → ∀ state, ∀ operation ∈ operations,
      env.Within (invoke env state operation) (Operator.weight operation.name))
    {env : Environment} (henv : env.OnlyStandsIn) (state : PageState) :
    env.Within (runTraced invoke env state operations) (totalWeight operations) := by
  induction operations generalizing env state with
  | nil => exact ⟨_, rfl, Nat.zero_le _, henv⟩
  | cons operation operations ih =>
      obtain ⟨first, hfirst, hcalls, hafter⟩ := hinvoke env henv state operation (by simp)
      rw [runTraced, hfirst, totalWeight]
      simp only [bind, Option.bind]
      split
      next => exact ⟨first, rfl, by omega, hafter⟩
      next =>
        have hothers : ∀ env : Environment, env.OnlyStandsIn → ∀ state, ∀ other ∈ operations,
            env.Within (invoke env state other) (Operator.weight other.name) :=
          fun env henv state other hother => hinvoke env henv state other (by simp [hother])
        obtain ⟨last, hlast, hmore, hend⟩ := ih hothers hafter first.outcome.state
        refine ⟨first.behind last, by rw [hlast]; rfl, ?_, hend⟩
        rw [Traced.behind, List.length_append]
        omega

theorem within_quiet {reply : Reply Operator} (h : reply.Quiet) {env : Environment}
    (henv : env.OnlyStandsIn) (state : PageState) :
    env.Within (followTraced invoke env state reply) 0 := by
  induction reply generalizing env state with
  | done => exact ⟨_, rfl, Nat.le_refl 0, henv⟩
  | failed => exact ⟨_, rfl, Nat.le_refl 0, henv⟩
  | expands => contradiction
  | calls => contradiction
  | installs operator next ih =>
      cases h with
      | installs hoperator hnext => exact ih hnext (henv.install hoperator) state
  | removes name next ih =>
      cases h with
      | removes hnext => exact ih hnext (henv.remove name) state

theorem within_followTraced {name : String}
    (hinvoke : ∀ env : Environment, env.OnlyStandsIn → ∀ state operation,
      Operator.rank operation.name < Operator.rank name →
      env.Within (invoke env state operation) (Operator.weight operation.name))
    {reply : Reply Operator} (h : Reply.StandsInFor name reply) {env : Environment}
    (henv : env.OnlyStandsIn) (state : PageState) :
    env.Within (followTraced invoke env state reply) (Operator.weight name - 1) := by
  have hrun {operations : List Operation} (hexpansion : Operator.IsExpansion name operations)
      {env : Environment} (henv : env.OnlyStandsIn) (state : PageState) :
      env.Within (runTraced invoke env state operations) (Operator.weight name - 1) := by
    have hdescends := hexpansion.descends
    have hweight := hdescends.weight
    refine (within_runTraced invoke (fun env henv state operation hmem => ?_) henv state).mono
      (by omega)
    exact hinvoke env henv state operation (hdescends.rank operation hmem)
  induction reply generalizing env state with
  | done => exact (within_quiet invoke .done henv state).mono (Nat.zero_le _)
  | failed => exact (within_quiet invoke .failed henv state).mono (Nat.zero_le _)
  | expands operations =>
      cases h with
      | quiet hquiet => contradiction
      | expands hexpansion => exact hrun hexpansion henv state
  | calls next operations resume =>
      cases h with
      | quiet hquiet => contradiction
      | calls hexpansion hquiet =>
          obtain ⟨called, hcalled, hcalls, hafter⟩ := hrun hexpansion henv next
          obtain ⟨last, hlast, hnone, hend⟩ :=
            within_quiet invoke (hquiet called.outcome.state called.outcome.failure) hafter
              called.outcome.state
          rw [followTraced, hcalled]
          simp only [bind, Option.bind]
          refine ⟨called.behind last, by rw [hlast]; rfl, ?_, hend⟩
          rw [Traced.behind, List.length_append]
          omega
  | installs operator next ih =>
      cases h with
      | quiet hquiet => exact (within_quiet invoke hquiet henv state).mono (Nat.zero_le _)
      | installs hoperator hnext => exact ih hnext (henv.install hoperator) state
  | removes removed next ih =>
      cases h with
      | quiet hquiet => exact (within_quiet invoke hquiet henv state).mono (Nat.zero_le _)
      | removes hnext => exact ih hnext (henv.remove removed) state

end Step

theorem within_invokeTraced {env : Environment} (henv : env.OnlyStandsIn) (levels : Nat)
    (state : PageState) (operation : Operation) (hrank : Operator.rank operation.name < levels) :
    env.Within (env.invokeTraced levels state operation) (Operator.weight operation.name) := by
  induction levels generalizing env state operation with
  | zero => omega
  | succ levels ih =>
      have hpos := Operator.weight_pos operation.name
      rw [invokeTraced]
      split
      next => exact ⟨_, rfl, hpos, henv⟩
      next operator hfound =>
        have hstandsIn := henv.standsInFor hfound state operation.operands
        obtain ⟨rest, hrest, hcalls, hafter⟩ := within_followTraced _
          (fun env henv state other hother => ih henv state other (by omega)) hstandsIn henv state
        let called := Notice.called operation (env.override? operation.name).isNone
        refine ⟨⟨rest.outcome.noting [called], operation :: rest.calls⟩, by rw [hrest]; rfl, ?_,
          hafter⟩
        rw [List.length_cons]
        omega

section Runs

variable {env : Environment}

theorem four_le_levels (env : Environment) : 4 ≤ env.levels := by
  unfold levels
  omega

theorem within_invoke (henv : env.OnlyStandsIn) (state : PageState) (operation : Operation) :
    ∃ calls, env.invokeTraced 4 state operation =
        some ⟨env.invoke state operation, operation :: calls⟩ ∧
      calls.length < 7 ∧ (env.after (env.invoke state operation)).OnlyStandsIn := by
  obtain ⟨⟨outcome, calls⟩, htraced, hcalls, hafter⟩ :=
    within_invokeTraced henv 4 state operation (Operator.rank_lt operation.name)
  have hwithin := outcome_invokeTraced env 4 state operation
  rw [htraced] at hwithin
  obtain ⟨others, rfl⟩ := calls_invokeTraced htraced
  have hweight := Operator.weight_le operation.name
  rw [List.length_cons] at hcalls
  rw [invoke_of_invokeWithin (four_le_levels env) hwithin.symm]
  exact ⟨others, htraced, by omega, hafter⟩

theorem within_run (henv : env.OnlyStandsIn) (state : PageState) (operations : List Operation) :
    ∃ calls, runTraced (fun env => env.invokeTraced 4) env state operations =
        some ⟨env.run state operations, calls⟩ ∧
      calls.length ≤ 7 * operations.length := by
  induction operations generalizing env state with
  | nil => exact ⟨[], rfl, Nat.le_refl 0⟩
  | cons operation operations ih =>
      obtain ⟨calls, hfirst, hcalls, hafter⟩ := within_invoke henv state operation
      rw [runTraced, hfirst, run, List.length_cons]
      simp only [bind, Option.bind]
      cases hfailed : (env.invoke state operation).failure with
      | some error => exact ⟨_, rfl, by rw [List.length_cons]; omega⟩
      | none =>
          obtain ⟨others, hothers, hmore⟩ := ih hafter (env.invoke state operation).state
          refine ⟨operation :: calls ++ others, by rw [hothers]; rfl, ?_⟩
          rw [List.length_append, List.length_cons]
          omega

end Runs

/--
Dispatch ends.  Built-in operators stand only for operators of lower rank.  Where installed
operators run nothing, or once what the built-in operator of their own name stands for,
every operation has its outcome after at most 7 invocations, itself among them, which
are nested at most 4 deep; a run of operations invokes at most 7 for each of them.  The
recorded calls are those of the interpreter.
-/
theorem invokeTraced_invoke (env : Environment) (henv : env.OnlyStandsIn) (state : PageState) :
    (∀ name operations, Operator.IsExpansion name operations →
      ∀ operation ∈ operations, Operator.rank operation.name < Operator.rank name) ∧
    (∀ operation, ∃ calls,
      env.invokeTraced 4 state operation =
        some ⟨env.invoke state operation, operation :: calls⟩ ∧
      (operation :: calls).length ≤ 7) ∧
    (∀ operations, ∃ calls,
      runTraced (fun env => env.invokeTraced 4) env state operations =
        some ⟨env.run state operations, calls⟩ ∧
      calls.length ≤ 7 * operations.length) ∧
    ∀ (env : Environment) levels state operation,
      (env.invokeTraced levels state operation).map Traced.outcome =
        env.invokeWithin levels state operation := by
  refine ⟨fun name operations h => h.descends.rank, fun operation => ?_, within_run henv state,
    outcome_invokeTraced⟩
  obtain ⟨calls, hinvoke, hcalls, -⟩ := within_invoke henv state operation
  exact ⟨calls, hinvoke, hcalls⟩

def deferringEnvironment : Environment :=
  ⟨Resources.empty, [Operator.inert "Tc" .singleNumeric, Operator.deferring "'" .generic]⟩

def spacedText : Operation :=
  ⟨"\"", [.integer 1, .integer 2, .literalString []]⟩

theorem invokeTraced_invoke_spacedText :
    deferringEnvironment.OnlyStandsIn ∧
    ∃ calls, deferringEnvironment.invokeTraced 4 PageState.initial spacedText =
        some ⟨deferringEnvironment.invoke PageState.initial spacedText, spacedText :: calls⟩ ∧
      calls.map Operation.name = ["Tw", "Tc", "'", "T*", "Td", "Tj"] ∧
      (spacedText :: calls).length ≤ 7 := by
  have henv : deferringEnvironment.OnlyStandsIn :=
    List.forall_mem_cons.2 ⟨Operator.standsIn_inert _ _,
      List.forall_mem_cons.2 ⟨Operator.standsIn_deferring _ _, by simp⟩⟩
  obtain ⟨calls, hinvoke, hcalls⟩ :=
    (invokeTraced_invoke deferringEnvironment henv PageState.initial).2.1 spacedText
  refine ⟨henv, calls, hinvoke, ?_, hcalls⟩
  have hnames : (deferringEnvironment.invokeTraced 4 PageState.initial spacedText).map
      (fun traced => traced.calls.tail.map Operation.name) =
        some ["Tw", "Tc", "'", "T*", "Td", "Tj"] := by rfl
  rw [hinvoke] at hnames
  exact Option.some.inj hnames

end Environment

/-! ## Running more than once -/

/-- What is run is what the built-in operator of the name stands for, however often. -/
inductive Reply.RunsOnly (name : String) : Reply Operator → Prop
  | done {state : PageState} {notices : List Notice} : RunsOnly name (.done state notices)
  | failed {state : PageState} {error : Error} : RunsOnly name (.failed state error)
  | expands {operations : List Operation} (h : Operator.IsExpansion name operations) :
      RunsOnly name (.expands operations)
  | calls {state : PageState} {operations : List Operation}
      {resume : PageState → Option Error → Reply Operator}
      (h : Operator.IsExpansion name operations)
      (hresume : ∀ next failure, RunsOnly name (resume next failure)) :
      RunsOnly name (.calls state operations resume)

namespace Operator

/-- What the built-in operator of the name stands for is run twice, unless it fails at first. -/
def repeating (name : String) (shape : Shape) : Operator where
  name := name
  shape := shape
  action resources state operands :=
    match (deferring name shape).action resources state operands with
    | .expands operations =>
      .calls state operations fun next failure =>
        match failure with
        | some error => .failed next error
        | none => (deferring name shape).action resources next operands
    | reply => reply

theorem runsOnly_deferring (name : String) (shape : Shape) (resources : Resources)
    (state : PageState) (operands : List Operand) :
    Reply.RunsOnly name ((deferring name shape).action resources state operands) := by
  unfold deferring
  cases hfound : builtIn? name with
  | none => exact .done
  | some operator =>
      dsimp only
      rcases effect?_or_descends hfound resources state operands with
        ⟨effect, heffect⟩ | ⟨operations, hexpands, -⟩
      · rcases Reply.cases_of_effect? heffect with ⟨notices, hreply, -⟩ | ⟨error, hreply, -⟩
        · rw [hreply]
          exact .done
        · rw [hreply]
          exact .failed
      · rw [hexpands]
        exact .expands ⟨operator, resources, state, operands, hfound, hexpands⟩

theorem runsOnly_repeating (name : String) (shape : Shape) (resources : Resources)
    (state : PageState) (operands : List Operand) :
    Reply.RunsOnly name ((repeating name shape).action resources state operands) := by
  have hfirst := runsOnly_deferring name shape resources state operands
  unfold repeating
  dsimp only
  split
  next operations hexpands =>
    rw [hexpands] at hfirst
    cases hfirst with
    | expands hexpansion =>
        refine .calls hexpansion fun next failure => ?_
        cases failure with
        | some error => exact .failed
        | none => exact runsOnly_deferring name shape resources next operands
  next => exact hfirst

end Operator

namespace Environment

def repeatingEnvironment : Environment :=
  ⟨Resources.empty, [Operator.repeating "\"" .generic]⟩

/-- An installed operator that runs its own built-in one twice invokes more than seven. -/
theorem invokeTraced_spacedText_twice :
    (∀ operator ∈ repeatingEnvironment.overrides, ∀ resources state operands,
      Reply.RunsOnly operator.name (operator.action resources state operands)) ∧
    ∃ calls, repeatingEnvironment.invokeTraced 4 PageState.initial spacedText =
        some ⟨repeatingEnvironment.invoke PageState.initial spacedText, spacedText :: calls⟩ ∧
      (spacedText :: calls).length = 13 := by
  constructor
  · intro operator hoperator
    obtain rfl := List.mem_singleton.1 hoperator
    exact Operator.runsOnly_repeating _ _
  · have hlength : (repeatingEnvironment.invokeTraced 4 PageState.initial spacedText).map
        (fun traced => traced.calls.length) = some 13 := by rfl
    obtain ⟨⟨outcome, calls⟩, htraced, hcalls⟩ := Option.map_eq_some_iff.1 hlength
    have hwithin := outcome_invokeTraced repeatingEnvironment 4 PageState.initial spacedText
    rw [htraced] at hwithin
    obtain ⟨others, rfl⟩ := calls_invokeTraced htraced
    rw [invoke_of_invokeWithin (four_le_levels _) hwithin.symm]
    exact ⟨others, htraced, hcalls⟩

end Environment

end ContentStream
