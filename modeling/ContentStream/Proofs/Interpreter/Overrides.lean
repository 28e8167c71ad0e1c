import Mathlib.Data.List.Induction
import ContentStream.Proofs.Interpreter.BuiltIn
import ContentStream.Proofs.Interpreter.Dispatch

/-!
# What installed operators reach

An installed operator is in force for its own name only: the one installed last, until it
is removed.  Operations of other names come to it only where they are shorthand that is
written out with its name.  Where no operation reaches an installed operator, a run is
what it would be without any.
-/

namespace ContentStream

inductive Installation where
  | install (operator : Operator)
  | remove (name : String)

def Installation.name : Installation → String
  | .install operator => operator.name
  | .remove name => name

namespace Environment

def apply (env : Environment) : Installation → Environment
  | .install operator => env.install operator
  | .remove name => env.remove name

def applyAll (env : Environment) (history : List Installation) : Environment :=
  history.foldl apply env

theorem override?_remove (env : Environment) (removed name : String) :
    (env.remove removed).override? name = if removed = name then none else env.override? name := by
  unfold override? remove
  dsimp only
  rw [List.find?_filter]
  split
  next heq =>
    subst heq
    refine List.find?_eq_none.2 fun operator _ => ?_
    simp
  next hne =>
    congr 1
    funext operator
    by_cases hname : operator.name = name
    · simp [hname, Ne.symm hne]
    · simp [hname]

theorem override?_install (env : Environment) (operator : Operator) (name : String) :
    (env.install operator).override? name =
      if operator.name = name then some operator else env.override? name := by
  have hothers := override?_remove env operator.name name
  unfold override? at hothers ⊢
  rw [install, List.find?_cons]
  split
  next hname => rw [if_pos (by simpa using hname)]
  next hname =>
    have hne : operator.name ≠ name := by simpa using hname
    rw [hothers, if_neg hne, if_neg hne]

theorem operator?_apply (env : Environment) (change : Installation) (name : String) :
    (env.apply change).operator? name =
      if change.name = name then
        match change with
        | .install operator => some operator
        | .remove _ => Operator.builtIn? name
      else env.operator? name := by
  cases change with
  | install operator =>
      rw [apply, operator?, override?_install, Installation.name]
      split
      · rfl
      · rfl
  | remove removed =>
      rw [apply, operator?, override?_remove, Installation.name]
      split
      · rfl
      · rfl

theorem operator?_applyAll (env : Environment) (history : List Installation) (name : String) :
    (env.applyAll history).operator? name =
      match (history.filter fun change => change.name = name).getLast? with
      | some (.install operator) => some operator
      | some (.remove _) => Operator.builtIn? name
      | none => env.operator? name := by
  induction history using List.reverseRecOn with
  | nil => rfl
  | append_singleton history change ih =>
      rw [applyAll, List.foldl_append, List.foldl_cons, List.foldl_nil, operator?_apply,
        List.filter_append]
      split
      next hname =>
        rw [List.filter_cons_of_pos (by simpa using hname), List.filter_nil, List.getLast?_concat]
        cases change <;> rfl
      next hname =>
        rw [List.filter_cons_of_neg (by simpa using hname), List.filter_nil, List.append_nil]
        exact ih

end Environment

namespace Operator

def expanded : List (String × List String) :=
  [("TD", ["TL", "Td"]), ("T*", ["Td"]), ("'", ["T*", "Td", "Tj"]),
    ("\"", ["Tw", "Tc", "'", "T*", "Td", "Tj"])]

/-- The names that an operation of the name comes to, itself and those it stands for. -/
def reached (name : String) : List String :=
  name :: (expanded.lookup name).getD []

theorem reached_of_calls {name other : String} {called : List String}
    (h : (name, called) ∈ calls) (hother : other ∈ called) : reached other ⊆ reached name := by
  have hclosed : ∀ entry ∈ calls, ∀ other ∈ entry.2, reached other ⊆ reached entry.1 := by decide
  exact hclosed _ h other hother

end Operator

/-! ## Runs -/

def Outcome.among (overrides : List Operator) (outcome : Outcome) : Outcome :=
  { outcome with overrides := overrides }

theorem Outcome.among_noting (overrides : List Operator) (notices : List Notice)
    (outcome : Outcome) :
    (outcome.noting notices).among overrides = (outcome.among overrides).noting notices := rfl

namespace Environment

variable {env : Environment}

theorem after_among (outcome : Outcome) : env.after (outcome.among env.overrides) = env := rfl

def bare (env : Environment) : Environment :=
  { env with overrides := [] }

theorem bare_overrides (env : Environment) : env.bare.overrides = [] := rfl

/-- No installed operator takes the place of one that operations of the name come to. -/
def Untouched (env : Environment) (name : String) : Prop :=
  ∀ other ∈ Operator.reached name, env.override? other = none

theorem Untouched.operator?_eq {name : String} (h : env.Untouched name) :
    env.operator? name = Operator.builtIn? name := by
  rw [operator?, h name List.mem_cons_self]
  rfl

theorem Untouched.of_expansion? {leading : Float} {operation : Operation}
    {operations : List Operation} (h : env.Untouched operation.name)
    (hexpansion : operation.expansion? leading = some operations) :
    ∀ other ∈ operations, env.Untouched other.name := by
  intro other hother name hname
  have hcalls := Operation.names_mem_calls hexpansion
  exact h name (Operator.reached_of_calls hcalls (List.mem_map_of_mem hother) hname)

private theorem overrides_bare {levels : Nat} {state : PageState} {operation : Operation}
    {outcome : Outcome} (h : env.bare.invokeWithin levels state operation = some outcome) :
    outcome.overrides = [] := by
  obtain ⟨changes, -, levels', -, hperforms⟩ := exists_performs (bare_overrides env) operation.name
  obtain ⟨notices, hdoes⟩ := hperforms state operation.operands
  obtain rfl := Invokes.unique ⟨levels, h⟩ ⟨levels', hdoes⟩
  rfl

private theorem runWith_untouched {levels : Nat}
    (hinvoke : ∀ {state operation}, env.Untouched operation.name →
      env.invokeWithin levels state operation =
        (env.bare.invokeWithin levels state operation).map (Outcome.among env.overrides))
    {operations : List Operation} (h : ∀ operation ∈ operations, env.Untouched operation.name)
    (state : PageState) :
    runWith (fun env => env.invokeWithin levels) env state operations =
      (runWith (fun env => env.invokeWithin levels) env.bare state operations).map
        (Outcome.among env.overrides) := by
  induction operations generalizing state with
  | nil => rfl
  | cons operation operations ih =>
      obtain ⟨hfirst, hothers⟩ := List.forall_mem_cons.1 h
      rw [runWith, runWith, hinvoke hfirst]
      cases hbare : env.bare.invokeWithin levels state operation with
      | none => rfl
      | some first =>
          have hafter : env.bare.after first = env.bare := by
            rw [after, overrides_bare hbare]
            rfl
          simp only [Option.map_some, Option.bind_eq_bind, Option.bind_some, after_among, hafter]
          rw [show (first.among env.overrides).failure = first.failure from rfl]
          cases first.failure with
          | some error => rfl
          | none =>
              dsimp only
              rw [show (first.among env.overrides).state = first.state from rfl,
                ih hothers first.state, Option.map_map, Option.map_map]
              rfl

theorem invokeWithin_untouched (levels : Nat) : ∀ {state : PageState} {operation : Operation},
    env.Untouched operation.name → env.invokeWithin levels state operation =
      (env.bare.invokeWithin levels state operation).map (Outcome.among env.overrides) := by
  -- What shorthand stands for is untouched too, and is run with one level less.
  induction levels with
  | zero => exact fun _ => rfl
  | succ levels ih =>
      intro state operation h
      have hown : env.override? operation.name = none := h _ List.mem_cons_self
      have hnone : env.bare.override? operation.name = none := rfl
      have hbare : env.bare.operator? operation.name = Operator.builtIn? operation.name :=
        operator?_eq_builtIn? rfl operation.name
      rw [invokeWithin, invokeWithin, h.operator?_eq, hbare, hown, hnone]
      cases hfound : Operator.builtIn? operation.name with
      | none => rfl
      | some operator =>
          dsimp only
          rcases Operator.effect?_or_expansion? hfound env.resources state operation.operands with
            ⟨effect, heffect⟩ | ⟨operations, hexpands, hexpansion⟩
          · rcases Reply.cases_of_effect? heffect with ⟨notices, hreply, -⟩ | ⟨error, hreply, -⟩
            · rw [hreply, bare, hreply]
              rfl
            · rw [hreply, bare, hreply]
              rfl
          · have hrun := runWith_untouched ih (h.of_expansion? hexpansion) state
            rw [hexpands, follow, hrun, show env.bare.resources = env.resources from rfl, hexpands,
              follow, Option.map_map, Option.map_map]
            rfl

theorem invoke_untouched {operation : Operation} (h : env.Untouched operation.name)
    (state : PageState) :
    env.invoke state operation = (env.bare.invoke state operation).among env.overrides := by
  obtain ⟨changes, -, levels, hlevels, hperforms⟩ :=
    exists_performs (bare_overrides env) operation.name
  obtain ⟨notices, hdoes⟩ := hperforms state operation.operands
  have hbound (env : Environment) : levels ≤ env.levels := by
    unfold Environment.levels
    omega
  have hwithin : env.invokeWithin levels state operation = _ := invokeWithin_untouched levels h
  rw [hdoes] at hwithin
  rw [invoke_of_invokeWithin (hbound env) hwithin, invoke_of_invokeWithin (hbound env.bare) hdoes]

theorem run_untouched {operations : List Operation}
    (h : ∀ operation ∈ operations, env.Untouched operation.name) (state : PageState) :
    env.run state operations = (env.bare.run state operations).among env.overrides := by
  induction operations generalizing state with
  | nil => rfl
  | cons operation operations ih =>
      obtain ⟨hfirst, hothers⟩ := List.forall_mem_cons.1 h
      have hafter := after_invoke (bare_overrides env) state operation
      rw [run, run, invoke_untouched hfirst, hafter]
      generalize env.bare.invoke state operation = first
      rw [after_among, show (first.among env.overrides).failure = first.failure from rfl]
      cases first.failure with
      | some error => rfl
      | none =>
          dsimp only
          rw [Outcome.among_noting, ← ih hothers first.state]
          rfl

/--
Installed operators act only where they are reached.  A run of operations none of which
comes to an installed operator has the state, the failure and the notices that it has
without any, and leaves what is installed.  After any history of installing and removing,
a name means the operator that was installed last for it unless it was removed since, and
otherwise the built-in one; what happened to other names does not matter.
-/
theorem run_unreached (env : Environment) (state : PageState) :
    (∀ operations : List Operation,
      (∀ operation ∈ operations, ∀ name ∈ Operator.reached operation.name,
        env.override? name = none) →
      env.run state operations =
        { Environment.run ⟨env.resources, []⟩ state operations with
          overrides := env.overrides }) ∧
    ∀ history name, (env.applyAll history).operator? name =
      match (history.filter fun change => change.name = name).getLast? with
      | some (.install operator) => some operator
      | some (.remove _) => Operator.builtIn? name
      | none => env.operator? name :=
  ⟨fun _ h => run_untouched h state, operator?_applyAll env⟩

def hinderedEnvironment : Environment :=
  ⟨Resources.empty, [Operator.failing "Tj" .generic (.unwritable (.refused "boom")),
    Operator.inert "q" .noOperands]⟩

def emptyLines : List Operation :=
  [⟨"TD", [.integer 1, .integer 2]⟩, ⟨"T*", []⟩]

theorem run_unreached_emptyLines :
    (∀ operation ∈ emptyLines, ∀ name ∈ Operator.reached operation.name,
      hinderedEnvironment.override? name = none) ∧
    hinderedEnvironment.run PageState.initial emptyLines =
      { Environment.run ⟨Resources.empty, []⟩ PageState.initial emptyLines with
        overrides := hinderedEnvironment.overrides } ∧
    (hinderedEnvironment.applyAll
      [.install (Operator.inert "Tj" .generic), .remove "q", .remove "Tj",
        .install (Operator.inert "q" .generic)]).operator? "Tj" = some Operator.showText := by
  have hnames : ∀ operation ∈ emptyLines, ∀ name ∈ Operator.reached operation.name,
      name ∈ ["TD", "TL", "Td", "T*"] := by decide
  have hfree : ∀ name ∈ ["TD", "TL", "Td", "T*"],
      hinderedEnvironment.override? name = none := by
    simp only [List.forall_mem_cons]
    exact ⟨rfl, rfl, rfl, rfl, by simp⟩
  have hunreached : ∀ operation ∈ emptyLines, ∀ name ∈ Operator.reached operation.name,
      hinderedEnvironment.override? name = none :=
    fun operation hoperation name hname => hfree name (hnames operation hoperation name hname)
  obtain ⟨hrun, hmeans⟩ := run_unreached hinderedEnvironment PageState.initial
  exact ⟨hunreached, hrun emptyLines hunreached, hmeans _ "Tj"⟩

end Environment

end ContentStream
