import ContentStream.Operator.Catalog

/-!
# Running operations

Operations are run one after the other until one fails.  An operator that has been
installed takes the place of the built-in one of the same name, also where an
operation stands for others.  Running is bounded by how deep operations may stand
for others or call them; `Environment.levels` is a bound that operators which do not
call themselves through others stay below.
-/

namespace ContentStream

structure Environment where
  resources : Resources
  /-- Installed operators, at most one of a name. -/
  overrides : List Operator := []

/-- What is left of a run: all that happened before a failure has its effect. -/
structure Outcome where
  state : PageState
  overrides : List Operator
  notices : List Notice
  failure : Option Error

namespace Outcome

def noting (notices : List Notice) (outcome : Outcome) : Outcome :=
  { outcome with notices := notices ++ outcome.notices }

end Outcome

namespace Environment

def override? (env : Environment) (name : String) : Option Operator :=
  env.overrides.find? fun operator => operator.name = name

/-- The operator that a name means: an installed one, or else a built-in one. -/
def operator? (env : Environment) (name : String) : Option Operator :=
  env.override? name <|> Operator.builtIn? name

def remove (env : Environment) (name : String) : Environment :=
  { env with overrides := env.overrides.filter fun operator => operator.name ≠ name }

def install (env : Environment) (operator : Operator) : Environment :=
  { env with overrides := operator :: (env.remove operator.name).overrides }

def after (env : Environment) (outcome : Outcome) : Environment :=
  { env with overrides := outcome.overrides }

def runWith (invoke : Environment → PageState → Operation → Option Outcome) :
    Environment → PageState → List Operation → Option Outcome
  | env, state, [] => some ⟨state, env.overrides, [], none⟩
  | env, state, operation :: operations => do
    let first ← invoke env state operation
    match first.failure with
    | some _ => some first
    | none =>
      (runWith invoke (env.after first) first.state operations).map
        (Outcome.noting first.notices)

def follow (invoke : Environment → PageState → Operation → Option Outcome) :
    Environment → PageState → Reply Operator → Option Outcome
  | env, _, .done next notices => some ⟨next, env.overrides, notices, none⟩
  | env, _, .failed next error => some ⟨next, env.overrides, [], some error⟩
  | env, state, .expands operations => runWith invoke env state operations
  | env, _, .calls next operations resume => do
    let called ← runWith invoke env next operations
    (follow invoke (env.after called) called.state (resume called.state called.failure)).map
      (Outcome.noting called.notices)
  | env, state, .installs operator next => follow invoke (env.install operator) state next
  | env, state, .removes name next => follow invoke (env.remove name) state next

/-- A single operation; `none` if more than `levels` operations stand for each other. -/
def invokeWithin (env : Environment) :
    (levels : Nat) → PageState → Operation → Option Outcome
  | 0, _, _ => none
  | levels + 1, state, operation =>
    match env.operator? operation.name with
    | none =>
      let notices :=
        if state.compatibilityDepth = 0 then [Notice.unknownOperator operation.name] else []
      some ⟨state, env.overrides, notices, none⟩
    | some operator =>
      let called := Notice.called operation (env.override? operation.name).isNone
      (follow (fun env => env.invokeWithin levels) env state
        (operator.action env.resources state operation.operands)).map (Outcome.noting [called])

/-- A bound for operators that do not call themselves through others. -/
def levels (env : Environment) : Nat :=
  16 * (env.overrides.length + 8)

def invoke (env : Environment) (state : PageState) (operation : Operation) : Outcome :=
  (env.invokeWithin env.levels state operation).getD
    ⟨state, env.overrides, [], some (.endlessCall operation.name)⟩

def run : Environment → PageState → List Operation → Outcome
  | env, state, [] => ⟨state, env.overrides, [], none⟩
  | env, state, operation :: operations =>
    let first := env.invoke state operation
    match first.failure with
    | some _ => first
    | none => ((env.after first).run first.state operations).noting first.notices

end Environment

end ContentStream
