import ContentStream.Notice
import ContentStream.Operation.Shape
import ContentStream.PageState
import ContentStream.Resources

/-!
# Operators

An operator has a name, a shape in which its operations are written, and an action.
An action looks at the resources, the state and the operands, and replies.  Either
it is finished, or the operation stands for other operations, which are then run
in its place.  Operators to install may do more before they are finished: run
operations and go on with what these leave, and install or remove operators.

An operator is built up from those that it can install, so it does not hold itself,
and it does not see which operators are installed.  Operators that install themselves
again, or that look at the others, are covered wherever a run ends: the run asks them
for finitely many replies, each decided by what is installed at that time, and it goes
the same way with one `Operator` for each of these replies, installed by the reply that
comes before.  What holds in all environments therefore holds of such runs too.
-/

namespace ContentStream

/-- What an action does, step by step; operators that it can install are `Installed`. -/
inductive Reply (Installed : Type) where
  | done (state : PageState) (notices : List Notice)
  | failed (state : PageState) (error : Error)
  | expands (operations : List Operation)
  /-- Runs the operations from `state`; goes on with the state and the failure they leave. -/
  | calls (state : PageState) (operations : List Operation)
      (resume : PageState → Option Error → Reply Installed)
  | installs (operator : Installed) (next : Reply Installed)
  | removes (name : String) (next : Reply Installed)

structure Operator where
  name : String
  shape : Shape
  action : Resources → PageState → List Operand → Reply Operator

namespace Operator

def updating (name : String) (shape : Shape)
    (update : Resources → PageState → Arguments → Except Error PageState) : Operator where
  name := name
  shape := shape
  action resources state operands :=
    match update resources state ⟨name, operands⟩ with
    | .ok next => .done next []
    | .error error => .failed state error

def painting (name : String) (shape : Shape)
    (update : GraphicsState → Arguments → Except Error GraphicsState) : Operator :=
  updating name shape fun _ state args =>
    (update state.graphics args).map state.withGraphics

def numeric (name : String) (set : GraphicsState → Float → GraphicsState) : Operator :=
  painting name .singleNumeric fun graphics args => (args.number 0).map (set graphics)

def checking (name : String) (shape : Shape) (check : Arguments → Except Error Unit) :
    Operator :=
  updating name shape fun _ state args => (check args).map fun _ => state

def acting (name : String) (act : PageState → PageState × List Notice) : Operator where
  name := name
  shape := .noOperands
  action _ state _ := .done (act state).1 (act state).2

def entering (name : String) (object : GraphicsObject) : Operator :=
  acting name fun state => ({ state with object := object }, [])

def expanding (name : String) (shape : Shape)
    (expansion : PageState → Arguments → Except Error (List Operation)) : Operator where
  name := name
  shape := shape
  action _ state operands :=
    match expansion state ⟨name, operands⟩ with
    | .ok operations => .expands operations
    | .error error => .failed state error

end Operator

end ContentStream
