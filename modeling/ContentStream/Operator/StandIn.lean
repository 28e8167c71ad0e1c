import ContentStream.Operator.Catalog

/-!
# Operators to install

Simple operators that take the place of built-in ones: to switch an operator off, to
let it fail, or to pass its operations on.
-/

namespace ContentStream.Operator

def inert (name : String) (shape : Shape) : Operator where
  name := name
  shape := shape
  action _ state _ := .done state []

def failing (name : String) (shape : Shape) (error : Error) : Operator where
  name := name
  shape := shape
  action _ state _ := .failed state error

/-- Does what the built-in operator of its name does; nothing if there is none. -/
def deferring (name : String) (shape : Shape) : Operator where
  name := name
  shape := shape
  action :=
    match builtIn? name with
    | some operator => operator.action
    | none => fun _ state _ => .done state []

/-- Passes its operands to the operator that another name means. -/
def redirecting (name : String) (shape : Shape) (target : String) : Operator where
  name := name
  shape := shape
  action _ _ operands := .expands [⟨target, operands⟩]

end ContentStream.Operator
