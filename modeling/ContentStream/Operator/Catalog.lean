import ContentStream.Operator.General
import ContentStream.Operator.Path
import ContentStream.Operator.Text
import ContentStream.Operator.Color
import ContentStream.Operator.Marking

/-!
# The built-in operators

Each name belongs to one operator.  Operations of other names are unknown: they
mean nothing, and are written in the generic shape.
-/

namespace ContentStream

namespace Operator

def builtIn : List Operator :=
  general ++ path ++ text ++ colors ++ marking

def builtIn? (name : String) : Option Operator :=
  builtIn.find? fun operator => operator.name = name

def written (operator : Operator) (write : Writer) (operands : List Operand) :
    Except Error Bytes :=
  operator.shape.written write operator.name operands

end Operator

namespace Operation

def shape (operation : Operation) : Shape :=
  ((Operator.builtIn? operation.name).map Operator.shape).getD .generic

def written (write : Writer) (operation : Operation) : Except Error Bytes :=
  operation.shape.written write operation.name operation.operands

def writtenAll (write : Writer) : List Operation → Except Error Bytes
  | [] => .ok []
  | operation :: operations => do
    let first ← operation.written write
    let others ← writtenAll write operations
    return first ++ others

end Operation

end ContentStream
