import ContentStream.Operand.Written
import ContentStream.Operation
import ContentStream.Operation.Arguments

/-!
# Shapes of written operations

How an operation is written depends on its operator.  Most are written with all
their operands; some never have operands, some have exactly one number, and an
inline image has a form of its own.  Each operation ends its line.
-/

namespace ContentStream

inductive Shape where
  | generic
  | noOperands
  | singleNumeric
  | inlineImage
  deriving DecidableEq, Repr

namespace Shape

def lineEnd : Bytes := [0x0A]

def writtenOperands (write : Writer) : List Operand → Except Error Bytes
  | [] => .ok []
  | operand :: operands => do
    let token ← write operand
    let others ← writtenOperands write operands
    return token ++ 0x20 :: others

def imageEntries (entries : Dictionary) : List Operand :=
  entries.flatMap fun (key, value) => [.name key, value]

def writtenGeneric (write : Writer) (name : String) (operands : List Operand) :
    Except Error Bytes := do
  let tokens ← writtenOperands write operands
  return tokens ++ Utf8.encode name ++ lineEnd

def writtenNumeric (name : String) (operands : List Operand) : Except Error Bytes :=
  match operands with
  | [] => .error (.invalidOperand name (.missing 0))
  | value :: _ => do
    if !value.isNumber then
      throw (.invalidOperand name (.notNumeric value.kind))
    let token ← value.written
    return token ++ 0x20 :: Utf8.encode name ++ lineEnd

def imageParts (operands : List Operand) : Except Error (Dictionary × Bytes) := do
  let args : Arguments := ⟨"BI", operands⟩
  let entries ← args.dictionary 0
  let data ← args.string 1
  return (entries, data)

/-- The data is written as it is, with the end keyword right behind it. -/
def writtenImage (write : Writer) (operands : List Operand) : Except Error Bytes := do
  let (entries, data) ← imageParts operands
  let tokens ← writtenOperands write (imageEntries entries)
  return Bytes.ofChars ['B', 'I', '\n'] ++ tokens ++ Bytes.ofChars ['I', 'D', '\n'] ++
    data ++ Bytes.ofChars ['E', 'I', '\n']

def written (shape : Shape) (write : Writer) (name : String) (operands : List Operand) :
    Except Error Bytes :=
  match shape with
  | .generic => writtenGeneric write name operands
  | .noOperands => .ok (Utf8.encode name ++ lineEnd)
  | .singleNumeric => writtenNumeric name operands
  | .inlineImage => writtenImage write operands

end Shape

end ContentStream
