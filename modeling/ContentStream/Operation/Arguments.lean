import ContentStream.Error

/-!
# Arguments of an operator

An operator takes what it needs from its operand list by position.  A missing or
mistyped operand is reported in the name of the operator; operands past the last
one it asks for are not looked at.
-/

namespace ContentStream

structure Arguments where
  operator : String
  operands : List Operand

namespace Arguments

def fail {α : Type} (args : Arguments) (fault : OperandFault) : Except Error α :=
  .error (.invalidOperand args.operator fault)

def operand (args : Arguments) (index : Nat) : Except Error Operand :=
  match args.operands[index]? with
  | some value => .ok value
  | none => args.fail (.missing index)

def get {α : Type} (args : Arguments) (index : Nat) (expected : Expectation)
    (view? : Operand → Option α) : Except Error α := do
  let value ← args.operand index
  match view? value with
  | some found => return found
  | none => args.fail (.mistyped index expected value.kind)

def number (args : Arguments) (index : Nat) : Except Error Float :=
  args.get index .number Operand.number?

def numbersFrom (args : Arguments) (index : Nat) : (count : Nat) → Except Error (List Float)
  | 0 => .ok []
  | count + 1 => do
    let first ← args.number index
    let others ← args.numbersFrom (index + 1) count
    return first :: others

def numbers (args : Arguments) (count : Nat) : Except Error (List Float) :=
  args.numbersFrom 0 count

def integer (args : Arguments) (index : Nat) : Except Error Int64 :=
  args.get index .integer Operand.integer?

def name (args : Arguments) (index : Nat) : Except Error String :=
  args.get index .name Operand.name?

def string (args : Arguments) (index : Nat) : Except Error Bytes :=
  args.get index .string Operand.string?

def array (args : Arguments) (index : Nat) : Except Error (List Operand) :=
  args.get index .array Operand.array?

def dictionary (args : Arguments) (index : Nat) : Except Error Dictionary :=
  args.get index .dictionary Operand.dictionary?

def numeric (args : Arguments) (index : Nat) : Except Error Operand :=
  args.get index .number fun value => if value.isNumber then some value else none

end Arguments

end ContentStream
