import ContentStream.Token.Name
import ContentStream.Token.Literal
import ContentStream.Token.Hex
import ContentStream.Token.Numeral

/-!
# Operands as tokens

Every operand has one token, which reading turns back into the operand; only a real
that is not finite has none.  A single space stands between the items of an array,
between the entries of a dictionary, and between a key and its value.
-/

namespace ContentStream

abbrev Writer := Operand → Except Error Bytes

namespace Operand

mutual

def written : Writer
  | .integer value => .ok (Numeral.writtenInteger value)
  | .real value =>
    if Binary.isFinite value then .ok (Numeral.writtenReal value)
    else .error (.unwritable (.notFinite value))
  | .boolean true => .ok (Bytes.ofChars ['t', 'r', 'u', 'e'])
  | .boolean false => .ok (Bytes.ofChars ['f', 'a', 'l', 's', 'e'])
  | .name text => .ok (Name.written text)
  | .literalString bytes => .ok (Literal.written bytes)
  | .hexString bytes => .ok (Hex.written bytes)
  | .array items => do
    let inner ← writtenItems items
    return 0x5B :: inner ++ [0x5D]
  | .dictionary entries => do
    let inner ← writtenEntries entries
    return 0x3C :: 0x3C :: inner ++ [0x3E, 0x3E]
  | .null => .ok (Bytes.ofChars ['n', 'u', 'l', 'l'])

def writtenItems : List Operand → Except Error Bytes
  | [] => .ok []
  | [item] => written item
  | item :: items => do
    let first ← written item
    let others ← writtenItems items
    return first ++ 0x20 :: others

def writtenEntries : List (String × Operand) → Except Error Bytes
  | [] => .ok []
  | [(key, value)] => do
    let token ← written value
    return Name.written key ++ 0x20 :: token
  | (key, value) :: entries => do
    let token ← written value
    let others ← writtenEntries entries
    return Name.written key ++ 0x20 :: token ++ 0x20 :: others

end

/-- How an operand is shown: reals even if they are not finite, all else as tokens. -/
def shown : Writer
  | .real value => .ok (Numeral.writtenReal value)
  | operand => written operand

end Operand

end ContentStream
