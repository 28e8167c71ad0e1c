import ContentStream.Number.Layout

/-!
# JSON values

Values to be written out, with integers and doubles apart.  The written form has one
item on a line, indented by two spaces for each level.  What is not a finite number
is written as `null`.
-/

namespace ContentStream

inductive Json where
  | null
  | integer (value : Int)
  | number (value : Float)
  | string (text : String)
  | array (items : List Json)
  | object (members : List (String × Json))
  deriving Inhabited

namespace Json

def ofOption {α : Type} (encode : α → Json) : Option α → Json
  | some value => encode value
  | none => null

def ofNumbers (values : List Float) : Json :=
  .array (values.map number)

/-- An object with its members in the order of their names. -/
def sorted (members : List (String × Json)) : Json :=
  .object (members.mergeSort fun x y => x.1 ≤ y.1)

def escape (char : Char) : List Char :=
  if char = '"' then ['\\', '"']
  else if char = '\\' then ['\\', '\\']
  else if char = '\n' then ['\\', 'n']
  else if char = '\r' then ['\\', 'r']
  else if char = '\t' then ['\\', 't']
  else if char.toNat = 0x08 then ['\\', 'b']
  else if char.toNat = 0x0C then ['\\', 'f']
  else if char.toNat < 0x20 then
    let digits := Nat.toDigits 16 char.toNat
    ['\\', 'u'] ++ List.replicate (4 - digits.length) '0' ++ digits
  else [char]

def quoted (text : String) : String :=
  String.ofList ('"' :: text.toList.flatMap escape ++ ['"'])

def newLine (level : Nat) : String :=
  String.ofList ('\n' :: List.replicate (2 * level) ' ')

mutual

def writtenAt (level : Nat) : Json → String
  | .null => "null"
  | .integer value => String.ofList (Decimal.intChars value)
  | .number value => if Binary.isFinite value then Number.json.text value else "null"
  | .string text => quoted text
  | .array [] => "[]"
  | .array items => "[" ++ writtenItems (level + 1) items ++ newLine level ++ "]"
  | .object [] => "\x7b\x7d"
  | .object members => "\x7b" ++ writtenMembers (level + 1) members ++ newLine level ++ "\x7d"

def writtenItems (level : Nat) : List Json → String
  | [] => ""
  | [item] => newLine level ++ writtenAt level item
  | item :: items => newLine level ++ writtenAt level item ++ "," ++ writtenItems level items

def writtenMembers (level : Nat) : List (String × Json) → String
  | [] => ""
  | [(name, value)] => newLine level ++ quoted name ++ ": " ++ writtenAt level value
  | (name, value) :: members =>
    newLine level ++ quoted name ++ ": " ++ writtenAt level value ++ "," ++
      writtenMembers level members

end

def written (value : Json) : String :=
  writtenAt 0 value

end Json

end ContentStream
