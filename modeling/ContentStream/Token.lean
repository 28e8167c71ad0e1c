import ContentStream.Token.Separator
import ContentStream.Token.Name
import ContentStream.Token.Literal
import ContentStream.Token.Hex
import ContentStream.Token.Numeral

/-!
# Tokens

A token is a complete operand, arrays and dictionaries with all they hold, or a
keyword.  `Token.read levels` takes the next token off its input; at most `levels`
arrays and dictionaries may be open inside each other.  It is defined by recursion
on `levels`, and the loops over the items of a container by recursion on the
length of the input.
-/

namespace ContentStream

inductive Token where
  | operand (value : Operand)
  | keyword (word : Bytes)

/-- Takes the next item off an input; `none` where only separators are left. -/
abbrev Reader (α : Type) :=
  (input : Bytes) → Except Stuck (Option (Taken α input))

namespace Token

/--
The next token, which has to be an operand.  A keyword is reported at the place
where reading began, separators included.
-/
def takeOperand (read : Reader Token) (container : Container) (input : Bytes) :
    Except Stuck (Taken Operand input) :=
  match read input with
  | .error stuck => .error stuck
  | .ok none => .error ⟨[], .unterminated container⟩
  | .ok (some ⟨.operand value, rest, h⟩) => .ok ⟨value, rest, h⟩
  | .ok (some ⟨.keyword word, _, _⟩) =>
    .error ⟨input, .keywordInside (Utf8.decodeLossy word) container⟩

def takeItems (read : Reader Token) (items : List Operand) (input : Bytes) :
    Except Stuck (Taken (List Operand) input) :=
  match h : Separator.skip input with
  | [] => .error ⟨[], .unterminated .array⟩
  | byte :: tail =>
    have within : (byte :: tail).length ≤ input.length :=
      h ▸ Separator.length_skip_le input
    if byte = 0x5D then
      .ok ((Taken.afterFirst items.reverse tail (Nat.le_refl _)).within within)
    else
      match takeOperand read .array (byte :: tail) with
      | .error stuck => .error stuck
      | .ok item =>
        have shorter : item.rest.length < input.length :=
          Nat.lt_of_lt_of_le item.shorter within
        match takeItems read (item.value :: items) item.rest with
        | .error stuck => .error stuck
        | .ok taken => .ok (taken.within (Nat.le_of_lt shorter))
termination_by input.length

/-- What ends a list of entries, and what is reported if nothing does. -/
structure EntryEnd where
  container : Container
  close? : (input : Bytes) → Option (Taken Unit input)
  unclosed : Stuck

def takeEntries (read : Reader Token) (ending : EntryEnd) (entries : Dictionary)
    (input : Bytes) : Except Stuck (Taken Dictionary input) :=
  match h : Separator.skip input with
  | [] => .error ending.unclosed
  | byte :: tail =>
    have within : (byte :: tail).length ≤ input.length :=
      h ▸ Separator.length_skip_le input
    match ending.close? (byte :: tail) with
    | some closed => .ok ((closed.map fun _ => entries).within within)
    | none =>
      if byte = 0x2F then
        match Name.take byte tail with
        | .error stuck => .error stuck
        | .ok key =>
          match takeOperand read ending.container key.rest with
          | .error stuck => .error stuck
          | .ok item =>
            have shorter : item.rest.length < input.length :=
              Nat.lt_trans item.shorter (Nat.lt_of_lt_of_le key.shorter within)
            match takeEntries read ending
                (Dictionary.insert key.value item.value entries) item.rest with
            | .error stuck => .error stuck
            | .ok taken => .ok (taken.within (Nat.le_of_lt shorter))
      else
        .error ⟨byte :: tail, .keyExpected ending.container⟩
termination_by input.length

def closeDictionary : (input : Bytes) → Option (Taken Unit input)
  | first :: second :: rest =>
    if first = 0x3E ∧ second = 0x3E then
      some (.afterFirst () rest (Nat.le_succ _))
    else
      none
  | _ => none

def dictionaryEnd : EntryEnd where
  container := .dictionary
  close? := closeDictionary
  unclosed := ⟨[], .unterminated .dictionary⟩

def ofWord (word : Bytes) : Token :=
  if word = Bytes.ofChars ['t', 'r', 'u', 'e'] then .operand (.boolean true)
  else if word = Bytes.ofChars ['f', 'a', 'l', 's', 'e'] then .operand (.boolean false)
  else if word = Bytes.ofChars ['n', 'u', 'l', 'l'] then .operand .null
  else .keyword word

def takeWord (first : UInt8) (tail : Bytes) : Taken Token (first :: tail) :=
  .afterFirst (ofWord (first :: tail.takeWhile Byte.isRegular))
    (tail.dropWhile Byte.isRegular) (length_dropWhile_le _ _)

def takeArray (inside : Option (Reader Token)) (opening : UInt8) (tail : Bytes) :
    Except Stuck (Taken Token (opening :: tail)) :=
  match inside with
  | none => .error ⟨opening :: tail, .nesting⟩
  | some read =>
    match takeItems read [] tail with
    | .error stuck => .error stuck
    | .ok taken =>
      .ok ((taken.map fun items => .operand (.array items)).within (Nat.le_succ _))

def takeDictionary (inside : Option (Reader Token)) (first second : UInt8) (tail : Bytes) :
    Except Stuck (Taken Token (first :: second :: tail)) :=
  match inside with
  | none => .error ⟨first :: second :: tail, .nesting⟩
  | some read =>
    match takeEntries read dictionaryEnd [] tail with
    | .error stuck => .error stuck
    | .ok taken =>
      .ok ((taken.map fun entries => .operand (.dictionary entries)).within
        (Nat.le_succ_of_le (Nat.le_succ _)))

def takeAngle (inside : Option (Reader Token)) (first : UInt8) :
    (tail : Bytes) → Except Stuck (Taken Token (first :: tail))
  | [] => (Hex.take first []).map (Taken.map fun bytes => .operand (.hexString bytes))
  | second :: tail =>
    if second = 0x3C then takeDictionary inside first second tail
    else
      (Hex.take first (second :: tail)).map
        (Taken.map fun bytes => .operand (.hexString bytes))

def takeFirst (inside : Option (Reader Token)) (first : UInt8) (tail : Bytes) :
    Except Stuck (Taken Token (first :: tail)) :=
  if first = 0x28 then
    (Literal.take first tail).map (Taken.map fun bytes => .operand (.literalString bytes))
  else if first = 0x3C then takeAngle inside first tail
  else if first = 0x5B then takeArray inside first tail
  else if first = 0x2F then
    (Name.take first tail).map (Taken.map fun name => .operand (.name name))
  else if h : Numeral.isStart first then
    (Numeral.take first tail h).map (Taken.map Token.operand)
  else if Byte.isDelimiter first then .error ⟨first :: tail, .unexpected first⟩
  else .ok (takeWord first tail)

def readWith (inside : Option (Reader Token)) : Reader Token := fun input =>
  match h : Separator.skip input with
  | [] => .ok none
  | first :: tail =>
    match takeFirst inside first tail with
    | .error stuck => .error stuck
    | .ok taken => .ok (some (taken.within (h ▸ Separator.length_skip_le input)))

def read : (levels : Nat) → Reader Token
  | 0 => readWith none
  | levels + 1 => readWith (some (read levels))

end Token

end ContentStream
