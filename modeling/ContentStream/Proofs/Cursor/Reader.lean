import ContentStream.Operation
import ContentStream.Proofs.Checked

/-!
# Reading at a cursor

The reader of streams once more, over a source that stays as it is and a position in it.  Each
access to the source, each slice of it and each counter is checked.  Loops have a number of
rounds; a loop that takes a byte off the source in each round is given one more than the source
has bytes.
-/

namespace ContentStream.Cursor

open Checked

section Source

variable (source : Bytes)

def fail {α : Type} (offset : Nat) (fault : StreamFault) : Checked α :=
  .fails (.malformedStream offset fault)

def skipFrom : (rounds : Nat) → (inComment : Bool) → (position : Nat) → Checked Nat
  | 0, _, _ => .panics
  | rounds + 1, inComment, position =>
    match source[position]? with
    | none => .gives position
    | some byte =>
      if inComment then do
        let next ← address (position + 1)
        skipFrom rounds (!Byte.isLineEnd byte) next
      else if Byte.isWhiteSpace byte then do
        let next ← address (position + 1)
        skipFrom rounds false next
      else if byte = 0x25 then do
        let next ← address (position + 1)
        skipFrom rounds true next
      else .gives position

def skip (position : Nat) : Checked Nat :=
  skipFrom source (source.length + 1) false position

def runEnd (p : UInt8 → Bool) : (rounds : Nat) → (position : Nat) → Checked Nat
  | 0, _ => .panics
  | rounds + 1, position =>
    match source[position]? with
    | none => .gives position
    | some byte =>
      if p byte then do
        let next ← address (position + 1)
        runEnd p rounds next
      else .gives position

def keyword (start : Nat) : Checked (Bytes × Nat) := do
  let stop ← runEnd source Byte.isRegular (source.length + 1) start
  let word ← slice source start stop
  return (word, stop)

def escapedAt (raw : Bytes) (index : Nat) : Checked (Option UInt8) := do
  let sign ← item raw index
  let last ← address (index + 2)
  if sign = 0x23 ∧ last < raw.length then do
    let high ← item raw (index + 1)
    let low ← item raw last
    return Name.escaped? sign high low
  else return none

def unescapeFrom (raw : Bytes) : (rounds : Nat) → (index : Nat) → Checked Bytes
  | 0, _ => .panics
  | rounds + 1, index =>
    if index < raw.length then do
      match ← escapedAt raw index with
      | some byte => do
        let next ← address (index + 3)
        let others ← unescapeFrom raw rounds next
        return byte :: others
      | none => do
        let byte ← item raw index
        let next ← address (index + 1)
        let others ← unescapeFrom raw rounds next
        return byte :: others
    else return []

def name (slash : Nat) : Checked (String × Nat) := do
  let start ← address (slash + 1)
  let stop ← runEnd source Byte.isRegular (source.length + 1) start
  let raw ← slice source start stop
  let bytes ← unescapeFrom raw (raw.length + 1) 0
  match Utf8.decode? bytes with
  | some name => return (name, stop)
  | none => fail slash .nameEncoding

def digitsEnd : (rounds : Nat) → (hasPoint : Bool) → (position : Nat) → Checked Nat
  | 0, _, _ => .panics
  | rounds + 1, hasPoint, position =>
    match source[position]? with
    | none => .gives position
    | some byte =>
      if byte = 0x2E ∧ hasPoint = false then do
        let next ← address (position + 1)
        digitsEnd rounds true next
      else if Byte.isDigit byte then do
        let next ← address (position + 1)
        digitsEnd rounds hasPoint next
      else .gives position

def afterSign (start : Nat) : Checked Nat :=
  match source[start]? with
  | none => .gives start
  | some byte => if Numeral.isSign byte then address (start + 1) else .gives start

def number (start : Nat) : Checked (Operand × Nat) := do
  let unsigned ← afterSign source start
  let stop ← digitsEnd source (source.length + 1) false unsigned
  let text ← slice source start stop
  match (Numeral.split text).1.operand? with
  | some value => return (value, stop)
  | none => fail start (.number (Bytes.toLatin1 text))

def octalMore : (rounds : Nat) → (value position : Nat) → Checked (Nat × Nat)
  | 0, value, position => .gives (value, position)
  | rounds + 1, value, position =>
    match source[position]? with
    | none => .gives (value, position)
    | some byte =>
      if Byte.isOctalDigit byte then do
        let digit ← less byte.toNat 0x30
        let shifted ← counter (value * 8)
        let sum ← counter (shifted + digit)
        let next ← address (position + 1)
        octalMore rounds sum next
      else .gives (value, position)

def escape (position : Nat) : Checked (Bytes × Nat) :=
  match source[position]? with
  | none => fail position .unterminatedEscape
  | some byte => do
    let next ← address (position + 1)
    if byte = 0x6E then return ([0x0A], next)
    else if byte = 0x72 then return ([0x0D], next)
    else if byte = 0x74 then return ([0x09], next)
    else if byte = 0x62 then return ([0x08], next)
    else if byte = 0x66 then return ([0x0C], next)
    else if byte = 0x0D then
      if source[next]? = some 0x0A then do
        let behind ← address (next + 1)
        return ([], behind)
      else return ([], next)
    else if byte = 0x0A then return ([], next)
    else if Byte.isOctalDigit byte then do
      let digit ← less byte.toNat 0x30
      let (value, stop) ← octalMore source 2 digit next
      return ([UInt8.ofNat (value % 256)], stop)
    else return ([byte], next)

def literalFrom (opening : Nat) :
    (rounds depth position : Nat) → Checked (Bytes × Nat)
  | 0, _, _ => .panics
  | rounds + 1, depth, position =>
    match source[position]? with
    | none => fail opening .unterminatedLiteral
    | some byte => do
      let next ← address (position + 1)
      if byte = 0x28 then do
        let deeper ← counter (depth + 1)
        let (bytes, stop) ← literalFrom opening rounds deeper next
        return (byte :: bytes, stop)
      else if byte = 0x29 then do
        let outer ← less depth 1
        if outer = 0 then return ([], next)
        else do
          let (bytes, stop) ← literalFrom opening rounds outer next
          return (byte :: bytes, stop)
      else if byte = 0x5C then do
        let (escaped, behind) ← escape source next
        let (bytes, stop) ← literalFrom opening rounds depth behind
        return (escaped ++ bytes, stop)
      else do
        let (bytes, stop) ← literalFrom opening rounds depth next
        return (byte :: bytes, stop)

def literalString (opening : Nat) : Checked (Bytes × Nat) := do
  let start ← address (opening + 1)
  literalFrom source opening (source.length + 1) 1 start

def hexDigits (opening : Nat) : (rounds position : Nat) → Checked (Bytes × Nat)
  | 0, _ => .panics
  | rounds + 1, position =>
    match source[position]? with
    | none => fail opening .unterminatedHex
    | some byte => do
      let next ← address (position + 1)
      if byte = 0x3E then return ([], next)
      else if Byte.isWhiteSpace byte then hexDigits opening rounds next
      else
        match Byte.hexValue? byte with
        | none => fail next (.hexDigit byte)
        | some digit => do
          let (digits, stop) ← hexDigits opening rounds next
          return (digit :: digits, stop)

def joinPairs : Bytes → Checked Bytes
  | [] => return []
  | [_] => .panics
  | high :: low :: digits => do
    let others ← joinPairs digits
    return (high * 16 + low) :: others

def hexString (opening : Nat) : Checked (Bytes × Nat) := do
  let start ← address (opening + 1)
  let (digits, stop) ← hexDigits source opening (source.length + 1) start
  let bytes ← joinPairs (if digits.length % 2 = 0 then digits else digits ++ [0])
  return (bytes, stop)

/-! ## Containers -/

/-- A reader of tokens: the token and the position behind it, or the end of the source. -/
abbrev TokenReader := (position : Nat) → Checked (Option Token × Nat)

def object (token : TokenReader) (container : Container) (start : Nat) :
    Checked (Operand × Nat) := do
  match ← token start with
  | (some (.operand value), stop) => return (value, stop)
  | (some (.keyword word), _) =>
    fail start (.keywordInside (Utf8.decodeLossy word) container)
  | (none, stop) => fail stop (.unterminated container)

def items (token : TokenReader) :
    (rounds : Nat) → List Operand → (position : Nat) → Checked (List Operand × Nat)
  | 0, _, _ => .panics
  | rounds + 1, found, position => do
    let start ← skip source position
    match source[start]? with
    | none => fail start (.unterminated .array)
    | some byte =>
      if byte = 0x5D then do
        let stop ← address (start + 1)
        return (found.reverse, stop)
      else do
        let (item, next) ← object token .array start
        items token rounds (item :: found) next

structure EntryEnd where
  container : Container
  close? : (position : Nat) → Checked (Option Nat)
  unclosed : (position : Nat) → Error

def entries (token : TokenReader) (ending : EntryEnd) :
    (rounds : Nat) → Dictionary → (position : Nat) → Checked (Dictionary × Nat)
  | 0, _, _ => .panics
  | rounds + 1, found, position => do
    let start ← skip source position
    match source[start]? with
    | none => .fails (ending.unclosed start)
    | some byte =>
      match ← ending.close? start with
      | some stop => return (found, stop)
      | none =>
        if byte = 0x2F then do
          let (key, behind) ← name source start
          let (value, next) ← object token ending.container behind
          entries token ending rounds (Dictionary.insert key value found) next
        else fail start (.keyExpected ending.container)

def closeDictionary (position : Nat) : Checked (Option Nat) :=
  if source[position]? = some 0x3E then do
    let second ← address (position + 1)
    if source[second]? = some 0x3E then do
      let stop ← address (position + 2)
      return some stop
    else return none
  else return none

def dictionaryEnd : EntryEnd where
  container := .dictionary
  close? := closeDictionary source
  unclosed position := .malformedStream position (.unterminated .dictionary)

def nested {α : Type} (depth start : Nat) (inside : (depth : Nat) → Checked α) : Checked α :=
  if nestingLimit ≤ depth then fail start .nesting
  else do
    let deeper ← address (depth + 1)
    let _ ← less deeper 1
    inside deeper

def asToken {α : Type} (operand : α → Operand) (found : Checked (α × Nat)) :
    Checked (Option Token × Nat) := do
  let (value, stop) ← found
  return (some (.operand (operand value)), stop)

def tokenWith (inside : (depth : Nat) → TokenReader) (depth : Nat) : TokenReader :=
  fun position => do
    let start ← skip source position
    match source[start]? with
    | none => return (none, start)
    | some first =>
      if first = 0x28 then asToken .literalString (literalString source start)
      else if first = 0x3C then do
        let second ← address (start + 1)
        if source[second]? = some 0x3C then
          asToken .dictionary <| nested depth start fun deeper => do
            let next ← address (start + 2)
            entries source (inside deeper) (dictionaryEnd source) (source.length + 1) [] next
        else asToken .hexString (hexString source start)
      else if first = 0x5B then
        asToken .array <| nested depth start fun deeper => do
          let next ← address (start + 1)
          items source (inside deeper) (source.length + 1) [] next
      else if first = 0x2F then asToken .name (name source start)
      else if Numeral.isStart first then asToken id (number source start)
      else if Byte.isDelimiter first then fail start (.unexpected first)
      else do
        let (word, stop) ← keyword source start
        return (some (Token.ofWord word), stop)

def tokenAt : (levels depth : Nat) → TokenReader
  | 0, _ => fun _ => .panics
  | levels + 1, depth => tokenWith source (tokenAt levels) depth

def token : TokenReader :=
  tokenAt source (nestingLimit + 1) 0

def closeImage (position : Nat) : Checked (Option Nat) :=
  if source[position]? = some 0x49 then do
    let second ← address (position + 1)
    if source[second]? = some 0x44 then do
      let third ← address (position + 2)
      match source[third]? with
      | none => return some third
      | some byte =>
        if Byte.isWhiteSpace byte then do
          let stop ← address (third + 1)
          return some stop
        else return none
    else return none
  else return none

def imageEnd (start : Nat) : EntryEnd where
  container := .imageDictionary
  close? := closeImage source
  unclosed _ := .malformedStream start .imageDataMissing

def atBoundary (dataStart index : Nat) : Checked Bool :=
  if dataStart < index then do
    let previous ← less index 1
    let byte ← item source previous
    return Byte.isWhiteSpace byte
  else return false

def imageData (start dataStart : Nat) : (rounds index : Nat) → Checked (Bytes × Nat)
  | 0, _ => .panics
  | rounds + 1, index => do
    let next ← address (index + 1)
    if next < source.length then do
      let boundary ← atBoundary source dataStart index
      let behind ← address (index + 2)
      let first ← item source index
      let second ← item source next
      if boundary && first = 0x45 && second = 0x49 &&
          source[behind]?.all fun byte => !Byte.isRegular byte then do
        let data ← slice source dataStart index
        return (data, behind)
      else imageData start dataStart rounds next
    else fail start .imageEndMissing

def image (start : Nat) : Checked ((Dictionary × Bytes) × Nat) := do
  let (found, dataStart) ←
    entries source (token source) (imageEnd source start) (source.length + 1) [] start
  let (data, stop) ← imageData source start dataStart (source.length + 1) dataStart
  return ((found, data), stop)

def operationsFrom : (rounds : Nat) → (pending : List Operand) → (found : List Operation) →
    (position : Nat) → Checked (List Operation)
  | 0, _, _, _ => .panics
  | rounds + 1, pending, found, position => do
    match ← token source position with
    | (none, _) => return found.reverse
    | (some (.operand value), next) => operationsFrom rounds (value :: pending) found next
    | (some (.keyword word), next) =>
      if word = InlineImage.keyword then do
        let ((dictionary, data), stop) ← image source next
        let operation := ⟨Utf8.decodeLossy word, [.dictionary dictionary, .literalString data]⟩
        operationsFrom rounds [] (operation :: found) stop
      else
        operationsFrom rounds [] (⟨Utf8.decodeLossy word, pending.reverse⟩ :: found) next

def operations : Checked (List Operation) :=
  operationsFrom source (source.length + 1) [] [] 0

end Source

end ContentStream.Cursor
