import ContentStream.Token

/-!
# Operations

A content stream is a sequence of operations: operands, and after them the keyword
of an operator.  Operands that no keyword follows belong to no operation.  An
inline image is written with three keywords but is one operation, whose operands
are the dictionary and the data of the image.
-/

namespace ContentStream

structure Operation where
  name : String
  operands : List Operand
  deriving DecidableEq

namespace Operation

def sameValue (x y : Operation) : Bool :=
  x.name = y.name && Operand.equalItemsWith (· == ·) x.operands y.operands

end Operation

namespace InlineImage

def keyword : Bytes := Bytes.ofChars ['B', 'I']

/--
The keyword between dictionary and data, and one byte of white space after it.
The data begins behind that byte.
-/
def closeEntries : (input : Bytes) → Option (Taken Unit input)
  | first :: second :: rest =>
    if first = 0x49 ∧ second = 0x44 ∧ rest.head?.all Byte.isWhiteSpace then
      some (.afterFirst () rest.tail (Nat.le_succ_of_le rest.tail_sublist.length_le))
    else
      none
  | _ => none

def entriesEnd (start : Bytes) : Token.EntryEnd where
  container := .imageDictionary
  close? := closeEntries
  unclosed := ⟨start, .imageDataMissing⟩

def beginsEnd : Bytes → Bool
  | first :: second :: rest =>
    first = 0x45 && second = 0x49 && rest.head?.all fun byte => !Byte.isRegular byte
  | _ => false

/--
The data up to the first end keyword that white space precedes, and what follows
the keyword.  The data read so far is kept in reverse order.
-/
def takeData (data : Bytes) : Bytes → Option (Bytes × Bytes)
  | [] => none
  | byte :: rest =>
    if data.head?.any Byte.isWhiteSpace && beginsEnd (byte :: rest) then
      some (data.reverse, rest.drop 1)
    else
      takeData (byte :: data) rest

theorem length_takeData_le {data input found rest : Bytes}
    (h : takeData data input = some (found, rest)) : rest.length ≤ input.length := by
  induction input generalizing data with
  | nil => simp [takeData] at h
  | cons byte tail ih =>
    simp only [takeData] at h
    refine Nat.le_succ_of_le ?_
    split at h
    · simp only [Option.some.injEq, Prod.mk.injEq] at h
      simp [← h.2]
    · exact ih h

def take (input : Bytes) : Except Stuck (Taken (Dictionary × Bytes) input) :=
  match Token.takeEntries (Token.read nestingLimit) (entriesEnd input) [] input with
  | .error stuck => .error stuck
  | .ok entries =>
    match h : takeData [] entries.rest with
    | some (data, rest) =>
      .ok ⟨(entries.value, data), rest,
        Nat.lt_of_le_of_lt (length_takeData_le h) entries.shorter⟩
    | none => .error ⟨input, .imageEndMissing⟩

end InlineImage

namespace Operation

/--
The operations of the input, after those in `operations`, in reverse order.  The
operands in `pending` belong to the next of them, in reverse order too.
-/
def takeAll (pending : List Operand) (operations : List Operation) (input : Bytes) :
    Except Stuck (List Operation) :=
  match Token.read nestingLimit input with
  | .error stuck => .error stuck
  | .ok none => .ok operations.reverse
  | .ok (some ⟨.operand value, rest, _⟩) => takeAll (value :: pending) operations rest
  | .ok (some ⟨.keyword word, rest, shorter⟩) =>
    if word = InlineImage.keyword then
      match InlineImage.take rest with
      | .error stuck => .error stuck
      | .ok image =>
        have _ : image.rest.length < input.length := Nat.lt_trans image.shorter shorter
        let (entries, data) := image.value
        let operation :=
          ⟨Utf8.decodeLossy word, [.dictionary entries, .literalString data]⟩
        takeAll [] (operation :: operations) image.rest
    else
      takeAll [] (⟨Utf8.decodeLossy word, pending.reverse⟩ :: operations) rest
termination_by input.length

def ofBytes (input : Bytes) : Except Error (List Operation) :=
  match takeAll [] [] input with
  | .ok operations => .ok operations
  | .error stuck => .error (.malformedStream (stuck.offset input) stuck.fault)

end Operation

end ContentStream
