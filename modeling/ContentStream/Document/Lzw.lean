import ContentStream.Document.Decompressed

/-!
# Data in codes of growing width

Each code stands for a string of bytes.  The table begins with the single bytes and
two marks; every code but the first adds the string of the code before it, with the
first byte of its own string behind.  Codes get wider as the table grows, from nine
bits to twelve, until a mark clears the table.  The other mark ends the data; a code
that the table does not have makes it malformed.
-/

namespace ContentStream.Lzw

def clearMark : Nat := 256

def endMark : Nat := 257

def firstAdded : Nat := 258

def leastWidth : Nat := 9

def greatestWidth : Nat := 12

structure State where
  width : Nat := leastWidth
  added : Array Bytes := #[]
  previous : Option Bytes := none

namespace State

def nextCode (state : State) : Nat :=
  firstAdded + state.added.size

def string? (state : State) (code : Nat) : Option Bytes :=
  if code < clearMark then some [UInt8.ofNat code]
  else if code = state.nextCode then
    state.previous.map fun string => string ++ string.take 1
  else state.added[code - firstAdded]?

def add (early : Bool) (state : State) (string : Bytes) : State :=
  if state.nextCode < Nat.pow 2 greatestWidth then
    let next := { state with added := state.added.push string }
    let last := if early then next.nextCode + 1 else next.nextCode
    if Nat.pow 2 state.width ≤ last && state.width < greatestWidth then
      { next with width := state.width + 1 }
    else
      next
  else
    state

def after (early : Bool) (state : State) (string : Bytes) : State :=
  let next :=
    match state.previous with
    | none => state
    | some before => state.add early (before ++ string.take 1)
  { next with previous := some string }

end State

def bitsOf (bytes : Bytes) : List Bool :=
  bytes.flatMap fun byte => (List.range 8).reverse.map byte.toNat.testBit

def takeCode? (width : Nat) (bits : List Bool) : Option (Nat × List Bool) :=
  let taken := bits.take width
  if taken.length < width then none
  else some (taken.foldl (fun code bit => 2 * code + bit.toNat) 0, bits.drop width)

def decodeFrom (early : Bool) :
    (codes : Nat) → State → (done : List Bytes) → List Bool → Decompressed
  | 0, _, done, _ => ⟨done.reverse.flatten, some .ended⟩
  | codes + 1, state, done, bits =>
    match takeCode? state.width bits with
    | none => ⟨done.reverse.flatten, some .ended⟩
    | some (code, bits) =>
      if code = clearMark then decodeFrom early codes {} done bits
      else if code = endMark then ⟨done.reverse.flatten, none⟩
      else
        match state.string? code with
        | none => ⟨[], some .malformed⟩
        | some string => decodeFrom early codes (state.after early string) (string :: done) bits

/--
The bytes that the codes stand for.  Where codes widen early, they do so one code
before the table needs it.
-/
def decode (early : Bool) (data : Bytes) : Decompressed :=
  let bits := bitsOf data
  decodeFrom early bits.length {} [] bits

end ContentStream.Lzw
