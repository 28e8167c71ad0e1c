import ContentStream.Document.Decompressed
import ContentStream.Document.PrefixCode

/-!
# Deflated data

Deflated data is a header of two bytes, a sequence of blocks, and a checksum of what
the blocks decode to.  A block keeps its bytes as they are, or it is written in the
symbols of two prefix codes: literal bytes, and copies of bytes that have been decoded
before.  Bits are taken from the low end of each byte first.
-/

namespace ContentStream.Deflate

/-- The bits that have not been read, and the decoded bytes, the last one first. -/
structure State where
  bits : List Bool
  decoded : Bytes

/-- A decoder that fails leaves what it has decoded. -/
abbrev Decoder := EStateM CompressionFault State

def bitsOf (bytes : Bytes) : List Bool :=
  bytes.flatMap fun byte => (List.range 8).map byte.toNat.testBit

def takeBit : Decoder Bool := do
  match (← get).bits with
  | [] => throw .ended
  | bit :: bits =>
    modify fun state => { state with bits := bits }
    return bit

def takeNumber : (count : Nat) → Decoder Nat
  | 0 => return 0
  | count + 1 => do
    let low ← takeBit
    let high ← takeNumber count
    return 2 * high + low.toNat

def takeNumbers (width : Nat) : (count : Nat) → Decoder (List Nat)
  | 0 => return []
  | count + 1 => do
    let first ← takeNumber width
    let others ← takeNumbers width count
    return first :: others

def align : Decoder Unit :=
  modify fun state => { state with bits := state.bits.drop (state.bits.length % 8) }

/--
The symbol whose string comes next.  The bits read so far are the string that lies
`offset` behind the last string of that length.
-/
def takeSymbolFrom (offset : Nat) : PrefixCode → Decoder Nat
  | [] => throw .malformed
  | level :: levels => do
    let place := 2 * offset + (← takeBit).toNat
    match level[place]? with
    | some symbol => return symbol
    | none => takeSymbolFrom (place - level.length) levels

def takeSymbol (code : PrefixCode) : Decoder Nat :=
  takeSymbolFrom 0 code

structure Codes where
  literals : PrefixCode
  distances : PrefixCode

def fixedCodes : Codes where
  literals := .ofLengths (List.replicate 144 8 ++ List.replicate 112 9 ++
    List.replicate 24 7 ++ List.replicate 8 8)
  distances := .ofLengths (List.replicate 32 5)

def usableCode (lengths : List Nat) : Decoder PrefixCode :=
  let code := PrefixCode.ofLengths lengths
  if code.isUsable then return code else throw .malformed

def lengthOrder : List Nat :=
  [16, 17, 18, 0, 8, 7, 9, 6, 10, 5, 11, 4, 12, 3, 13, 2, 14, 1, 15]

/-- The next lengths: a single one, zeros, or repetitions of the last, which comes first. -/
def takeRun (code : PrefixCode) (lengths : List Nat) : Decoder (List Nat) := do
  match ← takeSymbol code with
  | 16 =>
    match lengths with
    | [] => throw .malformed
    | last :: _ => return List.replicate (3 + (← takeNumber 2)) last
  | 17 => return List.replicate (3 + (← takeNumber 3)) 0
  | 18 => return List.replicate (11 + (← takeNumber 7)) 0
  | length => return [length]

def takeLengths (code : PrefixCode) (count : Nat) : (steps : Nat) → List Nat →
    Decoder (List Nat)
  | 0, lengths => return lengths
  | steps + 1, lengths => do
    if lengths.length < count then
      let run ← takeRun code lengths
      takeLengths code count steps (run ++ lengths)
    else
      return lengths

def takeCodes : Decoder Codes := do
  let literals := 257 + (← takeNumber 5)
  let distances := 1 + (← takeNumber 5)
  let told := 4 + (← takeNumber 4)
  if 286 < literals || 30 < distances then throw .malformed
  let widths := lengthOrder.zip (← takeNumbers 3 told)
  let code ← usableCode ((List.range 19).map fun symbol => (widths.lookup symbol).getD 0)
  let count := literals + distances
  let lengths := (← takeLengths code count count []).reverse
  unless lengths.length = count do throw .malformed
  return ⟨← usableCode (lengths.take literals), ← usableCode (lengths.drop literals)⟩

abbrev Ranges := List (Nat × Nat)

def copyLengths : Ranges :=
  [(3, 0), (4, 0), (5, 0), (6, 0), (7, 0), (8, 0), (9, 0), (10, 0), (11, 1), (13, 1),
   (15, 1), (17, 1), (19, 2), (23, 2), (27, 2), (31, 2), (35, 3), (43, 3), (51, 3),
   (59, 3), (67, 4), (83, 4), (99, 4), (115, 4), (131, 5), (163, 5), (195, 5), (227, 5),
   (258, 0)]

def copyDistances : Ranges :=
  [(1, 0), (2, 0), (3, 0), (4, 0), (5, 1), (7, 1), (9, 2), (13, 2), (17, 3), (25, 3),
   (33, 4), (49, 4), (65, 5), (97, 5), (129, 6), (193, 6), (257, 7), (385, 7), (513, 8),
   (769, 8), (1025, 9), (1537, 9), (2049, 10), (3073, 10), (4097, 11), (6145, 11),
   (8193, 12), (12289, 12), (16385, 13), (24577, 13)]

def takeInRange (ranges : Ranges) (symbol : Nat) : Decoder Nat :=
  match ranges[symbol]? with
  | none => throw .malformed
  | some (least, bits) => return least + (← takeNumber bits)

inductive Item where
  | literal (byte : UInt8)
  | copy (length distance : Nat)
  | stop

def takeItem (codes : Codes) : Decoder Item := do
  let symbol ← takeSymbol codes.literals
  if symbol < 256 then return .literal (UInt8.ofNat symbol)
  else if symbol = 256 then return .stop
  else
    let length ← takeInRange copyLengths (symbol - 257)
    let distance ← takeInRange copyDistances (← takeSymbol codes.distances)
    return .copy length distance

/-- The decoded bytes with a copy behind them; zeros stand before the first byte. -/
def copyBack (distance : Nat) : (length : Nat) → Bytes → Bytes
  | 0, decoded => decoded
  | length + 1, decoded =>
    copyBack distance length (decoded.getD (distance - 1) 0 :: decoded)

def emit (byte : UInt8) : Decoder Unit :=
  modify fun state => { state with decoded := byte :: state.decoded }

def decodeItems (codes : Codes) : (bits : Nat) → Decoder Unit
  | 0 => throw .ended
  | bits + 1 => do
    match ← takeItem codes with
    | .stop => return
    | .literal byte =>
      emit byte
      decodeItems codes bits
    | .copy length distance =>
      modify fun state => { state with decoded := copyBack distance length state.decoded }
      decodeItems codes bits

def decodeStored : (count : Nat) → Decoder Unit
  | 0 => return
  | count + 1 => do
    emit (UInt8.ofNat (← takeNumber 8))
    decodeStored count

def takeStoredLength : Decoder Nat := do
  align
  let length ← takeNumber 16
  let inverted ← takeNumber 16
  if length + inverted = 65535 then return length else throw .malformed

def decodeBlock : Decoder Unit := do
  match ← takeNumber 2 with
  | 0 => decodeStored (← takeStoredLength)
  | 1 => decodeItems fixedCodes (← get).bits.length
  | 2 => decodeItems (← takeCodes) (← get).bits.length
  | _ => throw .malformed

def decodeBlocks : (bits : Nat) → Decoder Unit
  | 0 => throw .ended
  | bits + 1 => do
    let isLast ← takeBit
    decodeBlock
    unless isLast do decodeBlocks bits

/-- The method in the low half of the first byte, no dictionary, and a multiple of 31. -/
def isHeader (method flags : UInt8) : Bool :=
  method % 16 = 8 && method / 16 ≤ 7 && flags / 32 % 2 = 0 &&
    (256 * method.toNat + flags.toNat) % 31 = 0

def checksum (bytes : Bytes) : Nat :=
  let sums := bytes.foldl
    (fun sums byte =>
      let sum := (sums.1 + byte.toNat) % 65521
      (sum, (sums.2 + sum) % 65521))
    (1, 0)
  65536 * sums.2 + sums.1

def decodeChecked : Decoder Unit := do
  decodeBlocks (← get).bits.length
  align
  let told := (← takeNumbers 8 4).foldl (fun number byte => 256 * number + byte) 0
  unless told = checksum (← get).decoded.reverse do throw .malformed

def decode : Bytes → Decompressed
  | method :: flags :: blocks =>
    if isHeader method flags then
      match decodeChecked.run ⟨bitsOf blocks, []⟩ with
      | .ok _ state => ⟨state.decoded.reverse, none⟩
      | .error fault state => fault.decompressed state.decoded.reverse
    else
      ⟨[], some .malformed⟩
  | _ => ⟨[], some .ended⟩

end ContentStream.Deflate
