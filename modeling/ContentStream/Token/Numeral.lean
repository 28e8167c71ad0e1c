import ContentStream.Token.Taken

/-!
# Numerals

A numeral is an optional sign, digits, and optionally a point with further digits.
Without a point it is an integer and has to fit 64 bits.  With a point it is a
real, and has at least one digit on either side of the point.  There is no
exponent, so reals are written positionally, always with a point.
-/

namespace ContentStream.Numeral

def writtenInteger (value : Int64) : Bytes :=
  Bytes.ofChars (Decimal.intChars value.toInt)

def writtenReal (value : Float) : Bytes :=
  Bytes.ofChars (Number.token.chars value)

def isSign (byte : UInt8) : Bool :=
  byte = 0x2B || byte = 0x2D

def isStart (byte : UInt8) : Bool :=
  Byte.isDigit byte || isSign byte || byte = 0x2E

structure Parts where
  sign : Bytes
  whole : Bytes
  point : Bytes
  fraction : Bytes
  deriving DecidableEq, Repr

namespace Parts

def text (p : Parts) : Bytes :=
  p.sign ++ p.whole ++ p.point ++ p.fraction

def isNegative (p : Parts) : Bool :=
  p.sign = [0x2D]

def integer? (p : Parts) : Option Int64 :=
  let magnitude := Nat.ofDigitChars 10 (Bytes.toChars p.whole) 0
  let value := if p.isNegative then -(magnitude : Int) else magnitude
  if !p.whole.isEmpty && Int64.minValue.toInt ≤ value && value ≤ Int64.maxValue.toInt then
    some (Int64.ofInt value)
  else none

def real? (p : Parts) : Option Float :=
  if p.whole.isEmpty && p.fraction.isEmpty then none
  else
    let d := Decimal.ofChars (Bytes.toChars p.whole) (Bytes.toChars p.fraction)
    some (Binary.ofDecimal p.isNegative d)

def operand? (p : Parts) : Option Operand :=
  if p.point.isEmpty then p.integer?.map Operand.integer else p.real?.map Operand.real

end Parts

def takeOptional (p : UInt8 → Bool) : Bytes → Bytes × Bytes
  | [] => ([], [])
  | byte :: rest => if p byte then ([byte], rest) else ([], byte :: rest)

theorem takeOptional_append (p : UInt8 → Bool) (input : Bytes) :
    (takeOptional p input).1 ++ (takeOptional p input).2 = input := by
  cases input with
  | nil => rfl
  | cons byte rest =>
    rw [takeOptional]
    split <;> rfl

/-- The longest numeral at the front of the input, and what follows it. -/
def split (input : Bytes) : Parts × Bytes :=
  let (sign, afterSign) := takeOptional isSign input
  let whole := afterSign.takeWhile Byte.isDigit
  let (point, afterPoint) := takeOptional (· = 0x2E) (afterSign.dropWhile Byte.isDigit)
  if point.isEmpty then (⟨sign, whole, [], []⟩, afterPoint)
  else (⟨sign, whole, point, afterPoint.takeWhile Byte.isDigit⟩,
    afterPoint.dropWhile Byte.isDigit)

theorem text_append_split (input : Bytes) :
    (split input).1.text ++ (split input).2 = input := by
  have hs := takeOptional_append isSign input
  have hp := takeOptional_append (· = 0x2E)
    ((takeOptional isSign input).2.dropWhile Byte.isDigit)
  rw [split]
  dsimp only
  split
  next h =>
    rw [List.isEmpty_iff.1 h, List.nil_append] at hp
    rw [Parts.text, hp, List.append_nil, List.append_nil, List.append_assoc,
      List.takeWhile_append_dropWhile, hs]
  next =>
    rw [Parts.text, List.append_assoc, List.takeWhile_append_dropWhile, List.append_assoc, hp,
      List.append_assoc, List.takeWhile_append_dropWhile, hs]

theorem text_split_ne_nil {byte : UInt8} {tail : Bytes} (h : isStart byte = true) :
    (split (byte :: tail)).1.text ≠ [] := by
  rw [split]
  dsimp only
  cases hs : isSign byte with
  | true =>
    rw [takeOptional, if_pos hs]
    split <;> simp [Parts.text]
  | false =>
    have same : takeOptional isSign (byte :: tail) = ([], byte :: tail) := by
      simp [takeOptional, hs]
    rw [same]
    cases hd : Byte.isDigit byte with
    | true => split <;> simp [Parts.text, hd]
    | false =>
      have point : byte = 0x2E := by simpa [isStart, hs, hd] using h
      have stop : (byte :: tail).dropWhile Byte.isDigit = byte :: tail := by
        simp [List.dropWhile, hd]
      have found : takeOptional (· = 0x2E) (byte :: tail) = ([byte], tail) := by
        simp [takeOptional, point]
      rw [stop, found]
      simp [Parts.text]

theorem length_split_lt {byte : UInt8} {tail : Bytes} (h : isStart byte = true) :
    (split (byte :: tail)).2.length < (byte :: tail).length := by
  have whole := congrArg List.length (text_append_split (byte :: tail))
  have positive := List.length_pos_iff.2 (@text_split_ne_nil byte tail h)
  rw [List.length_append] at whole
  omega

def take (first : UInt8) (tail : Bytes) (h : isStart first = true) :
    Except Stuck (Taken Operand (first :: tail)) :=
  let parts := (split (first :: tail)).1
  match parts.operand? with
  | some value => .ok ⟨value, (split (first :: tail)).2, length_split_lt h⟩
  | none => .error ⟨first :: tail, .number (Bytes.toLatin1 parts.text)⟩

end ContentStream.Numeral
