/-!
# Decimal numerals

A decimal is a natural number scaled by a power of ten.  Its digits are the
characters of `Nat.toDigits 10`, so the core lemmas that relate digits and values
apply to them.
-/

namespace ContentStream

/-- The value `digits * 10 ^ exponent`. -/
structure Decimal where
  digits : Nat
  exponent : Int
  deriving DecidableEq, Repr

namespace Decimal

def numerator (d : Decimal) : Nat :=
  d.digits * Nat.pow 10 d.exponent.toNat

def denominator (d : Decimal) : Nat :=
  Nat.pow 10 (-d.exponent).toNat

def length (d : Decimal) : Nat :=
  (Nat.toDigits 10 d.digits).length

def stripWithin : Nat → Decimal → Decimal
  | 0, d => d
  | steps + 1, d =>
    if d.digits = 0 then ⟨0, 0⟩
    else if d.digits % 10 = 0 then stripWithin steps ⟨d.digits / 10, d.exponent + 1⟩
    else d

def strip (d : Decimal) : Decimal :=
  stripWithin d.length d

def leadingExponent (d : Decimal) : Int :=
  d.exponent + d.length - 1

def wholeChars (d : Decimal) : List Char :=
  let chars := Nat.toDigits 10 d.digits
  if 0 ≤ d.exponent then
    chars ++ List.replicate d.exponent.toNat '0'
  else
    let places := (-d.exponent).toNat
    if places < chars.length then chars.take (chars.length - places) else ['0']

def fractionChars (d : Decimal) : List Char :=
  let chars := Nat.toDigits 10 d.digits
  let places := (-d.exponent).toNat
  if places ≤ chars.length then chars.drop (chars.length - places)
  else List.replicate (places - chars.length) '0' ++ chars

def ofChars (whole fraction : List Char) : Decimal :=
  ⟨Nat.ofDigitChars 10 (whole ++ fraction) 0, -(fraction.length : Int)⟩

def intChars (value : Int) : List Char :=
  if value < 0 then '-' :: Nat.toDigits 10 value.natAbs else Nat.toDigits 10 value.natAbs

end Decimal

end ContentStream
