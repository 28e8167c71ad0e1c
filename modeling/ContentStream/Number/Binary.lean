import ContentStream.Number.Decimal

/-!
# Binary floating-point formats

A finite value of a binary format is a significand scaled by a power of two.  Its
magnitude is stored as a *word*: the exponent field followed by the fraction.
Words order the magnitudes, and adding one to a word gives the next magnitude, so
a significand that rounds up past its last bit carries into the exponent field,
and past the last finite value into infinity.

`Format.nearest` rounds a quotient of natural numbers to the nearest word, with
ties going to the even significand.
-/

namespace ContentStream.Binary

structure Format where
  /-- Bits of a significand, the leading one included. -/
  precision : Nat
  exponentBits : Nat
  deriving DecidableEq, Repr

def single : Format := ⟨24, 8⟩

def double : Format := ⟨53, 11⟩

namespace Format

def minExponent (format : Format) : Int :=
  3 - Nat.pow 2 (format.exponentBits - 1) - format.precision

def fractions (format : Format) : Nat :=
  Nat.pow 2 (format.precision - 1)

/-- The word of infinity; every finite word is below it. -/
def infinity (format : Format) : Nat :=
  (Nat.pow 2 format.exponentBits - 1) * format.fractions

def signBit (format : Format) : Nat :=
  Nat.pow 2 format.exponentBits * format.fractions

/-- The finite word `w` stands for `significand w * 2 ^ exponent w`. -/
def significand (format : Format) (word : Nat) : Nat :=
  if word < format.fractions then word else word % format.fractions + format.fractions

def exponent (format : Format) (word : Nat) : Int :=
  format.minExponent + ((word / format.fractions - 1 : Nat) : Int)

def numerator (format : Format) (word : Nat) : Nat :=
  format.significand word * Nat.pow 2 (format.exponent word).toNat

def denominator (format : Format) (word : Nat) : Nat :=
  Nat.pow 2 (-format.exponent word).toNat

end Format

/-- The quotient rounded to the nearest natural number, a tie to the even one. -/
def roundQuotient (numerator denominator : Nat) : Nat :=
  let quotient := numerator / denominator
  let twice := 2 * (numerator % denominator)
  if twice < denominator ∨ (twice = denominator ∧ quotient % 2 = 0) then quotient
  else quotient + 1

/-- The greatest `e` with `2 ^ e` at most the quotient of two positive numbers. -/
def floorLog2 (numerator denominator : Nat) : Int :=
  let e := (numerator.log2 : Int) - denominator.log2
  if numerator * Nat.pow 2 (-e).toNat < denominator * Nat.pow 2 e.toNat then e - 1 else e

namespace Format

def exponentFor (format : Format) (numerator denominator : Nat) : Int :=
  max format.minExponent (floorLog2 numerator denominator + 1 - format.precision)

/-- The word nearest to a quotient; infinity if it is past the finite range. -/
def nearest (format : Format) (numerator denominator : Nat) : Nat :=
  if numerator = 0 then 0
  else
    let exponent := format.exponentFor numerator denominator
    let significand :=
      roundQuotient (numerator * Nat.pow 2 (-exponent).toNat)
        (denominator * Nat.pow 2 exponent.toNat)
    min ((exponent - format.minExponent).toNat * format.fractions + significand)
      format.infinity

end Format

/-- The word of the magnitude of a double. -/
def word (x : Float) : Nat :=
  x.toBits.toNat % double.signBit

def isNegative (x : Float) : Bool :=
  double.signBit ≤ x.toBits.toNat

def isFinite (x : Float) : Bool :=
  word x < double.infinity

def isNaN (x : Float) : Bool :=
  double.infinity < word x

def ofWord (negative : Bool) (word : Nat) : Float :=
  Float.ofBits (UInt64.ofNat (if negative then word + double.signBit else word))

def ofDecimal (negative : Bool) (d : Decimal) : Float :=
  ofWord negative (double.nearest d.numerator d.denominator)

def ofInt (value : Int) : Float :=
  ofWord (value < 0) (double.nearest value.natAbs 1)

def toInt? (x : Float) : Option Int :=
  let numerator := double.numerator (word x)
  let denominator := double.denominator (word x)
  if isFinite x ∧ numerator % denominator = 0 then
    let magnitude := (numerator / denominator : Nat)
    some (if isNegative x then -magnitude else magnitude)
  else
    none

def toSingle (x : Float) : Float :=
  if isFinite x then
    let rounded := single.nearest (double.numerator (word x)) (double.denominator (word x))
    if rounded < single.infinity then
      ofWord (isNegative x)
        (double.nearest (single.numerator rounded) (single.denominator rounded))
    else
      ofWord (isNegative x) double.infinity
  else
    x

end ContentStream.Binary
