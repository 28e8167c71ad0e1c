import ContentStream.Number.Shortest

/-!
# Layouts of numbers

A `Layout` is what a format decides about the text of a double once its digits
are known: whether integral values keep `.0`, how far positional notation reaches,
and which of two equally near decimals is taken.  Three formats are in use: `plain`
in reports, `token` in content streams, `json` in JSON.
-/

namespace ContentStream.Number

structure Layout where
  tie : Decimal.Tie
  /-- Integral values are written as `12.0`, otherwise as `12`. -/
  pointZero : Bool
  /-- The least exponent of a leading digit that is written positionally. -/
  positionalFrom : Option Int
  /-- The least exponent of a leading digit that is too great for positional form. -/
  positionalBelow : Option Int
  deriving DecidableEq, Repr

def plain : Layout where
  tie := .up
  pointZero := false
  positionalFrom := none
  positionalBelow := none

def token : Layout where
  tie := .up
  pointZero := true
  positionalFrom := none
  positionalBelow := none

def json : Layout where
  tie := .even
  pointZero := true
  positionalFrom := some (-5)
  positionalBelow := some 16

namespace Layout

def isPositional (n : Layout) (exponent : Int) : Bool :=
  n.positionalFrom.all (fun least => least ≤ exponent) &&
    n.positionalBelow.all (fun bound => exponent < bound)

def positionalChars (n : Layout) (d : Decimal) : List Char :=
  match d.fractionChars with
  | [] => d.wholeChars ++ if n.pointZero then ['.', '0'] else []
  | fraction => d.wholeChars ++ '.' :: fraction

def scientificChars (d : Decimal) : List Char :=
  let exponent := d.leadingExponent
  let sign := if exponent < 0 then '-' else '+'
  let mantissa :=
    match Nat.toDigits 10 d.digits with
    | first :: second :: rest => first :: '.' :: second :: rest
    | digits => digits
  mantissa ++ 'e' :: sign :: Nat.toDigits 10 exponent.natAbs

def magnitudeChars (n : Layout) (word : Nat) : List Char :=
  let d := Decimal.shortest n.tie word
  if word = 0 || n.isPositional d.leadingExponent then n.positionalChars d
  else scientificChars d

def chars (n : Layout) (x : Float) : List Char :=
  if Binary.isNaN x then ['N', 'a', 'N']
  else
    let magnitude :=
      if Binary.isFinite x then n.magnitudeChars (Binary.word x) else ['i', 'n', 'f']
    if Binary.isNegative x then '-' :: magnitude else magnitude

def text (n : Layout) (x : Float) : String :=
  String.ofList (n.chars x)

end Layout

def ofUnsigned? (negative : Bool) (chars : List Char) (exponent : Int) : Option Float :=
  let whole := chars.takeWhile (· != '.')
  let fraction := (chars.dropWhile (· != '.')).drop 1
  if (whole ++ fraction).all Char.isDigit && !(whole ++ fraction).isEmpty then
    let d := Decimal.ofChars whole fraction
    some (Binary.ofDecimal negative ⟨d.digits, d.exponent + exponent⟩)
  else
    none

def natOfChars? (digits : List Char) : Option Nat :=
  if digits.all Char.isDigit && !digits.isEmpty then some (Nat.ofDigitChars 10 digits 0)
  else none

def intOfChars? : List Char → Option Int
  | '-' :: digits => (natOfChars? digits).map fun n => -(n : Int)
  | '+' :: digits => (natOfChars? digits).map fun n => (n : Int)
  | digits => (natOfChars? digits).map fun n => (n : Int)

/--
The double nearest to a numeral with an optional sign and an optional power of
ten, or the value of one of the texts that `Layout.chars` has for what is not
finite.
-/
def ofChars? (chars : List Char) : Option Float :=
  let (negative, magnitude) :=
    match chars with
    | '-' :: rest => (true, rest)
    | '+' :: rest => (false, rest)
    | rest => (false, rest)
  if magnitude = ['i', 'n', 'f'] then some (Binary.ofWord negative Binary.double.infinity)
  else if chars = ['N', 'a', 'N'] then some (0.0 / 0.0)
  else
    let mantissa := magnitude.takeWhile fun c => c != 'e' && c != 'E'
    match magnitude.dropWhile fun c => c != 'e' && c != 'E' with
    | [] => ofUnsigned? negative mantissa 0
    | _ :: exponent => (intOfChars? exponent).bind (ofUnsigned? negative mantissa)

end ContentStream.Number
