import ContentStream.Number.Binary

/-!
# The fewest digits that read back

The exact decimal of a double may have hundreds of digits.  A written double has
as few as it takes for `Binary.double.nearest` to give the same word again: the
first digits of the exact decimal are tried for one digit, two digits and so on,
each time as they are and with one unit added in the last place.  All digits read
back, so the search ends.
-/

namespace ContentStream.Decimal

inductive Tie where
  | up
  | even
  deriving DecidableEq, Repr

def exact (word : Nat) : Decimal :=
  let exponent := Binary.double.exponent word
  ⟨Binary.double.significand word * Nat.pow 2 exponent.toNat * Nat.pow 5 (-exponent).toNat,
    -((-exponent).toNat : Int)⟩

def readsBack (word : Nat) (d : Decimal) : Bool :=
  Binary.double.nearest d.numerator d.denominator = word

def cut (d : Decimal) (places : Nat) : Decimal :=
  ⟨d.digits / Nat.pow 10 places, d.exponent + places⟩

def next (d : Decimal) : Decimal :=
  ⟨d.digits + 1, d.exponent⟩

def nearerCut (tie : Tie) (d : Decimal) (places : Nat) : Decimal :=
  let unit := Nat.pow 10 places
  let twice := 2 * (d.digits % unit)
  let low := d.cut places
  if twice < unit then low
  else if unit < twice then low.next
  else
    match tie with
    | .up => low.next
    | .even => if low.digits % 2 = 0 then low else low.next

/-- The shortest decimal that reads back when at most `places` digits are cut off. -/
def shorten (tie : Tie) (word : Nat) (d : Decimal) : Nat → Decimal
  | 0 => d
  | places + 1 =>
    let low := d.cut (places + 1)
    match readsBack word low, readsBack word low.next with
    | true, true => nearerCut tie d (places + 1)
    | true, false => low
    | false, true => low.next
    | false, false => shorten tie word d places

/-- The decimal with the fewest digits that reads back, the nearest of them. -/
def shortest (tie : Tie) (word : Nat) : Decimal :=
  let d := exact word
  (shorten tie word d (d.length - 1)).strip

end ContentStream.Decimal
