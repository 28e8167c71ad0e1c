import ContentStream.Bytes

/-!
# Prefix codes

A prefix code gives each of its symbols a string of bits of which no other string is
a beginning.  The lengths of the strings determine the code: counting up from zero,
shorter strings come before longer ones and, among those of one length, smaller
symbols before larger ones.
-/

namespace ContentStream

/-- For each length from one on, the symbols with strings of that length in order. -/
abbrev PrefixCode := List (List Nat)

namespace PrefixCode

def lengthLimit : Nat := 15

def ofLengths (lengths : List Nat) : PrefixCode :=
  (List.range lengthLimit).map fun shorter =>
    (lengths.zipIdx.filter fun (length, _) => length = shorter + 1).map Prod.snd

def coveredFrom (share : Nat) : PrefixCode → Nat
  | [] => 0
  | level :: levels => level.length * share + coveredFrom (share / 2) levels

def covered (code : PrefixCode) : Nat :=
  code.coveredFrom (Nat.pow 2 (lengthLimit - 1))

/-- Whether all strings are used up, or there is not even a second symbol. -/
def isUsable (code : PrefixCode) : Bool :=
  code.covered = Nat.pow 2 lengthLimit || code.flatten.length ≤ 1

end PrefixCode

end ContentStream
