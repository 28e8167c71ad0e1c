import ContentStream.Token.Taken

/-!
# Hexadecimal strings

A hexadecimal string stands between angle brackets, two digits for each byte.
White space between digits is ignored, and a last digit without a partner is
followed by an assumed zero.
-/

namespace ContentStream.Hex

def writtenByte (byte : UInt8) : Bytes :=
  [Byte.lowerHexDigit (byte / 16), Byte.lowerHexDigit (byte % 16)]

def written (bytes : Bytes) : Bytes :=
  0x3C :: bytes.flatMap writtenByte ++ [0x3E]

def pairs : Bytes → Bytes
  | high :: low :: rest => (high * 16 + low) :: pairs rest
  | [high] => [high * 16]
  | [] => []

/--
The digits up to the closing bracket, and what follows it.  An input that ends
before the bracket gives no place of its own.
-/
def extent (digits : Bytes) : (input : Bytes) → Except (Option Stuck) (Bytes × Bytes)
  | [] => .error none
  | byte :: rest =>
    if byte = 0x3E then .ok (digits.reverse, rest)
    else if Byte.isWhiteSpace byte then extent digits rest
    else
      match Byte.hexValue? byte with
      | some digit => extent (digit :: digits) rest
      | none => .error (some ⟨rest, .hexDigit byte⟩)

theorem length_extent_le {digits input found rest : Bytes}
    (h : extent digits input = .ok (found, rest)) : rest.length ≤ input.length := by
  induction input generalizing digits with
  | nil => simp [extent] at h
  | cons byte tail ih =>
    simp only [extent] at h
    refine Nat.le_succ_of_le ?_
    split at h
    · simp only [Except.ok.injEq, Prod.mk.injEq] at h
      exact Nat.le_of_eq (congrArg List.length h.2.symm)
    split at h
    · exact ih h
    split at h
    · exact ih h
    · simp at h

/--
The string after an opening bracket.  A byte that is no digit is reported behind
it, an input that ends too early at the bracket.
-/
def take (opening : UInt8) (tail : Bytes) : Except Stuck (Taken Bytes (opening :: tail)) :=
  match h : extent [] tail with
  | .ok (digits, rest) => .ok (.afterFirst (pairs digits) rest (length_extent_le h))
  | .error (some stuck) => .error stuck
  | .error none => .error ⟨opening :: tail, .unterminatedHex⟩

end ContentStream.Hex
