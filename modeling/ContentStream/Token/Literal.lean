import ContentStream.Token.Taken

/-!
# Literal strings

A literal string stands between parentheses.  Parentheses inside it nest, and a
backslash begins an escape: a letter for a control character, up to three octal
digits for any byte, a line end for nothing, and any other byte for itself.
Written strings escape every parenthesis and consist of ASCII.
-/

namespace ContentStream.Literal

def octalDigit (value : UInt8) : UInt8 :=
  value % 8 + 0x30

def escapeByte (byte : UInt8) : Bytes :=
  if byte = 0x28 || byte = 0x29 || byte = 0x5C then [0x5C, byte]
  else if byte = 0x0D then [0x5C, 0x72]
  else if byte = 0x09 || byte = 0x0A || (0x20 ≤ byte && byte ≤ 0x7E) then [byte]
  else [0x5C, octalDigit (byte / 64), octalDigit (byte / 8), octalDigit byte]

def written (bytes : Bytes) : Bytes :=
  0x28 :: bytes.flatMap escapeByte ++ [0x29]

def octalRun (input : Bytes) : Bytes :=
  (input.take 3).takeWhile Byte.isOctalDigit

def octalValue (digits : Bytes) : UInt8 :=
  digits.foldl (fun value digit => value * 8 + (digit - 0x30)) 0

def escape : Bytes → Bytes × Nat
  | [] => ([], 0)
  | byte :: rest =>
    if byte = 0x6E then ([0x0A], 1)
    else if byte = 0x72 then ([0x0D], 1)
    else if byte = 0x74 then ([0x09], 1)
    else if byte = 0x62 then ([0x08], 1)
    else if byte = 0x66 then ([0x0C], 1)
    else if byte = 0x0D then ([], if rest.head? = some 0x0A then 2 else 1)
    else if byte = 0x0A then ([], 1)
    else if Byte.isOctalDigit byte then
      let digits := octalRun (byte :: rest)
      ([octalValue digits], digits.length)
    else ([byte], 1)

def decodeFrom : (skipped : Nat) → Bytes → Bytes
  | _, [] => []
  | skipped + 1, _ :: rest => decodeFrom skipped rest
  | 0, byte :: rest =>
    if byte = 0x5C then (escape rest).1 ++ decodeFrom (escape rest).2 rest
    else byte :: decodeFrom 0 rest

def decode (text : Bytes) : Bytes :=
  decodeFrom 0 text

/--
The text up to the parenthesis that closes a string with `inner` further ones
open, and what follows it.  The byte after a backslash closes and opens nothing.
-/
def extent (inner : Nat) (escaped : Bool) (text : Bytes) :
    (input : Bytes) → Except StreamFault (Bytes × Bytes)
  | [] => .error (if escaped then .unterminatedEscape else .unterminatedLiteral)
  | byte :: rest =>
    if escaped then extent inner false (byte :: text) rest
    else if byte = 0x5C then extent inner true (byte :: text) rest
    else if byte = 0x28 then extent (inner + 1) false (byte :: text) rest
    else if byte = 0x29 then
      match inner with
      | 0 => .ok (text.reverse, rest)
      | outer + 1 => extent outer false (byte :: text) rest
    else extent inner false (byte :: text) rest

theorem length_extent_le {inner : Nat} {escaped : Bool} {text input found rest : Bytes}
    (h : extent inner escaped text input = .ok (found, rest)) :
    rest.length ≤ input.length := by
  induction input generalizing inner escaped text with
  | nil => simp [extent] at h
  | cons byte tail ih =>
    simp only [extent] at h
    refine Nat.le_succ_of_le ?_
    split at h
    · exact ih h
    split at h
    · exact ih h
    split at h
    · exact ih h
    split at h
    · split at h
      · simp only [Except.ok.injEq, Prod.mk.injEq] at h
        exact Nat.le_of_eq (congrArg List.length h.2.symm)
      · exact ih h
    · exact ih h

/--
The string after an opening parenthesis.  An input that ends inside an escape is
reported there, one that ends elsewhere at the parenthesis.
-/
def take (opening : UInt8) (tail : Bytes) : Except Stuck (Taken Bytes (opening :: tail)) :=
  match h : extent 0 false [] tail with
  | .ok (text, rest) => .ok (.afterFirst (decode text) rest (length_extent_le h))
  | .error .unterminatedEscape => .error ⟨[], .unterminatedEscape⟩
  | .error fault => .error ⟨opening :: tail, fault⟩

end ContentStream.Literal
