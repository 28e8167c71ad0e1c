import ContentStream.Bytes

/-!
# UTF-8

Names are text, streams are bytes.  `encode` and `decode?` are inverse to each
other on well-formed input.  `decodeLossy` never fails: each longest prefix of a
well-formed sequence that is cut short, and each byte that begins no sequence,
becomes one replacement character.
-/

namespace ContentStream.Utf8

def encode (text : String) : Bytes :=
  text.toByteArray.data.toList

def decode? (bytes : Bytes) : Option String :=
  String.fromUTF8? bytes.toByteArray

theorem decode?_encode (text : String) : decode? (encode text) = some text := by
  have h : (encode text).toByteArray = text.toByteArray := by
    apply ByteArray.ext
    simp [encode]
  simp [decode?, String.fromUTF8?, h, text.isValidUTF8, String.fromUTF8]

def replacement : Char := '\uFFFD'

/--
The continuation bytes that a leading byte asks for: how many, and the range of
the first one.  The narrowed ranges exclude overlong forms, surrogates and code
points past U+10FFFF.
-/
def sequence? (lead : UInt8) : Option (Nat × UInt8 × UInt8) :=
  if 0xC2 ≤ lead && lead ≤ 0xDF then some (1, 0x80, 0xBF)
  else if lead = 0xE0 then some (2, 0xA0, 0xBF)
  else if lead = 0xED then some (2, 0x80, 0x9F)
  else if 0xE1 ≤ lead && lead ≤ 0xEF then some (2, 0x80, 0xBF)
  else if lead = 0xF0 then some (3, 0x90, 0xBF)
  else if 0xF1 ≤ lead && lead ≤ 0xF3 then some (3, 0x80, 0xBF)
  else if lead = 0xF4 then some (3, 0x80, 0x8F)
  else none

def leadBits (lead : UInt8) (count : Nat) : Nat :=
  lead.toNat % Nat.pow 2 (6 - count)

def continuation : Nat → UInt8 → UInt8 → Bytes → Bytes
  | 0, _, _, _ => []
  | _, _, _, [] => []
  | count + 1, low, high, byte :: rest =>
    if low ≤ byte && byte ≤ high then byte :: continuation count 0x80 0xBF rest else []

def lossyChars : Bytes → List Char
  | [] => []
  | lead :: rest =>
    if lead < 0x80 then
      Char.ofNat lead.toNat :: lossyChars rest
    else
      match sequence? lead with
      | none => replacement :: lossyChars rest
      | some (count, low, high) =>
        let tail := continuation count low high rest
        let char :=
          if tail.length = count then
            Char.ofNat (tail.foldl (fun code byte => code * 64 + byte.toNat % 64)
              (leadBits lead count))
          else
            replacement
        char :: lossyChars (rest.drop tail.length)
termination_by bytes => bytes.length
decreasing_by
  all_goals simp only [List.length_cons, List.length_drop]
  all_goals omega

def decodeLossy (bytes : Bytes) : String :=
  (decode? bytes).getD (String.ofList (lossyChars bytes))

theorem decodeLossy_encode (text : String) : decodeLossy (encode text) = text := by
  simp [decodeLossy, decode?_encode]

end ContentStream.Utf8
