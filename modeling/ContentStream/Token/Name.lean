import ContentStream.Token.Taken
import ContentStream.Text.Utf8

/-!
# Names

A name is written as a slash and its UTF-8 bytes.  A byte that is not a visible
regular character, and the number sign, is written as a number sign and two
hexadecimal digits.  Reading accepts such an escape for any byte, and takes a
number sign without two digits after it as itself.
-/

namespace ContentStream.Name

def isPlain (byte : UInt8) : Bool :=
  0x21 ≤ byte && byte ≤ 0x7E && !Byte.isDelimiter byte && byte != 0x23

def escapeByte (byte : UInt8) : Bytes :=
  if isPlain byte then [byte]
  else [0x23, Byte.upperHexDigit (byte / 16), Byte.upperHexDigit (byte % 16)]

def escape (bytes : Bytes) : Bytes :=
  bytes.flatMap escapeByte

def escaped? (sign high low : UInt8) : Option UInt8 :=
  if sign = 0x23 then
    match Byte.hexValue? high, Byte.hexValue? low with
    | some h, some l => some (h * 16 + l)
    | _, _ => none
  else
    none

def unescape : Bytes → Bytes
  | [] => []
  | [a] => [a]
  | [a, b] => [a, b]
  | a :: b :: c :: rest =>
    match escaped? a b c with
    | some byte => byte :: unescape rest
    | none => a :: unescape (b :: c :: rest)

def written (name : String) : Bytes :=
  0x2F :: escape (Utf8.encode name)

def take (slash : UInt8) (tail : Bytes) : Except Stuck (Taken String (slash :: tail)) :=
  match Utf8.decode? (unescape (tail.takeWhile Byte.isRegular)) with
  | some name =>
    .ok (.afterFirst name (tail.dropWhile Byte.isRegular) (length_dropWhile_le _ _))
  | none => .error ⟨slash :: tail, .nameEncoding⟩

end ContentStream.Name
