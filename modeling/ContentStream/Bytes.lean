/-!
# Bytes of a content stream

A content stream is a list of bytes.  Every byte belongs to exactly one of three
classes: white space, delimiter, or regular.  A token of regular bytes ends where
a byte of another class begins.
-/

namespace ContentStream

abbrev Bytes := List UInt8

namespace Bytes

/-- The bytes of characters whose code points are below 256, one byte each. -/
def ofChars (chars : List Char) : Bytes :=
  chars.map Char.toUInt8

def toChars (bytes : Bytes) : List Char :=
  bytes.map fun byte => Char.ofNat byte.toNat

def toLatin1 (bytes : Bytes) : String :=
  String.ofList (toChars bytes)

end Bytes

namespace Byte

def isWhiteSpace (byte : UInt8) : Bool :=
  byte = 0x20 || byte = 0x09 || byte = 0x0D || byte = 0x0A || byte = 0x0C || byte = 0x00

def isDelimiter (byte : UInt8) : Bool :=
  byte = 0x28 || byte = 0x29 || byte = 0x3C || byte = 0x3E || byte = 0x5B ||
    byte = 0x5D || byte = 0x7B || byte = 0x7D || byte = 0x2F || byte = 0x25

def isRegular (byte : UInt8) : Bool :=
  !isWhiteSpace byte && !isDelimiter byte

def isLineEnd (byte : UInt8) : Bool :=
  byte = 0x0A || byte = 0x0D

def isDigit (byte : UInt8) : Bool :=
  0x30 ≤ byte && byte ≤ 0x39

def isOctalDigit (byte : UInt8) : Bool :=
  0x30 ≤ byte && byte ≤ 0x37

def hexValue? (byte : UInt8) : Option UInt8 :=
  if isDigit byte then some (byte - 0x30)
  else if 0x61 ≤ byte && byte ≤ 0x66 then some (byte - 0x57)
  else if 0x41 ≤ byte && byte ≤ 0x46 then some (byte - 0x37)
  else none

def lowerHexDigit (value : UInt8) : UInt8 :=
  if value < 10 then value + 0x30 else value + 0x57

def upperHexDigit (value : UInt8) : UInt8 :=
  if value < 10 then value + 0x30 else value + 0x37

end Byte

end ContentStream
