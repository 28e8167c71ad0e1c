import ContentStream.Error

/-!
# Base-85 text

Five digits of base 85 stand for a word of four bytes.  The letter `z` stands for a
word of zeros, and a last group of fewer digits for one byte less than it has digits.
-/

namespace ContentStream.Base85

def isDigit (byte : UInt8) : Bool :=
  0x21 ≤ byte && byte ≤ 0x75

def isBlank (byte : UInt8) : Bool :=
  byte = 0x20 || byte = 0x09 || byte = 0x0A || byte = 0x0C || byte = 0x0D

def wordBytes (word : UInt32) : Bytes :=
  [(word >>> 24).toUInt8, (word >>> 16).toUInt8, (word >>> 8).toUInt8, word.toUInt8]

def appendDigit (word : UInt32) (digit : UInt8) : Except DocumentFault UInt32 :=
  if word.toNat * 85 < UInt32.size then .ok (word * 85 + digit.toUInt32)
  else .error .groupOverflow

def fill (word : UInt32) : Nat → Except DocumentFault UInt32
  | 0 => .ok word
  | missing + 1 => do
    let next ← appendDigit word 84
    fill next missing

def lastGroup (word : UInt32) (count : Nat) : Except DocumentFault Bytes :=
  if count = 0 then .ok []
  else (fill word (5 - count)).map fun full => (wordBytes full).take (count - 1)

def decodeFrom (word : UInt32) (count : Nat) : Bytes → Except DocumentFault Bytes
  | [] => lastGroup word count
  | byte :: rest =>
    if byte = 0x7A then
      if count = 0 then (decodeFrom word count rest).map ([0, 0, 0, 0] ++ ·)
      else .error .groupInterrupted
    else if isBlank byte then decodeFrom word count rest
    else if isDigit byte then
      match appendDigit word (byte - 0x21) with
      | .error fault => .error fault
      | .ok next =>
        if count = 4 then (decodeFrom 0 0 rest).map (wordBytes next ++ ·)
        else decodeFrom next (count + 1) rest
    else lastGroup word count

def isMarked (text : Bytes) : Bool :=
  text.drop (text.length - 2) = [0x7E, 0x3E]

def withoutMark (text : Bytes) : Bytes :=
  if isMarked text then text.take (text.length - 2) else text

def decode (text : Bytes) : Except DocumentFault Bytes :=
  decodeFrom 0 0 (withoutMark text)

end ContentStream.Base85
