import ContentStream.Text.Unprintable

/-!
# Quoted text

Text between quotation marks on one line: the mark itself and the backslash are
escaped, and so is every character that would not be visible.
-/

namespace ContentStream.Text

def escape (mark char : Char) : List Char :=
  if char = mark || char = '\\' then ['\\', char]
  else if char = '\t' then ['\\', 't']
  else if char = '\n' then ['\\', 'n']
  else if char = '\r' then ['\\', 'r']
  else if char = Char.ofNat 0 then ['\\', '0']
  else if isUnprintable char then
    ['\\', 'u', Char.ofNat 0x7B] ++ Nat.toDigits 16 char.toNat ++ [Char.ofNat 0x7D]
  else [char]

def quote (mark : Char) (text : String) : String :=
  String.ofList (mark :: text.toList.flatMap (escape mark) ++ [mark])

end ContentStream.Text
