import ContentStream.Operator.General

/-!
# Text operators

Text state, text position and text showing.  Four operators are shorthand: they
stand for operations of other operators, with operands computed from their own and
from the leading.
-/

namespace ContentStream.Operator

def beginText : Operator :=
  acting "BT" fun state => ({ state with object := .text, text := TextPosition.start }, [])

def endText : Operator :=
  entering "ET" .none

def characterSpacing : Operator :=
  numeric "Tc" fun graphics x => { graphics with text.characterSpacing := x }

def wordSpacing : Operator :=
  numeric "Tw" fun graphics x => { graphics with text.wordSpacing := x }

def horizontalScaling : Operator :=
  numeric "Tz" fun graphics x => { graphics with text.horizontalScaling := x }

def leading : Operator :=
  numeric "TL" fun graphics x => { graphics with text.leading := x }

def font : Operator :=
  painting "Tf" .generic fun graphics args => do
    let name ← args.name 0
    let size ← args.number 1
    return { graphics with text := graphics.text.withFont name size }

def textMode : Operator :=
  painting "Tr" .singleNumeric fun graphics args => do
    let value ← args.integer 0
    match TextMode.ofInt? value.toInt with
    | some mode => return { graphics with text.mode := mode }
    | none => args.fail (.unknownTextMode value)

def rise : Operator :=
  numeric "Ts" fun graphics x => { graphics with text.rise := x }

def moveText : Operator :=
  updating "Td" .generic fun _ state args => do
    let x ← args.number 0
    let y ← args.number 1
    return { state with text := state.text.nextLine x y }

def textMatrix : Operator :=
  updating "Tm" .generic fun _ state args =>
    (transformArgument args).map fun m => { state with text := TextPosition.place m }

/-- The number with the opposite sign; the least integer becomes a real. -/
def negate (value : Operand) : Operand :=
  match value with
  | .integer i =>
    if i = Int64.minValue then .real (-(Binary.ofInt i.toInt)) else .integer (-i)
  | other => .real (-(other.number?.getD 0))

def moveTextWithLeading : Operator :=
  expanding "TD" .generic fun _ args => do
    let x ← args.numeric 0
    let y ← args.numeric 1
    return [⟨"TL", [negate y]⟩, ⟨"Td", [x, y]⟩]

def nextLine : Operator :=
  expanding "T*" .noOperands fun state _ =>
    .ok [⟨"Td", [.integer 0, .real (-state.graphics.text.leading)]⟩]

def showText : Operator :=
  checking "Tj" .generic fun args => (args.string 0).map fun _ => ()

def checkShown (args : Arguments) : List Operand → Except Error Unit
  | [] => .ok ()
  | item :: items =>
    if item.string?.isSome || item.isNumber then checkShown args items
    else args.fail (.shownEntry item.kind)

def showTextArray : Operator :=
  checking "TJ" .generic fun args => do
    let items ← args.array 0
    checkShown args items

def nextLineShowText : Operator :=
  expanding "'" .generic fun _ args => do
    let _ ← args.string 0
    return [⟨"T*", []⟩, ⟨"Tj", args.operands.take 1⟩]

def spacedNextLineShowText : Operator :=
  expanding "\"" .generic fun _ args => do
    let word ← args.numeric 0
    let character ← args.numeric 1
    let _ ← args.string 2
    return [⟨"Tw", [word]⟩, ⟨"Tc", [character]⟩, ⟨"'", (args.operands.drop 2).take 1⟩]

def glyphWidth : Operator :=
  checking "d0" .generic fun args => (args.numbers 2).map fun _ => ()

def glyphBox : Operator :=
  checking "d1" .generic fun args => (args.numbers 6).map fun _ => ()

def text : List Operator :=
  [beginText, endText, characterSpacing, wordSpacing, horizontalScaling, leading, font,
    textMode, rise, moveText, moveTextWithLeading, textMatrix, nextLine, showText,
    showTextArray, nextLineShowText, spacedNextLineShowText, glyphWidth, glyphBox]

end ContentStream.Operator
