import ContentStream.Operator
import ContentStream.Graphics.Parameters

/-!
# Operators on the graphics state

Line styles, rendering intent, flatness and parameter dictionaries; saving and
restoring; the transformation of user space.
-/

namespace ContentStream.Operator

def lineWidth : Operator :=
  numeric "w" fun graphics x => { graphics with lineWidth := x }

def lineCap : Operator :=
  painting "J" .singleNumeric fun graphics args => do
    let value ← args.integer 0
    match LineCap.ofInt? value.toInt with
    | some cap => return { graphics with lineCap := cap }
    | none => args.fail (.unknownLineCap value)

def lineJoin : Operator :=
  painting "j" .singleNumeric fun graphics args => do
    let value ← args.integer 0
    match LineJoin.ofInt? value.toInt with
    | some join => return { graphics with lineJoin := join }
    | none => args.fail (.unknownLineJoin value)

def miterLimit : Operator :=
  numeric "M" fun graphics x => { graphics with miterLimit := x }

def dashLengths (args : Arguments) (items : List Operand) : Except Error (List Float) :=
  items.mapM fun item =>
    match item.number? with
    | some length => .ok length
    | none => args.fail (.dashEntry item.kind)

def dash : Operator :=
  painting "d" .generic fun graphics args => do
    let items ← args.array 0
    let lengths ← dashLengths args items
    let phase ← args.number 1
    return { graphics with dash := ⟨lengths, phase⟩ }

def renderingIntent : Operator :=
  painting "ri" .generic fun graphics args => do
    let intent ← args.get 0 .nameOrInteger RenderingIntent.ofOperand?
    return { graphics with intent := intent }

def flatness : Operator :=
  numeric "i" fun graphics x => { graphics with flatness := x }

def parameters : Operator :=
  updating "gs" .generic fun resources state args => do
    let name ← args.name 0
    let entries ← resources.parameters name
    let graphics ← state.graphics.withEntries name entries
    return state.withGraphics graphics

def save : Operator :=
  acting "q" fun state => ({ state with stack := state.stack.save }, [])

def restore : Operator :=
  acting "Q" fun state =>
    match state.stack.restore? with
    | some stack => ({ state with stack := stack }, [])
    | none => (state, [.nothingToRestore])

def transformArgument (args : Arguments) : Except Error (Transform Float) := do
  let a ← args.number 0
  let b ← args.number 1
  let c ← args.number 2
  let d ← args.number 3
  let e ← args.number 4
  let f ← args.number 5
  return ⟨a, b, c, d, e, f⟩

def concatTransform : Operator :=
  painting "cm" .generic fun graphics args =>
    (transformArgument args).map graphics.concat

def general : List Operator :=
  [lineWidth, lineCap, lineJoin, miterLimit, dash, renderingIntent, flatness, parameters,
    save, restore, concatTransform]

end ContentStream.Operator
