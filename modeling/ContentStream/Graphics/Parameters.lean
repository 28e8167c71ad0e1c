import ContentStream.Graphics.State

/-!
# Dictionaries of graphics state parameters

An entry sets one parameter of the graphics state; entries with other keys mean
nothing.  A dictionary is applied as a whole: where one entry does not have the
form that its key asks for, nothing is set.
-/

namespace ContentStream.GraphicsState

def dashOfOperand? (value : Operand) : Option DashPattern :=
  match value with
  | .array [lengths, phase] => do
    let items ← lengths.array?
    let lengths ← items.mapM Operand.number?
    let phase ← phase.number?
    some ⟨lengths, phase⟩
  | _ => none

def fontOfOperand? (value : Operand) : Option (String × Float) :=
  match value with
  | .array [font, size] => do
    let name ←
      match font with
      | .name text => some text
      | .dictionary entries => (Dictionary.get? entries "BaseFont").bind Operand.name?
      | _ => none
    let size ← size.number?
    some (name, size)
  | _ => none

def demand {α : Type} (form : ParameterForm) : Option α → Except ParameterForm α
  | some found => .ok found
  | none => .error form

def withParameter (state : GraphicsState) (key : String) (value : Operand) :
    Except ParameterForm GraphicsState :=
  let number := demand .number value.number?
  let boolean := demand .boolean value.boolean?
  let code := value.integer?.map Int64.toInt
  match key with
  | "LW" => number.map fun x => { state with lineWidth := x }
  | "LC" =>
    (demand .lineCap (code.bind LineCap.ofInt?)).map fun x => { state with lineCap := x }
  | "LJ" =>
    (demand .lineJoin (code.bind LineJoin.ofInt?)).map fun x => { state with lineJoin := x }
  | "ML" => number.map fun x => { state with miterLimit := x }
  | "D" => (demand .dash (dashOfOperand? value)).map fun x => { state with dash := x }
  | "RI" =>
    (demand .intent (RenderingIntent.ofOperand? value)).map fun x => { state with intent := x }
  | "SA" => boolean.map fun x => { state with strokeAdjustment := x }
  | "BM" =>
    (demand .blendMode (BlendMode.ofOperand? value)).map fun x => { state with blendMode := x }
  | "CA" => number.map fun x => { state with strokeAlpha := x }
  | "ca" => number.map fun x => { state with fillAlpha := x }
  | "AIS" => boolean.map fun x => { state with alphaIsShape := x }
  | "TK" => boolean.map fun x => { state with text.knockout := x }
  | "FL" => number.map fun x => { state with flatness := x }
  | "SM" => number.map fun x => { state with smoothness := x }
  | "Font" =>
    (demand .font (fontOfOperand? value)).map fun x =>
      { state with text := state.text.withFont x.1 x.2 }
  | _ => .ok state

def withEntries (name : String) (state : GraphicsState) :
    Dictionary → Except Error GraphicsState
  | [] => .ok state
  | (key, value) :: entries =>
    match state.withParameter key value with
    | .ok next => withEntries name next entries
    | .error form => .error (.malformedResource "ExtGState" name (.parameter key form))

end ContentStream.GraphicsState
