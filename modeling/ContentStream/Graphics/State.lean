import ContentStream.Graphics.Color
import ContentStream.Graphics.Compositing
import ContentStream.Graphics.LineStyle
import ContentStream.Graphics.Text

/-!
# The graphics state

Every parameter that painting depends on and that is saved and restored as a whole.
Stroking and filling have a color space, a color and an alpha value each.
-/

namespace ContentStream

structure GraphicsState where
  transform : Transform Float := Transform.identity
  lineWidth : Float := 1
  lineCap : LineCap := .butt
  lineJoin : LineJoin := .miter
  miterLimit : Float := 10
  dash : DashPattern := DashPattern.solid
  intent : RenderingIntent := .relativeColorimetric
  strokeAdjustment : Bool := false
  blendMode : BlendMode := .normal
  strokeAlpha : Float := 1
  fillAlpha : Float := 1
  alphaIsShape : Bool := false
  flatness : Float := 1
  smoothness : Float := 0
  strokeSpace : ColorSpace := .deviceGray
  strokeColor : Color := Color.black
  fillSpace : ColorSpace := .deviceGray
  fillColor : Color := Color.black
  text : TextState := {}
  deriving DecidableEq

namespace GraphicsState

def initial : GraphicsState := {}

/-- The given transformation is applied before the current one. -/
def concat (state : GraphicsState) (m : Transform Float) : GraphicsState :=
  { state with transform := state.transform.after m }

def withStrokeSpace (state : GraphicsState) (space : ColorSpace) : GraphicsState :=
  { state with strokeSpace := space, strokeColor := space.initialColor }

def withFillSpace (state : GraphicsState) (space : ColorSpace) : GraphicsState :=
  { state with fillSpace := space, fillColor := space.initialColor }

end GraphicsState

/-- The current state and the saved ones, the last saved first. -/
structure StateStack where
  current : GraphicsState := GraphicsState.initial
  saved : List GraphicsState := []
  deriving DecidableEq

namespace StateStack

def depth (stack : StateStack) : Nat :=
  stack.saved.length

def save (stack : StateStack) : StateStack :=
  { stack with saved := stack.current :: stack.saved }

def restore? (stack : StateStack) : Option StateStack :=
  match stack.saved with
  | [] => none
  | last :: saved => some ⟨last, saved⟩

end StateStack

end ContentStream
