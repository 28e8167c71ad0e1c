import ContentStream.Operator

/-!
# Color operators

Each operator exists for strokes and for fills.  Selecting a space resets the
color; a color is read in the current space; the shorthands for device spaces set
space and color together.
-/

namespace ContentStream.Operator

inductive Use where
  | stroke
  | fill
  deriving DecidableEq, Repr

namespace Use

def space (use : Use) (graphics : GraphicsState) : ColorSpace :=
  match use with
  | .stroke => graphics.strokeSpace
  | .fill => graphics.fillSpace

def withSpace (use : Use) (graphics : GraphicsState) (space : ColorSpace) : GraphicsState :=
  match use with
  | .stroke => graphics.withStrokeSpace space
  | .fill => graphics.withFillSpace space

def withColor (use : Use) (graphics : GraphicsState) (color : Color) : GraphicsState :=
  match use with
  | .stroke => { graphics with strokeColor := color }
  | .fill => { graphics with fillColor := color }

end Use

def colorSpace (name : String) (use : Use) : Operator :=
  updating name .generic fun resources state args => do
    let name ← args.name 0
    let space ← resources.colorSpace name
    return state.withGraphics (use.withSpace state.graphics space)

def color (name : String) (use : Use) : Operator :=
  painting name .generic fun graphics args =>
    ((use.space graphics).color args.operands).map (use.withColor graphics)

def deviceColor (space : ColorSpace) (args : Arguments) : Except Error Color := do
  let _ ← args.numbers space.components
  space.color (args.operands.take space.components)

def device (name : String) (shape : Shape) (use : Use) (space : ColorSpace) : Operator :=
  painting name shape fun graphics args =>
    (deviceColor space args).map fun color =>
      use.withColor (use.withSpace graphics space) color

def colors : List Operator :=
  [colorSpace "CS" .stroke, colorSpace "cs" .fill,
    color "SC" .stroke, color "SCN" .stroke, color "sc" .fill, color "scn" .fill,
    device "G" .singleNumeric .stroke .deviceGray, device "g" .singleNumeric .fill .deviceGray,
    device "RG" .generic .stroke .deviceRGB, device "rg" .generic .fill .deviceRGB,
    device "K" .generic .stroke .deviceCMYK, device "k" .generic .fill .deviceCMYK]

end ContentStream.Operator
