import ContentStream.Operand

/-!
# Rendering intents and blend modes

Both are given by name.  An intent that is not one of the four standard ones is
kept as it was given, as a name or as an integer; an unknown blend mode is not
kept.
-/

namespace ContentStream

inductive RenderingIntent where
  | absoluteColorimetric
  | relativeColorimetric
  | saturation
  | perceptual
  | other (name : String)
  | numeric (code : Int64)
  deriving DecidableEq

namespace RenderingIntent

def ofName (name : String) : RenderingIntent :=
  if name = "AbsoluteColorimetric" then .absoluteColorimetric
  else if name = "RelativeColorimetric" then .relativeColorimetric
  else if name = "Saturation" then .saturation
  else if name = "Perceptual" then .perceptual
  else .other name

/-- A name or an integer; a real is no intent even if it is integral. -/
def ofOperand? : Operand → Option RenderingIntent
  | .name text => some (ofName text)
  | .integer code => some (.numeric code)
  | _ => none

def text : RenderingIntent → String
  | .absoluteColorimetric => "AbsoluteColorimetric"
  | .relativeColorimetric => "RelativeColorimetric"
  | .saturation => "Saturation"
  | .perceptual => "Perceptual"
  | .other name => name
  | .numeric code => String.ofList (Decimal.intChars code.toInt)

end RenderingIntent

inductive BlendMode where
  | normal
  | multiply
  | screen
  | overlay
  | darken
  | lighten
  | colorDodge
  | colorBurn
  | hardLight
  | softLight
  | difference
  | exclusion
  | hue
  | saturation
  | color
  | luminosity
  deriving DecidableEq, Repr, Inhabited

namespace BlendMode

def label : BlendMode → String
  | .normal => "Normal"
  | .multiply => "Multiply"
  | .screen => "Screen"
  | .overlay => "Overlay"
  | .darken => "Darken"
  | .lighten => "Lighten"
  | .colorDodge => "ColorDodge"
  | .colorBurn => "ColorBurn"
  | .hardLight => "HardLight"
  | .softLight => "SoftLight"
  | .difference => "Difference"
  | .exclusion => "Exclusion"
  | .hue => "Hue"
  | .saturation => "Saturation"
  | .color => "Color"
  | .luminosity => "Luminosity"

def all : List BlendMode :=
  [.normal, .multiply, .screen, .overlay, .darken, .lighten, .colorDodge, .colorBurn,
    .hardLight, .softLight, .difference, .exclusion, .hue, .saturation, .color,
    .luminosity]

def ofName? (name : String) : Option BlendMode :=
  if name = "Compatible" then some .normal else all.find? fun mode => mode.label = name

/--
A name, or an array of which the first recognized name counts.  Where no name is
recognized the mode is normal.
-/
def ofOperand? : Operand → Option BlendMode
  | .name text => some ((ofName? text).getD .normal)
  | .array items => some ((items.findSome? fun item => item.name?.bind ofName?).getD .normal)
  | _ => none

end BlendMode

end ContentStream
