import ContentStream.Error

/-!
# Colors and color spaces

A color space turns the operands of a color operator into a color.  Device spaces
have names of their own; every other family is given by an array whose first item
is the name of the family.
-/

namespace ContentStream

inductive Color where
  | gray (level : Float)
  | rgb (red green blue : Float)
  | cmyk (cyan magenta yellow black : Float)
  /-- The components of a space without typed components. -/
  | other (components : List Float)
  | pattern (name : Option String) (components : List Float)
  deriving DecidableEq

def Color.black : Color := .gray 0

inductive ColorSpace where
  | deviceGray
  | deviceRGB
  | deviceCMYK
  | cieBased (family : String) (components : Nat)
  /-- Components are indices from zero up to `last`. -/
  | indexed (base : ColorSpace) (last : UInt32)
  | separation (colorant : String)
  | deviceN (colorants : List String)
  /-- Patterns that bring their own colors. -/
  | pattern
  /-- Patterns that are painted in a color of the underlying space. -/
  | patternOver (underlying : ColorSpace)
  deriving DecidableEq

namespace ColorSpace

def ofName? (name : String) : Option ColorSpace :=
  if name = "DeviceGray" || name = "G" then some .deviceGray
  else if name = "DeviceRGB" || name = "RGB" then some .deviceRGB
  else if name = "DeviceCMYK" || name = "CMYK" then some .deviceCMYK
  else if name = "Pattern" then some .pattern
  else none

/-- The component count in the dictionary of a color profile; three if there is none. -/
def profileComponents? (profile : Option Operand) : Option Nat :=
  let count := (profile.bind Operand.dictionary?).bind fun entries =>
    (Dictionary.get? entries "N").bind Operand.integer?
  match (count.map Int64.toInt).getD 3 with
  | 1 => some 1
  | 3 => some 3
  | 4 => some 4
  | _ => none

def lastIndex? (operand : Operand) : Option UInt32 := do
  let value := (← operand.integer?).toInt
  if 0 ≤ value && value < UInt32.size then some (UInt32.ofNat value.toNat) else none

mutual

def ofOperand? : Operand → Option ColorSpace
  | .name text => ofName? text
  | .array items => ofArray? items
  | _ => none

def ofArray? : List Operand → Option ColorSpace
  | [] => none
  | family :: items => do
    let family ← family.name?
    if family = "CalGray" then
      some (.cieBased family 1)
    else if family = "CalRGB" || family = "Lab" then
      some (.cieBased family 3)
    else if family = "ICCBased" then
      (profileComponents? items[0]?).map (ColorSpace.cieBased family)
    else if family = "Indexed" || family = "I" then do
      let base ← ofBase? items
      let last ← lastIndex? (← items[1]?)
      some (.indexed base last)
    else if family = "Separation" then
      (items[0]?.bind Operand.name?).map ColorSpace.separation
    else if family = "DeviceN" then do
      let names ← (items[0]?).bind Operand.array?
      (names.mapM Operand.name?).map ColorSpace.deviceN
    else if family = "Pattern" then
      if items.isEmpty then some .pattern else (ofBase? items).map ColorSpace.patternOver
    else if items.isEmpty then
      ofName? family
    else
      none

def ofBase? : List Operand → Option ColorSpace
  | [] => none
  | base :: _ => ofOperand? base

end

def family : ColorSpace → String
  | .deviceGray => "DeviceGray"
  | .deviceRGB => "DeviceRGB"
  | .deviceCMYK => "DeviceCMYK"
  | .cieBased family _ => family
  | .indexed _ _ => "Indexed"
  | .separation _ => "Separation"
  | .deviceN _ => "DeviceN"
  | .pattern | .patternOver _ => "Pattern"

def components : ColorSpace → Nat
  | .deviceGray => 1
  | .deviceRGB => 3
  | .deviceCMYK => 4
  | .cieBased _ components => components
  | .indexed _ _ => 1
  | .separation _ => 1
  | .deviceN colorants => colorants.length
  | .pattern => 0
  | .patternOver underlying => underlying.components

def initialColor (space : ColorSpace) : Color :=
  match space with
  | .deviceGray => .gray 0
  | .deviceRGB => .rgb 0 0 0
  | .deviceCMYK => .cmyk 0 0 0 1
  | .cieBased _ components => .other (List.replicate components 0)
  | .indexed _ _ => .other [0]
  | .separation _ | .deviceN _ => .other (List.replicate space.components 1)
  | .pattern | .patternOver _ => .pattern none []

def fail {α : Type} (space : ColorSpace) (fault : OperandFault) : Except Error α :=
  .error (.invalidOperand space.family fault)

def numbers (space : ColorSpace) (operands : List Operand) : Except Error (List Float) :=
  if operands.length = space.components then
    operands.mapM fun operand =>
      match operand.number? with
      | some value => .ok value
      | none => space.fail (.notNumeric operand.kind)
  else
    space.fail (.componentCount space.components operands.length)

def clampIndex (last : UInt32) (index : Float) : Float :=
  let raised := if index < 0 then 0 else index
  let bound := Binary.ofInt last.toNat
  if bound < raised then bound else raised

def ofComponents (space : ColorSpace) (values : List Float) : Color :=
  match space, values with
  | .deviceGray, [g] => .gray g
  | .deviceRGB, [r, g, b] => .rgb r g b
  | .deviceCMYK, [c, m, y, k] => .cmyk c m y k
  | .indexed _ last, [index] => .other [clampIndex last index]
  | _, _ => .other values

def patternColor (space : ColorSpace) (operands : List Operand) : Except Error Color :=
  match operands.getLast? with
  | none => space.fail .patternMissing
  | some last =>
    match last.name? with
    | none => space.fail (.patternMistyped last.kind)
    | some name => (space.numbers operands.dropLast).map (Color.pattern (some name))

def color (space : ColorSpace) (operands : List Operand) : Except Error Color :=
  match space with
  | .pattern | .patternOver _ => space.patternColor operands
  | _ => (space.numbers operands).map space.ofComponents

end ColorSpace

end ContentStream
