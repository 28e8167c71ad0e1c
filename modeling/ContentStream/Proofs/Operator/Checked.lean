import ContentStream.Operator.Catalog
import ContentStream.Proofs.Checked
import ContentStream.Proofs.Number.Bits
import ContentStream.Proofs.Operation.Arguments

/-!
# Checked actions

What built-in operators do with indices and bounds: the operands that they pass on are slices, an
integer gets the opposite sign, an index into a palette is moved between bounds, and compatibility
sections are counted.  Earlier checks of the same operators make each of these safe, whatever the
operands are.
-/

namespace ContentStream

namespace Checked

def clamp (low high x : Float) : Checked Float :=
  if low ≤ high then
    let raised := if x < low then low else x
    .gives (if high < raised then high else raised)
  else .panics

def opposite (i : Int64) : Checked Int64 :=
  if -i.toInt ≤ Int64.maxValue.toInt then .gives (-i) else .panics

def negate (value : Operand) : Checked Operand :=
  match value with
  | .integer i =>
    if i = Int64.minValue then return .real (-(Binary.ofInt i.toInt))
    else do
      let negative ← opposite i
      return .integer negative
  | other => return .real (-(other.number?.getD 0))

theorem clampIndex_eq (last : UInt32) (index : Float) :
    clamp 0 (Binary.ofInt last.toNat) index = .gives (ColorSpace.clampIndex last index) :=
  if_pos (Binary.zero_le_ofInt last.toNat)

theorem opposite_eq {i : Int64} (h : i ≠ Int64.minValue) : opposite i = .gives (-i) := by
  have hleast : i.toInt ≠ Int64.minValue.toInt := fun heq => h (Int64.toInt_inj.1 heq)
  have hle := i.le_toInt
  rw [Int64.toInt_minValue] at hleast
  refine if_pos ?_
  rw [Int64.toInt_maxValue]
  omega

theorem negate_eq (value : Operand) : negate value = .gives (Operator.negate value) := by
  cases value with
  | integer i =>
      rw [negate, Operator.negate]
      split
      next => rfl
      next hleast =>
        rw [opposite_eq hleast]
        rfl
  | _ => rfl

def ofComponents (space : ColorSpace) (values : List Float) : Checked Color :=
  match space, values with
  | .indexed _ last, [index] => do
    let moved ← clamp 0 (Binary.ofInt last.toNat) index
    return .other [moved]
  | space, values => return space.ofComponents values

def color (space : ColorSpace) (operands : List Operand) : Checked Color :=
  match space with
  | .pattern | .patternOver _ => ofExcept (space.patternColor operands)
  | _ => do
    let values ← ofExcept (space.numbers operands)
    ofComponents space values

def deviceColor (space : ColorSpace) (args : Arguments) : Checked Color := do
  let _ ← ofExcept (args.numbers space.components)
  let components ← slice args.operands 0 space.components
  color space components

theorem ofComponents_eq (space : ColorSpace) (values : List Float) :
    ofComponents space values = .gives (space.ofComponents values) := by
  unfold ofComponents
  split
  next base last index =>
    rw [clampIndex_eq]
    rfl
  next => rfl

theorem color_eq (space : ColorSpace) (operands : List Operand) :
    color space operands = ofExcept (space.color operands) := by
  have hnumbers : (do
      let values ← ofExcept (space.numbers operands)
      ofComponents space values) = ofExcept ((space.numbers operands).map space.ofComponents) := by
    cases space.numbers operands with
    | error error => rfl
    | ok values => exact ofComponents_eq space values
  cases space with
  | pattern => rfl
  | patternOver underlying => rfl
  | _ => exact hnumbers

theorem deviceColor_eq (space : ColorSpace) (args : Arguments) :
    deviceColor space args = ofExcept (Operator.deviceColor space args) := by
  rw [deviceColor, Operator.deviceColor, ofExcept_bind]
  cases hnumbers : args.numbers space.components with
  | error error => rfl
  | ok values =>
      have hlength := Arguments.le_length_of_numbers hnumbers
      simp only [ofExcept, gives_bind]
      rw [slice_eq ⟨Nat.zero_le _, hlength⟩, gives_bind, List.drop_zero, color_eq]
      rfl

def moveTextWithLeading (args : Arguments) : Checked (List Operation) := do
  let x ← ofExcept (args.numeric 0)
  let y ← ofExcept (args.numeric 1)
  let leading ← negate y
  return [⟨"TL", [leading]⟩, ⟨"Td", [x, y]⟩]

def nextLineShowText (args : Arguments) : Checked (List Operation) := do
  let _ ← ofExcept (args.string 0)
  let shown ← slice args.operands 0 1
  return [⟨"T*", []⟩, ⟨"Tj", shown⟩]

def spacedNextLineShowText (args : Arguments) : Checked (List Operation) := do
  let word ← ofExcept (args.numeric 0)
  let character ← ofExcept (args.numeric 1)
  let _ ← ofExcept (args.string 2)
  let shown ← slice args.operands 2 3
  return [⟨"Tw", [word]⟩, ⟨"Tc", [character]⟩, ⟨"'", shown⟩]

theorem moveTextWithLeading_eq (args : Arguments) : moveTextWithLeading args = ofExcept (do
    let x ← args.numeric 0
    let y ← args.numeric 1
    return [⟨"TL", [Operator.negate y]⟩, ⟨"Td", [x, y]⟩]) := by
  rw [moveTextWithLeading]
  cases args.numeric 0 with
  | error error => rfl
  | ok x =>
      cases args.numeric 1 with
      | error error => rfl
      | ok y =>
          simp only [ofExcept, gives_bind, negate_eq]
          rfl

theorem nextLineShowText_eq (args : Arguments) : nextLineShowText args = ofExcept (do
    let _ ← args.string 0
    return [⟨"T*", []⟩, ⟨"Tj", args.operands.take 1⟩]) := by
  rw [nextLineShowText]
  cases htext : args.string 0 with
  | error error => rfl
  | ok text =>
      have hlength := Arguments.lt_length_of_get htext
      simp only [ofExcept, gives_bind, slice_eq ⟨Nat.zero_le 1, hlength⟩, List.drop_zero]
      rfl

theorem spacedNextLineShowText_eq (args : Arguments) : spacedNextLineShowText args = ofExcept (do
    let word ← args.numeric 0
    let character ← args.numeric 1
    let _ ← args.string 2
    return [⟨"Tw", [word]⟩, ⟨"Tc", [character]⟩, ⟨"'", (args.operands.drop 2).take 1⟩]) := by
  rw [spacedNextLineShowText]
  cases args.numeric 0 with
  | error error => rfl
  | ok word =>
      cases args.numeric 1 with
      | error error => rfl
      | ok character =>
          cases htext : args.string 2 with
          | error error => rfl
          | ok text =>
              have hlength := Arguments.lt_length_of_get htext
              simp only [ofExcept, gives_bind, slice_eq ⟨(by decide : 2 ≤ 3), hlength⟩,
                List.drop_take]
              rfl

def beginCompatibility (state : PageState) : Checked PageState := do
  let depth ← address (state.compatibilityDepth + 1)
  return { state with compatibilityDepth := depth }

def replying {α : Type} (state : PageState) (reply : α → Reply Operator) :
    Checked α → Checked (Reply Operator)
  | .panics => .panics
  | .fails error => .gives (.failed state error)
  | .gives value => .gives (reply value)

abbrev Action := PageState → Arguments → Checked (Reply Operator)

def expanding (expansion : Arguments → Checked (List Operation)) : Action :=
  fun state args => (expansion args).replying state .expands

def coloring (use : Operator.Use) : Action := fun state args =>
  (color (use.space state.graphics) args.operands).replying state fun color =>
    .done (state.withGraphics (use.withColor state.graphics color)) []

def device (use : Operator.Use) (space : ColorSpace) : Action := fun state args =>
  (deviceColor space args).replying state fun color =>
    .done (state.withGraphics (use.withColor (use.withSpace state.graphics space) color)) []

def actions : List (String × Action) :=
  [("TD", expanding moveTextWithLeading), ("'", expanding nextLineShowText),
    ("\"", expanding spacedNextLineShowText),
    ("SC", coloring .stroke), ("SCN", coloring .stroke), ("sc", coloring .fill),
    ("scn", coloring .fill),
    ("G", device .stroke .deviceGray), ("g", device .fill .deviceGray),
    ("RG", device .stroke .deviceRGB), ("rg", device .fill .deviceRGB),
    ("K", device .stroke .deviceCMYK), ("k", device .fill .deviceCMYK),
    ("BX", fun state _ => (beginCompatibility state).replying state (.done · []))]

def act (operator : Operator) (resources : Resources) (state : PageState)
    (operands : List Operand) : Checked (Reply Operator) :=
  match actions.lookup operator.name with
  | some action => action state ⟨operator.name, operands⟩
  | none => .gives (operator.action resources state operands)

section Actions

variable (resources : Resources) (state : PageState) (operands : List Operand)

private theorem expanding_eq {name : String} {shape : Shape}
    {expansion : Arguments → Checked (List Operation)}
    {other : PageState → Arguments → Except Error (List Operation)}
    (h : ∀ state args, expansion args = ofExcept (other state args)) :
    expanding expansion state ⟨name, operands⟩ =
      .gives ((Operator.expanding name shape other).action resources state operands) := by
  simp only [expanding, Operator.expanding, h state]
  cases other state ⟨name, operands⟩ <;> rfl

private theorem coloring_eq (name : String) (use : Operator.Use) :
    coloring use state ⟨name, operands⟩ =
      .gives ((Operator.color name use).action resources state operands) := by
  simp only [coloring, color_eq, Operator.color, Operator.painting, Operator.updating]
  cases (use.space state.graphics).color operands <;> rfl

private theorem device_eq (name : String) (shape : Shape) (use : Operator.Use)
    (space : ColorSpace) :
    device use space state ⟨name, operands⟩ =
      .gives ((Operator.device name shape use space).action resources state operands) := by
  simp only [device, deviceColor_eq, Operator.device, Operator.painting, Operator.updating]
  cases Operator.deviceColor space ⟨name, operands⟩ <;> rfl

private theorem beginCompatibility_eq (h : state.compatibilityDepth + 1 < 2 ^ 64) :
    (beginCompatibility state).replying state (.done · []) =
      .gives (Operator.beginCompatibility.action resources state operands) := by
  rw [beginCompatibility, address_eq h]
  rfl

private theorem act_of_lookup_none {operator : Operator}
    (h : operator.name ∉ actions.map Prod.fst) :
    act operator resources state operands =
      .gives (operator.action resources state operands) := by
  have hnone : actions.lookup operator.name = none := by
    refine List.lookup_eq_none_iff.2 fun entry hentry => ?_
    have hne : operator.name ≠ entry.1 := fun heq =>
      h (heq ▸ List.mem_map_of_mem hentry)
    simpa using hne
  rw [act, hnone]

theorem act_eq {name : String} {operator : Operator}
    (hfound : Operator.builtIn? name = some operator)
    (hdepth : name = "BX" → state.compatibilityDepth + 1 < 2 ^ 64) :
    act operator resources state operands =
      .gives (operator.action resources state operands) := by
  have hname : operator.name = name := by simpa using List.find?_some hfound
  -- Operators that are not in the table do nothing that is checked.
  by_cases hmem : name ∈ actions.map Prod.fst
  · simp only [actions, List.map_cons, List.map_nil, List.mem_cons, List.not_mem_nil,
      or_false] at hmem
    rcases hmem with rfl | rfl | rfl | rfl | rfl | rfl | rfl | rfl | rfl | rfl | rfl | rfl | rfl |
      rfl <;> obtain rfl := Option.some.inj hfound
    · exact expanding_eq resources state operands fun _ => moveTextWithLeading_eq
    · exact expanding_eq resources state operands fun _ => nextLineShowText_eq
    · exact expanding_eq resources state operands fun _ => spacedNextLineShowText_eq
    · exact coloring_eq resources state operands "SC" .stroke
    · exact coloring_eq resources state operands "SCN" .stroke
    · exact coloring_eq resources state operands "sc" .fill
    · exact coloring_eq resources state operands "scn" .fill
    · exact device_eq resources state operands "G" .singleNumeric .stroke .deviceGray
    · exact device_eq resources state operands "g" .singleNumeric .fill .deviceGray
    · exact device_eq resources state operands "RG" .generic .stroke .deviceRGB
    · exact device_eq resources state operands "rg" .generic .fill .deviceRGB
    · exact device_eq resources state operands "K" .generic .stroke .deviceCMYK
    · exact device_eq resources state operands "k" .generic .fill .deviceCMYK
    · exact beginCompatibility_eq resources state operands (hdepth rfl)
  · exact act_of_lookup_none resources state operands (hname ▸ hmem)

end Actions

end Checked

end ContentStream
