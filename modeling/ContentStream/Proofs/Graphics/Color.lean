import ContentStream.Graphics.Color
import ContentStream.Proofs.Result
import Mathlib.Data.List.Basic

/-!
# Colors of a space

A space holds only colors of its own form, with as many components as it has.  Its
initial color and every color that it makes of operands are of this form, and it makes
a color of just those operand lists that have the right length and kinds.
-/

namespace ContentStream

theorem Operand.isNumber_iff_number? (value : Operand) :
    value.isNumber = true ↔ ∃ x, value.number? = some x := by
  cases value <;> simp [isNumber, number?]

theorem Operand.name?_eq_some_iff {value : Operand} {text : String} :
    value.name? = some text ↔ value = .name text := by
  cases value <;> simp [name?]

namespace ColorSpace

/-- The colors that may be current while the space is. -/
def Holds (space : ColorSpace) (color : Color) : Prop :=
  match space with
  | .deviceGray => ∃ level, color = .gray level
  | .deviceRGB => ∃ red green blue, color = .rgb red green blue
  | .deviceCMYK => ∃ cyan magenta yellow black, color = .cmyk cyan magenta yellow black
  | .cieBased _ _ | .indexed _ _ | .separation _ | .deviceN _ =>
    ∃ values, color = .other values ∧ values.length = space.components
  | .pattern | .patternOver _ => color = .pattern none [] ∨
    ∃ name values, color = .pattern (some name) values ∧ values.length = space.components

def AreComponents (space : ColorSpace) (operands : List Operand) : Prop :=
  operands.length = space.components ∧ ∀ operand ∈ operands, operand.isNumber = true

/-- The operands of a color of the space: numbers, and for patterns one name after them. -/
def Suits (space : ColorSpace) (operands : List Operand) : Prop :=
  match space with
  | .pattern | .patternOver _ =>
    ∃ numbers name, operands = numbers ++ [.name name] ∧ space.AreComponents numbers
  | _ => space.AreComponents operands

theorem holds_initialColor (space : ColorSpace) : space.Holds space.initialColor := by
  cases space with
  | deviceGray => exact ⟨_, rfl⟩
  | deviceRGB => exact ⟨_, _, _, rfl⟩
  | deviceCMYK => exact ⟨_, _, _, _, rfl⟩
  | cieBased family components => exact ⟨_, rfl, List.length_replicate⟩
  | indexed base last => exact ⟨_, rfl, rfl⟩
  | separation colorant => exact ⟨_, rfl, rfl⟩
  | deviceN colorants => exact ⟨_, rfl, List.length_replicate⟩
  | pattern => exact .inl rfl
  | patternOver underlying => exact .inl rfl

theorem exists_numbers_iff (space : ColorSpace) (operands : List Operand) :
    (∃ values, space.numbers operands = .ok values) ↔ space.AreComponents operands := by
  unfold numbers AreComponents
  by_cases hlength : operands.length = space.components
  · rw [if_pos hlength, Result.exists_mapM_eq_ok_iff]
    constructor
    · intro h
      refine ⟨hlength, fun operand hmem => ?_⟩
      obtain ⟨value, hvalue⟩ := h operand hmem
      split at hvalue
      next number hnumber => exact (Operand.isNumber_iff_number? operand).2 ⟨number, hnumber⟩
      next => simp [fail] at hvalue
    · rintro ⟨-, h⟩ operand hmem
      obtain ⟨number, hnumber⟩ := (Operand.isNumber_iff_number? operand).1 (h operand hmem)
      rw [hnumber]
      exact ⟨number, rfl⟩
  · rw [if_neg hlength]
    simp [hlength, fail]

theorem length_of_numbers {space : ColorSpace} {operands : List Operand} {values : List Float}
    (h : space.numbers operands = .ok values) : values.length = space.components := by
  unfold numbers at h
  split at h
  next hlength => rw [Result.length_of_mapM_eq_ok h, hlength]
  next => simp [fail] at h

/-! ## Colors made of operands -/

private theorem patternColor_eq_ok {space : ColorSpace} {operands : List Operand} {color : Color}
    (h : space.patternColor operands = .ok color) :
    ∃ numbers name values, operands = numbers ++ [.name name] ∧
      space.numbers numbers = .ok values ∧ color = .pattern (some name) values := by
  unfold patternColor at h
  split at h
  next => simp [fail] at h
  next last hlast =>
    split at h
    next => simp [fail] at h
    next name hname =>
      obtain ⟨values, hvalues, rfl⟩ := Result.map_eq_ok.1 h
      obtain rfl := Operand.name?_eq_some_iff.1 hname
      exact ⟨operands.dropLast, name, values, (List.dropLast_append_getLast? _ hlast).symm,
        hvalues, rfl⟩

private theorem patternColor_append {space : ColorSpace} {numbers : List Operand}
    {values : List Float} (h : space.numbers numbers = .ok values) (name : String) :
    space.patternColor (numbers ++ [.name name]) = .ok (.pattern (some name) values) := by
  simp [patternColor, Operand.name?, h, Except.map]

theorem holds_color {space : ColorSpace} {operands : List Operand} {color : Color}
    (h : space.color operands = .ok color) : space.Holds color := by
  have hpattern : ∀ {space : ColorSpace}, space.patternColor operands = .ok color →
      ∃ name values, color = .pattern (some name) values ∧ values.length = space.components := by
    intro space h
    obtain ⟨numbers, name, values, -, hvalues, rfl⟩ := patternColor_eq_ok h
    exact ⟨name, values, rfl, length_of_numbers hvalues⟩
  cases space with
  | pattern => exact .inr (hpattern h)
  | patternOver underlying => exact .inr (hpattern h)
  | deviceGray =>
      obtain ⟨values, hvalues, rfl⟩ := Result.map_eq_ok.1 h
      match values, length_of_numbers hvalues with
      | [level], _ => exact ⟨level, rfl⟩
  | deviceRGB =>
      obtain ⟨values, hvalues, rfl⟩ := Result.map_eq_ok.1 h
      match values, length_of_numbers hvalues with
      | [red, green, blue], _ => exact ⟨red, green, blue, rfl⟩
  | deviceCMYK =>
      obtain ⟨values, hvalues, rfl⟩ := Result.map_eq_ok.1 h
      match values, length_of_numbers hvalues with
      | [cyan, magenta, yellow, black], _ => exact ⟨cyan, magenta, yellow, black, rfl⟩
  | indexed base last =>
      obtain ⟨values, hvalues, rfl⟩ := Result.map_eq_ok.1 h
      match values, length_of_numbers hvalues with
      | [index], _ => exact ⟨[clampIndex last index], rfl, rfl⟩
  | cieBased family components =>
      obtain ⟨values, hvalues, rfl⟩ := Result.map_eq_ok.1 h
      exact ⟨values, rfl, length_of_numbers hvalues⟩
  | separation colorant =>
      obtain ⟨values, hvalues, rfl⟩ := Result.map_eq_ok.1 h
      exact ⟨values, rfl, length_of_numbers hvalues⟩
  | deviceN colorants =>
      obtain ⟨values, hvalues, rfl⟩ := Result.map_eq_ok.1 h
      exact ⟨values, rfl, length_of_numbers hvalues⟩

theorem name_mem_of_color {space : ColorSpace} {operands : List Operand} {name : String}
    {values : List Float} (h : space.color operands = .ok (.pattern (some name) values)) :
    .name name ∈ operands := by
  have hpattern : ∀ {space : ColorSpace},
      space.patternColor operands = .ok (.pattern (some name) values) → .name name ∈ operands := by
    intro space h
    obtain ⟨numbers, last, components, rfl, -, hcolor⟩ := patternColor_eq_ok h
    obtain ⟨rfl⟩ := Option.some.inj (Color.pattern.inj hcolor).1
    simp
  cases space with
  | pattern => exact hpattern h
  | patternOver underlying => exact hpattern h
  | _ => simpa [Holds] using holds_color h

private theorem exists_patternColor_iff (space : ColorSpace) (operands : List Operand) :
    (∃ color, space.patternColor operands = .ok color) ↔
      ∃ numbers name, operands = numbers ++ [.name name] ∧ space.AreComponents numbers := by
  constructor
  · rintro ⟨color, h⟩
    obtain ⟨numbers, name, values, hoperands, hvalues, -⟩ := patternColor_eq_ok h
    exact ⟨numbers, name, hoperands, (exists_numbers_iff space numbers).1 ⟨values, hvalues⟩⟩
  · rintro ⟨numbers, name, rfl, hnumbers⟩
    obtain ⟨values, hvalues⟩ := (exists_numbers_iff space numbers).2 hnumbers
    exact ⟨_, patternColor_append hvalues name⟩

theorem exists_color_iff (space : ColorSpace) (operands : List Operand) :
    (∃ color, space.color operands = .ok color) ↔ space.Suits operands := by
  cases space with
  | pattern => exact exists_patternColor_iff _ operands
  | patternOver underlying => exact exists_patternColor_iff _ operands
  | _ => exact (Result.exists_map_eq_ok_iff _).trans (exists_numbers_iff _ operands)

def families : List String :=
  ["DeviceGray", "DeviceRGB", "DeviceCMYK", "CalGray", "CalRGB", "Lab", "ICCBased", "Indexed",
    "Separation", "DeviceN", "Pattern"]

variable {space : ColorSpace}

theorem family_mem_of_ofName? {name : String} (h : ofName? name = some space) :
    space.family ∈ families := by
  unfold ofName? at h
  split_ifs at h
  all_goals
    obtain rfl := Option.some.inj h
    decide

theorem family_mem_of_ofArray? {operands : List Operand} (h : ofArray? operands = some space) :
    space.family ∈ families := by
  cases operands with
  | nil => simp [ofArray?] at h
  | cons first items =>
      simp only [ofArray?] at h
      obtain ⟨name, -, h⟩ := Option.bind_eq_some_iff.1 h
      split at h
      next hname =>
        obtain rfl := Option.some.inj h
        simp [family, families, hname]
      split at h
      next hname =>
        obtain rfl := Option.some.inj h
        simp only [Bool.or_eq_true, decide_eq_true_eq] at hname
        rcases hname with rfl | rfl <;> decide
      split at h
      next hname =>
        obtain ⟨count, -, rfl⟩ := Option.map_eq_some_iff.1 h
        simp [family, families, hname]
      split at h
      next =>
        obtain ⟨base, -, h⟩ := Option.bind_eq_some_iff.1 h
        obtain ⟨item, -, h⟩ := Option.bind_eq_some_iff.1 h
        obtain ⟨last, -, h⟩ := Option.bind_eq_some_iff.1 h
        obtain rfl := Option.some.inj h
        simp [family, families]
      split at h
      next =>
        obtain ⟨colorant, -, rfl⟩ := Option.map_eq_some_iff.1 h
        simp [family, families]
      split at h
      next =>
        obtain ⟨names, -, h⟩ := Option.bind_eq_some_iff.1 h
        obtain ⟨colorants, -, rfl⟩ := Option.map_eq_some_iff.1 h
        simp [family, families]
      split at h
      next =>
        split at h
        next =>
          obtain rfl := Option.some.inj h
          decide
        next =>
          obtain ⟨base, -, rfl⟩ := Option.map_eq_some_iff.1 h
          simp [family, families]
      split at h
      next => exact family_mem_of_ofName? h
      next => contradiction

theorem family_mem_of_ofOperand? {operand : Operand} (h : ofOperand? operand = some space) :
    space.family ∈ families := by
  cases operand with
  | name text => exact family_mem_of_ofName? (by simpa only [ofOperand?] using h)
  | array items => exact family_mem_of_ofArray? (by simpa only [ofOperand?] using h)
  | _ => simp [ofOperand?] at h

end ColorSpace

end ContentStream
