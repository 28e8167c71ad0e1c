import ContentStream.Graphics.Parameters
import ContentStream.Proofs.Result
import ContentStream.Resources

/-!
# Stroking and filling exchanged

The mirror of a graphics state exchanges what is set for strokes and what is set for
fills; the mirror of resources exchanges the two keys that set alpha values in every
dictionary of parameters.  Applying a mirrored dictionary gives the mirrored state.
-/

namespace ContentStream

namespace GraphicsState

def mirror (graphics : GraphicsState) : GraphicsState :=
  { graphics with
    strokeAlpha := graphics.fillAlpha
    fillAlpha := graphics.strokeAlpha
    strokeSpace := graphics.fillSpace
    strokeColor := graphics.fillColor
    fillSpace := graphics.strokeSpace
    fillColor := graphics.strokeColor }

end GraphicsState

def mirrorKey (key : String) : String :=
  if key = "CA" then "ca" else if key = "ca" then "CA" else key

def Dictionary.mirror (entries : Dictionary) : Dictionary :=
  entries.map fun entry => (mirrorKey entry.1, entry.2)

namespace GraphicsState

theorem withParameter_mirror (graphics : GraphicsState) (key : String) (value : Operand) :
    graphics.mirror.withParameter (mirrorKey key) value =
      (graphics.withParameter key value).map mirror := by
  by_cases hstroke : key = "CA"
  · subst hstroke
    show (demand .number value.number?).map (fun x => { graphics.mirror with fillAlpha := x }) =
      ((demand .number value.number?).map fun x => { graphics with strokeAlpha := x }).map mirror
    rw [Result.map_map]
    rfl
  by_cases hfill : key = "ca"
  · subst hfill
    show (demand .number value.number?).map (fun x => { graphics.mirror with strokeAlpha := x }) =
      ((demand .number value.number?).map fun x => { graphics with fillAlpha := x }).map mirror
    rw [Result.map_map]
    rfl
  rw [mirrorKey, if_neg hstroke, if_neg hfill]
  unfold withParameter
  dsimp only
  split
  case h_9 => exact absurd rfl hstroke
  case h_10 => exact absurd rfl hfill
  case h_16 => rfl
  all_goals
    rw [Result.map_map]
    rfl

theorem withEntries_mirror (name : String) (graphics : GraphicsState) (entries : Dictionary) :
    (graphics.mirror.withEntries name (Dictionary.mirror entries)).toOption =
      (graphics.withEntries name entries).toOption.map mirror := by
  induction entries generalizing graphics with
  | nil => rfl
  | cons entry entries ih =>
      obtain ⟨key, value⟩ := entry
      rw [Dictionary.mirror, List.map_cons, withEntries, withEntries, withParameter_mirror]
      cases graphics.withParameter key value with
      | error form => rfl
      | ok next => exact ih next

end GraphicsState

namespace Dictionary

def mapValues (f : String → Operand → Operand) (entries : Dictionary) : Dictionary :=
  entries.map fun entry => (entry.1, f entry.1 entry.2)

theorem get?_mapValues (f : String → Operand → Operand) (entries : Dictionary) (key : String) :
    get? (mapValues f entries) key = (get? entries key).map (f key) := by
  unfold get? mapValues
  induction entries with
  | nil => rfl
  | cons entry entries ih =>
      rw [List.map_cons, List.lookup_cons, List.lookup_cons]
      by_cases hkey : key = entry.1
      · simp [hkey]
      · simpa [beq_eq_false_iff_ne.2 hkey] using ih

end Dictionary

namespace Operand

def mirrorParameters : Operand → Operand
  | .dictionary entries => .dictionary (Dictionary.mirror entries)
  | value => value

def mirrorCategory : Operand → Operand
  | .dictionary entries => .dictionary (Dictionary.mapValues (fun _ => mirrorParameters) entries)
  | value => value

end Operand

namespace Resources

def mirror (resources : Resources) : Resources :=
  ⟨Dictionary.mapValues (fun category value =>
    if category = "ExtGState" then value.mirrorCategory else value) resources.categories⟩

theorem lookup_mirror_of_ne (resources : Resources) {category : String}
    (h : category ≠ "ExtGState") (name : String) :
    resources.mirror.lookup category name = resources.lookup category name := by
  unfold lookup mirror
  simp [Dictionary.get?_mapValues, h]

theorem lookup_mirror (resources : Resources) (name : String) :
    resources.mirror.lookup "ExtGState" name =
      (resources.lookup "ExtGState" name).map Operand.mirrorParameters := by
  unfold lookup mirror
  dsimp only
  rw [Dictionary.get?_mapValues]
  cases Dictionary.get? resources.categories "ExtGState" with
  | none => rfl
  | some value =>
      cases value with
      | dictionary entries =>
          simp only [Option.map_some, if_true, Operand.mirrorCategory, Dictionary.get?_mapValues]
          cases Dictionary.get? entries name <;> rfl
      | _ => rfl

@[simp] theorem colorSpace_mirror (resources : Resources) (name : String) :
    resources.mirror.colorSpace name = resources.colorSpace name := by
  unfold colorSpace
  rw [lookup_mirror_of_ne resources (by decide)]

theorem parameters_mirror (resources : Resources) (name : String) :
    resources.mirror.parameters name = (resources.parameters name).map Dictionary.mirror := by
  unfold parameters
  rw [lookup_mirror]
  cases resources.lookup "ExtGState" name with
  | error error => rfl
  | ok value => cases value <;> rfl

end Resources

end ContentStream
