import ContentStream.Graphics.Parameters
import ContentStream.Proofs.Result

/-!
# What dictionaries of parameters leave alone

What no single parameter changes in a graphics state, a dictionary does not change
either.  No parameter sets the leading.
-/

namespace ContentStream.GraphicsState

theorem view_withEntries {α : Type} (view : GraphicsState → α)
    (hview : ∀ {graphics next : GraphicsState} {key value},
      graphics.withParameter key value = .ok next → view next = view graphics)
    {name : String} {entries : Dictionary} {graphics next : GraphicsState}
    (h : graphics.withEntries name entries = .ok next) : view next = view graphics := by
  induction entries generalizing graphics with
  | nil =>
      obtain rfl := Except.ok.inj h
      rfl
  | cons entry entries ih =>
      rw [withEntries] at h
      split at h
      next middle hmiddle => rw [ih h, hview hmiddle]
      next => simp at h

theorem leading_withParameter {graphics next : GraphicsState} {key : String} {value : Operand}
    (h : graphics.withParameter key value = .ok next) :
    next.text.leading = graphics.text.leading := by
  unfold withParameter at h
  dsimp only at h
  split at h
  case h_16 =>
    obtain rfl := Except.ok.inj h
    rfl
  all_goals
    obtain ⟨x, -, rfl⟩ := Result.map_eq_ok.1 h
    rfl

end ContentStream.GraphicsState
