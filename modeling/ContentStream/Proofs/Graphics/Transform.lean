import ContentStream.Graphics.Text
import Mathlib.Algebra.BigOperators.Group.List.Basic
import Mathlib.Tactic.Ring

/-!
# Composed transformations

With exact scalars, transformations form a monoid that acts on points.  A list of
transformations that are each put before the current one acts in the opposite order, and
lines that are offset one after the other are offset by the sum.
-/

namespace ContentStream

variable {R : Type} [CommRing R]

namespace Transform

theorem apply_after (m first : Transform R) (point : R × R) :
    (m.after first).apply point = m.apply (first.apply point) := by
  refine Prod.ext ?_ ?_
  all_goals
    simp only [apply, after]
    ring

theorem after_assoc (m first second : Transform R) :
    (m.after first).after second = m.after (first.after second) := by
  simp only [after, mk.injEq]
  refine ⟨?_, ?_, ?_, ?_, ?_, ?_⟩
  all_goals ring

@[simp] theorem after_identity (m : Transform R) : m.after identity = m := by
  simp [after, identity]

@[simp] theorem identity_after (m : Transform R) : identity.after m = m := by
  simp [after, identity]

theorem shift_zero : shift (0 : R) 0 = identity := rfl

theorem shift_after_shift (x y x' y' : R) :
    (shift x y).after (shift x' y') = shift (x + x') (y + y') := by
  simp [after, shift, add_comm]

theorem apply_foldl_after {α : Type} (f : α → Transform R) (items : List α) (m : Transform R)
    (point : R × R) :
    (items.foldl (fun m item => m.after (f item)) m).apply point =
      m.apply (items.foldr (fun item => (f item).apply) point) := by
  induction items generalizing m with
  | nil => rfl
  | cons item items ih => rw [List.foldl_cons, ih, apply_after, List.foldr_cons]

end Transform

theorem TextPosition.foldl_nextLine (base : Transform R) (offsets : List (R × R)) :
    offsets.foldl (fun position offset => position.nextLine offset.1 offset.2) (place base) =
      place (base.after
        (Transform.shift (offsets.map Prod.fst).sum (offsets.map Prod.snd).sum)) := by
  induction offsets generalizing base with
  | nil => simp [Transform.shift_zero]
  | cons offset offsets ih =>
      rw [List.foldl_cons]
      show offsets.foldl _ (place (base.after (Transform.shift offset.1 offset.2))) = _
      rw [ih, Transform.after_assoc, Transform.shift_after_shift]
      rfl

end ContentStream
