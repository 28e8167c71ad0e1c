import Mathlib.Tactic.Linarith
import ContentStream.Proofs.Number.Nearest

/-!
# Values of doubles

A finite double stands for a rational number.  It converts to an integer exactly if that
number is one, and then to this integer.
-/

namespace ContentStream.Binary

variable {x : Float} {n : Int}

namespace Format

variable (format : Format) (word : Nat)

/-- The number that a finite word stands for. -/
def value : ℚ :=
  format.significand word * 2 ^ format.exponent word

theorem value_nonneg : 0 ≤ format.value word := by
  unfold value
  positivity

theorem value_eq_natCast_iff (n : Nat) :
    format.value word = n ↔ format.numerator word = n * format.denominator word := by
  have hpos : (0 : ℚ) < format.denominator word := by
    exact_mod_cast format.denominator_pos word
  rw [value, ← format.numerator_div_denominator, div_eq_iff hpos.ne']
  exact_mod_cast Iff.rfl

theorem value_eq_natCast_iff_mod (n : Nat) : format.value word = n ↔
    format.numerator word % format.denominator word = 0 ∧
      format.numerator word / format.denominator word = n := by
  rw [value_eq_natCast_iff]
  constructor
  · intro heq
    rw [heq]
    exact ⟨Nat.mul_mod_left _ _, Nat.mul_div_cancel _ (format.denominator_pos word)⟩
  · rintro ⟨hmod, rfl⟩
    exact (Nat.div_mul_cancel (Nat.dvd_of_mod_eq_zero hmod)).symm

end Format

def value? (x : Float) : Option ℚ :=
  if isFinite x then
    some (if isNegative x then -double.value (word x) else double.value (word x))
  else
    none

def StandsFor (x : Float) (n : Int) : Prop :=
  value? x = some (n : ℚ)

theorem StandsFor.unique {m : Int} (hm : StandsFor x m) (hn : StandsFor x n) : m = n := by
  have heq := Option.some.inj (hm.symm.trans hn)
  exact_mod_cast heq

theorem standsFor_iff : StandsFor x n ↔ isFinite x = true ∧
    double.value (word x) = n.natAbs ∧ (if isNegative x then n ≤ 0 else 0 ≤ n) := by
  have hnonneg := double.value_nonneg (word x)
  unfold StandsFor value?
  by_cases hfinite : isFinite x = true
  swap
  · simp [hfinite]
  rw [if_pos hfinite, Option.some.injEq, and_iff_right hfinite, Nat.cast_natAbs, Int.cast_abs]
  by_cases hsign : isNegative x = true
  · rw [if_pos hsign, if_pos hsign]
    constructor
    · intro h
      have hn : (n : ℚ) ≤ 0 := h ▸ neg_nonpos.2 hnonneg
      rw [abs_of_nonpos hn, ← h, neg_neg]
      exact ⟨rfl, by exact_mod_cast hn⟩
    · rintro ⟨h, hn⟩
      rw [h, abs_of_nonpos (by exact_mod_cast hn), neg_neg]
  · rw [if_neg hsign, if_neg hsign]
    constructor
    · intro h
      have hn : 0 ≤ (n : ℚ) := h ▸ hnonneg
      rw [abs_of_nonneg hn, h]
      exact ⟨rfl, by exact_mod_cast hn⟩
    · rintro ⟨h, hn⟩
      rw [h, abs_of_nonneg (by exact_mod_cast hn)]

/-- A double converts to the integer that it stands for, and to no other. -/
theorem toInt?_eq_some_iff : toInt? x = some n ↔ StandsFor x n := by
  rw [standsFor_iff, Format.value_eq_natCast_iff_mod]
  unfold toInt?
  dsimp only
  split
  next h =>
    rw [Option.some.injEq, and_iff_right h.1, and_iff_right h.2]
    generalize double.numerator (word x) / double.denominator (word x) = magnitude
    split <;> omega
  next h =>
    constructor
    · intro hnone
      contradiction
    · rintro ⟨hfinite, ⟨hmod, -⟩, -⟩
      exact absurd ⟨hfinite, hmod⟩ h

end ContentStream.Binary
