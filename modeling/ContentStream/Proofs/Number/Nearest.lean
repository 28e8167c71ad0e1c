import ContentStream.Number.Binary
import Mathlib.Algebra.Order.Field.Power
import Mathlib.Data.Int.Log
import Mathlib.Data.Rat.Floor
import Mathlib.Tactic.Positivity
import Mathlib.Tactic.Ring

/-!
# Rounding to the nearest word

`Format.nearest` depends on the value of a quotient only, not on the numerator and
denominator that give it.  The value of a finite word is rounded to that word.
-/

namespace ContentStream.Binary

theorem roundQuotient_mul_left {k : Nat} (hk : 0 < k) (n d : Nat) :
    roundQuotient (k * n) (k * d) = roundQuotient n d := by
  unfold roundQuotient
  rw [Nat.mul_div_mul_left n d hk, Nat.mul_mod_mul_left]
  have hlt : 2 * (k * (n % d)) < k * d ↔ 2 * (n % d) < d := by
    rw [show 2 * (k * (n % d)) = k * (2 * (n % d)) by ring]
    exact Nat.mul_lt_mul_left hk
  have heq : 2 * (k * (n % d)) = k * d ↔ 2 * (n % d) = d := by
    rw [show 2 * (k * (n % d)) = k * (2 * (n % d)) by ring]
    exact Nat.mul_right_inj (by omega)
  simp only [hlt, heq]

theorem roundQuotient_congr {n d n' d' : Nat} (hd : 0 < d) (hd' : 0 < d')
    (h : n * d' = n' * d) : roundQuotient n d = roundQuotient n' d' := by
  calc
    roundQuotient n d = roundQuotient (d' * n) (d' * d) :=
      (roundQuotient_mul_left hd' n d).symm
    _ = roundQuotient (d * n') (d * d') := by
      rw [Nat.mul_comm d' n, h, Nat.mul_comm n' d, Nat.mul_comm d' d]
    _ = roundQuotient n' d' := roundQuotient_mul_left hd n' d'

theorem roundQuotient_mul_self {d : Nat} (hd : 0 < d) (n : Nat) :
    roundQuotient (n * d) d = n := by
  simp [roundQuotient, Nat.mul_div_cancel n hd, hd]

theorem scale_lt_iff (n d : Nat) (hd : 0 < d) (e : Int) :
    n * Nat.pow 2 (-e).toNat < d * Nat.pow 2 e.toNat ↔ (n : ℚ) / d < 2 ^ e := by
  have hdq : (0 : ℚ) < d := by exact_mod_cast hd
  have hsplit : (2 : ℚ) ^ e * 2 ^ (-e).toNat = 2 ^ e.toNat := by
    rw [← zpow_natCast, ← zpow_natCast, ← zpow_add₀ (by norm_num)]
    congr 1
    omega
  have hpos : (0 : ℚ) < 2 ^ (-e).toNat := by positivity
  rw [div_lt_iff₀ hdq, ← mul_lt_mul_iff_left₀ hpos]
  rw [show (2 : ℚ) ^ e * d * 2 ^ (-e).toNat = d * (2 ^ e * 2 ^ (-e).toNat) by ring, hsplit]
  simp only [Nat.pow_eq]
  exact_mod_cast Iff.rfl

private theorem log2_bounds {n : Nat} (hn : 0 < n) :
    (2 : ℚ) ^ (n.log2 : Int) ≤ n ∧ (n : ℚ) < 2 ^ ((n.log2 : Int) + 1) := by
  constructor
  · rw [zpow_natCast]
    exact_mod_cast Nat.log2_self_le (by omega)
  · rw [show (n.log2 : Int) + 1 = ((n.log2 + 1 : Nat) : Int) by norm_cast, zpow_natCast]
    exact_mod_cast Nat.lt_log2_self

private theorem quotient_bounds {n d : Nat} (hn : 0 < n) (hd : 0 < d) :
    (2 : ℚ) ^ ((n.log2 : Int) - d.log2 - 1) ≤ (n : ℚ) / d ∧
      (n : ℚ) / d < 2 ^ ((n.log2 : Int) - d.log2 + 1) := by
  have hdq : (0 : ℚ) < d := by exact_mod_cast hd
  obtain ⟨hnlow, hnhigh⟩ := log2_bounds hn
  obtain ⟨hdlow, hdhigh⟩ := log2_bounds hd
  constructor
  · rw [le_div_iff₀ hdq]
    calc
      (2 : ℚ) ^ ((n.log2 : Int) - d.log2 - 1) * d
        ≤ 2 ^ ((n.log2 : Int) - d.log2 - 1) * 2 ^ ((d.log2 : Int) + 1) := by gcongr
      _ = 2 ^ (n.log2 : Int) := by
        rw [← zpow_add₀ (by norm_num)]
        congr 1
        ring
      _ ≤ n := hnlow
  · rw [div_lt_iff₀ hdq]
    calc
      (n : ℚ) < 2 ^ ((n.log2 : Int) + 1) := hnhigh
      _ = 2 ^ ((n.log2 : Int) - d.log2 + 1) * 2 ^ (d.log2 : Int) := by
        rw [← zpow_add₀ (by norm_num)]
        congr 1
        ring
      _ ≤ 2 ^ ((n.log2 : Int) - d.log2 + 1) * d := by gcongr

theorem floorLog2_eq_log {n d : Nat} (hn : 0 < n) (hd : 0 < d) :
    floorLog2 n d = Int.log 2 ((n : ℚ) / d) := by
  have hvalue : (0 : ℚ) < (n : ℚ) / d := by positivity
  obtain ⟨hlow, hhigh⟩ := quotient_bounds hn hd
  have hlow' := (Int.zpow_le_iff_le_log (b := 2) (by norm_num) hvalue).1 hlow
  have hhigh' := (Int.lt_zpow_iff_log_lt (b := 2) (by norm_num) hvalue).1 hhigh
  -- The difference of the lengths is the logarithm or one more, which the test decides.
  unfold floorLog2
  simp only
  split
  next hlt =>
    have hbelow := (scale_lt_iff n d hd _).1 hlt
    have := (Int.lt_zpow_iff_log_lt (b := 2) (by norm_num) hvalue).1 hbelow
    omega
  next hge =>
    have habove := not_lt.1 (mt (scale_lt_iff n d hd _).2 hge)
    have := (Int.zpow_le_iff_le_log (b := 2) (by norm_num) hvalue).1 habove
    omega

theorem floorLog2_congr {n d n' d' : Nat} (hn : 0 < n) (hd : 0 < d) (hn' : 0 < n')
    (hd' : 0 < d') (h : n * d' = n' * d) : floorLog2 n d = floorLog2 n' d' := by
  have hvalue : (n : ℚ) / d = (n' : ℚ) / d' := by
    rw [div_eq_div_iff (by positivity) (by positivity)]
    exact_mod_cast h
  rw [floorLog2_eq_log hn hd, floorLog2_eq_log hn' hd', hvalue]

/-! ## Rounding to a word -/

namespace Format

variable (format : Format)

theorem nearest_congr {n d n' d' : Nat} (hd : 0 < d) (hd' : 0 < d')
    (h : n * d' = n' * d) : format.nearest n d = format.nearest n' d' := by
  unfold nearest
  by_cases hn : n = 0
  · have hn' : n' = 0 := by
      subst hn
      simpa [Nat.pos_iff_ne_zero.1 hd] using h.symm
    simp [hn, hn']
  · have hn' : n' ≠ 0 := by
      rintro rfl
      have := Nat.mul_pos (Nat.pos_of_ne_zero hn) hd'
      omega
    have hexponent : format.exponentFor n d = format.exponentFor n' d' := by
      unfold exponentFor
      rw [floorLog2_congr (Nat.pos_of_ne_zero hn) hd (Nat.pos_of_ne_zero hn') hd' h]
    have hscaled : ∀ a b : Nat, n * a * (d' * b) = n' * a * (d * b) := by
      intro a b
      calc
        n * a * (d' * b) = n * d' * (a * b) := by ring
        _ = n' * d * (a * b) := by rw [h]
        _ = n' * a * (d * b) := by ring
    simp only [if_neg hn, if_neg hn', hexponent, Nat.pow_eq]
    rw [roundQuotient_congr (by positivity) (by positivity) (hscaled _ _)]

theorem fractions_pos : 0 < format.fractions :=
  Nat.pow_pos (by decide)

theorem denominator_pos (word : Nat) : 0 < format.denominator word :=
  Nat.pow_pos (by decide)

theorem significand_pos {word : Nat} (h : word ≠ 0) : 0 < format.significand word := by
  have := format.fractions_pos
  unfold significand
  split <;> omega

theorem exponent_significand (word : Nat) :
    (word / format.fractions - 1) * format.fractions + format.significand word = word := by
  have hpos := format.fractions_pos
  unfold significand
  split
  next hsmall => simp [Nat.div_eq_of_lt hsmall]
  next hlarge =>
    have hone : 1 ≤ word / format.fractions := Nat.div_pos (by omega) hpos
    have hsplit := Nat.div_add_mod' word format.fractions
    have hmul : (word / format.fractions - 1) * format.fractions + format.fractions =
        word / format.fractions * format.fractions := by
      rw [← Nat.succ_mul]
      congr 1
      omega
    omega

private theorem max_exponent_eq {word : Nat} (hprecision : 1 ≤ format.precision) :
    max format.minExponent
      ((format.significand word).log2 + format.exponent word + 1 - format.precision) =
        format.exponent word := by
  have hpos := format.fractions_pos
  have hfractions : format.fractions = 2 ^ (format.precision - 1) := by
    simp [fractions]
  -- Words of the lowest exponent have short significands; all others fill the precision.
  by_cases hsmall : word < format.fractions
  · have hexponent : format.exponent word = format.minExponent := by
      simp [exponent, Nat.div_eq_of_lt hsmall]
    have hlog : (format.significand word).log2 + 1 ≤ format.precision := by
      by_cases hzero : word = 0
      · simpa [hzero, significand, hpos] using hprecision
      · have hbound : (format.significand word).log2 < format.precision - 1 := by
          rw [Nat.log2_lt (Nat.pos_iff_ne_zero.1 (format.significand_pos hzero)), ← hfractions]
          simp [significand, hsmall]
        omega
    omega
  · have hlog : (format.significand word).log2 = format.precision - 1 := by
      have hmod := Nat.mod_lt word hpos
      have hdouble : 2 ^ (format.precision - 1 + 1) = format.fractions + format.fractions := by
        rw [Nat.pow_succ, ← hfractions]
        omega
      rw [Nat.log2_eq_iff (by simp [significand, hsmall]; omega), hdouble, ← hfractions]
      simp only [significand, if_neg hsmall]
      omega
    have hlow : format.minExponent ≤ format.exponent word := by
      simp [exponent]
    omega

theorem numerator_div_denominator (word : Nat) :
    (format.numerator word : ℚ) / format.denominator word =
      format.significand word * 2 ^ format.exponent word := by
  have hcast : (format.denominator word : ℚ) = 2 ^ (-format.exponent word).toNat := by
    simp [denominator]
  rw [div_eq_iff (by rw [hcast]; positivity), hcast, mul_assoc]
  simp only [numerator, Nat.pow_eq, Nat.cast_mul, Nat.cast_pow, Nat.cast_ofNat]
  rw [← zpow_natCast, ← zpow_natCast, ← zpow_add₀ (by norm_num)]
  congr 2
  omega

private theorem exponentFor_word {word : Nat} (hprecision : 1 ≤ format.precision)
    (hword : word ≠ 0) :
    format.exponentFor (format.numerator word) (format.denominator word) =
      format.exponent word := by
  have hsig := format.significand_pos hword
  have hsigq : (0 : ℚ) < format.significand word := by exact_mod_cast hsig
  have hnumerator : 0 < format.numerator word := Nat.mul_pos hsig (Nat.pow_pos (by decide))
  have hlog : Int.log 2 ((format.significand word : ℚ) * 2 ^ format.exponent word) =
      (format.significand word).log2 + format.exponent word := by
    obtain ⟨hlow, hhigh⟩ := log2_bounds hsig
    have hpos : (0 : ℚ) < format.significand word * 2 ^ format.exponent word := by positivity
    have hle := (Int.zpow_le_iff_le_log (b := 2) (by norm_num) hpos
      (x := (format.significand word).log2 + format.exponent word)).1 (by
        push_cast
        rw [zpow_add₀ (by norm_num)]
        gcongr)
    have hlt := (Int.lt_zpow_iff_log_lt (b := 2) (by norm_num) hpos
      (x := (format.significand word).log2 + 1 + format.exponent word)).1 (by
        push_cast
        rw [zpow_add₀ (by norm_num)]
        gcongr)
    omega
  unfold exponentFor
  rw [floorLog2_eq_log hnumerator (format.denominator_pos word),
    format.numerator_div_denominator, hlog]
  exact format.max_exponent_eq hprecision

theorem nearest_word {word : Nat} (hprecision : 1 ≤ format.precision)
    (h : word < format.infinity) :
    format.nearest (format.numerator word) (format.denominator word) = word := by
  by_cases hword : word = 0
  · subst hword
    simp [nearest, numerator, significand, format.fractions_pos]
  · have hnumerator : format.numerator word ≠ 0 :=
      Nat.pos_iff_ne_zero.1 (Nat.mul_pos (format.significand_pos hword) (Nat.pow_pos (by decide)))
    have hround : roundQuotient
        (format.numerator word * Nat.pow 2 (-format.exponent word).toNat)
        (format.denominator word * Nat.pow 2 (format.exponent word).toNat) =
          format.significand word := by
      rw [numerator, denominator, Nat.mul_assoc, Nat.mul_comm (Nat.pow 2 (-_ : Int).toNat)]
      exact roundQuotient_mul_self (Nat.mul_pos (Nat.pow_pos (by decide))
        (Nat.pow_pos (by decide))) _
    have hoffset : (format.exponent word - format.minExponent).toNat =
        word / format.fractions - 1 := by
      simp [exponent]
    unfold nearest
    simp only [if_neg hnumerator, format.exponentFor_word hprecision hword, hround, hoffset,
      exponent_significand]
    omega

end Format

end ContentStream.Binary
