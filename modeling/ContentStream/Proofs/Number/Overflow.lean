import ContentStream.Proofs.Number.Bits
import ContentStream.Proofs.Number.Nearest

/-!
# Decimals that are too large for a double

The greatest finite double is `(2 ^ 53 - 1) * 2 ^ 971`.  A decimal that lies half a unit
above it, or more, is rounded to infinity, since the tie goes to the even significand;
every smaller decimal is rounded to a finite double.  No decimal is rounded to
something that is not a number.
-/

namespace ContentStream.Binary

section RoundQuotient

variable {n d k : Nat}

theorem roundQuotient_le (h : n ≤ k * d) : roundQuotient n d ≤ k := by
  rcases Nat.eq_zero_or_pos d with rfl | hd
  · simp_all [roundQuotient]
  have hquotient : n / d ≤ k := Nat.div_le_of_le_mul (by rwa [Nat.mul_comm])
  unfold roundQuotient
  dsimp only
  split
  next => exact hquotient
  next hup =>
    rcases Nat.lt_or_eq_of_le hquotient with hlt | rfl
    · exact hlt
    · have hmod : n % d = 0 := by
        have := Nat.div_add_mod' n d
        omega
      omega

theorem le_roundQuotient (hd : 0 < d) (h : k * d ≤ n) : k ≤ roundQuotient n d := by
  have hquotient : k ≤ n / d := (Nat.le_div_iff_mul_le hd).2 h
  unfold roundQuotient
  dsimp only
  split <;> omega

theorem roundQuotient_le_iff_of_odd (hd : 0 < d) (hk : k % 2 = 1) :
    roundQuotient n d ≤ k ↔ 2 * n < (2 * k + 1) * d := by
  have hsplit := Nat.div_add_mod' n d
  have hmod := Nat.mod_lt n hd
  have hexpand : (2 * k + 1) * d = 2 * (k * d) + d := by ring
  rcases Nat.lt_trichotomy (n / d) k with hlt | heq | hgt
  · have hbelow : (n / d + 1) * d ≤ k * d := Nat.mul_le_mul_right d hlt
    rw [Nat.succ_mul] at hbelow
    have hle : n ≤ k * d := by omega
    have := roundQuotient_le hle
    omega
  · subst heq
    unfold roundQuotient
    dsimp only
    split <;> omega
  · have habove : (k + 1) * d ≤ n := (Nat.le_div_iff_mul_le hd).1 hgt
    have := le_roundQuotient hd habove
    rw [Nat.succ_mul] at habove
    omega

end RoundQuotient

/-- Half a unit above the greatest finite double. -/
def overflow : Nat :=
  (2 ^ 54 - 1) * 2 ^ 970

private theorem infinity_double : double.infinity = 2047 * 2 ^ 52 := by
  decide

private theorem fractions_double : double.fractions = 2 ^ 52 := by
  decide

private theorem minExponent_double : double.minExponent = -1074 := by
  decide

private theorem nearest_lt_infinity {n d : Nat} (hn : n ≠ 0) :
    double.nearest n d < double.infinity ↔
      (double.exponentFor n d + 1074).toNat * 2 ^ 52 +
        roundQuotient (n * Nat.pow 2 (-double.exponentFor n d).toNat)
          (d * Nat.pow 2 (double.exponentFor n d).toNat) < 2047 * 2 ^ 52 := by
  unfold Format.nearest
  simp only [if_neg hn, infinity_double, fractions_double, minExponent_double]
  omega

private theorem lt_overflow_iff {n d : Nat} (hd : 0 < d) :
    n < overflow * d ↔ (n : ℚ) / d < (2 ^ 54 - 1) * 2 ^ (970 : Int) := by
  have hdq : (0 : ℚ) < d := by exact_mod_cast hd
  have hfactor : ((2 ^ 54 - 1 : Nat) : ℚ) = 2 ^ 54 - 1 := by norm_num
  have hcast : (overflow : ℚ) = (2 ^ 54 - 1) * 2 ^ (970 : Int) := by
    rw [overflow, Nat.cast_mul, hfactor, Nat.cast_pow, Nat.cast_ofNat]
    rfl
  rw [div_lt_iff₀ hdq, ← hcast]
  exact_mod_cast Iff.rfl

private theorem scaled_lt_iff {n d k : Nat} (hd : 0 < d) (hk : 0 < k) (e : Int) :
    n * Nat.pow 2 (-e).toNat < k * (d * Nat.pow 2 e.toNat) ↔ (n : ℚ) / d < k * 2 ^ e := by
  have hkq : (0 : ℚ) < k := by exact_mod_cast hk
  have h := scale_lt_iff n (k * d) (Nat.mul_pos hk hd) e
  rw [Nat.mul_assoc, Nat.cast_mul, mul_comm (k : ℚ) d, ← div_div, div_lt_iff₀ hkq] at h
  rw [h, mul_comm]

private theorem roundQuotient_greatest_iff {n d : Nat} (hd : 0 < d) :
    roundQuotient (n * Nat.pow 2 (-971 : Int).toNat) (d * Nat.pow 2 (971 : Int).toNat) ≤
        2 ^ 53 - 1 ↔
      (n : ℚ) / d < (2 ^ 54 - 1) * 2 ^ (970 : Int) := by
  -- One more power of two in the denominator is the factor two of the tie.
  have hdouble : d * Nat.pow 2 (971 : Int).toNat = 2 * (d * Nat.pow 2 (970 : Int).toNat) := by
    rw [show (971 : Int).toNat = (970 : Int).toNat + 1 from rfl, Nat.pow_eq, Nat.pow_eq,
      Nat.pow_succ]
    ring
  have hpos : ∀ e : Int, 0 < d * Nat.pow 2 e.toNat := fun e =>
    Nat.mul_pos hd (Nat.pow_pos (by decide))
  have hfactor : ((2 ^ 54 - 1 : Nat) : ℚ) = 2 ^ 54 - 1 := by norm_num
  have hscaled := scaled_lt_iff (n := n) hd (by decide : 0 < 2 ^ 54 - 1) 970
  rw [hfactor] at hscaled
  rw [roundQuotient_le_iff_of_odd (hpos 971) (by decide), ← hscaled, hdouble,
    show (-971 : Int).toNat = (-970 : Int).toNat from rfl]
  generalize d * Nat.pow 2 (970 : Int).toNat = scaled
  omega

theorem nearest_lt_infinity_iff {n d : Nat} (hd : 0 < d) :
    double.nearest n d < double.infinity ↔ n < overflow * d := by
  rcases Nat.eq_zero_or_pos n with rfl | hn
  · rw [lt_overflow_iff hd]
    refine iff_of_true (by simp [Format.nearest, infinity_double]) ?_
    norm_num
  have hvalue : (0 : ℚ) < (n : ℚ) / d := by positivity
  have hlow : (2 : ℚ) ^ Int.log 2 ((n : ℚ) / d) ≤ (n : ℚ) / d :=
    Int.zpow_log_le_self (by norm_num) hvalue
  have hhigh : (n : ℚ) / d < (2 : ℚ) ^ (Int.log 2 ((n : ℚ) / d) + 1) :=
    Int.lt_zpow_succ_log_self (by norm_num) _
  have hexponent : double.exponentFor n d = max (-1074) (Int.log 2 ((n : ℚ) / d) + 1 - 53) := by
    rw [Format.exponentFor, floorLog2_eq_log hn hd, minExponent_double]
    rfl
  rw [nearest_lt_infinity (Nat.pos_iff_ne_zero.1 hn), lt_overflow_iff hd]
  generalize Int.log 2 ((n : ℚ) / d) = log at *
  generalize double.exponentFor n d = e at *
  have hmono : ∀ {a b : Int}, a ≤ b → (2 : ℚ) ^ a ≤ 2 ^ b := fun h =>
    zpow_le_zpow_right₀ (by norm_num) h
  rcases Int.lt_trichotomy log 1023 with hsmall | rfl | hlarge
  · have hbelow : (n : ℚ) / d < (2 ^ 53 : Nat) * 2 ^ e := by
      refine hhigh.trans_le ((hmono (show log + 1 ≤ 53 + e by omega)).trans_eq ?_)
      rw [zpow_add₀ (by norm_num)]
      norm_num
    have hround := roundQuotient_le ((scaled_lt_iff hd (by decide) e).2 hbelow).le
    refine iff_of_true (by omega) (hhigh.trans_le ?_)
    refine (hmono (show log + 1 ≤ 53 + 970 by omega)).trans ?_
    rw [zpow_add₀ (by norm_num)]
    gcongr
    norm_num
  · obtain rfl : e = 971 := by omega
    rw [← roundQuotient_greatest_iff hd]
    omega
  · have habove : ¬ (n : ℚ) / d < (2 ^ 52 : Nat) * 2 ^ e := by
      refine not_lt.2 (le_trans (le_of_eq_of_le ?_ (hmono (show 52 + e ≤ log by omega))) hlow)
      rw [zpow_add₀ (by norm_num)]
      norm_num
    have hpos : 0 < d * Nat.pow 2 e.toNat := Nat.mul_pos hd (Nat.pow_pos (by decide))
    have hround := le_roundQuotient hpos (not_lt.1 (mt (scaled_lt_iff hd (by decide) e).1 habove))
    refine iff_of_false (by omega) (not_lt.2 (le_trans ?_ hlow))
    refine le_trans ?_ (hmono (show 54 + 970 ≤ log by omega))
    rw [zpow_add₀ (by norm_num)]
    gcongr
    norm_num

section Decimal

variable (negative : Bool) (d : Decimal)

private theorem word_ofDecimal :
    word (ofDecimal negative d) = double.nearest d.numerator d.denominator := by
  refine word_ofWord negative ?_
  unfold Format.nearest
  split
  · exact Nat.zero_le _
  · exact Nat.min_le_right _ _

theorem isNaN_ofDecimal : isNaN (ofDecimal negative d) = false := by
  rw [isNaN, word_ofDecimal]
  unfold Format.nearest
  split
  · simp
  · simp

theorem isFinite_ofDecimal :
    isFinite (ofDecimal negative d) = true ↔ d.numerator < overflow * d.denominator := by
  have hpos : 0 < d.denominator := Nat.pow_pos (by decide)
  rw [isFinite, word_ofDecimal, decide_eq_true_iff, nearest_lt_infinity_iff hpos]

end Decimal

end ContentStream.Binary
