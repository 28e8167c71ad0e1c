import ContentStream.Number.Layout
import ContentStream.Proofs.Number.Bits
import ContentStream.Proofs.Number.Nearest

/-!
# Written doubles read back

The digits that are chosen for a double have the word of that double as their
nearest, and its positional form has the value of those digits.  So the numeral of
a finite double, read as a decimal, gives the same double again, bit for bit.
-/

namespace ContentStream.Decimal

theorem denominator_pos (d : Decimal) : 0 < d.denominator :=
  Nat.pow_pos (by decide)

theorem readsBack_congr {d d' : Decimal}
    (h : d.numerator * d'.denominator = d'.numerator * d.denominator) (word : Nat) :
    readsBack word d = readsBack word d' := by
  unfold readsBack
  rw [Binary.double.nearest_congr d.denominator_pos d'.denominator_pos h]

theorem readsBack_exact {word : Nat} (h : word < Binary.double.infinity) :
    readsBack word (exact word) = true := by
  have hvalue : (exact word).numerator * Binary.double.denominator word =
      Binary.double.numerator word * (exact word).denominator := by
    simp only [numerator, denominator, exact, Binary.Format.numerator,
      Binary.Format.denominator, Nat.pow_eq, neg_neg, Int.toNat_natCast,
      Int.toNat_neg_natCast, pow_zero, mul_one]
    rw [show (10 : Nat) = 5 * 2 by norm_num, mul_pow]
    ring
  unfold readsBack
  rw [Binary.double.nearest_congr (exact word).denominator_pos
    (Binary.double.denominator_pos word) hvalue]
  exact decide_eq_true (Binary.double.nearest_word (by decide) h)

private theorem readsBack_nearerCut {word places : Nat} {tie : Tie} {d : Decimal}
    (hlow : readsBack word (d.cut places) = true)
    (hnext : readsBack word (d.cut places).next = true) :
    readsBack word (nearerCut tie d places) = true := by
  unfold nearerCut
  simp only
  split
  · exact hlow
  split
  · exact hnext
  split
  · exact hnext
  split
  · exact hlow
  · exact hnext

theorem readsBack_shorten {word : Nat} {tie : Tie} {d : Decimal}
    (h : readsBack word d = true) (places : Nat) :
    readsBack word (shorten tie word d places) = true := by
  induction places with
  | zero => exact h
  | succ places ih =>
      unfold shorten
      simp only
      split
      next hlow hnext => exact readsBack_nearerCut hlow hnext
      next hlow _ => exact hlow
      next _ hnext => exact hnext
      next => exact ih

private theorem value_moveZero {digits : Nat} (h : digits % 10 = 0) (exponent : Int) :
    (Decimal.mk (digits / 10) (exponent + 1)).numerator *
        (Decimal.mk digits exponent).denominator =
      (Decimal.mk digits exponent).numerator *
        (Decimal.mk (digits / 10) (exponent + 1)).denominator := by
  have hdigits : digits = digits / 10 * 10 := by omega
  simp only [numerator, denominator, Nat.pow_eq]
  -- The sign of the exponent decides which side of the quotient has the power of ten.
  by_cases hsign : 0 ≤ exponent
  · have hup : (exponent + 1).toNat = exponent.toNat + 1 := by omega
    have hzero : (-exponent).toNat = 0 := by omega
    have hzero' : (-(exponent + 1)).toNat = 0 := by omega
    rw [hup, hzero, hzero', pow_succ]
    conv_rhs => rw [hdigits]
    ring
  · have hdown : (-exponent).toNat = (-(exponent + 1)).toNat + 1 := by omega
    have hzero : exponent.toNat = 0 := by omega
    have hzero' : (exponent + 1).toNat = 0 := by omega
    rw [hdown, hzero, hzero', pow_succ]
    conv_rhs => rw [hdigits]
    ring

private theorem readsBack_stripWithin (word steps : Nat) (d : Decimal) :
    readsBack word (stripWithin steps d) = readsBack word d := by
  induction steps generalizing d with
  | zero => rfl
  | succ steps ih =>
      unfold stripWithin
      split
      next hzero => exact readsBack_congr (by simp [numerator, hzero]) word
      split
      next hzero =>
        rw [ih]
        exact readsBack_congr (value_moveZero hzero d.exponent) word
      next => rfl

/-- The digits of a written double have its word as their nearest. -/
theorem readsBack_shortest (tie : Tie) {word : Nat} (h : word < Binary.double.infinity) :
    readsBack word (shortest tie word) = true := by
  unfold shortest strip
  rw [readsBack_stripWithin]
  exact readsBack_shorten (readsBack_exact h) _

/-! ## The positional form -/

def placesChars (d : Decimal) : List Char :=
  match d.fractionChars with
  | [] => ['0']
  | fraction => fraction

theorem isDigit_of_mem_wholeChars {d : Decimal} {c : Char} (h : c ∈ d.wholeChars) :
    c.isDigit = true := by
  have hchars : ∀ c ∈ Nat.toDigits 10 d.digits, c.isDigit = true := fun _ hc =>
    Nat.isDigit_of_mem_toDigits (by decide) (by decide) hc
  unfold wholeChars at h
  simp only at h
  split at h
  · rcases List.mem_append.1 h with hc | hc
    · exact hchars c hc
    · rw [List.eq_of_mem_replicate hc]
      decide
  split at h
  · exact hchars c (List.mem_of_mem_take h)
  · rw [List.mem_singleton.1 h]
    decide

theorem wholeChars_ne_nil (d : Decimal) : d.wholeChars ≠ [] := by
  unfold wholeChars
  simp only
  split
  · simp
  split
  next hplaces =>
    rw [← List.length_pos_iff, List.length_take]
    omega
  next => simp

theorem isDigit_of_mem_placesChars {d : Decimal} {c : Char} (h : c ∈ d.placesChars) :
    c.isDigit = true := by
  have hchars : ∀ c ∈ Nat.toDigits 10 d.digits, c.isDigit = true := fun _ hc =>
    Nat.isDigit_of_mem_toDigits (by decide) (by decide) hc
  unfold placesChars at h
  split at h
  · rw [List.mem_singleton.1 h]
    decide
  · unfold fractionChars at h
    simp only at h
    split at h
    · exact hchars c (List.mem_of_mem_drop h)
    · rcases List.mem_append.1 h with hc | hc
      · rw [List.eq_of_mem_replicate hc]
        decide
      · exact hchars c hc

private theorem ofDigitChars_zero_cons (chars : List Char) :
    Nat.ofDigitChars 10 ('0' :: chars) 0 = Nat.ofDigitChars 10 chars 0 := by
  rw [Nat.ofDigitChars_cons, Nat.mul_zero, Nat.sub_self]

private theorem length_fractionChars {d : Decimal} (h : d.exponent < 0) :
    d.fractionChars.length = (-d.exponent).toNat := by
  unfold fractionChars
  simp only
  split
  · rw [List.length_drop]
    omega
  · rw [List.length_append, List.length_replicate]
    omega

private theorem placesChars_eq_fractionChars {d : Decimal} (h : d.exponent < 0) :
    d.placesChars = d.fractionChars := by
  have hlength := length_fractionChars h
  unfold placesChars
  split
  next hnil =>
    rw [hnil, List.length_nil] at hlength
    omega
  next => rfl

private theorem ofDigitChars_positional {d : Decimal} (h : d.exponent < 0) :
    Nat.ofDigitChars 10 (d.wholeChars ++ d.fractionChars) 0 = d.digits := by
  have hsign : ¬ 0 ≤ d.exponent := by omega
  unfold wholeChars fractionChars
  simp only [if_neg hsign]
  by_cases hplaces : (-d.exponent).toNat < (Nat.toDigits 10 d.digits).length
  · rw [if_pos hplaces, if_pos (Nat.le_of_lt hplaces), List.take_append_drop,
      Nat.ofDigitChars_ten_toDigits]
  · rw [if_neg hplaces, List.singleton_append, ofDigitChars_zero_cons]
    split
    · rw [Nat.sub_eq_zero_of_le (by omega), List.drop_zero, Nat.ofDigitChars_ten_toDigits]
    · rw [Nat.ofDigitChars_append, Nat.ofDigitChars_replicate_zero, Nat.mul_zero,
        Nat.ofDigitChars_ten_toDigits]

theorem value_ofChars (d : Decimal) :
    d.numerator * (ofChars d.wholeChars d.placesChars).denominator =
      (ofChars d.wholeChars d.placesChars).numerator * d.denominator := by
  -- An integral value gets one decimal place that is zero; any other is read as it is.
  by_cases hsign : 0 ≤ d.exponent
  · have hzero : (-d.exponent).toNat = 0 := by omega
    have hplaces : d.placesChars = ['0'] := by
      simp [placesChars, fractionChars, hzero]
    have hdigits : Nat.ofDigitChars 10 (d.wholeChars ++ ['0']) 0 =
        d.digits * 10 ^ d.exponent.toNat * 10 := by
      rw [wholeChars, if_pos hsign, Nat.ofDigitChars_append, Nat.ofDigitChars_append,
        Nat.ofDigitChars_ten_toDigits, Nat.ofDigitChars_replicate_zero, Nat.ofDigitChars_cons,
        Nat.ofDigitChars_nil, Nat.sub_self]
      ring
    rw [hplaces]
    simp [numerator, denominator, ofChars, hdigits, hzero]
  · have hnegative : d.exponent < 0 := by omega
    have hexact : ofChars d.wholeChars d.placesChars = d := by
      have hplaces : -(((-d.exponent).toNat : Nat) : Int) = d.exponent := by omega
      rw [ofChars, placesChars_eq_fractionChars hnegative, ofDigitChars_positional hnegative,
        length_fractionChars hnegative, hplaces]
    rw [hexact]

theorem nearest_positional (tie : Tie) {word : Nat} (h : word < Binary.double.infinity) :
    let d := shortest tie word
    let read := ofChars d.wholeChars d.placesChars
    Binary.double.nearest read.numerator read.denominator = word := by
  have hread := readsBack_shortest tie h
  rw [readsBack_congr (value_ofChars _)] at hread
  exact of_decide_eq_true hread

end ContentStream.Decimal

namespace ContentStream.Number

theorem ofDecimal_token {x : Float} (h : Binary.isFinite x = true) :
    let d := Decimal.shortest token.tie (Binary.word x)
    Binary.ofDecimal (Binary.isNegative x) (Decimal.ofChars d.wholeChars d.placesChars) = x := by
  have hword : Binary.word x < Binary.double.infinity := of_decide_eq_true h
  intro d
  rw [Binary.ofDecimal, Decimal.nearest_positional token.tie hword, Binary.ofWord_word]

theorem token_positionalChars (d : Decimal) :
    token.positionalChars d = d.wholeChars ++ '.' :: d.placesChars := by
  unfold Layout.positionalChars Decimal.placesChars
  cases d.fractionChars <;> simp [token]

theorem token_chars {x : Float} (h : Binary.isFinite x = true) :
    let d := Decimal.shortest token.tie (Binary.word x)
    token.chars x =
      (if Binary.isNegative x then ['-'] else []) ++ d.wholeChars ++ '.' :: d.placesChars := by
  have hnan : Binary.isNaN x = false := by
    have : Binary.word x < Binary.double.infinity := of_decide_eq_true h
    exact decide_eq_false (by omega)
  have hpositional : ∀ e, token.isPositional e = true := by simp [Layout.isPositional, token]
  simp only [Layout.chars, hnan, h, Layout.magnitudeChars, hpositional, Bool.or_true, if_true,
    token_positionalChars, Bool.false_eq_true, if_false]
  split <;> simp

end ContentStream.Number
