import ContentStream.Number.Binary
import Mathlib.Algebra.Group.Nat.Defs

/-!
# Doubles and their words

A double is determined by its sign and its word: the double with the sign and the
word of a given one is that double, bit for bit.
-/

namespace ContentStream.Binary

open Float.Model Float.Model.UnpackedFloat

private theorem toBitVec_ofBitVec (b : BitVec 1) : (Sign.ofBitVec b).toBitVec = b := by
  rcases BitVec.eq_zero_or_eq_one b with rfl | rfl <;> rfl

private theorem packComponents_fields {b : BitVec Format.binary64.numBits}
    {exponent : BitVec Format.binary64.exponentBits}
    {mantissa : BitVec Format.binary64.mantissaBitsWithoutImplicit}
    (hexponent : unpackExponent b = exponent) (hmantissa : unpackMantissa b = mantissa) :
    packComponents Format.binary64 (Sign.ofBitVec (unpackSign b)) exponent mantissa = b := by
  have hupper : b.extractLsb' 63 1 ++ b.extractLsb' 52 11 = b.extractLsb' 52 12 :=
    BitVec.extractLsb'_append_extractLsb'_eq_extractLsb' rfl
  have hwhole : b.extractLsb' 52 12 ++ b.extractLsb' 0 52 = b.extractLsb' 0 64 :=
    BitVec.extractLsb'_append_extractLsb'_eq_extractLsb' rfl
  rw [← hexponent, ← hmantissa, packComponents, toBitVec_ofBitVec]
  change b.extractLsb' 63 1 ++ b.extractLsb' 52 11 ++ b.extractLsb' 0 52 = b
  rw [hupper, hwhole]
  exact BitVec.extractLsb'_eq_self

private theorem log2_implicit (fraction : BitVec 52) :
    (1#1 ++ fraction).toNat.log2 = 52 ∧ (1#1 ++ fraction).toNat % 2 ^ 52 = fraction.toNat := by
  have hbound := fraction.isLt
  have hvalue : (1#1 ++ fraction).toNat = 2 ^ 52 + fraction.toNat := by
    rw [BitVec.toNat_append, ← Nat.shiftLeft_add_eq_or_of_lt hbound]
    simp [Nat.shiftLeft_eq]
  rw [hvalue]
  constructor
  · rw [Nat.log2_eq_iff (by omega)]
    omega
  · omega

private theorem pack_subnormal (sign : Sign) (fraction : BitVec 52) (e : Int)
    (hpos : 0 < fraction.toNat) (he : e = -1074) :
    pack Format.binary64 (.finite sign fraction.toNat e hpos) =
      packComponents Format.binary64 sign 0#11 fraction := by
  have hbound := fraction.isLt
  have hlog : fraction.toNat.log2 < 52 := (Nat.log2_lt (by omega)).2 hbound
  have hbits : Format.binary64.mantissaBits = 53 := by decide
  subst he
  unfold UnpackedFloat.pack
  dsimp only
  rw [if_neg (by decide), if_neg (by omega), BitVec.ofNat_toNat, BitVec.setWidth_eq]

private theorem pack_normal (sign : Sign) (field : BitVec 11) (fraction : BitVec 52) (e : Int)
    (hpos : 0 < (1#1 ++ fraction).toNat) (hfield : field ≠ -1#11)
    (he : e = field.toNat - 1075) :
    pack Format.binary64 (.finite sign (1#1 ++ fraction).toNat e hpos) =
      packComponents Format.binary64 sign field fraction := by
  obtain ⟨hlog, hfraction⟩ := log2_implicit fraction
  have hbound := field.isLt
  have hne : field.toNat ≠ 2047 := fun h => hfield (BitVec.eq_of_toNat_eq (by simpa using h))
  have hbiased : (e + (Format.binary64.exponentBias : Nat) + (52 : Nat)).toNat = field.toNat := by
    have hbias : Format.binary64.exponentBias = 1023 := by decide
    omega
  unfold UnpackedFloat.pack
  dsimp only
  rw [hbiased, hlog, if_neg (by omega), if_pos (by decide)]
  congr 1
  · rw [BitVec.ofNat_toNat, BitVec.setWidth_eq]
  · exact BitVec.eq_of_toNat_eq (by rw [BitVec.toNat_ofNat, hfraction])

private theorem pack_unpack {b : BitVec Format.binary64.numBits}
    (hvalid : Format.binary64.Valid b) :
    pack Format.binary64 (unpack Format.binary64 b) = b := by
  unfold UnpackedFloat.unpack
  dsimp only
  by_cases hones : unpackExponent b = -1#_
  -- Infinity, or the one pattern that a valid double has for what is no number.
  · rw [if_pos hones]
    by_cases hfraction : unpackMantissa b = 0#_
    · rw [if_pos hfraction]
      exact packComponents_fields hones hfraction
    · rw [if_neg hfraction]
      exact (hvalid.eq_packedNaN hones hfraction).symm
  · rw [if_neg hones]
    by_cases hfield : unpackExponent b = 0#_
    -- Zero and the numbers below the implicit bit share an exponent field.
    · rw [if_pos hfield]
      by_cases hfraction : unpackMantissa b = 0#_
      · rw [dif_pos hfraction]
        exact packComponents_fields hfield hfraction
      · rw [dif_neg hfraction, pack_subnormal _ _ _ _ (by rw [hfield]; decide)]
        exact packComponents_fields hfield rfl
    · rw [if_neg hfield, pack_normal _ (unpackExponent b) _ _ _ hones]
      · exact packComponents_fields rfl rfl
      · have hbias : Format.binary64.exponentBias = 1023 := by decide
        rw [hbias]
        rfl

theorem ofBits_toBits (x : Float) : Float.ofBits x.toBits = x := by
  obtain ⟨bits, hvalid⟩ := x
  have h := pack_unpack hvalid
  refine congrArg Float.ofModel ?_
  rw [Float.Model.mk.injEq]
  exact congrArg UInt64.ofBitVec h

private theorem toBits_ofBits {b : UInt64} (hvalid : Format.binary64.Valid b.toBitVec) :
    (Float.ofBits b).toBits = b := by
  show UInt64.ofBitVec (pack Format.binary64 (unpack Format.binary64 b.toBitVec)) = b
  rw [pack_unpack hvalid]

private theorem valid_of_le {b : UInt64} (h : b.toNat % 2 ^ 63 ≤ 2047 * 2 ^ 52) :
    Format.binary64.Valid b.toBitVec where
  eq_packedNaN := by
    intro hones hfraction
    have hexponent : b.toNat / 2 ^ 52 % 2 ^ 11 = 2047 := by
      have := congrArg BitVec.toNat hones
      simpa [unpackExponent, BitVec.extractLsb_toNat, Nat.shiftRight_eq_div_pow] using this
    have hmantissa : b.toNat % 2 ^ 52 ≠ 0 := by
      intro hzero
      refine hfraction (BitVec.eq_of_toNat_eq ?_)
      simpa [unpackMantissa, BitVec.extractLsb_toNat] using hzero
    omega

/-! ## Words of a double -/

theorem ofWord_word (x : Float) : ofWord (isNegative x) (word x) = x := by
  have hsign : double.signBit = 2 ^ 63 := by decide
  have hbound := x.toBits.toNat_lt
  have hvalue : (if isNegative x = true then word x + double.signBit else word x) =
      x.toBits.toNat := by
    unfold isNegative word
    rw [hsign]
    split
    next h =>
      have := of_decide_eq_true h
      omega
    next h =>
      have := of_decide_eq_false (Bool.eq_false_iff.2 h)
      omega
  rw [ofWord, hvalue, UInt64.ofNat_toNat, ofBits_toBits]

theorem word_ofWord (negative : Bool) {w : Nat} (h : w ≤ double.infinity) :
    word (ofWord negative w) = w := by
  have hsign : double.signBit = 2 ^ 63 := by decide
  have hinfinity : double.infinity = 2047 * 2 ^ 52 := by decide
  have hbits : (UInt64.ofNat (if negative then w + double.signBit else w)).toNat % 2 ^ 63 = w := by
    rw [hsign, UInt64.toNat_ofNat']
    split <;> omega
  have hvalid := valid_of_le (hbits.symm ▸ hinfinity ▸ h)
  rw [word, ofWord, toBits_ofBits hvalid]
  rw [hsign] at hbits ⊢
  exact hbits

private theorem zero_le_unpack {b : BitVec Format.binary64.numBits}
    (h : b.toNat ≤ 2047 * 2 ^ 52) : (zero .positive).le (unpack Format.binary64 b) = true := by
  have hsign : Sign.ofBitVec (unpackSign b) = .positive := by
    have hbit : (unpackSign b).toNat = b.toNat / 2 ^ 63 % 2 := by
      change (b.extractLsb' 63 1).toNat = _
      rw [BitVec.extractLsb'_toNat, Nat.shiftRight_eq_div_pow]
    have hzero : unpackSign b = 0#1 := BitVec.eq_of_toNat_eq (by simp [hbit]; omega)
    rw [hzero]
    rfl
  unfold UnpackedFloat.unpack
  dsimp only
  rw [hsign]
  by_cases hones : unpackExponent b = -1#_
  · rw [if_pos hones]
    by_cases hfraction : unpackMantissa b = 0#_
    · rw [if_pos hfraction]
      rfl
    -- All ones in the exponent field leave no place for a fraction.
    · have hexponent : b.toNat / 2 ^ 52 % 2 ^ 11 = 2047 := by
        have := congrArg BitVec.toNat hones
        simpa [unpackExponent, BitVec.extractLsb_toNat, Nat.shiftRight_eq_div_pow] using this
      have hmantissa : (unpackMantissa b).toNat = b.toNat % 2 ^ 52 := by
        simp [unpackMantissa, BitVec.extractLsb]
      exact absurd (BitVec.eq_of_toNat_eq (by simp [hmantissa]; omega)) hfraction
  · rw [if_neg hones]
    by_cases hfield : unpackExponent b = 0#_
    · rw [if_pos hfield]
      by_cases hfraction : unpackMantissa b = 0#_
      · rw [dif_pos hfraction]
        rfl
      · rw [dif_neg hfraction]
        rfl
    · rw [if_neg hfield]
      rfl

theorem zero_le_ofWord {w : Nat} (h : w ≤ double.infinity) : 0 ≤ ofWord false w := by
  have hinfinity : double.infinity = 2047 * 2 ^ 52 := by decide
  have hbits : (UInt64.ofNat w).toNat = w := by
    rw [UInt64.toNat_ofNat']
    omega
  have hvalid : Format.binary64.Valid (UInt64.ofNat w).toBitVec := valid_of_le (by omega)
  have hle : (0 : Float).toModel ≤ (ofWord false w).toModel := by
    show (zero .positive).le (unpack Format.binary64 (ofWord false w).toBits.toBitVec) = true
    rw [ofWord, if_neg (by decide), toBits_ofBits hvalid]
    refine zero_le_unpack ?_
    rw [UInt64.toNat_toBitVec]
    omega
  exact decide_eq_true hle

theorem nearest_le_infinity (numerator denominator : Nat) :
    double.nearest numerator denominator ≤ double.infinity := by
  rw [Format.nearest]
  split
  · exact Nat.zero_le _
  · exact Nat.min_le_right _ _

theorem zero_le_ofInt (n : Nat) : 0 ≤ ofInt n := by
  rw [ofInt, decide_eq_false (by omega)]
  exact zero_le_ofWord (nearest_le_infinity _ _)

end ContentStream.Binary
