import Mathlib.Data.List.TakeWhile
import ContentStream.Proofs.Token.Basic
import ContentStream.Proofs.Number.ReadBack

/-!
# Numbers read back

A written number is an optional minus sign, digits, and for a real a point and
further digits.  The numeral cut off the front of an input is exactly this one if
the input does not go on with a regular byte, and it stands for the number.
-/

namespace ContentStream.Numeral

structure Parts.IsCut (p : Parts) : Prop where
  sign : p.sign = [] ∨ ∃ byte, isSign byte = true ∧ p.sign = [byte]
  whole : ∀ byte ∈ p.whole, Byte.isDigit byte = true
  point : (p.point = [] ∧ p.fraction = []) ∨ p.point = [0x2E]
  fraction : ∀ byte ∈ p.fraction, Byte.isDigit byte = true

private theorem takeOptional_none {p : UInt8 → Bool} {input : Bytes}
    (h : ∀ byte, input.head? = some byte → p byte = false) :
    takeOptional p input = ([], input) := by
  cases input with
  | nil => rfl
  | cons byte rest => simp [takeOptional, h byte rfl]

private theorem takeOptional_some {p : UInt8 → Bool} {byte : UInt8} (h : p byte = true)
    (rest : Bytes) : takeOptional p (byte :: rest) = ([byte], rest) := by
  simp [takeOptional, h]

private theorem isStart_of_isSign {byte : UInt8} (h : isSign byte = true) :
    isStart byte = true := by
  simp [isStart, h]

private theorem isStart_of_isDigit {byte : UInt8} (h : Byte.isDigit byte = true) :
    isStart byte = true := by
  simp [isStart, h]

private theorem isSign_of_isDigit {byte : UInt8} (h : Byte.isDigit byte = true) :
    isSign byte = false := by
  grind [Byte.isDigit, isSign]

private theorem head_not_sign {p : Parts} (h : p.IsCut) {rest : Bytes} (hrest : rest.Ends) :
    ∀ byte, (p.whole ++ (p.point ++ (p.fraction ++ rest))).head? = some byte →
      isSign byte = false := by
  intro byte hbyte
  cases hwhole : p.whole with
  | cons digit digits =>
      have hdigit := h.whole digit (by simp [hwhole])
      simp only [hwhole, List.cons_append, List.head?_cons, Option.some.injEq] at hbyte
      rw [← hbyte]
      exact isSign_of_isDigit hdigit
  | nil =>
      rcases h.point with ⟨hpoint, hfraction⟩ | hpoint
      · simp only [hwhole, hpoint, hfraction, List.nil_append] at hbyte
        exact hrest.head (fun hsign => Byte.isRegular_of_isStart (isStart_of_isSign hsign))
          byte hbyte
      · simp only [hwhole, hpoint, List.nil_append, List.singleton_append, List.head?_cons,
          Option.some.injEq] at hbyte
        rw [← hbyte]
        decide

private theorem head_not_digit {p : Parts} (h : p.IsCut) {rest : Bytes} (hrest : rest.Ends) :
    ∀ byte, (p.point ++ (p.fraction ++ rest)).head? = some byte → Byte.isDigit byte = false := by
  intro byte hbyte
  rcases h.point with ⟨hpoint, hfraction⟩ | hpoint
  · simp only [hpoint, hfraction, List.nil_append] at hbyte
    exact hrest.head Byte.isRegular_of_isDigit byte hbyte
  · simp only [hpoint, List.singleton_append, List.head?_cons, Option.some.injEq] at hbyte
    rw [← hbyte]
    decide

private theorem takeOptional_sign {p : Parts} (h : p.IsCut) {rest : Bytes} (hrest : rest.Ends) :
    takeOptional isSign (p.text ++ rest) =
      (p.sign, p.whole ++ (p.point ++ (p.fraction ++ rest))) := by
  have hnone := takeOptional_none (head_not_sign h hrest)
  unfold Parts.text
  simp only [List.append_assoc]
  rcases h.sign with hsign | ⟨byte, hbyte, hsign⟩
  · rw [hsign, List.nil_append, hnone]
  · rw [hsign, List.singleton_append, takeOptional_some hbyte]

private theorem isRegular_of_isPoint {byte : UInt8} (h : decide (byte = 0x2E) = true) :
    Byte.isRegular byte = true := by
  rw [of_decide_eq_true h]
  decide

theorem split_append {p : Parts} (h : p.IsCut) {rest : Bytes} (hrest : rest.Ends) :
    split (p.text ++ rest) = (p, rest) := by
  have hdigit := head_not_digit h hrest
  unfold split
  simp only [takeOptional_sign h hrest, Bytes.takeWhile_append h.whole hdigit,
    Bytes.dropWhile_append h.whole hdigit]
  obtain ⟨sign, whole, point, fraction⟩ := p
  rcases h.point with ⟨rfl, rfl⟩ | rfl
  · have hnone := takeOptional_none (p := (· = 0x2E)) (hrest.head isRegular_of_isPoint)
    simp [hnone]
  · have hfraction := hrest.head Byte.isRegular_of_isDigit
    rw [List.singleton_append, takeOptional_some (by simp)]
    simp [Bytes.takeWhile_append h.fraction hfraction, Bytes.dropWhile_append h.fraction hfraction]

private theorem takeOptional_cases (p : UInt8 → Bool) (input : Bytes) :
    (takeOptional p input).1 = [] ∨ ∃ byte, p byte = true ∧ (takeOptional p input).1 = [byte] := by
  cases input with
  | nil => exact .inl rfl
  | cons byte input =>
      rw [takeOptional]
      split
      next hbyte => exact .inr ⟨byte, hbyte, rfl⟩
      next => exact .inl rfl

theorem isCut_split (input : Bytes) : (split input).1.IsCut := by
  have hdigits (digits : Bytes) : ∀ byte ∈ digits.takeWhile Byte.isDigit,
      Byte.isDigit byte = true := fun _ hmem => List.mem_takeWhile_imp hmem
  have hsign := takeOptional_cases isSign input
  rw [split]
  dsimp only
  split
  next => exact ⟨hsign, hdigits _, .inl ⟨rfl, rfl⟩, by simp⟩
  next hpoint =>
    refine ⟨hsign, hdigits _, .inr ?_, hdigits _⟩
    rcases takeOptional_cases (· = 0x2E) _ with hnil | ⟨byte, hbyte, hone⟩
    · rw [hnil] at hpoint
      contradiction
    · rw [hone, of_decide_eq_true hbyte]

theorem split_text (input : Bytes) : split (split input).1.text = ((split input).1, []) := by
  have hsplit := split_append (isCut_split input) Bytes.ends_nil
  rwa [List.append_nil] at hsplit

private theorem isStart_head {p : Parts} (h : p.IsCut) {first : UInt8} {tail : Bytes}
    (htext : p.text = first :: tail) : isStart first = true := by
  unfold Parts.text at htext
  rcases h.sign with hsign | ⟨byte, hbyte, hsign⟩
  · cases hwhole : p.whole with
    | cons digit digits =>
        simp only [hsign, hwhole, List.nil_append, List.cons_append, List.cons.injEq] at htext
        rw [← htext.1]
        exact isStart_of_isDigit (h.whole digit (by simp [hwhole]))
    | nil =>
        rcases h.point with ⟨hpoint, hfraction⟩ | hpoint
        · simp [hsign, hwhole, hpoint, hfraction] at htext
        · simp only [hsign, hwhole, hpoint, List.nil_append, List.singleton_append,
            List.cons.injEq] at htext
          rw [← htext.1]
          decide
  · simp only [hsign, List.cons_append, List.cons.injEq] at htext
    rw [← htext.1]
    exact isStart_of_isSign hbyte

/-- What a writer of numerals has to give for its token to be read as `value`. -/
structure Parts.Shows (p : Parts) (value : Operand) : Prop where
  isCut : p.IsCut
  text_ne_nil : p.text ≠ []
  operand : p.operand? = some value

theorem Parts.Shows.take {p : Parts} {value : Operand} (h : p.Shows value) {rest : Bytes}
    (hrest : rest.Ends) : ∃ first tail, ∃ hfirst : isStart first = true,
      p.text = first :: tail ∧ Took (Numeral.take first (tail ++ rest) hfirst) value rest := by
  obtain ⟨first, tail, htext⟩ := List.exists_cons_of_ne_nil h.text_ne_nil
  have hfirst := isStart_head h.isCut htext
  have hsplit := split_append h.isCut hrest
  rw [htext, List.cons_append] at hsplit
  have shorter : (split (first :: (tail ++ rest))).2.length < (first :: (tail ++ rest)).length :=
    length_split_lt hfirst
  rw [hsplit] at shorter
  refine ⟨first, tail, hfirst, htext, shorter, ?_⟩
  simp only [Numeral.take, hsplit, h.operand]

/-! ## Written numbers -/

def partsOf (negative : Bool) (whole point fraction : List Char) : Parts where
  sign := if negative then [0x2D] else []
  whole := Bytes.ofChars whole
  point := Bytes.ofChars point
  fraction := Bytes.ofChars fraction

private theorem isNegative_partsOf (negative : Bool) (whole point fraction : List Char) :
    (partsOf negative whole point fraction).isNegative = negative := by
  cases negative <;> simp [partsOf, Parts.isNegative]

private theorem text_partsOf (negative : Bool) (whole point fraction : List Char) :
    (partsOf negative whole point fraction).text =
      Bytes.ofChars ((if negative then ['-'] else []) ++ whole ++ point ++ fraction) := by
  cases negative <;> simp [partsOf, Parts.text, Bytes.ofChars]
  rfl

private theorem text_partsOf_ne_nil (negative : Bool) {whole : List Char} (h : whole ≠ [])
    (point fraction : List Char) : (partsOf negative whole point fraction).text ≠ [] := by
  rw [text_partsOf]
  simp [Bytes.ofChars, h]

private theorem isCut_partsOf (negative : Bool) {whole point fraction : List Char}
    (hwhole : ∀ c ∈ whole, c.isDigit = true)
    (hpoint : (point = [] ∧ fraction = []) ∨ point = ['.'])
    (hfraction : ∀ c ∈ fraction, c.isDigit = true) :
    (partsOf negative whole point fraction).IsCut where
  sign := by cases negative <;> simp [partsOf, isSign]
  whole := fun _ => Bytes.isDigit_of_mem_ofChars hwhole
  point := by
    rcases hpoint with ⟨rfl, rfl⟩ | rfl
    · exact .inl ⟨rfl, rfl⟩
    · exact .inr rfl
  fraction := fun _ => Bytes.isDigit_of_mem_ofChars hfraction

private theorem toChars_ofChars_digits {chars : List Char} (h : ∀ c ∈ chars, c.isDigit = true) :
    Bytes.toChars (Bytes.ofChars chars) = chars :=
  Bytes.toChars_ofChars fun c hc => (Bytes.isDigit_toUInt8 (h c hc)).1

def integerParts (value : Int64) : Parts :=
  partsOf (decide (value.toInt < 0)) (Nat.toDigits 10 value.toInt.natAbs) [] []

theorem text_integerParts (value : Int64) :
    (integerParts value).text = writtenInteger value := by
  rw [integerParts, text_partsOf, writtenInteger, Decimal.intChars]
  by_cases h : value.toInt < 0 <;> simp [h]

private theorem signed_natAbs (value : Int) :
    (if decide (value < 0) = true then -(value.natAbs : Int) else value.natAbs) = value := by
  simp only [decide_eq_true_eq]
  split <;> omega

theorem shows_integerParts (value : Int64) : (integerParts value).Shows (.integer value) := by
  have hdigits : ∀ c ∈ Nat.toDigits 10 value.toInt.natAbs, c.isDigit = true :=
    fun c hc => Nat.isDigit_of_mem_toDigits (by omega) (by omega) hc
  have hwhole : Nat.toDigits 10 value.toInt.natAbs ≠ [] := Nat.toDigits_ne_nil
  have hinteger : (integerParts value).integer? = some value := by
    unfold integerParts Parts.integer?
    rw [isNegative_partsOf]
    simp only [partsOf, toChars_ofChars_digits hdigits, Nat.ofDigitChars_ten_toDigits,
      signed_natAbs]
    have hlow := Int64.minValue_le_toInt value
    have hhigh := Int64.toInt_le value
    rw [if_pos, Int64.ofInt_toInt]
    simp only [Bytes.ofChars, Bool.and_eq_true, decide_eq_true_eq]
    exact ⟨⟨by simp, hlow⟩, hhigh⟩
  constructor
  · exact isCut_partsOf _ hdigits (.inl ⟨rfl, rfl⟩) (by simp)
  · exact text_partsOf_ne_nil _ hwhole _ _
  · have hpoint : (integerParts value).point = [] := rfl
    rw [Parts.operand?, hpoint, hinteger]
    rfl

def realParts (value : Float) : Parts :=
  let d := Decimal.shortest Number.token.tie (Binary.word value)
  partsOf (Binary.isNegative value) d.wholeChars ['.'] d.placesChars

theorem text_realParts {value : Float} (h : Binary.isFinite value = true) :
    (realParts value).text = writtenReal value := by
  rw [realParts, text_partsOf, writtenReal, Number.token_chars h]
  simp

theorem shows_realParts {value : Float} (h : Binary.isFinite value = true) :
    (realParts value).Shows (.real value) := by
  have hwhole : ∀ c ∈ (Decimal.shortest Number.token.tie (Binary.word value)).wholeChars,
      c.isDigit = true := fun _ => Decimal.isDigit_of_mem_wholeChars
  have hplaces : ∀ c ∈ (Decimal.shortest Number.token.tie (Binary.word value)).placesChars,
      c.isDigit = true := fun _ => Decimal.isDigit_of_mem_placesChars
  have hreal : (realParts value).real? = some value := by
    unfold realParts Parts.real?
    rw [isNegative_partsOf]
    simp only [partsOf, toChars_ofChars_digits hwhole, toChars_ofChars_digits hplaces,
      Number.ofDecimal_token h]
    rw [if_neg]
    simp [Bytes.ofChars, Decimal.wholeChars_ne_nil]
  constructor
  · exact isCut_partsOf _ hwhole (.inr rfl) hplaces
  · exact text_partsOf_ne_nil _ (Decimal.wholeChars_ne_nil _) _ _
  · have hpoint : (realParts value).point = [0x2E] := rfl
    rw [Parts.operand?, hpoint, hreal]
    rfl

end ContentStream.Numeral
