import ContentStream.Proofs.Token.Pieces

/-!
# Strings and names read back

Hexadecimal strings, literal strings and names have an escape system each.  What
each of them writes for a list of bytes is read as those bytes, and reading stops
where the written token ends.
-/

namespace ContentStream

namespace Byte

theorem div_sixteen_lt (byte : UInt8) : byte / 16 < 16 := by
  grind

theorem mod_sixteen_lt (byte : UInt8) : byte % 16 < 16 := by
  grind

theorem mul_sixteen_add (byte : UInt8) : byte / 16 * 16 + byte % 16 = byte := by
  grind

theorem hexValue?_lowerHexDigit {value : UInt8} (h : value < 16) :
    hexValue? (lowerHexDigit value) = some value := by
  grind [hexValue?, lowerHexDigit, isDigit]

theorem hexValue?_upperHexDigit {value : UInt8} (h : value < 16) :
    hexValue? (upperHexDigit value) = some value := by
  grind [hexValue?, upperHexDigit, isDigit]

theorem isRegular_lowerHexDigit {value : UInt8} (h : value < 16) :
    isRegular (lowerHexDigit value) = true :=
  isRegular_of_hexValue? (by rw [hexValue?_lowerHexDigit h]; rfl)

theorem isRegular_upperHexDigit {value : UInt8} (h : value < 16) :
    isRegular (upperHexDigit value) = true :=
  isRegular_of_hexValue? (by rw [hexValue?_upperHexDigit h]; rfl)

end Byte

namespace Hex

private theorem extent_digit {digit : UInt8} {value : UInt8}
    (h : Byte.hexValue? digit = some value) (digits rest : Bytes) :
    extent digits (digit :: rest) = extent (value :: digits) rest := by
  have hsome : (Byte.hexValue? digit).isSome = true := by rw [h]; rfl
  have hregular := Byte.isRegular_of_hexValue? hsome
  have hclose : digit ≠ 0x3E := Byte.ne_of_class hregular rfl
  rw [extent, if_neg hclose, Byte.isWhiteSpace_of_isRegular hregular, if_neg (by simp), h]

def digitsOf (bytes : Bytes) : Bytes :=
  bytes.flatMap fun byte => [byte / 16, byte % 16]

private theorem extent_written (bytes digits rest : Bytes) :
    extent digits (bytes.flatMap writtenByte ++ 0x3E :: rest) =
      .ok (digits.reverse ++ digitsOf bytes, rest) := by
  induction bytes generalizing digits with
  | nil => simp [extent, digitsOf]
  | cons byte bytes ih =>
      have hhigh := Byte.hexValue?_lowerHexDigit (Byte.div_sixteen_lt byte)
      have hlow := Byte.hexValue?_lowerHexDigit (Byte.mod_sixteen_lt byte)
      simp only [List.flatMap_cons, writtenByte, List.cons_append, List.nil_append]
      rw [extent_digit hhigh, extent_digit hlow, ih]
      simp [digitsOf]

private theorem pairs_digitsOf (bytes : Bytes) : pairs (digitsOf bytes) = bytes := by
  induction bytes with
  | nil => rfl
  | cons byte bytes ih =>
      simp only [digitsOf, List.flatMap_cons, List.cons_append, List.nil_append, pairs] at ih ⊢
      rw [ih, Byte.mul_sixteen_add]

theorem take_written (bytes rest : Bytes) :
    Took (take 0x3C (bytes.flatMap writtenByte ++ 0x3E :: rest)) bytes rest := by
  have hextent := extent_written bytes [] rest
  rw [List.reverse_nil, List.nil_append] at hextent
  unfold take
  split
  next digits after h =>
    rw [hextent] at h
    obtain ⟨rfl, rfl⟩ := Prod.mk.inj (Except.ok.inj h)
    exact ⟨_, by rw [pairs_digitsOf]; rfl⟩
  next h => simp [hextent] at h
  next h => simp [hextent] at h

end Hex

/-! ## Literal strings and names -/

namespace Literal

private theorem isOctalDigit_octalDigit (value : UInt8) :
    Byte.isOctalDigit (octalDigit value) = true := by
  simp only [Byte.isOctalDigit, octalDigit, Bool.and_eq_true, decide_eq_true_eq,
    UInt8.le_iff_toNat_le, UInt8.toNat_add, UInt8.toNat_mod, UInt8.toNat_ofNat, Nat.reducePow,
    Nat.reduceMod]
  omega

private theorem octalValue_octalDigits (byte : UInt8) :
    octalValue [octalDigit (byte / 64), octalDigit (byte / 8), octalDigit byte] = byte := by
  simp only [octalValue, octalDigit, List.foldl_cons, List.foldl_nil]
  grind

/-- The piece is written for the byte, and stands for it whatever follows. -/
structure Piece.WritesByte (piece : Piece) (byte : UInt8) : Prop where
  text : piece.text = escapeByte byte
  meaning : piece.meaning = [byte]
  opens : piece.opens = 0
  closes : piece.closes = 0
  fits : ∀ following, piece.Fits following

private theorem exists_writesByte (byte : UInt8) : ∃ piece : Piece, piece.WritesByte byte := by
  have hwritten := escapeByte.eq_1 byte
  split at hwritten
  next hescaped =>
    simp only [Bool.or_eq_true, decide_eq_true_eq] at hescaped
    have hclass : Byte.isOctalDigit byte = false ∧ Byte.isLineEnd byte = false := by
      rcases hescaped with (rfl | rfl) | rfl <;> decide
    have hvalue : escapedValue byte = byte := by
      rcases hescaped with (rfl | rfl) | rfl <;> rfl
    exact ⟨.escaped byte hclass, hwritten.symm, by rw [Piece.meaning, hvalue], rfl, rfl,
      fun _ => trivial⟩
  next hplain =>
    simp only [Bool.or_eq_true, decide_eq_true_eq, not_or] at hplain
    split at hwritten
    next hreturn =>
      subst hreturn
      exact ⟨.escaped 0x72 (by decide), rfl, rfl, rfl, rfl, fun _ => trivial⟩
    split at hwritten
    next =>
      exact ⟨.plain byte ⟨hplain.1.1, hplain.1.2, hplain.2⟩, hwritten.symm, rfl, rfl, rfl,
        fun _ => trivial⟩
    next =>
      have hdigits : ∀ digit ∈ [octalDigit (byte / 64), octalDigit (byte / 8), octalDigit byte],
          Byte.isOctalDigit digit = true := by
        simp [isOctalDigit_octalDigit]
      exact ⟨.octal _ (by simp) hdigits, hwritten.symm,
        by rw [Piece.meaning, ← octalValue_eq hdigits, octalValue_octalDigits], rfl, rfl,
        fun _ hshort => absurd hshort (by simp)⟩

private theorem exists_spelled_written (bytes rest : Bytes) :
    ∃ pieces, meaningOf pieces = bytes ∧
      Spelled pieces rest (bytes.flatMap escapeByte ++ 0x29 :: rest) := by
  suffices h : ∃ pieces, meaningOf pieces = bytes ∧ textOf pieces = bytes.flatMap escapeByte ∧
      Fit pieces ∧ Balanced pieces by
    obtain ⟨pieces, hmeaning, htext, hfit, hbalanced⟩ := h
    exact ⟨pieces, hmeaning, hfit, hbalanced, by rw [htext]⟩
  induction bytes with
  | nil => exact ⟨[], rfl, rfl, trivial, nested_nil 0, rfl⟩
  | cons byte bytes ih =>
      obtain ⟨piece, hpiece⟩ := exists_writesByte byte
      obtain ⟨pieces, hmeaning, htext, hfit, hnested, hclosed⟩ := ih
      -- No piece is a bare parenthesis, so what is open stays the same.
      refine ⟨piece :: pieces, ?_, ?_, ⟨hpiece.fits _, hfit⟩, nested_cons.2 ?_, ?_⟩
      · rw [meaningOf_cons, hpiece.meaning, hmeaning]
        rfl
      · rw [textOf_cons, hpiece.text, htext, List.flatMap_cons]
      · rw [hpiece.opens, hpiece.closes]
        exact ⟨Nat.le_refl 0, hnested⟩
      · rw [closed_cons, opened_cons, hpiece.opens, hpiece.closes, hclosed]

theorem take_written (bytes rest : Bytes) :
    Took (take 0x28 (bytes.flatMap escapeByte ++ 0x29 :: rest)) bytes rest := by
  obtain ⟨pieces, hmeaning, hspelled⟩ := exists_spelled_written bytes rest
  have htook := take_spelled hspelled
  rwa [hmeaning] at htook

end Literal

namespace Name

private theorem isRegular_of_isPlain {byte : UInt8} (h : isPlain byte = true) :
    Byte.isRegular byte = true :=
  Byte.isRegular_of rfl h

private theorem regular_of_mem_escapeByte {source byte : UInt8} (h : byte ∈ escapeByte source) :
    Byte.isRegular byte = true := by
  unfold escapeByte at h
  split at h
  next hplain =>
    rw [List.mem_singleton.1 h]
    exact isRegular_of_isPlain hplain
  next =>
    simp only [List.mem_cons, List.not_mem_nil, or_false] at h
    rcases h with rfl | rfl | rfl
    · rfl
    · exact Byte.isRegular_upperHexDigit (Byte.div_sixteen_lt source)
    · exact Byte.isRegular_upperHexDigit (Byte.mod_sixteen_lt source)

theorem regular_of_mem_escape {bytes : Bytes} {byte : UInt8} (h : byte ∈ escape bytes) :
    Byte.isRegular byte = true := by
  obtain ⟨source, -, hbyte⟩ := List.mem_flatMap.1 h
  exact regular_of_mem_escapeByte hbyte

private theorem unescape_plain {byte : UInt8} (h : byte ≠ 0x23) (rest : Bytes) :
    unescape (byte :: rest) = byte :: unescape rest := by
  match rest with
  | [] => rfl
  | [_] => rfl
  | b :: c :: rest => rw [unescape, escaped?, if_neg h]

private theorem unescape_escaped {high low high' low' : UInt8}
    (hhigh : Byte.hexValue? high' = some high) (hlow : Byte.hexValue? low' = some low)
    (rest : Bytes) :
    unescape (0x23 :: high' :: low' :: rest) = (high * 16 + low) :: unescape rest := by
  rw [unescape, escaped?, if_pos rfl, hhigh, hlow]

theorem unescape_escape (bytes : Bytes) : unescape (escape bytes) = bytes := by
  unfold escape
  induction bytes with
  | nil => rfl
  | cons byte bytes ih =>
      rw [List.flatMap_cons]
      by_cases hplain : isPlain byte = true
      · have hsign : byte ≠ 0x23 := by
          rintro rfl
          exact absurd hplain (by decide)
        have hbyte : escapeByte byte = [byte] := if_pos hplain
        rw [hbyte, List.singleton_append, unescape_plain hsign, ih]
      · have hbyte : escapeByte byte =
            [0x23, Byte.upperHexDigit (byte / 16), Byte.upperHexDigit (byte % 16)] :=
          if_neg hplain
        have hhigh := Byte.hexValue?_upperHexDigit (Byte.div_sixteen_lt byte)
        have hlow := Byte.hexValue?_upperHexDigit (Byte.mod_sixteen_lt byte)
        rw [hbyte]
        simp only [List.cons_append, List.nil_append]
        rw [unescape_escaped hhigh hlow, ih, Byte.mul_sixteen_add]

theorem take_written (name : String) {rest : Bytes} (hrest : rest.Ends) :
    Took (take 0x2F (escape (Utf8.encode name) ++ rest)) name rest := by
  have hrun : ∀ byte ∈ escape (Utf8.encode name), Byte.isRegular byte = true :=
    fun _ h => regular_of_mem_escape h
  have htake := Bytes.takeWhile_append hrun hrest
  have hdrop := Bytes.dropWhile_append hrun hrest
  unfold take
  rw [htake, unescape_escape, Utf8.decode?_encode]
  refine ⟨?_, by simp only [Taken.afterFirst, hdrop]⟩
  simp only [List.length_cons, List.length_append]
  omega

end Name

end ContentStream
