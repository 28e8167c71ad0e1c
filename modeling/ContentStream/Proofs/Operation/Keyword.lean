import ContentStream.Operation
import ContentStream.Proofs.Operand.RoundTrip
import ContentStream.Proofs.Text.Utf8

/-!
# Keywords

The name of an operation is written as it is.  It is read back if its bytes are a
word that stands for no operand.  Words that are no UTF-8 are decoded lossily, and
what they are decoded to can be written and read again.
-/

namespace ContentStream

/-- Names that are read as keywords: regular bytes, not like a number, no operand. -/
structure IsKeyword (name : String) : Prop where
  ne_empty : name ≠ ""
  regular : ∀ byte ∈ Utf8.encode name, Byte.isRegular byte = true
  start : ∀ byte ∈ (Utf8.encode name).head?, Numeral.isStart byte = false
  ne_operand : name ≠ "true" ∧ name ≠ "false" ∧ name ≠ "null"

structure Token.IsWord (word : Bytes) : Prop where
  ne_nil : word ≠ []
  regular : ∀ byte ∈ word, Byte.isRegular byte = true
  start : ∀ byte ∈ word.head?, Numeral.isStart byte = false
  keyword : Token.ofWord word = .keyword word

private theorem encode_true : Utf8.encode "true" = Bytes.ofChars ['t', 'r', 'u', 'e'] := by
  rfl

private theorem encode_false : Utf8.encode "false" = Bytes.ofChars ['f', 'a', 'l', 's', 'e'] := by
  rfl

private theorem encode_null : Utf8.encode "null" = Bytes.ofChars ['n', 'u', 'l', 'l'] := by
  rfl

theorem encode_imageKeyword : Utf8.encode "BI" = InlineImage.keyword := by
  rfl

theorem Token.ofWord_eq_keyword_iff (word : Bytes) : ofWord word = .keyword word ↔
    word ≠ Utf8.encode "true" ∧ word ≠ Utf8.encode "false" ∧ word ≠ Utf8.encode "null" := by
  rw [encode_true, encode_false, encode_null]
  constructor
  · intro h
    refine ⟨?_, ?_, ?_⟩
    · rintro rfl
      exact Token.noConfusion ((rfl : Token.operand (.boolean true) = _).trans h)
    · rintro rfl
      exact Token.noConfusion ((rfl : Token.operand (.boolean false) = _).trans h)
    · rintro rfl
      exact Token.noConfusion ((rfl : Token.operand .null = _).trans h)
  · rintro ⟨h1, h2, h3⟩
    rw [ofWord, if_neg h1, if_neg h2, if_neg h3]

theorem IsKeyword.isWord {name : String} (h : IsKeyword name) :
    Token.IsWord (Utf8.encode name) where
  ne_nil := by
    intro hnil
    exact h.ne_empty (Utf8.encode_injective hnil)
  regular := h.regular
  start := h.start
  keyword := by
    rw [Token.ofWord_eq_keyword_iff]
    obtain ⟨h1, h2, h3⟩ := h.ne_operand
    exact ⟨mt Utf8.encode_injective h1, mt Utf8.encode_injective h2, mt Utf8.encode_injective h3⟩

theorem Token.IsWord.yields {word : Bytes} (h : IsWord word) (levels : Nat)
    {input rest : Bytes} (hrest : rest.Ends)
    (hskip : Separator.skip input = Separator.skip (word ++ rest)) :
    (read levels).Yields input (.keyword word) rest := by
  obtain ⟨first, tail, rfl⟩ := List.exists_cons_of_ne_nil h.ne_nil
  have hfirst := Separator.isOther_of_isRegular (h.regular first (by simp))
  have htook := takeFirst_word (inside levels) h.regular (h.start first rfl) hrest
  rw [List.cons_append, Separator.skip_other hfirst] at hskip
  rw [h.keyword] at htook
  rw [read_eq]
  exact readWith_yields hskip htook

theorem isWord_imageKeyword : Token.IsWord InlineImage.keyword where
  ne_nil := by decide
  regular := List.all_eq_true.1 rfl
  start := by
    rintro byte ⟨⟩
    rfl
  keyword := rfl

private theorem isStart_of_ge {byte : UInt8} (h : 0x80 ≤ byte) :
    Numeral.isStart byte = false := by
  grind [Numeral.isStart, Numeral.isSign, Byte.isDigit]

private theorem ascii_toList {text : String} (h : text.toList.all (·.toNat < 0x80) = true) :
    ∀ c ∈ text.toList, c.toNat < 0x80 := by
  intro c hc
  exact of_decide_eq_true (List.all_eq_true.1 h c hc)

theorem Token.IsWord.isKeyword {word : Bytes} (h : IsWord word) :
    IsKeyword (Utf8.decodeLossy word) := by
  obtain ⟨lead, rest, rfl⟩ := List.exists_cons_of_ne_nil h.ne_nil
  obtain ⟨first, tail, hencoded, hfirst⟩ := Utf8.encode_decodeLossy_cons lead rest
  obtain ⟨h1, h2, h3⟩ := (Token.ofWord_eq_keyword_iff _).1 h.keyword
  constructor
  · intro hempty
    have hnil : Utf8.encode "" = [] := rfl
    rw [hempty, hnil] at hencoded
    contradiction
  · intro byte hbyte
    rcases Utf8.mem_encode_decodeLossy hbyte with hmem | hbeyond
    · exact h.regular byte hmem
    · exact Byte.isRegular_of_ge hbeyond
  · rw [hencoded]
    intro byte hbyte
    obtain rfl : first = byte := by simpa using hbyte
    rcases hfirst with rfl | hbeyond
    · exact h.start first rfl
    · exact isStart_of_ge hbeyond
  · refine ⟨fun htext => h1 ?_, fun htext => h2 ?_, fun htext => h3 ?_⟩
    · exact (Utf8.encode_of_decodeLossy htext (ascii_toList rfl)).symm
    · exact (Utf8.encode_of_decodeLossy htext (ascii_toList rfl)).symm
    · exact (Utf8.encode_of_decodeLossy htext (ascii_toList rfl)).symm

theorem decodeLossy_eq_image_iff (word : Bytes) :
    Utf8.decodeLossy word = "BI" ↔ word = InlineImage.keyword := by
  rw [← encode_imageKeyword]
  constructor
  · intro h
    exact (Utf8.encode_of_decodeLossy h (ascii_toList rfl)).symm
  · rintro rfl
    exact Utf8.decodeLossy_encode "BI"

end ContentStream
