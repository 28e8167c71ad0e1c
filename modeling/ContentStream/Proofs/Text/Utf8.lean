import ContentStream.Text.Utf8
import Mathlib.Data.FinEnum
import Mathlib.Data.List.Basic

/-!
# Lossy decoding

Bytes of ASCII are decoded one by one, and every other character of a lossily decoded
text lies beyond ASCII, be it decoded or a replacement.  So a decoded text that is
ASCII comes from just these bytes, and encoding a decoded text again brings no byte
of ASCII that was not there.
-/

namespace ContentStream.Utf8

theorem encode_injective {text text' : String} (h : encode text = encode text') :
    text = text' := by
  have hdecoded := decode?_encode text
  rw [h, decode?_encode, Option.some.injEq] at hdecoded
  exact hdecoded.symm

theorem encode_of_decode? {bytes : Bytes} {text : String} (h : decode? bytes = some text) :
    encode text = bytes := by
  unfold decode? String.fromUTF8? at h
  split at h
  next hvalid =>
    obtain rfl := Option.some.inj h
    simp [encode, String.fromUTF8]
  next => simp at h

theorem encode_ofList (chars : List Char) :
    encode (String.ofList chars) = chars.flatMap String.utf8EncodeChar := by
  rw [encode, String.toByteArray_ofList, List.utf8Encode]
  simp

theorem utf8EncodeChar_ascii {c : Char} (h : c.toNat < 0x80) :
    String.utf8EncodeChar c = [c.toUInt8] := by
  have hsize : c.utf8Size = 1 := by
    rw [Char.utf8Size_eq_one_iff, UInt32.le_iff_toNat_le]
    exact Nat.le_of_lt_succ h
  rw [String.utf8EncodeChar_eq_singleton hsize]
  rfl

private theorem le_ofNat {n : Nat} (hlow : 0x80 ≤ n) (hhigh : n < 256) :
    0x80 ≤ UInt8.ofNat n := by
  rw [UInt8.le_iff_toNat_le, UInt8.toNat_ofNat_of_lt' hhigh]
  exact hlow

theorem le_of_mem_utf8EncodeChar {c : Char} (h : 0x80 ≤ c.toNat) {byte : UInt8}
    (hbyte : byte ∈ String.utf8EncodeChar c) : 0x80 ≤ byte := by
  have hvalue : c.val.toNat = c.toNat := rfl
  unfold String.utf8EncodeChar at hbyte
  simp only [hvalue] at hbyte
  rw [if_neg (by omega)] at hbyte
  split at hbyte
  · simp only [List.mem_cons, List.not_mem_nil, or_false] at hbyte
    rcases hbyte with rfl | rfl <;> exact le_ofNat (by omega) (by omega)
  split at hbyte
  · simp only [List.mem_cons, List.not_mem_nil, or_false] at hbyte
    rcases hbyte with rfl | rfl | rfl <;> exact le_ofNat (by omega) (by omega)
  · simp only [List.mem_cons, List.not_mem_nil, or_false] at hbyte
    rcases hbyte with rfl | rfl | rfl | rfl <;> exact le_ofNat (by omega) (by omega)

def codePoint (lead : UInt8) (tail : Bytes) : Nat :=
  tail.foldl (fun code byte => code * 64 + byte.toNat % 64) (leadBits lead tail.length)

private theorem continuation_complete {count : Nat} {low high : UInt8} {rest : Bytes}
    (h : (continuation (count + 1) low high rest).length = count + 1) :
    ∃ byte others, rest = byte :: others ∧
      continuation (count + 1) low high rest = byte :: continuation count 0x80 0xBF others ∧
      (low.toNat ≤ byte.toNat ∧ byte.toNat ≤ high.toNat) ∧
      (continuation count 0x80 0xBF others).length = count := by
  cases rest with
  | nil => simp [continuation] at h
  | cons byte others =>
      rw [continuation] at h
      split at h
      next hrange =>
        simp only [Bool.and_eq_true, decide_eq_true_eq, UInt8.le_iff_toNat_le] at hrange
        refine ⟨byte, others, rfl, ?_, hrange, by simpa using h⟩
        rw [continuation, if_pos]
        simpa [UInt8.le_iff_toNat_le] using hrange
      next => simp at h

private theorem sequence?_cases : ∀ lead : UInt8, ∀ s ∈ sequence? lead,
    (s.1 = 1 ∧ 0xC2 ≤ lead.toNat ∧ lead.toNat ≤ 0xDF) ∨
    (s.1 = 2 ∧ 0xE0 ≤ lead.toNat ∧ lead.toNat ≤ 0xEF ∧
      (lead.toNat = 0xE0 → 0xA0 ≤ s.2.1.toNat) ∧ (lead.toNat = 0xED → s.2.2.toNat ≤ 0x9F) ∧
      0x80 ≤ s.2.1.toNat ∧ s.2.2.toNat ≤ 0xBF) ∨
    (s.1 = 3 ∧ 0xF0 ≤ lead.toNat ∧ lead.toNat ≤ 0xF4 ∧
      (lead.toNat = 0xF0 → 0x90 ≤ s.2.1.toNat) ∧ (lead.toNat = 0xF4 → s.2.2.toNat ≤ 0x8F) ∧
      0x80 ≤ s.2.1.toNat ∧ s.2.2.toNat ≤ 0xBF) := by
  decide +kernel

private theorem codePoint_valid {lead : UInt8} {count : Nat} {low high : UInt8} {rest : Bytes}
    (hsequence : sequence? lead = some (count, low, high))
    (hcomplete : (continuation count low high rest).length = count) :
    0x80 ≤ codePoint lead (continuation count low high rest) ∧
      (codePoint lead (continuation count low high rest)).isValidChar := by
  -- The narrowed ranges of the first byte behind the lead keep overlong forms, surrogates
  -- and values past the last code point out.
  rcases sequence?_cases lead _ hsequence with h | h | h
  · obtain ⟨rfl, hlead⟩ := h
    obtain ⟨a, rest, rfl, htail, ha, -⟩ := continuation_complete hcomplete
    rw [htail]
    simp only [continuation, codePoint, leadBits, List.foldl, List.length, Nat.isValidChar,
      Nat.pow_eq]
    omega
  · obtain ⟨rfl, hlead⟩ := h
    obtain ⟨a, rest, rfl, htail, ha, hcomplete⟩ := continuation_complete hcomplete
    obtain ⟨b, rest, rfl, htail', hb, -⟩ := continuation_complete hcomplete
    rw [htail, htail']
    simp only [continuation, codePoint, leadBits, List.foldl, List.length, Nat.isValidChar,
      Nat.pow_eq]
    have hb' : 0x80 ≤ b.toNat ∧ b.toNat ≤ 0xBF := hb
    dsimp only at hlead
    omega
  · obtain ⟨rfl, hlead⟩ := h
    obtain ⟨a, rest, rfl, htail, ha, hcomplete⟩ := continuation_complete hcomplete
    obtain ⟨b, rest, rfl, htail', hb, hcomplete⟩ := continuation_complete hcomplete
    obtain ⟨c, rest, rfl, htail'', hc, -⟩ := continuation_complete hcomplete
    rw [htail, htail', htail'']
    simp only [continuation, codePoint, leadBits, List.foldl, List.length, Nat.isValidChar,
      Nat.pow_eq]
    have hb' : 0x80 ≤ b.toNat ∧ b.toNat ≤ 0xBF := hb
    have hc' : 0x80 ≤ c.toNat ∧ c.toNat ≤ 0xBF := hc
    dsimp only at hlead
    omega

/-! ## Lossy decoding -/

private theorem toNat_ofNat {n : Nat} (h : n.isValidChar) : (Char.ofNat n).toNat = n := by
  rw [Char.ofNat, dif_pos h]
  rfl

theorem lossyChars_cons (lead : UInt8) (rest : Bytes) :
    (lead < 0x80 ∧ lossyChars (lead :: rest) = Char.ofNat lead.toNat :: lossyChars rest) ∨
    (0x80 ≤ lead ∧ ∃ c n, 0x80 ≤ c.toNat ∧
      lossyChars (lead :: rest) = c :: lossyChars (rest.drop n)) := by
  rw [lossyChars]
  split
  next h => exact .inl ⟨h, rfl⟩
  next h =>
    have hlead : 0x80 ≤ lead := by
      rw [UInt8.le_iff_toNat_le]
      rw [UInt8.lt_iff_toNat_lt] at h
      omega
    refine .inr ⟨hlead, ?_⟩
    split
    next => exact ⟨replacement, 0, by decide, rfl⟩
    next count low high hsequence =>
      refine ⟨_, _, ?_, rfl⟩
      split
      next hcomplete =>
        obtain ⟨hbeyond, hvalid⟩ := codePoint_valid hsequence hcomplete
        have hpoint : codePoint lead (continuation count low high rest) =
            (continuation count low high rest).foldl (fun code byte => code * 64 + byte.toNat % 64)
              (leadBits lead count) := by
          rw [codePoint, hcomplete]
        rw [← hpoint, toNat_ofNat hvalid]
        exact hbeyond
      next => decide

private theorem utf8EncodeChar_ofNat {lead : UInt8} (h : lead < 0x80) :
    String.utf8EncodeChar (Char.ofNat lead.toNat) = [lead] := by
  have hlead : lead.toNat < 0x80 := UInt8.lt_iff_toNat_lt.1 h
  have hvalue : (Char.ofNat lead.toNat).toNat = lead.toNat := toNat_ofNat (.inl (by omega))
  have hascii : (Char.ofNat lead.toNat).toNat < 0x80 := by rwa [hvalue]
  rw [utf8EncodeChar_ascii hascii, List.cons.injEq]
  refine ⟨?_, rfl⟩
  rw [← UInt8.toNat_inj]
  show (Char.ofNat lead.toNat).toNat % 256 = lead.toNat
  omega

private theorem mem_lossyChars (bytes : Bytes) {byte : UInt8}
    (h : byte ∈ (lossyChars bytes).flatMap String.utf8EncodeChar) :
    byte ∈ bytes ∨ 0x80 ≤ byte := by
  -- By recursion on the length: a rejected sequence passes over several bytes at once.
  match bytes with
  | [] => simp [lossyChars] at h
  | lead :: rest =>
      rcases lossyChars_cons lead rest with ⟨hlead, hchars⟩ | ⟨hlead, c, n, hc, hchars⟩
      · rw [hchars, List.flatMap_cons, utf8EncodeChar_ofNat hlead] at h
        rcases List.mem_append.1 h with hmem | hmem
        · exact .inl (List.mem_cons.2 (.inl (List.mem_singleton.1 hmem)))
        · rcases mem_lossyChars rest hmem with hrest | hbeyond
          · exact .inl (List.mem_cons_of_mem _ hrest)
          · exact .inr hbeyond
      · rw [hchars, List.flatMap_cons] at h
        rcases List.mem_append.1 h with hmem | hmem
        · exact .inr (le_of_mem_utf8EncodeChar hc hmem)
        · rcases mem_lossyChars (rest.drop n) hmem with hrest | hbeyond
          · exact .inl (List.mem_cons_of_mem _ (List.mem_of_mem_drop hrest))
          · exact .inr hbeyond
termination_by bytes.length
decreasing_by
  all_goals simp only [List.length_cons, List.length_drop]
  all_goals omega

theorem mem_encode_decodeLossy {bytes : Bytes} {byte : UInt8}
    (h : byte ∈ encode (decodeLossy bytes)) : byte ∈ bytes ∨ 0x80 ≤ byte := by
  unfold decodeLossy at h
  cases hdecoded : decode? bytes with
  | some text =>
      rw [hdecoded, Option.getD_some, encode_of_decode? hdecoded] at h
      exact .inl h
  | none =>
      rw [hdecoded, Option.getD_none, encode_ofList] at h
      exact mem_lossyChars bytes h

theorem encode_decodeLossy_cons (lead : UInt8) (rest : Bytes) :
    ∃ first tail, encode (decodeLossy (lead :: rest)) = first :: tail ∧
      (first = lead ∨ 0x80 ≤ first) := by
  unfold decodeLossy
  cases hdecoded : decode? (lead :: rest) with
  | some text => exact ⟨lead, rest, encode_of_decode? hdecoded, .inl rfl⟩
  | none =>
      rw [Option.getD_none, encode_ofList]
      rcases lossyChars_cons lead rest with ⟨hlead, hchars⟩ | ⟨-, c, n, hc, hchars⟩
      · rw [hchars, List.flatMap_cons, utf8EncodeChar_ofNat hlead]
        exact ⟨lead, _, rfl, .inl rfl⟩
      · rw [hchars, List.flatMap_cons]
        have hne : String.utf8EncodeChar c ≠ [] := String.utf8EncodeChar_ne_nil
        obtain ⟨first, tail, hbytes⟩ := List.exists_cons_of_ne_nil hne
        rw [hbytes]
        refine ⟨first, _, rfl, .inr (le_of_mem_utf8EncodeChar hc ?_)⟩
        simp [hbytes]

private theorem lossyChars_ascii (bytes : Bytes) (h : ∀ c ∈ lossyChars bytes, c.toNat < 0x80) :
    (lossyChars bytes).flatMap String.utf8EncodeChar = bytes := by
  induction bytes with
  | nil => simp [lossyChars]
  | cons lead rest ih =>
      rcases lossyChars_cons lead rest with ⟨hlead, hchars⟩ | ⟨-, c, n, hc, hchars⟩
      · rw [hchars] at h ⊢
        rw [List.flatMap_cons, utf8EncodeChar_ofNat hlead,
          ih fun c hc => h c (List.mem_cons_of_mem _ hc)]
        rfl
      · rw [hchars] at h
        have := h c (by simp)
        omega

theorem encode_of_decodeLossy {bytes : Bytes} {text : String} (h : decodeLossy bytes = text)
    (hascii : ∀ c ∈ text.toList, c.toNat < 0x80) : encode text = bytes := by
  unfold decodeLossy at h
  cases hdecoded : decode? bytes with
  | some decoded =>
      rw [hdecoded, Option.getD_some] at h
      rw [← h]
      exact encode_of_decode? hdecoded
  | none =>
      rw [hdecoded, Option.getD_none] at h
      rw [← h, String.toList_ofList] at hascii
      rw [← h, encode_ofList]
      exact lossyChars_ascii bytes hascii

end ContentStream.Utf8
