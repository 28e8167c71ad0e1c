import ContentStream.Proofs.Text.Blank
import ContentStream.Proofs.Text.Utf8
import ContentStream.Proofs.Token.Basic

/-!
# Line breaks

Where the line breaks of a text come from.  A text that is put together from parts has the
breaks of its parts and no others, so it keeps to one line if they do.
-/

namespace ContentStream

theorem Utf8.encode_append (text other : String) :
    encode (text ++ other) = encode text ++ encode other := by
  simp [encode]

theorem Utf8.mem_encode_ascii {text : String} {c : Char} (h : c.toNat < 0x80) :
    c.toUInt8 ∈ encode text ↔ c ∈ text.toList := by
  rw [← String.ofList_toList (s := text), encode_ofList, String.toList_ofList, List.mem_flatMap]
  constructor
  · rintro ⟨other, hother, hmem⟩
    have hbyte := Bytes.toNat_toUInt8 (c := c) (by omega)
    rcases Nat.lt_or_ge other.toNat 0x80 with hascii | hbeyond
    · rw [utf8EncodeChar_ascii hascii, List.mem_singleton] at hmem
      rw [hmem, Bytes.toNat_toUInt8 (by omega)] at hbyte
      rwa [← Char.toNat_inj.1 hbyte]
    · have hle := UInt8.le_iff_toNat_le.1 (le_of_mem_utf8EncodeChar hbeyond hmem)
      rw [hbyte] at hle
      exact absurd h (Nat.not_lt.2 hle)
  · intro hc
    refine ⟨c, hc, ?_⟩
    rw [utf8EncodeChar_ascii h]
    exact List.mem_singleton_self _

namespace Text

def IsBreak (char : Char) : Prop :=
  char = '\n' ∨ char = '\r'

instance (char : Char) : Decidable (IsBreak char) :=
  inferInstanceAs (Decidable (_ ∨ _))

def Unbroken (text : String) : Prop :=
  ∀ char ∈ text.toList, ¬IsBreak char

instance (text : String) : Decidable (Unbroken text) :=
  List.decidableBAll _ text.toList

/-- Every line break of the text stands in one of the names. -/
def BreaksWithin (source : String → Prop) (text : String) : Prop :=
  ∀ char ∈ text.toList, IsBreak char → ∃ name, source name ∧ char ∈ name.toList

variable {source : String → Prop} {text other separator : String} {parts : List String}
  {char : Char}

theorem Unbroken.breaksWithin (h : Unbroken text) : BreaksWithin source text :=
  fun char hchar hbreak => absurd hbreak (h char hchar)

theorem BreaksWithin.unbroken (h : BreaksWithin source text)
    (hsource : ∀ name, source name → Unbroken name) : Unbroken text := by
  intro char hchar hbreak
  obtain ⟨name, hname, hmem⟩ := h char hchar hbreak
  exact hsource name hname char hmem hbreak

theorem breaksWithin_self (h : source text) : BreaksWithin source text :=
  fun _ hchar _ => ⟨text, h, hchar⟩

theorem not_isBreak_of_isDigit (h : char.isDigit = true) : ¬IsBreak char := by
  rintro (rfl | rfl) <;> contradiction

theorem unbroken_toString (n : Nat) : Unbroken (toString n) := by
  intro char hchar
  have hdigits : char ∈ Nat.toDigits 10 n := by simpa [Nat.repr] using hchar
  exact not_isBreak_of_isDigit (Nat.isDigit_of_mem_toDigits (by decide) (by decide) hdigits)

theorem Unbroken.lineFeed_notMem_encode (h : Unbroken text) : 10 ∉ Utf8.encode text :=
  fun hmem => h '\n' ((Utf8.mem_encode_ascii (c := '\n') (by decide)).1 hmem) (.inl rfl)

theorem unbroken_of_isRegular (h : ∀ byte ∈ Utf8.encode text, Byte.isRegular byte = true) :
    Unbroken text := by
  rintro char hchar (rfl | rfl)
  · exact absurd (h 10 ((Utf8.mem_encode_ascii (by decide)).2 hchar)) (by decide)
  · exact absurd (h 13 ((Utf8.mem_encode_ascii (by decide)).2 hchar)) (by decide)

theorem breaksWithin_append : BreaksWithin source (text ++ other) ↔
    BreaksWithin source text ∧ BreaksWithin source other := by
  simp only [BreaksWithin, String.toList_append, List.mem_append, or_imp, forall_and]

theorem unbroken_append : Unbroken (text ++ other) ↔ Unbroken text ∧ Unbroken other := by
  simp only [Unbroken, String.toList_append, List.mem_append, or_imp, forall_and]

theorem unbroken_intercalate (h : Unbroken separator) (hparts : ∀ part ∈ parts, Unbroken part) :
    Unbroken (separator.intercalate parts) := by
  induction parts with
  | nil => exact fun char hchar => by simp at hchar
  | cons part parts ih =>
      obtain ⟨hpart, hparts⟩ := List.forall_mem_cons.1 hparts
      cases parts with
      | nil => simpa using hpart
      | cons next parts =>
          rw [String.intercalate_cons_cons]
          exact unbroken_append.2 ⟨unbroken_append.2 ⟨hpart, h⟩, ih hparts⟩

theorem BreaksWithin.trimEnd (h : BreaksWithin source text) :
    BreaksWithin source (String.ofList (trimEnd text.toList)) := by
  intro char hchar hbreak
  obtain ⟨after, -, hchars⟩ := exists_trimEnd text.toList
  rw [String.toList_ofList] at hchar
  refine h char ?_ hbreak
  rw [hchars]
  exact List.mem_append_left _ hchar

end Text

end ContentStream
