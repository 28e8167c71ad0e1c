import ContentStream.Token
import Mathlib.Data.List.Basic
import Mathlib.Tactic.Tauto

/-!
# Readings that succeed

`Took` says that a reading off a given input succeeded, with its value and what it
left; the proof that the rest is shorter is not mentioned.  `Bytes.Ends` says that
an input does not go on with a regular byte, so that a token in front of it ends
there.
-/

namespace ContentStream

namespace Byte

def endings : Bytes :=
  [0x00, 0x09, 0x0A, 0x0C, 0x0D, 0x20, 0x28, 0x29, 0x3C, 0x3E, 0x5B, 0x5D, 0x7B, 0x7D, 0x2F, 0x25]

theorem mem_endings {byte : UInt8} (h : isRegular byte = false) : byte ∈ endings := by
  simp only [isRegular, isWhiteSpace, isDelimiter, Bool.and_eq_false_iff, Bool.not_eq_false',
    Bool.or_eq_true, decide_eq_true_eq] at h
  simp only [endings, List.mem_cons, List.not_mem_nil, or_false]
  tauto

theorem isRegular_of {p : UInt8 → Bool} (hp : endings.any p = false) {byte : UInt8}
    (h : p byte = true) : isRegular byte = true := by
  cases hregular : isRegular byte with
  | true => rfl
  | false =>
      rw [List.any_eq_false] at hp
      exact absurd h (hp byte (mem_endings hregular))

theorem isRegular_of_isDigit {byte : UInt8} (h : isDigit byte = true) : isRegular byte = true :=
  isRegular_of rfl h

theorem isRegular_of_isStart {byte : UInt8} (h : Numeral.isStart byte = true) :
    isRegular byte = true :=
  isRegular_of rfl h

theorem isRegular_of_ge {byte : UInt8} (h : 0x80 ≤ byte) : isRegular byte = true :=
  isRegular_of (p := (0x80 ≤ ·)) rfl (decide_eq_true h)

theorem isRegular_of_hexValue? {byte : UInt8} (h : (hexValue? byte).isSome = true) :
    isRegular byte = true :=
  isRegular_of (p := fun byte => (hexValue? byte).isSome) rfl h

theorem isWhiteSpace_of_isRegular {byte : UInt8} (h : isRegular byte = true) :
    isWhiteSpace byte = false := by
  simp only [isRegular, Bool.and_eq_true, Bool.not_eq_true'] at h
  exact h.1

theorem isDelimiter_of_isRegular {byte : UInt8} (h : isRegular byte = true) :
    isDelimiter byte = false := by
  simp only [isRegular, Bool.and_eq_true, Bool.not_eq_true'] at h
  exact h.2

theorem ne_of_class {p : UInt8 → Bool} {byte other : UInt8} (h : p byte = true)
    (hother : p other = false) : byte ≠ other := by
  rintro rfl
  rw [h] at hother
  contradiction

end Byte

namespace Bytes

def Ends (input : Bytes) : Prop :=
  ∀ byte, input.head? = some byte → Byte.isRegular byte = false

theorem ends_nil : Ends [] := by
  intro byte h
  simp at h

theorem ends_cons {byte : UInt8} {rest : Bytes} (h : Byte.isRegular byte = false) :
    Ends (byte :: rest) := by
  intro other hother
  rw [List.head?_cons, Option.some.injEq] at hother
  rwa [← hother]

theorem Ends.append {input : Bytes} (h : input.Ends) (hne : input ≠ []) (rest : Bytes) :
    (input ++ rest).Ends := by
  obtain ⟨first, tail, rfl⟩ := List.exists_cons_of_ne_nil hne
  exact ends_cons (h first rfl)

theorem Ends.head {input : Bytes} (h : input.Ends) {p : UInt8 → Bool}
    (hp : ∀ {byte}, p byte = true → Byte.isRegular byte = true) :
    ∀ byte, input.head? = some byte → p byte = false := by
  intro byte hbyte
  cases hvalue : p byte with
  | false => rfl
  | true =>
      have hregular := hp hvalue
      rw [h byte hbyte] at hregular
      contradiction

theorem takeWhile_append {p : UInt8 → Bool} {run rest : Bytes}
    (hrun : ∀ byte ∈ run, p byte = true)
    (hrest : ∀ byte, rest.head? = some byte → p byte = false) :
    (run ++ rest).takeWhile p = run := by
  rw [List.takeWhile_append_of_pos hrun]
  cases rest with
  | nil => simp
  | cons byte rest => simp [hrest byte rfl]

theorem dropWhile_append {p : UInt8 → Bool} {run rest : Bytes}
    (hrun : ∀ byte ∈ run, p byte = true)
    (hrest : ∀ byte, rest.head? = some byte → p byte = false) :
    (run ++ rest).dropWhile p = rest := by
  rw [List.dropWhile_append_of_pos hrun]
  cases rest with
  | nil => simp
  | cons byte rest => simp [hrest byte rfl]

theorem toNat_toUInt8 {c : Char} (h : c.toNat < 256) : c.toUInt8.toNat = c.toNat := by
  show c.val.toUInt8.toNat = c.val.toNat
  rw [UInt32.toNat_toUInt8]
  exact Nat.mod_eq_of_lt h

theorem isDigit_toUInt8 {c : Char} (h : c.isDigit = true) :
    c.toNat < 256 ∧ Byte.isDigit c.toUInt8 = true := by
  have hvalue : 48 ≤ c.toNat ∧ c.toNat ≤ 57 := by
    simpa [Char.isDigit, UInt32.le_iff_toNat_le] using h
  have hbyte := toNat_toUInt8 (c := c) (by omega)
  refine ⟨by omega, ?_⟩
  simp only [Byte.isDigit, Bool.and_eq_true, decide_eq_true_eq, UInt8.le_iff_toNat_le, hbyte]
  exact hvalue

theorem toChars_ofChars {chars : List Char} (h : ∀ c ∈ chars, c.toNat < 256) :
    toChars (ofChars chars) = chars := by
  unfold toChars ofChars
  rw [List.map_map]
  conv_rhs => rw [← List.map_id chars]
  refine List.map_congr_left fun c hc => ?_
  rw [Function.comp_apply, toNat_toUInt8 (h c hc), Char.ofNat_toNat, id]

theorem isDigit_of_mem_ofChars {chars : List Char} (h : ∀ c ∈ chars, c.isDigit = true)
    {byte : UInt8} (hbyte : byte ∈ ofChars chars) : Byte.isDigit byte = true := by
  obtain ⟨c, hc, rfl⟩ := List.mem_map.1 hbyte
  exact (isDigit_toUInt8 (h c hc)).2

end Bytes

def Took {α : Type} {input : Bytes} (result : Except Stuck (Taken α input)) (value : α)
    (rest : Bytes) : Prop :=
  ∃ shorter, result = .ok ⟨value, rest, shorter⟩

/-- An item was there, and reading it succeeded. -/
def Reader.Yields {α : Type} (read : Reader α) (input : Bytes) (value : α) (rest : Bytes) : Prop :=
  ∃ shorter, read input = .ok (some ⟨value, rest, shorter⟩)

theorem Took.map {α β : Type} {input : Bytes} {result : Except Stuck (Taken α input)}
    {value : α} {rest : Bytes} (f : α → β) (h : Took result value rest) :
    Took (result.map (Taken.map f)) (f value) rest := by
  obtain ⟨shorter, rfl⟩ := h
  exact ⟨shorter, rfl⟩

theorem Took.of_map {α β : Type} {input : Bytes} {result : Except Stuck (Taken α input)}
    {f : α → β} {value : β} {rest : Bytes} (h : Took (result.map (Taken.map f)) value rest) :
    ∃ found, Took result found rest ∧ f found = value := by
  obtain ⟨shorter, h⟩ := h
  cases result with
  | error stuck => simp [Except.map] at h
  | ok taken =>
      obtain ⟨rfl, rfl⟩ := Taken.mk.inj (Except.ok.inj h)
      exact ⟨taken.value, ⟨taken.shorter, rfl⟩, rfl⟩

end ContentStream
