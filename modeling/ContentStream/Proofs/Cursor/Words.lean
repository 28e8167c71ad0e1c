import ContentStream.Proofs.Cursor.Position
import ContentStream.Proofs.Token.Numeral
import ContentStream.Proofs.Token.Progress

/-!
# Names and numerals at a cursor

The bytes of a name are cut out of the source and then looked at by index, up to three of them
for an escape.  A numeral is cut out where its digits end.
-/

namespace ContentStream

def Name.escapeOf? (sign : UInt8) : Bytes → Option UInt8
  | high :: low :: _ => escaped? sign high low
  | _ => none

theorem Name.unescape_cons (sign : UInt8) (input : Bytes) :
    unescape (sign :: input) =
      match escapeOf? sign input with
      | some byte => byte :: unescape (input.drop 2)
      | none => sign :: unescape input := by
  match input with
  | [] => rfl
  | [_] => rfl
  | high :: low :: rest => rw [unescape]; rfl

theorem Name.exists_of_escapeOf? {sign byte : UInt8} {input : Bytes}
    (h : escapeOf? sign input = some byte) : ∃ high low, input = high :: low :: input.drop 2 := by
  match input with
  | [] => simp [escapeOf?] at h
  | [_] => simp [escapeOf?] at h
  | high :: low :: rest => exact ⟨high, low, rfl⟩

namespace Cursor

open Checked

section Names

variable {raw input : Bytes} {sign : UInt8} {index rounds : Nat} (hraw : raw.length < 2 ^ 32)
include hraw

private theorem escapedAt_eq (h : At raw index (sign :: input)) :
    escapedAt raw index = .gives (Name.escapeOf? sign input) := by
  have hlength := h.length_eq
  have hsign : raw[index]? = some sign := h.peek
  rw [escapedAt, item_eq hsign, gives_bind, h.address hraw 2 (by decide), gives_bind]
  match input with
  | [] => rw [if_neg (by rw [List.length_singleton] at hlength; omega)]; rfl
  | [_] => rw [if_neg (by simp only [List.length_cons, List.length_nil] at hlength; omega)]; rfl
  | high :: low :: rest =>
      have hhigh : raw[index + 1]? = some high := h.next.peek
      have hlow : raw[index + 2]? = some low := h.next.next.peek
      by_cases hescape : sign = 0x23
      · rw [if_pos ⟨hescape, (List.getElem?_eq_some_iff.1 hlow).1⟩, item_eq hhigh, gives_bind,
          item_eq hlow]
        rfl
      · rw [if_neg fun hboth => hescape hboth.1, Name.escapeOf?, Name.escaped?, if_neg hescape]
        rfl

private theorem unescapeFrom_eq (h : At raw index input) (hrounds : input.length < rounds) :
    unescapeFrom raw rounds index = .gives (Name.unescape input) := by
  induction rounds generalizing index input with
  | zero => omega
  | succ rounds ih =>
      rw [unescapeFrom]
      have hlength := h.length_eq
      cases input with
      | nil => rw [if_neg (by rw [List.length_nil] at hlength; omega)]; rfl
      | cons sign input =>
          rw [List.length_cons] at hrounds hlength
          have hsign : raw[index]? = some sign := h.peek
          rw [if_pos (by omega), escapedAt_eq hraw h, gives_bind, Name.unescape_cons]
          cases hescape : Name.escapeOf? sign input with
          | none =>
              dsimp only
              rw [item_eq hsign, gives_bind, h.address hraw 1 (by decide), gives_bind,
                ih h.next (by omega)]
              rfl
          | some byte =>
              obtain ⟨high, low, hinput⟩ := Name.exists_of_escapeOf? hescape
              have hbehind : At raw (index + 3) (input.drop 2) := by
                rw [hinput] at h
                exact h.next.next.next
              dsimp only
              rw [h.address hraw 3 (by decide), gives_bind,
                ih hbehind (by rw [List.length_drop]; omega)]
              rfl

end Names

section Words

variable {source : Bytes} (hsource : source.length < 2 ^ 32) {rounds position start : Nat}
  {first : UInt8} {input tail : Bytes}
include hsource

theorem name_agrees (h : At source start (first :: tail)) :
    Agrees source (name source start) ((Name.take first tail).map Taken.pair) := by
  obtain ⟨stop, hstop, hrest, hslice⟩ := run_agrees hsource Byte.isRegular h.next
  have hraw : (tail.takeWhile Byte.isRegular).length < 2 ^ 32 := by
    have := h.length_eq
    have := (List.takeWhile_sublist Byte.isRegular (l := tail)).length_le
    rw [List.length_cons] at *
    omega
  rw [name, h.address hsource 1 (by decide), gives_bind, hstop, gives_bind, hslice, gives_bind,
    unescapeFrom_eq hraw (At.zero _) (Nat.lt_succ_self _), gives_bind, Name.take]
  cases Utf8.decode? (Name.unescape (tail.takeWhile Byte.isRegular)) with
  | some name => exact .gives hrest
  | none => exact .of_at h _

/-! ## Numerals -/

omit hsource in
private def afterDigits : (hasPoint : Bool) → Bytes → Bytes
  | _, [] => []
  | hasPoint, byte :: rest =>
    if byte = 0x2E ∧ hasPoint = false then afterDigits true rest
    else if Byte.isDigit byte then afterDigits hasPoint rest
    else byte :: rest

private theorem digitsEnd_agrees (hasPoint : Bool) (h : At source position input)
    (hrounds : input.length < rounds) :
    ∃ stop, digitsEnd source rounds hasPoint position = .gives stop ∧
      At source stop (afterDigits hasPoint input) := by
  induction input generalizing rounds hasPoint position with
  | nil =>
      obtain ⟨rounds, rfl⟩ := Nat.exists_eq_succ_of_ne_zero (Nat.ne_zero_of_lt hrounds)
      refine ⟨position, ?_, by simpa [afterDigits] using h⟩
      rw [digitsEnd, h.peek]
      rfl
  | cons byte input ih =>
      obtain ⟨rounds, rfl⟩ := Nat.exists_eq_succ_of_ne_zero (Nat.ne_zero_of_lt hrounds)
      have hmore (hasPoint : Bool) := ih hasPoint h.next
        (Nat.lt_of_succ_lt_succ hrounds)
      rw [digitsEnd, h.peek, List.head?_cons, afterDigits, h.address hsource 1 (by decide)]
      dsimp only
      split
      · exact hmore true
      split
      · exact hmore hasPoint
      · exact ⟨position, rfl, h⟩

omit hsource in
private theorem afterDigits_true (input : Bytes) :
    afterDigits true input = input.dropWhile Byte.isDigit := by
  induction input with
  | nil => rfl
  | cons byte input ih =>
      rw [afterDigits, if_neg (by simp), List.dropWhile_cons, ih]

omit hsource in
private theorem afterDigits_false (input : Bytes) :
    afterDigits false (Numeral.takeOptional Numeral.isSign input).2 = (Numeral.split input).2 := by
  rw [Numeral.split]
  simp only [apply_ite Prod.snd]
  generalize (Numeral.takeOptional Numeral.isSign input).2 = digits
  induction digits with
  | nil => rfl
  | cons byte digits ih =>
      rw [afterDigits, List.dropWhile_cons]
      by_cases hpoint : byte = 0x2E
      · subst hpoint
        rw [if_pos ⟨rfl, rfl⟩, afterDigits_true]
        rfl
      · rw [if_neg fun hboth => hpoint hboth.1]
        split
        · exact ih
        · simp [Numeral.takeOptional, hpoint]

private theorem afterSign_agrees (h : At source start input) :
    ∃ stop, afterSign source start = .gives stop ∧
      At source stop (Numeral.takeOptional Numeral.isSign input).2 := by
  rw [afterSign, h.peek]
  cases input with
  | nil => exact ⟨start, rfl, h⟩
  | cons byte input =>
      rw [List.head?_cons, Numeral.takeOptional]
      dsimp only
      split
      · exact ⟨start + 1, h.address hsource 1 (by decide), h.next⟩
      · exact ⟨start, rfl, h⟩

theorem number_agrees (h : At source start (first :: tail))
    (hfirst : Numeral.isStart first = true) :
    Agrees source (number source start) ((Numeral.take first tail hfirst).map Taken.pair) := by
  obtain ⟨unsigned, hunsigned, hdigits⟩ := afterSign_agrees hsource h
  obtain ⟨stop, hstop, hrest⟩ := digitsEnd_agrees hsource false hdigits hdigits.rounds
  rw [afterDigits_false] at hrest
  have htext : At source start
      ((Numeral.split (first :: tail)).1.text ++ (Numeral.split (first :: tail)).2) := by
    rwa [Numeral.text_append_split]
  rw [number, hunsigned, gives_bind, hstop, gives_bind, htext.slice hrest, gives_bind,
    Numeral.split_text, Numeral.take]
  dsimp only
  cases (Numeral.split (first :: tail)).1.operand? with
  | some value => exact .gives hrest
  | none => exact .of_at h _

end Words

end Cursor

end ContentStream
