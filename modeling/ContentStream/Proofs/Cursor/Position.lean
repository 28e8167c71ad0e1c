import ContentStream.Proofs.Cursor.Reader
import Mathlib.Data.List.TakeDrop

/-!
# Positions

A position in the source stands for what follows it.  Readers at a cursor agree with readers off
the front of an input if they stop where the other's rest begins, or fail with its error.  This
needs a source of fewer than `2 ^ 32` bytes, so that no index and no counter overflows.
-/

namespace ContentStream.Cursor

open Checked

variable {source : Bytes}

structure At (source : Bytes) (position : Nat) (input : Bytes) : Prop where
  le_length : position ≤ source.length
  drop_eq : source.drop position = input

namespace At

variable {position start stop : Nat} {byte : UInt8} {front input rest : Bytes}

theorem zero (source : Bytes) : At source 0 source :=
  ⟨Nat.zero_le _, rfl⟩

theorem length_eq (h : At source position input) :
    position + input.length = source.length := by
  obtain ⟨hle, rfl⟩ := h
  rw [List.length_drop]
  omega

theorem peek (h : At source position input) : source[position]? = input.head? := by
  rw [← h.drop_eq, List.head?_drop]

theorem append (h : At source position (front ++ rest)) :
    At source (position + front.length) rest := by
  have hlength := h.length_eq
  rw [List.length_append] at hlength
  refine ⟨by omega, ?_⟩
  rw [← List.drop_drop, h.drop_eq, List.drop_left]

theorem next (h : At source position (byte :: input)) : At source (position + 1) input :=
  (show At source position ([byte] ++ input) from h).append

theorem rounds (h : At source position input) : input.length < source.length + 1 := by
  have := h.length_eq
  omega

theorem unique (h : At source start input) (h' : At source stop input) : start = stop := by
  have := h.length_eq
  have := h'.length_eq
  omega

theorem offset_eq (h : At source position input) (fault : StreamFault) :
    Stuck.offset source ⟨input, fault⟩ = position := by
  have := h.length_eq
  simp only [Stuck.offset]
  omega

theorem address (h : At source position input) (hsource : source.length < 2 ^ 32) (more : Nat)
    (hmore : more ≤ 3) : address (position + more) = .gives (position + more) :=
  address_eq (by have := h.le_length; omega)

theorem slice (hstart : At source start (front ++ rest)) (hstop : At source stop rest) :
    slice source start stop = .gives front := by
  obtain rfl := hstart.append.unique hstop
  rw [slice_eq ⟨Nat.le_add_right _ _, hstop.le_length⟩, ← List.take_drop, hstart.drop_eq,
    List.take_left]

end At

/-- The reader at the cursor ends as the other one, with the same rest or the same error. -/
inductive Agrees (source : Bytes) {α : Type} :
    Checked (α × Nat) → Except Stuck (α × Bytes) → Prop
  | gives {value : α} {stop : Nat} {rest : Bytes} : At source stop rest →
      Agrees source (.gives (value, stop)) (.ok (value, rest))
  | fails (stuck : Stuck) :
      Agrees source (fail (stuck.offset source) stuck.fault) (.error stuck)

theorem Agrees.of_at {α : Type} {position : Nat} {input : Bytes} (h : At source position input)
    (fault : StreamFault) :
    Agrees source (fail position fault : Checked (α × Nat)) (.error ⟨input, fault⟩) := by
  have hfails : Agrees source _ (.error ⟨input, fault⟩ : Except Stuck (α × Bytes)) := .fails _
  rwa [h.offset_eq] at hfails

theorem Agrees.of_error {α : Type} {reading : Checked (α × Nat)} {stuck : Stuck}
    (h : Agrees source reading (.error stuck)) :
    reading = fail (stuck.offset source) stuck.fault := by
  cases h
  rfl

theorem Agrees.of_ok {α : Type} {reading : Checked (α × Nat)} {value : α} {rest : Bytes}
    (h : Agrees source reading (.ok (value, rest))) :
    ∃ stop, reading = .gives (value, stop) ∧ At source stop rest := by
  cases h with
  | gives hrest => exact ⟨_, rfl, hrest⟩

theorem Agrees.cases_of_map {α β : Type} {reading : Checked (α × Nat)} {result : Except Stuck β}
    {pair : β → α × Bytes} (h : Agrees source reading (result.map pair)) :
    (∃ stuck, result = .error stuck ∧ reading = fail (stuck.offset source) stuck.fault) ∨
      ∃ taken stop, result = .ok taken ∧ reading = .gives ((pair taken).1, stop) ∧
        At source stop (pair taken).2 := by
  cases result with
  | error stuck => exact .inl ⟨stuck, rfl, h.of_error⟩
  | ok taken =>
      obtain ⟨stop, hgives, hstop⟩ := h.of_ok
      exact .inr ⟨taken, stop, rfl, hgives, hstop⟩

section Runs

variable (hsource : source.length < 2 ^ 32) {rounds position start : Nat} {input : Bytes}
include hsource

private theorem skipFrom_agrees (inComment : Bool) (h : At source position input)
    (hrounds : input.length < rounds) :
    ∃ start, skipFrom source rounds inComment position = .gives start ∧
      At source start (Separator.skipFrom inComment input) := by
  induction input generalizing rounds inComment position with
  | nil =>
      obtain ⟨rounds, rfl⟩ := Nat.exists_eq_succ_of_ne_zero (Nat.ne_zero_of_lt hrounds)
      refine ⟨position, ?_, by simpa [Separator.skipFrom] using h⟩
      rw [skipFrom, h.peek]
      rfl
  | cons byte input ih =>
      obtain ⟨rounds, rfl⟩ := Nat.exists_eq_succ_of_ne_zero (Nat.ne_zero_of_lt hrounds)
      have hmore (inComment : Bool) := ih inComment h.next
        (Nat.lt_of_succ_lt_succ hrounds)
      have haddress := h.address hsource 1 (by decide)
      rw [skipFrom, h.peek, List.head?_cons]
      dsimp only
      cases inComment with
      | true =>
          rw [if_pos rfl, haddress, gives_bind, Separator.skipFrom]
          cases Byte.isLineEnd byte with
          | true => exact hmore false
          | false => exact hmore true
      | false =>
          rw [if_neg (by decide), Separator.skipFrom]
          split
          · rw [haddress, gives_bind]
            exact hmore false
          split
          · rw [haddress, gives_bind]
            exact hmore true
          · exact ⟨position, rfl, h⟩

theorem skip_agrees (h : At source position input) :
    ∃ start, skip source position = .gives start ∧ At source start (Separator.skip input) :=
  skipFrom_agrees hsource false h h.rounds

theorem runEnd_agrees (p : UInt8 → Bool) (h : At source position input)
    (hrounds : input.length < rounds) :
    ∃ stop, runEnd source p rounds position = .gives stop ∧
      At source stop (input.dropWhile p) := by
  induction input generalizing rounds position with
  | nil =>
      obtain ⟨rounds, rfl⟩ := Nat.exists_eq_succ_of_ne_zero (Nat.ne_zero_of_lt hrounds)
      refine ⟨position, ?_, h⟩
      rw [runEnd, h.peek]
      rfl
  | cons byte input ih =>
      obtain ⟨rounds, rfl⟩ := Nat.exists_eq_succ_of_ne_zero (Nat.ne_zero_of_lt hrounds)
      rw [runEnd, h.peek, List.head?_cons, List.dropWhile_cons]
      dsimp only
      split
      · rw [h.address hsource 1 (by decide), gives_bind]
        exact ih h.next (Nat.lt_of_succ_lt_succ hrounds)
      · exact ⟨position, rfl, h⟩

theorem run_agrees (p : UInt8 → Bool) (h : At source start input) :
    ∃ stop, runEnd source p (source.length + 1) start = .gives stop ∧
      At source stop (input.dropWhile p) ∧
      slice source start stop = .gives (input.takeWhile p) := by
  obtain ⟨stop, hstop, hrest⟩ := runEnd_agrees hsource p h h.rounds
  refine ⟨stop, hstop, hrest, At.slice ?_ hrest⟩
  rwa [List.takeWhile_append_dropWhile]

theorem keyword_agrees (h : At source start input) :
    Agrees source (keyword source start)
      (.ok (input.takeWhile Byte.isRegular, input.dropWhile Byte.isRegular)) := by
  obtain ⟨stop, hstop, hrest, hslice⟩ := run_agrees hsource Byte.isRegular h
  rw [keyword, hstop, gives_bind, hslice, gives_bind]
  exact .gives hrest

end Runs

end ContentStream.Cursor
