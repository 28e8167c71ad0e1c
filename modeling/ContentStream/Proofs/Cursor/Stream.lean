import ContentStream.Proofs.Cursor.Tokens
import ContentStream.Proofs.Operation.Progress

/-!
# Streams at a cursor

The data of an inline image is searched by index, with one byte looked at in front of the index
and two behind it.  From there on a stream is read alike at the cursor and off its front: a
source of fewer than `2 ^ 32` bytes never makes the reader panic.
-/

namespace ContentStream.Cursor

open Checked

section Source

variable {source : Bytes} (hsource : source.length < 2 ^ 32) {position start dataStart index : Nat}
  {input data whole : Bytes}

section Images

include hsource

private theorem matches_imageEnd (hstart : At source start whole) :
    (imageEnd source start).Matches source (InlineImage.entriesEnd whole) where
  container := rfl
  close := by
    intro position input h
    simp only [imageEnd, InlineImage.entriesEnd, closeImage]
    rw [h.peek]
    rcases input with _ | ⟨first, _ | ⟨second, rest⟩⟩
    · exact .inl ⟨rfl, rfl⟩
    · have hnext : source[position + 1]? = none := h.next.peek
      refine .inl ⟨?_, rfl⟩
      rw [List.head?_cons, h.address hsource 1 (by decide), gives_bind, hnext]
      split <;> rfl
    · have hbehind : At source (position + 2) rest := h.next.next
      have hnext : source[position + 1]? = some second := h.next.peek
      rw [List.head?_cons, h.address hsource 1 (by decide), gives_bind, hnext,
        h.address hsource 2 (by decide), gives_bind, hbehind.peek, InlineImage.closeEntries]
      by_cases hfirst : first = 0x49
      · by_cases hsecond : second = 0x44
        · subst hfirst hsecond
          rw [if_pos rfl, if_pos rfl]
          cases rest with
          | nil => exact .inr ⟨_, _, rfl, rfl, hbehind⟩
          | cons byte rest =>
              cases hspace : Byte.isWhiteSpace byte with
              | true =>
                  simp only [List.head?_cons, hspace, if_true, Option.all_some, and_self]
                  rw [hbehind.address hsource 1 (by decide)]
                  exact .inr ⟨_, _, rfl, rfl, hbehind.next⟩
              | false => simp [hspace]
        · simp [hsecond]
      · simp [hfirst]
  unclosed := by
    intro position h
    simp only [imageEnd, InlineImage.entriesEnd]
    rw [hstart.offset_eq]

omit hsource in
private theorem atBoundary_eq (hdata : At source dataStart (data.reverse ++ input))
    (h : At source index input) :
    atBoundary source dataStart index = .gives (data.head?.any Byte.isWhiteSpace) := by
  cases data with
  | nil =>
      rw [atBoundary, if_neg (by rw [h.unique hdata]; omega)]
      rfl
  | cons byte data =>
      rw [List.reverse_cons, List.append_assoc] at hdata
      have hprevious := hdata.append
      have hindex := h.unique hprevious.next
      have hpeek : source[index - 1]? = some byte := by
        rw [hindex, Nat.add_sub_cancel]
        exact hprevious.peek
      rw [atBoundary, if_pos (by omega), less_eq (by omega), gives_bind, item_eq hpeek]
      rfl

private theorem imageData_agrees {rounds : Nat} (hstart : At source start whole)
    (hdata : At source dataStart (data.reverse ++ input)) (h : At source index input)
    (hrounds : input.length < rounds) :
    Agrees source (imageData source start dataStart rounds index)
      (match InlineImage.takeData data input with
      | some found => .ok found
      | none => .error ⟨whole, .imageEndMissing⟩) := by
  induction input generalizing rounds index data with
  | nil =>
      obtain ⟨rounds, rfl⟩ := Nat.exists_eq_succ_of_ne_zero (Nat.ne_zero_of_lt hrounds)
      have hlength := h.length_eq
      rw [List.length_nil] at hlength
      rw [imageData, h.address hsource 1 (by decide), gives_bind, if_neg (by omega)]
      exact .of_at hstart _
  | cons first input ih =>
      obtain ⟨rounds, rfl⟩ := Nat.exists_eq_succ_of_ne_zero (Nat.ne_zero_of_lt hrounds)
      have hlength := h.length_eq
      rw [imageData, h.address hsource 1 (by decide), gives_bind]
      cases input with
      | nil =>
          rw [List.length_singleton] at hlength
          rw [if_neg (by omega)]
          simp only [InlineImage.takeData, InlineImage.beginsEnd, Bool.and_false]
          exact .of_at hstart _
      | cons second rest =>
          rw [List.length_cons, List.length_cons] at hlength
          have hfirst : source[index]? = some first := h.peek
          have hsecond : source[index + 1]? = some second := h.next.peek
          have hbehind : At source (index + 2) rest := h.next.next
          rw [if_pos (by omega), atBoundary_eq hdata h, gives_bind,
            h.address hsource 2 (by decide), gives_bind, item_eq hfirst, gives_bind,
            item_eq hsecond, gives_bind, hbehind.peek, InlineImage.takeData, InlineImage.beginsEnd,
            ← Bool.and_assoc, ← Bool.and_assoc]
          split
          · rw [hdata.slice h]
            exact .gives hbehind
          · exact ih (by simpa using hdata) h.next (Nat.lt_of_succ_lt_succ hrounds)

private theorem image_agrees (h : At source start input) :
    Agrees source (image source start) ((InlineImage.take input).map Taken.pair) := by
  have hentries := entries_agrees hsource (token_reads hsource) (matches_imageEnd hsource h) h
  rw [image, InlineImage.take]
  rcases hentries.cases_of_map with
    ⟨stuck, htake, hfails⟩ | ⟨entries, dataStart, htake, hgives, hdata⟩
  · rw [htake, hfails]
    exact .fails _
  have hempty : At source dataStart (List.reverse [] ++ entries.rest) := hdata
  have hread := imageData_agrees hsource h hempty hdata hdata.rounds
  rw [htake, hgives, gives_bind]
  dsimp only
  split
  next found rest hfound =>
    rw [hfound] at hread
    obtain ⟨stop, hgives, hstop⟩ := hread.of_ok
    rw [hgives]
    exact .gives hstop
  next hnone =>
    rw [hnone] at hread
    rw [hread.of_error]
    exact .fails _

end Images

/-! ## Streams -/

def answer (source : Bytes) : Except Stuck (List Operation) → Checked (List Operation)
  | .ok operations => .gives operations
  | .error stuck => fail (stuck.offset source) stuck.fault

theorem operations_eq (hsource : source.length < 2 ^ 32) :
    operations source = ofExcept (Operation.ofBytes source) := by
  have hstream : operations source = answer source (Operation.takeAll [] [] source) := by
    refine loop_agrees Operation.computes_streamLoop Operation.advances_streamLoop
      (fun reading result => reading = answer source result)
      (fun rounds reading position =>
        operationsFrom source rounds reading.pending reading.operations position)
      (fun rounds reading position input h => ?_) ⟨[], []⟩ (At.zero source) (Nat.lt_succ_self _)
    rw [operationsFrom]
    simp only [Operation.streamLoop]
    rcases (token_reads hsource h).cases_of_map with
      ⟨stuck, htoken, hfails⟩ | ⟨taken?, next, htoken, hgives, hnext⟩
    · rw [htoken, hfails]
      rfl
    rw [htoken, hgives, gives_bind]
    cases taken? with
    | none => rfl
    | some taken =>
        obtain ⟨lexeme, rest, shorter⟩ := taken
        have hrest : At source next rest := hnext
        cases lexeme with
        | operand value => exact ⟨next, hrest, rfl⟩
        | keyword word =>
            dsimp only [found]
            split
            next =>
              rcases (image_agrees hsource hrest).cases_of_map with
                ⟨stuck, htake, hfails⟩ | ⟨image, stop, htake, hgives, hstop⟩
              · rw [htake, hfails]
                rfl
              · rw [htake, hgives]
                exact ⟨stop, hstop, rfl⟩
            next => exact ⟨next, hrest, rfl⟩
  rw [hstream, Operation.ofBytes]
  cases Operation.takeAll [] [] source <;> rfl

end Source

end ContentStream.Cursor
