import ContentStream.Proofs.Operation.Lexed

/-!
# Loops round by round

A loop of the reader is described by what one round of it does: it goes on further
behind in the input, or it ends.  Each function that loops computes what its rounds
come to.  If every round takes something off the input, then there is at most one round
more than there are bytes.
-/

namespace ContentStream

namespace Bytes

def Behind (rest input : Bytes) : Prop :=
  rest <:+ input ∧ rest.length < input.length

theorem behind_cons (byte : UInt8) (rest : Bytes) : Behind rest (byte :: rest) :=
  ⟨List.suffix_cons byte rest, Nat.lt_succ_self _⟩

variable {place rest input : Bytes}

theorem Behind.of_suffix (h : rest.Behind input) (hplace : place <:+ rest) :
    place.Behind input :=
  ⟨hplace.trans h.1, Nat.lt_of_le_of_lt hplace.length_le h.2⟩

theorem Behind.in_suffix (h : place.Behind rest) (hrest : rest <:+ input) :
    place.Behind input :=
  ⟨h.1.trans hrest, Nat.lt_of_lt_of_le h.2 hrest.length_le⟩

end Bytes

inductive Round (σ α : Type) where
  | again (state : σ) (rest : Bytes)
  | ends (result : α)

structure Loop (σ α : Type) where
  round : σ → Bytes → Round σ α

namespace Loop

variable {σ α : Type} {loop : Loop σ α} {f : σ → Bytes → α} {state next last : σ}
  {input rest behind : Bytes}

def within (loop : Loop σ α) : (rounds : Nat) → σ → Bytes → Option α
  | 0, _, _ => none
  | rounds + 1, state, input =>
    match loop.round state input with
    | .again next rest => loop.within rounds next rest
    | .ends result => some result

def Advances (loop : Loop σ α) : Prop :=
  ∀ {state input next rest}, loop.round state input = .again next rest → rest.Behind input

/-- The function does one round, and from there on what it does itself. -/
def Computes (loop : Loop σ α) (f : σ → Bytes → α) : Prop :=
  ∀ state input, f state input =
    match loop.round state input with
    | .again next rest => f next rest
    | .ends result => result

/-- The loop that begins at the first state and input begins a round at the second. -/
inductive Visits (loop : Loop σ α) : σ → Bytes → σ → Bytes → Prop where
  | here (state : σ) (input : Bytes) : Visits loop state input state input
  | again {state : σ} {input : Bytes} {next : σ} {rest : Bytes} {last : σ} {behind : Bytes} :
      loop.round state input = .again next rest → Visits loop next rest last behind →
      Visits loop state input last behind

theorem Computes.ends (h : loop.Computes f) {result : α}
    (hround : loop.round state input = .ends result) : f state input = result := by
  rw [h, hround]

theorem Computes.again (h : loop.Computes f)
    (hround : loop.round state input = .again next rest) : f state input = f next rest := by
  rw [h, hround]

theorem Visits.suffix (h : loop.Visits state input last behind) (hadvances : loop.Advances) :
    behind <:+ input := by
  induction h with
  | here => exact List.suffix_rfl
  | again hround _ ih => exact ih.trans (hadvances hround).1

theorem Computes.visits (h : loop.Computes f) (hvisits : loop.Visits state input last behind) :
    f state input = f last behind := by
  induction hvisits with
  | here => rfl
  | again hround _ ih => rw [h.again hround, ih]

theorem Computes.within_eq (h : loop.Computes f) (hadvances : loop.Advances) {rounds : Nat}
    (hrounds : input.length < rounds) :
    loop.within rounds state input = some (f state input) := by
  induction rounds generalizing state input with
  | zero => omega
  | succ rounds ih =>
      rw [within]
      cases hround : loop.round state input with
      | ends result => rw [h.ends hround]
      | again next rest =>
          have hshorter := (hadvances hround).2
          rw [h.again hround]
          exact ih (by omega)

/-- What holds of each end, and of an input if it holds of a suffix, holds of the result. -/
theorem Computes.holds (h : loop.Computes f) (hadvances : loop.Advances) (good : Bytes → α → Prop)
    (hends : ∀ {state input result}, loop.round state input = .ends result → good input result)
    (hsuffix : ∀ {input rest result}, rest <:+ input → good rest result → good input result)
    (state : σ) (input : Bytes) : good input (f state input) := by
  induction hlength : input.length using Nat.strong_induction_on generalizing state input with
  | _ length ih =>
    cases hround : loop.round state input with
    | ends result =>
        rw [h.ends hround]
        exact hends hround
    | again next rest =>
        rw [h.again hround]
        obtain ⟨hrest, hshorter⟩ := hadvances hround
        exact hsuffix hrest (ih rest.length (hlength ▸ hshorter) _ _ rfl)

theorem Computes.congr {loop' : Loop σ α} {f' : σ → Bytes → α} (h : loop.Computes f)
    (h' : loop'.Computes f') (hadvances : loop.Advances)
    (hsame : ∀ {next rest}, loop.Visits state input next rest →
      loop'.round next rest = loop.round next rest) : f' state input = f state input := by
  induction hlength : input.length using Nat.strong_induction_on generalizing state input with
  | _ length ih =>
    have hfirst := hsame (.here state input)
    cases hround : loop.round state input with
    | ends result => rw [h.ends hround, h'.ends (hfirst.trans hround)]
    | again next rest =>
        rw [h.again hround, h'.again (hfirst.trans hround)]
        have hshorter := (hadvances hround).2
        exact ih rest.length (hlength ▸ hshorter) (fun hvisits => hsame (.again hround hvisits)) rfl

/-- Every round advances, and the function is what the rounds come to, of which there is at
most one more than there are bytes. -/
structure Proceeds (loop : Loop σ α) (f : σ → Bytes → α) : Prop where
  advances : loop.Advances
  within_eq (state : σ) (input : Bytes) :
    loop.within (input.length + 1) state input = some (f state input)

theorem Computes.proceeds (h : loop.Computes f) (hadvances : loop.Advances) :
    loop.Proceeds f :=
  ⟨hadvances, fun _ _ => h.within_eq hadvances (Nat.lt_succ_self _)⟩

theorem advances_of_tail (hnil : ∀ {state next rest}, loop.round state [] ≠ .again next rest)
    (hcons : ∀ {state byte tail next rest},
      loop.round state (byte :: tail) = .again next rest → tail = rest) : loop.Advances := by
  intro state input next rest h
  cases input with
  | nil => exact absurd h hnil
  | cons byte tail =>
      obtain rfl := hcons h
      exact Bytes.behind_cons byte tail

end Loop

/-! ## Loops over single bytes -/

namespace Separator

def skipping : Loop Bool Bytes where
  round
    | _, [] => .ends []
    | true, byte :: rest => .again (!Byte.isLineEnd byte) rest
    | false, byte :: rest =>
      if Byte.isWhiteSpace byte then .again false rest
      else if byte = 0x25 then .again true rest
      else .ends (byte :: rest)

theorem computes_skipping : skipping.Computes skipFrom := by
  intro inComment input
  cases input with
  | nil => cases inComment <;> rfl
  | cons byte rest =>
      cases inComment with
      | true => cases hend : Byte.isLineEnd byte <;> simp [skipFrom, skipping, hend]
      | false =>
          simp only [skipFrom, skipping]
          split
          · rfl
          split
          · rfl
          · rfl

theorem advances_skipping : skipping.Advances := by
  refine Loop.advances_of_tail (by simp [skipping]) fun {inComment byte tail next rest} h => ?_
  cases inComment with
  | true => exact (Round.again.inj h).2
  | false =>
      simp only [skipping] at h
      split at h
      · exact (Round.again.inj h).2
      split at h
      · exact (Round.again.inj h).2
      · contradiction

end Separator

namespace Literal

/-- What is known inside a literal string: the further parentheses that are open, whether a
backslash stands in front, and the text so far in reverse order. -/
structure Scan where
  inner : Nat
  escaped : Bool
  text : Bytes

def scanning : Loop Scan (Except StreamFault (Bytes × Bytes)) where
  round
    | scan, [] =>
      .ends (.error (if scan.escaped then .unterminatedEscape else .unterminatedLiteral))
    | ⟨inner, escaped, text⟩, byte :: rest =>
      if escaped then .again ⟨inner, false, byte :: text⟩ rest
      else if byte = 0x5C then .again ⟨inner, true, byte :: text⟩ rest
      else if byte = 0x28 then .again ⟨inner + 1, false, byte :: text⟩ rest
      else if byte = 0x29 then
        match inner with
        | 0 => .ends (.ok (text.reverse, rest))
        | outer + 1 => .again ⟨outer, false, byte :: text⟩ rest
      else .again ⟨inner, false, byte :: text⟩ rest

theorem computes_scanning :
    scanning.Computes fun scan => extent scan.inner scan.escaped scan.text := by
  rintro ⟨inner, escaped, text⟩ input
  cases input with
  | nil => rfl
  | cons byte rest =>
      simp only [extent, scanning]
      split
      · rfl
      split
      · rfl
      split
      · rfl
      split
      · cases inner <;> rfl
      · rfl

theorem advances_scanning : scanning.Advances := by
  refine Loop.advances_of_tail (by simp [scanning]) fun {scan byte tail next rest} h => ?_
  obtain ⟨inner, escaped, text⟩ := scan
  simp only [scanning] at h
  split at h
  · exact (Round.again.inj h).2
  split at h
  · exact (Round.again.inj h).2
  split at h
  · exact (Round.again.inj h).2
  split at h
  · cases inner with
    | zero => contradiction
    | succ outer => exact (Round.again.inj h).2
  · exact (Round.again.inj h).2

end Literal

namespace Hex

def scanning : Loop Bytes (Except (Option Stuck) (Bytes × Bytes)) where
  round
    | _, [] => .ends (.error none)
    | digits, byte :: rest =>
      if byte = 0x3E then .ends (.ok (digits.reverse, rest))
      else if Byte.isWhiteSpace byte then .again digits rest
      else
        match Byte.hexValue? byte with
        | some digit => .again (digit :: digits) rest
        | none => .ends (.error (some ⟨rest, .hexDigit byte⟩))

theorem computes_scanning : scanning.Computes extent := by
  intro digits input
  cases input with
  | nil => rfl
  | cons byte rest =>
      simp only [extent, scanning]
      split
      · rfl
      split
      · rfl
      · cases Byte.hexValue? byte <;> rfl

theorem advances_scanning : scanning.Advances := by
  refine Loop.advances_of_tail (by simp [scanning]) fun {digits byte tail next rest} h => ?_
  simp only [scanning] at h
  split at h
  · contradiction
  split at h
  · exact (Round.again.inj h).2
  · cases hdigit : Byte.hexValue? byte with
    | some digit =>
        rw [hdigit] at h
        exact (Round.again.inj h).2
    | none =>
        rw [hdigit] at h
        contradiction

end Hex

namespace InlineImage

def searching : Loop Bytes (Option (Bytes × Bytes)) where
  round
    | _, [] => .ends none
    | data, byte :: rest =>
      if data.head?.any Byte.isWhiteSpace && beginsEnd (byte :: rest) then
        .ends (some (data.reverse, rest.drop 1))
      else
        .again (byte :: data) rest

theorem computes_searching : searching.Computes takeData := by
  intro data input
  cases input with
  | nil => rfl
  | cons byte rest =>
      simp only [takeData, searching]
      split
      · rfl
      · rfl

theorem advances_searching : searching.Advances := by
  refine Loop.advances_of_tail (by simp [searching]) fun {data byte tail next rest} h => ?_
  simp only [searching] at h
  split at h
  · contradiction
  · exact (Round.again.inj h).2

end InlineImage

end ContentStream
