import ContentStream.Proofs.Operation.Accepted
import ContentStream.Proofs.Operation.Complete
import ContentStream.Proofs.Token.Stops

/-!
# Progress through a stream

A stream is read token by token, and each token takes something off the input.  The loop
over them therefore ends, there are no more operations than bytes, and an error names a
place in the stream.
-/

namespace ContentStream

namespace InlineImage

theorem behind_of_take {input : Bytes} {image : Taken (Dictionary × Bytes) input}
    (h : take input = .ok image) : image.rest.Behind input :=
  ⟨(take_sound (List.suffix_refl input) h).2.2.2, image.shorter⟩

theorem take_failsAs {p : Bytes → Stuck → Prop} (hp : Covers p) (input : Bytes) :
    FailsAs p input (take input) := by
  unfold take
  split
  next stuck hentries =>
    exact failsAs_error (Token.takeEntries_failsAs hp (Token.read_failsAs hp nestingLimit)
      (by simp [entriesEnd]) [] (hp.imageDataMissing input) List.suffix_rfl stuck hentries)
  next =>
    split
    · exact failsAs_ok
    · exact failsAs_error (hp.imageEndMissing input)

end InlineImage

namespace Operation

def streamLoop : Loop Reading (Except Stuck (List Operation)) where
  round reading input :=
    match Token.read nestingLimit input with
    | .error stuck => .ends (.error stuck)
    | .ok none => .ends (.ok reading.operations.reverse)
    | .ok (some ⟨.operand value, rest, _⟩) =>
      .again ⟨value :: reading.pending, reading.operations⟩ rest
    | .ok (some ⟨.keyword word, rest, _⟩) =>
      if word = InlineImage.keyword then
        match InlineImage.take rest with
        | .error stuck => .ends (.error stuck)
        | .ok image =>
          let (entries, data) := image.value
          let operation :=
            ⟨Utf8.decodeLossy word, [.dictionary entries, .literalString data]⟩
          .again ⟨[], operation :: reading.operations⟩ image.rest
      else
        .again ⟨[], ⟨Utf8.decodeLossy word, reading.pending.reverse⟩ :: reading.operations⟩ rest

theorem computes_streamLoop :
    streamLoop.Computes fun reading => takeAll reading.pending reading.operations := by
  intro reading input
  simp only [streamLoop]
  rw [takeAll]
  cases hread : Token.read nestingLimit input with
  | error stuck => rfl
  | ok found =>
      cases found with
      | none => rfl
      | some taken =>
          obtain ⟨token, rest, shorter⟩ := taken
          cases token with
          | operand value => rfl
          | keyword word =>
              dsimp only
              split
              next => cases himage : InlineImage.take rest <;> rfl
              next => rfl

theorem advances_streamLoop : streamLoop.Advances := by
  intro reading input next rest h
  simp only [streamLoop] at h
  split at h
  next => contradiction
  next => contradiction
  next behind shorter hread =>
    obtain ⟨-, rfl⟩ := Round.again.inj h
    exact ⟨Token.suffix_of_read hread, shorter⟩
  next behind shorter hread =>
    have hbehind : behind.Behind input := ⟨Token.suffix_of_read hread, shorter⟩
    split at h
    next =>
      split at h
      next => contradiction
      next image himage =>
        obtain ⟨-, rfl⟩ := Round.again.inj h
        exact (InlineImage.behind_of_take himage).in_suffix hbehind.1
    next =>
      obtain ⟨-, rfl⟩ := Round.again.inj h
      exact hbehind

theorem takeAll_failsAs {p : Bytes → Stuck → Prop} (hp : Covers p) (pending : List Operand)
    (operations : List Operation) (input : Bytes) :
    FailsAs p input (takeAll pending operations input) := by
  refine computes_streamLoop.holds advances_streamLoop (fun input result => FailsAs p input result)
    ?_ (fun hrest hgood stuck hstuck => hp.in_suffix hrest (hgood stuck hstuck))
    ⟨pending, operations⟩ input
  intro reading input result h
  simp only [streamLoop] at h
  split at h
  next stuck hread =>
    obtain rfl := Round.ends.inj h
    exact failsAs_error (Token.read_failsAs hp nestingLimit input stuck hread)
  next =>
    obtain rfl := Round.ends.inj h
    exact failsAs_ok
  next => contradiction
  next rest _ hread =>
    split at h
    next =>
      split at h
      next stuck himage =>
        obtain rfl := Round.ends.inj h
        exact failsAs_error (hp.in_suffix (Token.suffix_of_read hread)
          (InlineImage.take_failsAs hp rest stuck himage))
      next => contradiction
    next => contradiction

theorem takeAll_stopsIn (pending : List Operand) (operations : List Operation) (input : Bytes) :
    StopsIn input (takeAll pending operations input) :=
  takeAll_failsAs covers_stopsIn pending operations input

theorem ReadsOne.length_lt {before after : Reading} {input rest : Bytes}
    (h : ReadsOne before input after rest) :
    after.operations.length ≤ before.operations.length + 1 ∧ rest.length < input.length := by
  cases h with
  | operand hread => exact ⟨Nat.le_succ _, hread.1⟩
  | keyword _ hread => exact ⟨Nat.le_refl _, hread.1⟩
  | image hread himage => exact ⟨Nat.le_refl _, Nat.lt_trans himage.1 hread.1⟩

/-- Every operation costs at least one byte. -/
theorem Reads.length_le {before last : Reading} {input behind : Bytes}
    (h : Reads before input last behind) :
    last.operations.length + behind.length ≤ before.operations.length + input.length := by
  induction h with
  | refl => exact Nat.le_refl _
  | step hone _ ih =>
      have := hone.length_lt
      omega

theorem length_le_of_takeAll {source : Bytes} {operations : List Operation}
    (h : takeAll [] [] source = .ok operations) : operations.length ≤ source.length := by
  obtain ⟨last, behind, hreads, -, rfl⟩ := exists_reads h
  have hlength : last.operations.length + behind.length ≤ 0 + source.length := hreads.length_le
  rw [List.length_reverse]
  omega

theorem Reads.suffix {before last : Reading} {input behind : Bytes}
    (h : Reads before input last behind) : behind <:+ input := by
  induction h with
  | refl => exact List.suffix_rfl
  | step hone _ ih =>
      refine ih.trans ?_
      cases hone with
      | operand hread => exact Token.suffix_of_read hread.2
      | keyword _ hread => exact Token.suffix_of_read hread.2
      | image hread himage =>
          exact (InlineImage.behind_of_take himage.2).1.trans (Token.suffix_of_read hread.2)

/-! ## Places where a token is read -/

/-- While the source is read, a token that is in no container is read at the place: in the
stream itself, or as a value of an inline image. -/
inductive ReadsToken (source : Bytes) : (place : Bytes) → Prop where
  | stream {last : Reading} {place : Bytes} :
      Reads ⟨[], []⟩ source last place → ReadsToken source place
  | image {last : Reading} {input start rest behind : Bytes} {entries : Dictionary}
      {key : Taken String (0x2F :: behind)} :
      Reads ⟨[], []⟩ source last input →
      (Token.read nestingLimit).Yields input (.keyword InlineImage.keyword) start →
      (Token.entryLoop (Token.read nestingLimit) (InlineImage.entriesEnd start)).Visits
        [] start entries rest →
      Separator.skip rest = 0x2F :: behind → Name.take 0x2F behind = .ok key →
      ReadsToken source key.rest

/-- While the source is read, a token is read at the place, the given number of containers
deep. -/
def ReadsWithin (source : Bytes) (containers : Nat) (place : Bytes) : Prop :=
  ∃ outer levels, ReadsToken source outer ∧
    Token.Nests containers nestingLimit outer levels place

section Places

variable {source place : Bytes} {containers : Nat}

theorem ReadsToken.suffix (h : ReadsToken source place) : place <:+ source := by
  cases h with
  | stream hreads => exact hreads.suffix
  | @image last input start rest behind entries key hreads hkeyword hvisits hskip hkey =>
      have hstart : start <:+ source := (Token.suffix_of_read hkeyword.2).trans hreads.suffix
      have hrest : rest <:+ start :=
        hvisits.suffix (Token.advances_entryLoop nestingLimit (InlineImage.entriesEnd start))
      exact (Name.take_suffix hkey).trans
        ((Token.suffix_of_skip hskip).trans (hrest.trans hstart))

theorem ReadsWithin.suffix (h : ReadsWithin source containers place) : place <:+ source := by
  obtain ⟨outer, levels, houter, hnests⟩ := h
  exact hnests.suffix.1.trans houter.suffix

theorem ReadsWithin.le_nestingLimit (h : ReadsWithin source containers place) :
    containers ≤ nestingLimit := by
  obtain ⟨outer, levels, -, hnests⟩ := h
  have := hnests.levels_eq
  omega

theorem ReadsToken.stuck {stuck : Stuck} (h : ReadsToken source place)
    (hstuck : Token.read nestingLimit place = .error stuck) :
    takeAll [] [] source = .error stuck := by
  cases h with
  | @stream last place hreads =>
      have hlast : takeAll [] [] source = takeAll last.pending last.operations place :=
        hreads.takeAll_eq
      rw [hlast, takeAll, hstuck]
  | @image last input start rest behind entries key hreads hkeyword hvisits hskip hkey =>
      have hround : Token.takeEntries (Token.read nestingLimit) (InlineImage.entriesEnd start)
          entries rest = .error stuck :=
        Token.takeEntries_stuck hskip (InlineImage.close?_slash start behind) ⟨key.shorter, hkey⟩
          (Token.takeOperand_stuck hstuck .imageDictionary)
      have hentries : Token.takeEntries (Token.read nestingLimit) (InlineImage.entriesEnd start)
          [] start = .error stuck :=
        Token.eq_error_of_map ((Token.computes_entryLoop _ _).visits hvisits) hround
      have himage : InlineImage.take start = .error stuck := by rw [InlineImage.take, hentries]
      have hlast : takeAll [] [] source = takeAll last.pending last.operations input :=
        hreads.takeAll_eq
      obtain ⟨shorter, hkeyword⟩ := hkeyword
      rw [hlast, takeAll, hkeyword]
      dsimp only
      rw [if_pos rfl, himage]

theorem ReadsWithin.stuck {levels : Nat} {stuck : Stuck} (h : ReadsWithin source containers place)
    (hlevels : levels + containers = nestingLimit)
    (hstuck : Token.read levels place = .error stuck) :
    ofBytes source = .error (.malformedStream (stuck.offset source) stuck.fault) := by
  obtain ⟨outer, lower, houter, hnests⟩ := h
  obtain rfl : levels = lower := by
    have := hnests.levels_eq
    omega
  rw [ofBytes, houter.stuck (hnests.stuck hstuck)]

end Places

end Operation

namespace Bytes

variable {source rest : Bytes} {position : Nat}

theorem exists_eq_drop (h : rest <:+ source.drop position) (hposition : position ≤ source.length) :
    ∃ place, position ≤ place ∧ place ≤ source.length ∧ rest = source.drop place := by
  obtain ⟨before, hbefore⟩ := h
  have hlength := congrArg List.length hbefore
  rw [List.length_append, List.length_drop] at hlength
  refine ⟨position + before.length, by omega, by omega, ?_⟩
  rw [← List.drop_drop, ← hbefore, List.drop_left]

theorem exists_eq_drop_of_suffix (h : rest <:+ source) :
    ∃ place, place ≤ source.length ∧ rest = source.drop place := by
  obtain ⟨place, -, hplace, heq⟩ := exists_eq_drop (source.drop_zero ▸ h) (Nat.zero_le _)
  exact ⟨place, hplace, heq⟩

theorem Behind.exists_eq_drop (h : rest.Behind (source.drop position)) :
    ∃ place, position < place ∧ place ≤ source.length ∧ rest = source.drop place := by
  obtain ⟨hsuffix, hshorter⟩ := h
  rw [List.length_drop] at hshorter
  obtain ⟨place, hfrom, hto, rfl⟩ := Bytes.exists_eq_drop hsuffix (by omega)
  rw [List.length_drop] at hshorter
  exact ⟨place, by omega, hto, rfl⟩

end Bytes

/--
What a reader does that stands at the position: what it finds ends behind the position, or
only separators are left up to the end, or it stops no earlier than where it stands.
-/
def Progresses {α : Type} (source : Bytes) (position : Nat) :
    Except Stuck (Option (Taken α (source.drop position))) → Prop
  | .ok (some taken) =>
    ∃ place, position < place ∧ place ≤ source.length ∧ taken.rest = source.drop place
  | .ok none => Separator.skip (source.drop position) = []
  | .error stuck =>
    ∃ place, position ≤ place ∧ place ≤ source.length ∧ stuck.rest = source.drop place

theorem Token.read_progresses (levels : Nat) (source : Bytes) (position : Nat) :
    Progresses source position (read levels (source.drop position)) := by
  cases hread : read levels (source.drop position) with
  | ok found =>
      cases found with
      | none => exact skip_of_read_eq_none hread
      | some taken =>
          have hbehind : taken.rest.Behind (source.drop position) :=
            ⟨suffix_of_read hread, taken.shorter⟩
          exact hbehind.exists_eq_drop
  | error stuck =>
      refine Bytes.exists_eq_drop (read_stopsIn levels _ _ hread) ?_
      -- Behind the end of the source there is nothing to stop at.
      by_contra hposition
      have hnil : source.drop position = [] := List.drop_eq_nil_of_le (by omega)
      have hnone : read levels [] = .ok none := by
        rw [read_eq]
        rfl
      rw [hnil, hnone] at hread
      contradiction

namespace Operation

structure LoopsProceed : Prop where
  separators : Separator.skipping.Proceeds Separator.skipFrom
  literal : Literal.scanning.Proceeds fun scan =>
    Literal.extent scan.inner scan.escaped scan.text
  hex : Hex.scanning.Proceeds Hex.extent
  items (levels : Nat) : (Token.itemLoop (Token.read levels)).Proceeds fun items input =>
    (Token.takeItems (Token.read levels) items input).map Taken.pair
  entries (levels : Nat) (ending : Token.EntryEnd) :
    (Token.entryLoop (Token.read levels) ending).Proceeds fun entries input =>
      (Token.takeEntries (Token.read levels) ending entries input).map Taken.pair
  data : InlineImage.searching.Proceeds InlineImage.takeData
  operations : streamLoop.Proceeds fun reading => takeAll reading.pending reading.operations

theorem loopsProceed : LoopsProceed where
  separators := Separator.computes_skipping.proceeds Separator.advances_skipping
  literal := Literal.computes_scanning.proceeds Literal.advances_scanning
  hex := Hex.computes_scanning.proceeds Hex.advances_scanning
  items levels := (Token.computes_itemLoop _).proceeds (Token.advances_itemLoop levels)
  entries levels ending :=
    (Token.computes_entryLoop _ ending).proceeds (Token.advances_entryLoop levels ending)
  data := InlineImage.computes_searching.proceeds InlineImage.advances_searching
  operations := computes_streamLoop.proceeds advances_streamLoop

def Bounded (source : Bytes) : Except Error (List Operation) → Prop
  | .ok operations => operations.length ≤ source.length
  | .error error => ∃ offset stuck, takeAll [] [] source = .error stuck ∧
    offset ≤ source.length ∧ stuck.rest = source.drop offset ∧
    error = .malformedStream offset stuck.fault

theorem bounded_ofBytes (source : Bytes) : Bounded source (ofBytes source) := by
  unfold ofBytes
  cases htaken : takeAll [] [] source with
  | ok operations => exact length_le_of_takeAll htaken
  | error stuck =>
      have hrest : stuck.rest <:+ source := takeAll_stopsIn [] [] source stuck htaken
      obtain ⟨place, hplace, heq⟩ := Bytes.exists_eq_drop_of_suffix hrest
      have hoffset : stuck.offset source = place := by
        rw [Stuck.offset, heq, List.length_drop]
        omega
      exact ⟨place, stuck, htaken, hplace, heq, by rw [hoffset]⟩

/--
Reading always makes progress.  A token that is found ends strictly behind the place where
reading began; every round of every loop takes something off the input; what is read inside
a container is read further behind, nothing else that an inner reader does matters, and no
more than 64 containers are open.  So a stream is read in at most one round more than it
has bytes, to no more operations than bytes or to a syntax error within the stream.
-/
theorem ofBytes_progresses (source : Bytes) :
    (∀ levels position, Progresses source position (Token.read levels (source.drop position))) ∧
    LoopsProceed ∧
    (∀ levels input place, Token.Enters (Token.read levels) input place → place.Behind input) ∧
    (∀ levels input (inside : Reader Token),
      (∀ place, Token.Enters (Token.read levels) input place →
        inside place = Token.read levels place) →
      Token.readWith (some inside) input = Token.read (levels + 1) input) ∧
    (∀ containers place, ReadsWithin source containers place →
      containers ≤ 64 ∧ place <:+ source) ∧
    streamLoop.within (source.length + 1) ⟨[], []⟩ source = some (takeAll [] [] source) ∧
    Bounded source (ofBytes source) := by
  refine ⟨fun levels position => Token.read_progresses levels source position, loopsProceed,
    fun levels input place hplace => hplace.behind, fun levels input inside hsame => ?_,
    fun containers place hplace => ?_, loopsProceed.operations.within_eq ⟨[], []⟩ source,
    bounded_ofBytes source⟩
  · exact Token.readWith_congr fun {place} => hsame place
  · exact ⟨hplace.le_nestingLimit, hplace.suffix⟩

def openArrays : Bytes :=
  Bytes.ofChars "[[1".toList

theorem enters_openArrays (levels : Nat) :
    Token.Enters (Token.read levels) openArrays (openArrays.drop 1) ∧
      Token.Enters (Token.read levels) (openArrays.drop 1) (openArrays.drop 2) :=
  ⟨.item (by rfl) (.here _ _) (by rfl) (by decide),
    .item (by rfl) (.here _ _) (by rfl) (by decide)⟩

theorem ofBytes_progresses_openArrays :
    ReadsWithin openArrays 2 (openArrays.drop 2) ∧ openArrays.drop 2 <:+ openArrays ∧
    Bytes.Behind (openArrays.drop 1) openArrays ∧
    Token.readWith (some (Token.read 63)) openArrays = Token.read nestingLimit openArrays ∧
    ofBytes openArrays = .error (.malformedStream 3 (.unterminated .array)) ∧
    Bounded openArrays (.error (.malformedStream 3 (.unterminated .array))) := by
  have hplace : ReadsWithin openArrays 2 (openArrays.drop 2) :=
    ⟨openArrays, 62, .stream (.refl _ _),
      .enter (enters_openArrays 63).1 (.enter (enters_openArrays 62).2 (.here _ _))⟩
  have herror : ofBytes openArrays = .error (.malformedStream 3 (.unterminated .array)) := by
    decide +kernel
  obtain ⟨-, -, hbehind, hcongr, hwithin, -, hbounded⟩ := ofBytes_progresses openArrays
  rw [herror] at hbounded
  exact ⟨hplace, (hwithin 2 _ hplace).2, hbehind 63 _ _ (enters_openArrays 63).1,
    hcongr 63 openArrays _ fun _ _ => rfl, herror, hbounded⟩

end Operation

end ContentStream
