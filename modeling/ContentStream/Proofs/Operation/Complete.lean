import ContentStream.Proofs.Operation.Followed

/-!
# Streams that are read to their end

Reading a stream is a sequence of steps, each of which takes an operand, an operator or an
inline image.  Where the stream ends no step is left to take; what is left of the input
is separators, the last of which may be a comment that nothing ends.
-/

namespace ContentStream

variable {more : Bytes}

namespace Separator

/-- White space and comments, and then a comment up to the end of the input. -/
def OpensComment (gap : Bytes) : Prop :=
  ∃ before text, gap = before ++ 0x25 :: text ∧ Blank before ∧
    ∀ byte ∈ text, Byte.isLineEnd byte = false

private theorem OpensComment.cons_blank {first gap : Bytes} (hfirst : Blank first)
    (h : OpensComment gap) : OpensComment (first ++ gap) := by
  obtain ⟨before, text, rfl, hbefore, htext⟩ := h
  exact ⟨first ++ before, text, by simp, hfirst.append hbefore, htext⟩

private theorem skipFrom_open {text : Bytes} (h : ∀ byte ∈ text, Byte.isLineEnd byte = false) :
    skipFrom true text = [] := by
  induction text with
  | nil => rfl
  | cons byte text ih =>
      rw [skipFrom, h byte (by simp), if_neg (by decide)]
      exact ih fun other hother => h other (by simp [hother])

theorem OpensComment.skip_eq_nil {gap : Bytes} (h : OpensComment gap) : skip gap = [] := by
  obtain ⟨before, text, rfl, hbefore, htext⟩ := h
  rw [hbefore.skip_append, ← skipFrom_open htext]
  rfl

private theorem cases_comment (rest : Bytes) : (∀ byte ∈ rest, Byte.isLineEnd byte = false) ∨
    ∃ text lineEnd behind, rest = text ++ lineEnd :: behind ∧
      (∀ byte ∈ text, Byte.isLineEnd byte = false) ∧ Byte.isLineEnd lineEnd = true := by
  induction rest with
  | nil => exact .inl (by simp)
  | cons byte rest ih =>
      cases hbyte : Byte.isLineEnd byte with
      | true => exact .inr ⟨[], byte, rest, rfl, by simp, hbyte⟩
      | false =>
          rcases ih with hopen | ⟨text, lineEnd, behind, rfl, htext, hend⟩
          · exact .inl (List.forall_mem_cons.2 ⟨hbyte, hopen⟩)
          · exact .inr ⟨byte :: text, lineEnd, behind, rfl,
              List.forall_mem_cons.2 ⟨hbyte, htext⟩, hend⟩

theorem Blank.skip_eq_nil {gap : Bytes} (h : Blank gap) : skip gap = [] := by
  rw [← List.append_nil gap, h.skip_append]
  rfl

theorem exists_blank_or_opensComment (input : Bytes) :
    (∃ gap, Blank gap ∧ input = gap ++ skip input) ∨ OpensComment input := by
  have hcons {first behind : Bytes} (hfirst : Blank first)
      (hbehind : (∃ gap, Blank gap ∧ behind = gap ++ skip behind) ∨ OpensComment behind) :
      (∃ gap, Blank gap ∧ first ++ behind = gap ++ skip (first ++ behind)) ∨
        OpensComment (first ++ behind) := by
    rcases hbehind with ⟨gap, hgap, heq⟩ | hopen
    · refine .inl ⟨first ++ gap, hfirst.append hgap, ?_⟩
      rw [hfirst.skip_append, List.append_assoc, ← heq]
    · exact .inr (OpensComment.cons_blank hfirst hopen)
  -- Up to the end of its line a comment is skipped at once.
  induction hlength : input.length using Nat.strong_induction_on generalizing input with
  | _ length ih =>
    subst hlength
    cases input with
    | nil => exact .inl ⟨[], .nil, rfl⟩
    | cons byte rest =>
        by_cases hspace : Byte.isWhiteSpace byte = true
        · exact hcons (.space hspace .nil) (ih rest.length (by simp) rest rfl)
        by_cases hcomment : byte = 0x25
        · subst hcomment
          rcases cases_comment rest with hopen | ⟨text, lineEnd, behind, rfl, htext, hend⟩
          · exact .inr ⟨[], rest, rfl, .nil, hopen⟩
          · have hfirst : Blank (0x25 :: (text ++ [lineEnd])) := .comment htext hend .nil
            have hsplit : 0x25 :: (text ++ lineEnd :: behind) =
                0x25 :: (text ++ [lineEnd]) ++ behind := by simp
            have shorter : behind.length < (0x25 :: (text ++ lineEnd :: behind)).length := by
              simp only [List.length_cons, List.length_append]
              omega
            rw [hsplit]
            exact hcons hfirst (ih behind.length shorter behind rfl)
        · refine .inl ⟨[], .nil, ?_⟩
          rw [skip_other (by simp [isOther, hspace, hcomment]), List.nil_append]

theorem blank_or_opensComment {gap : Bytes} (h : skip gap = []) : Blank gap ∨ OpensComment gap := by
  rcases exists_blank_or_opensComment gap with ⟨first, hfirst, heq⟩ | hopen
  · rw [h, List.append_nil] at heq
    exact .inl (heq ▸ hfirst)
  · exact .inr hopen

theorem exists_blank_of_skip {input tail : Bytes} {byte : UInt8} (h : skip input = byte :: tail) :
    ∃ gap, Blank gap ∧ input = gap ++ byte :: tail := by
  rcases exists_blank_or_opensComment input with ⟨gap, hgap, heq⟩ | hopen
  · exact ⟨gap, hgap, h ▸ heq⟩
  · simp [hopen.skip_eq_nil] at h

end Separator

namespace Token

variable {levels : Nat} {input other rest : Bytes} {token : Token}

theorem skip_ne_nil_of_yields (h : (read levels).Yields input token rest) :
    Separator.skip input ≠ [] := by
  intro hskip
  obtain ⟨shorter, h⟩ := h
  rw [read_eq] at h
  unfold readWith at h
  split at h
  next => simp at h
  next hfirst => simp [hskip] at hfirst

theorem skip_of_read_eq_none (h : read levels input = .ok none) : Separator.skip input = [] := by
  rw [read_eq] at h
  unfold readWith at h
  split at h
  next hskip => exact hskip
  next =>
    split at h
    next => simp at h
    next => simp at h

theorem yields_of_skip_eq (hskip : Separator.skip other = Separator.skip input)
    (h : (read levels).Yields input token rest) : (read levels).Yields other token rest := by
  obtain ⟨shorter, h⟩ := h
  rw [read_eq] at h ⊢
  unfold readWith at h
  split at h
  next => simp at h
  next first tail hfirst =>
    split at h
    next => simp at h
    next taken htaken =>
      obtain ⟨rfl, rfl⟩ := Taken.mk.inj (Option.some.inj (Except.ok.inj h))
      exact readWith_yields (hskip.trans hfirst) ⟨taken.shorter, htaken⟩

end Token

theorem Reader.Yields.unique {α : Type} {read : Reader α} {input rest rest' : Bytes}
    {value value' : α} (h : read.Yields input value rest) (h' : read.Yields input value' rest') :
    value = value' ∧ rest = rest' := by
  obtain ⟨shorter, h⟩ := h
  obtain ⟨shorter', h'⟩ := h'
  exact Taken.mk.inj (Option.some.inj (Except.ok.inj (h.symm.trans h')))

namespace Operation

/-! ## Steps -/

/-- The reader takes one token or one inline image, and holds what it makes of it. -/
inductive ReadsOne : Reading → Bytes → Reading → Bytes → Prop where
  | operand {pending operations input value rest} :
      (Token.read nestingLimit).Yields input (.operand value) rest →
      ReadsOne ⟨pending, operations⟩ input ⟨value :: pending, operations⟩ rest
  | keyword {pending operations input word rest} : word ≠ InlineImage.keyword →
      (Token.read nestingLimit).Yields input (.keyword word) rest →
      ReadsOne ⟨pending, operations⟩ input
        ⟨[], ⟨Utf8.decodeLossy word, pending.reverse⟩ :: operations⟩ rest
  | image {pending operations input rest entries data behind} :
      (Token.read nestingLimit).Yields input (.keyword InlineImage.keyword) rest →
      Took (InlineImage.take rest) (entries, data) behind →
      ReadsOne ⟨pending, operations⟩ input
        ⟨[], ⟨"BI", [.dictionary entries, .literalString data]⟩ :: operations⟩ behind

namespace ReadsOne

variable {before after : Reading} {input rest : Bytes}

theorem takeAll_eq (h : ReadsOne before input after rest) :
    takeAll before.pending before.operations input =
      takeAll after.pending after.operations rest := by
  cases h with
  | operand hread => exact takeAll_operand hread
  | keyword hword hread => exact takeAll_keyword hword hread
  | image hread himage => exact takeAll_image hread himage

theorem append (hmore : more.Ends) (h : ReadsOne before input after rest) :
    ReadsOne before (input ++ more) after (rest ++ more) := by
  cases h with
  | operand hread => exact .operand (Token.continues_read hmore _ hread)
  | keyword hword hread => exact .keyword hword (Token.continues_read hmore _ hread)
  | image hread himage =>
      exact .image (Token.continues_read hmore _ hread) (InlineImage.take_append hmore himage)

theorem above (earlier : List Operation) (h : ReadsOne before input after rest) :
    ReadsOne ⟨before.pending, before.operations ++ earlier⟩ input
      ⟨after.pending, after.operations ++ earlier⟩ rest := by
  cases h with
  | operand hread => exact .operand hread
  | keyword hword hread => exact .keyword hword hread
  | image hread himage => exact .image hread himage

theorem of_skip_eq {other : Bytes} (hskip : Separator.skip other = Separator.skip input)
    (h : ReadsOne before input after rest) : ReadsOne before other after rest := by
  cases h with
  | operand hread => exact .operand (Token.yields_of_skip_eq hskip hread)
  | keyword hword hread => exact .keyword hword (Token.yields_of_skip_eq hskip hread)
  | image hread himage => exact .image (Token.yields_of_skip_eq hskip hread) himage

theorem skip_ne_nil (h : ReadsOne before input after rest) : Separator.skip input ≠ [] := by
  cases h with
  | operand hread => exact Token.skip_ne_nil_of_yields hread
  | keyword _ hread => exact Token.skip_ne_nil_of_yields hread
  | image hread _ => exact Token.skip_ne_nil_of_yields hread

theorem unique {after' : Reading} {rest' : Bytes} (h : ReadsOne before input after rest)
    (h' : ReadsOne before input after' rest') : after' = after ∧ rest' = rest := by
  cases h with
  | operand hread =>
      cases h' with
      | operand hread' =>
          obtain ⟨hvalue, rfl⟩ := hread.unique hread'
          obtain rfl := Token.operand.inj hvalue
          exact ⟨rfl, rfl⟩
      | keyword _ hread' => simpa using (hread.unique hread').1
      | image hread' _ => simpa using (hread.unique hread').1
  | keyword hword hread =>
      cases h' with
      | operand hread' => simpa using (hread.unique hread').1
      | keyword _ hread' =>
          obtain ⟨hvalue, rfl⟩ := hread.unique hread'
          obtain rfl := Token.keyword.inj hvalue
          exact ⟨rfl, rfl⟩
      | image hread' _ => exact absurd (Token.keyword.inj (hread.unique hread').1) hword
  | image hread himage =>
      cases h' with
      | operand hread' => simpa using (hread.unique hread').1
      | keyword hword hread' =>
          exact absurd (Token.keyword.inj (hread.unique hread').1).symm hword
      | image hread' himage' =>
          obtain ⟨-, rfl⟩ := hread.unique hread'
          obtain ⟨shorter, himage⟩ := himage
          obtain ⟨shorter', himage'⟩ := himage'
          obtain ⟨hvalue, rfl⟩ := Taken.mk.inj (Except.ok.inj (himage.symm.trans himage'))
          obtain ⟨rfl, rfl⟩ := Prod.mk.inj hvalue
          exact ⟨rfl, rfl⟩

end ReadsOne

/-- The reader comes from one state and input to another, in any number of steps. -/
inductive Reads : Reading → Bytes → Reading → Bytes → Prop where
  | refl (reading : Reading) (input : Bytes) : Reads reading input reading input
  | step {before input middle rest last behind} : ReadsOne before input middle rest →
      Reads middle rest last behind → Reads before input last behind

namespace Reads

variable {before middle last : Reading} {input rest behind : Bytes}

theorem takeAll_eq (h : Reads before input last behind) :
    takeAll before.pending before.operations input =
      takeAll last.pending last.operations behind := by
  induction h with
  | refl => rfl
  | step hone _ ih => rw [hone.takeAll_eq, ih]

theorem trans (h : Reads before input middle rest) (h' : Reads middle rest last behind) :
    Reads before input last behind := by
  induction h with
  | refl => exact h'
  | step hone _ ih => exact .step hone (ih h')

theorem append (hmore : more.Ends) (h : Reads before input last behind) :
    Reads before (input ++ more) last (behind ++ more) := by
  induction h with
  | refl => exact .refl _ _
  | step hone _ ih => exact .step (hone.append hmore) ih

theorem above (earlier : List Operation) (h : Reads before input last behind) :
    Reads ⟨before.pending, before.operations ++ earlier⟩ input
      ⟨last.pending, last.operations ++ earlier⟩ behind := by
  induction h with
  | refl => exact .refl _ _
  | step hone _ ih => exact .step (hone.above earlier) ih

theorem behind_blank {gap : Bytes} (hgap : Separator.Blank gap)
    (h : Reads before input last behind) :
    ∃ gap', Separator.Blank gap' ∧ Reads before (gap ++ input) last (gap' ++ behind) := by
  cases h with
  | refl => exact ⟨gap, hgap, .refl _ _⟩
  | step hone hothers =>
      exact ⟨[], .nil, .step (hone.of_skip_eq (hgap.skip_append input)) hothers⟩

theorem eq_of_skip_eq_nil (hskip : Separator.skip input = [])
    (h : Reads before input last behind) : last = before ∧ behind = input := by
  cases h with
  | refl => exact ⟨rfl, rfl⟩
  | step hone => exact absurd hskip hone.skip_ne_nil

theorem unique {last' : Reading} {behind' : Bytes} (h : Reads before input last behind)
    (h' : Reads before input last' behind') (hskip : Separator.skip behind = [])
    (hskip' : Separator.skip behind' = []) : last' = last ∧ behind' = behind := by
  induction h with
  | refl => exact h'.eq_of_skip_eq_nil hskip
  | step hone _ ih =>
      cases h' with
      | refl => exact absurd hskip' hone.skip_ne_nil
      | step hone' hothers =>
          obtain ⟨rfl, rfl⟩ := hone.unique hone'
          exact ih hothers hskip

end Reads

/-- What reading succeeds in is read step by step, up to separators at the end. -/
theorem exists_reads {pending : List Operand} {operations result : List Operation}
    {input : Bytes} (h : takeAll pending operations input = .ok result) :
    ∃ last behind, Reads ⟨pending, operations⟩ input last behind ∧
      Separator.skip behind = [] ∧ result = last.operations.reverse := by
  rw [takeAll] at h
  split at h
  next => simp at h
  next hread =>
    exact ⟨_, _, .refl _ _, Token.skip_of_read_eq_none hread, (Except.ok.inj h).symm⟩
  next value rest shorter hread =>
    obtain ⟨last, behind, hothers, hend⟩ := exists_reads h
    exact ⟨last, behind, .step (.operand ⟨shorter, hread⟩) hothers, hend⟩
  next word rest shorter hread =>
    split at h
    next hword =>
      subst hword
      split at h
      next => simp at h
      next image himage =>
        have shorterImage : image.rest.length < input.length := Nat.lt_trans image.shorter shorter
        have hname := (decodeLossy_eq_image_iff InlineImage.keyword).2 rfl
        dsimp only at h
        rw [hname] at h
        obtain ⟨last, behind, hothers, hend⟩ := exists_reads h
        exact ⟨last, behind, .step (.image ⟨shorter, hread⟩ ⟨image.shorter, himage⟩) hothers, hend⟩
    next hword =>
      obtain ⟨last, behind, hothers, hend⟩ := exists_reads h
      exact ⟨last, behind, .step (.keyword hword ⟨shorter, hread⟩) hothers, hend⟩
termination_by input.length

def LeavesOperands (source : Bytes) : Prop :=
  ∃ last gap, Reads ⟨[], []⟩ source last gap ∧ Separator.skip gap = [] ∧ last.pending ≠ []

def EndsInComment (source : Bytes) : Prop :=
  ∃ last gap, Reads ⟨[], []⟩ source last gap ∧ Separator.OpensComment gap

section Sources

variable {source gap : Bytes} {operations : List Operation}

theorem ofBytes_of_reads (h : Reads ⟨[], []⟩ source ⟨[], operations.reverse⟩ gap)
    (hgap : Separator.skip gap = []) : ofBytes source = .ok operations := by
  have htaken : takeAll [] [] source = takeAll [] operations.reverse gap := h.takeAll_eq
  rw [ofBytes, htaken, takeAll_nil hgap, List.reverse_reverse]

theorem reads_of_ofBytes (h : ofBytes source = .ok operations) (hleft : ¬LeavesOperands source) :
    ∃ gap, Reads ⟨[], []⟩ source ⟨[], operations.reverse⟩ gap ∧ Separator.skip gap = [] := by
  rw [ofBytes] at h
  split at h
  next result hresult =>
    obtain rfl := Except.ok.inj h
    obtain ⟨⟨pending, found⟩, gap, hreads, hgap, rfl⟩ := exists_reads hresult
    have hpending : pending = [] := by
      by_contra hne
      exact hleft ⟨_, gap, hreads, hgap, hne⟩
    subst hpending
    exact ⟨gap, by simpa using hreads, hgap⟩
  next => simp at h

theorem not_leavesOperands_of_reads (h : Reads ⟨[], []⟩ source ⟨[], operations⟩ gap)
    (hgap : Separator.skip gap = []) : ¬LeavesOperands source := by
  rintro ⟨last, gap', hlast, hgap', hpending⟩
  obtain ⟨rfl, -⟩ := h.unique hlast hgap hgap'
  exact hpending rfl

theorem not_endsInComment_of_reads {last : Reading} (h : Reads ⟨[], []⟩ source last gap)
    (hskip : Separator.skip gap = []) (hgap : ¬Separator.OpensComment gap) :
    ¬EndsInComment source := by
  rintro ⟨last', gap', hlast, hopens⟩
  obtain ⟨-, rfl⟩ := h.unique hlast hskip hopens.skip_eq_nil
  exact hgap hopens

theorem reads_word {word : Bytes} (h : Token.IsWord word) (hword : word ≠ InlineImage.keyword)
    (hgap : gap.Ends) :
    Reads ⟨[], []⟩ (word ++ gap) ⟨[], [⟨Utf8.decodeLossy word, []⟩]⟩ gap :=
  .step (.keyword hword (h.yields nestingLimit hgap rfl)) (.refl _ _)

end Sources

end Operation

end ContentStream
