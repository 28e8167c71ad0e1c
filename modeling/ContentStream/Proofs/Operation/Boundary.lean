import ContentStream.Proofs.Operation.RoundTrip

/-!
# Data that is not found again

The data of an inline image is written without any escaping.  Whatever it is, the reader
finds the dictionary and then looks for the end of the data.  This is the end that was
written for exactly those data that can be found in any input; otherwise the data found is
shorter, or there is none.
-/

namespace ContentStream

namespace InlineImage

theorem noEnd_iff {data : Bytes} : NoEnd data ↔ ∀ i space after, data[i]? = some space →
    data[i + 1]? = some 0x45 → data[i + 2]? = some 0x49 → data[i + 3]? = some after →
      Byte.isWhiteSpace space = true → Byte.isRegular after = true := by
  constructor
  · intro h i space after hspace hfirst hsecond hafter
    obtain ⟨hi, rfl⟩ := List.getElem?_eq_some_iff.1 hspace
    obtain ⟨hi1, hfirst⟩ := List.getElem?_eq_some_iff.1 hfirst
    obtain ⟨hi2, hsecond⟩ := List.getElem?_eq_some_iff.1 hsecond
    obtain ⟨hi3, rfl⟩ := List.getElem?_eq_some_iff.1 hafter
    refine h (data.take i) _ _ (data.drop (i + 4)) ?_
    rw [← hfirst, ← hsecond, List.getElem_cons_drop, List.getElem_cons_drop,
      List.getElem_cons_drop, List.getElem_cons_drop, List.take_append_drop]
  · intro h before space after behind hdata
    refine h before.length space after ?_ ?_ ?_ ?_
    all_goals simp [hdata]

theorem isData_iff {data : Bytes} :
    IsData data ↔ data.getLast?.any Byte.isWhiteSpace = true ∧ NoEnd data :=
  ⟨fun h => ⟨h.ends, h.noEnd⟩, fun h => ⟨h.1, h.2⟩⟩

theorem prefix_of_takeData {data found behind : Bytes}
    (h : takeData [] (data ++ [0x45, 0x49, 0x0A]) = some (found, behind)) : found <+: data := by
  have hinput := append_of_takeData h
  have hlength : found.length ≤ data.length := by
    by_contra hlonger
    have hlengths := congrArg List.length hinput
    simp only [List.length_append, List.length_cons, List.length_nil] at hlengths
    obtain rfl : behind = [] := List.length_eq_zero_iff.1 (by omega)
    -- The keyword would have to begin at its own second byte.
    have hsplit : found ++ [0x45, 0x49] = data ++ [0x45] ++ [0x49, 0x0A] := by
      simpa using hinput
    have hend := (List.append_inj' hsplit rfl).2
    simp at hend
  have hfound : found <+: data ++ [0x45, 0x49, 0x0A] := ⟨_, hinput⟩
  exact List.prefix_of_prefix_length_le hfound (List.prefix_append data _) hlength

theorem takeData_eq_iff {data behind : Bytes} :
    takeData [] (data ++ [0x45, 0x49, 0x0A]) = some (data, behind) ↔
      IsData data ∧ behind = [0x0A] := by
  constructor
  · intro h
    have hinput := append_of_takeData h
    exact ⟨isData_of_takeData h, by simpa using hinput⟩
  · rintro ⟨h, rfl⟩
    exact takeData_append h []

end InlineImage

namespace Operation

theorem prefix_of_takeAll {pending : List Operand} {before operations : List Operation}
    {input : Bytes} (h : takeAll pending before input = .ok operations) :
    before.reverse <+: operations := by
  fun_induction takeAll pending before input with
  | case1 => contradiction
  | case2 => exact Except.ok.inj h ▸ List.prefix_rfl
  | case3 _ _ _ _ _ _ _ ih => exact ih h
  | case4 => contradiction
  | case5 _ _ _ _ _ _ _ _ _ _ _ _ _ ih =>
      have hmore := ih h
      rw [List.reverse_cons] at hmore
      exact (List.prefix_append _ _).trans hmore
  | case6 _ _ _ _ _ _ _ _ ih =>
      have hmore := ih (by simpa using h)
      rw [List.reverse_cons] at hmore
      exact (List.prefix_append _ _).trans hmore

theorem takeAll_image_error {pending : List Operand} {operations : List Operation}
    {input rest : Bytes} {stuck : Stuck}
    (h : (Token.read nestingLimit).Yields input (.keyword InlineImage.keyword) rest)
    (himage : InlineImage.take rest = .error stuck) :
    takeAll pending operations input = .error stuck := by
  obtain ⟨shorter, hread⟩ := h
  rw [takeAll, hread]
  dsimp only
  rw [if_pos rfl, himage]

variable {entries : Dictionary}

def image (entries : Dictionary) (data : Bytes) : Operation :=
  ⟨"BI", [.dictionary entries, .literalString data]⟩

theorem takeAll_written_image (hnodup : (Dictionary.keys entries).Nodup)
    (hentries : ∀ entry ∈ entries, entry.2.Writable nestingLimit) (data : Bytes) :
    ∃ text, (image entries data).written Operand.written = .ok text ∧
      (InlineImage.takeData [] (data ++ [0x45, 0x49, 0x0A]) = none →
        ∃ stuck, takeAll [] [] text = .error stuck) ∧
      ∀ {found behind},
        InlineImage.takeData [] (data ++ [0x45, 0x49, 0x0A]) = some (found, behind) →
        takeAll [] [] text = takeAll [] [image entries found] behind := by
  obtain ⟨tokens, htokens, htake⟩ := InlineImage.take_entries hnodup hentries
  have hkeyword : (Token.read nestingLimit).Yields _ (.keyword InlineImage.keyword)
      (0x0A :: (tokens ++ 0x49 :: 0x44 :: 0x0A :: (data ++ [0x45, 0x49, 0x0A]))) :=
    isWord_imageKeyword.yields nestingLimit (Bytes.ends_cons (by decide)) rfl
  have hskip : ∀ rest, Separator.skip (0x0A :: rest) = Separator.skip rest :=
    Separator.skip_whiteSpace (by decide)
  obtain ⟨hfinds, hmisses⟩ := htake _ _ (hskip _)
  refine ⟨_, Shape.writtenImage_eq rfl htokens, fun hmissing => ?_, fun hfound => ?_⟩
  · exact ⟨_, takeAll_image_error hkeyword (hmisses hmissing)⟩
  · exact takeAll_image hkeyword (hfinds hfound)

def Misses (entries : Dictionary) (data : Bytes) (result : Except Error (List Operation)) : Prop :=
  (∃ offset fault, result = .error (.malformedStream offset fault)) ∨
    ∃ found operations, result = .ok (image entries found :: operations) ∧
      found <+: data ∧ found ≠ data

theorem Misses.ne_ok {data : Bytes} {result : Except Error (List Operation)}
    (h : Misses entries data result) : result ≠ .ok [image entries data] := by
  rcases h with ⟨offset, fault, rfl⟩ | ⟨found, operations, rfl, -, hfound⟩
  · simp
  · simp [image, hfound]

theorem ofBytes_image_cases (hnodup : (Dictionary.keys entries).Nodup)
    (hentries : ∀ entry ∈ entries, entry.2.Writable nestingLimit) (data : Bytes) :
    ∃ text, (image entries data).written Operand.written = .ok text ∧
      (InlineImage.IsData data ∧ ofBytes text = .ok [image entries data] ∨
        ¬ InlineImage.IsData data ∧ Misses entries data (ofBytes text)) := by
  obtain ⟨text, hwritten, hnone, hsome⟩ := takeAll_written_image hnodup hentries data
  refine ⟨text, hwritten, ?_⟩
  by_cases hdata : InlineImage.IsData data
  · have hread := hsome (InlineImage.takeData_eq_iff.2 ⟨hdata, rfl⟩)
    refine .inl ⟨hdata, ?_⟩
    rw [ofBytes, hread, takeAll_nil (by decide)]
    rfl
  refine .inr ⟨hdata, ?_⟩
  cases htaken : InlineImage.takeData [] (data ++ [0x45, 0x49, 0x0A]) with
  | none =>
      obtain ⟨stuck, hread⟩ := hnone htaken
      rw [ofBytes, hread]
      exact .inl ⟨_, _, rfl⟩
  | some image =>
      obtain ⟨found, behind⟩ := image
      have hfound : found ≠ data := by
        rintro rfl
        exact hdata (InlineImage.takeData_eq_iff.1 htaken).1
      rw [ofBytes, hsome htaken]
      cases hread : takeAll [] [Operation.image entries found] behind with
      | error stuck => exact .inl ⟨_, _, rfl⟩
      | ok operations =>
          obtain ⟨others, rfl⟩ := prefix_of_takeAll hread
          exact .inr ⟨found, others, rfl, InlineImage.prefix_of_takeData htaken, hfound⟩

/--
A written image is read back exactly if its data ends in white space and every end keyword
that white space precedes goes on with a regular byte.  What is read of any other image is
an error, or starts with an image whose data is shorter.
-/
theorem ofBytes_written_image (hnodup : (Dictionary.keys entries).Nodup)
    (hentries : ∀ entry ∈ entries, entry.2.Writable nestingLimit) (data : Bytes) :
    ∃ text, (image entries data).written Operand.written = .ok text ∧
      (ofBytes text = .ok [image entries data] ↔
        (∃ last, data.getLast? = some last ∧ Byte.isWhiteSpace last = true) ∧
          ∀ i space after, data[i]? = some space →
            data[i + 1]? = some 0x45 → data[i + 2]? = some 0x49 → data[i + 3]? = some after →
              Byte.isWhiteSpace space = true → Byte.isRegular after = true) ∧
      (ofBytes text ≠ .ok [image entries data] → Misses entries data (ofBytes text)) := by
  obtain ⟨text, hwritten, hcases⟩ := ofBytes_image_cases hnodup hentries data
  refine ⟨text, hwritten, ?_, fun hne => ?_⟩
  · rw [← InlineImage.noEnd_iff, ← Option.any_eq_true, ← InlineImage.isData_iff]
    rcases hcases with ⟨hdata, hread⟩ | ⟨hdata, hmisses⟩
    · exact ⟨fun _ => hdata, fun _ => hread⟩
    · exact ⟨fun hread => absurd hread hmisses.ne_ok, fun h => absurd h hdata⟩
  · rcases hcases with ⟨-, hread⟩ | ⟨-, hmisses⟩
    · exact absurd hread hne
    · exact hmisses

theorem ofBytes_written_image_endKeyword :
    (∃ text, (image [("W", .integer 1)] [0x45, 0x49, 0x0A]).written Operand.written = .ok text ∧
      ofBytes text = .ok [image [("W", .integer 1)] [0x45, 0x49, 0x0A]]) ∧
    ∃ text, (image [("W", .integer 1)] [0x20, 0x45, 0x49, 0x0A]).written Operand.written =
        .ok text ∧
      Misses [("W", .integer 1)] [0x20, 0x45, 0x49, 0x0A] (ofBytes text) := by
  have hnodup : (Dictionary.keys [("W", .integer 1)]).Nodup := by decide
  have hentries : ∀ entry ∈ [("W", Operand.integer 1)], entry.2.Writable nestingLimit := by
    simpa using .integer
  constructor
  · obtain ⟨text, hwritten, hread, -⟩ := ofBytes_written_image hnodup hentries [0x45, 0x49, 0x0A]
    refine ⟨text, hwritten, hread.2 ⟨⟨0x0A, rfl, by decide⟩, ?_⟩⟩
    intro i space after _ _ _ hafter
    simp at hafter
  · obtain ⟨text, hwritten, hread, hmisses⟩ :=
      ofBytes_written_image hnodup hentries [0x20, 0x45, 0x49, 0x0A]
    refine ⟨text, hwritten, hmisses fun h => ?_⟩
    have hregular := (hread.1 h).2 0 0x20 0x0A rfl rfl rfl rfl (by decide)
    revert hregular
    decide

end Operation

end ContentStream
