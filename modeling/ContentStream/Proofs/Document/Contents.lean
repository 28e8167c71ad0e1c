import Mathlib.Data.List.Forall2
import ContentStream.Document.PageContent
import ContentStream.Document.Standard
import ContentStream.Proofs.Operation.Complete

/-!
# Pages with several content streams

The content of a page may be spread over several streams, which count as one with spaces
between them.  A space separates tokens, but it does not end a comment: the operations of
the parts are those of the whole if no part but the last ends in a comment.
-/

namespace ContentStream

open Operation (Reads LeavesOperands EndsInComment ofBytes)
open Separator (Blank)

namespace Document

section Join

variable {first second gap gap' : Bytes} {operations others : List Operation}

private theorem eq_nil_of_reads {last : Operation.Reading}
    (h : Reads ⟨[], []⟩ [] last gap) : last = ⟨[], []⟩ ∧ gap = [] :=
  h.eq_of_skip_eq_nil rfl

theorem reads_joinPart (h : Reads ⟨[], []⟩ first ⟨[], operations.reverse⟩ gap) (hgap : Blank gap)
    (h' : Reads ⟨[], []⟩ second ⟨[], others.reverse⟩ gap') :
    ∃ between, Blank between ∧
      Reads ⟨[], []⟩ (joinPart first second) ⟨[], (operations ++ others).reverse⟩
        (between ++ gap') := by
  unfold joinPart
  cases first with
  | nil =>
      obtain ⟨hlast, -⟩ := eq_nil_of_reads h
      obtain rfl : operations = [] := by simpa using hlast
      exact ⟨[], .nil, h'⟩
  | cons byte first =>
      have hspace : Blank (gap ++ [0x20]) := hgap.append (.space rfl .nil)
      have hends : Bytes.Ends (0x20 :: second) := Bytes.ends_cons rfl
      have hfirst := h.append hends
      have hsecond := h'.above operations.reverse
      obtain ⟨between, hbetween, hsecond⟩ := hsecond.behind_blank hspace
      refine ⟨between, hbetween, ?_⟩
      rw [List.reverse_append]
      rw [List.append_assoc] at hsecond
      exact hfirst.trans hsecond

end Join

/-- The part is a stream with the source as its data, to which no filter applies. -/
def HoldsUnfiltered (doc : Document) (part : Object) (source : Bytes) : Prop :=
  ∃ entries, doc.resolve part = .stream entries source ∧ Object.get? entries "Filter" = none

theorem streamData_of_holdsUnfiltered {doc : Document} {part : Object} {source : Bytes}
    (h : doc.HoldsUnfiltered part source) : doc.streamData (doc.resolve part) = .ok source := by
  obtain ⟨entries, hpart, hfilter⟩ := h
  rw [hpart, streamData, hfilter]
  rfl

private theorem joinParts_reads {doc : Document} {parts : List Object} {sources : List Bytes}
    {operations : List (List Operation)}
    (hparts : List.Forall₂ doc.HoldsUnfiltered parts sources)
    (hsources : List.Forall₂ (fun source found => ofBytes source = .ok found) sources operations)
    (hleft : ∀ source ∈ sources, ¬LeavesOperands source)
    (hclosed : ∀ source ∈ sources.dropLast, ¬EndsInComment source)
    {content gap : Bytes} {before : List Operation}
    (hcontent : Reads ⟨[], []⟩ content ⟨[], before.reverse⟩ gap) (hgap : Blank gap) :
    ∃ joined gap', doc.joinParts content parts = .ok joined ∧
      Reads ⟨[], []⟩ joined ⟨[], (before ++ operations.flatten).reverse⟩ gap' ∧
      Separator.skip gap' = [] := by
  induction hparts generalizing content gap before operations with
  | nil =>
      cases hsources
      exact ⟨content, gap, rfl, by simpa using hcontent, hgap.skip_eq_nil⟩
  | @cons part source parts sources hpart hparts ih =>
      cases hsources with
      | @cons _ first _ others hfirst hothers =>
          obtain ⟨hsource, hleft⟩ := List.forall_mem_cons.1 hleft
          obtain ⟨gapFirst, hreads, hskip⟩ := Operation.reads_of_ofBytes hfirst hsource
          obtain ⟨between, hbetween, hjoined⟩ := reads_joinPart hcontent hgap hreads
          have hstep : doc.joinParts content (part :: parts) =
              doc.joinParts (joinPart content source) parts := by
            rw [joinParts, streamData_of_holdsUnfiltered hpart]
            rfl
          rw [hstep, List.flatten_cons, ← List.append_assoc]
          cases hparts with
          | nil =>
              cases hothers
              refine ⟨_, between ++ gapFirst, rfl, by simpa using hjoined, ?_⟩
              rw [hbetween.skip_append, hskip]
          | cons hpart' hparts' =>
              rw [List.dropLast_cons_cons, List.forall_mem_cons] at hclosed
              have hblank : Blank gapFirst :=
                (Separator.blank_or_opensComment hskip).resolve_right
                  fun hopens => hclosed.1 ⟨_, gapFirst, hreads, hopens⟩
              exact ih hothers hleft hclosed.2 hjoined (hbetween.append hblank)

/--
Where the content of a page is an array of streams without filters, each of which can be
read by itself and leaves no operands, and none but the last of which ends in a comment,
the operations of the page are those of the streams, in their order.
-/
theorem ofBytes_pageContent {doc : Document} {index : Nat} {entries : Object.Entries}
    {contents : Object} {parts : List Object} {sources : List Bytes}
    {operations : List (List Operation)} (hpage : doc.page index = .ok entries)
    (hcontents : Object.get? entries "Contents" = some contents)
    (harray : doc.resolve contents = .array parts)
    (hparts : List.Forall₂ doc.HoldsUnfiltered parts sources)
    (hsources : List.Forall₂ (fun source found => ofBytes source = .ok found) sources operations)
    (hleft : ∀ source ∈ sources, ¬LeavesOperands source)
    (hclosed : ∀ source ∈ sources.dropLast, ¬EndsInComment source) :
    ∃ content, doc.pageContent index = .ok content ∧
      ofBytes content = .ok operations.flatten := by
  have hstart : Reads ⟨[], []⟩ [] ⟨[], List.reverse []⟩ [] := .refl _ _
  obtain ⟨content, gap, hjoined, hreads, hgap⟩ :=
    joinParts_reads hparts hsources hleft hclosed hstart .nil
  refine ⟨content, ?_, Operation.ofBytes_of_reads hreads hgap⟩
  rw [pageContent, hpage]
  simp only [bind, Except.bind, hcontents, harray]
  exact hjoined

/-! ## A comment at the end of a stream -/

def twoStreams (first second : Bytes) : Document where
  objects :=
    [(1, .dictionary [(Utf8.encode "Pages", .reference 2)]),
      (2, .dictionary [(Utf8.encode "Kids", .array [.reference 3])]),
      (3, .dictionary [(Utf8.encode "Type", .name (Utf8.encode "Page")),
        (Utf8.encode "Contents", .array [.reference 4, .reference 5])]),
      (4, .stream [] first),
      (5, .stream [] second)]
  trailer := [(Utf8.encode "Root", .reference 1)]
  library := .standard "unknown filter"

private theorem isWord_letter {byte : UInt8} (hregular : Byte.isRegular byte = true)
    (hstart : Numeral.isStart byte = false) (hkeyword : Token.ofWord [byte] = .keyword [byte]) :
    Token.IsWord [byte] where
  ne_nil := by simp
  regular := by simpa using hregular
  start := by simpa using hstart
  keyword := hkeyword

def savesWithComment : Bytes :=
  [0x71, 0x20, 0x25, 0x63]

private theorem reads_saves (behind : Bytes) : Reads ⟨[], []⟩ (savesWithComment ++ behind)
    ⟨[], [⟨"q", []⟩]⟩ (0x20 :: 0x25 :: 0x63 :: behind) :=
  Operation.reads_word (isWord_letter rfl rfl rfl) (by decide) (Bytes.ends_cons rfl)

private theorem reads_restores : Reads ⟨[], []⟩ [0x51] ⟨[], [⟨"Q", []⟩]⟩ [] :=
  Operation.reads_word (isWord_letter rfl rfl rfl) (by decide) Bytes.ends_nil

private theorem ofBytes_saves (gap : Bytes)
    (h : Separator.skip (0x20 :: 0x25 :: 0x63 :: gap) = []) :
    ofBytes (savesWithComment ++ gap) = .ok [⟨"q", []⟩] ∧
      ¬LeavesOperands (savesWithComment ++ gap) :=
  ⟨Operation.ofBytes_of_reads (reads_saves gap) h,
    Operation.not_leavesOperands_of_reads (reads_saves gap) h⟩

private theorem ofBytes_restores : ofBytes [0x51] = .ok [⟨"Q", []⟩] ∧ ¬LeavesOperands [0x51] :=
  ⟨Operation.ofBytes_of_reads reads_restores rfl,
    Operation.not_leavesOperands_of_reads reads_restores rfl⟩

private theorem not_opensComment_lineEnd (gap : Bytes) :
    ¬Separator.OpensComment (gap ++ [0x0A]) := by
  rintro ⟨before, text, hgap, -, htext⟩
  have hlast := congrArg List.getLast? hgap
  rw [List.getLast?_concat, List.getLast?_append_cons] at hlast
  have hmem := List.mem_of_getLast? hlast.symm
  rcases List.mem_cons.1 hmem with hbyte | hmem
  · exact absurd hbyte (by decide)
  · exact absurd (htext 0x0A hmem) (by decide)

theorem ofBytes_pageContent_endedComment :
    ∃ content, (twoStreams (savesWithComment ++ [0x0A]) [0x51]).pageContent 0 = .ok content ∧
      ofBytes content = .ok [⟨"q", []⟩, ⟨"Q", []⟩] := by
  have hpage : (twoStreams (savesWithComment ++ [0x0A]) [0x51]).page 0 = .ok _ := rfl
  obtain ⟨hfirst, hfirstLeft⟩ := ofBytes_saves [0x0A] rfl
  obtain ⟨hsecond, hsecondLeft⟩ := ofBytes_restores
  have hclosed := Operation.not_endsInComment_of_reads (reads_saves [0x0A]) rfl
    (not_opensComment_lineEnd [0x20, 0x25, 0x63])
  exact ofBytes_pageContent hpage rfl rfl (.cons ⟨[], rfl, rfl⟩ (.cons ⟨[], rfl, rfl⟩ .nil))
    (.cons hfirst (.cons hsecond .nil)) (by simp [hfirstLeft, hsecondLeft]) (by simp [hclosed])

theorem ofBytes_pageContent_openComment :
    let document := twoStreams savesWithComment [0x51]
    let parts := [Object.reference 4, Object.reference 5]
    (∃ entries, document.page 0 = .ok entries ∧
      Object.get? entries "Contents" = some (.array parts)) ∧
    List.Forall₂ document.HoldsUnfiltered parts [savesWithComment, [0x51]] ∧
    ofBytes savesWithComment = .ok [⟨"q", []⟩] ∧ ofBytes [0x51] = .ok [⟨"Q", []⟩] ∧
    ¬LeavesOperands savesWithComment ∧ ¬LeavesOperands [0x51] ∧
    ∃ content, document.pageContent 0 = .ok content ∧ ofBytes content = .ok [⟨"q", []⟩] ∧
      ofBytes content ≠ .ok [⟨"q", []⟩, ⟨"Q", []⟩] := by
  intro document parts
  obtain ⟨hfirst, hfirstLeft⟩ := ofBytes_saves [] rfl
  obtain ⟨hsecond, hsecondLeft⟩ := ofBytes_restores
  have hpage : document.page 0 = .ok _ := rfl
  have hwhole := (ofBytes_saves [0x20, 0x51] rfl).1
  exact ⟨⟨_, hpage, rfl⟩, .cons ⟨[], rfl, rfl⟩ (.cons ⟨[], rfl, rfl⟩ .nil), hfirst, hsecond,
    hfirstLeft, hsecondLeft, savesWithComment ++ [0x20, 0x51], rfl, hwhole, by simp [hwhole]⟩

end Document

end ContentStream
