import ContentStream.Document.Standard
import ContentStream.Proofs.Command.Console
import ContentStream.Proofs.PageRange
import Mathlib.Algebra.BigOperators.Group.List.Basic
import Mathlib.Algebra.Ring.Nat
import Mathlib.Data.List.Forall2

/-!
# Reports on pages

The report on a page, or the error in its place, is a function of the document and the
page.  A command on a selection of pages prints the reports on all of them, or the error
of the first page that fails and no report at all.
-/

namespace ContentStream

namespace Command

inductive PageFails (document : Document) (index : Nat) : Error → Prop
  | content {error} : document.pageContent index = .error error →
      PageFails document index error
  | resources {content error} : document.pageContent index = .ok content →
      document.pageResources index = .error error → PageFails document index error
  | reading {content resources error} : document.pageContent index = .ok content →
      document.pageResources index = .ok resources →
      Operation.ofBytes content = .error error → PageFails document index error
  | running {content resources operations error} : document.pageContent index = .ok content →
      document.pageResources index = .ok resources → Operation.ofBytes content = .ok operations →
      (Environment.run ⟨resources, []⟩ PageState.initial operations).failure = some error →
      PageFails document index error

/-- The report on a page that is run from the initial state. -/
def IsReport (document : Document) (index : Nat) (report : PageReport) : Prop :=
  ∃ content resources operations, document.pageContent index = .ok content ∧
    document.pageResources index = .ok resources ∧ Operation.ofBytes content = .ok operations ∧
    let outcome := Environment.run ⟨resources, []⟩ PageState.initial operations
    outcome.failure = none ∧ report = ⟨index + 1, ⟨operations, outcome.state⟩⟩

namespace PageReport

variable {document : Document} {index : Nat}

private theorem ofIndex_snd : (ofIndex document index).2 = (do
    let content ← document.pageContent index
    let resources ← document.pageResources index
    let operations ← Operation.ofBytes content
    let outcome := Environment.run ⟨resources, []⟩ PageState.initial operations
    match outcome.failure with
    | some error => .error error
    | none => .ok ⟨index + 1, ⟨operations, outcome.state⟩⟩) := by
  unfold ofIndex StreamReport.ofBytes
  cases document.pageContent index with
  | error error => rfl
  | ok content =>
      dsimp only [bind, Except.bind]
      cases document.pageResources index with
      | error error => rfl
      | ok resources =>
          dsimp only
          cases Operation.ofBytes content with
          | error error => rfl
          | ok operations =>
              dsimp only
              cases (Environment.run ⟨resources, []⟩ PageState.initial operations).failure <;> rfl

theorem ofIndex_eq_error {error : Error} :
    (ofIndex document index).2 = .error error ↔ PageFails document index error := by
  rw [ofIndex_snd]
  constructor
  · intro h
    rcases Result.bind_eq_error.1 h with hcontent | ⟨content, hcontent, h⟩
    · exact .content hcontent
    rcases Result.bind_eq_error.1 h with hresources | ⟨resources, hresources, h⟩
    · exact .resources hcontent hresources
    rcases Result.bind_eq_error.1 h with hread | ⟨operations, hread, h⟩
    · exact .reading hcontent hresources hread
    dsimp only at h
    split at h
    next hfailure =>
      obtain rfl := Except.error.inj h
      exact .running hcontent hresources hread hfailure
    next => contradiction
  · intro h
    cases h with
    | content hcontent => simp [hcontent, bind, Except.bind]
    | resources hcontent hresources => simp [hcontent, hresources, bind, Except.bind]
    | reading hcontent hresources hread => simp [hcontent, hresources, hread, bind, Except.bind]
    | running hcontent hresources hread hfailure =>
        simp [hcontent, hresources, hread, hfailure, bind, Except.bind]

theorem ofIndex_eq_ok {report : PageReport} :
    (ofIndex document index).2 = .ok report ↔ IsReport document index report := by
  rw [ofIndex_snd]
  constructor
  · intro h
    obtain ⟨content, hcontent, h⟩ := Result.bind_eq_ok.1 h
    obtain ⟨resources, hresources, h⟩ := Result.bind_eq_ok.1 h
    obtain ⟨operations, hread, h⟩ := Result.bind_eq_ok.1 h
    dsimp only at h
    split at h
    next => contradiction
    next hfailure =>
      exact ⟨content, resources, operations, hcontent, hresources, hread, hfailure,
        (Except.ok.inj h).symm⟩
  · rintro ⟨content, resources, operations, hcontent, hresources, hread, hfailure, rfl⟩
    simp [hcontent, hresources, hread, hfailure, bind, Except.bind]

theorem isReport_or_pageFails (document : Document) (index : Nat) :
    (∃ report, IsReport document index report) ∨ ∃ error, PageFails document index error := by
  cases h : (ofIndex document index).2 with
  | ok report => exact .inl ⟨report, ofIndex_eq_ok.1 h⟩
  | error error => exact .inr ⟨error, ofIndex_eq_error.1 h⟩

end PageReport

/-! ## Pages one after the other -/

def pageLog (document : Document) (verbosity : Nat) (indices : List Nat) : String :=
  String.join (indices.map fun index =>
    Notice.log verbosity (PageReport.ofIndex document index).1)

section Pages

variable {document : Document} {verbosity : Nat} {indices before after : List Nat} {index : Nat}
  {console : Console} {reports : List PageReport}

theorem run_pageReports_eq_ok (h : List.Forall₂ (IsReport document) indices reports) :
    (pageReports document verbosity indices).run console = .ok reports { console with
      errors := console.errors ++ pageLog document verbosity indices } := by
  induction h generalizing console with
  | nil => simp [pageReports, pageLog]
  | @cons index report indices reports hreport _ ih =>
      have hresult := PageReport.ofIndex_eq_ok.2 hreport
      rw [pageReports]
      dsimp only
      rw [hresult]
      simp only [EStateM.run_bind, EStateM.run_pure, run_log, run_accept_ok, ih]
      rw [pageLog, pageLog, List.map_cons, String.join_cons, String.append_assoc]

theorem run_pageReports_eq_error {error : Error}
    (hbefore : ∀ earlier ∈ before, ∃ report, IsReport document earlier report)
    (h : PageFails document index error) :
    (pageReports document verbosity (before ++ index :: after)).run console =
      .error 1 { console with
        errors := console.errors ++ pageLog document verbosity (before ++ [index]) ++ "Error: " ++
          s!"page {index + 1}: {error.message}" ++ "\n" } := by
  induction before generalizing console with
  | nil =>
      have hresult := PageReport.ofIndex_eq_error.2 h
      rw [List.nil_append, pageReports]
      dsimp only
      rw [hresult]
      simp only [EStateM.run_bind, run_log, run_accept_error]
      simp [pageLog, String.join_cons, String.append_assoc, toString]
  | cons earlier before ih =>
      obtain ⟨report, hreport⟩ := hbefore earlier (by simp)
      have hresult := PageReport.ofIndex_eq_ok.2 hreport
      rw [List.cons_append, pageReports]
      dsimp only
      rw [hresult]
      simp only [EStateM.run_bind, run_log, run_accept_ok,
        ih fun other hother => hbefore other (by simp [hother])]
      simp [pageLog, String.join_cons, String.append_assoc]

theorem exists_first_pageFails (h : ∃ index ∈ indices, ∃ error, PageFails document index error) :
    ∃ before index after error, indices = before ++ index :: after ∧
      (∀ earlier ∈ before, ∃ report, IsReport document earlier report) ∧
        PageFails document index error := by
  induction indices with
  | nil => simp at h
  | cons first indices ih =>
      rcases PageReport.isReport_or_pageFails document first with hreport | ⟨error, hfails⟩
      · obtain ⟨index, hindex, error, hfails⟩ := h
        rcases List.mem_cons.1 hindex with rfl | hindex
        · obtain ⟨report, hreport⟩ := hreport
          have hok := PageReport.ofIndex_eq_ok.2 hreport
          have herror := PageReport.ofIndex_eq_error.2 hfails
          rw [hok] at herror
          contradiction
        · obtain ⟨before, index, after, error, rfl, hbefore, hfails⟩ :=
            ih ⟨index, hindex, error, hfails⟩
          refine ⟨first :: before, index, after, error, rfl, ?_, hfails⟩
          exact List.forall_mem_cons.2 ⟨hreport, hbefore⟩
      · exact ⟨[], first, indices, error, rfl, by simp, hfails⟩

theorem exists_reports (h : ¬ ∃ index ∈ indices, ∃ error, PageFails document index error) :
    ∃ reports, List.Forall₂ (IsReport document) indices reports := by
  induction indices with
  | nil => exact ⟨[], .nil⟩
  | cons first indices ih =>
      obtain ⟨reports, hreports⟩ := ih fun ⟨index, hindex, hfails⟩ =>
        h ⟨index, List.mem_cons_of_mem _ hindex, hfails⟩
      obtain ⟨report, hreport⟩ := (PageReport.isReport_or_pageFails document first).resolve_right
        fun hfails => h ⟨first, List.mem_cons_self, hfails⟩
      exact ⟨report :: reports, .cons hreport hreports⟩

end Pages

/-- The selection covers the page; where nothing is selected all pages are meant. -/
def Selects (document : Document) : Option String → Nat → Prop
  | none, index => index < document.pages.length
  | some range, index => PageRange.Covers document.pages.length range (index + 1)

section Selections

variable {document : Document} {pages : Option String} {indices : List Nat}

theorem selectPages_eq_ok (h : selectPages document pages = .ok indices) :
    indices.Pairwise (· < ·) ∧ ∀ index, index ∈ indices ↔ Selects document pages index := by
  cases pages with
  | none =>
      obtain rfl := Except.ok.inj h
      exact ⟨List.pairwise_lt_range, fun index => List.mem_range⟩
  | some range => exact PageRange.indices_eq_ok h

end Selections

/-! ## The command -/

section Respond

variable {files : Files} {words : List String} {verbosity : Nat} {file : String}
  {pages : Option String} {output : OutputFormat} {document : Document} {indices : List Nat}

theorem run_page (hfile : files file = some (.document document))
    (hreadable : document.checkReadable = .ok ())
    (hselected : selectPages document pages = .ok indices) :
    run files verbosity (.page file pages output) =
      pageReports document verbosity indices >>= printReports output := by
  have hdocument : readDocument files verbosity file = pure document := by
    simp [readDocument, readFile, hfile, hreadable]
  simp only [run, reportPages, hdocument, pure_bind, hselected]

end Respond

end Command

end ContentStream
