import ContentStream.Command
import ContentStream.Proofs.Text.Breaks

/-!
# What commands print

Nothing that has been printed is taken back.  So a command that fails has printed nothing on
standard output only because what can fail comes before what prints there.
-/

namespace ContentStream.Command

section Steps

variable {α : Type} (console : Console)

@[simp] theorem run_write (bytes : Bytes) :
    (write bytes).run console = .ok () { console with output := console.output ++ bytes } :=
  rfl

@[simp] theorem run_log (verbosity : Nat) (notices : List Notice) :
    (log verbosity notices).run console =
      .ok () { console with errors := console.errors ++ Notice.log verbosity notices } :=
  rfl

@[simp] theorem run_refuse (message : String) :
    (refuse message : Run α).run console =
      .error 1 { console with errors := console.errors ++ ("Error: " ++ message ++ "\n") } :=
  rfl

@[simp] theorem run_accept_ok (words : String) (value : α) :
    (accept words (.ok value)).run console = .ok value console :=
  rfl

@[simp] theorem run_accept_error (words : String) (error : Error) :
    (accept words (.error error) : Run α).run console =
      .error 1 { console with
        errors := console.errors ++ ("Error: " ++ (words ++ error.message) ++ "\n") } :=
  rfl

end Steps

/-- The lines one after the other, each with a line feed behind it. -/
def unlines (lines : List String) : Bytes :=
  Utf8.encode (String.join (lines.map (· ++ "\n")))

@[simp] theorem unlines_nil : unlines [] = [] :=
  rfl

theorem unlines_cons (line : String) (lines : List String) :
    unlines (line :: lines) = Utf8.encode (line ++ "\n") ++ unlines lines := by
  rw [unlines, List.map_cons, String.join_cons, Utf8.encode_append]
  rfl

theorem unlines_append (lines others : List String) :
    unlines (lines ++ others) = unlines lines ++ unlines others := by
  rw [unlines, List.map_append, String.join_append, Utf8.encode_append]
  rfl

@[simp] theorem run_printLines (lines : List String) (console : Console) :
    (printLines lines).run console =
      .ok () { console with output := console.output ++ unlines lines } := by
  induction lines generalizing console with
  | nil =>
      rw [unlines_nil, List.append_nil]
      rfl
  | cons line lines ih =>
      change (write (Utf8.encode (line ++ "\n")) >>= fun _ => printLines lines).run console = _
      rw [EStateM.run_bind, run_write]
      dsimp only
      rw [ih, unlines_cons, List.append_assoc]

theorem run_forM_printLines {α : Type} (lines : α → List String) (items : List α)
    (console : Console) : (items.forM fun item => printLines (lines item)).run console =
      .ok () { console with
        output := console.output ++ (items.flatMap fun item => unlines (lines item)) } := by
  induction items generalizing console with
  | nil =>
      rw [List.flatMap_nil, List.append_nil]
      rfl
  | cons item items ih =>
      change (printLines (lines item) >>= fun _ =>
        items.forM fun item => printLines (lines item)).run console = _
      rw [EStateM.run_bind, run_printLines]
      dsimp only
      rw [ih, List.flatMap_cons, List.append_assoc]

/-- The lines of all reports, with an empty line before each report but the first. -/
def printed (output : OutputFormat) (reports : List PageReport) : Bytes :=
  match output with
  | .text => unlines (List.intercalate [""] (reports.map PageReport.lines))
  | .json => unlines [(Json.array (reports.map PageReport.json)).written]

/-- The header, the counts and the state of each report stand one after the other. -/
theorem printed_text (first : PageReport) (reports : List PageReport) :
    printed .text (first :: reports) =
      unlines first.lines ++ reports.flatMap fun report => unlines ("" :: report.lines) := by
  rw [printed]
  induction reports generalizing first with
  | nil => rw [List.map_singleton, List.intercalate_singleton, List.flatMap_nil, List.append_nil]
  | cons next reports ih =>
      have hnext : unlines ("" :: next.lines) = unlines [""] ++ unlines next.lines :=
        unlines_append [""] next.lines
      rw [List.map_cons, List.map_cons, List.intercalate_cons_cons, unlines_append, unlines_append,
        ← List.map_cons, ih, List.flatMap_cons, hnext]
      simp only [List.append_assoc]

theorem run_printReports (output : OutputFormat) (reports : List PageReport) (console : Console) :
    (printReports output reports).run console =
      .ok () { console with output := console.output ++ printed output reports } := by
  cases output with
  | text =>
      cases reports with
      | nil =>
          rw [printReports, printed, List.map_nil, List.intercalate_nil, unlines_nil,
            List.append_nil]
          rfl
      | cons first reports =>
          rw [printReports, EStateM.run_bind, run_printLines]
          dsimp only
          rw [run_forM_printLines, printed_text, List.append_assoc]
  | json =>
      rw [printed, unlines_cons, unlines_nil, List.append_nil]
      rfl

/-! ## Failures -/

section Failures

variable {α β : Type} {action : Run α} {next : α → Run β}

def FailsSilently (action : Run α) : Prop :=
  ∀ console code console', action.run console = .error code console' →
    code = 1 ∧ console'.output = console.output

/-- Standard output stays as it is, whether the action fails or not. -/
structure Silent (action : Run α) : Prop where
  fails : FailsSilently action
  succeeds : ∀ console value console', action.run console = .ok value console' →
    console'.output = console.output

theorem FailsSilently.bind (h : Silent action) (hnext : ∀ value, FailsSilently (next value)) :
    FailsSilently (action >>= next) := by
  intro console code console' hfailed
  rw [EStateM.run_bind] at hfailed
  split at hfailed
  next value middle hvalue =>
    obtain ⟨hcode, houtput⟩ := hnext value _ _ _ hfailed
    exact ⟨hcode, houtput.trans (h.succeeds _ _ _ hvalue)⟩
  next hfirst =>
    obtain ⟨rfl, rfl⟩ := EStateM.Result.error.inj hfailed
    exact h.fails _ _ _ hfirst

theorem Silent.bind (h : Silent action) (hnext : ∀ value, Silent (next value)) :
    Silent (action >>= next) where
  fails := .bind h fun value => (hnext value).fails
  succeeds := by
    intro console value console' hended
    rw [EStateM.run_bind] at hended
    split at hended
    next between middle hbetween =>
      exact ((hnext between).succeeds _ _ _ hended).trans (h.succeeds _ _ _ hbetween)
    next => contradiction

theorem silent_pure (value : α) : Silent (pure value : Run α) where
  fails := nofun
  succeeds := by
    rintro console _ _ ⟨⟩
    rfl

theorem silent_log (verbosity : Nat) (notices : List Notice) : Silent (log verbosity notices) where
  fails := nofun
  succeeds := by
    rintro console _ _ ⟨⟩
    rfl

theorem silent_refuse (message : String) : Silent (refuse message : Run α) where
  fails := by
    rintro console _ _ ⟨⟩
    exact ⟨rfl, rfl⟩
  succeeds := nofun

theorem silent_accept (words : String) (result : Except Error α) :
    Silent (accept words result) := by
  cases result with
  | ok value => exact silent_pure value
  | error error => exact silent_refuse _

theorem failsSilently_write (bytes : Bytes) : FailsSilently (write bytes) :=
  nofun

theorem failsSilently_printLines (lines : List String) : FailsSilently (printLines lines) := by
  intro console code console' h
  rw [run_printLines] at h
  contradiction

end Failures

section Commands

variable (files : Files) (verbosity : Nat) (file : String)

theorem silent_readFile : Silent (readFile files file) := by
  unfold readFile
  cases files file with
  | none => exact silent_refuse _
  | some found => exact silent_pure found

theorem silent_readStream : Silent (readStream files file) := by
  refine .bind (silent_readFile files file) fun found => ?_
  cases found with
  | bytes content => exact silent_pure content
  | document document => exact silent_refuse _

theorem silent_readDocument : Silent (readDocument files verbosity file) := by
  refine .bind (silent_readFile files file) fun found => ?_
  cases found with
  | bytes content => exact silent_accept _ _
  | document document =>
      dsimp only
      split
      next => exact silent_pure document
      next => exact .bind (silent_log _ _) fun _ => silent_accept _ _

theorem silent_pageReports (document : Document) (indices : List Nat) :
    Silent (pageReports document verbosity indices) := by
  induction indices with
  | nil => exact silent_pure []
  | cons index indices ih =>
      exact .bind (silent_log _ _) fun _ => .bind (silent_accept _ _) fun report =>
        .bind ih fun reports => silent_pure _

theorem failsSilently_printReports (output : OutputFormat) (reports : List PageReport) :
    FailsSilently (printReports output reports) := by
  intro console code console' h
  rw [run_printReports] at h
  contradiction

/-- A command that fails has printed nothing but messages. -/
theorem failsSilently_run (command : Command) : FailsSilently (run files verbosity command) := by
  cases command with
  | format file =>
      exact .bind (silent_readStream files file) fun content =>
        .bind (silent_accept _ _) fun operations => .bind (silent_accept _ _) failsSilently_write
  | state file output =>
      refine .bind (silent_readStream files file) fun content => .bind (silent_log _ _) fun _ =>
        .bind (silent_accept _ _) fun report => ?_
      cases output with
      | text => exact failsSilently_printLines _
      | json => exact failsSilently_write _
  | page file pages output =>
      refine .bind (silent_readDocument files verbosity file) fun document => ?_
      split
      next => exact (silent_refuse _).fails
      next indices _ =>
        exact .bind (silent_pageReports verbosity document indices)
          (failsSilently_printReports output)

end Commands

end ContentStream.Command
