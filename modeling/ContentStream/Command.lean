import ContentStream.Command.Line
import ContentStream.Command.Log
import ContentStream.Document.PageContent
import ContentStream.Document.PageResources
import ContentStream.PageRange
import ContentStream.Report

/-!
# Running a command

A command reads files and prints, on standard output and on standard error.  What it has
printed stays where it is when the command fails.  Log lines are printed on standard error
too, before the message of a failure.
-/

namespace ContentStream

inductive File where
  | bytes (content : Bytes)
  | document (document : Document)

abbrev Files := String → Option File

namespace Command

structure Console where
  output : Bytes := []
  errors : String := ""

/-- A failure has an exit code. -/
abbrev Run := EStateM Nat Console

def write (bytes : Bytes) : Run Unit :=
  modify fun console => { console with output := console.output ++ bytes }

def printLine (line : String) : Run Unit :=
  write (Utf8.encode (line ++ "\n"))

def printLines (lines : List String) : Run Unit :=
  lines.forM printLine

def complain (text : String) : Run Unit :=
  modify fun console => { console with errors := console.errors ++ text }

def log (verbosity : Nat) (notices : List Notice) : Run Unit :=
  complain (Notice.log verbosity notices)

def refuse {α : Type} (message : String) : Run α := do
  complain ("Error: " ++ message ++ "\n")
  throw 1

def accept {α : Type} (words : String) : Except Error α → Run α
  | .ok value => return value
  | .error error => refuse (words ++ error.message)

def readFile (files : Files) (name : String) : Run File :=
  match files name with
  | some file => return file
  | none => refuse s!"file not found: {name}"

def readStream (files : Files) (name : String) : Run Bytes := do
  match ← readFile files name with
  | .bytes content => return content
  | .document _ => refuse s!"failed to read {name}: not a content stream"

/--
The document in a file.  Bytes that are no document lack its header; an unreadable
document needs a password.
-/
def readDocument (files : Files) (verbosity : Nat) (name : String) : Run Document := do
  match ← readFile files name with
  | .bytes _ => accept "failed to open PDF: " (.error (.document .header))
  | .document document =>
    match document.checkReadable with
    | .ok _ => return document
    | .error error =>
      log verbosity [.passwordNeeded]
      accept "failed to open PDF: " (.error error)

/-! ## The commands -/

def formatStream (files : Files) (file : String) : Run Unit := do
  let content ← readStream files file
  let operations ← accept "" (Operation.ofBytes content)
  write (← accept "" (Operation.writtenAll Operand.written operations))

def reportState (files : Files) (verbosity : Nat) (file : String) (output : OutputFormat) :
    Run Unit := do
  let content ← readStream files file
  let (notices, result) := StreamReport.ofBytes Resources.empty content
  log verbosity notices
  let report ← accept "" result
  match output with
  | .text => printLines (Report.lines report.state)
  | .json => printLine (Report.json report.state).written

structure PageReport where
  page : Nat
  stream : StreamReport

namespace PageReport

def ofIndex (document : Document) (index : Nat) : List Notice × Except Error PageReport :=
  let opening := document.contentNotices index
  match document.pageContent index with
  | .error error => (opening, .error error)
  | .ok content =>
    match document.pageResources index with
    | .error error => (opening, .error error)
    | .ok resources =>
      let (notices, result) := StreamReport.ofBytes resources content
      (opening ++ document.resourceNotices index ++ notices,
        result.map fun stream => ⟨index + 1, stream⟩)

def lines (report : PageReport) : List String :=
  let header := s!"page {report.page}: {report.stream.operations.length} operators"
  let counts := report.stream.counts.map fun (name, count) => s!"  {name}\t{count}"
  let state := (Report.lines report.stream.state).map ("  " ++ ·)
  header :: counts ++ state

def json (report : PageReport) : Json :=
  .object
    [("operator_count", .integer report.stream.operations.length),
      ("operators",
        .object (report.stream.counts.map fun (name, count) => (name, Json.integer count))),
      ("page", .integer report.page),
      ("state", Report.json report.stream.state)]

end PageReport

def pageReports (document : Document) (verbosity : Nat) : List Nat → Run (List PageReport)
  | [] => return []
  | index :: indices => do
    let (notices, result) := PageReport.ofIndex document index
    log verbosity notices
    let report ← accept s!"page {index + 1}: " result
    let reports ← pageReports document verbosity indices
    return report :: reports

/-- In a text an empty line stands between two reports. -/
def printReports : OutputFormat → List PageReport → Run Unit
  | .text, [] => return
  | .text, first :: reports => do
    printLines first.lines
    reports.forM fun report => printLines ("" :: report.lines)
  | .json, reports => printLine (Json.array (reports.map PageReport.json)).written

def selectPages (document : Document) (pages : Option String) : Except PageRange.Fault (List Nat) :=
  match pages with
  | none => .ok (List.range document.pages.length)
  | some range => PageRange.indices range document.pages.length

def reportPages (files : Files) (verbosity : Nat) (file : String) (pages : Option String)
    (output : OutputFormat) : Run Unit := do
  let document ← readDocument files verbosity file
  match selectPages document pages with
  | .error fault => refuse fault.message
  | .ok indices =>
    let reports ← pageReports document verbosity indices
    printReports output reports

def run (files : Files) (verbosity : Nat) : Command → Run Unit
  | .format file => formatStream files file
  | .state file output => reportState files verbosity file output
  | .page file pages output => reportPages files verbosity file pages output

structure Response where
  exitCode : Nat
  output : Bytes
  errors : String

def Response.ofRun (command : Run Unit) : Response :=
  match command.run {} with
  | .ok _ console => ⟨0, console.output, console.errors⟩
  | .error code console => ⟨code, console.output, console.errors⟩

def versionLine : String := "pdfcontent 0.1.0"

def usageLine : String :=
  "Usage: pdfcontent [-v]... format FILE | state [--format text|json] FILE | " ++
    "page [--pages RANGE] [--format text|json] FILE"

def respond (files : Files) (words : List String) : Response :=
  match Request.ofWords words with
  | .run verbosity command => Response.ofRun (run files verbosity command)
  | .version => ⟨0, Utf8.encode (versionLine ++ "\n"), ""⟩
  | .help => ⟨0, Utf8.encode (usageLine ++ "\n"), ""⟩
  | .unusable => ⟨2, [], usageLine ++ "\n"⟩

end Command

end ContentStream
