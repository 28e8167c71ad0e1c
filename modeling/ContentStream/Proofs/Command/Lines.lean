import ContentStream.Proofs.Command.Pages
import ContentStream.Proofs.Interpreter.Names
import ContentStream.Proofs.Number.ReadBack
import ContentStream.Proofs.Operation.Lexed
import ContentStream.Proofs.Text.Breaks

/-!
# Lines of a report

A report on a state has a line for each of its keys.  Rendering intents, patterns and fonts
are shown by the names that they were given, and a name may be any text, line breaks
included.  Nothing else that is shown breaks a line: if these names do not, the output of a
command has just the lines of the report.
-/

namespace ContentStream

open Text (IsBreak Unbroken BreaksWithin breaksWithin_append breaksWithin_self unbroken_append)

namespace Number

theorem Layout.isDigit_or_eq_of_mem_positionalChars {n : Layout} {d : Decimal} {c : Char}
    (h : c ∈ n.positionalChars d) : c.isDigit = true ∨ c = '.' := by
  have hplaces : c ∈ d.fractionChars → c.isDigit = true := by
    intro hc
    refine Decimal.isDigit_of_mem_placesChars (d := d) ?_
    unfold Decimal.placesChars
    split
    next hnone => simp [hnone] at hc
    next => exact hc
  unfold positionalChars at h
  split at h
  next =>
    rcases List.mem_append.1 h with hwhole | hpoint
    · exact .inl (Decimal.isDigit_of_mem_wholeChars hwhole)
    split at hpoint
    · simp only [List.mem_cons, List.not_mem_nil, or_false] at hpoint
      rcases hpoint with rfl | rfl
      · exact .inr rfl
      · exact .inl rfl
    · contradiction
  next =>
    rcases List.mem_append.1 h with hwhole | hrest
    · exact .inl (Decimal.isDigit_of_mem_wholeChars hwhole)
    rcases List.mem_cons.1 hrest with hpoint | hfraction
    · exact .inr hpoint
    · exact .inl (hplaces hfraction)

theorem isDigit_or_mem_of_mem_plain {x : Float} {c : Char} (h : c ∈ plain.chars x) :
    c.isDigit = true ∨ c ∈ ['.', '-', 'N', 'a', 'i', 'n', 'f'] := by
  have hmagnitude : c ∈ (if Binary.isFinite x then plain.magnitudeChars (Binary.word x)
      else ['i', 'n', 'f']) → c.isDigit = true ∨ c ∈ ['.', '-', 'N', 'a', 'i', 'n', 'f'] := by
    intro hc
    split at hc
    · rw [Layout.magnitudeChars, if_pos (by simp [Layout.isPositional, plain])] at hc
      rcases Layout.isDigit_or_eq_of_mem_positionalChars hc with hdigit | rfl
      · exact .inl hdigit
      · exact .inr (by decide)
    · have hinfinite : ['i', 'n', 'f'] ⊆ ['.', '-', 'N', 'a', 'i', 'n', 'f'] := by decide
      exact .inr (hinfinite hc)
  unfold Layout.chars at h
  split at h
  · have hnan : ['N', 'a', 'N'] ⊆ ['.', '-', 'N', 'a', 'i', 'n', 'f'] := by decide
    exact .inr (hnan h)
  dsimp only at h
  split at h
  · rcases List.mem_cons.1 h with rfl | h
    · exact .inr (by decide)
    · exact hmagnitude h
  · exact hmagnitude h

end Number

theorem Decimal.unbroken_intChars (value : Int) :
    Unbroken (String.ofList (Decimal.intChars value)) := by
  intro c hc
  rw [String.toList_ofList] at hc
  have hdigits : c ∈ Nat.toDigits 10 value.natAbs → ¬IsBreak c := fun hc =>
    Text.not_isBreak_of_isDigit (Nat.isDigit_of_mem_toDigits (by decide) (by decide) hc)
  unfold Decimal.intChars at hc
  split at hc
  · rcases List.mem_cons.1 hc with rfl | hc
    · decide
    · exact hdigits hc
  · exact hdigits hc

theorem ColorSpace.unbroken_of_mem_families {family : String} (h : family ∈ families) :
    Unbroken family := by
  have hall : ∀ family ∈ families, Unbroken family := by decide
  exact hall family h

namespace Report

theorem unbroken_number (x : Float) : Unbroken (number x) := by
  intro c hc
  rw [number, Number.Layout.text, String.toList_ofList] at hc
  rcases Number.isDigit_or_mem_of_mem_plain hc with hdigit | hmem
  · exact Text.not_isBreak_of_isDigit hdigit
  · have hall : ∀ c ∈ ['.', '-', 'N', 'a', 'i', 'n', 'f'], ¬IsBreak c := by simp [IsBreak]
    exact hall c hmem

theorem unbroken_numbers (values : List Float) : Unbroken (numbers values) := by
  refine Text.unbroken_intercalate (by decide) fun part hpart => ?_
  obtain ⟨x, -, rfl⟩ := List.mem_map.1 hpart
  exact unbroken_number x

def keys : List (String × Option Parameter) :=
  [("graphics_object", none), ("stack_depth", none), ("ctm", none), ("line_width", none),
    ("line_cap", none), ("line_join", none), ("miter_limit", none), ("dash", none),
    ("rendering_intent", some .intent), ("blend_mode", none), ("alpha", none),
    ("stroke", some (.color .stroke)), ("fill", some (.color .fill)), ("font", some .font),
    ("leading", none), ("text_matrix", none)]

def Shows (graphics : GraphicsState) (key : String × Option Parameter) (name : String) : Prop :=
  ∃ p, key.2 = some p ∧ name ∈ p.names (p.get graphics)

variable {graphics : GraphicsState} {state : PageState} {key : String}

private theorem breaksWithin_intent :
    BreaksWithin (Shows graphics (key, some .intent)) graphics.intent.text := by
  cases hintent : graphics.intent with
  | other name =>
      refine breaksWithin_self ⟨.intent, rfl, ?_⟩
      simp [Parameter.get, hintent, Parameter.names, RenderingIntent.text]
  | numeric code => exact (Decimal.unbroken_intChars code.toInt).breaksWithin
  | _ => exact Unbroken.breaksWithin (by decide)

private theorem breaksWithin_font :
    BreaksWithin (Shows graphics (key, some .font))
      (((graphics.text.font.map ("/" ++ ·)).getD "-") ++ " " ++ number graphics.text.fontSize) := by
  refine breaksWithin_append.2 ⟨breaksWithin_append.2 ⟨?_, Unbroken.breaksWithin (by decide)⟩,
    (unbroken_number _).breaksWithin⟩
  cases hfont : graphics.text.font with
  | none => exact Unbroken.breaksWithin (by decide)
  | some name =>
      refine breaksWithin_append.2 ⟨Unbroken.breaksWithin (by decide), breaksWithin_self ?_⟩
      exact ⟨.font, rfl, by simp [Parameter.get, hfont, Parameter.names]⟩

private theorem breaksWithin_color {source : String → Prop} {use : Operator.Use} {shown : Color}
    (h : ∀ name ∈ Parameter.names (.color use) shown, source name) :
    BreaksWithin source (color shown) := by
  cases shown with
  | pattern name components =>
      refine BreaksWithin.trimEnd (breaksWithin_append.2
        ⟨breaksWithin_append.2 ⟨Unbroken.breaksWithin (by decide), ?_⟩,
          (unbroken_numbers components).breaksWithin⟩)
      cases name with
      | none => exact Unbroken.breaksWithin (by decide)
      | some name =>
          have hname := h name (by simp [Parameter.names])
          exact breaksWithin_append.2 ⟨breaksWithin_append.2
            ⟨Unbroken.breaksWithin (by decide), breaksWithin_self hname⟩,
            Unbroken.breaksWithin (by decide)⟩
  | gray level => exact Unbroken.breaksWithin (unbroken_append.2 ⟨by decide, unbroken_number _⟩)
  | _ => exact Unbroken.breaksWithin (unbroken_append.2 ⟨by decide, unbroken_numbers _⟩)

private theorem breaksWithin_paint (use : Operator.Use)
    (h : (use.space graphics).family ∈ ColorSpace.families) :
    BreaksWithin (Shows graphics (key, some (.color use)))
      ((use.space graphics).family ++ " " ++
        color (Parameter.get (.color use) graphics)) := by
  refine breaksWithin_append.2 ⟨Unbroken.breaksWithin (unbroken_append.2
    ⟨ColorSpace.unbroken_of_mem_families h, by decide⟩), ?_⟩
  exact breaksWithin_color fun name hname => ⟨.color use, rfl, hname⟩

theorem lines_breaksWithin
    (h : ∀ use : Operator.Use, (use.space state.graphics).family ∈ ColorSpace.families) :
    List.Forall₂ (fun key line => ∃ value, line = key.1 ++ ": " ++ value ∧
      BreaksWithin (Shows state.graphics key) value) keys (lines state) := by
  have hplain : ∀ {key : String} {value : String}, Unbroken value →
      ∃ shown, key ++ ": " ++ value = key ++ ": " ++ shown ∧
        BreaksWithin (Shows state.graphics (key, none)) shown :=
    fun hvalue => ⟨_, rfl, hvalue.breaksWithin⟩
  simp only [keys, lines, entries, List.map_cons, List.map_nil, List.forall₂_cons,
    List.forall₂_nil_left_iff, and_true]
  refine ⟨hplain ?_, hplain (Text.unbroken_toString _), hplain (unbroken_numbers _),
    hplain (unbroken_number _), hplain ?_, hplain ?_, hplain (unbroken_number _), hplain ?_,
    ⟨_, rfl, breaksWithin_intent⟩, hplain ?_, hplain (unbroken_numbers _),
    ⟨_, rfl, breaksWithin_paint .stroke (h .stroke)⟩,
    ⟨_, rfl, breaksWithin_paint .fill (h .fill)⟩, ⟨_, rfl, breaksWithin_font⟩,
    hplain (unbroken_number _), hplain (unbroken_numbers _)⟩
  · cases state.object <;> decide
  · cases state.graphics.lineCap <;> decide
  · cases state.graphics.lineJoin <;> decide
  · simp only [unbroken_append]
    exact ⟨⟨⟨by decide, unbroken_numbers _⟩, by decide⟩, unbroken_number _⟩
  · cases state.graphics.blendMode <;> decide

end Report

/-! ## Lines of page reports -/

theorem Operation.Formed.unbroken_name {p : Float → Prop} {operation : Operation}
    (h : operation.Formed p) : Unbroken operation.name := by
  cases h with
  | plain hkeyword _ _ => exact Text.unbroken_of_isRegular hkeyword.regular
  | image _ _ _ =>
      show Unbroken "BI"
      decide

theorem StreamReport.exists_operation_of_mem_counts {report : StreamReport} {name : String}
    {count : Nat} (h : (name, count) ∈ report.counts) :
    ∃ operation ∈ report.operations, operation.name = name := by
  obtain ⟨_, hdistinct, hpair⟩ := List.mem_map.1 h
  obtain ⟨rfl, -⟩ := Prod.mk.inj hpair
  rw [List.mem_mergeSort, List.mem_eraseDups] at hdistinct
  exact List.mem_map.1 hdistinct

namespace Command

theorem PageReport.unbroken_lines {report : PageReport}
    (hnames : ∀ operation ∈ report.stream.operations, Unbroken operation.name)
    (hstate : ∀ line ∈ Report.lines report.stream.state, Unbroken line) :
    ∀ line ∈ report.lines, Unbroken line := by
  intro line hline
  rcases List.mem_cons.1 hline with rfl | hline
  · show Unbroken ("page " ++ toString report.page ++ ": " ++
      toString report.stream.operations.length ++ " operators")
    simp only [unbroken_append]
    exact ⟨⟨⟨⟨by decide, Text.unbroken_toString _⟩, by decide⟩, Text.unbroken_toString _⟩,
      by decide⟩
  rcases List.mem_append.1 hline with hcount | hline
  · obtain ⟨⟨name, count⟩, hmem, rfl⟩ := List.mem_map.1 hcount
    obtain ⟨operation, hoperation, rfl⟩ := StreamReport.exists_operation_of_mem_counts hmem
    show Unbroken ("  " ++ operation.name ++ "\t" ++ toString count)
    simp only [unbroken_append]
    exact ⟨⟨⟨by decide, hnames operation hoperation⟩, by decide⟩, Text.unbroken_toString _⟩
  · obtain ⟨line, hmem, rfl⟩ := List.mem_map.1 hline
    exact unbroken_append.2 ⟨by decide, hstate line hmem⟩

def outputLines (output : Bytes) : List Bytes :=
  (output.splitOn 10).dropLast

theorem outputLines_unlines (lines : List String) :
    outputLines (unlines lines) = lines.flatMap fun line => (Utf8.encode line).splitOn 10 := by
  induction lines with
  | nil => decide
  | cons line lines ih =>
      have hfeed : Utf8.encode "\n" = [10] := by decide
      rw [unlines_cons, List.flatMap_cons, ← ih, Utf8.encode_append, hfeed, List.append_assoc,
        List.singleton_append]
      unfold outputLines List.splitOn
      rw [List.splitOnP_append_cons _ _ (by decide), List.dropLast_append_of_ne_nil]
      exact List.splitOnP_ne_nil _ _

theorem flatMap_splitOn_of_unbroken {lines : List String} (h : ∀ line ∈ lines, Unbroken line) :
    (lines.flatMap fun line => (Utf8.encode line).splitOn 10) = lines.map Utf8.encode := by
  induction lines with
  | nil => rfl
  | cons line lines ih =>
      obtain ⟨hline, hlines⟩ := List.forall_mem_cons.1 h
      rw [List.flatMap_cons, ih hlines, List.splitOn_eq_singleton hline.lineFeed_notMem_encode]
      rfl

private theorem isInfix_intercalate {α : Type} {separator item : List α} {items : List (List α)}
    (h : item ∈ items) : item <:+: separator.intercalate items := by
  induction items with
  | nil => contradiction
  | cons first items ih =>
      cases items with
      | nil =>
          obtain rfl := List.mem_singleton.1 h
          simp
      | cons next items =>
          rw [List.intercalate_cons_cons]
          rcases List.mem_cons.1 h with rfl | h
          · exact ((List.prefix_append _ _).trans (List.prefix_append _ _)).isInfix
          · exact (ih h).trans (List.suffix_append _ _).isInfix

theorem isInfix_outputLines_printed {report : PageReport} {reports : List PageReport}
    (hmem : report ∈ reports) (h : ∀ line ∈ report.lines, Unbroken line) :
    report.lines.map Utf8.encode <:+: outputLines (printed .text reports) := by
  have hlines : report.lines ∈ reports.map PageReport.lines := List.mem_map_of_mem hmem
  obtain ⟨before, after, hlines⟩ :
      report.lines <:+: List.intercalate [""] (reports.map PageReport.lines) :=
    isInfix_intercalate hlines
  rw [printed, ← hlines, outputLines_unlines, List.flatMap_append, List.flatMap_append,
    flatMap_splitOn_of_unbroken h]
  exact ⟨_, _, rfl⟩

section Run

variable {files : Files} {file : String} {verbosity : Nat} {document : Document}
  {console console' : Console}

theorem run_state_of_ofBytes {stream : Bytes} {notices : List Notice} {report : StreamReport}
    (hfile : files file = some (.bytes stream))
    (h : StreamReport.ofBytes Resources.empty stream = (notices, .ok report)) :
    (run files verbosity (.state file .text)).run console =
      .ok () { console with
        output := console.output ++ unlines (Report.lines report.state)
        errors := console.errors ++ Notice.log verbosity notices } := by
  have hstream : readStream files file = pure stream := by
    simp [readStream, readFile, hfile]
  simp [run, reportState, hstream, h]

theorem exists_reports_of_run {pages : Option String} {form : OutputFormat}
    (hfile : files file = some (.document document))
    (h : (run files verbosity (.page file pages form)).run console = .ok () console') :
    ∃ indices reports, selectPages document pages = .ok indices ∧
      List.Forall₂ (IsReport document) indices reports ∧
      console'.output = console.output ++ printed form reports := by
  cases hreadable : document.checkReadable with
  | error error => simp [run, reportPages, readDocument, readFile, hfile, hreadable] at h
  | ok =>
    cases hselected : selectPages document pages with
    | error fault =>
        simp [run, reportPages, readDocument, readFile, hfile, hreadable, hselected] at h
    | ok indices =>
        rw [run_page hfile hreadable hselected, EStateM.run_bind] at h
        by_cases hfails : ∃ index ∈ indices, ∃ error, PageFails document index error
        · obtain ⟨before, index, after, error, rfl, hbefore, hfails⟩ :=
            exists_first_pageFails hfails
          rw [run_pageReports_eq_error hbefore hfails] at h
          contradiction
        · obtain ⟨reports, hreports⟩ := exists_reports hfails
          rw [run_pageReports_eq_ok hreports] at h
          dsimp only at h
          rw [run_printReports] at h
          obtain ⟨-, rfl⟩ := EStateM.Result.ok.inj h
          exact ⟨indices, reports, rfl, hreports, rfl⟩

end Run

end Command

/-! ## One line for each key -/

private theorem exists_of_mem_left {α β : Type} {r : α → β → Prop} {as : List α} {bs : List β}
    (h : List.Forall₂ r as bs) {a : α} (ha : a ∈ as) : ∃ b ∈ bs, r a b := by
  induction h with
  | nil => contradiction
  | cons hfirst _ ih =>
      rcases List.mem_cons.1 ha with rfl | ha
      · exact ⟨_, List.mem_cons_self, hfirst⟩
      · obtain ⟨b, hb, hr⟩ := ih ha
        exact ⟨b, List.mem_cons_of_mem _ hb, hr⟩

theorem Report.unbroken_lines {state : PageState}
    (h : ∀ use : Operator.Use, (use.space state.graphics).family ∈ ColorSpace.families)
    (hnames : ∀ p : Parameter, ∀ name ∈ p.names (p.get state.graphics), Unbroken name) :
    ∀ line ∈ lines state, Unbroken line := by
  intro line hline
  have hkeys : ∀ key ∈ keys, Unbroken key.1 := by decide
  obtain ⟨key, hkey, value, rfl, hvalue⟩ := exists_of_mem_left (lines_breaksWithin h).flip hline
  refine unbroken_append.2 ⟨unbroken_append.2 ⟨hkeys key hkey, by decide⟩, ?_⟩
  refine hvalue.unbroken ?_
  rintro name ⟨p, -, hname⟩
  exact hnames p name hname

namespace StreamReport

variable {resources : Resources} {stream : Bytes} {notices : List Notice} {report : StreamReport}

theorem ofBytes_eq_ok_iff : ofBytes resources stream = (notices, .ok report) ↔
    Operation.ofBytes stream = .ok report.operations ∧
      let outcome := Environment.run ⟨resources, []⟩ .initial report.operations
      outcome.failure = none ∧ outcome.notices = notices ∧ outcome.state = report.state := by
  obtain ⟨operations, state⟩ := report
  unfold ofBytes
  constructor
  · intro h
    split at h
    next => simp at h
    next read hread =>
      dsimp only at h
      split at h
      next => simp at h
      next hrun =>
        obtain ⟨hnotices, hreport⟩ := Prod.mk.inj h
        obtain ⟨rfl, hstate⟩ := StreamReport.mk.inj (Except.ok.inj hreport)
        exact ⟨hread, hrun, hnotices, hstate⟩
  · rintro ⟨hread, hrun, hnotices, hstate⟩
    simp [hread, hrun, hnotices, hstate]

private theorem eq_of_isReport {document : Document} {index : Nat} {found : Command.PageReport}
    (h : ofBytes resources stream = (notices, .ok report))
    (hcontent : document.pageContent index = .ok stream)
    (hresources : document.pageResources index = .ok resources)
    (hreport : Command.IsReport document index found) : found = ⟨index + 1, report⟩ := by
  obtain ⟨content, entries, operations, hcontent', hresources', hread', -, rfl⟩ := hreport
  obtain ⟨hread, -, -, hstate⟩ := ofBytes_eq_ok_iff.1 h
  obtain rfl := Except.ok.inj (hcontent.symm.trans hcontent')
  obtain rfl := Except.ok.inj (hresources.symm.trans hresources')
  obtain rfl := Except.ok.inj (hread.symm.trans hread')
  rw [hstate]

/--
A report has sixteen lines, each with its key.  Line breaks can only stand in the names of
the rendering intent, the color patterns and the font, which operations of the stream have
given to these parameters.  Where the names are without line breaks, so are the lines, and
what is printed for the stream or for a page has just these lines.
-/
theorem ofBytes_linePerKey (h : ofBytes resources stream = (notices, .ok report)) :
    let graphics := report.state.graphics
    (Report.lines report.state).length = 16 ∧
    List.Forall₂ (fun key line => ∃ value, line = key.1 ++ ": " ++ value ∧
      BreaksWithin (Report.Shows graphics key) value) Report.keys (Report.lines report.state) ∧
    (∀ p : Parameter, ∀ name ∈ p.names (p.get graphics),
      ∃ operation ∈ report.operations, p.IsNamedBy resources operation name) ∧
    ((∀ p : Parameter, ∀ name ∈ p.names (p.get graphics), Unbroken name) →
      (∀ line ∈ Report.lines report.state, Unbroken line) ∧
      (∀ files verbosity file, files file = some (.bytes stream) → resources = Resources.empty →
        ∃ console, (Command.run files verbosity (.state file .text)).run {} = .ok () console ∧
          Command.outputLines console.output = (Report.lines report.state).map Utf8.encode) ∧
      ∀ files verbosity file pages document index console,
        files file = some (.document document) → Command.Selects document pages index →
        document.pageContent index = .ok stream → document.pageResources index = .ok resources →
        (Command.run files verbosity (.page file pages .text)).run {} = .ok () console →
          (Command.PageReport.lines ⟨index + 1, report⟩).map Utf8.encode <:+:
            Command.outputLines console.output) := by
  intro graphics
  obtain ⟨hread, hrun, -, hstate⟩ := ofBytes_eq_ok_iff.1 h
  have hreaches := Environment.reaches_of_failure hrun
  rw [hstate] at hreaches
  have hfamilies := hreaches.family_mem rfl
  refine ⟨rfl, Report.lines_breaksWithin hfamilies, fun p name => hreaches.exists_isNamedBy rfl,
    fun hnames => ?_⟩
  have hlines := Report.unbroken_lines hfamilies hnames
  refine ⟨hlines, fun files verbosity file hfile hempty => ?_, ?_⟩
  · subst hempty
    refine ⟨_, Command.run_state_of_ofBytes hfile h, ?_⟩
    rw [List.nil_append, Command.outputLines_unlines,
      Command.flatMap_splitOn_of_unbroken hlines]
  · intro files verbosity file pages document index console hfile hselects hcontent hresources hrun
    obtain ⟨indices, reports, hselected, hreports, houtput⟩ :=
      Command.exists_reports_of_run hfile hrun
    rw [houtput, List.nil_append]
    have hindex := ((Command.selectPages_eq_ok hselected).2 index).2 hselects
    obtain ⟨found, hfound, hreport⟩ := exists_of_mem_left hreports hindex
    obtain rfl := eq_of_isReport h hcontent hresources hreport
    have hformed := Operation.formed_of_ofBytes hread
    exact Command.isInfix_outputLines_printed hfound (Command.PageReport.unbroken_lines
      (fun operation hoperation => (hformed operation hoperation).unbroken_name) hlines)

def fontState (name : String) : PageState :=
  PageState.initial.withGraphics
    (Parameter.font.set GraphicsState.initial (some name, Binary.ofInt 12))

theorem ofBytes_linePerKey_plainFont :
    let stream := Utf8.encode "/F1 12 Tf"
    ∃ console, (Command.run (fun _ => some (.bytes stream)) 0 (.state "a" .text)).run {} =
        .ok () console ∧
      Command.outputLines console.output = (Report.lines (fontState "F1")).map Utf8.encode := by
  intro stream
  have hreport : ofBytes Resources.empty stream =
      (_, .ok ⟨[⟨"Tf", [.name "F1", .integer 12]⟩], fontState "F1"⟩) :=
    ofBytes_eq_ok_iff.2 ⟨by decide +kernel, rfl, rfl, rfl⟩
  have hnames : ∀ p : Parameter, ∀ name ∈ p.names (p.get (fontState "F1").graphics),
      Unbroken name := by
    have hall : ∀ p ∈ Parameter.all, ∀ name ∈ p.names (p.get (fontState "F1").graphics),
        Unbroken name := by
      decide
    exact fun p => hall p p.mem_all
  obtain ⟨-, -, -, hplain⟩ := ofBytes_linePerKey hreport
  exact (hplain hnames).2.1 (fun _ => some (.bytes stream)) 0 "a" rfl rfl

theorem fontName_breaksLine :
    let state := fontState "F\n1"
    (∃ notices, ofBytes Resources.empty (Utf8.encode "/F#0A1 12 Tf") =
      (notices, .ok ⟨[⟨"Tf", [.name "F\n1", .integer 12]⟩], state⟩)) ∧
    "font: /F\n1 12" ∈ Report.lines state ∧ ¬Unbroken "font: /F\n1 12" ∧
    (Command.outputLines (Command.unlines (Report.lines state))).length = 17 := by
  refine ⟨⟨_, ofBytes_eq_ok_iff.2 ⟨by decide +kernel, rfl, rfl, rfl⟩⟩, ?_⟩
  decide +kernel

end StreamReport

end ContentStream
