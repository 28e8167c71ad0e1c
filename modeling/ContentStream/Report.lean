import ContentStream.Interpreter
import ContentStream.Json
import ContentStream.Text.Blank

/-!
# Reports on a state

The state that a stream ends in, as lines of text with a key and a value each, or as
a JSON object with the same keys and some more.
-/

namespace ContentStream

namespace Report

def number (value : Float) : String :=
  Number.plain.text value

def numbers (values : List Float) : String :=
  " ".intercalate (values.map number)

def transform (m : Transform Float) : String :=
  numbers m.components

def color : Color → String
  | .gray level => "gray " ++ number level
  | .rgb r g b => "rgb " ++ numbers [r, g, b]
  | .cmyk c m y k => "cmyk " ++ numbers [c, m, y, k]
  | .other components => "components " ++ numbers components
  | .pattern name components =>
    let label := (name.map fun text => "/" ++ text ++ " ").getD ""
    let line := "pattern " ++ label ++ numbers components
    String.ofList (Text.trimEnd line.toList)

def entries (state : PageState) : List (String × String) :=
  let graphics := state.graphics
  let text := graphics.text
  [("graphics_object", state.object.label),
    ("stack_depth", toString state.stack.depth),
    ("ctm", transform graphics.transform),
    ("line_width", number graphics.lineWidth),
    ("line_cap", graphics.lineCap.label),
    ("line_join", graphics.lineJoin.label),
    ("miter_limit", number graphics.miterLimit),
    ("dash", "[" ++ numbers graphics.dash.lengths ++ "] " ++ number graphics.dash.phase),
    ("rendering_intent", graphics.intent.text),
    ("blend_mode", graphics.blendMode.label),
    ("alpha", numbers [graphics.strokeAlpha, graphics.fillAlpha]),
    ("stroke", graphics.strokeSpace.family ++ " " ++ color graphics.strokeColor),
    ("fill", graphics.fillSpace.family ++ " " ++ color graphics.fillColor),
    ("font", ((text.font.map ("/" ++ ·)).getD "-") ++ " " ++ number text.fontSize),
    ("leading", number text.leading),
    ("text_matrix", transform state.text.text)]

def lines (state : PageState) : List String :=
  (entries state).map fun (key, value) => key ++ ": " ++ value

def colorJson : Color → Json
  | .gray level => .object [("Gray", .number level)]
  | .rgb r g b => .object [("Rgb", Json.ofNumbers [r, g, b])]
  | .cmyk c m y k => .object [("Cmyk", Json.ofNumbers [c, m, y, k])]
  | .other components => .object [("Other", Json.ofNumbers components)]
  | .pattern name components =>
    .object [("Pattern",
      .object [("components", Json.ofNumbers components),
        ("name", Json.ofOption Json.string name)])]

def intentJson : RenderingIntent → Json
  | .other name => .object [("Other", .string name)]
  | .numeric code => .object [("Numeric", .integer code.toInt)]
  | intent => .string intent.text

def dashJson (dash : DashPattern) : Json :=
  .object [("dash_array", Json.ofNumbers dash.lengths), ("dash_phase", .number dash.phase)]

def json (state : PageState) : Json :=
  let graphics := state.graphics
  let text := graphics.text
  Json.sorted
    [("graphics_object", .string state.object.label),
      ("stack_depth", .integer state.stack.depth),
      ("ctm", Json.ofNumbers graphics.transform.components),
      ("line_width", .number graphics.lineWidth),
      ("line_cap", .string graphics.lineCap.label),
      ("line_join", .string graphics.lineJoin.label),
      ("miter_limit", .number graphics.miterLimit),
      ("dash", dashJson graphics.dash),
      ("rendering_intent", intentJson graphics.intent),
      ("blend_mode", .string graphics.blendMode.label),
      ("stroking_alpha", .number graphics.strokeAlpha),
      ("non_stroking_alpha", .number graphics.fillAlpha),
      ("stroking_color_space", .string graphics.strokeSpace.family),
      ("stroking_color", colorJson graphics.strokeColor),
      ("non_stroking_color_space", .string graphics.fillSpace.family),
      ("non_stroking_color", colorJson graphics.fillColor),
      ("font", Json.ofOption Json.string text.font),
      ("font_size", .number text.fontSize),
      ("leading", .number text.leading),
      ("rendering_mode", .string text.mode.label),
      ("text_matrix", Json.ofNumbers state.text.text.components)]

end Report

structure StreamReport where
  operations : List Operation
  state : PageState

namespace StreamReport

def ofBytes (resources : Resources) (stream : Bytes) :
    List Notice × Except Error StreamReport :=
  match Operation.ofBytes stream with
  | .error error => ([], .error error)
  | .ok operations =>
    let outcome := (Environment.mk resources []).run PageState.initial operations
    match outcome.failure with
    | some error => (outcome.notices, .error error)
    | none => (outcome.notices, .ok ⟨operations, outcome.state⟩)

def counts (report : StreamReport) : List (String × Nat) :=
  let names := report.operations.map Operation.name
  let distinct := names.eraseDups.mergeSort fun x y => x ≤ y
  distinct.map fun name => (name, names.count name)

end StreamReport

end ContentStream
