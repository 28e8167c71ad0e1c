import ContentStream.Notice
import ContentStream.Text.Quoted

/-!
# Log lines

A notice is logged on one line with its level and where it comes from.  Warnings are
always shown, the other levels on request.
-/

namespace ContentStream.Notice

inductive Level where
  | warning
  | detail
  | trace
  deriving DecidableEq, Repr

def level : Notice → Level
  | .nothingToRestore | .noMarkedContent | .endMarkMissing | .malformedDeflate
  | .codesUnended | .malformedCodes | .passwordNeeded => .warning
  | .unknownOperator _ | .unreadableKey _ | .unreadableName _ => .detail
  | .called _ _ => .trace

def Level.verbosity : Level → Nat
  | .warning => 0
  | .detail => 2
  | .trace => 3

def Level.label : Level → String
  | .warning => "WARN "
  | .detail => "DEBUG"
  | .trace => "TRACE"

def origin : Notice → String
  | .nothingToRestore | .noMarkedContent => "pdfcontent_parse::operators"
  | .unknownOperator _ | .called _ _ => "pdfcontent_parse::processor"
  | .unreadableKey _ | .unreadableName _ => "pdfcontent_parse::lopdf_backend"
  | .endMarkMissing | .malformedDeflate | .codesUnended | .malformedCodes => "lopdf::object"
  | .passwordNeeded => "lopdf::reader"

def byteList (bytes : Bytes) : String :=
  "[" ++ ", ".intercalate (bytes.map fun byte => toString byte.toNat) ++ "]"

def message : Notice → String
  | .nothingToRestore => "unbalanced Q: no saved graphics state to restore"
  | .noMarkedContent => "unbalanced EMC: no open marked-content sequence"
  | .unknownOperator name => "ignoring unknown operator operator=" ++ Text.quote '"' name
  | .called operation _ =>
    "invoke operator=" ++ Text.quote '"' operation.name ++ " operands=" ++
      toString operation.operands.length
  | .unreadableKey bytes => "skipping resource entry with non-UTF-8 key key=" ++ byteList bytes
  | .unreadableName bytes => "non-UTF-8 resource name read as null name=" ++ byteList bytes
  | .endMarkMissing => "ASCII85 stream is missing its EOD marker"
  | .malformedDeflate => "corrupt deflate stream"
  | .codesUnended => "No more data but no end marker detected"
  | .malformedCodes => "InvalidCode"
  | .passwordNeeded => "PDF is encrypted and requires a password"

def line (notice : Notice) : String :=
  "[" ++ notice.level.label ++ " " ++ notice.origin ++ "] " ++ notice.message ++ "\n"

def log (verbosity : Nat) (notices : List Notice) : String :=
  String.join ((notices.filter fun notice => notice.level.verbosity ≤ verbosity).map line)

end ContentStream.Notice
