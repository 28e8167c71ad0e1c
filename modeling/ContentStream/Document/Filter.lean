import ContentStream.Document.Base85
import ContentStream.Document.Deflate
import ContentStream.Document.Lzw
import ContentStream.Document.Object
import ContentStream.Notice

/-!
# Stream filters

The data of a stream may be encoded; its dictionary names the filters to undo, in
order.  Base-85 text and two forms of compressed data are decoded; other filters are
not supported.
-/

namespace ContentStream.Filter

def widensEarly (entries : Object.Entries) : Bool :=
  match Object.get? entries "DecodeParms" with
  | some (.dictionary parameters) =>
    match Object.get? parameters "EarlyChange" with
    | some (.integer value) => value ≠ 0
    | _ => true
  | _ => true

def undo (unknown : String) (entries : Object.Entries) (name data : Bytes) :
    Except DocumentFault Bytes :=
  if name = Utf8.encode "ASCII85Decode" then Base85.decode data
  else if name = Utf8.encode "FlateDecode" then .ok (Deflate.decode data).bytes
  else if name = Utf8.encode "LZWDecode" then .ok (Lzw.decode (widensEarly entries) data).bytes
  else .error (.refused unknown)

def undoAll (unknown : String) (entries : Object.Entries) :
    (names : List Bytes) → Bytes → Except DocumentFault Bytes
  | [], data => .ok data
  | name :: names, data => do
    let next ← undo unknown entries name data
    undoAll unknown entries names next

def names : List Object → Except DocumentFault (List Bytes)
  | [] => .ok []
  | .name first :: items => (names items).map (first :: ·)
  | other :: _ => .error (.mistyped "Name" other.kind)

/--
The decoded data of a stream.  Where there is a list of filters but nothing in it
the data counts as empty.
-/
def decode (unknown : String) (entries : Object.Entries) (data : Bytes) :
    Except DocumentFault Bytes :=
  match Object.get? entries "Filter" with
  | none => .ok data
  | some (.name name) => undo unknown entries name data
  | some (.array []) => .ok []
  | some (.array items) => do
    let filters ← names items
    undoAll unknown entries filters data
  | some other => .error (.mistyped "Name or Array" other.kind)

def undoNotices (entries : Object.Entries) (name data : Bytes) : List Notice :=
  if name = Utf8.encode "ASCII85Decode" then
    if Base85.isMarked data then [] else [.endMarkMissing]
  else if name = Utf8.encode "FlateDecode" then
    match (Deflate.decode data).fault? with
    | some .malformed => [.malformedDeflate]
    | _ => []
  else if name = Utf8.encode "LZWDecode" then
    match (Lzw.decode (widensEarly entries) data).fault? with
    | some .malformed => [.malformedCodes]
    | some .ended => [.codesUnended]
    | none => []
  else []

def undoAllNotices (entries : Object.Entries) : (names : List Bytes) → Bytes → List Notice
  | [], _ => []
  | name :: names, data =>
    undoNotices entries name data ++
      match undo "" entries name data with
      | .ok next => undoAllNotices entries names next
      | .error _ => []

def notices (entries : Object.Entries) (data : Bytes) : List Notice :=
  match Object.get? entries "Filter" with
  | some (.name name) => undoNotices entries name data
  | some (.array items) =>
    match names items with
    | .ok filters => undoAllNotices entries filters data
    | .error _ => []
  | _ => []

end ContentStream.Filter
