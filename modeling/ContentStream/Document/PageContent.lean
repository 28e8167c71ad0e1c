import ContentStream.Document.Library

/-!
# The content of a page

A page names one content stream or an array of them.  Several streams count as one;
a space stands between them, but none before the first that is not empty.
-/

namespace ContentStream.Document

def streamData (doc : Document) (object : Object) : Except Error Bytes :=
  match object with
  | .stream entries data =>
    if (Object.get? entries "Filter").isSome then
      (doc.library.decoded entries data).mapError Error.document
    else
      .ok data
  | other => .error (.document (.mistyped "Stream" other.kind))

def joinPart (content part : Bytes) : Bytes :=
  if content.isEmpty then part else content ++ 0x20 :: part

def joinParts (doc : Document) (content : Bytes) : List Object → Except Error Bytes
  | [] => .ok content
  | part :: parts => do
    let data ← doc.streamData (doc.resolve part)
    doc.joinParts (joinPart content data) parts

def pageContent (doc : Document) (index : Nat) : Except Error Bytes := do
  let entries ← doc.page index
  match Object.get? entries "Contents" with
  | none => return []
  | some contents =>
    match doc.resolve contents with
    | .array parts => doc.joinParts [] parts
    | other => doc.streamData other

def streamNotices (doc : Document) : Object → List Notice
  | .stream entries data =>
    if (Object.get? entries "Filter").isSome then doc.library.decodingNotices entries data else []
  | _ => []

def partNotices (doc : Document) : List Object → List Notice
  | [] => []
  | part :: parts =>
    doc.streamNotices (doc.resolve part) ++
      match doc.streamData (doc.resolve part) with
      | .ok _ => doc.partNotices parts
      | .error _ => []

def contentNotices (doc : Document) (index : Nat) : List Notice :=
  match (doc.page index).toOption.bind fun entries => Object.get? entries "Contents" with
  | none => []
  | some contents =>
    match doc.resolve contents with
    | .array parts => doc.partNotices parts
    | other => doc.streamNotices other

end ContentStream.Document
