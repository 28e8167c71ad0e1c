import ContentStream.Document.Object
import ContentStream.Error
import ContentStream.Notice

/-!
# Documents

A document is read by a library, which finds its objects, lists its pages and undoes the
filters of its streams.  Nothing else is known of a library than its laws.
-/

namespace ContentStream

structure Library where
  referenceLimit : Nat
  object? : Table → ObjectId → Option Object
  pages : Table → List ObjectId
  isEncrypted : Table → Bool
  decoded : Object.Entries → Bytes → Except DocumentFault Bytes
  decodingNotices : Object.Entries → Bytes → List Notice
  /-- References are followed.  Nothing is found if one is missing or they do not end. -/
  object?_eq_some_iff : ∀ {table : Table} {id : ObjectId} {object : Object},
    object? table id = some object ↔ table.Leads referenceLimit id object
  exists_dictionary_of_mem_pages : ∀ {table : Table} {id : ObjectId}, id ∈ pages table →
    ∃ entries, object? table id = some (.dictionary entries)

structure Document extends Table where
  library : Library

namespace Document

def object? (doc : Document) (id : ObjectId) : Option Object :=
  doc.library.object? doc.toTable id

/-- What a reference leads to; a reference that leads nowhere stays as it is. -/
def resolve (doc : Document) : Object → Object
  | .reference id => (doc.object? id).getD (.reference id)
  | object => object

theorem object?_eq_some_iff {doc : Document} {id : ObjectId} {object : Object} :
    doc.object? id = some object ↔ doc.Leads doc.library.referenceLimit id object :=
  doc.library.object?_eq_some_iff

def checkReadable (doc : Document) : Except Error Unit :=
  if doc.library.isEncrypted doc.toTable then .error (.document .encrypted) else .ok ()

def pages (doc : Document) : List ObjectId :=
  doc.library.pages doc.toTable

def pageId (doc : Document) (index : Nat) : Except Error ObjectId :=
  match doc.pages[index]? with
  | some id => .ok id
  | none => .error (.document (.pageOutOfRange index doc.pages.length))

def expectDictionary : Object → Except Error Object.Entries
  | .dictionary entries => .ok entries
  | other => .error (.document (.mistyped "Dictionary" other.kind))

def page (doc : Document) (index : Nat) : Except Error Object.Entries := do
  let id ← doc.pageId index
  expectDictionary (doc.resolve (.reference id))

end Document

end ContentStream
