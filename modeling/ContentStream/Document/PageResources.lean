import ContentStream.Document.Library
import ContentStream.Resources

/-!
# The resources of a page

A page without resources of its own has those of the nearest ancestor that has
some.  Resources become a tree of operands: references are replaced by what they
lead to, streams by their dictionaries.  Objects may lead back to themselves, so the
tree is cut off at a fixed depth, below which everything is null.
-/

namespace ContentStream.Document

def unvisited (doc : Document) (visited : List ObjectId) : List ObjectId :=
  (doc.objects.map Prod.fst).filter fun id => id ∉ visited

theorem mem_ids_of_object? {doc : Document} {id : ObjectId} {object : Object}
    (h : doc.object? id = some object) : id ∈ doc.objects.map Prod.fst :=
  (object?_eq_some_iff.1 h).mem_ids

theorem length_unvisited_lt {doc : Document} {visited : List ObjectId} {id : ObjectId}
    (present : id ∈ doc.objects.map Prod.fst) (h : id ∉ visited) :
    (doc.unvisited (id :: visited)).length < (doc.unvisited visited).length := by
  have fewer : doc.unvisited (id :: visited) =
      (doc.unvisited visited).filter fun other => other ≠ id := by
    simp only [unvisited, List.filter_filter]
    congr 1
    funext other
    simp [List.mem_cons, not_or]
  rw [fewer]
  apply List.length_filter_lt_length_iff_exists.2
  exact ⟨id, by simpa [unvisited, h] using present, by simp⟩

theorem sizeOf_get?_lt {entries : Object.Entries} {key : String} {value : Object}
    (h : Object.get? entries key = some value) : sizeOf value < sizeOf entries := by
  obtain ⟨before, after, heq, _⟩ := List.lookup_eq_some_iff.1 h
  have member : (Utf8.encode key, value) ∈ entries := by simp [heq]
  have := List.sizeOf_lt_of_mem member
  simp at this
  omega

/--
The resources entry of a node or of its nearest ancestor with one.  No reference is
followed twice.
-/
def inherited? (doc : Document) (visited : List ObjectId) (node : Object.Entries) :
    Except Error (Option Object) :=
  match Object.get? node "Resources" with
  | some resources => .ok (some resources)
  | none =>
    match hp : Object.get? node "Parent" with
    | none => .ok none
    | some (.dictionary entries) =>
      have : sizeOf entries < sizeOf node := by
        have := sizeOf_get?_lt hp
        simp at this
        omega
      doc.inherited? visited entries
    | some (.reference id) =>
      if hv : id ∈ visited then .error (.document (.parentCycle id))
      else
        match ho : doc.object? id with
        | some (.dictionary entries) =>
          have := length_unvisited_lt (mem_ids_of_object? ho) hv
          doc.inherited? (id :: visited) entries
        | some other => .error (.document (.mistyped "Dictionary" other.kind))
        | none => .error (.document (.mistyped "Dictionary" "Reference"))
    | some other => .error (.document (.mistyped "Dictionary" other.kind))
termination_by ((doc.unvisited visited).length, sizeOf node)

/-! ## Resources as operands -/

def resourceLevels : Nat := 8

def convertEntries (convert : Object → Operand) (entries : Object.Entries) : Dictionary :=
  entries.filterMap fun (key, value) =>
    (Utf8.decode? key).map fun text => (text, convert value)

/-- The tree that begins with an object; entering it and each step below is a level. -/
def operandWithin (doc : Document) : (levels : Nat) → Object → Operand
  | 0, _ => .null
  | levels + 1, object =>
    match object with
    | .null => .null
    | .boolean value => .boolean value
    | .integer value => .integer value
    | .real value => .real value
    | .name bytes => ((Utf8.decode? bytes).map Operand.name).getD .null
    | .literalString bytes => .literalString bytes
    | .hexString bytes => .hexString bytes
    | .array items => .array (items.map (doc.operandWithin levels))
    | .dictionary entries => .dictionary (convertEntries (doc.operandWithin levels) entries)
    | .stream entries _ => .dictionary (convertEntries (doc.operandWithin levels) entries)
    | .reference id =>
      match doc.object? id with
      | some target => doc.operandWithin levels target
      | none => .null

def entryNotices (notices : Object → List Notice) (entries : Object.Entries) : List Notice :=
  entries.flatMap fun (key, value) =>
    if (Utf8.decode? key).isSome then notices value else [.unreadableKey key]

def noticesWithin (doc : Document) : (levels : Nat) → Object → List Notice
  | 0, _ => []
  | levels + 1, object =>
    match object with
    | .name bytes => if (Utf8.decode? bytes).isSome then [] else [.unreadableName bytes]
    | .array items => items.flatMap (doc.noticesWithin levels)
    | .dictionary entries => entryNotices (doc.noticesWithin levels) entries
    | .stream entries _ => entryNotices (doc.noticesWithin levels) entries
    | .reference id =>
      match doc.object? id with
      | some target => doc.noticesWithin levels target
      | none => []
    | _ => []

def resourceEntries (doc : Document) (index : Nat) : Except Error Object.Entries := do
  let id ← doc.pageId index
  let entries ← doc.page index
  match (← doc.inherited? [id] entries).map doc.resolve with
  | none => return []
  | some (.dictionary entries) => return entries
  | some _ => throw (.document .resourcesMistyped)

def pageResources (doc : Document) (index : Nat) : Except Error Resources :=
  (doc.resourceEntries index).map fun entries =>
    ⟨convertEntries (doc.operandWithin resourceLevels) entries⟩

def resourceNotices (doc : Document) (index : Nat) : List Notice :=
  match doc.resourceEntries index with
  | .ok entries => entryNotices (doc.noticesWithin resourceLevels) entries
  | .error _ => []

end ContentStream.Document
