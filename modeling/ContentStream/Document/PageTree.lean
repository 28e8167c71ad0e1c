import ContentStream.Document.Object

/-!
# The page tree

The pages of a document are the leaves of a tree, in order.  The tree may be
malformed: what is neither a page nor a node is passed over, as are nodes that lie
too deep, and at most as many kids are looked at as there are objects, so that a tree
with a cycle ends.
-/

namespace ContentStream.Table

def follow (table : Table) : (steps : Nat) → (id : ObjectId) → Option Object
  | 0, id =>
    match table.objects.lookup id with
    | some (.reference _) => none
    | found => found
  | steps + 1, id =>
    match table.objects.lookup id with
    | some (.reference next) => table.follow steps next
    | found => found

theorem follow_eq_some_iff {table : Table} {steps : Nat} {id : ObjectId} {object : Object} :
    table.follow steps id = some object ↔ table.Leads steps id object := by
  induction steps generalizing id with
  | zero =>
      rw [follow]
      constructor
      · intro h
        split at h
        next => contradiction
        next hnot => exact .here h fun next heq => hnot next (heq ▸ h)
      · rintro ⟨hlookup, hobject⟩
        split
        next next hnext => exact absurd (Option.some.inj (hlookup.symm.trans hnext)) (hobject next)
        next => exact hlookup
  | succ steps ih =>
      rw [follow]
      constructor
      · intro h
        split at h
        next next hnext => exact .next hnext (ih.1 h)
        next hnot => exact .here h fun next heq => hnot next (heq ▸ h)
      · intro h
        cases h with
        | here hlookup hobject =>
            split
            next next hnext =>
              exact absurd (Option.some.inj (hlookup.symm.trans hnext)) (hobject next)
            next => exact hlookup
        | next hlookup h =>
            rw [hlookup]
            exact ih.2 h

/-- How many references may lead from one object of the table to another. -/
def referenceLimit : Nat := 128

def target? (table : Table) : Object → Option Object
  | .reference id => table.follow (referenceLimit - 1) id
  | object => some object

def dictionary? (table : Table) (id : ObjectId) : Option Object.Entries :=
  match table.follow referenceLimit id with
  | some (.dictionary entries) => some entries
  | _ => none

def kids? (table : Table) (node : ObjectId) : Option (List Object) := do
  let entries ← table.dictionary? node
  match table.target? (← Object.get? entries "Kids") with
  | some (.array items) => some items
  | _ => none

inductive Kid where
  | page (id : ObjectId)
  | node (id : ObjectId)
  | other

def kid (table : Table) : Object → Kid
  | .reference id =>
    match (table.dictionary? id).bind fun entries => Object.get? entries "Type" with
    | some (.name type) =>
      if type = Utf8.encode "Page" then .page id
      else if type = Utf8.encode "Pages" then .node id
      else .other
    | _ => .other
  | _ => .other

def levelLimit : Nat := 256

/--
The kids that are left on each level, the deepest first, after a node has been met:
those of the node come before the others of its level.
-/
def enter (table : Table) (node : ObjectId) (kids : List Object) (above : List (List Object)) :
    List (List Object) :=
  if above.length < levelLimit then
    (table.kids? node).getD [] :: (if kids.isEmpty then above else kids :: above)
  else
    kids :: above

def walk (table : Table) : (budget : Nat) → (levels : List (List Object)) → List ObjectId
  | 0, _ => []
  | budget + 1, levels =>
    match levels.dropWhile List.isEmpty with
    | (first :: kids) :: above =>
      match table.kid first with
      | .page id => id :: table.walk budget (kids :: above)
      | .node id => table.walk budget (table.enter id kids above)
      | .other => table.walk budget (kids :: above)
    | _ => []

def treeRoot? (table : Table) : Option ObjectId :=
  match Object.get? table.trailer "Root" with
  | some (.reference root) =>
    match (table.dictionary? root).bind fun entries => Object.get? entries "Pages" with
    | some (.reference pages) => some pages
    | _ => none
  | _ => none

def leaves (table : Table) : List ObjectId :=
  match table.treeRoot?.bind table.kids? with
  | some kids => table.walk table.objects.length [kids]
  | none => []

theorem exists_dictionary?_of_kid {table : Table} {object : Object} {id : ObjectId}
    (h : table.kid object = .page id) : ∃ entries, table.dictionary? id = some entries := by
  unfold kid at h
  split at h
  next other =>
    split at h
    next type htype =>
      obtain ⟨entries, hentries, -⟩ := Option.bind_eq_some_iff.1 htype
      split at h
      next =>
        obtain rfl := Kid.page.inj h
        exact ⟨entries, hentries⟩
      next => split at h <;> contradiction
    next => contradiction
  next => contradiction

theorem exists_dictionary?_of_mem_walk {table : Table} {budget : Nat}
    {levels : List (List Object)} {id : ObjectId} (h : id ∈ table.walk budget levels) :
    ∃ entries, table.dictionary? id = some entries := by
  induction budget generalizing levels with
  | zero => simp [walk] at h
  | succ budget ih =>
      rw [walk] at h
      split at h
      next first kids above _ =>
        split at h
        next page hkid =>
          rcases List.mem_cons.1 h with rfl | h
          · exact exists_dictionary?_of_kid hkid
          · exact ih h
        next => exact ih h
        next => exact ih h
      next => simp at h

theorem exists_dictionary_of_mem_leaves {table : Table} {id : ObjectId}
    (h : id ∈ table.leaves) :
    ∃ entries, table.follow referenceLimit id = some (.dictionary entries) := by
  have hdictionary : ∃ entries, table.dictionary? id = some entries := by
    rw [leaves] at h
    split at h
    next => exact exists_dictionary?_of_mem_walk h
    next => simp at h
  obtain ⟨entries, hentries⟩ := hdictionary
  rw [dictionary?] at hentries
  split at hentries
  next found hfound => exact ⟨found, hfound⟩
  next => contradiction

def isEncrypted (table : Table) : Bool :=
  match Object.get? table.trailer "Encrypt" with
  | some (.reference id) => (table.dictionary? id).isSome
  | _ => false

end ContentStream.Table
