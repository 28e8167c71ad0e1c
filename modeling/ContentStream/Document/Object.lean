import ContentStream.Operand
import ContentStream.Text.Utf8

/-!
# Objects of a document

A document is a table of objects and a trailer.  Its objects are those of content
streams and two more kinds: streams, which are a dictionary with data, and references
to objects of the table.  Names and keys are bytes here; they need not be text.
-/

namespace ContentStream

/-- A number may be given to an object anew; the generation tells how often it was. -/
structure ObjectId where
  number : Nat
  generation : Nat
  deriving DecidableEq, Repr

instance (number : Nat) : OfNat ObjectId number where
  ofNat := ⟨number, 0⟩

inductive Object where
  | null
  | boolean (value : Bool)
  | integer (value : Int64)
  | real (value : Float)
  | name (bytes : Bytes)
  | literalString (bytes : Bytes)
  | hexString (bytes : Bytes)
  | array (items : List Object)
  | dictionary (entries : List (Bytes × Object))
  | stream (entries : List (Bytes × Object)) (data : Bytes)
  | reference (id : ObjectId)
  deriving Inhabited

namespace Object

abbrev Entries := List (Bytes × Object)

def get? (entries : Entries) (key : String) : Option Object :=
  entries.lookup (Utf8.encode key)

def insert (key : Bytes) (value : Object) : Entries → Entries
  | [] => [(key, value)]
  | entry :: rest =>
    if entry.1 = key then (key, value) :: rest else entry :: insert key value rest

def kind : Object → String
  | .null => "Null"
  | .boolean _ => "Boolean"
  | .integer _ => "Integer"
  | .real _ => "Real"
  | .name _ => "Name"
  | .literalString _ | .hexString _ => "String"
  | .array _ => "Array"
  | .dictionary _ => "Dictionary"
  | .stream _ _ => "Stream"
  | .reference _ => "Reference"

/-- A real has single precision in a file, and is an integer if it is integral. -/
def storedReal (value : Float) : Object :=
  let rounded := Binary.toSingle value
  match Binary.toInt? rounded with
  | some whole => .integer (Int64.ofIntClamp whole)
  | none => .real rounded

mutual

def stored : Object → Object
  | .real value => storedReal value
  | .array items => .array (storedItems items)
  | .dictionary entries => .dictionary (storedEntries [] entries)
  | .stream entries data =>
    let length := Object.integer (Int64.ofNat data.length)
    .stream (insert (Utf8.encode "Length") length (storedEntries [] entries)) data
  | object => object

def storedItems : List Object → List Object
  | [] => []
  | item :: items => stored item :: storedItems items

def storedEntries (done : List (Bytes × Object)) :
    List (Bytes × Object) → List (Bytes × Object)
  | [] => done
  | (key, value) :: entries => storedEntries (insert key (stored value) done) entries

end

end Object

structure Table where
  objects : List (ObjectId × Object)
  trailer : Object.Entries

namespace Table

def ofObjects (objects : List (ObjectId × Object)) (trailer : Object.Entries) : Table where
  objects := objects.map fun (id, object) => (id, object.stored)
  trailer := Object.storedEntries [] trailer

/-- At most `steps` references lead from one object of the table to one that is none. -/
inductive Leads (table : Table) : (steps : Nat) → ObjectId → Object → Prop
  | here {steps : Nat} {id : ObjectId} {object : Object}
      (hlookup : table.objects.lookup id = some object)
      (hobject : ∀ next, object ≠ .reference next) : Leads table steps id object
  | next {steps : Nat} {id next : ObjectId} {object : Object}
      (hlookup : table.objects.lookup id = some (.reference next))
      (h : Leads table steps next object) : Leads table (steps + 1) id object

theorem Leads.mem_ids {table : Table} {steps : Nat} {id : ObjectId} {object : Object}
    (h : table.Leads steps id object) : id ∈ table.objects.map Prod.fst := by
  obtain ⟨value, hvalue⟩ : ∃ value, table.objects.lookup id = some value := by
    cases h with
    | here hlookup _ => exact ⟨_, hlookup⟩
    | next hlookup _ => exact ⟨_, hlookup⟩
  obtain ⟨before, after, heq, _⟩ := List.lookup_eq_some_iff.1 hvalue
  simp [heq]

end Table

end ContentStream
