import ContentStream.Bytes
import ContentStream.Number.Binary

/-!
# Operands

The values that precede an operator.  A dictionary keeps its entries in the order
in which their keys first appeared, because image dictionaries are written back in
that order.  Accessors return `none` for a value of another kind; those for
numbers convert between integers and reals.
-/

namespace ContentStream

inductive Operand where
  | integer (value : Int64)
  | real (value : Float)
  | boolean (value : Bool)
  | name (text : String)
  | literalString (bytes : Bytes)
  | hexString (bytes : Bytes)
  | array (items : List Operand)
  | dictionary (entries : List (String × Operand))
  | null
  deriving Inhabited

abbrev Dictionary := List (String × Operand)

namespace Dictionary

def get? (d : Dictionary) (key : String) : Option Operand :=
  List.lookup key d

/-- A new key comes last; a key that is present keeps its place. -/
def insert (key : String) (value : Operand) : Dictionary → Dictionary
  | [] => [(key, value)]
  | entry :: rest =>
    if entry.1 = key then (key, value) :: rest else entry :: insert key value rest

def keys (d : Dictionary) : List String :=
  d.map Prod.fst

def ofEntries (entries : List (String × Operand)) : Dictionary :=
  entries.foldl (fun d entry => insert entry.1 entry.2 d) []

end Dictionary

namespace Operand

inductive Kind where
  | integer
  | real
  | boolean
  | name
  | string
  | array
  | dictionary
  | null
  deriving DecidableEq, Repr

def Kind.label : Kind → String
  | .integer => "integer"
  | .real => "real"
  | .boolean => "boolean"
  | .name => "name"
  | .string => "string"
  | .array => "array"
  | .dictionary => "dictionary"
  | .null => "null"

def kind : Operand → Kind
  | .integer _ => .integer
  | .real _ => .real
  | .boolean _ => .boolean
  | .name _ => .name
  | .literalString _ | .hexString _ => .string
  | .array _ => .array
  | .dictionary _ => .dictionary
  | .null => .null

def isNumber : Operand → Bool
  | .integer _ | .real _ => true
  | _ => false

def number? : Operand → Option Float
  | .integer value => some (Binary.ofInt value.toInt)
  | .real value => some value
  | _ => none

/-- An integer, or a real without fractional part, moved into the range of integers. -/
def integer? : Operand → Option Int64
  | .integer value => some value
  | .real value => (Binary.toInt? value).map Int64.ofIntClamp
  | _ => none

def boolean? : Operand → Option Bool
  | .boolean value => some value
  | _ => none

def name? : Operand → Option String
  | .name text => some text
  | _ => none

def string? : Operand → Option Bytes
  | .literalString bytes | .hexString bytes => some bytes
  | _ => none

def array? : Operand → Option (List Operand)
  | .array items => some items
  | _ => none

def dictionary? : Operand → Option Dictionary
  | .dictionary entries => some entries
  | _ => none

/-! ## Equality

Operands are compared up to a relation between reals.  With `==` they are compared
as numbers: zeros of either sign are the same, and what is not a number differs
from itself.  With equality of doubles the relation is propositional equality.
-/

mutual

def equalWith (same : Float → Float → Bool) : Operand → Operand → Bool
  | .integer x, .integer y => x = y
  | .real x, .real y => same x y
  | .boolean x, .boolean y => x = y
  | .name x, .name y => x = y
  | .literalString x, .literalString y => x = y
  | .hexString x, .hexString y => x = y
  | .array xs, .array ys => equalItemsWith same xs ys
  | .dictionary xs, .dictionary ys => equalEntriesWith same xs ys
  | .null, .null => true
  | _, _ => false

def equalItemsWith (same : Float → Float → Bool) : List Operand → List Operand → Bool
  | [], [] => true
  | x :: xs, y :: ys => equalWith same x y && equalItemsWith same xs ys
  | _, _ => false

def equalEntriesWith (same : Float → Float → Bool) :
    List (String × Operand) → List (String × Operand) → Bool
  | [], [] => true
  | (k, x) :: xs, (l, y) :: ys =>
    k = l && equalWith same x y && equalEntriesWith same xs ys
  | _, _ => false

end

/-- Equality as values, with reals compared as numbers. -/
def sameValue (x y : Operand) : Bool :=
  equalWith (· == ·) x y

mutual

private theorem equalWith_iff : (x y : Operand) →
    (equalWith (fun a b => a = b) x y = true ↔ x = y)
  | .integer _, y => by cases y <;> simp [equalWith]
  | .real _, y => by cases y <;> simp [equalWith]
  | .boolean _, y => by cases y <;> simp [equalWith]
  | .name _, y => by cases y <;> simp [equalWith]
  | .literalString _, y => by cases y <;> simp [equalWith]
  | .hexString _, y => by cases y <;> simp [equalWith]
  | .array xs, y => by
    cases y <;> simp [equalWith]
    exact equalItemsWith_iff xs _
  | .dictionary xs, y => by
    cases y <;> simp [equalWith]
    exact equalEntriesWith_iff xs _
  | .null, y => by cases y <;> simp [equalWith]

private theorem equalItemsWith_iff : (xs ys : List Operand) →
    (equalItemsWith (fun a b => a = b) xs ys = true ↔ xs = ys)
  | [], ys => by cases ys <;> simp [equalItemsWith]
  | x :: xs, ys => by
    cases ys with
    | nil => simp [equalItemsWith]
    | cons y ys =>
      simp [equalItemsWith, equalWith_iff x y, equalItemsWith_iff xs ys]

private theorem equalEntriesWith_iff : (xs ys : List (String × Operand)) →
    (equalEntriesWith (fun a b => a = b) xs ys = true ↔ xs = ys)
  | [], ys => by cases ys <;> simp [equalEntriesWith]
  | (k, x) :: xs, ys => by
    cases ys with
    | nil => simp [equalEntriesWith]
    | cons y ys =>
      obtain ⟨l, y⟩ := y
      simp [equalEntriesWith, equalWith_iff x y, equalEntriesWith_iff xs ys]

end

instance : DecidableEq Operand := fun x y =>
  decidable_of_iff _ (equalWith_iff x y)

end Operand

end ContentStream
