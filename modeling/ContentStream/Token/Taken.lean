import ContentStream.Error

/-!
# Reading from the front

A reader takes something off the front of its input.  What it returns carries a
proof that the rest is shorter, so a loop of readings ends.  A reader that fails
keeps the input from the place where it got stuck; the offset of that place is
what is missing of the whole input.
-/

namespace ContentStream

/-- Something read from the front of `input`, and the shorter rest. -/
structure Taken (α : Type) (input : Bytes) where
  value : α
  rest : Bytes
  shorter : rest.length < input.length

/-- Why reading stopped, and the input from the place that the error names. -/
structure Stuck where
  rest : Bytes
  fault : StreamFault

namespace Taken

def map {α β : Type} {input : Bytes} (f : α → β) (t : Taken α input) : Taken β input :=
  ⟨f t.value, t.rest, t.shorter⟩

def within {α : Type} {inner input : Bytes} (h : inner.length ≤ input.length)
    (t : Taken α inner) : Taken α input :=
  ⟨t.value, t.rest, Nat.lt_of_lt_of_le t.shorter h⟩

def afterFirst {α : Type} {byte : UInt8} {tail : Bytes} (value : α) (rest : Bytes)
    (h : rest.length ≤ tail.length) : Taken α (byte :: tail) :=
  ⟨value, rest, Nat.lt_succ_of_le h⟩

end Taken

def Stuck.offset (whole : Bytes) (stuck : Stuck) : Nat :=
  whole.length - stuck.rest.length

theorem length_dropWhile_le {α : Type} (p : α → Bool) (xs : List α) :
    (xs.dropWhile p).length ≤ xs.length :=
  (List.dropWhile_sublist p).length_le

end ContentStream
