import ContentStream.Number.Layout
import ContentStream.Text.Blank

/-!
# Page ranges

A selection of pages is written as numbers and ranges of numbers between commas,
counted from one.  It means a set: the indices of the selected pages come out in
increasing order, each once.
-/

namespace ContentStream.PageRange

inductive Fault where
  | number (text : String)
  | zero
  | pastEnd (page count : Nat)
  | descending (part : String)
  | empty (input : String)
  deriving DecidableEq, Repr

def Fault.message : Fault → String
  | .number text => s!"invalid page number: '{text}'"
  | .zero => "page 0 is invalid (pages start at 1)"
  | .pastEnd page count => s!"page {page} exceeds document page count ({count})"
  | .descending part => s!"descending page range: '{part}'"
  | .empty input => s!"no pages selected by '{input}'"

def split (separator : Char) : List Char → List (List Char)
  | [] => [[]]
  | char :: rest =>
    if char = separator then [] :: split separator rest
    else
      match split separator rest with
      | [] => [[char]]
      | piece :: pieces => (char :: piece) :: pieces

/-- Digits after an optional plus sign, with a value of at most 64 bits. -/
def natural? (text : List Char) : Option Nat :=
  let digits := if text.head? = some '+' then text.drop 1 else text
  (Number.natOfChars? digits).filter fun value => value < UInt64.size

def number (count : Nat) (text : List Char) : Except Fault Nat :=
  let text := Text.trim text
  match natural? text with
  | none => .error (.number (String.ofList text))
  | some 0 => .error .zero
  | some page => if count < page then .error (.pastEnd page count) else .ok page

def bounds (count : Nat) (part : List Char) : Except Fault (Nat × Nat) :=
  match part.dropWhile (· ≠ '-') with
  | [] => (number count part).map fun page => (page, page)
  | _ :: last => do
    let first ← number count (part.takeWhile (· ≠ '-'))
    let last ← number count last
    return (first, last)

def pagesOf (count : Nat) (part : List Char) : Except Fault (List Nat) := do
  let (first, last) ← bounds count part
  if last < first then
    throw (.descending (String.ofList part))
  return List.range' first (last + 1 - first)

def parts (input : List Char) : List (List Char) :=
  ((split ',' input).map Text.trim).filter fun part => !part.isEmpty

def mergeNeighbors : List Nat → List Nat
  | [] => []
  | [page] => [page]
  | first :: second :: pages =>
    if first = second then mergeNeighbors (second :: pages)
    else first :: mergeNeighbors (second :: pages)

/-- The indices, counted from zero, of the pages that a selection covers. -/
def indices (input : String) (count : Nat) : Except Fault (List Nat) := do
  let covered ← (parts input.toList).mapM (pagesOf count)
  let pages := covered.flatten
  if pages.isEmpty then
    throw (.empty input)
  return (mergeNeighbors (pages.mergeSort (· ≤ ·))).map (· - 1)

end ContentStream.PageRange
