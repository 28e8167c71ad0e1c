import ContentStream.Error
import Mathlib.Algebra.Group.Nat.Defs

/-!
# Checked computations

Indices, slices and counters, with the checks that they pass where lists are arrays and numbers
are machine words.  A checked computation gives a value, fails with an error, or panics because
something is out of range.  Where it agrees with a total one, it never panics.
-/

namespace ContentStream

inductive Checked (α : Type) where
  /-- Something is out of range, or a loop goes on after its last round. -/
  | panics
  | fails (error : Error)
  | gives (value : α)

namespace Checked

variable {α β : Type}

def ofExcept : Except Error α → Checked α
  | .ok value => .gives value
  | .error error => .fails error

instance : Monad Checked where
  pure := .gives
  bind computation next :=
    match computation with
    | .panics => .panics
    | .fails error => .fails error
    | .gives value => next value

@[simp] theorem gives_bind (value : α) (next : α → Checked β) :
    (gives value >>= next) = next value := rfl

@[simp] theorem fails_bind (error : Error) (next : α → Checked β) :
    (fails error >>= next) = fails error := rfl

@[simp] theorem pure_eq (value : α) : (pure value : Checked α) = gives value := rfl

theorem ofExcept_bind (computation : Except Error α) (next : α → Except Error β) :
    ofExcept (computation >>= next) =
      ofExcept computation >>= fun value => ofExcept (next value) := by
  cases computation <;> rfl

def address (number : Nat) : Checked Nat :=
  if number < 2 ^ 64 then .gives number else .panics

def counter (number : Nat) : Checked Nat :=
  if number < 2 ^ 32 then .gives number else .panics

def less (number taken : Nat) : Checked Nat :=
  if taken ≤ number then .gives (number - taken) else .panics

def item (items : List α) (index : Nat) : Checked α :=
  match items[index]? with
  | some value => .gives value
  | none => .panics

def slice (items : List α) (start stop : Nat) : Checked (List α) :=
  if start ≤ stop ∧ stop ≤ items.length then .gives ((items.take stop).drop start) else .panics

theorem address_eq {number : Nat} (h : number < 2 ^ 64) : address number = .gives number :=
  if_pos h

theorem counter_eq {number : Nat} (h : number < 2 ^ 32) : counter number = .gives number :=
  if_pos h

theorem less_eq {number taken : Nat} (h : taken ≤ number) :
    less number taken = .gives (number - taken) :=
  if_pos h

theorem item_eq {items : List α} {index : Nat} {value : α} (h : items[index]? = some value) :
    item items index = .gives value := by
  rw [item, h]

theorem slice_eq {items : List α} {start stop : Nat} (h : start ≤ stop ∧ stop ≤ items.length) :
    slice items start stop = .gives ((items.take stop).drop start) :=
  if_pos h

end Checked

end ContentStream
