import ContentStream.Graphics.Color

/-!
# Resources

Operators name color spaces and parameter dictionaries that are kept beside the
stream: a dictionary of categories, each of which maps names to values.
-/

namespace ContentStream

structure Resources where
  categories : Dictionary
  deriving DecidableEq

namespace Resources

def empty : Resources := ⟨[]⟩

/--
The value with a name in a category.  A category that is there has to be a
dictionary.
-/
def lookup (r : Resources) (category name : String) : Except Error Operand :=
  match Dictionary.get? r.categories category with
  | none => .error (.missingResource category name)
  | some (.dictionary entries) =>
    match Dictionary.get? entries name with
    | some value => .ok value
    | none => .error (.missingResource category name)
  | some other => .error (.malformedResource category name (.categoryMistyped other.kind))

def colorSpace (r : Resources) (name : String) : Except Error ColorSpace :=
  match ColorSpace.ofName? name with
  | some space => .ok space
  | none => do
    let value ← r.lookup "ColorSpace" name
    match ColorSpace.ofOperand? value with
    | some space => return space
    | none => throw (.malformedResource "ColorSpace" name .unsupportedColorSpace)

def parameters (r : Resources) (name : String) : Except Error Dictionary := do
  let value ← r.lookup "ExtGState" name
  match value.dictionary? with
  | some entries => return entries
  | none => throw (.malformedResource "ExtGState" name (.entryMistyped value.kind))

end Resources

end ContentStream
