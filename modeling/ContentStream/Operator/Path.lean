import ContentStream.Operator

/-!
# Path operators

Segments are not recorded.  An operator that constructs a segment checks its
coordinates and opens a path; painting closes it, and clipping marks it.
-/

namespace ContentStream.Operator

def segment (name : String) (coordinates : Nat) : Operator :=
  updating name .generic fun _ state args =>
    (args.numbers coordinates).map fun _ => { state with object := .path }

def closeSubpath : Operator :=
  acting "h" fun state => (state, [])

def construction : List Operator :=
  [segment "m" 2, segment "l" 2, segment "c" 6, segment "v" 4, segment "y" 4, closeSubpath,
    segment "re" 4]

def pathPainting : List Operator :=
  ["S", "s", "f", "F", "f*", "B", "B*", "b", "b*", "n"].map fun name => entering name .none

def clipping : List Operator :=
  ["W", "W*"].map fun name => entering name .clippingPath

def path : List Operator :=
  construction ++ pathPainting ++ clipping

end ContentStream.Operator
