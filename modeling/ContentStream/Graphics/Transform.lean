/-!
# Affine transformations of the plane

A transformation is given by the six variable components of the matrix
`[a b 0; c d 0; e f 1]`, which acts on row vectors.  The scalars are any type with
addition and multiplication: doubles where a stream is run, exact numbers where
laws are stated.
-/

namespace ContentStream

structure Transform (α : Type) where
  a : α
  b : α
  c : α
  d : α
  e : α
  f : α
  deriving DecidableEq, Repr, BEq

namespace Transform

variable {α : Type}

def identity [OfNat α 0] [OfNat α 1] : Transform α :=
  ⟨1, 0, 0, 1, 0, 0⟩

def shift [OfNat α 0] [OfNat α 1] (x y : α) : Transform α :=
  ⟨1, 0, 0, 1, x, y⟩

/-- The transformation that applies `first` and then `m`. -/
def after [Add α] [Mul α] (m first : Transform α) : Transform α where
  a := first.a * m.a + first.b * m.c
  b := first.a * m.b + first.b * m.d
  c := first.c * m.a + first.d * m.c
  d := first.c * m.b + first.d * m.d
  e := first.e * m.a + first.f * m.c + m.e
  f := first.e * m.b + first.f * m.d + m.f

def apply [Add α] [Mul α] (m : Transform α) (point : α × α) : α × α :=
  (point.1 * m.a + point.2 * m.c + m.e, point.1 * m.b + point.2 * m.d + m.f)

def components (m : Transform α) : List α :=
  [m.a, m.b, m.c, m.d, m.e, m.f]

def ofComponents? : List α → Option (Transform α)
  | [a, b, c, d, e, f] => some ⟨a, b, c, d, e, f⟩
  | _ => none

def isIdentity (m : Transform Float) : Bool :=
  m == identity

end Transform

end ContentStream
