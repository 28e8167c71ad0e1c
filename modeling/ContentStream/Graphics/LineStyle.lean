/-!
# Line styles

How stroked lines end, how they join, and how they are dashed.  Caps and joins are
given by small integers; other integers are no style.
-/

namespace ContentStream

inductive LineCap where
  | butt
  | round
  | projectingSquare
  deriving DecidableEq, Repr, Inhabited

namespace LineCap

def ofInt? : Int → Option LineCap
  | 0 => some .butt
  | 1 => some .round
  | 2 => some .projectingSquare
  | _ => none

def label : LineCap → String
  | .butt => "Butt"
  | .round => "Round"
  | .projectingSquare => "ProjectingSquare"

end LineCap

inductive LineJoin where
  | miter
  | round
  | bevel
  deriving DecidableEq, Repr, Inhabited

namespace LineJoin

def ofInt? : Int → Option LineJoin
  | 0 => some .miter
  | 1 => some .round
  | 2 => some .bevel
  | _ => none

def label : LineJoin → String
  | .miter => "Miter"
  | .round => "Round"
  | .bevel => "Bevel"

end LineJoin

structure DashPattern where
  lengths : List Float
  phase : Float
  deriving DecidableEq, BEq

namespace DashPattern

def solid : DashPattern := ⟨[], 0⟩

def isSolid (pattern : DashPattern) : Bool :=
  pattern.lengths.isEmpty

end DashPattern

end ContentStream
