import ContentStream.Graphics.Transform

/-!
# Text state and text position

The text state belongs to the graphics state and is saved with it.  The text
position belongs to a text object: a text matrix, and the matrix at the start of
the current line.
-/

namespace ContentStream

inductive TextMode where
  | fill
  | stroke
  | fillStroke
  | invisible
  | fillClip
  | strokeClip
  | fillStrokeClip
  | clip
  deriving DecidableEq, Repr, Inhabited

namespace TextMode

def ofInt? : Int → Option TextMode
  | 0 => some .fill
  | 1 => some .stroke
  | 2 => some .fillStroke
  | 3 => some .invisible
  | 4 => some .fillClip
  | 5 => some .strokeClip
  | 6 => some .fillStrokeClip
  | 7 => some .clip
  | _ => none

def label : TextMode → String
  | .fill => "Fill"
  | .stroke => "Stroke"
  | .fillStroke => "FillStroke"
  | .invisible => "Invisible"
  | .fillClip => "FillClip"
  | .strokeClip => "StrokeClip"
  | .fillStrokeClip => "FillStrokeClip"
  | .clip => "Clip"

end TextMode

structure TextState where
  characterSpacing : Float := 0
  wordSpacing : Float := 0
  /-- In percent. -/
  horizontalScaling : Float := 100
  leading : Float := 0
  font : Option String := none
  fontSize : Float := 0
  mode : TextMode := .fill
  rise : Float := 0
  knockout : Bool := true
  deriving DecidableEq

def TextState.withFont (state : TextState) (font : String) (size : Float) : TextState :=
  { state with font := some font, fontSize := size }

structure TextPosition (α : Type) where
  text : Transform α
  line : Transform α
  deriving DecidableEq

namespace TextPosition

variable {α : Type}

def start [OfNat α 0] [OfNat α 1] : TextPosition α :=
  ⟨Transform.identity, Transform.identity⟩

def place (m : Transform α) : TextPosition α :=
  ⟨m, m⟩

def nextLine [Add α] [Mul α] [OfNat α 0] [OfNat α 1] (position : TextPosition α)
    (x y : α) : TextPosition α :=
  place (position.line.after (Transform.shift x y))

end TextPosition

end ContentStream
