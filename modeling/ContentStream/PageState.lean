import ContentStream.Graphics.State
import ContentStream.Operation

/-!
# The state of a page

What a stream of operations changes: the stack of graphics states, the graphics
object under construction, the text position, and how deep the stream is in marked
content and in compatibility sections.  Only the graphics states are saved and
restored.
-/

namespace ContentStream

inductive GraphicsObject where
  | none
  | path
  /-- A path that becomes a clipping path when it is painted. -/
  | clippingPath
  | text
  deriving DecidableEq, Repr

namespace GraphicsObject

def label : GraphicsObject → String
  | .none => "none"
  | .path => "path"
  | .clippingPath => "clipping_path"
  | .text => "text"

def all : List GraphicsObject := [.none, .path, .clippingPath, .text]

def ofLabel? (label : String) : Option GraphicsObject :=
  all.find? fun object => object.label = label

end GraphicsObject

structure MarkedContent where
  tag : String
  identifier : Option Int64
  deriving DecidableEq

structure PageState where
  stack : StateStack := {}
  object : GraphicsObject := .none
  text : TextPosition Float := TextPosition.start
  /-- Open sequences, the innermost first. -/
  markedContent : List MarkedContent := []
  compatibilityDepth : Nat := 0
  deriving DecidableEq

namespace PageState

def initial : PageState := {}

def graphics (state : PageState) : GraphicsState :=
  state.stack.current

def withGraphics (state : PageState) (graphics : GraphicsState) : PageState :=
  { state with stack.current := graphics }

def inPath (state : PageState) : Bool :=
  state.object = .path || state.object = .clippingPath

end PageState

end ContentStream
