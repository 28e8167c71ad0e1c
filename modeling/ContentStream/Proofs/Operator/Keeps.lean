import ContentStream.Proofs.Interpreter.Runs

/-!
# Kinds of operators and what they keep

For each kind of operator, what its own functions have to satisfy so that its action
keeps a property of states.  An operator that checks or stands for other operations
keeps every property.
-/

namespace ContentStream.Operator

variable {p : PageState → Prop} {name : String} {shape : Shape}

theorem keeps_updating {update : Resources → PageState → Arguments → Except Error PageState}
    (h : ∀ {resources state args next}, p state → update resources state args = .ok next →
      p next) : (updating name shape update).Keeps p := by
  intro resources state operands hstate
  unfold updating
  dsimp only
  split
  next next hnext => exact h hstate hnext
  next => exact hstate

theorem keeps_painting {update : GraphicsState → Arguments → Except Error GraphicsState}
    (h : ∀ {state args graphics}, p state → update state.graphics args = .ok graphics →
      p (state.withGraphics graphics)) : (painting name shape update).Keeps p := by
  refine keeps_updating fun {resources state args next} hstate hnext => ?_
  obtain ⟨graphics, hgraphics, rfl⟩ := Result.map_eq_ok.1 hnext
  exact h hstate hgraphics

theorem keeps_numeric {set : GraphicsState → Float → GraphicsState}
    (h : ∀ {state} x, p state → p (state.withGraphics (set state.graphics x))) :
    (numeric name set).Keeps p := by
  refine keeps_painting fun {state args graphics} hstate hgraphics => ?_
  obtain ⟨x, -, rfl⟩ := Result.map_eq_ok.1 hgraphics
  exact h x hstate

theorem keeps_checking (check : Arguments → Except Error Unit) :
    (checking name shape check).Keeps p := by
  refine keeps_updating fun {resources state args next} hstate hnext => ?_
  obtain ⟨_, -, rfl⟩ := Result.map_eq_ok.1 hnext
  exact hstate

theorem keeps_acting {act : PageState → PageState × List Notice}
    (h : ∀ {state}, p state → p (act state).1) : (acting name act).Keeps p := by
  intro resources state operands hstate
  exact h hstate

theorem keeps_expanding (expansion : PageState → Arguments → Except Error (List Operation)) :
    (expanding name shape expansion).Keeps p := by
  intro resources state operands hstate
  unfold expanding
  dsimp only
  split
  next => trivial
  next => exact hstate

end ContentStream.Operator
