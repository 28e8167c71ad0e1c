import ContentStream.Proofs.Graphics.Color
import ContentStream.Proofs.Graphics.Parameters
import ContentStream.Proofs.Operator.Keeps

/-!
# Colors and color spaces agree

In every graphics state that a run reaches, current or saved, either color has the form
that its color space holds.  So the operators that set a color in the current space
succeed on exactly the operands that suit this space.
-/

namespace ContentStream

namespace GraphicsState

def colors (graphics : GraphicsState) : ColorSpace × Color × ColorSpace × Color :=
  (graphics.strokeSpace, graphics.strokeColor, graphics.fillSpace, graphics.fillColor)

/-- Either color has the form that its space holds. -/
def ColorsAgree (graphics : GraphicsState) : Prop :=
  graphics.strokeSpace.Holds graphics.strokeColor ∧ graphics.fillSpace.Holds graphics.fillColor

theorem ColorsAgree.congr {graphics next : GraphicsState} (h : graphics.ColorsAgree)
    (hcolors : next.colors = graphics.colors) : next.ColorsAgree := by
  simp only [colors, Prod.mk.injEq] at hcolors
  obtain ⟨hstrokeSpace, hstrokeColor, hfillSpace, hfillColor⟩ := hcolors
  unfold ColorsAgree
  rw [hstrokeSpace, hstrokeColor, hfillSpace, hfillColor]
  exact h

end GraphicsState

namespace PageState

/-- Colors agree with their spaces in the current graphics state and in all saved ones. -/
def ColorsAgree (state : PageState) : Prop :=
  ∀ graphics ∈ state.stack.current :: state.stack.saved, graphics.ColorsAgree

theorem ColorsAgree.graphics {state : PageState} (h : state.ColorsAgree) :
    state.graphics.ColorsAgree :=
  h _ List.mem_cons_self

theorem ColorsAgree.withGraphics {state : PageState} (h : state.ColorsAgree)
    {graphics : GraphicsState} (hgraphics : graphics.ColorsAgree) :
    (state.withGraphics graphics).ColorsAgree := by
  intro other hother
  rcases List.mem_cons.1 hother with rfl | hsaved
  · exact hgraphics
  · exact h other (List.mem_cons_of_mem _ hsaved)

theorem colorsAgree_initial : initial.ColorsAgree := by
  intro graphics hgraphics
  obtain rfl := List.mem_singleton.1 hgraphics
  exact ⟨⟨_, rfl⟩, ⟨_, rfl⟩⟩

end PageState

namespace Operator

open PageState (ColorsAgree)

private theorem keepsColors_painting {name : String} {shape : Shape}
    {update : GraphicsState → Arguments → Except Error GraphicsState}
    (h : ∀ {graphics args next}, update graphics args = .ok next →
      next.colors = graphics.colors) : (painting name shape update).Keeps ColorsAgree :=
  keeps_painting fun hstate hnext => hstate.withGraphics (hstate.graphics.congr (h hnext))

private theorem keepsColors_numeric {name : String}
    {set : GraphicsState → Float → GraphicsState}
    (h : ∀ graphics x, (set graphics x).colors = graphics.colors) :
    (numeric name set).Keeps ColorsAgree :=
  keeps_numeric fun x hstate => hstate.withGraphics (hstate.graphics.congr (h _ x))

private theorem colors_withParameter {graphics next : GraphicsState} {key : String}
    {value : Operand} (h : graphics.withParameter key value = .ok next) :
    next.colors = graphics.colors := by
  unfold GraphicsState.withParameter at h
  dsimp only at h
  split at h
  case h_16 =>
    obtain rfl := Except.ok.inj h
    rfl
  all_goals
    obtain ⟨x, -, rfl⟩ := Result.map_eq_ok.1 h
    rfl

private theorem keepsColors_parameters : parameters.Keeps ColorsAgree := by
  refine keeps_updating fun {resources state args next} hstate h => ?_
  obtain ⟨name, -, h⟩ := Result.bind_eq_ok.1 h
  obtain ⟨entries, -, h⟩ := Result.bind_eq_ok.1 h
  obtain ⟨graphics, hgraphics, h⟩ := Result.bind_eq_ok.1 h
  obtain rfl := Except.ok.inj h
  exact hstate.withGraphics (hstate.graphics.congr
    (GraphicsState.view_withEntries GraphicsState.colors colors_withParameter hgraphics))

private theorem keepsColors_save : save.Keeps ColorsAgree := by
  refine keeps_acting fun {state} hstate graphics hgraphics => ?_
  rcases List.mem_cons.1 hgraphics with rfl | hsaved
  · exact hstate.graphics
  · exact hstate graphics hsaved

private theorem keepsColors_restore : restore.Keeps ColorsAgree := by
  refine keeps_acting fun {state} hstate => ?_
  split
  next stack hstack =>
    unfold StateStack.restore? at hstack
    split at hstack
    next => simp at hstack
    next last saved hsaved =>
      obtain rfl := Option.some.inj hstack
      intro graphics hgraphics
      refine hstate graphics (List.mem_cons_of_mem _ ?_)
      rwa [hsaved]
  next => exact hstate

private theorem keepsColors_general : ∀ operator ∈ general, operator.Keeps ColorsAgree := by
  simp only [general, List.forall_mem_cons]
  refine ⟨keepsColors_numeric fun _ _ => rfl, keepsColors_painting fun h => ?_,
    keepsColors_painting fun h => ?_, keepsColors_numeric fun _ _ => rfl,
    keepsColors_painting fun h => ?_, keepsColors_painting fun h => ?_,
    keepsColors_numeric fun _ _ => rfl, keepsColors_parameters, keepsColors_save,
    keepsColors_restore, keepsColors_painting fun h => ?_, by simp⟩
  case refine_1 =>
    obtain ⟨value, -, h⟩ := Result.bind_eq_ok.1 h
    split at h
    · obtain rfl := Except.ok.inj h
      rfl
    · simp [Arguments.fail] at h
  case refine_2 =>
    obtain ⟨value, -, h⟩ := Result.bind_eq_ok.1 h
    split at h
    · obtain rfl := Except.ok.inj h
      rfl
    · simp [Arguments.fail] at h
  case refine_3 =>
    obtain ⟨items, -, h⟩ := Result.bind_eq_ok.1 h
    obtain ⟨lengths, -, h⟩ := Result.bind_eq_ok.1 h
    obtain ⟨phase, -, h⟩ := Result.bind_eq_ok.1 h
    obtain rfl := Except.ok.inj h
    rfl
  case refine_4 =>
    obtain ⟨intent, -, h⟩ := Result.bind_eq_ok.1 h
    obtain rfl := Except.ok.inj h
    rfl
  case refine_5 =>
    obtain ⟨m, -, rfl⟩ := Result.map_eq_ok.1 h
    rfl

private theorem keepsColors_segment (name : String) (coordinates : Nat) :
    (segment name coordinates).Keeps ColorsAgree := by
  refine keeps_updating fun hstate h => ?_
  obtain ⟨numbers, -, rfl⟩ := Result.map_eq_ok.1 h
  exact hstate

private theorem keepsColors_entering (name : String) (object : GraphicsObject) :
    (entering name object).Keeps ColorsAgree :=
  keeps_acting fun hstate => hstate

private theorem keepsColors_path : ∀ operator ∈ path, operator.Keeps ColorsAgree := by
  simp only [path, construction, List.forall_mem_append, List.forall_mem_cons]
  refine ⟨⟨⟨keepsColors_segment _ _, keepsColors_segment _ _, keepsColors_segment _ _,
    keepsColors_segment _ _, keepsColors_segment _ _, keeps_acting fun hstate => hstate,
    keepsColors_segment _ _, by simp⟩, ?_⟩, ?_⟩
  · intro operator hoperator
    obtain ⟨name, -, rfl⟩ := List.mem_map.1 hoperator
    exact keepsColors_entering name _
  · intro operator hoperator
    obtain ⟨name, -, rfl⟩ := List.mem_map.1 hoperator
    exact keepsColors_entering name _

private theorem keepsColors_text : ∀ operator ∈ text, operator.Keeps ColorsAgree := by
  simp only [text, List.forall_mem_cons]
  refine ⟨keeps_acting fun hstate => hstate, keepsColors_entering _ _,
    keepsColors_numeric fun _ _ => rfl, keepsColors_numeric fun _ _ => rfl,
    keepsColors_numeric fun _ _ => rfl, keepsColors_numeric fun _ _ => rfl,
    keepsColors_painting fun h => ?_, keepsColors_painting fun h => ?_,
    keepsColors_numeric fun _ _ => rfl, keeps_updating fun hstate h => ?_,
    keeps_expanding _, keeps_updating fun hstate h => ?_, keeps_expanding _, keeps_checking _,
    keeps_checking _, keeps_expanding _, keeps_expanding _, keeps_checking _, keeps_checking _,
    by simp⟩
  case refine_1 =>
    obtain ⟨name, -, h⟩ := Result.bind_eq_ok.1 h
    obtain ⟨size, -, h⟩ := Result.bind_eq_ok.1 h
    obtain rfl := Except.ok.inj h
    rfl
  case refine_2 =>
    obtain ⟨value, -, h⟩ := Result.bind_eq_ok.1 h
    split at h
    · obtain rfl := Except.ok.inj h
      rfl
    · simp [Arguments.fail] at h
  case refine_3 =>
    obtain ⟨x, -, h⟩ := Result.bind_eq_ok.1 h
    obtain ⟨y, -, h⟩ := Result.bind_eq_ok.1 h
    obtain rfl := Except.ok.inj h
    exact hstate
  case refine_4 =>
    obtain ⟨m, -, rfl⟩ := Result.map_eq_ok.1 h
    exact hstate

private theorem keepsColors_marking : ∀ operator ∈ marking, operator.Keeps ColorsAgree := by
  simp only [marking, List.forall_mem_cons]
  refine ⟨keeps_checking _, keeps_checking _, keeps_checking _, keeps_checking _,
    keeps_checking _, keeps_updating fun hstate h => ?_, keeps_updating fun hstate h => ?_,
    keeps_acting fun {state} hstate => ?_, keeps_acting fun hstate => hstate,
    keeps_acting fun hstate => hstate, by simp⟩
  case refine_1 =>
    obtain ⟨tag, -, rfl⟩ := Result.map_eq_ok.1 h
    exact hstate
  case refine_2 =>
    obtain ⟨tag, -, h⟩ := Result.bind_eq_ok.1 h
    obtain ⟨identifier, -, h⟩ := Result.bind_eq_ok.1 h
    obtain rfl := Except.ok.inj h
    exact hstate
  case refine_3 =>
    split
    · exact hstate
    · exact hstate

/-! ## Color operators -/

namespace Use

theorem colorsAgree_withColor {graphics : GraphicsState} (h : graphics.ColorsAgree) (use : Use)
    {color : Color} (hcolor : (use.space graphics).Holds color) :
    (use.withColor graphics color).ColorsAgree := by
  cases use with
  | stroke => exact ⟨hcolor, h.2⟩
  | fill => exact ⟨h.1, hcolor⟩

theorem colorsAgree_withSpace {graphics : GraphicsState} (h : graphics.ColorsAgree) (use : Use)
    (space : ColorSpace) : (use.withSpace graphics space).ColorsAgree := by
  cases use with
  | stroke => exact ⟨space.holds_initialColor, h.2⟩
  | fill => exact ⟨h.1, space.holds_initialColor⟩

theorem space_withSpace (use : Use) (graphics : GraphicsState) (space : ColorSpace) :
    use.space (use.withSpace graphics space) = space := by
  cases use <;> rfl

end Use

private theorem keepsColors_colorSpace (name : String) (use : Use) :
    (colorSpace name use).Keeps ColorsAgree := by
  refine keeps_updating fun {resources state args next} hstate h => ?_
  obtain ⟨name, -, h⟩ := Result.bind_eq_ok.1 h
  obtain ⟨space, -, h⟩ := Result.bind_eq_ok.1 h
  obtain rfl := Except.ok.inj h
  exact hstate.withGraphics (use.colorsAgree_withSpace hstate.graphics space)

private theorem keepsColors_color (name : String) (use : Use) :
    (color name use).Keeps ColorsAgree := by
  refine keeps_painting fun {state args graphics} hstate h => ?_
  obtain ⟨color, hcolor, rfl⟩ := Result.map_eq_ok.1 h
  exact hstate.withGraphics
    (use.colorsAgree_withColor hstate.graphics (ColorSpace.holds_color hcolor))

private theorem keepsColors_device (name : String) (shape : Shape) (use : Use)
    (space : ColorSpace) : (device name shape use space).Keeps ColorsAgree := by
  refine keeps_painting fun {state args graphics} hstate h => ?_
  obtain ⟨color, hcolor, rfl⟩ := Result.map_eq_ok.1 h
  obtain ⟨numbers, -, hcolor⟩ := Result.bind_eq_ok.1 hcolor
  have hspace := use.colorsAgree_withSpace hstate.graphics space
  refine hstate.withGraphics (use.colorsAgree_withColor hspace ?_)
  rw [use.space_withSpace]
  exact ColorSpace.holds_color hcolor

private theorem keepsColors_colors : ∀ operator ∈ colors, operator.Keeps ColorsAgree := by
  simp only [colors, List.forall_mem_cons]
  exact ⟨keepsColors_colorSpace _ _, keepsColors_colorSpace _ _, keepsColors_color _ _,
    keepsColors_color _ _, keepsColors_color _ _, keepsColors_color _ _,
    keepsColors_device _ _ _ _, keepsColors_device _ _ _ _, keepsColors_device _ _ _ _,
    keepsColors_device _ _ _ _, keepsColors_device _ _ _ _, keepsColors_device _ _ _ _, by simp⟩

theorem keepsColors_builtIn : ∀ operator ∈ builtIn, operator.Keeps ColorsAgree := by
  simp only [builtIn, List.forall_mem_append]
  exact ⟨⟨⟨⟨keepsColors_general, keepsColors_path⟩, keepsColors_text⟩, keepsColors_colors⟩,
    keepsColors_marking⟩

end Operator

namespace Environment

def colorSetters : List (String × Operator.Use) :=
  [("SC", .stroke), ("SCN", .stroke), ("sc", .fill), ("scn", .fill)]

private theorem builtIn?_colorSetter {name : String} {use : Operator.Use}
    (h : (name, use) ∈ colorSetters) :
    Operator.builtIn? name = some (Operator.color name use) := by
  simp only [colorSetters, List.mem_cons, Prod.mk.injEq, List.not_mem_nil, or_false] at h
  rcases h with ⟨rfl, rfl⟩ | ⟨rfl, rfl⟩ | ⟨rfl, rfl⟩ | ⟨rfl, rfl⟩ <;> rfl

theorem invoke_colorSetter {env : Environment} (hbare : env.overrides = []) {name : String}
    {use : Operator.Use} (h : (name, use) ∈ colorSetters) (state : PageState)
    (operands : List Operand) :
    ((env.invoke state ⟨name, operands⟩).failure = none ↔
      (use.space state.graphics).Suits operands) ∧
    ((env.invoke state ⟨name, operands⟩).failure ≠ none →
      (env.invoke state ⟨name, operands⟩).state = state) := by
  have hfound : env.operator? name = some (Operator.color name use) := by
    rw [operator?_eq_builtIn? hbare]
    exact builtIn?_colorSetter h
  have hsuits := (use.space state.graphics).exists_color_iff operands
  cases hcolor : (use.space state.graphics).color operands with
  | ok color =>
      have hreply : ((Operator.color name use).action env.resources state operands).effect? =
          some (state.withGraphics (use.withColor state.graphics color), none) := by
        simp [Operator.color, Operator.painting, Operator.updating, hcolor, Except.map,
          Reply.effect?]
      obtain ⟨-, hfailure⟩ := Prod.mk.inj (effect_invoke hfound hreply)
      exact ⟨⟨fun _ => hsuits.1 ⟨color, hcolor⟩, fun _ => hfailure⟩,
        fun hfailed => absurd hfailure hfailed⟩
  | error error =>
      have hreply : ((Operator.color name use).action env.resources state operands).effect? =
          some (state, some error) := by
        simp [Operator.color, Operator.painting, Operator.updating, hcolor, Except.map,
          Reply.effect?]
      obtain ⟨hstate, hfailure⟩ := Prod.mk.inj (effect_invoke hfound hreply)
      refine ⟨⟨fun hnone => ?_, fun hsuit => ?_⟩, fun _ => hstate⟩
      · rw [hfailure] at hnone
        contradiction
      · obtain ⟨color, hok⟩ := hsuits.2 hsuit
        rw [hcolor] at hok
        contradiction

/--
After any run from the initial state, in the current graphics state and in every saved
one, the colors have the form that their spaces hold.  With such a state as the current
one, setting a color succeeds on exactly the operands that suit the space, and changes
nothing where it fails.
-/
theorem run_colorsAgree (resources : Resources) (operations : List Operation) :
    let env : Environment := ⟨resources, []⟩
    let state := (env.run PageState.initial operations).state
    ∀ graphics ∈ state.stack.current :: state.stack.saved,
      graphics.ColorsAgree ∧
      ∀ name use, (name, use) ∈ colorSetters → ∀ operands,
        let outcome := env.invoke (state.withGraphics graphics) ⟨name, operands⟩
        (outcome.failure = none ↔ (use.space graphics).Suits operands) ∧
        (outcome.failure ≠ none → outcome.state = state.withGraphics graphics) := by
  intro env state graphics hgraphics
  have hagree : state.ColorsAgree :=
    run_keeps_of_builtIn rfl Operator.keepsColors_builtIn PageState.colorsAgree_initial operations
  refine ⟨hagree graphics hgraphics, fun name use hname operands => ?_⟩
  exact invoke_colorSetter rfl hname (state.withGraphics graphics) operands

theorem run_colorsAgree_pattern :
    let env : Environment := ⟨Resources.empty, []⟩
    let state := (env.run PageState.initial [⟨"cs", [.name "Pattern"]⟩, ⟨"q", []⟩]).state
    state.graphics.ColorsAgree ∧
      let outcome := env.invoke (state.withGraphics state.graphics) ⟨"scn", [.name "P1"]⟩
      (outcome.failure = none ↔ (Operator.Use.fill.space state.graphics).Suits [.name "P1"]) ∧
      (outcome.failure ≠ none → outcome.state = state.withGraphics state.graphics) := by
  intro env state
  have hcurrent : state.graphics ∈ state.stack.current :: state.stack.saved := List.mem_cons_self
  obtain ⟨hagree, hset⟩ := run_colorsAgree Resources.empty
    [⟨"cs", [.name "Pattern"]⟩, ⟨"q", []⟩] state.graphics hcurrent
  exact ⟨hagree, hset "scn" .fill (by decide) [.name "P1"]⟩

end Environment

end ContentStream
