import ContentStream.Proofs.Graphics.Parameters
import ContentStream.Proofs.Operation.Arguments
import ContentStream.Proofs.Operator.Keeps
import ContentStream.Proofs.Operator.Parts

/-!
# Changes of the built-in operators

A built-in operator makes one change, such as its name allows, or fails and changes
nothing, unless it stands for others.
-/

namespace ContentStream

namespace Operator

/-- The operator makes one change, such as operators of its name make, or fails. -/
def MakesChanges (operator : Operator) : Prop :=
  ∃ changes : Resources → Changes, (∀ resources, (changes resources).Fit operator.name) ∧
    ∀ resources state operands, (operator.action resources state operands).effect? =
      some (state.settle ((changes resources state.graphics operands).map (·.apply state)))

section Kinds

variable {name : String} {shape : Shape}

theorem effect?_updating
    (update : Resources → PageState → Arguments → Except Error PageState)
    (resources : Resources) (state : PageState) (operands : List Operand) :
    ((updating name shape update).action resources state operands).effect? =
      some (state.settle (update resources state ⟨name, operands⟩)) := by
  unfold updating
  dsimp only
  split
  next hupdate => rw [hupdate]; rfl
  next hupdate => rw [hupdate]; rfl

def painted (paint : GraphicsState → Except Error GraphicsState) (graphics : GraphicsState) :
    GraphicsState :=
  (paint graphics).toOption.getD graphics

private theorem painted_of_ok {paint : GraphicsState → Except Error GraphicsState}
    {graphics next : GraphicsState} (h : paint graphics = .ok next) :
    painted paint graphics = next := by
  rw [painted, h]
  rfl

private theorem leading_painted {paint : GraphicsState → Except Error GraphicsState}
    (h : ∀ {graphics next}, paint graphics = .ok next →
      next.text.leading = graphics.text.leading) (graphics : GraphicsState) :
    (painted paint graphics).text.leading = graphics.text.leading := by
  cases hpaint : paint graphics with
  | ok next => rw [painted_of_ok hpaint, h hpaint]
  | error error =>
      rw [painted, hpaint]
      rfl

private theorem makesChanges_paint
    {update : Resources → PageState → Arguments → Except Error PageState}
    (paint : Resources → GraphicsState → Arguments → Except Error GraphicsState)
    (hname : name ∈ paintNames)
    (hupdate : ∀ resources (state : PageState) args, update resources state args =
      (paint resources state.graphics args).map state.withGraphics)
    (hleading : ∀ {resources graphics args next}, paint resources graphics args = .ok next →
      next.text.leading = graphics.text.leading) :
    (updating name shape update).MakesChanges := by
  obtain ⟨hstack, hsaving, hset, hnames⟩ := frame_of_mem_paintNames name hname
  refine ⟨fun resources graphics operands => (paint resources graphics ⟨name, operands⟩).map
    fun _ => {
      stack := .update (painted fun graphics => paint resources graphics ⟨name, operands⟩) },
    fun resources => ⟨?_, fun hnot => absurd hname hnot⟩, ?_⟩
  · intro graphics operands change h
    obtain ⟨next, -, rfl⟩ := Result.map_eq_ok.1 h
    exact Change.fits_parts ⟨hsaving, fun hnot => absurd hstack hnot,
      fun hmem => absurd hmem hset, fun _ => leading_painted hleading⟩ (fun _ => rfl) hnames
  · intro resources state operands
    rw [effect?_updating, hupdate]
    dsimp only
    cases hpaint : paint resources state.graphics ⟨name, operands⟩ with
    | ok next =>
        have hnext : painted (fun graphics => paint resources graphics ⟨name, operands⟩)
            state.graphics = next := painted_of_ok hpaint
        rw [← hnext]
        rfl
    | error error => rfl

private theorem makesChanges_checked {α : Type}
    {update : Resources → PageState → Arguments → Except Error PageState}
    (check : Arguments → Except Error α) (change : α → Change)
    (hupdate : ∀ resources state args, update resources state args =
      (check args).map fun found => (change found).apply state)
    (hfits : ∀ {operands found}, check ⟨name, operands⟩ = .ok found →
      (change found).Fits name operands) : (updating name shape update).MakesChanges := by
  refine ⟨fun _ _ operands => (check ⟨name, operands⟩).map change,
    fun _ => Changes.fit_map hfits, fun resources state operands => ?_⟩
  rw [effect?_updating, hupdate]
  dsimp only
  cases check ⟨name, operands⟩ with
  | ok next => rfl
  | error error => rfl

private theorem makesChanges_acting {act : PageState → PageState × List Notice}
    (change : Change) (hact : ∀ state, (act state).1 = change.apply state)
    (hfits : ∀ operands, change.Fits name operands) : (acting name act).MakesChanges := by
  refine ⟨fun _ _ _ => .ok change, fun _ => Changes.fit_ok hfits,
    fun resources state operands => ?_⟩
  show some ((act state).1, none) = _
  rw [hact]
  rfl

private theorem makesChanges_painting
    {update : GraphicsState → Arguments → Except Error GraphicsState} (hname : name ∈ paintNames)
    (hleading : ∀ {graphics args next}, update graphics args = .ok next →
      next.text.leading = graphics.text.leading) :
    (painting name shape update).MakesChanges :=
  makesChanges_paint (fun _ => update) hname (fun _ _ _ => rfl) hleading

private theorem makesChanges_numeric {set : GraphicsState → Float → GraphicsState}
    (hname : name ∈ paintNames)
    (hleading : ∀ graphics x, (set graphics x).text.leading = graphics.text.leading) :
    (numeric name set).MakesChanges := by
  refine makesChanges_painting hname fun h => ?_
  obtain ⟨x, -, rfl⟩ := Result.map_eq_ok.1 h
  exact hleading _ x

private theorem fits_object {object : Option GraphicsObject} (h : ChangesObject name object)
    (operands : List Operand) : Change.Fits name operands { object := object } :=
  Change.fits_parts (StackChange.fits_id h.1) (fun _ => rfl) h.2

private theorem makesChanges_checking {check : Arguments → Except Error Unit}
    (hname : name ∈ checkNames) : (checking name shape check).MakesChanges :=
  makesChanges_checked check (fun _ => {}) (fun _ _ _ => rfl)
    (fun _ => fits_object (changesObject_of_mem_checkNames name hname) _)

private theorem makesChanges_segment {coordinates : Nat} (h : ChangesObject name (some .path)) :
    (segment name coordinates).MakesChanges :=
  makesChanges_checked (fun args => args.numbers coordinates)
    (fun _ => { object := some .path }) (fun _ _ _ => rfl) (fun _ => fits_object h _)

private theorem makesChanges_entering {object : GraphicsObject}
    (h : ChangesObject name (some object)) : (entering name object).MakesChanges :=
  makesChanges_acting { object := some object } (fun _ => rfl) (fits_object h)

theorem fits_text {object : Option GraphicsObject}
    {text : Float → TextPosition Float → TextPosition Float}
    (h : ChangesObject name object ∧ name ∈ movingNames) (operands : List Operand) :
    Change.Fits name operands { object := object, text := text } :=
  Change.fits_parts (StackChange.fits_id h.1.1) (fun hnot => absurd h.2 hnot) h.1.2

end Kinds

/-! ## Single operators -/

private theorem makesChanges_parameters : parameters.MakesChanges := by
  refine makesChanges_paint (fun resources graphics args => do
    let name ← args.name 0
    let entries ← resources.parameters name
    graphics.withEntries name entries) (by decide) (fun resources state args => ?_)
    fun {resources graphics args next} h => ?_
  · simp only [Result.map_bind]
    rfl
  · obtain ⟨name, -, h⟩ := Result.bind_eq_ok.1 h
    obtain ⟨entries, -, h⟩ := Result.bind_eq_ok.1 h
    exact GraphicsState.view_withEntries (·.text.leading) GraphicsState.leading_withParameter h

private theorem makesChanges_general : ∀ operator ∈ general, operator.MakesChanges := by
  simp only [general, List.forall_mem_cons]
  refine ⟨makesChanges_numeric (by decide) fun _ _ => rfl,
    makesChanges_painting (by decide) fun h => ?lineCap,
    makesChanges_painting (by decide) fun h => ?lineJoin,
    makesChanges_numeric (by decide) fun _ _ => rfl,
    makesChanges_painting (by decide) fun h => ?dash,
    makesChanges_painting (by decide) fun h => ?intent,
    makesChanges_numeric (by decide) fun _ _ => rfl, makesChanges_parameters,
    makesChanges_acting { stack := .save } (fun _ => rfl) (fun _ => ?save),
    makesChanges_acting { stack := .restore } (fun state => ?restored) (fun _ => ?restore),
    makesChanges_painting (by decide) fun h => ?transform, by simp⟩
  case lineCap =>
    obtain ⟨value, -, h⟩ := Result.bind_eq_ok.1 h
    split at h
    · obtain rfl := Except.ok.inj h
      rfl
    · simp [Arguments.fail] at h
  case lineJoin =>
    obtain ⟨value, -, h⟩ := Result.bind_eq_ok.1 h
    split at h
    · obtain rfl := Except.ok.inj h
      rfl
    · simp [Arguments.fail] at h
  case dash =>
    obtain ⟨items, -, h⟩ := Result.bind_eq_ok.1 h
    obtain ⟨lengths, -, h⟩ := Result.bind_eq_ok.1 h
    obtain ⟨phase, -, h⟩ := Result.bind_eq_ok.1 h
    obtain rfl := Except.ok.inj h
    rfl
  case intent =>
    obtain ⟨intent, -, h⟩ := Result.bind_eq_ok.1 h
    obtain rfl := Except.ok.inj h
    rfl
  case transform =>
    obtain ⟨m, -, rfl⟩ := Result.map_eq_ok.1 h
    rfl
  case save => exact Change.fits_parts rfl (fun _ => rfl) (by decide)
  case restore => exact Change.fits_parts rfl (fun _ => rfl) (by decide)
  case restored =>
    cases hstack : state.stack.restore? with
    | some stack => simp [Change.apply, StackChange.apply, hstack]
    | none => simp [Change.apply, StackChange.apply, hstack]

private theorem makesChanges_path : ∀ operator ∈ path, operator.MakesChanges := by
  have hpainting : ∀ name ∈ ["S", "s", "f", "F", "f*", "B", "B*", "b", "b*", "n"],
      ChangesObject name (some .none) := by
    decide
  have hclipping : ∀ name ∈ ["W", "W*"], ChangesObject name (some .clippingPath) := by
    decide
  simp only [path, construction, List.forall_mem_append, List.forall_mem_cons]
  refine ⟨⟨⟨makesChanges_segment (by decide), makesChanges_segment (by decide),
    makesChanges_segment (by decide), makesChanges_segment (by decide),
    makesChanges_segment (by decide), ?_, makesChanges_segment (by decide), by simp⟩, ?_⟩, ?_⟩
  · exact makesChanges_acting {} (fun _ => rfl)
      (fits_object (changesObject_of_mem_checkNames "h" (by decide)))
  · intro operator hoperator
    obtain ⟨name, hname, rfl⟩ := List.mem_map.1 hoperator
    exact makesChanges_entering (hpainting name hname)
  · intro operator hoperator
    obtain ⟨name, hname, rfl⟩ := List.mem_map.1 hoperator
    exact makesChanges_entering (hclipping name hname)

private theorem makesChanges_leading : leading.MakesChanges := by
  refine makesChanges_checked (fun args => args.number 0)
    (fun x => { stack := .update fun graphics => { graphics with text.leading := x } })
    (fun resources state args => ?_) fun _ => ?_
  · show ((args.number 0).map _).map state.withGraphics = _
    cases args.number 0 <;> rfl
  · exact Change.fits_parts
      ⟨by decide, fun hnot => absurd (by decide) hnot, fun _ => ⟨_, fun _ => rfl⟩,
        fun hnot => absurd (by decide) hnot⟩
      (fun _ => rfl) (by decide)

private theorem makesChanges_moveText : moveText.MakesChanges := by
  refine makesChanges_checked
    (fun args => do
      let x ← args.number 0
      let y ← args.number 1
      return (x, y))
    (fun offset => { text := fun _ position => position.nextLine offset.1 offset.2 })
    (fun resources state args => ?_) (fun _ => fits_text (by decide) _)
  simp only [Result.map_bind]
  rfl

private theorem makesChanges_textMatrix : textMatrix.MakesChanges :=
  makesChanges_checked transformArgument (fun m => { text := fun _ _ => TextPosition.place m })
    (fun _ _ _ => rfl) (fun _ => fits_text (by decide) _)

def shorthands : List Operator :=
  [moveTextWithLeading, nextLine, nextLineShowText, spacedNextLineShowText]

private theorem makesChanges_text :
    ∀ operator ∈ text, operator.MakesChanges ∨ operator ∈ shorthands := by
  simp only [text, List.forall_mem_cons]
  refine ⟨.inl ?beginText, .inl (makesChanges_entering (by decide)),
    .inl (makesChanges_numeric (by decide) fun _ _ => rfl),
    .inl (makesChanges_numeric (by decide) fun _ _ => rfl),
    .inl (makesChanges_numeric (by decide) fun _ _ => rfl), .inl makesChanges_leading,
    .inl (makesChanges_painting (by decide) fun h => ?font),
    .inl (makesChanges_painting (by decide) fun h => ?textMode),
    .inl (makesChanges_numeric (by decide) fun _ _ => rfl), .inl makesChanges_moveText,
    .inr (by simp [shorthands]), .inl makesChanges_textMatrix, .inr (by simp [shorthands]),
    .inl (makesChanges_checking (by decide)), .inl (makesChanges_checking (by decide)),
    .inr (by simp [shorthands]), .inr (by simp [shorthands]),
    .inl (makesChanges_checking (by decide)), .inl (makesChanges_checking (by decide)), by simp⟩
  case beginText =>
    exact makesChanges_acting { object := some .text, text := fun _ _ => TextPosition.start }
      (fun _ => rfl) (fits_text (by decide))
  case font =>
    obtain ⟨name, -, h⟩ := Result.bind_eq_ok.1 h
    obtain ⟨size, -, h⟩ := Result.bind_eq_ok.1 h
    obtain rfl := Except.ok.inj h
    rfl
  case textMode =>
    obtain ⟨value, -, h⟩ := Result.bind_eq_ok.1 h
    split at h
    · obtain rfl := Except.ok.inj h
      rfl
    · simp [Arguments.fail] at h

namespace Use

theorem leading_withSpace (use : Use) (graphics : GraphicsState) (space : ColorSpace) :
    (use.withSpace graphics space).text.leading = graphics.text.leading := by
  cases use <;> rfl

theorem leading_withColor (use : Use) (graphics : GraphicsState) (color : Color) :
    (use.withColor graphics color).text.leading = graphics.text.leading := by
  cases use <;> rfl

end Use

private theorem makesChanges_colorSpace {name : String} {use : Use} (hname : name ∈ paintNames) :
    (colorSpace name use).MakesChanges := by
  refine makesChanges_paint (fun resources graphics args => do
    let name ← args.name 0
    let space ← resources.colorSpace name
    return use.withSpace graphics space) hname (fun resources state args => ?_)
    fun {resources graphics args next} h => ?_
  · simp only [Result.map_bind]
    rfl
  · obtain ⟨name, -, h⟩ := Result.bind_eq_ok.1 h
    obtain ⟨space, -, h⟩ := Result.bind_eq_ok.1 h
    obtain rfl := Except.ok.inj h
    exact use.leading_withSpace graphics space

private theorem makesChanges_color {name : String} {use : Use} (hname : name ∈ paintNames) :
    (color name use).MakesChanges := by
  refine makesChanges_painting hname fun h => ?_
  obtain ⟨color, -, rfl⟩ := Result.map_eq_ok.1 h
  exact use.leading_withColor _ color

private theorem makesChanges_device {name : String} {shape : Shape} {use : Use}
    {space : ColorSpace} (hname : name ∈ paintNames) :
    (device name shape use space).MakesChanges := by
  refine makesChanges_painting hname fun h => ?_
  obtain ⟨color, -, rfl⟩ := Result.map_eq_ok.1 h
  rw [use.leading_withColor, use.leading_withSpace]

private theorem makesChanges_colors : ∀ operator ∈ colors, operator.MakesChanges := by
  simp only [colors, List.forall_mem_cons]
  exact ⟨makesChanges_colorSpace (by decide), makesChanges_colorSpace (by decide),
    makesChanges_color (by decide), makesChanges_color (by decide),
    makesChanges_color (by decide), makesChanges_color (by decide),
    makesChanges_device (by decide), makesChanges_device (by decide),
    makesChanges_device (by decide), makesChanges_device (by decide),
    makesChanges_device (by decide), makesChanges_device (by decide), by simp⟩

private theorem makesChanges_beginMarkedContent : beginMarkedContent.MakesChanges := by
  refine makesChanges_checked (fun args => args.name 0)
    (fun tag => { sequences := fun sequences => ⟨tag, none⟩ :: sequences })
    (fun _ _ _ => rfl) (fun {operands tag} h => ?_)
  have htag : (operands[0]?).bind Operand.name? = some tag := Arguments.get_eq_ok.1 h
  exact {
    stack := StackChange.fits_id (by decide)
    object := rfl
    text := fun _ => rfl
    sequences := fun sequences => by
      simp [MarkedContent.openAfter, MarkedContent.ofOperands, htag]
    depth := fun _ => rfl }

private theorem identifier_ofOperands {operands : List Operand} {operator : String}
    {identifier : Option Int64} (h : identifierArgument ⟨operator, operands⟩ = .ok identifier) :
    (MarkedContent.ofOperands operands).identifier = identifier := by
  unfold identifierArgument at h
  have hfound := Arguments.get_eq_ok.1 h
  unfold MarkedContent.ofOperands
  dsimp only at hfound ⊢
  obtain ⟨value, hvalue, hview⟩ := Option.bind_eq_some_iff.1 hfound
  rw [hvalue]
  cases value <;> simp_all [Operand.dictionary?]

private theorem makesChanges_beginMarkedContentWithProperties :
    beginMarkedContentWithProperties.MakesChanges := by
  refine makesChanges_checked
    (fun args => do
      let tag ← args.name 0
      let identifier ← identifierArgument args
      return (⟨tag, identifier⟩ : MarkedContent))
    (fun sequence => { sequences := fun sequences => sequence :: sequences })
    (fun resources state args => ?_) (fun {operands sequence} h => ?_)
  · simp only [Result.map_bind]
    rfl
  · obtain ⟨tag, htag, h⟩ := Result.bind_eq_ok.1 h
    obtain ⟨identifier, hidentifier, h⟩ := Result.bind_eq_ok.1 h
    obtain rfl := Except.ok.inj h
    have hname : (operands[0]?).bind Operand.name? = some tag := Arguments.get_eq_ok.1 htag
    have hsequence : MarkedContent.ofOperands operands = ⟨tag, identifier⟩ := by
      rw [← identifier_ofOperands hidentifier]
      simp [MarkedContent.ofOperands, hname]
    exact {
      stack := StackChange.fits_id (by decide)
      object := rfl
      text := fun _ => rfl
      sequences := fun sequences => by simp [MarkedContent.openAfter, hsequence]
      depth := fun _ => rfl }

private theorem makesChanges_marking : ∀ operator ∈ marking, operator.MakesChanges := by
  simp only [marking, List.forall_mem_cons]
  refine ⟨makesChanges_checking (by decide), makesChanges_checking (by decide),
    makesChanges_checking (by decide), makesChanges_checking (by decide),
    makesChanges_checking (by decide), makesChanges_beginMarkedContent,
    makesChanges_beginMarkedContentWithProperties,
    makesChanges_acting { sequences := List.tail } (fun state => ?closed) (fun _ => ?close),
    makesChanges_acting { depth := (· + 1) } (fun _ => rfl) (fun _ => ?enter),
    makesChanges_acting { depth := (· - 1) } (fun _ => rfl) (fun _ => ?leave), by simp⟩
  case closed =>
    obtain ⟨stack, object, text, sequences, depth⟩ := state
    cases sequences <;> rfl
  case close =>
    exact ⟨StackChange.fits_id (by decide), rfl, fun _ => rfl, fun _ => rfl, fun _ => rfl⟩
  case enter =>
    exact ⟨StackChange.fits_id (by decide), rfl, fun _ => rfl, fun _ => rfl, fun _ => rfl⟩
  case leave =>
    exact ⟨StackChange.fits_id (by decide), rfl, fun _ => rfl, fun _ => rfl, fun _ => rfl⟩

theorem makesChanges_builtIn :
    ∀ operator ∈ builtIn, operator.MakesChanges ∨ operator ∈ shorthands := by
  simp only [builtIn, List.forall_mem_append]
  exact ⟨⟨⟨⟨fun operator h => .inl (makesChanges_general operator h),
    fun operator h => .inl (makesChanges_path operator h)⟩, makesChanges_text⟩,
    fun operator h => .inl (makesChanges_colors operator h)⟩,
    fun operator h => .inl (makesChanges_marking operator h)⟩

theorem keeps_true_builtIn : ∀ operator ∈ builtIn, operator.Keeps fun _ => True := by
  intro operator hoperator resources state operands _
  rcases makesChanges_builtIn operator hoperator with ⟨changes, -, hreply⟩ | hshorthand
  · exact Reply.leaves_of_effect? (hreply resources state operands) trivial
  · simp only [shorthands, List.mem_cons, List.not_mem_nil, or_false] at hshorthand
    rcases hshorthand with rfl | rfl | rfl | rfl <;>
      exact keeps_expanding _ resources state operands trivial

end Operator

end ContentStream
