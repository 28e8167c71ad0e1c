import ContentStream.Proofs.Graphics.Mirror
import ContentStream.Proofs.Interpreter.Simulation
import ContentStream.Proofs.Operation.Arguments

/-!
# Stroking and filling are mirror images

Every operator has a mirror: that of a color operator is the one of the same kind for
the other use, and all others are their own.  In the mirror of a state, with the mirror
of the resources, the mirror of an operator does what the operator does, seen in the
mirror.  So the run of a mirrored stream is the mirror of the run.
-/

namespace ContentStream

namespace StateStack

def mirror (stack : StateStack) : StateStack :=
  ⟨stack.current.mirror, stack.saved.map GraphicsState.mirror⟩

end StateStack

namespace PageState

def mirror (state : PageState) : PageState :=
  { state with stack := state.stack.mirror }

end PageState

namespace Operator

def mirrorName (name : String) : String :=
  match name with
  | "CS" => "cs"
  | "cs" => "CS"
  | "SC" => "sc"
  | "sc" => "SC"
  | "SCN" => "scn"
  | "scn" => "SCN"
  | "G" => "g"
  | "g" => "G"
  | "RG" => "rg"
  | "rg" => "RG"
  | "K" => "k"
  | "k" => "K"
  | _ => name

end Operator

def Operation.mirror (operation : Operation) : Operation :=
  ⟨Operator.mirrorName operation.name, operation.operands⟩

namespace Operator

/-- What `other` does is the mirror of what the operator does. -/
def Mirrors (operator other : Operator) : Prop :=
  ∀ resources state operands, (operator.action resources state operands).Agrees
    (fun state state' => state' = state.mirror)
    (fun operation operation' => operation' = operation.mirror)
    (other.action resources.mirror state.mirror operands)

section Kinds

variable {name name' : String} {shape shape' : Shape}

theorem mirrors_updating
    {update update' : Resources → PageState → Arguments → Except Error PageState}
    (h : ∀ resources state operands,
      (update' resources.mirror state.mirror ⟨name', operands⟩).toOption =
        (update resources state ⟨name, operands⟩).toOption.map PageState.mirror) :
    (updating name shape update).Mirrors (updating name' shape' update') := by
  intro resources state operands
  have hupdate := h resources state operands
  unfold updating
  dsimp only
  cases hfirst : update resources state ⟨name, operands⟩ with
  | ok next =>
      cases hsecond : update' resources.mirror state.mirror ⟨name', operands⟩ with
      | ok next' =>
          rw [hfirst, hsecond] at hupdate
          exact .done (Option.some.inj hupdate)
      | error error => simp [hfirst, hsecond, Except.toOption] at hupdate
  | error error =>
      cases hsecond : update' resources.mirror state.mirror ⟨name', operands⟩ with
      | ok next' => simp [hfirst, hsecond, Except.toOption] at hupdate
      | error error' => exact .failed rfl

theorem mirrors_paint
    {update update' : Resources → PageState → Arguments → Except Error PageState}
    (paint paint' : Resources → GraphicsState → Arguments → Except Error GraphicsState)
    (hupdate : ∀ resources (state : PageState) args, update resources state args =
      (paint resources state.graphics args).map state.withGraphics)
    (hupdate' : ∀ resources (state : PageState) args, update' resources state args =
      (paint' resources state.graphics args).map state.withGraphics)
    (h : ∀ resources graphics operands,
      (paint' resources.mirror graphics.mirror ⟨name', operands⟩).toOption =
        (paint resources graphics ⟨name, operands⟩).toOption.map GraphicsState.mirror) :
    (updating name shape update).Mirrors (updating name' shape' update') := by
  refine mirrors_updating fun resources state operands => ?_
  have hpaint := h resources state.graphics operands
  rw [hupdate, hupdate', Result.toOption_map, Result.toOption_map]
  show ((paint' resources.mirror state.graphics.mirror ⟨name', operands⟩).toOption).map _ = _
  rw [hpaint, Option.map_map, Option.map_map]
  rfl

theorem mirrors_painting {update : GraphicsState → Arguments → Except Error GraphicsState}
    (h : ∀ graphics args, update graphics.mirror args =
      (update graphics args).map GraphicsState.mirror) :
    (painting name shape update).Mirrors (painting name shape update) := by
  refine mirrors_paint (fun _ => update) (fun _ => update) (fun _ _ _ => rfl) (fun _ _ _ => rfl)
    fun resources graphics operands => ?_
  rw [h, Result.toOption_map]

theorem mirrors_numeric {set : GraphicsState → Float → GraphicsState}
    (h : ∀ graphics x, set graphics.mirror x = (set graphics x).mirror) :
    (numeric name set).Mirrors (numeric name set) := by
  refine mirrors_painting fun graphics args => ?_
  rw [Result.map_map]
  congr 1
  funext x
  exact h graphics x

theorem mirrors_elsewhere {α : Type}
    {update : Resources → PageState → Arguments → Except Error PageState}
    (check : Arguments → Except Error α) (change : α → PageState → PageState)
    (hupdate : ∀ resources state args, update resources state args =
      (check args).map fun found => change found state)
    (hchange : ∀ found state, change found state.mirror = (change found state).mirror) :
    (updating name shape update).Mirrors (updating name shape update) := by
  refine mirrors_updating fun resources state operands => ?_
  rw [hupdate, hupdate, Result.toOption_map, Result.toOption_map, Option.map_map]
  congr 1
  funext found
  exact hchange found state

theorem mirrors_checking (check : Arguments → Except Error Unit) :
    (checking name shape check).Mirrors (checking name shape check) :=
  mirrors_elsewhere check (fun _ state => state) (fun _ _ _ => rfl) fun _ _ => rfl

theorem mirrors_acting {act : PageState → PageState × List Notice}
    (h : ∀ state, (act state.mirror).1 = (act state).1.mirror) :
    (acting name act).Mirrors (acting name act) := by
  intro resources state operands
  exact .done (h state)

theorem mirrors_expanding {expansion : PageState → Arguments → Except Error (List Operation)}
    (h : ∀ state args, expansion state.mirror args = expansion state args)
    (hself : ∀ {state args operations}, expansion state args = .ok operations →
      ∀ operation ∈ operations, operation.mirror = operation) :
    (expanding name shape expansion).Mirrors (expanding name shape expansion) := by
  intro resources state operands
  unfold expanding
  dsimp only
  rw [h]
  cases hexpansion : expansion state ⟨name, operands⟩ with
  | error error => exact .failed rfl
  | ok operations =>
      refine .expands (List.forall₂_same.2 fun operation hoperation => ?_)
      exact (hself hexpansion operation hoperation).symm

end Kinds

/-! ## Single operators -/

def HasMirror (operator : Operator) : Prop :=
  ∃ other, builtIn? (mirrorName operator.name) = some other ∧ operator.Mirrors other

private theorem mirrors_parameters : parameters.Mirrors parameters := by
  let paint (resources : Resources) (graphics : GraphicsState) (args : Arguments) := do
    let name ← args.name 0
    let entries ← resources.parameters name
    graphics.withEntries name entries
  have hupdate : ∀ resources (state : PageState) args, (do
      let name ← args.name 0
      let entries ← resources.parameters name
      let graphics ← state.graphics.withEntries name entries
      return state.withGraphics graphics) =
      (paint resources state.graphics args).map state.withGraphics := by
    intro resources state args
    simp only [paint, Result.map_bind]
    rfl
  refine mirrors_paint paint paint hupdate hupdate fun resources graphics operands => ?_
  simp only [paint, Result.toOption_bind]
  cases (Arguments.name ⟨"gs", operands⟩ 0).toOption with
  | none => rfl
  | some name =>
      simp only [Option.bind_some, Resources.parameters_mirror, Result.toOption_map]
      cases (resources.parameters name).toOption with
      | none => rfl
      | some entries => exact GraphicsState.withEntries_mirror name graphics entries

private theorem hasMirror_general : ∀ operator ∈ general, operator.HasMirror := by
  simp only [general, List.forall_mem_cons]
  refine ⟨⟨_, rfl, mirrors_numeric fun _ _ => rfl⟩,
    ⟨_, rfl, mirrors_painting fun graphics args => ?lineCap⟩,
    ⟨_, rfl, mirrors_painting fun graphics args => ?lineJoin⟩,
    ⟨_, rfl, mirrors_numeric fun _ _ => rfl⟩,
    ⟨_, rfl, mirrors_painting fun graphics args => ?dash⟩,
    ⟨_, rfl, mirrors_painting fun graphics args => ?intent⟩,
    ⟨_, rfl, mirrors_numeric fun _ _ => rfl⟩, ⟨_, rfl, mirrors_parameters⟩,
    ⟨_, rfl, mirrors_acting fun _ => rfl⟩, ⟨_, rfl, mirrors_acting fun state => ?restore⟩,
    ⟨_, rfl, mirrors_painting fun graphics args => ?transform⟩, by simp⟩
  case lineCap =>
    rw [Result.map_bind]
    congr 1
    funext value
    split <;> rfl
  case lineJoin =>
    rw [Result.map_bind]
    congr 1
    funext value
    split <;> rfl
  case dash =>
    simp only [Result.map_bind]
    rfl
  case intent =>
    simp only [Result.map_bind]
    rfl
  case restore =>
    obtain ⟨⟨current, saved⟩, object, text, sequences, depth⟩ := state
    cases saved <;> rfl
  case transform =>
    rw [Result.map_map]
    rfl

private theorem mirrors_segment (name : String) (coordinates : Nat) :
    (segment name coordinates).Mirrors (segment name coordinates) :=
  mirrors_elsewhere (fun args => args.numbers coordinates)
    (fun _ state => { state with object := .path }) (fun _ _ _ => rfl) fun _ _ => rfl

private theorem mirrors_entering (name : String) (object : GraphicsObject) :
    (entering name object).Mirrors (entering name object) :=
  mirrors_acting fun _ => rfl

private theorem hasMirror_path : ∀ operator ∈ path, operator.HasMirror := by
  simp only [path, construction, pathPainting, clipping, List.map_cons, List.map_nil,
    List.forall_mem_append, List.forall_mem_cons]
  refine ⟨⟨⟨⟨_, rfl, mirrors_segment _ _⟩, ⟨_, rfl, mirrors_segment _ _⟩,
    ⟨_, rfl, mirrors_segment _ _⟩, ⟨_, rfl, mirrors_segment _ _⟩,
    ⟨_, rfl, mirrors_segment _ _⟩, ⟨_, rfl, mirrors_acting fun _ => rfl⟩,
    ⟨_, rfl, mirrors_segment _ _⟩, by simp⟩, ?painting⟩, ?clipping⟩
  case painting =>
    exact ⟨⟨_, rfl, mirrors_entering _ _⟩, ⟨_, rfl, mirrors_entering _ _⟩,
      ⟨_, rfl, mirrors_entering _ _⟩, ⟨_, rfl, mirrors_entering _ _⟩,
      ⟨_, rfl, mirrors_entering _ _⟩, ⟨_, rfl, mirrors_entering _ _⟩,
      ⟨_, rfl, mirrors_entering _ _⟩, ⟨_, rfl, mirrors_entering _ _⟩,
      ⟨_, rfl, mirrors_entering _ _⟩, ⟨_, rfl, mirrors_entering _ _⟩, by simp⟩
  case clipping =>
    exact ⟨⟨_, rfl, mirrors_entering _ _⟩, ⟨_, rfl, mirrors_entering _ _⟩, by simp⟩

private theorem mirrors_moveText : moveText.Mirrors moveText := by
  refine mirrors_elsewhere
    (fun args => do
      let x ← args.number 0
      let y ← args.number 1
      return (x, y))
    (fun offset state => { state with text := state.text.nextLine offset.1 offset.2 })
    (fun resources state args => ?_) fun _ _ => rfl
  simp only [Result.map_bind]
  rfl

private theorem mirrors_textMatrix : textMatrix.Mirrors textMatrix :=
  mirrors_elsewhere transformArgument (fun m state => { state with text := TextPosition.place m })
    (fun _ _ _ => rfl) fun _ _ => rfl

private theorem mirrors_moveTextWithLeading :
    moveTextWithLeading.Mirrors moveTextWithLeading := by
  refine mirrors_expanding (fun _ _ => rfl) fun h => ?_
  obtain ⟨x, -, h⟩ := Result.bind_eq_ok.1 h
  obtain ⟨y, -, h⟩ := Result.bind_eq_ok.1 h
  obtain rfl := Except.ok.inj h
  simp only [List.forall_mem_cons]
  exact ⟨rfl, rfl, by simp⟩

private theorem mirrors_nextLine : nextLine.Mirrors nextLine := by
  refine mirrors_expanding (fun _ _ => rfl) fun h => ?_
  obtain rfl := Except.ok.inj h
  simp only [List.forall_mem_cons]
  exact ⟨rfl, by simp⟩

private theorem mirrors_nextLineShowText : nextLineShowText.Mirrors nextLineShowText := by
  refine mirrors_expanding (fun _ _ => rfl) fun h => ?_
  obtain ⟨bytes, -, h⟩ := Result.bind_eq_ok.1 h
  obtain rfl := Except.ok.inj h
  simp only [List.forall_mem_cons]
  exact ⟨rfl, rfl, by simp⟩

private theorem mirrors_spacedNextLineShowText :
    spacedNextLineShowText.Mirrors spacedNextLineShowText := by
  refine mirrors_expanding (fun _ _ => rfl) fun h => ?_
  obtain ⟨word, -, h⟩ := Result.bind_eq_ok.1 h
  obtain ⟨character, -, h⟩ := Result.bind_eq_ok.1 h
  obtain ⟨bytes, -, h⟩ := Result.bind_eq_ok.1 h
  obtain rfl := Except.ok.inj h
  simp only [List.forall_mem_cons]
  exact ⟨rfl, rfl, rfl, by simp⟩

private theorem hasMirror_text : ∀ operator ∈ text, operator.HasMirror := by
  simp only [text, List.forall_mem_cons]
  refine ⟨⟨_, rfl, mirrors_acting fun _ => rfl⟩, ⟨_, rfl, mirrors_entering _ _⟩,
    ⟨_, rfl, mirrors_numeric fun _ _ => rfl⟩, ⟨_, rfl, mirrors_numeric fun _ _ => rfl⟩,
    ⟨_, rfl, mirrors_numeric fun _ _ => rfl⟩, ⟨_, rfl, mirrors_numeric fun _ _ => rfl⟩,
    ⟨_, rfl, mirrors_painting fun graphics args => ?font⟩,
    ⟨_, rfl, mirrors_painting fun graphics args => ?textMode⟩,
    ⟨_, rfl, mirrors_numeric fun _ _ => rfl⟩, ⟨_, rfl, mirrors_moveText⟩,
    ⟨_, rfl, mirrors_moveTextWithLeading⟩, ⟨_, rfl, mirrors_textMatrix⟩,
    ⟨_, rfl, mirrors_nextLine⟩, ⟨_, rfl, mirrors_checking _⟩, ⟨_, rfl, mirrors_checking _⟩,
    ⟨_, rfl, mirrors_nextLineShowText⟩, ⟨_, rfl, mirrors_spacedNextLineShowText⟩,
    ⟨_, rfl, mirrors_checking _⟩, ⟨_, rfl, mirrors_checking _⟩, by simp⟩
  case font =>
    simp only [Result.map_bind]
    rfl
  case textMode =>
    rw [Result.map_bind]
    congr 1
    funext value
    split <;> rfl

namespace Use

def mirror : Use → Use
  | .stroke => .fill
  | .fill => .stroke

theorem space_mirror (use : Use) (graphics : GraphicsState) :
    use.mirror.space graphics.mirror = use.space graphics := by
  cases use <;> rfl

theorem withSpace_mirror (use : Use) (graphics : GraphicsState) (space : ColorSpace) :
    use.mirror.withSpace graphics.mirror space = (use.withSpace graphics space).mirror := by
  cases use <;> rfl

theorem withColor_mirror (use : Use) (graphics : GraphicsState) (color : Color) :
    use.mirror.withColor graphics.mirror color = (use.withColor graphics color).mirror := by
  cases use <;> rfl

end Use

section Colors

variable (name name' : String)

private theorem mirrors_colorSpace (use : Use) :
    (colorSpace name use).Mirrors (colorSpace name' use.mirror) := by
  let paint (use : Use) (resources : Resources) (graphics : GraphicsState)
      (args : Arguments) : Except Error GraphicsState := do
    let name ← args.name 0
    let space ← resources.colorSpace name
    return use.withSpace graphics space
  have hupdate : ∀ (use : Use) resources (state : PageState) args, (do
      let name ← args.name 0
      let space ← resources.colorSpace name
      return state.withGraphics (use.withSpace state.graphics space)) =
      (paint use resources state.graphics args).map state.withGraphics := by
    intro use resources state args
    simp only [paint, Result.map_bind]
    rfl
  refine mirrors_paint (paint use) (paint use.mirror) (hupdate use) (hupdate use.mirror)
    fun resources graphics operands => ?_
  simp only [paint, Result.toOption_bind, Arguments.name, Arguments.toOption_get,
    Resources.colorSpace_mirror, use.withSpace_mirror]
  cases (operands[0]?).bind Operand.name? with
  | none => rfl
  | some name =>
      simp only [Option.bind_some]
      cases resources.colorSpace name <;> rfl

private theorem mirrors_color (use : Use) :
    (color name use).Mirrors (color name' use.mirror) := by
  refine mirrors_paint (fun _ graphics args =>
      ((use.space graphics).color args.operands).map (use.withColor graphics))
    (fun _ graphics args =>
      ((use.mirror.space graphics).color args.operands).map (use.mirror.withColor graphics))
    (fun _ _ _ => rfl) (fun _ _ _ => rfl) fun resources graphics operands => ?_
  dsimp only
  rw [use.space_mirror, Result.toOption_map, Result.toOption_map, Option.map_map]
  congr 1
  funext color
  exact use.withColor_mirror graphics color

private theorem toOption_deviceColor (space : ColorSpace) (operands : List Operand) :
    (deviceColor space ⟨name', operands⟩).toOption =
      (deviceColor space ⟨name, operands⟩).toOption := by
  simp only [deviceColor, Result.toOption_bind, Arguments.toOption_numbers name name']

private theorem mirrors_device (shape : Shape) (use : Use) (space : ColorSpace) :
    (device name shape use space).Mirrors (device name' shape use.mirror space) := by
  let paint (use : Use) (_ : Resources) (graphics : GraphicsState) (args : Arguments) :=
    (deviceColor space args).map fun color => use.withColor (use.withSpace graphics space) color
  refine mirrors_paint (paint use) (paint use.mirror) (fun _ _ _ => rfl) (fun _ _ _ => rfl)
    fun resources graphics operands => ?_
  rw [Result.toOption_map, Result.toOption_map, Option.map_map, toOption_deviceColor name name']
  congr 1
  funext color
  show use.mirror.withColor (use.mirror.withSpace graphics.mirror space) color = _
  rw [use.withSpace_mirror, use.withColor_mirror]
  rfl

end Colors

private theorem hasMirror_colors : ∀ operator ∈ colors, operator.HasMirror := by
  simp only [colors, List.forall_mem_cons]
  exact ⟨⟨_, rfl, mirrors_colorSpace _ _ .stroke⟩, ⟨_, rfl, mirrors_colorSpace _ _ .fill⟩,
    ⟨_, rfl, mirrors_color _ _ .stroke⟩, ⟨_, rfl, mirrors_color _ _ .stroke⟩,
    ⟨_, rfl, mirrors_color _ _ .fill⟩, ⟨_, rfl, mirrors_color _ _ .fill⟩,
    ⟨_, rfl, mirrors_device _ _ _ .stroke _⟩, ⟨_, rfl, mirrors_device _ _ _ .fill _⟩,
    ⟨_, rfl, mirrors_device _ _ _ .stroke _⟩, ⟨_, rfl, mirrors_device _ _ _ .fill _⟩,
    ⟨_, rfl, mirrors_device _ _ _ .stroke _⟩, ⟨_, rfl, mirrors_device _ _ _ .fill _⟩, by simp⟩

private theorem mirrors_beginMarkedContentWithProperties :
    beginMarkedContentWithProperties.Mirrors beginMarkedContentWithProperties := by
  refine mirrors_elsewhere
    (fun args => do
      let tag ← args.name 0
      let identifier ← identifierArgument args
      return (tag, identifier))
    (fun found state => openSequence state found.1 found.2)
    (fun resources state args => ?_) fun _ _ => rfl
  simp only [Result.map_bind]
  rfl

private theorem hasMirror_marking : ∀ operator ∈ marking, operator.HasMirror := by
  simp only [marking, List.forall_mem_cons]
  refine ⟨⟨_, rfl, mirrors_checking _⟩, ⟨_, rfl, mirrors_checking _⟩,
    ⟨_, rfl, mirrors_checking _⟩, ⟨_, rfl, mirrors_checking _⟩, ⟨_, rfl, mirrors_checking _⟩,
    ⟨_, rfl, mirrors_elsewhere (fun args => args.name 0)
      (fun tag state => openSequence state tag none) (fun _ _ _ => rfl) fun _ _ => rfl⟩,
    ⟨_, rfl, mirrors_beginMarkedContentWithProperties⟩,
    ⟨_, rfl, mirrors_acting fun state => ?close⟩, ⟨_, rfl, mirrors_acting fun _ => rfl⟩,
    ⟨_, rfl, mirrors_acting fun _ => rfl⟩, by simp⟩
  obtain ⟨stack, object, text, sequences, depth⟩ := state
  cases sequences <;> rfl

theorem hasMirror_builtIn : ∀ operator ∈ builtIn, operator.HasMirror := by
  simp only [builtIn, List.forall_mem_append]
  exact ⟨⟨⟨⟨hasMirror_general, hasMirror_path⟩, hasMirror_text⟩, hasMirror_colors⟩,
    hasMirror_marking⟩

theorem mirrorName_of_builtIn? {name : String} (h : builtIn? name = none) :
    mirrorName name = name := by
  unfold mirrorName
  split
  case h_13 => rfl
  all_goals exact absurd h (by decide)

end Operator

/-! ## Runs -/

namespace Environment

theorem simulates_mirror (resources : Resources) : Simulates ⟨resources, []⟩
    ⟨resources.mirror, []⟩ (fun state state' => state' = state.mirror)
    (fun operation operation' => operation' = operation.mirror) := by
  rintro operation _ state _ rfl rfl
  show Option.Rel _ (Operator.builtIn? operation.name)
    (Operator.builtIn? (Operator.mirrorName operation.name))
  cases hfound : Operator.builtIn? operation.name with
  -- All color operators are built in, so an unknown name is its own mirror.
  | none =>
      rw [Operator.mirrorName_of_builtIn? hfound, hfound]
      exact .none
  | some operator =>
      have hname : operator.name = operation.name := by simpa using List.find?_some hfound
      obtain ⟨other, hother, hmirrors⟩ :=
        Operator.hasMirror_builtIn operator (List.mem_of_find?_eq_some hfound)
      rw [← hname, hother]
      exact .some (hmirrors resources state operation.operands)

/--
The mirror of a stream, with the mirror of the resources and from the mirror of a state,
succeeds exactly if the stream does, and otherwise fails at the same operation; what it
leaves is the mirror of what the stream leaves.
-/
theorem run_mirror (resources : Resources) (state : PageState) (operations : List Operation) :
    let original : Environment := ⟨resources, []⟩
    let mirrored : Environment := ⟨resources.mirror, []⟩
    let others := operations.map Operation.mirror
    ((mirrored.run state.mirror others).failure = none ↔
        (original.run state operations).failure = none) ∧
      mirrored.failedAt? state.mirror others = original.failedAt? state operations ∧
      (mirrored.run state.mirror others).state = (original.run state operations).state.mirror := by
  have hoperations : List.Forall₂ (fun operation operation' => operation' = operation.mirror)
      operations (operations.map Operation.mirror) :=
    List.forall₂_map_right_iff.2 (List.forall₂_same.2 fun _ _ => rfl)
  obtain ⟨houtcome, hindex⟩ := (simulates_mirror resources).run rfl hoperations rfl
  refine ⟨?_, hindex, houtcome.state⟩
  rw [← Option.isNone_iff_eq_none, ← Option.isNone_iff_eq_none, ← Option.not_isSome,
    ← Option.not_isSome, houtcome.failure]

end Environment

end ContentStream
