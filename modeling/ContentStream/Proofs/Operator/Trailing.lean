import ContentStream.Operator.Catalog
import ContentStream.Proofs.Operation.Arguments

/-!
# Operands that are not looked at

An operator takes its operands from the front.  Where it accepts a list of operands, it
replies to a longer list as to that one: what follows the operands it asks for changes
nothing.  Only the operators of colors look at all of their operands.
-/

namespace ContentStream

namespace Arguments

/-- What is found in operands is found too where more operands follow. -/
def Persists {α : Type} (take : Arguments → Except Error α) : Prop :=
  ∀ ⦃name operands found⦄, take ⟨name, operands⟩ = .ok found →
    ∀ more, take ⟨name, operands ++ more⟩ = .ok found

section Persists

variable {α β : Type}

theorem persists_const (result : Except Error α) : Persists fun _ => result :=
  fun _ _ _ h _ => h

theorem persists_fail (fault : OperandFault) :
    Persists fun args => (args.fail fault : Except Error α) :=
  fun _ _ _ h _ => h

theorem persists_get (index : Nat) (expected : Expectation) (view? : Operand → Option α) :
    Persists fun args => args.get index expected view? := by
  intro name operands found h more
  obtain ⟨value, hvalue, hview⟩ := Option.bind_eq_some_iff.1 (get_eq_ok.1 h)
  have hindex := lt_length_of_get h
  refine get_eq_ok.2 (Option.bind_eq_some_iff.2 ⟨value, ?_, hview⟩)
  rw [List.getElem?_append_left hindex]
  exact hvalue

theorem Persists.bind {take : Arguments → Except Error α} {next : Arguments → α → Except Error β}
    (h : Persists take) (hnext : ∀ found, Persists fun args => next args found) :
    Persists fun args => take args >>= next args := by
  intro name operands result hresult more
  obtain ⟨found, hfound, hresult⟩ := Result.bind_eq_ok.1 hresult
  exact Result.bind_eq_ok.2 ⟨found, h hfound more, hnext found hresult more⟩

theorem Persists.map {take : Arguments → Except Error α} (h : Persists take) (f : α → β) :
    Persists fun args => (take args).map f := by
  intro name operands result hresult more
  obtain ⟨found, hfound, rfl⟩ := Result.map_eq_ok.1 hresult
  exact Result.map_eq_ok.2 ⟨found, h hfound more, rfl⟩

theorem persists_numbersFrom (index count : Nat) :
    Persists fun args => args.numbersFrom index count := by
  induction count generalizing index with
  | zero => exact persists_const _
  | succ count ih =>
      exact (persists_get index .number Operand.number?).bind fun first =>
        (ih (index + 1)).bind fun others => persists_const _

end Persists

end Arguments

namespace Operator

open Arguments (Persists persists_const persists_fail persists_get persists_numbersFrom)

/-- The action replies to operands with more behind them as to these alone, or it refuses them. -/
def IgnoresTrailing (operator : Operator) : Prop :=
  ∀ resources state operands more,
    (∃ next error, operator.action resources state operands = .failed next error) ∨
      operator.action resources state (operands ++ more) = operator.action resources state operands

section Kinds

variable {name : String} {shape : Shape}

theorem ignoresTrailing_updating
    {update : Resources → PageState → Arguments → Except Error PageState}
    (h : ∀ resources state, Persists (update resources state)) :
    (updating name shape update).IgnoresTrailing := by
  intro resources state operands more
  unfold updating
  dsimp only
  cases hfound : update resources state ⟨name, operands⟩ with
  | error error => exact .inl ⟨state, error, rfl⟩
  | ok next =>
      rw [h resources state hfound more]
      exact .inr rfl

theorem ignoresTrailing_painting
    {update : GraphicsState → Arguments → Except Error GraphicsState}
    (h : ∀ graphics, Persists (update graphics)) : (painting name shape update).IgnoresTrailing :=
  ignoresTrailing_updating fun _ state => (h state.graphics).map state.withGraphics

theorem ignoresTrailing_numeric (set : GraphicsState → Float → GraphicsState) :
    (numeric name set).IgnoresTrailing :=
  ignoresTrailing_painting fun graphics => (persists_get 0 _ _).map (set graphics)

theorem ignoresTrailing_checking {check : Arguments → Except Error Unit} (h : Persists check) :
    (checking name shape check).IgnoresTrailing :=
  ignoresTrailing_updating fun _ state => h.map fun _ => state

theorem ignoresTrailing_acting (act : PageState → PageState × List Notice) :
    (acting name act).IgnoresTrailing :=
  fun _ _ _ _ => .inr rfl

theorem ignoresTrailing_expanding
    {expansion : PageState → Arguments → Except Error (List Operation)}
    (h : ∀ state, Persists (expansion state)) :
    (expanding name shape expansion).IgnoresTrailing := by
  intro resources state operands more
  unfold expanding
  dsimp only
  cases hfound : expansion state ⟨name, operands⟩ with
  | error error => exact .inl ⟨state, error, rfl⟩
  | ok operations =>
      rw [h state hfound more]
      exact .inr rfl

theorem ignoresTrailing_named : (named name).IgnoresTrailing :=
  ignoresTrailing_checking ((persists_get 0 _ _).map _)

theorem ignoresTrailing_segment (coordinates : Nat) :
    (segment name coordinates).IgnoresTrailing :=
  ignoresTrailing_updating fun _ _ => (persists_numbersFrom 0 coordinates).map _

end Kinds

/-! ## Single operators -/

theorem persists_transformArgument : Persists transformArgument :=
  (persists_get 0 _ _).bind fun _ => (persists_get 1 _ _).bind fun _ =>
    (persists_get 2 _ _).bind fun _ => (persists_get 3 _ _).bind fun _ =>
      (persists_get 4 _ _).bind fun _ => (persists_get 5 _ _).bind fun _ => persists_const _

private theorem ignoresTrailing_general : ∀ operator ∈ general, operator.IgnoresTrailing := by
  simp only [general, List.forall_mem_cons]
  refine ⟨ignoresTrailing_numeric _, ignoresTrailing_painting fun graphics => ?lineCap,
    ignoresTrailing_painting fun graphics => ?lineJoin, ignoresTrailing_numeric _,
    ignoresTrailing_painting fun graphics => ?dash,
    ignoresTrailing_painting fun graphics => ?intent, ignoresTrailing_numeric _,
    ignoresTrailing_updating fun resources state => ?parameters, ignoresTrailing_acting _,
    ignoresTrailing_acting _, ignoresTrailing_painting fun graphics => ?transform, by simp⟩
  case lineCap =>
    refine (persists_get 0 _ _).bind fun value => ?_
    cases LineCap.ofInt? value.toInt with
    | some cap => exact persists_const _
    | none => exact persists_fail _
  case lineJoin =>
    refine (persists_get 0 _ _).bind fun value => ?_
    cases LineJoin.ofInt? value.toInt with
    | some join => exact persists_const _
    | none => exact persists_fail _
  case dash =>
    -- The lengths are those of one operand; the others do not show in them.
    have hlengths (items : List Operand) : Persists fun args => dashLengths args items :=
      fun _ _ _ h _ => h
    exact (persists_get 0 _ _).bind fun items => (hlengths items).bind fun lengths =>
      (persists_get 1 _ _).bind fun phase => persists_const _
  case intent => exact (persists_get 0 _ _).bind fun intent => persists_const _
  case parameters =>
    exact (persists_get 0 _ _).bind fun name => (persists_const _).bind fun entries =>
      (persists_const _).bind fun graphics => persists_const _
  case transform => exact persists_transformArgument.map _

private theorem ignoresTrailing_path : ∀ operator ∈ path, operator.IgnoresTrailing := by
  simp only [path, construction, List.forall_mem_append, List.forall_mem_cons]
  refine ⟨⟨⟨ignoresTrailing_segment _, ignoresTrailing_segment _, ignoresTrailing_segment _,
    ignoresTrailing_segment _, ignoresTrailing_segment _, ignoresTrailing_acting _,
    ignoresTrailing_segment _, by simp⟩, ?_⟩, ?_⟩
  · intro operator hoperator
    obtain ⟨name, -, rfl⟩ := List.mem_map.1 hoperator
    exact ignoresTrailing_acting _
  · intro operator hoperator
    obtain ⟨name, -, rfl⟩ := List.mem_map.1 hoperator
    exact ignoresTrailing_acting _

private theorem persists_checkShown (items : List Operand) :
    Persists fun args => checkShown args items := by
  induction items with
  | nil => exact persists_const _
  | cons item items ih =>
      simp only [checkShown]
      split
      · exact ih
      · exact persists_fail _

private theorem persists_nextLineShowText : Persists fun args => do
    let _ ← args.string 0
    return [(⟨"T*", []⟩ : Operation), ⟨"Tj", args.operands.take 1⟩] := by
  intro name operands operations h more
  obtain ⟨bytes, hbytes, h⟩ := Result.bind_eq_ok.1 h
  refine Result.bind_eq_ok.2 ⟨bytes, persists_get 0 _ _ hbytes more, ?_⟩
  obtain ⟨value, hvalue, -⟩ := Option.bind_eq_some_iff.1 (Arguments.get_eq_ok.1 hbytes)
  obtain ⟨hlength, -⟩ := List.getElem?_eq_some_iff.1 hvalue
  rw [← h, List.take_append_of_le_length hlength]

private theorem persists_spacedNextLineShowText : Persists fun args => do
    let word ← args.numeric 0
    let character ← args.numeric 1
    let _ ← args.string 2
    return [(⟨"Tw", [word]⟩ : Operation), ⟨"Tc", [character]⟩,
      ⟨"'", (args.operands.drop 2).take 1⟩] := by
  refine (persists_get 0 _ _).bind fun word => (persists_get 1 _ _).bind fun character => ?_
  intro name operands operations h more
  obtain ⟨bytes, hbytes, h⟩ := Result.bind_eq_ok.1 h
  refine Result.bind_eq_ok.2 ⟨bytes, persists_get 2 _ _ hbytes more, ?_⟩
  obtain ⟨value, hvalue, -⟩ := Option.bind_eq_some_iff.1 (Arguments.get_eq_ok.1 hbytes)
  obtain ⟨hlength, -⟩ : ∃ hlength : 2 < operands.length, operands[2] = value :=
    List.getElem?_eq_some_iff.1 hvalue
  have hdrop : 1 ≤ (operands.drop 2).length := by
    rw [List.length_drop]
    omega
  rw [← h, List.drop_append_of_le_length (Nat.le_of_lt hlength),
    List.take_append_of_le_length hdrop]

private theorem ignoresTrailing_text : ∀ operator ∈ text, operator.IgnoresTrailing := by
  simp only [text, List.forall_mem_cons]
  refine ⟨ignoresTrailing_acting _, ignoresTrailing_acting _, ignoresTrailing_numeric _,
    ignoresTrailing_numeric _, ignoresTrailing_numeric _, ignoresTrailing_numeric _,
    ignoresTrailing_painting fun graphics => ?font,
    ignoresTrailing_painting fun graphics => ?textMode, ignoresTrailing_numeric _,
    ignoresTrailing_updating fun resources state => ?moveText,
    ignoresTrailing_expanding fun state => ?moveTextWithLeading,
    ignoresTrailing_updating fun resources state => persists_transformArgument.map _,
    ignoresTrailing_expanding fun state => persists_const _,
    ignoresTrailing_checking ((persists_get 0 _ _).map _),
    ignoresTrailing_checking ((persists_get 0 _ _).bind persists_checkShown),
    ignoresTrailing_expanding fun state => persists_nextLineShowText,
    ignoresTrailing_expanding fun state => persists_spacedNextLineShowText,
    ignoresTrailing_checking ((persists_numbersFrom 0 2).map _),
    ignoresTrailing_checking ((persists_numbersFrom 0 6).map _), by simp⟩
  case font =>
    exact (persists_get 0 _ _).bind fun name => (persists_get 1 _ _).bind fun size =>
      persists_const _
  case textMode =>
    refine (persists_get 0 _ _).bind fun value => ?_
    cases TextMode.ofInt? value.toInt with
    | some mode => exact persists_const _
    | none => exact persists_fail _
  case moveText =>
    exact (persists_get 0 _ _).bind fun x => (persists_get 1 _ _).bind fun y => persists_const _
  case moveTextWithLeading =>
    exact (persists_get 0 _ _).bind fun x => (persists_get 1 _ _).bind fun y => persists_const _

def colorNames : List String := ["SC", "SCN", "sc", "scn"]

private theorem ignoresTrailing_colorSpace {name : String} {use : Use} :
    (colorSpace name use).IgnoresTrailing :=
  ignoresTrailing_updating fun _ _ => (persists_get 0 _ _).bind fun _ =>
    (persists_const _).bind fun _ => persists_const _

private theorem persists_deviceColor (space : ColorSpace) : Persists (deviceColor space) := by
  intro name operands color h more
  obtain ⟨values, hvalues, h⟩ := Result.bind_eq_ok.1 h
  refine Result.bind_eq_ok.2 ⟨values, persists_numbersFrom 0 _ hvalues more, ?_⟩
  have hlength : space.components ≤ operands.length := Arguments.le_length_of_numbers hvalues
  rw [← h, List.take_append_of_le_length hlength]

private theorem ignoresTrailing_device {name : String} {shape : Shape} {use : Use}
    {space : ColorSpace} : (device name shape use space).IgnoresTrailing :=
  ignoresTrailing_painting fun _ => (persists_deviceColor space).map _

private theorem ignoresTrailing_colors :
    ∀ operator ∈ colors, operator.name ∉ colorNames → operator.IgnoresTrailing := by
  simp only [colors, List.forall_mem_cons]
  exact ⟨fun _ => ignoresTrailing_colorSpace, fun _ => ignoresTrailing_colorSpace,
    fun hnot => absurd (by decide) hnot, fun hnot => absurd (by decide) hnot,
    fun hnot => absurd (by decide) hnot, fun hnot => absurd (by decide) hnot,
    fun _ => ignoresTrailing_device, fun _ => ignoresTrailing_device,
    fun _ => ignoresTrailing_device, fun _ => ignoresTrailing_device,
    fun _ => ignoresTrailing_device, fun _ => ignoresTrailing_device, by simp⟩

private theorem ignoresTrailing_marking : ∀ operator ∈ marking, operator.IgnoresTrailing := by
  simp only [marking, List.forall_mem_cons]
  refine ⟨ignoresTrailing_named, ignoresTrailing_named, ignoresTrailing_checking ?image,
    ignoresTrailing_named, ignoresTrailing_checking ?point,
    ignoresTrailing_updating fun resources state => (persists_get 0 _ _).map _,
    ignoresTrailing_updating fun resources state => ?sequence, ignoresTrailing_acting _,
    ignoresTrailing_acting _, ignoresTrailing_acting _, by simp⟩
  case image =>
    exact (persists_get 0 _ _).bind fun entries => (persists_get 1 _ _).bind fun data =>
      persists_const _
  case point =>
    exact (persists_get 0 _ _).bind fun tag => (persists_get 1 _ _).bind fun identifier =>
      persists_const _
  case sequence =>
    exact (persists_get 0 _ _).bind fun tag => (persists_get 1 _ _).bind fun identifier =>
      persists_const _

theorem ignoresTrailing_builtIn :
    ∀ operator ∈ builtIn, operator.name ∉ colorNames → operator.IgnoresTrailing := by
  simp only [builtIn, List.forall_mem_append]
  exact ⟨⟨⟨⟨fun operator h _ => ignoresTrailing_general operator h,
    fun operator h _ => ignoresTrailing_path operator h⟩,
    fun operator h _ => ignoresTrailing_text operator h⟩, ignoresTrailing_colors⟩,
    fun operator h _ => ignoresTrailing_marking operator h⟩

end Operator

end ContentStream
