import ContentStream.Operator.Catalog
import ContentStream.Proofs.Result

/-!
# Changes of a state, part by part

A state has five parts: the stack of graphics states, the graphics object, the text
position, the open sequences of marked content, and the depth of compatibility sections.
An operation that succeeds changes each part for itself; only the text position also
depends on the leading.  Which parts an operation changes is fixed by its name, and only
operations that set graphics parameters look at the graphics state before they succeed.
-/

namespace ContentStream

namespace Operator

/-- Set parameters of the current graphics state other than the leading. -/
def paintNames : List String :=
  ["w", "J", "j", "M", "d", "ri", "i", "gs", "cm", "Tc", "Tw", "Tz", "Tf", "Tr", "Ts", "CS",
    "cs", "SC", "SCN", "sc", "scn", "G", "g", "RG", "rg", "K", "k"]

def leadingNames : List String := ["TL", "TD"]

def stackNames : List String :=
  ["w", "J", "j", "M", "d", "ri", "i", "gs", "q", "Q", "cm", "Tc", "Tw", "Tz", "TL", "Tf",
    "Tr", "Ts", "TD", "\"", "CS", "cs", "SC", "SCN", "sc", "scn", "G", "g", "RG", "rg", "K",
    "k"]

def objectTargets : List (String × GraphicsObject) :=
  [("m", .path), ("l", .path), ("c", .path), ("v", .path), ("y", .path), ("re", .path),
    ("S", .none), ("s", .none), ("f", .none), ("F", .none), ("f*", .none), ("B", .none),
    ("B*", .none), ("b", .none), ("b*", .none), ("n", .none), ("W", .clippingPath),
    ("W*", .clippingPath), ("BT", .text), ("ET", .none)]

def target? (name : String) : Option GraphicsObject :=
  objectTargets.lookup name

def objectNames : List String :=
  objectTargets.map Prod.fst

theorem target?_of_notMem {name : String} (h : name ∉ objectNames) : target? name = none := by
  rw [target?, List.lookup_eq_none_iff]
  intro entry hentry
  simpa using fun heq : name = entry.1 => h (heq ▸ List.mem_map_of_mem hentry)

def movingNames : List String := ["BT", "Td", "TD", "Tm", "T*", "'", "\""]

def textNames : List String := ["BT", "Td", "TD", "Tm", "T*", "'", "\"", "TL", "q", "Q"]

def sequenceNames : List String := ["BMC", "BDC", "EMC"]

def compatibilityNames : List String := ["BX", "EX"]

def actingNames : List String :=
  stackNames ++ objectNames ++ movingNames ++ sequenceNames ++ compatibilityNames

def checkNames : List String := ["h", "Tj", "TJ", "d0", "d1", "sh", "Do", "BI", "MP", "DP"]

theorem notMem_actingNames_of_mem_checkNames : ∀ name ∈ checkNames, name ∉ actingNames := by
  decide

private theorem isSome_builtIn?_of_mem_actingNames :
    ∀ name ∈ actingNames, (builtIn? name).isSome = true := by
  decide

theorem notMem_actingNames_of_builtIn? {name : String} (h : builtIn? name = none) :
    name ∉ actingNames := by
  intro hmem
  have hsome := isSome_builtIn?_of_mem_actingNames name hmem
  rw [h] at hsome
  contradiction

end Operator

namespace MarkedContent

def ofOperands (operands : List Operand) : MarkedContent where
  tag := ((operands[0]?).bind Operand.name?).getD ""
  identifier := ((operands[1]?).bind Operand.dictionary?).bind fun entries =>
    (Dictionary.get? entries "MCID").bind Operand.integer?

def openAfter (sequences : List MarkedContent) (operation : Operation) : List MarkedContent :=
  if operation.name = "BMC" then
    { ofOperands operation.operands with identifier := none } :: sequences
  else if operation.name = "BDC" then ofOperands operation.operands :: sequences
  else if operation.name = "EMC" then sequences.tail
  else sequences

theorem openAfter_of_notMem {operation : Operation}
    (h : operation.name ∉ Operator.sequenceNames) (sequences : List MarkedContent) :
    openAfter sequences operation = sequences := by
  simp only [Operator.sequenceNames, List.mem_cons, List.not_mem_nil, or_false, not_or] at h
  obtain ⟨hpoint, hproperties, hend⟩ := h
  rw [openAfter, if_neg hpoint, if_neg hproperties, if_neg hend]

end MarkedContent

def depthAfter (depth : Nat) (operation : Operation) : Nat :=
  if operation.name = "BX" then depth + 1
  else if operation.name = "EX" then depth - 1
  else depth

theorem depthAfter_of_notMem {operation : Operation}
    (h : operation.name ∉ Operator.compatibilityNames) (depth : Nat) :
    depthAfter depth operation = depth := by
  simp only [Operator.compatibilityNames, List.mem_cons, List.not_mem_nil, or_false,
    not_or] at h
  obtain ⟨hbegin, hend⟩ := h
  rw [depthAfter, if_neg hbegin, if_neg hend]

/-! ## Changes -/

inductive StackChange where
  | update (f : GraphicsState → GraphicsState)
  | save
  | restore

namespace StackChange

def apply : StackChange → StateStack → StateStack
  | .update f, stack => { stack with current := f stack.current }
  | .save, stack => stack.save
  | .restore, stack => stack.restore?.getD stack

def Fits (name : String) : StackChange → Prop
  | .update f => name ∉ ["q", "Q"] ∧ (name ∉ Operator.stackNames → f = id) ∧
      (name ∈ Operator.leadingNames → ∃ x, ∀ graphics, (f graphics).text.leading = x) ∧
      (name ∉ Operator.leadingNames → ∀ graphics,
        (f graphics).text.leading = graphics.text.leading)
  | .save => name = "q"
  | .restore => name = "Q"

end StackChange

/-- What an operation that succeeds does to each part of a state. -/
structure Change where
  stack : StackChange := .update id
  object : Option GraphicsObject := none
  text : Float → TextPosition Float → TextPosition Float := fun _ position => position
  sequences : List MarkedContent → List MarkedContent := id
  depth : Nat → Nat := id

namespace Change

def apply (change : Change) (state : PageState) : PageState where
  stack := change.stack.apply state.stack
  object := change.object.getD state.object
  text := change.text state.graphics.text.leading state.text
  markedContent := change.sequences state.markedContent
  compatibilityDepth := change.depth state.compatibilityDepth

structure Fits (name : String) (operands : List Operand) (change : Change) : Prop where
  stack : change.stack.Fits name
  object : change.object = Operator.target? name
  text : name ∉ Operator.movingNames → change.text = fun _ position => position
  sequences : ∀ sequences, change.sequences sequences =
    MarkedContent.openAfter sequences ⟨name, operands⟩
  depth : ∀ depth, change.depth depth = depthAfter depth ⟨name, operands⟩

end Change

/-- The effect of a step that leaves the state as it is where it fails. -/
def PageState.settle (state : PageState) : Except Error PageState → PageState × Option Error
  | .ok next => (next, none)
  | .error error => (state, some error)

abbrev Changes := GraphicsState → List Operand → Except Error Change

structure Changes.Fit (name : String) (changes : Changes) : Prop where
  fits : ∀ {graphics operands change}, changes graphics operands = .ok change →
    change.Fits name operands
  independent : name ∉ Operator.paintNames → ∀ graphics graphics' operands,
    changes graphics operands = changes graphics' operands

namespace Operator

theorem frame_of_mem_paintNames : ∀ name ∈ paintNames,
    name ∈ stackNames ∧ name ∉ ["q", "Q"] ∧ name ∉ leadingNames ∧ target? name = none ∧
      name ∉ sequenceNames ∧ name ∉ compatibilityNames := by
  decide

abbrev ChangesObject (name : String) (object : Option GraphicsObject) : Prop :=
  name ∉ stackNames ∧ target? name = object ∧ name ∉ sequenceNames ∧ name ∉ compatibilityNames

theorem changesObject_of_mem_checkNames :
    ∀ name ∈ checkNames, ChangesObject name none := by
  decide

theorem mem_stackNames_of_mem : ∀ name ∈ ["q", "Q"] ++ leadingNames, name ∈ stackNames := by
  decide

end Operator

theorem StackChange.fits_id {name : String} (h : name ∉ Operator.stackNames) :
    (StackChange.update id).Fits name := by
  have hnot : name ∉ ["q", "Q"] ++ Operator.leadingNames :=
    fun hmem => h (Operator.mem_stackNames_of_mem name hmem)
  rw [List.mem_append, not_or] at hnot
  exact ⟨hnot.1, fun _ => rfl, fun hmem => absurd hmem hnot.2, fun _ _ => rfl⟩

namespace Change.Fits

variable {name : String} {operands : List Operand} {change : Change}

theorem apply_stack_of_notMem (h : change.Fits name operands)
    (hname : name ∉ Operator.stackNames) (stack : StateStack) :
    change.stack.apply stack = stack := by
  have hstack := h.stack
  cases hchange : change.stack with
  | update f =>
      rw [hchange] at hstack
      rw [hstack.2.1 hname]
      rfl
  | save =>
      rw [hchange] at hstack
      exact absurd (Operator.mem_stackNames_of_mem "q" (by decide)) (hstack ▸ hname)
  | restore =>
      rw [hchange] at hstack
      exact absurd (Operator.mem_stackNames_of_mem "Q" (by decide)) (hstack ▸ hname)

theorem apply_of_notMem (h : change.Fits name operands) (hname : name ∉ Operator.actingNames)
    (state : PageState) : change.apply state = state := by
  simp only [Operator.actingNames, List.mem_append, not_or] at hname
  obtain ⟨⟨⟨⟨hstack, hobject⟩, hmoving⟩, hsequences⟩, hdepth⟩ := hname
  have hopen : MarkedContent.openAfter state.markedContent ⟨name, operands⟩ =
      state.markedContent := MarkedContent.openAfter_of_notMem hsequences _
  have hsections : depthAfter state.compatibilityDepth ⟨name, operands⟩ =
      state.compatibilityDepth := depthAfter_of_notMem hdepth _
  simp [Change.apply, h.apply_stack_of_notMem hstack, h.object,
    Operator.target?_of_notMem hobject, h.text hmoving, h.sequences, hopen, h.depth, hsections]

end Change.Fits

theorem Change.fits_parts {name : String} {operands : List Operand} {stack : StackChange}
    {object : Option GraphicsObject}
    {text : Float → TextPosition Float → TextPosition Float} (hstack : stack.Fits name)
    (htext : name ∉ Operator.movingNames → text = fun _ position => position)
    (hnames : Operator.target? name = object ∧ name ∉ Operator.sequenceNames ∧
      name ∉ Operator.compatibilityNames) :
    Change.Fits name operands { stack := stack, object := object, text := text } where
  stack := hstack
  object := hnames.1.symm
  text := htext
  sequences := fun _ => (MarkedContent.openAfter_of_notMem hnames.2.1 _).symm
  depth := fun _ => (depthAfter_of_notMem hnames.2.2 _).symm

namespace Changes

variable {name : String}

theorem fit_ok {change : Change} (hfits : ∀ operands, change.Fits name operands) :
    Changes.Fit name fun _ _ => .ok change where
  fits {graphics operands change'} h := by
    obtain rfl := Except.ok.inj h
    exact hfits operands
  independent _ _ _ _ := rfl

theorem fit_map {α : Type} {check : List Operand → Except Error α} {change : α → Change}
    (hfits : ∀ {operands found}, check operands = .ok found →
      (change found).Fits name operands) :
    Changes.Fit name fun _ operands => (check operands).map change where
  fits {graphics operands change'} h := by
    obtain ⟨found, hfound, rfl⟩ := Result.map_eq_ok.1 h
    exact hfits hfound
  independent _ _ _ _ := rfl

end Changes

end ContentStream
