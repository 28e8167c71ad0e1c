import ContentStream.Proofs.Graphics.Settings
import ContentStream.Proofs.Operator.Changes

/-!
# Which operators set a parameter, and to what

Each parameter of the graphics state has operators that set it, and perhaps a key of
dictionaries of parameters.  An operation of such an operator gives the parameter the value
that its operands stand for; the other operations leave the parameter as it is.
-/

namespace ContentStream

namespace Parameter

/-- The operators that set the parameter; `gs` does so for dictionaries with its key. -/
def operators : Parameter → List String
  | .lineWidth => ["w"]
  | .lineCap => ["J"]
  | .lineJoin => ["j"]
  | .miterLimit => ["M"]
  | .dash => ["d"]
  | .intent => ["ri"]
  | .flatness => ["i"]
  | .characterSpacing => ["Tc", "\""]
  | .wordSpacing => ["Tw", "\""]
  | .horizontalScaling => ["Tz"]
  | .leading => ["TL", "TD"]
  | .font => ["Tf"]
  | .textMode => ["Tr"]
  | .rise => ["Ts"]
  | .space .stroke => ["CS", "G", "RG", "K"]
  | .space .fill => ["cs", "g", "rg", "k"]
  | .color .stroke => ["CS", "SC", "SCN", "G", "RG", "K"]
  | .color .fill => ["cs", "sc", "scn", "g", "rg", "k"]
  | _ => []

theorem mem_stackNames_of_mem_operators {p : Parameter} {name : String} (h : name ∈ p.operators) :
    name ∈ Operator.stackNames ∧ name ∉ ["q", "Q"] := by
  have hall : ∀ p ∈ all, ∀ name ∈ p.operators,
      name ∈ Operator.stackNames ∧ name ∉ ["q", "Q"] := by
    decide
  exact hall p (mem_all p) name h

def AreSetBy (name : String) (parameters : List Parameter) : Prop :=
  name ≠ "gs" ∧ ∀ p ∈ all, name ∈ p.operators ↔ p ∈ parameters

instance (name : String) (parameters : List Parameter) : Decidable (AreSetBy name parameters) :=
  inferInstanceAs (Decidable (_ ∧ _))

def dictionaryValue? (resources : Resources) (operation : Operation) (p : Parameter) :
    Option Operand := do
  let name ← (operation.operands[0]?).bind Operand.name?
  let entries ← (resources.parameters name).toOption
  p.key?.bind (Dictionary.get? entries.reverse)

def deviceSpace? (name : String) : Option ColorSpace :=
  if name = "G" || name = "g" then some .deviceGray
  else if name = "RG" || name = "rg" then some .deviceRGB
  else if name = "K" || name = "k" then some .deviceCMYK
  else none

def selectedSpace? (resources : Resources) (operands : List Operand) : Option ColorSpace := do
  let name ← (operands[0]?).bind Operand.name?
  (resources.colorSpace name).toOption

/-- The value that operands give to the parameter.  A color is one of the space that the
operator selects, or else of the current space. -/
def ofOperands? (resources : Resources) (graphics : GraphicsState) (operation : Operation)
    (p : Parameter) : Option p.Value :=
  let number (index : Nat) := (operation.operands[index]?).bind Operand.number?
  let code := ((operation.operands[0]?).bind Operand.integer?).map Int64.toInt
  match p with
  | .lineWidth | .miterLimit | .flatness | .wordSpacing | .horizontalScaling | .rise => number 0
  | .characterSpacing => if operation.name = "\"" then number 1 else number 0
  | .leading =>
    if operation.name = "TD" then
      (operation.operands[1]?).bind fun value => (Operator.negate value).number?
    else number 0
  | .lineCap => code.bind LineCap.ofInt?
  | .lineJoin => code.bind LineJoin.ofInt?
  | .textMode => code.bind TextMode.ofInt?
  | .dash => do
    let items ← (operation.operands[0]?).bind Operand.array?
    let lengths ← items.mapM Operand.number?
    let phase ← number 1
    some ⟨lengths, phase⟩
  | .intent => (operation.operands[0]?).bind RenderingIntent.ofOperand?
  | .font => do
    let name ← (operation.operands[0]?).bind Operand.name?
    let size ← number 1
    some (some name, size)
  | .space _ => deviceSpace? operation.name <|> selectedSpace? resources operation.operands
  | .color use =>
    match deviceSpace? operation.name with
    | some device => (device.color (operation.operands.take device.components)).toOption
    | none =>
      if operation.name = "CS" || operation.name = "cs" then
        (selectedSpace? resources operation.operands).map ColorSpace.initialColor
      else
        ((use.space graphics).color operation.operands).toOption
  | _ => none

/-- The operation is of an operator of the parameter, or applies a dictionary with its key. -/
def IsSetBy (resources : Resources) (operation : Operation) (p : Parameter) : Prop :=
  operation.name ∈ p.operators ∨
    operation.name = "gs" ∧ (p.dictionaryValue? resources operation).isSome = true

def written? (resources : Resources) (graphics : GraphicsState) (operation : Operation)
    (p : Parameter) : Option p.Value :=
  if operation.name = "gs" then (p.dictionaryValue? resources operation).bind p.ofValue?
  else p.ofOperands? resources graphics operation

/-- Over the operation the parameter changes to the value written, or not at all. -/
structure Follows (resources : Resources) (operation : Operation)
    (graphics next : GraphicsState) (p : Parameter) : Prop where
  written : p.IsSetBy resources operation →
    p.written? resources graphics operation = some (p.get next)
  kept : ¬p.IsSetBy resources operation → p.get next = p.get graphics

variable {resources : Resources} {operation : Operation} {graphics next : GraphicsState}

theorem IsSetBy.mem_stackNames {p : Parameter} (h : p.IsSetBy resources operation) :
    operation.name ∈ Operator.stackNames ∧ operation.name ∉ ["q", "Q"] := by
  rcases h with hname | ⟨hname, -⟩
  · exact mem_stackNames_of_mem_operators hname
  · rw [hname]
    decide

section AreSetBy

variable {name : String} {operands : List Operand}

theorem follows_of_areSetBy {parameters : List Parameter} (h : AreSetBy name parameters)
    (hset : ∀ p ∈ parameters,
      p.ofOperands? resources graphics ⟨name, operands⟩ = some (p.get next))
    (hkept : ∀ p, p ∉ parameters → p.get next = p.get graphics) (p : Parameter) :
    p.Follows resources ⟨name, operands⟩ graphics next := by
  obtain ⟨hname, hall⟩ := h
  have hmem := hall p (mem_all p)
  constructor
  · rintro (hoperator | ⟨hgs, -⟩)
    · rw [written?, if_neg hname]
      exact hset p (hmem.1 hoperator)
    · exact absurd hgs hname
  · exact fun hnot => hkept p fun hparameter => hnot (.inl (hmem.2 hparameter))

theorem follows_set {p : Parameter} (h : AreSetBy name [p]) {x : p.Value}
    (hx : p.ofOperands? resources graphics ⟨name, operands⟩ = some x) (q : Parameter) :
    q.Follows resources ⟨name, operands⟩ graphics (p.set graphics x) := by
  refine follows_of_areSetBy h (fun q hq => ?_) (fun q hq => ?_) q
  · obtain rfl := List.mem_singleton.1 hq
    rw [get_set_self, hx]
  · exact get_set_of_ne (fun heq => hq (List.mem_singleton.2 heq)) graphics x

theorem follows_set_set {p p' : Parameter} (h : AreSetBy name [p, p']) (hne : p ≠ p')
    {x : p.Value} {x' : p'.Value}
    (hx : p.ofOperands? resources graphics ⟨name, operands⟩ = some x)
    (hx' : p'.ofOperands? resources graphics ⟨name, operands⟩ = some x') (q : Parameter) :
    q.Follows resources ⟨name, operands⟩ graphics (p'.set (p.set graphics x) x') := by
  refine follows_of_areSetBy h ?_ (fun q hq => ?_) q
  · simp only [List.forall_mem_cons]
    refine ⟨?_, ?_, by simp⟩
    · rw [get_set_of_ne hne, get_set_self, hx]
    · rw [get_set_self, hx']
  · simp only [List.mem_cons, List.not_mem_nil, or_false, not_or] at hq
    rw [get_set_of_ne hq.2, get_set_of_ne hq.1]

end AreSetBy

end Parameter

namespace Operator

def Sets (operator : Operator) : Prop :=
  ∀ {resources state operands next},
    (operator.action resources state operands).effect? = some (next, none) →
      ∀ p : Parameter, p.Follows resources ⟨operator.name, operands⟩ state.graphics next.graphics

section Kinds

open Parameter (AreSetBy)

variable {name : String} {shape : Shape}

private theorem ok_of_effect?_updating
    {update : Resources → PageState → Arguments → Except Error PageState}
    {resources : Resources} {state next : PageState} {operands : List Operand}
    (h : ((updating name shape update).action resources state operands).effect? =
      some (next, none)) : update resources state ⟨name, operands⟩ = .ok next := by
  unfold updating at h
  dsimp only at h
  split at h
  next hupdate =>
    obtain rfl := (Prod.mk.inj (Option.some.inj h)).1
    exact hupdate
  next => simp [Reply.effect?] at h

theorem sets_updating {update : Resources → PageState → Arguments → Except Error PageState}
    (h : ∀ {resources state operands next},
      update resources state ⟨name, operands⟩ = .ok next → ∀ p : Parameter,
        p.Follows resources ⟨name, operands⟩ state.graphics next.graphics) :
    (updating name shape update).Sets :=
  fun heffect => h (ok_of_effect?_updating heffect)

theorem sets_painting {update : GraphicsState → Arguments → Except Error GraphicsState}
    (h : ∀ {resources graphics operands next}, update graphics ⟨name, operands⟩ = .ok next →
      ∀ p : Parameter, p.Follows resources ⟨name, operands⟩ graphics next) :
    (painting name shape update).Sets := by
  refine sets_updating fun hupdate => ?_
  obtain ⟨graphics, hgraphics, rfl⟩ := Result.map_eq_ok.1 hupdate
  exact h hgraphics

theorem sets_numeric {set : GraphicsState → Float → GraphicsState} {p : Parameter}
    (hname : AreSetBy name [p])
    (h : ∀ {resources graphics operands x}, (operands[0]?).bind Operand.number? = some x →
      ∃ y, p.ofOperands? resources graphics ⟨name, operands⟩ = some y ∧
        set graphics x = p.set graphics y) : (numeric name set).Sets := by
  refine sets_painting fun {resources graphics operands next} hupdate => ?_
  obtain ⟨x, hx, rfl⟩ := Result.map_eq_ok.1 hupdate
  obtain ⟨y, hy, hset⟩ := @h resources _ _ _ (Arguments.get_eq_ok.1 hx)
  rw [hset]
  exact Parameter.follows_set hname hy

end Kinds

/-! ## Single operators -/

open Parameter

theorem toOption_dashLengths (args : Arguments) (items : List Operand) :
    (dashLengths args items).toOption = items.mapM Operand.number? := by
  rw [dashLengths, Result.toOption_mapM]
  congr 1
  funext item
  cases item.number? <;> rfl

private theorem sets_parameters : parameters.Sets := by
  refine sets_updating fun {resources state operands next} h p => ?_
  obtain ⟨name, hname, h⟩ := Result.bind_eq_ok.1 h
  obtain ⟨entries, hentries, h⟩ := Result.bind_eq_ok.1 h
  obtain ⟨graphics, hgraphics, h⟩ := Result.bind_eq_ok.1 h
  obtain rfl := Except.ok.inj h
  have hname : (operands[0]?).bind Operand.name? = some name := Arguments.get_eq_ok.1 hname
  have hentry : p.dictionaryValue? resources ⟨"gs", operands⟩ =
      p.key?.bind (Dictionary.get? entries.reverse) := by
    simp [dictionaryValue?, hname, hentries, Except.toOption]
  have hnot : "gs" ∉ p.operators := by
    have hall : ∀ p ∈ all, "gs" ∉ p.operators := by decide
    exact hall p (mem_all p)
  have hlast := GraphicsState.get_of_withEntries hgraphics p
  rw [← hentry] at hlast
  constructor
  · rintro (hoperator | ⟨-, hsome⟩)
    · exact absurd hoperator hnot
    · obtain ⟨value, hvalue⟩ := Option.isSome_iff_exists.1 hsome
      rw [hvalue] at hlast
      rw [written?, if_pos rfl, hvalue]
      exact hlast
  · intro hkept
    have hnone : p.dictionaryValue? resources ⟨"gs", operands⟩ = none := by
      rw [← Option.not_isSome_iff_eq_none]
      exact fun hsome => hkept (.inr ⟨rfl, hsome⟩)
    rw [hnone] at hlast
    exact hlast

private theorem get_concat (graphics : GraphicsState) (m : Transform Float) (p : Parameter) :
    p.get (graphics.concat m) = p.get graphics := by
  cases p with
  | alpha use => cases use <;> rfl
  | space use => cases use <;> rfl
  | color use => cases use <;> rfl
  | _ => rfl

def SetsOrElse (operator : Operator) : Prop :=
  operator.Sets ∨ operator ∈ shorthands ∨
    (operator.name ∈ stackNames → operator.name ∈ ["q", "Q"])

private theorem sets_general : ∀ operator ∈ general, operator.SetsOrElse := by
  simp only [general, List.forall_mem_cons]
  refine ⟨.inl (sets_numeric (p := .lineWidth) (by decide) fun h => ⟨_, h, rfl⟩),
    .inl (sets_painting fun h => ?lineCap), .inl (sets_painting fun h => ?lineJoin),
    .inl (sets_numeric (p := .miterLimit) (by decide) fun h => ⟨_, h, rfl⟩),
    .inl (sets_painting fun h => ?dash), .inl (sets_painting fun h => ?intent),
    .inl (sets_numeric (p := .flatness) (by decide) fun h => ⟨_, h, rfl⟩),
    .inl sets_parameters, .inr (.inr (by decide)), .inr (.inr (by decide)),
    .inl (sets_painting fun h => ?transform), by simp⟩
  case lineCap =>
    obtain ⟨value, hvalue, h⟩ := Result.bind_eq_ok.1 h
    split at h
    next cap hcap =>
      obtain rfl := Except.ok.inj h
      refine follows_set (p := .lineCap) (by decide) ?_
      simp [ofOperands?, Arguments.get_eq_ok.1 hvalue, hcap]
    next => simp [Arguments.fail] at h
  case lineJoin =>
    obtain ⟨value, hvalue, h⟩ := Result.bind_eq_ok.1 h
    split at h
    next join hjoin =>
      obtain rfl := Except.ok.inj h
      refine follows_set (p := .lineJoin) (by decide) ?_
      simp [ofOperands?, Arguments.get_eq_ok.1 hvalue, hjoin]
    next => simp [Arguments.fail] at h
  case dash =>
    obtain ⟨items, hitems, h⟩ := Result.bind_eq_ok.1 h
    obtain ⟨lengths, hlengths, h⟩ := Result.bind_eq_ok.1 h
    obtain ⟨phase, hphase, h⟩ := Result.bind_eq_ok.1 h
    obtain rfl := Except.ok.inj h
    have hlengths := congrArg Except.toOption hlengths
    rw [toOption_dashLengths] at hlengths
    refine follows_set (p := .dash) (by decide) ?_
    simp [ofOperands?, Arguments.get_eq_ok.1 hitems, hlengths, Arguments.get_eq_ok.1 hphase,
      Except.toOption]
  case intent =>
    obtain ⟨intent, hintent, h⟩ := Result.bind_eq_ok.1 h
    obtain rfl := Except.ok.inj h
    exact follows_set (p := .intent) (by decide) (Arguments.get_eq_ok.1 hintent)
  case transform =>
    obtain ⟨m, -, rfl⟩ := Result.map_eq_ok.1 h
    have hnone : AreSetBy "cm" [] := by decide
    exact follows_of_areSetBy hnone (by simp) fun p _ => get_concat _ m p

private theorem sets_text : ∀ operator ∈ text, operator.SetsOrElse := by
  simp only [text, List.forall_mem_cons]
  refine ⟨.inr (.inr (by decide)), .inr (.inr (by decide)),
    .inl (sets_numeric (p := .characterSpacing) (by decide) fun {_ _ _ x} h =>
      ⟨x, by simpa [ofOperands?] using h, rfl⟩),
    .inl (sets_numeric (p := .wordSpacing) (by decide) fun h => ⟨_, h, rfl⟩),
    .inl (sets_numeric (p := .horizontalScaling) (by decide) fun h => ⟨_, h, rfl⟩),
    .inl (sets_numeric (p := .leading) (by decide) fun {_ _ _ x} h =>
      ⟨x, by simpa [ofOperands?] using h, rfl⟩),
    .inl (sets_painting fun h => ?font), .inl (sets_painting fun h => ?textMode),
    .inl (sets_numeric (p := .rise) (by decide) fun h => ⟨_, h, rfl⟩),
    .inr (.inr (by decide)), .inr (.inl (by simp [shorthands])), .inr (.inr (by decide)),
    .inr (.inl (by simp [shorthands])), .inr (.inr (by decide)), .inr (.inr (by decide)),
    .inr (.inl (by simp [shorthands])), .inr (.inl (by simp [shorthands])),
    .inr (.inr (by decide)), .inr (.inr (by decide)), by simp⟩
  case font =>
    obtain ⟨name, hname, h⟩ := Result.bind_eq_ok.1 h
    obtain ⟨size, hsize, h⟩ := Result.bind_eq_ok.1 h
    obtain rfl := Except.ok.inj h
    refine follows_set (p := .font) (x := (some name, size)) (by decide) ?_
    simp [ofOperands?, Arguments.get_eq_ok.1 hname, Arguments.get_eq_ok.1 hsize]
  case textMode =>
    obtain ⟨value, hvalue, h⟩ := Result.bind_eq_ok.1 h
    split at h
    next mode hmode =>
      obtain rfl := Except.ok.inj h
      refine follows_set (p := .textMode) (by decide) ?_
      simp [ofOperands?, Arguments.get_eq_ok.1 hvalue, hmode]
    next => simp [Arguments.fail] at h

namespace Use

theorem withColor_eq (use : Use) (graphics : GraphicsState) (color : Color) :
    use.withColor graphics color = (Parameter.color use).set graphics color := by
  cases use <;> rfl

theorem withSpace_eq (use : Use) (graphics : GraphicsState) (space : ColorSpace) :
    use.withSpace graphics space =
      (Parameter.color use).set ((Parameter.space use).set graphics space) space.initialColor := by
  cases use <;> rfl

theorem withColor_withSpace (use : Use) (graphics : GraphicsState) (space : ColorSpace)
    (color : Color) : use.withColor (use.withSpace graphics space) color =
      (Parameter.color use).set ((Parameter.space use).set graphics space) color := by
  cases use <;> rfl

end Use

section Colors

variable {name : String} {use : Use}

private theorem sets_colorSpace (hname : AreSetBy name [.space use, .color use])
    (hselects : name = "CS" ∨ name = "cs") : (colorSpace name use).Sets := by
  refine sets_updating fun {resources state operands next} h => ?_
  obtain ⟨text, htext, h⟩ := Result.bind_eq_ok.1 h
  obtain ⟨selected, hselected, h⟩ := Result.bind_eq_ok.1 h
  obtain rfl := Except.ok.inj h
  have htext : (operands[0]?).bind Operand.name? = some text := Arguments.get_eq_ok.1 htext
  have hnone : deviceSpace? name = none := by rcases hselects with rfl | rfl <;> rfl
  have hspace : selectedSpace? resources operands = some selected := by
    simp [selectedSpace?, htext, hselected, Except.toOption]
  show ∀ p : Parameter, p.Follows resources ⟨name, operands⟩ state.graphics
    (use.withSpace state.graphics selected)
  rw [use.withSpace_eq]
  refine follows_set_set hname (by simp) ?_ ?_
  · simp [ofOperands?, hnone, hspace]
  · simp [ofOperands?, hnone, hspace, hselects]

private theorem sets_color (hname : AreSetBy name [.color use]) (hnone : deviceSpace? name = none)
    (hselects : ¬(name = "CS" ∨ name = "cs")) : (color name use).Sets := by
  refine sets_painting fun {resources graphics operands next} h => ?_
  obtain ⟨color, hcolor, rfl⟩ := Result.map_eq_ok.1 h
  rw [use.withColor_eq]
  refine follows_set hname ?_
  simp [ofOperands?, hnone, hselects, hcolor, Except.toOption]

private theorem sets_device {shape : Shape} {space : ColorSpace}
    (hname : AreSetBy name [.space use, .color use]) (hspace : deviceSpace? name = some space) :
    (device name shape use space).Sets := by
  refine sets_painting fun {resources graphics operands next} h => ?_
  obtain ⟨color, hcolor, rfl⟩ := Result.map_eq_ok.1 h
  obtain ⟨_, -, hcolor⟩ := Result.bind_eq_ok.1 hcolor
  rw [use.withColor_withSpace]
  refine follows_set_set hname (by simp) ?_ ?_
  · simp [ofOperands?, hspace]
  · simp [ofOperands?, hspace, hcolor, Except.toOption]

end Colors

private theorem sets_colors : ∀ operator ∈ colors, operator.Sets := by
  simp only [colors, List.forall_mem_cons]
  exact ⟨sets_colorSpace (by decide) (by decide), sets_colorSpace (by decide) (by decide),
    sets_color (by decide) rfl (by decide), sets_color (by decide) rfl (by decide),
    sets_color (by decide) rfl (by decide), sets_color (by decide) rfl (by decide),
    sets_device (by decide) rfl, sets_device (by decide) rfl, sets_device (by decide) rfl,
    sets_device (by decide) rfl, sets_device (by decide) rfl, sets_device (by decide) rfl,
    by simp⟩

theorem setsOrElse_builtIn : ∀ operator ∈ builtIn, operator.SetsOrElse := by
  have helsewhere : ∀ name ∈ (path ++ marking).map Operator.name, name ∉ stackNames := by
    decide
  have hpath : ∀ operator ∈ path, operator.SetsOrElse := fun operator h =>
    .inr (.inr fun hmem =>
      absurd hmem (helsewhere _ (List.mem_map_of_mem (List.mem_append_left _ h))))
  have hmarking : ∀ operator ∈ marking, operator.SetsOrElse := fun operator h =>
    .inr (.inr fun hmem =>
      absurd hmem (helsewhere _ (List.mem_map_of_mem (List.mem_append_right _ h))))
  simp only [builtIn, List.forall_mem_append]
  exact ⟨⟨⟨⟨sets_general, hpath⟩, sets_text⟩, fun operator h => .inl (sets_colors operator h)⟩,
    hmarking⟩

end Operator

end ContentStream
