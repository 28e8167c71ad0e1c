import ContentStream.Proofs.Interpreter.Scopes

/-!
# Names in the graphics state

Rendering intents, fonts and patterns are kept under the names that the stream or its
resources give them.  Whatever name the graphics state holds after a run was given to its
parameter by an operation of the stream, whereas the family of a color space is always a
known one.
-/

namespace ContentStream

theorem RenderingIntent.ofOperand?_eq_other {value : Operand} {text : String}
    (h : ofOperand? value = some (.other text)) : value = .name text := by
  cases value with
  | name name =>
      have hname : ofName name = .other text := Option.some.inj h
      unfold ofName at hname
      split_ifs at hname
      rw [other.inj hname]
  | _ => simp [ofOperand?] at h

namespace Parameter

def names : (p : Parameter) → p.Value → List String
  | .intent, .other name => [name]
  | .font, (some name, _) => [name]
  | .color _, .pattern (some name) _ => [name]
  | _, _ => []

/-- The operation gives the parameter the name, as an operand or in the dictionary that it
applies. -/
inductive IsNamedBy (resources : Resources) (operation : Operation) (p : Parameter)
    (text : String) : Prop
  | operand : operation.name ∈ p.operators → .name text ∈ operation.operands →
      IsNamedBy resources operation p text
  | entry {value : Operand} {x : p.Value} : operation.name = "gs" →
      p.dictionaryValue? resources operation = some value → p.ofValue? value = some x →
      text ∈ p.names x → IsNamedBy resources operation p text

theorem names_initial (p : Parameter) : p.names (p.get GraphicsState.initial) = [] := by
  have hall : ∀ p ∈ all, p.names (p.get GraphicsState.initial) = [] := by decide
  exact hall p (mem_all p)

variable {resources : Resources} {graphics : GraphicsState} {operation : Operation}
  {p : Parameter} {text : String}

section Operands

variable {use : Operator.Use}

private theorem name_mem_of_intent {intent : RenderingIntent}
    (h : ofOperands? resources graphics operation .intent = some intent)
    (hname : text ∈ names .intent intent) : .name text ∈ operation.operands := by
  obtain ⟨value, hvalue, hintent⟩ := Option.bind_eq_some_iff.1 h
  cases intent with
  | other name =>
      obtain rfl := List.mem_singleton.1 hname
      obtain rfl := RenderingIntent.ofOperand?_eq_other hintent
      exact List.mem_of_getElem? hvalue
  | _ => simp [names] at hname

private theorem name_mem_of_font {font : Option String × Float}
    (h : ofOperands? resources graphics operation .font = some font)
    (hname : text ∈ names .font font) : .name text ∈ operation.operands := by
  obtain ⟨name, hfirst, h⟩ := Option.bind_eq_some_iff.1 h
  obtain ⟨size, -, h⟩ := Option.bind_eq_some_iff.1 h
  obtain rfl := Option.some.inj h
  obtain rfl := List.mem_singleton.1 hname
  obtain ⟨value, hvalue, hname⟩ := Option.bind_eq_some_iff.1 hfirst
  obtain rfl := Operand.name?_eq_some_iff.1 hname
  exact List.mem_of_getElem? hvalue

private theorem name_mem_of_names_color {space : ColorSpace} {operands : List Operand}
    {color : Color} (h : (space.color operands).toOption = some color)
    (hname : text ∈ names (.color use) color) : .name text ∈ operands := by
  have h := Result.toOption_eq_some_iff.1 h
  cases color with
  | pattern name components =>
      cases name with
      | none => simp [names] at hname
      | some name =>
          obtain rfl := List.mem_singleton.1 hname
          exact ColorSpace.name_mem_of_color h
  | _ => simp [names] at hname

private theorem name_mem_of_color {color : Color}
    (h : ofOperands? resources graphics operation (.color use) = some color)
    (hname : text ∈ names (.color use) color) : .name text ∈ operation.operands := by
  unfold ofOperands? at h
  dsimp only at h
  split at h
  next device hdevice =>
    exact List.mem_of_mem_take (name_mem_of_names_color h hname)
  next =>
    split at h
    next =>
      obtain ⟨space, -, rfl⟩ := Option.map_eq_some_iff.1 h
      cases space <;> simp [names, ColorSpace.initialColor] at hname
    next => exact name_mem_of_names_color h hname

end Operands

theorem isNamedBy_of_written? {x : p.Value} (hset : p.IsSetBy resources operation)
    (h : p.written? resources graphics operation = some x) (hname : text ∈ p.names x) :
    p.IsNamedBy resources operation text := by
  unfold written? at h
  split at h
  next hgs =>
    obtain ⟨value, hvalue, hx⟩ := Option.bind_eq_some_iff.1 h
    exact .entry hgs hvalue hx hname
  next hgs =>
    refine .operand (hset.resolve_right fun hentry => hgs hentry.1) ?_
    cases p with
    | intent => exact name_mem_of_intent h hname
    | font => exact name_mem_of_font h hname
    | color use => exact name_mem_of_color h hname
    | _ => simp [names] at hname

end Parameter

theorem Resources.family_mem_of_colorSpace {resources : Resources} {name : String}
    {space : ColorSpace} (h : resources.colorSpace name = .ok space) :
    space.family ∈ ColorSpace.families := by
  unfold colorSpace at h
  split at h
  next hname =>
    obtain rfl := Except.ok.inj h
    exact ColorSpace.family_mem_of_ofName? hname
  next =>
    obtain ⟨value, -, h⟩ := Result.bind_eq_ok.1 h
    split at h
    next hvalue =>
      obtain rfl := Except.ok.inj h
      exact ColorSpace.family_mem_of_ofOperand? hvalue
    next => contradiction

namespace Parameter

variable {resources : Resources} {graphics : GraphicsState} {operation : Operation}
  {use : Operator.Use} {space : ColorSpace}

private theorem family_mem_of_deviceSpace? {name : String} (h : deviceSpace? name = some space) :
    space.family ∈ ColorSpace.families := by
  unfold deviceSpace? at h
  split_ifs at h
  all_goals
    obtain rfl := Option.some.inj h
    decide

theorem family_mem_of_written?
    (h : written? resources graphics operation (.space use) = some space) :
    space.family ∈ ColorSpace.families := by
  unfold written? at h
  split at h
  next => simp [dictionaryValue?, key?] at h
  next =>
    rcases (Option.orElse_eq_some _ _ _).1 h with hdevice | ⟨-, hselected⟩
    · exact family_mem_of_deviceSpace? hdevice
    · obtain ⟨name, -, hspace⟩ := Option.bind_eq_some_iff.1 hselected
      exact Resources.family_mem_of_colorSpace (Result.toOption_eq_some_iff.1 hspace)

end Parameter

namespace Environment

variable {env : Environment} {last : PageState} {operations : List Operation}

theorem Reaches.exists_isNamedBy (hbare : env.overrides = [])
    (h : env.Reaches .initial operations last) {p : Parameter} {text : String}
    (hname : text ∈ p.names (p.get last.graphics)) :
    ∃ operation ∈ operations, p.IsNamedBy env.resources operation text := by
  rcases h.written_or_initial hbare p with ⟨operation, hmem, hset, graphics, hwritten⟩ | hinitial
  · exact ⟨operation, hmem, Parameter.isNamedBy_of_written? hset hwritten hname⟩
  · rw [hinitial, p.names_initial] at hname
    contradiction

theorem Reaches.family_mem (hbare : env.overrides = [])
    (h : env.Reaches .initial operations last) (use : Operator.Use) :
    (use.space last.graphics).family ∈ ColorSpace.families := by
  have hget : ∀ graphics, (Parameter.space use).get graphics = use.space graphics := by
    intro graphics
    cases use <;> rfl
  rw [← hget]
  rcases h.written_or_initial hbare (.space use) with ⟨_, -, -, _, hwritten⟩ | hinitial
  · exact Parameter.family_mem_of_written? hwritten
  · rw [hinitial, hget]
    cases use <;> decide

end Environment

end ContentStream
