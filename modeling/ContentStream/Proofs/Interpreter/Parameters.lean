import Mathlib.Data.List.Perm.Basic
import ContentStream.Proofs.Graphics.Entries
import ContentStream.Proofs.Interpreter.BuiltIn
import ContentStream.Proofs.Operator.Settings

/-!
# Dictionaries of parameters and single operations

A dictionary of parameters is applied as a whole, or not at all.  What it sets does not
depend on the order of its entries, nor on entries with unknown keys.  Where parameters
also have operators of their own, these operations set them to the same values, in any
order.
-/

namespace ContentStream

open GraphicsState (SameKnown)
open Parameter (WellFormed)

namespace Parameter

def singleValued : List (String × String) :=
  [("LW", "w"), ("LC", "J"), ("LJ", "j"), ("ML", "M"), ("RI", "ri"), ("FL", "i")]

def operatorKeys : List String :=
  singleValued.map Prod.fst ++ ["D", "Font"]

/-- The operation that is given what the entry has; a font is given by its name. -/
inductive WrittenAs : String × Operand → Operation → Prop where
  | single {key operator} : (key, operator) ∈ singleValued →
      (value : Operand) → WrittenAs (key, value) ⟨operator, [value]⟩
  | dash (lengths phase : Operand) :
      WrittenAs ("D", .array [lengths, phase]) ⟨"d", [lengths, phase]⟩
  | font (text : String) (size : Operand) :
      WrittenAs ("Font", .array [.name text, size]) ⟨"Tf", [.name text, size]⟩
  | fontDictionary {entries : Dictionary} {text : String}
      (htext : Dictionary.get? entries "BaseFont" = some (.name text)) (size : Operand) :
      WrittenAs ("Font", .array [.dictionary entries, size]) ⟨"Tf", [.name text, size]⟩

theorem exists_writtenAs {entry : String × Operand} (hkey : entry.1 ∈ operatorKeys)
    (h : WellFormed entry) : ∃ operation, WrittenAs entry operation := by
  obtain ⟨key, value⟩ := entry
  rcases List.mem_append.1 hkey with hsingle | hmem
  · obtain ⟨⟨own, operator⟩, hmem, rfl⟩ := List.mem_map.1 hsingle
    exact ⟨_, .single hmem value⟩
  · simp only [List.mem_cons, List.not_mem_nil, or_false] at hmem
    rcases hmem with rfl | rfl
    · obtain ⟨lengths, phase, rfl, -⟩ := h .dash rfl
      exact ⟨_, .dash _ _⟩
    · obtain ⟨font, size, rfl, -, hfont⟩ := h .font rfl
      rcases hfont with ⟨text, rfl⟩ | ⟨entries, text, rfl, htext⟩
      · exact ⟨_, .font _ _⟩
      · exact ⟨_, .fontDictionary htext _⟩

end Parameter

namespace Operator

open GraphicsState Parameter

variable {graphics : GraphicsState} {value : Operand}

private theorem toOption_withParameter {p : Parameter} {key : String} (hkey : p.key? = some key)
    (graphics : GraphicsState) (value : Operand) :
    (graphics.withParameter key value).toOption = (p.ofValue? value).map (p.set graphics) := by
  rw [withParameter_of_key? hkey]
  cases p.ofValue? value <;> rfl

/-- The operator makes of any graphics state what the entry makes of it, or fails with it. -/
def Agrees (operator : Operator) (operands : List Operand) (entry : String × Operand) : Prop :=
  ∃ shape update, operator = painting operator.name shape update ∧
    ∀ graphics, (update graphics ⟨operator.name, operands⟩).toOption =
      (graphics.withParameter entry.1 entry.2).toOption

theorem agrees_numeric {name : String} {set : GraphicsState → Float → GraphicsState}
    {p : Parameter} {key : String} (hkey : p.key? = some key)
    (hset : ∀ graphics,
      (value.number?).map (set graphics) = (p.ofValue? value).map (p.set graphics)) :
    (numeric name set).Agrees [value] (key, value) := by
  refine ⟨_, _, rfl, fun graphics => ?_⟩
  rw [toOption_withParameter hkey, ← hset, Result.toOption_map, Arguments.number,
    Arguments.toOption_get]
  rfl

private theorem agrees_styled {name key : String} {shape : Shape} {p : Parameter}
    {update : GraphicsState → Arguments → Except Error GraphicsState}
    (style? : Int → Option p.Value) (hkey : p.key? = some key)
    (hvalue : p.ofValue? value = (value.integer?.map Int64.toInt).bind style?)
    (hupdate : ∀ graphics args, (update graphics args).toOption =
      (args.integer 0).toOption.bind fun code => (style? code.toInt).map (p.set graphics)) :
    (painting name shape update).Agrees [value] (key, value) := by
  refine ⟨_, _, rfl, fun graphics => ?_⟩
  rw [toOption_withParameter hkey, hupdate, Arguments.integer, Arguments.toOption_get, hvalue]
  show (value.integer?).bind _ = _
  cases value.integer? <;> rfl

private theorem agrees_lineCap (value : Operand) : lineCap.Agrees [value] ("LC", value) := by
  refine agrees_styled (p := .lineCap) LineCap.ofInt? rfl rfl fun graphics args => ?_
  rw [Result.toOption_bind]
  congr 1
  funext code
  cases LineCap.ofInt? code.toInt <;> rfl

private theorem agrees_lineJoin (value : Operand) : lineJoin.Agrees [value] ("LJ", value) := by
  refine agrees_styled (p := .lineJoin) LineJoin.ofInt? rfl rfl fun graphics args => ?_
  rw [Result.toOption_bind]
  congr 1
  funext code
  cases LineJoin.ofInt? code.toInt <;> rfl

private theorem agrees_renderingIntent (value : Operand) :
    renderingIntent.Agrees [value] ("RI", value) := by
  refine ⟨_, _, rfl, fun graphics => ?_⟩
  rw [toOption_withParameter (p := .intent) rfl, Result.toOption_bind, Arguments.toOption_get]
  show (RenderingIntent.ofOperand? value).bind _ = _
  rw [ofValue?]
  cases RenderingIntent.ofOperand? value <;> rfl

private theorem agrees_dash (lengths phase : Operand) :
    dash.Agrees [lengths, phase] ("D", .array [lengths, phase]) := by
  refine ⟨_, _, rfl, fun graphics => ?_⟩
  rw [toOption_withParameter (p := .dash) rfl]
  simp only [Result.toOption_bind, Arguments.array, Arguments.number, Arguments.toOption_get,
    toOption_dashLengths]
  show (lengths.array?).bind (fun items => (items.mapM Operand.number?).bind fun numbers =>
    (phase.number?).bind fun start => _) = _
  rw [ofValue?, dashOfOperand?]
  cases lengths.array? with
  | none => rfl
  | some items =>
      cases hnumbers : items.mapM Operand.number? <;> cases phase.number? <;>
        simp [hnumbers, pure, Except.pure, Except.toOption, Parameter.set]

private theorem agrees_font (text : String) (size : Operand) {font : Operand}
    (hfont : fontOfOperand? (.array [font, size]) = (size.number?).map fun x => (text, x)) :
    Operator.font.Agrees [.name text, size] ("Font", .array [font, size]) := by
  refine ⟨_, _, rfl, fun graphics => ?_⟩
  rw [toOption_withParameter (p := .font) rfl, ofValue?, hfont]
  simp only [Result.toOption_bind, Arguments.name, Arguments.number, Arguments.toOption_get]
  show (some text).bind (fun text => (size.number?).bind fun x => _) = _
  cases size.number? <;> rfl

theorem exists_agrees {entry : String × Operand} {operation : Operation}
    (h : WrittenAs entry operation) : ∃ operator, builtIn? operation.name = some operator ∧
      operator.Agrees operation.operands entry := by
  cases h with
  | single hmem value =>
      simp only [singleValued, List.mem_cons, Prod.mk.injEq, List.not_mem_nil, or_false] at hmem
      rcases hmem with ⟨rfl, rfl⟩ | ⟨rfl, rfl⟩ | ⟨rfl, rfl⟩ | ⟨rfl, rfl⟩ | ⟨rfl, rfl⟩ | ⟨rfl, rfl⟩
      · exact ⟨_, rfl, agrees_numeric (p := .lineWidth) rfl fun _ => rfl⟩
      · exact ⟨_, rfl, agrees_lineCap value⟩
      · exact ⟨_, rfl, agrees_lineJoin value⟩
      · exact ⟨_, rfl, agrees_numeric (p := .miterLimit) rfl fun _ => rfl⟩
      · exact ⟨_, rfl, agrees_renderingIntent value⟩
      · exact ⟨_, rfl, agrees_numeric (p := .flatness) rfl fun _ => rfl⟩
  | dash lengths phase => exact ⟨_, rfl, agrees_dash lengths phase⟩
  | font text size =>
      refine ⟨_, rfl, agrees_font text size ?_⟩
      simp [fontOfOperand?, Option.map_eq_bind]
  | fontDictionary htext size =>
      refine ⟨_, rfl, agrees_font _ size ?_⟩
      simp [fontOfOperand?, htext, Operand.name?, Option.map_eq_bind]

end Operator

/-! ## Steps that set parameters -/

namespace Environment

open Parameter (WrittenAs)

variable {env : Environment} {state last : PageState} {name : String}
  {entries : Dictionary} {operations : List Operation}

private theorem settle_withGraphics_iff {result : Except Error GraphicsState} :
    state.settle (result.map state.withGraphics) = (last, none) ↔
      ∃ graphics, result = .ok graphics ∧ last = state.withGraphics graphics := by
  cases result with
  | error error => simp [PageState.settle, Except.map]
  | ok graphics => simp [PageState.settle, Except.map, eq_comm]

private theorem withEntries_cons_iff {graphics next : GraphicsState} {entry : String × Operand}
    (name : String) : graphics.withEntries name (entry :: entries) = .ok next ↔
      ∃ middle, graphics.withParameter entry.1 entry.2 = .ok middle ∧
        middle.withEntries name entries = .ok next := by
  rw [GraphicsState.withEntries]
  cases graphics.withParameter entry.1 entry.2 <;> simp

private theorem effect_invoke_parameters (hbare : env.overrides = [])
    (h : env.resources.parameters name = .ok entries) (state : PageState) :
    (env.invoke state ⟨"gs", [.name name]⟩).effect =
      state.settle ((state.graphics.withEntries name entries).map state.withGraphics) := by
  have hfound : env.operator? "gs" = some Operator.parameters := operator?_eq_builtIn? hbare "gs"
  rw [effect_invoke hfound (Operator.effect?_updating _ _ _ _)]
  have hname : (⟨"gs", [.name name]⟩ : Arguments).name 0 = .ok name := rfl
  simp only [hname, h, bind, Except.bind]
  cases state.graphics.withEntries name entries <;> rfl

private theorem step_parameters_iff (hbare : env.overrides = [])
    (h : env.resources.parameters name = .ok entries) :
    env.Step state ⟨"gs", [.name name]⟩ last ↔
      ∃ graphics, state.graphics.withEntries name entries = .ok graphics ∧
        last = state.withGraphics graphics := by
  rw [Step, effect_invoke_parameters hbare h, settle_withGraphics_iff]

theorem step_writtenAs_iff (hbare : env.overrides = []) {entry : String × Operand}
    {operation : Operation} (h : WrittenAs entry operation) (name : String) :
    env.Step state operation last ↔
      ∃ graphics, state.graphics.withEntries name [entry] = .ok graphics ∧
        last = state.withGraphics graphics := by
  obtain ⟨operator, hfound, shape, update, hoperator, hsame⟩ := Operator.exists_agrees h
  rw [← operator?_eq_builtIn? hbare] at hfound
  have hreply : (operator.action env.resources state operation.operands).effect? = some
      (state.settle ((update state.graphics ⟨operator.name, operation.operands⟩).map
        state.withGraphics)) := by
    rw [hoperator]
    exact Operator.effect?_updating _ _ _ _
  rw [Step, effect_invoke hfound hreply, settle_withGraphics_iff]
  refine exists_congr fun graphics => and_congr_left' ?_
  rw [withEntries_cons_iff name, Result.eq_ok_iff_of_toOption (hsame _)]
  simp [GraphicsState.withEntries]

theorem reaches_writtenAs_iff (hbare : env.overrides = [])
    (h : List.Forall₂ WrittenAs entries operations) (name : String) :
    env.Reaches state operations last ↔
      ∃ graphics, state.graphics.withEntries name entries = .ok graphics ∧
        last = state.withGraphics graphics := by
  induction h generalizing state with
  | nil =>
      rw [reaches_nil]
      constructor
      · rintro rfl
        exact ⟨last.graphics, rfl, rfl⟩
      · rintro ⟨graphics, hgraphics, rfl⟩
        obtain rfl := Except.ok.inj hgraphics
        rfl
  | cons hentry _ ih =>
      simp only [reaches_cons hbare, step_writtenAs_iff hbare hentry name, ih,
        withEntries_cons_iff name]
      constructor
      · rintro ⟨_, ⟨middle, ⟨_, hmiddle, hnil⟩, rfl⟩, graphics, hgraphics, rfl⟩
        obtain rfl := Except.ok.inj hnil
        exact ⟨graphics, ⟨_, hmiddle, hgraphics⟩, rfl⟩
      · rintro ⟨graphics, ⟨middle, hmiddle, hgraphics⟩, rfl⟩
        exact ⟨state.withGraphics middle, ⟨middle, ⟨middle, hmiddle, rfl⟩, rfl⟩,
          graphics, hgraphics, rfl⟩

private theorem exists_writtenAs_all
    (h : ∀ entry ∈ entries, entry.1 ∈ Parameter.operatorKeys ∧ WellFormed entry) :
    ∃ operations, List.Forall₂ WrittenAs entries operations := by
  induction entries with
  | nil => exact ⟨[], .nil⟩
  | cons entry entries ih =>
      obtain ⟨⟨hkey, hformed⟩, hothers⟩ := List.forall_mem_cons.1 h
      obtain ⟨operation, hoperation⟩ := Parameter.exists_writtenAs hkey hformed
      obtain ⟨operations, hoperations⟩ := ih hothers
      exact ⟨operation :: operations, .cons hoperation hoperations⟩

private theorem reaches_perm_iff (hbare : env.overrides = [])
    (hnodup : (Dictionary.keys entries).Nodup) (h : List.Forall₂ WrittenAs entries operations)
    {ordered : List Operation} (hperm : ordered.Perm operations) (name : String) :
    env.Reaches state ordered last ↔
      ∃ graphics, state.graphics.withEntries name entries = .ok graphics ∧
        last = state.withGraphics graphics := by
  obtain ⟨others, hothers, hsame⟩ := List.perm_comp_forall₂ hperm h.flip
  have hnodup' : (Dictionary.keys others).Nodup := (hsame.map Prod.fst).nodup_iff.2 hnodup
  rw [reaches_writtenAs_iff hbare hothers.flip name]
  refine exists_congr fun graphics => and_congr_left' ?_
  exact (GraphicsState.sameKnown_of_perm hsame.symm).withEntries_iff hnodup hnodup' _ _ _ _

/--
Whether a dictionary of parameters is applied, and to what effect, depends on its entries
with known keys alone.  It succeeds just if each of them is well formed, sets the parameters
that have a key in it and no others, and does the same again.  Otherwise nothing is set, and
the error is about the first of its entries that is not well formed.
-/
theorem withEntries_known (graphics : GraphicsState) (name : String) {entries : Dictionary}
    (hnodup : (Dictionary.keys entries).Nodup) :
    ((∃ next, graphics.withEntries name entries = .ok next) ↔
      ∀ entry ∈ entries, WellFormed entry) ∧
    (∀ others name', (Dictionary.keys others).Nodup → SameKnown entries others → ∀ next,
      graphics.withEntries name' others = .ok next ↔
        graphics.withEntries name entries = .ok next) ∧
    (∀ next, graphics.withEntries name entries = .ok next →
      next.transform = graphics.transform ∧
        (∀ p : Parameter, p.IsSetFrom entries graphics next) ∧
        next.withEntries name entries = .ok next) ∧
    ∀ error, graphics.withEntries name entries = .error error →
      (∃ before key value after, ∃ p : Parameter,
        entries = before ++ (key, value) :: after ∧ (∀ entry ∈ before, WellFormed entry) ∧
          p.key? = some key ∧ ¬p.Admits value ∧
          error = .malformedResource "ExtGState" name (.parameter key p.form)) ∧
      ∀ (resources : Resources) (state : PageState), state.graphics = graphics →
        resources.parameters name = .ok entries →
          ((⟨resources, []⟩ : Environment).invoke state ⟨"gs", [.name name]⟩).effect =
            (state, some error) := by
  refine ⟨graphics.exists_withEntries_iff name, fun others name' hnodup' hsame next =>
    hsame.withEntries_iff hnodup hnodup' _ _ _ _, fun next hnext => ?_, fun error herror => ?_⟩
  · exact ⟨GraphicsState.transform_withEntries hnext,
      GraphicsState.isSetFrom_of_withEntries hnodup hnext,
      GraphicsState.withEntries_again hnodup hnext⟩
  · constructor
    · rcases GraphicsState.withEntries_cases graphics name entries with
        ⟨-, next, hnext⟩ | ⟨before, key, value, after, p, hentries, hbefore, hp, hnot, hfails⟩
      · rw [herror] at hnext
        contradiction
      · rw [herror] at hfails
        exact ⟨before, key, value, after, p, hentries, hbefore, hp, hnot, Except.error.inj hfails⟩
    · rintro resources state rfl hresource
      rw [effect_invoke_parameters rfl hresource, herror]
      rfl

theorem withEntries_known_width :
    let entries : Dictionary := [("LW", .integer 2), ("Unknown", .null)]
    (Dictionary.keys entries).Nodup ∧
      ∃ next, GraphicsState.initial.withEntries "G0" entries = .ok next ∧
        next.withEntries "G0" entries = .ok next ∧
        GraphicsState.initial.withEntries "G1" [("LW", .integer 2)] = .ok next := by
  intro entries
  have hnodup : (Dictionary.keys entries).Nodup := by decide
  obtain ⟨-, hsame, hset, -⟩ := withEntries_known GraphicsState.initial "G0" hnodup
  have hknown : SameKnown entries [("LW", .integer 2)] := by
    rintro ⟨key, value⟩ (hkey : key ∈ Parameter.keys)
    have hne : key ≠ "Unknown" := by
      rintro rfl
      exact absurd hkey (by decide)
    simp [entries, hne]
  obtain ⟨-, -, hagain⟩ := hset _ rfl
  exact ⟨hnodup, _, rfl, hagain, (hsame _ "G1" (by decide) hknown _).2 rfl⟩

/--
An entry of a dictionary of parameters has the effect of the operation that is given its
value, or fails with it.  So a dictionary of well-formed entries has the effect of these
operations, in any order.
-/
theorem parameters_operations (resources : Resources) (state : PageState) :
    let env : Environment := ⟨resources, []⟩
    (∀ entry operation, WrittenAs entry operation → ∀ name last,
      env.Step state operation last ↔
        ∃ graphics, state.graphics.withEntries name [entry] = .ok graphics ∧
          last = state.withGraphics graphics) ∧
    ∀ name entries, resources.parameters name = .ok entries →
      (Dictionary.keys entries).Nodup →
      (∀ entry ∈ entries, entry.1 ∈ Parameter.operatorKeys ∧ WellFormed entry) →
        (∃ operations, List.Forall₂ WrittenAs entries operations) ∧
        ∀ operations ordered, List.Forall₂ WrittenAs entries operations →
          ordered.Perm operations →
            ∃ last, env.Step state ⟨"gs", [.name name]⟩ last ∧
              env.Reaches state ordered last := by
  intro env
  have hbare : env.overrides = [] := rfl
  refine ⟨fun entry operation h name last => step_writtenAs_iff hbare h name,
    fun name entries hresource hnodup hall => ⟨?_, fun operations ordered h hperm => ?_⟩⟩
  · exact exists_writtenAs_all hall
  · obtain ⟨graphics, hgraphics⟩ := (state.graphics.exists_withEntries_iff name).2
      fun entry hmem => (hall entry hmem).2
    exact ⟨_, (step_parameters_iff hbare hresource).2 ⟨graphics, hgraphics, rfl⟩,
      (reaches_perm_iff hbare hnodup h hperm name).2 ⟨graphics, hgraphics, rfl⟩⟩

theorem parameters_operations_dash :
    let entries : Dictionary :=
      [("LW", .integer 2), ("D", .array [.array [.integer 3], .integer 0])]
    let resources : Resources := ⟨[("ExtGState", .dictionary [("G0", .dictionary entries)])]⟩
    let env : Environment := ⟨resources, []⟩
    ∃ last, env.Step PageState.initial ⟨"gs", [.name "G0"]⟩ last ∧
      env.Reaches PageState.initial
        [⟨"d", [.array [.integer 3], .integer 0]⟩, ⟨"w", [.integer 2]⟩] last := by
  intro entries resources env
  have hentries : ∀ entry ∈ entries, entry.1 ∈ Parameter.operatorKeys ∧ WellFormed entry := by
    simp only [entries, List.forall_mem_cons]
    refine ⟨⟨by decide, ?_⟩, ⟨by decide, ?_⟩, by simp⟩
    · exact (Parameter.wellFormed_iff (p := .lineWidth) rfl).2 rfl
    · refine (Parameter.wellFormed_iff (p := .dash) rfl).2 ⟨_, _, rfl, ?_, rfl⟩
      simp [Operand.isNumber]
  have hwritten : List.Forall₂ WrittenAs entries
      [⟨"w", [.integer 2]⟩, ⟨"d", [.array [.integer 3], .integer 0]⟩] :=
    .cons (.single (by decide) _) (.cons (.dash _ _) .nil)
  obtain ⟨-, hall⟩ := parameters_operations resources PageState.initial
  exact (hall "G0" entries rfl (by decide) hentries).2 _ _ hwritten (.swap _ _ [])

end Environment

end ContentStream
