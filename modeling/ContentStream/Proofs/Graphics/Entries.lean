import ContentStream.Proofs.Graphics.Color
import ContentStream.Proofs.Graphics.Settings

/-!
# Dictionaries of parameters as sets of entries

Each entry of a dictionary of parameters is judged by itself, and those with unknown keys
do not count.  As no key stands twice in a dictionary, the order of the entries does not
matter either, except for the error that is reported: it is about the first entry that is
not well formed.
-/

namespace ContentStream

namespace Dictionary

variable {entries : Dictionary} {key : String}

theorem get?_eq_some_iff (hnodup : (keys entries).Nodup) {value : Operand} :
    get? entries key = some value ↔ (key, value) ∈ entries := by
  induction entries with
  | nil => simp [get?]
  | cons entry entries ih =>
      obtain ⟨own, first⟩ := entry
      rw [keys, List.map_cons, List.nodup_cons] at hnodup
      have ih := ih hnodup.2
      rw [get?] at ih ⊢
      rw [List.lookup_cons, List.mem_cons, Prod.mk.injEq]
      by_cases hkey : key = own
      · subst hkey
        have hnot : (key, value) ∉ entries := fun hmem =>
          hnodup.1 (List.mem_map.2 ⟨_, hmem, rfl⟩)
        simp [hnot, eq_comm]
      · simp [hkey, beq_eq_false_iff_ne.2 hkey, ih]

theorem get?_reverse (hnodup : (keys entries).Nodup) (key : String) :
    get? entries.reverse key = get? entries key := by
  have hreverse : (keys entries.reverse).Nodup := by
    rw [keys, List.map_reverse]
    exact (List.reverse_perm _).nodup_iff.2 hnodup
  ext value
  rw [get?_eq_some_iff hreverse, get?_eq_some_iff hnodup, List.mem_reverse]

end Dictionary

namespace Parameter

def keys : List String :=
  ["LW", "LC", "LJ", "ML", "D", "RI", "FL", "SM", "SA", "BM", "CA", "ca", "AIS", "TK", "Font"]

theorem mem_keys {key : String} : key ∈ keys ↔ ∃ p : Parameter, p.key? = some key := by
  have hkeys : keys = all.filterMap key? := rfl
  rw [hkeys, List.mem_filterMap]
  exact exists_congr fun p => and_iff_right (mem_all p)

/-- What the value of an entry with the key of the parameter must be. -/
def Admits : Parameter → Operand → Prop
  | .lineWidth, value | .miterLimit, value | .flatness, value | .smoothness, value
  | .alpha _, value => value.isNumber = true
  | .lineCap, value | .lineJoin, value =>
    ∃ code ∈ [0, 1, 2], value.integer?.map Int64.toInt = some code
  | .dash, value =>
    ∃ lengths phase, value = .array [.array lengths, phase] ∧
      (∀ length ∈ lengths, length.isNumber = true) ∧ phase.isNumber = true
  | .intent, value => (∃ text, value = .name text) ∨ ∃ code, value = .integer code
  | .strokeAdjustment, value | .alphaIsShape, value | .knockout, value =>
    ∃ flag, value = .boolean flag
  | .blendMode, value => (∃ text, value = .name text) ∨ ∃ items, value = .array items
  | .font, value =>
    ∃ font size, value = .array [font, size] ∧ size.isNumber = true ∧
      ((∃ text, font = .name text) ∨
        ∃ entries text, font = .dictionary entries ∧
          Dictionary.get? entries "BaseFont" = some (.name text))
  | _, _ => False

def WellFormed (entry : String × Operand) : Prop :=
  ∀ p : Parameter, p.key? = some entry.1 → p.Admits entry.2

theorem wellFormed_iff {p : Parameter} {key : String} (hkey : p.key? = some key)
    {value : Operand} : WellFormed (key, value) ↔ p.Admits value := by
  constructor
  · exact fun h => h p hkey
  · intro h q hq
    obtain rfl := eq_of_key? hq hkey
    exact h

theorem wellFormed_of_unknown {key : String} (h : ∀ p : Parameter, p.key? ≠ some key)
    (value : Operand) : WellFormed (key, value) :=
  fun p hp => absurd hp (h p)

private theorem exists_code_iff {α : Type} {style? : Int → Option α} {value : Operand}
    (hstyle : ∀ code, (∃ x, style? code = some x) ↔ code ∈ [0, 1, 2]) :
    (∃ x, (value.integer?.map Int64.toInt).bind style? = some x) ↔
      ∃ code ∈ [0, 1, 2], value.integer?.map Int64.toInt = some code := by
  cases value.integer?.map Int64.toInt with
  | none => simp
  | some code => simp only [Option.bind_some, hstyle, Option.some.injEq, exists_eq_right']

private theorem exists_lineCap_iff (code : Int) :
    (∃ cap, LineCap.ofInt? code = some cap) ↔ code ∈ [0, 1, 2] := by
  unfold LineCap.ofInt?
  split <;> simp_all

private theorem exists_lineJoin_iff (code : Int) :
    (∃ join, LineJoin.ofInt? code = some join) ↔ code ∈ [0, 1, 2] := by
  unfold LineJoin.ofInt?
  split <;> simp_all

private theorem exists_boolean_iff (value : Operand) :
    (∃ flag, value.boolean? = some flag) ↔ ∃ flag, value = .boolean flag := by
  cases value <;> simp [Operand.boolean?]

theorem exists_numbers_iff (items : List Operand) :
    (∃ numbers, items.mapM Operand.number? = some numbers) ↔
      ∀ item ∈ items, item.isNumber = true := by
  induction items with
  | nil => simp
  | cons item items ih =>
      rw [List.forall_mem_cons, ← ih, Operand.isNumber_iff_number?]
      cases hitem : item.number? <;> cases hitems : items.mapM Operand.number? <;>
        simp [hitem, hitems]

private theorem exists_dash_iff (value : Operand) :
    (∃ dash, GraphicsState.dashOfOperand? value = some dash) ↔ Parameter.dash.Admits value := by
  rw [Admits]
  constructor
  · rintro ⟨dash, hdash⟩
    unfold GraphicsState.dashOfOperand? at hdash
    split at hdash
    next lengths phase =>
      obtain ⟨items, hitems, hdash⟩ := Option.bind_eq_some_iff.1 hdash
      obtain ⟨numbers, hnumbers, hdash⟩ := Option.bind_eq_some_iff.1 hdash
      obtain ⟨start, hstart, -⟩ := Option.bind_eq_some_iff.1 hdash
      obtain rfl : lengths = .array items := by
        cases lengths <;> simp_all [Operand.array?]
      exact ⟨items, phase, rfl, (exists_numbers_iff items).1 ⟨numbers, hnumbers⟩,
        (Operand.isNumber_iff_number? phase).2 ⟨start, hstart⟩⟩
    next => contradiction
  · rintro ⟨items, phase, rfl, hitems, hphase⟩
    obtain ⟨numbers, hnumbers⟩ := (exists_numbers_iff items).2 hitems
    obtain ⟨start, hstart⟩ := (Operand.isNumber_iff_number? phase).1 hphase
    simp [GraphicsState.dashOfOperand?, Operand.array?, hnumbers, hstart]

private theorem exists_font_iff (value : Operand) :
    (∃ font, Parameter.font.ofValue? value = some font) ↔ Parameter.font.Admits value := by
  rw [Admits, ofValue?]
  constructor
  · rintro ⟨_, hvalue⟩
    obtain ⟨found, hfound, -⟩ := Option.map_eq_some_iff.1 hvalue
    unfold GraphicsState.fontOfOperand? at hfound
    split at hfound
    next font size =>
      cases font with
      | name text =>
          obtain ⟨_, -, hfound⟩ := Option.bind_eq_some_iff.1 hfound
          obtain ⟨x, hx, -⟩ := Option.bind_eq_some_iff.1 hfound
          exact ⟨_, size, rfl, (Operand.isNumber_iff_number? size).2 ⟨x, hx⟩, .inl ⟨text, rfl⟩⟩
      | dictionary entries =>
          obtain ⟨text, htext, hfound⟩ := Option.bind_eq_some_iff.1 hfound
          obtain ⟨x, hx, -⟩ := Option.bind_eq_some_iff.1 hfound
          obtain ⟨base, hbase, htext⟩ := Option.bind_eq_some_iff.1 htext
          obtain rfl : base = .name text := by cases base <;> simp_all [Operand.name?]
          exact ⟨_, size, rfl, (Operand.isNumber_iff_number? size).2 ⟨x, hx⟩,
            .inr ⟨entries, text, rfl, hbase⟩⟩
      | _ => contradiction
    next => contradiction
  · rintro ⟨font, size, rfl, hsize, hfont⟩
    obtain ⟨x, hx⟩ := (Operand.isNumber_iff_number? size).1 hsize
    rcases hfont with ⟨text, rfl⟩ | ⟨entries, text, rfl, htext⟩
    · simp [GraphicsState.fontOfOperand?, hx]
    · simp [GraphicsState.fontOfOperand?, hx, htext, Operand.name?]

theorem exists_ofValue?_iff (p : Parameter) (value : Operand) :
    (∃ x, p.ofValue? value = some x) ↔ p.Admits value := by
  cases p with
  | lineWidth | miterLimit | flatness | smoothness | alpha =>
      exact (Operand.isNumber_iff_number? value).symm
  | lineCap => exact exists_code_iff exists_lineCap_iff
  | lineJoin => exact exists_code_iff exists_lineJoin_iff
  | dash => exact exists_dash_iff value
  | intent => cases value <;> simp [ofValue?, Admits, RenderingIntent.ofOperand?]
  | strokeAdjustment | alphaIsShape | knockout => exact exists_boolean_iff value
  | blendMode => cases value <;> simp [ofValue?, Admits, BlendMode.ofOperand?]
  | font => exact exists_font_iff value
  | _ => simp [ofValue?, Admits]

/-- The parameter has the value of the entry with its key, and is kept where there is none. -/
def IsSetFrom (p : Parameter) (entries : Dictionary) (graphics next : GraphicsState) : Prop :=
  match p.key?.bind (Dictionary.get? entries) with
  | some value => p.ofValue? value = some (p.get next)
  | none => p.get next = p.get graphics

end Parameter

namespace GraphicsState

open Parameter

variable {graphics next : GraphicsState} {name : String} {key : String} {value : Operand}
  {entries others : Dictionary}

theorem withParameter_eq_ok_or (graphics : GraphicsState) (key : String) (value : Operand) :
    (WellFormed (key, value) ∧ ∃ next, graphics.withParameter key value = .ok next) ∨
      ∃ p : Parameter, p.key? = some key ∧ ¬p.Admits value ∧
        graphics.withParameter key value = .error p.form := by
  by_cases hkey : ∃ p : Parameter, p.key? = some key
  · obtain ⟨p, hp⟩ := hkey
    rw [wellFormed_iff hp, withParameter_of_key? hp, ← exists_ofValue?_iff]
    cases hvalue : p.ofValue? value with
    | some x => exact .inl ⟨⟨x, rfl⟩, _, rfl⟩
    | none =>
        refine .inr ⟨p, hp, ?_, rfl⟩
        rw [← exists_ofValue?_iff, hvalue]
        simp
  · have hunknown := not_exists.1 hkey
    exact .inl ⟨wellFormed_of_unknown hunknown value, graphics,
      withParameter_of_unknown hunknown graphics value⟩

/-! ## Dictionaries -/

theorem ext_get {first second : GraphicsState} (htransform : first.transform = second.transform)
    (h : ∀ p : Parameter, p.get first = p.get second) : first = second := by
  have hall : ∀ p ∈ all, p.get first = p.get second := fun p _ => h p
  simp only [all, List.forall_mem_cons, Parameter.get, Prod.mk.injEq] at hall
  obtain ⟨transform, _, _, _, _, _, _, _, _, _, _, _, _, _, _, _, _, _, text⟩ := first
  obtain ⟨transform', _, _, _, _, _, _, _, _, _, _, _, _, _, _, _, _, _, text'⟩ := second
  cases text
  cases text'
  simp_all

private theorem transform_set (p : Parameter) (graphics : GraphicsState) (x : p.Value) :
    (p.set graphics x).transform = graphics.transform := by
  cases p with
  | alpha use => cases use <;> rfl
  | space use => cases use <;> rfl
  | color use => cases use <;> rfl
  | _ => rfl

private theorem transform_withParameter (h : graphics.withParameter key value = .ok next) :
    next.transform = graphics.transform := by
  rcases withParameter_eq_ok h with ⟨p, x, -, -, rfl⟩ | ⟨-, rfl⟩
  · exact transform_set p graphics x
  · rfl

theorem transform_withEntries (h : graphics.withEntries name entries = .ok next) :
    next.transform = graphics.transform :=
  view_withEntries GraphicsState.transform transform_withParameter h

theorem withEntries_cases (graphics : GraphicsState) (name : String) (entries : Dictionary) :
    ((∀ entry ∈ entries, WellFormed entry) ∧
        ∃ next, graphics.withEntries name entries = .ok next) ∨
      ∃ before key value after, ∃ p : Parameter,
        entries = before ++ (key, value) :: after ∧ (∀ entry ∈ before, WellFormed entry) ∧
          p.key? = some key ∧ ¬p.Admits value ∧
          graphics.withEntries name entries =
            .error (.malformedResource "ExtGState" name (.parameter key p.form)) := by
  induction entries generalizing graphics with
  | nil => exact .inl ⟨by simp, graphics, rfl⟩
  | cons entry entries ih =>
      obtain ⟨key, value⟩ := entry
      rw [withEntries]
      rcases withParameter_eq_ok_or graphics key value with
        ⟨hformed, middle, hmiddle⟩ | ⟨p, hp, hnot, herror⟩
      · rw [hmiddle]
        rcases ih middle with ⟨hall, hnext⟩ | ⟨before, own, last, after, p, rfl, hbefore, hrest⟩
        · exact .inl ⟨List.forall_mem_cons.2 ⟨hformed, hall⟩, hnext⟩
        · exact .inr ⟨(key, value) :: before, own, last, after, p, rfl,
            List.forall_mem_cons.2 ⟨hformed, hbefore⟩, hrest⟩
      · rw [herror]
        exact .inr ⟨[], key, value, entries, p, rfl, by simp, hp, hnot, rfl⟩

theorem exists_withEntries_iff (graphics : GraphicsState) (name : String) :
    (∃ next, graphics.withEntries name entries = .ok next) ↔
      ∀ entry ∈ entries, WellFormed entry := by
  rcases withEntries_cases graphics name entries with
    ⟨hall, hnext⟩ | ⟨before, key, value, after, p, rfl, -, hp, hnot, herror⟩
  · exact iff_of_true hnext hall
  · refine iff_of_false ?_ fun hall => hnot ?_
    · simp [herror]
    · exact (wellFormed_iff hp).1 (hall (key, value) (by simp))

theorem isSetFrom_of_withEntries (hnodup : (Dictionary.keys entries).Nodup)
    (h : graphics.withEntries name entries = .ok next) (p : Parameter) :
    p.IsSetFrom entries graphics next := by
  have hlast := get_of_withEntries h p
  rw [funext (Dictionary.get?_reverse hnodup)] at hlast
  exact hlast

private theorem get_eq_of_isSetFrom {middle last : GraphicsState} {p : Parameter}
    (h : p.IsSetFrom entries graphics next) (hlast : p.IsSetFrom entries middle last)
    (hmiddle : middle = graphics ∨ middle = next) : p.get last = p.get next := by
  unfold IsSetFrom at h hlast
  split at h
  next value hvalue =>
    rw [hvalue] at hlast
    exact Option.some.inj (hlast.symm.trans h)
  next hvalue =>
    rw [hvalue] at hlast
    rcases hmiddle with rfl | rfl
    · exact hlast.trans h.symm
    · exact hlast

/-- The dictionaries have the same entries, apart from those with unknown keys. -/
def SameKnown (entries others : Dictionary) : Prop :=
  ∀ entry : String × Operand, entry.1 ∈ keys → (entry ∈ others ↔ entry ∈ entries)

theorem SameKnown.wellFormed (h : SameKnown entries others)
    (hall : ∀ entry ∈ entries, WellFormed entry) : ∀ entry ∈ others, WellFormed entry := by
  intro entry hmem p hp
  exact hall entry ((h entry (mem_keys.2 ⟨p, hp⟩)).1 hmem) p hp

theorem SameKnown.isSetFrom_iff (h : SameKnown entries others)
    (hnodup : (Dictionary.keys entries).Nodup) (hnodup' : (Dictionary.keys others).Nodup)
    (p : Parameter) : p.IsSetFrom others graphics next ↔ p.IsSetFrom entries graphics next := by
  have hget : p.key?.bind (Dictionary.get? others) = p.key?.bind (Dictionary.get? entries) := by
    cases hp : p.key? with
    | none => rfl
    | some key =>
        rw [Option.bind_some, Option.bind_some]
        ext value
        rw [Dictionary.get?_eq_some_iff hnodup, Dictionary.get?_eq_some_iff hnodup']
        exact h (key, value) (mem_keys.2 ⟨p, hp⟩)
  rw [IsSetFrom, IsSetFrom, hget]

theorem SameKnown.symm (h : SameKnown entries others) : SameKnown others entries :=
  fun entry hkey => (h entry hkey).symm

private theorem SameKnown.withEntries (h : SameKnown entries others)
    (hnodup : (Dictionary.keys entries).Nodup) (hnodup' : (Dictionary.keys others).Nodup)
    (hnext : graphics.withEntries name entries = .ok next) (name' : String) :
    graphics.withEntries name' others = .ok next := by
  have hall := (exists_withEntries_iff graphics name).1 ⟨next, hnext⟩
  obtain ⟨last, hlast⟩ := (exists_withEntries_iff graphics name').2 (h.wellFormed hall)
  have heq : last = next := by
    refine ext_get ?_ fun p => ?_
    · rw [transform_withEntries hlast, transform_withEntries hnext]
    · have hset := (h.isSetFrom_iff hnodup hnodup' p).1 (isSetFrom_of_withEntries hnodup' hlast p)
      exact get_eq_of_isSetFrom (isSetFrom_of_withEntries hnodup hnext p) hset (.inl rfl)
  rw [hlast, heq]

theorem SameKnown.withEntries_iff (h : SameKnown entries others)
    (hnodup : (Dictionary.keys entries).Nodup) (hnodup' : (Dictionary.keys others).Nodup)
    (graphics next : GraphicsState) (name name' : String) :
    graphics.withEntries name' others = .ok next ↔ graphics.withEntries name entries = .ok next :=
  ⟨fun hnext => h.symm.withEntries hnodup' hnodup hnext name,
    fun hnext => h.withEntries hnodup hnodup' hnext name'⟩

theorem sameKnown_of_perm (h : entries.Perm others) : SameKnown entries others :=
  fun _ _ => h.symm.mem_iff

theorem withEntries_again (hnodup : (Dictionary.keys entries).Nodup)
    (h : graphics.withEntries name entries = .ok next) :
    next.withEntries name entries = .ok next := by
  have hall := (exists_withEntries_iff graphics name).1 ⟨next, h⟩
  obtain ⟨last, hlast⟩ := (exists_withEntries_iff next name).2 hall
  have heq : last = next := ext_get (transform_withEntries hlast) fun p =>
    get_eq_of_isSetFrom (isSetFrom_of_withEntries hnodup h p)
      (isSetFrom_of_withEntries hnodup hlast p) (.inr rfl)
  rw [hlast, heq]

end GraphicsState

end ContentStream
