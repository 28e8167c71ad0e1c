import ContentStream.Operator.Color
import ContentStream.Proofs.Graphics.Parameters

/-!
# Parameters of the graphics state, one by one

What painting depends on apart from the transformation, as a list of parameters that can
be read and set independently of each other.  A dictionary gives each parameter the value
of the last entry with its key, and leaves a parameter as it is if no entry has its key.
-/

namespace ContentStream

open Operator (Use)

/-- The name and the size of a font are one parameter. -/
inductive Parameter where
  | lineWidth
  | lineCap
  | lineJoin
  | miterLimit
  | dash
  | intent
  | flatness
  | smoothness
  | strokeAdjustment
  | blendMode
  | alpha (use : Use)
  | alphaIsShape
  | knockout
  | characterSpacing
  | wordSpacing
  | horizontalScaling
  | leading
  | font
  | textMode
  | rise
  | space (use : Use)
  | color (use : Use)
  deriving DecidableEq

namespace Parameter

def all : List Parameter :=
  [.lineWidth, .lineCap, .lineJoin, .miterLimit, .dash, .intent, .flatness, .smoothness,
    .strokeAdjustment, .blendMode, .alpha .stroke, .alpha .fill, .alphaIsShape, .knockout,
    .characterSpacing, .wordSpacing, .horizontalScaling, .leading, .font, .textMode, .rise,
    .space .stroke, .space .fill, .color .stroke, .color .fill]

theorem mem_all (p : Parameter) : p ∈ all := by
  cases p with
  | alpha use => cases use <;> decide
  | space use => cases use <;> decide
  | color use => cases use <;> decide
  | _ => decide

abbrev Value : Parameter → Type
  | .lineWidth | .miterLimit | .flatness | .smoothness | .alpha _ | .characterSpacing
  | .wordSpacing | .horizontalScaling | .leading | .rise => Float
  | .lineCap => LineCap
  | .lineJoin => LineJoin
  | .dash => DashPattern
  | .intent => RenderingIntent
  | .strokeAdjustment | .alphaIsShape | .knockout => Bool
  | .blendMode => BlendMode
  | .font => Option String × Float
  | .textMode => TextMode
  | .space _ => ColorSpace
  | .color _ => Color

def get : (p : Parameter) → GraphicsState → p.Value
  | .lineWidth, graphics => graphics.lineWidth
  | .lineCap, graphics => graphics.lineCap
  | .lineJoin, graphics => graphics.lineJoin
  | .miterLimit, graphics => graphics.miterLimit
  | .dash, graphics => graphics.dash
  | .intent, graphics => graphics.intent
  | .flatness, graphics => graphics.flatness
  | .smoothness, graphics => graphics.smoothness
  | .strokeAdjustment, graphics => graphics.strokeAdjustment
  | .blendMode, graphics => graphics.blendMode
  | .alpha .stroke, graphics => graphics.strokeAlpha
  | .alpha .fill, graphics => graphics.fillAlpha
  | .alphaIsShape, graphics => graphics.alphaIsShape
  | .knockout, graphics => graphics.text.knockout
  | .characterSpacing, graphics => graphics.text.characterSpacing
  | .wordSpacing, graphics => graphics.text.wordSpacing
  | .horizontalScaling, graphics => graphics.text.horizontalScaling
  | .leading, graphics => graphics.text.leading
  | .font, graphics => (graphics.text.font, graphics.text.fontSize)
  | .textMode, graphics => graphics.text.mode
  | .rise, graphics => graphics.text.rise
  | .space .stroke, graphics => graphics.strokeSpace
  | .space .fill, graphics => graphics.fillSpace
  | .color .stroke, graphics => graphics.strokeColor
  | .color .fill, graphics => graphics.fillColor

def set : (p : Parameter) → GraphicsState → p.Value → GraphicsState
  | .lineWidth, graphics, x => { graphics with lineWidth := x }
  | .lineCap, graphics, x => { graphics with lineCap := x }
  | .lineJoin, graphics, x => { graphics with lineJoin := x }
  | .miterLimit, graphics, x => { graphics with miterLimit := x }
  | .dash, graphics, x => { graphics with dash := x }
  | .intent, graphics, x => { graphics with intent := x }
  | .flatness, graphics, x => { graphics with flatness := x }
  | .smoothness, graphics, x => { graphics with smoothness := x }
  | .strokeAdjustment, graphics, x => { graphics with strokeAdjustment := x }
  | .blendMode, graphics, x => { graphics with blendMode := x }
  | .alpha .stroke, graphics, x => { graphics with strokeAlpha := x }
  | .alpha .fill, graphics, x => { graphics with fillAlpha := x }
  | .alphaIsShape, graphics, x => { graphics with alphaIsShape := x }
  | .knockout, graphics, x => { graphics with text.knockout := x }
  | .characterSpacing, graphics, x => { graphics with text.characterSpacing := x }
  | .wordSpacing, graphics, x => { graphics with text.wordSpacing := x }
  | .horizontalScaling, graphics, x => { graphics with text.horizontalScaling := x }
  | .leading, graphics, x => { graphics with text.leading := x }
  | .font, graphics, x => { graphics with text.font := x.1, text.fontSize := x.2 }
  | .textMode, graphics, x => { graphics with text.mode := x }
  | .rise, graphics, x => { graphics with text.rise := x }
  | .space .stroke, graphics, x => { graphics with strokeSpace := x }
  | .space .fill, graphics, x => { graphics with fillSpace := x }
  | .color .stroke, graphics, x => { graphics with strokeColor := x }
  | .color .fill, graphics, x => { graphics with fillColor := x }

@[simp] theorem get_set_self (p : Parameter) (graphics : GraphicsState) (x : p.Value) :
    p.get (p.set graphics x) = x := by
  cases p with
  | alpha use => cases use <;> rfl
  | space use => cases use <;> rfl
  | color use => cases use <;> rfl
  | _ => rfl

theorem get_set_of_ne {p q : Parameter} (h : q ≠ p) (graphics : GraphicsState) (x : p.Value) :
    q.get (p.set graphics x) = q.get graphics := by
  have hall : ∀ q ∈ all, q ≠ p → q.get (p.set graphics x) = q.get graphics := by
    simp only [all, List.forall_mem_cons]
    cases p with
    | alpha use => cases use <;> simp [get, set]
    | space use => cases use <;> simp [get, set]
    | color use => cases use <;> simp [get, set]
    | _ => simp [get, set]
  exact hall q (mem_all q) h

/-! ## Entries of dictionaries -/

def key? : Parameter → Option String
  | .lineWidth => some "LW"
  | .lineCap => some "LC"
  | .lineJoin => some "LJ"
  | .miterLimit => some "ML"
  | .dash => some "D"
  | .intent => some "RI"
  | .flatness => some "FL"
  | .smoothness => some "SM"
  | .strokeAdjustment => some "SA"
  | .blendMode => some "BM"
  | .alpha .stroke => some "CA"
  | .alpha .fill => some "ca"
  | .alphaIsShape => some "AIS"
  | .knockout => some "TK"
  | .font => some "Font"
  | _ => none

def ofValue? : (p : Parameter) → Operand → Option p.Value
  | .lineWidth, value | .miterLimit, value | .flatness, value | .smoothness, value
  | .alpha _, value => value.number?
  | .lineCap, value => (value.integer?.map Int64.toInt).bind LineCap.ofInt?
  | .lineJoin, value => (value.integer?.map Int64.toInt).bind LineJoin.ofInt?
  | .dash, value => GraphicsState.dashOfOperand? value
  | .intent, value => RenderingIntent.ofOperand? value
  | .strokeAdjustment, value | .alphaIsShape, value | .knockout, value => value.boolean?
  | .blendMode, value => BlendMode.ofOperand? value
  | .font, value => (GraphicsState.fontOfOperand? value).map fun font => (some font.1, font.2)
  | _, _ => none

def form : Parameter → ParameterForm
  | .lineCap => .lineCap
  | .lineJoin => .lineJoin
  | .dash => .dash
  | .intent => .intent
  | .strokeAdjustment | .alphaIsShape | .knockout => .boolean
  | .blendMode => .blendMode
  | .font => .font
  | _ => .number

theorem eq_of_key? {p q : Parameter} {key : String} (hp : p.key? = some key)
    (hq : q.key? = some key) : p = q := by
  have hall : ∀ p ∈ all, ∀ q ∈ all, p.key? = q.key? → p.key? = none ∨ p = q := by
    decide +kernel
  exact (hall p (mem_all p) q (mem_all q) (hp.trans hq.symm)).resolve_left (by simp [hp])

end Parameter

theorem Dictionary.get?_reverse_cons (entry : String × Operand) (entries : Dictionary)
    (key : String) : get? (entry :: entries).reverse key =
      (get? entries.reverse key).or (if key = entry.1 then some entry.2 else none) := by
  rw [get?, get?, List.reverse_cons, List.lookup_append, List.lookup_cons, List.lookup_nil]
  by_cases hkey : key = entry.1
  · simp [hkey]
  · simp [hkey, beq_eq_false_iff_ne.2 hkey]

namespace GraphicsState

open Parameter

variable {graphics next : GraphicsState}

private theorem demand_eq_ok {α : Type} {form : ParameterForm} {found : Option α} {x : α} :
    demand form found = .ok x ↔ found = some x := by
  cases found <;> simp [demand]

theorem withParameter_of_key? {p : Parameter} {key : String} (hkey : p.key? = some key)
    (graphics : GraphicsState) (value : Operand) :
    graphics.withParameter key value = (demand p.form (p.ofValue? value)).map (p.set graphics) := by
  cases p with
  | alpha use => cases use <;> (obtain rfl := Option.some.inj hkey; rfl)
  | font =>
      obtain rfl := Option.some.inj hkey
      rw [ofValue?]
      show (demand .font (fontOfOperand? value)).map _ = _
      cases fontOfOperand? value <;> rfl
  | _ => first | contradiction | (obtain rfl := Option.some.inj hkey; rfl)

theorem withParameter_of_unknown {key : String} (h : ∀ p : Parameter, p.key? ≠ some key)
    (graphics : GraphicsState) (value : Operand) :
    graphics.withParameter key value = .ok graphics := by
  have hall : ∀ p ∈ all, p.key? ≠ some key := fun p _ => h p
  simp only [all, List.forall_mem_cons, key?, ne_eq, Option.some.injEq] at hall
  unfold withParameter
  dsimp only
  split
  case h_16 => rfl
  all_goals simp at hall

theorem withParameter_eq_ok {key : String} {value : Operand}
    (h : graphics.withParameter key value = .ok next) :
    (∃ (p : Parameter) (x : p.Value), p.key? = some key ∧ p.ofValue? value = some x ∧
      next = p.set graphics x) ∨ ((∀ p : Parameter, p.key? ≠ some key) ∧ next = graphics) := by
  by_cases hkey : ∃ p : Parameter, p.key? = some key
  · obtain ⟨p, hp⟩ := hkey
    rw [withParameter_of_key? hp] at h
    obtain ⟨x, hx, rfl⟩ := Result.map_eq_ok.1 h
    exact .inl ⟨p, x, hp, demand_eq_ok.1 hx, rfl⟩
  · have hnone := not_exists.1 hkey
    rw [withParameter_of_unknown hnone] at h
    exact .inr ⟨hnone, (Except.ok.inj h).symm⟩

theorem get_of_withParameter {key : String} {value : Operand}
    (h : graphics.withParameter key value = .ok next) (p : Parameter) :
    (p.key? = some key → p.ofValue? value = some (p.get next)) ∧
      (p.key? ≠ some key → p.get next = p.get graphics) := by
  rcases withParameter_eq_ok h with ⟨q, x, hkey, hx, rfl⟩ | ⟨hnone, rfl⟩
  · constructor
    · intro hp
      obtain rfl := eq_of_key? hp hkey
      rw [hx, get_set_self]
    · intro hp
      refine get_set_of_ne (fun heq => hp ?_) graphics x
      rw [heq, hkey]
  · exact ⟨fun hp => absurd hp (hnone p), fun _ => rfl⟩

theorem get_of_withEntries {name : String} {entries : Dictionary}
    (h : graphics.withEntries name entries = .ok next) (p : Parameter) :
    match p.key?.bind (Dictionary.get? entries.reverse) with
    | some value => p.ofValue? value = some (p.get next)
    | none => p.get next = p.get graphics := by
  induction entries generalizing graphics with
  | nil =>
      obtain rfl := Except.ok.inj h
      cases p.key? <;> rfl
  | cons entry entries ih =>
      obtain ⟨key, value⟩ := entry
      rw [withEntries] at h
      split at h
      next middle hmiddle =>
        have hlast := ih h
        obtain ⟨hset, hkept⟩ := get_of_withParameter hmiddle p
        cases hp : p.key? with
        | none =>
            rw [hp] at hlast hkept
            exact hlast.trans (hkept (by simp))
        | some own =>
            rw [hp] at hlast hset hkept
            rw [Option.bind_some] at hlast ⊢
            rw [Dictionary.get?_reverse_cons]
            -- The first entry counts only if no later one has the key.
            cases hfound : Dictionary.get? entries.reverse own with
            | some last => simpa [hfound] using hlast
            | none =>
                rw [hfound] at hlast
                by_cases hown : own = key
                · simpa [hown, hlast] using hset (congrArg some hown)
                · simpa [hown, hlast] using hkept fun heq => hown (Option.some.inj heq)
      next => contradiction

end GraphicsState

end ContentStream
