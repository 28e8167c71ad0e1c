import ContentStream.Proofs.Graphics.Entries
import ContentStream.Proofs.Interpreter.Scopes
import ContentStream.Proofs.Number.Value

/-!
# Integers that are given as reals

Where an integer is asked for, a real may stand that is one.  Styles of lines and of text,
component counts and last indices are then the number that was given.  Identifiers of
marked content may be any integers: one that is past the range is replaced by the nearest
integer in the range.
-/

namespace ContentStream

open Binary (StandsFor)

variable {x : Float}

theorem toInt_ofIntClamp (n : Int) :
    (Int64.ofIntClamp n).toInt = max (-2 ^ 63) (min n (2 ^ 63 - 1)) := by
  have hmin : Int64.minValue.toInt = -2 ^ 63 := by decide
  have hmax : Int64.maxValue.toInt = 2 ^ 63 - 1 := by decide
  unfold Int64.ofIntClamp
  split
  next hlow =>
    split
    next hhigh =>
      rw [Int64.toInt_ofIntLE]
      omega
    next hhigh => omega
  next hlow => omega

namespace Operand

theorem integer?_real_eq_some_iff {i : Int64} :
    (real x).integer? = some i ↔ ∃ n, StandsFor x n ∧ Int64.ofIntClamp n = i := by
  simp [integer?, Binary.toInt?_eq_some_iff]

theorem integer?_real_eq_none_iff : (real x).integer? = none ↔ ∀ n, ¬StandsFor x n := by
  rw [integer?, Option.map_eq_none_iff, Option.eq_none_iff_forall_ne_some]
  exact forall_congr' fun n => not_congr Binary.toInt?_eq_some_iff

theorem toInt_integer?_real_iff {n : Int} (hlow : -2 ^ 63 < n) (hhigh : n < 2 ^ 63 - 1) :
    (real x).integer?.map Int64.toInt = some n ↔ StandsFor x n := by
  rw [Option.map_eq_some_iff]
  constructor
  · rintro ⟨i, hi, rfl⟩
    obtain ⟨m, hm, rfl⟩ := integer?_real_eq_some_iff.1 hi
    rw [toInt_ofIntClamp] at hlow hhigh ⊢
    obtain heq : max (-2 ^ 63) (min m (2 ^ 63 - 1)) = m := by omega
    rwa [heq]
  · intro h
    refine ⟨_, integer?_real_eq_some_iff.2 ⟨n, h, rfl⟩, ?_⟩
    rw [toInt_ofIntClamp]
    omega

end Operand

inductive IsCoded : (p : Parameter) → String → (Int → Option p.Value) → Prop
  | lineCap : IsCoded .lineCap "J" LineCap.ofInt?
  | lineJoin : IsCoded .lineJoin "j" LineJoin.ofInt?
  | textMode : IsCoded .textMode "Tr" TextMode.ofInt?

namespace IsCoded

variable {p : Parameter} {name : String} {code? : Int → Option p.Value}

theorem bounds (h : IsCoded p name code?) {n : Int} {value : p.Value}
    (hvalue : code? n = some value) : 0 ≤ n ∧ n ≤ 7 := by
  cases h with
  | lineCap =>
      unfold LineCap.ofInt? at hvalue
      split at hvalue <;> first | contradiction | omega
  | lineJoin =>
      unfold LineJoin.ofInt? at hvalue
      split at hvalue <;> first | contradiction | omega
  | textMode =>
      unfold TextMode.ofInt? at hvalue
      split at hvalue <;> first | contradiction | omega

theorem bind_integer?_real_iff (h : IsCoded p name code?) {value : p.Value} :
    ((Operand.real x).integer?.map Int64.toInt).bind code? = some value ↔
      ∃ n, StandsFor x n ∧ code? n = some value := by
  rw [Option.bind_eq_some_iff]
  refine exists_congr fun n => and_congr_left fun hvalue => ?_
  have hbounds := h.bounds hvalue
  exact Operand.toInt_integer?_real_iff (by omega) (by omega)

theorem ofValue?_eq (h : IsCoded p name code?) {key : String} (hkey : p.key? = some key)
    (value : Operand) : p.ofValue? value = (value.integer?.map Int64.toInt).bind code? := by
  cases h with
  | lineCap => rfl
  | lineJoin => rfl
  | textMode => contradiction

end IsCoded

namespace ColorSpace

variable {entries : Dictionary} {items : List Operand} {space : ColorSpace}

theorem profileComponents?_eq_some_iff {profile : Option Operand} {count : Nat} :
    profileComponents? profile = some count ↔ count ∈ [1, 3, 4] ∧
      ((((profile.bind Operand.dictionary?).bind fun entries =>
        (Dictionary.get? entries "N").bind Operand.integer?).map Int64.toInt).getD 3) = count := by
  unfold profileComponents?
  dsimp only
  split <;> simp_all <;> omega

theorem profileComponents?_real_iff (hcount : Dictionary.get? entries "N" = some (.real x))
    {count : Nat} : profileComponents? (some (.dictionary entries)) = some count ↔
      count ∈ [1, 3, 4] ∧ (StandsFor x count ∨ count = 3 ∧ ∀ n, ¬StandsFor x n) := by
  rw [profileComponents?_eq_some_iff]
  refine and_congr_right fun hmem => ?_
  have hbounds : (-2 ^ 63 : Int) < count ∧ (count : Int) < 2 ^ 63 - 1 := by
    simp only [List.mem_cons, List.not_mem_nil, or_false] at hmem
    omega
  simp only [Option.bind_some, Operand.dictionary?, hcount]
  rw [← Operand.toInt_integer?_real_iff hbounds.1 hbounds.2, ← Operand.integer?_real_eq_none_iff]
  cases (Operand.real x).integer? with
  | none =>
      simp
      omega
  | some i => simp

theorem ofOperand?_profile_iff (hcount : Dictionary.get? entries "N" = some (.real x)) :
    ofOperand? (.array (.name "ICCBased" :: .dictionary entries :: items)) = some space ↔
      ∃ count ∈ [1, 3, 4], space = .cieBased "ICCBased" count ∧
        (StandsFor x count ∨ count = 3 ∧ ∀ n, ¬StandsFor x n) := by
  have hspace : ofOperand? (.array (.name "ICCBased" :: .dictionary entries :: items)) =
      (profileComponents? (some (.dictionary entries))).map (.cieBased "ICCBased") := by
    simp [ofOperand?, ofArray?, Operand.name?]
  rw [hspace, Option.map_eq_some_iff]
  simp only [profileComponents?_real_iff hcount]
  constructor
  · rintro ⟨count, ⟨hmem, hvalue⟩, rfl⟩
    exact ⟨count, hmem, rfl, hvalue⟩
  · rintro ⟨count, hmem, rfl, hvalue⟩
    exact ⟨count, ⟨hmem, hvalue⟩, rfl⟩

theorem lastIndex?_real_iff {last : UInt32} :
    lastIndex? (.real x) = some last ↔ StandsFor x last.toNat := by
  have hlast := last.toNat_lt
  rw [← Operand.toInt_integer?_real_iff (by omega) (by omega)]
  unfold lastIndex?
  cases (Operand.real x).integer? with
  | none => simp
  | some i =>
      have hsize : (UInt32.size : Int) = 2 ^ 32 := rfl
      simp only [Option.bind_eq_bind, Option.bind_some, Option.map_some, Option.some.injEq,
        Bool.and_eq_true, decide_eq_true_eq]
      split
      next hrange =>
        rw [Option.some.injEq, ← UInt32.toNat_inj, UInt32.toNat_ofNat_of_lt' (by omega)]
        omega
      next hrange =>
        simp
        omega

theorem ofOperand?_indexed_iff {family : String} (hfamily : family ∈ ["Indexed", "I"])
    {base : Operand} : ofOperand? (.array (.name family :: base :: .real x :: items)) = some space ↔
      ∃ under last, ofOperand? base = some under ∧ StandsFor x (UInt32.toNat last) ∧
        space = .indexed under last := by
  have hspace : ofOperand? (.array (.name family :: base :: .real x :: items)) =
      (ofOperand? base).bind fun under => (lastIndex? (.real x)).map (.indexed under) := by
    simp only [List.mem_cons, List.not_mem_nil, or_false] at hfamily
    rcases hfamily with rfl | rfl <;>
      simp [ofOperand?, ofArray?, ofBase?, Operand.name?, Option.map_eq_bind]
  rw [hspace, Option.bind_eq_some_iff]
  simp only [Option.map_eq_some_iff, lastIndex?_real_iff]
  constructor
  · rintro ⟨under, hunder, last, hlast, rfl⟩
    exact ⟨under, last, hunder, hlast, rfl⟩
  · rintro ⟨under, last, hunder, hlast, rfl⟩
    exact ⟨under, hunder, last, hlast, rfl⟩

end ColorSpace

/-! ## Steps -/

namespace Environment

variable {env : Environment} {state next : PageState} {others : List Operand}

private theorem step_painting_iff (hbare : env.overrides = []) {name : String} {shape : Shape}
    {update : GraphicsState → Arguments → Except Error GraphicsState}
    (hfound : Operator.builtIn? name = some (Operator.painting name shape update))
    (operands : List Operand) : env.Step state ⟨name, operands⟩ next ↔
      ∃ graphics, update state.graphics ⟨name, operands⟩ = .ok graphics ∧
        next = state.withGraphics graphics := by
  rw [step_updating_iff hbare hfound, Result.map_eq_ok]
  simp only [eq_comm]

private theorem step_styled_iff (hbare : env.overrides = []) {p : Parameter} {name : String}
    {code? : Int → Option p.Value} (hcoded : IsCoded p name code?) {shape : Shape}
    {update : GraphicsState → Arguments → Except Error GraphicsState}
    (hfound : Operator.builtIn? name = some (Operator.painting name shape update))
    (hupdate : ∀ graphics args, (update graphics args).toOption =
      (args.integer 0).toOption.bind fun code => (code? code.toInt).map (p.set graphics)) :
    env.Step state ⟨name, .real x :: others⟩ next ↔
      ∃ n value, StandsFor x n ∧ code? n = some value ∧
        next = state.withGraphics (p.set state.graphics value) := by
  have hok : ∀ graphics, update state.graphics ⟨name, .real x :: others⟩ = .ok graphics ↔
      ∃ value, ((Operand.real x).integer?.map Int64.toInt).bind code? = some value ∧
        p.set state.graphics value = graphics := by
    intro graphics
    have hvalue := hupdate state.graphics ⟨name, .real x :: others⟩
    rw [Arguments.integer, Arguments.toOption_get] at hvalue
    change _ = ((Operand.real x).integer?).bind _ at hvalue
    rw [← Result.toOption_eq_some_iff, hvalue]
    cases (Operand.real x).integer? <;> simp
  rw [step_painting_iff hbare hfound]
  simp only [hok, hcoded.bind_integer?_real_iff]
  constructor
  · rintro ⟨_, ⟨value, ⟨n, hn, hvalue⟩, rfl⟩, rfl⟩
    exact ⟨n, value, hn, hvalue, rfl⟩
  · rintro ⟨n, value, hn, hvalue, rfl⟩
    exact ⟨_, ⟨value, ⟨n, hn, hvalue⟩, rfl⟩, rfl⟩

theorem step_coded_iff (hbare : env.overrides = []) {p : Parameter} {name : String}
    {code? : Int → Option p.Value} (h : IsCoded p name code?) :
    env.Step state ⟨name, .real x :: others⟩ next ↔
      ∃ n value, StandsFor x n ∧ code? n = some value ∧
        next = state.withGraphics (p.set state.graphics value) := by
  cases h with
  | lineCap =>
      refine step_styled_iff hbare .lineCap rfl fun graphics args => ?_
      rw [Result.toOption_bind]
      congr 1
      funext code
      cases LineCap.ofInt? code.toInt <;> rfl
  | lineJoin =>
      refine step_styled_iff hbare .lineJoin rfl fun graphics args => ?_
      rw [Result.toOption_bind]
      congr 1
      funext code
      cases LineJoin.ofInt? code.toInt <;> rfl
  | textMode =>
      refine step_styled_iff hbare .textMode rfl fun graphics args => ?_
      rw [Result.toOption_bind]
      congr 1
      funext code
      cases TextMode.ofInt? code.toInt <;> rfl

theorem get_of_step_parameters (hbare : env.overrides = []) {p : Parameter} {name : String}
    {code? : Int → Option p.Value} (h : IsCoded p name code?) {key text : String}
    (hkey : p.key? = some key) {entries : Dictionary}
    (hentries : env.resources.parameters text = .ok entries)
    (hnodup : (Dictionary.keys entries).Nodup)
    (hvalue : Dictionary.get? entries key = some (.real x))
    (hstep : env.Step state ⟨"gs", .name text :: others⟩ next) :
    ∃ n, StandsFor x n ∧ code? n = some (p.get next.graphics) := by
  have hfound : p.dictionaryValue? env.resources ⟨"gs", .name text :: others⟩ = some (.real x) := by
    simp [Parameter.dictionaryValue?, Operand.name?, hentries, Except.toOption, hkey,
      Dictionary.get?_reverse hnodup, hvalue]
  have hset : p.IsSetBy env.resources ⟨"gs", .name text :: others⟩ :=
    .inr ⟨rfl, by simp [hfound]⟩
  have hwritten := (hstep.follows hbare (by simp) p).written hset
  rw [Parameter.written?, if_pos rfl, hfound, Option.bind_some, h.ofValue?_eq hkey] at hwritten
  exact h.bind_integer?_real_iff.1 hwritten

theorem step_beginMarkedContent_iff (hbare : env.overrides = []) {tag : String}
    {entries : Dictionary} :
    env.Step state ⟨"BDC", .name tag :: .dictionary entries :: others⟩ next ↔
      next = Operator.openSequence state tag
        ((Dictionary.get? entries "MCID").bind Operand.integer?) := by
  rw [step_updating_iff hbare rfl]
  change Except.ok _ = Except.ok next ↔ _
  rw [Except.ok.injEq, eq_comm]

/--
A real that is given as an integer stands for the integer that is used.  Styles, also in
dictionaries of parameters, component counts and last indices of color spaces are taken from
a real only if it is an integer that is in their range.  Such an integer is the one that
counts, and others are rejected; a component count that is no integer is taken as absent.
An identifier of marked content is the integer that the real is, if there is one and it has
64 bits; past the range it is the end of the range.
-/
theorem integers_of_reals (resources : Resources) (state : PageState) (x : Float)
    (others : List Operand) :
    (∀ {p : Parameter} {name : String} {code? : Int → Option p.Value}, IsCoded p name code? →
      (∀ next, (⟨resources, []⟩ : Environment).Step state ⟨name, .real x :: others⟩ next ↔
        ∃ n value, StandsFor x n ∧ code? n = some value ∧
          next = state.withGraphics (p.set state.graphics value)) ∧
      ∀ key text entries, p.key? = some key → resources.parameters text = .ok entries →
        (Dictionary.keys entries).Nodup → Dictionary.get? entries key = some (.real x) →
          ∀ next, (⟨resources, []⟩ : Environment).Step state ⟨"gs", .name text :: others⟩ next →
            ∃ n, StandsFor x n ∧ code? n = some (p.get next.graphics)) ∧
    (∀ entries space, Dictionary.get? entries "N" = some (.real x) →
      (ColorSpace.ofOperand? (.array (.name "ICCBased" :: .dictionary entries :: others)) =
          some space ↔
        ∃ count ∈ [1, 3, 4], space = .cieBased "ICCBased" count ∧
          (StandsFor x count ∨ count = 3 ∧ ∀ n, ¬StandsFor x n))) ∧
    (∀ family ∈ ["Indexed", "I"], ∀ base space,
      ColorSpace.ofOperand? (.array (.name family :: base :: .real x :: others)) = some space ↔
        ∃ under last, ColorSpace.ofOperand? base = some under ∧
          StandsFor x (UInt32.toNat last) ∧ space = .indexed under last) ∧
    ∀ tag entries, Dictionary.get? entries "MCID" = some (.real x) →
      ∃ identifier : Option Int64,
        (∀ next, (⟨resources, []⟩ : Environment).Step state
            ⟨"BDC", .name tag :: .dictionary entries :: others⟩ next ↔
          next = Operator.openSequence state tag identifier) ∧
        (identifier = none ↔ ∀ n, ¬StandsFor x n) ∧
        ∀ n, StandsFor x n →
          (-2 ^ 63 ≤ n → n < 2 ^ 63 → identifier.map Int64.toInt = some n) ∧
          (2 ^ 63 ≤ n → identifier = some Int64.maxValue) ∧
          (n < -2 ^ 63 → identifier = some Int64.minValue) := by
  refine ⟨fun hcoded => ⟨fun next => step_coded_iff rfl hcoded, ?_⟩,
    fun entries space => ColorSpace.ofOperand?_profile_iff,
    fun family hfamily base space => ColorSpace.ofOperand?_indexed_iff hfamily,
    fun tag entries hidentifier => ⟨(Operand.real x).integer?, fun next => ?_,
      Operand.integer?_real_eq_none_iff, fun n hn => ?_⟩⟩
  · intro key text entries hkey hentries hnodup hvalue next
    exact get_of_step_parameters rfl hcoded hkey hentries hnodup hvalue
  · rw [step_beginMarkedContent_iff rfl, hidentifier, Option.bind_some]
  · rw [Operand.integer?_real_eq_some_iff.2 ⟨n, hn, rfl⟩]
    simp only [Option.map_some, Option.some.injEq, ← Int64.toInt_inj, toInt_ofIntClamp,
      Int64.toInt_maxValue, Int64.toInt_minValue]
    omega

theorem integers_of_reals_two :
    let x := Binary.ofInt 2
    let resources : Resources :=
      ⟨[("ExtGState", .dictionary [("G0", .dictionary [("LJ", .real x)])])]⟩
    let env : Environment := ⟨resources, []⟩
    env.Step .initial ⟨"J", [.real x]⟩
        (PageState.initial.withGraphics { lineCap := .projectingSquare }) ∧
      (∀ next, env.Step .initial ⟨"gs", [.name "G0"]⟩ next → next.graphics.lineJoin = .bevel) ∧
      ColorSpace.ofOperand? (.array [.name "ICCBased", .dictionary [("N", .real x)]]) = none ∧
      ColorSpace.ofOperand? (.array [.name "I", .name "G", .real x]) =
        some (.indexed .deviceGray 2) ∧
      env.Step .initial ⟨"BDC", [.name "Span", .dictionary [("MCID", .real x)]]⟩
        (Operator.openSequence .initial "Span" (some 2)) := by
  intro x resources env
  have htwo : StandsFor x 2 := Binary.toInt?_eq_some_iff.1 (by decide +kernel)
  obtain ⟨hcoded, hprofile, hindexed, hmarked⟩ :=
    integers_of_reals resources PageState.initial x []
  refine ⟨((hcoded .lineCap).1 _).2 ⟨2, .projectingSquare, htwo, rfl, rfl⟩, fun next hnext => ?_,
    ?_, (hindexed "I" (by decide) _ _).2 ⟨.deviceGray, 2, by decide, htwo, rfl⟩, ?_⟩
  · obtain ⟨n, hn, hjoin⟩ := (hcoded .lineJoin).2 "LJ" "G0" _ rfl rfl (by decide) rfl next hnext
    obtain rfl := hn.unique htwo
    exact (Option.some.inj hjoin).symm
  · refine Option.eq_none_iff_forall_ne_some.2 fun space hspace => ?_
    obtain ⟨count, hmem, -, hcount | ⟨-, hnone⟩⟩ := (hprofile _ space rfl).1 hspace
    · obtain rfl : count = 2 := by exact_mod_cast hcount.unique htwo
      contradiction
    · exact hnone 2 htwo
  · obtain ⟨identifier, hstep, -, hvalue⟩ := hmarked "Span" [("MCID", .real x)] rfl
    have hidentifier := (hvalue 2 htwo).1 (by decide) (by decide)
    obtain ⟨i, rfl, hi⟩ := Option.map_eq_some_iff.1 hidentifier
    obtain rfl : i = 2 := Int64.toInt_inj.1 hi
    exact (hstep _).2 rfl

theorem identifier_past_range :
    StandsFor (Binary.ofInt (2 ^ 63)) (2 ^ 63) ∧ Int64.maxValue.toInt ≠ 2 ^ 63 ∧
      (⟨.empty, []⟩ : Environment).Step .initial
        ⟨"BDC", [.name "Span", .dictionary [("MCID", .real (Binary.ofInt (2 ^ 63)))]]⟩
        (Operator.openSequence .initial "Span" (some Int64.maxValue)) := by
  refine ⟨Binary.toInt?_eq_some_iff.1 (by decide +kernel), by decide, ?_⟩
  exact (step_beginMarkedContent_iff rfl).2 (by decide +kernel)

end Environment

end ContentStream
