import ContentStream.Operator.StandIn
import ContentStream.Proofs.Interpreter.Levels
import ContentStream.Proofs.Operation.Arguments

/-!
# Shorthand

Four built-in operators stand for operations of other operators.  Whatever is installed,
an operation of such an operator does what its expansion does, and operators that are
installed take part in this as they do anywhere.  So expansions can take the place of
shorthand wherever it stands in a stream.
-/

namespace ContentStream

open Operator in
/-- What an operation stands for while the leading is as given; `none` if its operator stands
for nothing else, or if an operand is missing or mistyped. -/
def Operation.expansion? (leading : Float) : Operation → Option (List Operation)
  | ⟨"TD", x :: y :: _⟩ =>
    if x.isNumber && y.isNumber then some [⟨"TL", [negate y]⟩, ⟨"Td", [x, y]⟩] else none
  | ⟨"T*", _⟩ => some [⟨"Td", [.integer 0, .real (-leading)]⟩]
  | ⟨"'", text :: _⟩ =>
    if text.string?.isSome then some [⟨"T*", []⟩, ⟨"Tj", [text]⟩] else none
  | ⟨"\"", word :: character :: text :: _⟩ =>
    if word.isNumber && character.isNumber && text.string?.isSome then
      some [⟨"Tw", [word]⟩, ⟨"Tc", [character]⟩, ⟨"'", [text]⟩]
    else none
  | _ => none

/-- The second number is the first with the other sign; only the least integer is the opposite
of a real. -/
def Operand.Opposite : Operand → Operand → Prop
  | .integer i, .integer j => j.toInt = -i.toInt
  | .integer i, .real y => i = Int64.minValue ∧ y = Binary.ofInt (-i.toInt)
  | .real x, .real y => y = -x
  | _, _ => False

private theorem toInt_neg_of_ne {i : Int64} (h : i ≠ Int64.minValue) :
    (-i).toInt = -i.toInt := by
  have hleast : i.toInt ≠ Int64.minValue.toInt := fun heq => h (Int64.toInt_inj.1 heq)
  rw [Int64.toInt_minValue] at hleast
  have hle := i.le_toInt
  have hlt := i.toInt_lt
  rw [Int64.toInt_neg]
  exact Int.bmod_eq_of_le (by omega) (by omega)

theorem Operand.opposite_negate {value : Operand} (h : value.isNumber = true) :
    value.Opposite (Operator.negate value) := by
  cases value with
  | integer i =>
      by_cases hleast : i = Int64.minValue
      · subst hleast
        exact ⟨rfl, by decide⟩
      · have hnegate : Operator.negate (.integer i) = .integer (-i) := if_neg hleast
        rw [hnegate]
        exact toInt_neg_of_ne hleast
  | real x => rfl
  | _ => contradiction

namespace Operator

def shorthandNames : List String := ["TD", "T*", "'", "\""]

def RepliesExpansion (operator : Operator) (resources : Resources) (state : PageState)
    (operands : List Operand) : Prop :=
  match Operation.expansion? state.graphics.text.leading ⟨operator.name, operands⟩ with
  | some operations => operator.action resources state operands = .expands operations
  | none => ∃ fault, operator.action resources state operands =
      .failed state (.invalidOperand operator.name fault)

section Replies

variable (resources : Resources) (state : PageState)

private theorem repliesExpansion_moveTextWithLeading :
    ∀ operands, moveTextWithLeading.RepliesExpansion resources state operands
  | [] => ⟨.missing 0, rfl⟩
  | [x] => by
      show ∃ fault, moveTextWithLeading.action resources state [x] =
        .failed state (.invalidOperand "TD" fault)
      cases hx : x.isNumber <;>
        simp [moveTextWithLeading, expanding, Arguments.numeric, Arguments.get_eq,
          Arguments.fail, hx, bind, Except.bind]
  | x :: y :: others => by
      unfold RepliesExpansion
      cases hx : x.isNumber <;> cases hy : y.isNumber <;>
        simp [Operation.expansion?, moveTextWithLeading, expanding, Arguments.numeric,
          Arguments.get_eq, Arguments.fail, hx, hy, bind, Except.bind, pure, Except.pure]

private theorem repliesExpansion_nextLineShowText :
    ∀ operands, nextLineShowText.RepliesExpansion resources state operands
  | [] => ⟨.missing 0, rfl⟩
  | text :: others => by
      unfold RepliesExpansion
      cases htext : text.string? <;>
        simp [Operation.expansion?, nextLineShowText, expanding, Arguments.string,
          Arguments.get_eq, Arguments.fail, htext, bind, Except.bind, pure, Except.pure]

private theorem repliesExpansion_spacedNextLineShowText :
    ∀ operands, spacedNextLineShowText.RepliesExpansion resources state operands
  | [] => ⟨.missing 0, rfl⟩
  | [word] => by
      show ∃ fault, spacedNextLineShowText.action resources state [word] =
        .failed state (.invalidOperand "\"" fault)
      cases hword : word.isNumber <;>
        simp [spacedNextLineShowText, expanding, Arguments.numeric, Arguments.get_eq,
          Arguments.fail, hword, bind, Except.bind]
  | [word, character] => by
      show ∃ fault, spacedNextLineShowText.action resources state [word, character] =
        .failed state (.invalidOperand "\"" fault)
      cases hword : word.isNumber <;> cases hcharacter : character.isNumber <;>
        simp [spacedNextLineShowText, expanding, Arguments.numeric, Arguments.string,
          Arguments.get_eq, Arguments.fail, hword, hcharacter, bind, Except.bind]
  | word :: character :: text :: others => by
      unfold RepliesExpansion
      cases hword : word.isNumber <;> cases hcharacter : character.isNumber <;>
        cases htext : text.string? <;>
          simp [Operation.expansion?, spacedNextLineShowText, expanding, Arguments.numeric,
            Arguments.string, Arguments.get_eq, Arguments.fail, hword, hcharacter, htext, bind,
            Except.bind, pure, Except.pure]

theorem exists_repliesExpansion {name : String} (h : name ∈ shorthandNames) :
    ∃ operator, builtIn? name = some operator ∧ operator.name = name ∧
      ∀ resources state operands, operator.RepliesExpansion resources state operands := by
  simp only [shorthandNames, List.mem_cons, List.not_mem_nil, or_false] at h
  rcases h with rfl | rfl | rfl | rfl
  · exact ⟨moveTextWithLeading, rfl, rfl, repliesExpansion_moveTextWithLeading⟩
  · exact ⟨nextLine, rfl, rfl, fun _ _ _ => rfl⟩
  · exact ⟨nextLineShowText, rfl, rfl, repliesExpansion_nextLineShowText⟩
  · exact ⟨spacedNextLineShowText, rfl, rfl, repliesExpansion_spacedNextLineShowText⟩

end Replies

end Operator

def Notice.isBuiltInCall : Notice → Bool
  | .called _ builtIn => builtIn
  | _ => false

namespace Outcome

/-- The outcome without the notices that a built-in operator has been called. -/
def seen (outcome : Outcome) : Outcome :=
  { outcome with notices := outcome.notices.filter fun notice => !notice.isBuiltInCall }

variable {first last outcome : Outcome} {next next' : Outcome → Prop} {notices : List Notice}

theorem seen_noting : (last.noting first.notices).seen = last.seen.noting first.seen.notices := by
  simp [seen, noting]

theorem seen_noting_builtIn (operation : Operation) :
    (outcome.noting [.called operation true]).seen = outcome.seen := by
  simp [seen, noting, Notice.isBuiltInCall]

theorem Continued.congr (h : first.failure = none → ∀ last, next last ↔ next' last) :
    first.Continued next outcome ↔ first.Continued next' outcome := by
  unfold Continued
  refine or_congr_right (and_congr_right fun hfirst => ?_)
  simp only [h hfirst]

theorem continued_noting :
    (first.noting notices).Continued next outcome ↔
      ∃ rest, first.Continued next rest ∧ outcome = rest.noting notices := by
  constructor
  · rintro (⟨hfailed, rfl⟩ | ⟨hfirst, last, hlast, rfl⟩)
    · exact ⟨first, .inl ⟨hfailed, rfl⟩, rfl⟩
    · exact ⟨_, .inr ⟨hfirst, last, hlast, rfl⟩, (noting_noting _ _ _).symm⟩
  · rintro ⟨rest, ⟨hfailed, rfl⟩ | ⟨hfirst, last, hlast, rfl⟩, rfl⟩
    · exact .inl ⟨hfailed, rfl⟩
    · exact .inr ⟨hfirst, last, hlast, noting_noting _ _ _⟩

end Outcome

namespace Environment

variable {env : Environment} {state : PageState} {operation : Operation}
  {operations others : List Operation} {outcome : Outcome}

def Shows (env : Environment) (state : PageState) (operations : List Operation)
    (seen : Outcome) : Prop :=
  ∃ outcome, env.Runs state operations outcome ∧ seen = outcome.seen

theorem shows_cons {seen : Outcome} : env.Shows state (operation :: operations) seen ↔
    ∃ first, env.Invokes state operation first ∧
      first.seen.Continued ((env.after first).Shows first.state operations) seen := by
  unfold Shows
  simp only [runs_cons]
  constructor
  · rintro ⟨outcome, ⟨first, hfirst, ⟨hfailed, rfl⟩ | ⟨hnone, last, hlast, rfl⟩⟩, rfl⟩
    · exact ⟨outcome, hfirst, .inl ⟨hfailed, rfl⟩⟩
    · exact ⟨first, hfirst, .inr ⟨hnone, last.seen, ⟨last, hlast, rfl⟩, Outcome.seen_noting⟩⟩
  · rintro ⟨first, hfirst, ⟨hfailed, rfl⟩ | ⟨hnone, _, ⟨last, hlast, rfl⟩, rfl⟩⟩
    · exact ⟨first, ⟨first, hfirst, .inl ⟨hfailed, rfl⟩⟩, rfl⟩
    · exact ⟨_, ⟨first, hfirst, .inr ⟨hnone, last, hlast, rfl⟩⟩, Outcome.seen_noting.symm⟩

private theorem exists_operator (hname : operation.name ∈ Operator.shorthandNames)
    (hfree : env.override? operation.name = none) :
    ∃ operator, env.operator? operation.name = some operator ∧
      operator.name = operation.name ∧
      operator.RepliesExpansion env.resources state operation.operands := by
  obtain ⟨operator, hbuiltIn, hself, hreplies⟩ := Operator.exists_repliesExpansion hname
  refine ⟨operator, ?_, hself, hreplies env.resources state operation.operands⟩
  rw [operator?, hfree, hbuiltIn]
  rfl

theorem invokes_of_expansion? {expansion : List Operation}
    (hname : operation.name ∈ Operator.shorthandNames)
    (hfree : env.override? operation.name = none)
    (hexpansion : operation.expansion? state.graphics.text.leading = some expansion) :
    env.Invokes state operation outcome ↔
      ∃ rest, env.Runs state expansion rest ∧
        outcome = rest.noting [.called operation true] := by
  obtain ⟨operator, hfound, hself, hreply⟩ := exists_operator hname hfree
  rw [Operator.RepliesExpansion, hself, hexpansion] at hreply
  rw [invokes_iff hfound, hreply, hfree]
  constructor
  · rintro ⟨levels, rest, hrest, rfl⟩
    exact ⟨rest, ⟨levels, hrest⟩, rfl⟩
  · rintro ⟨rest, ⟨levels, hrest⟩, rfl⟩
    exact ⟨levels, rest, hrest, rfl⟩

theorem invokes_of_expansion?_none (hname : operation.name ∈ Operator.shorthandNames)
    (hfree : env.override? operation.name = none)
    (hexpansion : operation.expansion? state.graphics.text.leading = none) :
    ∃ fault, ∀ outcome, env.Invokes state operation outcome ↔
      outcome = ⟨state, env.overrides, [.called operation true],
        some (.invalidOperand operation.name fault)⟩ := by
  obtain ⟨operator, hfound, hself, hreply⟩ := exists_operator hname hfree
  rw [Operator.RepliesExpansion, hself, hexpansion] at hreply
  obtain ⟨fault, hreply⟩ := hreply
  refine ⟨fault, fun outcome => ?_⟩
  rw [invokes_iff hfound, hreply, hfree]
  constructor
  · rintro ⟨levels, rest, hrest, rfl⟩
    obtain rfl := Option.some.inj hrest
    rfl
  · rintro rfl
    exact ⟨0, _, rfl, rfl⟩

/-! ## Streams -/

/-- The second list comes from the first by putting expansions in the place of shorthand that
is not overridden when its turn comes, each with the leading of that moment. -/
inductive Unfolds : Environment → PageState → List Operation → List Operation → Prop where
  | nil {env : Environment} {state : PageState} : Unfolds env state [] []
  | keep {env : Environment} {state : PageState} {operation : Operation}
      {operations others : List Operation}
      (h : ∀ first, env.Invokes state operation first → first.failure = none →
        Unfolds (env.after first) first.state operations others) :
      Unfolds env state (operation :: operations) (operation :: others)
  | expand {env : Environment} {state : PageState} {operation : Operation}
      {operations others expansion : List Operation}
      (hname : operation.name ∈ Operator.shorthandNames)
      (hfree : env.override? operation.name = none)
      (hexpansion : operation.expansion? state.graphics.text.leading = some expansion)
      (h : Unfolds env state (expansion ++ operations) others) :
      Unfolds env state (operation :: operations) others

theorem Unfolds.refl (env : Environment) (state : PageState) (operations : List Operation) :
    env.Unfolds state operations operations := by
  induction operations generalizing env state with
  | nil => exact .nil
  | cons operation operations ih => exact .keep fun first _ _ => ih _ _

private theorem shows_expansion {expansion : List Operation}
    (hname : operation.name ∈ Operator.shorthandNames)
    (hfree : env.override? operation.name = none)
    (hexpansion : operation.expansion? state.graphics.text.leading = some expansion)
    (seen : Outcome) :
    env.Shows state (operation :: operations) seen ↔
      env.Shows state (expansion ++ operations) seen := by
  have hruns (outcome : Outcome) : env.Runs state (operation :: operations) outcome ↔
      ∃ rest, env.Runs state (expansion ++ operations) rest ∧
        outcome = rest.noting [.called operation true] := by
    simp only [runs_cons, runs_append, invokes_of_expansion? hname hfree hexpansion]
    constructor
    · rintro ⟨_, ⟨first, hfirst, rfl⟩, houtcome⟩
      obtain ⟨rest, hrest, rfl⟩ := Outcome.continued_noting.1 houtcome
      exact ⟨rest, ⟨first, hfirst, hrest⟩, rfl⟩
    · rintro ⟨rest, ⟨first, hfirst, hrest⟩, rfl⟩
      exact ⟨_, ⟨first, hfirst, rfl⟩, Outcome.continued_noting.2 ⟨rest, hrest, rfl⟩⟩
  unfold Shows
  simp only [hruns]
  constructor
  · rintro ⟨_, ⟨rest, hrest, rfl⟩, rfl⟩
    exact ⟨rest, hrest, Outcome.seen_noting_builtIn operation⟩
  · rintro ⟨rest, hrest, rfl⟩
    exact ⟨_, ⟨rest, hrest, rfl⟩, (Outcome.seen_noting_builtIn operation).symm⟩

theorem Unfolds.shows_iff (h : env.Unfolds state operations others) (seen : Outcome) :
    env.Shows state operations seen ↔ env.Shows state others seen := by
  induction h generalizing seen with
  | nil => rfl
  | keep h ih =>
      rw [shows_cons, shows_cons]
      refine exists_congr fun first => and_congr_right fun hfirst => ?_
      exact Outcome.Continued.congr (ih first hfirst)
  | expand hname hfree hexpansion h ih =>
      rw [shows_expansion hname hfree hexpansion]
      exact ih seen

theorem Unfolds.seen_run (h : env.Unfolds state operations others)
    (hends : ∀ name, (env.run state operations).failure ≠ some (.endlessCall name))
    (hends' : ∀ name, (env.run state others).failure ≠ some (.endlessCall name)) :
    (env.run state others).seen = (env.run state operations).seen := by
  obtain ⟨outcome, hruns, hseen⟩ := (h.shows_iff _).1 ⟨_, runs_run hends, rfl⟩
  rw [hseen, (runs_run hends').unique hruns]

/--
Whatever is installed, an operation of shorthand that is not overridden does what its
expansion does, with the leading as it is, apart from the notice of its own call; so the
same operators are called, and where one of them fails, its failure and the effects before
it stay.  If an operand is missing or mistyped, the operation fails in its own name and
does nothing else.  Hence streams in which expansions take the place of shorthand look the
same when they are run.  The leading that goes with an offset is its opposite.
-/
theorem invokes_shorthand (env : Environment) (state : PageState) :
    (∀ operation : Operation, operation.name ∈ Operator.shorthandNames →
      env.override? operation.name = none →
      match operation.expansion? state.graphics.text.leading with
      | some expansion => ∀ outcome, env.Invokes state operation outcome ↔
          ∃ rest, env.Runs state expansion rest ∧
            outcome = rest.noting [.called operation true]
      | none => ∃ fault, ∀ outcome, env.Invokes state operation outcome ↔
          outcome = ⟨state, env.overrides, [.called operation true],
            some (.invalidOperand operation.name fault)⟩) ∧
    (∀ operations others, env.Unfolds state operations others →
      (∀ seen, env.Shows state operations seen ↔ env.Shows state others seen) ∧
      ((∀ name, (env.run state operations).failure ≠ some (.endlessCall name)) →
        (∀ name, (env.run state others).failure ≠ some (.endlessCall name)) →
        (env.run state others).seen = (env.run state operations).seen)) ∧
    ∀ value : Operand, value.isNumber = true → value.Opposite (Operator.negate value) := by
  refine ⟨fun operation hname hfree => ?_, fun operations others h => ?_,
    fun value => Operand.opposite_negate⟩
  · cases hexpansion : operation.expansion? state.graphics.text.leading with
    | some expansion => exact fun outcome => invokes_of_expansion? hname hfree hexpansion
    | none => exact invokes_of_expansion?_none hname hfree hexpansion
  · exact ⟨h.shows_iff, h.seen_run⟩

def breakingLeading : Operator where
  name := "TL"
  shape := .singleNumeric
  action _ state _ :=
    .installs (Operator.failing "Td" .generic (.unwritable (.refused "boom"))) (.done state [])

theorem invokes_shorthand_breakingLeading :
    let env : Environment := ⟨Resources.empty, [breakingLeading]⟩
    let state := PageState.initial
    let moved : Operation := ⟨"TD", [.integer 1, .integer 2]⟩
    let expansion : List Operation := [⟨"TL", [.integer (-2)]⟩, ⟨"Td", [.integer 1, .integer 2]⟩]
    (∀ outcome, env.Invokes state moved outcome ↔
      ∃ rest, env.Runs state expansion rest ∧ outcome = rest.noting [.called moved true]) ∧
    (∀ seen, env.Shows state [moved] seen ↔ env.Shows state expansion seen) ∧
    (env.run state expansion).seen = (env.run state [moved]).seen ∧
    (Operand.integer 2).Opposite (.integer (-2)) := by
  intro env state moved expansion
  obtain ⟨hsingle, hstreams, hopposite⟩ := invokes_shorthand env state
  have hunfolds : env.Unfolds state [moved] expansion :=
    .expand (by decide) rfl rfl (.refl env state expansion)
  obtain ⟨hshows, hrun⟩ := hstreams [moved] expansion hunfolds
  have hfails : (env.run state [moved]).failure = some (.unwritable (.refused "boom")) := rfl
  have hfails' : (env.run state expansion).failure = some (.unwritable (.refused "boom")) := rfl
  refine ⟨hsingle moved (by decide) rfl, hshows, hrun ?_ ?_, hopposite (.integer 2) rfl⟩
  · simp [hfails]
  · simp [hfails']

end Environment

end ContentStream
