import ContentStream.Proofs.Cursor.Stream
import ContentStream.Proofs.Interpreter.BuiltIn
import ContentStream.Proofs.Interpreter.Dispatch
import ContentStream.Proofs.Interpreter.Simulation
import ContentStream.Proofs.Operator.Checked

/-!
# Nothing panics

Streams are read, their operations are run by the built-in operators, and operations are written,
each with the checks of indices, slices, counters, bounds and displayed operands.  Whatever the
bytes, the resources, the state and the operands are, the checked computations come to the same
as those without checks: a result or an error.
-/

namespace ContentStream

theorem Operation.name_ne_of_expansion? {leading : Float} {operation : Operation}
    {operations : List Operation} (h : operation.expansion? leading = some operations) :
    ∀ other ∈ operations, other.name ≠ "BX" := by
  intro other hother hname
  have hnone : ∀ entry ∈ Operator.calls, "BX" ∉ entry.2 := by simp [Operator.calls]
  exact hnone _ (names_mem_calls h) (hname ▸ List.mem_map_of_mem hother)

namespace Environment

variable {env : Environment}

theorem depth_invoke_le (hbare : env.overrides = []) (state : PageState) (operation : Operation) :
    (env.invoke state operation).state.compatibilityDepth ≤ state.compatibilityDepth + 1 := by
  obtain ⟨changes, hfit, heffect⟩ := exists_changes hbare operation.name
  obtain ⟨hstate, -⟩ := Prod.mk.inj (heffect state operation.operands)
  rw [hstate]
  cases hchange : changes state.graphics operation.operands with
  | error error => exact Nat.le_succ _
  | ok change =>
      have hdepth : (change.apply state).compatibilityDepth =
          depthAfter state.compatibilityDepth operation := (hfit.fits hchange).depth _
      show (change.apply state).compatibilityDepth ≤ _
      rw [hdepth, depthAfter]
      split
      · exact Nat.le_refl _
      split <;> omega

theorem depth_run_le (hbare : env.overrides = []) (state : PageState)
    (operations : List Operation) : (env.run state operations).state.compatibilityDepth ≤
      state.compatibilityDepth + operations.length := by
  induction operations generalizing state with
  | nil => exact Nat.le_refl _
  | cons operation operations ih =>
      have hfirst := depth_invoke_le hbare state operation
      have hothers := ih (env.invoke state operation).state
      rw [run, after_invoke hbare, List.length_cons]
      cases (env.invoke state operation).failure with
      | some error =>
          dsimp only
          omega
      | none =>
          rw [Outcome.state_noting]
          omega

end Environment

namespace Checked

def runWith (invoke : PageState → Operation → Checked Outcome) :
    PageState → List Operation → Checked Outcome
  | state, [] => .gives ⟨state, [], [], none⟩
  | state, operation :: operations => do
    let first ← invoke state operation
    match first.failure with
    | some _ => return first
    | none => do
      let last ← runWith invoke first.state operations
      return last.noting first.notices

def follow (invoke : PageState → Operation → Checked Outcome) (state : PageState) :
    Reply Operator → Checked Outcome
  | .done next notices => .gives ⟨next, [], notices, none⟩
  | .failed next error => .gives ⟨next, [], [], some error⟩
  | .expands operations => runWith invoke state operations
  | _ => .panics

def invoke (resources : Resources) : (levels : Nat) → PageState → Operation → Checked Outcome
  | 0, _, _ => .panics
  | levels + 1, state, operation =>
    match Operator.builtIn? operation.name with
    | none =>
      let notices :=
        if state.compatibilityDepth = 0 then [Notice.unknownOperator operation.name] else []
      .gives ⟨state, [], notices, none⟩
    | some operator => do
      let reply ← act operator resources state operation.operands
      let outcome ← follow (invoke resources levels) state reply
      return outcome.noting [Notice.called operation true]

def run (resources : Resources) : PageState → List Operation → Checked Outcome :=
  runWith (invoke resources 4)

def HasRoom (state : PageState) (operation : Operation) : Prop :=
  operation.name = "BX" → state.compatibilityDepth + 1 < 2 ^ 64

section Runs

variable {resources : Resources} {levels : Nat} {state : PageState} {outcome : Outcome}

/-- The outcome installs nothing, and the checked computation gives it. -/
def Gives (computation : Checked Outcome) (outcome : Outcome) : Prop :=
  outcome.overrides = [] ∧ computation = .gives outcome

theorem Gives.noting {computation : Checked Outcome} (h : Gives computation outcome)
    (notices : List Notice) : Gives (do
      let outcome ← computation
      return outcome.noting notices) (outcome.noting notices) := by
  obtain ⟨hbare, rfl⟩ := h
  exact ⟨hbare, rfl⟩

private theorem runWith_gives
    (hinvoke : ∀ {state operation outcome}, HasRoom state operation →
      Environment.invokeWithin ⟨resources, []⟩ levels state operation = some outcome →
      Gives (invoke resources levels state operation) outcome)
    {operations : List Operation} (hnames : ∀ operation ∈ operations, operation.name ≠ "BX")
    (h : Environment.runWith (fun env => env.invokeWithin levels) ⟨resources, []⟩ state operations =
      some outcome) :
    Gives (runWith (invoke resources levels) state operations) outcome := by
  induction operations generalizing state outcome with
  | nil =>
      obtain rfl := Option.some.inj h
      exact ⟨rfl, rfl⟩
  | cons operation operations ih =>
      rw [Environment.runWith] at h
      obtain ⟨first, hfirst, h⟩ := Option.bind_eq_some_iff.1 h
      obtain ⟨hbare, hgives⟩ :=
        hinvoke (fun hname => absurd hname (hnames operation (by simp))) hfirst
      rw [runWith, hgives, gives_bind]
      rw [Environment.after_eq_self hbare] at h
      cases hfailed : first.failure with
      | some error =>
          rw [hfailed] at h
          obtain rfl := Option.some.inj h
          exact ⟨hbare, rfl⟩
      | none =>
          rw [hfailed] at h
          obtain ⟨last, hlast, rfl⟩ := Option.map_eq_some_iff.1 h
          exact (ih (fun other hother => hnames other (by simp [hother])) hlast).noting _

private theorem invoke_gives {operation : Operation} (hroom : HasRoom state operation)
    (h : Environment.invokeWithin ⟨resources, []⟩ levels state operation = some outcome) :
    Gives (invoke resources levels state operation) outcome := by
  induction levels generalizing state operation outcome with
  | zero => simp [Environment.invokeWithin] at h
  | succ levels ih =>
      rw [Environment.invokeWithin, Environment.operator?_eq_builtIn? rfl] at h
      rw [invoke]
      cases hfound : Operator.builtIn? operation.name with
      | none =>
          rw [hfound] at h
          obtain rfl := Option.some.inj h
          exact ⟨rfl, rfl⟩
      | some operator =>
          rw [hfound] at h
          obtain ⟨last, hlast, rfl⟩ := Option.map_eq_some_iff.1 h
          dsimp only
          rw [act_eq resources state operation.operands hfound hroom, gives_bind]
          refine Gives.noting ?_ _
          rcases Operator.effect?_or_expansion? hfound resources state operation.operands with
            ⟨effect, heffect⟩ | ⟨operations, hexpands, hexpansion⟩
          · rcases Reply.cases_of_effect? heffect with ⟨notices, hreply, -⟩ | ⟨error, hreply, -⟩
            · rw [hreply] at hlast ⊢
              obtain rfl := Option.some.inj hlast
              exact ⟨rfl, rfl⟩
            · rw [hreply] at hlast ⊢
              obtain rfl := Option.some.inj hlast
              exact ⟨rfl, rfl⟩
          · rw [hexpands] at hlast ⊢
            exact runWith_gives ih (Operation.name_ne_of_expansion? hexpansion) hlast

theorem invoke_eq {operation : Operation} (hroom : HasRoom state operation) :
    invoke resources 4 state operation =
      .gives (Environment.invoke ⟨resources, []⟩ state operation) := by
  have hbare : Environment.OnlyStandsIn ⟨resources, []⟩ := by simp [Environment.OnlyStandsIn]
  obtain ⟨calls, htraced, -⟩ := Environment.within_invoke hbare state operation
  have hwithin := Environment.outcome_invokeTraced ⟨resources, []⟩ 4 state operation
  rw [htraced] at hwithin
  exact (invoke_gives hroom hwithin.symm).2

theorem run_eq {operations : List Operation}
    (hroom : state.compatibilityDepth + operations.length < 2 ^ 64) :
    run resources state operations = .gives (Environment.run ⟨resources, []⟩ state operations) := by
  induction operations generalizing state with
  | nil => rfl
  | cons operation operations ih =>
      rw [List.length_cons] at hroom
      have hbare : (⟨resources, []⟩ : Environment).overrides = [] := rfl
      have hdepth := Environment.depth_invoke_le hbare state operation
      have hinvoke : invoke resources 4 state operation = _ :=
        invoke_eq fun _ => by omega
      rw [run, runWith, hinvoke, gives_bind, Environment.run, Environment.after_invoke hbare]
      cases (Environment.invoke ⟨resources, []⟩ state operation).failure with
      | some error => rfl
      | none =>
          have hothers : runWith (invoke resources 4)
              (Environment.invoke ⟨resources, []⟩ state operation).state operations = _ :=
            ih (by omega)
          dsimp only
          rw [hothers]
          rfl

theorem run_of_ofBytes {source : Bytes} {operations : List Operation}
    (hsource : source.length < 2 ^ 32) (h : Operation.ofBytes source = .ok operations) :
    run resources PageState.initial operations =
      .gives (Environment.run ⟨resources, []⟩ PageState.initial operations) := by
  have hbounded := Operation.bounded_ofBytes source
  rw [h] at hbounded
  have hlength : operations.length ≤ source.length := hbounded
  have hdepth : PageState.initial.compatibilityDepth = 0 := rfl
  exact run_eq (by omega)

end Runs

def display (value : Operand) : Checked Bytes :=
  match value.shown with
  | .ok token => .gives token
  | .error _ => .panics

def writtenNumeric (name : String) (operands : List Operand) : Checked Bytes :=
  match operands with
  | [] => .fails (.invalidOperand name (.missing 0))
  | .real x :: _ =>
    if Binary.isFinite x then do
      let token ← display (.real x)
      return token ++ 0x20 :: Utf8.encode name ++ Shape.lineEnd
    else .fails (.unwritable (.notFinite x))
  | value :: _ =>
    if value.isNumber then do
      let token ← display value
      return token ++ 0x20 :: Utf8.encode name ++ Shape.lineEnd
    else .fails (.invalidOperand name (.notNumeric value.kind))

def written (operation : Operation) : Checked Bytes :=
  match operation.shape with
  | .singleNumeric => writtenNumeric operation.name operation.operands
  | _ => ofExcept (operation.written Operand.written)

theorem writtenNumeric_eq (name : String) (operands : List Operand) :
    writtenNumeric name operands = ofExcept (Shape.writtenNumeric name operands) := by
  cases operands with
  | nil => rfl
  | cons value others =>
      cases value with
      | real x =>
          rw [writtenNumeric, Shape.writtenNumeric, Operand.written]
          cases Binary.isFinite x <;> rfl
      | _ => rfl

theorem written_eq (operation : Operation) :
    written operation = ofExcept (operation.written Operand.written) := by
  unfold written Operation.written
  cases operation.shape with
  | singleNumeric => exact writtenNumeric_eq _ _
  | _ => rfl

example : display (.array [.real (Binary.ofWord false Binary.double.infinity)]) = .panics := by
  rfl

/-! ## All of it -/

/--
Nothing panics.  A source of fewer than `2 ^ 32` bytes is read by index to its operations, which
can be run, or to an error with its offset.  In every state each operation of a built-in operator
has its outcome, with no slice past its operands, no negation that overflows and no clamp between
bounds in the wrong order.  Only the count of open sections has a limit, and it grows by at most
one with each operation that is run.  Writing gives bytes or an error, and displays only operands
that have a displayed form.
-/
theorem never_panics (source : Bytes) (hsource : source.length < 2 ^ 32) (resources : Resources)
    (state : PageState) :
    let env : Environment := ⟨resources, []⟩
    ((∃ operations, Cursor.operations source = .gives operations ∧
        Operation.ofBytes source = .ok operations ∧
        run resources PageState.initial operations =
          .gives (env.run PageState.initial operations)) ∨
      ∃ offset fault, Cursor.operations source = .fails (.malformedStream offset fault) ∧
        Operation.ofBytes source = .error (.malformedStream offset fault)) ∧
    (∀ operation : Operation,
      (operation.name = "BX" → state.compatibilityDepth + 1 < 2 ^ 64) →
        invoke resources 4 state operation = .gives (env.invoke state operation)) ∧
    (∀ operations : List Operation,
      (env.run state operations).state.compatibilityDepth ≤
        state.compatibilityDepth + operations.length ∧
      (state.compatibilityDepth + operations.length < 2 ^ 64 →
        run resources state operations = .gives (env.run state operations))) ∧
    ∀ operation : Operation,
      written operation = ofExcept (operation.written Operand.written) := by
  intro env
  refine ⟨?_, fun operation => invoke_eq,
    fun operations => ⟨Environment.depth_run_le rfl state operations, run_eq⟩, written_eq⟩
  have hread := Cursor.operations_eq hsource
  cases htaken : Operation.takeAll [] [] source with
  | ok operations =>
      have hbytes : Operation.ofBytes source = .ok operations := by rw [Operation.ofBytes, htaken]
      exact .inl ⟨operations, by rw [hread, hbytes]; rfl, hbytes, run_of_ofBytes hsource hbytes⟩
  | error stuck =>
      have hbytes : Operation.ofBytes source =
          .error (.malformedStream (stuck.offset source) stuck.fault) := by
        rw [Operation.ofBytes, htaken]
      exact .inr ⟨_, _, by rw [hread, hbytes]; rfl, hbytes⟩

theorem never_panics_leastInteger :
    let source : Bytes := [0x42, 0x49, 0x20, 0x49, 0x44, 0x20, 0x45]
    let env : Environment := ⟨Resources.empty, []⟩
    let moved : Operation := ⟨"TD", [.integer 0, .integer Int64.minValue]⟩
    let begun : Operation := ⟨"BX", []⟩
    source.length < 2 ^ 32 ∧
    Cursor.operations source = .fails (.malformedStream 2 .imageEndMissing) ∧
    Operation.ofBytes source = .error (.malformedStream 2 .imageEndMissing) ∧
    PageState.initial.compatibilityDepth + 1 < 2 ^ 64 ∧
    invoke Resources.empty 4 PageState.initial begun =
      .gives (env.invoke PageState.initial begun) ∧
    run Resources.empty PageState.initial [moved] = .gives (env.run PageState.initial [moved]) ∧
    (env.run PageState.initial [moved]).failure = none := by
  intro source env moved begun
  have hlength : source.length < 2 ^ 32 := by decide
  have hdepth : PageState.initial.compatibilityDepth + 1 < 2 ^ 64 := by decide
  obtain ⟨hread, hinvoke, hrun, -⟩ := never_panics source hlength Resources.empty PageState.initial
  have hcursor : Cursor.operations source = .fails (.malformedStream 2 .imageEndMissing) := by rfl
  refine ⟨hlength, hcursor, ?_, hdepth, hinvoke begun fun _ => hdepth, (hrun [moved]).2 hdepth, rfl⟩
  rcases hread with ⟨operations, hgives, -⟩ | ⟨offset, fault, hfails, hbytes⟩
  · rw [hcursor] at hgives
    contradiction
  · rw [hcursor] at hfails
    rw [hbytes, ← Checked.fails.inj hfails]

end Checked

end ContentStream
