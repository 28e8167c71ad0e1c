import ContentStream.Proofs.Interpreter.BuiltIn

/-!
# Components of the state and the operations they depend on

Where no operators are installed, a component of the state is what the operations that
act on it make of it.  A run that succeeds still succeeds without the other operations, and
ends with the same component.  The text position is moved by the leading, so it depends on
the operations that set, save and restore the leading too, and on nothing else that is
saved.
-/

namespace ContentStream

def Operation.only (names : List String) (operations : List Operation) : List Operation :=
  operations.filter fun operation => operation.name ∈ names

def StateStack.leadings (stack : StateStack) : List Float :=
  (stack.current :: stack.saved).map (·.text.leading)

theorem StateStack.leadings_restore (stack : StateStack) :
    (StackChange.restore.apply stack).leadings =
      if stack.leadings.tail = [] then stack.leadings else stack.leadings.tail := by
  obtain ⟨current, saved⟩ := stack
  cases saved with
  | nil => rfl
  | cons last saved => rfl

namespace Change.Fits

variable {name : String} {operands : List Operand} {change : Change} {stack stack' : StateStack}

theorem leadings_congr (h : change.Fits name operands)
    (hleadings : stack.leadings = stack'.leadings) :
    (change.stack.apply stack).leadings = (change.stack.apply stack').leadings := by
  obtain ⟨hcurrent, hsaved⟩ := List.cons.inj hleadings
  have hstack := h.stack
  cases hchange : change.stack with
  | update f =>
      rw [hchange] at hstack
      obtain ⟨-, -, hsets, hkeeps⟩ := hstack
      have hnext : (f stack.current).text.leading = (f stack'.current).text.leading := by
        by_cases hname : name ∈ Operator.leadingNames
        · obtain ⟨x, hx⟩ := hsets hname
          rw [hx, hx]
        · rw [hkeeps hname, hkeeps hname]
          exact hcurrent
      exact congrArg₂ List.cons hnext hsaved
  | save => exact congrArg₂ List.cons hcurrent hleadings
  | restore => rw [StateStack.leadings_restore, StateStack.leadings_restore, hleadings]

theorem leadings_apply (h : change.Fits name operands) (hname : name ∉ Operator.textNames) :
    (change.stack.apply stack).leadings = stack.leadings := by
  have hsub : ∀ name ∈ ["q", "Q"] ++ Operator.leadingNames, name ∈ Operator.textNames := by
    decide
  have hnot : name ∉ ["q", "Q"] ++ Operator.leadingNames := fun hmem => hname (hsub name hmem)
  have hstack := h.stack
  cases hchange : change.stack with
  | update f =>
      rw [hchange] at hstack
      obtain ⟨-, -, -, hkeeps⟩ := hstack
      have hnext := hkeeps fun hmem => hnot (by simp [hmem])
      exact congrArg (List.cons · _) (hnext stack.current)
  | save =>
      rw [hchange] at hstack
      exact absurd (by simp [show name = "q" from hstack]) hnot
  | restore =>
      rw [hchange] at hstack
      exact absurd (by simp [show name = "Q" from hstack]) hnot

end Change.Fits

namespace Environment

variable {env : Environment} {α : Type} {view : PageState → α} {keep : Operation → Bool}
  {names : List String} {state state' last : PageState} {operations : List Operation}

/-! ## Runs without the other operations -/

/-- The operations to keep have the same changes and the same effect on the component wherever
the component is the same, and the other operations have no effect on it. -/
structure Slice (keep : Operation → Bool) (view : PageState → α) : Prop where
  kept : ∀ {changes : Changes} {operation change state state'}, changes.Fit operation.name →
    keep operation = true → view state = view state' →
    changes state.graphics operation.operands = .ok change →
    changes state'.graphics operation.operands = .ok change ∧
      view (change.apply state) = view (change.apply state')
  dropped : ∀ {operation : Operation} {change : Change} {state},
    change.Fits operation.name operation.operands → keep operation = false →
    view (change.apply state) = view state

theorem Reaches.filter (hbare : env.overrides = []) (hslice : Slice keep view)
    (h : env.Reaches state operations last) (hview : view state = view state') :
    ∃ last', env.Reaches state' (operations.filter keep) last' ∧ view last' = view last := by
  induction operations generalizing state state' with
  | nil =>
      obtain rfl := reaches_nil.1 h
      exact ⟨state', reaches_nil.2 rfl, hview.symm⟩
  | cons operation operations ih =>
      obtain ⟨next, hstep, hothers⟩ := (reaches_cons hbare).1 h
      obtain ⟨changes, hfit, hsteps⟩ := exists_step_iff hbare operation.name
      obtain ⟨change, hchange, rfl⟩ := (hsteps state operation.operands next).1 hstep
      cases hkeep : keep operation with
      | true =>
          obtain ⟨hchange', hnext⟩ := hslice.kept hfit hkeep hview hchange
          obtain ⟨last', hreaches, hlast⟩ := ih hothers hnext
          have hstep' : env.Step state' operation (change.apply state') :=
            (hsteps _ _ _).2 ⟨change, hchange', rfl⟩
          rw [List.filter_cons_of_pos hkeep]
          exact ⟨last', (reaches_cons hbare).2 ⟨_, hstep', hreaches⟩, hlast⟩
      | false =>
          rw [List.filter_cons_of_neg (by simp [hkeep])]
          exact ih hothers ((hslice.dropped (hfit.fits hchange) hkeep).trans hview)

/-- The component at the end of a run that succeeds, by the operations of the run. -/
theorem Reaches.view_eq_foldl {act : α → Operation → α} (hbare : env.overrides = [])
    (hact : ∀ {change : Change} {operation : Operation} {state},
      change.Fits operation.name operation.operands →
      view (change.apply state) = act (view state) operation)
    (h : env.Reaches state operations last) : view last = operations.foldl act (view state) := by
  induction operations generalizing state with
  | nil =>
      obtain rfl := reaches_nil.1 h
      rfl
  | cons operation operations ih =>
      obtain ⟨next, hstep, hothers⟩ := (reaches_cons hbare).1 h
      obtain ⟨changes, hfit, hsteps⟩ := exists_step_iff hbare operation.name
      obtain ⟨change, hchange, rfl⟩ := (hsteps state operation.operands next).1 hstep
      rw [ih hothers, hact (hfit.fits hchange), List.foldl_cons]

private theorem slice_of_independent (hnames : ∀ name ∈ names, name ∉ Operator.paintNames)
    (hkept : ∀ (change : Change) {state state'}, view state = view state' →
      view (change.apply state) = view (change.apply state'))
    (hdropped : ∀ {change : Change} {operation : Operation} {state},
      change.Fits operation.name operation.operands → operation.name ∉ names →
      view (change.apply state) = view state) :
    Slice (fun operation => operation.name ∈ names) view where
  kept {_ operation change state state'} hfit hkeep hview hchange := by
    rw [hfit.independent (hnames _ (of_decide_eq_true hkeep)) _ state.graphics]
    exact ⟨hchange, hkept change hview⟩
  dropped hfits hkeep := hdropped hfits (of_decide_eq_false hkeep)

private theorem slice_stack :
    Slice (fun operation => operation.name ∈ Operator.stackNames) PageState.stack where
  kept {_ operation change state state'} _ _ hstack hchange := by
    have hgraphics : state.graphics = state'.graphics := congrArg StateStack.current hstack
    exact ⟨hgraphics ▸ hchange, congrArg change.stack.apply hstack⟩
  dropped hfits hkeep := hfits.apply_stack_of_notMem (of_decide_eq_false hkeep) _

private theorem slice_object :
    Slice (fun operation => operation.name ∈ Operator.objectNames) PageState.object := by
  refine slice_of_independent (by decide) (fun change _ _ hobject => ?_) fun hfits hname => ?_
  · exact congrArg change.object.getD hobject
  · simp [Change.apply, hfits.object, Operator.target?_of_notMem hname]

private theorem slice_sequences :
    Slice (fun operation => operation.name ∈ Operator.sequenceNames) PageState.markedContent := by
  refine slice_of_independent (by decide) (fun change _ _ hopen => ?_)
    fun {change operation state} hfits hname => ?_
  · exact congrArg change.sequences hopen
  · exact (hfits.sequences _).trans (MarkedContent.openAfter_of_notMem hname _)

private theorem slice_depth : Slice
    (fun operation => operation.name ∈ Operator.compatibilityNames)
    PageState.compatibilityDepth := by
  refine slice_of_independent (by decide) (fun change _ _ hdepth => ?_)
    fun {change operation state} hfits hname => ?_
  · exact congrArg change.depth hdepth
  · exact (hfits.depth _).trans (depthAfter_of_notMem hname _)

private theorem slice_text :
    Slice (fun operation => operation.name ∈ Operator.textNames)
      fun state => (state.text, state.stack.leadings) where
  kept {changes operation change state state'} hfit hkeep hview hchange := by
    have hnames : ∀ name ∈ Operator.textNames, name ∉ Operator.paintNames := by decide
    have hchange' : changes state'.graphics operation.operands = .ok change := by
      rw [hfit.independent (hnames _ (of_decide_eq_true hkeep)) _ state.graphics]
      exact hchange
    obtain ⟨htext, hleadings⟩ := Prod.mk.inj hview
    obtain ⟨hleading, -⟩ := List.cons.inj hleadings
    refine ⟨hchange', Prod.ext ?_ ((hfit.fits hchange).leadings_congr hleadings)⟩
    exact congrArg₂ change.text hleading htext
  dropped {operation change state} hfits hkeep := by
    have hname := of_decide_eq_false hkeep
    have hsub : ∀ name ∈ Operator.movingNames, name ∈ Operator.textNames := by decide
    have htext := hfits.text fun hmem => hname (hsub _ hmem)
    refine Prod.ext ?_ (hfits.leadings_apply hname)
    simp [Change.apply, htext]

private theorem slice_state
    (hkeep : ∀ operation, keep operation = false →
      operation.name ∈ Operator.checkNames ∨ Operator.builtIn? operation.name = none) :
    Slice keep (fun state : PageState => state) where
  kept _ _ hstate hchange := ⟨hstate ▸ hchange, by rw [hstate]⟩
  dropped := by
    intro operation change state hfits hfalse
    refine hfits.apply_of_notMem ?_ state
    rcases hkeep operation hfalse with hcheck | hunknown
    · exact Operator.notMem_actingNames_of_mem_checkNames _ hcheck
    · exact Operator.notMem_actingNames_of_builtIn? hunknown

def Suffices (env : Environment) (names : List String) (view : PageState → α)
    (state : PageState) (operations : List Operation) : Prop :=
  let sliced := env.run state (Operation.only names operations)
  sliced.failure = none ∧ view sliced.state = view (env.run state operations).state

theorem Reaches.suffices (hbare : env.overrides = [])
    (hslice : Slice (fun operation => operation.name ∈ names) view)
    (h : env.Reaches state operations last) : env.Suffices names view state operations := by
  obtain ⟨last', hsliced, hview⟩ := h.filter hbare hslice rfl
  obtain ⟨hstate, hfailure⟩ := Prod.mk.inj h
  obtain ⟨hstate', hfailure'⟩ := Prod.mk.inj hsliced
  refine ⟨hfailure', ?_⟩
  rw [hstate]
  exact (congrArg view hstate').trans hview

theorem foldl_target (operations : List Operation) (object : GraphicsObject) :
    operations.foldl (fun object operation => (Operator.target? operation.name).getD object)
        object =
      ((operations.filterMap fun operation => Operator.target? operation.name).getLast?).getD
        object := by
  induction operations generalizing object with
  | nil => rfl
  | cons operation operations ih =>
      rw [List.foldl_cons, ih, List.filterMap_cons]
      cases Operator.target? operation.name with
      | none => rfl
      | some target => simp [List.getLast?_cons]

/--
A run of built-in operators that succeeds also succeeds with only the operations that act on
one component of the state, and ends with the same component: the stack of graphics states,
the graphics object, the text position, the open sequences or the depth of sections.  The
graphics object is what the last operation that acts on it gives.  Operations that only check
their operands, and unknown ones, can be left out at will.
-/
theorem run_only (resources : Resources) (state : PageState) (operations : List Operation)
    (h : (run ⟨resources, []⟩ state operations).failure = none) :
    let env : Environment := ⟨resources, []⟩
    let last := (env.run state operations).state
    env.Suffices Operator.stackNames PageState.stack state operations ∧
    (env.Suffices Operator.objectNames PageState.object state operations ∧
      last.object = ((operations.filterMap fun operation =>
        Operator.target? operation.name).getLast?).getD state.object) ∧
    env.Suffices Operator.textNames PageState.text state operations ∧
    (env.Suffices Operator.sequenceNames PageState.markedContent state operations ∧
      last.markedContent = operations.foldl MarkedContent.openAfter state.markedContent) ∧
    (env.Suffices Operator.compatibilityNames PageState.compatibilityDepth state operations ∧
      last.compatibilityDepth = operations.foldl depthAfter state.compatibilityDepth) ∧
    ∀ keep : Operation → Bool,
      (∀ operation, keep operation = false →
        operation.name ∈ Operator.checkNames ∨ Operator.builtIn? operation.name = none) →
      (env.run state (operations.filter keep)).failure = none ∧
        (env.run state (operations.filter keep)).state = last := by
  intro env last
  have hbare : env.overrides = [] := rfl
  have hreaches : env.Reaches state operations last := reaches_of_failure h
  have hobject : last.object = operations.foldl
      (fun object operation => (Operator.target? operation.name).getD object) state.object :=
    hreaches.view_eq_foldl hbare fun hfits => by simp [Change.apply, hfits.object]
  obtain ⟨htextDone, htext⟩ := hreaches.suffices hbare slice_text
  refine ⟨hreaches.suffices hbare slice_stack,
    ⟨hreaches.suffices hbare slice_object, hobject.trans (foldl_target _ _)⟩,
    ⟨htextDone, congrArg Prod.fst htext⟩,
    ⟨hreaches.suffices hbare slice_sequences,
      hreaches.view_eq_foldl hbare fun hfits => hfits.sequences _⟩,
    ⟨hreaches.suffices hbare slice_depth,
      hreaches.view_eq_foldl hbare fun hfits => hfits.depth _⟩, fun keep hkeep => ?_⟩
  obtain ⟨last', hsliced, rfl⟩ := hreaches.filter hbare (slice_state hkeep) rfl
  obtain ⟨hstate, hfailure⟩ := Prod.mk.inj hsliced
  exact ⟨hfailure, hstate⟩

theorem run_only_text :
    let env : Environment := ⟨Resources.empty, []⟩
    let state := PageState.initial
    let operations : List Operation :=
      [⟨"BT", []⟩, ⟨"TD", [.integer 0, .integer 14]⟩, ⟨"BX", []⟩, ⟨"unknown", []⟩,
        ⟨"'", [.literalString []]⟩, ⟨"EMC", []⟩]
    let last := (env.run state operations).state
    env.Suffices Operator.stackNames PageState.stack state operations ∧
    (env.Suffices Operator.objectNames PageState.object state operations ∧
      last.object = ((operations.filterMap fun operation =>
        Operator.target? operation.name).getLast?).getD state.object) ∧
    env.Suffices Operator.textNames PageState.text state operations ∧
    (env.Suffices Operator.sequenceNames PageState.markedContent state operations ∧
      last.markedContent = operations.foldl MarkedContent.openAfter state.markedContent) ∧
    (env.Suffices Operator.compatibilityNames PageState.compatibilityDepth state operations ∧
      last.compatibilityDepth = operations.foldl depthAfter state.compatibilityDepth) ∧
    ∀ keep : Operation → Bool,
      (∀ operation, keep operation = false →
        operation.name ∈ Operator.checkNames ∨ Operator.builtIn? operation.name = none) →
      (env.run state (operations.filter keep)).failure = none ∧
        (env.run state (operations.filter keep)).state = last :=
  run_only _ _ _ rfl

end Environment

end ContentStream
