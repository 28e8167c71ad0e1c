import ContentStream.Proofs.Interpreter.Colors
import ContentStream.Proofs.Interpreter.Failures
import ContentStream.Proofs.Operator.Trailing

/-!
# Operations with more operands than they need

Where no operators are installed, an operation that succeeds still does so with further
operands at the end of its list, and to the same effect.  Only a color is set by a list of
operands as a whole: its length is that of the current space, so any further operand makes
it fail.
-/

namespace ContentStream

namespace ColorSpace

theorem Suits.length_eq {space : ColorSpace} {operands others : List Operand}
    (h : space.Suits operands) (h' : space.Suits others) : others.length = operands.length := by
  have hpattern (space : ColorSpace) {operands : List Operand}
      (h : ∃ numbers name, operands = numbers ++ [Operand.name name] ∧
        space.AreComponents numbers) : operands.length = space.components + 1 := by
    obtain ⟨numbers, name, rfl, hlength, -⟩ := h
    rw [List.length_append, hlength, List.length_singleton]
  cases space with
  | pattern => rw [hpattern _ h, hpattern _ h']
  | patternOver underlying => rw [hpattern _ h, hpattern _ h']
  | _ => exact h'.1.trans h.1.symm

theorem not_suits_append {space : ColorSpace} {operands more : List Operand}
    (h : space.Suits operands) (hmore : more ≠ []) : ¬space.Suits (operands ++ more) := by
  intro hall
  have hlength := h.length_eq hall
  rw [List.length_append, Nat.add_eq_left, List.length_eq_zero_iff] at hlength
  exact hmore hlength

end ColorSpace

namespace Environment

variable {env : Environment} {state : PageState} {name : String} {operands more : List Operand}

private theorem effect_invokeWithin_append (hbare : env.overrides = [])
    (hname : name ∉ Operator.colorNames) {levels : Nat} {outcome : Outcome}
    (h : env.invokeWithin levels state ⟨name, operands⟩ = some outcome)
    (hnone : outcome.failure = none) (more : List Operand) :
    ∃ outcome', env.invokeWithin levels state ⟨name, operands ++ more⟩ = some outcome' ∧
      outcome'.effect = outcome.effect := by
  cases levels with
  | zero => simp [invokeWithin] at h
  | succ levels =>
      rw [invokeWithin, operator?_eq_builtIn? hbare] at h ⊢
      dsimp only at h ⊢
      cases hfound : Operator.builtIn? name with
      | none =>
          rw [hfound] at h
          exact ⟨outcome, h, rfl⟩
      | some operator =>
          rw [hfound] at h
          obtain rfl : operator.name = name := by simpa using List.find?_some hfound
          have hreply := Operator.ignoresTrailing_builtIn operator
            (List.mem_of_find?_eq_some hfound) hname env.resources state operands more
          obtain ⟨followed, hfollowed, rfl⟩ := Option.map_eq_some_iff.1 h
          rcases hreply with ⟨next, error, hfails⟩ | hsame
          · -- An operation that is refused does not succeed.
            rw [hfails] at hfollowed
            obtain rfl := Option.some.inj hfollowed
            contradiction
          · dsimp only
            rw [hsame, hfollowed]
            exact ⟨_, rfl, rfl⟩

theorem effect_invoke_append (hbare : env.overrides = []) (hname : name ∉ Operator.colorNames)
    (h : (env.invoke state ⟨name, operands⟩).failure = none) (more : List Operand) :
    (env.invoke state ⟨name, operands ++ more⟩).effect =
      (env.invoke state ⟨name, operands⟩).effect := by
  unfold invoke at h ⊢
  cases houtcome : env.invokeWithin env.levels state ⟨name, operands⟩ with
  | none =>
      rw [houtcome] at h
      contradiction
  | some outcome =>
      rw [houtcome] at h
      obtain ⟨outcome', hmore, heffect⟩ := effect_invokeWithin_append hbare hname houtcome h more
      rw [hmore]
      exact heffect

private theorem exists_colorSetter (h : name ∈ Operator.colorNames) :
    ∃ use, (name, use) ∈ colorSetters := by
  simp only [Operator.colorNames, List.mem_cons, List.not_mem_nil, or_false] at h
  rcases h with rfl | rfl | rfl | rfl
  · exact ⟨.stroke, by decide⟩
  · exact ⟨.stroke, by decide⟩
  · exact ⟨.fill, by decide⟩
  · exact ⟨.fill, by decide⟩

private theorem failure_invoke_append (hbare : env.overrides = [])
    (hname : name ∈ Operator.colorNames)
    (h : (env.invoke state ⟨name, operands⟩).failure = none) (hmore : more ≠ []) :
    (env.invoke state ⟨name, operands ++ more⟩).failure ≠ none := by
  obtain ⟨use, huse⟩ := exists_colorSetter hname
  have hsuits := (invoke_colorSetter hbare huse state operands).1.1 h
  exact mt (invoke_colorSetter hbare huse state (operands ++ more)).1.1
    (ColorSpace.not_suits_append hsuits hmore)

/--
With built-in operators alone, an operation that succeeds also succeeds with more operands
behind its own, and leads to the same state.  If it sets a color in the current space it
fails with more operands, and leaves the state as it is.
-/
theorem invoke_trailing (resources : Resources) (state : PageState) (name : String)
    (operands : List Operand) :
    let env : Environment := ⟨resources, []⟩
    (env.invoke state ⟨name, operands⟩).failure = none → ∀ more,
      (name ∉ ["SC", "SCN", "sc", "scn"] →
        (env.invoke state ⟨name, operands ++ more⟩).failure = none ∧
          (env.invoke state ⟨name, operands ++ more⟩).state =
            (env.invoke state ⟨name, operands⟩).state) ∧
      (name ∈ ["SC", "SCN", "sc", "scn"] → more ≠ [] →
        (env.invoke state ⟨name, operands ++ more⟩).failure ≠ none ∧
          (env.invoke state ⟨name, operands ++ more⟩).state = state) := by
  intro env h more
  have hbare : env.overrides = [] := rfl
  constructor
  · intro hname
    obtain ⟨hstate, hfailure⟩ := Prod.mk.inj (effect_invoke_append hbare hname h more)
    exact ⟨hfailure.trans h, hstate⟩
  · intro hname hmore
    have hfailure := failure_invoke_append hbare hname h hmore
    exact ⟨hfailure, state_invoke_of_failure hbare state _ hfailure⟩

theorem invoke_trailing_font :
    let env : Environment := ⟨Resources.empty, []⟩
    let font : List Operand := [.name "F1", .integer 12]
    (env.invoke PageState.initial ⟨"Tf", font ++ [.null]⟩).state =
        (env.invoke PageState.initial ⟨"Tf", font⟩).state ∧
      (env.invoke PageState.initial ⟨"sc", [.integer 1] ++ [.null]⟩).failure ≠ none := by
  intro env font
  obtain ⟨hset, -⟩ := invoke_trailing Resources.empty PageState.initial "Tf" font rfl [.null]
  obtain ⟨-, hfails⟩ :=
    invoke_trailing Resources.empty PageState.initial "sc" [.integer 1] rfl [.null]
  exact ⟨(hset (by decide)).2, (hfails (by decide) (by simp)).1⟩

end Environment

end ContentStream
