import ContentStream.Proofs.Operation.RoundTrip
import ContentStream.Proofs.Result

/-!
# Operators look at what is written

The reply of a built-in operator depends on its operands only as far as the shape of
the operator writes them: one without operands looks at none, and one with a single
number at the first.  An inline image only checks the kinds of its two operands.
-/

namespace ContentStream.Operator

/-- The action replies to what is kept of its operands as it does to all of them. -/
def ReadsKept (operator : Operator) : Prop :=
  ∀ resources state operands, operator.shape.Accepts operands →
    operator.action resources state (operator.shape.kept operands) =
      operator.action resources state operands

theorem readsKept_generic {operator : Operator} (h : operator.shape = .generic) :
    operator.ReadsKept := by
  intro resources state operands _
  rw [h]
  rfl

theorem readsKept_acting (name : String) (act : PageState → PageState × List Notice) :
    (acting name act).ReadsKept := by
  intro resources state operands _
  rfl

theorem readsKept_singleNumeric {operator : Operator} (hshape : operator.shape = .singleNumeric)
    (h : ∀ resources state value others,
      operator.action resources state [value] = operator.action resources state (value :: others)) :
    operator.ReadsKept := by
  intro resources state operands haccepts
  rw [hshape] at haccepts ⊢
  obtain ⟨value, others, rfl, -, -⟩ := haccepts
  exact h resources state value others

theorem readsKept_numeric (name : String) (set : GraphicsState → Float → GraphicsState) :
    (numeric name set).ReadsKept :=
  readsKept_singleNumeric rfl fun _ _ _ _ => rfl

private theorem readsKept_inlineImage : inlineImage.ReadsKept := by
  rintro resources state operands ⟨entries, data, hparts, -⟩
  have hkept := Shape.kept_inlineImage hparts
  obtain ⟨found, hentries, hparts⟩ := Result.bind_eq_ok.1 hparts
  obtain ⟨bytes, hdata, -⟩ := Result.bind_eq_ok.1 hparts
  -- Both lists of operands pass the check, which changes nothing.
  have haction : inlineImage.action resources state operands = .done state [] := by
    simp only [inlineImage, checking, updating, hentries, hdata, bind, Except.bind]
    rfl
  rw [haction]
  show inlineImage.action resources state (Shape.kept .inlineImage operands) = _
  rw [hkept]
  rfl

private theorem readsKept_general : ∀ operator ∈ general, operator.ReadsKept := by
  simp only [general, List.forall_mem_cons]
  refine ⟨readsKept_numeric _ _, readsKept_singleNumeric rfl fun _ _ _ _ => rfl,
    readsKept_singleNumeric rfl fun _ _ _ _ => rfl, readsKept_numeric _ _, readsKept_generic rfl,
    readsKept_generic rfl, readsKept_numeric _ _, readsKept_generic rfl, readsKept_acting _ _,
    readsKept_acting _ _, readsKept_generic rfl, by simp⟩

private theorem readsKept_path : ∀ operator ∈ path, operator.ReadsKept := by
  simp only [path, construction, List.forall_mem_append, List.forall_mem_cons]
  refine ⟨⟨⟨readsKept_generic rfl, readsKept_generic rfl, readsKept_generic rfl,
    readsKept_generic rfl, readsKept_generic rfl, readsKept_acting _ _, readsKept_generic rfl,
    by simp⟩, ?_⟩, ?_⟩
  · intro operator hoperator
    obtain ⟨name, -, rfl⟩ := List.mem_map.1 hoperator
    exact readsKept_acting name _
  · intro operator hoperator
    obtain ⟨name, -, rfl⟩ := List.mem_map.1 hoperator
    exact readsKept_acting name _

private theorem readsKept_text : ∀ operator ∈ text, operator.ReadsKept := by
  have hnextLine : nextLine.ReadsKept := fun _ _ _ _ => rfl
  simp only [text, List.forall_mem_cons]
  refine ⟨readsKept_acting _ _, readsKept_acting _ _, readsKept_numeric _ _,
    readsKept_numeric _ _, readsKept_numeric _ _, readsKept_numeric _ _, readsKept_generic rfl,
    readsKept_singleNumeric rfl fun _ _ _ _ => rfl, readsKept_numeric _ _, readsKept_generic rfl,
    readsKept_generic rfl, readsKept_generic rfl, hnextLine, readsKept_generic rfl,
    readsKept_generic rfl, readsKept_generic rfl, readsKept_generic rfl, readsKept_generic rfl,
    readsKept_generic rfl, by simp⟩

private theorem readsKept_colors : ∀ operator ∈ colors, operator.ReadsKept := by
  simp only [colors, List.forall_mem_cons]
  refine ⟨readsKept_generic rfl, readsKept_generic rfl, readsKept_generic rfl,
    readsKept_generic rfl, readsKept_generic rfl, readsKept_generic rfl,
    readsKept_singleNumeric rfl fun _ _ _ _ => rfl, readsKept_singleNumeric rfl fun _ _ _ _ => rfl,
    readsKept_generic rfl, readsKept_generic rfl, readsKept_generic rfl, readsKept_generic rfl,
    by simp⟩

private theorem readsKept_marking : ∀ operator ∈ marking, operator.ReadsKept := by
  simp only [marking, List.forall_mem_cons]
  refine ⟨readsKept_generic rfl, readsKept_generic rfl, readsKept_inlineImage,
    readsKept_generic rfl, readsKept_generic rfl, readsKept_generic rfl, readsKept_generic rfl,
    readsKept_acting _ _, readsKept_acting _ _, readsKept_acting _ _, by simp⟩

theorem readsKept_builtIn : ∀ operator ∈ builtIn, operator.ReadsKept := by
  simp only [builtIn, List.forall_mem_append]
  exact ⟨⟨⟨⟨readsKept_general, readsKept_path⟩, readsKept_text⟩, readsKept_colors⟩,
    readsKept_marking⟩

end ContentStream.Operator
