import ContentStream.Operation.Arguments
import ContentStream.Proofs.Result

/-!
# Arguments that are found

Taking an argument succeeds exactly if there is an operand at its position that has
the expected form.
-/

namespace ContentStream.Arguments

variable {α : Type} {args : Arguments} {index : Nat} {expected : Expectation}
  {view? : Operand → Option α}

theorem get_eq : args.get index expected view? =
    match args.operands[index]? with
    | some value =>
      match view? value with
      | some found => .ok found
      | none => args.fail (.mistyped index expected value.kind)
    | none => args.fail (.missing index) := by
  unfold get operand
  cases args.operands[index]? with
  | none => rfl
  | some value => cases hview : view? value <;> simp [bind, Except.bind, pure, Except.pure, hview]

theorem get_eq_ok {found : α} : args.get index expected view? = .ok found ↔
    (args.operands[index]?).bind view? = some found := by
  rw [get_eq]
  cases args.operands[index]? with
  | none => simp [fail]
  | some value => cases hview : view? value <;> simp [hview, fail]

theorem toOption_get : (args.get index expected view?).toOption =
    (args.operands[index]?).bind view? := by
  rw [get_eq]
  cases args.operands[index]? with
  | none => rfl
  | some value => cases hview : view? value <;> simp [hview, fail, Except.toOption]

theorem numeric_eq_ok {value : Operand} : args.numeric index = .ok value ↔
    args.operands[index]? = some value ∧ value.isNumber = true := by
  rw [numeric, get_eq_ok, Option.bind_eq_some_iff]
  constructor
  · rintro ⟨found, hfound, hnumber⟩
    split at hnumber
    next hnumber' =>
      obtain rfl := Option.some.inj hnumber
      exact ⟨hfound, hnumber'⟩
    next => contradiction
  · rintro ⟨hfound, hnumber⟩
    exact ⟨value, hfound, if_pos hnumber⟩

theorem lt_length_of_get {found : α} (h : args.get index expected view? = .ok found) :
    index < args.operands.length := by
  obtain ⟨value, hvalue, -⟩ := Option.bind_eq_some_iff.1 (get_eq_ok.1 h)
  exact (List.getElem?_eq_some_iff.1 hvalue).1

private theorem le_length_of_numbersFrom {count : Nat} {values : List Float}
    (hindex : index ≤ args.operands.length) (h : args.numbersFrom index count = .ok values) :
    index + count ≤ args.operands.length := by
  induction count generalizing index values with
  | zero => exact hindex
  | succ count ih =>
      obtain ⟨first, hfirst, h⟩ := Result.bind_eq_ok.1 h
      obtain ⟨others, hothers, -⟩ := Result.bind_eq_ok.1 h
      have hall := ih (lt_length_of_get hfirst) hothers
      omega

theorem le_length_of_numbers {count : Nat} {values : List Float}
    (h : args.numbers count = .ok values) : count ≤ args.operands.length := by
  have hlength := le_length_of_numbersFrom (Nat.zero_le _) h
  omega

private theorem toOption_numbersFrom (name name' : String) (operands : List Operand)
    (index count : Nat) : (numbersFrom ⟨name', operands⟩ index count).toOption =
      (numbersFrom ⟨name, operands⟩ index count).toOption := by
  induction count generalizing index with
  | zero => rfl
  | succ count ih =>
      simp only [numbersFrom, number, Result.toOption_bind, toOption_get, ih]

theorem toOption_numbers (name name' : String) (operands : List Operand) (count : Nat) :
    (numbers ⟨name', operands⟩ count).toOption = (numbers ⟨name, operands⟩ count).toOption :=
  toOption_numbersFrom name name' operands 0 count

end ContentStream.Arguments
