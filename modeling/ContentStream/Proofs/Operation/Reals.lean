import ContentStream.Proofs.Number.Overflow
import ContentStream.Proofs.Operation.Formatting

/-!
# Reals of a stream

A real that has been read is the double nearest to a numeral of the source.  A numeral
without a point is refused if it is too large, but one with a point is rounded to
infinity, and then the stream is accepted and cannot be written again.  This is the
only reason besides an operator without its number for which writing fails.
-/

namespace ContentStream

namespace Numeral.Parts

def decimal (p : Parts) : Decimal :=
  .ofChars (Bytes.toChars p.whole) (Bytes.toChars p.fraction)

theorem real?_eq_some {p : Parts} {value : Float} (h : p.real? = some value) :
    value = Binary.ofDecimal p.isNegative p.decimal := by
  unfold real? at h
  split at h
  · simp at h
  · exact (Option.some.inj h).symm

end Numeral.Parts

namespace Operand

mutual

def reals : Operand → List Float
  | .real value => [value]
  | .array items => realsOfItems items
  | .dictionary entries => realsOfEntries entries
  | _ => []

def realsOfItems : List Operand → List Float
  | [] => []
  | item :: items => reals item ++ realsOfItems items

def realsOfEntries : List (String × Operand) → List Float
  | [] => []
  | (_, value) :: entries => reals value ++ realsOfEntries entries

end

theorem mem_realsOfItems {x : Float} {items : List Operand} :
    x ∈ realsOfItems items ↔ ∃ item ∈ items, x ∈ item.reals := by
  induction items with
  | nil => simp [realsOfItems]
  | cons item items ih => simp [realsOfItems, ih]

theorem mem_realsOfEntries {x : Float} {entries : Dictionary} :
    x ∈ realsOfEntries entries ↔ ∃ entry ∈ entries, x ∈ entry.2.reals := by
  induction entries with
  | nil => simp [realsOfEntries]
  | cons entry entries ih => simp [realsOfEntries, ih]

namespace Formed

variable {p q : Float → Prop} {levels : Nat} {value : Operand}

theorem of_mem_reals (h : Formed p levels value) : ∀ x ∈ value.reals, p x := by
  induction h with
  | real hvalue => simpa [reals] using hvalue
  | array _ ih =>
      intro x hx
      obtain ⟨item, hitem, hmem⟩ := mem_realsOfItems.1 (by simpa [reals] using hx)
      exact ih item hitem x hmem
  | dictionary _ _ ih =>
      intro x hx
      obtain ⟨entry, hentry, hmem⟩ := mem_realsOfEntries.1 (by simpa [reals] using hx)
      exact ih entry hentry x hmem
  | _ => simp [reals]

theorem with_reals (h : Formed p levels value) (hreals : ∀ x ∈ value.reals, q x) :
    Formed q levels value := by
  induction h with
  | integer => exact .integer
  | @real levels value _ => exact .real (hreals value (by simp [reals]))
  | boolean => exact .boolean
  | name => exact .name
  | literalString => exact .literalString
  | hexString => exact .hexString
  | null => exact .null
  | array _ ih =>
      refine .array fun item hitem => ih item hitem fun x hx => hreals x ?_
      rw [reals, mem_realsOfItems]
      exact ⟨item, hitem, hx⟩
  | dictionary hnodup _ ih =>
      refine .dictionary hnodup fun entry hentry => ih entry hentry fun x hx => hreals x ?_
      rw [reals, mem_realsOfEntries]
      exact ⟨entry, hentry, hx⟩

end Formed

theorem Lexed.writable_iff {levels : Nat} {value : Operand} (h : value.Lexed levels) :
    value.Writable levels ↔ ∀ x ∈ value.reals, Binary.isFinite x = true :=
  ⟨fun hwritable => hwritable.of_mem_reals, h.with_reals⟩

end Operand

/-! ## Operands that are written -/

namespace Shape

private theorem accepts_iff {shape : Shape} {operands : List Operand}
    (hshape : shape ≠ .inlineImage) (h : ∀ operand ∈ operands, operand.Lexed nestingLimit) :
    shape.Accepts operands ↔
      (shape = .singleNumeric →
        ∃ value others, operands = value :: others ∧ value.isNumber = true) ∧
      ∀ x ∈ (shape.kept operands).flatMap Operand.reals, Binary.isFinite x = true := by
  have hwritable : ∀ operand ∈ operands, (operand.Writable nestingLimit ↔
      ∀ x ∈ operand.reals, Binary.isFinite x = true) :=
    fun operand hoperand => Operand.Lexed.writable_iff (h operand hoperand)
  cases shape with
  | generic =>
      simp only [Accepts, kept, List.mem_flatMap, reduceCtorEq, false_implies, true_and]
      constructor
      · rintro haccepts x ⟨operand, hoperand, hx⟩
        exact (hwritable operand hoperand).1 (haccepts operand hoperand) x hx
      · intro hfinite operand hoperand
        exact (hwritable operand hoperand).2 fun x hx => hfinite x ⟨operand, hoperand, hx⟩
  | noOperands => simp [Accepts, kept]
  | singleNumeric =>
      cases operands with
      | nil => simp [Accepts]
      | cons value others => simp [Accepts, kept, hwritable value (by simp)]
  | inlineImage => exact absurd rfl hshape

private theorem accepts_image_iff {entries : Dictionary} {data : Bytes}
    (hnodup : (Dictionary.keys entries).Nodup)
    (hentries : ∀ entry ∈ entries, entry.2.Lexed nestingLimit) (hdata : InlineImage.IsData data) :
    Accepts .inlineImage [.dictionary entries, .literalString data] ↔
      ∀ x ∈ (kept .inlineImage [.dictionary entries, .literalString data]).flatMap Operand.reals,
        Binary.isFinite x = true := by
  have hparts : imageParts [.dictionary entries, .literalString data] = .ok (entries, data) := rfl
  have hdictionary : Operand.Lexed (nestingLimit + 1) (.dictionary entries) :=
    .dictionary hnodup hentries
  rw [kept_inlineImage hparts]
  simp only [List.flatMap_cons, List.flatMap_nil, Operand.reals, List.append_nil]
  constructor
  · rintro ⟨entries', data', hparts', -, hvalues, -⟩
    obtain ⟨rfl, rfl⟩ := Prod.mk.inj (Except.ok.inj (hparts.symm.trans hparts'))
    exact (Operand.Lexed.writable_iff hdictionary).1 (.dictionary hnodup hvalues)
  · intro hfinite
    refine ⟨entries, data, hparts, hnodup, fun entry hentry => ?_, hdata⟩
    refine (Operand.Lexed.writable_iff (hentries entry hentry)).2 fun x hx => hfinite x ?_
    exact Operand.mem_realsOfEntries.2 ⟨entry, hentry, hx⟩

end Shape

namespace Operation

def reals (operation : Operation) : List Float :=
  operation.operands.flatMap Operand.reals

theorem Formed.of_mem_reals {p : Float → Prop} {operation : Operation} (h : operation.Formed p) :
    ∀ x ∈ operation.reals, p x := by
  intro x hx
  obtain ⟨operand, hoperand, hmem⟩ := List.mem_flatMap.1 hx
  cases h with
  | plain _ _ hoperands => exact (hoperands operand hoperand).of_mem_reals x hmem
  | image _ hentries _ =>
      simp only [List.mem_cons, List.not_mem_nil, or_false] at hoperand
      rcases hoperand with rfl | rfl
      · rw [Operand.reals, Operand.mem_realsOfEntries] at hmem
        obtain ⟨entry, hentry, hmem⟩ := hmem
        exact (hentries entry hentry).of_mem_reals x hmem
      · simp [Operand.reals] at hmem

def HasNumber (operation : Operation) : Prop :=
  operation.shape = .singleNumeric →
    ∃ value others, operation.operands = value :: others ∧ value.isNumber = true

theorem Lexed.writable_iff {operation : Operation} (h : operation.Lexed) :
    operation.Writable ↔
      operation.HasNumber ∧ ∀ x ∈ operation.kept.reals, Binary.isFinite x = true := by
  have hshape := shape_eq_inlineImage_iff operation
  have haccepts : operation.Writable ↔ operation.shape.Accepts operation.operands :=
    ⟨Writable.operands, fun haccepts => ⟨h.isKeyword, haccepts⟩⟩
  rw [haccepts]
  cases h with
  | plain _ hname hoperands => exact Shape.accepts_iff (mt hshape.1 hname) hoperands
  | @image entries data hnodup hentries hdata =>
      have himage := hshape.2 rfl
      have hnumber : HasNumber ⟨"BI", [.dictionary entries, .literalString data]⟩ := by
        simp [HasNumber, himage]
      unfold kept
      rw [himage, Shape.accepts_image_iff hnodup hentries hdata]
      simp [hnumber, reals]

theorem exists_writtenAll_iff_writable {source : Bytes} {operations : List Operation}
    (hread : ofBytes source = .ok operations) :
    (∃ text, writtenAll Operand.written operations = .ok text) ↔
      ∀ operation ∈ operations, operation.Writable := by
  constructor
  · rintro ⟨text, hwritten⟩
    exact writable_of_ofBytes hread hwritten
  · intro hwritable
    obtain ⟨text, hwritten, -⟩ := advances_writtenAll hwritable
    exact ⟨text, hwritten⟩

/--
A real of a stream is the value of a numeral of the source, and it is finite unless the
numeral is too large for a double.  The operations can be written again exactly if each
operator that needs a number has one and all reals that are written are finite.
-/
theorem exists_writtenAll_iff {source : Bytes} {operations : List Operation}
    (hread : ofBytes source = .ok operations) :
    (∀ operation ∈ operations, ∀ x ∈ operation.reals, Binary.isNaN x = false ∧
      ∃ place, place <:+ source ∧ (Numeral.split place).1.real? = some x ∧
        (Binary.isFinite x = true ↔ (Numeral.split place).1.decimal.numerator <
          Binary.overflow * (Numeral.split place).1.decimal.denominator)) ∧
    ((∃ text, writtenAll Operand.written operations = .ok text) ↔
      ∀ operation ∈ operations, operation.HasNumber ∧
        ∀ x ∈ operation.kept.reals, Binary.isFinite x = true) := by
  constructor
  · intro operation hoperation x hx
    obtain ⟨place, hplace, hreal⟩ :=
      (formed_of_ofBytes hread operation hoperation).of_mem_reals x hx
    obtain rfl := Numeral.Parts.real?_eq_some hreal
    exact ⟨Binary.isNaN_ofDecimal _ _, place, hplace, hreal, Binary.isFinite_ofDecimal _ _⟩
  · rw [exists_writtenAll_iff_writable hread]
    exact forall₂_congr fun operation hoperation =>
      (lexed_of_ofBytes hread operation hoperation).writable_iff

def overflowSource : Bytes :=
  List.replicate 400 0x39 ++ Bytes.ofChars ".0 w".toList

def overflowOperation : Operation :=
  ⟨"w", [.real (Binary.ofWord false Binary.double.infinity)]⟩

theorem ofBytes_overflowSource : ofBytes overflowSource = .ok [overflowOperation] := by
  decide +kernel

theorem exists_writtenAll_iff_overflowSource :
    (∀ operation ∈ [overflowOperation], ∀ x ∈ operation.reals, Binary.isNaN x = false ∧
      ∃ place, place <:+ overflowSource ∧ (Numeral.split place).1.real? = some x ∧
        (Binary.isFinite x = true ↔ (Numeral.split place).1.decimal.numerator <
          Binary.overflow * (Numeral.split place).1.decimal.denominator)) ∧
    ((∃ text, writtenAll Operand.written [overflowOperation] = .ok text) ↔
      ∀ operation ∈ [overflowOperation], operation.HasNumber ∧
        ∀ x ∈ operation.kept.reals, Binary.isFinite x = true) :=
  exists_writtenAll_iff ofBytes_overflowSource

theorem unwritable_overflowSource :
    ofBytes overflowSource = .ok [overflowOperation] ∧ overflowOperation.HasNumber ∧
      (∃ x ∈ overflowOperation.reals, Binary.isFinite x = false) ∧
      writtenAll Operand.written [overflowOperation] =
        .error (.unwritable (.notFinite (Binary.ofWord false Binary.double.infinity))) := by
  refine ⟨ofBytes_overflowSource, fun _ => ⟨_, _, rfl, rfl⟩, ⟨_, List.mem_singleton_self _, ?_⟩, ?_⟩
  · decide +kernel
  · decide +kernel

end Operation

end ContentStream
