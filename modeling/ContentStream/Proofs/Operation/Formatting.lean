import ContentStream.Proofs.Operation.Lexed
import ContentStream.Proofs.Operation.RoundTrip
import ContentStream.Proofs.Result

/-!
# Formatting

Formatting a stream is reading it and writing its operations again.  Whatever is read
and can be written is writable in the sense of the round trip, so the formatted stream
is read as what was kept of the operations, and formatting it again changes nothing.
-/

namespace ContentStream

namespace Operand

theorem Lexed.writable {levels : Nat} {value : Operand} (h : value.Lexed levels) {text : Bytes}
    (hwritten : value.written = .ok text) : value.Writable levels := by
  induction h generalizing text with
  | integer => exact .integer
  | @real levels value _ =>
      cases hfinite : Binary.isFinite value with
      | true => exact .real hfinite
      | false => simp [written, hfinite] at hwritten
  | boolean => exact .boolean
  | name => exact .name
  | literalString => exact .literalString
  | hexString => exact .hexString
  | array _ ih =>
      rw [written] at hwritten
      obtain ⟨inner, hinner, -⟩ := Result.bind_eq_ok.1 hwritten
      refine .array fun item hitem => ?_
      obtain ⟨token, htoken⟩ := exists_writtenItems.1 ⟨inner, hinner⟩ item hitem
      exact ih item hitem htoken
  | dictionary hnodup _ ih =>
      rw [written] at hwritten
      obtain ⟨inner, hinner, -⟩ := Result.bind_eq_ok.1 hwritten
      refine .dictionary hnodup fun entry hentry => ?_
      obtain ⟨token, htoken⟩ := exists_writtenEntries.1 ⟨inner, hinner⟩ entry hentry
      exact ih entry hentry htoken
  | null => exact .null

end Operand

namespace Operation

private theorem of_writtenNumeric {name : String} {operands : List Operand} {text : Bytes}
    (h : Shape.writtenNumeric name operands = .ok text) :
    ∃ value others, operands = value :: others ∧ value.isNumber = true ∧
      ∃ token, value.written = .ok token := by
  cases operands with
  | nil => simp [Shape.writtenNumeric] at h
  | cons value others =>
      unfold Shape.writtenNumeric at h
      dsimp only at h
      split at h
      next =>
        obtain ⟨_, hthrow, -⟩ := Result.bind_eq_ok.1 h
        cases hthrow
      next hnumber =>
        obtain ⟨token, htoken, -⟩ := Result.bind_eq_ok.1 h
        exact ⟨value, others, rfl, by simpa using hnumber, token, htoken⟩

private theorem of_writtenImage {write : Writer} {operands : List Operand} {text : Bytes}
    (h : Shape.writtenImage write operands = .ok text) :
    ∃ entries data tokens, Shape.imageParts operands = .ok (entries, data) ∧
      Shape.writtenOperands write (Shape.imageEntries entries) = .ok tokens := by
  obtain ⟨⟨entries, data⟩, hparts, h⟩ := Result.bind_eq_ok.1 h
  obtain ⟨tokens, htokens, -⟩ := Result.bind_eq_ok.1 h
  exact ⟨entries, data, tokens, hparts, htokens⟩

theorem Lexed.writable {operation : Operation} (h : operation.Lexed) {text : Bytes}
    (hwritten : operation.written Operand.written = .ok text) : operation.Writable := by
  have hshape := shape_eq_inlineImage_iff operation
  unfold written at hwritten
  cases h with
  | @plain name operands hkeyword hname hoperands =>
      refine ⟨hkeyword, ?_⟩
      generalize (⟨name, operands⟩ : Operation).shape = shape at hshape hwritten
      cases shape with
      | generic =>
          obtain ⟨tokens, htokens, -⟩ := Result.bind_eq_ok.1 hwritten
          intro operand hoperand
          obtain ⟨token, htoken⟩ :=
            Operand.exists_writtenOperands.1 ⟨tokens, htokens⟩ operand hoperand
          exact Operand.Lexed.writable (hoperands operand hoperand) htoken
      | noOperands => trivial
      | singleNumeric =>
          obtain ⟨value, others, rfl, hnumber, token, htoken⟩ := of_writtenNumeric hwritten
          exact ⟨value, others, rfl, hnumber,
            Operand.Lexed.writable (hoperands value (by simp)) htoken⟩
      | inlineImage => exact absurd (hshape.1 rfl) hname
  | @image entries data hnodup hentries hdata =>
      refine ⟨isWord_imageKeyword.isKeyword, ?_⟩
      rw [hshape.2 rfl] at hwritten ⊢
      obtain ⟨entries', data', tokens, hparts, htokens⟩ := of_writtenImage hwritten
      obtain ⟨rfl, rfl⟩ := Prod.mk.inj (Except.ok.inj hparts)
      refine ⟨entries, data, rfl, hnodup, fun entry hentry => ?_, hdata⟩
      have hmem : entry.2 ∈ Shape.imageEntries entries :=
        List.mem_flatMap.2 ⟨entry, hentry, by simp⟩
      obtain ⟨token, htoken⟩ := Operand.exists_writtenOperands.1 ⟨tokens, htokens⟩ entry.2 hmem
      exact Operand.Lexed.writable (hentries entry hentry) htoken

theorem written_of_writtenAll {write : Writer} {operations : List Operation} {text : Bytes}
    (h : writtenAll write operations = .ok text) :
    ∀ operation ∈ operations, ∃ line, operation.written write = .ok line := by
  induction operations generalizing text with
  | nil => simp
  | cons operation operations ih =>
      rw [writtenAll] at h
      obtain ⟨hfirst, others, hothers⟩ := (Result.exists_combined_eq_ok _).1 ⟨text, h⟩
      exact List.forall_mem_cons.2 ⟨hfirst, ih hothers⟩

theorem writable_of_ofBytes {source text : Bytes} {operations : List Operation}
    (hread : ofBytes source = .ok operations)
    (hwritten : writtenAll Operand.written operations = .ok text) :
    ∀ operation ∈ operations, operation.Writable := by
  intro operation hoperation
  obtain ⟨line, hline⟩ := written_of_writtenAll hwritten operation hoperation
  exact (lexed_of_ofBytes hread operation hoperation).writable hline

theorem ofBytes_formatted {source text : Bytes} {operations : List Operation}
    (hread : ofBytes source = .ok operations)
    (hwritten : writtenAll Operand.written operations = .ok text) :
    ofBytes text = .ok (operations.map kept) := by
  obtain ⟨text', hwritten', hread'⟩ := ofBytes_written (writable_of_ofBytes hread hwritten)
  obtain rfl := Except.ok.inj (hwritten.symm.trans hwritten')
  exact hread'

/-! ## Formatting twice -/

theorem written_kept {write : Writer} {operation : Operation} {text : Bytes}
    (h : operation.written write = .ok text) : operation.kept.written write = .ok text := by
  obtain ⟨name, operands⟩ := operation
  have hshape : (kept ⟨name, operands⟩).shape = (⟨name, operands⟩ : Operation).shape := rfl
  unfold written at h ⊢
  rw [hshape]
  unfold kept
  generalize (⟨name, operands⟩ : Operation).shape = shape at h ⊢
  cases shape with
  | generic => exact h
  | noOperands => exact h
  | singleNumeric =>
      cases operands with
      | nil => exact h
      | cons value others => exact h
  | inlineImage =>
      obtain ⟨entries, data, tokens, hparts, -⟩ := of_writtenImage h
      dsimp only
      rw [Shape.kept_inlineImage hparts]
      show Shape.writtenImage write _ = _
      rw [← h]
      show _ = Shape.writtenImage write operands
      rw [Shape.writtenImage, Shape.writtenImage, hparts]
      rfl

theorem writtenAll_kept {write : Writer} {operations : List Operation} {text : Bytes}
    (h : writtenAll write operations = .ok text) :
    writtenAll write (operations.map kept) = .ok text := by
  induction operations generalizing text with
  | nil => exact h
  | cons operation operations ih =>
      rw [writtenAll] at h
      obtain ⟨first, hfirst, h⟩ := Result.bind_eq_ok.1 h
      obtain ⟨others, hothers, h⟩ := Result.bind_eq_ok.1 h
      rw [List.map_cons, writtenAll, written_kept hfirst, ih hothers]
      exact h

theorem Lexed.kept_eq_self_iff {operation : Operation} (h : operation.Lexed) :
    operation.kept = operation ↔
      (operation.shape = .noOperands → operation.operands = []) ∧
      (operation.shape = .singleNumeric → operation.operands.length ≤ 1) := by
  have hshape := shape_eq_inlineImage_iff operation
  cases h with
  | @plain name operands _ hname _ =>
      unfold kept
      generalize (⟨name, operands⟩ : Operation).shape = shape at hshape ⊢
      cases shape with
      | generic => simp [Shape.kept]
      | noOperands => simp [Shape.kept, eq_comm]
      | singleNumeric => simp [Shape.kept, List.take_eq_self_iff]
      | inlineImage => exact absurd (hshape.1 rfl) hname
  | @image entries data _ _ _ =>
      unfold kept
      rw [hshape.2 rfl]
      have hkept : Shape.kept .inlineImage [.dictionary entries, .literalString data] =
          [.dictionary entries, .literalString data] := rfl
      simp [hkept]

theorem map_kept_eq_self_iff {operations : List Operation}
    (h : ∀ operation ∈ operations, operation.Lexed) :
    operations.map kept = operations ↔ ∀ operation ∈ operations,
      (operation.shape = .noOperands → operation.operands = []) ∧
      (operation.shape = .singleNumeric → operation.operands.length ≤ 1) := by
  conv_lhs => rhs; rw [← List.map_id operations]
  rw [List.map_inj_left]
  constructor
  · intro hkept operation hoperation
    exact (h operation hoperation).kept_eq_self_iff.1 (hkept operation hoperation)
  · intro hexact operation hoperation
    exact (h operation hoperation).kept_eq_self_iff.2 (hexact operation hoperation)

/--
A formatted stream can be read and formatted again, which gives the same bytes.  Its
operations are those of the source exactly if no operator of the source carries an
operand that its shape does not write.
-/
theorem format_format {source text : Bytes} {operations : List Operation}
    (hread : ofBytes source = .ok operations)
    (hwritten : writtenAll Operand.written operations = .ok text) :
    ∃ again, ofBytes text = .ok again ∧ writtenAll Operand.written again = .ok text ∧
      (again = operations ↔ ∀ operation ∈ operations,
        (operation.shape = .noOperands → operation.operands = []) ∧
        (operation.shape = .singleNumeric → operation.operands.length ≤ 1)) :=
  ⟨operations.map kept, ofBytes_formatted hread hwritten, writtenAll_kept hwritten,
    map_kept_eq_self_iff (lexed_of_ofBytes hread)⟩

def looseSource : Bytes :=
  Bytes.ofChars "% c\n/a#62<</K 1/K<abc>>>BDC +07 q .50 2 w".toList

def looseOperations : List Operation :=
  [⟨"BDC", [.name "ab", .dictionary [("K", .hexString [0xAB, 0xC0])]]⟩, ⟨"q", [.integer 7]⟩,
    ⟨"w", [.real 0.5, .integer 2]⟩]

def looseText : Bytes :=
  Bytes.ofChars "/ab <</K <abc0>>> BDC\nq\n0.5 w\n".toList

theorem ofBytes_looseSource : ofBytes looseSource = .ok looseOperations := by
  decide +kernel

theorem writtenAll_looseOperations :
    writtenAll Operand.written looseOperations = .ok looseText := by
  decide +kernel

theorem format_format_looseSource :
    ∃ again, ofBytes looseText = .ok again ∧ writtenAll Operand.written again = .ok looseText ∧
      (again = looseOperations ↔ ∀ operation ∈ looseOperations,
        (operation.shape = .noOperands → operation.operands = []) ∧
        (operation.shape = .singleNumeric → operation.operands.length ≤ 1)) :=
  format_format ofBytes_looseSource writtenAll_looseOperations

end Operation

end ContentStream
