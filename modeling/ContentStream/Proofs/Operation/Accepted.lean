import ContentStream.Proofs.Operand.Nesting
import ContentStream.Proofs.Operation.Lexed

/-!
# Accepted streams

Everything in a stream that is read is within the limits of the format: the names of
its operations, the nesting and the keys of its operands, the parts of its inline
images.  The limit on the nesting is sharp, since a stream that begins with the token
of an operand beyond it is refused.
-/

namespace ContentStream

namespace InlineImage

theorem IsData.ne_nil {data : Bytes} (h : IsData data) : data ≠ [] := by
  rintro rfl
  simpa using h.ends

end InlineImage

namespace Operation

theorem Lexed.of_name_ne {operation : Operation} (h : operation.Lexed)
    (hname : operation.name ≠ "BI") : ∀ operand ∈ operation.operands,
      operand.Lexed nestingLimit ∧ operand.nesting ≤ nestingLimit := by
  cases h with
  | plain _ _ hoperands =>
      exact fun operand hoperand =>
        ⟨hoperands operand hoperand, (hoperands operand hoperand).nesting_le⟩
  | image => exact absurd rfl hname

theorem Lexed.of_name_eq {operation : Operation} (h : operation.Lexed)
    (hname : operation.name = "BI") : ∃ entries data,
      operation.operands = [.dictionary entries, .literalString data] ∧
      (Dictionary.keys entries).Nodup ∧
      (∀ entry ∈ entries, entry.2.Lexed nestingLimit ∧ entry.2.nesting ≤ nestingLimit) ∧
      data ≠ [] ∧ InlineImage.IsData data := by
  cases h with
  | plain _ hplain => exact absurd hname hplain
  | @image entries data hnodup hentries hdata =>
      refine ⟨entries, data, rfl, hnodup, fun entry hentry => ?_, hdata.ne_nil, hdata⟩
      exact ⟨hentries entry hentry, (hentries entry hentry).nesting_le⟩

theorem ofBytes_stuck {source : Bytes} {stuck : Stuck}
    (h : Token.read nestingLimit source = .error stuck) :
    ofBytes source = .error (.malformedStream (stuck.offset source) stuck.fault) := by
  rw [ofBytes, takeAll, h]

theorem ofBytes_tooDeep {levels : Nat} {value : Operand} (h : value.Writable levels)
    (hdeep : nestingLimit < value.nesting) : ∃ token, value.written = .ok token ∧
      ∀ rest, ∃ offset, ofBytes (token ++ rest) = .error (.malformedStream offset .nesting) := by
  obtain ⟨token, hwritten, hexceeds⟩ := Operand.written_exceeds h hdeep
  refine ⟨token, hwritten, fun rest => ?_⟩
  have hskip : Separator.skip (token ++ rest) = Separator.skip (token ++ rest) := rfl
  obtain ⟨place, hplace⟩ := hexceeds.stops hskip
  exact ⟨_, ofBytes_stuck hplace⟩

/--
In a stream that is read, names are keywords that stand for no operand; operands have
distinct keys and at most 64 levels; an inline image has a dictionary with values of
this kind and data that ends at its first end keyword.  A stream that begins with the
token of an operand of more levels is malformed, whatever follows the token.
-/
theorem ofBytes_withinLimits :
    (∀ source operations, ofBytes source = .ok operations → ∀ operation ∈ operations,
      IsKeyword operation.name ∧
      (operation.name ≠ "BI" → ∀ operand ∈ operation.operands,
        operand.Lexed 64 ∧ operand.nesting ≤ 64) ∧
      (operation.name = "BI" → ∃ entries data,
        operation.operands = [.dictionary entries, .literalString data] ∧
        (Dictionary.keys entries).Nodup ∧
        (∀ entry ∈ entries, entry.2.Lexed 64 ∧ entry.2.nesting ≤ 64) ∧
        data ≠ [] ∧ InlineImage.IsData data)) ∧
    (∀ (levels : Nat) (value : Operand), value.Writable levels → 64 < value.nesting →
      ∃ token, value.written = .ok token ∧ ∀ rest, ∃ offset,
        ofBytes (token ++ rest) = .error (.malformedStream offset .nesting)) := by
  constructor
  · intro source operations hread operation hoperation
    have hlexed := lexed_of_ofBytes hread operation hoperation
    exact ⟨hlexed.isKeyword, hlexed.of_name_ne, hlexed.of_name_eq⟩
  · intro levels value hvalue hdeep
    exact ofBytes_tooDeep hvalue hdeep

end Operation

namespace Operand

def nestedArrays : Nat → Operand
  | 0 => .null
  | levels + 1 => .array [nestedArrays levels]

theorem formed_nestedArrays (p : Float → Prop) (levels : Nat) :
    Formed p levels (nestedArrays levels) := by
  induction levels with
  | zero => exact .null
  | succ levels ih => exact .array (by simpa using ih)

theorem nesting_nestedArrays (levels : Nat) : (nestedArrays levels).nesting = levels := by
  induction levels with
  | zero => simp [nestedArrays, nesting]
  | succ levels ih => simp [nestedArrays, nesting, nestingItems, ih]

end Operand

namespace Operation

def dashOperation : Operation :=
  ⟨"d", [.array [.array [], .dictionary [("K", .integer 1)]], .integer 0]⟩

def imageOperation : Operation :=
  ⟨"BI", [.dictionary [("W", .integer 2)], .literalString (Bytes.ofChars "xEI\n".toList)]⟩

def imageSource : Bytes :=
  Bytes.ofChars "[[]<</K 1>>] 0 d BI /W 1 /W 2 ID xEI\nEI".toList

theorem ofBytes_imageSource :
    ofBytes imageSource = .ok [dashOperation, imageOperation] := by
  decide +kernel

theorem ofBytes_withinLimits_imageSource :
    (∀ operand ∈ dashOperation.operands, operand.Lexed 64 ∧ operand.nesting ≤ 64) ∧
    (∃ entries data, imageOperation.operands = [.dictionary entries, .literalString data] ∧
      (Dictionary.keys entries).Nodup ∧
      (∀ entry ∈ entries, entry.2.Lexed 64 ∧ entry.2.nesting ≤ 64) ∧
      data ≠ [] ∧ InlineImage.IsData data) ∧
    ∃ token, (Operand.nestedArrays 65).written = .ok token ∧ ∀ rest, ∃ offset,
      ofBytes (token ++ rest) = .error (.malformedStream offset .nesting) := by
  have haccepted := ofBytes_withinLimits.1 imageSource _ ofBytes_imageSource
  refine ⟨(haccepted dashOperation (by simp)).2.1 (by decide),
    (haccepted imageOperation (by simp)).2.2 rfl, ?_⟩
  have hdeep : 64 < (Operand.nestedArrays 65).nesting := by
    simp [Operand.nesting_nestedArrays]
  exact ofBytes_withinLimits.2 65 _ (Operand.formed_nestedArrays _ 65) hdeep

end Operation

end ContentStream
