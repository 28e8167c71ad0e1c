import ContentStream.Proofs.Operation.Progress
import ContentStream.Proofs.Token.Pieces

/-!
# Literal strings in a stream

Wherever a token is read, a spelling of a literal string is read as one operand, and reading
goes on behind its closing parenthesis.  A stream that ends inside a string is malformed, at
the opening parenthesis or, behind a last backslash, at its end.
-/

namespace ContentStream

open Literal (Balanced Open Piece Spelled meaningOf)

namespace Token

variable {input tail rest : Bytes} {pieces : List Piece}

theorem read_spelled (levels : Nat) (hskip : Separator.skip input = 0x28 :: tail)
    (h : Spelled pieces rest tail) :
    (read levels).Yields input (.operand (.literalString (meaningOf pieces))) rest := by
  have htaken : Took (takeFirst (inside levels) 0x28 tail)
      (.operand (.literalString (meaningOf pieces))) rest := by
    rw [takeFirst, if_pos rfl]
    exact (Literal.take_spelled h).map fun bytes => Token.operand (.literalString bytes)
  rw [Reader.Yields, read_eq]
  exact readWith_yields hskip htaken

theorem read_stuck_literal (levels : Nat) {stuck : Stuck}
    (hskip : Separator.skip input = 0x28 :: tail) (h : Literal.take 0x28 tail = .error stuck) :
    read levels input = .error stuck := by
  rw [read_eq]
  refine readWith_stuck hskip ?_
  rw [takeFirst, if_pos rfl, h]
  rfl

end Token

namespace Operation

variable {source place tail : Bytes} {containers : Nat}

theorem ReadsWithin.literal_stuck {stuck : Stuck} (h : ReadsWithin source containers place)
    (hskip : Separator.skip place = 0x28 :: tail) (htaken : Literal.take 0x28 tail = .error stuck) :
    ofBytes source = .error (.malformedStream (stuck.offset source) stuck.fault) := by
  have hlevels : nestingLimit - containers + containers = nestingLimit :=
    Nat.sub_add_cancel h.le_nestingLimit
  exact h.stuck hlevels (Token.read_stuck_literal _ hskip htaken)

theorem ofBytes_open (h : ReadsWithin source containers place)
    (hskip : Separator.skip place = 0x28 :: tail) (hopen : Open 0 [] tail) :
    ∃ position, position < source.length ∧ source.drop position = 0x28 :: tail ∧
      ofBytes source = .error (.malformedStream position .unterminatedLiteral) := by
  have hsuffix : 0x28 :: tail <:+ source := (Token.suffix_of_skip hskip).trans h.suffix
  obtain ⟨position, hposition, heq⟩ := Bytes.exists_eq_drop_of_suffix hsuffix
  have hlength := congrArg List.length heq
  rw [List.length_cons, List.length_drop] at hlength
  have hoffset : Stuck.offset source ⟨0x28 :: tail, .unterminatedLiteral⟩ = position := by
    rw [Stuck.offset, List.length_cons]
    omega
  refine ⟨position, by omega, heq.symm, ?_⟩
  rw [h.literal_stuck hskip (Literal.take_open hopen), hoffset]

theorem ofBytes_open_backslash (h : ReadsWithin source containers place)
    (hskip : Separator.skip place = 0x28 :: tail) (hopen : Open 0 [0x5C] tail) :
    ofBytes source = .error (.malformedStream source.length .unterminatedEscape) :=
  h.literal_stuck hskip (Literal.take_open_backslash hopen)

/--
Every spelling of a literal string stands for the bytes that its pieces stand for: one
operand is read, and then what follows the closing parenthesis.  Escaped parentheses do not
count for the balance.  Where a token is read whose opening parenthesis nothing closes,
the stream is malformed: at that parenthesis, or at its end if the last byte is
a backslash that begins an escape.
-/
theorem ofBytes_spelling :
    (∀ pieces rest tail, Spelled pieces rest tail →
      ∀ input, Separator.skip input = 0x28 :: tail →
        (∀ levels, (Token.read levels).Yields input
          (.operand (.literalString (meaningOf pieces))) rest) ∧
        ∀ pending operations, takeAll pending operations input =
          takeAll (.literalString (meaningOf pieces) :: pending) operations rest) ∧
    (∀ byte h before after,
      Balanced (before ++ Piece.escaped byte h :: after) ↔ Balanced (before ++ after)) ∧
    ∀ source containers place tail, ReadsWithin source containers place →
      Separator.skip place = 0x28 :: tail → (¬∃ pieces rest, Spelled pieces rest tail) →
      (Open 0 [] tail ∧ ∃ position, position < source.length ∧
        source.drop position = 0x28 :: tail ∧
        ofBytes source = .error (.malformedStream position .unterminatedLiteral)) ∨
      (Open 0 [0x5C] tail ∧
        ofBytes source = .error (.malformedStream source.length .unterminatedEscape)) := by
  refine ⟨fun pieces rest tail hspelled input hskip => ?_, fun byte h before after => ?_,
    fun source containers place tail hplace hskip hclosed => ?_⟩
  · have hread := fun levels => Token.read_spelled levels hskip hspelled
    exact ⟨hread, fun pending operations => takeAll_operand (hread nestingLimit)⟩
  · exact Literal.balanced_insert rfl rfl
  · rcases Literal.spelled_or_open tail with hspelled | hopen | hopen
    · exact absurd hspelled hclosed
    · exact .inl ⟨hopen, ofBytes_open hplace hskip hopen⟩
    · exact .inr ⟨hopen, ofBytes_open_backslash hplace hskip hopen⟩

def mixedPieces : List Piece :=
  [.plain 0x61 (by decide), .opening, .escaped 0x29 (by decide),
    .octal [0x31, 0x30, 0x31] (by decide) (by simp [Byte.isOctalDigit]), .closing,
    .octal [0x35, 0x30, 0x31] (by decide) (by simp [Byte.isOctalDigit]), .continued .carriage,
    .plain 0x62 (by decide)]

theorem spelled_mixedPieces (rest : Bytes) :
    Spelled mixedPieces rest (Literal.textOf mixedPieces ++ 0x29 :: rest) := by
  refine ⟨?_, ⟨?_, rfl⟩, rfl⟩
  · simp [mixedPieces, Literal.Fit, Piece.Fits, Literal.textOf, Piece.text]
  · simp [mixedPieces, Literal.nested_cons, Literal.nested_nil, Piece.opens, Piece.closes]

def openString : Bytes :=
  [0x20, 0x28, 0x28, 0x61, 0x29]

theorem ofBytes_spelling_openString :
    (∀ levels rest, (Token.read levels).Yields
      (0x28 :: (Literal.textOf mixedPieces ++ 0x29 :: rest))
      (.operand (.literalString [0x61, 0x28, 0x29, 0x41, 0x29, 0x41, 0x62])) rest) ∧
    ofBytes openString = .error (.malformedStream 1 .unterminatedLiteral) := by
  obtain ⟨hread, -, hstuck⟩ := ofBytes_spelling
  constructor
  · intro levels rest
    exact (hread mixedPieces rest _ (spelled_mixedPieces rest) _ rfl).1 levels
  · have hplace : ReadsWithin openString 0 openString :=
      ⟨openString, nestingLimit, .stream (.refl _ _), .here _ _⟩
    have hclosed : ¬∃ pieces rest, Spelled pieces rest (openString.drop 2) := by
      rintro ⟨pieces, rest, hspelled⟩
      have hextent := Literal.extent_spelled hspelled
      simp [openString, Literal.extent] at hextent
    rcases hstuck openString 0 openString _ hplace rfl hclosed with
      ⟨-, position, hposition, hdrop, herror⟩ | ⟨⟨pieces, -, -, hopen⟩, -⟩
    · have hlength := congrArg List.length hdrop
      rw [List.length_drop] at hlength
      obtain rfl : position = 1 := by
        simp [openString] at hlength hposition
        omega
      exact herror
    · have hlast := congrArg List.getLast? hopen
      simp at hlast

end Operation

end ContentStream
