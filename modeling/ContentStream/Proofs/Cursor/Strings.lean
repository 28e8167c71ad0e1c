import ContentStream.Proofs.Cursor.Position
import ContentStream.Proofs.Token.Pieces
import ContentStream.Proofs.Token.Progress

/-!
# Strings at a cursor

A literal string is read piece by piece, and each piece takes one round.  As many parentheses
are open as there are bytes in front of the position at most, so that the count of them does not
overflow; it does not fall below zero, because the string ends there.  The digits of a
hexadecimal string are padded, so that each chunk has two.
-/

namespace ContentStream

namespace Literal

theorem Piece.Fits.append {piece : Piece} {following more : Bytes} (h : piece.Fits following)
    (hmore : more.head?.all (fun byte => !Byte.isOctalDigit byte && byte ≠ 0x0A) = true) :
    piece.Fits (following ++ more) := by
  cases following with
  | cons byte following => exact h
  | nil =>
      rw [List.nil_append]
      cases piece with
      | octal digits =>
          intro _ byte hbyte
          simp only [hbyte, Option.all_some, Bool.and_eq_true, Bool.not_eq_true'] at hmore
          exact hmore.1
      | continued lineEnd =>
          cases lineEnd with
          | carriage =>
              intro hfeed
              rw [hfeed] at hmore
              contradiction
          | _ => trivial
      | _ => trivial

theorem length_pieces_le (pieces : List Piece) : pieces.length ≤ (textOf pieces).length := by
  induction pieces with
  | nil => exact Nat.le_refl 0
  | cons piece pieces ih =>
      have := List.length_pos_iff.2 piece.text_ne_nil
      rw [textOf_cons, List.length_append, List.length_cons]
      omega

end Literal

namespace Cursor

open Checked Literal

section Literals

variable {source : Bytes} (hsource : source.length < 2 ^ 32) {rounds position opening inner : Nat}
  {following more rest tail : Bytes}
include hsource

private theorem octalMore_eq {value : Nat} {digits : Bytes}
    (h : At source position (digits ++ following)) (hlength : digits.length ≤ rounds)
    (hdigits : ∀ digit ∈ digits, Byte.isOctalDigit digit = true)
    (hfollowing : digits.length < rounds →
      ∀ byte, following.head? = some byte → Byte.isOctalDigit byte = false)
    (hvalue : (value + 1) * 8 ^ rounds ≤ 2 ^ 32) :
    octalMore source rounds value position =
      .gives (digits.foldl (fun number digit => number * 8 + (digit.toNat - 0x30)) value,
        position + digits.length) := by
  induction digits generalizing rounds value position with
  | nil =>
      cases rounds with
      | zero => rfl
      | succ rounds =>
          rw [octalMore, h.peek, List.nil_append]
          cases hnext : following.head? with
          | none => rfl
          | some byte =>
              dsimp only
              rw [if_neg (by rw [hfollowing (Nat.succ_pos _) byte hnext]; decide)]
              rfl
  | cons digit digits ih =>
      obtain ⟨rounds, rfl⟩ := Nat.exists_eq_succ_of_ne_zero
        (show rounds ≠ 0 by rw [List.length_cons] at hlength; omega)
      have hdigit := hdigits digit (by simp)
      obtain ⟨hlow, hhigh⟩ := octal_range hdigit
      -- A digit takes one of the rounds, and with it one of the factors of the bound.
      have hstep : (value * 8 + (digit.toNat - 0x30) + 1) * 8 ^ rounds ≤ 2 ^ 32 := by
        refine Nat.le_trans ?_ hvalue
        rw [Nat.pow_succ, Nat.mul_comm (8 ^ rounds), ← Nat.mul_assoc]
        exact Nat.mul_le_mul_right _ (by omega)
      have hsum : value * 8 + (digit.toNat - 0x30) < 2 ^ 32 := by
        have := Nat.le_mul_of_pos_right (value * 8 + (digit.toNat - 0x30) + 1)
          (Nat.pow_pos (by decide) : 0 < 8 ^ rounds)
        omega
      have hpeek : source[position]? = some digit := h.peek
      rw [octalMore, hpeek]
      dsimp only
      rw [if_pos hdigit, less_eq hlow, gives_bind, counter_eq (by omega), gives_bind,
        counter_eq hsum, gives_bind, h.address hsource 1 (by decide), gives_bind,
        ih h.next (Nat.le_of_succ_le_succ hlength)
          (fun other hother => hdigits other (by simp [hother]))
          (fun hshort => hfollowing (Nat.succ_lt_succ hshort)) hstep,
        List.foldl_cons, List.length_cons, Nat.add_assoc, Nat.add_comm 1]

private theorem escape_octal {digits : Bytes} (h : At source position (digits ++ following))
    (hlength : 0 < digits.length ∧ digits.length ≤ 3)
    (hdigits : ∀ digit ∈ digits, Byte.isOctalDigit digit = true)
    (hfollowing : digits.length < 3 →
      ∀ byte, following.head? = some byte → Byte.isOctalDigit byte = false) :
    Cursor.escape source position =
      .gives ([UInt8.ofNat (octalNumber digits % 256)], position + digits.length) := by
  obtain ⟨digit, digits, rfl⟩ := List.exists_cons_of_length_pos hlength.1
  have hdigit := hdigits digit (by simp)
  have hne : ∀ {other : UInt8}, Byte.isOctalDigit other = false → digit ≠ other :=
    Byte.ne_of_class hdigit
  have hlow := octal_range hdigit
  have hmore := octalMore_eq hsource h.next (Nat.le_of_succ_le_succ hlength.2)
    (fun other hother => hdigits other (by simp [hother]))
    (fun hshort => hfollowing (Nat.succ_lt_succ hshort))
    (show (digit.toNat - 0x30 + 1) * 8 ^ 2 ≤ 2 ^ 32 by omega)
  have hpeek : source[position]? = some digit := h.peek
  rw [Cursor.escape, hpeek]
  dsimp only
  rw [h.address hsource 1 (by decide), gives_bind, if_neg (hne rfl), if_neg (hne rfl),
    if_neg (hne rfl), if_neg (hne rfl), if_neg (hne rfl), if_neg (hne rfl), if_neg (hne rfl),
    if_pos hdigit, less_eq hlow.1, gives_bind, hmore, gives_bind, List.length_cons,
    Nat.add_comm digits.length, ← Nat.add_assoc, octalNumber, List.foldl_cons]
  simp

private theorem escape_escaped {byte : UInt8} (h : At source position (byte :: following))
    (hbyte : Byte.isOctalDigit byte = false ∧ Byte.isLineEnd byte = false) :
    Cursor.escape source position = .gives ([escapedValue byte], position + 1) := by
  obtain ⟨hoctal, hend⟩ := hbyte
  simp only [Byte.isLineEnd, Bool.or_eq_false_iff, decide_eq_false_iff_not] at hend
  have hpeek : source[position]? = some byte := h.peek
  rw [Cursor.escape, hpeek]
  dsimp only
  rw [h.address hsource 1 (by decide), gives_bind]
  simp only [escapedValue, if_neg hend.1, if_neg hend.2, hoctal, Bool.false_eq_true, if_false]
  repeat' split
  all_goals rfl

private theorem escape_continued {lineEnd : LineEnd}
    (h : At source position (lineEnd.text ++ following))
    (hfits : (Piece.continued lineEnd).Fits following) :
    Cursor.escape source position = .gives ([], position + lineEnd.text.length) := by
  have haddress := h.address hsource 1 (by decide)
  cases lineEnd with
  | feed =>
      have hpeek : source[position]? = some 0x0A := h.peek
      rw [Cursor.escape, hpeek]
      dsimp only
      rw [haddress]
      rfl
  | carriage =>
      have hpeek : source[position]? = some 0x0D := h.peek
      have hnext : ¬ source[position + 1]? = some 0x0A := by
        rw [At.peek (At.next h)]
        exact hfits
      rw [Cursor.escape, hpeek]
      dsimp only
      rw [haddress, gives_bind, if_neg (by decide), if_neg (by decide), if_neg (by decide),
        if_neg (by decide), if_neg (by decide), if_pos rfl, if_neg hnext]
      rfl
  | carriageFeed =>
      have hpeek : source[position]? = some 0x0D := h.peek
      have hfeed : At source (position + 1) (0x0A :: following) := At.next h
      have hnext : source[position + 1]? = some 0x0A := hfeed.peek
      rw [Cursor.escape, hpeek]
      dsimp only
      rw [haddress, gives_bind, if_neg (by decide), if_neg (by decide), if_neg (by decide),
        if_neg (by decide), if_neg (by decide), if_pos rfl, if_pos hnext,
        hfeed.address hsource 1 (by decide)]
      rfl

private theorem literalFrom_backslash {depth : Nat} (h : At source position (0x5C :: following)) :
    literalFrom source opening (rounds + 1) depth position = do
      let (escaped, behind) ← Cursor.escape source (position + 1)
      let (bytes, stop) ← literalFrom source opening rounds depth behind
      return (escaped ++ bytes, stop) := by
  have hpeek : source[position]? = some 0x5C := h.peek
  rw [literalFrom, hpeek]
  dsimp only
  rw [h.address hsource 1 (by decide), gives_bind, if_neg (by decide), if_neg (by decide),
    if_pos rfl]

private theorem literalFrom_piece (piece : Piece)
    (h : At source position (piece.text ++ following)) (hfits : piece.Fits following)
    (hcloses : piece.closes ≤ inner + piece.opens) (hdepth : inner < position) :
    literalFrom source opening (rounds + 1) (inner + 1) position = do
      let (bytes, stop) ← literalFrom source opening rounds
        (inner + piece.opens - piece.closes + 1) (position + piece.text.length)
      return (piece.meaning ++ bytes, stop) := by
  have haddress := h.address hsource 1 (by decide)
  cases piece with
  | plain byte hbyte =>
      have hpeek : source[position]? = some byte := h.peek
      rw [literalFrom, hpeek]
      dsimp only
      rw [haddress, gives_bind, if_neg hbyte.1, if_neg hbyte.2.1, if_neg hbyte.2.2]
      rfl
  | opening =>
      have hpeek : source[position]? = some 0x28 := h.peek
      have hnext := (At.next h).le_length
      rw [literalFrom, hpeek]
      dsimp only
      rw [haddress, gives_bind, if_pos rfl, counter_eq (by omega)]
      rfl
  | closing =>
      have hpeek : source[position]? = some 0x29 := h.peek
      -- Nothing is closed that is not open, so that the string goes on.
      obtain ⟨outer, rfl⟩ := Nat.exists_eq_add_of_le' hcloses
      rw [literalFrom, hpeek]
      dsimp only
      rw [haddress, gives_bind, if_neg (by decide), if_pos rfl, less_eq (Nat.le_add_left _ _),
        gives_bind, if_neg (by simp [Piece.closes])]
      rfl
  | escaped byte hbyte =>
      rw [literalFrom_backslash hsource h, escape_escaped hsource (At.next h) hbyte]
      rfl
  | octal digits hlength hdigits =>
      rw [literalFrom_backslash hsource h,
        escape_octal hsource (At.next h) hlength hdigits hfits, gives_bind, Piece.text,
        List.length_cons, Nat.add_comm digits.length, ← Nat.add_assoc]
      rfl
  | continued lineEnd =>
      rw [literalFrom_backslash hsource h, escape_continued hsource (At.next h) hfits,
        gives_bind, Piece.text, List.length_cons, Nat.add_comm lineEnd.text.length,
        ← Nat.add_assoc]
      rfl

variable (rounds opening) in
private theorem literalFrom_textOf {pieces : List Piece}
    (h : At source position (textOf pieces ++ more)) (hfit : Fit pieces)
    (hnested : Nested inner pieces) (hdepth : inner < position)
    (hmore : more.head?.all (fun byte => !Byte.isOctalDigit byte && byte ≠ 0x0A) = true) :
    literalFrom source opening (pieces.length + rounds) (inner + 1) position = do
      let (bytes, stop) ← literalFrom source opening rounds
        (inner + opened pieces - closed pieces + 1) (position + (textOf pieces).length)
      return (meaningOf pieces ++ bytes, stop) := by
  induction pieces generalizing inner position with
  | nil =>
      simp only [List.length_nil, Nat.zero_add, textOf_nil, opened, closed, Nat.add_zero,
        Nat.sub_zero]
      cases literalFrom source opening rounds (inner + 1) position <;> rfl
  | cons piece pieces ih =>
      obtain ⟨hfirst, hothers⟩ := nested_cons.1 hnested
      have hpositive := List.length_pos_iff.2 piece.text_ne_nil
      have hone : piece.opens ≤ 1 := by cases piece <;> simp [Piece.opens]
      rw [textOf_cons, List.append_assoc] at h
      rw [List.length_cons, Nat.add_right_comm,
        literalFrom_piece hsource piece h (hfit.1.append hmore) hfirst hdepth,
        ih h.append hfit.2 hothers (by omega)]
      have hdepths : inner + piece.opens - piece.closes + opened pieces - closed pieces =
          inner + opened (piece :: pieces) - closed (piece :: pieces) := by
        rw [opened_cons, closed_cons]
        omega
      rw [hdepths, textOf_cons, List.length_append, ← Nat.add_assoc, meaningOf_cons]
      cases literalFrom source opening rounds
        (inner + opened (piece :: pieces) - closed (piece :: pieces) + 1)
        (position + piece.text.length + (textOf pieces).length) with
      | gives found => simp
      | _ => rfl

private theorem literalString_textOf {pieces : List Piece}
    (h : At source opening (0x28 :: tail)) (htail : tail = textOf pieces ++ more)
    (hfit : Fit pieces) (hnested : Nested 0 pieces)
    (hmore : more.head?.all (fun byte => !Byte.isOctalDigit byte && byte ≠ 0x0A) = true) :
    ∃ rounds stop, At source stop more ∧ literalString source opening = do
      let (bytes, behind) ← literalFrom source opening (rounds + 1)
        (opened pieces - closed pieces + 1) stop
      return (meaningOf pieces ++ bytes, behind) := by
  subst htail
  have hstart := h.next
  have hlength := h.length_eq
  have hpieces := length_pieces_le pieces
  rw [List.length_cons, List.length_append] at hlength
  obtain ⟨rounds, hrounds⟩ := Nat.exists_eq_add_of_le (show pieces.length ≤ source.length by omega)
  refine ⟨rounds, _, hstart.append, ?_⟩
  rw [literalString, h.address hsource 1 (by decide), gives_bind, hrounds, Nat.add_assoc]
  have hread := literalFrom_textOf hsource (rounds + 1) opening hstart hfit hnested
    (Nat.succ_pos opening) hmore
  rwa [Nat.zero_add, Nat.zero_add] at hread

theorem literalString_agrees (h : At source opening (0x28 :: tail)) :
    Agrees source (literalString source opening) ((Literal.take 0x28 tail).map Taken.pair) := by
  rcases spelled_or_open tail with ⟨pieces, rest, hspelled⟩ | hopen | hopen
  · obtain ⟨shorter, htake⟩ := take_spelled hspelled
    obtain ⟨hfit, ⟨hnested, hclosed⟩, htail⟩ := hspelled
    obtain ⟨rounds, stop, hstop, hread⟩ :=
      literalString_textOf hsource h htail hfit hnested (by rfl)
    have hpeek : source[stop]? = some 0x29 := hstop.peek
    rw [htake, hread, hclosed, Nat.sub_self, literalFrom, hpeek]
    dsimp only
    rw [hstop.address hsource 1 (by decide), gives_bind, if_neg (by decide), if_pos rfl,
      less_eq (by decide), gives_bind, if_pos rfl, pure_eq, gives_bind, List.append_nil]
    exact .gives hstop.next
  · rw [take_open hopen]
    obtain ⟨pieces, hfit, hnested, htail⟩ := hopen
    obtain ⟨rounds, stop, hstop, hread⟩ :=
      literalString_textOf hsource h htail hfit hnested (by rfl)
    have hpeek : source[stop]? = none := hstop.peek
    rw [hread, literalFrom, hpeek]
    exact .of_at h _
  · rw [take_open_backslash hopen]
    obtain ⟨pieces, hfit, hnested, htail⟩ := hopen
    obtain ⟨rounds, stop, hstop, hread⟩ :=
      literalString_textOf hsource h htail hfit hnested (by decide)
    have hend : source[stop + 1]? = none := hstop.next.peek
    rw [hread, literalFrom_backslash hsource hstop, Cursor.escape, hend]
    exact .of_at hstop.next _

end Literals

/-! ## Hexadecimal strings -/

section Hexadecimal

private theorem extent_digits (digits input : Bytes) :
    Hex.extent digits input =
      (Hex.extent [] input).map fun found => (digits.reverse ++ found.1, found.2) := by
  induction input generalizing digits with
  | nil => rfl
  | cons byte input ih =>
      rw [Hex.extent, Hex.extent]
      split
      · simp [Except.map]
      split
      · exact ih digits
      cases Byte.hexValue? byte with
      | none => rfl
      | some digit =>
          dsimp only
          rw [ih (digit :: digits), ih [digit]]
          cases Hex.extent [] input <;> simp [Except.map]

private theorem joinPairs_eq : (digits : Bytes) →
    joinPairs (if digits.length % 2 = 0 then digits else digits ++ [0]) = .gives (Hex.pairs digits)
  | [] => rfl
  | [high] => by
      show Checked.gives [high * 16 + 0] = _
      rw [UInt8.add_zero]
      rfl
  | high :: low :: digits => by
      have hpad : (if (high :: low :: digits).length % 2 = 0 then high :: low :: digits
            else high :: low :: digits ++ [0]) =
          high :: low :: (if digits.length % 2 = 0 then digits else digits ++ [0]) := by
        rw [List.length_cons, List.length_cons, Nat.add_assoc, Nat.add_mod_right]
        split <;> rfl
      rw [hpad, joinPairs, joinPairs_eq digits]
      rfl

variable {source : Bytes} (hsource : source.length < 2 ^ 32) {rounds position opening : Nat}
  {input tail whole : Bytes}
include hsource

private theorem hexDigits_agrees (hopening : At source opening whole)
    (h : At source position input) (hrounds : input.length < rounds) :
    Agrees source (hexDigits source opening rounds position)
      ((Hex.extent [] input).mapError fun stuck? => stuck?.getD ⟨whole, .unterminatedHex⟩) := by
  induction input generalizing rounds position with
  | nil =>
      obtain ⟨rounds, rfl⟩ := Nat.exists_eq_succ_of_ne_zero (Nat.ne_zero_of_lt hrounds)
      rw [hexDigits, h.peek]
      exact .of_at hopening _
  | cons byte input ih =>
      obtain ⟨rounds, rfl⟩ := Nat.exists_eq_succ_of_ne_zero (Nat.ne_zero_of_lt hrounds)
      have hmore := ih h.next (Nat.lt_of_succ_lt_succ hrounds)
      rw [hexDigits, h.peek, List.head?_cons, Hex.extent]
      dsimp only
      rw [h.address hsource 1 (by decide), gives_bind]
      split
      · exact .gives h.next
      split
      · exact hmore
      cases Byte.hexValue? byte with
      | none => exact .of_at h.next _
      | some digit =>
          dsimp only
          rw [extent_digits]
          cases hextent : Hex.extent [] input with
          | error stuck? =>
              rw [hextent] at hmore
              rw [hmore.of_error]
              exact .fails _
          | ok found =>
              rw [hextent] at hmore
              obtain ⟨stop, hread, hstop⟩ := hmore.of_ok
              rw [hread]
              exact .gives hstop

theorem hexString_agrees {first : UInt8} (h : At source opening (first :: tail)) :
    Agrees source (hexString source opening) ((Hex.take first tail).map Taken.pair) := by
  have hdigits := hexDigits_agrees hsource h h.next h.next.rounds
  rw [hexString, h.address hsource 1 (by decide), gives_bind, Hex.take]
  split
  next digits rest hextent =>
    rw [hextent] at hdigits
    obtain ⟨stop, hread, hstop⟩ := hdigits.of_ok
    rw [hread, gives_bind]
    dsimp only
    rw [joinPairs_eq]
    exact .gives hstop
  next stuck hextent =>
    rw [hextent] at hdigits
    rw [hdigits.of_error]
    exact .fails _
  next hextent =>
    rw [hextent] at hdigits
    rw [hdigits.of_error]
    exact .fails _

end Hexadecimal

end Cursor

end ContentStream
