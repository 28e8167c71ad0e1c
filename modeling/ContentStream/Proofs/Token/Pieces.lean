import ContentStream.Proofs.Token.Basic

/-!
# Spellings of literal strings

The text of a literal string is a sequence of pieces: bytes and parentheses that stand for
themselves, and escapes.  Every spelling in which the parentheses are balanced is read as
what its pieces stand for.  Every input is either such a spelling and more behind its
closing parenthesis, or it ends inside the string.
-/

namespace ContentStream.Literal

inductive LineEnd where
  | feed
  | carriage
  | carriageFeed

def LineEnd.text : LineEnd → Bytes
  | .feed => [0x0A]
  | .carriage => [0x0D]
  | .carriageFeed => [0x0D, 0x0A]

inductive Piece where
  | plain (byte : UInt8) (h : byte ≠ 0x28 ∧ byte ≠ 0x29 ∧ byte ≠ 0x5C)
  | opening
  | closing
  | escaped (byte : UInt8) (h : Byte.isOctalDigit byte = false ∧ Byte.isLineEnd byte = false)
  | octal (digits : Bytes) (hlength : 0 < digits.length ∧ digits.length ≤ 3)
      (hdigits : ∀ digit ∈ digits, Byte.isOctalDigit digit = true)
  | continued (lineEnd : LineEnd)

def escapedValue (byte : UInt8) : UInt8 :=
  if byte = 0x6E then 0x0A
  else if byte = 0x72 then 0x0D
  else if byte = 0x74 then 0x09
  else if byte = 0x62 then 0x08
  else if byte = 0x66 then 0x0C
  else byte

def octalNumber (digits : Bytes) : Nat :=
  digits.foldl (fun number digit => number * 8 + (digit.toNat - 0x30)) 0

namespace Piece

def text : Piece → Bytes
  | .plain byte _ => [byte]
  | .opening => [0x28]
  | .closing => [0x29]
  | .escaped byte _ => [0x5C, byte]
  | .octal digits _ _ => 0x5C :: digits
  | .continued lineEnd => 0x5C :: lineEnd.text

def meaning : Piece → Bytes
  | .plain byte _ => [byte]
  | .opening => [0x28]
  | .closing => [0x29]
  | .escaped byte _ => [escapedValue byte]
  | .octal digits _ _ => [UInt8.ofNat (octalNumber digits % 256)]
  | .continued _ => []

def opens : Piece → Nat
  | .opening => 1
  | _ => 0

def closes : Piece → Nat
  | .closing => 1
  | _ => 0

/-- What follows is not taken for a part of the piece. -/
def Fits (following : Bytes) : Piece → Prop
  | .octal digits _ _ => digits.length < 3 →
    ∀ byte, following.head? = some byte → Byte.isOctalDigit byte = false
  | .continued .carriage => following.head? ≠ some 0x0A
  | _ => True

theorem text_ne_nil (piece : Piece) : piece.text ≠ [] := by
  cases piece <;> simp [text]

theorem Fits.of_append {piece : Piece} {following more : Bytes}
    (h : piece.Fits (following ++ more)) : piece.Fits following := by
  cases following with
  | nil =>
      cases piece with
      | octal => exact fun _ byte hbyte => by simp at hbyte
      | continued lineEnd => cases lineEnd <;> simp [Fits]
      | _ => trivial
  | cons byte following => exact h

end Piece

def textOf (pieces : List Piece) : Bytes :=
  pieces.flatMap Piece.text

def meaningOf (pieces : List Piece) : Bytes :=
  pieces.flatMap Piece.meaning

def opened : List Piece → Nat
  | [] => 0
  | piece :: pieces => piece.opens + opened pieces

def closed : List Piece → Nat
  | [] => 0
  | piece :: pieces => piece.closes + closed pieces

def Fit : List Piece → Prop
  | [] => True
  | piece :: pieces => piece.Fits (textOf pieces) ∧ Fit pieces

/-- Nothing is closed that is not open, where at first the given number is. -/
def Nested (inner : Nat) (pieces : List Piece) : Prop :=
  ∀ before, before <+: pieces → closed before ≤ inner + opened before

def Balanced (pieces : List Piece) : Prop :=
  Nested 0 pieces ∧ closed pieces = opened pieces

section Counting

variable {piece : Piece} {pieces : List Piece} {inner : Nat}

@[simp] theorem textOf_nil : textOf [] = [] := rfl

@[simp] theorem textOf_cons : textOf (piece :: pieces) = piece.text ++ textOf pieces := rfl

@[simp] theorem meaningOf_cons :
    meaningOf (piece :: pieces) = piece.meaning ++ meaningOf pieces := rfl

@[simp] theorem opened_cons : opened (piece :: pieces) = piece.opens + opened pieces := rfl

@[simp] theorem closed_cons : closed (piece :: pieces) = piece.closes + closed pieces := rfl

theorem nested_nil (inner : Nat) : Nested inner [] := by
  intro before hbefore
  rw [List.prefix_nil.1 hbefore]
  simp [closed]

theorem nested_cons : Nested inner (piece :: pieces) ↔
    piece.closes ≤ inner + piece.opens ∧ Nested (inner + piece.opens - piece.closes) pieces := by
  constructor
  · intro h
    have hfirst := h [piece] (List.prefix_append [piece] pieces)
    refine ⟨hfirst, fun before hbefore => ?_⟩
    have hmore := h (piece :: before) ((List.prefix_cons_inj piece).2 hbefore)
    rw [closed_cons, opened_cons] at hmore
    omega
  · rintro ⟨hfirst, hmore⟩ before hbefore
    rcases List.prefix_cons_iff.1 hbefore with rfl | ⟨others, rfl, hothers⟩
    · simp [closed]
    · have := hmore others hothers
      rw [closed_cons, opened_cons]
      omega

private theorem opened_insert {before : List Piece} (h : piece.opens = 0) :
    opened (before ++ piece :: pieces) = opened (before ++ pieces) := by
  induction before with
  | nil => simp [h]
  | cons first before ih => simp [ih]

private theorem closed_insert {before : List Piece} (h : piece.closes = 0) :
    closed (before ++ piece :: pieces) = closed (before ++ pieces) := by
  induction before with
  | nil => simp [h]
  | cons first before ih => simp [ih]

theorem balanced_insert {before : List Piece} (hopens : piece.opens = 0)
    (hcloses : piece.closes = 0) :
    Balanced (before ++ piece :: pieces) ↔ Balanced (before ++ pieces) := by
  have hnested : ∀ inner, Nested inner (before ++ piece :: pieces) ↔
      Nested inner (before ++ pieces) := by
    induction before with
    | nil =>
        intro inner
        rw [List.nil_append, List.nil_append, nested_cons, hopens, hcloses]
        simp
    | cons first before ih =>
        intro inner
        rw [List.cons_append, List.cons_append, nested_cons, nested_cons, ih]
  rw [Balanced, Balanced, hnested, opened_insert hopens, closed_insert hcloses]

end Counting

/-! ## The extent -/

section Extent

variable {inner : Nat} {text rest : Bytes}

private theorem extent_run (run : Bytes)
    (h : ∀ byte ∈ run, byte ≠ 0x28 ∧ byte ≠ 0x29 ∧ byte ≠ 0x5C) :
    extent inner false text (run ++ rest) = extent inner false (run.reverse ++ text) rest := by
  induction run generalizing text with
  | nil => rfl
  | cons byte run ih =>
      obtain ⟨hopening, hclosing, hbackslash⟩ := h byte (by simp)
      have hfirst : extent inner false text (byte :: (run ++ rest)) =
          extent inner false (byte :: text) (run ++ rest) := by
        simp only [extent, Bool.false_eq_true, if_false, if_neg hbackslash, if_neg hopening,
          if_neg hclosing]
      rw [List.cons_append, hfirst, ih fun other hother => h other (by simp [hother])]
      simp

private theorem extent_escape (byte : UInt8) (run : Bytes)
    (h : ∀ byte ∈ run, byte ≠ 0x28 ∧ byte ≠ 0x29 ∧ byte ≠ 0x5C) :
    extent inner false text (0x5C :: byte :: run ++ rest) =
      extent inner false ((0x5C :: byte :: run).reverse ++ text) rest := by
  -- The backslash marks the byte behind it, so that this byte is not looked at.
  have hfirst : extent inner false text (0x5C :: byte :: (run ++ rest)) =
      extent inner false (byte :: 0x5C :: text) (run ++ rest) := by
    simp only [extent, Bool.false_eq_true, if_false, if_true]
  rw [List.cons_append, List.cons_append, hfirst, extent_run run h]
  simp

theorem extent_piece (piece : Piece) (h : piece.closes ≤ inner + piece.opens) :
    extent inner false text (piece.text ++ rest) =
      extent (inner + piece.opens - piece.closes) false (piece.text.reverse ++ text) rest := by
  cases piece with
  | plain byte hbyte => exact extent_run [byte] (by simpa using hbyte)
  | opening => rfl
  | closing =>
      cases inner with
      | zero => simp [Piece.closes, Piece.opens] at h
      | succ outer => rfl
  | escaped byte => exact extent_escape byte [] (by simp)
  | octal digits hlength hdigits =>
      cases digits with
      | nil => simp at hlength
      | cons digit digits =>
          refine extent_escape digit digits fun other hother => ?_
          have hoctal := hdigits other (by simp [hother])
          exact ⟨Byte.ne_of_class hoctal rfl, Byte.ne_of_class hoctal rfl,
            Byte.ne_of_class hoctal rfl⟩
  | continued lineEnd =>
      cases lineEnd with
      | feed => exact extent_escape 0x0A [] (by simp)
      | carriage => exact extent_escape 0x0D [] (by simp)
      | carriageFeed => exact extent_escape 0x0D [0x0A] (by simp)

theorem extent_textOf {pieces : List Piece} (h : Nested inner pieces) :
    extent inner false text (textOf pieces ++ rest) =
      extent (inner + opened pieces - closed pieces) false ((textOf pieces).reverse ++ text)
        rest := by
  induction pieces generalizing inner text with
  | nil => rfl
  | cons piece pieces ih =>
      obtain ⟨hfirst, hmore⟩ := nested_cons.1 h
      rw [textOf_cons, List.append_assoc, extent_piece piece hfirst, ih hmore]
      congr 1
      · rw [opened_cons, closed_cons]
        omega
      · simp

end Extent

theorem octal_range {digit : UInt8} (h : Byte.isOctalDigit digit = true) :
    0x30 ≤ digit.toNat ∧ digit.toNat ≤ 0x37 := by
  simpa [Byte.isOctalDigit, UInt8.le_iff_toNat_le] using h

private theorem foldl_octal {digits : Bytes}
    (h : ∀ digit ∈ digits, Byte.isOctalDigit digit = true) (number : Nat) :
    digits.foldl (fun value digit => value * 8 + (digit - 0x30)) (UInt8.ofNat number) =
      UInt8.ofNat
        (digits.foldl (fun number digit => number * 8 + (digit.toNat - 0x30)) number) := by
  induction digits generalizing number with
  | nil => rfl
  | cons digit digits ih =>
      have hvalue : UInt8.ofNat (digit.toNat - 0x30) = digit - 0x30 := by
        have := UInt8.ofNat_sub (a := digit.toNat) (b := 0x30) (octal_range (h digit (by simp))).1
        rwa [UInt8.ofNat_toNat] at this
      rw [List.foldl_cons, List.foldl_cons, ← ih fun other hother => h other (by simp [hother]),
        UInt8.ofNat_add, UInt8.ofNat_mul, hvalue]
      rfl

theorem octalValue_eq {digits : Bytes} (h : ∀ digit ∈ digits, Byte.isOctalDigit digit = true) :
    octalValue digits = UInt8.ofNat (octalNumber digits % 256) := by
  rw [UInt8.ofNat_mod_size]
  exact foldl_octal h 0

theorem octalRun_append {digits following : Bytes} (hlength : digits.length ≤ 3)
    (hdigits : ∀ digit ∈ digits, Byte.isOctalDigit digit = true)
    (hfollowing : digits.length < 3 →
      ∀ byte, following.head? = some byte → Byte.isOctalDigit byte = false) :
    octalRun (digits ++ following) = digits := by
  rw [octalRun, List.take_append, List.take_of_length_le hlength]
  refine Bytes.takeWhile_append hdigits fun byte hbyte => ?_
  by_cases hshort : digits.length < 3
  · refine hfollowing hshort byte ?_
    rwa [List.head?_take, if_neg (by omega)] at hbyte
  · rw [show 3 - digits.length = 0 by omega] at hbyte
    simp at hbyte

private theorem decodeFrom_length (skipped rest : Bytes) :
    decodeFrom skipped.length (skipped ++ rest) = decodeFrom 0 rest := by
  induction skipped with
  | nil => rfl
  | cons byte skipped ih => exact ih

private theorem decodeFrom_escape (escapeText : Bytes) {value following : Bytes}
    (h : escape (escapeText ++ following) = (value, escapeText.length)) :
    decodeFrom 0 (0x5C :: escapeText ++ following) = value ++ decodeFrom 0 following := by
  rw [List.cons_append, decodeFrom, if_pos rfl, h, decodeFrom_length]

private theorem escape_digits {digits following : Bytes}
    (hlength : 0 < digits.length ∧ digits.length ≤ 3)
    (hdigits : ∀ digit ∈ digits, Byte.isOctalDigit digit = true)
    (hfollowing : digits.length < 3 →
      ∀ byte, following.head? = some byte → Byte.isOctalDigit byte = false) :
    escape (digits ++ following) = ([octalValue digits], digits.length) := by
  have hrun := octalRun_append hlength.2 hdigits hfollowing
  cases digits with
  | nil => simp at hlength
  | cons digit digits =>
      have hdigit := hdigits digit (by simp)
      have hne : ∀ {other : UInt8}, Byte.isOctalDigit other = false → digit ≠ other :=
        Byte.ne_of_class hdigit
      rw [List.cons_append] at hrun ⊢
      rw [escape, if_neg (hne rfl), if_neg (hne rfl), if_neg (hne rfl), if_neg (hne rfl),
        if_neg (hne rfl), if_neg (hne rfl), if_neg (hne rfl), if_pos hdigit]
      simp only [hrun]

private theorem escape_escaped {byte : UInt8}
    (h : Byte.isOctalDigit byte = false ∧ Byte.isLineEnd byte = false) (following : Bytes) :
    escape (byte :: following) = ([escapedValue byte], 1) := by
  obtain ⟨hoctal, hend⟩ := h
  simp only [Byte.isLineEnd, Bool.or_eq_false_iff, decide_eq_false_iff_not] at hend
  simp only [escape, escapedValue, if_neg hend.1, if_neg hend.2, hoctal, Bool.false_eq_true,
    if_false]
  repeat' split
  all_goals rfl

theorem decodeFrom_piece (piece : Piece) {following : Bytes} (h : piece.Fits following) :
    decodeFrom 0 (piece.text ++ following) = piece.meaning ++ decodeFrom 0 following := by
  cases piece with
  | plain byte hbyte =>
      rw [Piece.text, List.singleton_append, decodeFrom, if_neg hbyte.2.2]
      rfl
  | opening => rfl
  | closing => rfl
  | escaped byte hbyte => exact decodeFrom_escape [byte] (escape_escaped hbyte following)
  | octal digits hlength hdigits =>
      rw [Piece.meaning, ← octalValue_eq hdigits]
      exact decodeFrom_escape digits (escape_digits hlength hdigits h)
  | continued lineEnd =>
      cases lineEnd with
      | feed => exact decodeFrom_escape [0x0A] rfl
      | carriageFeed => exact decodeFrom_escape [0x0D, 0x0A] rfl
      | carriage =>
          have hfollowing : following.head? ≠ some 0x0A := h
          refine decodeFrom_escape [0x0D] ?_
          rw [List.singleton_append, escape, if_neg (by decide), if_neg (by decide),
            if_neg (by decide), if_neg (by decide), if_neg (by decide), if_pos rfl,
            if_neg hfollowing]
          rfl

theorem decode_textOf {pieces : List Piece} (h : Fit pieces) :
    decode (textOf pieces) = meaningOf pieces := by
  induction pieces with
  | nil => rfl
  | cons piece pieces ih =>
      rw [textOf_cons, meaningOf_cons, ← ih h.2]
      exact decodeFrom_piece piece h.1

/-! ## Every input -/

/-- The input behind an opening parenthesis, up to the one that closes it. -/
def Spelled (pieces : List Piece) (rest tail : Bytes) : Prop :=
  Fit pieces ∧ Balanced pieces ∧ tail = textOf pieces ++ 0x29 :: rest

/-- The input behind opening parentheses ends before they are closed; it may end in a backslash
that nothing follows. -/
def Open (inner : Nat) (backslash : Bytes) (tail : Bytes) : Prop :=
  ∃ pieces, Fit pieces ∧ Nested inner pieces ∧ tail = textOf pieces ++ backslash

private theorem exists_octalRun (limit : Nat) (input : Bytes) : ∃ digits rest,
    input = digits ++ rest ∧ digits.length ≤ limit ∧
      (∀ digit ∈ digits, Byte.isOctalDigit digit = true) ∧
      (digits.length < limit →
        ∀ byte, rest.head? = some byte → Byte.isOctalDigit byte = false) := by
  induction limit generalizing input with
  | zero => exact ⟨[], input, rfl, Nat.le_refl _, by simp, fun h => absurd h (Nat.lt_irrefl 0)⟩
  | succ limit ih =>
      cases input with
      | nil => exact ⟨[], [], rfl, Nat.zero_le _, by simp, by simp⟩
      | cons byte input =>
          cases hbyte : Byte.isOctalDigit byte with
          | false =>
              refine ⟨[], byte :: input, rfl, Nat.zero_le _, by simp, ?_⟩
              intro _ other hother
              obtain rfl := Option.some.inj hother
              exact hbyte
          | true =>
              obtain ⟨digits, rest, rfl, hlength, hdigits, hrest⟩ := ih input
              exact ⟨byte :: digits, rest, rfl, Nat.succ_le_succ hlength,
                List.forall_mem_cons.2 ⟨hbyte, hdigits⟩, fun h => hrest (Nat.lt_of_succ_lt_succ h)⟩

private theorem exists_escape (byte : UInt8) (input : Bytes) : ∃ (piece : Piece) (rest : Bytes),
    0x5C :: byte :: input = piece.text ++ rest ∧ piece.Fits rest := by
  cases hoctal : Byte.isOctalDigit byte with
  | true =>
      obtain ⟨digits, rest, rfl, hlength, hdigits, hrest⟩ := exists_octalRun 2 input
      exact ⟨.octal (byte :: digits) ⟨Nat.succ_pos _, Nat.succ_le_succ hlength⟩
        (List.forall_mem_cons.2 ⟨hoctal, hdigits⟩), rest, rfl,
        fun h => hrest (Nat.lt_of_succ_lt_succ h)⟩
  | false =>
      by_cases hfeed : byte = 0x0A
      · subst hfeed
        exact ⟨.continued .feed, input, rfl, trivial⟩
      by_cases hcarriage : byte = 0x0D
      · subst hcarriage
        by_cases hnext : input.head? = some 0x0A
        · obtain ⟨rest, rfl⟩ := List.head?_eq_some_iff.1 hnext
          exact ⟨.continued .carriageFeed, rest, rfl, trivial⟩
        · exact ⟨.continued .carriage, input, rfl, hnext⟩
      · exact ⟨.escaped byte ⟨hoctal, by simp [Byte.isLineEnd, hfeed, hcarriage]⟩, input, rfl,
          trivial⟩

theorem exists_piece {input : Bytes} (hnil : input ≠ []) (hbackslash : input ≠ [0x5C]) :
    ∃ (piece : Piece) (rest : Bytes), input = piece.text ++ rest ∧ piece.Fits rest := by
  obtain ⟨byte, tail, rfl⟩ := List.exists_cons_of_ne_nil hnil
  by_cases hopening : byte = 0x28
  · exact ⟨.opening, tail, by rw [hopening]; rfl, trivial⟩
  by_cases hclosing : byte = 0x29
  · exact ⟨.closing, tail, by rw [hclosing]; rfl, trivial⟩
  by_cases hescape : byte = 0x5C
  · subst hescape
    cases tail with
    | nil => exact absurd rfl hbackslash
    | cons escaped tail => exact exists_escape escaped tail
  · exact ⟨.plain byte ⟨hopening, hclosing, hescape⟩, tail, rfl, trivial⟩

private theorem fit_cons {piece : Piece} {pieces : List Piece} {more : Bytes}
    (hfits : piece.Fits (textOf pieces ++ more)) (h : Fit pieces) : Fit (piece :: pieces) :=
  ⟨hfits.of_append, h⟩

theorem exists_pieces (inner : Nat) (tail : Bytes) :
    (∃ pieces rest, Fit pieces ∧ Nested inner pieces ∧ closed pieces = inner + opened pieces ∧
      tail = textOf pieces ++ 0x29 :: rest) ∨
    Open inner [] tail ∨ Open inner [0x5C] tail := by
  induction hlength : tail.length using Nat.strongRecOn generalizing inner tail with
  | _ length ih =>
    subst hlength
    by_cases hnil : tail = []
    · exact .inr (.inl ⟨[], trivial, nested_nil inner, by simpa using hnil⟩)
    by_cases hbackslash : tail = [0x5C]
    · exact .inr (.inr ⟨[], trivial, nested_nil inner, hbackslash⟩)
    obtain ⟨piece, behind, rfl, hfits⟩ := exists_piece hnil hbackslash
    by_cases hcloses : piece.closes ≤ inner + piece.opens
    · have hshorter : behind.length < (piece.text ++ behind).length := by
        have := List.length_pos_iff.2 piece.text_ne_nil
        rw [List.length_append]
        omega
      have hnested {pieces : List Piece}
          (h : Nested (inner + piece.opens - piece.closes) pieces) :
          Nested inner (piece :: pieces) := nested_cons.2 ⟨hcloses, h⟩
      rcases ih _ hshorter (inner + piece.opens - piece.closes) behind rfl with
        ⟨pieces, rest, hfit, hmore, hclosed, rfl⟩ | ⟨pieces, hfit, hmore, rfl⟩ |
        ⟨pieces, hfit, hmore, rfl⟩
      · refine .inl ⟨piece :: pieces, rest, fit_cons hfits hfit, hnested hmore, ?_, by simp⟩
        rw [closed_cons, opened_cons]
        omega
      · exact .inr (.inl ⟨piece :: pieces, fit_cons hfits hfit, hnested hmore, by simp⟩)
      · exact .inr (.inr ⟨piece :: pieces, fit_cons hfits hfit, hnested hmore, by simp⟩)
    · -- Only a parenthesis can close more than is open, and then nothing is open but the string.
      cases piece with
      | closing =>
          obtain rfl : inner = 0 := by
            simp only [Piece.closes, Piece.opens] at hcloses
            omega
          exact .inl ⟨[], behind, trivial, nested_nil 0, rfl, rfl⟩
      | _ => exact absurd (Nat.zero_le _) hcloses

theorem spelled_or_open (tail : Bytes) :
    (∃ pieces rest, Spelled pieces rest tail) ∨ Open 0 [] tail ∨ Open 0 [0x5C] tail := by
  refine (exists_pieces 0 tail).imp_left ?_
  rintro ⟨pieces, rest, hfit, hnested, hclosed, htail⟩
  exact ⟨pieces, rest, hfit, ⟨hnested, by omega⟩, htail⟩

theorem extent_spelled {pieces : List Piece} {rest tail : Bytes} (h : Spelled pieces rest tail) :
    extent 0 false [] tail = .ok (textOf pieces, rest) := by
  obtain ⟨-, ⟨hnested, hclosed⟩, rfl⟩ := h
  rw [extent_textOf hnested, hclosed, Nat.zero_add, Nat.sub_self]
  simp [extent]

theorem take_spelled {pieces : List Piece} {rest tail : Bytes} (h : Spelled pieces rest tail) :
    Took (take 0x28 tail) (meaningOf pieces) rest := by
  have hextent := extent_spelled h
  unfold take
  split
  next text behind hfound =>
    rw [hextent] at hfound
    obtain ⟨rfl, rfl⟩ := Prod.mk.inj (Except.ok.inj hfound)
    exact ⟨_, by rw [decode_textOf h.1]; rfl⟩
  next hfound => simp [hextent] at hfound
  next hfound => simp [hextent] at hfound

private theorem take_eq_error {tail : Bytes} {fault : StreamFault}
    (h : extent 0 false [] tail = .error fault) : take 0x28 tail =
      .error (if fault = .unterminatedEscape then ⟨[], fault⟩ else ⟨0x28 :: tail, fault⟩) := by
  unfold take
  split
  next hfound => simp [h] at hfound
  next hfound =>
    obtain rfl := Except.error.inj (h.symm.trans hfound)
    rfl
  next hother hfound =>
    obtain rfl := Except.error.inj (h.symm.trans hfound)
    rw [if_neg hother]

theorem take_open {tail : Bytes} (h : Open 0 [] tail) :
    take 0x28 tail = .error ⟨0x28 :: tail, .unterminatedLiteral⟩ := by
  obtain ⟨pieces, -, hnested, rfl⟩ := h
  rw [take_eq_error (extent_textOf hnested), if_neg (by decide)]
  simp

theorem take_open_backslash {tail : Bytes} (h : Open 0 [0x5C] tail) :
    take 0x28 tail = .error ⟨[], .unterminatedEscape⟩ := by
  obtain ⟨pieces, -, hnested, rfl⟩ := h
  have hextent : extent 0 false [] (textOf pieces ++ [0x5C]) = .error .unterminatedEscape := by
    rw [extent_textOf hnested]
    rfl
  rw [take_eq_error hextent, if_pos rfl]

end ContentStream.Literal
