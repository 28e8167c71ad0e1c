import ContentStream.Proofs.Token.Progress

/-!
# Failures from the inside to the outside

A reading fails as some reader inside it does, for the same reason and at the same place.
So what is true of every failure where it comes up, and of an input if it is true of a
suffix of it, is true of the failures of whole tokens.
-/

namespace ContentStream

def FailsAs {α : Type} (p : Bytes → Stuck → Prop) (input : Bytes) (result : Except Stuck α) :
    Prop :=
  ∀ stuck, result = .error stuck → p input stuck

section FailsAs

variable {α β : Type} {p : Bytes → Stuck → Prop} {input : Bytes} {result : Except Stuck α}

theorem failsAs_ok {value : α} : FailsAs p input (.ok value : Except Stuck α) := by
  intro stuck h
  contradiction

theorem failsAs_error {stuck : Stuck} (h : p input stuck) :
    FailsAs p input (.error stuck : Except Stuck α) := by
  rintro other hother
  obtain rfl := Except.error.inj hother
  exact h

theorem FailsAs.map (h : FailsAs p input result) (f : α → β) :
    FailsAs p input (result.map f) := by
  cases result with
  | ok value => exact failsAs_ok
  | error stuck => exact failsAs_error (h stuck rfl)

theorem FailsAs.of_map {f : α → β} (h : FailsAs p input (result.map f)) :
    FailsAs p input result := by
  cases result with
  | ok value => exact failsAs_ok
  | error stuck => exact failsAs_error (h stuck rfl)

end FailsAs

/-- The property is true of every failure where it comes up, and so it is of a longer input. -/
structure Covers (p : Bytes → Stuck → Prop) : Prop where
  in_suffix {place input : Bytes} {stuck : Stuck} : place <:+ input → p place stuck → p input stuck
  unterminatedLiteral (input : Bytes) : p input ⟨input, .unterminatedLiteral⟩
  unterminatedEscape (input : Bytes) : p input ⟨[], .unterminatedEscape⟩
  unterminatedHex (input : Bytes) : p input ⟨input, .unterminatedHex⟩
  hexDigit {byte : UInt8} {rest : Bytes} : Byte.hexValue? byte = none →
    p (byte :: rest) ⟨rest, .hexDigit byte⟩
  nameEncoding (input : Bytes) : p input ⟨input, .nameEncoding⟩
  number {first : UInt8} {tail : Bytes} : Numeral.isStart first = true →
    (Numeral.split (first :: tail)).1.operand? = none →
    p (first :: tail)
      ⟨first :: tail, .number (Bytes.toLatin1 (Numeral.split (first :: tail)).1.text)⟩
  unexpected {first : UInt8} {tail : Bytes} : Byte.isDelimiter first = true →
    p (first :: tail) ⟨first :: tail, .unexpected first⟩
  nesting (input : Bytes) : p input ⟨input, .nesting⟩
  unterminated (container : Container) (input : Bytes) : p input ⟨[], .unterminated container⟩
  keyExpected (container : Container) (input : Bytes) : p input ⟨input, .keyExpected container⟩
  item {levels : Nat} {input place word rest : Bytes} : Separator.skip input = place →
    (Token.read levels).Yields place (.keyword word) rest →
    p place ⟨place, .keywordInside (Utf8.decodeLossy word) .array⟩
  entry {levels : Nat} {container : Container} {slash : UInt8} {tail word rest : Bytes}
    {key : Taken String (slash :: tail)} : container ≠ .array →
    Name.take slash tail = .ok key → (Token.read levels).Yields key.rest (.keyword word) rest →
    p key.rest ⟨key.rest, .keywordInside (Utf8.decodeLossy word) container⟩
  imageDataMissing (input : Bytes) : p input ⟨input, .imageDataMissing⟩
  imageEndMissing (input : Bytes) : p input ⟨input, .imageEndMissing⟩

private theorem Literal.extent_error {inner : Nat} {escaped : Bool} {text input : Bytes}
    {fault : StreamFault} (h : extent inner escaped text input = .error fault) :
    fault = .unterminatedEscape ∨ fault = .unterminatedLiteral := by
  refine computes_scanning.holds advances_scanning
    (fun _ result => ∀ fault, result = .error fault →
      fault = .unterminatedEscape ∨ fault = .unterminatedLiteral)
    ?_ (fun _ hgood => hgood) ⟨inner, escaped, text⟩ input fault h
  rintro ⟨inner, escaped, text⟩ input result hround fault rfl
  cases input with
  | nil =>
      obtain rfl := Except.error.inj (Round.ends.inj hround)
      cases escaped
      · exact .inr rfl
      · exact .inl rfl
  | cons byte rest =>
      simp only [scanning] at hround
      split at hround
      · contradiction
      split at hround
      · contradiction
      split at hround
      · contradiction
      split at hround
      · cases inner with
        | zero => simp at hround
        | succ outer => contradiction
      · contradiction

section Covers

variable {p : Bytes → Stuck → Prop} (hp : Covers p)
include hp

theorem Literal.take_failsAs (opening : UInt8) (tail : Bytes) :
    FailsAs p (opening :: tail) (take opening tail) := by
  unfold take
  split
  next => exact failsAs_ok
  next => exact failsAs_error (hp.unterminatedEscape _)
  next hother hextent =>
    rcases extent_error hextent with rfl | rfl
    · exact absurd rfl hother
    · exact failsAs_error (hp.unterminatedLiteral _)

private theorem Hex.extent_error {digits input : Bytes} {stuck : Stuck}
    (h : extent digits input = .error (some stuck)) : p input stuck := by
  refine computes_scanning.holds advances_scanning
    (fun input result => ∀ stuck, result = .error (some stuck) → p input stuck)
    ?_ ?_ digits input stuck h
  · rintro digits input result hround stuck rfl
    cases input with
    | nil => simp [scanning] at hround
    | cons byte rest =>
        simp only [scanning] at hround
        split at hround
        · simp at hround
        split at hround
        · simp at hround
        split at hround
        · simp at hround
        next hdigit =>
          obtain rfl := Option.some.inj (Except.error.inj (Round.ends.inj hround))
          exact hp.hexDigit hdigit
  · exact fun hrest hgood stuck hresult => hp.in_suffix hrest (hgood stuck hresult)

theorem Hex.take_failsAs (opening : UInt8) (tail : Bytes) :
    FailsAs p (opening :: tail) (take opening tail) := by
  unfold take
  split
  next => exact failsAs_ok
  next hextent =>
    exact failsAs_error (hp.in_suffix (List.suffix_cons opening tail) (extent_error hp hextent))
  next => exact failsAs_error (hp.unterminatedHex _)

theorem Name.take_failsAs (slash : UInt8) (tail : Bytes) :
    FailsAs p (slash :: tail) (take slash tail) := by
  unfold take
  split
  · exact failsAs_ok
  · exact failsAs_error (hp.nameEncoding _)

theorem Numeral.take_failsAs (first : UInt8) (tail : Bytes) (h : isStart first = true) :
    FailsAs p (first :: tail) (take first tail h) := by
  unfold take
  dsimp only
  split
  next => exact failsAs_ok
  next hnone => exact failsAs_error (hp.number h hnone)

end Covers

namespace Token

variable {p : Bytes → Stuck → Prop}

/-! ## Containers -/

theorem takeOperand_error {read : Reader Token} {container : Container} {input : Bytes}
    {stuck : Stuck} (h : takeOperand read container input = .error stuck) :
    read input = .error stuck ∨ stuck = ⟨[], .unterminated container⟩ ∨
      ∃ word rest, read.Yields input (.keyword word) rest ∧
        stuck = ⟨input, .keywordInside (Utf8.decodeLossy word) container⟩ := by
  unfold takeOperand at h
  split at h
  next hread =>
    obtain rfl := Except.error.inj h
    exact .inl hread
  next => exact .inr (.inl (Except.error.inj h).symm)
  next => contradiction
  next word rest shorter hread =>
    exact .inr (.inr ⟨word, rest, ⟨shorter, hread⟩, (Except.error.inj h).symm⟩)

section Levels

variable (hp : Covers p) {levels : Nat} (hread : ∀ input, FailsAs p input (read levels input))
include hp hread

private theorem itemLoop_failsAs {items : List Operand} {input : Bytes}
    {result : Except Stuck (List Operand × Bytes)}
    (h : (itemLoop (read levels)).round items input = .ends result) : FailsAs p input result := by
  simp only [itemLoop] at h
  split at h
  next =>
    obtain rfl := Round.ends.inj h
    exact failsAs_error (hp.unterminated .array input)
  next byte tail hskip =>
    split at h
    next =>
      obtain rfl := Round.ends.inj h
      exact failsAs_ok
    next =>
      split at h
      next stuck hitem =>
        obtain rfl := Round.ends.inj h
        refine failsAs_error (hp.in_suffix (suffix_of_skip hskip) ?_)
        rcases takeOperand_error hitem with hfails | rfl | ⟨word, rest, hword, rfl⟩
        · exact hread _ _ hfails
        · exact hp.unterminated .array _
        · exact hp.item hskip hword
      next => contradiction

theorem takeItems_failsAs (items : List Operand) (input : Bytes) :
    FailsAs p input (takeItems (read levels) items input) := by
  have hloop := (computes_itemLoop (read levels)).holds (advances_itemLoop levels)
    (fun input result => FailsAs p input result) (itemLoop_failsAs hp hread)
    (fun hrest hgood stuck hstuck => hp.in_suffix hrest (hgood stuck hstuck)) items input
  exact hloop.of_map

private theorem entryLoop_failsAs {ending : EntryEnd} (hcontainer : ending.container ≠ .array)
    {entries : Dictionary} {source input : Bytes} {result : Except Stuck (Dictionary × Bytes)}
    (hunclosed : p source ending.unclosed) (hinput : input <:+ source)
    (h : (entryLoop (read levels) ending).round entries input = .ends result) :
    FailsAs p source result := by
  simp only [entryLoop] at h
  split at h
  next =>
    obtain rfl := Round.ends.inj h
    exact failsAs_error hunclosed
  next byte tail hskip =>
    have hplace := (suffix_of_skip hskip).trans hinput
    split at h
    next =>
      obtain rfl := Round.ends.inj h
      exact failsAs_ok
    next =>
      split at h
      next =>
        split at h
        next stuck hkey =>
          obtain rfl := Round.ends.inj h
          exact failsAs_error (hp.in_suffix hplace (Name.take_failsAs hp byte tail stuck hkey))
        next key hkey =>
          split at h
          next stuck hitem =>
            obtain rfl := Round.ends.inj h
            refine failsAs_error (hp.in_suffix ((Name.take_suffix hkey).trans hplace) ?_)
            rcases takeOperand_error hitem with hfails | rfl | ⟨word, rest, hword, rfl⟩
            · exact hread _ _ hfails
            · exact hp.unterminated ending.container _
            · exact hp.entry hcontainer hkey hword
          next => contradiction
      next =>
        obtain rfl := Round.ends.inj h
        exact failsAs_error (hp.in_suffix hplace (hp.keyExpected ending.container _))

theorem takeEntries_failsAs {ending : EntryEnd} (hcontainer : ending.container ≠ .array)
    (entries : Dictionary) {source input : Bytes} (hunclosed : p source ending.unclosed)
    (hinput : input <:+ source) :
    FailsAs p source (takeEntries (read levels) ending entries input) := by
  have hloop := (computes_entryLoop (read levels) ending).holds (advances_entryLoop levels ending)
    (fun input result => input <:+ source → FailsAs p source result)
    (fun hround hplace => entryLoop_failsAs hp hread hcontainer hunclosed hplace hround)
    (fun hrest hgood hplace => hgood (hrest.trans hplace)) entries input hinput
  exact hloop.of_map

end Levels

section Single

variable (hp : Covers p) {levels : Nat}
  (hread : ∀ {lower}, levels = lower + 1 → ∀ input, FailsAs p input (read lower input))
include hp hread

private theorem takeArray_failsAs (opening : UInt8) (tail : Bytes) :
    FailsAs p (opening :: tail) (takeArray (inside levels) opening tail) := by
  cases levels with
  | zero => exact failsAs_error (hp.nesting _)
  | succ lower =>
      rw [inside, takeArray]
      split
      next stuck hitems =>
        exact failsAs_error (hp.in_suffix (List.suffix_cons opening tail)
          (takeItems_failsAs hp (hread rfl) [] tail stuck hitems))
      next => exact failsAs_ok

private theorem takeDictionary_failsAs (first second : UInt8) (tail : Bytes) :
    FailsAs p (first :: second :: tail) (takeDictionary (inside levels) first second tail) := by
  cases levels with
  | zero => exact failsAs_error (hp.nesting _)
  | succ lower =>
      have hplace := (List.suffix_cons second tail).trans (List.suffix_cons first _)
      rw [inside, takeDictionary]
      split
      next stuck hentries =>
        exact failsAs_error (takeEntries_failsAs hp (hread rfl) (by decide) []
          (hp.unterminated .dictionary _) hplace stuck hentries)
      next => exact failsAs_ok

private theorem takeFirst_failsAs (first : UInt8) (tail : Bytes) :
    FailsAs p (first :: tail) (takeFirst (inside levels) first tail) := by
  have hhex := (Hex.take_failsAs hp first tail).map
    (Taken.map fun bytes => Token.operand (.hexString bytes))
  unfold takeFirst
  split
  · exact (Literal.take_failsAs hp first tail).map _
  split
  · cases tail with
    | nil => exact hhex
    | cons second tail =>
        rw [takeAngle]
        split
        · exact takeDictionary_failsAs hp hread first second tail
        · exact hhex
  split
  · exact takeArray_failsAs hp hread first tail
  split
  · exact (Name.take_failsAs hp first tail).map _
  split
  next hstart => exact (Numeral.take_failsAs hp first tail hstart).map _
  next =>
    split
    next hdelimiter => exact failsAs_error (hp.unexpected hdelimiter)
    next => exact failsAs_ok

private theorem readWith_failsAs (input : Bytes) :
    FailsAs p input (readWith (inside levels) input) := by
  unfold readWith
  split
  next => exact failsAs_ok
  next first tail hskip =>
    split
    next stuck hfirst =>
      exact failsAs_error (hp.in_suffix (suffix_of_skip hskip)
        (takeFirst_failsAs hp hread first tail stuck hfirst))
    next => exact failsAs_ok

end Single

theorem read_failsAs (hp : Covers p) (levels : Nat) (input : Bytes) :
    FailsAs p input (read levels input) := by
  induction levels generalizing input with
  | zero =>
      rw [read_eq]
      exact readWith_failsAs hp (fun h => by simp at h) input
  | succ levels ih =>
      rw [read_eq]
      refine readWith_failsAs hp (fun {lower} h => ?_) input
      obtain rfl : levels = lower := by omega
      exact ih

end Token

end ContentStream
