import ContentStream.Proofs.PageRange
import ContentStream.Proofs.Text.Blank

/-!
# Selections as they are written

The pieces of a selection stand between its commas.  A piece that is not blank has to be a
numeral of a page, or two of them around its first hyphen in increasing order.  These are
properties of the text alone; the selections that are accepted are exactly those whose pieces
have them, and one that is refused is refused for the first piece that lacks them.
-/

namespace ContentStream.PageRange

open Text (Blank)

variable {count page first last : Nat} {text piece start stop : List Char} {fault : Fault}

/-- Digits with a value of at most 64 bits; a plus sign may stand before them, blanks around. -/
def IsNumeral (text : List Char) (value : Nat) : Prop :=
  ∃ before sign digits after, text = before ++ (sign ++ digits) ++ after ∧
    Blank before ∧ Blank after ∧ (sign = [] ∨ sign = ['+']) ∧
    digits ≠ [] ∧ (∀ char ∈ digits, char.isDigit = true) ∧
    Nat.ofDigitChars 10 digits 0 = value ∧ value < UInt64.size

/-- The text is a numeral of one of the pages, which are counted from one. -/
def IsPage (count : Nat) (text : List Char) (page : Nat) : Prop :=
  IsNumeral text page ∧ 0 < page ∧ page ≤ count

inductive NumberFails (count : Nat) (text : List Char) : Fault → Prop
  | malformed (h : ∀ value, ¬IsNumeral text value) :
      NumberFails count text (.number (String.ofList (Text.trim text)))
  | zero (h : IsNumeral text 0) : NumberFails count text .zero
  | pastEnd {page : Nat} (h : IsNumeral text page) (hpast : count < page) :
      NumberFails count text (.pastEnd page count)

private theorem natural?_of_sign {sign digits : List Char} (hsign : sign = [] ∨ sign = ['+'])
    (hne : digits ≠ []) (hdigits : ∀ char ∈ digits, char.isDigit = true)
    (hsize : Nat.ofDigitChars 10 digits 0 < UInt64.size) :
    natural? (sign ++ digits) = some (Nat.ofDigitChars 10 digits 0) := by
  have hread : Number.natOfChars? digits = some (Nat.ofDigitChars 10 digits 0) := by
    simp [Number.natOfChars?, hne, List.all_eq_true.2 hdigits]
  have hrest : (if (sign ++ digits).head? = some '+' then (sign ++ digits).drop 1
      else sign ++ digits) = digits := by
    rcases hsign with rfl | rfl
    · refine if_neg fun hhead => ?_
      have hplus := hdigits '+' (List.mem_of_head? hhead)
      exact absurd hplus (by decide)
    · rfl
  rw [natural?, hrest, hread]
  exact Option.filter_eq_some_iff.2 ⟨rfl, by simpa using hsize⟩

theorem isNumeral_iff {value : Nat} :
    IsNumeral text value ↔ natural? (Text.trim text) = some value := by
  constructor
  · rintro ⟨before, sign, digits, after, rfl, hbefore, hafter, hsign, hne, hdigits, rfl, hsize⟩
    have hcore : ∀ char ∈ sign ++ digits, Text.isBlank char = false := by
      intro char hchar
      rcases List.mem_append.1 hchar with hchar | hchar
      · obtain rfl : char = '+' := by
          rcases hsign with rfl | rfl
          · contradiction
          · exact List.mem_singleton.1 hchar
        rfl
      · exact Text.isBlank_of_isDigit (hdigits char hchar)
    rw [Text.trim_padded hbefore hafter, Text.trim_eq_self hcore,
      natural?_of_sign hsign hne hdigits hsize]
  · intro h
    obtain ⟨before, after, hbefore, hafter, htext⟩ := Text.exists_trim text
    rw [natural?] at h
    obtain ⟨hread, hsize⟩ := Option.filter_eq_some_iff.1 h
    have hsign : ∃ sign, Text.trim text = sign ++ (if (Text.trim text).head? = some '+' then
        (Text.trim text).drop 1 else Text.trim text) ∧ (sign = [] ∨ sign = ['+']) := by
      split
      next hhead =>
        obtain ⟨rest, hrest⟩ := List.head?_eq_some_iff.1 hhead
        exact ⟨['+'], by simp [hrest], .inr rfl⟩
      next => exact ⟨[], rfl, .inl rfl⟩
    obtain ⟨sign, hcore, hsign⟩ := hsign
    generalize (if (Text.trim text).head? = some '+' then
      (Text.trim text).drop 1 else Text.trim text) = digits at hread hcore
    rw [Number.natOfChars?] at hread
    split at hread
    next hall =>
      simp only [Bool.and_eq_true, List.all_eq_true, Bool.not_eq_true',
        List.isEmpty_eq_false_iff] at hall
      exact ⟨before, sign, digits, after, by rw [← hcore]; exact htext, hbefore, hafter, hsign,
        hall.2, hall.1, Option.some.inj hread, by simpa using hsize⟩
    next => contradiction

theorem IsNumeral.not_blank {value : Nat} (h : IsNumeral text value) : ¬Blank text := by
  intro hblank
  rw [isNumeral_iff, Text.trim_eq_nil_iff.2 hblank] at h
  contradiction

theorem number_eq_ok_iff : number count text = .ok page ↔ IsPage count text page := by
  simp only [number, IsPage, isNumeral_iff]
  cases natural? (Text.trim text) with
  | none => simp
  | some value =>
      cases value with
      | zero => simp; omega
      | succ value =>
          change (if count < value + 1 then _ else Except.ok (value + 1)) = _ ↔ _
          split
          next hpast => simp; omega
          next hle => simp; omega

theorem number_eq_error_iff : number count text = .error fault ↔ NumberFails count text fault := by
  constructor
  · intro h
    unfold number at h
    dsimp only at h
    split at h
    next hnone =>
      obtain rfl := Except.error.inj h
      exact .malformed fun value hvalue => by simp [isNumeral_iff.1 hvalue] at hnone
    next hzero =>
      obtain rfl := Except.error.inj h
      exact .zero (isNumeral_iff.2 hzero)
    next value _ hvalue =>
      split at h
      next hpast =>
        obtain rfl := Except.error.inj h
        exact .pastEnd (isNumeral_iff.2 hvalue) hpast
      next => contradiction
  · intro h
    cases h with
    | malformed h =>
        cases hvalue : natural? (Text.trim text) with
        | none => simp only [number, hvalue]
        | some value => exact absurd (isNumeral_iff.2 hvalue) (h value)
    | zero h => simp only [number, isNumeral_iff.1 h]
    | @pastEnd page h hpast =>
        obtain ⟨lower, rfl⟩ : ∃ lower, page = lower + 1 := ⟨page - 1, by omega⟩
        simp only [number, isNumeral_iff.1 h, if_pos hpast]

theorem number_congr {other : List Char} (h : Text.trim text = Text.trim other) :
    number count text = number count other := by
  simp only [number, h]

/-! ## Pieces -/

/-- The piece is a page, or leads from one page to another. -/
inductive Spans (count : Nat) (piece : List Char) : Nat → Nat → Prop
  | page {page : Nat} (hhyphen : '-' ∉ piece) (h : IsPage count piece page) :
      Spans count piece page page
  | range {start stop : List Char} {first last : Nat} (heq : piece = start ++ '-' :: stop)
      (hhyphen : '-' ∉ start) (hfirst : IsPage count start first)
      (hlast : IsPage count stop last) (hle : first ≤ last) : Spans count piece first last

/-- What is wrong with a piece; the page at its start is looked at before the one at its end. -/
inductive PieceFails (count : Nat) (piece : List Char) : Fault → Prop
  | page {fault : Fault} (hhyphen : '-' ∉ piece) (h : NumberFails count piece fault) :
      PieceFails count piece fault
  | start {start stop : List Char} {fault : Fault} (heq : piece = start ++ '-' :: stop)
      (hhyphen : '-' ∉ start) (h : NumberFails count start fault) : PieceFails count piece fault
  | stop {start stop : List Char} {first : Nat} {fault : Fault}
      (heq : piece = start ++ '-' :: stop) (hhyphen : '-' ∉ start)
      (hfirst : IsPage count start first) (h : NumberFails count stop fault) :
      PieceFails count piece fault
  | descending {start stop : List Char} {first last : Nat} (heq : piece = start ++ '-' :: stop)
      (hhyphen : '-' ∉ start) (hfirst : IsPage count start first)
      (hlast : IsPage count stop last) (hlt : last < first) :
      PieceFails count piece (.descending (String.ofList (Text.trim piece)))

theorem Spans.not_blank (h : Spans count piece first last) : ¬Blank piece := by
  intro hblank
  cases h with
  | page _ h => exact h.1.not_blank hblank
  | range heq =>
      have hhyphen := hblank '-' (by simp [heq])
      exact absurd hhyphen (by decide)

theorem Spans.le (h : Spans count piece first last) : first ≤ last := by
  cases h with
  | page => exact Nat.le_refl _
  | range _ _ _ _ hle => exact hle

private theorem pagesOf_trim_page (h : '-' ∉ piece) :
    pagesOf count (Text.trim piece) =
      number count piece >>= fun page => .ok (List.range' page 1) := by
  have hdrop : (Text.trim piece).dropWhile (· ≠ '-') = [] := by
    refine List.dropWhile_eq_nil_iff.2 fun char hchar => ?_
    simpa using fun heq : char = '-' => h (heq ▸ Text.mem_of_mem_trim hchar)
  rw [pagesOf, bounds, hdrop, number_congr (Text.trim_trim piece)]
  cases number count piece with
  | error fault => rfl
  | ok page => simp [bind, Except.bind, Except.map, pure, Except.pure]

private theorem pagesOf_trim_range (heq : piece = start ++ '-' :: stop) (h : '-' ∉ start) :
    pagesOf count (Text.trim piece) =
      number count start >>= fun first => number count stop >>= fun last =>
        if last < first then .error (.descending (String.ofList (Text.trim piece)))
        else .ok (List.range' first (last + 1 - first)) := by
  have htrim : Text.trim piece = start.dropWhile Text.isBlank ++ '-' :: Text.trimEnd stop := by
    rw [heq, Text.trim_append_cons (by decide)]
  have hstart : ∀ char ∈ start.dropWhile Text.isBlank, decide (char ≠ '-') = true := by
    intro char hchar
    simpa using fun heq : char = '-' => h (heq ▸ (List.dropWhile_suffix _).mem hchar)
  have hdrop : (Text.trim piece).dropWhile (· ≠ '-') = '-' :: Text.trimEnd stop := by
    rw [htrim, List.dropWhile_append_of_pos hstart]
    rfl
  have htake : (Text.trim piece).takeWhile (· ≠ '-') = start.dropWhile Text.isBlank := by
    rw [htrim, List.takeWhile_append_of_pos hstart]
    simp
  rw [pagesOf, bounds, hdrop, htake]
  dsimp only
  rw [number_congr (Text.trim_dropWhile start), number_congr (Text.trim_trimEnd stop)]
  cases number count start with
  | error fault => rfl
  | ok first =>
      cases number count stop with
      | error fault => rfl
      | ok last => rfl

private theorem hyphen_cases (piece : List Char) :
    '-' ∉ piece ∨ ∃ start stop, piece = start ++ '-' :: stop ∧ '-' ∉ start := by
  by_cases h : '-' ∈ piece
  · exact .inr (List.eq_append_cons_of_mem h)
  · exact .inl h

theorem pagesOf_trim_eq_ok {pages : List Nat} : pagesOf count (Text.trim piece) = .ok pages ↔
    ∃ first last, Spans count piece first last ∧ pages = List.range' first (last + 1 - first) := by
  constructor
  · intro h
    rcases hyphen_cases piece with hhyphen | ⟨start, stop, heq, hhyphen⟩
    · rw [pagesOf_trim_page hhyphen] at h
      obtain ⟨page, hpage, h⟩ := Result.bind_eq_ok.1 h
      obtain rfl := Except.ok.inj h
      exact ⟨page, page, .page hhyphen (number_eq_ok_iff.1 hpage), by simp⟩
    · rw [pagesOf_trim_range heq hhyphen] at h
      obtain ⟨first, hfirst, h⟩ := Result.bind_eq_ok.1 h
      obtain ⟨last, hlast, h⟩ := Result.bind_eq_ok.1 h
      split at h
      next => contradiction
      next hle =>
        obtain rfl := Except.ok.inj h
        exact ⟨first, last, .range heq hhyphen (number_eq_ok_iff.1 hfirst)
          (number_eq_ok_iff.1 hlast) (Nat.le_of_not_lt hle), rfl⟩
  · rintro ⟨first, last, hspans, rfl⟩
    cases hspans with
    | page hhyphen h =>
        rw [pagesOf_trim_page hhyphen]
        exact Result.bind_eq_ok.2 ⟨first, number_eq_ok_iff.2 h, by simp⟩
    | range heq hhyphen hfirst hlast hle =>
        rw [pagesOf_trim_range heq hhyphen]
        refine Result.bind_eq_ok.2 ⟨first, number_eq_ok_iff.2 hfirst, ?_⟩
        exact Result.bind_eq_ok.2 ⟨last, number_eq_ok_iff.2 hlast, if_neg (Nat.not_lt.2 hle)⟩

private theorem exists_spans_iff : (∃ pages, pagesOf count (Text.trim piece) = .ok pages) ↔
    ∃ first last, Spans count piece first last := by
  simp only [pagesOf_trim_eq_ok]
  constructor
  · rintro ⟨_, first, last, hspans, -⟩
    exact ⟨first, last, hspans⟩
  · rintro ⟨first, last, hspans⟩
    exact ⟨_, first, last, hspans, rfl⟩

theorem pagesOf_trim_eq_error : pagesOf count (Text.trim piece) = .error fault ↔
    PieceFails count piece fault := by
  constructor
  · intro h
    rcases hyphen_cases piece with hhyphen | ⟨start, stop, heq, hhyphen⟩
    · rw [pagesOf_trim_page hhyphen] at h
      rcases Result.bind_eq_error.1 h with h | ⟨page, -, h⟩
      · exact .page hhyphen (number_eq_error_iff.1 h)
      · contradiction
    · rw [pagesOf_trim_range heq hhyphen] at h
      rcases Result.bind_eq_error.1 h with h | ⟨first, hfirst, h⟩
      · exact .start heq hhyphen (number_eq_error_iff.1 h)
      rw [number_eq_ok_iff] at hfirst
      rcases Result.bind_eq_error.1 h with h | ⟨last, hlast, h⟩
      · exact .stop heq hhyphen hfirst (number_eq_error_iff.1 h)
      rw [number_eq_ok_iff] at hlast
      split at h
      next hlt =>
        obtain rfl := Except.error.inj h
        exact .descending heq hhyphen hfirst hlast hlt
      next => contradiction
  · intro h
    cases h with
    | page hhyphen h =>
        rw [pagesOf_trim_page hhyphen]
        exact Result.bind_eq_error.2 (.inl (number_eq_error_iff.2 h))
    | start heq hhyphen h =>
        rw [pagesOf_trim_range heq hhyphen]
        exact Result.bind_eq_error.2 (.inl (number_eq_error_iff.2 h))
    | stop heq hhyphen hfirst h =>
        rw [pagesOf_trim_range heq hhyphen]
        refine Result.bind_eq_error.2 (.inr ⟨_, number_eq_ok_iff.2 hfirst, ?_⟩)
        exact Result.bind_eq_error.2 (.inl (number_eq_error_iff.2 h))
    | descending heq hhyphen hfirst hlast hlt =>
        rw [pagesOf_trim_range heq hhyphen]
        refine Result.bind_eq_error.2 (.inr ⟨_, number_eq_ok_iff.2 hfirst, ?_⟩)
        exact Result.bind_eq_error.2 (.inr ⟨_, number_eq_ok_iff.2 hlast, if_pos hlt⟩)

theorem Part.covers_trim_iff : Part.Covers count (Text.trim piece) page ↔
    ∃ first last, Spans count piece first last ∧ first ≤ page ∧ page ≤ last := by
  constructor
  · rintro ⟨first, last, hbounds, hfirst, hlast⟩
    have hpages : pagesOf count (Text.trim piece) =
        .ok (List.range' first (last + 1 - first)) := by
      rw [pagesOf, hbounds]
      exact if_neg (by omega)
    obtain ⟨first', last', hspans, heq⟩ := pagesOf_trim_eq_ok.1 hpages
    have hpage : page ∈ List.range' first' (last' + 1 - first') := by
      rw [← heq, List.mem_range'_1]
      omega
    rw [List.mem_range'_1] at hpage
    exact ⟨first', last', hspans, hpage.1, by omega⟩
  · rintro ⟨first, last, hspans, hfirst, hlast⟩
    refine (mem_of_pagesOf_eq_ok (pagesOf_trim_eq_ok.2 ⟨first, last, hspans, rfl⟩)).1 ?_
    rw [List.mem_range'_1]
    omega

/-! ## Selections -/

/-- The pieces of the text between its commas. -/
structure Pieces (input : String) (pieces : List (List Char)) : Prop where
  ne_nil : pieces ≠ []
  notMem : ∀ piece ∈ pieces, ',' ∉ piece
  joined : [','].intercalate pieces = input.toList

private theorem split_eq_splitOn (separator : Char) (chars : List Char) :
    split separator chars = chars.splitOn separator := by
  induction chars with
  | nil => rfl
  | cons char chars ih =>
      rw [split, List.splitOn_cons_eq_if_modifyHead, ih]
      simp only [beq_iff_eq]
      split
      next => rfl
      next =>
        split
        next hnil => exact absurd hnil (List.splitOn_ne_nil separator chars)
        next hcons => rw [hcons]; rfl

private theorem notMem_of_mem_split {separator : Char} {chars piece : List Char}
    (h : piece ∈ split separator chars) : separator ∉ piece := by
  induction chars generalizing piece with
  | nil =>
      obtain rfl := List.mem_singleton.1 h
      exact List.not_mem_nil
  | cons char chars ih =>
      rw [split] at h
      split at h
      next =>
        rcases List.mem_cons.1 h with rfl | h
        · exact List.not_mem_nil
        · exact ih h
      next hne =>
        split at h
        next =>
          obtain rfl := List.mem_singleton.1 h
          simpa using Ne.symm hne
        next heq =>
          rw [heq] at ih
          rcases List.mem_cons.1 h with rfl | h
          · rw [List.mem_cons, not_or]
            exact ⟨Ne.symm hne, ih List.mem_cons_self⟩
          · exact ih (List.mem_cons_of_mem _ h)

theorem pieces_iff {input : String} {pieces : List (List Char)} :
    Pieces input pieces ↔ pieces = split ',' input.toList := by
  rw [split_eq_splitOn]
  constructor
  · rintro ⟨hne, hnotMem, hjoined⟩
    rw [← hjoined, List.splitOn_intercalate ',' hnotMem hne]
  · rintro rfl
    refine ⟨List.splitOn_ne_nil _ _, fun piece hpiece => ?_, List.intercalate_splitOn ','⟩
    rw [← split_eq_splitOn] at hpiece
    exact notMem_of_mem_split hpiece

/-- Some piece reaches over the page. -/
def Covered (count : Nat) (pieces : List (List Char)) (page : Nat) : Prop :=
  ∃ piece ∈ pieces, ∃ first last, Spans count piece first last ∧ first ≤ page ∧ page ≤ last

section Selection

variable {input : String} {pieces : List (List Char)}

private theorem indices_eq : indices input count =
    (parts input.toList).mapM (pagesOf count) >>= fun covered =>
      if covered.flatten = [] then .error (.empty input)
      else .ok ((mergeNeighbors (covered.flatten.mergeSort (· ≤ ·))).map (· - 1)) := by
  rw [indices]
  congr 1
  funext covered
  simp only [List.isEmpty_iff]
  split
  next => rfl
  next => rfl

private theorem parts_eq (h : Pieces input pieces) : parts input.toList =
    (pieces.filter fun piece => !(Text.trim piece).isEmpty).map Text.trim := by
  rw [parts, ← pieces_iff.1 h, List.filter_map]
  rfl

private theorem not_blank_iff : (!(Text.trim piece).isEmpty) = true ↔ ¬Blank piece := by
  rw [← Text.trim_eq_nil_iff]
  simp

private theorem forall_mem_parts (h : Pieces input pieces) {p : List Char → Prop} :
    (∀ part ∈ parts input.toList, p part) ↔
      ∀ piece ∈ pieces, ¬Blank piece → p (Text.trim piece) := by
  simp only [parts_eq h, List.forall_mem_map, List.mem_filter, not_blank_iff, and_imp]

theorem covers_iff (h : Pieces input pieces) :
    Covers count input page ↔ Covered count pieces page := by
  simp only [Covers, Covered, parts_eq h, List.mem_map, List.mem_filter, not_blank_iff]
  constructor
  · rintro ⟨_, ⟨piece, ⟨hpiece, -⟩, rfl⟩, hcovers⟩
    exact ⟨piece, hpiece, Part.covers_trim_iff.1 hcovers⟩
  · rintro ⟨piece, hpiece, first, last, hspans, hpage⟩
    exact ⟨_, ⟨piece, ⟨hpiece, hspans.not_blank⟩, rfl⟩,
      Part.covers_trim_iff.2 ⟨first, last, hspans, hpage⟩⟩

private theorem flatten_eq_nil_iff (h : Pieces input pieces) {covered : List (List Nat)}
    (hcovered : (parts input.toList).mapM (pagesOf count) = .ok covered) :
    covered.flatten = [] ↔ ∀ piece ∈ pieces, Blank piece := by
  constructor
  · intro hnil piece hpiece
    by_contra hblank
    obtain ⟨pages, hpages⟩ := (forall_mem_parts h).1
      (Result.exists_mapM_eq_ok_iff.1 ⟨covered, hcovered⟩) piece hpiece hblank
    obtain ⟨first, last, hspans, rfl⟩ := pagesOf_trim_eq_ok.1 hpages
    have hpart : Text.trim piece ∈ parts input.toList := by
      rw [parts_eq h]
      exact List.mem_map_of_mem (List.mem_filter.2 ⟨hpiece, not_blank_iff.2 hblank⟩)
    have hmem := (Result.mem_of_mapM_eq_ok hcovered).2 ⟨_, hpart, hpages⟩
    have hempty := List.flatten_eq_nil_iff.1 hnil _ hmem
    have hle := hspans.le
    rw [List.range'_eq_nil_iff] at hempty
    omega
  · intro hblank
    have hparts : parts input.toList = [] := by
      rw [parts_eq h, List.map_eq_nil_iff, List.filter_eq_nil_iff]
      exact fun piece hpiece hnot => not_blank_iff.1 hnot (hblank piece hpiece)
    rw [hparts] at hcovered
    obtain rfl := Except.ok.inj hcovered
    rfl

theorem exists_indices_iff (h : Pieces input pieces) :
    (∃ found, indices input count = .ok found) ↔ (∃ piece ∈ pieces, ¬Blank piece) ∧
      ∀ piece ∈ pieces, ¬Blank piece → ∃ first last, Spans count piece first last := by
  have hread : (∃ covered, (parts input.toList).mapM (pagesOf count) = .ok covered) ↔
      ∀ piece ∈ pieces, ¬Blank piece → ∃ first last, Spans count piece first last := by
    rw [Result.exists_mapM_eq_ok_iff, forall_mem_parts h]
    simp only [exists_spans_iff]
  constructor
  · rintro ⟨found, hfound⟩
    rw [indices_eq] at hfound
    obtain ⟨covered, hcovered, hfound⟩ := Result.bind_eq_ok.1 hfound
    refine ⟨?_, hread.1 ⟨covered, hcovered⟩⟩
    by_contra hnone
    rw [if_pos ((flatten_eq_nil_iff h hcovered).2 (by simpa using hnone))] at hfound
    contradiction
  · rintro ⟨⟨piece, hpiece, hnot⟩, hspans⟩
    obtain ⟨covered, hcovered⟩ := hread.2 hspans
    have hne : covered.flatten ≠ [] := fun hnil =>
      hnot ((flatten_eq_nil_iff h hcovered).1 hnil piece hpiece)
    rw [indices_eq]
    exact ⟨_, Result.bind_eq_ok.2 ⟨covered, hcovered, if_neg hne⟩⟩

theorem indices_eq_error_iff (h : Pieces input pieces) : indices input count = .error fault ↔
    ((∀ piece ∈ pieces, Blank piece) ∧ fault = .empty input) ∨
      ∃ before piece after, pieces = before ++ piece :: after ∧
        (∀ earlier ∈ before, Blank earlier ∨ ∃ first last, Spans count earlier first last) ∧
        ¬Blank piece ∧ PieceFails count piece fault := by
  have hfirst : (parts input.toList).mapM (pagesOf count) = .error fault ↔
      ∃ before piece after, pieces = before ++ piece :: after ∧
        (∀ earlier ∈ before, Blank earlier ∨ ∃ first last, Spans count earlier first last) ∧
        ¬Blank piece ∧ PieceFails count piece fault := by
    rw [parts_eq h, List.mapM_map, Result.mapM_filter_eq_error_iff]
    simp only [Function.comp_apply, not_blank_iff, pagesOf_trim_eq_error, exists_spans_iff,
      or_iff_not_imp_left]
  rw [← hfirst, indices_eq, Result.bind_eq_error]
  constructor
  · rintro (hfails | ⟨covered, hcovered, hfails⟩)
    · exact .inr hfails
    · split at hfails
      next hnil =>
        exact .inl ⟨(flatten_eq_nil_iff h hcovered).1 hnil, (Except.error.inj hfails).symm⟩
      next => contradiction
  · rintro (⟨hblank, rfl⟩ | hfails)
    · have hread := (Result.exists_mapM_eq_ok_iff (f := pagesOf count)).2
        ((forall_mem_parts h).2 fun piece hpiece hnot => absurd (hblank piece hpiece) hnot)
      obtain ⟨covered, hcovered⟩ := hread
      exact .inr ⟨covered, hcovered, if_pos ((flatten_eq_nil_iff h hcovered).2 hblank)⟩
    · exact .inl hfails

private theorem indices_eq_of_covered {found : List Nat} (h : Pieces input pieces)
    (hfound : indices input count = .ok found) {input' : String} {pieces' : List (List Char)}
    (h' : Pieces input' pieces')
    (hspans : ∀ piece ∈ pieces', ¬Blank piece → ∃ first last, Spans count piece first last)
    (hsame : ∀ page, Covered count pieces' page ↔ Covered count pieces page) :
    indices input' count = .ok found := by
  have hnot : ∃ piece ∈ pieces', ¬Blank piece := by
    obtain ⟨⟨piece, hpiece, hblank⟩, hread⟩ := (exists_indices_iff h).1 ⟨found, hfound⟩
    obtain ⟨first, last, hspan⟩ := hread piece hpiece hblank
    obtain ⟨piece', hpiece', first', last', hspan', -⟩ :=
      (hsame first).2 ⟨piece, hpiece, first, last, hspan, Nat.le_refl _, hspan.le⟩
    exact ⟨piece', hpiece', hspan'.not_blank⟩
  obtain ⟨found', hfound'⟩ := (exists_indices_iff h').2 ⟨hnot, hspans⟩
  obtain ⟨hsorted, hmem⟩ := indices_eq_ok hfound
  obtain ⟨hsorted', hmem'⟩ := indices_eq_ok hfound'
  have hequal : found' = found := hsorted'.eq_of_mem_iff hsorted fun index => by
    rw [hmem, hmem', covers_iff h, covers_iff h', hsame]
  rw [hfound', hequal]

end Selection

/--
Every text has its pieces between commas.  It is accepted if some piece is not blank and each
such piece is a page or a range of pages.  Then the indices are those of the covered pages, in
increasing order, and other texts that cover the same pages have the same indices, in particular
those whose pieces are the same but for order, repetition and blanks.  A text is refused if all
its pieces are blank, and else for the first piece that is neither blank nor a page nor a range.
-/
theorem indices_selection (input : String) (count : Nat) :
    ∃ pieces, (∀ other, Pieces input other ↔ other = pieces) ∧
      ((∃ found, indices input count = .ok found) ↔ (∃ piece ∈ pieces, ¬Blank piece) ∧
        ∀ piece ∈ pieces, ¬Blank piece → ∃ first last, Spans count piece first last) ∧
      (∀ found, indices input count = .ok found →
        found.Pairwise (· < ·) ∧ (∀ index ∈ found, index < count) ∧
        (∀ index, index ∈ found ↔ Covered count pieces (index + 1)) ∧
        (∀ input' pieces', Pieces input' pieces' →
          (∀ piece ∈ pieces', ¬Blank piece → ∃ first last, Spans count piece first last) →
          (∀ page, Covered count pieces' page ↔ Covered count pieces page) →
          indices input' count = .ok found) ∧
        ∀ input' pieces', Pieces input' pieces' →
          (∀ piece, ¬Blank piece → (piece ∈ pieces' ↔ piece ∈ pieces)) →
          indices input' count = .ok found) ∧
      ∀ fault, indices input count = .error fault ↔
        ((∀ piece ∈ pieces, Blank piece) ∧ fault = .empty input) ∨
          ∃ before piece after, pieces = before ++ piece :: after ∧
            (∀ earlier ∈ before, Blank earlier ∨ ∃ first last, Spans count earlier first last) ∧
            ¬Blank piece ∧ PieceFails count piece fault := by
  have h : Pieces input (split ',' input.toList) := pieces_iff.2 rfl
  refine ⟨_, fun other => pieces_iff, exists_indices_iff h, fun found hfound => ?_,
    fun fault => indices_eq_error_iff h⟩
  obtain ⟨hsorted, hmem⟩ := indices_eq_ok hfound
  have hread := ((exists_indices_iff h).1 ⟨found, hfound⟩).2
  refine ⟨hsorted, fun index hindex => ((hmem index).1 hindex).bounds.2, fun index => ?_,
    fun input' pieces' h' hspans hsame => indices_eq_of_covered h hfound h' hspans hsame,
    fun input' pieces' h' hsame => indices_eq_of_covered h hfound h' ?_ fun page => ?_⟩
  · rw [hmem, covers_iff h]
  · exact fun piece hpiece hblank => hread piece ((hsame piece hblank).1 hpiece) hblank
  · constructor
    · rintro ⟨piece, hpiece, first, last, hspan, hpage⟩
      exact ⟨piece, (hsame piece hspan.not_blank).1 hpiece, first, last, hspan, hpage⟩
    · rintro ⟨piece, hpiece, first, last, hspan, hpage⟩
      exact ⟨piece, (hsame piece hspan.not_blank).2 hpiece, first, last, hspan, hpage⟩

example : indices " 1 , ,3 - 4,3" 4 = .ok [0, 2, 3] := by cbv

end ContentStream.PageRange
