import ContentStream.Proofs.Operand.RoundTrip
import ContentStream.Proofs.Result

/-!
# Operands that are nested too deeply

The nesting of an operand is computed, and it is what the levels of a well-formed
operand have to allow.  An operand that is nested deeper has a token as well, but
reading stops in it: at the first bracket that would open one level too many, after
everything in front of it has been read.
-/

namespace ContentStream

namespace Operand

mutual

/-- How many arrays and dictionaries stand inside each other. -/
def nesting : Operand → Nat
  | .array items => nestingItems items + 1
  | .dictionary entries => nestingEntries entries + 1
  | _ => 0

def nestingItems : List Operand → Nat
  | [] => 0
  | item :: items => max (nesting item) (nestingItems items)

def nestingEntries : List (String × Operand) → Nat
  | [] => 0
  | (_, value) :: entries => max (nesting value) (nestingEntries entries)

end

theorem nestingItems_le_iff {items : List Operand} {levels : Nat} :
    nestingItems items ≤ levels ↔ ∀ item ∈ items, item.nesting ≤ levels := by
  induction items with
  | nil => simp [nestingItems]
  | cons item items ih => simp [nestingItems, ih]

theorem nestingEntries_le_iff {entries : Dictionary} {levels : Nat} :
    nestingEntries entries ≤ levels ↔ ∀ entry ∈ entries, entry.2.nesting ≤ levels := by
  induction entries with
  | nil => simp [nestingEntries]
  | cons entry entries ih => simp [nestingEntries, ih]

namespace Formed

variable {p : Float → Prop} {levels : Nat} {value : Operand}

theorem nesting_le (h : Formed p levels value) : value.nesting ≤ levels := by
  induction h with
  | array _ ih =>
      rw [nesting]
      exact Nat.succ_le_succ (nestingItems_le_iff.2 ih)
  | dictionary _ _ ih =>
      rw [nesting]
      exact Nat.succ_le_succ (nestingEntries_le_iff.2 ih)
  | _ => simp [nesting]

theorem of_nesting_le (h : Formed p levels value) {limit : Nat} (hnesting : value.nesting ≤ limit) :
    Formed p limit value := by
  induction h generalizing limit with
  | integer => exact .integer
  | real hvalue => exact .real hvalue
  | boolean => exact .boolean
  | name => exact .name
  | literalString => exact .literalString
  | hexString => exact .hexString
  | null => exact .null
  | array _ ih =>
      rw [nesting] at hnesting
      obtain ⟨limit, rfl⟩ : ∃ lower, limit = lower + 1 := ⟨limit - 1, by omega⟩
      have hitems := nestingItems_le_iff.1 (Nat.le_of_succ_le_succ hnesting)
      exact .array fun item hitem => ih item hitem (hitems item hitem)
  | dictionary hnodup _ ih =>
      rw [nesting] at hnesting
      obtain ⟨limit, rfl⟩ : ∃ lower, limit = lower + 1 := ⟨limit - 1, by omega⟩
      have hentries := nestingEntries_le_iff.1 (Nat.le_of_succ_le_succ hnesting)
      exact .dictionary hnodup fun entry hentry => ih entry hentry (hentries entry hentry)

end Formed

end Operand

namespace Token

theorem readWith_stuck {inside : Option (Reader Token)} {input tail : Bytes} {first : UInt8}
    {stuck : Stuck} (hskip : Separator.skip input = first :: tail)
    (h : takeFirst inside first tail = .error stuck) :
    readWith inside input = .error stuck := by
  unfold readWith
  split
  next hnil => simp [hskip] at hnil
  next hcons =>
    obtain ⟨rfl, rfl⟩ := List.cons.inj (hskip.symm.trans hcons)
    rw [h]

theorem takeOperand_stuck {read : Reader Token} {input : Bytes} {stuck : Stuck}
    (h : read input = .error stuck) (container : Container) :
    takeOperand read container input = .error stuck := by
  unfold takeOperand
  rw [h]

section Items

variable {read : Reader Token} {items : List Operand} {input tail : Bytes} {byte : UInt8}
  {stuck : Stuck}

theorem takeItems_stuck (hskip : Separator.skip input = byte :: tail) (hbyte : byte ≠ 0x5D)
    (hitem : takeOperand read .array (byte :: tail) = .error stuck) :
    takeItems read items input = .error stuck := by
  rw [takeItems]
  split
  next h => simp [hskip] at h
  next h =>
    obtain ⟨rfl, rfl⟩ := List.cons.inj (hskip.symm.trans h)
    simp only [if_neg hbyte, hitem]

theorem takeItems_stuckLater {item : Operand} {rest : Bytes}
    (hskip : Separator.skip input = byte :: tail) (hbyte : byte ≠ 0x5D)
    (hitem : Took (takeOperand read .array (byte :: tail)) item rest)
    (hloop : takeItems read (item :: items) rest = .error stuck) :
    takeItems read items input = .error stuck := by
  obtain ⟨shorter, hitem⟩ := hitem
  rw [takeItems]
  split
  next h => simp [hskip] at h
  next h =>
    obtain ⟨rfl, rfl⟩ := List.cons.inj (hskip.symm.trans h)
    simp only [if_neg hbyte, hitem, hloop]

end Items

section Entries

variable {read : Reader Token} {ending : EntryEnd} {entries : Dictionary} {input tail : Bytes}
  {key : String} {behind : Bytes} {stuck : Stuck}

theorem takeEntries_stuck (hskip : Separator.skip input = 0x2F :: tail)
    (hclose : ending.close? (0x2F :: tail) = none)
    (hkey : Took (Name.take 0x2F tail) key behind)
    (hitem : takeOperand read ending.container behind = .error stuck) :
    takeEntries read ending entries input = .error stuck := by
  obtain ⟨shorterKey, hkey⟩ := hkey
  rw [takeEntries]
  split
  next h => simp [hskip] at h
  next h =>
    obtain ⟨rfl, rfl⟩ := List.cons.inj (hskip.symm.trans h)
    simp only [hclose, if_true, hkey, hitem]

theorem takeEntries_stuckLater {item : Operand} {rest : Bytes}
    (hskip : Separator.skip input = 0x2F :: tail)
    (hclose : ending.close? (0x2F :: tail) = none)
    (hkey : Took (Name.take 0x2F tail) key behind)
    (hitem : Took (takeOperand read ending.container behind) item rest)
    (hloop : takeEntries read ending (Dictionary.insert key item entries) rest = .error stuck) :
    takeEntries read ending entries input = .error stuck := by
  obtain ⟨shorterKey, hkey⟩ := hkey
  obtain ⟨shorterItem, hitem⟩ := hitem
  rw [takeEntries]
  split
  next h => simp [hskip] at h
  next h =>
    obtain ⟨rfl, rfl⟩ := List.cons.inj (hskip.symm.trans h)
    simp only [hclose, if_true, hkey, hitem, hloop]

end Entries

/-! ## Tokens in which reading stops -/

/-- Wherever the text stands, reading stops in it, because a level too many is opened. -/
def Exceeds (levels : Nat) (text : Bytes) : Prop :=
  ∃ first tail, text = first :: tail ∧ Separator.isOther first = true ∧ first ≠ 0x5D ∧
    ∀ rest, ∃ place, takeFirst (inside levels) first (tail ++ rest) = .error ⟨place, .nesting⟩

/-- The text is taken as the value, or reading stops in it, as the nesting decides. -/
def Settles (levels : Nat) (text : Bytes) (value : Operand) : Prop :=
  (value.nesting ≤ levels → Spells levels text value) ∧
    (levels < value.nesting → Exceeds levels text)

section Exceeds

variable {levels : Nat} {text rest input : Bytes}

theorem Exceeds.stops (h : Exceeds levels text)
    (hskip : Separator.skip input = Separator.skip (text ++ rest)) :
    ∃ place, read levels input = .error ⟨place, .nesting⟩ := by
  obtain ⟨first, tail, rfl, hother, -, hstuck⟩ := h
  obtain ⟨place, hplace⟩ := hstuck rest
  rw [List.cons_append, Separator.skip_other hother] at hskip
  rw [read_eq]
  exact ⟨place, readWith_stuck hskip hplace⟩

private theorem Exceeds.stopsOperand (h : Exceeds levels text) (container : Container)
    (hskip : Separator.skip input = Separator.skip (text ++ rest)) :
    ∃ place, takeOperand (read levels) container input = .error ⟨place, .nesting⟩ := by
  obtain ⟨place, hplace⟩ := h.stops hskip
  exact ⟨place, takeOperand_stuck hplace container⟩

private theorem takeItems_exceeds (h : Exceeds levels text) (taken : List Operand)
    (hskip : Separator.skip input = Separator.skip (text ++ rest)) :
    ∃ place, takeItems (read levels) taken input = .error ⟨place, .nesting⟩ := by
  obtain ⟨place, hplace⟩ := h.stopsOperand .array (Separator.skip_skip (text ++ rest))
  obtain ⟨first, tail, rfl, hother, hclose, -⟩ := h
  rw [List.cons_append, Separator.skip_other hother] at hskip hplace
  exact ⟨place, takeItems_stuck hskip hclose hplace⟩

private theorem takeItems_later {item : Operand} {gap : Bytes} {taken : List Operand}
    {stuck : Stuck} (h : Spells levels text item) (hgap : gap.Ends)
    (hskip : Separator.skip input = Separator.skip (text ++ gap))
    (hloop : takeItems (read levels) (item :: taken) gap = .error stuck) :
    takeItems (read levels) taken input = .error stuck := by
  have hyields := h.yields hgap (Separator.skip_skip (text ++ gap))
  obtain ⟨first, tail, rfl, hother, hclose, -⟩ := h
  rw [List.cons_append, Separator.skip_other hother] at hskip hyields
  exact takeItems_stuckLater hskip hclose (takeOperand_yields hyields .array) hloop

private theorem take_key (key : String) (behind : Bytes) :
    ∃ tail, Separator.skip (Name.written key ++ 0x20 :: behind) = 0x2F :: tail ∧
      dictionaryEnd.close? (0x2F :: tail) = none ∧
      Took (Name.take 0x2F tail) key (0x20 :: behind) := by
  have hend : Bytes.Ends (0x20 :: behind) := Bytes.ends_cons (by decide)
  exact ⟨_, Separator.skip_other (by decide) _, close?_slash _, Name.take_written key hend⟩

private theorem takeEntries_exceeds {key : String} (h : Exceeds levels text) (taken : Dictionary)
    (hskip : Separator.skip input = Separator.skip (Name.written key ++ 0x20 :: (text ++ rest))) :
    ∃ place, takeEntries (read levels) dictionaryEnd taken input = .error ⟨place, .nesting⟩ := by
  obtain ⟨tail, hname, hclose, hkey⟩ := take_key key (text ++ rest)
  obtain ⟨place, hplace⟩ := h.stopsOperand dictionaryEnd.container
    (Separator.skip_whiteSpace (by decide : Byte.isWhiteSpace 0x20 = true) (text ++ rest))
  exact ⟨place, takeEntries_stuck (hskip.trans hname) hclose hkey hplace⟩

private theorem takeEntries_later {key : String} {item : Operand} {gap : Bytes}
    {taken : Dictionary} {stuck : Stuck} (h : Spells levels text item) (hgap : gap.Ends)
    (hskip : Separator.skip input = Separator.skip (Name.written key ++ 0x20 :: (text ++ gap)))
    (hloop : takeEntries (read levels) dictionaryEnd (Dictionary.insert key item taken) gap =
      .error stuck) :
    takeEntries (read levels) dictionaryEnd taken input = .error stuck := by
  obtain ⟨tail, hname, hclose, hkey⟩ := take_key key (text ++ gap)
  have hyields := h.yields hgap
    (Separator.skip_whiteSpace (by decide : Byte.isWhiteSpace 0x20 = true) (text ++ gap))
  exact takeEntries_stuckLater (hskip.trans hname) hclose hkey
    (takeOperand_yields hyields dictionaryEnd.container) hloop

end Exceeds

open Operand in
private theorem takeItems_tooDeep {levels : Nat} {items : List Operand}
    (h : ∀ item ∈ items, ∃ text, item.written = .ok text ∧ Settles levels text item)
    (hdeep : levels < nestingItems items) :
    ∃ inner, writtenItems items = .ok inner ∧ ∀ taken input rest,
      Separator.skip input = Separator.skip (inner ++ rest) →
      ∃ place, takeItems (read levels) taken input = .error ⟨place, .nesting⟩ := by
  induction items with
  | nil => simp [nestingItems] at hdeep
  | cons item items ih =>
      have hothers : ∀ other ∈ items, ∃ text, other.written = .ok text ∧
          Settles levels text other := fun other hother => h other (by simp [hother])
      obtain ⟨text, htext, hflat, hexceeds⟩ := h item (by simp)
      rcases Nat.lt_or_ge levels item.nesting with hitem | hitem
      · obtain ⟨others, hwritten⟩ := exists_writtenItems.2 fun other hother =>
          (hothers other hother).imp fun _ => And.left
        rw [writtenItems_cons, htext, hwritten]
        refine ⟨_, rfl, fun taken input rest hskip => ?_⟩
        rw [List.append_assoc] at hskip
        exact takeItems_exceeds (hexceeds hitem) taken hskip
      · rw [nestingItems] at hdeep
        have hmore : levels < nestingItems items := by omega
        obtain ⟨others, hwritten, hstuck⟩ := ih hothers hmore
        obtain ⟨next, following, rfl⟩ : ∃ next following, items = next :: following := by
          refine List.exists_cons_of_ne_nil ?_
          rintro rfl
          simp [nestingItems] at hmore
        rw [writtenItems_cons, htext, hwritten]
        refine ⟨text ++ 0x20 :: others, rfl, fun taken input rest hskip => ?_⟩
        obtain ⟨place, hplace⟩ := hstuck (item :: taken) (0x20 :: others ++ rest) rest
          (Separator.skip_whiteSpace (by decide) _)
        rw [List.append_assoc] at hskip
        exact ⟨place, takeItems_later (hflat hitem) (Bytes.ends_cons (by decide)) hskip hplace⟩

theorem exceeds_array {levels : Nat} {items : List Operand}
    (h : ∀ item ∈ items, ∃ text, item.written = .ok text ∧ Settles levels text item)
    (hdeep : levels < Operand.nestingItems items) :
    ∃ text, Operand.written (.array items) = .ok text ∧ Exceeds (levels + 1) text := by
  obtain ⟨inner, hinner, hloop⟩ := takeItems_tooDeep h hdeep
  refine ⟨0x5B :: inner ++ [0x5D], ?_, 0x5B, inner ++ [0x5D], rfl, by decide, by decide,
    fun rest => ?_⟩
  · rw [Operand.written, hinner]
    rfl
  obtain ⟨place, hplace⟩ := hloop [] (inner ++ ([0x5D] ++ rest)) ([0x5D] ++ rest) rfl
  refine ⟨place, ?_⟩
  rw [List.append_assoc, takeFirst, if_neg (by decide), if_neg (by decide), if_pos rfl, inside,
    takeArray, hplace]

open Operand in
private theorem takeEntries_tooDeep {levels : Nat} {entries : Dictionary}
    (h : ∀ entry ∈ entries, ∃ text, entry.2.written = .ok text ∧ Settles levels text entry.2)
    (hdeep : levels < nestingEntries entries) :
    ∃ inner, writtenEntries entries = .ok inner ∧ ∀ taken input rest,
      Separator.skip input = Separator.skip (inner ++ rest) →
      ∃ place, takeEntries (read levels) dictionaryEnd taken input = .error ⟨place, .nesting⟩ := by
  induction entries with
  | nil => simp [nestingEntries] at hdeep
  | cons entry entries ih =>
      obtain ⟨key, value⟩ := entry
      have hothers : ∀ other ∈ entries, ∃ text, other.2.written = .ok text ∧
          Settles levels text other.2 := fun other hother => h other (by simp [hother])
      obtain ⟨text, htext, hflat, hexceeds⟩ := h (key, value) (by simp)
      -- The first value that goes too deep stops the loop; the ones before it are taken.
      rcases Nat.lt_or_ge levels value.nesting with hvalue | hvalue
      · obtain ⟨others, hwritten⟩ := exists_writtenEntries.2 fun other hother =>
          (hothers other hother).imp fun _ => And.left
        rw [writtenEntries_cons, htext, hwritten]
        refine ⟨_, rfl, fun taken input rest hskip => ?_⟩
        rw [List.append_assoc, List.cons_append, List.append_assoc] at hskip
        exact takeEntries_exceeds (hexceeds hvalue) taken hskip
      · rw [nestingEntries] at hdeep
        have hmore : levels < nestingEntries entries := by omega
        obtain ⟨others, hwritten, hstuck⟩ := ih hothers hmore
        obtain ⟨next, following, rfl⟩ : ∃ next following, entries = next :: following := by
          refine List.exists_cons_of_ne_nil ?_
          rintro rfl
          simp [nestingEntries] at hmore
        rw [writtenEntries_cons, htext, hwritten]
        refine ⟨_, rfl, fun taken input rest hskip => ?_⟩
        obtain ⟨place, hplace⟩ := hstuck (Dictionary.insert key value taken)
          (0x20 :: others ++ rest) rest (Separator.skip_whiteSpace (by decide) _)
        rw [List.append_assoc, List.cons_append, List.append_assoc] at hskip
        exact ⟨place, takeEntries_later (hflat hvalue) (Bytes.ends_cons (by decide)) hskip hplace⟩

theorem exceeds_dictionary {levels : Nat} {entries : Dictionary}
    (h : ∀ entry ∈ entries, ∃ text, entry.2.written = .ok text ∧ Settles levels text entry.2)
    (hdeep : levels < Operand.nestingEntries entries) :
    ∃ text, Operand.written (.dictionary entries) = .ok text ∧ Exceeds (levels + 1) text := by
  obtain ⟨inner, hinner, hloop⟩ := takeEntries_tooDeep h hdeep
  refine ⟨0x3C :: 0x3C :: inner ++ [0x3E, 0x3E], ?_, 0x3C, 0x3C :: inner ++ [0x3E, 0x3E], rfl,
    by decide, by decide, fun rest => ?_⟩
  · rw [Operand.written, hinner]
    rfl
  obtain ⟨place, hplace⟩ := hloop [] (inner ++ ([0x3E, 0x3E] ++ rest)) ([0x3E, 0x3E] ++ rest) rfl
  refine ⟨place, ?_⟩
  rw [List.append_assoc, List.cons_append, takeFirst, if_neg (by decide), if_pos rfl, takeAngle,
    if_pos rfl, inside, takeDictionary, hplace]

end Token

namespace Operand

private theorem exceeds_zero {value : Operand} {text : Bytes} (hdeep : 0 < value.nesting)
    (hwritten : value.written = .ok text) : Token.Exceeds 0 text := by
  cases value with
  | array items =>
      rw [written] at hwritten
      obtain ⟨inner, -, hinner⟩ := Result.bind_eq_ok.1 hwritten
      obtain rfl := Except.ok.inj hinner
      exact ⟨0x5B, _, rfl, by decide, by decide, fun rest => ⟨_, rfl⟩⟩
  | dictionary entries =>
      rw [written] at hwritten
      obtain ⟨inner, -, hinner⟩ := Result.bind_eq_ok.1 hwritten
      obtain rfl := Except.ok.inj hinner
      exact ⟨0x3C, _, rfl, by decide, by decide, fun rest => ⟨_, rfl⟩⟩
  | _ => simp [nesting] at hdeep

theorem written_exceeds {levels limit : Nat} {value : Operand} (h : Writable levels value)
    (hdeep : limit < value.nesting) :
    ∃ text, value.written = .ok text ∧ Token.Exceeds limit text := by
  -- What stands in a container is read with one level less.
  induction limit generalizing levels value with
  | zero =>
      obtain ⟨text, hwritten, -⟩ := written_spells h
      exact ⟨text, hwritten, exceeds_zero hdeep hwritten⟩
  | succ limit ih =>
      have hsettles : ∀ {levels value}, Writable levels value →
          ∃ text, value.written = .ok text ∧ Token.Settles limit text value := by
        intro levels value h
        rcases Nat.lt_or_ge limit value.nesting with hvalue | hvalue
        · obtain ⟨text, hwritten, hexceeds⟩ := ih h hvalue
          exact ⟨text, hwritten, fun hflat => absurd hvalue (Nat.not_lt.2 hflat),
            fun _ => hexceeds⟩
        · obtain ⟨text, hwritten, hspells⟩ := written_spells (h.of_nesting_le hvalue)
          exact ⟨text, hwritten, fun _ => hspells, fun hdeep => absurd hdeep (Nat.not_lt.2 hvalue)⟩
      cases h with
      | array hitems =>
          rw [nesting] at hdeep
          exact Token.exceeds_array (fun item hitem => hsettles (hitems item hitem))
            (Nat.lt_of_succ_lt_succ hdeep)
      | dictionary _ hentries =>
          rw [nesting] at hdeep
          exact Token.exceeds_dictionary (fun entry hentry => hsettles (hentries entry hentry))
            (Nat.lt_of_succ_lt_succ hdeep)
      | _ => simp [nesting] at hdeep

end Operand

end ContentStream
