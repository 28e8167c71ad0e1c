import ContentStream.Proofs.Operand.RoundTrip
import ContentStream.Proofs.Operation.RoundTrip
import ContentStream.Proofs.Token.Followed

/-!
# Tokens and images with more input behind

A token and an inline image are read as well if more stands behind the input that they
were read from.
-/

namespace ContentStream

variable {more : Bytes}

namespace Token

/-- What the reader takes off an input, it takes off the input with more behind. -/
def Continues (read : Reader Token) (more : Bytes) : Prop :=
  ∀ {input token rest}, read.Yields input token rest →
    read.Yields (input ++ more) token (rest ++ more)

section Containers

variable {read : Reader Token} (hread : Continues read more)
include hread

theorem takeOperand_append {container : Container} {input rest : Bytes} {value : Operand}
    (h : Took (takeOperand read container input) value rest) (container' : Container) :
    Took (takeOperand read container' (input ++ more)) value (rest ++ more) := by
  obtain ⟨shorter, h⟩ := h
  refine takeOperand_yields (hread ?_) container'
  unfold takeOperand at h
  split at h
  next => simp at h
  next => simp at h
  next hoperand =>
    obtain ⟨rfl, rfl⟩ := Taken.mk.inj (Except.ok.inj h)
    exact ⟨_, hoperand⟩
  next => simp at h

theorem takeItems_append {items : List Operand} {input : Bytes}
    {taken : Taken (List Operand) input} (h : takeItems read items input = .ok taken) :
    Took (takeItems read items (input ++ more)) taken.value (taken.rest ++ more) := by
  rcases takeItems_cases h with ⟨tail, hskip, hvalue, hrest⟩ |
    ⟨byte, tail, item, loop, hskip, hbyte, hitem, hloop, hvalue, hrest⟩
  · rw [hvalue, hrest]
    exact takeItems_close (Separator.skip_append_more hskip more)
  · have shorter : item.rest.length < input.length :=
      Nat.lt_of_lt_of_le item.shorter (Separator.length_le_of_skip hskip)
    rw [hvalue, hrest]
    exact takeItems_item (Separator.skip_append_more hskip more) hbyte
      (takeOperand_append hread ⟨item.shorter, hitem⟩ .array) (takeItems_append hloop)
termination_by input.length

structure EntryEnd.Continues (ending ending' : EntryEnd) (rest more : Bytes) : Prop where
  close {input : Bytes} {closed : Taken Unit input} : ending.close? input = some closed →
    closed.rest = rest → ∃ closed', ending'.close? (input ++ more) = some closed' ∧
      closed'.rest = rest ++ more
  slash (tail : Bytes) : ending'.close? (0x2F :: tail) = none

theorem takeEntries_append (hmore : more.Ends) {ending ending' : EntryEnd} {entries : Dictionary}
    {input : Bytes} {taken : Taken Dictionary input}
    (hending : ending.Continues ending' taken.rest more)
    (h : takeEntries read ending entries input = .ok taken) :
    Took (takeEntries read ending' entries (input ++ more)) taken.value (taken.rest ++ more) := by
  rcases takeEntries_cases h with ⟨byte, tail, closed, hskip, hclose, hvalue, hrest⟩ |
    ⟨tail, key, item, loop, hskip, hkey, hitem, hloop, hvalue, hrest⟩
  · obtain ⟨closed', hclose', hrest'⟩ := hending.close hclose hrest.symm
    rw [hvalue, ← hrest']
    exact takeEntries_close (Separator.skip_append_more hskip more) hclose'
  · have shorter : item.rest.length < input.length :=
      Nat.lt_trans item.shorter
        (Nat.lt_of_lt_of_le key.shorter (Separator.length_le_of_skip hskip))
    rw [hvalue, hrest]
    exact takeEntries_entry (Separator.skip_append_more hskip more) (hending.slash _)
      (Name.take_append ⟨key.shorter, hkey⟩ hmore)
      (takeOperand_append hread ⟨item.shorter, hitem⟩ ending'.container)
      (takeEntries_append hmore (hrest ▸ hending) hloop)
termination_by input.length

end Containers

theorem continues_dictionaryEnd (rest more : Bytes) :
    dictionaryEnd.Continues dictionaryEnd rest more where
  slash := close?_slash
  close {input closed} hclose hrest := by
    match input with
    | [] => simp [dictionaryEnd, closeDictionary] at hclose
    | [first] => simp [dictionaryEnd, closeDictionary] at hclose
    | first :: second :: tail =>
        simp only [dictionaryEnd, closeDictionary] at hclose
        split at hclose
        next hbytes =>
          obtain rfl := Option.some.inj hclose
          obtain rfl : tail = rest := hrest
          refine ⟨.afterFirst () (tail ++ more) (Nat.le_succ _), ?_, rfl⟩
          exact if_pos hbytes
        next => simp at hclose

section Single

variable {inside : Option (Reader Token)}
  (hinside : ∀ read, inside = some read → Continues read more) (hmore : more.Ends)

private theorem takeHex_append {opening : UInt8} {tail rest : Bytes} {token : Token}
    (h : Took ((Hex.take opening tail).map (Taken.map fun bytes => .operand (.hexString bytes)))
      token rest) (more : Bytes) :
    Took ((Hex.take opening (tail ++ more)).map
      (Taken.map fun bytes => .operand (.hexString bytes))) token (rest ++ more) := by
  obtain ⟨bytes, hbytes, rfl⟩ := h.of_map
  exact (Hex.take_append hbytes more).map _

include hinside

private theorem takeArray_append {opening : UInt8} {tail rest : Bytes} {token : Token}
    (h : Took (takeArray inside opening tail) token rest) :
    Took (takeArray inside opening (tail ++ more)) token (rest ++ more) := by
  obtain ⟨shorter, h⟩ := h
  cases inside with
  | none => simp [takeArray] at h
  | some read =>
      simp only [takeArray] at h ⊢
      split at h
      next => simp at h
      next items hitems =>
        obtain ⟨rfl, rfl⟩ := Taken.mk.inj (Except.ok.inj h)
        obtain ⟨shorterItems, hmoreItems⟩ := takeItems_append (hinside read rfl) hitems
        rw [hmoreItems]
        exact ⟨_, rfl⟩

include hmore

private theorem takeDictionary_append {first second : UInt8} {tail rest : Bytes} {token : Token}
    (h : Took (takeDictionary inside first second tail) token rest) :
    Took (takeDictionary inside first second (tail ++ more)) token (rest ++ more) := by
  obtain ⟨shorter, h⟩ := h
  cases inside with
  | none => simp [takeDictionary] at h
  | some read =>
      simp only [takeDictionary] at h ⊢
      split at h
      next => simp at h
      next entries hentries =>
        obtain ⟨rfl, rfl⟩ := Taken.mk.inj (Except.ok.inj h)
        obtain ⟨shorterEntries, hmoreEntries⟩ := takeEntries_append (hinside read rfl) hmore
          (continues_dictionaryEnd _ more) hentries
        rw [hmoreEntries]
        exact ⟨_, rfl⟩

private theorem takeAngle_append {first : UInt8} {tail rest : Bytes} {token : Token}
    (h : Took (takeAngle inside first tail) token rest) :
    Took (takeAngle inside first (tail ++ more)) token (rest ++ more) := by
  cases tail with
  | nil =>
      -- A bracket with nothing behind it is not read.
      rw [takeAngle] at h
      obtain ⟨bytes, ⟨shorter, hbytes⟩, -⟩ := h.of_map
      contradiction
  | cons second tail =>
      rw [List.cons_append, takeAngle]
      rw [takeAngle] at h
      split at h
      next hsecond =>
        rw [if_pos hsecond]
        exact takeDictionary_append hinside hmore h
      next hsecond =>
        rw [if_neg hsecond]
        exact takeHex_append h more

theorem takeFirst_append {first : UInt8} {tail rest : Bytes} {token : Token}
    (h : Took (takeFirst inside first tail) token rest) :
    Took (takeFirst inside first (tail ++ more)) token (rest ++ more) := by
  unfold takeFirst at h ⊢
  split at h
  next hfirst =>
    rw [if_pos hfirst]
    obtain ⟨found, hfound, rfl⟩ := h.of_map
    exact (Literal.take_append hfound more).map _
  next hfirst =>
    rw [if_neg hfirst]
    split at h
    next hangle =>
      rw [if_pos hangle]
      exact takeAngle_append hinside hmore h
    next hangle =>
      rw [if_neg hangle]
      split at h
      next hbracket =>
        rw [if_pos hbracket]
        exact takeArray_append hinside h
      next hbracket =>
        rw [if_neg hbracket]
        split at h
        next hslash =>
          rw [if_pos hslash]
          obtain ⟨found, hfound, rfl⟩ := h.of_map
          exact (Name.take_append hfound hmore).map _
        next hslash =>
          rw [if_neg hslash]
          split at h
          next hstart =>
            rw [dif_pos hstart]
            obtain ⟨found, hfound, rfl⟩ := h.of_map
            exact (Numeral.take_append hfound hmore).map _
          next hstart =>
            rw [dif_neg hstart]
            split at h
            next =>
              obtain ⟨shorter, h⟩ := h
              contradiction
            next hdelimiter =>
              rw [if_neg hdelimiter]
              exact takeWord_append h hmore

theorem continues_readWith : Continues (readWith inside) more := by
  rintro input token rest ⟨shorter, h⟩
  unfold readWith at h
  split at h
  next => simp at h
  next first tail hskip =>
    split at h
    next => simp at h
    next taken htaken =>
      obtain ⟨rfl, rfl⟩ := Taken.mk.inj (Option.some.inj (Except.ok.inj h))
      exact readWith_yields (Separator.skip_append_more hskip more)
        (takeFirst_append hinside hmore ⟨taken.shorter, htaken⟩)

end Single

theorem continues_read (hmore : more.Ends) (levels : Nat) : Continues (read levels) more := by
  induction levels with
  | zero => exact continues_readWith (by simp) hmore
  | succ levels ih => exact continues_readWith (fun read hread => Option.some.inj hread ▸ ih) hmore

end Token

/-! ## Inline images -/

namespace InlineImage

private theorem continues_entriesEnd (start start' : Bytes) {rest : Bytes} (hrest : rest ≠ [])
    (more : Bytes) : (entriesEnd start).Continues (entriesEnd start') rest more where
  slash tail := by cases tail <;> rfl
  close {input closed} hclose hclosed := by
    match input with
    | [] => simp [entriesEnd, closeEntries] at hclose
    | [first] => simp [entriesEnd, closeEntries] at hclose
    | first :: second :: tail =>
        simp only [entriesEnd, closeEntries] at hclose
        split at hclose
        next hbytes =>
          obtain rfl := Option.some.inj hclose
          obtain rfl : tail.tail = rest := hclosed
          cases tail with
          | nil => simp at hrest
          | cons space data =>
              refine ⟨.afterFirst () (data ++ more) (Nat.le_succ_of_le (Nat.le_succ _)), ?_, rfl⟩
              exact if_pos hbytes
        next => simp at hclose

private theorem beginsEnd_append (hmore : more.Ends) (byte : UInt8) (rest : Bytes) :
    beginsEnd (byte :: rest ++ more) = beginsEnd (byte :: rest) := by
  match rest with
  | [] =>
      cases more with
      | nil => rfl
      | cons second behind =>
          have hsecond : second ≠ 0x49 := by
            rintro rfl
            exact absurd (hmore 0x49 rfl) (by decide)
          simp [beginsEnd, hsecond]
  | [second] =>
      cases more with
      | nil => rfl
      | cons third behind => simp [beginsEnd, hmore third rfl]
  | second :: third :: behind => simp [beginsEnd]

private theorem takeData_more (hmore : more.Ends) {data input found rest : Bytes}
    (h : takeData data input = some (found, rest)) :
    takeData data (input ++ more) = some (found, rest ++ more) := by
  induction input generalizing data with
  | nil => simp [takeData] at h
  | cons byte tail ih =>
      have hbegins := beginsEnd_append hmore byte tail
      rw [List.cons_append] at hbegins ⊢
      rw [takeData] at h ⊢
      rw [hbegins]
      split at h
      next hstop =>
        rw [if_pos hstop]
        obtain ⟨rfl, rfl⟩ := Prod.mk.inj (Option.some.inj h)
        cases tail with
        | nil => simp [beginsEnd] at hstop
        | cons second behind => rfl
      next hstop => rw [if_neg hstop, ih h]

theorem take_append (hmore : more.Ends) {input rest : Bytes} {image : Dictionary × Bytes}
    (h : Took (take input) image rest) : Took (take (input ++ more)) image (rest ++ more) := by
  obtain ⟨shorter, h⟩ := h
  unfold take at h
  split at h
  next => simp at h
  next entries hentries =>
    split at h
    next data behind hdata =>
      obtain ⟨rfl, rfl⟩ := Taken.mk.inj (Except.ok.inj h)
      have hrest : entries.rest ≠ [] := by
        intro hnil
        rw [hnil] at hdata
        simp [takeData] at hdata
      obtain ⟨shorterEntries, hmoreEntries⟩ :=
        Token.takeEntries_append (Token.continues_read hmore nestingLimit) hmore
          (continues_entriesEnd input (input ++ more) hrest more) hentries
      have hmoreData := takeData_more hmore hdata
      unfold take
      rw [hmoreEntries]
      dsimp only
      split
      next hfound =>
        obtain ⟨rfl, rfl⟩ := Prod.mk.inj (Option.some.inj (hmoreData.symm.trans hfound))
        exact ⟨_, rfl⟩
      next hfound => simp [hmoreData] at hfound
    next => simp at h

end InlineImage

end ContentStream
