import ContentStream.Proofs.Token.Basic

/-!
# Containers step by step

What a reading does depends on its input only from the first byte that no separator
covers.  The loops over the items of an array and over the entries of a dictionary
are described by one step each: the end marker, or one more item.  The steps are
given in both directions, from what stands in the input to what is taken and back.
-/

namespace ContentStream

namespace Separator

def isOther (byte : UInt8) : Bool :=
  !Byte.isWhiteSpace byte && byte != 0x25

theorem skip_other {byte : UInt8} (h : isOther byte = true) (rest : Bytes) :
    skip (byte :: rest) = byte :: rest := by
  simp only [isOther, Bool.and_eq_true, Bool.not_eq_true', bne_iff_ne] at h
  simp [skip, skipFrom, h]

theorem skip_whiteSpace {byte : UInt8} (h : Byte.isWhiteSpace byte = true) (rest : Bytes) :
    skip (byte :: rest) = skip rest := by
  simp [skip, skipFrom, h]

theorem isOther_of_isRegular {byte : UInt8} (h : Byte.isRegular byte = true) :
    isOther byte = true := by
  have hcomment : byte ≠ 0x25 := Byte.ne_of_class h rfl
  simp [isOther, Byte.isWhiteSpace_of_isRegular h, hcomment]

private theorem isOther_of_skipFrom {inComment : Bool} {input tail : Bytes} {byte : UInt8}
    (h : skipFrom inComment input = byte :: tail) : isOther byte = true := by
  induction input generalizing inComment with
  | nil => simp [skipFrom] at h
  | cons first rest ih =>
      cases inComment with
      | true =>
          rw [skipFrom] at h
          split at h
          · exact ih h
          · exact ih h
      | false =>
          rw [skipFrom] at h
          split at h
          · exact ih h
          split at h
          · exact ih h
          · next hspace hcomment =>
            rw [List.cons.injEq] at h
            rw [← h.1]
            simp [isOther, hspace, hcomment]

theorem isOther_of_skip {input tail : Bytes} {byte : UInt8} (h : skip input = byte :: tail) :
    isOther byte = true :=
  isOther_of_skipFrom h

theorem skip_skip (input : Bytes) : skip (skip input) = skip input := by
  cases h : skip input with
  | nil => rfl
  | cons byte tail => exact skip_other (isOther_of_skip h) tail

theorem length_le_of_skip {input found : Bytes} (h : skip input = found) :
    found.length ≤ input.length :=
  h ▸ length_skip_le input

end Separator

namespace Token

theorem readWith_yields {inside : Option (Reader Token)} {input tail rest : Bytes} {first : UInt8}
    {token : Token} (hskip : Separator.skip input = first :: tail)
    (h : Took (takeFirst inside first tail) token rest) :
    (readWith inside).Yields input token rest := by
  obtain ⟨shorter, htaken⟩ := h
  have hlength := Separator.length_le_of_skip hskip
  refine ⟨Nat.lt_of_lt_of_le shorter hlength, ?_⟩
  unfold readWith
  split
  next h => simp [hskip] at h
  next h =>
    obtain ⟨rfl, rfl⟩ := List.cons.inj (hskip.symm.trans h)
    rw [htaken]
    rfl

theorem takeOperand_yields {read : Reader Token} {input rest : Bytes} {value : Operand}
    (h : read.Yields input (.operand value) rest) (container : Container) :
    Took (takeOperand read container input) value rest := by
  obtain ⟨shorter, hread⟩ := h
  refine ⟨shorter, ?_⟩
  unfold takeOperand
  rw [hread]

/-! ## Arrays and dictionaries -/

section Items

variable {read : Reader Token} {items : List Operand} {input tail : Bytes}

theorem takeItems_close (hskip : Separator.skip input = 0x5D :: tail) :
    Took (takeItems read items input) items.reverse tail := by
  have hlength := Separator.length_le_of_skip hskip
  rw [List.length_cons] at hlength
  refine ⟨hlength, ?_⟩
  rw [takeItems]
  split
  next h => simp [hskip] at h
  next h =>
    obtain ⟨rfl, rfl⟩ := List.cons.inj (hskip.symm.trans h)
    simp only [if_true]
    rfl

theorem takeItems_item {byte : UInt8} {item : Operand} {rest after : Bytes}
    {value : List Operand} (hskip : Separator.skip input = byte :: tail) (hbyte : byte ≠ 0x5D)
    (hitem : Took (takeOperand read .array (byte :: tail)) item rest)
    (hloop : Took (takeItems read (item :: items) rest) value after) :
    Took (takeItems read items input) value after := by
  obtain ⟨shorterItem, hitem⟩ := hitem
  obtain ⟨shorterLoop, hloop⟩ := hloop
  have hlength := Separator.length_le_of_skip hskip
  refine ⟨by omega, ?_⟩
  rw [takeItems]
  split
  next h => simp [hskip] at h
  next h =>
    obtain ⟨rfl, rfl⟩ := List.cons.inj (hskip.symm.trans h)
    simp only [if_neg hbyte, hitem, hloop]
    rfl

theorem takeItems_cases {taken : Taken (List Operand) input}
    (h : takeItems read items input = .ok taken) :
    (∃ tail, Separator.skip input = 0x5D :: tail ∧ taken.value = items.reverse ∧
      taken.rest = tail) ∨
    (∃ byte tail, ∃ item : Taken Operand (byte :: tail), ∃ loop,
      Separator.skip input = byte :: tail ∧ byte ≠ 0x5D ∧
      takeOperand read .array (byte :: tail) = .ok item ∧
      takeItems read (item.value :: items) item.rest = .ok loop ∧
      taken.value = loop.value ∧ taken.rest = loop.rest) := by
  rw [takeItems] at h
  split at h
  next => simp at h
  next byte tail hskip =>
    split at h
    next hbyte =>
      subst hbyte
      obtain rfl := Except.ok.inj h
      exact .inl ⟨tail, hskip, rfl, rfl⟩
    next hbyte =>
      split at h
      next => simp at h
      next item hitem =>
        dsimp only at h
        split at h
        next => simp at h
        next loop hloop =>
          obtain rfl := Except.ok.inj h
          exact .inr ⟨byte, tail, item, loop, hskip, hbyte, hitem, hloop, rfl, rfl⟩

end Items

section Entries

variable {read : Reader Token} {ending : EntryEnd} {entries : Dictionary} {input tail : Bytes}
  {byte : UInt8}

theorem takeEntries_close {closed : Taken Unit (byte :: tail)}
    (hskip : Separator.skip input = byte :: tail)
    (hclose : ending.close? (byte :: tail) = some closed) :
    Took (takeEntries read ending entries input) entries closed.rest := by
  have hlength := Separator.length_le_of_skip hskip
  refine ⟨Nat.lt_of_lt_of_le closed.shorter hlength, ?_⟩
  rw [takeEntries]
  split
  next h => simp [hskip] at h
  next h =>
    obtain ⟨rfl, rfl⟩ := List.cons.inj (hskip.symm.trans h)
    simp only [hclose]
    rfl

theorem takeEntries_entry {key : String} {item : Operand} {behind rest after : Bytes}
    {value : Dictionary} (hskip : Separator.skip input = 0x2F :: tail)
    (hclose : ending.close? (0x2F :: tail) = none)
    (hkey : Took (Name.take 0x2F tail) key behind)
    (hitem : Took (takeOperand read ending.container behind) item rest)
    (hloop : Took (takeEntries read ending (Dictionary.insert key item entries) rest) value after) :
    Took (takeEntries read ending entries input) value after := by
  obtain ⟨shorterKey, hkey⟩ := hkey
  obtain ⟨shorterItem, hitem⟩ := hitem
  obtain ⟨shorterLoop, hloop⟩ := hloop
  have hlength := Separator.length_le_of_skip hskip
  refine ⟨by omega, ?_⟩
  rw [takeEntries]
  split
  next h => simp [hskip] at h
  next h =>
    obtain ⟨rfl, rfl⟩ := List.cons.inj (hskip.symm.trans h)
    simp only [hclose, if_true, hkey, hitem, hloop]
    rfl

theorem takeEntries_cases {taken : Taken Dictionary input}
    (h : takeEntries read ending entries input = .ok taken) :
    (∃ byte tail, ∃ closed : Taken Unit (byte :: tail), Separator.skip input = byte :: tail ∧
      ending.close? (byte :: tail) = some closed ∧ taken.value = entries ∧
      taken.rest = closed.rest) ∨
    (∃ tail, ∃ key : Taken String (0x2F :: tail), ∃ item : Taken Operand key.rest, ∃ loop,
      Separator.skip input = 0x2F :: tail ∧ Name.take 0x2F tail = .ok key ∧
      takeOperand read ending.container key.rest = .ok item ∧
      takeEntries read ending (Dictionary.insert key.value item.value entries) item.rest =
        .ok loop ∧
      taken.value = loop.value ∧ taken.rest = loop.rest) := by
  rw [takeEntries] at h
  split at h
  next => simp at h
  next byte tail hskip =>
    dsimp only at h
    split at h
    next closed hclose =>
      obtain rfl := Except.ok.inj h
      exact .inl ⟨byte, tail, closed, hskip, hclose, rfl, rfl⟩
    next =>
      split at h
      next hbyte =>
        subst hbyte
        split at h
        next => simp at h
        next key hkey =>
          split at h
          next => simp at h
          next item hitem =>
            split at h
            next => simp at h
            next loop hloop =>
              obtain rfl := Except.ok.inj h
              exact .inr ⟨tail, key, item, loop, hskip, hkey, hitem, hloop, rfl, rfl⟩
      next => simp at h

end Entries

end Token

end ContentStream
