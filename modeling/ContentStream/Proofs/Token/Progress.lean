import ContentStream.Proofs.Token.Rounds

/-!
# Progress of the reader

The loops over the items of an array and over the entries of a dictionary advance,
because each item and each key takes something off the input.  Inside a container the
reader is called again with one level less, always further behind.
-/

namespace ContentStream

namespace Taken

def pair {α : Type} {input : Bytes} (taken : Taken α input) : α × Bytes :=
  (taken.value, taken.rest)

theorem pair_injective {α : Type} {input : Bytes} :
    Function.Injective (pair : Taken α input → α × Bytes) := by
  rintro ⟨value, rest, h⟩ ⟨value', rest', h'⟩ heq
  obtain ⟨rfl, rfl⟩ := Prod.mk.inj heq
  rfl

end Taken

namespace Token

def itemLoop (read : Reader Token) :
    Loop (List Operand) (Except Stuck (List Operand × Bytes)) where
  round items input :=
    match Separator.skip input with
    | [] => .ends (.error ⟨[], .unterminated .array⟩)
    | byte :: tail =>
      if byte = 0x5D then .ends (.ok (items.reverse, tail))
      else
        match takeOperand read .array (byte :: tail) with
        | .error stuck => .ends (.error stuck)
        | .ok item => .again (item.value :: items) item.rest

def entryLoop (read : Reader Token) (ending : EntryEnd) :
    Loop Dictionary (Except Stuck (Dictionary × Bytes)) where
  round entries input :=
    match Separator.skip input with
    | [] => .ends (.error ending.unclosed)
    | byte :: tail =>
      match ending.close? (byte :: tail) with
      | some closed => .ends (.ok (entries, closed.rest))
      | none =>
        if byte = 0x2F then
          match Name.take byte tail with
          | .error stuck => .ends (.error stuck)
          | .ok key =>
            match takeOperand read ending.container key.rest with
            | .error stuck => .ends (.error stuck)
            | .ok item => .again (Dictionary.insert key.value item.value entries) item.rest
        else
          .ends (.error ⟨byte :: tail, .keyExpected ending.container⟩)

section Loops

variable (read : Reader Token) (ending : EntryEnd)

theorem computes_itemLoop :
    (itemLoop read).Computes fun items input => (takeItems read items input).map Taken.pair := by
  intro items input
  simp only [itemLoop]
  rw [takeItems]
  split
  next hskip => simp only [hskip, Except.map]
  next byte tail hskip =>
    simp only [hskip]
    split
    next => rfl
    next =>
      cases hitem : takeOperand read .array (byte :: tail) with
      | error stuck => rfl
      | ok item =>
          dsimp only
          cases hloop : takeItems read (item.value :: items) item.rest <;> rfl

theorem computes_entryLoop :
    (entryLoop read ending).Computes fun entries input =>
      (takeEntries read ending entries input).map Taken.pair := by
  intro entries input
  simp only [entryLoop]
  rw [takeEntries]
  split
  next hskip => simp only [hskip, Except.map]
  next byte tail hskip =>
    simp only [hskip]
    cases hclose : ending.close? (byte :: tail) with
    | some closed => rfl
    | none =>
        dsimp only
        split
        next =>
          cases hkey : Name.take byte tail with
          | error stuck => rfl
          | ok key =>
              dsimp only
              cases hitem : takeOperand read ending.container key.rest with
              | error stuck => rfl
              | ok item =>
                  dsimp only
                  cases hloop : takeEntries read ending
                    (Dictionary.insert key.value item.value entries) item.rest <;> rfl
        next => rfl

end Loops

section Levels

variable {levels : Nat} {input : Bytes}

theorem suffix_of_read {taken : Taken Token input} (h : read levels input = .ok (some taken)) :
    taken.rest <:+ input :=
  (read_sound input levels List.suffix_rfl h).2

theorem behind_of_takeOperand {container : Container} {taken : Taken Operand input}
    (h : takeOperand (read levels) container input = .ok taken) : taken.rest.Behind input :=
  ⟨(takeOperand_sound (read_sound input levels) List.suffix_rfl h).2, taken.shorter⟩

theorem suffix_of_skip {found : Bytes} (h : Separator.skip input = found) : found <:+ input :=
  h ▸ Separator.skip_suffix input

theorem advances_itemLoop (levels : Nat) : (itemLoop (read levels)).Advances := by
  intro items input next rest h
  simp only [itemLoop] at h
  split at h
  next => contradiction
  next byte tail hskip =>
    split at h
    next => contradiction
    next =>
      split at h
      next => contradiction
      next item hitem =>
        obtain ⟨-, rfl⟩ := Round.again.inj h
        exact (behind_of_takeOperand hitem).in_suffix (suffix_of_skip hskip)

theorem advances_entryLoop (levels : Nat) (ending : EntryEnd) :
    (entryLoop (read levels) ending).Advances := by
  intro entries input next rest h
  simp only [entryLoop] at h
  split at h
  next => contradiction
  next byte tail hskip =>
    split at h
    next => contradiction
    next =>
      split at h
      next =>
        split at h
        next => contradiction
        next key hkey =>
          split at h
          next => contradiction
          next item hitem =>
            obtain ⟨-, rfl⟩ := Round.again.inj h
            exact (behind_of_takeOperand hitem).in_suffix
              ((Name.take_suffix hkey).trans (suffix_of_skip hskip))
      next => contradiction

end Levels

/-! ## Readings inside a container -/

/-- The token at `input` is a container, and an operand inside it is read at `place`. -/
inductive Enters (read : Reader Token) (input : Bytes) : (place : Bytes) → Prop where
  | item {tail : Bytes} {items : List Operand} {rest : Bytes} {byte : UInt8} {behind : Bytes} :
      Separator.skip input = 0x5B :: tail → (itemLoop read).Visits [] tail items rest →
      Separator.skip rest = byte :: behind → byte ≠ 0x5D → Enters read input (byte :: behind)
  | entry {tail : Bytes} {entries : Dictionary} {rest behind : Bytes}
      {key : Taken String (0x2F :: behind)} :
      Separator.skip input = 0x3C :: 0x3C :: tail →
      (entryLoop read dictionaryEnd).Visits [] tail entries rest →
      Separator.skip rest = 0x2F :: behind → Name.take 0x2F behind = .ok key →
      Enters read input key.rest

theorem Enters.behind {levels : Nat} {input place : Bytes}
    (h : Enters (read levels) input place) : place.Behind input := by
  cases h with
  | item hskip hvisits hfirst _ =>
      have hrest := (suffix_of_skip hfirst).trans (hvisits.suffix (advances_itemLoop levels))
      exact ((Bytes.behind_cons 0x5B _).in_suffix (suffix_of_skip hskip)).of_suffix hrest
  | entry hskip hvisits hfirst hkey =>
      have hrest := (suffix_of_skip hfirst).trans
        (hvisits.suffix (advances_entryLoop levels dictionaryEnd))
      have htail := (List.suffix_cons 0x3C _).trans (suffix_of_skip hskip)
      exact ((Bytes.behind_cons 0x3C _).in_suffix htail).of_suffix
        ((Name.take_suffix hkey).trans hrest)

section Congr

variable {levels : Nat} {other : Reader Token}

private theorem map_pair_inj {α : Type} {input : Bytes} {x y : Except Stuck (Taken α input)}
    (h : x.map Taken.pair = y.map Taken.pair) : x = y := by
  cases x with
  | error stuck => cases y <;> simp_all [Except.map]
  | ok taken =>
      cases y with
      | error stuck => simp [Except.map] at h
      | ok taken' => exact congrArg Except.ok (Taken.pair_injective (Except.ok.inj h))

private theorem takeOperand_congr {read : Reader Token} {input : Bytes}
    (h : other input = read input) (container : Container) :
    takeOperand other container input = takeOperand read container input := by
  unfold takeOperand
  rw [h]

private theorem takeArray_congr {input tail : Bytes} (hskip : Separator.skip input = 0x5B :: tail)
    (hsame : ∀ {place}, Enters (read levels) input place → other place = read levels place) :
    takeArray (some other) 0x5B tail = takeArray (some (read levels)) 0x5B tail := by
  have hitems : takeItems other [] tail = takeItems (read levels) [] tail := by
    refine map_pair_inj ((computes_itemLoop (read levels)).congr (computes_itemLoop other)
      (advances_itemLoop levels) fun {items rest} hvisits => ?_)
    simp only [itemLoop]
    split
    next => rfl
    next byte behind hfirst =>
      split
      next => rfl
      next hbyte =>
        rw [takeOperand_congr (hsame (.item hskip hvisits hfirst hbyte))]
  rw [takeArray, takeArray, hitems]

private theorem takeDictionary_congr {input tail : Bytes}
    (hskip : Separator.skip input = 0x3C :: 0x3C :: tail)
    (hsame : ∀ {place}, Enters (read levels) input place → other place = read levels place) :
    takeDictionary (some other) 0x3C 0x3C tail =
      takeDictionary (some (read levels)) 0x3C 0x3C tail := by
  have hentries : takeEntries other dictionaryEnd [] tail =
      takeEntries (read levels) dictionaryEnd [] tail := by
    refine map_pair_inj ((computes_entryLoop (read levels) dictionaryEnd).congr
      (computes_entryLoop other dictionaryEnd) (advances_entryLoop levels dictionaryEnd)
      fun {entries rest} hvisits => ?_)
    simp only [entryLoop]
    split
    next => rfl
    next byte behind hfirst =>
      split
      next => rfl
      next =>
        split
        next hbyte =>
          subst hbyte
          split
          next => rfl
          next key hkey =>
            rw [takeOperand_congr (hsame (.entry hskip hvisits hfirst hkey))]
        next => rfl
  rw [takeDictionary, takeDictionary, hentries]

/-- A token is read as it is because of what is read inside it, and of nothing else that the
reader for the inside does. -/
theorem readWith_congr {input : Bytes}
    (hsame : ∀ {place}, Enters (read levels) input place → other place = read levels place) :
    readWith (some other) input = read (levels + 1) input := by
  rw [read, readWith, readWith]
  split
  next => rfl
  next first tail hskip =>
    have hfirst :
        takeFirst (some other) first tail = takeFirst (some (read levels)) first tail := by
      unfold takeFirst
      split
      · rfl
      split
      next hangle =>
        subst hangle
        cases tail with
        | nil => rfl
        | cons second tail =>
            rw [takeAngle, takeAngle]
            split
            next hsecond =>
              subst hsecond
              exact takeDictionary_congr hskip hsame
            next => rfl
      split
      next hbracket =>
        subst hbracket
        exact takeArray_congr hskip hsame
      · rfl
    rw [hfirst]

end Congr

/-- Inside the token at `input` a token is read at `place`, the given number of containers
further in; `levels` and `lower` are the levels that are left. -/
inductive Nests : (containers levels : Nat) → (input : Bytes) → (lower : Nat) →
    (place : Bytes) → Prop where
  | here (levels : Nat) (input : Bytes) : Nests 0 levels input levels input
  | enter {containers levels : Nat} {input inner : Bytes} {lower : Nat} {place : Bytes} :
      Enters (read levels) input inner → Nests containers levels inner lower place →
      Nests (containers + 1) (levels + 1) input lower place

theorem Nests.levels_eq {containers levels lower : Nat} {input place : Bytes}
    (h : Nests containers levels input lower place) : levels = lower + containers := by
  induction h with
  | here => rfl
  | enter _ _ ih => omega

theorem Nests.suffix {containers levels lower : Nat} {input place : Bytes}
    (h : Nests containers levels input lower place) :
    place <:+ input ∧ place.length + containers ≤ input.length := by
  induction h with
  | here => exact ⟨List.suffix_rfl, Nat.le_refl _⟩
  | enter henters _ ih =>
      obtain ⟨hsuffix, hlength⟩ := henters.behind
      exact ⟨ih.1.trans hsuffix, by omega⟩

end Token

end ContentStream
