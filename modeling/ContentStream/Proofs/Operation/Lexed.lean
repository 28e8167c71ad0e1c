import ContentStream.Proofs.Operation.Image
import ContentStream.Proofs.Operation.Keyword
import ContentStream.Proofs.Token.Suffix
import Mathlib.Data.List.TakeWhile

/-!
# What the lexer produces

Whatever the source is, an operand that is read has distinct keys and is nested no
deeper than the reader allows, a keyword is a word of regular bytes that stands for no
operand, and the data of an inline image does not hold its end keyword.  A real is the
value of a numeral of the source.  It may still be infinite, since a numeral can be too
large for a double.
-/

namespace ContentStream

namespace Dictionary

theorem mem_of_mem_insert {key : String} {value : Operand} {entries : Dictionary}
    {entry : String × Operand} (h : entry ∈ insert key value entries) :
    entry = (key, value) ∨ entry ∈ entries := by
  induction entries with
  | nil => exact .inl (List.mem_singleton.1 h)
  | cons first rest ih =>
      rw [insert] at h
      split at h
      · rcases List.mem_cons.1 h with rfl | hrest
        · exact .inl rfl
        · exact .inr (List.mem_cons_of_mem _ hrest)
      · rcases List.mem_cons.1 h with rfl | hrest
        · exact .inr List.mem_cons_self
        · rcases ih hrest with hnew | hold
          · exact .inl hnew
          · exact .inr (List.mem_cons_of_mem _ hold)

theorem nodup_keys_insert {key : String} {entries : Dictionary} (h : (keys entries).Nodup)
    (value : Operand) : (keys (insert key value entries)).Nodup := by
  induction entries with
  | nil => simp [insert, keys]
  | cons first rest ih =>
      simp only [keys, List.map_cons, List.nodup_cons] at h ih
      rw [insert]
      split
      next heq =>
        subst heq
        simpa [keys] using h
      next hne =>
        simp only [keys, List.map_cons, List.nodup_cons]
        refine ⟨?_, ih h.2⟩
        intro hmem
        obtain ⟨entry, hentry, hkey⟩ := List.mem_map.1 hmem
        rcases mem_of_mem_insert hentry with rfl | hold
        · exact hne hkey.symm
        · exact h.1 (hkey ▸ List.mem_map_of_mem hold)

end Dictionary

theorem Operand.Formed.mono {p q : Float → Prop} {levels : Nat} {value : Operand}
    (h : Formed p levels value) (himp : ∀ x, p x → q x) : Formed q levels value := by
  induction h with
  | integer => exact .integer
  | real hvalue => exact .real (himp _ hvalue)
  | boolean => exact .boolean
  | name => exact .name
  | literalString => exact .literalString
  | hexString => exact .hexString
  | array _ ih => exact .array ih
  | dictionary hnodup _ ih => exact .dictionary hnodup ih
  | null => exact .null

abbrev Operand.Lexed (levels : Nat) (value : Operand) : Prop :=
  Formed (fun _ => True) levels value

/-- The real is the value of a numeral that stands in the source. -/
def Numeral.StandsIn (source : Bytes) (value : Float) : Prop :=
  ∃ place, place <:+ source ∧ (split place).1.real? = some value

theorem Separator.suffix_of_skip {source input tail : Bytes} {byte : UInt8}
    (h : skip input = byte :: tail) (hinput : input <:+ source) : byte :: tail <:+ source :=
  h ▸ (skip_suffix input).trans hinput

namespace Token

def Formed (p : Float → Prop) (levels : Nat) : Token → Prop
  | .operand value => value.Formed p levels
  | .keyword word => IsWord word

/--
Anywhere in the source, a reader gives well-formed tokens only, with reals of the
source, and what it leaves is the end of the source again.
-/
def Sound (source : Bytes) (read : Reader Token) (levels : Nat) : Prop :=
  ∀ {input : Bytes} {taken : Taken Token input}, input <:+ source →
    read input = .ok (some taken) →
    taken.value.Formed (Numeral.StandsIn source) levels ∧ taken.rest <:+ source

section Loops

variable {source : Bytes} {read : Reader Token} {levels : Nat}

theorem takeOperand_sound (hread : Sound source read levels) {container : Container}
    {input : Bytes} {taken : Taken Operand input} (hinput : input <:+ source)
    (h : takeOperand read container input = .ok taken) :
    taken.value.Formed (Numeral.StandsIn source) levels ∧ taken.rest <:+ source := by
  unfold takeOperand at h
  split at h
  next => simp at h
  next => simp at h
  next hoperand =>
    obtain rfl := Except.ok.inj h
    exact hread hinput hoperand
  next => simp at h

theorem takeItems_sound (hread : Sound source read levels) {items : List Operand} {input : Bytes}
    {taken : Taken (List Operand) input} (hinput : input <:+ source)
    (hitems : ∀ item ∈ items, item.Formed (Numeral.StandsIn source) levels)
    (h : takeItems read items input = .ok taken) :
    (∀ item ∈ taken.value, item.Formed (Numeral.StandsIn source) levels) ∧
      taken.rest <:+ source := by
  rcases takeItems_cases h with ⟨tail, hskip, hvalue, hrest⟩ |
    ⟨byte, tail, item, loop, hskip, -, hitem, hloop, hvalue, hrest⟩
  · rw [hvalue, hrest]
    refine ⟨fun item hmem => hitems item (List.mem_reverse.1 hmem), ?_⟩
    exact (List.suffix_cons 0x5D tail).trans (Separator.suffix_of_skip hskip hinput)
  · obtain ⟨hfirst, hbehind⟩ :=
      takeOperand_sound hread (Separator.suffix_of_skip hskip hinput) hitem
    have shorter : item.rest.length < input.length :=
      Nat.lt_of_lt_of_le item.shorter (Separator.length_le_of_skip hskip)
    rw [hvalue, hrest]
    refine takeItems_sound hread hbehind ?_ hloop
    intro other hother
    rcases List.mem_cons.1 hother with rfl | hmem
    · exact hfirst
    · exact hitems other hmem
termination_by input.length

theorem takeEntries_sound (hread : Sound source read levels) {ending : EntryEnd}
    (hending : ending.Cuts) {entries : Dictionary} {input : Bytes}
    {taken : Taken Dictionary input} (hinput : input <:+ source)
    (hnodup : (Dictionary.keys entries).Nodup)
    (hentries : ∀ entry ∈ entries, entry.2.Formed (Numeral.StandsIn source) levels)
    (h : takeEntries read ending entries input = .ok taken) :
    (Dictionary.keys taken.value).Nodup ∧
      (∀ entry ∈ taken.value, entry.2.Formed (Numeral.StandsIn source) levels) ∧
      taken.rest <:+ source := by
  rcases takeEntries_cases h with ⟨byte, tail, closed, hskip, hclose, hvalue, hrest⟩ |
    ⟨tail, key, item, loop, hskip, hkey, hitem, hloop, hvalue, hrest⟩
  · rw [hvalue, hrest]
    exact ⟨hnodup, hentries, (hending hclose).trans (Separator.suffix_of_skip hskip hinput)⟩
  · have hname := (Name.take_suffix hkey).trans (Separator.suffix_of_skip hskip hinput)
    obtain ⟨hfirst, hbehind⟩ := takeOperand_sound hread hname hitem
    have shorter : item.rest.length < input.length :=
      Nat.lt_trans item.shorter
        (Nat.lt_of_lt_of_le key.shorter (Separator.length_le_of_skip hskip))
    rw [hvalue, hrest]
    refine takeEntries_sound hread hending hbehind
      (Dictionary.nodup_keys_insert hnodup item.value) ?_ hloop
    intro entry hentry
    rcases Dictionary.mem_of_mem_insert hentry with rfl | hold
    · exact hfirst
    · exact hentries entry hold
termination_by input.length

end Loops

/-! ## Single tokens -/

section Single

variable {source : Bytes} {levels : Nat}

private theorem formed_of_operand? {q : Float → Prop} {p : Numeral.Parts} {value : Operand}
    (hreal : ∀ x, p.real? = some x → q x) (h : p.operand? = some value) :
    value.Formed q levels := by
  unfold Numeral.Parts.operand? at h
  split at h
  · obtain ⟨found, -, rfl⟩ := Option.map_eq_some_iff.1 h
    exact .integer
  · obtain ⟨found, hfound, rfl⟩ := Option.map_eq_some_iff.1 h
    exact .real (hreal found hfound)

private theorem takeNumeral_sound {first : UInt8} {tail : Bytes}
    {hfirst : Numeral.isStart first = true} {taken : Taken Operand (first :: tail)}
    (hinput : first :: tail <:+ source) (h : Numeral.take first tail hfirst = .ok taken) :
    taken.value.Formed (Numeral.StandsIn source) levels := by
  unfold Numeral.take at h
  dsimp only at h
  split at h
  next value hvalue =>
    obtain rfl := Except.ok.inj h
    exact formed_of_operand? (fun x hx => ⟨first :: tail, hinput, hx⟩) hvalue
  next => simp at h

private theorem ofWord_formed {q : Float → Prop} {word : Bytes} (hnil : word ≠ [])
    (hregular : ∀ byte ∈ word, Byte.isRegular byte = true)
    (hstart : ∀ byte ∈ word.head?, Numeral.isStart byte = false) :
    (ofWord word).Formed q levels := by
  by_cases hkeyword : ofWord word = .keyword word
  · rw [hkeyword]
    exact ⟨hnil, hregular, hstart, hkeyword⟩
  · unfold ofWord at hkeyword ⊢
    split
    · exact .boolean
    split
    · exact .boolean
    split
    · exact .null
    · simp_all

private theorem takeWord_sound {q : Float → Prop} {first : UInt8} {tail : Bytes}
    (hother : Separator.isOther first = true) (hstart : Numeral.isStart first = false)
    (hdelimiter : Byte.isDelimiter first = false) :
    (takeWord first tail).value.Formed q levels := by
  refine ofWord_formed (by simp) ?_ ?_
  · intro byte hbyte
    rcases List.mem_cons.1 hbyte with rfl | hmem
    · simp only [Separator.isOther, Bool.and_eq_true, Bool.not_eq_true'] at hother
      simp [Byte.isRegular, hother.1, hdelimiter]
    · exact List.mem_takeWhile_imp hmem
  · intro byte hbyte
    obtain rfl : first = byte := by simpa using hbyte
    exact hstart

private theorem takeHex_sound {first : UInt8} {tail : Bytes} {taken : Taken Token (first :: tail)}
    (hinput : first :: tail <:+ source)
    (h : (Hex.take first tail).map (Taken.map fun bytes => .operand (.hexString bytes)) =
      .ok taken) :
    taken.value.Formed (Numeral.StandsIn source) levels ∧ taken.rest <:+ source := by
  obtain ⟨bytes, hbytes, rfl⟩ := Result.map_eq_ok.1 h
  exact ⟨.hexString, (Hex.take_suffix hbytes).trans hinput⟩

end Single

section Levels

variable {source : Bytes} {levels : Nat}
  (hread : ∀ {lower}, levels = lower + 1 → Sound source (read lower) lower)
include hread

private theorem takeArray_sound {opening : UInt8} {tail : Bytes}
    {taken : Taken Token (opening :: tail)} (hinput : opening :: tail <:+ source)
    (h : takeArray (inside levels) opening tail = .ok taken) :
    taken.value.Formed (Numeral.StandsIn source) levels ∧ taken.rest <:+ source := by
  cases levels with
  | zero => simp [takeArray, inside] at h
  | succ lower =>
      rw [inside, takeArray] at h
      split at h
      next => simp at h
      next items hitems =>
        obtain rfl := Except.ok.inj h
        have htail := (List.suffix_cons opening tail).trans hinput
        obtain ⟨hvalues, hrest⟩ := takeItems_sound (hread rfl) htail (by simp) hitems
        exact ⟨.array hvalues, hrest⟩

private theorem takeDictionary_sound {first second : UInt8} {tail : Bytes}
    {taken : Taken Token (first :: second :: tail)} (hinput : first :: second :: tail <:+ source)
    (h : takeDictionary (inside levels) first second tail = .ok taken) :
    taken.value.Formed (Numeral.StandsIn source) levels ∧ taken.rest <:+ source := by
  cases levels with
  | zero => simp [takeDictionary, inside] at h
  | succ lower =>
      rw [inside, takeDictionary] at h
      split at h
      next => simp at h
      next entries hentries =>
        obtain rfl := Except.ok.inj h
        have htail := (List.suffix_cons second tail).trans
          ((List.suffix_cons first _).trans hinput)
        obtain ⟨hnodup, hvalues, hrest⟩ := takeEntries_sound (hread rfl) cuts_dictionaryEnd htail
          (by simp [Dictionary.keys]) (by simp) hentries
        exact ⟨.dictionary hnodup hvalues, hrest⟩

private theorem takeAngle_sound {first : UInt8} {tail : Bytes}
    {taken : Taken Token (first :: tail)} (hinput : first :: tail <:+ source)
    (h : takeAngle (inside levels) first tail = .ok taken) :
    taken.value.Formed (Numeral.StandsIn source) levels ∧ taken.rest <:+ source := by
  cases tail with
  | nil =>
      rw [takeAngle] at h
      exact takeHex_sound hinput h
  | cons second tail =>
      rw [takeAngle] at h
      split at h
      · exact takeDictionary_sound hread hinput h
      · exact takeHex_sound hinput h

private theorem takeFirst_sound {first : UInt8} {tail : Bytes}
    {taken : Taken Token (first :: tail)} (hother : Separator.isOther first = true)
    (hinput : first :: tail <:+ source) (h : takeFirst (inside levels) first tail = .ok taken) :
    taken.value.Formed (Numeral.StandsIn source) levels ∧ taken.rest <:+ source := by
  unfold takeFirst at h
  split at h
  · obtain ⟨bytes, hbytes, rfl⟩ := Result.map_eq_ok.1 h
    exact ⟨.literalString, (Literal.take_suffix hbytes).trans hinput⟩
  split at h
  · exact takeAngle_sound hread hinput h
  split at h
  · exact takeArray_sound hread hinput h
  split at h
  · obtain ⟨text, htext, rfl⟩ := Result.map_eq_ok.1 h
    exact ⟨.name, (Name.take_suffix htext).trans hinput⟩
  split at h
  next hstart =>
    obtain ⟨value, hvalue, rfl⟩ := Result.map_eq_ok.1 h
    exact ⟨takeNumeral_sound hinput hvalue, (Numeral.take_suffix hvalue).trans hinput⟩
  next hstart =>
    split at h
    next => simp at h
    next hdelimiter =>
      obtain rfl := Except.ok.inj h
      exact ⟨takeWord_sound hother (by simpa using hstart) (by simpa using hdelimiter),
        (takeWord_suffix first tail).trans hinput⟩

private theorem readWith_sound : Sound source (readWith (inside levels)) levels := by
  intro input taken hinput h
  unfold readWith at h
  split at h
  next => simp at h
  next first tail hskip =>
    split at h
    next => simp at h
    next found hfound =>
      obtain rfl := Option.some.inj (Except.ok.inj h)
      exact takeFirst_sound hread (Separator.isOther_of_skip hskip)
        (Separator.suffix_of_skip hskip hinput) hfound

end Levels

/-- Whatever is read is nested no deeper than the reader allows. -/
theorem read_sound (source : Bytes) (levels : Nat) : Sound source (read levels) levels := by
  induction levels with
  | zero =>
      rw [read_eq]
      exact readWith_sound fun h => by simp at h
  | succ levels ih =>
      rw [read_eq]
      refine readWith_sound fun {lower} h => ?_
      obtain rfl : levels = lower := by omega
      exact ih

end Token

namespace InlineImage

theorem take_sound {source input : Bytes} {taken : Taken (Dictionary × Bytes) input}
    (hinput : input <:+ source) (h : take input = .ok taken) :
    (Dictionary.keys taken.value.1).Nodup ∧
      (∀ entry ∈ taken.value.1, entry.2.Formed (Numeral.StandsIn source) nestingLimit) ∧
      IsData taken.value.2 ∧ taken.rest <:+ source := by
  unfold take at h
  split at h
  next => simp at h
  next entries hentries =>
    split at h
    next data rest hdata =>
      obtain rfl := Except.ok.inj h
      obtain ⟨hnodup, hvalues, hbehind⟩ := Token.takeEntries_sound
        (Token.read_sound source nestingLimit) (cuts_entriesEnd input) hinput
        (by simp [Dictionary.keys]) (by simp) hentries
      exact ⟨hnodup, hvalues, isData_of_takeData hdata, (takeData_suffix hdata).trans hbehind⟩
    next => simp at h

end InlineImage

namespace Operation

/--
Operations of the lexer, with reals that satisfy `p`; an inline image has exactly two
operands.
-/
inductive Formed (p : Float → Prop) : Operation → Prop
  | plain {name operands} : IsKeyword name → name ≠ "BI" →
      (∀ operand ∈ operands, operand.Formed p nestingLimit) → Formed p ⟨name, operands⟩
  | image {entries data} : (Dictionary.keys entries).Nodup →
      (∀ entry ∈ entries, entry.2.Formed p nestingLimit) → InlineImage.IsData data →
      Formed p ⟨"BI", [.dictionary entries, .literalString data]⟩

theorem Formed.mono {p q : Float → Prop} {operation : Operation} (h : operation.Formed p)
    (himp : ∀ x, p x → q x) : operation.Formed q := by
  cases h with
  | plain hkeyword hname hoperands =>
      exact .plain hkeyword hname fun operand hoperand => (hoperands operand hoperand).mono himp
  | image hnodup hentries hdata =>
      exact .image hnodup (fun entry hentry => (hentries entry hentry).mono himp) hdata

theorem Formed.isKeyword {p : Float → Prop} {operation : Operation} (h : operation.Formed p) :
    IsKeyword operation.name := by
  cases h with
  | plain hkeyword => exact hkeyword
  | image => exact isWord_imageKeyword.isKeyword

abbrev Lexed : Operation → Prop :=
  Formed fun _ => True

theorem takeAll_sound {source : Bytes} {pending : List Operand}
    {operations result : List Operation} {input : Bytes} (hinput : input <:+ source)
    (hpending : ∀ operand ∈ pending, operand.Formed (Numeral.StandsIn source) nestingLimit)
    (hoperations : ∀ operation ∈ operations, operation.Formed (Numeral.StandsIn source))
    (h : takeAll pending operations input = .ok result) :
    ∀ operation ∈ result, operation.Formed (Numeral.StandsIn source) := by
  rw [takeAll] at h
  split at h
  next => simp at h
  next =>
    obtain rfl := Except.ok.inj h
    intro operation hmem
    exact hoperations operation (List.mem_reverse.1 hmem)
  next value rest shorter hread =>
    obtain ⟨hvalue, hrest⟩ := Token.read_sound source nestingLimit hinput hread
    refine takeAll_sound hrest ?_ hoperations h
    intro operand hmem
    rcases List.mem_cons.1 hmem with rfl | hold
    · exact hvalue
    · exact hpending operand hold
  next word rest shorter hread =>
    obtain ⟨hword, hrest⟩ := Token.read_sound source nestingLimit hinput hread
    have hword : Token.IsWord word := hword
    split at h
    next hkeyword =>
      split at h
      next => simp at h
      next image himage =>
        obtain ⟨hnodup, hentries, hdata, hbehind⟩ := InlineImage.take_sound hrest himage
        have hname : Utf8.decodeLossy word = "BI" := (decodeLossy_eq_image_iff word).2 hkeyword
        have hshorter : image.rest.length < input.length := Nat.lt_trans image.shorter shorter
        refine takeAll_sound hbehind (by simp) ?_ h
        intro operation hmem
        rcases List.mem_cons.1 hmem with rfl | hold
        · rw [hname]
          exact .image hnodup hentries hdata
        · exact hoperations operation hold
    next hkeyword =>
      refine takeAll_sound hrest (by simp) ?_ h
      intro operation hmem
      rcases List.mem_cons.1 hmem with rfl | hold
      · refine .plain hword.isKeyword (mt (decodeLossy_eq_image_iff word).1 hkeyword) ?_
        intro operand hoperand
        exact hpending operand (List.mem_reverse.1 hoperand)
      · exact hoperations operation hold
termination_by input.length

theorem formed_of_ofBytes {source : Bytes} {operations : List Operation}
    (h : ofBytes source = .ok operations) :
    ∀ operation ∈ operations, operation.Formed (Numeral.StandsIn source) := by
  unfold ofBytes at h
  split at h
  next result hresult =>
    obtain rfl := Except.ok.inj h
    exact takeAll_sound List.suffix_rfl (by simp) (by simp) hresult
  next => simp at h

theorem lexed_of_ofBytes {source : Bytes} {operations : List Operation}
    (h : ofBytes source = .ok operations) : ∀ operation ∈ operations, operation.Lexed :=
  fun operation hoperation => (formed_of_ofBytes h operation hoperation).mono fun _ _ => trivial

end Operation

end ContentStream
