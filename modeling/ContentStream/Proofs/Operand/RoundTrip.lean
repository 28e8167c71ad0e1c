import ContentStream.Proofs.Operand.Layout
import ContentStream.Proofs.Token.Escapes
import ContentStream.Proofs.Token.Numeral

/-!
# Operands read back

An operand whose reals are finite, whose dictionaries have distinct keys, and that is
not nested too deeply has a token, and reading that token gives the operand back, however
it is laid out.  What follows the token must not begin with a regular byte, and is not
touched.
-/

namespace ContentStream

namespace Operand

/--
Reals satisfy `p`, dictionaries have distinct keys, and at most `levels` arrays and
dictionaries stand inside each other.
-/
inductive Formed (p : Float → Prop) : (levels : Nat) → Operand → Prop
  | integer {levels value} : Formed p levels (.integer value)
  | real {levels value} : p value → Formed p levels (.real value)
  | boolean {levels value} : Formed p levels (.boolean value)
  | name {levels text} : Formed p levels (.name text)
  | literalString {levels bytes} : Formed p levels (.literalString bytes)
  | hexString {levels bytes} : Formed p levels (.hexString bytes)
  | array {levels items} : (∀ item ∈ items, Formed p levels item) →
      Formed p (levels + 1) (.array items)
  | dictionary {levels entries} : (Dictionary.keys entries).Nodup →
      (∀ entry ∈ entries, Formed p levels entry.2) → Formed p (levels + 1) (.dictionary entries)
  | null {levels} : Formed p levels .null

abbrev Writable (levels : Nat) (value : Operand) : Prop :=
  Formed (fun x => Binary.isFinite x = true) levels value

end Operand

namespace Dictionary

theorem insert_of_notMem {key : String} {entries : Dictionary} (h : key ∉ keys entries)
    (value : Operand) : insert key value entries = entries ++ [(key, value)] := by
  induction entries with
  | nil => rfl
  | cons entry rest ih =>
      simp only [keys, List.map_cons, List.mem_cons, not_or] at h
      rw [insert, if_neg (Ne.symm h.1), ih h.2, List.cons_append]

end Dictionary

namespace Token

def inside : (levels : Nat) → Option (Reader Token)
  | 0 => none
  | levels + 1 => some (read levels)

theorem read_eq (levels : Nat) : read levels = readWith (inside levels) := by
  cases levels <;> rfl

/-- The text is taken as the value wherever it stands in front of no regular byte. -/
def Spells (levels : Nat) (text : Bytes) (value : Operand) : Prop :=
  ∃ first tail, text = first :: tail ∧ Separator.isOther first = true ∧ first ≠ 0x5D ∧
    ∀ {rest : Bytes}, rest.Ends →
      Took (takeFirst (inside levels) first (tail ++ rest)) (.operand value) rest

theorem Spells.yields {levels : Nat} {text : Bytes} {value : Operand}
    (h : Spells levels text value) {input rest : Bytes} (hrest : rest.Ends)
    (hskip : Separator.skip input = Separator.skip (text ++ rest)) :
    (read levels).Yields input (.operand value) rest := by
  obtain ⟨first, tail, rfl, hother, -, htook⟩ := h
  rw [List.cons_append, Separator.skip_other hother] at hskip
  rw [read_eq]
  exact readWith_yields hskip (htook hrest)

theorem takeFirst_word (inside : Option (Reader Token)) {first : UInt8} {tail rest : Bytes}
    (hregular : ∀ byte ∈ first :: tail, Byte.isRegular byte = true)
    (hstart : Numeral.isStart first = false) (hrest : rest.Ends) :
    Took (takeFirst inside first (tail ++ rest)) (ofWord (first :: tail)) rest := by
  have hfirst := hregular first (by simp)
  have hdelimiter := Byte.isDelimiter_of_isRegular hfirst
  have htail : ∀ byte ∈ tail, Byte.isRegular byte = true :=
    fun byte h => hregular byte (List.mem_cons_of_mem _ h)
  have hne : ∀ {other : UInt8}, Byte.isRegular other = false → first ≠ other :=
    Byte.ne_of_class hfirst
  have hshorter : List.length rest < (first :: (tail ++ rest)).length := by
    simp only [List.length_cons, List.length_append]
    omega
  refine ⟨hshorter, ?_⟩
  unfold takeFirst
  rw [if_neg (hne rfl), if_neg (hne rfl), if_neg (hne rfl), if_neg (hne rfl),
    dif_neg (by simp [hstart]), if_neg (by simp [hdelimiter])]
  simp only [takeWord, Taken.afterFirst, Bytes.takeWhile_append htail hrest,
    Bytes.dropWhile_append htail hrest]

theorem spells_word (levels : Nat) {first : UInt8} {tail : Bytes} {value : Operand}
    (hregular : ∀ byte ∈ first :: tail, Byte.isRegular byte = true)
    (hstart : Numeral.isStart first = false)
    (hword : ofWord (first :: tail) = .operand value) : Spells levels (first :: tail) value := by
  have hfirst := hregular first (by simp)
  refine ⟨first, tail, rfl, Separator.isOther_of_isRegular hfirst,
    Byte.ne_of_class hfirst rfl, ?_⟩
  intro rest hrest
  rw [← hword]
  exact takeFirst_word _ hregular hstart hrest

theorem spells_number (levels : Nat) {p : Numeral.Parts} {value : Operand}
    (h : p.Shows value) : Spells levels p.text value := by
  obtain ⟨first, tail, hfirst, htext, -⟩ := h.take Bytes.ends_nil
  have hregular := Byte.isRegular_of_isStart hfirst
  have hne : ∀ {other : UInt8}, Byte.isRegular other = false → first ≠ other :=
    Byte.ne_of_class hregular
  refine ⟨first, tail, htext, Separator.isOther_of_isRegular hregular, hne rfl,
    fun {rest} hrest => ?_⟩
  obtain ⟨first', tail', hfirst', htext', htook⟩ := h.take hrest
  obtain ⟨rfl, rfl⟩ := List.cons.inj (htext.symm.trans htext')
  unfold takeFirst
  rw [if_neg (hne rfl), if_neg (hne rfl), if_neg (hne rfl), if_neg (hne rfl), dif_pos hfirst]
  exact htook.map Token.operand

theorem spells_literal (levels : Nat) (bytes : Bytes) :
    Spells levels (Literal.written bytes) (.literalString bytes) := by
  refine ⟨0x28, bytes.flatMap Literal.escapeByte ++ [0x29], rfl, by decide, by decide, ?_⟩
  intro rest _
  have htook := Literal.take_written bytes rest
  rw [takeFirst, if_pos rfl, List.append_assoc]
  exact htook.map fun bytes => Token.operand (.literalString bytes)

theorem spells_name (levels : Nat) (text : String) :
    Spells levels (Name.written text) (.name text) := by
  refine ⟨0x2F, Name.escape (Utf8.encode text), rfl, by decide, by decide, ?_⟩
  intro rest hrest
  have htook := Name.take_written text hrest
  rw [takeFirst, if_neg (by decide), if_neg (by decide), if_neg (by decide), if_pos rfl]
  exact htook.map fun text => Token.operand (.name text)

private theorem takeAngle_hex (inside : Option (Reader Token)) {tail : Bytes}
    (h : ∀ byte, tail.head? = some byte → byte ≠ 0x3C) :
    takeAngle inside 0x3C tail =
      (Hex.take 0x3C tail).map (Taken.map fun bytes => .operand (.hexString bytes)) := by
  cases tail with
  | nil => rfl
  | cons second tail => rw [takeAngle, if_neg (h second rfl)]

theorem spells_hex (levels : Nat) (bytes : Bytes) :
    Spells levels (Hex.written bytes) (.hexString bytes) := by
  refine ⟨0x3C, bytes.flatMap Hex.writtenByte ++ [0x3E], rfl, by decide, by decide, ?_⟩
  intro rest _
  have htook := Hex.take_written bytes rest
  have hhead : ∀ byte, (bytes.flatMap Hex.writtenByte ++ 0x3E :: rest).head? = some byte →
      byte ≠ 0x3C := by
    intro byte hbyte
    cases bytes with
    | nil =>
        simp only [List.flatMap_nil, List.nil_append, List.head?_cons, Option.some.injEq] at hbyte
        rw [← hbyte]
        decide
    | cons first bytes =>
        simp only [List.flatMap_cons, Hex.writtenByte, List.cons_append, List.head?_cons,
          Option.some.injEq] at hbyte
        rw [← hbyte]
        exact Byte.ne_of_class (Byte.isRegular_lowerHexDigit (Byte.div_sixteen_lt first)) rfl
  rw [takeFirst, if_neg (by decide), if_pos rfl, List.append_assoc]
  rw [List.singleton_append, takeAngle_hex _ hhead]
  exact htook.map fun bytes => Token.operand (.hexString bytes)

/-! ## Arrays and dictionaries -/

private theorem takeItems_spells {levels : Nat} {text behind input rest : Bytes} {item : Operand}
    {items value : List Operand} (h : Spells levels text item) (hbehind : behind.Ends)
    (hskip : Separator.skip input = Separator.skip (text ++ behind))
    (hloop : Took (takeItems (read levels) (item :: items) behind) value rest) :
    Took (takeItems (read levels) items input) value rest := by
  have hyields := h.yields hbehind (Separator.skip_skip (text ++ behind))
  obtain ⟨first, tail, rfl, hother, hclose, -⟩ := h
  rw [List.cons_append, Separator.skip_other hother] at hskip hyields
  exact takeItems_item hskip hclose (takeOperand_yields hyields .array) hloop

private theorem takeItems_layouts {levels : Nat} {items : List Operand} {tokens : List Bytes}
    {text rest input : Bytes}
    (h : ∀ item ∈ items, ∀ {token}, item.Layout token → Spells levels token item)
    (hitems : Operand.Layouts items tokens)
    (hseparated : Separator.Separated (0x5D :: rest) tokens text) (taken : List Operand)
    (hskip : Separator.skip input = Separator.skip text) :
    Took (takeItems (read levels) taken input) (taken.reverse ++ items) rest := by
  induction items generalizing tokens text input taken with
  | nil =>
      obtain rfl := Operand.layouts_nil hitems
      rw [hseparated.skip_eq] at hskip
      rw [List.append_nil]
      exact takeItems_close hskip
  | cons item items ih =>
      obtain ⟨token, others, rfl, htoken, hothers⟩ := Operand.layouts_cons hitems
      obtain ⟨behind, hfirst, hends, hbehind⟩ := hseparated.cases_token
      have hloop := ih (fun other hother => h other (by simp [hother])) hothers hbehind
        (item :: taken) rfl
      simp only [List.reverse_cons, List.append_assoc, List.singleton_append] at hloop
      exact takeItems_spells (h item (by simp) htoken) hends (hskip.trans hfirst) hloop

theorem spells_array {levels : Nat} {items : List Operand} {text : Bytes}
    (h : ∀ item ∈ items, ∀ {token}, item.Layout token → Spells levels token item)
    (hlayout : (Operand.array items).Layout text) : Spells (levels + 1) text (.array items) := by
  rw [Operand.Layout] at hlayout
  obtain ⟨tokens, inner, hitems, hseparated, rfl⟩ := hlayout
  refine ⟨0x5B, inner, rfl, by decide, by decide, fun {rest} _ => ?_⟩
  obtain ⟨shorter, htaken⟩ :=
    takeItems_layouts h hitems (hseparated.append (by simp) rest) [] rfl
  refine ⟨Nat.lt_succ_of_lt shorter, ?_⟩
  rw [takeFirst, if_neg (by decide), if_neg (by decide), if_pos rfl, inside, takeArray, htaken]
  rfl

theorem notMem_keys_of_nodup {taken entries : Dictionary} {key : String} {value : Operand}
    (h : (Dictionary.keys (taken ++ (key, value) :: entries)).Nodup) :
    key ∉ Dictionary.keys taken := by
  simp only [Dictionary.keys, List.map_append, List.map_cons] at h
  intro hmem
  exact (List.nodup_append.1 h).2.2 key hmem key (by simp) rfl

theorem takeEntries_layouts {levels : Nat} {ending : EntryEnd} {entries : Dictionary}
    {tokens : List Bytes} {first : UInt8} {tail text input : Bytes}
    {closed : Taken Unit (first :: tail)}
    (hslash : ∀ tail, ending.close? (0x2F :: tail) = none)
    (hfirst : Separator.isOther first = true)
    (hclose : ending.close? (first :: tail) = some closed)
    (h : ∀ entry ∈ entries, ∀ {token}, entry.2.Layout token → Spells levels token entry.2)
    (hentries : Operand.EntryLayouts entries tokens)
    (hseparated : Separator.Separated (first :: tail) tokens text) (taken : Dictionary)
    (hnodup : (Dictionary.keys (taken ++ entries)).Nodup)
    (hskip : Separator.skip input = Separator.skip text) :
    Took (takeEntries (read levels) ending taken input) (taken ++ entries) closed.rest := by
  induction entries generalizing tokens text input taken with
  | nil =>
      obtain rfl := Operand.entryLayouts_nil hentries
      rw [hseparated.skip_eq, Separator.skip_other hfirst] at hskip
      rw [List.append_nil]
      exact takeEntries_close hskip hclose
  | cons entry entries ih =>
      obtain ⟨key, value⟩ := entry
      obtain ⟨token, others, rfl, htoken, hothers⟩ := Operand.entryLayouts_cons hentries
      -- A key and its value are two tokens, with separators of their own.
      obtain ⟨value', hkeySkip, hkeyEnds, hvalue⟩ := hseparated.cases_token
      obtain ⟨behind, hvalueSkip, hvalueEnds, hbehind⟩ := hvalue.cases_token
      have hloop := ih (fun other hother => h other (by simp [hother])) hothers hbehind
        (taken ++ [(key, value)]) (by simpa using hnodup) rfl
      rw [List.append_assoc, List.singleton_append,
        ← Dictionary.insert_of_notMem (notMem_keys_of_nodup hnodup)] at hloop
      have hyields := (h (key, value) (by simp) htoken).yields hvalueEnds hvalueSkip
      rw [hkeySkip, Name.written, List.cons_append, Separator.skip_other (by decide)] at hskip
      exact takeEntries_entry hskip (hslash _) (Name.take_written key hkeyEnds)
        (takeOperand_yields hyields _) hloop

theorem close?_slash (tail : Bytes) : dictionaryEnd.close? (0x2F :: tail) = none := by
  cases tail <;> rfl

private theorem close?_brackets (rest : Bytes) :
    dictionaryEnd.close? (0x3E :: 0x3E :: rest) =
      some (.afterFirst () rest (Nat.le_succ _)) := by
  show closeDictionary (0x3E :: 0x3E :: rest) = _
  rw [closeDictionary, if_pos ⟨rfl, rfl⟩]

theorem spells_dictionary {levels : Nat} {entries : Dictionary} {text : Bytes}
    (hnodup : (Dictionary.keys entries).Nodup)
    (h : ∀ entry ∈ entries, ∀ {token}, entry.2.Layout token → Spells levels token entry.2)
    (hlayout : (Operand.dictionary entries).Layout text) :
    Spells (levels + 1) text (.dictionary entries) := by
  rw [Operand.Layout] at hlayout
  obtain ⟨tokens, inner, hentries, hseparated, rfl⟩ := hlayout
  refine ⟨0x3C, 0x3C :: inner, rfl, by decide, by decide, fun {rest} _ => ?_⟩
  obtain ⟨shorter, htaken⟩ := takeEntries_layouts close?_slash (by decide)
    (close?_brackets rest) h hentries (hseparated.append (by simp) rest) [] hnodup rfl
  refine ⟨Nat.lt_succ_of_lt (Nat.lt_succ_of_lt shorter), ?_⟩
  show takeFirst _ 0x3C (0x3C :: (inner ++ rest)) = _
  rw [takeFirst, if_neg (by decide), if_pos rfl, takeAngle, if_pos rfl, inside, takeDictionary,
    htaken]
  rfl

end Token

namespace Operand

variable {levels : Nat} {value : Operand}

theorem Formed.exists_written (h : Writable levels value) : ∃ text, written value = .ok text := by
  induction h with
  | integer => exact ⟨_, rfl⟩
  | real hfinite => exact ⟨_, if_pos hfinite⟩
  | @boolean levels value => cases value <;> exact ⟨_, rfl⟩
  | name => exact ⟨_, rfl⟩
  | literalString => exact ⟨_, rfl⟩
  | hexString => exact ⟨_, rfl⟩
  | array _ ih =>
      obtain ⟨inner, hinner⟩ := exists_writtenItems.2 ih
      rw [written, hinner]
      exact ⟨_, rfl⟩
  | dictionary _ _ ih =>
      obtain ⟨inner, hinner⟩ := exists_writtenEntries.2 ih
      rw [written, hinner]
      exact ⟨_, rfl⟩
  | null => exact ⟨_, rfl⟩

theorem Layout.spells {text : Bytes} (hlayout : value.Layout text) (h : Writable levels value) :
    Token.Spells levels text value := by
  induction h generalizing text with
  | @integer levels value =>
      obtain rfl : Numeral.writtenInteger value = text := by simpa [Layout, written] using hlayout
      rw [← Numeral.text_integerParts]
      exact Token.spells_number levels (Numeral.shows_integerParts value)
  | @real levels value hfinite =>
      obtain rfl : Numeral.writtenReal value = text := by
        simpa [Layout, written, hfinite] using hlayout
      rw [← Numeral.text_realParts hfinite]
      exact Token.spells_number levels (Numeral.shows_realParts hfinite)
  | @boolean levels value =>
      cases value with
      | true =>
          obtain rfl : Bytes.ofChars ['t', 'r', 'u', 'e'] = text := by
            simpa [Layout, written] using hlayout
          exact Token.spells_word levels (List.all_eq_true.1 rfl) rfl rfl
      | false =>
          obtain rfl : Bytes.ofChars ['f', 'a', 'l', 's', 'e'] = text := by
            simpa [Layout, written] using hlayout
          exact Token.spells_word levels (List.all_eq_true.1 rfl) rfl rfl
  | @name levels value =>
      obtain rfl : Name.written value = text := by simpa [Layout, written] using hlayout
      exact Token.spells_name levels value
  | @literalString levels bytes =>
      obtain rfl : Literal.written bytes = text := by simpa [Layout, written] using hlayout
      exact Token.spells_literal levels bytes
  | @hexString levels bytes =>
      obtain rfl : Hex.written bytes = text := by simpa [Layout, written] using hlayout
      exact Token.spells_hex levels bytes
  | array _ ih => exact Token.spells_array (fun item hitem => ih item hitem) hlayout
  | dictionary hnodup _ ih =>
      exact Token.spells_dictionary hnodup (fun entry hentry => ih entry hentry) hlayout
  | @null levels =>
      obtain rfl : Bytes.ofChars ['n', 'u', 'l', 'l'] = text := by
        simpa [Layout, written] using hlayout
      exact Token.spells_word levels (List.all_eq_true.1 rfl) rfl rfl

/-- Every writable operand has a token, which is read as the operand. -/
theorem written_spells (h : Writable levels value) :
    ∃ text, written value = .ok text ∧ Token.Spells levels text value := by
  obtain ⟨text, hwritten⟩ := h.exists_written
  exact ⟨text, hwritten, (layout_of_written value hwritten).spells h⟩

end Operand

end ContentStream
