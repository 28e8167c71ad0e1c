import ContentStream.Proofs.Operation.Progress

/-!
# What stands where an error is placed

The messages of some errors quote what the stream has at fault: a delimiter, a keyword in a
container, a byte that is no hexadecimal digit, a numeral.  The error is placed where a
delimiter or a numeral begins, and so is a keyword among the items of an array.  A keyword
in place of the value of an entry is reported in front of the separators after the key, and
a byte that is no digit is reported at what follows it.
-/

namespace ContentStream

namespace Token

variable {inside : Option (Reader Token)} {levels : Nat} {first : UInt8} {tail input word : Bytes}

private theorem operand_of_map {α : Type} {result : Except Stuck (Taken α input)}
    {f : α → Operand} {taken : Taken Token input}
    (h : result.map (Taken.map fun value => .operand (f value)) = .ok taken) :
    ∃ value, taken.value = .operand value := by
  obtain ⟨found, -, rfl⟩ := Result.map_eq_ok.1 h
  exact ⟨_, rfl⟩

private theorem operand_of_takeArray {taken : Taken Token (first :: tail)}
    (h : takeArray inside first tail = .ok taken) : ∃ value, taken.value = .operand value := by
  unfold takeArray at h
  split at h
  next => contradiction
  next =>
    split at h
    next => contradiction
    next =>
      obtain rfl := Except.ok.inj h
      exact ⟨_, rfl⟩

private theorem operand_of_takeDictionary {second : UInt8}
    {taken : Taken Token (first :: second :: tail)}
    (h : takeDictionary inside first second tail = .ok taken) :
    ∃ value, taken.value = .operand value := by
  unfold takeDictionary at h
  split at h
  next => contradiction
  next =>
    split at h
    next => contradiction
    next =>
      obtain rfl := Except.ok.inj h
      exact ⟨_, rfl⟩

private theorem operand_of_takeAngle {taken : Taken Token (first :: tail)}
    (h : takeAngle inside first tail = .ok taken) : ∃ value, taken.value = .operand value := by
  cases tail with
  | nil =>
      rw [takeAngle] at h
      exact operand_of_map h
  | cons second tail =>
      rw [takeAngle] at h
      split at h
      · exact operand_of_takeDictionary h
      · exact operand_of_map h

private theorem eq_of_ofWord {found : Bytes} (h : ofWord found = .keyword word) : found = word := by
  unfold ofWord at h
  split at h
  · contradiction
  split at h
  · contradiction
  split at h
  · contradiction
  · exact Token.keyword.inj h

private theorem eq_append_of_takeFirst {taken : Taken Token (first :: tail)}
    (h : takeFirst inside first tail = .ok taken) (hword : taken.value = .keyword word) :
    first :: tail = word ++ taken.rest := by
  have hoperand : ¬∃ value, taken.value = .operand value := by simp [hword]
  unfold takeFirst at h
  split at h
  · exact absurd (operand_of_map h) hoperand
  split at h
  · exact absurd (operand_of_takeAngle h) hoperand
  split at h
  · exact absurd (operand_of_takeArray h) hoperand
  split at h
  · exact absurd (operand_of_map h) hoperand
  split at h
  · exact absurd (operand_of_map h) hoperand
  split at h
  · contradiction
  · obtain rfl := Except.ok.inj h
    rw [← eq_of_ofWord hword]
    exact (congrArg (first :: ·) List.takeWhile_append_dropWhile).symm

theorem skip_of_yields_keyword {rest : Bytes}
    (h : (read levels).Yields input (.keyword word) rest) :
    Separator.skip input = word ++ rest ∧ IsWord word := by
  obtain ⟨shorter, h⟩ := h
  refine ⟨?_, (read_sound input levels List.suffix_rfl h).1⟩
  rw [read_eq, readWith] at h
  split at h
  next => simp at h
  next first tail hskip =>
    split at h
    next => contradiction
    next taken hfirst =>
      obtain ⟨hvalue, hrest⟩ := Taken.mk.inj (Option.some.inj (Except.ok.inj h))
      rw [hskip, eq_append_of_takeFirst hfirst hvalue, hrest]

end Token

namespace StreamFault

/-- The message quotes the bytes; those of a keyword as far as they are UTF-8. -/
def Quotes : StreamFault → Bytes → Prop
  | .unexpected byte, quoted => quoted = [byte] ∧ Byte.isDelimiter byte = true
  | .keywordInside text _, quoted => Utf8.decodeLossy quoted = text ∧ Token.IsWord quoted
  | .hexDigit byte, quoted => quoted = [byte] ∧ Byte.hexValue? byte = none
  | .number text, quoted => Bytes.toLatin1 quoted = text ∧
    ∃ parts : Numeral.Parts, parts.IsCut ∧ parts.operand? = none ∧ quoted = parts.text
  | _, _ => False

def Begins (fault : StreamFault) (input : Bytes) : Prop :=
  ∃ quoted behind, fault.Quotes quoted ∧ quoted ≠ [] ∧ input = quoted ++ behind

/-- Where the quoted text stands, seen from the place that the error is given for. -/
def PointsAt (source : Bytes) (offset : Nat) (fault : StreamFault) : Prop :=
  match fault with
  | .unexpected _ | .number _ | .keywordInside _ .array => fault.Begins (source.drop offset)
  | .keywordInside _ _ => ∃ gap behind, Separator.Blank gap ∧ gap ≠ [] ∧
      source.drop offset = gap ++ behind ∧ fault.Begins behind
  | .hexDigit _ => ∃ place, offset = place + 1 ∧ fault.Begins (source.drop place)
  | _ => True

end StreamFault

/-! ## Failures and their places -/

theorem StreamFault.PointsAt.shift {fault : StreamFault} {source : Bytes} {start offset : Nat}
    (h : fault.PointsAt (source.drop start) offset) : fault.PointsAt source (start + offset) := by
  unfold PointsAt at h ⊢
  split at h
  · rwa [List.drop_drop] at h
  · rwa [List.drop_drop] at h
  · rwa [List.drop_drop] at h
  · rwa [List.drop_drop] at h
  · obtain ⟨place, rfl, h⟩ := h
    rw [List.drop_drop] at h
    exact ⟨start + place, (Nat.add_assoc ..).symm, h⟩
  · trivial

def Stuck.Points (input : Bytes) (stuck : Stuck) : Prop :=
  ∃ place, place ≤ input.length ∧ stuck.rest = input.drop place ∧
    stuck.fault.PointsAt input place

section Points

variable {input rest : Bytes} {fault : StreamFault}

private theorem points_here (h : fault.PointsAt input 0) : Stuck.Points input ⟨input, fault⟩ :=
  ⟨0, Nat.zero_le _, rfl, h⟩

private theorem points_end (h : ∀ place, fault.PointsAt input place) :
    Stuck.Points input ⟨[], fault⟩ :=
  ⟨input.length, Nat.le_refl _, List.drop_length.symm, h _⟩

private theorem points_in_suffix {place : Bytes} {stuck : Stuck} (hplace : place <:+ input)
    (h : stuck.Points place) : stuck.Points input := by
  obtain ⟨start, hstart, rfl⟩ := Bytes.exists_eq_drop_of_suffix hplace
  obtain ⟨offset, hoffset, hrest, hpoints⟩ := h
  rw [List.length_drop] at hoffset
  exact ⟨start + offset, by omega, hrest.trans List.drop_drop, hpoints.shift⟩

private theorem points_number {first : UInt8} {tail : Bytes}
    (hfirst : Numeral.isStart first = true)
    (hnone : (Numeral.split (first :: tail)).1.operand? = none) :
    Stuck.Points (first :: tail)
      ⟨first :: tail, .number (Bytes.toLatin1 (Numeral.split (first :: tail)).1.text)⟩ :=
  points_here ⟨_, (Numeral.split (first :: tail)).2,
    ⟨rfl, _, Numeral.isCut_split _, hnone, rfl⟩, Numeral.text_split_ne_nil hfirst,
    (Numeral.text_append_split _).symm⟩

private theorem points_item {levels : Nat} {place word : Bytes}
    (hskip : Separator.skip input = place)
    (hword : (Token.read levels).Yields place (.keyword word) rest) :
    Stuck.Points place ⟨place, .keywordInside (Utf8.decodeLossy word) .array⟩ := by
  obtain ⟨hplace, hkeyword⟩ := Token.skip_of_yields_keyword hword
  rw [← hskip, Separator.skip_skip, hskip] at hplace
  exact points_here ⟨word, rest, ⟨rfl, hkeyword⟩, hkeyword.ne_nil, hplace⟩

private theorem ends_of_take {slash : UInt8} {tail : Bytes} {key : Taken String (slash :: tail)}
    (h : Name.take slash tail = .ok key) : key.rest.Ends := by
  unfold Name.take at h
  split at h
  · obtain rfl := Except.ok.inj h
    intro byte hbyte
    have hnot := List.head?_dropWhile_not Byte.isRegular tail
    change (tail.dropWhile Byte.isRegular).head? = some byte at hbyte
    rw [hbyte] at hnot
    simpa using hnot
  · contradiction

private theorem points_entry {levels : Nat} {container : Container} {slash : UInt8}
    {tail word : Bytes} {key : Taken String (slash :: tail)} (hcontainer : container ≠ .array)
    (hkey : Name.take slash tail = .ok key)
    (hword : (Token.read levels).Yields key.rest (.keyword word) rest) :
    Stuck.Points key.rest
      ⟨key.rest, .keywordInside (Utf8.decodeLossy word) container⟩ := by
  obtain ⟨hskip, hkeyword⟩ := Token.skip_of_yields_keyword hword
  obtain ⟨first, letters, rfl⟩ := List.exists_cons_of_ne_nil hkeyword.ne_nil
  obtain ⟨gap, hgap, hrest⟩ := Separator.exists_blank_of_skip hskip
  have hne : gap ≠ [] := by
    rintro rfl
    have hfirst := ends_of_take hkey first (by rw [hrest]; rfl)
    rw [hkeyword.regular first List.mem_cons_self] at hfirst
    contradiction
  have hpoints : ∃ gap behind, Separator.Blank gap ∧ gap ≠ [] ∧
      key.rest.drop 0 = gap ++ behind ∧
        (StreamFault.keywordInside (Utf8.decodeLossy (first :: letters)) container).Begins behind :=
    ⟨gap, _, hgap, hne, hrest, first :: letters, rest, ⟨rfl, hkeyword⟩, List.cons_ne_nil _ _, rfl⟩
  cases container with
  | array => contradiction
  | dictionary => exact points_here hpoints
  | imageDictionary => exact points_here hpoints

/-- Every failure points at what its message quotes where it comes up. -/
theorem covers_points : Covers Stuck.Points where
  in_suffix := points_in_suffix
  unterminatedLiteral _ := points_here trivial
  unterminatedEscape _ := points_end fun _ => trivial
  unterminatedHex _ := points_here trivial
  hexDigit {byte rest} hdigit := ⟨1, Nat.succ_le_succ (Nat.zero_le _), rfl, 0, rfl, [byte], rest,
    ⟨rfl, hdigit⟩, List.cons_ne_nil _ _, rfl⟩
  nameEncoding _ := points_here trivial
  number := points_number
  unexpected {first tail} hfirst :=
    points_here ⟨[first], tail, ⟨rfl, hfirst⟩, List.cons_ne_nil _ _, rfl⟩
  nesting _ := points_here trivial
  unterminated _ _ := points_end fun _ => trivial
  keyExpected _ _ := points_here trivial
  item := points_item
  entry := points_entry
  imageDataMissing _ := points_here trivial
  imageEndMissing _ := points_here trivial

end Points

namespace Operation

/--
An error whose message quotes a delimiter, a numeral or a keyword among the items of an array
is given for the place where this text begins.  A byte that is no hexadecimal digit stands in
front of the place that is given, and a keyword in place of the value of an entry stands
behind the separators that begin there.
-/
theorem ofBytes_pointsAt {source : Bytes} {offset : Nat} {fault : StreamFault}
    (h : ofBytes source = .error (.malformedStream offset fault)) :
    offset ≤ source.length ∧ fault.PointsAt source offset := by
  unfold ofBytes at h
  split at h
  next => contradiction
  next stuck hstuck =>
    obtain ⟨place, hplace, hrest, hpoints⟩ :=
      takeAll_failsAs covers_points [] [] source stuck hstuck
    obtain ⟨hoffset, rfl⟩ := Error.malformedStream.inj (Except.error.inj h)
    rw [Stuck.offset, hrest, List.length_drop] at hoffset
    obtain rfl : place = offset := by omega
    exact ⟨hplace, hpoints⟩

def keywordInArray : Bytes :=
  Bytes.ofChars "[1 % x\n foo] TJ".toList

theorem ofBytes_pointsAt_keywordInArray :
    ofBytes keywordInArray = .error (.malformedStream 8 (.keywordInside "foo" .array)) ∧
      (StreamFault.keywordInside "foo" .array).Begins (keywordInArray.drop 8) := by
  have herror : ofBytes keywordInArray =
      .error (.malformedStream 8 (.keywordInside "foo" .array)) := by
    decide +kernel
  exact ⟨herror, (ofBytes_pointsAt herror).2⟩

def invalidDigit : Bytes :=
  Bytes.ofChars "<4G> Tj".toList

def keywordInEntry : Bytes :=
  Bytes.ofChars "<</A   w>> x".toList

theorem invalidDigit_keywordInEntry_misplaced :
    (ofBytes invalidDigit = .error (.malformedStream 3 (.hexDigit 0x47)) ∧
      ¬(StreamFault.hexDigit 0x47).Begins (invalidDigit.drop 3)) ∧
    ofBytes keywordInEntry = .error (.malformedStream 4 (.keywordInside "w" .dictionary)) ∧
      ¬(StreamFault.keywordInside "w" .dictionary).Begins (keywordInEntry.drop 4) := by
  refine ⟨⟨by decide +kernel, ?_⟩, by decide +kernel, ?_⟩
  · rintro ⟨quoted, behind, ⟨rfl, -⟩, -, h⟩
    have hbracket : some (0x3E : UInt8) = some 0x47 := congrArg List.head? h
    contradiction
  · rintro ⟨quoted, behind, ⟨-, hword⟩, hne, h⟩
    obtain ⟨first, letters, rfl⟩ := List.exists_cons_of_ne_nil hne
    have hspace : some 0x20 = some first := congrArg List.head? h
    have hfirst := hword.regular first List.mem_cons_self
    rw [← Option.some.inj hspace] at hfirst
    contradiction

end Operation

end ContentStream
