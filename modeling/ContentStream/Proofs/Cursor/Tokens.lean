import ContentStream.Proofs.Cursor.Strings
import ContentStream.Proofs.Cursor.Words

/-!
# Tokens at a cursor

A loop at the cursor agrees with the one over the input if each of their rounds does.  A token is
then read alike, with all that stands inside it; containers are counted up to a limit, so the
count does not overflow.
-/

namespace ContentStream.Cursor

open Checked

section Source

variable {source : Bytes} {position start depth : Nat} {input tail whole : Bytes} {first : UInt8}

def RoundAgrees {σ α β : Type} (source : Bytes) (good : β → α → Prop) (reading : β)
    (go : σ → (position : Nat) → β) : Round σ α → Prop
  | .ends result => good reading result
  | .again next rest => ∃ position, At source position rest ∧ reading = go next position

theorem loop_agrees {σ α β : Type} {loop : Loop σ α} {f : σ → Bytes → α}
    (hcomputes : loop.Computes f) (hadvances : loop.Advances) (good : β → α → Prop)
    (reader : (rounds : Nat) → σ → (position : Nat) → β)
    (hround : ∀ rounds state {position input}, At source position input →
      RoundAgrees source good (reader (rounds + 1) state position) (reader rounds)
        (loop.round state input)) {rounds : Nat} (state : σ) (h : At source position input)
    (hrounds : input.length < rounds) :
    good (reader rounds state position) (f state input) := by
  induction rounds generalizing state position input with
  | zero => omega
  | succ rounds ih =>
      have hagrees := hround rounds state h
      cases hloop : loop.round state input with
      | ends result =>
          rw [hcomputes.ends hloop]
          rwa [hloop] at hagrees
      | again next rest =>
          rw [hloop] at hagrees
          obtain ⟨behind, hbehind, hreading⟩ := hagrees
          have := (hadvances hloop).2
          rw [hcomputes.again hloop, hreading]
          exact ih next hbehind (by omega)

def found {input : Bytes} : Option (Taken Token input) → Option Token × Bytes
  | none => (none, [])
  | some taken => (some taken.value, taken.rest)

def Reads (source : Bytes) (token : TokenReader) (read : Reader Token) : Prop :=
  ∀ ⦃position input⦄, At source position input →
    Agrees source (token position) ((read input).map found)

theorem Reads.object {token : TokenReader} {read : Reader Token} (h : Reads source token read)
    (container : Container) (hstart : At source start input) :
    Agrees source (object token container start)
      ((Token.takeOperand read container input).map Taken.pair) := by
  unfold Token.takeOperand Cursor.object
  rcases (h hstart).cases_of_map with
    ⟨stuck, htoken, hfails⟩ | ⟨taken?, stop, htoken, hgives, hstop⟩
  · rw [htoken, hfails]
    exact .fails _
  · rw [htoken, hgives, gives_bind]
    match taken? with
    | none => exact .of_at hstop _
    | some ⟨.operand value, rest, _⟩ => exact .gives hstop
    | some ⟨.keyword word, rest, _⟩ => exact .of_at hstart _

section Loops

variable (hsource : source.length < 2 ^ 32) {token : TokenReader} {levels : Nat}
  (hreads : Reads source token (Token.read levels))
include hsource hreads

theorem items_agrees (h : At source position input) :
    Agrees source (items source token (source.length + 1) [] position)
      ((Token.takeItems (Token.read levels) [] input).map Taken.pair) := by
  refine loop_agrees (Token.computes_itemLoop (Token.read levels)) (Token.advances_itemLoop levels)
    (Agrees source) (items source token) (fun rounds found position input h => ?_)
    [] h h.rounds
  obtain ⟨start, hskip, hstart⟩ := skip_agrees hsource h
  rw [items, hskip, gives_bind, hstart.peek]
  simp only [Token.itemLoop]
  cases hinput : Separator.skip input with
  | nil =>
      rw [hinput] at hstart
      exact .of_at hstart _
  | cons byte tail =>
      rw [hinput] at hstart
      rw [List.head?_cons]
      dsimp only
      split
      · rw [hstart.address hsource 1 (by decide), gives_bind]
        exact .gives hstart.next
      · rcases (hreads.object .array hstart).cases_of_map with
          ⟨stuck, htake, hfails⟩ | ⟨item, next, htake, hgives, hnext⟩
        · rw [htake, hfails]
          exact .fails _
        · rw [htake, hgives]
          exact ⟨next, hnext, rfl⟩

structure EntryEnd.Matches (source : Bytes) (ending : EntryEnd) (other : Token.EntryEnd) :
    Prop where
  container : ending.container = other.container
  close : ∀ ⦃position input⦄, At source position input →
    (ending.close? position = .gives none ∧ other.close? input = none) ∨
      ∃ stop closed, ending.close? position = .gives (some stop) ∧
        other.close? input = some closed ∧ At source stop closed.rest
  unclosed : ∀ ⦃position⦄, At source position [] → ending.unclosed position =
    .malformedStream (other.unclosed.offset source) other.unclosed.fault

theorem entries_agrees {ending : EntryEnd} {other : Token.EntryEnd}
    (hending : ending.Matches source other) (h : At source position input) :
    Agrees source (entries source token ending (source.length + 1) [] position)
      ((Token.takeEntries (Token.read levels) other [] input).map Taken.pair) := by
  refine loop_agrees (Token.computes_entryLoop (Token.read levels) other)
    (Token.advances_entryLoop levels other) (Agrees source) (entries source token ending)
    (fun rounds found position input h => ?_) [] h h.rounds
  obtain ⟨start, hskip, hstart⟩ := skip_agrees hsource h
  rw [entries, hskip, gives_bind, hstart.peek]
  simp only [Token.entryLoop]
  cases hinput : Separator.skip input with
  | nil =>
      rw [hinput] at hstart
      rw [List.head?_nil]
      dsimp only
      rw [hending.unclosed hstart]
      exact .fails _
  | cons byte tail =>
      rw [hinput] at hstart
      rw [List.head?_cons]
      dsimp only
      rcases hending.close hstart with ⟨hgives, hother⟩ | ⟨stop, closed, hgives, hother, hstop⟩
      · rw [hgives, gives_bind, hother]
        dsimp only
        split
        next =>
          rcases (name_agrees hsource hstart).cases_of_map with
            ⟨stuck, htake, hfails⟩ | ⟨key, behind, htake, hgives, hbehind⟩
          · rw [htake, hfails]
            exact .fails _
          have hrest : At source behind key.rest := hbehind
          rw [htake, hgives, gives_bind, hending.container]
          dsimp only
          rcases (hreads.object other.container hrest).cases_of_map with
            ⟨stuck, hoperand, hfails⟩ | ⟨item, next, hoperand, hgives, hnext⟩
          · rw [hoperand, hfails]
            exact .fails _
          · rw [hoperand, hgives]
            exact ⟨next, hnext, rfl⟩
        next =>
          rw [hending.container]
          exact .of_at hstart _
      · rw [hgives, hother]
        exact .gives hstop

end Loops

/-! ## Single tokens -/

def foundIn {input : Bytes} (taken : Taken Token input) : Option Token × Bytes :=
  (some taken.value, taken.rest)

theorem asToken_agrees {α : Type} {operand : α → Operand} {reading : Checked (α × Nat)}
    {result : Except Stuck (Taken α input)} (h : Agrees source reading (result.map Taken.pair)) :
    Agrees source (asToken operand reading)
      ((result.map (Taken.map fun value => Token.operand (operand value))).map foundIn) := by
  rcases h.cases_of_map with ⟨stuck, rfl, hfails⟩ | ⟨taken, stop, rfl, hgives, hstop⟩
  · rw [hfails]
    exact .fails _
  · rw [hgives]
    exact .gives hstop

theorem nested_of_le {α : Type} {inside : (depth : Nat) → Checked α} (h : nestingLimit ≤ depth) :
    nested depth start inside = fail start .nesting :=
  if_pos h

theorem nested_of_lt {α : Type} {inside : (depth : Nat) → Checked α} (h : depth < nestingLimit) :
    nested depth start inside = inside (depth + 1) := by
  have hlimit : depth < 64 := h
  rw [nested, if_neg (Nat.not_le.2 h), address_eq (by omega), gives_bind,
    less_eq (Nat.le_add_left 1 depth), gives_bind]

def readInside : (levels : Nat) → Option (Reader Token)
  | 0 => none
  | levels + 1 => some (Token.read levels)

/-- Containers at the depth are read one deeper, or not at all where the limit is reached. -/
def Deeper (source : Bytes) (inside : (depth : Nat) → TokenReader) (depth : Nat) :
    (levels : Nat) → Prop
  | 0 => nestingLimit ≤ depth
  | levels + 1 => depth < nestingLimit ∧ Reads source (inside (depth + 1)) (Token.read levels)

private theorem matches_dictionaryEnd (hsource : source.length < 2 ^ 32) :
    (dictionaryEnd source).Matches source Token.dictionaryEnd where
  container := rfl
  close := by
    intro position input h
    simp only [dictionaryEnd, Token.dictionaryEnd, closeDictionary]
    rw [h.peek]
    rcases input with _ | ⟨first, _ | ⟨second, rest⟩⟩
    · exact .inl ⟨rfl, rfl⟩
    · have hnext : source[position + 1]? = none := h.next.peek
      refine .inl ⟨?_, rfl⟩
      rw [List.head?_cons, h.address hsource 1 (by decide), gives_bind, hnext]
      split <;> rfl
    · have hnext : source[position + 1]? = some second := h.next.peek
      rw [List.head?_cons, h.address hsource 1 (by decide), gives_bind, hnext,
        h.address hsource 2 (by decide), gives_bind, Token.closeDictionary]
      by_cases hfirst : first = 0x3E
      · by_cases hsecond : second = 0x3E
        · subst hfirst hsecond
          exact .inr ⟨_, _, rfl, rfl, h.next.next⟩
        · simp [hsecond]
      · simp [hfirst]
  unclosed := by
    intro position h
    simp only [dictionaryEnd, Token.dictionaryEnd]
    rw [h.offset_eq]

section Single

variable (hsource : source.length < 2 ^ 32) {inside : (depth : Nat) → TokenReader} {levels : Nat}
  (hinside : Deeper source inside depth levels)
include hsource hinside

private theorem array_agrees (h : At source start (first :: tail)) :
    Agrees source
      (asToken .array <| nested depth start fun deeper => do
        let next ← address (start + 1)
        items source (inside deeper) (source.length + 1) [] next)
      ((Token.takeArray (readInside levels) first tail).map foundIn) := by
  cases levels with
  | zero =>
      rw [nested_of_le hinside]
      exact .of_at h _
  | succ levels =>
      have hitems := items_agrees hsource hinside.2 h.next
      rw [nested_of_lt hinside.1, h.address hsource 1 (by decide), gives_bind, readInside,
        Token.takeArray]
      rcases hitems.cases_of_map with
        ⟨stuck, htake, hfails⟩ | ⟨taken, stop, htake, hgives, hstop⟩
      · rw [htake, hfails]
        exact .fails _
      · rw [htake, hgives]
        exact .gives hstop

private theorem dictionary_agrees {second : UInt8} (h : At source start (first :: second :: tail)) :
    Agrees source
      (asToken .dictionary <| nested depth start fun deeper => do
        let next ← address (start + 2)
        entries source (inside deeper) (dictionaryEnd source) (source.length + 1) [] next)
      ((Token.takeDictionary (readInside levels) first second tail).map foundIn) := by
  cases levels with
  | zero =>
      rw [nested_of_le hinside]
      exact .of_at h _
  | succ levels =>
      have hentries := entries_agrees hsource hinside.2 (matches_dictionaryEnd hsource) h.next.next
      rw [nested_of_lt hinside.1, h.address hsource 2 (by decide), gives_bind, readInside,
        Token.takeDictionary]
      rcases hentries.cases_of_map with
        ⟨stuck, htake, hfails⟩ | ⟨taken, stop, htake, hgives, hstop⟩
      · rw [htake, hfails]
        exact .fails _
      · rw [htake, hgives]
        exact .gives hstop

omit hinside in
private theorem word_agrees (h : At source start (first :: tail))
    (hregular : Byte.isRegular first = true) :
    Agrees source
      (do
        let (word, stop) ← keyword source start
        return (some (Token.ofWord word), stop))
      (.ok (foundIn (Token.takeWord first tail))) := by
  obtain ⟨stop, hgives, hstop⟩ := (keyword_agrees hsource h).of_ok
  rw [hgives, gives_bind, Token.takeWord]
  simp only [List.takeWhile_cons, List.dropWhile_cons, hregular, if_true] at hstop ⊢
  exact .gives hstop

private theorem angle_agrees (h : At source start (0x3C :: tail)) :
    Agrees source
      (do
        let second ← address (start + 1)
        if source[second]? = some 0x3C then
          asToken .dictionary <| nested depth start fun deeper => do
            let next ← address (start + 2)
            entries source (inside deeper) (dictionaryEnd source) (source.length + 1) [] next
        else asToken .hexString (hexString source start))
      ((Token.takeAngle (readInside levels) 0x3C tail).map foundIn) := by
  rw [h.address hsource 1 (by decide), gives_bind, h.next.peek]
  cases tail with
  | nil => exact asToken_agrees (hexString_agrees hsource h)
  | cons second tail =>
      rw [Token.takeAngle, List.head?_cons]
      by_cases hsecond : second = 0x3C
      · rw [if_pos hsecond, if_pos (congrArg some hsecond)]
        exact dictionary_agrees hsource hinside h
      · rw [if_neg hsecond, if_neg fun hsome => hsecond (Option.some.inj hsome)]
        exact asToken_agrees (hexString_agrees hsource h)

private theorem first_agrees (h : At source position input)
    (hinput : Separator.skip input = first :: tail) :
    Agrees source (tokenWith source inside depth position)
      ((Token.takeFirst (readInside levels) first tail).map foundIn) := by
  obtain ⟨start, hskip, hstart⟩ := skip_agrees hsource h
  rw [hinput] at hstart
  rw [tokenWith, hskip, gives_bind, hstart.peek, List.head?_cons, Token.takeFirst]
  dsimp only
  by_cases hliteral : first = 0x28
  · subst hliteral
    rw [if_pos rfl, if_pos rfl]
    exact asToken_agrees (literalString_agrees hsource hstart)
  rw [if_neg hliteral, if_neg hliteral]
  by_cases hangle : first = 0x3C
  · subst hangle
    rw [if_pos rfl, if_pos rfl]
    exact angle_agrees hsource hinside hstart
  rw [if_neg hangle, if_neg hangle]
  by_cases harray : first = 0x5B
  · rw [if_pos harray, if_pos harray]
    exact array_agrees hsource hinside hstart
  rw [if_neg harray, if_neg harray]
  by_cases hname : first = 0x2F
  · rw [if_pos hname, if_pos hname]
    exact asToken_agrees (name_agrees hsource hstart)
  rw [if_neg hname, if_neg hname]
  by_cases hnumeral : Numeral.isStart first = true
  · rw [if_pos hnumeral, dif_pos hnumeral]
    exact asToken_agrees (number_agrees hsource hstart hnumeral)
  rw [if_neg hnumeral, dif_neg hnumeral]
  by_cases hdelimiter : Byte.isDelimiter first = true
  · rw [if_pos hdelimiter, if_pos hdelimiter]
    exact .of_at hstart _
  rw [if_neg hdelimiter, if_neg hdelimiter]
  have hother := Separator.isOther_of_skip hinput
  refine word_agrees hsource hstart ?_
  simp only [Separator.isOther, Bool.and_eq_true] at hother
  simp [Byte.isRegular, hother.1, hdelimiter]

theorem tokenWith_reads : Reads source (tokenWith source inside depth)
    (Token.readWith (readInside levels)) := by
  intro position input h
  unfold Token.readWith
  split
  next hinput =>
    obtain ⟨start, hskip, hstart⟩ := skip_agrees hsource h
    rw [hinput] at hstart
    rw [tokenWith, hskip, gives_bind, hstart.peek]
    exact .gives hstart
  next first tail hinput =>
    have hfirst := first_agrees hsource hinside h hinput
    cases htake : Token.takeFirst (readInside levels) first tail with
    | error stuck =>
        rw [htake] at hfirst
        exact hfirst
    | ok taken =>
        rw [htake] at hfirst
        exact hfirst

end Single

theorem tokenAt_reads (hsource : source.length < 2 ^ 32) (levels depth : Nat)
    (h : depth + levels = nestingLimit) :
    Reads source (tokenAt source (levels + 1) depth) (Token.read levels) := by
  -- The depth goes up as the levels go down, and reaches the limit where none is left.
  induction levels generalizing depth with
  | zero =>
      have hlimit : Deeper source (tokenAt source 0) depth 0 := Nat.le_of_eq h.symm
      exact tokenWith_reads hsource hlimit
  | succ levels ih =>
      have hdeeper : Deeper source (tokenAt source (levels + 1)) depth (levels + 1) :=
        ⟨by omega, ih (depth + 1) (by omega)⟩
      exact tokenWith_reads hsource hdeeper

theorem token_reads (hsource : source.length < 2 ^ 32) :
    Reads source (token source) (Token.read nestingLimit) :=
  tokenAt_reads hsource nestingLimit 0 (Nat.zero_add _)

end Source

end ContentStream.Cursor
