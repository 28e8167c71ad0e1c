import ContentStream.Operation.Shape
import ContentStream.Operation
import ContentStream.Proofs.Operand.RoundTrip

/-!
# Inline images read back

The data of an inline image is written without any escaping, so not every string can
be the data of one.  Data that ends in white space and does not hold the end keyword
as a word of its own is found again; and the data found in any input is of this kind.
-/

namespace ContentStream.InlineImage

/-- Where the end keyword follows white space, a regular byte follows the keyword. -/
def NoEnd (data : Bytes) : Prop :=
  ∀ before space after behind, data = before ++ space :: 0x45 :: 0x49 :: after :: behind →
    Byte.isWhiteSpace space = true → Byte.isRegular after = true

/-- Bytes that are found again between the keywords of an inline image. -/
structure IsData (data : Bytes) : Prop where
  ends : data.getLast?.any Byte.isWhiteSpace = true
  noEnd : NoEnd data

private theorem beginsEnd_iff {input : Bytes} : beginsEnd input = true ↔
    ∃ rest, input = 0x45 :: 0x49 :: rest ∧
      rest.head?.all (fun byte => !Byte.isRegular byte) = true := by
  constructor
  · intro h
    match input with
    | first :: second :: rest =>
        simp only [beginsEnd, Bool.and_eq_true, decide_eq_true_eq] at h
        obtain ⟨⟨rfl, rfl⟩, hrest⟩ := h
        exact ⟨rest, rfl, hrest⟩
  · rintro ⟨rest, rfl, hrest⟩
    simpa [beginsEnd] using hrest

private theorem not_beginsEnd {before suffix rest : Bytes} {space byte : UInt8}
    (h : IsData (before ++ space :: byte :: suffix)) (hspace : Byte.isWhiteSpace space = true) :
    beginsEnd (byte :: suffix ++ 0x45 :: 0x49 :: rest) = false := by
  rw [Bool.eq_false_iff]
  intro hbegins
  obtain ⟨after, hinput, hafter⟩ := beginsEnd_iff.1 hbegins
  -- An end keyword that begins inside of the data may reach behind it.
  match suffix with
  | [] => simp at hinput
  | [second] =>
      obtain ⟨-, rfl, -⟩ : byte = 0x45 ∧ second = 0x49 ∧ _ := by simpa using hinput
      have hends := h.ends
      simp [Byte.isWhiteSpace] at hends
  | second :: third :: suffix =>
      obtain ⟨rfl, rfl, rfl⟩ :
          byte = 0x45 ∧ second = 0x49 ∧ third :: (suffix ++ 0x45 :: 0x49 :: rest) = after := by
        simpa using hinput
      have hregular := h.noEnd before space third suffix rfl hspace
      simp [hregular] at hafter

private theorem takeData_within {data : Bytes} (h : IsData data) (rest : Bytes) :
    ∀ taken suffix, data = taken.reverse ++ suffix →
      takeData taken (suffix ++ 0x45 :: 0x49 :: 0x0A :: rest) = some (data, 0x0A :: rest) := by
  intro taken suffix
  induction suffix generalizing taken with
  | nil =>
      intro hdata
      rw [List.append_nil] at hdata
      have hends := h.ends
      rw [hdata, List.getLast?_reverse] at hends
      rw [List.nil_append, takeData, hends, if_pos (by simp [beginsEnd, Byte.isRegular,
        Byte.isWhiteSpace]), hdata]
      rfl
  | cons byte suffix ih =>
      intro hdata
      have hstep : ¬ (taken.head?.any Byte.isWhiteSpace &&
          beginsEnd (byte :: (suffix ++ 0x45 :: 0x49 :: 0x0A :: rest))) = true := by
        intro hstop
        rw [Bool.and_eq_true] at hstop
        cases taken with
        | nil => simp at hstop
        | cons space taken =>
            rw [List.reverse_cons, List.append_assoc, List.singleton_append] at hdata
            have hspace : Byte.isWhiteSpace space = true := by simpa using hstop.1
            have hnone : beginsEnd (byte :: suffix ++ 0x45 :: 0x49 :: 0x0A :: rest) = false :=
              not_beginsEnd (hdata ▸ h) hspace
            rw [List.cons_append, hstop.2] at hnone
            contradiction
      rw [List.cons_append, takeData, if_neg hstep]
      exact ih (byte :: taken) (by simpa using hdata)

theorem takeData_append {data : Bytes} (h : IsData data) (rest : Bytes) :
    takeData [] (data ++ 0x45 :: 0x49 :: 0x0A :: rest) = some (data, 0x0A :: rest) :=
  takeData_within h rest [] data rfl

private theorem takeData_sound {taken input data rest : Bytes}
    (h : takeData taken input = some (data, rest)) :
    ∃ found, data = taken.reverse ++ found ∧ data.getLast?.any Byte.isWhiteSpace = true ∧
      input = found ++ 0x45 :: 0x49 :: rest ∧ NoEnd (taken.head?.toList ++ found) := by
  -- The byte before decides whether a keyword counts, so it belongs to the invariant.
  induction input generalizing taken with
  | nil => simp [takeData] at h
  | cons byte input ih =>
      rw [takeData] at h
      split at h
      next hstop =>
        rw [Bool.and_eq_true] at hstop
        obtain ⟨hspace, hbegins⟩ := hstop
        obtain ⟨after, hinput, -⟩ := beginsEnd_iff.1 hbegins
        obtain ⟨rfl, rfl⟩ := List.cons.inj hinput
        obtain ⟨rfl, rfl⟩ := Prod.mk.inj (Option.some.inj h)
        refine ⟨[], by simp, by rwa [List.getLast?_reverse], by simp, ?_⟩
        intro before space after' behind hdata
        have hlength := congrArg List.length hdata
        cases taken with
        | nil => simp at hlength
        | cons first taken =>
            simp at hlength
            omega
      next hstep =>
        obtain ⟨found, hdata, hends, rfl, hno⟩ := ih h
        refine ⟨byte :: found, by simpa using hdata, hends, rfl, ?_⟩
        intro before space after behind hfound hspace
        cases hhead : taken.head? with
        | none => exact hno before space after behind (by simpa [hhead] using hfound) hspace
        | some first =>
            rw [hhead] at hfound hstep
            cases before with
            | cons other before =>
                exact hno before space after behind (List.cons.inj hfound).2 hspace
            | nil =>
                obtain ⟨rfl, rfl, rfl⟩ :
                    first = space ∧ byte = 0x45 ∧ found = 0x49 :: after :: behind := by
                  simpa using hfound
                simpa [hspace, beginsEnd] using hstep

theorem isData_of_takeData {input data rest : Bytes} (h : takeData [] input = some (data, rest)) :
    IsData data := by
  obtain ⟨found, hdata, hends, -, hno⟩ := takeData_sound h
  obtain rfl : data = found := by simpa using hdata
  exact ⟨hends, by simpa using hno⟩

theorem append_of_takeData {input data rest : Bytes}
    (h : takeData [] input = some (data, rest)) : data ++ 0x45 :: 0x49 :: rest = input := by
  obtain ⟨found, hdata, -, hinput, -⟩ := takeData_sound h
  obtain rfl : data = found := by simpa using hdata
  exact hinput.symm

/-! ## The dictionary -/

theorem close?_slash (start tail : Bytes) :
    (entriesEnd start).close? (0x2F :: tail) = none := by
  cases tail <;> rfl

private theorem close?_keyword (start rest : Bytes) :
    (entriesEnd start).close? (0x49 :: 0x44 :: 0x0A :: rest) =
      some (.afterFirst () rest (Nat.le_succ_of_le (Nat.le_succ _))) := by
  show closeEntries (0x49 :: 0x44 :: 0x0A :: rest) = _
  rw [closeEntries, if_pos ⟨rfl, rfl, by simp [Byte.isWhiteSpace]⟩]
  rfl

private theorem takeEntries_written {levels : Nat} {entries : Dictionary}
    (hnodup : (Dictionary.keys entries).Nodup)
    (h : ∀ entry ∈ entries, Operand.Writable levels entry.2) :
    ∃ tokens, Shape.writtenOperands Operand.written (Shape.imageEntries entries) = .ok tokens ∧
      ∀ start input rest,
        Separator.skip input = Separator.skip (tokens ++ 0x49 :: 0x44 :: 0x0A :: rest) →
        Took (Token.takeEntries (Token.read levels) (entriesEnd start) [] input) entries rest := by
  have hwritten : ∀ operand ∈ Shape.imageEntries entries, ∃ text, operand.written = .ok text := by
    intro operand hoperand
    obtain ⟨entry, hentry, hmem⟩ := List.mem_flatMap.1 hoperand
    rcases List.mem_pair.1 hmem with rfl | rfl
    · exact ⟨_, rfl⟩
    · exact (h entry hentry).exists_written
  obtain ⟨tokens, htokens⟩ := Operand.exists_writtenOperands.2 hwritten
  obtain ⟨rows, hlayouts, hseparated⟩ := Operand.layouts_of_writtenOperands htokens
  refine ⟨tokens, htokens, fun start input rest hskip => ?_⟩
  exact Token.takeEntries_layouts (close?_slash start) (by decide) (close?_keyword start rest)
    (fun entry hentry _ hlayout => hlayout.spells (h entry hentry))
    (Operand.entryLayouts_of_layouts hlayouts) (hseparated _) [] hnodup hskip

theorem take_entries {entries : Dictionary} (hnodup : (Dictionary.keys entries).Nodup)
    (hentries : ∀ entry ∈ entries, Operand.Writable nestingLimit entry.2) :
    ∃ tokens, Shape.writtenOperands Operand.written (Shape.imageEntries entries) = .ok tokens ∧
      ∀ input rest,
        Separator.skip input = Separator.skip (tokens ++ 0x49 :: 0x44 :: 0x0A :: rest) →
        (∀ {data behind}, takeData [] rest = some (data, behind) →
          Took (take input) (entries, data) behind) ∧
        (takeData [] rest = none → take input = .error ⟨input, .imageEndMissing⟩) := by
  obtain ⟨tokens, htokens, hloop⟩ := takeEntries_written hnodup hentries
  refine ⟨tokens, htokens, fun input rest hskip => ?_⟩
  obtain ⟨shorter, htaken⟩ := hloop input input rest hskip
  constructor
  · intro data behind hfound
    have hlength := length_takeData_le hfound
    refine ⟨by omega, ?_⟩
    unfold take
    split
    next h => simp [htaken] at h
    next h =>
      obtain rfl := Except.ok.inj (htaken.symm.trans h)
      split
      next h =>
        obtain ⟨rfl, rfl⟩ := Prod.mk.inj (Option.some.inj (hfound.symm.trans h))
        rfl
      next h => simp [hfound] at h
  · intro hmissing
    unfold take
    split
    next h => simp [htaken] at h
    next h =>
      obtain rfl := Except.ok.inj (htaken.symm.trans h)
      split
      next h => simp [hmissing] at h
      next h => rfl

theorem take_written {entries : Dictionary} {data : Bytes}
    (hnodup : (Dictionary.keys entries).Nodup)
    (hentries : ∀ entry ∈ entries, Operand.Writable nestingLimit entry.2) (hdata : IsData data) :
    ∃ tokens, Shape.writtenOperands Operand.written (Shape.imageEntries entries) = .ok tokens ∧
      ∀ input rest, Separator.skip input =
          Separator.skip (tokens ++ 0x49 :: 0x44 :: 0x0A ::
            (data ++ 0x45 :: 0x49 :: 0x0A :: rest)) →
        Took (take input) (entries, data) (0x0A :: rest) := by
  obtain ⟨tokens, htokens, htake⟩ := take_entries hnodup hentries
  exact ⟨tokens, htokens, fun input rest hskip =>
    (htake input _ hskip).1 (takeData_append hdata rest)⟩

end ContentStream.InlineImage
