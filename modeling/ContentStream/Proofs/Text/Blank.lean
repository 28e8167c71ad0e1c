import ContentStream.Text.Blank
import Mathlib.Data.List.TakeWhile

/-!
# Trimming

Trimming takes blank characters from both ends of a text and nothing else, so texts that
differ in blanks at their ends alone are the same when trimmed.
-/

namespace ContentStream.Text

def Blank (chars : List Char) : Prop :=
  ∀ char ∈ chars, isBlank char = true

variable {chars before after : List Char} {char : Char}

theorem isBlank_of_isDigit (h : char.isDigit = true) : isBlank char = false := by
  have hvalue : 48 ≤ char.toNat ∧ char.toNat ≤ 57 := by
    simpa [Char.isDigit, UInt32.le_iff_toNat_le] using h
  simp only [isBlank, Bool.or_eq_false_iff, Bool.and_eq_false_iff, decide_eq_false_iff_not]
  omega

theorem dropWhile_append_blank (h : Blank before) :
    (before ++ chars).dropWhile isBlank = chars.dropWhile isBlank :=
  List.dropWhile_append_of_pos h

theorem trimEnd_append_blank (h : Blank after) : trimEnd (chars ++ after) = trimEnd chars := by
  have hreverse : Blank after.reverse := fun char hchar => h char (List.mem_reverse.1 hchar)
  rw [trimEnd, trimEnd, List.reverse_append, dropWhile_append_blank hreverse]

theorem trimEnd_append_cons (h : isBlank char = false) :
    trimEnd (before ++ char :: after) = before ++ char :: trimEnd after := by
  have hstop : (char :: before.reverse).dropWhile isBlank = char :: before.reverse := by
    simp [h]
  rw [trimEnd, trimEnd, List.reverse_append, List.reverse_cons, List.append_assoc,
    List.singleton_append, List.dropWhile_append, hstop]
  cases hrest : after.reverse.dropWhile isBlank with
  | nil => simp
  | cons last rest => simp

theorem exists_trimEnd (chars : List Char) :
    ∃ after, Blank after ∧ chars = trimEnd chars ++ after := by
  refine ⟨(chars.reverse.takeWhile isBlank).reverse, fun char hchar => ?_, ?_⟩
  · exact List.mem_takeWhile_imp (List.mem_reverse.1 hchar)
  · rw [trimEnd, ← List.reverse_append, List.takeWhile_append_dropWhile, List.reverse_reverse]

theorem exists_trim (chars : List Char) :
    ∃ before after, Blank before ∧ Blank after ∧ chars = before ++ trim chars ++ after := by
  obtain ⟨after, hafter, hchars⟩ := exists_trimEnd (chars.dropWhile isBlank)
  refine ⟨chars.takeWhile isBlank, after, fun char hchar => List.mem_takeWhile_imp hchar,
    hafter, ?_⟩
  rw [List.append_assoc, trim, ← hchars, List.takeWhile_append_dropWhile]

theorem mem_of_mem_trim (h : char ∈ trim chars) : char ∈ chars := by
  obtain ⟨before, after, -, -, hchars⟩ := exists_trim chars
  rw [hchars]
  simp [h]

theorem trim_blank_append (h : Blank before) : trim (before ++ chars) = trim chars := by
  rw [trim, trim, dropWhile_append_blank h]

theorem trim_eq_nil_iff : trim chars = [] ↔ Blank chars := by
  constructor
  · intro h
    obtain ⟨before, after, hbefore, hafter, hchars⟩ := exists_trim chars
    rw [h, List.append_nil] at hchars
    rw [hchars]
    exact fun char hchar => (List.mem_append.1 hchar).elim (hbefore char) (hafter char)
  · intro h
    rw [trim, List.dropWhile_eq_nil_iff.2 h]
    rfl

theorem trim_append_blank (h : Blank after) : trim (chars ++ after) = trim chars := by
  by_cases hchars : Blank chars
  · have hall : Blank (chars ++ after) := fun char hchar =>
      (List.mem_append.1 hchar).elim (hchars char) (h char)
    rw [trim_eq_nil_iff.2 hall, trim_eq_nil_iff.2 hchars]
  · have hne : chars.dropWhile isBlank ≠ [] := fun hnil =>
      hchars (List.dropWhile_eq_nil_iff.1 hnil)
    rw [trim, trim, List.dropWhile_append, if_neg (by simpa using hne), trimEnd_append_blank h]

theorem trim_padded (hbefore : Blank before) (hafter : Blank after) :
    trim (before ++ chars ++ after) = trim chars := by
  rw [trim_append_blank hafter, trim_blank_append hbefore]

theorem trim_trim (chars : List Char) : trim (trim chars) = trim chars := by
  obtain ⟨before, after, hbefore, hafter, hchars⟩ := exists_trim chars
  exact (trim_padded hbefore hafter).symm.trans (congrArg trim hchars.symm)

theorem trim_append_cons (h : isBlank char = false) :
    trim (before ++ char :: after) = before.dropWhile isBlank ++ char :: trimEnd after := by
  have hdrop : (before ++ char :: after).dropWhile isBlank =
      before.dropWhile isBlank ++ char :: after := by
    rw [List.dropWhile_append]
    split
    next hnil => simp [h, List.isEmpty_iff.1 hnil]
    next => rfl
  rw [trim, hdrop, trimEnd_append_cons h]

theorem trim_dropWhile (chars : List Char) : trim (chars.dropWhile isBlank) = trim chars := by
  have hblank : Blank (chars.takeWhile isBlank) := fun _ hchar => List.mem_takeWhile_imp hchar
  have h : trim (chars.takeWhile isBlank ++ chars.dropWhile isBlank) =
      trim (chars.dropWhile isBlank) := trim_blank_append hblank
  rwa [List.takeWhile_append_dropWhile, eq_comm] at h

theorem trim_trimEnd (chars : List Char) : trim (trimEnd chars) = trim chars := by
  obtain ⟨after, hafter, hchars⟩ := exists_trimEnd chars
  exact (trim_append_blank hafter).symm.trans (congrArg trim hchars.symm)

theorem trim_eq_self (h : ∀ char ∈ chars, isBlank char = false) : trim chars = chars := by
  have hdrop : ∀ {chars : List Char}, (∀ char ∈ chars, isBlank char = false) →
      chars.dropWhile isBlank = chars := by
    intro chars hchars
    refine List.dropWhile_eq_self_iff.2 fun hlength => ?_
    simp [hchars _ (List.getElem_mem hlength)]
  have hreverse : ∀ char ∈ chars.reverse, isBlank char = false :=
    fun char hchar => h char (List.mem_reverse.1 hchar)
  rw [trim, trimEnd, hdrop h, hdrop hreverse, List.reverse_reverse]

end ContentStream.Text
