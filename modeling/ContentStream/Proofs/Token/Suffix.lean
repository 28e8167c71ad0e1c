import ContentStream.Operation
import ContentStream.Proofs.Result
import Mathlib.Data.List.Infix

/-!
# What a reading leaves

Whatever is taken off the front of an input, what is left is the end of that input,
untouched.  This is said here of the readers that take a single piece; the loops over
arrays and dictionaries only put them in a row.
-/

namespace ContentStream

namespace Separator

private theorem skipFrom_suffix (inComment : Bool) (input : Bytes) :
    skipFrom inComment input <:+ input := by
  induction input generalizing inComment with
  | nil => simp [skipFrom]
  | cons byte rest ih =>
      have hdrop : ∀ inComment, skipFrom inComment rest <:+ byte :: rest :=
        fun inComment => (ih inComment).trans (List.suffix_cons byte rest)
      cases inComment with
      | true =>
          rw [skipFrom]
          split <;> exact hdrop _
      | false =>
          rw [skipFrom]
          split
          · exact hdrop _
          split
          · exact hdrop _
          · exact List.suffix_rfl

theorem skip_suffix (input : Bytes) : skip input <:+ input :=
  skipFrom_suffix false input

end Separator

private theorem Literal.extent_suffix {inner : Nat} {escaped : Bool} {text input found rest : Bytes}
    (h : extent inner escaped text input = .ok (found, rest)) : rest <:+ input := by
  induction input generalizing inner escaped text with
  | nil => simp [extent] at h
  | cons byte tail ih =>
      refine List.IsSuffix.trans ?_ (List.suffix_cons byte tail)
      simp only [extent] at h
      split at h
      · exact ih h
      split at h
      · exact ih h
      split at h
      · exact ih h
      split at h
      · cases inner with
        | zero =>
            obtain ⟨-, rfl⟩ := Prod.mk.inj (Except.ok.inj h)
            exact List.suffix_rfl
        | succ outer => exact ih h
      · exact ih h

theorem Literal.take_suffix {opening : UInt8} {tail : Bytes} {taken : Taken Bytes (opening :: tail)}
    (h : take opening tail = .ok taken) : taken.rest <:+ opening :: tail := by
  unfold take at h
  split at h
  next hextent =>
    obtain rfl := Except.ok.inj h
    exact (extent_suffix hextent).trans (List.suffix_cons opening tail)
  next => simp at h
  next => simp at h

private theorem Hex.extent_suffix {digits input found rest : Bytes}
    (h : extent digits input = .ok (found, rest)) : rest <:+ input := by
  induction input generalizing digits with
  | nil => simp [extent] at h
  | cons byte tail ih =>
      refine List.IsSuffix.trans ?_ (List.suffix_cons byte tail)
      rw [extent] at h
      split at h
      · obtain ⟨-, rfl⟩ := Prod.mk.inj (Except.ok.inj h)
        exact List.suffix_rfl
      split at h
      · exact ih h
      split at h
      · exact ih h
      · simp at h

theorem Hex.take_suffix {opening : UInt8} {tail : Bytes} {taken : Taken Bytes (opening :: tail)}
    (h : take opening tail = .ok taken) : taken.rest <:+ opening :: tail := by
  unfold take at h
  split at h
  next hextent =>
    obtain rfl := Except.ok.inj h
    exact (extent_suffix hextent).trans (List.suffix_cons opening tail)
  next => simp at h
  next => simp at h

private theorem dropWhile_suffix_cons (p : UInt8 → Bool) (byte : UInt8) (tail : Bytes) :
    tail.dropWhile p <:+ byte :: tail :=
  (List.dropWhile_suffix p).trans (List.suffix_cons byte tail)

theorem Name.take_suffix {slash : UInt8} {tail : Bytes} {taken : Taken String (slash :: tail)}
    (h : take slash tail = .ok taken) : taken.rest <:+ slash :: tail := by
  unfold take at h
  split at h
  · obtain rfl := Except.ok.inj h
    exact dropWhile_suffix_cons Byte.isRegular slash tail
  · simp at h

theorem Numeral.split_suffix (input : Bytes) : (split input).2 <:+ input :=
  ⟨(split input).1.text, text_append_split input⟩

theorem Numeral.take_suffix {first : UInt8} {tail : Bytes} {hfirst : isStart first = true}
    {taken : Taken Operand (first :: tail)} (h : take first tail hfirst = .ok taken) :
    taken.rest <:+ first :: tail := by
  unfold take at h
  dsimp only at h
  split at h
  · obtain rfl := Except.ok.inj h
    exact split_suffix (first :: tail)
  · simp at h

theorem Token.takeWord_suffix (first : UInt8) (tail : Bytes) :
    (takeWord first tail).rest <:+ first :: tail :=
  dropWhile_suffix_cons Byte.isRegular first tail

def Token.EntryEnd.Cuts (ending : EntryEnd) : Prop :=
  ∀ {input : Bytes} {closed : Taken Unit input}, ending.close? input = some closed →
    closed.rest <:+ input

theorem Token.cuts_dictionaryEnd : dictionaryEnd.Cuts := by
  intro input closed h
  match input with
  | [] => simp [dictionaryEnd, closeDictionary] at h
  | [first] => simp [dictionaryEnd, closeDictionary] at h
  | first :: second :: rest =>
      simp only [dictionaryEnd, closeDictionary] at h
      split at h
      · obtain rfl := Option.some.inj h
        exact (List.suffix_cons second rest).trans (List.suffix_cons first _)
      · simp at h

namespace InlineImage

theorem cuts_entriesEnd (start : Bytes) : (entriesEnd start).Cuts := by
  intro input closed h
  match input with
  | [] => simp [entriesEnd, closeEntries] at h
  | [first] => simp [entriesEnd, closeEntries] at h
  | first :: second :: rest =>
      simp only [entriesEnd, closeEntries] at h
      split at h
      · obtain rfl := Option.some.inj h
        exact (List.tail_suffix rest).trans
          ((List.suffix_cons second rest).trans (List.suffix_cons first _))
      · simp at h

theorem takeData_suffix {data input found rest : Bytes}
    (h : takeData data input = some (found, rest)) : rest <:+ input := by
  induction input generalizing data with
  | nil => simp [takeData] at h
  | cons byte tail ih =>
      refine List.IsSuffix.trans ?_ (List.suffix_cons byte tail)
      rw [takeData] at h
      split at h
      · obtain ⟨-, rfl⟩ := Prod.mk.inj (Option.some.inj h)
        exact List.drop_suffix 1 tail
      · exact ih h

end InlineImage

end ContentStream
