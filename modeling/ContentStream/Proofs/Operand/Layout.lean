import ContentStream.Operation.Shape
import ContentStream.Proofs.Result
import ContentStream.Proofs.Token.Separated

/-!
# Layouts of operands

An operand is written with single spaces inside of its brackets.  A layout of the operand
has the same tokens in the same order, but any separators between them.  What is written
is one of the layouts.
-/

namespace ContentStream.Operand

open Separator

mutual

/-- The text has the tokens of the operand, with separators of any kind inside of brackets. -/
def Layout : Operand → Bytes → Prop
  | .array items, text => ∃ tokens inner, Layouts items tokens ∧
      Separated [0x5D] tokens inner ∧ text = 0x5B :: inner
  | .dictionary entries, text => ∃ tokens inner, EntryLayouts entries tokens ∧
      Separated [0x3E, 0x3E] tokens inner ∧ text = 0x3C :: 0x3C :: inner
  | value, text => written value = .ok text

def Layouts : List Operand → List Bytes → Prop
  | [], [] => True
  | item :: items, token :: tokens => Layout item token ∧ Layouts items tokens
  | _, _ => False

def EntryLayouts : List (String × Operand) → List Bytes → Prop
  | [], [] => True
  | (key, value) :: entries, first :: token :: tokens =>
    first = Name.written key ∧ Layout value token ∧ EntryLayouts entries tokens
  | _, _ => False

end

section Lists

variable {key : String} {value item : Operand} {items : List Operand} {entries : Dictionary}
  {tokens : List Bytes}

theorem layouts_nil (h : Layouts [] tokens) : tokens = [] := by
  cases tokens with
  | nil => rfl
  | cons token tokens => simp [Layouts] at h

theorem layouts_cons (h : Layouts (item :: items) tokens) :
    ∃ token others, tokens = token :: others ∧ Layout item token ∧ Layouts items others := by
  cases tokens with
  | nil => simp [Layouts] at h
  | cons token tokens => exact ⟨token, tokens, rfl, by simpa [Layouts] using h⟩

theorem entryLayouts_nil (h : EntryLayouts [] tokens) : tokens = [] := by
  cases tokens with
  | nil => rfl
  | cons token tokens => simp [EntryLayouts] at h

theorem entryLayouts_cons (h : EntryLayouts ((key, value) :: entries) tokens) :
    ∃ token others, tokens = Name.written key :: token :: others ∧ Layout value token ∧
      EntryLayouts entries others := by
  match tokens with
  | [] => simp [EntryLayouts] at h
  | [first] => simp [EntryLayouts] at h
  | first :: token :: others =>
      obtain ⟨rfl, hvalue, hothers⟩ : first = Name.written key ∧ Layout value token ∧
          EntryLayouts entries others := by simpa [EntryLayouts] using h
      exact ⟨token, others, rfl, hvalue, hothers⟩

end Lists

def behind {α : Type} : (following : List α) → (text : Bytes) → Bytes
  | [], _ => []
  | _ :: _, text => 0x20 :: text

theorem writtenItems_cons (item : Operand) (items : List Operand) :
    writtenItems (item :: items) = (do
      let first ← written item
      let others ← writtenItems items
      return first ++ behind items others) := by
  cases items with
  | nil =>
      rw [writtenItems, writtenItems]
      cases written item with
      | error error => rfl
      | ok first => exact congrArg Except.ok (List.append_nil first).symm
  | cons next items =>
      rw [writtenItems]
      · rfl
      · simp

theorem writtenEntries_cons (key : String) (value : Operand) (entries : Dictionary) :
    writtenEntries ((key, value) :: entries) = (do
      let token ← written value
      let others ← writtenEntries entries
      return Name.written key ++ 0x20 :: (token ++ behind entries others)) := by
  cases entries with
  | nil =>
      rw [writtenEntries, writtenEntries]
      cases written value with
      | error error => rfl
      | ok token =>
          exact congrArg (fun token => Except.ok (Name.written key ++ 0x20 :: token))
            (List.append_nil token).symm
  | cons next entries =>
      rw [writtenEntries]
      · simp only [behind, List.append_assoc, List.cons_append]
      · simp

theorem exists_writtenItems {items : List Operand} :
    (∃ inner, writtenItems items = .ok inner) ↔
      ∀ item ∈ items, ∃ text, item.written = .ok text := by
  induction items with
  | nil => simp [writtenItems]
  | cons item items ih =>
      rw [writtenItems_cons, List.forall_mem_cons, ← ih]
      exact Result.exists_combined_eq_ok _

theorem exists_writtenEntries {entries : Dictionary} :
    (∃ inner, writtenEntries entries = .ok inner) ↔
      ∀ entry ∈ entries, ∃ text, entry.2.written = .ok text := by
  induction entries with
  | nil => simp [writtenEntries]
  | cons entry entries ih =>
      rw [writtenEntries_cons, List.forall_mem_cons, ← ih]
      exact Result.exists_combined_eq_ok _

/-! ## The written layout -/

private theorem separated_behind {α : Type} {following : List α} {rest text others : Bytes}
    {tokens : List Bytes} (hrest : rest.Ends) (htokens : following = [] → tokens = [])
    (h : Separated rest tokens (others ++ rest)) :
    Separated rest (text :: tokens) (text ++ (behind following others ++ rest)) := by
  cases following with
  | nil =>
      obtain rfl := htokens rfl
      exact .token .nil hrest (.done .nil)
  | cons next following =>
      exact h.cons_space (by decide)

mutual

theorem layout_of_written : (value : Operand) → {text : Bytes} → written value = .ok text →
    Layout value text
  | .array items, text, h => by
      rw [written] at h
      obtain ⟨inner, hinner, h⟩ := Result.bind_eq_ok.1 h
      obtain ⟨tokens, hitems, hseparated⟩ := layouts_of_written items hinner
      rw [Layout]
      exact ⟨tokens, inner ++ [0x5D], hitems, hseparated (Bytes.ends_cons (by decide)),
        (Except.ok.inj h).symm⟩
  | .dictionary entries, text, h => by
      rw [written] at h
      obtain ⟨inner, hinner, h⟩ := Result.bind_eq_ok.1 h
      obtain ⟨tokens, hentries, hseparated⟩ := entryLayouts_of_written entries hinner
      rw [Layout]
      exact ⟨tokens, inner ++ [0x3E, 0x3E], hentries, hseparated (Bytes.ends_cons (by decide)),
        (Except.ok.inj h).symm⟩
  | .integer _, _, h | .real _, _, h | .boolean _, _, h | .name _, _, h
  | .literalString _, _, h | .hexString _, _, h | .null, _, h => by simpa [Layout] using h

theorem layouts_of_written : (items : List Operand) → {inner : Bytes} →
    writtenItems items = .ok inner → ∃ tokens, Layouts items tokens ∧
      ∀ {rest : Bytes}, rest.Ends → Separated rest tokens (inner ++ rest)
  | [], inner, h => by
      obtain rfl : [] = inner := Except.ok.inj h
      exact ⟨[], by simp [Layouts], fun _ => .done .nil⟩
  | item :: items, inner, h => by
      rw [writtenItems_cons] at h
      obtain ⟨first, hfirst, h⟩ := Result.bind_eq_ok.1 h
      obtain ⟨others, hothers, h⟩ := Result.bind_eq_ok.1 h
      obtain rfl := Except.ok.inj h
      obtain ⟨tokens, hitems, hseparated⟩ := layouts_of_written items hothers
      refine ⟨first :: tokens, ?_, fun hrest => ?_⟩
      · rw [Layouts]
        exact ⟨layout_of_written item hfirst, hitems⟩
      · rw [List.append_assoc]
        exact separated_behind hrest (fun hnil => layouts_nil (hnil ▸ hitems))
          (hseparated hrest)

theorem entryLayouts_of_written : (entries : List (String × Operand)) → {inner : Bytes} →
    writtenEntries entries = .ok inner → ∃ tokens, EntryLayouts entries tokens ∧
      ∀ {rest : Bytes}, rest.Ends → Separated rest tokens (inner ++ rest)
  | [], inner, h => by
      obtain rfl : [] = inner := Except.ok.inj h
      exact ⟨[], by simp [EntryLayouts], fun _ => .done .nil⟩
  | (key, value) :: entries, inner, h => by
      rw [writtenEntries_cons] at h
      obtain ⟨token, htoken, h⟩ := Result.bind_eq_ok.1 h
      obtain ⟨others, hothers, h⟩ := Result.bind_eq_ok.1 h
      obtain rfl := Except.ok.inj h
      obtain ⟨tokens, hentries, hseparated⟩ := entryLayouts_of_written entries hothers
      refine ⟨Name.written key :: token :: tokens, ?_, fun hrest => ?_⟩
      · rw [EntryLayouts]
        exact ⟨rfl, layout_of_written value htoken, hentries⟩
      · rw [List.append_assoc, List.cons_append, List.append_assoc]
        refine Separated.cons_space (by decide) ?_
        exact separated_behind hrest (fun hnil => entryLayouts_nil (hnil ▸ hentries))
          (hseparated hrest)

end

theorem exists_writtenOperands {write : Writer} {operands : List Operand} :
    (∃ text, Shape.writtenOperands write operands = .ok text) ↔
      ∀ operand ∈ operands, ∃ text, write operand = .ok text := by
  induction operands with
  | nil => simp [Shape.writtenOperands]
  | cons operand operands ih =>
      rw [Shape.writtenOperands, List.forall_mem_cons, ← ih]
      exact Result.exists_combined_eq_ok _

theorem layouts_of_writtenOperands {operands : List Operand} {text : Bytes}
    (h : Shape.writtenOperands written operands = .ok text) :
    ∃ tokens, Layouts operands tokens ∧ ∀ rest, Separated rest tokens (text ++ rest) := by
  induction operands generalizing text with
  | nil =>
      obtain rfl : [] = text := Except.ok.inj h
      exact ⟨[], by simp [Layouts], fun _ => .done .nil⟩
  | cons operand operands ih =>
      rw [Shape.writtenOperands] at h
      obtain ⟨token, htoken, h⟩ := Result.bind_eq_ok.1 h
      obtain ⟨others, hothers, h⟩ := Result.bind_eq_ok.1 h
      obtain rfl := Except.ok.inj h
      obtain ⟨tokens, hoperands, hseparated⟩ := ih hothers
      refine ⟨token :: tokens, ?_, fun rest => ?_⟩
      · rw [Layouts]
        exact ⟨layout_of_written operand htoken, hoperands⟩
      · rw [List.append_assoc, List.cons_append]
        exact (hseparated rest).cons_space (by decide)

theorem entryLayouts_of_layouts {entries : Dictionary} {tokens : List Bytes}
    (h : Layouts (Shape.imageEntries entries) tokens) : EntryLayouts entries tokens := by
  induction entries generalizing tokens with
  | nil =>
      obtain rfl := layouts_nil h
      simp [EntryLayouts]
  | cons entry entries ih =>
      obtain ⟨first, others, rfl, hkey, h⟩ := layouts_cons h
      obtain ⟨token, others, rfl, hvalue, h⟩ := layouts_cons h
      have hfirst : Name.written entry.1 = first := by simpa [Layout, written] using hkey
      rw [EntryLayouts]
      exact ⟨hfirst.symm, hvalue, ih h⟩

end ContentStream.Operand
