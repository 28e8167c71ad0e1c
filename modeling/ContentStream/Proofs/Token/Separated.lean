import ContentStream.Proofs.Token.Containers

/-!
# Tokens and what separates them

Separators are white space and comments, in any number and order.  Nothing that is read
depends on which of them stand in front of a token.  A separator ends the token before
it; where none stands, the token has to end by itself in front of a delimiter.
-/

namespace ContentStream.Separator

/-- White space and comments, each comment with the end of its line. -/
inductive Blank : Bytes → Prop
  | nil : Blank []
  | space {byte gap} : Byte.isWhiteSpace byte = true → Blank gap → Blank (byte :: gap)
  | comment {text lineEnd gap} : (∀ byte ∈ text, Byte.isLineEnd byte = false) →
      Byte.isLineEnd lineEnd = true → Blank gap → Blank (0x25 :: (text ++ lineEnd :: gap))

private theorem skipFrom_comment {text : Bytes} {lineEnd : UInt8}
    (htext : ∀ byte ∈ text, Byte.isLineEnd byte = false)
    (hend : Byte.isLineEnd lineEnd = true) (rest : Bytes) :
    skipFrom true (text ++ lineEnd :: rest) = skip rest := by
  induction text with
  | nil => simp [skipFrom, hend, skip]
  | cons byte text ih =>
      have hbyte := htext byte (by simp)
      simp only [List.cons_append, skipFrom, hbyte, Bool.false_eq_true, if_false]
      exact ih fun other hother => htext other (by simp [hother])

private theorem skip_comment {text : Bytes} {lineEnd : UInt8}
    (htext : ∀ byte ∈ text, Byte.isLineEnd byte = false)
    (hend : Byte.isLineEnd lineEnd = true) (rest : Bytes) :
    skip (0x25 :: (text ++ lineEnd :: rest)) = skip rest := by
  rw [← skipFrom_comment htext hend rest]
  rfl

namespace Blank

variable {gap rest : Bytes}

theorem skip_append (h : Blank gap) (rest : Bytes) : skip (gap ++ rest) = skip rest := by
  induction h with
  | nil => rfl
  | space hspace _ ih =>
      rw [List.cons_append, skip_whiteSpace hspace]
      exact ih
  | comment htext hend _ ih =>
      rw [List.cons_append, List.append_assoc, List.cons_append, skip_comment htext hend]
      exact ih

theorem append {other : Bytes} (h : Blank gap) (h' : Blank other) : Blank (gap ++ other) := by
  induction h with
  | nil => exact h'
  | space hspace _ ih => exact .space hspace ih
  | comment htext hend _ ih =>
      rw [List.cons_append, List.append_assoc, List.cons_append]
      exact .comment htext hend ih

theorem ends (h : Blank gap) (hgap : gap ≠ []) (rest : Bytes) : (gap ++ rest).Ends := by
  cases h with
  | nil => contradiction
  | space hspace _ =>
      refine Bytes.ends_cons ?_
      simp [Byte.isRegular, hspace]
  | comment _ _ _ => exact Bytes.ends_cons (by decide)

end Blank

/--
The text holds the tokens, one after the other, in front of `rest`.  Any separators may
stand before each of them and behind the last; what follows a token, a separator if there
is one, does not go on with a regular byte.
-/
inductive Separated (rest : Bytes) : (tokens : List Bytes) → (text : Bytes) → Prop
  | done {gap} : Blank gap → Separated rest [] (gap ++ rest)
  | token {gap token tokens text} : Blank gap → text.Ends → Separated rest tokens text →
      Separated rest (token :: tokens) (gap ++ (token ++ text))

namespace Separated

variable {rest text : Bytes} {tokens others : List Bytes}

theorem skip_eq (h : Separated rest [] text) : skip text = skip rest := by
  cases h with
  | done hgap => exact hgap.skip_append rest

theorem cases_token {token : Bytes} (h : Separated rest (token :: tokens) text) :
    ∃ behind, skip text = skip (token ++ behind) ∧ behind.Ends ∧
      Separated rest tokens behind := by
  cases h with
  | token hgap hends hothers => exact ⟨_, hgap.skip_append _, hends, hothers⟩

theorem blank_append {gap : Bytes} (hgap : Blank gap) (h : Separated rest tokens text) :
    Separated rest tokens (gap ++ text) := by
  cases h with
  | done hfirst =>
      rw [← List.append_assoc]
      exact .done (hgap.append hfirst)
  | token hfirst hends hothers =>
      rw [← List.append_assoc]
      exact .token (hgap.append hfirst) hends hothers

theorem cons_blank {token gap : Bytes} (hgap : Blank gap) (hne : gap ≠ [])
    (h : Separated rest tokens text) : Separated rest (token :: tokens) (token ++ (gap ++ text)) :=
  .token .nil (hgap.ends hne text) (h.blank_append hgap)

theorem cons_space {token : Bytes} {space : UInt8} (hspace : Byte.isWhiteSpace space = true)
    (h : Separated rest tokens text) :
    Separated rest (token :: tokens) (token ++ space :: text) :=
  h.cons_blank (.space hspace .nil) (by simp)

theorem trans {middle : Bytes} (h : Separated middle tokens text)
    (h' : Separated rest others middle) : Separated rest (tokens ++ others) text := by
  induction h with
  | done hgap => exact h'.blank_append hgap
  | token hgap hends _ ih => exact .token hgap hends ih

theorem cases_append (h : Separated rest (tokens ++ others) text) :
    ∃ middle, Separated middle tokens text ∧ Separated rest others middle := by
  induction tokens generalizing text with
  | nil => exact ⟨text, .done .nil, h⟩
  | cons token tokens ih =>
      cases h with
      | token hgap hends hothers =>
          obtain ⟨middle, hfirst, hsecond⟩ := ih hothers
          exact ⟨middle, .token hgap hends hfirst, hsecond⟩

private theorem ne_nil (h : Separated rest tokens text) (hrest : rest ≠ []) : text ≠ [] := by
  induction h with
  | done => simp [hrest]
  | token _ _ _ ih => simp [ih]

theorem append (h : Separated rest tokens text) (hrest : rest ≠ []) (more : Bytes) :
    Separated (rest ++ more) tokens (text ++ more) := by
  induction h with
  | done hgap =>
      rw [List.append_assoc]
      exact .done hgap
  | token hgap hends hothers ih =>
      rw [List.append_assoc, List.append_assoc]
      exact .token hgap (hends.append (hothers.ne_nil hrest) more) ih

end Separated

end ContentStream.Separator
