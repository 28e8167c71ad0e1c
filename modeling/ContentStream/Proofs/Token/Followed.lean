import ContentStream.Operation
import ContentStream.Proofs.Token.Containers

/-!
# Readings with more input behind

What is read from the front of an input is also read if more stands behind that input.
Only a token that reaches up to the end of the input could go on there, so what stands
behind must not begin with a regular byte.
-/

namespace ContentStream

variable {more : Bytes}

private theorem Separator.skipFrom_append {inComment : Bool} {input tail : Bytes} {byte : UInt8}
    (h : skipFrom inComment input = byte :: tail) (more : Bytes) :
    skipFrom inComment (input ++ more) = byte :: (tail ++ more) := by
  induction input generalizing inComment with
  | nil => simp [skipFrom] at h
  | cons first rest ih =>
      cases inComment with
      | true =>
          rw [List.cons_append, skipFrom]
          rw [skipFrom] at h
          split at h
          next hend => rw [if_pos hend, ih h]
          next hend => rw [if_neg hend, ih h]
      | false =>
          rw [List.cons_append, skipFrom]
          rw [skipFrom] at h
          split at h
          next hspace => rw [if_pos hspace, ih h]
          next hspace =>
            rw [if_neg hspace]
            split at h
            next hcomment => rw [if_pos hcomment, ih h]
            next hcomment =>
              obtain ⟨rfl, rfl⟩ := List.cons.inj h
              rw [if_neg hcomment]

theorem Separator.skip_append_more {input tail : Bytes} {byte : UInt8}
    (h : skip input = byte :: tail) (more : Bytes) :
    skip (input ++ more) = byte :: (tail ++ more) :=
  skipFrom_append h more

private theorem Literal.extent_append {inner : Nat} {escaped : Bool}
    {text input found rest : Bytes} (h : extent inner escaped text input = .ok (found, rest))
    (more : Bytes) : extent inner escaped text (input ++ more) = .ok (found, rest ++ more) := by
  induction input generalizing inner escaped text with
  | nil => simp [extent] at h
  | cons byte tail ih =>
      rw [List.cons_append]
      simp only [extent] at h ⊢
      split at h
      next hescaped => rw [if_pos hescaped, ih h]
      next hescaped =>
        rw [if_neg hescaped]
        split at h
        next hbyte => rw [if_pos hbyte, ih h]
        next hbyte =>
          rw [if_neg hbyte]
          split at h
          next hopens => rw [if_pos hopens, ih h]
          next hopens =>
            rw [if_neg hopens]
            split at h
            next hcloses =>
              rw [if_pos hcloses]
              cases inner with
              | zero =>
                  obtain ⟨rfl, rfl⟩ := Prod.mk.inj (Except.ok.inj h)
                  rfl
              | succ outer => exact ih h
            next hcloses => rw [if_neg hcloses, ih h]

theorem Literal.take_append {opening : UInt8} {tail value rest : Bytes}
    (h : Took (take opening tail) value rest) (more : Bytes) :
    Took (take opening (tail ++ more)) value (rest ++ more) := by
  obtain ⟨shorter, htake⟩ := h
  unfold take at htake
  split at htake
  next text after hextent =>
    have hextent := extent_append hextent more
    obtain ⟨rfl, rfl⟩ := Taken.mk.inj (Except.ok.inj htake)
    unfold take
    split
    next h =>
      rw [hextent] at h
      obtain ⟨rfl, rfl⟩ := Prod.mk.inj (Except.ok.inj h)
      exact ⟨_, rfl⟩
    next h => simp [hextent] at h
    next h => simp [hextent] at h
  next => simp at htake
  next => simp at htake

private theorem Hex.extent_append {digits input found rest : Bytes}
    (h : extent digits input = .ok (found, rest)) (more : Bytes) :
    extent digits (input ++ more) = .ok (found, rest ++ more) := by
  induction input generalizing digits with
  | nil => simp [extent] at h
  | cons byte tail ih =>
      rw [List.cons_append]
      rw [extent] at h ⊢
      split at h
      next hcloses =>
        obtain ⟨rfl, rfl⟩ := Prod.mk.inj (Except.ok.inj h)
        rw [if_pos hcloses]
      next hcloses =>
        rw [if_neg hcloses]
        split at h
        next hspace => rw [if_pos hspace, ih h]
        next hspace =>
          rw [if_neg hspace]
          cases hdigit : Byte.hexValue? byte with
          | some digit =>
              rw [hdigit] at h
              exact ih h
          | none => simp [hdigit] at h

theorem Hex.take_append {opening : UInt8} {tail value rest : Bytes}
    (h : Took (take opening tail) value rest) (more : Bytes) :
    Took (take opening (tail ++ more)) value (rest ++ more) := by
  obtain ⟨shorter, htake⟩ := h
  unfold take at htake
  split at htake
  next digits after hextent =>
    have hextent := extent_append hextent more
    obtain ⟨rfl, rfl⟩ := Taken.mk.inj (Except.ok.inj htake)
    unfold take
    split
    next h =>
      rw [hextent] at h
      obtain ⟨rfl, rfl⟩ := Prod.mk.inj (Except.ok.inj h)
      exact ⟨_, rfl⟩
    next h => simp [hextent] at h
    next h => simp [hextent] at h
  next => simp at htake
  next => simp at htake

/-! ## Runs of regular bytes -/

theorem Bytes.takeWhile_append_more {p : UInt8 → Bool}
    (hp : ∀ {byte}, p byte = true → Byte.isRegular byte = true) (input : Bytes)
    (hmore : more.Ends) : (input ++ more).takeWhile p = input.takeWhile p := by
  induction input with
  | nil =>
      show ([] ++ more).takeWhile p = []
      exact takeWhile_append (by simp) (hmore.head hp)
  | cons byte tail ih =>
      rw [List.cons_append, List.takeWhile_cons, List.takeWhile_cons, ih]

theorem Bytes.dropWhile_append_more {p : UInt8 → Bool}
    (hp : ∀ {byte}, p byte = true → Byte.isRegular byte = true) (input : Bytes)
    (hmore : more.Ends) : (input ++ more).dropWhile p = input.dropWhile p ++ more := by
  induction input with
  | nil =>
      show ([] ++ more).dropWhile p = more
      exact dropWhile_append (by simp) (hmore.head hp)
  | cons byte tail ih =>
      rw [List.cons_append, List.dropWhile_cons, List.dropWhile_cons, ih]
      split <;> rfl

theorem Name.take_append {slash : UInt8} {tail rest : Bytes} {name : String}
    (h : Took (take slash tail) name rest) (hmore : more.Ends) :
    Took (take slash (tail ++ more)) name (rest ++ more) := by
  obtain ⟨shorter, htake⟩ := h
  unfold take at htake ⊢
  rw [Bytes.takeWhile_append_more id tail hmore]
  split at htake
  next =>
    obtain ⟨rfl, rfl⟩ := Taken.mk.inj (Except.ok.inj htake)
    refine ⟨?_, ?_⟩
    · simp only [List.length_cons, List.length_append] at shorter ⊢
      omega
    · simp only [Taken.afterFirst, Bytes.dropWhile_append_more id tail hmore]
  next => simp at htake

theorem Token.takeWord_append {first : UInt8} {tail rest : Bytes} {token : Token}
    (h : Took (.ok (takeWord first tail)) token rest) (hmore : more.Ends) :
    Took (.ok (takeWord first (tail ++ more))) token (rest ++ more) := by
  obtain ⟨shorter, h⟩ := h
  obtain ⟨rfl, rfl⟩ := Taken.mk.inj (Except.ok.inj h)
  refine ⟨?_, ?_⟩
  · simp only [List.length_cons, List.length_append] at shorter ⊢
    omega
  · simp only [takeWord, Taken.afterFirst, Bytes.takeWhile_append_more id tail hmore,
      Bytes.dropWhile_append_more id tail hmore]

namespace Numeral

private theorem takeOptional_append_more {p : UInt8 → Bool}
    (hp : ∀ {byte}, p byte = true → Byte.isRegular byte = true) (input : Bytes)
    (hmore : more.Ends) :
    takeOptional p (input ++ more) =
      ((takeOptional p input).1, (takeOptional p input).2 ++ more) := by
  cases input with
  | nil =>
      cases more with
      | nil => rfl
      | cons byte rest => simp [takeOptional, hmore.head hp byte rfl]
  | cons byte tail =>
      rw [List.cons_append, takeOptional, takeOptional]
      split <;> rfl

theorem split_append_more (input : Bytes) (hmore : more.Ends) :
    split (input ++ more) = ((split input).1, (split input).2 ++ more) := by
  have hsign := takeOptional_append_more (p := isSign)
    (fun h => Byte.isRegular_of rfl h) input hmore
  have hpoint := takeOptional_append_more (p := (· = 0x2E))
    (fun h => Byte.isRegular_of (p := (· = 0x2E)) rfl h)
    ((takeOptional isSign input).2.dropWhile Byte.isDigit) hmore
  unfold split
  simp only [hsign, Bytes.takeWhile_append_more Byte.isRegular_of_isDigit _ hmore,
    Bytes.dropWhile_append_more Byte.isRegular_of_isDigit _ hmore, hpoint]
  split <;> rfl

theorem take_append {first : UInt8} {tail rest : Bytes} {value : Operand}
    {hfirst : isStart first = true} (h : Took (take first tail hfirst) value rest)
    (hmore : more.Ends) : Took (take first (tail ++ more) hfirst) value (rest ++ more) := by
  obtain ⟨shorter, htake⟩ := h
  have hsplit : split (first :: (tail ++ more)) = _ := split_append_more (first :: tail) hmore
  unfold take at htake ⊢
  dsimp only at htake ⊢
  split at htake
  next found hfound =>
    obtain ⟨rfl, rfl⟩ := Taken.mk.inj (Except.ok.inj htake)
    refine ⟨?_, ?_⟩
    · simp only [List.length_cons, List.length_append] at shorter ⊢
      omega
    · simp only [hsplit, hfound]
  next => simp at htake

end Numeral

end ContentStream
