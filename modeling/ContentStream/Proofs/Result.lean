/-!
# Successful computations

A sequence of computations succeeds exactly if each of them does, and so does one that
runs through a list.  It fails as the first of them that does.
-/

namespace ContentStream.Result

variable {ε α β : Type} {x : Except ε α} {b : β}

theorem bind_eq_ok {f : α → Except ε β} :
    x >>= f = .ok b ↔ ∃ a, x = .ok a ∧ f a = .ok b := by
  cases x with
  | error e => simp [bind, Except.bind]
  | ok a => simp [bind, Except.bind]

theorem exists_combined_eq_ok {γ : Type} {y : Except ε β} (f : α → β → γ) :
    (∃ c, (do
      let a ← x
      let b ← y
      return f a b) = .ok c) ↔ (∃ a, x = .ok a) ∧ ∃ b, y = .ok b := by
  constructor
  · rintro ⟨c, h⟩
    obtain ⟨a, ha, h⟩ := bind_eq_ok.1 h
    obtain ⟨b, hb, -⟩ := bind_eq_ok.1 h
    exact ⟨⟨a, ha⟩, b, hb⟩
  · rintro ⟨⟨a, rfl⟩, b, rfl⟩
    exact ⟨_, rfl⟩

theorem bind_eq_error {e : ε} {f : α → Except ε β} :
    x >>= f = .error e ↔ x = .error e ∨ ∃ a, x = .ok a ∧ f a = .error e := by
  cases x with
  | error e => simp [bind, Except.bind]
  | ok a => simp [bind, Except.bind]

theorem map_eq_ok {f : α → β} : x.map f = .ok b ↔ ∃ a, x = .ok a ∧ f a = b := by
  cases x with
  | error e => simp [Except.map]
  | ok a => simp [Except.map]

theorem map_map {γ : Type} (f : α → β) (g : β → γ) : (x.map f).map g = x.map fun a => g (f a) := by
  cases x with
  | error e => rfl
  | ok a => rfl

theorem map_bind {γ : Type} (f : α → Except ε β) (g : β → γ) :
    (x >>= f).map g = x >>= fun a => (f a).map g := by
  cases x with
  | error e => rfl
  | ok a => rfl

theorem toOption_eq_some_iff {a : α} {x : Except ε α} : x.toOption = some a ↔ x = .ok a := by
  cases x <;> simp [Except.toOption]

theorem toOption_map (f : α → β) : (x.map f).toOption = x.toOption.map f := by
  cases x with
  | error e => rfl
  | ok a => rfl

theorem toOption_bind (f : α → Except ε β) :
    (x >>= f).toOption = x.toOption.bind fun a => (f a).toOption := by
  cases x with
  | error e => rfl
  | ok a => rfl

theorem toOption_mapM (f : α → Except ε β) (as : List α) :
    (as.mapM f).toOption = as.mapM fun a => (f a).toOption := by
  induction as with
  | nil => rfl
  | cons a as ih =>
      simp only [List.mapM_cons, toOption_bind, ih]
      rfl

theorem eq_ok_iff_of_toOption {δ : Type} {y : Except δ α} (h : x.toOption = y.toOption) {a : α} :
    x = .ok a ↔ y = .ok a := by
  cases x <;> cases y <;> simp_all [Except.toOption]

theorem exists_map_eq_ok_iff (f : α → β) : (∃ b, x.map f = .ok b) ↔ ∃ a, x = .ok a := by
  cases x with
  | error e => simp [Except.map]
  | ok a => simp [Except.map]

private theorem mapM_cons_eq_ok {f : α → Except ε β} {a : α} {as : List α} {bs : List β} :
    (a :: as).mapM f = .ok bs ↔
      ∃ first others, f a = .ok first ∧ as.mapM f = .ok others ∧ bs = first :: others := by
  rw [List.mapM_cons, bind_eq_ok]
  constructor
  · rintro ⟨first, hfirst, h⟩
    obtain ⟨others, hothers, h⟩ := bind_eq_ok.1 h
    exact ⟨first, others, hfirst, hothers, (Except.ok.inj h).symm⟩
  · rintro ⟨first, others, hfirst, hothers, rfl⟩
    exact ⟨first, hfirst, bind_eq_ok.2 ⟨others, hothers, rfl⟩⟩

theorem exists_mapM_eq_ok_iff {f : α → Except ε β} {as : List α} :
    (∃ bs, as.mapM f = .ok bs) ↔ ∀ a ∈ as, ∃ b, f a = .ok b := by
  induction as with
  | nil => simp [pure, Except.pure]
  | cons a as ih =>
      rw [List.forall_mem_cons, ← ih]
      constructor
      · rintro ⟨bs, h⟩
        obtain ⟨first, others, hfirst, hothers, -⟩ := mapM_cons_eq_ok.1 h
        exact ⟨⟨first, hfirst⟩, others, hothers⟩
      · rintro ⟨⟨first, hfirst⟩, others, hothers⟩
        exact ⟨_, mapM_cons_eq_ok.2 ⟨first, others, hfirst, hothers, rfl⟩⟩

theorem length_of_mapM_eq_ok {f : α → Except ε β} {as : List α} {bs : List β}
    (h : as.mapM f = .ok bs) : bs.length = as.length := by
  induction as generalizing bs with
  | nil =>
      obtain rfl := Except.ok.inj h
      rfl
  | cons a as ih =>
      obtain ⟨first, others, -, hothers, rfl⟩ := mapM_cons_eq_ok.1 h
      rw [List.length_cons, List.length_cons, ih hothers]

theorem mem_of_mapM_eq_ok {f : α → Except ε β} {as : List α} {bs : List β}
    (h : as.mapM f = .ok bs) : b ∈ bs ↔ ∃ a ∈ as, f a = .ok b := by
  induction as generalizing bs with
  | nil =>
      obtain rfl := Except.ok.inj h
      simp
  | cons a as ih =>
      obtain ⟨first, others, hfirst, hothers, rfl⟩ := mapM_cons_eq_ok.1 h
      simp [ih hothers, hfirst, eq_comm]

theorem mapM_eq_error_iff {f : α → Except ε β} {as : List α} {e : ε} :
    as.mapM f = .error e ↔ ∃ before a after, as = before ++ a :: after ∧
      (∀ earlier ∈ before, ∃ b, f earlier = .ok b) ∧ f a = .error e := by
  induction as with
  | nil => simp [pure, Except.pure]
  | cons first as ih =>
      rw [List.mapM_cons, bind_eq_error]
      constructor
      · rintro (hfirst | ⟨b, hfirst, h⟩)
        · exact ⟨[], first, as, rfl, by simp, hfirst⟩
        · have hlater : as.mapM f = .error e := by
            rcases bind_eq_error.1 h with h | ⟨others, -, h⟩
            · exact h
            · contradiction
          obtain ⟨before, a, after, rfl, hbefore, ha⟩ := ih.1 hlater
          exact ⟨first :: before, a, after, rfl, List.forall_mem_cons.2 ⟨⟨b, hfirst⟩, hbefore⟩, ha⟩
      · rintro ⟨before, a, after, heq, hbefore, ha⟩
        cases before with
        | nil =>
            obtain ⟨rfl, rfl⟩ := List.cons.inj heq
            exact .inl ha
        | cons earlier before =>
            obtain ⟨rfl, rfl⟩ := List.cons.inj heq
            obtain ⟨⟨b, hfirst⟩, hbefore⟩ := List.forall_mem_cons.1 hbefore
            have hlater := ih.2 ⟨before, a, after, rfl, hbefore, ha⟩
            exact .inr ⟨b, hfirst, bind_eq_error.2 (.inl hlater)⟩

theorem mapM_filter_eq_error_iff {f : α → Except ε β} {p : α → Bool} {as : List α} {e : ε} :
    (as.filter p).mapM f = .error e ↔ ∃ before a after, as = before ++ a :: after ∧
      (∀ earlier ∈ before, p earlier = true → ∃ b, f earlier = .ok b) ∧
      p a = true ∧ f a = .error e := by
  rw [mapM_eq_error_iff]
  constructor
  · rintro ⟨before, a, after, hfilter, hbefore, hfails⟩
    obtain ⟨front, rest, rfl, rfl, hrest⟩ := List.filter_eq_append_iff.1 hfilter
    obtain ⟨dropped, behind, rfl, hdropped, ha, -⟩ := List.filter_eq_cons_iff.1 hrest
    refine ⟨front ++ dropped, a, behind, by simp, fun earlier hearlier hkept => ?_, ha, hfails⟩
    rcases List.mem_append.1 hearlier with hearlier | hearlier
    · exact hbefore earlier (List.mem_filter.2 ⟨hearlier, hkept⟩)
    · exact absurd hkept (hdropped earlier hearlier)
  · rintro ⟨before, a, after, rfl, hbefore, ha, hfails⟩
    refine ⟨before.filter p, a, after.filter p, ?_, fun earlier hearlier => ?_, hfails⟩
    · rw [List.filter_append, List.filter_cons_of_pos ha]
    · obtain ⟨hearlier, hkept⟩ := List.mem_filter.1 hearlier
      exact hbefore earlier hearlier hkept

end ContentStream.Result
