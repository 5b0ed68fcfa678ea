import Mathlib.Data.List.Basic

/-!
# Computations that can fail

When a computation in `Except` returns a value, every part of it did. These lemmas take
such a hypothesis apart, one per combinator, so that the transactions of a program are
inverted without unfolding the monad. Computations in `Option` are put together the other way.
-/

namespace Except

universe u

variable {ε ε' : Type*} {α β σ : Type u}

theorem bind_eq_ok {x : Except ε α} {f : α → Except ε β} {b : β} :
    (x >>= f) = .ok b ↔ ∃ a, x = .ok a ∧ f a = .ok b := by
  cases x with
  | error e => simp [bind, Except.bind]
  | ok a => simp [bind, Except.bind]

theorem bind_eq_error {x : Except ε α} {f : α → Except ε β} {e : ε} :
    (x >>= f) = .error e ↔ x = .error e ∨ ∃ a, x = .ok a ∧ f a = .error e := by
  cases x with
  | error e' => simp [bind, Except.bind]
  | ok a => simp [bind, Except.bind]

theorem map_eq_ok {x : Except ε α} {f : α → β} {b : β} :
    x.map f = .ok b ↔ ∃ a, x = .ok a ∧ f a = b := by
  cases x with
  | error e => simp [Except.map]
  | ok a => simp [Except.map]

theorem mapError_eq_ok {x : Except ε α} {f : ε → ε'} {a : α} :
    x.mapError f = .ok a ↔ x = .ok a := by
  cases x with
  | error e => simp [Except.mapError]
  | ok a => simp [Except.mapError]

theorem exists_eq_ok {x : Except ε α} (h : x.toOption.isSome = true) : ∃ a, x = .ok a := by
  cases x with
  | error e => simp [Except.toOption] at h
  | ok a => exact ⟨a, rfl⟩

/-- What each step of a fold keeps, the fold keeps. -/
theorem foldlM_invariant {f : σ → α → Except ε σ} {P : σ → Prop} :
    ∀ {l : List α} {s t : σ}, l.foldlM f s = .ok t → P s →
      (∀ s a t, a ∈ l → P s → f s a = .ok t → P t) → P t
  | [], s, t, h, hs, _ => by
    simp only [List.foldlM_nil, pure, Except.pure, Except.ok.injEq] at h
    exact h ▸ hs
  | a :: l, s, t, h, hs, hstep => by
    rw [List.foldlM_cons, bind_eq_ok] at h
    obtain ⟨u, hu, h⟩ := h
    exact foldlM_invariant h (hstep s a u (List.mem_cons_self ..) hs hu)
      fun s b t hb => hstep s b t (List.mem_cons_of_mem _ hb)

/-- The error of a fold is that of a step. -/
theorem exists_of_foldlM_error {f : σ → α → Except ε σ} {e : ε} :
    ∀ {l : List α} {s : σ}, l.foldlM f s = .error e → ∃ a ∈ l, ∃ t, f t a = .error e
  | a :: l, s, h => by
    rw [List.foldlM_cons] at h
    rcases bind_eq_error.mp h with h | ⟨t, -, h⟩
    · exact ⟨a, List.mem_cons_self .., s, h⟩
    · obtain ⟨b, hb, hfb⟩ := exists_of_foldlM_error h
      exact ⟨b, List.mem_cons_of_mem _ hb, hfb⟩

theorem exists_of_mapM_error {f : α → Except ε β} {e : ε} :
    ∀ {l : List α}, l.mapM f = .error e → ∃ a ∈ l, f a = .error e
  | a :: l, h => by
    rw [List.mapM_cons] at h
    rcases bind_eq_error.mp h with h | ⟨b, -, h⟩
    · exact ⟨a, List.mem_cons_self .., h⟩
    · rcases bind_eq_error.mp h with h | ⟨bs, -, h⟩
      · obtain ⟨c, hc, hfc⟩ := exists_of_mapM_error h
        exact ⟨c, List.mem_cons_of_mem _ hc, hfc⟩
      · cases h

/-- The results of a mapped computation come from the elements. -/
theorem exists_of_mem_mapM {f : α → Except ε β} :
    ∀ {l : List α} {bs : List β} {b : β}, l.mapM f = .ok bs → b ∈ bs → ∃ a ∈ l, f a = .ok b
  | [], bs, b, h, hb => by
    simp only [List.mapM_nil, pure, Except.pure, Except.ok.injEq] at h
    simp [← h] at hb
  | a :: l, bs, b, h, hb => by
    rw [List.mapM_cons, bind_eq_ok] at h
    obtain ⟨c, hc, h⟩ := h
    obtain ⟨cs, hcs, h⟩ := bind_eq_ok.mp h
    cases h
    rcases List.mem_cons.mp hb with rfl | hb
    · exact ⟨a, List.mem_cons_self .., hc⟩
    · obtain ⟨d, hd, hfd⟩ := exists_of_mem_mapM hcs hb
      exact ⟨d, List.mem_cons_of_mem _ hd, hfd⟩

/-- Every element of a list that a computation succeeds on has its result. -/
theorem exists_mem_of_mapM {f : α → Except ε β} :
    ∀ {l : List α} {bs : List β} {a : α}, l.mapM f = .ok bs → a ∈ l → ∃ b ∈ bs, f a = .ok b
  | c :: l, bs, a, h, ha => by
    rw [List.mapM_cons, bind_eq_ok] at h
    obtain ⟨b, hb, h⟩ := h
    obtain ⟨rest, hrest, h⟩ := bind_eq_ok.mp h
    cases h
    rcases List.mem_cons.mp ha with rfl | ha
    · exact ⟨b, List.mem_cons_self .., hb⟩
    · obtain ⟨d, hd, hfd⟩ := exists_mem_of_mapM hrest ha
      exact ⟨d, List.mem_cons_of_mem _ hd, hfd⟩

/-- A computation that succeeds on every element succeeds on the list. -/
theorem mapM_ok {f : α → Except ε β} :
    ∀ {l : List α}, (∀ a ∈ l, ∃ b, f a = .ok b) → ∃ bs, l.mapM f = .ok bs
  | [], _ => ⟨[], rfl⟩
  | a :: l, h => by
    obtain ⟨b, hb⟩ := h a (List.mem_cons_self ..)
    obtain ⟨bs, hbs⟩ := mapM_ok fun a ha => h a (List.mem_cons_of_mem _ ha)
    exact ⟨b :: bs, by rw [List.mapM_cons, hb, hbs]; rfl⟩

theorem length_mapM {f : α → Except ε β} :
    ∀ {l : List α} {bs : List β}, l.mapM f = .ok bs → bs.length = l.length
  | [], bs, h => by
    cases h
    rfl
  | a :: l, bs, h => by
    rw [List.mapM_cons, bind_eq_ok] at h
    obtain ⟨b, -, h⟩ := h
    obtain ⟨cs, hcs, h⟩ := bind_eq_ok.mp h
    cases h
    rw [List.length_cons, List.length_cons, length_mapM hcs]

/-- When a filter on the results follows one on the elements, it does not matter which comes
first. -/
theorem mapM_filter {f : α → Except ε β} {p : α → Bool} {q : β → Bool} :
    ∀ {l : List α} {bs : List β}, l.mapM f = .ok bs →
      (∀ a ∈ l, ∀ b, f a = .ok b → q b = p a) → (l.filter p).mapM f = .ok (bs.filter q)
  | [], bs, h, _ => by
    cases h
    rfl
  | a :: l, bs, h, hpq => by
    rw [List.mapM_cons, bind_eq_ok] at h
    obtain ⟨b, hb, h⟩ := h
    obtain ⟨cs, hcs, h⟩ := bind_eq_ok.mp h
    cases h
    have ih := mapM_filter hcs fun c hc => hpq c (List.mem_cons_of_mem _ hc)
    have hab : q b = p a := hpq a (List.mem_cons_self ..) b hb
    by_cases hp : p a = true
    · rw [List.filter_cons_of_pos hp, List.filter_cons_of_pos (hab.trans hp), List.mapM_cons, hb,
        ih]
      rfl
    · rw [List.filter_cons_of_neg hp, List.filter_cons_of_neg (by rw [hab]; exact hp), ih]

end Except

namespace Option

universe u

variable {α β : Type u}

/-- A computation that has a result at every element has them all. -/
theorem mapM_eq_some {f : α → Option β} {g : α → β} {l : List α}
    (h : ∀ a ∈ l, f a = some (g a)) : l.mapM f = some (l.map g) := by
  induction l with
  | nil => rfl
  | cons a l ih =>
    rw [List.mapM_cons, h a List.mem_cons_self,
      ih fun b hb => h b (List.mem_cons_of_mem _ hb)]
    rfl

end Option
