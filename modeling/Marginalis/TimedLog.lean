import Marginalis.Run
import Mathlib.Data.Set.Basic
import Mathlib.Order.Basic

/-!
# Logs with numbers and times

An append-only log whose entries have a number and a time. A step appends at a clock
reading when everything new has a number above all earlier ones and that reading as its time
(`Appends`). Along a run of such steps every entry has the reading of the move that appended
it (`exists_move_of_mem`), and under a clock that does not go back the times are in the order
of the numbers (`time_le_of_seq_le`).
-/

/-- The entries of a log and the last number given out. -/
structure TimedLog (ε : Type*) where
  entries : Set ε
  last : ℕ

namespace TimedLog

variable {ε τ : Type*} {seq : ε → ℕ} {time : ε → τ} {now : τ} {l m n : TimedLog ε}

/-- No entry has a number that was not given out. -/
def Bounded (seq : ε → ℕ) (l : TimedLog ε) : Prop := ∀ e ∈ l.entries, seq e ≤ l.last

/-- Everything the second log has more is new and has the time `now`. -/
structure Appends (seq : ε → ℕ) (time : ε → τ) (now : τ) (l m : TimedLog ε) : Prop where
  kept : l.entries ⊆ m.entries
  last_le : l.last ≤ m.last
  new : ∀ e ∈ m.entries, e ∈ l.entries ∨ l.last < seq e ∧ seq e ≤ m.last ∧ time e = now

theorem Appends.refl (l : TimedLog ε) : Appends seq time now l l :=
  ⟨Set.Subset.rfl, le_rfl, fun _ he => Or.inl he⟩

theorem Appends.trans (h : Appends seq time now l m) (h' : Appends seq time now m n) :
    Appends seq time now l n where
  kept := h.kept.trans h'.kept
  last_le := h.last_le.trans h'.last_le
  new e he := by
    have hle := h.last_le
    have hle' := h'.last_le
    rcases h'.new e he with he | ⟨hlt, hmax, htime⟩
    · rcases h.new e he with he | ⟨hlt, hmax, htime⟩
      · exact Or.inl he
      · exact Or.inr ⟨hlt, by omega, htime⟩
    · exact Or.inr ⟨by omega, hmax, htime⟩

theorem Appends.bounded (h : Appends seq time now l m) (hl : Bounded seq l) : Bounded seq m := by
  intro e he
  rcases h.new e he with he | ⟨-, hmax, -⟩
  · exact (hl e he).trans h.last_le
  · exact hmax

/-! ## Runs -/

section Runs

variable {σ α : Type*} {step : σ → α → σ → Prop} {log : σ → TimedLog ε} {clock : α → τ}
  {s t : σ} {moves : List (Move σ α)}

/-- The move appended the entry. -/
def Appended (log : σ → TimedLog ε) (m : Move σ α) (e : ε) : Prop :=
  e ∈ (log m.post).entries ∧ e ∉ (log m.pre).entries

variable (happends : ∀ m ∈ moves, Appends seq time (clock m.label) (log m.pre) (log m.post))
include happends

theorem bounded_of_run (hrun : Run step s moves t) (hs : Bounded seq (log s)) :
    Bounded seq (log t) := by
  induction hrun with
  | nil => exact hs
  | snoc _ _ ih =>
    have ih := ih fun m hm => happends m (List.mem_append_left _ hm)
    exact (happends _ (List.mem_append_right _ (List.mem_singleton_self _))).bounded ih

/-- An entry of the log was there at the start, or one move appended it at its reading. -/
theorem exists_move_of_mem (hrun : Run step s moves t) {e : ε} (he : e ∈ (log t).entries) :
    e ∈ (log s).entries ∨ ∃ m ∈ moves, Appended log m e ∧ time e = clock m.label := by
  induction hrun with
  | nil => exact Or.inl he
  | @snoc t u moves a _ _ ih =>
    have hlast := happends ⟨t, a, u⟩ (List.mem_append_right _ (List.mem_singleton_self _))
    by_cases hold : e ∈ (log t).entries
    · rcases ih (fun m hm => happends m (List.mem_append_left _ hm)) hold with hs | ⟨m, hm, h⟩
      · exact Or.inl hs
      · exact Or.inr ⟨m, List.mem_append_left _ hm, h⟩
    · rcases hlast.new e he with he' | ⟨-, -, htime⟩
      · exact absurd he' hold
      · exact Or.inr ⟨⟨t, a, u⟩, List.mem_append_right _ (List.mem_singleton_self _), ⟨he, hold⟩,
          htime⟩

/-- Under a clock that does not go back, the appended entries are in the order of their times. -/
theorem time_le_of_seq_le [Preorder τ] (hrun : Run step s moves t)
    (hs : (log s).entries = ∅) (hclock : (moves.map fun m => clock m.label).Pairwise (· ≤ ·))
    {a b : ε} (ha : a ∈ (log t).entries) (hb : b ∈ (log t).entries) (hle : seq a ≤ seq b) :
    time a ≤ time b := by
  have hempty : Bounded seq (log s) := by
    intro e he
    rw [hs] at he
    exact he.elim
  induction hrun with
  | nil =>
    rw [hs] at ha
    exact ha.elim
  | @snoc t u moves x hrun _ ih =>
    have hbefore : ∀ m ∈ moves, Appends seq time (clock m.label) (log m.pre) (log m.post) :=
      fun m hm => happends m (List.mem_append_left _ hm)
    have hlast := happends ⟨t, x, u⟩ (List.mem_append_right _ (List.mem_singleton_self _))
    have hbound : Bounded seq (log t) := bounded_of_run hbefore hrun hempty
    rw [List.map_append, List.pairwise_append] at hclock
    have hearlier : ∀ e ∈ (log t).entries, time e ≤ clock x := by
      intro e he
      rcases exists_move_of_mem hbefore hrun he with he | ⟨m, hm, -, htime⟩
      · rw [hs] at he
        exact he.elim
      · rw [htime]
        exact hclock.2.2 _ (List.mem_map_of_mem hm) _ (by simp)
    rcases hlast.new a ha with ha | ⟨hlt, -, htime⟩
    · rcases hlast.new b hb with hb | ⟨-, -, htime⟩
      · exact ih hbefore hclock.1 ha hb
      · rw [htime]
        exact hearlier a ha
    · rcases hlast.new b hb with hb | ⟨-, -, htime'⟩
      · have hold := hbound b hb
        exact absurd hle (by have := hlt; dsimp only at this; omega)
      · rw [htime, htime']

end Runs

end TimedLog
