import Mathlib.Data.Set.Insert
import Mathlib.Logic.Relation
import Mathlib.Order.Bounds.Basic

/-!
# Numbered queues

Entries get increasing numbers, and each is put into the queues of the consumers that
receive it. A consumer finishes the entries of its queue from the head, and finished entries
may be forgotten. So in every queue what is finished comes before what is pending
(`InOrder`), and an entry with nothing pending before it stays so, whatever else happens
(`Claimed`) : a worker that took the head of a queue may come back to it at any time.
-/

/-- The entries that wait for each consumer and those it is done with. `last` is the last
number given to an entry. -/
@[ext] structure Queues (κ : Type*) where
  last : ℕ
  pending : κ → Set ℕ
  finished : κ → Set ℕ

namespace Queues

open Relation

variable {κ : Type*} {q q' : Queues κ} {k : κ} {m n : ℕ}

/-- A new entry, pending for its receivers. -/
def publish (q : Queues κ) (receivers : Set κ) : Queues κ where
  last := q.last + 1
  pending k := {n | n ∈ q.pending k ∨ k ∈ receivers ∧ n = q.last + 1}
  finished := q.finished

/-- The consumer `k` is done with the entry `n`. -/
def finish (q : Queues κ) (k : κ) (n : ℕ) : Queues κ where
  last := q.last
  pending j := {m | m ∈ q.pending j ∧ ¬(j = k ∧ m = n)}
  finished j := {m | m ∈ q.finished j ∨ j = k ∧ m = n}

/-- The consumer `k` leaves with its queue. -/
def drop (q : Queues κ) (k : κ) : Queues κ where
  last := q.last
  pending j := {m | m ∈ q.pending j ∧ j ≠ k}
  finished j := {m | m ∈ q.finished j ∧ j ≠ k}

/-- Entries are published one after the other. -/
abbrev Published : Queues κ → Queues κ → Prop :=
  ReflTransGen fun q q' => ∃ receivers, q' = q.publish receivers

/-- What happens to the queues at once, while their consumers stay. -/
inductive Step (q : Queues κ) : Queues κ → Prop
  | publish {q' : Queues κ} (h : Published q q') : Step q q'
  | finish (k : κ) (n : ℕ) (hhead : IsLeast (q.pending k) n) : Step q (q.finish k n)
  | forget (finished : κ → Set ℕ) (h : ∀ k, finished k ⊆ q.finished k) :
      Step q { q with finished := finished }

theorem Step.of_eq (h : q' = q) : q.Step q' := h ▸ .publish .refl

/-! ## Publishing -/

theorem Published.last_le (h : Published q q') : q.last ≤ q'.last := by
  induction h with
  | refl => exact Nat.le_refl _
  | tail _ hstep ih =>
    obtain ⟨receivers, rfl⟩ := hstep
    exact Nat.le_succ_of_le ih

theorem Published.finished (h : Published q q') : q'.finished = q.finished := by
  induction h with
  | refl => rfl
  | tail _ hstep ih =>
    obtain ⟨receivers, rfl⟩ := hstep
    exact ih

theorem Published.mem_pending (h : Published q q') (hn : n ∈ q.pending k) : n ∈ q'.pending k := by
  induction h with
  | refl => exact hn
  | tail _ hstep ih =>
    obtain ⟨receivers, rfl⟩ := hstep
    exact Or.inl ih

/-- What is pending afterwards was so before, or is new. -/
theorem Published.pending_cases (h : Published q q') (hn : n ∈ q'.pending k) :
    n ∈ q.pending k ∨ q.last < n ∧ n ≤ q'.last := by
  induction h with
  | refl => exact Or.inl hn
  | @tail r _ hsteps hstep ih =>
    obtain ⟨receivers, rfl⟩ := hstep
    have hle := Published.last_le hsteps
    rcases hn with hn | ⟨-, rfl⟩
    · rcases ih hn with hn | ⟨hlt, hn⟩
      · exact Or.inl hn
      · exact Or.inr ⟨hlt, Nat.le_succ_of_le hn⟩
    · exact Or.inr ⟨Nat.lt_succ_of_le hle, Nat.le_refl _⟩

/-! ## The order of a queue -/

/-- Every entry has a number given out, and the finished ones come before the pending ones. -/
structure InOrder (q : Queues κ) : Prop where
  pending_le : ∀ k, ∀ n ∈ q.pending k, n ≤ q.last
  finished_le : ∀ k, ∀ m ∈ q.finished k, m ≤ q.last
  finished_lt : ∀ k, ∀ m ∈ q.finished k, ∀ n ∈ q.pending k, m < n

theorem Step.inOrder (hq : q.InOrder) (h : q.Step q') : q'.InOrder := by
  cases h with
  | publish h =>
    have hle := Published.last_le h
    have hfinished := Published.finished h
    refine ⟨?_, ?_, ?_⟩
    · intro k n hn
      rcases Published.pending_cases h hn with hn | ⟨-, hn⟩
      · exact (hq.pending_le k n hn).trans hle
      · exact hn
    · intro k m hm
      exact (hq.finished_le k m (hfinished ▸ hm)).trans hle
    · intro k m hm n hn
      rw [hfinished] at hm
      rcases Published.pending_cases h hn with hn | ⟨hlt, -⟩
      · exact hq.finished_lt k m hm n hn
      · exact (hq.finished_le k m hm).trans_lt hlt
  | finish k n hhead =>
    refine ⟨?_, ?_, ?_⟩
    · rintro j m ⟨hm, -⟩
      exact hq.pending_le j m hm
    · rintro j m (hm | ⟨rfl, rfl⟩)
      · exact hq.finished_le j m hm
      · exact hq.pending_le j m hhead.1
    · rintro j m (hm | ⟨rfl, rfl⟩) l ⟨hl, hne⟩
      · exact hq.finished_lt j m hm l hl
      · exact lt_of_le_of_ne (hhead.2 hl) fun heq => hne ⟨rfl, heq.symm⟩
  | forget finished hsub =>
    exact ⟨hq.pending_le, fun k m hm => hq.finished_le k m (hsub k hm),
      fun k m hm => hq.finished_lt k m (hsub k hm)⟩

theorem InOrder.drop (hq : q.InOrder) (k : κ) : (q.drop k).InOrder where
  pending_le j n hn := hq.pending_le j n hn.1
  finished_le j m hm := hq.finished_le j m hm.1
  finished_lt j m hm n hn := hq.finished_lt j m hm.1 n hn.1

/-! ## Entries taken by a worker -/

/-- No entry before `n` is pending for `k`, and none will be. -/
structure Claimed (q : Queues κ) (k : κ) (n : ℕ) : Prop where
  le_last : n ≤ q.last
  le_pending : ∀ m ∈ q.pending k, n ≤ m

theorem InOrder.claimed (hq : q.InOrder) (h : IsLeast (q.pending k) n) : q.Claimed k n :=
  ⟨hq.pending_le k n h.1, h.2⟩

/-- A claimed entry that is still pending is the head of its queue. -/
theorem Claimed.isLeast (h : q.Claimed k n) (hn : n ∈ q.pending k) : IsLeast (q.pending k) n :=
  ⟨hn, h.le_pending⟩

theorem Step.claimed (hclaimed : q.Claimed k n) (h : q.Step q') : q'.Claimed k n := by
  cases h with
  | publish h =>
    refine ⟨hclaimed.le_last.trans (Published.last_le h), fun m hm => ?_⟩
    rcases Published.pending_cases h hm with hm | ⟨hlt, -⟩
    · exact hclaimed.le_pending m hm
    · exact hclaimed.le_last.trans hlt.le
  | finish j m hhead => exact ⟨hclaimed.le_last, fun l hl => hclaimed.le_pending l hl.1⟩
  | forget finished hsub => exact ⟨hclaimed.le_last, hclaimed.le_pending⟩

theorem Claimed.drop (h : q.Claimed k n) (j : κ) : (q.drop j).Claimed k n :=
  ⟨h.le_last, fun m hm => h.le_pending m hm.1⟩

/-- A pending entry stays in its queue until it is finished as the head. -/
theorem Step.pending_cases (h : q.Step q') (hn : n ∈ q.pending k) :
    n ∈ q'.pending k ∨ n ∈ q'.finished k ∧ IsLeast (q.pending k) n := by
  cases h with
  | publish h => exact Or.inl (Published.mem_pending h hn)
  | finish j m hhead =>
    by_cases heq : k = j ∧ n = m
    · obtain ⟨rfl, rfl⟩ := heq
      exact Or.inr ⟨Or.inr ⟨rfl, rfl⟩, hhead⟩
    · exact Or.inl ⟨hn, heq⟩
  | forget finished hsub => exact Or.inl hn

/-- An entry is pending once : what is pending and not new was pending before. -/
theorem Step.pending_of_le (h : q.Step q') (hn : n ∈ q'.pending k) (hle : n ≤ q.last) :
    n ∈ q.pending k := by
  cases h with
  | publish h =>
    rcases Published.pending_cases h hn with hn | ⟨hlt, -⟩
    · exact hn
    · omega
  | finish j m hhead => exact hn.1
  | forget finished hsub => exact hn

end Queues
