import Mathlib.Algebra.BigOperators.Group.List.Basic
import Mathlib.Algebra.GroupWithZero.Nat
import Mathlib.Algebra.Order.BigOperators.Group.List
import Mathlib.Data.List.Induction
import Mathlib.Data.List.Nodup
import Mathlib.Data.List.Perm.Basic

/-!
# Elements that fit the ones before them

A loop that checks each element of a list against those it has already seen accepts the list when
every element fits the elements before it (`List.EachAfter`). What such a loop asks for is mostly
about the list as a whole : a property of every element (`eachAfter_forall`), a relation between
any two of them (`eachAfter_pairwise`), keys that differ (`eachAfter_notMem`), a bound on what the
elements of each group add up to (`eachAfter_sum_le`).
-/

namespace List

universe u

variable {α κ : Type*} {P Q : List α → α → Prop} {p : α → Prop} {R : α → α → Prop} {l : List α}
  {a : α}

/-- Every element fits the ones before it. -/
def EachAfter (P : List α → α → Prop) (l : List α) : Prop :=
  ∀ before a after, l = before ++ a :: after → P before a

theorem eachAfter_nil : EachAfter P [] := by
  intro before a after h
  simp at h

theorem eachAfter_cons : EachAfter P (a :: l) ↔
    P [] a ∧ EachAfter (fun before b => P (a :: before) b) l := by
  constructor
  · intro h
    exact ⟨h [] a l rfl, fun before b after hl => h (a :: before) b after (by rw [hl]; rfl)⟩
  · rintro ⟨ha, hl⟩ before b after h
    cases before with
    | nil =>
      obtain ⟨rfl, -⟩ := List.cons.inj h
      exact ha
    | cons c before =>
      obtain ⟨rfl, hrest⟩ := List.cons.inj h
      exact hl before b after hrest

/-- The last element is the one that comes after all others. -/
theorem eachAfter_concat : EachAfter P (l ++ [a]) ↔ EachAfter P l ∧ P l a := by
  constructor
  · intro h
    exact ⟨fun before b after hl => h before b (after ++ [a]) (by simp [hl]), h l a [] rfl⟩
  · rintro ⟨hl, ha⟩ before b after h
    rcases List.eq_nil_or_concat after with rfl | ⟨rest, c, rfl⟩
    · obtain ⟨rfl, hb⟩ := List.append_inj' h rfl
      rw [← List.singleton_inj.mp hb]
      exact ha
    · have hsplit : l ++ [a] = (before ++ b :: rest) ++ [c] := by
        rw [h]
        simp
      exact hl before b rest (List.append_inj' hsplit rfl).1

theorem eachAfter_and :
    EachAfter (fun before a => P before a ∧ Q before a) l ↔ EachAfter P l ∧ EachAfter Q l :=
  ⟨fun h => ⟨fun _ _ _ hl => (h _ _ _ hl).1, fun _ _ _ hl => (h _ _ _ hl).2⟩,
    fun h _ _ _ hl => ⟨h.1 _ _ _ hl, h.2 _ _ _ hl⟩⟩

theorem eachAfter_forall : EachAfter (fun _ a => p a) l ↔ ∀ a ∈ l, p a := by
  induction l using List.reverseRecOn with
  | nil => simp [eachAfter_nil]
  | append_singleton l a ih =>
    rw [eachAfter_concat, ih]
    simp [or_imp, forall_and]

theorem eachAfter_pairwise : EachAfter (fun before a => ∀ b ∈ before, R b a) l ↔ l.Pairwise R := by
  induction l using List.reverseRecOn with
  | nil => simp [eachAfter_nil]
  | append_singleton l a ih =>
    rw [eachAfter_concat, ih, List.pairwise_append]
    simp

theorem eachAfter_notMem {key : α → κ} :
    EachAfter (fun before a => key a ∉ before.map key) l ↔ (l.map key).Nodup := by
  have hne : EachAfter (fun before a => key a ∉ before.map key) l ↔
      EachAfter (fun before a => ∀ b ∈ before, key b ≠ key a) l := by
    simp [EachAfter]
  rw [hne, eachAfter_pairwise, List.Nodup, List.pairwise_map]

/-- A fold passes when each step does, on what the elements before left behind. -/
theorem EachAfter.exists_foldlM {ε : Type*} {σ : Type u} {f : σ → α → Except ε σ}
    {I : List α → σ → Prop} (h : EachAfter P l) (hstep : ∀ before a s, P before a → I before s →
      ∃ t, f s a = .ok t ∧ I (before ++ [a]) t) {s : σ} (hs : I [] s) :
    ∃ t, l.foldlM f s = .ok t ∧ I l t := by
  induction l using List.reverseRecOn with
  | nil => exact ⟨s, rfl, hs⟩
  | append_singleton l a ih =>
    obtain ⟨hl, ha⟩ := eachAfter_concat.mp h
    obtain ⟨t, ht, hI⟩ := ih hl
    obtain ⟨u, hu, hI⟩ := hstep l a t ha hI
    refine ⟨u, ?_, hI⟩
    rw [List.foldlM_append, ht]
    show List.foldlM f t [a] = .ok u
    rw [List.foldlM_cons, hu]
    rfl

/-- A bound that holds at each element of a group holds of the whole group. -/
theorem eachAfter_sum_le [DecidableEq κ] {group : α → κ} {f : α → ℕ} {bound : ℕ} :
    EachAfter (fun before a =>
        ((before.filter fun b => group b = group a).map f).sum + f a ≤ bound) l ↔
      ∀ k, ((l.filter fun b => group b = k).map f).sum ≤ bound := by
  induction l using List.reverseRecOn with
  | nil => simp [eachAfter_nil]
  | append_singleton l a ih =>
    rw [eachAfter_concat, ih]
    constructor
    · rintro ⟨hl, ha⟩ k
      by_cases hk : group a = k
      · simpa [hk] using ha
      · simpa [hk] using hl k
    · intro h
      refine ⟨fun k => ?_, by simpa using h (group a)⟩
      have hk := h k
      rw [List.filter_append, List.map_append, List.sum_append] at hk
      omega

/-- The same for the number of elements of a group. -/
theorem eachAfter_length_le [DecidableEq κ] {group : α → κ} {bound : ℕ} :
    EachAfter (fun before a => (before.filter fun b => group b = group a).length + 1 ≤ bound) l ↔
      ∀ k, (l.filter fun b => group b = k).length ≤ bound := by
  simpa using eachAfter_sum_le (f := fun _ => 1)

end List
