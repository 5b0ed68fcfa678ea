import Mathlib.Data.List.Induction
import Mathlib.Data.List.Nodup

/-!
# Order of first appearance

The different elements of a list, in the order in which they first appear, and their numbers in
that order, from one on. An element is before another exactly when it appears first
(`pairwise_firstAppearances`).
-/

namespace FirstAppearances

variable {α : Type} [DecidableEq α] {l : List α} {a b : α}

/-- Add an element at the end unless it is there. -/
def push (seen : List α) (a : α) : List α := if a ∈ seen then seen else seen ++ [a]

def firstAppearances (l : List α) : List α := l.foldl push []

theorem firstAppearances_concat :
    firstAppearances (l ++ [a]) = push (firstAppearances l) a := by
  rw [firstAppearances, List.foldl_append]
  rfl

theorem mem_firstAppearances : a ∈ firstAppearances l ↔ a ∈ l := by
  induction l using List.reverseRecOn with
  | nil => rfl
  | append_singleton l b ih =>
    rw [firstAppearances_concat, push, List.mem_append, List.mem_singleton, ← ih]
    by_cases hb : b ∈ firstAppearances l
    · rw [if_pos hb]
      refine ⟨Or.inl, ?_⟩
      rintro (h | rfl)
      · exact h
      · exact hb
    · rw [if_neg hb, List.mem_append, List.mem_singleton]

theorem nodup_firstAppearances (l : List α) : (firstAppearances l).Nodup := by
  induction l using List.reverseRecOn with
  | nil => exact List.nodup_nil
  | append_singleton l b ih =>
    rw [firstAppearances_concat, push]
    by_cases hb : b ∈ firstAppearances l
    · rwa [if_pos hb]
    · rw [if_neg hb]
      exact List.nodup_append.mpr ⟨ih, List.nodup_singleton b,
        fun x hx y hy => fun heq => hb (List.mem_singleton.mp hy ▸ heq ▸ hx)⟩

/-- The order is that of the first appearances in the list. -/
theorem pairwise_firstAppearances (l : List α) :
    (firstAppearances l).Pairwise fun a b => l.idxOf a < l.idxOf b := by
  induction l using List.reverseRecOn with
  | nil => exact List.Pairwise.nil
  | append_singleton l c ih =>
    have hold : (firstAppearances l).Pairwise fun a b =>
        (l ++ [c]).idxOf a < (l ++ [c]).idxOf b := by
      refine ih.imp_of_mem fun ha hb hlt => ?_
      rwa [List.idxOf_append_of_mem (mem_firstAppearances.mp ha),
        List.idxOf_append_of_mem (mem_firstAppearances.mp hb)]
    rw [firstAppearances_concat, push]
    by_cases hc : c ∈ firstAppearances l
    · rwa [if_pos hc]
    · rw [if_neg hc]
      refine List.pairwise_append.mpr ⟨hold, List.pairwise_singleton _ _, fun a ha b hb => ?_⟩
      have ha := mem_firstAppearances.mp ha
      have hlt := List.idxOf_lt_length_of_mem ha
      rw [List.mem_singleton.mp hb, List.idxOf_append_of_mem ha,
        List.idxOf_append_of_notMem (mem_firstAppearances.not.mp hc)]
      omega

theorem firstAppearances_eq_eraseDups : firstAppearances l = l.eraseDups := by
  have hloop : ∀ seen : List α,
      List.eraseDupsBy.loop (· == ·) l seen = l.foldl push seen.reverse := by
    induction l with
    | nil => exact fun seen => rfl
    | cons b l ih =>
      intro seen
      rw [List.eraseDupsBy.loop, List.foldl_cons, push]
      by_cases hb : b ∈ seen
      · have hany : (seen.any fun c => b == c) = true := by simpa using hb
        rw [hany, if_pos (List.mem_reverse.mpr hb)]
        exact ih seen
      · have hany : (seen.any fun c => b == c) = false := by
          rw [List.any_eq_false]
          exact fun c hc heq => hb (beq_iff_eq.mp heq ▸ hc)
        rw [hany, if_neg (List.mem_reverse.not.mpr hb), ← List.reverse_cons]
        exact ih (b :: seen)
  exact (hloop []).symm

/-! ## Numbers -/

/-- The elements with their numbers, from one on. -/
def numbered (l : List α) : List (α × ℕ) := l.zipIdx.map fun entry => (entry.1, entry.2 + 1)

theorem lookup_numbered (h : a ∈ l) : (numbered l).lookup a = some (l.idxOf a + 1) := by
  have hfrom : ∀ k, (((l.zipIdx k).map fun entry => (entry.1, entry.2 + 1)).lookup a) =
      some (l.idxOf a + k + 1) := by
    induction l with
    | nil => cases h
    | cons b l ih =>
      intro k
      rw [List.zipIdx_cons, List.map_cons, List.lookup_cons]
      by_cases hab : a = b
      · simp [hab]
      · have ha : a ∈ l := (List.mem_cons.mp h).resolve_left hab
        rw [beq_false_of_ne hab, List.idxOf_cons_ne l fun heq => hab heq.symm]
        simp only
        rw [ih ha]
        congr 1
        omega
  exact hfrom 0

/-- Of a sublist that keeps the order, the numbers are in the order of first appearance. -/
theorem idxOf_lt_iff {order : α → ℕ} (h : l.Pairwise fun a b => order a < order b) (ha : a ∈ l)
    (hb : b ∈ l) : l.idxOf a < l.idxOf b ↔ order a < order b := by
  have hforward : ∀ {x y : α}, x ∈ l → y ∈ l → l.idxOf x < l.idxOf y → order x < order y := by
    intro x y hx hy hlt
    have hpair := List.pairwise_iff_getElem.mp h (l.idxOf x) (l.idxOf y)
      (List.idxOf_lt_length_of_mem hx) (List.idxOf_lt_length_of_mem hy) hlt
    rwa [List.getElem_idxOf, List.getElem_idxOf] at hpair
  refine ⟨hforward ha hb, fun hlt => ?_⟩
  rcases Nat.lt_trichotomy (l.idxOf a) (l.idxOf b) with hidx | hidx | hidx
  · exact hidx
  · rw [(List.idxOf_inj ha).mp hidx] at hlt
    omega
  · have hgt := hforward hb ha hidx
    omega

end FirstAppearances
