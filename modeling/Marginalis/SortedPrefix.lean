import Mathlib.Data.List.Basic
import Mathlib.Data.List.TakeWhile

/-!
# Prefixes of sorted lists

In a sorted list the elements below a bound come first, so that taking or dropping while the
elements are below it selects them all.
-/

namespace SortedPrefix

variable {α : Type*} {p : α → Bool} {l : List α}

/-- What holds of an element holds of those before it. -/
def Falling (p : α → Bool) (l : List α) : Prop := l.Pairwise fun a b => p b = true → p a = true

theorem falling_of_sorted [Preorder α] (h : l.Pairwise (· ≤ ·))
    (hp : ∀ a b, a ≤ b → p b = true → p a = true) : Falling p l :=
  h.imp fun hle => hp _ _ hle

theorem takeWhile_eq_filter (h : Falling p l) : l.takeWhile p = l.filter p := by
  induction l with
  | nil => rfl
  | cons a l ih =>
    rw [Falling, List.pairwise_cons] at h
    rw [List.takeWhile_cons, List.filter_cons]
    split_ifs with ha
    · rw [ih h.2]
    · exact (List.filter_eq_nil_iff.mpr fun b hb hpb => ha (h.1 b hb hpb)).symm

theorem dropWhile_eq_filter (h : Falling p l) : l.dropWhile p = l.filter fun a => !p a := by
  induction l with
  | nil => rfl
  | cons a l ih =>
    rw [Falling, List.pairwise_cons] at h
    rw [List.dropWhile_cons, List.filter_cons]
    by_cases ha : p a = true
    · rw [if_pos ha, if_neg (by simp [ha]), ih h.2]
    · have hnone : ∀ b ∈ l, (!p b) = true := fun b hb => by
        simpa using fun hpb => ha (h.1 b hb hpb)
      rw [if_neg ha, if_pos (by simpa using ha), List.filter_eq_self.mpr hnone]

end SortedPrefix
