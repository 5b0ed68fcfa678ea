import Mathlib.Order.Monotone.Basic
import Mathlib.Order.WellFounded

/-!
# Ranges of ranked positions

Entries in a linear order have a start and a rank each, as headings of a text have a line and a
level. The range of an entry ends before the start of the next entry whose rank is at most its
own, and at the end of everything when there is none (`EndsAt`). The parent of an entry is the
nearest entry before it of a smaller rank (`Parent`).

Whatever the ranks are, the ranges are a forest : a child lies inside its parent
(`Ranges.child`), entries of one parent are apart and in order (`Ranges.siblings`), and of any
two ranges the second is after the first or inside it (`Ranges.laminar`).
-/

namespace RankedRanges

variable {ι α : Type*} [LinearOrder ι] [LinearOrder α]

/-! ## Closing entries and parents -/

/-- `j` is the next entry after `i` whose rank is at most that of `i`. -/
def Closes (rank : ι → α) (i j : ι) : Prop :=
  i < j ∧ rank j ≤ rank i ∧ ∀ k, i < k → k < j → rank i < rank k

/-- `i` is the nearest entry before `j` whose rank is smaller. -/
def Parent (rank : ι → α) (i j : ι) : Prop :=
  i < j ∧ rank i < rank j ∧ ∀ k, i < k → k < j → rank j ≤ rank k

/-- Entries that have the same parent, or none. -/
def Siblings (rank : ι → α) (i j : ι) : Prop := ∀ p, Parent rank p i ↔ Parent rank p j

/-- No entry after `i`, up to `j`, has a rank that is at most that of `i`. -/
def Below (rank : ι → α) (i j : ι) : Prop := i < j ∧ ∀ k, i < k → k ≤ j → rank i < rank k

/-- The range of `i` ends at `stop`. -/
def EndsAt (start : ι → ℕ) (rank : ι → α) (total : ℕ) (i : ι) (stop : ℕ) : Prop :=
  (∃ j, Closes rank i j ∧ stop + 1 = start j) ∨ (∀ j, i < j → rank i < rank j) ∧ stop = total

/-- Ranges of entries that start one after the other. -/
structure Ranges (start stop : ι → ℕ) (rank : ι → α) (total : ℕ) : Prop where
  starts : StrictMono start
  start_le : ∀ i, start i ≤ total
  ends : ∀ i, EndsAt start rank total i (stop i)

variable {start stop : ι → ℕ} {rank : ι → α} {total : ℕ} {i j k : ι}

theorem Parent.below (h : Parent rank i j) : Below rank i j := by
  obtain ⟨hlt, hrank, hbetween⟩ := h
  refine ⟨hlt, fun k hik hkj => ?_⟩
  rcases hkj.lt_or_eq with hkj | rfl
  · exact hrank.trans_le (hbetween k hik hkj)
  · exact hrank

/-- A range is closed by an entry between it and any entry that does not rank below it. -/
theorem exists_closes [WellFoundedLT ι] (hij : i < j) (hrank : rank j ≤ rank i) :
    ∃ k ≤ j, Closes rank i k := by
  obtain ⟨k, ⟨hik, hk⟩, hmin⟩ :=
    (wellFounded_lt (α := ι)).has_min {k | i < k ∧ rank k ≤ rank i} ⟨j, hij, hrank⟩
  refine ⟨k, not_lt.mp (hmin j ⟨hij, hrank⟩), hik, hk, fun m him hmk => ?_⟩
  exact not_le.mp fun hm => hmin m ⟨him, hm⟩ hmk

/-- An entry that follows one of a smaller rank has a parent, which is not before that one. -/
theorem exists_parent [WellFoundedGT ι] (hij : i < j) (hrank : rank i < rank j) :
    ∃ p, i ≤ p ∧ Parent rank p j := by
  obtain ⟨p, ⟨hpj, hp⟩, hmax⟩ :=
    (wellFounded_gt (α := ι)).has_min {p | p < j ∧ rank p < rank j} ⟨i, hij, hrank⟩
  refine ⟨p, not_lt.mp (hmax i ⟨hij, hrank⟩), hpj, hp, fun m hpm hmj => ?_⟩
  exact not_lt.mp fun hm => hmax m ⟨hmj, hm⟩ hpm

/-- Entries are apart or below one another. -/
theorem below_or_exists_closes [WellFoundedLT ι] (rank : ι → α) (hij : i < j) :
    Below rank i j ∨ ∃ k ≤ j, Closes rank i k := by
  by_cases h : ∀ k, i < k → k ≤ j → rank i < rank k
  · exact .inl ⟨hij, h⟩
  · push Not at h
    obtain ⟨m, him, hmj, hm⟩ := h
    obtain ⟨k, hkm, hk⟩ := exists_closes him hm
    exact .inr ⟨k, hkm.trans hmj, hk⟩

/-- Siblings do not rank below one another. -/
theorem Siblings.not_below [WellFoundedGT ι] (h : Siblings rank i j) : ¬Below rank i j := by
  rintro ⟨hij, hbelow⟩
  obtain ⟨p, hip, hp⟩ := exists_parent hij (hbelow j hij le_rfl)
  exact absurd ((h p).mpr hp).1 (not_lt.mpr hip)

/-! ## The ranges -/

namespace Ranges

/-- The entry that closes a range is unique. -/
theorem stop_of_closes (h : Ranges start stop rank total) (hk : Closes rank i k) :
    stop i + 1 = start k := by
  rcases h.ends i with ⟨j, hj, hstop⟩ | ⟨hlast, -⟩
  · rcases lt_trichotomy j k with hjk | rfl | hkj
    · exact absurd hj.2.1 (not_le.mpr (hk.2.2 j hj.1 hjk))
    · exact hstop
    · exact absurd hk.2.1 (not_le.mpr (hj.2.2 k hk.1 hkj))
  · exact absurd hk.2.1 (not_le.mpr (hlast k hk.1))

theorem start_le_stop (h : Ranges start stop rank total) (i : ι) : start i ≤ stop i := by
  rcases h.ends i with ⟨j, hj, hstop⟩ | ⟨-, hstop⟩
  · have := h.starts hj.1
    omega
  · exact (h.start_le i).trans_eq hstop.symm

theorem stop_le (h : Ranges start stop rank total) (i : ι) : stop i ≤ total := by
  rcases h.ends i with ⟨j, -, hstop⟩ | ⟨-, hstop⟩
  · have := h.start_le j
    omega
  · exact hstop.le

/-- A range ends before every entry at which it is closed already. -/
theorem stop_lt (h : Ranges start stop rank total) (hk : Closes rank i k) (hkj : k ≤ j) :
    stop i < start j := by
  have hstop := h.stop_of_closes hk
  have := h.starts.monotone hkj
  omega

/-- What is below an entry lies inside its range. -/
theorem stop_le_of_below [WellFoundedLT ι] (h : Ranges start stop rank total)
    (hbelow : Below rank i j) : stop j ≤ stop i := by
  rcases h.ends i with ⟨k, hk, hstop⟩ | ⟨-, hstop⟩
  · have hjk : j < k := by
      by_contra hkj
      exact absurd hk.2.1 (not_le.mpr (hbelow.2 k hk.1 (not_lt.mp hkj)))
    have hrank : rank k ≤ rank j := hk.2.1.trans (hbelow.2 j hbelow.1 le_rfl).le
    obtain ⟨m, hmk, hm⟩ := exists_closes hjk hrank
    have := h.stop_lt hm hmk
    omega
  · rw [hstop]
    exact h.stop_le j

/-- A child's range lies inside its parent's. -/
theorem child [WellFoundedLT ι] (h : Ranges start stop rank total) (hparent : Parent rank i j) :
    start i < start j ∧ stop j ≤ stop i :=
  ⟨h.starts hparent.1, h.stop_le_of_below hparent.below⟩

/-- Of two ranges, the later one is after the other or inside it. -/
theorem laminar [WellFoundedLT ι] (h : Ranges start stop rank total) (hij : i < j) :
    stop i < start j ∨ start i < start j ∧ stop j ≤ stop i := by
  rcases below_or_exists_closes rank hij with hbelow | ⟨k, hkj, hk⟩
  · exact .inr ⟨h.starts hij, h.stop_le_of_below hbelow⟩
  · exact .inl (h.stop_lt hk hkj)

/-- Ranges of siblings are disjoint and in order. -/
theorem siblings [WellFoundedLT ι] [WellFoundedGT ι] (h : Ranges start stop rank total)
    (hsiblings : Siblings rank i j) (hij : i < j) : stop i < start j := by
  rcases below_or_exists_closes rank hij with hbelow | ⟨k, hkj, hk⟩
  · exact absurd hbelow hsiblings.not_below
  · exact h.stop_lt hk hkj

end Ranges

end RankedRanges
