import Mathlib.Algebra.Order.Ring.Int
import Mathlib.Data.List.Infix
import Mathlib.Order.Bounds.Basic

/-!
# Longest common subsequences

The length of a longest common subsequence of two lists, by the usual recursion on their heads,
and the table of these lengths for all pairs of suffixes, computed from the shortest suffixes
on. The recursion gives the greatest length of a common sublist (`isGreatest_lcsLength`), and
the table agrees with it at every place (`getElem_lcsTable`).
-/

namespace CommonSublist

variable {α : Type} [DecidableEq α] {a b x : α} {l l' c : List α}

/-! ## The length -/

/-- The length of a longest common subsequence. -/
def lcsLength : List α → List α → ℕ
  | [], _ => 0
  | _ :: _, [] => 0
  | a :: l, b :: l' =>
    if a = b then lcsLength l l' + 1 else max (lcsLength l (b :: l')) (lcsLength (a :: l) l')
termination_by l l' => l.length + l'.length

@[simp] theorem lcsLength_nil_left : lcsLength [] l' = 0 := by
  simp [lcsLength]

@[simp] theorem lcsLength_nil_right : lcsLength l [] = 0 := by
  cases l <;> simp [lcsLength]

@[simp] theorem lcsLength_cons_self : lcsLength (a :: l) (a :: l') = lcsLength l l' + 1 := by
  simp [lcsLength]

theorem lcsLength_cons_of_ne (h : a ≠ b) :
    lcsLength (a :: l) (b :: l') = max (lcsLength l (b :: l')) (lcsLength (a :: l) l') := by
  simp [lcsLength, h]

omit [DecidableEq α] in
/-- Behind the head of a sublist comes a sublist of what is behind the head of the list. -/
theorem sublist_of_cons_cons (h : (x :: c).Sublist (a :: l)) : c.Sublist l := by
  rcases List.sublist_cons_iff.mp h with h | ⟨r, hr, hl⟩
  · exact (List.sublist_cons_self x c).trans h
  · rw [(List.cons.inj hr).2]
    exact hl

omit [DecidableEq α] in
theorem sublist_of_cons_of_ne (h : (x :: c).Sublist (a :: l)) (hne : x ≠ a) :
    (x :: c).Sublist l := by
  rcases List.sublist_cons_iff.mp h with h | ⟨r, hr, -⟩
  · exact h
  · exact absurd (List.cons.inj hr).1 hne

/-- No common sublist is longer. -/
theorem length_le_lcsLength (hl : c.Sublist l) (hl' : c.Sublist l') :
    c.length ≤ lcsLength l l' := by
  induction l, l' using lcsLength.induct generalizing c with
  | case1 l' => simp [List.sublist_nil.mp hl]
  | case2 a l => simp [List.sublist_nil.mp hl']
  | case3 l a l' ih =>
    rw [lcsLength_cons_self]
    rcases c with - | ⟨x, c⟩
    · simp
    · have hle := ih (sublist_of_cons_cons hl) (sublist_of_cons_cons hl')
      simp only [List.length_cons]
      omega
  | case4 a l b l' hne ihl ihl' =>
    rw [lcsLength_cons_of_ne hne]
    rcases c with - | ⟨x, c⟩
    · simp
    · by_cases hx : x = a
      · have hle := ihl' hl (sublist_of_cons_of_ne hl' (hx ▸ hne))
        omega
      · have hle := ihl (sublist_of_cons_of_ne hl hx) hl'
        omega

/-- A common sublist has this length. -/
theorem exists_length_eq_lcsLength (l l' : List α) :
    ∃ c : List α, c.Sublist l ∧ c.Sublist l' ∧ c.length = lcsLength l l' := by
  induction l, l' using lcsLength.induct with
  | case1 l' => exact ⟨[], List.nil_sublist _, List.nil_sublist _, by simp⟩
  | case2 a l => exact ⟨[], List.nil_sublist _, List.nil_sublist _, by simp⟩
  | case3 l a l' ih =>
    obtain ⟨c, hl, hl', hlength⟩ := ih
    exact ⟨a :: c, hl.cons_cons a, hl'.cons_cons a, by simp [hlength]⟩
  | case4 a l b l' hne ihl ihl' =>
    rw [lcsLength_cons_of_ne hne]
    rcases max_cases (lcsLength l (b :: l')) (lcsLength (a :: l) l') with ⟨hmax, -⟩ | ⟨hmax, -⟩
    · obtain ⟨c, hl, hl', hlength⟩ := ihl
      exact ⟨c, hl.cons a, hl', by rw [hmax, hlength]⟩
    · obtain ⟨c, hl, hl', hlength⟩ := ihl'
      exact ⟨c, hl, hl'.cons b, by rw [hmax, hlength]⟩

theorem isGreatest_lcsLength (l l' : List α) :
    IsGreatest {n | ∃ c : List α, c.Sublist l ∧ c.Sublist l' ∧ c.length = n} (lcsLength l l') := by
  refine ⟨exists_length_eq_lcsLength l l', ?_⟩
  rintro n ⟨c, hl, hl', rfl⟩
  exact length_le_lcsLength hl hl'

/-! ## The table -/

/-- A row of the table for a suffix with the head `a`, from the row below it. -/
def lcsRow (a : α) : List α → List ℕ → List ℕ
  | [], _ => [0]
  | b :: l', below =>
    let right := lcsRow a l' below.tail
    (if a = b then below.tail.headD 0 + 1 else max (below.headD 0) (right.headD 0)) :: right

/-- The lengths for the suffixes of both lists, a row for each suffix of the first. -/
def lcsTable : List α → List α → List (List ℕ)
  | [], l' => [List.replicate (l'.length + 1) 0]
  | a :: l, l' =>
    let below := lcsTable l l'
    lcsRow a l' (below.headD []) :: below

/-- The row of a list, read off the recursion. -/
def suffixLengths (l l' : List α) : List ℕ := l'.tails.map (lcsLength l)

theorem lcsRow_suffixLengths :
    lcsRow a l' (suffixLengths l l') = suffixLengths (a :: l) l' := by
  induction l' with
  | nil => simp [lcsRow, suffixLengths]
  | cons b l' ih =>
    have htail : (suffixLengths l (b :: l')).tail = suffixLengths l l' := by simp [suffixLengths]
    have hhead : ∀ m : List α, (suffixLengths m l').headD 0 = lcsLength m l' := by
      intro m
      cases l' <;> simp [suffixLengths]
    simp only [lcsRow]
    rw [htail, ih, hhead, hhead]
    by_cases hab : a = b
    · simp [suffixLengths, hab]
    · simp [suffixLengths, hab, lcsLength_cons_of_ne]

theorem lcsTable_eq : lcsTable l l' = l.tails.map fun m => suffixLengths m l' := by
  induction l with
  | nil =>
    have hzero : suffixLengths ([] : List α) l' = List.replicate (l'.length + 1) 0 := by
      rw [List.eq_replicate_iff]
      simp [suffixLengths, List.length_tails]
    simp [lcsTable, hzero]
  | cons a l ih =>
    have hhead : (lcsTable l l').headD [] = suffixLengths l l' := by
      rw [ih]
      cases l <;> simp
    simp only [lcsTable]
    rw [hhead, lcsRow_suffixLengths, ih]
    simp

/-- A place of the table is the length for the suffixes that start there. -/
theorem getElem_lcsTable {i j : ℕ} (hi : i ≤ l.length) (hj : j ≤ l'.length) :
    ((lcsTable l l').getD i []).getD j 0 = lcsLength (l.drop i) (l'.drop j) := by
  have hrow : (lcsTable l l').getD i [] = suffixLengths (l.drop i) l' := by
    have hlt : i < l.tails.length := by
      rw [List.length_tails]
      omega
    rw [lcsTable_eq, List.getD_eq_getElem?_getD, List.getElem?_map, List.getElem?_eq_getElem hlt,
      List.getElem_tails]
    rfl
  have hlt : j < l'.tails.length := by
    rw [List.length_tails]
    omega
  rw [hrow, suffixLengths, List.getD_eq_getElem?_getD, List.getElem?_map,
    List.getElem?_eq_getElem hlt, List.getElem_tails]
  rfl

end CommonSublist
