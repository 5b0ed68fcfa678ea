import Mathlib.Data.List.Basic
import Mathlib.Data.List.Destutter
import Mathlib.Data.List.Nodup
import Mathlib.Data.List.Sort

/-!
# Tables with a primary key

A relational table is a finite set of rows in which no two rows share their primary
key. `Table` carries that constraint as a field, so a violation can not be stored :
`insert?` refuses a row whose key is taken, `upsert` is
`INSERT … ON CONFLICT (key) DO UPDATE`, `modify` is an `UPDATE` that leaves the key
alone and `deleteWhere` is a `DELETE`.

Every operation comes with what it does to membership and to a look-up by key
(`find_upsert`, `find_modify`, `find_deleteWhere`, …). The rest of a development reads a
table through these two and never unfolds the row list.
-/

/-- A row type together with its primary key. -/
class Keyed (ρ : Type*) (κ : outParam Type*) where
  /-- The primary key of a row. -/
  key : ρ → κ

/-- Rows with pairwise distinct primary keys. -/
structure Table (ρ : Type*) {κ : Type*} [Keyed ρ κ] where
  rows : List ρ
  nodup : (rows.map Keyed.key).Nodup

namespace Table

open Keyed

variable {ρ κ : Type*} [Keyed ρ κ] {t : Table ρ} {r s : ρ} {k : κ}

instance : Membership ρ (Table ρ) := ⟨fun t r => r ∈ t.rows⟩

theorem mem_def : r ∈ t ↔ r ∈ t.rows := Iff.rfl

instance [DecidableEq ρ] : Decidable (r ∈ t) := inferInstanceAs (Decidable (r ∈ t.rows))

instance {p : ρ → Prop} [DecidablePred p] : Decidable (∀ r ∈ t, p r) :=
  inferInstanceAs (Decidable (∀ r ∈ t.rows, p r))

instance {p : ρ → Prop} [DecidablePred p] : Decidable (∃ r ∈ t, p r) :=
  inferInstanceAs (Decidable (∃ r ∈ t.rows, p r))

/-- The table without rows. -/
def empty : Table ρ := ⟨[], by simp⟩

@[simp] theorem not_mem_empty : r ∉ (empty : Table ρ) := List.not_mem_nil

/-- Two rows of a table with the same key are the same row. -/
theorem eq_of_key_eq (hr : r ∈ t) (hs : s ∈ t) (h : key r = key s) : r = s :=
  List.inj_on_of_nodup_map t.nodup hr hs h

theorem ext_rows {t u : Table ρ} (h : t.rows = u.rows) : t = u := by
  cases t
  cases u
  simpa using h

/-- A row of a table whose rows were made from elements. -/
theorem mem_map {α : Type*} {row : α → ρ} {l : List α} (ht : t.rows = l.map row) :
    r ∈ t ↔ ∃ a ∈ l, row a = r := by
  rw [mem_def, ht, List.mem_map]

/-! ## Reading -/

section Find

variable [DecidableEq κ]

/-- The row with key `k`. -/
def find (t : Table ρ) (k : κ) : Option ρ := t.rows.find? fun r => key r = k

theorem find_eq_some : t.find k = some r ↔ r ∈ t ∧ key r = k := by
  constructor
  · intro h
    exact ⟨List.mem_of_find?_eq_some h, by simpa using List.find?_some h⟩
  · rintro ⟨hr, rfl⟩
    unfold find
    cases hf : t.rows.find? fun s => key s = key r with
    | none => simpa using List.find?_eq_none.mp hf r hr
    | some s =>
      have hs : key s = key r := by simpa using List.find?_some hf
      rw [eq_of_key_eq (List.mem_of_find?_eq_some hf) hr hs]

theorem find_eq_none : t.find k = none ↔ ∀ r ∈ t, key r ≠ k := by
  simp [find, mem_def]

theorem find_of_mem (h : r ∈ t) : t.find (key r) = some r := find_eq_some.mpr ⟨h, rfl⟩

theorem mem_of_find (h : t.find k = some r) : r ∈ t := (find_eq_some.mp h).1

theorem key_of_find (h : t.find k = some r) : key r = k := (find_eq_some.mp h).2

@[simp] theorem find_empty : (empty : Table ρ).find k = none := rfl

theorem find_map {α : Type*} {row : α → ρ} {l : List α} {a : α} (ht : t.rows = l.map row)
    (ha : a ∈ l) : t.find (key (row a)) = some (row a) :=
  find_of_mem ((mem_map ht).mpr ⟨a, ha, rfl⟩)

theorem find_congr {u : Table ρ} (h : ∀ r, key r = k → (r ∈ t ↔ r ∈ u)) :
    t.find k = u.find k := by
  ext r
  simp only [find_eq_some]
  constructor
  · rintro ⟨hr, hk⟩
    exact ⟨(h r hk).mp hr, hk⟩
  · rintro ⟨hr, hk⟩
    exact ⟨(h r hk).mpr hr, hk⟩

end Find

/-- The rows that satisfy `p`, in table order. -/
def select (t : Table ρ) (p : ρ → Bool) : List ρ := t.rows.filter p

@[simp] theorem mem_select {p : ρ → Bool} : r ∈ t.select p ↔ r ∈ t ∧ p r = true := by
  simp [select, mem_def]

theorem nodup_select {p : ρ → Bool} : ((t.select p).map key).Nodup :=
  t.nodup.sublist (List.filter_sublist.map _)

/-- Two selections of the same rows, each in the order of its table. -/
theorem select_perm {u : Table ρ} {p q : ρ → Bool}
    (h : ∀ r, r ∈ t ∧ p r = true ↔ r ∈ u ∧ q r = true) : (t.select p).Perm (u.select q) := by
  refine (List.perm_ext_iff_of_nodup nodup_select.of_map nodup_select.of_map).mpr fun r => ?_
  rw [mem_select, mem_select, h r]

section OrderBy

variable {α ω : Type*} [LinearOrder ω] {g : α → ω} {l l' : List α} {a : α}

/-- `ORDER BY g`. -/
def orderBy (g : α → ω) (l : List α) : List α := l.insertionSort fun a b => g a ≤ g b

@[simp] theorem mem_orderBy : a ∈ orderBy g l ↔ a ∈ l := List.mem_insertionSort _

theorem orderBy_perm : (orderBy g l).Perm l := List.perm_insertionSort _ _

theorem pairwise_orderBy : (orderBy g l).Pairwise fun a b => g a ≤ g b := by
  have htotal : Std.Total fun a b => g a ≤ g b := ⟨fun a b => le_total (g a) (g b)⟩
  have htrans : IsTrans α fun a b => g a ≤ g b := ⟨fun _ _ _ => le_trans⟩
  exact List.pairwise_insertionSort _ l

/-- A list that is in order stays as it is. -/
theorem orderBy_eq_self (h : l.Pairwise fun a b => g a ≤ g b) : orderBy g l = l := by
  have htotal : Std.Total fun a b => g a ≤ g b := ⟨fun a b => le_total (g a) (g b)⟩
  have htrans : IsTrans α fun a b => g a ≤ g b := ⟨fun _ _ _ => le_trans⟩
  exact h.insertionSort_eq

@[simp] theorem orderBy_orderBy : orderBy g (orderBy g l) = orderBy g l := by
  have htotal : Std.Total fun a b => g a ≤ g b := ⟨fun a b => le_total (g a) (g b)⟩
  have htrans : IsTrans α fun a b => g a ≤ g b := ⟨fun _ _ _ => le_trans⟩
  exact pairwise_orderBy.insertionSort_eq

/-- The sort keys of a mapped list are those of its elements. -/
theorem orderBy_map {β : Type*} {g : β → ω} {f : α → β} :
    orderBy g (l.map f) = (orderBy (fun a => g (f a)) l).map f :=
  (List.map_insertionSort _ _ f l fun _ _ _ _ => Iff.rfl).symm

/-- Only the sort keys of the elements matter. -/
theorem orderBy_key_congr {g' : α → ω} (h : ∀ a ∈ l, g a = g' a) : orderBy g l = orderBy g' l := by
  have hmap := List.map_insertionSort (r := fun a b => g a ≤ g b) (s := fun a b => g' a ≤ g' b)
    id l fun a ha b hb => by rw [h a ha, h b hb]; rfl
  rwa [List.map_id, List.map_id] at hmap

/-- Without its adjacent duplicates a sorted list has none. -/
theorem nodup_destutter [DecidableEq α] (h : l.Pairwise fun a b => g a ≤ g b)
    (hinj : ∀ a b, g a = g b → a = b) : (l.destutter (· ≠ ·)).Nodup := by
  have hsorted := (h.sublist (List.destutter_sublist (· ≠ ·) l)).isChain
  have hne := List.isChain_destutter (· ≠ ·) l
  have hlt : (l.destutter (· ≠ ·)).IsChain fun a b => g a < g b := by
    rw [List.isChain_iff_getElem] at hsorted hne ⊢
    exact fun i hi => lt_of_le_of_ne (hsorted i hi) fun heq => hne i hi (hinj _ _ heq)
  have htrans : IsTrans α fun a b => g a < g b := ⟨fun _ _ _ => lt_trans⟩
  exact (List.isChain_iff_pairwise.mp hlt).imp fun hab heq => by simp [heq] at hab

/-- A sorted list without equal keys whose keys are the numbers of an interval. -/
theorem map_eq_range' {g : α → ℕ} {start n : ℕ} (hsorted : l.Pairwise fun a b => g a ≤ g b)
    (hnodup : (l.map g).Nodup) (hmem : ∀ k, k ∈ l.map g ↔ start ≤ k ∧ k < start + n) :
    l.map g = List.range' start n := by
  have hperm : (l.map g).Perm (List.range' start n) :=
    (List.perm_ext_iff_of_nodup hnodup List.nodup_range').mpr fun k => by
      rw [hmem, List.mem_range'_1]
  refine hperm.eq_of_pairwise (fun _ _ _ _ => le_antisymm) (List.pairwise_map.mpr hsorted) ?_
  exact List.pairwise_le_range'

/-- When no two rows have the same sort key, the result depends on the set of rows only. -/
theorem orderBy_congr (h : l.Perm l') (hinj : ∀ a ∈ l, ∀ b ∈ l, g a = g b → a = b) :
    orderBy g l = orderBy g l' := by
  have hperm : (orderBy g l).Perm (orderBy g l') :=
    (orderBy_perm.trans h).trans orderBy_perm.symm
  refine hperm.eq_of_pairwise (fun a b ha hb hab hba => ?_) pairwise_orderBy pairwise_orderBy
  exact hinj a (mem_orderBy.mp ha) b (h.mem_iff.mpr (mem_orderBy.mp hb)) (le_antisymm hab hba)

/-- Sorting and filtering commute when no two rows have the same sort key. -/
theorem orderBy_filter {p : α → Bool} (hinj : ∀ a ∈ l, ∀ b ∈ l, g a = g b → a = b) :
    orderBy g (l.filter p) = (orderBy g l).filter p := by
  have hperm : (orderBy g (l.filter p)).Perm ((orderBy g l).filter p) :=
    orderBy_perm.trans (orderBy_perm.filter p).symm
  refine hperm.eq_of_pairwise (fun a b ha hb hab hba => ?_) pairwise_orderBy
    (pairwise_orderBy.filter p)
  exact hinj a (List.mem_of_mem_filter (mem_orderBy.mp ha)) b
    (mem_orderBy.mp (List.mem_of_mem_filter hb)) (le_antisymm hab hba)

end OrderBy

/-! ## Writing -/

/-- Delete the rows that satisfy `p`. -/
def deleteWhere (t : Table ρ) (p : ρ → Bool) : Table ρ :=
  ⟨t.rows.filter fun r => !p r, t.nodup.sublist (List.filter_sublist.map _)⟩

@[simp] theorem mem_deleteWhere {p : ρ → Bool} :
    r ∈ t.deleteWhere p ↔ r ∈ t ∧ p r = false := by
  simp [deleteWhere, mem_def]

/-- Update the rows that satisfy `p`. The primary key is not written. -/
def modify (t : Table ρ) (p : ρ → Bool) (f : ρ → ρ) (hf : ∀ r, key (f r) = key r := by
    intro; rfl) : Table ρ :=
  ⟨t.rows.map fun r => if p r then f r else r, by
    rw [List.map_map, List.map_congr_left (g := key)]
    · exact t.nodup
    · intro r _
      by_cases hp : p r <;> simp [hp, hf]⟩

theorem mem_modify {p : ρ → Bool} {f : ρ → ρ} {hf : ∀ r, key (f r) = key r} :
    r ∈ t.modify p f hf ↔ ∃ s ∈ t, r = if p s then f s else s := by
  constructor
  · intro h
    obtain ⟨s, hs, rfl⟩ := List.mem_map.mp h
    exact ⟨s, hs, rfl⟩
  · rintro ⟨s, hs, rfl⟩
    exact List.mem_map.mpr ⟨s, hs, rfl⟩

/-- An update keeps the keys of a table. -/
theorem exists_key_modify {p : ρ → Bool} {f : ρ → ρ} (hf : ∀ r, key (f r) = key r) :
    (∃ s ∈ t.modify p f hf, key s = k) ↔ ∃ r ∈ t, key r = k := by
  have hkey : ∀ r, key (if p r then f r else r) = key r := by
    intro r
    split_ifs
    · exact hf r
    · rfl
  constructor
  · rintro ⟨_, hmem, hk⟩
    obtain ⟨r, hr, rfl⟩ := mem_modify.mp hmem
    exact ⟨r, hr, (hkey r).symm.trans hk⟩
  · rintro ⟨r, hr, hk⟩
    exact ⟨_, mem_modify.mpr ⟨r, hr, rfl⟩, (hkey r).trans hk⟩

section Write

variable [DecidableEq κ]

/-- Insert a row, refused when its key is taken. -/
def insert? (t : Table ρ) (r : ρ) : Option (Table ρ) :=
  if h : key r ∈ t.rows.map key then none
  else some ⟨t.rows ++ [r], by
    rw [List.map_append, List.map_singleton, List.nodup_append]
    exact ⟨t.nodup, List.nodup_singleton _, fun a ha b hb =>
      fun hab => h (List.mem_singleton.mp hb ▸ hab ▸ ha)⟩⟩

/-- Insert a row, or overwrite the row that has its key. -/
def upsert (t : Table ρ) (r : ρ) : Table ρ :=
  ⟨(t.rows.filter fun s => key s ≠ key r) ++ [r], by
    rw [List.map_append, List.map_singleton, List.nodup_append]
    refine ⟨t.nodup.sublist (List.filter_sublist.map _), List.nodup_singleton _, ?_⟩
    rintro a ha b hb rfl
    obtain ⟨s, hs, rfl⟩ := List.mem_map.mp ha
    simp [List.mem_singleton.mp hb] at hs⟩

theorem insert?_eq_some {u : Table ρ} :
    t.insert? r = some u ↔ t.find (key r) = none ∧ u.rows = t.rows ++ [r] := by
  have hn : t.find (key r) = none ↔ key r ∉ t.rows.map key := by
    simp [find_eq_none, mem_def]
  unfold insert?
  split_ifs with h
  · simp [hn, h]
  · simp only [Option.some.injEq, hn, h, not_false_eq_true, true_and]
    constructor
    · rintro rfl
      rfl
    · intro hu
      exact ext_rows hu.symm

theorem exists_insert? (h : t.find (key r) = none) : ∃ u, t.insert? r = some u := by
  unfold insert?
  rw [dif_neg (by simpa [mem_def] using find_eq_none.mp h)]
  exact ⟨_, rfl⟩

/-- A row for an element whose key none of the elements before has. -/
theorem exists_insert?_map {α μ : Type*} {row : α → ρ} {k : α → μ} {before : List α} {a : α}
    (ht : t.rows = before.map row) (hk : ∀ b, key (row a) = key (row b) → k a = k b)
    (ha : k a ∉ before.map k) :
    ∃ u, t.insert? (row a) = some u ∧ u.rows = (before ++ [a]).map row := by
  have hnone : t.find (key (row a)) = none := by
    refine find_eq_none.mpr fun r hr heq => ?_
    rw [mem_def, ht] at hr
    obtain ⟨b, hb, rfl⟩ := List.mem_map.mp hr
    exact ha (List.mem_map.mpr ⟨b, hb, (hk b heq.symm).symm⟩)
  obtain ⟨u, hu⟩ := exists_insert? hnone
  exact ⟨u, hu, by rw [(insert?_eq_some.mp hu).2, ht, List.map_append, List.map_singleton]⟩

theorem mem_insert? {u : Table ρ} (h : t.insert? r = some u) : s ∈ u ↔ s ∈ t ∨ s = r := by
  simp [mem_def, (insert?_eq_some.mp h).2]

theorem find_insert? {u : Table ρ} (h : t.insert? r = some u) (k : κ) :
    u.find k = if key r = k then some r else t.find k := by
  obtain ⟨hn, hu⟩ := insert?_eq_some.mp h
  unfold find at hn ⊢
  rw [hu, List.find?_append]
  split_ifs with hk
  · subst hk
    simp [hn]
  · simp [hk]

@[simp] theorem mem_upsert : s ∈ t.upsert r ↔ s = r ∨ s ∈ t ∧ key s ≠ key r := by
  simp [upsert, mem_def, or_comm]

@[simp] theorem find_upsert (k : κ) :
    (t.upsert r).find k = if key r = k then some r else t.find k := by
  split_ifs with hk
  · exact find_eq_some.mpr ⟨mem_upsert.mpr (Or.inl rfl), hk⟩
  · refine find_congr fun s hs => ?_
    rw [mem_upsert]
    constructor
    · rintro (rfl | ⟨h, -⟩)
      · exact absurd hs hk
      · exact h
    · intro h
      exact Or.inr ⟨h, fun he => hk (he ▸ hs)⟩

/-- A table that answers as after an `upsert` has the rows of one. -/
theorem mem_of_find_replaced {u : Table ρ}
    (h : ∀ k, u.find k = if key r = k then some r else t.find k) :
    s ∈ u ↔ s = r ∨ s ∈ t ∧ key s ≠ key r := by
  have hfind : s ∈ u ↔ u.find (key s) = some s := ⟨find_of_mem, mem_of_find⟩
  have hfind' : s ∈ t.upsert r ↔ (t.upsert r).find (key s) = some s := ⟨find_of_mem, mem_of_find⟩
  rw [← mem_upsert, hfind, hfind', h, find_upsert]

@[simp] theorem find_deleteWhere {p : ρ → Bool} (k : κ) :
    (t.deleteWhere p).find k = (t.find k).filter fun r => !p r := by
  ext r
  simp only [find_eq_some, mem_deleteWhere, Option.filter_eq_some_iff, Bool.not_eq_true']
  tauto

@[simp] theorem find_modify {p : ρ → Bool} {f : ρ → ρ} {hf : ∀ r, key (f r) = key r} (k : κ) :
    (t.modify p f hf).find k = (t.find k).map fun r => if p r then f r else r := by
  ext r
  simp only [find_eq_some, mem_modify, Option.map_eq_some_iff]
  constructor
  · rintro ⟨⟨s, hs, rfl⟩, rfl⟩
    refine ⟨s, ⟨hs, ?_⟩, rfl⟩
    split_ifs <;> simp [hf]
  · rintro ⟨s, ⟨hs, rfl⟩, rfl⟩
    refine ⟨⟨s, hs, rfl⟩, ?_⟩
    split_ifs <;> simp [hf]

/-- Insert or overwrite the rows `rs`, one after the other. -/
def upsertAll (t : Table ρ) (rs : List ρ) : Table ρ := rs.foldl upsert t

/-- When a row is determined by its key, the order of the rows does not matter. -/
theorem find_upsertAll {rs : List ρ} (g : κ → ρ) (hg : ∀ r ∈ rs, r = g (key r)) (k : κ) :
    (t.upsertAll rs).find k = if k ∈ rs.map key then some (g k) else t.find k := by
  induction rs generalizing t with
  | nil => simp [upsertAll]
  | cons r rs ih =>
    have hr : r = g (key r) := hg r (List.mem_cons_self ..)
    have ih := ih (t := t.upsert r) fun s hs => hg s (List.mem_cons_of_mem _ hs)
    unfold upsertAll at ih ⊢
    rw [List.foldl_cons, ih, find_upsert]
    by_cases hk : k ∈ rs.map key
    · simp [hk]
    · by_cases hkr : key r = k
      · subst hkr
        simp [hk, ← hr]
      · simp [hk, hkr, Ne.symm hkr]

theorem mem_upsertAll {rs : List ρ} (g : κ → ρ) (hg : ∀ r ∈ rs, r = g (key r)) :
    s ∈ t.upsertAll rs ↔ s ∈ rs ∨ s ∈ t ∧ key s ∉ rs.map key := by
  have hfind := find_upsertAll (t := t) g hg (key s)
  have hs : s ∈ t.upsertAll rs ↔ (t.upsertAll rs).find (key s) = some s := by
    simp [find_eq_some]
  rw [hs, hfind]
  split_ifs with hk
  · obtain ⟨r, hr, hrk⟩ := List.mem_map.mp hk
    have hrg : r = g (key s) := hrk ▸ hg r hr
    constructor
    · intro h
      exact Or.inl (Option.some.inj h ▸ hrg ▸ hr)
    · rintro (h | ⟨-, h⟩)
      · exact congrArg some (hg s h).symm
      · exact absurd hk h
  · rw [find_eq_some]
    constructor
    · rintro ⟨h, -⟩
      exact Or.inr ⟨h, hk⟩
    · rintro (h | ⟨h, -⟩)
      · exact absurd (List.mem_map_of_mem h) hk
      · exact ⟨h, rfl⟩

@[simp] theorem upsertAll_nil : t.upsertAll [] = t := rfl

end Write

end Table
