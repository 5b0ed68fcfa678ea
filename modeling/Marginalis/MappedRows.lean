import Marginalis.Result
import Marginalis.Table
import Mathlib.Data.List.Forall2
import Mathlib.Data.List.Nodup
import Mathlib.Data.List.Perm.Basic

/-!
# Lists that correspond element by element

A mapped computation that succeeds relates its elements to its results in order
(`Except.mapM_eq_ok`). From there on only the relation matters : what it says of a pair carries
over to members and to the keys of both lists. When the elements were put in some order first,
the results correspond to them up to that order (`List.Corresponds`).
-/

namespace List.Forall₂

variable {α β γ : Type*} {R : α → β → Prop} {l : List α} {l' : List β} {a : α} {b : β}

theorem exists_right (h : Forall₂ R l l') (ha : a ∈ l) : ∃ b ∈ l', R a b := by
  induction h with
  | nil => cases ha
  | cons hab _ ih =>
    rcases List.mem_cons.mp ha with rfl | ha
    · exact ⟨_, List.mem_cons_self, hab⟩
    · obtain ⟨b, hb, hab⟩ := ih ha
      exact ⟨b, List.mem_cons_of_mem _ hb, hab⟩

theorem exists_left (h : Forall₂ R l l') (hb : b ∈ l') : ∃ a ∈ l, R a b :=
  h.flip.exists_right hb

/-- Keys that related elements share are the same lists. -/
theorem map_eq (h : Forall₂ R l l') {f : α → γ} {g : β → γ} (hkey : ∀ a b, R a b → g b = f a) :
    l'.map g = l.map f := by
  induction h with
  | nil => rfl
  | cons hab _ ih => rw [List.map_cons, List.map_cons, hkey _ _ hab, ih]

/-- What is collected from the results is what the elements have. -/
theorem mem_flatMap {f : β → List γ} {P : α → Prop} {c : γ} (h : Forall₂ R l l')
    (hmem : ∀ a ∈ l, ∀ b, R a b → (c ∈ f b ↔ P a)) : c ∈ l'.flatMap f ↔ ∃ a ∈ l, P a := by
  rw [List.mem_flatMap]
  constructor
  · rintro ⟨b, hb, hc⟩
    obtain ⟨a, ha, hab⟩ := h.exists_left hb
    exact ⟨a, ha, (hmem a ha b hab).mp hc⟩
  · rintro ⟨a, ha, hP⟩
    obtain ⟨b, hb, hab⟩ := h.exists_right ha
    exact ⟨b, hb, (hmem a ha b hab).mpr hP⟩

/-- Related elements with equal sort keys are put in the same order. -/
theorem orderBy {ω : Type*} [LinearOrder ω] (h : Forall₂ R l l') {f : α → ω} {g : β → ω}
    (hkey : ∀ a b, R a b → g b = f a) : Forall₂ R (Table.orderBy f l) (Table.orderBy g l') := by
  obtain ⟨hlength, hzip⟩ := List.forall₂_iff_zip.mp h
  have hkeys : Table.orderBy (fun pair : α × β => f pair.1) (l.zip l') =
      Table.orderBy (fun pair => g pair.2) (l.zip l') :=
    Table.orderBy_key_congr fun pair hpair => (hkey _ _ (hzip hpair)).symm
  have hleft : Table.orderBy f l = (Table.orderBy (fun pair => g pair.2) (l.zip l')).map
      Prod.fst := by
    rw [← hkeys, ← Table.orderBy_map, List.map_fst_zip hlength.le]
  have hright : Table.orderBy g l' = (Table.orderBy (fun pair => g pair.2) (l.zip l')).map
      Prod.snd := by
    rw [← Table.orderBy_map, List.map_snd_zip hlength.ge]
  rw [hleft, hright, List.forall₂_map_left_iff, List.forall₂_map_right_iff, List.forall₂_same]
  exact fun pair hpair => hzip (Table.mem_orderBy.mp hpair)

end List.Forall₂

namespace List

variable {α β γ : Type*} {R S : α → β → Prop} {l : List α} {l' : List β} {a : α} {b : β}

/-- A search by a key the elements have each for itself. -/
theorem find?_key_eq_some {κ : Type*} [DecidableEq κ] {f : α → κ} {k : κ}
    (hnodup : (l.map f).Nodup) : l.find? (fun b => f b = k) = some a ↔ a ∈ l ∧ f a = k := by
  constructor
  · intro hfind
    exact ⟨List.mem_of_find?_eq_some hfind, by simpa using List.find?_some hfind⟩
  · rintro ⟨ha, rfl⟩
    cases hfind : l.find? fun b => decide (f b = f a) with
    | none => simpa using List.find?_eq_none.mp hfind a ha
    | some found =>
      have hkey : f found = f a := by simpa using List.find?_some hfind
      have hfound := List.mem_of_find?_eq_some hfind
      rw [List.inj_on_of_nodup_map hnodup hfound ha hkey]

theorem exists_mem_key_iff {κ : Type*} [DecidableEq κ] {f : α → κ} {k : κ} {p : α → Prop}
    (hnodup : (l.map f).Nodup) : (∃ a ∈ l, f a = k ∧ p a) ↔
      ∃ a, l.find? (fun b => f b = k) = some a ∧ p a := by
  simp only [find?_key_eq_some hnodup, and_assoc]

/-- In some order of the elements, each is related to its result. -/
def Corresponds (R : α → β → Prop) (l : List α) (l' : List β) : Prop :=
  ∃ m, m.Perm l ∧ Forall₂ R m l'

namespace Corresponds

theorem exists_right (h : Corresponds R l l') (ha : a ∈ l) : ∃ b ∈ l', R a b := by
  obtain ⟨m, hm, hrel⟩ := h
  exact hrel.exists_right (hm.mem_iff.mpr ha)

theorem exists_left (h : Corresponds R l l') (hb : b ∈ l') : ∃ a ∈ l, R a b := by
  obtain ⟨m, hm, hrel⟩ := h
  obtain ⟨a, ha, hab⟩ := hrel.exists_left hb
  exact ⟨a, hm.mem_iff.mp ha, hab⟩

theorem imp (h : Corresponds R l l') (himp : ∀ a b, R a b → S a b) : Corresponds S l l' := by
  obtain ⟨m, hm, hrel⟩ := h
  exact ⟨m, hm, hrel.imp himp⟩

theorem map_perm (h : Corresponds R l l') {f : α → γ} {g : β → γ}
    (hkey : ∀ a b, R a b → g b = f a) : (l'.map g).Perm (l.map f) := by
  obtain ⟨m, hm, hrel⟩ := h
  rw [hrel.map_eq hkey]
  exact hm.map f

theorem nodup_map (h : Corresponds R l l') {f : α → γ} {g : β → γ}
    (hkey : ∀ a b, R a b → g b = f a) (hnodup : (l.map f).Nodup) : (l'.map g).Nodup :=
  (h.map_perm hkey).nodup_iff.mpr hnodup

theorem filter (h : Corresponds R l l') {p : α → Bool} {q : β → Bool}
    (hpq : ∀ a b, R a b → q b = p a) : Corresponds R (l.filter p) (l'.filter q) := by
  obtain ⟨m, hm, hrel⟩ := h
  refine ⟨m.filter p, hm.filter p, List.rel_filter (fun {a b} hab => ?_) hrel⟩
  show p a = true ↔ q b = true
  rw [hpq a b hab]

/-- The results may be put in another order as well. -/
theorem perm_right {l'' : List β} (h : Corresponds R l l') (hperm : l'.Perm l'') :
    Corresponds R l l'' := by
  obtain ⟨m, hm, hrel⟩ := h
  have hcomp : Relation.Comp (Forall₂ R) Perm m l'' := ⟨l', hrel, hperm⟩
  rw [List.forall₂_comp_perm_eq_perm_comp_forall₂] at hcomp
  obtain ⟨m', hm', hrel'⟩ := hcomp
  exact ⟨m', hm'.symm.trans hm, hrel'⟩

theorem flip (h : Corresponds R l l') : Corresponds (fun b a => R a b) l' l := by
  obtain ⟨m, hm, hrel⟩ := h
  exact perm_right ⟨l', .refl _, hrel.flip⟩ hm

end Corresponds

end List

/-- The joins of rows that are in order are in order. -/
theorem List.pairwise_filterMap_orderBy {α β ω : Type*} [LinearOrder ω] {join : α → Option β}
    {g : α → ω} {k : β → ω} {l : List α} (hkey : ∀ a b, join a = some b → k b = g a) :
    ((Table.orderBy g l).filterMap join).Pairwise fun a b => k a ≤ k b := by
  refine List.pairwise_filterMap.mpr (Table.pairwise_orderBy.imp fun hle c hc d hd => ?_)
  rw [hkey _ _ hc, hkey _ _ hd]
  exact hle

namespace Except

universe u

variable {ε : Type*} {α β γ : Type u}

/-- A mapped computation succeeds when it does at every element. -/
theorem mapM_eq_ok {f : α → Except ε β} : ∀ {l : List α} {bs : List β},
    l.mapM f = .ok bs ↔ List.Forall₂ (fun a b => f a = .ok b) l bs
  | [], bs => by simp [pure, Except.pure, eq_comm]
  | a :: l, bs => by
    rw [List.mapM_cons, bind_eq_ok, List.forall₂_cons_left_iff]
    constructor
    · rintro ⟨b, hb, h⟩
      obtain ⟨rest, hrest, h⟩ := bind_eq_ok.mp h
      cases h
      exact ⟨b, rest, hb, mapM_eq_ok.mp hrest, rfl⟩
    · rintro ⟨b, rest, hb, hrest, rfl⟩
      exact ⟨b, hb, bind_eq_ok.mpr ⟨rest, mapM_eq_ok.mpr hrest, rfl⟩⟩

/-- What is read from elements that are in order is in order. -/
theorem orderBy_of_mapM {ω : Type*} [LinearOrder ω] {f : α → Except ε β} {g : α → ω} {k : β → ω}
    {l : List α} {bs : List β} (hl : l.Pairwise fun a b => g a ≤ g b)
    (hkey : ∀ a b, f a = .ok b → k b = g a) (h : l.mapM f = .ok bs) :
    Table.orderBy k bs = bs := by
  have hkeys : bs.map k = l.map g := (mapM_eq_ok.mp h).map_eq hkey
  have hsorted := List.pairwise_map.mpr hl
  rw [← hkeys] at hsorted
  exact Table.orderBy_eq_self (List.pairwise_map.mp hsorted)

/-- An element was joined with what it names, and decoded. -/
def Decodes (join : α → Option β) (f : β → Except ε γ) (a : α) (c : γ) : Prop :=
  ∃ b, join a = some b ∧ f b = .ok c

/-- Elements whose join finds what they name are decoded one by one. -/
theorem filterMap_mapM_eq_ok {join : α → Option β} {f : β → Except ε γ} {l : List α}
    {cs : List γ} (hjoin : ∀ a ∈ l, ∃ b, join a = some b) :
    (l.filterMap join).mapM f = .ok cs ↔ List.Forall₂ (Decodes join f) l cs := by
  rw [mapM_eq_ok]
  induction l generalizing cs with
  | nil => simp
  | cons a l ih =>
    obtain ⟨b, hb⟩ := hjoin a List.mem_cons_self
    have ih (rest : List γ) :=
      @ih rest fun a ha => hjoin a (List.mem_cons_of_mem _ ha)
    rw [List.filterMap_cons_some hb, List.forall₂_cons_left_iff, List.forall₂_cons_left_iff]
    simp [ih, hb, Decodes]

/-- Elements that are each read back from the row they were written to. -/
theorem mapM_map_eq_ok {row : γ → α} {f : α → Except ε γ} {l : List γ}
    (h : ∀ c ∈ l, f (row c) = .ok c) : (l.map row).mapM f = .ok l :=
  mapM_eq_ok.mpr (List.forall₂_map_left_iff.mpr (List.forall₂_same.mpr h))

/-- The same through a join. -/
theorem filterMap_mapM_map_eq_ok {row : γ → α} {join : α → Option β} {f : β → Except ε γ}
    {l : List γ} (h : ∀ c ∈ l, Decodes join f (row c) c) :
    ((l.map row).filterMap join).mapM f = .ok l := by
  refine (filterMap_mapM_eq_ok fun a ha => ?_).mpr
    (List.forall₂_map_left_iff.mpr (List.forall₂_same.mpr h))
  obtain ⟨c, hc, rfl⟩ := List.mem_map.mp ha
  obtain ⟨b, hb, -⟩ := h c hc
  exact ⟨b, hb⟩

/-- Elements that all decode give a list. -/
theorem exists_filterMap_mapM {join : α → Option β} {f : β → Except ε γ} {l : List α}
    (h : ∀ a ∈ l, ∃ c, Decodes join f a c) : ∃ cs, (l.filterMap join).mapM f = .ok cs := by
  refine mapM_ok fun b hb => ?_
  obtain ⟨a, ha, hjoin⟩ := List.mem_filterMap.mp hb
  obtain ⟨c, b', hb', hc⟩ := h a ha
  rw [hjoin, Option.some.injEq] at hb'
  exact ⟨c, hb' ▸ hc⟩

/-- A fold whose steps succeed succeeds. -/
theorem exists_foldlM {σ : Type u} {f : σ → α → Except ε σ} {P : σ → Prop} {l : List α}
    (hstep : ∀ s, ∀ a ∈ l, P s → ∃ t, f s a = .ok t ∧ P t) {s : σ} (hs : P s) :
    ∃ t, l.foldlM f s = .ok t ∧ P t := by
  induction l generalizing s with
  | nil => exact ⟨s, rfl, hs⟩
  | cons a l ih =>
    obtain ⟨u, hu, hP⟩ := hstep s a List.mem_cons_self hs
    obtain ⟨t, ht, hP⟩ := ih (fun s b hb => hstep s b (List.mem_cons_of_mem _ hb)) hP
    exact ⟨t, by rw [List.foldlM_cons, hu]; exact ht, hP⟩

end Except
