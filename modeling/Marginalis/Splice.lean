import Mathlib.Data.List.Basic

/-!
# Replacing ranges of a list

`splice` replaces ranges of a list, given in ascending order by the index of their first
element and their length, and keeps what is between them. An edit script says of every element
of a list whether it is kept or removed and what is added between : it is cut into blocks of
edits with unchanged gaps before them (`Script`). The ranges of the blocks, spliced with what
they add, turn the old side of a script into its new side (`splice_replacements`).
-/

namespace Splice

variable {α : Type*}

/-- `new` for the `len` elements from the index `first` on. -/
structure Replacement (α : Type*) where
  first : ℕ
  len : ℕ
  new : List α

/-- The list from `cursor` on, with ranges replaced. -/
def splice (l : List α) (cursor : ℕ) : List (Replacement α) → List α
  | [] => l.drop cursor
  | r :: rs => (l.drop cursor).take (r.first - cursor) ++ r.new ++ splice l (r.first + r.len) rs

/-- The ranges follow each other from `cursor` on, within the list. -/
def InOrder (l : List α) (cursor : ℕ) : List (Replacement α) → Prop
  | [] => cursor ≤ l.length
  | r :: rs => cursor ≤ r.first ∧ r.first + r.len ≤ l.length ∧ InOrder l (r.first + r.len) rs

/-- Where the last range ends. -/
def stop (cursor : ℕ) : List (Replacement α) → ℕ
  | [] => cursor
  | r :: rs => stop (r.first + r.len) rs

theorem InOrder.le_stop {l : List α} {cursor : ℕ} {rs : List (Replacement α)}
    (h : InOrder l cursor rs) : cursor ≤ stop cursor rs ∧ stop cursor rs ≤ l.length := by
  induction rs generalizing cursor with
  | nil => exact ⟨Nat.le_refl _, h⟩
  | cons r rs ih =>
    obtain ⟨hle, -, htail⟩ := h
    obtain ⟨hstop, hlen⟩ := ih htail
    exact ⟨by simp only [stop]; omega, hlen⟩

theorem InOrder.within {l : List α} {cursor : ℕ} {rs : List (Replacement α)}
    (h : InOrder l cursor rs) : ∀ r ∈ rs, r.first + r.len ≤ l.length := by
  induction rs generalizing cursor with
  | nil => simp
  | cons r rs ih =>
    obtain ⟨-, hlen, htail⟩ := h
    exact List.forall_mem_cons.mpr ⟨hlen, ih htail⟩

theorem stop_eq_of_getLast? {cursor : ℕ} {rs : List (Replacement α)} {r : Replacement α}
    (h : rs.getLast? = some r) : stop cursor rs = r.first + r.len := by
  induction rs generalizing cursor with
  | nil => cases h
  | cons r' rs ih =>
    cases rs with
    | nil =>
      rw [List.getLast?_singleton, Option.some.injEq] at h
      rw [h]
      rfl
    | cons r'' rs =>
      rw [List.getLast?_cons_cons] at h
      exact @ih (r'.first + r'.len) h

/-- A splice ends with the last replacement and what follows its range. -/
theorem splice_eq_append {cursor : ℕ} {rs : List (Replacement α)} {r : Replacement α} (l : List α)
    (h : rs.getLast? = some r) :
    ∃ front, splice l cursor rs = front ++ r.new ++ l.drop (r.first + r.len) := by
  induction rs generalizing cursor with
  | nil => cases h
  | cons r' rs ih =>
    cases rs with
    | nil =>
      rw [List.getLast?_singleton, Option.some.injEq] at h
      subst h
      exact ⟨_, rfl⟩
    | cons r'' rs =>
      rw [List.getLast?_cons_cons] at h
      obtain ⟨front, hfront⟩ := @ih (r'.first + r'.len) h
      refine ⟨(l.drop cursor).take (r'.first - cursor) ++ r'.new ++ front, ?_⟩
      rw [splice, hfront]
      simp

/-- The elements of a splice come from the list or from a replacement. -/
theorem mem_of_mem_splice {l : List α} {cursor : ℕ} {rs : List (Replacement α)} {a : α}
    (h : a ∈ splice l cursor rs) : a ∈ l ∨ ∃ r ∈ rs, a ∈ r.new := by
  induction rs generalizing cursor with
  | nil => exact Or.inl (List.mem_of_mem_drop h)
  | cons r rs ih =>
    rw [splice, List.mem_append, List.mem_append] at h
    rcases h with (h | h) | h
    · exact Or.inl (List.mem_of_mem_drop (List.mem_of_mem_take h))
    · exact Or.inr ⟨r, List.mem_cons_self .., h⟩
    · rcases ih h with h | ⟨r', hr', h⟩
      · exact Or.inl h
      · exact Or.inr ⟨r', List.mem_cons_of_mem _ hr', h⟩

theorem cons_prefix_drop {l t : List α} {a : α} {i : ℕ} :
    a :: t <+: l.drop i ↔ l[i]? = some a ∧ t <+: l.drop (i + 1) := by
  constructor
  · rintro ⟨rest, h⟩
    have hlt : i < l.length := by
      by_contra hle
      rw [List.drop_eq_nil_of_le (Nat.not_lt.mp hle)] at h
      simp at h
    rw [List.drop_eq_getElem_cons hlt, List.cons_append, List.cons.injEq] at h
    exact ⟨by rw [List.getElem?_eq_getElem hlt, h.1], rest, h.2⟩
  · rintro ⟨hget, rest, h⟩
    obtain ⟨hlt, rfl⟩ := List.getElem?_eq_some_iff.mp hget
    exact ⟨rest, by rw [List.drop_eq_getElem_cons hlt, ← h]; rfl⟩

/-! ## Edit scripts -/

/-- What a script says of an element. -/
inductive Edit (α : Type*)
  | context (a : α)
  | remove (a : α)
  | add (a : α)

def Edit.old? : Edit α → Option α
  | context a | remove a => some a
  | add _ => none

def Edit.new? : Edit α → Option α
  | context a | add a => some a
  | remove _ => none

/-- What the edits take and what they leave. -/
def oldSide (es : List (Edit α)) : List α := es.filterMap Edit.old?

def newSide (es : List (Edit α)) : List α := es.filterMap Edit.new?

section Sides

variable {a : α} {es : List (Edit α)}

@[simp] theorem oldSide_nil : oldSide ([] : List (Edit α)) = [] := rfl

@[simp] theorem newSide_nil : newSide ([] : List (Edit α)) = [] := rfl

@[simp] theorem oldSide_context : oldSide (.context a :: es) = a :: oldSide es := rfl

@[simp] theorem newSide_context : newSide (.context a :: es) = a :: newSide es := rfl

@[simp] theorem oldSide_remove : oldSide (.remove a :: es) = a :: oldSide es := rfl

@[simp] theorem newSide_remove : newSide (.remove a :: es) = newSide es := rfl

@[simp] theorem oldSide_add : oldSide (.add a :: es) = oldSide es := rfl

@[simp] theorem newSide_add : newSide (.add a :: es) = a :: newSide es := rfl

end Sides

/-- Edits with the unchanged elements before them. -/
structure Block (α : Type*) where
  gap : List α
  edits : List (Edit α)

namespace Block

def old (b : Block α) : List α := b.gap ++ oldSide b.edits

def new (b : Block α) : List α := b.gap ++ newSide b.edits

end Block

/-- Blocks and the unchanged elements after the last one. -/
structure Script (α : Type*) where
  blocks : List (Block α)
  tail : List α

namespace Script

def old (d : Script α) : List α := d.blocks.flatMap Block.old ++ d.tail

def new (d : Script α) : List α := d.blocks.flatMap Block.new ++ d.tail

end Script

/-- The ranges of the blocks, the first of which starts at the index `position`. -/
def replacements (position : ℕ) : List (Block α) → List (Replacement α)
  | [] => []
  | b :: bs =>
    ⟨position + b.gap.length, (oldSide b.edits).length, newSide b.edits⟩ ::
      replacements (position + b.old.length) bs

/-- Splicing the ranges of a script into its old side gives its new side. -/
theorem splice_replacements {l before tail : List α} {bs : List (Block α)}
    (h : l = before ++ bs.flatMap Block.old ++ tail) :
    splice l before.length (replacements before.length bs) = bs.flatMap Block.new ++ tail ∧
      InOrder l before.length (replacements before.length bs) ∧
      stop before.length (replacements before.length bs) + tail.length = l.length := by
  induction bs generalizing before with
  | nil =>
    subst h
    simp [replacements, splice, InOrder, stop]
  | cons b bs ih =>
    have hl : l = (before ++ b.old) ++ bs.flatMap Block.old ++ tail := by
      rw [h, List.flatMap_cons, ← List.append_assoc]
    obtain ⟨hsplice, horder, hstop⟩ := ih hl
    have hold : b.old.length = b.gap.length + (oldSide b.edits).length := List.length_append
    have hle := Nat.le_trans horder.le_stop.1 horder.le_stop.2
    have hgap : (l.drop before.length).take (before.length + b.gap.length - before.length) =
        b.gap := by
      rw [h, List.append_assoc, List.drop_left, Nat.add_sub_cancel_left, List.flatMap_cons,
        Block.old, List.append_assoc, List.append_assoc, List.take_left]
    rw [List.length_append] at hsplice horder hstop hle
    have hfirst : before.length + b.gap.length + (oldSide b.edits).length =
        before.length + b.old.length := by omega
    simp only [replacements, splice, InOrder, stop, hgap, hfirst, hsplice]
    refine ⟨?_, ⟨by omega, by omega, horder⟩, hstop⟩
    rw [List.flatMap_cons, Block.new, List.append_assoc, List.append_assoc, List.append_assoc]

/-! ## Elements by element -/

section Map

variable {β : Type*} (f : α → β)

def Edit.map : Edit α → Edit β
  | context a => .context (f a)
  | remove a => .remove (f a)
  | add a => .add (f a)

def Replacement.map (r : Replacement α) : Replacement β := ⟨r.first, r.len, r.new.map f⟩

theorem oldSide_map (es : List (Edit α)) : oldSide (es.map (Edit.map f)) = (oldSide es).map f := by
  induction es with
  | nil => rfl
  | cons e es ih => cases e <;> simp [Edit.map, ih]

theorem newSide_map (es : List (Edit α)) : newSide (es.map (Edit.map f)) = (newSide es).map f := by
  induction es with
  | nil => rfl
  | cons e es ih => cases e <;> simp [Edit.map, ih]

theorem splice_map (l : List α) (cursor : ℕ) (rs : List (Replacement α)) :
    splice (l.map f) cursor (rs.map (Replacement.map f)) = (splice l cursor rs).map f := by
  induction rs generalizing cursor with
  | nil => simp [splice]
  | cons r rs ih => simp [splice, Replacement.map, ih]

end Map

end Splice
