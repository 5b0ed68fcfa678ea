import Marginalis.NoLostUpdate
import Marginalis.NoteGraph
import Marginalis.Projection

/-!
# Noninterference of hidden notes

Two databases agree for a principal when the principal has access to the same notes in both,
and these notes, their grants, history, images and links, and the libraries of their owners
are the same (`Database.AgreesFor`). All other notes may differ. Every query then answers the
same in both, and a mutation of a note the principal has no access to fails in the same way
in both (`hidden_notes_do_not_interfere`).

Each query joins `note_access` in its own way, so each is taken apart on its own. What they
share is that the rows a hidden note contributes are dropped by the join
(`Table.flatMap_orderBy_congr`, `Table.filterMap_perm`).
-/

/-! ## Rows a join drops -/

namespace Table

variable {α β ω : Type*} [LinearOrder ω] {g : α → ω} {l l' : List α}

/-- Two lists that have the same elements where the function has a value. -/
theorem filterMap_perm {f : α → Option β} (hl : l.Nodup) (hl' : l'.Nodup)
    (h : ∀ a, (f a).isSome = true → (a ∈ l ↔ a ∈ l')) :
    (l.filterMap f).Perm (l'.filterMap f) := by
  have hdrop : ∀ m : List α, m.filterMap f = (m.filter fun a => (f a).isSome).filterMap f := by
    intro m
    rw [List.filterMap_filter]
    refine List.filterMap_congr fun a _ => ?_
    cases f a <;> simp
  rw [hdrop l, hdrop l']
  refine List.Perm.filterMap f ?_
  refine (List.perm_ext_iff_of_nodup (hl.filter _) (hl'.filter _)).mpr fun a => ?_
  simp only [List.mem_filter]
  constructor
  · rintro ⟨ha, hf⟩
    exact ⟨(h a hf).mp ha, hf⟩
  · rintro ⟨ha, hf⟩
    exact ⟨(h a hf).mpr ha, hf⟩

/-- Two sorted lists that have the same elements where the join has rows. -/
theorem flatMap_orderBy_congr {f : α → List β} (hl : l.Nodup) (hl' : l'.Nodup)
    (hinj : ∀ a ∈ l, ∀ b ∈ l, g a = g b → a = b)
    (hinj' : ∀ a ∈ l', ∀ b ∈ l', g a = g b → a = b)
    (h : ∀ a, f a ≠ [] → (a ∈ l ↔ a ∈ l')) :
    (orderBy g l).flatMap f = (orderBy g l').flatMap f := by
  have hdrop : ∀ m : List α, m.flatMap f = (m.filter fun a => !(f a).isEmpty).flatMap f := by
    intro m
    induction m with
    | nil => rfl
    | cons a m ih =>
      by_cases ha : f a = []
      · simp [ha, ih]
      · simp [ha, ih]
  rw [hdrop (orderBy g l), hdrop (orderBy g l'), ← orderBy_filter hinj, ← orderBy_filter hinj']
  have hperm : (l.filter fun a => !(f a).isEmpty).Perm (l'.filter fun a => !(f a).isEmpty) := by
    refine (List.perm_ext_iff_of_nodup (hl.filter _) (hl'.filter _)).mpr fun a => ?_
    simp only [List.mem_filter, Bool.not_eq_true', List.isEmpty_eq_false_iff]
    constructor
    · rintro ⟨ha, hf⟩
      exact ⟨(h a hf).mp ha, hf⟩
    · rintro ⟨ha, hf⟩
      exact ⟨(h a hf).mpr ha, hf⟩
  rw [orderBy_congr hperm fun a ha b hb =>
    hinj a (List.mem_of_mem_filter ha) b (List.mem_of_mem_filter hb)]

/-- The first match of a condition that one element satisfies at most. -/
theorem find?_congr {p : α → Bool} (huniq : ∀ a ∈ l, ∀ b ∈ l, p a = true → p b = true → a = b)
    (h : ∀ a, p a = true → (a ∈ l ↔ a ∈ l')) : l.find? p = l'.find? p := by
  cases hfind : l.find? p with
  | none =>
    refine (List.find?_eq_none.mpr fun a ha hp => ?_).symm
    exact List.find?_eq_none.mp hfind a ((h a hp).mpr ha) hp
  | some a =>
    have ha := List.mem_of_find?_eq_some hfind
    have hp := List.find?_some hfind
    cases hfind' : l'.find? p with
    | none => exact absurd hp (List.find?_eq_none.mp hfind' a ((h a hp).mp ha))
    | some b =>
      have hb := List.find?_some hfind'
      have hmem := (h b hb).mpr (List.mem_of_find?_eq_some hfind')
      rw [huniq a ha b hmem hp hb]

variable {ρ κ : Type*} [Keyed ρ κ] {t : Table ρ}

theorem nodup_rows : t.rows.Nodup := t.nodup.of_map

/-- The rows with a key : one or none. -/
theorem filter_key [DecidableEq κ] (k : κ) :
    (t.rows.filter fun r => Keyed.key r = k) = (t.find k).toList := by
  cases hfind : t.find k with
  | none =>
    refine List.filter_eq_nil_iff.mpr fun r hr => ?_
    simpa using find_eq_none.mp hfind r hr
  | some r =>
    have hr := find_eq_some.mp hfind
    refine List.perm_singleton.mp ((List.perm_ext_iff_of_nodup (nodup_rows.filter _)
      (List.nodup_singleton r)).mpr fun s => ?_)
    simp only [List.mem_filter, decide_eq_true_eq, List.mem_singleton]
    constructor
    · rintro ⟨hs, hk⟩
      exact eq_of_key_eq hs hr.1 (hk.trans hr.2.symm)
    · rintro rfl
      exact hr

end Table

namespace Marginalis

open Table (orderBy)

/-! ## Agreement on what a principal can access -/

/-- The uniqueness constraints the queries rely on : a citation key names one item of a
library, and an identity belongs to one principal. -/
structure Database.UniqueKeys (db : Database) : Prop where
  library : ∀ a ∈ db.bibliographyItems, ∀ b ∈ db.bibliographyItems,
    a.owner = b.owner → a.citationKey = b.citationKey → a = b
  identities : ∀ a ∈ db.principalIdentities, ∀ b ∈ db.principalIdentities,
    a.identity = b.identity → a = b

/-- The databases differ in notes that the principal has no access to in either. -/
structure Database.AgreesFor (db : Database) (p : PrincipalId) (db' : Database) : Prop where
  identities : db'.principalIdentities = db.principalIdentities
  access : ∀ n, db'.CanAccess p n ↔ db.CanAccess p n
  notes : ∀ n, db.CanAccess p n → db'.notes.find n = db.notes.find n
  acl : ∀ row, db.CanAccess p row.noteId → (row ∈ db.noteAcl ↔ row ∈ db'.noteAcl)
  revisions : ∀ row, db.CanAccess p row.noteId → (row ∈ db.noteRevisions ↔ row ∈ db'.noteRevisions)
  attachments : ∀ row, db.CanAccess p row.noteId →
    (row ∈ db.noteAttachments ↔ row ∈ db'.noteAttachments)
  references : ∀ row, db.CanAccess p row.sourceNoteId →
    (row ∈ db.noteReferences ↔ row ∈ db'.noteReferences)
  citations : ∀ row, db.CanAccess p row.sourceNoteId →
    (row ∈ db.noteCitations ↔ row ∈ db'.noteCitations)
  library : ∀ n note, db.CanAccess p n → db.notes.find n = some note → ∀ item,
    item.owner = note.creator → (item ∈ db.bibliographyItems ↔ item ∈ db'.bibliographyItems)

namespace Database

variable {db db' : Database} {p : PrincipalId} {n : NoteId} {actor : Actor}

/-! ## What the joins see -/

theorem hasAccess_iff {k : ℕ} :
    db.HasAccess p n k ↔ ∃ access ∈ db.accessRows p n, k ≤ access.accessLevel := by
  simp only [HasAccess, accessRows, List.mem_filter, decide_eq_true_eq, and_assoc]

theorem hasAccess_zero_iff : db.HasAccess p n 0 ↔ db.CanAccess p n := by
  constructor
  · rintro ⟨access, haccess, hn, hp, -⟩
    exact ⟨access, haccess, hn, hp, one_le_accessLevel haccess⟩
  · rintro ⟨access, haccess, hn, hp, -⟩
    exact ⟨access, haccess, hn, hp, Nat.zero_le _⟩

theorem accessRows_eq_nil (h : ¬db.CanAccess p n) : db.accessRows p n = [] := by
  rw [← hasAccess_zero_iff, hasAccess_iff] at h
  refine List.eq_nil_iff_forall_not_mem.mpr fun access haccess => h ⟨access, haccess, Nat.zero_le _⟩

/-- The rows of `note_access` for a principal and a note : the owner's and the grant. -/
theorem accessRows_eq (p : PrincipalId) (n : NoteId) : db.accessRows p n =
    ((db.notes.find n).filter fun row => row.creator = p).toList.map
        (fun row => ⟨row.noteId, row.creator, 3⟩) ++
      (db.noteAcl.find (n, p)).toList.map
        fun row => ⟨row.noteId, row.principalId, row.permission.accessLevel⟩ := by
  have hnotes : (db.notes.rows.filter fun row => row.noteId = n ∧ row.creator = p) =
      ((db.notes.find n).filter fun row => row.creator = p).toList := by
    rw [Option.toList_filter, ← Table.filter_key, List.filter_filter]
    refine List.filter_congr fun row _ => ?_
    simp [Keyed.key, Bool.and_comm]
  have hacl : (db.noteAcl.rows.filter fun row => row.noteId = n ∧ row.principalId = p) =
      (db.noteAcl.find (n, p)).toList := by
    rw [← Table.filter_key]
    refine List.filter_congr fun row _ => ?_
    simp [Keyed.key]
  simp only [accessRows, noteAccess, List.filter_append, List.filter_map, ← hnotes, ← hacl,
    Function.comp_def]

namespace AgreesFor

variable (h : db.AgreesFor p db')

include h

theorem primaryIdentity (q : PrincipalId) : db'.primaryIdentity q = db.primaryIdentity q := by
  unfold Database.primaryIdentity
  rw [h.identities]

theorem noteDetails : db'.noteDetails = db.noteDetails := by
  funext row
  simp only [Database.noteDetails, h.primaryIdentity]

theorem accessRows (n : NoteId) : db'.accessRows p n = db.accessRows p n := by
  by_cases hn : db.CanAccess p n
  · have hacl : db'.noteAcl.find (n, p) = db.noteAcl.find (n, p) := by
      refine Table.find_congr fun row hrow => ?_
      have hid : row.noteId = n := congrArg Prod.fst hrow
      exact (h.acl row (hid ▸ hn)).symm
    rw [accessRows_eq, accessRows_eq, h.notes n hn, hacl]
  · rw [accessRows_eq_nil hn, accessRows_eq_nil (mt (h.access n).mp hn)]

theorem hasAccess (n : NoteId) (k : ℕ) : db'.HasAccess p n k ↔ db.HasAccess p n k := by
  rw [hasAccess_iff, hasAccess_iff, h.accessRows]

/-- A row the principal has access to is in both tables. -/
theorem mem_notes {row : NoteRow} (hrow : db.CanAccess p row.noteId) :
    row ∈ db.notes ↔ row ∈ db'.notes := by
  have hfind := h.notes row.noteId hrow
  constructor
  · intro hmem
    exact Table.mem_of_find (hfind.trans (Table.find_of_mem hmem))
  · intro hmem
    exact Table.mem_of_find (hfind.symm.trans (Table.find_of_mem hmem))

theorem activeFor (row : NoteRow) : db'.ActiveFor p row ↔ db.ActiveFor p row := by
  unfold ActiveFor
  rw [h.hasAccess]

variable {q r : NoteRow → Prop}

/-- Conditions that agree and hold of accessible notes only select the same notes. -/
theorem mem_notes_and (hqq : ∀ row, r row ↔ q row)
    (hq : ∀ row, row ∈ db.notes ∨ row ∈ db'.notes → q row → db.CanAccess p row.noteId)
    (row : NoteRow) : row ∈ db.notes ∧ q row ↔ row ∈ db'.notes ∧ r row := by
  constructor
  · rintro ⟨hrow, hcond⟩
    exact ⟨(h.mem_notes (hq row (Or.inl hrow) hcond)).mp hrow, (hqq row).mpr hcond⟩
  · rintro ⟨hrow, hcond⟩
    have hcond' := (hqq row).mp hcond
    exact ⟨(h.mem_notes (hq row (Or.inr hrow) hcond')).mpr hrow, hcond'⟩

theorem select_notes [DecidablePred q] [DecidablePred r] (hqq : ∀ row, r row ↔ q row)
    (hq : ∀ row, row ∈ db.notes ∨ row ∈ db'.notes → q row → db.CanAccess p row.noteId) :
    (db'.notes.select fun row => r row).Perm (db.notes.select fun row => q row) := by
  refine Table.select_perm fun row => ?_
  simpa only [decide_eq_true_eq] using (h.mem_notes_and hqq hq row).symm

theorem find_filter [DecidablePred q] [DecidablePred r] (hqq : ∀ row, r row ↔ q row)
    (hq : ∀ row, row ∈ db.notes ∨ row ∈ db'.notes → q row → db.CanAccess p row.noteId)
    (n : NoteId) :
    (db'.notes.find n).filter (fun row => r row) = (db.notes.find n).filter fun row => q row := by
  ext row
  have hmem := h.mem_notes_and hqq hq row
  simp only [Option.filter_eq_some_iff, Table.find_eq_some, decide_eq_true_eq]
  constructor
  · rintro ⟨⟨hrow, hk⟩, hcond⟩
    obtain ⟨hrow', hcond'⟩ := hmem.mpr ⟨hrow, hcond⟩
    exact ⟨⟨hrow', hk⟩, hcond'⟩
  · rintro ⟨⟨hrow, hk⟩, hcond⟩
    obtain ⟨hrow', hcond'⟩ := hmem.mp ⟨hrow, hcond⟩
    exact ⟨⟨hrow', hk⟩, hcond'⟩

omit h in
theorem canAccess_of_activeFor {row : NoteRow} (hrow : db.ActiveFor p row) :
    db.CanAccess p row.noteId :=
  hasAccess_zero_iff.mp hrow.2

/-- An owner has access. -/
theorem canAccess_of_creator {row : NoteRow} (hrow : row ∈ db.notes ∨ row ∈ db'.notes)
    (hcreator : row.creator = p) : db.CanAccess p row.noteId := by
  rcases hrow with hrow | hrow
  · exact canAccess_iff.mpr (Or.inl ⟨row, Table.find_of_mem hrow, hcreator⟩)
  · exact (h.access _).mp (canAccess_iff.mpr (Or.inl ⟨row, Table.find_of_mem hrow, hcreator⟩))

/-! ## Single notes and lists -/

end AgreesFor

theorem accessibleNote_of_not_canAccess (hn : ¬db.CanAccess actor.principalId n) :
    db.accessibleNote actor n = .ok none := by
  unfold accessibleNote
  rw [accessRows_eq_nil hn]
  split
  · rfl
  · split
    · next heq => cases heq
    · rfl

/-- Rows of `notes` with the same id are the same row. -/
theorem select_notes_inj {q : NoteRow → Bool} {ω : Type*} {g : NoteRow → ω}
    (hg : ∀ a b, g a = g b → a.noteId.entityId = b.noteId.entityId) :
    ∀ a ∈ db.notes.select q, ∀ b ∈ db.notes.select q, g a = g b → a = b := by
  intro a ha b hb hab
  exact Table.eq_of_key_eq (Table.mem_select.mp ha).1 (Table.mem_select.mp hb).1
    (noteId_eq_of_entityId (hg a b hab))

namespace AgreesFor

variable (h : db.AgreesFor actor.principalId db')

include h

theorem accessibleNote (n : NoteId) : db'.accessibleNote actor n = db.accessibleNote actor n := by
  by_cases hn : db.CanAccess actor.principalId n
  · unfold Database.accessibleNote
    rw [h.accessRows, h.noteDetails, h.notes n hn]
  · rw [accessibleNote_of_not_canAccess hn,
      accessibleNote_of_not_canAccess (mt (h.access n).mp hn)]

theorem visibleNotesById (noteIds : List NoteId) :
    db'.visibleNotesById actor noteIds = db.visibleNotesById actor noteIds := by
  have hperm := h.select_notes
    (q := fun row => db.ActiveFor actor.principalId row ∧ row.noteId ∈ noteIds)
    (r := fun row => db'.ActiveFor actor.principalId row ∧ row.noteId ∈ noteIds)
    (fun row => and_congr_left fun _ => h.activeFor row)
    fun row _ hrow => canAccess_of_activeFor hrow.1
  have hrows := Table.orderBy_congr (g := fun row : NoteRow => row.noteId.entityId) hperm
    (select_notes_inj fun _ _ => id)
  simp only [Database.visibleNotesById, h.noteDetails, hrows]

theorem listVisibleNotes (query : NoteListQuery) :
    db'.listVisibleNotes actor query = db.listVisibleNotes actor query := by
  have hkey : ∀ a b : NoteRow, toLex (OrderDual.toDual a.updatedAt, a.noteId.entityId) =
      toLex (OrderDual.toDual b.updatedAt, b.noteId.entityId) →
        a.noteId.entityId = b.noteId.entityId :=
    fun a b hab => congrArg (fun k : ℤᵒᵈ ×ₗ ℕ => (ofLex k).2) hab
  unfold Database.listVisibleNotes
  simp only [h.accessRows]
  rw [Table.flatMap_orderBy_congr Table.nodup_select.of_map Table.nodup_select.of_map
    (select_notes_inj hkey) (select_notes_inj hkey)]
  intro row hrow
  have haccess : db.CanAccess actor.principalId row.noteId := by
    by_contra hn
    exact hrow (by rw [accessRows_eq_nil hn]; rfl)
  simp only [Table.mem_select, h.mem_notes haccess]

theorem listOwnedDeletedNotes :
    db'.listOwnedDeletedNotes actor = db.listOwnedDeletedNotes actor := by
  have hkey : ∀ a b : NoteRow,
      toLex (OrderDual.toDual (a.deletedAt.getD 0), a.noteId.entityId) =
        toLex (OrderDual.toDual (b.deletedAt.getD 0), b.noteId.entityId) →
      a.noteId.entityId = b.noteId.entityId :=
    fun a b hab => congrArg (fun k : ℤᵒᵈ ×ₗ ℕ => (ofLex k).2) hab
  have hperm := h.select_notes
    (q := fun row => row.deletedAt ≠ none ∧ row.creator = actor.principalId)
    (fun row => Iff.rfl) fun row hrow hcond => h.canAccess_of_creator hrow hcond.2
  unfold Database.listOwnedDeletedNotes
  rw [Table.orderBy_congr hperm (select_notes_inj hkey)]

/-! ## Views -/

/-- The note at the end of a reference, as far as the principal sees it. -/
theorem visibleEnd (n : NoteId) :
    ((db'.notes.find n).filter fun row => db'.ActiveFor actor.principalId row) =
      (db.notes.find n).filter fun row => db.ActiveFor actor.principalId row :=
  h.find_filter h.activeFor (fun _ _ hrow => canAccess_of_activeFor hrow) n

theorem visibleEnds {l m : List ReferenceRow} {e : ReferenceRow → NoteId}
    (hl : l.Nodup) (hm : m.Nodup)
    (hlm : ∀ r, db.CanAccess actor.principalId (e r) → (r ∈ m ↔ r ∈ l)) :
    (db'.visibleEnds actor.principalId m e).Perm (db.visibleEnds actor.principalId l e) := by
  unfold Database.visibleEnds
  simp only [h.visibleEnd]
  refine Table.filterMap_perm hm hl fun r hr => hlm r ?_
  obtain ⟨row, hrow⟩ := Option.isSome_iff_exists.mp hr
  obtain ⟨hfind, hactive⟩ := Option.filter_eq_some_iff.mp hrow
  have hid : row.noteId = e r := Table.key_of_find hfind
  exact hid ▸ canAccess_of_activeFor (of_decide_eq_true hactive)

omit h in
/-- The rows a list of visible ends is made of are stored notes, so ids tell them apart. -/
theorem visibleEnds_inj {l : List ReferenceRow} {e : ReferenceRow → NoteId} {ω : Type*}
    {g : NoteRow → ω} (hg : ∀ a b, g a = g b → a.noteId.entityId = b.noteId.entityId) :
    ∀ a ∈ db'.visibleEnds actor.principalId l e,
      ∀ b ∈ db'.visibleEnds actor.principalId l e, g a = g b → a = b := by
  have hstored : ∀ a ∈ db'.visibleEnds actor.principalId l e, a ∈ db'.notes := by
    intro a ha
    obtain ⟨r, -, hr⟩ := List.mem_filterMap.mp ha
    exact Table.mem_of_find (Option.filter_eq_some_iff.mp hr).1
  intro a ha b hb hab
  exact Table.eq_of_key_eq (hstored a ha) (hstored b hb) (noteId_eq_of_entityId (hg a b hab))

theorem noteViewSnapshot (n : NoteId) :
    db'.noteViewSnapshot actor n = db.noteViewSnapshot actor n := by
  by_cases hn : db.CanAccess actor.principalId n
  · have htargets := Table.orderBy_congr (g := fun row : NoteRow => row.noteId.entityId)
      (h.visibleEnds (l := db.noteReferences.select fun r => r.sourceNoteId = n)
        (m := db'.noteReferences.select fun r => r.sourceNoteId = n)
        (e := ReferenceRow.targetNoteId) Table.nodup_select.of_map Table.nodup_select.of_map
        fun r _ => by
          simp only [Table.mem_select, decide_eq_true_eq]
          constructor
          · rintro ⟨hr, rfl⟩
            exact ⟨(h.references r hn).mpr hr, rfl⟩
          · rintro ⟨hr, rfl⟩
            exact ⟨(h.references r hn).mp hr, rfl⟩)
      (visibleEnds_inj fun _ _ => id)
    have hsources := Table.orderBy_congr
      (g := fun row : NoteRow => toLex (OrderDual.toDual row.updatedAt, row.noteId.entityId))
      (h.visibleEnds (l := db.noteReferences.select fun r => r.targetNoteId = n)
        (m := db'.noteReferences.select fun r => r.targetNoteId = n)
        (e := ReferenceRow.sourceNoteId) Table.nodup_select.of_map Table.nodup_select.of_map
        fun r hr => by
          simp only [Table.mem_select, h.references r hr])
      (visibleEnds_inj fun a b hab => congrArg (fun k : ℤᵒᵈ ×ₗ ℕ => (ofLex k).2) hab)
    simp only [Database.noteViewSnapshot, h.accessibleNote, h.noteDetails, htargets, hsources]
  · unfold Database.noteViewSnapshot
    rw [accessibleNote_of_not_canAccess hn,
      accessibleNote_of_not_canAccess (mt (h.access n).mp hn)]
    rfl

/-! ## The graph -/

theorem activeAccessRows (n : NoteId) :
    db'.activeAccessRows actor.principalId n = db.activeAccessRows actor.principalId n := by
  unfold Database.activeAccessRows
  rw [h.accessRows]
  by_cases hn : db.CanAccess actor.principalId n
  · rw [h.notes n hn]
  · rw [accessRows_eq_nil hn]
    split <;> split <;> rfl

omit h in
theorem canAccess_of_activeAccessRows {access : AccessRow}
    (haccess : access ∈ db.activeAccessRows actor.principalId n) :
    db.CanAccess actor.principalId n := by
  unfold Database.activeAccessRows at haccess
  split at haccess
  · cases haccess
  · by_contra hn
    rw [accessRows_eq_nil hn] at haccess
    cases haccess

theorem graphNotes (lib : GraphLibrary) (pattern : Option (List Char)) :
    db'.graphNotes lib actor.principalId pattern = db.graphNotes lib actor.principalId pattern := by
  unfold Database.graphNotes
  simp only [h.accessRows]
  rw [Table.flatMap_orderBy_congr Table.nodup_select.of_map Table.nodup_select.of_map
    (select_notes_inj fun _ _ => id) (select_notes_inj fun _ _ => id)]
  intro row hrow
  have haccess : db.CanAccess actor.principalId row.noteId := by
    by_contra hn
    exact hrow (by rw [accessRows_eq_nil hn]; rfl)
  simp only [Table.mem_select, h.mem_notes haccess]

omit h in
theorem references_inj : ∀ a ∈ db.noteReferences.rows, ∀ b ∈ db.noteReferences.rows,
    toLex (a.sourceNoteId.entityId, a.targetNoteId.entityId) =
      toLex (b.sourceNoteId.entityId, b.targetNoteId.entityId) → a = b := by
  rintro ⟨⟨s⟩, ⟨t⟩⟩ - ⟨⟨s'⟩, ⟨t'⟩⟩ - hab
  have hpair : (s, t) = (s', t') := toLex.injective hab
  cases hpair
  rfl

omit h in
theorem citations_inj : ∀ a ∈ db.noteCitations.rows, ∀ b ∈ db.noteCitations.rows,
    toLex (a.sourceNoteId.entityId, a.citationKey) =
      toLex (b.sourceNoteId.entityId, b.citationKey) → a = b := by
  rintro ⟨⟨s⟩, k⟩ - ⟨⟨s'⟩, k'⟩ - hab
  have hpair : (s, k) = (s', k') := toLex.injective hab
  cases hpair
  rfl

theorem graphReferences :
    db'.graphReferences actor.principalId = db.graphReferences actor.principalId := by
  unfold Database.graphReferences
  simp only [h.activeAccessRows]
  refine Table.flatMap_orderBy_congr Table.nodup_rows Table.nodup_rows references_inj
    references_inj fun r hr => ?_
  obtain ⟨edge, hedge⟩ := List.exists_mem_of_ne_nil _ hr
  obtain ⟨access, haccess, -⟩ := List.mem_flatMap.mp hedge
  exact (h.references r (canAccess_of_activeAccessRows haccess)).symm

/-- A citation of an accessible note resolves to the same item. -/
theorem citedCslJson (hdb' : db'.UniqueKeys) {citation : CitationRow}
    (hn : db.CanAccess actor.principalId citation.sourceNoteId) :
    db'.citedCslJson citation = db.citedCslJson citation := by
  unfold Database.citedCslJson
  rw [h.notes _ hn]
  cases hnote : db.notes.find citation.sourceNoteId with
  | none => rfl
  | some note =>
    have hitem : (db'.bibliographyItems.rows.find? fun item =>
          item.owner = note.creator ∧ item.citationKey = citation.citationKey) =
        db.bibliographyItems.rows.find? fun item =>
          item.owner = note.creator ∧ item.citationKey = citation.citationKey := by
      refine Table.find?_congr (fun a ha b hb hpa hpb => ?_) fun item hitem => ?_
      · rw [decide_eq_true_eq] at hpa hpb
        exact hdb'.library a ha b hb (hpa.1.trans hpb.1.symm) (hpa.2.trans hpb.2.symm)
      · rw [decide_eq_true_eq] at hitem
        exact (h.library _ note hn hnote item hitem.1).symm
    simp only [Option.bind_eq_bind, Option.bind_some, hitem]

theorem graphCitations (hdb' : db'.UniqueKeys) :
    db'.graphCitations actor.principalId = db.graphCitations actor.principalId := by
  have hjoin : ∀ citation : CitationRow,
      ((db.activeAccessRows actor.principalId citation.sourceNoteId).map fun _ =>
        (⟨⟨citation.sourceNoteId, citation.citationKey⟩, db'.citedCslJson citation⟩ : CitedItem)) =
      (db.activeAccessRows actor.principalId citation.sourceNoteId).map fun _ =>
        ⟨⟨citation.sourceNoteId, citation.citationKey⟩, db.citedCslJson citation⟩ := by
    intro citation
    refine List.map_congr_left fun access haccess => ?_
    rw [h.citedCslJson hdb' (canAccess_of_activeAccessRows haccess)]
  unfold Database.graphCitations
  simp only [h.activeAccessRows, hjoin]
  refine Table.flatMap_orderBy_congr Table.nodup_rows Table.nodup_rows citations_inj
    citations_inj fun r hr => ?_
  obtain ⟨item, hitem⟩ := List.exists_mem_of_ne_nil _ hr
  obtain ⟨access, haccess, -⟩ := List.mem_map.mp hitem
  exact (h.citations r (canAccess_of_activeAccessRows haccess)).symm

theorem noteGraph (hdb' : db'.UniqueKeys) (lib : GraphLibrary)
    (query : NoteGraphQuery) : db'.noteGraph lib actor query = db.noteGraph lib actor query := by
  simp only [Database.noteGraph, Database.queryGraphNotes, h.graphNotes, h.graphReferences,
    h.graphCitations hdb']

/-! ## History, images and grants -/

theorem historyReadable (row : NoteRow) :
    db'.HistoryReadable actor row ↔ db.HistoryReadable actor row := by
  unfold HistoryReadable
  rw [h.hasAccess]

theorem readableNote (n : NoteId) : db'.readableNote actor n = db.readableNote actor n := by
  refine h.find_filter h.historyReadable (fun row hrow hreadable => ?_) n
  rcases hreadable with ⟨-, haccess⟩ | ⟨-, hcreator⟩
  · exact hasAccess_zero_iff.mp haccess
  · exact h.canAccess_of_creator hrow hcreator

omit h in
theorem canAccess_of_readableNote {row : NoteRow} (hrow : db.readableNote actor n = some row) :
    db.CanAccess actor.principalId n := by
  obtain ⟨hfind, hreadable⟩ := Option.filter_eq_some_iff.mp hrow
  have hid : row.noteId = n := Table.key_of_find hfind
  rcases of_decide_eq_true hreadable with ⟨-, haccess⟩ | ⟨-, hcreator⟩
  · exact hid ▸ hasAccess_zero_iff.mp haccess
  · exact canAccess_iff.mpr (Or.inl ⟨row, hfind, hcreator⟩)

theorem listNoteRevisions (n : NoteId) :
    db'.listNoteRevisions actor n = db.listNoteRevisions actor n := by
  unfold Database.listNoteRevisions
  rw [h.readableNote]
  cases hrow : db.readableNote actor n with
  | none => rfl
  | some row =>
    have hn := canAccess_of_readableNote hrow
    have hperm : (db'.noteRevisions.select fun history => history.noteId = n).Perm
        (db.noteRevisions.select fun history => history.noteId = n) := by
      refine Table.select_perm fun history => ?_
      simp only [decide_eq_true_eq]
      constructor
      · rintro ⟨hmem, rfl⟩
        exact ⟨(h.revisions history hn).mpr hmem, rfl⟩
      · rintro ⟨hmem, rfl⟩
        exact ⟨(h.revisions history hn).mp hmem, rfl⟩
    have hrows := Table.orderBy_congr
      (g := fun history : NoteRevisionRow => OrderDual.toDual history.revision) hperm
      fun a ha b hb hab => by
        obtain ⟨ha, hna⟩ := Table.mem_select.mp ha
        obtain ⟨hb, hnb⟩ := Table.mem_select.mp hb
        have hnab : a.noteId = b.noteId :=
          (of_decide_eq_true hna).trans (of_decide_eq_true hnb).symm
        exact Table.eq_of_key_eq ha hb (Prod.ext hnab (OrderDual.toDual.injective hab))
    simp only [hrows, h.primaryIdentity]

theorem revisionDetails {history : NoteRevisionRow}
    (hn : db.CanAccess actor.principalId history.noteId) :
    db'.revisionDetails history = db.revisionDetails history := by
  simp only [Database.revisionDetails, h.notes _ hn, h.primaryIdentity]

theorem noteRevision (n : NoteId) (revision : ℕ) :
    db'.noteRevision actor n revision = db.noteRevision actor n revision := by
  unfold Database.noteRevision
  rw [h.readableNote]
  cases hrow : db.readableNote actor n with
  | none => rfl
  | some row =>
    have hn := canAccess_of_readableNote hrow
    have hfind : db'.noteRevisions.find (n, revision) = db.noteRevisions.find (n, revision) := by
      refine Table.find_congr fun history hkey => ?_
      have hid : history.noteId = n := congrArg Prod.fst hkey
      exact (h.revisions history (hid ▸ hn)).symm
    rw [hfind]
    cases hhistory : db.noteRevisions.find (n, revision) with
    | none => rfl
    | some history =>
      have hid : history.noteId = n := congrArg Prod.fst (Table.key_of_find hhistory)
      simp only [h.revisionDetails (hid ▸ hn), revisionAccessLevel, h.accessRows]

theorem attachmentsOf (hn : db.CanAccess actor.principalId n) :
    (db'.attachmentsOf n).Perm (db.attachmentsOf n) := by
  refine Table.select_perm fun row => ?_
  simp only [decide_eq_true_eq]
  constructor
  · rintro ⟨hmem, rfl⟩
    exact ⟨(h.attachments row hn).mpr hmem, rfl⟩
  · rintro ⟨hmem, rfl⟩
    exact ⟨(h.attachments row hn).mp hmem, rfl⟩

theorem listNoteAttachments (lib : AttachmentLibrary) (n : NoteId) :
    db'.listNoteAttachments lib actor n = db.listNoteAttachments lib actor n := by
  unfold Database.listNoteAttachments
  rw [h.readableNote]
  cases hrow : db.readableNote actor n with
  | none => rfl
  | some row =>
    have hrows := Table.orderBy_congr
      (g := fun row : AttachmentRow => toLex (row.createdAt, row.attachmentId.entityId))
      (h.attachmentsOf (canAccess_of_readableNote hrow)) fun a ha b hb hab => by
        have hids : a.attachmentId.entityId = b.attachmentId.entityId :=
          congrArg (fun k : ℤ ×ₗ ℕ => (ofLex k).2) hab
        have hkey : a.attachmentId = b.attachmentId := by
          cases hia : a.attachmentId
          cases hib : b.attachmentId
          simpa [hia, hib] using hids
        exact Table.eq_of_key_eq (Table.mem_select.mp ha).1 (Table.mem_select.mp hb).1 hkey
    simp only [hrows, h.primaryIdentity]

theorem noteAttachment (lib : AttachmentLibrary) (n : NoteId) (attachmentId : AttachmentId) :
    db'.noteAttachment lib actor n attachmentId = db.noteAttachment lib actor n attachmentId := by
  unfold Database.noteAttachment
  rw [h.readableNote]
  cases hrow : db.readableNote actor n with
  | none => rfl
  | some row =>
    have hn := canAccess_of_readableNote hrow
    have hfind : ((db'.noteAttachments.find attachmentId).filter fun row => row.noteId = n) =
        (db.noteAttachments.find attachmentId).filter fun row => row.noteId = n := by
      ext attachment
      simp only [Option.filter_eq_some_iff, Table.find_eq_some, decide_eq_true_eq]
      constructor
      · rintro ⟨⟨hmem, hkey⟩, rfl⟩
        exact ⟨⟨(h.attachments attachment hn).mpr hmem, hkey⟩, rfl⟩
      · rintro ⟨⟨hmem, hkey⟩, rfl⟩
        exact ⟨⟨(h.attachments attachment hn).mp hmem, hkey⟩, rfl⟩
    simp only [hfind, h.primaryIdentity]

theorem activeAccess (n : NoteId) (required : NoteAccess) :
    db'.ActiveAccess actor n required ↔ db.ActiveAccess actor n required := by
  unfold ActiveAccess
  rw [h.hasAccess]
  refine and_congr_left fun haccess => ?_
  have hn : db.CanAccess actor.principalId n := by
    obtain ⟨access, hmem, hid, hp, -⟩ := haccess
    exact ⟨access, hmem, hid, hp, one_le_accessLevel hmem⟩
  constructor
  · rintro ⟨row, hrow, rfl, hactive⟩
    exact ⟨row, (h.mem_notes hn).mpr hrow, rfl, hactive⟩
  · rintro ⟨row, hrow, rfl, hactive⟩
    exact ⟨row, (h.mem_notes hn).mp hrow, rfl, hactive⟩

theorem readOwnedNoteReview (n : NoteId) :
    db'.readOwnedNoteReview actor n = db.readOwnedNoteReview actor n := by
  unfold Database.readOwnedNoteReview requireActiveNoteAccess
  simp only [h.activeAccess]
  by_cases hactive : db.ActiveAccess actor n .manage
  · obtain ⟨access, hmem, hid, hp, -⟩ := hactive.2
    have hn : db.CanAccess actor.principalId n := ⟨access, hmem, hid, hp, one_le_accessLevel hmem⟩
    simp only [hactive, if_true, readNote, h.notes n hn, h.noteDetails]
  · simp only [hactive, if_false]
    rfl

omit h in
/-- An identity is the primary one of one principal. -/
theorem principal_of_primaryIdentity (hdb : db.UniqueKeys) {q q' : PrincipalId}
    {identity : Identity} (hq : db.primaryIdentity q = some identity)
    (hq' : db.primaryIdentity q' = some identity) : q = q' := by
  obtain ⟨a, ha, hia⟩ := Option.map_eq_some_iff.mp hq
  obtain ⟨b, hb, hib⟩ := Option.map_eq_some_iff.mp hq'
  have hab : a = b := hdb.identities a (List.mem_of_find?_eq_some ha) b
    (List.mem_of_find?_eq_some hb) (hia.trans hib.symm)
  have hpa : a.principalId = q ∧ a.isPrimary = true := by simpa using List.find?_some ha
  have hpb : b.principalId = q' ∧ b.isPrimary = true := by simpa using List.find?_some hb
  rw [← hpa.1, ← hpb.1, hab]

theorem readNoteAcl (hdb : db.UniqueKeys) (n : NoteId) :
    db'.readNoteAcl actor n = db.readNoteAcl actor n := by
  unfold Database.readNoteAcl requireActiveNoteAccess
  simp only [h.activeAccess]
  by_cases hactive : db.ActiveAccess actor n .manage
  · obtain ⟨access, hmem, hid, hp, -⟩ := hactive.2
    have hn : db.CanAccess actor.principalId n := ⟨access, hmem, hid, hp, one_le_accessLevel hmem⟩
    have hperm : (db'.noteAcl.select fun row => row.noteId = n).Perm
        (db.noteAcl.select fun row => row.noteId = n) := by
      refine Table.select_perm fun row => ?_
      simp only [decide_eq_true_eq]
      constructor
      · rintro ⟨hmem, rfl⟩
        exact ⟨(h.acl row hn).mpr hmem, rfl⟩
      · rintro ⟨hmem, rfl⟩
        exact ⟨(h.acl row hn).mp hmem, rfl⟩
    have hentries := Table.orderBy_congr
      (g := fun entry : NoteAclEntry => toLex (entry.principal.primaryIdentity.issuer,
        entry.principal.primaryIdentity.subject))
      (hperm.filterMap fun row => (db.primaryIdentity row.principalId).map fun identity =>
        (⟨⟨row.principalId, identity⟩, row.permission⟩ : NoteAclEntry)) fun a ha b hb hab => by
          obtain ⟨r, hr, hra⟩ := List.mem_filterMap.mp ha
          obtain ⟨s, hs, hsb⟩ := List.mem_filterMap.mp hb
          obtain ⟨i, hi, rfl⟩ := Option.map_eq_some_iff.mp hra
          obtain ⟨j, hj, rfl⟩ := Option.map_eq_some_iff.mp hsb
          have hpair : (i.issuer, i.subject) = (j.issuer, j.subject) := toLex.injective hab
          have hij : i = j := by
            cases i
            cases j
            cases hpair
            rfl
          subst hij
          have hprincipal := principal_of_primaryIdentity hdb hi hj
          have hids : r.noteId = s.noteId :=
            (of_decide_eq_true (Table.mem_select.mp hr).2).trans
              (of_decide_eq_true (Table.mem_select.mp hs).2).symm
          have hrs : r = s := Table.eq_of_key_eq
            ((hperm.mem_iff.mp hr |> Table.mem_select.mp).1)
            ((hperm.mem_iff.mp hs |> Table.mem_select.mp).1) (Prod.ext hids hprincipal)
          rw [hrs]
    simp only [hactive, if_true, h.notes n hn, h.primaryIdentity, hentries]
  · simp only [hactive, if_false]
    rfl

end AgreesFor

/-! ## Mutations of hidden notes -/

variable {c : NoteCommand} {lib : AttachmentLibrary}

theorem not_hasAccess (hn : ¬db.CanAccess p n) (k : ℕ) : ¬db.HasAccess p n k := by
  rintro ⟨access, hmem, hid, hp, -⟩
  exact hn ⟨access, hmem, hid, hp, one_le_accessLevel hmem⟩

theorem classifyFailedMutation_hidden (hn : ¬db.CanAccess actor.principalId n)
    (required : NoteAccess) : db.classifyFailedMutation actor n required = .notFound := by
  have hactive : ¬db.ActiveAccess actor n required := fun h => not_hasAccess hn _ h.2
  simp only [classifyFailedMutation, requireActiveNoteAccess, hactive, if_false]

/-- No row passes the guard of a mutation. -/
theorem guardedNoteUpdate_hidden {guard : NoteRow → Prop} [DecidablePred guard]
    {set : NoteRow → NoteRow} (h : ∀ row, db.notes.find n = some row → ¬guard row) :
    db.guardedNoteUpdate n guard set = .ok none := by
  unfold guardedNoteUpdate
  cases hrow : db.notes.find n with
  | none => rfl
  | some row => simp only [h row hrow, if_false]

theorem guardedMutation_hidden (hn : ¬db.CanAccess actor.principalId n) {revision : ℕ}
    {required : NoteAccess} {set : NoteRow → NoteRow} :
    db.guardedNoteUpdate n (db.MutationGuard actor n revision required) set = .ok none :=
  guardedNoteUpdate_hidden fun _ _ h => not_hasAccess hn _ h.2.2

/-- Nobody but the owner restores a note, and the answer does not tell that it exists. -/
theorem restoreOwnedDeletedNote_hidden (hn : ¬db.CanAccess actor.principalId n) (revision : ℕ)
    (restoredAt : ℤ) :
    db.restoreOwnedDeletedNote actor n revision restoredAt = .error (.store .notFound) := by
  have hcreator : ∀ row, db.notes.find n = some row → row.creator ≠ actor.principalId :=
    fun row hrow hcreator => hn (canAccess_iff.mpr (Or.inl ⟨row, hrow, hcreator⟩))
  have hclassify :
      ∀ cutoff, db.classifyFailedRestore actor n revision cutoff = .store .notFound := by
    intro cutoff
    unfold classifyFailedRestore
    cases hrow : db.notes.find n with
    | none => rfl
    | some row =>
      cases hdeleted : row.deletedAt with
      | none => simp [hdeleted]
      | some deletedAt => simp [hdeleted, hcreator row hrow]
  have hnone : ∀ (cutoff : ℤ) (set : NoteRow → NoteRow),
      db.guardedNoteUpdate n (RestoreGuard actor revision cutoff) set = .ok none :=
    fun _ _ => guardedNoteUpdate_hidden fun row hrow hguard => hcreator row hrow hguard.2.2
  simp only [restoreOwnedDeletedNote, hnone, hclassify]
  rfl

/-- Every command on an existing note fails with `NotFound` for a principal without access,
whether or not the note exists. -/
theorem exec_hidden (hn : ¬db.CanAccess c.principalId c.noteId) (hc : c.createdRow = none) :
    c.exec db = .error (.store .notFound) := by
  cases c with
  | create => cases hc
  | update actor noteId revision draft links updatedAt =>
    have hidden : ¬db.CanAccess actor.principalId noteId := hn
    simp only [NoteCommand.exec, updateVisibleNote, updateVisibleNoteWithKind,
      guardedMutation_hidden hidden, classifyFailedMutation_hidden hidden]
    rfl
  | restoreRevision actor noteId revision draft links updatedAt =>
    have hidden : ¬db.CanAccess actor.principalId noteId := hn
    simp only [NoteCommand.exec, restoreVisibleNoteRevision, updateVisibleNoteWithKind,
      guardedMutation_hidden hidden, classifyFailedMutation_hidden hidden]
    rfl
  | softDelete actor noteId revision deletedAt =>
    have hidden : ¬db.CanAccess actor.principalId noteId := hn
    simp only [NoteCommand.exec, softDeleteVisibleNote,
      guardedMutation_hidden hidden, classifyFailedMutation_hidden hidden]
    rfl
  | restore actor noteId revision restoredAt =>
    have hidden : ¬db.CanAccess actor.principalId noteId := hn
    simp only [NoteCommand.exec, restoreOwnedDeletedNote_hidden hidden]
    rfl
  | replaceAcl actor noteId entries revision updatedAt =>
    have hidden : ¬db.CanAccess actor.principalId noteId := hn
    simp only [NoteCommand.exec, replaceNoteAcl,
      guardedMutation_hidden hidden, classifyFailedMutation_hidden hidden]
    rfl
  | markReviewed actor noteId revision reviewedAt =>
    have hidden : ¬db.CanAccess actor.principalId noteId := hn
    simp only [NoteCommand.exec, markOwnedNoteReviewed,
      guardedMutation_hidden hidden, classifyFailedMutation_hidden hidden]
    rfl

theorem createNoteAttachment_hidden {attachment : StoredAttachment lib}
    (hn : ¬db.CanAccess actor.principalId attachment.metadata.noteId)
    (hcreator : attachment.metadata.createdBy.id = actor.principalId) :
    db.createNoteAttachment actor attachment = .error .notFound := by
  have hactive : ¬db.ActiveAccess actor attachment.metadata.noteId .edit :=
    fun h => not_hasAccess hn _ h.2
  simp only [createNoteAttachment, hcreator, hactive, ne_eq, not_true_eq_false, not_false_eq_true,
    if_true, if_false]

theorem deleteUnusedNoteAttachment_hidden (hn : ¬db.CanAccess actor.principalId n)
    (attachmentId : AttachmentId) :
    db.deleteUnusedNoteAttachment actor n attachmentId = .error .notFound := by
  have hactive : ¬db.ActiveAccess actor n .edit := fun h => not_hasAccess hn _ h.2
  simp only [deleteUnusedNoteAttachment, hactive, not_false_eq_true, if_true]

end Database

/-- Two databases that agree on the notes a principal has access to, and on the libraries of
their owners, answer every query of that principal alike. A mutation of a note the principal
has no access to fails with `NotFound` in both, whether or not the note exists there. An
upload names its own principal as the creator, as the service builds it. -/
theorem hidden_notes_do_not_interfere {db db' : Database} {actor : Actor} (hdb : db.UniqueKeys)
    (hdb' : db'.UniqueKeys) (h : db.AgreesFor actor.principalId db') :
    (∀ n, db'.accessibleNote actor n = db.accessibleNote actor n) ∧
    (∀ noteIds, db'.visibleNotesById actor noteIds = db.visibleNotesById actor noteIds) ∧
    (∀ query, db'.listVisibleNotes actor query = db.listVisibleNotes actor query) ∧
    db'.listOwnedDeletedNotes actor = db.listOwnedDeletedNotes actor ∧
    (∀ n, db'.noteViewSnapshot actor n = db.noteViewSnapshot actor n) ∧
    (∀ lib query, db'.readNoteGraph lib actor query = db.readNoteGraph lib actor query) ∧
    (∀ n, db'.listNoteRevisions actor n = db.listNoteRevisions actor n) ∧
    (∀ n revision, db'.noteRevision actor n revision = db.noteRevision actor n revision) ∧
    (∀ lib n, db'.listNoteAttachments lib actor n = db.listNoteAttachments lib actor n) ∧
    (∀ lib n attachmentId,
      db'.noteAttachment lib actor n attachmentId = db.noteAttachment lib actor n attachmentId) ∧
    (∀ n, db'.readNoteAcl actor n = db.readNoteAcl actor n) ∧
    (∀ n, db'.readOwnedNoteReview actor n = db.readOwnedNoteReview actor n) ∧
    ∀ n, ¬db.CanAccess actor.principalId n →
      (∀ c : NoteCommand, c.noteId = n → c.principalId = actor.principalId → c.createdRow = none →
        c.exec db = .error (.store .notFound) ∧ c.exec db' = .error (.store .notFound)) ∧
      (∀ (lib : AttachmentLibrary) (attachment : StoredAttachment lib),
        attachment.metadata.noteId = n → attachment.metadata.createdBy.id = actor.principalId →
        db.createNoteAttachment actor attachment = .error .notFound ∧
          db'.createNoteAttachment actor attachment = .error .notFound) ∧
      ∀ attachmentId, db.deleteUnusedNoteAttachment actor n attachmentId = .error .notFound ∧
        db'.deleteUnusedNoteAttachment actor n attachmentId = .error .notFound := by
  refine ⟨h.accessibleNote, h.visibleNotesById, h.listVisibleNotes, h.listOwnedDeletedNotes,
    h.noteViewSnapshot, fun lib query => ?_, h.listNoteRevisions, h.noteRevision,
    h.listNoteAttachments, h.noteAttachment, h.readNoteAcl hdb, h.readOwnedNoteReview,
    fun n hn => ?_⟩
  · simp only [Database.readNoteGraph, h.noteGraph hdb']
  · have hn' : ¬db'.CanAccess actor.principalId n := mt (h.access n).mp hn
    refine ⟨?_, ?_, fun attachmentId => ?_⟩
    · rintro c rfl hactor hc
      rw [← hactor] at hn hn'
      exact ⟨Database.exec_hidden hn hc, Database.exec_hidden hn' hc⟩
    · rintro lib attachment rfl hcreator
      exact ⟨Database.createNoteAttachment_hidden hn hcreator,
        Database.createNoteAttachment_hidden hn' hcreator⟩
    · exact ⟨Database.deleteUnusedNoteAttachment_hidden hn attachmentId,
        Database.deleteUnusedNoteAttachment_hidden hn' attachmentId⟩

/-! ## A hidden note that refers to a visible one -/

open Database in
/-- Bob has a note. -/
def bobsNote : Database :=
  twoPrincipals.commit
    ((NoteCommand.create bob ⟨8⟩ ⟨"B", "= B", []⟩ ⟨[], [], []⟩ 100 .web).exec twoPrincipals)

open Database in
/-- And Alice has one of her own that refers to it. -/
def withHiddenNote : Database :=
  bobsNote.commit
    ((NoteCommand.create alice ⟨7⟩ ⟨"A", "= A", []⟩ ⟨[⟨8⟩], ["k"], []⟩ 200 .web).exec bobsNote)

theorem canAccess_bobsNote (n : NoteId) : bobsNote.CanAccess ⟨2⟩ n ↔ n = ⟨8⟩ := by
  have hrows : bobsNote.noteAccess = [⟨⟨8⟩, ⟨2⟩, 3⟩] := by decide +kernel
  simp [Database.CanAccess, Database.HasAccess, hrows, eq_comm]

theorem canAccess_withHiddenNote (n : NoteId) : withHiddenNote.CanAccess ⟨2⟩ n ↔ n = ⟨8⟩ := by
  have hrows : withHiddenNote.noteAccess = [⟨⟨8⟩, ⟨2⟩, 3⟩, ⟨⟨7⟩, ⟨1⟩, 3⟩] := by decide +kernel
  simp [Database.CanAccess, Database.HasAccess, hrows, eq_comm]

theorem agreesFor_withHiddenNote : bobsNote.AgreesFor ⟨2⟩ withHiddenNote where
  identities := Table.ext_rows (by decide +kernel)
  access n := by rw [canAccess_bobsNote, canAccess_withHiddenNote]
  notes n hn := by
    rw [(canAccess_bobsNote n).mp hn]
    decide +kernel
  acl row _ := by
    have hsame : withHiddenNote.noteAcl = bobsNote.noteAcl := Table.ext_rows (by decide +kernel)
    rw [hsame]
  revisions row hn := by
    have hkept : ∀ row ∈ bobsNote.noteRevisions, row ∈ withHiddenNote.noteRevisions := by
      decide +kernel
    have hnew : ∀ row ∈ withHiddenNote.noteRevisions, row.noteId = ⟨8⟩ →
        row ∈ bobsNote.noteRevisions := by decide +kernel
    exact ⟨hkept row, fun hmem => hnew row hmem ((canAccess_bobsNote _).mp hn)⟩
  attachments row _ := by
    have hsame : withHiddenNote.noteAttachments = bobsNote.noteAttachments :=
      Table.ext_rows (by decide +kernel)
    rw [hsame]
  references row hn := by
    have hkept : ∀ row ∈ bobsNote.noteReferences, row ∈ withHiddenNote.noteReferences := by
      decide +kernel
    have hnew : ∀ row ∈ withHiddenNote.noteReferences, row.sourceNoteId = ⟨8⟩ →
        row ∈ bobsNote.noteReferences := by decide +kernel
    exact ⟨hkept row, fun hmem => hnew row hmem ((canAccess_bobsNote _).mp hn)⟩
  citations row hn := by
    have hkept : ∀ row ∈ bobsNote.noteCitations, row ∈ withHiddenNote.noteCitations := by
      decide +kernel
    have hnew : ∀ row ∈ withHiddenNote.noteCitations, row.sourceNoteId = ⟨8⟩ →
        row ∈ bobsNote.noteCitations := by decide +kernel
    exact ⟨hkept row, fun hmem => hnew row hmem ((canAccess_bobsNote _).mp hn)⟩
  library _ _ _ _ item _ := by
    have hsame : withHiddenNote.bibliographyItems = bobsNote.bibliographyItems :=
      Table.ext_rows (by decide +kernel)
    rw [hsame]

open Database in
/-- Bob's view of his note does not show Alice's, and he can not tell that hers exists. -/
theorem hidden_notes_do_not_interfere_bob :
    withHiddenNote.noteViewSnapshot bob ⟨8⟩ = bobsNote.noteViewSnapshot bob ⟨8⟩ ∧
      (NoteCommand.softDelete bob ⟨7⟩ 1 300).exec bobsNote = .error (.store .notFound) ∧
      (NoteCommand.softDelete bob ⟨7⟩ 1 300).exec withHiddenNote = .error (.store .notFound) := by
  have hagrees : bobsNote.AgreesFor bob.principalId withHiddenNote := agreesFor_withHiddenNote
  have h := hidden_notes_do_not_interfere ⟨by decide +kernel, by decide +kernel⟩
    ⟨by decide +kernel, by decide +kernel⟩ hagrees
  obtain ⟨-, -, -, -, hview, -, -, -, -, -, -, -, hhidden⟩ := h
  refine ⟨hview ⟨8⟩, (hhidden ⟨7⟩ ?_).1 (.softDelete bob ⟨7⟩ 1 300) rfl rfl rfl⟩
  show ¬bobsNote.CanAccess ⟨2⟩ ⟨7⟩
  rw [canAccess_bobsNote]
  decide

end Marginalis
