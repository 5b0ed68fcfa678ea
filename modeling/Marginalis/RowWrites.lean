import Marginalis.DeliveryQueues

/-!
# Writes and the changes that record them

The triggers of `notes` and `bibliography_items` record what is written there. A transaction
leads from the rows before it to the rows after it by writes to single rows, and the changes it
records are those of its writes, one for each and in their order (`RecordsWrites`). The changes
of access it records in between are of kinds no subscription receives.
-/

namespace Marginalis

/-- The tables whose rows owners subscribe to. -/
structure RowTables where
  notes : Table NoteRow
  items : Table BibliographyItemRow

def Database.rowTables (db : Database) : RowTables := ⟨db.notes, db.bibliographyItems⟩

/-- A write to one row. -/
inductive RowWrite
  | insertNote (new : NoteRow)
  | updateNote (old new : NoteRow)
  | insertItem (new : BibliographyItemRow)
  | updateItem (old new : BibliographyItemRow)
  | deleteItem (old : BibliographyItemRow)

namespace RowWrite

/-- The change a write is recorded by : of its kind, with the owner, the target and the revision
of the row. An update of an item that keeps the revision is not recorded. -/
def change : RowWrite → Option DomainChange
  | insertNote new =>
    some ⟨new.creator, none, .noteCreated, new.noteId.entityId, new.revision, new.updatedAt⟩
  | updateNote old new =>
    some ⟨new.creator, none, old.updateKind new, new.noteId.entityId, new.revision, new.updatedAt⟩
  | insertItem new =>
    some ⟨new.owner, none, .bibliographyItemCreated, new.itemId.entityId, new.revision,
      new.updatedAt⟩
  | updateItem old new =>
    if new.revision = old.revision then none
    else some ⟨new.owner, none, .bibliographyItemUpdated, new.itemId.entityId, new.revision,
      new.updatedAt⟩
  | deleteItem old =>
    some ⟨old.owner, none, .bibliographyItemDeleted, old.itemId.entityId, old.revision,
      old.updatedAt⟩

/-- A row is inserted under a new id, and updated or deleted where it is stored. -/
inductive Step (t : RowTables) : RowWrite → RowTables → Prop
  | insertNote {new : NoteRow} {notes : Table NoteRow} (h : t.notes.insert? new = some notes) :
      Step t (.insertNote new) { t with notes := notes }
  | updateNote {old new : NoteRow} (hold : t.notes.find new.noteId = some old) :
      Step t (.updateNote old new) { t with notes := t.notes.upsert new }
  | insertItem {new : BibliographyItemRow} {items : Table BibliographyItemRow}
      (h : t.items.insert? new = some items) : Step t (.insertItem new) { t with items := items }
  | updateItem {old new : BibliographyItemRow} (hold : t.items.find new.itemId = some old) :
      Step t (.updateItem old new) { t with items := t.items.upsert new }
  | deleteItem {old : BibliographyItemRow} (hold : t.items.find old.itemId = some old) :
      Step t (.deleteItem old)
        { t with items := t.items.deleteWhere fun row => row.itemId = old.itemId }

theorem isAccessChange_of_change {w : RowWrite} {c : DomainChange} (h : w.change = some c) :
    c.changeKind.isAccessChange = false := by
  cases w with
  | insertNote new | insertItem new | deleteItem new =>
    cases h
    rfl
  | updateNote old new =>
    cases h
    unfold NoteRow.updateKind
    split_ifs <;> rfl
  | updateItem old new =>
    simp only [change] at h
    split_ifs at h
    cases h
    rfl

end RowWrite

namespace Database

/-- The transaction is a run of writes, and each is recorded by a change of its own. -/
def RecordsWrites (db db' : Database) : Prop :=
  ∃ (writes : List (Move RowTables RowWrite)) (changes : List DomainChangeRow),
    Run RowWrite.Step db.rowTables writes db'.rowTables ∧
    changes.map DomainChangeRow.toDomainChange = writes.filterMap (·.label.change) ∧
    changes.Pairwise (·.changeSequence < ·.changeSequence) ∧
    ∀ row, row ∈ changes ↔ row ∈ db'.domainChanges ∧
      db.lastChangeSequence < row.changeSequence ∧ row.changeKind.isAccessChange = false

variable {db db' db'' : Database}

/-- A transaction that leaves the rows alone records changes of access only. -/
theorem recordsWrites_of_rows (hrows : db'.rowTables = db.rowTables)
    (h : ∀ row ∈ db'.domainChanges, db.lastChangeSequence < row.changeSequence →
      row.changeKind.isAccessChange = true) : db.RecordsWrites db' := by
  refine ⟨[], [], hrows ▸ .nil _, rfl, .nil, fun row => ?_⟩
  simp only [List.not_mem_nil, false_iff]
  rintro ⟨hrow, hlt, hkind⟩
  simp [h row hrow hlt] at hkind

theorem recordsWrites_of_subset (hbound : db.LogBounded) (hrows : db'.rowTables = db.rowTables)
    (h : ∀ row, row ∈ db'.domainChanges → row ∈ db.domainChanges) : db.RecordsWrites db' :=
  recordsWrites_of_rows hrows fun row hrow hlt => absurd (hbound row (h row hrow)) (by omega)

/-- A write with its change. -/
theorem recordsWrites_recordChange {db₀ : Database} {w : RowWrite} {c : DomainChange}
    (hbound : db.LogBounded) (hsame : db.SameChanges db₀)
    (hstep : RowWrite.Step db.rowTables w db₀.rowTables) (hchange : w.change = some c) :
    db.RecordsWrites (db₀.recordChange c) := by
  have hbound₀ : db₀.LogBounded := by
    unfold LogBounded
    rw [hsame.domainChanges, hsame.lastChangeSequence]
    exact hbound
  refine ⟨[⟨db.rowTables, w, db₀.rowTables⟩], [db₀.nextChange c], .snoc (.nil _) hstep, ?_,
    List.pairwise_singleton _ _, fun row => ?_⟩
  · simp [hchange, nextChange]
  · rw [List.mem_singleton, mem_recordChange hbound₀, hsame.domainChanges]
    constructor
    · rintro rfl
      have hnext : (db₀.nextChange c).changeSequence = db.lastChangeSequence + 1 :=
        congrArg (· + 1) hsame.lastChangeSequence
      exact ⟨Or.inr rfl, by omega, RowWrite.isAccessChange_of_change hchange⟩
    · rintro ⟨hrow | hrow, hlt, -⟩
      · exact absurd (hbound row hrow) (by omega)
      · exact hrow

theorem RecordsWrites.trans (h : db.RecordsWrites db') (h' : db'.RecordsWrites db'')
    (hfirst : db.FansOut db') (hsecond : db'.FansOut db'') (hbound : db'.LogBounded) :
    db.RecordsWrites db'' := by
  obtain ⟨writes, changes, hrun, hmap, hsorted, hmem⟩ := h
  obtain ⟨writes', changes', hrun', hmap', hsorted', hmem'⟩ := h'
  refine ⟨writes ++ writes', changes ++ changes', hrun.append hrun', ?_, ?_, fun row => ?_⟩
  · rw [List.map_append, List.filterMap_append, hmap, hmap']
  · refine List.pairwise_append.mpr ⟨hsorted, hsorted', fun row hrow row' hrow' => ?_⟩
    exact (hbound row ((hmem row).mp hrow).1).trans_lt ((hmem' row').mp hrow').2.1
  · rw [List.mem_append, hmem, hmem']
    have hle := hfirst.last_le
    constructor
    · rintro (⟨hrow, hlt, hkind⟩ | ⟨hrow, hlt, hkind⟩)
      · exact ⟨hsecond.mem_changes row hrow, hlt, hkind⟩
      · exact ⟨hrow, by omega, hkind⟩
    · rintro ⟨hrow, hlt, hkind⟩
      rcases hsecond.changes_cases row hrow with hrow | ⟨hlt', -⟩
      · exact Or.inl ⟨hrow, hlt, hkind⟩
      · exact Or.inr ⟨hrow, hlt', hkind⟩

end Database

open Database

variable {db db' : Database}

/-- A change of access is recorded beside the writes. -/
theorem recordsWrites_recordAccessChange {db₀ : Database} {kind : ChangeKind} {row : AclRow}
    (hbound : db.LogBounded) (hsame : db.SameChanges db₀) (hrows : db₀.rowTables = db.rowTables)
    (hkind : kind.isAccessChange = true) :
    db.RecordsWrites (db₀.recordAccessChange kind row) := by
  have hbound₀ : db₀.LogBounded := by
    unfold LogBounded
    rw [hsame.domainChanges, hsame.lastChangeSequence]
    exact hbound
  unfold recordAccessChange
  split
  · refine recordsWrites_of_rows hrows fun change hchange hlt => ?_
    rcases (mem_recordChange hbound₀).mp hchange with hchange | rfl
    · exact absurd (hbound change (hsame.domainChanges ▸ hchange)) (by omega)
    · exact hkind
  · exact recordsWrites_of_subset hbound hrows fun change hchange => hsame.domainChanges ▸ hchange

/-- A statement writes one row at most and records it. -/
theorem Statement.recordsWrites (hbound : db.LogBounded) (h : Statement db db') :
    db.RecordsWrites db' := by
  cases h with
  | @insertNote new _ hactive h =>
    obtain ⟨notes, -, -, hinsert, rfl⟩ := insertNoteRow_eq_ok.mp h
    refine recordsWrites_recordChange hbound ?_ (.insertNote hinsert) rfl
    exact ⟨rfl, rfl, rfl, rfl, rfl, rfl, rfl⟩
  | updateNote hold hcreator hactive h =>
    obtain ⟨-, rfl⟩ := updateNoteRow_eq_ok.mp h
    refine recordsWrites_recordChange hbound ?_ (.updateNote hold) rfl
    exact ⟨rfl, rfl, rfl, rfl, rfl, rfl, rfl⟩
  | deleteAcl row hrow =>
    refine recordsWrites_recordAccessChange hbound ?_ rfl rfl
    exact ⟨rfl, rfl, rfl, rfl, rfl, rfl, rfl⟩
  | insertAcl hactive h =>
    obtain ⟨note, acl, -, -, -, -, rfl⟩ := insertAclRow_eq_ok.mp h
    refine recordsWrites_recordAccessChange hbound ?_ rfl rfl
    exact ⟨rfl, rfl, rfl, rfl, rfl, rfl, rfl⟩
  | insertItem h =>
    obtain ⟨items, hinsert, rfl⟩ := insertBibliographyItemRow_eq_ok h
    refine recordsWrites_recordChange hbound ?_ (.insertItem hinsert) rfl
    exact ⟨rfl, rfl, rfl, rfl, rfl, rfl, rfl⟩
  | @updateItem old new _ hold h =>
    have hstep : RowWrite.Step db.rowTables (.updateItem old new)
      { db.rowTables with items := db.bibliographyItems.upsert new } := .updateItem hold
    rcases updateBibliographyItemRow_eq_ok h with ⟨hsame, rfl⟩ | ⟨hmoved, rfl⟩
    · refine ⟨[⟨_, _, _⟩], [], .snoc (.nil _) hstep, ?_, .nil, fun row => ?_⟩
      · simp [RowWrite.change, hsame]
      · simp only [List.not_mem_nil, false_iff]
        exact fun hrow => absurd (hbound row hrow.1) (by omega)
    · refine recordsWrites_recordChange hbound ?_ hstep (if_neg hmoved)
      exact ⟨rfl, rfl, rfl, rfl, rfl, rfl, rfl⟩
  | deleteItem old hold =>
    refine recordsWrites_recordChange hbound ?_ (.deleteItem hold) rfl
    exact ⟨rfl, rfl, rfl, rfl, rfl, rfl, rfl⟩
  | content => exact recordsWrites_of_subset hbound rfl fun _ h => h

/-- A transaction records its writes, each by a change of its own. -/
theorem Statements.recordsWrites (hkeys : db.OutboxKeys) (h : Statements db db') :
    db.RecordsWrites db' := by
  induction h with
  | refl => exact recordsWrites_of_subset hkeys.bounded rfl fun _ h => h
  | tail hbefore hlast ih =>
    have hfans := Statements.fansOut hkeys hbefore
    have hkeys' := hfans.outboxKeys hkeys
    exact ih.trans (hlast.recordsWrites hkeys'.bounded) hfans (hlast.fansOut hkeys') hkeys'.bounded

end Marginalis
