import Marginalis.NoteStages
import Mathlib.Logic.Relation

/-!
# Transactions as sequences of statements

A committed transaction on notes is a sequence of SQL statements, each with the triggers it
fires (`Statement`). What has to hold of the tables the triggers maintain is proved on one
statement and then holds of every transaction (`NoteCommand.exec_statements`).
-/

namespace Marginalis

open Relation

/-- One write to a table, row by row, with its triggers. An update or a delete is of a stored
row. A deleted note is changed by its restore only, and gets no grants. `content` writes tables
that no trigger and no foreign key of the others depends on. -/
inductive Statement (db : Database) : Database → Prop
  | insertNote {new : NoteRow} {db' : Database} (hactive : new.deletedAt = none)
      (h : db.insertNoteRow new = .ok db') : Statement db db'
  | updateNote {old new : NoteRow} {db' : Database} (hold : db.notes.find new.noteId = some old)
      (hcreator : new.creator = old.creator)
      (hactive : old.deletedAt = none ∨ new.deletedAt = none)
      (h : db.updateNoteRow old new = .ok db') : Statement db db'
  | deleteAcl (row : AclRow) (hrow : row ∈ db.noteAcl) : Statement db (db.deleteAclRow row)
  | insertAcl {row : AclRow} {db' : Database}
      (hactive : ∀ note, db.notes.find row.noteId = some note → note.deletedAt = none)
      (h : db.insertAclRow row = .ok db') : Statement db db'
  | insertItem {new : BibliographyItemRow} {db' : Database}
      (h : db.insertBibliographyItemRow new = .ok db') : Statement db db'
  | updateItem {old new : BibliographyItemRow} {db' : Database}
      (hold : db.bibliographyItems.find new.itemId = some old)
      (h : db.updateBibliographyItemRow old new = .ok db') : Statement db db'
  | deleteItem (old : BibliographyItemRow)
      (hold : db.bibliographyItems.find old.itemId = some old) :
      Statement db (db.deleteBibliographyItemRow old)
  | content (noteRevisions : Table NoteRevisionRow) (noteAttachments : Table AttachmentRow)
      (noteRevisionAttachments : Table RevisionAttachmentRow)
      (noteReferences : Table ReferenceRow) (noteCitations : Table CitationRow)
      (bibliographyImportSources : Table ImportSourceRow)
      (bibliographyImportLinks : Table ImportLinkRow) (mathMacroSettings : Table MathMacroRow) :
      Statement db { db with
        noteRevisions := noteRevisions
        noteAttachments := noteAttachments
        noteRevisionAttachments := noteRevisionAttachments
        noteReferences := noteReferences
        noteCitations := noteCitations
        bibliographyImportSources := bibliographyImportSources
        bibliographyImportLinks := bibliographyImportLinks
        mathMacroSettings := mathMacroSettings }

/-- The statements of a transaction, in order. -/
abbrev Statements : Database → Database → Prop := ReflTransGen Statement

namespace Database

variable {db db' : Database}

theorem noteAcl_recordAccessChange (db : Database) (kind : ChangeKind) (row : AclRow) :
    (db.recordAccessChange kind row).noteAcl = db.noteAcl := by
  unfold recordAccessChange
  cases db.notes.find row.noteId <;> rfl

theorem noteAcl_deleteAclRow (db : Database) (row : AclRow) :
    (db.deleteAclRow row).noteAcl = db.noteAcl.deleteWhere fun r =>
      r.noteId = row.noteId ∧ r.principalId = row.principalId :=
  noteAcl_recordAccessChange _ _ _

/-- Deleting rows of `note_acl` one after the other : each is still there when its turn comes. -/
theorem statements_deleteAclRows {rows : List AclRow} (hnodup : (rows.map Keyed.key).Nodup)
    (hrows : ∀ row ∈ rows, row ∈ db.noteAcl) : Statements db (rows.foldl deleteAclRow db) := by
  induction rows generalizing db with
  | nil => exact .refl
  | cons row rows ih =>
    rw [List.map_cons, List.nodup_cons] at hnodup
    have hrow : row ∈ db.noteAcl := hrows row (List.mem_cons_self ..)
    refine ReflTransGen.head (.deleteAcl row hrow) (ih hnodup.2 fun r hr => ?_)
    rw [noteAcl_deleteAclRow, Table.mem_deleteWhere]
    refine ⟨hrows r (List.mem_cons_of_mem _ hr), ?_⟩
    simp only [decide_eq_false_iff_not]
    rintro ⟨hn, hp⟩
    refine hnodup.1 (List.mem_map.mpr ⟨r, hr, ?_⟩)
    simp [Keyed.key, hn, hp]

end Database

/-! ## At most one recorded change -/

/-- The tables that only a recorded change writes are the same. -/
structure Database.SameChanges (db db' : Database) : Prop where
  domainChanges : db'.domainChanges = db.domainChanges
  lastChangeSequence : db'.lastChangeSequence = db.lastChangeSequence
  latestNoteChangeSequence : db'.latestNoteChangeSequence = db.latestNoteChangeSequence
  noteSyncProjection : db'.noteSyncProjection = db.noteSyncProjection
  noteSyncCursors : db'.noteSyncCursors = db.noteSyncCursors
  webhookSubscriptions : db'.webhookSubscriptions = db.webhookSubscriptions
  webhookDeliveries : db'.webhookDeliveries = db.webhookDeliveries

theorem Database.SameChanges.of_eq {db db' : Database} (h : db' = db) : db.SameChanges db' := by
  subst h
  exact ⟨rfl, rfl, rfl, rfl, rfl, rfl, rfl⟩

theorem Database.recordAccessChange_cases (db : Database) (kind : ChangeKind) (row : AclRow) :
    db.recordAccessChange kind row = db ∨
    ∃ c, db.recordAccessChange kind row = db.recordChange c := by
  unfold recordAccessChange
  cases db.notes.find row.noteId with
  | none => exact Or.inl rfl
  | some note => exact Or.inr ⟨_, rfl⟩

theorem Database.insertBibliographyItemRow_eq_ok {db db' : Database} {new : BibliographyItemRow}
    (h : db.insertBibliographyItemRow new = .ok db') : ∃ items,
      db.bibliographyItems.insert? new = some items ∧
      db' = recordChange { db with bibliographyItems := items } ⟨new.owner, none,
        .bibliographyItemCreated, new.itemId.entityId, new.revision, new.updatedAt⟩ := by
  unfold insertBibliographyItemRow at h
  split_ifs at h
  split at h
  · next items hinsert =>
    cases h
    exact ⟨items, hinsert, rfl⟩
  · cases h

theorem Database.updateBibliographyItemRow_eq_ok {db db' : Database}
    {old new : BibliographyItemRow} (h : db.updateBibliographyItemRow old new = .ok db') :
    new.revision = old.revision ∧
        db' = { db with bibliographyItems := db.bibliographyItems.upsert new } ∨
      new.revision ≠ old.revision ∧
        db' = recordChange { db with bibliographyItems := db.bibliographyItems.upsert new }
          ⟨new.owner, none, .bibliographyItemUpdated, new.itemId.entityId, new.revision,
            new.updatedAt⟩ := by
  unfold updateBibliographyItemRow at h
  split_ifs at h with hcheck hrevision <;> cases h
  · exact Or.inr ⟨hrevision, rfl⟩
  · exact Or.inl ⟨not_not.mp hrevision, rfl⟩

/-- A statement records one change at most, after a write to tables of its own. -/
theorem Statement.recordChange_cases {db db' : Database} (h : Statement db db') :
    db.SameChanges db' ∨ ∃ db₀ c, db.SameChanges db₀ ∧ db' = db₀.recordChange c := by
  cases h with
  | insertNote hactive h =>
    obtain ⟨notes, -, -, -, rfl⟩ := Database.insertNoteRow_eq_ok.mp h
    refine Or.inr ⟨_, _, ?_, rfl⟩
    exact ⟨rfl, rfl, rfl, rfl, rfl, rfl, rfl⟩
  | updateNote hold hcreator hactive h =>
    obtain ⟨-, rfl⟩ := Database.updateNoteRow_eq_ok.mp h
    refine Or.inr ⟨_, _, ?_, rfl⟩
    exact ⟨rfl, rfl, rfl, rfl, rfl, rfl, rfl⟩
  | deleteAcl row hrow =>
    rcases Database.recordAccessChange_cases { db with noteAcl := db.noteAcl.deleteWhere fun r =>
      r.noteId = row.noteId ∧ r.principalId = row.principalId } .noteAccessRevoked row
      with h | ⟨c, h⟩
    · exact Or.inl (by
        unfold Database.deleteAclRow
        rw [h]
        exact ⟨rfl, rfl, rfl, rfl, rfl, rfl, rfl⟩)
    · refine Or.inr ⟨_, c, ?_, h⟩
      exact ⟨rfl, rfl, rfl, rfl, rfl, rfl, rfl⟩
  | @insertAcl row _ hactive h =>
    obtain ⟨note, acl, -, -, -, -, rfl⟩ := Database.insertAclRow_eq_ok.mp h
    rcases Database.recordAccessChange_cases { db with noteAcl := acl } .noteAccessGranted row
      with h | ⟨c, h⟩
    · exact Or.inl (by
        rw [h]
        exact ⟨rfl, rfl, rfl, rfl, rfl, rfl, rfl⟩)
    · refine Or.inr ⟨_, c, ?_, h⟩
      exact ⟨rfl, rfl, rfl, rfl, rfl, rfl, rfl⟩
  | insertItem h =>
    obtain ⟨items, -, rfl⟩ := Database.insertBibliographyItemRow_eq_ok h
    refine Or.inr ⟨_, _, ?_, rfl⟩
    exact ⟨rfl, rfl, rfl, rfl, rfl, rfl, rfl⟩
  | updateItem hold h =>
    rcases Database.updateBibliographyItemRow_eq_ok h with ⟨-, rfl⟩ | ⟨-, rfl⟩
    · exact Or.inl ⟨rfl, rfl, rfl, rfl, rfl, rfl, rfl⟩
    · refine Or.inr ⟨_, _, ?_, rfl⟩
      exact ⟨rfl, rfl, rfl, rfl, rfl, rfl, rfl⟩
  | deleteItem old hold =>
    refine Or.inr ⟨_, _, ?_, rfl⟩
    exact ⟨rfl, rfl, rfl, rfl, rfl, rfl, rfl⟩
  | content => exact Or.inl ⟨rfl, rfl, rfl, rfl, rfl, rfl, rfl⟩

namespace NoteCommand

variable {c : NoteCommand} {db db' written shared : Database}

/-- Only a restore changes a deleted note, and it is not deleted afterwards. -/
theorem Guard.active {old : NoteRow} (h : c.Guard db old) :
    old.deletedAt = none ∨ (c.set old).deletedAt = none := by
  cases c with
  | create => exact h.elim
  | restore => exact Or.inr rfl
  | update | restoreRevision | softDelete | replaceAcl | markReviewed => exact Or.inl h.2.1

theorem Writes.statement (h : c.Writes db written) : Statement db written := by
  cases h with
  | insert hnew h => exact .insertNote (createdRow_eq_some hnew).2.2.2.2 h
  | @update old _ hold hguard h =>
    have hid : old.noteId = c.noteId := Table.key_of_find hold
    have hset : db.notes.find (c.set old).noteId = some old := by rw [noteId_set, hid, hold]
    exact .updateNote hset creator_set hguard.active h

/-- A command that replaces the grants of a note found it active and left it so. -/
theorem Writes.active_of_entries (h : c.Writes db written) {entries : List NoteAclEntry}
    (hentries : c.entries = some entries) :
    ∀ note, written.notes.find c.noteId = some note → note.deletedAt = none := by
  intro note hnote
  cases c with
  | create | update | restoreRevision | softDelete | restore | markReviewed => cases hentries
  | replaceAcl =>
    cases h with
    | insert hnew h => cases hnew
    | @update old _ hold hguard h =>
      obtain ⟨-, rfl⟩ := Database.updateNoteRow_eq_ok.mp h
      have hid : old.noteId = _ := Table.key_of_find hold
      simp only [Database.recordChange_notes, Table.find_upsert, Keyed.key, noteId_set, hid,
        if_true, Option.some.injEq] at hnote
      exact hnote ▸ hguard.2.1

theorem Shares.statements (h : c.Shares db shared) (hactive : ∀ entries, c.entries = some entries →
    ∀ note, db.notes.find c.noteId = some note → note.deletedAt = none) :
    Statements db shared := by
  unfold Shares at h
  cases hentries : c.entries with
  | none =>
    rw [hentries] at h
    exact h ▸ .refl
  | some entries =>
    rw [hentries] at h
    have hactive := hactive entries hentries
    have hdeleted := Database.sameContent_deleteAclRows
      (db.noteAcl.select fun row => row.noteId = c.noteId) db
    refine (Except.foldlM_invariant (P := fun s => Statements db s ∧ s.notes = db.notes) h
      ⟨?_, hdeleted.notes⟩ ?_).1
    · exact Database.statements_deleteAclRows Table.nodup_select
        fun row hrow => (Table.mem_select.mp hrow).1
    · rintro s entry t - ⟨hs, hnotes⟩ hstep
      have ht := Database.sameContent_insertAclRow hstep
      exact ⟨hs.tail (.insertAcl (hnotes ▸ hactive) hstep), ht.notes.trans hnotes⟩

/-- A committed command is a sequence of statements. -/
theorem exec_statements (h : c.exec db = .ok db') : Statements db db' := by
  obtain ⟨written, shared, references, citations, revisions, attachments, hw, hs, rfl⟩ := exec_eq h
  have hshared := hs.statements fun entries => hw.active_of_entries
  exact (ReflTransGen.head hw.statement hshared).tail
    (.content revisions shared.noteAttachments attachments references citations
      shared.bibliographyImportSources shared.bibliographyImportLinks shared.mathMacroSettings)

end NoteCommand

end Marginalis
