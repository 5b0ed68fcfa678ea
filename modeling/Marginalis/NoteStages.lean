import Marginalis.Notes
import Marginalis.Result

/-!
# The stages of a note command

Whatever a note command does, a committed one went through the same five stages : it wrote
one row of `notes` (`NoteCommand.Writes`), replaced the grants of the note
(`NoteCommand.Shares`), replaced its links, appended one row to the history and, when the
source changed, the attachments of that row. `NoteCommand.exec_stages` is that
decomposition, and the only place where the commands are unfolded.
-/

namespace Marginalis

open Database

namespace NoteCommand

/-- The `SET` clause of a command. -/
def set (row : NoteRow) : NoteCommand → NoteRow
  | create .. => row
  | update _ _ _ draft _ updatedAt | restoreRevision _ _ _ draft _ updatedAt =>
    { row with
      title := draft.title
      source := draft.source
      tags := draft.tags
      updatedAt := updatedAt
      reviewTrackingKnown := true
      revision := row.revision + 1 }
  | softDelete _ _ _ deletedAt =>
    { row with
      deletedAt := some deletedAt
      updatedAt := deletedAt
      reviewTrackingKnown := true
      revision := row.revision + 1 }
  | restore _ _ _ restoredAt =>
    { row with
      deletedAt := none
      updatedAt := restoredAt
      reviewTrackingKnown := true
      revision := row.revision + 1 }
  | replaceAcl _ _ _ _ updatedAt =>
    { row with
      revision := row.revision + 1
      updatedAt := updatedAt
      reviewTrackingKnown := true }
  | markReviewed actor _ _ reviewedAt =>
    { row with
      reviewTrackingKnown := true
      review := some ⟨row.revision + 1, reviewedAt, actor.principalId⟩
      updatedAt := reviewedAt
      revision := row.revision + 1 }

/-- The `WHERE` clause of a command. A creation updates nothing. -/
def Guard (db : Database) (row : NoteRow) : NoteCommand → Prop
  | create .. => False
  | update actor noteId revision .. | restoreRevision actor noteId revision .. =>
    db.MutationGuard actor noteId revision .edit row
  | softDelete actor noteId revision _ | replaceAcl actor noteId _ revision _
  | markReviewed actor noteId revision _ => db.MutationGuard actor noteId revision .manage row
  | restore actor _ revision restoredAt =>
    RestoreGuard actor revision (saturatingSub restoredAt softDeleteRetentionMs) row

/-- The revision kind a command records. -/
def kind : NoteCommand → NoteRevisionKind
  | create .. => .created
  | update .. => .contentUpdated
  | restoreRevision .. => .historyRestored
  | softDelete .. => .deleted
  | restore .. => .restored
  | replaceAcl .. => .aclUpdated
  | markReviewed .. => .reviewed

/-- The links a command stores, when it changes the source. -/
def links : NoteCommand → Option NoteLinks
  | create _ _ _ links .. | update _ _ _ _ links _ | restoreRevision _ _ _ _ links _ => some links
  | _ => none

/-- The grants a command stores. -/
def entries : NoteCommand → Option (List NoteAclEntry)
  | replaceAcl _ _ entries .. => some entries
  | _ => none

/-- The row of a created note. -/
def createdRow : NoteCommand → Option NoteRow
  | create actor noteId draft _ createdAt createdVia =>
    some (Note.create noteId actor.principal draft createdAt createdVia).toRow
  | _ => none

/-- The write of a command to `notes` : the insert of a creation, the guarded update of
any other. -/
inductive Writes (c : NoteCommand) (db : Database) : Database → Prop
  | insert {new : NoteRow} {written : Database} (hnew : c.createdRow = some new)
      (h : db.insertNoteRow new = .ok written) : Writes c db written
  | update {old : NoteRow} {written : Database} (hold : db.notes.find c.noteId = some old)
      (hguard : c.Guard db old) (h : db.updateNoteRow old (c.set old) = .ok written) :
      Writes c db written

/-- The write of a command to `note_acl`. -/
def Shares (c : NoteCommand) (db shared : Database) : Prop :=
  match c.entries with
  | none => shared = db
  | some entries =>
    entries.foldlM
      (fun db entry => db.insertAclRow ⟨c.noteId, entry.principal.id, entry.permission⟩)
      ((db.noteAcl.select fun row => row.noteId = c.noteId).foldl deleteAclRow db) = .ok shared

/-- The history row of a command, after its links and before its attachments. -/
def Records (c : NoteCommand) (db recorded : Database) : Prop :=
  (match c.links with
    | none => db
    | some links => db.replaceLinkRows c.noteId links).insertNoteRevision
      c.noteId c.principalId c.kind = .ok recorded

/-- The attachments a command gives its revision, when it changes the source. -/
def Attaches (c : NoteCommand) (db attached : Database) : Prop :=
  match c.links with
  | none => attached = db
  | some links => db.replaceNoteRevisionAttachments c.noteId links.attachmentIds = .ok attached

end NoteCommand

theorem Database.guardedNoteUpdate_eq_ok {db written : Database} {noteId : NoteId}
    {guard : NoteRow → Prop} [DecidablePred guard] {set : NoteRow → NoteRow} :
    db.guardedNoteUpdate noteId guard set = .ok (some written) ↔
      ∃ old, db.notes.find noteId = some old ∧ guard old ∧
        db.updateNoteRow old (set old) = .ok written := by
  unfold guardedNoteUpdate
  cases db.notes.find noteId with
  | none => simp
  | some old =>
    by_cases hg : guard old
    · simp [hg, Except.map_eq_ok]
    · simp [hg]

namespace NoteCommand

variable {c : NoteCommand} {db db' : Database}

/-- The stages of a committed command. -/
theorem exec_stages (h : c.exec db = .ok db') :
    ∃ written shared recorded, c.Writes db written ∧ c.Shares written shared ∧
      (c.createdRow = none → ∃ note, shared.readNote c.noteId = .ok note) ∧
      c.Records shared recorded ∧ c.Attaches recorded db' := by
  cases c with
  | create actor noteId draft links createdAt createdVia =>
    simp only [exec, createNote, Except.mapError_eq_ok, Except.bind_eq_ok] at h
    obtain ⟨written, hw, recorded, hr, ha⟩ := h
    exact ⟨written, written, recorded, .insert rfl hw, rfl, by simp [createdRow], hr, ha⟩
  | update actor noteId revision draft links updatedAt =>
    simp only [exec, updateVisibleNote, updateVisibleNoteWithKind, Except.mapError_eq_ok,
      Except.map_eq_ok, Except.bind_eq_ok] at h
    obtain ⟨⟨note, db''⟩, ⟨_ | written, hw, h⟩, rfl⟩ := h
    · cases h
    · obtain ⟨old, hold, hguard, hw⟩ := guardedNoteUpdate_eq_ok.mp hw
      simp only [Except.bind_eq_ok] at h
      obtain ⟨note, hn, recorded, hr, attached, ha, h⟩ := h
      cases h
      exact ⟨written, written, recorded, .update hold hguard hw, rfl, fun _ => ⟨note, hn⟩, hr, ha⟩
  | restoreRevision actor noteId revision draft links updatedAt =>
    simp only [exec, restoreVisibleNoteRevision, updateVisibleNoteWithKind, Except.mapError_eq_ok,
      Except.map_eq_ok, Except.bind_eq_ok] at h
    obtain ⟨⟨note, db''⟩, ⟨_ | written, hw, h⟩, rfl⟩ := h
    · cases h
    · obtain ⟨old, hold, hguard, hw⟩ := guardedNoteUpdate_eq_ok.mp hw
      simp only [Except.bind_eq_ok] at h
      obtain ⟨note, hn, recorded, hr, attached, ha, h⟩ := h
      cases h
      exact ⟨written, written, recorded, .update hold hguard hw, rfl, fun _ => ⟨note, hn⟩, hr, ha⟩
  | softDelete actor noteId revision deletedAt =>
    simp only [exec, softDeleteVisibleNote, Except.mapError_eq_ok, Except.map_eq_ok,
      Except.bind_eq_ok] at h
    obtain ⟨⟨note, db''⟩, ⟨_ | written, hw, h⟩, rfl⟩ := h
    · cases h
    · obtain ⟨old, hold, hguard, hw⟩ := guardedNoteUpdate_eq_ok.mp hw
      simp only [Except.bind_eq_ok] at h
      obtain ⟨note, hn, recorded, hr, h⟩ := h
      cases h
      exact ⟨written, written, _, .update hold hguard hw, rfl, fun _ => ⟨note, hn⟩, hr, rfl⟩
  | restore actor noteId revision restoredAt =>
    simp only [exec, restoreOwnedDeletedNote, Except.mapError_eq_ok, Except.map_eq_ok,
      Except.bind_eq_ok] at h
    obtain ⟨⟨note, db''⟩, ⟨_ | written, hw, h⟩, rfl⟩ := h
    · cases h
    · obtain ⟨old, hold, hguard, hw⟩ := guardedNoteUpdate_eq_ok.mp hw
      simp only [Except.bind_eq_ok, Except.mapError_eq_ok] at h
      obtain ⟨note, hn, recorded, hr, h⟩ := h
      cases h
      exact ⟨written, written, _, .update hold hguard hw, rfl, fun _ => ⟨note, hn⟩, hr, rfl⟩
  | replaceAcl actor noteId entries revision updatedAt =>
    simp only [exec, replaceNoteAcl, Except.mapError_eq_ok, Except.map_eq_ok,
      Except.bind_eq_ok] at h
    obtain ⟨⟨note, db''⟩, ⟨_ | written, hw, h⟩, rfl⟩ := h
    · cases h
    · obtain ⟨old, hold, hguard, hw⟩ := guardedNoteUpdate_eq_ok.mp hw
      simp only [Except.bind_eq_ok] at h
      obtain ⟨shared, hs, note, hn, recorded, hr, h⟩ := h
      cases h
      exact ⟨written, shared, _, .update hold hguard hw, hs, fun _ => ⟨note, hn⟩, hr, rfl⟩
  | markReviewed actor noteId revision reviewedAt =>
    simp only [exec, markOwnedNoteReviewed, Except.mapError_eq_ok, Except.map_eq_ok,
      Except.bind_eq_ok] at h
    obtain ⟨⟨note, db''⟩, ⟨_ | written, hw, h⟩, rfl⟩ := h
    · cases h
    · obtain ⟨old, hold, hguard, hw⟩ := guardedNoteUpdate_eq_ok.mp hw
      simp only [Except.bind_eq_ok] at h
      obtain ⟨note, hn, recorded, hr, h⟩ := h
      cases h
      exact ⟨written, written, _, .update hold hguard hw, rfl, fun _ => ⟨note, hn⟩, hr, rfl⟩

end NoteCommand

/-! ## What the grants leave alone -/

/-- The databases differ in `note_acl` and in what its triggers write at most. -/
structure Database.SameContent (db db' : Database) : Prop where
  principals : db'.principals = db.principals
  principalIdentities : db'.principalIdentities = db.principalIdentities
  notes : db'.notes = db.notes
  noteRevisions : db'.noteRevisions = db.noteRevisions
  noteAttachments : db'.noteAttachments = db.noteAttachments
  noteRevisionAttachments : db'.noteRevisionAttachments = db.noteRevisionAttachments
  noteReferences : db'.noteReferences = db.noteReferences
  noteCitations : db'.noteCitations = db.noteCitations
  bibliographyItems : db'.bibliographyItems = db.bibliographyItems

namespace Database

variable {db db' db'' : Database} {row : AclRow} {kind : ChangeKind}

theorem SameContent.refl (db : Database) : db.SameContent db :=
  ⟨rfl, rfl, rfl, rfl, rfl, rfl, rfl, rfl, rfl⟩

theorem SameContent.trans (h : db.SameContent db') (h' : db'.SameContent db'') :
    db.SameContent db'' :=
  ⟨h'.1.trans h.1, h'.2.trans h.2, h'.3.trans h.3, h'.4.trans h.4, h'.5.trans h.5,
    h'.6.trans h.6, h'.7.trans h.7, h'.8.trans h.8, h'.9.trans h.9⟩

theorem sameContent_recordAccessChange (db : Database) (kind : ChangeKind) (row : AclRow) :
    db.SameContent (db.recordAccessChange kind row) := by
  unfold recordAccessChange
  cases db.notes.find row.noteId with
  | none => exact .refl db
  | some note => exact ⟨rfl, rfl, rfl, rfl, rfl, rfl, rfl, rfl, rfl⟩

theorem sameContent_deleteAclRow (db : Database) (row : AclRow) :
    db.SameContent (db.deleteAclRow row) := by
  refine SameContent.trans ?_ (sameContent_recordAccessChange _ _ _)
  exact ⟨rfl, rfl, rfl, rfl, rfl, rfl, rfl, rfl, rfl⟩

/-- An inserted grant was new, of a stored note and to another principal than its owner. -/
theorem insertAclRow_eq_ok :
    db.insertAclRow row = .ok db' ↔ ∃ note acl, db.notes.find row.noteId = some note ∧
      note.creator ≠ row.principalId ∧ (∃ p, db.principals.find row.principalId = some p) ∧
      db.noteAcl.insert? row = some acl ∧
      db' = recordAccessChange { db with noteAcl := acl } .noteAccessGranted row := by
  unfold insertAclRow
  cases db.notes.find row.noteId with
  | none => simp
  | some note =>
    by_cases hrow : note.creator = row.principalId ∨ db.principals.find row.principalId = none
    · simp only [hrow, if_true, reduceCtorEq, false_iff]
      rintro ⟨note', acl, hnote, hne, ⟨p, hp⟩, -⟩
      cases hnote
      rcases hrow with h | h
      · exact hne h
      · simp [h] at hp
    · dsimp only
      rw [if_neg hrow]
      rw [not_or, ← ne_eq, ← ne_eq, Option.ne_none_iff_exists'] at hrow
      cases db.noteAcl.insert? row with
      | none => simp
      | some acl =>
        constructor
        · intro h
          cases h
          exact ⟨note, acl, rfl, hrow.1, hrow.2, rfl, rfl⟩
        · rintro ⟨note', acl', hnote, -, -, hacl, rfl⟩
          cases hnote
          cases hacl
          rfl

theorem sameContent_insertAclRow (h : db.insertAclRow row = .ok db') : db.SameContent db' := by
  obtain ⟨note, acl, -, -, -, -, rfl⟩ := insertAclRow_eq_ok.mp h
  refine SameContent.trans ?_ (sameContent_recordAccessChange _ _ _)
  exact ⟨rfl, rfl, rfl, rfl, rfl, rfl, rfl, rfl, rfl⟩

theorem sameContent_deleteAclRows (rows : List AclRow) (db : Database) :
    db.SameContent (rows.foldl deleteAclRow db) := by
  induction rows generalizing db with
  | nil => exact .refl db
  | cons row rows ih => exact (sameContent_deleteAclRow db row).trans (ih _)

end Database

theorem NoteCommand.Shares.sameContent {c : NoteCommand} {db shared : Database}
    (h : c.Shares db shared) : db.SameContent shared := by
  unfold Shares at h
  cases hentries : c.entries with
  | none =>
    rw [hentries] at h
    exact h ▸ .refl db
  | some entries =>
    rw [hentries] at h
    exact Except.foldlM_invariant (P := db.SameContent) h (sameContent_deleteAclRows _ _)
      fun _ _ _ _ hs hstep => hs.trans (sameContent_insertAclRow hstep)

/-! ## What the history leaves alone -/

namespace Database

variable {db db' : Database} {noteId : NoteId} {changedBy : PrincipalId}
  {kind : NoteRevisionKind} {attachmentIds : List AttachmentId} {revision : ℕ}

/-- An appended revision is the copy of the note's row, under a new key. -/
theorem insertNoteRevision_eq_ok :
    db.insertNoteRevision noteId changedBy kind = .ok db' ↔ ∃ row revisions,
      db.notes.find noteId = some row ∧ (row.toRevisionRow changedBy kind).Check ∧
      (db.principals.find changedBy).isSome ∧
      db.noteRevisions.insert? (row.toRevisionRow changedBy kind) = some revisions ∧
      db' = { db with
        noteRevisions := revisions
        noteRevisionAttachments := db.noteRevisionAttachments.upsertAll
          (db.previousRevisionAttachments noteId row.revision) } := by
  unfold insertNoteRevision
  cases db.notes.find noteId with
  | none => simp
  | some row =>
    by_cases hrow : (row.toRevisionRow changedBy kind).Check ∧
        (db.principals.find changedBy).isSome
    · dsimp only
      rw [if_pos hrow]
      cases hinsert : db.noteRevisions.insert? (row.toRevisionRow changedBy kind) with
      | none =>
        simp only [reduceCtorEq, false_iff]
        rintro ⟨row', revisions, h, -, -, h', -⟩
        cases h
        simp [hinsert] at h'
      | some revisions =>
        constructor
        · intro h
          cases h
          exact ⟨row, revisions, rfl, hrow.1, hrow.2, hinsert, rfl⟩
        · rintro ⟨row', revisions', h, -, -, h', rfl⟩
          cases h
          cases hinsert.symm.trans h'
          rfl
    · simp only [hrow, if_false, reduceCtorEq, false_iff]
      rintro ⟨row', revisions, h, hcheck, hp, -⟩
      cases h
      exact hrow ⟨hcheck, hp⟩

theorem insertRevisionAttachment_eq_ok {attachmentId : AttachmentId} :
    insertRevisionAttachment noteId revision db attachmentId = .ok db' ↔
      ∃ attachment rows, db.noteAttachments.find attachmentId = some attachment ∧
        attachment.noteId = noteId ∧
        db.noteRevisionAttachments.insert? ⟨noteId, revision, attachmentId⟩ = some rows ∧
        db' = { db with noteRevisionAttachments := rows } := by
  unfold insertRevisionAttachment
  cases db.noteAttachments.find attachmentId with
  | none => simp
  | some attachment =>
    by_cases hn : attachment.noteId = noteId
    · cases db.noteRevisionAttachments.insert? ⟨noteId, revision, attachmentId⟩ with
      | none => simp [hn]
      | some rows => simp [hn, eq_comm]
    · simp [hn]

/-- Attaching writes one table. -/
theorem replaceNoteRevisionAttachments_eq
    (h : db.replaceNoteRevisionAttachments noteId attachmentIds = .ok db') :
    ∃ rows, db' = { db with noteRevisionAttachments := rows } := by
  unfold replaceNoteRevisionAttachments at h
  cases hrow : db.notes.find noteId with
  | none =>
    rw [hrow] at h
    cases h
  | some row =>
    rw [hrow] at h
    refine Except.foldlM_invariant
      (P := fun db' => ∃ rows, db' = { db with noteRevisionAttachments := rows }) h ⟨_, rfl⟩ ?_
    rintro _ attachmentId t - ⟨rows, rfl⟩ hstep
    obtain ⟨attachment, rows', -, -, -, rfl⟩ := insertRevisionAttachment_eq_ok.mp hstep
    exact ⟨rows', rfl⟩

end Database

namespace NoteCommand

variable {c : NoteCommand} {db db' recorded : Database}

/-- The last stages write the links, the history and its attachments. -/
theorem Records.eq (h : c.Records db recorded) : ∃ references citations revisions attachments,
    recorded = { db with
      noteReferences := references
      noteCitations := citations
      noteRevisions := revisions
      noteRevisionAttachments := attachments } := by
  unfold Records at h
  cases hlinks : c.links with
  | none =>
    rw [hlinks] at h
    obtain ⟨row, revisions, -, -, -, -, rfl⟩ := insertNoteRevision_eq_ok.mp h
    exact ⟨_, _, _, _, rfl⟩
  | some links =>
    rw [hlinks] at h
    obtain ⟨row, revisions, -, -, -, -, rfl⟩ := insertNoteRevision_eq_ok.mp h
    exact ⟨_, _, _, _, rfl⟩

/-- The history row of a command is that of the note's row, by a known principal. -/
theorem Records.inserts (h : c.Records db recorded) : ∃ row,
    db.notes.find c.noteId = some row ∧ (∃ p, db.principals.find c.principalId = some p) ∧
      db.noteRevisions.insert? (row.toRevisionRow c.principalId c.kind) =
        some recorded.noteRevisions := by
  unfold Records at h
  cases hlinks : c.links with
  | none =>
    rw [hlinks] at h
    obtain ⟨row, revisions, hfind, -, hknown, hinsert, rfl⟩ := insertNoteRevision_eq_ok.mp h
    exact ⟨row, hfind, Option.isSome_iff_exists.mp hknown, hinsert⟩
  | some links =>
    rw [hlinks] at h
    obtain ⟨row, revisions, hfind, -, hknown, hinsert, rfl⟩ := insertNoteRevision_eq_ok.mp h
    exact ⟨row, hfind, Option.isSome_iff_exists.mp hknown, hinsert⟩

theorem Attaches.eq (h : c.Attaches recorded db') :
    ∃ attachments, db' = { recorded with noteRevisionAttachments := attachments } := by
  unfold Attaches at h
  cases hlinks : c.links with
  | none =>
    rw [hlinks] at h
    exact ⟨recorded.noteRevisionAttachments, h⟩
  | some links =>
    rw [hlinks] at h
    exact replaceNoteRevisionAttachments_eq h

/-- A committed command : its writes to `notes` and `note_acl`, and on top of them tables
that no trigger reads. -/
theorem exec_eq (h : c.exec db = .ok db') :
    ∃ written shared references citations revisions attachments, c.Writes db written ∧
      c.Shares written shared ∧
      db' = { shared with
        noteReferences := references
        noteCitations := citations
        noteRevisions := revisions
        noteRevisionAttachments := attachments } := by
  obtain ⟨written, shared, recorded, hw, hs, -, hr, ha⟩ := exec_stages h
  obtain ⟨references, citations, revisions, attachments, rfl⟩ := hr.eq
  obtain ⟨attachments', rfl⟩ := ha.eq
  exact ⟨written, shared, references, citations, revisions, attachments', hw, hs, rfl⟩

end NoteCommand

/-! ## What the write to `notes` does -/

namespace Database

variable {db db' : Database} {old new : NoteRow}

theorem insertNoteRow_eq_ok : db.insertNoteRow new = .ok db' ↔ ∃ notes, new.Check ∧
    (db.principals.find new.creator).isSome ∧ db.notes.insert? new = some notes ∧
    db' = recordChange { db with notes := notes } new.insertChange := by
  unfold insertNoteRow
  by_cases hnew : new.Check ∧ (db.principals.find new.creator).isSome
  · rw [if_pos hnew]
    cases db.notes.insert? new with
    | none => simp
    | some notes => simp [hnew, eq_comm]
  · simp only [hnew, if_false, reduceCtorEq, false_iff]
    rintro ⟨notes, hcheck, hp, -⟩
    exact hnew ⟨hcheck, hp⟩

theorem updateNoteRow_eq_ok : db.updateNoteRow old new = .ok db' ↔ new.Check ∧
    db' = recordChange { db with notes := db.notes.upsert new } (old.updateChange new) := by
  unfold updateNoteRow
  by_cases hnew : new.Check
  · simp [hnew, eq_comm]
  · simp [hnew]

end Database

namespace NoteCommand

variable {c : NoteCommand} {db db' written : Database} {old : NoteRow}

/-- A guard holds of a row at the expected revision only, and no update leaves the id, the
owner or the creation of a note. -/
theorem Guard.revision_eq (h : c.Guard db old) :
    old.revision = c.expectedRevision ∧ (c.set old).revision = old.revision + 1 := by
  cases c with
  | create => exact h.elim
  | update | restoreRevision | softDelete | restore | replaceAcl | markReviewed => exact ⟨h.1, rfl⟩

/-- A guarded update creates nothing. -/
theorem Guard.createdRow_eq_none (h : c.Guard db old) : c.createdRow = none := by
  cases c with
  | create => exact h.elim
  | update | restoreRevision | softDelete | restore | replaceAcl | markReviewed => rfl

@[simp] theorem noteId_set : (c.set old).noteId = old.noteId := by
  cases c <;> rfl

@[simp] theorem creator_set : (c.set old).creator = old.creator := by
  cases c <;> rfl

theorem createdRow_eq_some {new : NoteRow} (h : c.createdRow = some new) :
    new.noteId = c.noteId ∧ new.creator = c.principalId ∧ c.expectedRevision = 0 ∧
      new.revision = 1 ∧ new.deletedAt = none := by
  cases c with
  | create =>
    cases h
    exact ⟨rfl, rfl, rfl, rfl, rfl⟩
  | update | restoreRevision | softDelete | restore | replaceAcl | markReviewed => cases h

/-- A write to `notes` records its change and leaves the other tables. -/
theorem Writes.eq (h : c.Writes db written) : ∃ notes change,
    written = recordChange { db with notes := notes } change := by
  cases h with
  | insert hnew h =>
    obtain ⟨notes, -, -, -, rfl⟩ := insertNoteRow_eq_ok.mp h
    exact ⟨notes, _, rfl⟩
  | update hold hguard h =>
    obtain ⟨-, rfl⟩ := updateNoteRow_eq_ok.mp h
    exact ⟨_, _, rfl⟩

/-- A write stores one row of the command's note : the created one where there was none, or
what the `SET` clause makes of a row the guard holds of. -/
theorem Writes.row (h : c.Writes db written) : ∃ new, new.noteId = c.noteId ∧ new.Check ∧
    (c.createdRow = some new ∧ db.notes.find c.noteId = none ∨
      ∃ old, db.notes.find c.noteId = some old ∧ c.Guard db old ∧ new = c.set old) ∧
    ∀ n, written.notes.find n = if c.noteId = n then some new else db.notes.find n := by
  cases h with
  | @insert new _ hnew h =>
    obtain ⟨notes, hcheck, -, hinsert, rfl⟩ := insertNoteRow_eq_ok.mp h
    obtain ⟨hid, -⟩ := createdRow_eq_some hnew
    have hnone := (Table.insert?_eq_some.mp hinsert).1
    rw [show Keyed.key new = c.noteId from hid] at hnone
    refine ⟨new, hid, hcheck, Or.inl ⟨hnew, hnone⟩, fun n => ?_⟩
    have hfind := Table.find_insert? hinsert n
    simpa only [recordChange_notes, hid, Keyed.key] using hfind
  | @update old _ hold hguard h =>
    obtain ⟨hcheck, rfl⟩ := updateNoteRow_eq_ok.mp h
    have hid : old.noteId = c.noteId := Table.key_of_find hold
    refine ⟨c.set old, by simpa using hid, hcheck, Or.inr ⟨old, hold, hguard, rfl⟩, fun n => ?_⟩
    simp only [recordChange_notes, Table.find_upsert, Keyed.key, noteId_set, hid]

/-- A write stores one row, of the command's note and one revision further. -/
theorem Writes.notes (h : c.Writes db written) : ∃ new, new.noteId = c.noteId ∧
    new.revision = c.expectedRevision + 1 ∧
    ∀ n, written.notes.find n = if c.noteId = n then some new else db.notes.find n := by
  obtain ⟨new, hid, -, hnew, hfind⟩ := h.row
  refine ⟨new, hid, ?_, hfind⟩
  rcases hnew with ⟨hcreated, -⟩ | ⟨old, -, hguard, rfl⟩
  · obtain ⟨-, -, hexpected, hrevision, -⟩ := createdRow_eq_some hcreated
    omega
  · obtain ⟨hrevision, hset⟩ := hguard.revision_eq
    omega

/-- The expected revision is the one the note had, or there was no note. -/
theorem Writes.expected (h : c.Writes db written) :
    (db.notes.find c.noteId).elim 0 NoteRow.revision = c.expectedRevision := by
  cases h with
  | @insert new _ hnew h =>
    obtain ⟨notes, -, -, hinsert, -⟩ := insertNoteRow_eq_ok.mp h
    obtain ⟨hid, -, hexpected, -, -⟩ := createdRow_eq_some hnew
    have hnone := (Table.insert?_eq_some.mp hinsert).1
    rw [show Keyed.key new = c.noteId from hid] at hnone
    simp [hnone, hexpected]
  | update hold hguard h => simpa [hold] using hguard.revision_eq.1

end NoteCommand

end Marginalis
