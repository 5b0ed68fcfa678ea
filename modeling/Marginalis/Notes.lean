import Marginalis.Changes

/-!
# The note commands of the store

The transactions that write notes : create, content update, history restore, soft delete,
restore, replacement of the access list and review. A transaction is a function to
`Except` : an error leaves the database it was given, which is the rollback, and a value is
the committed database together with what the command returns.

Every change of a stored note is a guarded `UPDATE notes` on its id and its expected
revision (`guardedNoteUpdate`), followed by the row of the history
(`insertNoteRevision`). `NoteCommand.exec` runs any of them.
-/

namespace Marginalis

/-- What the source of a note points at. -/
structure NoteLinks where
  referenceTargets : List NoteId
  citedKeys : List String
  attachmentIds : List AttachmentId
  deriving DecidableEq, Repr

/-! ## Rows and notes -/

/-- The row `create_note` binds. -/
def Note.toRow (note : Note) : NoteRow where
  noteId := note.noteId
  creator := note.owner.id
  title := note.draft.title
  source := note.draft.source
  tags := note.draft.tags
  createdAt := note.createdAt
  updatedAt := note.updatedAt
  revision := note.revision
  deletedAt := note.deletedAt
  createdVia := note.createdVia
  reviewTrackingKnown := note.review ≠ .unknown
  review := note.review.lastReview.map fun review =>
    ⟨review.revision, review.reviewedAt, review.reviewer.id⟩

/-- A row of the view `note_details`. -/
structure NoteDetails where
  row : NoteRow
  creatorIdentity : Identity
  reviewerIdentity : Option Identity
  deriving DecidableEq, Repr

/-- The review columns with the joined identity, as `note_from_row` matches on them. -/
def NoteDetails.reviewTracking (details : NoteDetails) :
    Except SqliteStoreError NoteReviewTracking :=
  match details.row.reviewTrackingKnown, details.row.review, details.reviewerIdentity with
  | false, none, none => .ok .unknown
  | true, none, none => .ok .pending
  | true, some review, some identity =>
    .ok (.tracked (some ⟨review.reviewedRevision, review.reviewedAt, ⟨review.reviewer, identity⟩⟩))
  | _, _, _ => .error .corruptData

/-- `note_from_row`. -/
def noteFromRow (details : NoteDetails) : Except SqliteStoreError Note := do
  let review ← details.reviewTracking
  let restored : NoteRestore :=
    { noteId := details.row.noteId
      owner := ⟨details.row.creator, details.creatorIdentity⟩
      draft := ⟨details.row.title, details.row.source, details.row.tags⟩
      createdAt := details.row.createdAt
      updatedAt := details.row.updatedAt
      revision := details.row.revision
      deletedAt := details.row.deletedAt
      createdVia := details.row.createdVia
      review := review }
  match Note.restore restored with
  | some note => .ok note
  | none => .error .corruptData

/-- The history row `insert_note_revision` copies from a note. -/
def NoteRow.toRevisionRow (row : NoteRow) (changedBy : PrincipalId) (kind : NoteRevisionKind) :
    NoteRevisionRow where
  noteId := row.noteId
  revision := row.revision
  changedAt := row.updatedAt
  changedBy := changedBy
  changeKind := kind
  title := row.title
  source := row.source
  tags := row.tags
  deletedAt := row.deletedAt
  reviewTrackingKnown := row.reviewTrackingKnown
  review := row.review

namespace Database

variable (db : Database)

/-- The view `note_details` at a row : none when the owner has no primary identity. -/
def noteDetails (row : NoteRow) : Option NoteDetails :=
  (db.primaryIdentity row.creator).map fun identity =>
    ⟨row, identity, row.review.bind fun review => db.primaryIdentity review.reviewer⟩

/-- `note_row` and `note_from_row`. -/
def readNote (noteId : NoteId) : Except SqliteStoreError Note :=
  match db.notes.find noteId with
  | none => .error .database
  | some row =>
    match db.noteDetails row with
    | none => .error .database
    | some details => noteFromRow details

/-! ## Access -/

/-- The query of `require_active_note_access`. -/
def ActiveAccess (actor : Actor) (noteId : NoteId) (required : NoteAccess) : Prop :=
  (∃ row ∈ db.notes, row.noteId = noteId ∧ row.deletedAt = none) ∧
    db.HasAccess actor.principalId noteId required.accessLevel

instance (actor : Actor) (noteId : NoteId) (required : NoteAccess) :
    Decidable (db.ActiveAccess actor noteId required) := by
  unfold ActiveAccess
  infer_instance

/-- `require_active_note_access`. -/
def requireActiveNoteAccess (actor : Actor) (noteId : NoteId) (required : NoteAccess) :
    Except SqliteStoreError Unit :=
  if db.ActiveAccess actor noteId required then .ok () else .error .notFound

/-- `classify_failed_mutation`. -/
def classifyFailedMutation (actor : Actor) (noteId : NoteId) (required : NoteAccess) :
    SqliteStoreError :=
  match db.requireActiveNoteAccess actor noteId required with
  | .ok () => .conflict
  | .error error => error

/-! ## Links -/

/-- `replace_reference_rows` : `INSERT OR IGNORE` of rows that are their own key. -/
def replaceReferenceRows (source : NoteId) (targets : List NoteId) : Database :=
  { db with
    noteReferences := (db.noteReferences.deleteWhere fun row => row.sourceNoteId = source).upsertAll
      (targets.map fun target => ⟨source, target⟩) }

/-- `replace_link_rows`. -/
def replaceLinkRows (source : NoteId) (links : NoteLinks) : Database :=
  let db := db.replaceReferenceRows source links.referenceTargets
  { db with
    noteCitations := (db.noteCitations.deleteWhere fun row => row.sourceNoteId = source).upsertAll
      (links.citedKeys.map fun key => ⟨source, key⟩) }

/-! ## History -/

/-- The attachments the revision before `revision` shows, as rows of `revision`. -/
def previousRevisionAttachments (noteId : NoteId) (revision : ℕ) :
    List RevisionAttachmentRow :=
  (db.noteRevisionAttachments.select fun previous =>
      previous.noteId = noteId ∧ previous.revision + 1 = revision).map
    fun previous => ⟨noteId, revision, previous.attachmentId⟩

/-- `insert_note_revision` : the state of the note after the change, with the attachments of
the revision before. -/
def insertNoteRevision (noteId : NoteId) (changedBy : PrincipalId) (kind : NoteRevisionKind) :
    Except SqliteStoreError Database :=
  match db.notes.find noteId with
  | none => .error .corruptData
  | some row =>
    if (row.toRevisionRow changedBy kind).Check ∧ (db.principals.find changedBy).isSome then
      match db.noteRevisions.insert? (row.toRevisionRow changedBy kind) with
      | none => .error .database
      | some noteRevisions =>
        .ok { db with
          noteRevisions := noteRevisions
          noteRevisionAttachments := db.noteRevisionAttachments.upsertAll
            (db.previousRevisionAttachments noteId row.revision) }
    else .error .database

/-- One `INSERT … SELECT` of `replace_note_revision_attachments` : it inserts nothing when
the note has no such attachment. -/
def insertRevisionAttachment (noteId : NoteId) (revision : ℕ) (db : Database)
    (attachmentId : AttachmentId) : Except SqliteStoreError Database :=
  match db.noteAttachments.find attachmentId with
  | none => .error .corruptData
  | some attachment =>
    if attachment.noteId = noteId then
      match db.noteRevisionAttachments.insert? ⟨noteId, revision, attachmentId⟩ with
      | none => .error .database
      | some rows => .ok { db with noteRevisionAttachments := rows }
    else .error .corruptData

/-- `replace_note_revision_attachments`. -/
def replaceNoteRevisionAttachments (noteId : NoteId) (attachmentIds : List AttachmentId) :
    Except SqliteStoreError Database :=
  match db.notes.find noteId with
  | none => .error .corruptData
  | some row =>
    attachmentIds.foldlM (insertRevisionAttachment noteId row.revision)
      { db with
        noteRevisionAttachments := db.noteRevisionAttachments.deleteWhere fun shown =>
          shown.noteId = noteId ∧ shown.revision = row.revision }

/-! ## Commands -/

/-- `UPDATE notes SET … WHERE note_id = ? AND …` : none when no row was affected. -/
def guardedNoteUpdate (noteId : NoteId) (guard : NoteRow → Prop) [DecidablePred guard]
    (set : NoteRow → NoteRow) : Except SqliteStoreError (Option Database) :=
  match db.notes.find noteId with
  | none => .ok none
  | some row =>
    if guard row then (db.updateNoteRow row (set row)).map some else .ok none

/-- The guard the mutations of a note that is not deleted share. -/
def MutationGuard (actor : Actor) (noteId : NoteId) (expectedRevision : ℕ)
    (required : NoteAccess) (row : NoteRow) : Prop :=
  row.revision = expectedRevision ∧ row.deletedAt = none ∧
    db.HasAccess actor.principalId noteId required.accessLevel

instance (actor : Actor) (noteId : NoteId) (expectedRevision : ℕ) (required : NoteAccess) :
    DecidablePred (db.MutationGuard actor noteId expectedRevision required) := fun row => by
  unfold MutationGuard
  infer_instance

/-- `create_note`. -/
def createNote (note : Note) (links : NoteLinks) : Except SqliteStoreError Database := do
  let db ← db.insertNoteRow note.toRow
  let db := db.replaceLinkRows note.noteId links
  let db ← db.insertNoteRevision note.noteId note.owner.id .created
  db.replaceNoteRevisionAttachments note.noteId links.attachmentIds

/-- `update_visible_note_with_kind`. -/
def updateVisibleNoteWithKind (actor : Actor) (noteId : NoteId) (expectedRevision : ℕ)
    (draft : NoteDraft) (links : NoteLinks) (updatedAt : ℤ) (kind : NoteRevisionKind) :
    Except SqliteStoreError (Note × Database) := do
  match ← db.guardedNoteUpdate noteId (db.MutationGuard actor noteId expectedRevision .edit)
      fun row => { row with
        title := draft.title
        source := draft.source
        tags := draft.tags
        updatedAt := updatedAt
        reviewTrackingKnown := true
        revision := row.revision + 1 } with
  | none => throw (db.classifyFailedMutation actor noteId .edit)
  | some db =>
    let note ← db.readNote noteId
    let db := db.replaceLinkRows noteId links
    let db ← db.insertNoteRevision noteId actor.principalId kind
    let db ← db.replaceNoteRevisionAttachments noteId links.attachmentIds
    return (note, db)

/-- `update_visible_note`. -/
def updateVisibleNote (actor : Actor) (noteId : NoteId) (expectedRevision : ℕ)
    (draft : NoteDraft) (links : NoteLinks) (updatedAt : ℤ) :
    Except SqliteStoreError (Note × Database) :=
  db.updateVisibleNoteWithKind actor noteId expectedRevision draft links updatedAt .contentUpdated

/-- `restore_visible_note_revision`. -/
def restoreVisibleNoteRevision (actor : Actor) (noteId : NoteId) (expectedRevision : ℕ)
    (draft : NoteDraft) (links : NoteLinks) (updatedAt : ℤ) :
    Except SqliteStoreError (Note × Database) :=
  db.updateVisibleNoteWithKind actor noteId expectedRevision draft links updatedAt .historyRestored

/-- `soft_delete_visible_note`. -/
def softDeleteVisibleNote (actor : Actor) (noteId : NoteId) (expectedRevision : ℕ)
    (deletedAt : ℤ) : Except SqliteStoreError (Note × Database) := do
  match ← db.guardedNoteUpdate noteId (db.MutationGuard actor noteId expectedRevision .manage)
      fun row => { row with
        deletedAt := some deletedAt
        updatedAt := deletedAt
        reviewTrackingKnown := true
        revision := row.revision + 1 } with
  | none => throw (db.classifyFailedMutation actor noteId .manage)
  | some db =>
    let note ← db.readNote noteId
    let db ← db.insertNoteRevision noteId actor.principalId .deleted
    return (note, db)

/-- `replace_note_acl`. -/
def replaceNoteAcl (actor : Actor) (noteId : NoteId) (entries : List NoteAclEntry)
    (expectedRevision : ℕ) (updatedAt : ℤ) :
    Except SqliteStoreError (Note × Database) := do
  match ← db.guardedNoteUpdate noteId (db.MutationGuard actor noteId expectedRevision .manage)
      fun row => { row with
        revision := row.revision + 1
        updatedAt := updatedAt
        reviewTrackingKnown := true } with
  | none => throw (db.classifyFailedMutation actor noteId .manage)
  | some db =>
    let db := (db.noteAcl.select fun row => row.noteId = noteId).foldl deleteAclRow db
    let db ← entries.foldlM
      (fun db entry => db.insertAclRow ⟨noteId, entry.principal.id, entry.permission⟩) db
    let note ← db.readNote noteId
    let db ← db.insertNoteRevision noteId actor.principalId .aclUpdated
    return (note, db)

/-- `mark_owned_note_reviewed`. -/
def markOwnedNoteReviewed (actor : Actor) (noteId : NoteId) (expectedRevision : ℕ)
    (reviewedAt : ℤ) : Except SqliteStoreError (Note × Database) := do
  match ← db.guardedNoteUpdate noteId (db.MutationGuard actor noteId expectedRevision .manage)
      fun row => { row with
        reviewTrackingKnown := true
        review := some ⟨row.revision + 1, reviewedAt, actor.principalId⟩
        updatedAt := reviewedAt
        revision := row.revision + 1 } with
  | none => throw (db.classifyFailedMutation actor noteId .manage)
  | some db =>
    let note ← db.readNote noteId
    let db ← db.insertNoteRevision noteId actor.principalId .reviewed
    return (note, db)

end Database

/-- What only the restore of a note can answer. -/
inductive RestoreNoteError
  | store (error : SqliteStoreError)
  | retentionExpired
  deriving DecidableEq, Repr

namespace Database

variable (db : Database)

/-- The guard of the `UPDATE` of `restore_owned_deleted_note`. -/
def RestoreGuard (actor : Actor) (expectedRevision : ℕ) (retentionCutoff : ℤ)
    (row : NoteRow) : Prop :=
  row.revision = expectedRevision ∧ (∃ deletedAt ∈ row.deletedAt, retentionCutoff ≤ deletedAt) ∧
    row.creator = actor.principalId

instance (actor : Actor) (expectedRevision : ℕ) (retentionCutoff : ℤ) :
    DecidablePred (RestoreGuard actor expectedRevision retentionCutoff) := fun row => by
  unfold RestoreGuard
  infer_instance

/-- `classify_failed_restore`. -/
def classifyFailedRestore (actor : Actor) (noteId : NoteId) (expectedRevision : ℕ)
    (retentionCutoff : ℤ) : RestoreNoteError :=
  match db.notes.find noteId with
  | none => .store .notFound
  | some row =>
    match row.deletedAt with
    | none => .store .notFound
    | some deletedAt =>
      if row.creator ≠ actor.principalId then .store .notFound
      else if row.revision ≠ expectedRevision then .store .conflict
      else if deletedAt < retentionCutoff then .retentionExpired
      else .store .conflict

/-- `restore_owned_deleted_note`. -/
def restoreOwnedDeletedNote (actor : Actor) (noteId : NoteId) (expectedRevision : ℕ)
    (restoredAt : ℤ) : Except RestoreNoteError (Note × Database) := do
  let retentionCutoff := saturatingSub restoredAt softDeleteRetentionMs
  match ← (db.guardedNoteUpdate noteId (RestoreGuard actor expectedRevision retentionCutoff)
      fun row => { row with
        deletedAt := none
        updatedAt := restoredAt
        reviewTrackingKnown := true
        revision := row.revision + 1 }).mapError .store with
  | none => throw (db.classifyFailedRestore actor noteId expectedRevision retentionCutoff)
  | some db =>
    let note ← (db.readNote noteId).mapError .store
    let db ← (db.insertNoteRevision noteId actor.principalId .restored).mapError .store
    return (note, db)

end Database

/-! ## The command language -/

/-- The write commands of the note store with their arguments. A creation stores the note
that `NoteApplication::create_note` builds. -/
inductive NoteCommand
  | create (actor : Actor) (noteId : NoteId) (draft : NoteDraft) (links : NoteLinks)
      (createdAt : ℤ) (createdVia : NoteCreationSource)
  | update (actor : Actor) (noteId : NoteId) (expectedRevision : ℕ) (draft : NoteDraft)
      (links : NoteLinks) (updatedAt : ℤ)
  | restoreRevision (actor : Actor) (noteId : NoteId) (expectedRevision : ℕ)
      (draft : NoteDraft) (links : NoteLinks) (updatedAt : ℤ)
  | softDelete (actor : Actor) (noteId : NoteId) (expectedRevision : ℕ)
      (deletedAt : ℤ)
  | restore (actor : Actor) (noteId : NoteId) (expectedRevision : ℕ)
      (restoredAt : ℤ)
  | replaceAcl (actor : Actor) (noteId : NoteId) (entries : List NoteAclEntry)
      (expectedRevision : ℕ) (updatedAt : ℤ)
  | markReviewed (actor : Actor) (noteId : NoteId) (expectedRevision : ℕ)
      (reviewedAt : ℤ)

namespace NoteCommand

/-- The transaction of a command. -/
def exec (db : Database) : NoteCommand → Except RestoreNoteError Database
  | create actor noteId draft links createdAt createdVia =>
    (db.createNote (Note.create noteId actor.principal draft createdAt createdVia) links).mapError
      .store
  | update actor noteId expectedRevision draft links updatedAt =>
    ((db.updateVisibleNote actor noteId expectedRevision draft links updatedAt).map
      Prod.snd).mapError .store
  | restoreRevision actor noteId expectedRevision draft links updatedAt =>
    ((db.restoreVisibleNoteRevision actor noteId expectedRevision draft links updatedAt).map
      Prod.snd).mapError .store
  | softDelete actor noteId expectedRevision deletedAt =>
    ((db.softDeleteVisibleNote actor noteId expectedRevision deletedAt).map
      Prod.snd).mapError .store
  | restore actor noteId expectedRevision restoredAt =>
    (db.restoreOwnedDeletedNote actor noteId expectedRevision restoredAt).map Prod.snd
  | replaceAcl actor noteId entries expectedRevision updatedAt =>
    ((db.replaceNoteAcl actor noteId entries expectedRevision updatedAt).map
      Prod.snd).mapError .store
  | markReviewed actor noteId expectedRevision reviewedAt =>
    ((db.markOwnedNoteReviewed actor noteId expectedRevision reviewedAt).map
      Prod.snd).mapError .store

/-- The note a command writes. -/
def noteId : NoteCommand → NoteId
  | create _ noteId .. | update _ noteId .. | restoreRevision _ noteId .. | softDelete _ noteId ..
  | restore _ noteId .. | replaceAcl _ noteId .. | markReviewed _ noteId .. => noteId

/-- The principal a command acts for. -/
def principalId : NoteCommand → PrincipalId
  | create actor .. | update actor .. | restoreRevision actor .. | softDelete actor ..
  | restore actor .. | replaceAcl actor .. | markReviewed actor .. => actor.principalId

/-- The clock reading of a command. -/
def reading : NoteCommand → ℤ
  | create _ _ _ _ createdAt _ => createdAt
  | update _ _ _ _ _ updatedAt | restoreRevision _ _ _ _ _ updatedAt
  | replaceAcl _ _ _ _ updatedAt => updatedAt
  | softDelete _ _ _ deletedAt => deletedAt
  | restore _ _ _ restoredAt => restoredAt
  | markReviewed _ _ _ reviewedAt => reviewedAt

/-- The revision a command expects : 0, that is none, for a creation. -/
def expectedRevision : NoteCommand → ℕ
  | create .. => 0
  | update _ _ revision .. | restoreRevision _ _ revision .. | softDelete _ _ revision _
  | restore _ _ revision _ | replaceAcl _ _ _ revision _ | markReviewed _ _ revision _ => revision

end NoteCommand

end Marginalis
