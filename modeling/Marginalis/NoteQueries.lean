import Marginalis.Attachments
import Mathlib.Data.Prod.Lex
import Mathlib.Data.String.Basic

/-!
# The note queries of the store

What a principal can read of the notes : single notes, lists, the snapshot of a view, the
history, the images and the grants. Each query is the `SELECT` it runs, with its
joins on `note_access`, followed by the decoder of its rows. A query that has an `ORDER BY`
sorts on that key, so its answer does not depend on the order of a table.
-/

namespace Marginalis

open Table (orderBy)

/-! ## Review status -/

inductive NoteReviewStatus
  | unknown | pending | reviewed
  deriving DecidableEq, Repr

/-- `NoteReviewTracking::status`. -/
def NoteReviewTracking.status (currentRevision : ℕ) : NoteReviewTracking → NoteReviewStatus
  | unknown => .unknown
  | tracked (some review) => if review.revision = currentRevision then .reviewed else .pending
  | tracked none => .pending

/-- `Note::review_status`. -/
def Note.reviewStatus (note : Note) : NoteReviewStatus := note.review.status note.revision

/-- `review_status` : the decoder of the columns a summary is read from. -/
def reviewStatus (trackingKnown : Bool) (reviewedRevision : Option ℕ) (currentRevision : ℕ) :
    Except SqliteStoreError NoteReviewStatus :=
  match trackingKnown, reviewedRevision with
  | false, none => .ok .unknown
  | true, none => .ok .pending
  | true, some reviewed =>
    if reviewed = currentRevision then .ok .reviewed
    else if reviewed < currentRevision then .ok .pending
    else .error .corruptData
  | false, some _ => .error .corruptData

/-- The `WHERE` clause of the list for a review status. -/
def NoteRow.MatchesReviewStatus (row : NoteRow) : NoteReviewStatus → Prop
  | .unknown => row.reviewTrackingKnown = false
  | .pending => row.reviewTrackingKnown = true ∧
      ∀ review ∈ row.review, review.reviewedRevision ≠ row.revision
  | .reviewed => row.reviewTrackingKnown = true ∧
      ∃ review ∈ row.review, review.reviewedRevision = row.revision

instance (row : NoteRow) : DecidablePred row.MatchesReviewStatus := fun status => by
  cases status <;> unfold NoteRow.MatchesReviewStatus <;> infer_instance

/-! ## What the queries answer -/

structure NoteSummary where
  noteId : NoteId
  title : String
  tags : List String
  updatedAt : ℤ
  revision : ℕ
  createdVia : NoteCreationSource
  reviewStatus : NoteReviewStatus
  reviewedRevision : Option ℕ
  reviewedAt : Option ℤ
  deriving DecidableEq, Repr

/-- `From<&Note> for NoteSummary`. -/
def Note.summary (note : Note) : NoteSummary where
  noteId := note.noteId
  title := note.draft.title
  tags := note.draft.tags
  updatedAt := note.updatedAt
  revision := note.revision
  createdVia := note.createdVia
  reviewStatus := note.reviewStatus
  reviewedRevision := note.review.lastReview.map NoteReviewRecord.revision
  reviewedAt := note.review.lastReview.map NoteReviewRecord.reviewedAt

structure NoteListEntry where
  summary : NoteSummary
  access : NoteAccess
  deriving DecidableEq, Repr

structure DeletedNoteListEntry where
  noteId : NoteId
  title : String
  deletedAt : ℤ
  purgeAt : ℤ
  revision : ℕ
  deriving DecidableEq, Repr

structure NoteListQuery where
  createdVia : Option NoteCreationSource
  reviewStatus : Option NoteReviewStatus
  deriving DecidableEq, Repr

structure AccessibleNote where
  note : Note
  access : NoteAccess
  deriving DecidableEq

structure RelatedNotes where
  outgoing : List NoteSummary
  incoming : List NoteSummary
  deriving DecidableEq, Repr

structure NoteViewSnapshot where
  note : Note
  access : NoteAccess
  referenceTargets : List Note
  related : RelatedNotes
  deriving DecidableEq

structure NoteRevisionSummary where
  revision : ℕ
  changedAt : ℤ
  changedBy : PrincipalRef
  kind : NoteRevisionKind
  deriving DecidableEq, Repr

structure NoteRevisionSnapshot where
  note : Note
  changedBy : PrincipalRef
  kind : NoteRevisionKind
  deriving DecidableEq

structure NoteRevisionView where
  revision : NoteRevisionSnapshot
  access : NoteAccess
  deriving DecidableEq

structure NoteAclState where
  entries : List NoteAclEntry
  revision : ℕ
  deriving DecidableEq, Repr

/-! ## Decoders -/

/-- `access_from_level`. -/
def accessFromLevel : ℕ → Except SqliteStoreError NoteAccess
  | 1 => .ok .read
  | 2 => .ok .edit
  | 3 => .ok .manage
  | _ => .error .corruptData

/-- `note_summary_from_row`. -/
def noteSummaryFromRow (row : NoteRow) : Except SqliteStoreError NoteSummary := do
  let reviewedRevision := row.review.map ReviewColumns.reviewedRevision
  let status ← reviewStatus row.reviewTrackingKnown reviewedRevision row.revision
  return {
    noteId := row.noteId
    title := row.title
    tags := row.tags
    updatedAt := row.updatedAt
    revision := row.revision
    createdVia := row.createdVia
    reviewStatus := status
    reviewedRevision := reviewedRevision
    reviewedAt := row.review.map ReviewColumns.reviewedAt }

/-- `note_list_entry_from_row`. -/
def noteListEntryFromRow (row : NoteRow × AccessRow) : Except SqliteStoreError NoteListEntry := do
  let access ← accessFromLevel row.2.accessLevel
  let summary ← noteSummaryFromRow row.1
  return ⟨summary, access⟩

/-- `deleted_note_entry_from_row`. -/
def deletedNoteEntryFromRow (row : NoteRow) : Except SqliteStoreError DeletedNoteListEntry :=
  match row.deletedAt with
  | none => .error .database
  | some deletedAt => .ok ⟨row.noteId, row.title, deletedAt,
      saturatingAdd deletedAt softDeleteRetentionMs, row.revision⟩

/-- A history row joined with its note and the identities it names. -/
structure RevisionDetails where
  history : NoteRevisionRow
  note : NoteRow
  creatorIdentity : Identity
  changedByIdentity : Identity
  reviewerIdentity : Option Identity
  deriving DecidableEq, Repr

/-- The columns of a revision under the names of a note's : those the history keeps, and
owner and creation from the note. -/
def NoteRevisionRow.noteColumns (history : NoteRevisionRow) (note : NoteRow) : NoteRow where
  noteId := history.noteId
  creator := note.creator
  title := history.title
  source := history.source
  tags := history.tags
  createdAt := note.createdAt
  updatedAt := history.changedAt
  revision := history.revision
  deletedAt := history.deletedAt
  createdVia := note.createdVia
  reviewTrackingKnown := history.reviewTrackingKnown
  review := history.review

/-- `revision_from_row`. -/
def revisionFromRow (details : RevisionDetails) : Except SqliteStoreError NoteRevisionSnapshot := do
  let note ← noteFromRow ⟨details.history.noteColumns details.note, details.creatorIdentity,
    details.reviewerIdentity⟩
  return ⟨note, ⟨details.history.changedBy, details.changedByIdentity⟩, details.history.changeKind⟩

/-- `metadata_from_row`. -/
def metadataFromRow (lib : AttachmentLibrary) (row : AttachmentRow) (createdBy : Identity) :
    Except SqliteStoreError AttachmentMetadata :=
  (AttachmentMetadata.new lib ⟨row.attachmentId, row.noteId, row.fileName, row.mediaType,
    row.byteLength, row.sha256, row.createdAt, ⟨row.createdBy, createdBy⟩⟩).mapError
      fun _ => .corruptData

namespace Database

variable (db : Database)

/-! ## Single notes and lists -/

/-- The rows of `note_access` a query joins for a principal and a note. -/
def accessRows (principal : PrincipalId) (noteId : NoteId) : List AccessRow :=
  db.noteAccess.filter fun access => access.noteId = noteId ∧ access.principalId = principal

/-- An active note that `note_access` lists for the principal. -/
def ActiveFor (principal : PrincipalId) (row : NoteRow) : Prop :=
  row.deletedAt = none ∧ db.HasAccess principal row.noteId 0

instance (principal : PrincipalId) : DecidablePred (db.ActiveFor principal) := fun row => by
  unfold ActiveFor
  infer_instance

/-- `accessible_note`. -/
def accessibleNote (actor : Actor) (noteId : NoteId) :
    Except SqliteStoreError (Option AccessibleNote) :=
  match (db.notes.find noteId).filter fun row => row.deletedAt = none with
  | none => .ok none
  | some row =>
    match db.noteDetails row, (db.accessRows actor.principalId noteId).head? with
    | some details, some access => do
      let access ← accessFromLevel access.accessLevel
      let note ← noteFromRow details
      return some ⟨note, access⟩
    | _, _ => .ok none

/-- `visible_notes_by_id`. -/
def visibleNotesById (actor : Actor) (noteIds : List NoteId) :
    Except SqliteStoreError (List Note) :=
  if noteIds = [] then .ok []
  else
    let rows := db.notes.select fun row => db.ActiveFor actor.principalId row ∧ row.noteId ∈ noteIds
    ((orderBy (fun row => row.noteId.entityId) rows).filterMap db.noteDetails).mapM noteFromRow

/-- The condition of `list_visible_notes` on a row of `notes`. -/
def Listed (query : NoteListQuery) (row : NoteRow) : Prop :=
  row.deletedAt = none ∧ (∀ createdVia ∈ query.createdVia, row.createdVia = createdVia) ∧
    ∀ status ∈ query.reviewStatus, row.MatchesReviewStatus status

instance (query : NoteListQuery) : DecidablePred (Listed query) := fun row => by
  unfold Listed
  infer_instance

/-- `list_visible_notes`. -/
def listVisibleNotes (actor : Actor) (query : NoteListQuery) :
    Except SqliteStoreError (List NoteListEntry) :=
  let rows := orderBy
    (fun row => toLex (OrderDual.toDual row.updatedAt, row.noteId.entityId))
    (db.notes.select fun row => Listed query row)
  (rows.flatMap fun row =>
    (db.accessRows actor.principalId row.noteId).map fun access => (row, access)).mapM
      noteListEntryFromRow

/-- `list_owned_deleted_notes`. -/
def listOwnedDeletedNotes (actor : Actor) : Except SqliteStoreError (List DeletedNoteListEntry) :=
  (orderBy (fun row => toLex (OrderDual.toDual (row.deletedAt.getD 0), row.noteId.entityId))
    (db.notes.select fun row =>
      row.deletedAt ≠ none ∧ row.creator = actor.principalId)).mapM deletedNoteEntryFromRow

/-- The notes at the other end of the references `rows`, as far as the principal sees them. -/
def visibleEnds (principal : PrincipalId) (rows : List ReferenceRow)
    (other : ReferenceRow → NoteId) :
    List NoteRow :=
  rows.filterMap fun reference =>
    (db.notes.find (other reference)).filter fun row => db.ActiveFor principal row

/-- `note_view_snapshot`. -/
def noteViewSnapshot (actor : Actor) (noteId : NoteId) :
    Except SqliteStoreError (Option NoteViewSnapshot) := do
  match ← db.accessibleNote actor noteId with
  | none => return none
  | some accessible =>
    let targets := orderBy (fun row => row.noteId.entityId)
      (db.visibleEnds actor.principalId
        (db.noteReferences.select fun reference => reference.sourceNoteId = noteId)
        ReferenceRow.targetNoteId)
    let referenceTargets ← (targets.filterMap db.noteDetails).mapM noteFromRow
    let sources := orderBy
      (fun row => toLex (OrderDual.toDual row.updatedAt, row.noteId.entityId))
      (db.visibleEnds actor.principalId
        (db.noteReferences.select fun reference => reference.targetNoteId = noteId)
        ReferenceRow.sourceNoteId)
    let incoming ← sources.mapM noteSummaryFromRow
    return some ⟨accessible.note, accessible.access, referenceTargets,
      ⟨referenceTargets.map Note.summary, incoming⟩⟩

/-! ## History, images and grants -/

/-- Who reads the history and the images of a note : whom it is shared with, and of a deleted
note its owner. -/
def HistoryReadable (actor : Actor) (row : NoteRow) : Prop :=
  row.deletedAt = none ∧ db.HasAccess actor.principalId row.noteId 0 ∨
    row.deletedAt ≠ none ∧ row.creator = actor.principalId

instance (actor : Actor) : DecidablePred (db.HistoryReadable actor) := fun row => by
  unfold HistoryReadable
  infer_instance

/-- The note of a history query, when the actor may read it. -/
def readableNote (actor : Actor) (noteId : NoteId) : Option NoteRow :=
  (db.notes.find noteId).filter fun row => db.HistoryReadable actor row

/-- `list_note_revisions`. -/
def listNoteRevisions (actor : Actor) (noteId : NoteId) : Option (List NoteRevisionSummary) :=
  match db.readableNote actor noteId with
  | none => none
  | some _ =>
    let rows := orderBy (fun history => OrderDual.toDual history.revision)
      (db.noteRevisions.select fun history => history.noteId = noteId)
    let summaries := rows.filterMap fun history =>
      (db.primaryIdentity history.changedBy).map fun identity =>
        ⟨history.revision, history.changedAt, ⟨history.changedBy, identity⟩, history.changeKind⟩
    if summaries = [] then none else some summaries

/-- The joins of a history row. -/
def revisionDetails (history : NoteRevisionRow) : Option RevisionDetails := do
  let note ← db.notes.find history.noteId
  let creatorIdentity ← db.primaryIdentity note.creator
  let changedByIdentity ← db.primaryIdentity history.changedBy
  return ⟨history, note, creatorIdentity, changedByIdentity,
    history.review.bind fun review => db.primaryIdentity review.reviewer⟩

/-- The access level a revision is shown with. -/
def revisionAccessLevel (actor : Actor) (note : NoteRow) : Option ℕ :=
  if note.deletedAt ≠ none then some 3
  else ((db.accessRows actor.principalId note.noteId).head?).map AccessRow.accessLevel

/-- `note_revision`. -/
def noteRevision (actor : Actor) (noteId : NoteId) (revision : ℕ) :
    Except SqliteStoreError (Option NoteRevisionView) :=
  match db.readableNote actor noteId, db.noteRevisions.find (noteId, revision) with
  | some note, some history =>
    match db.revisionDetails history with
    | none => .ok none
    | some details =>
      match db.revisionAccessLevel actor note with
      | none => .error .database
      | some level => do
        let access ← accessFromLevel level
        let revision ← revisionFromRow details
        return some ⟨revision, access⟩
  | _, _ => .ok none

/-- `list_note_attachments`. -/
def listNoteAttachments (lib : AttachmentLibrary) (actor : Actor) (noteId : NoteId) :
    Except SqliteStoreError (Option (List AttachmentMetadata)) :=
  match db.readableNote actor noteId with
  | none => .ok none
  | some _ => do
    let rows := orderBy (fun row => toLex (row.createdAt, row.attachmentId.entityId))
      (db.attachmentsOf noteId)
    let attachments ← (rows.filterMap fun row =>
      (db.primaryIdentity row.createdBy).map fun identity => (row, identity)).mapM
        fun row => metadataFromRow lib row.1 row.2
    return some attachments

/-- `note_attachment`. -/
def noteAttachment (lib : AttachmentLibrary) (actor : Actor) (noteId : NoteId)
    (attachmentId : AttachmentId) : Except SqliteStoreError (Option (StoredAttachment lib)) :=
  match db.readableNote actor noteId,
      (db.noteAttachments.find attachmentId).filter fun row => row.noteId = noteId with
  | some _, some row =>
    match db.primaryIdentity row.createdBy with
    | none => .ok none
    | some identity => do
      let metadata ← metadataFromRow lib row identity
      let attachment ← (StoredAttachment.new lib metadata row.content).mapError
        fun _ => .corruptData
      return some attachment
  | _, _ => .ok none

/-- `read_note_acl`. -/
def readNoteAcl (actor : Actor) (noteId : NoteId) : Except SqliteStoreError NoteAclState := do
  db.requireActiveNoteAccess actor noteId .manage
  let entries := (db.noteAcl.select fun row => row.noteId = noteId).filterMap fun row =>
    (db.primaryIdentity row.principalId).map fun identity =>
      (⟨⟨row.principalId, identity⟩, row.permission⟩ : NoteAclEntry)
  match db.notes.find noteId with
  | none => throw .database
  | some row => return ⟨orderBy (fun entry => toLex (entry.principal.primaryIdentity.issuer,
      entry.principal.primaryIdentity.subject)) entries, row.revision⟩

/-- `read_owned_note_review`. -/
def readOwnedNoteReview (actor : Actor) (noteId : NoteId) : Except SqliteStoreError Note := do
  db.requireActiveNoteAccess actor noteId .manage
  db.readNote noteId

end Database

end Marginalis
