import Marginalis.Schema
import Mathlib.Tactic.Simps.Basic

/-!
# Recorded changes and their triggers

Every write to `notes`, `note_acl` and `bibliography_items` inserts one row into
`domain_changes`, and that insert fires two more triggers : the projection of every
principal the change concerns moves to it, and it is fanned out to the active webhook
subscriptions of its owner. `recordChange` is the insert with both.

The statements that fire it are one function each : `insertNoteRow`, `updateNoteRow`,
`deleteAclRow`, `insertAclRow`, and those of the library. Each has the trigger's own
`CASE` or `SELECT` as a definition beside it.
-/

namespace Marginalis

/-! ## Inserting a change -/

/-- The delivery of the change `new` to a subscription. -/
def SubscriptionRow.pendingDelivery (s : SubscriptionRow) (new : DomainChangeRow) :
    DeliveryRow where
  subscriptionId := s.subscriptionId
  eventSequence := new.changeSequence
  state := .pending
  attemptCount := 0
  nextAttemptAt := new.occurredAt
  leaseExpiresAt := none
  lastFailure := none
  lastAttemptedAt := none

/-- Whether the fan-out selects a subscription for a change. -/
def SubscriptionRow.Receives (s : SubscriptionRow) (c : DomainChange) : Prop :=
  c.changeKind.isWebhookEvent = true ∧ s.owner = c.owner ∧ s.state = .active ∧
    c.changeKind ∈ s.eventKinds

instance (s : SubscriptionRow) (c : DomainChange) : Decidable (s.Receives c) := by
  unfold SubscriptionRow.Receives
  infer_instance

namespace Database

variable (db : Database)

/-- `note_sync_after_note_change_insert` and `note_sync_after_access_change_insert` :
a change of a note moves everyone who can access it, a change of access the principal
it is about. -/
def projectionRows (new : DomainChangeRow) : List ProjectionRow :=
  if new.changeKind.isNoteChange then
    (db.noteAccess.filter fun access => access.noteId = ⟨new.targetId⟩).map fun access =>
      ⟨new.changeSequence, access.principalId, ⟨new.targetId⟩,
        if new.changeKind = .noteDeleted then .remove .deleted else .upsert⟩
  else if new.changeKind.isAccessChange then
    new.affected.toList.map fun principal =>
      ⟨new.changeSequence, principal, ⟨new.targetId⟩,
        if new.changeKind = .noteAccessGranted then .upsert else .remove .accessRevoked⟩
  else []

/-- `webhook_fan_out_after_change_insert`. -/
def fanOutRows (new : DomainChangeRow) : List DeliveryRow :=
  (db.webhookSubscriptions.select fun s => s.Receives new.toDomainChange).map
    fun s => s.pendingDelivery new

/-- The row a change gets : `AUTOINCREMENT` gives it the next sequence number. -/
def nextChange (c : DomainChange) : DomainChangeRow := ⟨c, db.lastChangeSequence + 1⟩

/-- `INSERT INTO domain_changes` with its triggers. The sequence number is new, so none of
the inserts meets a row with its key. -/
@[simps] def recordChange (c : DomainChange) : Database :=
  { db with
    domainChanges := db.domainChanges.upsert (db.nextChange c)
    lastChangeSequence := db.lastChangeSequence + 1
    latestNoteChangeSequence :=
      if c.changeKind.isNoteChange || c.changeKind.isAccessChange then db.lastChangeSequence + 1
      else db.latestNoteChangeSequence
    noteSyncProjection := db.noteSyncProjection.upsertAll (db.projectionRows (db.nextChange c))
    webhookDeliveries := db.webhookDeliveries.upsertAll (db.fanOutRows (db.nextChange c)) }

end Database

/-! ## Writes to `notes` -/

/-- `domain_change_after_note_insert`. -/
def NoteRow.insertChange (new : NoteRow) : DomainChange :=
  ⟨new.creator, none, .noteCreated, new.noteId.entityId, new.revision, new.updatedAt⟩

/-- The `CASE` of `domain_change_after_note_update`. -/
def NoteRow.updateKind (old new : NoteRow) : ChangeKind :=
  if old.deletedAt = none ∧ new.deletedAt ≠ none then .noteDeleted
  else if old.deletedAt ≠ none ∧ new.deletedAt = none then .noteRestored
  else if new.source ≠ old.source then .noteUpdated
  else .noteStateChanged

/-- `domain_change_after_note_update`. -/
def NoteRow.updateChange (old new : NoteRow) : DomainChange :=
  ⟨new.creator, none, old.updateKind new, new.noteId.entityId, new.revision, new.updatedAt⟩

namespace Database

variable (db : Database)

/-- `INSERT INTO notes` with its trigger. -/
def insertNoteRow (new : NoteRow) : Except SqliteStoreError Database :=
  if new.Check ∧ (db.principals.find new.creator).isSome then
    match db.notes.insert? new with
    | some notes => .ok (recordChange { db with notes := notes } new.insertChange)
    | none => .error .database
  else .error .database

/-- One row of an `UPDATE notes` with its trigger. -/
def updateNoteRow (old new : NoteRow) : Except SqliteStoreError Database :=
  if new.Check then
    .ok (recordChange { db with notes := db.notes.upsert new } (old.updateChange new))
  else .error .database

/-! ## Writes to `note_acl` -/

/-- The change of access `domain_change_after_acl_insert` and `_delete` select : none when
the note is gone. -/
def recordAccessChange (kind : ChangeKind) (row : AclRow) : Database :=
  match db.notes.find row.noteId with
  | some note =>
    db.recordChange ⟨note.creator, some row.principalId, kind, row.noteId.entityId,
      note.revision, note.updatedAt⟩
  | none => db

/-- One row of a `DELETE FROM note_acl` with its trigger. -/
def deleteAclRow (row : AclRow) : Database :=
  recordAccessChange
    { db with noteAcl := db.noteAcl.deleteWhere fun r =>
        r.noteId = row.noteId ∧ r.principalId = row.principalId }
    .noteAccessRevoked row

/-- `INSERT INTO note_acl`. The trigger `note_acl_reject_owner` comes first. -/
def insertAclRow (row : AclRow) : Except SqliteStoreError Database :=
  match db.notes.find row.noteId with
  | none => .error .database
  | some note =>
    if note.creator = row.principalId ∨ db.principals.find row.principalId = none then
      .error .database
    else
      match db.noteAcl.insert? row with
      | some noteAcl =>
        .ok (recordAccessChange { db with noteAcl := noteAcl } .noteAccessGranted row)
      | none => .error .database

/-! ## Writes to `bibliography_items` -/

/-- `INSERT INTO bibliography_items` with its trigger. -/
def insertBibliographyItemRow (new : BibliographyItemRow) : Except SqliteStoreError Database :=
  if 0 < new.revision ∧ (db.principals.find new.owner).isSome ∧
      ∀ row ∈ db.bibliographyItems, ¬(row.owner = new.owner ∧ row.citationKey = new.citationKey)
  then
    match db.bibliographyItems.insert? new with
    | some items =>
      .ok (recordChange { db with bibliographyItems := items }
        ⟨new.owner, none, .bibliographyItemCreated, new.itemId.entityId, new.revision,
          new.updatedAt⟩)
    | none => .error .database
  else .error .database

/-- One row of an `UPDATE bibliography_items` with its trigger, which fires when the revision
moved. -/
def updateBibliographyItemRow (old new : BibliographyItemRow) :
    Except SqliteStoreError Database :=
  if 0 < new.revision ∧ ∀ row ∈ db.bibliographyItems, row.itemId ≠ new.itemId →
      ¬(row.owner = new.owner ∧ row.citationKey = new.citationKey)
  then
    let written := { db with bibliographyItems := db.bibliographyItems.upsert new }
    .ok (if new.revision ≠ old.revision then
        written.recordChange ⟨new.owner, none, .bibliographyItemUpdated, new.itemId.entityId,
          new.revision, new.updatedAt⟩
      else written)
  else .error .database

/-- One row of a `DELETE FROM bibliography_items` with its cascade and its trigger. -/
def deleteBibliographyItemRow (old : BibliographyItemRow) : Database :=
  recordChange
    { db with
      bibliographyItems := db.bibliographyItems.deleteWhere fun row => row.itemId = old.itemId
      bibliographyImportLinks := db.bibliographyImportLinks.deleteWhere fun link =>
        link.itemId = old.itemId ∧ link.owner = old.owner }
    ⟨old.owner, none, .bibliographyItemDeleted, old.itemId.entityId, old.revision, old.updatedAt⟩

end Database

end Marginalis
