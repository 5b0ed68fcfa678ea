import Marginalis.Characters
import Marginalis.Notes
import Marginalis.Result

/-!
# Attachments

Images are uploaded to a note before its source names them, and a revision then shows the
ones its source names. An image can go again only while no revision shows it : by
`deleteUnusedNoteAttachment`, or by the daily purge of uploads that were never used.

`StoredAttachment` carries what `AttachmentMetadata::new` and `StoredAttachment::new` check,
so an unchecked image never reaches the store. Unicode normalization and SHA-256 are other
crates' and come in as `AttachmentLibrary`, with the one property of normalization the code
relies on when it reads a stored name back.
-/

namespace Marginalis

/-! ## Images -/

/-- Unicode normalization and SHA-256 : a normalized name stays as it is when it is trimmed
and normalized again. -/
structure AttachmentLibrary where
  nfc : List Char → List Char
  sha256 : List UInt8 → ℕ
  nfc_trim_idem : ∀ s, nfc (trim (nfc (trim s))) = nfc (trim s)

/-- `ATTACHMENT_POLICY`. -/
structure AttachmentPolicy where
  maxBytes : ℕ
  maxAttachmentsPerNote : ℕ
  maxBytesPerNote : ℕ
  maxFileNameCharacters : ℕ

def attachmentPolicy : AttachmentPolicy where
  maxBytes := 8 * 1024 * 1024
  maxAttachmentsPerNote := 32
  maxBytesPerNote := 64 * 1024 * 1024
  maxFileNameCharacters := 200

/-- `AttachmentMediaType::detect` : the format the fixed signature of the bytes names. -/
def AttachmentMediaType.detect (bytes : List UInt8) : Option AttachmentMediaType :=
  if 24 ≤ bytes.length ∧ bytes.take 8 = [0x89, 0x50, 0x4E, 0x47, 0x0D, 0x0A, 0x1A, 0x0A] ∧
      (bytes.drop 12).take 4 = [0x49, 0x48, 0x44, 0x52] ∧
      (bytes.drop 16).take 4 ≠ [0, 0, 0, 0] ∧ (bytes.drop 20).take 4 ≠ [0, 0, 0, 0] then
    some .png
  else if 4 ≤ bytes.length ∧ bytes.take 3 = [0xFF, 0xD8, 0xFF] ∧
      bytes.drop (bytes.length - 2) = [0xFF, 0xD9] then
    some .jpeg
  else if 16 ≤ bytes.length ∧ bytes.take 4 = [0x52, 0x49, 0x46, 0x46] ∧
      (bytes.drop 8).take 4 = [0x57, 0x45, 0x42, 0x50] ∧
      (bytes.drop 12).take 4 ∈
        [[0x56, 0x50, 0x38, 0x20], [0x56, 0x50, 0x38, 0x4C], [0x56, 0x50, 0x38, 0x58]] then
    some .webp
  else none

inductive InvalidAttachment
  | invalidFileName
  | empty
  | tooLarge
  | unsupportedMediaType
  deriving DecidableEq, Repr

structure AttachmentMetadata where
  attachmentId : AttachmentId
  noteId : NoteId
  fileName : String
  mediaType : AttachmentMediaType
  byteLength : ℕ
  sha256 : ℕ
  createdAt : ℤ
  createdBy : PrincipalRef
  deriving DecidableEq, Repr

/-- The rule for a normalized file name. -/
def ValidFileName (name : List Char) : Prop :=
  name ≠ [] ∧ name.length ≤ attachmentPolicy.maxFileNameCharacters ∧
    (∀ c ∈ name, isControl c = false ∧ c ≠ '/' ∧ c ≠ '\\') ∧ name ≠ ['.'] ∧ name ≠ ['.', '.']

instance (name : List Char) : Decidable (ValidFileName name) := by
  unfold ValidFileName
  -- The characters of the name are tried, not all characters there are.
  have := List.decidableBAll (fun c => isControl c = false ∧ c ≠ '/' ∧ c ≠ '\\') name
  infer_instance

/-- `AttachmentMetadata::new`. -/
def AttachmentMetadata.new (lib : AttachmentLibrary) (m : AttachmentMetadata) :
    Except InvalidAttachment AttachmentMetadata :=
  let fileName := lib.nfc (trim m.fileName.toList)
  if ¬ValidFileName fileName then .error .invalidFileName
  else if m.byteLength = 0 then .error .empty
  else if attachmentPolicy.maxBytes < m.byteLength then .error .tooLarge
  else .ok { m with fileName := String.ofList fileName }

/-- Accepted metadata is accepted again as it is. -/
theorem AttachmentMetadata.new_idem {lib : AttachmentLibrary} {m m' : AttachmentMetadata}
    (h : new lib m = .ok m') : new lib m' = .ok m' := by
  unfold new at h ⊢
  dsimp only at h ⊢
  split_ifs at h with hname hempty hlarge
  cases h
  simp only [String.toList_ofList, lib.nfc_trim_idem, hname, hempty, hlarge, not_true_eq_false,
    if_false]

/-- Only the file name changes. -/
theorem AttachmentMetadata.eq_of_new {lib : AttachmentLibrary} {m m' : AttachmentMetadata}
    (h : new lib m = .ok m') : ∃ fileName, m' = { m with fileName := fileName } := by
  unfold new at h
  dsimp only at h
  split_ifs at h
  cases h
  exact ⟨_, rfl⟩

/-- An image whose metadata and bytes agree. -/
structure StoredAttachment (lib : AttachmentLibrary) where
  metadata : AttachmentMetadata
  bytes : List UInt8
  metadata_valid : AttachmentMetadata.new lib metadata = .ok metadata
  bytes_valid : bytes.length = metadata.byteLength ∧
    AttachmentMediaType.detect bytes = some metadata.mediaType ∧
    lib.sha256 bytes = metadata.sha256

/-- `StoredAttachment::new`, after `AttachmentMetadata::new`. -/
def StoredAttachment.new (lib : AttachmentLibrary) (m : AttachmentMetadata) (bytes : List UInt8) :
    Except InvalidAttachment (StoredAttachment lib) :=
  match h : AttachmentMetadata.new lib m with
  | .error e => .error e
  | .ok metadata =>
    if hbytes : bytes.length = metadata.byteLength ∧
        AttachmentMediaType.detect bytes = some metadata.mediaType ∧
        lib.sha256 bytes = metadata.sha256 then
      .ok ⟨metadata, bytes, AttachmentMetadata.new_idem h, hbytes⟩
    else .error .unsupportedMediaType

variable {lib : AttachmentLibrary}

theorem StoredAttachment.metadata_of_new {m : AttachmentMetadata} {bytes : List UInt8}
    {attachment : StoredAttachment lib} (h : new lib m bytes = .ok attachment) :
    AttachmentMetadata.new lib m = .ok attachment.metadata := by
  unfold new at h
  split at h
  · cases h
  · next metadata hmetadata =>
    split_ifs at h
    cases h
    exact hmetadata

/-- The row `create_note_attachment` binds. -/
def StoredAttachment.toRow (attachment : StoredAttachment lib) : AttachmentRow where
  attachmentId := attachment.metadata.attachmentId
  noteId := attachment.metadata.noteId
  fileName := attachment.metadata.fileName
  mediaType := attachment.metadata.mediaType
  byteLength := attachment.metadata.byteLength
  sha256 := attachment.metadata.sha256
  content := attachment.bytes
  createdAt := attachment.metadata.createdAt
  createdBy := attachment.metadata.createdBy.id

namespace Database

variable (db : Database)

/-! ## Transactions -/

/-- The images of a note. -/
def attachmentsOf (noteId : NoteId) : List AttachmentRow :=
  db.noteAttachments.select fun row => row.noteId = noteId

/-- Some revision shows the image. -/
def IsReferenced (noteId : NoteId) (attachmentId : AttachmentId) : Prop :=
  ∃ shown ∈ db.noteRevisionAttachments, shown.noteId = noteId ∧ shown.attachmentId = attachmentId

instance (noteId : NoteId) (attachmentId : AttachmentId) :
    Decidable (db.IsReferenced noteId attachmentId) := by
  unfold IsReferenced
  infer_instance

/-- `create_note_attachment`. -/
def createNoteAttachment (actor : Actor) (attachment : StoredAttachment lib) :
    Except SqliteStoreError Database :=
  let metadata := attachment.metadata
  if metadata.createdBy.id ≠ actor.principalId then .error .corruptData
  else if ¬db.ActiveAccess actor metadata.noteId .edit then .error .notFound
  else if attachmentPolicy.maxAttachmentsPerNote ≤ (db.attachmentsOf metadata.noteId).length ∨
      attachmentPolicy.maxBytesPerNote <
        ((db.attachmentsOf metadata.noteId).map AttachmentRow.byteLength).sum +
          metadata.byteLength then
    .error .conflict
  else
    match db.noteAttachments.insert? attachment.toRow with
    | none => .error .database
    | some rows => .ok { db with noteAttachments := rows }

/-- `delete_unused_note_attachment`. -/
def deleteUnusedNoteAttachment (actor : Actor) (noteId : NoteId) (attachmentId : AttachmentId) :
    Except SqliteStoreError Database :=
  if ¬db.ActiveAccess actor noteId .edit then .error .notFound
  else if ∃ row ∈ db.noteAttachments, row.noteId = noteId ∧ row.attachmentId = attachmentId then
    if db.IsReferenced noteId attachmentId then .error .conflict
    else .ok { db with
      noteAttachments := db.noteAttachments.deleteWhere fun row =>
        row.noteId = noteId ∧ row.attachmentId = attachmentId }
  else .error .notFound

/-- `purge_unreferenced_note_attachments_before`, with the number of rows it deleted. -/
def purgeUnreferencedNoteAttachmentsBefore (cutoff : ℤ) : ℕ × Database :=
  let unused := fun row : AttachmentRow =>
    decide (row.createdAt < cutoff ∧ ¬db.IsReferenced row.noteId row.attachmentId)
  ((db.noteAttachments.select unused).length,
    { db with noteAttachments := db.noteAttachments.deleteWhere unused })

end Database

/-! ## Commands -/

/-- The write commands on images. -/
inductive AttachmentCommand (lib : AttachmentLibrary)
  | create (actor : Actor) (attachment : StoredAttachment lib)
  | deleteUnused (actor : Actor) (noteId : NoteId) (attachmentId : AttachmentId)

/-- The transaction of a command. -/
def AttachmentCommand.exec (db : Database) :
    AttachmentCommand lib → Except SqliteStoreError Database
  | create actor attachment => db.createNoteAttachment actor attachment
  | deleteUnused actor noteId attachmentId =>
    db.deleteUnusedNoteAttachment actor noteId attachmentId

/-- A committed command on images stored one of the actor's own, or deleted one that no
revision shows. -/
theorem AttachmentCommand.exec_cases {c : AttachmentCommand lib} {db db' : Database}
    (h : c.exec db = .ok db') :
    (∃ actor attachment rows, c = .create actor attachment ∧
      db.ActiveAccess actor attachment.metadata.noteId .edit ∧
      attachment.metadata.createdBy.id = actor.principalId ∧
      (db.attachmentsOf attachment.metadata.noteId).length <
        attachmentPolicy.maxAttachmentsPerNote ∧
      ((db.attachmentsOf attachment.metadata.noteId).map AttachmentRow.byteLength).sum +
        attachment.metadata.byteLength ≤ attachmentPolicy.maxBytesPerNote ∧
      db.noteAttachments.insert? attachment.toRow = some rows ∧
      db' = { db with noteAttachments := rows }) ∨
    ∃ noteId attachmentId, ¬db.IsReferenced noteId attachmentId ∧
      db' = { db with
        noteAttachments := db.noteAttachments.deleteWhere fun row =>
          row.noteId = noteId ∧ row.attachmentId = attachmentId } := by
  cases c with
  | create actor attachment =>
    left
    simp only [exec, Database.createNoteAttachment] at h
    split_ifs at h with hcreator haccess hlimit
    rw [not_or, not_le, not_lt] at hlimit
    split at h
    · cases h
    · next rows hinsert =>
      cases h
      exact ⟨actor, attachment, rows, rfl, haccess, not_not.mp hcreator, hlimit.1,
        hlimit.2, hinsert, rfl⟩
  | deleteUnused actor noteId attachmentId =>
    right
    simp only [exec, Database.deleteUnusedNoteAttachment] at h
    split_ifs at h with haccess hexists hreferenced
    cases h
    exact ⟨noteId, attachmentId, hreferenced, rfl⟩

end Marginalis
