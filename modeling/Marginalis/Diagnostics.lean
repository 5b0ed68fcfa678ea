import Marginalis.NotePatch
import Marginalis.Schema

/-!
# Diagnostics and errors of the note use cases

A use case that rejects its input answers with diagnostics (`NoteValidationDiagnostic`), and
one that accepts it may still report advisories (`NoteAdvisoryDiagnostic`). `NoteUseCaseError`
is what every use case can end with. The failures of the repositories keep their names there
(`StorageError.toNoteUseCaseError`).
-/

namespace Marginalis

/-! ## Diagnostics -/

inductive NoteValidationTarget
  | source
  | title
  | body
  | tag (index : ℕ)
  | tags
  | aclEntry (index : ℕ)
  deriving DecidableEq, Repr

/-- A range of bytes of the UTF-8 source. -/
structure Utf8ByteSpan where
  start : ℕ
  stop : ℕ
  deriving DecidableEq, Repr

/-- A line and a column of the source, both from 1. -/
structure NoteSourcePosition where
  line : ℕ
  column : ℕ
  deriving DecidableEq, Repr

/-- The codes of the rejections that the use cases make themselves. -/
inductive NoteValidationCode
  | invalidAttachmentReference
  | invalidAclIssuer
  | invalidAclSubject
  | duplicateAclSubject
  | ownerInAcl
  deriving DecidableEq, Repr

/-- `NoteValidationCode::as_str`. -/
def NoteValidationCode.asStr : NoteValidationCode → String
  | invalidAttachmentReference => "invalid_attachment_reference"
  | invalidAclIssuer => "invalid_acl_issuer"
  | invalidAclSubject => "invalid_acl_subject"
  | duplicateAclSubject => "duplicate_acl_subject"
  | ownerInAcl => "owner_in_acl"

/-- A problem that rejects the input. -/
structure NoteValidationDiagnostic where
  code : String
  target : NoteValidationTarget
  span : Option Utf8ByteSpan
  position : Option NoteSourcePosition
  message : String
  deriving DecidableEq, Repr

inductive NoteAdvisorySeverity
  | warning | information | hint
  deriving DecidableEq, Repr

/-- A remark on an input that is accepted. -/
structure NoteAdvisoryDiagnostic where
  code : String
  severity : NoteAdvisorySeverity
  target : NoteValidationTarget
  span : Option Utf8ByteSpan
  position : Option NoteSourcePosition
  message : String
  deriving DecidableEq, Repr

/-! ## Errors -/

/-- The failures of the note use cases. -/
inductive NoteUseCaseError
  | notFound
  | conflict
  | retentionExpired
  | invalidSyncLimit
  | invalidSyncCursor
  | syncCursorExpired
  | invalidLineRange
  | patchRejected (error : NotePatchError)
  | validation (diagnostics : List NoteValidationDiagnostic)
  | advisoriesRejected (diagnostics : List NoteAdvisoryDiagnostic)
  | renderFailed
  | unavailable
  | corruptData
  deriving DecidableEq, Repr

/-- `From<StorageError> for NoteUseCaseError`. -/
def StorageError.toNoteUseCaseError : StorageError → NoteUseCaseError
  | notFound => .notFound
  | conflict => .conflict
  | retentionExpired => .retentionExpired
  | corruptData => .corruptData
  | unavailable => .unavailable

/-- `map_owner_resource_error`. -/
def StorageError.toOwnerResourceError : StorageError → NoteUseCaseError
  | corruptData => .corruptData
  | _ => .unavailable

/-- The port of the note repository names the failure, and the use case keeps the name. -/
def SqliteStoreError.toNoteUseCaseError (error : SqliteStoreError) : NoteUseCaseError :=
  error.toStorageError.toNoteUseCaseError

end Marginalis
