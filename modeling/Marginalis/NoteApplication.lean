import Marginalis.Diagnostics
import Marginalis.LibraryRequests
import Marginalis.PurgeNotes
import Mathlib.Data.List.Destutter

/-!
# The note application

The use cases that write the content of a note. `update_note` and `apply_note_patch` check the
same things in the same order : the content port reads the source (`NoteContent`), the images
it names have to be stored by the note, the citations are looked up in the library of the
owner, and a policy can reject the warnings. What they store is one conditional update.

A request reads the store as it goes along and writes it once, at its end, so a use case is a
function of the database to its answer and the database after it.
-/

namespace Marginalis

/-! ## The content port -/

/-- A reference of the source to a note. -/
structure NoteReferenceQuery where
  targetNoteId : NoteId
  deriving DecidableEq, Repr

/-- An image macro of the source. -/
structure NoteAttachmentQuery where
  attachmentId : AttachmentId
  span : Utf8ByteSpan
  position : NoteSourcePosition
  deriving DecidableEq, Repr

/-- A citation of the source. -/
structure NoteCitationQuery where
  citationIndex : ℕ
  keys : List String
  locator : Option String
  span : Utf8ByteSpan
  position : NoteSourcePosition
  deriving DecidableEq, Repr

/-- A draft that was accepted, with what its analysis found. -/
structure ValidatedNoteDraft where
  draft : NoteDraft
  diagnostics : List NoteAdvisoryDiagnostic
  referenceQueries : List NoteReferenceQuery
  citationQueries : List NoteCitationQuery
  attachmentQueries : List NoteAttachmentQuery
  deriving DecidableEq, Repr

/-- The port to AsciiDoc. It derives the title and the tags from the source. -/
structure NoteContent where
  analyze : String → Except (List NoteValidationDiagnostic) ValidatedNoteDraft

/-- `validate_draft` : it reads nothing of a draft but its source. -/
def NoteContent.validateDraft (content : NoteContent) (draft : NoteDraft) :
    Except (List NoteValidationDiagnostic) ValidatedNoteDraft :=
  content.analyze draft.source

/-- Whether warnings are accepted. -/
inductive NoteWritePolicy
  | allowAdvisories | rejectWarnings
  deriving DecidableEq, Repr

/-- What a note application is built from, besides the store. -/
structure NoteApplication where
  content : NoteContent
  attachments : AttachmentLibrary
  json : JsonCodec
  aclIssuer : String

/-! ## What the source points at -/

/-- `attachment_ids` : `sort_by_key` and `dedup`. The order of the ids is that of their texts. -/
def attachmentIds (queries : List NoteAttachmentQuery) : List AttachmentId :=
  (Table.orderBy AttachmentId.entityId (queries.map NoteAttachmentQuery.attachmentId)).destutter
    (· ≠ ·)

/-- `cited_keys`. -/
def citedKeys (queries : List NoteCitationQuery) : List String :=
  (Table.orderBy id (queries.flatMap NoteCitationQuery.keys)).destutter (· ≠ ·)

/-- `reference_targets`. -/
def referenceTargets (queries : List NoteReferenceQuery) : List NoteId :=
  (queries.map NoteReferenceQuery.targetNoteId).dedup

/-- The links of a validated draft. -/
def ValidatedNoteDraft.links (validated : ValidatedNoteDraft) : NoteLinks where
  referenceTargets := referenceTargets validated.referenceQueries
  citedKeys := citedKeys validated.citationQueries
  attachmentIds := attachmentIds validated.attachmentQueries

/-! ## Checks -/

/-- `reject_warnings`. -/
def rejectWarnings (policy : NoteWritePolicy) (diagnostics : List NoteAdvisoryDiagnostic) :
    Except NoteUseCaseError Unit :=
  if policy = .rejectWarnings ∧ ∃ diagnostic ∈ diagnostics, diagnostic.severity = .warning then
    .error (.advisoriesRejected diagnostics)
  else .ok ()

/-- `unknown_citation_diagnostics`. -/
def unknownCitationDiagnostics (queries : List NoteCitationQuery) (unknownKeys : List String) :
    List NoteAdvisoryDiagnostic :=
  queries.filterMap fun query =>
    let missing := query.keys.filter fun key => key ∈ unknownKeys
    if missing = [] then none
    else some {
      code := "unknown_citation_key"
      severity := .warning
      target := .source
      span := some query.span
      position := some query.position
      message := "the bibliography library has no item for " ++ String.intercalate ", " missing }

/-- The rejection of an image macro that names no image of the note. -/
def missingAttachment (query : NoteAttachmentQuery) : NoteValidationDiagnostic where
  code := NoteValidationCode.invalidAttachmentReference.asStr
  target := .source
  span := some query.span
  position := some query.position
  message := "attachment reference must name an image stored by this note"

namespace Database

variable (db : Database) (app : NoteApplication)

/-- `read_visible_note`. -/
def readVisibleNote (actor : Actor) (noteId : NoteId) : Except NoteUseCaseError Note := do
  match ← (db.accessibleNote actor noteId).mapError SqliteStoreError.toNoteUseCaseError with
  | none => throw .notFound
  | some accessible => return accessible.note

/-- `validate_note_attachment_references`. -/
def validateNoteAttachmentReferences (actor : Actor) (noteId : NoteId)
    (queries : List NoteAttachmentQuery) : Except NoteUseCaseError Unit := do
  if queries = [] then return ()
  match ← (db.listNoteAttachments app.attachments actor noteId).mapError
      SqliteStoreError.toNoteUseCaseError with
  | none => throw .notFound
  | some metadata =>
    let missing := queries.filter fun query =>
      ¬∃ entry ∈ metadata, entry.attachmentId = query.attachmentId
    if missing = [] then return ()
    else throw (.validation (missing.map missingAttachment))

/-- The diagnostics of `citation_resolutions`. -/
def citationDiagnostics (owner : PrincipalRef) (queries : List NoteCitationQuery) :
    Except NoteUseCaseError (List NoteAdvisoryDiagnostic) := do
  if queries = [] then return []
  let keys := (queries.flatMap NoteCitationQuery.keys).eraseDups
  let items ← (db.itemsByCitationKeys app.json owner keys).mapError
    StorageError.toOwnerResourceError
  return unknownCitationDiagnostics queries
    (keys.filter fun key => ¬∃ item ∈ items, item.citationKey = key)

/-- What `update_note` and `apply_note_patch` add to the diagnostics of the draft. The owner is
looked up only for a source with citations. -/
def citationAdvisories (owner : Except NoteUseCaseError PrincipalRef)
    (queries : List NoteCitationQuery) : Except NoteUseCaseError (List NoteAdvisoryDiagnostic) :=
  if queries = [] then .ok []
  else do
    let owner ← owner
    db.citationDiagnostics app owner queries

/-! ## Use cases -/

/-- `update_note`. -/
def updateNote (actor : Actor) (noteId : NoteId) (draft : NoteDraft) (expectedRevision : ℕ)
    (policy : NoteWritePolicy) (now : ℤ) : Except NoteUseCaseError (Note × Database) := do
  let validated ← (app.content.validateDraft draft).mapError NoteUseCaseError.validation
  db.validateNoteAttachmentReferences app actor noteId validated.attachmentQueries
  let unknown ← db.citationAdvisories app ((db.readVisibleNote actor noteId).map (·.owner))
    validated.citationQueries
  rejectWarnings policy (validated.diagnostics ++ unknown)
  (db.updateVisibleNote actor noteId expectedRevision validated.draft validated.links now).mapError
    SqliteStoreError.toNoteUseCaseError

end Database

/-- The answer to a patch. A dry run saves no note. -/
structure NotePatchApplication where
  note : Option Note
  hunksApplied : ℕ
  linesAdded : ℕ
  linesRemoved : ℕ
  advisories : List NoteAdvisoryDiagnostic
  deriving DecidableEq

/-- How a patch request ends without an answer. -/
inductive NotePatchFailure
  | error (e : NoteUseCaseError)
  | panicked
  deriving DecidableEq, Repr

/-- `map_err(NoteUseCaseError::PatchRejected)`. -/
def PatchFailure.toNotePatchFailure : PatchFailure → NotePatchFailure
  | .error e => .error (.patchRejected e)
  | .panicked => .panicked

namespace Database

variable (db : Database) (app : NoteApplication)

/-- The checks of `apply_note_patch` before the patch is applied. -/
def editableNote (actor : Actor) (noteId : NoteId) (expectedRevision : ℕ) :
    Except NoteUseCaseError Note := do
  match ← (db.accessibleNote actor noteId).mapError SqliteStoreError.toNoteUseCaseError with
  | none => throw .notFound
  | some accessible =>
    if accessible.access.accessLevel < NoteAccess.edit.accessLevel then throw .notFound
    else if accessible.note.revision ≠ expectedRevision then throw .conflict
    else return accessible.note

/-- The checks of `apply_note_patch` after the patch is applied : the validated draft and the
advisories. -/
def validatePatched (actor : Actor) (noteId : NoteId) (owner : PrincipalRef) (source : String)
    (policy : NoteWritePolicy) :
    Except NoteUseCaseError (ValidatedNoteDraft × List NoteAdvisoryDiagnostic) := do
  let validated ← (app.content.validateDraft ⟨"", source, []⟩).mapError NoteUseCaseError.validation
  db.validateNoteAttachmentReferences app actor noteId validated.attachmentQueries
  let unknown ← db.citationAdvisories app (.ok owner) validated.citationQueries
  rejectWarnings policy (validated.diagnostics ++ unknown)
  return (validated, validated.diagnostics ++ unknown)

/-- `apply_note_patch`. -/
def applyNotePatch (actor : Actor) (noteId : NoteId) (patchText : String)
    (expectedRevision : ℕ) (policy : NoteWritePolicy) (dryRun : Bool) (now : ℤ) :
    Except NotePatchFailure (NotePatchApplication × Database) := do
  let note ← (db.editableNote actor noteId expectedRevision).mapError NotePatchFailure.error
  let outcome ← (Marginalis.applyNotePatch note.draft.source.toList patchText.toList).mapError
    PatchFailure.toNotePatchFailure
  let (validated, advisories) ← (db.validatePatched app actor noteId note.owner
    (String.ofList outcome.source) policy).mapError NotePatchFailure.error
  let answer : NotePatchApplication :=
    ⟨none, outcome.hunksApplied, outcome.linesAdded, outcome.linesRemoved, advisories⟩
  if dryRun then return (answer, db)
  let (saved, db) ← (db.updateVisibleNote actor noteId expectedRevision validated.draft
    validated.links now).mapError fun error => NotePatchFailure.error error.toNoteUseCaseError
  return ({ answer with note := some saved }, db)

end Database

/-- `read_note_revision`. -/
def Database.readNoteRevision (db : Database) (actor : Actor) (noteId : NoteId) (revision : ℕ) :
    Except NoteUseCaseError NoteRevisionView := do
  match ← (db.noteRevision actor noteId revision).mapError
      SqliteStoreError.toNoteUseCaseError with
  | none => throw .notFound
  | some view => return view

/-- The rejection of an image macro in a note that is not stored yet. -/
def earlyAttachment (query : NoteAttachmentQuery) : NoteValidationDiagnostic where
  code := NoteValidationCode.invalidAttachmentReference.asStr
  target := .source
  span := some query.span
  position := some query.position
  message := "attachments can be added after the note is created"

namespace NoteApplication

variable (app : NoteApplication) (db : Database)

/-- `create_note` of the application. The id is drawn before. -/
def createNote (actor : Actor) (noteId : NoteId) (draft : NoteDraft) (policy : NoteWritePolicy)
    (createdVia : NoteCreationSource) (now : ℤ) : Except NoteUseCaseError (Note × Database) := do
  let validated ← (app.content.validateDraft draft).mapError NoteUseCaseError.validation
  if validated.attachmentQueries ≠ [] then
    throw (.validation (validated.attachmentQueries.map earlyAttachment))
  else
    let unknown ← db.citationDiagnostics app actor.principal validated.citationQueries
    rejectWarnings policy (validated.diagnostics ++ unknown)
    let note := Note.create noteId actor.principal validated.draft now createdVia
    let db ← (db.createNote note validated.links).mapError SqliteStoreError.toNoteUseCaseError
    return (note, db)

/-- `restore_note_revision` of the application. -/
def restoreNoteRevision (actor : Actor) (noteId : NoteId) (revision expectedRevision : ℕ)
    (policy : NoteWritePolicy) (now : ℤ) : Except NoteUseCaseError (Note × Database) := do
  let historical ← db.readNoteRevision actor noteId revision
  let validated ← (app.content.validateDraft
    ⟨"", historical.revision.note.draft.source, []⟩).mapError NoteUseCaseError.validation
  db.validateNoteAttachmentReferences app actor noteId validated.attachmentQueries
  let unknown ← db.citationAdvisories app ((db.readVisibleNote actor noteId).map (·.owner))
    validated.citationQueries
  rejectWarnings policy (validated.diagnostics ++ unknown)
  (db.restoreVisibleNoteRevision actor noteId expectedRevision validated.draft validated.links
    now).mapError SqliteStoreError.toNoteUseCaseError

end NoteApplication

/-! ## The AsciiDoc adapter -/

/-- What AdocWeave finds in a source that passes the checks of `validate_draft`. -/
structure SourceAnalysis where
  title : String
  tags : List String
  diagnostics : List NoteAdvisoryDiagnostic
  referenceQueries : List NoteReferenceQuery
  citationQueries : List NoteCitationQuery
  attachmentQueries : List NoteAttachmentQuery
  deriving DecidableEq, Repr

/-- `validate_draft` of the adapter : the source stays as it is, title and tags are derived. -/
def asciiDocContent (analysis : String → Except (List NoteValidationDiagnostic) SourceAnalysis) :
    NoteContent where
  analyze source := (analysis source).map fun found =>
    { draft := ⟨found.title, source, found.tags⟩
      diagnostics := found.diagnostics
      referenceQueries := found.referenceQueries
      citationQueries := found.citationQueries
      attachmentQueries := found.attachmentQueries }

/-- The images a source names : none when it can not be read. -/
def NoteContent.images (content : NoteContent) (source : String) : List AttachmentId :=
  match content.analyze source with
  | .ok validated => attachmentIds validated.attachmentQueries
  | .error _ => []

/-- A draft the adapter accepts names the images of its own source. -/
theorem images_asciiDocContent
    {analysis : String → Except (List NoteValidationDiagnostic) SourceAnalysis}
    {draft : NoteDraft} {validated : ValidatedNoteDraft}
    (h : (asciiDocContent analysis).validateDraft draft = .ok validated) :
    validated.draft.source = draft.source ∧
      validated.links.attachmentIds = (asciiDocContent analysis).images validated.draft.source := by
  have hsource : validated.draft.source = draft.source := by
    obtain ⟨found, -, rfl⟩ := Except.map_eq_ok.mp h
    rfl
  refine ⟨hsource, ?_⟩
  unfold NoteContent.validateDraft at h
  unfold NoteContent.images
  rw [hsource, h]
  rfl

/-! ## An application -/

/-- A content port that accepts every source under one title. -/
def sampleApplication : NoteApplication where
  content := ⟨fun source => .ok ⟨⟨"A", source, []⟩, [], [], [], []⟩⟩
  attachments := asciiLibrary
  json := ⟨fun _ => "", fun _ => none⟩
  aclIssuer := "https://id.example.test"

end Marginalis
