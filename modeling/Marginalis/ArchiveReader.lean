import Marginalis.ArchiveRecords

/-!
# Reading an archive

`validateArchive` reads every record of an archive and puts a snapshot together with the
constructors of `LogicalSnapshot`, which check how its parts refer to each other. The principals
that the archive declares are numbered in the order of their primary identities, and a record names
one of them by that identity. Titles, tags and images are taken from the sources once more. An
archive of the version before is read in the same way, and written again (`migratePreviousArchive`).
-/

namespace Marginalis

open LogicalSnapshot
open Table (orderBy)

inductive ArchiveContentsError
  | principal (position : ℕ)
  | note (position : ℕ)
  | noteRevision (position : ℕ)
  | attachment (position : ℕ)
  | attachmentReference (position : ℕ)
  | aclEntry (position : ℕ)
  | bibliographyItem (position : ℕ)
  | bibliographyImportSource (position : ℕ)
  | bibliographyImportLink (position : ℕ)
  | mathMacroSettings (position : ℕ)
  | relationships
  deriving DecidableEq, Repr

/-- The mapping of the last `map_err` of `validate_archive_contents`. -/
def InvalidSnapshot.toArchiveContentsError : InvalidSnapshot → ArchiveContentsError
  | duplicateNote position => .note position
  | invalidAclEntry position => .aclEntry position
  | invalidNoteRevision position => .noteRevision position
  | invalidAttachment position => .attachment position
  | invalidAttachmentReference position => .attachmentReference position
  | invalidBibliographyItem position => .bibliographyItem position
  | invalidBibliographyImportSource position => .bibliographyImportSource position
  | invalidBibliographyImportLink position => .bibliographyImportLink position
  | invalidMathMacroSettings position => .mathMacroSettings position
  | invalidPrincipal position => .principal position
  | invalidPrincipalReference => .relationships

/-- `entries.iter().enumerate().map(..).collect()` : the first entry that can not be read is named
by its position, counted from one. -/
def readEach {α β : Type} (invalid : ℕ → ArchiveContentsError) (read : α → Option β) :
    ℕ → List α → Except ArchiveContentsError (List β)
  | _, [] => .ok []
  | position, entry :: entries =>
    match read entry with
    | none => .error (invalid position)
    | some value => do
      let values ← readEach invalid read (position + 1) entries
      return value :: values

namespace ArchiveLibrary

variable (lib : ArchiveLibrary)

/-! ## Values -/

/-- `EntityId::from_str` : a UUID of version 7. -/
def parseEntityId (value : String) : Option ℕ :=
  (lib.parseUuid value).filter fun entityId => entityId / 2 ^ 76 % 16 = 7

/-- `decode_bytes_32`. Of ASCII texts those of 64 bytes have 64 characters. -/
def decodeSha256 (encoded : String) : Option ℕ :=
  if encoded.toList.length ≠ 64 ∨ encoded.toList.any (fun c => 128 ≤ c.toNat) = true then none
  else (Uuid.valueOfPairs 0 encoded.toList).filter fun digest => encodeSha256 digest = encoded

/-- `Revision::new`. -/
def readRevision (value : ℤ) : Option ℕ :=
  if 0 < value then some value.toNat else none

/-! ## Principals -/

/-- An identity that was not seen before. -/
def readIdentity (seen : List Identity) (issuer subject : String) :
    Option (Identity × List Identity) :=
  match Identity.new lib.url issuer subject with
  | .error _ => none
  | .ok identity => (insertNew seen identity).map fun seen => (identity, seen)

/-- The loop over the aliases of a principal. -/
def readAliases : List Identity → List ArchiveIdentity → Option (List Identity × List Identity)
  | seen, [] => some ([], seen)
  | seen, entry :: entries => do
    let (identity, seen) ← lib.readIdentity seen entry.issuer entry.subject
    let (identities, seen) ← readAliases seen entries
    return (identity :: identities, seen)

/-- The primary identity of a principal, all of its identities, and those seen so far. -/
def readPrincipal (seen : List Identity) (entry : ArchivePrincipal) :
    Option ((Identity × List Identity) × List Identity) := do
  let (primary, seen) ← lib.readIdentity seen entry.primaryIssuer entry.primarySubject
  let (aliases, seen) ← lib.readAliases seen entry.aliases
  return ((primary, primary :: aliases), seen)

/-- The first loop of `declared_archive_principals`. -/
def readPrincipals : ℕ → List Identity → List ArchivePrincipal →
    Except ArchiveContentsError (List (Identity × List Identity))
  | _, _, [] => .ok []
  | position, seen, entry :: entries =>
    match lib.readPrincipal seen entry with
    | none => .error (.principal position)
    | some (parsed, seen) => do
      let rest ← readPrincipals (position + 1) seen entries
      return parsed :: rest

/-- The second loop of `declared_archive_principals`, which numbers the principals. -/
def numberPrincipals : ℕ → List (Identity × List Identity) →
    Except ArchiveContentsError (List Principal)
  | _, [] => .ok []
  | position, (primary, identities) :: entries =>
    match Principal.restore ⟨position⟩ primary identities with
    | .error _ => .error (.principal position)
    | .ok principal => do
      let principals ← numberPrincipals (position + 1) entries
      return principal :: principals

/-- `declared_archive_principals`. -/
def declaredArchivePrincipals (archive : Archive) :
    Except ArchiveContentsError (List Principal) :=
  match archive.principals with
  | none => .error (.principal 1)
  | some entries => do
    let parsed ← lib.readPrincipals 1 [] entries
    numberPrincipals 1 (orderBy (fun entry => entry.1.toArchive.key) parsed)

/-- `principal_ref`. -/
def principalRef (principals : List Principal) (issuer subject : String) : Option PrincipalRef :=
  match Identity.new lib.url issuer subject with
  | .error _ => none
  | .ok identity => (principals.find? fun principal =>
      principal.reference.primaryIdentity = identity).map Principal.reference

/-! ## Notes -/

/-- `archive_review`. -/
def archiveReview (principals : List Principal) (owner : PrincipalRef)
    (reviewTrackingKnown : Bool) (reviewedRevision : Option ℤ) (reviewedAt : Option ℤ)
    (reviewerIssuer reviewerSubject : Option String) : Option NoteReviewTracking :=
  match reviewTrackingKnown, reviewedRevision, reviewedAt, reviewerIssuer, reviewerSubject with
  | false, none, none, none, none => some .unknown
  | true, none, none, none, none => some .pending
  | true, some revision, some reviewedAt, some issuer, some subject => do
    let reviewer ← lib.principalRef principals issuer subject
    if ¬reviewer.Same owner then none
    else
      let revision ← readRevision revision
      return .tracked (some ⟨revision, reviewedAt, reviewer⟩)
  | _, _, _, _, _ => none

/-- What the source is accepted as. -/
def validateSource (source : String) : Option ValidatedNoteDraft :=
  (lib.content.validateDraft ⟨"", source, []⟩).toOption

def readNote (principals : List Principal) (entry : ArchiveNote) : Option Note := do
  let normalized ← lib.validateSource entry.source
  let noteId ← lib.parseEntityId entry.noteId
  let creator ← lib.principalRef principals entry.creatorIssuer entry.creatorSubject
  let revision ← readRevision entry.revision
  let (createdVia, review) ← match entry.provenance with
    | none => some (NoteCreationSource.unknown, NoteReviewTracking.unknown)
    | some provenance => (lib.archiveReview principals creator provenance.reviewTrackingKnown
        provenance.reviewedRevision provenance.reviewedAt provenance.reviewerIssuer
        provenance.reviewerSubject).map fun review =>
          (provenance.createdVia, review)
  Note.restore
    { noteId := ⟨noteId⟩
      owner := creator
      draft := ⟨normalized.draft.title, entry.source, normalized.draft.tags⟩
      createdAt := entry.createdAt
      updatedAt := entry.updatedAt
      revision
      deletedAt := entry.deletedAt
      createdVia
      review }

/-- A revision, with what it takes from its note. -/
def readNoteRevision (principals : List Principal) (notes : List Note)
    (entry : ArchiveNoteRevision) : Option NoteRevisionSnapshot := do
  let noteId ← lib.parseEntityId entry.noteId
  let current ← notes.find? fun note => note.noteId = ⟨noteId⟩
  let normalized ← lib.validateSource entry.source
  let review ← lib.archiveReview principals current.owner entry.reviewTrackingKnown
    entry.reviewedRevision entry.reviewedAt entry.reviewerIssuer entry.reviewerSubject
  let revision ← readRevision entry.revision
  let historical ← Note.restore
    { noteId := ⟨noteId⟩
      owner := current.owner
      draft := ⟨normalized.draft.title, entry.source, normalized.draft.tags⟩
      createdAt := current.createdAt
      updatedAt := entry.changedAt
      revision
      deletedAt := entry.deletedAt
      createdVia := current.createdVia
      review }
  let changedBy ← lib.principalRef principals entry.changedByIssuer entry.changedBySubject
  return ⟨historical, changedBy, entry.kind⟩

def readAclEntry (principals : List Principal) (entry : ArchiveAclEntry) :
    Option NoteAclSnapshotEntry := do
  let noteId ← lib.parseEntityId entry.noteId
  let principal ← lib.principalRef principals entry.issuer entry.subject
  return ⟨⟨noteId⟩, principal, entry.permission⟩

/-! ## Libraries and macros -/

def readBibliographyItem (json : JsonCodec) (principals : List Principal)
    (entry : ArchiveBibliographyItem) : Option (BibliographyItem json) := do
  let itemId ← lib.parseEntityId entry.itemId
  let owner ← lib.principalRef principals entry.ownerIssuer entry.ownerSubject
  if hpositive : 0 < entry.revision.toNat then
    (BibliographyItem.restore json ⟨itemId⟩ owner entry.citationKey (json.encode entry.cslJson)
      entry.createdAt entry.updatedAt entry.revision.toNat hpositive).toOption
  else none

def readBibliographyImportSource (principals : List Principal)
    (entry : ArchiveBibliographyImportSource) : Option BibliographyImportSource := do
  let sourceId ← lib.parseEntityId entry.sourceId
  let owner ← lib.principalRef principals entry.ownerIssuer entry.ownerSubject
  if hpositive : 0 < entry.revision.toNat then
    BibliographyImportSource.restore ⟨sourceId⟩ owner entry.displayName entry.revision.toNat
      entry.createdAt entry.lastImportedAt hpositive
  else none

def readBibliographyImportLink (entry : ArchiveBibliographyImportLink) :
    Option BibliographyImportLink := do
  let sourceId ← lib.parseEntityId entry.sourceId
  let itemId ← lib.parseEntityId entry.itemId
  let digest ← decodeSha256 entry.importedDigestSha256
  let revision ← readRevision entry.importedItemRevision
  BibliographyImportLink.new ⟨sourceId⟩ entry.externalItemId ⟨itemId⟩ digest revision

def readMathMacroSettings (principals : List Principal) (entry : ArchiveMathMacroSettings) :
    Option MathMacroSettingsSnapshot := do
  let owner ← lib.principalRef principals entry.ownerIssuer entry.ownerSubject
  return ⟨owner, entry.macros.map fun item => ⟨item.name, item.replacement,
    item.argumentCount.toNat⟩, entry.revision⟩

/-! ## Images -/

def readAttachment (attachmentLib : AttachmentLibrary) (principals : List Principal)
    (entry : ArchiveAttachment) : Option (StoredAttachment attachmentLib) := do
  let attachmentId ← lib.parseEntityId entry.attachmentId
  let noteId ← lib.parseEntityId entry.noteId
  let createdBy ← lib.principalRef principals entry.createdByIssuer entry.createdBySubject
  let bytes ← lib.decodeBase64 entry.contentBase64
  let sha256 ← decodeSha256 entry.sha256
  let metadata ← (AttachmentMetadata.new attachmentLib
    { attachmentId := ⟨attachmentId⟩
      noteId := ⟨noteId⟩
      fileName := entry.fileName
      mediaType := entry.mediaType
      byteLength := entry.byteLength
      sha256
      createdAt := entry.createdAt
      createdBy }).toOption
  (StoredAttachment.new attachmentLib metadata bytes).toOption

/-- The images of a revision have to be those that its source names, each of them once. -/
def readAttachmentReferences (entry : ArchiveNoteRevision) :
    Option (List NoteRevisionAttachment) := do
  let noteId ← lib.parseEntityId entry.noteId
  let revision ← readRevision entry.revision
  let parsed ← lib.validateSource entry.source
  let expected := (orderBy id (parsed.attachmentQueries.map fun query =>
    entityIdText query.attachmentId.entityId)).destutter (· ≠ ·)
  let declared := orderBy id entry.attachmentIds
  if ¬declared.IsChain (· ≠ ·) ∨ declared ≠ expected then none
  else entry.attachmentIds.mapM fun attachmentId =>
    (lib.parseEntityId attachmentId).map fun attachmentId => ⟨⟨noteId⟩, revision, ⟨attachmentId⟩⟩

/-! ## The snapshot of an archive -/

variable (attachmentLib : AttachmentLibrary) (json : JsonCodec)

/-- `validate_archive_contents`. -/
def validateArchiveContents (archive : Archive) :
    Except ArchiveContentsError (LogicalSnapshot attachmentLib json) := do
  let principals ← lib.declaredArchivePrincipals archive
  let notes ← readEach .note (lib.readNote principals) 1 archive.notes
  let noteRevisions ← match archive.noteRevisions with
    | none => .ok none
    | some entries =>
      (readEach .noteRevision (lib.readNoteRevision principals notes) 1 entries).map some
  let noteAcl ← readEach .aclEntry (lib.readAclEntry principals) 1 archive.noteAcl
  let items ← readEach .bibliographyItem (lib.readBibliographyItem json principals) 1
    archive.bibliographyItems
  let sources ← readEach .bibliographyImportSource (lib.readBibliographyImportSource principals) 1
    archive.bibliographyImportSources
  let links ← readEach .bibliographyImportLink lib.readBibliographyImportLink 1
    archive.bibliographyImportLinks
  let settings ← readEach .mathMacroSettings (lib.readMathMacroSettings principals) 1
    archive.mathMacroSettings
  let attachments ← readEach .attachment (lib.readAttachment attachmentLib principals) 1
    (archive.attachments.getD [])
  let references ← readEach .attachmentReference lib.readAttachmentReferences 1
    (archive.noteRevisions.getD [])
  Except.mapError InvalidSnapshot.toArchiveContentsError <| do
    let snapshot ← LogicalSnapshot.new notes noteAcl
    let snapshot ← match noteRevisions with
      | none => .ok snapshot
      | some revisions => snapshot.withNoteRevisions revisions
    let snapshot ← snapshot.withBibliographyData items sources links
    let snapshot ← snapshot.withMathMacroSettings settings
    let snapshot ← snapshot.withPrincipals principals
    snapshot.withAttachments attachments references.flatten

/-- Why an archive is refused : it is inconsistent with the current contract. -/
inductive ArchiveValidationError
  | inconsistent
  deriving DecidableEq, Repr

/-- `validate_archive`. -/
def validateArchive (archive : Archive) :
    Except ArchiveValidationError (LogicalSnapshot attachmentLib json) :=
  if archive.format ≠ archiveFormat ∨
      archive.adocweavePackageVersion ≠ lib.adocweavePackageVersion ∨
      archive.noteProfileVersion ≠ archiveNoteProfileVersion ∨
      archive.notes.any (fun note => note.provenance.isNone) = true ∨
      archive.noteRevisions.isNone ∨ archive.attachments.isNone then
    .error .inconsistent
  else (lib.validateArchiveContents attachmentLib json archive).mapError fun _ => .inconsistent

/-! ## Archives of the version before -/

inductive ArchiveMigrationError
  | unsupportedContract
  | invalidPrincipal (position : ℕ)
  | invalidNote (position : ℕ)
  | invalidNoteRevision (position : ℕ)
  | invalidAttachment (position : ℕ)
  | invalidAttachmentReference (position : ℕ)
  | invalidAclEntry (position : ℕ)
  | invalidBibliographyItem (position : ℕ)
  | invalidBibliographyImportSource (position : ℕ)
  | invalidBibliographyImportLink (position : ℕ)
  | invalidMathMacroSettings (position : ℕ)
  | invalidRelationships
  deriving DecidableEq, Repr

/-- `From<ArchiveContentsError> for ArchiveMigrationError`. -/
def toArchiveMigrationError : ArchiveContentsError → ArchiveMigrationError
  | .principal position => .invalidPrincipal position
  | .note position => .invalidNote position
  | .noteRevision position => .invalidNoteRevision position
  | .attachment position => .invalidAttachment position
  | .attachmentReference position => .invalidAttachmentReference position
  | .aclEntry position => .invalidAclEntry position
  | .bibliographyItem position => .invalidBibliographyItem position
  | .bibliographyImportSource position => .invalidBibliographyImportSource position
  | .bibliographyImportLink position => .invalidBibliographyImportLink position
  | .mathMacroSettings position => .invalidMathMacroSettings position
  | .relationships => .invalidRelationships

/-- `PREVIOUS_MIGRATION_CONTRACT`. -/
def IsPreviousContract (archive : Archive) : Prop :=
  archive.format = "marginalis-archive-18" ∧ archive.adocweavePackageVersion = "0.47.0" ∧
    archive.noteProfileVersion = 6

instance (archive : Archive) : Decidable (IsPreviousContract archive) := by
  unfold IsPreviousContract
  infer_instance

/-- `migrate_previous_archive`, none when it panics at a document that cannot be read. -/
def migratePreviousArchive (archive : Archive) :
    Except ArchiveMigrationError (Option Archive) :=
  if ¬IsPreviousContract archive then .error .unsupportedContract
  else if archive.principals.isNone ∨ archive.noteRevisions.isNone ∨
      archive.attachments.isNone then
    .error (.invalidPrincipal 1)
  else
    match archive.notes.findIdx? fun note => note.provenance.isNone with
    | some index => .error (.invalidNote (index + 1))
    | none => do
      let snapshot ← (lib.validateArchiveContents attachmentLib json archive).mapError
        toArchiveMigrationError
      return createArchive lib snapshot

end ArchiveLibrary

end Marginalis
