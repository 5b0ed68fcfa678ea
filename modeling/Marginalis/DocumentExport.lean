import Marginalis.DocumentPaths
import Marginalis.FirstAppearances
import Marginalis.Framing
import Marginalis.PurgeNotes
import Marginalis.Snapshot

/-!
# The export of documents

Notes and libraries are exported as files that other programs read : the source of every note
that is not deleted, the images its current revision shows, and a file of CSL-JSON items for each
owner. A manifest records where they are, with a digest of every note that shows later whether
its files were changed.

`exported_paths_safe_iff` says when every file can be written below any directory : the names of
the owners and of the images have to be short. `exported_paths_distinct_iff` says when no file
takes the place of another : no two owners may have the same names.
-/

namespace Marginalis

open FirstAppearances
open Table (orderBy)

/-! ## The manifest -/

structure DocumentFile where
  path : String
  contents : List UInt8
  deriving DecidableEq

structure DocumentAclEntry where
  issuer : String
  subject : String
  permission : NotePermission
  deriving DecidableEq

structure DocumentAttachment where
  file : String
  attachmentId : String
  fileName : String
  mediaType : AttachmentMediaType
  byteLength : ℕ
  sha256 : String
  createdAt : ℤ
  createdByIssuer : String
  createdBySubject : String
  deriving DecidableEq

structure ArchiveNoteProvenance where
  createdVia : NoteCreationSource
  reviewTrackingKnown : Bool
  reviewedRevision : Option ℤ
  reviewedAt : Option ℤ
  reviewerIssuer : Option String
  reviewerSubject : Option String
  deriving DecidableEq

structure DocumentNote where
  file : String
  noteId : String
  title : String
  tags : List String
  createdAt : ℤ
  updatedAt : ℤ
  revision : ℕ
  stateSha256 : String
  provenance : ArchiveNoteProvenance
  acl : List DocumentAclEntry
  attachments : List DocumentAttachment
  deriving DecidableEq

structure DocumentBibliographyItem where
  citationKey : String
  itemId : String
  createdAt : ℤ
  updatedAt : ℤ
  revision : ℕ
  deriving DecidableEq

structure DocumentOwner where
  issuer : String
  subject : String
  directory : String
  bibliographyFile : String
  notes : List DocumentNote
  bibliography : List DocumentBibliographyItem
  deriving DecidableEq

structure DocumentManifest where
  format : String
  marginalisVersion : String
  adocweavePackageVersion : String
  noteProfileVersion : ℕ
  exportedAt : ℤ
  restoreSource : String
  owners : List DocumentOwner
  deriving DecidableEq

structure DocumentExport where
  manifest : DocumentManifest
  files : List DocumentFile
  deriving DecidableEq

def documentExportFormat : String := "marginalis-documents-3"

def archiveNoteProfileVersion : ℕ := 6

def restoreSource : String :=
  "this export is not a restore input; use export-archive and import-archive to restore"

/-- What the export takes from other crates : SHA-256 as a number of 256 bits, and JSON with
white space. -/
structure DocumentLibrary where
  sha256 : List UInt8 → ℕ
  prettyArray : List Json → String

/-! ## The state of a note -/

/-- A digest of 32 bytes in lower-case hexadecimal digits. -/
def encodeSha256 (digest : ℕ) : String := String.ofList (Uuid.hex 64 digest)

def AttachmentMediaType.asStr : AttachmentMediaType → String
  | png => "image/png"
  | jpeg => "image/jpeg"
  | webp => "image/webp"

def NotePermission.stateByte : NotePermission → UInt8
  | read => 1
  | edit => 2

/-- The bytes that an ACL entry adds to the state. -/
def DocumentAclEntry.stateBytes (entry : DocumentAclEntry) : List UInt8 :=
  Framing.frame (Framing.textBytes entry.issuer) ++
    Framing.frame (Framing.textBytes entry.subject) ++ [entry.permission.stateByte]

/-- The bytes that an image adds to the state. -/
def DocumentAttachment.stateBytes (attachment : DocumentAttachment) : List UInt8 :=
  ([attachment.attachmentId, attachment.fileName, attachment.mediaType.asStr, attachment.sha256,
      attachment.createdByIssuer, attachment.createdBySubject].flatMap fun value =>
    Framing.frame (Framing.textBytes value)) ++
    Framing.bigEndian 8 attachment.byteLength ++ Framing.int64 attachment.createdAt

/-- What `note_state_sha256` hashes. -/
def noteStateBytes (ownerIssuer ownerSubject : String) (source : List UInt8)
    (acl : List DocumentAclEntry) (attachments : List DocumentAttachment) : List UInt8 :=
  Framing.frame (Framing.textBytes ownerIssuer) ++
    Framing.frame (Framing.textBytes ownerSubject) ++ Framing.frame source ++
    (orderBy (fun entry => toLex (entry.issuer, toLex (entry.subject,
      entry.permission.stateByte.toNat))) acl).flatMap DocumentAclEntry.stateBytes ++
    (orderBy DocumentAttachment.attachmentId attachments).flatMap DocumentAttachment.stateBytes

def noteStateSha256 (lib : DocumentLibrary) (ownerIssuer ownerSubject : String)
    (source : List UInt8) (acl : List DocumentAclEntry) (attachments : List DocumentAttachment) :
    String :=
  encodeSha256 (lib.sha256 (noteStateBytes ownerIssuer ownerSubject source acl attachments))

/-! ## Paths -/

/-- `{directory}/{folder}/{name}`. -/
def filePath (directory : List Char) (folder : String) (name : List Char) : String :=
  String.ofList (directory ++ '/' :: folder.toList ++ '/' :: name)

def noteFile (identity : Identity) (note : Note) : String :=
  filePath (ownerDirectory identity) "notes" (noteFileName note.draft.title.toList note.noteId)

def attachmentFile (identity : Identity) (metadata : AttachmentMetadata) : String :=
  filePath (ownerDirectory identity) "attachments"
    (attachmentFileName metadata.fileName.toList metadata.attachmentId)

def bibliographyFile (identity : Identity) : String :=
  String.ofList (ownerDirectory identity ++ '/' :: "bibliography.json".toList)

/-! ## The export -/

section Export

variable {attachmentLib : AttachmentLibrary} {json : JsonCodec} (lib : DocumentLibrary)
  (s : LogicalSnapshot attachmentLib json) (identity : Identity)

def Note.provenance (note : Note) : ArchiveNoteProvenance where
  createdVia := note.createdVia
  reviewTrackingKnown := note.review ≠ .unknown
  reviewedRevision := note.review.lastReview.map fun review => (review.revision : ℤ)
  reviewedAt := note.review.lastReview.map NoteReviewRecord.reviewedAt
  reviewerIssuer := note.review.lastReview.map fun review => review.reviewer.primaryIdentity.issuer
  reviewerSubject := note.review.lastReview.map fun review =>
    review.reviewer.primaryIdentity.subject

/-- The ACL of a note as it is exported. -/
def documentAcl (noteId : NoteId) : List DocumentAclEntry :=
  (s.noteAcl.filter fun entry => entry.noteId = noteId).map fun entry =>
    ⟨entry.principal.primaryIdentity.issuer, entry.principal.primaryIdentity.subject,
      entry.permission⟩

/-- The images that the current revision of a note shows. The snapshot has all of them, or the
export panics. -/
def shownAttachments (note : Note) : Option (List (StoredAttachment attachmentLib)) :=
  (s.noteRevisionAttachments.filter fun reference =>
    reference.noteId = note.noteId ∧ reference.revision = note.revision).mapM fun reference =>
      s.attachments.find? fun attachment =>
        attachment.metadata.attachmentId = reference.attachmentId

def documentAttachment (attachment : StoredAttachment attachmentLib) : DocumentAttachment where
  file := attachmentFile identity attachment.metadata
  attachmentId := String.ofList (Uuid.text attachment.metadata.attachmentId.entityId)
  fileName := attachment.metadata.fileName
  mediaType := attachment.metadata.mediaType
  byteLength := attachment.metadata.byteLength
  sha256 := encodeSha256 attachment.metadata.sha256
  createdAt := attachment.metadata.createdAt
  createdByIssuer := attachment.metadata.createdBy.primaryIdentity.issuer
  createdBySubject := attachment.metadata.createdBy.primaryIdentity.subject

def documentNote (note : Note) (attachments : List (StoredAttachment attachmentLib)) :
    DocumentNote where
  file := noteFile identity note
  noteId := String.ofList (Uuid.text note.noteId.entityId)
  title := note.draft.title
  tags := note.draft.tags
  createdAt := note.createdAt
  updatedAt := note.updatedAt
  revision := note.revision
  stateSha256 := noteStateSha256 lib identity.issuer identity.subject
    (Framing.textBytes note.draft.source) (documentAcl s note.noteId)
      (attachments.map (documentAttachment identity))
  provenance := note.provenance
  acl := documentAcl s note.noteId
  attachments := attachments.map (documentAttachment identity)

/-- The files of a note : its source, and the images it shows. -/
def noteFiles (note : Note) (attachments : List (StoredAttachment attachmentLib)) :
    List DocumentFile :=
  ⟨noteFile identity note, Framing.textBytes note.draft.source⟩ ::
    attachments.map fun attachment =>
      ⟨attachmentFile identity attachment.metadata, attachment.bytes⟩

/-- `csl_json_array`. It panics at a document that cannot be read. -/
def cslJsonArray (items : List (BibliographyItem json)) : Option String :=
  (items.mapM fun item => json.parse item.cslJson).map fun values => lib.prettyArray values ++ "\n"

/-- The notes of an owner that are not deleted, by their ids. -/
def ownerNotes : List Note :=
  orderBy (fun note => note.noteId.entityId)
    (s.notes.filter fun note => note.deletedAt = none ∧ note.owner.primaryIdentity = identity)

/-- The items of an owner, by their citation keys. -/
def ownerItems : List (BibliographyItem json) :=
  orderBy (fun item => item.citationKey)
    (s.bibliographyItems.filter fun item => item.owner.primaryIdentity = identity)

def documentBibliographyItem (item : BibliographyItem json) : DocumentBibliographyItem where
  citationKey := item.citationKey
  itemId := String.ofList (Uuid.text item.itemId.entityId)
  createdAt := item.createdAt
  updatedAt := item.updatedAt
  revision := item.revision

/-- `OwnerBuilder::build` : the entry of the manifest, with the files. -/
def buildOwner : Option (DocumentOwner × List DocumentFile) := do
  let notes ← (ownerNotes s identity).mapM fun note => do
    let attachments ← shownAttachments s note
    return (documentNote lib s identity note attachments, noteFiles identity note attachments)
  let array ← cslJsonArray lib (ownerItems s identity)
  return (
    { issuer := identity.issuer
      subject := identity.subject
      directory := String.ofList (ownerDirectory identity)
      bibliographyFile := bibliographyFile identity
      notes := notes.map Prod.fst
      bibliography := (ownerItems s identity).map documentBibliographyItem },
    notes.flatMap Prod.snd ++ [⟨bibliographyFile identity, Framing.textBytes array⟩])

/-- The keys of the map of owners, in their order : those with a note that is not deleted or with
an item. -/
def exportedOwners : List Identity :=
  orderBy (fun identity => toLex (identity.issuer, identity.subject))
    (firstAppearances
      ((s.notes.filter fun note => note.deletedAt = none).map (fun note =>
          note.owner.primaryIdentity) ++
        s.bibliographyItems.map fun item => item.owner.primaryIdentity))

def createDocumentExport (marginalisVersion adocweavePackageVersion : String) (exportedAt : ℤ) :
    Option DocumentExport := do
  let owners ← (exportedOwners s).mapM (buildOwner lib s)
  return {
    manifest := {
      format := documentExportFormat
      marginalisVersion
      adocweavePackageVersion
      noteProfileVersion := archiveNoteProfileVersion
      exportedAt
      restoreSource
      owners := owners.map Prod.fst }
    files := owners.flatMap Prod.snd }

/-! ## The files of a valid snapshot -/

/-- The images that the current revision of a note shows, of those that are there. -/
def shownImages (note : Note) : List (StoredAttachment attachmentLib) :=
  (s.noteRevisionAttachments.filter fun reference =>
    reference.noteId = note.noteId ∧ reference.revision = note.revision).filterMap fun reference =>
      s.attachments.find? fun attachment =>
        attachment.metadata.attachmentId = reference.attachmentId

/-- The paths of the files of an owner. -/
def ownerPaths : List String :=
  ((ownerNotes s identity).flatMap fun note =>
    noteFile identity note ::
      (shownImages s note).map fun attachment => attachmentFile identity attachment.metadata) ++
    [bibliographyFile identity]

variable {lib s identity}

theorem mem_shownImages {note : Note} {attachment : StoredAttachment attachmentLib} :
    attachment ∈ shownImages s note ↔ ∃ reference ∈ s.noteRevisionAttachments,
      reference.noteId = note.noteId ∧ reference.revision = note.revision ∧
        s.attachments.find? (fun attachment =>
          attachment.metadata.attachmentId = reference.attachmentId) = some attachment := by
  simp only [shownImages, List.mem_filterMap, List.mem_filter, decide_eq_true_eq, and_assoc]

/-- No image that a revision shows is missing. -/
theorem shownAttachments_eq (hs : s.Consistent) (note : Note) :
    shownAttachments s note = some (shownImages s note) := by
  have hfound : ∀ reference ∈ s.noteRevisionAttachments, (s.attachments.find? fun attachment =>
      attachment.metadata.attachmentId = reference.attachmentId).isSome := by
    intro reference hreference
    obtain ⟨attachment, hmem, hid, -⟩ := hs.shown reference hreference
    exact List.find?_isSome.mpr ⟨attachment, hmem, by simpa using hid⟩
  rw [shownAttachments, shownImages]
  generalize hreferences : s.noteRevisionAttachments.filter (fun reference =>
    reference.noteId = note.noteId ∧ reference.revision = note.revision) = references
  have hsubset : ∀ reference ∈ references, reference ∈ s.noteRevisionAttachments :=
    fun reference hmem => List.mem_of_mem_filter (hreferences ▸ hmem)
  clear hreferences
  induction references with
  | nil => rfl
  | cons reference references ih =>
    obtain ⟨attachment, hattachment⟩ := Option.isSome_iff_exists.mp
      (hfound reference (hsubset reference List.mem_cons_self))
    rw [List.mapM_cons, List.filterMap_cons, hattachment,
      ih fun other hother => hsubset other (List.mem_cons_of_mem _ hother)]
    rfl

/-- A stored document can be read when checked documents can. -/
theorem exists_cslJsonArray (hrereads : Rereads json) (items : List (BibliographyItem json)) :
    ∃ array, cslJsonArray lib items = some array := by
  have hparse : ∀ item : BibliographyItem json, ∃ value, json.parse item.cslJson = some value := by
    intro item
    obtain ⟨csl, hkey, hcsl⟩ := item.csl
    obtain ⟨read, hread⟩ := hrereads csl
    rw [ValidatedCslJson.fromEncoded, hcsl] at hread
    cases hparsed : json.parse item.cslJson with
    | none =>
      rw [hparsed] at hread
      cases hread
    | some value => exact ⟨value, rfl⟩
  choose value hvalue using hparse
  rw [cslJsonArray, Option.mapM_eq_some fun item _ => hvalue item]
  exact ⟨_, rfl⟩

theorem exists_buildOwner (hs : s.Consistent) (hrereads : Rereads json) (identity : Identity) :
    ∃ owner files, buildOwner lib s identity = some (owner, files) ∧
      files.map DocumentFile.path = ownerPaths s identity := by
  obtain ⟨array, harray⟩ := @exists_cslJsonArray _ lib hrereads (ownerItems s identity)
  have hnotes : ((ownerNotes s identity).mapM fun note => do
      let attachments ← shownAttachments s note
      return (documentNote lib s identity note attachments, noteFiles identity note attachments)) =
      some ((ownerNotes s identity).map fun note =>
        (documentNote lib s identity note (shownImages s note),
          noteFiles identity note (shownImages s note))) :=
    Option.mapM_eq_some fun note _ => by
      rw [shownAttachments_eq hs]
      rfl
  rw [buildOwner, hnotes, harray]
  refine ⟨_, _, rfl, ?_⟩
  rw [List.map_append, ownerPaths, List.flatMap_map, List.map_flatMap]
  simp [noteFiles, Function.comp_def]

/-- A valid snapshot can be exported, to the paths of its owners. -/
theorem exists_createDocumentExport (hs : s.Valid) (hrereads : Rereads json)
    (marginalisVersion adocweavePackageVersion : String) (exportedAt : ℤ) :
    ∃ found, createDocumentExport lib s marginalisVersion adocweavePackageVersion exportedAt =
        some found ∧
      found.files.map DocumentFile.path = (exportedOwners s).flatMap (ownerPaths s) := by
  choose owner files hbuild hpaths using
    @exists_buildOwner _ _ lib s hs.consistent hrereads
  rw [createDocumentExport, Option.mapM_eq_some fun identity _ => hbuild identity]
  refine ⟨_, rfl, ?_⟩
  simp only [List.flatMap_map, List.map_flatMap, hpaths]

/-! ## Components -/

/-- The components of a path below the directory of its owner. -/
theorem splitOn_ownerDirectory (identity : Identity) (rest : List Char) :
    (ownerDirectory identity ++ '/' :: rest).splitOn '/' =
      namedOrUnnamed (issuerName identity.issuer.toList) ::
        namedOrUnnamed identity.subject.toList :: rest.splitOn '/' := by
  have hslash : ∀ value, '/' ∉ namedOrUnnamed value := fun value hmem =>
    ((isFileName_namedOrUnnamed value).characters '/' hmem).1 rfl
  rw [ownerDirectory, List.append_assoc, List.cons_append,
    List.splitOn_append_cons_self_of_not_mem (hslash _),
    List.splitOn_append_cons_self_of_not_mem (hslash _)]

theorem splitOn_filePath {folder : String} {name : List Char} (hfolder : '/' ∉ folder.toList)
    (hname : IsFileName name) :
    (filePath (ownerDirectory identity) folder name).toList.splitOn '/' =
      [namedOrUnnamed (issuerName identity.issuer.toList), namedOrUnnamed identity.subject.toList,
        folder.toList, name] := by
  rw [filePath, String.toList_ofList, List.append_assoc, List.cons_append,
    splitOn_ownerDirectory, List.splitOn_append_cons_self_of_not_mem hfolder,
    List.splitOn_eq_singleton fun hmem => (hname.characters '/' hmem).1 rfl]

theorem splitOn_noteFile (note : Note) :
    (noteFile identity note).toList.splitOn '/' =
      [namedOrUnnamed (issuerName identity.issuer.toList), namedOrUnnamed identity.subject.toList,
        "notes".toList, noteFileName note.draft.title.toList note.noteId] :=
  splitOn_filePath (by decide) (isFileName_noteFileName _ _)

theorem splitOn_attachmentFile (metadata : AttachmentMetadata) :
    (attachmentFile identity metadata).toList.splitOn '/' =
      [namedOrUnnamed (issuerName identity.issuer.toList), namedOrUnnamed identity.subject.toList,
        "attachments".toList, attachmentFileName metadata.fileName.toList metadata.attachmentId] :=
  splitOn_filePath (by decide) (isFileName_attachmentFileName _ _)

theorem splitOn_bibliographyFile :
    (bibliographyFile identity).toList.splitOn '/' =
      [namedOrUnnamed (issuerName identity.issuer.toList), namedOrUnnamed identity.subject.toList,
        "bibliography.json".toList] := by
  rw [bibliographyFile, String.toList_ofList, splitOn_ownerDirectory,
    List.splitOn_eq_singleton (by decide)]

/-- Every component of the path can be the name of a file. -/
def HasSafePath (path : String) : Prop :=
  ∀ component ∈ path.toList.splitOn '/', IsSafeComponent component

theorem isSafeComponent_notes : IsSafeComponent "notes".toList :=
  ⟨⟨by decide, by decide, by decide, characters_of_all (by decide)⟩, by decide⟩

theorem isSafeComponent_attachments : IsSafeComponent "attachments".toList :=
  ⟨⟨by decide, by decide, by decide, characters_of_all (by decide)⟩, by decide⟩

theorem isSafeComponent_bibliography : IsSafeComponent "bibliography.json".toList :=
  ⟨⟨by decide, by decide, by decide, characters_of_all (by decide)⟩, by decide⟩

/-- The names of the directory of an owner are short. -/
def ShortOwner (identity : Identity) : Prop :=
  utf8Length (namedOrUnnamed (issuerName identity.issuer.toList)) ≤ 255 ∧
    utf8Length (namedOrUnnamed identity.subject.toList) ≤ 255

instance (identity : Identity) : Decidable (ShortOwner identity) :=
  inferInstanceAs (Decidable (_ ∧ _))

theorem hasSafePath_noteFile (note : Note) :
    HasSafePath (noteFile identity note) ↔ ShortOwner identity := by
  rw [HasSafePath, splitOn_noteFile]
  simp only [List.forall_mem_cons, List.not_mem_nil, false_implies, implies_true,
    isSafeComponent_namedOrUnnamed, isSafeComponent_notes, isSafeComponent_noteFileName,
    and_true, ShortOwner]

theorem hasSafePath_attachmentFile (metadata : AttachmentMetadata) :
    HasSafePath (attachmentFile identity metadata) ↔
      ShortOwner identity ∧ 37 + utf8Length (namedOrUnnamed metadata.fileName.toList) ≤ 255 := by
  rw [HasSafePath, splitOn_attachmentFile]
  simp only [List.forall_mem_cons, List.not_mem_nil, false_implies, implies_true,
    isSafeComponent_namedOrUnnamed, isSafeComponent_attachments,
    isSafeComponent_attachmentFileName, and_true, true_and, ShortOwner, and_assoc]

theorem hasSafePath_bibliographyFile :
    HasSafePath (bibliographyFile identity) ↔ ShortOwner identity := by
  rw [HasSafePath, splitOn_bibliographyFile]
  simp only [List.forall_mem_cons, List.not_mem_nil, false_implies, implies_true,
    isSafeComponent_namedOrUnnamed, isSafeComponent_bibliography, and_true, ShortOwner]

theorem forall_ownerPaths {p : String → Prop} :
    (∀ path ∈ ownerPaths s identity, p path) ↔ p (bibliographyFile identity) ∧
      ∀ note ∈ ownerNotes s identity, p (noteFile identity note) ∧
        ∀ attachment ∈ shownImages s note, p (attachmentFile identity attachment.metadata) := by
  simp only [ownerPaths, List.forall_mem_append, List.forall_mem_flatMap, List.forall_mem_cons,
    List.forall_mem_map, List.not_mem_nil, false_implies, implies_true, and_true]
  exact and_comm

/-- The export of a valid snapshot has safe paths exactly when the names of the owners are short,
and those of the images that are exported. -/
theorem exported_paths_safe_iff (hs : s.Valid) (hrereads : Rereads json)
    (marginalisVersion adocweavePackageVersion : String) (exportedAt : ℤ) :
    ∃ found, createDocumentExport lib s marginalisVersion adocweavePackageVersion exportedAt =
        some found ∧
      ((∀ file ∈ found.files, HasSafePath file.path) ↔
        ∀ identity ∈ exportedOwners s, ShortOwner identity ∧
          ∀ note ∈ ownerNotes s identity, ∀ attachment ∈ shownImages s note,
            37 + utf8Length (namedOrUnnamed attachment.metadata.fileName.toList) ≤ 255) := by
  obtain ⟨found, hfound, hpaths⟩ := exists_createDocumentExport hs hrereads marginalisVersion
    adocweavePackageVersion exportedAt
  refine ⟨found, hfound, ?_⟩
  have hfiles : (∀ file ∈ found.files, HasSafePath file.path) ↔
      ∀ identity ∈ exportedOwners s, ∀ path ∈ ownerPaths s identity, HasSafePath path := by
    rw [← List.forall_mem_flatMap, ← hpaths, List.forall_mem_map]
  rw [hfiles]
  refine forall₂_congr fun identity hidentity => ?_
  simp only [forall_ownerPaths, hasSafePath_bibliographyFile, hasSafePath_noteFile,
    hasSafePath_attachmentFile]
  refine and_congr_right fun hshort => ?_
  simp only [hshort, true_and]

/-! ## Distinct paths -/

/-- Notes and images have the ids of `EntityId`, of 128 bits. -/
structure HasUuids (s : LogicalSnapshot attachmentLib json) : Prop where
  notes : ∀ note ∈ s.notes, note.noteId.entityId < 2 ^ 128
  attachments : ∀ attachment ∈ s.attachments,
    attachment.metadata.attachmentId.entityId < 2 ^ 128

theorem noteFileName_inj {title title' : List Char} {noteId noteId' : NoteId}
    (hid : noteId.entityId < 2 ^ 128) (hid' : noteId'.entityId < 2 ^ 128)
    (h : noteFileName title noteId = noteFileName title' noteId') : noteId = noteId' := by
  have hend : ∀ (title : List Char) (noteId : NoteId), ∃ start,
      noteFileName title noteId = start ++ (Uuid.text noteId.entityId ++ ".adoc".toList) := by
    intro title noteId
    rw [noteFileName]
    split_ifs
    · exact ⟨[], (List.nil_append _).symm⟩
    · exact ⟨titleInFileName title ++ ['-'], by simp only [List.append_assoc, List.cons_append,
        List.nil_append]⟩
  obtain ⟨start, hstart⟩ := hend title noteId
  obtain ⟨start', hstart'⟩ := hend title' noteId'
  rw [hstart, hstart'] at h
  obtain ⟨-, h⟩ := List.append_inj' h (by simp)
  obtain ⟨htext, -⟩ := List.append_inj h (by simp)
  cases noteId
  cases noteId'
  exact congrArg _ (Uuid.text_inj hid hid' htext)

theorem attachmentFileName_inj {name name' : List Char} {id id' : AttachmentId}
    (hid : id.entityId < 2 ^ 128) (hid' : id'.entityId < 2 ^ 128)
    (h : attachmentFileName name id = attachmentFileName name' id') : id = id' := by
  rw [attachmentFileName, attachmentFileName] at h
  obtain ⟨htext, -⟩ := List.append_inj h (by simp)
  cases id
  cases id'
  exact congrArg _ (Uuid.text_inj hid hid' htext)

/-- A path determines the names of the directory it is below. -/
theorem directory_of_mem_ownerPaths {path : String} (h : path ∈ ownerPaths s identity) :
    ∃ rest, path.toList.splitOn '/' =
      namedOrUnnamed (issuerName identity.issuer.toList) ::
        namedOrUnnamed identity.subject.toList :: rest := by
  revert path
  rw [forall_ownerPaths]
  refine ⟨⟨_, splitOn_bibliographyFile⟩, fun note _ => ⟨⟨_, splitOn_noteFile note⟩, ?_⟩⟩
  exact fun attachment _ => ⟨_, splitOn_attachmentFile attachment.metadata⟩

theorem nodup_ownerNotes (hs : s.Consistent) :
    ((ownerNotes s identity).map fun note => note.noteId).Nodup := by
  have hfilter := hs.notes.sublist ((List.filter_sublist (l := s.notes) (p := fun note =>
    note.deletedAt = none ∧ note.owner.primaryIdentity = identity)).map fun note => note.noteId)
  exact (Table.orderBy_perm.map _).nodup_iff.mpr hfilter

/-- The images of a note belong to it. -/
theorem noteId_of_mem_shownImages (hs : s.Consistent) {note : Note}
    {attachment : StoredAttachment attachmentLib} (h : attachment ∈ shownImages s note) :
    attachment ∈ s.attachments ∧ attachment.metadata.noteId = note.noteId := by
  obtain ⟨reference, hreference, hnote, -, hfind⟩ := mem_shownImages.mp h
  have hmem := List.mem_of_find?_eq_some hfind
  have hid : attachment.metadata.attachmentId = reference.attachmentId := by
    simpa using List.find?_some hfind
  obtain ⟨shown, hshown, hshownId, hshownNote⟩ := hs.shown reference hreference
  obtain rfl := List.inj_on_of_nodup_map hs.attachments hmem hshown (hid.trans hshownId.symm)
  exact ⟨hmem, hshownNote.trans hnote⟩

theorem nodup_shownImages (hs : s.Consistent) (note : Note) :
    ((shownImages s note).map fun attachment => attachment.metadata.attachmentId).Nodup := by
  rw [shownImages, List.Nodup, List.pairwise_map, List.pairwise_filterMap]
  refine (hs.references.filter _).imp_of_mem ?_
  intro reference reference' hmem hmem' hne attachment hfind attachment' hfind' hid
  obtain ⟨-, hof⟩ := List.mem_filter.mp hmem
  obtain ⟨-, hof'⟩ := List.mem_filter.mp hmem'
  simp only [decide_eq_true_eq] at hof hof'
  have hreference : attachment.metadata.attachmentId = reference.attachmentId := by
    simpa using List.find?_some hfind
  have hreference' : attachment'.metadata.attachmentId = reference'.attachmentId := by
    simpa using List.find?_some hfind'
  apply hne
  cases reference
  cases reference'
  simp only at hof hof' hreference hreference'
  rw [hof.1, hof.2, hof'.1, hof'.2, ← hreference, ← hreference', hid]

/-- The files of an owner have different paths. -/
theorem nodup_ownerPaths (hs : s.Consistent) (hids : HasUuids s) (identity : Identity) :
    (ownerPaths s identity).Nodup := by
  have hnoteFile : ∀ note ∈ ownerNotes s identity, ∀ note' ∈ ownerNotes s identity,
      noteFile identity note = noteFile identity note' → note.noteId = note'.noteId := by
    intro note hnote note' hnote' heq
    have hnames := @splitOn_noteFile identity note
    rw [heq, splitOn_noteFile] at hnames
    refine noteFileName_inj (hids.notes _ ?_) (hids.notes _ ?_) (by simpa using hnames.symm)
    · exact List.mem_of_mem_filter (Table.mem_orderBy.mp hnote)
    · exact List.mem_of_mem_filter (Table.mem_orderBy.mp hnote')
  have hattachmentFile : ∀ a ∈ s.attachments, ∀ a' ∈ s.attachments,
      attachmentFile identity a.metadata = attachmentFile identity a'.metadata →
        a.metadata.attachmentId = a'.metadata.attachmentId := by
    intro a ha a' ha' heq
    have hnames := @splitOn_attachmentFile identity a.metadata
    rw [heq, splitOn_attachmentFile] at hnames
    exact attachmentFileName_inj (hids.attachments a ha) (hids.attachments a' ha')
      (by simpa using hnames.symm)
  have hfolders : ∀ (note : Note) (metadata : AttachmentMetadata),
      noteFile identity note ≠ attachmentFile identity metadata := by
    intro note metadata heq
    have hnames := @splitOn_noteFile identity note
    rw [heq, splitOn_attachmentFile] at hnames
    simp at hnames
  have hbibliography : ∀ (folder : List Char) (name : List Char) (path : String),
      path.toList.splitOn '/' = [namedOrUnnamed (issuerName identity.issuer.toList),
        namedOrUnnamed identity.subject.toList, folder, name] →
      path ≠ bibliographyFile identity := by
    rintro folder name path hnames rfl
    rw [splitOn_bibliographyFile] at hnames
    simp at hnames
  refine List.nodup_append.mpr ⟨List.nodup_flatMap.mpr ⟨fun note hnote => ?_, ?_⟩,
    List.nodup_singleton _, fun path hpath path' hpath' => ?_⟩
  · refine List.nodup_cons.mpr ⟨fun hmem => ?_, ?_⟩
    · obtain ⟨attachment, -, heq⟩ := List.mem_map.mp hmem
      exact hfolders note _ heq.symm
    · have hnodup := List.pairwise_map.mp (nodup_shownImages hs note)
      refine List.pairwise_map.mpr (hnodup.imp_of_mem fun ha ha' hne heq => hne ?_)
      exact hattachmentFile _ (noteId_of_mem_shownImages hs ha).1 _
        (noteId_of_mem_shownImages hs ha').1 heq
  · have hnodup := List.pairwise_map.mp (@nodup_ownerNotes _ _ s identity hs)
    refine hnodup.imp_of_mem fun {note note'} hnote hnote' hne => ?_
    rintro path hpath hpath'
    rcases List.mem_cons.mp hpath with rfl | hpath
    · rcases List.mem_cons.mp hpath' with heq | hpath'
      · exact hne (hnoteFile note hnote note' hnote' heq)
      · obtain ⟨attachment, -, heq⟩ := List.mem_map.mp hpath'
        exact hfolders note _ heq.symm
    · obtain ⟨attachment, hattachment, rfl⟩ := List.mem_map.mp hpath
      obtain ⟨hmem, hnote⟩ := noteId_of_mem_shownImages hs hattachment
      rcases List.mem_cons.mp hpath' with heq | hpath'
      · exact hfolders note' _ heq.symm
      · obtain ⟨attachment', hattachment', heq⟩ := List.mem_map.mp hpath'
        obtain ⟨hmem', hnote'⟩ := noteId_of_mem_shownImages hs hattachment'
        have hid := hattachmentFile _ hmem' _ hmem heq
        obtain rfl := List.inj_on_of_nodup_map hs.attachments hmem' hmem hid
        exact hne (hnote.symm.trans hnote')
  · rw [List.mem_singleton.mp hpath']
    obtain ⟨note, -, hpath⟩ := List.mem_flatMap.mp hpath
    rcases List.mem_cons.mp hpath with rfl | hpath
    · exact hbibliography _ _ _ (splitOn_noteFile note)
    · obtain ⟨attachment, -, rfl⟩ := List.mem_map.mp hpath
      exact hbibliography _ _ _ (splitOn_attachmentFile attachment.metadata)

theorem nodup_exportedOwners : (exportedOwners s).Nodup :=
  Table.orderBy_perm.nodup_iff.mpr (nodup_firstAppearances _)

/-- Both owners have the same names, for the issuer and for the subject. -/
def SharesDirectory (identity identity' : Identity) : Prop :=
  namedOrUnnamed (issuerName identity.issuer.toList) =
      namedOrUnnamed (issuerName identity'.issuer.toList) ∧
    namedOrUnnamed identity.subject.toList = namedOrUnnamed identity'.subject.toList

instance (identity identity' : Identity) : Decidable (SharesDirectory identity identity') :=
  inferInstanceAs (Decidable (_ ∧ _))

/-- The paths of an export, with that of the manifest, are different exactly when no two of the
exported owners have the same names. -/
theorem exported_paths_distinct_iff (hs : s.Valid) (hrereads : Rereads json) (hids : HasUuids s)
    (marginalisVersion adocweavePackageVersion : String) (exportedAt : ℤ) :
    ∃ found, createDocumentExport lib s marginalisVersion adocweavePackageVersion exportedAt =
        some found ∧
      ((found.files.map DocumentFile.path ++ ["manifest.json"]).Nodup ↔
        ∀ identity ∈ exportedOwners s, ∀ identity' ∈ exportedOwners s,
          SharesDirectory identity identity' → identity = identity') := by
  obtain ⟨found, hfound, hpaths⟩ := exists_createDocumentExport hs hrereads marginalisVersion
    adocweavePackageVersion exportedAt
  refine ⟨found, hfound, ?_⟩
  rw [hpaths]
  constructor
  · intro hnodup identity hmem identity' hmem' ⟨hissuer, hsubject⟩
    by_contra hne
    obtain ⟨-, hdisjoint⟩ := List.nodup_flatMap.mp (List.nodup_append.mp hnodup).1
    have hfiles : bibliographyFile identity = bibliographyFile identity' := by
      rw [bibliographyFile, bibliographyFile, ownerDirectory, ownerDirectory, hissuer, hsubject]
    have hin : ∀ identity : Identity, bibliographyFile identity ∈ ownerPaths s identity :=
      fun identity => List.mem_append_right _ List.mem_cons_self
    have hsymm : Std.Symm (Function.onFun List.Disjoint (ownerPaths s)) :=
      ⟨fun _ _ h => List.Disjoint.symm h⟩
    have hother : bibliographyFile identity ∈ ownerPaths s identity' := by
      rw [hfiles]
      exact hin identity'
    exact hdisjoint.forall hmem hmem' hne (hin identity) hother
  · intro hdirectories
    refine List.nodup_append.mpr ⟨List.nodup_flatMap.mpr
      ⟨fun identity _ => nodup_ownerPaths hs.consistent hids identity, ?_⟩,
      List.nodup_singleton _, fun path hpath path' hpath' => ?_⟩
    · refine nodup_exportedOwners.imp_of_mem fun {a b} ha hb hne path hpath hpath' => hne ?_
      obtain ⟨rest, hrest⟩ := directory_of_mem_ownerPaths hpath
      obtain ⟨rest', hrest'⟩ := directory_of_mem_ownerPaths hpath'
      rw [hrest, List.cons.injEq, List.cons.injEq] at hrest'
      exact hdirectories a ha b hb ⟨hrest'.1, hrest'.2.1⟩
    · rw [List.mem_singleton.mp hpath']
      rintro rfl
      obtain ⟨identity, -, hmem⟩ := List.mem_flatMap.mp hpath
      obtain ⟨rest, hrest⟩ := directory_of_mem_ownerPaths hmem
      rw [List.splitOn_eq_singleton (by decide)] at hrest
      simp at hrest

end Export

/-! ## A long subject and two schemes -/

/-- The digests of the states of the notes below, which have different lengths. -/
def essayLibrary : DocumentLibrary where
  sha256 state :=
    if state.length = 55 then 0x824d942a5ef80228b4b5660843e0ebfd09921a887df6181506de0c524383b63b
    else if state.length = 306 then
      0x0e35eb107d7438bede011a2533330b6b12a543ec8d2afa968d6d6173c322aa7d
    else 0x4b16f1aaa7741deb3ae57defd48de66f9460f22cd7033bcf06d516ba7a85ac48
  prettyArray _ := "[]"

def essayOwner (subject : String) : PrincipalRef := ⟨⟨1⟩, ⟨"https://id.example.test", subject⟩⟩

def essay (subject : String) : Note :=
  Note.create ⟨7⟩ (essayOwner subject) ⟨"A", "= A", []⟩ 100 .web

/-- The snapshot of one note. -/
def essaySnapshot (subject : String) : LogicalSnapshot asciiLibrary (sampleJsonCodec []) where
  principals := [Principal.single (essayOwner subject)]
  notes := [essay subject]
  noteRevisions := [⟨essay subject, essayOwner subject, .imported⟩]
  attachments := []
  noteRevisionAttachments := []
  noteAcl := []
  bibliographyItems := []
  bibliographyImportSources := []
  bibliographyImportLinks := []
  mathMacroSettings := []

theorem valid_essaySnapshot (subject : String) : (essaySnapshot subject).Valid := by
  refine @LogicalSnapshot.Valid.new _ _ [essay subject] [] _ ?_
  have hfirst : LogicalSnapshot.includePrincipal [] (essayOwner subject) =
      .ok [Principal.single (essayOwner subject)] := rfl
  have hagain : LogicalSnapshot.includePrincipal [Principal.single (essayOwner subject)]
      (essayOwner subject) = .ok [Principal.single (essayOwner subject)] := by
    simp [LogicalSnapshot.includePrincipal, Principal.single]
  have hprincipals : [essayOwner subject, essayOwner subject].foldlM
      LogicalSnapshot.includePrincipal [] = .ok [Principal.single (essayOwner subject)] := by
    rw [List.foldlM_cons, hfirst]
    change (LogicalSnapshot.includePrincipal _ _ >>= fun principals => pure principals) = _
    rw [hagain]
    rfl
  change (([essayOwner subject, essayOwner subject].foldlM LogicalSnapshot.includePrincipal []) >>=
    fun principals => pure { essaySnapshot subject with principals }) = _
  rw [hprincipals]
  rfl

theorem rereads_noDocuments : Rereads (sampleJsonCodec []) :=
  rereads_sampleJsonCodec (by simp) (by simp) (by simp)

/-- A subject of 256 characters. -/
def longSubject : String := String.ofList (List.replicate 256 'a')

theorem namedOrUnnamed_longSubject :
    namedOrUnnamed longSubject.toList = List.replicate 256 'a' := by
  have hname : safePathComponent (List.replicate 256 'a') = List.replicate 256 'a' :=
    safePathComponent_eq_self fun c hc => by
      rw [List.eq_of_mem_replicate hc]
      decide
  unfold longSubject
  rw [String.toList_ofList, namedOrUnnamed, hname]
  exact if_neg (List.cons_ne_nil _ _)

theorem exported_paths_safe_alice :
    ∃ found, createDocumentExport essayLibrary (essaySnapshot "alice") "0.19.0" "0.23.0" 4000 =
        some found ∧
      ∀ file ∈ found.files, HasSafePath file.path := by
  obtain ⟨found, hfound, hsafe⟩ := @exported_paths_safe_iff _ _ essayLibrary _
    (valid_essaySnapshot "alice") rereads_noDocuments "0.19.0" "0.23.0" 4000
  refine ⟨found, hfound, hsafe.mpr ?_⟩
  decide +kernel

/-- The directory of the subject has a name of 256 bytes. -/
theorem exported_paths_safe_fails :
    (essaySnapshot longSubject).Valid ∧
      ∃ found, createDocumentExport essayLibrary (essaySnapshot longSubject) "0.19.0" "0.23.0"
          4000 = some found ∧
        ∃ file ∈ found.files, ∃ component ∈ file.path.toList.splitOn '/',
          utf8Length component = 256 := by
  refine ⟨valid_essaySnapshot longSubject, ?_⟩
  obtain ⟨found, hfound, hpaths⟩ := @exists_createDocumentExport _ _ essayLibrary _
    (valid_essaySnapshot longSubject) rereads_noDocuments "0.19.0" "0.23.0" 4000
  have hbibliography : bibliographyFile (essayOwner longSubject).primaryIdentity ∈
      (exportedOwners (essaySnapshot longSubject)).flatMap
        (ownerPaths (essaySnapshot longSubject)) := by
    have howner : (essayOwner longSubject).primaryIdentity ∈
        exportedOwners (essaySnapshot longSubject) := by
      decide +kernel
    exact List.mem_flatMap.mpr ⟨_, howner, List.mem_append_right _ List.mem_cons_self⟩
  rw [← hpaths] at hbibliography
  obtain ⟨file, hfile, hpath⟩ := List.mem_map.mp hbibliography
  have hlength : utf8Length (namedOrUnnamed longSubject.toList) = 256 := by
    rw [namedOrUnnamed_longSubject]
    decide +kernel
  refine ⟨found, hfound, file, hfile, namedOrUnnamed longSubject.toList, ?_, hlength⟩
  rw [hpath, splitOn_bibliographyFile]
  exact List.mem_cons_of_mem _ List.mem_cons_self

/-- Two owners whose issuers differ in the scheme only. -/
def schemeOwner (id : ℕ) (scheme : String) : PrincipalRef :=
  ⟨⟨id⟩, ⟨scheme ++ "id.example.test", "alice"⟩⟩

def schemeNote (id : ℕ) (scheme : String) : Note :=
  Note.create ⟨id⟩ (schemeOwner id scheme) ⟨"A", "= A", []⟩ 100 .web

/-- The snapshot of a note of each. -/
def schemesSnapshot : LogicalSnapshot asciiLibrary (sampleJsonCodec []) where
  principals := [Principal.single (schemeOwner 1 "https://"),
    Principal.single (schemeOwner 2 "http://")]
  notes := [schemeNote 1 "https://", schemeNote 2 "http://"]
  noteRevisions := [⟨schemeNote 1 "https://", schemeOwner 1 "https://", .imported⟩,
    ⟨schemeNote 2 "http://", schemeOwner 2 "http://", .imported⟩]
  attachments := []
  noteRevisionAttachments := []
  noteAcl := []
  bibliographyItems := []
  bibliographyImportSources := []
  bibliographyImportLinks := []
  mathMacroSettings := []

theorem valid_schemesSnapshot : schemesSnapshot.Valid :=
  @LogicalSnapshot.Valid.new _ _ [schemeNote 1 "https://", schemeNote 2 "http://"] [] _ rfl

/-- Two notes of Alice with one title, the first of them with an image, and one of Bob. -/
def illustratedEssays : Except InvalidSnapshot
    (LogicalSnapshot asciiLibrary (sampleJsonCodec [])) := do
  let s ← LogicalSnapshot.new
    [Note.create ⟨7⟩ Database.alice.principal ⟨"A", "= A\n\nimage::9[]", []⟩ 100 .web,
      Note.create ⟨8⟩ Database.alice.principal ⟨"A", "= A", []⟩ 100 .web,
      Note.create ⟨5⟩ Database.bob.principal ⟨"A", "= A", []⟩ 100 .web] []
  s.withAttachments [figure] [⟨⟨7⟩, 1, ⟨9⟩⟩]

/-- The notes, the image, the items of both owners and the manifest have paths of their own. -/
theorem exported_paths_distinct_illustrated : ∃ s found, illustratedEssays = .ok s ∧
    s.notes.length = 3 ∧ s.attachments.length = 1 ∧
    createDocumentExport essayLibrary s "0.19.0" "0.23.0" 4000 = some found ∧
      (found.files.map DocumentFile.path ++ ["manifest.json"]).Nodup := by
  obtain ⟨s, hs⟩ : ∃ s, illustratedEssays = .ok s := Except.exists_eq_ok (by decide +kernel)
  have hall : illustratedEssays.toOption.all (fun s =>
      (s.notes.length = 3 ∧ s.attachments.length = 1) &&
      ((∀ note ∈ s.notes, note.noteId.entityId < 2 ^ 128) ∧
        ∀ attachment ∈ s.attachments, attachment.metadata.attachmentId.entityId < 2 ^ 128) &&
      ∀ identity ∈ exportedOwners s, ∀ identity' ∈ exportedOwners s,
        SharesDirectory identity identity' → identity = identity') = true := by
    decide +kernel
  rw [hs] at hall
  simp only [Except.toOption, Option.all_some, Bool.and_eq_true, decide_eq_true_eq] at hall
  obtain ⟨⟨hlengths, hnotes, hattachments⟩, howners⟩ := hall
  obtain ⟨created, hcreated, hillustrated⟩ := Except.bind_eq_ok.mp hs
  obtain ⟨found, hfound, hdistinct⟩ := @exported_paths_distinct_iff _ _ essayLibrary _
    ((LogicalSnapshot.Valid.new hcreated).withAttachments hillustrated) rereads_noDocuments
    ⟨hnotes, hattachments⟩ "0.19.0" "0.23.0" 4000
  exact ⟨s, found, hs, hlengths.1, hlengths.2, hfound, hdistinct.mpr howners⟩

/-- Both owners have one directory, with one file of items. -/
theorem exported_paths_distinct_fails :
    schemesSnapshot.Valid ∧
      ∃ found, createDocumentExport essayLibrary schemesSnapshot "0.19.0" "0.23.0" 4000 =
          some found ∧
        schemeOwner 1 "https://" ≠ schemeOwner 2 "http://" ∧
        ownerDirectory (schemeOwner 1 "https://").primaryIdentity =
          ownerDirectory (schemeOwner 2 "http://").primaryIdentity ∧
        ¬(found.files.map DocumentFile.path).Nodup := by
  refine ⟨valid_schemesSnapshot, ?_⟩
  obtain ⟨found, hfound, hpaths⟩ := @exists_createDocumentExport _ _ essayLibrary _
    valid_schemesSnapshot rereads_noDocuments "0.19.0" "0.23.0" 4000
  refine ⟨found, hfound, by decide, by decide +kernel, ?_⟩
  rw [hpaths]
  decide +kernel

end Marginalis
