import Marginalis.AclReplacement
import Marginalis.Archive
import Marginalis.HexDigits
import Marginalis.SnapshotRestatement

/-!
# Writing an archive

`createArchive` turns a snapshot into records of texts and numbers. Principals are named by their
primary identities, so the numbers the store has given them do not appear, and of a note its source
is written but not what is derived from it. A snapshot with the same parts in another order gives
the same archive (`createArchive_rearranged`), and so does one whose principals have other numbers
(`createArchive_restate`).
-/

namespace Marginalis

open LogicalSnapshot
open Table (orderBy)

/-- What archives take from other crates : the analysis of sources with the version of its package,
UUIDs and URLs as texts, and Base64. -/
structure ArchiveLibrary where
  content : NoteContent
  adocweavePackageVersion : String
  url : UrlLibrary
  parseUuid : String → Option ℕ
  encodeBase64 : List UInt8 → String
  decodeBase64 : String → Option (List UInt8)

def archiveFormat : String := "marginalis-archive-18"

/-! ## Records -/

/-- `EntityId::to_string`. -/
def entityIdText (entityId : ℕ) : String := String.ofList (Uuid.text entityId)

def Identity.toArchive (identity : Identity) : ArchiveIdentity where
  issuer := identity.issuer
  subject := identity.subject

def Principal.toArchive (principal : Principal) : ArchivePrincipal where
  primaryIssuer := principal.reference.primaryIdentity.issuer
  primarySubject := principal.reference.primaryIdentity.subject
  aliases := (principal.identities.filter fun identity =>
    identity ≠ principal.reference.primaryIdentity).map Identity.toArchive

def Note.toArchive (note : Note) : ArchiveNote where
  noteId := entityIdText note.noteId.entityId
  creatorIssuer := note.owner.primaryIdentity.issuer
  creatorSubject := note.owner.primaryIdentity.subject
  source := note.draft.source
  createdAt := note.createdAt
  updatedAt := note.updatedAt
  revision := note.revision
  deletedAt := note.deletedAt
  provenance := some note.provenance

/-- A revision with the images it shows. -/
def NoteRevisionSnapshot.toArchive (references : List NoteRevisionAttachment)
    (entry : NoteRevisionSnapshot) : ArchiveNoteRevision where
  noteId := entityIdText entry.note.noteId.entityId
  revision := entry.note.revision
  changedAt := entry.note.updatedAt
  changedByIssuer := entry.changedBy.primaryIdentity.issuer
  changedBySubject := entry.changedBy.primaryIdentity.subject
  kind := entry.kind
  source := entry.note.draft.source
  deletedAt := entry.note.deletedAt
  reviewTrackingKnown := entry.note.provenance.reviewTrackingKnown
  reviewedRevision := entry.note.provenance.reviewedRevision
  reviewedAt := entry.note.provenance.reviewedAt
  reviewerIssuer := entry.note.provenance.reviewerIssuer
  reviewerSubject := entry.note.provenance.reviewerSubject
  attachmentIds := (references.filter fun reference =>
    reference.noteId = entry.note.noteId ∧ reference.revision = entry.note.revision).map
      fun reference => entityIdText reference.attachmentId.entityId

def StoredAttachment.toArchive {attachmentLib : AttachmentLibrary} (lib : ArchiveLibrary)
    (attachment : StoredAttachment attachmentLib) : ArchiveAttachment where
  attachmentId := entityIdText attachment.metadata.attachmentId.entityId
  noteId := entityIdText attachment.metadata.noteId.entityId
  fileName := attachment.metadata.fileName
  mediaType := attachment.metadata.mediaType
  byteLength := attachment.metadata.byteLength
  sha256 := encodeSha256 attachment.metadata.sha256
  contentBase64 := lib.encodeBase64 attachment.bytes
  createdAt := attachment.metadata.createdAt
  createdByIssuer := attachment.metadata.createdBy.primaryIdentity.issuer
  createdBySubject := attachment.metadata.createdBy.primaryIdentity.subject

def NoteAclSnapshotEntry.toArchive (entry : NoteAclSnapshotEntry) : ArchiveAclEntry where
  noteId := entityIdText entry.noteId.entityId
  issuer := entry.principal.primaryIdentity.issuer
  subject := entry.principal.primaryIdentity.subject
  permission := entry.permission

/-- The record of an item. It panics at a document that cannot be read. -/
def BibliographyItem.toArchive {json : JsonCodec} (item : BibliographyItem json) :
    Option ArchiveBibliographyItem :=
  (json.parse item.cslJson).map fun cslJson =>
    { itemId := entityIdText item.itemId.entityId
      ownerIssuer := item.owner.primaryIdentity.issuer
      ownerSubject := item.owner.primaryIdentity.subject
      citationKey := item.citationKey
      cslJson
      createdAt := item.createdAt
      updatedAt := item.updatedAt
      revision := item.revision }

def BibliographyImportSource.toArchive (source : BibliographyImportSource) :
    ArchiveBibliographyImportSource where
  sourceId := entityIdText source.sourceId.entityId
  ownerIssuer := source.owner.primaryIdentity.issuer
  ownerSubject := source.owner.primaryIdentity.subject
  displayName := source.displayName
  revision := source.revision
  createdAt := source.createdAt
  lastImportedAt := source.lastImportedAt

def BibliographyImportLink.toArchive (link : BibliographyImportLink) :
    ArchiveBibliographyImportLink where
  sourceId := entityIdText link.sourceId.entityId
  externalItemId := link.externalItemId
  itemId := entityIdText link.itemId.entityId
  importedDigestSha256 := encodeSha256 link.importedDigest
  importedItemRevision := link.importedItemRevision

def MathMacro.toArchive (item : MathMacro) : ArchiveMathMacro where
  name := item.name
  replacement := item.replacement
  argumentCount := UInt8.ofNat item.argumentCount

def MathMacroSettingsSnapshot.toArchive (entry : MathMacroSettingsSnapshot) :
    ArchiveMathMacroSettings where
  ownerIssuer := entry.owner.primaryIdentity.issuer
  ownerSubject := entry.owner.primaryIdentity.subject
  macros := entry.settings.macros.map MathMacro.toArchive
  revision := entry.settings.revision

/-! ## The archive of a snapshot -/

variable {attachmentLib : AttachmentLibrary} {json : JsonCodec}

/-- `create_archive`. -/
def createArchive (lib : ArchiveLibrary) (s : LogicalSnapshot attachmentLib json) :
    Option Archive := do
  let bibliographyItems ← s.bibliographyItems.mapM BibliographyItem.toArchive
  return Archive.canonical
    { format := archiveFormat
      adocweavePackageVersion := lib.adocweavePackageVersion
      noteProfileVersion := archiveNoteProfileVersion
      principals := some (s.principals.map Principal.toArchive)
      notes := s.notes.map Note.toArchive
      noteRevisions := some (s.noteRevisions.map fun entry =>
        entry.toArchive s.noteRevisionAttachments)
      attachments := some (s.attachments.map fun attachment => attachment.toArchive lib)
      noteAcl := s.noteAcl.map NoteAclSnapshotEntry.toArchive
      bibliographyItems
      bibliographyImportSources :=
        s.bibliographyImportSources.map BibliographyImportSource.toArchive
      bibliographyImportLinks := s.bibliographyImportLinks.map BibliographyImportLink.toArchive
      mathMacroSettings := s.mathMacroSettings.map MathMacroSettingsSnapshot.toArchive }

/-! ## What the archive depends on -/

/-- The ids of the entries are numbers of 128 bits. -/
structure LogicalSnapshot.ShortIds (s : LogicalSnapshot attachmentLib json) : Prop where
  notes : ∀ note ∈ s.notes, note.noteId.entityId < 2 ^ 128
  attachments : ∀ attachment ∈ s.attachments,
    attachment.metadata.attachmentId.entityId < 2 ^ 128
  items : ∀ item ∈ s.bibliographyItems, item.itemId.entityId < 2 ^ 128
  sources : ∀ source ∈ s.bibliographyImportSources, source.sourceId.entityId < 2 ^ 128

theorem entityIdText_inj {m n : ℕ} (hm : m < 2 ^ 128) (hn : n < 2 ^ 128)
    (h : entityIdText m = entityIdText n) : m = n :=
  Uuid.text_inj hm hn (String.ofList_injective h)

theorem BibliographyItem.itemId_toArchive {item : BibliographyItem json}
    {record : ArchiveBibliographyItem} (h : item.toArchive = some record) :
    record.itemId = entityIdText item.itemId.entityId := by
  obtain ⟨value, -, rfl⟩ := Option.map_eq_some_iff.mp h
  rfl

/-- A mapped computation that succeeds everywhere gives all results. -/
theorem mapM_eq_filterMap {α β : Type} {f : α → Option β} {l : List α}
    (h : ∀ a ∈ l, ∃ b, f a = some b) : l.mapM f = some (l.filterMap f) := by
  induction l with
  | nil => rfl
  | cons a l ih =>
    obtain ⟨b, hb⟩ := h a List.mem_cons_self
    rw [List.mapM_cons, hb, ih fun a ha => h a (List.mem_cons_of_mem _ ha),
      List.filterMap_cons_some hb]
    rfl

variable {lib : ArchiveLibrary} {s s' : LogicalSnapshot attachmentLib json}

theorem createArchive_eq (hitems : ∀ item ∈ s.bibliographyItems,
    ∃ record, item.toArchive = some record) : createArchive lib s = some (Archive.canonical
    { format := archiveFormat
      adocweavePackageVersion := lib.adocweavePackageVersion
      noteProfileVersion := archiveNoteProfileVersion
      principals := some (s.principals.map Principal.toArchive)
      notes := s.notes.map Note.toArchive
      noteRevisions := some (s.noteRevisions.map fun entry =>
        entry.toArchive s.noteRevisionAttachments)
      attachments := some (s.attachments.map fun attachment => attachment.toArchive lib)
      noteAcl := s.noteAcl.map NoteAclSnapshotEntry.toArchive
      bibliographyItems := s.bibliographyItems.filterMap BibliographyItem.toArchive
      bibliographyImportSources :=
        s.bibliographyImportSources.map BibliographyImportSource.toArchive
      bibliographyImportLinks := s.bibliographyImportLinks.map BibliographyImportLink.toArchive
      mathMacroSettings := s.mathMacroSettings.map MathMacroSettingsSnapshot.toArchive }) := by
  unfold createArchive
  rw [mapM_eq_filterMap hitems]
  rfl

/-- Principals with the same primary identity are one. -/
theorem SnapshotParts.Fits.eq_of_primary {parts : SnapshotParts attachmentLib json}
    (h : parts.Fits) {a b : PrincipalRef} (ha : Knows parts.principals a)
    (hb : Knows parts.principals b) (heq : a.primaryIdentity = b.primaryIdentity) : a = b := by
  obtain ⟨p, hp, rfl⟩ := ha
  obtain ⟨q, hq, rfl⟩ := hb
  rw [h.principals.eq_of_mem hp hq p.primary_mem (heq ▸ q.primary_mem)]

theorem identity_eq_of_key {a b : Identity} (h : a.toArchive.key = b.toArchive.key) : a = b := by
  obtain ⟨hissuer, hsubject⟩ := Prod.mk.inj (toLex.injective h)
  exact Identity.mk.injEq .. ▸ ⟨hissuer, hsubject⟩

/-- The id of an entry that names a note. -/
theorem LogicalSnapshot.ShortIds.noteId (hids : s.ShortIds) {noteId : NoteId}
    (hnote : ∃ note ∈ s.notes, note.noteId = noteId) : noteId.entityId < 2 ^ 128 := by
  obtain ⟨note, hnote, rfl⟩ := hnote
  exact hids.notes note hnote

section Keys

variable (h : s.parts.Fits) (hids : s.ShortIds)
include h hids

theorem nodup_noteKeys :
    ((s.notes.map Note.toArchive).map ArchiveNote.noteId).Nodup := by
  rw [List.map_map]
  exact nodup_map_of_imp h.notes.ids fun a ha b hb heq =>
    congrArg NoteId.mk (entityIdText_inj (hids.notes a ha) (hids.notes b hb) heq)

theorem nodup_revisionKeys (references : List NoteRevisionAttachment) :
    ((s.noteRevisions.map fun entry => entry.toArchive references).map
      ArchiveNoteRevision.key).Nodup := by
  rw [List.map_map]
  refine nodup_map_of_imp h.revisions.keys fun a ha b hb heq => ?_
  have hshort : ∀ entry ∈ s.noteRevisions, entry.note.noteId.entityId < 2 ^ 128 := by
    intro entry hentry
    obtain ⟨note, hnote, hid, -⟩ := h.revisions.ofNote entry hentry
    exact hids.noteId ⟨note, hnote, hid⟩
  obtain ⟨hid, hrevision⟩ := Prod.mk.inj (toLex.injective heq)
  exact Prod.ext (congrArg NoteId.mk (entityIdText_inj (hshort a ha) (hshort b hb) hid))
    (Int.ofNat.inj hrevision)

theorem nodup_attachmentKeys :
    ((s.attachments.map fun attachment => attachment.toArchive lib).map
      ArchiveAttachment.attachmentId).Nodup := by
  rw [List.map_map]
  refine nodup_map_of_imp h.attachments.attachmentIds fun a ha b hb heq => ?_
  exact congrArg AttachmentId.mk
    (entityIdText_inj (hids.attachments a ha) (hids.attachments b hb) heq)

theorem nodup_aclKeys :
    ((s.noteAcl.map NoteAclSnapshotEntry.toArchive).map ArchiveAclEntry.key).Nodup := by
  rw [List.map_map]
  refine nodup_map_of_imp h.notes.keys fun a ha b hb heq => ?_
  have hshort : ∀ entry ∈ s.noteAcl, entry.noteId.entityId < 2 ^ 128 := by
    intro entry hentry
    obtain ⟨note, hnote, hid, -⟩ := h.notes.granted entry hentry
    exact hids.noteId ⟨note, hnote, hid⟩
  obtain ⟨hid, hprincipal⟩ := Prod.mk.inj (toLex.injective heq)
  have hsame := h.eq_of_primary (h.references.noteAcl a ha) (h.references.noteAcl b hb)
    (identity_eq_of_key hprincipal)
  exact Prod.ext (congrArg NoteId.mk (entityIdText_inj (hshort a ha) (hshort b hb) hid))
    (congrArg PrincipalRef.id hsame)

theorem nodup_sourceKeys :
    ((s.bibliographyImportSources.map BibliographyImportSource.toArchive).map
      ArchiveBibliographyImportSource.sourceId).Nodup := by
  rw [List.map_map]
  refine nodup_map_of_imp h.library.sourceIds fun a ha b hb heq => ?_
  exact congrArg BibliographyImportSourceId.mk
    (entityIdText_inj (hids.sources a ha) (hids.sources b hb) heq)

theorem nodup_linkKeys :
    ((s.bibliographyImportLinks.map BibliographyImportLink.toArchive).map
      ArchiveBibliographyImportLink.key).Nodup := by
  rw [List.map_map]
  refine nodup_map_of_imp h.library.linkKeys fun a ha b hb heq => ?_
  have hshort : ∀ link ∈ s.bibliographyImportLinks, link.sourceId.entityId < 2 ^ 128 := by
    intro link hlink
    obtain ⟨source, hsource, hid, -⟩ := h.library.linked link hlink
    exact hid ▸ hids.sources source hsource
  obtain ⟨hid, hexternal⟩ := Prod.mk.inj (toLex.injective heq)
  exact Prod.ext (congrArg BibliographyImportSourceId.mk
    (entityIdText_inj (hshort a ha) (hshort b hb) hid)) hexternal

omit hids in
theorem nodup_settingsKeys :
    ((s.mathMacroSettings.map MathMacroSettingsSnapshot.toArchive).map
      ArchiveMathMacroSettings.key).Nodup := by
  rw [List.map_map]
  refine nodup_map_of_imp h.settings.owners fun a ha b hb heq => ?_
  exact congrArg PrincipalRef.id (h.eq_of_primary (h.references.mathMacroSettings a ha)
    (h.references.mathMacroSettings b hb) (identity_eq_of_key heq))

omit hids in
theorem nodup_principalKeys :
    ((s.principals.map Principal.toArchive).map ArchivePrincipal.key).Nodup := by
  rw [List.map_map]
  refine nodup_map_of_imp h.principals.ids fun a ha b hb heq => ?_
  exact congrArg PrincipalRef.id (h.eq_of_primary ⟨a, ha, rfl⟩ ⟨b, hb, rfl⟩
    (identity_eq_of_key heq))

end Keys

theorem rearranges_toArchive {a b : Principal} (h : SnapshotParts.SamePrincipal a b) :
    a.toArchive.Rearranges b.toArchive where
  primaryIssuer := congrArg (fun reference => reference.primaryIdentity.issuer) h.reference
  primarySubject := congrArg (fun reference => reference.primaryIdentity.subject) h.reference
  aliases := by
    unfold Principal.toArchive
    rw [h.reference]
    exact (h.identities.filter _).map _

/-- The records do not depend on the order of the entries. -/
theorem createArchive_rearranged (h : s.parts.Fits) (hids : s.ShortIds)
    (hitems : ∀ item ∈ s.bibliographyItems, ∃ record, item.toArchive = some record)
    (hr : s.parts.Rearranges s'.parts) : createArchive lib s' = createArchive lib s := by
  have hprincipals : orderBy ArchivePrincipal.key
      ((s.principals.map Principal.toArchive).map ArchivePrincipal.canonical) =
        orderBy ArchivePrincipal.key
          ((s'.principals.map Principal.toArchive).map ArchivePrincipal.canonical) := by
    obtain ⟨m, hperm, hsame⟩ := hr.principals.flip
    refine orderBy_map_rearranged (fun _ => rfl)
      (fun _ _ => ArchivePrincipal.Rearranges.canonical_eq) (nodup_principalKeys h)
        ⟨m.map Principal.toArchive, ?_, hperm.map _⟩
    rw [List.forall₂_map_left_iff, List.forall₂_map_right_iff]
    exact hsame.flip.imp fun _ _ hsame => rearranges_toArchive hsame
  have hrevisions : orderBy ArchiveNoteRevision.key ((s.noteRevisions.map fun entry =>
      entry.toArchive s.noteRevisionAttachments).map ArchiveNoteRevision.canonical) =
        orderBy ArchiveNoteRevision.key ((s'.noteRevisions.map fun entry =>
          entry.toArchive s'.noteRevisionAttachments).map ArchiveNoteRevision.canonical) := by
    refine orderBy_map_rearranged (fun _ => rfl)
      (fun _ _ => ArchiveNoteRevision.Rearranges.canonical_eq) (nodup_revisionKeys h hids _)
        ⟨s.noteRevisions.map fun entry => entry.toArchive s'.noteRevisionAttachments, ?_,
          hr.noteRevisions.map _⟩
    rw [List.forall₂_map_left_iff, List.forall₂_map_right_iff, List.forall₂_same]
    exact fun entry _ => ⟨rfl, (hr.attachmentReferences.filter _).map _⟩
  have hbibliography : orderBy ArchiveBibliographyItem.itemId
      (s.bibliographyItems.filterMap BibliographyItem.toArchive) =
        orderBy ArchiveBibliographyItem.itemId
          (s'.bibliographyItems.filterMap BibliographyItem.toArchive) := by
    refine Table.orderBy_congr (hr.items.filterMap _) fun a ha b hb heq => ?_
    obtain ⟨item, hitem, hrecord⟩ := List.mem_filterMap.mp ha
    obtain ⟨item', hitem', hrecord'⟩ := List.mem_filterMap.mp hb
    rw [item.itemId_toArchive hrecord, item'.itemId_toArchive hrecord'] at heq
    have hid : item.itemId = item'.itemId := congrArg BibliographyItemId.mk
      (entityIdText_inj (hids.items item hitem) (hids.items item' hitem') heq)
    rw [List.inj_on_of_nodup_map h.library.itemIds hitem hitem' hid, hrecord'] at hrecord
    exact (Option.some.inj hrecord).symm
  have hitems' : ∀ item ∈ s'.bibliographyItems, ∃ record, item.toArchive = some record :=
    fun item hitem => hitems item (hr.items.mem_iff.mpr hitem)
  rw [createArchive_eq hitems, createArchive_eq hitems']
  unfold Archive.canonical
  simp only [Option.map_some]
  rw [hprincipals, hrevisions, hbibliography, orderBy_eq_of_perm (nodup_noteKeys h hids)
      (hr.notes.map _), orderBy_eq_of_perm (nodup_attachmentKeys h hids) (hr.attachments.map _),
    orderBy_eq_of_perm (nodup_aclKeys h hids) (hr.noteAcl.map _),
    orderBy_eq_of_perm (nodup_sourceKeys h hids) (hr.sources.map _),
    orderBy_eq_of_perm (nodup_linkKeys h hids) (hr.links.map _),
    orderBy_eq_of_perm (nodup_settingsKeys h) (hr.mathMacroSettings.map _)]
  rfl

/-! ## Other numbers for the principals -/

variable {r : Restatement}

theorem Note.provenance_restate (note : Note) : (note.restate r).provenance = note.provenance := by
  have hreview : (note.restate r).review = note.review.restate r := rfl
  unfold Note.provenance
  rw [hreview]
  cases note.review with
  | unknown => rfl
  | tracked lastReview =>
    cases lastReview with
    | none => rfl
    | some review => rfl

theorem Note.toArchive_restate (note : Note) : (note.restate r).toArchive = note.toArchive := by
  unfold Note.toArchive
  rw [Note.provenance_restate, show (note.restate r).draft.source = note.draft.source from
    r.source_draft note.draft]
  rfl

theorem NoteRevisionSnapshot.toArchive_restate (references : List NoteRevisionAttachment)
    (entry : NoteRevisionSnapshot) :
    (entry.restate r).toArchive references = entry.toArchive references := by
  unfold NoteRevisionSnapshot.toArchive
  rw [show (entry.restate r).note.provenance = entry.note.provenance from
    entry.note.provenance_restate, show (entry.restate r).note.draft.source =
      entry.note.draft.source from r.source_draft entry.note.draft]
  rfl

/-- The numbers of the principals do not appear, and neither does what is derived from sources. -/
theorem createArchive_restate (s : LogicalSnapshot attachmentLib json) :
    createArchive lib (s.restate r) = createArchive lib s := by
  have hnotes : (s.restate r).notes.map Note.toArchive = s.notes.map Note.toArchive := by
    rw [LogicalSnapshot.restate, List.map_map]
    exact List.map_congr_left fun note _ => note.toArchive_restate
  have hrevisions : (s.restate r).noteRevisions.map (fun entry =>
      entry.toArchive s.noteRevisionAttachments) =
        s.noteRevisions.map fun entry => entry.toArchive s.noteRevisionAttachments := by
    rw [LogicalSnapshot.restate, List.map_map]
    exact List.map_congr_left fun entry _ => entry.toArchive_restate _
  have hitems : (s.restate r).bibliographyItems.mapM BibliographyItem.toArchive =
      s.bibliographyItems.mapM BibliographyItem.toArchive := by
    rw [LogicalSnapshot.restate, List.mapM_map]
    rfl
  unfold createArchive
  rw [hnotes, hitems, show (s.restate r).noteRevisionAttachments = s.noteRevisionAttachments from
    rfl, hrevisions]
  simp only [LogicalSnapshot.restate, List.map_map]
  rfl

end Marginalis
