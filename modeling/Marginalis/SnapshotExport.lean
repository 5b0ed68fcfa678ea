import Marginalis.LibraryRequests
import Marginalis.ServiceSound
import Marginalis.SnapshotParts

/-!
# The export of the store

`export_archive_snapshot` reads every table in one transaction, in the order of its keys, and
puts the snapshot together with the constructors of `LogicalSnapshot`, which check once more how
its parts refer to each other. In a sound database they never refuse what is stored
(`Exported.fits`), so an export fails for one reason only : an item of a library that was written
at a reading before its creation (`ServiceSound.exists_exportRows`).
-/

namespace Marginalis

open Table (orderBy)

/-! ## The reads -/

/-- `ORDER BY issuer, subject`. -/
def Identity.key (identity : Identity) : String ×ₗ String :=
  toLex (identity.issuer, identity.subject)

namespace Database

variable (db : Database)

/-- The join of a row with the primary identity of its principal. -/
def withIdentity {ρ : Type} (principal : ρ → PrincipalId) (row : ρ) : Option (ρ × Identity) :=
  (db.primaryIdentity (principal row)).map fun identity => (row, identity)

/-- The notes of an export, deleted ones among them. -/
def exportNotes : Except SqliteStoreError (List Note) :=
  ((orderBy (fun row => row.noteId.entityId) db.notes.rows).filterMap db.noteDetails).mapM
    noteFromRow

/-- The grants of an export. -/
def exportAcl : List NoteAclSnapshotEntry :=
  (orderBy (fun joined => toLex (joined.1.noteId.entityId, joined.2.key))
    (db.noteAcl.rows.filterMap (db.withIdentity AclRow.principalId))).map fun joined =>
      ⟨joined.1.noteId, ⟨joined.1.principalId, joined.2⟩, joined.1.permission⟩

/-- The import sources of an export. -/
def exportSources : Except StorageError (List BibliographyImportSource) :=
  ((orderBy (fun row => row.sourceId.entityId) db.bibliographyImportSources.rows).filterMap
    (db.withIdentity ImportSourceRow.owner)).mapM fun joined => decodeSource joined.1 joined.2

/-- The import links of an export. -/
def exportLinks : Except StorageError (List BibliographyImportLink) :=
  (orderBy (fun row => toLex (row.sourceId.entityId, row.externalItemId))
    db.bibliographyImportLinks.rows).mapM decodeLink

/-- The macros of one owner. -/
def settingsSnapshot (codec : MathMacroCodec) (joined : MathMacroRow × Identity) :
    Except StorageError MathMacroSettingsSnapshot := do
  let settings ← decodeSettings codec joined.1
  return ⟨⟨joined.1.owner, joined.2⟩, settings⟩

/-- The macros of an export. -/
def exportMathMacros (codec : MathMacroCodec) :
    Except StorageError (List MathMacroSettingsSnapshot) :=
  (orderBy (fun joined => joined.2.key)
    (db.mathMacroSettings.rows.filterMap (db.withIdentity MathMacroRow.owner))).mapM
      (settingsSnapshot codec)

/-- The identities of a principal, the primary one first. -/
def identitiesOf (principalId : PrincipalId) : List IdentityRow :=
  orderBy (fun row => toLex (!row.isPrimary, row.identity.key))
    (db.principalIdentities.select fun row => row.principalId = principalId)

/-- What the loop of the export makes of the identities of one principal : one of them is the
primary one. -/
def exportPrincipal (principalId : PrincipalId) : Except SqliteStoreError Principal :=
  let rows := db.identitiesOf principalId
  match rows.filter IdentityRow.isPrimary with
  | [primary] => (Principal.restore principalId primary.identity
      (rows.map IdentityRow.identity)).mapError fun _ => .corruptData
  | _ => .error .corruptData

/-- The principals of an export. -/
def exportPrincipals : Except SqliteStoreError (List Principal) :=
  (orderBy (fun row => row.principalId.get) db.principals.rows).mapM fun row =>
    db.exportPrincipal row.principalId

/-- `all_note_revisions`. -/
def allNoteRevisions : Except SqliteStoreError (List NoteRevisionSnapshot) :=
  ((orderBy (fun row => toLex (row.noteId.entityId, row.revision))
    db.noteRevisions.rows).filterMap db.revisionDetails).mapM revisionFromRow

/-- An image with its metadata. -/
def storedAttachment (lib : AttachmentLibrary) (joined : AttachmentRow × Identity) :
    Except SqliteStoreError (StoredAttachment lib) := do
  let metadata ← metadataFromRow lib joined.1 joined.2
  (StoredAttachment.new lib metadata joined.1.content).mapError fun _ => .corruptData

/-- The images of an export. -/
def exportAttachments (lib : AttachmentLibrary) :
    Except SqliteStoreError (List (StoredAttachment lib)) :=
  ((orderBy (fun row => row.attachmentId.entityId) db.noteAttachments.rows).filterMap
    (db.withIdentity AttachmentRow.createdBy)).mapM (storedAttachment lib)

/-- An image that a revision shows. `Revision::new` takes no zero. -/
def revisionAttachment (row : RevisionAttachmentRow) :
    Except SqliteStoreError NoteRevisionAttachment :=
  if row.revision = 0 then .error .corruptData
  else .ok ⟨row.noteId, row.revision, row.attachmentId⟩

/-- What the revisions of an export show. -/
def exportAttachmentReferences : Except SqliteStoreError (List NoteRevisionAttachment) :=
  (orderBy (fun row => toLex (row.noteId.entityId, toLex (row.revision,
    row.attachmentId.entityId))) db.noteRevisionAttachments.rows).mapM revisionAttachment

end Database

variable {service : ServiceLibrary}

namespace Database

variable (service) (db : Database)

/-- The reads of `export_archive_snapshot`. -/
def exportRows :
    Except SqliteStoreError (SnapshotParts service.attachments service.imports.json) := do
  let notes ← db.exportNotes
  let items ← (db.exportItems service.imports.json).mapError fun _ => .corruptData
  let sources ← db.exportSources.mapError fun _ => .corruptData
  let links ← db.exportLinks.mapError fun _ => .corruptData
  let mathMacroSettings ← (db.exportMathMacros service.macros).mapError fun _ => .corruptData
  let principals ← db.exportPrincipals
  let noteRevisions ← db.allNoteRevisions
  let attachments ← db.exportAttachments service.attachments
  let attachmentReferences ← db.exportAttachmentReferences
  return ⟨notes, db.exportAcl, noteRevisions, items, sources, links, mathMacroSettings,
    principals, attachments, attachmentReferences⟩

/-- `export_archive_snapshot`. -/
def exportArchiveSnapshot : Except SqliteStoreError
    (LogicalSnapshot service.attachments service.imports.json) := do
  let rows ← db.exportRows service
  rows.snapshot.mapError fun _ => .corruptData

variable {service} {db}

/-! ## Principals that the store knows -/

/-- The reference shows the primary identity of its principal. -/
def ShowsPrimary (db : Database) (reference : PrincipalRef) : Prop :=
  db.primaryIdentity reference.id = some reference.primaryIdentity

theorem shows_of_withIdentity {ρ : Type} {principal : ρ → PrincipalId} {row : ρ}
    {joined : ρ × Identity} (h : db.withIdentity principal row = some joined) :
    joined.1 = row ∧ db.ShowsPrimary ⟨principal row, joined.2⟩ := by
  obtain ⟨identity, hidentity, rfl⟩ := Option.map_eq_some_iff.mp h
  exact ⟨rfl, hidentity⟩

theorem BindingsWhole.exists_withIdentity (hdb : db.BindingsWhole) {ρ : Type}
    {principal : ρ → PrincipalId} {row : ρ} (hknown : db.Known (principal row)) :
    ∃ joined, db.withIdentity principal row = some joined := by
  obtain ⟨identity, hidentity⟩ := hdb.exists_primaryIdentity hknown
  exact ⟨(row, identity), by rw [withIdentity, hidentity]; rfl⟩

/-! ## What is read from a row -/

/-- The note of a row. -/
structure NoteShown (db : Database) (row : NoteRow) (note : Note) : Prop where
  toRow : note.toRow = row
  owner : db.ShowsPrimary note.owner
  reviewer : ∀ review ∈ note.review.lastReview, db.ShowsPrimary review.reviewer

/-- The state of a note that a history row holds. -/
structure RevisionShown (db : Database) (row : NoteRevisionRow) (entry : NoteRevisionSnapshot) :
    Prop where
  note : ∃ note, db.notes.find row.noteId = some note ∧
    db.NoteShown (row.noteColumns note) entry.note
  changedBy : entry.changedBy.id = row.changedBy
  shows : db.ShowsPrimary entry.changedBy
  kind : entry.kind = row.changeKind

structure AclShown (db : Database) (row : AclRow) (entry : NoteAclSnapshotEntry) : Prop where
  noteId : entry.noteId = row.noteId
  principal : entry.principal.id = row.principalId
  permission : entry.permission = row.permission
  shows : db.ShowsPrimary entry.principal

structure ItemShown {json : JsonCodec} (db : Database) (row : BibliographyItemRow)
    (item : BibliographyItem json) : Prop where
  decodes : ∃ identity, decodeItem json row identity = .ok item
  shows : db.ShowsPrimary item.owner

structure SourceShown (db : Database) (row : ImportSourceRow)
    (source : BibliographyImportSource) : Prop where
  toRow : source.toRow = row
  shows : db.ShowsPrimary source.owner

/-- The link of a row, whose owner is the one of its source. -/
def LinkShown (row : ImportLinkRow) (link : BibliographyImportLink) : Prop :=
  link.toRow row.owner = row

structure SettingsShown (codec : MathMacroCodec) (db : Database) (row : MathMacroRow)
    (entry : MathMacroSettingsSnapshot) : Prop where
  owner : entry.owner.id = row.owner
  decodes : decodeSettings codec row = .ok entry.settings
  shows : db.ShowsPrimary entry.owner

/-- A principal with all its identities. -/
structure PrincipalShown (db : Database) (row : PrincipalRow) (principal : Principal) : Prop where
  id : principal.reference.id = row.principalId
  shows : db.ShowsPrimary principal.reference
  identities : ∀ identity, identity ∈ principal.identities ↔ ∃ bound ∈ db.principalIdentities,
    bound.principalId = row.principalId ∧ bound.identity = identity

structure AttachmentShown {lib : AttachmentLibrary} (db : Database) (row : AttachmentRow)
    (attachment : StoredAttachment lib) : Prop where
  toRow : attachment.toRow = row
  shows : db.ShowsPrimary attachment.metadata.createdBy

def ReferenceShown (row : RevisionAttachmentRow) (reference : NoteRevisionAttachment) : Prop :=
  reference.noteId = row.noteId ∧ reference.revision = row.revision ∧
    reference.attachmentId = row.attachmentId

/-- What was read is what the tables hold. -/
structure Exported (db : Database)
    (rows : SnapshotParts service.attachments service.imports.json) : Prop where
  notes : List.Corresponds db.NoteShown db.notes.rows rows.notes
  noteAcl : List.Corresponds db.AclShown db.noteAcl.rows rows.noteAcl
  items : List.Corresponds db.ItemShown db.bibliographyItems.rows rows.items
  sources : List.Corresponds db.SourceShown db.bibliographyImportSources.rows rows.sources
  links : List.Corresponds LinkShown db.bibliographyImportLinks.rows rows.links
  mathMacroSettings : List.Corresponds (SettingsShown service.macros db)
    db.mathMacroSettings.rows rows.mathMacroSettings
  principals : List.Corresponds db.PrincipalShown db.principals.rows rows.principals
  noteRevisions : List.Corresponds db.RevisionShown db.noteRevisions.rows rows.noteRevisions
  attachments : List.Corresponds db.AttachmentShown db.noteAttachments.rows rows.attachments
  attachmentReferences : List.Corresponds ReferenceShown db.noteRevisionAttachments.rows
    rows.attachmentReferences

/-! ### Notes -/

theorem noteShown_of_noteFromRow {details : NoteDetails} {note : Note}
    (hcreator : db.primaryIdentity details.row.creator = some details.creatorIdentity)
    (hreviewer : details.reviewerIdentity =
      details.row.review.bind fun review => db.primaryIdentity review.reviewer)
    (h : noteFromRow details = .ok note) : db.NoteShown details.row note := by
  obtain ⟨htracking, hid, howner, hdraft, hcreated, hupdated, hrevision, hdeleted, hvia⟩ :=
    noteFromRow_eq_ok.mp h
  obtain ⟨row, creatorIdentity, reviewerIdentity⟩ := details
  have hreview : decide (note.review ≠ .unknown) = row.reviewTrackingKnown ∧
      (note.review.lastReview.map fun review =>
        (⟨review.revision, review.reviewedAt, review.reviewer.id⟩ : ReviewColumns)) = row.review ∧
      ∀ review ∈ note.review.lastReview, db.ShowsPrimary review.reviewer := by
    unfold NoteDetails.reviewTracking at htracking
    dsimp only at htracking hreviewer
    split at htracking
    · next hknown hrow =>
      rw [← Except.ok.inj htracking, hknown, hrow]
      simp [NoteReviewTracking.lastReview]
    · next hknown hrow =>
      rw [← Except.ok.inj htracking, hknown, hrow]
      simp [NoteReviewTracking.lastReview, NoteReviewTracking.pending]
    · next review identity hknown hrow =>
      rw [hrow, Option.bind_some] at hreviewer
      rw [← Except.ok.inj htracking, hknown, hrow]
      simp [NoteReviewTracking.lastReview, ShowsPrimary, ← hreviewer]
    · cases htracking
  refine ⟨?_, by rw [howner]; exact hcreator, hreview.2.2⟩
  unfold Note.toRow
  rw [hid, howner, hdraft, hcreated, hupdated, hrevision, hdeleted, hvia, hreview.1, hreview.2.1]

theorem NotesSound.corresponds_exportNotes (h : db.NotesSound) {notes : List Note}
    (hnotes : db.exportNotes = .ok notes) :
    List.Corresponds db.NoteShown db.notes.rows notes := by
  have hread := (Except.filterMap_mapM_eq_ok fun row hrow => ?_).mp hnotes
  · refine ⟨_, Table.orderBy_perm, hread.imp ?_⟩
    rintro row note ⟨details, hdetails, hnote⟩
    obtain ⟨identity, hidentity, rfl⟩ := Option.map_eq_some_iff.mp hdetails
    exact noteShown_of_noteFromRow hidentity rfl hnote
  · obtain ⟨identity, hidentity⟩ := h.identity (Table.mem_orderBy.mp hrow)
    exact ⟨_, by rw [noteDetails, hidentity]; rfl⟩

theorem NotesSound.exists_exportNotes (h : db.NotesSound) :
    ∃ notes, db.exportNotes = .ok notes := by
  refine Except.exists_filterMap_mapM fun row hrow => ?_
  obtain ⟨note, hnote⟩ := h.readNote (Table.mem_orderBy.mp hrow)
  obtain ⟨row', details, hfind, hdetails, hdecoded⟩ := readNote_eq_ok.mp hnote
  have hsame : db.notes.find row.noteId = some row :=
    Table.find_of_mem (Table.mem_orderBy.mp hrow)
  rw [hsame, Option.some.injEq] at hfind
  exact ⟨note, details, hfind ▸ hdetails, hdecoded⟩

/-- The joins of a history row of a sound store. -/
theorem revisionShown_of_revisionFromRow {row : NoteRevisionRow} {details : RevisionDetails}
    {entry : NoteRevisionSnapshot} (hdetails : db.revisionDetails row = some details)
    (h : revisionFromRow details = .ok entry) : db.RevisionShown row entry := by
  obtain ⟨note, hfind, hdetails⟩ := Option.bind_eq_some_iff.mp hdetails
  obtain ⟨creator, hcreator, hdetails⟩ := Option.bind_eq_some_iff.mp hdetails
  obtain ⟨changedBy, hchangedBy, hdetails⟩ := Option.bind_eq_some_iff.mp hdetails
  cases hdetails
  obtain ⟨decoded, hdecoded, h⟩ := Except.bind_eq_ok.mp h
  cases h
  exact ⟨⟨note, hfind, noteShown_of_noteFromRow hcreator rfl hdecoded⟩, rfl, hchangedBy, rfl⟩

theorem NotesSound.exists_allNoteRevisions (h : db.NotesSound) :
    ∃ revisions, db.allNoteRevisions = .ok revisions := by
  refine Except.exists_filterMap_mapM fun row hrow => ?_
  obtain ⟨details, entry, hdetails, hentry⟩ := h.revision (Table.mem_orderBy.mp hrow)
  exact ⟨entry, details, hdetails, hentry⟩

theorem NotesSound.corresponds_allNoteRevisions (h : db.NotesSound)
    {revisions : List NoteRevisionSnapshot} (hrevisions : db.allNoteRevisions = .ok revisions) :
    List.Corresponds db.RevisionShown db.noteRevisions.rows revisions := by
  have hread := (Except.filterMap_mapM_eq_ok fun row hrow => ?_).mp hrevisions
  · refine ⟨_, Table.orderBy_perm, hread.imp ?_⟩
    rintro row entry ⟨details, hdetails, hentry⟩
    exact revisionShown_of_revisionFromRow hdetails hentry
  · obtain ⟨details, -, hdetails, -⟩ := h.revision (Table.mem_orderBy.mp hrow)
    exact ⟨details, hdetails⟩

/-! ### Joins with identities -/

section WithIdentity

variable {ρ β ε : Type} {principal : ρ → PrincipalId} {rows : List ρ}
  {joined : List (ρ × Identity)} {decode : ρ × Identity → Except ε β} {results : List β}

/-- Rows of known principals all have their join. -/
theorem BindingsWhole.map_withIdentity (hdb : db.BindingsWhole)
    (hknown : ∀ row ∈ rows, db.Known (principal row)) :
    (rows.filterMap (db.withIdentity principal)).map Prod.fst = rows := by
  induction rows with
  | nil => rfl
  | cons row rows ih =>
    obtain ⟨pair, hpair⟩ := hdb.exists_withIdentity (hknown row List.mem_cons_self)
    rw [List.filterMap_cons_some hpair, List.map_cons, (shows_of_withIdentity hpair).1,
      ih fun row hrow => hknown row (List.mem_cons_of_mem _ hrow)]

theorem mem_withIdentity (hjoined : joined.Perm (rows.filterMap (db.withIdentity principal)))
    {pair : ρ × Identity} (hpair : pair ∈ joined) :
    pair.1 ∈ rows ∧ db.ShowsPrimary ⟨principal pair.1, pair.2⟩ := by
  obtain ⟨row, hrow, hjoin⟩ := List.mem_filterMap.mp (hjoined.mem_iff.mp hpair)
  obtain ⟨rfl, hshows⟩ := shows_of_withIdentity hjoin
  exact ⟨hrow, hshows⟩

/-- A read of rows with the identities of their principals, in any order. -/
theorem BindingsWhole.corresponds_withIdentity (hdb : db.BindingsWhole) {R : ρ → β → Prop}
    (hknown : ∀ row ∈ rows, db.Known (principal row))
    (hjoined : joined.Perm (rows.filterMap (db.withIdentity principal)))
    (hdecode : ∀ {row identity b}, db.ShowsPrimary ⟨principal row, identity⟩ →
      decode (row, identity) = .ok b → R row b)
    (h : joined.mapM decode = .ok results) : List.Corresponds R rows results := by
  refine ⟨joined.map Prod.fst, ?_, List.forall₂_map_left_iff.mpr ?_⟩
  · have hperm := hjoined.map Prod.fst
    rwa [hdb.map_withIdentity hknown] at hperm
  · have hread := (List.forall₂_and_left (p := fun pair => db.ShowsPrimary
      ⟨principal pair.1, pair.2⟩) joined results).mpr
      ⟨fun pair hpair => (mem_withIdentity hjoined hpair).2, Except.mapM_eq_ok.mp h⟩
    exact hread.imp fun pair b hb => hdecode hb.1 hb.2

theorem exists_mapM_withIdentity
    (hjoined : joined.Perm (rows.filterMap (db.withIdentity principal)))
    (hdecode : ∀ row ∈ rows, ∀ identity, ∃ b, decode (row, identity) = .ok b) :
    ∃ results, joined.mapM decode = .ok results :=
  Except.mapM_ok fun pair hpair => hdecode pair.1 (mem_withIdentity hjoined hpair).1 pair.2

end WithIdentity

theorem corresponds_exportAcl (hdb : db.BindingsWhole) (h : db.NotesSound) :
    List.Corresponds db.AclShown db.noteAcl.rows db.exportAcl := by
  have hread : (orderBy (fun joined => toLex (joined.1.noteId.entityId, joined.2.key))
      (db.noteAcl.rows.filterMap (db.withIdentity AclRow.principalId))).mapM (fun joined =>
        (Except.ok ⟨joined.1.noteId, ⟨joined.1.principalId, joined.2⟩, joined.1.permission⟩ :
          Except Empty NoteAclSnapshotEntry)) = .ok db.exportAcl := by
    rw [Except.mapM_eq_ok, exportAcl, List.forall₂_map_right_iff]
    exact List.forall₂_same.mpr fun _ _ => rfl
  refine hdb.corresponds_withIdentity h.grantees Table.orderBy_perm ?_ hread
  intro row identity entry hshows hentry
  cases hentry
  exact ⟨rfl, rfl, rfl, hshows⟩

/-! ### Libraries and macros -/

theorem exists_exportSources (h : db.ImportsSound) :
    ∃ sources, db.exportSources = .ok sources := by
  refine exists_mapM_withIdentity (Table.orderBy_perm.filterMap _) fun row hrow identity => ?_
  obtain ⟨⟨hpositive, hle⟩, hname⟩ := h.check row hrow
  unfold decodeSource BibliographyImportSource.restore
  rw [dif_pos hpositive, dif_pos ⟨hname, hle⟩]
  exact ⟨_, rfl⟩

theorem BindingsWhole.corresponds_exportSources (hdb : db.BindingsWhole) (h : db.ImportsSound)
    {sources : List BibliographyImportSource} (hsources : db.exportSources = .ok sources) :
    List.Corresponds db.SourceShown db.bibliographyImportSources.rows sources := by
  refine hdb.corresponds_withIdentity h.owner (Table.orderBy_perm.filterMap _) ?_ hsources
  intro row identity source hshows hsource
  obtain ⟨hrow, howner⟩ := decodeSource_eq_ok.mp hsource
  exact ⟨hrow, howner ▸ hshows⟩

theorem exists_exportLinks (h : db.ImportsSound)
    (hpositive : ∀ link ∈ db.bibliographyImportLinks, link.importedItemRevision ≠ 0) :
    ∃ links, db.exportLinks = .ok links := by
  refine Except.mapM_ok fun row hrow => ?_
  have hmem := Table.mem_orderBy.mp hrow
  exact ⟨⟨row.sourceId, row.externalItemId, row.itemId, row.importedDigest,
    row.importedItemRevision, h.identifier row hmem⟩,
    decodeLink_eq_ok.mpr ⟨hpositive row hmem, rfl⟩⟩

theorem corresponds_exportLinks {links : List BibliographyImportLink}
    (hlinks : db.exportLinks = .ok links) :
    List.Corresponds LinkShown db.bibliographyImportLinks.rows links :=
  ⟨_, Table.orderBy_perm, (Except.mapM_eq_ok.mp hlinks).imp fun _ _ h =>
    (decodeLink_eq_ok.mp h).2⟩

/-- The items are read through the same join. -/
theorem itemDetails_perm (db : Database) :
    ((orderBy (fun row => row.itemId.entityId)
      (db.bibliographyItems.select fun _ => true)).filterMap db.itemDetails).Perm
        (db.bibliographyItems.rows.filterMap (db.withIdentity BibliographyItemRow.owner)) := by
  have hselect : db.bibliographyItems.select (fun _ => true) = db.bibliographyItems.rows :=
    List.filter_true _
  rw [hselect]
  exact Table.orderBy_perm.filterMap _

theorem BindingsWhole.corresponds_exportItems (hdb : db.BindingsWhole) {json : JsonCodec}
    (h : db.LibraryConsistent json) {items : List (BibliographyItem json)}
    (hitems : db.exportItems json = .ok items) :
    List.Corresponds db.ItemShown db.bibliographyItems.rows items := by
  refine hdb.corresponds_withIdentity (fun row hrow => ?_) db.itemDetails_perm ?_ hitems
  · obtain ⟨identity, hidentity⟩ := h.owners row hrow
    exact hdb.known hidentity
  · intro row identity item hshows hitem
    obtain ⟨-, -, howner, -⟩ := decodeItem_eq_ok.mp hitem
    exact ⟨⟨identity, hitem⟩, howner ▸ hshows⟩

/-- The only thing about a stored item that can fail to decode is the order of its times. -/
theorem LibraryConsistent.exists_exportItems {json : JsonCodec} (h : db.LibraryConsistent json)
    (hrereads : Rereads json) (hpositive : ∀ row ∈ db.bibliographyItems, 0 < row.revision) :
    (∃ items, db.exportItems json = .ok items) ↔
      ∀ row ∈ db.bibliographyItems, row.createdAt ≤ row.updatedAt := by
  constructor
  · rintro ⟨items, hitems⟩ row hrow
    obtain ⟨identity, hidentity⟩ := h.owners row hrow
    have hjoined : (row, identity) ∈ (orderBy (fun row => row.itemId.entityId)
        (db.bibliographyItems.select fun _ => true)).filterMap db.itemDetails :=
      List.mem_filterMap.mpr ⟨row, by simpa using hrow, by rw [itemDetails, hidentity]; rfl⟩
    obtain ⟨item, -, hitem⟩ := Except.exists_mem_of_mapM hitems hjoined
    exact (decodeItem_eq_ok.mp hitem).2.1
  · intro htimes
    refine exists_mapM_withIdentity db.itemDetails_perm fun row hrow identity => ?_
    obtain ⟨csl, hkey, hencoded⟩ := h.documents row hrow
    refine exists_decodeItem identity (hpositive row hrow) (htimes row hrow) ?_
    rw [← hkey, ← hencoded]
    exact hrereads csl

theorem exists_exportMathMacros {codec : MathMacroCodec} (h : db.MacrosSound codec) :
    ∃ settings, db.exportMathMacros codec = .ok settings := by
  refine exists_mapM_withIdentity Table.orderBy_perm fun row hrow identity => ?_
  obtain ⟨hpositive, macros, haccepted, hrereads, hjson⟩ := h.stored row hrow
  exact ⟨_, Except.bind_eq_ok.mpr
    ⟨_, decodeSettings_encode haccepted hrereads hjson hpositive, rfl⟩⟩

theorem BindingsWhole.corresponds_exportMathMacros (hdb : db.BindingsWhole)
    {codec : MathMacroCodec} (h : db.MacrosSound codec)
    {settings : List MathMacroSettingsSnapshot}
    (hsettings : db.exportMathMacros codec = .ok settings) :
    List.Corresponds (SettingsShown codec db) db.mathMacroSettings.rows settings := by
  refine hdb.corresponds_withIdentity h.owner Table.orderBy_perm ?_ hsettings
  intro row identity entry hshows hentry
  obtain ⟨decoded, hdecoded, hentry⟩ := Except.bind_eq_ok.mp hentry
  cases hentry
  exact ⟨rfl, hdecoded, hshows⟩

/-! ### Images -/

end Database

/-- Nothing is asked of whoever uploaded an image. -/
theorem AttachmentMetadata.new_createdBy {lib : AttachmentLibrary} {m : AttachmentMetadata}
    (h : new lib m = .ok m) (createdBy : PrincipalRef) :
    new lib { m with createdBy := createdBy } = .ok { m with createdBy := createdBy } := by
  unfold new at h ⊢
  dsimp only at h ⊢
  split_ifs at h ⊢ with hname hempty hlarge
  have hname : String.ofList (lib.nfc (trim m.fileName.toList)) = m.fileName :=
    congrArg AttachmentMetadata.fileName (Except.ok.inj h)
  rw [hname]

theorem StoredAttachment.new_eq_ok {lib : AttachmentLibrary} {m : AttachmentMetadata}
    {bytes : List UInt8} (h : AttachmentMetadata.new lib m = .ok m)
    (hbytes : bytes.length = m.byteLength ∧
      AttachmentMediaType.detect bytes = some m.mediaType ∧ lib.sha256 bytes = m.sha256) :
    StoredAttachment.new lib m bytes = .ok ⟨m, bytes, h, hbytes⟩ := by
  unfold StoredAttachment.new
  split
  · next e he =>
    rw [h] at he
    cases he
  · next metadata hm =>
    rw [h] at hm
    cases hm
    rw [dif_pos hbytes]

namespace Database

variable {db : Database}

/-- The image of a row is decoded as it was stored. -/
theorem storedAttachment_toRow {lib : AttachmentLibrary} (attachment : StoredAttachment lib)
    (identity : Identity) : ∃ decoded, storedAttachment lib (attachment.toRow, identity) =
      .ok decoded ∧ decoded.toRow = attachment.toRow ∧
        decoded.metadata.createdBy = ⟨attachment.metadata.createdBy.id, identity⟩ := by
  have hmetadata := AttachmentMetadata.new_createdBy attachment.metadata_valid
    ⟨attachment.metadata.createdBy.id, identity⟩
  refine ⟨⟨_, attachment.bytes, hmetadata, attachment.bytes_valid⟩, ?_, rfl, rfl⟩
  refine Except.bind_eq_ok.mpr ⟨_, Except.mapError_eq_ok.mpr hmetadata, ?_⟩
  exact Except.mapError_eq_ok.mpr (StoredAttachment.new_eq_ok hmetadata attachment.bytes_valid)

theorem ImagesSound.exists_exportAttachments {lib : AttachmentLibrary} (h : db.ImagesSound lib) :
    ∃ attachments, db.exportAttachments lib = .ok attachments := by
  refine exists_mapM_withIdentity (Table.orderBy_perm.filterMap _) fun row hrow identity => ?_
  obtain ⟨attachment, rfl⟩ := h.stored row hrow
  obtain ⟨decoded, hdecoded, -⟩ := storedAttachment_toRow attachment identity
  exact ⟨decoded, hdecoded⟩

theorem BindingsWhole.corresponds_exportAttachments (hdb : db.BindingsWhole)
    {lib : AttachmentLibrary} (h : db.ImagesSound lib) {attachments : List (StoredAttachment lib)}
    (hattachments : db.exportAttachments lib = .ok attachments) :
    List.Corresponds db.AttachmentShown db.noteAttachments.rows attachments := by
  have hread := hdb.corresponds_withIdentity (R := fun row (decoded : StoredAttachment lib) =>
    ∃ identity, db.ShowsPrimary ⟨row.createdBy, identity⟩ ∧
      storedAttachment lib (row, identity) = .ok decoded) h.creator
    (Table.orderBy_perm.filterMap _) (fun hshows hdecoded => ⟨_, hshows, hdecoded⟩) hattachments
  obtain ⟨ordered, hordered, hread⟩ := hread
  have hstored := (List.forall₂_and_left (p := fun row => ∃ attachment : StoredAttachment lib,
    attachment.toRow = row) ordered attachments).mpr
    ⟨fun row hrow => h.stored row (hordered.mem_iff.mp hrow), hread⟩
  refine ⟨ordered, hordered, hstored.imp ?_⟩
  rintro row decoded ⟨⟨attachment, rfl⟩, identity, hshows, hdecoded⟩
  obtain ⟨decoded', hdecoded', hrow, hcreatedBy⟩ := storedAttachment_toRow attachment identity
  rw [hdecoded, Except.ok.injEq] at hdecoded'
  subst hdecoded'
  exact ⟨hrow, hcreatedBy ▸ hshows⟩

theorem exists_exportAttachmentReferences
    (hpositive : ∀ shown ∈ db.noteRevisionAttachments, shown.revision ≠ 0) :
    ∃ references, db.exportAttachmentReferences = .ok references :=
  Except.mapM_ok fun row hrow =>
    ⟨_, if_neg (hpositive row (Table.mem_orderBy.mp hrow))⟩

theorem corresponds_exportAttachmentReferences {references : List NoteRevisionAttachment}
    (hreferences : db.exportAttachmentReferences = .ok references) :
    List.Corresponds ReferenceShown db.noteRevisionAttachments.rows references := by
  refine ⟨_, Table.orderBy_perm, (Except.mapM_eq_ok.mp hreferences).imp fun row reference h => ?_⟩
  unfold revisionAttachment at h
  split_ifs at h
  cases h
  exact ⟨rfl, rfl, rfl⟩

/-! ### Principals -/

theorem mem_identitiesOf {q : PrincipalId} {row : IdentityRow} :
    row ∈ db.identitiesOf q ↔ row ∈ db.principalIdentities ∧ row.principalId = q := by
  rw [identitiesOf, Table.mem_orderBy, Table.mem_select, decide_eq_true_eq]

theorem nodup_identitiesOf (q : PrincipalId) : (db.identitiesOf q).Nodup :=
  Table.orderBy_perm.nodup_iff.mpr Table.nodup_select.of_map

theorem BindingsWhole.exportPrincipal (hdb : db.BindingsWhole) {row : PrincipalRow}
    (hrow : row ∈ db.principals) : ∃ principal,
      db.exportPrincipal row.principalId = .ok principal ∧ db.PrincipalShown row principal := by
  obtain ⟨primary, hprimary, hid, hmark⟩ := hdb.primary row hrow
  have hmem : primary ∈ db.identitiesOf row.principalId := mem_identitiesOf.mpr ⟨hprimary, hid⟩
  have hmarked : (db.identitiesOf row.principalId).filter IdentityRow.isPrimary = [primary] := by
    refine List.perm_singleton.mp ((List.perm_ext_iff_of_nodup
      ((nodup_identitiesOf row.principalId).filter _) (List.nodup_singleton _)).mpr fun other => ?_)
    rw [List.mem_filter, mem_identitiesOf, List.mem_singleton]
    constructor
    · rintro ⟨⟨hother, hid'⟩, hmark'⟩
      exact hdb.primary_unique other hother primary hprimary (hid'.trans hid.symm) hmark' hmark
    · rintro rfl
      exact ⟨⟨hprimary, hid⟩, hmark⟩
  have hidentities : ((db.identitiesOf row.principalId).map IdentityRow.identity).Nodup := by
    refine (List.nodup_map_iff_inj_on (nodup_identitiesOf _)).mpr fun a ha b hb heq => ?_
    exact hdb.bound a (mem_identitiesOf.mp ha).1 b (mem_identitiesOf.mp hb).1 heq
  have hshown := List.mem_map_of_mem (f := IdentityRow.identity) hmem
  refine ⟨⟨⟨row.principalId, primary.identity⟩, _, hshown, hidentities⟩, ?_, rfl, ?_, ?_⟩
  · unfold Database.exportPrincipal
    dsimp only
    rw [hmarked]
    dsimp only
    rw [Except.mapError_eq_ok, Principal.restore,
      dif_pos ⟨List.ne_nil_of_mem hshown, hshown, hidentities⟩]
  · exact hdb.primaryIdentity_eq_some.mpr ⟨primary, hprimary, hid, hmark, rfl⟩
  · intro identity
    rw [List.mem_map]
    simp only [mem_identitiesOf, and_assoc]

theorem BindingsWhole.exists_exportPrincipals (hdb : db.BindingsWhole) :
    ∃ principals, db.exportPrincipals = .ok principals := by
  refine Except.mapM_ok fun row hrow => ?_
  obtain ⟨principal, hprincipal, -⟩ := hdb.exportPrincipal (Table.mem_orderBy.mp hrow)
  exact ⟨principal, hprincipal⟩

theorem BindingsWhole.corresponds_exportPrincipals (hdb : db.BindingsWhole)
    {principals : List Principal} (hprincipals : db.exportPrincipals = .ok principals) :
    List.Corresponds db.PrincipalShown db.principals.rows principals := by
  have hread := (List.forall₂_and_left (p := fun row => row ∈ db.principals)
    (orderBy (fun row => row.principalId.get) db.principals.rows) principals).mpr
    ⟨fun row hrow => Table.mem_orderBy.mp hrow, Except.mapM_eq_ok.mp hprincipals⟩
  refine ⟨_, Table.orderBy_perm, hread.imp fun row principal ⟨hrow, hprincipal⟩ => ?_⟩
  obtain ⟨shown, hshown, h⟩ := hdb.exportPrincipal hrow
  rw [hprincipal, Except.ok.injEq] at hshown
  exact hshown ▸ h

/-! ### The reads together -/

variable {service : ServiceLibrary} {rows : SnapshotParts service.attachments service.imports.json}

theorem exportRows_eq_ok : db.exportRows service = .ok rows ↔
    db.exportNotes = .ok rows.notes ∧ db.exportAcl = rows.noteAcl ∧
      db.exportItems service.imports.json = .ok rows.items ∧
      db.exportSources = .ok rows.sources ∧ db.exportLinks = .ok rows.links ∧
      db.exportMathMacros service.macros = .ok rows.mathMacroSettings ∧
      db.exportPrincipals = .ok rows.principals ∧
      db.allNoteRevisions = .ok rows.noteRevisions ∧
      db.exportAttachments service.attachments = .ok rows.attachments ∧
      db.exportAttachmentReferences = .ok rows.attachmentReferences := by
  unfold exportRows
  simp only [Except.bind_eq_ok, Except.mapError_eq_ok]
  constructor
  · rintro ⟨notes, hnotes, items, hitems, sources, hsources, links, hlinks, settings, hsettings,
      principals, hprincipals, revisions, hrevisions, attachments, hattachments, references,
      hreferences, h⟩
    cases h
    exact ⟨hnotes, rfl, hitems, hsources, hlinks, hsettings, hprincipals, hrevisions,
      hattachments, hreferences⟩
  · rintro ⟨hnotes, hacl, hitems, hsources, hlinks, hsettings, hprincipals, hrevisions,
      hattachments, hreferences⟩
    refine ⟨_, hnotes, _, hitems, _, hsources, _, hlinks, _, hsettings, _, hprincipals, _,
      hrevisions, _, hattachments, _, hreferences, ?_⟩
    rw [hacl]
    rfl

/-- What is read from a sound store is what its tables hold. -/
theorem ServiceSound.exported (h : db.ServiceSound service)
    (hrows : db.exportRows service = .ok rows) : db.Exported rows := by
  obtain ⟨hnotes, hacl, hitems, hsources, hlinks, hsettings, hprincipals, hrevisions,
    hattachments, hreferences⟩ := exportRows_eq_ok.mp hrows
  exact ⟨h.notes.corresponds_exportNotes hnotes, hacl ▸ corresponds_exportAcl h.bindings h.notes,
    h.bindings.corresponds_exportItems h.library hitems,
    h.bindings.corresponds_exportSources h.imports hsources, corresponds_exportLinks hlinks,
    h.bindings.corresponds_exportMathMacros h.macros hsettings,
    h.bindings.corresponds_exportPrincipals hprincipals,
    h.notes.corresponds_allNoteRevisions hrevisions,
    h.bindings.corresponds_exportAttachments h.images hattachments,
    corresponds_exportAttachmentReferences hreferences⟩

/-- Every row of a sound store decodes, unless it is an item that was set back. -/
theorem ServiceSound.exists_exportRows (h : db.ServiceSound service)
    (hrereads : Rereads service.imports.json) : (∃ rows, db.exportRows service = .ok rows) ↔
      ∀ row ∈ db.bibliographyItems, row.createdAt ≤ row.updatedAt := by
  have hitems := h.library.exists_exportItems hrereads h.positive
  constructor
  · rintro ⟨rows, hrows⟩
    obtain ⟨-, -, hread, -⟩ := exportRows_eq_ok.mp hrows
    exact hitems.mp ⟨_, hread⟩
  · intro htimes
    obtain ⟨items, hitems⟩ := hitems.mpr htimes
    obtain ⟨notes, hnotes⟩ := h.notes.exists_exportNotes
    obtain ⟨sources, hsources⟩ := exists_exportSources h.imports
    obtain ⟨links, hlinks⟩ := exists_exportLinks h.imports fun link hlink => by
      obtain ⟨item, -, -, hpositive, -⟩ := h.library.exists_item hlink
      omega
    obtain ⟨settings, hsettings⟩ := exists_exportMathMacros h.macros
    obtain ⟨principals, hprincipals⟩ := h.bindings.exists_exportPrincipals
    obtain ⟨revisions, hrevisions⟩ := h.notes.exists_allNoteRevisions
    obtain ⟨attachments, hattachments⟩ := h.images.exists_exportAttachments
    have hpositive : ∀ shown ∈ db.noteRevisionAttachments, shown.revision ≠ 0 := by
      intro shown hshown
      obtain ⟨r, hr, hid, hrevision⟩ := h.history.shownBy shown hshown
      obtain ⟨note, -, -, -, hvalid, -⟩ := h.notes.history r hr
      rw [← hrevision]
      exact hvalid.check.1.ne'
    obtain ⟨references, hreferences⟩ := exists_exportAttachmentReferences hpositive
    exact ⟨⟨notes, db.exportAcl, revisions, items, sources, links, settings, principals,
      attachments, references⟩, exportRows_eq_ok.mpr ⟨hnotes, rfl, hitems, hsources, hlinks,
        hsettings, hprincipals, hrevisions, hattachments, hreferences⟩⟩

/-! ## What a row says of what was read -/

theorem NoteShown.noteId {row : NoteRow} {note : Note} (h : db.NoteShown row note) :
    note.noteId = row.noteId :=
  congrArg NoteRow.noteId h.toRow

theorem ItemShown.toRow {json : JsonCodec} {row : BibliographyItemRow}
    {item : BibliographyItem json} (h : db.ItemShown row item) :
    item.toRow = { row with cslJson := item.cslJson } := by
  obtain ⟨identity, hdecodes⟩ := h.decodes
  obtain ⟨-, -, -, csl, -, hrow⟩ := decodeItem_eq_ok.mp hdecodes
  have htext : item.cslJson = csl.encoded := congrArg BibliographyItemRow.cslJson hrow
  rw [htext, hrow]

theorem ItemShown.itemId {json : JsonCodec} {row : BibliographyItemRow}
    {item : BibliographyItem json} (h : db.ItemShown row item) : item.itemId = row.itemId :=
  congrArg BibliographyItemRow.itemId h.toRow

theorem ItemShown.owner {json : JsonCodec} {row : BibliographyItemRow}
    {item : BibliographyItem json} (h : db.ItemShown row item) : item.owner.id = row.owner :=
  congrArg BibliographyItemRow.owner h.toRow

theorem SourceShown.sourceId {row : ImportSourceRow} {source : BibliographyImportSource}
    (h : db.SourceShown row source) : source.sourceId = row.sourceId :=
  congrArg ImportSourceRow.sourceId h.toRow

theorem RevisionShown.noteId {row : NoteRevisionRow} {entry : NoteRevisionSnapshot}
    (h : db.RevisionShown row entry) : entry.note.noteId = row.noteId := by
  obtain ⟨note, -, hshown⟩ := h.note
  exact hshown.noteId

theorem RevisionShown.revision {row : NoteRevisionRow} {entry : NoteRevisionSnapshot}
    (h : db.RevisionShown row entry) : entry.note.revision = row.revision := by
  obtain ⟨note, -, hshown⟩ := h.note
  exact congrArg NoteRow.revision hshown.toRow

theorem AttachmentShown.attachmentId {lib : AttachmentLibrary} {row : AttachmentRow}
    {attachment : StoredAttachment lib} (h : db.AttachmentShown row attachment) :
    attachment.metadata.attachmentId = row.attachmentId :=
  congrArg AttachmentRow.attachmentId h.toRow

theorem AttachmentShown.noteId {lib : AttachmentLibrary} {row : AttachmentRow}
    {attachment : StoredAttachment lib} (h : db.AttachmentShown row attachment) :
    attachment.metadata.noteId = row.noteId :=
  congrArg AttachmentRow.noteId h.toRow

/-- References that show the primary identity of one principal are equal. -/
theorem ShowsPrimary.unique {a b : PrincipalRef} (ha : db.ShowsPrimary a)
    (hb : db.ShowsPrimary b) (h : a.id = b.id) : a = b := by
  obtain ⟨id, identity⟩ := a
  obtain ⟨id', identity'⟩ := b
  cases h
  unfold ShowsPrimary at ha hb
  dsimp only at ha hb
  rw [ha, Option.some.injEq] at hb
  rw [hb]

/-- Whatever is read from one row are the same values. -/
theorem NoteShown.sameValues {row : NoteRow} {a b : Note} (ha : db.NoteShown row a)
    (hb : db.NoteShown row b) : a.SameValues b := by
  have hrow : a.toRow = b.toRow := ha.toRow.trans hb.toRow.symm
  obtain ⟨⟨noteId, owner, ⟨title, source, tags⟩, createdAt, updatedAt, revision, deletedAt,
    createdVia, review⟩, _⟩ := a
  obtain ⟨⟨noteId', owner', ⟨title', source', tags'⟩, createdAt', updatedAt', revision',
    deletedAt', createdVia', review'⟩, _⟩ := b
  simp only [Note.toRow, NoteRow.mk.injEq] at hrow
  obtain ⟨rfl, howner, rfl, rfl, rfl, rfl, rfl, rfl, rfl, rfl, hknown, hreview⟩ := hrow
  refine ⟨howner, rfl, ?_⟩
  cases review with
  | unknown =>
    cases review' with
    | unknown => trivial
    | tracked last => simp at hknown
  | tracked last =>
    cases review' with
    | unknown => simp at hknown
    | tracked last' =>
      cases last <;> cases last' <;>
        simp [NoteReviewTracking.lastReview, PrincipalRef.Same] at hreview ⊢
      exact hreview

/-- A history that ends with the note and counts up is complete. -/
theorem isCompleteHistory_of {history : List NoteRevisionSnapshot} {latest : NoteRevisionSnapshot}
    {current : Note} {start n : ℕ} (hlast : history.getLast? = some latest)
    (hsame : latest.note.SameValues current)
    (hmap : history.map (fun entry => entry.note.revision) = List.range' start n) :
    LogicalSnapshot.isCompleteHistory history current = true := by
  have hsteps : ∀ pair ∈ history.zip history.tail,
      pair.2.note.revision = pair.1.note.revision + 1 := by
    clear hlast
    induction history generalizing start n with
    | nil => simp
    | cons first rest ih =>
      cases n with
      | zero => simp at hmap
      | succ n =>
        rw [List.map_cons, List.range'_succ, List.cons.injEq] at hmap
        cases rest with
        | nil => simp
        | cons second rest =>
          intro pair hpair
          rw [List.tail_cons, List.zip_cons_cons, List.mem_cons] at hpair
          rcases hpair with rfl | hpair
          · cases n with
            | zero => simp at hmap
            | succ n =>
              rw [List.map_cons, List.range'_succ, List.cons.injEq] at hmap
              rw [hmap.2.1, hmap.1]
          · exact ih hmap.2 pair hpair
  unfold LogicalSnapshot.isCompleteHistory
  rw [hlast]
  simpa [hsame] using hsteps

section Fits

open LogicalSnapshot

variable {rows : SnapshotParts service.attachments service.imports.json} (hrows : db.Exported rows)
include hrows

/-! ### Notes and grants -/

theorem Exported.notesFit (h : db.ServiceSound service) : NotesFit rows.notes rows.noteAcl where
  ids := hrows.notes.nodup_map (fun _ _ hshown => hshown.noteId) db.notes.nodup
  keys := hrows.noteAcl.nodup_map (fun _ _ hshown => Prod.ext hshown.noteId hshown.principal)
    db.noteAcl.nodup
  granted := by
    intro entry hentry
    obtain ⟨row, hrow, hshown⟩ := hrows.noteAcl.exists_left hentry
    obtain ⟨note, hnote, hcreator⟩ := h.grants row hrow
    have hid : note.noteId = row.noteId := Table.key_of_find hnote
    obtain ⟨current, hmem, hcurrent⟩ := hrows.notes.exists_right (Table.mem_of_find hnote)
    have howner : current.owner.id = note.creator := congrArg NoteRow.creator hcurrent.toRow
    refine ⟨current, hmem, hcurrent.noteId.trans (hid.trans hshown.noteId.symm), ?_⟩
    unfold PrincipalRef.Same
    rw [hshown.principal, howner]
    exact Ne.symm hcreator

/-! ### History -/

/-- The history of a note is there without a gap, and ends with the note. -/
theorem Exported.isCompleteHistory (h : db.ServiceSound service) {current : Note}
    (hcurrent : current ∈ rows.notes) : isCompleteHistory
      ((sortedRevisions rows.noteRevisions).filter fun entry =>
        entry.note.noteId = current.noteId) current = true := by
  obtain ⟨note, hnote, hshown⟩ := hrows.notes.exists_left hcurrent
  have hnote : note ∈ db.notes := hnote
  have hrevisions : List.Corresponds db.RevisionShown db.noteRevisions.rows
      (sortedRevisions rows.noteRevisions) :=
    hrows.noteRevisions.perm_right Table.orderBy_perm.symm
  set history := (sortedRevisions rows.noteRevisions).filter fun entry =>
    entry.note.noteId = current.noteId
  have hrelated : List.Corresponds db.RevisionShown
      (db.noteRevisions.select fun r => r.noteId = note.noteId) history := by
    refine hrevisions.filter fun r entry hentry => ?_
    rw [hentry.noteId, hshown.noteId]
  have hsorted : history.Pairwise fun a b => a.note.revision ≤ b.note.revision := by
    have hlex := (Table.pairwise_orderBy (g := fun entry : NoteRevisionSnapshot =>
      toLex (entry.note.noteId.entityId, entry.note.revision))
      (l := rows.noteRevisions)).filter fun entry => decide (entry.note.noteId = current.noteId)
    refine hlex.imp_of_mem fun {a b} ha hb hab => ?_
    have ha' : a.note.noteId = current.noteId := by simpa using (List.mem_filter.mp ha).2
    have hb' : b.note.noteId = current.noteId := by simpa using (List.mem_filter.mp hb).2
    rw [ha', hb', Prod.Lex.toLex_le_toLex] at hab
    rcases hab with hlt | ⟨-, hle⟩
    · exact absurd hlt (lt_irrefl _)
    · exact hle
  have hperm : (history.map fun entry => entry.note.revision).Perm
      ((db.noteRevisions.select fun r => r.noteId = note.noteId).map NoteRevisionRow.revision) :=
    hrelated.map_perm fun _ _ hentry => hentry.revision
  obtain ⟨first, -, hfirst, hrange⟩ := h.history.map_historyOf hnote
  have horder : (history.map fun entry => entry.note.revision).Perm
      (List.range' first (note.revision + 1 - first)) := by
    rw [← hrange]
    exact hperm.trans (Table.orderBy_perm.map _).symm
  have hmap : history.map (fun entry => entry.note.revision) =
      List.range' first (note.revision + 1 - first) := by
    refine horder.eq_of_pairwise (fun _ _ _ _ => le_antisymm) (List.pairwise_map.mpr hsorted) ?_
    exact List.pairwise_le_range'
  cases hlast : history.getLast? with
  | none =>
    rw [List.getLast?_eq_none_iff.mp hlast, List.map_nil, eq_comm, List.range'_eq_nil_iff] at hmap
    omega
  | some latest =>
    refine isCompleteHistory_of hlast ?_ hmap
    obtain ⟨r, hr, hentry⟩ := hrelated.exists_left (List.mem_of_getLast? hlast)
    obtain ⟨hr, hid⟩ := Table.mem_select.mp hr
    rw [decide_eq_true_eq] at hid
    have hrevision : r.revision = note.revision := by
      have hlast' := congrArg List.getLast? hmap
      rw [List.getLast?_map, hlast, List.getLast?_range', if_neg (by omega)] at hlast'
      simp only [Option.map_some, Option.some.injEq] at hlast'
      have hlatest := hentry.revision
      omega
    obtain ⟨changedBy, kind, hlatest⟩ := h.history.latest note hnote
    obtain rfl : r = note.toRevisionRow changedBy kind :=
      Table.eq_of_key_eq hr hlatest (Prod.ext hid hrevision)
    obtain ⟨note', hnote', hstate⟩ := hentry.note
    have hfind : db.notes.find note.noteId = some note := Table.find_of_mem hnote
    rw [show db.notes.find (note.toRevisionRow changedBy kind).noteId = some note from hfind,
      Option.some.injEq] at hnote'
    subst hnote'
    exact hstate.sameValues hshown

theorem Exported.revisionsFit (h : db.ServiceSound service) :
    RevisionsFit rows.notes rows.noteRevisions where
  keys := hrows.noteRevisions.nodup_map
    (fun _ _ hshown => Prod.ext hshown.noteId hshown.revision) db.noteRevisions.nodup
  ofNote := by
    intro entry hentry
    obtain ⟨row, hrow, hshown⟩ := hrows.noteRevisions.exists_left hentry
    obtain ⟨note, hnote, hstate⟩ := hshown.note
    have hid : note.noteId = row.noteId := Table.key_of_find hnote
    obtain ⟨current, hmem, hcurrent⟩ := hrows.notes.exists_right (Table.mem_of_find hnote)
    obtain ⟨first, -, hrevisions⟩ := h.history.revisions note (Table.mem_of_find hnote)
    have hle := ((hrevisions row.revision).mp ⟨row, hrow, hid.symm, rfl⟩).2
    have hcurrentRevision : current.revision = note.revision :=
      congrArg NoteRow.revision hcurrent.toRow
    have hrevision := hshown.revision
    refine ⟨current, hmem, ?_, ?_, ?_, ?_, by omega⟩
    · rw [hcurrent.noteId, hid, hshown.noteId]
    · exact (congrArg NoteRow.creator hstate.toRow).trans
        (congrArg NoteRow.creator hcurrent.toRow).symm
    · exact (congrArg NoteRow.createdAt hstate.toRow).trans
        (congrArg NoteRow.createdAt hcurrent.toRow).symm
    · exact (congrArg NoteRow.createdVia hstate.toRow).trans
        (congrArg NoteRow.createdVia hcurrent.toRow).symm
  complete := fun _ hcurrent => hrows.isCompleteHistory h hcurrent

/-! ### Libraries and macros -/

theorem Exported.libraryFits (h : db.ServiceSound service) :
    LibraryFits rows.items rows.sources rows.links where
  itemIds := hrows.items.nodup_map (fun _ _ hshown => hshown.itemId) db.bibliographyItems.nodup
  itemKeys := by
    have hnodup :
        (db.bibliographyItems.rows.map fun row => (row.owner, row.citationKey)).Nodup := by
      refine (List.nodup_map_iff_inj_on db.bibliographyItems.nodup.of_map).mpr ?_
      intro a ha b hb heq
      exact h.library.keys a ha b hb (congrArg Prod.fst heq) (congrArg Prod.snd heq)
    refine hrows.items.nodup_map (fun row item hshown => ?_) hnodup
    exact Prod.ext hshown.owner (congrArg BibliographyItemRow.citationKey hshown.toRow)
  sourceIds := hrows.sources.nodup_map (fun _ _ hshown => hshown.sourceId)
    db.bibliographyImportSources.nodup
  linkKeys := by
    refine hrows.links.nodup_map (fun row link hshown => ?_) db.bibliographyImportLinks.nodup
    exact Prod.ext (congrArg ImportLinkRow.sourceId hshown)
      (congrArg ImportLinkRow.externalItemId hshown)
  linked := by
    intro link hlink
    obtain ⟨row, hrow, hshown⟩ := hrows.links.exists_left hlink
    have hrow' : link.toRow row.owner = row := hshown
    have hsourceId : link.sourceId = row.sourceId := congrArg ImportLinkRow.sourceId hrow'
    have hitemId : link.itemId = row.itemId := congrArg ImportLinkRow.itemId hrow'
    have hrevision : link.importedItemRevision = row.importedItemRevision :=
      congrArg ImportLinkRow.importedItemRevision hrow'
    obtain ⟨⟨source, hsource, hsourceOwner⟩, -⟩ := h.library.references row hrow
    obtain ⟨item, hitem, hitemOwner, -, hle⟩ := h.library.exists_item hrow
    have hsourceKey : source.sourceId = row.sourceId := Table.key_of_find hsource
    have hitemKey : item.itemId = row.itemId := Table.key_of_find hitem
    obtain ⟨shownSource, hmemSource, hsourceShown⟩ :=
      hrows.sources.exists_right (Table.mem_of_find hsource)
    obtain ⟨shownItem, hmemItem, hitemShown⟩ :=
      hrows.items.exists_right (Table.mem_of_find hitem)
    have howner : shownSource.owner.id = source.owner :=
      congrArg ImportSourceRow.owner hsourceShown.toRow
    have hshownRevision : shownItem.revision = item.revision :=
      congrArg BibliographyItemRow.revision hitemShown.toRow
    refine ⟨shownSource, hmemSource, ?_, shownItem, hmemItem, ?_, ?_, by omega⟩
    · rw [hsourceShown.sourceId, hsourceKey, hsourceId]
    · rw [hitemShown.itemId, hitemKey, hitemId]
    · unfold PrincipalRef.Same
      rw [howner, hitemShown.owner, hsourceOwner, hitemOwner]

theorem Exported.settingsFit : SettingsFit rows.mathMacroSettings where
  owners := hrows.mathMacroSettings.nodup_map (fun _ _ hshown => hshown.owner)
    db.mathMacroSettings.nodup
  valid := by
    intro entry hentry
    obtain ⟨row, -, hshown⟩ := hrows.mathMacroSettings.exists_left hentry
    have hdecodes := hshown.decodes
    unfold decodeSettings at hdecodes
    split_ifs at hdecodes with hpositive
    split at hdecodes
    · cases hdecodes
    next macros hmacros =>
    split at hdecodes
    · cases hdecodes
    next haccepted =>
    rw [(Except.ok.inj hdecodes).symm]
    refine ⟨?_, haccepted⟩
    dsimp only
    omega

/-! ### Principals and images -/

theorem Exported.principalsDistinct (h : db.ServiceSound service) :
    DistinctPrincipals rows.principals := by
  have hids : (rows.principals.map fun principal => principal.reference.id).Nodup :=
    hrows.principals.nodup_map (fun _ _ hshown => hshown.id) db.principals.nodup
  refine ⟨hids, (List.pairwise_map.mp hids).imp_of_mem fun {a b} ha hb hne identity hida hidb => ?_⟩
  obtain ⟨row, -, hrow⟩ := hrows.principals.exists_left ha
  obtain ⟨row', -, hrow'⟩ := hrows.principals.exists_left hb
  obtain ⟨bound, hbound, hid, heq⟩ := (hrow.identities identity).mp hida
  obtain ⟨bound', hbound', hid', heq'⟩ := (hrow'.identities identity).mp hidb
  have hsame := h.bindings.bound bound hbound bound' hbound' (heq.trans heq'.symm)
  rw [hrow.id, hrow'.id, ← hid, ← hid', hsame] at hne
  exact hne rfl

/-- Whoever is shown by the primary identity is among the principals. -/
theorem Exported.knows (h : db.ServiceSound service) {reference : PrincipalRef}
    (hshows : db.ShowsPrimary reference) : Knows rows.principals reference := by
  obtain ⟨row, hrow⟩ := h.bindings.known hshows
  have hid : row.principalId = reference.id := Table.key_of_find hrow
  obtain ⟨principal, hmem, hprincipal⟩ := hrows.principals.exists_right (Table.mem_of_find hrow)
  exact ⟨principal, hmem, hprincipal.shows.unique hshows (hprincipal.id.trans hid)⟩

theorem Exported.refers : rows.logicalSnapshot.Refers db.ShowsPrimary where
  notes := by
    intro note hnote
    obtain ⟨row, -, hshown⟩ := hrows.notes.exists_left hnote
    exact ⟨hshown.owner, hshown.reviewer⟩
  noteRevisions := by
    intro entry hentry
    obtain ⟨row, -, hshown⟩ := hrows.noteRevisions.exists_left (Table.mem_orderBy.mp hentry)
    obtain ⟨note, -, hstate⟩ := hshown.note
    exact ⟨hshown.shows, hstate.reviewer⟩
  attachments := by
    intro attachment hattachment
    obtain ⟨row, -, hshown⟩ := hrows.attachments.exists_left (Table.mem_orderBy.mp hattachment)
    exact hshown.shows
  noteAcl := by
    intro entry hentry
    obtain ⟨row, -, hshown⟩ := hrows.noteAcl.exists_left hentry
    exact hshown.shows
  items := by
    intro item hitem
    obtain ⟨row, -, hshown⟩ := hrows.items.exists_left hitem
    exact hshown.shows
  sources := by
    intro source hsource
    obtain ⟨row, -, hshown⟩ := hrows.sources.exists_left hsource
    exact hshown.shows
  mathMacroSettings := by
    intro entry hentry
    obtain ⟨row, -, hshown⟩ := hrows.mathMacroSettings.exists_left hentry
    exact hshown.shows

theorem Exported.attachmentsFit (h : db.ServiceSound service) : AttachmentsFit rows.notes
    rows.noteRevisions rows.attachments rows.attachmentReferences := by
  have hofNote : ∀ noteId, List.Corresponds db.AttachmentShown (db.attachmentsOf noteId)
      (rows.attachments.filter fun attachment => attachment.metadata.noteId = noteId) := by
    intro noteId
    refine hrows.attachments.filter fun row attachment hshown => ?_
    rw [hshown.noteId]
  refine ⟨?_, ?_, ?_, ?_, ?_, ?_, ?_⟩
  · exact hrows.attachments.nodup_map (fun _ _ hshown => hshown.attachmentId)
      db.noteAttachments.nodup
  · intro attachment hattachment
    obtain ⟨row, hrow, hshown⟩ := hrows.attachments.exists_left hattachment
    obtain ⟨note, hnote, hnoteId⟩ := h.images.note row hrow
    obtain ⟨current, hmem, hcurrent⟩ := hrows.notes.exists_right hnote
    refine List.mem_map.mpr ⟨current, hmem, ?_⟩
    rw [hcurrent.noteId, hnoteId, hshown.noteId]
  · intro noteId
    have hlength := ((hofNote noteId).map_perm (f := AttachmentRow.attachmentId)
      fun _ _ hshown => hshown.attachmentId).length_eq
    rw [List.length_map, List.length_map] at hlength
    rw [hlength]
    exact (h.images.limits noteId).1
  · intro noteId
    have hbytes := ((hofNote noteId).map_perm (f := AttachmentRow.byteLength)
      (g := fun attachment => attachment.metadata.byteLength)
      fun _ _ hshown => congrArg AttachmentRow.byteLength hshown.toRow).sum_eq
    rw [hbytes]
    exact (h.images.limits noteId).2
  · have hnodup := hrows.attachmentReferences.nodup_map (g := fun reference =>
      (⟨reference.noteId, reference.revision, reference.attachmentId⟩ : RevisionAttachmentRow))
      (fun row reference ⟨hnote, hrevision, hid⟩ => ?_) db.noteRevisionAttachments.nodup
    · exact hnodup.of_map
    · rw [hnote, hrevision, hid]
      rfl
  · intro reference hreference
    obtain ⟨row, hrow, hnote, hrevision, -⟩ := hrows.attachmentReferences.exists_left hreference
    obtain ⟨r, hr, hrnote, hrrevision⟩ := h.history.shownBy row hrow
    obtain ⟨entry, hentry, hstate⟩ := hrows.noteRevisions.exists_right hr
    refine List.mem_map.mpr ⟨entry, hentry, Prod.ext ?_ ?_⟩
    · exact hstate.noteId.trans (hrnote.trans hnote.symm)
    · exact hstate.revision.trans (hrrevision.trans hrevision.symm)
  · intro reference hreference
    obtain ⟨row, hrow, hnote, -, hid⟩ := hrows.attachmentReferences.exists_left hreference
    obtain ⟨attachment, hattachment, hattachmentId, hattachmentNote⟩ := h.history.stored row hrow
    obtain ⟨shown, hmem, hshown⟩ := hrows.attachments.exists_right hattachment
    refine ⟨shown, hmem, ?_, ?_⟩
    · rw [hshown.attachmentId, hattachmentId, hid]
    · rw [hshown.noteId, hattachmentNote, hnote]

/-- What a sound store holds fits together. -/
theorem Exported.fits (h : db.ServiceSound service) : rows.Fits where
  notes := hrows.notesFit h
  revisions := hrows.revisionsFit h
  library := hrows.libraryFits h
  settings := hrows.settingsFit
  principals := hrows.principalsDistinct h
  references := hrows.refers.imp fun _ hshows => hrows.knows h hshows
  attachments := hrows.attachmentsFit h

end Fits

/-! ## The snapshot -/

/-- The constructors accept whatever a sound store exports. -/
theorem ServiceSound.exportArchiveSnapshot_eq_ok (h : db.ServiceSound service)
    {s : LogicalSnapshot service.attachments service.imports.json} :
    db.exportArchiveSnapshot service = .ok s ↔
      ∃ rows, db.exportRows service = .ok rows ∧ s = rows.logicalSnapshot := by
  unfold exportArchiveSnapshot
  rw [Except.bind_eq_ok]
  refine exists_congr fun rows => and_congr_right fun hrows => ?_
  rw [Except.mapError_eq_ok, SnapshotParts.snapshot_eq_ok_iff]
  exact and_iff_right ((h.exported hrows).fits h)

end Database

end Marginalis
