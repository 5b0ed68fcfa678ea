import Marginalis.ArchivePrincipals

/-!
# Archives that are read back

Every record is read as the entry it was written for, restated. So what is read from the archive of
a snapshot is that snapshot restated, in another order, and it has the same archive
(`archive_round_trip`). The images of a revision are those its source names, and a revision takes
its owner and its creation from its note.
-/

namespace Marginalis

open LogicalSnapshot
open Table (orderBy)

/-- A sorted list without duplicates is what its elements are sorted to. -/
theorem destutter_orderBy_eq {ω : Type*} [LinearOrder ω] {l l' : List ω} (hnodup : l'.Nodup)
    (hsorted : l'.Pairwise (· ≤ ·)) (hmem : ∀ a, a ∈ l ↔ a ∈ l') :
    (orderBy id l).destutter (· ≠ ·) = l' := by
  have hsort : (orderBy id l).Pairwise (· ≤ ·) := Table.pairwise_orderBy
  have hperm : (orderBy id l).dedup.Perm l' :=
    (List.perm_ext_iff_of_nodup (List.nodup_dedup _) hnodup).mpr fun a => by
      rw [List.mem_dedup, Table.mem_orderBy, hmem]
  rw [hsort.destutter_eq_dedup]
  exact hperm.eq_of_pairwise (fun _ _ _ _ => le_antisymm)
    (hsort.sublist (List.dedup_sublist _)) hsorted

/-- A note is restored as it is restated. -/
theorem Note.restore_restate {r : Restatement} (note : Note) :
    Note.restore
      { noteId := note.noteId
        owner := note.owner.restate r
        draft := r.draft note.draft
        createdAt := note.createdAt
        updatedAt := note.updatedAt
        revision := note.revision
        deletedAt := note.deletedAt
        createdVia := note.createdVia
        review := note.review.restate r } = some (note.restate r) :=
  Note.restore_eq_some.mpr rfl

/-- A document that is read again is the one its text was printed from. -/
theorem BibliographyItem.Rereads.exists_parse {json : JsonCodec} {item : BibliographyItem json}
    (h : item.Rereads) :
    ∃ value, json.parse item.cslJson = some value ∧ json.encode value = item.cslJson := by
  obtain ⟨csl, hcsl, htext⟩ := h
  unfold ValidatedCslJson.fromEncoded at hcsl
  split at hcsl
  · cases hcsl
  · next value hparse =>
    obtain ⟨validated, hnew, hcsl⟩ := Except.bind_eq_ok.mp hcsl
    have hvalue := ValidatedCslJson.new_eq_ok.mp hnew
    split_ifs at hcsl with hkey
    · cases hcsl
    · cases hcsl
      exact ⟨value, hparse, by rw [← hvalue, ← csl.encoded_eq, htext]⟩

/-- Stored macros have at most nine arguments. -/
theorem argumentCount_le {macros : List MathMacro}
    (h : validateStoredMathMacros macros = .ok ()) : ∀ item ∈ macros, item.argumentCount ≤ 9 := by
  intro item hitem
  unfold validateStoredMathMacros at h
  split_ifs at h with hsize
  have hstorable := (validateEach_eq_ok.mp h).1 item hitem
  unfold MathMacro.storable at hstorable
  simp only [Bool.and_eq_true, decide_eq_true_eq] at hstorable
  exact hstorable.1.2

theorem forall₂_filterMap {α β : Type} {f : α → Option β} {l : List α}
    (h : ∀ a ∈ l, ∃ b, f a = some b) :
    List.Forall₂ (fun a b => f a = some b) l (l.filterMap f) := by
  induction l with
  | nil => exact .nil
  | cons a l ih =>
    obtain ⟨b, hb⟩ := h a List.mem_cons_self
    rw [List.filterMap_cons_some hb]
    exact .cons hb (ih fun a ha => h a (List.mem_cons_of_mem _ ha))

namespace ArchiveLibrary

variable {lib : ArchiveLibrary}

/-! ## Images -/

/-- The images of a revision, in the order of an archive. -/
def shownBy (references : List NoteRevisionAttachment) (entry : NoteRevisionSnapshot) :
    List NoteRevisionAttachment :=
  orderBy (fun reference => entityIdText reference.attachmentId.entityId)
    (references.filter fun reference =>
      reference.noteId = entry.note.noteId ∧ reference.revision = entry.note.revision)

variable {references : List NoteRevisionAttachment} {entry : NoteRevisionSnapshot}

theorem mem_shownBy {reference : NoteRevisionAttachment} : reference ∈ shownBy references entry ↔
    reference ∈ references ∧ reference.noteId = entry.note.noteId ∧
      reference.revision = entry.note.revision := by
  rw [shownBy, Table.mem_orderBy, List.mem_filter, decide_eq_true_eq]

theorem nodup_shownBy (h : references.Nodup) : (shownBy references entry).Nodup :=
  Table.orderBy_perm.nodup_iff.mpr (h.filter _)

/-- Every image of a revision is shown by exactly one of them. -/
theorem flatMap_shownBy {revisions : List NoteRevisionSnapshot} (hnodup : references.Nodup)
    (hkeys : (revisions.map fun entry => (entry.note.noteId, entry.note.revision)).Nodup)
    (hof : ∀ reference ∈ references, (reference.noteId, reference.revision) ∈
      revisions.map fun entry => (entry.note.noteId, entry.note.revision)) :
    (revisions.flatMap (shownBy references)).Perm references := by
  have hdisjoint : revisions.Pairwise fun a b =>
      (shownBy references a).Disjoint (shownBy references b) := by
    refine (List.pairwise_map.mp hkeys).imp fun hne reference hfirst hsecond => hne ?_
    obtain ⟨-, hnote, hrevision⟩ := mem_shownBy.mp hfirst
    obtain ⟨-, hnote', hrevision'⟩ := mem_shownBy.mp hsecond
    exact Prod.ext (hnote.symm.trans hnote') (hrevision.symm.trans hrevision')
  refine (List.perm_ext_iff_of_nodup (List.nodup_flatMap.mpr
    ⟨fun entry _ => nodup_shownBy hnodup, hdisjoint⟩) hnodup).mpr fun reference => ?_
  rw [List.mem_flatMap]
  constructor
  · rintro ⟨entry, -, hshown⟩
    exact (mem_shownBy.mp hshown).1
  · intro hreference
    obtain ⟨entry, hentry, heq⟩ := List.mem_map.mp (hof reference hreference)
    obtain ⟨hnote, hrevision⟩ := Prod.mk.inj heq
    exact ⟨entry, hentry, mem_shownBy.mpr ⟨hreference, hnote.symm, hrevision.symm⟩⟩

/-- The images that are declared for a revision are those that its source names. -/
theorem readAttachmentReferences_toArchive (hlib : lib.Rereads) {validated : ValidatedNoteDraft}
    (hnodup : references.Nodup)
    (hids : ∀ reference ∈ references, IsVersion7 reference.attachmentId.entityId)
    (hid : IsVersion7 entry.note.noteId.entityId) (hpositive : 0 < entry.note.revision)
    (hsource : lib.validateSource entry.note.draft.source = some validated)
    (hshown : ∀ attachmentId, (∃ query ∈ validated.attachmentQueries,
      query.attachmentId = attachmentId) ↔
        ⟨entry.note.noteId, entry.note.revision, attachmentId⟩ ∈ references) :
    lib.readAttachmentReferences (entry.toArchive references).canonical =
      some (shownBy references entry) := by
  set text := fun reference : NoteRevisionAttachment =>
    entityIdText reference.attachmentId.entityId with htext
  have hdeclared : (entry.toArchive references).canonical.attachmentIds =
      (shownBy references entry).map text := Table.orderBy_map
  have hsorted : ((shownBy references entry).map text).Pairwise (· ≤ ·) :=
    List.pairwise_map.mpr Table.pairwise_orderBy
  have hkeys : ((shownBy references entry).map text).Nodup := by
    refine (nodup_shownBy hnodup).map_on fun a ha b hb heq => ?_
    obtain ⟨hmema, hnotea, hrevisiona⟩ := mem_shownBy.mp ha
    obtain ⟨hmemb, hnoteb, hrevisionb⟩ := mem_shownBy.mp hb
    have hsame : a.attachmentId.entityId = b.attachmentId.entityId :=
      entityIdText_inj (hids a hmema).1 (hids b hmemb).1 heq
    exact NoteRevisionAttachment.mk.injEq .. ▸ ⟨hnotea.trans hnoteb.symm,
      hrevisiona.trans hrevisionb.symm, congrArg AttachmentId.mk hsame⟩
  have hexpected : (orderBy id (validated.attachmentQueries.map fun query =>
      entityIdText query.attachmentId.entityId)).destutter (· ≠ ·) =
        (shownBy references entry).map text := by
    refine destutter_orderBy_eq hkeys hsorted fun named => ?_
    simp only [List.mem_map, mem_shownBy]
    constructor
    · rintro ⟨query, hquery, rfl⟩
      exact ⟨_, ⟨(hshown query.attachmentId).mp ⟨query, hquery, rfl⟩, rfl, rfl⟩, rfl⟩
    · rintro ⟨⟨noteId, revision, attachmentId⟩, ⟨hreference, hnote, hrevision⟩, rfl⟩
      obtain rfl : noteId = entry.note.noteId := hnote
      obtain rfl : revision = entry.note.revision := hrevision
      obtain ⟨query, hquery, rfl⟩ := (hshown attachmentId).mpr hreference
      exact ⟨query, hquery, rfl⟩
  have hread : ((shownBy references entry).map text).mapM (fun attachmentId =>
      (lib.parseEntityId attachmentId).map fun attachmentId : ℕ =>
        (⟨⟨entry.note.noteId.entityId⟩, entry.note.revision, ⟨attachmentId⟩⟩ :
          NoteRevisionAttachment)) = some (shownBy references entry) := by
    rw [List.mapM_map]
    refine (Option.mapM_eq_some (g := id) fun reference hreference => ?_).trans
      (congrArg some (List.map_id _))
    obtain ⟨hmem, hnote, hrevision⟩ := mem_shownBy.mp hreference
    rw [Function.comp_apply, hlib.parseEntityId (hids reference hmem), Option.map_some, ← hrevision]
    exact congrArg some (NoteRevisionAttachment.mk.injEq .. ▸ ⟨hnote.symm, rfl, rfl⟩)
  have hnoteId : lib.parseEntityId (entry.toArchive references).canonical.noteId =
      some entry.note.noteId.entityId := hlib.parseEntityId hid
  have hrevision : readRevision (entry.toArchive references).canonical.revision =
      some entry.note.revision := readRevision_cast hpositive
  have hvalidated : lib.validateSource (entry.toArchive references).canonical.source =
      some validated := hsource
  unfold readAttachmentReferences
  simp only [hnoteId, hrevision, hvalidated, Option.bind_eq_bind, Option.bind_some, hdeclared,
    hexpected]
  have horder : orderBy id ((shownBy references entry).map text) =
      (shownBy references entry).map text := Table.orderBy_eq_self hsorted
  rw [horder, if_neg, hread]
  simpa using hkeys.isChain

/-! ## Entries -/

/-- A reader finds every principal by its primary identity, under its new number. -/
def Finds (lib : ArchiveLibrary) (r : Restatement) (principals read : List Principal) : Prop :=
  ∀ reference, Knows principals reference → lib.principalRef read reference.primaryIdentity.issuer
    reference.primaryIdentity.subject = some (reference.restate r)

section Entries

variable {attachmentLib : AttachmentLibrary} {json : JsonCodec} {r : Restatement}
  {principals read : List Principal} (hlib : lib.Rereads) (hfinds : lib.Finds r principals read)

include hfinds in
theorem archiveReview_provenance {note : Note} (hrefers : NoteRefers (Knows principals) note)
    (hcount : ∀ review ∈ note.review.lastReview, 0 < review.revision) :
    lib.archiveReview read (note.owner.restate r) note.provenance.reviewTrackingKnown
      note.provenance.reviewedRevision note.provenance.reviewedAt
      note.provenance.reviewerIssuer note.provenance.reviewerSubject =
        some (note.review.restate r) := by
  have hconsistent := note.consistent.2.2
  unfold Note.provenance
  cases hreview : note.review with
  | unknown => rfl
  | tracked lastReview =>
    cases lastReview with
    | none => rfl
    | some review =>
      have hlast : review ∈ note.review.lastReview := by
        rw [hreview]
        exact rfl
      have howner : (review.reviewer.restate r).Same (note.owner.restate r) :=
        (hconsistent review hlast).2.2.2.restate
      have hfound := hfinds _ (hrefers.2 review hlast)
      simp only [archiveReview, NoteReviewTracking.lastReview, Option.map_some, ne_eq,
        reduceCtorEq, not_false_eq_true, decide_true, hfound, Option.bind_eq_bind,
        Option.bind_some, howner, not_true_eq_false, if_false,
        readRevision_cast (hcount review hlast)]
      rfl

include hlib

theorem readBibliographyImportLink_toArchive {link : BibliographyImportLink}
    (hsource : IsVersion7 link.sourceId.entityId) (hitem : IsVersion7 link.itemId.entityId)
    (hdigest : link.importedDigest < 2 ^ 256) (hpositive : 0 < link.importedItemRevision) :
    lib.readBibliographyImportLink link.toArchive = some link := by
  have hnew : BibliographyImportLink.new ⟨link.sourceId.entityId⟩ link.externalItemId
      ⟨link.itemId.entityId⟩ link.importedDigest link.importedItemRevision = some link :=
    dif_pos link.identifier
  unfold readBibliographyImportLink BibliographyImportLink.toArchive
  simp only [hlib.parseEntityId hsource, hlib.parseEntityId hitem,
    decodeSha256_encodeSha256 hdigest, readRevision_cast hpositive, Option.bind_eq_bind,
    Option.bind_some]
  exact hnew

include hfinds

theorem readNote_toArchive {note : Note} {validated : ValidatedNoteDraft}
    (hid : IsVersion7 note.noteId.entityId) (hrefers : NoteRefers (Knows principals) note)
    (hcount : 0 < note.revision ∧ ∀ review ∈ note.review.lastReview, 0 < review.revision)
    (hsource : lib.validateSource note.draft.source = some validated)
    (hdraft : r.draft note.draft =
      ⟨validated.draft.title, note.draft.source, validated.draft.tags⟩) :
    lib.readNote read note.toArchive = some (note.restate r) := by
  have hreview := archiveReview_provenance hfinds hrefers hcount.2
  have hcreator := hfinds _ hrefers.1
  unfold readNote Note.toArchive
  simp only [hsource, hlib.parseEntityId hid, hcreator, readRevision_cast hcount.1, hreview,
    Option.bind_eq_bind, Option.bind_some, Option.map_some, ← hdraft]
  exact note.restore_restate

/-- A revision takes its owner and its creation from its note. -/
theorem readNoteRevision_toArchive {validated : ValidatedNoteDraft} {notes : List Note}
    {current : Note} (hnotes : (notes.map fun note => note.noteId).Nodup)
    (hcurrent : current ∈ notes) (hsame : current.noteId = entry.note.noteId)
    (howner : current.owner = entry.note.owner.restate r)
    (hcreated : current.createdAt = entry.note.createdAt)
    (hvia : current.createdVia = entry.note.createdVia)
    (hid : IsVersion7 entry.note.noteId.entityId) (hchangedBy : Knows principals entry.changedBy)
    (hrefers : NoteRefers (Knows principals) entry.note)
    (hcount : 0 < entry.note.revision ∧
      ∀ review ∈ entry.note.review.lastReview, 0 < review.revision)
    (hsource : lib.validateSource entry.note.draft.source = some validated)
    (hdraft : r.draft entry.note.draft =
      ⟨validated.draft.title, entry.note.draft.source, validated.draft.tags⟩) :
    lib.readNoteRevision read notes (entry.toArchive references).canonical =
      some (entry.restate r) := by
  have hreview := archiveReview_provenance hfinds hrefers hcount.2
  have hchanged := hfinds _ hchangedBy
  have hfind : notes.find? (fun note => note.noteId = ⟨entry.note.noteId.entityId⟩) =
      some current := (List.find?_key_eq_some hnotes).mpr ⟨hcurrent, hsame⟩
  have hrestore := entry.note.restore_restate (r := r)
  unfold readNoteRevision ArchiveNoteRevision.canonical NoteRevisionSnapshot.toArchive
  simp only [hsource, hlib.parseEntityId hid, hfind, howner, hcreated, hvia, hreview, hchanged,
    readRevision_cast hcount.1, Option.bind_eq_bind, Option.bind_some, ← hdraft, hrestore]
  rfl

theorem readAclEntry_toArchive {grant : NoteAclSnapshotEntry}
    (hid : IsVersion7 grant.noteId.entityId) (hknows : Knows principals grant.principal) :
    lib.readAclEntry read grant.toArchive = some (grant.restate r) := by
  have hfound := hfinds _ hknows
  unfold readAclEntry NoteAclSnapshotEntry.toArchive
  simp only [hlib.parseEntityId hid, hfound, Option.bind_eq_bind, Option.bind_some]
  rfl

theorem readBibliographyItem_toArchive {item : BibliographyItem json}
    {record : ArchiveBibliographyItem} (hid : IsVersion7 item.itemId.entityId)
    (hknows : Knows principals item.owner) (hrereads : item.Rereads)
    (hrecord : item.toArchive = some record) :
    lib.readBibliographyItem json read record = some (item.restate r) := by
  obtain ⟨value, hparse, hencode⟩ := hrereads.exists_parse
  have hfound := hfinds _ hknows
  have hdecode := Database.decodeItem_toRow (show (item.restate r).Rereads from hrereads)
  unfold Database.decodeItem at hdecode
  rw [dif_pos (show 0 < (item.restate r).toRow.revision from item.positive)] at hdecode
  have hrestore : BibliographyItem.restore json item.itemId (item.owner.restate r)
      item.citationKey item.cslJson item.createdAt item.updatedAt item.revision item.positive =
        .ok (item.restate r) := Except.mapError_eq_ok.mp hdecode
  unfold BibliographyItem.toArchive at hrecord
  rw [hparse, Option.map_some, Option.some.injEq] at hrecord
  subst hrecord
  unfold readBibliographyItem
  simp only [hlib.parseEntityId hid, hfound, Option.bind_eq_bind, Option.bind_some, hencode,
    Int.toNat_natCast]
  rw [dif_pos item.positive, hrestore]
  rfl

theorem readBibliographyImportSource_toArchive {source : BibliographyImportSource}
    (hid : IsVersion7 source.sourceId.entityId) (hknows : Knows principals source.owner) :
    lib.readBibliographyImportSource read source.toArchive = some (source.restate r) := by
  have hfound := hfinds _ hknows
  have hrestore : BibliographyImportSource.restore ⟨source.sourceId.entityId⟩
      (source.owner.restate r) source.displayName source.revision source.createdAt
      source.lastImportedAt source.positive = some (source.restate r) :=
    dif_pos ⟨source.name, source.times⟩
  unfold readBibliographyImportSource BibliographyImportSource.toArchive
  simp only [hlib.parseEntityId hid, hfound, Option.bind_eq_bind, Option.bind_some,
    Int.toNat_natCast]
  rw [dif_pos source.positive, hrestore]

theorem readAttachment_toArchive {attachment : StoredAttachment attachmentLib}
    (hid : IsVersion7 attachment.metadata.attachmentId.entityId)
    (hnote : IsVersion7 attachment.metadata.noteId.entityId)
    (hdigest : attachment.metadata.sha256 < 2 ^ 256)
    (hknows : Knows principals attachment.metadata.createdBy) :
    lib.readAttachment attachmentLib read (attachment.toArchive lib) =
      some (attachment.restate r) := by
  have hfound := hfinds _ hknows
  have hmetadata := AttachmentMetadata.new_createdBy attachment.metadata_valid
    (attachment.metadata.createdBy.restate r)
  have hstored := StoredAttachment.new_eq_ok hmetadata attachment.bytes_valid
  unfold readAttachment StoredAttachment.toArchive
  simp only [hlib.parseEntityId hid, hlib.parseEntityId hnote, hfound, hlib.base64,
    decodeSha256_encodeSha256 hdigest, Option.bind_eq_bind, Option.bind_some, hmetadata,
    Except.toOption, hstored]
  rfl

omit hlib in
/-- The number of arguments of a stored macro fits a byte. -/
theorem readMathMacroSettings_toArchive {settings : MathMacroSettingsSnapshot}
    (hvalid : validateStoredMathMacros settings.settings.macros = .ok ())
    (hknows : Knows principals settings.owner) :
    lib.readMathMacroSettings read settings.toArchive = some (settings.restate r) := by
  have hfound := hfinds _ hknows
  have hmacros : (settings.settings.macros.map MathMacro.toArchive).map (fun item =>
      (⟨item.name, item.replacement, item.argumentCount.toNat⟩ : MathMacro)) =
        settings.settings.macros := by
    rw [List.map_map]
    refine (List.map_congr_left fun item hitem => ?_).trans (List.map_id _)
    have hcount := argumentCount_le hvalid item hitem
    have htoNat : (UInt8.ofNat item.argumentCount).toNat = item.argumentCount :=
      UInt8.toNat_ofNat_of_lt' (hcount.trans_lt (by decide))
    show (⟨item.name, item.replacement, (UInt8.ofNat item.argumentCount).toNat⟩ : MathMacro) = item
    rw [htoNat]
  unfold readMathMacroSettings MathMacroSettingsSnapshot.toArchive
  simp only [hfound, Option.bind_eq_bind, Option.bind_some, hmacros]
  rfl

end Entries

/-! ## The whole archive -/

variable {attachmentLib : AttachmentLibrary} {json : JsonCodec}
  {s : LogicalSnapshot attachmentLib json}

/-- What an archive relies on of the values in a snapshot : ids are UUIDs of version 7, digests
have 256 bits, and identities, documents and sources are accepted when they are read again. A
revision shows the images that its source names. -/
structure Understands (lib : ArchiveLibrary) (s : LogicalSnapshot attachmentLib json) : Prop where
  noteIds : ∀ note ∈ s.notes, IsVersion7 note.noteId.entityId
  attachmentIds : ∀ attachment ∈ s.attachments,
    IsVersion7 attachment.metadata.attachmentId.entityId
  itemIds : ∀ item ∈ s.bibliographyItems, IsVersion7 item.itemId.entityId
  sourceIds : ∀ source ∈ s.bibliographyImportSources, IsVersion7 source.sourceId.entityId
  imageDigests : ∀ attachment ∈ s.attachments, attachment.metadata.sha256 < 2 ^ 256
  importDigests : ∀ link ∈ s.bibliographyImportLinks, link.importedDigest < 2 ^ 256
  identities : ∀ principal ∈ s.principals, ∀ identity ∈ principal.identities, lib.Accepts identity
  items : ∀ item ∈ s.bibliographyItems, item.Rereads
  sources : ∀ entry ∈ s.noteRevisions, ∃ validated,
    lib.validateSource entry.note.draft.source = some validated ∧
      ∀ attachmentId, (∃ query ∈ validated.attachmentQueries,
        query.attachmentId = attachmentId) ↔
          ⟨entry.note.noteId, entry.note.revision, attachmentId⟩ ∈ s.noteRevisionAttachments

/-- A snapshot for an archive : revisions count from one, and the owner of a note is named in its
history as the principals name it. -/
structure Archivable (lib : ArchiveLibrary) (s : LogicalSnapshot attachmentLib json) : Prop
    extends lib.Understands s where
  count : s.parts.CountFromOne
  owners : ∀ entry ∈ s.noteRevisions, Knows s.principals entry.note.owner

/-- The principals as they are read. -/
def readPrincipalsOf (lib : ArchiveLibrary) (s : LogicalSnapshot attachmentLib json) :
    List Principal :=
  (numbered s.principals).map (declared (lib.restatement s.principals))

/-- The parts that are read from the archive of a snapshot, in the order of the archive. -/
def readParts (lib : ArchiveLibrary) (s : LogicalSnapshot attachmentLib json) :
    SnapshotParts attachmentLib json where
  notes := (orderBy (fun note => note.toArchive.noteId) s.notes).map
    (Note.restate (lib.restatement s.principals))
  noteAcl := (orderBy (fun grant => grant.toArchive.key) s.noteAcl).map
    (NoteAclSnapshotEntry.restate (lib.restatement s.principals))
  noteRevisions := (orderBy (fun entry => (entry.toArchive s.noteRevisionAttachments).key)
    s.noteRevisions).map (NoteRevisionSnapshot.restate (lib.restatement s.principals))
  items := (orderBy (fun item => entityIdText item.itemId.entityId) s.bibliographyItems).map
    (BibliographyItem.restate (lib.restatement s.principals))
  sources := (orderBy (fun source => source.toArchive.sourceId) s.bibliographyImportSources).map
    (BibliographyImportSource.restate (lib.restatement s.principals))
  links := orderBy (fun link => link.toArchive.key) s.bibliographyImportLinks
  mathMacroSettings := (orderBy (fun settings => settings.toArchive.key) s.mathMacroSettings).map
    (MathMacroSettingsSnapshot.restate (lib.restatement s.principals))
  principals := lib.readPrincipalsOf s
  attachments := (orderBy (fun attachment => (attachment.toArchive lib).attachmentId)
    s.attachments).map (StoredAttachment.restate (lib.restatement s.principals))
  attachmentReferences := (orderBy (fun entry => (entry.toArchive s.noteRevisionAttachments).key)
    s.noteRevisions).flatMap (shownBy s.noteRevisionAttachments)

section Parts

variable (hfits : s.parts.Fits)
include hfits

/-- What is read is the snapshot restated, in another order. -/
theorem rearranges_readParts : (s.restate (lib.restatement s.principals)).parts.Rearranges
    (lib.readParts s).logicalSnapshot.parts where
  notes := (Table.orderBy_perm.map _).symm
  noteAcl := (Table.orderBy_perm.map _).symm
  noteRevisions := (Table.orderBy_perm.trans (Table.orderBy_perm.map _)).symm
  items := (Table.orderBy_perm.map _).symm
  sources := (Table.orderBy_perm.map _).symm
  links := Table.orderBy_perm.symm
  mathMacroSettings := (Table.orderBy_perm.map _).symm
  principals := by
    refine ⟨(numbered s.principals).map (Principal.restate (lib.restatement s.principals)),
      Table.orderBy_perm.map _, ?_⟩
    show List.Forall₂ _ _ ((numbered s.principals).map (declared (lib.restatement s.principals)))
    rw [List.forall₂_map_left_iff, List.forall₂_map_right_iff, List.forall₂_same]
    exact fun principal _ => ⟨rfl, (readIdentities_perm principal).symm⟩
  attachments := (Table.orderBy_perm.trans (Table.orderBy_perm.map _)).symm
  attachmentReferences := by
    have hflat : (s.noteRevisions.flatMap (shownBy s.noteRevisionAttachments)).Perm
        s.noteRevisionAttachments :=
      flatMap_shownBy hfits.attachments.nodup hfits.revisions.keys hfits.attachments.ofRevision
    exact (Table.orderBy_perm.trans ((Table.orderBy_perm.flatMap_right _).trans hflat)).symm

theorem fits_readParts : (lib.readParts s).Fits := by
  have hrestated := hfits.restate (lib.restatement s.principals)
    (separates_restatement s.principals)
  exact (hrestated.rearrange (rearranges_readParts hfits)).rearrange
    (lib.readParts s).rearranges_logicalSnapshot.symm

/-- A note has the draft of its last revision. -/
theorem exists_latest {note : Note} (hnote : note ∈ s.notes) :
    ∃ entry ∈ s.noteRevisions, entry.note.draft = note.draft := by
  have hcomplete := hfits.revisions.complete note hnote
  unfold isCompleteHistory at hcomplete
  split at hcomplete
  · cases hcomplete
  · next latest hlast =>
    have hmem := (List.mem_filter.mp (List.mem_of_getLast? hlast)).1
    have hsame := (of_decide_eq_true hcomplete).1.2.1
    have hdraft := congrArg NoteRestore.draft hsame
    exact ⟨latest, Table.mem_orderBy.mp hmem, hdraft⟩

theorem finds_readPrincipalsOf (hidentities : ∀ principal ∈ s.principals,
    ∀ identity ∈ principal.identities, lib.Accepts identity) :
    lib.Finds (lib.restatement s.principals) s.principals (lib.readPrincipalsOf s) :=
  fun _ hknows => principalRef_restate hfits.principals hidentities hknows

end Parts

/-! ### What is read -/

/-- The id of an entry that names a note. -/
theorem Archivable.noteId (h : lib.Archivable s) {noteId : NoteId}
    (hnote : ∃ note ∈ s.notes, note.noteId = noteId) : IsVersion7 noteId.entityId := by
  obtain ⟨note, hnote, rfl⟩ := hnote
  exact h.noteIds note hnote

theorem Archivable.exists_record (h : lib.Archivable s) :
    ∀ item ∈ s.bibliographyItems, ∃ record, item.toArchive = some record := by
  intro item hitem
  obtain ⟨value, hparse, -⟩ := (h.items item hitem).exists_parse
  exact ⟨_, Option.map_eq_some_iff.mpr ⟨value, hparse, rfl⟩⟩

theorem Archivable.exists_archive (h : lib.Archivable s) :
    ∃ archive, createArchive lib s = some archive := ⟨_, createArchive_eq h.exists_record⟩

section Readers

variable (hlib : lib.Rereads) (hfits : s.parts.Fits) (h : lib.Archivable s)
include hlib hfits h

theorem readNotes_toArchive : readEach .note (lib.readNote (lib.readPrincipalsOf s)) 1
    (orderBy ArchiveNote.noteId (s.notes.map Note.toArchive)) = .ok (lib.readParts s).notes := by
  refine readEach_orderBy fun note hnote => ?_
  obtain ⟨entry, hentry, hdraft⟩ := exists_latest hfits hnote
  obtain ⟨validated, hsource, -⟩ := h.sources entry hentry
  rw [hdraft] at hsource
  exact readNote_toArchive hlib (finds_readPrincipalsOf hfits h.identities) (h.noteIds note hnote)
    (hfits.references.notes note hnote) (h.count.notes note hnote) hsource
    (restatement_draft hsource)

theorem readNoteRevisions_toArchive : readEach .noteRevision
    (lib.readNoteRevision (lib.readPrincipalsOf s) (lib.readParts s).notes) 1
    (orderBy ArchiveNoteRevision.key ((s.noteRevisions.map fun entry =>
      entry.toArchive s.noteRevisionAttachments).map ArchiveNoteRevision.canonical)) =
        .ok (lib.readParts s).noteRevisions := by
  rw [List.map_map]
  refine readEach_orderBy fun entry hentry => ?_
  obtain ⟨validated, hsource, -⟩ := h.sources entry hentry
  obtain ⟨current, hcurrent, hid, howner, hcreated, hvia, -⟩ :=
    hfits.revisions.ofNote entry hentry
  obtain ⟨hchangedBy, hreview⟩ :=
    hfits.references.noteRevisions entry (Table.mem_orderBy.mpr hentry)
  have hsame : current.owner = entry.note.owner :=
    hfits.principals.eq_of_knows (hfits.references.notes current hcurrent).1
      (h.owners entry hentry) howner.symm
  have hnotes : ((lib.readParts s).notes.map fun note => note.noteId).Nodup :=
    (fits_readParts hfits).notes.ids
  have hmem : current.restate (lib.restatement s.principals) ∈ (lib.readParts s).notes :=
    List.mem_map_of_mem (Table.mem_orderBy.mpr hcurrent)
  exact readNoteRevision_toArchive hlib (finds_readPrincipalsOf hfits h.identities) hnotes hmem
    hid (congrArg (PrincipalRef.restate _) hsame) hcreated.symm hvia.symm
    (h.noteId ⟨current, hcurrent, hid⟩) hchangedBy ⟨h.owners entry hentry, hreview⟩
    (h.count.noteRevisions entry hentry) hsource (restatement_draft hsource)

theorem readAcl_toArchive : readEach .aclEntry (lib.readAclEntry (lib.readPrincipalsOf s)) 1
    (orderBy ArchiveAclEntry.key (s.noteAcl.map NoteAclSnapshotEntry.toArchive)) =
      .ok (lib.readParts s).noteAcl := by
  refine readEach_orderBy fun grant hgrant => ?_
  obtain ⟨note, hnote, hid, -⟩ := hfits.notes.granted grant hgrant
  exact readAclEntry_toArchive hlib (finds_readPrincipalsOf hfits h.identities)
    (h.noteId ⟨note, hnote, hid⟩) (hfits.references.noteAcl grant hgrant)

theorem readItems_toArchive : readEach .bibliographyItem
    (lib.readBibliographyItem json (lib.readPrincipalsOf s)) 1
    (orderBy ArchiveBibliographyItem.itemId
      (s.bibliographyItems.filterMap BibliographyItem.toArchive)) =
        .ok (lib.readParts s).items := by
  have hordered := (forall₂_filterMap h.exists_record).orderBy
    (f := fun item => entityIdText item.itemId.entityId) (g := ArchiveBibliographyItem.itemId)
    fun item record hrecord => item.itemId_toArchive hrecord
  have hitems : ∀ item ∈ orderBy (fun item => entityIdText item.itemId.entityId)
      s.bibliographyItems, item ∈ s.bibliographyItems := fun item => Table.mem_orderBy.mp
  rw [readEach_eq_ok]
  refine List.forall₂_map_right_iff.mpr (List.Forall₂.flip
    (((List.forall₂_and_left _ _).mpr ⟨hitems, hordered⟩).imp ?_))
  rintro item record ⟨hitem, hrecord⟩
  exact readBibliographyItem_toArchive hlib (finds_readPrincipalsOf hfits h.identities)
    (h.itemIds item hitem) (hfits.references.items item hitem) (h.items item hitem) hrecord

theorem readSources_toArchive : readEach .bibliographyImportSource
    (lib.readBibliographyImportSource (lib.readPrincipalsOf s)) 1
    (orderBy ArchiveBibliographyImportSource.sourceId
      (s.bibliographyImportSources.map BibliographyImportSource.toArchive)) =
        .ok (lib.readParts s).sources :=
  readEach_orderBy fun source hsource => readBibliographyImportSource_toArchive hlib
    (finds_readPrincipalsOf hfits h.identities) (h.sourceIds source hsource)
    (hfits.references.sources source hsource)

theorem readLinks_toArchive : readEach .bibliographyImportLink lib.readBibliographyImportLink 1
    (orderBy ArchiveBibliographyImportLink.key
      (s.bibliographyImportLinks.map BibliographyImportLink.toArchive)) =
        .ok (lib.readParts s).links := by
  rw [Table.orderBy_map, readEach_eq_ok, List.forall₂_map_left_iff]
  refine List.forall₂_same.mpr fun link hlink => ?_
  have hlink := Table.mem_orderBy.mp hlink
  obtain ⟨source, hsource, hsourceId, item, hitem, hitemId, -⟩ := hfits.library.linked link hlink
  exact readBibliographyImportLink_toArchive hlib (hsourceId ▸ h.sourceIds source hsource)
    (hitemId ▸ h.itemIds item hitem) (h.importDigests link hlink) (h.count.links link hlink)

omit hlib in
theorem readSettings_toArchive : readEach .mathMacroSettings
    (lib.readMathMacroSettings (lib.readPrincipalsOf s)) 1
    (orderBy ArchiveMathMacroSettings.key
      (s.mathMacroSettings.map MathMacroSettingsSnapshot.toArchive)) =
        .ok (lib.readParts s).mathMacroSettings :=
  readEach_orderBy fun settings hsettings => readMathMacroSettings_toArchive
    (finds_readPrincipalsOf hfits h.identities) (hfits.settings.valid settings hsettings).2
    (hfits.references.mathMacroSettings settings hsettings)

theorem readAttachments_toArchive : readEach .attachment
    (lib.readAttachment attachmentLib (lib.readPrincipalsOf s)) 1
    (orderBy ArchiveAttachment.attachmentId
      (s.attachments.map fun attachment => attachment.toArchive lib)) =
        .ok (lib.readParts s).attachments := by
  refine readEach_orderBy fun attachment hmem => ?_
  exact readAttachment_toArchive hlib (finds_readPrincipalsOf hfits h.identities)
    (h.attachmentIds attachment hmem)
    (h.noteId (List.mem_map.mp (hfits.attachments.ofNote attachment hmem)))
    (h.imageDigests attachment hmem)
    (hfits.references.attachments attachment (Table.mem_orderBy.mpr hmem))

theorem readReferences_toArchive : readEach .attachmentReference lib.readAttachmentReferences 1
    (orderBy ArchiveNoteRevision.key ((s.noteRevisions.map fun entry =>
      entry.toArchive s.noteRevisionAttachments).map ArchiveNoteRevision.canonical)) =
        .ok ((orderBy (fun entry => (entry.toArchive s.noteRevisionAttachments).key)
          s.noteRevisions).map (shownBy s.noteRevisionAttachments)) := by
  rw [List.map_map]
  refine readEach_orderBy fun entry hentry => ?_
  obtain ⟨validated, hsource, hshown⟩ := h.sources entry hentry
  obtain ⟨current, hcurrent, hid, -⟩ := hfits.revisions.ofNote entry hentry
  have hids : ∀ reference ∈ s.noteRevisionAttachments,
      IsVersion7 reference.attachmentId.entityId := by
    intro reference hreference
    obtain ⟨attachment, hmem, hid, -⟩ := hfits.attachments.shown reference hreference
    exact hid ▸ h.attachmentIds attachment hmem
  exact readAttachmentReferences_toArchive hlib hfits.attachments.nodup hids
    (h.noteId ⟨current, hcurrent, hid⟩) (h.count.noteRevisions entry hentry).1 hsource hshown

/-- The archive of a snapshot is read as its parts. -/
theorem validateArchiveContents_createArchive {archive : Archive}
    (harchive : createArchive lib s = some archive) :
    lib.validateArchiveContents attachmentLib json archive =
      .ok (lib.readParts s).logicalSnapshot := by
  rw [createArchive_eq h.exists_record] at harchive
  obtain rfl := Option.some.inj harchive
  unfold validateArchiveContents
  refine Except.bind_eq_ok.mpr ⟨lib.readPrincipalsOf s,
    declaredArchivePrincipals_eq hfits.principals h.identities rfl, ?_⟩
  refine Except.bind_eq_ok.mpr ⟨_, readNotes_toArchive hlib hfits h, ?_⟩
  refine Except.bind_eq_ok.mpr ⟨some (lib.readParts s).noteRevisions, Except.map_eq_ok.mpr
    ⟨_, readNoteRevisions_toArchive hlib hfits h, rfl⟩, ?_⟩
  refine Except.bind_eq_ok.mpr ⟨_, readAcl_toArchive hlib hfits h, ?_⟩
  refine Except.bind_eq_ok.mpr ⟨_, readItems_toArchive hlib hfits h, ?_⟩
  refine Except.bind_eq_ok.mpr ⟨_, readSources_toArchive hlib hfits h, ?_⟩
  refine Except.bind_eq_ok.mpr ⟨_, readLinks_toArchive hlib hfits h, ?_⟩
  refine Except.bind_eq_ok.mpr ⟨_, readSettings_toArchive hfits h, ?_⟩
  refine Except.bind_eq_ok.mpr ⟨_, readAttachments_toArchive hlib hfits h, ?_⟩
  refine Except.bind_eq_ok.mpr ⟨_, readReferences_toArchive hlib hfits h, ?_⟩
  exact Except.mapError_eq_ok.mpr
    (SnapshotParts.snapshot_eq_ok_iff.mpr ⟨fits_readParts hfits, rfl⟩)

theorem validateArchive_createArchive {archive : Archive}
    (harchive : createArchive lib s = some archive) :
    lib.validateArchive attachmentLib json archive = .ok (lib.readParts s).logicalSnapshot := by
  have hcontents := validateArchiveContents_createArchive hlib hfits h harchive
  rw [createArchive_eq h.exists_record] at harchive
  obtain rfl := Option.some.inj harchive
  unfold validateArchive
  rw [if_neg]
  · exact Except.mapError_eq_ok.mpr hcontents
  · simp [Archive.canonical, Note.toArchive]

end Readers

theorem Understands.shortIds_restate {r : Restatement} (h : lib.Understands s) :
    (s.restate r).ShortIds where
  notes := List.forall_mem_map.mpr fun note hnote => (h.noteIds note hnote).1
  attachments := List.forall_mem_map.mpr fun attachment hmem => (h.attachmentIds attachment hmem).1
  items := List.forall_mem_map.mpr fun item hitem => (h.itemIds item hitem).1
  sources := List.forall_mem_map.mpr fun source hsource => (h.sourceIds source hsource).1

/-- The archive of what is read is the one it was read from. -/
theorem createArchive_readParts (hfits : s.parts.Fits) (h : lib.Archivable s) :
    createArchive lib (lib.readParts s).logicalSnapshot = createArchive lib s := by
  have hrestated := hfits.restate (lib.restatement s.principals)
    (separates_restatement s.principals)
  have hitems : ∀ item ∈ (s.restate (lib.restatement s.principals)).bibliographyItems,
      ∃ record, item.toArchive = some record :=
    List.forall_mem_map.mpr fun item hitem => h.exists_record item hitem
  rw [createArchive_rearranged hrestated h.shortIds_restate hitems (rearranges_readParts hfits),
    createArchive_restate]

/-- The archive of a snapshot is accepted. What is read from it is the snapshot with other numbers
for its principals, no two of which get one number, and with drafts derived from its sources, in
another order, and has the same archive. -/
theorem archive_round_trip {parts : SnapshotParts attachmentLib json}
    (haccepted : parts.snapshot = .ok s) (hlib : lib.Rereads) (h : lib.Archivable s) :
    ∃ archive s', createArchive lib s = some archive ∧
      lib.validateArchive attachmentLib json archive = .ok s' ∧
      Separates (lib.restatement s.principals) s.principals ∧
      (s.restate (lib.restatement s.principals)).parts.Rearranges s'.parts ∧
      createArchive lib s' = some archive := by
  have hfits : s.parts.Fits := by
    obtain ⟨hfits, rfl⟩ := SnapshotParts.snapshot_eq_ok_iff.mp haccepted
    exact hfits.rearrange parts.rearranges_logicalSnapshot
  obtain ⟨archive, harchive⟩ := h.exists_archive
  exact ⟨archive, _, harchive, validateArchive_createArchive hlib hfits h harchive,
    separates_restatement s.principals, rearranges_readParts hfits,
    (createArchive_readParts hfits h).trans harchive⟩

/-! ## The archive of a workspace -/

/-- A revision shows the images that its source names. -/
def showsNamed (lib : ArchiveLibrary) (references : List NoteRevisionAttachment)
    (entry : NoteRevisionSnapshot) : Bool :=
  match lib.validateSource entry.note.draft.source with
  | none => false
  | some validated =>
    (validated.attachmentQueries.all fun query =>
      references.contains ⟨entry.note.noteId, entry.note.revision, query.attachmentId⟩) &&
    references.all fun reference =>
      !((reference.noteId, reference.revision) = (entry.note.noteId, entry.note.revision)) ||
        validated.attachmentQueries.any fun query => query.attachmentId = reference.attachmentId

theorem showsNamed_iff {references : List NoteRevisionAttachment} {entry : NoteRevisionSnapshot} :
    lib.showsNamed references entry = true ↔ ∃ validated,
      lib.validateSource entry.note.draft.source = some validated ∧
        ∀ attachmentId, (∃ query ∈ validated.attachmentQueries,
          query.attachmentId = attachmentId) ↔
            ⟨entry.note.noteId, entry.note.revision, attachmentId⟩ ∈ references := by
  unfold showsNamed
  cases lib.validateSource entry.note.draft.source with
  | none => simp
  | some validated =>
    simp only [Bool.and_eq_true, List.all_eq_true, List.contains_iff_mem, Bool.or_eq_true,
      Bool.not_eq_true', decide_eq_false_iff_not, List.any_eq_true, decide_eq_true_eq,
      Option.some.injEq, exists_eq_left']
    constructor
    · rintro ⟨hnamed, hshown⟩ attachmentId
      constructor
      · rintro ⟨query, hquery, rfl⟩
        exact hnamed query hquery
      · intro hmem
        exact (hshown _ hmem).resolve_left (not_not.mpr rfl)
    · intro h
      refine ⟨fun query hquery => (h _).mp ⟨query, hquery, rfl⟩, ?_⟩
      rintro ⟨noteId, revision, attachmentId⟩ hmem
      by_cases hrevision : (noteId, revision) = (entry.note.noteId, entry.note.revision)
      · cases hrevision
        exact Or.inr ((h attachmentId).mpr hmem)
      · exact Or.inl hrevision

instance (entityId : ℕ) : Decidable (IsVersion7 entityId) :=
  inferInstanceAs (Decidable (_ ∧ _))

instance (identity : Identity) : Decidable (lib.Accepts identity) :=
  inferInstanceAs (Decidable (_ = _))

/-- Whether the reader understands the values of a snapshot can be tried out. -/
instance (s : LogicalSnapshot attachmentLib json) : Decidable (lib.Understands s) :=
  decidable_of_iff
    ((∀ note ∈ s.notes, IsVersion7 note.noteId.entityId) ∧
      (∀ attachment ∈ s.attachments, IsVersion7 attachment.metadata.attachmentId.entityId) ∧
      (∀ item ∈ s.bibliographyItems, IsVersion7 item.itemId.entityId) ∧
      (∀ source ∈ s.bibliographyImportSources, IsVersion7 source.sourceId.entityId) ∧
      (∀ attachment ∈ s.attachments, attachment.metadata.sha256 < 2 ^ 256) ∧
      (∀ link ∈ s.bibliographyImportLinks, link.importedDigest < 2 ^ 256) ∧
      (∀ principal ∈ s.principals, ∀ identity ∈ principal.identities, lib.Accepts identity) ∧
      (∀ item ∈ s.bibliographyItems, item.Rereads) ∧
      ∀ entry ∈ s.noteRevisions, lib.showsNamed s.noteRevisionAttachments entry = true)
    ⟨fun ⟨hnotes, himages, hitems, hsources, hdigests, himports, hidentities, hrereads, hshown⟩ =>
      ⟨hnotes, himages, hitems, hsources, hdigests, himports, hidentities, hrereads,
        fun entry hentry => showsNamed_iff.mp (hshown entry hentry)⟩,
    fun h => ⟨h.noteIds, h.attachmentIds, h.itemIds, h.sourceIds, h.imageDigests, h.importDigests,
      h.identities, h.items, fun entry hentry => showsNamed_iff.mpr (h.sources entry hentry)⟩⟩

/-- A parser of the issuers in the example. -/
def workspaceUrls : UrlLibrary where
  parse issuer :=
    if issuer = "https://id.example.test" ∨ issuer = "https://new-id.example.test" then
      some ⟨"https", false, "", none, none, none⟩
    else none

/-- The reader of the example, which writes a byte as a character. -/
def workspaceArchive : ArchiveLibrary where
  content := workspaceContent
  adocweavePackageVersion := "0.48.0"
  url := workspaceUrls
  parseUuid text := Uuid.parseText text.toList
  encodeBase64 bytes := String.ofList (bytes.map fun byte => Char.ofNat byte.toNat)
  decodeBase64 text := some (text.toList.map fun c => UInt8.ofNat c.toNat)

theorem parseText_entityIdText {entityId : ℕ} (h : entityId < 2 ^ 128) :
    Uuid.parseText (entityIdText entityId).toList = some entityId := by
  unfold entityIdText
  rw [String.toList_ofList]
  exact Uuid.parseText_text h

theorem bytes_of_characters (bytes : List UInt8) :
    (String.ofList (bytes.map fun byte => Char.ofNat byte.toNat)).toList.map
      (fun c => UInt8.ofNat c.toNat) = bytes := by
  have hbyte : ∀ byte : UInt8, UInt8.ofNat (Char.ofNat byte.toNat).toNat = byte := by
    intro byte
    have hlt : byte.toNat < 256 := byte.toNat_lt
    have hvalid : byte.toNat.isValidChar := Or.inl (by omega)
    have hchar : (Char.ofNat byte.toNat).toNat = byte.toNat := by
      rw [Char.ofNat, dif_pos hvalid]
      rfl
    rw [hchar, UInt8.ofNat_toNat]
  rw [String.toList_ofList, List.map_map]
  exact (List.map_congr_left fun byte _ => hbyte byte).trans (List.map_id _)

theorem rereads_workspaceArchive : workspaceArchive.Rereads where
  uuid entityId hshort := by
    unfold workspaceArchive
    dsimp only
    exact parseText_entityIdText hshort
  base64 bytes := by
    unfold workspaceArchive
    dsimp only
    rw [bytes_of_characters]

open Database in
theorem exists_workspaceSnapshot : ∃ s,
    workspace.exportArchiveSnapshot workspaceService = .ok s ∧ workspaceArchive.Understands s := by
  obtain ⟨s, hs⟩ : ∃ s, workspace.exportArchiveSnapshot workspaceService = .ok s :=
    Except.exists_eq_ok (by decide +kernel)
  have hall : (workspace.exportArchiveSnapshot workspaceService).toOption.all
      (fun s => decide (workspaceArchive.Understands s)) = true := by
    decide +kernel
  rw [hs] at hall
  exact ⟨s, hs, by simpa [Except.toOption] using hall⟩

open Database in
/-- The workspace is written to an archive and read again. -/
theorem archive_round_trip_workspace : ∃ rows s archive s',
    workspace.exportRows workspaceService = .ok rows ∧
      rows.sizes = [2, 1, 5, 2, 1, 1, 2, 3, 1, 3] ∧ rows.snapshot = .ok s ∧
      createArchive workspaceArchive s = some archive ∧
      workspaceArchive.validateArchive asciiLibrary workspaceImports.json archive = .ok s' ∧
      Separates (workspaceArchive.restatement s.principals) s.principals ∧
      (s.restate (workspaceArchive.restatement s.principals)).parts.Rearranges s'.parts ∧
      createArchive workspaceArchive s' = some archive := by
  obtain ⟨rows, hrows, hsizes, hitems⟩ := exists_workspaceRows
  obtain ⟨s, hs, hunderstands⟩ := exists_workspaceSnapshot
  have hsound := serviceSound_of_run run_fillWorkspace
  obtain ⟨rows', hrows', haccepted⟩ := Except.bind_eq_ok.mp hs
  obtain rfl := Except.ok.inj (hrows.symm.trans hrows')
  have haccepted := Except.mapError_eq_ok.mp haccepted
  obtain ⟨-, rfl⟩ := SnapshotParts.snapshot_eq_ok_iff.mp haccepted
  have hread := ((hsound.exported hrows).readable hsound hitems).logicalSnapshot
  obtain ⟨archive, s', hround⟩ := archive_round_trip haccepted rereads_workspaceArchive
    ⟨hunderstands, hread.toCountFromOne, hread.owners⟩
  exact ⟨rows, _, archive, s', hrows, hsizes, haccepted, hround⟩

end ArchiveLibrary

end Marginalis
