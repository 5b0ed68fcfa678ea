import Marginalis.ServiceRuns

/-!
# What is exported after a restore

The maintenance checks an archive by restoring it into an empty database and exporting that again.
Each row of a restored part is read back as the entry it was written for (`Holds.exportRows`), so
the second snapshot is the first one with its entries in the order of an export
(`restore_round_trip`). A snapshot that was exported is in that order already.
-/

namespace Marginalis

open LogicalSnapshot
open Table (orderBy)

variable {lib : AttachmentLibrary} {json : JsonCodec}

/-! ## The order of an export -/

/-- The principal with its primary identity first, and the others in their order. -/
def Principal.sorted (principal : Principal) : Principal where
  reference := principal.reference
  identities := orderBy (fun identity =>
    toLex (!decide (identity = principal.reference.primaryIdentity), identity.key))
      principal.identities
  primary_mem := Table.mem_orderBy.mpr principal.primary_mem
  nodup := Table.orderBy_perm.nodup_iff.mpr principal.nodup

theorem Principal.eq_of {a b : Principal} (hreference : a.reference = b.reference)
    (hidentities : a.identities = b.identities) : a = b := by
  obtain ⟨reference, identities, _, _⟩ := a
  obtain ⟨reference', identities', _, _⟩ := b
  obtain rfl : reference = reference' := hreference
  obtain rfl : identities = identities' := hidentities
  rfl

namespace SnapshotParts

variable (parts : SnapshotParts lib json)

/-- The parts in the order of an export. -/
def sorted : SnapshotParts lib json where
  notes := orderBy (fun note => note.noteId.entityId) parts.notes
  noteAcl := orderBy (fun entry =>
    toLex (entry.noteId.entityId, entry.principal.primaryIdentity.key)) parts.noteAcl
  noteRevisions := sortedRevisions parts.noteRevisions
  items := orderBy (fun item => item.itemId.entityId) parts.items
  sources := orderBy (fun source => source.sourceId.entityId) parts.sources
  links := orderBy (fun link => toLex (link.sourceId.entityId, link.externalItemId)) parts.links
  mathMacroSettings := orderBy (fun entry => entry.owner.primaryIdentity.key)
    parts.mathMacroSettings
  principals := (orderBy (fun principal => principal.reference.id.get) parts.principals).map
    Principal.sorted
  attachments := sortedAttachments parts.attachments
  attachmentReferences := sortedReferences parts.attachmentReferences

theorem rearranges_sorted : parts.Rearranges parts.sorted where
  notes := Table.orderBy_perm.symm
  noteAcl := Table.orderBy_perm.symm
  noteRevisions := Table.orderBy_perm.symm
  items := Table.orderBy_perm.symm
  sources := Table.orderBy_perm.symm
  links := Table.orderBy_perm.symm
  mathMacroSettings := Table.orderBy_perm.symm
  principals := ⟨_, Table.orderBy_perm, List.forall₂_map_right_iff.mpr
    (List.forall₂_same.mpr fun _ _ => ⟨rfl, Table.orderBy_perm.symm⟩)⟩
  attachments := Table.orderBy_perm.symm
  attachmentReferences := Table.orderBy_perm.symm

/-- The constructors keep parts that are in the order of an export as they are. -/
theorem parts_logicalSnapshot {parts : SnapshotParts lib json} (h : parts.sorted = parts) :
    parts.logicalSnapshot.parts = parts := by
  have hrevisions : sortedRevisions parts.noteRevisions = parts.noteRevisions :=
    congrArg SnapshotParts.noteRevisions h
  have hattachments : sortedAttachments parts.attachments = parts.attachments :=
    congrArg SnapshotParts.attachments h
  have hreferences : sortedReferences parts.attachmentReferences = parts.attachmentReferences :=
    congrArg SnapshotParts.attachmentReferences h
  unfold logicalSnapshot LogicalSnapshot.parts
  rw [hrevisions, hattachments, hreferences]

end SnapshotParts

/-! ## Entries that are read back -/

/-- The text of an item is read back as it was written. -/
def BibliographyItem.Rereads (item : BibliographyItem json) : Prop :=
  ∃ csl, ValidatedCslJson.fromEncoded json item.citationKey item.cslJson = .ok csl ∧
    csl.encoded = item.cslJson

instance (item : BibliographyItem json) : Decidable item.Rereads :=
  match h : ValidatedCslJson.fromEncoded json item.citationKey item.cslJson with
  | .ok csl => decidable_of_iff (csl.encoded = item.cslJson) (by
      unfold BibliographyItem.Rereads
      simp [h])
  | .error _ => isFalse (by
      unfold BibliographyItem.Rereads
      simp [h])

namespace Database

variable {codec : MathMacroCodec} {db : Database} {parts : SnapshotParts lib json}
  {tables : LinkTables}

theorem decodeItem_toRow {item : BibliographyItem json} (h : item.Rereads) :
    decodeItem json item.toRow item.owner.primaryIdentity = .ok item := by
  obtain ⟨csl, hcsl, htext⟩ := h
  refine decodeItem_eq_ok.mpr ⟨item.positive, item.times, rfl, csl, hcsl, ?_⟩
  rw [htext]
  rfl

theorem decodeSource_toRow (source : BibliographyImportSource) :
    decodeSource source.toRow source.owner.primaryIdentity = .ok source :=
  decodeSource_eq_ok.mpr ⟨rfl, rfl⟩

theorem noteFromRow_toRow (note : Note) : noteFromRow ⟨note.toRow, note.owner.primaryIdentity,
    note.review.lastReview.map fun review => review.reviewer.primaryIdentity⟩ = .ok note := by
  refine noteFromRow_eq_ok.mpr ⟨?_, rfl, rfl, rfl, rfl, rfl, rfl, rfl, rfl⟩
  unfold NoteDetails.reviewTracking Note.toRow
  obtain ⟨⟨noteId, owner, draft, createdAt, updatedAt, revision, deletedAt, createdVia, review⟩,
    _⟩ := note
  cases review with
  | unknown => rfl
  | tracked last =>
    cases last with
    | none => rfl
    | some review => rfl

/-- What is stored of an image is read back with the metadata and the bytes it had. -/
theorem storedAttachment_toRow_primary (attachment : StoredAttachment lib) : storedAttachment lib
    (attachment.toRow, attachment.metadata.createdBy.primaryIdentity) = .ok attachment := by
  refine Except.bind_eq_ok.mpr ⟨attachment.metadata, ?_, ?_⟩
  · exact Except.mapError_eq_ok.mpr attachment.metadata_valid
  · exact Except.mapError_eq_ok.mpr
      (StoredAttachment.new_eq_ok attachment.metadata_valid attachment.bytes_valid)

theorem decodeSettings_toRow {entry : MathMacroSettingsSnapshot}
    (hrevision : 1 ≤ entry.settings.revision)
    (hvalid : validateStoredMathMacros entry.settings.macros = .ok ())
    (hrereads : codec.Rereads entry.settings.macros) :
    decodeSettings codec (entry.toRow codec) = .ok entry.settings := by
  have hne : entry.settings.revision.toNat ≠ 0 := by omega
  have hcast : (entry.settings.revision.toNat : ℤ) = entry.settings.revision := by omega
  have hdecode : codec.decode (codec.encode entry.settings.macros) =
      some entry.settings.macros := hrereads
  unfold decodeSettings MathMacroSettingsSnapshot.toRow
  simp only [if_neg hne, hdecode, hvalid, hcast]

theorem reviewerIdentity_toRow {note : Note}
    (h : ∀ review ∈ note.review.lastReview, db.ShowsPrimary review.reviewer) :
    (note.toRow.review.bind fun review => db.primaryIdentity review.reviewer) =
      note.review.lastReview.map fun review => review.reviewer.primaryIdentity := by
  unfold Note.toRow
  cases hlast : note.review.lastReview with
  | none => rfl
  | some review => exact h review hlast

/-- The identities that the details of a note join. -/
theorem noteDetails_toRow {note : Note} (h : NoteRefers db.ShowsPrimary note) :
    db.noteDetails note.toRow = some ⟨note.toRow, note.owner.primaryIdentity,
      note.review.lastReview.map fun review => review.reviewer.primaryIdentity⟩ := by
  have howner : db.primaryIdentity note.toRow.creator = some note.owner.primaryIdentity := h.1
  unfold noteDetails
  rw [howner, Option.map_some, reviewerIdentity_toRow h.2]

/-- Entries of principals that are shown are joined with their identities, in their order. -/
theorem filterMap_withIdentity {ρ γ : Type} {principal : ρ → PrincipalId} {row : γ → ρ}
    {reference : γ → PrincipalRef} {l : List γ}
    (hid : ∀ c ∈ l, (reference c).id = principal (row c))
    (hshows : ∀ c ∈ l, db.ShowsPrimary (reference c)) :
    (l.map row).filterMap (db.withIdentity principal) =
      l.map fun c => (row c, (reference c).primaryIdentity) := by
  induction l with
  | nil => rfl
  | cons c l ih =>
    have hjoin : db.withIdentity principal (row c) =
        some (row c, (reference c).primaryIdentity) := by
      have hshown := hshows c List.mem_cons_self
      unfold ShowsPrimary at hshown
      unfold withIdentity
      rw [← hid c List.mem_cons_self, hshown, Option.map_some]
    rw [List.map_cons, List.filterMap_cons_some hjoin, List.map_cons,
      ih (fun c hc => hid c (List.mem_cons_of_mem _ hc))
        fun c hc => hshows c (List.mem_cons_of_mem _ hc)]

theorem identities_of_exportPrincipal {q : PrincipalId} {principal : Principal}
    (h : db.exportPrincipal q = .ok principal) :
    principal.identities = (db.identitiesOf q).map IdentityRow.identity := by
  unfold exportPrincipal at h
  dsimp only at h
  split at h
  · rw [Except.mapError_eq_ok] at h
    unfold Principal.restore at h
    split_ifs at h
    cases h
    rfl
  · cases h

namespace Holds

variable (h : db.Holds codec parts tables)
include h

/-! ## Principals -/

/-- Whoever the principals know is shown with the primary identity. -/
theorem showsPrimary (hdistinct : DistinctPrincipals parts.principals) {reference : PrincipalRef}
    (hknows : Knows parts.principals reference) : db.ShowsPrimary reference := by
  obtain ⟨principal, hprincipal, rfl⟩ := hknows
  obtain ⟨row, hrow, hid, hidentity, hmark⟩ :=
    h.row_of_binding hprincipal principal.primary_mem
  exact (h.bindingsWhole hdistinct).primaryIdentity_eq_some.mpr
    ⟨row, hrow, hid, by simpa using hmark, hidentity⟩

theorem exportPrincipal (hdistinct : DistinctPrincipals parts.principals) {principal : Principal}
    (hprincipal : principal ∈ parts.principals) :
    db.exportPrincipal principal.reference.id = .ok principal.sorted := by
  have hdb := h.bindingsWhole hdistinct
  have hrow : (⟨principal.reference.id⟩ : PrincipalRow) ∈ db.principals := by
    exact (Table.mem_map h.principals).mpr ⟨principal, hprincipal, rfl⟩
  obtain ⟨read, hread, hshown⟩ := hdb.exportPrincipal hrow
  refine hread.trans (congrArg Except.ok (Principal.eq_of ?_ ?_))
  · exact hshown.shows.unique (h.showsPrimary hdistinct ⟨principal, hprincipal, rfl⟩) hshown.id
  set key := fun identity : Identity =>
    toLex (!decide (identity = principal.reference.primaryIdentity), identity.key) with hkey
  set rows := db.principalIdentities.select fun row => row.principalId = principal.reference.id
  have hmem : ∀ row, row ∈ rows ↔
      row ∈ db.principalIdentities ∧ row.principalId = principal.reference.id := by
    intro row
    rw [Table.mem_select, decide_eq_true_eq]
  have hof : ∀ row ∈ rows, row.identity ∈ principal.identities ∧
      row.isPrimary = decide (row.identity = principal.reference.primaryIdentity) := by
    intro row hrow
    obtain ⟨hrow, hid⟩ := (hmem row).mp hrow
    obtain ⟨other, hother, hidentity, hid', hprimary⟩ := h.binding_of_row hrow
    rw [List.inj_on_of_nodup_map hdistinct.ids hprincipal hother (hid.symm.trans hid')]
    exact ⟨hidentity, hprimary⟩
  have hordered : db.identitiesOf principal.reference.id =
      orderBy (fun row => key row.identity) rows :=
    Table.orderBy_key_congr fun row hrow => by rw [hkey, (hof row hrow).2]
  have hperm : (rows.map IdentityRow.identity).Perm principal.identities := by
    have hnodup : (rows.map IdentityRow.identity).Nodup :=
      (h.nodup_identities hdistinct).sublist (List.filter_sublist.map _)
    refine (List.perm_ext_iff_of_nodup hnodup principal.nodup).mpr fun identity => ?_
    rw [List.mem_map]
    constructor
    · rintro ⟨row, hrow, rfl⟩
      exact (hof row hrow).1
    · intro hidentity
      obtain ⟨row, hrow, hid, hsame, -⟩ := h.row_of_binding hprincipal hidentity
      exact ⟨row, (hmem row).mpr ⟨hrow, hid⟩, hsame⟩
  rw [identities_of_exportPrincipal hread, hordered, ← Table.orderBy_map]
  refine Table.orderBy_congr hperm fun a _ b _ heq => ?_
  obtain ⟨-, heq⟩ := Prod.mk.inj (toLex.injective heq)
  obtain ⟨hissuer, hsubject⟩ := Prod.mk.inj (toLex.injective heq)
  exact Identity.mk.injEq .. ▸ ⟨hissuer, hsubject⟩

theorem exportPrincipals (hdistinct : DistinctPrincipals parts.principals) :
    db.exportPrincipals = .ok parts.sorted.principals := by
  unfold Database.exportPrincipals
  rw [h.principals, Table.orderBy_map, Except.mapM_eq_ok, List.forall₂_map_left_iff]
  refine List.forall₂_map_right_iff.mpr (List.forall₂_same.mpr fun principal hmem => ?_)
  exact h.exportPrincipal hdistinct (Table.mem_orderBy.mp hmem)

/-! ## The other parts -/

theorem exportNotes (hshows : ∀ note ∈ parts.notes, NoteRefers db.ShowsPrimary note) :
    db.exportNotes = .ok parts.sorted.notes := by
  unfold Database.exportNotes
  rw [h.notes, Table.orderBy_map]
  refine Except.filterMap_mapM_map_eq_ok fun note hnote => ?_
  exact ⟨_, noteDetails_toRow (hshows note (Table.mem_orderBy.mp hnote)), noteFromRow_toRow note⟩

/-- A revision is read back with the owner and the creation of its note. -/
theorem allNoteRevisions (hfits : RevisionsFit parts.notes parts.noteRevisions)
    (hnotes : ∀ note ∈ parts.notes, db.ShowsPrimary note.owner)
    (hshows : ∀ entry ∈ parts.noteRevisions,
      db.ShowsPrimary entry.changedBy ∧ NoteRefers db.ShowsPrimary entry.note) :
    db.allNoteRevisions = .ok parts.sorted.noteRevisions := by
  unfold Database.allNoteRevisions
  rw [h.noteRevisions, Table.orderBy_map]
  refine Except.filterMap_mapM_map_eq_ok fun entry hentry => ?_
  have hentry := Table.mem_orderBy.mp hentry
  obtain ⟨hchangedBy, hshown⟩ := hshows entry hentry
  obtain ⟨current, hcurrent, hid, howner, hcreated, hvia, -⟩ := hfits.ofNote entry hentry
  have hfind : db.notes.find entry.toRow.noteId = some current.toRow := by
    rw [← h.find_note hcurrent, hid]
    rfl
  have hcreator : db.primaryIdentity current.toRow.creator =
      some entry.note.owner.primaryIdentity := by
    rw [hshown.1.unique (hnotes current hcurrent) howner]
    exact hnotes current hcurrent
  have hchanged : db.primaryIdentity entry.toRow.changedBy =
      some entry.changedBy.primaryIdentity := hchangedBy
  refine ⟨⟨entry.toRow, current.toRow, entry.note.owner.primaryIdentity,
    entry.changedBy.primaryIdentity,
    entry.note.review.lastReview.map fun review => review.reviewer.primaryIdentity⟩, ?_, ?_⟩
  · rw [← reviewerIdentity_toRow hshown.2]
    simp only [Database.revisionDetails, hfind, hcreator, hchanged, Option.bind_eq_bind,
      Option.bind_some]
    rfl
  · refine Except.bind_eq_ok.mpr ⟨entry.note, ?_, rfl⟩
    dsimp only
    rw [entry.noteColumns_toRow howner hcreated hvia]
    exact noteFromRow_toRow entry.note

/-- A read through the join with the identities of principals. -/
theorem exportSources (hshows : ∀ source ∈ parts.sources, db.ShowsPrimary source.owner) :
    db.exportSources = .ok parts.sorted.sources := by
  unfold Database.exportSources
  rw [h.sources, Table.orderBy_map]
  refine Except.filterMap_mapM_map_eq_ok fun source hsource => ?_
  have hshown := hshows source (Table.mem_orderBy.mp hsource)
  exact ⟨_, Option.map_eq_some_iff.mpr ⟨_, hshown, rfl⟩, decodeSource_toRow source⟩

theorem exportItems (hshows : ∀ item ∈ parts.items, db.ShowsPrimary item.owner)
    (hrereads : ∀ item ∈ parts.items, item.Rereads) :
    db.exportItems json = .ok parts.sorted.items := by
  have hselect : db.bibliographyItems.select (fun _ => true) = db.bibliographyItems.rows :=
    List.filter_true _
  unfold Database.exportItems Database.decodeItems
  rw [hselect, h.items, Table.orderBy_map]
  refine Except.filterMap_mapM_map_eq_ok fun item hitem => ?_
  have hitem := Table.mem_orderBy.mp hitem
  exact ⟨_, Option.map_eq_some_iff.mpr ⟨_, hshows item hitem, rfl⟩,
    decodeItem_toRow (hrereads item hitem)⟩

theorem exportAttachments
    (hshows : ∀ attachment ∈ parts.attachments, db.ShowsPrimary attachment.metadata.createdBy) :
    db.exportAttachments lib = .ok parts.sorted.attachments := by
  unfold Database.exportAttachments
  rw [h.attachments, Table.orderBy_map]
  refine Except.filterMap_mapM_map_eq_ok fun attachment hattachment => ?_
  have hshown := hshows attachment (Table.mem_orderBy.mp hattachment)
  exact ⟨_, Option.map_eq_some_iff.mpr ⟨_, hshown, rfl⟩,
    storedAttachment_toRow_primary attachment⟩

theorem exportLinks (hpositive : ∀ link ∈ parts.links, 0 < link.importedItemRevision) :
    db.exportLinks = .ok parts.sorted.links := by
  have hkey : ∀ (row : ImportLinkRow) (link : BibliographyImportLink),
      LinkHeld parts.sources row link → toLex (link.sourceId.entityId, link.externalItemId) =
        toLex (row.sourceId.entityId, row.externalItemId) := by
    rintro row link ⟨_, -, -, rfl⟩
    rfl
  have hrows : ∀ row ∈ db.bibliographyImportLinks, row.importedItemRevision ≠ 0 := by
    intro row hrow
    obtain ⟨link, hlink, _, -, -, rfl⟩ := h.links.exists_right hrow
    exact (hpositive link hlink).ne'
  unfold Database.exportLinks
  rw [Except.mapM_eq_ok]
  refine ((List.forall₂_and_left _ _).mpr
    ⟨fun row hrow => hrows row (Table.mem_orderBy.mp hrow), h.links.orderBy hkey⟩).imp ?_
  rintro row link ⟨hrow, hheld⟩
  exact decodeLink_eq_ok.mpr ⟨hrow, hheld.shown⟩

theorem exportAttachmentReferences
    (hpositive : ∀ reference ∈ parts.attachmentReferences, reference.revision ≠ 0) :
    db.exportAttachmentReferences = .ok parts.sorted.attachmentReferences := by
  unfold Database.exportAttachmentReferences
  rw [h.attachmentReferences, Table.orderBy_map]
  refine Except.mapM_map_eq_ok fun reference hreference => ?_
  exact if_neg (hpositive reference (Table.mem_orderBy.mp hreference))

/-- The grants are put in order after the join. -/
theorem exportAcl (hshows : ∀ entry ∈ parts.noteAcl, db.ShowsPrimary entry.principal) :
    db.exportAcl = parts.sorted.noteAcl := by
  have hjoin : (parts.noteAcl.map NoteAclSnapshotEntry.toRow).filterMap
      (db.withIdentity AclRow.principalId) =
        parts.noteAcl.map fun entry => (entry.toRow, entry.principal.primaryIdentity) :=
    filterMap_withIdentity (fun _ _ => rfl) hshows
  unfold Database.exportAcl
  rw [h.noteAcl, hjoin, Table.orderBy_map, List.map_map]
  exact List.map_id _

theorem exportMathMacros (hshows : ∀ entry ∈ parts.mathMacroSettings, db.ShowsPrimary entry.owner)
    (hfits : SettingsFit parts.mathMacroSettings)
    (hrereads : ∀ entry ∈ parts.mathMacroSettings, codec.Rereads entry.settings.macros) :
    db.exportMathMacros codec = .ok parts.sorted.mathMacroSettings := by
  have hjoin : (parts.mathMacroSettings.map fun entry => entry.toRow codec).filterMap
      (db.withIdentity MathMacroRow.owner) = parts.mathMacroSettings.map fun entry =>
        (entry.toRow codec, entry.owner.primaryIdentity) :=
    filterMap_withIdentity (fun _ _ => rfl) hshows
  unfold Database.exportMathMacros
  rw [h.mathMacroSettings, hjoin, Table.orderBy_map]
  refine Except.mapM_map_eq_ok fun entry hentry => ?_
  have hentry := Table.mem_orderBy.mp hentry
  obtain ⟨hrevision, hvalid⟩ := hfits.valid entry hentry
  exact Except.bind_eq_ok.mpr ⟨entry.settings,
    decodeSettings_toRow hrevision hvalid (hrereads entry hentry), rfl⟩

end Holds

end Database

/-! ## The round trip -/

variable {service : ServiceLibrary}

/-- What holds of entries that came from a store or from an archive : their revisions count from
one, the owner of a note is named in its history as the principals name it, and the texts that are
stored for documents and macros are read back as they were written. -/
structure SnapshotParts.Readable (service : ServiceLibrary)
    (parts : SnapshotParts service.attachments service.imports.json) : Prop
    extends parts.CountFromOne where
  owners : ∀ entry ∈ parts.noteRevisions, Knows parts.principals entry.note.owner
  items : ∀ item ∈ parts.items, item.Rereads
  macros : ∀ entry ∈ parts.mathMacroSettings, service.macros.Rereads entry.settings.macros

variable {parts parts' : SnapshotParts service.attachments service.imports.json}

/-- The order of the entries does not matter. -/
theorem SnapshotParts.Readable.rearrange (h : parts.Readable service)
    (hr : parts.Rearranges parts') : parts'.Readable service where
  toCountFromOne := h.toCountFromOne.rearrange hr
  owners entry hentry := by
    obtain ⟨principal, hmem, heq⟩ := h.owners entry (hr.noteRevisions.mem_iff.mpr hentry)
    obtain ⟨principal', hmem', hsame⟩ := hr.principals.exists_right hmem
    exact ⟨principal', hmem', hsame.reference.symm.trans heq⟩
  items item hitem := h.items item (hr.items.mem_iff.mpr hitem)
  macros entry hentry := h.macros entry (hr.mathMacroSettings.mem_iff.mpr hentry)

theorem SnapshotParts.Readable.logicalSnapshot (h : parts.Readable service) :
    parts.logicalSnapshot.parts.Readable service :=
  h.rearrange parts.rearranges_logicalSnapshot

namespace Database

variable {db : Database} {tables : LinkTables}

/-! ### What is exported is readable -/

/-- The revisions of a row of a valid note count from one. -/
theorem NoteShown.countFromOne {row : NoteRow} {note : Note} (h : db.NoteShown row note)
    (hrow : row.Valid) :
    0 < note.revision ∧ ∀ review ∈ note.review.lastReview, 0 < review.revision := by
  obtain ⟨hrevision, hreview⟩ := hrow.check
  rw [← h.toRow] at hrevision hreview
  exact ⟨hrevision, fun review hlast =>
    (hreview _ (Option.map_eq_some_iff.mpr ⟨review, hlast, rfl⟩)).2.1⟩

theorem Exported.readable (hrows : db.Exported parts) (h : db.ServiceSound service)
    (hrereads : ∀ item ∈ parts.items, item.Rereads) : parts.Readable service where
  notes note hnote := by
    obtain ⟨row, hrow, hshown⟩ := hrows.notes.exists_left hnote
    exact hshown.countFromOne (h.notes.valid row hrow)
  noteRevisions entry hentry := by
    obtain ⟨row, hrow, hshown⟩ := hrows.noteRevisions.exists_left hentry
    obtain ⟨note, hfind, hshown⟩ := hshown.note
    obtain ⟨note', hnote', hid, -, hvalid, -⟩ := h.notes.history row hrow
    have hfind' : db.notes.find row.noteId = some note' := hid ▸ Table.find_of_mem hnote'
    rw [hfind, Option.some.injEq] at hfind'
    exact hshown.countFromOne (hfind' ▸ hvalid)
  links link hlink := by
    obtain ⟨row, hrow, hshown⟩ := hrows.links.exists_left hlink
    obtain ⟨item, -, -, hpositive, -⟩ := h.library.exists_item hrow
    rw [← show link.toRow row.owner = row from hshown] at hpositive
    exact hpositive
  owners entry hentry := by
    obtain ⟨row, -, hshown⟩ := hrows.noteRevisions.exists_left hentry
    obtain ⟨note, -, hshown⟩ := hshown.note
    exact hrows.knows h hshown.owner
  items := hrereads
  macros entry hentry := by
    obtain ⟨row, hrow, hshown⟩ := hrows.mathMacroSettings.exists_left hentry
    obtain ⟨hpositive, macros, hvalid, hrereads, hjson⟩ := h.macros.stored row hrow
    have hdecoded := decodeSettings_encode hvalid hrereads hjson hpositive
    rw [hshown.decodes, Except.ok.injEq] at hdecoded
    rw [hdecoded]
    exact hrereads

/-! ### What is restored is exported -/

theorem Holds.exportRows (h : db.Holds service.macros parts tables) (hfits : parts.Fits)
    (hread : parts.Readable service) : db.exportRows service = .ok parts.sorted := by
  have hshows : ∀ reference, Knows parts.principals reference → db.ShowsPrimary reference :=
    fun reference hknows => h.showsPrimary hfits.principals hknows
  have hrefers := hfits.references.imp hshows
  have hreferences : ∀ reference ∈ parts.attachmentReferences, reference.revision ≠ 0 := by
    intro reference hreference
    obtain ⟨entry, hentry, heq⟩ :=
      List.mem_map.mp (hfits.attachments.ofRevision reference hreference)
    rw [← (Prod.mk.inj heq).2]
    exact (hread.noteRevisions entry hentry).1.ne'
  have hrevisions : ∀ entry ∈ parts.noteRevisions,
      db.ShowsPrimary entry.changedBy ∧ NoteRefers db.ShowsPrimary entry.note := by
    intro entry hentry
    obtain ⟨hchangedBy, hreview⟩ := hrefers.noteRevisions entry (Table.mem_orderBy.mpr hentry)
    exact ⟨hchangedBy, hshows _ (hread.owners entry hentry), hreview⟩
  exact exportRows_eq_ok.mpr ⟨h.exportNotes hrefers.notes, h.exportAcl hrefers.noteAcl,
    h.exportItems hrefers.items hread.items, h.exportSources hrefers.sources,
    h.exportLinks hread.links,
    h.exportMathMacros hrefers.mathMacroSettings hfits.settings hread.macros,
    h.exportPrincipals hfits.principals,
    h.allNoteRevisions hfits.revisions (fun note hnote => (hrefers.notes note hnote).1) hrevisions,
    h.exportAttachments fun attachment hmem =>
      hrefers.attachments attachment (Table.mem_orderBy.mpr hmem),
    h.exportAttachmentReferences hreferences⟩

theorem Holds.exportArchiveSnapshot (h : db.Holds service.macros parts tables)
    (hfits : parts.Fits) (hread : parts.Readable service) :
    db.exportArchiveSnapshot service = .ok parts.sorted.logicalSnapshot := by
  unfold Database.exportArchiveSnapshot
  rw [h.exportRows hfits hread]
  exact Except.mapError_eq_ok.mpr
    (SnapshotParts.snapshot_eq_ok_iff.mpr ⟨hfits.rearrange parts.rearranges_sorted, rfl⟩)

/-- The links that are stored are those that the sources of the notes show. -/
structure ShowsLinks (queries : NoteQueries) (notes : List Note) (db : Database) : Prop where
  references : ∀ row, row ∈ db.noteReferences ↔ ∃ note ∈ notes,
    row.sourceNoteId = note.noteId ∧ queries.Refers note row.targetNoteId
  citations : ∀ row, row ∈ db.noteCitations ↔ ∃ note ∈ notes,
    row.sourceNoteId = note.noteId ∧ queries.Cites note row.citationKey

variable {s : LogicalSnapshot service.attachments service.imports.json} {queries : NoteQueries}

/-- The restore of a snapshot whose parts fit, and what is exported after it. -/
theorem exists_restored (hfits : s.parts.Fits) (hread : s.parts.Readable service)
    (hanalyzed : ∀ note ∈ s.notes, queries.Analyzes note) :
    ∃ plan db, restorePlan queries s = .ok plan ∧ empty.restore service.macros plan = .ok db ∧
      db.exportArchiveSnapshot service = .ok s.parts.sorted.logicalSnapshot ∧
      db.ShowsLinks queries s.notes := by
  obtain ⟨plan, hplan, rfl, hreferences, hcitations⟩ := exists_restorePlan hanalyzed
  have hrestore : ∃ db, empty.restore service.macros plan = .ok db ∧
      db.Restored service.macros ⟨.empty, .empty⟩ plan := by
    refine holds_empty.exists_restore rfl hfits hread.toCountFromOne (fun link hlink => ?_)
      fun link hlink => ?_
    · obtain ⟨note, hnote, hid, -⟩ := (hcitations link).mp hlink
      exact List.mem_map.mpr ⟨note, hnote, hid.symm⟩
    · obtain ⟨note, hnote, hid, -⟩ := (hreferences link).mp hlink
      exact List.mem_map.mpr ⟨note, hnote, hid.symm⟩
  obtain ⟨db, hrestore, hrestored⟩ := hrestore
  have htables : db.linkTables = plan.linkTables := hrestored.holds.linkTables
  refine ⟨plan, db, hplan, hrestore, hrestored.holds.exportArchiveSnapshot hfits hread, ?_, ?_⟩
  · intro row
    rw [← hreferences (row.sourceNoteId, row.targetNoteId), ← RestorePlan.mem_references,
      ← htables]
    rfl
  · intro row
    rw [← hcitations (row.sourceNoteId, row.citationKey), ← RestorePlan.mem_citations, ← htables]
    rfl

/-- Whatever the constructors accept is restored, and exported again in the order of an export. -/
theorem restore_round_trip (haccepted : parts.snapshot = .ok s)
    (hread : s.parts.Readable service) (hanalyzed : ∀ note ∈ s.notes, queries.Analyzes note) :
    ∃ plan db, restorePlan queries s = .ok plan ∧ empty.restore service.macros plan = .ok db ∧
      db.exportArchiveSnapshot service = .ok s.parts.sorted.logicalSnapshot ∧
      db.ShowsLinks queries s.notes := by
  obtain ⟨hfits, rfl⟩ := SnapshotParts.snapshot_eq_ok_iff.mp haccepted
  exact exists_restored (hfits.rearrange parts.rearranges_logicalSnapshot) hread hanalyzed

end Database

/-! ## A workspace with an image, items and macros -/

/-- An id of version 7. -/
def numberedId (n : ℕ) : ℕ := 7 * 2 ^ 76 + n

/-- The source that shows the image. -/
def pictureSource : String := "= A\n\nimage::00000000-0000-7000-0000-000000000009[]"

/-- The source that names the other note and cites an item. -/
def citingSource : String :=
  "= B\n\nxref:note:00000000-0000-7000-0000-000000000005[] cite:[doe2024]"

/-- An analysis that knows these sources. -/
def workspaceAnalysis (source : String) :
    Except (List NoteValidationDiagnostic) SourceAnalysis :=
  .ok <|
    if source = citingSource then
      ⟨"B", [], [], [⟨⟨numberedId 5⟩⟩], [⟨0, ["doe2024"], none, ⟨56, 70⟩, ⟨3, 49⟩⟩], []⟩
    else if source = pictureSource then
      ⟨"A", [], [], [], [], [⟨⟨numberedId 9⟩, ⟨12, 48⟩, ⟨3, 8⟩⟩]⟩
    else ⟨"A", [], [], [], [], []⟩

def workspaceContent : NoteContent := asciiDocContent workspaceAnalysis

def workspaceQueries : NoteQueries where
  noteReferenceQueries source :=
    (workspaceContent.analyze source).toOption.map ValidatedNoteDraft.referenceQueries
  noteCitationQueries source :=
    (workspaceContent.analyze source).toOption.map ValidatedNoteDraft.citationQueries

theorem analyzes_workspaceQueries (note : Note) : workspaceQueries.Analyzes note := ⟨rfl, rfl⟩

/-- The digest of an imported document has 256 bits. -/
def workspaceImports : ImportLibrary :=
  { sampleImportLibrary [sampleArticle "doe2024" "First", sampleArticle "roe2025" "Second"] with
    sha256 := fun text => textNumber text % 2 ^ 256 }

def workspaceService : ServiceLibrary :=
  ⟨asciiLibrary, workspaceImports, sampleMacroCodec [[], realNumbers, norm]⟩

/-- The image Alice uploads to her note. -/
def workspaceFigure : StoredAttachment asciiLibrary where
  metadata :=
    { figure.metadata with
      attachmentId := ⟨numberedId 9⟩
      noteId := ⟨numberedId 5⟩ }
  bytes := smallPng
  metadata_valid := by rfl
  bytes_valid := by decide

namespace Database

/-- Alice links a second identity, and shows an image in a note that she reviews and shares. Bob
cites an item in his note. Both of them have macros, and Bob has an item. -/
def workspaceWrites : List (DatabaseOperation workspaceService Unit) :=
  [.store (.login alice.authenticatedIdentity), .store (.login bob.authenticatedIdentity),
    .maintain sampleMaintenance (.link alice.authenticatedIdentity aliceNext true),
    .store (.command (.create alice ⟨numberedId 5⟩ ⟨"A", "= A", []⟩ ⟨[], [], []⟩ 100 .web)),
    .store (.attachment (.create alice workspaceFigure)),
    .store (.command (.update alice ⟨numberedId 5⟩ 1 ⟨"A", pictureSource, []⟩
      ⟨[], [], [⟨numberedId 9⟩]⟩ 200)),
    .store (.command (.markReviewed alice ⟨numberedId 5⟩ 2 250)),
    .store (.command (.replaceAcl alice ⟨numberedId 5⟩ [⟨bob.principal, .read⟩] 3 300)),
    .store (.command (.create bob ⟨numberedId 3⟩ ⟨"B", citingSource, []⟩
      ⟨[⟨numberedId 5⟩], ["doe2024"], []⟩ 400 .web)),
    .replaceMacros alice realNumbers 0, .replaceMacros bob norm 0,
    .library ⟨500, .library (.add bob (sampleArticle "roe2025" "Second") ⟨numberedId 4⟩)⟩ trivial]

/-- Alice imports the item, right after a preview. -/
def workspaceImport (db : Database) : DatabaseOperation workspaceService Unit :=
  let input : BibliographyImportInput := ⟨.new "Zotero", [sampleArticle "doe2024" "First"]⟩
  .library ⟨600, .import db alice input [⟨0, .applySuggested, none⟩]
    (shownToken workspaceImports db alice input) ⟨numberedId 1⟩ fun _ => ⟨numberedId 2⟩⟩ trivial

def fillWorkspace : List (DatabaseOperation workspaceService Unit) :=
  workspaceWrites ++ [workspaceImport (workspaceWrites.foldl DatabaseOperation.apply empty)]

/-- The database after that. -/
def workspace : Database := fillWorkspace.foldl DatabaseOperation.apply empty

theorem legal_workspaceWrites : ∀ op ∈ workspaceWrites, op.Legal := by
  have hmacros : workspaceService.macros.Rereads realNumbers ∧
      workspaceService.macros.Rereads norm := by decide +kernel
  unfold workspaceWrites
  simp only [List.forall_mem_cons, List.not_mem_nil, false_implies, implies_true, and_true,
    DatabaseOperation.Legal, ne_eq, reduceCtorEq, not_false_eq_true, true_and]
  exact hmacros

theorem run_fillWorkspace : Run DatabaseOperation.LegalStep empty
    (Run.trace DatabaseOperation.apply empty fillWorkspace) workspace := by
  refine Run.run_trace_of_legal DatabaseOperation.apply _ _ fun m hm => ?_
  have hmem := Run.label_mem_of_mem_trace hm
  unfold fillWorkspace at hmem
  rcases List.mem_append.mp hmem with hmem | hmem
  · exact legal_workspaceWrites _ hmem
  · exact List.mem_singleton.mp hmem ▸ trivial

end Database

namespace SnapshotParts

/-- The entries of every part, the other way around. -/
def reversed (parts : SnapshotParts lib json) : SnapshotParts lib json where
  notes := parts.notes.reverse
  noteAcl := parts.noteAcl.reverse
  noteRevisions := parts.noteRevisions.reverse
  items := parts.items.reverse
  sources := parts.sources.reverse
  links := parts.links.reverse
  mathMacroSettings := parts.mathMacroSettings.reverse
  principals := parts.principals.reverse
  attachments := parts.attachments.reverse
  attachmentReferences := parts.attachmentReferences.reverse

theorem rearranges_reversed (parts : SnapshotParts lib json) :
    parts.Rearranges parts.reversed where
  notes := (List.reverse_perm _).symm
  noteAcl := (List.reverse_perm _).symm
  noteRevisions := (List.reverse_perm _).symm
  items := (List.reverse_perm _).symm
  sources := (List.reverse_perm _).symm
  links := (List.reverse_perm _).symm
  mathMacroSettings := (List.reverse_perm _).symm
  principals := ⟨_, List.reverse_perm _, List.forall₂_same.mpr fun _ _ => ⟨rfl, .refl _⟩⟩
  attachments := (List.reverse_perm _).symm
  attachmentReferences := (List.reverse_perm _).symm

/-- How many entries the parts have. -/
def sizes (parts : SnapshotParts lib json) : List ℕ :=
  [parts.notes.length, parts.noteAcl.length, parts.noteRevisions.length, parts.items.length,
    parts.sources.length, parts.links.length, parts.mathMacroSettings.length,
    (parts.principals.flatMap Principal.identities).length, parts.attachments.length,
    parts.attachmentReferences.length]

end SnapshotParts

namespace Database

theorem exists_workspaceRows : ∃ rows, workspace.exportRows workspaceService = .ok rows ∧
    rows.sizes = [2, 1, 5, 2, 1, 1, 2, 3, 1, 3] ∧ ∀ item ∈ rows.items, item.Rereads := by
  obtain ⟨rows, hrows⟩ : ∃ rows, workspace.exportRows workspaceService = .ok rows :=
    Except.exists_eq_ok (by decide +kernel)
  have hall : (workspace.exportRows workspaceService).toOption.all (fun rows =>
      rows.sizes = [2, 1, 5, 2, 1, 1, 2, 3, 1, 3] &&
        rows.items.all fun item => decide item.Rereads) = true := by
    decide +kernel
  rw [hrows] at hall
  exact ⟨rows, hrows, by simpa [Except.toOption] using hall⟩

/-- The parts of the workspace are restored from the other way around, and exported in their
order. -/
theorem restore_round_trip_workspace : ∃ rows s plan db,
    workspace.exportRows workspaceService = .ok rows ∧
      rows.sizes = [2, 1, 5, 2, 1, 1, 2, 3, 1, 3] ∧ rows.reversed.snapshot = .ok s ∧
      restorePlan workspaceQueries s = .ok plan ∧
      empty.restore workspaceService.macros plan = .ok db ∧
      db.exportArchiveSnapshot workspaceService = .ok s.parts.sorted.logicalSnapshot ∧
      db.ShowsLinks workspaceQueries s.notes := by
  obtain ⟨rows, hrows, hsizes, hitems⟩ := exists_workspaceRows
  have hsound := serviceSound_of_run run_fillWorkspace
  have hexported := hsound.exported hrows
  have haccepted : rows.reversed.snapshot = .ok rows.reversed.logicalSnapshot :=
    SnapshotParts.snapshot_eq_ok_iff.mpr
      ⟨(hexported.fits hsound).rearrange rows.rearranges_reversed, rfl⟩
  have hread := ((hexported.readable hsound hitems).rearrange
    rows.rearranges_reversed).logicalSnapshot
  obtain ⟨plan, db, hrestored⟩ := restore_round_trip haccepted hread fun note _ =>
    analyzes_workspaceQueries note
  exact ⟨rows, _, plan, db, hrows, hsizes, haccepted, hrestored⟩

end Database

end Marginalis
