import Marginalis.SnapshotRestore

/-!
# A restored database

A restore puts histories, identities and links where no command of the service would put them one
by one. What the constructors of a snapshot have checked of its parts (`SnapshotParts.Fits`) is
what the service keeps between transactions : a database that holds such parts is sound
(`Holds.serviceSound`), and the service goes on in it as it would have in the one of the archive.
A history that was restored may start above the first revision.
-/

namespace Marginalis

open LogicalSnapshot

variable {lib : AttachmentLibrary} {json : JsonCodec}

/-! ## Notes -/

/-- Notes with the same values have one row. -/
theorem Note.SameValues.toRow {a b : Note} (h : a.SameValues b) : a.toRow = b.toRow := by
  obtain ⟨⟨noteId, owner, draft, createdAt, updatedAt, revision, deletedAt, createdVia, review⟩,
    _⟩ := a
  obtain ⟨⟨noteId', owner', draft', createdAt', updatedAt', revision', deletedAt', createdVia',
    review'⟩, _⟩ := b
  obtain ⟨howner, hrest, hreview⟩ := h
  simp only [NoteRestore.mk.injEq, true_and, and_true] at hrest
  obtain ⟨rfl, rfl, rfl, rfl, rfl, rfl, rfl⟩ := hrest
  simp only [Note.toRow, NoteRow.mk.injEq, true_and, decide_eq_decide]
  refine ⟨howner, ?_⟩
  cases review with
  | unknown =>
    cases review' with
    | unknown => exact ⟨Iff.rfl, rfl⟩
    | tracked last => exact hreview.elim
  | tracked last =>
    cases review' with
    | unknown => cases last <;> exact hreview.elim
    | tracked last' =>
      refine ⟨by simp, ?_⟩
      cases last with
      | none =>
        cases last' with
        | none => rfl
        | some review => exact hreview.elim
      | some review =>
        cases last' with
        | none => exact hreview.elim
        | some review' =>
          obtain ⟨hrevision, hreviewed, hreviewer⟩ := hreview
          have hreviewer : review.reviewer.id = review'.reviewer.id := hreviewer
          simp [hrevision, hreviewed, hreviewer, NoteReviewTracking.lastReview]

/-- The row of a note is a valid one. -/
theorem Note.valid_toRow (note : Note) (hpositive : 0 < note.revision)
    (hreview : ∀ review ∈ note.review.lastReview, 0 < review.revision) : note.toRow.Valid where
  check := note.check_toRow hpositive hreview
  updated := note.consistent.1
  deleted := note.consistent.2.1

/-- A row of the history has the columns of its note, with the creation and the owner of the
current one. -/
theorem NoteRevisionSnapshot.noteColumns_toRow {entry : NoteRevisionSnapshot} {current : Note}
    (howner : entry.note.owner.Same current.owner)
    (hcreated : entry.note.createdAt = current.createdAt)
    (hvia : entry.note.createdVia = current.createdVia) :
    entry.toRow.noteColumns current.toRow = entry.note.toRow := by
  unfold NoteRevisionSnapshot.toRow NoteRow.toRevisionRow NoteRevisionRow.noteColumns Note.toRow
  rw [hcreated, hvia, show current.owner.id = entry.note.owner.id from howner.symm]

/-- A complete history counts up, to an entry that shows the note. -/
theorem map_of_isCompleteHistory {history : List NoteRevisionSnapshot} {current : Note}
    (h : isCompleteHistory history current = true) :
    ∃ latest first n, history.getLast? = some latest ∧ latest.note.SameValues current ∧
      history.map (fun entry => entry.note.revision) = List.range' first n := by
  unfold isCompleteHistory at h
  cases hlast : history.getLast? with
  | none =>
    rw [hlast] at h
    cases h
  | some latest =>
    rw [hlast] at h
    simp only [decide_eq_true_eq, List.all_eq_true] at h
    obtain ⟨hsame, hsteps⟩ := h
    suffices hmap : ∃ first n,
        history.map (fun entry => entry.note.revision) = List.range' first n by
      obtain ⟨first, n, hmap⟩ := hmap
      exact ⟨latest, first, n, rfl, hsame, hmap⟩
    clear hlast hsame
    induction history with
    | nil => exact ⟨0, 0, rfl⟩
    | cons entry rest ih =>
      cases rest with
      | nil => exact ⟨entry.note.revision, 1, rfl⟩
      | cons next rest =>
        obtain ⟨first, n, hmap⟩ := ih fun pair hpair => hsteps pair (by
          rw [List.tail_cons, List.zip_cons_cons]
          exact List.mem_cons_of_mem _ hpair)
        have hnext := hsteps (entry, next) (by
          rw [List.tail_cons, List.zip_cons_cons]
          exact List.mem_cons_self)
        cases n with
        | zero => cases hmap
        | succ n =>
          rw [List.range'_succ, List.map_cons, List.cons.injEq] at hmap
          refine ⟨entry.note.revision, n + 2, ?_⟩
          rw [List.range'_succ, List.range'_succ, List.map_cons, List.map_cons, hmap.2, ← hnext,
            ← hmap.1]

namespace Database

variable {codec : MathMacroCodec} {db : Database} {parts : SnapshotParts lib json}
  {tables : LinkTables}

namespace Holds

variable (h : db.Holds codec parts tables)
include h

theorem known {reference : PrincipalRef} (hknows : Knows parts.principals reference) :
    db.Known reference.id :=
  Option.isSome_iff_exists.mp (h.find_principal hknows)

/-! ## Principals -/

/-- A row binds an identity to its principal. -/
theorem binding_of_row {row : IdentityRow} (hrow : row ∈ db.principalIdentities) :
    ∃ principal ∈ parts.principals, row.identity ∈ principal.identities ∧
      row.principalId = principal.reference.id ∧
      row.isPrimary = decide (row.identity = principal.reference.primaryIdentity) := by
  have hbinding := List.mem_map_of_mem (f := IdentityRow.binding) hrow
  rw [h.identities, List.mem_flatMap] at hbinding
  obtain ⟨principal, hprincipal, hbinding⟩ := hbinding
  obtain ⟨identity, hidentity, heq⟩ := List.mem_map.mp hbinding
  obtain ⟨hid, rfl, hprimary⟩ : principal.reference.id = row.principalId ∧
      identity = row.identity ∧ decide (identity = principal.reference.primaryIdentity) =
        row.isPrimary := by
    simpa [IdentityRow.binding, Principal.binding] using heq
  exact ⟨principal, hprincipal, hidentity, hid.symm, hprimary.symm⟩

/-- Every identity of a principal has its row. -/
theorem row_of_binding {principal : Principal} (hprincipal : principal ∈ parts.principals)
    {identity : Identity} (hidentity : identity ∈ principal.identities) :
    ∃ row ∈ db.principalIdentities, row.principalId = principal.reference.id ∧
      row.identity = identity ∧
        row.isPrimary = decide (identity = principal.reference.primaryIdentity) := by
  have hbinding : principal.binding identity ∈
      db.principalIdentities.rows.map IdentityRow.binding := by
    rw [h.identities, List.mem_flatMap]
    exact ⟨principal, hprincipal, List.mem_map_of_mem hidentity⟩
  obtain ⟨row, hrow, heq⟩ := List.mem_map.mp hbinding
  exact ⟨row, hrow, by simpa [IdentityRow.binding, Principal.binding] using heq⟩

/-- No identity is bound twice. -/
theorem nodup_identities (hdistinct : DistinctPrincipals parts.principals) :
    (db.principalIdentities.rows.map IdentityRow.identity).Nodup := by
  have hmap : db.principalIdentities.rows.map IdentityRow.identity =
      parts.principals.flatMap Principal.identities := by
    have hidentities := congrArg (List.map fun binding => binding.2.1) h.identities
    rw [List.map_map, List.map_flatMap] at hidentities
    refine hidentities.trans (List.flatMap_congr fun principal _ => ?_)
    rw [List.map_map]
    exact List.map_id _
  rw [hmap, List.nodup_flatMap]
  exact ⟨fun principal _ => principal.nodup, hdistinct.identities⟩

theorem bindingsWhole (hdistinct : DistinctPrincipals parts.principals) : db.BindingsWhole := by
  have hbound : ∀ row ∈ db.principalIdentities, ∀ other ∈ db.principalIdentities,
      row.identity = other.identity → row = other := fun row hrow other hother heq =>
    List.inj_on_of_nodup_map (h.nodup_identities hdistinct) hrow hother heq
  refine ⟨⟨fun row hrow => ?_, hbound, ?_⟩, ?_⟩
  · obtain ⟨principal, hprincipal, -, hid, -⟩ := h.binding_of_row hrow
    rw [hid]
    exact h.find_principal ⟨principal, hprincipal, rfl⟩
  · intro row hrow other hother hids hmark hmark'
    obtain ⟨principal, hprincipal, -, hid, hprimary⟩ := h.binding_of_row hrow
    obtain ⟨principal', hprincipal', -, hid', hprimary'⟩ := h.binding_of_row hother
    have hsame : principal = principal' := List.inj_on_of_nodup_map hdistinct.ids hprincipal
      hprincipal' (hid.symm.trans (hids.trans hid'))
    rw [hmark, eq_comm, decide_eq_true_eq] at hprimary
    rw [hmark', eq_comm, decide_eq_true_eq] at hprimary'
    exact hbound row hrow other hother (hprimary.trans (hsame ▸ hprimary'.symm))
  · intro p hp
    obtain ⟨principal, hprincipal, rfl⟩ := (Table.mem_map h.principals).mp hp
    obtain ⟨row, hrow, hid, -, hmark⟩ := h.row_of_binding hprincipal principal.primary_mem
    exact ⟨row, hrow, hid, by simpa using hmark⟩

/-! ## Notes, their history and their images -/

section Fits

variable (hfits : parts.Fits)
include hfits

theorem notesSound (hcount : parts.CountFromOne) : db.NotesSound where
  known := by
    refine ⟨(h.bindingsWhole hfits.principals).consistent, fun row hrow => ?_⟩
    obtain ⟨note, hnote, rfl⟩ := (Table.mem_map h.notes).mp hrow
    exact h.known (hfits.references.notes note hnote).1
  grantees row hrow := by
    obtain ⟨entry, hentry, rfl⟩ := (Table.mem_map h.noteAcl).mp hrow
    exact h.known (hfits.references.noteAcl entry hentry)
  valid row hrow := by
    obtain ⟨note, hnote, rfl⟩ := (Table.mem_map h.notes).mp hrow
    exact note.valid_toRow (hcount.notes note hnote).1 (hcount.notes note hnote).2
  history row hrow := by
    obtain ⟨entry, hentry, rfl⟩ := (Table.mem_map h.noteRevisions).mp hrow
    obtain ⟨current, hcurrent, hid, howner, hcreated, hvia, hle⟩ :=
      hfits.revisions.ofNote entry hentry
    obtain ⟨hpositive, hreview⟩ := hcount.noteRevisions entry hentry
    refine ⟨current.toRow, (Table.mem_map h.notes).mpr ⟨current, hcurrent, rfl⟩, hid, hle, ?_, ?_⟩
    · rw [entry.noteColumns_toRow howner hcreated hvia]
      exact entry.note.valid_toRow hpositive hreview
    · exact h.known (hfits.references.noteRevisions entry (Table.mem_orderBy.mpr hentry)).1

/-- The history of a note, as the constructors check it. -/
theorem historyComplete : db.HistoryComplete True where
  revisions row hrow := by
    obtain ⟨current, hcurrent, rfl⟩ := (Table.mem_map h.notes).mp hrow
    obtain ⟨latest, first, n, hlast, hsame, hmap⟩ :=
      map_of_isCompleteHistory (hfits.revisions.complete current hcurrent)
    have hlatest : latest.note.revision = current.revision :=
      congrArg NoteRow.revision hsame.toRow
    have hrevision := congrArg List.getLast? hmap
    rw [List.getLast?_map, hlast, List.getLast?_range'] at hrevision
    split_ifs at hrevision with hn
    · cases hrevision
    rw [Option.map_some, Option.some.injEq, hlatest] at hrevision
    have hrange : ∀ k, k ∈ List.range' first n ↔ first ≤ k ∧ k ≤ current.toRow.revision := by
      intro k
      rw [List.mem_range'_1]
      show _ ↔ first ≤ k ∧ k ≤ current.revision
      omega
    refine ⟨first, Or.inr trivial, fun k => ?_⟩
    rw [← hrange, ← hmap, List.mem_map]
    constructor
    · rintro ⟨r, hr, hid, rfl⟩
      obtain ⟨entry, hentry, rfl⟩ := (Table.mem_map h.noteRevisions).mp hr
      refine ⟨entry, List.mem_filter.mpr ⟨Table.mem_orderBy.mpr hentry, ?_⟩, rfl⟩
      exact decide_eq_true hid
    · rintro ⟨entry, hentry, rfl⟩
      obtain ⟨hentry, hid⟩ := List.mem_filter.mp hentry
      exact ⟨entry.toRow, (Table.mem_map h.noteRevisions).mpr
        ⟨entry, Table.mem_orderBy.mp hentry, rfl⟩, of_decide_eq_true hid, rfl⟩
  latest row hrow := by
    obtain ⟨current, hcurrent, rfl⟩ := (Table.mem_map h.notes).mp hrow
    obtain ⟨latest, first, n, hlast, hsame, -⟩ :=
      map_of_isCompleteHistory (hfits.revisions.complete current hcurrent)
    have hmem := Table.mem_orderBy.mp (List.mem_filter.mp (List.mem_of_getLast? hlast)).1
    refine ⟨latest.changedBy.id, latest.kind, (Table.mem_map h.noteRevisions).mpr
      ⟨latest, hmem, ?_⟩⟩
    unfold NoteRevisionSnapshot.toRow
    rw [hsame.toRow]
  notes row hrow := by
    obtain ⟨entry, hentry, rfl⟩ := (Table.mem_map h.noteRevisions).mp hrow
    obtain ⟨current, hcurrent, hid, -⟩ := hfits.revisions.ofNote entry hentry
    exact ⟨current.toRow, (Table.mem_map h.notes).mpr ⟨current, hcurrent, rfl⟩, hid⟩
  shownBy row hrow := by
    obtain ⟨reference, hreference, rfl⟩ := (Table.mem_map h.attachmentReferences).mp hrow
    obtain ⟨entry, hentry, hkey⟩ :=
      List.mem_map.mp (hfits.attachments.ofRevision reference hreference)
    obtain ⟨hid, hrevision⟩ := Prod.mk.inj hkey
    exact ⟨entry.toRow, (Table.mem_map h.noteRevisions).mpr ⟨entry, hentry, rfl⟩, hid, hrevision⟩
  stored row hrow := by
    obtain ⟨reference, hreference, rfl⟩ := (Table.mem_map h.attachmentReferences).mp hrow
    obtain ⟨attachment, hattachment, hid, hnote⟩ := hfits.attachments.shown reference hreference
    exact ⟨attachment.toRow, (Table.mem_map h.attachments).mpr ⟨attachment, hattachment, rfl⟩, hid,
      hnote⟩

theorem grantsSound : db.GrantsSound := by
  intro row hrow
  obtain ⟨entry, hentry, rfl⟩ := (Table.mem_map h.noteAcl).mp hrow
  obtain ⟨note, hnote, hid, hother⟩ := hfits.notes.granted entry hentry
  refine ⟨note.toRow, ?_, fun heq => hother heq.symm⟩
  rw [← h.find_note hnote, hid]
  rfl

theorem imagesSound : db.ImagesSound lib where
  stored row hrow := by
    obtain ⟨attachment, -, heq⟩ := (Table.mem_map h.attachments).mp hrow
    exact ⟨attachment, heq⟩
  note row hrow := by
    obtain ⟨attachment, hattachment, rfl⟩ := (Table.mem_map h.attachments).mp hrow
    obtain ⟨note, hnote, hid⟩ :=
      List.mem_map.mp (hfits.attachments.ofNote attachment hattachment)
    exact ⟨note.toRow, (Table.mem_map h.notes).mpr ⟨note, hnote, rfl⟩, hid⟩
  creator row hrow := by
    obtain ⟨attachment, hattachment, rfl⟩ := (Table.mem_map h.attachments).mp hrow
    exact h.known (hfits.references.attachments attachment (Table.mem_orderBy.mpr hattachment))
  limits n := by
    have himages : db.attachmentsOf n = (parts.attachments.filter fun attachment =>
        attachment.metadata.noteId = n).map StoredAttachment.toRow := by
      unfold attachmentsOf Table.select
      rw [h.attachments, List.filter_map]
      rfl
    refine ⟨?_, ?_⟩
    · rw [himages, List.length_map]
      exact hfits.attachments.count n
    · rw [himages, List.map_map]
      exact hfits.attachments.bytes n

/-! ## Libraries and macros -/

/-- A link leads from its owner's source to its owner's item. -/
theorem exists_linked {row : ImportLinkRow} (hrow : row ∈ db.bibliographyImportLinks) :
    (∃ link ∈ parts.links, row.importedItemRevision = link.importedItemRevision) ∧
      db.LinkReferences row ∧ ∃ item ∈ parts.items,
        db.bibliographyItems.find row.itemId = some item.toRow ∧
          row.importedItemRevision ≤ item.revision := by
  obtain ⟨link, hlink, source, hsource, hsourceId, rfl⟩ := h.links.exists_right hrow
  obtain ⟨other, hother, hotherId, item, hitem, hitemId, hsame, hle⟩ :=
    hfits.library.linked link hlink
  obtain rfl : source = other := List.inj_on_of_nodup_map hfits.library.sourceIds hsource hother
    (hsourceId.trans hotherId.symm)
  have hfindSource : db.bibliographyImportSources.find link.sourceId = some source.toRow :=
    hsourceId ▸ Table.find_map h.sources hsource
  have hfindItem : db.bibliographyItems.find link.itemId = some item.toRow :=
    hitemId ▸ Table.find_map h.items hitem
  exact ⟨⟨link, hlink, rfl⟩, ⟨⟨source.toRow, hfindSource, rfl⟩, item.toRow, hfindItem, hsame.symm⟩,
    item, hitem, hfindItem, hle⟩

theorem libraryConsistent (hcount : parts.CountFromOne) : db.LibraryConsistent json where
  principals := (h.bindingsWhole hfits.principals).consistent
  owners row hrow := by
    obtain ⟨item, hitem, rfl⟩ := (Table.mem_map h.items).mp hrow
    exact (h.bindingsWhole hfits.principals).exists_primaryIdentity
      (h.known (hfits.references.items item hitem))
  keys a ha b hb howner hkey := by
    obtain ⟨item, hitem, rfl⟩ := (Table.mem_map h.items).mp ha
    obtain ⟨item', hitem', rfl⟩ := (Table.mem_map h.items).mp hb
    rw [List.inj_on_of_nodup_map hfits.library.itemKeys hitem hitem' (Prod.ext howner hkey)]
  documents row hrow := by
    obtain ⟨item, -, rfl⟩ := (Table.mem_map h.items).mp hrow
    exact item.csl
  references row hrow := (h.exists_linked hfits hrow).2.1
  imported row hrow stored hstored := by
    obtain ⟨⟨link, hlink, hrevision⟩, -, item, -, hfind, hle⟩ := h.exists_linked hfits hrow
    rw [hfind, Option.some.injEq] at hstored
    subst hstored
    exact ⟨hrevision ▸ hcount.links link hlink, hle⟩

theorem importsSound : db.ImportsSound where
  check row hrow := by
    obtain ⟨source, -, rfl⟩ := (Table.mem_map h.sources).mp hrow
    exact ⟨⟨source.positive, source.times⟩, source.name⟩
  owner row hrow := by
    obtain ⟨source, hsource, rfl⟩ := (Table.mem_map h.sources).mp hrow
    exact h.known (hfits.references.sources source hsource)
  identifier row hrow := by
    obtain ⟨link, -, _, -, -, rfl⟩ := h.links.exists_right hrow
    exact link.identifier

theorem macrosSound (hrereads : ∀ entry ∈ parts.mathMacroSettings,
    codec.Rereads entry.settings.macros) : db.MacrosSound codec where
  stored row hrow := by
    obtain ⟨entry, hentry, rfl⟩ := (Table.mem_map h.mathMacroSettings).mp hrow
    obtain ⟨hrevision, hvalid⟩ := hfits.settings.valid entry hentry
    refine ⟨?_, entry.settings.macros, hvalid, hrereads entry hentry, rfl⟩
    show 0 < entry.settings.revision.toNat
    omega
  owner row hrow := by
    obtain ⟨entry, hentry, rfl⟩ := (Table.mem_map h.mathMacroSettings).mp hrow
    exact h.known (hfits.references.mathMacroSettings entry hentry)

end Fits

end Holds

end Database

/-! ## The whole database -/

namespace Database

variable {service : ServiceLibrary} {db : Database} {tables : LinkTables}
  {parts : SnapshotParts service.attachments service.imports.json}

/-- A database that holds parts that fit is sound. -/
theorem Holds.serviceSound (h : db.Holds service.macros parts tables) (hfits : parts.Fits)
    (hcount : parts.CountFromOne) (hrereads : ∀ entry ∈ parts.mathMacroSettings,
      service.macros.Rereads entry.settings.macros) : db.ServiceSound service where
  notes := h.notesSound hfits hcount
  history := h.historyComplete hfits
  grants := h.grantsSound hfits
  images := h.imagesSound hfits
  library := h.libraryConsistent hfits hcount
  positive row hrow := by
    obtain ⟨item, -, rfl⟩ := (Table.mem_map h.items).mp hrow
    exact item.positive
  imports := h.importsSound hfits
  macros := h.macrosSound hfits hrereads
  bindings := h.bindingsWhole hfits.principals

/-- A database without data holds no parts, whatever links between notes are left in it. -/
theorem NotesComplete.holds_empty (h : db.NotesComplete) (hnone : db.targetHasData = false)
    (codec : MathMacroCodec) {lib : AttachmentLibrary} {json : JsonCodec} :
    db.Holds codec (SnapshotParts.empty : SnapshotParts lib json) db.linkTables := by
  simp only [targetHasData, decide_eq_false_iff_not, not_or, not_not] at hnone
  obtain ⟨hprincipals, hnotes, hattachments, hitems, hsources, hlinks, hmacros, -⟩ := hnone
  have hunknown : ∀ q, ¬db.Known q := by
    rintro q ⟨p, hp⟩
    have hmem := Table.mem_of_find hp
    rw [Table.mem_def, hprincipals] at hmem
    cases hmem
  have hidentities : db.principalIdentities.rows = [] :=
    List.eq_nil_iff_forall_not_mem.mpr fun row hrow =>
      hunknown _ (h.notes.known.principals.principal row hrow)
  have hrevisions : db.noteRevisions.rows = [] :=
    List.eq_nil_iff_forall_not_mem.mpr fun r hr => by
      obtain ⟨note, hnote, -⟩ := h.notes.history r hr
      rw [Table.mem_def, hnotes] at hnote
      cases hnote
  have hshown : db.noteRevisionAttachments.rows = [] :=
    List.eq_nil_iff_forall_not_mem.mpr fun shown hshown => by
      obtain ⟨attachment, hattachment, -⟩ := h.history.stored shown hshown
      rw [Table.mem_def, hattachments] at hattachment
      cases hattachment
  have hacl : db.noteAcl.rows = [] :=
    List.eq_nil_iff_forall_not_mem.mpr fun row hrow => hunknown _ (h.notes.grantees row hrow)
  refine ⟨hnotes, hacl, hrevisions, hitems, hsources, ?_, hmacros, hprincipals, ?_, hattachments,
    hshown, rfl⟩
  · rw [hlinks]
    exact .nil
  · rw [hidentities]
    rfl

end Database

end Marginalis
