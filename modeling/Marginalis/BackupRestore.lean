import Marginalis.RestoreRoundTrip

/-!
# Restoring what was exported

An export reads every table in the order of its keys, so what it gives is in the order of an export
already (`sorted_exportRows`). In a database that a run of the service reaches it is also readable
in every other respect, and a backup that was taken there loses nothing : restored into an empty
database, it is exported again as it was (`backup_restores`).
-/

namespace Marginalis

open LogicalSnapshot
open Table (orderBy)

/-! ## The order of an export -/

namespace Database

variable {service : ServiceLibrary} {db : Database}
  {parts : SnapshotParts service.attachments service.imports.json}

theorem orderBy_exportNotes {notes : List Note} (h : db.exportNotes = .ok notes) :
    orderBy (fun note => note.noteId.entityId) notes = notes := by
  refine Except.orderBy_of_mapM (List.pairwise_filterMap_orderBy (k := fun details : NoteDetails =>
    details.row.noteId.entityId) fun row details hdetails => ?_) (fun details note hnote => ?_) h
  · rw [row_of_noteDetails hdetails]
  · rw [noteId_of_noteFromRow hnote]

theorem orderBy_exportAcl : orderBy (fun entry : NoteAclSnapshotEntry =>
    toLex (entry.noteId.entityId, entry.principal.primaryIdentity.key)) db.exportAcl =
      db.exportAcl := by
  refine Table.orderBy_eq_self ?_
  exact List.pairwise_map.mpr Table.pairwise_orderBy

theorem orderBy_allNoteRevisions {revisions : List NoteRevisionSnapshot}
    (h : db.allNoteRevisions = .ok revisions) : sortedRevisions revisions = revisions := by
  refine Except.orderBy_of_mapM (List.pairwise_filterMap_orderBy
    (k := fun details : RevisionDetails =>
      toLex (details.history.noteId.entityId, details.history.revision))
    fun row details hdetails => ?_) (fun details entry hentry => ?_) h
  · obtain ⟨_, -, hdetails⟩ := Option.bind_eq_some_iff.mp hdetails
    obtain ⟨_, -, hdetails⟩ := Option.bind_eq_some_iff.mp hdetails
    obtain ⟨_, -, hdetails⟩ := Option.bind_eq_some_iff.mp hdetails
    cases hdetails
    rfl
  · obtain ⟨note, hnote, hentry⟩ := Except.bind_eq_ok.mp hentry
    cases hentry
    obtain ⟨-, hid, -, -, -, -, hrevision, -⟩ := noteFromRow_eq_ok.mp hnote
    dsimp only at hid hrevision ⊢
    rw [hid, hrevision]
    rfl

theorem orderBy_exportItems {json : JsonCodec} {items : List (BibliographyItem json)}
    (h : db.exportItems json = .ok items) :
    orderBy (fun item => item.itemId.entityId) items = items := by
  refine Except.orderBy_of_mapM (List.pairwise_filterMap_orderBy
    (k := fun joined : BibliographyItemRow × Identity => joined.1.itemId.entityId)
    fun row joined hjoined => ?_) (fun joined item hitem => ?_) h
  · obtain ⟨_, -, rfl⟩ := Option.map_eq_some_iff.mp hjoined
    rfl
  · obtain ⟨-, -, -, csl, -, hrow⟩ := decodeItem_eq_ok.mp hitem
    exact congrArg (fun row : BibliographyItemRow => row.itemId.entityId) hrow

theorem orderBy_exportSources {sources : List BibliographyImportSource}
    (h : db.exportSources = .ok sources) :
    orderBy (fun source => source.sourceId.entityId) sources = sources := by
  refine Except.orderBy_of_mapM (List.pairwise_filterMap_orderBy
    (k := fun joined : ImportSourceRow × Identity => joined.1.sourceId.entityId)
    fun row joined hjoined => ?_) (fun joined source hsource => ?_) h
  · rw [(shows_of_withIdentity hjoined).1]
  · rw [← (decodeSource_eq_ok.mp hsource).1]
    rfl

theorem orderBy_exportLinks {links : List BibliographyImportLink}
    (h : db.exportLinks = .ok links) : orderBy (fun link : BibliographyImportLink =>
      toLex (link.sourceId.entityId, link.externalItemId)) links = links := by
  refine Except.orderBy_of_mapM Table.pairwise_orderBy (fun row link hlink => ?_) h
  rw [← (decodeLink_eq_ok.mp hlink).2]
  rfl

theorem orderBy_exportMathMacros {codec : MathMacroCodec}
    {settings : List MathMacroSettingsSnapshot} (h : db.exportMathMacros codec = .ok settings) :
    orderBy (fun entry : MathMacroSettingsSnapshot => entry.owner.primaryIdentity.key) settings =
      settings := by
  refine Except.orderBy_of_mapM Table.pairwise_orderBy (fun joined entry hentry => ?_) h
  obtain ⟨_, -, hentry⟩ := Except.bind_eq_ok.mp hentry
  cases hentry
  rfl

theorem orderBy_exportAttachments {lib : AttachmentLibrary}
    {attachments : List (StoredAttachment lib)} (h : db.exportAttachments lib = .ok attachments) :
    sortedAttachments attachments = attachments := by
  refine Except.orderBy_of_mapM (List.pairwise_filterMap_orderBy
    (k := fun joined : AttachmentRow × Identity => joined.1.attachmentId.entityId)
    fun row joined hjoined => ?_) (fun joined attachment hattachment => ?_) h
  · rw [(shows_of_withIdentity hjoined).1]
  · obtain ⟨metadata, hmetadata, hstored⟩ := Except.bind_eq_ok.mp hattachment
    have hnew := StoredAttachment.metadata_of_new (Except.mapError_eq_ok.mp hstored)
    obtain ⟨_, hread⟩ := AttachmentMetadata.eq_of_new (Except.mapError_eq_ok.mp hmetadata)
    obtain ⟨_, hchecked⟩ := AttachmentMetadata.eq_of_new hnew
    rw [hchecked, hread]

theorem orderBy_exportAttachmentReferences {references : List NoteRevisionAttachment}
    (h : db.exportAttachmentReferences = .ok references) :
    sortedReferences references = references := by
  refine Except.orderBy_of_mapM Table.pairwise_orderBy (fun row reference hreference => ?_) h
  unfold revisionAttachment at hreference
  split_ifs at hreference
  cases hreference
  rfl

/-- A principal is read with the primary identity first. -/
theorem sorted_of_exportPrincipal {q : PrincipalId} {principal : Principal}
    (h : db.exportPrincipal q = .ok principal) : principal.sorted = principal := by
  unfold exportPrincipal at h
  dsimp only at h
  split at h
  · next primary hmarked =>
    rw [Except.mapError_eq_ok] at h
    unfold Principal.restore at h
    split_ifs at h with hvalid
    cases h
    have hprimary : primary ∈ (db.identitiesOf q).filter IdentityRow.isPrimary :=
      hmarked ▸ List.mem_singleton_self _
    have hmark : ∀ row ∈ db.identitiesOf q,
        row.isPrimary = decide (row.identity = primary.identity) := by
      intro row hrow
      by_cases hsame : row.identity = primary.identity
      · rw [List.inj_on_of_nodup_map hvalid.2.2 hrow (List.mem_filter.mp hprimary).1 hsame,
          (List.mem_filter.mp hprimary).2]
        simp
      · rw [decide_eq_false hsame]
        by_contra hrowPrimary
        have hmem : row ∈ (db.identitiesOf q).filter IdentityRow.isPrimary :=
          List.mem_filter.mpr ⟨hrow, by simpa using hrowPrimary⟩
        rw [hmarked, List.mem_singleton] at hmem
        exact hsame (congrArg IdentityRow.identity hmem)
    refine Principal.eq_of rfl (Table.orderBy_eq_self (List.pairwise_map.mpr ?_))
    refine (Table.pairwise_orderBy (g := fun row : IdentityRow =>
      toLex (!row.isPrimary, row.identity.key))).imp_of_mem fun hrow hrow' hle => ?_
    rwa [hmark _ hrow, hmark _ hrow'] at hle
  · cases h

theorem sorted_exportPrincipals {principals : List Principal}
    (h : db.exportPrincipals = .ok principals) :
    (orderBy (fun principal => principal.reference.id.get) principals).map Principal.sorted =
      principals := by
  have hids : ∀ (row : PrincipalRow) principal, db.exportPrincipal row.principalId = .ok principal →
      principal.reference.id.get = row.principalId.get := by
    intro row principal hprincipal
    unfold exportPrincipal at hprincipal
    dsimp only at hprincipal
    split at hprincipal
    · rw [Except.mapError_eq_ok] at hprincipal
      unfold Principal.restore at hprincipal
      split_ifs at hprincipal
      cases hprincipal
      rfl
    · cases hprincipal
  rw [Except.orderBy_of_mapM Table.pairwise_orderBy hids h]
  refine (List.map_congr_left fun principal hmem => ?_).trans (List.map_id _)
  obtain ⟨row, -, hprincipal⟩ := Except.exists_of_mem_mapM h hmem
  exact sorted_of_exportPrincipal hprincipal

/-- What is read is in the order of an export. -/
theorem sorted_exportRows (h : db.exportRows service = .ok parts) : parts.sorted = parts := by
  obtain ⟨hnotes, hacl, hitems, hsources, hlinks, hsettings, hprincipals, hrevisions,
    hattachments, hreferences⟩ := exportRows_eq_ok.mp h
  unfold SnapshotParts.sorted
  rw [orderBy_exportNotes hnotes, ← hacl, orderBy_exportAcl, orderBy_allNoteRevisions hrevisions,
    orderBy_exportItems hitems, orderBy_exportSources hsources, orderBy_exportLinks hlinks,
    orderBy_exportMathMacros hsettings, sorted_exportPrincipals hprincipals,
    orderBy_exportAttachments hattachments, orderBy_exportAttachmentReferences hreferences, hacl]

/-! ## Backups -/

variable {μ : Type*} {moves : List (Move Database (DatabaseOperation service μ))}
  {s : LogicalSnapshot service.attachments service.imports.json} {queries : NoteQueries}

/-- A backup that was taken in any run is restored without a loss. -/
theorem backup_restores (hrun : Run DatabaseOperation.LegalStep empty moves db)
    (hexport : db.exportArchiveSnapshot service = .ok s)
    (hrereads : ∀ item ∈ s.bibliographyItems, item.Rereads)
    (hanalyzed : ∀ note ∈ s.notes, queries.Analyzes note) :
    ∃ plan restored, restorePlan queries s = .ok plan ∧
      empty.restore service.macros plan = .ok restored ∧
      restored.exportArchiveSnapshot service = .ok s ∧ restored.ShowsLinks queries s.notes := by
  have h := serviceSound_of_run hrun
  obtain ⟨rows, hrows, rfl⟩ := h.exportArchiveSnapshot_eq_ok.mp hexport
  have hfits := (h.exported hrows).fits h
  have hread := (h.exported hrows).readable h hrereads
  have hsorted := sorted_exportRows hrows
  have hparts := SnapshotParts.parts_logicalSnapshot hsorted
  obtain ⟨plan, restored, hplan, hrestore, hexported, hlinks⟩ := exists_restored
    (hfits.rearrange rows.rearranges_logicalSnapshot) hread.logicalSnapshot hanalyzed
  rw [hparts, hsorted] at hexported
  exact ⟨plan, restored, hplan, hrestore, hexported, hlinks⟩

/-- The workspace is restored. -/
theorem backup_restores_workspace : ∃ s plan restored,
    workspace.exportArchiveSnapshot workspaceService = .ok s ∧
    restorePlan workspaceQueries s = .ok plan ∧
      empty.restore workspaceService.macros plan = .ok restored ∧
      restored.exportArchiveSnapshot workspaceService = .ok s ∧
      restored.ShowsLinks workspaceQueries s.notes := by
  obtain ⟨rows, hrows, -, hitems⟩ := exists_workspaceRows
  have hs : workspace.exportArchiveSnapshot workspaceService = .ok rows.logicalSnapshot :=
    (serviceSound_of_run run_fillWorkspace).exportArchiveSnapshot_eq_ok.mpr ⟨rows, hrows, rfl⟩
  obtain ⟨plan, restored, hplan⟩ := backup_restores run_fillWorkspace hs hitems fun note _ =>
    analyzes_workspaceQueries note
  exact ⟨_, plan, restored, hs, hplan⟩

end Database

end Marginalis
