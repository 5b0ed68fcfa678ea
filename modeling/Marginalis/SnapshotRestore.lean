import Marginalis.AclReplacement
import Marginalis.RestorePlan
import Marginalis.SnapshotExport

/-!
# Restoring a snapshot

Parts that fit (`SnapshotParts.Fits`) meet every constraint of the schema, so their restore into a
database without data never fails (`Holds.exists_restore`). Afterwards every table holds the rows of
its part, in the order they came in (`Holds`), and no change is recorded. The proof follows the
loops of `restore` : each of them adds to what the tables hold, and finds there what its rows refer
to.
-/

namespace Marginalis

open LogicalSnapshot
open List (EachAfter)
open Table (orderBy)

variable {lib : AttachmentLibrary} {json : JsonCodec}

/-! ## The tables of parts -/

/-- The tables of the links between notes. -/
structure LinkTables where
  citations : Table CitationRow
  references : Table ReferenceRow

def Database.linkTables (db : Database) : LinkTables := ⟨db.noteCitations, db.noteReferences⟩

namespace LinkTables

variable (tables : LinkTables)

/-- The citations are inserted, those that are there already once more. -/
def cite (citations : List (NoteId × String)) : LinkTables where
  citations := tables.citations.upsertAll (citations.map fun link => ⟨link.1, link.2⟩)
  references := tables.references

/-- The references are inserted, those that are there already once more. -/
def refer (references : List (NoteId × NoteId)) : LinkTables where
  citations := tables.citations
  references := tables.references.upsertAll (references.map fun link => ⟨link.1, link.2⟩)

theorem cite_concat {citations : List (NoteId × String)} {link : NoteId × String} :
    tables.cite (citations ++ [link]) = (tables.cite citations).cite [link] := by
  simp [cite, Table.upsertAll, List.foldl_append]

theorem refer_concat {references : List (NoteId × NoteId)} {link : NoteId × NoteId} :
    tables.refer (references ++ [link]) = (tables.refer references).refer [link] := by
  simp [refer, Table.upsertAll, List.foldl_append]

end LinkTables

/-- The links of a plan, and no others. -/
def RestorePlan.linkTables (plan : RestorePlan lib json) : LinkTables :=
  ((⟨.empty, .empty⟩ : LinkTables).cite plan.citations).refer plan.references

theorem RestorePlan.mem_citations {plan : RestorePlan lib json} {row : CitationRow} :
    row ∈ plan.linkTables.citations ↔ (row.sourceNoteId, row.citationKey) ∈ plan.citations := by
  show row ∈ (Table.empty : Table CitationRow).upsertAll _ ↔ _
  rw [Table.mem_upsertAll id fun _ _ => rfl]
  constructor
  · rintro (hrow | ⟨hrow, -⟩)
    · obtain ⟨link, hlink, rfl⟩ := List.mem_map.mp hrow
      exact hlink
    · exact absurd hrow Table.not_mem_empty
  · intro hlink
    exact Or.inl (List.mem_map.mpr ⟨_, hlink, rfl⟩)

theorem RestorePlan.mem_references {plan : RestorePlan lib json} {row : ReferenceRow} :
    row ∈ plan.linkTables.references ↔
      (row.sourceNoteId, row.targetNoteId) ∈ plan.references := by
  show row ∈ (Table.empty : Table ReferenceRow).upsertAll _ ↔ _
  rw [Table.mem_upsertAll id fun _ _ => rfl]
  constructor
  · rintro (hrow | ⟨hrow, -⟩)
    · obtain ⟨link, hlink, rfl⟩ := List.mem_map.mp hrow
      exact hlink
    · exact absurd hrow Table.not_mem_empty
  · intro hlink
    exact Or.inl (List.mem_map.mpr ⟨_, hlink, rfl⟩)

namespace SnapshotParts

/-- No parts. -/
def empty : SnapshotParts lib json := ⟨[], [], [], [], [], [], [], [], [], []⟩

/-- Revisions count from one. `Revision::new` takes no zero, so no value of the source is without
this. -/
structure CountFromOne (parts : SnapshotParts lib json) : Prop where
  notes : ∀ note ∈ parts.notes,
    0 < note.revision ∧ ∀ review ∈ note.review.lastReview, 0 < review.revision
  noteRevisions : ∀ entry ∈ parts.noteRevisions,
    0 < entry.note.revision ∧ ∀ review ∈ entry.note.review.lastReview, 0 < review.revision
  links : ∀ link ∈ parts.links, 0 < link.importedItemRevision

end SnapshotParts

/-- The parts of a snapshot. -/
def LogicalSnapshot.parts (s : LogicalSnapshot lib json) : SnapshotParts lib json where
  notes := s.notes
  noteAcl := s.noteAcl
  noteRevisions := s.noteRevisions
  items := s.bibliographyItems
  sources := s.bibliographyImportSources
  links := s.bibliographyImportLinks
  mathMacroSettings := s.mathMacroSettings
  principals := s.principals
  attachments := s.attachments
  attachmentReferences := s.noteRevisionAttachments

namespace SnapshotParts

variable {parts parts' : SnapshotParts lib json}

/-- The constructors change the order of entries only. -/
theorem rearranges_logicalSnapshot (parts : SnapshotParts lib json) :
    parts.Rearranges parts.logicalSnapshot.parts where
  notes := .refl _
  noteAcl := .refl _
  noteRevisions := Table.orderBy_perm.symm
  items := .refl _
  sources := .refl _
  links := .refl _
  mathMacroSettings := .refl _
  principals := ⟨_, .refl _, List.forall₂_same.mpr fun _ _ => ⟨rfl, .refl _⟩⟩
  attachments := Table.orderBy_perm.symm
  attachmentReferences := Table.orderBy_perm.symm

theorem CountFromOne.rearrange (h : parts.CountFromOne) (hr : parts.Rearranges parts') :
    parts'.CountFromOne where
  notes note hnote := h.notes note (hr.notes.mem_iff.mpr hnote)
  noteRevisions entry hentry := h.noteRevisions entry (hr.noteRevisions.mem_iff.mpr hentry)
  links link hlink := h.links link (hr.links.mem_iff.mpr hlink)

end SnapshotParts

namespace Database

/-- The row of a link, which is the owner's of its source. -/
def LinkHeld (sources : List BibliographyImportSource) (row : ImportLinkRow)
    (link : BibliographyImportLink) : Prop :=
  ∃ source ∈ sources, source.sourceId = link.sourceId ∧ row = link.toRow source.owner.id

theorem LinkHeld.shown {sources : List BibliographyImportSource} {row : ImportLinkRow}
    {link : BibliographyImportLink} (h : LinkHeld sources row link) : LinkShown row link := by
  obtain ⟨source, -, -, rfl⟩ := h
  rfl

/-- The tables hold the rows of the parts, in their order, and these links between notes. -/
structure Holds (codec : MathMacroCodec) (db : Database) (parts : SnapshotParts lib json)
    (tables : LinkTables) : Prop where
  notes : db.notes.rows = parts.notes.map Note.toRow
  noteAcl : db.noteAcl.rows = parts.noteAcl.map NoteAclSnapshotEntry.toRow
  noteRevisions : db.noteRevisions.rows = parts.noteRevisions.map NoteRevisionSnapshot.toRow
  items : db.bibliographyItems.rows = parts.items.map BibliographyItem.toRow
  sources : db.bibliographyImportSources.rows =
    parts.sources.map BibliographyImportSource.toRow
  links : List.Forall₂ (LinkHeld parts.sources) db.bibliographyImportLinks.rows parts.links
  mathMacroSettings : db.mathMacroSettings.rows = parts.mathMacroSettings.map fun entry =>
    entry.toRow codec
  principals : db.principals.rows = parts.principals.map fun principal =>
    ⟨principal.reference.id⟩
  identities : db.principalIdentities.rows.map IdentityRow.binding =
    parts.principals.flatMap fun principal => principal.identities.map principal.binding
  attachments : db.noteAttachments.rows = parts.attachments.map StoredAttachment.toRow
  attachmentReferences : db.noteRevisionAttachments.rows =
    parts.attachmentReferences.map NoteRevisionAttachment.toRow
  linkTables : db.linkTables = tables

variable {codec : MathMacroCodec} {db : Database} {done : SnapshotParts lib json}
  {tables : LinkTables}

theorem holds_empty : empty.Holds codec (SnapshotParts.empty : SnapshotParts lib json)
    ⟨.empty, .empty⟩ :=
  ⟨rfl, rfl, rfl, rfl, rfl, .nil, rfl, rfl, rfl, rfl, rfl, rfl⟩

namespace Holds

/-! ### Look-ups -/

theorem find_principal (h : db.Holds codec done tables) {reference : PrincipalRef}
    (hknows : Knows done.principals reference) : (db.principals.find reference.id).isSome := by
  obtain ⟨principal, hmem, rfl⟩ := hknows
  exact Option.isSome_iff_exists.mpr ⟨_, Table.find_map h.principals hmem⟩

theorem find_note (h : db.Holds codec done tables) {note : Note} (hnote : note ∈ done.notes) :
    db.notes.find note.noteId = some note.toRow :=
  Table.find_map h.notes hnote

theorem isSome_find_note (h : db.Holds codec done tables) {noteId : NoteId}
    (hnote : noteId ∈ done.notes.map fun note => note.noteId) : (db.notes.find noteId).isSome := by
  obtain ⟨note, hmem, rfl⟩ := List.mem_map.mp hnote
  rw [h.find_note hmem]
  rfl

/-! ### Principals -/

end Holds

/-- The insert of an identity that is not bound yet, to a principal that has no other primary
one. -/
theorem exists_insertPrincipalIdentity (db : Database) {principal : Principal} {identity : Identity}
    (hfound : (db.principals.find principal.reference.id).isSome)
    (hbound : ∀ row ∈ db.principalIdentities, row.identity ≠ identity ∧
      (row.principalId = principal.reference.id → row.isPrimary = true →
        identity ≠ principal.reference.primaryIdentity)) :
    ∃ identities : Table IdentityRow, db.insertPrincipalIdentity principal identity =
      .ok { db with principalIdentities := identities } ∧
        identities.rows.map IdentityRow.binding =
          db.principalIdentities.rows.map IdentityRow.binding ++ [principal.binding identity] := by
  obtain ⟨rows, hinsert⟩ := Table.exists_insert? (r := (⟨db.nextIdentityId,
    principal.reference.id, identity, decide (identity = principal.reference.primaryIdentity)⟩ :
      IdentityRow)) db.find_nextIdentityId
  have hfresh : ¬∃ row ∈ db.principalIdentities, row.identity = identity := by
    rintro ⟨row, hrow, heq⟩
    exact (hbound row hrow).1 heq
  have hone : ¬(decide (identity = principal.reference.primaryIdentity) = true ∧
      ∃ row ∈ db.principalIdentities, row.principalId = principal.reference.id ∧
        row.isPrimary = true) := by
    rintro ⟨hprimary, row, hrow, hid, hmark⟩
    exact (hbound row hrow).2 hid hmark (of_decide_eq_true hprimary)
  refine ⟨rows, ?_, ?_⟩
  · unfold insertPrincipalIdentity insertIdentity
    rw [if_pos ⟨hfound, hfresh, hone⟩, hinsert]
    rfl
  · rw [(Table.insert?_eq_some.mp hinsert).2, List.map_append]
    rfl

/-- The inserts of the identities of a new principal. -/
theorem exists_insertIdentities (db : Database) {principal : Principal}
    (hfound : (db.principals.find principal.reference.id).isSome)
    (hnew : ∀ row ∈ db.principalIdentities,
      row.principalId ≠ principal.reference.id ∧ row.identity ∉ principal.identities) :
    ∃ t, principal.identities.foldlM (fun (db : Database) identity =>
      db.insertPrincipalIdentity principal identity) db = .ok t ∧
        ∃ identities : Table IdentityRow, t = { db with principalIdentities := identities } ∧
          identities.rows.map IdentityRow.binding =
            db.principalIdentities.rows.map IdentityRow.binding ++
              principal.identities.map principal.binding := by
  have hafter : EachAfter (fun before identity =>
      identity ∉ before.map id ∧ identity ∈ principal.identities) principal.identities :=
    List.eachAfter_and.mpr ⟨List.eachAfter_notMem.mpr (by simpa using principal.nodup),
      List.eachAfter_forall.mpr fun _ h => h⟩
  refine hafter.exists_foldlM (I := fun before (t : Database) => ∃ identities : Table IdentityRow,
    t = { db with principalIdentities := identities } ∧
      identities.rows.map IdentityRow.binding =
        db.principalIdentities.rows.map IdentityRow.binding ++ before.map principal.binding)
    ?_ ⟨db.principalIdentities, rfl, by simp⟩
  rintro before identity _ ⟨hfresh, hmem⟩ ⟨identities, rfl, hrows⟩
  rw [List.map_id] at hfresh
  have hbound : ∀ row ∈ identities, row.identity ≠ identity ∧
      (row.principalId = principal.reference.id → row.isPrimary = true →
        identity ≠ principal.reference.primaryIdentity) := by
    intro row hrow
    have hbinding := List.mem_map_of_mem (f := IdentityRow.binding) hrow
    rw [hrows, List.mem_append, List.mem_map, List.mem_map] at hbinding
    rcases hbinding with ⟨old, hold, heq⟩ | ⟨earlier, hearlier, heq⟩
    · obtain ⟨hid, hidentity, -⟩ : old.principalId = row.principalId ∧
        old.identity = row.identity ∧ old.isPrimary = row.isPrimary := by
          simpa [IdentityRow.binding] using heq
      obtain ⟨hother, hunbound⟩ := hnew old hold
      refine ⟨?_, fun h => absurd (hid.trans h) hother⟩
      rintro rfl
      exact hunbound (hidentity ▸ hmem)
    · obtain ⟨-, rfl, hprimary⟩ : principal.reference.id = row.principalId ∧
        earlier = row.identity ∧ decide (earlier = principal.reference.primaryIdentity) =
          row.isPrimary := by
          simpa [IdentityRow.binding, Principal.binding] using heq
      refine ⟨?_, fun _ hmark heq => ?_⟩
      · rintro rfl
        exact hfresh hearlier
      · rw [hmark, decide_eq_true_eq] at hprimary
        exact hfresh (heq.trans hprimary.symm ▸ hearlier)
  obtain ⟨inserted, hinsert, hinserted⟩ := exists_insertPrincipalIdentity
    { db with principalIdentities := identities } hfound hbound
  refine ⟨_, hinsert, inserted, rfl, ?_⟩
  rw [hinserted, hrows, List.append_assoc, List.map_append, List.map_singleton]

namespace Holds

theorem exists_principals (h : db.Holds codec done tables) (hnone : done.principals = [])
    {principals : List Principal} (hdistinct : DistinctPrincipals principals) :
    ∃ db', principals.foldlM (fun (db : Database) principal => db.insertPrincipal principal) db =
      .ok db' ∧ db'.Holds codec { done with principals := principals } tables := by
  have hafter : EachAfter (fun before principal =>
      principal.reference.id ∉ before.map (fun principal => principal.reference.id) ∧
        ∀ other ∈ before, other.identities.Disjoint principal.identities) principals :=
    List.eachAfter_and.mpr ⟨List.eachAfter_notMem.mpr hdistinct.ids,
      List.eachAfter_pairwise.mpr hdistinct.identities⟩
  refine hafter.exists_foldlM (I := fun before (db : Database) => db.Holds codec { done with
    principals := before } tables) (fun before principal s hnew hs => ?_) (by rw [← hnone]; exact h)
  obtain ⟨rows, hinsert, hrows⟩ := Table.exists_insert?_map hs.principals
    (fun _ heq => heq) hnew.1
  have hunbound : ∀ row ∈ s.principalIdentities,
      row.principalId ≠ principal.reference.id ∧ row.identity ∉ principal.identities := by
    intro row hrow
    have hbinding := List.mem_map_of_mem (f := IdentityRow.binding) hrow
    rw [hs.identities, List.mem_flatMap] at hbinding
    obtain ⟨other, hother, hbinding⟩ := hbinding
    obtain ⟨identity, hidentity, heq⟩ := List.mem_map.mp hbinding
    obtain ⟨hid, rfl, -⟩ : other.reference.id = row.principalId ∧ identity = row.identity ∧
        decide (identity = other.reference.primaryIdentity) = row.isPrimary := by
      simpa [IdentityRow.binding, Principal.binding] using heq
    refine ⟨fun heq => hnew.1 (List.mem_map.mpr ⟨other, hother, hid.trans heq⟩), ?_⟩
    exact hnew.2 other hother hidentity
  have hrow : (⟨principal.reference.id⟩ : PrincipalRow) ∈ rows :=
    (Table.mem_insert? hinsert).mpr (Or.inr rfl)
  have hfound : (rows.find principal.reference.id).isSome :=
    Option.isSome_iff_exists.mpr ⟨_, Table.find_of_mem hrow⟩
  obtain ⟨_, hfold, identities, rfl, hidentities⟩ :=
    exists_insertIdentities { s with principals := rows } hfound hunbound
  refine ⟨{ s with principals := rows, principalIdentities := identities }, ?_,
    { hs with principals := hrows, identities := ?_ }⟩
  · unfold insertPrincipal
    rw [hinsert]
    exact hfold
  · rw [List.flatMap_append, ← hs.identities]
    simpa using hidentities

/-! ### Notes and their images -/

theorem exists_notes (h : db.Holds codec done tables) (hnone : done.notes = []) {notes : List Note}
    (hids : (notes.map fun note => note.noteId).Nodup) (hcheck : ∀ note ∈ notes, note.toRow.Check)
    (howner : ∀ note ∈ notes, Knows done.principals note.owner) :
    ∃ db', notes.foldlM (fun (db : Database) note => db.insertNoteRow note.toRow) db = .ok db' ∧
      db'.Holds codec { done with notes := notes } tables := by
  have hafter := List.eachAfter_and.mpr ⟨List.eachAfter_notMem.mpr hids,
    List.eachAfter_forall.mpr fun note hnote => And.intro (hcheck note hnote) (howner note hnote)⟩
  refine hafter.exists_foldlM (I := fun before (db : Database) => db.Holds codec { done with
    notes := before } tables) (fun before note s hnote hs => ?_) (by rw [← hnone]; exact h)
  obtain ⟨rows, hinsert, hrows⟩ := Table.exists_insert?_map hs.notes (fun _ heq => heq) hnote.1
  have hinserted : insertNoteRow s note.toRow =
      .ok (recordChange { s with notes := rows } note.toRow.insertChange) := by
    unfold insertNoteRow
    rw [if_pos ⟨hnote.2.1, hs.find_principal hnote.2.2⟩, hinsert]
  exact ⟨recordChange { s with notes := rows } note.toRow.insertChange, hinserted,
    { hs with notes := hrows }⟩

theorem exists_attachments (h : db.Holds codec done tables) (hnone : done.attachments = [])
    {attachments : List (StoredAttachment lib)}
    (hids : (attachments.map fun attachment => attachment.metadata.attachmentId).Nodup)
    (hnotes : ∀ attachment ∈ attachments,
      attachment.metadata.noteId ∈ done.notes.map fun note => note.noteId)
    (hcreators : ∀ attachment ∈ attachments,
      Knows done.principals attachment.metadata.createdBy) :
    ∃ db', attachments.foldlM insertAttachmentRow db = .ok db' ∧
      db'.Holds codec { done with attachments := attachments } tables := by
  have hafter := List.eachAfter_and.mpr ⟨List.eachAfter_notMem.mpr hids,
    List.eachAfter_forall.mpr fun attachment hmem =>
      And.intro (hnotes attachment hmem) (hcreators attachment hmem)⟩
  refine hafter.exists_foldlM (I := fun before (db : Database) => db.Holds codec { done with
    attachments := before } tables) (fun before attachment s hnew hs => ?_)
    (by rw [← hnone]; exact h)
  obtain ⟨rows, hinsert, hrows⟩ :=
    Table.exists_insert?_map hs.attachments (fun _ heq => heq) hnew.1
  have hinserted : insertAttachmentRow s attachment = .ok { s with noteAttachments := rows } := by
    unfold insertAttachmentRow
    rw [if_pos ⟨hs.isSome_find_note hnew.2.1, hs.find_principal hnew.2.2⟩, hinsert]
  exact ⟨{ s with noteAttachments := rows }, hinserted, { hs with attachments := hrows }⟩

theorem exists_noteRevisions (h : db.Holds codec done tables) (hnone : done.noteRevisions = [])
    {revisions : List NoteRevisionSnapshot}
    (hkeys : (revisions.map fun entry => (entry.note.noteId, entry.note.revision)).Nodup)
    (hcheck : ∀ entry ∈ revisions, entry.toRow.Check)
    (hnotes : ∀ entry ∈ revisions,
      entry.note.noteId ∈ done.notes.map fun note => note.noteId)
    (hknown : ∀ entry ∈ revisions, Knows done.principals entry.changedBy ∧
      ∀ review ∈ entry.note.review.lastReview, Knows done.principals review.reviewer) :
    ∃ db', revisions.foldlM insertNoteRevisionRow db = .ok db' ∧
      db'.Holds codec { done with noteRevisions := revisions } tables := by
  have hafter := List.eachAfter_and.mpr ⟨List.eachAfter_notMem.mpr hkeys,
    List.eachAfter_forall.mpr fun entry hmem =>
      And.intro (hcheck entry hmem) (And.intro (hnotes entry hmem) (hknown entry hmem))⟩
  refine hafter.exists_foldlM (I := fun before (db : Database) => db.Holds codec { done with
    noteRevisions := before } tables) (fun before entry s hnew hs => ?_) (by rw [← hnone]; exact h)
  obtain ⟨rows, hinsert, hrows⟩ :=
    Table.exists_insert?_map hs.noteRevisions (fun _ heq => heq) hnew.1
  have hinserted : insertNoteRevisionRow s entry = .ok { s with noteRevisions := rows } := by
    unfold insertNoteRevisionRow
    rw [if_pos ⟨hnew.2.1, hs.isSome_find_note hnew.2.2.1, hs.find_principal hnew.2.2.2.1,
      fun review hreview => hs.find_principal (hnew.2.2.2.2 review hreview)⟩, hinsert]
  exact ⟨{ s with noteRevisions := rows }, hinserted, { hs with noteRevisions := hrows }⟩

theorem exists_attachmentReferences (h : db.Holds codec done tables)
    (hnone : done.attachmentReferences = []) {references : List NoteRevisionAttachment}
    (hnodup : references.Nodup)
    (hrevisions : ∀ reference ∈ references, (reference.noteId, reference.revision) ∈
      done.noteRevisions.map fun entry => (entry.note.noteId, entry.note.revision))
    (hshown : ∀ reference ∈ references, ∃ attachment ∈ done.attachments,
      attachment.metadata.attachmentId = reference.attachmentId ∧
        attachment.metadata.noteId = reference.noteId) :
    ∃ db', references.foldlM insertRevisionAttachmentRow db = .ok db' ∧
      db'.Holds codec { done with attachmentReferences := references } tables := by
  have hafter := List.eachAfter_and.mpr ⟨List.eachAfter_notMem.mpr
    (show (references.map id).Nodup by simpa using hnodup),
    List.eachAfter_forall.mpr fun reference hmem =>
      And.intro (hrevisions reference hmem) (hshown reference hmem)⟩
  refine hafter.exists_foldlM (I := fun before (db : Database) => db.Holds codec { done with
    attachmentReferences := before } tables) (fun before reference s hnew hs => ?_)
    (by rw [← hnone]; exact h)
  have hinj : ∀ other : NoteRevisionAttachment, reference.toRow = other.toRow →
      id reference = id other := by
    intro other heq
    obtain ⟨hid, hrevision, hattachment⟩ := RevisionAttachmentRow.mk.inj heq
    cases reference
    cases other
    exact NoteRevisionAttachment.mk.injEq .. ▸ ⟨hid, hrevision, hattachment⟩
  obtain ⟨rows, hinsert, hrows⟩ := Table.exists_insert?_map hs.attachmentReferences hinj hnew.1
  obtain ⟨entry, hentry, hkey⟩ := List.mem_map.mp hnew.2.1
  have hrevision : (s.noteRevisions.find (reference.noteId, reference.revision)).isSome := by
    have hfind : s.noteRevisions.find (entry.note.noteId, entry.note.revision) =
        some entry.toRow := Table.find_map hs.noteRevisions hentry
    rw [← hkey, hfind]
    rfl
  obtain ⟨attachment, hattachment, hid, hnote⟩ := hnew.2.2
  have hattached : ∃ row ∈ s.noteAttachments.find reference.attachmentId,
      row.noteId = reference.noteId := by
    have hfind : s.noteAttachments.find attachment.metadata.attachmentId =
        some attachment.toRow := Table.find_map hs.attachments hattachment
    exact ⟨attachment.toRow, hid ▸ hfind, hnote⟩
  have hinserted : insertRevisionAttachmentRow s reference =
      .ok { s with noteRevisionAttachments := rows } := by
    unfold insertRevisionAttachmentRow
    rw [if_pos ⟨hrevision, hattached⟩, hinsert]
  exact ⟨{ s with noteRevisionAttachments := rows }, hinserted,
    { hs with attachmentReferences := hrows }⟩

/-! ### Libraries and macros -/

theorem exists_items (h : db.Holds codec done tables) (hnone : done.items = [])
    {items : List (BibliographyItem json)}
    (hids : (items.map fun item => item.itemId).Nodup)
    (hkeys : (items.map fun item => (item.owner.id, item.citationKey)).Nodup)
    (howner : ∀ item ∈ items, Knows done.principals item.owner) :
    ∃ db', items.foldlM (fun (db : Database) item => db.insertBibliographyItemRow item.toRow) db =
      .ok db' ∧ db'.Holds codec { done with items := items } tables := by
  have hafter := List.eachAfter_and.mpr ⟨List.eachAfter_notMem.mpr hids,
    List.eachAfter_and.mpr ⟨List.eachAfter_notMem.mpr hkeys, List.eachAfter_forall.mpr howner⟩⟩
  refine hafter.exists_foldlM (I := fun before (db : Database) => db.Holds codec { done with
    items := before } tables) (fun before item s hnew hs => ?_) (by rw [← hnone]; exact h)
  obtain ⟨rows, hinsert, hrows⟩ := Table.exists_insert?_map hs.items (fun _ heq => heq) hnew.1
  have hkey : ∀ row ∈ s.bibliographyItems,
      ¬(row.owner = item.toRow.owner ∧ row.citationKey = item.toRow.citationKey) := by
    rintro row hrow ⟨howner, hkey⟩
    obtain ⟨other, hother, rfl⟩ := (Table.mem_map hs.items).mp hrow
    exact hnew.2.1 (List.mem_map.mpr ⟨other, hother, Prod.ext howner hkey⟩)
  have hinserted : insertBibliographyItemRow s item.toRow =
      .ok (recordChange { s with bibliographyItems := rows }
        ⟨item.owner.id, none, .bibliographyItemCreated, item.itemId.entityId, item.revision,
          item.updatedAt⟩) := by
    unfold insertBibliographyItemRow
    rw [if_pos ⟨item.positive, hs.find_principal hnew.2.2, hkey⟩, hinsert]
    rfl
  exact ⟨_, hinserted, { hs with items := hrows }⟩

theorem exists_sources (h : db.Holds codec done tables) (hnone : done.sources = [])
    {sources : List BibliographyImportSource}
    (hids : (sources.map fun source => source.sourceId).Nodup)
    (howner : ∀ source ∈ sources, Knows done.principals source.owner) :
    ∃ db', sources.foldlM insertImportSourceRow db = .ok db' ∧
      db'.Holds codec { done with sources := sources } tables := by
  have hafter := List.eachAfter_and.mpr ⟨List.eachAfter_notMem.mpr hids,
    List.eachAfter_forall.mpr howner⟩
  refine hafter.exists_foldlM (I := fun before (db : Database) => db.Holds codec { done with
    sources := before } tables) (fun before source s hnew hs => ?_) (by rw [← hnone]; exact h)
  obtain ⟨rows, hinsert, hrows⟩ := Table.exists_insert?_map hs.sources (fun _ heq => heq) hnew.1
  have hinserted : insertImportSourceRow s source =
      .ok { s with bibliographyImportSources := rows } := by
    unfold insertImportSourceRow
    rw [if_pos ⟨⟨source.positive, source.times⟩, hs.find_principal hnew.2⟩, hinsert]
  refine ⟨{ s with bibliographyImportSources := rows }, hinserted,
    { hs with sources := hrows, links := hs.links.imp ?_ }⟩
  rintro row link ⟨earlier, hearlier, hheld⟩
  exact ⟨earlier, List.mem_append_left _ hearlier, hheld⟩

theorem exists_links (h : db.Holds codec done tables) (hnone : done.links = [])
    {links : List BibliographyImportLink}
    (hkeys : (links.map fun link => (link.sourceId, link.externalItemId)).Nodup)
    (hpositive : ∀ link ∈ links, 0 < link.importedItemRevision)
    (hlinked : ∀ link ∈ links, ∃ source ∈ done.sources, source.sourceId = link.sourceId ∧
      ∃ item ∈ done.items, item.itemId = link.itemId ∧ source.owner.Same item.owner) :
    ∃ db', links.foldlM insertImportLinkRow db = .ok db' ∧
      db'.Holds codec { done with links := links } tables := by
  have hafter := List.eachAfter_and.mpr ⟨List.eachAfter_notMem.mpr hkeys,
    List.eachAfter_forall.mpr fun link hlink =>
      And.intro (hpositive link hlink) (hlinked link hlink)⟩
  refine hafter.exists_foldlM (I := fun before (db : Database) => db.Holds codec { done with
    links := before } tables) (fun before link s hnew hs => ?_) (by rw [← hnone]; exact h)
  obtain ⟨hfresh, hcount, source, hsource, hsourceId, item, hitem, hitemId, hsame⟩ := hnew
  have hfindSource : s.bibliographyImportSources.find link.sourceId = some source.toRow :=
    hsourceId ▸ Table.find_map hs.sources hsource
  have hfindItem : s.bibliographyItems.find link.itemId = some item.toRow :=
    hitemId ▸ Table.find_map hs.items hitem
  have hnone : s.bibliographyImportLinks.find (link.sourceId, link.externalItemId) = none := by
    refine Table.find_eq_none.mpr fun row hrow heq => hfresh ?_
    obtain ⟨other, hother, _, -, -, rfl⟩ := hs.links.exists_right hrow
    exact List.mem_map.mpr ⟨other, hother, heq⟩
  obtain ⟨rows, hinsert⟩ := Table.exists_insert? (r := link.toRow source.toRow.owner) hnone
  have hinserted : insertImportLinkRow s link = .ok { s with bibliographyImportLinks := rows } := by
    unfold insertImportLinkRow
    rw [hfindSource]
    dsimp only
    rw [if_pos ⟨hcount, ⟨_, hfindSource, rfl⟩, _, hfindItem, hsame.symm⟩, hinsert]
  refine ⟨{ s with bibliographyImportLinks := rows }, hinserted, { hs with links := ?_ }⟩
  show List.Forall₂ (LinkHeld done.sources) rows.rows (before ++ [link])
  rw [(Table.insert?_eq_some.mp hinsert).2]
  exact List.rel_append hs.links (.cons ⟨source, hsource, hsourceId, rfl⟩ .nil)

theorem exists_mathMacroSettings (h : db.Holds codec done tables)
    (hnone : done.mathMacroSettings = []) {settings : List MathMacroSettingsSnapshot}
    (howners : (settings.map fun entry => entry.owner.id).Nodup)
    (hpositive : ∀ entry ∈ settings, 0 < entry.settings.revision)
    (hknown : ∀ entry ∈ settings, Knows done.principals entry.owner) :
    ∃ db', settings.foldlM (fun db entry => db.insertMathMacroRow codec entry) db = .ok db' ∧
      db'.Holds codec { done with mathMacroSettings := settings } tables := by
  have hafter := List.eachAfter_and.mpr ⟨List.eachAfter_notMem.mpr howners,
    List.eachAfter_forall.mpr fun entry hentry =>
      And.intro (hpositive entry hentry) (hknown entry hentry)⟩
  refine hafter.exists_foldlM (I := fun before (db : Database) => db.Holds codec { done with
    mathMacroSettings := before } tables) (fun before entry s hnew hs => ?_)
    (by rw [← hnone]; exact h)
  obtain ⟨rows, hinsert, hrows⟩ :=
    Table.exists_insert?_map hs.mathMacroSettings (fun _ heq => heq) hnew.1
  have hinserted : insertMathMacroRow s codec entry = .ok { s with mathMacroSettings := rows } := by
    unfold insertMathMacroRow
    rw [if_pos ⟨hnew.2.1, hs.find_principal hnew.2.2⟩, hinsert]
  exact ⟨{ s with mathMacroSettings := rows }, hinserted, { hs with mathMacroSettings := hrows }⟩

/-! ### Links between notes, and grants -/

theorem exists_citations (h : db.Holds codec done tables) {citations : List (NoteId × String)}
    (hnotes : ∀ link ∈ citations, link.1 ∈ done.notes.map fun note => note.noteId) :
    ∃ db', citations.foldlM insertCitationRow db = .ok db' ∧
      db'.Holds codec done (tables.cite citations) := by
  refine (List.eachAfter_forall.mpr hnotes).exists_foldlM (I := fun before (db : Database) =>
    db.Holds codec done (tables.cite before)) (fun before link s hnote hs => ?_) h
  refine ⟨_, if_pos (hs.isSome_find_note hnote), { hs with linkTables := ?_ }⟩
  rw [LinkTables.cite_concat, ← hs.linkTables]
  rfl

theorem exists_references (h : db.Holds codec done tables) {references : List (NoteId × NoteId)}
    (hnotes : ∀ link ∈ references, link.1 ∈ done.notes.map fun note => note.noteId) :
    ∃ db', references.foldlM insertReferenceRow db = .ok db' ∧
      db'.Holds codec done (tables.refer references) := by
  refine (List.eachAfter_forall.mpr hnotes).exists_foldlM (I := fun before (db : Database) =>
    db.Holds codec done (tables.refer before)) (fun before link s hnote hs => ?_) h
  refine ⟨_, if_pos (hs.isSome_find_note hnote), { hs with linkTables := ?_ }⟩
  rw [LinkTables.refer_concat, ← hs.linkTables]
  rfl

theorem exists_noteAcl (h : db.Holds codec done tables) (hnone : done.noteAcl = [])
    {noteAcl : List NoteAclSnapshotEntry}
    (hkeys : (noteAcl.map fun entry => (entry.noteId, entry.principal.id)).Nodup)
    (hgranted : ∀ entry ∈ noteAcl, ∃ note ∈ done.notes, note.noteId = entry.noteId ∧
      ¬entry.principal.Same note.owner)
    (hknown : ∀ entry ∈ noteAcl, Knows done.principals entry.principal) :
    ∃ db', noteAcl.foldlM (fun (db : Database) entry => db.insertAclRow entry.toRow) db = .ok db' ∧
      db'.Holds codec { done with noteAcl := noteAcl } tables := by
  have hafter := List.eachAfter_and.mpr ⟨List.eachAfter_notMem.mpr hkeys,
    List.eachAfter_forall.mpr fun entry hentry =>
      And.intro (hgranted entry hentry) (hknown entry hentry)⟩
  refine hafter.exists_foldlM (I := fun before (db : Database) => db.Holds codec { done with
    noteAcl := before } tables) (fun before entry s hnew hs => ?_) (by rw [← hnone]; exact h)
  obtain ⟨hfresh, ⟨note, hnote, hid, hother⟩, hprincipal⟩ := hnew
  obtain ⟨rows, hinsert, hrows⟩ := Table.exists_insert?_map hs.noteAcl (fun _ heq => heq) hfresh
  have hfind : s.notes.find entry.toRow.noteId = some note.toRow := by
    rw [← hs.find_note hnote]
    exact congrArg s.notes.find hid.symm
  have hallowed : ¬(note.toRow.creator = entry.toRow.principalId ∨
      s.principals.find entry.toRow.principalId = none) := by
    rintro (howner | hunknown)
    · exact hother howner.symm
    · have hfound := hs.find_principal hprincipal
      rw [show s.principals.find entry.principal.id = none from hunknown] at hfound
      cases hfound
  have hinserted : insertAclRow s entry.toRow = .ok (recordChange { s with noteAcl := rows }
      ⟨note.owner.id, some entry.principal.id, .noteAccessGranted, entry.noteId.entityId,
        note.revision, note.updatedAt⟩) := by
    unfold insertAclRow recordAccessChange
    simp only [hfind, if_neg hallowed, hinsert]
    rfl
  exact ⟨_, hinserted, { hs with noteAcl := hrows }⟩

end Holds

/-! ### The whole restore -/

end Database

/-- The `CHECK`s of `notes` ask for nothing that is not so of every note. -/
theorem Note.check_toRow (note : Note) (hpositive : 0 < note.revision)
    (hreview : ∀ review ∈ note.review.lastReview, 0 < review.revision) : note.toRow.Check := by
  refine ⟨hpositive, fun columns hcolumns => ?_⟩
  obtain ⟨review, hlast, rfl⟩ := Option.map_eq_some_iff.mp hcolumns
  obtain ⟨hrevision, hcreated, hupdated, hsame⟩ := note.consistent.2.2 review hlast
  refine ⟨?_, hreview review hlast, hrevision, hcreated, hupdated, hsame⟩
  refine decide_eq_true fun hunknown => ?_
  rw [hunknown] at hlast
  cases hlast

theorem NoteRevisionSnapshot.check_toRow (entry : NoteRevisionSnapshot)
    (hpositive : 0 < entry.note.revision)
    (hreview : ∀ review ∈ entry.note.review.lastReview, 0 < review.revision) :
    entry.toRow.Check := by
  obtain ⟨-, hcheck⟩ := entry.note.check_toRow hpositive hreview
  refine ⟨hpositive, fun columns hcolumns => ?_⟩
  obtain ⟨hknown, hrevised, hle, -, hupdated, -⟩ := hcheck columns hcolumns
  exact ⟨hknown, hrevised, hle, hupdated⟩

namespace Database

/-- What `restore` leaves behind, when it finds these links between notes. -/
structure Restored (codec : MathMacroCodec) (tables : LinkTables) (plan : RestorePlan lib json)
    (db : Database) : Prop where
  holds : db.Holds codec plan.snapshot.parts ((tables.cite plan.citations).refer plan.references)
  changes : db.domainChanges = .empty ∧ db.latestNoteChangeSequence = 0
  synchronized : db.noteSyncProjection = .empty ∧ db.noteSyncCursors = .empty
  deliveries : db.webhookDeliveries = .empty

variable {codec : MathMacroCodec} {db : Database} {tables : LinkTables}

section Fits

variable {parts : SnapshotParts lib json} (hfits : parts.Fits) (hcount : parts.CountFromOne)
include hfits hcount

/-- The notes with their images and their history, once the principals are there. -/
theorem Holds.exists_noteTables {done : SnapshotParts lib json} (h : db.Holds codec done tables)
    (hprincipals : done.principals = parts.principals) (hnone : done.notes = [] ∧
      done.attachments = [] ∧ done.noteRevisions = [] ∧ done.attachmentReferences = []) :
    ∃ withNotes withAttachments withRevisions db',
      parts.notes.foldlM (fun (db : Database) note => db.insertNoteRow note.toRow) db =
        .ok withNotes ∧
      parts.attachments.foldlM insertAttachmentRow withNotes = .ok withAttachments ∧
      parts.noteRevisions.foldlM insertNoteRevisionRow withAttachments = .ok withRevisions ∧
      parts.attachmentReferences.foldlM insertRevisionAttachmentRow withRevisions = .ok db' ∧
      db'.Holds codec { done with
        notes := parts.notes
        attachments := parts.attachments
        noteRevisions := parts.noteRevisions
        attachmentReferences := parts.attachmentReferences } tables := by
  have hrefers := hfits.references
  rw [← hprincipals] at hrefers
  obtain ⟨hnotesNone, hattachmentsNone, hrevisionsNone, hshownNone⟩ := hnone
  have hnote : ∀ note ∈ parts.notes, note.toRow.Check := fun note hnote =>
    note.check_toRow (hcount.notes note hnote).1 (hcount.notes note hnote).2
  obtain ⟨db₁, hnotes, h₁⟩ := h.exists_notes hnotesNone hfits.notes.ids hnote
    fun note hnote => (hrefers.notes note hnote).1
  obtain ⟨db₂, hattachments, h₂⟩ := h₁.exists_attachments hattachmentsNone
    hfits.attachments.attachmentIds hfits.attachments.ofNote fun attachment hmem =>
      hrefers.attachments attachment (Table.mem_orderBy.mpr hmem)
  have hentry : ∀ entry ∈ parts.noteRevisions, entry.toRow.Check := fun entry hentry =>
    entry.check_toRow (hcount.noteRevisions entry hentry).1 (hcount.noteRevisions entry hentry).2
  have hofNote : ∀ entry ∈ parts.noteRevisions,
      entry.note.noteId ∈ parts.notes.map fun note => note.noteId := by
    intro entry hentry
    obtain ⟨current, hcurrent, hid, -⟩ := hfits.revisions.ofNote entry hentry
    exact List.mem_map.mpr ⟨current, hcurrent, hid⟩
  obtain ⟨db₃, hrevisions, h₃⟩ := h₂.exists_noteRevisions hrevisionsNone hfits.revisions.keys
    hentry hofNote fun entry hentry =>
      hrefers.noteRevisions entry (Table.mem_orderBy.mpr hentry)
  obtain ⟨db₄, hshown, h₄⟩ := h₃.exists_attachmentReferences hshownNone hfits.attachments.nodup
    hfits.attachments.ofRevision hfits.attachments.shown
  exact ⟨db₁, db₂, db₃, db₄, hnotes, hattachments, hrevisions, hshown, h₄⟩

/-- The libraries and the macros. -/
theorem Holds.exists_libraryTables {done : SnapshotParts lib json} (h : db.Holds codec done tables)
    (hprincipals : done.principals = parts.principals) (hnone : done.items = [] ∧
      done.sources = [] ∧ done.links = [] ∧ done.mathMacroSettings = []) :
    ∃ withItems withSources withLinks db',
      parts.items.foldlM (fun (db : Database) item => db.insertBibliographyItemRow item.toRow) db =
        .ok withItems ∧
      parts.sources.foldlM insertImportSourceRow withItems = .ok withSources ∧
      parts.links.foldlM insertImportLinkRow withSources = .ok withLinks ∧
      parts.mathMacroSettings.foldlM (fun db entry => db.insertMathMacroRow codec entry)
        withLinks = .ok db' ∧
      db'.Holds codec { done with
        items := parts.items
        sources := parts.sources
        links := parts.links
        mathMacroSettings := parts.mathMacroSettings } tables := by
  have hrefers := hfits.references
  rw [← hprincipals] at hrefers
  obtain ⟨hitemsNone, hsourcesNone, hlinksNone, hsettingsNone⟩ := hnone
  obtain ⟨db₁, hitems, h₁⟩ := h.exists_items hitemsNone hfits.library.itemIds
    hfits.library.itemKeys hrefers.items
  obtain ⟨db₂, hsources, h₂⟩ := h₁.exists_sources hsourcesNone hfits.library.sourceIds
    hrefers.sources
  have hlinked : ∀ link ∈ parts.links, ∃ source ∈ parts.sources,
      source.sourceId = link.sourceId ∧ ∃ item ∈ parts.items, item.itemId = link.itemId ∧
        source.owner.Same item.owner := by
    intro link hlink
    obtain ⟨source, hsource, hsourceId, item, hitem, hitemId, hsame, -⟩ :=
      hfits.library.linked link hlink
    exact ⟨source, hsource, hsourceId, item, hitem, hitemId, hsame⟩
  obtain ⟨db₃, hlinks, h₃⟩ :=
    h₂.exists_links hlinksNone hfits.library.linkKeys hcount.links hlinked
  obtain ⟨db₄, hsettings, h₄⟩ := h₃.exists_mathMacroSettings hsettingsNone hfits.settings.owners
    (fun entry hentry => (hfits.settings.valid entry hentry).1)
    hrefers.mathMacroSettings
  exact ⟨db₁, db₂, db₃, db₄, hitems, hsources, hlinks, hsettings, h₄⟩

end Fits

/-- Parts that fit meet every constraint of the schema, in a database without data. -/
theorem Holds.exists_restore
    (h : db.Holds codec (SnapshotParts.empty : SnapshotParts lib json) tables)
    (hnone : db.targetHasData = false) {plan : RestorePlan lib json}
    (hfits : plan.snapshot.parts.Fits) (hcount : plan.snapshot.parts.CountFromOne)
    (hcitations : ∀ link ∈ plan.citations,
      link.1 ∈ plan.snapshot.notes.map fun note => note.noteId)
    (hreferences : ∀ link ∈ plan.references,
      link.1 ∈ plan.snapshot.notes.map fun note => note.noteId) :
    ∃ db', db.restore codec plan = .ok db' ∧ db'.Restored codec tables plan := by
  obtain ⟨db₁, hprincipals, h₁⟩ := h.exists_principals rfl hfits.principals
  obtain ⟨db₂, db₃, db₄, db₅, hnotes, hattachments, hrevisions, hshown, h₅⟩ :=
    h₁.exists_noteTables hfits hcount rfl ⟨rfl, rfl, rfl, rfl⟩
  obtain ⟨db₆, db₇, db₈, db₉, hitems, hsources, hlinks, hsettings, h₉⟩ :=
    h₅.exists_libraryTables hfits hcount rfl ⟨rfl, rfl, rfl, rfl⟩
  obtain ⟨db₁₀, hcited, h₁₀⟩ := h₉.exists_citations hcitations
  obtain ⟨db₁₁, hreferred, h₁₁⟩ := h₁₀.exists_references hreferences
  obtain ⟨db₁₂, hacl, h₁₂⟩ := h₁₁.exists_noteAcl rfl hfits.notes.keys hfits.notes.granted
    hfits.references.noteAcl
  refine ⟨db₁₂.forgetChanges, ?_, ?_⟩
  · have hrest : db.restorePrincipals plan.snapshot.principals = .ok db₁ :=
      (if_neg (by rw [hnone]; exact Bool.false_ne_true)).trans hprincipals
    unfold restore
    simp only [Except.bind_eq_ok]
    exact ⟨db₁, hrest, db₂, hnotes, db₃, hattachments, db₄, hrevisions, db₅, hshown, db₆, hitems,
      db₇, hsources, db₈, hlinks, db₉, hsettings, db₁₀, hcited, db₁₁, hreferred, db₁₂, hacl, rfl⟩
  · exact ⟨⟨h₁₂.notes, h₁₂.noteAcl, h₁₂.noteRevisions, h₁₂.items, h₁₂.sources, h₁₂.links,
      h₁₂.mathMacroSettings, h₁₂.principals, h₁₂.identities, h₁₂.attachments,
      h₁₂.attachmentReferences, h₁₂.linkTables⟩, ⟨rfl, rfl⟩, ⟨rfl, rfl⟩, rfl⟩

end Database

end Marginalis
