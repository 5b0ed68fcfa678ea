import Marginalis.BibliographyImportStore
import Marginalis.MappedRows
import Marginalis.MathMacroStore
import Marginalis.NoteApplication

/-!
# The plan of a restore

A plan is a snapshot together with the links its notes show, which the maintenance takes from their
sources once more (`restorePlan`). `restore` fills an empty database from it in one transaction :
every part is a loop of inserts under the constraints of the schema, in an order in which whatever
a row refers to is there before it. What the triggers have recorded meanwhile is thrown away.
-/

namespace Marginalis

open Table (orderBy)

variable {lib : AttachmentLibrary} {json : JsonCodec}

/-! ## The plan -/

/-- A snapshot with the links that its notes show. -/
structure RestorePlan (lib : AttachmentLibrary) (json : JsonCodec) where
  snapshot : LogicalSnapshot lib json
  references : List (NoteId × NoteId)
  citations : List (NoteId × String)

/-- The `InvalidSnapshot::InvalidReference` that only a plan is refused with. -/
structure InvalidReference where
  position : ℕ
  deriving DecidableEq, Repr

/-- `sorted_links` : every link is one of a note. -/
def sortedLinks {τ ω : Type} [DecidableEq τ] [LinearOrder ω] (links : List (NoteId × τ))
    (noteIds : List NoteId) (key : NoteId × τ → ω) :
    Except InvalidReference (List (NoteId × τ)) :=
  match links.findIdx? fun link => link.1 ∉ noteIds with
  | some index => .error ⟨index + 1⟩
  | none => .ok ((orderBy key links).destutter (· ≠ ·))

/-- `RestorePlan::new`. -/
def RestorePlan.new (snapshot : LogicalSnapshot lib json) (references : List (NoteId × NoteId))
    (citations : List (NoteId × String)) : Except InvalidReference (RestorePlan lib json) := do
  let noteIds := snapshot.notes.map fun note => note.noteId
  let references ← sortedLinks references noteIds fun link =>
    toLex (link.1.entityId, link.2.entityId)
  let citations ← sortedLinks citations noteIds fun link => toLex (link.1.entityId, link.2)
  return ⟨snapshot, references, citations⟩

/-- The queries that AsciiDoc answers about a source, none when it can not be analyzed. -/
structure NoteQueries where
  noteReferenceQueries : String → Option (List NoteReferenceQuery)
  noteCitationQueries : String → Option (List NoteCitationQuery)

/-- What `restore_plan` fails with. -/
inductive RestorePlanError
  | notAnalyzed
  | invalidReference (error : InvalidReference)
  deriving DecidableEq, Repr

/-- The links of a note. -/
def NoteQueries.linksOf (queries : NoteQueries) (note : Note) :
    Except RestorePlanError (List (NoteId × NoteId) × List (NoteId × String)) :=
  match queries.noteReferenceQueries note.draft.source,
    queries.noteCitationQueries note.draft.source with
  | some references, some citations => .ok
    (references.map fun query => (note.noteId, query.targetNoteId),
      (citations.flatMap NoteCitationQuery.keys).map fun key => (note.noteId, key))
  | _, _ => .error .notAnalyzed

/-- `restore_plan`. -/
def restorePlan (queries : NoteQueries) (snapshot : LogicalSnapshot lib json) :
    Except RestorePlanError (RestorePlan lib json) := do
  let links ← snapshot.notes.mapM queries.linksOf
  (RestorePlan.new snapshot (links.flatMap Prod.fst).dedup
    (links.flatMap Prod.snd).dedup).mapError .invalidReference

section SortedLinks

variable {τ ω : Type} [DecidableEq τ] [LinearOrder ω] {links sorted : List (NoteId × τ)}
  {noteIds : List NoteId} {key : NoteId × τ → ω}

theorem sortedLinks_eq_ok (hkey : Function.Injective key) :
    sortedLinks links noteIds key = .ok sorted ↔
      (∀ link ∈ links, link.1 ∈ noteIds) ∧ sorted = (orderBy key links).dedup := by
  have hantisymm : Std.Antisymm fun a b : NoteId × τ => key a ≤ key b :=
    ⟨fun a b hab hba => hkey (le_antisymm hab hba)⟩
  unfold sortedLinks
  rw [(Table.pairwise_orderBy (g := key) (l := links)).destutter_eq_dedup]
  cases hfind : links.findIdx? fun link => decide (link.1 ∉ noteIds) with
  | none =>
    have hall : ∀ link ∈ links, link.1 ∈ noteIds := by
      simpa using List.findIdx?_eq_none_iff.mp hfind
    rw [Except.ok.injEq, eq_comm]
    exact (and_iff_right hall).symm
  | some index =>
    obtain ⟨hlt, hother, -⟩ := List.findIdx?_eq_some_iff_getElem.mp hfind
    simp only [reduceCtorEq, false_iff, not_and]
    intro hall
    exact absurd (hall _ (List.getElem_mem hlt)) (by simpa using hother)

end SortedLinks

theorem injective_referenceKey : Function.Injective fun link : NoteId × NoteId =>
    toLex (link.1.entityId, link.2.entityId) := by
  rintro ⟨⟨source⟩, ⟨target⟩⟩ ⟨⟨source'⟩, ⟨target'⟩⟩ h
  obtain ⟨hsource, htarget⟩ := Prod.mk.inj (toLex.injective h)
  dsimp only at hsource htarget
  rw [hsource, htarget]

theorem injective_citationKey : Function.Injective fun link : NoteId × String =>
    toLex (link.1.entityId, link.2) := by
  rintro ⟨⟨source⟩, key⟩ ⟨⟨source'⟩, key'⟩ h
  obtain ⟨hsource, hkey⟩ := Prod.mk.inj (toLex.injective h)
  dsimp only at hsource hkey
  rw [hsource, hkey]

/-- A plan is refused for links of notes that the snapshot does not have, and for nothing else. -/
theorem RestorePlan.new_eq_ok {snapshot : LogicalSnapshot lib json}
    {references : List (NoteId × NoteId)} {citations : List (NoteId × String)}
    {plan : RestorePlan lib json} : RestorePlan.new snapshot references citations = .ok plan ↔
      ((∀ link ∈ references, link.1 ∈ snapshot.notes.map fun note => note.noteId) ∧
        ∀ link ∈ citations, link.1 ∈ snapshot.notes.map fun note => note.noteId) ∧
      plan = ⟨snapshot,
        (orderBy (fun link => toLex (link.1.entityId, link.2.entityId)) references).dedup,
        (orderBy (fun link => toLex (link.1.entityId, link.2)) citations).dedup⟩ := by
  unfold RestorePlan.new
  simp only [Except.bind_eq_ok, sortedLinks_eq_ok injective_referenceKey,
    sortedLinks_eq_ok injective_citationKey]
  constructor
  · rintro ⟨_, ⟨hreferences, rfl⟩, _, ⟨hcitations, rfl⟩, h⟩
    cases h
    exact ⟨⟨hreferences, hcitations⟩, rfl⟩
  · rintro ⟨⟨hreferences, hcitations⟩, rfl⟩
    exact ⟨_, ⟨hreferences, rfl⟩, _, ⟨hcitations, rfl⟩, rfl⟩

/-! ### The links of notes -/

namespace NoteQueries

variable (queries : NoteQueries) (note : Note)

/-- The source of the note can be analyzed. -/
def Analyzes : Prop :=
  (queries.noteReferenceQueries note.draft.source).isSome ∧
    (queries.noteCitationQueries note.draft.source).isSome

/-- The source of the note names another note. -/
def Refers (target : NoteId) : Prop :=
  ∃ found ∈ queries.noteReferenceQueries note.draft.source,
    ∃ query ∈ found, query.targetNoteId = target

/-- The source of the note cites a key. -/
def Cites (key : String) : Prop :=
  ∃ found ∈ queries.noteCitationQueries note.draft.source, ∃ query ∈ found, key ∈ query.keys

variable {queries} {note}

theorem linksOf_eq_ok (h : queries.Analyzes note) : ∃ links, queries.linksOf note = .ok links ∧
    (∀ link, link ∈ links.1 ↔ link.1 = note.noteId ∧ queries.Refers note link.2) ∧
      ∀ link, link ∈ links.2 ↔ link.1 = note.noteId ∧ queries.Cites note link.2 := by
  obtain ⟨references, hreferences⟩ := Option.isSome_iff_exists.mp h.1
  obtain ⟨citations, hcitations⟩ := Option.isSome_iff_exists.mp h.2
  unfold linksOf Refers Cites
  rw [hreferences, hcitations]
  refine ⟨_, rfl, ?_, ?_⟩
  · rintro ⟨source, target⟩
    simp [eq_comm, and_left_comm]
  · rintro ⟨source, key⟩
    simp [eq_comm, and_comm]

end NoteQueries

/-- A plan is one for its snapshot, and links no other notes. -/
theorem restorePlan_eq_ok {queries : NoteQueries} {snapshot : LogicalSnapshot lib json}
    {plan : RestorePlan lib json} (h : restorePlan queries snapshot = .ok plan) :
    plan.snapshot = snapshot ∧
      (∀ link ∈ plan.citations, link.1 ∈ snapshot.notes.map fun note => note.noteId) ∧
      ∀ link ∈ plan.references, link.1 ∈ snapshot.notes.map fun note => note.noteId := by
  obtain ⟨links, -, h⟩ := Except.bind_eq_ok.mp h
  rw [Except.mapError_eq_ok, RestorePlan.new_eq_ok] at h
  obtain ⟨⟨hreferences, hcitations⟩, rfl⟩ := h
  refine ⟨rfl, fun link hlink => hcitations link ?_, fun link hlink => hreferences link ?_⟩
  · exact Table.mem_orderBy.mp (List.mem_dedup.mp hlink)
  · exact Table.mem_orderBy.mp (List.mem_dedup.mp hlink)

/-- A plan is refused for a note that can not be analyzed only, and links exactly what the sources
of its notes name. -/
theorem exists_restorePlan {queries : NoteQueries} {snapshot : LogicalSnapshot lib json}
    (h : ∀ note ∈ snapshot.notes, queries.Analyzes note) :
    ∃ plan, restorePlan queries snapshot = .ok plan ∧ plan.snapshot = snapshot ∧
      (∀ link, link ∈ plan.references ↔
        ∃ note ∈ snapshot.notes, link.1 = note.noteId ∧ queries.Refers note link.2) ∧
      ∀ link, link ∈ plan.citations ↔
        ∃ note ∈ snapshot.notes, link.1 = note.noteId ∧ queries.Cites note link.2 := by
  obtain ⟨links, hlinks⟩ := Except.mapM_ok fun note hnote =>
    (NoteQueries.linksOf_eq_ok (h note hnote)).imp fun _ h => h.1
  have hpairs := Except.mapM_eq_ok.mp hlinks
  have hfound : ∀ note ∈ snapshot.notes, ∀ entry, queries.linksOf note = .ok entry →
      (∀ link, link ∈ entry.1 ↔ link.1 = note.noteId ∧ queries.Refers note link.2) ∧
        ∀ link, link ∈ entry.2 ↔ link.1 = note.noteId ∧ queries.Cites note link.2 := by
    intro note hnote entry hentry
    obtain ⟨found, hfound, hmem⟩ := NoteQueries.linksOf_eq_ok (h note hnote)
    obtain rfl := Except.ok.inj (hentry.symm.trans hfound)
    exact hmem
  have hreferences : ∀ link, link ∈ links.flatMap Prod.fst ↔
      ∃ note ∈ snapshot.notes, link.1 = note.noteId ∧ queries.Refers note link.2 := fun link =>
    hpairs.mem_flatMap fun note hnote entry hentry => (hfound note hnote entry hentry).1 link
  have hcitations : ∀ link, link ∈ links.flatMap Prod.snd ↔
      ∃ note ∈ snapshot.notes, link.1 = note.noteId ∧ queries.Cites note link.2 := fun link =>
    hpairs.mem_flatMap fun note hnote entry hentry => (hfound note hnote entry hentry).2 link
  refine ⟨_, Except.bind_eq_ok.mpr ⟨links, hlinks, Except.mapError_eq_ok.mpr
    (RestorePlan.new_eq_ok.mpr ⟨⟨fun link hlink => ?_, fun link hlink => ?_⟩, rfl⟩)⟩, rfl, ?_, ?_⟩
  · obtain ⟨note, hnote, hid, -⟩ := (hreferences link).mp (List.mem_dedup.mp hlink)
    exact List.mem_map.mpr ⟨note, hnote, hid.symm⟩
  · obtain ⟨note, hnote, hid, -⟩ := (hcitations link).mp (List.mem_dedup.mp hlink)
    exact List.mem_map.mpr ⟨note, hnote, hid.symm⟩
  · intro link
    rw [List.mem_dedup, Table.mem_orderBy, List.mem_dedup, hreferences]
  · intro link
    rw [List.mem_dedup, Table.mem_orderBy, List.mem_dedup, hcitations]

/-! ## Rows -/

/-- The columns `insert_note_revision_row` binds. -/
def NoteRevisionSnapshot.toRow (entry : NoteRevisionSnapshot) : NoteRevisionRow :=
  entry.note.toRow.toRevisionRow entry.changedBy.id entry.kind

def NoteRevisionAttachment.toRow (reference : NoteRevisionAttachment) : RevisionAttachmentRow :=
  ⟨reference.noteId, reference.revision, reference.attachmentId⟩

def NoteAclSnapshotEntry.toRow (entry : NoteAclSnapshotEntry) : AclRow :=
  ⟨entry.noteId, entry.principal.id, entry.permission⟩

def MathMacroSettingsSnapshot.toRow (codec : MathMacroCodec) (entry : MathMacroSettingsSnapshot) :
    MathMacroRow :=
  ⟨entry.owner.id, codec.encode entry.settings.macros, entry.settings.revision.toNat⟩

/-- An identity row, whatever its number is. -/
def IdentityRow.binding (row : IdentityRow) : PrincipalId × Identity × Bool :=
  (row.principalId, row.identity, row.isPrimary)

/-- How an identity is bound to its principal. -/
def Principal.binding (principal : Principal) (identity : Identity) :
    PrincipalId × Identity × Bool :=
  (principal.reference.id, identity, decide (identity = principal.reference.primaryIdentity))

/-! ## Inserts -/

namespace Database

variable (db : Database)

/-- `insert_attachment_row`. -/
def insertAttachmentRow (attachment : StoredAttachment lib) : Except SqliteStoreError Database :=
  if (db.notes.find attachment.metadata.noteId).isSome ∧
      (db.principals.find attachment.metadata.createdBy.id).isSome then
    match db.noteAttachments.insert? attachment.toRow with
    | none => .error .database
    | some rows => .ok { db with noteAttachments := rows }
  else .error .database

/-- `insert_note_revision_row`. -/
def insertNoteRevisionRow (entry : NoteRevisionSnapshot) : Except SqliteStoreError Database :=
  if entry.toRow.Check ∧ (db.notes.find entry.note.noteId).isSome ∧
      (db.principals.find entry.changedBy.id).isSome ∧
      ∀ review ∈ entry.note.review.lastReview, (db.principals.find review.reviewer.id).isSome then
    match db.noteRevisions.insert? entry.toRow with
    | none => .error .database
    | some rows => .ok { db with noteRevisions := rows }
  else .error .database

/-- The `INSERT INTO note_revision_attachments` of `restore`. -/
def insertRevisionAttachmentRow (reference : NoteRevisionAttachment) :
    Except SqliteStoreError Database :=
  if (db.noteRevisions.find (reference.noteId, reference.revision)).isSome ∧
      ∃ attachment ∈ db.noteAttachments.find reference.attachmentId,
        attachment.noteId = reference.noteId then
    match db.noteRevisionAttachments.insert? reference.toRow with
    | none => .error .database
    | some rows => .ok { db with noteRevisionAttachments := rows }
  else .error .database

/-- `insert_bibliography_import_source_row`. -/
def insertImportSourceRow (source : BibliographyImportSource) : Except SqliteStoreError Database :=
  if sourceCheck source.toRow ∧ (db.principals.find source.owner.id).isSome then
    match db.bibliographyImportSources.insert? source.toRow with
    | none => .error .database
    | some rows => .ok { db with bibliographyImportSources := rows }
  else .error .database

/-- `insert_bibliography_import_link_row`, which selects the owner from the source and inserts
nothing when there is none. -/
def insertImportLinkRow (link : BibliographyImportLink) : Except SqliteStoreError Database :=
  match db.bibliographyImportSources.find link.sourceId with
  | none => .ok db
  | some source =>
    let new := link.toRow source.owner
    if 0 < new.importedItemRevision ∧ db.LinkReferences new then
      match db.bibliographyImportLinks.insert? new with
      | none => .error .database
      | some rows => .ok { db with bibliographyImportLinks := rows }
    else .error .database

/-- The `INSERT INTO math_macro_settings` of `restore`. -/
def insertMathMacroRow (codec : MathMacroCodec) (entry : MathMacroSettingsSnapshot) :
    Except SqliteStoreError Database :=
  if 0 < entry.settings.revision ∧ (db.principals.find entry.owner.id).isSome then
    match db.mathMacroSettings.insert? (entry.toRow codec) with
    | none => .error .database
    | some rows => .ok { db with mathMacroSettings := rows }
  else .error .database

/-- The `INSERT OR IGNORE INTO note_citations` of `restore`, whose foreign key is not ignored. -/
def insertCitationRow (link : NoteId × String) : Except SqliteStoreError Database :=
  if (db.notes.find link.1).isSome then
    .ok { db with noteCitations := db.noteCitations.upsert ⟨link.1, link.2⟩ }
  else .error .database

/-- The `INSERT OR IGNORE INTO note_references` of `restore`. -/
def insertReferenceRow (link : NoteId × NoteId) : Except SqliteStoreError Database :=
  if (db.notes.find link.1).isSome then
    .ok { db with noteReferences := db.noteReferences.upsert ⟨link.1, link.2⟩ }
  else .error .database

/-- The last statements of `restore` : what clients have synchronized, the recorded changes and
their deliveries are not part of an archive. -/
def forgetChanges : Database :=
  { db with
    noteSyncCursors := .empty
    noteSyncProjection := .empty
    latestNoteChangeSequence := 0
    webhookDeliveries := .empty
    domainChanges := .empty }

/-- `restore`. -/
def restore (codec : MathMacroCodec) (plan : RestorePlan lib json) :
    Except SqliteStoreError Database := do
  let db ← db.restorePrincipals plan.snapshot.principals
  let db ← plan.snapshot.notes.foldlM (fun (db : Database) note => db.insertNoteRow note.toRow) db
  let db ← plan.snapshot.attachments.foldlM insertAttachmentRow db
  let db ← plan.snapshot.noteRevisions.foldlM insertNoteRevisionRow db
  let db ← plan.snapshot.noteRevisionAttachments.foldlM insertRevisionAttachmentRow db
  let db ← plan.snapshot.bibliographyItems.foldlM
    (fun (db : Database) item => db.insertBibliographyItemRow item.toRow) db
  let db ← plan.snapshot.bibliographyImportSources.foldlM insertImportSourceRow db
  let db ← plan.snapshot.bibliographyImportLinks.foldlM insertImportLinkRow db
  let db ← plan.snapshot.mathMacroSettings.foldlM
    (fun db entry => db.insertMathMacroRow codec entry) db
  let db ← plan.citations.foldlM insertCitationRow db
  let db ← plan.references.foldlM insertReferenceRow db
  let db ← plan.snapshot.noteAcl.foldlM (fun (db : Database) entry => db.insertAclRow entry.toRow)
    db
  return db.forgetChanges

end Database

end Marginalis
