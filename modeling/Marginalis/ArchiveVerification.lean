import Marginalis.ArchiveRoundTrip
import Marginalis.BackupRestore

/-!
# Verified archives

The maintenance trusts no archive it has not tried : it is read, restored into an empty database,
exported from there and written once more, and what is written has to say the same
(`verifyArchive`). A backup reads and tries the file it has just written (`populate`). In no
database that a run of the service reaches does that stop it, as long as the file is read as the
archive that was written to it (`backup_verified`).
-/

/-! ## Equality of documents -/

namespace Json

mutual

def decEq : (a b : Json) → Decidable (a = b)
  | null, b => match b with
    | null => isTrue rfl
    | bool _ | number _ | string _ | array _ | object _ => isFalse nofun
  | bool a, b => match b with
    | bool b => decidable_of_iff (a = b) (bool.injEq a b).symm.to_iff
    | null | number _ | string _ | array _ | object _ => isFalse nofun
  | number a, b => match b with
    | number b => decidable_of_iff (a = b) (number.injEq a b).symm.to_iff
    | null | bool _ | string _ | array _ | object _ => isFalse nofun
  | string a, b => match b with
    | string b => decidable_of_iff (a = b) (string.injEq a b).symm.to_iff
    | null | bool _ | number _ | array _ | object _ => isFalse nofun
  | array a, b => match b with
    | array b => @decidable_of_iff _ (a = b) (array.injEq a b).symm.to_iff (decEqElements a b)
    | null | bool _ | number _ | string _ | object _ => isFalse nofun
  | object a, b => match b with
    | object b => @decidable_of_iff _ (a = b) (object.injEq a b).symm.to_iff (decEqFields a b)
    | null | bool _ | number _ | string _ | array _ => isFalse nofun

def decEqElements : (a b : List Json) → Decidable (a = b)
  | [], [] => isTrue rfl
  | [], _ :: _ | _ :: _, [] => isFalse nofun
  | x :: xs, y :: ys =>
    have := decEq x y
    have := decEqElements xs ys
    decidable_of_iff (x = y ∧ xs = ys) (List.cons_eq_cons).symm

def decEqFields : (a b : List (String × Json)) → Decidable (a = b)
  | [], [] => isTrue rfl
  | [], _ :: _ | _ :: _, [] => isFalse nofun
  | (k, x) :: xs, (l, y) :: ys =>
    have := decEq x y
    have := decEqFields xs ys
    decidable_of_iff ((k = l ∧ x = y) ∧ xs = ys)
      (List.cons_eq_cons.trans (and_congr_left fun _ => Prod.mk_inj)).symm

end

instance : DecidableEq Json := decEq

end Json

namespace Marginalis

open LogicalSnapshot
open Table (orderBy)

deriving instance DecidableEq for ArchiveBibliographyItem, Archive

/-! ## The commands -/

/-- `serde_json`, with the derived writers and readers of archives : what a file holds. -/
structure ArchiveCodec where
  encode : Archive → List UInt8
  decode : List UInt8 → Option Archive

/-- What is written of an archive is read as that archive. -/
def ArchiveCodec.Rereads (codec : ArchiveCodec) (archive : Archive) : Prop :=
  codec.decode (codec.encode archive) = some archive

/-- What a command stops at. -/
inductive MaintenanceFailure
  | store (error : SqliteStoreError)
  | unreadableDocument
  | unreadableArchive
  | migration (error : ArchiveLibrary.ArchiveMigrationError)
  | validation (error : ArchiveLibrary.ArchiveValidationError)
  | plan (error : RestorePlanError)
  | writtenArchiveDiffers
  | restoredArchiveDiffers

structure ValidatedArchive (lib : AttachmentLibrary) (json : JsonCodec) where
  archive : Archive
  plan : RestorePlan lib json

/-- `matches_logically`. -/
def MatchesLogically (left right : Archive) : Prop := left.canonical = right.canonical

instance (left right : Archive) : Decidable (MatchesLogically left right) :=
  inferInstanceAs (Decidable (left.canonical = right.canonical))

section Commands

variable (service : ServiceLibrary) (lib : ArchiveLibrary) (queries : NoteQueries)
  (codec : ArchiveCodec)

/-- `create_archive`, whose panic ends a command. -/
def writeArchive (s : LogicalSnapshot service.attachments service.imports.json) :
    Except MaintenanceFailure Archive :=
  match createArchive lib s with
  | none => .error .unreadableDocument
  | some archive => .ok archive

/-- The archive with its restore plan, once its contract is checked. -/
def validatedArchive (archive : Archive) : Except MaintenanceFailure
    (ValidatedArchive service.attachments service.imports.json) := do
  let snapshot ← (lib.validateArchive service.attachments service.imports.json archive).mapError
    .validation
  let plan ← (restorePlan queries snapshot).mapError .plan
  return ⟨archive, plan⟩

/-- `read_validated_archive`, of what the file holds. -/
def readValidatedArchive (file : List UInt8) : Except MaintenanceFailure
    (ValidatedArchive service.attachments service.imports.json) :=
  match codec.decode file with
  | none => .error .unreadableArchive
  | some archive => validatedArchive service lib queries archive

/-- `verify_archive_in_memory`, and `verify_archive_in_isolated_database`. -/
def verifyArchive (validated : ValidatedArchive service.attachments service.imports.json) :
    Except MaintenanceFailure Unit := do
  let db ← (Database.empty.restore service.macros validated.plan).mapError .store
  let snapshot ← (db.exportArchiveSnapshot service).mapError .store
  let restored ← writeArchive service lib snapshot
  if MatchesLogically restored validated.archive then .ok () else .error .restoredArchiveDiffers

/-- `populate` : the archive of a backup, whose file is read again and verified. -/
def Database.populate (db : Database) : Except MaintenanceFailure Archive := do
  let snapshot ← (db.exportArchiveSnapshot service).mapError .store
  let archive ← writeArchive service lib snapshot
  let written ← readValidatedArchive service lib queries codec (codec.encode archive)
  if written.archive ≠ archive then .error .writtenArchiveDiffers
  else do
    verifyArchive service lib written
    return archive

end Commands

variable {service : ServiceLibrary} {lib : ArchiveLibrary} {queries : NoteQueries}
  {codec : ArchiveCodec} {r : Restatement}
  {s : LogicalSnapshot service.attachments service.imports.json}
  {parts parts' : SnapshotParts service.attachments service.imports.json}

/-! ## Snapshots that are read from archives -/

theorem SnapshotParts.Readable.restate (h : s.parts.Readable service) :
    (s.restate r).parts.Readable service where
  notes := List.forall_mem_map.mpr fun note hnote => by
    refine ⟨(h.notes note hnote).1, fun review hlast => ?_⟩
    obtain ⟨old, hold, rfl⟩ := Option.map_eq_some_iff.mp
      ((NoteReviewTracking.lastReview_restate r note.review).symm.trans hlast)
    exact (h.notes note hnote).2 old hold
  noteRevisions := List.forall_mem_map.mpr fun entry hentry => by
    refine ⟨(h.noteRevisions entry hentry).1, fun review hlast => ?_⟩
    obtain ⟨old, hold, rfl⟩ := Option.map_eq_some_iff.mp
      ((NoteReviewTracking.lastReview_restate r entry.note.review).symm.trans hlast)
    exact (h.noteRevisions entry hentry).2 old hold
  links := h.links
  owners := List.forall_mem_map.mpr fun entry hentry => knows_restate (h.owners entry hentry)
  items := List.forall_mem_map.mpr fun item hitem => h.items item hitem
  macros := List.forall_mem_map.mpr fun entry hentry => h.macros entry hentry

/-- The order that the constructors keep entries in does not matter. -/
theorem SnapshotParts.Rearranges.logicalSnapshot (h : parts.Rearranges parts') :
    parts.Rearranges parts'.logicalSnapshot.parts :=
  { h with
    noteRevisions := h.noteRevisions.trans Table.orderBy_perm.symm
    attachments := h.attachments.trans Table.orderBy_perm.symm
    attachmentReferences := h.attachmentReferences.trans Table.orderBy_perm.symm }

theorem NoteQueries.Analyzes.restate {note : Note} (h : queries.Analyzes note) :
    queries.Analyzes (note.restate r) := by
  have hsource : (note.restate r).draft.source = note.draft.source := r.source_draft note.draft
  unfold NoteQueries.Analyzes
  rw [hsource]
  exact h

theorem LogicalSnapshot.ShortIds.rearrange
    {s' : LogicalSnapshot service.attachments service.imports.json} (h : s.ShortIds)
    (hr : s.parts.Rearranges s'.parts) : s'.ShortIds where
  notes note hnote := h.notes note (hr.notes.mem_iff.mpr hnote)
  attachments attachment hmem := h.attachments attachment (hr.attachments.mem_iff.mpr hmem)
  items item hitem := h.items item (hr.items.mem_iff.mpr hitem)
  sources source hsource := h.sources source (hr.sources.mem_iff.mpr hsource)

/-! ## What passes -/

theorem writeArchive_eq_ok {archive : Archive} (h : createArchive lib s = some archive) :
    writeArchive service lib s = .ok archive := by
  unfold writeArchive
  rw [h]

/-- The archive of a snapshot whose parts fit passes, whatever it was read from. -/
theorem exists_verified (hfits : s.parts.Fits) (hread : s.parts.Readable service)
    (hids : s.ShortIds) (hanalyzed : ∀ note ∈ s.notes, queries.Analyzes note) {archive : Archive}
    (harchive : createArchive lib s = some archive) :
    ∃ plan, restorePlan queries s = .ok plan ∧
      verifyArchive service lib ⟨archive, plan⟩ = .ok () := by
  obtain ⟨plan, db, hplan, hrestore, hexport, -⟩ := Database.exists_restored hfits hread hanalyzed
  have hitems : ∀ item ∈ s.bibliographyItems, ∃ record, item.toArchive = some record := by
    intro item hitem
    obtain ⟨value, hparse, -⟩ := (hread.items item hitem).exists_parse
    exact ⟨_, Option.map_eq_some_iff.mpr ⟨value, hparse, rfl⟩⟩
  have hrestored : createArchive lib s.parts.sorted.logicalSnapshot = some archive :=
    (createArchive_rearranged hfits hids hitems
      s.parts.rearranges_sorted.logicalSnapshot).trans harchive
  refine ⟨plan, hplan, ?_⟩
  exact Except.bind_eq_ok.mpr ⟨db, Except.mapError_eq_ok.mpr hrestore,
    Except.bind_eq_ok.mpr ⟨_, Except.mapError_eq_ok.mpr hexport,
    Except.bind_eq_ok.mpr ⟨archive, writeArchive_eq_ok hrestored, if_pos rfl⟩⟩⟩

/-- A file whose archive was validated is read as that archive. -/
theorem decode_of_readValidatedArchive {file : List UInt8}
    {validated : ValidatedArchive service.attachments service.imports.json}
    (h : readValidatedArchive service lib queries codec file = .ok validated) :
    codec.decode file = some validated.archive := by
  unfold readValidatedArchive at h
  split at h
  · cases h
  · next archive hdecode =>
    obtain ⟨_, -, h⟩ := Except.bind_eq_ok.mp h
    obtain ⟨_, -, h⟩ := Except.bind_eq_ok.mp h
    obtain rfl := Except.ok.inj h
    exact hdecode

theorem readValidatedArchive_eq {file : List UInt8} {archive : Archive}
    (h : codec.decode file = some archive) :
    readValidatedArchive service lib queries codec file =
      validatedArchive service lib queries archive := by
  unfold readValidatedArchive
  rw [h]

/-- The archive of a snapshot meets its contract, and passes. -/
theorem exists_validatedArchive (hlib : lib.Rereads) (hfits : s.parts.Fits) (h : lib.Archivable s)
    (hread : s.parts.Readable service) (hanalyzed : ∀ note ∈ s.notes, queries.Analyzes note)
    {archive : Archive} (harchive : createArchive lib s = some archive) :
    ∃ plan, validatedArchive service lib queries archive = .ok ⟨archive, plan⟩ ∧
      verifyArchive service lib ⟨archive, plan⟩ = .ok () := by
  have hvalidate := ArchiveLibrary.validateArchive_createArchive hlib hfits h harchive
  -- What is read passes, since it is what was written in another order.
  have hrearranged : (s.restate (lib.restatement s.principals)).parts.Rearranges
      (lib.readParts s).logicalSnapshot.parts := ArchiveLibrary.rearranges_readParts hfits
  have hnotes : ∀ note ∈ (lib.readParts s).logicalSnapshot.notes, queries.Analyzes note := by
    intro note hnote
    obtain ⟨old, hold, rfl⟩ := List.mem_map.mp (hrearranged.notes.mem_iff.mpr hnote)
    exact (hanalyzed old hold).restate
  obtain ⟨plan, hplan, hverify⟩ := exists_verified
    ((ArchiveLibrary.fits_readParts hfits).rearrange (SnapshotParts.rearranges_logicalSnapshot _))
    (hread.restate.rearrange hrearranged) (h.shortIds_restate.rearrange hrearranged) hnotes
    ((ArchiveLibrary.createArchive_readParts hfits h).trans harchive)
  refine ⟨plan, ?_, hverify⟩
  exact Except.bind_eq_ok.mpr ⟨_, Except.mapError_eq_ok.mpr hvalidate,
    Except.bind_eq_ok.mpr ⟨plan, Except.mapError_eq_ok.mpr hplan, rfl⟩⟩

namespace Database

variable {db : Database} {μ : Type*} {moves : List (Move Database (DatabaseOperation service μ))}

/-- A backup whose archive passes is stopped by its file only. -/
theorem populate_eq_ok_iff {archive : Archive} {plan}
    (hexport : db.exportArchiveSnapshot service = .ok s)
    (harchive : createArchive lib s = some archive)
    (hvalidated : validatedArchive service lib queries archive = .ok ⟨archive, plan⟩)
    (hverify : verifyArchive service lib ⟨archive, plan⟩ = .ok ()) :
    db.populate service lib queries codec = .ok archive ↔ codec.Rereads archive := by
  constructor
  · intro h
    obtain ⟨s', hs', h⟩ := Except.bind_eq_ok.mp h
    obtain rfl := Except.ok.inj (hexport.symm.trans (Except.mapError_eq_ok.mp hs'))
    obtain ⟨created, hcreated, h⟩ := Except.bind_eq_ok.mp h
    obtain rfl := Except.ok.inj ((writeArchive_eq_ok harchive).symm.trans hcreated)
    obtain ⟨written, hwritten, h⟩ := Except.bind_eq_ok.mp h
    split_ifs at h with hsame
    exact (decode_of_readValidatedArchive hwritten).trans (congrArg some (not_not.mp hsame))
  · intro h
    have hwritten : readValidatedArchive service lib queries codec (codec.encode archive) =
        .ok ⟨archive, plan⟩ := (readValidatedArchive_eq h).trans hvalidated
    exact Except.bind_eq_ok.mpr ⟨_, Except.mapError_eq_ok.mpr hexport,
      Except.bind_eq_ok.mpr ⟨archive, writeArchive_eq_ok harchive,
        Except.bind_eq_ok.mpr ⟨_, hwritten, (if_neg (not_not.mpr rfl)).trans
          (Except.bind_eq_ok.mpr ⟨(), hverify, rfl⟩)⟩⟩⟩

/-- A backup of any state that a run reaches is written and verified, whenever its file is read as
what was written. -/
theorem backup_verified (hrun : Run DatabaseOperation.LegalStep empty moves db)
    (hexport : db.exportArchiveSnapshot service = .ok s) (hlib : lib.Rereads)
    (h : lib.Understands s) (hanalyzed : ∀ note ∈ s.notes, queries.Analyzes note) :
    ∃ archive, createArchive lib s = some archive ∧
      (db.populate service lib queries codec = .ok archive ↔ codec.Rereads archive) := by
  have hsound := serviceSound_of_run hrun
  obtain ⟨rows, hrows, rfl⟩ := hsound.exportArchiveSnapshot_eq_ok.mp hexport
  have hfits := ((hsound.exported hrows).fits hsound).rearrange rows.rearranges_logicalSnapshot
  have hread := ((hsound.exported hrows).readable hsound h.items).logicalSnapshot
  have harchivable : lib.Archivable rows.logicalSnapshot :=
    ⟨h, hread.toCountFromOne, hread.owners⟩
  obtain ⟨archive, harchive⟩ := harchivable.exists_archive
  obtain ⟨plan, hvalidated, hverify⟩ :=
    exists_validatedArchive hlib hfits harchivable hread hanalyzed harchive
  exact ⟨archive, harchive, populate_eq_ok_iff hexport harchive hvalidated hverify⟩

end Database

/-! ## The backup of a workspace -/

/-- Files that name one of the given archives. -/
def sampleArchiveCodec (archives : List Archive) : ArchiveCodec where
  encode archive := [UInt8.ofNat (archives.idxOf archive)]
  decode
    | [position] => archives[position.toNat]?
    | _ => none

theorem rereads_sampleArchiveCodec {archives : List Archive} (hshort : archives.length ≤ 256)
    {archive : Archive} (h : archive ∈ archives) :
    (sampleArchiveCodec archives).Rereads archive := by
  have hlt := List.idxOf_lt_length_of_mem h
  have hbyte : (UInt8.ofNat (archives.idxOf archive)).toNat = archives.idxOf archive :=
    UInt8.toNat_ofNat_of_lt' (hlt.trans_le hshort)
  unfold ArchiveCodec.Rereads sampleArchiveCodec
  dsimp only
  rw [hbyte]
  exact (List.getElem?_eq_getElem hlt).trans (congrArg some (List.getElem_idxOf hlt))

namespace Database

open ArchiveLibrary in
/-- The backup of the workspace is verified. -/
theorem backup_verified_workspace : ∃ s archive,
    workspace.exportArchiveSnapshot workspaceService = .ok s ∧
    createArchive workspaceArchive s = some archive ∧
      workspace.populate workspaceService workspaceArchive workspaceQueries
        (sampleArchiveCodec [archive]) = .ok archive := by
  obtain ⟨s, hs, hunderstands⟩ := exists_workspaceSnapshot
  have hverified : ∀ codec, ∃ archive, createArchive workspaceArchive s = some archive ∧
      (workspace.populate workspaceService workspaceArchive workspaceQueries codec = .ok archive ↔
        codec.Rereads archive) := fun codec =>
    backup_verified run_fillWorkspace hs rereads_workspaceArchive hunderstands fun note _ =>
      analyzes_workspaceQueries note
  obtain ⟨archive, harchive, -⟩ := hverified (sampleArchiveCodec [])
  obtain ⟨archive', harchive', hbackup⟩ := hverified (sampleArchiveCodec [archive])
  obtain rfl := Option.some.inj (harchive.symm.trans harchive')
  exact ⟨s, archive, hs, harchive,
    hbackup.mpr (rereads_sampleArchiveCodec (by simp) List.mem_cons_self)⟩

end Database

end Marginalis
