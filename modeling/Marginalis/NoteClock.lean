import Marginalis.PurgeNotes
import Marginalis.ReviewStatus

/-!
# Notes under a clock that steps back

Six commands write the clock reading of their request to a stored note, each to other
columns, and carry the other times over. The `CHECK`s of `notes` and `note_revisions` and the
decoder relate all of these times (`NoteRow.Valid`), so a reading that lies before a stored
time makes the command fail although its access and its revision are right. The reading fits
a note when it is not before the creation, nor before the last review unless the command is a
review itself (`NoteCommand.TimesFit`).

In every reachable database a command whose `WHERE` clause holds commits exactly when its
reading fits (`NotesSound.exec_ok_iff`). What is stored is a valid note in either case : the
transaction of a command that does not fit is rolled back (`note_clock_iff`).
-/

namespace Marginalis

open Database

/-! ## Rows of valid notes -/

/-- What the constraints of `notes` and the decoder ask of a row. -/
structure NoteRow.Valid (row : NoteRow) : Prop where
  check : row.Check
  updated : row.createdAt ≤ row.updatedAt
  deleted : ∀ deletedAt ∈ row.deletedAt, row.createdAt ≤ deletedAt ∧ deletedAt ≤ row.updatedAt

/-- A row that decodes has its times in order. -/
theorem NoteRow.Valid.of_noteFromRow {details : NoteDetails} {note : Note}
    (hcheck : details.row.Check) (h : noteFromRow details = .ok note) : details.row.Valid := by
  obtain ⟨-, -, -, -, hcreated, hupdated, -, hdeleted, -⟩ := noteFromRow_eq_ok.mp h
  obtain ⟨hle, hbetween, -⟩ := note.consistent
  rw [hcreated, hupdated] at hle
  rw [hcreated, hupdated, hdeleted] at hbetween
  exact ⟨hcheck, hle, hbetween⟩

/-- A valid row decodes, whatever the identity of its owner. -/
theorem NoteRow.Valid.exists_noteFromRow {row : NoteRow} (h : row.Valid) (identity : Identity) :
    ∃ note, noteFromRow ⟨row, identity, row.review.map fun _ => identity⟩ = .ok note := by
  obtain ⟨⟨-, hreview⟩, hupdated, hdeleted⟩ := h
  obtain ⟨tracking, htracking, hconsistent⟩ : ∃ tracking,
      NoteDetails.reviewTracking ⟨row, identity, row.review.map fun _ => identity⟩ = .ok tracking ∧
        ∀ review ∈ tracking.lastReview, review.revision ≤ row.revision ∧
          row.createdAt ≤ review.reviewedAt ∧ review.reviewedAt ≤ row.updatedAt ∧
          review.reviewer.id = row.creator := by
    unfold NoteDetails.reviewTracking
    cases hcolumns : row.review with
    | none => cases row.reviewTrackingKnown <;> simp [NoteReviewTracking.pending,
        NoteReviewTracking.lastReview]
    | some review =>
      obtain ⟨hknown, -, hle, hcreated, hreviewed, howner⟩ := hreview review hcolumns
      simp [NoteReviewTracking.lastReview, hknown, hle, hcreated, hreviewed, howner]
  refine ⟨⟨⟨row.noteId, ⟨row.creator, identity⟩, ⟨row.title, row.source, row.tags⟩,
    row.createdAt, row.updatedAt, row.revision, row.deletedAt, row.createdVia, tracking⟩,
    hupdated, hdeleted, hconsistent⟩, noteFromRow_eq_ok.mpr ?_⟩
  exact ⟨htracking, rfl, rfl, rfl, rfl, rfl, rfl, rfl, rfl⟩

namespace Database

variable {db db' : Database} {row : NoteRow}

/-- The reviewer of a valid row is its owner, so the view shows one identity for both. -/
theorem noteDetails_of_valid (h : row.Valid) {identity : Identity}
    (hidentity : db.primaryIdentity row.creator = some identity) :
    (row.review.bind fun review => db.primaryIdentity review.reviewer) =
      row.review.map fun _ => identity := by
  cases hreview : row.review with
  | none => rfl
  | some review =>
    have howner := (h.check.2 review hreview).2.2.2.2.2
    rw [Option.bind_some, Option.map_some, howner, hidentity]

/-- A stored row with a known owner and valid columns reads. -/
theorem exists_readNote (hfind : db.notes.find row.noteId = some row) (h : row.Valid)
    {identity : Identity} (hidentity : db.primaryIdentity row.creator = some identity) :
    ∃ note, db.readNote row.noteId = .ok note := by
  obtain ⟨note, hnote⟩ := h.exists_noteFromRow identity
  refine ⟨note, readNote_eq_ok.mpr ⟨row, _, hfind, ?_, hnote⟩⟩
  rw [noteDetails, hidentity, noteDetails_of_valid h hidentity]
  rfl

/-- A stored row that reads and passes its constraints is valid. -/
theorem valid_of_readNote {note : Note} {n : NoteId} (hfind : db.notes.find n = some row)
    (hcheck : row.Check) (h : db.readNote n = .ok note) : row.Valid := by
  obtain ⟨row', details, hrow, hdetails, hnote⟩ := readNote_eq_ok.mp h
  rw [hfind, Option.some.injEq] at hrow
  subst hrow
  rw [← row_of_noteDetails hdetails] at hcheck ⊢
  exact .of_noteFromRow hcheck hnote

end Database

theorem NoteRow.Check.toRevisionRow {row : NoteRow} (h : row.Check) (changedBy : PrincipalId)
    (kind : NoteRevisionKind) : (row.toRevisionRow changedBy kind).Check := by
  refine ⟨h.1, fun review hreview => ?_⟩
  obtain ⟨hknown, hpos, hle, -, hreviewed, -⟩ := h.2 review hreview
  exact ⟨hknown, hpos, hle, hreviewed⟩

/-! ## Readings that fit -/

theorem Database.creator_of_manage {db : Database} {p : PrincipalId} {row : NoteRow}
    (hfind : db.notes.find row.noteId = some row) (h : db.HasAccess p row.noteId 3) :
    row.creator = p := by
  obtain ⟨access, haccess, hn, hp, hlevel⟩ := h
  rcases mem_noteAccess.mp haccess with ⟨row', hrow', rfl⟩ | ⟨grant, -, rfl⟩
  · have hsame := Table.eq_of_key_eq (Table.mem_of_find hfind) hrow' hn.symm
    exact hsame ▸ hp
  · cases hpermission : grant.permission <;>
      simp [hpermission, NotePermission.accessLevel] at hlevel

namespace NoteCommand

variable {c : NoteCommand} {db db' written : Database} {old : NoteRow}

/-- The reading is not before the creation of the note, nor before its last review, which a
review replaces. -/
def TimesFit (c : NoteCommand) (old : NoteRow) : Prop :=
  old.createdAt ≤ c.reading ∧
    (c.kind ≠ .reviewed → ∀ review ∈ old.review, review.reviewedAt ≤ c.reading)

/-- What a `SET` clause does to the times : it writes the reading, and a note that stays
deleted was deleted at it. -/
theorem Guard.times_set (h : c.Guard db old) : (c.set old).createdAt = old.createdAt ∧
    (c.set old).updatedAt = c.reading ∧ (c.set old).reviewTrackingKnown = true ∧
    ∀ deletedAt ∈ (c.set old).deletedAt, deletedAt = c.reading := by
  cases c with
  | create => exact h.elim
  | softDelete => simp [set, reading]
  | restore => simp [set, reading]
  | update | restoreRevision | replaceAcl | markReviewed => simp [set, reading, h.2.1]

/-- The review columns after a `SET` clause : a review by the owner, or those before. -/
theorem Guard.review_set (hold : db.notes.find c.noteId = some old) (h : c.Guard db old) :
    c.kind = .reviewed ∧ (c.set old).review = some ⟨old.revision + 1, c.reading, old.creator⟩ ∨
      c.kind ≠ .reviewed ∧ (c.set old).review = old.review := by
  cases c with
  | create => exact h.elim
  | markReviewed actor n r reviewedAt =>
    have hid : old.noteId = n := Table.key_of_find hold
    subst hid
    rw [Database.creator_of_manage hold h.2.2]
    exact Or.inl ⟨rfl, rfl⟩
  | update | restoreRevision | softDelete | restore | replaceAcl =>
    exact Or.inr ⟨by simp [kind], rfl⟩

/-- The row an update writes is valid exactly when the reading fits the row before. -/
theorem Guard.valid_set_iff (hold : db.notes.find c.noteId = some old) (h : c.Guard db old)
    (hvalid : old.Valid) : (c.set old).Valid ↔ c.TimesFit old := by
  obtain ⟨hcreated, hupdated, hknown, hdeleted⟩ := h.times_set
  have hrevision := h.revision_eq.2
  constructor
  · intro hnew
    have hle := hnew.updated
    rw [hcreated, hupdated] at hle
    refine ⟨hle, fun hkind review hreview => ?_⟩
    rcases h.review_set hold with ⟨hreviewed, -⟩ | ⟨-, hsame⟩
    · exact absurd hreviewed hkind
    · obtain ⟨-, -, -, -, hbefore, -⟩ := hnew.check.2 review (hsame ▸ hreview)
      rwa [hupdated] at hbefore
  · rintro ⟨hfits, hreviews⟩
    refine ⟨⟨?_, fun review hreview => ?_⟩, by rwa [hcreated, hupdated], fun d hd => ?_⟩
    · rw [hrevision]
      omega
    · rw [hcreated, hupdated, hrevision, creator_set]
      rcases h.review_set hold with ⟨-, hnew⟩ | ⟨hkind, hsame⟩
      · rw [hnew, Option.mem_some_iff] at hreview
        subst hreview
        exact ⟨hknown, Nat.succ_pos _, le_refl _, hfits, le_refl _, rfl⟩
      · rw [hsame] at hreview
        obtain ⟨-, hpos, hle, hlow, -, howner⟩ := hvalid.check.2 review hreview
        exact ⟨hknown, hpos, by omega, hlow, hreviews hkind review hreview, howner⟩
    · rw [hdeleted d hd, hcreated, hupdated]
      exact ⟨hfits, le_refl _⟩

@[simp] theorem noteColumns_set (r : NoteRevisionRow) :
    r.noteColumns (c.set old) = r.noteColumns old := by
  cases c <;> rfl

end NoteCommand

/-! ## What is stored -/

namespace Database

/-- The principal has a row. -/
def Known (db : Database) (q : PrincipalId) : Prop := ∃ p, db.principals.find q = some p

/-- Every row of `notes` is a valid note's, every row of the history a valid state of a stored
note that is not ahead of it, and the principals they name are known. -/
structure NotesSound (db : Database) : Prop where
  known : db.OwnersKnown
  grantees : ∀ row ∈ db.noteAcl, db.Known row.principalId
  valid : ∀ row ∈ db.notes, row.Valid
  history : ∀ r ∈ db.noteRevisions, ∃ note ∈ db.notes, note.noteId = r.noteId ∧
    r.revision ≤ note.revision ∧ (r.noteColumns note).Valid ∧ db.Known r.changedBy

variable {db db' : Database}

theorem notesSound_empty : empty.NotesSound :=
  ⟨ownersKnown_empty, by simp [empty], by simp [empty], by simp [empty]⟩

theorem NotesSound.identity (h : db.NotesSound) {row : NoteRow} (hrow : row ∈ db.notes) :
    ∃ identity, db.primaryIdentity row.creator = some identity := by
  obtain ⟨p, hp⟩ := h.known.owner row hrow
  have hid : p.principalId = row.creator := Table.key_of_find hp
  exact hid ▸ h.known.principals.primary p (Table.mem_of_find hp)

theorem NotesSound.readNote (h : db.NotesSound) {row : NoteRow} (hrow : row ∈ db.notes) :
    ∃ note, db.readNote row.noteId = .ok note := by
  obtain ⟨identity, hidentity⟩ := h.identity hrow
  exact exists_readNote (Table.find_of_mem hrow) (h.valid row hrow) hidentity

/-- A history row has its joins and decodes. -/
theorem NotesSound.revision (h : db.NotesSound) {r : NoteRevisionRow}
    (hr : r ∈ db.noteRevisions) : ∃ details snapshot, db.revisionDetails r = some details ∧
      revisionFromRow details = .ok snapshot := by
  obtain ⟨note, hnote, hid, -, hvalid, p, hp⟩ := h.history r hr
  obtain ⟨identity, hidentity⟩ := h.identity hnote
  obtain ⟨changedBy, hchangedBy⟩ := h.known.principals.primary p (Table.mem_of_find hp)
  rw [show p.principalId = r.changedBy from Table.key_of_find hp] at hchangedBy
  have hfind : db.notes.find r.noteId = some note := hid ▸ Table.find_of_mem hnote
  have hreviewer : (r.review.bind fun review => db.primaryIdentity review.reviewer) =
      r.review.map fun _ => identity := noteDetails_of_valid hvalid hidentity
  obtain ⟨decoded, hdecoded⟩ := hvalid.exists_noteFromRow identity
  refine ⟨⟨r, note, identity, changedBy, r.review.map fun _ => identity⟩,
    ⟨decoded, ⟨r.changedBy, changedBy⟩, r.changeKind⟩, ?_, ?_⟩
  · rw [← hreviewer]
    simp only [revisionDetails, hfind, Option.bind_eq_bind, Option.bind_some, hidentity, hchangedBy]
    rfl
  · exact Except.bind_eq_ok.mpr ⟨decoded, hdecoded, rfl⟩

/-- Rows that go, a note with its history and its grants, leave the rest sound. -/
theorem NotesSound.mono (h : db.NotesSound) (hknown : db'.OwnersKnown)
    (hprincipals : ∀ q, db.Known q → db'.Known q)
    (hgrants : ∀ row ∈ db'.noteAcl, row ∈ db.noteAcl)
    (hnotes : ∀ row ∈ db'.notes, row ∈ db.notes)
    (hhistory : ∀ r ∈ db'.noteRevisions, r ∈ db.noteRevisions ∧
      ∀ note ∈ db.notes, note.noteId = r.noteId → note ∈ db'.notes) : db'.NotesSound where
  known := hknown
  grantees row hrow := hprincipals _ (h.grantees row (hgrants row hrow))
  valid row hrow := h.valid row (hnotes row hrow)
  history r hr := by
    obtain ⟨hold, hkeeps⟩ := hhistory r hr
    obtain ⟨note, hnote, hid, hle, hvalid, hchangedBy⟩ := h.history r hold
    exact ⟨note, hkeeps note hnote hid, hid, hle, hvalid, hprincipals _ hchangedBy⟩

end Database

/-! ## Commands keep it -/

namespace NoteCommand

variable {c : NoteCommand} {db db' written shared recorded : Database}

/-- Stored grants are to known principals. -/
theorem Shares.grantees (h : c.Shares db shared)
    (hgrantees : ∀ row ∈ db.noteAcl, db.Known row.principalId) :
    ∀ row ∈ shared.noteAcl, shared.Known row.principalId := by
  unfold Shares at h
  cases hentries : c.entries with
  | none =>
    rw [hentries] at h
    exact h ▸ hgrantees
  | some entries =>
    rw [hentries] at h
    refine Except.foldlM_invariant
      (P := fun s : Database => ∀ row ∈ s.noteAcl, s.Known row.principalId) h ?_ ?_
    · intro row hrow
      have hdeleted := sameContent_deleteAclRows
        (db.noteAcl.select fun row => row.noteId = c.noteId) db
      unfold Known
      rw [hdeleted.principals]
      exact hgrantees row ((mem_noteAcl_deleteAclRows _ _).mp hrow).1
    · intro s entry t _ hs hstep row hrow
      have hsame := sameContent_insertAclRow hstep
      obtain ⟨note, acl, -, -, hknown, hinsert, rfl⟩ := insertAclRow_eq_ok.mp hstep
      unfold Known
      rw [hsame.principals]
      rw [noteAcl_recordAccessChange] at hrow
      rcases (Table.mem_insert? hinsert).mp hrow with hrow | rfl
      · exact hs row hrow
      · exact hknown

theorem Records.tables (h : c.Records shared recorded) : recorded.notes = shared.notes ∧
    recorded.noteAttachments = shared.noteAttachments := by
  obtain ⟨references, citations, revisions, attachments, rfl⟩ := h.eq
  exact ⟨rfl, rfl⟩

/-- The row of a new note is valid. -/
theorem valid_createdRow {new : NoteRow} (h : c.createdRow = some new) : new.Valid := by
  cases c with
  | create =>
    cases h
    exact ⟨⟨Nat.one_pos, by simp [Note.toRow, Note.create, NoteReviewTracking.pending,
      NoteReviewTracking.lastReview]⟩, le_refl _, by simp [Note.toRow, Note.create]⟩
  | update | restoreRevision | softDelete | restore | replaceAcl | markReviewed => cases h

/-- A committed command writes a valid row and the row of its history. -/
theorem exec_notesSound (hsound : db.NotesSound) (h : c.exec db = .ok db') : db'.NotesSound := by
  have hknown : db'.OwnersKnown := Statements.ownersKnown hsound.known (exec_statements h)
  obtain ⟨written, shared, recorded, hw, hs, hread, hr, ha⟩ := exec_stages h
  obtain ⟨row, hrow, hactor, hinsert⟩ := hr.inserts
  obtain ⟨references, citations, revisions, attachments, rfl⟩ := hr.eq
  obtain ⟨attachments', rfl⟩ := ha.eq
  obtain ⟨new, hid, hcheck, hnew, hfind⟩ := hw.row
  obtain ⟨notes, change, rfl⟩ := hw.eq
  have hsame := hs.sameContent
  have hprincipals : shared.principals = db.principals := hsame.principals
  have hnotes : ∀ n, shared.notes.find n = if c.noteId = n then some new else db.notes.find n := by
    intro n
    rw [hsame.notes, hfind]
  rw [hnotes, if_pos rfl, Option.some.injEq] at hrow
  subst hrow
  have hvalid : new.Valid := by
    rcases hnew with ⟨hcreated, -⟩ | ⟨old, -, hguard, -⟩
    · exact valid_createdRow hcreated
    · obtain ⟨note, hnote⟩ := hread hguard.createdRow_eq_none
      exact valid_of_readNote (by rw [hnotes, if_pos rfl]) hcheck hnote
  have hmem : new ∈ shared.notes := Table.mem_of_find (by rw [hnotes, if_pos rfl])
  refine ⟨hknown, hs.grantees hsound.grantees, fun r hr => ?_, fun r hr => ?_⟩
  · rcases (Table.mem_of_find_replaced (r := new) (t := db.notes) fun n => by
      rw [hnotes, ← hid]; rfl).mp hr with rfl | ⟨hold, -⟩
    · exact hvalid
    · exact hsound.valid r hold
  · rcases (Table.mem_insert? hinsert).mp hr with hr | rfl
    · rw [hsame.noteRevisions] at hr
      obtain ⟨note, hnote, hnoteId, hle, hcolumns, hchangedBy⟩ := hsound.history r hr
      have hchangedBy' : shared.Known r.changedBy := by
        unfold Known
        rwa [hprincipals]
      by_cases hn : c.noteId = note.noteId
      · rcases hnew with ⟨-, hnone⟩ | ⟨old, hold, hguard, rfl⟩
        · exact absurd hn.symm (Table.find_eq_none.mp hnone note hnote)
        · have hstored : db.notes.find note.noteId = some note := Table.find_of_mem hnote
          rw [hn, hstored, Option.some.injEq] at hold
          subst hold
          have hrevision := hguard.revision_eq.2
          refine ⟨c.set note, hmem, by rw [noteId_set, hnoteId], by omega, ?_, hchangedBy'⟩
          rwa [noteColumns_set]
      · refine ⟨note, Table.mem_of_find (k := note.noteId) ?_, hnoteId, hle, hcolumns, hchangedBy'⟩
        rw [hnotes, if_neg hn]
        exact Table.find_of_mem hnote
    · exact ⟨new, hmem, rfl, le_refl _, hvalid, hactor⟩

/-! ## When a command commits -/

/-- The stages of an update are enough for it. -/
theorem exec_of_stages {old : NoteRow} {note : Note} (hold : db.notes.find c.noteId = some old)
    (hguard : c.Guard db old) (hw : db.updateNoteRow old (c.set old) = .ok written)
    (hs : c.Shares written shared) (hread : shared.readNote c.noteId = .ok note)
    (hr : c.Records shared recorded) (ha : c.Attaches recorded db') : c.exec db = .ok db' := by
  cases c with
  | create => exact hguard.elim
  | update actor noteId revision draft links updatedAt =>
    cases hs
    simp only [exec, updateVisibleNote, updateVisibleNoteWithKind, Except.mapError_eq_ok,
      Except.map_eq_ok, Except.bind_eq_ok]
    refine ⟨(note, db'), ⟨_, guardedNoteUpdate_eq_ok.mpr ⟨old, hold, hguard, hw⟩, ?_⟩, rfl⟩
    simp only [Except.bind_eq_ok]
    exact ⟨note, hread, recorded, hr, db', ha, rfl⟩
  | restoreRevision actor noteId revision draft links updatedAt =>
    cases hs
    simp only [exec, restoreVisibleNoteRevision, updateVisibleNoteWithKind, Except.mapError_eq_ok,
      Except.map_eq_ok, Except.bind_eq_ok]
    refine ⟨(note, db'), ⟨_, guardedNoteUpdate_eq_ok.mpr ⟨old, hold, hguard, hw⟩, ?_⟩, rfl⟩
    simp only [Except.bind_eq_ok]
    exact ⟨note, hread, recorded, hr, db', ha, rfl⟩
  | softDelete actor noteId revision deletedAt =>
    cases hs
    cases ha
    simp only [exec, softDeleteVisibleNote, Except.mapError_eq_ok, Except.map_eq_ok,
      Except.bind_eq_ok]
    refine ⟨(note, db'), ⟨_, guardedNoteUpdate_eq_ok.mpr ⟨old, hold, hguard, hw⟩, ?_⟩, rfl⟩
    simp only [Except.bind_eq_ok]
    exact ⟨note, hread, db', hr, rfl⟩
  | restore actor noteId revision restoredAt =>
    cases hs
    cases ha
    simp only [exec, restoreOwnedDeletedNote, Except.mapError_eq_ok, Except.map_eq_ok,
      Except.bind_eq_ok]
    refine ⟨(note, db'), ⟨_, guardedNoteUpdate_eq_ok.mpr ⟨old, hold, hguard, hw⟩, ?_⟩, rfl⟩
    simp only [Except.bind_eq_ok, Except.mapError_eq_ok]
    exact ⟨note, hread, db', hr, rfl⟩
  | replaceAcl actor noteId entries revision updatedAt =>
    cases ha
    simp only [exec, replaceNoteAcl, Except.mapError_eq_ok, Except.map_eq_ok, Except.bind_eq_ok]
    refine ⟨(note, db'), ⟨_, guardedNoteUpdate_eq_ok.mpr ⟨old, hold, hguard, hw⟩, ?_⟩, rfl⟩
    simp only [Except.bind_eq_ok]
    exact ⟨shared, hs, note, hread, db', hr, rfl⟩
  | markReviewed actor noteId revision reviewedAt =>
    cases hs
    cases ha
    simp only [exec, markOwnedNoteReviewed, Except.mapError_eq_ok, Except.map_eq_ok,
      Except.bind_eq_ok]
    refine ⟨(note, db'), ⟨_, guardedNoteUpdate_eq_ok.mpr ⟨old, hold, hguard, hw⟩, ?_⟩, rfl⟩
    simp only [Except.bind_eq_ok]
    exact ⟨note, hread, db', hr, rfl⟩

/-- What the application has checked of the arguments before the transaction : the images are
distinct ones of the note, and the grants go to distinct known principals, not to the owner. -/
structure Prepared (c : NoteCommand) (db : Database) (old : NoteRow) : Prop where
  attachments : ∀ links ∈ c.links, links.attachmentIds.Nodup ∧ ∀ id ∈ links.attachmentIds,
    ∃ attachment, db.noteAttachments.find id = some attachment ∧ attachment.noteId = c.noteId
  entries : ∀ entries ∈ c.entries, (entries.map fun entry => entry.principal.id).Nodup ∧
    ∀ entry ∈ entries, db.Known entry.principal.id ∧ entry.principal.id ≠ old.creator

end NoteCommand

namespace Database

variable {db : Database} {n : NoteId}

/-- Grants to distinct known principals other than the owner go in where there are none. -/
theorem exists_insertAclRows {note : NoteRow} {entries : List NoteAclEntry}
    (hfind : db.notes.find n = some note)
    (hnodup : (entries.map fun entry => entry.principal.id).Nodup)
    (hentries : ∀ entry ∈ entries, db.Known entry.principal.id ∧ entry.principal.id ≠ note.creator ∧
      db.noteAcl.find (n, entry.principal.id) = none) :
    ∃ shared, entries.foldlM (fun db entry =>
      db.insertAclRow ⟨n, entry.principal.id, entry.permission⟩) db = .ok shared := by
  induction entries generalizing db with
  | nil => exact ⟨db, rfl⟩
  | cons entry entries ih =>
    rw [List.map_cons, List.nodup_cons] at hnodup
    obtain ⟨hknown, hne, hnone⟩ := hentries entry (List.mem_cons_self ..)
    obtain ⟨acl, hinsert⟩ := Table.exists_insert?
      (r := (⟨n, entry.principal.id, entry.permission⟩ : AclRow)) hnone
    have hstep : db.insertAclRow ⟨n, entry.principal.id, entry.permission⟩ =
        .ok (recordAccessChange { db with noteAcl := acl } .noteAccessGranted
          ⟨n, entry.principal.id, entry.permission⟩) :=
      insertAclRow_eq_ok.mpr ⟨note, acl, hfind, hne.symm, hknown, hinsert, rfl⟩
    have hsame := sameContent_insertAclRow hstep
    obtain ⟨shared, hshared⟩ := ih (hsame.notes ▸ hfind) hnodup.2 fun e he => by
      obtain ⟨hknown', hne', hnone'⟩ := hentries e (List.mem_cons_of_mem _ he)
      refine ⟨?_, hne', ?_⟩
      · unfold Known
        rwa [hsame.principals]
      · rw [noteAcl_recordAccessChange, Table.find_insert? hinsert, if_neg, hnone']
        intro hkey
        exact hnodup.1 (List.mem_map.mpr ⟨e, he, (congrArg Prod.snd hkey).symm⟩)
    exact ⟨shared, by rw [List.foldlM_cons, hstep]; exact hshared⟩

/-- Distinct images of the note are attached to its revision. -/
theorem exists_insertRevisionAttachments {revision : ℕ} {ids : List AttachmentId}
    (hnodup : ids.Nodup) (hids : ∀ id ∈ ids,
      (∃ attachment, db.noteAttachments.find id = some attachment ∧ attachment.noteId = n) ∧
        db.noteRevisionAttachments.find ⟨n, revision, id⟩ = none) :
    ∃ attached, ids.foldlM (insertRevisionAttachment n revision) db = .ok attached := by
  induction ids generalizing db with
  | nil => exact ⟨db, rfl⟩
  | cons id ids ih =>
    rw [List.nodup_cons] at hnodup
    obtain ⟨⟨attachment, hfind, hn⟩, hnone⟩ := hids id (List.mem_cons_self ..)
    obtain ⟨rows, hinsert⟩ := Table.exists_insert?
      (r := (⟨n, revision, id⟩ : RevisionAttachmentRow)) hnone
    have hstep : insertRevisionAttachment n revision db id =
        .ok { db with noteRevisionAttachments := rows } :=
      insertRevisionAttachment_eq_ok.mpr ⟨attachment, rows, hfind, hn, hinsert, rfl⟩
    have hrest : ∀ other ∈ ids, (∃ attachment, db.noteAttachments.find other = some attachment ∧
        attachment.noteId = n) ∧ rows.find ⟨n, revision, other⟩ = none := by
      intro other hother
      obtain ⟨hstored, hnone'⟩ := hids other (List.mem_cons_of_mem _ hother)
      refine ⟨hstored, ?_⟩
      rw [Table.find_insert? hinsert, if_neg, hnone']
      intro hkey
      have hsame : id = other := congrArg RevisionAttachmentRow.attachmentId hkey
      exact hnodup.1 (hsame ▸ hother)
    obtain ⟨attached, hattached⟩ := @ih { db with noteRevisionAttachments := rows } hnodup.2 hrest
    exact ⟨attached, by rw [List.foldlM_cons, hstep]; exact hattached⟩

end Database

namespace NoteCommand

variable {c : NoteCommand} {db shared : Database} {old row : NoteRow}

/-- The grants of a command go in after the old ones went. -/
theorem Prepared.exists_shares (h : c.Prepared db old) (hfind : db.notes.find c.noteId = some row)
    (hcreator : row.creator = old.creator) : ∃ shared, c.Shares db shared := by
  unfold Shares
  cases hentries : c.entries with
  | none => exact ⟨db, rfl⟩
  | some entries =>
    obtain ⟨hnodup, hentries⟩ := h.entries entries hentries
    have hsame := sameContent_deleteAclRows
      (db.noteAcl.select fun row => row.noteId = c.noteId) db
    have hfind' := hsame.notes ▸ hfind
    refine exists_insertAclRows hfind' hnodup fun entry hentry => ?_
    obtain ⟨hknown, hne⟩ := hentries entry hentry
    refine ⟨?_, hcreator ▸ hne, Table.find_eq_none.mpr fun grant hgrant hkey => ?_⟩
    · unfold Known
      rwa [hsame.principals]
    · obtain ⟨hgrant, hgone⟩ := (mem_noteAcl_deleteAclRows _ _).mp hgrant
      have hn : grant.noteId = c.noteId := congrArg Prod.fst hkey
      exact hgone grant (Table.mem_select.mpr ⟨hgrant, by simpa using hn⟩) ⟨rfl, rfl⟩

/-- A valid row with a new revision is appended to the history. -/
theorem exists_records (hfind : shared.notes.find c.noteId = some row) (hvalid : row.Valid)
    (hactor : shared.Known c.principalId)
    (hnew : shared.noteRevisions.find (row.noteId, row.revision) = none) :
    ∃ recorded, c.Records shared recorded := by
  obtain ⟨revisions, hinsert⟩ := Table.exists_insert?
    (r := row.toRevisionRow c.principalId c.kind) hnew
  unfold Records
  cases c.links with
  | none =>
    exact ⟨_, insertNoteRevision_eq_ok.mpr ⟨row, revisions, hfind,
      hvalid.check.toRevisionRow _ _, Option.isSome_iff_exists.mpr hactor, hinsert, rfl⟩⟩
  | some links =>
    exact ⟨_, insertNoteRevision_eq_ok.mpr ⟨row, revisions, hfind,
      hvalid.check.toRevisionRow _ _, Option.isSome_iff_exists.mpr hactor, hinsert, rfl⟩⟩

/-- The images of a command are attached to its revision after the old ones went. -/
theorem Prepared.exists_attaches (h : c.Prepared db old) {recorded : Database}
    (hfind : recorded.notes.find c.noteId = some row)
    (hattachments : recorded.noteAttachments = db.noteAttachments) :
    ∃ attached, c.Attaches recorded attached := by
  unfold Attaches
  cases hlinks : c.links with
  | none => exact ⟨recorded, rfl⟩
  | some links =>
    obtain ⟨hnodup, hids⟩ := h.attachments links hlinks
    simp only [replaceNoteRevisionAttachments, hfind]
    refine exists_insertRevisionAttachments hnodup fun id hid => ⟨?_, ?_⟩
    · rw [hattachments]
      exact hids id hid
    · rw [Table.find_deleteWhere]
      refine Option.filter_eq_none_iff.mpr fun shown hshown => ?_
      obtain rfl : shown = ⟨c.noteId, row.revision, id⟩ := Table.key_of_find hshown
      simp

end NoteCommand

namespace Database

variable {db : Database} {c : NoteCommand} {old : NoteRow}

/-- The actor of a command whose guard holds is the owner or has a grant. -/
theorem NotesSound.known_of_guard (hsound : db.NotesSound)
    (hold : db.notes.find c.noteId = some old) (hguard : c.Guard db old) :
    db.Known c.principalId := by
  rcases hguard.authorized hold with hnone | ⟨access, haccess, -, hp, -⟩
  · cases c with
    | create => exact hguard.elim
    | update | restoreRevision | softDelete | restore | replaceAcl | markReviewed => cases hnone
  · rw [← hp]
    rcases mem_noteAccess.mp haccess with ⟨row, hrow, rfl⟩ | ⟨grant, hgrant, rfl⟩
    · exact hsound.known.owner row hrow
    · exact hsound.grantees grant hgrant

/-- A command whose access and revision are right commits exactly when its reading fits. -/
theorem NotesSound.exec_ok_iff (hsound : db.NotesSound)
    (hold : db.notes.find c.noteId = some old) (hguard : c.Guard db old)
    (hprepared : c.Prepared db old) : (∃ db', c.exec db = .ok db') ↔ c.TimesFit old := by
  have hvalid := hsound.valid old (Table.mem_of_find hold)
  have hid : old.noteId = c.noteId := Table.key_of_find hold
  constructor
  · rintro ⟨db', h⟩
    obtain ⟨written, shared, recorded, hw, hs, hread, -, -⟩ := NoteCommand.exec_stages h
    obtain ⟨note, hnote⟩ := hread hguard.createdRow_eq_none
    obtain ⟨new, -, hcheck, hnew, hfind⟩ := hw.row
    obtain ⟨-, rfl⟩ : c.createdRow = none ∧ new = c.set old := by
      rcases hnew with ⟨hcreated, -⟩ | ⟨old', hold', -, rfl⟩
      · rw [hguard.createdRow_eq_none] at hcreated
        cases hcreated
      · rw [hold, Option.some.injEq] at hold'
        exact ⟨hguard.createdRow_eq_none, by rw [hold']⟩
    have hstored : shared.notes.find c.noteId = some (c.set old) := by
      rw [hs.sameContent.notes, hfind, if_pos rfl]
    exact (hguard.valid_set_iff hold hvalid).mp (valid_of_readNote hstored hcheck hnote)
  · intro hfits
    have hnew := (hguard.valid_set_iff hold hvalid).mpr hfits
    have hw : db.updateNoteRow old (c.set old) = .ok
        (recordChange { db with notes := db.notes.upsert (c.set old) }
          (old.updateChange (c.set old))) :=
      updateNoteRow_eq_ok.mpr ⟨hnew.check, rfl⟩
    set written := recordChange { db with notes := db.notes.upsert (c.set old) }
      (old.updateChange (c.set old))
    have hfind : written.notes.find c.noteId = some (c.set old) := by
      simp [written, Keyed.key, hid]
    obtain ⟨shared, hs⟩ : ∃ shared, c.Shares written shared :=
      NoteCommand.Prepared.exists_shares ⟨hprepared.attachments, hprepared.entries⟩ hfind
        NoteCommand.creator_set
    have hsame := hs.sameContent
    have hstored : shared.notes.find c.noteId = some (c.set old) := hsame.notes ▸ hfind
    obtain ⟨identity, hidentity⟩ := hsound.identity (Table.mem_of_find hold)
    have hshown : shared.primaryIdentity (c.set old).creator = some identity := by
      rw [NoteCommand.creator_set, primaryIdentity, hsame.principalIdentities]
      exact hidentity
    have hsetId : (c.set old).noteId = c.noteId := NoteCommand.noteId_set.trans hid
    obtain ⟨note, hnote⟩ := exists_readNote (hsetId.symm ▸ hstored) hnew hshown
    rw [hsetId] at hnote
    obtain ⟨recorded, hr⟩ : ∃ recorded, c.Records shared recorded := by
      refine NoteCommand.exists_records hstored hnew ?_ (Table.find_eq_none.mpr fun r hr hkey => ?_)
      · unfold Known
        rw [hsame.principals]
        exact hsound.known_of_guard hold hguard
      · rw [hsame.noteRevisions] at hr
        obtain ⟨other, hother, hotherId, hle, -⟩ := hsound.history r hr
        obtain ⟨hkeyId, hkeyRevision⟩ := Prod.mk.inj hkey
        have hsameNote : other = old := Table.eq_of_key_eq hother (Table.mem_of_find hold) <| by
          rw [show Keyed.key other = other.noteId from rfl, hotherId, hkeyId]
          exact NoteCommand.noteId_set
        have hrevision := hguard.revision_eq.2
        rw [hsameNote] at hle
        omega
    obtain ⟨hnotes, hattachments⟩ := hr.tables
    obtain ⟨attached, ha⟩ := hprepared.exists_attaches (hnotes ▸ hstored)
      (hattachments.trans hsame.noteAttachments)
    exact ⟨attached, NoteCommand.exec_of_stages hold hguard hw hs hnote hr ha⟩

end Database

/-! ## Runs -/

/-- A transaction of the service. `elsewhere` writes what the notes, their history, their
images and their access do not depend on. -/
inductive StoreOperation (lib : AttachmentLibrary)
  | login (identity : Identity)
  | command (c : NoteCommand)
  | attachment (c : AttachmentCommand lib)
  | purgeAttachments (cutoff : ℤ)
  | purgeNotes (cutoff : ℤ)
  | elsewhere (tables : Database)

namespace StoreOperation

variable {lib : AttachmentLibrary}

/-- The database after a transaction, rolled back when it failed. -/
def apply (db : Database) : StoreOperation lib → Database
  | login identity => db.login identity
  | command c => db.commit (c.exec db)
  | attachment c => db.commit (c.exec db)
  | purgeAttachments cutoff => (db.purgeUnreferencedNoteAttachmentsBefore cutoff).2
  | purgeNotes cutoff => db.commit ((db.purgeDeletedBefore cutoff).map Prod.snd)
  | elsewhere tables =>
    { tables with
      principals := db.principals
      principalIdentities := db.principalIdentities
      notes := db.notes
      noteRevisions := db.noteRevisions
      noteAttachments := db.noteAttachments
      noteRevisionAttachments := db.noteRevisionAttachments
      noteAcl := db.noteAcl }

def Step (db : Database) (op : StoreOperation lib) (db' : Database) : Prop := db' = op.apply db

end StoreOperation

namespace Database

variable {db db' : Database} {lib : AttachmentLibrary}

/-- Other tables do not matter. -/
theorem NotesSound.congr (h : db.NotesSound) (hprincipals : db'.principals = db.principals)
    (hidentities : db'.principalIdentities = db.principalIdentities)
    (hnotes : db'.notes = db.notes) (hrevisions : db'.noteRevisions = db.noteRevisions)
    (hacl : db'.noteAcl = db.noteAcl) : db'.NotesSound := by
  refine h.mono ⟨h.known.principals.congr hprincipals hidentities, ?_⟩ ?_ ?_ ?_ ?_
  · rw [hnotes, hprincipals]
    exact h.known.owner
  · unfold Known
    rw [hprincipals]
    exact fun _ hq => hq
  · rw [hacl]
    exact fun _ hrow => hrow
  · rw [hnotes]
    exact fun _ hrow => hrow
  · rw [hnotes, hrevisions]
    exact fun _ hr => ⟨hr, fun _ hnote _ => hnote⟩

theorem NotesSound.login (h : db.NotesSound) (identity : Identity) :
    (db.login identity).NotesSound := by
  obtain ⟨principals, identities, heq⟩ := login_eq db identity
  have hknown := fun q => login_principals db identity (q := q)
  have hconsistent := h.known.principals.login identity
  rw [heq] at hknown hconsistent ⊢
  refine h.mono ⟨hconsistent, fun row hrow => hknown _ (h.known.owner row hrow)⟩ hknown
    (fun _ hrow => hrow) (fun _ hrow => hrow) fun _ hr => ⟨hr, fun _ hnote _ => hnote⟩

theorem NotesSound.attachmentCommand (h : db.NotesSound) {c : AttachmentCommand lib}
    (hexec : c.exec db = .ok db') : db'.NotesSound := by
  rcases AttachmentCommand.exec_cases hexec with ⟨-, -, rows, -, -, -, -, -, -, rfl⟩ |
    ⟨-, -, -, rfl⟩
  · exact h.congr rfl rfl rfl rfl rfl
  · exact h.congr rfl rfl rfl rfl rfl

/-- A deleted note takes its history with it. -/
theorem NotesSound.deleteNoteRow (h : db.NotesSound) {row : NoteRow}
    (hdelete : db.deleteNoteRow row = .ok db') : db'.NotesSound := by
  obtain ⟨db₀, heq, ⟨hprincipals, hidentities⟩, -, hrevisions, -, hnotes, -, -, hacl⟩ :=
    deleteNoteRow_eq db row
  rw [heq, Except.map_eq_ok] at hdelete
  obtain ⟨unused, hunused, rfl⟩ := hdelete
  obtain ⟨attachments, rfl⟩ := Except.foldlM_invariant
    (P := fun s => ∃ attachments, s = { db₀ with noteAttachments := attachments }) hunused ⟨_, rfl⟩
    fun s r t _ hs hstep => by
      obtain ⟨attachments, rfl⟩ := hs
      unfold deleteAttachmentRow at hstep
      split_ifs at hstep
      cases hstep
      exact ⟨_, rfl⟩
  refine h.mono ⟨h.known.principals.congr hprincipals hidentities, fun r hr => ?_⟩ ?_ ?_ ?_ ?_
  · show ∃ p, db₀.principals.find r.creator = some p
    rw [hprincipals]
    exact h.known.owner r ((hnotes r).mp hr).1
  · intro q hq
    show ∃ p, db₀.principals.find q = some p
    rwa [hprincipals]
  · exact fun r hr => ((hacl r).mp hr).1
  · exact fun r hr => ((hnotes r).mp hr).1
  · intro r hr
    obtain ⟨hmem, hne⟩ := Table.mem_deleteWhere.mp hr
    simp only [decide_eq_false_iff_not] at hne
    exact ⟨hrevisions ▸ hmem, fun note hnote hid => (hnotes note).mpr ⟨hnote, hid ▸ hne⟩⟩

theorem NotesSound.purgeDeletedBefore (h : db.NotesSound) {cutoff : ℤ} {count : ℕ}
    (hpurge : db.purgeDeletedBefore cutoff = .ok (count, db')) : db'.NotesSound := by
  obtain ⟨deleted, hdeleted, hcount⟩ := Except.bind_eq_ok.mp hpurge
  cases hcount
  exact Except.foldlM_invariant hdeleted h fun s row t _ hs hstep => hs.deleteNoteRow hstep

/-- A transaction keeps what is stored sound, whatever the clock says. -/
theorem NotesSound.apply (h : db.NotesSound) (op : StoreOperation lib) :
    (op.apply db).NotesSound := by
  cases op with
  | login identity => exact h.login identity
  | command c =>
    show (db.commit (c.exec db)).NotesSound
    cases hexec : c.exec db with
    | error e => exact h
    | ok db' => exact NoteCommand.exec_notesSound h hexec
  | attachment c =>
    show (db.commit (c.exec db)).NotesSound
    cases hexec : c.exec db with
    | error e => exact h
    | ok db' => exact h.attachmentCommand hexec
  | purgeAttachments cutoff => exact h.congr rfl rfl rfl rfl rfl
  | purgeNotes cutoff =>
    show (db.commit ((db.purgeDeletedBefore cutoff).map Prod.snd)).NotesSound
    cases hpurge : db.purgeDeletedBefore cutoff with
    | error e => exact h
    | ok purged => exact h.purgeDeletedBefore hpurge
  | elsewhere tables => exact h.congr rfl rfl rfl rfl rfl

theorem notesSound_of_run {moves : List (Move Database (StoreOperation lib))}
    (hrun : Run StoreOperation.Step empty moves db) : db.NotesSound :=
  hrun.invariant (fun _ op _ h hstep => by rw [show _ = op.apply _ from hstep]; exact h.apply op)
    notesSound_empty

/-- In every state a run reaches, whatever the clock read at its steps, every note and every
revision decodes, and a command whose access and revision are right is committed exactly when
its reading is not before the creation of the note or, unless it is a review, before the last
review. -/
theorem note_clock_iff {moves : List (Move Database (StoreOperation lib))}
    (hrun : Run StoreOperation.Step empty moves db) :
    (∀ row ∈ db.notes, ∃ note, db.readNote row.noteId = .ok note) ∧
      (∀ r ∈ db.noteRevisions, ∃ details snapshot, db.revisionDetails r = some details ∧
        revisionFromRow details = .ok snapshot) ∧
      ∀ (c : NoteCommand) (old : NoteRow), db.notes.find c.noteId = some old → c.Guard db old →
        c.Prepared db old → ((∃ db', c.exec db = .ok db') ↔ c.TimesFit old) := by
  have hsound := notesSound_of_run hrun
  exact ⟨fun row hrow => hsound.readNote hrow, fun r hr => hsound.revision hr,
    fun c old hold hguard hprepared => hsound.exec_ok_iff hold hguard hprepared⟩

/-! ## A reading before the last review -/

/-- Alice creates a note at 100 and reviews it at 200. -/
def createAndReview : List (StoreOperation asciiLibrary) :=
  [.login alice.authenticatedIdentity,
    .command (.create alice ⟨7⟩ ⟨"A", "= A", []⟩ ⟨[], [], []⟩ 100 .web),
    .command (.markReviewed alice ⟨7⟩ 1 200)]

/-- The database after that. -/
def reviewedNote : Database := createAndReview.foldl StoreOperation.apply empty

/-- The row of the reviewed note. -/
def reviewedRow : NoteRow :=
  ⟨⟨7⟩, ⟨1⟩, "A", "= A", [], 100, 200, 2, none, .web, true, some ⟨2, 200, ⟨1⟩⟩⟩

/-- Her next update, at a reading of `now`. -/
def nextUpdate (now : ℤ) : NoteCommand :=
  .update alice ⟨7⟩ 2 ⟨"A", "= A\n\nMore.", []⟩ ⟨[], [], []⟩ now

theorem run_reviewedNote : Run StoreOperation.Step empty
    (Run.trace StoreOperation.apply empty createAndReview) reviewedNote :=
  Run.run_trace StoreOperation.apply empty createAndReview

theorem find_reviewedNote (now : ℤ) :
    reviewedNote.notes.find (nextUpdate now).noteId = some reviewedRow := by
  show reviewedNote.notes.find ⟨7⟩ = some reviewedRow
  decide +kernel

/-- The update has access and the current revision, and nothing to check but its links. -/
theorem guard_nextUpdate (now : ℤ) : (nextUpdate now).Guard reviewedNote reviewedRow ∧
    (nextUpdate now).Prepared reviewedNote reviewedRow := by
  have haccess : reviewedNote.HasAccess alice.principalId ⟨7⟩ NoteAccess.edit.accessLevel := by
    decide +kernel
  exact ⟨⟨rfl, rfl, haccess⟩, by simp [nextUpdate, NoteCommand.links],
    by simp [nextUpdate, NoteCommand.entries]⟩

/-- At a reading of 150 the constraint on the review refuses it. -/
theorem clock_step_back_blocks :
    ∃ (moves : List (Move Database (StoreOperation asciiLibrary))) (db : Database)
      (c : NoteCommand) (old : NoteRow), Run StoreOperation.Step empty moves db ∧
      db.notes.find c.noteId = some old ∧ c.Guard db old ∧ c.Prepared db old ∧
      ¬∃ db', c.exec db = .ok db' := by
  obtain ⟨hguard, hprepared⟩ := guard_nextUpdate 150
  refine ⟨_, _, nextUpdate 150, reviewedRow, run_reviewedNote, find_reviewedNote 150,
    hguard, hprepared, ?_⟩
  rw [(notesSound_of_run run_reviewedNote).exec_ok_iff (find_reviewedNote 150) hguard hprepared]
  rintro ⟨-, hreviews⟩
  have hle : (200 : ℤ) ≤ 150 := hreviews (by simp [nextUpdate, NoteCommand.kind]) _ rfl
  omega

/-- At a reading of 300 it is committed. -/
theorem note_clock_iff_reviewedNote :
    (∃ note, reviewedNote.readNote ⟨7⟩ = .ok note) ∧
      ∃ db', (nextUpdate 300).exec reviewedNote = .ok db' := by
  obtain ⟨hguard, hprepared⟩ := guard_nextUpdate 300
  obtain ⟨hread, -, hcommits⟩ := note_clock_iff run_reviewedNote
  refine ⟨hread reviewedRow (Table.mem_of_find (find_reviewedNote 300)),
    (hcommits _ _ (find_reviewedNote 300) hguard hprepared).mpr
      ⟨by decide, fun _ review hreview => ?_⟩⟩
  obtain rfl : _ = review := Option.some.inj hreview
  decide

end Database

end Marginalis
