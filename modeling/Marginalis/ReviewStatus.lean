import Marginalis.NoLostUpdate
import Marginalis.NoteQueries
import Marginalis.NoteRows

/-!
# The review status of a note

Whether a note is reviewed is decided three times : by the domain, from the record of the last
review (`Note.reviewStatus`), by the decoder of a summary, from three columns
(`reviewStatus`), and by the `WHERE` clause of the list (`NoteRow.MatchesReviewStatus`). On a
row that decodes to a note the three agree (`noteSummaryFromRow_of_noteFromRow`,
`matchesReviewStatus_iff`), and every row of a run decodes (`RowsDecode`).

Over a run the status says what it is for : a note is reviewed exactly when its current
revision is one that a committed review produced (`review_status_law`). Each command moves the
revision past the reviewed one and none but the review writes the evidence.
-/

namespace Marginalis

open Database

/-! ## The three classifiers -/

variable {details : NoteDetails} {note : Note} {row : NoteRow}

/-- The review columns of a decoded note, one case per arm of the decoder. -/
theorem reviewTracking_cases {tracking : NoteReviewTracking}
    (h : details.reviewTracking = .ok tracking) :
    details.row.reviewTrackingKnown = false ∧ details.row.review = none ∧ tracking = .unknown ∨
      details.row.reviewTrackingKnown = true ∧ details.row.review = none ∧ tracking = .pending ∨
      ∃ review identity, details.row.reviewTrackingKnown = true ∧
        details.row.review = some review ∧ tracking = .tracked (some
          ⟨review.reviewedRevision, review.reviewedAt, ⟨review.reviewer, identity⟩⟩) := by
  unfold NoteDetails.reviewTracking at h
  split at h
  · next hknown hreview _ =>
    cases h
    exact Or.inl ⟨hknown, hreview, rfl⟩
  · next hknown hreview _ =>
    cases h
    exact Or.inr (Or.inl ⟨hknown, hreview, rfl⟩)
  · next review identity hknown hreview _ =>
    cases h
    exact Or.inr (Or.inr ⟨review, identity, hknown, hreview, rfl⟩)
  · cases h

/-- A recorded review is not ahead of the note. -/
theorem reviewedRevision_le (h : noteFromRow details = .ok note) {review : ReviewColumns}
    (hreview : details.row.review = some review) :
    review.reviewedRevision ≤ details.row.revision := by
  obtain ⟨htracking, -, -, -, -, -, hrevision, -, -⟩ := noteFromRow_eq_ok.mp h
  rcases reviewTracking_cases htracking with ⟨-, hnone, -⟩ | ⟨-, hnone, -⟩ | ⟨r, i, -, hr, ht⟩
  · simp [hreview] at hnone
  · simp [hreview] at hnone
  · rw [hreview, Option.some.injEq] at hr
    have hconsistent := note.consistent.2.2
    rw [ht] at hconsistent
    have hle := (hconsistent _ rfl).1
    rw [hrevision] at hle
    exact hr ▸ hle

/-- The decoder of a summary agrees with the domain. -/
theorem reviewStatus_of_noteFromRow (h : noteFromRow details = .ok note) :
    reviewStatus details.row.reviewTrackingKnown
      (details.row.review.map ReviewColumns.reviewedRevision) details.row.revision =
        .ok note.reviewStatus := by
  obtain ⟨htracking, -, -, -, -, -, hrevision, -, -⟩ := noteFromRow_eq_ok.mp h
  rcases reviewTracking_cases htracking with ⟨hknown, hreview, ht⟩ | ⟨hknown, hreview, ht⟩ |
    ⟨review, identity, hknown, hreview, ht⟩
  · simp [reviewStatus, hknown, hreview, Note.reviewStatus, NoteReviewTracking.status, ht]
  · simp [reviewStatus, hknown, hreview, Note.reviewStatus, NoteReviewTracking.status, ht,
      NoteReviewTracking.pending]
  · have hle := reviewedRevision_le h hreview
    simp only [reviewStatus, hknown, hreview, Option.map_some, Note.reviewStatus, ht,
      NoteReviewTracking.status, hrevision]
    by_cases heq : review.reviewedRevision = details.row.revision
    · rw [if_pos heq, if_pos heq]
    · rw [if_neg heq, if_neg heq, if_pos (by omega)]

/-- The filter of the list agrees with the domain. -/
theorem matchesReviewStatus_iff (h : noteFromRow details = .ok note) (status : NoteReviewStatus) :
    details.row.MatchesReviewStatus status ↔ note.reviewStatus = status := by
  obtain ⟨htracking, -, -, -, -, -, hrevision, -, -⟩ := noteFromRow_eq_ok.mp h
  rcases reviewTracking_cases htracking with ⟨hknown, hreview, ht⟩ | ⟨hknown, hreview, ht⟩ |
    ⟨review, identity, hknown, hreview, ht⟩
  · cases status <;> simp [NoteRow.MatchesReviewStatus, hknown, Note.reviewStatus,
      NoteReviewTracking.status, ht]
  · cases status <;> simp [NoteRow.MatchesReviewStatus, hknown, hreview, Note.reviewStatus,
      NoteReviewTracking.status, ht, NoteReviewTracking.pending]
  · by_cases heq : review.reviewedRevision = details.row.revision
    · cases status <;> simp [NoteRow.MatchesReviewStatus, hknown, hreview, Note.reviewStatus,
        NoteReviewTracking.status, ht, hrevision, heq]
    · cases status <;> simp [NoteRow.MatchesReviewStatus, hknown, hreview, Note.reviewStatus,
        NoteReviewTracking.status, ht, hrevision, heq]

/-- Reviewed is a recorded review of the current revision. -/
theorem reviewed_iff_of_noteFromRow (h : noteFromRow details = .ok note) :
    note.reviewStatus = .reviewed ↔
      ∃ review ∈ details.row.review, review.reviewedRevision = details.row.revision := by
  rw [← matchesReviewStatus_iff h]
  refine ⟨fun hmatches => hmatches.2, fun hreview => ⟨?_, hreview⟩⟩
  obtain ⟨review, hmem, -⟩ := hreview
  rcases reviewTracking_cases (noteFromRow_eq_ok.mp h).1 with ⟨-, hnone, -⟩ | ⟨hknown, -⟩ |
    ⟨_, _, hknown, -⟩
  · rw [hnone] at hmem
    cases hmem
  · exact hknown
  · exact hknown

/-- The summary of a row is the summary of the note it decodes to. -/
theorem noteSummaryFromRow_of_noteFromRow (h : noteFromRow details = .ok note) :
    noteSummaryFromRow details.row = .ok note.summary := by
  have hstatus := reviewStatus_of_noteFromRow h
  obtain ⟨htracking, hid, -, hdraft, -, hupdated, hrevision, -, hvia⟩ := noteFromRow_eq_ok.mp h
  have hreview : note.review.lastReview.map NoteReviewRecord.revision =
        details.row.review.map ReviewColumns.reviewedRevision ∧
      note.review.lastReview.map NoteReviewRecord.reviewedAt =
        details.row.review.map ReviewColumns.reviewedAt := by
    rcases reviewTracking_cases htracking with ⟨-, hreview, ht⟩ | ⟨-, hreview, ht⟩ |
      ⟨review, identity, -, hreview, ht⟩
    · rw [hreview, ht]
      exact ⟨rfl, rfl⟩
    · rw [hreview, ht]
      exact ⟨rfl, rfl⟩
    · rw [hreview, ht]
      exact ⟨rfl, rfl⟩
  simp only [noteSummaryFromRow, hstatus, Note.summary, hid, hdraft, hupdated, hrevision, hvia,
    hreview.1, hreview.2]
  rfl

/-! ## Runs of note operations -/

/-- An operation of a client : a login, or a note command over any channel. -/
inductive NoteOperation
  | login (identity : Identity)
  | command (c : NoteCommand)

/-- The database after an operation. -/
def NoteOperation.apply (db : Database) : NoteOperation → Database
  | login identity => db.login identity
  | command c => db.commit (c.exec db)

/-- One operation, whatever its outcome. -/
def NoteOperation.Step (db : Database) (op : NoteOperation) (db' : Database) : Prop :=
  db' = op.apply db

/-- The move committed a review of the note and produced its revision `rev`. -/
def CommitsReview (m : Move Database NoteOperation) (n : NoteId) (rev : ℕ) : Prop :=
  ∃ actor expectedRevision reviewedAt,
    m.label = .command (.markReviewed actor n expectedRevision reviewedAt) ∧
      NoteCommand.exec m.pre (.markReviewed actor n expectedRevision reviewedAt) = .ok m.post ∧
      m.post.currentRevision n = rev

namespace Database

variable {db db' : Database}

/-- Every owner of a note is known and every row is a note. -/
structure RowsDecode (db : Database) : Prop where
  known : db.OwnersKnown
  read : ∀ row ∈ db.notes, ∃ note, db.readNote row.noteId = .ok note

theorem rowsDecode_empty : empty.RowsDecode := ⟨ownersKnown_empty, by simp [empty]⟩

theorem RowsDecode.login (hdb : db.RowsDecode) (identity : Identity) :
    (db.login identity).RowsDecode := by
  have hnotes : (db.login identity).notes = db.notes := by
    obtain ⟨principals, identities, heq⟩ := login_eq db identity
    rw [heq]
  refine ⟨⟨hdb.known.principals.login identity, fun row hrow => ?_⟩, fun row hrow => ?_⟩
  · rw [hnotes] at hrow
    exact login_principals db identity (hdb.known.owner row hrow)
  · rw [hnotes] at hrow
    obtain ⟨note, hnote⟩ := hdb.read row hrow
    exact ⟨note, readNote_mono (by rw [hnotes])
      (fun q shown h => login_primaryIdentity db identity h) hnote⟩

/-- A stored row, as the view shows it, and the note it decodes to. -/
theorem RowsDecode.decoded (hdb : db.RowsDecode) {row : NoteRow} (hrow : row ∈ db.notes) :
    ∃ note details, db.readNote row.noteId = .ok note ∧ details.row = row ∧
      noteFromRow details = .ok note := by
  obtain ⟨note, hnote⟩ := hdb.read row hrow
  obtain ⟨row', details, hfind, hdetails, hdecoded⟩ := readNote_eq_ok.mp hnote
  rw [show row.noteId = Keyed.key row from rfl, Table.find_of_mem hrow] at hfind
  cases hfind
  exact ⟨note, details, hnote, row_of_noteDetails hdetails, hdecoded⟩

/-- The row of a new note decodes : it waits for its first review. -/
theorem readNote_of_created {c : NoteCommand} {new : NoteRow} (hnew : c.createdRow = some new)
    (hfind : db.notes.find c.noteId = some new) {identity : Identity}
    (hidentity : db.primaryIdentity new.creator = some identity) :
    ∃ note, db.readNote c.noteId = .ok note := by
  cases c with
  | create actor noteId draft links createdAt createdVia =>
    cases hnew
    set row := (Note.create noteId actor.principal draft createdAt createdVia).toRow
    have hdetails : db.noteDetails row = some ⟨row, identity, none⟩ := by
      simp only [noteDetails, hidentity]
      rfl
    refine ⟨Note.create noteId ⟨actor.principalId, identity⟩ draft createdAt createdVia,
      readNote_eq_ok.mpr ⟨_, _, hfind, hdetails, noteFromRow_eq_ok.mpr ?_⟩⟩
    exact ⟨rfl, rfl, rfl, rfl, rfl, rfl, rfl, rfl, rfl⟩
  | update | restoreRevision | softDelete | restore | replaceAcl | markReviewed => cases hnew

end Database

namespace NoteCommand

variable {c : NoteCommand} {db db' : Database}

/-- A committed command leaves the written note readable, since it read it before it
committed. -/
theorem exec_rowsDecode (hdb : db.RowsDecode) (h : c.exec db = .ok db') : db'.RowsDecode := by
  have hknown : db'.OwnersKnown := Statements.ownersKnown hdb.known (exec_statements h)
  refine ⟨hknown, ?_⟩
  obtain ⟨written, shared, recorded, hw, hs, hread, hr, ha⟩ := exec_stages h
  obtain ⟨references, citations, revisions, attachments, rfl⟩ := hr.eq
  obtain ⟨attachments', rfl⟩ := ha.eq
  have hsame := hs.sameContent
  have hidentities : shared.principalIdentities = db.principalIdentities :=
    hsame.principalIdentities.trans hw.statement.principals.2
  obtain ⟨new, hid, -, hnew, hfind⟩ := hw.row
  intro row hrow
  have hrow' : shared.notes.find row.noteId = some row := Table.find_of_mem hrow
  rw [hsame.notes, hfind] at hrow'
  show ∃ note, shared.readNote row.noteId = .ok note
  by_cases hn : c.noteId = row.noteId
  · rw [if_pos hn, Option.some.injEq] at hrow'
    subst hrow'
    rw [← hn]
    rcases hnew with ⟨hcreated, -⟩ | ⟨old, -, hguard, -⟩
    · obtain ⟨r, hr⟩ := hknown.owner new hrow
      obtain ⟨identity, hidentity⟩ := hknown.principals.primary r (Table.mem_of_find hr)
      rw [show r.principalId = new.creator from Table.key_of_find hr] at hidentity
      refine readNote_of_created hcreated ?_ hidentity
      rw [hsame.notes, hfind, if_pos rfl]
    · exact hread hguard.createdRow_eq_none
  · rw [if_neg hn] at hrow'
    obtain ⟨note, hnote⟩ := hdb.read row (Table.mem_of_find hrow')
    refine ⟨note, readNote_mono ?_ (fun q shown hq => ?_) hnote⟩
    · rw [hsame.notes, hfind, if_neg hn]
    · unfold Database.primaryIdentity
      rw [hidentities]
      exact hq

/-- Only the review writes the evidence of a review. -/
theorem review_set (c : NoteCommand) (old : NoteRow) :
    (∃ actor n r reviewedAt, c = .markReviewed actor n r reviewedAt ∧
      (c.set old).review = some ⟨old.revision + 1, reviewedAt, actor.principalId⟩) ∨
    (∀ actor n r reviewedAt, c ≠ .markReviewed actor n r reviewedAt) ∧
      (c.set old).review = old.review := by
  cases c with
  | markReviewed actor n r reviewedAt => exact Or.inl ⟨actor, n, r, reviewedAt, rfl, rfl⟩
  | create | update | restoreRevision | softDelete | restore | replaceAcl =>
    exact Or.inr ⟨by simp, rfl⟩

end NoteCommand

/-! ## Reviewed is what a review produced -/

/-- A row shows a review of its current revision exactly when a move committed one, and no
review was ahead of its note. -/
structure ReviewsRecorded (moves : List (Move Database NoteOperation)) (db : Database) : Prop where
  reviewed_iff : ∀ row ∈ db.notes, (∃ review ∈ row.review, review.reviewedRevision = row.revision) ↔
    ∃ m ∈ moves, CommitsReview m row.noteId row.revision
  le_current : ∀ m ∈ moves, ∀ n rev, CommitsReview m n rev → rev ≤ db.currentRevision n

variable {moves : List (Move Database NoteOperation)} {m : Move Database NoteOperation}
  {db db' : Database} {op : NoteOperation} {c : NoteCommand} {n : NoteId} {rev : ℕ}

theorem exists_commitsReview_snoc : (∃ m' ∈ moves ++ [m], CommitsReview m' n rev) ↔
    (∃ m' ∈ moves, CommitsReview m' n rev) ∨ CommitsReview m n rev := by
  simp only [List.mem_append, List.mem_singleton, or_and_right, exists_or, exists_eq_left]

/-- A move that commits no review leaves what is recorded, when it moves no row. -/
theorem ReviewsRecorded.snoc_of_notes (hrecorded : ReviewsRecorded moves db)
    (hnotes : m.post.notes = db.notes) (hm : ∀ n rev, ¬CommitsReview m n rev) :
    ReviewsRecorded (moves ++ [m]) m.post where
  reviewed_iff := by
    intro row hrow
    rw [hnotes] at hrow
    rw [exists_commitsReview_snoc, or_iff_left (hm _ _)]
    exact hrecorded.reviewed_iff row hrow
  le_current := by
    intro m' hm' n rev hcommits
    rcases List.mem_append.mp hm' with hm' | hm'
    · have hle := hrecorded.le_current m' hm' n rev hcommits
      simpa only [Database.currentRevision, hnotes] using hle
    · rw [List.mem_singleton.mp hm'] at hcommits
      exact absurd hcommits (hm n rev)

/-- A committed command records its review, if it is one, and leaves every other note's. -/
theorem ReviewsRecorded.snoc_command (hdecode : db.RowsDecode)
    (hrecorded : ReviewsRecorded moves db)
    (h : c.exec db = .ok db') : ReviewsRecorded (moves ++ [⟨db, .command c, db'⟩]) db' := by
  obtain ⟨-, hexpected, hcurrent⟩ := NoteCommand.exec_currentRevision h
  obtain ⟨written, shared, references, citations, revisions, attachments, hw, hs, heq⟩ :=
    NoteCommand.exec_eq h
  obtain ⟨new, hid, -, hnew, hfind⟩ := hw.row
  have hnotes : ∀ n, db'.notes.find n = if c.noteId = n then some new else db.notes.find n := by
    intro n
    rw [heq]
    show shared.notes.find n = _
    rw [hs.sameContent.notes, hfind]
  have hlast : ∀ n rev, CommitsReview ⟨db, .command c, db'⟩ n rev → c.noteId = n ∧
      (∃ actor r reviewedAt, c = .markReviewed actor n r reviewedAt) := by
    rintro n rev ⟨actor, r, reviewedAt, hlabel, -, -⟩
    cases hlabel
    exact ⟨rfl, actor, r, reviewedAt, rfl⟩
  constructor
  · intro row hrow
    have hrow' := Table.find_of_mem hrow
    rw [show Keyed.key row = row.noteId from rfl, hnotes] at hrow'
    rw [exists_commitsReview_snoc]
    by_cases hn : c.noteId = row.noteId
    · rw [if_pos hn, Option.some.injEq] at hrow'
      subst hrow'
      -- No earlier review is as far as the revision the command just produced.
      have hrevision : db'.currentRevision new.noteId = new.revision := by
        simp [Database.currentRevision, hnotes, hn]
      have hearlier : ¬∃ m ∈ moves, CommitsReview m new.noteId new.revision := by
        rintro ⟨m, hm, hcommits⟩
        have hle := hrecorded.le_current m hm _ _ hcommits
        have hmoved := hcurrent new.noteId
        rw [if_pos hn, hrevision, ← hexpected, hn] at hmoved
        omega
      rw [or_iff_right hearlier]
      rcases hnew with ⟨hcreated, -⟩ | ⟨old, hold, hguard, rfl⟩
      · cases c with
        | create =>
          cases hcreated
          constructor
          · rintro ⟨review, hreview, -⟩
            cases hreview
          · intro hcommits
            obtain ⟨-, _, _, _, hc⟩ := hlast _ _ hcommits
            cases hc
        | update | restoreRevision | softDelete | restore | replaceAcl | markReviewed =>
          cases hcreated
      · obtain ⟨-, hset⟩ := hguard.revision_eq
        rcases NoteCommand.review_set c old with ⟨actor, n, r, reviewedAt, rfl, hreview⟩ |
          ⟨hother, hreview⟩
        · constructor
          · intro _
            have hn' : n = old.noteId := hn
            rw [NoteCommand.noteId_set]
            rw [NoteCommand.noteId_set] at hrevision
            exact ⟨actor, r, reviewedAt, by rw [hn'], hn' ▸ h, hrevision⟩
          · intro _
            exact ⟨_, hreview, hset.symm⟩
        · constructor
          · rintro ⟨review, hmem, heq⟩
            rw [hreview] at hmem
            obtain ⟨note, details, -, rfl, hdecoded⟩ := hdecode.decoded (Table.mem_of_find hold)
            have hle := reviewedRevision_le hdecoded hmem
            omega
          · intro hcommits
            obtain ⟨-, actor, r, reviewedAt, hc⟩ := hlast _ _ hcommits
            exact absurd hc (hother _ _ _ _)
    · rw [if_neg hn] at hrow'
      have hnone : ¬CommitsReview ⟨db, .command c, db'⟩ row.noteId row.revision :=
        fun hcommits => hn (hlast _ _ hcommits).1
      rw [or_iff_left hnone]
      exact hrecorded.reviewed_iff row (Table.mem_of_find hrow')
  · intro m hm n rev hcommits
    rcases List.mem_append.mp hm with hm | hm
    · have hle := hrecorded.le_current m hm n rev hcommits
      rw [hcurrent n]
      split_ifs with hn
      · rw [← hn, hexpected] at hle
        omega
      · exact hle
    · rw [List.mem_singleton.mp hm] at hcommits
      obtain ⟨-, -, -, -, -, hrev⟩ := hcommits
      exact hrev.ge

/-- What one operation keeps. -/
theorem NoteOperation.Step.reviewsRecorded (hdecode : db.RowsDecode)
    (hrecorded : ReviewsRecorded moves db) (h : op.Step db db') :
    db'.RowsDecode ∧ ReviewsRecorded (moves ++ [⟨db, op, db'⟩]) db' := by
  cases op with
  | login identity =>
    have hdb' : db' = db.login identity := h
    subst hdb'
    refine ⟨hdecode.login identity, hrecorded.snoc_of_notes ?_ ?_⟩
    · obtain ⟨principals, identities, heq⟩ := Database.login_eq db identity
      rw [heq]
    · rintro n rev ⟨actor, r, reviewedAt, hlabel, -⟩
      cases hlabel
  | command c =>
    have hstep : c.Step db db' := h
    rcases NoteCommand.step_cases hstep with hexec | ⟨⟨e, hexec⟩, rfl⟩
    · exact ⟨NoteCommand.exec_rowsDecode hdecode hexec, hrecorded.snoc_command hdecode hexec⟩
    · refine ⟨hdecode, hrecorded.snoc_of_notes rfl ?_⟩
      rintro n rev ⟨actor, r, reviewedAt, hlabel, hok, -⟩
      cases hlabel
      rw [hexec] at hok
      cases hok

/-- What every run from the empty database keeps. -/
theorem reviewsRecorded_of_run (hrun : Run NoteOperation.Step Database.empty moves db) :
    db.RowsDecode ∧ ReviewsRecorded moves db := by
  induction hrun with
  | nil => exact ⟨Database.rowsDecode_empty, by simp [Database.empty], by simp⟩
  | snoc _ hlast ih => exact hlast.reviewsRecorded ih.1 ih.2

/-! ## The list -/

namespace Database

variable {actor : Actor} {query : NoteListQuery}

theorem mem_accessRows {p : PrincipalId} {access : AccessRow} : access ∈ db.accessRows p n ↔
    access ∈ db.noteAccess ∧ access.noteId = n ∧ access.principalId = p := by
  simp [accessRows]

/-- Every level of `note_access` decodes. -/
theorem accessFromLevel_of_mem {access : AccessRow} (h : access ∈ db.noteAccess) :
    ∃ level, accessFromLevel access.accessLevel = .ok level := by
  rcases List.mem_append.mp h with h | h
  · obtain ⟨row, -, rfl⟩ := List.mem_map.mp h
    exact ⟨.manage, rfl⟩
  · obtain ⟨row, -, rfl⟩ := List.mem_map.mp h
    cases hpermission : row.permission with
    | read => exact ⟨.read, by simp [NotePermission.accessLevel, accessFromLevel]⟩
    | edit => exact ⟨.edit, by simp [NotePermission.accessLevel, accessFromLevel]⟩

/-- The list without its filter on the status, entry by entry. -/
theorem exists_listVisibleNotes (hdecode : db.RowsDecode) (actor : Actor) (query : NoteListQuery) :
    ∃ all entries, db.listVisibleNotes actor { query with reviewStatus := none } = .ok all ∧
      db.listVisibleNotes actor query = .ok entries ∧
      entries = all.filter (fun entry =>
        ∀ status ∈ query.reviewStatus, entry.summary.reviewStatus = status) ∧
      ∀ entry ∈ all, ∃ note, db.readNote entry.summary.noteId = .ok note ∧
        entry.summary = note.summary := by
  set key : NoteRow → ℤᵒᵈ ×ₗ ℕ :=
    fun row => toLex (OrderDual.toDual row.updatedAt, row.noteId.entityId)
  set unfiltered := db.notes.select fun row => Listed { query with reviewStatus := none } row
  set join : NoteRow → List (NoteRow × AccessRow) := fun row =>
    (db.accessRows actor.principalId row.noteId).map fun access => (row, access)
  set wanted : NoteRow → Bool := fun row =>
    decide (∀ status ∈ query.reviewStatus, row.MatchesReviewStatus status)
  have hjoin : ∀ rows : List NoteRow, (rows.filter wanted).flatMap join =
      (rows.flatMap join).filter fun pair => wanted pair.1 := by
    intro rows
    induction rows with
    | nil => rfl
    | cons row rows ih =>
      by_cases hrow : wanted row = true
      · simp [join, List.filter_map, hrow, Function.comp_def, ← ih]
      · simp [join, List.filter_map, hrow, Function.comp_def, ← ih]
  have hrows : db.listVisibleNotes actor query =
      (((Table.orderBy key unfiltered).flatMap join).filter fun pair => wanted pair.1).mapM
        noteListEntryFromRow := by
    have hselect : (db.notes.select fun row => Listed query row) = unfiltered.filter wanted := by
      simp only [unfiltered, Table.select, List.filter_filter]
      refine List.filter_congr fun row _ => ?_
      rw [Bool.eq_iff_iff]
      simp only [wanted, decide_eq_true_eq, Bool.and_eq_true]
      unfold Listed
      refine ⟨fun h => ⟨h.2.2, h.1, h.2.1, by simp⟩, fun h => ⟨h.2.1, h.2.2.1, h.1⟩⟩
    have hinj : ∀ a ∈ unfiltered, ∀ b ∈ unfiltered, key a = key b → a = b := by
      intro a ha b hb hkey
      have hids : a.noteId.entityId = b.noteId.entityId :=
        congrArg (fun k : ℤᵒᵈ ×ₗ ℕ => (ofLex k).2) hkey
      exact Table.eq_of_key_eq (Table.mem_select.mp ha).1 (Table.mem_select.mp hb).1
        (noteId_eq_of_entityId hids)
    rw [← hjoin, ← Table.orderBy_filter hinj, ← hselect]
    rfl
  have hentry : ∀ pair ∈ (Table.orderBy key unfiltered).flatMap join, ∃ note level,
      db.readNote pair.1.noteId = .ok note ∧ note.noteId = pair.1.noteId ∧
      noteListEntryFromRow pair = .ok ⟨note.summary, level⟩ ∧
      ∀ status, pair.1.MatchesReviewStatus status ↔ note.reviewStatus = status := by
    intro pair hpair
    obtain ⟨row, hrow, hpair⟩ := List.mem_flatMap.mp hpair
    obtain ⟨access, haccess, rfl⟩ := List.mem_map.mp hpair
    obtain ⟨note, details, hnote, rfl, hdecoded⟩ :=
      hdecode.decoded (Table.mem_select.mp (Table.mem_orderBy.mp hrow)).1
    obtain ⟨level, hlevel⟩ := accessFromLevel_of_mem (mem_accessRows.mp haccess).1
    refine ⟨note, level, hnote, noteId_of_noteFromRow hdecoded, ?_,
      matchesReviewStatus_iff hdecoded⟩
    simp only [noteListEntryFromRow, hlevel, noteSummaryFromRow_of_noteFromRow hdecoded]
    rfl
  obtain ⟨all, hall⟩ := Except.mapM_ok (f := noteListEntryFromRow) fun pair hpair => by
    obtain ⟨note, level, -, -, hok, -⟩ := hentry pair hpair
    exact ⟨_, hok⟩
  refine ⟨all, _, hall, hrows.trans (Except.mapM_filter hall fun pair hpair entry hok => ?_), rfl,
    fun e he => ?_⟩
  · obtain ⟨note, level, -, -, hok', hmatches⟩ := hentry pair hpair
    rw [hok'] at hok
    cases hok
    simp only [wanted, hmatches]
    rfl
  · obtain ⟨pair, hpair, hok⟩ := Except.exists_of_mem_mapM hall he
    obtain ⟨note, level, hnote, hid, hok', -⟩ := hentry pair hpair
    rw [hok'] at hok
    cases hok
    refine ⟨note, ?_, rfl⟩
    show db.readNote note.noteId = .ok note
    rw [hid, hnote]

end Database

/-- Starting from an empty database, in every state a run of note operations reaches, every
stored note reads. It is reviewed exactly when a committed review produced its current
revision, its summary shows the status the domain gives it, and the filter of the list
matches that status and no other. So a list shows, of the notes it would show anyway, those
whose status in the domain is the one it was asked for. -/
theorem review_status_law (hrun : Run NoteOperation.Step Database.empty moves db) :
    (∀ row ∈ db.notes, ∃ note, db.readNote row.noteId = .ok note ∧
      (note.reviewStatus = .reviewed ↔ ∃ m ∈ moves, CommitsReview m row.noteId row.revision) ∧
      reviewStatus row.reviewTrackingKnown (row.review.map ReviewColumns.reviewedRevision)
        row.revision = .ok note.reviewStatus ∧
      noteSummaryFromRow row = .ok note.summary ∧
      ∀ status, row.MatchesReviewStatus status ↔ note.reviewStatus = status) ∧
    ∀ (actor : Actor) (query : NoteListQuery), ∃ all entries,
      db.listVisibleNotes actor { query with reviewStatus := none } = .ok all ∧
      db.listVisibleNotes actor query = .ok entries ∧
      entries = all.filter (fun entry =>
        ∀ status ∈ query.reviewStatus, entry.summary.reviewStatus = status) ∧
      ∀ entry ∈ all, ∃ note, db.readNote entry.summary.noteId = .ok note ∧
        entry.summary = note.summary := by
  obtain ⟨hdecode, hrecorded⟩ := reviewsRecorded_of_run hrun
  refine ⟨fun row hrow => ?_, Database.exists_listVisibleNotes hdecode⟩
  obtain ⟨note, details, hnote, rfl, hdecoded⟩ := hdecode.decoded hrow
  refine ⟨note, hnote, ?_, reviewStatus_of_noteFromRow hdecoded,
    noteSummaryFromRow_of_noteFromRow hdecoded, matchesReviewStatus_iff hdecoded⟩
  rw [← hrecorded.reviewed_iff details.row hrow]
  exact reviewed_iff_of_noteFromRow hdecoded

open Database in
/-- An agent creates a note for Alice, and she reviews it. -/
def createThenReview : List NoteOperation :=
  [.login alice.authenticatedIdentity,
    .command (.create alice ⟨7⟩ ⟨"A", "= A", []⟩ ⟨[], [], []⟩ 100 .mcp),
    .command (.markReviewed alice ⟨7⟩ 1 200)]

/-- After that run the note is reviewed, by the move that committed the review. -/
theorem review_status_law_createThenReview :
    (∃ row ∈ (createThenReview.foldl NoteOperation.apply Database.empty).notes, row.noteId = ⟨7⟩ ∧
      row.revision = 2 ∧ row.MatchesReviewStatus .reviewed) ∧
    ∀ row ∈ (createThenReview.foldl NoteOperation.apply Database.empty).notes, ∃ note,
      (createThenReview.foldl NoteOperation.apply Database.empty).readNote row.noteId = .ok note ∧
      (note.reviewStatus = .reviewed ↔
        ∃ m ∈ Run.trace NoteOperation.apply Database.empty createThenReview,
          CommitsReview m row.noteId row.revision) := by
  refine ⟨by decide +kernel, fun row hrow => ?_⟩
  obtain ⟨note, hnote, hreviewed, -⟩ := (review_status_law
    (Run.run_trace NoteOperation.apply Database.empty createThenReview)).1 row hrow
  exact ⟨note, hnote, hreviewed⟩

end Marginalis
