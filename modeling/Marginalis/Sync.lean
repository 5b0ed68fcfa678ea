import Marginalis.Diagnostics
import Marginalis.Notes
import Marginalis.Result
import Mathlib.Data.List.Sort

/-!
# The synchronization pages

A client without a cursor first gets the notes it can see in the order of their ids (the
snapshot phase), then the projection rows above the watermark it started at in the order of
their changes (the changes phase). `syncNotesPage` is one page of either phase : it looks the
cursor up, reads one row more than the limit to see whether there are more, stops early when
the response grows too large, and stores the cursor for the next page.

`takePage` is the loop the two phases share. Its rows come out as a prefix of what was read
(`takePage_eq_ok`), never empty unless nothing was there to read.
-/

namespace Marginalis

/-! ## Pages -/

inductive NoteSyncEntry
  | upsert (note : Note)
  | remove (noteId : NoteId) (reason : RemoveReason)
  deriving DecidableEq

structure NoteSyncPage where
  phase : CursorPhase
  entries : List NoteSyncEntry
  nextCursor : String
  hasMore : Bool
  cursorExpiresAt : ℤ
  deriving DecidableEq

inductive NoteSyncRepositoryError
  | invalidCursor
  | cursorExpired
  | storage (error : StorageError)
  deriving DecidableEq, Repr

/-- Where the next page starts. -/
structure CursorState where
  phase : CursorPhase
  afterNoteId : Option NoteId
  afterSequence : ℕ
  highWatermark : ℕ
  deriving DecidableEq, Repr

def CursorRow.state (row : CursorRow) : CursorState :=
  ⟨row.phase, row.afterNoteId, row.afterSequence, row.highWatermark⟩

def maxResponseBytes : ℕ := 4 * 1024 * 1024

/-- The bytes an entry may take in the response. -/
def NoteSyncEntry.estimate : NoteSyncEntry → ℕ
  | upsert note =>
    6 * (note.draft.source.utf8ByteSize + note.draft.title.utf8ByteSize +
      (note.draft.tags.map String.utf8ByteSize).sum) + 1024
  | remove .. => 256

/-- The note an entry is about. -/
def NoteSyncEntry.noteId : NoteSyncEntry → NoteId
  | upsert note => note.noteId
  | remove noteId _ => noteId

/-- The cursor after a note that was listed. -/
def NoteSyncEntry.listedId : NoteSyncEntry → Option NoteId
  | upsert note => some note.noteId
  | remove .. => none

/-- The loop over the rows of a page, with what it has taken and its estimate so far : it
stops before the first entry that would not fit, unless the page would be empty. -/
def takePage {ρ ε : Type} (entryOf : ρ → Except ε NoteSyncEntry) :
    List ρ → List (ρ × NoteSyncEntry) → ℕ → Except ε (List (ρ × NoteSyncEntry) × Bool)
  | [], taken, _ => .ok (taken, false)
  | row :: rows, taken, bytes => do
    let entry ← entryOf row
    if taken ≠ [] ∧ maxResponseBytes < bytes + entry.estimate then return (taken, true)
    else takePage entryOf rows (taken ++ [(row, entry)]) (bytes + entry.estimate)

/-- The loop takes a prefix of the rows, all of them unless it was cut short, and at least
one when there is one. -/
theorem takePage_eq_ok {ρ ε : Type} {entryOf : ρ → Except ε NoteSyncEntry} {rows : List ρ}
    {taken result : List (ρ × NoteSyncEntry)} {bytes : ℕ} {truncated : Bool}
    (h : takePage entryOf rows taken bytes = .ok (result, truncated)) :
    ∃ more rest, result = taken ++ more ∧ rows = more.map Prod.fst ++ rest ∧
      (∀ x ∈ more, entryOf x.1 = .ok x.2) ∧ (truncated = false → rest = []) ∧
      (result = [] → rest = [] ∧ truncated = false) := by
  induction rows generalizing taken bytes with
  | nil =>
    cases h
    exact ⟨[], [], by simp⟩
  | cons row rows ih =>
    rw [takePage, Except.bind_eq_ok] at h
    obtain ⟨entry, hentry, h⟩ := h
    split_ifs at h with hfull
    · cases h
      refine ⟨[], row :: rows, by simp, by simp, by simp, by simp, ?_⟩
      intro hempty
      exact absurd hempty hfull.1
    · obtain ⟨more, rest, rfl, rfl, hmore, htruncated, hempty⟩ := ih h
      refine ⟨(row, entry) :: more, rest, by simp, by simp, ?_, htruncated, by simp⟩
      intro x hx
      rcases List.mem_cons.mp hx with rfl | hx
      · exact hentry
      · exact hmore x hx

/-- What a page takes of the rows that were read is a prefix of them. Nothing is left when
the page says so. -/
theorem takePage_limit {ρ ε : Type} {entryOf : ρ → Except ε NoteSyncEntry} {rows : List ρ}
    {taken : List (ρ × NoteSyncEntry)} {limit : ℕ} {truncated : Bool} (hlimit : 1 ≤ limit)
    (h : takePage entryOf ((rows.take (limit + 1)).take limit) [] 0 = .ok (taken, truncated)) :
    ∃ rest, rows = taken.map Prod.fst ++ rest ∧ (∀ x ∈ taken, entryOf x.1 = .ok x.2) ∧
      ((decide (limit < (rows.take (limit + 1)).length) || truncated) = false → rest = []) ∧
      (taken = [] →
        (decide (limit < (rows.take (limit + 1)).length) || truncated) = false) := by
  obtain ⟨more, rest, htaken, hrows, hentries, htruncated, hempty⟩ := takePage_eq_ok h
  rw [List.nil_append] at htaken
  subst htaken
  have htake : (rows.take (limit + 1)).take limit = rows.take limit := by
    rw [List.take_take, Nat.min_eq_left (by omega)]
  rw [htake] at hrows
  have hlength : (rows.take (limit + 1)).length = min (limit + 1) rows.length := by simp
  refine ⟨rest ++ rows.drop limit, ?_, hentries, ?_, ?_⟩
  · rw [← List.append_assoc, ← hrows, List.take_append_drop]
  · intro hmore
    rw [Bool.or_eq_false_iff, decide_eq_false_iff_not, hlength] at hmore
    have hdrop : rows.drop limit = [] := List.drop_eq_nil_of_le (by omega)
    rw [htruncated hmore.2, hdrop, List.append_nil]
  · intro htaken
    obtain ⟨hrest, htruncated⟩ := hempty htaken
    have hzero : (rows.take limit).length = 0 := by rw [hrows, htaken, hrest]; rfl
    rw [List.length_take] at hzero
    rw [htruncated, Bool.or_false, decide_eq_false_iff_not, hlength]
    omega

namespace Database

variable (db : Database)

/-! ## What a page reads -/

/-- The join of `note_details` and `note_access`, without the deleted notes. -/
def visibleDetails (principal : PrincipalId) : List NoteDetails :=
  (db.notes.rows.filterMap db.noteDetails).flatMap fun details =>
    (db.noteAccess.filter fun access => access.noteId = details.row.noteId ∧
      details.row.deletedAt = none ∧ access.principalId = principal).map fun _ => details

/-- The rows of the snapshot phase, before `LIMIT`. -/
def snapshotRows (principal : PrincipalId) (after : Option NoteId) : List NoteDetails :=
  ((db.visibleDetails principal).filter fun details =>
    ∀ noteId ∈ after, noteId.entityId < details.row.noteId.entityId).insertionSort
      fun a b => a.row.noteId.entityId ≤ b.row.noteId.entityId

/-- The rows of the changes phase, before `LIMIT`. -/
def changeRows (principal : PrincipalId) (after : ℕ) : List ProjectionRow :=
  (db.noteSyncProjection.select fun row =>
    row.principalId = principal ∧ after < row.changeSequence).insertionSort
      fun a b => a.changeSequence ≤ b.changeSequence

/-- The entry of a note row. -/
def snapshotEntry (details : NoteDetails) : Except NoteSyncRepositoryError NoteSyncEntry :=
  ((noteFromRow details).map .upsert).mapError fun error => .storage error.toStorageError

/-- The entry of a projection row : an upsert shows the note as it is now. -/
def changeEntry (principal : PrincipalId) (row : ProjectionRow) :
    Except NoteSyncRepositoryError NoteSyncEntry :=
  match row.state with
  | .remove reason => .ok (.remove row.noteId reason)
  | .upsert =>
    match (db.visibleDetails principal).find? fun details => details.row.noteId = row.noteId with
    | some details => snapshotEntry details
    | none => .ok (.remove row.noteId .accessRevoked)

/-- The state a request starts from. -/
def cursorState (hashToken : String → Digest) (principal : PrincipalId) (cursor : Option String)
    (now : ℤ) : Except NoteSyncRepositoryError CursorState :=
  match cursor with
  | none => .ok ⟨.snapshot, none, 0, db.latestNoteChangeSequence⟩
  | some token =>
    match db.noteSyncCursors.find (hashToken token) with
    | none => .error .invalidCursor
    | some row =>
      if row.principalId ≠ principal then .error .invalidCursor
      else if row.expiresAt ≤ now then .error .cursorExpired
      else .ok row.state

/-- The entries of a page, whether there are more, and where the next one starts. -/
def pageOf (principal : PrincipalId) (state : CursorState) (limit : ℕ) :
    Except NoteSyncRepositoryError (List NoteSyncEntry × Bool × CursorState) :=
  match state.phase with
  | .snapshot => do
    let rows := (db.snapshotRows principal state.afterNoteId).take (limit + 1)
    let (taken, truncatedByBytes) ← takePage snapshotEntry (rows.take limit) [] 0
    let entries := taken.map Prod.snd
    let hasMore := decide (limit < rows.length) || truncatedByBytes
    let next :=
      if hasMore then { state with afterNoteId := entries.getLast?.bind NoteSyncEntry.listedId }
      else ⟨.changes, none, state.highWatermark, state.highWatermark⟩
    return (entries, hasMore, next)
  | .changes => do
    let rows := (db.changeRows principal state.afterSequence).take (limit + 1)
    let (taken, truncatedByBytes) ← takePage (db.changeEntry principal) (rows.take limit) [] 0
    let hasMore := decide (limit < rows.length) || truncatedByBytes
    let afterSequence := taken.getLast?.elim state.afterSequence fun x => x.1.changeSequence
    return (taken.map Prod.snd, hasMore, { state with afterSequence := afterSequence })

/-- `sync_notes_page`. -/
def syncNotesPage (hashToken : String → Digest) (actor : Actor) (cursor : Option String)
    (limit : ℕ) (nextCursor : String) (now : ℤ) :
    Except NoteSyncRepositoryError (NoteSyncPage × Database) := do
  let state ← db.cursorState hashToken actor.principalId cursor now
  let expiresAt := saturatingAdd now noteSyncCursorRetentionMs
  let (entries, hasMore, next) ← db.pageOf actor.principalId state limit
  match db.noteSyncCursors.insert? ⟨hashToken nextCursor, actor.principalId, next.phase,
      next.afterNoteId, next.afterSequence, next.highWatermark, expiresAt⟩ with
  | none => throw (.storage .unavailable)
  | some cursors =>
    return (⟨state.phase, entries, nextCursor, hasMore, expiresAt⟩,
      { db with noteSyncCursors := cursors })

end Database

/-! ## The use case -/

def noteSyncDefaultPageSize : ℕ := 50

def noteSyncMaxPageSize : ℕ := 100

def NoteSyncRepositoryError.toNoteUseCaseError : NoteSyncRepositoryError → NoteUseCaseError
  | invalidCursor => .invalidSyncCursor
  | cursorExpired => .syncCursorExpired
  | storage error => error.toNoteUseCaseError

/-- `NoteApplication::sync_notes`, with the token it drew and the time it read. -/
def Database.syncNotes (db : Database) (hashToken : String → Digest) (actor : Actor)
    (cursor : Option String) (limit : Option ℕ) (nextCursor : String) (now : ℤ) :
    Except NoteUseCaseError (NoteSyncPage × Database) :=
  let limit := limit.getD noteSyncDefaultPageSize
  if ¬(1 ≤ limit ∧ limit ≤ noteSyncMaxPageSize) then .error .invalidSyncLimit
  else (db.syncNotesPage hashToken actor cursor limit nextCursor now).mapError
    NoteSyncRepositoryError.toNoteUseCaseError

namespace Database

variable {db db' : Database} {hashToken : String → Digest} {actor : Actor}
  {cursor : Option String} {now : ℤ} {page : NoteSyncPage}

/-- A page that was answered : where it started, what it shows, and the cursor it stored. -/
theorem syncNotes_eq_ok {limit : Option ℕ} {nextCursor : String}
    (h : db.syncNotes hashToken actor cursor limit nextCursor now = .ok (page, db')) :
    ∃ state size next cursors, 1 ≤ size ∧
      db.cursorState hashToken actor.principalId cursor now = .ok state ∧
      db.pageOf actor.principalId state size = .ok (page.entries, page.hasMore, next) ∧
      page.phase = state.phase ∧ page.nextCursor = nextCursor ∧
      page.cursorExpiresAt = saturatingAdd now noteSyncCursorRetentionMs ∧
      db.noteSyncCursors.insert? ⟨hashToken nextCursor, actor.principalId, next.phase,
        next.afterNoteId, next.afterSequence, next.highWatermark, page.cursorExpiresAt⟩ =
          some cursors ∧
      db' = { db with noteSyncCursors := cursors } := by
  unfold syncNotes at h
  dsimp only at h
  split_ifs at h with hlimit
  rw [Except.mapError_eq_ok, syncNotesPage, Except.bind_eq_ok] at h
  obtain ⟨state, hstate, h⟩ := h
  rw [Except.bind_eq_ok] at h
  obtain ⟨⟨entries, hasMore, next⟩, hpage, h⟩ := h
  dsimp only at h
  split at h
  · cases h
  · next cursors hinsert =>
    cases h
    exact ⟨state, _, next, cursors, hlimit.1, hstate, hpage, rfl, rfl, rfl, hinsert, rfl⟩

end Database

end Marginalis
