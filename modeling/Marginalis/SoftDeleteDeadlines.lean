import Marginalis.Cleanup
import Marginalis.NoteClock
import Marginalis.Webhooks

/-!
# The deadline of deleted notes

Two commands ask how long ago a note was deleted : its owner can restore it up to the retention
period, and the maintenance command purges it after that. Both subtract the period from their
clock and compare with the deletion, one with `≥` and the other with `<`.

The guards are complementary, but a note is kept or restored by a whole transaction. The purge
fails when an expired note has an image in its history, and a restore fails when the clock stands
before the creation or the last review of the note. `soft_delete_deadlines_iff` : outside of
these two cases a deleted note can be restored exactly when a purge at the same time keeps it, and
inside of them it is not so.
-/

namespace Marginalis

/-- `UNREFERENCED_ATTACHMENT_RETENTION_MS`. -/
def unreferencedAttachmentRetentionMs : ℤ := 30 * dayMs

/-- `UNUSED_MCP_CLIENT_RETENTION_MS`. -/
def unusedMcpClientRetentionMs : ℤ := dayMs

namespace Database

variable (db : Database)

/-- `purge_expired_state` : four transactions one after the other. The first that fails ends the
command. -/
def purgeExpiredState (now : ℤ) : Except SqliteStoreError Unit × Database :=
  match db.purgeDeletedBefore (saturatingSub now softDeleteRetentionMs) with
  | .error error => (.error error, db)
  | .ok (_, db) =>
    let db := (db.purgeUnreferencedNoteAttachmentsBefore
      (saturatingSub now unreferencedAttachmentRetentionMs)).2
    let db := (db.purgeExpiredDeliveries now).2
    (.ok (), (db.purgeExpiredOperationalState now (saturatingSub now unusedMcpClientRetentionMs)).2)

/-- The owner can restore the note that is shown to them. -/
def Restorable (owner : Actor) (row : NoteRow) (now : ℤ) : Prop :=
  ∃ restored, db.restoreOwnedDeletedNote owner row.noteId row.revision now = .ok restored

/-- The note is stored after a purge. -/
def KeptByPurge (noteId : NoteId) (now : ℤ) : Prop :=
  ∃ row ∈ (db.purgeExpiredState now).2.notes, row.noteId = noteId

/-- No expired note has an image in its history, and the clock is not before the creation or the
last review of a note that is not expired. -/
structure DeadlinesAgree (row : NoteRow) (now : ℤ) : Prop where
  expired : db.Expired (saturatingSub now softDeleteRetentionMs) row.noteId →
    ∀ shown ∈ db.noteRevisionAttachments,
      ¬db.Expired (saturatingSub now softDeleteRetentionMs) shown.noteId
  retained : ¬db.Expired (saturatingSub now softDeleteRetentionMs) row.noteId →
    row.createdAt ≤ now ∧ ∀ review ∈ row.review, review.reviewedAt ≤ now

variable {db} {row : NoteRow} {owner : Actor} {now : ℤ}

/-! ## The deadline that is shown -/

/-- `noteRetentionStatus` : whether the list shows a note as past its deadline. -/
def noteRetentionExpired (purgeAt now : ℤ) : Bool := purgeAt < now

/-- The list of deleted notes shows a note as past its deadline exactly when the purge takes it
for expired. -/
theorem noteRetentionExpired_iff {entry : DeletedNoteListEntry}
    (hentry : deletedNoteEntryFromRow row = .ok entry)
    (hdeleted : ∀ deletedAt ∈ row.deletedAt, i64Min ≤ deletedAt ∧ deletedAt ≤ i64Max)
    (hnow : i64Min ≤ now ∧ now ≤ i64Max) : noteRetentionExpired entry.purgeAt now = true ↔
      NoteExpired (saturatingSub now softDeleteRetentionMs) row := by
  unfold deletedNoteEntryFromRow at hentry
  cases hdeletedAt : row.deletedAt with
  | none =>
    rw [hdeletedAt] at hentry
    cases hentry
  | some deletedAt =>
    rw [hdeletedAt] at hentry
    obtain rfl := Except.ok.inj hentry
    have hbounds := hdeleted deletedAt hdeletedAt
    simp only [noteRetentionExpired, decide_eq_true_eq, NoteExpired, hdeletedAt,
      Option.mem_some_iff, exists_eq_left']
    unfold saturatingAdd saturatingSub softDeleteRetentionMs dayMs i64Min i64Max at *
    omega

/-! ## The purge -/

/-- The other transactions of the command leave the notes alone. -/
theorem notes_purgeExpiredState : (db.purgeExpiredState now).2.notes =
    (db.commit ((db.purgeDeletedBefore (saturatingSub now softDeleteRetentionMs)).map
      Prod.snd)).notes := by
  unfold purgeExpiredState
  cases db.purgeDeletedBefore (saturatingSub now softDeleteRetentionMs) with
  | error error => rfl
  | ok purged => rfl

/-- A note is kept when it is not expired, or when the purge fails. -/
theorem keptByPurge_iff (hkeys : db.ForeignKeys) (hrow : row ∈ db.notes) :
    db.KeptByPurge row.noteId now ↔
      (db.Expired (saturatingSub now softDeleteRetentionMs) row.noteId →
        ∃ shown ∈ db.noteRevisionAttachments,
          db.Expired (saturatingSub now softDeleteRetentionMs) shown.noteId) := by
  unfold KeptByPurge
  rw [notes_purgeExpiredState]
  by_cases hshown : ∃ shown ∈ db.noteRevisionAttachments,
      db.Expired (saturatingSub now softDeleteRetentionMs) shown.noteId
  · obtain ⟨error, herror⟩ := purgeDeletedBefore_error hkeys hshown
    rw [herror]
    exact ⟨fun _ _ => hshown, fun _ => ⟨row, hrow, rfl⟩⟩
  · obtain ⟨count, purged, ns, hok, hwithout, hns⟩ :=
      purgeDeletedBefore_ok fun shown hmem hexpired => hshown ⟨shown, hmem, hexpired⟩
    rw [hok]
    constructor
    · rintro ⟨kept, hkept, hid⟩ hexpired
      have hgone := ((hwithout.notes kept).mp hkept).2
      rw [hns, hid] at hgone
      exact absurd hexpired hgone
    · intro h
      refine ⟨row, (hwithout.notes row).mpr ⟨hrow, ?_⟩, rfl⟩
      rw [hns]
      exact fun hexpired => hshown (h hexpired)

/-! ## The restore -/

/-- A note can be restored when it is not expired and the clock fits it. -/
theorem restorable_iff (hsound : db.NotesSound) (hrow : row ∈ db.notes)
    (hdeleted : row.deletedAt ≠ none) (howner : owner.principalId = row.creator) :
    db.Restorable owner row now ↔
      ¬db.Expired (saturatingSub now softDeleteRetentionMs) row.noteId ∧
        row.createdAt ≤ now ∧ ∀ review ∈ row.review, review.reviewedAt ≤ now := by
  obtain ⟨deletedAt, hdeletedAt⟩ := Option.ne_none_iff_exists'.mp hdeleted
  have hfind : db.notes.find row.noteId = some row := Table.find_of_mem hrow
  have hexpired : db.Expired (saturatingSub now softDeleteRetentionMs) row.noteId ↔
      deletedAt < saturatingSub now softDeleteRetentionMs := by
    simp [Expired, NoteExpired, hfind, hdeletedAt]
  set c : NoteCommand := .restore owner row.noteId row.revision now
  have hold : db.notes.find c.noteId = some row := hfind
  have hprepared : c.Prepared db row :=
    ⟨by simp [c, NoteCommand.links], by simp [c, NoteCommand.entries]⟩
  have hguard :
      c.Guard db row ↔ ¬db.Expired (saturatingSub now softDeleteRetentionMs) row.noteId := by
    rw [hexpired, not_lt]
    simp [c, NoteCommand.Guard, RestoreGuard, hdeletedAt, howner]
  have hexec : db.Restorable owner row now ↔ ∃ db', c.exec db = .ok db' := by
    simp only [Restorable, c, NoteCommand.exec, Except.map_eq_ok]
    refine ⟨?_, ?_⟩
    · rintro ⟨restored, h⟩
      exact ⟨_, restored, h, rfl⟩
    · rintro ⟨_, restored, h, -⟩
      exact ⟨restored, h⟩
  rw [hexec, ← hguard]
  constructor
  · rintro ⟨db', h⟩
    obtain ⟨written, shared, recorded, hw, -⟩ := NoteCommand.exec_stages h
    obtain ⟨new, -, -, hnew, -⟩ := hw.row
    have hg : c.Guard db row := by
      rcases hnew with ⟨hcreated, -⟩ | ⟨old, hstored, hg, -⟩
      · cases hcreated
      · have hsame : row = old := Option.some.inj (hfind.symm.trans hstored)
        exact hsame ▸ hg
    obtain ⟨hfits, hreviews⟩ := (hsound.exec_ok_iff hold hg hprepared).mp ⟨db', h⟩
    exact ⟨hg, hfits, hreviews (by simp [c, NoteCommand.kind])⟩
  · rintro ⟨hg, hfits, hreviews⟩
    exact (hsound.exec_ok_iff hold hg hprepared).mpr ⟨hfits, fun _ => hreviews⟩

/-! ## Runs -/

variable {lib : AttachmentLibrary} {moves : List (Move Database (StoreOperation lib))}

/-- What a run reaches keeps the keys of the images. -/
theorem foreignKeys_of_run (hrun : Run StoreOperation.Step empty moves db) : db.ForeignKeys := by
  have hreachable : Reachable lib db := by
    refine hrun.invariant (fun db op db' h hstep => h.tail ?_) .refl
    obtain rfl : db' = op.apply db := hstep
    cases op with
    | login identity =>
      obtain ⟨principals, identities, heq⟩ := login_eq db identity
      show StoreStep lib db (db.login identity)
      rw [heq]
      exact .elsewhere rfl rfl
    | command c => exact .note c
    | attachment c => exact .attachment c
    | purgeAttachments cutoff => exact .purgeAttachments cutoff
    | purgeNotes cutoff => exact .purgeNotes cutoff
    | elsewhere tables => exact .elsewhere rfl rfl
  exact hreachable.foreignKeys

/-- In every state a run reaches, at every reading of the clock, a deleted note can be restored by
its owner exactly when a purge at the same time keeps it, if and only if the deadlines agree. -/
theorem soft_delete_deadlines_iff (hrun : Run StoreOperation.Step empty moves db)
    (hrow : row ∈ db.notes) (hdeleted : row.deletedAt ≠ none)
    (howner : owner.principalId = row.creator) :
    (db.Restorable owner row now ↔ db.KeptByPurge row.noteId now) ↔ db.DeadlinesAgree row now := by
  rw [restorable_iff (notesSound_of_run hrun) hrow hdeleted howner,
    keptByPurge_iff (foreignKeys_of_run hrun) hrow]
  by_cases hexpired : db.Expired (saturatingSub now softDeleteRetentionMs) row.noteId
  · simp only [hexpired, not_true_eq_false, false_and, true_implies, false_iff, not_exists, not_and]
    exact ⟨fun h => ⟨fun _ => h, fun hnot => absurd hexpired hnot⟩, fun h => h.expired hexpired⟩
  · simp only [hexpired, not_false_eq_true, true_and, false_implies, iff_true]
    exact ⟨fun h => ⟨fun hnot => absurd hnot hexpired, fun _ => h⟩, fun h => h.retained hexpired⟩

/-! ## A deleted note with an image -/

/-- Alice creates a note, uploads an image, shows it and deletes the note at 300. -/
def deleteIllustrated : List (StoreOperation asciiLibrary) :=
  [.login alice.authenticatedIdentity,
    .command (.create alice ⟨7⟩ ⟨"A", "= A", []⟩ ⟨[], [], []⟩ 100 .web),
    .attachment (.create alice figure),
    .command (.update alice ⟨7⟩ 1 ⟨"A", "= A\n\nimage::9[]", []⟩ ⟨[], [], [⟨9⟩]⟩ 200),
    .command (.softDelete alice ⟨7⟩ 2 300)]

/-- The database after that. -/
def deletedIllustrated : Database := deleteIllustrated.foldl StoreOperation.apply empty

/-- The row of the deleted note. -/
def deletedRow : NoteRow :=
  ⟨⟨7⟩, ⟨1⟩, "A", "= A\n\nimage::9[]", [], 100, 300, 3, some 300, .web, true, none⟩

theorem run_deletedIllustrated : Run StoreOperation.Step empty
    (Run.trace StoreOperation.apply empty deleteIllustrated) deletedIllustrated :=
  Run.run_trace StoreOperation.apply empty deleteIllustrated

theorem mem_deletedIllustrated : deletedRow ∈ deletedIllustrated.notes := by
  decide +kernel

/-- A millisecond after the deadline, Alice cannot restore the note, and no purge removes it. -/
theorem deadlines_leave_a_gap :
    ∃ (moves : List (Move Database (StoreOperation asciiLibrary))) (db : Database) (row : NoteRow)
      (owner : Actor) (now : ℤ), Run StoreOperation.Step empty moves db ∧ row ∈ db.notes ∧
      row.deletedAt ≠ none ∧ owner.principalId = row.creator ∧
      ¬(db.Restorable owner row now ↔ db.KeptByPurge row.noteId now) := by
  have hexpired : deletedIllustrated.Expired
      (saturatingSub (softDeleteRetentionMs + 301) softDeleteRetentionMs) ⟨7⟩ := by
    decide +kernel
  refine ⟨_, deletedIllustrated, deletedRow, alice, softDeleteRetentionMs + 301,
    run_deletedIllustrated, mem_deletedIllustrated, by simp [deletedRow], rfl, ?_⟩
  rw [restorable_iff (notesSound_of_run run_deletedIllustrated) mem_deletedIllustrated
    (by simp [deletedRow]) rfl,
    keptByPurge_iff (foreignKeys_of_run run_deletedIllustrated) mem_deletedIllustrated]
  intro h
  refine (h.mpr fun _ => ⟨⟨⟨7⟩, 3, ⟨9⟩⟩, ?_, hexpired⟩).1 hexpired
  decide +kernel

/-- At the deadline itself she can restore it, and a purge keeps it. -/
theorem soft_delete_deadlines_iff_deletedIllustrated :
    deletedIllustrated.Restorable alice deletedRow (softDeleteRetentionMs + 300) ↔
      deletedIllustrated.KeptByPurge ⟨7⟩ (softDeleteRetentionMs + 300) := by
  have hretained : ¬deletedIllustrated.Expired
      (saturatingSub (softDeleteRetentionMs + 300) softDeleteRetentionMs) ⟨7⟩ := by
    decide +kernel
  refine (soft_delete_deadlines_iff run_deletedIllustrated mem_deletedIllustrated
    (by simp [deletedRow]) rfl).mpr ⟨fun h => absurd h hretained, fun _ => ⟨by decide, ?_⟩⟩
  simp [deletedRow]

end Database

end Marginalis
