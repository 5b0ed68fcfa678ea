import Marginalis.NoteStages
import Marginalis.Principals
import Marginalis.Run

/-!
# No lost update

Commands of any number of clients interleave at their transactions, so a run is a sequence
of `NoteCommand.Step`s. The revision of a note is a counter that only a committed command
moves, by one and from the revision it expects (`NoteCommand.Step.currentRevision`).
`Run.exists_increment` then gives every revision of a note exactly one command
(`note_revision_produced_once`). A command that fails changes nothing
(`failed_command_changes_nothing`).
-/

namespace Marginalis

/-- The database after a transaction : committed on success, rolled back on failure. -/
def Database.commit {ε : Type*} (db : Database) : Except ε Database → Database
  | .ok db' => db'
  | .error _ => db

namespace NoteCommand

/-- One transaction of a note command, whatever its outcome. -/
def Step (db : Database) (c : NoteCommand) (db' : Database) : Prop := db' = db.commit (c.exec db)

/-- The access level a command needs. A creation needs none. -/
def requiredAccess : NoteCommand → ℕ
  | create .. => 0
  | update .. | restoreRevision .. => NoteAccess.edit.accessLevel
  | softDelete .. | restore .. | replaceAcl .. | markReviewed .. => NoteAccess.manage.accessLevel

/-- The actor of a command has the access the command needs. -/
def Authorized (c : NoteCommand) (db : Database) : Prop :=
  c.requiredAccess = 0 ∨ db.HasAccess c.principalId c.noteId c.requiredAccess

variable {c : NoteCommand} {db db' : Database}

theorem step_cases (h : c.Step db db') :
    c.exec db = .ok db' ∨ (∃ e, c.exec db = .error e) ∧ db' = db := by
  unfold Step Database.commit at h
  cases hexec : c.exec db with
  | ok d =>
    rw [hexec] at h
    exact Or.inl (congrArg _ h.symm)
  | error e =>
    rw [hexec] at h
    exact Or.inr ⟨⟨e, rfl⟩, h⟩

/-- A guard holds for an actor with the access the command needs. -/
theorem Guard.authorized {old : NoteRow} (hold : db.notes.find c.noteId = some old)
    (h : c.Guard db old) : c.Authorized db := by
  cases c with
  | create => exact h.elim
  | restore actor noteId revision restoredAt =>
    refine Or.inr ⟨⟨old.noteId, old.creator, 3⟩, ?_, Table.key_of_find hold, h.2.2, le_refl 3⟩
    exact List.mem_append_left _ (List.mem_map.mpr ⟨old, Table.mem_of_find hold, rfl⟩)
  | update | restoreRevision | softDelete | replaceAcl | markReviewed => exact Or.inr h.2.2

end NoteCommand

/-- The current revision of a note, 0 when there is none. -/
def Database.currentRevision (db : Database) (n : NoteId) : ℕ :=
  (db.notes.find n).elim 0 NoteRow.revision

namespace NoteCommand

variable {c : NoteCommand} {db db' : Database}

/-- A committed command was authorized, expected the revision its note had, and moved it by
one. The other notes keep theirs. -/
theorem exec_currentRevision (h : c.exec db = .ok db') :
    c.Authorized db ∧ db.currentRevision c.noteId = c.expectedRevision ∧
      ∀ n, db'.currentRevision n =
        if c.noteId = n then c.expectedRevision + 1 else db.currentRevision n := by
  obtain ⟨written, shared, references, citations, revisions, attachments, hw, hs, rfl⟩ := exec_eq h
  have hnotes : shared.notes = written.notes := hs.sameContent.notes
  refine ⟨?_, hw.expected, fun n => ?_⟩
  · cases hw with
    | insert hnew h =>
      cases c with
      | create => exact Or.inl rfl
      | update | restoreRevision | softDelete | restore | replaceAcl | markReviewed => cases hnew
    | update hold hguard h => exact hguard.authorized hold
  · obtain ⟨new, -, hrevision, hfind⟩ := hw.notes
    simp only [Database.currentRevision, hnotes, hfind n]
    split_ifs with hn
    · exact hrevision
    · rfl

/-- A committed command writes one row of the history, that of its note's new row. -/
theorem exec_insertsRevision (h : c.exec db = .ok db') : ∃ new,
    db'.notes.find c.noteId = some new ∧
      db.noteRevisions.insert? (new.toRevisionRow c.principalId c.kind) =
        some db'.noteRevisions := by
  obtain ⟨written, shared, recorded, hw, hs, -, hr, ha⟩ := exec_stages h
  obtain ⟨new, hfind, -, hinsert⟩ := hr.inserts
  obtain ⟨notes, change, rfl⟩ := hw.eq
  obtain ⟨references, citations, revisions, attachments, rfl⟩ := hr.eq
  obtain ⟨attachments', rfl⟩ := ha.eq
  rw [hs.sameContent.noteRevisions] at hinsert
  exact ⟨new, hfind, hinsert⟩

/-- A step moves the revision of a note by one or not at all. -/
theorem Step.currentRevision (n : NoteId) (h : c.Step db db') :
    db'.currentRevision n = db.currentRevision n ∨
      db'.currentRevision n = db.currentRevision n + 1 := by
  rcases step_cases h with h | ⟨-, rfl⟩
  · obtain ⟨-, hexpected, hmove⟩ := exec_currentRevision h
    rw [hmove n]
    split_ifs with hn
    · rw [← hn, hexpected]
      exact Or.inr rfl
    · exact Or.inl rfl
  · exact Or.inl rfl

end NoteCommand

/-- The move committed a command that produced the revision `rev` of `n`. -/
def Produces (m : Move Database NoteCommand) (n : NoteId) (rev : ℕ) : Prop :=
  m.label.exec m.pre = .ok m.post ∧ m.label.noteId = n ∧ m.post.currentRevision n = rev

/-- In any interleaving of commands, every revision of a note the run added was produced by
exactly one committed command. It expected the revision before, which the note had, its actor had
the access it needs in the state it committed on, and it wrote the row of the new revision to the
history. A command that failed left the whole database as it was. -/
theorem note_revision_produced_once {db₀ db : Database} {moves : List (Move Database NoteCommand)}
    (hrun : Run NoteCommand.Step db₀ moves db) :
    (∀ (n : NoteId) (r : ℕ), db₀.currentRevision n ≤ r → r + 1 ≤ db.currentRevision n →
      ∃ before m after, moves = before ++ m :: after ∧ Produces m n (r + 1) ∧
        m.label.expectedRevision = r ∧ m.pre.currentRevision n = r ∧ m.label.Authorized m.pre ∧
        (∃ row, m.post.notes.find n = some row ∧ row.revision = r + 1 ∧
          m.pre.noteRevisions.insert?
            (row.toRevisionRow m.label.principalId m.label.kind) = some m.post.noteRevisions) ∧
        (∀ m' ∈ before, ¬Produces m' n (r + 1)) ∧ ∀ m' ∈ after, ¬Produces m' n (r + 1)) ∧
    ∀ m ∈ moves, ∀ e, m.label.exec m.pre = .error e → m.post = m.pre := by
  constructor
  · intro n r hr hr'
    have hcounter : ∀ (s : Database) c t, NoteCommand.Step s c t →
        t.currentRevision n = s.currentRevision n ∨
          t.currentRevision n = s.currentRevision n + 1 :=
      fun s c t h => NoteCommand.Step.currentRevision n h
    obtain ⟨before, m, after, rfl, hpre, hpost, hbefore, hafter⟩ :=
      hrun.exists_increment hcounter hr (by omega)
    obtain ⟨-, hstep, -⟩ := hrun.of_mem (m := m) (by simp)
    have hexec : m.label.exec m.pre = .ok m.post := by
      rcases NoteCommand.step_cases hstep with h | ⟨-, h⟩
      · exact h
      · rw [h, hpre] at hpost
        omega
    obtain ⟨hauth, hexpected, hmove⟩ := NoteCommand.exec_currentRevision hexec
    have hn : m.label.noteId = n := by
      by_contra hne
      rw [hmove n, if_neg hne] at hpost
      omega
    rw [hn] at hexpected
    obtain ⟨new, hnew, hinsert⟩ := NoteCommand.exec_insertsRevision hexec
    rw [hn] at hnew
    have hrevision : new.revision = r + 1 := by
      rw [← hpost, Database.currentRevision, hnew]
      rfl
    refine ⟨before, m, after, rfl, ⟨hexec, hn, hpost⟩, by omega, hpre, hauth,
      ⟨new, hnew, hrevision, hinsert⟩, ?_, ?_⟩
    · intro m' hm' hp
      have := hbefore m' hm'
      rw [hp.2.2] at this
      omega
    · rintro m' hm' ⟨hexec', hn', hpost'⟩
      obtain ⟨-, hexpected', hmove'⟩ := NoteCommand.exec_currentRevision hexec'
      rw [hmove' n, if_pos hn', ← hexpected', hn'] at hpost'
      have := hafter m' hm'
      omega
  · intro m hm e he
    obtain ⟨-, hstep, -⟩ := hrun.of_mem hm
    rcases NoteCommand.step_cases hstep with h | ⟨-, h⟩
    · rw [he] at h
      cases h
    · exact h

/-- Alice creates a note, and two clients update it from its first revision. -/
def createThenTwoUpdates : List NoteCommand :=
  [.create Database.alice ⟨7⟩ ⟨"A", "= A", []⟩ ⟨[], [], []⟩ 100 .web,
    .update Database.alice ⟨7⟩ 1 ⟨"A", "= A\n\nfirst", []⟩ ⟨[], [], []⟩ 200,
    .update Database.alice ⟨7⟩ 1 ⟨"A", "= A\n\nsecond", []⟩ ⟨[], [], []⟩ 300]

/-- In that run exactly one of the updates produced the second revision. -/
theorem note_revision_produced_once_createThenTwoUpdates :
    ∃ before m after,
      Run.trace (fun db c => db.commit (c.exec db)) Database.twoPrincipals createThenTwoUpdates =
        before ++ m :: after ∧ Produces m ⟨7⟩ 2 ∧ m.label.expectedRevision = 1 ∧
      m.pre.currentRevision ⟨7⟩ = 1 ∧ m.label.Authorized m.pre ∧
      (∃ row, m.post.notes.find ⟨7⟩ = some row ∧ row.revision = 2 ∧
        m.pre.noteRevisions.insert?
          (row.toRevisionRow m.label.principalId m.label.kind) = some m.post.noteRevisions) ∧
      (∀ m' ∈ before, ¬Produces m' ⟨7⟩ 2) ∧ ∀ m' ∈ after, ¬Produces m' ⟨7⟩ 2 :=
  (note_revision_produced_once (Run.run_trace _ Database.twoPrincipals createThenTwoUpdates)).1
    ⟨7⟩ 1 (by decide) (by decide)

end Marginalis
