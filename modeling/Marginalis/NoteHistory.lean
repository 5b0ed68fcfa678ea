import Marginalis.NoteApplication
import Marginalis.NoteClock

/-!
# The history of a note

Eight operations write the row of a note, a row of its history and the images of that row, each
with statements of its own. A new row of the history starts with the images of the row before, and
an operation that stores a source replaces them by those the source names.

`HistoryComplete` is what they keep : the revisions of a note are the numbers from one to the
current one, or from a later one when a history was restored, and the last of them is the note as
it is. Every revision shows the images its source names (`ShowsSources`), as long as the links that
come with a source are the source's own (`NoteCommand.Submitted`), which the use cases see to. Both
hold in every state a run reaches.
-/

namespace Marginalis

open Database

/-! ## Commands as the application submits them -/

namespace NoteCommand

/-- The draft a command stores. -/
def draft : NoteCommand → Option NoteDraft
  | create _ _ draft .. | update _ _ _ draft .. | restoreRevision _ _ _ draft .. => some draft
  | _ => none

/-- The images that come with a source are those it names. -/
def Submitted (images : String → List AttachmentId) (c : NoteCommand) : Prop :=
  ∀ links ∈ c.links, ∀ draft ∈ c.draft, links.attachmentIds = images draft.source

instance (images : String → List AttachmentId) (c : NoteCommand) :
    Decidable (c.Submitted images) := by
  unfold Submitted
  infer_instance

theorem isSome_draft (c : NoteCommand) : c.draft.isSome = c.links.isSome := by
  cases c <;> rfl

/-- The source of a new note is that of its draft. -/
theorem source_createdRow {c : NoteCommand} {new : NoteRow} (h : c.createdRow = some new) :
    ∃ draft, c.draft = some draft ∧ new.source = draft.source := by
  cases c with
  | create actor noteId draft links createdAt createdVia =>
    obtain rfl := Option.some.inj h
    exact ⟨draft, rfl, rfl⟩
  | update | restoreRevision | softDelete | restore | replaceAcl | markReviewed => cases h

/-- An update writes the source of its draft, and no source without one. -/
theorem source_set (c : NoteCommand) (old : NoteRow) (hcreated : c.createdRow = none) :
    (c.set old).source = (c.draft.map NoteDraft.source).getD old.source := by
  cases c with
  | create => cases hcreated
  | update | restoreRevision | softDelete | restore | replaceAcl | markReviewed => rfl

end NoteCommand

/-! ## Use cases submit commands -/

section UseCases

variable {analysis : String → Except (List NoteValidationDiagnostic) SourceAnalysis}
  {app : NoteApplication} {db db' : Database} {actor : Actor} {noteId : NoteId}
  {draft : NoteDraft} {expectedRevision : ℕ} {policy : NoteWritePolicy} {now : ℤ} {note : Note}

/-- What a use case leaves behind is what one submitted command does. -/
def SubmitsCommand (app : NoteApplication) (db db' : Database) : Prop :=
  ∃ c : NoteCommand, c.Submitted app.content.images ∧ c.exec db = .ok db'

theorem createNote_submits (hcontent : app.content = asciiDocContent analysis)
    {createdVia : NoteCreationSource}
    (h : app.createNote db actor noteId draft policy createdVia now = .ok (note, db')) :
    SubmitsCommand app db db' := by
  obtain ⟨validated, hvalidated, h⟩ := Except.bind_eq_ok.mp h
  rw [Except.mapError_eq_ok, hcontent] at hvalidated
  split_ifs at h
  obtain ⟨unknown, -, h⟩ := Except.bind_eq_ok.mp h
  obtain ⟨-, -, h⟩ := Except.bind_eq_ok.mp h
  obtain ⟨created, hcreated, h⟩ := Except.bind_eq_ok.mp h
  cases h
  rw [Except.mapError_eq_ok] at hcreated
  refine ⟨.create actor noteId validated.draft validated.links now createdVia, ?_, ?_⟩
  · rintro links hlinks draft' hdraft'
    cases hlinks
    cases hdraft'
    rw [hcontent]
    exact (images_asciiDocContent hvalidated).2
  · exact Except.mapError_eq_ok.mpr hcreated

theorem updateNote_submits (hcontent : app.content = asciiDocContent analysis)
    (h : db.updateNote app actor noteId draft expectedRevision policy now = .ok (note, db')) :
    SubmitsCommand app db db' := by
  obtain ⟨validated, hvalidated, h⟩ := Except.bind_eq_ok.mp h
  rw [Except.mapError_eq_ok, hcontent] at hvalidated
  obtain ⟨-, -, h⟩ := Except.bind_eq_ok.mp h
  obtain ⟨unknown, -, h⟩ := Except.bind_eq_ok.mp h
  obtain ⟨-, -, h⟩ := Except.bind_eq_ok.mp h
  rw [Except.mapError_eq_ok] at h
  refine ⟨.update actor noteId expectedRevision validated.draft validated.links now, ?_, ?_⟩
  · rintro links hlinks draft' hdraft'
    cases hlinks
    cases hdraft'
    rw [hcontent]
    exact (images_asciiDocContent hvalidated).2
  · exact Except.mapError_eq_ok.mpr (Except.map_eq_ok.mpr ⟨(note, db'), h, rfl⟩)

/-- A dry run leaves the database as it was, and any other patch is one command. -/
theorem applyNotePatch_submits (hcontent : app.content = asciiDocContent analysis)
    {patchText : String} {dryRun : Bool} {answer : NotePatchApplication}
    (h : db.applyNotePatch app actor noteId patchText expectedRevision policy dryRun now =
      .ok (answer, db')) :
    db' = db ∧ dryRun = true ∨ SubmitsCommand app db db' := by
  obtain ⟨stored, -, h⟩ := Except.bind_eq_ok.mp h
  obtain ⟨outcome, -, h⟩ := Except.bind_eq_ok.mp h
  obtain ⟨⟨validated, advisories⟩, hchecked, h⟩ := Except.bind_eq_ok.mp h
  rw [Except.mapError_eq_ok] at hchecked
  obtain ⟨validated', hvalidated, hchecked⟩ := Except.bind_eq_ok.mp hchecked
  rw [Except.mapError_eq_ok, hcontent] at hvalidated
  obtain ⟨-, -, hchecked⟩ := Except.bind_eq_ok.mp hchecked
  obtain ⟨unknown, -, hchecked⟩ := Except.bind_eq_ok.mp hchecked
  obtain ⟨-, -, hchecked⟩ := Except.bind_eq_ok.mp hchecked
  cases hchecked
  dsimp only at h
  by_cases hdry : dryRun = true
  · rw [if_pos hdry] at h
    cases h
    exact Or.inl ⟨rfl, hdry⟩
  · rw [if_neg hdry] at h
    obtain ⟨⟨saved, written⟩, hsaved, h⟩ := Except.bind_eq_ok.mp h
    cases h
    rw [Except.mapError_eq_ok] at hsaved
    refine Or.inr ⟨.update actor noteId expectedRevision validated.draft validated.links now,
      ?_, ?_⟩
    · rintro links hlinks draft' hdraft'
      cases hlinks
      cases hdraft'
      rw [hcontent]
      exact (images_asciiDocContent hvalidated).2
    · exact Except.mapError_eq_ok.mpr (Except.map_eq_ok.mpr ⟨(saved, written), hsaved, rfl⟩)

theorem restoreNoteRevision_submits (hcontent : app.content = asciiDocContent analysis)
    {revision : ℕ} (h : app.restoreNoteRevision db actor noteId revision expectedRevision policy
      now = .ok (note, db')) :
    ∃ (historical : NoteRevisionView) (validated : ValidatedNoteDraft),
      db.readNoteRevision actor noteId revision = .ok historical ∧
      validated.draft.source = historical.revision.note.draft.source ∧
      (NoteCommand.restoreRevision actor noteId expectedRevision validated.draft validated.links
        now).Submitted app.content.images ∧
      (NoteCommand.restoreRevision actor noteId expectedRevision validated.draft validated.links
        now).exec db = .ok db' := by
  obtain ⟨historical, hhistorical, h⟩ := Except.bind_eq_ok.mp h
  obtain ⟨validated, hvalidated, h⟩ := Except.bind_eq_ok.mp h
  rw [Except.mapError_eq_ok, hcontent] at hvalidated
  obtain ⟨-, -, h⟩ := Except.bind_eq_ok.mp h
  obtain ⟨unknown, -, h⟩ := Except.bind_eq_ok.mp h
  obtain ⟨-, -, h⟩ := Except.bind_eq_ok.mp h
  rw [Except.mapError_eq_ok] at h
  obtain ⟨hsource, himages⟩ := images_asciiDocContent hvalidated
  refine ⟨historical, validated, hhistorical, hsource, ?_, ?_⟩
  · rintro links hlinks draft' hdraft'
    cases hlinks
    cases hdraft'
    rw [hcontent]
    exact himages
  · exact Except.mapError_eq_ok.mpr (Except.map_eq_ok.mpr ⟨(note, db'), h, rfl⟩)

end UseCases

/-! ## What a command does to the images of revisions -/

namespace Database

variable {db db' : Database} {noteId : NoteId} {revision : ℕ}

/-- The images of a revision are inserted one after the other. -/
theorem mem_insertRevisionAttachments {ids : List AttachmentId}
    (h : ids.foldlM (insertRevisionAttachment noteId revision) db = .ok db')
    (shown : RevisionAttachmentRow) :
    shown ∈ db'.noteRevisionAttachments ↔ shown ∈ db.noteRevisionAttachments ∨
      ∃ id ∈ ids, shown = ⟨noteId, revision, id⟩ := by
  induction ids generalizing db with
  | nil =>
    cases h
    simp
  | cons id ids ih =>
    rw [List.foldlM_cons] at h
    obtain ⟨inserted, hinserted, h⟩ := Except.bind_eq_ok.mp h
    obtain ⟨attachment, rows, -, -, hrows, rfl⟩ := insertRevisionAttachment_eq_ok.mp hinserted
    rw [ih h, Table.mem_insert? hrows, List.exists_mem_cons_iff, or_assoc]

/-- The images of the current revision are replaced, and those of every other one stay. -/
theorem mem_replaceNoteRevisionAttachments {ids : List AttachmentId} {row : NoteRow}
    (hfind : db.notes.find noteId = some row)
    (h : db.replaceNoteRevisionAttachments noteId ids = .ok db') (shown : RevisionAttachmentRow) :
    shown ∈ db'.noteRevisionAttachments ↔
      shown ∈ db.noteRevisionAttachments ∧
          ¬(shown.noteId = noteId ∧ shown.revision = row.revision) ∨
        ∃ id ∈ ids, shown = ⟨noteId, row.revision, id⟩ := by
  unfold replaceNoteRevisionAttachments at h
  rw [hfind] at h
  rw [mem_insertRevisionAttachments h, Table.mem_deleteWhere, decide_eq_false_iff_not]

/-- A new revision starts with the images of the one before. -/
theorem mem_previousRevisionAttachments (shown : RevisionAttachmentRow) :
    shown ∈ db.previousRevisionAttachments noteId revision ↔
      shown.noteId = noteId ∧ shown.revision = revision ∧
        ∃ previous, previous + 1 = revision ∧
          ⟨noteId, previous, shown.attachmentId⟩ ∈ db.noteRevisionAttachments := by
  unfold previousRevisionAttachments
  rw [List.mem_map]
  constructor
  · rintro ⟨previous, hprevious, rfl⟩
    obtain ⟨hmem, hid⟩ := Table.mem_select.mp hprevious
    rw [decide_eq_true_eq] at hid
    obtain ⟨rfl, hrevision⟩ := hid
    exact ⟨rfl, rfl, previous.revision, hrevision, hmem⟩
  · rintro ⟨hid, hrevision, previous, hprevious, hmem⟩
    refine ⟨_, Table.mem_select.mpr ⟨hmem, ?_⟩, ?_⟩
    · rw [decide_eq_true_eq]
      exact ⟨rfl, hprevious⟩
    · cases shown
      cases hid
      cases hrevision
      rfl

end Database

namespace NoteCommand

variable {c : NoteCommand} {db db' shared recorded : Database}

/-- The images after the history row : those before, and copies of the last revision's. -/
theorem Records.attachments (h : c.Records shared recorded) {row : NoteRow}
    (hfind : shared.notes.find c.noteId = some row) (shown : RevisionAttachmentRow) :
    shown ∈ recorded.noteRevisionAttachments ↔ shown ∈ shared.noteRevisionAttachments ∨
      shown ∈ shared.previousRevisionAttachments c.noteId row.revision := by
  have hinserted : ∀ linked : Database, linked.notes = shared.notes →
      linked.noteRevisionAttachments = shared.noteRevisionAttachments →
      linked.insertNoteRevision c.noteId c.principalId c.kind = .ok recorded →
      (shown ∈ recorded.noteRevisionAttachments ↔ shown ∈ shared.noteRevisionAttachments ∨
        shown ∈ shared.previousRevisionAttachments c.noteId row.revision) := by
    intro linked hnotes hshown h
    obtain ⟨row', revisions, hfind', -, -, -, rfl⟩ := insertNoteRevision_eq_ok.mp h
    rw [hnotes, hfind, Option.some.injEq] at hfind'
    subst hfind'
    have hprevious : linked.previousRevisionAttachments c.noteId row.revision =
        shared.previousRevisionAttachments c.noteId row.revision := by
      unfold previousRevisionAttachments
      rw [hshown]
    rw [Table.mem_upsertAll id fun _ _ => rfl, hprevious, hshown]
    by_cases hmem : shown ∈ shared.previousRevisionAttachments c.noteId row.revision
    · simp [hmem]
    · have hkeys : Keyed.key shown ∉
          (shared.previousRevisionAttachments c.noteId row.revision).map Keyed.key := by
        rintro hkey
        obtain ⟨other, hother, heq⟩ := List.mem_map.mp hkey
        have hsame : other = shown := heq
        exact hmem (hsame ▸ hother)
      simp [hmem, hkeys]
  unfold Records at h
  cases hlinks : c.links with
  | none =>
    rw [hlinks] at h
    exact hinserted shared rfl rfl h
  | some links =>
    rw [hlinks] at h
    exact hinserted (shared.replaceLinkRows c.noteId links) rfl rfl h

/-- The rows of the history and of its images after a committed command. -/
structure Appends (c : NoteCommand) (db : Database) (new : NoteRow) (db' : Database) : Prop where
  noteId : new.noteId = c.noteId
  cases : c.createdRow = some new ∧ db.notes.find c.noteId = none ∨
    ∃ old, db.notes.find c.noteId = some old ∧ c.Guard db old ∧ new = c.set old
  notes : ∀ n, db'.notes.find n = if c.noteId = n then some new else db.notes.find n
  revisions : db.noteRevisions.insert? (new.toRevisionRow c.principalId c.kind) =
    some db'.noteRevisions
  attachments : db'.noteAttachments = db.noteAttachments
  shown : ∀ shown, shown ∈ db'.noteRevisionAttachments ↔
    match c.links with
    | none => shown ∈ db.noteRevisionAttachments ∨
        shown ∈ db.previousRevisionAttachments c.noteId new.revision
    | some links => shown ∈ db.noteRevisionAttachments ∧
          ¬(shown.noteId = c.noteId ∧ shown.revision = new.revision) ∨
        ∃ id ∈ links.attachmentIds, shown = ⟨c.noteId, new.revision, id⟩

/-- A committed command appends one row to the history of its note. -/
theorem exec_appends_history (h : c.exec db = .ok db') : ∃ new, c.Appends db new db' := by
  obtain ⟨written, shared, recorded, hw, hs, -, hr, ha⟩ := exec_stages h
  obtain ⟨new, hid, -, hnew, hfind⟩ := hw.row
  obtain ⟨notes, change, rfl⟩ := hw.eq
  have hsame := hs.sameContent
  have hnotes : ∀ n, shared.notes.find n = if c.noteId = n then some new else db.notes.find n := by
    intro n
    rw [hsame.notes, hfind]
  have hstored : shared.notes.find c.noteId = some new := by rw [hnotes, if_pos rfl]
  obtain ⟨row, hrow, -, hinsert⟩ := hr.inserts
  rw [hstored, Option.some.injEq] at hrow
  subst hrow
  have hshared : shared.noteRevisionAttachments = db.noteRevisionAttachments :=
    hsame.noteRevisionAttachments
  have hprevious : shared.previousRevisionAttachments c.noteId new.revision =
      db.previousRevisionAttachments c.noteId new.revision := by
    unfold previousRevisionAttachments
    rw [hshared]
  have hrecorded := hr.attachments hstored
  obtain ⟨hrecordedNotes, hrecordedAttachments⟩ := hr.tables
  rw [hsame.noteRevisions] at hinsert
  rw [hprevious, hshared] at hrecorded
  refine ⟨new, hid, hnew, ?_, ?_, ?_, fun shown => ?_⟩
  · obtain ⟨attachments, rfl⟩ := ha.eq
    rw [hrecordedNotes]
    exact hnotes
  · obtain ⟨attachments, rfl⟩ := ha.eq
    exact hinsert
  · obtain ⟨attachments, rfl⟩ := ha.eq
    exact hrecordedAttachments.trans hsame.noteAttachments
  · unfold Attaches at ha
    cases hlinks : c.links with
    | none =>
      rw [hlinks] at ha
      rw [ha]
      exact hrecorded shown
    | some links =>
      rw [hlinks] at ha
      rw [mem_replaceNoteRevisionAttachments (hrecordedNotes ▸ hstored) ha, hrecorded]
      refine or_congr_left (and_congr_left fun hother => or_iff_left fun hcopied => ?_)
      obtain ⟨hnote, hrevision, -⟩ := (mem_previousRevisionAttachments shown).mp hcopied
      exact hother ⟨hnote, hrevision⟩

/-- Only the images of the new revision change. -/
theorem Appends.shown_other {new : NoteRow} (h : c.Appends db new db')
    {shown : RevisionAttachmentRow}
    (hother : ¬(shown.noteId = c.noteId ∧ shown.revision = new.revision)) :
    shown ∈ db'.noteRevisionAttachments ↔ shown ∈ db.noteRevisionAttachments := by
  rw [h.shown]
  cases c.links with
  | none =>
    refine or_iff_left fun hcopied => hother ?_
    obtain ⟨hnote, hrevision, -⟩ := (mem_previousRevisionAttachments shown).mp hcopied
    exact ⟨hnote, hrevision⟩
  | some links =>
    refine ⟨?_, fun hshown => Or.inl ⟨hshown, hother⟩⟩
    rintro (⟨hshown, -⟩ | ⟨id, -, rfl⟩)
    · exact hshown
    · exact absurd ⟨rfl, rfl⟩ hother

end NoteCommand

/-! ## Complete histories -/

namespace Database

/-- The revisions of a note are the numbers up to its current one, from one on unless histories
can have been restored, the last of them is the note as it is, and the images that revisions show
are stored. -/
structure HistoryComplete (restored : Prop) (db : Database) : Prop where
  revisions : ∀ note ∈ db.notes, ∃ first, (first = 1 ∨ restored) ∧ ∀ k,
    (∃ r ∈ db.noteRevisions, r.noteId = note.noteId ∧ r.revision = k) ↔
      first ≤ k ∧ k ≤ note.revision
  latest : ∀ note ∈ db.notes, ∃ changedBy kind,
    note.toRevisionRow changedBy kind ∈ db.noteRevisions
  notes : ∀ r ∈ db.noteRevisions, ∃ note ∈ db.notes, note.noteId = r.noteId
  shownBy : ∀ shown ∈ db.noteRevisionAttachments, ∃ r ∈ db.noteRevisions,
    r.noteId = shown.noteId ∧ r.revision = shown.revision
  stored : db.ForeignKeys

/-- Every revision shows the images that its source names. -/
def ShowsSources (images : String → List AttachmentId) (db : Database) : Prop :=
  ∀ r ∈ db.noteRevisions, ∀ id,
    ⟨r.noteId, r.revision, id⟩ ∈ db.noteRevisionAttachments ↔ id ∈ images r.source

variable {restored : Prop} {images : String → List AttachmentId} {db db' : Database}
  {c : NoteCommand} {new : NoteRow}

theorem historyComplete_empty : empty.HistoryComplete restored := by
  refine ⟨?_, ?_, ?_, ?_, ?_⟩ <;> exact fun _ h => absurd h Table.not_mem_empty

theorem showsSources_empty : empty.ShowsSources images :=
  fun _ h => absurd h Table.not_mem_empty

/-- Before a command the revisions of its note end just below the new one. -/
theorem HistoryComplete.before (h : db.HistoryComplete restored)
    (happends : c.Appends db new db') :
    ∃ first before, (first = 1 ∨ restored) ∧ first ≤ before + 1 ∧ new.revision = before + 1 ∧
      ∀ k, (∃ r ∈ db.noteRevisions, r.noteId = c.noteId ∧ r.revision = k) ↔
        first ≤ k ∧ k ≤ before := by
  rcases happends.cases with ⟨hcreated, hnone⟩ | ⟨old, hold, hguard, rfl⟩
  · obtain ⟨-, -, -, hrevision, -⟩ := NoteCommand.createdRow_eq_some hcreated
    refine ⟨1, 0, Or.inl rfl, le_rfl, by omega, fun k => ⟨?_, fun hk => by omega⟩⟩
    rintro ⟨r, hr, hid, -⟩
    obtain ⟨note, hnote, hnoteId⟩ := h.notes r hr
    exact absurd (hnoteId.trans hid) (Table.find_eq_none.mp hnone note hnote)
  · have hid : old.noteId = c.noteId := Table.key_of_find hold
    obtain ⟨first, hfirst, hiff⟩ := h.revisions old (Table.mem_of_find hold)
    obtain ⟨changedBy, kind, hlatest⟩ := h.latest old (Table.mem_of_find hold)
    have hle := ((hiff old.revision).mp ⟨_, hlatest, rfl, rfl⟩).1
    refine ⟨first, old.revision, hfirst, by omega, hguard.revision_eq.2, fun k => ?_⟩
    rw [← hid]
    exact hiff k

/-- The new revision shows what its source names. -/
theorem HistoryComplete.shown_new (h : db.HistoryComplete restored)
    (hshows : db.ShowsSources images) (hsubmitted : c.Submitted images)
    (happends : c.Appends db new db') (id : AttachmentId) :
    ⟨c.noteId, new.revision, id⟩ ∈ db'.noteRevisionAttachments ↔ id ∈ images new.source := by
  obtain ⟨first, before, -, -, hbefore, hrevisions⟩ := h.before happends
  have hfresh : ⟨c.noteId, new.revision, id⟩ ∉ db.noteRevisionAttachments := by
    intro hshown
    obtain ⟨r, hr, hid, hrevision⟩ := h.shownBy _ hshown
    have := ((hrevisions new.revision).mp ⟨r, hr, hid, hrevision⟩).2
    omega
  have hsource : new.source = (c.draft.map NoteDraft.source).getD new.source ∧
      (c.draft = none → ∃ old, db.notes.find c.noteId = some old ∧ new.source = old.source ∧
        old.revision + 1 = new.revision) := by
    rcases happends.cases with ⟨hcreated, -⟩ | ⟨old, hold, hguard, rfl⟩
    · obtain ⟨draft, hdraft, hsource⟩ := NoteCommand.source_createdRow hcreated
      rw [hdraft]
      exact ⟨hsource, fun hnone => by cases hnone⟩
    · have hsource := c.source_set old hguard.createdRow_eq_none
      refine ⟨?_, fun hnone => ⟨old, hold, ?_, hguard.revision_eq.2.symm⟩⟩
      · cases hdraft : c.draft with
        | none => rfl
        | some draft =>
          rw [hsource, hdraft]
          rfl
      · rw [hsource, hnone]
        rfl
  have hboth := c.isSome_draft
  rw [happends.shown]
  cases hlinks : c.links with
  | none =>
    rw [hlinks, Option.isSome_none, Option.isSome_eq_false_iff, Option.isNone_iff_eq_none] at hboth
    obtain ⟨old, hold, hsame, hrevision⟩ := hsource.2 hboth
    have hid : old.noteId = c.noteId := Table.key_of_find hold
    obtain ⟨changedBy, kind, hlatest⟩ := h.latest old (Table.mem_of_find hold)
    have hshown := hshows _ hlatest id
    dsimp only [NoteRow.toRevisionRow] at hshown
    rw [hid] at hshown
    dsimp only
    rw [or_iff_right hfresh, mem_previousRevisionAttachments, hsame, ← hshown]
    constructor
    · rintro ⟨-, -, previous, hprevious, hmem⟩
      have hsameRevision : previous = old.revision := by omega
      exact hsameRevision ▸ hmem
    · exact fun hmem => ⟨rfl, rfl, old.revision, hrevision, hmem⟩
  | some links =>
    rw [hlinks, Option.isSome_some, Option.isSome_iff_exists] at hboth
    obtain ⟨draft, hdraft⟩ := hboth
    rw [hdraft] at hsource
    have hnames := hsubmitted links hlinks draft hdraft
    rw [show new.source = draft.source from hsource.1, ← hnames]
    constructor
    · rintro (⟨-, hother⟩ | ⟨id', hid', heq⟩)
      · exact absurd ⟨rfl, rfl⟩ hother
      · rwa [(RevisionAttachmentRow.mk.inj heq).2.2]
    · exact fun hid => Or.inr ⟨id, hid, rfl⟩

/-- A committed command leaves every history complete. -/
theorem HistoryComplete.command (h : db.HistoryComplete restored) (hexec : c.exec db = .ok db') :
    db'.HistoryComplete restored := by
  obtain ⟨new, happends⟩ := NoteCommand.exec_appends_history hexec
  obtain ⟨first, before, hfirst, hle, hbefore, hrevisions⟩ := h.before happends
  have hmem : ∀ r, r ∈ db'.noteRevisions ↔
      r ∈ db.noteRevisions ∨ r = new.toRevisionRow c.principalId c.kind :=
    fun r => Table.mem_insert? happends.revisions
  have hnotes : ∀ note, note ∈ db'.notes ↔
      note = new ∨ note ∈ db.notes ∧ note.noteId ≠ new.noteId := by
    intro note
    refine Table.mem_of_find_replaced (r := new) (t := db.notes) fun n => ?_
    rw [happends.notes, ← happends.noteId]
    rfl
  have hstored : new ∈ db'.notes := (hnotes new).mpr (Or.inl rfl)
  refine ⟨fun note hnote => ?_, fun note hnote => ?_, fun r hr => ?_, fun shown hshown => ?_,
    h.stored.noteCommand hexec⟩
  · rcases (hnotes note).mp hnote with rfl | ⟨hnote, hother⟩
    · refine ⟨first, hfirst, fun k => ?_⟩
      have hiff := hrevisions k
      rw [happends.noteId, hbefore]
      constructor
      · rintro ⟨r, hr, hid, rfl⟩
        rcases (hmem r).mp hr with hr | rfl
        · have := hiff.mp ⟨r, hr, hid, rfl⟩
          omega
        · simp only [NoteRow.toRevisionRow]
          omega
      · rintro ⟨hlow, hhigh⟩
        by_cases hk : k ≤ before
        · obtain ⟨r, hr, hid⟩ := hiff.mpr ⟨hlow, hk⟩
          exact ⟨r, (hmem r).mpr (Or.inl hr), hid⟩
        · refine ⟨_, (hmem _).mpr (Or.inr rfl), happends.noteId, ?_⟩
          simp only [NoteRow.toRevisionRow]
          omega
    · obtain ⟨first, hfirst, hiff⟩ := h.revisions note hnote
      refine ⟨first, hfirst, fun k => ?_⟩
      rw [← hiff]
      constructor
      · rintro ⟨r, hr, hid, hrevision⟩
        rcases (hmem r).mp hr with hr | rfl
        · exact ⟨r, hr, hid, hrevision⟩
        · exact absurd hid.symm hother
      · rintro ⟨r, hr, hid⟩
        exact ⟨r, (hmem r).mpr (Or.inl hr), hid⟩
  · rcases (hnotes note).mp hnote with rfl | ⟨hnote, -⟩
    · exact ⟨_, _, (hmem _).mpr (Or.inr rfl)⟩
    · obtain ⟨changedBy, kind, hlatest⟩ := h.latest note hnote
      exact ⟨changedBy, kind, (hmem _).mpr (Or.inl hlatest)⟩
  · rcases (hmem r).mp hr with hr | rfl
    · obtain ⟨note, hnote, hid⟩ := h.notes r hr
      by_cases hsame : note.noteId = new.noteId
      · exact ⟨new, hstored, hsame.symm.trans hid⟩
      · exact ⟨note, (hnotes note).mpr (Or.inr ⟨hnote, hsame⟩), hid⟩
    · exact ⟨new, hstored, rfl⟩
  · by_cases hother : shown.noteId = c.noteId ∧ shown.revision = new.revision
    · refine ⟨_, (hmem _).mpr (Or.inr rfl), ?_, hother.2.symm⟩
      exact happends.noteId.trans hother.1.symm
    · obtain ⟨r, hr, hid⟩ := h.shownBy shown ((happends.shown_other hother).mp hshown)
      exact ⟨r, (hmem r).mpr (Or.inl hr), hid⟩

theorem ShowsSources.command (hshows : db.ShowsSources images) (h : db.HistoryComplete restored)
    (hsubmitted : c.Submitted images) (hexec : c.exec db = .ok db') :
    db'.ShowsSources images := by
  obtain ⟨new, happends⟩ := NoteCommand.exec_appends_history hexec
  obtain ⟨first, before, -, -, hbefore, hrevisions⟩ := h.before happends
  intro r hr id
  rcases (Table.mem_insert? happends.revisions).mp hr with hr | rfl
  · rw [← hshows r hr id]
    refine happends.shown_other fun ⟨hid, hrevision⟩ => ?_
    have := ((hrevisions r.revision).mp ⟨r, hr, hid, rfl⟩).2
    dsimp only at hrevision
    omega
  · show ⟨new.noteId, new.revision, id⟩ ∈ db'.noteRevisionAttachments ↔ _
    rw [happends.noteId]
    exact h.shown_new hshows hsubmitted happends id

/-- Images come and go as long as those that revisions show stay. -/
theorem HistoryComplete.congr (h : db.HistoryComplete restored) (hnotes : db'.notes = db.notes)
    (hrevisions : db'.noteRevisions = db.noteRevisions)
    (hshown : db'.noteRevisionAttachments = db.noteRevisionAttachments)
    (hstored : db'.ForeignKeys) : db'.HistoryComplete restored where
  revisions := by
    rw [hnotes, hrevisions]
    exact h.revisions
  latest := by
    rw [hnotes, hrevisions]
    exact h.latest
  notes := by
    rw [hnotes, hrevisions]
    exact h.notes
  shownBy := by
    rw [hrevisions, hshown]
    exact h.shownBy
  stored := hstored

theorem ShowsSources.congr (h : db.ShowsSources images)
    (hrevisions : db'.noteRevisions = db.noteRevisions)
    (hshown : db'.noteRevisionAttachments = db.noteRevisionAttachments) :
    db'.ShowsSources images := by
  unfold ShowsSources
  rw [hrevisions, hshown]
  exact h

/-- A purge takes whole histories. -/
theorem HistoryComplete.withoutNotes (h : db.HistoryComplete restored) {ns : List NoteId}
    (hwithout : db.WithoutNotes db' ns)
    (hunshown : ∀ shown ∈ db.noteRevisionAttachments, shown.noteId ∉ ns)
    (hstored : db'.ForeignKeys) : db'.HistoryComplete restored where
  revisions note hnote := by
    obtain ⟨hnote, hkept⟩ := (hwithout.notes note).mp hnote
    obtain ⟨first, hfirst, hiff⟩ := h.revisions note hnote
    refine ⟨first, hfirst, fun k => ?_⟩
    rw [← hiff]
    constructor
    · rintro ⟨r, hr, hid⟩
      exact ⟨r, ((hwithout.noteRevisions r).mp hr).1, hid⟩
    · rintro ⟨r, hr, hid, hrevision⟩
      exact ⟨r, (hwithout.noteRevisions r).mpr ⟨hr, hid ▸ hkept⟩, hid, hrevision⟩
  latest note hnote := by
    obtain ⟨hnote, hkept⟩ := (hwithout.notes note).mp hnote
    obtain ⟨changedBy, kind, hlatest⟩ := h.latest note hnote
    exact ⟨changedBy, kind, (hwithout.noteRevisions _).mpr ⟨hlatest, hkept⟩⟩
  notes r hr := by
    obtain ⟨hr, hkept⟩ := (hwithout.noteRevisions r).mp hr
    obtain ⟨note, hnote, hid⟩ := h.notes r hr
    exact ⟨note, (hwithout.notes note).mpr ⟨hnote, hid ▸ hkept⟩, hid⟩
  shownBy shown hshown := by
    rw [hwithout.noteRevisionAttachments] at hshown
    obtain ⟨r, hr, hid, hrevision⟩ := h.shownBy shown hshown
    exact ⟨r, (hwithout.noteRevisions r).mpr ⟨hr, hid ▸ hunshown shown hshown⟩, hid, hrevision⟩
  stored := hstored

theorem ShowsSources.withoutNotes (h : db.ShowsSources images) {ns : List NoteId}
    (hwithout : db.WithoutNotes db' ns) : db'.ShowsSources images := by
  intro r hr id
  rw [hwithout.noteRevisionAttachments]
  exact h r ((hwithout.noteRevisions r).mp hr).1 id

/-- A purge of notes that succeeded, unless it failed. -/
theorem ForeignKeys.purge_cases (hkeys : db.ForeignKeys) (cutoff : ℤ) :
    (∃ e, db.purgeDeletedBefore cutoff = .error e) ∨
      ∃ count db' ns, db.purgeDeletedBefore cutoff = .ok (count, db') ∧ db.WithoutNotes db' ns ∧
        (∀ n, n ∈ ns ↔ db.Expired cutoff n) ∧
        ∀ shown ∈ db.noteRevisionAttachments, shown.noteId ∉ ns := by
  by_cases hshown : ∃ shown ∈ db.noteRevisionAttachments, db.Expired cutoff shown.noteId
  · exact Or.inl (purgeDeletedBefore_error hkeys hshown)
  · have hnone : ∀ shown ∈ db.noteRevisionAttachments, ¬db.Expired cutoff shown.noteId :=
      fun shown hmem hexpired => hshown ⟨shown, hmem, hexpired⟩
    obtain ⟨count, db', ns, hpurge, hwithout, hns⟩ := purgeDeletedBefore_ok hnone
    refine Or.inr ⟨count, db', ns, hpurge, hwithout, hns, fun shown hmem => ?_⟩
    rw [hns]
    exact hnone shown hmem

end Database

/-! ## Runs -/

namespace StoreOperation

variable {lib : AttachmentLibrary}

/-- The commands among the operations come with the images their sources name. -/
def Submitted (images : String → List AttachmentId) : StoreOperation lib → Prop
  | command c => c.Submitted images
  | login _ | attachment _ | purgeAttachments _ | purgeNotes _ | elsewhere _ => True

instance (images : String → List AttachmentId) (op : StoreOperation lib) :
    Decidable (op.Submitted images) := by
  cases op <;> unfold Submitted <;> infer_instance

/-- A step of the service. -/
def SubmittedStep (images : String → List AttachmentId) (db : Database) (op : StoreOperation lib)
    (db' : Database) : Prop :=
  op.Submitted images ∧ db' = op.apply db

end StoreOperation

namespace Database

variable {restored : Prop} {images : String → List AttachmentId} {db db' : Database}
  {lib : AttachmentLibrary} {moves : List (Move Database (StoreOperation lib))}

theorem HistoryComplete.apply (h : db.HistoryComplete restored) (op : StoreOperation lib) :
    (op.apply db).HistoryComplete restored := by
  cases op with
  | login identity =>
    obtain ⟨principals, identities, heq⟩ := login_eq db identity
    show (db.login identity).HistoryComplete restored
    rw [heq]
    exact h.congr rfl rfl rfl h.stored
  | command c =>
    show (db.commit (c.exec db)).HistoryComplete restored
    cases hexec : c.exec db with
    | error e => exact h
    | ok db' => exact h.command hexec
  | attachment c =>
    show (db.commit (c.exec db)).HistoryComplete restored
    cases hexec : c.exec db with
    | error e => exact h
    | ok db' =>
      have hstored := h.stored.attachmentCommand hexec
      rcases AttachmentCommand.exec_cases hexec with
        ⟨_, _, rows, -, -, -, -, -, -, rfl⟩ | ⟨_, _, -, rfl⟩
      · exact h.congr rfl rfl rfl hstored
      · exact h.congr rfl rfl rfl hstored
  | purgeAttachments cutoff =>
    refine h.congr rfl rfl rfl (h.stored.deleteUnused fun row hrow => ?_)
    rw [decide_eq_true_eq] at hrow
    exact hrow.2
  | purgeNotes cutoff =>
    show (db.commit ((db.purgeDeletedBefore cutoff).map Prod.snd)).HistoryComplete restored
    rcases h.stored.purge_cases cutoff with ⟨e, he⟩ |
      ⟨count, db', ns, hpurge, hwithout, -, hunshown⟩
    · rw [he]
      exact h
    · rw [hpurge]
      exact h.withoutNotes hwithout hunshown (h.stored.purgeDeletedBefore hpurge)
  | elsewhere tables => exact h.congr rfl rfl rfl h.stored

theorem ShowsSources.apply (hshows : db.ShowsSources images) (h : db.HistoryComplete restored)
    {op : StoreOperation lib} (hsubmitted : op.Submitted images) :
    (op.apply db).ShowsSources images := by
  cases op with
  | login identity =>
    obtain ⟨principals, identities, heq⟩ := login_eq db identity
    show (db.login identity).ShowsSources images
    rw [heq]
    exact hshows.congr rfl rfl
  | command c =>
    show (db.commit (c.exec db)).ShowsSources images
    cases hexec : c.exec db with
    | error e => exact hshows
    | ok db' => exact hshows.command h hsubmitted hexec
  | attachment c =>
    show (db.commit (c.exec db)).ShowsSources images
    cases hexec : c.exec db with
    | error e => exact hshows
    | ok db' =>
      rcases AttachmentCommand.exec_cases hexec with
        ⟨_, _, rows, -, -, -, -, -, -, rfl⟩ | ⟨_, _, -, rfl⟩ <;> exact hshows.congr rfl rfl
  | purgeAttachments cutoff => exact hshows.congr rfl rfl
  | purgeNotes cutoff =>
    show (db.commit ((db.purgeDeletedBefore cutoff).map Prod.snd)).ShowsSources images
    rcases h.stored.purge_cases cutoff with ⟨e, he⟩ | ⟨count, db', ns, hpurge, hwithout, -, -⟩
    · rw [he]
      exact hshows
    · rw [hpurge]
      exact hshows.withoutNotes hwithout
  | elsewhere tables => exact hshows.congr rfl rfl

/-- In every state a run reaches, the revisions of a note are the numbers from one to its current
one, the last is the note as it is, and every revision shows the images its source names, all of
them stored with the note. -/
theorem historyComplete_of_run
    (hrun : Run (StoreOperation.SubmittedStep images) empty moves db) :
    db.HistoryComplete False ∧ db.ShowsSources images := by
  refine hrun.invariant (P := fun db => db.HistoryComplete False ∧ db.ShowsSources images) ?_
    ⟨historyComplete_empty, showsSources_empty⟩
  rintro s op t ⟨h, hshows⟩ ⟨hsubmitted, rfl⟩
  exact ⟨h.apply op, hshows.apply h hsubmitted⟩

/-- The rows of a note's history, in order. -/
def historyOf (db : Database) (noteId : NoteId) : List NoteRevisionRow :=
  Table.orderBy NoteRevisionRow.revision (db.noteRevisions.select fun r => r.noteId = noteId)

/-- The numbers of a history, up to that of the note. -/
theorem HistoryComplete.map_historyOf (h : db.HistoryComplete restored) {note : NoteRow}
    (hnote : note ∈ db.notes) : ∃ first, (first = 1 ∨ restored) ∧ first ≤ note.revision ∧
      (db.historyOf note.noteId).map NoteRevisionRow.revision =
        List.range' first (note.revision + 1 - first) := by
  obtain ⟨first, hfirst, hiff⟩ := h.revisions note hnote
  obtain ⟨changedBy, kind, hlatest⟩ := h.latest note hnote
  have hle := ((hiff note.revision).mp ⟨_, hlatest, rfl, rfl⟩).1
  refine ⟨first, hfirst, hle, Table.map_eq_range' Table.pairwise_orderBy ?_ fun k => ?_⟩
  · rw [historyOf, (Table.orderBy_perm.map _).nodup_iff, List.nodup_map_iff_inj_on
      Table.nodup_select.of_map]
    intro r hr r' hr' hrevision
    obtain ⟨hmem, hid⟩ := Table.mem_select.mp hr
    obtain ⟨hmem', hid'⟩ := Table.mem_select.mp hr'
    rw [decide_eq_true_eq] at hid hid'
    exact Table.eq_of_key_eq hmem hmem' (Prod.ext (hid.trans hid'.symm) hrevision)
  · rw [List.mem_map, show first ≤ k ∧ k < first + (note.revision + 1 - first) ↔
      first ≤ k ∧ k ≤ note.revision by omega, ← hiff]
    simp only [historyOf, Table.mem_orderBy, Table.mem_select, decide_eq_true_eq, and_assoc]

/-- The last row of a history is the note as it is. -/
theorem HistoryComplete.getLast?_historyOf (h : db.HistoryComplete restored)
    {note : NoteRow} (hnote : note ∈ db.notes) : ∃ changedBy kind,
    (db.historyOf note.noteId).getLast? = some (note.toRevisionRow changedBy kind) := by
  obtain ⟨first, -, hle, hmap⟩ := h.map_historyOf hnote
  obtain ⟨changedBy, kind, hlatest⟩ := h.latest note hnote
  refine ⟨changedBy, kind, ?_⟩
  cases hlast : (db.historyOf note.noteId).getLast? with
  | none =>
    rw [List.getLast?_eq_none_iff.mp hlast, List.map_nil, eq_comm, List.range'_eq_nil_iff] at hmap
    omega
  | some r =>
    have hr := List.mem_of_getLast? hlast
    rw [historyOf, Table.mem_orderBy, Table.mem_select, decide_eq_true_eq] at hr
    have hrevision : r.revision = note.revision := by
      have hlast' := congrArg List.getLast? hmap
      rw [List.getLast?_map, hlast, List.getLast?_range', if_neg (by omega)] at hlast'
      simp only [Option.map_some, Option.some.injEq] at hlast'
      omega
    exact congrArg some (Table.eq_of_key_eq hr.1 hlatest (Prod.ext hr.2 hrevision))

/-- In every state a run reaches, the revisions of a note are the numbers from one to its current
one, the last of them is the note as it is, and a revision shows exactly the images its source
names, each stored with the note. -/
theorem note_history_complete
    (hrun : Run (StoreOperation.SubmittedStep images) empty moves db) :
    (∀ note ∈ db.notes,
      (db.historyOf note.noteId).map NoteRevisionRow.revision = List.range' 1 note.revision ∧
        ∃ changedBy kind, (db.historyOf note.noteId).getLast? =
          some (note.toRevisionRow changedBy kind)) ∧
      ∀ r ∈ db.noteRevisions, ∀ id,
        (⟨r.noteId, r.revision, id⟩ ∈ db.noteRevisionAttachments ↔ id ∈ images r.source) ∧
          (id ∈ images r.source → ∃ attachment ∈ db.noteAttachments,
            attachment.attachmentId = id ∧ attachment.noteId = r.noteId) := by
  obtain ⟨hcomplete, hshows⟩ := historyComplete_of_run hrun
  refine ⟨fun note hnote => ?_, fun r hr id => ⟨hshows r hr id, fun hid => ?_⟩⟩
  · obtain ⟨first, hfirst, -, hmap⟩ := hcomplete.map_historyOf hnote
    obtain rfl := hfirst.resolve_right id
    exact ⟨hmap, hcomplete.getLast?_historyOf hnote⟩
  · exact hcomplete.stored _ ((hshows r hr id).mpr hid)

/-! ## Revisions stay -/

/-- The revision stays as it is : its row, the images it shows, and these images themselves. -/
structure KeepsRevision (r : NoteRevisionRow) (db db' : Database) : Prop where
  revision : r ∈ db'.noteRevisions
  shown : ∀ id, ⟨r.noteId, r.revision, id⟩ ∈ db'.noteRevisionAttachments ↔
    ⟨r.noteId, r.revision, id⟩ ∈ db.noteRevisionAttachments
  images : ∀ attachment ∈ db.noteAttachments,
    ⟨r.noteId, r.revision, attachment.attachmentId⟩ ∈ db.noteRevisionAttachments →
      attachment ∈ db'.noteAttachments

theorem KeepsRevision.of_subset {r : NoteRevisionRow} (hr : r ∈ db.noteRevisions)
    (hrevisions : db'.noteRevisions = db.noteRevisions)
    (hshown : db'.noteRevisionAttachments = db.noteRevisionAttachments)
    (himages : ∀ attachment ∈ db.noteAttachments,
      ⟨r.noteId, r.revision, attachment.attachmentId⟩ ∈ db.noteRevisionAttachments →
        attachment ∈ db'.noteAttachments) : KeepsRevision r db db' := by
  refine ⟨hrevisions ▸ hr, fun id => ?_, himages⟩
  rw [hshown]

theorem KeepsRevision.of_eq {r : NoteRevisionRow} (hr : r ∈ db.noteRevisions)
    (hrevisions : db'.noteRevisions = db.noteRevisions)
    (hshown : db'.noteRevisionAttachments = db.noteRevisionAttachments)
    (hattachments : db'.noteAttachments = db.noteAttachments) : KeepsRevision r db db' :=
  .of_subset hr hrevisions hshown fun _ hattachment _ => hattachments ▸ hattachment

theorem KeepsRevision.trans {r : NoteRevisionRow} {db'' : Database} (h : KeepsRevision r db db')
    (h' : KeepsRevision r db' db'') : KeepsRevision r db db'' where
  revision := h'.revision
  shown id := (h'.shown id).trans (h.shown id)
  images attachment hattachment hshown :=
    h'.images attachment (h.images attachment hattachment hshown) ((h.shown _).mpr hshown)

/-- A shown image is one of its note. -/
theorem ForeignKeys.noteId_of_shown (hkeys : db.ForeignKeys) {attachment : AttachmentRow}
    (hattachment : attachment ∈ db.noteAttachments) {shown : RevisionAttachmentRow}
    (hshown : shown ∈ db.noteRevisionAttachments)
    (hid : shown.attachmentId = attachment.attachmentId) : attachment.noteId = shown.noteId := by
  obtain ⟨stored, hstored, hstoredId, hnote⟩ := hkeys shown hshown
  have hsame : stored = attachment :=
    Table.eq_of_key_eq hstored hattachment (hstoredId.trans hid)
  exact hsame ▸ hnote

/-- A command adds its revision to those there are. -/
theorem HistoryComplete.keeps_command (h : db.HistoryComplete restored) {c : NoteCommand}
    (hexec : c.exec db = .ok db') {r : NoteRevisionRow} (hr : r ∈ db.noteRevisions) :
    KeepsRevision r db db' := by
  obtain ⟨new, happends⟩ := NoteCommand.exec_appends_history hexec
  obtain ⟨first, before, -, -, hbefore, hrevisions⟩ := h.before happends
  refine ⟨(Table.mem_insert? happends.revisions).mpr (Or.inl hr), fun id => ?_,
    fun attachment hattachment _ => happends.attachments ▸ hattachment⟩
  refine happends.shown_other fun ⟨hid, hrevision⟩ => ?_
  have := ((hrevisions r.revision).mp ⟨r, hr, hid, rfl⟩).2
  dsimp only at hrevision
  omega

/-- A deletion of unused images keeps those of every revision. -/
theorem ForeignKeys.keeps_deleteUnused (hkeys : db.ForeignKeys) {r : NoteRevisionRow}
    (hr : r ∈ db.noteRevisions) {p : AttachmentRow → Bool}
    (hp : ∀ row, p row = true → ¬db.IsReferenced row.noteId row.attachmentId) :
    KeepsRevision r db { db with noteAttachments := db.noteAttachments.deleteWhere p } := by
  refine .of_subset hr rfl rfl fun attachment hattachment hshown => ?_
  refine Table.mem_deleteWhere.mpr ⟨hattachment, ?_⟩
  rw [← Bool.not_eq_true]
  intro hunused
  exact hp attachment hunused ⟨_, hshown, (hkeys.noteId_of_shown hattachment hshown rfl).symm, rfl⟩

/-- An operation keeps a revision, unless it purges its expired note. -/
theorem HistoryComplete.keeps (h : db.HistoryComplete restored) {op : StoreOperation lib}
    {r : NoteRevisionRow} (hr : r ∈ db.noteRevisions)
    (hkept : ∀ cutoff, op = .purgeNotes cutoff → ¬db.Expired cutoff r.noteId) :
    KeepsRevision r db (op.apply db) := by
  cases op with
  | login identity =>
    obtain ⟨principals, identities, heq⟩ := login_eq db identity
    show KeepsRevision r db (db.login identity)
    rw [heq]
    exact .of_eq hr rfl rfl rfl
  | command c =>
    show KeepsRevision r db (db.commit (c.exec db))
    cases hexec : c.exec db with
    | error e => exact .of_eq hr rfl rfl rfl
    | ok db' => exact h.keeps_command hexec hr
  | attachment c =>
    show KeepsRevision r db (db.commit (c.exec db))
    cases hexec : c.exec db with
    | error e => exact .of_eq hr rfl rfl rfl
    | ok db' =>
      rcases AttachmentCommand.exec_cases hexec with
        ⟨_, _, rows, -, -, -, -, -, hinsert, rfl⟩ | ⟨noteId, attachmentId, hunused, rfl⟩
      · exact .of_subset hr rfl rfl fun attachment hattachment _ =>
          (Table.mem_insert? hinsert).mpr (Or.inl hattachment)
      · refine h.stored.keeps_deleteUnused hr fun row hrow => ?_
        simp only [decide_eq_true_eq] at hrow
        rw [hrow.1, hrow.2]
        exact hunused
  | purgeAttachments cutoff =>
    refine h.stored.keeps_deleteUnused hr fun row hrow => ?_
    rw [decide_eq_true_eq] at hrow
    exact hrow.2
  | purgeNotes cutoff =>
    show KeepsRevision r db (db.commit ((db.purgeDeletedBefore cutoff).map Prod.snd))
    rcases h.stored.purge_cases cutoff with ⟨e, he⟩ | ⟨count, db', ns, hpurge, hwithout, hns, -⟩
    · rw [he]
      exact .of_eq hr rfl rfl rfl
    · rw [hpurge]
      have hnote : r.noteId ∉ ns := by
        rw [hns]
        exact hkept cutoff rfl
      refine ⟨(hwithout.noteRevisions r).mpr ⟨hr, hnote⟩, fun id => ?_,
        fun attachment hattachment hshown => ?_⟩
      · show _ ∈ db'.noteRevisionAttachments ↔ _
        rw [hwithout.noteRevisionAttachments]
      · have hid := h.stored.noteId_of_shown hattachment hshown rfl
        exact (hwithout.noteAttachments attachment).mpr ⟨hattachment, hid ▸ hnote⟩
  | elsewhere tables => exact .of_eq hr rfl rfl rfl

/-- A revision that was stored once stays as it is, with its images, as long as no purge meets its
note expired. -/
theorem history_append_only (hrun : Run (StoreOperation.SubmittedStep images) empty moves db)
    {later : List (Move Database (StoreOperation lib))}
    (hlater : Run (StoreOperation.SubmittedStep images) db later db')
    {r : NoteRevisionRow} (hr : r ∈ db.noteRevisions)
    (hkept : ∀ m ∈ later, ∀ cutoff, m.label = .purgeNotes cutoff →
      ¬m.pre.Expired cutoff r.noteId) :
    KeepsRevision r db db' := by
  induction hlater with
  | nil => exact .of_eq hr rfl rfl rfl
  | @snoc t u moves' op hrest hlast ih =>
    have hbefore := ih fun m hm => hkept m (List.mem_append_left _ hm)
    obtain ⟨-, rfl⟩ := hlast
    have hcomplete := (historyComplete_of_run (hrun.append hrest)).1
    exact hbefore.trans (hcomplete.keeps hbefore.revision
      (hkept ⟨t, op, op.apply t⟩ (List.mem_append_right _ (List.mem_singleton_self _))))

/-! ## Restoring a revision -/

/-- A revision that is read is one of the history. -/
theorem exists_revision_of_read {actor : Actor} {noteId : NoteId} {revision : ℕ}
    {view : NoteRevisionView} (h : db.readNoteRevision actor noteId revision = .ok view) :
    ∃ r ∈ db.noteRevisions, r.noteId = noteId ∧ r.revision = revision ∧
      view.revision.note.draft = ⟨r.title, r.source, r.tags⟩ := by
  obtain ⟨found, hfound, h⟩ := Except.bind_eq_ok.mp h
  rw [Except.mapError_eq_ok] at hfound
  cases found with
  | none => cases h
  | some found =>
    obtain rfl := Except.ok.inj h
    unfold noteRevision at hfound
    split at hfound
    · next note r _ hr =>
      split at hfound
      · cases hfound
      · next details hdetails =>
        split at hfound
        · cases hfound
        · obtain ⟨access, -, hfound⟩ := Except.bind_eq_ok.mp hfound
          obtain ⟨snapshot, hsnapshot, hfound⟩ := Except.bind_eq_ok.mp hfound
          cases hfound
          obtain ⟨decoded, hdecoded, hsnapshot⟩ := Except.bind_eq_ok.mp hsnapshot
          cases hsnapshot
          obtain ⟨hid, hrevision⟩ := Prod.mk.inj (Table.key_of_find hr)
          refine ⟨r, Table.mem_of_find hr, hid, hrevision, ?_⟩
          rw [(noteFromRow_eq_ok.mp hdecoded).2.2.2.1]
          obtain ⟨note', -, hdetails⟩ := Option.bind_eq_some_iff.mp hdetails
          obtain ⟨creator, -, hdetails⟩ := Option.bind_eq_some_iff.mp hdetails
          obtain ⟨changedBy, -, hdetails⟩ := Option.bind_eq_some_iff.mp hdetails
          cases hdetails
          rfl
    · cases hfound

/-- Restoring a revision stores its source as the next revision, which shows the images the
restored one shows, and leaves the restored one in the history. -/
theorem restore_note_revision_restores {app : NoteApplication}
    {analysis : String → Except (List NoteValidationDiagnostic) SourceAnalysis}
    (hcontent : app.content = asciiDocContent analysis)
    (hrun : Run (StoreOperation.SubmittedStep app.content.images) empty moves db)
    {actor : Actor} {noteId : NoteId} {revision expectedRevision : ℕ} {policy : NoteWritePolicy}
    {now : ℤ} {note : Note} (h : app.restoreNoteRevision db actor noteId revision expectedRevision
      policy now = .ok (note, db')) :
    ∃ r ∈ db.noteRevisions, r.noteId = noteId ∧ r.revision = revision ∧ r ∈ db'.noteRevisions ∧
      ∃ new ∈ db'.notes, new.noteId = noteId ∧ new.revision = expectedRevision + 1 ∧
        new.source = r.source ∧ ∀ id,
          ⟨noteId, new.revision, id⟩ ∈ db'.noteRevisionAttachments ↔
            ⟨noteId, revision, id⟩ ∈ db.noteRevisionAttachments := by
  obtain ⟨hcomplete, hshows⟩ := historyComplete_of_run hrun
  obtain ⟨historical, validated, hread, hsource, hsubmitted, hexec⟩ :=
    restoreNoteRevision_submits hcontent h
  obtain ⟨r, hr, rfl, rfl, hdraft⟩ := exists_revision_of_read hread
  obtain ⟨new, happends⟩ := NoteCommand.exec_appends_history hexec
  have hkept := (hcomplete.keeps_command hexec hr).revision
  have hnew : new ∈ db'.notes := Table.mem_of_find (k := r.noteId) <| by
    rw [happends.notes]
    exact if_pos rfl
  rcases happends.cases with ⟨hcreated, -⟩ | ⟨old, -, hguard, heq⟩
  · cases hcreated
  have hsame : new.source = r.source := by
    rw [heq]
    exact hsource.trans (congrArg NoteDraft.source hdraft)
  refine ⟨r, hr, rfl, rfl, hkept, new, hnew, happends.noteId, ?_, hsame, fun id => ?_⟩
  · obtain ⟨hexpected, hset⟩ := hguard.revision_eq
    rw [heq, hset, hexpected]
    rfl
  · rw [hshows r hr id, ← hsame]
    exact hcomplete.shown_new hshows hsubmitted happends id

/-! ## A note whose image comes and goes -/

/-- The source of the note while it shows the image. -/
def illustratedSource : String := "= A\n\nimage::9[]"

/-- An analysis that finds the image macro of that source. -/
def sampleAnalysis (source : String) : Except (List NoteValidationDiagnostic) SourceAnalysis :=
  .ok ⟨"A", [], [], [], [],
    if source = illustratedSource then [⟨⟨9⟩, ⟨12, 13⟩, ⟨3, 8⟩⟩] else []⟩

def illustratedApplication : NoteApplication where
  content := asciiDocContent sampleAnalysis
  attachments := asciiLibrary
  json := ⟨fun _ => "", fun _ => none⟩
  aclIssuer := "https://id.example.test"

/-- Alice creates a note, uploads an image, shows it, takes it out of the source again, deletes
the note and restores it. -/
def illustrateAndRestore : List (StoreOperation asciiLibrary) :=
  [.login alice.authenticatedIdentity,
    .command (.create alice ⟨7⟩ ⟨"A", "= A", []⟩ ⟨[], [], []⟩ 100 .web),
    .attachment (.create alice figure),
    .command (.update alice ⟨7⟩ 1 ⟨"A", illustratedSource, []⟩ ⟨[], [], [⟨9⟩]⟩ 200),
    .command (.update alice ⟨7⟩ 2 ⟨"A", "= A", []⟩ ⟨[], [], []⟩ 300),
    .command (.softDelete alice ⟨7⟩ 3 400),
    .command (.restore alice ⟨7⟩ 4 500)]

/-- The database after that. -/
def restoredNote : Database := illustrateAndRestore.foldl StoreOperation.apply empty

theorem run_illustrated (labels : List (StoreOperation asciiLibrary))
    (hlabels : ∀ op ∈ labels, op.Submitted illustratedApplication.content.images) (db : Database) :
    Run (StoreOperation.SubmittedStep illustratedApplication.content.images) db
      (Run.trace StoreOperation.apply db labels) (labels.foldl StoreOperation.apply db) :=
  Run.run_trace_of_legal StoreOperation.apply db labels
    fun _ hm => hlabels _ (Run.label_mem_of_mem_trace hm)

theorem run_restoredNote :
    Run (StoreOperation.SubmittedStep illustratedApplication.content.images) empty
      (Run.trace StoreOperation.apply empty illustrateAndRestore) restoredNote :=
  run_illustrated _ (by decide +kernel) _

/-- Five revisions are left of it, and the second one shows the image. -/
theorem note_history_complete_restoredNote :
    (restoredNote.historyOf ⟨7⟩).map NoteRevisionRow.revision = [1, 2, 3, 4, 5] ∧
      ⟨⟨7⟩, 2, ⟨9⟩⟩ ∈ restoredNote.noteRevisionAttachments := by
  obtain ⟨hnotes, hshown⟩ := note_history_complete run_restoredNote
  have hnote : ⟨⟨7⟩, ⟨1⟩, "A", "= A", [], 100, 500, 5, none, .web, true, none⟩ ∈
      restoredNote.notes := by decide +kernel
  have hsecond : ⟨⟨7⟩, 2, 200, ⟨1⟩, .contentUpdated, "A", illustratedSource, [], none, true,
      none⟩ ∈ restoredNote.noteRevisions := by decide +kernel
  exact ⟨(hnotes _ hnote).1, (hshown _ hsecond ⟨9⟩).1.mpr (by decide +kernel)⟩

/-- The revision with the image is there from the update on. -/
theorem history_append_only_restoredNote :
    KeepsRevision ⟨⟨7⟩, 2, 200, ⟨1⟩, .contentUpdated, "A", illustratedSource, [], none, true, none⟩
      ((illustrateAndRestore.take 4).foldl StoreOperation.apply empty) restoredNote := by
  refine history_append_only (run_illustrated (illustrateAndRestore.take 4) (by decide +kernel)
    empty) (run_illustrated (illustrateAndRestore.drop 4) (by decide +kernel) _)
    (by decide +kernel) fun m hm cutoff hlabel => ?_
  have hlabels : ∀ op ∈ illustrateAndRestore.drop 4, op ≠ .purgeNotes cutoff := by
    simp [illustrateAndRestore]
  exact absurd hlabel (hlabels _ (Run.label_mem_of_mem_trace hm))

/-- Restoring that revision brings the image back. -/
theorem restore_note_revision_restores_illustrated : ∃ note db',
    illustratedApplication.restoreNoteRevision restoredNote alice ⟨7⟩ 2 5 .allowAdvisories 600 =
      .ok (note, db') ∧ ∃ r ∈ restoredNote.noteRevisions, r.noteId = ⟨7⟩ ∧ r.revision = 2 ∧
        r ∈ db'.noteRevisions ∧ ∃ new ∈ db'.notes, new.noteId = ⟨7⟩ ∧ new.revision = 6 ∧
          new.source = r.source ∧ ∀ id, ⟨⟨7⟩, new.revision, id⟩ ∈ db'.noteRevisionAttachments ↔
            ⟨⟨7⟩, 2, id⟩ ∈ restoredNote.noteRevisionAttachments := by
  obtain ⟨⟨note, db'⟩, hrestored⟩ : ∃ restored, illustratedApplication.restoreNoteRevision
      restoredNote alice ⟨7⟩ 2 5 .allowAdvisories 600 = .ok restored :=
    Except.exists_eq_ok (by decide +kernel)
  exact ⟨note, db', hrestored, restore_note_revision_restores rfl run_restoredNote hrestored⟩

end Database

end Marginalis
