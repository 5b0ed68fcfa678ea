import Marginalis.Cleanup
import Marginalis.LibraryRuns
import Marginalis.ProjectionLog
import Marginalis.TimedLog
import Marginalis.Webhooks

/-!
# The times of recorded changes

Each trigger fills `occurred_at_ms` from a column of the row it fires on : the new row of an
insert or an update, the note of a grant, the old row of a deleted library item. A command
writes its clock reading to these columns first (`NoteCommand.exec_appends`,
`applyImport_appends`), but the deletion of an item writes nothing, so its change has the time
of the item's last update (`deleteBibliographyItemRow_appends`).

`change_time_law_iff` says for a whole run what that means : its changes have the readings of
their operations exactly when every item is deleted at the reading of its last update.
-/

namespace Marginalis

/-! ## The log of changes -/

/-- `domain_changes` as a log. -/
def Database.changeLog (db : Database) : TimedLog DomainChangeRow :=
  ⟨{row | row ∈ db.domainChanges}, db.lastChangeSequence⟩

/-- Everything the second database has recorded more, it recorded at `now`. -/
def Database.AppendsAt (now : ℤ) (db db' : Database) : Prop :=
  TimedLog.Appends DomainChangeRow.changeSequence (fun row => row.occurredAt) now db.changeLog
    db'.changeLog

namespace Database

variable {db db' db'' : Database} {now : ℤ}

theorem AppendsAt.trans (h : db.AppendsAt now db') (h' : db'.AppendsAt now db'') :
    db.AppendsAt now db'' := TimedLog.Appends.trans h h'

theorem AppendsAt.logBounded (h : db.AppendsAt now db') (hdb : db.LogBounded) : db'.LogBounded :=
  TimedLog.Appends.bounded h hdb

theorem appendsAt_of_eq (hchanges : db'.domainChanges = db.domainChanges)
    (hlast : db'.lastChangeSequence = db.lastChangeSequence) : db.AppendsAt now db' := by
  unfold AppendsAt changeLog
  rw [hchanges, hlast]
  exact TimedLog.Appends.refl _

/-- A change is recorded at its own time, after any write to other tables. -/
theorem appendsAt_recordChange {db₀ : Database} {c : DomainChange} (hdb : db.LogBounded)
    (hchanges : db₀.domainChanges = db.domainChanges)
    (hlast : db₀.lastChangeSequence = db.lastChangeSequence) (hnow : c.occurredAt = now) :
    db.AppendsAt now (db₀.recordChange c) := by
  have hsame : db.AppendsAt now db₀ := appendsAt_of_eq hchanges hlast
  have hdb₀ := hsame.logBounded hdb
  refine hsame.trans ⟨fun _ hrow => (mem_recordChange hdb₀).mpr (Or.inl hrow), Nat.le_succ _, ?_⟩
  intro row hrow
  rcases (mem_recordChange hdb₀).mp hrow with hrow | rfl
  · exact Or.inl hrow
  · exact Or.inr ⟨Nat.lt_succ_self _, le_rfl, hnow⟩

/-! ## Note commands -/

theorem appendsAt_recordAccessChange (hdb : db.LogBounded) (kind : ChangeKind) {row : AclRow}
    (hnow : ∀ note, db.notes.find row.noteId = some note → note.updatedAt = now) :
    db.AppendsAt now (db.recordAccessChange kind row) := by
  unfold recordAccessChange
  split
  · next note hnote =>
    exact appendsAt_recordChange hdb rfl rfl (hnow note hnote)
  · exact appendsAt_of_eq rfl rfl

theorem appendsAt_deleteAclRow (hdb : db.LogBounded) {row : AclRow}
    (hnow : ∀ note, db.notes.find row.noteId = some note → note.updatedAt = now) :
    db.AppendsAt now (db.deleteAclRow row) := by
  unfold deleteAclRow
  have hsame : db.AppendsAt now { db with noteAcl := db.noteAcl.deleteWhere fun r =>
      r.noteId = row.noteId ∧ r.principalId = row.principalId } := appendsAt_of_eq rfl rfl
  exact hsame.trans (appendsAt_recordAccessChange (hsame.logBounded hdb) .noteAccessRevoked hnow)

theorem appendsAt_insertAclRow (hdb : db.LogBounded) {row : AclRow}
    (hnow : ∀ note, db.notes.find row.noteId = some note → note.updatedAt = now)
    (h : db.insertAclRow row = .ok db') : db.AppendsAt now db' := by
  obtain ⟨note, acl, -, -, -, -, rfl⟩ := insertAclRow_eq_ok.mp h
  have hsame : db.AppendsAt now { db with noteAcl := acl } := appendsAt_of_eq rfl rfl
  exact hsame.trans (appendsAt_recordAccessChange (hsame.logBounded hdb) .noteAccessGranted hnow)

theorem appendsAt_deleteAclRows (hdb : db.LogBounded) {rows : List AclRow}
    (hnow : ∀ row ∈ rows, ∀ note, db.notes.find row.noteId = some note → note.updatedAt = now) :
    db.AppendsAt now (rows.foldl deleteAclRow db) := by
  induction rows generalizing db with
  | nil => exact appendsAt_of_eq rfl rfl
  | cons row rows ih =>
    have hfirst := appendsAt_deleteAclRow hdb (hnow row (List.mem_cons_self ..))
    refine hfirst.trans (ih (hfirst.logBounded hdb) fun r hr => ?_)
    rw [(sameContent_deleteAclRow db row).notes]
    exact hnow r (List.mem_cons_of_mem _ hr)

end Database

namespace NoteCommand

variable {c : NoteCommand} {db db' written shared : Database}

/-- Every command stamps the row it writes. -/
theorem Writes.appendsAt (hdb : db.LogBounded) (h : c.Writes db written) :
    db.AppendsAt c.reading written ∧
      ∀ note, written.notes.find c.noteId = some note → note.updatedAt = c.reading := by
  cases h with
  | insert hnew h =>
    obtain ⟨notes, -, -, hinsert, rfl⟩ := Database.insertNoteRow_eq_ok.mp h
    cases c with
    | create actor noteId draft links createdAt createdVia =>
      cases hnew
      refine ⟨Database.appendsAt_recordChange hdb rfl rfl rfl, ?_⟩
      intro note hnote
      have hfind := Table.find_insert? hinsert noteId
      have hkey : Keyed.key (Note.create noteId actor.principal draft createdAt createdVia).toRow =
          noteId := rfl
      rw [if_pos hkey] at hfind
      cases hfind.symm.trans hnote
      rfl
    | update | restoreRevision | softDelete | restore | replaceAcl | markReviewed => cases hnew
  | @update old _ hold hguard h =>
    obtain ⟨-, rfl⟩ := Database.updateNoteRow_eq_ok.mp h
    have htime : (c.set old).updatedAt = c.reading := by
      cases c with
      | create => exact hguard.elim
      | update | restoreRevision | softDelete | restore | replaceAcl | markReviewed => rfl
    have hid : (c.set old).noteId = c.noteId := noteId_set.trans (Table.key_of_find hold)
    constructor
    · exact Database.appendsAt_recordChange hdb rfl rfl htime
    · intro note hnote
      have hnote : (db.notes.upsert (c.set old)).find c.noteId = some note := hnote
      rw [Table.find_upsert, if_pos (show Keyed.key (c.set old) = c.noteId from hid)] at hnote
      cases hnote
      exact htime

theorem Shares.appendsAt (hdb : db.LogBounded) (h : c.Shares db shared) {now : ℤ}
    (hnow : ∀ note, db.notes.find c.noteId = some note → note.updatedAt = now) :
    db.AppendsAt now shared := by
  unfold Shares at h
  cases hentries : c.entries with
  | none =>
    rw [hentries] at h
    subst h
    exact Database.appendsAt_of_eq rfl rfl
  | some entries =>
    rw [hentries] at h
    have hdeleted := Database.sameContent_deleteAclRows
      (db.noteAcl.select fun row => row.noteId = c.noteId) db
    refine (Except.foldlM_invariant (P := fun s => db.AppendsAt now s ∧ s.notes = db.notes) h
      ⟨Database.appendsAt_deleteAclRows hdb fun row hrow => ?_, hdeleted.notes⟩ ?_).1
    · have hid : row.noteId = c.noteId := by simpa using (Table.mem_select.mp hrow).2
      rw [hid]
      exact hnow
    · rintro s entry t - ⟨hs, hnotes⟩ hstep
      have ht := Database.sameContent_insertAclRow hstep
      refine ⟨hs.trans (Database.appendsAt_insertAclRow (hs.logBounded hdb) ?_ hstep),
        ht.notes.trans hnotes⟩
      rw [hnotes]
      exact hnow

/-- A committed note command records its changes at its own reading. -/
theorem exec_appendsAt (hdb : db.LogBounded) (h : c.exec db = .ok db') :
    db.AppendsAt c.reading db' := by
  obtain ⟨written, shared, references, citations, revisions, attachments, hw, hs, rfl⟩ := exec_eq h
  obtain ⟨hwritten, hnow⟩ := hw.appendsAt hdb
  have hshared := hs.appendsAt (hwritten.logBounded hdb) hnow
  exact (hwritten.trans hshared).trans (Database.appendsAt_of_eq rfl rfl)

end NoteCommand

/-! ## The library -/

namespace Database

variable {db db' : Database} {now : ℤ} {actor : Actor}

theorem insertItem_appendsAt (hdb : db.LogBounded) {new : BibliographyItemRow}
    (h : db.insertItem new = .ok db') : db.AppendsAt new.updatedAt db' := by
  unfold insertItem at h
  split_ifs at h
  obtain ⟨items, -, rfl⟩ := insertBibliographyItemRow_eq_ok (Except.mapError_eq_ok.mp h)
  exact appendsAt_recordChange hdb rfl rfl rfl

theorem updateBibliographyItemRow_appendsAt (hdb : db.LogBounded) {old new : BibliographyItemRow}
    (h : db.updateBibliographyItemRow old new = .ok db') : db.AppendsAt new.updatedAt db' := by
  rcases updateBibliographyItemRow_eq_ok h with ⟨-, rfl⟩ | ⟨-, rfl⟩
  · exact appendsAt_of_eq rfl rfl
  · exact appendsAt_recordChange hdb rfl rfl rfl

theorem writeOwnedItem_appendsAt (hdb : db.LogBounded) {json : JsonCodec}
    {itemId : BibliographyItemId} {csl : ValidatedCslJson json} {revision : ℕ}
    (h : db.writeOwnedItem actor itemId csl now revision = .ok db') : db.AppendsAt now db' := by
  unfold writeOwnedItem at h
  split at h
  · cases h
  · dsimp only at h
    split_ifs at h
    exact updateBibliographyItemRow_appendsAt hdb (Except.mapError_eq_ok.mp h)

/-- The change of a deleted item has the time of its last update. -/
theorem deleteBibliographyItemRow_appendsAt (hdb : db.LogBounded) (old : BibliographyItemRow) :
    db.AppendsAt old.updatedAt (db.deleteBibliographyItemRow old) :=
  appendsAt_recordChange hdb rfl rfl rfl

end Database

/-- Every command of the library records its change at its own reading, but the deletion of an
item. -/
theorem LibraryCommand.exec_appendsAt {json : JsonCodec} {db : Database} {now : ℤ}
    (hdb : db.LogBounded) (c : LibraryCommand) :
    db.AppendsAt now (c.exec json db now).2 ∨ ∃ actor itemId revision old,
      c = .delete actor itemId revision ∧ db.ownedItem actor itemId revision = some old ∧
        (c.exec json db now).2 = db.deleteBibliographyItemRow old := by
  have hrefl : db.AppendsAt now db := Database.appendsAt_of_eq rfl rfl
  cases c with
  | add actor cslJson itemId =>
    left
    unfold exec
    dsimp only
    split
    · exact hrefl
    · split
      · exact hrefl
      · next written hwritten => exact Database.insertItem_appendsAt hdb hwritten
  | update actor itemId revision cslJson =>
    left
    unfold exec
    dsimp only
    split
    · exact hrefl
    · unfold Database.updateOwnedItem
      split
      · exact hrefl
      · next written hwritten => exact Database.writeOwnedItem_appendsAt hdb hwritten
  | delete actor itemId revision =>
    cases howned : db.ownedItem actor itemId revision with
    | none =>
      left
      simp only [exec, Database.deleteOwnedItem, howned]
      exact hrefl
    | some old =>
      right
      refine ⟨actor, itemId, revision, old, rfl, howned, ?_⟩
      simp only [exec, Database.deleteOwnedItem, howned]

/-! ## Imports -/

/-- The rows a mutation writes carry the time of the import. -/
def BibliographyImportItemMutation.StampedAt {json : JsonCodec} (importedAt : ℤ) :
    BibliographyImportItemMutation json → Prop
  | create item _ => item.updatedAt = importedAt
  | update _ _ _ _ updatedAt => updatedAt = importedAt
  | keep .. => True

theorem Planned.stampedAt {lib : ImportLibrary} {state : BibliographyImportState lib.json}
    {source : BibliographyImportSource} {importedAt : ℤ} {newItemId : BibliographyItemId}
    {value : Json} {validated : ValidatedItem lib} {entry : BibliographyImportEntry}
    {decision : BibliographyImportDecision} {mutation : BibliographyImportItemMutation lib.json}
    (h : Planned lib state source importedAt newItemId value validated entry decision mutation) :
    mutation.StampedAt importedAt := by
  cases h with
  | create | updateLinked | updateCandidate => rfl
  | keepLinked | keepCandidate => trivial

namespace Database

variable {db db' : Database} {now : ℤ} {actor : Actor} {json : JsonCodec}

theorem writeImportedItem_appendsAt (hdb : db.LogBounded)
    {mutation : BibliographyImportItemMutation json} (hstamped : mutation.StampedAt now)
    (h : db.writeImportedItem actor mutation = .ok db') : db.AppendsAt now db' := by
  cases mutation with
  | create item link =>
    unfold writeImportedItem at h
    dsimp only at h
    split_ifs at h
    have hupdated : item.toRow.updatedAt = now := hstamped
    rw [← hupdated]
    exact insertItem_appendsAt hdb h
  | update itemId csl revision link updatedAt =>
    obtain rfl : updatedAt = now := hstamped
    unfold writeImportedItem at h
    dsimp only at h
    split at h
    · cases h
    · exact updateBibliographyItemRow_appendsAt hdb (Except.mapError_eq_ok.mp h)
  | keep revision link =>
    unfold writeImportedItem at h
    dsimp only at h
    split at h
    · cases h
    · cases h
      exact appendsAt_of_eq rfl rfl

theorem applyImport_appendsAt {lib : ImportLibrary} (hdb : db.LogBounded)
    {commit : BibliographyImportCommit lib.json} {result : BibliographyImportResult}
    (hstamped : ∀ mutation ∈ commit.mutations, mutation.StampedAt now)
    (h : db.applyImport lib actor commit = .ok (result, db')) : db.AppendsAt now db' := by
  obtain ⟨-, -, -, revision, stored, hsource, hwritten, -⟩ := applyImport_eq_ok.mp h
  obtain ⟨sources, rfl⟩ := persistSource_eq hsource
  refine Except.foldlM_invariant (P := db.AppendsAt now) hwritten (appendsAt_of_eq rfl rfl) ?_
  intro s mutation t hmutation hs hstep
  obtain ⟨written, hitem, hlink⟩ := Except.bind_eq_ok.mp hstep
  obtain ⟨-, -, -, rfl⟩ := persistLink_eq_ok.mp hlink
  have hwritten := writeImportedItem_appendsAt (hs.logBounded hdb)
    (hstamped mutation hmutation) hitem
  exact (hs.trans hwritten).trans (appendsAt_of_eq rfl rfl)

end Database

/-! ## Runs -/

/-- A move that deletes an item does so at the reading of the item's last update. -/
def DeletesAtUpdate (m : Move Database TimedOperation) : Prop :=
  ∀ actor itemId revision, m.label.operation = .library (.delete actor itemId revision) →
    ∀ old, m.pre.ownedItem actor itemId revision = some old → old.updatedAt = m.label.now

variable {lib : ImportLibrary} {db db' : Database}

theorem Database.importFile_appendsAt (hdb : db.LogBounded) {read : Database} {actor : Actor}
    {input : BibliographyImportInput} {decisions : List BibliographyImportDecision} {token : String}
    {now : ℤ} {sourceId : BibliographyImportSourceId} {itemIds : ℕ → BibliographyItemId} :
    db.AppendsAt now (db.importFile lib read actor input decisions token now sourceId itemIds) := by
  unfold importFile
  split
  · exact appendsAt_of_eq rfl rfl
  · next commit hplan =>
    obtain ⟨preview, state, source, -, -, -, hisplan⟩ := planImport_eq_ok hplan
    cases happly : db.applyImport lib actor commit with
    | error error => exact appendsAt_of_eq rfl rfl
    | ok applied =>
      refine applyImport_appendsAt hdb (fun mutation hmutation => ?_) happly
      obtain ⟨entry, -, value, validated, decision, -, -, -, -, -, -, hmutation⟩ :=
        hisplan.planned mutation hmutation
      exact hmutation.stampedAt

/-- Every operation records its changes at its own reading, or deletes an item. -/
theorem TimedOperation.Step.appendsAt {t : TimedOperation} (hdb : db.LogBounded)
    (h : t.Step lib db db') :
    db.AppendsAt t.now db' ∨ ∃ actor itemId revision old,
      t.operation = .library (.delete actor itemId revision) ∧
        db.ownedItem actor itemId revision = some old ∧ db' = db.deleteBibliographyItemRow old := by
  obtain ⟨now, operation⟩ := t
  obtain ⟨hlegal, rfl⟩ := h
  cases operation with
  | login identity =>
    obtain ⟨principals, identities, heq⟩ := Database.login_eq db identity
    left
    show db.AppendsAt now (db.login identity)
    rw [heq]
    exact Database.appendsAt_of_eq rfl rfl
  | note c =>
    obtain rfl : c.reading = now := hlegal
    left
    show db.AppendsAt c.reading (db.commit (c.exec db))
    cases hexec : c.exec db with
    | error error => exact Database.appendsAt_of_eq rfl rfl
    | ok written => exact c.exec_appendsAt hdb hexec
  | library c =>
    have h : db.AppendsAt now (c.exec lib.json db now).2 ∨ _ := c.exec_appendsAt hdb
    rcases h with h | ⟨a, i, r, old, rfl, hold, h⟩
    · exact Or.inl h
    · exact Or.inr ⟨a, i, r, old, rfl, hold, h⟩
  | «import» => exact Or.inl (Database.importFile_appendsAt hdb)

theorem TimedOperation.Step.logBounded {t : TimedOperation} (hdb : db.LogBounded)
    (h : t.Step lib db db') : db'.LogBounded := by
  rcases h.appendsAt hdb with h | ⟨-, -, -, old, -, -, rfl⟩
  · exact h.logBounded hdb
  · exact (Database.deleteBibliographyItemRow_appendsAt hdb old).logBounded hdb

/-! ## The law -/

/-- The move recorded the change. -/
def Recorded (m : Move Database TimedOperation) (row : DomainChangeRow) : Prop :=
  TimedLog.Appended Database.changeLog m row

/-- Every change has the reading of the operation that recorded it. So the times are in the
order of the numbers, no purge takes a change for older than it is, and a delivery is due
when the change happened. -/
structure ChangeTimeLaw (moves : List (Move Database TimedOperation)) (db : Database) : Prop where
  recorded : ∀ m ∈ moves, ∀ row, Recorded m row → row.occurredAt = m.label.now
  ordered : ∀ a ∈ db.domainChanges, ∀ b ∈ db.domainChanges, a.changeSequence ≤ b.changeSequence →
    a.occurredAt ≤ b.occurredAt
  fresh : ∀ m ∈ moves, ∀ row, Recorded m row → ∀ (db' : Database) (horizon : ℤ),
    horizon < m.label.now →
      db'.purgedChange horizon row = false ∧ db'.purgedWebhookChange horizon row = false
  due : ∀ m ∈ moves, ∀ row, Recorded m row → ∀ s : SubscriptionRow,
    (s.pendingDelivery row).nextAttemptAt = m.label.now

/-- A deletion records a change at the time of the item's last update. -/
theorem recorded_deleteBibliographyItemRow {m : Move Database TimedOperation}
    {old : BibliographyItemRow} (hbound : m.pre.LogBounded)
    (hpost : m.post = m.pre.deleteBibliographyItemRow old) :
    ∃ row, Recorded m row ∧ row.occurredAt = old.updatedAt := by
  set deleted : Database := { m.pre with
    bibliographyItems := m.pre.bibliographyItems.deleteWhere fun row => row.itemId = old.itemId
    bibliographyImportLinks := m.pre.bibliographyImportLinks.deleteWhere fun link =>
      link.itemId = old.itemId ∧ link.owner = old.owner } with hdeleted
  set c : DomainChange := ⟨old.owner, none, .bibliographyItemDeleted, old.itemId.entityId,
    old.revision, old.updatedAt⟩ with hc
  have hbound' : deleted.LogBounded := hbound
  refine ⟨deleted.nextChange c, ⟨?_, fun hold => ?_⟩, rfl⟩
  · have hmem : deleted.nextChange c ∈ (deleted.recordChange c).domainChanges :=
      (Database.mem_recordChange hbound').mpr (Or.inr rfl)
    rw [hpost]
    exact hmem
  · have hle : m.pre.lastChangeSequence + 1 ≤ m.pre.lastChangeSequence := hbound _ hold
    omega

/-- In a run under a clock that does not go back, the changes have the times of their
operations exactly when every item is deleted at the reading of its last update. -/
theorem change_time_law_iff {moves : List (Move Database TimedOperation)}
    (hrun : Run (TimedOperation.Step lib) Database.empty moves db)
    (hclock : (moves.map fun m => m.label.now).Pairwise (· ≤ ·)) :
    ChangeTimeLaw moves db ↔ ∀ m ∈ moves, DeletesAtUpdate m := by
  have hempty : Database.empty.LogBounded := by
    intro row hrow
    cases hrow
  have hbound : ∀ m ∈ moves, m.pre.LogBounded := fun m hm =>
    hrun.invariant_of_mem (fun _ _ _ hs hstep => hstep.logBounded hs) hempty hm
  constructor
  · intro hlaw m hm actor itemId revision hdelete old hold
    have hpost : m.post = m.pre.deleteBibliographyItemRow old := by
      obtain ⟨-, hpost⟩ := (hrun.of_mem hm).2.1
      rw [hpost]
      simp only [TimedOperation.next, hdelete, LibraryCommand.exec, Database.deleteOwnedItem, hold]
    obtain ⟨row, hrow, htime⟩ := recorded_deleteBibliographyItemRow (hbound m hm) hpost
    rw [← htime]
    exact hlaw.recorded m hm row hrow
  · intro hdeletes
    -- A deletion on time appends at its reading too, so every move does.
    have happends : ∀ m ∈ moves, TimedLog.Appends DomainChangeRow.changeSequence
        (fun row => row.occurredAt) m.label.now m.pre.changeLog m.post.changeLog := by
      intro m hm
      rcases (hrun.of_mem hm).2.1.appendsAt (hbound m hm) with
        h | ⟨actor, itemId, revision, old, hdelete, hold, hpost⟩
      · exact h
      · rw [← hdeletes m hm actor itemId revision hdelete old hold, hpost]
        exact Database.deleteBibliographyItemRow_appendsAt (hbound m hm) old
    have hrecorded : ∀ m ∈ moves, ∀ row, Recorded m row → row.occurredAt = m.label.now := by
      intro m hm row hrow
      rcases (happends m hm).new row hrow.1 with hold | ⟨-, -, htime⟩
      · exact absurd hold hrow.2
      · exact htime
    refine ⟨hrecorded, ?_, ?_, fun m hm row hrow _ => hrecorded m hm row hrow⟩
    · intro a ha b hb hle
      have hnone : Database.empty.changeLog.entries = ∅ := Set.eq_empty_of_forall_notMem (by
        intro row hrow
        cases hrow)
      exact TimedLog.time_le_of_seq_le happends hrun hnone hclock ha hb hle
    · intro m hm row hrow db' horizon hlt
      have htime := hrecorded m hm row hrow
      have hnot : ¬row.occurredAt ≤ horizon := by omega
      simp [Database.purgedChange, Database.purgedWebhookChange, hnot]

/-! ## A deletion some time after the last update -/

open Database in
/-- Alice adds an item, saves it again and deletes it. -/
def addUpdateDelete (deletedAt : ℤ) : List TimedOperation :=
  [⟨0, .login alice.authenticatedIdentity⟩,
    ⟨100, .library (.add alice (sampleArticle "doe2024" "First") ⟨1⟩)⟩,
    ⟨200, .library (.update alice ⟨1⟩ 1 (sampleArticle "doe2024" "Second"))⟩,
    ⟨deletedAt, .library (.delete alice ⟨1⟩ 2)⟩]

/-- The documents of the run. -/
def addUpdateDeleteLibrary : ImportLibrary :=
  sampleImportLibrary [sampleArticle "doe2024" "First", sampleArticle "doe2024" "Second"]

def sampleTimedNext (db : Database) (t : TimedOperation) : Database :=
  t.next addUpdateDeleteLibrary db

def addUpdateDeleteMoves (deletedAt : ℤ) : List (Move Database TimedOperation) :=
  Run.trace sampleTimedNext Database.empty (addUpdateDelete deletedAt)

theorem run_addUpdateDelete (deletedAt : ℤ) :
    Run (TimedOperation.Step addUpdateDeleteLibrary) Database.empty (addUpdateDeleteMoves deletedAt)
      ((addUpdateDelete deletedAt).foldl sampleTimedNext Database.empty) := by
  refine Run.run_trace_of_legal sampleTimedNext _ _ fun m hm => ?_
  have hlabel := Run.label_mem_of_mem_trace hm
  simp only [addUpdateDelete, List.mem_cons, List.not_mem_nil, or_false] at hlabel
  rcases hlabel with h | h | h | h <;> rw [h] <;> trivial

/-- The deletion at 5000 is recorded at 200. -/
theorem deletion_recorded_early : ∃ moves db,
    Run (TimedOperation.Step addUpdateDeleteLibrary) Database.empty moves db ∧
      (moves.map fun m => m.label.now).Pairwise (· ≤ ·) ∧ ¬ChangeTimeLaw moves db := by
  refine ⟨_, _, run_addUpdateDelete 5000, by decide +kernel, fun hlaw => ?_⟩
  have hrecorded : ∃ m ∈ addUpdateDeleteMoves 5000, ∃ row ∈ m.post.domainChanges,
      (∀ row' ∈ m.pre.domainChanges, row' ≠ row) ∧ row.occurredAt ≠ m.label.now := by
    decide +kernel
  obtain ⟨m, hm, row, hpost, hpre, hne⟩ := hrecorded
  exact hne (hlaw.recorded m hm row ⟨hpost, fun hold => hpre row hold rfl⟩)

/-- The deletion at 200, the reading of the last update. -/
theorem change_time_law_promptDeletion :
    ChangeTimeLaw (addUpdateDeleteMoves 200)
      ((addUpdateDelete 200).foldl sampleTimedNext Database.empty) := by
  refine (change_time_law_iff (run_addUpdateDelete 200) (by decide +kernel)).mpr ?_
  intro m hm actor itemId revision hdelete old hold
  have hmem := Table.mem_of_find (Database.ownedItem_eq_some.mp hold).1
  simp only [addUpdateDeleteMoves, addUpdateDelete, Run.trace, List.mem_cons, List.not_mem_nil,
    or_false] at hm
  rcases hm with rfl | rfl | rfl | rfl
  · cases hdelete
  · cases hdelete
  · cases hdelete
  · have hstored : ∀ row ∈ (((addUpdateDelete 200).take 3).foldl sampleTimedNext
        Database.empty).bibliographyItems, row.updatedAt = 200 := by decide +kernel
    exact hstored old hmem

end Marginalis
