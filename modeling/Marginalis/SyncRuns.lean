import Marginalis.Cleanup
import Marginalis.NoLostUpdate
import Marginalis.SyncConvergence

/-!
# Convergence of the synchronization

`SyncSystem` is a database, a clock and one client that follows its cursors, and a run
interleaves the requests of the client with logins, note commands, other transactions, the
requests of others and the daily purge. Every transaction but the purge keeps the client
synchronized : a write either leaves a note alone or moves its projection row above any
position there is.

The purge takes projection rows away by the age of their change. A client that is slow in the
first phase keeps its position at the watermark it started with while every page renews its
cursor, so the purge can take a row such a cursor still needs (`SyncSystem.Needs`). The client
converges in the runs where it does not (`sync_converges`), and misses a deletion in one where
it does (`sync_loses_deletion`).
-/

namespace Marginalis

open Database

variable {db db' : Database} {p : PrincipalId} {n : NoteId} {held : Table Note}
  {state : CursorState}

/-! ## The database behind the pages -/

/-- What the pages rely on. -/
structure Database.PagesReady (db : Database) : Prop where
  sync : db.SyncConsistent
  keys : db.ProjectionKeys
  known : db.OwnersKnown

theorem Database.pagesReady_empty : empty.PagesReady :=
  ⟨syncConsistent_empty, projectionKeys_empty, ownersKnown_empty⟩

theorem Statements.pagesReady (hdb : db.PagesReady) (h : Statements db db') : db'.PagesReady := by
  induction h with
  | refl => exact hdb
  | tail _ hstep ih =>
    exact ⟨hstep.syncConsistent ih.sync, hstep.projectionKeys ih.keys, hstep.ownersKnown ih.known⟩

/-- The databases agree on everything the pages read but the cursors. -/
structure Database.SamePages (db db' : Database) : Prop where
  principals : db'.principals = db.principals
  principalIdentities : db'.principalIdentities = db.principalIdentities
  notes : db'.notes = db.notes
  noteAcl : db'.noteAcl = db.noteAcl
  domainChanges : db'.domainChanges = db.domainChanges
  lastChangeSequence : db'.lastChangeSequence = db.lastChangeSequence
  latestNoteChangeSequence : db'.latestNoteChangeSequence = db.latestNoteChangeSequence
  noteSyncProjection : db'.noteSyncProjection = db.noteSyncProjection

namespace Database

theorem visible_congr (hnotes : db'.notes = db.notes) (hacl : db'.noteAcl = db.noteAcl) :
    db'.Visible p n ↔ db.Visible p n := by
  have haccess : db'.CanAccess p n ↔ db.CanAccess p n :=
    canAccess_congr (by rw [hnotes]) (by rw [hacl])
  unfold Visible
  rw [hnotes, haccess]

/-- Fewer projection rows, each with its change still there, are as good. -/
theorem SyncConsistent.of_subset (hdb : db.SyncConsistent) (hnotes : db'.notes = db.notes)
    (hacl : db'.noteAcl = db.noteAcl) (hlast : db'.lastChangeSequence = db.lastChangeSequence)
    (hlatest : db'.latestNoteChangeSequence = db.latestNoteChangeSequence)
    (hrows : ∀ row, row ∈ db'.noteSyncProjection → row ∈ db.noteSyncProjection) :
    db'.SyncConsistent where
  grants := by
    unfold GrantsConsistent
    rw [hnotes, hacl]
    exact hdb.grants
  latest_le := by
    rw [hlast, hlatest]
    exact hdb.latest_le
  row_le := by
    rw [hlatest]
    exact fun row hrow => hdb.row_le row (hrows row hrow)
  upsert_iff := fun row hrow =>
    (hdb.upsert_iff row (hrows row hrow)).trans (visible_congr hnotes hacl).symm

theorem SamePages.pagesReady (hdb : db.PagesReady) (h : db.SamePages db') : db'.PagesReady where
  sync := hdb.sync.of_subset h.notes h.noteAcl h.lastChangeSequence h.latestNoteChangeSequence
    fun _ hrow => h.noteSyncProjection ▸ hrow
  keys := by
    constructor
    · rw [h.domainChanges, h.lastChangeSequence]
      exact hdb.keys.change_le
    · rw [h.domainChanges, h.noteSyncProjection]
      exact hdb.keys.change_of_row
  known := by
    constructor
    · constructor
      · unfold primaryIdentity
        rw [h.principals, h.principalIdentities]
        exact hdb.known.principals.primary
      · rw [h.principals, h.principalIdentities]
        exact hdb.known.principals.principal
    · rw [h.notes, h.principals]
      exact hdb.known.owner

theorem PagesReady.login (hdb : db.PagesReady) (identity : Identity) :
    (db.login identity).PagesReady := by
  have hprincipals := hdb.known.principals.login identity
  have howner := fun row hrow => login_principals db identity (hdb.known.owner row hrow)
  obtain ⟨principals, identities, heq⟩ := login_eq db identity
  rw [heq] at hprincipals howner ⊢
  exact ⟨hdb.sync.of_subset rfl rfl rfl rfl fun _ h => h,
    ⟨hdb.keys.change_le, hdb.keys.change_of_row⟩, ⟨hprincipals, howner⟩⟩

/-! ## What keeps a client synchronized -/

/-- A database in which every note the client holds reads the same keeps it synchronized when
its projection loses no row that is needed. -/
theorem Synced.of_reads (hsynced : db.Synced p held state)
    (hlast : db.lastChangeSequence ≤ db'.lastChangeSequence)
    (hcurrent : ∀ n, db.Current p held n → db'.Current p held n ∨ db'.Pending p state.position n)
    (hpending : ∀ n, state.Covers n → db.Pending p state.position n →
      db'.Current p held n ∨ db'.Pending p state.position n) :
    db'.Synced p held state where
  position_le := hsynced.position_le.trans hlast
  not_held := hsynced.not_held
  current := by
    intro n hn
    rcases hsynced.current n hn with h | h
    · exact hcurrent n h
    · exact hpending n hn h

/-- A copy stays current when the note is visible to the same principals and reads the same. -/
theorem Current.of_reads (hvisible : db'.Visible p n ↔ db.Visible p n)
    (hread : ∀ note, db.Visible p n → db.readNote n = .ok note → db'.readNote n = .ok note)
    (h : db.Current p held n) : db'.Current p held n := by
  unfold Current at h ⊢
  cases hheld : held.find n with
  | none =>
    rw [hheld] at h
    exact fun hv => h (hvisible.mp hv)
  | some note =>
    rw [hheld] at h
    exact ⟨hvisible.mpr h.1, hread note h.1 h.2⟩

theorem SamePages.synced (hsynced : db.Synced p held state) (h : db.SamePages db') :
    db'.Synced p held state := by
  refine hsynced.of_reads (by rw [h.lastChangeSequence]) (fun n hn => Or.inl ?_) fun n _ hn => ?_
  · refine hn.of_reads (visible_congr h.notes h.noteAcl) fun note _ hnote => ?_
    refine readNote_mono (by rw [h.notes]) (fun q identity hq => ?_) hnote
    unfold primaryIdentity
    rw [h.principalIdentities]
    exact hq
  · right
    unfold Pending
    rw [h.noteSyncProjection]
    exact hn

theorem Synced.login (hsynced : db.Synced p held state) (identity : Identity) :
    (db.login identity).Synced p held state := by
  obtain ⟨principals, identities, heq⟩ := login_eq db identity
  have hnotes : (db.login identity).notes = db.notes := by rw [heq]
  have hacl : (db.login identity).noteAcl = db.noteAcl := by rw [heq]
  have hlast : (db.login identity).lastChangeSequence = db.lastChangeSequence := by rw [heq]
  have hrows : (db.login identity).noteSyncProjection = db.noteSyncProjection := by rw [heq]
  refine hsynced.of_reads (by omega) (fun n hn => Or.inl ?_) fun n _ hn => Or.inr ?_
  · refine hn.of_reads (visible_congr hnotes hacl) fun note _ hnote => ?_
    exact readNote_mono (by rw [hnotes])
      (fun q shown h => login_primaryIdentity db identity h) hnote
  · unfold Pending
    rw [hrows]
    exact hn

end Database

/-- A statement leaves what the client knows of a note right, or moves the note above its
position. -/
theorem Statement.synced (hdb : db.PagesReady) (hsynced : db.Synced p held state)
    (h : Statement db db') : db'.Synced p held state := by
  have hidentity : db'.principalIdentities = db.principalIdentities := h.principals.2
  have hmoved : ∀ n, db.Moved db' p n → db'.Pending p state.position n := by
    rintro n ⟨row, hrow, hlt, -⟩
    exact ⟨row, hrow, by have := hsynced.position_le; omega⟩
  refine hsynced.of_reads ?_ (fun n hn => ?_) fun n _ hn => ?_
  · rcases h.sequence with ⟨hlast, -⟩ | ⟨hlast, -⟩ <;> omega
  · rcases h.effect (p := p) (n := n) hdb.sync.grants with hstill | hm
    · left
      refine hn.of_reads hstill.visible_iff fun note hvisible hnote => ?_
      refine readNote_mono (hstill.note hvisible.2) (fun q identity hq => ?_) hnote
      unfold Database.primaryIdentity
      rw [hidentity]
      exact hq
    · exact Or.inr (hmoved n hm)
  · right
    rcases h.effect (p := p) (n := n) hdb.sync.grants with hstill | hm
    · obtain ⟨row, hrow, hlt⟩ := hn
      exact ⟨row, hstill.row.trans hrow, hlt⟩
    · exact hmoved n hm

theorem Statements.synced (hdb : db.PagesReady) (hsynced : db.Synced p held state)
    (h : Statements db db') : db'.Synced p held state := by
  induction h with
  | refl => exact hsynced
  | tail hbefore hstep ih => exact hstep.synced (Statements.pagesReady hdb hbefore) ih

theorem Statements.noteSyncCursors (h : Statements db db') :
    db'.noteSyncCursors = db.noteSyncCursors := by
  induction h with
  | refl => rfl
  | tail _ hstep ih =>
    rcases hstep.recordChange_cases with hsame | ⟨db₀, c, hsame, rfl⟩
    · exact hsame.noteSyncCursors.trans ih
    · exact hsame.noteSyncCursors.trans ih

namespace Database

variable {now cutoff horizon : ℤ}

/-- A row the purge leaves keeps its change. -/
theorem PagesReady.purge (hdb : db.PagesReady) :
    (db.purgeExpiredOperationalState now cutoff).2.PagesReady where
  sync := hdb.sync.of_subset rfl rfl rfl rfl fun _ hrow => (Table.mem_deleteWhere.mp hrow).1
  keys := by
    constructor
    · intro change hchange
      exact hdb.keys.change_le change (Table.mem_deleteWhere.mp hchange).1
    · intro row hrow
      obtain ⟨change, hchange, hseq, hid⟩ :=
        hdb.keys.change_of_row row (Table.mem_deleteWhere.mp hrow).1
      refine ⟨change, Table.mem_deleteWhere.mpr ⟨hchange, ?_⟩, hseq, hid⟩
      unfold purgedChange
      rw [decide_eq_false_iff_not]
      rintro ⟨-, hunused, -⟩
      exact hunused ⟨row, hrow, hseq.symm⟩
  known := ⟨⟨hdb.known.principals.primary, hdb.known.principals.principal⟩, hdb.known.owner⟩

/-- A purge that leaves the rows the client needs keeps it synchronized. -/
theorem Synced.purge (hsynced : db.Synced p held state)
    (hneeded : ∀ row ∈ db.noteSyncProjection, row.principalId = p → state.Covers row.noteId →
      state.position < row.changeSequence → ¬db.Current p held row.noteId →
      db.purgedProjection (saturatingSub now noteSyncCursorRetentionMs) row = false) :
    (db.purgeExpiredOperationalState now cutoff).2.Synced p held state := by
  have hcurrent : ∀ n, db.Current p held n →
      (db.purgeExpiredOperationalState now cutoff).2.Current p held n :=
    fun n hn => hn.of_reads (visible_congr rfl rfl) fun note _ hnote => hnote
  refine hsynced.of_reads (le_refl _) (fun n hn => Or.inl (hcurrent n hn)) ?_
  rintro n hcovers ⟨row, hrow, hlt⟩
  by_cases hn : db.Current p held n
  · exact Or.inl (hcurrent n hn)
  · right
    obtain ⟨hp, rfl⟩ := Prod.mk.inj (Table.key_of_find hrow)
    have hkept := hneeded row (Table.mem_of_find hrow) hp hcovers hlt hn
    refine ⟨row, ?_, hlt⟩
    show (db.noteSyncProjection.deleteWhere _).find _ = _
    rw [Table.find_deleteWhere, hrow]
    exact Option.filter_eq_some_iff.mpr ⟨rfl, by
      show (!db.purgedProjection _ row) = true
      rw [hkept]
      rfl⟩

end Database

/-! ## The system -/

/-- A database, a clock, and a client with the notes it holds and its cursor and the end of
its validity. -/
structure SyncSystem where
  db : Database
  now : ℤ
  held : Table Note
  cursor : Option (String × ℤ)

inductive SyncAction
  | login (identity : Identity)
  | command (c : NoteCommand)
  | elsewhere (db' : Database)
  | request (limit : Option ℕ) (nextCursor : String)
  | otherRequest (actor : Actor) (cursor : Option String) (limit : Option ℕ) (nextCursor : String)
  | purge (unusedClientCutoff : ℤ)

namespace SyncSystem

/-- The database is new and the client has no cursor. -/
def start : SyncSystem := ⟨.empty, i64Min, .empty, none⟩

variable (hashToken : String → Digest) (actor : Actor)

/-- What the store answers to a request of the client. -/
def answer (sys : SyncSystem) (now : ℤ) (limit : Option ℕ) (nextCursor : String) :
    Except NoteUseCaseError (NoteSyncPage × Database) :=
  sys.db.syncNotes hashToken actor (sys.cursor.map Prod.fst) limit nextCursor now

def next (sys : SyncSystem) (now : ℤ) : SyncAction → SyncSystem
  | .login identity => { sys with now := now, db := sys.db.login identity }
  | .command c => { sys with now := now, db := sys.db.commit (c.exec sys.db) }
  | .elsewhere db' => { sys with now := now, db := db' }
  | .request limit nextCursor =>
    match sys.answer hashToken actor now limit nextCursor with
    | .error _ => { sys with now := now }
    | .ok (page, db) =>
      { db := db
        now := now
        held := page.entries.foldl NoteSyncEntry.apply sys.held
        cursor := some (page.nextCursor, page.cursorExpiresAt) }
  | .otherRequest actor cursor limit nextCursor =>
    { sys with
      now := now
      db := sys.db.commit
        ((sys.db.syncNotes hashToken actor cursor limit nextCursor now).map Prod.snd) }
  | .purge cutoff =>
    { sys with now := now, db := (sys.db.purgeExpiredOperationalState now cutoff).2 }

/-- The client asks before its cursor expires. A transaction elsewhere writes the library or
what belongs to a note, or nothing the pages read. -/
def Allowed (sys : SyncSystem) (now : ℤ) : SyncAction → Prop
  | .request .. => ∀ cursor ∈ sys.cursor, now < cursor.2
  | .elsewhere db' => Statements sys.db db' ∨
    sys.db.SamePages db' ∧ db'.noteSyncCursors = sys.db.noteSyncCursors
  | _ => True

/-- One transaction at a time the clock has come to. -/
def Step (sys : SyncSystem) (label : ℤ × SyncAction) (sys' : SyncSystem) : Prop :=
  (sys.now ≤ label.1 ∧ sys.Allowed label.1 label.2) ∧
    sys' = sys.next hashToken actor label.1 label.2

/-- The action is a request that the store answers with the last page of the changes phase. -/
def EndsListing (sys : SyncSystem) (now : ℤ) (action : SyncAction) : Prop :=
  ∃ limit nextCursor page db, action = .request limit nextCursor ∧
    sys.answer hashToken actor now limit nextCursor = .ok (page, db) ∧
    page.phase = .changes ∧ page.hasMore = false

/-- The client holds the notes its principal can see, as they are, and no others. -/
def Converged (sys : SyncSystem) : Prop :=
  ∀ n, sys.db.Current actor.principalId sys.held n

/-- At this time the cursor of the client is valid, has not come to the row, and the client
was listed the note of the row and holds an old copy of it. -/
def Needs (sys : SyncSystem) (now : ℤ) (row : ProjectionRow) : Prop :=
  row.principalId = actor.principalId ∧ ∃ token expiresAt cursor,
    sys.cursor = some (token, expiresAt) ∧ now < expiresAt ∧
    sys.db.noteSyncCursors.find (hashToken token) = some cursor ∧
    cursor.state.Covers row.noteId ∧ cursor.state.position < row.changeSequence ∧
    ¬sys.db.Current actor.principalId sys.held row.noteId

/-- A client is synchronized as long as its cursor is valid. -/
structure Consistent (sys : SyncSystem) : Prop where
  ready : sys.db.PagesReady
  clock : i64Min ≤ sys.now
  idle : sys.cursor = none → ∀ n, sys.held.find n = none
  synced : ∀ token expiresAt, sys.cursor = some (token, expiresAt) → sys.now < expiresAt →
    ∃ cursor, sys.db.noteSyncCursors.find (hashToken token) = some cursor ∧
      cursor.principalId = actor.principalId ∧ cursor.expiresAt = expiresAt ∧
      sys.db.Synced actor.principalId sys.held cursor.state

variable {hashToken actor} {sys sys' : SyncSystem} {now : ℤ} {limit : Option ℕ}
  {nextCursor : String}

theorem consistent_start : start.Consistent hashToken actor where
  ready := pagesReady_empty
  clock := le_refl _
  idle := fun _ n => rfl
  synced := by
    intro token expiresAt hcursor
    cases hcursor

/-- A transaction that leaves the client alone. -/
theorem Consistent.of_db (hsys : sys.Consistent hashToken actor) (hnow : sys.now ≤ now)
    {db' : Database} (hready : db'.PagesReady)
    (hsynced : ∀ token expiresAt cursor, sys.cursor = some (token, expiresAt) → now < expiresAt →
      sys.db.noteSyncCursors.find (hashToken token) = some cursor →
      cursor.expiresAt = expiresAt →
      sys.db.Synced actor.principalId sys.held cursor.state →
      db'.noteSyncCursors.find (hashToken token) = some cursor ∧
        db'.Synced actor.principalId sys.held cursor.state) :
    Consistent hashToken actor { sys with now := now, db := db' } where
  ready := hready
  clock := hsys.clock.trans hnow
  idle := hsys.idle
  synced := by
    intro token expiresAt hcursor hvalid
    obtain ⟨cursor, hfind, hp, hexpires, hs⟩ :=
      hsys.synced token expiresAt hcursor (lt_of_le_of_lt hnow hvalid)
    obtain ⟨hfind', hs'⟩ := hsynced token expiresAt cursor hcursor hvalid hfind hexpires hs
    exact ⟨cursor, hfind', hp, hexpires, hs'⟩

theorem Consistent.of_statements (hsys : sys.Consistent hashToken actor) (hnow : sys.now ≤ now)
    {db' : Database} (h : Statements sys.db db') :
    Consistent hashToken actor { sys with now := now, db := db' } := by
  refine hsys.of_db hnow (Statements.pagesReady hsys.ready h) ?_
  intro token expiresAt cursor hcursor hvalid hfind hexpires hs
  rw [Statements.noteSyncCursors h]
  exact ⟨hfind, Statements.synced hsys.ready hs h⟩

/-- The state a request of the client starts from. -/
theorem Consistent.cursorState (hsys : sys.Consistent hashToken actor) (hnow : sys.now ≤ now)
    (hallowed : ∀ cursor ∈ sys.cursor, now < cursor.2) {state : CursorState}
    (h : sys.db.cursorState hashToken actor.principalId (sys.cursor.map Prod.fst) now = .ok state) :
    sys.db.Synced actor.principalId sys.held state := by
  cases hcursor : sys.cursor with
  | none =>
    rw [hcursor] at h
    cases h
    refine ⟨hsys.ready.sync.latest_le, fun n _ => hsys.idle hcursor n, ?_⟩
    rintro n ⟨a, ha, -⟩
    cases ha
  | some cursor =>
    obtain ⟨token, expiresAt⟩ := cursor
    have hvalid : now < expiresAt := hallowed (token, expiresAt) hcursor
    obtain ⟨row, hfind, hp, hexpires, hs⟩ :=
      hsys.synced token expiresAt hcursor (lt_of_le_of_lt hnow hvalid)
    rw [hcursor] at h
    simp only [Option.map_some, Database.cursorState, hfind] at h
    rw [if_neg (by simp [hp]), if_neg (by omega)] at h
    cases h
    exact hs

/-- A request of the client keeps it synchronized, and the last page of the changes phase
makes it converge. -/
theorem Consistent.request (hsys : sys.Consistent hashToken actor) (hnow : sys.now ≤ now)
    (hallowed : ∀ cursor ∈ sys.cursor, now < cursor.2) {page : NoteSyncPage} {db' : Database}
    (h : sys.answer hashToken actor now limit nextCursor = .ok (page, db')) :
    Consistent hashToken actor (sys.next hashToken actor now (.request limit nextCursor)) ∧
      (page.phase = .changes → page.hasMore = false →
        (sys.next hashToken actor now (.request limit nextCursor)).Converged actor) := by
  obtain ⟨state, size, next, cursors, hsize, hstate, hpage, hphase, htoken, -, hinsert, rfl⟩ :=
    syncNotes_eq_ok h
  have hs := hsys.cursorState hnow hallowed hstate
  have hsame : sys.db.SamePages { sys.db with noteSyncCursors := cursors } :=
    ⟨rfl, rfl, rfl, rfl, rfl, rfl, rfl, rfl⟩
  have hnext : sys.next hashToken actor now (.request limit nextCursor) =
      { db := { sys.db with noteSyncCursors := cursors }
        now := now
        held := page.entries.foldl NoteSyncEntry.apply sys.held
        cursor := some (page.nextCursor, page.cursorExpiresAt) } := by
    simp only [SyncSystem.next, h]
  have hresult : sys.db.Synced actor.principalId
      (page.entries.foldl NoteSyncEntry.apply sys.held) next ∧
      (page.phase = .changes → page.hasMore = false → ∀ n, sys.db.Current actor.principalId
        (page.entries.foldl NoteSyncEntry.apply sys.held) n) := by
    cases hp : state.phase with
    | snapshot =>
      refine ⟨snapshotPage_synced hsys.ready.known hp hsize hs hpage, fun hchanges => ?_⟩
      rw [hphase, hp] at hchanges
      cases hchanges
    | changes =>
      obtain ⟨hsynced, hall⟩ := changesPage_synced hsys.ready.sync hsys.ready.keys
        hsys.ready.known hp hsize hs hpage
      exact ⟨hsynced, fun _ => hall⟩
  rw [hnext]
  constructor
  · refine ⟨hsame.pagesReady hsys.ready, hsys.clock.trans hnow, ?_, ?_⟩
    · intro hnone
      cases hnone
    intro token expiresAt hcursor hvalid
    cases hcursor
    refine ⟨⟨hashToken nextCursor, actor.principalId, next.phase, next.afterNoteId,
      next.afterSequence, next.highWatermark, page.cursorExpiresAt⟩, ?_, rfl, rfl,
      hsame.synced hresult.1⟩
    rw [htoken]
    exact (Table.find_insert? hinsert _).trans (if_pos rfl)
  · intro hchanges hmore n
    exact (hresult.2 hchanges hmore n).of_reads (visible_congr rfl rfl) fun note _ hnote => hnote

/-- Every action keeps the client synchronized, a purge when it takes no row the client needs. -/
theorem Consistent.step {label : ℤ × SyncAction} (hsys : sys.Consistent hashToken actor)
    (hstep : Step hashToken actor sys label sys')
    (hpurge : ∀ cutoff, label.2 = .purge cutoff → ∀ row ∈ sys.db.noteSyncProjection,
      sys.Needs hashToken actor label.1 row →
      sys.db.purgedProjection (saturatingSub label.1 noteSyncCursorRetentionMs) row = false) :
    sys'.Consistent hashToken actor := by
  obtain ⟨now, action⟩ := label
  obtain ⟨⟨hnow, hallowed⟩, rfl⟩ := hstep
  cases action with
  | login identity =>
    refine hsys.of_db hnow (hsys.ready.login identity) ?_
    intro token expiresAt cursor hcursor hvalid hfind hexpires hs
    refine ⟨?_, hs.login identity⟩
    obtain ⟨principals, identities, heq⟩ := login_eq sys.db identity
    rw [heq]
    exact hfind
  | command c =>
    cases hexec : c.exec sys.db with
    | error e =>
      have hnext : sys.next hashToken actor now (.command c) = { sys with now := now } := by
        simp only [next, hexec, Database.commit]
      rw [hnext]
      exact hsys.of_statements hnow .refl
    | ok db' =>
      have hnext : sys.next hashToken actor now (.command c) =
          { sys with now := now, db := db' } := by
        simp only [next, hexec, Database.commit]
      rw [hnext]
      exact hsys.of_statements hnow (NoteCommand.exec_statements hexec)
  | elsewhere db' =>
    rcases hallowed with hstatements | ⟨hsame, hcursors⟩
    · exact hsys.of_statements hnow hstatements
    · refine hsys.of_db hnow (hsame.pagesReady hsys.ready) ?_
      intro token expiresAt cursor hcursor hvalid hfind hexpires hs
      exact ⟨hcursors ▸ hfind, hsame.synced hs⟩
  | request limit nextCursor =>
    cases hanswer : sys.answer hashToken actor now limit nextCursor with
    | error e =>
      have hnext : sys.next hashToken actor now (.request limit nextCursor) =
          { sys with now := now } := by
        simp only [next, hanswer]
      rw [hnext]
      exact hsys.of_statements hnow .refl
    | ok answered =>
      obtain ⟨page, db'⟩ := answered
      exact (hsys.request hnow hallowed hanswer).1
  | otherRequest other cursor limit nextCursor =>
    cases hanswer : sys.db.syncNotes hashToken other cursor limit nextCursor now with
    | error e =>
      have hnext : sys.next hashToken actor now (.otherRequest other cursor limit nextCursor) =
          { sys with now := now } := by
        simp only [next, hanswer, Except.map, Database.commit]
      rw [hnext]
      exact hsys.of_statements hnow .refl
    | ok answered =>
      obtain ⟨page, db'⟩ := answered
      obtain ⟨state, size, next', cursors, -, -, -, -, -, -, hinsert, rfl⟩ :=
        syncNotes_eq_ok hanswer
      have hnext : sys.next hashToken actor now (.otherRequest other cursor limit nextCursor) =
          { sys with now := now, db := { sys.db with noteSyncCursors := cursors } } := by
        simp only [next, hanswer, Except.map, Database.commit]
      rw [hnext]
      have hsame : sys.db.SamePages { sys.db with noteSyncCursors := cursors } :=
        ⟨rfl, rfl, rfl, rfl, rfl, rfl, rfl, rfl⟩
      refine hsys.of_db hnow (hsame.pagesReady hsys.ready) ?_
      intro token expiresAt row hcursor hvalid hfind hexpires hs
      refine ⟨?_, hsame.synced hs⟩
      show cursors.find (hashToken token) = some row
      rw [Table.find_insert? hinsert]
      split_ifs with hkey
      · -- The store would have refused a cursor whose digest is taken.
        have hfree := (Table.insert?_eq_some.mp hinsert).1
        rw [hkey, hfind] at hfree
        cases hfree
      · exact hfind
  | purge cutoff =>
    refine hsys.of_db hnow hsys.ready.purge ?_
    intro token expiresAt cursor hcursor hvalid hfind hexpires hs
    constructor
    · show (sys.db.noteSyncCursors.deleteWhere _).find _ = _
      rw [Table.find_deleteWhere, hfind]
      refine Option.filter_eq_some_iff.mpr ⟨rfl, ?_⟩
      have hclock := hsys.clock
      have hhorizon : saturatingSub now noteSyncCursorRetentionMs ≤ now := by
        unfold saturatingSub noteSyncCursorRetentionMs dayMs
        omega
      simp only [Bool.not_eq_true', decide_eq_false_iff_not]
      omega
    · refine hs.purge fun row hrow hp hcovers hlt hold => ?_
      exact hpurge cutoff rfl row hrow
        ⟨hp, token, expiresAt, cursor, hcursor, hvalid, hfind, hcovers, hlt, hold⟩

/-- In every run whose purges take no row the client still needs, with its requests made before
its cursors expire, the client has converged whenever it gets the last page of the changes
phase. -/
theorem sync_converges {moves : List (Move SyncSystem (ℤ × SyncAction))}
    (hrun : Run (Step hashToken actor) start moves sys)
    (hpurge : ∀ m ∈ moves, ∀ cutoff, m.label.2 = .purge cutoff →
      ∀ row ∈ m.pre.db.noteSyncProjection, m.pre.Needs hashToken actor m.label.1 row →
        m.pre.db.purgedProjection (saturatingSub m.label.1 noteSyncCursorRetentionMs) row =
          false) :
    ∀ m ∈ moves, m.pre.EndsListing hashToken actor m.label.1 m.label.2 →
      m.post.Converged actor := by
  have hconsistent : ∀ before after, moves = before ++ after →
      ∀ t, Run (Step hashToken actor) start before t → t.Consistent hashToken actor := by
    intro before
    induction before using List.reverseRecOn with
    | nil =>
      intro after hmoves t ht
      rw [← Run.nil_iff.mp ht]
      exact consistent_start
    | append_singleton before m ih =>
      intro after hmoves t ht
      obtain ⟨hbefore, hstep, rfl⟩ := Run.snoc_iff.mp ht
      have hpre := ih ([m] ++ after) (by rw [hmoves, List.append_assoc]) m.pre hbefore
      exact hpre.step hstep (hpurge m (by simp [hmoves]))
  intro m hm hends
  obtain ⟨before, after, rfl⟩ := List.append_of_mem hm
  obtain ⟨hbefore, ⟨⟨hnow, hallowed⟩, hpost⟩, -⟩ := hrun.split
  have hpre := hconsistent before (m :: after) rfl m.pre hbefore
  obtain ⟨limit, nextCursor, page, db, haction, hanswer, hphase, hmore⟩ := hends
  rw [haction] at hallowed hpost
  rw [hpost]
  exact (hpre.request hnow hallowed hanswer).2 hphase hmore

end SyncSystem

/-! ## A slow client -/

/-- The digests of the tokens in the run below. -/
def sampleDigest (token : String) : Digest :=
  if token = "cursor-1" then
    ⟨0x78c2063b9f25763fb0a399b0ef020e830cad82ffc90db40ec58e87821b5ee1aa⟩
  else if token = "cursor-2" then
    ⟨0x0c82b3c55fc4ad474461978099318c761c824d7ceda69c7b9cf15bdac04e1868⟩
  else ⟨0xcfe84af3eda0820edc37cf4be2073caf34bf587a960d8efa5dea64694407779d⟩

/-- Alice has two notes. A client lists the first, she deletes it, and the client takes more
than a month for the rest, with a purge on the way. -/
def slowListing (purgedAt : ℤ) : List (ℤ × SyncAction) :=
  [(0, .login alice.authenticatedIdentity),
    (0, .command (.create alice ⟨1⟩ ⟨"A", "= A", []⟩ ⟨[], [], []⟩ 0 .web)),
    (0, .command (.create alice ⟨2⟩ ⟨"B", "= B", []⟩ ⟨[], [], []⟩ 0 .web)),
    (10, .request (some 1) "cursor-1"),
    (20, .command (.softDelete alice ⟨1⟩ 1 20)),
    (34 * dayMs, .request (some 1) "cursor-2"),
    (purgedAt, .purge (purgedAt - dayMs)),
    (37 * dayMs, .request (some 1) "cursor-3")]

/-- One action of that run. -/
def sampleNext (sys : SyncSystem) (label : ℤ × SyncAction) : SyncSystem :=
  sys.next sampleDigest alice label.1 label.2

/-- The moves of that run. -/
def slowListingMoves (purgedAt : ℤ) : List (Move SyncSystem (ℤ × SyncAction)) :=
  Run.trace sampleNext .start (slowListing purgedAt)

theorem run_slowListing {purgedAt : ℤ} (h : 34 * dayMs ≤ purgedAt) (h' : purgedAt ≤ 37 * dayMs) :
    Run (SyncSystem.Step sampleDigest alice) .start (slowListingMoves purgedAt)
      ((slowListing purgedAt).foldl sampleNext .start) := by
  refine Run.run_trace_of_legal sampleNext _ _ ?_
  refine List.forall_mem_cons.mpr ⟨⟨by decide, trivial⟩, ?_⟩
  refine List.forall_mem_cons.mpr ⟨⟨by decide, trivial⟩, ?_⟩
  refine List.forall_mem_cons.mpr ⟨⟨by decide, trivial⟩, ?_⟩
  refine List.forall_mem_cons.mpr ⟨⟨by decide, by intro c hc; cases hc⟩, ?_⟩
  refine List.forall_mem_cons.mpr ⟨⟨by decide, trivial⟩, ?_⟩
  refine List.forall_mem_cons.mpr ⟨⟨by decide, by intro c hc; cases hc; decide⟩, ?_⟩
  refine List.forall_mem_cons.mpr ⟨⟨h, trivial⟩, ?_⟩
  refine List.forall_mem_cons.mpr ⟨⟨h', ?_⟩, ?_⟩
  · intro c hc
    cases hc
    have hvalid : 37 * dayMs < saturatingAdd (34 * dayMs) noteSyncCursorRetentionMs := by decide
    exact hvalid
  exact List.forall_mem_nil _

/-- With the purge two days after the second page, the deletion is gone before the client asks
for it. It asks with a valid cursor, is told that this is all, and keeps the note. -/
theorem sync_loses_deletion : ∃ moves sys,
    Run (SyncSystem.Step sampleDigest alice) .start moves sys ∧
    ∃ m ∈ moves, m.pre.EndsListing sampleDigest alice m.label.1 m.label.2 ∧
      ¬m.post.Converged alice := by
  have hrun := run_slowListing (show 34 * dayMs ≤ 36 * dayMs by decide) (by decide)
  refine ⟨_, _, hrun, _, List.mem_of_getLast? rfl, ⟨_, _, _, _, rfl, rfl, rfl, rfl⟩,
    fun hconverged => ?_⟩
  have hnote := hconverged ⟨1⟩
  obtain ⟨⟨⟨row, hrow, hactive⟩, -⟩, -⟩ := hnote
  cases hrow
  cases hactive

/-- With the purge on the day of the second page, the client has converged at the end. -/
theorem sync_converges_slowListing :
    ∃ s, Run (SyncSystem.Step sampleDigest alice) .start (slowListingMoves (34 * dayMs)) s ∧
      ∀ m ∈ slowListingMoves (34 * dayMs),
        m.pre.EndsListing sampleDigest alice m.label.1 m.label.2 → m.post.Converged alice := by
  have hrun := @run_slowListing (34 * dayMs) (by decide) (by decide)
  refine ⟨_, hrun, SyncSystem.sync_converges hrun ?_⟩
  refine List.forall_mem_cons.mpr ⟨fun cutoff h => (by cases h), ?_⟩
  refine List.forall_mem_cons.mpr ⟨fun cutoff h => (by cases h), ?_⟩
  refine List.forall_mem_cons.mpr ⟨fun cutoff h => (by cases h), ?_⟩
  refine List.forall_mem_cons.mpr ⟨fun cutoff h => (by cases h), ?_⟩
  refine List.forall_mem_cons.mpr ⟨fun cutoff h => (by cases h), ?_⟩
  refine List.forall_mem_cons.mpr ⟨fun cutoff h => (by cases h), ?_⟩
  refine List.forall_mem_cons.mpr ⟨fun cutoff h row hrow hneeds => ?_, ?_⟩
  · have hkept : ∀ row ∈ (((slowListing 0).take 6).foldl sampleNext .start).db.noteSyncProjection,
        (((slowListing 0).take 6).foldl sampleNext .start).db.purgedProjection
          (saturatingSub (34 * dayMs) noteSyncCursorRetentionMs) row = false := by decide
    exact hkept row hrow
  refine List.forall_mem_cons.mpr ⟨fun cutoff h => (by cases h), ?_⟩
  exact List.forall_mem_nil _

end Marginalis
