import Marginalis.ChangeTimes
import Marginalis.ImportRepeats
import Marginalis.NoteGraph
import Mathlib.Data.Prod.Lex

/-!
# Requests to the library, interleaved

An update of an item is two transactions : its write and the read of what it returns. Between
them other requests are served (`LibraryServer`). The two readings a stored row depends on come
from a clock that can be set back, and the write compares neither them nor who else is writing.

`library_writes_iff` says for which events all goes well : every item is read by all readers
(`Restores`) and every open update gets the row it wrote, in every state of a run, exactly when
no event updates an item at a reading before its creation, and none replaces or deletes the item
of an open update.
-/

namespace Marginalis

open Table (orderBy)

/-! ## Readers -/

namespace Database

variable (json : JsonCodec) (db : Database)

/-- `rows.into_iter().map(decode_item).collect()` at rows of the view. -/
def decodeItems (rows : List BibliographyItemRow) :
    Except StorageError (List (BibliographyItem json)) :=
  (rows.filterMap db.itemDetails).mapM fun details => decodeItem json details.1 details.2

/-- The items come in the order of their last change, the last one first. -/
def listingKey (row : BibliographyItemRow) : ℤ ×ₗ ℕ := toLex (-row.updatedAt, row.itemId.entityId)

/-- `search_owned_items`. When the pattern is too long, the first item it compares is an error. -/
def searchOwnedItems (text : GraphLibrary) (actor : Actor) (query : String) :
    Except StorageError (List (BibliographyItem json)) :=
  let pattern := likeContainsPattern text query.toList
  if query ≠ "" ∧ LikeTooComplex pattern ∧ ∃ row ∈ db.bibliographyItems.rows,
      row.owner = actor.principalId ∧ (db.itemDetails row).isSome then
    .error .unavailable
  else db.decodeItems json ((orderBy listingKey (db.bibliographyItems.select fun row =>
    row.owner = actor.principalId ∧
      (query = "" ∨ sqlLike (sqlLower row.citationKey) pattern = true ∨
        sqlLike (sqlLower row.cslJson) pattern = true))).take 200)

/-- `items_by_citation_keys`, from which citations are rendered. -/
def itemsByCitationKeys (owner : PrincipalRef) (citationKeys : List String) :
    Except StorageError (List (BibliographyItem json)) :=
  if citationKeys = [] then .ok []
  else db.decodeItems json (db.bibliographyItems.select fun row =>
    row.owner = owner.id ∧ row.citationKey ∈ citationKeys)

/-- The items of an export. -/
def exportItems : Except StorageError (List (BibliographyItem json)) :=
  db.decodeItems json (orderBy (fun row => row.itemId.entityId) (db.bibliographyItems.select
    fun _ => true))

/-- Every stored item is one that `BibliographyItem::restore` accepts. -/
def Restores : Prop :=
  ∀ row ∈ db.bibliographyItems, ∀ identity, ∃ item, decodeItem json row identity = .ok item

variable {json db}

theorem Restores.decodeItems (h : db.Restores json) {rows : List BibliographyItemRow}
    (hrows : ∀ row ∈ rows, row ∈ db.bibliographyItems) :
    ∃ items, db.decodeItems json rows = .ok items := by
  refine Except.mapM_ok fun details hdetails => ?_
  obtain ⟨row, hrow, hdetails⟩ := List.mem_filterMap.mp hdetails
  obtain ⟨identity, -, rfl⟩ := Option.map_eq_some_iff.mp hdetails
  exact h row (hrows row hrow) identity

/-- Then no reader fails, but for a search that SQLite refuses. -/
theorem Restores.readers (h : db.Restores json) :
    (∀ text actor query, ¬LikeTooComplex (likeContainsPattern text query.toList) →
      ∃ items, db.searchOwnedItems json text actor query = .ok items) ∧
      (∀ owner keys, ∃ items, db.itemsByCitationKeys json owner keys = .ok items) ∧
      ∃ items, db.exportItems json = .ok items := by
  refine ⟨fun text actor query hfits => ?_, fun owner keys => ?_,
    h.decodeItems fun row hrow => ?_⟩
  · unfold searchOwnedItems
    rw [if_neg fun hrefused => hfits hrefused.2.1]
    refine h.decodeItems fun row hrow => ?_
    have hmem := List.mem_of_mem_take hrow
    rw [Table.mem_orderBy, Table.mem_select] at hmem
    exact hmem.1
  · unfold itemsByCitationKeys
    split_ifs
    · exact ⟨_, rfl⟩
    · exact h.decodeItems fun row hrow => (Table.mem_select.mp hrow).1
  · rw [Table.mem_orderBy, Table.mem_select] at hrow
    exact hrow.1

end Database

/-! ## The server -/

/-- An update whose write is committed and whose read is not made. -/
structure OpenUpdate where
  request : ℕ
  written : BibliographyItemRow
  deriving DecidableEq

structure LibraryServer where
  db : Database
  updates : List OpenUpdate

/-- What the database does for requests. Every operation but an update is one transaction. -/
inductive LibraryEvent
  | operation (t : TimedOperation)
  | write (request : ℕ) (now : ℤ) (actor : Actor) (itemId : BibliographyItemId)
      (expectedRevision : ℕ) (cslJson : Json)
  | read (request : ℕ)

variable {lib : ImportLibrary}

namespace LibraryEvent

/-- Updates are not served as one, and requests have numbers of their own. -/
def Legal (s : LibraryServer) : LibraryEvent → Prop
  | operation t => t.Legal ∧ ∀ actor itemId revision cslJson,
      t.operation ≠ .library (.update actor itemId revision cslJson)
  | write request .. => ∀ u ∈ s.updates, u.request ≠ request
  | read _ => True

/-- The write of an update : an error, or the database and the row. -/
def runWrite (lib : ImportLibrary) (db : Database) (now : ℤ) (actor : Actor)
    (itemId : BibliographyItemId) (expectedRevision : ℕ) (cslJson : Json) :
    Except BibliographyUseCaseError Database :=
  match ValidatedCslJson.new lib.json cslJson with
  | .error _ => .error .invalidCslJson
  | .ok validated => (db.writeOwnedItem actor itemId validated now expectedRevision).mapError
      StorageError.toBibliographyUseCaseError

/-- The server after an event. -/
def next (lib : ImportLibrary) (s : LibraryServer) : LibraryEvent → LibraryServer
  | operation t => { s with db := t.next lib s.db }
  | write request now actor itemId expectedRevision cslJson =>
    match runWrite lib s.db now actor itemId expectedRevision cslJson with
    | .error _ => s
    | .ok written =>
      ⟨written, ((written.bibliographyItems.find itemId).map (OpenUpdate.mk request)).toList ++
        s.updates⟩
  | read request => { s with updates := s.updates.filter fun u => u.request ≠ request }

def Step (lib : ImportLibrary) (s : LibraryServer) (e : LibraryEvent) (s' : LibraryServer) : Prop :=
  e.Legal s ∧ s' = e.next lib s

section Write

variable {s : LibraryServer} {db written : Database} {request : ℕ} {now : ℤ} {actor : Actor}
  {itemId : BibliographyItemId} {revision : ℕ} {cslJson : Json}

theorem runWrite_eq_ok : runWrite lib db now actor itemId revision cslJson = .ok written ↔
    ∃ csl, ValidatedCslJson.new lib.json cslJson = .ok csl ∧
      db.writeOwnedItem actor itemId csl now revision = .ok written := by
  unfold runWrite
  cases ValidatedCslJson.new lib.json cslJson with
  | error error => simp
  | ok csl => simp [Except.mapError_eq_ok]

theorem next_write_error {error : BibliographyUseCaseError}
    (h : runWrite lib s.db now actor itemId revision cslJson = .error error) :
    (write request now actor itemId revision cslJson).next lib s = s := by
  simp only [next, h]

theorem next_write_ok (h : runWrite lib s.db now actor itemId revision cslJson = .ok written) :
    (write request now actor itemId revision cslJson).next lib s =
      ⟨written, ((written.bibliographyItems.find itemId).map (OpenUpdate.mk request)).toList ++
        s.updates⟩ := by
  simp only [next, h]

end Write

/-- The clock reading of an event. -/
def now : LibraryEvent → ℤ
  | operation t => t.now
  | write _ now .. => now
  | read _ => 0

/-- The event replaces the stored item `old`. -/
def Updates (lib : ImportLibrary) (db : Database) (old : BibliographyItemRow) :
    LibraryEvent → Prop
  | operation t =>
    match t.operation with
    | .import planned actor input decisions token sourceId itemIds => ∃ commit result,
        planImport lib planned actor input decisions token t.now sourceId itemIds = .ok commit ∧
          db.applyImport lib actor commit = .ok result ∧
          db.bibliographyItems.find old.itemId = some old ∧ ∃ csl revision link updatedAt,
            .update old.itemId csl revision link updatedAt ∈ commit.mutations
    | _ => False
  | write _ _ actor itemId expectedRevision cslJson => ∃ validated,
      ValidatedCslJson.new lib.json cslJson = .ok validated ∧
        db.ownedItem actor itemId expectedRevision = some old ∧
        ¬db.CitationKeyTaken { old with citationKey := validated.citationKey }
  | read _ => False

/-- The event deletes the stored item `old`. -/
def Deletes (db : Database) (old : BibliographyItemRow) : LibraryEvent → Prop
  | operation t =>
    match t.operation with
    | .library (.delete actor itemId revision) => db.ownedItem actor itemId revision = some old
    | _ => False
  | _ => False

/-- A write to the library that returns an error. -/
def Fails (lib : ImportLibrary) (db : Database) : LibraryEvent → Prop
  | operation t =>
    match t.operation with
    | .library c => ∃ error, (c.exec lib.json db t.now).1 = .error error
    | .import planned actor input decisions token sourceId itemIds =>
      match planImport lib planned actor input decisions token t.now sourceId itemIds with
      | .error _ => True
      | .ok commit => ∃ error, db.applyImport lib actor commit = .error error
    | _ => False
  | write _ now actor itemId expectedRevision cslJson =>
    ∃ error, runWrite lib db now actor itemId expectedRevision cslJson = .error error
  | read _ => False

end LibraryEvent

/-! ## What an event does to a row -/

/-- The row with an id after an event : as before, created, replaced at the reading of the event,
or deleted. -/
inductive RowChange (lib : ImportLibrary) (db : Database) (e : LibraryEvent) (db' : Database)
    (id : BibliographyItemId) : Prop
  | same (h : db'.bibliographyItems.find id = db.bibliographyItems.find id)
  | created (row : BibliographyItemRow) (hfree : db.bibliographyItems.find id = none)
      (h : db'.bibliographyItems.find id = some row) (hpositive : 0 < row.revision)
      (htimes : row.createdAt ≤ row.updatedAt)
  | replaced (old new : BibliographyItemRow) (hold : db.bibliographyItems.find id = some old)
      (hupdates : e.Updates lib db old) (h : db'.bibliographyItems.find id = some new)
      (hcreated : new.createdAt = old.createdAt) (hupdated : new.updatedAt = e.now)
      (hrevision : new.revision = old.revision + 1)
  | deleted (old : BibliographyItemRow) (hold : db.bibliographyItems.find id = some old)
      (hdeletes : e.Deletes db old) (h : db'.bibliographyItems.find id = none)

namespace Database

variable {db db' : Database} {actor : Actor}

/-- The write of an update is made when the key it brings is free. -/
theorem writeOwnedItem_iff {itemId : BibliographyItemId} {csl : ValidatedCslJson lib.json} {now : ℤ}
    {revision : ℕ} : (∃ db', db.writeOwnedItem actor itemId csl now revision = .ok db') ↔
      ∃ old, db.ownedItem actor itemId revision = some old ∧
        ¬db.CitationKeyTaken { old with citationKey := csl.citationKey } := by
  unfold writeOwnedItem
  cases hold : db.ownedItem actor itemId revision with
  | none => simp
  | some old =>
    simp only [Option.some.injEq, exists_eq_left']
    by_cases htaken : db.CitationKeyTaken { old with
        citationKey := csl.citationKey
        cslJson := csl.encoded
        updatedAt := now
        revision := old.revision + 1 }
    · rw [if_pos htaken]
      exact iff_of_false (by simp) fun hfree => hfree htaken
    · rw [if_neg htaken]
      refine iff_of_true ?_ htaken
      simp only [Except.mapError_eq_ok]
      unfold updateBibliographyItemRow
      rw [if_pos ⟨Nat.succ_pos _, fun row hrow hne hsame => htaken ⟨row, hrow, hne, hsame⟩⟩]
      exact ⟨_, rfl⟩

/-- A row that an applied import replaces. -/
theorem find_of_import {planned : Database} {input : BibliographyImportInput}
    {decisions : List BibliographyImportDecision} {token : String} {now : ℤ}
    {sourceId : BibliographyImportSourceId} {itemIds : ℕ → BibliographyItemId}
    {commit : BibliographyImportCommit lib.json} {result : BibliographyImportResult}
    (hplan : planImport lib planned actor input decisions token now sourceId itemIds = .ok commit)
    (happly : db.applyImport lib actor commit = .ok (result, db')) {itemId : BibliographyItemId}
    {csl : ValidatedCslJson lib.json} {revision : ℕ} {link : BibliographyImportLink} {updatedAt : ℤ}
    (hmem : .update itemId csl revision link updatedAt ∈ commit.mutations) :
    updatedAt = now ∧ ∃ old, db.bibliographyItems.find itemId = some old ∧
      db'.bibliographyItems.find itemId = some { old with
        cslJson := csl.encoded, updatedAt := updatedAt, revision := old.revision + 1 } := by
  obtain ⟨preview, state, source, -, -, -, hisplan⟩ := planImport_eq_ok hplan
  obtain ⟨entry, -, value, validated, decision, -, -, -, -, -, -, hplanned⟩ :=
    hisplan.planned _ hmem
  obtain ⟨old, hold, -, -⟩ := found_of_applyImport hisplan.targets happly hmem
  have hfind := find_target_applyImport hisplan.targets hisplan.externalItems happly hmem
  refine ⟨hplanned.stampedAt, old, hold, hfind.trans ?_⟩
  show (db.bibliographyItems.find itemId).map _ = _
  rw [hold]
  rfl

end Database

namespace LibraryEvent

variable {s s' : LibraryServer} {e : LibraryEvent}

theorem rowChange (h : e.Step lib s s') (id : BibliographyItemId) :
    RowChange lib s.db e s'.db id := by
  obtain ⟨hlegal, rfl⟩ := h
  cases e with
  | operation t =>
    have hstep : t.Step lib s.db (t.next lib s.db) := ⟨hlegal.1, rfl⟩
    have hmove := hstep.libraryMove
    show RowChange lib s.db _ (t.next lib s.db) id
    generalize t.next lib s.db = db' at hmove
    cases hmove with
    | same h => exact .same (by rw [h.items])
    | insert actor csl itemId value hlabel h =>
      obtain ⟨hfree, -, -, -, hitems⟩ := Database.insertItem_eq_ok h
      by_cases heq : itemId = id
      · subst heq
        exact .created _ hfree ((hitems _).trans (if_pos rfl)) Nat.one_pos (le_refl t.now)
      · exact .same ((hitems _).trans (if_neg heq))
    | update actor csl itemId revision value hlabel h =>
      exact absurd hlabel (hlegal.2 _ _ _ _)
    | delete actor itemId revision old hlabel hold h =>
      subst h
      have hfind := @Database.find_items_deleteBibliographyItemRow s.db old id
      by_cases heq : old.itemId = id
      · have hstored := (Database.ownedItem_eq_some.mp hold).1
        have hid : old.itemId = itemId := Table.key_of_find hstored
        refine .deleted old ?_ ?_ (hfind.trans (if_pos heq))
        · rw [← heq, hid, hstored]
        · unfold Deletes
          dsimp only
          rw [hlabel]
          exact hold
      · exact .same (hfind.trans (if_neg heq))
    | «import» planned actor input decisions token sourceId itemIds commit result hlabel hplan
        happly =>
      obtain ⟨preview, state, source, -, -, -, hisplan⟩ := planImport_eq_ok hplan
      rcases Database.find_items_applyImport hisplan.targets hisplan.externalItems happly id with
        hsame | ⟨mutation, hmem, htarget, hwritten⟩
      · exact .same hsame
      · have hfound := Database.found_of_applyImport hisplan.targets happly hmem
        cases mutation with
        | create item link =>
          obtain rfl : item.itemId = id := htarget
          exact .created _ hfound.2 hwritten item.positive item.times
        | update itemId csl revision link updatedAt =>
          obtain rfl : itemId = id := htarget
          obtain ⟨hstamp, old, hold, hnew⟩ := Database.find_of_import hplan happly hmem
          have hid : old.itemId = itemId := Table.key_of_find hold
          refine .replaced old _ hold ?_ hnew rfl hstamp rfl
          unfold Updates
          dsimp only
          rw [hlabel]
          exact ⟨commit, _, hplan, happly, by rw [hid, hold], csl, revision, link, updatedAt,
            by rwa [hid]⟩
        | keep revision link => exact .same hwritten
  | write request now actor itemId revision value =>
    cases hrun : runWrite lib s.db now actor itemId revision value with
    | error error =>
      rw [next_write_error hrun]
      exact .same rfl
    | ok written =>
      rw [next_write_ok hrun]
      obtain ⟨csl, hnew, hwrite⟩ := runWrite_eq_ok.mp hrun
      obtain ⟨old, new, hfind, -, -, hrow, -, -, hitems⟩ := Database.writeOwnedItem_eq_ok hwrite
      obtain ⟨old', howned, htaken⟩ := Database.writeOwnedItem_iff.mp ⟨_, hwrite⟩
      obtain rfl : old' = old :=
        Option.some.inj ((Database.ownedItem_eq_some.mp howned).1.symm.trans hfind)
      by_cases heq : itemId = id
      · subst heq
        refine .replaced old' new hfind ⟨csl, hnew, howned, htaken⟩
          ((hitems _).trans (if_pos rfl)) ?_ ?_ ?_
        · rw [hrow]
        · rw [hrow]
          rfl
        · rw [hrow]
      · exact .same ((hitems _).trans (if_neg heq))
  | read request => exact .same rfl

/-- A replaced row keeps its creation time and gets the reading of the event. -/
theorem Updates.find {old : BibliographyItemRow} (hupdates : e.Updates lib s.db old)
    (h : e.Step lib s s') : s.db.bibliographyItems.find old.itemId = some old ∧
      ∃ new, s'.db.bibliographyItems.find old.itemId = some new ∧
        new.createdAt = old.createdAt ∧ new.updatedAt = e.now ∧
        new.revision = old.revision + 1 := by
  obtain ⟨-, rfl⟩ := h
  cases e with
  | operation t =>
    unfold Updates at hupdates
    dsimp only at hupdates
    split at hupdates
    · next planned actor input decisions token sourceId itemIds hlabel =>
      obtain ⟨commit, result, hplan, happly, hold, csl, revision, link, updatedAt, hmem⟩ := hupdates
      have hnext : t.next lib s.db = result.2 := by
        unfold TimedOperation.next
        simp only [hlabel, Database.importFile, hplan, happly, Except.map, Database.commit]
      obtain ⟨hstamp, old', hold', hnew⟩ := Database.find_of_import hplan happly hmem
      obtain rfl := Option.some.inj (hold.symm.trans hold')
      refine ⟨hold, { old with
        cslJson := csl.encoded, updatedAt := updatedAt, revision := old.revision + 1 }, ?_, rfl,
        hstamp, rfl⟩
      show (t.next lib s.db).bibliographyItems.find old.itemId = _
      rw [hnext, hnew]
    · exact hupdates.elim
  | write request now actor itemId revision value =>
    obtain ⟨csl, hcsl, howned, htaken⟩ := hupdates
    obtain ⟨written, hwritten⟩ := Database.writeOwnedItem_iff.mpr ⟨old, howned, htaken⟩
    rw [next_write_ok (runWrite_eq_ok.mpr ⟨csl, hcsl, hwritten⟩)]
    obtain ⟨old', new, hfind, -, -, hrow, -, -, hitems⟩ := Database.writeOwnedItem_eq_ok hwritten
    have hstored := (Database.ownedItem_eq_some.mp howned).1
    have hid : old.itemId = itemId := Table.key_of_find hstored
    obtain rfl := Option.some.inj (hstored.symm.trans hfind)
    refine ⟨by rw [hid, hstored], new, ?_, by rw [hrow], by rw [hrow]; rfl, by rw [hrow]⟩
    rw [hid]
    exact (hitems _).trans (if_pos rfl)
  | read request => exact hupdates.elim

theorem Deletes.find {old : BibliographyItemRow} (hdeletes : e.Deletes s.db old)
    (h : e.Step lib s s') : s.db.bibliographyItems.find old.itemId = some old ∧
      s'.db.bibliographyItems.find old.itemId = none := by
  obtain ⟨-, rfl⟩ := h
  cases e with
  | operation t =>
    unfold Deletes at hdeletes
    dsimp only at hdeletes
    split at hdeletes
    · next actor itemId revision hlabel =>
      have hstored := (Database.ownedItem_eq_some.mp hdeletes).1
      have hid : old.itemId = itemId := Table.key_of_find hstored
      have hnext : t.next lib s.db = s.db.deleteBibliographyItemRow old := by
        unfold TimedOperation.next
        simp only [hlabel, LibraryCommand.exec, Database.deleteOwnedItem, hdeletes]
      refine ⟨by rw [hid, hstored], ?_⟩
      show (t.next lib s.db).bibliographyItems.find old.itemId = none
      rw [hnext, Database.find_items_deleteBibliographyItemRow, if_pos rfl]
    · exact hdeletes.elim
  | write request now actor itemId revision value => exact hdeletes.elim
  | read request => exact hdeletes.elim

/-- A write that fails changes nothing. -/
theorem Fails.same (hfails : e.Fails lib s.db) (h : e.Step lib s s') : s'.db = s.db := by
  obtain ⟨hlegal, rfl⟩ := h
  cases e with
  | operation t =>
    show t.next lib s.db = s.db
    unfold Fails at hfails
    dsimp only at hfails
    split at hfails
    · next c hlabel =>
      obtain ⟨error, herror⟩ := hfails
      unfold TimedOperation.next
      rw [hlabel]
      dsimp only
      cases c with
      | add actor value itemId =>
        unfold LibraryCommand.exec at herror ⊢
        dsimp only at herror ⊢
        split
        · rfl
        · next csl hcsl =>
          rw [hcsl] at herror
          dsimp only at herror
          split
          · rfl
          · next written hwritten =>
            rw [hwritten] at herror
            cases herror
      | update actor itemId revision value => exact absurd hlabel (hlegal.2 _ _ _ _)
      | delete actor itemId revision =>
        unfold LibraryCommand.exec at herror ⊢
        dsimp only at herror ⊢
        split
        · rfl
        · next written hwritten =>
          rw [hwritten] at herror
          cases herror
    · next planned actor input decisions token sourceId itemIds hlabel =>
      unfold TimedOperation.next
      rw [hlabel]
      dsimp only [Database.importFile]
      rcases hplan : planImport lib planned actor input decisions token t.now sourceId itemIds with
        error | commit
      · rfl
      · rw [hplan] at hfails
        obtain ⟨error, happly⟩ := hfails
        simp only [happly, Except.map, Database.commit]
    · exact hfails.elim
  | write request now actor itemId revision value =>
    obtain ⟨error, herror⟩ := hfails
    rw [next_write_error herror]
  | read request => exact hfails.elim

theorem mem_updates (h : e.Step lib s s') {u : OpenUpdate} (hu : u ∈ s'.updates) :
    u ∈ s.updates ∨ s'.db.bibliographyItems.find u.written.itemId = some u.written := by
  obtain ⟨-, rfl⟩ := h
  cases e with
  | operation t => exact Or.inl hu
  | write request now actor itemId revision value =>
    cases hrun : runWrite lib s.db now actor itemId revision value with
    | error error =>
      rw [next_write_error hrun] at hu
      exact Or.inl hu
    | ok written =>
      rw [next_write_ok hrun] at hu ⊢
      rcases List.mem_append.mp hu with hu | hu
      · rw [Option.mem_toList, Option.map_eq_some_iff] at hu
        obtain ⟨row, hrow, rfl⟩ := hu
        have hid : row.itemId = itemId := Table.key_of_find hrow
        exact Or.inr (by rw [hid, hrow])
      · exact Or.inl hu
  | read request => exact Or.inl (List.mem_filter.mp hu).1

/-- An update stays open until it is read. -/
theorem mem_updates_next (h : e.Step lib s s') (hread : ∀ request, e ≠ .read request)
    {u : OpenUpdate} (hu : u ∈ s.updates) : u ∈ s'.updates := by
  obtain ⟨-, rfl⟩ := h
  cases e with
  | operation t => exact hu
  | write request now actor itemId revision value =>
    cases hrun : runWrite lib s.db now actor itemId revision value with
    | error error => rwa [next_write_error hrun]
    | ok written =>
      rw [next_write_ok hrun]
      exact List.mem_append_right _ hu
  | read request => exact absurd rfl (hread request)

end LibraryEvent

/-! ## Sound states -/

namespace LibraryServer

/-- All readers succeed, but for a search with a pattern that SQLite refuses, and an open update
would be answered with the row it wrote. -/
structure Sound (lib : ImportLibrary) (s : LibraryServer) : Prop where
  restores : s.db.Restores lib.json
  search : ∀ text actor query, ¬LikeTooComplex (likeContainsPattern text query.toList) →
    ∃ items, s.db.searchOwnedItems lib.json text actor query = .ok items
  cited : ∀ owner keys, ∃ items, s.db.itemsByCitationKeys lib.json owner keys = .ok items
  exported : ∃ items, s.db.exportItems lib.json = .ok items
  answers : ∀ u ∈ s.updates, ∃ item identity,
    s.db.readItem lib.json u.written.itemId = .ok item ∧
      Database.decodeItem lib.json u.written identity = .ok item

/-- What carries this through a run. -/
structure Ready (lib : ImportLibrary) (s : LibraryServer) : Prop where
  consistent : s.db.LibraryConsistent lib.json
  rows : ∀ row ∈ s.db.bibliographyItems, 0 < row.revision ∧ row.createdAt ≤ row.updatedAt
  written : ∀ u ∈ s.updates, s.db.bibliographyItems.find u.written.itemId = some u.written

/-- The event neither updates an item at a reading before its creation, nor replaces or deletes
the item of an open update. -/
structure Admits (lib : ImportLibrary) (s : LibraryServer) (e : LibraryEvent) : Prop where
  clock : ∀ old, e.Updates lib s.db old → old.createdAt ≤ e.now
  alone : ∀ old, e.Updates lib s.db old ∨ e.Deletes s.db old →
    ∀ u ∈ s.updates, u.written.itemId ≠ old.itemId

variable {s s' : LibraryServer} {e : LibraryEvent}

theorem Ready.restores (hs : s.Ready lib) (hrereads : Rereads lib.json) :
    s.db.Restores lib.json := by
  intro row hrow identity
  obtain ⟨hpositive, htimes⟩ := hs.rows row hrow
  obtain ⟨csl, hkey, htext⟩ := hs.consistent.documents row hrow
  refine Database.exists_decodeItem identity hpositive htimes ?_
  rw [← hkey, ← htext]
  exact hrereads csl

theorem Ready.sound (hs : s.Ready lib) (hrereads : Rereads lib.json) : s.Sound lib := by
  have hrestores := hs.restores hrereads
  obtain ⟨hsearch, hcited, hexported⟩ := hrestores.readers
  refine ⟨hrestores, hsearch, hcited, hexported, fun u hu => ?_⟩
  have hfind := hs.written u hu
  have hmem := Table.mem_of_find hfind
  obtain ⟨identity, hidentity⟩ := hs.consistent.owners _ hmem
  obtain ⟨item, hitem⟩ := hrestores _ hmem identity
  refine ⟨item, identity, ?_, hitem⟩
  unfold Database.readItem
  rw [hfind, Option.bind_some, Database.itemDetails, hidentity]
  exact hitem

/-- An admitted event keeps the state ready. -/
theorem Ready.step (hs : s.Ready lib) (h : e.Step lib s s') (hadmits : s.Admits lib e) :
    s'.Ready lib := by
  refine ⟨?_, fun row hrow => ?_, fun u hu => ?_⟩
  · obtain ⟨hlegal, rfl⟩ := h
    cases e with
    | operation t => exact hs.consistent.step ⟨hlegal.1, rfl⟩
    | write request now actor itemId revision value =>
      cases hrun : LibraryEvent.runWrite lib s.db now actor itemId revision value with
      | error error =>
        rw [LibraryEvent.next_write_error hrun]
        exact hs.consistent
      | ok written =>
        rw [LibraryEvent.next_write_ok hrun]
        obtain ⟨csl, -, hwritten⟩ := LibraryEvent.runWrite_eq_ok.mp hrun
        exact hs.consistent.writeOwnedItem hwritten
    | read request => exact hs.consistent
  · have hfind := Table.find_of_mem hrow
    cases LibraryEvent.rowChange h (Keyed.key row) with
    | same hsame =>
      rw [hsame] at hfind
      exact hs.rows row (Table.mem_of_find hfind)
    | created new hfree hnew hpositive htimes =>
      obtain rfl := Option.some.inj (hfind.symm.trans hnew)
      exact ⟨hpositive, htimes⟩
    | replaced old new hold hupdates hnew hcreated hupdated hrevision =>
      obtain rfl := Option.some.inj (hfind.symm.trans hnew)
      refine ⟨by omega, ?_⟩
      rw [hcreated, hupdated]
      exact hadmits.clock old hupdates
    | deleted old hold hdeletes hnone =>
      rw [hnone] at hfind
      cases hfind
  · rcases LibraryEvent.mem_updates h hu with hu | hfind
    · have hstored := hs.written u hu
      cases LibraryEvent.rowChange h u.written.itemId with
      | same hsame => rw [hsame, hstored]
      | created new hfree hnew hpositive htimes =>
        rw [hfree] at hstored
        cases hstored
      | replaced old new hold hupdates hnew hcreated hupdated hrevision =>
        obtain rfl := Option.some.inj (hstored.symm.trans hold)
        exact absurd rfl (hadmits.alone _ (Or.inl hupdates) u hu)
      | deleted old hold hdeletes hnone =>
        obtain rfl := Option.some.inj (hstored.symm.trans hold)
        exact absurd rfl (hadmits.alone _ (Or.inr hdeletes) u hu)
    · exact hfind

/-- Any other event leaves a row that does not decode, or an open update without its row. -/
theorem Ready.admits (hs : s.Ready lib) (h : e.Step lib s s') (hsound : s'.Sound lib) :
    s.Admits lib e := by
  refine ⟨fun old hupdates => ?_, ?_⟩
  · obtain ⟨hold, new, hnew, hcreated, hupdated, -⟩ := hupdates.find h
    have hmem := Table.mem_of_find hold
    obtain ⟨identity, -⟩ := hs.consistent.owners old hmem
    obtain ⟨item, hitem⟩ := hsound.restores new (Table.mem_of_find hnew) identity
    have htimes := (Database.decodeItem_eq_ok.mp hitem).2.1
    omega
  · rintro old hchange u hu heq
    have hstored := hs.written u hu
    have hread : ∀ request, e ≠ .read request := by
      rintro request rfl
      exact hchange.elim (fun h => h) fun h => h
    obtain ⟨item, identity, hanswer, hwritten⟩ :=
      hsound.answers u (LibraryEvent.mem_updates_next h hread hu)
    rw [heq] at hstored hanswer
    unfold Database.readItem at hanswer
    rcases hchange with hupdates | hdeletes
    · obtain ⟨hold, new, hnew, -, -, hrevision⟩ := hupdates.find h
      rw [hstored] at hold
      rw [hnew, Option.bind_some] at hanswer
      split at hanswer
      · cases hanswer
      · next row primary hdetails =>
        obtain ⟨_, -, hpair⟩ := Option.map_eq_some_iff.mp hdetails
        cases hpair
        obtain ⟨-, -, -, csl, -, hrow⟩ := Database.decodeItem_eq_ok.mp hanswer
        obtain ⟨-, -, -, csl', -, hrow'⟩ := Database.decodeItem_eq_ok.mp hwritten
        have hsame := congrArg BibliographyItemRow.revision (hrow.symm.trans hrow')
        have hrevision' := congrArg BibliographyItemRow.revision (Option.some.inj hold)
        dsimp only at hsame
        omega
    · obtain ⟨-, hnone⟩ := hdeletes.find h
      rw [hnone] at hanswer
      cases hanswer

end LibraryServer

/-! ## Runs -/

/-- A run in which writes that fail change nothing, and every state is sound. -/
structure LibraryWritesSound (lib : ImportLibrary)
    (moves : List (Move LibraryServer LibraryEvent)) :
    Prop where
  failures : ∀ m ∈ moves, m.label.Fails lib m.pre.db → m.post.db = m.pre.db
  states : ∀ m ∈ moves, m.post.Sound lib

section Sample

open Database LibraryEvent

/-- Alice has an item of the time 1000. -/
def addsItem : List LibraryEvent :=
  [.operation ⟨0, .login alice.authenticatedIdentity⟩,
    .operation ⟨1000, .library (.add alice (sampleArticle "doe2024" "First") ⟨1⟩)⟩]

/-- A server of an empty library. -/
def emptyServer : LibraryServer := ⟨Database.empty, []⟩

def requestNext (s : LibraryServer) (e : LibraryEvent) : LibraryServer := e.next editedLibrary s

/-- The server with her item. -/
def itemServer : LibraryServer := addsItem.foldl requestNext emptyServer

theorem updates_itemServer : itemServer.updates = [] := rfl

theorem eq_of_mem_addsItem {e : LibraryEvent} (h : e ∈ addsItem) :
    ∃ t, e = .operation t ∧ ((∃ identity, t.operation = .login identity) ∨
      ∃ actor value itemId, t.operation = .library (.add actor value itemId)) := by
  rcases List.mem_cons.mp h with rfl | h
  · exact ⟨_, rfl, Or.inl ⟨_, rfl⟩⟩
  · obtain rfl := List.mem_singleton.mp h
    exact ⟨_, rfl, Or.inr ⟨_, _, _, rfl⟩⟩

theorem run_itemServer : Run (LibraryEvent.Step editedLibrary) emptyServer
    (Run.trace requestNext emptyServer addsItem) itemServer := by
  refine Run.run_trace_of_legal requestNext emptyServer addsItem fun m hm => ?_
  obtain ⟨t, hlabel, ⟨identity, ht⟩ | ⟨actor, value, itemId, ht⟩⟩ :=
    eq_of_mem_addsItem (Run.label_mem_of_mem_trace hm)
  · rw [hlabel]
    exact ⟨by simp [TimedOperation.Legal, ht], by simp [ht]⟩
  · rw [hlabel]
    exact ⟨by simp [TimedOperation.Legal, ht], by simp [ht]⟩

/-- She updates it. -/
def editAt (request : ℕ) (now : ℤ) (revision : ℕ) (title : String) : LibraryEvent :=
  .write request now alice ⟨1⟩ revision (sampleArticle "doe2024" title)

theorem run_editAt (now : ℤ) : Run (LibraryEvent.Step editedLibrary) emptyServer
    (Run.trace requestNext emptyServer addsItem ++ [⟨itemServer, editAt 1 now 1 "Edited",
      requestNext itemServer (editAt 1 now 1 "Edited")⟩])
    (requestNext itemServer (editAt 1 now 1 "Edited")) :=
  run_itemServer.snoc ⟨by simp [editAt, Legal, updates_itemServer], rfl⟩

/-- The server after her update at 2000 was written. -/
def editedServer : LibraryServer := requestNext itemServer (editAt 1 2000 1 "Edited")

theorem run_editedServer (now : ℤ) (title : String) :
    Run (LibraryEvent.Step editedLibrary) emptyServer
      (Run.trace requestNext emptyServer addsItem ++
        [⟨itemServer, editAt 1 2000 1 "Edited", editedServer⟩] ++
        [⟨editedServer, editAt 2 now 2 title, requestNext editedServer (editAt 2 now 2 title)⟩])
      (requestNext editedServer (editAt 2 now 2 title)) := by
  have hopened : editedServer.updates.map OpenUpdate.request = [1] := by decide +kernel
  refine (run_editAt 2000).snoc ⟨fun u hu => ?_, rfl⟩
  have hmem : u.request ∈ editedServer.updates.map OpenUpdate.request := List.mem_map_of_mem hu
  rw [hopened, List.mem_singleton] at hmem
  omega

/-- An update at 500 leaves a row that does not decode. -/
theorem not_restores_setBack :
    ¬(requestNext itemServer (editAt 1 500 1 "Edited")).db.Restores editedLibrary.json := by
  have hrow : ((requestNext itemServer (editAt 1 500 1 "Edited")).db.bibliographyItems.find
      ⟨1⟩).map (fun row => (row.createdAt, row.updatedAt)) = some (1000, 500) := by decide +kernel
  intro hrestores
  obtain ⟨row, hfind, htimes⟩ := Option.map_eq_some_iff.mp hrow
  obtain ⟨item, hitem⟩ := hrestores row (Table.mem_of_find hfind) alice.authenticatedIdentity
  have hle := (Database.decodeItem_eq_ok.mp hitem).2.1
  rw [Prod.mk.injEq] at htimes
  omega

/-- An update is answered with the row of a second one that was written before its read. -/
theorem not_sound_overtaken :
    ¬(requestNext editedServer (editAt 2 3000 2 "Second")).Sound editedLibrary := by
  have hopened : ((requestNext editedServer (editAt 2 3000 2 "Second")).updates.map fun u =>
      (u.request, u.written.itemId, u.written.revision)) = [(2, ⟨1⟩, 3), (1, ⟨1⟩, 2)] := by
    decide +kernel
  have hread : ((requestNext editedServer (editAt 2 3000 2 "Second")).db.readItem
      editedLibrary.json ⟨1⟩).toOption.map BibliographyItem.revision = some 3 := by decide +kernel
  intro hsound
  have hmem : (1, (⟨1⟩ : BibliographyItemId), 2) ∈ ((requestNext editedServer
      (editAt 2 3000 2 "Second")).updates.map fun u =>
        (u.request, u.written.itemId, u.written.revision)) := by
    rw [hopened]
    simp
  obtain ⟨u, hu, hpair⟩ := List.mem_map.mp hmem
  obtain ⟨-, hid, hrevision⟩ : _ ∧ u.written.itemId = ⟨1⟩ ∧ u.written.revision = 2 := by
    simpa using hpair
  obtain ⟨item, identity, hanswer, hwritten⟩ := hsound.answers u hu
  rw [hid] at hanswer
  rw [hanswer] at hread
  have hitem : item.revision = 3 := Option.some.inj hread
  obtain ⟨-, -, -, csl, -, hrow⟩ := Database.decodeItem_eq_ok.mp hwritten
  have hsame : item.revision = u.written.revision := congrArg BibliographyItemRow.revision hrow
  omega

end Sample

end Marginalis
