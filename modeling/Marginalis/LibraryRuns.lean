import Marginalis.ImportApply
import Marginalis.NoLostUpdate

/-!
# The runs of the library

The operations that write the library beside those that leave it alone. `LibraryMove` says
all an operation can do to the items and the links : nothing, one of the three commands of the
library, or an import that was planned and applied.
-/

namespace Marginalis

open Relation

/-! ## The operations -/

/-- An operation of the run. An import reads the state of its plan from `read`, which can be
behind the database it is applied to. -/
inductive ChangeOperation
  | login (identity : Identity)
  | note (c : NoteCommand)
  | library (c : LibraryCommand)
  | import (read : Database) (actor : Actor) (input : BibliographyImportInput)
      (decisions : List BibliographyImportDecision) (previewToken : String)
      (sourceId : BibliographyImportSourceId) (itemIds : ℕ → BibliographyItemId)

/-- An operation at a clock reading. -/
structure TimedOperation where
  now : ℤ
  operation : ChangeOperation

/-- An import with its plan : the database afterwards. -/
def Database.importFile (lib : ImportLibrary) (db read : Database) (actor : Actor)
    (input : BibliographyImportInput) (decisions : List BibliographyImportDecision)
    (previewToken : String) (now : ℤ) (sourceId : BibliographyImportSourceId)
    (itemIds : ℕ → BibliographyItemId) : Database :=
  match planImport lib read actor input decisions previewToken now sourceId itemIds with
  | .error _ => db
  | .ok commit => db.commit ((db.applyImport lib actor commit).map Prod.snd)

namespace TimedOperation

/-- A note command carries its reading. -/
def Legal (t : TimedOperation) : Prop :=
  match t.operation with
  | .note c => c.reading = t.now
  | _ => True

/-- The database after an operation, whatever its outcome. -/
def next (lib : ImportLibrary) (db : Database) (t : TimedOperation) : Database :=
  match t.operation with
  | .login identity => db.login identity
  | .note c => db.commit (c.exec db)
  | .library c => (c.exec lib.json db t.now).2
  | .import read actor input decisions previewToken sourceId itemIds =>
    db.importFile lib read actor input decisions previewToken t.now sourceId itemIds

def Step (lib : ImportLibrary) (db : Database) (t : TimedOperation) (db' : Database) : Prop :=
  t.Legal ∧ db' = t.next lib db

end TimedOperation

/-! ## What an operation does to the library -/

/-- The tables of the library are the same, and no principal lost its identity. -/
structure Database.SameLibrary (db db' : Database) : Prop where
  items : db'.bibliographyItems = db.bibliographyItems
  sources : db'.bibliographyImportSources = db.bibliographyImportSources
  links : db'.bibliographyImportLinks = db.bibliographyImportLinks
  identities : ∀ q identity, db.primaryIdentity q = some identity →
    db'.primaryIdentity q = some identity
  principals : db.PrincipalsConsistent → db'.PrincipalsConsistent

namespace Database

variable {db db' db'' : Database}

theorem SameLibrary.refl (db : Database) : db.SameLibrary db :=
  ⟨rfl, rfl, rfl, fun _ _ h => h, id⟩

theorem SameLibrary.trans (h : db.SameLibrary db') (h' : db'.SameLibrary db'') :
    db.SameLibrary db'' :=
  ⟨h'.items.trans h.items, h'.sources.trans h.sources, h'.links.trans h.links,
    fun q identity hq => h'.identities q identity (h.identities q identity hq),
    fun hdb => h'.principals (h.principals hdb)⟩

/-- A write to other tables than those of the library and the principals. -/
theorem sameLibrary_of_eq (hprincipals : db'.principals = db.principals)
    (hidentities : db'.principalIdentities = db.principalIdentities)
    (hitems : db'.bibliographyItems = db.bibliographyItems)
    (hsources : db'.bibliographyImportSources = db.bibliographyImportSources)
    (hlinks : db'.bibliographyImportLinks = db.bibliographyImportLinks) : db.SameLibrary db' := by
  refine ⟨hitems, hsources, hlinks, fun q identity hq => ?_, fun hdb => hdb.congr ?_ ?_⟩
  · unfold primaryIdentity at hq ⊢
    rw [hidentities]
    exact hq
  · exact hprincipals
  · exact hidentities

theorem sameLibrary_login (db : Database) (identity : Identity) :
    db.SameLibrary (db.login identity) := by
  obtain ⟨principals, identities, heq⟩ := login_eq db identity
  refine ⟨?_, ?_, ?_, fun q primary => login_primaryIdentity db identity,
    fun hdb => hdb.login identity⟩ <;> rw [heq]

theorem sameLibrary_recordAccessChange (db : Database) (kind : ChangeKind) (row : AclRow) :
    db.SameLibrary (db.recordAccessChange kind row) := by
  rcases recordAccessChange_cases db kind row with h | ⟨c, h⟩ <;> rw [h]
  · exact .refl db
  · exact sameLibrary_of_eq rfl rfl rfl rfl rfl

theorem sameLibrary_deleteAclRows (rows : List AclRow) (db : Database) :
    db.SameLibrary (rows.foldl deleteAclRow db) := by
  induction rows generalizing db with
  | nil => exact .refl db
  | cons row rows ih =>
    refine SameLibrary.trans (SameLibrary.trans ?_ (sameLibrary_recordAccessChange _ _ _))
      (ih (db.deleteAclRow row))
    exact sameLibrary_of_eq rfl rfl rfl rfl rfl

theorem sameLibrary_insertAclRow {row : AclRow} (h : db.insertAclRow row = .ok db') :
    db.SameLibrary db' := by
  obtain ⟨note, acl, -, -, -, -, rfl⟩ := insertAclRow_eq_ok.mp h
  refine SameLibrary.trans ?_ (sameLibrary_recordAccessChange _ _ _)
  exact sameLibrary_of_eq rfl rfl rfl rfl rfl

end Database

namespace NoteCommand

variable {c : NoteCommand} {db db' written shared : Database}

theorem Writes.sameLibrary (h : c.Writes db written) : db.SameLibrary written := by
  cases h with
  | insert hnew h =>
    obtain ⟨notes, -, -, -, rfl⟩ := Database.insertNoteRow_eq_ok.mp h
    exact Database.sameLibrary_of_eq rfl rfl rfl rfl rfl
  | update hold hguard h =>
    obtain ⟨-, rfl⟩ := Database.updateNoteRow_eq_ok.mp h
    exact Database.sameLibrary_of_eq rfl rfl rfl rfl rfl

theorem Shares.sameLibrary (h : c.Shares db shared) : db.SameLibrary shared := by
  unfold Shares at h
  cases hentries : c.entries with
  | none =>
    rw [hentries] at h
    exact h ▸ .refl db
  | some entries =>
    rw [hentries] at h
    exact Except.foldlM_invariant (P := db.SameLibrary) h
      (Database.sameLibrary_deleteAclRows _ _)
      fun _ _ _ _ hs hstep => hs.trans (Database.sameLibrary_insertAclRow hstep)

theorem exec_sameLibrary (h : c.exec db = .ok db') : db.SameLibrary db' := by
  obtain ⟨written, shared, references, citations, revisions, attachments, hw, hs, rfl⟩ := exec_eq h
  exact (hw.sameLibrary.trans hs.sameLibrary).trans
    (Database.sameLibrary_of_eq rfl rfl rfl rfl rfl)

end NoteCommand

/-- Each way an operation can leave the library behind. -/
inductive LibraryMove (lib : ImportLibrary) (db : Database) (t : TimedOperation) (db' : Database) :
    Prop
  | same (h : db.SameLibrary db')
  | insert (actor : Actor) (csl : ValidatedCslJson lib.json) (itemId : BibliographyItemId)
      (value : Json) (hlabel : t.operation = .library (.add actor value itemId))
      (h : db.insertItem (BibliographyItem.create itemId actor.principal csl t.now).toRow = .ok db')
  | update (actor : Actor) (csl : ValidatedCslJson lib.json) (itemId : BibliographyItemId)
      (revision : ℕ) (value : Json)
      (hlabel : t.operation = .library (.update actor itemId revision value))
      (h : db.writeOwnedItem actor itemId csl t.now revision = .ok db')
  | delete (actor : Actor) (itemId : BibliographyItemId) (revision : ℕ) (old : BibliographyItemRow)
      (hlabel : t.operation = .library (.delete actor itemId revision))
      (hold : db.ownedItem actor itemId revision = some old)
      (h : db' = db.deleteBibliographyItemRow old)
  | import (read : Database) (actor : Actor) (input : BibliographyImportInput)
      (decisions : List BibliographyImportDecision) (previewToken : String)
      (sourceId : BibliographyImportSourceId) (itemIds : ℕ → BibliographyItemId)
      (commit : BibliographyImportCommit lib.json) (result : BibliographyImportResult)
      (hlabel : t.operation =
        .import read actor input decisions previewToken sourceId itemIds)
      (hplan : planImport lib read actor input decisions previewToken t.now sourceId itemIds =
        .ok commit)
      (happly : db.applyImport lib actor commit = .ok (result, db'))

/-- An operation of a run is one of these. -/
theorem TimedOperation.Step.libraryMove {lib : ImportLibrary} {db db' : Database}
    {t : TimedOperation} (h : t.Step lib db db') : LibraryMove lib db t db' := by
  obtain ⟨now, operation⟩ := t
  obtain ⟨-, rfl⟩ := h
  cases operation with
  | login identity =>
    exact .same (Database.sameLibrary_login db identity)
  | note c =>
    refine .same ?_
    show db.SameLibrary (db.commit (c.exec db))
    cases hexec : c.exec db with
    | error error => exact .refl db
    | ok written => exact c.exec_sameLibrary hexec
  | library c =>
    show LibraryMove lib db _ (c.exec lib.json db now).2
    cases c with
    | add actor value itemId =>
      unfold LibraryCommand.exec
      dsimp only
      split
      · exact .same (.refl db)
      · next csl hcsl =>
        split
        · exact .same (.refl db)
        · next written hwritten => exact .insert actor csl itemId value rfl hwritten
    | update actor itemId revision value =>
      unfold LibraryCommand.exec
      dsimp only
      split
      · exact .same (.refl db)
      · next csl hcsl =>
        unfold Database.updateOwnedItem
        split
        · exact .same (.refl db)
        · next written hwritten => exact .update actor csl itemId revision value rfl hwritten
    | delete actor itemId revision =>
      cases howned : db.ownedItem actor itemId revision with
      | none =>
        refine .same ?_
        simp only [LibraryCommand.exec, Database.deleteOwnedItem, howned]
        exact .refl db
      | some old =>
        refine .delete actor itemId revision old rfl howned ?_
        simp only [LibraryCommand.exec, Database.deleteOwnedItem, howned]
  | «import» read actor input decisions previewToken sourceId itemIds =>
    show LibraryMove lib db _
      (db.importFile lib read actor input decisions previewToken now sourceId itemIds)
    unfold Database.importFile
    split
    · exact .same (.refl db)
    · next commit hplan =>
      cases happly : db.applyImport lib actor commit with
      | error error => exact .same (.refl db)
      | ok applied =>
        exact .import read actor input decisions previewToken sourceId itemIds commit applied.1 rfl
          hplan happly

/-! ## Statements -/

/-- One write of the library. -/
inductive LibraryStatement (db : Database) : Database → Prop
  | insertItem {new : BibliographyItemRow} {db' : Database}
      (h : db.insertBibliographyItemRow new = .ok db') : LibraryStatement db db'
  | updateItem {old new : BibliographyItemRow} {db' : Database}
      (hold : db.bibliographyItems.find new.itemId = some old)
      (h : db.updateBibliographyItemRow old new = .ok db') : LibraryStatement db db'
  | deleteItem (old : BibliographyItemRow)
      (hold : db.bibliographyItems.find old.itemId = some old) :
      LibraryStatement db (db.deleteBibliographyItemRow old)
  | imports (sources : Table ImportSourceRow) (links : Table ImportLinkRow) :
      LibraryStatement db
        { db with bibliographyImportSources := sources, bibliographyImportLinks := links }

/-- The statements of a transaction on libraries, in order. -/
abbrev LibraryStatements : Database → Database → Prop := ReflTransGen LibraryStatement

theorem LibraryStatement.statement {db db' : Database} (h : LibraryStatement db db') :
    Statement db db' := by
  cases h with
  | insertItem h => exact .insertItem h
  | updateItem hold h => exact .updateItem hold h
  | deleteItem old hold => exact .deleteItem old hold
  | imports sources links => exact .content _ _ _ _ _ sources links _

theorem LibraryStatements.statements {db db' : Database} (h : LibraryStatements db db') :
    Statements db db' :=
  ReflTransGen.mono (fun _ _ => LibraryStatement.statement) db db' h

namespace Database

section LibraryStatements

variable {db db' : Database} {actor : Actor} {json : JsonCodec}

theorem libraryStatement_insertItem {new : BibliographyItemRow}
    (h : db.insertItem new = .ok db') : LibraryStatement db db' := by
  unfold insertItem at h
  split_ifs at h
  exact .insertItem (Except.mapError_eq_ok.mp h)

theorem libraryStatement_writeOwnedItem {itemId : BibliographyItemId} {csl : ValidatedCslJson json}
    {now : ℤ} {revision : ℕ} (h : db.writeOwnedItem actor itemId csl now revision = .ok db') :
    LibraryStatement db db' := by
  unfold writeOwnedItem at h
  split at h
  · cases h
  · next old hold =>
    dsimp only at h
    split_ifs at h
    have hfind := (ownedItem_eq_some.mp hold).1
    have hid : old.itemId = itemId := Table.key_of_find hfind
    exact .updateItem (hid ▸ hfind) (Except.mapError_eq_ok.mp h)

/-- A mutation writes the item and its link. -/
theorem libraryStatements_applyMutation {mutation : BibliographyImportItemMutation json}
    (h : applyMutation actor db mutation = .ok db') : LibraryStatements db db' := by
  obtain ⟨written, hwritten, hlink⟩ := Except.bind_eq_ok.mp h
  have hitem : LibraryStatements db written := by
    cases mutation with
    | create item link =>
      unfold writeImportedItem at hwritten
      dsimp only at hwritten
      split_ifs at hwritten
      exact .single (libraryStatement_insertItem hwritten)
    | update itemId csl revision link updatedAt =>
      unfold writeImportedItem at hwritten
      dsimp only at hwritten
      split at hwritten
      · cases hwritten
      · next old hold =>
        have hfind := (ownedItem_eq_some.mp hold).1
        have hid : old.itemId = itemId := Table.key_of_find hfind
        exact .single (.updateItem (hid ▸ hfind) (Except.mapError_eq_ok.mp hwritten))
    | keep revision link =>
      unfold writeImportedItem at hwritten
      dsimp only at hwritten
      split at hwritten
      · cases hwritten
      · cases hwritten
        exact .refl
  obtain ⟨-, -, -, rfl⟩ := persistLink_eq_ok.mp hlink
  exact hitem.tail (.imports written.bibliographyImportSources _)

theorem libraryStatements_applyImport {lib : ImportLibrary}
    {commit : BibliographyImportCommit lib.json} {result : BibliographyImportResult}
    (h : db.applyImport lib actor commit = .ok (result, db')) : LibraryStatements db db' := by
  obtain ⟨-, -, -, revision, stored, hstored, hmutations, -⟩ := applyImport_eq_ok.mp h
  obtain ⟨sources, rfl⟩ := persistSource_eq hstored
  have hsource : LibraryStatements db { db with bibliographyImportSources := sources } :=
    .single (.imports sources db.bibliographyImportLinks)
  exact Except.foldlM_invariant (P := LibraryStatements db) hmutations hsource
    fun _ _ _ _ hs hstep => hs.trans (libraryStatements_applyMutation hstep)

end LibraryStatements

end Database

/-- The operation is one of the library. -/
def TimedOperation.OfLibrary (t : TimedOperation) : Prop :=
  match t.operation with
  | .library _ | .import .. => True
  | .login _ | .note _ => False

/-- An operation of the library carries no reading of its own. -/
theorem TimedOperation.OfLibrary.step {lib : ImportLibrary} {db : Database} {t : TimedOperation}
    (h : t.OfLibrary) : t.Step lib db (t.next lib db) := by
  refine ⟨?_, rfl⟩
  obtain ⟨now, operation⟩ := t
  cases operation with
  | note c => exact h.elim
  | login | library | «import» => trivial

/-- An operation of the library is a sequence of statements, whatever its outcome. -/
theorem TimedOperation.Step.libraryStatements {lib : ImportLibrary} {db db' : Database}
    {t : TimedOperation} (h : t.Step lib db db') (hlibrary : t.OfLibrary) :
    LibraryStatements db db' := by
  obtain ⟨now, operation⟩ := t
  obtain ⟨-, rfl⟩ := h
  cases operation with
  | login identity => exact hlibrary.elim
  | note c => exact hlibrary.elim
  | library c =>
    show LibraryStatements db (c.exec lib.json db now).2
    cases c with
    | add actor value itemId =>
      unfold LibraryCommand.exec
      dsimp only
      split
      · exact .refl
      · split
        · exact .refl
        · next hwritten => exact .single (Database.libraryStatement_insertItem hwritten)
    | update actor itemId revision value =>
      unfold LibraryCommand.exec
      dsimp only
      split
      · exact .refl
      · unfold Database.updateOwnedItem
        split
        · exact .refl
        · next hwritten => exact .single (Database.libraryStatement_writeOwnedItem hwritten)
    | delete actor itemId revision =>
      unfold LibraryCommand.exec Database.deleteOwnedItem
      dsimp only
      cases howned : db.ownedItem actor itemId revision with
      | none => exact .refl
      | some old =>
        have hfind := (Database.ownedItem_eq_some.mp howned).1
        have hid : old.itemId = itemId := Table.key_of_find hfind
        exact .single (.deleteItem old (hid ▸ hfind))
  | «import» read actor input decisions previewToken sourceId itemIds =>
    show LibraryStatements db
      (db.importFile lib read actor input decisions previewToken now sourceId itemIds)
    unfold Database.importFile
    split
    · exact .refl
    · next commit hplan =>
      cases happly : db.applyImport lib actor commit with
      | error error => exact .refl
      | ok applied => exact Database.libraryStatements_applyImport happly

/-! ## The commands of the library -/

namespace Database

variable {db db' : Database} {actor : Actor} {json : JsonCodec}

/-- An update replaces the owner's item by its next revision. -/
theorem writeOwnedItem_eq_ok {itemId : BibliographyItemId} {csl : ValidatedCslJson json} {now : ℤ}
    {revision : ℕ} (h : db.writeOwnedItem actor itemId csl now revision = .ok db') :
    ∃ old new, db.bibliographyItems.find itemId = some old ∧ old.owner = actor.principalId ∧
      old.revision = revision ∧
      new = { old with
        citationKey := csl.citationKey
        cslJson := csl.encoded
        updatedAt := now
        revision := old.revision + 1 } ∧
      (∀ row ∈ db.bibliographyItems, row.itemId ≠ itemId →
        ¬(row.owner = old.owner ∧ row.citationKey = csl.citationKey)) ∧
      db.SameExceptItems db' ∧ ∀ id, db'.bibliographyItems.find id =
        if itemId = id then some new else db.bibliographyItems.find id := by
  unfold writeOwnedItem at h
  split at h
  · cases h
  · next old hold =>
    dsimp only at h
    split at h
    · cases h
    · obtain ⟨hfind, howner, hrevision⟩ := ownedItem_eq_some.mp hold
      have hid : old.itemId = itemId := Table.key_of_find hfind
      have hupdate := Except.mapError_eq_ok.mp h
      have hkeys := updateBibliographyItemRow_unique hupdate
      obtain ⟨hsame, hitems⟩ := updateBibliographyItemRow_find hupdate
      refine ⟨old, _, hfind, howner, hrevision, rfl, fun row hrow hne => hkeys row hrow (hid ▸ hne),
        hsame, fun id => ?_⟩
      rw [hitems]
      by_cases heq : itemId = id
      · rw [if_pos heq, if_pos (show old.itemId = id from hid.trans heq)]
      · rw [if_neg heq, if_neg (show ¬old.itemId = id from hid ▸ heq)]

/-- A deletion takes the item and its links along. -/
theorem find_items_deleteBibliographyItemRow (old : BibliographyItemRow) (id : BibliographyItemId) :
    (db.deleteBibliographyItemRow old).bibliographyItems.find id =
      if old.itemId = id then none else db.bibliographyItems.find id := by
  show (db.bibliographyItems.deleteWhere fun row => row.itemId = old.itemId).find id = _
  rw [Table.find_deleteWhere]
  cases h : db.bibliographyItems.find id with
  | none => simp
  | some row =>
    have hid : row.itemId = id := Table.key_of_find h
    by_cases heq : old.itemId = id
    · simp [hid, heq]
    · simp [hid, heq, Ne.symm heq]

theorem mem_links_deleteBibliographyItemRow {old : BibliographyItemRow} {link : ImportLinkRow} :
    link ∈ (db.deleteBibliographyItemRow old).bibliographyImportLinks ↔
      link ∈ db.bibliographyImportLinks ∧ ¬(link.itemId = old.itemId ∧ link.owner = old.owner) := by
  show link ∈ db.bibliographyImportLinks.deleteWhere _ ↔ _
  rw [Table.mem_deleteWhere]
  simp

end Database

/-! ## A library of one article -/

/-- The token a preview of the input shows. -/
def shownToken (lib : ImportLibrary) (db : Database) (actor : Actor)
    (input : BibliographyImportInput) : String :=
  match previewWithState lib db actor input with
  | .ok (preview, _) => preview.previewToken
  | .error _ => ""

/-- The documents of the runs : the file, the edit of its item, and the next file. -/
def editedLibrary : ImportLibrary :=
  sampleImportLibrary [sampleArticle "doe2024" "First", sampleArticle "doe2024" "Edited",
    sampleArticle "doe2024" "Second"]

open Database in
/-- Alice imports a file of one item with a decision for it, right after a preview. -/
def importArticle (now : ℤ) (source : BibliographyImportSourceSelection) (title : String)
    (kind : BibliographyImportDecisionKind) (db : Database) : TimedOperation :=
  let input : BibliographyImportInput := ⟨source, [sampleArticle "doe2024" title]⟩
  ⟨now, .import db alice input [⟨0, kind, none⟩] (shownToken editedLibrary db alice input) ⟨1⟩
    fun _ => ⟨1⟩⟩

def editedNext (db : Database) (t : TimedOperation) : Database :=
  t.next editedLibrary db

end Marginalis
