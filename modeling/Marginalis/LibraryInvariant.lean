import Marginalis.ImportState
import Marginalis.LibraryRuns

/-!
# What holds of every library

An owner has one item for a citation key, an item's document is a checked one under that key,
and a link leads from its owner's source to its owner's item, at a revision the item had.
Every operation keeps this (`LibraryConsistent.step`), the imports mutation by mutation.
-/

namespace Marginalis

/-- The text of an item is a checked document under its citation key. -/
def BibliographyItemRow.HasDocument (json : JsonCodec) (row : BibliographyItemRow) : Prop :=
  ∃ csl : ValidatedCslJson json, csl.citationKey = row.citationKey ∧ csl.encoded = row.cslJson

/-- The tables of the library agree with each other. -/
structure Database.LibraryConsistent (json : JsonCodec) (db : Database) : Prop where
  principals : db.PrincipalsConsistent
  owners : ∀ row ∈ db.bibliographyItems, ∃ identity, db.primaryIdentity row.owner = some identity
  keys : ∀ a ∈ db.bibliographyItems, ∀ b ∈ db.bibliographyItems,
    a.owner = b.owner → a.citationKey = b.citationKey → a = b
  documents : ∀ row ∈ db.bibliographyItems, row.HasDocument json
  references : ∀ link ∈ db.bibliographyImportLinks, db.LinkReferences link
  imported : ∀ link ∈ db.bibliographyImportLinks, ∀ item,
    db.bibliographyItems.find link.itemId = some item →
      0 < link.importedItemRevision ∧ link.importedItemRevision ≤ item.revision

namespace Database

variable {json : JsonCodec} {db db' : Database} {actor : Actor}

theorem libraryConsistent_empty : empty.LibraryConsistent json :=
  ⟨principalsConsistent_empty, by simp [empty], by simp [empty], by simp [empty], by simp [empty],
    by simp [empty]⟩

theorem primaryIdentity_congr (h : db'.principalIdentities = db.principalIdentities)
    (q : PrincipalId) : db'.primaryIdentity q = db.primaryIdentity q := by
  unfold primaryIdentity
  rw [h]

namespace LibraryConsistent

variable (hdb : db.LibraryConsistent json)
include hdb

/-- The item of a link. -/
theorem exists_item {link : ImportLinkRow} (hlink : link ∈ db.bibliographyImportLinks) :
    ∃ item, db.bibliographyItems.find link.itemId = some item ∧ item.owner = link.owner ∧
      0 < link.importedItemRevision ∧ link.importedItemRevision ≤ item.revision := by
  obtain ⟨-, item, hitem, howner⟩ := hdb.references link hlink
  exact ⟨item, hitem, howner, hdb.imported link hlink item hitem⟩

theorem sameLibrary (h : db.SameLibrary db') : db'.LibraryConsistent json := by
  refine ⟨h.principals hdb.principals, ?_, ?_, ?_, ?_, ?_⟩
  · rw [h.items]
    intro row hrow
    obtain ⟨identity, hidentity⟩ := hdb.owners row hrow
    exact ⟨identity, h.identities row.owner identity hidentity⟩
  · rw [h.items]
    exact hdb.keys
  · rw [h.items]
    exact hdb.documents
  · unfold LinkReferences
    rw [h.links, h.sources, h.items]
    exact hdb.references
  · rw [h.links, h.items]
    exact hdb.imported

/-- A row is written, new or in place of the row with its id. -/
theorem replaceItem {new : BibliographyItemRow} (hsame : db.SameExceptItems db')
    (hitems : ∀ id, db'.bibliographyItems.find id =
      if new.itemId = id then some new else db.bibliographyItems.find id)
    (howner : ∃ identity, db.primaryIdentity new.owner = some identity)
    (hkeys : ∀ row ∈ db.bibliographyItems, row.itemId ≠ new.itemId →
      ¬(row.owner = new.owner ∧ row.citationKey = new.citationKey))
    (hdocument : new.HasDocument json)
    (hlinks : ∀ link ∈ db.bibliographyImportLinks, link.itemId = new.itemId →
      new.owner = link.owner ∧ 0 < link.importedItemRevision ∧
        link.importedItemRevision ≤ new.revision) : db'.LibraryConsistent json := by
  have hmem : ∀ row, row ∈ db'.bibliographyItems ↔
      row = new ∨ row ∈ db.bibliographyItems ∧ row.itemId ≠ new.itemId :=
    fun row => Table.mem_of_find_replaced hitems
  have hidentity := primaryIdentity_congr hsame.principalIdentities
  refine ⟨hdb.principals.congr hsame.principals hsame.principalIdentities, ?_, ?_, ?_, ?_, ?_⟩
  · intro row hrow
    rw [hidentity]
    rcases (hmem row).mp hrow with rfl | ⟨hrow, -⟩
    · exact howner
    · exact hdb.owners row hrow
  · intro a ha b hb hab hkey
    rcases (hmem a).mp ha with rfl | ⟨ha, hne⟩ <;> rcases (hmem b).mp hb with rfl | ⟨hb, hne'⟩
    · rfl
    · exact absurd ⟨hab.symm, hkey.symm⟩ (hkeys b hb hne')
    · exact absurd ⟨hab, hkey⟩ (hkeys a ha hne)
    · exact hdb.keys a ha b hb hab hkey
  · intro row hrow
    rcases (hmem row).mp hrow with rfl | ⟨hrow, -⟩
    · exact hdocument
    · exact hdb.documents row hrow
  · rw [hsame.links]
    intro link hlink
    obtain ⟨hsource, item, hitem, hitemOwner⟩ := hdb.references link hlink
    refine ⟨by rw [hsame.sources]; exact hsource, ?_⟩
    rw [hitems]
    split_ifs with heq
    · exact ⟨new, rfl, (hlinks link hlink heq.symm).1⟩
    · exact ⟨item, hitem, hitemOwner⟩
  · rw [hsame.links]
    intro link hlink item hitem
    rw [hitems] at hitem
    split_ifs at hitem with heq
    · cases hitem
      exact (hlinks link hlink heq.symm).2
    · exact hdb.imported link hlink item hitem

theorem insertItem {new : BibliographyItemRow} (hdocument : new.HasDocument json)
    (h : db.insertItem new = .ok db') : db'.LibraryConsistent json := by
  obtain ⟨hfree, hprincipal, hkeys, hsame, hitems⟩ := insertItem_eq_ok h
  refine hdb.replaceItem hsame hitems ?_ (fun row hrow _ => hkeys row hrow) hdocument ?_
  · obtain ⟨principal, hfind⟩ := Option.ne_none_iff_exists'.mp hprincipal
    have hid : principal.principalId = new.owner := Table.key_of_find hfind
    rw [← hid]
    exact hdb.principals.primary principal (Table.mem_of_find hfind)
  · intro link hlink heq
    obtain ⟨item, hitem, -⟩ := hdb.exists_item hlink
    rw [heq, hfree] at hitem
    cases hitem

/-- An item gets a new text and its next revision. -/
theorem replaceText {old : BibliographyItemRow} (new : BibliographyItemRow)
    (hold : old ∈ db.bibliographyItems) (hid : new.itemId = old.itemId)
    (howner : new.owner = old.owner)
    (hrevision : new.revision = old.revision + 1)
    (hkeys : ∀ row ∈ db.bibliographyItems, row.itemId ≠ new.itemId →
      ¬(row.owner = new.owner ∧ row.citationKey = new.citationKey))
    (hdocument : new.HasDocument json) (hsame : db.SameExceptItems db')
    (hitems : ∀ id, db'.bibliographyItems.find id =
      if new.itemId = id then some new else db.bibliographyItems.find id) :
    db'.LibraryConsistent json := by
  refine hdb.replaceItem hsame hitems ?_ hkeys hdocument fun link hlink heq => ?_
  · rw [howner]
    exact hdb.owners old hold
  · obtain ⟨item, hitem, hitemOwner, hpositive, hle⟩ := hdb.exists_item hlink
    have hfind : db.bibliographyItems.find old.itemId = some old := Table.find_of_mem hold
    rw [heq, hid, hfind] at hitem
    cases hitem
    exact ⟨howner.trans hitemOwner, hpositive, by omega⟩

theorem writeOwnedItem {itemId : BibliographyItemId} {csl : ValidatedCslJson json} {now : ℤ}
    {revision : ℕ} (h : db.writeOwnedItem actor itemId csl now revision = .ok db') :
    db'.LibraryConsistent json := by
  obtain ⟨old, new, hfind, -, -, hnew, hkeys, hsame, hitems⟩ := writeOwnedItem_eq_ok h
  have hid : new.itemId = itemId := by
    rw [hnew]
    exact Table.key_of_find hfind
  refine hdb.replaceText new (Table.mem_of_find hfind) ?_ ?_ ?_ ?_ ⟨csl, ?_, ?_⟩ hsame ?_
  · rw [hnew]
  · rw [hnew]
  · rw [hnew]
  · intro row hrow hne
    rw [hnew]
    exact hkeys row hrow (hid ▸ hne)
  · rw [hnew]
  · rw [hnew]
  · intro id
    rw [hitems, hid]

theorem deleteItem (old : BibliographyItemRow) (hold : old ∈ db.bibliographyItems) :
    (db.deleteBibliographyItemRow old).LibraryConsistent json := by
  have hmem : ∀ row, row ∈ (db.deleteBibliographyItemRow old).bibliographyItems →
      row ∈ db.bibliographyItems := by
    intro row hrow
    exact (Table.mem_deleteWhere.mp hrow).1
  refine ⟨hdb.principals.congr rfl rfl, fun row hrow => hdb.owners row (hmem row hrow), ?_,
    fun row hrow => hdb.documents row (hmem row hrow), ?_, ?_⟩
  · exact fun a ha b hb => hdb.keys a (hmem a ha) b (hmem b hb)
  · intro link hlink
    obtain ⟨hlink, hother⟩ := mem_links_deleteBibliographyItemRow.mp hlink
    obtain ⟨hsource, -⟩ := hdb.references link hlink
    obtain ⟨item, hitem, howner, -⟩ := hdb.exists_item hlink
    refine ⟨hsource, ?_⟩
    rw [find_items_deleteBibliographyItemRow]
    split_ifs with heq
    · have hfind : db.bibliographyItems.find old.itemId = some old := Table.find_of_mem hold
      rw [← heq, hfind] at hitem
      cases hitem
      exact absurd ⟨heq.symm, howner.symm⟩ hother
    · exact ⟨item, hitem, howner⟩
  · intro link hlink item hitem
    obtain ⟨hlink, -⟩ := mem_links_deleteBibliographyItemRow.mp hlink
    rw [find_items_deleteBibliographyItemRow] at hitem
    split_ifs at hitem
    exact hdb.imported link hlink item hitem

/-! ## Imports -/

/-- Sources are added or renewed, and keep their owners. -/
theorem replaceSources {sources : Table ImportSourceRow}
    (hsources : ∀ id source, db.bibliographyImportSources.find id = some source →
      ∃ source', sources.find id = some source' ∧ source'.owner = source.owner) :
    ({ db with bibliographyImportSources := sources } : Database).LibraryConsistent json := by
  refine ⟨hdb.principals.congr rfl rfl, hdb.owners, hdb.keys, hdb.documents, ?_, hdb.imported⟩
  intro link hlink
  obtain ⟨⟨source, hsource, howner⟩, hitem⟩ := hdb.references link hlink
  obtain ⟨source', hsource', howner'⟩ := hsources link.sourceId source hsource
  exact ⟨⟨source', hsource', howner'.trans howner⟩, hitem⟩

theorem persistSource {commit : BibliographyImportCommit json} {revision : ℕ}
    (h : db.persistSource actor commit = .ok (revision, db')) : db'.LibraryConsistent json := by
  unfold Database.persistSource at h
  split at h
  · obtain ⟨-, -, row, hrow, -, -, -, rfl⟩ := renewSource_eq_ok.mp h
    refine hdb.replaceSources fun id source hsource => ?_
    rw [Table.find_upsert]
    split_ifs with heq
    · have hid : row.sourceId = commit.source.sourceId := Table.key_of_find hrow
      have heq : row.sourceId = id := heq
      rw [← heq, hid, hrow] at hsource
      cases hsource
      exact ⟨_, rfl, rfl⟩
    · exact ⟨source, hsource, rfl⟩
  · obtain ⟨-, -, -, sources, hinsert, rfl⟩ := insertSource_eq_ok.mp h
    refine hdb.replaceSources fun id source hsource => ?_
    rw [Table.find_insert? hinsert]
    split_ifs with heq
    · rw [← heq, (Table.insert?_eq_some.mp hinsert).1] at hsource
      cases hsource
    · exact ⟨source, hsource, rfl⟩

theorem persistLink {link : BibliographyImportLink}
    (hrevision : ∀ item, db.bibliographyItems.find link.itemId = some item →
      link.importedItemRevision ≤ item.revision)
    (h : db.persistLink actor link = .ok db') : db'.LibraryConsistent json := by
  obtain ⟨hpositive, hreferences, -, rfl⟩ := persistLink_eq_ok.mp h
  refine ⟨hdb.principals.congr rfl rfl, hdb.owners, hdb.keys, hdb.documents, ?_, ?_⟩
  · intro row hrow
    rcases Table.mem_upsert.mp hrow with rfl | ⟨hrow, -⟩
    · exact hreferences
    · exact hdb.references row hrow
  · intro row hrow item hitem
    rcases Table.mem_upsert.mp hrow with rfl | ⟨hrow, -⟩
    · exact ⟨Nat.pos_of_ne_zero hpositive, hrevision item hitem⟩
    · exact hdb.imported row hrow item hitem

end LibraryConsistent

end Database

/-- The mutation is consistent, and its update is under the key the item has in the database. -/
def FitsLibrary {json : JsonCodec} (commit : BibliographyImportCommit json) (db : Database)
    (mutation : BibliographyImportItemMutation json) : Prop :=
  Database.ConsistentMutation commit mutation ∧
    ∀ itemId csl revision link updatedAt, mutation = .update itemId csl revision link updatedAt →
      ∀ row, db.bibliographyItems.find itemId = some row → row.citationKey = csl.citationKey

namespace Database

variable {json : JsonCodec} {db db' : Database} {actor : Actor}
  {commit : BibliographyImportCommit json} {mutation : BibliographyImportItemMutation json}

/-- A mutation leaves the target of its link at the revision of the link. -/
theorem revision_of_writeImportedItem (hfits : ConsistentMutation commit mutation)
    (h : db.writeImportedItem actor mutation = .ok db') :
    ∃ item, db'.bibliographyItems.find mutation.link.itemId = some item ∧
      mutation.link.importedItemRevision = item.revision := by
  obtain ⟨hguard, -, hitems⟩ := writeImportedItem_eq_ok h
  cases mutation with
  | create item link =>
    obtain ⟨-, hid, hrevision⟩ := hfits
    refine ⟨item.toRow, ?_, hrevision⟩
    rw [hitems]
    exact if_pos hid.symm
  | update itemId csl revision link updatedAt =>
    obtain ⟨-, hid, -, hrevision⟩ := hfits
    obtain ⟨old, hold, -, hat, -⟩ := hguard
    refine ⟨{ old with
        cslJson := csl.encoded, updatedAt := updatedAt, revision := old.revision + 1 },
      ?_, ?_⟩
    · rw [hitems]
      have htarget : itemId = link.itemId := hid.symm
      refine (if_pos htarget).trans ?_
      show (db.bibliographyItems.find link.itemId).map _ = _
      rw [← htarget, hold]
      rfl
    · show link.importedItemRevision = old.revision + 1
      omega
  | keep revision link =>
    obtain ⟨-, hrevision⟩ := hfits
    obtain ⟨old, hold, -, hat⟩ := hguard
    refine ⟨old, ?_, ?_⟩
    · rw [hitems]
      exact (if_pos rfl).trans hold
    · show link.importedItemRevision = old.revision
      omega

theorem LibraryConsistent.writeImportedItem (hdb : db.LibraryConsistent json)
    (hfits : FitsLibrary commit db mutation)
    (h : db.writeImportedItem actor mutation = .ok db') : db'.LibraryConsistent json := by
  cases mutation with
  | create item link =>
    unfold Database.writeImportedItem at h
    dsimp only at h
    split_ifs at h
    exact hdb.insertItem (show item.toRow.HasDocument json from item.csl) h
  | update itemId csl revision link updatedAt =>
    obtain ⟨⟨old, hold, -, -, hkeys⟩, hsame, hitems⟩ := writeImportedItem_eq_ok h
    have hid : old.itemId = itemId := Table.key_of_find hold
    have hkey := hfits.2 itemId csl revision link updatedAt rfl old hold
    set new : BibliographyItemRow :=
      { old with cslJson := csl.encoded, updatedAt := updatedAt, revision := old.revision + 1 }
      with hnew
    refine hdb.replaceText new (Table.mem_of_find hold) rfl rfl rfl
      (fun row hrow hne => hkeys row hrow (hid ▸ hne)) ⟨csl, hkey.symm, rfl⟩ hsame fun id => ?_
    rw [hitems]
    by_cases heq : itemId = id
    · rw [if_pos (show new.itemId = id from hid.trans heq), ← heq, hold]
      exact if_pos rfl
    · rw [if_neg (show ¬new.itemId = id from hid ▸ heq)]
      exact if_neg heq
  | keep revision link =>
    unfold Database.writeImportedItem at h
    dsimp only at h
    split at h
    · cases h
    · cases h
      exact hdb

theorem LibraryConsistent.applyMutation (hdb : db.LibraryConsistent json)
    (hfits : FitsLibrary commit db mutation) (h : applyMutation actor db mutation = .ok db') :
    db'.LibraryConsistent json := by
  obtain ⟨written, hwritten, hlink⟩ := Except.bind_eq_ok.mp h
  obtain ⟨item, hitem, hrevision⟩ := revision_of_writeImportedItem hfits.1 hwritten
  refine (hdb.writeImportedItem hfits hwritten).persistLink (fun item' hitem' => ?_) hlink
  cases hitem.symm.trans hitem'
  omega

/-- A mutation never changes the citation key of an item. -/
theorem citationKey_applyMutation (h : Database.applyMutation actor db mutation = .ok db')
    {id : BibliographyItemId} {row : BibliographyItemRow}
    (hrow : db.bibliographyItems.find id = some row) :
    ∃ row', db'.bibliographyItems.find id = some row' ∧ row'.citationKey = row.citationKey := by
  obtain ⟨hguard, -, -, -, hitems, -⟩ := applyMutation_eq_ok h
  rw [hitems]
  split_ifs with htarget
  · cases mutation with
    | create item link =>
      have hid : item.itemId = id := htarget
      have hfree := hguard.2.2.1
      rw [hid, hrow] at hfree
      cases hfree
    | update itemId csl revision link updatedAt =>
      rw [hrow]
      exact ⟨_, rfl, rfl⟩
    | keep revision link => exact ⟨row, hrow, rfl⟩
  · exact ⟨row, hrow, rfl⟩

/-- An item of the state a commit expects is a row of the database that has the state. -/
theorem row_of_expectedState {lib : ImportLibrary}
    {sourceId : Option BibliographyImportSourceId}
    {current expected : BibliographyImportState lib.json}
    (hcurrent : db.loadState lib actor sourceId = .ok current) (hsame : current.Same expected)
    {item : BibliographyItem lib.json} (hitem : item ∈ expected.items) :
    ∃ row, db.bibliographyItems.find item.itemId = some row ∧ row.owner = actor.principalId ∧
      row.citationKey = item.citationKey ∧ row.revision = item.revision ∧
      row.createdAt = item.createdAt := by
  have hmem : item.toRow ∈ current.items.map BibliographyItem.toRow := by
    rw [hsame.2.2]
    exact List.mem_map_of_mem hitem
  obtain ⟨item', hitem', htoRow⟩ := List.mem_map.mp hmem
  obtain ⟨row, hrow, howner, identity, -, hdecode⟩ := (mem_items_of_loadState hcurrent).mp hitem'
  obtain ⟨-, -, -, csl, -, hstored⟩ := decodeItem_eq_ok.mp hdecode
  have hall := htoRow.symm.trans hstored
  simp only [BibliographyItem.toRow, BibliographyItemRow.mk.injEq] at hall
  obtain ⟨hid, -, hkey, -, hcreated, -, hrevision⟩ := hall
  refine ⟨row, ?_, howner, hkey.symm, hrevision.symm, hcreated.symm⟩
  rw [hid]
  exact Table.find_of_mem hrow

theorem LibraryConsistent.applyImport {lib : ImportLibrary} (hdb : db.LibraryConsistent lib.json)
    {commit : BibliographyImportCommit lib.json} {result : BibliographyImportResult}
    (h : db.applyImport lib actor commit = .ok (result, db')) : db'.LibraryConsistent lib.json := by
  obtain ⟨-, hconsistent, ⟨current, hcurrent, hsame⟩, revision, stored, hsource, hwritten, -⟩ :=
    applyImport_eq_ok.mp h
  obtain ⟨sources, rfl⟩ := persistSource_eq hsource
  -- Items keep their keys through the whole loop, so the keys of the plan stay those of the rows.
  refine (Except.foldlM_invariant (P := fun s => s.LibraryConsistent lib.json ∧
    ∀ id row, db.bibliographyItems.find id = some row → ∃ row',
      s.bibliographyItems.find id = some row' ∧ row'.citationKey = row.citationKey) hwritten
    ⟨hdb.persistSource hsource, fun id row hrow => ⟨row, hrow, rfl⟩⟩ ?_).1
  rintro s mutation t hmutation ⟨hs, hkeys⟩ hstep
  have hfits : FitsLibrary commit s mutation := by
    refine ⟨hconsistent mutation hmutation, ?_⟩
    rintro itemId csl revision link updatedAt rfl row hrow
    obtain ⟨-, -, ⟨item, hitem, rfl, -, hkey⟩, -⟩ := hconsistent _ hmutation
    obtain ⟨row₀, hrow₀, -, hkey₀, -⟩ := row_of_expectedState hcurrent hsame hitem
    obtain ⟨row', hrow', hkey'⟩ := hkeys item.itemId row₀ hrow₀
    cases hrow'.symm.trans hrow
    rw [hkey', hkey₀, hkey]
  refine ⟨hs.applyMutation hfits hstep, fun id row hrow => ?_⟩
  obtain ⟨row', hrow', hkey'⟩ := hkeys id row hrow
  obtain ⟨row'', hrow'', hkey''⟩ := citationKey_applyMutation hstep hrow'
  exact ⟨row'', hrow'', hkey''.trans hkey'⟩

end Database

/-! ## Runs -/

/-- Every operation keeps the library consistent. -/
theorem Database.LibraryConsistent.step {lib : ImportLibrary} {db db' : Database}
    {t : TimedOperation} (hdb : db.LibraryConsistent lib.json) (h : t.Step lib db db') :
    db'.LibraryConsistent lib.json := by
  cases h.libraryMove with
  | same h => exact hdb.sameLibrary h
  | insert actor csl itemId value hlabel h =>
    exact hdb.insertItem ⟨csl, rfl, rfl⟩ h
  | update actor csl itemId revision value hlabel h => exact hdb.writeOwnedItem h
  | delete actor itemId revision old hlabel hold h =>
    rw [h]
    exact hdb.deleteItem old (Table.mem_of_find (Database.ownedItem_eq_some.mp hold).1)
  | «import» read actor input decisions previewToken sourceId itemIds commit result hlabel hplan
      happly => exact hdb.applyImport happly

/-- Every library a run reaches is consistent. -/
theorem libraryConsistent_of_run {lib : ImportLibrary} {db : Database}
    {moves : List (Move Database TimedOperation)}
    (hrun : Run (TimedOperation.Step lib) Database.empty moves db) :
    db.LibraryConsistent lib.json :=
  hrun.invariant (fun _ _ _ hs hstep => hs.step hstep) Database.libraryConsistent_empty

end Marginalis
