import Marginalis.ImportPlan
import Marginalis.Statements

/-!
# What a committed import writes

The inversion of the transaction. A committed import found the state its plan was made
against, and moved the revision of the source. Each mutation wrote one item and one link
(`applyMutation_eq_ok`). No two mutations have one target or one external id, so the rows of
the end are those of the mutations, and all others are as before
(`find_items_applyMutations`, `find_links_applyMutations`).
-/

namespace Marginalis

namespace Database

variable {lib : ImportLibrary} {json : JsonCodec} {db db' : Database} {actor : Actor}

theorem applyImport_eq_ok {commit : BibliographyImportCommit lib.json}
    {result : BibliographyImportResult} :
    db.applyImport lib actor commit = .ok (result, db') ↔
      commit.source.owner.id = actor.principalId ∧ CommitIsConsistent commit ∧
        (∃ current, db.loadState lib actor
            (commit.expectedState.source.map BibliographyImportSource.sourceId) = .ok current ∧
          current.Same commit.expectedState) ∧
        ∃ revision stored, db.persistSource actor commit = .ok (revision, stored) ∧
          commit.mutations.foldlM (applyMutation actor) stored = .ok db' ∧
          result = importResult commit revision := by
  unfold applyImport
  by_cases howner : commit.source.owner.id = actor.principalId
  · by_cases hconsistent : CommitIsConsistent commit
    · rw [if_neg (not_not.mpr howner), if_neg (not_not.mpr hconsistent), Except.bind_eq_ok]
      constructor
      · rintro ⟨current, hcurrent, h⟩
        by_cases hsame : current.Same commit.expectedState
        · rw [if_neg (not_not.mpr hsame)] at h
          obtain ⟨⟨revision, stored⟩, hstored, h⟩ := Except.bind_eq_ok.mp h
          obtain ⟨written, hwritten, h⟩ := Except.bind_eq_ok.mp h
          cases h
          exact ⟨howner, hconsistent, ⟨current, hcurrent, hsame⟩, revision, stored, hstored,
            hwritten, rfl⟩
        · rw [if_pos hsame] at h
          obtain ⟨_, hthrow, -⟩ := Except.bind_eq_ok.mp h
          cases hthrow
      · rintro ⟨-, -, ⟨current, hcurrent, hsame⟩, revision, stored, hstored, hwritten, rfl⟩
        refine ⟨current, hcurrent, ?_⟩
        rw [if_neg (not_not.mpr hsame)]
        simp only [hstored, hwritten, bind, Except.bind, pure, Except.pure]
    · simp [howner, hconsistent]
  · simp [howner]

/-! ## The source -/

variable {source : BibliographyImportSource} {sourceId : BibliographyImportSourceId}
  {importedAt : ℤ} {revision : ℕ} {new : ImportSourceRow}

theorem renewSource_eq_ok :
    db.renewSource actor source sourceId importedAt = .ok (revision, db') ↔
      source.sourceId = sourceId ∧ revision = source.revision + 1 ∧
        ∃ row, db.bibliographyImportSources.find sourceId = some row ∧
          row.owner = actor.principalId ∧ row.revision = source.revision ∧
          row.createdAt ≤ importedAt ∧
          db' = { db with
            bibliographyImportSources := db.bibliographyImportSources.upsert
              { row with lastImportedAt := importedAt, revision := row.revision + 1 } } := by
  unfold renewSource
  constructor
  · intro h
    split at h
    · cases h
    · next hid =>
      split at h
      · cases h
      · next row hrow =>
        split at h
        · next hcheck =>
          cases h
          obtain ⟨hfind, hguard⟩ := Option.filter_eq_some_iff.mp hrow
          simp only [decide_eq_true_eq] at hguard
          exact ⟨not_not.mp hid, rfl, row, hfind, hguard.1, hguard.2, hcheck.2, rfl⟩
        · cases h
  · rintro ⟨hid, rfl, row, hfind, howner, hrevision, hle, rfl⟩
    have hcheck : sourceCheck
        { row with lastImportedAt := importedAt, revision := row.revision + 1 } :=
      ⟨Nat.succ_pos _, hle⟩
    have hrow : (db.bibliographyImportSources.find sourceId).filter
        (fun row => decide (row.owner = actor.principalId ∧ row.revision = source.revision)) =
          some row := by
      simp [hfind, Option.filter_some, howner, hrevision]
    simp only [hid, ne_eq, not_true_eq_false, if_false, hrow, hcheck, if_true]

theorem insertSource_eq_ok :
    db.insertSource actor new = .ok (revision, db') ↔
      sourceCheck new ∧ db.principals.find actor.principalId ≠ none ∧ revision = initialRevision ∧
        ∃ sources, db.bibliographyImportSources.insert? new = some sources ∧
          db' = { db with bibliographyImportSources := sources } := by
  unfold insertSource
  constructor
  · intro h
    split at h
    · cases h
    · next hcheck =>
      split at h
      · cases h
      · next hprincipal =>
        split at h
        · cases h
        · next sources hinsert =>
          cases h
          exact ⟨not_not.mp hcheck, hprincipal, rfl, sources, hinsert, rfl⟩
  · rintro ⟨hcheck, hprincipal, rfl, sources, hinsert, rfl⟩
    simp only [hcheck, hprincipal, not_true_eq_false, if_false, hinsert]

/-- Persisting the source writes one table. -/
theorem persistSource_eq {commit : BibliographyImportCommit json}
    (h : db.persistSource actor commit = .ok (revision, db')) :
    ∃ sources, db' = { db with bibliographyImportSources := sources } := by
  unfold persistSource at h
  split at h
  · obtain ⟨-, -, row, -, -, -, -, rfl⟩ := renewSource_eq_ok.mp h
    exact ⟨_, rfl⟩
  · obtain ⟨-, -, -, sources, -, rfl⟩ := insertSource_eq_ok.mp h
    exact ⟨_, rfl⟩

/-! ## Links and items -/

variable {link : BibliographyImportLink}

theorem persistLink_eq_ok :
    db.persistLink actor link = .ok db' ↔ link.importedItemRevision ≠ 0 ∧
      db.LinkReferences (link.toRow actor.principalId) ∧
      (∀ old, db.bibliographyImportLinks.find (link.sourceId, link.externalItemId) = some old →
        old.itemId = link.itemId ∧ old.owner = actor.principalId) ∧
      db' = { db with
        bibliographyImportLinks :=
          db.bibliographyImportLinks.upsert (link.toRow actor.principalId) } := by
  unfold persistLink
  constructor
  · intro h
    dsimp only at h
    split at h
    · cases h
    · next hpositive =>
      split at h
      · cases h
      · next hreferences =>
        split at h
        · next hnone =>
          cases h
          refine ⟨hpositive, not_not.mp hreferences, fun old hold => ?_, rfl⟩
          cases hnone.symm.trans hold
        · next old' hold' =>
          split at h
          · next hsame =>
            cases h
            refine ⟨hpositive, not_not.mp hreferences, fun old hold => ?_, rfl⟩
            cases hold'.symm.trans hold
            exact hsame
          · cases h
  · rintro ⟨hpositive, hreferences, hsame, rfl⟩
    have hpositive' : (link.toRow actor.principalId).importedItemRevision ≠ 0 := hpositive
    simp only [hpositive', hreferences, not_true_eq_false, if_false]
    split
    · rfl
    · next old hold => exact if_pos (hsame old hold)

end Database

namespace BibliographyImportItemMutation

variable {json : JsonCodec}

/-- The row of the target after a mutation. -/
def writtenRow (old : Option BibliographyItemRow) :
    BibliographyImportItemMutation json → Option BibliographyItemRow
  | create item _ => some item.toRow
  | update _ csl _ _ updatedAt => old.map fun row =>
    { row with cslJson := csl.encoded, updatedAt := updatedAt, revision := row.revision + 1 }
  | keep .. => old

/-- What the write of a mutation found at its target. -/
def Guard (db : Database) (actor : Actor) : BibliographyImportItemMutation json → Prop
  | create item _ => item.owner.id = actor.principalId ∧
    db.principals.find actor.principalId ≠ none ∧
    db.bibliographyItems.find item.itemId = none ∧
    ∀ row ∈ db.bibliographyItems, ¬(row.owner = item.owner.id ∧ row.citationKey = item.citationKey)
  | update itemId _ revision .. => ∃ old, db.bibliographyItems.find itemId = some old ∧
    old.owner = actor.principalId ∧ old.revision = revision ∧
    ∀ row ∈ db.bibliographyItems, row.itemId ≠ itemId →
      ¬(row.owner = old.owner ∧ row.citationKey = old.citationKey)
  | keep revision link => ∃ old, db.bibliographyItems.find link.itemId = some old ∧
    old.owner = actor.principalId ∧ old.revision = revision

end BibliographyImportItemMutation

/-- The tables an item's write leaves alone. -/
structure Database.SameExceptItems (db db' : Database) : Prop where
  principals : db'.principals = db.principals
  principalIdentities : db'.principalIdentities = db.principalIdentities
  sources : db'.bibliographyImportSources = db.bibliographyImportSources
  links : db'.bibliographyImportLinks = db.bibliographyImportLinks

namespace Database

variable {json : JsonCodec} {db db' : Database} {actor : Actor}
  {mutation : BibliographyImportItemMutation json}

theorem ownedItem_eq_some {itemId : BibliographyItemId} {revision : ℕ} {old : BibliographyItemRow} :
    db.ownedItem actor itemId revision = some old ↔ db.bibliographyItems.find itemId = some old ∧
      old.owner = actor.principalId ∧ old.revision = revision := by
  unfold ownedItem
  rw [Option.filter_eq_some_iff]
  simp

/-- A new item has a citation key of its own. -/
theorem insertBibliographyItemRow_unique {new : BibliographyItemRow}
    (h : db.insertBibliographyItemRow new = .ok db') :
    ∀ row ∈ db.bibliographyItems, ¬(row.owner = new.owner ∧ row.citationKey = new.citationKey) := by
  unfold insertBibliographyItemRow at h
  split at h
  · next hcheck => exact hcheck.2.2
  · cases h

theorem insertBibliographyItemRow_owner {new : BibliographyItemRow}
    (h : db.insertBibliographyItemRow new = .ok db') : db.principals.find new.owner ≠ none := by
  unfold insertBibliographyItemRow at h
  split at h
  · next hcheck => exact Option.isSome_iff_ne_none.mp hcheck.2.1
  · cases h

theorem updateBibliographyItemRow_unique {old new : BibliographyItemRow}
    (h : db.updateBibliographyItemRow old new = .ok db') :
    ∀ row ∈ db.bibliographyItems, row.itemId ≠ new.itemId →
      ¬(row.owner = new.owner ∧ row.citationKey = new.citationKey) := by
  unfold updateBibliographyItemRow at h
  split at h
  · next hcheck => exact hcheck.2
  · cases h

/-- An inserted item has an id and a citation key of its own. -/
theorem insertItem_eq_ok {new : BibliographyItemRow} (h : db.insertItem new = .ok db') :
    db.bibliographyItems.find new.itemId = none ∧ db.principals.find new.owner ≠ none ∧
      (∀ row ∈ db.bibliographyItems, ¬(row.owner = new.owner ∧ row.citationKey = new.citationKey)) ∧
      db.SameExceptItems db' ∧ ∀ id, db'.bibliographyItems.find id =
        if new.itemId = id then some new else db.bibliographyItems.find id := by
  unfold insertItem at h
  split at h
  · cases h
  · have hinsert := Except.mapError_eq_ok.mp h
    obtain ⟨items, hitems, rfl⟩ := insertBibliographyItemRow_eq_ok hinsert
    exact ⟨(Table.insert?_eq_some.mp hitems).1, insertBibliographyItemRow_owner hinsert,
      insertBibliographyItemRow_unique hinsert, ⟨rfl, rfl, rfl, rfl⟩,
      fun id => Table.find_insert? hitems id⟩

/-- An updated row replaces the one with its id. -/
theorem updateBibliographyItemRow_find {old new : BibliographyItemRow}
    (h : db.updateBibliographyItemRow old new = .ok db') :
    db.SameExceptItems db' ∧ ∀ id, db'.bibliographyItems.find id =
      if new.itemId = id then some new else db.bibliographyItems.find id := by
  rcases updateBibliographyItemRow_eq_ok h with ⟨-, rfl⟩ | ⟨-, rfl⟩
  · exact ⟨⟨rfl, rfl, rfl, rfl⟩, fun id => Table.find_upsert id⟩
  · exact ⟨⟨rfl, rfl, rfl, rfl⟩, fun id => Table.find_upsert id⟩

/-- The write of a mutation puts the row of its target in place. -/
theorem writeImportedItem_eq_ok (h : db.writeImportedItem actor mutation = .ok db') :
    mutation.Guard db actor ∧ db.SameExceptItems db' ∧
      ∀ id, db'.bibliographyItems.find id =
        if mutation.targetItemId = id then mutation.writtenRow (db.bibliographyItems.find id)
        else db.bibliographyItems.find id := by
  cases mutation with
  | create item link =>
    unfold writeImportedItem at h
    dsimp only at h
    split at h
    · cases h
    · next howner =>
      split at h
      · cases h
      · next hprincipal =>
        obtain ⟨hfree, -, hkeys, hsame, hitems⟩ := insertItem_eq_ok h
        exact ⟨⟨not_not.mp howner, hprincipal, hfree, hkeys⟩, hsame, hitems⟩
  | update itemId csl revision link updatedAt =>
    unfold writeImportedItem at h
    dsimp only at h
    split at h
    · cases h
    · next old hold =>
      obtain ⟨hfind, howner, hrevision⟩ := ownedItem_eq_some.mp hold
      have hupdate := Except.mapError_eq_ok.mp h
      have hid : old.itemId = itemId := Table.key_of_find hfind
      have hkeys := updateBibliographyItemRow_unique hupdate
      obtain ⟨hsame, hitems⟩ := updateBibliographyItemRow_find hupdate
      refine ⟨⟨old, hfind, howner, hrevision, fun row hrow hne => hkeys row hrow (hid ▸ hne)⟩,
        hsame, fun id => ?_⟩
      rw [hitems]
      by_cases heq : itemId = id
      · rw [if_pos (show old.itemId = id from hid.trans heq), ← heq, hfind]
        exact (if_pos rfl).symm
      · rw [if_neg (show ¬old.itemId = id from hid ▸ heq)]
        exact (if_neg heq).symm
  | keep revision link =>
    unfold writeImportedItem at h
    dsimp only at h
    split at h
    · cases h
    · next old hold =>
      cases h
      refine ⟨⟨old, ownedItem_eq_some.mp hold⟩, ⟨rfl, rfl, rfl, rfl⟩, fun id => ?_⟩
      split_ifs <;> rfl

/-- A write that finds what it expects is made. -/
theorem exists_writeImportedItem (h : mutation.Guard db actor) :
    ∃ db', db.writeImportedItem actor mutation = .ok db' := by
  cases mutation with
  | create item link =>
    obtain ⟨howner, hprincipal, hfree, hkeys⟩ := h
    obtain ⟨items, hitems⟩ := Table.exists_insert? (r := item.toRow) hfree
    have htaken : ¬db.CitationKeyTaken item.toRow := by
      rintro ⟨row, hrow, -, hsame⟩
      exact hkeys row hrow hsame
    have hcheck : 0 < item.toRow.revision ∧ (db.principals.find item.toRow.owner).isSome ∧
        ∀ row ∈ db.bibliographyItems,
          ¬(row.owner = item.toRow.owner ∧ row.citationKey = item.toRow.citationKey) := by
      refine ⟨item.positive, ?_, hkeys⟩
      rw [Option.isSome_iff_ne_none, show item.toRow.owner = actor.principalId from howner]
      exact hprincipal
    have hfree' : ¬((db.bibliographyItems.find item.toRow.itemId).isSome = true ∨
        db.CitationKeyTaken item.toRow) := by
      rw [not_or]
      exact ⟨by simp [show db.bibliographyItems.find item.toRow.itemId = none from hfree], htaken⟩
    have hok : ∃ db', db.insertBibliographyItemRow item.toRow = .ok db' := by
      unfold insertBibliographyItemRow
      rw [if_pos hcheck, hitems]
      exact ⟨_, rfl⟩
    obtain ⟨db', hok⟩ := hok
    refine ⟨db', ?_⟩
    unfold writeImportedItem
    simp only [howner, ne_eq, not_true_eq_false, if_false, hprincipal]
    unfold insertItem
    rw [if_neg hfree', hok]
    rfl
  | update itemId csl revision link updatedAt =>
    obtain ⟨old, hfind, howner, hrevision, hkeys⟩ := h
    have hid : old.itemId = itemId := Table.key_of_find hfind
    have hold := ownedItem_eq_some.mpr ⟨hfind, howner, hrevision⟩
    set new : BibliographyItemRow :=
      { old with cslJson := csl.encoded, updatedAt := updatedAt, revision := old.revision + 1 }
      with hnew
    have hcheck : 0 < new.revision ∧ ∀ row ∈ db.bibliographyItems, row.itemId ≠ new.itemId →
        ¬(row.owner = new.owner ∧ row.citationKey = new.citationKey) :=
      ⟨Nat.succ_pos _, fun row hrow hne => hkeys row hrow (hid ▸ hne)⟩
    have hok : ∃ db', db.updateBibliographyItemRow old new = .ok db' := by
      unfold updateBibliographyItemRow
      rw [if_pos hcheck]
      exact ⟨_, rfl⟩
    obtain ⟨db', hok⟩ := hok
    refine ⟨db', ?_⟩
    unfold writeImportedItem
    dsimp only
    rw [hold]
    dsimp only
    rw [← hnew, hok]
    rfl
  | keep revision link =>
    obtain ⟨old, hfind, howner, hrevision⟩ := h
    refine ⟨db, ?_⟩
    unfold writeImportedItem
    dsimp only
    rw [ownedItem_eq_some.mpr ⟨hfind, howner, hrevision⟩]

end Database

/-! ## All mutations of a plan -/

/-- A search for a key finds the element when there is no other with it. -/
theorem find?_eq_some_of_unique {α κ : Type*} [DecidableEq κ] {l : List α} {f : α → κ} {a : α}
    (ha : a ∈ l) (hunique : ∀ b ∈ l, f b = f a → b = a) :
    (l.find? fun b => f b = f a) = some a := by
  cases h : l.find? fun b => f b = f a with
  | none => simpa using List.find?_eq_none.mp h a ha
  | some b =>
    rw [hunique b (List.mem_of_find?_eq_some h) (by simpa using List.find?_some h)]

/-- The key of the link a mutation writes. -/
def BibliographyImportItemMutation.linkKey {json : JsonCodec}
    (mutation : BibliographyImportItemMutation json) : BibliographyImportSourceId × String :=
  (mutation.link.sourceId, mutation.link.externalItemId)

namespace Database

variable {json : JsonCodec} {db db' : Database} {actor : Actor}
  {mutation : BibliographyImportItemMutation json}
  {mutations : List (BibliographyImportItemMutation json)}

/-- One mutation : the row of its target and the row of its link. -/
theorem applyMutation_eq_ok (h : applyMutation actor db mutation = .ok db') :
    mutation.Guard db actor ∧ db'.principals = db.principals ∧
      db'.principalIdentities = db.principalIdentities ∧
      db'.bibliographyImportSources = db.bibliographyImportSources ∧
      (∀ id, db'.bibliographyItems.find id =
        if mutation.targetItemId = id then mutation.writtenRow (db.bibliographyItems.find id)
        else db.bibliographyItems.find id) ∧
      ∀ key, db'.bibliographyImportLinks.find key =
        if mutation.linkKey = key then some (mutation.link.toRow actor.principalId)
        else db.bibliographyImportLinks.find key := by
  obtain ⟨written, hwritten, hlink⟩ := Except.bind_eq_ok.mp h
  obtain ⟨hguard, hsame, hitems⟩ := writeImportedItem_eq_ok hwritten
  obtain ⟨-, -, -, rfl⟩ := persistLink_eq_ok.mp hlink
  refine ⟨hguard, hsame.principals, hsame.principalIdentities, hsame.sources, hitems, fun key => ?_⟩
  show (written.bibliographyImportLinks.upsert _).find key = _
  rw [Table.find_upsert, hsame.links]
  rfl

/-- The rows at the end of a plan. -/
structure Applied (actor : Actor) (mutations : List (BibliographyImportItemMutation json))
    (db db' : Database) : Prop where
  principals : db'.principals = db.principals
  principalIdentities : db'.principalIdentities = db.principalIdentities
  sources : db'.bibliographyImportSources = db.bibliographyImportSources
  items : ∀ id, db'.bibliographyItems.find id =
    match mutations.find? fun mutation => mutation.targetItemId = id with
    | some mutation => mutation.writtenRow (db.bibliographyItems.find id)
    | none => db.bibliographyItems.find id
  links : ∀ key, db'.bibliographyImportLinks.find key =
    match mutations.find? fun mutation => mutation.linkKey = key with
    | some mutation => some (mutation.link.toRow actor.principalId)
    | none => db.bibliographyImportLinks.find key

/-- With distinct targets and links, each mutation decides its own rows. -/
theorem applied_of_applyMutations
    (htargets : (mutations.map BibliographyImportItemMutation.targetItemId).Nodup)
    (hlinks : (mutations.map BibliographyImportItemMutation.linkKey).Nodup)
    (h : mutations.foldlM (applyMutation actor) db = .ok db') : Applied actor mutations db db' := by
  induction mutations generalizing db with
  | nil =>
    cases h
    exact ⟨rfl, rfl, rfl, fun _ => rfl, fun _ => rfl⟩
  | cons mutation mutations ih =>
    rw [List.foldlM_cons, Except.bind_eq_ok] at h
    obtain ⟨first, hfirst, hrest⟩ := h
    rw [List.map_cons, List.nodup_cons] at htargets hlinks
    obtain ⟨-, hprincipals, hidentities, hsources, hitems, hlinks'⟩ := applyMutation_eq_ok hfirst
    have hrest := ih htargets.2 hlinks.2 hrest
    refine ⟨hrest.principals.trans hprincipals, hrest.principalIdentities.trans hidentities,
      hrest.sources.trans hsources, fun id => ?_, fun key => ?_⟩
    · rw [hrest.items, hitems, List.find?_cons]
      by_cases htarget : mutation.targetItemId = id
      · have hnone : (mutations.find? fun mutation => mutation.targetItemId = id) = none := by
          rw [List.find?_eq_none]
          intro other hother heq
          refine htargets.1 (List.mem_map.mpr ⟨other, hother, ?_⟩)
          rw [htarget]
          simpa using heq
        simp [htarget, hnone]
      · simp [htarget]
    · rw [hrest.links, hlinks', List.find?_cons]
      by_cases hkey : mutation.linkKey = key
      · have hnone : (mutations.find? fun mutation => mutation.linkKey = key) = none := by
          rw [List.find?_eq_none]
          intro other hother heq
          refine hlinks.1 (List.mem_map.mpr ⟨other, hother, ?_⟩)
          rw [hkey]
          simpa using heq
        simp [hkey, hnone]
      · simp [hkey]

/-- Each mutation of a plan found its target in the state the plan was applied to. -/
theorem exists_of_applyMutations
    (htargets : (mutations.map BibliographyImportItemMutation.targetItemId).Nodup)
    (h : mutations.foldlM (applyMutation actor) db = .ok db') (hmem : mutation ∈ mutations) :
    ∃ before, mutation.Guard before actor ∧
      before.bibliographyItems.find mutation.targetItemId =
        db.bibliographyItems.find mutation.targetItemId := by
  induction mutations generalizing db with
  | nil => cases hmem
  | cons first mutations ih =>
    rw [List.foldlM_cons, Except.bind_eq_ok] at h
    obtain ⟨written, hfirst, hrest⟩ := h
    rw [List.map_cons, List.nodup_cons] at htargets
    obtain ⟨hguard, -, -, -, hitems, -⟩ := applyMutation_eq_ok hfirst
    rcases List.mem_cons.mp hmem with rfl | hmem
    · exact ⟨db, hguard, rfl⟩
    · obtain ⟨before, hbefore, heq⟩ := ih htargets.2 hrest hmem
      refine ⟨before, hbefore, heq.trans ?_⟩
      have hne : first.targetItemId ≠ mutation.targetItemId := fun hsame =>
        htargets.1 (hsame ▸ List.mem_map_of_mem hmem)
      rw [hitems, if_neg hne]

end Database

/-- What a mutation of an applied plan found in the database before the import. -/
def BibliographyImportItemMutation.Found {json : JsonCodec} (db : Database) (actor : Actor) :
    BibliographyImportItemMutation json → Prop
  | create item _ =>
    item.owner.id = actor.principalId ∧ db.bibliographyItems.find item.itemId = none
  | update itemId _ revision .. => ∃ old, db.bibliographyItems.find itemId = some old ∧
    old.owner = actor.principalId ∧ old.revision = revision
  | keep revision link => ∃ old, db.bibliographyItems.find link.itemId = some old ∧
    old.owner = actor.principalId ∧ old.revision = revision

namespace Database

variable {lib : ImportLibrary} {db db' : Database} {actor : Actor}
  {commit : BibliographyImportCommit lib.json} {result : BibliographyImportResult}

theorem linkKeys_nodup {mutations : List (BibliographyImportItemMutation lib.json)}
    (h : (mutations.map fun mutation => mutation.link.externalItemId).Nodup) :
    (mutations.map BibliographyImportItemMutation.linkKey).Nodup := by
  refine List.Nodup.of_map Prod.snd ?_
  rw [List.map_map]
  exact h

/-- The rows after an applied plan. -/
theorem applied_of_applyImport
    (htargets : (commit.mutations.map BibliographyImportItemMutation.targetItemId).Nodup)
    (hexternal : (commit.mutations.map fun mutation => mutation.link.externalItemId).Nodup)
    (h : db.applyImport lib actor commit = .ok (result, db')) :
    ∃ sources, Applied actor commit.mutations
      { db with bibliographyImportSources := sources } db' := by
  obtain ⟨-, -, -, revision, stored, hsource, hwritten, -⟩ := applyImport_eq_ok.mp h
  obtain ⟨sources, rfl⟩ := persistSource_eq hsource
  exact ⟨sources, applied_of_applyMutations htargets (linkKeys_nodup hexternal) hwritten⟩

/-- What the mutations of an applied plan found. -/
theorem found_of_applyImport
    (htargets : (commit.mutations.map BibliographyImportItemMutation.targetItemId).Nodup)
    (h : db.applyImport lib actor commit = .ok (result, db'))
    {mutation : BibliographyImportItemMutation lib.json} (hmem : mutation ∈ commit.mutations) :
    mutation.Found db actor := by
  obtain ⟨-, -, -, revision, stored, hsource, hwritten, -⟩ := applyImport_eq_ok.mp h
  obtain ⟨sources, rfl⟩ := persistSource_eq hsource
  obtain ⟨before, hguard, hfind⟩ := exists_of_applyMutations htargets hwritten hmem
  cases mutation with
  | create item link =>
    obtain ⟨howner, -, hfree, -⟩ := hguard
    exact ⟨howner, hfind.symm.trans hfree⟩
  | update itemId csl revision link updatedAt =>
    obtain ⟨old, hold, howner, hrevision, -⟩ := hguard
    exact ⟨old, hfind.symm.trans hold, howner, hrevision⟩
  | keep revision link =>
    obtain ⟨old, hold, howner, hrevision⟩ := hguard
    exact ⟨old, hfind.symm.trans hold, howner, hrevision⟩

/-- An item that an applied plan changed is the target of one of its mutations. -/
theorem find_items_applyImport
    (htargets : (commit.mutations.map BibliographyImportItemMutation.targetItemId).Nodup)
    (hexternal : (commit.mutations.map fun mutation => mutation.link.externalItemId).Nodup)
    (h : db.applyImport lib actor commit = .ok (result, db')) (id : BibliographyItemId) :
    db'.bibliographyItems.find id = db.bibliographyItems.find id ∨
      ∃ mutation ∈ commit.mutations, mutation.targetItemId = id ∧
        db'.bibliographyItems.find id = mutation.writtenRow (db.bibliographyItems.find id) := by
  obtain ⟨sources, happlied⟩ := applied_of_applyImport htargets hexternal h
  have hitems := happlied.items id
  split at hitems
  · next mutation hfind =>
    exact Or.inr ⟨mutation, List.mem_of_find?_eq_some hfind, by simpa using List.find?_some hfind,
      hitems⟩
  · exact Or.inl hitems

/-- The row of a mutation's target after an applied plan. -/
theorem find_target_applyImport
    (htargets : (commit.mutations.map BibliographyImportItemMutation.targetItemId).Nodup)
    (hexternal : (commit.mutations.map fun mutation => mutation.link.externalItemId).Nodup)
    (h : db.applyImport lib actor commit = .ok (result, db'))
    {mutation : BibliographyImportItemMutation lib.json} (hmem : mutation ∈ commit.mutations) :
    db'.bibliographyItems.find mutation.targetItemId =
      mutation.writtenRow (db.bibliographyItems.find mutation.targetItemId) := by
  obtain ⟨sources, happlied⟩ := applied_of_applyImport htargets hexternal h
  have hitems := happlied.items mutation.targetItemId
  have hfind : (commit.mutations.find? fun other =>
      other.targetItemId = mutation.targetItemId) = some mutation :=
    find?_eq_some_of_unique hmem fun other hother heq =>
      List.inj_on_of_nodup_map htargets hother hmem heq
  rw [hfind] at hitems
  exact hitems

/-- A mutation keeps the row of its target or changes it. -/
theorem find_target_ne_applyImport
    (htargets : (commit.mutations.map BibliographyImportItemMutation.targetItemId).Nodup)
    (hexternal : (commit.mutations.map fun mutation => mutation.link.externalItemId).Nodup)
    (h : db.applyImport lib actor commit = .ok (result, db'))
    {mutation : BibliographyImportItemMutation lib.json} (hmem : mutation ∈ commit.mutations) :
    (∃ revision link, mutation = .keep revision link) ∨
      db'.bibliographyItems.find mutation.targetItemId ≠
        db.bibliographyItems.find mutation.targetItemId := by
  have hfound := found_of_applyImport htargets h hmem
  rw [find_target_applyImport htargets hexternal h hmem]
  cases mutation with
  | create item link =>
    right
    rw [show db.bibliographyItems.find
          (BibliographyImportItemMutation.create item link).targetItemId
      = none from hfound.2]
    exact Option.some_ne_none _
  | update itemId csl revision link updatedAt =>
    right
    obtain ⟨old, hold, -, -⟩ := hfound
    rw [show db.bibliographyItems.find
      (BibliographyImportItemMutation.update itemId csl revision link updatedAt).targetItemId =
        some old from hold]
    intro heq
    have hrevision := congrArg BibliographyItemRow.revision (Option.some.inj heq)
    change old.revision + 1 = old.revision at hrevision
    omega
  | keep revision link => exact Or.inl ⟨revision, link, rfl⟩

/-- A link after an applied plan is one of its mutations' or was there. -/
theorem mem_links_applyImport
    (htargets : (commit.mutations.map BibliographyImportItemMutation.targetItemId).Nodup)
    (hexternal : (commit.mutations.map fun mutation => mutation.link.externalItemId).Nodup)
    (h : db.applyImport lib actor commit = .ok (result, db')) {link : ImportLinkRow}
    (hlink : link ∈ db'.bibliographyImportLinks) :
    link ∈ db.bibliographyImportLinks ∨
      ∃ mutation ∈ commit.mutations, link = mutation.link.toRow actor.principalId := by
  obtain ⟨sources, happlied⟩ := applied_of_applyImport htargets hexternal h
  have hfind := (happlied.links (Keyed.key link)).symm.trans (Table.find_of_mem hlink)
  split at hfind
  · next mutation hmutation =>
    cases hfind
    exact Or.inr ⟨mutation, List.mem_of_find?_eq_some hmutation, rfl⟩
  · exact Or.inl (Table.mem_of_find hfind)

/-- The link of a mutation after an applied plan. -/
theorem find_link_applyImport
    (htargets : (commit.mutations.map BibliographyImportItemMutation.targetItemId).Nodup)
    (hexternal : (commit.mutations.map fun mutation => mutation.link.externalItemId).Nodup)
    (h : db.applyImport lib actor commit = .ok (result, db'))
    {mutation : BibliographyImportItemMutation lib.json} (hmem : mutation ∈ commit.mutations) :
    db'.bibliographyImportLinks.find mutation.linkKey =
      some (mutation.link.toRow actor.principalId) := by
  obtain ⟨sources, happlied⟩ := applied_of_applyImport htargets hexternal h
  have hlinks := happlied.links mutation.linkKey
  have hfind : (commit.mutations.find? fun other => other.linkKey = mutation.linkKey) =
      some mutation :=
    find?_eq_some_of_unique hmem fun other hother heq =>
      List.inj_on_of_nodup_map (linkKeys_nodup hexternal) hother hmem heq
  rw [hfind] at hlinks
  exact hlinks

end Database

end Marginalis
