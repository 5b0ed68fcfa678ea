import Marginalis.ImportRepeats
import Marginalis.StateToken

/-!
# A plan applies as a whole

A mutation is `Ready` when the tables admit what it writes. A mutation that is written leaves the
others ready, as no two of a plan have one target, one link or one new citation key, so all of
them are written (`exists_applyMutations`). The mutations of a plan are ready in the library it
was made for (`ready_of_planned`) : the keys of new items are free because an item under such a
key would have been a candidate.
-/

namespace Marginalis

namespace Database

variable {json : JsonCodec} {db db' : Database} {actor : Actor}
  {mutation mutation' : BibliographyImportItemMutation json}
  {mutations : List (BibliographyImportItemMutation json)}

/-! ## Ready mutations -/

/-- The tables admit the item and the link of the mutation. -/
structure Ready (actor : Actor) (db : Database)
    (mutation : BibliographyImportItemMutation json) : Prop where
  guard : mutation.Guard db actor
  revision : mutation.link.importedItemRevision ≠ 0
  target : mutation.link.itemId = mutation.targetItemId
  source : ∃ source ∈ db.bibliographyImportSources.find mutation.link.sourceId,
    source.owner = actor.principalId
  link : ∀ old, db.bibliographyImportLinks.find mutation.linkKey = some old →
    old.itemId = mutation.link.itemId ∧ old.owner = actor.principalId

/-- The target of a written mutation is an item of its principal. -/
theorem owner_of_writtenRow (h : mutation.Guard db actor) :
    ∃ row, mutation.writtenRow (db.bibliographyItems.find mutation.targetItemId) = some row ∧
      row.owner = actor.principalId := by
  cases mutation with
  | create item link => exact ⟨item.toRow, rfl, h.1⟩
  | update itemId csl revision link updatedAt =>
    obtain ⟨old, hold, howner, -⟩ := h
    exact ⟨_, congrArg (Option.map _) hold, howner⟩
  | keep revision link =>
    obtain ⟨old, hold, howner, -⟩ := h
    exact ⟨old, hold, howner⟩

/-- A ready mutation is written. -/
theorem exists_applyMutation (h : Ready actor db mutation) :
    ∃ db', applyMutation actor db mutation = .ok db' := by
  obtain ⟨written, hwritten⟩ := exists_writeImportedItem h.guard
  obtain ⟨-, hsame, hitems⟩ := writeImportedItem_eq_ok hwritten
  obtain ⟨row, hrow, howner⟩ := owner_of_writtenRow h.guard
  refine ⟨_, Except.bind_eq_ok.mpr ⟨written, hwritten, persistLink_eq_ok.mpr
    ⟨h.revision, ⟨?_, row, ?_, howner⟩, ?_, rfl⟩⟩⟩
  · rw [hsame.sources]
    exact h.source
  · rw [hitems]
    show (if mutation.targetItemId = mutation.link.itemId then
      mutation.writtenRow (db.bibliographyItems.find mutation.link.itemId)
        else db.bibliographyItems.find mutation.link.itemId) = some row
    rw [if_pos h.target.symm, h.target]
    exact hrow
  · rw [hsame.links]
    exact h.link

/-- A row after a mutation has the owner and the key of a row before it, or is a created one. -/
theorem row_of_applyMutation (h : applyMutation actor db mutation = .ok db')
    {row : BibliographyItemRow} (hrow : row ∈ db'.bibliographyItems) :
    (∃ old ∈ db.bibliographyItems, old.itemId = row.itemId ∧ old.owner = row.owner ∧
        old.citationKey = row.citationKey) ∨
      ∃ item link, mutation = .create item link ∧ row = item.toRow := by
  obtain ⟨hguard, -, -, -, hitems, -⟩ := applyMutation_eq_ok h
  have hfind := (hitems row.itemId).symm.trans (Table.find_of_mem hrow)
  split_ifs at hfind with htarget
  · cases mutation with
    | create item link => exact Or.inr ⟨item, link, rfl, (Option.some.inj hfind).symm⟩
    | update itemId csl revision link updatedAt =>
      obtain ⟨old, hold, rfl⟩ := Option.map_eq_some_iff.mp hfind
      exact Or.inl ⟨old, Table.mem_of_find hold, rfl, rfl, rfl⟩
    | keep revision link => exact Or.inl ⟨row, Table.mem_of_find hfind, rfl, rfl, rfl⟩
  · exact Or.inl ⟨row, Table.mem_of_find hfind, rfl, rfl, rfl⟩

/-- A mutation leaves one ready that writes another item, link and key. -/
theorem Ready.after (hready : Ready actor db mutation')
    (h : applyMutation actor db mutation = .ok db')
    (htarget : mutation.targetItemId ≠ mutation'.targetItemId)
    (hlink : mutation.linkKey ≠ mutation'.linkKey)
    (hkeys : ∀ item link item' link',
      mutation = .create item link → mutation' = .create item' link' →
      item.citationKey ≠ item'.citationKey) : Ready actor db' mutation' := by
  obtain ⟨hguard, hprincipals, -, hsources, hitems, hlinks⟩ := applyMutation_eq_ok h
  have hfind : db'.bibliographyItems.find mutation'.targetItemId =
      db.bibliographyItems.find mutation'.targetItemId := (hitems _).trans (if_neg htarget)
  refine ⟨?_, hready.revision, hready.target, by rw [hsources]; exact hready.source, ?_⟩
  · have hguard' := hready.guard
    cases mutation' with
    | create item' link' =>
      obtain ⟨howner, hprincipal, hfree, hfreeKey⟩ := hguard'
      refine ⟨howner, by rw [hprincipals]; exact hprincipal, hfind.trans hfree, ?_⟩
      rintro row hrow ⟨hrowOwner, hrowKey⟩
      rcases row_of_applyMutation h hrow with
        ⟨old, hold, -, heqOwner, heqKey⟩ | ⟨item, link, rfl, rfl⟩
      · exact hfreeKey old hold ⟨heqOwner.trans hrowOwner, heqKey.trans hrowKey⟩
      · exact hkeys item link item' link' rfl rfl hrowKey
    | update itemId csl revision link updatedAt =>
      obtain ⟨old, hold, howner, hrevision, hunique⟩ := hguard'
      refine ⟨old, hfind.trans hold, howner, hrevision, ?_⟩
      rintro row hrow hne ⟨hrowOwner, hrowKey⟩
      rcases row_of_applyMutation h hrow with ⟨old', hold', heqId, heqOwner, heqKey⟩ |
        ⟨item, link, rfl, rfl⟩
      · exact hunique old' hold' (heqId ▸ hne) ⟨heqOwner.trans hrowOwner, heqKey.trans hrowKey⟩
      · exact hguard.2.2.2 old (Table.mem_of_find hold) ⟨hrowOwner.symm, hrowKey.symm⟩
    | keep revision link =>
      obtain ⟨old, hold, howner, hrevision⟩ := hguard'
      exact ⟨old, hfind.trans hold, howner, hrevision⟩
  · intro old hold
    rw [hlinks, if_neg hlink] at hold
    exact hready.link old hold

/-- Ready mutations of different items, links and keys are all written. -/
theorem exists_applyMutations
    (htargets : (mutations.map BibliographyImportItemMutation.targetItemId).Nodup)
    (hexternal : (mutations.map fun mutation => mutation.link.externalItemId).Nodup)
    (hkeys : ∀ item link, .create item link ∈ mutations → item.citationKey = link.externalItemId)
    (hready : ∀ mutation ∈ mutations, Ready actor db mutation) :
    ∃ db', mutations.foldlM (applyMutation actor) db = .ok db' := by
  induction mutations generalizing db with
  | nil => exact ⟨db, rfl⟩
  | cons mutation mutations ih =>
    rw [List.map_cons, List.nodup_cons] at htargets hexternal
    obtain ⟨first, hfirst⟩ := exists_applyMutation (hready mutation (List.mem_cons_self ..))
    have hexternalNe : ∀ mutation' ∈ mutations,
        mutation.link.externalItemId ≠ mutation'.link.externalItemId := fun mutation' hmem heq =>
      hexternal.1 (heq ▸ List.mem_map_of_mem (f := fun m => m.link.externalItemId) hmem)
    obtain ⟨db', hrest⟩ := ih htargets.2 hexternal.2
      (fun item link hmem => hkeys item link (List.mem_cons_of_mem _ hmem)) fun mutation' hmem => by
        refine (hready mutation' (List.mem_cons_of_mem _ hmem)).after hfirst ?_ ?_ ?_
        · exact fun heq => htargets.1 (heq ▸ List.mem_map_of_mem hmem)
        · exact fun heq => hexternalNe mutation' hmem (congrArg Prod.snd heq)
        · rintro item link item' link' rfl rfl hkey
          rw [hkeys item link (List.mem_cons_self ..),
            hkeys item' link' (List.mem_cons_of_mem _ hmem)] at hkey
          exact hexternalNe _ hmem hkey
    exact ⟨db', by rw [List.foldlM_cons, hfirst]; exact hrest⟩

end Database

/-! ## The source of a plan -/

variable {lib : ImportLibrary} {read db : Database} {actor : Actor}
    {input : BibliographyImportInput}
  {state current : BibliographyImportState lib.json} {source : BibliographyImportSource}
  {preview : BibliographyImportPreview} {decisions : List BibliographyImportDecision}
  {importedAt : ℤ} {itemIds : ℕ → BibliographyItemId} {newId : BibliographyImportSourceId}
  {commit : BibliographyImportCommit lib.json}

/-- A plan is for a new source of its principal or for the stored one. -/
theorem importSource_eq_ok (h : importSource lib actor input state importedAt newId = .ok source) :
    (input.sourceId = none ∧ state.source = none ∧ source.sourceId = newId ∧
        source.owner.id = actor.principalId ∧ source.createdAt = importedAt) ∨
      ∃ id, input.sourceId = some id ∧ state.source = some source := by
  unfold importSource at h
  unfold BibliographyImportInput.sourceId
  split at h
  · next displayName hinput hstate =>
    split at h
    · next created hcreated =>
      cases h
      unfold BibliographyImportSource.create BibliographyImportSource.restore at hcreated
      split_ifs at hcreated
      cases hcreated
      simp [hinput, hstate, Actor.principalId]
    · cases h
  · next id stored hinput hstate =>
    cases h
    exact Or.inr ⟨id, by rw [hinput], hstate⟩
  · cases h

/-- The stored source is the one a plan expects. -/
theorem source_of_same {id : BibliographyImportSourceId}
    (hcurrent : db.loadState lib actor (some id) = .ok current) (hsame : current.Same state)
    (hstate : state.source = some source) :
    db.bibliographyImportSources.find id = some source.toRow ∧ source.owner.id = actor.principalId ∧
      source.sourceId = id := by
  have hrow := hsame.1
  rw [hstate, Option.map_some] at hrow
  obtain ⟨stored, hstored, hstoredRow⟩ := Option.map_eq_some_iff.mp hrow
  have hload := Database.source_of_loadState hcurrent
  rw [hstored] at hload
  obtain ⟨row, identity, hfind, howner, -, hdecode⟩ := Database.loadSource_eq_some.mp hload
  have hdecoded := (Database.decodeSource_eq_ok.mp hdecode).1
  rw [hstoredRow] at hdecoded
  subst hdecoded
  exact ⟨hfind, howner, Table.key_of_find hfind⟩

/-- The source of a plan is written. -/
theorem exists_persistSource
    (hplan : IsPlan lib state source input preview decisions importedAt itemIds commit)
    (hsource : importSource lib actor input state importedAt newId = .ok source)
    (hcurrent : db.loadState lib actor input.sourceId = .ok current) (hsame : current.Same state)
    (hactor : db.principals.find actor.principalId ≠ none)
    (hnew : input.sourceId = none → db.bibliographyImportSources.find newId = none)
    (hclock : ∀ stored, current.source = some stored → stored.createdAt ≤ importedAt) :
    ∃ revision stored, db.persistSource actor commit = .ok (revision, stored) ∧
      ∃ row ∈ stored.bibliographyImportSources.find source.sourceId,
        row.owner = actor.principalId := by
  obtain ⟨rfl, rfl, rfl⟩ := (⟨hplan.source_eq, hplan.expectedState_eq, hplan.importedAt_eq⟩ :
    commit.source = source ∧ commit.expectedState = state ∧ commit.importedAt = importedAt)
  unfold Database.persistSource
  rcases importSource_eq_ok hsource with
    ⟨hid, hstate, hsourceId, howner, hcreated⟩ | ⟨id, hid, hstate⟩
  · rw [hstate]
    set row : ImportSourceRow := ⟨commit.source.sourceId, actor.principalId,
      commit.source.displayName, initialRevision, commit.source.createdAt, commit.importedAt⟩
      with hrow
    obtain ⟨sources, hinsert⟩ :=
      Table.exists_insert? (r := row) (hsourceId ▸ hnew hid)
    refine ⟨_, _, Database.insertSource_eq_ok.mpr ⟨⟨Nat.one_pos, hcreated.le⟩, hactor, rfl, sources,
      hinsert, rfl⟩, row, ?_, rfl⟩
    show sources.find commit.source.sourceId = some row
    rw [Table.find_insert? hinsert]
    exact if_pos rfl
  · rw [hid] at hcurrent
    obtain ⟨hfind, howner, rfl⟩ := source_of_same hcurrent hsame hstate
    have hcreated : commit.source.createdAt ≤ commit.importedAt := by
      have hrow := hsame.1
      rw [hstate, Option.map_some] at hrow
      obtain ⟨stored, hstored, hstoredRow⟩ := Option.map_eq_some_iff.mp hrow
      rw [← show stored.createdAt = commit.source.createdAt from
        congrArg ImportSourceRow.createdAt hstoredRow]
      exact hclock stored hstored
    rw [hstate]
    set renewed : ImportSourceRow := { commit.source.toRow with
      lastImportedAt := commit.importedAt
      revision := commit.source.toRow.revision + 1 } with hrenewed
    refine ⟨_, _, Database.renewSource_eq_ok.mpr ⟨rfl, rfl, _, hfind, howner, rfl, hcreated, rfl⟩,
      renewed, ?_, howner⟩
    show Table.find _ commit.source.sourceId = some renewed
    rw [Table.find_upsert]
    exact if_pos rfl

/-! ## The mutations of a plan -/

variable {value : Json} {validated : ValidatedItem lib} {entry : BibliographyImportEntry}
  {decision : BibliographyImportDecision} {itemId : BibliographyItemId}
  {mutation : BibliographyImportItemMutation lib.json}

/-- A row of the principal is an item of the state a plan expects. -/
theorem exists_item_of_row (hdb : db.LibraryConsistent lib.json)
    {id : Option BibliographyImportSourceId}
    (hcurrent : db.loadState lib actor id = .ok current) (hsame : current.Same state)
    {row : BibliographyItemRow} (hrow : row ∈ db.bibliographyItems)
    (howner : row.owner = actor.principalId) :
    ∃ item ∈ state.items, item.itemId = row.itemId ∧ item.citationKey = row.citationKey := by
  obtain ⟨identity, hidentity⟩ := hdb.owners row hrow
  obtain ⟨loaded, links, items, -, hload, -, -⟩ := Database.loadState_eq_ok.mp hcurrent
  obtain ⟨item, hdecode⟩ := Database.decodes_of_loadItems hload hrow howner (howner ▸ hidentity)
  have hitem := (Database.mem_items_of_loadState hcurrent).mpr
    ⟨row, hrow, howner, identity, hidentity, hdecode⟩
  have hmem := List.mem_map_of_mem (f := BibliographyItem.toRow) hitem
  rw [hsame.2.2] at hmem
  obtain ⟨expected, hexpected, htoRow⟩ := List.mem_map.mp hmem
  obtain ⟨-, -, -, csl, -, hstored⟩ := Database.decodeItem_eq_ok.mp hdecode
  have hall := htoRow.trans hstored
  simp only [BibliographyItem.toRow, BibliographyItemRow.mk.injEq] at hall
  exact ⟨expected, hexpected, hall.1, hall.2.2.1⟩

/-- An item under the citation key of a new one is a candidate that rules a separate item out. -/
theorem citationKey_ne_of_canCreateSeparate (hrereads : Rereads lib.json)
    (hcandidates : entry.candidates =
      duplicateCandidates lib value validated.csl.citationKey state.items)
    (hseparate : canCreateSeparate entry = true) {item : BibliographyItem lib.json}
    (hitem : item ∈ state.items) : item.citationKey ≠ validated.csl.citationKey := by
  intro hkey
  obtain ⟨csl, -, hencoded⟩ := item.csl
  obtain ⟨reread, hreread⟩ := hrereads csl
  have hparse : ∃ stored, lib.json.parse item.cslJson = some stored := by
    rw [← hencoded]
    unfold ValidatedCslJson.fromEncoded at hreread
    split at hreread
    · cases hreread
    · next stored hstored => exact ⟨stored, hstored⟩
  obtain ⟨stored, hstored⟩ := hparse
  have hmatches : "citation_key" ∈
      matchingFields lib value stored validated.csl.citationKey item.citationKey := by
    unfold matchingFields
    rw [if_pos hkey.symm]
    simp
  have hcandidate : (⟨item.itemId, item.citationKey, stored.getStr "title", item.revision,
      matchingFields lib value stored validated.csl.citationKey item.citationKey⟩ :
        BibliographyImportCandidate) ∈ entry.candidates := by
    rw [hcandidates]
    unfold duplicateCandidates
    refine Table.mem_orderBy.mpr (List.mem_filterMap.mpr ⟨item, hitem, ?_⟩)
    simp only [hstored, Option.bind_eq_bind, Option.bind_some]
    rw [if_neg (List.ne_nil_of_mem hmatches)]
  unfold canCreateSeparate at hseparate
  rw [Bool.not_eq_true', List.any_eq_false] at hseparate
  refine hseparate _ hcandidate ?_
  rw [List.any_eq_true]
  exact ⟨_, hmatches, by simp⟩

/-- A stored link of a planned external item leads to the item of the plan. -/
theorem link_of_planned (hdb : db.LibraryConsistent lib.json)
    (hplanned : Planned lib state source importedAt itemId value validated entry decision mutation)
    (hsource : importSource lib actor input state importedAt newId = .ok source)
    (hcurrent : db.loadState lib actor input.sourceId = .ok current) (hsame : current.Same state)
    (hnew : input.sourceId = none → db.bibliographyImportSources.find newId = none)
    {old : ImportLinkRow} (hold : db.bibliographyImportLinks.find mutation.linkKey = some old) :
    old.itemId = mutation.link.itemId ∧ old.owner = actor.principalId := by
  have hmem := Table.mem_of_find hold
  have hkey : (old.sourceId, old.externalItemId) = mutation.linkKey := Table.key_of_find hold
  have hlink := hplanned.isLink
  have hsourceId : old.sourceId = source.sourceId := (congrArg Prod.fst hkey).trans hlink.sourceId
  have hexternal : old.externalItemId = validated.externalItemId :=
    (congrArg Prod.snd hkey).trans hlink.externalItemId
  obtain ⟨⟨stored, hstored, hstoredOwner⟩, -⟩ := hdb.references old hmem
  rw [hsourceId] at hstored
  rcases importSource_eq_ok hsource with ⟨hid, -, hnewId, -, -⟩ | ⟨id, hid, hstate⟩
  · rw [hnewId, hnew hid] at hstored
    cases hstored
  · rw [hid] at hcurrent
    obtain ⟨hfind, howner, rfl⟩ := source_of_same hcurrent hsame hstate
    obtain rfl : source.toRow = stored := Option.some.inj (hfind.symm.trans hstored)
    have holdOwner : old.owner = actor.principalId := hstoredOwner.symm.trans howner
    refine ⟨?_, holdOwner⟩
    obtain ⟨loaded, links, items, hlinks, -, -, -⟩ := Database.loadState_eq_ok.mp hcurrent
    rcases hlinks with ⟨hnone, -, -⟩ | ⟨id', hid', -, hloadLinks⟩
    · cases hnone
    · obtain rfl : source.sourceId = id' := Option.some.inj hid'
      obtain ⟨link, hdecode⟩ := Database.decodes_of_loadLinks hloadLinks hmem hsourceId holdOwner
      have hstateLink : link ∈ state.links := hsame.2.1 ▸
        (Database.mem_links_of_loadState hcurrent).mpr
          ⟨old, hmem, congrArg some hsourceId.symm, holdOwner, hdecode⟩
      have hrow := (Database.decodeLink_eq_ok.mp hdecode).2
      have hlinkExternal : link.externalItemId = validated.externalItemId :=
        (congrArg ImportLinkRow.externalItemId hrow).trans hexternal
      have hlinkItem : link.itemId = old.itemId := congrArg ImportLinkRow.itemId hrow
      -- The search of the classification finds this link, so the plan follows it.
      have hfollowed : ∀ followed : BibliographyImportLink, (state.links.find? fun link =>
          link.externalItemId = validated.externalItemId) = some followed →
            followed.itemId = old.itemId := by
        intro followed hfollowed
        have hfirst := Database.find_links_of_loadState hcurrent (hsame.2.1.symm ▸ hstateLink)
        rw [hsame.2.1, hlinkExternal, hfollowed] at hfirst
        rw [Option.some.inj hfirst]
        exact hlinkItem
      cases hplanned with
      | create link hkind hfree => exact absurd hlinkExternal (hfree _ hstateLink)
      | updateLinked followed link item csl hfollow hitem hid hkind hkey hwritten =>
        have hitemId : item.itemId = followed.itemId := by simpa using List.find?_some hitem
        exact ((hwritten.itemId.trans hitemId).trans (hfollowed followed hfollow)).symm
      | updateCandidate link item csl hfree => exact absurd hlinkExternal (hfree _ hstateLink)
      | keepLinked followed link item hfollow hitem hid hkind hwritten =>
        have hitemId : item.itemId = followed.itemId := by simpa using List.find?_some hitem
        exact ((hwritten.itemId.trans hitemId).trans (hfollowed followed hfollow)).symm
      | keepCandidate link item hfree => exact absurd hlinkExternal (hfree _ hstateLink)

/-- An item of the plan is a row of the principal at its revision, alone under its key. -/
theorem guard_of_item (hdb : db.LibraryConsistent lib.json)
    {id : Option BibliographyImportSourceId} (hcurrent : db.loadState lib actor id = .ok current)
    (hsame : current.Same state) {item : BibliographyItem lib.json} (hitem : item ∈ state.items) :
    ∃ row, db.bibliographyItems.find item.itemId = some row ∧ row.owner = actor.principalId ∧
      row.revision = item.revision ∧ ∀ other ∈ db.bibliographyItems, other.itemId ≠ item.itemId →
        ¬(other.owner = row.owner ∧ other.citationKey = row.citationKey) := by
  obtain ⟨row, hrow, howner, -, hrevision, -⟩ :=
    Database.row_of_expectedState hcurrent hsame hitem
  refine ⟨row, hrow, howner, hrevision, fun other hother hne hequal => hne ?_⟩
  rw [hdb.keys other hother row (Table.mem_of_find hrow) hequal.1 hequal.2]
  exact Table.key_of_find hrow

/-- The library a plan was made for admits each of its mutations. -/
theorem guard_of_planned (hrereads : Rereads lib.json) (hdb : db.LibraryConsistent lib.json)
    (hplanned : Planned lib state source importedAt itemId value validated entry decision mutation)
    (howner : source.owner.id = actor.principalId)
    {id : Option BibliographyImportSourceId} (hcurrent : db.loadState lib actor id = .ok current)
    (hsame : current.Same state) (hactor : db.principals.find actor.principalId ≠ none)
    (hfresh : db.bibliographyItems.find itemId = none) :
    mutation.Guard db actor ∧ mutation.link.importedItemRevision ≠ 0 := by
  cases hplanned with
  | create link hkind hfree hcandidates hseparate hlink =>
    refine ⟨⟨howner, hactor, hfresh, ?_⟩, ?_⟩
    · rintro row hrow ⟨hrowOwner, hrowKey⟩
      obtain ⟨item, hitem, -, hkey⟩ := exists_item_of_row hdb hcurrent hsame hrow
        (hrowOwner.trans howner)
      exact citationKey_ne_of_canCreateSeparate hrereads hcandidates hseparate hitem
        (hkey.trans hrowKey)
    · show link.importedItemRevision ≠ 0
      rw [hlink.importedItemRevision]
      exact Nat.one_ne_zero
  | updateLinked old link item csl hold hitem hid hkind hkey hlink =>
    refine ⟨guard_of_item hdb hcurrent hsame (List.mem_of_find?_eq_some hitem), ?_⟩
    show link.importedItemRevision ≠ 0
    rw [hlink.importedItemRevision]
    exact Nat.succ_ne_zero _
  | updateCandidate link item csl hfree hitem hcandidate hkind hkey hlink =>
    refine ⟨guard_of_item hdb hcurrent hsame hitem, ?_⟩
    show link.importedItemRevision ≠ 0
    rw [hlink.importedItemRevision]
    exact Nat.succ_ne_zero _
  | keepLinked old link item hold hitem hid hkind hlink =>
    obtain ⟨row, hrow, hrowOwner, hrevision, -⟩ :=
      guard_of_item hdb hcurrent hsame (List.mem_of_find?_eq_some hitem)
    refine ⟨⟨row, by rw [hlink.itemId]; exact hrow, hrowOwner, hrevision⟩, ?_⟩
    show link.importedItemRevision ≠ 0
    rw [hlink.importedItemRevision]
    exact item.positive.ne'
  | keepCandidate link item hfree hitem hcandidate hkind hlink =>
    obtain ⟨row, hrow, hrowOwner, hrevision, -⟩ := guard_of_item hdb hcurrent hsame hitem
    refine ⟨⟨row, by rw [hlink.itemId]; exact hrow, hrowOwner, hrevision⟩, ?_⟩
    show link.importedItemRevision ≠ 0
    rw [hlink.importedItemRevision]
    exact item.positive.ne'

/-- A planned mutation passes the check of the commit. -/
theorem consistentMutation_of_planned
    (hplan : IsPlan lib state source input preview decisions importedAt itemIds commit)
    (hplanned : Planned lib state source importedAt itemId value validated entry decision
      mutation) :
    Database.ConsistentMutation commit mutation := by
  have hsourceId : mutation.link.sourceId = commit.source.sourceId := by
    rw [hplan.source_eq]
    exact hplanned.isLink.sourceId
  cases hplanned with
  | create link hkind hfree hcandidates hseparate hlink =>
    exact ⟨hsourceId, hlink.itemId, hlink.importedItemRevision⟩
  | updateLinked old link item csl hold hitem hid hkind hkey hlink =>
    refine ⟨hsourceId, hlink.itemId, ⟨item, ?_, rfl, rfl, hkey.symm⟩,
      hlink.importedItemRevision.symm⟩
    rw [hplan.expectedState_eq]
    exact List.mem_of_find?_eq_some hitem
  | updateCandidate link item csl hfree hitem hcandidate hkind hkey hlink =>
    refine ⟨hsourceId, hlink.itemId, ⟨item, ?_, rfl, rfl, hkey.symm⟩,
      hlink.importedItemRevision.symm⟩
    rw [hplan.expectedState_eq]
    exact hitem
  | keepLinked old link item hold hitem hid hkind hlink =>
    exact ⟨hsourceId, hlink.importedItemRevision⟩
  | keepCandidate link item hfree hitem hcandidate hkind hlink =>
    exact ⟨hsourceId, hlink.importedItemRevision⟩

/-- A new item of a plan is under its external id. -/
theorem citationKey_of_planned {item : BibliographyItem lib.json} {link : BibliographyImportLink}
    (hvalidated : validateItem lib value = .ok validated)
    (hplanned : Planned lib state source importedAt itemId value validated entry decision
      (.create item link)) : item.citationKey = link.externalItemId := by
  cases hplanned with
  | create _ hkind hfree hcandidates hseparate hlink =>
    rw [hlink.externalItemId]
    obtain ⟨csl, -, rfl⟩ := Except.map_eq_ok.mp hvalidated
    rfl

/-! ## Whole plans -/

/-- A plan is written to a library that still has the state it was made for. -/
theorem exists_applyImport (hrereads : Rereads lib.json) (hdb : db.LibraryConsistent lib.json)
    (hplan : IsPlan lib state source input preview decisions importedAt itemIds commit)
    (hsource : importSource lib actor input state importedAt newId = .ok source)
    (howner : source.owner.id = actor.principalId)
    (hexpected : commit.expectedState.source.map BibliographyImportSource.sourceId = input.sourceId)
    (hcurrent : db.loadState lib actor input.sourceId = .ok current) (hsame : current.Same state)
    (hactor : db.principals.find actor.principalId ≠ none)
    (hfresh : ∀ i, db.bibliographyItems.find (itemIds i) = none)
    (hnew : input.sourceId = none → db.bibliographyImportSources.find newId = none)
    (hclock : ∀ stored, current.source = some stored → stored.createdAt ≤ importedAt) :
    Database.CommitIsConsistent commit ∧
      ∃ result db', db.applyImport lib actor commit = .ok (result, db') := by
  have hconsistent : Database.CommitIsConsistent commit := by
    intro mutation hmutation
    obtain ⟨entry, -, value, validated, decision, -, -, -, -, -, -, hplanned⟩ :=
      hplan.planned mutation hmutation
    exact consistentMutation_of_planned hplan hplanned
  obtain ⟨revision, stored, hstored, row, hrow, hrowOwner⟩ :=
    exists_persistSource hplan hsource hcurrent hsame hactor hnew hclock
  obtain ⟨sources, rfl⟩ := Database.persistSource_eq hstored
  -- Writing the source changes neither the items nor the links, so the mutations stay ready.
  have hready : ∀ mutation ∈ commit.mutations, Database.Ready actor
      { db with bibliographyImportSources := sources } mutation := by
    intro mutation hmutation
    obtain ⟨entry, -, value, validated, decision, -, -, -, -, -, -, hplanned⟩ :=
      hplan.planned mutation hmutation
    obtain ⟨hguard, hrevision⟩ := guard_of_planned hrereads hdb hplanned howner hcurrent hsame
      hactor (hfresh entry.position)
    refine ⟨?_, hrevision, hplanned.link_itemId, ⟨row, ?_, hrowOwner⟩,
      fun old hold => link_of_planned hdb hplanned hsource hcurrent hsame hnew hold⟩
    · cases mutation <;> exact hguard
    · rw [hplanned.isLink.sourceId]
      exact hrow
  obtain ⟨db', hwritten⟩ := Database.exists_applyMutations hplan.targets hplan.externalItems
    (fun item link hmutation => by
      obtain ⟨entry, -, value, validated, decision, -, -, -, hvalidated, -, -, hplanned⟩ :=
        hplan.planned _ hmutation
      exact citationKey_of_planned hvalidated hplanned) hready
  refine ⟨hconsistent, Database.importResult commit revision, db', Database.applyImport_eq_ok.mpr
    ⟨?_, hconsistent, ⟨current, ?_, ?_⟩, revision, _, hstored, hwritten, rfl⟩⟩
  · rw [hplan.source_eq]
    exact howner
  · rw [hexpected]
    exact hcurrent
  · rw [hplan.expectedState_eq]
    exact hsame

/-- A refused commit leaves the tables as they are. -/
theorem applyImport_refuses
    (h : ¬Database.CommitIsConsistent commit ∨ ∀ current, db.loadState lib actor
      (commit.expectedState.source.map BibliographyImportSource.sourceId) = .ok current →
        ¬current.Same commit.expectedState) :
    (∃ error, db.applyImport lib actor commit = .error error) ∧
      db.commit ((db.applyImport lib actor commit).map Prod.snd) = db := by
  cases happly : db.applyImport lib actor commit with
  | error error => exact ⟨⟨error, rfl⟩, rfl⟩
  | ok applied =>
    obtain ⟨result, db'⟩ := applied
    obtain ⟨-, hconsistent, ⟨current, hcurrent, hsame⟩, -⟩ := Database.applyImport_eq_ok.mp happly
    rcases h with h | h
    · exact absurd hconsistent h
    · exact absurd hsame (h current hcurrent)

/-- An accepted plan is written as a whole on every later library with the same token : each of its
mutations writes the row of its target and that of its link, the other items stay, and the library
is consistent afterwards. A commit that contradicts itself or the stored state is refused. -/
theorem import_plan_applies {token : String} {moves : List (Move Database TimedOperation)}
    (hrereads : Rereads lib.json) (hread : read.LibraryConsistent lib.json)
    (hplanned :
      planImport lib read actor input decisions token importedAt newId itemIds = .ok commit)
    (hrun : Run (TimedOperation.Step lib) read moves db)
    (hids : ∀ m ∈ moves, ∀ id, m.label.AddsItem id → read.bibliographyItems.find id = none)
    (hcurrent : db.loadState lib actor input.sourceId = .ok current)
    (htoken : importStateToken lib input current = token)
    (hcollision : lib.sha256Hex (importStateComponents lib input current) =
        lib.sha256Hex (importStateComponents lib input commit.expectedState) →
      importStateComponents lib input current =
        importStateComponents lib input commit.expectedState)
    (hactor : db.principals.find actor.principalId ≠ none)
    (hfresh : ∀ i, db.bibliographyItems.find (itemIds i) = none)
    (hnew : input.sourceId = none → db.bibliographyImportSources.find newId = none)
    (hclock : ∀ stored, current.source = some stored → stored.createdAt ≤ importedAt) :
    Database.CommitIsConsistent commit ∧
      (∃ result db', db.applyImport lib actor commit = .ok (result, db') ∧
        db'.LibraryConsistent lib.json ∧
        (∀ mutation ∈ commit.mutations,
          db'.bibliographyItems.find mutation.targetItemId =
            mutation.writtenRow (db.bibliographyItems.find mutation.targetItemId) ∧
          db'.bibliographyImportLinks.find mutation.linkKey =
            some (mutation.link.toRow actor.principalId)) ∧
        ∀ id, (∀ mutation ∈ commit.mutations, mutation.targetItemId ≠ id) →
          db'.bibliographyItems.find id = db.bibliographyItems.find id) ∧
      ∀ (changed : Database) (other : BibliographyImportCommit lib.json),
        (¬Database.CommitIsConsistent other ∨ ∀ current, changed.loadState lib actor
            (other.expectedState.source.map BibliographyImportSource.sourceId) = .ok current →
          ¬current.Same other.expectedState) →
        (∃ error, changed.applyImport lib actor other = .error error) ∧
          changed.commit ((changed.applyImport lib actor other).map Prod.snd) = changed := by
  obtain ⟨preview, state, source, hpreview, hsource, rfl, hplan⟩ := planImport_eq_ok hplanned
  obtain ⟨-, ⟨loaded, hloaded, hcanonical⟩, hsome, -⟩ := previewWithState_eq_ok.mp hpreview
  rw [Database.canonicalized_of_loadState hloaded] at hcanonical
  subst hcanonical
  rw [hplan.expectedState_eq] at hcollision
  have hsame : current.Same state := same_of_components (revisionsGrow_of_run hrun hids) hloaded
    hcurrent (hcollision htoken)
  have hdb : db.LibraryConsistent lib.json :=
    hrun.invariant (fun _ _ _ hs hstep => hs.step hstep) hread
  have hexpected : source.owner.id = actor.principalId ∧
      state.source.map BibliographyImportSource.sourceId = input.sourceId := by
    rcases importSource_eq_ok hsource with ⟨hid, hnone, -, howner, -⟩ | ⟨id, hid, hstate⟩
    · exact ⟨howner, by rw [hnone, hid]; rfl⟩
    · rw [hid] at hcurrent
      obtain ⟨-, howner, heq⟩ := source_of_same hcurrent hsame hstate
      exact ⟨howner, by rw [hstate, hid, Option.map_some, heq]⟩
  obtain ⟨hconsistent, result, db', happly⟩ := exists_applyImport hrereads hdb hplan hsource
    hexpected.1 (by rw [hplan.expectedState_eq]; exact hexpected.2) hcurrent hsame hactor hfresh
      hnew hclock
  refine ⟨hconsistent, ⟨result, db', happly, hdb.applyImport happly, fun mutation hmutation => ?_,
    fun id hid => ?_⟩, fun _ _ h => applyImport_refuses h⟩
  · exact ⟨Database.find_target_applyImport hplan.targets hplan.externalItems happly hmutation,
      Database.find_link_applyImport hplan.targets hplan.externalItems happly hmutation⟩
  · rcases Database.find_items_applyImport hplan.targets hplan.externalItems happly id with
      heq | ⟨mutation, hmutation, htarget, -⟩
    · exact heq
    · exact absurd htarget (hid mutation hmutation)

/-! ## A plan and another principal's login -/

def secondFile : BibliographyImportInput := ⟨.existing ⟨1⟩, [sampleArticle "doe2024" "Second"]⟩

/-- Alice's plan for the second file. -/
def secondPlan (read : Database) :
    Except BibliographyImportUseCaseError (BibliographyImportCommit editedLibrary.json) :=
  planImport editedLibrary read Database.alice secondFile [⟨0, .applySuggested, none⟩]
    (shownToken editedLibrary read Database.alice secondFile) 2000 ⟨2⟩ fun _ => ⟨2⟩

def secondState (db : Database) :
    Except StorageError (BibliographyImportState editedLibrary.json) :=
  db.loadState editedLibrary Database.alice secondFile.sourceId

open Database in
def bobLogin : TimedOperation := ⟨1500, .login bob.authenticatedIdentity⟩

/-- Alice's plan is applied although Bob logged in after it was made. -/
theorem import_plan_applies_bobLogin : ∃ read db commit result db',
    db = editedNext read bobLogin ∧ secondPlan read = .ok commit ∧
      db.applyImport editedLibrary Database.alice commit = .ok (result, db') ∧
      db'.LibraryConsistent editedLibrary.json ∧
      ∀ mutation ∈ commit.mutations,
        db'.bibliographyItems.find mutation.targetItemId =
          mutation.writtenRow (db.bibliographyItems.find mutation.targetItemId) ∧
        db'.bibliographyImportLinks.find mutation.linkKey =
          some (mutation.link.toRow Database.alice.principalId) := by
  obtain ⟨db, hdb⟩ : ∃ db, editedNext importedAt1000 bobLogin = db := ⟨_, rfl⟩
  have hfacts : (secondPlan importedAt1000).toOption.isSome = true ∧
      (secondState (editedNext importedAt1000 bobLogin)).toOption.isSome = true ∧
      (secondState (editedNext importedAt1000 bobLogin)).toOption.map
        (importStateComponents editedLibrary secondFile) = (secondPlan importedAt1000).toOption.map
          (fun commit => importStateComponents editedLibrary secondFile commit.expectedState) ∧
      (secondState (editedNext importedAt1000 bobLogin)).toOption.map
        (importStateToken editedLibrary secondFile) =
          some (shownToken editedLibrary importedAt1000 Database.alice secondFile) ∧
      ((secondState (editedNext importedAt1000 bobLogin)).toOption.bind
        BibliographyImportState.source).all (fun stored => stored.createdAt ≤ 2000) = true ∧
      (editedNext importedAt1000 bobLogin).principals.find Database.alice.principalId ≠ none ∧
      (editedNext importedAt1000 bobLogin).bibliographyItems.find ⟨2⟩ = none := by
    decide +kernel
  have hrun : Run (TimedOperation.Step editedLibrary) importedAt1000
      ([] ++ [⟨importedAt1000, bobLogin, editedNext importedAt1000 bobLogin⟩])
      (editedNext importedAt1000 bobLogin) := Run.snoc (Run.nil importedAt1000) ⟨trivial, rfl⟩
  rw [hdb] at hfacts hrun
  obtain ⟨hplanned, hloaded, hcomponents, htoken, hclock, hactor, hfresh⟩ := hfacts
  obtain ⟨commit, hcommit⟩ := Except.exists_eq_ok hplanned
  obtain ⟨current, hcurrent⟩ := Except.exists_eq_ok hloaded
  rw [hcurrent, hcommit] at hcomponents
  rw [hcurrent] at htoken hclock
  obtain ⟨-, ⟨result, db', happly, hconsistent, hwritten, -⟩, -⟩ := import_plan_applies
    rereads_editedLibrary libraryConsistent_importedAt1000 hcommit hrun
    (fun m hm id hadds => by
      rw [List.nil_append, List.mem_singleton] at hm
      rw [hm] at hadds
      exact hadds.elim)
    hcurrent (Option.some.inj htoken) (fun _ => Option.some.inj hcomponents) hactor
    (fun _ => hfresh) (fun hnone => by cases hnone)
    (fun stored hstored => of_decide_eq_true (by
      have hall : (current.source.all fun stored => decide (stored.createdAt ≤ 2000)) = true :=
        hclock
      rw [hstored] at hall
      exact hall))
  exact ⟨importedAt1000, db, commit, result, db', hdb.symm, hcommit, happly, hconsistent, hwritten⟩

/-! ## A commit of no plan -/

open Database in
def aliceLogin : TimedOperation := ⟨0, .login alice.authenticatedIdentity⟩

open Database in
/-- A new source without an item, as no plan has it. -/
def emptyCommit : BibliographyImportCommit editedLibrary.json where
  source := ⟨⟨1⟩, alice.principal, "Zotero", 1, 100, 100, Nat.one_pos, by decide +kernel, le_refl _⟩
  expectedState := ⟨none, [], []⟩
  importedAt := 100
  mutations := []
  excluded := 0

/-- The store takes a commit that no plan is. -/
theorem emptyCommit_applies :
    ¬∀ (db : Database) (actor : Actor) (commit : BibliographyImportCommit editedLibrary.json),
      db.LibraryConsistent editedLibrary.json →
      (∀ input preview state source decisions importedAt itemIds,
        buildCommit editedLibrary input preview state source decisions importedAt itemIds ≠
          .ok commit) →
      ∃ error, db.applyImport editedLibrary actor commit = .error error := by
  intro h
  have happlies : ((editedNext Database.empty aliceLogin).applyImport editedLibrary Database.alice
      emptyCommit).toOption.isSome = true := by decide +kernel
  have hconsistent : (editedNext Database.empty aliceLogin).LibraryConsistent editedLibrary.json :=
    Database.libraryConsistent_empty.step (t := aliceLogin) ⟨trivial, rfl⟩
  obtain ⟨error, herror⟩ := h _ Database.alice emptyCommit hconsistent
    fun _ _ _ _ _ _ _ hbuild => (buildCommit_eq_ok.mp hbuild).2.2.1 rfl
  rw [herror] at happlies
  cases happlies

end Marginalis
