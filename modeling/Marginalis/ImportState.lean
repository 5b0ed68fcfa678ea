import Marginalis.ImportApply

/-!
# What an import reads

A state that `loadState` returns consists of the decoded rows of its principal : each of its
items is a row of the library, and each of its links a row of the source. The rows of a table
have distinct keys, so the searches of the classification by id and by external id find the
one row there is.
-/

namespace Marginalis

open Table (orderBy)

namespace Database

variable {json : JsonCodec} {lib : ImportLibrary} {db : Database} {actor : Actor}

/-! ## One row -/

/-- A decoded item is its row, with the text its document is printed as. -/
theorem decodeItem_eq_ok {row : BibliographyItemRow} {identity : Identity}
    {item : BibliographyItem json} :
    decodeItem json row identity = .ok item ↔ 0 < row.revision ∧ row.createdAt ≤ row.updatedAt ∧
      item.owner = ⟨row.owner, identity⟩ ∧
      ∃ csl, ValidatedCslJson.fromEncoded json row.citationKey row.cslJson = .ok csl ∧
        item.toRow = { row with cslJson := csl.encoded } := by
  unfold decodeItem BibliographyItem.restore
  constructor
  · intro h
    split at h
    · next hpositive =>
      rw [Except.mapError_eq_ok] at h
      split at h
      · next htimes =>
        obtain ⟨csl, hcsl, h⟩ := Except.bind_eq_ok.mp h
        cases h
        refine ⟨hpositive, htimes, rfl, csl, hcsl, ?_⟩
        simp only [BibliographyItem.toRow, ValidatedCslJson.citationKey_of_fromEncoded hcsl]
      · cases h
    · cases h
  · obtain ⟨itemId, owner, citationKey, cslJson, createdAt, updatedAt, revision, -, -, -⟩ := item
    rintro ⟨hpositive, htimes, howner, csl, hcsl, hrow⟩
    rw [dif_pos hpositive, dif_pos htimes, Except.mapError_eq_ok, Except.bind_eq_ok]
    refine ⟨csl, hcsl, ?_⟩
    simp only [BibliographyItem.toRow, BibliographyItemRow.mk.injEq] at hrow howner
    obtain ⟨rfl, -, rfl, rfl, rfl, rfl, rfl⟩ := hrow
    subst howner
    simp only [ValidatedCslJson.citationKey_of_fromEncoded hcsl]
    rfl

theorem decodeLink_eq_ok {row : ImportLinkRow} {link : BibliographyImportLink} :
    decodeLink row = .ok link ↔ row.importedItemRevision ≠ 0 ∧ link.toRow row.owner = row := by
  unfold decodeLink BibliographyImportLink.new
  obtain ⟨sourceId, externalItemId, itemId, owner, importedDigest, importedItemRevision⟩ := row
  constructor
  · intro h
    split at h
    · cases h
    · next hpositive =>
      split at h
      · next link' hlink =>
        cases h
        split at hlink
        · cases hlink
          exact ⟨hpositive, rfl⟩
        · cases hlink
      · cases h
  · obtain ⟨sourceId', externalItemId', itemId', digest', revision', hidentifier⟩ := link
    rintro ⟨hpositive, hrow⟩
    simp only [BibliographyImportLink.toRow, ImportLinkRow.mk.injEq] at hrow
    obtain ⟨rfl, rfl, rfl, -, rfl, rfl⟩ := hrow
    rw [if_neg hpositive, dif_pos hidentifier]

/-! ## The state -/

variable {sourceId : Option BibliographyImportSourceId} {state : BibliographyImportState lib.json}

/-- The last part of the read, and its check. -/
theorem checkState_eq_ok (source : Option BibliographyImportSource)
    (links : List BibliographyImportLink) :
    (do
      let items ← db.loadItems lib.json actor
      if ∃ link ∈ links, DanglingLink items link then throw StorageError.corruptData
      return ({ source, links, items } : BibliographyImportState lib.json).canonicalized) =
        .ok state ↔
      ∃ items, db.loadItems lib.json actor = .ok items ∧
      (∀ link ∈ links, ¬DanglingLink items link) ∧
        state = ({ source, links, items } : BibliographyImportState lib.json).canonicalized := by
  rw [Except.bind_eq_ok]
  constructor
  · rintro ⟨items, hitems, h⟩
    split at h
    · obtain ⟨_, hthrow, -⟩ := Except.bind_eq_ok.mp h
      cases hthrow
    · next hdangling =>
      cases h
      exact ⟨items, hitems, fun link hlink hbad => hdangling ⟨link, hlink, hbad⟩, rfl⟩
  · rintro ⟨items, hitems, hdangling, rfl⟩
    refine ⟨items, hitems, ?_⟩
    rw [if_neg fun ⟨link, hlink, hbad⟩ => hdangling link hlink hbad]
    rfl

theorem loadState_eq_ok :
    db.loadState lib actor sourceId = .ok state ↔ ∃ source links items,
      (sourceId = none ∧ source = none ∧ links = [] ∨ ∃ id, sourceId = some id ∧
        db.loadSource actor id = .ok source ∧ db.loadLinks actor id = .ok links) ∧
      db.loadItems lib.json actor = .ok items ∧ (∀ link ∈ links, ¬DanglingLink items link) ∧
      state = ({ source, links, items } : BibliographyImportState lib.json).canonicalized := by
  unfold loadState
  cases sourceId with
  | none =>
    refine Iff.trans (checkState_eq_ok none []) ?_
    constructor
    · rintro ⟨items, h⟩
      exact ⟨none, [], items, Or.inl ⟨rfl, rfl, rfl⟩, h⟩
    · rintro ⟨source, links, items, ⟨-, rfl, rfl⟩ | ⟨id, hid, -⟩, h⟩
      · exact ⟨items, h⟩
      · cases hid
  | some id =>
    rw [Except.bind_eq_ok]
    constructor
    · rintro ⟨source, hsource, h⟩
      obtain ⟨links, hlinks, h⟩ := Except.bind_eq_ok.mp h
      obtain ⟨items, h⟩ := (checkState_eq_ok source links).mp h
      exact ⟨source, links, items, Or.inr ⟨id, rfl, hsource, hlinks⟩, h⟩
    · rintro ⟨source, links, items, ⟨hid, -, -⟩ | ⟨id', hid, hsource, hlinks⟩, h⟩
      · cases hid
      · cases hid
        exact ⟨source, hsource, Except.bind_eq_ok.mpr
          ⟨links, hlinks, (checkState_eq_ok source links).mpr ⟨items, h⟩⟩⟩

/-- A row decodes when its times are in order and its text can be read. -/
theorem exists_decodeItem {row : BibliographyItemRow} (identity : Identity)
    (hpositive : 0 < row.revision) (htimes : row.createdAt ≤ row.updatedAt)
    (hread : ∃ csl, ValidatedCslJson.fromEncoded json row.citationKey row.cslJson = .ok csl) :
    ∃ item, decodeItem json row identity = .ok item := by
  obtain ⟨csl, hcsl⟩ := hread
  unfold decodeItem BibliographyItem.restore
  rw [dif_pos hpositive, dif_pos htimes, hcsl]
  exact ⟨_, rfl⟩

theorem mem_loadItems {items : List (BibliographyItem json)}
    (h : db.loadItems json actor = .ok items) {item : BibliographyItem json} :
    item ∈ items ↔ ∃ row ∈ db.bibliographyItems, row.owner = actor.principalId ∧
      ∃ identity, db.primaryIdentity row.owner = some identity ∧
        decodeItem json row identity = .ok item := by
  have hdetails : ∀ row identity,
      (row, identity) ∈ (orderBy (fun row => row.itemId.entityId) (db.bibliographyItems.select
          fun row => row.owner = actor.principalId)).filterMap db.itemDetails ↔
        row ∈ db.bibliographyItems ∧ row.owner = actor.principalId ∧
          db.primaryIdentity row.owner = some identity := by
    intro row identity
    simp only [List.mem_filterMap, Table.mem_orderBy, Table.mem_select, decide_eq_true_eq,
      itemDetails, Option.map_eq_some_iff, Prod.mk.injEq]
    constructor
    · rintro ⟨row, ⟨hrow, howner⟩, identity, hidentity, rfl, rfl⟩
      exact ⟨hrow, howner, hidentity⟩
    · rintro ⟨hrow, howner, hidentity⟩
      exact ⟨row, ⟨hrow, howner⟩, identity, hidentity, rfl, rfl⟩
  unfold loadItems at h
  constructor
  · intro hitem
    obtain ⟨⟨row, identity⟩, hmem, hdecode⟩ := Except.exists_of_mem_mapM h hitem
    obtain ⟨hrow, howner, hidentity⟩ := (hdetails row identity).mp hmem
    exact ⟨row, hrow, howner, identity, hidentity, hdecode⟩
  · rintro ⟨row, hrow, howner, identity, hidentity, hdecode⟩
    obtain ⟨item', hitem', hdecode'⟩ :=
      Except.exists_mem_of_mapM h ((hdetails row identity).mpr ⟨hrow, howner, hidentity⟩)
    cases hdecode'.symm.trans hdecode
    exact hitem'

theorem mem_loadLinks {id : BibliographyImportSourceId} {links : List BibliographyImportLink}
    (h : db.loadLinks actor id = .ok links) {link : BibliographyImportLink} :
    link ∈ links ↔ ∃ row ∈ db.bibliographyImportLinks, row.sourceId = id ∧
      row.owner = actor.principalId ∧ decodeLink row = .ok link := by
  have hselected : ∀ row, row ∈ orderBy ImportLinkRow.externalItemId
      (db.bibliographyImportLinks.select fun row =>
        row.sourceId = id ∧ row.owner = actor.principalId) ↔
      row ∈ db.bibliographyImportLinks ∧ row.sourceId = id ∧ row.owner = actor.principalId := by
    intro row
    simp only [Table.mem_orderBy, Table.mem_select, decide_eq_true_eq]
  unfold loadLinks at h
  constructor
  · intro hlink
    obtain ⟨row, hmem, hdecode⟩ := Except.exists_of_mem_mapM h hlink
    obtain ⟨hrow, hid, howner⟩ := (hselected row).mp hmem
    exact ⟨row, hrow, hid, howner, hdecode⟩
  · rintro ⟨row, hrow, hid, howner, hdecode⟩
    obtain ⟨link', hlink', hdecode'⟩ :=
      Except.exists_mem_of_mapM h ((hselected row).mpr ⟨hrow, hid, howner⟩)
    cases hdecode'.symm.trans hdecode
    exact hlink'

/-- Every row of a loaded library was decoded. -/
theorem decodes_of_loadItems {items : List (BibliographyItem json)}
    (h : db.loadItems json actor = .ok items) {row : BibliographyItemRow}
    (hrow : row ∈ db.bibliographyItems) (howner : row.owner = actor.principalId)
    {identity : Identity} (hidentity : db.primaryIdentity actor.principalId = some identity) :
    ∃ item, decodeItem json row identity = .ok item := by
  unfold loadItems at h
  have hmem : (row, identity) ∈ (orderBy (fun row => row.itemId.entityId)
      (db.bibliographyItems.select fun row => row.owner = actor.principalId)).filterMap
        db.itemDetails := by
    refine List.mem_filterMap.mpr ⟨row, ?_, ?_⟩
    · rw [Table.mem_orderBy, Table.mem_select, decide_eq_true_eq]
      exact ⟨hrow, howner⟩
    · unfold itemDetails
      rw [howner, hidentity]
      rfl
  obtain ⟨item, -, hdecode⟩ := Except.exists_mem_of_mapM h hmem
  exact ⟨item, hdecode⟩

theorem decodes_of_loadLinks {id : BibliographyImportSourceId} {links : List BibliographyImportLink}
    (h : db.loadLinks actor id = .ok links) {row : ImportLinkRow}
    (hrow : row ∈ db.bibliographyImportLinks) (hid : row.sourceId = id)
    (howner : row.owner = actor.principalId) : ∃ link, decodeLink row = .ok link := by
  unfold loadLinks at h
  have hmem : row ∈ orderBy ImportLinkRow.externalItemId (db.bibliographyImportLinks.select
      fun row => row.sourceId = id ∧ row.owner = actor.principalId) := by
    rw [Table.mem_orderBy, Table.mem_select, decide_eq_true_eq]
    exact ⟨hrow, hid, howner⟩
  obtain ⟨link, -, hdecode⟩ := Except.exists_mem_of_mapM h hmem
  exact ⟨link, hdecode⟩

/-- The items of a state are the decoded rows of the library. -/
theorem mem_items_of_loadState (h : db.loadState lib actor sourceId = .ok state)
    {item : BibliographyItem lib.json} :
    item ∈ state.items ↔ ∃ row ∈ db.bibliographyItems, row.owner = actor.principalId ∧
      ∃ identity, db.primaryIdentity row.owner = some identity ∧
        decodeItem lib.json row identity = .ok item := by
  obtain ⟨source, links, items, -, hitems, -, rfl⟩ := loadState_eq_ok.mp h
  rw [← mem_loadItems hitems]
  exact Table.mem_orderBy

/-- The links of a state are the decoded rows of the source. -/
theorem mem_links_of_loadState (h : db.loadState lib actor sourceId = .ok state)
    {link : BibliographyImportLink} :
    link ∈ state.links ↔ ∃ row ∈ db.bibliographyImportLinks, sourceId = some row.sourceId ∧
      row.owner = actor.principalId ∧ decodeLink row = .ok link := by
  obtain ⟨source, links, items, hlinks, -, -, rfl⟩ := loadState_eq_ok.mp h
  have hmem : link ∈ (BibliographyImportState.canonicalized
      ({ source, links, items } : BibliographyImportState lib.json)).links ↔ link ∈ links :=
    Table.mem_orderBy
  rw [hmem]
  rcases hlinks with ⟨rfl, -, rfl⟩ | ⟨id, rfl, -, hlinks⟩
  · simp
  · rw [mem_loadLinks hlinks]
    simp only [Option.some.injEq, eq_comm]

/-- No two items of a state have one id. -/
theorem eq_of_itemId_eq (h : db.loadState lib actor sourceId = .ok state)
    {a b : BibliographyItem lib.json} (ha : a ∈ state.items) (hb : b ∈ state.items)
    (hid : a.itemId = b.itemId) : a = b := by
  obtain ⟨row, hrow, -, identity, hidentity, hdecode⟩ := (mem_items_of_loadState h).mp ha
  obtain ⟨row', hrow', -, identity', hidentity', hdecode'⟩ := (mem_items_of_loadState h).mp hb
  obtain ⟨-, -, -, csl, -, hstored⟩ := decodeItem_eq_ok.mp hdecode
  obtain ⟨-, -, -, csl', -, hstored'⟩ := decodeItem_eq_ok.mp hdecode'
  have hkey : row.itemId = a.itemId := (congrArg BibliographyItemRow.itemId hstored).symm
  have hkey' : row'.itemId = b.itemId := (congrArg BibliographyItemRow.itemId hstored').symm
  obtain rfl : row = row' := Table.eq_of_key_eq hrow hrow' (by
    show row.itemId = row'.itemId
    rw [hkey, hkey', hid])
  cases hidentity.symm.trans hidentity'
  exact Except.ok.inj (hdecode.symm.trans hdecode')

theorem find_items_of_loadState (h : db.loadState lib actor sourceId = .ok state)
    {item : BibliographyItem lib.json} (hitem : item ∈ state.items) :
    (state.items.find? fun other => other.itemId = item.itemId) = some item :=
  find?_eq_some_of_unique hitem fun _ hother hid => eq_of_itemId_eq h hother hitem hid

/-- No two links of a state have one external id. -/
theorem find_links_of_loadState (h : db.loadState lib actor sourceId = .ok state)
    {link : BibliographyImportLink} (hlink : link ∈ state.links) :
    (state.links.find? fun other => other.externalItemId = link.externalItemId) = some link := by
  refine find?_eq_some_of_unique hlink fun other hother hid => ?_
  obtain ⟨row, hrow, hsource, howner, hdecode⟩ := (mem_links_of_loadState h).mp hlink
  obtain ⟨row', hrow', hsource', howner', hdecode'⟩ := (mem_links_of_loadState h).mp hother
  obtain ⟨-, hstored⟩ := decodeLink_eq_ok.mp hdecode
  obtain ⟨-, hstored'⟩ := decodeLink_eq_ok.mp hdecode'
  have hexternal : row'.externalItemId = row.externalItemId := by
    rw [← hstored, ← hstored']
    exact hid
  obtain rfl : row' = row := Table.eq_of_key_eq hrow' hrow (by
    show (row'.sourceId, row'.externalItemId) = (row.sourceId, row.externalItemId)
    rw [hexternal, Option.some.inj (hsource'.symm.trans hsource)])
  exact Except.ok.inj (hdecode'.symm.trans hdecode)

/-- A link of a state leads to an item at its revision or later. -/
theorem exists_item_of_loadState (h : db.loadState lib actor sourceId = .ok state)
    {link : BibliographyImportLink} (hlink : link ∈ state.links) :
    ∃ item ∈ state.items, item.itemId = link.itemId ∧
      link.importedItemRevision ≤ item.revision := by
  obtain ⟨source, links, items, -, -, hdangling, rfl⟩ := loadState_eq_ok.mp h
  have hfit := hdangling link (Table.mem_orderBy.mp hlink)
  unfold DanglingLink at hfit
  split at hfit
  · exact absurd trivial hfit
  · next item hfind =>
    exact ⟨item, Table.mem_orderBy.mpr (List.mem_of_find?_eq_some hfind),
      by simpa using List.find?_some hfind, by omega⟩

/-- A state is read in its canonical order. -/
theorem canonicalized_of_loadState (h : db.loadState lib actor sourceId = .ok state) :
    state.canonicalized = state := by
  obtain ⟨source, links, items, -, -, -, rfl⟩ := loadState_eq_ok.mp h
  simp [BibliographyImportState.canonicalized]

/-- The source of a state is a row of its principal. -/
theorem source_of_loadState {id : BibliographyImportSourceId}
    (h : db.loadState lib actor (some id) = .ok state) :
    db.loadSource actor id = .ok state.source := by
  obtain ⟨source, links, items, hsource | ⟨id', hid, hsource, -⟩, -, -, rfl⟩ := loadState_eq_ok.mp h
  · cases hsource.1
  · cases hid
    exact hsource

theorem loadSource_eq_some {id : BibliographyImportSourceId} {source : BibliographyImportSource} :
    db.loadSource actor id = .ok (some source) ↔ ∃ row identity,
      db.bibliographyImportSources.find id = some row ∧ row.owner = actor.principalId ∧
        db.primaryIdentity row.owner = some identity ∧ decodeSource row identity = .ok source := by
  unfold loadSource
  constructor
  · intro h
    split at h
    · cases h
    · next row hrow =>
      obtain ⟨hfind, howner⟩ := Option.filter_eq_some_iff.mp hrow
      split at h
      · cases h
      · next identity hidentity =>
        obtain ⟨decoded, hdecoded, heq⟩ := Except.map_eq_ok.mp h
        cases heq
        exact ⟨row, identity, hfind, by simpa using howner, hidentity, hdecoded⟩
  · rintro ⟨row, identity, hfind, howner, hidentity, hdecoded⟩
    simp only [hfind, Option.filter_some, howner, decide_true, if_true]
    rw [howner] at hidentity
    simp only [hidentity, hdecoded]
    rfl

theorem decodeSource_eq_ok {row : ImportSourceRow} {identity : Identity}
    {source : BibliographyImportSource} :
    decodeSource row identity = .ok source ↔ source.toRow = row ∧
      source.owner = ⟨row.owner, identity⟩ := by
  unfold decodeSource BibliographyImportSource.restore
  obtain ⟨sourceId, owner, displayName, revision, createdAt, lastImportedAt⟩ := row
  constructor
  · intro h
    split at h
    · split at h
      · next source' hsource =>
        cases h
        split at hsource
        · cases hsource
          exact ⟨rfl, rfl⟩
        · cases hsource
      · cases h
    · cases h
  · obtain ⟨sourceId', owner', displayName', revision', createdAt', lastImportedAt', hpositive,
      hname,
      htimes⟩ := source
    rintro ⟨hrow, howner⟩
    simp only [BibliographyImportSource.toRow, ImportSourceRow.mk.injEq] at hrow howner
    obtain ⟨rfl, -, rfl, rfl, rfl, rfl⟩ := hrow
    subst howner
    rw [dif_pos hpositive, dif_pos ⟨hname, htimes⟩]

/-- The source of a state is its principal's. -/
theorem owner_of_loadState (h : db.loadState lib actor sourceId = .ok state)
    (source : BibliographyImportSource) (hsource : state.source = some source) :
    source.owner.id = actor.principalId := by
  obtain ⟨loaded, links, items, ⟨-, rfl, -⟩ | ⟨id, -, hload, -⟩, -, -, rfl⟩ := loadState_eq_ok.mp h
  · cases hsource
  · have hloaded : loaded = some source := hsource
    rw [hloaded] at hload
    obtain ⟨row, identity, -, howner, -, hdecode⟩ := loadSource_eq_some.mp hload
    rw [(decodeSource_eq_ok.mp hdecode).2]
    exact howner

/-! ## When a state can be read -/

theorem exists_loadItems (hitems : ∀ row ∈ db.bibliographyItems, row.owner = actor.principalId →
      ∀ identity, db.primaryIdentity row.owner = some identity →
        ∃ item, decodeItem json row identity = .ok item) :
    ∃ items, db.loadItems json actor = .ok items := by
  unfold loadItems
  refine Except.mapM_ok fun details hdetails => ?_
  obtain ⟨row, hrow, hdetails⟩ := List.mem_filterMap.mp hdetails
  obtain ⟨identity, hidentity, rfl⟩ := Option.map_eq_some_iff.mp hdetails
  rw [Table.mem_orderBy, Table.mem_select, decide_eq_true_eq] at hrow
  exact hitems row hrow.1 hrow.2 identity hidentity

/-- A link does not dangle when its item is in the library, at its revision or later. -/
theorem not_danglingLink {items : List (BibliographyItem json)}
    (hload : db.loadItems json actor = .ok items) {identity : Identity}
    (hidentity : db.primaryIdentity actor.principalId = some identity)
    {link : BibliographyImportLink} {row : BibliographyItemRow}
    (hrow : db.bibliographyItems.find link.itemId = some row)
    (howner : row.owner = actor.principalId)
    (hrevision : link.importedItemRevision ≤ row.revision)
    (hdecode : ∃ item, decodeItem json row identity = .ok item) : ¬DanglingLink items link := by
  have hid : row.itemId = link.itemId := Table.key_of_find hrow
  obtain ⟨item, hdecode⟩ := hdecode
  obtain ⟨-, -, -, csl, -, hstored⟩ := decodeItem_eq_ok.mp hdecode
  have hitemId : item.itemId = link.itemId :=
    (congrArg BibliographyItemRow.itemId hstored).trans hid
  have hitem : item ∈ items := (mem_loadItems hload).mpr
    ⟨row, Table.mem_of_find hrow, howner, identity, howner ▸ hidentity, hdecode⟩
  unfold DanglingLink
  split
  · next hnone => simpa [hitemId] using List.find?_eq_none.mp hnone item hitem
  · next found hfound =>
    obtain ⟨row', hrow', -, identity', -, hdecode'⟩ :=
      (mem_loadItems hload).mp (List.mem_of_find?_eq_some hfound)
    obtain ⟨-, -, -, csl', -, hstored'⟩ := decodeItem_eq_ok.mp hdecode'
    have hid' : row'.itemId = link.itemId := by
      rw [← show found.itemId = row'.itemId from congrArg BibliographyItemRow.itemId hstored']
      simpa using List.find?_some hfound
    have hfind' := Table.find_of_mem hrow'
    rw [show Keyed.key row' = link.itemId from hid', hrow] at hfind'
    cases hfind'
    rw [show found.revision = row.revision from congrArg BibliographyItemRow.revision hstored']
    omega

/-- The state of a source can be read when its rows decode and its links lead to items. -/
theorem exists_loadState {id : BibliographyImportSourceId} {source : BibliographyImportSource}
    {identity : Identity} (hsource : db.loadSource actor id = .ok (some source))
    (hidentity : db.primaryIdentity actor.principalId = some identity)
    (hitems : ∀ row ∈ db.bibliographyItems, row.owner = actor.principalId →
      ∃ item, decodeItem lib.json row identity = .ok item)
    (hlinks : ∀ row ∈ db.bibliographyImportLinks, row.sourceId = id →
      row.owner = actor.principalId → (∃ link, decodeLink row = .ok link) ∧
        ∃ item, db.bibliographyItems.find row.itemId = some item ∧
          item.owner = actor.principalId ∧ row.importedItemRevision ≤ item.revision) :
    ∃ state, db.loadState lib actor (some id) = .ok state ∧ state.source = some source := by
  obtain ⟨items, hload⟩ := exists_loadItems fun row hrow howner identity' hidentity' => by
    rw [howner, hidentity] at hidentity'
    cases hidentity'
    exact hitems row hrow howner
  have hloadLinks : ∃ links, db.loadLinks actor id = .ok links := by
    unfold loadLinks
    refine Except.mapM_ok fun row hrow => ?_
    rw [Table.mem_orderBy, Table.mem_select, decide_eq_true_eq] at hrow
    exact (hlinks row hrow.1 hrow.2.1 hrow.2.2).1
  obtain ⟨links, hloadLinks⟩ := hloadLinks
  refine ⟨_, loadState_eq_ok.mpr ⟨some source, links, items, Or.inr ⟨id, rfl, hsource, hloadLinks⟩,
    hload, fun link hlink => ?_, rfl⟩, rfl⟩
  obtain ⟨row, hrow, hid, howner, hdecode⟩ := (mem_loadLinks hloadLinks).mp hlink
  obtain ⟨-, item, hitem, hitemOwner, hrevision⟩ := hlinks row hrow hid howner
  obtain ⟨-, hstored⟩ := decodeLink_eq_ok.mp hdecode
  rw [← hstored] at hitem hrevision
  exact not_danglingLink hload hidentity hitem hitemOwner hrevision
    (hitems item (Table.mem_of_find hitem) hitemOwner)

end Database

end Marginalis
