import Marginalis.ImportBaselines

/-!
# Importing a file again

After an import, the link of every external item that was not excluded has the digest of the
file and the revision of its item, so the same file is `unchanged` throughout and its
suggestions keep every item (`reimport_repeats_iff`). This needs that the state can be read
again : an update stamps the item with the time of the import, and an item that was created at
a later time is corrupt from then on.
-/

namespace Marginalis

variable {lib : ImportLibrary}

/-! ## The entry at a position -/

/-- The external ids that are taken after an item. -/
def nextExternalIds (lib : ImportLibrary) (externalIds : List String) (value : Json) :
    List String :=
  match validateItem lib value with
  | .error _ => externalIds
  | .ok validated =>
    if validated.externalItemId ∈ externalIds then externalIds
    else validated.externalItemId :: externalIds

variable {state : BibliographyImportState lib.json} {position : ℕ} {value : Json}
  {entry : BibliographyImportEntry} {externalIds externalIds' : List String}

/-- The ids that are taken do not depend on the state. -/
theorem classifyEntry_externalIds
    (h : classifyEntry lib position value state externalIds = .ok (entry, externalIds')) :
    externalIds' = nextExternalIds lib externalIds value := by
  unfold classifyEntry at h
  unfold nextExternalIds
  rcases hresult : validateItem lib value with code | validated
  · rw [hresult] at h
    cases h
    rfl
  · rw [hresult] at h
    dsimp only at h ⊢
    by_cases htaken : validated.externalItemId ∈ externalIds
    · rw [if_pos htaken] at h ⊢
      cases h
      rfl
    · rw [if_neg htaken] at h ⊢
      split at h
      · obtain ⟨linked, -, hpair⟩ := Except.map_eq_ok.mp h
        cases hpair
        rfl
      · cases h
        rfl

/-- Each entry of a file is classified at its position, after the ids before it. -/
theorem classifyEntry_of_mem {values : List Json} {entries : List BibliographyImportEntry}
    (h : classifyEntries lib state position externalIds values = .ok entries)
    (hentry : entry ∈ entries) : ∃ i value ids, entry.position = position + i ∧
      values[i]? = some value ∧ classifyEntry lib (position + i) value state
        ((values.take i).foldl (nextExternalIds lib) externalIds) = .ok (entry, ids) := by
  induction values generalizing position externalIds entries with
  | nil =>
    cases h
    cases hentry
  | cons value values ih =>
    rw [classifyEntries] at h
    obtain ⟨⟨first, ids⟩, hfirst, h⟩ := Except.bind_eq_ok.mp h
    obtain ⟨rest, hrest, h⟩ := Except.bind_eq_ok.mp h
    cases h
    rcases List.mem_cons.mp hentry with rfl | hentry
    · exact ⟨0, value, ids, (classifyEntry_cases hfirst).1, rfl, hfirst⟩
    · obtain ⟨i, value', ids', hposition, hvalue, hclassified⟩ := ih hrest hentry
      rw [classifyEntry_externalIds hfirst] at hclassified
      refine ⟨i + 1, value', ids', by omega, hvalue, ?_⟩
      rw [← Nat.add_assoc, Nat.add_right_comm]
      exact hclassified

/-- A file is classified when the texts of the library can be read. -/
theorem exists_classifyEntries (position : ℕ) (externalIds : List String) (values : List Json)
    (hparse : ∀ item ∈ state.items, lib.json.parse item.cslJson ≠ none) :
    ∃ entries, classifyEntries lib state position externalIds values = .ok entries := by
  induction values generalizing position externalIds with
  | nil => exact ⟨[], rfl⟩
  | cons value values ih =>
    have hfirst : ∃ classified, classifyEntry lib position value state externalIds =
        .ok classified := by
      unfold classifyEntry
      split
      · exact ⟨_, rfl⟩
      · split
        · exact ⟨_, rfl⟩
        · split
          · next link _ =>
            unfold classifyLinkedEntry
            split
            · exact ⟨_, rfl⟩
            · next item hitem =>
              split
              · next hnone => exact absurd hnone (hparse item (List.mem_of_find?_eq_some hitem))
              · exact ⟨_, rfl⟩
          · exact ⟨_, rfl⟩
    obtain ⟨⟨entry, ids⟩, hfirst⟩ := hfirst
    obtain ⟨entries, hentries⟩ := ih (position + 1) ids
    exact ⟨entry :: entries, Except.bind_eq_ok.mpr
      ⟨_, hfirst, Except.bind_eq_ok.mpr ⟨entries, hentries, rfl⟩⟩⟩

/-- An external item is unchanged when its link has its digest and the revision of its item. -/
theorem classification_eq_unchanged {validated : ValidatedItem lib} {link : BibliographyImportLink}
    {item : BibliographyItem lib.json} (hvalidated : validateItem lib value = .ok validated)
    (hfresh : validated.externalItemId ∉ externalIds)
    (hlink : (state.links.find? fun link => link.externalItemId = validated.externalItemId) =
      some link)
    (hdigest : link.importedDigest = validated.digest)
    (hitem : (state.items.find? fun item => item.itemId = link.itemId) = some item)
    (hrevision : item.revision = link.importedItemRevision)
    (h : classifyEntry lib position value state externalIds = .ok (entry, externalIds')) :
    entry.classification = .unchanged := by
  unfold classifyEntry at h
  rw [hvalidated] at h
  dsimp only at h
  rw [if_neg hfresh, hlink] at h
  obtain ⟨linked, hlinked, hpair⟩ := Except.map_eq_ok.mp h
  cases hpair
  unfold classifyLinkedEntry at hlinked
  rw [hitem] at hlinked
  dsimp only at hlinked
  split at hlinked
  · cases hlinked
  · cases hlinked
    simp [classifyLinked, hdigest, hrevision]

/-! ## The library after an import -/

variable {db db' read : Database} {actor : Actor} {source : BibliographyImportSource}
  {input : BibliographyImportInput} {preview : BibliographyImportPreview}
  {decisions : List BibliographyImportDecision} {importedAt : ℤ}
  {itemIds : ℕ → BibliographyItemId} {commit : BibliographyImportCommit lib.json}
  {result : BibliographyImportResult} {mutation : BibliographyImportItemMutation lib.json}

/-- The decision has the external item written to an item of the library. -/
def UpdatesItem (entry : BibliographyImportEntry) (decision : BibliographyImportDecision)
    (itemId : BibliographyItemId) : Prop :=
  entry.itemId = some itemId ∧
      (entry.classification = .updateFromExternal ∧ decision.kind = .applySuggested ∨
        entry.classification = .conflict ∧ decision.kind = .useExternal) ∨
    decision.candidateItemId = some itemId ∧ entry.classification = .duplicateCandidate ∧
      decision.kind = .linkExistingUseExternal

/-- The items the decisions update were created before the import. -/
def UpdatesAfterCreation (db : Database) (preview : BibliographyImportPreview)
    (decisions : List BibliographyImportDecision) (importedAt : ℤ) : Prop :=
  ∀ entry ∈ preview.entries, ∀ decision ∈ decisions, decision.position = entry.position →
    ∀ itemId, UpdatesItem entry decision itemId →
      ∀ row, db.bibliographyItems.find itemId = some row → row.createdAt ≤ importedAt

/-- The principal of an applied import, and the source the import wrote. -/
theorem exists_source_of_applyImport (hdb : db.LibraryConsistent lib.json)
    (htargets : (commit.mutations.map BibliographyImportItemMutation.targetItemId).Nodup)
    (hexternal : (commit.mutations.map fun mutation => mutation.link.externalItemId).Nodup)
    (happly : db.applyImport lib actor commit = .ok (result, db')) :
    ∃ identity source, db.primaryIdentity actor.principalId = some identity ∧
      db'.loadSource actor commit.source.sourceId = .ok (some source) := by
  obtain ⟨-, -, ⟨current, hcurrent, hsame⟩, revision, stored, hstored, hwritten, -⟩ :=
    Database.applyImport_eq_ok.mp happly
  have hkept : db'.principalIdentities = db.principalIdentities ∧
      db'.bibliographyImportSources = stored.bibliographyImportSources := by
    obtain ⟨sources, rfl⟩ := Database.persistSource_eq hstored
    have happlied := Database.applied_of_applyMutations htargets
      (Database.linkKeys_nodup hexternal) hwritten
    exact ⟨happlied.principalIdentities, happlied.sources⟩
  have hidentities := Database.primaryIdentity_congr hkept.1
  unfold Database.persistSource at hstored
  cases hexpected : commit.expectedState.source with
  | some expected =>
    rw [hexpected] at hstored hcurrent
    obtain ⟨hid, -, row, hrow, howner, hrevision, hle, rfl⟩ := Database.renewSource_eq_ok.mp hstored
    have hsourceState := Database.source_of_loadState hcurrent
    have hrows := hsame.1
    rw [hexpected] at hrows
    cases hloaded : current.source with
    | none =>
      rw [hloaded] at hrows
      cases hrows
    | some loaded =>
      rw [hloaded] at hsourceState
      obtain ⟨row', identity, hrow', howner', hidentity, hdecode⟩ :=
        Database.loadSource_eq_some.mp hsourceState
      rw [howner'] at hidentity
      rw [hid, hrow] at hrow'
      cases hrow'
      obtain ⟨htoRow, -⟩ := Database.decodeSource_eq_ok.mp hdecode
      have hname : ValidSourceName row.displayName := by
        rw [← htoRow]
        exact loaded.name
      set renewed : ImportSourceRow :=
        { row with lastImportedAt := commit.importedAt, revision := row.revision + 1 }
      refine ⟨identity, ⟨row.sourceId, ⟨row.owner, identity⟩, row.displayName, row.revision + 1,
        row.createdAt, commit.importedAt, Nat.succ_pos _, hname, hle⟩, hidentity,
        Database.loadSource_eq_some.mpr ⟨renewed, identity, ?_, howner, ?_,
          Database.decodeSource_eq_ok.mpr ⟨rfl, rfl⟩⟩⟩
      · rw [hkept.2]
        show (db.bibliographyImportSources.upsert _).find _ = _
        rw [Table.find_upsert]
        exact if_pos (Table.key_of_find hrow)
      · rw [hidentities]
        show db.primaryIdentity row.owner = _
        rw [howner, hidentity]
  | none =>
    rw [hexpected] at hstored
    obtain ⟨hcheck, hprincipal, -, sources, hinsert, rfl⟩ := Database.insertSource_eq_ok.mp hstored
    obtain ⟨principal, hfind⟩ := Option.ne_none_iff_exists'.mp hprincipal
    obtain ⟨identity, hidentity⟩ := hdb.principals.primary principal (Table.mem_of_find hfind)
    rw [show principal.principalId = actor.principalId from Table.key_of_find hfind] at hidentity
    refine ⟨identity, ⟨commit.source.sourceId, ⟨actor.principalId, identity⟩,
      commit.source.displayName, initialRevision, commit.source.createdAt, commit.importedAt,
      Nat.one_pos, commit.source.name, hcheck.2⟩, hidentity,
      Database.loadSource_eq_some.mpr ⟨_, identity, ?_, rfl, ?_,
        Database.decodeSource_eq_ok.mpr ⟨rfl, rfl⟩⟩⟩
    · rw [hkept.2]
      show sources.find _ = _
      rw [Table.find_insert? hinsert]
      exact if_pos rfl
    · rw [hidentities]
      exact hidentity

/-- What a planned mutation leaves at its target : an item at the revision of its link. -/
theorem target_of_planned {validated : ValidatedItem lib} {decision : BibliographyImportDecision}
    {newItemId : BibliographyItemId}
    (hplan : IsPlan lib state source input preview decisions importedAt itemIds commit)
    (happly : db.applyImport lib actor commit = .ok (result, db'))
    (hmutation : mutation ∈ commit.mutations)
    (hplanned : Planned lib state source importedAt newItemId value validated entry decision
      mutation) :
    ∃ row, db'.bibliographyItems.find mutation.link.itemId = some row ∧
      row.owner = actor.principalId ∧ row.revision = mutation.link.importedItemRevision ∧
      0 < row.revision := by
  have hfound := Database.found_of_applyImport hplan.targets happly hmutation
  have htarget := Database.find_target_applyImport hplan.targets hplan.externalItems happly
    hmutation
  rw [hplanned.link_itemId, htarget]
  cases hplanned with
  | create link hkind hnew hcandidates hseparate hlink =>
    exact ⟨_, rfl, hfound.1, hlink.importedItemRevision.symm, Nat.one_pos⟩
  | updateLinked old link item csl hold hitem hid hkind hkey hlink =>
    obtain ⟨row, hrow, howner, hrevision⟩ := hfound
    refine ⟨_, congrArg (Option.map _) hrow, howner, ?_, Nat.succ_pos _⟩
    exact (congrArg (· + 1) hrevision).trans hlink.importedItemRevision.symm
  | updateCandidate link item csl hnew hitem hcandidate hkind hkey hlink =>
    obtain ⟨row, hrow, howner, hrevision⟩ := hfound
    refine ⟨_, congrArg (Option.map _) hrow, howner, ?_, Nat.succ_pos _⟩
    exact (congrArg (· + 1) hrevision).trans hlink.importedItemRevision.symm
  | keepLinked old link item hold hitem hid hkind hlink =>
    obtain ⟨row, hrow, howner, hrevision⟩ := hfound
    exact ⟨row, hrow, howner, hrevision.trans hlink.importedItemRevision.symm,
      hrevision ▸ item.positive⟩
  | keepCandidate link item hnew hitem hcandidate hkind hlink =>
    obtain ⟨row, hrow, howner, hrevision⟩ := hfound
    exact ⟨row, hrow, howner, hrevision.trans hlink.importedItemRevision.symm,
      hrevision ▸ item.positive⟩

/-- An update is one a decision asked for. -/
theorem updatesItem_of_planned {validated : ValidatedItem lib}
    {decision : BibliographyImportDecision}
    {newItemId itemId : BibliographyItemId} {csl : ValidatedCslJson lib.json} {revision : ℕ}
    {link : BibliographyImportLink} {updatedAt : ℤ}
    (hplanned : Planned lib state source importedAt newItemId value validated entry decision
      (.update itemId csl revision link updatedAt)) :
    UpdatesItem entry decision itemId ∧ updatedAt = importedAt := by
  cases hplanned with
  | updateLinked old link item csl hold hitem hid hkind hkey hlink =>
    refine ⟨Or.inl ⟨hid, ?_⟩, rfl⟩
    rcases hkind with ⟨-, hkind⟩ | hkind
    · exact Or.inl hkind
    · exact Or.inr hkind
  | updateCandidate link item csl hnew hitem hcandidate hkind hkey hlink =>
    exact ⟨Or.inr ⟨hcandidate, hkind⟩, rfl⟩

/-- Every item of the principal decodes after an import that updates none before its creation. -/
theorem decodes_of_applyImport (hrereads : Rereads lib.json)
    (hplan : IsPlan lib state source input preview decisions importedAt itemIds commit)
    (happly : db.applyImport lib actor commit = .ok (result, db')) {identity : Identity}
    (hidentity : db.primaryIdentity actor.principalId = some identity)
    (hupdates : UpdatesAfterCreation db preview decisions importedAt) {row : BibliographyItemRow}
    (hrow : row ∈ db'.bibliographyItems) (howner : row.owner = actor.principalId) :
    ∃ item, Database.decodeItem lib.json row identity = .ok item := by
  obtain ⟨-, hconsistent, ⟨current, hcurrent, hsame⟩, -⟩ := Database.applyImport_eq_ok.mp happly
  obtain ⟨loaded, links, items, -, hload, -, -⟩ := Database.loadState_eq_ok.mp hcurrent
  have hstored : row ∈ db.bibliographyItems →
      ∃ item, Database.decodeItem lib.json row identity = .ok item :=
    fun hrow => Database.decodes_of_loadItems hload hrow howner hidentity
  have hfind := Table.find_of_mem hrow
  rcases Database.find_items_applyImport hplan.targets hplan.externalItems happly
    (Keyed.key row) with
    hsame' | ⟨mutation, hmutation, htarget, hwritten⟩
  · exact hstored (Table.mem_of_find (hsame'.symm.trans hfind))
  · have hfound := Database.found_of_applyImport hplan.targets happly hmutation
    rw [hfind] at hwritten
    cases mutation with
    | create item link =>
      cases hwritten
      obtain ⟨csl, hkey, htext⟩ := item.csl
      refine Database.exists_decodeItem identity item.positive item.times ?_
      show ∃ read, ValidatedCslJson.fromEncoded lib.json item.citationKey item.cslJson = .ok read
      rw [← hkey, ← htext]
      exact hrereads csl
    | update itemId csl revision link updatedAt =>
      obtain ⟨old, hold, -, -⟩ := hfound
      obtain ⟨entry, hentry, value, validated, decision, hdecision, hposition, -, -, -, -,
        hplanned⟩ := hplan.planned _ hmutation
      obtain ⟨hupdate, rfl⟩ := updatesItem_of_planned hplanned
      have htimes := hupdates entry hentry decision hdecision hposition itemId hupdate old hold
      obtain ⟨-, -, ⟨item, hitem, rfl, -, hkey⟩, -⟩ := hconsistent _ hmutation
      obtain ⟨row', hrow', -, hkey', -⟩ := Database.row_of_expectedState hcurrent hsame hitem
      cases hrow'.symm.trans hold
      have hid : item.itemId = Keyed.key row := htarget
      rw [← hid, hold] at hwritten
      cases hwritten
      refine Database.exists_decodeItem identity (Nat.succ_pos _) htimes ?_
      show ∃ read, ValidatedCslJson.fromEncoded lib.json old.citationKey csl.encoded = .ok read
      rw [hkey', hkey]
      exact hrereads csl
    | keep revision link => exact hstored (Table.mem_of_find hwritten.symm)

/-- A link of the source that was there before the import has a valid external id. -/
theorem identifier_of_stored (hdb : db.LibraryConsistent lib.json)
    (happly : db.applyImport lib actor commit = .ok (result, db')) {link : ImportLinkRow}
    (hlink : link ∈ db.bibliographyImportLinks) (hid : link.sourceId = commit.source.sourceId)
    (howner : link.owner = actor.principalId) :
    ValidIdentifier link.externalItemId maxBibliographyExternalItemIdBytes := by
  obtain ⟨-, -, ⟨current, hcurrent, -⟩, revision, stored, hstored, -⟩ :=
    Database.applyImport_eq_ok.mp happly
  unfold Database.persistSource at hstored
  cases hexpected : commit.expectedState.source with
  | some expected =>
    rw [hexpected] at hstored hcurrent
    obtain ⟨hsourceId, -⟩ := Database.renewSource_eq_ok.mp hstored
    obtain ⟨loaded, links, items, ⟨hnone, -⟩ | ⟨id, hsome, -, hload⟩, -⟩ :=
      Database.loadState_eq_ok.mp hcurrent
    · cases hnone
    · cases hsome
      obtain ⟨decoded, hdecode⟩ :=
        Database.decodes_of_loadLinks hload hlink (hid.trans hsourceId.symm) howner
      obtain ⟨-, htoRow⟩ := Database.decodeLink_eq_ok.mp hdecode
      rw [← htoRow]
      exact decoded.identifier
  | none =>
    -- A new source has no links yet.
    rw [hexpected] at hstored
    obtain ⟨-, -, -, sources, hinsert, -⟩ := Database.insertSource_eq_ok.mp hstored
    obtain ⟨⟨stored', hstored', -⟩, -⟩ := hdb.references link hlink
    have hfree : db.bibliographyImportSources.find commit.source.sourceId = none :=
      (Table.insert?_eq_some.mp hinsert).1
    rw [hid, hfree] at hstored'
    cases hstored'

/-- The state of the source can be read after an import that updates no item before its
creation. -/
theorem exists_loadState_of_applyImport (hrereads : Rereads lib.json)
    (hdb : db.LibraryConsistent lib.json)
    (hplan : IsPlan lib state source input preview decisions importedAt itemIds commit)
    (happly : db.applyImport lib actor commit = .ok (result, db'))
    (hupdates : UpdatesAfterCreation db preview decisions importedAt) :
    ∃ state', db'.loadState lib actor (some commit.source.sourceId) = .ok state' ∧
      state'.source ≠ none := by
  have hdb' := hdb.applyImport happly
  obtain ⟨identity, source', hidentity, hsource⟩ :=
    exists_source_of_applyImport hdb hplan.targets hplan.externalItems happly
  have hidentity' : db'.primaryIdentity actor.principalId = some identity := by
    obtain ⟨sources, happlied⟩ :=
      Database.applied_of_applyImport hplan.targets hplan.externalItems happly
    rw [Database.primaryIdentity_congr happlied.principalIdentities]
    exact hidentity
  have hlinks : ∀ link ∈ db'.bibliographyImportLinks, link.sourceId = commit.source.sourceId →
      link.owner = actor.principalId → (∃ decoded, Database.decodeLink link = .ok decoded) ∧
        ∃ item, db'.bibliographyItems.find link.itemId = some item ∧
          item.owner = actor.principalId ∧ link.importedItemRevision ≤ item.revision := ?_
  · obtain ⟨state', hstate', hsome⟩ := Database.exists_loadState hsource hidentity'
      (fun row => decodes_of_applyImport hrereads hplan happly hidentity hupdates) hlinks
    exact ⟨state', hstate', hsome ▸ Option.some_ne_none _⟩
  intro link hlink hid howner
  obtain ⟨item, hitem, hitemOwner, hpositive, hle⟩ := hdb'.exists_item hlink
  refine ⟨⟨⟨link.sourceId, link.externalItemId, link.itemId, link.importedDigest,
    link.importedItemRevision, ?_⟩, Database.decodeLink_eq_ok.mpr ⟨by omega, rfl⟩⟩, item, hitem,
    hitemOwner.trans howner, hle⟩
  -- The external id is one of the plan, or of a source that was read before.
  rcases Database.mem_links_applyImport hplan.targets hplan.externalItems happly hlink with
    hlink | ⟨mutation, -, rfl⟩
  · exact identifier_of_stored hdb happly hlink hid howner
  · exact mutation.link.identifier

/-! ## The same file again -/

/-- The file as one for the source it was imported to. -/
def BibliographyImportInput.again (input : BibliographyImportInput)
    (sourceId : BibliographyImportSourceId) : BibliographyImportInput :=
  ⟨.existing sourceId, input.items⟩

/-- After an import with these decisions, the same file is unchanged wherever it was not excluded,
and its suggestions there change no item. -/
structure ReimportRepeats (lib : ImportLibrary) (actor : Actor) (input : BibliographyImportInput)
    (decisions : List BibliographyImportDecision) (db : Database) : Prop where
  unchanged : ∃ preview state, previewWithState lib db actor input = .ok (preview, state) ∧
    ∀ entry ∈ preview.entries, ∀ decision ∈ decisions, decision.position = entry.position →
      decision.kind ≠ .exclude → entry.classification = .unchanged
  keeps : ∀ again : List BibliographyImportDecision,
    (∀ decision ∈ again, decision.kind = .exclude ∨ decision.kind = .applySuggested ∧
      ∃ first ∈ decisions, first.position = decision.position ∧ first.kind ≠ .exclude) →
    ∀ token now sourceId itemIds itemId,
      (db.importFile lib db actor input again token now sourceId itemIds).bibliographyItems.find
        itemId = db.bibliographyItems.find itemId

/-- The entry of a position of the file. -/
theorem exists_entry_of_position {values : List Json} {entries : List BibliographyImportEntry}
    (h : classifyEntries lib state 0 [] values = .ok entries) {i : ℕ} (hi : i < values.length) :
    ∃ entry ∈ entries, entry.position = i := by
  have hmem : i ∈ entries.map BibliographyImportEntry.position := by
    rw [(classifyEntries_cases h).1, List.mem_range'_1]
    omega
  obtain ⟨entry, hentry, hposition⟩ := List.mem_map.mp hmem
  exact ⟨entry, hentry, hposition⟩

theorem entry_eq_of_position {values : List Json} {entries : List BibliographyImportEntry}
    (h : classifyEntries lib state 0 [] values = .ok entries) {a b : BibliographyImportEntry}
    (ha : a ∈ entries) (hb : b ∈ entries) (hposition : a.position = b.position) : a = b := by
  have hnodup : (entries.map BibliographyImportEntry.position).Nodup := by
    rw [(classifyEntries_cases h).1]
    exact List.nodup_range'
  exact List.inj_on_of_nodup_map hnodup ha hb hposition

/-- The row of an item after a decision for the external one. -/
theorem updated_of_planned {validated : ValidatedItem lib} {decision : BibliographyImportDecision}
    {newItemId itemId : BibliographyItemId}
    (hplan : IsPlan lib state source input preview decisions importedAt itemIds commit)
    (happly : db.applyImport lib actor commit = .ok (result, db'))
    (hmutation : mutation ∈ commit.mutations)
    (hplanned : Planned lib state source importedAt newItemId value validated entry decision
      mutation)
    (hupdate : UpdatesItem entry decision itemId) {row : BibliographyItemRow}
    (hrow : db.bibliographyItems.find itemId = some row) :
    ∃ updated, db'.bibliographyItems.find itemId = some updated ∧
      updated.owner = actor.principalId ∧ updated.createdAt = row.createdAt ∧
      updated.updatedAt = importedAt := by
  have hfound := Database.found_of_applyImport hplan.targets happly hmutation
  have htarget := Database.find_target_applyImport hplan.targets hplan.externalItems happly
    hmutation
  cases hplanned with
  | create link hkind hnew =>
    rcases hkind with ⟨hclass, hkind⟩ | ⟨hclass, hkind⟩ <;>
      rcases hupdate with ⟨-, hupdate⟩ | ⟨-, hupdate⟩ <;> simp [hclass, hkind] at hupdate
  | updateLinked old link item csl hold hitem hid hkind hkey hlink =>
    have hid : item.itemId = itemId := by
      rcases hupdate with ⟨hsome, -⟩ | ⟨-, hclass, -⟩
      · exact Option.some.inj (hid.symm.trans hsome)
      · rcases hkind with ⟨-, hkind, -⟩ | ⟨hkind, -⟩ <;> simp [hclass] at hkind
    obtain ⟨stored, hstored, howner, -⟩ := hfound
    obtain rfl : stored = row := Option.some.inj (hstored.symm.trans (hid ▸ hrow))
    rw [← hid]
    exact ⟨_, htarget.trans (congrArg (Option.map _) hstored), howner, rfl, rfl⟩
  | updateCandidate link item csl hnew hitem hcandidate hkind hkey hlink =>
    have hid : item.itemId = itemId := by
      rcases hupdate with ⟨-, ⟨hclass, -⟩ | ⟨hclass, -⟩⟩ | ⟨hsome, -⟩
      · simp [hclass] at hkind
      · simp [hclass] at hkind
      · exact Option.some.inj (hcandidate.symm.trans hsome)
    obtain ⟨stored, hstored, howner, -⟩ := hfound
    obtain rfl : stored = row := Option.some.inj (hstored.symm.trans (hid ▸ hrow))
    rw [← hid]
    exact ⟨_, htarget.trans (congrArg (Option.map _) hstored), howner, rfl, rfl⟩
  | keepLinked old link item hold hitem hid hkind hlink =>
    rcases hkind with ⟨-, hclass, hkind⟩ | ⟨hclass, hkind⟩ | ⟨hclass, hkind⟩ <;>
      rcases hupdate with ⟨-, hupdate⟩ | ⟨-, hupdate⟩ <;> simp [hclass, hkind] at hupdate
  | keepCandidate link item hnew hitem hcandidate hkind hlink =>
    rcases hupdate with ⟨-, hupdate⟩ | ⟨-, hupdate⟩ <;> simp [hkind] at hupdate

/-- The mutation of a position that was not excluded. -/
theorem exists_planned_of_position
    (hpreview : classifyImport lib input state = .ok preview)
    (hplan : IsPlan lib state source input preview decisions importedAt itemIds commit)
    {decision : BibliographyImportDecision} (hdecision : decision ∈ decisions)
    (hincluded : decision.kind ≠ .exclude) (hi : decision.position < input.items.length) :
    ∃ entry ∈ preview.entries, entry.position = decision.position ∧
      ∃ mutation ∈ commit.mutations, ∃ value validated,
        input.items[decision.position]? = some value ∧ validateItem lib value = .ok validated ∧
          entry.externalItemId = some validated.externalItemId ∧
          Planned lib state source importedAt (itemIds decision.position) value validated entry
            decision mutation := by
  have hentries := (classifyImport_eq_ok.mp hpreview).1
  obtain ⟨entry, hentry, hposition⟩ := exists_entry_of_position hentries hi
  have hsame : ∀ other ∈ decisions, other.position = entry.position → other = decision :=
    fun other hother heq => List.inj_on_of_nodup_map hplan.positions hother hdecision
      (heq.trans hposition)
  refine ⟨entry, hentry, hposition, ?_⟩
  rcases hplan.complete entry hentry with ⟨other, hother, heq, hexcluded⟩ | ⟨mutation, hmutation, h⟩
  · rw [hsame other hother heq] at hexcluded
    exact absurd hexcluded hincluded
  · obtain ⟨value, validated, other, hother, heq, hvalue, hvalidated, -, hexternal, hplanned⟩ := h
    obtain rfl := hsame other hother heq
    rw [hposition] at hvalue hplanned
    exact ⟨mutation, hmutation, value, validated, hvalue, hvalidated, hexternal, hplanned⟩

/-- An entry of the file that was not excluded is unchanged after the import. -/
theorem unchanged_after_import
    (hpreview : classifyImport lib input state = .ok preview)
    (hplan : IsPlan lib state source input preview decisions importedAt itemIds commit)
    (happly : db.applyImport lib actor commit = .ok (result, db'))
    {state' : BibliographyImportState lib.json} {entries : List BibliographyImportEntry}
    (hstate' : db'.loadState lib actor (some commit.source.sourceId) = .ok state')
    (hagain : classifyEntries lib state' 0 [] input.items = .ok entries) {entry' :
      BibliographyImportEntry} (hentry' : entry' ∈ entries) {decision : BibliographyImportDecision}
    (hdecision : decision ∈ decisions) (hposition : decision.position = entry'.position)
    (hincluded : decision.kind ≠ .exclude) : entry'.classification = .unchanged := by
  obtain ⟨i, value, ids', hi, hvalue, hclassified'⟩ := classifyEntry_of_mem hagain hentry'
  rw [Nat.zero_add] at hi hclassified'
  have hat : decision.position = i := hposition.trans hi
  have hlt : decision.position < input.items.length := by
    rw [hat]
    exact (List.getElem?_eq_some_iff.mp hvalue).1
  obtain ⟨entry, hentry, hentryPosition, mutation, hmutation, value', validated, hvalue',
    hvalidated,
    hexternal, hplanned⟩ := exists_planned_of_position hpreview hplan hdecision hincluded hlt
  rw [hat, hvalue] at hvalue'
  cases hvalue'
  -- The ids before the entry are those of the first import, where its own was free.
  obtain ⟨j, value'', ids, hj, hvalue'', hclassified⟩ :=
    classifyEntry_of_mem (classifyImport_eq_ok.mp hpreview).1 hentry
  rw [Nat.zero_add] at hj hclassified
  obtain rfl : j = i := by omega
  have hfresh := ((classifyEntry_cases hclassified).2.2.1 _ hexternal).1
  -- The link of the mutation, and its item.
  have hlinkRow := Database.find_link_applyImport hplan.targets hplan.externalItems happly hmutation
  obtain ⟨row, hrow, howner, hrevision, hpositive⟩ :=
    target_of_planned hplan happly hmutation hplanned
  have hislink := hplanned.isLink
  have hsourceId : mutation.link.sourceId = commit.source.sourceId := by
    rw [hislink.sourceId, hplan.source_eq]
  have hlink : mutation.link ∈ state'.links := by
    refine (Database.mem_links_of_loadState hstate').mpr
      ⟨_, Table.mem_of_find hlinkRow, congrArg some hsourceId.symm, rfl, ?_⟩
    refine Database.decodeLink_eq_ok.mpr ⟨?_, rfl⟩
    show mutation.link.importedItemRevision ≠ 0
    omega
  have hfindLink := Database.find_links_of_loadState hstate' hlink
  rw [hislink.externalItemId] at hfindLink
  obtain ⟨item, hitem, hitemId, -⟩ := Database.exists_item_of_loadState hstate' hlink
  have hfindItem := Database.find_items_of_loadState hstate' hitem
  rw [hitemId] at hfindItem
  refine classification_eq_unchanged hvalidated hfresh hfindLink hislink.importedDigest hfindItem ?_
    hclassified'
  obtain ⟨row', hrow', -, identity, -, hdecode⟩ :=
    (Database.mem_items_of_loadState hstate').mp hitem
  obtain ⟨-, -, -, csl, -, hstored⟩ := Database.decodeItem_eq_ok.mp hdecode
  have hkey : row'.itemId = mutation.link.itemId :=
    (congrArg BibliographyItemRow.itemId hstored).symm.trans hitemId
  have hfind' := Table.find_of_mem hrow'
  rw [show Keyed.key row' = mutation.link.itemId from hkey, hrow] at hfind'
  cases hfind'
  exact (congrArg BibliographyItemRow.revision hstored).trans hrevision

/-- The checks of a file apart from the name of a new source. -/
theorem validate_eq_ok (h : input.validate lib = .ok ()) :
    ¬(input.items = [] ∨ 1000 < input.items.length) ∧
      ¬8 * 1024 * 1024 < (lib.json.encode (.array input.items)).utf8ByteSize := by
  unfold BibliographyImportInput.validate at h
  by_cases hcount : input.items = [] ∨ 1000 < input.items.length
  · rw [if_pos hcount] at h
    cases h
  · rw [if_neg hcount] at h
    refine ⟨hcount, fun hsize => ?_⟩
    dsimp only at h
    rw [if_pos hsize] at h
    split_ifs at h

theorem validate_again (sourceId : BibliographyImportSourceId)
    (h : input.validate lib = .ok ()) : (input.again sourceId).validate lib = .ok () := by
  obtain ⟨hcount, hsize⟩ := validate_eq_ok h
  unfold BibliographyImportInput.validate
  rw [if_neg (show ¬((input.again sourceId).items = [] ∨
    1000 < (input.again sourceId).items.length) from hcount)]
  exact if_neg hsize

/-- The state that a plan for the same file reads after the import. -/
theorem exists_preview_again (hrereads : Rereads lib.json) {sourceId : BibliographyImportSourceId}
    {state' : BibliographyImportState lib.json} (hvalid : input.validate lib = .ok ())
    (hstate' : db'.loadState lib actor (some sourceId) = .ok state')
    (hsource : state'.source ≠ none) :
    ∃ again, previewWithState lib db' actor (input.again sourceId) = .ok (again, state') := by
  have hparse : ∀ item ∈ state'.items, lib.json.parse item.cslJson ≠ none := by
    intro item _ hnone
    obtain ⟨csl, -, htext⟩ := item.csl
    obtain ⟨reread, hread⟩ := hrereads csl
    unfold ValidatedCslJson.fromEncoded at hread
    rw [htext, hnone] at hread
    cases hread
  obtain ⟨entries, hentries⟩ := exists_classifyEntries 0 [] input.items hparse
  refine ⟨⟨state'.source.map BibliographyImportSource.sourceId,
    state'.source.map BibliographyImportSource.revision,
    importStateToken lib (input.again sourceId) state', entries⟩, previewWithState_eq_ok.mpr
      ⟨validate_again sourceId hvalid, ⟨state', hstate', ?_⟩, fun _ => hsource,
        classifyImport_eq_ok.mpr ⟨hentries, rfl, rfl, rfl⟩⟩⟩
  exact (Database.canonicalized_of_loadState hstate').symm

/-- Suggestions for unchanged entries change no item. -/
theorem find_items_of_unchanged {again : List BibliographyImportDecision} {token : String} {now : ℤ}
    {sourceId : BibliographyImportSourceId}
    (hpreview : previewWithState lib db actor input = .ok (preview, state))
    (hunchanged : ∀ entry ∈ preview.entries, ∀ decision ∈ again,
      decision.position = entry.position → decision.kind ≠ .exclude →
        decision.kind = .applySuggested ∧ entry.classification = .unchanged)
    (itemId : BibliographyItemId) :
    (db.importFile lib db actor input again token now sourceId itemIds).bibliographyItems.find
      itemId = db.bibliographyItems.find itemId := by
  unfold Database.importFile
  split
  · rfl
  · next commit hplanned =>
    cases happly : db.applyImport lib actor commit with
    | error error => rfl
    | ok applied =>
      obtain ⟨result, after⟩ := applied
      obtain ⟨preview', state', source, hpreview', -, -, hplan⟩ := planImport_eq_ok hplanned
      cases hpreview.symm.trans hpreview'
      show after.bibliographyItems.find itemId = db.bibliographyItems.find itemId
      rcases Database.find_items_applyImport hplan.targets hplan.externalItems happly itemId with
        hsame | ⟨mutation, hmutation, -, hwritten⟩
      · exact hsame
      · obtain ⟨entry, hentry, value, validated, decision, hdecision, hposition, -, -, hincluded, -,
          hplanned⟩ := hplan.planned mutation hmutation
        obtain ⟨hkind, hclass⟩ := hunchanged entry hentry decision hdecision hposition hincluded
        cases hplanned with
        | create link hcreate => simp [hclass] at hcreate
        | updateLinked old link item csl hold hitem hid hupdate => simp [hclass] at hupdate
        | updateCandidate link item csl hnew hitem hcandidate hupdate => simp [hclass] at hupdate
        | keepLinked => exact hwritten
        | keepCandidate => exact hwritten

/-- An import that changed an item was planned and applied. -/
theorem exists_commit_of_importFile {token : String} {sourceId : BibliographyImportSourceId}
    {itemId : BibliographyItemId}
    (h : (db.importFile lib read actor input decisions token importedAt sourceId
      itemIds).bibliographyItems.find itemId ≠ db.bibliographyItems.find itemId) :
    ∃ commit result, planImport lib read actor input decisions token importedAt sourceId itemIds =
        .ok commit ∧ db.applyImport lib actor commit = .ok (result,
          db.importFile lib read actor input decisions token importedAt sourceId itemIds) := by
  unfold Database.importFile at h ⊢
  split at h
  · exact absurd rfl h
  · next commit hplanned =>
    cases happly : db.applyImport lib actor commit with
    | error error =>
      rw [happly] at h
      exact absurd rfl h
    | ok applied => exact ⟨commit, applied.1, hplanned, happly⟩

/-- An article that changed was planned and applied. -/
theorem exists_commit_of_importArticle {now : ℤ} {selection : BibliographyImportSourceSelection}
    {title : String} {kind : BibliographyImportDecisionKind} {itemId : BibliographyItemId}
    (h : (editedNext db (importArticle now selection title kind db)).bibliographyItems.find itemId ≠
      db.bibliographyItems.find itemId) :
    ∃ commit result, planImport editedLibrary db Database.alice
        ⟨selection, [sampleArticle "doe2024" title]⟩ [⟨0, kind, none⟩]
        (shownToken editedLibrary db Database.alice ⟨selection, [sampleArticle "doe2024" title]⟩)
        now ⟨1⟩ (fun _ => ⟨1⟩) = .ok commit ∧
      db.applyImport editedLibrary Database.alice commit =
        .ok (result, editedNext db (importArticle now selection title kind db)) :=
  exists_commit_of_importFile h

open Database in
/-- Alice imports a file, deletes its item, and imports the file again. -/
def importTwice : ℕ → Database → TimedOperation
  | 0, _ => ⟨0, .login alice.authenticatedIdentity⟩
  | 1, db => importArticle 100 (.new "Zotero") "First" .applySuggested db
  | 2, _ => ⟨200, .library (.delete alice ⟨1⟩ 1)⟩
  | _, db => importArticle 1000 (.existing ⟨1⟩) "First" .applySuggested db

/-- A library whose item was imported at 1000, from a source of before. -/
def importedAt1000 : Database := (Run.schedule editedNext importTwice Database.empty 4).2

theorem libraryConsistent_importedAt1000 : importedAt1000.LibraryConsistent editedLibrary.json := by
  refine libraryConsistent_of_run (Run.run_schedule editedNext importTwice Database.empty ?_ 4)
  intro n db
  match n with
  | 0 | 1 | 2 | _ + 3 => trivial

theorem rereads_editedLibrary : Rereads editedLibrary.json := by
  refine rereads_sampleJsonCodec (fun document hdocument => ⟨"doe2024", ?_⟩) (by decide +kernel)
    (by decide +kernel)
  revert document
  decide +kernel

end Marginalis
