import Marginalis.BibliographyImportStore
import Marginalis.Result
import Mathlib.Data.List.ReduceOption

/-!
# What a plan contains

The inversion of the preview and of the plan. An entry that is not rejected is linked to an
item, with the two comparisons that classified it, or new (`Classified`), and no two entries
have one external id. A mutation comes from one entry and its decision (`Planned`), and no
two mutations have one target. Everything below cites these and unfolds neither
`classify_entry` nor `mutation_for_decision` again.
-/

namespace Marginalis

variable {lib : ImportLibrary}

/-! ## Entries -/

/-- What classified an entry that was not rejected. -/
inductive Classified (lib : ImportLibrary) (state : BibliographyImportState lib.json) (value : Json)
    (validated : ValidatedItem lib) (entry : BibliographyImportEntry) : Prop
  | linked (link : BibliographyImportLink) (item : BibliographyItem lib.json)
      (hlink : (state.links.find? fun link => link.externalItemId = validated.externalItemId) =
        some link)
      (hitem : (state.items.find? fun item => item.itemId = link.itemId) = some item)
      (hclass : entry.classification = classifyLinked (validated.digest ≠ link.importedDigest)
        (item.revision ≠ link.importedItemRevision))
      (hid : entry.itemId = some item.itemId) (hrevision : entry.itemRevision = some item.revision)
      (hkey : entry.citationKey = some item.citationKey)
  | new (hlink : ∀ link ∈ state.links, link.externalItemId ≠ validated.externalItemId)
      (hcandidates : entry.candidates =
        duplicateCandidates lib value validated.csl.citationKey state.items)
      (hclass : entry.classification =
        if entry.candidates = [] then .create else .duplicateCandidate)

/-- The entry of the item `value`. -/
def IsEntry (lib : ImportLibrary) (state : BibliographyImportState lib.json) (value : Json)
    (entry : BibliographyImportEntry) : Prop :=
  entry.classification = .rejected ∧ entry.externalItemId = none ∨
    ∃ validated, validateItem lib value = .ok validated ∧
      entry.externalItemId = some validated.externalItemId ∧
      entry.classification ≠ .rejected ∧ Classified lib state value validated entry

theorem classifyLinked_ne_rejected (externalChanged localChanged : Bool) :
    classifyLinked externalChanged localChanged ≠ .rejected := by
  cases externalChanged <;> cases localChanged <;> simp [classifyLinked]

variable {state : BibliographyImportState lib.json} {position : ℕ} {value : Json}
  {entry : BibliographyImportEntry} {externalIds externalIds' : List String}

theorem classifyLinkedEntry_cases (value : Json) {validated : ValidatedItem lib}
    {link : BibliographyImportLink}
    (hlink : (state.links.find? fun link => link.externalItemId = validated.externalItemId) =
      some link)
    (h : classifyLinkedEntry lib position validated link state.items = .ok entry) :
    entry.position = position ∧
      (entry.classification = .rejected ∧ entry.externalItemId = none ∨
        entry.externalItemId = some validated.externalItemId ∧ entry.classification ≠ .rejected ∧
          Classified lib state value validated entry) := by
  unfold classifyLinkedEntry at h
  split at h
  · cases h
    exact ⟨rfl, Or.inl ⟨rfl, rfl⟩⟩
  · next item hitem =>
    split at h
    · cases h
    · cases h
      refine ⟨rfl, Or.inr ⟨rfl, classifyLinked_ne_rejected _ _, ?_⟩⟩
      exact .linked link item hlink hitem rfl rfl rfl rfl

/-- One entry, and the external id it adds to the ones that are taken. -/
theorem classifyEntry_cases
    (h : classifyEntry lib position value state externalIds = .ok (entry, externalIds')) :
    entry.position = position ∧ IsEntry lib state value entry ∧
      (∀ id ∈ entry.externalItemId, id ∉ externalIds ∧ id ∈ externalIds') ∧
      externalIds ⊆ externalIds' := by
  unfold classifyEntry at h
  split at h
  · cases h
    exact ⟨rfl, Or.inl ⟨rfl, rfl⟩, by simp [rejectedEntry], List.Subset.refl _⟩
  · next validated hvalidated =>
    split_ifs at h with htaken
    · cases h
      exact ⟨rfl, Or.inl ⟨rfl, rfl⟩, by simp [rejectedEntry], List.Subset.refl _⟩
    · split at h
      · next link hlink =>
        obtain ⟨linked, hlinked, hpair⟩ := Except.map_eq_ok.mp h
        cases hpair
        obtain ⟨hposition, hentry⟩ := classifyLinkedEntry_cases value hlink hlinked
        refine ⟨hposition, ?_, ?_, List.subset_cons_self _ _⟩
        · rcases hentry with hrejected | ⟨hid, hclass, hentry⟩
          · exact Or.inl hrejected
          · exact Or.inr ⟨validated, hvalidated, hid, hclass, hentry⟩
        · intro id hid
          rcases hentry with ⟨-, hnone⟩ | ⟨hsome, -, -⟩
          · simp [hnone] at hid
          · rw [hsome, Option.mem_some_iff] at hid
            subst hid
            exact ⟨htaken, List.mem_cons_self ..⟩
      · next hlink =>
        cases h
        refine ⟨rfl, Or.inr ⟨validated, hvalidated, rfl, ?_, .new ?_ rfl rfl⟩, ?_,
          List.subset_cons_self _ _⟩
        · unfold classifyNewEntry
          dsimp only
          split_ifs <;> simp
        · intro link hmem heq
          simpa [heq] using List.find?_eq_none.mp hlink link hmem
        · intro id hid
          rw [classifyNewEntry, Option.mem_some_iff] at hid
          subst hid
          exact ⟨htaken, List.mem_cons_self ..⟩

/-- The entries of a file : each at the position of its item, and no two with one external id. -/
theorem classifyEntries_cases {values : List Json} {entries : List BibliographyImportEntry}
    (h : classifyEntries lib state position externalIds values = .ok entries) :
    entries.map BibliographyImportEntry.position = List.range' position values.length ∧
      (∀ entry ∈ entries, ∃ i value, entry.position = position + i ∧ values[i]? = some value ∧
        IsEntry lib state value entry) ∧
      (entries.filterMap BibliographyImportEntry.externalItemId).Nodup ∧
      ∀ id ∈ entries.filterMap BibliographyImportEntry.externalItemId, id ∉ externalIds := by
  induction values generalizing position externalIds entries with
  | nil =>
    cases h
    simp
  | cons value values ih =>
    rw [classifyEntries] at h
    obtain ⟨⟨entry, externalIds'⟩, hentry, h⟩ := Except.bind_eq_ok.mp h
    obtain ⟨rest, hrest, h⟩ := Except.bind_eq_ok.mp h
    cases h
    obtain ⟨hposition, hclassified, hid, hsubset⟩ := classifyEntry_cases hentry
    obtain ⟨hpositions, hentries, hnodup, hfresh⟩ := ih hrest
    refine ⟨?_, ?_, ?_, ?_⟩
    · rw [List.map_cons, hpositions, hposition, List.length_cons, List.range'_succ]
    · intro entry' hmem
      rcases List.mem_cons.mp hmem with rfl | hmem
      · exact ⟨0, value, hposition, rfl, hclassified⟩
      · obtain ⟨i, value', hpos, hvalue, hentry'⟩ := hentries entry' hmem
        exact ⟨i + 1, value', by omega, by simpa using hvalue, hentry'⟩
    · rw [List.filterMap_cons]
      split
      · exact hnodup
      · next id hsome =>
        refine List.nodup_cons.mpr ⟨fun hmem => ?_, hnodup⟩
        exact hfresh id hmem (hid id hsome).2
    · intro id hmem
      rw [List.filterMap_cons] at hmem
      split at hmem
      · exact fun htaken => hfresh id hmem (hsubset htaken)
      · next id' hsome =>
        rcases List.mem_cons.mp hmem with rfl | hmem
        · exact (hid id hsome).1
        · exact fun htaken => hfresh id hmem (hsubset htaken)

/-! ## Mutations -/

/-- The link an import writes for an external item. -/
structure IsLink (source : BibliographyImportSource) (validated : ValidatedItem lib)
    (itemId : BibliographyItemId) (revision : ℕ) (link : BibliographyImportLink) : Prop where
  sourceId : link.sourceId = source.sourceId
  externalItemId : link.externalItemId = validated.externalItemId
  itemId : link.itemId = itemId
  importedDigest : link.importedDigest = validated.digest
  importedItemRevision : link.importedItemRevision = revision

variable {source : BibliographyImportSource} {validated : ValidatedItem lib}
  {itemId newItemId : BibliographyItemId} {revision : ℕ} {link : BibliographyImportLink}
  {mutation : BibliographyImportItemMutation lib.json} {importedAt : ℤ}

theorem importLink_eq_ok
    (h : importLink source validated.externalItemId itemId validated.digest revision = .ok link) :
    IsLink source validated itemId revision link := by
  unfold importLink BibliographyImportLink.new at h
  split_ifs at h with hvalid
  cases h
  exact ⟨rfl, rfl, rfl, rfl, rfl⟩

theorem createMutation_eq_ok
    (h : createMutation lib validated source importedAt newItemId = .ok mutation) : ∃ link,
      mutation = .create (BibliographyItem.create newItemId source.owner validated.csl importedAt)
        link ∧ IsLink source validated newItemId initialRevision link := by
  obtain ⟨link, hlink, h⟩ := Except.bind_eq_ok.mp h
  cases h
  exact ⟨link, rfl, importLink_eq_ok hlink⟩

/-- The document an update writes is the external one under the key of the item. -/
theorem updateMutation_eq_ok
    (h : updateMutation lib entry validated source importedAt = .ok mutation) :
    ∃ itemId revision csl link, entry.itemId = some itemId ∧ entry.itemRevision = some revision ∧
      entry.citationKey = some csl.citationKey ∧
      mutation = .update itemId csl revision link importedAt ∧
      IsLink source validated itemId (revision + 1) link := by
  unfold updateMutation at h
  split at h
  · next itemId revision key hid hrevision hkey =>
    split at h
    · cases h
    · split at h
      · cases h
      · next object _ =>
        obtain ⟨csl, hcsl, h⟩ := Except.bind_eq_ok.mp h
        obtain ⟨link, hlink, h⟩ := Except.bind_eq_ok.mp h
        cases h
        have hvalue := ValidatedCslJson.new_eq_ok.mp (Except.mapError_eq_ok.mp hcsl)
        have hkeys : csl.citationKey = key := by
          have hid := csl.id_eq
          rw [hvalue, Json.getStr_object_insertField, Option.some.injEq] at hid
          exact hid.symm
        exact ⟨itemId, revision, csl, link, hid, hrevision, hkeys ▸ hkey, rfl,
          importLink_eq_ok hlink⟩
  · cases h

theorem keepMutation_eq_ok (h : keepMutation lib entry validated source = .ok mutation) :
    ∃ itemId revision link, entry.itemId = some itemId ∧ entry.itemRevision = some revision ∧
      mutation = .keep revision link ∧ IsLink source validated itemId revision link := by
  unfold keepMutation at h
  split at h
  · next itemId revision hid hrevision =>
    obtain ⟨link, hlink, h⟩ := Except.bind_eq_ok.mp h
    cases h
    exact ⟨itemId, revision, link, hid, hrevision, rfl, importLink_eq_ok hlink⟩
  · cases h

/-- Where a mutation comes from : the state of the external item, the decision of the user, and
what is written. -/
inductive Planned (lib : ImportLibrary) (state : BibliographyImportState lib.json)
    (source : BibliographyImportSource) (importedAt : ℤ) (newItemId : BibliographyItemId)
    (value : Json) (validated : ValidatedItem lib) (entry : BibliographyImportEntry)
    (decision : BibliographyImportDecision) : BibliographyImportItemMutation lib.json → Prop
  | create (link : BibliographyImportLink)
      (hkind : entry.classification = .create ∧ decision.kind = .applySuggested ∨
        entry.classification = .duplicateCandidate ∧ decision.kind = .createSeparate)
      (hnew : ∀ link ∈ state.links, link.externalItemId ≠ validated.externalItemId)
      (hcandidates : entry.candidates =
        duplicateCandidates lib value validated.csl.citationKey state.items)
      (hseparate : canCreateSeparate entry = true)
      (hlink : IsLink source validated newItemId initialRevision link) :
      Planned lib state source importedAt newItemId value validated entry decision
        (.create (BibliographyItem.create newItemId source.owner validated.csl importedAt) link)
  | updateLinked (old link : BibliographyImportLink) (item : BibliographyItem lib.json)
      (csl : ValidatedCslJson lib.json)
      (hold : (state.links.find? fun link => link.externalItemId = validated.externalItemId) =
        some old)
      (hitem : (state.items.find? fun item => item.itemId = old.itemId) = some item)
      (hid : entry.itemId = some item.itemId)
      (hkind : item.revision = old.importedItemRevision ∧
          entry.classification = .updateFromExternal ∧ decision.kind = .applySuggested ∨
        entry.classification = .conflict ∧ decision.kind = .useExternal)
      (hkey : csl.citationKey = item.citationKey)
      (hlink : IsLink source validated item.itemId (item.revision + 1) link) :
      Planned lib state source importedAt newItemId value validated entry decision
        (.update item.itemId csl item.revision link importedAt)
  | updateCandidate (link : BibliographyImportLink) (item : BibliographyItem lib.json)
      (csl : ValidatedCslJson lib.json)
      (hnew : ∀ link ∈ state.links, link.externalItemId ≠ validated.externalItemId)
      (hitem : item ∈ state.items) (hcandidate : decision.candidateItemId = some item.itemId)
      (hkind : entry.classification = .duplicateCandidate ∧
        decision.kind = .linkExistingUseExternal)
      (hkey : csl.citationKey = item.citationKey)
      (hlink : IsLink source validated item.itemId (item.revision + 1) link) :
      Planned lib state source importedAt newItemId value validated entry decision
        (.update item.itemId csl item.revision link importedAt)
  | keepLinked (old link : BibliographyImportLink) (item : BibliographyItem lib.json)
      (hold : (state.links.find? fun link => link.externalItemId = validated.externalItemId) =
        some old)
      (hitem : (state.items.find? fun item => item.itemId = old.itemId) = some item)
      (hid : entry.itemId = some item.itemId)
      (hkind : item.revision = old.importedItemRevision ∧ entry.classification = .unchanged ∧
          decision.kind = .applySuggested ∨
        entry.classification = .keepLocal ∧ decision.kind = .applySuggested ∨
        entry.classification = .conflict ∧ decision.kind = .keepLocal)
      (hlink : IsLink source validated item.itemId item.revision link) :
      Planned lib state source importedAt newItemId value validated entry decision
        (.keep item.revision link)
  | keepCandidate (link : BibliographyImportLink) (item : BibliographyItem lib.json)
      (hnew : ∀ link ∈ state.links, link.externalItemId ≠ validated.externalItemId)
      (hitem : item ∈ state.items) (hcandidate : decision.candidateItemId = some item.itemId)
      (hkind : entry.classification = .duplicateCandidate ∧
        decision.kind = .linkExistingKeepLocal)
      (hlink : IsLink source validated item.itemId item.revision link) :
      Planned lib state source importedAt newItemId value validated entry decision
        (.keep item.revision link)

variable {decision : BibliographyImportDecision}

/-- The suggestion of an update is one for an item at its imported revision. -/
theorem classifyLinked_eq_updateFromExternal {externalChanged localChanged : Bool}
    (h : classifyLinked externalChanged localChanged = .updateFromExternal) :
    externalChanged = true ∧ localChanged = false := by
  cases externalChanged <;> cases localChanged <;> simp_all [classifyLinked]

theorem updateMutation_planned (hentry : Classified lib state value validated entry)
    (hclass : entry.classification = .updateFromExternal ∧ decision.kind = .applySuggested ∨
      entry.classification = .conflict ∧ decision.kind = .useExternal)
    (h : updateMutation lib entry validated source importedAt = .ok mutation) :
    Planned lib state source importedAt newItemId value validated entry decision mutation := by
  obtain ⟨itemId, revision, csl, link, hid, hrevision, hkey, rfl, hlink⟩ := updateMutation_eq_ok h
  cases hentry with
  | linked old item hold hitem hclassified hitemId hitemRevision hitemKey =>
    obtain rfl : item.itemId = itemId := Option.some.inj (hitemId.symm.trans hid)
    obtain rfl : item.revision = revision := Option.some.inj (hitemRevision.symm.trans hrevision)
    refine .updateLinked old link item csl hold hitem hitemId ?_
      (Option.some.inj (hkey.symm.trans hitemKey)) hlink
    rcases hclass with ⟨hclass, hkind⟩ | hclass
    · obtain ⟨-, hlocal⟩ := classifyLinked_eq_updateFromExternal (hclassified.symm.trans hclass)
      exact Or.inl ⟨by simpa using hlocal, hclass, hkind⟩
    · exact Or.inr hclass
  | new hnew hcandidates hclassified =>
    rw [hclassified] at hclass
    split_ifs at hclass <;> simp at hclass

theorem classifyLinked_eq_unchanged {externalChanged localChanged : Bool}
    (h : classifyLinked externalChanged localChanged = .unchanged) :
    externalChanged = false ∧ localChanged = false := by
  cases externalChanged <;> cases localChanged <;> simp_all [classifyLinked]

theorem keepMutation_planned (hentry : Classified lib state value validated entry)
    (hclass : entry.classification = .unchanged ∧ decision.kind = .applySuggested ∨
      entry.classification = .keepLocal ∧ decision.kind = .applySuggested ∨
      entry.classification = .conflict ∧ decision.kind = .keepLocal)
    (h : keepMutation lib entry validated source = .ok mutation) :
    Planned lib state source importedAt newItemId value validated entry decision mutation := by
  obtain ⟨itemId, revision, link, hid, hrevision, rfl, hlink⟩ := keepMutation_eq_ok h
  cases hentry with
  | linked old item hold hitem hclassified hitemId hitemRevision hitemKey =>
    obtain rfl : item.itemId = itemId := Option.some.inj (hitemId.symm.trans hid)
    obtain rfl : item.revision = revision := Option.some.inj (hitemRevision.symm.trans hrevision)
    refine .keepLinked old link item hold hitem hitemId ?_ hlink
    rcases hclass with ⟨hclass, hkind⟩ | hclass
    · obtain ⟨-, hlocal⟩ := classifyLinked_eq_unchanged (hclassified.symm.trans hclass)
      exact Or.inl ⟨by simpa using hlocal, hclass, hkind⟩
    · exact Or.inr hclass
  | new hnew hcandidates hclassified =>
    rw [hclassified] at hclass
    split_ifs at hclass <;> simp at hclass

theorem createMutation_planned (hentry : Classified lib state value validated entry)
    (hclass : entry.classification = .create ∧ decision.kind = .applySuggested ∨
      entry.classification = .duplicateCandidate ∧ decision.kind = .createSeparate ∧
        canCreateSeparate entry = true)
    (h : createMutation lib validated source importedAt newItemId = .ok mutation) :
    Planned lib state source importedAt newItemId value validated entry decision mutation := by
  obtain ⟨link, rfl, hlink⟩ := createMutation_eq_ok h
  cases hentry with
  | linked old item hold hitem hclassified hitemId hitemRevision hitemKey =>
    have hne : entry.classification ≠ .create ∧ entry.classification ≠ .duplicateCandidate := by
      rw [hclassified]
      unfold classifyLinked
      split <;> simp
    rcases hclass with ⟨hclass, -⟩ | ⟨hclass, -⟩
    · exact absurd hclass hne.1
    · exact absurd hclass hne.2
  | new hnew hcandidates hclassified =>
    rcases hclass with ⟨hclass, hkind⟩ | ⟨hclass, hkind, hseparate⟩
    · refine .create link (Or.inl ⟨hclass, hkind⟩) hnew hcandidates ?_ hlink
      have hnone : entry.candidates = [] := by
        by_contra hne
        rw [hclassified, if_neg hne] at hclass
        cases hclass
      simp [canCreateSeparate, hnone]
    · exact .create link (Or.inr ⟨hclass, hkind⟩) hnew hcandidates hseparate hlink

theorem linkCandidateMutation_planned (hentry : Classified lib state value validated entry)
    (hclass : entry.classification = .duplicateCandidate)
    (hkeep : decision.kind = .linkExistingKeepLocal ∨ decision.kind = .linkExistingUseExternal)
    (h : linkCandidateMutation lib entry decision validated state.items source importedAt =
      .ok mutation) :
    Planned lib state source importedAt newItemId value validated entry decision mutation := by
  cases hentry with
  | linked old item hold hitem hclassified hitemId hitemRevision hitemKey =>
    rw [hclassified] at hclass
    unfold classifyLinked at hclass
    split at hclass <;> cases hclass
  | new hnew hcandidates hclassified =>
    unfold linkCandidateMutation at h
    split at h
    · cases h
    · next candidateId hcandidate =>
      have hcandidateId : ∀ {item : BibliographyItem lib.json},
          (state.items.find? fun item => item.itemId = candidateId) = some item →
            decision.candidateItemId = some item.itemId := by
        intro item hfind
        have hid : item.itemId = candidateId := by simpa using List.find?_some hfind
        rw [hcandidate, hid]
      split at h
      · split at h
        · cases h
        · next candidate hfind =>
          have hmem := List.mem_of_find?_eq_some hfind
          split_ifs at h with hkind
          · obtain ⟨itemId, revision, csl, link, hid, hrevision, hkey, rfl, hlink⟩ :=
              updateMutation_eq_ok h
            cases hid
            cases hrevision
            exact .updateCandidate link candidate csl hnew hmem (hcandidateId hfind)
              ⟨hclass, hkind⟩ (Option.some.inj hkey).symm hlink
          · obtain ⟨itemId, revision, link, hid, hrevision, rfl, hlink⟩ := keepMutation_eq_ok h
            cases hid
            cases hrevision
            exact .keepCandidate link candidate hnew hmem (hcandidateId hfind)
              ⟨hclass, hkeep.resolve_right hkind⟩ hlink
      · cases h

/-- The table of `mutation_for_decision`. -/
theorem mutationForDecision_planned (hentry : Classified lib state value validated entry)
    (h : mutationForDecision lib entry decision validated state.items source importedAt newItemId =
      .ok mutation) :
    Planned lib state source importedAt newItemId value validated entry decision mutation := by
  unfold mutationForDecision at h
  split at h
  · next hclass hkind => exact createMutation_planned hentry (Or.inl ⟨hclass, hkind⟩) h
  · next hclass hkind =>
    split_ifs at h with hseparate
    exact createMutation_planned hentry (Or.inr ⟨hclass, hkind, hseparate⟩) h
  · next hclass hkind => exact updateMutation_planned hentry (Or.inl ⟨hclass, hkind⟩) h
  · next hclass hkind => exact updateMutation_planned hentry (Or.inr ⟨hclass, hkind⟩) h
  · next hclass hkind => exact keepMutation_planned hentry (Or.inl ⟨hclass, hkind⟩) h
  · next hclass hkind => exact keepMutation_planned hentry (Or.inr (Or.inl ⟨hclass, hkind⟩)) h
  · next hclass hkind => exact keepMutation_planned hentry (Or.inr (Or.inr ⟨hclass, hkind⟩)) h
  · next hclass hkind => exact linkCandidateMutation_planned hentry hclass (Or.inl hkind) h
  · next hclass hkind => exact linkCandidateMutation_planned hentry hclass (Or.inr hkind) h
  · cases h

/-! ## The whole plan -/

variable {input : BibliographyImportInput} {preview : BibliographyImportPreview}
  {items : List (BibliographyItem lib.json)} {decisions : List BibliographyImportDecision}
  {itemIds : ℕ → BibliographyItemId} {entries : List BibliographyImportEntry}
  {mutations : List (BibliographyImportItemMutation lib.json)} {excluded : ℕ}

/-- A mutation of one entry : its decision did not exclude it, and its item passed the checks. -/
theorem entryMutation_eq_some
    (h : entryMutation lib input items source decisions importedAt itemIds entry =
      .ok (some mutation)) :
    ∃ decision validated, decision ∈ decisions ∧ decision.position = entry.position ∧
      decision.kind ≠ .exclude ∧ entry.classification ≠ .rejected ∧
      validateItem lib (input.items.getD entry.position .null) = .ok validated ∧
      mutationForDecision lib entry decision validated items source importedAt
        (itemIds entry.position) = .ok mutation := by
  unfold entryMutation at h
  split at h
  · cases h
  · next decision hfind =>
    split_ifs at h with hrequired hexclude hrejected
    · cases h
    · obtain ⟨validated, hvalidated, h⟩ := Except.bind_eq_ok.mp h
      obtain ⟨mutation', hmutation, h⟩ := Except.bind_eq_ok.mp h
      cases h
      refine ⟨decision, validated, List.mem_of_find?_eq_some hfind, ?_, hexclude, hrejected,
        Except.mapError_eq_ok.mp hvalidated, hmutation⟩
      simpa using List.find?_some hfind

theorem entryMutation_eq_none
    (h : entryMutation lib input items source decisions importedAt itemIds entry = .ok none) :
    ∃ decision ∈ decisions, decision.position = entry.position ∧ decision.kind = .exclude := by
  unfold entryMutation at h
  split at h
  · cases h
  · next decision hfind =>
    split_ifs at h with hrequired hexclude hrejected
    · exact ⟨decision, List.mem_of_find?_eq_some hfind, by simpa using List.find?_some hfind,
        hexclude⟩
    · obtain ⟨validated, -, h⟩ := Except.bind_eq_ok.mp h
      obtain ⟨mutation', -, h⟩ := Except.bind_eq_ok.mp h
      cases h

/-- The loop of the plan : every entry has its mutation or is excluded, and the targets are
distinct. -/
theorem buildMutations_eq_ok {targets : List BibliographyItemId} :
    buildMutations lib input items source decisions importedAt itemIds targets entries =
        .ok (mutations, excluded) ↔
      ∃ planned, entries.mapM (entryMutation lib input items source decisions importedAt itemIds) =
          .ok planned ∧ mutations = planned.reduceOption ∧ excluded = planned.countP Option.isNone ∧
        (mutations.map BibliographyImportItemMutation.targetItemId).Nodup ∧
        ∀ mutation ∈ mutations, mutation.targetItemId ∉ targets := by
  induction entries generalizing targets mutations excluded with
  | nil =>
    simp only [buildMutations, Except.ok.injEq, Prod.mk.injEq, List.mapM_nil, pure, Except.pure]
    constructor
    · rintro ⟨rfl, rfl⟩
      exact ⟨[], rfl, by simp⟩
    · rintro ⟨planned, rfl, rfl, rfl, -, -⟩
      simp
  | cons entry entries ih =>
    rw [buildMutations, List.mapM_cons]
    cases hentry : entryMutation lib input items source decisions importedAt itemIds entry with
    | error error => simp [bind, Except.bind]
    | ok first =>
      cases first with
      | none =>
        simp only [Except.bind_eq_ok, Except.ok.injEq, exists_eq_left', pure, Except.pure,
          Prod.exists, ih, Prod.mk.injEq]
        constructor
        · rintro ⟨rest, count, ⟨planned, hplanned, rfl, rfl, hnodup, hfresh⟩, rfl, rfl⟩
          exact ⟨none :: planned, ⟨planned, hplanned, rfl⟩,
            by simp [List.reduceOption_cons_of_none],
            by simp, hnodup, hfresh⟩
        · rintro ⟨planned, ⟨rest, hrest, rfl⟩, rfl, rfl, hnodup, hfresh⟩
          rw [List.reduceOption_cons_of_none] at hnodup hfresh ⊢
          exact ⟨_, _, ⟨rest, hrest, rfl, rfl, hnodup, hfresh⟩, rfl, by simp⟩
      | some mutation =>
        simp only [Except.bind_eq_ok, Except.ok.injEq, exists_eq_left', pure, Except.pure]
        by_cases htarget : mutation.targetItemId ∈ targets
        · rw [if_pos htarget]
          simp only [throw, throwThe, MonadExceptOf.throw, Except.bind_eq_ok, reduceCtorEq,
            false_and, exists_false, false_iff]
          rintro ⟨planned, ⟨rest, hrest, rfl⟩, rfl, -, -, hfresh⟩
          exact hfresh mutation (by simp [List.reduceOption_cons_of_some]) htarget
        · rw [if_neg htarget]
          simp only [Except.bind_eq_ok, Except.ok.injEq, Prod.exists, ih, Prod.mk.injEq]
          constructor
          · rintro ⟨rest, count, ⟨planned, hplanned, rfl, rfl, hnodup, hfresh⟩, rfl, rfl⟩
            refine ⟨some mutation :: planned, ⟨planned, hplanned, rfl⟩, ?_, by simp, ?_, ?_⟩
            · rw [List.reduceOption_cons_of_some]
            · rw [List.map_cons, List.nodup_cons]
              refine ⟨fun hmem => ?_, hnodup⟩
              obtain ⟨other, hother, heq⟩ := List.mem_map.mp hmem
              exact hfresh other hother (heq ▸ List.mem_cons_self ..)
            · intro other hother
              rcases List.mem_cons.mp hother with rfl | hother
              · exact htarget
              · exact fun hmem => hfresh other hother (List.mem_cons_of_mem _ hmem)
          · rintro ⟨planned, ⟨rest, hrest, rfl⟩, rfl, rfl, hnodup, hfresh⟩
            rw [List.reduceOption_cons_of_some] at hnodup hfresh ⊢
            rw [List.map_cons, List.nodup_cons] at hnodup
            refine ⟨_, _, ⟨rest, hrest, rfl, rfl, hnodup.2, ?_⟩, rfl, by simp⟩
            intro other hother hmem
            rcases List.mem_cons.mp hmem with heq | hmem
            · exact hnodup.1 (heq ▸ List.mem_map_of_mem hother)
            · exact hfresh other (List.mem_cons_of_mem _ hother) hmem

theorem buildCommit_eq_ok {commit : BibliographyImportCommit lib.json} :
    buildCommit lib input preview state source decisions importedAt itemIds = .ok commit ↔
      (decisions.map BibliographyImportDecision.position).Nodup ∧
        decisions.length = preview.entries.length ∧ commit.mutations ≠ [] ∧
        buildMutations lib input state.items source decisions importedAt itemIds []
          preview.entries = .ok (commit.mutations, commit.excluded) ∧
        commit.source = source ∧ commit.expectedState = state ∧ commit.importedAt = importedAt := by
  unfold buildCommit
  by_cases hnodup : (decisions.map BibliographyImportDecision.position).Nodup
  · rw [if_neg (not_not.mpr hnodup), Except.bind_eq_ok]
    constructor
    · rintro ⟨⟨mutations, excluded⟩, hbuild, h⟩
      dsimp only at h
      split_ifs at h with hwrong
      · cases h
      · cases h
        rw [not_or, not_not] at hwrong
        exact ⟨hnodup, hwrong.1, by simpa using hwrong.2, hbuild, rfl, rfl, rfl⟩
    · obtain ⟨source', state', importedAt', mutations, excluded⟩ := commit
      rintro ⟨-, hlength, hne, hbuild, rfl, rfl, rfl⟩
      refine ⟨(mutations, excluded), hbuild, ?_⟩
      dsimp only at hne ⊢
      rw [if_neg (by simp [hlength, hne])]
      rfl
  · simp [hnodup]

variable {db : Database} {actor : Actor}

theorem previewWithState_eq_ok :
    previewWithState lib db actor input = .ok (preview, state) ↔
      input.validate lib = .ok () ∧
        (∃ loaded, db.loadState lib actor input.sourceId = .ok loaded ∧
          state = loaded.canonicalized) ∧
        (input.sourceId.isSome → state.source ≠ none) ∧
          classifyImport lib input state = .ok preview := by
  unfold previewWithState
  simp only [Except.bind_eq_ok, Except.mapError_eq_ok]
  constructor
  · rintro ⟨⟨⟩, hvalid, loaded, hloaded, h⟩
    split_ifs at h with hmissing
    · obtain ⟨_, hthrow, -⟩ := Except.bind_eq_ok.mp h
      cases hthrow
    · obtain ⟨preview', hpreview, h⟩ := Except.bind_eq_ok.mp h
      cases h
      exact ⟨hvalid, ⟨loaded, hloaded, rfl⟩, fun hsome hnone => hmissing ⟨hsome, hnone⟩, hpreview⟩
  · rintro ⟨hvalid, ⟨loaded, hloaded, rfl⟩, hsome, hpreview⟩
    refine ⟨(), hvalid, loaded, hloaded, ?_⟩
    rw [if_neg fun hmissing => hsome hmissing.1 hmissing.2, hpreview]
    rfl

theorem classifyImport_eq_ok :
    classifyImport lib input state = .ok preview ↔
      classifyEntries lib state 0 [] input.items = .ok preview.entries ∧
        preview.sourceId = state.source.map BibliographyImportSource.sourceId ∧
        preview.sourceRevision = state.source.map BibliographyImportSource.revision ∧
        preview.previewToken = importStateToken lib input state := by
  unfold classifyImport
  rw [Except.bind_eq_ok]
  constructor
  · rintro ⟨entries, hentries, h⟩
    cases h
    exact ⟨hentries, rfl, rfl, rfl⟩
  · obtain ⟨sourceId, sourceRevision, token, entries⟩ := preview
    rintro ⟨hentries, rfl, rfl, rfl⟩
    exact ⟨entries, hentries, rfl⟩

/-- The mutation is the one of the entry, for the decision at its position. -/
def PlannedFor (lib : ImportLibrary) (state : BibliographyImportState lib.json)
    (source : BibliographyImportSource) (input : BibliographyImportInput)
    (decisions : List BibliographyImportDecision) (importedAt : ℤ)
    (itemIds : ℕ → BibliographyItemId) (entry : BibliographyImportEntry)
    (mutation : BibliographyImportItemMutation lib.json) : Prop :=
  ∃ value validated, ∃ decision ∈ decisions, decision.position = entry.position ∧
    input.items[entry.position]? = some value ∧ validateItem lib value = .ok validated ∧
    decision.kind ≠ .exclude ∧ entry.externalItemId = some validated.externalItemId ∧
    Planned lib state source importedAt (itemIds entry.position) value validated entry decision
      mutation

/-- What a plan made against the state contains. -/
structure IsPlan (lib : ImportLibrary) (state : BibliographyImportState lib.json)
    (source : BibliographyImportSource) (input : BibliographyImportInput)
    (preview : BibliographyImportPreview) (decisions : List BibliographyImportDecision)
    (importedAt : ℤ) (itemIds : ℕ → BibliographyItemId)
    (commit : BibliographyImportCommit lib.json) : Prop where
  source_eq : commit.source = source
  expectedState_eq : commit.expectedState = state
  importedAt_eq : commit.importedAt = importedAt
  positions : (decisions.map BibliographyImportDecision.position).Nodup
  planned : ∀ mutation ∈ commit.mutations, ∃ entry ∈ preview.entries,
    PlannedFor lib state source input decisions importedAt itemIds entry mutation
  complete : ∀ entry ∈ preview.entries,
    (∃ decision ∈ decisions, decision.position = entry.position ∧ decision.kind = .exclude) ∨
      ∃ mutation ∈ commit.mutations,
        PlannedFor lib state source input decisions importedAt itemIds entry mutation
  targets : (commit.mutations.map BibliographyImportItemMutation.targetItemId).Nodup
  externalItems : (commit.mutations.map fun mutation => mutation.link.externalItemId).Nodup

/-- The link of a planned mutation is that of its external item. -/
theorem Planned.isLink
    (h : Planned lib state source importedAt newItemId value validated entry decision mutation) :
    IsLink source validated mutation.link.itemId mutation.link.importedItemRevision
      mutation.link := by
  have hself : ∀ {itemId revision} {link : BibliographyImportLink},
      IsLink source validated itemId revision link →
        IsLink source validated link.itemId link.importedItemRevision link :=
    fun hlink => ⟨hlink.sourceId, hlink.externalItemId, rfl, hlink.importedDigest, rfl⟩
  cases h with
  | create link hkind hnew hcandidates hseparate hlink => exact hself hlink
  | updateLinked old link item csl hold hitem hid hkind hkey hlink => exact hself hlink
  | updateCandidate link item csl hnew hitem hcandidate hkind hkey hlink => exact hself hlink
  | keepLinked old link item hold hitem hid hkind hlink => exact hself hlink
  | keepCandidate link item hnew hitem hcandidate hkind hlink => exact hself hlink

/-- A mutation links the external item to its target. -/
theorem Planned.link_itemId
    (h : Planned lib state source importedAt newItemId value validated entry decision mutation) :
    mutation.link.itemId = mutation.targetItemId := by
  cases h with
  | create link hkind hnew hcandidates hseparate hlink => exact hlink.itemId
  | updateLinked old link item csl hold hitem hid hkind hkey hlink => exact hlink.itemId
  | updateCandidate link item csl hnew hitem hcandidate hkind hkey hlink => exact hlink.itemId
  | keepLinked => rfl
  | keepCandidate => rfl

/-- The mutation of an entry of a classified file. -/
theorem plannedFor_of_entryMutation
    (hentries : classifyEntries lib state 0 [] input.items = .ok entries) (hentry : entry ∈ entries)
    (h : entryMutation lib input state.items source decisions importedAt itemIds entry =
      .ok (some mutation)) :
    PlannedFor lib state source input decisions importedAt itemIds entry mutation := by
  obtain ⟨-, hentries, -, -⟩ := classifyEntries_cases hentries
  obtain ⟨decision, validated, hdecision, hposition, hexclude, hclass, hvalidated, hmutation⟩ :=
    entryMutation_eq_some h
  obtain ⟨i, value, hi, hvalue, hclassified⟩ := hentries entry hentry
  rw [Nat.zero_add] at hi
  subst hi
  rw [List.getD_eq_getElem?_getD, hvalue, Option.getD_some] at hvalidated
  rcases hclassified with ⟨hrejected, -⟩ | ⟨validated', hvalidated', hexternal, -, hclassified⟩
  · exact absurd hrejected hclass
  · obtain rfl : validated' = validated := Except.ok.inj (hvalidated'.symm.trans hvalidated)
    exact ⟨value, validated', decision, hdecision, hposition, hvalue, hvalidated, hexclude,
      hexternal, mutationForDecision_planned hclassified hmutation⟩

/-- The external ids of the mutations are ids of the entries, in their order. -/
theorem externalItems_sublist {planned : List (Option (BibliographyImportItemMutation lib.json))}
    (f : BibliographyImportEntry →
      Except BibliographyImportUseCaseError (Option (BibliographyImportItemMutation lib.json)))
    (hentries : ∀ entry ∈ entries, ∀ mutation, f entry = .ok (some mutation) →
      entry.externalItemId = some mutation.link.externalItemId)
    (h : entries.mapM f = .ok planned) :
    (planned.reduceOption.map fun mutation => mutation.link.externalItemId).Sublist
      (entries.filterMap BibliographyImportEntry.externalItemId) := by
  induction entries generalizing planned with
  | nil =>
    cases h
    simp
  | cons entry entries ih =>
    rw [List.mapM_cons] at h
    obtain ⟨first, hfirst, h⟩ := Except.bind_eq_ok.mp h
    obtain ⟨rest, hrest, h⟩ := Except.bind_eq_ok.mp h
    cases h
    have hsublist := ih (fun e he => hentries e (List.mem_cons_of_mem _ he)) hrest
    cases first with
    | none =>
      rw [List.reduceOption_cons_of_none, List.filterMap_cons]
      split
      · exact hsublist
      · exact hsublist.cons _
    | some mutation =>
      have hid := hentries entry (List.mem_cons_self ..) mutation hfirst
      rw [List.reduceOption_cons_of_some, List.map_cons, List.filterMap_cons_some hid]
      exact hsublist.cons_cons _

theorem isPlan_of_buildCommit {commit : BibliographyImportCommit lib.json}
    (hpreview : classifyImport lib input state = .ok preview)
    (h : buildCommit lib input preview state source decisions importedAt itemIds = .ok commit) :
    IsPlan lib state source input preview decisions importedAt itemIds commit := by
  have hentries := (classifyImport_eq_ok.mp hpreview).1
  obtain ⟨hpositions, -, -, hbuild, hsource, hstate, himportedAt⟩ := buildCommit_eq_ok.mp h
  obtain ⟨planned, hplanned, hmutations, -, htargets, -⟩ := buildMutations_eq_ok.mp hbuild
  refine ⟨hsource, hstate, himportedAt, hpositions, ?_, ?_, htargets, ?_⟩
  · intro mutation hmem
    rw [hmutations, List.reduceOption_mem_iff] at hmem
    obtain ⟨entry, hentry, hmutation⟩ := Except.exists_of_mem_mapM hplanned hmem
    exact ⟨entry, hentry, plannedFor_of_entryMutation hentries hentry hmutation⟩
  · intro entry hentry
    obtain ⟨result, hresult, hmutation⟩ := Except.exists_mem_of_mapM hplanned hentry
    cases result with
    | none => exact Or.inl (entryMutation_eq_none hmutation)
    | some mutation =>
      right
      refine ⟨mutation, ?_, plannedFor_of_entryMutation hentries hentry hmutation⟩
      rw [hmutations, List.reduceOption_mem_iff]
      exact hresult
  · rw [hmutations]
    refine List.Nodup.sublist (externalItems_sublist _ ?_ hplanned)
      (classifyEntries_cases hentries).2.2.1
    intro entry hentry mutation hmutation
    obtain ⟨value, validated, decision, -, -, -, -, -, hexternal, hmutation⟩ :=
      plannedFor_of_entryMutation hentries hentry hmutation
    rw [hexternal, hmutation.isLink.externalItemId]

/-- The plan of the service, with the state it was made against. -/
theorem planImport_eq_ok {token : String} {sourceId : BibliographyImportSourceId}
    {commit : BibliographyImportCommit lib.json}
    (h : planImport lib db actor input decisions token importedAt sourceId itemIds = .ok commit) :
    ∃ preview state source, previewWithState lib db actor input = .ok (preview, state) ∧
      importSource lib actor input state importedAt sourceId = .ok source ∧
      token = importStateToken lib input state ∧
      IsPlan lib state source input preview decisions importedAt itemIds commit := by
  obtain ⟨⟨preview, state⟩, hpreview, h⟩ := Except.bind_eq_ok.mp h
  dsimp only at h
  split at h
  · obtain ⟨_, hthrow, -⟩ := Except.bind_eq_ok.mp h
    cases hthrow
  · split at h
    · obtain ⟨_, hthrow, -⟩ := Except.bind_eq_ok.mp h
      cases hthrow
    · next htoken =>
      obtain ⟨source, hsource, h⟩ := Except.bind_eq_ok.mp h
      obtain ⟨-, -, -, hclassified⟩ := previewWithState_eq_ok.mp hpreview
      refine ⟨preview, state, source, hpreview, hsource, ?_, isPlan_of_buildCommit hclassified h⟩
      rw [← (classifyImport_eq_ok.mp hclassified).2.2.2]
      exact (not_not.mp htoken).symm

end Marginalis
