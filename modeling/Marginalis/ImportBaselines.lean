import Marginalis.LibraryInvariant

/-!
# Imports and local edits

A link remembers the revision its item had after the import, and a later import takes an item
at that revision for one nobody edited. But a decision that keeps the library's item moves the
link to the item's revision as well (`keep_mutation`), so the edit it kept is taken for the
imported text from then on, and the next change of the file replaces it as a suggestion.

`import_protects_local_edits` : in every run whose imports keep no item that was last written in
the library, an edit is replaced by a decision for the external item only. The invariant is that
an item at the revision of one of its links was last written by an import (`baseline_of_run`).
-/

namespace Marginalis

/-! ## Edits -/

/-- The operation is an import. -/
def TimedOperation.IsImport (t : TimedOperation) : Prop :=
  match t.operation with
  | .import .. => True
  | _ => False

/-- The move wrote the row of the item. -/
def WritesItem (m : Move Database TimedOperation) (itemId : BibliographyItemId) : Prop :=
  m.post.bibliographyItems.find itemId ≠ m.pre.bibliographyItems.find itemId

/-- The last write of the item was one in the library. -/
def EditedLocally (moves : List (Move Database TimedOperation)) (itemId : BibliographyItemId) :
    Prop :=
  ∃ earlier m later, moves = earlier ++ m :: later ∧ ¬m.label.IsImport ∧ WritesItem m itemId ∧
    ∀ m' ∈ later, ¬(m'.label.IsImport ∧ WritesItem m' itemId)

variable {moves : List (Move Database TimedOperation)} {m : Move Database TimedOperation}
  {itemId : BibliographyItemId}

/-- A move makes an edit, or leaves the edits before it unless it imports the item. -/
theorem editedLocally_snoc (h : EditedLocally (moves ++ [m]) itemId) :
    ¬m.label.IsImport ∧ WritesItem m itemId ∨
      EditedLocally moves itemId ∧ ¬(m.label.IsImport ∧ WritesItem m itemId) := by
  obtain ⟨earlier, edit, later, hmoves, hlocal, hwrites, hlater⟩ := h
  rcases List.eq_nil_or_concat' later with rfl | ⟨later, last, rfl⟩
  · obtain ⟨rfl, rfl⟩ := List.append_singleton_inj.mp hmoves
    exact Or.inl ⟨hlocal, hwrites⟩
  · rw [← List.cons_append, ← List.append_assoc] at hmoves
    obtain ⟨rfl, rfl⟩ := List.append_singleton_inj.mp hmoves
    exact Or.inr ⟨⟨earlier, edit, later, rfl, hlocal, hwrites, fun m' hm' =>
      hlater m' (List.mem_append_left _ hm')⟩, hlater m (by simp)⟩

/-! ## Decisions -/

/-- The move planned and applied an import, with this preview and these decisions. -/
def AppliesImport (lib : ImportLibrary) (m : Move Database TimedOperation)
    (preview : BibliographyImportPreview) (decisions : List BibliographyImportDecision) : Prop :=
  ∃ read actor input previewToken sourceId itemIds state commit result,
    m.label.operation = .import read actor input decisions previewToken sourceId itemIds ∧
      previewWithState lib read actor input = .ok (preview, state) ∧
      planImport lib read actor input decisions previewToken m.label.now sourceId itemIds =
        .ok commit ∧
      m.pre.applyImport lib actor commit = .ok (result, m.post)

theorem AppliesImport.isImport {lib : ImportLibrary} {preview : BibliographyImportPreview}
    {decisions : List BibliographyImportDecision} (h : AppliesImport lib m preview decisions) :
    m.label.IsImport := by
  obtain ⟨read, actor, input, token, sourceId, itemIds, state, commit, result, hlabel, -⟩ := h
  unfold TimedOperation.IsImport
  rw [hlabel]
  trivial

/-- The decision keeps an item of the library that differs from the external one. -/
def KeepsItem (entry : BibliographyImportEntry) (decision : BibliographyImportDecision)
    (itemId : BibliographyItemId) : Prop :=
  entry.itemId = some itemId ∧
  (entry.classification = .keepLocal ∧ decision.kind = .applySuggested ∨
      entry.classification = .conflict ∧ decision.kind = .keepLocal) ∨
    decision.candidateItemId = some itemId ∧ decision.kind = .linkExistingKeepLocal

/-- The user decided for the external item. -/
def ChoosesExternal (entry : BibliographyImportEntry) (decision : BibliographyImportDecision)
    (itemId : BibliographyItemId) : Prop :=
  entry.itemId = some itemId ∧ decision.kind = .useExternal ∨
    decision.candidateItemId = some itemId ∧ decision.kind = .linkExistingUseExternal

/-- No import keeps an item that was last written in the library. -/
def KeepsNoEdit (lib : ImportLibrary) (moves : List (Move Database TimedOperation)) : Prop :=
  ∀ before m after, moves = before ++ m :: after → ∀ preview decisions,
    AppliesImport lib m preview decisions → ∀ entry ∈ preview.entries, ∀ decision ∈ decisions,
      decision.position = entry.position → ∀ itemId, KeepsItem entry decision itemId →
        ¬EditedLocally before itemId

/-- An import replaces a local edit only where the user decided for the external item. -/
def ProtectsEdits (lib : ImportLibrary) (moves : List (Move Database TimedOperation)) : Prop :=
  ∀ before m after, moves = before ++ m :: after → m.label.IsImport → ∀ itemId old new,
    EditedLocally before itemId → m.pre.bibliographyItems.find itemId = some old →
      m.post.bibliographyItems.find itemId = some new → new.cslJson ≠ old.cslJson →
        ∃ preview decisions, AppliesImport lib m preview decisions ∧ ∃ entry ∈ preview.entries,
          ∃ decision ∈ decisions, decision.position = entry.position ∧
            ChoosesExternal entry decision itemId

/-! ## The baseline of a link -/

/-- An item at the revision of one of its links was last written by an import. -/
def Baseline (moves : List (Move Database TimedOperation)) (db : Database) : Prop :=
  ∀ link ∈ db.bibliographyImportLinks, ∀ item,
    db.bibliographyItems.find link.itemId = some item →
      item.revision = link.importedItemRevision → ¬EditedLocally moves link.itemId

variable {lib : ImportLibrary} {db db' : Database} {t : TimedOperation} {actor : Actor}
  {state : BibliographyImportState lib.json} {source : BibliographyImportSource}
  {input : BibliographyImportInput} {preview : BibliographyImportPreview}
  {decisions : List BibliographyImportDecision} {importedAt : ℤ}
  {itemIds : ℕ → BibliographyItemId} {commit : BibliographyImportCommit lib.json}
  {result : BibliographyImportResult}

/-- An item of the plan at the revision of its link was last written by an import. -/
theorem Baseline.of_linked (hbaseline : Baseline moves db)
    (hplan : IsPlan lib state source input preview decisions importedAt itemIds commit)
    (happly : db.applyImport lib actor commit = .ok (result, db'))
    {externalItemId : String} {old : BibliographyImportLink} {item : BibliographyItem lib.json}
    (hold : (state.links.find? fun link => link.externalItemId = externalItemId) = some old)
    (hitem : (state.items.find? fun item => item.itemId = old.itemId) = some item)
    (hrevision : item.revision = old.importedItemRevision) : ¬EditedLocally moves item.itemId := by
  obtain ⟨-, -, ⟨current, hcurrent, hsame⟩, -⟩ := Database.applyImport_eq_ok.mp happly
  have hstate := hplan.expectedState_eq
  have hlink : old ∈ current.links := by
    rw [hsame.2.1, hstate]
    exact List.mem_of_find?_eq_some hold
  obtain ⟨row, hrow, -, -, hdecode⟩ := (Database.mem_links_of_loadState hcurrent).mp hlink
  obtain ⟨-, hstored⟩ := Database.decodeLink_eq_ok.mp hdecode
  have hid : item.itemId = old.itemId := by simpa using List.find?_some hitem
  obtain ⟨stored, hfind, -, -, hat, -⟩ := Database.row_of_expectedState hcurrent hsame
    (hstate ▸ List.mem_of_find?_eq_some hitem : item ∈ commit.expectedState.items)
  have hrowId : row.itemId = item.itemId := by
    rw [← hstored, hid]
    rfl
  have hrowRevision : row.importedItemRevision = old.importedItemRevision := by
    rw [← hstored]
    rfl
  rw [← hrowId] at hfind ⊢
  exact hbaseline row hrow stored hfind (by rw [hat, hrevision, hrowRevision])

/-- After an import, an item that was edited before and is at the revision of one of its links
was written by the import. -/
theorem Baseline.find_ne (hbaseline : Baseline moves db)
    (hplan : IsPlan lib state source input preview decisions importedAt itemIds commit)
    (happly : db.applyImport lib actor commit = .ok (result, db'))
    (hkeeps : ∀ entry ∈ preview.entries, ∀ decision ∈ decisions,
      decision.position = entry.position → ∀ itemId, KeepsItem entry decision itemId →
        ¬EditedLocally moves itemId)
    {link : ImportLinkRow} (hlink : link ∈ db'.bibliographyImportLinks) {item : BibliographyItemRow}
    (hitem : db'.bibliographyItems.find link.itemId = some item)
    (hrevision : item.revision = link.importedItemRevision)
    (hedited : EditedLocally moves link.itemId) :
    db'.bibliographyItems.find link.itemId ≠ db.bibliographyItems.find link.itemId := by
  intro hsame
  rcases Database.mem_links_applyImport hplan.targets hplan.externalItems happly hlink with
    hlink | ⟨mutation, hmutation, rfl⟩
  · rw [hsame] at hitem
    exact hbaseline link hlink item hitem hrevision hedited
  · obtain ⟨entry, hentry, value, validated, decision, hdecision, hposition, -, -, -, -,
      hplanned⟩ :=
      hplan.planned mutation hmutation
    have htarget : (mutation.link.toRow actor.principalId).itemId = mutation.targetItemId :=
      hplanned.link_itemId
    rw [htarget] at hsame hedited
    rcases Database.find_target_ne_applyImport hplan.targets hplan.externalItems happly
      hmutation with
      ⟨revision, link, rfl⟩ | hne
    · -- A kept item : its link had followed it already, or the decision kept an edit.
      cases hplanned with
      | keepLinked old link item' hold hitem' hid hkind hisLink =>
        have hedited : EditedLocally moves link.itemId := hedited
        rw [hisLink.itemId] at hedited
        rcases hkind with ⟨hat, -, -⟩ | hkind
        · exact hbaseline.of_linked hplan happly hold hitem' hat hedited
        · exact hkeeps entry hentry decision hdecision hposition item'.itemId
            (Or.inl ⟨hid, hkind⟩) hedited
      | keepCandidate link item' hnew hitem' hcandidate hkind hisLink =>
        have hedited : EditedLocally moves link.itemId := hedited
        rw [hisLink.itemId] at hedited
        exact hkeeps entry hentry decision hdecision hposition item'.itemId
          (Or.inr ⟨hcandidate, hkind.2⟩) hedited
    · exact hne hsame

/-- The invariant of a run, one operation at a time. -/
theorem Baseline.step (hdb : db.LibraryConsistent lib.json) (hbaseline : Baseline moves db)
    (hstep : t.Step lib db db')
    (hkeeps : ∀ preview decisions, AppliesImport lib ⟨db, t, db'⟩ preview decisions →
      ∀ entry ∈ preview.entries, ∀ decision ∈ decisions, decision.position = entry.position →
        ∀ itemId, KeepsItem entry decision itemId → ¬EditedLocally moves itemId) :
    Baseline (moves ++ [⟨db, t, db'⟩]) db' := by
  intro link hlink item hitem hrevision hedited
  -- An item whose row the operation left alone was as it is, under a link that was there.
  have hunchanged : link ∈ db.bibliographyImportLinks →
      db'.bibliographyItems.find link.itemId = db.bibliographyItems.find link.itemId → False := by
    intro hold hsame
    rcases editedLocally_snoc hedited with ⟨-, hwrites⟩ | ⟨hedited, -⟩
    · exact hwrites hsame
    · exact hbaseline link hold item (hsame ▸ hitem) hrevision hedited
  cases hstep.libraryMove with
  | same h => exact hunchanged (h.links ▸ hlink) (by rw [h.items])
  | insert actor csl itemId value hlabel h =>
    obtain ⟨hfree, -, -, hsame, hitems⟩ := Database.insertItem_eq_ok h
    have hold : link ∈ db.bibliographyImportLinks := hsame.links ▸ hlink
    refine hunchanged hold ((hitems link.itemId).trans (if_neg fun heq => ?_))
    obtain ⟨stored, hstored, -⟩ := hdb.exists_item hold
    rw [← heq, hfree] at hstored
    cases hstored
  | update actor csl itemId revision value hlabel h =>
    obtain ⟨old, new, hfind, -, -, hnew, -, hsame, hitems⟩ := Database.writeOwnedItem_eq_ok h
    have hold : link ∈ db.bibliographyImportLinks := hsame.links ▸ hlink
    by_cases heq : itemId = link.itemId
    · -- The edit moved the item past every link.
      obtain ⟨stored, hstored, -, -, hle⟩ := hdb.exists_item hold
      rw [hitems, if_pos heq] at hitem
      rw [← heq, hfind] at hstored
      cases hstored
      cases hitem
      have hnext : item.revision = old.revision + 1 := by rw [hnew]
      omega
    · exact hunchanged hold ((hitems link.itemId).trans (if_neg heq))
  | delete actor itemId revision old hlabel hold h =>
    subst h
    rw [Database.find_items_deleteBibliographyItemRow] at hitem
    split_ifs at hitem with heq
    refine hunchanged (Database.mem_links_deleteBibliographyItemRow.mp hlink).1 ?_
    rw [Database.find_items_deleteBibliographyItemRow, if_neg heq]
  | «import» read actor input decisions token sourceId itemIds commit result hlabel hplanned
    happly =>
    obtain ⟨preview, state, source, hpreview, -, -, hplan⟩ := planImport_eq_ok hplanned
    have hisImport : t.IsImport := by
      unfold TimedOperation.IsImport
      rw [hlabel]
      trivial
    rcases editedLocally_snoc hedited with ⟨hnot, -⟩ | ⟨hedited, hnot⟩
    · exact hnot hisImport
    · refine hbaseline.find_ne hplan happly (hkeeps preview decisions ?_) hlink hitem hrevision
        hedited (not_not.mp fun hne => hnot ⟨hisImport, hne⟩)
      exact ⟨read, actor, input, token, sourceId, itemIds, state, commit, result, hlabel, hpreview,
        hplanned, happly⟩

theorem baseline_of_run (hrun : Run (TimedOperation.Step lib) Database.empty moves db)
    (hkeeps : KeepsNoEdit lib moves) : Baseline moves db := by
  induction hrun with
  | nil =>
    intro link hlink
    cases hlink
  | @snoc s t moves a hrun hlast ih =>
    have hbefore : KeepsNoEdit lib moves := by
      intro before m after hmoves
      exact hkeeps before m (after ++ [⟨s, a, t⟩]) (by simp [hmoves])
    exact (ih hbefore).step (libraryConsistent_of_run hrun) hlast
      fun preview decisions => hkeeps moves _ [] rfl preview decisions

/-- In every run whose imports keep no local edit, only a decision for the external item replaces
one. -/
theorem import_protects_local_edits
    (hrun : Run (TimedOperation.Step lib) Database.empty moves db)
    (hkeeps : KeepsNoEdit lib moves) : ProtectsEdits lib moves := by
  rintro before m after rfl himport itemId old new hedited hold hnew hne
  obtain ⟨hbefore, hstep, -⟩ := hrun.split
  have hbaseline : Baseline before m.pre := by
    refine baseline_of_run hbefore fun earlier m' later hmoves => ?_
    exact hkeeps earlier m' (later ++ m :: after) (by simp [hmoves])
  have hlabels : ∀ c, m.label.operation ≠ .library c := by
    intro c hlabel
    unfold TimedOperation.IsImport at himport
    rw [hlabel] at himport
    exact himport
  have hchanged : m.post.bibliographyItems.find itemId ≠ m.pre.bibliographyItems.find itemId := by
    rw [hold, hnew]
    intro heq
    exact hne (congrArg BibliographyItemRow.cslJson (Option.some.inj heq))
  cases hstep.libraryMove with
  | same h => exact absurd (by rw [h.items]) hchanged
  | insert actor csl itemId value hlabel h => exact absurd hlabel (hlabels _)
  | update actor csl itemId revision value hlabel h => exact absurd hlabel (hlabels _)
  | delete actor itemId revision old hlabel hold h => exact absurd hlabel (hlabels _)
  | «import» read actor input decisions token sourceId itemIds commit result hlabel hplanned
    happly =>
    obtain ⟨preview, state, source, hpreview, -, -, hplan⟩ := planImport_eq_ok hplanned
    refine ⟨preview, decisions, ⟨read, actor, input, token, sourceId, itemIds, state, commit,
      result,
      hlabel, hpreview, hplanned, happly⟩, ?_⟩
    rcases Database.find_items_applyImport hplan.targets hplan.externalItems happly itemId with
      hsame | ⟨mutation, hmutation, rfl, hwritten⟩
    · exact absurd hsame hchanged
    · obtain ⟨entry, hentry, value, validated, decision, hdecision, hposition, -, -, -, -,
        hplanned⟩ :=
        hplan.planned mutation hmutation
      refine ⟨entry, hentry, decision, hdecision, hposition, ?_⟩
      have hfound := Database.found_of_applyImport hplan.targets happly hmutation
      cases hplanned with
      | create link hkind hnew hcandidates hseparate hlink =>
        cases hold.symm.trans hfound.2
      | updateLinked previous link item csl hprevious hitem hid hkind hkey hlink =>
        left
        rcases hkind with ⟨hat, -, -⟩ | ⟨-, hkind⟩
        · exact absurd hedited (hbaseline.of_linked hplan happly hprevious hitem hat)
        · exact ⟨hid, hkind⟩
      | updateCandidate link item csl hnew hitem hcandidate hkind hkey hlink =>
        exact Or.inr ⟨hcandidate, hkind.2⟩
      | keepLinked => exact absurd hwritten hchanged
      | keepCandidate => exact absurd hwritten hchanged

/-! ## A kept edit -/

open Database in
/-- An import, an edit of the item, the same file again, and a changed file. -/
def keptEdit : ℕ → Database → TimedOperation
  | 0, _ => ⟨0, .login alice.authenticatedIdentity⟩
  | 1, db => importArticle 100 (.new "Zotero") "First" .applySuggested db
  | 2, _ => ⟨200, .library (.update alice ⟨1⟩ 1 (sampleArticle "doe2024" "Edited"))⟩
  | 3, db => importArticle 300 (.existing ⟨1⟩) "First" .applySuggested db
  | _, db => importArticle 400 (.existing ⟨1⟩) "Second" .applySuggested db

open Database in
/-- An import, an edit of the item, and a changed file that the user prefers. -/
def replacedEdit : ℕ → Database → TimedOperation
  | 0, _ => ⟨0, .login alice.authenticatedIdentity⟩
  | 1, db => importArticle 100 (.new "Zotero") "First" .applySuggested db
  | 2, _ => ⟨200, .library (.update alice ⟨1⟩ 1 (sampleArticle "doe2024" "Edited"))⟩
  | _, db => importArticle 300 (.existing ⟨1⟩) "Second" .useExternal db

theorem run_keptEdit (n : ℕ) :
    Run (TimedOperation.Step editedLibrary) Database.empty
      (Run.schedule editedNext keptEdit Database.empty n).1
      (Run.schedule editedNext keptEdit Database.empty n).2 := by
  refine Run.run_schedule editedNext keptEdit Database.empty (fun n db => ?_) n
  match n with
  | 0 | 1 | 2 | 3 | _ + 4 => trivial

theorem run_replacedEdit (n : ℕ) :
    Run (TimedOperation.Step editedLibrary) Database.empty
      (Run.schedule editedNext replacedEdit Database.empty n).1
      (Run.schedule editedNext replacedEdit Database.empty n).2 := by
  refine Run.run_schedule editedNext replacedEdit Database.empty (fun n db => ?_) n
  match n with
  | 0 | 1 | 2 | _ + 3 => trivial

/-- The decisions of the imports of a run. -/
theorem decisions_of_importArticle {m : Move Database TimedOperation} {now : ℤ}
    {source : BibliographyImportSourceSelection} {title : String}
    {kind : BibliographyImportDecisionKind} {read : Database}
    (hlabel : m.label = importArticle now source title kind read)
    {preview : BibliographyImportPreview} {decisions : List BibliographyImportDecision}
    (h : AppliesImport editedLibrary m preview decisions) :
    decisions = [⟨0, kind, none⟩] ∧ ∃ state, previewWithState editedLibrary read Database.alice
      ⟨source, [sampleArticle "doe2024" title]⟩ = .ok (preview, state) := by
  obtain ⟨read', actor, input, token, sourceId, itemIds, state, commit, result, himport, hpreview,
    -⟩ := h
  rw [hlabel] at himport
  cases himport
  exact ⟨rfl, state, hpreview⟩

/-- The suggestions of three imports replace the edit, which the second of them kept. -/
theorem import_discards_kept_edit : ∃ moves db,
    Run (TimedOperation.Step editedLibrary) Database.empty moves db ∧
      (∀ m ∈ moves, ∀ preview decisions, AppliesImport editedLibrary m preview decisions →
        ∀ decision ∈ decisions, decision.kind = .applySuggested) ∧
      ¬ProtectsEdits editedLibrary moves := by
  refine ⟨_, _, run_keptEdit 5, ?_, fun hprotects => ?_⟩
  · intro m hm preview decisions happlies decision hdecision
    simp only [Run.schedule, List.nil_append, List.mem_append, List.mem_singleton] at hm
    rcases hm with (((rfl | rfl) | rfl) | rfl) | rfl
    · exact happlies.isImport.elim
    · rw [(decisions_of_importArticle rfl happlies).1, List.mem_singleton] at hdecision
      rw [hdecision]
    · exact happlies.isImport.elim
    · rw [(decisions_of_importArticle rfl happlies).1, List.mem_singleton] at hdecision
      rw [hdecision]
    · rw [(decisions_of_importArticle rfl happlies).1, List.mem_singleton] at hdecision
      rw [hdecision]
  · have hkept : EditedLocally (Run.schedule editedNext keptEdit Database.empty 4).1 ⟨1⟩ := by
      refine ⟨(Run.schedule editedNext keptEdit Database.empty 2).1, _, [_],
        List.append_assoc _ _ _,
        id, ?_, ?_⟩
      · unfold WritesItem
        decide +kernel
      · intro m hm hwrites
        rw [List.mem_singleton] at hm
        subst hm
        exact hwrites.2 (by decide +kernel)
    obtain ⟨old, new, hold, hnew, hne⟩ : ∃ old new,
        (Run.schedule editedNext keptEdit Database.empty 4).2.bibliographyItems.find ⟨1⟩ =
          some old ∧
        (Run.schedule editedNext keptEdit Database.empty 5).2.bibliographyItems.find ⟨1⟩ =
          some new ∧
          new.cslJson ≠ old.cslJson := by
      refine ⟨⟨⟨1⟩, ⟨1⟩, "doe2024", (sampleArticle "doe2024" "Edited").render, 100, 200, 2⟩,
        ⟨⟨1⟩, ⟨1⟩, "doe2024", (sampleArticle "doe2024" "Second").render, 100, 400, 3⟩, ?_⟩
      decide +kernel
    obtain ⟨preview, decisions, happlies, entry, -, decision, hdecision, -, hchooses⟩ :=
      hprotects _ _ [] rfl trivial ⟨1⟩ old new hkept hold hnew hne
    rw [(decisions_of_importArticle rfl happlies).1, List.mem_singleton] at hdecision
    subst hdecision
    rcases hchooses with ⟨-, hkind⟩ | ⟨-, hkind⟩ <;> cases hkind

/-- The first file creates its item. -/
theorem classification_of_firstImport {preview : BibliographyImportPreview}
    {state : BibliographyImportState editedLibrary.json}
    (h : previewWithState editedLibrary (Run.schedule editedNext replacedEdit Database.empty 1).2
      Database.alice ⟨.new "Zotero", [sampleArticle "doe2024" "First"]⟩ = .ok (preview, state)) :
    ∀ entry ∈ preview.entries, entry.classification = .create := by
  have hentries : ((previewWithState editedLibrary
      (Run.schedule editedNext replacedEdit Database.empty 1).2 Database.alice
      ⟨.new "Zotero", [sampleArticle "doe2024" "First"]⟩).toOption.map
        fun shown => shown.1.entries.map BibliographyImportEntry.classification) =
      some [.create] := by decide +kernel
  rw [h] at hentries
  intro entry hentry
  have hcreate : preview.entries.map BibliographyImportEntry.classification = [.create] :=
    Option.some.inj hentries
  have hmem := List.mem_map_of_mem (f := BibliographyImportEntry.classification) hentry
  rw [hcreate] at hmem
  simpa using hmem

/-- The edit is replaced in a conflict, and nothing else is kept. -/
theorem import_protects_replacedEdit :
    ProtectsEdits editedLibrary (Run.schedule editedNext replacedEdit Database.empty 4).1 := by
  refine import_protects_local_edits (run_replacedEdit 4) ?_
  intro before m after hmoves preview decisions happlies entry hentry decision hdecision _ itemId
    hkeeps
  have hm : m ∈ (Run.schedule editedNext replacedEdit Database.empty 4).1 := by
    rw [hmoves]
    simp
  simp only [Run.schedule, List.nil_append, List.mem_append, List.mem_singleton] at hm
  rcases hm with ((rfl | rfl) | rfl) | rfl
  · exact happlies.isImport.elim
  · obtain ⟨hdecisions, state, hpreview⟩ := decisions_of_importArticle rfl happlies
    rw [hdecisions, List.mem_singleton] at hdecision
    subst hdecision
    have hclass := classification_of_firstImport hpreview entry hentry
    simp [KeepsItem, hclass] at hkeeps
  · exact happlies.isImport.elim
  · rw [(decisions_of_importArticle rfl happlies).1, List.mem_singleton] at hdecision
    subst hdecision
    simp [KeepsItem] at hkeeps

end Marginalis
