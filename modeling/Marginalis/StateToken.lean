import Marginalis.LibraryInvariant

/-!
# The token of a preview

The token covers the source and its links as a whole, and of each item the id and the revision.
Two states with one token therefore have the same source, links and revisions
(`importStateComponents_inj`), unless their digests collide. In a run that gives no id away
twice, an item at the same revision is the same row (`revisionsGrow_of_run`), so they are the same
state (`same_of_components`).
-/

namespace Marginalis

variable {lib : ImportLibrary} {input : BibliographyImportInput}

/-! ## The components -/

/-- The part of the token for the input. -/
def inputComponents (lib : ImportLibrary) (input : BibliographyImportInput) :
    List TokenComponent :=
  .text "marginalis-bibliography-import-preview-1" ::
    (match input.source with
      | .new displayName => [.text "new", .text displayName]
      | .existing sourceId => [.text "existing", .id sourceId.entityId]) ++
    [.text (lib.json.encode (.array input.items))]

/-- The part for a source. -/
def sourceComponents : Option BibliographyImportSource → List TokenComponent
  | some source =>
    [.id source.sourceId.entityId, .text source.owner.primaryIdentity.issuer,
      .text source.owner.primaryIdentity.subject, .text "csl_json_file",
      .text source.displayName, .int source.revision, .int source.createdAt,
      .int source.lastImportedAt]
  | none => [.text "no-source"]

/-- The part for a link. -/
def linkComponents (link : BibliographyImportLink) : List TokenComponent :=
  [.id link.sourceId.entityId, .text link.externalItemId, .id link.itemId.entityId,
    .digest link.importedDigest, .int link.importedItemRevision]

/-- The part for an item. -/
def itemComponents {json : JsonCodec} (item : BibliographyItem json) : List TokenComponent :=
  [.id item.itemId.entityId, .int item.revision]

variable {a b : BibliographyImportState lib.json}

variable (b) in
/-- The components of a state are those of the input and then those of its parts. -/
theorem importStateComponents_eq (input : BibliographyImportInput) :
    importStateComponents lib input b = inputComponents lib input ++ (sourceComponents b.source ++
      (b.canonicalized.links.flatMap linkComponents ++
        b.canonicalized.items.flatMap itemComponents)) := by
  unfold importStateComponents inputComponents
  simp only [List.cons_append, List.append_assoc]
  unfold sourceComponents
  cases b.source <;> rfl

theorem sourceComponents_inj {s s' : Option BibliographyImportSource} {l l' : List TokenComponent}
    (h : sourceComponents s ++ l = sourceComponents s' ++ l') :
    (s = none ↔ s' = none) ∧ l = l' ∧ ∀ source ∈ s, ∀ source' ∈ s',
      source.owner.id = source'.owner.id → source.toRow = source'.toRow := by
  cases s with
  | none =>
    cases s' with
    | none => simpa [sourceComponents] using h
    | some source' => simp [sourceComponents] at h
  | some source =>
    cases s' with
    | none => simp [sourceComponents] at h
    | some source' =>
      simp only [sourceComponents, List.cons_append, List.nil_append, List.cons.injEq,
        TokenComponent.id.injEq, TokenComponent.int.injEq, TokenComponent.text.injEq,
          Int.natCast_inj] at h
      obtain ⟨hid, -, -, -, hname, hrevision, hcreated, himported, hl⟩ := h
      refine ⟨by simp, hl, ?_⟩
      intro a ha b hb howner
      cases ha
      cases hb
      have hid' : source.sourceId = source'.sourceId := by
        cases hsource : source.sourceId
        cases hsource' : source'.sourceId
        rw [hsource, hsource'] at hid
        simpa using hid
      simp [BibliographyImportSource.toRow, hid', hname, hrevision, hcreated, himported, howner]

theorem linkComponents_inj {l l' : List BibliographyImportLink}
    {items items' : List (BibliographyItem lib.json)}
    (h : l.flatMap linkComponents ++ items.flatMap itemComponents =
      l'.flatMap linkComponents ++ items'.flatMap itemComponents) :
    l = l' ∧ items.flatMap itemComponents = items'.flatMap itemComponents := by
  induction l generalizing l' with
  | nil =>
    cases l' with
    | nil => exact ⟨rfl, h⟩
    | cons link' l' =>
      cases items with
      | nil => simp [linkComponents] at h
      | cons item items => simp [linkComponents, itemComponents] at h
  | cons link l ih =>
    cases l' with
    | nil =>
      cases items' with
      | nil => simp [linkComponents] at h
      | cons item items' => simp [linkComponents, itemComponents] at h
    | cons link' l' =>
      obtain ⟨⟨source⟩, external, ⟨item⟩, digest, revision, hidentifier⟩ := link
      obtain ⟨⟨source'⟩, external', ⟨item'⟩, digest', revision', hidentifier'⟩ := link'
      simp only [List.flatMap_cons, linkComponents, List.cons_append, List.nil_append,
        List.cons.injEq, TokenComponent.id.injEq, TokenComponent.int.injEq,
          TokenComponent.text.injEq,
        TokenComponent.digest.injEq, Int.natCast_inj] at h
      obtain ⟨rfl, rfl, rfl, rfl, rfl, h⟩ := h
      obtain ⟨rfl, hitems⟩ := ih h
      exact ⟨rfl, hitems⟩

theorem itemComponents_inj {items items' : List (BibliographyItem lib.json)}
    (h : items.flatMap itemComponents = items'.flatMap itemComponents) :
    items.map (fun item => (item.itemId, item.revision)) =
      items'.map fun item => (item.itemId, item.revision) := by
  induction items generalizing items' with
  | nil =>
    cases items' with
    | nil => rfl
    | cons item items' => simp [itemComponents] at h
  | cons item items ih =>
    cases items' with
    | nil => simp [itemComponents] at h
    | cons item' items' =>
      simp only [List.flatMap_cons, itemComponents, List.cons_append, List.nil_append,
        List.cons.injEq, TokenComponent.id.injEq, TokenComponent.int.injEq, Int.natCast_inj] at h
      obtain ⟨hid, hrevision, h⟩ := h
      have hid' : item.itemId = item'.itemId := by
        cases hitem : item.itemId
        cases hitem' : item'.itemId
        rw [hitem, hitem'] at hid
        simpa using hid
      simp [hid', hrevision, ih h]

/-- States with the same components have the same source, links, items and revisions. -/
theorem importStateComponents_inj (ha : a.canonicalized = a) (hb : b.canonicalized = b)
    (h : importStateComponents lib input a = importStateComponents lib input b) :
    (a.source = none ↔ b.source = none) ∧
      (∀ source ∈ a.source, ∀ source' ∈ b.source, source.owner.id = source'.owner.id →
        source.toRow = source'.toRow) ∧
      a.links = b.links ∧ a.items.map (fun item => (item.itemId, item.revision)) =
        b.items.map fun item => (item.itemId, item.revision) := by
  rw [importStateComponents_eq a input, importStateComponents_eq b input, ha, hb] at h
  obtain ⟨hnone, hrest, hsource⟩ := sourceComponents_inj (List.append_cancel_left h)
  obtain ⟨hlinks, hitems⟩ := linkComponents_inj hrest
  exact ⟨hnone, hsource, hlinks, itemComponents_inj hitems⟩

/-! ## Revisions along a run -/

/-- The operation gives the id to a new item. -/
def TimedOperation.AddsItem (t : TimedOperation) (itemId : BibliographyItemId) : Prop :=
  match t.operation with
  | .library (.add _ _ id) => id = itemId
  | .import _ _ _ _ _ _ itemIds => ∃ i, itemIds i = itemId
  | _ => False

/-- A row of `read` is still there, behind a later revision, or gone. -/
def RevisionsGrow (read db : Database) : Prop :=
  ∀ id row, read.bibliographyItems.find id = some row → ∀ row',
    db.bibliographyItems.find id = some row' → row' = row ∨ row.revision < row'.revision

theorem RevisionsGrow.step {read db db' : Database} {t : TimedOperation}
    (h : RevisionsGrow read db) (hstep : t.Step lib db db')
    (hnew : ∀ id, t.AddsItem id → read.bibliographyItems.find id = none) :
    RevisionsGrow read db' := by
  intro id row hrow row' hrow'
  -- An id of `read` is not a new one, and a written row has a later revision.
  have hsame : db'.bibliographyItems.find id = db.bibliographyItems.find id →
      row' = row ∨ row.revision < row'.revision := fun heq => h id row hrow row' (heq ▸ hrow')
  have hlater : ∀ old, db.bibliographyItems.find id = some old →
      row'.revision = old.revision + 1 → row' = row ∨ row.revision < row'.revision := by
    intro old hold heq
    rcases h id row hrow old hold with rfl | hlt
    · exact Or.inr (by omega)
    · exact Or.inr (by omega)
  cases hstep.libraryMove with
  | same h => exact hsame (by rw [h.items])
  | insert actor csl itemId value hlabel hinsert =>
    obtain ⟨-, -, -, -, hitems⟩ := Database.insertItem_eq_ok hinsert
    refine hsame ((hitems id).trans (if_neg fun heq => ?_))
    have hnone := hnew id (by
      unfold TimedOperation.AddsItem
      rw [hlabel]
      exact heq)
    rw [hnone] at hrow
    cases hrow
  | update actor csl itemId revision value hlabel hwrite =>
    obtain ⟨old, new, hfind, -, -, hnew', -, -, hitems⟩ := Database.writeOwnedItem_eq_ok hwrite
    by_cases heq : itemId = id
    · rw [hitems, if_pos heq] at hrow'
      cases hrow'
      exact hlater old (heq ▸ hfind) (by rw [hnew'])
    · exact hsame ((hitems id).trans (if_neg heq))
  | delete actor itemId revision old hlabel hold hdelete =>
    subst hdelete
    rw [Database.find_items_deleteBibliographyItemRow] at hrow'
    split_ifs at hrow'
    exact h id row hrow row' hrow'
  | «import» read' actor input decisions token sourceId itemIds commit result hlabel hplanned
      happly =>
    obtain ⟨preview, state, source, -, -, -, hplan⟩ := planImport_eq_ok hplanned
    rcases Database.find_items_applyImport hplan.targets hplan.externalItems happly id with
      heq | ⟨mutation, hmutation, rfl, hwritten⟩
    · exact hsame heq
    · have hfound := Database.found_of_applyImport hplan.targets happly hmutation
      obtain ⟨entry, -, value, validated, decision, -, -, -, -, -, -, hmutation⟩ :=
        hplan.planned mutation hmutation
      cases hmutation with
      | create link hkind hfree hcandidates hseparate hlink =>
        have hnone := hnew (itemIds entry.position) (by
          unfold TimedOperation.AddsItem
          rw [hlabel]
          exact ⟨_, rfl⟩)
        have hrow : read.bibliographyItems.find (itemIds entry.position) = some row := hrow
        rw [hnone] at hrow
        cases hrow
      | updateLinked old link item csl hold hitem hid hkind hkey hlink =>
        obtain ⟨stored, hstored, -, -⟩ := hfound
        rw [hrow'] at hwritten
        have hnext := Option.some.inj (hwritten.trans (congrArg (Option.map _) hstored))
        exact hlater stored hstored (by rw [hnext])
      | updateCandidate link item csl hfree hitem hcandidate hkind hkey hlink =>
        obtain ⟨stored, hstored, -, -⟩ := hfound
        rw [hrow'] at hwritten
        have hnext := Option.some.inj (hwritten.trans (congrArg (Option.map _) hstored))
        exact hlater stored hstored (by rw [hnext])
      | keepLinked => exact hsame hwritten
      | keepCandidate => exact hsame hwritten

/-- In a run that adds no item under an id of its start, revisions only grow. -/
theorem revisionsGrow_of_run {read db : Database} {moves : List (Move Database TimedOperation)}
    (hrun : Run (TimedOperation.Step lib) read moves db)
    (hnew : ∀ m ∈ moves, ∀ id, m.label.AddsItem id → read.bibliographyItems.find id = none) :
    RevisionsGrow read db := by
  induction hrun with
  | nil => exact fun id row hrow row' hrow' => Or.inl (Option.some.inj (hrow'.symm.trans hrow))
  | @snoc s t moves a hrun hlast ih =>
    refine (ih fun m hm => hnew m (List.mem_append_left _ hm)).step hlast ?_
    exact hnew ⟨s, a, t⟩ (List.mem_append_right _ (List.mem_singleton_self _))

/-! ## The state behind a token -/

theorem map_eq_of_map_eq {α β γ : Type*} {f : α → β} {g : α → γ} :
    ∀ {l l' : List α}, l.map f = l'.map f → (∀ a ∈ l, ∀ b ∈ l', f a = f b → g a = g b) →
      l.map g = l'.map g
  | [], [], _, _ => rfl
  | [], b :: l', h, _ => by simp at h
  | a :: l, [], h, _ => by simp at h
  | a :: l, b :: l', h, hg => by
    rw [List.map_cons, List.map_cons, List.cons.injEq] at h
    rw [List.map_cons, List.map_cons, hg a (List.mem_cons_self ..) b (List.mem_cons_self ..) h.1,
      map_eq_of_map_eq h.2 fun a ha b hb =>
        hg a (List.mem_cons_of_mem _ ha) b (List.mem_cons_of_mem _ hb)]

/-- The state that `read` shows is still that of the database when the components agree. -/
theorem same_of_components {read db : Database} {actor : Actor}
    {sourceId : Option BibliographyImportSourceId} (hgrow : RevisionsGrow read db)
    (hread : read.loadState lib actor sourceId = .ok a)
    (hdb : db.loadState lib actor sourceId = .ok b)
    (hcomponents : importStateComponents lib input b = importStateComponents lib input a) :
    b.Same a := by
  obtain ⟨hnone, hsource, hlinks, hitems⟩ := importStateComponents_inj
    (Database.canonicalized_of_loadState hdb)
    (Database.canonicalized_of_loadState hread) hcomponents
  refine ⟨?_, hlinks, map_eq_of_map_eq hitems fun item hitem item' hitem' heq => ?_⟩
  · cases hb : b.source with
    | none => rw [hnone.mp hb]
    | some source =>
      cases ha : a.source with
      | none => simp [hnone.mpr ha] at hb
      | some source' =>
        have howner := Database.owner_of_loadState hdb source hb
        have howner' := Database.owner_of_loadState hread source' ha
        exact congrArg some (hsource source hb source' ha (howner.trans howner'.symm))
  · obtain ⟨row, hrow, -, identity, -, hdecode⟩ := (Database.mem_items_of_loadState hdb).mp hitem
    obtain ⟨row', hrow', -, identity', -, hdecode'⟩ :=
      (Database.mem_items_of_loadState hread).mp hitem'
    obtain ⟨-, -, -, csl, hcsl, hstored⟩ := Database.decodeItem_eq_ok.mp hdecode
    obtain ⟨-, -, -, csl', hcsl', hstored'⟩ := Database.decodeItem_eq_ok.mp hdecode'
    have hid : row.itemId = row'.itemId :=
      (congrArg BibliographyItemRow.itemId hstored).symm.trans
        ((congrArg Prod.fst heq).trans (congrArg BibliographyItemRow.itemId hstored'))
    have hrevision : row.revision = row'.revision :=
      (congrArg BibliographyItemRow.revision hstored).symm.trans
        ((congrArg Prod.snd heq).trans (congrArg BibliographyItemRow.revision hstored'))
    have hfind : db.bibliographyItems.find row'.itemId = some row := hid ▸ Table.find_of_mem hrow
    obtain rfl : row = row' := by
      rcases hgrow row'.itemId row' (Table.find_of_mem hrow') row hfind with h | h
      · exact h
      · omega
    cases hcsl.symm.trans hcsl'
    exact hstored.trans hstored'.symm

end Marginalis
