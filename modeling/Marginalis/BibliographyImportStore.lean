import Marginalis.BibliographyImport

/-!
# The import in the store

`loadState` reads what an import starts from, and `applyImport` is the one transaction that
writes it : the source, then for each mutation the item and its link. The service reads the
state (`planImport`) before the transaction begins, and the transaction refuses a plan made
against another state.
-/

namespace Marginalis

open Table (orderBy)

namespace Database

variable (db : Database) (lib : ImportLibrary)

/-! ## Reading the state -/

/-- `decode_source` at a row of the view `bibliography_import_source_details`. -/
def decodeSource (row : ImportSourceRow) (identity : Identity) :
    Except StorageError BibliographyImportSource :=
  if h : 0 < row.revision then
    match BibliographyImportSource.restore row.sourceId ⟨row.owner, identity⟩ row.displayName
      row.revision row.createdAt row.lastImportedAt h with
    | some source => .ok source
    | none => .error .corruptData
  else .error .corruptData

/-- `decode_link`. -/
def decodeLink (row : ImportLinkRow) : Except StorageError BibliographyImportLink :=
  if row.importedItemRevision = 0 then .error .corruptData
  else
    match BibliographyImportLink.new row.sourceId row.externalItemId row.itemId row.importedDigest
      row.importedItemRevision with
    | some link => .ok link
    | none => .error .corruptData

/-- The source of an import, when it exists and is the principal's. -/
def loadSource (actor : Actor) (sourceId : BibliographyImportSourceId) :
    Except StorageError (Option BibliographyImportSource) :=
  match (db.bibliographyImportSources.find sourceId).filter
    fun row => row.owner = actor.principalId with
  | none => .ok none
  | some row =>
    match db.primaryIdentity row.owner with
    | none => .ok none
    | some identity => (decodeSource row identity).map some

/-- The links of a source. -/
def loadLinks (actor : Actor) (sourceId : BibliographyImportSourceId) :
    Except StorageError (List BibliographyImportLink) :=
  (orderBy ImportLinkRow.externalItemId (db.bibliographyImportLinks.select fun row =>
    row.sourceId = sourceId ∧ row.owner = actor.principalId)).mapM decodeLink

/-- The whole library of a principal. -/
def loadItems (json : JsonCodec) (actor : Actor) :
    Except StorageError (List (BibliographyItem json)) :=
  ((orderBy (fun row => row.itemId.entityId) (db.bibliographyItems.select fun row =>
    row.owner = actor.principalId)).filterMap db.itemDetails).mapM
      fun details => decodeItem json details.1 details.2

/-- A link whose item is missing or behind the revision it was imported at. -/
def DanglingLink {json : JsonCodec} (items : List (BibliographyItem json))
    (link : BibliographyImportLink) : Prop :=
  match items.find? fun item => item.itemId = link.itemId with
  | none => True
  | some item => item.revision < link.importedItemRevision

instance {json : JsonCodec} (items : List (BibliographyItem json)) :
    DecidablePred (DanglingLink items) := fun link => by
  unfold DanglingLink
  split <;> infer_instance

/-- `load_state_in_transaction`. -/
def loadState (actor : Actor) (sourceId : Option BibliographyImportSourceId) :
    Except StorageError (BibliographyImportState lib.json) := do
  let source ← match sourceId with
    | none => pure none
    | some sourceId => db.loadSource actor sourceId
  let links ← match sourceId with
    | none => pure []
    | some sourceId => db.loadLinks actor sourceId
  let items ← db.loadItems lib.json actor
  if ∃ link ∈ links, DanglingLink items link then throw .corruptData
  return ({ source, links, items } : BibliographyImportState lib.json).canonicalized

/-! ## Writing a plan -/

/-- What `commit_is_consistent` asks of one mutation. -/
def ConsistentMutation {json : JsonCodec} (commit : BibliographyImportCommit json) :
    BibliographyImportItemMutation json → Prop
  | .create item link =>
    link.sourceId = commit.source.sourceId ∧ link.itemId = item.itemId ∧
      link.importedItemRevision = item.revision
  | .update itemId csl expectedRevision link _ =>
    link.sourceId = commit.source.sourceId ∧ link.itemId = itemId ∧
      (∃ item ∈ commit.expectedState.items, item.itemId = itemId ∧
        item.revision = expectedRevision ∧ item.citationKey = csl.citationKey) ∧
      expectedRevision + 1 = link.importedItemRevision
  | .keep expectedRevision link =>
    link.sourceId = commit.source.sourceId ∧ link.importedItemRevision = expectedRevision

instance {json : JsonCodec} (commit : BibliographyImportCommit json) :
    DecidablePred (ConsistentMutation commit) := fun mutation => by
  cases mutation <;> unfold ConsistentMutation <;> infer_instance

/-- `commit_is_consistent`. -/
def CommitIsConsistent {json : JsonCodec} (commit : BibliographyImportCommit json) : Prop :=
  ∀ mutation ∈ commit.mutations, ConsistentMutation commit mutation

instance {json : JsonCodec} (commit : BibliographyImportCommit json) :
    Decidable (CommitIsConsistent commit) := by
  unfold CommitIsConsistent
  infer_instance

/-- The `CHECK`s of `bibliography_import_sources`. -/
def sourceCheck (row : ImportSourceRow) : Prop :=
  0 < row.revision ∧ row.createdAt ≤ row.lastImportedAt

instance : DecidablePred sourceCheck := fun row => by
  unfold sourceCheck
  infer_instance

/-- The `UPDATE` of `persist_source`. -/
def renewSource (actor : Actor) (expected : BibliographyImportSource)
    (sourceId : BibliographyImportSourceId) (importedAt : ℤ) : Except StorageError (ℕ × Database) :=
  if expected.sourceId ≠ sourceId then .error .conflict
  else
    match (db.bibliographyImportSources.find sourceId).filter
      fun row => row.owner = actor.principalId ∧ row.revision = expected.revision with
    | none => .error .conflict
    | some row =>
      if sourceCheck { row with lastImportedAt := importedAt, revision := row.revision + 1 } then
        .ok (expected.revision + 1, { db with
          bibliographyImportSources := db.bibliographyImportSources.upsert
            { row with lastImportedAt := importedAt, revision := row.revision + 1 } })
      else .error .unavailable

/-- The `INSERT` of `persist_source`. -/
def insertSource (actor : Actor) (new : ImportSourceRow) : Except StorageError (ℕ × Database) :=
  if ¬sourceCheck new then .error .unavailable
  else if db.principals.find actor.principalId = none then .error .conflict
  else
    match db.bibliographyImportSources.insert? new with
    | none => .error .conflict
    | some sources => .ok (initialRevision, { db with bibliographyImportSources := sources })

/-- `persist_source`, with the revision of the stored source. -/
def persistSource {json : JsonCodec} (actor : Actor) (commit : BibliographyImportCommit json) :
    Except StorageError (ℕ × Database) :=
  match commit.expectedState.source with
  | some expected => db.renewSource actor expected commit.source.sourceId commit.importedAt
  | none =>
    db.insertSource actor ⟨commit.source.sourceId, actor.principalId, commit.source.displayName,
      initialRevision, commit.source.createdAt, commit.importedAt⟩

/-- The foreign keys of a link. -/
def LinkReferences (row : ImportLinkRow) : Prop :=
  (∃ source ∈ db.bibliographyImportSources.find row.sourceId, source.owner = row.owner) ∧
    ∃ item ∈ db.bibliographyItems.find row.itemId, item.owner = row.owner

instance (row : ImportLinkRow) : Decidable (db.LinkReferences row) := by
  unfold LinkReferences
  infer_instance

/-- `persist_link` : the link of an external id never moves to another item. -/
def persistLink (actor : Actor) (link : BibliographyImportLink) : Except StorageError Database :=
  let new := link.toRow actor.principalId
  if new.importedItemRevision = 0 then .error .unavailable
  else if ¬db.LinkReferences new then .error .conflict
  else
    match db.bibliographyImportLinks.find (new.sourceId, new.externalItemId) with
    | none => .ok { db with bibliographyImportLinks := db.bibliographyImportLinks.upsert new }
    | some old =>
      if old.itemId = new.itemId ∧ old.owner = new.owner then
        .ok { db with bibliographyImportLinks := db.bibliographyImportLinks.upsert new }
      else .error .conflict

/-- The write of a mutation to `bibliography_items`. -/
def writeImportedItem {json : JsonCodec} (actor : Actor) :
    BibliographyImportItemMutation json → Except StorageError Database
  | .create item _ =>
    if item.owner.id ≠ actor.principalId then .error .notFound
    else if db.principals.find actor.principalId = none then .error .conflict
    else db.insertItem item.toRow
  | .update itemId csl expectedRevision _ updatedAt =>
    match db.ownedItem actor itemId expectedRevision with
    | none => .error .conflict
    | some old =>
      (db.updateBibliographyItemRow old { old with
        cslJson := csl.encoded
        updatedAt := updatedAt
        revision := old.revision + 1 }).mapError SqliteStoreError.toStorageError
  | .keep expectedRevision link =>
    match db.ownedItem actor link.itemId expectedRevision with
    | none => .error .conflict
    | some _ => .ok db

/-- One round of the loop of `apply_import`. -/
def applyMutation {json : JsonCodec} (actor : Actor) (db : Database)
    (mutation : BibliographyImportItemMutation json) : Except StorageError Database := do
  let db ← db.writeImportedItem actor mutation
  db.persistLink actor mutation.link

/-- The counters of `apply_import`. -/
def importResult {json : JsonCodec} (commit : BibliographyImportCommit json) (sourceRevision : ℕ) :
    BibliographyImportResult where
  sourceId := commit.source.sourceId
  sourceRevision := sourceRevision
  created := commit.mutations.countP fun mutation => mutation matches .create ..
  updated := commit.mutations.countP fun mutation => mutation matches .update ..
  kept := commit.mutations.countP fun mutation => mutation matches .keep ..
  excluded := commit.excluded

/-- `apply_import`. -/
def applyImport (actor : Actor) (commit : BibliographyImportCommit lib.json) :
    Except StorageError (BibliographyImportResult × Database) :=
  if commit.source.owner.id ≠ actor.principalId then .error .notFound
  else if ¬CommitIsConsistent commit then .error .conflict
  else do
    let currentState ← db.loadState lib actor
      (commit.expectedState.source.map BibliographyImportSource.sourceId)
    if ¬currentState.Same commit.expectedState then throw .conflict
    let (sourceRevision, db) ← db.persistSource actor commit
    let db ← commit.mutations.foldlM (applyMutation actor) db
    return (importResult commit sourceRevision, db)

end Database

/-! ## The service -/

namespace BibliographyImportInput

/-- The stored source an input names. -/
def sourceId (input : BibliographyImportInput) : Option BibliographyImportSourceId :=
  match input.source with
  | .new _ => none
  | .existing sourceId => some sourceId

/-- `validate_import_input`. -/
def validate (lib : ImportLibrary) (input : BibliographyImportInput) :
    Except BibliographyImportUseCaseError Unit :=
  if input.items = [] ∨ 1000 < input.items.length then .error (.invalidInput "invalid_item_count")
  else
    let validName : Bool := match input.source with
      | .new displayName =>
        let trimmed := trim displayName.toList
        trimmed ≠ [] ∧ trimmed.length ≤ maxBibliographyImportSourceNameCharacters ∧
          trimmed.any isControl = false
      | .existing _ => true
    if ¬validName then .error (.invalidInput "invalid_source_name")
    else if 8 * 1024 * 1024 < (lib.json.encode (.array input.items)).utf8ByteSize then
      .error (.invalidInput "input_too_large")
    else .ok ()

end BibliographyImportInput

section Service

variable (lib : ImportLibrary) (db : Database) (actor : Actor) (input : BibliographyImportInput)

/-- `preview_with_state`. -/
def previewWithState :
    Except BibliographyImportUseCaseError
      (BibliographyImportPreview × BibliographyImportState lib.json) := do
  input.validate lib
  let state ← (db.loadState lib actor input.sourceId).mapError
    StorageError.toBibliographyImportUseCaseError
  let state := state.canonicalized
  if input.sourceId.isSome ∧ state.source = none then throw .notFound
  let preview ← classifyImport lib input state
  return (preview, state)

/-- `is_canonical_digest`. -/
def IsCanonicalDigest (value : String) : Prop :=
  value.utf8ByteSize = 64 ∧ ∀ c ∈ value.toList, c.isDigit = true ∨ 'a' ≤ c ∧ c ≤ 'f'

instance (value : String) : Decidable (IsCanonicalDigest value) := by
  unfold IsCanonicalDigest
  have := List.decidableBAll (fun c => c.isDigit = true ∨ 'a' ≤ c ∧ c ≤ 'f') value.toList
  infer_instance

/-- The source `apply_bibliography_import` writes : a new one gets the random id `sourceId`. -/
def importSource (state : BibliographyImportState lib.json) (importedAt : ℤ)
    (sourceId : BibliographyImportSourceId) :
    Except BibliographyImportUseCaseError BibliographyImportSource :=
  match input.source, state.source with
  | .new displayName, none =>
    match BibliographyImportSource.create sourceId actor.principal
      (String.ofList (trim displayName.toList)) importedAt with
    | some source => .ok source
    | none => .error (.invalidInput "invalid_source_name")
  | .existing _, some source => .ok source
  | _, _ => .error .conflict

/-- `apply_bibliography_import` up to the transaction, at the clock reading `importedAt`. -/
def planImport (decisions : List BibliographyImportDecision) (previewToken : String)
    (importedAt : ℤ) (sourceId : BibliographyImportSourceId)
    (itemIds : ℕ → BibliographyItemId) :
    Except BibliographyImportUseCaseError (BibliographyImportCommit lib.json) := do
  let (preview, state) ← previewWithState lib db actor input
  if ¬IsCanonicalDigest previewToken then throw (.invalidInput "invalid_preview_token")
  if preview.previewToken ≠ previewToken then throw .conflict
  let source ← importSource lib actor input state importedAt sourceId
  buildCommit lib input preview state source decisions importedAt itemIds

end Service

end Marginalis
