import Marginalis.Bibliography
import Mathlib.Data.Prod.Lex
import Mathlib.Logic.Encodable.Basic
import Mathlib.Data.String.Basic

/-!
# The import of CSL-JSON files

A principal imports a file of items from a source. Each external item is linked to an item
of the library, and the link remembers the digest of the imported text and the revision the
item got. A later import compares both : the external item changed when its digest is another
one, the library's item when its revision is (`classifyEntry`).

An import is previewed and then applied. The plan of an import (`buildCommit`) turns the
classified entries and a decision for each into mutations, against the state that was read
before. The repository applies all of them in one transaction, after it read the same state
again (`applyImport`).
-/

namespace Marginalis

open Table (orderBy)

/-! ## Sources and links -/

/-- A part of the state a preview token covers. -/
inductive TokenComponent
  | text (value : String)
  | id (entityId : ℕ)
  | int (value : ℤ)
  | digest (value : ℕ)
  deriving DecidableEq, Repr

/-- The other crates the import relies on : JSON, SHA-256 of a text and of a sequence of
components, and Unicode lower case. -/
structure ImportLibrary where
  json : JsonCodec
  sha256 : String → ℕ
  sha256Hex : List TokenComponent → String
  toLowercase : List Char → List Char

def maxBibliographyImportSourceNameCharacters : ℕ := 128

def maxBibliographyExternalItemIdBytes : ℕ := 128

/-- What `BibliographyImportSource::validate` asks of a display name. -/
def ValidSourceName (displayName : String) : Prop :=
  displayName ≠ "" ∧ trim displayName.toList = displayName.toList ∧
    displayName.toList.length ≤ maxBibliographyImportSourceNameCharacters ∧
    displayName.toList.any isControl = false

instance (displayName : String) : Decidable (ValidSourceName displayName) := by
  unfold ValidSourceName
  infer_instance

/-- Where a principal imports from. -/
structure BibliographyImportSource where
  sourceId : BibliographyImportSourceId
  owner : PrincipalRef
  displayName : String
  revision : ℕ
  createdAt : ℤ
  lastImportedAt : ℤ
  positive : 0 < revision
  name : ValidSourceName displayName
  times : createdAt ≤ lastImportedAt
  deriving DecidableEq

namespace BibliographyImportSource

/-- `BibliographyImportSource::restore`. -/
def restore (sourceId : BibliographyImportSourceId) (owner : PrincipalRef) (displayName : String)
    (revision : ℕ) (createdAt lastImportedAt : ℤ) (positive : 0 < revision) :
    Option BibliographyImportSource :=
  if h : ValidSourceName displayName ∧ createdAt ≤ lastImportedAt then
    some ⟨sourceId, owner, displayName, revision, createdAt, lastImportedAt, positive, h.1, h.2⟩
  else none

/-- `BibliographyImportSource::create`. -/
def create (sourceId : BibliographyImportSourceId) (owner : PrincipalRef) (displayName : String)
    (importedAt : ℤ) : Option BibliographyImportSource :=
  restore sourceId owner displayName initialRevision importedAt importedAt Nat.one_pos

/-- The row of `bibliography_import_sources`. -/
def toRow (source : BibliographyImportSource) : ImportSourceRow where
  sourceId := source.sourceId
  owner := source.owner.id
  displayName := source.displayName
  revision := source.revision
  createdAt := source.createdAt
  lastImportedAt := source.lastImportedAt

end BibliographyImportSource

/-- An external item with the item it was imported to, and the state of both then. -/
structure BibliographyImportLink where
  sourceId : BibliographyImportSourceId
  externalItemId : String
  itemId : BibliographyItemId
  importedDigest : ℕ
  importedItemRevision : ℕ
  identifier : ValidIdentifier externalItemId maxBibliographyExternalItemIdBytes
  deriving DecidableEq

/-- `BibliographyImportLink::new`. -/
def BibliographyImportLink.new (sourceId : BibliographyImportSourceId) (externalItemId : String)
    (itemId : BibliographyItemId) (importedDigest importedItemRevision : ℕ) :
    Option BibliographyImportLink :=
  if h : ValidIdentifier externalItemId maxBibliographyExternalItemIdBytes then
    some ⟨sourceId, externalItemId, itemId, importedDigest, importedItemRevision, h⟩
  else none

/-- The row of `bibliography_import_links`. -/
def BibliographyImportLink.toRow (link : BibliographyImportLink) (owner : PrincipalId) :
    ImportLinkRow where
  sourceId := link.sourceId
  externalItemId := link.externalItemId
  itemId := link.itemId
  owner := owner
  importedDigest := link.importedDigest
  importedItemRevision := link.importedItemRevision

/-! ## State, input and preview -/

/-- What an import reads : the source with its links, and the whole library of its owner. -/
structure BibliographyImportState (json : JsonCodec) where
  source : Option BibliographyImportSource
  links : List BibliographyImportLink
  items : List (BibliographyItem json)

namespace BibliographyImportState

variable {json : JsonCodec}

/-- `PartialEq for BibliographyImportState`. Owners are equal when their ids are, so sources
and items are equal when their rows are. -/
def Same (a b : BibliographyImportState json) : Prop :=
  a.source.map BibliographyImportSource.toRow = b.source.map BibliographyImportSource.toRow ∧
    a.links = b.links ∧ a.items.map BibliographyItem.toRow = b.items.map BibliographyItem.toRow

instance (a b : BibliographyImportState json) : Decidable (a.Same b) := by
  unfold Same
  infer_instance

/-- `canonicalized`. -/
def canonicalized (state : BibliographyImportState json) : BibliographyImportState json :=
  { state with
    links := orderBy (fun link => toLex (link.sourceId.entityId, link.externalItemId)) state.links
    items := orderBy (fun item => item.itemId.entityId) state.items }

end BibliographyImportState

inductive BibliographyImportSourceSelection
  | new (displayName : String)
  | existing (sourceId : BibliographyImportSourceId)
  deriving DecidableEq, Repr

structure BibliographyImportInput where
  source : BibliographyImportSourceSelection
  items : List Json

inductive BibliographyImportClassification
  | create | updateFromExternal | unchanged | keepLocal | conflict | duplicateCandidate | rejected
  deriving DecidableEq, Repr

/-- An item of the library that could be the external one. -/
structure BibliographyImportCandidate where
  itemId : BibliographyItemId
  citationKey : String
  title : Option String
  revision : ℕ
  matchedBy : List String
  deriving DecidableEq, Repr

structure BibliographyImportEntry where
  position : ℕ
  externalItemId : Option String
  citationKey : Option String
  classification : BibliographyImportClassification
  itemId : Option BibliographyItemId
  itemRevision : Option ℕ
  currentCslJson : Option Json
  candidates : List BibliographyImportCandidate
  rejectionCode : Option String

structure BibliographyImportPreview where
  sourceId : Option BibliographyImportSourceId
  sourceRevision : Option ℕ
  previewToken : String
  entries : List BibliographyImportEntry

inductive BibliographyImportDecisionKind
  | applySuggested | createSeparate | keepLocal | useExternal | linkExistingKeepLocal
  | linkExistingUseExternal | exclude
  deriving DecidableEq, Repr

structure BibliographyImportDecision where
  position : ℕ
  kind : BibliographyImportDecisionKind
  candidateItemId : Option BibliographyItemId
  deriving DecidableEq, Repr

/-! ## Plan and result -/

inductive BibliographyImportItemMutation (json : JsonCodec)
  | create (item : BibliographyItem json) (link : BibliographyImportLink)
  | update (itemId : BibliographyItemId) (csl : ValidatedCslJson json) (expectedRevision : ℕ)
      (link : BibliographyImportLink) (updatedAt : ℤ)
  | keep (expectedRevision : ℕ) (link : BibliographyImportLink)

namespace BibliographyImportItemMutation

variable {json : JsonCodec}

def link : BibliographyImportItemMutation json → BibliographyImportLink
  | create _ link | update _ _ _ link _ | keep _ link => link

/-- The item a mutation writes or links to. -/
def targetItemId : BibliographyImportItemMutation json → BibliographyItemId
  | create item _ => item.itemId
  | update itemId .. => itemId
  | keep _ link => link.itemId

end BibliographyImportItemMutation

structure BibliographyImportCommit (json : JsonCodec) where
  source : BibliographyImportSource
  expectedState : BibliographyImportState json
  importedAt : ℤ
  mutations : List (BibliographyImportItemMutation json)
  excluded : ℕ

structure BibliographyImportResult where
  sourceId : BibliographyImportSourceId
  sourceRevision : ℕ
  created : ℕ
  updated : ℕ
  kept : ℕ
  excluded : ℕ
  deriving DecidableEq, Repr

inductive BibliographyImportUseCaseError
  | invalidInput (code : String)
  | invalidDecision
  | notFound
  | conflict
  | corruptData
  | unavailable
  deriving DecidableEq, Repr

/-- `From<StorageError> for BibliographyImportUseCaseError`. -/
def StorageError.toBibliographyImportUseCaseError :
    StorageError → BibliographyImportUseCaseError
  | notFound => .notFound
  | conflict => .conflict
  | corruptData => .corruptData
  | retentionExpired | unavailable => .unavailable

/-! ## The preview -/

/-- An item of the input that passed the checks. -/
structure ValidatedItem (lib : ImportLibrary) where
  externalItemId : String
  csl : ValidatedCslJson lib.json
  digest : ℕ

/-- `validate_item`. -/
def validateItem (lib : ImportLibrary) (value : Json) : Except String (ValidatedItem lib) :=
  (ValidatedCslJson.new lib.json value).map fun csl =>
    ⟨csl.citationKey, csl, lib.sha256 csl.encoded⟩

/-- `normalized_match`. -/
def normalizedMatch (lib : ImportLibrary) (value : String) : Option (List Char) :=
  let value := lib.toLowercase (trim value.toList)
  if value = [] then none else some value

/-- Whether two documents agree in an entry, up to case. -/
def FieldMatches (lib : ImportLibrary) (input stored : Json) (key : String) : Prop :=
  (input.getStr key).bind (normalizedMatch lib) ≠ none ∧
    (input.getStr key).bind (normalizedMatch lib) = (stored.getStr key).bind (normalizedMatch lib)

instance (lib : ImportLibrary) (input stored : Json) :
    DecidablePred (FieldMatches lib input stored) := fun key => by
  unfold FieldMatches
  infer_instance

/-- `matching_fields`, each identifier beside the name it is reported under. -/
def matchingFields (lib : ImportLibrary) (input stored : Json) (inputKey storedKey : String) :
    List String :=
  (if inputKey = storedKey then ["citation_key"] else []) ++
    ([("DOI", "doi"), ("ISBN", "isbn"), ("PMID", "pmid"), ("PMCID", "pmcid"), ("URL", "url"),
        ("title", "title")].filter fun field => FieldMatches lib input stored field.1).map Prod.snd

/-- `duplicate_candidates`. -/
def duplicateCandidates (lib : ImportLibrary) (input : Json) (citationKey : String)
    (items : List (BibliographyItem lib.json)) : List BibliographyImportCandidate :=
  orderBy (fun candidate => candidate.itemId.entityId) <| items.filterMap fun item => do
    let stored ← lib.json.parse item.cslJson
    let matchedBy := matchingFields lib input stored citationKey item.citationKey
    if matchedBy = [] then none
    else some ⟨item.itemId, item.citationKey, stored.getStr "title", item.revision, matchedBy⟩

/-- `rejected_entry`. -/
def rejectedEntry (position : ℕ) (code : String) : BibliographyImportEntry where
  position := position
  externalItemId := none
  citationKey := none
  classification := .rejected
  itemId := none
  itemRevision := none
  currentCslJson := none
  candidates := []
  rejectionCode := some code

/-- What the two comparisons of `classify_entry` make of a linked item. -/
def classifyLinked (externalChanged localChanged : Bool) : BibliographyImportClassification :=
  match externalChanged, localChanged with
  | false, false => .unchanged
  | true, false => .updateFromExternal
  | false, true => .keepLocal
  | true, true => .conflict

/-- The entry of an external item that a link leads from. -/
def classifyLinkedEntry (lib : ImportLibrary) (position : ℕ) (validated : ValidatedItem lib)
    (link : BibliographyImportLink) (items : List (BibliographyItem lib.json)) :
    Except BibliographyImportUseCaseError BibliographyImportEntry :=
  match items.find? fun item => item.itemId = link.itemId with
  | none => .ok (rejectedEntry position "stored_link_target_missing")
  | some item =>
    match lib.json.parse item.cslJson with
    | none => .error .corruptData
    | some currentCslJson => .ok {
        position := position
        externalItemId := some validated.externalItemId
        citationKey := some item.citationKey
        classification := classifyLinked (validated.digest ≠ link.importedDigest)
          (item.revision ≠ link.importedItemRevision)
        itemId := some item.itemId
        itemRevision := some item.revision
        currentCslJson := some currentCslJson
        candidates := []
        rejectionCode := none }

/-- The entry of an external item without a link. -/
def classifyNewEntry (lib : ImportLibrary) (position : ℕ) (value : Json)
    (validated : ValidatedItem lib) (items : List (BibliographyItem lib.json)) :
    BibliographyImportEntry :=
  let candidates := duplicateCandidates lib value validated.csl.citationKey items
  { position := position
    externalItemId := some validated.externalItemId
    citationKey := some validated.csl.citationKey
    classification := if candidates = [] then .create else .duplicateCandidate
    itemId := none
    itemRevision := none
    currentCslJson := none
    candidates := candidates
    rejectionCode := none }

/-- `classify_entry`, with the external ids of the entries before and after it. -/
def classifyEntry (lib : ImportLibrary) (position : ℕ) (value : Json)
    (state : BibliographyImportState lib.json) (externalIds : List String) :
    Except BibliographyImportUseCaseError (BibliographyImportEntry × List String) :=
  match validateItem lib value with
  | .error code => .ok (rejectedEntry position code, externalIds)
  | .ok validated =>
    if validated.externalItemId ∈ externalIds then
      .ok (rejectedEntry position "duplicate_external_item_id", externalIds)
    else
      match state.links.find? fun link => link.externalItemId = validated.externalItemId with
      | some link =>
        (classifyLinkedEntry lib position validated link state.items).map fun entry =>
          (entry, validated.externalItemId :: externalIds)
      | none =>
        .ok (classifyNewEntry lib position value validated state.items,
          validated.externalItemId :: externalIds)

/-- The entries of the items from `position` on. -/
def classifyEntries (lib : ImportLibrary) (state : BibliographyImportState lib.json) :
    ℕ → List String → List Json →
      Except BibliographyImportUseCaseError (List BibliographyImportEntry)
  | _, _, [] => .ok []
  | position, externalIds, value :: values => do
    let (entry, externalIds) ← classifyEntry lib position value state externalIds
    let entries ← classifyEntries lib state (position + 1) externalIds values
    return entry :: entries

/-- The components of the state token, in the order they are hashed in. -/
def importStateComponents (lib : ImportLibrary) (input : BibliographyImportInput)
    (state : BibliographyImportState lib.json) : List TokenComponent :=
  .text "marginalis-bibliography-import-preview-1" ::
    (match input.source with
      | .new displayName => [.text "new", .text displayName]
      | .existing sourceId => [.text "existing", .id sourceId.entityId]) ++
    [.text (lib.json.encode (.array input.items))] ++
    (match state.source with
      | some source =>
        [.id source.sourceId.entityId, .text source.owner.primaryIdentity.issuer,
          .text source.owner.primaryIdentity.subject, .text "csl_json_file",
          .text source.displayName, .int source.revision, .int source.createdAt,
          .int source.lastImportedAt]
      | none => [.text "no-source"]) ++
    (state.canonicalized.links.flatMap fun link =>
      [.id link.sourceId.entityId, .text link.externalItemId, .id link.itemId.entityId,
        .digest link.importedDigest, .int link.importedItemRevision]) ++
    state.canonicalized.items.flatMap fun item => [.id item.itemId.entityId, .int item.revision]

/-- `import_state_token`. -/
def importStateToken (lib : ImportLibrary) (input : BibliographyImportInput)
    (state : BibliographyImportState lib.json) : String :=
  lib.sha256Hex (importStateComponents lib input state)

/-- `classify_import`. -/
def classifyImport (lib : ImportLibrary) (input : BibliographyImportInput)
    (state : BibliographyImportState lib.json) :
    Except BibliographyImportUseCaseError BibliographyImportPreview := do
  let entries ← classifyEntries lib state 0 [] input.items
  return {
    sourceId := state.source.map BibliographyImportSource.sourceId
    sourceRevision := state.source.map BibliographyImportSource.revision
    previewToken := importStateToken lib input state
    entries := entries }

/-! ## The plan -/

section Plan

variable (lib : ImportLibrary)

/-- `link`. -/
def importLink (source : BibliographyImportSource) (externalItemId : String)
    (itemId : BibliographyItemId) (digest revision : ℕ) :
    Except BibliographyImportUseCaseError BibliographyImportLink :=
  match BibliographyImportLink.new source.sourceId externalItemId itemId digest revision with
  | some link => .ok link
  | none => .error (.invalidInput "invalid_external_item_id")

/-- `create_mutation`. -/
def createMutation (validated : ValidatedItem lib) (source : BibliographyImportSource)
    (importedAt : ℤ) (itemId : BibliographyItemId) :
    Except BibliographyImportUseCaseError (BibliographyImportItemMutation lib.json) := do
  let item := BibliographyItem.create itemId source.owner validated.csl importedAt
  let link ← importLink source validated.externalItemId item.itemId validated.digest item.revision
  return .create item link

/-- `update_mutation` : the external document under the key of the item. -/
def updateMutation (entry : BibliographyImportEntry) (validated : ValidatedItem lib)
    (source : BibliographyImportSource) (importedAt : ℤ) :
    Except BibliographyImportUseCaseError (BibliographyImportItemMutation lib.json) := do
  match entry.itemId, entry.itemRevision, entry.citationKey with
  | some itemId, some revision, some citationKey =>
    match lib.json.parse validated.csl.encoded with
    | none => throw (.invalidInput "invalid_json")
    | some value =>
      match value.asObject with
      | none => throw (.invalidInput "item_not_object")
      | some object =>
        let csl ← (ValidatedCslJson.new lib.json
          (.object (Json.insertField "id" (.string citationKey) object))).mapError
            fun _ => .invalidInput "invalid_csl_json"
        let link ← importLink source validated.externalItemId itemId validated.digest (revision + 1)
        return .update itemId csl revision link importedAt
  | _, _, _ => throw .conflict

/-- `keep_mutation`. -/
def keepMutation (entry : BibliographyImportEntry) (validated : ValidatedItem lib)
    (source : BibliographyImportSource) :
    Except BibliographyImportUseCaseError (BibliographyImportItemMutation lib.json) := do
  match entry.itemId, entry.itemRevision with
  | some itemId, some revision =>
    let link ← importLink source validated.externalItemId itemId validated.digest revision
    return .keep revision link
  | _, _ => throw .conflict

/-- `can_create_separate`. -/
def canCreateSeparate (entry : BibliographyImportEntry) : Bool :=
  !entry.candidates.any fun candidate =>
    candidate.matchedBy.any fun field => field == "citation_key"

/-- The entry with its candidate in place of a linked item. -/
def BibliographyImportEntry.linkedTo (entry : BibliographyImportEntry)
    (candidate : BibliographyItem lib.json) : BibliographyImportEntry :=
  { entry with
    itemId := some candidate.itemId
    itemRevision := some candidate.revision
    currentCslJson := lib.json.parse candidate.cslJson
    citationKey := some candidate.citationKey }

/-- `link_candidate_mutation`. -/
def linkCandidateMutation (entry : BibliographyImportEntry) (decision : BibliographyImportDecision)
    (validated : ValidatedItem lib) (items : List (BibliographyItem lib.json))
    (source : BibliographyImportSource) (importedAt : ℤ) :
    Except BibliographyImportUseCaseError (BibliographyImportItemMutation lib.json) :=
  match decision.candidateItemId with
  | none => .error .invalidDecision
  | some candidateId =>
    if entry.candidates.any fun candidate => candidate.itemId = candidateId then
      match items.find? fun item => item.itemId = candidateId with
      | none => .error .conflict
      | some candidate =>
        if decision.kind = .linkExistingUseExternal then
          updateMutation lib (entry.linkedTo lib candidate) validated source importedAt
        else keepMutation lib (entry.linkedTo lib candidate) validated source
    else .error .invalidDecision

/-- `mutation_for_decision`. A new item gets the random id `itemId`. -/
def mutationForDecision (entry : BibliographyImportEntry) (decision : BibliographyImportDecision)
    (validated : ValidatedItem lib) (items : List (BibliographyItem lib.json))
    (source : BibliographyImportSource) (importedAt : ℤ) (itemId : BibliographyItemId) :
    Except BibliographyImportUseCaseError (BibliographyImportItemMutation lib.json) :=
  match entry.classification, decision.kind with
  | .create, .applySuggested => createMutation lib validated source importedAt itemId
  | .duplicateCandidate, .createSeparate =>
    if canCreateSeparate entry then createMutation lib validated source importedAt itemId
    else .error .invalidDecision
  | .updateFromExternal, .applySuggested | .conflict, .useExternal =>
    updateMutation lib entry validated source importedAt
  | .unchanged, .applySuggested | .keepLocal, .applySuggested | .conflict, .keepLocal =>
    keepMutation lib entry validated source
  | .duplicateCandidate, .linkExistingKeepLocal | .duplicateCandidate, .linkExistingUseExternal =>
    linkCandidateMutation lib entry decision validated items source importedAt
  | _, _ => .error .invalidDecision

/-- A decision names a candidate. -/
def BibliographyImportDecisionKind.candidateRequired : BibliographyImportDecisionKind → Bool
  | linkExistingKeepLocal | linkExistingUseExternal => true
  | _ => false

/-- What the loop of `build_commit` makes of one entry : none when it is excluded. -/
def entryMutation (input : BibliographyImportInput) (items : List (BibliographyItem lib.json))
    (source : BibliographyImportSource) (decisions : List BibliographyImportDecision)
    (importedAt : ℤ) (itemIds : ℕ → BibliographyItemId) (entry : BibliographyImportEntry) :
    Except BibliographyImportUseCaseError (Option (BibliographyImportItemMutation lib.json)) :=
  match decisions.find? fun decision => decision.position = entry.position with
  | none => .error .invalidDecision
  | some decision =>
    if decision.kind.candidateRequired ≠ decision.candidateItemId.isSome then
      .error .invalidDecision
    else if decision.kind = .exclude then .ok none
    else if entry.classification = .rejected then .error .invalidDecision
    else do
      let validated ← (validateItem lib (input.items.getD entry.position .null)).mapError
        BibliographyImportUseCaseError.invalidInput
      let mutation ← mutationForDecision lib entry decision validated items source importedAt
        (itemIds entry.position)
      return some mutation

/-- The loop of `build_commit`, after the entries whose items are `targets` : the mutations and
the number of excluded entries. -/
def buildMutations (input : BibliographyImportInput) (items : List (BibliographyItem lib.json))
    (source : BibliographyImportSource) (decisions : List BibliographyImportDecision)
    (importedAt : ℤ) (itemIds : ℕ → BibliographyItemId) :
    List BibliographyItemId → List BibliographyImportEntry →
      Except BibliographyImportUseCaseError (List (BibliographyImportItemMutation lib.json) × ℕ)
  | _, [] => .ok ([], 0)
  | targets, entry :: entries => do
    match ← entryMutation lib input items source decisions importedAt itemIds entry with
    | none =>
      let (mutations, excluded) ← buildMutations input items source decisions importedAt itemIds
        targets entries
      return (mutations, excluded + 1)
    | some mutation =>
      if mutation.targetItemId ∈ targets then throw .invalidDecision
      let (mutations, excluded) ← buildMutations input items source decisions importedAt itemIds
        (mutation.targetItemId :: targets) entries
      return (mutation :: mutations, excluded)

/-- `build_commit`. A new item at a position gets the random id of that position. -/
def buildCommit (input : BibliographyImportInput) (preview : BibliographyImportPreview)
    (expectedState : BibliographyImportState lib.json) (source : BibliographyImportSource)
    (decisions : List BibliographyImportDecision) (importedAt : ℤ)
    (itemIds : ℕ → BibliographyItemId) :
    Except BibliographyImportUseCaseError (BibliographyImportCommit lib.json) :=
  if ¬(decisions.map BibliographyImportDecision.position).Nodup then .error .invalidDecision
  else do
    let (mutations, excluded) ← buildMutations lib input expectedState.items source decisions
      importedAt itemIds [] preview.entries
    if decisions.length ≠ preview.entries.length ∨ mutations.isEmpty then throw .invalidDecision
    return ⟨source, expectedState, importedAt, mutations, excluded⟩

end Plan

/-! ## A library of known documents -/

/-- A text as a number, with its characters as digits. -/
def textNumber (text : String) : ℕ :=
  text.toList.foldl (fun n c => n * 0x110000 + (c.toNat + 1)) 0

def TokenComponent.toNumber : TokenComponent → ℕ
  | text value => 4 * textNumber value
  | id entityId => 4 * entityId + 3
  | int value => 4 * Encodable.encode value + 1
  | digest value => 4 * value + 2

/-- The lowest 64 hexadecimal digits of a number. -/
def hexDigits64 (n : ℕ) : String :=
  String.ofList ((List.range 64).map fun i => Nat.digitChar (n / 16 ^ (63 - i) % 16))

/-- The compact printer on the given documents, and a short text for any other. -/
def sampleEncode (documents : List Json) (value : Json) : String :=
  if ∃ document ∈ documents, document.render = value.render ∧
      document.getStr "id" = value.getStr "id" then value.render
  else "#" ++ (value.getStr "id").getD ""

/-- A parser that knows the given documents, and reads a short text as an article. -/
def sampleParse (documents : List Json) (text : String) : Option Json :=
  match documents.find? fun document => document.render = text with
  | some document => some document
  | none =>
    match text.toList with
    | '#' :: key =>
      some (.object [("id", .string (String.ofList key)), ("type", .string "article")])
    | _ => none

def sampleJsonCodec (documents : List Json) : JsonCodec where
  encode := sampleEncode documents
  parse := sampleParse documents

/-- The short document of a citation key is a checked one. -/
theorem checkCslJson_short {json : JsonCodec} {key : String}
    (hkey : ValidIdentifier key maxCitationKeyBytes) {value : Json}
    (hvalue : value = .object [("id", .string key), ("type", .string "article")])
    (hsize : (json.encode value).utf8ByteSize ≤ maxCslJsonBytes) :
    checkCslJson json value = .ok key := by
  have hbytes : key.utf8ByteSize ≤ maxCitationKeyBytes := hkey.2.1
  have hlong : ¬maxCslStringBytes < key.utf8ByteSize := by
    unfold maxCslStringBytes
    unfold maxCitationKeyBytes at hbytes
    omega
  have hfields : validateJsonValue 0 value = .ok () := by
    have hid : ¬("id" = "" ∨ maxCslKeyBytes < "id".utf8ByteSize ∨
        "id".toList.any isControl = true) := by decide +kernel
    have htype : ¬("type" = "" ∨ maxCslKeyBytes < "type".utf8ByteSize ∨
        "type".toList.any isControl = true) := by decide +kernel
    have harticle : ¬maxCslStringBytes < "article".utf8ByteSize := by decide +kernel
    have hdepth : ¬maxCslDepth < 0 ∧ ¬maxCslDepth < 0 + 1 := by decide
    rw [hvalue, validateJsonValue, if_neg hdepth.1, validateFields, validateFields, validateFields,
      if_neg hid, if_neg htype, validateJsonValue, validateJsonValue, if_neg hdepth.2, if_neg hlong,
      if_neg hdepth.2, if_neg harticle]
    rfl
  have hid : value.getStr "id" = some key := by
    rw [hvalue]
    rfl
  have htype : value.getStr "type" = some "article" := by
    rw [hvalue]
    rfl
  have hobject : ∃ fields, value.asObject = some fields := by
    rw [hvalue]
    exact ⟨_, rfl⟩
  obtain ⟨fields, hobject⟩ := hobject
  have harticle : ¬(trim "article".toList = [] ∨ 64 < "article".utf8ByteSize ∨
      "article".toList.any isControl = true) := by decide +kernel
  unfold checkCslJson
  simp only [hobject, hfields, hid, htype, not_not.mpr hkey, if_false, harticle, bind, Except.bind]
  rw [if_neg (by omega)]
  rfl

/-- Every document the sample printer prints can be read back. -/
theorem rereads_sampleJsonCodec {documents : List Json}
    (hchecked : ∀ document ∈ documents, ∃ key,
      checkCslJson (sampleJsonCodec documents) document = .ok key)
    (hhead : ∀ document ∈ documents, document.render.toList.head? ≠ some '#')
    (hids : ∀ a ∈ documents, ∀ b ∈ documents, a.render = b.render →
      a.getStr "id" = b.getStr "id") : Rereads (sampleJsonCodec documents) := by
  intro csl
  obtain ⟨read, key, hparse, hcheck, hkey⟩ : ∃ read key,
      sampleParse documents csl.encoded = some read ∧
        checkCslJson (sampleJsonCodec documents) read = .ok key ∧ key = csl.citationKey := by
    rw [csl.encoded_eq]
    show ∃ read key, sampleParse documents (sampleEncode documents csl.value) = some read ∧ _
    by_cases hknown : ∃ document ∈ documents, document.render = csl.value.render ∧
        document.getStr "id" = csl.value.getStr "id"
    · obtain ⟨document, hdocument, hrender, hid⟩ := hknown
      rw [sampleEncode, if_pos ⟨document, hdocument, hrender, hid⟩]
      unfold sampleParse
      split
      · next found hfound =>
        have hmem := List.mem_of_find?_eq_some hfound
        have hsame : found.render = csl.value.render := by simpa using List.find?_some hfound
        obtain ⟨key, hkey⟩ := hchecked found hmem
        refine ⟨found, key, rfl, hkey, ?_⟩
        have hfoundId := hids found hmem document hdocument (hsame.trans hrender.symm)
        rw [(checkCslJson_eq_ok hkey).1, hid, csl.id_eq] at hfoundId
        exact Option.some.inj hfoundId
      · next hnone => simpa [hrender] using List.find?_eq_none.mp hnone document hdocument
    · rw [sampleEncode, if_neg hknown, csl.id_eq, Option.getD_some]
      have htext : ("#" ++ csl.citationKey).toList = '#' :: csl.citationKey.toList := by simp
      unfold sampleParse
      split
      · next found hfound =>
        have hrender : found.render = "#" ++ csl.citationKey := by
          simpa using List.find?_some hfound
        have hfirst := hhead found (List.mem_of_find?_eq_some hfound)
        rw [hrender, htext] at hfirst
        exact absurd rfl hfirst
      · rw [htext]
        refine ⟨_, csl.citationKey, rfl, ?_, rfl⟩
        rw [String.ofList_toList]
        refine checkCslJson_short csl.identifier rfl ?_
        show (sampleEncode documents _).utf8ByteSize ≤ maxCslJsonBytes
        unfold sampleEncode
        split
        · next hknown' =>
          obtain ⟨document, hdocument, hrender, hid⟩ := hknown'
          obtain ⟨key, hkey⟩ := hchecked document hdocument
          have hsize := size_of_checkCslJson hkey
          have hencode : (sampleJsonCodec documents).encode document = document.render :=
            if_pos ⟨document, hdocument, rfl, rfl⟩
          rw [hencode, hrender] at hsize
          exact hsize
        · have hbytes : csl.citationKey.utf8ByteSize ≤ maxCitationKeyBytes := csl.identifier.2.1
          show ("#" ++ csl.citationKey).utf8ByteSize ≤ maxCslJsonBytes
          have hone : "#".utf8ByteSize = 1 := by decide +kernel
          rw [String.utf8ByteSize_append, hone]
          unfold maxCslJsonBytes
          unfold maxCitationKeyBytes at hbytes
          omega
  unfold ValidatedCslJson.fromEncoded
  have hparse' : (sampleJsonCodec documents).parse csl.encoded = some read := hparse
  rw [hparse']
  set validated : ValidatedCslJson (sampleJsonCodec documents) := ⟨key, _, read, hcheck, rfl⟩
  have hnew : ValidatedCslJson.new (sampleJsonCodec documents) read = .ok validated :=
    ValidatedCslJson.new_eq_ok.mpr rfl
  dsimp only
  rw [hnew]
  refine ⟨validated, Except.bind_eq_ok.mpr ⟨validated, rfl, ?_⟩⟩
  rw [if_neg (not_not.mpr hkey)]
  rfl

/-- The other crates in the runs below, with a parser that knows the documents. -/
def sampleImportLibrary (documents : List Json) : ImportLibrary where
  json := sampleJsonCodec documents
  sha256 := textNumber
  sha256Hex components :=
    hexDigits64 (components.foldl (fun n component => n * 1000003 + component.toNumber) 0)
  toLowercase := List.map Char.toLower

/-- An article in the runs below. -/
def sampleArticle (key title : String) : Json :=
  .object [("id", .string key), ("title", .string title), ("type", .string "article")]

end Marginalis
