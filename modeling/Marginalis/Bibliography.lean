import Marginalis.Attachments
import Marginalis.Json

/-!
# The library

Each principal has a library of CSL-JSON items. `ValidatedCslJson` carries what its
constructor checked, and `BibliographyItem` that its text is one of these under the item's
own citation key, so a reader of an item never meets an unchecked document. The printer and
the parser of JSON are another crate's and come in as a `JsonCodec`.

`update_owned_item` commits its write before it reads the item back : what it returns can be
an error although the item changed. It is therefore a pair of a result and a database, where
the transactions return a database in case of success only.
-/

namespace Marginalis

/-! ## CSL-JSON -/

def maxCslJsonBytes : ℕ := 131072

def maxCslStringBytes : ℕ := 16384

def maxCslKeyBytes : ℕ := 128

def maxCslDepth : ℕ := 32

def maxCitationKeyBytes : ℕ := 128

/-- The characters of a citation key and of an external id. -/
def isIdentifierChar (c : Char) : Bool := c.isAlphanum || c ∈ ['_', '.', ':', '-']

/-- `valid_identifier`. -/
def ValidIdentifier (value : String) (maximumBytes : ℕ) : Prop :=
  value ≠ "" ∧ value.utf8ByteSize ≤ maximumBytes ∧ value.toList.all isIdentifierChar = true

instance (value : String) (maximumBytes : ℕ) : Decidable (ValidIdentifier value maximumBytes) := by
  unfold ValidIdentifier
  infer_instance

mutual

/-- `validate_json_value`. -/
def validateJsonValue (depth : ℕ) : Json → Except String Unit
  | .string value =>
    if maxCslDepth < depth then .error "item_too_deep"
    else if maxCslStringBytes < value.utf8ByteSize then .error "string_too_long"
    else .ok ()
  | .array values =>
    if maxCslDepth < depth then .error "item_too_deep"
    else validateElements (depth + 1) values
  | .object values =>
    if maxCslDepth < depth then .error "item_too_deep"
    else validateFields (depth + 1) values
  | _ => if maxCslDepth < depth then .error "item_too_deep" else .ok ()

/-- The loop over an array. -/
def validateElements (depth : ℕ) : List Json → Except String Unit
  | [] => .ok ()
  | value :: values => do
    validateJsonValue depth value
    validateElements depth values

/-- The loop over an object. -/
def validateFields (depth : ℕ) : List (String × Json) → Except String Unit
  | [] => .ok ()
  | (key, value) :: fields => do
    if key = "" ∨ maxCslKeyBytes < key.utf8ByteSize ∨ key.toList.any isControl = true then
      throw "invalid_object_key"
    validateJsonValue depth value
    validateFields depth fields

end

/-- The checks of `ValidatedCslJson::new`, with the citation key of a document that passes
them. The error is the code of `InvalidBibliographyItem`. -/
def checkCslJson (json : JsonCodec) (value : Json) : Except String String :=
  match value.asObject with
  | none => .error "item_not_object"
  | some _ => do
    validateJsonValue 0 value
    match value.getStr "id" with
    | none => throw "missing_id"
    | some citationKey =>
      if ¬ValidIdentifier citationKey maxCitationKeyBytes then throw "invalid_id"
      else match value.getStr "type" with
      | none => throw "missing_type"
      | some itemType =>
        if trim itemType.toList = [] ∨ 64 < itemType.utf8ByteSize ∨
            itemType.toList.any isControl = true then
          throw "invalid_type"
        else if maxCslJsonBytes < (json.encode value).utf8ByteSize then throw "item_too_large"
        else return citationKey

theorem checkCslJson_eq_ok {json : JsonCodec} {value : Json} {key : String}
    (h : checkCslJson json value = .ok key) :
    value.getStr "id" = some key ∧ ValidIdentifier key maxCitationKeyBytes := by
  unfold checkCslJson at h
  split at h
  · cases h
  · obtain ⟨-, -, h⟩ := Except.bind_eq_ok.mp h
    split at h
    · cases h
    · next key' hid =>
      split at h
      · cases h
      · next hkey =>
        split at h
        · cases h
        · split_ifs at h
          cases h
          exact ⟨hid, not_not.mp hkey⟩

/-- A checked document is not too large. -/
theorem size_of_checkCslJson {json : JsonCodec} {value : Json} {key : String}
    (h : checkCslJson json value = .ok key) :
    (json.encode value).utf8ByteSize ≤ maxCslJsonBytes := by
  unfold checkCslJson at h
  split at h
  · cases h
  · obtain ⟨-, -, h⟩ := Except.bind_eq_ok.mp h
    split at h
    · cases h
    · split at h
      · cases h
      · split at h
        · cases h
        · split_ifs at h with htype hsize
          omega

/-- A CSL-JSON item that passed the checks. -/
structure ValidatedCslJson (json : JsonCodec) where
  citationKey : String
  encoded : String
  value : Json
  checked : checkCslJson json value = .ok citationKey
  encoded_eq : encoded = json.encode value

namespace ValidatedCslJson

variable {json : JsonCodec}

/-- `ValidatedCslJson::new`. -/
def new (json : JsonCodec) (value : Json) : Except String (ValidatedCslJson json) :=
  match h : checkCslJson json value with
  | .error code => .error code
  | .ok citationKey => .ok ⟨citationKey, json.encode value, value, h, rfl⟩

/-- The document determines its key and its text. -/
theorem eq_of_value {a b : ValidatedCslJson json} (h : a.value = b.value) : a = b := by
  obtain ⟨key, encoded, value, hkey, rfl⟩ := a
  obtain ⟨key', encoded', value', hkey', rfl⟩ := b
  obtain rfl : value = value' := h
  obtain rfl : key = key' := Except.ok.inj (hkey.symm.trans hkey')
  rfl

theorem new_eq_ok {value : Json} {csl : ValidatedCslJson json} :
    new json value = .ok csl ↔ csl.value = value := by
  unfold new
  split
  · next code h =>
    simp only [reduceCtorEq, false_iff]
    rintro rfl
    rw [csl.checked] at h
    cases h
  · rw [Except.ok.injEq]
    constructor
    · rintro rfl
      rfl
    · intro hvalue
      exact eq_of_value hvalue.symm

theorem id_eq (csl : ValidatedCslJson json) : csl.value.getStr "id" = some csl.citationKey :=
  (checkCslJson_eq_ok csl.checked).1

theorem identifier (csl : ValidatedCslJson json) :
    ValidIdentifier csl.citationKey maxCitationKeyBytes :=
  (checkCslJson_eq_ok csl.checked).2

/-- `ValidatedCslJson::from_encoded`. -/
def fromEncoded (json : JsonCodec) (citationKey encoded : String) :
    Except String (ValidatedCslJson json) :=
  match json.parse encoded with
  | none => .error "invalid_json"
  | some value => do
    let validated ← new json value
    if validated.citationKey ≠ citationKey then throw "citation_key_mismatch"
    return validated

theorem citationKey_of_fromEncoded {key encoded : String} {csl : ValidatedCslJson json}
    (h : fromEncoded json key encoded = .ok csl) : csl.citationKey = key := by
  unfold fromEncoded at h
  split at h
  · cases h
  · obtain ⟨validated, -, h⟩ := Except.bind_eq_ok.mp h
    split_ifs at h with hkey
    · cases h
    · cases h
      exact not_not.mp hkey

end ValidatedCslJson

/-- Every checked document is accepted again when its text is read back. -/
def Rereads (json : JsonCodec) : Prop :=
  ∀ csl : ValidatedCslJson json,
    ∃ read, ValidatedCslJson.fromEncoded json csl.citationKey csl.encoded = .ok read

/-! ## Items -/

/-- An item of a library. -/
structure BibliographyItem (json : JsonCodec) where
  itemId : BibliographyItemId
  owner : PrincipalRef
  citationKey : String
  cslJson : String
  createdAt : ℤ
  updatedAt : ℤ
  revision : ℕ
  positive : 0 < revision
  times : createdAt ≤ updatedAt
  csl : ∃ csl : ValidatedCslJson json, csl.citationKey = citationKey ∧ csl.encoded = cslJson

namespace BibliographyItem

variable {json : JsonCodec}

/-- A new item : first revision. -/
def create (itemId : BibliographyItemId) (owner : PrincipalRef) (csl : ValidatedCslJson json)
    (createdAt : ℤ) : BibliographyItem json where
  itemId := itemId
  owner := owner
  citationKey := csl.citationKey
  cslJson := csl.encoded
  createdAt := createdAt
  updatedAt := createdAt
  revision := initialRevision
  positive := Nat.one_pos
  times := le_refl _
  csl := ⟨csl, rfl, rfl⟩

/-- Rebuild a stored item. Its text is the one its document is printed as. -/
def restore (json : JsonCodec) (itemId : BibliographyItemId) (owner : PrincipalRef)
    (citationKey cslJson : String) (createdAt updatedAt : ℤ) (revision : ℕ)
    (positive : 0 < revision) : Except String (BibliographyItem json) :=
  if h : createdAt ≤ updatedAt then do
    let csl ← ValidatedCslJson.fromEncoded json citationKey cslJson
    return {
      itemId, owner, createdAt, updatedAt, revision, positive
      citationKey := csl.citationKey
      cslJson := csl.encoded
      times := h
      csl := ⟨csl, rfl, rfl⟩ }
  else .error "invalid_timestamp_order"

/-- The row `create_owned_item` binds. -/
def toRow (item : BibliographyItem json) : BibliographyItemRow where
  itemId := item.itemId
  owner := item.owner.id
  citationKey := item.citationKey
  cslJson := item.cslJson
  createdAt := item.createdAt
  updatedAt := item.updatedAt
  revision := item.revision

end BibliographyItem

namespace Database

variable (db : Database) {json : JsonCodec}

/-! ## The repository -/

/-- `decode_item` at a row of the view `bibliography_item_details`. -/
def decodeItem (json : JsonCodec) (row : BibliographyItemRow) (identity : Identity) :
    Except StorageError (BibliographyItem json) :=
  if h : 0 < row.revision then
    (BibliographyItem.restore json row.itemId ⟨row.owner, identity⟩ row.citationKey row.cslJson
      row.createdAt row.updatedAt row.revision h).mapError fun _ => .corruptData
  else .error .corruptData

/-- The view `bibliography_item_details` at a row : none when the owner has no primary
identity. -/
def itemDetails (row : BibliographyItemRow) : Option (BibliographyItemRow × Identity) :=
  (db.primaryIdentity row.owner).map fun identity => (row, identity)

/-- Another item of the owner has the citation key. -/
def CitationKeyTaken (new : BibliographyItemRow) : Prop :=
  ∃ row ∈ db.bibliographyItems, row.itemId ≠ new.itemId ∧ row.owner = new.owner ∧
    row.citationKey = new.citationKey

instance (new : BibliographyItemRow) : Decidable (db.CitationKeyTaken new) := by
  unfold CitationKeyTaken
  infer_instance

/-- `INSERT INTO bibliography_items` with the error the repositories make of a violation. -/
def insertItem (new : BibliographyItemRow) : Except StorageError Database :=
  if (db.bibliographyItems.find new.itemId).isSome ∨ db.CitationKeyTaken new then .error .conflict
  else (db.insertBibliographyItemRow new).mapError SqliteStoreError.toStorageError

/-- `create_owned_item`. -/
def createOwnedItem (item : BibliographyItem json) : Except StorageError Database :=
  db.insertItem item.toRow

/-- An owner's item at a revision, as the guarded writes select it. -/
def ownedItem (actor : Actor) (itemId : BibliographyItemId) (expectedRevision : ℕ) :
    Option BibliographyItemRow :=
  (db.bibliographyItems.find itemId).filter fun row =>
    row.owner = actor.principalId ∧ row.revision = expectedRevision

/-- Why a guarded write affected no row. -/
def classifyFailedItemMutation (actor : Actor) (itemId : BibliographyItemId) : StorageError :=
  match db.bibliographyItems.find itemId with
  | some row => if row.owner = actor.principalId then .conflict else .notFound
  | none => .notFound

/-- The `UPDATE` of `update_owned_item`, committed on its own. -/
def writeOwnedItem (actor : Actor) (itemId : BibliographyItemId) (csl : ValidatedCslJson json)
    (updatedAt : ℤ) (expectedRevision : ℕ) : Except StorageError Database :=
  match db.ownedItem actor itemId expectedRevision with
  | none => .error (db.classifyFailedItemMutation actor itemId)
  | some old =>
    let new := { old with
      citationKey := csl.citationKey
      cslJson := csl.encoded
      updatedAt := updatedAt
      revision := old.revision + 1 }
    if db.CitationKeyTaken new then .error .conflict
    else (db.updateBibliographyItemRow old new).mapError SqliteStoreError.toStorageError

/-- The read of `update_owned_item`. -/
def readItem (json : JsonCodec) (itemId : BibliographyItemId) :
    Except StorageError (BibliographyItem json) :=
  match (db.bibliographyItems.find itemId).bind db.itemDetails with
  | none => .error .unavailable
  | some (row, identity) => decodeItem json row identity

/-- `update_owned_item`. -/
def updateOwnedItem (actor : Actor) (itemId : BibliographyItemId) (csl : ValidatedCslJson json)
    (updatedAt : ℤ) (expectedRevision : ℕ) :
    Except StorageError (BibliographyItem json) × Database :=
  match db.writeOwnedItem actor itemId csl updatedAt expectedRevision with
  | .error error => (.error error, db)
  | .ok written => (written.readItem json itemId, written)

/-- `delete_owned_item`. -/
def deleteOwnedItem (actor : Actor) (itemId : BibliographyItemId) (expectedRevision : ℕ) :
    Except StorageError Database :=
  match db.ownedItem actor itemId expectedRevision with
  | none => .error (db.classifyFailedItemMutation actor itemId)
  | some old => .ok (db.deleteBibliographyItemRow old)

end Database

/-! ## The commands of the service -/

/-- The failures of the library service. -/
inductive BibliographyUseCaseError
  | invalidSearchQuery
  | invalidCslJson
  | notFound
  | conflict
  | unavailable
  | corruptData
  deriving DecidableEq, Repr

/-- `From<StorageError> for BibliographyUseCaseError`. -/
def StorageError.toBibliographyUseCaseError : StorageError → BibliographyUseCaseError
  | notFound => .notFound
  | conflict => .conflict
  | corruptData => .corruptData
  | retentionExpired | unavailable => .unavailable

/-- The writes of the library service. A new item gets the random id `itemId`. -/
inductive LibraryCommand
  | add (actor : Actor) (cslJson : Json) (itemId : BibliographyItemId)
  | update (actor : Actor) (itemId : BibliographyItemId) (expectedRevision : ℕ) (cslJson : Json)
  | delete (actor : Actor) (itemId : BibliographyItemId) (expectedRevision : ℕ)

namespace LibraryCommand

/-- A command of the service at the clock reading `now` : its failure, if any, and the database
afterwards. -/
def exec (json : JsonCodec) (db : Database) (now : ℤ) :
    LibraryCommand → Except BibliographyUseCaseError Unit × Database
  | add actor cslJson itemId =>
    match ValidatedCslJson.new json cslJson with
    | .error _ => (.error .invalidCslJson, db)
    | .ok validated =>
      match db.createOwnedItem (BibliographyItem.create itemId actor.principal validated now) with
      | .error error => (.error error.toBibliographyUseCaseError, db)
      | .ok written => (.ok (), written)
  | update actor itemId expectedRevision cslJson =>
    match ValidatedCslJson.new json cslJson with
    | .error _ => (.error .invalidCslJson, db)
    | .ok validated =>
      let (result, written) := db.updateOwnedItem actor itemId validated now expectedRevision
      ((result.mapError StorageError.toBibliographyUseCaseError).map fun _ => (), written)
  | delete actor itemId expectedRevision =>
    match db.deleteOwnedItem actor itemId expectedRevision with
    | .error error => (.error error.toBibliographyUseCaseError, db)
    | .ok written => (.ok (), written)

end LibraryCommand

end Marginalis
