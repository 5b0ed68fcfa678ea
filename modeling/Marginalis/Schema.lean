import Marginalis.Table
import Marginalis.Domain

/-!
# The SQLite schema

One row type per table, with the columns of `schema.sql` under their own names, and
`Database`, the record of all tables. A primary key is the `Keyed` instance of the row
type and can not be violated. A `CHECK` that ties columns together is carried by the type
where an inductive can say it (`ProjectionState`, `SubscriptionState`, `ReviewColumns`), and
is a decidable predicate of the row otherwise (`NoteRow.Check`).

Two columns are left out because nothing below reads them : the random `event_id` of a
change, and the JSON encoding of a list, which is the list.
-/

namespace Marginalis

/-! ## Failures -/

/-- Why a transaction was rolled back. -/
inductive SqliteStoreError
  | notFound
  | conflict
  | archiveTargetNotEmpty
  | corruptData
  | database
  deriving DecidableEq, Repr

/-- The failures the repositories report to the application. -/
inductive StorageError
  | notFound
  | conflict
  | retentionExpired
  | corruptData
  | unavailable
  deriving DecidableEq, Repr

/-- `From<SqliteStoreError> for StorageError`. -/
def SqliteStoreError.toStorageError : SqliteStoreError → StorageError
  | notFound => .notFound
  | conflict => .conflict
  | archiveTargetNotEmpty | corruptData => .corruptData
  | database => .unavailable

/-! ## Principals -/

structure PrincipalRow where
  principalId : PrincipalId
  deriving DecidableEq, Repr

instance : Keyed PrincipalRow PrincipalId := ⟨PrincipalRow.principalId⟩

structure IdentityRow where
  identityId : ℕ
  principalId : PrincipalId
  identity : Identity
  isPrimary : Bool
  deriving DecidableEq, Repr

instance : Keyed IdentityRow ℕ := ⟨IdentityRow.identityId⟩

/-! ## Notes and their history -/

/-- The three review columns, null together. -/
structure ReviewColumns where
  reviewedRevision : ℕ
  reviewedAt : ℤ
  reviewer : PrincipalId
  deriving DecidableEq, Repr

structure NoteRow where
  noteId : NoteId
  creator : PrincipalId
  title : String
  source : String
  tags : List String
  createdAt : ℤ
  updatedAt : ℤ
  revision : ℕ
  deletedAt : Option ℤ
  createdVia : NoteCreationSource
  reviewTrackingKnown : Bool
  review : Option ReviewColumns
  deriving DecidableEq, Repr

instance : Keyed NoteRow NoteId := ⟨NoteRow.noteId⟩

/-- The `CHECK`s of `notes`. -/
def NoteRow.Check (row : NoteRow) : Prop :=
  0 < row.revision ∧ ∀ review ∈ row.review,
    row.reviewTrackingKnown = true ∧ 0 < review.reviewedRevision ∧
      review.reviewedRevision ≤ row.revision ∧ row.createdAt ≤ review.reviewedAt ∧
      review.reviewedAt ≤ row.updatedAt ∧ review.reviewer = row.creator

instance (row : NoteRow) : Decidable row.Check := by
  unfold NoteRow.Check
  infer_instance

/-- The state of a note right after one of its revisions was committed. -/
structure NoteRevisionRow where
  noteId : NoteId
  revision : ℕ
  changedAt : ℤ
  changedBy : PrincipalId
  changeKind : NoteRevisionKind
  title : String
  source : String
  tags : List String
  deletedAt : Option ℤ
  reviewTrackingKnown : Bool
  review : Option ReviewColumns
  deriving DecidableEq, Repr

instance : Keyed NoteRevisionRow (NoteId × ℕ) := ⟨fun row => (row.noteId, row.revision)⟩

/-- The `CHECK`s of `note_revisions`. -/
def NoteRevisionRow.Check (row : NoteRevisionRow) : Prop :=
  0 < row.revision ∧ ∀ review ∈ row.review,
    row.reviewTrackingKnown = true ∧ 0 < review.reviewedRevision ∧
      review.reviewedRevision ≤ row.revision ∧ review.reviewedAt ≤ row.changedAt

instance (row : NoteRevisionRow) : Decidable row.Check := by
  unfold NoteRevisionRow.Check
  infer_instance

inductive AttachmentMediaType
  | png | jpeg | webp
  deriving DecidableEq, Repr

/-- An image that belongs to a note. -/
structure AttachmentRow where
  attachmentId : AttachmentId
  noteId : NoteId
  fileName : String
  mediaType : AttachmentMediaType
  byteLength : ℕ
  sha256 : ℕ
  content : List UInt8
  createdAt : ℤ
  createdBy : PrincipalId
  deriving DecidableEq, Repr

instance : Keyed AttachmentRow AttachmentId := ⟨AttachmentRow.attachmentId⟩

/-- A revision shows an attachment. -/
structure RevisionAttachmentRow where
  noteId : NoteId
  revision : ℕ
  attachmentId : AttachmentId
  deriving DecidableEq, Repr

instance : Keyed RevisionAttachmentRow RevisionAttachmentRow := ⟨id⟩

structure ReferenceRow where
  sourceNoteId : NoteId
  targetNoteId : NoteId
  deriving DecidableEq, Repr

instance : Keyed ReferenceRow ReferenceRow := ⟨id⟩

structure CitationRow where
  sourceNoteId : NoteId
  citationKey : String
  deriving DecidableEq, Repr

instance : Keyed CitationRow CitationRow := ⟨id⟩

/-- A grant to a principal who is not the owner. -/
structure AclRow where
  noteId : NoteId
  principalId : PrincipalId
  permission : NotePermission
  deriving DecidableEq, Repr

instance : Keyed AclRow (NoteId × PrincipalId) := ⟨fun row => (row.noteId, row.principalId)⟩

/-! ## The library -/

structure BibliographyItemId where
  entityId : ℕ
  deriving DecidableEq, Repr

structure BibliographyItemRow where
  itemId : BibliographyItemId
  owner : PrincipalId
  citationKey : String
  cslJson : String
  createdAt : ℤ
  updatedAt : ℤ
  revision : ℕ
  deriving DecidableEq, Repr

instance : Keyed BibliographyItemRow BibliographyItemId := ⟨BibliographyItemRow.itemId⟩

structure BibliographyImportSourceId where
  entityId : ℕ
  deriving DecidableEq, Repr

structure ImportSourceRow where
  sourceId : BibliographyImportSourceId
  owner : PrincipalId
  displayName : String
  revision : ℕ
  createdAt : ℤ
  lastImportedAt : ℤ
  deriving DecidableEq, Repr

instance : Keyed ImportSourceRow BibliographyImportSourceId := ⟨ImportSourceRow.sourceId⟩

structure ImportLinkRow where
  sourceId : BibliographyImportSourceId
  externalItemId : String
  itemId : BibliographyItemId
  owner : PrincipalId
  importedDigest : ℕ
  importedItemRevision : ℕ
  deriving DecidableEq, Repr

instance : Keyed ImportLinkRow (BibliographyImportSourceId × String) :=
  ⟨fun row => (row.sourceId, row.externalItemId)⟩

structure MathMacroRow where
  owner : PrincipalId
  macrosJson : String
  revision : ℕ
  deriving DecidableEq, Repr

instance : Keyed MathMacroRow PrincipalId := ⟨MathMacroRow.owner⟩

/-! ## Changes and synchronization -/

inductive ChangeKind
  | noteCreated | noteUpdated | noteDeleted | noteRestored | noteStateChanged
  | noteAccessGranted | noteAccessRevoked
  | bibliographyItemCreated | bibliographyItemUpdated | bibliographyItemDeleted
  deriving DecidableEq, Repr

/-- The kinds that change a note itself. -/
def ChangeKind.isNoteChange : ChangeKind → Bool
  | noteCreated | noteUpdated | noteDeleted | noteRestored | noteStateChanged => true
  | _ => false

/-- The kinds that change one principal's access to a note. -/
def ChangeKind.isAccessChange : ChangeKind → Bool
  | noteAccessGranted | noteAccessRevoked => true
  | _ => false

/-- The kinds a webhook can subscribe to (`WEBHOOK_EVENT_KINDS`). -/
def ChangeKind.isWebhookEvent : ChangeKind → Bool
  | noteCreated | noteUpdated | noteDeleted | noteRestored
  | bibliographyItemCreated | bibliographyItemUpdated | bibliographyItemDeleted => true
  | _ => false

/-- A committed change : everything but its place in the order of changes. -/
structure DomainChange where
  owner : PrincipalId
  affected : Option PrincipalId
  changeKind : ChangeKind
  targetId : ℕ
  revision : ℕ
  occurredAt : ℤ
  deriving DecidableEq, Repr

structure DomainChangeRow extends DomainChange where
  changeSequence : ℕ
  deriving DecidableEq, Repr

instance : Keyed DomainChangeRow ℕ := ⟨DomainChangeRow.changeSequence⟩

inductive RemoveReason
  | deleted | accessRevoked
  deriving DecidableEq, Repr

/-- `kind` and `reason` of a projection row : a reason exactly for a removal. -/
inductive ProjectionState
  | upsert
  | remove (reason : RemoveReason)
  deriving DecidableEq, Repr

/-- The last change of a note a principal has to hear of. -/
structure ProjectionRow where
  changeSequence : ℕ
  principalId : PrincipalId
  noteId : NoteId
  state : ProjectionState
  deriving DecidableEq, Repr

instance : Keyed ProjectionRow (PrincipalId × NoteId) :=
  ⟨fun row => (row.principalId, row.noteId)⟩

/-- A SHA-256 digest. -/
structure Digest where
  value : ℕ
  deriving DecidableEq, Repr

inductive CursorPhase
  | snapshot | changes
  deriving DecidableEq, Repr

/-- Where a client stands in its synchronization. -/
structure CursorRow where
  cursorHash : Digest
  principalId : PrincipalId
  phase : CursorPhase
  afterNoteId : Option NoteId
  afterSequence : ℕ
  highWatermark : ℕ
  expiresAt : ℤ
  deriving DecidableEq, Repr

instance : Keyed CursorRow Digest := ⟨CursorRow.cursorHash⟩

/-! ## Webhooks -/

structure SubscriptionId where
  entityId : ℕ
  deriving DecidableEq, Repr

inductive DisabledReason
  | deliveryExhausted | destinationRejected | ownerDisabled
  deriving DecidableEq, Repr

/-- `state` and `disabled_reason` : a reason exactly when disabled. -/
inductive SubscriptionState
  | pendingChallenge
  | active
  | disabled (reason : DisabledReason)
  deriving DecidableEq, Repr

structure SubscriptionRow where
  subscriptionId : SubscriptionId
  owner : PrincipalId
  url : String
  secret : String
  eventKinds : List ChangeKind
  state : SubscriptionState
  createdAt : ℤ
  updatedAt : ℤ
  revision : ℕ
  deriving DecidableEq, Repr

instance : Keyed SubscriptionRow SubscriptionId := ⟨SubscriptionRow.subscriptionId⟩

inductive DeliveryState
  | pending | delivered | discarded
  deriving DecidableEq, Repr

inductive WebhookDeliveryFailure
  | nonSuccessStatus | connectFailed | timedOut | destinationRejected
  deriving DecidableEq, Repr

/-- The delivery of one change to one subscription. -/
structure DeliveryRow where
  subscriptionId : SubscriptionId
  eventSequence : ℕ
  state : DeliveryState
  attemptCount : ℕ
  nextAttemptAt : ℤ
  leaseExpiresAt : Option ℤ
  lastFailure : Option WebhookDeliveryFailure
  lastAttemptedAt : Option ℤ
  deriving DecidableEq, Repr

instance : Keyed DeliveryRow (SubscriptionId × ℕ) :=
  ⟨fun row => (row.subscriptionId, row.eventSequence)⟩

/-! ## Sessions and OAuth -/

structure SessionRow where
  sessionIdHash : Digest
  csrfTokenHash : Digest
  principalId : PrincipalId
  authenticatedIdentityId : ℕ
  issuedAt : ℤ
  lastSeenAt : ℤ
  idleExpiresAt : ℤ
  absoluteExpiresAt : ℤ
  revokedAt : Option ℤ
  deriving DecidableEq, Repr

instance : Keyed SessionRow Digest := ⟨SessionRow.sessionIdHash⟩

structure LoginAttemptRow where
  stateHash : Digest
  nonce : String
  pkceVerifier : String
  expiresAt : ℤ
  deriving DecidableEq, Repr

instance : Keyed LoginAttemptRow Digest := ⟨LoginAttemptRow.stateHash⟩

structure ClientId where
  value : String
  deriving DecidableEq, Repr

/-- A scope token. A scope column holds a list of them, separated by blanks. -/
abbrev Scope := String

inductive RegistrationMethod
  | dynamic | metadataDocument
  deriving DecidableEq, Repr

structure ClientRow where
  clientId : ClientId
  displayName : String
  redirectUris : List String
  registrationMethod : RegistrationMethod
  registeredAt : ℤ
  deriving DecidableEq, Repr

instance : Keyed ClientRow ClientId := ⟨ClientRow.clientId⟩

structure PrincipalCeilingRow where
  principalId : PrincipalId
  scopes : List Scope
  revision : ℕ
  updatedAt : ℤ
  deriving DecidableEq, Repr

instance : Keyed PrincipalCeilingRow PrincipalId := ⟨PrincipalCeilingRow.principalId⟩

structure ClientCeilingRow where
  principalId : PrincipalId
  clientId : ClientId
  scopes : List Scope
  revision : ℕ
  updatedAt : ℤ
  deriving DecidableEq, Repr

instance : Keyed ClientCeilingRow (PrincipalId × ClientId) :=
  ⟨fun row => (row.principalId, row.clientId)⟩

structure ClientAuthorizationRow where
  principalId : PrincipalId
  clientId : ClientId
  grantedScopes : List Scope
  authorizedAt : ℤ
  lastUsedAt : Option ℤ
  revokedAt : Option ℤ
  deriving DecidableEq, Repr

instance : Keyed ClientAuthorizationRow (PrincipalId × ClientId) :=
  ⟨fun row => (row.principalId, row.clientId)⟩

structure AuthorizationCodeRow where
  codeHash : Digest
  clientId : ClientId
  redirectUri : String
  redirectUriWasSupplied : Bool
  resourceUri : String
  principalId : PrincipalId
  authenticatedIdentityId : ℕ
  scopes : List Scope
  codeChallenge : String
  expiresAt : ℤ
  consumedAt : Option ℤ
  tokenFamilyId : Option Digest
  deriving DecidableEq, Repr

instance : Keyed AuthorizationCodeRow Digest := ⟨AuthorizationCodeRow.codeHash⟩

structure AccessTokenRow where
  tokenHash : Digest
  clientId : ClientId
  resourceUri : String
  principalId : PrincipalId
  authenticatedIdentityId : ℕ
  scopes : List Scope
  expiresAt : ℤ
  revokedAt : Option ℤ
  lastUsedAt : Option ℤ
  tokenFamilyId : Digest
  deriving DecidableEq, Repr

instance : Keyed AccessTokenRow Digest := ⟨AccessTokenRow.tokenHash⟩

structure RefreshTokenRow where
  tokenHash : Digest
  clientId : ClientId
  resourceUri : String
  principalId : PrincipalId
  authenticatedIdentityId : ℕ
  scopes : List Scope
  expiresAt : ℤ
  rotatedAt : Option ℤ
  revokedAt : Option ℤ
  tokenFamilyId : Digest
  deriving DecidableEq, Repr

instance : Keyed RefreshTokenRow Digest := ⟨RefreshTokenRow.tokenHash⟩

/-- The tables of logins, clients, codes and tokens. -/
structure OAuthTables where
  webSessions : Table SessionRow
  oidcLoginAttempts : Table LoginAttemptRow
  mcpClients : Table ClientRow
  mcpPrincipalScopeCeilings : Table PrincipalCeilingRow
  mcpClientScopeCeilings : Table ClientCeilingRow
  mcpClientAuthorizations : Table ClientAuthorizationRow
  mcpAuthorizationCodes : Table AuthorizationCodeRow
  mcpAccessTokens : Table AccessTokenRow
  mcpRefreshTokens : Table RefreshTokenRow

/-! ## The database -/

/-- All tables, the two counters of `note_sync_state` and of the `AUTOINCREMENT` of
`domain_changes` included. -/
structure Database where
  principals : Table PrincipalRow
  principalIdentities : Table IdentityRow
  notes : Table NoteRow
  noteRevisions : Table NoteRevisionRow
  noteAttachments : Table AttachmentRow
  noteRevisionAttachments : Table RevisionAttachmentRow
  noteReferences : Table ReferenceRow
  noteCitations : Table CitationRow
  noteAcl : Table AclRow
  bibliographyItems : Table BibliographyItemRow
  bibliographyImportSources : Table ImportSourceRow
  bibliographyImportLinks : Table ImportLinkRow
  mathMacroSettings : Table MathMacroRow
  domainChanges : Table DomainChangeRow
  lastChangeSequence : ℕ
  latestNoteChangeSequence : ℕ
  noteSyncProjection : Table ProjectionRow
  noteSyncCursors : Table CursorRow
  webhookSubscriptions : Table SubscriptionRow
  webhookDeliveries : Table DeliveryRow
  oauth : OAuthTables

/-- The database right after the schema was created. -/
def Database.empty : Database where
  principals := .empty
  principalIdentities := .empty
  notes := .empty
  noteRevisions := .empty
  noteAttachments := .empty
  noteRevisionAttachments := .empty
  noteReferences := .empty
  noteCitations := .empty
  noteAcl := .empty
  bibliographyItems := .empty
  bibliographyImportSources := .empty
  bibliographyImportLinks := .empty
  mathMacroSettings := .empty
  domainChanges := .empty
  lastChangeSequence := 0
  latestNoteChangeSequence := 0
  noteSyncProjection := .empty
  noteSyncCursors := .empty
  webhookSubscriptions := .empty
  webhookDeliveries := .empty
  oauth := ⟨.empty, .empty, .empty, .empty, .empty, .empty, .empty, .empty, .empty⟩

/-! ## Views -/

/-- A row of the view `note_access` : owner 3, edit 2, read 1. -/
structure AccessRow where
  noteId : NoteId
  principalId : PrincipalId
  accessLevel : ℕ
  deriving DecidableEq, Repr

def NotePermission.accessLevel : NotePermission → ℕ
  | read => 1
  | edit => 2

def NoteAccess.accessLevel : NoteAccess → ℕ
  | read => 1
  | edit => 2
  | manage => 3

namespace Database

variable (db : Database)

/-- The view `note_access`. -/
def noteAccess : List AccessRow :=
  (db.notes.rows.map fun row => ⟨row.noteId, row.creator, 3⟩) ++
    db.noteAcl.rows.map fun row => ⟨row.noteId, row.principalId, row.permission.accessLevel⟩

/-- `EXISTS (SELECT 1 FROM note_access …)` with at least the level `required`. -/
def HasAccess (principal : PrincipalId) (noteId : NoteId) (required : ℕ) : Prop :=
  ∃ access ∈ db.noteAccess, access.noteId = noteId ∧ access.principalId = principal ∧
    required ≤ access.accessLevel

instance (principal : PrincipalId) (noteId : NoteId) (required : ℕ) :
    Decidable (db.HasAccess principal noteId required) :=
  inferInstanceAs (Decidable (∃ access ∈ db.noteAccess, _))

/-- The identity shown for a principal. -/
def primaryIdentity (principal : PrincipalId) : Option Identity :=
  (db.principalIdentities.rows.find? fun row =>
    row.principalId = principal ∧ row.isPrimary = true).map IdentityRow.identity

end Database

end Marginalis
