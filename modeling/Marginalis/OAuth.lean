import Marginalis.Principals

/-!
# OAuth credentials

The transactions on authorization codes, access tokens and refresh tokens. A code is
consumed once and starts a token family, named by the digest of its first refresh token. A
refresh token is rotated once, into a new pair of the same family. Presenting a consumed code
or a rotated token again revokes the family (`OAuthTables.revokeFamily`).

The Authorization Server itself is another crate : it draws the tokens, computes the expiry
times and the challenge of the verifier, and calls these transactions. A token is stored as its
digest, and `hashToken` is the digest function.
-/

namespace Marginalis

/-! ## Requests -/

structure McpOAuthClient where
  clientId : ClientId
  displayName : String
  redirectUris : List String
  deriving DecidableEq, Repr

structure McpRegisteredOAuthClient where
  client : McpOAuthClient
  registrationMethod : RegistrationMethod
  deriving DecidableEq, Repr

/-- A redirect URI the request named, or the only one the client has. -/
inductive McpResolvedRedirectUri
  | supplied (uri : String)
  | inferred (uri : String)
  deriving DecidableEq, Repr

def McpResolvedRedirectUri.asStr : McpResolvedRedirectUri → String
  | supplied uri | inferred uri => uri

def McpResolvedRedirectUri.wasSupplied : McpResolvedRedirectUri → Bool
  | supplied _ => true
  | inferred _ => false

structure McpAuthorizationGrant where
  principal : Identity
  clientId : ClientId
  redirectUri : McpResolvedRedirectUri
  resourceUri : String
  scopes : List Scope
  deriving DecidableEq, Repr

structure McpAuthorizationCodeExchange where
  code : String
  clientId : ClientId
  redirectUri : Option String
  resourceUri : String
  codeChallenge : String
  accessToken : String
  refreshToken : String
  accessExpiresAt : ℤ
  refreshExpiresAt : ℤ
  deriving DecidableEq, Repr

structure McpRefreshTokenRotation where
  refreshToken : String
  clientId : ClientId
  resourceUri : String
  requestedScopes : Option (List Scope)
  newAccessToken : String
  newRefreshToken : String
  accessExpiresAt : ℤ
  refreshExpiresAt : ℤ
  deriving DecidableEq, Repr

inductive McpRefreshTokenRotationOutcome
  | rotated (accessScopes : List Scope)
  | invalidToken
  | invalidScope
  deriving DecidableEq, Repr

structure McpAuthenticatedPrincipal where
  principal : Identity
  scopes : List Scope
  deriving DecidableEq, Repr

/-- `storage_to_store_error`. -/
def StorageError.toStoreError : StorageError → SqliteStoreError
  | corruptData => .corruptData
  | _ => .database

/-- The parameters of an exchange that the `WHERE` clause compares with a code. A redirect URI
that was inferred may be left out. -/
def AuthorizationCodeRow.Matches (row : AuthorizationCodeRow)
    (exchange : McpAuthorizationCodeExchange) : Prop :=
  row.clientId = exchange.clientId ∧
    (row.redirectUriWasSupplied = true ∧ exchange.redirectUri = some row.redirectUri ∨
      row.redirectUriWasSupplied = false ∧
        (exchange.redirectUri = none ∨ exchange.redirectUri = some row.redirectUri)) ∧
    row.resourceUri = exchange.resourceUri ∧ row.codeChallenge = exchange.codeChallenge

instance (row : AuthorizationCodeRow) (exchange : McpAuthorizationCodeExchange) :
    Decidable (row.Matches exchange) := by
  unfold AuthorizationCodeRow.Matches
  infer_instance

/-- A code that can still be exchanged. -/
def AuthorizationCodeRow.Usable (now : ℤ) (row : AuthorizationCodeRow) : Prop :=
  row.consumedAt = none ∧ now < row.expiresAt

instance (now : ℤ) : DecidablePred (AuthorizationCodeRow.Usable now) := fun row => by
  unfold AuthorizationCodeRow.Usable
  infer_instance

/-- A token that still works. -/
def AccessTokenRow.Usable (now : ℤ) (row : AccessTokenRow) : Prop :=
  row.revokedAt = none ∧ now < row.expiresAt

instance (now : ℤ) : DecidablePred (AccessTokenRow.Usable now) := fun row => by
  unfold AccessTokenRow.Usable
  infer_instance

/-- A refresh token that can still be rotated. -/
def RefreshTokenRow.Usable (now : ℤ) (row : RefreshTokenRow) : Prop :=
  row.rotatedAt = none ∧ row.revokedAt = none ∧ now < row.expiresAt

instance (now : ℤ) : DecidablePred (RefreshTokenRow.Usable now) := fun row => by
  unfold RefreshTokenRow.Usable
  infer_instance

namespace OAuthTables

variable (o : OAuthTables)

/-! ## Revocation -/

/-- `UPDATE … SET revoked_at_ms = ?` in both token tables, on the rows not revoked yet. -/
def revokeWhere (access : AccessTokenRow → Bool) (refresh : RefreshTokenRow → Bool) (now : ℤ) :
    OAuthTables :=
  { o with
    mcpAccessTokens := o.mcpAccessTokens.modify (fun row => access row && row.revokedAt.isNone)
      fun row => { row with revokedAt := some now }
    mcpRefreshTokens := o.mcpRefreshTokens.modify (fun row => refresh row && row.revokedAt.isNone)
      fun row => { row with revokedAt := some now } }

/-- The revocation of a token family. -/
def revokeFamily (family : Digest) (now : ℤ) : OAuthTables :=
  o.revokeWhere (fun row => row.tokenFamilyId = family) (fun row => row.tokenFamilyId = family) now

/-- `revoke_mcp_client_tokens`, for the principal the identity was resolved to. -/
def revokeClientTokens (principal : PrincipalId) (clientId : ClientId) (now : ℤ) : OAuthTables :=
  let o := o.revokeWhere (fun row => row.principalId = principal ∧ row.clientId = clientId)
    (fun row => row.principalId = principal ∧ row.clientId = clientId) now
  { o with
    mcpAuthorizationCodes := o.mcpAuthorizationCodes.deleteWhere fun row =>
      row.principalId = principal ∧ row.clientId = clientId ∧ row.consumedAt = none
    mcpClientAuthorizations := o.mcpClientAuthorizations.modify
      (fun row => row.principalId = principal ∧ row.clientId = clientId)
      fun row => { row with revokedAt := some now } }

/-- `revoke_mcp_token`, for the digest of the token. -/
def revokeToken (tokenHash : Digest) (clientId : ClientId) (now : ℤ) : OAuthTables :=
  let access := (o.mcpAccessTokens.select fun row =>
    row.tokenHash = tokenHash ∧ row.clientId = clientId).map AccessTokenRow.tokenFamilyId
  let refresh := (o.mcpRefreshTokens.select fun row =>
    row.tokenHash = tokenHash ∧ row.clientId = clientId).map RefreshTokenRow.tokenFamilyId
  match (access ++ refresh).head? with
  | none => o
  | some family => o.revokeFamily family now

/-! ## Clients -/

/-- `upsert_client` : a registered client keeps its method and its time. -/
def upsertClient (registered : McpRegisteredOAuthClient) (now : ℤ) :
    Except SqliteStoreError OAuthTables :=
  let client := registered.client
  match o.mcpClients.find client.clientId with
  | none => .ok { o with
      mcpClients := o.mcpClients.upsert ⟨client.clientId, client.displayName,
        client.redirectUris, registered.registrationMethod, now⟩ }
  | some row =>
    if row.registrationMethod = registered.registrationMethod then
      .ok { o with
        mcpClients := o.mcpClients.upsert { row with
          displayName := client.displayName
          redirectUris := client.redirectUris } }
    else .error .corruptData

/-- `register_mcp_client_bounded`, with whether there was room for the client. -/
def registerClientBounded (client : McpOAuthClient) (now : ℤ) (maximumClients : ℕ) :
    Except SqliteStoreError (Bool × OAuthTables) :=
  if (o.mcpClients.select fun row => row.registrationMethod = .dynamic).length <
      maximumClients then
    match o.mcpClients.insert? ⟨client.clientId, client.displayName, client.redirectUris,
        .dynamic, now⟩ with
    | none => .error .database
    | some clients => .ok (true, { o with mcpClients := clients })
  else .ok (false, o)

/-- The scopes a principal has consented to for a client so far, with the new ones. -/
def grantedScopes (principal : PrincipalId) (clientId : ClientId) (scopes : List Scope) :
    List Scope :=
  scopes.foldl (fun granted scope => if scope ∈ granted then granted else granted ++ [scope])
    (((o.mcpClientAuthorizations.find (principal, clientId)).map
      ClientAuthorizationRow.grantedScopes).getD [])

/-- `INSERT INTO mcp_client_authorizations … ON CONFLICT DO UPDATE`. -/
def authorizeClient (principal : PrincipalId) (clientId : ClientId) (scopes : List Scope)
    (now : ℤ) : OAuthTables :=
  { o with
    mcpClientAuthorizations := o.mcpClientAuthorizations.upsert
      { principalId := principal
        clientId := clientId
        grantedScopes := o.grantedScopes principal clientId scopes
        authorizedAt := now
        lastUsedAt := (o.mcpClientAuthorizations.find (principal, clientId)).bind
          ClientAuthorizationRow.lastUsedAt
        revokedAt := none } }

/-! ## Codes and tokens -/

/-- `INSERT INTO mcp_authorization_codes`. -/
def insertCode (row : AuthorizationCodeRow) : Except SqliteStoreError OAuthTables :=
  match o.mcpAuthorizationCodes.insert? row with
  | none => .error .database
  | some codes => .ok { o with mcpAuthorizationCodes := codes }

/-- `INSERT INTO mcp_access_tokens` and `INSERT INTO mcp_refresh_tokens`. -/
def insertTokens (access : AccessTokenRow) (refresh : RefreshTokenRow) :
    Except SqliteStoreError OAuthTables :=
  match o.mcpAccessTokens.insert? access, o.mcpRefreshTokens.insert? refresh with
  | some accessTokens, some refreshTokens =>
    .ok { o with mcpAccessTokens := accessTokens, mcpRefreshTokens := refreshTokens }
  | _, _ => .error .database

end OAuthTables

namespace Database

variable (hashToken : String → Digest) (db : Database)

/-- `issue_mcp_authorization_code`. -/
def issueMcpAuthorizationCode (code : String) (registered : McpRegisteredOAuthClient)
    (grant : McpAuthorizationGrant) (codeChallenge : String) (expiresAt now : ℤ) :
    Except SqliteStoreError Database := do
  let ((actor, identityId), db) ←
    (db.resolveOrCreateIn grant.principal).mapError StorageError.toStoreError
  let oauth ← db.oauth.upsertClient registered now
  let oauth ← (oauth.authorizeClient actor.principalId registered.client.clientId grant.scopes
    now).insertCode
      { codeHash := hashToken code
        clientId := registered.client.clientId
        redirectUri := grant.redirectUri.asStr
        redirectUriWasSupplied := grant.redirectUri.wasSupplied
        resourceUri := grant.resourceUri
        principalId := actor.principalId
        authenticatedIdentityId := identityId
        scopes := grant.scopes
        codeChallenge := codeChallenge
        expiresAt := expiresAt
        consumedAt := none
        tokenFamilyId := none }
  return { db with oauth := oauth }

/-- `principal_from_identity_id`. -/
def principalFromIdentityId (identityId : ℕ) : Except SqliteStoreError Identity :=
  match db.principalIdentities.find identityId with
  | none => .error .corruptData
  | some row => .ok row.identity

/-- `exchange_mcp_authorization_code`. -/
def exchangeMcpAuthorizationCode (exchange : McpAuthorizationCodeExchange) (now : ℤ) :
    Except SqliteStoreError (Option McpAuthorizationGrant × Database) :=
  match db.oauth.mcpAuthorizationCodes.find (hashToken exchange.code) with
  | none => .ok (none, db)
  | some row =>
    if row.Matches exchange ∧ row.Usable now then do
      let principal ← db.principalFromIdentityId row.authenticatedIdentityId
      let family := hashToken exchange.refreshToken
      let oauth ← db.oauth.insertTokens
        { tokenHash := hashToken exchange.accessToken
          clientId := exchange.clientId
          resourceUri := exchange.resourceUri
          principalId := row.principalId
          authenticatedIdentityId := row.authenticatedIdentityId
          scopes := row.scopes
          expiresAt := exchange.accessExpiresAt
          revokedAt := none
          lastUsedAt := none
          tokenFamilyId := family }
        { tokenHash := family
          clientId := exchange.clientId
          resourceUri := exchange.resourceUri
          principalId := row.principalId
          authenticatedIdentityId := row.authenticatedIdentityId
          scopes := row.scopes
          expiresAt := exchange.refreshExpiresAt
          rotatedAt := none
          revokedAt := none
          tokenFamilyId := family }
      let oauth := { oauth with
        mcpAuthorizationCodes := oauth.mcpAuthorizationCodes.upsert { row with
          consumedAt := some now
          tokenFamilyId := some family } }
      return (some ⟨principal, exchange.clientId,
        if row.redirectUriWasSupplied then .supplied row.redirectUri
        else .inferred row.redirectUri, exchange.resourceUri, row.scopes⟩,
        { db with oauth := oauth })
    else
      match row.tokenFamilyId with
      | some family =>
        if row.Matches exchange ∧ row.consumedAt ≠ none then
          .ok (none, { db with oauth := db.oauth.revokeFamily family now })
        else .ok (none, db)
      | none => .ok (none, db)

/-- `authenticate_mcp_access_token`. -/
def authenticateMcpAccessToken (token resourceUri : String) (now : ℤ) :
    Except SqliteStoreError (Option McpAuthenticatedPrincipal × Database) :=
  match db.oauth.mcpAccessTokens.find (hashToken token) with
  | none => .ok (none, db)
  | some row =>
    if row.resourceUri = resourceUri ∧ row.Usable now then do
      let principal ← db.principalFromIdentityId row.authenticatedIdentityId
      let oauth := { db.oauth with
        mcpAccessTokens := db.oauth.mcpAccessTokens.upsert { row with lastUsedAt := some now }
        mcpClientAuthorizations := db.oauth.mcpClientAuthorizations.modify
          (fun r => r.principalId = row.principalId ∧ r.clientId = row.clientId)
          fun r => { r with lastUsedAt := some (max (r.lastUsedAt.getD now) now) } }
      return (some ⟨principal, row.scopes⟩, { db with oauth := oauth })
    else .ok (none, db)

/-- `rotate_mcp_refresh_token`. -/
def rotateMcpRefreshToken (rotation : McpRefreshTokenRotation) (now : ℤ) :
    Except SqliteStoreError (McpRefreshTokenRotationOutcome × Database) :=
  match db.oauth.mcpRefreshTokens.find (hashToken rotation.refreshToken) with
  | none => .ok (.invalidToken, db)
  | some row =>
    if (row.clientId = rotation.clientId ∧ row.resourceUri = rotation.resourceUri) ∧
        row.Usable now then
      let accessScopes := rotation.requestedScopes.getD row.scopes
      if ∀ scope ∈ accessScopes, scope ∈ row.scopes then do
        let consumed := { db.oauth with
          mcpRefreshTokens := db.oauth.mcpRefreshTokens.upsert { row with rotatedAt := some now } }
        let oauth ← consumed.insertTokens
          { tokenHash := hashToken rotation.newAccessToken
            clientId := rotation.clientId
            resourceUri := rotation.resourceUri
            principalId := row.principalId
            authenticatedIdentityId := row.authenticatedIdentityId
            scopes := accessScopes
            expiresAt := rotation.accessExpiresAt
            revokedAt := none
            lastUsedAt := none
            tokenFamilyId := row.tokenFamilyId }
          { tokenHash := hashToken rotation.newRefreshToken
            clientId := rotation.clientId
            resourceUri := rotation.resourceUri
            principalId := row.principalId
            authenticatedIdentityId := row.authenticatedIdentityId
            scopes := row.scopes
            expiresAt := rotation.refreshExpiresAt
            rotatedAt := none
            revokedAt := none
            tokenFamilyId := row.tokenFamilyId }
        return (.rotated accessScopes, { db with oauth := oauth })
      -- The transaction is rolled back : the token is not consumed.
      else .ok (.invalidScope, db)
    else if (row.clientId = rotation.clientId ∧ row.resourceUri = rotation.resourceUri) ∧
        row.rotatedAt ≠ none ∧ row.revokedAt = none then
      .ok (.invalidToken, { db with oauth := db.oauth.revokeFamily row.tokenFamilyId now })
    else .ok (.invalidToken, db)

/-- `revoke_mcp_client_tokens`. An unknown identity has nothing to revoke. -/
def revokeMcpClientTokens (identity : Identity) (clientId : ClientId) (now : ℤ) :
    Except SqliteStoreError Database := do
  match ← (db.resolveIn identity).mapError StorageError.toStoreError with
  | none => return db
  | some (actor, _) =>
    return { db with oauth := db.oauth.revokeClientTokens actor.principalId clientId now }

/-- `revoke_mcp_token`. -/
def revokeMcpToken (token : String) (clientId : ClientId) (now : ℤ) : Database :=
  { db with oauth := db.oauth.revokeToken (hashToken token) clientId now }

end Database

/-! ## Scope ceilings -/

structure McpScopeCeilingSetting where
  scopes : List Scope
  revision : ℕ
  deriving DecidableEq, Repr

structure McpStoredScopeCeilings where
  principal : Option McpScopeCeilingSetting
  client : Option McpScopeCeilingSetting
  deriving DecidableEq, Repr

/-- `scopes_fit`. -/
def scopesFit (scopes allowed : List Scope) : Bool := ∀ scope ∈ scopes, scope ∈ allowed

namespace OAuthTables

variable (o : OAuthTables)

def principalScopeCeiling (principal : PrincipalId) : Option McpScopeCeilingSetting :=
  (o.mcpPrincipalScopeCeilings.find principal).map fun row => ⟨row.scopes, row.revision⟩

def clientScopeCeiling (principal : PrincipalId) (clientId : ClientId) :
    Option McpScopeCeilingSetting :=
  (o.mcpClientScopeCeilings.find (principal, clientId)).map fun row => ⟨row.scopes, row.revision⟩

/-- A credential of the principal, and of the client when one is named. -/
def Concerns (principal : PrincipalId) (clientId : Option ClientId) (p : PrincipalId)
    (c : ClientId) : Prop :=
  p = principal ∧ ∀ client ∈ clientId, c = client

instance (principal : PrincipalId) (clientId : Option ClientId) (p : PrincipalId) (c : ClientId) :
    Decidable (Concerns principal clientId p c) := by
  unfold Concerns
  infer_instance

/-- The families of the tokens that do not fit, once for each such token. -/
def excessFamilies (principal : PrincipalId) (clientId : Option ClientId) (allowed : List Scope) :
    List Digest :=
  (o.mcpAccessTokens.select fun row => Concerns principal clientId row.principalId row.clientId ∧
      row.revokedAt = none ∧ ¬scopesFit row.scopes allowed).map AccessTokenRow.tokenFamilyId ++
    (o.mcpRefreshTokens.select fun row => Concerns principal clientId row.principalId row.clientId ∧
      row.revokedAt = none ∧ ¬scopesFit row.scopes allowed).map RefreshTokenRow.tokenFamilyId

/-- `invalidate_excess_grants`. -/
def invalidateExcessGrants (principal : PrincipalId) (clientId : Option ClientId)
    (allowed : List Scope) (now : ℤ) : OAuthTables :=
  let o := { o with
    mcpAuthorizationCodes := o.mcpAuthorizationCodes.deleteWhere fun row =>
      Concerns principal clientId row.principalId row.clientId ∧ row.consumedAt = none ∧
        ¬scopesFit row.scopes allowed }
  (o.excessFamilies principal clientId allowed).foldl (fun o family => o.revokeFamily family now) o

/-- `replace_principal_setting`. -/
def replacePrincipalSetting (principal : PrincipalId) (scopes : List Scope)
    (expectedRevision : ℕ) (now : ℤ) : Except StorageError (ℕ × OAuthTables) :=
  match o.mcpPrincipalScopeCeilings.find principal with
  | none =>
    if expectedRevision = 0 then
      .ok (1, { o with
        mcpPrincipalScopeCeilings := o.mcpPrincipalScopeCeilings.upsert
          ⟨principal, scopes, 1, now⟩ })
    else .error .conflict
  | some row =>
    if expectedRevision ≠ 0 ∧ row.revision = expectedRevision then
      .ok (row.revision + 1, { o with
        mcpPrincipalScopeCeilings := o.mcpPrincipalScopeCeilings.upsert
          ⟨principal, scopes, row.revision + 1, now⟩ })
    else .error .conflict

/-- `replace_client_setting`. -/
def replaceClientSetting (principal : PrincipalId) (clientId : ClientId) (scopes : List Scope)
    (expectedRevision : ℕ) (now : ℤ) : Except StorageError (ℕ × OAuthTables) :=
  match o.mcpClientScopeCeilings.find (principal, clientId) with
  | none =>
    if expectedRevision = 0 then
      .ok (1, { o with
        mcpClientScopeCeilings := o.mcpClientScopeCeilings.upsert
          ⟨principal, clientId, scopes, 1, now⟩ })
    else .error .conflict
  | some row =>
    if expectedRevision ≠ 0 ∧ row.revision = expectedRevision then
      .ok (row.revision + 1, { o with
        mcpClientScopeCeilings := o.mcpClientScopeCeilings.upsert
          ⟨principal, clientId, scopes, row.revision + 1, now⟩ })
    else .error .conflict

/-- `authorized_client`. -/
def authorizedClient (principal : PrincipalId) (clientId : ClientId) : Except StorageError Unit :=
  match o.mcpClientAuthorizations.find (principal, clientId) with
  | none => .error .notFound
  | some _ => .ok ()

/-- `replace_principal_scope_ceiling`. -/
def replacePrincipalScopeCeiling (actor : Actor) (scopes : List Scope) (expectedRevision : ℕ)
    (now : ℤ) : Except StorageError (McpScopeCeilingSetting × OAuthTables) := do
  let (revision, o) ← o.replacePrincipalSetting actor.principalId scopes expectedRevision now
  return (⟨scopes, revision⟩, o.invalidateExcessGrants actor.principalId none scopes now)

/-- `delete_client_scope_ceiling`. It widens the ceiling, so it revokes nothing. -/
def deleteClientScopeCeiling (actor : Actor) (clientId : ClientId) (expectedRevision : ℕ) :
    Except StorageError OAuthTables := do
  o.authorizedClient actor.principalId clientId
  match o.mcpClientScopeCeilings.find (actor.principalId, clientId) with
  | none => throw .conflict
  | some row =>
    if row.revision = expectedRevision then
      return { o with
        mcpClientScopeCeilings := o.mcpClientScopeCeilings.deleteWhere fun r =>
          r.principalId = actor.principalId ∧ r.clientId = clientId }
    else throw .conflict

/-- `replace_client_scope_ceiling`. -/
def replaceClientScopeCeiling (actor : Actor) (clientId : ClientId) (scopes : List Scope)
    (expectedRevision : ℕ) (now : ℤ) :
    Except StorageError (McpScopeCeilingSetting × OAuthTables) := do
  if o.mcpClients.find clientId = none then throw .notFound
  o.authorizedClient actor.principalId clientId
  let (revision, o) ← o.replaceClientSetting actor.principalId clientId scopes expectedRevision now
  return (⟨scopes, revision⟩,
    o.invalidateExcessGrants actor.principalId (some clientId) scopes now)

end OAuthTables

end Marginalis
