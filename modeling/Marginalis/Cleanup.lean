import Marginalis.OAuth

/-!
# The purge of operational state

`purgeExpiredOperationalState` is the transaction of the daily purge that clears logins,
OAuth state and the synchronization. A row of the projection goes with the age of the change
it stands at, and a change only when neither the projection nor a webhook delivery refers to
it any more. Each `WHERE` clause is a predicate of its own, read against the tables as the
statements before have left them.
-/

namespace Marginalis

/-- The rows each statement of the purge deleted. -/
structure OperationalStatePurgeCounts where
  webSessions : ℕ
  oidcLoginAttempts : ℕ
  mcpAccessTokens : ℕ
  mcpRefreshTokens : ℕ
  mcpAuthorizationCodes : ℕ
  mcpClientAuthorizations : ℕ
  mcpClients : ℕ
  noteSyncCursors : ℕ
  noteSyncProjectionEntries : ℕ
  deriving DecidableEq, Repr

/-! ## Logins and OAuth -/

namespace OAuthTables

variable (o : OAuthTables) (now cutoff : ℤ)

def purgedSession (row : SessionRow) : Bool :=
  row.revokedAt ≠ none ∨ row.idleExpiresAt ≤ now ∨ row.absoluteExpiresAt ≤ now

def purgedLoginAttempt (row : LoginAttemptRow) : Bool := row.expiresAt ≤ now

def purgedAccessToken (row : AccessTokenRow) : Bool := row.expiresAt ≤ now ∨ row.revokedAt ≠ none

/-- A rotated or expired refresh token stays while its family has one that works. -/
def purgedRefreshToken (stale : RefreshTokenRow) : Bool :=
  stale.revokedAt ≠ none ∨ (stale.expiresAt ≤ now ∨ stale.rotatedAt ≠ none) ∧
    ¬∃ active ∈ o.mcpRefreshTokens, active.tokenFamilyId = stale.tokenFamilyId ∧ active.Usable now

/-- An expired code that was exchanged stays while its family has a token. -/
def purgedAuthorizationCode (stale : AuthorizationCodeRow) : Bool :=
  stale.expiresAt ≤ now ∧ ∀ family ∈ stale.tokenFamilyId,
    (¬∃ access ∈ o.mcpAccessTokens, access.tokenFamilyId = family) ∧
      ¬∃ refresh ∈ o.mcpRefreshTokens, refresh.tokenFamilyId = family

def purgedClientAuthorization (row : ClientAuthorizationRow) : Bool :=
  row.lastUsedAt.getD row.authorizedAt < cutoff ∧
    (¬∃ code ∈ o.mcpAuthorizationCodes,
      code.principalId = row.principalId ∧ code.clientId = row.clientId) ∧
    (¬∃ access ∈ o.mcpAccessTokens,
      access.principalId = row.principalId ∧ access.clientId = row.clientId) ∧
    ¬∃ refresh ∈ o.mcpRefreshTokens,
      refresh.principalId = row.principalId ∧ refresh.clientId = row.clientId

def purgedClient (row : ClientRow) : Bool :=
  row.registeredAt < cutoff ∧
    (¬∃ code ∈ o.mcpAuthorizationCodes, code.clientId = row.clientId) ∧
    (¬∃ access ∈ o.mcpAccessTokens, access.clientId = row.clientId) ∧
    (¬∃ refresh ∈ o.mcpRefreshTokens, refresh.clientId = row.clientId) ∧
    (¬∃ ceiling ∈ o.mcpClientScopeCeilings, ceiling.clientId = row.clientId) ∧
    ¬∃ authorization ∈ o.mcpClientAuthorizations, authorization.clientId = row.clientId

/-- The statements on access tokens, refresh tokens and codes, in this order. -/
def purgeTokens : OAuthTables :=
  let o := { o with mcpAccessTokens := o.mcpAccessTokens.deleteWhere (purgedAccessToken now) }
  let o := { o with mcpRefreshTokens := o.mcpRefreshTokens.deleteWhere (o.purgedRefreshToken now) }
  { o with
    mcpAuthorizationCodes := o.mcpAuthorizationCodes.deleteWhere (o.purgedAuthorizationCode now) }

/-- All statements of the purge that concern logins, clients and their credentials. -/
def purgeExpired : OAuthTables :=
  let o := { o with
    webSessions := o.webSessions.deleteWhere (purgedSession now)
    oidcLoginAttempts := o.oidcLoginAttempts.deleteWhere (purgedLoginAttempt now) }
  let o := o.purgeTokens now
  let o := { o with
    mcpClientAuthorizations :=
      o.mcpClientAuthorizations.deleteWhere (o.purgedClientAuthorization cutoff) }
  { o with mcpClients := o.mcpClients.deleteWhere (o.purgedClient cutoff) }

end OAuthTables

/-! ## The synchronization -/

namespace Database

variable (db : Database) (horizon : ℤ)

/-- The projection row stands at a change that is old enough. -/
def purgedProjection (row : ProjectionRow) : Bool :=
  ∃ change ∈ db.domainChanges, change.changeSequence = row.changeSequence ∧
    change.occurredAt ≤ horizon

/-- Neither the projection nor a delivery refers to the change. -/
def purgedChange (row : DomainChangeRow) : Bool :=
  row.occurredAt ≤ horizon ∧
    (¬∃ sync ∈ db.noteSyncProjection, sync.changeSequence = row.changeSequence) ∧
    ¬∃ delivery ∈ db.webhookDeliveries, delivery.eventSequence = row.changeSequence

/-- The statements of the purge on cursors, projection and changes. -/
def purgeSync : Database :=
  let db := { db with
    noteSyncCursors := db.noteSyncCursors.deleteWhere fun row => row.expiresAt ≤ horizon }
  let db := { db with
    noteSyncProjection := db.noteSyncProjection.deleteWhere (db.purgedProjection horizon) }
  { db with domainChanges := db.domainChanges.deleteWhere (db.purgedChange horizon) }

/-- `purge_expired_operational_state`. The row counts of the transaction are the rows that are
gone. -/
def purgeExpiredOperationalState (now unusedClientCutoff : ℤ) :
    OperationalStatePurgeCounts × Database :=
  let oauth := db.oauth.purgeExpired now unusedClientCutoff
  let horizon := saturatingSub now noteSyncCursorRetentionMs
  let purged := purgeSync { db with oauth := oauth } horizon
  ({ webSessions := db.oauth.webSessions.rows.length - oauth.webSessions.rows.length
     oidcLoginAttempts :=
       db.oauth.oidcLoginAttempts.rows.length - oauth.oidcLoginAttempts.rows.length
     mcpAccessTokens := db.oauth.mcpAccessTokens.rows.length - oauth.mcpAccessTokens.rows.length
     mcpRefreshTokens := db.oauth.mcpRefreshTokens.rows.length - oauth.mcpRefreshTokens.rows.length
     mcpAuthorizationCodes :=
       db.oauth.mcpAuthorizationCodes.rows.length - oauth.mcpAuthorizationCodes.rows.length
     mcpClientAuthorizations :=
       db.oauth.mcpClientAuthorizations.rows.length - oauth.mcpClientAuthorizations.rows.length
     mcpClients := db.oauth.mcpClients.rows.length - oauth.mcpClients.rows.length
     noteSyncCursors := db.noteSyncCursors.rows.length - purged.noteSyncCursors.rows.length
     noteSyncProjectionEntries :=
       db.noteSyncProjection.rows.length - purged.noteSyncProjection.rows.length },
    purged)

end Database

end Marginalis
