import Marginalis.TokenFamily

/-!
# Scope ceilings

A principal limits what its clients may be granted by two ceilings, its own and one for a
client. A ceiling that is replaced revokes what exceeds it in the same transaction, so the
credentials that are there stay within both. What it can not see is a request that has read
the ceilings and has not issued its code yet : `authorize` reads the two ceilings in two
queries and issues the code in a third transaction.

`CeilingSystem` has these reads as steps of their own. A credential exceeds a ceiling exactly
when a code was issued after its ceiling had been replaced by one that excludes a scope of the
code (`scope_ceilings_bound_iff`).
-/

namespace Marginalis

open Relation

/-! ## The service -/

/-- What the service uses of the Authorization Server : `scope_ceilings`, which refuses scopes
that are not supported, and the scopes it grants of those requested. -/
structure AuthorizationServer where
  supportedScopes : List Scope
  scopeCeilings : List Scope → List Scope → Bool
  eligibleScopes : List Scope → List Scope → List Scope → Option (List Scope)
  scopeCeilings_supported : ∀ principal client, scopeCeilings principal client = true →
    principal ⊆ supportedScopes ∧ client ⊆ supportedScopes
  eligibleScopes_subset : ∀ requested principal client granted,
    eligibleScopes requested principal client = some granted →
    granted ⊆ principal ∧ granted ⊆ client

structure McpEffectiveScopeCeiling where
  configured : Bool
  setting : McpScopeCeilingSetting
  deriving DecidableEq, Repr

/-- `effective_scope_ceiling` : without a setting, all supported scopes. -/
def effectiveScopeCeiling (supportedScopes : List Scope) :
    Option McpScopeCeilingSetting → McpEffectiveScopeCeiling
  | some setting => ⟨true, setting⟩
  | none => ⟨false, ⟨supportedScopes, 0⟩⟩

/-- The scopes of the effective ceiling. -/
def effectiveScopes (supportedScopes : List Scope) (stored : Option McpScopeCeilingSetting) :
    List Scope :=
  (effectiveScopeCeiling supportedScopes stored).setting.scopes

/-- A validated authorization request of an actor. -/
structure AuthorizeRequest where
  actor : Actor
  client : McpRegisteredOAuthClient
  redirectUri : McpResolvedRedirectUri
  resourceUri : String
  scopes : List Scope
  codeChallenge : String
  deriving DecidableEq, Repr

/-- A request after the first query of `scope_ceilings`. -/
structure PrincipalCeilingRead where
  request : AuthorizeRequest
  principal : Option McpScopeCeilingSetting
  deriving DecidableEq, Repr

/-- A request after both queries of `scope_ceilings`. -/
structure CeilingsRead where
  request : AuthorizeRequest
  stored : McpStoredScopeCeilings
  deriving DecidableEq, Repr

namespace AuthorizationServer

variable (server : AuthorizationServer)

/-- `authorize` after `resolved_scope_ceilings` has read the ceilings : the code it issues. -/
def authorize (read : CeilingsRead) (code : String) (expiresAt : ℤ) : Option TokenAction :=
  let principal := effectiveScopes server.supportedScopes read.stored.principal
  let client := effectiveScopes server.supportedScopes read.stored.client
  if server.scopeCeilings principal client then
    (server.eligibleScopes read.request.scopes principal client).map fun granted =>
      .issue code read.request.client
        { principal := read.request.actor.authenticatedIdentity
          clientId := read.request.client.client.clientId
          redirectUri := read.request.redirectUri
          resourceUri := read.request.resourceUri
          scopes := granted } read.request.codeChallenge expiresAt
  else none

/-- `validate_principal_scope_ceiling`. -/
def validatePrincipalScopeCeiling (scopes : List Scope) : Bool :=
  server.scopeCeilings scopes server.supportedScopes

/-- `validate_client_scope_ceiling`. -/
def validateClientScopeCeiling (scopes : List Scope) : Bool :=
  server.scopeCeilings server.supportedScopes scopes

/-- The checks of the service before it starts a transaction. -/
def validates : TokenAction → Bool
  | .replacePrincipalCeiling _ scopes _ => server.validatePrincipalScopeCeiling scopes
  | .replaceClientCeiling _ _ scopes _ => server.validateClientScopeCeiling scopes
  | .deleteClientCeiling _ _ expectedRevision => 0 < expectedRevision
  | _ => true

end AuthorizationServer

/-- The identity of the actor belongs to its principal. -/
def Database.KnowsActor (db : Database) (actor : Actor) : Prop :=
  ∃ row, db.principalIdentities.rows.find? (fun row => row.identity = actor.authenticatedIdentity) =
    some row ∧ row.principalId = actor.principalId

/-- Identities stay with their principals. -/
def Database.KeepsActors (db db' : Database) : Prop :=
  ∀ actor, db.KnowsActor actor → db'.KnowsActor actor

/-- A database and the authorization requests that are on their way. -/
structure CeilingSystem where
  tokens : TokenSystem
  reading : List PrincipalCeilingRead
  resolved : List CeilingsRead

/-- The steps of `authorize`, and all other transactions. -/
inductive CeilingAction
  | readPrincipal (request : AuthorizeRequest)
  | readClient (read : PrincipalCeilingRead)
  | authorize (read : CeilingsRead) (code : String) (expiresAt : ℤ)
  | transaction (action : TokenAction)

namespace CeilingSystem

variable (server : AuthorizationServer) (lifetimes : TokenLifetimes) (hashToken : String → Digest)
  (sys : CeilingSystem)

def start : CeilingSystem := ⟨.start, [], []⟩

/-- The OAuth tables of the system. -/
def oauth : OAuthTables := sys.tokens.db.oauth

/-- The system after a step. -/
def next (label : ℤ × CeilingAction) : CeilingSystem :=
  match label.2 with
  | .readPrincipal request =>
    { sys with
      reading := ⟨request, sys.oauth.principalScopeCeiling request.actor.principalId⟩ ::
        sys.reading }
  | .readClient read =>
    { sys with
      resolved := ⟨read.request, read.principal, sys.oauth.clientScopeCeiling
        read.request.actor.principalId read.request.client.client.clientId⟩ :: sys.resolved }
  | .authorize read code expiresAt =>
    match server.authorize read code expiresAt with
    | some action => { sys with tokens := sys.tokens.next hashToken (label.1, action) }
    | none => sys
  | .transaction action =>
    if server.validates action then
      { sys with tokens := sys.tokens.next hashToken (label.1, action) }
    else sys

/-- A step that can be taken now. -/
def Allowed (label : ℤ × CeilingAction) : Prop :=
  match label.2 with
  | .readPrincipal request => sys.tokens.db.KnowsActor request.actor
  | .readClient read => read ∈ sys.reading
  | .authorize read code _ =>
    sys.tokens.now ≤ label.1 ∧ read ∈ sys.resolved ∧ hashToken code ∉ sys.tokens.drawn
  | .transaction action =>
    (∀ code registered grant codeChallenge expiresAt,
      action ≠ .issue code registered grant codeChallenge expiresAt) ∧
    sys.tokens.Allowed lifetimes hashToken (label.1, action) ∧
    ∀ db, action = .elsewhere db → sys.tokens.db.KeepsActors db

/-- One step. -/
def Step (server : AuthorizationServer) (lifetimes : TokenLifetimes) (hashToken : String → Digest)
    (sys : CeilingSystem) (label : ℤ × CeilingAction) (sys' : CeilingSystem) : Prop :=
  sys.Allowed lifetimes hashToken label ∧ sys' = sys.next server hashToken label

end CeilingSystem

/-! ## Credentials within the ceilings -/

namespace OAuthTables

variable (supported : List Scope) (o : OAuthTables)

/-- Both effective ceilings allow the scope. -/
def Permits (principal : PrincipalId) (clientId : ClientId) (scope : Scope) : Prop :=
  scope ∈ effectiveScopes supported (o.principalScopeCeiling principal) ∧
    scope ∈ effectiveScopes supported (o.clientScopeCeiling principal clientId)

/-- Every live credential carries only scopes that both ceilings allow. -/
structure Within (now : ℤ) : Prop where
  code : ∀ row ∈ o.mcpAuthorizationCodes, row.consumedAt = none →
    ∀ scope ∈ row.scopes, o.Permits supported row.principalId row.clientId scope
  access : ∀ row ∈ o.mcpAccessTokens, row.Usable now →
    ∀ scope ∈ row.scopes, o.Permits supported row.principalId row.clientId scope
  refresh : ∀ row ∈ o.mcpRefreshTokens, row.Usable now →
    ∀ scope ∈ row.scopes, o.Permits supported row.principalId row.clientId scope

/-- Everything that is not consumed or revoked carries only allowed scopes. -/
structure Bounded (allowed : PrincipalId → ClientId → Scope → Prop) : Prop where
  code : ∀ row ∈ o.mcpAuthorizationCodes, row.consumedAt = none →
    ∀ scope ∈ row.scopes, allowed row.principalId row.clientId scope
  access : ∀ row ∈ o.mcpAccessTokens, row.revokedAt = none →
    ∀ scope ∈ row.scopes, allowed row.principalId row.clientId scope
  refresh : ∀ row ∈ o.mcpRefreshTokens, row.revokedAt = none →
    ∀ scope ∈ row.scopes, allowed row.principalId row.clientId scope

/-- Ceilings name supported scopes only. -/
structure CeilingsSupported : Prop where
  principal : ∀ row ∈ o.mcpPrincipalScopeCeilings, row.scopes ⊆ supported
  client : ∀ row ∈ o.mcpClientScopeCeilings, row.scopes ⊆ supported

variable {supported o} {o' : OAuthTables} {allowed allowed' : PrincipalId → ClientId → Scope → Prop}

theorem Bounded.mono (h : o.Bounded allowed)
    (hallowed : ∀ principal clientId scope, allowed principal clientId scope →
      allowed' principal clientId scope) : o.Bounded allowed' where
  code row hrow hconsumed scope hscope := hallowed _ _ _ (h.code row hrow hconsumed scope hscope)
  access row hrow hrevoked scope hscope := hallowed _ _ _ (h.access row hrow hrevoked scope hscope)
  refresh row hrow hrevoked scope hscope :=
    hallowed _ _ _ (h.refresh row hrow hrevoked scope hscope)

theorem Bounded.within (h : o.Bounded (o.Permits supported)) (now : ℤ) :
    o.Within supported now where
  code := h.code
  access row hrow husable := h.access row hrow husable.1
  refresh row hrow husable := h.refresh row hrow husable.2.1

theorem CeilingsSupported.effective_client (h : o.CeilingsSupported supported)
    (principal : PrincipalId) (clientId : ClientId) :
    effectiveScopes supported (o.clientScopeCeiling principal clientId) ⊆ supported := by
  unfold clientScopeCeiling
  cases hfind : o.mcpClientScopeCeilings.find (principal, clientId) with
  | none => exact List.Subset.refl _
  | some row => exact h.client row (Table.mem_of_find hfind)

theorem SameCeilings.permits (h : o.SameCeilings o') :
    o'.Permits supported = o.Permits supported := by
  unfold Permits principalScopeCeiling clientScopeCeiling
  rw [h.principal, h.client]

theorem SameCeilings.ceilingsSupported (h : o.SameCeilings o')
    (ho : o.CeilingsSupported supported) :
    o'.CeilingsSupported supported :=
  ⟨h.principal ▸ ho.principal, h.client ▸ ho.client⟩

end OAuthTables

/-! ## Statements keep the bound -/

section Statements

variable {lifetimes : TokenLifetimes} {issuable : AuthorizationCodeRow → Prop} {now : ℤ}
  {s s' : TokenState} {allowed : PrincipalId → ClientId → Scope → Prop}

theorem AccessTokenRow.Ages.bounded {row row' : AccessTokenRow} (h : row.Ages row')
    (hrow : row.revokedAt = none → ∀ scope ∈ row.scopes,
      allowed row.principalId row.clientId scope)
    (hrevoked : row'.revokedAt = none) :
    ∀ scope ∈ row'.scopes, allowed row'.principalId row'.clientId scope := by
  rw [h.scopes, h.principalId, h.clientId]
  exact hrow (not_not.mp fun hr => h.revoked hr hrevoked)

theorem RefreshTokenRow.Ages.bounded {row row' : RefreshTokenRow} (h : row.Ages row')
    (hrow : row.revokedAt = none → ∀ scope ∈ row.scopes,
      allowed row.principalId row.clientId scope)
    (hrevoked : row'.revokedAt = none) :
    ∀ scope ∈ row'.scopes, allowed row'.principalId row'.clientId scope := by
  rw [h.scopes, h.principalId, h.clientId]
  exact hrow (not_not.mp fun hr => h.revoked hr hrevoked)

/-- The scopes of a new pair come from the code or the token it was issued for. -/
theorem NewPair.bounded {drawn : List Digest} {family : Digest} {clientId : ClientId}
    {principalId : PrincipalId} {scopes : List Scope} {access : AccessTokenRow}
    {refresh : RefreshTokenRow}
    (h : NewPair lifetimes now drawn family clientId principalId scopes access refresh)
    (hscopes : ∀ scope ∈ scopes, allowed principalId clientId scope) :
    (∀ scope ∈ access.scopes, allowed access.principalId access.clientId scope) ∧
      ∀ scope ∈ refresh.scopes, allowed refresh.principalId refresh.clientId scope := by
  have haccess := h.access_state
  have hrefresh := h.refresh_state
  simp only [AccessTokenRow.familyState, RefreshTokenRow.familyState, FamilyState.mk.injEq]
    at haccess hrefresh
  rw [haccess.1, haccess.2.1, hrefresh.1, hrefresh.2.1, h.refresh_scopes]
  exact ⟨fun scope hscope => hscopes scope (h.access_scopes hscope), hscopes⟩

/-- No statement but `issue` widens what the credentials carry. -/
theorem TokenStatement.bounded (h : TokenStatement lifetimes issuable now s s')
    (hissuable : ∀ row, issuable row → ∀ scope ∈ row.scopes,
      allowed row.principalId row.clientId scope)
    (hs : s.oauth.Bounded allowed) : s'.oauth.Bounded allowed := by
  cases h with
  | other h =>
    refine ⟨?_, ?_, ?_⟩
    · rw [h.codes]
      exact hs.code
    · rw [h.access]
      exact hs.access
    · rw [h.refresh]
      exact hs.refresh
  | revoke =>
    refine ⟨hs.code, fun row hrow => ?_, fun row hrow => ?_⟩
    · obtain ⟨old, hold, rfl⟩ := OAuthTables.mem_access_revokeWhere.mp hrow
      exact (old.ages_revokedIf _ _).bounded (hs.access old hold)
    · obtain ⟨old, hold, rfl⟩ := OAuthTables.mem_refresh_revokeWhere.mp hrow
      exact (old.ages_revokedIf _ _).bounded (hs.refresh old hold)
  | forget =>
    exact ⟨fun row hrow => hs.code row (Table.mem_deleteWhere.mp hrow).1, hs.access, hs.refresh⟩
  | purge =>
    exact ⟨fun row hrow => hs.code row (Table.mem_deleteWhere.mp hrow).1,
      fun row hrow => hs.access row (Table.mem_deleteWhere.mp hrow).1,
      fun row hrow => hs.refresh row (Table.mem_deleteWhere.mp hrow).1⟩
  | @use _ _ used hused =>
    refine ⟨hs.code, fun row hrow => ?_, hs.refresh⟩
    rcases Table.mem_upsert.mp hrow with rfl | ⟨hrow, -⟩
    · exact hs.access used hused
    · exact hs.access row hrow
  | issue hcodes _ hrow =>
    refine ⟨fun row hmem => ?_, hs.access, hs.refresh⟩
    rcases (Table.mem_insert? hcodes).mp hmem with hmem | rfl
    · exact hs.code row hmem
    · exact fun _ => hissuable row hrow
  | exchange hrow husable hpair hinsert =>
    obtain ⟨hcodes, haccess, hrefresh⟩ := OAuthTables.insertTokens_eq_ok hinsert
    obtain ⟨hnew, hnew'⟩ := hpair.bounded (hs.code _ hrow husable.1)
    refine ⟨fun row hmem => ?_, fun row hmem => ?_, fun row hmem => ?_⟩
    · rcases Table.mem_upsert.mp hmem with rfl | ⟨hmem, -⟩
      · exact fun hconsumed => by cases hconsumed
      · rw [hcodes] at hmem
        exact hs.code row hmem
    · rcases (haccess row).mp hmem with hmem | rfl
      · exact hs.access row hmem
      · exact fun _ => hnew
    · rcases (hrefresh row).mp hmem with hmem | rfl
      · exact hs.refresh row hmem
      · exact fun _ => hnew'
  | @rotate _ _ _ parent _ _ hrow husable hpair hinsert =>
    obtain ⟨hcodes, haccess, hrefresh⟩ := OAuthTables.insertTokens_eq_ok hinsert
    obtain ⟨hnew, hnew'⟩ := hpair.bounded (hs.refresh _ hrow husable.2.1)
    refine ⟨fun row hmem => ?_, fun row hmem => ?_, fun row hmem => ?_⟩
    · rw [hcodes] at hmem
      exact hs.code row hmem
    · rcases (haccess row).mp hmem with hmem | rfl
      · exact hs.access row hmem
      · exact fun _ => hnew
    · rcases (hrefresh row).mp hmem with hmem | rfl
      · rcases Table.mem_upsert.mp hmem with rfl | ⟨hmem, -⟩
        · exact hs.refresh parent hrow
        · exact hs.refresh row hmem
      · exact fun _ => hnew'

theorem TokenStatements.bounded (h : TokenStatements lifetimes issuable now s s')
    (hissuable : ∀ row, issuable row → ∀ scope ∈ row.scopes,
      allowed row.principalId row.clientId scope)
    (hs : s.oauth.Bounded allowed) : s'.oauth.Bounded allowed := by
  induction h with
  | refl => exact hs
  | tail _ hlast ih => exact hlast.bounded hissuable ih

end Statements

/-! ## Narrowing a ceiling -/

namespace OAuthTables

variable {o o' : OAuthTables} {supported : List Scope} {now : ℤ} {principal : PrincipalId}
  {client : Option ClientId} {scopes : List Scope} {actor : Actor} {clientId : ClientId}
  {expectedRevision : ℕ} {setting : McpScopeCeilingSetting}

/-- After families have been revoked, what is left is not of them. -/
theorem foldl_revokeFamily (now : ℤ) (families : List Digest) (o : OAuthTables) :
    (families.foldl (fun o family => o.revokeFamily family now) o).mcpAuthorizationCodes =
        o.mcpAuthorizationCodes ∧
      o.SameCeilings (families.foldl (fun o family => o.revokeFamily family now) o) ∧
      (∀ row ∈ (families.foldl (fun o family => o.revokeFamily family now) o).mcpAccessTokens,
        ∃ old ∈ o.mcpAccessTokens, old.Ages row ∧
          (row.revokedAt = none → old.tokenFamilyId ∉ families)) ∧
      ∀ row ∈ (families.foldl (fun o family => o.revokeFamily family now) o).mcpRefreshTokens,
        ∃ old ∈ o.mcpRefreshTokens, old.Ages row ∧
          (row.revokedAt = none → old.tokenFamilyId ∉ families) := by
  induction families generalizing o with
  | nil =>
    exact ⟨rfl, ⟨rfl, rfl⟩, fun row hrow => ⟨row, hrow, .refl row, by simp⟩,
      fun row hrow => ⟨row, hrow, .refl row, by simp⟩⟩
  | cons family families ih =>
    obtain ⟨hcodes, hsame, haccess, hrefresh⟩ := ih (o.revokeFamily family now)
    refine ⟨hcodes, ⟨hsame.principal, hsame.client⟩, fun row hrow => ?_, fun row hrow => ?_⟩
    · obtain ⟨mid, hmid, hages, hfamily⟩ := haccess row hrow
      obtain ⟨old, hold, rfl⟩ := mem_access_revokeWhere.mp hmid
      have hold' := old.ages_revokedIf (old.tokenFamilyId = family) now
      refine ⟨old, hold, hold'.trans hages, fun hrevoked hmem => ?_⟩
      rcases List.mem_cons.mp hmem with heq | hmem
      · have hsome := old.isSome_revokedIf (old.tokenFamilyId = family) now
        rw [not_not.mp fun hr => hages.revoked hr hrevoked] at hsome
        simp [heq] at hsome
      · exact hfamily hrevoked (by rwa [hold'.tokenFamilyId])
    · obtain ⟨mid, hmid, hages, hfamily⟩ := hrefresh row hrow
      obtain ⟨old, hold, rfl⟩ := mem_refresh_revokeWhere.mp hmid
      have hold' := old.ages_revokedIf (old.tokenFamilyId = family) now
      refine ⟨old, hold, hold'.trans hages, fun hrevoked hmem => ?_⟩
      rcases List.mem_cons.mp hmem with heq | hmem
      · have hsome := old.isSome_revokedIf (old.tokenFamilyId = family) now
        rw [not_not.mp fun hr => hages.revoked hr hrevoked] at hsome
        simp [heq] at hsome
      · exact hfamily hrevoked (by rwa [hold'.tokenFamilyId])

/-- What a narrowed ceiling leaves of the credentials it concerns fits it. -/
theorem bounded_invalidateExcessGrants {allowed : PrincipalId → ClientId → Scope → Prop}
    (ho : o.Bounded allowed) :
    (o.invalidateExcessGrants principal client scopes now).Bounded fun p c scope =>
      allowed p c scope ∧ (Concerns principal client p c → scope ∈ scopes) := by
  unfold invalidateExcessGrants
  obtain ⟨hcodes, -, haccess, hrefresh⟩ := foldl_revokeFamily now
    (excessFamilies { o with
      mcpAuthorizationCodes := o.mcpAuthorizationCodes.deleteWhere fun row =>
        Concerns principal client row.principalId row.clientId ∧ row.consumedAt = none ∧
          ¬scopesFit row.scopes scopes } principal client scopes)
    { o with
      mcpAuthorizationCodes := o.mcpAuthorizationCodes.deleteWhere fun row =>
        Concerns principal client row.principalId row.clientId ∧ row.consumedAt = none ∧
          ¬scopesFit row.scopes scopes }
  refine ⟨fun row hrow hconsumed scope hscope => ?_, fun row hrow hrevoked scope hscope => ?_,
    fun row hrow hrevoked scope hscope => ?_⟩
  · dsimp only at hrow
    rw [hcodes, Table.mem_deleteWhere] at hrow
    obtain ⟨hrow, hkept⟩ := hrow
    refine ⟨ho.code row hrow hconsumed scope hscope, fun hconcerns => ?_⟩
    simp [hconcerns, hconsumed, scopesFit] at hkept
    exact hkept scope hscope
  · obtain ⟨old, hold, hages, hfamily⟩ := haccess row hrow
    have hrevoked' : old.revokedAt = none := not_not.mp fun hr => hages.revoked hr hrevoked
    refine ⟨hages.bounded (ho.access old hold) hrevoked scope hscope, fun hconcerns => ?_⟩
    by_contra hscope'
    rw [hages.principalId, hages.clientId] at hconcerns
    rw [hages.scopes] at hscope
    refine hfamily hrevoked (List.mem_append_left _ (List.mem_map.mpr ⟨old, ?_, rfl⟩))
    simp only [Table.mem_select, hconcerns, hrevoked', scopesFit, decide_eq_true_eq, true_and]
    exact ⟨hold, fun hfit => hscope' (hfit scope hscope)⟩
  · obtain ⟨old, hold, hages, hfamily⟩ := hrefresh row hrow
    have hrevoked' : old.revokedAt = none := not_not.mp fun hr => hages.revoked hr hrevoked
    refine ⟨hages.bounded (ho.refresh old hold) hrevoked scope hscope, fun hconcerns => ?_⟩
    by_contra hscope'
    rw [hages.principalId, hages.clientId] at hconcerns
    rw [hages.scopes] at hscope
    refine hfamily hrevoked (List.mem_append_right _ (List.mem_map.mpr ⟨old, ?_, rfl⟩))
    simp only [Table.mem_select, hconcerns, hrevoked', scopesFit, decide_eq_true_eq, true_and]
    exact ⟨hold, fun hfit => hscope' (hfit scope hscope)⟩

theorem sameCeilings_invalidateExcessGrants :
    o.SameCeilings (o.invalidateExcessGrants principal client scopes now) := by
  unfold invalidateExcessGrants
  obtain ⟨-, hsame, -⟩ := foldl_revokeFamily now _ _
  exact ⟨hsame.principal, hsame.client⟩

/-- A setting is stored and what exceeds it is revoked : the rest is within the ceilings. -/
theorem bounded_narrowed {between : OAuthTables}
    (h : o' = between.invalidateExcessGrants principal client scopes now)
    (ho : o.Bounded (o.Permits supported)) (hsame : o.SameCredentials between)
    (hsupported : between.CeilingsSupported supported)
    (hpermits : ∀ p c scope, o.Permits supported p c scope →
      (Concerns principal client p c → scope ∈ scopes) → between.Permits supported p c scope) :
    o'.CeilingsSupported supported ∧ o'.Bounded (o'.Permits supported) := by
  have hceilings : between.SameCeilings o' := h ▸ sameCeilings_invalidateExcessGrants
  have hbetween : between.Bounded (o.Permits supported) := by
    refine ⟨?_, ?_, ?_⟩
    · rw [hsame.codes]
      exact ho.code
    · rw [hsame.access]
      exact ho.access
    · rw [hsame.refresh]
      exact ho.refresh
  refine ⟨hceilings.ceilingsSupported hsupported, ?_⟩
  rw [hceilings.permits, h]
  exact (bounded_invalidateExcessGrants hbetween).mono fun p c scope hallowed =>
    hpermits p c scope hallowed.1 hallowed.2

/-- Replacing the ceiling of a principal leaves nothing that exceeds the new one. -/
theorem bounded_replacePrincipalScopeCeiling
    (h : o.replacePrincipalScopeCeiling actor scopes expectedRevision now = .ok (setting, o'))
    (hscopes : scopes ⊆ supported) (hsupported : o.CeilingsSupported supported)
    (ho : o.Bounded (o.Permits supported)) :
    o'.CeilingsSupported supported ∧ o'.Bounded (o'.Permits supported) := by
  obtain ⟨revision, ho'⟩ := replacePrincipalScopeCeiling_eq_ok h
  refine bounded_narrowed ho' ho ⟨rfl, rfl, rfl⟩ ⟨fun row hrow => ?_, hsupported.client⟩
    fun p c scope hallowed hnarrow => ⟨?_, hallowed.2⟩
  · rcases Table.mem_upsert.mp hrow with rfl | ⟨hrow, -⟩
    · exact hscopes
    · exact hsupported.principal row hrow
  · unfold principalScopeCeiling
    dsimp only
    rw [Table.find_upsert]
    split_ifs with hp
    · exact hnarrow ⟨hp.symm, by simp⟩
    · exact hallowed.1

/-- Replacing the ceiling of a client leaves nothing that exceeds the new one. -/
theorem bounded_replaceClientScopeCeiling
    (h : o.replaceClientScopeCeiling actor clientId scopes expectedRevision now = .ok (setting, o'))
    (hscopes : scopes ⊆ supported) (hsupported : o.CeilingsSupported supported)
    (ho : o.Bounded (o.Permits supported)) :
    o'.CeilingsSupported supported ∧ o'.Bounded (o'.Permits supported) := by
  obtain ⟨revision, ho'⟩ := replaceClientScopeCeiling_eq_ok h
  refine bounded_narrowed ho' ho ⟨rfl, rfl, rfl⟩ ⟨hsupported.principal, fun row hrow => ?_⟩
    fun p c scope hallowed hnarrow => ⟨hallowed.1, ?_⟩
  · rcases Table.mem_upsert.mp hrow with rfl | ⟨hrow, -⟩
    · exact hscopes
    · exact hsupported.client row hrow
  · unfold clientScopeCeiling
    dsimp only
    rw [Table.find_upsert]
    split_ifs with hkey
    · obtain ⟨rfl, rfl⟩ := Prod.mk.inj hkey
      exact hnarrow ⟨rfl, by simp⟩
    · exact hallowed.2

/-- Without its ceiling, a client may be granted all that its principal may grant. -/
theorem bounded_deleteClientScopeCeiling
    (h : o.deleteClientScopeCeiling actor clientId expectedRevision = .ok o')
    (hsupported : o.CeilingsSupported supported) (ho : o.Bounded (o.Permits supported)) :
    o'.CeilingsSupported supported ∧ o'.Bounded (o'.Permits supported) := by
  obtain ⟨hsame, hprincipal, hclient⟩ := deleteClientScopeCeiling_eq_ok h
  refine ⟨⟨hprincipal ▸ hsupported.principal, fun row hrow => ?_⟩, ?_⟩
  · rw [hclient] at hrow
    exact hsupported.client row (Table.mem_deleteWhere.mp hrow).1
  · have hbounded : o'.Bounded (o.Permits supported) := by
      refine ⟨?_, ?_, ?_⟩
      · rw [hsame.codes]
        exact ho.code
      · rw [hsame.access]
        exact ho.access
      · rw [hsame.refresh]
        exact ho.refresh
    refine hbounded.mono fun p c scope hallowed => ⟨?_, ?_⟩
    · unfold principalScopeCeiling
      rw [hprincipal]
      exact hallowed.1
    · have hscope := hsupported.effective_client p c hallowed.2
      have hallowed := hallowed.2
      unfold clientScopeCeiling at hallowed ⊢
      rw [hclient, Table.find_deleteWhere]
      cases hfind : o.mcpClientScopeCeilings.find (p, c) with
      | none => exact hscope
      | some row =>
        rw [hfind] at hallowed
        simp only [Option.filter_some]
        split_ifs
        · exact hallowed
        · exact hscope

theorem insertTokens_sameCeilings {access : AccessTokenRow} {refresh : RefreshTokenRow}
    (h : o.insertTokens access refresh = .ok o') : o.SameCeilings o' := by
  unfold insertTokens at h
  split at h
  · cases h
    exact ⟨rfl, rfl⟩
  · cases h

end OAuthTables

/-! ## What other transactions leave alone -/

/-- The transaction left the ceilings and the identities alone. -/
structure Database.KeepsCeilings (db db' : Database) : Prop where
  ceilings : db.oauth.SameCeilings db'.oauth
  actors : db.KeepsActors db'

namespace Database

variable {hashToken : String → Digest} {now : ℤ} {db db' : Database} {actor : Actor}

theorem KeepsCeilings.refl (db : Database) : db.KeepsCeilings db := ⟨⟨rfl, rfl⟩, fun _ h => h⟩

theorem KeepsCeilings.of_eq (h : db.oauth.SameCeilings db'.oauth)
    (hidentities : db'.principalIdentities = db.principalIdentities) : db.KeepsCeilings db' := by
  refine ⟨h, fun actor hactor => ?_⟩
  unfold KnowsActor
  rw [hidentities]
  exact hactor

theorem KnowsActor.resolveIn (h : db.KnowsActor actor) {resolved : Option (Actor × ℕ)}
    (hresolved : db.resolveIn actor.authenticatedIdentity = .ok resolved) :
    ∃ found, resolved = some found ∧ found.1.principalId = actor.principalId := by
  obtain ⟨row, hrow, hprincipal⟩ := h
  unfold Database.resolveIn at hresolved
  rw [hrow] at hresolved
  dsimp only at hresolved
  split at hresolved
  · cases hresolved
  · cases hresolved
    exact ⟨_, rfl, hprincipal⟩

theorem KnowsActor.resolveOrCreateIn (h : db.KnowsActor actor) {resolved : Actor × ℕ}
    (hresolved : db.resolveOrCreateIn actor.authenticatedIdentity = .ok (resolved, db')) :
    resolved.1.principalId = actor.principalId := by
  obtain ⟨found, hfound, hresolved⟩ := Except.bind_eq_ok.mp hresolved
  obtain ⟨found, rfl, hprincipal⟩ := h.resolveIn hfound
  cases hresolved
  exact hprincipal

theorem resolveOrCreateIn_keepsActors {identity : Identity} {resolved : Actor × ℕ}
    (h : db.resolveOrCreateIn identity = .ok (resolved, db')) : db.KeepsActors db' := by
  intro actor ⟨row, hrow, hprincipal⟩
  rcases resolveOrCreateIn_eq_ok h with ⟨rfl, -⟩ | ⟨principals, identities, -, hi, rfl⟩
  · exact ⟨row, hrow, hprincipal⟩
  · refine ⟨row, ?_, hprincipal⟩
    dsimp only
    rw [(Table.insert?_eq_some.mp hi).2]
    exact find?_append_of_some hrow

theorem commit_keepsCeilings {ε : Type*} {result : Except ε Database}
    (h : ∀ db', result = .ok db' → db.KeepsCeilings db') : db.KeepsCeilings (db.commit result) := by
  unfold commit
  split
  · exact h _ rfl
  · exact .refl db

theorem issueMcpAuthorizationCode_keepsCeilings {code : String}
    {registered : McpRegisteredOAuthClient} {grant : McpAuthorizationGrant} {codeChallenge : String}
    {expiresAt : ℤ}
    (h : db.issueMcpAuthorizationCode hashToken code registered grant codeChallenge expiresAt now =
      .ok db') : db.KeepsCeilings db' := by
  unfold issueMcpAuthorizationCode at h
  obtain ⟨⟨⟨actor, identityId⟩, resolved⟩, hresolved, h⟩ := Except.bind_eq_ok.mp h
  rw [Except.mapError_eq_ok] at hresolved
  obtain ⟨registeredTables, hregistered, h⟩ := Except.bind_eq_ok.mp h
  obtain ⟨oauth, hoauth, h⟩ := Except.bind_eq_ok.mp h
  cases h
  have hsame := (OAuthTables.upsertClient_same hregistered).2
  rw [resolveOrCreateIn_oauth hresolved] at hsame
  unfold OAuthTables.insertCode at hoauth
  split at hoauth
  · cases hoauth
  · cases hoauth
    have hactors := resolveOrCreateIn_keepsActors hresolved
    exact ⟨⟨hsame.principal, hsame.client⟩, hactors⟩

theorem exchangeMcpAuthorizationCode_keepsCeilings {request : McpAuthorizationCodeExchange}
    {outcome : Option McpAuthorizationGrant}
    (h : db.exchangeMcpAuthorizationCode hashToken request now = .ok (outcome, db')) :
    db.KeepsCeilings db' := by
  unfold exchangeMcpAuthorizationCode at h
  split at h
  · cases h
    exact .refl _
  next code hcode =>
  by_cases hmatches : code.Matches request ∧ code.Usable now
  · rw [if_pos hmatches] at h
    obtain ⟨principal, -, h⟩ := Except.bind_eq_ok.mp h
    obtain ⟨oauth, hoauth, h⟩ := Except.bind_eq_ok.mp h
    cases h
    have hsame := OAuthTables.insertTokens_sameCeilings hoauth
    exact .of_eq ⟨hsame.principal, hsame.client⟩ rfl
  · rw [if_neg hmatches] at h
    split at h
    · split_ifs at h <;> cases h
      · exact .of_eq ⟨rfl, rfl⟩ rfl
      · exact .refl _
    · cases h
      exact .refl _

theorem rotateMcpRefreshToken_keepsCeilings {rotation : McpRefreshTokenRotation}
    {outcome : McpRefreshTokenRotationOutcome}
    (h : db.rotateMcpRefreshToken hashToken rotation now = .ok (outcome, db')) :
    db.KeepsCeilings db' := by
  unfold rotateMcpRefreshToken at h
  split at h
  · cases h
    exact .refl _
  next row hrow =>
  by_cases hmatches : (row.clientId = rotation.clientId ∧ row.resourceUri = rotation.resourceUri) ∧
      row.Usable now
  · rw [if_pos hmatches] at h
    dsimp only at h
    split_ifs at h
    · obtain ⟨oauth, hoauth, h⟩ := Except.bind_eq_ok.mp h
      cases h
      have hsame := OAuthTables.insertTokens_sameCeilings hoauth
      exact .of_eq ⟨hsame.principal, hsame.client⟩ rfl
    · cases h
      exact .refl _
  · rw [if_neg hmatches] at h
    split_ifs at h <;> cases h
    · exact .of_eq ⟨rfl, rfl⟩ rfl
    · exact .refl _

theorem authenticateMcpAccessToken_keepsCeilings {token resourceUri : String}
    {principal : Option McpAuthenticatedPrincipal}
    (h : db.authenticateMcpAccessToken hashToken token resourceUri now = .ok (principal, db')) :
    db.KeepsCeilings db' := by
  unfold authenticateMcpAccessToken at h
  split at h
  · cases h
    exact .refl _
  split_ifs at h
  · obtain ⟨identity, -, h⟩ := Except.bind_eq_ok.mp h
    cases h
    exact .of_eq ⟨rfl, rfl⟩ rfl
  · cases h
    exact .refl _

theorem revokeMcpToken_keepsCeilings (token : String) (clientId : ClientId) :
    db.KeepsCeilings (db.revokeMcpToken hashToken token clientId now) := by
  refine .of_eq ?_ rfl
  unfold revokeMcpToken OAuthTables.revokeToken
  dsimp only
  split
  · exact ⟨rfl, rfl⟩
  · exact ⟨rfl, rfl⟩

end Database

/-- The transactions that replace or delete a ceiling. -/
def TokenAction.SetsCeiling : TokenAction → Prop
  | .replacePrincipalCeiling .. | .replaceClientCeiling .. | .deleteClientCeiling .. => True
  | _ => False

/-- All others leave the ceilings alone. -/
theorem TokenAction.keepsCeilings {hashToken : String → Digest} {now : ℤ} {db : Database}
    {action : TokenAction} (hsets : ¬action.SetsCeiling)
    (helsewhere : ∀ db', action = .elsewhere db' →
      db.oauth.SameCeilings db'.oauth ∧ db.KeepsActors db') :
    db.KeepsCeilings (action.next hashToken now db) := by
  cases action with
  | issue code registered grant codeChallenge expiresAt =>
    exact Database.commit_keepsCeilings fun db' h =>
      Database.issueMcpAuthorizationCode_keepsCeilings h
  | exchange request =>
    refine Database.commit_keepsCeilings fun db' h => ?_
    obtain ⟨⟨outcome, db''⟩, hout, rfl⟩ := Except.map_eq_ok.mp h
    exact Database.exchangeMcpAuthorizationCode_keepsCeilings hout
  | rotate rotation =>
    refine Database.commit_keepsCeilings fun db' h => ?_
    obtain ⟨⟨outcome, db''⟩, hout, rfl⟩ := Except.map_eq_ok.mp h
    exact Database.rotateMcpRefreshToken_keepsCeilings hout
  | authenticate token resourceUri =>
    refine Database.commit_keepsCeilings fun db' h => ?_
    obtain ⟨⟨principal, db''⟩, hout, rfl⟩ := Except.map_eq_ok.mp h
    exact Database.authenticateMcpAccessToken_keepsCeilings hout
  | revokeClient identity clientId =>
    refine Database.commit_keepsCeilings fun db' h => ?_
    obtain ⟨_ | ⟨actor, identityId⟩, -, h⟩ := Except.bind_eq_ok.mp h
    · cases h
      exact .refl _
    · cases h
      exact .of_eq ⟨rfl, rfl⟩ rfl
  | revokeToken token clientId => exact Database.revokeMcpToken_keepsCeilings token clientId
  | registerClient client maximumClients =>
    refine Database.commit_keepsCeilings fun db' h => ?_
    obtain ⟨o, ho, rfl⟩ := Except.map_eq_ok.mp h
    obtain ⟨⟨room, o'⟩, hout, rfl⟩ := Except.map_eq_ok.mp ho
    exact .of_eq (OAuthTables.registerClientBounded_eq_ok hout).2 rfl
  | purge unusedClientCutoff => exact .of_eq ⟨rfl, rfl⟩ rfl
  | elsewhere db' =>
    obtain ⟨hsame, hactors⟩ := helsewhere db' rfl
    exact ⟨hsame, hactors⟩
  | replacePrincipalCeiling | replaceClientCeiling | deleteClientCeiling =>
    exact absurd trivial hsets

/-! ## Runs -/

namespace CeilingSystem

variable {server : AuthorizationServer} {lifetimes : TokenLifetimes}
  {hashToken : String → Digest} {sys sys' : CeilingSystem} {label : ℤ × CeilingAction}
  {moves : List (Move CeilingSystem (ℤ × CeilingAction))}

/-- Every live credential of the system is within the ceilings. -/
def Within (server : AuthorizationServer) (sys : CeilingSystem) : Prop :=
  sys.oauth.Within server.supportedScopes sys.tokens.now

/-- When `authorize` issues a code, each ceiling it has read is the stored one, or the one that
replaced it allows every scope of the code. -/
def IssuesWithin (server : AuthorizationServer) (hashToken : String → Digest)
    (m : Move CeilingSystem (ℤ × CeilingAction)) : Prop :=
  ∀ read code expiresAt action row, m.label.2 = .authorize read code expiresAt →
    server.authorize read code expiresAt = some action →
    action.Issues hashToken m.label.1 m.pre.tokens.db row →
    (m.pre.oauth.principalScopeCeiling read.request.actor.principalId = read.stored.principal ∨
      row.scopes ⊆ effectiveScopes server.supportedScopes
        (m.pre.oauth.principalScopeCeiling read.request.actor.principalId)) ∧
    (m.pre.oauth.clientScopeCeiling read.request.actor.principalId
        read.request.client.client.clientId = read.stored.client ∨
      row.scopes ⊆ effectiveScopes server.supportedScopes
        (m.pre.oauth.clientScopeCeiling read.request.actor.principalId
          read.request.client.client.clientId))

/-- What every state has in which no code was issued beyond the ceilings. -/
structure Consistent (server : AuthorizationServer) (sys : CeilingSystem) : Prop where
  supported : sys.oauth.CeilingsSupported server.supportedScopes
  bounded : sys.oauth.Bounded (sys.oauth.Permits server.supportedScopes)

/-- The actors of the requests on their way are known. -/
structure ActorsKnown (sys : CeilingSystem) : Prop where
  reading : ∀ read ∈ sys.reading, sys.tokens.db.KnowsActor read.request.actor
  resolved : ∀ read ∈ sys.resolved, sys.tokens.db.KnowsActor read.request.actor

theorem consistent_start : start.Consistent server :=
  ⟨⟨fun _ hrow => absurd hrow Table.not_mem_empty, fun _ hrow => absurd hrow Table.not_mem_empty⟩,
    ⟨fun _ hrow => absurd hrow Table.not_mem_empty, fun _ hrow => absurd hrow Table.not_mem_empty,
      fun _ hrow => absurd hrow Table.not_mem_empty⟩⟩

theorem actorsKnown_start : start.ActorsKnown := ⟨by simp [start], by simp [start]⟩

/-- The action that `authorize` leads to, if any. -/
theorem authorize_eq_some {read : CeilingsRead} {code : String} {expiresAt : ℤ}
    {action : TokenAction} (h : server.authorize read code expiresAt = some action) :
    ∃ granted grant, action = .issue code read.request.client grant read.request.codeChallenge
        expiresAt ∧ grant.principal = read.request.actor.authenticatedIdentity ∧
      grant.scopes = granted ∧
      granted ⊆ effectiveScopes server.supportedScopes read.stored.principal ∧
      granted ⊆ effectiveScopes server.supportedScopes read.stored.client := by
  unfold AuthorizationServer.authorize at h
  dsimp only at h
  split_ifs at h
  obtain ⟨granted, hgranted, rfl⟩ := Option.map_eq_some_iff.mp h
  have hsubset := server.eligibleScopes_subset _ _ _ _ hgranted
  exact ⟨granted, _, rfl, rfl, rfl, hsubset.1, hsubset.2⟩

/-- The code that `authorize` issues : for the principal and the client of the request, with
scopes that both ceilings it has read allow. -/
theorem issued_of_authorize {read : CeilingsRead} {code : String} {expiresAt : ℤ}
    {action : TokenAction} (h : server.authorize read code expiresAt = some action) {db : Database}
    (hactor : db.KnowsActor read.request.actor) {now : ℤ} {row : AuthorizationCodeRow}
    (hrow : action.Issues hashToken now db row) :
    row.principalId = read.request.actor.principalId ∧
      row.clientId = read.request.client.client.clientId ∧ row.consumedAt = none ∧
      row.scopes ⊆ effectiveScopes server.supportedScopes read.stored.principal ∧
      row.scopes ⊆ effectiveScopes server.supportedScopes read.stored.client := by
  obtain ⟨granted, grant, rfl, hidentity, hgranted, hsubset⟩ := authorize_eq_some h
  obtain ⟨code', registered, grant', codeChallenge, expiresAt', db', heq, hissue, hmem, hhash⟩ :=
    hrow
  cases heq
  obtain ⟨between, codes, new, actor, identityId, resolved, hresolved, -, -, hcodes, hhash',
    hprincipal, hclient, hscopes, hconsumed, hoauth⟩ :=
      Database.issueMcpAuthorizationCode_eq_ok hissue
  rw [hoauth] at hmem
  rcases (Table.mem_insert? hcodes).mp hmem with hold | rfl
  · have hnone := Table.find_eq_none.mp (Table.insert?_eq_some.mp hcodes).1 row hold
    exact absurd (hhash.trans hhash'.symm) hnone
  · rw [hidentity] at hresolved
    rw [hprincipal, hclient, hscopes, hgranted]
    exact ⟨hactor.resolveOrCreateIn hresolved, rfl, hconsumed, hsubset⟩

theorem ActorsKnown.keeps (h : sys.ActorsKnown) {tokens : TokenSystem}
    (hactors : sys.tokens.db.KeepsActors tokens.db) :
    ActorsKnown { sys with tokens := tokens } :=
  ⟨fun read hread => hactors _ (h.reading read hread),
    fun read hread => hactors _ (h.resolved read hread)⟩

/-- A transaction that sets no ceiling, and issues only codes that both ceilings allow. -/
theorem Consistent.transaction (hsys : sys.Consistent server) (hknown : sys.ActorsKnown) {now : ℤ}
    {action : TokenAction} (hallowed : sys.tokens.Allowed lifetimes hashToken (now, action))
    (hkeeps : sys.tokens.db.KeepsCeilings (action.next hashToken now sys.tokens.db))
    (hissues : ∀ row, action.Issues hashToken now sys.tokens.db row → ∀ scope ∈ row.scopes,
      sys.oauth.Permits server.supportedScopes row.principalId row.clientId scope) :
    Consistent server { sys with tokens := sys.tokens.next hashToken (now, action) } ∧
      ActorsKnown { sys with tokens := sys.tokens.next hashToken (now, action) } := by
  refine ⟨⟨hkeeps.ceilings.ceilingsSupported hsys.supported, ?_⟩, hknown.keeps hkeeps.actors⟩
  have hpermits : OAuthTables.Permits _ _ = OAuthTables.Permits server.supportedScopes _ :=
    hkeeps.ceilings.permits
  show OAuthTables.Bounded _ (OAuthTables.Permits _ (action.next hashToken now sys.tokens.db).oauth)
  rw [hpermits]
  exact (action.statements hallowed.2.1 hallowed.2.2 fun _ h => h).bounded hissues hsys.bounded

/-- A ceiling is replaced or deleted, or its transaction fails. -/
theorem Consistent.setCeiling (hsys : sys.Consistent server) (hknown : sys.ActorsKnown) {now : ℤ}
    {action : TokenAction} {ε : Type*} {result : Except ε OAuthTables}
    (hnext : action.next hashToken now sys.tokens.db = sys.tokens.db.commitOAuth result)
    (hresult : ∀ o, result = .ok o → o.CeilingsSupported server.supportedScopes ∧
      o.Bounded (o.Permits server.supportedScopes)) :
    Consistent server { sys with tokens := sys.tokens.next hashToken (now, action) } ∧
      ActorsKnown { sys with tokens := sys.tokens.next hashToken (now, action) } := by
  cases result with
  | error e =>
    have hdb : (sys.tokens.next hashToken (now, action)).db = sys.tokens.db := hnext
    refine ⟨?_, hknown.keeps (by rw [hdb]; exact fun _ h => h)⟩
    constructor
    · show (sys.tokens.next hashToken (now, action)).db.oauth.CeilingsSupported _
      rw [hdb]
      exact hsys.supported
    · show (sys.tokens.next hashToken (now, action)).db.oauth.Bounded
        ((sys.tokens.next hashToken (now, action)).db.oauth.Permits _)
      rw [hdb]
      exact hsys.bounded
  | ok o =>
    have hdb : (sys.tokens.next hashToken (now, action)).db = { sys.tokens.db with oauth := o } :=
      hnext
    obtain ⟨hsupported, hbounded⟩ := hresult o rfl
    refine ⟨?_, hknown.keeps (by rw [hdb]; exact fun _ h => h)⟩
    constructor
    · show (sys.tokens.next hashToken (now, action)).db.oauth.CeilingsSupported _
      rw [hdb]
      exact hsupported
    · show (sys.tokens.next hashToken (now, action)).db.oauth.Bounded
        ((sys.tokens.next hashToken (now, action)).db.oauth.Permits _)
      rw [hdb]
      exact hbounded

/-- A step keeps the credentials within the ceilings, if a code it issues is. -/
theorem Consistent.step (hsys : sys.Consistent server) (hknown : sys.ActorsKnown)
    (hstep : Step server lifetimes hashToken sys label sys')
    (hissues : IssuesWithin server hashToken ⟨sys, label, sys'⟩) :
    sys'.Consistent server ∧ sys'.ActorsKnown := by
  obtain ⟨now, action⟩ := label
  obtain ⟨hallowed, rfl⟩ := hstep
  cases action with
  | readPrincipal request =>
    refine ⟨⟨hsys.supported, hsys.bounded⟩, ⟨fun read hread => ?_, hknown.resolved⟩⟩
    rcases List.mem_cons.mp hread with rfl | hread
    · exact hallowed
    · exact hknown.reading read hread
  | readClient first =>
    refine ⟨⟨hsys.supported, hsys.bounded⟩, ⟨hknown.reading, fun read hread => ?_⟩⟩
    rcases List.mem_cons.mp hread with rfl | hread
    · exact hknown.reading first hallowed
    · exact hknown.resolved read hread
  | authorize read code expiresAt =>
    obtain ⟨hnow, hread, hdrawn⟩ := hallowed
    unfold next
    dsimp only
    cases hauthorize : server.authorize read code expiresAt with
    | none => exact ⟨hsys, hknown⟩
    | some action =>
      obtain ⟨granted, grant, rfl, -⟩ := authorize_eq_some hauthorize
      have hissue : sys.tokens.Allowed lifetimes hashToken (now, TokenAction.issue code
          read.request.client grant read.request.codeChallenge expiresAt) :=
        ⟨hnow, by simpa [TokenAction.draws] using hdrawn, trivial⟩
      refine hsys.transaction hknown hissue
        (TokenAction.keepsCeilings (fun h => h) (fun _ h => by cases h)) ?_
      intro row hrow scope hscope
      obtain ⟨hprincipal, hclient, -, hsubset, hsubset'⟩ :=
        issued_of_authorize hauthorize (hknown.resolved read hread) hrow
      obtain ⟨hfirst, hsecond⟩ := hissues read code expiresAt _ row rfl hauthorize hrow
      rw [hprincipal, hclient]
      refine ⟨?_, ?_⟩
      · rcases hfirst with heq | hfit
        · rw [heq]
          exact hsubset hscope
        · exact hfit hscope
      · rcases hsecond with heq | hfit
        · rw [heq]
          exact hsubset' hscope
        · exact hfit hscope
  | transaction action =>
    obtain ⟨hissue, hallowed, helsewhere⟩ := hallowed
    unfold next
    dsimp only
    split_ifs with hvalid
    · cases action with
      | replacePrincipalCeiling actor scopes expectedRevision =>
        refine hsys.setCeiling hknown rfl fun o ho => ?_
        obtain ⟨⟨setting, o'⟩, hout, rfl⟩ := Except.map_eq_ok.mp ho
        exact OAuthTables.bounded_replacePrincipalScopeCeiling hout
          (server.scopeCeilings_supported _ _ hvalid).1 hsys.supported hsys.bounded
      | replaceClientCeiling actor clientId scopes expectedRevision =>
        refine hsys.setCeiling hknown rfl fun o ho => ?_
        obtain ⟨⟨setting, o'⟩, hout, rfl⟩ := Except.map_eq_ok.mp ho
        exact OAuthTables.bounded_replaceClientScopeCeiling hout
          (server.scopeCeilings_supported _ _ hvalid).2 hsys.supported hsys.bounded
      | deleteClientCeiling actor clientId expectedRevision =>
        exact hsys.setCeiling hknown rfl fun o ho =>
          OAuthTables.bounded_deleteClientScopeCeiling ho hsys.supported hsys.bounded
      | issue code registered grant codeChallenge expiresAt =>
        exact absurd rfl (hissue code registered grant codeChallenge expiresAt)
      | elsewhere db =>
        refine hsys.transaction hknown hallowed (TokenAction.keepsCeilings (fun h => h) ?_) ?_
        · intro db' heq
          cases heq
          exact ⟨hallowed.2.2.2, helsewhere db rfl⟩
        · rintro row ⟨_, _, _, _, _, _, heq, -⟩
          cases heq
      | exchange | rotate | authenticate | revokeClient | revokeToken | registerClient | purge =>
        refine hsys.transaction hknown hallowed
          (TokenAction.keepsCeilings (fun h => h) fun _ heq => by cases heq) ?_
        rintro row ⟨_, _, _, _, _, _, heq, -⟩
        cases heq
    · exact ⟨hsys, hknown⟩

/-- A code beyond a ceiling is a live credential beyond it. -/
theorem IssuesWithin.of_within (hknown : sys.ActorsKnown)
    (hstep : Step server lifetimes hashToken sys label sys') (h : sys'.Within server) :
    IssuesWithin server hashToken ⟨sys, label, sys'⟩ := by
  intro read code expiresAt action row hlabel hauthorize hrow
  obtain ⟨now, action'⟩ := label
  dsimp only at hlabel
  subst hlabel
  obtain ⟨⟨-, hread, -⟩, rfl⟩ := hstep
  obtain ⟨hprincipal, hclient, hconsumed, -⟩ :=
    issued_of_authorize hauthorize (hknown.resolved read hread) hrow
  obtain ⟨granted, grant, rfl, -⟩ := authorize_eq_some hauthorize
  obtain ⟨_, _, _, _, _, db', heq, hissue, hmem, -⟩ := hrow
  cases heq
  have htokens : (next server hashToken sys (now, .authorize read code expiresAt)).tokens =
      ⟨db', now, [hashToken code] ++ sys.tokens.drawn⟩ := by
    unfold next
    dsimp only
    rw [hauthorize]
    simp only [TokenSystem.next, TokenAction.next, hissue, Database.commit, TokenAction.draws]
  unfold Within oauth at h
  rw [htokens] at h
  have hkeeps := Database.issueMcpAuthorizationCode_keepsCeilings hissue
  have hscopes := h.code row hmem hconsumed
  rw [hkeeps.ceilings.permits, hprincipal, hclient] at hscopes
  exact ⟨Or.inr fun scope hscope => (hscopes scope hscope).1,
    Or.inr fun scope hscope => (hscopes scope hscope).2⟩

theorem consistent_of_run (hrun : Run (Step server lifetimes hashToken) start moves sys) :
    ((∀ m ∈ moves, IssuesWithin server hashToken m) →
      sys.Consistent server ∧ sys.ActorsKnown) ∧
    ((∀ m ∈ moves, m.post.Within server) ↔ ∀ m ∈ moves, IssuesWithin server hashToken m) := by
  induction hrun with
  | nil => exact ⟨fun _ => ⟨consistent_start, actorsKnown_start⟩, by simp⟩
  | @snoc s t moves label hrun hstep ih =>
    obtain ⟨ih, hiff⟩ := ih
    have hlast : (∀ m ∈ moves, IssuesWithin server hashToken m) →
        (t.Within server ↔ IssuesWithin server hashToken ⟨s, label, t⟩) := by
      intro hbefore
      obtain ⟨hconsistent, hknown⟩ := ih hbefore
      refine ⟨IssuesWithin.of_within hknown hstep, fun hissues => ?_⟩
      exact (hconsistent.step hknown hstep hissues).1.bounded.within _
    simp only [List.forall_mem_append, List.forall_mem_singleton]
    refine ⟨fun ⟨hbefore, hissues⟩ => ?_, ?_⟩
    · obtain ⟨hconsistent, hknown⟩ := ih hbefore
      exact hconsistent.step hknown hstep hissues
    · rw [hiff]
      exact and_congr_right hlast

/-- The credentials stay within the ceilings through a whole run exactly when every code is issued
within what is left of the ceilings its request has read. -/
theorem scope_ceilings_bound_iff (hrun : Run (Step server lifetimes hashToken) start moves sys) :
    (∀ m ∈ moves, m.post.Within server) ↔ ∀ m ∈ moves, IssuesWithin server hashToken m :=
  (consistent_of_run hrun).2

end CeilingSystem

/-! ## A request that is overtaken -/

open Database

/-- An Authorization Server with two scopes. -/
def sampleServer : AuthorizationServer where
  supportedScopes := ["notes:read", "notes:write"]
  scopeCeilings principal client :=
    principal ⊆ ["notes:read", "notes:write"] ∧ client ⊆ ["notes:read", "notes:write"]
  eligibleScopes requested principal client :=
    some (requested.filter fun scope => scope ∈ principal ∧ scope ∈ client)
  scopeCeilings_supported principal client h := by simpa using h
  eligibleScopes_subset requested principal client granted h := by
    cases h
    refine ⟨fun scope hscope => ?_, fun scope hscope => ?_⟩
    · exact (of_decide_eq_true (List.mem_filter.mp hscope).2).1
    · exact (of_decide_eq_true (List.mem_filter.mp hscope).2).2

def sampleAuthorizeRequest : AuthorizeRequest where
  actor := alice
  client := sampleClient
  redirectUri := .supplied "https://client.example.test/callback"
  resourceUri := "https://notes.example.test/mcp"
  scopes := ["notes:read", "notes:write"]
  codeChallenge := "challenge-1"

/-- Alice authorizes a client for reading and writing, and narrows her ceiling to reading after
the request has read it. -/
def overtakenRequest : List (ℤ × CeilingAction) :=
  [(0, .transaction (.elsewhere (empty.login alice.authenticatedIdentity))),
    (0, .readPrincipal sampleAuthorizeRequest),
    (0, .readClient ⟨sampleAuthorizeRequest, none⟩),
    (1000, .transaction (.replacePrincipalCeiling alice ["notes:read"] 0)),
    (2000, .authorize ⟨sampleAuthorizeRequest, none, none⟩ "code-alice" 302000)]

/-- One step of that run. -/
def sampleCeilingNext (sys : CeilingSystem) (label : ℤ × CeilingAction) : CeilingSystem :=
  sys.next sampleServer sampleTokenDigest label

/-- The moves of that run. -/
def overtakenRequestMoves : List (Move CeilingSystem (ℤ × CeilingAction)) :=
  Run.trace sampleCeilingNext .start overtakenRequest

theorem run_overtakenRequest :
    Run (CeilingSystem.Step sampleServer mcpAuthorizationLifetimes sampleTokenDigest) .start
      overtakenRequestMoves (overtakenRequest.foldl sampleCeilingNext .start) := by
  refine Run.run_trace_of_legal sampleCeilingNext _ _ ?_
  refine List.forall_mem_cons.mpr ⟨⟨fun _ _ _ _ _ h => (by cases h),
    ⟨by decide, by decide, ⟨rfl, rfl, rfl⟩, ⟨rfl, rfl⟩⟩, ?_⟩, ?_⟩
  · rintro db h actor ⟨row, hrow, -⟩
    cases hrow
  refine List.forall_mem_cons.mpr ⟨⟨_, rfl, rfl⟩, ?_⟩
  refine List.forall_mem_cons.mpr ⟨List.mem_singleton_self _, ?_⟩
  refine List.forall_mem_cons.mpr ⟨⟨fun _ _ _ _ _ h => (by cases h),
    ⟨by decide, by decide, trivial⟩, fun _ h => (by cases h)⟩, ?_⟩
  refine List.forall_mem_cons.mpr ⟨⟨by decide, List.mem_singleton_self _, by decide⟩, ?_⟩
  exact List.forall_mem_nil _

/-- The code is issued for writing, which the ceiling excludes by then. -/
theorem scope_ceiling_overtaken : ∃ moves sys,
    Run (CeilingSystem.Step sampleServer mcpAuthorizationLifetimes sampleTokenDigest) .start
      moves sys ∧ ∃ m ∈ moves, ¬m.post.Within sampleServer := by
  refine ⟨_, _, run_overtakenRequest, _, List.mem_of_getLast? rfl, fun hwithin => ?_⟩
  have hissued :
      ∃ row ∈ (overtakenRequest.foldl sampleCeilingNext .start).oauth.mcpAuthorizationCodes,
      row.consumedAt = none ∧ row.principalId = ⟨1⟩ ∧ "notes:write" ∈ row.scopes := by decide
  obtain ⟨row, hrow, hconsumed, hprincipal, hscope⟩ := hissued
  have hpermits := (hwithin.code row hrow hconsumed "notes:write" hscope).1
  rw [hprincipal] at hpermits
  exact absurd hpermits (by decide)

/-- In that run it is the issue of the code that is beyond the ceiling. -/
theorem scope_ceilings_bound_iff_overtakenRequest :
    (∀ m ∈ overtakenRequestMoves, m.post.Within sampleServer) ↔
      ∀ m ∈ overtakenRequestMoves, CeilingSystem.IssuesWithin sampleServer sampleTokenDigest m :=
  CeilingSystem.scope_ceilings_bound_iff run_overtakenRequest

end Marginalis
