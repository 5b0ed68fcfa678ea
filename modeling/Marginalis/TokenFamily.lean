import Marginalis.NoLostUpdate
import Marginalis.Run
import Marginalis.TokenStatements

/-!
# Safety of token families

`TokenSystem` runs the transactions on codes and tokens in any order, under a clock that does
not go back and with tokens drawn so that their digests are new. Each transaction is a sequence
of token statements (`TokenAction.statements`), so the invariant holds in every state of a run.

What a run promises is `FamiliesSafe`. A replay is recognised by a row : the consumed code, or
the rotated token. The purge deletes such a row only when nothing in its family works any more,
and a family that has stopped working is never taken up again, so a replay finds either the row
or a dead family.
-/

namespace Marginalis

open Relation

/-- `MCP_AUTHORIZATION_CONFIG` : one hour for an access token, thirty days for a refresh token. -/
def mcpAuthorizationLifetimes : TokenLifetimes where
  accessExpiresAt now := now + 60 * 60 * 1000
  refreshExpiresAt now := now + 30 * 24 * 60 * 60 * 1000
  access_le_refresh s t h := by omega

/-! ## Transactions -/

/-- The transactions on OAuth credentials, and any other one. -/
inductive TokenAction
  | issue (code : String) (registered : McpRegisteredOAuthClient) (grant : McpAuthorizationGrant)
      (codeChallenge : String) (expiresAt : ℤ)
  | exchange (request : McpAuthorizationCodeExchange)
  | rotate (rotation : McpRefreshTokenRotation)
  | authenticate (token resourceUri : String)
  | revokeClient (identity : Identity) (clientId : ClientId)
  | revokeToken (token : String) (clientId : ClientId)
  | registerClient (client : McpOAuthClient) (maximumClients : ℕ)
  | replacePrincipalCeiling (actor : Actor) (scopes : List Scope) (expectedRevision : ℕ)
  | replaceClientCeiling (actor : Actor) (clientId : ClientId) (scopes : List Scope)
      (expectedRevision : ℕ)
  | deleteClientCeiling (actor : Actor) (clientId : ClientId) (expectedRevision : ℕ)
  | purge (unusedClientCutoff : ℤ)
  /-- A transaction that leaves codes, tokens and ceilings alone. -/
  | elsewhere (db : Database)

/-- Two states of the tables with the same scope ceilings. -/
structure OAuthTables.SameCeilings (o o' : OAuthTables) : Prop where
  principal : o'.mcpPrincipalScopeCeilings = o.mcpPrincipalScopeCeilings
  client : o'.mcpClientScopeCeilings = o.mcpClientScopeCeilings

/-- The OAuth tables after a transaction on them. -/
def Database.commitOAuth {ε : Type*} (db : Database) (result : Except ε OAuthTables) : Database :=
  db.commit (result.map fun oauth => { db with oauth := oauth })

namespace TokenAction

variable (hashToken : String → Digest)

/-- The database after the transaction. -/
def next (now : ℤ) (db : Database) : TokenAction → Database
  | issue code registered grant codeChallenge expiresAt => db.commit
      (db.issueMcpAuthorizationCode hashToken code registered grant codeChallenge expiresAt now)
  | exchange request =>
    db.commit ((db.exchangeMcpAuthorizationCode hashToken request now).map Prod.snd)
  | rotate rotation => db.commit ((db.rotateMcpRefreshToken hashToken rotation now).map Prod.snd)
  | authenticate token resourceUri =>
    db.commit ((db.authenticateMcpAccessToken hashToken token resourceUri now).map Prod.snd)
  | revokeClient identity clientId => db.commit (db.revokeMcpClientTokens identity clientId now)
  | revokeToken token clientId => db.revokeMcpToken hashToken token clientId now
  | registerClient client maximumClients =>
    db.commitOAuth ((db.oauth.registerClientBounded client now maximumClients).map Prod.snd)
  | replacePrincipalCeiling actor scopes expectedRevision => db.commitOAuth
      ((db.oauth.replacePrincipalScopeCeiling actor scopes expectedRevision now).map Prod.snd)
  | replaceClientCeiling actor clientId scopes expectedRevision => db.commitOAuth
      ((db.oauth.replaceClientScopeCeiling actor clientId scopes expectedRevision now).map Prod.snd)
  | deleteClientCeiling actor clientId expectedRevision =>
    db.commitOAuth (db.oauth.deleteClientScopeCeiling actor clientId expectedRevision)
  | purge unusedClientCutoff => (db.purgeExpiredOperationalState now unusedClientCutoff).2
  | elsewhere db' => db'

/-- The digests of the codes and tokens drawn for the transaction. -/
def draws : TokenAction → List Digest
  | issue code .. => [hashToken code]
  | exchange request => [hashToken request.accessToken, hashToken request.refreshToken]
  | rotate rotation => [hashToken rotation.newAccessToken, hashToken rotation.newRefreshToken]
  | _ => []

/-- What the callers of the transactions see to. -/
def Allowed (lifetimes : TokenLifetimes) (now : ℤ) (db : Database) : TokenAction → Prop
  | exchange request => request.accessExpiresAt = lifetimes.accessExpiresAt now ∧
      request.refreshExpiresAt = lifetimes.refreshExpiresAt now
  | rotate rotation => rotation.accessExpiresAt = lifetimes.accessExpiresAt now ∧
      rotation.refreshExpiresAt = lifetimes.refreshExpiresAt now
  | elsewhere db' => db.oauth.SameCredentials db'.oauth ∧ db.oauth.SameCeilings db'.oauth
  | _ => True

/-- The transaction issues the code of this row. -/
def Issues (now : ℤ) (db : Database) (action : TokenAction) (row : AuthorizationCodeRow) : Prop :=
  ∃ code registered grant codeChallenge expiresAt db',
    action = issue code registered grant codeChallenge expiresAt ∧
    db.issueMcpAuthorizationCode hashToken code registered grant codeChallenge expiresAt now =
      .ok db' ∧
    row ∈ db'.oauth.mcpAuthorizationCodes ∧ row.codeHash = hashToken code

end TokenAction

/-- A database with a clock and every digest drawn so far. -/
structure TokenSystem where
  db : Database
  now : ℤ
  drawn : List Digest

namespace TokenSystem

/-- No code or token was ever issued. -/
def start : TokenSystem := ⟨Database.empty, 0, []⟩

/-- The codes and tokens of the system. -/
def tokens (sys : TokenSystem) : TokenState := ⟨sys.db.oauth, sys.drawn⟩

/-- The system after a transaction. -/
def next (hashToken : String → Digest) (sys : TokenSystem) (label : ℤ × TokenAction) :
    TokenSystem :=
  ⟨label.2.next hashToken label.1 sys.db, label.1, label.2.draws hashToken ++ sys.drawn⟩

/-- A transaction that can run now. -/
def Allowed (lifetimes : TokenLifetimes) (hashToken : String → Digest) (sys : TokenSystem)
    (label : ℤ × TokenAction) : Prop :=
  sys.now ≤ label.1 ∧ (∀ digest ∈ label.2.draws hashToken, digest ∉ sys.drawn) ∧
    label.2.Allowed lifetimes label.1 sys.db

/-- One transaction. -/
def Step (lifetimes : TokenLifetimes) (hashToken : String → Digest) (sys : TokenSystem)
    (label : ℤ × TokenAction) (sys' : TokenSystem) : Prop :=
  sys.Allowed lifetimes hashToken label ∧ sys' = sys.next hashToken label

end TokenSystem

/-! ## Transactions are token statements -/

section Statements

variable {lifetimes : TokenLifetimes} {issuable : AuthorizationCodeRow → Prop}
  {hashToken : String → Digest} {now : ℤ} {db db' : Database} {o o' : OAuthTables}
  {drawn : List Digest}

theorem OAuthTables.SameCredentials.statements (h : o.SameCredentials o') :
    TokenStatements lifetimes issuable now ⟨o, drawn⟩ ⟨o', drawn⟩ :=
  .single (.other h (List.Subset.refl drawn))

theorem OAuthTables.revokeFamily_statement (family : Digest) :
    TokenStatement lifetimes issuable now ⟨o, drawn⟩ ⟨o.revokeFamily family now, drawn⟩ :=
  .revoke fun _ _ f => f = family

theorem OAuthTables.upsertClient_same {registered : McpRegisteredOAuthClient}
    (h : o.upsertClient registered now = .ok o') :
    o.SameCredentials o' ∧ o.SameCeilings o' := by
  unfold upsertClient at h
  dsimp only at h
  split at h
  · cases h
    exact ⟨⟨rfl, rfl, rfl⟩, ⟨rfl, rfl⟩⟩
  · split_ifs at h
    cases h
    exact ⟨⟨rfl, rfl, rfl⟩, ⟨rfl, rfl⟩⟩

theorem Database.resolveOrCreateIn_oauth {identity : Identity} {resolved : Actor × ℕ}
    (h : db.resolveOrCreateIn identity = .ok (resolved, db')) : db'.oauth = db.oauth := by
  rcases resolveOrCreateIn_eq_ok h with ⟨rfl, -⟩ | ⟨principals, identities, -, -, rfl⟩
  · rfl
  · rfl

/-- What issuing a code does. -/
theorem Database.issueMcpAuthorizationCode_eq_ok {code : String}
    {registered : McpRegisteredOAuthClient} {grant : McpAuthorizationGrant}
    {codeChallenge : String} {expiresAt : ℤ}
    (h : db.issueMcpAuthorizationCode hashToken code registered grant codeChallenge expiresAt now =
      .ok db') :
    ∃ (between : OAuthTables) (codes : Table AuthorizationCodeRow) (row : AuthorizationCodeRow)
      (actor : Actor) (identityId : ℕ) (resolved : Database),
      db.resolveOrCreateIn grant.principal = .ok ((actor, identityId), resolved) ∧
      db.oauth.SameCredentials between ∧ db.oauth.SameCeilings between ∧
      between.mcpAuthorizationCodes.insert? row = some codes ∧
      row.codeHash = hashToken code ∧ row.principalId = actor.principalId ∧
      row.clientId = registered.client.clientId ∧ row.scopes = grant.scopes ∧
      row.consumedAt = none ∧ db'.oauth = { between with mcpAuthorizationCodes := codes } := by
  unfold issueMcpAuthorizationCode at h
  obtain ⟨⟨⟨actor, identityId⟩, resolved⟩, hresolved, h⟩ := Except.bind_eq_ok.mp h
  rw [Except.mapError_eq_ok] at hresolved
  obtain ⟨registeredTables, hregistered, h⟩ := Except.bind_eq_ok.mp h
  obtain ⟨oauth, hoauth, h⟩ := Except.bind_eq_ok.mp h
  cases h
  have hsame := OAuthTables.upsertClient_same hregistered
  rw [resolveOrCreateIn_oauth hresolved] at hsame
  unfold OAuthTables.insertCode at hoauth
  split at hoauth
  · cases hoauth
  · next codes hcodes =>
    cases hoauth
    exact ⟨registeredTables.authorizeClient actor.principalId registered.client.clientId
      grant.scopes now, codes, _, actor, identityId, resolved, hresolved,
      ⟨hsame.1.codes, hsame.1.access, hsame.1.refresh⟩, ⟨hsame.2.principal, hsame.2.client⟩,
      hcodes, rfl, rfl, rfl, rfl, rfl, rfl⟩

/-- What an exchange does : nothing, a revocation, or the start of a family. -/
theorem Database.exchangeMcpAuthorizationCode_eq_ok {request : McpAuthorizationCodeExchange}
    {outcome : Option McpAuthorizationGrant}
    (h : db.exchangeMcpAuthorizationCode hashToken request now = .ok (outcome, db'))
    (hfresh : ∀ digest ∈ (TokenAction.exchange request).draws hashToken, digest ∉ drawn)
    (hallowed : (TokenAction.exchange request).Allowed lifetimes now db) :
    outcome = none ∧ (db' = db ∨ ∃ family, db'.oauth = db.oauth.revokeFamily family now) ∨
      ∃ code grant, outcome = some grant ∧
        db.oauth.mcpAuthorizationCodes.find (hashToken request.code) = some code ∧
        { code with
          consumedAt := some now
          tokenFamilyId := some (hashToken request.refreshToken) } ∈
            db'.oauth.mcpAuthorizationCodes ∧
        ∀ issuable, TokenStatement lifetimes issuable now ⟨db.oauth, drawn⟩
          ⟨db'.oauth, (TokenAction.exchange request).draws hashToken ++ drawn⟩ := by
  unfold exchangeMcpAuthorizationCode at h
  split at h
  · cases h
    exact Or.inl ⟨rfl, Or.inl rfl⟩
  next code hcode =>
  by_cases hmatches : code.Matches request ∧ code.Usable now
  · rw [if_pos hmatches] at h
    obtain ⟨⟨hclient, -, hresource, -⟩, husable⟩ := hmatches
    obtain ⟨principal, -, h⟩ := Except.bind_eq_ok.mp h
    obtain ⟨oauth, hoauth, h⟩ := Except.bind_eq_ok.mp h
    cases h
    refine Or.inr ⟨code, _, rfl, hcode, Table.mem_upsert.mpr (Or.inl rfl), fun _ => ?_⟩
    exact .exchange (Table.mem_of_find hcode) husable
      { access_drawn := hfresh _ (by simp [TokenAction.draws])
        refresh_drawn := hfresh _ (by simp [TokenAction.draws])
        access_family := rfl
        refresh_family := rfl
        access_state := by simp [AccessTokenRow.familyState, hclient]
        refresh_state := by simp [RefreshTokenRow.familyState, hclient]
        access_scopes := List.Subset.refl _
        refresh_scopes := rfl
        access_expires := hallowed.1
        refresh_expires := hallowed.2
        unrotated := rfl } hoauth
  · rw [if_neg hmatches] at h
    split at h
    · next family hfamily =>
      split_ifs at h
      · cases h
        exact Or.inl ⟨rfl, Or.inr ⟨family, rfl⟩⟩
      · cases h
        exact Or.inl ⟨rfl, Or.inl rfl⟩
    · cases h
      exact Or.inl ⟨rfl, Or.inl rfl⟩

/-- A consumed code that is presented again revokes its family. -/
theorem Database.exchangeMcpAuthorizationCode_replay {request : McpAuthorizationCodeExchange}
    {code : AuthorizationCodeRow} {family : Digest}
    (hcode : db.oauth.mcpAuthorizationCodes.find (hashToken request.code) = some code)
    (hmatches : code.Matches request) (hconsumed : code.consumedAt ≠ none)
    (hfamily : code.tokenFamilyId = some family) :
    db.exchangeMcpAuthorizationCode hashToken request now =
      .ok (none, { db with oauth := db.oauth.revokeFamily family now }) := by
  have husable : ¬code.Usable now := fun h => hconsumed h.1
  simp [exchangeMcpAuthorizationCode, hcode, hmatches, husable, hfamily, hconsumed]

/-- What a rotation does : nothing, a revocation, or a new pair of the family. -/
theorem Database.rotateMcpRefreshToken_eq_ok {rotation : McpRefreshTokenRotation}
    {outcome : McpRefreshTokenRotationOutcome}
    (h : db.rotateMcpRefreshToken hashToken rotation now = .ok (outcome, db'))
    (hfresh : ∀ digest ∈ (TokenAction.rotate rotation).draws hashToken, digest ∉ drawn)
    (hallowed : (TokenAction.rotate rotation).Allowed lifetimes now db) :
    (∀ scopes, outcome ≠ .rotated scopes) ∧
        (db' = db ∨ ∃ family, db'.oauth = db.oauth.revokeFamily family now) ∨
      ∃ row scopes, outcome = .rotated scopes ∧
        db.oauth.mcpRefreshTokens.find (hashToken rotation.refreshToken) = some row ∧
        (∃ row' ∈ db'.oauth.mcpRefreshTokens, row.Ages row' ∧ row'.rotatedAt ≠ none) ∧
        ∀ issuable, TokenStatement lifetimes issuable now ⟨db.oauth, drawn⟩
          ⟨db'.oauth, (TokenAction.rotate rotation).draws hashToken ++ drawn⟩ := by
  unfold rotateMcpRefreshToken at h
  split at h
  · cases h
    exact Or.inl ⟨by simp, Or.inl rfl⟩
  next row hrow =>
  by_cases hmatches : (row.clientId = rotation.clientId ∧ row.resourceUri = rotation.resourceUri) ∧
      row.Usable now
  · rw [if_pos hmatches] at h
    obtain ⟨⟨hclient, -⟩, husable⟩ := hmatches
    dsimp only at h
    split_ifs at h with hscopes
    · obtain ⟨oauth, hoauth, h⟩ := Except.bind_eq_ok.mp h
      cases h
      refine Or.inr ⟨row, _, rfl, hrow, ⟨{ row with rotatedAt := some now }, ?_, ?_, by simp⟩,
        fun _ => ?_⟩
      · refine ((OAuthTables.insertTokens_eq_ok hoauth).2.2 _).mpr (Or.inl ?_)
        exact Table.mem_upsert.mpr (Or.inl rfl)
      · exact ⟨rfl, rfl, rfl, rfl, rfl, rfl, rfl, fun hr => absurd husable.1 hr, id⟩
      · refine TokenStatement.rotate (Table.mem_of_find hrow) husable ?_ hoauth
        exact
          { access_drawn := hfresh _ (by simp [TokenAction.draws])
            refresh_drawn := hfresh _ (by simp [TokenAction.draws])
            access_family := rfl
            refresh_family := rfl
            access_state := by simp [AccessTokenRow.familyState, hclient]
            refresh_state := by simp [RefreshTokenRow.familyState, hclient]
            access_scopes := hscopes
            refresh_scopes := rfl
            access_expires := hallowed.1
            refresh_expires := hallowed.2
            unrotated := rfl }
    · cases h
      exact Or.inl ⟨by simp, Or.inl rfl⟩
  · rw [if_neg hmatches] at h
    split_ifs at h
    · cases h
      exact Or.inl ⟨by simp, Or.inr ⟨row.tokenFamilyId, rfl⟩⟩
    · cases h
      exact Or.inl ⟨by simp, Or.inl rfl⟩

/-- A rotated token that is presented again revokes its family, unless it is revoked already. -/
theorem Database.rotateMcpRefreshToken_replay {rotation : McpRefreshTokenRotation}
    {row : RefreshTokenRow}
    (hrow : db.oauth.mcpRefreshTokens.find (hashToken rotation.refreshToken) = some row)
    (hclient : row.clientId = rotation.clientId)
    (hresource : row.resourceUri = rotation.resourceUri)
    (hrotated : row.rotatedAt ≠ none) :
    db.rotateMcpRefreshToken hashToken rotation now =
      .ok (.invalidToken, if row.revokedAt = none then
        { db with oauth := db.oauth.revokeFamily row.tokenFamilyId now } else db) := by
  have husable : ¬row.Usable now := fun h => hrotated h.1
  by_cases hrevoked : row.revokedAt = none <;>
    simp [rotateMcpRefreshToken, hrow, hclient, hresource, husable, hrotated, hrevoked]

/-- The revocations of a narrowed ceiling. -/
theorem OAuthTables.invalidateExcessGrants_statements (principal : PrincipalId)
    (clientId : Option ClientId) (allowed : List Scope) :
    TokenStatements lifetimes issuable now ⟨o, drawn⟩
      ⟨o.invalidateExcessGrants principal clientId allowed now, drawn⟩ := by
  have hfold : ∀ (families : List Digest) (o : OAuthTables),
      TokenStatements lifetimes issuable now ⟨o, drawn⟩
        ⟨families.foldl (fun o family => o.revokeFamily family now) o, drawn⟩ := by
    intro families
    induction families with
    | nil => exact fun o => .refl
    | cons family families ih => exact fun o => .head (revokeFamily_statement family) (ih _)
  refine .head (.forget _ fun row hrow => ?_) (hfold _ _)
  simp only [decide_eq_true_eq] at hrow
  exact hrow.2.1

theorem OAuthTables.replacePrincipalScopeCeiling_eq_ok {actor : Actor} {scopes : List Scope}
    {expectedRevision : ℕ} {setting : McpScopeCeilingSetting}
    (h : o.replacePrincipalScopeCeiling actor scopes expectedRevision now = .ok (setting, o')) :
    ∃ revision, o' = { o with
      mcpPrincipalScopeCeilings := o.mcpPrincipalScopeCeilings.upsert
        ⟨actor.principalId, scopes, revision, now⟩ }.invalidateExcessGrants
          actor.principalId none scopes now := by
  obtain ⟨⟨revision, between⟩, hbetween, h⟩ := Except.bind_eq_ok.mp h
  cases h
  unfold replacePrincipalSetting at hbetween
  split at hbetween <;> split_ifs at hbetween <;> cases hbetween <;> exact ⟨_, rfl⟩

theorem OAuthTables.replaceClientScopeCeiling_eq_ok {actor : Actor} {clientId : ClientId}
    {scopes : List Scope} {expectedRevision : ℕ} {setting : McpScopeCeilingSetting}
    (h : o.replaceClientScopeCeiling actor clientId scopes expectedRevision now =
      .ok (setting, o')) :
    ∃ revision, o' = { o with
      mcpClientScopeCeilings := o.mcpClientScopeCeilings.upsert
        ⟨actor.principalId, clientId, scopes, revision, now⟩ }.invalidateExcessGrants
          actor.principalId (some clientId) scopes now := by
  unfold replaceClientScopeCeiling at h
  split_ifs at h
  · obtain ⟨_, hthrow, -⟩ := Except.bind_eq_ok.mp h
    cases hthrow
  obtain ⟨-, -, h⟩ := Except.bind_eq_ok.mp h
  obtain ⟨⟨revision, between⟩, hbetween, h⟩ := Except.bind_eq_ok.mp h
  cases h
  unfold replaceClientSetting at hbetween
  split at hbetween <;> split_ifs at hbetween <;> cases hbetween <;> exact ⟨_, rfl⟩

theorem OAuthTables.deleteClientScopeCeiling_eq_ok {actor : Actor} {clientId : ClientId}
    {expectedRevision : ℕ}
    (h : o.deleteClientScopeCeiling actor clientId expectedRevision = .ok o') :
    o.SameCredentials o' ∧ o'.mcpPrincipalScopeCeilings = o.mcpPrincipalScopeCeilings ∧
      o'.mcpClientScopeCeilings = o.mcpClientScopeCeilings.deleteWhere fun r =>
        r.principalId = actor.principalId ∧ r.clientId = clientId := by
  obtain ⟨-, -, h⟩ := Except.bind_eq_ok.mp h
  split at h
  · cases h
  · split_ifs at h
    cases h
    exact ⟨⟨rfl, rfl, rfl⟩, rfl, rfl⟩

theorem OAuthTables.registerClientBounded_eq_ok {client : McpOAuthClient} {maximumClients : ℕ}
    {room : Bool} (h : o.registerClientBounded client now maximumClients = .ok (room, o')) :
    o.SameCredentials o' ∧ o.SameCeilings o' := by
  unfold registerClientBounded at h
  split_ifs at h
  · split at h
    · cases h
    · cases h
      exact ⟨⟨rfl, rfl, rfl⟩, ⟨rfl, rfl⟩⟩
  · cases h
    exact ⟨⟨rfl, rfl, rfl⟩, ⟨rfl, rfl⟩⟩

theorem OAuthTables.revokeClientTokens_statements (principal : PrincipalId) (clientId : ClientId) :
    TokenStatements lifetimes issuable now ⟨o, drawn⟩
      ⟨o.revokeClientTokens principal clientId now, drawn⟩ := by
  refine .head (.revoke fun p c _ => p = principal ∧ c = clientId) (.head (.forget (fun row =>
    row.principalId = principal ∧ row.clientId = clientId ∧ row.consumedAt = none) ?_) ?_)
  · intro row hrow
    simp only [decide_eq_true_eq] at hrow
    exact hrow.2.2
  · exact SameCredentials.statements ⟨rfl, rfl, rfl⟩

theorem OAuthTables.purgeExpired_statements (cutoff : ℤ) :
    TokenStatements lifetimes issuable now ⟨o, drawn⟩ ⟨o.purgeExpired now cutoff, drawn⟩ := by
  unfold purgeExpired
  refine .head (.other ⟨rfl, rfl, rfl⟩ (List.Subset.refl drawn)) (.head .purge ?_)
  exact SameCredentials.statements ⟨rfl, rfl, rfl⟩

theorem Database.authenticateMcpAccessToken_statements {token resourceUri : String}
    {principal : Option McpAuthenticatedPrincipal}
    (h : db.authenticateMcpAccessToken hashToken token resourceUri now = .ok (principal, db')) :
    TokenStatements lifetimes issuable now ⟨db.oauth, drawn⟩ ⟨db'.oauth, drawn⟩ := by
  unfold authenticateMcpAccessToken at h
  split at h
  · cases h
    exact .refl
  next row hrow =>
  split_ifs at h
  · obtain ⟨identity, -, h⟩ := Except.bind_eq_ok.mp h
    cases h
    exact .head (.use (Table.mem_of_find hrow)) (OAuthTables.SameCredentials.statements
      ⟨rfl, rfl, rfl⟩)
  · cases h
    exact .refl

/-- More digests were drawn than the transaction has used. -/
theorem TokenStatements.draw {s : TokenState} {draws : List Digest}
    (h : TokenStatements lifetimes issuable now s ⟨o, drawn⟩) :
    TokenStatements lifetimes issuable now s ⟨o, draws ++ drawn⟩ :=
  h.tail (.other ⟨rfl, rfl, rfl⟩ (List.subset_append_right draws drawn))

/-- The statements of a transaction that commits or rolls back. -/
theorem Database.commit_statements {ε : Type*} {result : Except ε Database}
    (draws : List Digest) (h : ∀ db', result = .ok db' →
      TokenStatements lifetimes issuable now ⟨db.oauth, drawn⟩ ⟨db'.oauth, draws ++ drawn⟩) :
    TokenStatements lifetimes issuable now ⟨db.oauth, drawn⟩
      ⟨(db.commit result).oauth, draws ++ drawn⟩ := by
  unfold commit
  split
  · exact h _ rfl
  · exact TokenStatements.draw .refl

theorem Database.commitOAuth_statements {ε : Type*} {result : Except ε OAuthTables}
    (h : ∀ o, result = .ok o →
      TokenStatements lifetimes issuable now ⟨db.oauth, drawn⟩ ⟨o, drawn⟩) :
    TokenStatements lifetimes issuable now ⟨db.oauth, drawn⟩
      ⟨(db.commitOAuth result).oauth, drawn⟩ := by
  refine commit_statements [] fun db' hdb' => ?_
  obtain ⟨o, ho, rfl⟩ := Except.map_eq_ok.mp hdb'
  exact h o ho

/-- Every transaction is a sequence of token statements. -/
theorem TokenAction.statements (action : TokenAction)
    (hfresh : ∀ digest ∈ action.draws hashToken, digest ∉ drawn)
    (hallowed : action.Allowed lifetimes now db)
    (hissuable : ∀ row, action.Issues hashToken now db row → issuable row) :
    TokenStatements lifetimes issuable now ⟨db.oauth, drawn⟩
      ⟨(action.next hashToken now db).oauth, action.draws hashToken ++ drawn⟩ := by
  cases action with
  | issue code registered grant codeChallenge expiresAt =>
    refine Database.commit_statements _ fun db' h => ?_
    obtain ⟨between, codes, row, -, -, -, -, hsame, -, hcodes, hhash, -, -, -, -, heq⟩ :=
      Database.issueMcpAuthorizationCode_eq_ok h
    have hdrawn : row.codeHash ∉ drawn := hhash ▸ hfresh _ (List.mem_singleton_self _)
    have hmem : row ∈ db'.oauth.mcpAuthorizationCodes := by
      rw [heq]
      exact (Table.mem_insert? hcodes).mpr (Or.inr rfl)
    have hissue : TokenStatement lifetimes issuable now ⟨between, drawn⟩ _ :=
      .issue hcodes hdrawn (hissuable row ⟨code, registered, grant, codeChallenge, expiresAt, db',
        rfl, h, hmem, hhash⟩)
    rw [heq]
    rw [hhash] at hissue
    exact hsame.statements.tail hissue
  | exchange request =>
    refine Database.commit_statements _ fun db' h => ?_
    obtain ⟨⟨outcome, db''⟩, hout, rfl⟩ := Except.map_eq_ok.mp h
    rcases Database.exchangeMcpAuthorizationCode_eq_ok hout hfresh hallowed with
      ⟨-, rfl | ⟨family, heq⟩⟩ | ⟨-, -, -, -, -, hstatement⟩
    · exact TokenStatements.draw .refl
    · rw [heq]
      exact TokenStatements.draw (.single (OAuthTables.revokeFamily_statement family))
    · exact .single (hstatement issuable)
  | rotate rotation =>
    refine Database.commit_statements _ fun db' h => ?_
    obtain ⟨⟨outcome, db''⟩, hout, rfl⟩ := Except.map_eq_ok.mp h
    rcases Database.rotateMcpRefreshToken_eq_ok hout hfresh hallowed with
      ⟨-, rfl | ⟨family, heq⟩⟩ | ⟨-, -, -, -, -, hstatement⟩
    · exact TokenStatements.draw .refl
    · rw [heq]
      exact TokenStatements.draw (.single (OAuthTables.revokeFamily_statement family))
    · exact .single (hstatement issuable)
  | authenticate token resourceUri =>
    refine Database.commit_statements [] fun db' h => ?_
    obtain ⟨⟨principal, db''⟩, hout, rfl⟩ := Except.map_eq_ok.mp h
    exact Database.authenticateMcpAccessToken_statements hout
  | revokeClient identity clientId =>
    refine Database.commit_statements [] fun db' h => ?_
    obtain ⟨_ | ⟨actor, identityId⟩, -, h⟩ := Except.bind_eq_ok.mp h
    · cases h
      exact .refl
    · cases h
      exact OAuthTables.revokeClientTokens_statements actor.principalId clientId
  | revokeToken token clientId =>
    show TokenStatements lifetimes issuable now _ ⟨db.oauth.revokeToken _ clientId now, drawn⟩
    unfold OAuthTables.revokeToken
    dsimp only
    split
    · exact .refl
    · exact .single (OAuthTables.revokeFamily_statement _)
  | registerClient client maximumClients =>
    refine Database.commitOAuth_statements fun o h => ?_
    obtain ⟨⟨room, o'⟩, hout, rfl⟩ := Except.map_eq_ok.mp h
    exact (OAuthTables.registerClientBounded_eq_ok hout).1.statements
  | replacePrincipalCeiling actor scopes expectedRevision =>
    refine Database.commitOAuth_statements fun o h => ?_
    obtain ⟨⟨setting, o'⟩, hout, rfl⟩ := Except.map_eq_ok.mp h
    obtain ⟨revision, rfl⟩ := OAuthTables.replacePrincipalScopeCeiling_eq_ok hout
    refine .trans ?_ (OAuthTables.invalidateExcessGrants_statements _ _ _)
    exact OAuthTables.SameCredentials.statements ⟨rfl, rfl, rfl⟩
  | replaceClientCeiling actor clientId scopes expectedRevision =>
    refine Database.commitOAuth_statements fun o h => ?_
    obtain ⟨⟨setting, o'⟩, hout, rfl⟩ := Except.map_eq_ok.mp h
    obtain ⟨revision, rfl⟩ := OAuthTables.replaceClientScopeCeiling_eq_ok hout
    refine .trans ?_ (OAuthTables.invalidateExcessGrants_statements _ _ _)
    exact OAuthTables.SameCredentials.statements ⟨rfl, rfl, rfl⟩
  | deleteClientCeiling actor clientId expectedRevision =>
    refine Database.commitOAuth_statements fun o h => ?_
    exact (OAuthTables.deleteClientScopeCeiling_eq_ok h).1.statements
  | purge unusedClientCutoff => exact OAuthTables.purgeExpired_statements unusedClientCutoff
  | elsewhere db' => exact hallowed.1.statements

end Statements

/-! ## Runs -/

namespace TokenSystem

variable {lifetimes : TokenLifetimes} {hashToken : String → Digest} {sys sys' : TokenSystem}
  {moves : List (Move TokenSystem (ℤ × TokenAction))} {m : Move TokenSystem (ℤ × TokenAction)}

theorem Step.statements {label : ℤ × TokenAction} (h : Step lifetimes hashToken sys label sys') :
    sys.now ≤ sys'.now ∧
      TokenStatements lifetimes (fun _ => True) sys'.now sys.tokens sys'.tokens := by
  obtain ⟨⟨hnow, hfresh, hallowed⟩, rfl⟩ := h
  exact ⟨hnow, label.2.statements hfresh hallowed fun _ _ => trivial⟩

theorem consistent_start : start.tokens.Consistent lifetimes start.now := by
  have hholds : ∀ family state, ¬start.tokens.oauth.Holds family state := by
    rintro family state (⟨row, hrow, -⟩ | ⟨row, hrow, -⟩)
    · exact Table.not_mem_empty hrow
    · exact Table.not_mem_empty hrow
  exact
    { code_drawn := fun row hrow => absurd hrow Table.not_mem_empty
      access_drawn := fun row hrow => absurd hrow Table.not_mem_empty
      refresh_drawn := fun row hrow => absurd hrow Table.not_mem_empty
      family_drawn := fun family state h => absurd h (hholds family state)
      uniform := fun family state _ h => absurd h (hholds family state)
      unrotated := fun row hrow => absurd hrow Table.not_mem_empty
      companion := fun row hrow => absurd hrow Table.not_mem_empty
      lifetime := fun row hrow => absurd hrow Table.not_mem_empty }

/-- A property that every statement keeps in a consistent state, and that does not end by time
alone, holds to the end of a run. -/
theorem run_invariant {P : ℤ → TokenState → Prop}
    (hlater : ∀ now t s, now ≤ t → P now s → P t s)
    (hstatement : ∀ now s s', s.Consistent lifetimes now →
      TokenStatement lifetimes (fun _ => True) now s s' → P now s → P now s')
    (hrun : Run (Step lifetimes hashToken) sys moves sys')
    (hsys : sys.tokens.Consistent lifetimes sys.now ∧ P sys.now sys.tokens) :
    sys'.tokens.Consistent lifetimes sys'.now ∧ P sys'.now sys'.tokens := by
  refine Run.invariant (P := fun sys => sys.tokens.Consistent lifetimes sys.now ∧
    P sys.now sys.tokens) ?_ hrun hsys
  rintro sys label sys' ⟨hconsistent, hp⟩ hstep
  obtain ⟨hnow, hstatements⟩ := hstep.statements
  exact hstatements.invariant (hstatement _) ⟨hconsistent.later hnow, hlater _ _ _ hnow hp⟩

theorem consistent_of_run (hrun : Run (Step lifetimes hashToken) start moves sys) :
    sys.tokens.Consistent lifetimes sys.now :=
  (run_invariant (P := fun _ _ => True) (fun _ _ _ _ _ => trivial)
    (fun _ _ _ _ _ _ => trivial) hrun ⟨consistent_start, trivial⟩).1

/-! ## What a run promises -/

/-- The move exchanges a code for the first tokens of the family. -/
def Consumes (hashToken : String → Digest) (m : Move TokenSystem (ℤ × TokenAction))
    (code : AuthorizationCodeRow) (family : Digest) : Prop :=
  ∃ request grant db, m.label.2 = .exchange request ∧
    m.pre.db.oauth.mcpAuthorizationCodes.find (hashToken request.code) = some code ∧
    m.pre.db.exchangeMcpAuthorizationCode hashToken request m.label.1 = .ok (some grant, db) ∧
    family = hashToken request.refreshToken

/-- The move presents the code, with the parameters that an exchange compares. -/
def PresentsCode (hashToken : String → Digest) (m : Move TokenSystem (ℤ × TokenAction))
    (code : AuthorizationCodeRow) : Prop :=
  ∃ request, m.label.2 = .exchange request ∧ hashToken request.code = code.codeHash ∧
    code.Matches request

/-- The move rotates a refresh token. -/
def Rotates (hashToken : String → Digest) (m : Move TokenSystem (ℤ × TokenAction))
    (row : RefreshTokenRow) : Prop :=
  ∃ rotation scopes db, m.label.2 = .rotate rotation ∧
    m.pre.db.oauth.mcpRefreshTokens.find (hashToken rotation.refreshToken) = some row ∧
    m.pre.db.rotateMcpRefreshToken hashToken rotation m.label.1 = .ok (.rotated scopes, db)

/-- The move presents the refresh token, for its client and resource. -/
def PresentsRefresh (hashToken : String → Digest) (m : Move TokenSystem (ℤ × TokenAction))
    (row : RefreshTokenRow) : Prop :=
  ∃ rotation, m.label.2 = .rotate rotation ∧ hashToken rotation.refreshToken = row.tokenHash ∧
    row.clientId = rotation.clientId ∧ row.resourceUri = rotation.resourceUri

/-- The move revokes what the principal has granted to the client. -/
def RevokesClient (m : Move TokenSystem (ℤ × TokenAction)) (principal : PrincipalId)
    (clientId : ClientId) : Prop :=
  ∃ identity actor identityId, m.label.2 = .revokeClient identity clientId ∧
    m.pre.db.resolveIn identity = .ok (some (actor, identityId)) ∧ actor.principalId = principal

/-- Token family safety of a run. -/
structure FamiliesSafe (hashToken : String → Digest)
    (moves : List (Move TokenSystem (ℤ × TokenAction))) : Prop where
  unique : ∀ m ∈ moves, ∀ t, m.post.now ≤ t → ∀ row ∈ m.post.db.oauth.mcpRefreshTokens,
    ∀ row' ∈ m.post.db.oauth.mcpRefreshTokens, row.tokenFamilyId = row'.tokenFamilyId →
    row.Usable t → row'.Usable t → row = row'
  code_replay : ∀ before m₁ mid m₂ after, moves = before ++ m₁ :: mid ++ m₂ :: after →
    ∀ code family, Consumes hashToken m₁ code family → PresentsCode hashToken m₂ code →
    ∀ m ∈ m₂ :: after, ∀ t, m.post.now ≤ t → ¬m.post.db.oauth.FamilyUsable t family
  refresh_replay : ∀ before m₁ mid m₂ after, moves = before ++ m₁ :: mid ++ m₂ :: after →
    ∀ row, Rotates hashToken m₁ row → PresentsRefresh hashToken m₂ row →
    ∀ m ∈ m₂ :: after, ∀ t, m.post.now ≤ t → ¬m.post.db.oauth.FamilyUsable t row.tokenFamilyId
  access_revoked : ∀ before m after, moves = before ++ m :: after →
    ∀ row ∈ m.post.db.oauth.mcpAccessTokens, row.revokedAt ≠ none →
    ∀ m' ∈ after, ∀ row' ∈ m'.post.db.oauth.mcpAccessTokens, row'.tokenHash = row.tokenHash →
    ∀ t, ¬row'.Usable t
  refresh_revoked : ∀ before m after, moves = before ++ m :: after →
    ∀ row ∈ m.post.db.oauth.mcpRefreshTokens, row.revokedAt ≠ none →
    ∀ m' ∈ after, ∀ row' ∈ m'.post.db.oauth.mcpRefreshTokens, row'.tokenHash = row.tokenHash →
    ∀ t, ¬row'.Usable t
  client_code : ∀ before m after, moves = before ++ m :: after →
    ∀ principal clientId, RevokesClient m principal clientId →
    ∀ m₀ ∈ before, ∀ row ∈ m₀.post.db.oauth.mcpAuthorizationCodes,
    row.principalId = principal → row.clientId = clientId →
    ∀ m' ∈ m :: after, ∀ row' ∈ m'.post.db.oauth.mcpAuthorizationCodes,
    row'.codeHash = row.codeHash → ∀ t, ¬row'.Usable t
  client_access : ∀ before m after, moves = before ++ m :: after →
    ∀ principal clientId, RevokesClient m principal clientId →
    ∀ m₀ ∈ before, ∀ row ∈ m₀.post.db.oauth.mcpAccessTokens,
    row.principalId = principal → row.clientId = clientId →
    ∀ m' ∈ m :: after, ∀ row' ∈ m'.post.db.oauth.mcpAccessTokens,
    row'.tokenHash = row.tokenHash → ∀ t, ¬row'.Usable t
  client_refresh : ∀ before m after, moves = before ++ m :: after →
    ∀ principal clientId, RevokesClient m principal clientId →
    ∀ m₀ ∈ before, ∀ row ∈ m₀.post.db.oauth.mcpRefreshTokens,
    row.principalId = principal → row.clientId = clientId →
    ∀ m' ∈ m :: after, ∀ row' ∈ m'.post.db.oauth.mcpRefreshTokens,
    row'.tokenHash = row.tokenHash → ∀ t, ¬row'.Usable t

/-! ## Cutting a run -/

variable {before after : List (Move TokenSystem (ℤ × TokenAction))}

/-- What a run keeps holds after each of its moves. -/
theorem run_invariant_of_mem {P : ℤ → TokenState → Prop}
    (hlater : ∀ now t s, now ≤ t → P now s → P t s)
    (hstatement : ∀ now s s', s.Consistent lifetimes now →
      TokenStatement lifetimes (fun _ => True) now s s' → P now s → P now s')
    (hrun : Run (Step lifetimes hashToken) sys moves sys')
    (hsys : sys.tokens.Consistent lifetimes sys.now ∧ P sys.now sys.tokens) (hm : m ∈ moves) :
    P m.post.now m.post.tokens := by
  obtain ⟨before, after, rfl⟩ := List.append_of_mem hm
  obtain ⟨hbefore, hstep, -⟩ := hrun.split
  have hpost : Run (Step lifetimes hashToken) sys (before ++ [m]) m.post := .snoc hbefore hstep
  exact (run_invariant hlater hstatement hpost hsys).2

theorem consistent_post (h : Run (Step lifetimes hashToken) start (before ++ m :: after) sys) :
    m.post.tokens.Consistent lifetimes m.post.now := by
  obtain ⟨hbefore, hstep, -⟩ := h.split
  exact consistent_of_run (.snoc hbefore hstep)

/-! ## One family after a replay -/

/-- A family that does not work is dead for the rest of the run. -/
theorem dead_of_run {family : Digest} (hrun : Run (Step lifetimes hashToken) sys moves sys')
    (hsys : sys.tokens.Consistent lifetimes sys.now) (hdrawn : family ∈ sys.drawn)
    (hdead : ¬sys.db.oauth.FamilyUsable sys.now family) (hm : m ∈ moves) :
    ¬m.post.db.oauth.FamilyUsable m.post.now family := by
  refine (run_invariant_of_mem (P := fun now s => family ∈ s.drawn ∧
    ¬s.oauth.FamilyUsable now family) ?_ ?_ hrun ⟨hsys, hdrawn, hdead⟩ hm).2
  · exact fun now t s ht h => ⟨h.1, fun hu => h.2 (hu.antitone ht)⟩
  · exact fun now s s' _ hstatement h => ⟨hstatement.drawn h.1, hstatement.unusable h.1 h.2⟩

/-- After a move that leaves a family dead, it is dead at every later moment. -/
theorem dead_from {family : Digest} (hrun : Run (Step lifetimes hashToken) start
      (before ++ m :: after) sys) (hdrawn : family ∈ m.post.drawn)
    (hdead : ¬m.post.db.oauth.FamilyUsable m.post.now family) :
    ∀ m' ∈ m :: after, ∀ t, m'.post.now ≤ t → ¬m'.post.db.oauth.FamilyUsable t family := by
  intro m' hm' t ht husable
  have hafter := hrun.split.2.2
  rcases List.mem_cons.mp hm' with rfl | hm'
  · exact hdead (husable.antitone ht)
  · exact dead_of_run hafter (consistent_post hrun) hdrawn hdead hm' (husable.antitone ht)

/-- The code that a move has consumed, and the family it has started. -/
theorem Consumes.post {code : AuthorizationCodeRow} {family : Digest}
    (h : Consumes hashToken m code family) (hstep : Step lifetimes hashToken m.pre m.label m.post) :
    family ∈ m.post.drawn ∧ ∃ code' ∈ m.post.db.oauth.mcpAuthorizationCodes,
      code'.codeHash = code.codeHash ∧ code'.consumedAt ≠ none ∧
      code'.tokenFamilyId = some family ∧
        ∀ request, code.Matches request → code'.Matches request := by
  obtain ⟨request, grant, db, hlabel, hcode, hok, rfl⟩ := h
  obtain ⟨⟨-, hfresh, hallowed⟩, hpost⟩ := hstep
  rw [hlabel] at hfresh hallowed
  have hdb : m.post.db = db := by
    rw [hpost, TokenSystem.next, hlabel, TokenAction.next, hok]
    rfl
  rw [hdb]
  refine ⟨?_, ?_⟩
  · rw [hpost, TokenSystem.next, hlabel]
    simp [TokenAction.draws]
  · rcases Database.exchangeMcpAuthorizationCode_eq_ok hok hfresh hallowed with
      ⟨hnone, -⟩ | ⟨code', grant', -, hcode', hmem, -⟩
    · cases hnone
    · rw [hcode] at hcode'
      cases hcode'
      exact ⟨_, hmem, rfl, by simp, rfl, fun _ h => h⟩

/-- The token that a move has rotated. -/
theorem Rotates.post {row : RefreshTokenRow} (h : Rotates hashToken m row)
    (hstep : Step lifetimes hashToken m.pre m.label m.post) :
    ∃ row' ∈ m.post.db.oauth.mcpRefreshTokens, row.Ages row' ∧ row'.rotatedAt ≠ none := by
  obtain ⟨rotation, scopes, db, hlabel, hrow, hok⟩ := h
  obtain ⟨⟨-, hfresh, hallowed⟩, hpost⟩ := hstep
  rw [hlabel] at hfresh hallowed
  have hdb : m.post.db = db := by
    rw [hpost, TokenSystem.next, hlabel, TokenAction.next, hok]
    rfl
  rw [hdb]
  rcases Database.rotateMcpRefreshToken_eq_ok hok hfresh hallowed with
    ⟨hnot, -⟩ | ⟨row', scopes', -, hrow', hages, -⟩
  · exact absurd rfl (hnot scopes)
  · rw [hrow] at hrow'
    cases hrow'
    exact hages

section Replay

variable {mid : List (Move TokenSystem (ℤ × TokenAction))}
  {m₁ m₂ : Move TokenSystem (ℤ × TokenAction)}

/-- The consumed code is still there at its replay, unless its family is dead already. -/
theorem dead_of_code_replay
    (hrun : Run (Step lifetimes hashToken) start (before ++ m₁ :: mid ++ m₂ :: after) sys)
    {code : AuthorizationCodeRow} {family : Digest} (hconsumes : Consumes hashToken m₁ code family)
    (hpresents : PresentsCode hashToken m₂ code) :
    family ∈ m₂.post.drawn ∧ ¬m₂.post.db.oauth.FamilyUsable m₂.post.now family := by
  obtain ⟨hfirst, hstep₂, -⟩ := hrun.split
  obtain ⟨-, hstep₁, hmid⟩ := hfirst.split
  obtain ⟨hdrawn, code', hcode', hhash', hconsumed, hfamily, hmatches'⟩ := hconsumes.post hstep₁
  obtain ⟨hconsistent, hdrawn, hkept⟩ := run_invariant
    (P := fun now s => family ∈ s.drawn ∧ (¬s.oauth.FamilyUsable now family ∨
      code' ∈ s.oauth.mcpAuthorizationCodes))
    (fun now t s ht h => ⟨h.1, h.2.imp_left fun hdead hu => hdead (hu.antitone ht)⟩)
    (fun now s s' _ hstatement h => ⟨hstatement.drawn h.1, h.2.elim
      (fun hdead => Or.inl (hstatement.unusable h.1 hdead))
      (fun hmem => hstatement.code_kept hmem hconsumed hfamily)⟩)
    hmid ⟨consistent_post hfirst, hdrawn, Or.inr hcode'⟩
  have hdrawn₂ : family ∈ m₂.post.drawn := by
    rw [hstep₂.2]
    exact List.mem_append_right _ hdrawn
  refine ⟨hdrawn₂, ?_⟩
  rcases hkept with hdead | hcode
  · exact dead_of_run (.snoc (.nil _) hstep₂) hconsistent hdrawn hdead (List.mem_singleton_self _)
  · obtain ⟨request, hlabel, hhash, hmatches⟩ := hpresents
    have hfind : m₂.pre.db.oauth.mcpAuthorizationCodes.find (hashToken request.code) = some code' :=
      Table.find_eq_some.mpr ⟨hcode, hhash'.trans hhash.symm⟩
    have hpost : m₂.post.db.oauth = m₂.pre.db.oauth.revokeFamily family m₂.label.1 := by
      rw [hstep₂.2, TokenSystem.next, hlabel, TokenAction.next,
        Database.exchangeMcpAuthorizationCode_replay hfind (hmatches' request hmatches) hconsumed
          hfamily]
      rfl
    rw [hpost]
    exact OAuthTables.not_usable_revokeFamily

/-- The rotated token is still there at its replay, unless its family is dead already. -/
theorem dead_of_refresh_replay
    (hrun : Run (Step lifetimes hashToken) start (before ++ m₁ :: mid ++ m₂ :: after) sys)
    {row : RefreshTokenRow} (hrotates : Rotates hashToken m₁ row)
    (hpresents : PresentsRefresh hashToken m₂ row) :
    row.tokenFamilyId ∈ m₂.post.drawn ∧
      ¬m₂.post.db.oauth.FamilyUsable m₂.post.now row.tokenFamilyId := by
  obtain ⟨hfirst, hstep₂, -⟩ := hrun.split
  obtain ⟨-, hstep₁, hmid⟩ := hfirst.split
  obtain ⟨row', hrow', hages', hrotated'⟩ := hrotates.post hstep₁
  have hconsistent₁ := consistent_post hfirst
  have hdrawn : row.tokenFamilyId ∈ m₁.post.drawn :=
    hconsistent₁.family_drawn _ _ (Or.inr ⟨row', hrow', hages'.tokenFamilyId, rfl⟩)
  obtain ⟨hconsistent, hdrawn, hkept⟩ := run_invariant
    (P := fun now s => row.tokenFamilyId ∈ s.drawn ∧
      (¬s.oauth.FamilyUsable now row.tokenFamilyId ∨
        ∃ r ∈ s.oauth.mcpRefreshTokens, row.Ages r ∧ r.rotatedAt ≠ none))
    (fun now t s ht h => ⟨h.1, h.2.imp_left fun hdead hu => hdead (hu.antitone ht)⟩)
    (by
      rintro now s s' hs hstatement ⟨hdrawn, hdead | ⟨r, hr, hages, hrotated⟩⟩
      · exact ⟨hstatement.drawn hdrawn, Or.inl (hstatement.unusable hdrawn hdead)⟩
      refine ⟨hstatement.drawn hdrawn, ?_⟩
      rcases hstatement.refresh_kept hs hr hrotated with hdead | ⟨r', hr', hages''⟩
      · exact Or.inl (hages.tokenFamilyId ▸ hdead)
      · exact Or.inr ⟨r', hr', hages.trans hages'', hages''.rotated hrotated ▸ hrotated⟩)
    hmid ⟨hconsistent₁, hdrawn, Or.inr ⟨row', hrow', hages', hrotated'⟩⟩
  have hdrawn₂ : row.tokenFamilyId ∈ m₂.post.drawn := by
    rw [hstep₂.2]
    exact List.mem_append_right _ hdrawn
  refine ⟨hdrawn₂, ?_⟩
  rcases hkept with hdead | ⟨r, hr, hages, hrotated⟩
  · exact dead_of_run (.snoc (.nil _) hstep₂) hconsistent hdrawn hdead (List.mem_singleton_self _)
  obtain ⟨rotation, hlabel, hhash, hclient, hresource⟩ := hpresents
  have hfind : m₂.pre.db.oauth.mcpRefreshTokens.find (hashToken rotation.refreshToken) = some r :=
    Table.find_eq_some.mpr ⟨hr, hages.tokenHash.trans hhash.symm⟩
  have hreplay := hstep₂.2
  rw [TokenSystem.next, hlabel, TokenAction.next, Database.rotateMcpRefreshToken_replay hfind
    (hages.clientId.trans hclient) (hages.resourceUri.trans hresource) hrotated] at hreplay
  by_cases hrevoked : r.revokedAt = none
  · have hpost : m₂.post.db.oauth =
        m₂.pre.db.oauth.revokeFamily row.tokenFamilyId m₂.label.1 := by
      rw [hreplay, if_pos hrevoked, hages.tokenFamilyId]
      rfl
    rw [hpost]
    exact OAuthTables.not_usable_revokeFamily
  · -- The token was revoked, so its whole family was.
    have hpost : m₂.post.db.oauth = m₂.pre.db.oauth := by
      rw [hreplay, if_neg hrevoked]
      rfl
    rw [hpost]
    intro husable
    obtain ⟨state, hstate, hfalse⟩ := husable.holds
    have heq := hconsistent.uniform _ _ _ hstate (Or.inr ⟨r, hr, hages.tokenFamilyId, rfl⟩)
    rw [heq] at hfalse
    exact hrevoked (Option.isNone_iff_eq_none.mp (by
      simpa [RefreshTokenRow.familyState] using hfalse))

end Replay

/-! ## One row after a revocation -/

section Rows

variable {digest : Digest}

theorem codes_of_run {Q : AuthorizationCodeRow → Prop}
    (hQ : ∀ row row', row.Ages row' → Q row → Q row')
    (hrun : Run (Step lifetimes hashToken) sys moves sys')
    (hsys : sys.tokens.Consistent lifetimes sys.now) (h : sys.tokens.Codes digest Q) :
    sys'.tokens.Codes digest Q :=
  (run_invariant (P := fun _ s => s.Codes digest Q) (fun _ _ _ _ => id)
    (fun _ _ _ _ hstatement => hstatement.codes hQ) hrun ⟨hsys, h⟩).2

theorem access_of_run {Q : AccessTokenRow → Prop}
    (hQ : ∀ row row', row.Ages row' → Q row → Q row')
    (hrun : Run (Step lifetimes hashToken) sys moves sys')
    (hsys : sys.tokens.Consistent lifetimes sys.now) (h : sys.tokens.Access digest Q) :
    sys'.tokens.Access digest Q :=
  (run_invariant (P := fun _ s => s.Access digest Q) (fun _ _ _ _ => id)
    (fun _ _ _ _ hstatement => hstatement.access hQ) hrun ⟨hsys, h⟩).2

theorem refresh_of_run {Q : RefreshTokenRow → Prop}
    (hQ : ∀ row row', row.Ages row' → Q row → Q row')
    (hrun : Run (Step lifetimes hashToken) sys moves sys')
    (hsys : sys.tokens.Consistent lifetimes sys.now) (h : sys.tokens.Refresh digest Q) :
    sys'.tokens.Refresh digest Q :=
  (run_invariant (P := fun _ s => s.Refresh digest Q) (fun _ _ _ _ => id)
    (fun _ _ _ _ hstatement => hstatement.refresh hQ) hrun ⟨hsys, h⟩).2

theorem run_of_mem_after (hrun : Run (Step lifetimes hashToken) start (before ++ m :: after) sys)
    {m' : Move TokenSystem (ℤ × TokenAction)} (hm' : m' ∈ m :: after) :
    ∃ moves, Run (Step lifetimes hashToken) m.post moves m'.post := by
  rcases List.mem_cons.mp hm' with rfl | hm'
  · exact ⟨[], .nil _⟩
  · obtain ⟨mid, rest, rfl⟩ := List.append_of_mem hm'
    obtain ⟨hmid, hstep, -⟩ := hrun.split.2.2.split
    exact ⟨_, .snoc hmid hstep⟩

/-- Revoked access tokens stay revoked, also when others have gone. -/
theorem access_revoked_of_run
    (hrun : Run (Step lifetimes hashToken) start (before ++ m :: after) sys)
    (h : m.post.tokens.Access digest fun row => row.revokedAt ≠ none)
    {m' : Move TokenSystem (ℤ × TokenAction)} (hm' : m' ∈ m :: after) {row' : AccessTokenRow}
    (hrow' : row' ∈ m'.post.db.oauth.mcpAccessTokens) (hdigest : row'.tokenHash = digest) (t : ℤ) :
    ¬row'.Usable t := by
  obtain ⟨moves, hmoves⟩ := run_of_mem_after hrun hm'
  have hrevoked := access_of_run (fun _ _ hages => hages.revoked) hmoves (consistent_post hrun) h
  exact fun husable => hrevoked.2 row' hrow' hdigest husable.1

theorem refresh_revoked_of_run
    (hrun : Run (Step lifetimes hashToken) start (before ++ m :: after) sys)
    (h : m.post.tokens.Refresh digest fun row => row.revokedAt ≠ none)
    {m' : Move TokenSystem (ℤ × TokenAction)} (hm' : m' ∈ m :: after) {row' : RefreshTokenRow}
    (hrow' : row' ∈ m'.post.db.oauth.mcpRefreshTokens) (hdigest : row'.tokenHash = digest) (t : ℤ) :
    ¬row'.Usable t := by
  obtain ⟨moves, hmoves⟩ := run_of_mem_after hrun hm'
  have hrevoked := refresh_of_run (fun _ _ hages => hages.revoked) hmoves (consistent_post hrun) h
  exact fun husable => hrevoked.2 row' hrow' hdigest husable.2.1

theorem RevokesClient.post {principal : PrincipalId} {clientId : ClientId}
    (h : RevokesClient m principal clientId)
    (hstep : Step lifetimes hashToken m.pre m.label m.post) :
    m.post.tokens =
      ⟨m.pre.db.oauth.revokeClientTokens principal clientId m.label.1, m.pre.drawn⟩ := by
  obtain ⟨identity, actor, identityId, hlabel, hresolve, rfl⟩ := h
  rw [hstep.2, TokenSystem.next, hlabel, TokenAction.next, Database.revokeMcpClientTokens, hresolve]
  rfl

/-- The state of the system before a revocation of a client, seen from an earlier move. -/
theorem run_between (hrun : Run (Step lifetimes hashToken) start (before ++ m :: after) sys)
    {m₀ : Move TokenSystem (ℤ × TokenAction)} (hm₀ : m₀ ∈ before) :
    ∃ moves, Run (Step lifetimes hashToken) m₀.post moves m.pre ∧
      m₀.post.tokens.Consistent lifetimes m₀.post.now := by
  have hbefore := hrun.split.1
  obtain ⟨first, mid, rfl⟩ := List.append_of_mem hm₀
  exact ⟨mid, hbefore.split.2.2, consistent_post hbefore⟩

theorem code_revoked_of_client
    (hrun : Run (Step lifetimes hashToken) start (before ++ m :: after) sys)
    {principal : PrincipalId} {clientId : ClientId} (hrevokes : RevokesClient m principal clientId)
    {m₀ m' : Move TokenSystem (ℤ × TokenAction)} (hm₀ : m₀ ∈ before) {row : AuthorizationCodeRow}
    (hrow : row ∈ m₀.post.db.oauth.mcpAuthorizationCodes) (hprincipal : row.principalId = principal)
    (hclient : row.clientId = clientId) (hm' : m' ∈ m :: after) {row' : AuthorizationCodeRow}
    (hrow' : row' ∈ m'.post.db.oauth.mcpAuthorizationCodes) (hhash : row'.codeHash = row.codeHash)
    (t : ℤ) : ¬row'.Usable t := by
  obtain ⟨moves₀, hmoves₀, hconsistent₀⟩ := run_between hrun hm₀
  have howner := codes_of_run
    (Q := fun r => r.principalId = principal ∧ r.clientId = clientId)
    (fun _ _ hages h => ⟨hages.principalId.trans h.1, hages.clientId.trans h.2⟩)
    hmoves₀ hconsistent₀ ⟨hconsistent₀.code_drawn row hrow, fun r hr hkey =>
      Table.eq_of_key_eq hr hrow hkey ▸ ⟨hprincipal, hclient⟩⟩
  have hpost := hrevokes.post hrun.split.2.1
  have hconsumed : m.post.tokens.Codes row.codeHash fun r => r.consumedAt ≠ none := by
    rw [hpost]
    refine ⟨howner.1, fun r hr hkey hnone => ?_⟩
    obtain ⟨hr, hkept⟩ := Table.mem_deleteWhere.mp hr
    obtain ⟨hp, hc⟩ := howner.2 r hr hkey
    simp [hp, hc, hnone] at hkept
  obtain ⟨moves, hmoves⟩ := run_of_mem_after hrun hm'
  have hafter := codes_of_run (fun _ _ hages h => hages.consumed h ▸ h) hmoves
    (consistent_post hrun)
    hconsumed
  exact fun husable => hafter.2 row' hrow' hhash husable.1

theorem access_revoked_of_client
    (hrun : Run (Step lifetimes hashToken) start (before ++ m :: after) sys)
    {principal : PrincipalId} {clientId : ClientId} (hrevokes : RevokesClient m principal clientId)
    {m₀ : Move TokenSystem (ℤ × TokenAction)} (hm₀ : m₀ ∈ before) {row : AccessTokenRow}
    (hrow : row ∈ m₀.post.db.oauth.mcpAccessTokens) (hprincipal : row.principalId = principal)
    (hclient : row.clientId = clientId) :
    m.post.tokens.Access row.tokenHash fun r => r.revokedAt ≠ none := by
  obtain ⟨moves₀, hmoves₀, hconsistent₀⟩ := run_between hrun hm₀
  have howner := access_of_run
    (Q := fun r => r.principalId = principal ∧ r.clientId = clientId)
    (fun _ _ hages h => ⟨hages.principalId.trans h.1, hages.clientId.trans h.2⟩)
    hmoves₀ hconsistent₀ ⟨hconsistent₀.access_drawn row hrow, fun r hr hkey =>
      Table.eq_of_key_eq hr hrow hkey ▸ ⟨hprincipal, hclient⟩⟩
  rw [hrevokes.post hrun.split.2.1]
  refine ⟨howner.1, fun r hr hkey hnone => ?_⟩
  obtain ⟨old, hold, rfl⟩ := OAuthTables.mem_access_revokeClientTokens.mp hr
  obtain ⟨hp, hc⟩ := howner.2 old hold ((old.ages_revokedIf _ _).tokenHash.symm.trans hkey)
  have hsome := old.isSome_revokedIf (old.principalId = principal ∧ old.clientId = clientId)
    m.label.1
  rw [hnone] at hsome
  simp [hp, hc] at hsome

theorem refresh_revoked_of_client
    (hrun : Run (Step lifetimes hashToken) start (before ++ m :: after) sys)
    {principal : PrincipalId} {clientId : ClientId} (hrevokes : RevokesClient m principal clientId)
    {m₀ : Move TokenSystem (ℤ × TokenAction)} (hm₀ : m₀ ∈ before) {row : RefreshTokenRow}
    (hrow : row ∈ m₀.post.db.oauth.mcpRefreshTokens) (hprincipal : row.principalId = principal)
    (hclient : row.clientId = clientId) :
    m.post.tokens.Refresh row.tokenHash fun r => r.revokedAt ≠ none := by
  obtain ⟨moves₀, hmoves₀, hconsistent₀⟩ := run_between hrun hm₀
  have howner := refresh_of_run
    (Q := fun r => r.principalId = principal ∧ r.clientId = clientId)
    (fun _ _ hages h => ⟨hages.principalId.trans h.1, hages.clientId.trans h.2⟩)
    hmoves₀ hconsistent₀ ⟨hconsistent₀.refresh_drawn row hrow, fun r hr hkey =>
      Table.eq_of_key_eq hr hrow hkey ▸ ⟨hprincipal, hclient⟩⟩
  rw [hrevokes.post hrun.split.2.1]
  refine ⟨howner.1, fun r hr hkey hnone => ?_⟩
  obtain ⟨old, hold, rfl⟩ := OAuthTables.mem_refresh_revokeClientTokens.mp hr
  obtain ⟨hp, hc⟩ := howner.2 old hold ((old.ages_revokedIf _ _).tokenHash.symm.trans hkey)
  have hsome := old.isSome_revokedIf (old.principalId = principal ∧ old.clientId = clientId)
    m.label.1
  rw [hnone] at hsome
  simp [hp, hc] at hsome

end Rows

/-- Every run is safe. -/
theorem token_families_safe (hrun : Run (Step lifetimes hashToken) start moves sys) :
    FamiliesSafe hashToken moves where
  unique m hm t _ row hrow row' hrow' hfamily husable husable' := by
    obtain ⟨before, after, rfl⟩ := List.append_of_mem hm
    exact (consistent_post hrun).unrotated row hrow row' hrow' hfamily husable.1 husable'.1
  code_replay before m₁ mid m₂ after hmoves code family hconsumes hpresents := by
    subst hmoves
    obtain ⟨hdrawn, hdead⟩ := dead_of_code_replay hrun hconsumes hpresents
    exact dead_from hrun hdrawn hdead
  refresh_replay before m₁ mid m₂ after hmoves row hrotates hpresents := by
    subst hmoves
    obtain ⟨hdrawn, hdead⟩ := dead_of_refresh_replay hrun hrotates hpresents
    exact dead_from hrun hdrawn hdead
  access_revoked before m after hmoves row hrow hrevoked m' hm' row' hrow' hhash t := by
    subst hmoves
    refine access_revoked_of_run hrun ⟨(consistent_post hrun).access_drawn row hrow, ?_⟩
      (List.mem_cons_of_mem m hm') hrow' hhash t
    exact fun r hr hkey => Table.eq_of_key_eq hr hrow hkey ▸ hrevoked
  refresh_revoked before m after hmoves row hrow hrevoked m' hm' row' hrow' hhash t := by
    subst hmoves
    refine refresh_revoked_of_run hrun ⟨(consistent_post hrun).refresh_drawn row hrow, ?_⟩
      (List.mem_cons_of_mem m hm') hrow' hhash t
    exact fun r hr hkey => Table.eq_of_key_eq hr hrow hkey ▸ hrevoked
  client_code before m after hmoves principal clientId hrevokes m₀ hm₀ row hrow hprincipal hclient
      m' hm' row' hrow' hhash t := by
    subst hmoves
    exact code_revoked_of_client hrun hrevokes hm₀ hrow hprincipal hclient hm' hrow' hhash t
  client_access before m after hmoves principal clientId hrevokes m₀ hm₀ row hrow hprincipal
      hclient m' hm' row' hrow' hhash t := by
    subst hmoves
    exact access_revoked_of_run hrun
      (access_revoked_of_client hrun hrevokes hm₀ hrow hprincipal hclient) hm' hrow' hhash t
  client_refresh before m after hmoves principal clientId hrevokes m₀ hm₀ row hrow hprincipal
      hclient m' hm' row' hrow' hhash t := by
    subst hmoves
    exact refresh_revoked_of_run hrun
      (refresh_revoked_of_client hrun hrevokes hm₀ hrow hprincipal hclient) hm' hrow' hhash t

end TokenSystem

/-! ## Two principals and one client -/

open Database

/-- The digests of the codes and tokens in the run below. -/
def sampleTokenDigest (token : String) : Digest :=
  if token = "code-alice" then
    ⟨0xdaa2fbbabc56ac353df044678418361c03edc4ed562a023dc6aaaaea3a2024c1⟩
  else if token = "code-bob" then
    ⟨0xca6e924717f9d6c732a6ad19a06c6190e80c6c5c932afb1686533dac2f7ae3a8⟩
  else if token = "access-1" then
    ⟨0xf4c2844f463b5a93a517de81b67a09c8b9d79697bd3e7e5145e20e1ca2013c06⟩
  else if token = "refresh-1" then
    ⟨0xbd473e5dcdce2510c2df4f0c5a54a605fa3647fe74afae20a8cdb8b91b1a1f63⟩
  else if token = "access-2" then
    ⟨0x6762f65455db85eb39ce6ed04355d710bd03b5d0316aef92dc0846cd5dd72b56⟩
  else ⟨0xf865a88f563b9fbc4c224f6fbabd2ec9f810efefc61b212bda20ee64a6fb2840⟩

def sampleClient : McpRegisteredOAuthClient :=
  ⟨⟨⟨"client-1"⟩, "Client", ["https://client.example.test/callback"]⟩, .dynamic⟩

def sampleGrant (principal : Identity) : McpAuthorizationGrant where
  principal := principal
  clientId := ⟨"client-1"⟩
  redirectUri := .supplied "https://client.example.test/callback"
  resourceUri := "https://notes.example.test/mcp"
  scopes := ["notes:read"]

def sampleExchange (codeChallenge accessToken refreshToken : String) (now : ℤ) :
    McpAuthorizationCodeExchange where
  code := "code-alice"
  clientId := ⟨"client-1"⟩
  redirectUri := some "https://client.example.test/callback"
  resourceUri := "https://notes.example.test/mcp"
  codeChallenge := codeChallenge
  accessToken := accessToken
  refreshToken := refreshToken
  accessExpiresAt := mcpAuthorizationLifetimes.accessExpiresAt now
  refreshExpiresAt := mcpAuthorizationLifetimes.refreshExpiresAt now

/-- Alice and Bob authorize a client. It exchanges the code of Alice and presents it again with
another verifier, and then Alice revokes the client. -/
def sharedClient : List (ℤ × TokenAction) :=
  [(0, .registerClient sampleClient.client 1000),
    (0, .issue "code-alice" sampleClient (sampleGrant alice.authenticatedIdentity) "challenge-1"
      300000),
    (0, .issue "code-bob" sampleClient (sampleGrant bob.authenticatedIdentity) "challenge-2"
      300000),
    (1000, .exchange (sampleExchange "challenge-1" "access-1" "refresh-1" 1000)),
    (2000, .exchange (sampleExchange "challenge-3" "access-2" "refresh-2" 2000)),
    (3000, .revokeClient alice.authenticatedIdentity ⟨"client-1"⟩)]

/-- One transaction of that run. -/
def sampleTokenNext (sys : TokenSystem) (label : ℤ × TokenAction) : TokenSystem :=
  sys.next sampleTokenDigest label

/-- The moves of that run. -/
def sharedClientMoves : List (Move TokenSystem (ℤ × TokenAction)) :=
  Run.trace sampleTokenNext .start sharedClient

theorem run_sharedClient :
    Run (TokenSystem.Step mcpAuthorizationLifetimes sampleTokenDigest) .start sharedClientMoves
      (sharedClient.foldl sampleTokenNext .start) := by
  refine Run.run_trace_of_legal sampleTokenNext _ _ ?_
  refine List.forall_mem_cons.mpr ⟨⟨by decide, by decide, trivial⟩, ?_⟩
  refine List.forall_mem_cons.mpr ⟨⟨by decide, by decide, trivial⟩, ?_⟩
  refine List.forall_mem_cons.mpr ⟨⟨by decide, by decide, trivial⟩, ?_⟩
  refine List.forall_mem_cons.mpr ⟨⟨by decide, by decide, rfl, rfl⟩, ?_⟩
  refine List.forall_mem_cons.mpr ⟨⟨by decide, by decide, rfl, rfl⟩, ?_⟩
  refine List.forall_mem_cons.mpr ⟨⟨by decide, by decide, trivial⟩, ?_⟩
  exact List.forall_mem_nil _

/-- That run is safe. -/
theorem token_families_safe_sharedClient :
    TokenSystem.FamiliesSafe sampleTokenDigest sharedClientMoves :=
  TokenSystem.token_families_safe run_sharedClient

/-- The code is presented again by its client for its resource, and what was issued for it still
works. What Bob was issued still works after Alice has revoked the client. -/
theorem sharedClient_replay_and_revocation : ∃ moves sys,
    Run (TokenSystem.Step mcpAuthorizationLifetimes sampleTokenDigest) .start moves sys ∧
    ∃ before m₁ m₂ m₃, moves = before ++ [m₁, m₂, m₃] ∧
    (∃ code family request, TokenSystem.Consumes sampleTokenDigest m₁ code family ∧
      m₂.label.2 = .exchange request ∧ sampleTokenDigest request.code = code.codeHash ∧
      request.clientId = code.clientId ∧ request.resourceUri = code.resourceUri ∧
      m₂.post.db.oauth.FamilyUsable m₂.post.now family) ∧
    (∃ principal clientId, TokenSystem.RevokesClient m₃ principal clientId) ∧
    ∃ row ∈ m₃.post.db.oauth.mcpAuthorizationCodes, row.clientId = ⟨"client-1"⟩ ∧
      row.Usable m₃.post.now := by
  refine ⟨_, _, run_sharedClient, sharedClientMoves.take 3, _, _, _, rfl, ?_, ?_, ?_⟩
  · refine ⟨_, sampleTokenDigest "refresh-1", _, ⟨_, _, _, rfl, rfl, rfl, rfl⟩, rfl, rfl, rfl, rfl,
      by decide⟩
  · exact ⟨⟨1⟩, ⟨"client-1"⟩, alice.authenticatedIdentity, _, _, rfl, rfl, rfl⟩
  · decide

end Marginalis
