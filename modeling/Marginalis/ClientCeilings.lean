import Mathlib.Data.Prod.Lex
import Mathlib.Data.String.Basic
import Marginalis.ScopeCeiling

/-!
# Managing the ceilings of clients

The owner sees the ceilings of its clients in the list of its authorizations, and may replace
or delete a ceiling only while the client is authorized. A disconnection keeps the row of the
authorization, so the ceiling can still be changed. The daily purge is the only transaction
that deletes authorizations, and it does not ask whether the client has a ceiling : the purge
of the clients themselves does.

A ceiling of a run stays manageable exactly when no purge takes the authorization of a client
that has one (`ceilings_manageable_iff`).
-/

namespace Marginalis

/-! ## The list of authorizations -/

/-- One entry of the list, `McpStoredClientAuthorization`. -/
structure McpStoredClientAuthorization where
  clientId : ClientId
  displayName : String
  registrationMethod : RegistrationMethod
  grantedScopes : List Scope
  scopeCeiling : Option McpScopeCeilingSetting
  authorizedAt : ℤ
  lastUsedAt : Option ℤ
  active : Bool
  deriving DecidableEq, Repr

namespace OAuthTables

variable (o : OAuthTables) (now cutoff : ℤ)

/-- The authorization is not revoked, and a code or a token of it still works. -/
def activeAuthorization (row : ClientAuthorizationRow) : Bool :=
  row.revokedAt = none ∧
    ((∃ code ∈ o.mcpAuthorizationCodes, code.principalId = row.principalId ∧
        code.clientId = row.clientId ∧ code.Usable now) ∨
      (∃ access ∈ o.mcpAccessTokens, access.principalId = row.principalId ∧
        access.clientId = row.clientId ∧ access.Usable now) ∨
      ∃ refresh ∈ o.mcpRefreshTokens, refresh.principalId = row.principalId ∧
        refresh.clientId = row.clientId ∧ refresh.Usable now)

/-- `decode_authorization`, of the rows that the query joins. -/
def decodeAuthorization (client : ClientRow) (row : ClientAuthorizationRow) :
    Except StorageError McpStoredClientAuthorization :=
  let entry : Option McpScopeCeilingSetting → McpStoredClientAuthorization := fun scopeCeiling =>
    { clientId := client.clientId
      displayName := client.displayName
      registrationMethod := client.registrationMethod
      grantedScopes := row.grantedScopes
      scopeCeiling := scopeCeiling
      authorizedAt := row.authorizedAt
      lastUsedAt := row.lastUsedAt
      active := o.activeAuthorization now row }
  match o.clientScopeCeiling row.principalId row.clientId with
  | none => .ok (entry none)
  | some setting => if 1 ≤ setting.revision then .ok (entry (some setting)) else .error .corruptData

/-- The rows of an actor with their clients, the latest authorization first. -/
def joinedAuthorizations (actor : Actor) : List (ClientRow × ClientAuthorizationRow) :=
  Table.orderBy
    (fun joined => toLex (OrderDual.toDual joined.2.authorizedAt, joined.1.clientId.value))
    ((o.mcpClientAuthorizations.select fun row => row.principalId = actor.principalId).filterMap
      fun row => (o.mcpClients.find row.clientId).map fun client => (client, row))

/-- `client_authorizations`. -/
def clientAuthorizations (actor : Actor) :
    Except StorageError (List McpStoredClientAuthorization) :=
  (o.joinedAuthorizations actor).mapM fun joined => o.decodeAuthorization now joined.1 joined.2

/-! ## What can be managed -/

/-- The owner of a ceiling sees it in the list, and can replace and delete it at the revision it
sees there. -/
structure Manageable (ceiling : ClientCeilingRow) : Prop where
  authorized : ∃ row ∈ o.mcpClientAuthorizations, Keyed.key row = Keyed.key ceiling
  listed : ∀ actor : Actor, actor.principalId = ceiling.principalId → ∀ now, ∃ entries,
    o.clientAuthorizations now actor = .ok entries ∧ ∃ entry ∈ entries,
      entry.clientId = ceiling.clientId ∧
        entry.scopeCeiling = some ⟨ceiling.scopes, ceiling.revision⟩
  replaced : ∀ actor : Actor, actor.principalId = ceiling.principalId → ∀ scopes now, ∃ result,
    o.replaceClientScopeCeiling actor ceiling.clientId scopes ceiling.revision now = .ok result
  deleted : ∀ actor : Actor, actor.principalId = ceiling.principalId → ∃ o',
    o.deleteClientScopeCeiling actor ceiling.clientId ceiling.revision = .ok o'

/-- Every ceiling can be managed. -/
def CeilingsManageable : Prop := ∀ ceiling ∈ o.mcpClientScopeCeilings, o.Manageable ceiling

/-- Every ceiling has its authorization. -/
def CeilingsAuthorized : Prop :=
  ∀ ceiling ∈ o.mcpClientScopeCeilings,
    (o.mcpClientAuthorizations.find (Keyed.key ceiling)).isSome

/-- What the schema demands of the two tables : a known client, and a positive revision. -/
structure AuthorizationsConsistent : Prop where
  client : ∀ row ∈ o.mcpClientAuthorizations, (o.mcpClients.find row.clientId).isSome
  revision : ∀ ceiling ∈ o.mcpClientScopeCeilings, 0 < ceiling.revision

/-- What keeps an authorization from the purge : a use after the cutoff, or a code or a token of
it that the statements before leave. -/
def Retains (row : ClientAuthorizationRow) : Prop :=
  cutoff ≤ row.lastUsedAt.getD row.authorizedAt ∨
    (∃ code ∈ o.mcpAuthorizationCodes,
      (code.principalId = row.principalId ∧ code.clientId = row.clientId) ∧
        (now < code.expiresAt ∨ ∃ family ∈ code.tokenFamilyId,
          (∃ access ∈ o.mcpAccessTokens, access.tokenFamilyId = family ∧ access.Usable now) ∨
            ∃ refresh ∈ o.mcpRefreshTokens, refresh.tokenFamilyId = family ∧
              o.purgedRefreshToken now refresh = false)) ∨
    (∃ access ∈ o.mcpAccessTokens,
      (access.principalId = row.principalId ∧ access.clientId = row.clientId) ∧
        access.Usable now) ∨
    ∃ refresh ∈ o.mcpRefreshTokens,
      (refresh.principalId = row.principalId ∧ refresh.clientId = row.clientId) ∧
        o.purgedRefreshToken now refresh = false

variable {o now cutoff}

theorem purgedAccessToken_eq_false {row : AccessTokenRow} :
    purgedAccessToken now row = false ↔ row.Usable now := by
  simp only [purgedAccessToken, AccessTokenRow.Usable, decide_eq_false_iff_not]
  push Not
  exact and_comm

theorem mem_access_purgeTokens {row : AccessTokenRow} :
    row ∈ (o.purgeTokens now).mcpAccessTokens ↔ row ∈ o.mcpAccessTokens ∧ row.Usable now := by
  rw [← purgedAccessToken_eq_false]
  exact Table.mem_deleteWhere

theorem mem_refresh_purgeTokens {row : RefreshTokenRow} :
    row ∈ (o.purgeTokens now).mcpRefreshTokens ↔
      row ∈ o.mcpRefreshTokens ∧ o.purgedRefreshToken now row = false :=
  Table.mem_deleteWhere

theorem mem_code_purgeTokens {row : AuthorizationCodeRow} :
    row ∈ (o.purgeTokens now).mcpAuthorizationCodes ↔ row ∈ o.mcpAuthorizationCodes ∧
      (now < row.expiresAt ∨ ∃ family ∈ row.tokenFamilyId,
        (∃ access ∈ o.mcpAccessTokens, access.tokenFamilyId = family ∧ access.Usable now) ∨
          ∃ refresh ∈ o.mcpRefreshTokens, refresh.tokenFamilyId = family ∧
            o.purgedRefreshToken now refresh = false) := by
  have hrow : row ∈ (o.purgeTokens now).mcpAuthorizationCodes ↔ row ∈ o.mcpAuthorizationCodes ∧
      (o.purgeTokens now).purgedAuthorizationCode now row = false := Table.mem_deleteWhere
  rw [hrow]
  refine and_congr_right fun _ => ?_
  simp only [purgedAuthorizationCode, decide_eq_false_iff_not, mem_access_purgeTokens,
    mem_refresh_purgeTokens, not_and_or, not_le, not_forall, not_not, exists_prop]
  refine or_congr_right (exists_congr fun family => and_congr_right fun _ => or_congr ?_ ?_)
  · exact exists_congr fun access => by tauto
  · exact exists_congr fun refresh => by tauto

/-- `Retains` reads the tables before the purge, and the `WHERE` clause those it has left. -/
theorem retains_iff {row : ClientAuthorizationRow} :
    o.Retains now cutoff row ↔
      (o.purgeTokens now).purgedClientAuthorization cutoff row = false := by
  simp only [Retains, purgedClientAuthorization, decide_eq_false_iff_not, mem_code_purgeTokens,
    mem_access_purgeTokens, mem_refresh_purgeTokens, not_and_or, not_lt, not_not]
  refine or_congr_right (or_congr ?_ (or_congr ?_ ?_))
  · exact exists_congr fun code => by rw [← and_assoc, and_right_comm]
  · exact exists_congr fun access => by rw [← and_assoc, and_right_comm]
  · exact exists_congr fun refresh => by rw [← and_assoc, and_right_comm]

/-! ## A ceiling with an authorization is manageable -/

theorem joinedAuthorizations_mem {actor : Actor} {joined : ClientRow × ClientAuthorizationRow} :
    joined ∈ o.joinedAuthorizations actor ↔ joined.2 ∈ o.mcpClientAuthorizations ∧
      joined.2.principalId = actor.principalId ∧
        o.mcpClients.find joined.2.clientId = some joined.1 := by
  obtain ⟨client, row⟩ := joined
  simp only [joinedAuthorizations, Table.mem_orderBy, List.mem_filterMap, Table.mem_select,
    Option.map_eq_some_iff, decide_eq_true_eq, Prod.mk.injEq]
  refine ⟨?_, ?_⟩
  · rintro ⟨row', ⟨hrow, hprincipal⟩, client', hclient, rfl, rfl⟩
    exact ⟨hrow, hprincipal, hclient⟩
  · rintro ⟨hrow, hprincipal, hclient⟩
    exact ⟨row, ⟨hrow, hprincipal⟩, client, hclient, rfl, rfl⟩

variable (now) in
/-- The list can be read, and shows each ceiling at its revision. -/
theorem AuthorizationsConsistent.decodeAuthorization (h : o.AuthorizationsConsistent)
    (client : ClientRow) (row : ClientAuthorizationRow) : ∃ entry,
      o.decodeAuthorization now client row = .ok entry ∧ entry.clientId = client.clientId ∧
        entry.scopeCeiling = o.clientScopeCeiling row.principalId row.clientId := by
  unfold OAuthTables.decodeAuthorization clientScopeCeiling
  cases hfind : o.mcpClientScopeCeilings.find (row.principalId, row.clientId) with
  | none => exact ⟨_, rfl, rfl, rfl⟩
  | some ceiling =>
    have hrevision : 1 ≤ ceiling.revision := h.revision ceiling (Table.mem_of_find hfind)
    simp only [Option.map_some, if_pos hrevision]
    exact ⟨_, rfl, rfl, rfl⟩

theorem authorizedClient_eq_ok {principal : PrincipalId} {clientId : ClientId} :
    o.authorizedClient principal clientId = .ok () ↔
      (o.mcpClientAuthorizations.find (principal, clientId)).isSome := by
  unfold authorizedClient
  cases o.mcpClientAuthorizations.find (principal, clientId) with
  | none => simp
  | some row => simp

theorem manageable_iff (h : o.AuthorizationsConsistent) {ceiling : ClientCeilingRow}
    (hceiling : ceiling ∈ o.mcpClientScopeCeilings) :
    o.Manageable ceiling ↔ (o.mcpClientAuthorizations.find (Keyed.key ceiling)).isSome := by
  refine ⟨fun hmanageable => ?_, fun hsome => ?_⟩
  · obtain ⟨row, hrow, hkey⟩ := hmanageable.authorized
    rw [← hkey, Table.find_of_mem hrow]
    rfl
  obtain ⟨row, hfind⟩ := Option.isSome_iff_exists.mp hsome
  have hrow := Table.mem_of_find hfind
  have hkey : (row.principalId, row.clientId) = (ceiling.principalId, ceiling.clientId) :=
    Table.key_of_find hfind
  obtain ⟨hprincipal, hclientId⟩ := Prod.mk.inj hkey
  obtain ⟨client, hclient⟩ := Option.isSome_iff_exists.mp (h.client row hrow)
  have hstored : o.mcpClientScopeCeilings.find (ceiling.principalId, ceiling.clientId) =
      some ceiling := Table.find_of_mem hceiling
  have hauthorized : o.authorizedClient ceiling.principalId ceiling.clientId = .ok () :=
    authorizedClient_eq_ok.mpr hsome
  have hpositive := h.revision ceiling hceiling
  refine ⟨⟨row, hrow, hkey⟩, ?_, ?_, ?_⟩
  · intro actor hactor now
    have hdecoded : ∀ joined ∈ o.joinedAuthorizations actor, ∃ entry,
        o.decodeAuthorization now joined.1 joined.2 = .ok entry := fun joined _ => by
      obtain ⟨entry, hentry, -⟩ := h.decodeAuthorization now joined.1 joined.2
      exact ⟨entry, hentry⟩
    obtain ⟨entries, hentries⟩ := Except.mapM_ok hdecoded
    have hjoined : (client, row) ∈ o.joinedAuthorizations actor :=
      joinedAuthorizations_mem.mpr ⟨hrow, hprincipal.trans hactor.symm, hclient⟩
    obtain ⟨entry, hmem, hentry⟩ := Except.exists_mem_of_mapM hentries hjoined
    obtain ⟨entry', hentry', hclient', hscopes⟩ :=
      h.decodeAuthorization now client row
    rw [hentry] at hentry'
    cases hentry'
    refine ⟨entries, hentries, entry, hmem, ?_, ?_⟩
    · rw [hclient', ← hclientId]
      exact Table.key_of_find hclient
    · rw [hscopes, hprincipal, hclientId]
      unfold clientScopeCeiling
      rw [hstored]
      rfl
  · rintro actor hactor scopes now
    refine Except.exists_eq_ok ?_
    unfold replaceClientScopeCeiling replaceClientSetting
    rw [hclientId] at hclient
    rw [hactor, hclient, hauthorized, hstored, if_neg (by simp)]
    simp [pure, Except.pure, bind, Except.bind, Except.toOption, hpositive.ne']
  · rintro actor hactor
    unfold deleteClientScopeCeiling
    rw [hactor, hauthorized, hstored]
    exact ⟨_, if_pos rfl⟩

/-! ## What the other transactions keep -/

/-- Between the two states no ceiling has changed and no authorization or client has gone, and a
new authorization is one of a registered client. -/
structure KeepsAuthorizations (o o' : OAuthTables) : Prop where
  ceilings : o'.mcpClientScopeCeilings = o.mcpClientScopeCeilings
  client : ∀ id, (o.mcpClients.find id).isSome → (o'.mcpClients.find id).isSome
  authorization : ∀ k, (o.mcpClientAuthorizations.find k).isSome →
    (o'.mcpClientAuthorizations.find k).isSome
  registered : ∀ k, (o'.mcpClientAuthorizations.find k).isSome →
    (o.mcpClientAuthorizations.find k).isSome ∨ (o'.mcpClients.find k.2).isSome

/-- The three tables of the list and the ceilings are left alone. -/
structure SameAuthorizations (o o' : OAuthTables) : Prop where
  ceilings : o'.mcpClientScopeCeilings = o.mcpClientScopeCeilings
  clients : o'.mcpClients = o.mcpClients
  authorizations : o'.mcpClientAuthorizations = o.mcpClientAuthorizations

variable {o' : OAuthTables}

theorem SameAuthorizations.keeps (h : o.SameAuthorizations o') : o.KeepsAuthorizations o' where
  ceilings := h.ceilings
  client id hid := by rwa [h.clients]
  authorization k hk := by rwa [h.authorizations]
  registered k hk := by
    rw [h.authorizations] at hk
    exact Or.inl hk

theorem KeepsAuthorizations.refl (o : OAuthTables) : o.KeepsAuthorizations o :=
  SameAuthorizations.keeps ⟨rfl, rfl, rfl⟩

theorem KeepsAuthorizations.consistent (h : o.KeepsAuthorizations o')
    (ho : o.AuthorizationsConsistent) : o'.AuthorizationsConsistent where
  client row hrow := by
    have hsome : (o'.mcpClientAuthorizations.find (Keyed.key row)).isSome := by
      rw [Table.find_of_mem hrow]
      rfl
    rcases h.registered _ hsome with hold | hnew
    · obtain ⟨old, hfind⟩ := Option.isSome_iff_exists.mp hold
      have hkey : (old.principalId, old.clientId) = (row.principalId, row.clientId) :=
        Table.key_of_find hfind
      rw [← (Prod.mk.inj hkey).2]
      exact h.client _ (ho.client old (Table.mem_of_find hfind))
    · exact hnew
  revision := by
    rw [h.ceilings]
    exact ho.revision

theorem KeepsAuthorizations.authorized (h : o.KeepsAuthorizations o') (ho : o.CeilingsAuthorized) :
    o'.CeilingsAuthorized := by
  intro ceiling hceiling
  rw [h.ceilings] at hceiling
  exact h.authorization _ (ho ceiling hceiling)

theorem insertTokens_sameAuthorizations {access : AccessTokenRow} {refresh : RefreshTokenRow}
    (h : o.insertTokens access refresh = .ok o') : o.SameAuthorizations o' := by
  unfold insertTokens at h
  split at h
  · cases h
    exact ⟨rfl, rfl, rfl⟩
  · cases h

variable (now) in
theorem invalidateExcessGrants_sameAuthorizations (principal : PrincipalId)
    (clientId : Option ClientId) (allowed : List Scope) :
    o.SameAuthorizations (o.invalidateExcessGrants principal clientId allowed now) := by
  have hfold : ∀ (families : List Digest) (o : OAuthTables),
      o.SameAuthorizations (families.foldl (fun o family => o.revokeFamily family now) o) := by
    intro families
    induction families with
    | nil => exact fun o => ⟨rfl, rfl, rfl⟩
    | cons family families ih =>
      intro o
      obtain ⟨hceilings, hclients, hauthorizations⟩ := ih (o.revokeFamily family now)
      exact ⟨hceilings, hclients, hauthorizations⟩
  obtain ⟨hceilings, hclients, hauthorizations⟩ := hfold _ _
  exact ⟨hceilings, hclients, hauthorizations⟩

theorem upsertClient_keepsAuthorizations {registered : McpRegisteredOAuthClient}
    (h : o.upsertClient registered now = .ok o') :
    o.KeepsAuthorizations o' ∧ (o'.mcpClients.find registered.client.clientId).isSome := by
  unfold upsertClient at h
  dsimp only at h
  have hupsert : ∀ row : ClientRow, row.clientId = registered.client.clientId →
      o.KeepsAuthorizations { o with mcpClients := o.mcpClients.upsert row } ∧
        ((o.mcpClients.upsert row).find registered.client.clientId).isSome := by
    intro row hrow
    refine ⟨⟨rfl, fun id hid => ?_, fun k hk => hk, fun k hk => Or.inl hk⟩, ?_⟩
    · dsimp only
      rw [Table.find_upsert]
      split_ifs
      · rfl
      · exact hid
    · rw [Table.find_upsert, if_pos (show Keyed.key row = registered.client.clientId from hrow)]
      rfl
  split at h
  · cases h
    exact hupsert _ rfl
  · next row hfind =>
    split_ifs at h
    cases h
    exact hupsert _ (Table.key_of_find hfind)

variable (now) in
theorem authorizeClient_keepsAuthorizations (principal : PrincipalId) {clientId : ClientId}
    (scopes : List Scope) (hclient : (o.mcpClients.find clientId).isSome) :
    o.KeepsAuthorizations (o.authorizeClient principal clientId scopes now) := by
  unfold authorizeClient
  refine ⟨rfl, fun id hid => hid, fun k hk => ?_, fun k hk => ?_⟩
  · dsimp only
    rw [Table.find_upsert]
    split_ifs
    · rfl
    · exact hk
  · dsimp only at hk ⊢
    rw [Table.find_upsert] at hk
    split_ifs at hk with hkey
    · rw [← hkey]
      exact Or.inr hclient
    · exact Or.inl hk

theorem KeepsAuthorizations.trans {o'' : OAuthTables} (h : o.KeepsAuthorizations o')
    (h' : o'.KeepsAuthorizations o'') : o.KeepsAuthorizations o'' where
  ceilings := h'.ceilings.trans h.ceilings
  client id hid := h'.client id (h.client id hid)
  authorization k hk := h'.authorization k (h.authorization k hk)
  registered k hk := by
    rcases h'.registered k hk with hbetween | hnew
    · rcases h.registered k hbetween with hold | hregistered
      · exact Or.inl hold
      · exact Or.inr (h'.client _ hregistered)
    · exact Or.inr hnew

/-- A write to the authorizations that are there. -/
theorem keepsAuthorizations_modify {p : ClientAuthorizationRow → Bool}
    {f : ClientAuthorizationRow → ClientAuthorizationRow}
    (hf : ∀ row, Keyed.key (f row) = Keyed.key row)
    (hceilings : o'.mcpClientScopeCeilings = o.mcpClientScopeCeilings)
    (hclients : o'.mcpClients = o.mcpClients)
    (hauthorizations : o'.mcpClientAuthorizations = o.mcpClientAuthorizations.modify p f hf) :
    o.KeepsAuthorizations o' := by
  refine ⟨hceilings, fun id hid => by rwa [hclients], fun k hk => ?_, fun k hk => ?_⟩
  · rw [hauthorizations, Table.find_modify, Option.isSome_map]
    exact hk
  · rw [hauthorizations, Table.find_modify, Option.isSome_map] at hk
    exact Or.inl hk

/-! ## The transactions on ceilings -/

variable {actor : Actor} {clientId : ClientId} {scopes : List Scope} {expectedRevision : ℕ}
  {setting : McpScopeCeilingSetting}

theorem replacePrincipalScopeCeiling_keepsAuthorizations
    (h : o.replacePrincipalScopeCeiling actor scopes expectedRevision now = .ok (setting, o')) :
    o.KeepsAuthorizations o' := by
  obtain ⟨revision, rfl⟩ := replacePrincipalScopeCeiling_eq_ok h
  obtain ⟨hceilings, hclients, hauthorizations⟩ :=
    invalidateExcessGrants_sameAuthorizations (o := { o with
      mcpPrincipalScopeCeilings := o.mcpPrincipalScopeCeilings.upsert
        ⟨actor.principalId, scopes, revision, now⟩ }) now actor.principalId none scopes
  exact SameAuthorizations.keeps ⟨hceilings, hclients, hauthorizations⟩

theorem replaceClientSetting_positive {principal : PrincipalId} {revision : ℕ}
    (h : o.replaceClientSetting principal clientId scopes expectedRevision now =
      .ok (revision, o')) : 0 < revision := by
  unfold replaceClientSetting at h
  split at h <;> split_ifs at h <;> cases h <;> omega

/-- A ceiling is written for an authorized client only. -/
theorem replaceClientScopeCeiling_authorized
    (h : o.replaceClientScopeCeiling actor clientId scopes expectedRevision now =
      .ok (setting, o')) :
    (o.mcpClientAuthorizations.find (actor.principalId, clientId)).isSome ∧
      ∃ revision, 0 < revision ∧
        o'.mcpClientScopeCeilings = o.mcpClientScopeCeilings.upsert
          ⟨actor.principalId, clientId, scopes, revision, now⟩ ∧
        o'.mcpClients = o.mcpClients ∧
        o'.mcpClientAuthorizations = o.mcpClientAuthorizations := by
  unfold replaceClientScopeCeiling at h
  split_ifs at h
  · obtain ⟨_, hthrow, -⟩ := Except.bind_eq_ok.mp h
    cases hthrow
  obtain ⟨⟨⟩, hauthorized, h⟩ := Except.bind_eq_ok.mp h
  obtain ⟨⟨revision, between⟩, hbetween, h⟩ := Except.bind_eq_ok.mp h
  cases h
  refine ⟨authorizedClient_eq_ok.mp hauthorized, revision, replaceClientSetting_positive hbetween,
    ?_⟩
  obtain ⟨hceilings, hclients, hauthorizations⟩ := invalidateExcessGrants_sameAuthorizations
    (o := between) now actor.principalId (some clientId) scopes
  rw [hceilings, hclients, hauthorizations]
  unfold replaceClientSetting at hbetween
  split at hbetween <;> split_ifs at hbetween <;> cases hbetween <;> exact ⟨rfl, rfl, rfl⟩

theorem AuthorizationsConsistent.replaceClientScopeCeiling (ho : o.AuthorizationsConsistent)
    (h : o.replaceClientScopeCeiling actor clientId scopes expectedRevision now =
      .ok (setting, o')) : o'.AuthorizationsConsistent := by
  obtain ⟨-, revision, hpositive, hceilings, hclients, hauthorizations⟩ :=
    replaceClientScopeCeiling_authorized h
  refine ⟨?_, fun ceiling hceiling => ?_⟩
  · rw [hauthorizations, hclients]
    exact ho.client
  · rw [hceilings] at hceiling
    rcases Table.mem_upsert.mp hceiling with rfl | ⟨hold, -⟩
    · exact hpositive
    · exact ho.revision ceiling hold

theorem CeilingsAuthorized.replaceClientScopeCeiling (ho : o.CeilingsAuthorized)
    (h : o.replaceClientScopeCeiling actor clientId scopes expectedRevision now =
      .ok (setting, o')) : o'.CeilingsAuthorized := by
  obtain ⟨hauthorized, revision, -, hceilings, -, hauthorizations⟩ :=
    replaceClientScopeCeiling_authorized h
  intro ceiling hceiling
  rw [hauthorizations]
  rw [hceilings] at hceiling
  rcases Table.mem_upsert.mp hceiling with rfl | ⟨hold, -⟩
  · exact hauthorized
  · exact ho ceiling hold

theorem deleteClientScopeCeiling_sameTables
    (h : o.deleteClientScopeCeiling actor clientId expectedRevision = .ok o') :
    o'.mcpClients = o.mcpClients ∧ o'.mcpClientAuthorizations = o.mcpClientAuthorizations ∧
      ∀ ceiling ∈ o'.mcpClientScopeCeilings, ceiling ∈ o.mcpClientScopeCeilings := by
  obtain ⟨-, -, h⟩ := Except.bind_eq_ok.mp h
  split at h
  · cases h
  · split_ifs at h
    cases h
    exact ⟨rfl, rfl, fun ceiling hceiling => (Table.mem_deleteWhere.mp hceiling).1⟩

/-! ## The purge -/

theorem mem_authorizations_purgeExpired {row : ClientAuthorizationRow} :
    row ∈ (o.purgeExpired now cutoff).mcpClientAuthorizations ↔
      row ∈ o.mcpClientAuthorizations ∧ o.Retains now cutoff row := by
  rw [retains_iff]
  exact Table.mem_deleteWhere

theorem mem_clients_purgeExpired {client : ClientRow} {row : ClientAuthorizationRow}
    (hclient : client ∈ o.mcpClients)
    (hrow : row ∈ (o.purgeExpired now cutoff).mcpClientAuthorizations)
    (hid : row.clientId = client.clientId) : client ∈ (o.purgeExpired now cutoff).mcpClients := by
  refine Table.mem_deleteWhere.mpr ⟨hclient, ?_⟩
  simp only [purgedClient, decide_eq_false_iff_not]
  rintro ⟨-, -, -, -, -, hnone⟩
  exact hnone ⟨row, hrow, hid⟩

/-- A client that is left without an authorization may go, one with an authorization stays. -/
theorem AuthorizationsConsistent.purgeExpired (ho : o.AuthorizationsConsistent) :
    (o.purgeExpired now cutoff).AuthorizationsConsistent := by
  refine ⟨fun row hrow => ?_, ho.revision⟩
  have hold := (mem_authorizations_purgeExpired.mp hrow).1
  obtain ⟨client, hclient⟩ := Option.isSome_iff_exists.mp (ho.client row hold)
  have hid : client.clientId = row.clientId := Table.key_of_find hclient
  have hkept := mem_clients_purgeExpired (Table.mem_of_find hclient) hrow hid.symm
  rw [← hid]
  exact Option.isSome_iff_exists.mpr ⟨client, Table.find_of_mem hkept⟩

variable (now cutoff) in
theorem purgeExpired_authorized_iff (ho : o.CeilingsAuthorized) :
    (o.purgeExpired now cutoff).CeilingsAuthorized ↔
      ∀ ceiling ∈ o.mcpClientScopeCeilings, ∀ row ∈ o.mcpClientAuthorizations,
        Keyed.key row = Keyed.key ceiling → o.Retains now cutoff row := by
  refine ⟨fun h ceiling hceiling row hrow hkey => ?_, fun h ceiling hceiling => ?_⟩
  · obtain ⟨kept, hfind⟩ := Option.isSome_iff_exists.mp (h ceiling hceiling)
    obtain ⟨hkept, hretains⟩ := mem_authorizations_purgeExpired.mp (Table.mem_of_find hfind)
    rw [Table.eq_of_key_eq hrow hkept (hkey.trans (Table.key_of_find hfind).symm)]
    exact hretains
  · obtain ⟨row, hfind⟩ := Option.isSome_iff_exists.mp (ho ceiling hceiling)
    have hrow := Table.mem_of_find hfind
    have hkey := Table.key_of_find hfind
    have hkept := mem_authorizations_purgeExpired.mpr ⟨hrow, h ceiling hceiling row hrow hkey⟩
    rw [← hkey, Table.find_of_mem hkept]
    rfl

end OAuthTables

/-! ## The other transactions -/

namespace Database

open OAuthTables

variable {hashToken : String → Digest} {now : ℤ} {db db' : Database}

theorem commit_keepsAuthorizations {ε : Type*} {result : Except ε Database}
    (h : ∀ db', result = .ok db' → db.oauth.KeepsAuthorizations db'.oauth) :
    db.oauth.KeepsAuthorizations (db.commit result).oauth := by
  unfold commit
  split
  · exact h _ rfl
  · exact .refl _

theorem issueMcpAuthorizationCode_keepsAuthorizations {code : String}
    {registered : McpRegisteredOAuthClient} {grant : McpAuthorizationGrant} {codeChallenge : String}
    {expiresAt : ℤ}
    (h : db.issueMcpAuthorizationCode hashToken code registered grant codeChallenge expiresAt now =
      .ok db') : db.oauth.KeepsAuthorizations db'.oauth := by
  unfold issueMcpAuthorizationCode at h
  obtain ⟨⟨⟨actor, identityId⟩, resolved⟩, hresolved, h⟩ := Except.bind_eq_ok.mp h
  rw [Except.mapError_eq_ok] at hresolved
  obtain ⟨registeredTables, hregistered, h⟩ := Except.bind_eq_ok.mp h
  obtain ⟨oauth, hoauth, h⟩ := Except.bind_eq_ok.mp h
  cases h
  obtain ⟨hkeeps, hclient⟩ := upsertClient_keepsAuthorizations hregistered
  rw [resolveOrCreateIn_oauth hresolved] at hkeeps
  have hauthorized := hkeeps.trans
    (authorizeClient_keepsAuthorizations now actor.principalId grant.scopes hclient)
  unfold insertCode at hoauth
  split at hoauth
  · cases hoauth
  · cases hoauth
    exact ⟨hauthorized.ceilings, hauthorized.client, hauthorized.authorization,
      hauthorized.registered⟩

theorem exchangeMcpAuthorizationCode_keepsAuthorizations {request : McpAuthorizationCodeExchange}
    {outcome : Option McpAuthorizationGrant}
    (h : db.exchangeMcpAuthorizationCode hashToken request now = .ok (outcome, db')) :
    db.oauth.KeepsAuthorizations db'.oauth := by
  unfold exchangeMcpAuthorizationCode at h
  split at h
  · cases h
    exact .refl _
  next code hcode =>
  by_cases hmatches : code.Matches request ∧ code.Usable now
  · rw [if_pos hmatches] at h
    obtain ⟨principal, -, h⟩ := Except.bind_eq_ok.mp h
    obtain ⟨oauth, hoauth, h⟩ := Except.bind_eq_ok.mp h
    cases h
    obtain ⟨hceilings, hclients, hauthorizations⟩ := insertTokens_sameAuthorizations hoauth
    exact SameAuthorizations.keeps ⟨hceilings, hclients, hauthorizations⟩
  · rw [if_neg hmatches] at h
    split at h
    · split_ifs at h <;> cases h
      · exact SameAuthorizations.keeps ⟨rfl, rfl, rfl⟩
      · exact .refl _
    · cases h
      exact .refl _

theorem rotateMcpRefreshToken_keepsAuthorizations {rotation : McpRefreshTokenRotation}
    {outcome : McpRefreshTokenRotationOutcome}
    (h : db.rotateMcpRefreshToken hashToken rotation now = .ok (outcome, db')) :
    db.oauth.KeepsAuthorizations db'.oauth := by
  unfold rotateMcpRefreshToken at h
  split at h
  · cases h
    exact .refl _
  next row hrow =>
  by_cases hmatches : (row.clientId = rotation.clientId ∧ row.resourceUri = rotation.resourceUri) ∧
      row.Usable now
  · rw [if_pos hmatches] at h
    dsimp only at h
    split_ifs at h
    · obtain ⟨oauth, hoauth, h⟩ := Except.bind_eq_ok.mp h
      cases h
      obtain ⟨hceilings, hclients, hauthorizations⟩ := insertTokens_sameAuthorizations hoauth
      exact SameAuthorizations.keeps ⟨hceilings, hclients, hauthorizations⟩
    · cases h
      exact .refl _
  · rw [if_neg hmatches] at h
    split_ifs at h <;> cases h
    · exact SameAuthorizations.keeps ⟨rfl, rfl, rfl⟩
    · exact .refl _

theorem authenticateMcpAccessToken_keepsAuthorizations {token resourceUri : String}
    {principal : Option McpAuthenticatedPrincipal}
    (h : db.authenticateMcpAccessToken hashToken token resourceUri now = .ok (principal, db')) :
    db.oauth.KeepsAuthorizations db'.oauth := by
  unfold authenticateMcpAccessToken at h
  split at h
  · cases h
    exact .refl _
  split_ifs at h
  · obtain ⟨identity, -, h⟩ := Except.bind_eq_ok.mp h
    cases h
    refine keepsAuthorizations_modify ?_ rfl rfl rfl
    exact fun _ => rfl
  · cases h
    exact .refl _

theorem revokeMcpToken_keepsAuthorizations (token : String) (clientId : ClientId) :
    db.oauth.KeepsAuthorizations (db.revokeMcpToken hashToken token clientId now).oauth := by
  unfold revokeMcpToken revokeToken
  dsimp only
  split
  · exact .refl _
  · exact SameAuthorizations.keeps ⟨rfl, rfl, rfl⟩

theorem registerClientBounded_keepsAuthorizations {client : McpOAuthClient} {maximumClients : ℕ}
    {room : Bool} {o : OAuthTables}
    (h : db.oauth.registerClientBounded client now maximumClients = .ok (room, o)) :
    db.oauth.KeepsAuthorizations o := by
  unfold registerClientBounded at h
  split_ifs at h
  · split at h
    · cases h
    · next clients hclients =>
      cases h
      refine ⟨rfl, fun id hid => ?_, fun k hk => hk, fun k hk => Or.inl hk⟩
      dsimp only
      rw [Table.find_insert? hclients]
      split_ifs
      · rfl
      · exact hid
  · cases h
    exact .refl _

end Database

/-! ## Runs -/

/-- What is asked of a transaction elsewhere : it leaves clients, authorizations and the ceilings
of clients alone. -/
def TokenAction.LeavesAuthorizations (db : Database) (action : TokenAction) : Prop :=
  ∀ db', action = .elsewhere db' → db.oauth.SameAuthorizations db'.oauth

/-- The transactions that write the ceilings of clients, and the purge. -/
def TokenAction.WritesClientCeilings : TokenAction → Prop
  | .replaceClientCeiling .. | .deleteClientCeiling .. | .purge .. => True
  | _ => False

/-- All others keep the authorizations. -/
theorem TokenAction.keepsAuthorizations {hashToken : String → Digest} {now : ℤ} {db : Database}
    {action : TokenAction} (hwrites : ¬action.WritesClientCeilings)
    (helsewhere : action.LeavesAuthorizations db) :
    db.oauth.KeepsAuthorizations (action.next hashToken now db).oauth := by
  cases action with
  | issue code registered grant codeChallenge expiresAt =>
    exact Database.commit_keepsAuthorizations fun db' h =>
      Database.issueMcpAuthorizationCode_keepsAuthorizations h
  | exchange request =>
    refine Database.commit_keepsAuthorizations fun db' h => ?_
    obtain ⟨⟨outcome, db''⟩, hout, rfl⟩ := Except.map_eq_ok.mp h
    exact Database.exchangeMcpAuthorizationCode_keepsAuthorizations hout
  | rotate rotation =>
    refine Database.commit_keepsAuthorizations fun db' h => ?_
    obtain ⟨⟨outcome, db''⟩, hout, rfl⟩ := Except.map_eq_ok.mp h
    exact Database.rotateMcpRefreshToken_keepsAuthorizations hout
  | authenticate token resourceUri =>
    refine Database.commit_keepsAuthorizations fun db' h => ?_
    obtain ⟨⟨principal, db''⟩, hout, rfl⟩ := Except.map_eq_ok.mp h
    exact Database.authenticateMcpAccessToken_keepsAuthorizations hout
  | revokeClient identity clientId =>
    refine Database.commit_keepsAuthorizations fun db' h => ?_
    obtain ⟨_ | ⟨actor, identityId⟩, -, h⟩ := Except.bind_eq_ok.mp h
    · cases h
      exact .refl _
    · cases h
      refine OAuthTables.keepsAuthorizations_modify ?_ rfl rfl rfl
      exact fun _ => rfl
  | revokeToken token clientId => exact Database.revokeMcpToken_keepsAuthorizations token clientId
  | registerClient client maximumClients =>
    refine Database.commit_keepsAuthorizations fun db' h => ?_
    obtain ⟨o, ho, rfl⟩ := Except.map_eq_ok.mp h
    obtain ⟨⟨room, o'⟩, hout, rfl⟩ := Except.map_eq_ok.mp ho
    exact Database.registerClientBounded_keepsAuthorizations hout
  | replacePrincipalCeiling actor scopes expectedRevision =>
    refine Database.commit_keepsAuthorizations fun db' h => ?_
    obtain ⟨o, ho, rfl⟩ := Except.map_eq_ok.mp h
    obtain ⟨⟨setting, o'⟩, hout, rfl⟩ := Except.map_eq_ok.mp ho
    exact OAuthTables.replacePrincipalScopeCeiling_keepsAuthorizations hout
  | elsewhere db' => exact (helsewhere db' rfl).keeps
  | replaceClientCeiling | deleteClientCeiling | purge => exact absurd trivial hwrites

/-- One transaction at a reading of the clock. -/
def Database.ClientStep (hashToken : String → Digest) (db : Database) (label : ℤ × TokenAction)
    (db' : Database) : Prop :=
  label.2.LeavesAuthorizations db ∧ db' = label.2.next hashToken label.1 db

/-- A purge leaves the authorization of every client that has a ceiling. -/
def SparesCeilings (m : Move Database (ℤ × TokenAction)) : Prop :=
  ∀ cutoff, m.label.2 = .purge cutoff →
    ∀ ceiling ∈ m.pre.oauth.mcpClientScopeCeilings, ∀ row ∈ m.pre.oauth.mcpClientAuthorizations,
      Keyed.key row = Keyed.key ceiling → m.pre.oauth.Retains m.label.1 cutoff row

namespace Database

open OAuthTables

variable {hashToken : String → Digest} {db db' : Database} {label : ℤ × TokenAction}
  {moves : List (Move Database (ℤ × TokenAction))}

/-- The tables stay consistent. -/
theorem ClientStep.consistent (hstep : ClientStep hashToken db label db')
    (hdb : db.oauth.AuthorizationsConsistent) : db'.oauth.AuthorizationsConsistent := by
  obtain ⟨helsewhere, rfl⟩ := hstep
  obtain ⟨now, action⟩ := label
  by_cases hwrites : action.WritesClientCeilings
  · cases action with
    | replaceClientCeiling actor clientId scopes expectedRevision =>
      show AuthorizationsConsistent (db.commitOAuth _).oauth
      cases hout : db.oauth.replaceClientScopeCeiling actor clientId scopes expectedRevision
        now with
      | error e => exact hdb
      | ok result => exact hdb.replaceClientScopeCeiling hout
    | deleteClientCeiling actor clientId expectedRevision =>
      show AuthorizationsConsistent (db.commitOAuth _).oauth
      cases hout : db.oauth.deleteClientScopeCeiling actor clientId expectedRevision with
      | error e => exact hdb
      | ok o =>
        obtain ⟨hclients, hauthorizations, hceilings⟩ := deleteClientScopeCeiling_sameTables hout
        refine ⟨?_, fun ceiling hceiling => hdb.revision ceiling (hceilings ceiling hceiling)⟩
        show ∀ row ∈ o.mcpClientAuthorizations, (o.mcpClients.find row.clientId).isSome
        rw [hclients, hauthorizations]
        exact hdb.client
    | purge cutoff => exact hdb.purgeExpired
    | issue | exchange | rotate | authenticate | revokeClient | revokeToken | registerClient
    | replacePrincipalCeiling | elsewhere => exact absurd hwrites id
  · exact (TokenAction.keepsAuthorizations hwrites helsewhere).consistent hdb

/-- Where every ceiling has its authorization, a step keeps that exactly when it spares the
ceilings. -/
theorem ClientStep.authorized_iff (hstep : ClientStep hashToken db label db')
    (hdb : db.oauth.CeilingsAuthorized) :
    db'.oauth.CeilingsAuthorized ↔ SparesCeilings ⟨db, label, db'⟩ := by
  obtain ⟨helsewhere, rfl⟩ := hstep
  obtain ⟨now, action⟩ := label
  by_cases hpurge : ∃ cutoff, action = .purge cutoff
  · obtain ⟨cutoff, rfl⟩ := hpurge
    have hiff := purgeExpired_authorized_iff now cutoff hdb
    refine hiff.trans ⟨fun h cutoff' heq => ?_, fun h => h cutoff rfl⟩
    cases heq
    exact h
  have hspares : SparesCeilings ⟨db, (now, action), action.next hashToken now db⟩ :=
    fun cutoff heq => absurd ⟨cutoff, heq⟩ hpurge
  refine ⟨fun _ => hspares, fun _ => ?_⟩
  by_cases hwrites : action.WritesClientCeilings
  · cases action with
    | replaceClientCeiling actor clientId scopes expectedRevision =>
      show CeilingsAuthorized (db.commitOAuth _).oauth
      cases hout : db.oauth.replaceClientScopeCeiling actor clientId scopes expectedRevision
        now with
      | error e => exact hdb
      | ok result => exact hdb.replaceClientScopeCeiling hout
    | deleteClientCeiling actor clientId expectedRevision =>
      show CeilingsAuthorized (db.commitOAuth _).oauth
      cases hout : db.oauth.deleteClientScopeCeiling actor clientId expectedRevision with
      | error e => exact hdb
      | ok o =>
        obtain ⟨-, hauthorizations, hceilings⟩ := deleteClientScopeCeiling_sameTables hout
        intro ceiling hceiling
        show (o.mcpClientAuthorizations.find _).isSome
        rw [hauthorizations]
        exact hdb ceiling (hceilings ceiling hceiling)
    | purge cutoff => exact absurd ⟨cutoff, rfl⟩ hpurge
    | issue | exchange | rotate | authenticate | revokeClient | revokeToken | registerClient
    | replacePrincipalCeiling | elsewhere => exact absurd hwrites id
  · exact (TokenAction.keepsAuthorizations hwrites helsewhere).authorized hdb

theorem ceilingsManageable_iff {o : OAuthTables} (ho : o.AuthorizationsConsistent) :
    o.CeilingsManageable ↔ o.CeilingsAuthorized :=
  forall₂_congr fun _ hceiling => manageable_iff ho hceiling

theorem authorizationsConsistent_empty : empty.oauth.AuthorizationsConsistent :=
  ⟨fun _ h => absurd h Table.not_mem_empty, fun _ h => absurd h Table.not_mem_empty⟩

/-- The tables of a run are consistent, and its ceilings have their authorizations as long as the
purges spare them. -/
theorem authorizations_of_run (hrun : Run (ClientStep hashToken) empty moves db) :
    db.oauth.AuthorizationsConsistent ∧
      ((∀ m ∈ moves, SparesCeilings m) → db.oauth.CeilingsAuthorized) ∧
      ((∀ m ∈ moves, m.post.oauth.CeilingsManageable) ↔ ∀ m ∈ moves, SparesCeilings m) := by
  induction hrun with
  | nil =>
    exact ⟨authorizationsConsistent_empty, fun _ _ h => absurd h Table.not_mem_empty, by simp⟩
  | @snoc s t moves label hrun hstep ih =>
    obtain ⟨hconsistent, hauthorized, hiff⟩ := ih
    have hconsistent' := hstep.consistent hconsistent
    simp only [List.forall_mem_append, List.forall_mem_singleton]
    refine ⟨hconsistent', fun ⟨hbefore, hlast⟩ => ?_, ?_⟩
    · exact (hstep.authorized_iff (hauthorized hbefore)).mpr hlast
    · rw [hiff, ceilingsManageable_iff hconsistent']
      exact and_congr_right fun hbefore => hstep.authorized_iff (hauthorized hbefore)

/-- The ceilings stay manageable through a whole run exactly when no purge of it deletes the
authorization of a client that has one. -/
theorem ceilings_manageable_iff (hrun : Run (ClientStep hashToken) empty moves db) :
    (∀ m ∈ moves, m.post.oauth.CeilingsManageable) ↔ ∀ m ∈ moves, SparesCeilings m :=
  (authorizations_of_run hrun).2.2

/-! ## A ceiling that outlives its authorization -/

/-- Alice authorizes a client, limits it to reading, and the client never uses its code. The purge
of two days later deletes the authorization. -/
def unusedClient : List (ℤ × TokenAction) :=
  [(0, .issue "code-alice" sampleClient (sampleGrant alice.authenticatedIdentity) "challenge-1"
      300000),
    (1000, .replaceClientCeiling alice ⟨"client-1"⟩ ["notes:read"] 0),
    (172800000, .purge 86400000)]

/-- One transaction of that run. -/
def sampleClientNext (db : Database) (label : ℤ × TokenAction) : Database :=
  label.2.next sampleTokenDigest label.1 db

/-- The moves of that run. -/
def unusedClientMoves : List (Move Database (ℤ × TokenAction)) :=
  Run.trace sampleClientNext empty unusedClient

theorem run_unusedClient :
    Run (ClientStep sampleTokenDigest) empty unusedClientMoves
      (unusedClient.foldl sampleClientNext empty) := by
  refine Run.run_trace_of_legal sampleClientNext _ _ ?_
  refine List.forall_mem_cons.mpr ⟨fun _ h => (by cases h), ?_⟩
  refine List.forall_mem_cons.mpr ⟨fun _ h => (by cases h), ?_⟩
  refine List.forall_mem_cons.mpr ⟨fun _ h => (by cases h), ?_⟩
  exact List.forall_mem_nil _

/-- The ceiling is still read for the next authorization, and Alice can not delete it. -/
theorem ceiling_unmanageable : ∃ moves db,
    Run (ClientStep sampleTokenDigest) empty moves db ∧ ∃ m ∈ moves,
      m.post.oauth.clientScopeCeiling alice.principalId ⟨"client-1"⟩ = some ⟨["notes:read"], 1⟩ ∧
        ¬m.post.oauth.CeilingsAuthorized ∧ ¬m.post.oauth.CeilingsManageable := by
  have hlast : (unusedClient.foldl sampleClientNext empty).oauth.clientScopeCeiling
      alice.principalId ⟨"client-1"⟩ = some ⟨["notes:read"], 1⟩ ∧
        ¬(unusedClient.foldl sampleClientNext empty).oauth.CeilingsAuthorized := by
    unfold CeilingsAuthorized
    decide +kernel
  have hmanageable := ceilingsManageable_iff (authorizations_of_run run_unusedClient).1
  exact ⟨_, _, run_unusedClient, _, List.mem_of_getLast? rfl, hlast.1, hlast.2,
    fun h => hlast.2 (hmanageable.mp h)⟩

/-- In that run it is the purge that does not spare the ceiling. -/
theorem ceilings_manageable_iff_unusedClient :
    (∀ m ∈ unusedClientMoves, m.post.oauth.CeilingsManageable) ↔
      ∀ m ∈ unusedClientMoves, SparesCeilings m :=
  ceilings_manageable_iff run_unusedClient

end Database

end Marginalis
