import Marginalis.Cleanup
import Mathlib.Logic.Relation

/-!
# Token families

A transaction on OAuth credentials is a sequence of `TokenStatement`s, and this is all they
do to codes and tokens : a family starts with an exchange, goes on with rotations, is revoked
as a whole, and its rows are deleted by the purge. `TokenState` pairs the tables with every
digest drawn so far, since a token is recognised by its digest only as long as no other token
gets the same.

`TokenState.Consistent` is the invariant. Two parts of it carry the rest : the tokens of a
family share their client, their principal and whether they are revoked (`uniform`), and an
access token never outlives the refresh token of its family that is not rotated (`companion`).
The purge deletes a rotated token once no refresh token of its family works, and by
`companion` no access token of the family works then either.
-/

namespace Marginalis

open Relation

/-- The expiry times the Authorization Server gives to a new pair, by the time it is issued. -/
structure TokenLifetimes where
  accessExpiresAt : ℤ → ℤ
  refreshExpiresAt : ℤ → ℤ
  /-- An access token does not outlive a refresh token that is issued later. -/
  access_le_refresh : ∀ s t, s ≤ t → accessExpiresAt s ≤ refreshExpiresAt t

/-- The OAuth tables with the digests drawn so far. -/
structure TokenState where
  oauth : OAuthTables
  drawn : List Digest

/-! ## Rows that are updated -/

def AccessTokenRow.revokedIf (b : Bool) (now : ℤ) (row : AccessTokenRow) : AccessTokenRow :=
  if b && row.revokedAt.isNone then { row with revokedAt := some now } else row

def RefreshTokenRow.revokedIf (b : Bool) (now : ℤ) (row : RefreshTokenRow) : RefreshTokenRow :=
  if b && row.revokedAt.isNone then { row with revokedAt := some now } else row

/-- The row later on : what identifies it is left alone, and a revocation stays. -/
structure AccessTokenRow.Ages (row row' : AccessTokenRow) : Prop where
  tokenHash : row'.tokenHash = row.tokenHash
  clientId : row'.clientId = row.clientId
  principalId : row'.principalId = row.principalId
  tokenFamilyId : row'.tokenFamilyId = row.tokenFamilyId
  scopes : row'.scopes = row.scopes
  expiresAt : row'.expiresAt = row.expiresAt
  revoked : row.revokedAt ≠ none → row'.revokedAt ≠ none

@[inherit_doc AccessTokenRow.Ages]
structure RefreshTokenRow.Ages (row row' : RefreshTokenRow) : Prop where
  tokenHash : row'.tokenHash = row.tokenHash
  clientId : row'.clientId = row.clientId
  resourceUri : row'.resourceUri = row.resourceUri
  principalId : row'.principalId = row.principalId
  tokenFamilyId : row'.tokenFamilyId = row.tokenFamilyId
  scopes : row'.scopes = row.scopes
  expiresAt : row'.expiresAt = row.expiresAt
  rotated : row.rotatedAt ≠ none → row'.rotatedAt = row.rotatedAt
  revoked : row.revokedAt ≠ none → row'.revokedAt ≠ none

/-- A consumed code is never written again. -/
structure AuthorizationCodeRow.Ages (row row' : AuthorizationCodeRow) : Prop where
  codeHash : row'.codeHash = row.codeHash
  clientId : row'.clientId = row.clientId
  principalId : row'.principalId = row.principalId
  scopes : row'.scopes = row.scopes
  expiresAt : row'.expiresAt = row.expiresAt
  consumed : row.consumedAt ≠ none → row' = row

theorem AccessTokenRow.Ages.refl (row : AccessTokenRow) : row.Ages row :=
  ⟨rfl, rfl, rfl, rfl, rfl, rfl, id⟩

theorem RefreshTokenRow.Ages.refl (row : RefreshTokenRow) : row.Ages row :=
  ⟨rfl, rfl, rfl, rfl, rfl, rfl, rfl, fun _ => rfl, id⟩

theorem AuthorizationCodeRow.Ages.refl (row : AuthorizationCodeRow) : row.Ages row :=
  ⟨rfl, rfl, rfl, rfl, rfl, fun _ => rfl⟩

theorem AccessTokenRow.Ages.trans {r₁ r₂ r₃ : AccessTokenRow} (h : r₁.Ages r₂) (h' : r₂.Ages r₃) :
    r₁.Ages r₃ :=
  ⟨h'.tokenHash.trans h.tokenHash, h'.clientId.trans h.clientId,
    h'.principalId.trans h.principalId, h'.tokenFamilyId.trans h.tokenFamilyId,
    h'.scopes.trans h.scopes, h'.expiresAt.trans h.expiresAt, fun hr => h'.revoked (h.revoked hr)⟩

theorem RefreshTokenRow.Ages.trans {r₁ r₂ r₃ : RefreshTokenRow} (h : r₁.Ages r₂)
    (h' : r₂.Ages r₃) : r₁.Ages r₃ where
  tokenHash := h'.tokenHash.trans h.tokenHash
  clientId := h'.clientId.trans h.clientId
  resourceUri := h'.resourceUri.trans h.resourceUri
  principalId := h'.principalId.trans h.principalId
  tokenFamilyId := h'.tokenFamilyId.trans h.tokenFamilyId
  scopes := h'.scopes.trans h.scopes
  expiresAt := h'.expiresAt.trans h.expiresAt
  rotated hr := (h'.rotated (h.rotated hr ▸ hr)).trans (h.rotated hr)
  revoked hr := h'.revoked (h.revoked hr)

theorem AuthorizationCodeRow.Ages.trans {r₁ r₂ r₃ : AuthorizationCodeRow} (h : r₁.Ages r₂)
    (h' : r₂.Ages r₃) : r₁.Ages r₃ where
  codeHash := h'.codeHash.trans h.codeHash
  clientId := h'.clientId.trans h.clientId
  principalId := h'.principalId.trans h.principalId
  scopes := h'.scopes.trans h.scopes
  expiresAt := h'.expiresAt.trans h.expiresAt
  consumed hr := by
    obtain rfl := h.consumed hr
    exact h'.consumed hr

theorem AccessTokenRow.ages_revokedIf (b : Bool) (now : ℤ) (row : AccessTokenRow) :
    row.Ages (row.revokedIf b now) := by
  unfold revokedIf
  split_ifs with h
  · exact ⟨rfl, rfl, rfl, rfl, rfl, rfl, fun _ => by simp⟩
  · exact .refl row

theorem RefreshTokenRow.ages_revokedIf (b : Bool) (now : ℤ) (row : RefreshTokenRow) :
    row.Ages (row.revokedIf b now) := by
  unfold revokedIf
  split_ifs with h
  · exact ⟨rfl, rfl, rfl, rfl, rfl, rfl, rfl, fun _ => rfl, fun _ => by simp⟩
  · exact .refl row

theorem AccessTokenRow.isSome_revokedIf (b : Bool) (now : ℤ) (row : AccessTokenRow) :
    (row.revokedIf b now).revokedAt.isSome = (b || row.revokedAt.isSome) := by
  unfold revokedIf
  cases b <;> cases h : row.revokedAt <;> simp [h]

theorem RefreshTokenRow.isSome_revokedIf (b : Bool) (now : ℤ) (row : RefreshTokenRow) :
    (row.revokedIf b now).revokedAt.isSome = (b || row.revokedAt.isSome) := by
  unfold revokedIf
  cases b <;> cases h : row.revokedAt <;> simp [h]

theorem RefreshTokenRow.rotatedAt_revokedIf (b : Bool) (now : ℤ) (row : RefreshTokenRow) :
    (row.revokedIf b now).rotatedAt = row.rotatedAt := by
  unfold revokedIf
  split_ifs <;> rfl

/-! ## Families -/

/-- What the tokens of a family share. -/
structure FamilyState where
  clientId : ClientId
  principalId : PrincipalId
  revoked : Bool
  deriving DecidableEq, Repr

def AccessTokenRow.familyState (row : AccessTokenRow) : FamilyState :=
  ⟨row.clientId, row.principalId, row.revokedAt.isSome⟩

def RefreshTokenRow.familyState (row : RefreshTokenRow) : FamilyState :=
  ⟨row.clientId, row.principalId, row.revokedAt.isSome⟩

namespace OAuthTables

variable (o : OAuthTables)

/-- Some token of the family has this state. -/
def Holds (family : Digest) (state : FamilyState) : Prop :=
  (∃ row ∈ o.mcpAccessTokens, row.tokenFamilyId = family ∧ row.familyState = state) ∨
    ∃ row ∈ o.mcpRefreshTokens, row.tokenFamilyId = family ∧ row.familyState = state

/-- Some token of the family still works. -/
def FamilyUsable (now : ℤ) (family : Digest) : Prop :=
  (∃ row ∈ o.mcpAccessTokens, row.tokenFamilyId = family ∧ row.Usable now) ∨
    ∃ row ∈ o.mcpRefreshTokens, row.tokenFamilyId = family ∧ row.Usable now

instance (now : ℤ) (family : Digest) : Decidable (o.FamilyUsable now family) := by
  unfold FamilyUsable
  infer_instance

variable {o} {o' : OAuthTables} {now t : ℤ} {family : Digest}

/-- What has stopped working by its age does not work later. -/
theorem FamilyUsable.antitone (ht : now ≤ t) (h : o.FamilyUsable t family) :
    o.FamilyUsable now family := by
  rcases h with ⟨row, hrow, hfamily, hrevoked, hexpires⟩ |
    ⟨row, hrow, hfamily, hrotated, hrevoked, hexpires⟩
  · exact Or.inl ⟨row, hrow, hfamily, hrevoked, by omega⟩
  · exact Or.inr ⟨row, hrow, hfamily, hrotated, hrevoked, by omega⟩

theorem FamilyUsable.holds (h : o.FamilyUsable now family) :
    ∃ state, o.Holds family state ∧ state.revoked = false := by
  rcases h with ⟨row, hrow, hfamily, hrevoked, -⟩ | ⟨row, hrow, hfamily, -, hrevoked, -⟩
  · exact ⟨_, Or.inl ⟨row, hrow, hfamily, rfl⟩, by simp [AccessTokenRow.familyState, hrevoked]⟩
  · exact ⟨_, Or.inr ⟨row, hrow, hfamily, rfl⟩, by simp [RefreshTokenRow.familyState, hrevoked]⟩

/-- Two states of the tables with the same codes and tokens. -/
structure SameCredentials (o o' : OAuthTables) : Prop where
  codes : o'.mcpAuthorizationCodes = o.mcpAuthorizationCodes
  access : o'.mcpAccessTokens = o.mcpAccessTokens
  refresh : o'.mcpRefreshTokens = o.mcpRefreshTokens

theorem mem_access_revokeWhere {a : AccessTokenRow → Bool} {r : RefreshTokenRow → Bool}
    {row' : AccessTokenRow} : row' ∈ (o.revokeWhere a r now).mcpAccessTokens ↔
      ∃ row ∈ o.mcpAccessTokens, row' = row.revokedIf (a row) now := by
  unfold revokeWhere
  dsimp only
  rw [Table.mem_modify]
  rfl

theorem mem_refresh_revokeWhere {a : AccessTokenRow → Bool} {r : RefreshTokenRow → Bool}
    {row' : RefreshTokenRow} : row' ∈ (o.revokeWhere a r now).mcpRefreshTokens ↔
      ∃ row ∈ o.mcpRefreshTokens, row' = row.revokedIf (r row) now := by
  unfold revokeWhere
  dsimp only
  rw [Table.mem_modify]
  rfl

theorem mem_access_revokeClientTokens {principal : PrincipalId} {clientId : ClientId}
    {row' : AccessTokenRow} :
    row' ∈ (o.revokeClientTokens principal clientId now).mcpAccessTokens ↔
      ∃ row ∈ o.mcpAccessTokens,
        row' = row.revokedIf (row.principalId = principal ∧ row.clientId = clientId) now := by
  unfold revokeClientTokens
  exact mem_access_revokeWhere
    (r := fun row => row.principalId = principal ∧ row.clientId = clientId)

theorem mem_refresh_revokeClientTokens {principal : PrincipalId} {clientId : ClientId}
    {row' : RefreshTokenRow} :
    row' ∈ (o.revokeClientTokens principal clientId now).mcpRefreshTokens ↔
      ∃ row ∈ o.mcpRefreshTokens,
        row' = row.revokedIf (row.principalId = principal ∧ row.clientId = clientId) now := by
  unfold revokeClientTokens
  exact mem_refresh_revokeWhere
    (a := fun row => row.principalId = principal ∧ row.clientId = clientId)

theorem insertTokens_eq_ok {access : AccessTokenRow} {refresh : RefreshTokenRow}
    (h : o.insertTokens access refresh = .ok o') :
    o'.mcpAuthorizationCodes = o.mcpAuthorizationCodes ∧
      (∀ row, row ∈ o'.mcpAccessTokens ↔ row ∈ o.mcpAccessTokens ∨ row = access) ∧
      ∀ row, row ∈ o'.mcpRefreshTokens ↔ row ∈ o.mcpRefreshTokens ∨ row = refresh := by
  unfold insertTokens at h
  split at h
  · next accessTokens refreshTokens ha hr =>
    cases h
    exact ⟨rfl, fun row => Table.mem_insert? ha, fun row => Table.mem_insert? hr⟩
  · cases h

end OAuthTables

/-! ## Statements -/

/-- The pair of tokens that an exchange or a rotation adds to a family. -/
structure NewPair (lifetimes : TokenLifetimes) (now : ℤ) (drawn : List Digest) (family : Digest)
    (clientId : ClientId) (principalId : PrincipalId) (scopes : List Scope)
    (access : AccessTokenRow) (refresh : RefreshTokenRow) : Prop where
  access_drawn : access.tokenHash ∉ drawn
  refresh_drawn : refresh.tokenHash ∉ drawn
  access_family : access.tokenFamilyId = family
  refresh_family : refresh.tokenFamilyId = family
  access_state : access.familyState = ⟨clientId, principalId, false⟩
  refresh_state : refresh.familyState = ⟨clientId, principalId, false⟩
  access_scopes : access.scopes ⊆ scopes
  refresh_scopes : refresh.scopes = scopes
  access_expires : access.expiresAt = lifetimes.accessExpiresAt now
  refresh_expires : refresh.expiresAt = lifetimes.refreshExpiresAt now
  unrotated : refresh.rotatedAt = none

/-- A statement of an OAuth transaction, as far as codes and tokens are concerned. Codes are
issued only as `issuable` says. -/
inductive TokenStatement (lifetimes : TokenLifetimes) (issuable : AuthorizationCodeRow → Prop)
    (now : ℤ) : TokenState → TokenState → Prop
  | other {o o' : OAuthTables} {drawn drawn' : List Digest} (h : o.SameCredentials o')
      (hdrawn : drawn ⊆ drawn') : TokenStatement lifetimes issuable now ⟨o, drawn⟩ ⟨o', drawn'⟩
  /-- What a revocation selects is the same for all tokens of a family. -/
  | revoke {o : OAuthTables} {drawn : List Digest} (q : PrincipalId → ClientId → Digest → Bool) :
      TokenStatement lifetimes issuable now ⟨o, drawn⟩
        ⟨o.revokeWhere (fun row => q row.principalId row.clientId row.tokenFamilyId)
          (fun row => q row.principalId row.clientId row.tokenFamilyId) now, drawn⟩
  /-- Codes are given up only before they are exchanged. -/
  | forget {o : OAuthTables} {drawn : List Digest} (p : AuthorizationCodeRow → Bool)
      (hp : ∀ row, p row = true → row.consumedAt = none) :
      TokenStatement lifetimes issuable now ⟨o, drawn⟩
        ⟨{ o with mcpAuthorizationCodes := o.mcpAuthorizationCodes.deleteWhere p }, drawn⟩
  | purge {o : OAuthTables} {drawn : List Digest} :
      TokenStatement lifetimes issuable now ⟨o, drawn⟩ ⟨o.purgeTokens now, drawn⟩
  | use {o : OAuthTables} {drawn : List Digest} {row : AccessTokenRow}
      (hrow : row ∈ o.mcpAccessTokens) :
      TokenStatement lifetimes issuable now ⟨o, drawn⟩
        ⟨{ o with
          mcpAccessTokens := o.mcpAccessTokens.upsert { row with lastUsedAt := some now } }, drawn⟩
  | issue {o : OAuthTables} {drawn : List Digest} {codes : Table AuthorizationCodeRow}
      {row : AuthorizationCodeRow} (hcodes : o.mcpAuthorizationCodes.insert? row = some codes)
      (hdrawn : row.codeHash ∉ drawn) (hissuable : issuable row) :
      TokenStatement lifetimes issuable now ⟨o, drawn⟩
        ⟨{ o with mcpAuthorizationCodes := codes }, row.codeHash :: drawn⟩
  | exchange {o o' : OAuthTables} {drawn : List Digest} {row : AuthorizationCodeRow}
      {access : AccessTokenRow} {refresh : RefreshTokenRow}
      (hrow : row ∈ o.mcpAuthorizationCodes) (husable : row.Usable now)
      (hpair : NewPair lifetimes now drawn refresh.tokenHash row.clientId row.principalId
        row.scopes access refresh)
      (hinsert : o.insertTokens access refresh = .ok o') :
      TokenStatement lifetimes issuable now ⟨o, drawn⟩
        ⟨{ o' with
          mcpAuthorizationCodes := o'.mcpAuthorizationCodes.upsert { row with
            consumedAt := some now
            tokenFamilyId := some refresh.tokenHash } },
          access.tokenHash :: refresh.tokenHash :: drawn⟩
  | rotate {o o' : OAuthTables} {drawn : List Digest} {row : RefreshTokenRow}
      {access : AccessTokenRow} {refresh : RefreshTokenRow}
      (hrow : row ∈ o.mcpRefreshTokens) (husable : row.Usable now)
      (hpair : NewPair lifetimes now drawn row.tokenFamilyId row.clientId row.principalId
        row.scopes access refresh)
      (hinsert : { o with mcpRefreshTokens :=
          o.mcpRefreshTokens.upsert { row with rotatedAt := some now } }.insertTokens
            access refresh =
        .ok o') :
      TokenStatement lifetimes issuable now ⟨o, drawn⟩
        ⟨o', access.tokenHash :: refresh.tokenHash :: drawn⟩

/-- The statements of a transaction. -/
abbrev TokenStatements (lifetimes : TokenLifetimes) (issuable : AuthorizationCodeRow → Prop)
    (now : ℤ) : TokenState → TokenState → Prop :=
  ReflTransGen (TokenStatement lifetimes issuable now)

/-! ## Ageing -/

variable {lifetimes : TokenLifetimes} {issuable : AuthorizationCodeRow → Prop} {now t : ℤ}
  {s s' : TokenState} {family : Digest}

/-- A code after a statement is an older one, or its digest is new. -/
theorem TokenStatement.code_aged (h : TokenStatement lifetimes issuable now s s')
    {row' : AuthorizationCodeRow} (hrow' : row' ∈ s'.oauth.mcpAuthorizationCodes) :
    (∃ row ∈ s.oauth.mcpAuthorizationCodes, row.Ages row') ∨
      row'.codeHash ∉ s.drawn ∧ row'.codeHash ∈ s'.drawn := by
  cases h with
  | other h =>
    rw [h.codes] at hrow'
    exact Or.inl ⟨row', hrow', .refl row'⟩
  | revoke => exact Or.inl ⟨row', hrow', .refl row'⟩
  | forget => exact Or.inl ⟨row', (Table.mem_deleteWhere.mp hrow').1, .refl row'⟩
  | purge => exact Or.inl ⟨row', (Table.mem_deleteWhere.mp hrow').1, .refl row'⟩
  | use => exact Or.inl ⟨row', hrow', .refl row'⟩
  | issue hcodes hdrawn _ =>
    rcases (Table.mem_insert? hcodes).mp hrow' with hrow' | rfl
    · exact Or.inl ⟨row', hrow', .refl row'⟩
    · exact Or.inr ⟨hdrawn, List.mem_cons_self ..⟩
  | exchange hrow husable _ hinsert =>
    rcases Table.mem_upsert.mp hrow' with rfl | ⟨hrow', -⟩
    · exact Or.inl ⟨_, hrow, rfl, rfl, rfl, rfl, rfl, fun hc => absurd husable.1 hc⟩
    · rw [(OAuthTables.insertTokens_eq_ok hinsert).1] at hrow'
      exact Or.inl ⟨row', hrow', .refl row'⟩
  | rotate _ _ _ hinsert =>
    rw [(OAuthTables.insertTokens_eq_ok hinsert).1] at hrow'
    exact Or.inl ⟨row', hrow', .refl row'⟩

theorem TokenStatement.access_aged (h : TokenStatement lifetimes issuable now s s')
    {row' : AccessTokenRow} (hrow' : row' ∈ s'.oauth.mcpAccessTokens) :
    (∃ row ∈ s.oauth.mcpAccessTokens, row.Ages row') ∨
      row'.tokenHash ∉ s.drawn ∧ row'.tokenHash ∈ s'.drawn ∧
        row'.expiresAt = lifetimes.accessExpiresAt now ∧
        (row'.tokenFamilyId ∉ s.drawn ∨ s.oauth.FamilyUsable now row'.tokenFamilyId) := by
  cases h with
  | other h =>
    rw [h.access] at hrow'
    exact Or.inl ⟨row', hrow', .refl row'⟩
  | revoke =>
    obtain ⟨row, hrow, rfl⟩ := OAuthTables.mem_access_revokeWhere.mp hrow'
    exact Or.inl ⟨row, hrow, row.ages_revokedIf _ _⟩
  | forget => exact Or.inl ⟨row', hrow', .refl row'⟩
  | purge => exact Or.inl ⟨row', (Table.mem_deleteWhere.mp hrow').1, .refl row'⟩
  | use hrow =>
    rcases Table.mem_upsert.mp hrow' with rfl | ⟨hrow', -⟩
    · exact Or.inl ⟨_, hrow, rfl, rfl, rfl, rfl, rfl, rfl, id⟩
    · exact Or.inl ⟨row', hrow', .refl row'⟩
  | issue => exact Or.inl ⟨row', hrow', .refl row'⟩
  | exchange _ _ hpair hinsert =>
    rcases ((OAuthTables.insertTokens_eq_ok hinsert).2.1 row').mp hrow' with hrow' | rfl
    · exact Or.inl ⟨row', hrow', .refl row'⟩
    · exact Or.inr ⟨hpair.access_drawn, List.mem_cons_self .., hpair.access_expires,
        Or.inl (hpair.access_family ▸ hpair.refresh_drawn)⟩
  | rotate hrow husable hpair hinsert =>
    rcases ((OAuthTables.insertTokens_eq_ok hinsert).2.1 row').mp hrow' with hrow' | rfl
    · exact Or.inl ⟨row', hrow', .refl row'⟩
    · exact Or.inr ⟨hpair.access_drawn, List.mem_cons_self .., hpair.access_expires,
        Or.inr (Or.inr ⟨_, hrow, hpair.access_family.symm, husable⟩)⟩

theorem TokenStatement.refresh_aged (h : TokenStatement lifetimes issuable now s s')
    {row' : RefreshTokenRow} (hrow' : row' ∈ s'.oauth.mcpRefreshTokens) :
    (∃ row ∈ s.oauth.mcpRefreshTokens, row.Ages row') ∨
      row'.tokenHash ∉ s.drawn ∧ row'.tokenHash ∈ s'.drawn ∧
        (row'.tokenFamilyId ∉ s.drawn ∨ s.oauth.FamilyUsable now row'.tokenFamilyId) := by
  cases h with
  | other h =>
    rw [h.refresh] at hrow'
    exact Or.inl ⟨row', hrow', .refl row'⟩
  | revoke =>
    obtain ⟨row, hrow, rfl⟩ := OAuthTables.mem_refresh_revokeWhere.mp hrow'
    exact Or.inl ⟨row, hrow, row.ages_revokedIf _ _⟩
  | forget => exact Or.inl ⟨row', hrow', .refl row'⟩
  | purge => exact Or.inl ⟨row', (Table.mem_deleteWhere.mp hrow').1, .refl row'⟩
  | use => exact Or.inl ⟨row', hrow', .refl row'⟩
  | issue => exact Or.inl ⟨row', hrow', .refl row'⟩
  | exchange _ _ hpair hinsert =>
    rcases ((OAuthTables.insertTokens_eq_ok hinsert).2.2 row').mp hrow' with hrow' | rfl
    · exact Or.inl ⟨row', hrow', .refl row'⟩
    · exact Or.inr ⟨hpair.refresh_drawn, by simp,
        Or.inl (hpair.refresh_family ▸ hpair.refresh_drawn)⟩
  | rotate hrow husable hpair hinsert =>
    rcases ((OAuthTables.insertTokens_eq_ok hinsert).2.2 row').mp hrow' with hrow' | rfl
    · rcases Table.mem_upsert.mp hrow' with rfl | ⟨hrow', -⟩
      · exact Or.inl ⟨_, hrow, rfl, rfl, rfl, rfl, rfl, rfl, rfl, fun hr => absurd husable.1 hr, id⟩
      · exact Or.inl ⟨row', hrow', .refl row'⟩
    · exact Or.inr ⟨hpair.refresh_drawn, by simp,
        Or.inr (Or.inr ⟨_, hrow, hpair.refresh_family.symm, husable⟩)⟩

theorem TokenStatement.drawn (h : TokenStatement lifetimes issuable now s s') :
    s.drawn ⊆ s'.drawn := by
  cases h with
  | other _ hdrawn => exact hdrawn
  | issue => exact List.subset_cons_self _ _
  | exchange | rotate =>
    intro digest hdigest
    simp [hdigest]
  | _ => exact List.Subset.refl _

/-- What ageing keeps about a row stays true of the row with this digest, if there is one. -/
def TokenState.Codes (s : TokenState) (digest : Digest) (Q : AuthorizationCodeRow → Prop) : Prop :=
  digest ∈ s.drawn ∧ ∀ row ∈ s.oauth.mcpAuthorizationCodes, row.codeHash = digest → Q row

@[inherit_doc TokenState.Codes]
def TokenState.Access (s : TokenState) (digest : Digest) (Q : AccessTokenRow → Prop) : Prop :=
  digest ∈ s.drawn ∧ ∀ row ∈ s.oauth.mcpAccessTokens, row.tokenHash = digest → Q row

@[inherit_doc TokenState.Codes]
def TokenState.Refresh (s : TokenState) (digest : Digest) (Q : RefreshTokenRow → Prop) : Prop :=
  digest ∈ s.drawn ∧ ∀ row ∈ s.oauth.mcpRefreshTokens, row.tokenHash = digest → Q row

theorem TokenStatement.codes (h : TokenStatement lifetimes issuable now s s') {digest : Digest}
    {Q : AuthorizationCodeRow → Prop} (hQ : ∀ row row', row.Ages row' → Q row → Q row')
    (hs : s.Codes digest Q) : s'.Codes digest Q := by
  refine ⟨h.drawn hs.1, fun row' hrow' hdigest => ?_⟩
  rcases h.code_aged hrow' with ⟨row, hrow, hages⟩ | ⟨hnew, -⟩
  · exact hQ row row' hages (hs.2 row hrow (hages.codeHash.symm.trans hdigest))
  · exact absurd (hdigest ▸ hs.1) hnew

theorem TokenStatement.access (h : TokenStatement lifetimes issuable now s s') {digest : Digest}
    {Q : AccessTokenRow → Prop} (hQ : ∀ row row', row.Ages row' → Q row → Q row')
    (hs : s.Access digest Q) : s'.Access digest Q := by
  refine ⟨h.drawn hs.1, fun row' hrow' hdigest => ?_⟩
  rcases h.access_aged hrow' with ⟨row, hrow, hages⟩ | ⟨hnew, -⟩
  · exact hQ row row' hages (hs.2 row hrow (hages.tokenHash.symm.trans hdigest))
  · exact absurd (hdigest ▸ hs.1) hnew

theorem TokenStatement.refresh (h : TokenStatement lifetimes issuable now s s') {digest : Digest}
    {Q : RefreshTokenRow → Prop} (hQ : ∀ row row', row.Ages row' → Q row → Q row')
    (hs : s.Refresh digest Q) : s'.Refresh digest Q := by
  refine ⟨h.drawn hs.1, fun row' hrow' hdigest => ?_⟩
  rcases h.refresh_aged hrow' with ⟨row, hrow, hages⟩ | ⟨hnew, -⟩
  · exact hQ row row' hages (hs.2 row hrow (hages.tokenHash.symm.trans hdigest))
  · exact absurd (hdigest ▸ hs.1) hnew

/-! ## The invariant -/

/-- What every reachable state of the tokens has. -/
structure TokenState.Consistent (lifetimes : TokenLifetimes) (now : ℤ) (s : TokenState) :
    Prop where
  code_drawn : ∀ row ∈ s.oauth.mcpAuthorizationCodes, row.codeHash ∈ s.drawn
  access_drawn : ∀ row ∈ s.oauth.mcpAccessTokens, row.tokenHash ∈ s.drawn
  refresh_drawn : ∀ row ∈ s.oauth.mcpRefreshTokens, row.tokenHash ∈ s.drawn
  family_drawn : ∀ family state, s.oauth.Holds family state → family ∈ s.drawn
  uniform : ∀ family state state', s.oauth.Holds family state → s.oauth.Holds family state' →
    state = state'
  unrotated : ∀ row ∈ s.oauth.mcpRefreshTokens, ∀ row' ∈ s.oauth.mcpRefreshTokens,
    row.tokenFamilyId = row'.tokenFamilyId → row.rotatedAt = none → row'.rotatedAt = none →
    row = row'
  companion : ∀ access ∈ s.oauth.mcpAccessTokens, ∃ refresh ∈ s.oauth.mcpRefreshTokens,
    refresh.tokenFamilyId = access.tokenFamilyId ∧ refresh.rotatedAt = none ∧
    access.expiresAt ≤ refresh.expiresAt
  lifetime : ∀ access ∈ s.oauth.mcpAccessTokens, ∀ t, now ≤ t →
    access.expiresAt ≤ lifetimes.refreshExpiresAt t

/-- The state of a family after a statement : it is revoked as a whole, or left alone, or the
family is new. -/
theorem TokenStatement.holds (h : TokenStatement lifetimes issuable now s s') :
    ∃ (q : Digest → FamilyState → Bool) (new : Option FamilyState),
      ∀ family state', s'.oauth.Holds family state' →
        (∃ state, s.oauth.Holds family state ∧
          state' = { state with revoked := q family state || state.revoked }) ∨
        family ∉ s.drawn ∧ family ∈ s'.drawn ∧ new = some state' := by
  have hkept : ∀ {o o' : OAuthTables}, o'.mcpAccessTokens = o.mcpAccessTokens →
      o'.mcpRefreshTokens = o.mcpRefreshTokens → ∀ family state', o'.Holds family state' →
      ∃ state, o.Holds family state ∧
        state' = { state with revoked := false || state.revoked } := by
    intro o o' haccess hrefresh family state' hstate'
    unfold OAuthTables.Holds at hstate'
    rw [haccess, hrefresh] at hstate'
    exact ⟨state', hstate', by simp⟩
  cases h with
  | other h =>
    exact ⟨fun _ _ => false, none, fun family state' hs => Or.inl (hkept h.access h.refresh _ _ hs)⟩
  | @revoke o _ q =>
    refine ⟨fun family state => q state.principalId state.clientId family, none, ?_⟩
    rintro family state' (⟨row', hrow', rfl, rfl⟩ | ⟨row', hrow', rfl, rfl⟩)
    · obtain ⟨row, hrow, rfl⟩ := OAuthTables.mem_access_revokeWhere.mp hrow'
      have hages := row.ages_revokedIf (q row.principalId row.clientId row.tokenFamilyId) now
      refine Or.inl ⟨row.familyState, Or.inl ⟨row, hrow, hages.tokenFamilyId.symm, rfl⟩, ?_⟩
      simp [AccessTokenRow.familyState, hages.clientId, hages.principalId, hages.tokenFamilyId,
        AccessTokenRow.isSome_revokedIf]
    · obtain ⟨row, hrow, rfl⟩ := OAuthTables.mem_refresh_revokeWhere.mp hrow'
      have hages := row.ages_revokedIf (q row.principalId row.clientId row.tokenFamilyId) now
      refine Or.inl ⟨row.familyState, Or.inr ⟨row, hrow, hages.tokenFamilyId.symm, rfl⟩, ?_⟩
      simp [RefreshTokenRow.familyState, hages.clientId, hages.principalId, hages.tokenFamilyId,
        RefreshTokenRow.isSome_revokedIf]
  | forget | issue =>
    exact ⟨fun _ _ => false, none, fun family state' hs => Or.inl (hkept rfl rfl _ _ hs)⟩
  | purge =>
    refine ⟨fun _ _ => false, none, ?_⟩
    rintro family state' (⟨row, hrow, hfamily, hstate⟩ | ⟨row, hrow, hfamily, hstate⟩)
    · exact Or.inl ⟨state', Or.inl ⟨row, (Table.mem_deleteWhere.mp hrow).1, hfamily, hstate⟩,
        by simp⟩
    · exact Or.inl ⟨state', Or.inr ⟨row, (Table.mem_deleteWhere.mp hrow).1, hfamily, hstate⟩,
        by simp⟩
  | use hrow =>
    refine ⟨fun _ _ => false, none, ?_⟩
    rintro family state' (⟨row', hrow', hfamily, hstate⟩ | ⟨row', hrow', hfamily, hstate⟩)
    · rcases Table.mem_upsert.mp hrow' with rfl | ⟨hrow', -⟩
      · exact Or.inl ⟨state', Or.inl ⟨_, hrow, hfamily, hstate⟩, by simp⟩
      · exact Or.inl ⟨state', Or.inl ⟨row', hrow', hfamily, hstate⟩, by simp⟩
    · exact Or.inl ⟨state', Or.inr ⟨row', hrow', hfamily, hstate⟩, by simp⟩
  | @exchange o _ _ row _ _ hrow husable hpair hinsert =>
    obtain ⟨-, haccess, hrefresh⟩ := OAuthTables.insertTokens_eq_ok hinsert
    refine ⟨fun _ _ => false, some ⟨row.clientId, row.principalId, false⟩, ?_⟩
    rintro family state' (⟨row', hrow', hfamily, hstate⟩ | ⟨row', hrow', hfamily, hstate⟩)
    · rcases (haccess row').mp hrow' with hrow' | rfl
      · exact Or.inl ⟨state', Or.inl ⟨row', hrow', hfamily, hstate⟩, by simp⟩
      · obtain rfl := hpair.access_family.symm.trans hfamily
        exact Or.inr ⟨hpair.refresh_drawn, by simp,
          congrArg some (hpair.access_state.symm.trans hstate)⟩
    · rcases (hrefresh row').mp hrow' with hrow' | rfl
      · exact Or.inl ⟨state', Or.inr ⟨row', hrow', hfamily, hstate⟩, by simp⟩
      · obtain rfl := hpair.refresh_family.symm.trans hfamily
        exact Or.inr ⟨hpair.refresh_drawn, by simp,
          congrArg some (hpair.refresh_state.symm.trans hstate)⟩
  | @rotate o _ _ row _ _ hrow husable hpair hinsert =>
    obtain ⟨-, haccess, hrefresh⟩ := OAuthTables.insertTokens_eq_ok hinsert
    have hparent : row.familyState = ⟨row.clientId, row.principalId, false⟩ := by
      simp [RefreshTokenRow.familyState, husable.2.1]
    refine ⟨fun _ _ => false, none, ?_⟩
    rintro family state' (⟨row', hrow', hfamily, hstate⟩ | ⟨row', hrow', hfamily, hstate⟩)
    · rcases (haccess row').mp hrow' with hrow' | rfl
      · exact Or.inl ⟨state', Or.inl ⟨row', hrow', hfamily, hstate⟩, by simp⟩
      · exact Or.inl ⟨state', Or.inr ⟨row, hrow, hpair.access_family.symm.trans hfamily,
          (hparent.trans hpair.access_state.symm).trans hstate⟩, by simp⟩
    · rcases (hrefresh row').mp hrow' with hrow' | rfl
      · rcases Table.mem_upsert.mp hrow' with rfl | ⟨hrow', -⟩
        · exact Or.inl ⟨state', Or.inr ⟨row, hrow, hfamily, hstate⟩, by simp⟩
        · exact Or.inl ⟨state', Or.inr ⟨row', hrow', hfamily, hstate⟩, by simp⟩
      · exact Or.inl ⟨state', Or.inr ⟨row, hrow, hpair.refresh_family.symm.trans hfamily,
          (hparent.trans hpair.refresh_state.symm).trans hstate⟩, by simp⟩

theorem TokenStatement.uniform (hs : s.Consistent lifetimes now)
    (h : TokenStatement lifetimes issuable now s s') {family : Digest} {state state' : FamilyState}
    (hstate : s'.oauth.Holds family state) (hstate' : s'.oauth.Holds family state') :
    state = state' := by
  obtain ⟨q, new, hholds⟩ := h.holds
  rcases hholds _ _ hstate with ⟨old, hold, rfl⟩ | ⟨hfresh, -, hnew⟩ <;>
    rcases hholds _ _ hstate' with ⟨old', hold', rfl⟩ | ⟨hfresh', -, hnew'⟩
  · rw [hs.uniform _ _ _ hold hold']
  · exact absurd (hs.family_drawn _ _ hold) hfresh'
  · exact absurd (hs.family_drawn _ _ hold') hfresh
  · exact Option.some.inj (hnew.symm.trans hnew')

/-- The unrotated refresh tokens after a pair has joined a family : the new one replaces the one
that was rotated. -/
theorem unrotated_rotate {o o' : OAuthTables} {drawn : List Digest} {row : RefreshTokenRow}
    {access : AccessTokenRow} {refresh : RefreshTokenRow}
    (hs : TokenState.Consistent lifetimes now ⟨o, drawn⟩) (hrow : row ∈ o.mcpRefreshTokens)
    (husable : row.Usable now)
    (hinsert : { o with mcpRefreshTokens :=
        o.mcpRefreshTokens.upsert { row with rotatedAt := some now } }.insertTokens access refresh =
      .ok o') {r : RefreshTokenRow} (hr : r ∈ o'.mcpRefreshTokens) (hr₀ : r.rotatedAt = none) :
    r ∈ o.mcpRefreshTokens ∧ r.tokenFamilyId ≠ row.tokenFamilyId ∨ r = refresh := by
  obtain ⟨-, -, hrefresh⟩ := OAuthTables.insertTokens_eq_ok hinsert
  rcases (hrefresh r).mp hr with hr | rfl
  · rcases Table.mem_upsert.mp hr with rfl | ⟨hr, hkey⟩
    · cases hr₀
    · refine Or.inl ⟨hr, fun hfamily => hkey ?_⟩
      rw [hs.unrotated r hr row hrow hfamily hr₀ husable.1]
      rfl
  · exact Or.inr rfl

/-- At most one refresh token of a family is not rotated : a rotation replaces it. -/
theorem TokenStatement.unrotated (hs : s.Consistent lifetimes now)
    (h : TokenStatement lifetimes issuable now s s') :
    ∀ row ∈ s'.oauth.mcpRefreshTokens, ∀ row' ∈ s'.oauth.mcpRefreshTokens,
      row.tokenFamilyId = row'.tokenFamilyId → row.rotatedAt = none → row'.rotatedAt = none →
      row = row' := by
  intro row hrow row' hrow' hfamily hrow₀ hrow₀'
  cases h with
  | other h =>
    rw [h.refresh] at hrow hrow'
    exact hs.unrotated row hrow row' hrow' hfamily hrow₀ hrow₀'
  | revoke =>
    obtain ⟨r, hr, rfl⟩ := OAuthTables.mem_refresh_revokeWhere.mp hrow
    obtain ⟨r', hr', rfl⟩ := OAuthTables.mem_refresh_revokeWhere.mp hrow'
    rw [RefreshTokenRow.rotatedAt_revokedIf] at hrow₀ hrow₀'
    rw [(r.ages_revokedIf _ _).tokenFamilyId, (r'.ages_revokedIf _ _).tokenFamilyId] at hfamily
    rw [hs.unrotated r hr r' hr' hfamily hrow₀ hrow₀']
  | purge =>
    exact hs.unrotated row (Table.mem_deleteWhere.mp hrow).1 row' (Table.mem_deleteWhere.mp hrow').1
      hfamily hrow₀ hrow₀'
  | forget | use | issue => exact hs.unrotated row hrow row' hrow' hfamily hrow₀ hrow₀'
  | @exchange o _ drawn _ _ refresh _ _ hpair hinsert =>
    obtain ⟨-, -, hrefresh⟩ := OAuthTables.insertTokens_eq_ok hinsert
    have hold : ∀ r ∈ o.mcpRefreshTokens, r.tokenFamilyId ≠ refresh.tokenFamilyId := by
      intro r hr hfamily
      have hdrawn := hs.family_drawn _ _ (Or.inr ⟨r, hr, rfl, rfl⟩)
      rw [hfamily, hpair.refresh_family] at hdrawn
      exact hpair.refresh_drawn hdrawn
    rcases (hrefresh row).mp hrow with hr | hr <;>
      rcases (hrefresh row').mp hrow' with hr' | hr'
    · exact hs.unrotated row hr row' hr' hfamily hrow₀ hrow₀'
    · exact absurd (hr' ▸ hfamily) (hold row hr)
    · exact absurd (hr ▸ hfamily.symm) (hold row' hr')
    · rw [hr, hr']
  | rotate hold husable hpair hinsert =>
    rcases unrotated_rotate hs hold husable hinsert hrow hrow₀ with ⟨hr, hne⟩ | hr <;>
      rcases unrotated_rotate hs hold husable hinsert hrow' hrow₀' with ⟨hr', hne'⟩ | hr'
    · exact hs.unrotated row hr row' hr' hfamily hrow₀ hrow₀'
    · exact absurd ((hr' ▸ hfamily).trans hpair.refresh_family) hne
    · exact absurd ((hr ▸ hfamily.symm).trans hpair.refresh_family) hne'
    · rw [hr, hr']

theorem TokenStatement.lifetime (hs : s.Consistent lifetimes now)
    (h : TokenStatement lifetimes issuable now s s') :
    ∀ access ∈ s'.oauth.mcpAccessTokens, ∀ t, now ≤ t →
      access.expiresAt ≤ lifetimes.refreshExpiresAt t := by
  intro access haccess t ht
  rcases h.access_aged haccess with ⟨row, hrow, hages⟩ | ⟨-, -, hexpires⟩
  · rw [hages.expiresAt]
    exact hs.lifetime row hrow t ht
  · rw [hexpires.1]
    exact lifetimes.access_le_refresh now t ht

/-- An access token that the purge leaves behind works, so the refresh token beside it does too. -/
theorem TokenState.Consistent.usable_companion (hs : s.Consistent lifetimes now)
    {access : AccessTokenRow} (haccess : access ∈ s.oauth.mcpAccessTokens)
    (husable : access.Usable now) : ∃ refresh ∈ s.oauth.mcpRefreshTokens,
      refresh.tokenFamilyId = access.tokenFamilyId ∧ refresh.Usable now ∧
      access.expiresAt ≤ refresh.expiresAt := by
  obtain ⟨refresh, hrefresh, hfamily, hrotated, hexpires⟩ := hs.companion access haccess
  have hstate := hs.uniform _ _ _ (Or.inr ⟨refresh, hrefresh, hfamily, rfl⟩)
    (Or.inl ⟨access, haccess, rfl, rfl⟩)
  have hrevoked : refresh.revokedAt = none := by
    simpa [AccessTokenRow.familyState, RefreshTokenRow.familyState, husable.1] using
      congrArg FamilyState.revoked hstate
  refine ⟨refresh, hrefresh, hfamily, ⟨hrotated, hrevoked, ?_⟩, hexpires⟩
  have := husable.2
  omega

theorem usable_of_not_purged {row : AccessTokenRow}
    (h : OAuthTables.purgedAccessToken now row = false) : row.Usable now := by
  simp only [OAuthTables.purgedAccessToken, decide_eq_false_iff_not, not_or, not_le,
    not_not] at h
  exact ⟨h.2, h.1⟩

theorem not_purged_of_usable {o : OAuthTables} {row : RefreshTokenRow} (h : row.Usable now) :
    o.purgedRefreshToken now row = false := by
  simp only [OAuthTables.purgedRefreshToken, decide_eq_false_iff_not]
  rintro (hrevoked | ⟨hexpires | hrotated, -⟩)
  · exact hrevoked h.2.1
  · have := h.2.2
    omega
  · exact hrotated h.1

theorem TokenStatement.companion (hs : s.Consistent lifetimes now)
    (h : TokenStatement lifetimes issuable now s s') :
    ∀ access ∈ s'.oauth.mcpAccessTokens, ∃ refresh ∈ s'.oauth.mcpRefreshTokens,
      refresh.tokenFamilyId = access.tokenFamilyId ∧ refresh.rotatedAt = none ∧
      access.expiresAt ≤ refresh.expiresAt := by
  intro access haccess
  cases h with
  | other h =>
    rw [h.access] at haccess
    rw [h.refresh]
    exact hs.companion access haccess
  | revoke =>
    obtain ⟨row, hrow, rfl⟩ := OAuthTables.mem_access_revokeWhere.mp haccess
    obtain ⟨refresh, hrefresh, hfamily, hrotated, hexpires⟩ := hs.companion row hrow
    refine ⟨_, OAuthTables.mem_refresh_revokeWhere.mpr ⟨refresh, hrefresh, rfl⟩, ?_, ?_, ?_⟩
    · rw [(refresh.ages_revokedIf _ _).tokenFamilyId, (row.ages_revokedIf _ _).tokenFamilyId,
        hfamily]
    · rw [RefreshTokenRow.rotatedAt_revokedIf, hrotated]
    · rw [(refresh.ages_revokedIf _ _).expiresAt, (row.ages_revokedIf _ _).expiresAt]
      exact hexpires
  | purge =>
    obtain ⟨haccess, hkept⟩ := Table.mem_deleteWhere.mp haccess
    obtain ⟨refresh, hrefresh, hfamily, husable, hexpires⟩ :=
      hs.usable_companion haccess (usable_of_not_purged hkept)
    exact ⟨refresh, Table.mem_deleteWhere.mpr ⟨hrefresh, not_purged_of_usable husable⟩, hfamily,
      husable.1, hexpires⟩
  | @use _ _ row hrow =>
    rcases Table.mem_upsert.mp haccess with rfl | ⟨haccess, -⟩
    · exact hs.companion row hrow
    · exact hs.companion access haccess
  | forget | issue => exact hs.companion access haccess
  | exchange _ _ hpair hinsert =>
    obtain ⟨-, hold, hrefresh⟩ := OAuthTables.insertTokens_eq_ok hinsert
    rcases (hold access).mp haccess with haccess | rfl
    · obtain ⟨refresh, hmem, hcompanion⟩ := hs.companion access haccess
      exact ⟨refresh, (hrefresh refresh).mpr (Or.inl hmem), hcompanion⟩
    · refine ⟨_, (hrefresh _).mpr (Or.inr rfl), ?_, hpair.unrotated, ?_⟩
      · rw [hpair.refresh_family, hpair.access_family]
      · rw [hpair.access_expires, hpair.refresh_expires]
        exact lifetimes.access_le_refresh now now (le_refl now)
  | @rotate o _ _ row _ new hrow husable hpair hinsert =>
    obtain ⟨-, hold, hrefresh⟩ := OAuthTables.insertTokens_eq_ok hinsert
    have hnew : new.tokenFamilyId = row.tokenFamilyId := hpair.refresh_family
    rcases (hold access).mp haccess with haccess | rfl
    · obtain ⟨refresh, hmem, hfamily, hrotated, hexpires⟩ := hs.companion access haccess
      by_cases hkey : refresh.tokenHash = row.tokenHash
      · -- The companion is the token that is rotated, and the new one takes its place.
        obtain rfl := Table.eq_of_key_eq hmem hrow hkey
        refine ⟨new, (hrefresh new).mpr (Or.inr rfl), hnew.trans hfamily, hpair.unrotated, ?_⟩
        rw [hpair.refresh_expires]
        exact hs.lifetime access haccess now (le_refl now)
      · exact ⟨refresh, (hrefresh refresh).mpr (Or.inl (Table.mem_upsert.mpr
          (Or.inr ⟨hmem, hkey⟩))), hfamily, hrotated, hexpires⟩
    · refine ⟨new, (hrefresh new).mpr (Or.inr rfl), ?_, hpair.unrotated, ?_⟩
      · rw [hnew, hpair.access_family]
      · rw [hpair.access_expires, hpair.refresh_expires]
        exact lifetimes.access_le_refresh now now (le_refl now)

theorem TokenStatement.consistent (hs : s.Consistent lifetimes now)
    (h : TokenStatement lifetimes issuable now s s') : s'.Consistent lifetimes now where
  code_drawn row hrow := by
    rcases h.code_aged hrow with ⟨old, hold, hages⟩ | ⟨-, hdrawn⟩
    · rw [hages.codeHash]
      exact h.drawn (hs.code_drawn old hold)
    · exact hdrawn
  access_drawn row hrow := by
    rcases h.access_aged hrow with ⟨old, hold, hages⟩ | ⟨-, hdrawn, -⟩
    · rw [hages.tokenHash]
      exact h.drawn (hs.access_drawn old hold)
    · exact hdrawn
  refresh_drawn row hrow := by
    rcases h.refresh_aged hrow with ⟨old, hold, hages⟩ | ⟨-, hdrawn, -⟩
    · rw [hages.tokenHash]
      exact h.drawn (hs.refresh_drawn old hold)
    · exact hdrawn
  family_drawn family state hstate := by
    obtain ⟨q, new, hholds⟩ := h.holds
    rcases hholds family state hstate with ⟨old, hold, -⟩ | ⟨-, hdrawn, -⟩
    · exact h.drawn (hs.family_drawn family old hold)
    · exact hdrawn
  uniform _ _ _ := h.uniform hs
  unrotated := h.unrotated hs
  companion := h.companion hs
  lifetime := h.lifetime hs

theorem TokenState.Consistent.later (hs : s.Consistent lifetimes now) (ht : now ≤ t) :
    s.Consistent lifetimes t :=
  { hs with lifetime := fun access haccess u hu => hs.lifetime access haccess u (le_trans ht hu) }

/-! ## Replays -/

/-- A family that has stopped working is never taken up again. -/
theorem TokenStatement.unusable (h : TokenStatement lifetimes issuable now s s')
    (hfamily : family ∈ s.drawn) (hdead : ¬s.oauth.FamilyUsable now family) :
    ¬s'.oauth.FamilyUsable now family := by
  rintro (⟨row, hrow, rfl, hrevoked, hexpires⟩ | ⟨row, hrow, rfl, hrotated, hrevoked, hexpires⟩)
  · rcases h.access_aged hrow with ⟨old, hold, hages⟩ | ⟨-, -, -, hnew | hnew⟩
    · refine hdead (Or.inl ⟨old, hold, hages.tokenFamilyId.symm, ?_, hages.expiresAt ▸ hexpires⟩)
      exact not_not.mp fun hr => hages.revoked hr hrevoked
    · exact hnew hfamily
    · exact hdead hnew
  · rcases h.refresh_aged hrow with ⟨old, hold, hages⟩ | ⟨-, -, hnew | hnew⟩
    · refine hdead (Or.inr ⟨old, hold, hages.tokenFamilyId.symm, ?_, ?_,
        hages.expiresAt ▸ hexpires⟩)
      · exact not_not.mp fun hr => hr (hages.rotated hr ▸ hrotated)
      · exact not_not.mp fun hr => hages.revoked hr hrevoked
    · exact hnew hfamily
    · exact hdead hnew

/-- A consumed code is there as it was, until its family has stopped working. -/
theorem TokenStatement.code_kept (h : TokenStatement lifetimes issuable now s s')
    {code : AuthorizationCodeRow} (hcode : code ∈ s.oauth.mcpAuthorizationCodes)
    (hconsumed : code.consumedAt ≠ none) (hfamily : code.tokenFamilyId = some family) :
    ¬s'.oauth.FamilyUsable now family ∨ code ∈ s'.oauth.mcpAuthorizationCodes := by
  cases h with
  | other h => exact Or.inr (h.codes ▸ hcode)
  | revoke | use => exact Or.inr hcode
  | forget p hp =>
    refine Or.inr (Table.mem_deleteWhere.mpr ⟨hcode, ?_⟩)
    by_contra hpc
    exact hconsumed (hp code (by simpa using hpc))
  | @purge o =>
    by_cases hpurged : code ∈ (o.purgeTokens now).mcpAuthorizationCodes
    · exact Or.inr hpurged
    left
    unfold OAuthTables.purgeTokens at hpurged
    rw [Table.mem_deleteWhere, not_and, Bool.not_eq_false] at hpurged
    have hgone := hpurged hcode
    simp only [OAuthTables.purgedAuthorizationCode, decide_eq_true_eq, hfamily, Option.mem_some_iff,
      forall_eq'] at hgone
    obtain ⟨-, haccess, hrefresh⟩ := hgone
    rintro (⟨row, hrow, hf, -⟩ | ⟨row, hrow, hf, -⟩)
    · exact haccess ⟨row, hrow, hf⟩
    · exact hrefresh ⟨row, hrow, hf⟩
  | issue hcodes => exact Or.inr ((Table.mem_insert? hcodes).mpr (Or.inl hcode))
  | exchange hrow husable _ hinsert =>
    refine Or.inr (Table.mem_upsert.mpr (Or.inr ⟨?_, fun hkey => ?_⟩))
    · rw [(OAuthTables.insertTokens_eq_ok hinsert).1]
      exact hcode
    · rw [Table.eq_of_key_eq hcode hrow hkey] at hconsumed
      exact hconsumed husable.1
  | rotate _ _ _ hinsert =>
    right
    rw [(OAuthTables.insertTokens_eq_ok hinsert).1]
    exact hcode

/-- A rotated token is there, until its family has stopped working. -/
theorem TokenStatement.refresh_kept (hs : s.Consistent lifetimes now)
    (h : TokenStatement lifetimes issuable now s s') {row : RefreshTokenRow}
    (hrow : row ∈ s.oauth.mcpRefreshTokens) (hrotated : row.rotatedAt ≠ none) :
    ¬s'.oauth.FamilyUsable now row.tokenFamilyId ∨
      ∃ row' ∈ s'.oauth.mcpRefreshTokens, row.Ages row' := by
  cases h with
  | other h => exact Or.inr ⟨row, h.refresh ▸ hrow, .refl row⟩
  | revoke =>
    exact Or.inr ⟨_, OAuthTables.mem_refresh_revokeWhere.mpr ⟨row, hrow, rfl⟩,
      row.ages_revokedIf _ _⟩
  | forget | use | issue => exact Or.inr ⟨row, hrow, .refl row⟩
  | @purge o =>
    by_cases hpurged : row ∈ (o.purgeTokens now).mcpRefreshTokens
    · exact Or.inr ⟨row, hpurged, .refl row⟩
    left
    unfold OAuthTables.purgeTokens at hpurged
    rw [Table.mem_deleteWhere, not_and, Bool.not_eq_false] at hpurged
    have hgone := hpurged hrow
    simp only [OAuthTables.purgedRefreshToken, decide_eq_true_eq] at hgone
    -- What works in the family after the purge has worked before, beside a refresh token.
    have hactive : (o.purgeTokens now).FamilyUsable now row.tokenFamilyId →
        ∃ active ∈ o.mcpRefreshTokens, active.tokenFamilyId = row.tokenFamilyId ∧
          active.Usable now := by
      rintro (⟨access, haccess, hfamily, husable⟩ | ⟨active, hactive, hfamily, husable⟩)
      · obtain ⟨refresh, hrefresh, hf, hu, -⟩ :=
          hs.usable_companion (Table.mem_deleteWhere.mp haccess).1 husable
        exact ⟨refresh, hrefresh, hf.trans hfamily, hu⟩
      · exact ⟨active, (Table.mem_deleteWhere.mp hactive).1, hfamily, husable⟩
    intro husable
    obtain ⟨active, hmem, hfamily, hu⟩ := hactive husable
    rcases hgone with hrevoked | ⟨-, hnone⟩
    · have hstate := hs.uniform _ _ _ (Or.inr ⟨active, hmem, hfamily, rfl⟩)
        (Or.inr ⟨row, hrow, rfl, rfl⟩)
      have hsome := congrArg FamilyState.revoked hstate
      simp only [RefreshTokenRow.familyState, hu.2.1, Option.isSome_none] at hsome
      exact hrevoked (Option.isSome_eq_false_iff.mp hsome.symm |> Option.isNone_iff_eq_none.mp)
    · exact hnone ⟨active, hmem, hfamily, hu⟩
  | exchange _ _ _ hinsert =>
    exact Or.inr ⟨row, ((OAuthTables.insertTokens_eq_ok hinsert).2.2 row).mpr (Or.inl hrow),
      .refl row⟩
  | rotate hparent husable _ hinsert =>
    refine Or.inr ⟨row, ((OAuthTables.insertTokens_eq_ok hinsert).2.2 row).mpr
      (Or.inl (Table.mem_upsert.mpr (Or.inr ⟨hrow, fun hkey => ?_⟩))), .refl row⟩
    rw [Table.eq_of_key_eq hrow hparent hkey] at hrotated
    exact hrotated husable.1

/-- A property that every statement keeps in a consistent state. -/
theorem TokenStatements.invariant {P : TokenState → Prop}
    (hstatement : ∀ s s', s.Consistent lifetimes now → TokenStatement lifetimes issuable now s s' →
      P s → P s')
    (h : TokenStatements lifetimes issuable now s s') (hs : s.Consistent lifetimes now ∧ P s) :
    s'.Consistent lifetimes now ∧ P s' := by
  induction h with
  | refl => exact hs
  | tail _ hlast ih => exact ⟨hlast.consistent ih.1, hstatement _ _ ih.1 hlast ih.2⟩

/-- A revoked family does not work. -/
theorem OAuthTables.not_usable_revokeFamily {o : OAuthTables} :
    ¬(o.revokeFamily family now).FamilyUsable t family := by
  rintro (⟨row, hrow, hfamily, hrevoked, -⟩ | ⟨row, hrow, hfamily, -, hrevoked, -⟩)
  · obtain ⟨old, -, rfl⟩ := mem_access_revokeWhere.mp hrow
    have hsome := old.isSome_revokedIf (old.tokenFamilyId = family) now
    rw [(old.ages_revokedIf _ _).tokenFamilyId] at hfamily
    rw [hrevoked] at hsome
    simp [hfamily] at hsome
  · obtain ⟨old, -, rfl⟩ := mem_refresh_revokeWhere.mp hrow
    have hsome := old.isSome_revokedIf (old.tokenFamilyId = family) now
    rw [(old.ages_revokedIf _ _).tokenFamilyId] at hfamily
    rw [hrevoked] at hsome
    simp [hfamily] at hsome

end Marginalis
