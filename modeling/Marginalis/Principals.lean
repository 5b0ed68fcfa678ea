import Marginalis.Result
import Marginalis.Schema

/-!
# Principals

`resolveOrCreate` maps a verified identity to its principal and creates both at the first
login. It is the only write to `principals` in a running service, so the invariant it keeps
(`PrincipalsConsistent`) says that every principal has one primary identity, and an id is
never reused.
-/

namespace Marginalis

namespace Database

variable (db : Database)

/-- The rowid SQLite gives to the next principal. -/
def nextPrincipalId : PrincipalId :=
  ⟨(db.principals.rows.map fun row => row.principalId.get).foldr max 0 + 1⟩

/-- The rowid SQLite gives to the next identity. -/
def nextIdentityId : ℕ := (db.principalIdentities.rows.map IdentityRow.identityId).foldr max 0 + 1

/-- `resolve_in`. -/
def resolveIn (identity : Identity) : Except StorageError (Option (Actor × ℕ)) :=
  match db.principalIdentities.rows.find? fun row => row.identity = identity with
  | none => .ok none
  | some row =>
    match db.primaryIdentity row.principalId with
    | none => .error .corruptData
    | some primaryIdentity =>
      .ok (some (⟨⟨row.principalId, primaryIdentity⟩, identity⟩, row.identityId))

/-- `resolve_or_create_in`. -/
def resolveOrCreateIn (identity : Identity) : Except StorageError ((Actor × ℕ) × Database) := do
  match ← db.resolveIn identity with
  | some resolved => return (resolved, db)
  | none =>
    let principalId := db.nextPrincipalId
    let identityId := db.nextIdentityId
    match db.principals.insert? ⟨principalId⟩,
        db.principalIdentities.insert? ⟨identityId, principalId, identity, true⟩ with
    | some principals, some identities =>
      return ((⟨⟨principalId, identity⟩, identity⟩, identityId),
        { db with principals := principals, principalIdentities := identities })
    | _, _ => throw .unavailable

/-- Every principal has a primary identity, and every identity a principal. -/
structure PrincipalsConsistent : Prop where
  primary : ∀ row ∈ db.principals, ∃ identity, db.primaryIdentity row.principalId = some identity
  principal : ∀ row ∈ db.principalIdentities, ∃ p, db.principals.find row.principalId = some p

theorem principalsConsistent_empty : empty.PrincipalsConsistent :=
  ⟨by simp [empty], by simp [empty]⟩

variable {db} {db' : Database} {identity : Identity} {resolved : Actor × ℕ}

theorem PrincipalsConsistent.congr (hdb : db.PrincipalsConsistent)
    (hprincipals : db'.principals = db.principals)
    (hidentities : db'.principalIdentities = db.principalIdentities) :
    db'.PrincipalsConsistent := by
  refine ⟨fun row hrow => ?_, fun row hrow => ?_⟩
  · unfold primaryIdentity
    rw [hidentities]
    exact hdb.primary row (hprincipals ▸ hrow)
  · rw [hprincipals]
    exact hdb.principal row (hidentities ▸ hrow)

/-- A resolved identity was there, or both its rows are new. -/
theorem resolveOrCreateIn_eq_ok (h : db.resolveOrCreateIn identity = .ok (resolved, db')) :
    db' = db ∧ db.resolveIn identity = .ok (some resolved) ∨
      ∃ principals identities, db.principals.insert? ⟨db.nextPrincipalId⟩ = some principals ∧
        db.principalIdentities.insert?
          ⟨db.nextIdentityId, db.nextPrincipalId, identity, true⟩ = some identities ∧
        db' = { db with principals := principals, principalIdentities := identities } := by
  unfold resolveOrCreateIn at h
  rw [Except.bind_eq_ok] at h
  obtain ⟨_ | r, hr, h⟩ := h
  · right
    dsimp only at h
    split at h
    · next principals identities hp hi =>
      cases h
      exact ⟨principals, identities, hp, hi, rfl⟩
    · cases h
  · cases h
    exact Or.inl ⟨rfl, hr⟩

theorem find?_append_of_some {α : Type*} {l l' : List α} {p : α → Bool} {a : α}
    (h : l.find? p = some a) : (l ++ l').find? p = some a := by
  rw [List.find?_append, h, Option.some_or]

theorem PrincipalsConsistent.resolveOrCreateIn (hdb : db.PrincipalsConsistent)
    (h : db.resolveOrCreateIn identity = .ok (resolved, db')) : db'.PrincipalsConsistent := by
  rcases resolveOrCreateIn_eq_ok h with ⟨rfl, -⟩ | ⟨principals, identities, hp, hi, rfl⟩
  · exact hdb
  have hrows := (Table.insert?_eq_some.mp hi).2
  constructor
  · intro row hrow
    rcases (Table.mem_insert? hp).mp hrow with hrow | rfl
    · obtain ⟨primary, hprimary⟩ := hdb.primary row hrow
      refine ⟨primary, ?_⟩
      simp only [primaryIdentity, Option.map_eq_some_iff] at hprimary ⊢
      obtain ⟨r, hr, hprimary⟩ := hprimary
      exact ⟨r, hrows ▸ find?_append_of_some hr, hprimary⟩
    · simp only [primaryIdentity, Option.map_eq_some_iff]
      cases hf : identities.rows.find? fun row =>
          decide (row.principalId = db.nextPrincipalId ∧ row.isPrimary = true) with
      | some r => exact ⟨r.identity, r, rfl, rfl⟩
      | none =>
        have := List.find?_eq_none.mp hf ⟨db.nextIdentityId, db.nextPrincipalId, identity, true⟩
          (by simp [hrows])
        simp at this
  · intro row hrow
    have hfind := Table.find_insert? hp row.principalId
    rcases (Table.mem_insert? hi).mp hrow with hrow | rfl
    · obtain ⟨p, hp'⟩ := hdb.principal row hrow
      show ∃ p, principals.find row.principalId = some p
      rw [hfind]
      split_ifs with hk
      · exact ⟨_, rfl⟩
      · exact ⟨p, hp'⟩
    · exact ⟨_, by simpa [Keyed.key] using hfind⟩

/-- A login : the database after `resolve_or_create`. -/
def login (db : Database) (identity : Identity) : Database :=
  match db.resolveOrCreateIn identity with
  | .ok (_, db') => db'
  | .error _ => db

theorem PrincipalsConsistent.login (hdb : db.PrincipalsConsistent) (identity : Identity) :
    (db.login identity).PrincipalsConsistent := by
  unfold Database.login
  cases h : db.resolveOrCreateIn identity with
  | error e => exact hdb
  | ok resolved => exact hdb.resolveOrCreateIn h

/-- A login adds a principal or nothing. -/
theorem login_cases (db : Database) (identity : Identity) :
    db.login identity = db ∨ ∃ principals identities row,
      db.principals.insert? row = some principals ∧
      (∃ r, db.principalIdentities.insert? r = some identities) ∧
      db.login identity = { db with
        principals := principals, principalIdentities := identities } := by
  unfold login
  cases h : db.resolveOrCreateIn identity with
  | error e => exact Or.inl rfl
  | ok resolved =>
    rcases resolveOrCreateIn_eq_ok h with ⟨hsame, -⟩ | ⟨principals, identities, hp, hi, heq⟩
    · exact Or.inl hsame
    · exact Or.inr ⟨principals, identities, _, hp, ⟨_, hi⟩, heq⟩

theorem login_principals (db : Database) (identity : Identity) {q : PrincipalId}
    (h : ∃ r, db.principals.find q = some r) :
    ∃ r, (db.login identity).principals.find q = some r := by
  rcases login_cases db identity with heq | ⟨principals, identities, row, hp, -, heq⟩
  · rw [heq]
    exact h
  · rw [heq]
    show ∃ r, principals.find q = some r
    rw [Table.find_insert? hp]
    split_ifs
    · exact ⟨row, rfl⟩
    · exact h

theorem login_primaryIdentity (db : Database) (identity : Identity) {q : PrincipalId}
    {shown : Identity} (h : db.primaryIdentity q = some shown) :
    (db.login identity).primaryIdentity q = some shown := by
  rcases login_cases db identity with heq | ⟨principals, identities, row, -, ⟨r, hi⟩, heq⟩
  · rw [heq]
    exact h
  · rw [heq]
    obtain ⟨found, hfound, rfl⟩ := Option.map_eq_some_iff.mp h
    refine Option.map_eq_some_iff.mpr ⟨found, ?_, rfl⟩
    show identities.rows.find? _ = _
    rw [(Table.insert?_eq_some.mp hi).2]
    exact find?_append_of_some hfound

/-- A login leaves the tables of the notes alone. -/
theorem login_eq (db : Database) (identity : Identity) : ∃ principals identities,
    db.login identity = { db with
      principals := principals, principalIdentities := identities } := by
  rcases login_cases db identity with heq | ⟨principals, identities, row, -, -, heq⟩
  · exact ⟨db.principals, db.principalIdentities, heq⟩
  · exact ⟨principals, identities, heq⟩

/-! ## Two principals -/

/-- The owner in the runs below. -/
def alice : Actor :=
  ⟨⟨⟨1⟩, ⟨"https://id.example.test", "alice"⟩⟩, ⟨"https://id.example.test", "alice"⟩⟩

/-- The other principal in the runs below. -/
def bob : Actor :=
  ⟨⟨⟨2⟩, ⟨"https://id.example.test", "bob"⟩⟩, ⟨"https://id.example.test", "bob"⟩⟩

/-- The database after the first logins of both. -/
def twoPrincipals : Database :=
  (empty.login alice.authenticatedIdentity).login bob.authenticatedIdentity

end Database

end Marginalis
