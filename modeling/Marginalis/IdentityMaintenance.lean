import Marginalis.TokenFamily

/-!
# Identities of a principal

A principal is reached through the external identities that are bound to it, and one of them,
the primary one, is shown for it. Four writers bind identities : the first resolution of an
identity, within a login, an ACL entry or the issue of an authorization code, the restore of an
archive, and the maintenance that links a second identity to a principal or makes another one
the primary. `setPrimary` passes through a state without a primary identity, so the
binding is whole between transactions only (`BindingsWhole`).

The maintenance runs on a stopped service. It opens the database, checks it, writes a backup, and
checks again in its transaction and after the commit. What these calls find is the rest of the
world here (`MaintenanceEnvironment`), and each of them can fail on its own. A check that fails
after the commit makes the command report an error for bindings it has changed.
-/

namespace Marginalis

/-! ## Principals with their identities -/

/-- A stored principal with all its identities, the primary one among them. -/
structure Principal where
  reference : PrincipalRef
  identities : List Identity
  primary_mem : reference.primaryIdentity ∈ identities
  nodup : identities.Nodup

inductive InvalidPrincipal
  | invalidPrincipal
  deriving DecidableEq, Repr

/-- `Principal::restore`. -/
def Principal.restore (id : PrincipalId) (primaryIdentity : Identity) (identities : List Identity) :
    Except InvalidPrincipal Principal :=
  if h : identities ≠ [] ∧ primaryIdentity ∈ identities ∧ identities.Nodup then
    .ok ⟨⟨id, primaryIdentity⟩, identities, h.2.1, h.2.2⟩
  else .error .invalidPrincipal

inductive IdentityMaintenanceRequest
  | link (existing newIdentity : Identity) (makePrimary : Bool)
  | setPrimary (identity : Identity)
  deriving DecidableEq, Repr

structure IdentityMaintenanceReport where
  backupPath : String
  identityLinked : Bool
  primaryChanged : Bool
  deriving DecidableEq, Repr

/-- `μ` is the error of opening the database and of its backup. -/
inductive IdentityMaintenanceError (μ : Type*)
  | backup (error : μ)
  | existingIdentityNotFound
  | duplicateIdentity
  | identityAlreadyBound
  | alreadyPrimary
  | corruptData
  | database

/-- When the maintenance checks the database. -/
inductive MaintenanceCheck
  | beforeBackup | inTransaction | afterCommit

/-- What the maintenance finds around the database : whether it can be opened at a current schema,
with the path of the backup, what each call of `quick_check` and `foreign_key_check` says of stored
tables, which calls of the query of `verify_principal_bindings` answer, and whether the backup can
be published. -/
structure MaintenanceEnvironment (μ : Type*) where
  opened : Except (IdentityMaintenanceError μ) String
  verifyDatabase : MaintenanceCheck → Database → Bool
  readBindings : MaintenanceCheck → Bool
  publishVerifiedBackup : Database → Except μ Unit

/-- The checks after the commit find the committed tables in order. -/
def MaintenanceEnvironment.ChecksCommitted {μ : Type*} (environment : MaintenanceEnvironment μ)
    (committed : Database) : Prop :=
  environment.verifyDatabase .afterCommit committed = true ∧
    environment.readBindings .afterCommit = true

namespace Database

variable {μ : Type*} (db : Database)

/-! ## Statements -/

/-- `INSERT INTO principal_identities`, under its foreign key and its two unique indices. -/
def insertIdentity (principalId : PrincipalId) (identity : Identity) (isPrimary : Bool) :
    Option Database :=
  if (db.principals.find principalId).isSome ∧
      (¬∃ row ∈ db.principalIdentities, row.identity = identity) ∧
      ¬(isPrimary = true ∧ ∃ row ∈ db.principalIdentities,
        row.principalId = principalId ∧ row.isPrimary = true) then
    (db.principalIdentities.insert? ⟨db.nextIdentityId, principalId, identity, isPrimary⟩).map
      fun identities => { db with principalIdentities := identities }
  else none

/-- One identity of `insert_principal`. -/
def insertPrincipalIdentity (principal : Principal) (identity : Identity) :
    Except SqliteStoreError Database :=
  match db.insertIdentity principal.reference.id identity
      (identity = principal.reference.primaryIdentity) with
  | none => .error .database
  | some db => .ok db

/-- `insert_principal`. -/
def insertPrincipal (principal : Principal) : Except SqliteStoreError Database :=
  match db.principals.insert? ⟨principal.reference.id⟩ with
  | none => .error .database
  | some principals =>
    principal.identities.foldlM
      (fun (db : Database) identity => db.insertPrincipalIdentity principal identity)
      { db with principals := principals }

/-- What `restore` asks of its target first. -/
def targetHasData : Bool :=
  db.principals.rows ≠ [] ∨ db.notes.rows ≠ [] ∨ db.noteAttachments.rows ≠ [] ∨
    db.bibliographyItems.rows ≠ [] ∨ db.bibliographyImportSources.rows ≠ [] ∨
    db.bibliographyImportLinks.rows ≠ [] ∨ db.mathMacroSettings.rows ≠ [] ∨
    db.oauth.webSessions.rows ≠ [] ∨ db.oauth.oidcLoginAttempts.rows ≠ [] ∨
    db.oauth.mcpClients.rows ≠ [] ∨ db.oauth.mcpClientAuthorizations.rows ≠ [] ∨
    db.oauth.mcpPrincipalScopeCeilings.rows ≠ [] ∨ db.oauth.mcpClientScopeCeilings.rows ≠ [] ∨
    db.oauth.mcpAuthorizationCodes.rows ≠ [] ∨ db.oauth.mcpAccessTokens.rows ≠ [] ∨
    db.oauth.mcpRefreshTokens.rows ≠ []

/-- `restore` up to the principals of the archive. -/
def restorePrincipals (principals : List Principal) : Except SqliteStoreError Database :=
  if db.targetHasData then .error .archiveTargetNotEmpty
  else principals.foldlM (fun (db : Database) principal => db.insertPrincipal principal) db

/-- `find_identity`. -/
def findIdentity (identity : Identity) : Option (PrincipalId × Bool) :=
  (db.principalIdentities.rows.find? fun row => row.identity = identity).map fun row =>
    (row.principalId, row.isPrimary)

/-- The first statement of `set_primary`, which leaves the principal without a primary identity. -/
def clearPrimary (principalId : PrincipalId) : Database :=
  { db with
    principalIdentities := db.principalIdentities.modify (fun row => row.principalId = principalId)
      fun row => { row with isPrimary := false } }

/-- The second statement of `set_primary`, with the rows it affects. -/
def markPrimary (principalId : PrincipalId) (identity : Identity) : ℕ × Database :=
  ((db.principalIdentities.select fun row =>
      row.principalId = principalId ∧ row.identity = identity).length,
    { db with
      principalIdentities := db.principalIdentities.modify
        (fun row => row.principalId = principalId ∧ row.identity = identity)
        fun row => { row with isPrimary := true } })

/-- `set_primary`. -/
def setPrimary (principalId : PrincipalId) (identity : Identity) :
    Except (IdentityMaintenanceError μ) Database :=
  let (updated, db) := (db.clearPrimary principalId).markPrimary principalId identity
  if updated ≠ 1 then .error .database else .ok db

/-- `verify_principal_bindings`. -/
def verifyPrincipalBindings : Bool :=
  ∀ principal ∈ db.principals,
    (db.principalIdentities.select fun row => row.principalId = principal.principalId).length ≠ 0 ∧
      (db.principalIdentities.select fun row =>
        row.principalId = principal.principalId ∧ row.isPrimary = true).length = 1

/-! ## The maintenance -/

variable (environment : MaintenanceEnvironment μ) (check : MaintenanceCheck)

/-- `verify_database`. -/
def verifyDatabase : Except (IdentityMaintenanceError μ) Unit :=
  if environment.verifyDatabase check db then .ok () else .error .database

/-- `verify_principal_bindings` as it is called. -/
def checkPrincipalBindings : Except (IdentityMaintenanceError μ) Unit :=
  if ¬environment.readBindings check then .error .database
  else if db.verifyPrincipalBindings then .ok () else .error .corruptData

/-- The principal of a request, whether it links an identity and whether it changes the primary
one. -/
def maintenanceTarget : IdentityMaintenanceRequest →
    Except (IdentityMaintenanceError μ) (PrincipalId × Bool × Bool)
  | .link existing newIdentity makePrimary =>
    match db.findIdentity existing with
    | none => .error .existingIdentityNotFound
    | some (principalId, _) =>
      if (db.findIdentity newIdentity).isSome then .error .identityAlreadyBound
      else .ok (principalId, true, makePrimary)
  | .setPrimary identity =>
    match db.findIdentity identity with
    | none => .error .existingIdentityNotFound
    | some (principalId, isPrimary) =>
      if isPrimary then .error .alreadyPrimary else .ok (principalId, false, true)

/-- The two identities of a link are not the same. -/
def checkDistinct : IdentityMaintenanceRequest → Except (IdentityMaintenanceError μ) Unit
  | .link existing newIdentity _ =>
    if existing = newIdentity then .error .duplicateIdentity else .ok ()
  | .setPrimary _ => .ok ()

/-- `maintain_identity` up to its backup. -/
def prepareMaintenance (request : IdentityMaintenanceRequest) :
    Except (IdentityMaintenanceError μ) (PrincipalId × IdentityMaintenanceReport) := do
  checkDistinct request
  let backupPath ← environment.opened
  db.verifyDatabase environment .beforeBackup
  db.checkPrincipalBindings environment .beforeBackup
  let (principalId, identityLinked, primaryChanged) ← db.maintenanceTarget request
  (environment.publishVerifiedBackup db).mapError .backup
  return (principalId, ⟨backupPath, identityLinked, primaryChanged⟩)

/-- The writes of the transaction. -/
def writeMaintenance (principalId : PrincipalId) :
    IdentityMaintenanceRequest → Except (IdentityMaintenanceError μ) Database
  | .link _ newIdentity makePrimary =>
    match db.insertIdentity principalId newIdentity false with
    | none => .error .database
    | some db => if makePrimary then db.setPrimary principalId newIdentity else .ok db
  | .setPrimary identity => db.setPrimary principalId identity

/-- The transaction of the maintenance. -/
def commitMaintenance (principalId : PrincipalId) (request : IdentityMaintenanceRequest) :
    Except (IdentityMaintenanceError μ) Database := do
  let db ← db.writeMaintenance principalId request
  db.checkPrincipalBindings environment .inTransaction
  db.verifyDatabase environment .inTransaction
  return db

/-- `maintain_identity`. The last two checks come after the commit. -/
def maintainIdentity (request : IdentityMaintenanceRequest) :
    Except (IdentityMaintenanceError μ) IdentityMaintenanceReport × Database :=
  match db.prepareMaintenance environment request with
  | .error error => (.error error, db)
  | .ok (principalId, report) =>
    match db.commitMaintenance environment principalId request with
    | .error error => (.error error, db)
    | .ok committed =>
      ((do
        committed.verifyDatabase environment .afterCommit
        committed.checkPrincipalBindings environment .afterCommit
        return report), committed)

/-- The request gets as far as its commit. -/
def Commits (request : IdentityMaintenanceRequest) (committed : Database) : Prop :=
  ∃ principalId report, db.prepareMaintenance environment request = .ok (principalId, report) ∧
    db.commitMaintenance environment principalId request = .ok committed

/-! ## Bindings -/

/-- What the constraints of the schema say of the bindings. -/
structure BindingsUnique : Prop where
  owner : ∀ row ∈ db.principalIdentities, (db.principals.find row.principalId).isSome
  bound : ∀ row ∈ db.principalIdentities, ∀ other ∈ db.principalIdentities,
    row.identity = other.identity → row = other
  primary_unique : ∀ row ∈ db.principalIdentities, ∀ other ∈ db.principalIdentities,
    row.principalId = other.principalId → row.isPrimary = true → other.isPrimary = true →
      row = other

/-- Between transactions every principal has its primary identity. -/
structure BindingsWhole : Prop extends db.BindingsUnique where
  primary : ∀ p ∈ db.principals, ∃ row ∈ db.principalIdentities,
    row.principalId = p.principalId ∧ row.isPrimary = true

/-- Identities stay with their principals. -/
def KeepsBindings (db db' : Database) : Prop :=
  ∀ row ∈ db.principalIdentities, ∃ row' ∈ db'.principalIdentities,
    row'.identity = row.identity ∧ row'.principalId = row.principalId

/-- Rows were added to both tables, and none was written. -/
structure BindingsGrow (db db' : Database) : Prop where
  principal : ∀ p ∈ db.principals, p ∈ db'.principals
  identity : ∀ row ∈ db.principalIdentities, row ∈ db'.principalIdentities

/-- The transaction left both tables alone. -/
structure SameBindings (db db' : Database) : Prop where
  principals : db'.principals = db.principals
  identities : db'.principalIdentities = db.principalIdentities

variable {db} {db' db'' : Database} {principalId : PrincipalId} {identity : Identity}
  {isPrimary : Bool}

theorem KeepsBindings.refl (db : Database) : db.KeepsBindings db :=
  fun row hrow => ⟨row, hrow, rfl, rfl⟩

theorem KeepsBindings.trans (h : db.KeepsBindings db') (h' : db'.KeepsBindings db'') :
    db.KeepsBindings db'' := by
  intro row hrow
  obtain ⟨between, hbetween, hidentity, hprincipal⟩ := h row hrow
  obtain ⟨row', hrow', hidentity', hprincipal'⟩ := h' between hbetween
  exact ⟨row', hrow', hidentity'.trans hidentity, hprincipal'.trans hprincipal⟩

theorem BindingsGrow.refl (db : Database) : db.BindingsGrow db :=
  ⟨fun _ h => h, fun _ h => h⟩

theorem BindingsGrow.trans (h : db.BindingsGrow db') (h' : db'.BindingsGrow db'') :
    db.BindingsGrow db'' :=
  ⟨fun p hp => h'.principal p (h.principal p hp),
    fun row hrow => h'.identity row (h.identity row hrow)⟩

theorem BindingsGrow.keeps (h : db.BindingsGrow db') : db.KeepsBindings db' :=
  fun row hrow => ⟨row, h.identity row hrow, rfl, rfl⟩

theorem SameBindings.keeps (h : db.SameBindings db') : db.KeepsBindings db' := by
  intro row hrow
  rw [← h.identities] at hrow
  exact ⟨row, hrow, rfl, rfl⟩

theorem SameBindings.whole (h : db.SameBindings db') (hdb : db.BindingsWhole) :
    db'.BindingsWhole := by
  refine ⟨⟨?_, ?_, ?_⟩, ?_⟩
  · rw [h.principals, h.identities]
    exact hdb.owner
  · rw [h.identities]
    exact hdb.bound
  · rw [h.identities]
    exact hdb.primary_unique
  · rw [h.principals, h.identities]
    exact hdb.primary

theorem bindingsWhole_empty : empty.BindingsWhole := by
  refine ⟨⟨?_, ?_, ?_⟩, ?_⟩ <;> exact fun _ h => absurd h Table.not_mem_empty

/-! ## Inserting identities -/

theorem insertIdentity_eq_some (h : db.insertIdentity principalId identity isPrimary = some db') :
    ((db.principals.find principalId).isSome ∧
      (∀ row ∈ db.principalIdentities, row.identity ≠ identity) ∧
      (isPrimary = true → ∀ row ∈ db.principalIdentities, row.principalId = principalId →
        row.isPrimary = false)) ∧
    db'.principals = db.principals ∧
      ∀ row, row ∈ db'.principalIdentities ↔ row ∈ db.principalIdentities ∨
        row = ⟨db.nextIdentityId, principalId, identity, isPrimary⟩ := by
  unfold insertIdentity at h
  split_ifs at h with hconstraints
  obtain ⟨hprincipal, hunique, hprimary⟩ := hconstraints
  obtain ⟨identities, hinsert, rfl⟩ := Option.map_eq_some_iff.mp h
  refine ⟨⟨hprincipal, fun row hrow heq => hunique ⟨row, hrow, heq⟩, ?_⟩, rfl, fun row => ?_⟩
  · intro htrue row hrow hid
    by_contra hrowPrimary
    exact hprimary ⟨htrue, row, hrow, hid, by simpa using hrowPrimary⟩
  · exact Table.mem_insert? hinsert

theorem insertIdentity_grows (h : db.insertIdentity principalId identity isPrimary = some db') :
    db.BindingsGrow db' := by
  obtain ⟨-, hprincipals, hmem⟩ := insertIdentity_eq_some h
  refine ⟨fun p hp => ?_, fun row hrow => (hmem row).mpr (Or.inl hrow)⟩
  rw [hprincipals]
  exact hp

theorem BindingsUnique.insertIdentity (hdb : db.BindingsUnique)
    (h : db.insertIdentity principalId identity isPrimary = some db') : db'.BindingsUnique := by
  obtain ⟨⟨hprincipal, hfresh, hprimary⟩, hprincipals, hmem⟩ := insertIdentity_eq_some h
  refine ⟨fun row hrow => ?_, fun row hrow other hother heq => ?_,
    fun row hrow other hother heq hrowPrimary hotherPrimary => ?_⟩
  · rw [hprincipals]
    rcases (hmem row).mp hrow with hold | rfl
    · exact hdb.owner row hold
    · exact hprincipal
  · rcases (hmem row).mp hrow with hold | rfl <;> rcases (hmem other).mp hother with hold' | rfl
    · exact hdb.bound row hold other hold' heq
    · exact absurd heq (hfresh row hold)
    · exact absurd heq.symm (hfresh other hold')
    · rfl
  · rcases (hmem row).mp hrow with hold | rfl <;> rcases (hmem other).mp hother with hold' | rfl
    · exact hdb.primary_unique row hold other hold' heq hrowPrimary hotherPrimary
    · exact absurd (hprimary hotherPrimary row hold heq) (by simp [hrowPrimary])
    · exact absurd (hprimary hrowPrimary other hold' heq.symm) (by simp [hotherPrimary])
    · rfl

theorem BindingsWhole.insertIdentity (hdb : db.BindingsWhole)
    (h : db.insertIdentity principalId identity isPrimary = some db') : db'.BindingsWhole := by
  refine ⟨hdb.toBindingsUnique.insertIdentity h, fun p hp => ?_⟩
  rw [(insertIdentity_eq_some h).2.1] at hp
  obtain ⟨row, hrow, hprimary⟩ := hdb.primary p hp
  exact ⟨row, (insertIdentity_grows h).identity row hrow, hprimary⟩

/-! ## Restoring principals -/

/-- The inserts of a principal's identities. -/
theorem insertIdentities_eq_ok {principal : Principal} {identities : List Identity}
    (h : identities.foldlM (fun (db : Database) identity =>
      db.insertPrincipalIdentity principal identity) db = .ok db') (hdb : db.BindingsUnique) :
    db'.BindingsUnique ∧ db.BindingsGrow db' ∧ db'.principals = db.principals ∧
      ∀ identity ∈ identities, ∃ row ∈ db'.principalIdentities,
        row.principalId = principal.reference.id ∧
          row.isPrimary = decide (identity = principal.reference.primaryIdentity) := by
  induction identities generalizing db with
  | nil =>
    cases h
    exact ⟨hdb, .refl _, rfl, by simp⟩
  | cons identity identities ih =>
    rw [List.foldlM_cons] at h
    obtain ⟨between, hbetween, h⟩ := Except.bind_eq_ok.mp h
    unfold insertPrincipalIdentity at hbetween
    split at hbetween
    · cases hbetween
    · next hinsert =>
      cases hbetween
      obtain ⟨hunique, hgrow, hprincipals, hrows⟩ := ih h (hdb.insertIdentity hinsert)
      obtain ⟨-, hprincipals', hmem⟩ := insertIdentity_eq_some hinsert
      refine ⟨hunique, (insertIdentity_grows hinsert).trans hgrow, hprincipals.trans hprincipals',
        ?_⟩
      intro identity' hidentity
      rcases List.mem_cons.mp hidentity with rfl | hidentity
      · exact ⟨_, hgrow.identity _ ((hmem _).mpr (Or.inr rfl)), rfl, rfl⟩
      · exact hrows identity' hidentity

theorem BindingsWhole.insertPrincipal (hdb : db.BindingsWhole) {principal : Principal}
    (h : db.insertPrincipal principal = .ok db') : db'.BindingsWhole ∧ db.BindingsGrow db' := by
  unfold Database.insertPrincipal at h
  split at h
  · cases h
  next principals hinsert =>
  have hgrow₀ : db.BindingsGrow { db with principals := principals } :=
    ⟨fun p hp => (Table.mem_insert? hinsert).mpr (Or.inl hp), fun row hrow => hrow⟩
  have hunique₀ : BindingsUnique { db with principals := principals } := by
    refine ⟨fun row hrow => ?_, hdb.bound, hdb.primary_unique⟩
    dsimp only
    rw [Table.find_insert? hinsert]
    split_ifs
    · rfl
    · exact hdb.owner row hrow
  obtain ⟨hunique, hgrow, hprincipals, hrows⟩ := insertIdentities_eq_ok h hunique₀
  refine ⟨⟨hunique, fun p hp => ?_⟩, hgrow₀.trans hgrow⟩
  rw [hprincipals] at hp
  rcases (Table.mem_insert? hinsert).mp hp with hold | rfl
  · obtain ⟨row, hrow, hprimary⟩ := hdb.primary p hold
    exact ⟨row, hgrow.identity row hrow, hprimary⟩
  · obtain ⟨row, hrow, hid, hprimary⟩ := hrows _ principal.primary_mem
    exact ⟨row, hrow, hid, by simpa using hprimary⟩

theorem BindingsWhole.restorePrincipals (hdb : db.BindingsWhole) {principals : List Principal}
    (h : db.restorePrincipals principals = .ok db') : db'.BindingsWhole ∧ db.BindingsGrow db' := by
  unfold Database.restorePrincipals at h
  split_ifs at h
  refine Except.foldlM_invariant (P := fun t => t.BindingsWhole ∧ db.BindingsGrow t) h
    ⟨hdb, .refl db⟩ fun s principal t _ hs hst => ?_
  obtain ⟨hwhole, hgrow⟩ := hs.1.insertPrincipal hst
  exact ⟨hwhole, hs.2.trans hgrow⟩

/-! ## Resolving an identity -/

/-- An identity that is bound resolves to its principal and the primary identity of it. -/
theorem BindingsWhole.resolveIn (hdb : db.BindingsWhole) {row : IdentityRow}
    (hrow : row ∈ db.principalIdentities) : ∃ primary ∈ db.principalIdentities,
      primary.principalId = row.principalId ∧ primary.isPrimary = true ∧
        db.resolveIn row.identity =
          .ok (some (⟨⟨row.principalId, primary.identity⟩, row.identity⟩, row.identityId)) := by
  obtain ⟨p, hp⟩ := Option.isSome_iff_exists.mp (hdb.owner row hrow)
  obtain ⟨primary, hprimary, hid, hmark⟩ := hdb.primary p (Table.mem_of_find hp)
  have hkey : p.principalId = row.principalId := Table.key_of_find hp
  have hfind : db.principalIdentities.rows.find? (fun other => other.identity = row.identity) =
      some row := by
    cases hf : db.principalIdentities.rows.find? (fun other => other.identity = row.identity) with
    | none => exact absurd (List.find?_eq_none.mp hf row hrow) (by simp)
    | some other =>
      have heq : other.identity = row.identity := by simpa using List.find?_some hf
      rw [hdb.bound other (List.mem_of_find?_eq_some hf) row hrow heq]
  have hshown : db.primaryIdentity row.principalId = some primary.identity := by
    unfold primaryIdentity
    cases hf : db.principalIdentities.rows.find? (fun other =>
        other.principalId = row.principalId ∧ other.isPrimary = true) with
    | none => exact absurd (List.find?_eq_none.mp hf primary hprimary) (by simp [hid, hkey, hmark])
    | some other =>
      have hother : other.principalId = row.principalId ∧ other.isPrimary = true := by
        simpa using List.find?_some hf
      rw [hdb.primary_unique other (List.mem_of_find?_eq_some hf) primary hprimary
        (hother.1.trans (hid.trans hkey).symm) hother.2 hmark]
      rfl
  refine ⟨primary, hprimary, hid.trans hkey, hmark, ?_⟩
  unfold Database.resolveIn
  rw [hfind]
  dsimp only
  rw [hshown]

theorem BindingsWhole.not_mem_nextPrincipalId (hdb : db.BindingsWhole)
    {principals : Table PrincipalRow}
    (h : db.principals.insert? ⟨db.nextPrincipalId⟩ = some principals) :
    ∀ row ∈ db.principalIdentities, row.principalId ≠ db.nextPrincipalId := by
  intro row hrow heq
  have howner := hdb.owner row hrow
  have hnone : db.principals.find db.nextPrincipalId = none := (Table.insert?_eq_some.mp h).1
  rw [heq, hnone] at howner
  cases howner

theorem BindingsWhole.resolveOrCreateIn (hdb : db.BindingsWhole) {resolved : Actor × ℕ}
    (h : db.resolveOrCreateIn identity = .ok (resolved, db')) :
    db'.BindingsWhole ∧ db.BindingsGrow db' := by
  obtain ⟨found, hfound, h⟩ := Except.bind_eq_ok.mp h
  cases found with
  | some found =>
    cases h
    exact ⟨hdb, .refl _⟩
  | none =>
    dsimp only at h
    split at h
    · next principals identities hp hi =>
      cases h
      have hfresh : ∀ row ∈ db.principalIdentities, row.identity ≠ identity := by
        rintro row hrow rfl
        obtain ⟨primary, -, -, -, hresolved⟩ := hdb.resolveIn hrow
        rw [hresolved] at hfound
        cases hfound
      have hnew := hdb.not_mem_nextPrincipalId hp
      refine ⟨⟨⟨fun row hrow => ?_, fun row hrow other hother heq => ?_,
        fun row hrow other hother heq hrowPrimary hotherPrimary => ?_⟩, fun p hp' => ?_⟩,
        fun p hp' => (Table.mem_insert? hp).mpr (Or.inl hp'),
        fun row hrow => (Table.mem_insert? hi).mpr (Or.inl hrow)⟩
      · rcases (Table.mem_insert? hi).mp hrow with hold | rfl
        · dsimp only
          rw [Table.find_insert? hp]
          split_ifs
          · rfl
          · exact hdb.owner row hold
        · have hself : (⟨db.nextPrincipalId⟩ : PrincipalRow) ∈ principals :=
            (Table.mem_insert? hp).mpr (Or.inr rfl)
          exact Option.isSome_iff_exists.mpr ⟨_, Table.find_of_mem hself⟩
      · rcases (Table.mem_insert? hi).mp hrow with hold | rfl <;>
          rcases (Table.mem_insert? hi).mp hother with hold' | rfl
        · exact hdb.bound row hold other hold' heq
        · exact absurd heq (hfresh row hold)
        · exact absurd heq.symm (hfresh other hold')
        · rfl
      · rcases (Table.mem_insert? hi).mp hrow with hold | rfl <;>
          rcases (Table.mem_insert? hi).mp hother with hold' | rfl
        · exact hdb.primary_unique row hold other hold' heq hrowPrimary hotherPrimary
        · exact absurd heq (hnew row hold)
        · exact absurd heq.symm (hnew other hold')
        · rfl
      · rcases (Table.mem_insert? hp).mp hp' with hold | rfl
        · obtain ⟨row, hrow, hprimary⟩ := hdb.primary p hold
          exact ⟨row, (Table.mem_insert? hi).mpr (Or.inl hrow), hprimary⟩
        · exact ⟨_, (Table.mem_insert? hi).mpr (Or.inr rfl), rfl, rfl⟩
    · cases h

/-! ## Maintaining identities -/

/-- The two statements of `set_primary` mark the one identity, and no other of the principal. -/
theorem setPrimary_eq_ok (h : db.setPrimary (μ := μ) principalId identity = .ok db') :
    db'.principals = db.principals ∧
      (∃ row ∈ db.principalIdentities, row.principalId = principalId ∧ row.identity = identity) ∧
      ∀ row, row ∈ db'.principalIdentities ↔ ∃ old ∈ db.principalIdentities,
        row = if old.principalId = principalId then
          { old with isPrimary := decide (old.identity = identity) } else old := by
  have hclear : ∀ row, row ∈ (db.clearPrimary principalId).principalIdentities ↔
      ∃ old ∈ db.principalIdentities,
        row = if old.principalId = principalId then { old with isPrimary := false } else old := by
    intro row
    unfold clearPrimary
    rw [Table.mem_modify]
    simp only [decide_eq_true_eq]
  unfold setPrimary markPrimary at h
  dsimp only at h
  split_ifs at h with hcount
  cases h
  refine ⟨rfl, ?_, fun row => ?_⟩
  · have hone : 0 < ((db.clearPrimary principalId).principalIdentities.select fun row =>
        row.principalId = principalId ∧ row.identity = identity).length := by omega
    obtain ⟨row, hrow⟩ := List.exists_mem_of_length_pos hone
    rw [Table.mem_select, hclear] at hrow
    obtain ⟨⟨old, hold, rfl⟩, hmatch⟩ := hrow
    refine ⟨old, hold, ?_⟩
    split_ifs at hmatch <;> simpa using hmatch
  · rw [Table.mem_modify]
    simp only [hclear, decide_eq_true_eq]
    refine ⟨?_, ?_⟩
    · rintro ⟨_, ⟨old, hold, rfl⟩, rfl⟩
      refine ⟨old, hold, ?_⟩
      by_cases hid : old.principalId = principalId <;>
        by_cases hidentity : old.identity = identity <;> simp [hid, hidentity]
    · rintro ⟨old, hold, rfl⟩
      refine ⟨_, ⟨old, hold, rfl⟩, ?_⟩
      by_cases hid : old.principalId = principalId <;>
        by_cases hidentity : old.identity = identity <;> simp [hid, hidentity]

theorem BindingsWhole.setPrimary (hdb : db.BindingsWhole)
    (h : db.setPrimary (μ := μ) principalId identity = .ok db') :
    db'.BindingsWhole ∧ db.KeepsBindings db' := by
  obtain ⟨hprincipals, ⟨target, htarget, htargetId, htargetIdentity⟩, hmem⟩ := setPrimary_eq_ok h
  have hrows : ∀ row ∈ db'.principalIdentities, ∃ old ∈ db.principalIdentities,
      row.identity = old.identity ∧ row.principalId = old.principalId ∧
        row = if old.principalId = principalId then
          { old with isPrimary := decide (old.identity = identity) } else old := by
    intro row hrow
    obtain ⟨old, hold, heq⟩ := (hmem row).mp hrow
    refine ⟨old, hold, ?_, ?_, heq⟩ <;> rw [heq] <;> split_ifs <;> rfl
  refine ⟨⟨⟨fun row hrow => ?_, fun row hrow other hother heq => ?_,
    fun row hrow other hother heq hrowPrimary hotherPrimary => ?_⟩, fun p hp => ?_⟩,
    fun row hrow => ?_⟩
  · obtain ⟨old, hold, -, hid, -⟩ := hrows row hrow
    rw [hprincipals, hid]
    exact hdb.owner old hold
  · obtain ⟨old, hold, hidentity, -, hrow'⟩ := hrows row hrow
    obtain ⟨old', hold', hidentity', -, hother'⟩ := hrows other hother
    have hsame := hdb.bound old hold old' hold' (hidentity.symm.trans (heq.trans hidentity'))
    rw [hrow', hother', hsame]
  · obtain ⟨old, hold, -, hid, hrow'⟩ := hrows row hrow
    obtain ⟨old', hold', -, hid', hother'⟩ := hrows other hother
    have hids : old.principalId = old'.principalId := hid.symm.trans (heq.trans hid')
    have hsame : old = old' := by
      by_cases hprincipal : old.principalId = principalId
      · -- Both are the identity that `set_primary` marks.
        rw [if_pos hprincipal] at hrow'
        rw [if_pos (hids ▸ hprincipal)] at hother'
        rw [hrow'] at hrowPrimary
        rw [hother'] at hotherPrimary
        simp only [decide_eq_true_eq] at hrowPrimary hotherPrimary
        exact hdb.bound old hold old' hold' (hrowPrimary.trans hotherPrimary.symm)
      · rw [if_neg hprincipal] at hrow'
        rw [if_neg (fun hp => hprincipal (hids.trans hp))] at hother'
        rw [hrow'] at hrowPrimary
        rw [hother'] at hotherPrimary
        exact hdb.primary_unique old hold old' hold' hids hrowPrimary hotherPrimary
    rw [hrow', hother', hsame]
  · rw [hprincipals] at hp
    by_cases hprincipal : p.principalId = principalId
    · refine ⟨_, (hmem _).mpr ⟨target, htarget, rfl⟩, ?_⟩
      rw [if_pos htargetId]
      exact ⟨htargetId.trans hprincipal.symm, by simp [htargetIdentity]⟩
    · obtain ⟨row, hrow, hid, hprimary⟩ := hdb.primary p hp
      refine ⟨_, (hmem _).mpr ⟨row, hrow, rfl⟩, ?_⟩
      rw [if_neg (fun h => hprincipal (hid.symm.trans h))]
      exact ⟨hid, hprimary⟩
  · refine ⟨_, (hmem _).mpr ⟨row, hrow, rfl⟩, ?_⟩
    split_ifs <;> exact ⟨rfl, rfl⟩

theorem BindingsWhole.writeMaintenance (hdb : db.BindingsWhole)
    {request : IdentityMaintenanceRequest}
    (h : db.writeMaintenance (μ := μ) principalId request = .ok db') :
    db'.BindingsWhole ∧ db.KeepsBindings db' := by
  cases request with
  | link existing newIdentity makePrimary =>
    unfold Database.writeMaintenance at h
    dsimp only at h
    split at h
    · cases h
    · next hinsert =>
      have hlinked := hdb.insertIdentity hinsert
      have hkeeps := (insertIdentity_grows hinsert).keeps
      split_ifs at h
      · obtain ⟨hwhole, hkeeps'⟩ := hlinked.setPrimary h
        exact ⟨hwhole, hkeeps.trans hkeeps'⟩
      · cases h
        exact ⟨hlinked, hkeeps⟩
  | setPrimary identity => exact hdb.setPrimary h

/-- The principal of a prepared request is that of its target. -/
theorem prepareMaintenance_eq_ok {environment : MaintenanceEnvironment μ}
    {request : IdentityMaintenanceRequest} {report : IdentityMaintenanceReport}
    (h : db.prepareMaintenance environment request = .ok (principalId, report)) :
    ∃ linked changed,
      db.maintenanceTarget (μ := μ) request = .ok (principalId, linked, changed) := by
  obtain ⟨⟨⟩, -, h⟩ := Except.bind_eq_ok.mp h
  obtain ⟨backupPath, -, h⟩ := Except.bind_eq_ok.mp h
  obtain ⟨⟨⟩, -, h⟩ := Except.bind_eq_ok.mp h
  obtain ⟨⟨⟩, -, h⟩ := Except.bind_eq_ok.mp h
  obtain ⟨⟨target, linked, changed⟩, htarget, h⟩ := Except.bind_eq_ok.mp h
  obtain ⟨⟨⟩, -, h⟩ := Except.bind_eq_ok.mp h
  cases h
  exact ⟨linked, changed, htarget⟩

/-- What a transaction of the maintenance has written and checked. -/
theorem commitMaintenance_eq_ok {environment : MaintenanceEnvironment μ}
    {request : IdentityMaintenanceRequest} {committed : Database}
    (h : db.commitMaintenance environment principalId request = .ok committed) :
    db.writeMaintenance (μ := μ) principalId request = .ok committed ∧
      committed.verifyPrincipalBindings = true := by
  obtain ⟨written, hwrite, h⟩ := Except.bind_eq_ok.mp h
  obtain ⟨⟨⟩, hbindings, h⟩ := Except.bind_eq_ok.mp h
  obtain ⟨⟨⟩, -, h⟩ := Except.bind_eq_ok.mp h
  cases h
  unfold checkPrincipalBindings at hbindings
  split_ifs at hbindings with hread hverify
  exact ⟨hwrite, hverify⟩

/-- A request stops before its commit and changes nothing, or it commits, and then it fails
exactly when a check after the commit does. -/
theorem maintainIdentity_cases (environment : MaintenanceEnvironment μ)
    (request : IdentityMaintenanceRequest) (db : Database) :
    (¬∃ committed, db.Commits environment request committed) ∧
        (∃ error, db.maintainIdentity environment request = (.error error, db)) ∨
      ∃ committed, db.Commits environment request committed ∧
        (db.maintainIdentity environment request).2 = committed ∧
        ((∃ error, (db.maintainIdentity environment request).1 = .error error) ↔
          ¬environment.ChecksCommitted committed) := by
  cases hprepare : db.prepareMaintenance environment request with
  | error error =>
    refine Or.inl ⟨?_, error, by simp only [maintainIdentity, hprepare]⟩
    rintro ⟨committed, principalId, report, h, -⟩
    rw [hprepare] at h
    cases h
  | ok prepared =>
    obtain ⟨principalId, report⟩ := prepared
    cases hcommit : db.commitMaintenance environment principalId request with
    | error error =>
      refine Or.inl ⟨?_, error, by simp only [maintainIdentity, hprepare, hcommit]⟩
      rintro ⟨committed, principalId', report', h, h'⟩
      rw [hprepare] at h
      cases h
      rw [hcommit] at h'
      cases h'
    | ok committed =>
      refine Or.inr ⟨committed, ⟨principalId, report, hprepare, hcommit⟩, ?_, ?_⟩
      · simp only [maintainIdentity, hprepare, hcommit]
      · have hbindings := (commitMaintenance_eq_ok hcommit).2
        simp only [maintainIdentity, hprepare, hcommit, verifyDatabase, checkPrincipalBindings,
          hbindings, MaintenanceEnvironment.ChecksCommitted]
        cases hverify : environment.verifyDatabase .afterCommit committed <;>
          cases hread : environment.readBindings .afterCommit <;>
            simp [Bind.bind, Except.bind, Pure.pure, Except.pure]

/-- A request that commits has changed the bindings : it has bound an identity that was not bound,
or marked one that was not primary. -/
theorem BindingsUnique.changed_of_commits (hdb : db.BindingsUnique)
    {environment : MaintenanceEnvironment μ} {request : IdentityMaintenanceRequest}
    {committed : Database} (h : db.Commits environment request committed) :
    ¬db.SameBindings committed := by
  obtain ⟨principalId, report, hprepare, hcommit⟩ := h
  have hwrite := (commitMaintenance_eq_ok hcommit).1
  rintro ⟨-, hsame⟩
  cases request with
  | link existing newIdentity makePrimary =>
    unfold Database.writeMaintenance at hwrite
    dsimp only at hwrite
    split at hwrite
    · cases hwrite
    · next linked hinsert =>
      obtain ⟨⟨-, hfresh, -⟩, -, hmem⟩ := insertIdentity_eq_some hinsert
      have hnew := (hmem _).mpr (Or.inr rfl)
      have hbound : ∃ row ∈ committed.principalIdentities, row.identity = newIdentity := by
        split_ifs at hwrite
        · obtain ⟨-, -, hrows⟩ := setPrimary_eq_ok hwrite
          refine ⟨_, (hrows _).mpr ⟨_, hnew, rfl⟩, ?_⟩
          split_ifs <;> rfl
        · cases hwrite
          exact ⟨_, hnew, rfl⟩
      obtain ⟨row, hrow, hidentity⟩ := hbound
      exact hfresh row (hsame ▸ hrow) hidentity
  | setPrimary identity =>
    obtain ⟨linked, changed, htarget⟩ := prepareMaintenance_eq_ok hprepare
    simp only [maintenanceTarget, findIdentity] at htarget
    split at htarget
    · cases htarget
    · next found isPrimary hfound =>
      split_ifs at htarget with hprimary
      obtain ⟨row, hrow, heq⟩ := Option.map_eq_some_iff.mp hfound
      obtain ⟨-, ⟨target, htargetMem, hid, hidentity⟩, hrows⟩ := setPrimary_eq_ok hwrite
      -- The row of the identity is primary afterwards and was not before.
      have hmarked := (hrows _).mpr ⟨target, htargetMem, rfl⟩
      rw [if_pos hid, hsame] at hmarked
      have hrowIdentity : row.identity = identity := by simpa using List.find?_some hrow
      have hrowEq := hdb.bound row (List.mem_of_find?_eq_some hrow) _ hmarked
        (hrowIdentity.trans hidentity.symm)
      have hrowPrimary : row.isPrimary = true := by
        rw [hrowEq]
        exact decide_eq_true hidentity
      cases heq
      exact hprimary hrowPrimary

end Database

/-! ## Runs -/

/-- The transactions that bind identities, and any other one. A login, the issue of a session and
an ACL entry resolve their identity in a transaction of its own. -/
inductive PrincipalAction (μ : Type*)
  | resolve (identity : Identity)
  | issueCode (code : String) (registered : McpRegisteredOAuthClient)
      (grant : McpAuthorizationGrant) (codeChallenge : String) (expiresAt now : ℤ)
  /-- The restore of an archive, with the statements after its principals. -/
  | restore (principals : List Principal) (rest : Database → Except SqliteStoreError Database)
  | maintain (environment : MaintenanceEnvironment μ) (request : IdentityMaintenanceRequest)
  /-- A transaction that leaves principals and identities alone. -/
  | elsewhere (db : Database)

namespace Database

open PrincipalAction

variable {μ : Type*} {hashToken : String → Digest} {db db' : Database}
  {action : PrincipalAction μ} {moves moves' : List (Move Database (PrincipalAction μ))}

/-- The database after a transaction. -/
def nextBindings (hashToken : String → Digest) (db : Database) : PrincipalAction μ → Database
  | resolve identity => db.login identity
  | issueCode code registered grant codeChallenge expiresAt now => db.commit
      (db.issueMcpAuthorizationCode hashToken code registered grant codeChallenge expiresAt now)
  | restore principals rest => db.commit (db.restorePrincipals principals >>= rest)
  | maintain environment request => (db.maintainIdentity environment request).2
  | elsewhere db' => db'

/-- What is asked of the transactions that are not written out here. -/
def BindsElsewhere (db : Database) : PrincipalAction μ → Prop
  | restore _ rest => ∀ d d', rest d = .ok d' → d.SameBindings d'
  | elsewhere db' => db.SameBindings db'
  | _ => True

/-- One transaction. -/
def BindingStep (hashToken : String → Digest) (db : Database) (action : PrincipalAction μ)
    (db' : Database) : Prop :=
  db.BindsElsewhere action ∧ db' = db.nextBindings hashToken action

/-- Every principal has exactly one primary identity, every identity one principal, and resolving
it finds both. -/
structure BindingsSafe (db : Database) : Prop where
  one_primary : ∀ p ∈ db.principals, ∃! row, row ∈ db.principalIdentities ∧
    row.principalId = p.principalId ∧ row.isPrimary = true
  bound_once : ∀ row ∈ db.principalIdentities,
    (∃ p ∈ db.principals, p.principalId = row.principalId) ∧
      ∀ other ∈ db.principalIdentities, other.identity = row.identity → other = row
  resolves : ∀ row ∈ db.principalIdentities, ∃ primary ∈ db.principalIdentities,
    primary.principalId = row.principalId ∧ primary.isPrimary = true ∧
      db.resolveIn row.identity =
        .ok (some (⟨⟨row.principalId, primary.identity⟩, row.identity⟩, row.identityId))

theorem BindingsWhole.safe (hdb : db.BindingsWhole) : db.BindingsSafe where
  one_primary p hp := by
    obtain ⟨row, hrow, hid, hprimary⟩ := hdb.primary p hp
    refine ⟨row, ⟨hrow, hid, hprimary⟩, fun other ⟨hother, hid', hprimary'⟩ => ?_⟩
    exact hdb.primary_unique other hother row hrow (hid'.trans hid.symm) hprimary' hprimary
  bound_once row hrow := by
    obtain ⟨p, hp⟩ := Option.isSome_iff_exists.mp (hdb.owner row hrow)
    exact ⟨⟨p, Table.mem_of_find hp, Table.key_of_find hp⟩,
      fun other hother heq => hdb.bound other hother row hrow heq⟩
  resolves row hrow := hdb.resolveIn hrow

theorem BindingsWhole.login (hdb : db.BindingsWhole) (identity : Identity) :
    (db.login identity).BindingsWhole ∧ db.KeepsBindings (db.login identity) := by
  unfold Database.login
  cases h : db.resolveOrCreateIn identity with
  | error e => exact ⟨hdb, .refl db⟩
  | ok resolved =>
    obtain ⟨hwhole, hgrow⟩ := hdb.resolveOrCreateIn h
    exact ⟨hwhole, hgrow.keeps⟩

theorem BindingsWhole.issueMcpAuthorizationCode (hdb : db.BindingsWhole) {code : String}
    {registered : McpRegisteredOAuthClient} {grant : McpAuthorizationGrant} {codeChallenge : String}
    {expiresAt now : ℤ}
    (h : db.issueMcpAuthorizationCode hashToken code registered grant codeChallenge expiresAt now =
      .ok db') : db'.BindingsWhole ∧ db.KeepsBindings db' := by
  unfold Database.issueMcpAuthorizationCode at h
  obtain ⟨⟨⟨actor, identityId⟩, resolved⟩, hresolved, h⟩ := Except.bind_eq_ok.mp h
  rw [Except.mapError_eq_ok] at hresolved
  obtain ⟨registeredTables, -, h⟩ := Except.bind_eq_ok.mp h
  obtain ⟨oauth, -, h⟩ := Except.bind_eq_ok.mp h
  cases h
  obtain ⟨hwhole, hgrow⟩ := hdb.resolveOrCreateIn hresolved
  have hsame : resolved.SameBindings { resolved with oauth := oauth } := ⟨rfl, rfl⟩
  exact ⟨hsame.whole hwhole, hgrow.keeps⟩

theorem BindingsWhole.commit (hdb : db.BindingsWhole) {ε : Type*} {result : Except ε Database}
    (h : ∀ db', result = .ok db' → db'.BindingsWhole ∧ db.KeepsBindings db') :
    (db.commit result).BindingsWhole ∧ db.KeepsBindings (db.commit result) := by
  unfold Database.commit
  split
  · exact h _ rfl
  · exact ⟨hdb, .refl db⟩

/-- A transaction leaves the bindings whole, and every identity with its principal. -/
theorem BindingsWhole.step (hdb : db.BindingsWhole) (hstep : BindingStep hashToken db action db') :
    db'.BindingsWhole ∧ db.KeepsBindings db' := by
  obtain ⟨helsewhere, rfl⟩ := hstep
  cases action with
  | resolve identity => exact hdb.login identity
  | issueCode code registered grant codeChallenge expiresAt now =>
    exact hdb.commit fun db' h => hdb.issueMcpAuthorizationCode h
  | restore principals rest =>
    refine hdb.commit fun db' h => ?_
    obtain ⟨bound, hbound, h⟩ := Except.bind_eq_ok.mp h
    obtain ⟨hwhole, hgrow⟩ := hdb.restorePrincipals hbound
    have hsame := helsewhere bound db' h
    exact ⟨hsame.whole hwhole, hgrow.keeps.trans hsame.keeps⟩
  | maintain environment request =>
    show (db.maintainIdentity environment request).2.BindingsWhole ∧
      db.KeepsBindings (db.maintainIdentity environment request).2
    rcases maintainIdentity_cases environment request db with
      ⟨-, error, heq⟩ | ⟨committed, ⟨principalId, report, -, hcommit⟩, heq, -⟩
    · rw [heq]
      exact ⟨hdb, .refl db⟩
    · rw [heq]
      exact hdb.writeMaintenance (commitMaintenance_eq_ok hcommit).1
  | elsewhere written =>
    have hsame : db.SameBindings written := helsewhere
    exact ⟨hsame.whole hdb, hsame.keeps⟩

/-- A run leaves the bindings whole, and every identity with its principal. -/
theorem BindingsWhole.run (hdb : db.BindingsWhole)
    (hrun : Run (BindingStep hashToken) db moves db') :
    db'.BindingsWhole ∧ db.KeepsBindings db' := by
  refine hrun.invariant (P := fun t => t.BindingsWhole ∧ db.KeepsBindings t) ?_ ⟨hdb, .refl db⟩
  rintro s action t ⟨hs, hkeeps⟩ hstep
  obtain ⟨ht, hkeeps'⟩ := hs.step hstep
  exact ⟨ht, hkeeps.trans hkeeps'⟩

/-- A maintenance request that returns an error leaves all bindings unchanged. -/
def FailsUnchanged (m : Move Database (PrincipalAction μ)) : Prop :=
  ∀ environment request error, m.label = .maintain environment request →
    (m.pre.maintainIdentity environment request).1 = .error error → m.pre.SameBindings m.post

/-- If the move is a maintenance request that commits, the checks after the commit succeed. -/
def CommitChecked (m : Move Database (PrincipalAction μ)) : Prop :=
  ∀ environment request committed, m.label = .maintain environment request →
    m.pre.Commits environment request committed → environment.ChecksCommitted committed

theorem BindingsWhole.failsUnchanged_iff {m : Move Database (PrincipalAction μ)}
    (hdb : m.pre.BindingsWhole) (hstep : BindingStep hashToken m.pre m.label m.post) :
    FailsUnchanged m ↔ CommitChecked m := by
  obtain ⟨-, hpost⟩ := hstep
  constructor
  · intro hfails environment request committed hlabel hcommits
    rw [hlabel] at hpost
    have hpost : m.post = (m.pre.maintainIdentity environment request).2 := hpost
    rcases maintainIdentity_cases environment request m.pre with
      ⟨hnone, -⟩ | ⟨committed', hcommits', heq, hiff⟩
    · exact absurd ⟨committed, hcommits⟩ hnone
    · by_contra hchecks
      have hsame : committed' = committed := by
        obtain ⟨principalId, report, hprepare, hcommit⟩ := hcommits
        obtain ⟨principalId', report', hprepare', hcommit'⟩ := hcommits'
        cases hprepare.symm.trans hprepare'
        exact Except.ok.inj (hcommit'.symm.trans hcommit)
      obtain ⟨error, herror⟩ := hiff.mpr (hsame ▸ hchecks)
      have hunchanged := hfails environment request error hlabel herror
      rw [hpost, heq] at hunchanged
      exact hdb.toBindingsUnique.changed_of_commits hcommits' hunchanged
  · intro hchecked environment request error hlabel herror
    rw [hlabel] at hpost
    have hpost : m.post = (m.pre.maintainIdentity environment request).2 := hpost
    rcases maintainIdentity_cases environment request m.pre with
      ⟨-, error', heq⟩ | ⟨committed, hcommits, -, hiff⟩
    · rw [hpost, heq]
      exact ⟨rfl, rfl⟩
    · exact absurd (hchecked environment request committed hlabel hcommits)
        (hiff.mp ⟨error, herror⟩)

/-- In every state a run reaches the bindings are safe, and whatever comes after leaves an identity
with its principal. The requests that fail change nothing exactly if no check after a commit
fails. -/
theorem principal_bindings_safe_iff (hrun : Run (BindingStep hashToken) empty moves db)
    (hrun' : Run (BindingStep hashToken) db moves' db') :
    db.BindingsSafe ∧ db.KeepsBindings db' ∧
      ((∀ m ∈ moves, FailsUnchanged m) ↔ ∀ m ∈ moves, CommitChecked m) := by
  have hwhole := (bindingsWhole_empty.run hrun).1
  refine ⟨hwhole.safe, (hwhole.run hrun').2, forall₂_congr fun m hm => ?_⟩
  obtain ⟨⟨before, hbefore⟩, hstep, -⟩ := hrun.of_mem hm
  exact (bindingsWhole_empty.run hbefore).1.failsUnchanged_iff hstep

/-! ## A change of the identity provider -/

/-- The identity Alice has with the next provider. -/
def aliceNext : Identity := ⟨"https://new-id.example.test", "alice-v2"⟩

/-- A maintenance whose surroundings answer. -/
def sampleMaintenance : MaintenanceEnvironment Unit where
  opened := .ok "/var/backups/marginalis.sqlite3"
  verifyDatabase _ _ := true
  readBindings _ := true
  publishVerifiedBackup _ := .ok ()

/-- The disk fails after the commit. -/
def failingMaintenance : MaintenanceEnvironment Unit :=
  { sampleMaintenance with
    verifyDatabase := fun check _ => check matches .beforeBackup | .inTransaction }

/-- Alice logs in, her next identity is linked, and linking it again fails. -/
def linkedAlice : List (PrincipalAction Unit) :=
  [.resolve alice.authenticatedIdentity,
    .maintain sampleMaintenance (.link alice.authenticatedIdentity aliceNext true),
    .maintain sampleMaintenance (.link alice.authenticatedIdentity aliceNext false)]

/-- One transaction of that run. -/
def sampleBindingNext (db : Database) (action : PrincipalAction Unit) : Database :=
  db.nextBindings sampleTokenDigest action

theorem run_bindings (actions : List (PrincipalAction Unit))
    (h : ∀ action ∈ actions, action matches .resolve _ | .maintain _ _) :
    Run (BindingStep sampleTokenDigest) empty (Run.trace sampleBindingNext empty actions)
      (actions.foldl sampleBindingNext empty) := by
  refine Run.run_trace_of_legal sampleBindingNext _ _ fun m hm => ?_
  have hwritten := h m.label (Run.label_mem_of_mem_trace hm)
  unfold BindsElsewhere
  split
  · next heq => simp [heq] at hwritten
  · next heq => simp [heq] at hwritten
  · trivial

/-- Both identities of Alice lead to her in the end, and the failed request has changed nothing. -/
theorem principal_bindings_safe_iff_linkedAlice :
    (linkedAlice.foldl sampleBindingNext empty).principalIdentities.rows.length = 2 ∧
      (linkedAlice.foldl sampleBindingNext empty).BindingsSafe ∧
      ((∀ m ∈ Run.trace sampleBindingNext empty linkedAlice, FailsUnchanged m) ↔
        ∀ m ∈ Run.trace sampleBindingNext empty linkedAlice, CommitChecked m) := by
  obtain ⟨hsafe, -, hfailed⟩ :=
    principal_bindings_safe_iff (run_bindings linkedAlice (by decide)) (Run.nil _)
  exact ⟨by decide +kernel, hsafe, hfailed⟩

/-- The link is committed, the check after it fails, and the command reports an error. -/
theorem failed_maintenance_changes_bindings :
    ¬∀ m ∈ Run.trace sampleBindingNext empty [.resolve alice.authenticatedIdentity,
      .maintain failingMaintenance (.link alice.authenticatedIdentity aliceNext true)],
      FailsUnchanged m := by
  intro h
  have hsame := h ⟨_, _, _⟩ (List.mem_cons_of_mem _ (List.mem_cons_self ..)) failingMaintenance
    (.link alice.authenticatedIdentity aliceNext true) .database rfl (by rfl)
  have hlength := congrArg (fun t : Table IdentityRow => t.rows.length) hsame.identities
  revert hlength
  decide +kernel

end Database

end Marginalis
