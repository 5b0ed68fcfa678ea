import Marginalis.NoteApplication

/-!
# Replacing the access list

`replace_note_acl` of the application takes the identities of the new grants from the request
and resolves them one after the other. Each is resolved in a transaction of its own, which
registers an identity that is not known yet. The access of the caller, the entries that follow
and the expected revision are looked at later, so a request that fails has registered what it
met before (`acl_replacement_not_atomic`). It has when it meets an unknown identity after
entries that are in order (`RegistersTarget`), and only then
(`acl_replacement_atomic_iff`). The notes, their history, their grants and the projection stay
as they were in either case.

The store can fail at any call. `faults` says which calls do, counted from 0 in the order in which
the request makes them.
-/

namespace Marginalis

open Database

/-! ## Identities from outside -/

/-- What `validate_identity` reads of a parsed URL. -/
structure ParsedUrl where
  scheme : String
  cannotBeABase : Bool
  username : String
  password : Option String
  query : Option String
  fragment : Option String
  deriving DecidableEq, Repr

/-- `Url::parse`. -/
structure UrlLibrary where
  parse : String → Option ParsedUrl

inductive InvalidIdentity
  | invalidIdentity
  deriving DecidableEq, Repr

def maxIdentityIssuerBytes : ℕ := 2048

def maxIdentitySubjectBytes : ℕ := 1024

/-- `validate_identity`. -/
def validateIdentity (url : UrlLibrary) (issuer subject : String) : Except InvalidIdentity Unit :=
  match url.parse issuer with
  | none => .error .invalidIdentity
  | some issuerUrl =>
    let issuerValid := issuer.utf8ByteSize ≤ maxIdentityIssuerBytes ∧
      (issuerUrl.scheme = "http" ∨ issuerUrl.scheme = "https") ∧
      issuerUrl.cannotBeABase = false ∧ issuerUrl.username = "" ∧ issuerUrl.password = none ∧
      issuerUrl.query = none ∧ issuerUrl.fragment = none ∧ issuer.toList.any isControl = false
    let subjectValid := subject ≠ "" ∧ subject.utf8ByteSize ≤ maxIdentitySubjectBytes ∧
      subject.toList.any isControl = false
    if issuerValid ∧ subjectValid then .ok () else .error .invalidIdentity

/-- `Identity::new`. -/
def Identity.new (url : UrlLibrary) (issuer subject : String) :
    Except InvalidIdentity Identity := do
  validateIdentity url issuer subject
  return ⟨issuer, subject⟩

/-! ## The request -/

structure NoteAclChange where
  issuer : String
  subject : String
  permission : NotePermission
  deriving DecidableEq, Repr

inductive AclValidationProblem
  | invalidIssuer | invalidSubject | duplicateSubject | ownerIncluded
  deriving DecidableEq, Repr

namespace AclValidationProblem

def code : AclValidationProblem → NoteValidationCode
  | invalidIssuer => .invalidAclIssuer
  | invalidSubject => .invalidAclSubject
  | duplicateSubject => .duplicateAclSubject
  | ownerIncluded => .ownerInAcl

def message : AclValidationProblem → String
  | invalidIssuer => "ACL issuer is not the configured OIDC issuer"
  | invalidSubject => "ACL subject is invalid"
  | duplicateSubject => "ACL subject is duplicated"
  | ownerIncluded => "note owner must not be included in ACL"

end AclValidationProblem

/-- `acl_validation`. -/
def aclValidation (index : ℕ) (problem : AclValidationProblem) : NoteUseCaseError :=
  .validation [⟨problem.code.asStr, .aclEntry index, none, none, problem.message⟩]

/-- A call of the store : it fails, or it is the transaction. -/
def storeCall {α : Type} (fault : Option StorageError) (transaction : Except StorageError α) :
    Except NoteUseCaseError α :=
  match fault with
  | some error => .error error.toNoteUseCaseError
  | none => transaction.mapError StorageError.toNoteUseCaseError

/-- What the loop over the entries has collected. -/
structure AclTargets where
  grants : List NoteAclEntry
  identities : List Identity
  principals : List PrincipalId

namespace NoteApplication

variable (app : NoteApplication) (url : UrlLibrary) (faults : ℕ → Option StorageError)

/-- The turn of the loop for one entry, with the database after it. -/
def aclTarget (owner : PrincipalId) (index : ℕ) (entry : NoteAclChange) (targets : AclTargets)
    (db : Database) : Except NoteUseCaseError AclTargets × Database :=
  match Identity.new url entry.issuer entry.subject with
  | .error _ => (.error (aclValidation index .invalidSubject), db)
  | .ok identity =>
    if identity.issuer ≠ app.aclIssuer then (.error (aclValidation index .invalidIssuer), db)
    else if identity ∈ targets.identities then
      (.error (aclValidation index .duplicateSubject), db)
    else
      match storeCall (faults (index + 1)) (db.resolveOrCreateIn identity) with
      | .error error => (.error error, db)
      | .ok ((actor, _), db) =>
        if actor.principalId = owner then (.error (aclValidation index .ownerIncluded), db)
        else if actor.principalId ∈ targets.principals then
          (.error (aclValidation index .duplicateSubject), db)
        else
          (.ok ⟨targets.grants ++ [⟨actor.principal, entry.permission⟩],
            identity :: targets.identities, actor.principalId :: targets.principals⟩, db)

/-- The loop. -/
def aclTargets (owner : PrincipalId) : ℕ → List NoteAclChange → AclTargets → Database →
    Except NoteUseCaseError AclTargets × Database
  | _, [], targets, db => (.ok targets, db)
  | index, entry :: entries, targets, db =>
    match app.aclTarget url faults owner index entry targets db with
    | (.error error, db) => (.error error, db)
    | (.ok targets, db) => aclTargets owner (index + 1) entries targets db

/-- `replace_note_acl`, with the database after it. -/
def replaceNoteAcl (db : Database) (actor : Actor) (noteId : NoteId) (entries : List NoteAclChange)
    (expectedRevision : ℕ) (now : ℤ) : Except NoteUseCaseError Note × Database :=
  match storeCall (faults 0)
      ((db.accessibleNote actor noteId).mapError SqliteStoreError.toStorageError) with
  | .error error => (.error error, db)
  | .ok none => (.error .notFound, db)
  | .ok (some accessible) =>
    match app.aclTargets url faults accessible.note.owner.id 0 entries ⟨[], [], []⟩ db with
    | (.error error, db) => (.error error, db)
    | (.ok targets, db) =>
      match storeCall (faults (entries.length + 1))
          ((db.replaceNoteAcl actor noteId targets.grants expectedRevision now).mapError
            SqliteStoreError.toStorageError) with
      | .error error => (.error error, db)
      | .ok (note, db) => (.ok note, db)

end NoteApplication

/-! ## What a registration writes -/

theorem le_foldr_max {l : List ℕ} {a : ℕ} (h : a ∈ l) : a ≤ l.foldr max 0 := by
  induction l with
  | nil => cases h
  | cons b l ih =>
    rcases List.mem_cons.mp h with rfl | h
    · exact le_max_left _ _
    · exact (ih h).trans (le_max_right _ _)

namespace Database

variable {db : Database} {identity : Identity}

theorem find_nextPrincipalId (db : Database) : db.principals.find db.nextPrincipalId = none := by
  refine Table.find_eq_none.mpr fun row hrow heq => ?_
  have hmem : row.principalId.get ∈ db.principals.rows.map fun row => row.principalId.get :=
    List.mem_map.mpr ⟨row, hrow, rfl⟩
  have hle := le_foldr_max hmem
  have hid : row.principalId.get = db.nextPrincipalId.get := congrArg PrincipalId.get heq
  rw [nextPrincipalId] at hid
  dsimp only at hid
  omega

theorem find_nextIdentityId (db : Database) :
    db.principalIdentities.find db.nextIdentityId = none := by
  refine Table.find_eq_none.mpr fun row hrow heq => ?_
  have hmem : row.identityId ∈ db.principalIdentities.rows.map IdentityRow.identityId :=
    List.mem_map.mpr ⟨row, hrow, rfl⟩
  have hle := le_foldr_max hmem
  have hid : row.identityId = db.nextIdentityId := heq
  rw [nextIdentityId] at hid
  omega

/-- An identity that is known is not registered. -/
theorem resolveOrCreateIn_of_some {resolved : Actor × ℕ}
    (h : db.resolveIn identity = .ok (some resolved)) :
    db.resolveOrCreateIn identity = .ok (resolved, db) := by
  rw [resolveOrCreateIn, h]
  rfl

/-- An identity that is not gets a principal of its own. -/
theorem resolveOrCreateIn_of_none (h : db.resolveIn identity = .ok none) :
    ∃ resolved principals identities, db.resolveOrCreateIn identity = .ok (resolved,
      { db with principals := principals, principalIdentities := identities }) ∧
      principals.rows = db.principals.rows ++ [⟨db.nextPrincipalId⟩] := by
  obtain ⟨principals, hprincipals⟩ :=
    Table.exists_insert? (r := (⟨db.nextPrincipalId⟩ : PrincipalRow)) db.find_nextPrincipalId
  obtain ⟨identities, hidentities⟩ := Table.exists_insert?
    (r := (⟨db.nextIdentityId, db.nextPrincipalId, identity, true⟩ : IdentityRow))
    db.find_nextIdentityId
  refine ⟨(⟨⟨db.nextPrincipalId, identity⟩, identity⟩, db.nextIdentityId), principals, identities,
    ?_, (Table.insert?_eq_some.mp hprincipals).2⟩
  rw [resolveOrCreateIn, h]
  simp only [bind, Except.bind, hprincipals, hidentities]
  rfl

/-- The tables of principals may have grown, and no other table was written. -/
structure OnlyRegisters (db db' : Database) : Prop where
  principals : db.principals.rows.length ≤ db'.principals.rows.length
  others : ∃ principals identities,
    db' = { db with principals := principals, principalIdentities := identities }

theorem OnlyRegisters.refl (db : Database) : db.OnlyRegisters db := ⟨le_refl _, _, _, rfl⟩

theorem OnlyRegisters.trans {db' db'' : Database} (h : db.OnlyRegisters db')
    (h' : db'.OnlyRegisters db'') : db.OnlyRegisters db'' := by
  obtain ⟨hle, principals, identities, rfl⟩ := h
  obtain ⟨hle', principals', identities', rfl⟩ := h'
  exact ⟨hle.trans hle', principals', identities', rfl⟩

/-- The tables that a failed replacement of the access list must leave alone. -/
structure AclStateUnchanged (db db' : Database) : Prop where
  principals : db'.principals = db.principals
  principalIdentities : db'.principalIdentities = db.principalIdentities
  notes : db'.notes = db.notes
  noteRevisions : db'.noteRevisions = db.noteRevisions
  noteAcl : db'.noteAcl = db.noteAcl
  noteSyncProjection : db'.noteSyncProjection = db.noteSyncProjection

theorem AclStateUnchanged.refl (db : Database) : db.AclStateUnchanged db :=
  ⟨rfl, rfl, rfl, rfl, rfl, rfl⟩

end Database

/-! ## Which requests register -/

namespace NoteApplication

variable (app : NoteApplication) (url : UrlLibrary) (faults : ℕ → Option StorageError)
  (db : Database)

/-- The entry has a valid identity of the configured issuer. -/
def Names (entry : NoteAclChange) (identity : Identity) : Prop :=
  Identity.new url entry.issuer entry.subject = .ok identity ∧ identity.issuer = app.aclIssuer

/-- The entry names an identity of this principal. -/
def Known (entry : NoteAclChange) (principal : PrincipalId) : Prop :=
  ∃ identity resolved, app.Names url entry identity ∧
    db.resolveIn identity = .ok (some resolved) ∧ resolved.1.principalId = principal

/-- The entry names an identity that no principal has. -/
def Unknown (entry : NoteAclChange) : Prop :=
  ∃ identity, app.Names url entry identity ∧ db.resolveIn identity = .ok none

/-- The loop meets an unknown identity : the entries before it name known principals, each once
and none that is taken, and the calls up to it do not fail. -/
def MeetsUnknown (index : ℕ) (taken : List PrincipalId) (entries : List NoteAclChange) : Prop :=
  ∃ known entry rest principals, entries = known ++ entry :: rest ∧
    List.Forall₂ (app.Known url db) known principals ∧ principals.Nodup ∧
    (∀ principal ∈ principals, principal ∉ taken) ∧ app.Unknown url db entry ∧
    ∀ k ≤ known.length, faults (index + k + 1) = none

/-- The request registers an identity : the note is visible, and some entry has an unknown
identity, after entries for different known principals other than the owner, and the store does
not fail up to there. -/
def RegistersTarget (actor : Actor) (noteId : NoteId) (entries : List NoteAclChange) : Prop :=
  ∃ accessible, db.accessibleNote actor noteId = .ok (some accessible) ∧ faults 0 = none ∧
    app.MeetsUnknown url faults db 0 [accessible.note.owner.id] entries

variable {app url faults db} {owner : PrincipalId} {index : ℕ} {entry : NoteAclChange}
  {entries : List NoteAclChange} {targets targets' : AclTargets}

/-- The identities that the loop has seen are known, as its principals. -/
def Seen (db : Database) (targets : AclTargets) : Prop :=
  ∀ identity ∈ targets.identities, ∃ resolved,
    db.resolveIn identity = .ok (some resolved) ∧ resolved.1.principalId ∈ targets.principals

theorem Names.unique {identity identity' : Identity} (h : app.Names url entry identity)
    (h' : app.Names url entry identity') : identity' = identity :=
  Except.ok.inj (h'.1.symm.trans h.1)

variable (app url faults db) in
/-- What a turn of the loop does. It stops and leaves the database alone, or it calls the store for
the identity of the entry. -/
theorem aclTarget_cases (owner : PrincipalId) (index : ℕ) (entry : NoteAclChange)
    (targets : AclTargets) : (∃ error,
      app.aclTarget url faults owner index entry targets db = (.error error, db) ∧
      ∀ identity, app.Names url entry identity → faults (index + 1) = none →
        identity ∈ targets.identities ∨ ∃ error, db.resolveIn identity = .error error) ∨
    ∃ identity resolved db', app.Names url entry identity ∧ faults (index + 1) = none ∧
      identity ∉ targets.identities ∧ db.resolveOrCreateIn identity = .ok (resolved, db') ∧
      app.aclTarget url faults owner index entry targets db =
        if resolved.1.principalId = owner then (.error (aclValidation index .ownerIncluded), db')
        else if resolved.1.principalId ∈ targets.principals then
          (.error (aclValidation index .duplicateSubject), db')
        else (.ok ⟨targets.grants ++ [⟨resolved.1.principal, entry.permission⟩],
          identity :: targets.identities, resolved.1.principalId :: targets.principals⟩, db') := by
  unfold aclTarget
  cases hnew : Identity.new url entry.issuer entry.subject with
  | error e =>
    refine Or.inl ⟨_, rfl, fun identity hnames => ?_⟩
    rw [hnames.1] at hnew
    cases hnew
  | ok identity =>
    dsimp only
    by_cases hissuer : identity.issuer = app.aclIssuer
    · have hnames : app.Names url entry identity := ⟨hnew, hissuer⟩
      rw [if_neg (not_not.mpr hissuer)]
      by_cases hseen : identity ∈ targets.identities
      · rw [if_pos hseen]
        exact Or.inl ⟨_, rfl, fun identity' hnames' _ => Or.inl (hnames.unique hnames' ▸ hseen)⟩
      · rw [if_neg hseen]
        cases hfault : faults (index + 1) with
        | some error => exact Or.inl ⟨_, rfl, fun _ _ hnone => by cases hnone⟩
        | none =>
          cases hresolve : db.resolveOrCreateIn identity with
          | ok result =>
            exact Or.inr ⟨identity, result.1, result.2, hnames, rfl, hseen, hresolve, rfl⟩
          | error error =>
            refine Or.inl ⟨_, rfl, fun identity' hnames' _ => Or.inr ?_⟩
            rw [hnames.unique hnames']
            cases hfound : db.resolveIn identity with
            | error error => exact ⟨error, rfl⟩
            | ok found =>
              cases found with
              | some resolved =>
                rw [resolveOrCreateIn_of_some hfound] at hresolve
                cases hresolve
              | none =>
                obtain ⟨resolved, principals, identities, hok, -⟩ :=
                  resolveOrCreateIn_of_none hfound
                rw [hok] at hresolve
                cases hresolve
    · rw [if_pos hissuer]
      refine Or.inl ⟨_, rfl, fun identity' hnames' => ?_⟩
      rw [Except.ok.inj (hnames'.1.symm.trans hnew)] at hnames'
      exact absurd hnames'.2 hissuer

variable (owner) in
/-- A turn for an unknown identity registers it. -/
theorem aclTarget_of_unknown (hseen : Seen db targets) (hunknown : app.Unknown url db entry)
    (hfault : faults (index + 1) = none) :
    db.principals.rows.length <
      (app.aclTarget url faults owner index entry targets db).2.principals.rows.length := by
  obtain ⟨identity, hnames, hnone⟩ := hunknown
  rcases aclTarget_cases app url faults db owner index entry targets with
    ⟨error, -, hstops⟩ | ⟨identity', resolved, db', hnames', -, -, hresolve, heq⟩
  · rcases hstops identity hnames hfault with hmem | ⟨error, herror⟩
    · obtain ⟨resolved, hsome, -⟩ := hseen identity hmem
      rw [hnone] at hsome
      cases hsome
    · rw [hnone] at herror
      cases herror
  · obtain rfl := hnames.unique hnames'
    obtain ⟨resolved', principals, identities, hok, hrows⟩ := resolveOrCreateIn_of_none hnone
    rw [hok] at hresolve
    cases hresolve
    rw [heq]
    have hlength : db.principals.rows.length < principals.rows.length := by simp [hrows]
    split_ifs <;> exact hlength

variable (app url faults db) in
/-- Any turn registers at most. -/
theorem aclTarget_onlyRegisters (owner : PrincipalId) (index : ℕ) (entry : NoteAclChange)
    (targets : AclTargets) :
    db.OnlyRegisters (app.aclTarget url faults owner index entry targets db).2 := by
  rcases aclTarget_cases app url faults db owner index entry targets with ⟨error, heq, -⟩ |
    ⟨identity, resolved, db', -, -, -, hresolve, heq⟩
  · rw [heq]
    exact .refl db
  · have honly : db.OnlyRegisters db' := by
      rcases resolveOrCreateIn_eq_ok hresolve with ⟨rfl, -⟩ |
        ⟨principals, identities, hprincipals, -, rfl⟩
      · exact .refl db'
      · exact ⟨by simp [(Table.insert?_eq_some.mp hprincipals).2], principals, identities, rfl⟩
    rw [heq]
    split_ifs <;> exact honly

variable (owner) in
/-- A turn that goes on without a registration has found a known principal that is not taken. -/
theorem aclTarget_eq_ok (hseen : Seen db targets)
    (hregisters : ¬(app.Unknown url db entry ∧ faults (index + 1) = none)) :
    (app.aclTarget url faults owner index entry targets db).2 = db ∧
      ∀ targets', (app.aclTarget url faults owner index entry targets db).1 = .ok targets' →
        Seen db targets' ∧ faults (index + 1) = none ∧ ∃ principal,
          app.Known url db entry principal ∧ principal ∉ owner :: targets.principals ∧
          targets'.principals = principal :: targets.principals := by
  rcases aclTarget_cases app url faults db owner index entry targets with ⟨error, heq, -⟩ |
    ⟨identity, resolved, db', hnames, hfault, hnew, hresolve, heq⟩
  · rw [heq]
    exact ⟨rfl, fun _ h => by cases h⟩
  rcases hfound : db.resolveIn identity with error | _ | resolved'
  · rw [resolveOrCreateIn, hfound] at hresolve
    cases hresolve
  · exact absurd ⟨⟨identity, hnames, hfound⟩, hfault⟩ hregisters
  · rw [resolveOrCreateIn_of_some hfound] at hresolve
    cases hresolve
    rw [heq]
    split_ifs with howner htaken
    · exact ⟨rfl, fun _ h => by cases h⟩
    · exact ⟨rfl, fun _ h => by cases h⟩
    · refine ⟨rfl, fun targets' h => ?_⟩
      cases h
      refine ⟨fun identity' hmem => ?_, hfault, resolved.1.principalId,
        ⟨identity, resolved, hnames, hfound, rfl⟩, ?_, rfl⟩
      · rcases List.mem_cons.mp hmem with rfl | hmem
        · exact ⟨resolved, hfound, List.mem_cons_self⟩
        · obtain ⟨earlier, hearlier, hold⟩ := hseen identity' hmem
          exact ⟨earlier, hearlier, List.mem_cons_of_mem _ hold⟩
      · simp [howner, htaken]

/-- A turn for a known principal that is not taken goes on. -/
theorem aclTarget_of_known (hseen : Seen db targets) {principal : PrincipalId}
    (hknown : app.Known url db entry principal) (htaken : principal ∉ owner :: targets.principals)
    (hfault : faults (index + 1) = none) : ∃ targets',
      app.aclTarget url faults owner index entry targets db = (.ok targets', db) ∧
      Seen db targets' ∧ targets'.principals = principal :: targets.principals := by
  obtain ⟨identity, resolved, hnames, hfound, rfl⟩ := hknown
  have hregisters : ¬(app.Unknown url db entry ∧ faults (index + 1) = none) := by
    rintro ⟨⟨identity', hnames', hnone⟩, -⟩
    rw [hnames.unique hnames', hfound] at hnone
    cases hnone
  obtain ⟨hsame, hok⟩ := aclTarget_eq_ok owner hseen hregisters
  rcases aclTarget_cases app url faults db owner index entry targets with ⟨error, heq, hstops⟩ |
    ⟨identity', resolved', db', hnames', -, -, hresolve, heq⟩
  · rcases hstops identity hnames hfault with hmem | ⟨error, herror⟩
    · obtain ⟨resolved', hsome, hold⟩ := hseen identity hmem
      rw [hfound] at hsome
      cases hsome
      exact absurd (List.mem_cons_of_mem _ hold) htaken
    · rw [hfound] at herror
      cases herror
  · obtain rfl := hnames.unique hnames'
    rw [resolveOrCreateIn_of_some hfound] at hresolve
    cases hresolve
    rw [List.mem_cons, not_or] at htaken
    rw [if_neg htaken.1, if_neg htaken.2] at heq
    rw [heq] at hok
    obtain ⟨hseen', -, -⟩ := hok _ rfl
    exact ⟨_, heq, hseen', rfl⟩

/-! ## The loop -/

variable (app url faults) in
theorem aclTargets_onlyRegisters (owner : PrincipalId) (index : ℕ) (entries : List NoteAclChange)
    (targets : AclTargets) (db : Database) :
    db.OnlyRegisters (app.aclTargets url faults owner index entries targets db).2 := by
  induction entries generalizing index targets db with
  | nil => exact .refl db
  | cons entry entries ih =>
    have hturn := aclTarget_onlyRegisters app url faults db owner index entry targets
    unfold aclTargets
    rcases hresult : app.aclTarget url faults owner index entry targets db with ⟨_ | targets', db'⟩
    · rw [hresult] at hturn
      exact hturn
    · rw [hresult] at hturn
      exact hturn.trans (ih (index + 1) targets' db')

/-- Meeting an unknown identity is what the first entry does, or the rest after a known one. -/
theorem meetsUnknown_cons {taken : List PrincipalId} :
    app.MeetsUnknown url faults db index taken (entry :: entries) ↔ faults (index + 1) = none ∧
      (app.Unknown url db entry ∨ ∃ principal, app.Known url db entry principal ∧
        principal ∉ taken ∧
        app.MeetsUnknown url faults db (index + 1) (principal :: taken) entries) := by
  constructor
  · rintro ⟨known, unknown, rest, principals, hentries, hknown, hnodup, htaken, hunknown, hfaults⟩
    refine ⟨hfaults 0 (Nat.zero_le _), ?_⟩
    cases known with
    | nil =>
      cases hentries
      exact Or.inl hunknown
    | cons first known =>
      cases hentries
      cases hknown with
      | @cons _ principal _ principals hfirst hknown =>
        rw [List.nodup_cons] at hnodup
        refine Or.inr ⟨principal, hfirst, htaken principal List.mem_cons_self, known, unknown, rest,
          principals, rfl, hknown, hnodup.2, fun p hp hmem => ?_, hunknown, fun k hk => ?_⟩
        · rcases List.mem_cons.mp hmem with rfl | hmem
          · exact hnodup.1 hp
          · exact htaken p (List.mem_cons_of_mem _ hp) hmem
        · have := hfaults (k + 1) (by simpa using hk)
          rwa [show index + (k + 1) + 1 = index + 1 + k + 1 by omega] at this
  · rintro ⟨hfault, hunknown | ⟨principal, hfirst, hfree, known, unknown, rest, principals,
      rfl, hknown, hnodup, htaken, hunknown, hfaults⟩⟩
    · refine ⟨[], entry, entries, [], rfl, .nil, List.nodup_nil, by simp, hunknown, fun k hk => ?_⟩
      obtain rfl : k = 0 := by simpa using hk
      exact hfault
    · refine ⟨entry :: known, unknown, rest, principal :: principals, rfl, .cons hfirst hknown,
        List.nodup_cons.mpr ⟨fun hmem => htaken principal hmem List.mem_cons_self, hnodup⟩,
        fun p hp hmem => ?_, hunknown, fun k hk => ?_⟩
      · rcases List.mem_cons.mp hp with rfl | hp
        · exact hfree hmem
        · exact htaken p hp (List.mem_cons_of_mem _ hmem)
      · cases k with
        | zero => exact hfault
        | succ k =>
          have := hfaults k (by simpa using hk)
          rwa [show index + 1 + k + 1 = index + (k + 1) + 1 by omega] at this

theorem MeetsUnknown.congr {taken taken' : List PrincipalId} (h : ∀ p, p ∈ taken ↔ p ∈ taken')
    (hmeets : app.MeetsUnknown url faults db index taken entries) :
    app.MeetsUnknown url faults db index taken' entries := by
  obtain ⟨known, unknown, rest, principals, hentries, hknown, hnodup, htaken, hrest⟩ := hmeets
  exact ⟨known, unknown, rest, principals, hentries, hknown, hnodup,
    fun p hp hmem => htaken p hp ((h p).mpr hmem), hrest⟩

variable (app url faults db) in
/-- The loop registers an identity exactly when it meets an unknown one. -/
theorem aclTargets_registers (owner : PrincipalId) (index : ℕ) (entries : List NoteAclChange)
    (targets : AclTargets) (hseen : Seen db targets) :
    (app.MeetsUnknown url faults db index (owner :: targets.principals) entries →
      db.principals.rows.length <
        (app.aclTargets url faults owner index entries targets db).2.principals.rows.length) ∧
    (¬app.MeetsUnknown url faults db index (owner :: targets.principals) entries →
      (app.aclTargets url faults owner index entries targets db).2 = db) := by
  induction entries generalizing index targets with
  | nil =>
    refine ⟨?_, fun _ => rfl⟩
    rintro ⟨known, unknown, rest, principals, hentries, -⟩
    simp at hentries
  | cons entry entries ih =>
    rw [meetsUnknown_cons]
    unfold aclTargets
    by_cases hregisters : app.Unknown url db entry ∧ faults (index + 1) = none
    · refine ⟨fun _ => ?_, fun hnot => absurd ⟨hregisters.2, Or.inl hregisters.1⟩ hnot⟩
      have hgrows := aclTarget_of_unknown owner hseen hregisters.1 hregisters.2
      rcases hresult : app.aclTarget url faults owner index entry targets db with
        ⟨_ | targets', db'⟩
      · rw [hresult] at hgrows
        exact hgrows
      · rw [hresult] at hgrows
        have hrest :=
          aclTargets_onlyRegisters app url faults owner (index + 1) entries targets' db'
        exact hgrows.trans_le hrest.principals
    · obtain ⟨hsame, hok⟩ := aclTarget_eq_ok owner hseen hregisters
      constructor
      · rintro ⟨hfault, hunknown | ⟨principal, hknown, htaken, hmeets⟩⟩
        · exact absurd ⟨hunknown, hfault⟩ hregisters
        obtain ⟨targets', heq, hseen', hprincipals⟩ :=
          aclTarget_of_known hseen hknown htaken hfault
        rw [heq]
        refine (ih (index + 1) targets' hseen').1 (hmeets.congr fun p => ?_)
        rw [hprincipals]
        simp only [List.mem_cons]
        exact or_left_comm
      · intro hnot
        rcases hresult : app.aclTarget url faults owner index entry targets db with
          ⟨_ | targets', db'⟩
        · rw [hresult] at hsame
          exact hsame
        · rw [hresult] at hsame hok
          obtain ⟨hseen', hfault, principal, hknown, htaken, hprincipals⟩ := hok targets' rfl
          obtain rfl : db' = db := hsame
          refine (ih (index + 1) targets' hseen').2 fun hmeets =>
            hnot ⟨hfault, Or.inr ⟨principal, hknown, htaken, ?_⟩⟩
          refine hmeets.congr fun p => ?_
          rw [hprincipals]
          simp only [List.mem_cons]
          exact or_left_comm

end NoteApplication

/-! ## The request -/

/-- A failed request leaves the access state as it was exactly when it registers no target. In
either case it has written no table but those of the principals. -/
theorem acl_replacement_atomic_iff (app : NoteApplication) (url : UrlLibrary)
    (faults : ℕ → Option StorageError) (db : Database) (actor : Actor) (noteId : NoteId)
    (entries : List NoteAclChange) (expectedRevision : ℕ) (now : ℤ) {error : NoteUseCaseError}
    {db' : Database} (h : app.replaceNoteAcl url faults db actor noteId entries expectedRevision
      now = (.error error, db')) :
    (db.AclStateUnchanged db' ↔ ¬app.RegistersTarget url faults db actor noteId entries) ∧
      ∃ principals identities,
        db' = { db with principals := principals, principalIdentities := identities } := by
  have hstopped : db' = db → (¬app.RegistersTarget url faults db actor noteId entries) →
      (db.AclStateUnchanged db' ↔ ¬app.RegistersTarget url faults db actor noteId entries) ∧
        ∃ principals identities,
          db' = { db with principals := principals, principalIdentities := identities } := by
    rintro rfl hnot
    exact ⟨⟨fun _ => hnot, fun _ => .refl db'⟩, _, _, rfl⟩
  unfold NoteApplication.replaceNoteAcl storeCall at h
  cases hfault : faults 0 with
  | some failure =>
    rw [hfault] at h
    cases h
    refine hstopped rfl ?_
    rintro ⟨-, -, hnone, -⟩
    rw [hfault] at hnone
    cases hnone
  | none =>
    rw [hfault] at h
    cases haccessible : db.accessibleNote actor noteId with
    | error failure =>
      rw [haccessible] at h
      cases h
      refine hstopped rfl ?_
      rintro ⟨accessible, hok, -⟩
      rw [haccessible] at hok
      cases hok
    | ok found =>
      rw [haccessible] at h
      cases found with
      | none =>
        cases h
        refine hstopped rfl ?_
        rintro ⟨accessible, hok, -⟩
        rw [haccessible] at hok
        cases hok
      | some accessible =>
        have hregisters : app.RegistersTarget url faults db actor noteId entries ↔
            app.MeetsUnknown url faults db 0 [accessible.note.owner.id] entries := by
          refine ⟨?_, fun hmeets => ⟨accessible, haccessible, hfault, hmeets⟩⟩
          rintro ⟨accessible', haccessible', -, hmeets⟩
          rw [haccessible] at haccessible'
          cases haccessible'
          exact hmeets
        set loop := app.aclTargets url faults accessible.note.owner.id 0 entries ⟨[], [], []⟩ db
          with hloop
        -- Whether the loop or the final transaction fails, the database is that of the loop.
        have hdb : db' = loop.2 := by
          dsimp only [Except.mapError] at h
          rw [← hloop] at h
          rcases hresult : loop with ⟨failure | targets, looped⟩
          · rw [hresult] at h
            cases h
            rfl
          · rw [hresult] at h
            dsimp only at h
            split at h
            · cases h
              rfl
            · cases h
        subst hdb
        obtain ⟨hmeets, hnot⟩ := NoteApplication.aclTargets_registers app url faults db
          accessible.note.owner.id 0 entries ⟨[], [], []⟩ fun _ hmem => by cases hmem
        have honly := NoteApplication.aclTargets_onlyRegisters app url faults
          accessible.note.owner.id 0 entries ⟨[], [], []⟩ db
        rw [hregisters]
        refine ⟨⟨fun hsame hunknown => ?_, fun hknown => ?_⟩, honly.others⟩
        · have hlength := hmeets hunknown
          rw [hsame.principals] at hlength
          exact Nat.lt_irrefl _ hlength
        · rw [hnot hknown]
          exact .refl db

/-! ## A reader names a stranger -/

/-- A URL parser for the issuer of the runs. -/
def sampleUrls : UrlLibrary where
  parse issuer :=
    if issuer = "https://id.example.test" then some ⟨"https", false, "", none, none, none⟩ else none

/-- Alice has shared a note with Bob, who may read it. -/
def sharedNote : Database :=
  let created := twoPrincipals.commit
    ((NoteCommand.create alice ⟨7⟩ ⟨"A", "= A", []⟩ ⟨[], [], []⟩ 100 .web).exec twoPrincipals)
  created.commit ((NoteCommand.replaceAcl alice ⟨7⟩ [⟨bob.principal, .read⟩] 1 200).exec created)

/-- The identity of somebody who never logged in. -/
def carolEntry : NoteAclChange := ⟨"https://id.example.test", "carol", .read⟩

/-- Bob, who does not own the note, replaces its access list. -/
def bobsRequest (entries : List NoteAclChange) : Except NoteUseCaseError Note × Database :=
  sampleApplication.replaceNoteAcl sampleUrls (fun _ => none) sharedNote bob ⟨7⟩ entries 2 300

/-- He is refused, and there is a third principal. -/
theorem bobsRequest_carolEntry :
    bobsRequest [carolEntry] = (.error .notFound, (bobsRequest [carolEntry]).2) ∧
      (bobsRequest [carolEntry]).2.principals.rows.length = 3 ∧
      sharedNote.principals.rows.length = 2 := by
  have hanswer : (match (bobsRequest [carolEntry]).1 with
      | .error e => decide (e = .notFound)
      | .ok _ => false) = true := by decide +kernel
  refine ⟨Prod.ext ?_ rfl, by decide +kernel, by decide +kernel⟩
  split at hanswer
  · next e heq => rw [heq, of_decide_eq_true hanswer]
  · cases hanswer

/-- The refused request has changed the access state. -/
theorem acl_replacement_not_atomic : ∃ db', bobsRequest [carolEntry] = (.error .notFound, db') ∧
    ¬sharedNote.AclStateUnchanged db' := by
  obtain ⟨hanswer, hthree, htwo⟩ := bobsRequest_carolEntry
  refine ⟨_, hanswer, fun hsame => ?_⟩
  rw [hsame.principals, htwo] at hthree
  omega

/-- It had met an unknown identity, and it has not written the note. -/
theorem acl_replacement_atomic_iff_carolEntry :
    sampleApplication.RegistersTarget sampleUrls (fun _ => none) sharedNote bob ⟨7⟩ [carolEntry] ∧
      (bobsRequest [carolEntry]).2.notes = sharedNote.notes := by
  obtain ⟨hanswer, hthree, htwo⟩ := bobsRequest_carolEntry
  obtain ⟨hiff, principals, identities, heq⟩ :=
    acl_replacement_atomic_iff sampleApplication sampleUrls (fun _ => none) sharedNote bob ⟨7⟩
      [carolEntry] 2 300 hanswer
  refine ⟨not_not.mp fun hnot => ?_, by rw [heq]⟩
  rw [(hiff.mpr hnot).principals, htwo] at hthree
  omega

end Marginalis
