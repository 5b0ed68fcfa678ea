import Marginalis.TokenFamily
import Marginalis.Cleanup

/-!
# Web sessions and login attempts

A session is valid while it is not revoked and now is before two times, the idle and the
absolute expiry. A look-up checks and extends it in one statement, up to the absolute expiry,
and what it finds expired it revokes. A login attempt is stored under the digest of its
state and deleted by the statement that reads it.

Nothing is asked of the readings of the clock : a transaction may read an earlier time than
the one before it.
-/

namespace Marginalis

/-! ## Records -/

/-- A new session, with the digests the shared crate has computed. -/
structure WebSessionRecord where
  sessionDigest : Digest
  csrfDigest : Digest
  principal : Identity
  idleExpiresAt : ℤ
  absoluteExpiresAt : ℤ
  deriving DecidableEq, Repr

/-- What a look-up answers. -/
structure AuthenticatedWebSession where
  principal : Identity
  idleExpiresAt : ℤ
  absoluteExpiresAt : ℤ
  deriving DecidableEq, Repr

structure OidcLoginAttempt where
  state : String
  nonce : String
  pkceVerifier : String
  expiresAt : ℤ
  deriving DecidableEq, Repr

def maxPendingOidcLoginAttempts : ℕ := 1024

/-- The session still authenticates. -/
def SessionRow.Active (now : ℤ) (row : SessionRow) : Prop :=
  row.revokedAt = none ∧ now < row.idleExpiresAt ∧ now < row.absoluteExpiresAt

instance (now : ℤ) : DecidablePred (SessionRow.Active now) := fun row => by
  unfold SessionRow.Active
  infer_instance

/-- The row of a login attempt. -/
def OidcLoginAttempt.row (hashToken : String → Digest) (attempt : OidcLoginAttempt) :
    LoginAttemptRow :=
  ⟨hashToken attempt.state, attempt.nonce, attempt.pkceVerifier, attempt.expiresAt⟩

namespace Database

variable (hashToken : String → Digest) (db : Database)

/-- The sessions of the database are replaced. -/
def withSessions (sessions : Table SessionRow) : Database :=
  { db with oauth := { db.oauth with webSessions := sessions } }

/-- The login attempts of the database are replaced. -/
def withLoginAttempts (attempts : Table LoginAttemptRow) : Database :=
  { db with oauth := { db.oauth with oidcLoginAttempts := attempts } }

/-! ## Sessions -/

/-- The second transaction of `issue`, after the identity of the record was resolved. -/
def insertSession (record : WebSessionRecord) (actor : Actor) (identityId : ℕ) (now : ℤ) :
    Except SqliteStoreError Database :=
  if ∃ row ∈ db.principalIdentities,
      row.identityId = identityId ∧ row.principalId = actor.principalId then
    match db.oauth.webSessions.insert?
      { sessionIdHash := record.sessionDigest
        csrfTokenHash := record.csrfDigest
        principalId := actor.principalId
        authenticatedIdentityId := identityId
        issuedAt := now
        lastSeenAt := now
        idleExpiresAt := record.idleExpiresAt
        absoluteExpiresAt := record.absoluteExpiresAt
        revokedAt := none } with
    | none => .error .database
    | some sessions => .ok (db.withSessions sessions)
  else .error .database

/-- `lookup_and_extend`, with the idle window in milliseconds. -/
def lookupAndExtend (sessionDigest : Digest) (now : ℤ) (idleWindow : ℕ) :
    Except SqliteStoreError (Option AuthenticatedWebSession × Database) :=
  let nextIdleExpiresAt := saturatingAdd now (min (idleWindow : ℤ) i64Max)
  match (db.oauth.webSessions.find sessionDigest).filter fun row => row.Active now with
  | some row => do
    let idleExpiresAt := min row.absoluteExpiresAt nextIdleExpiresAt
    let principal ← db.principalFromIdentityId row.authenticatedIdentityId
    return (some ⟨principal, idleExpiresAt, row.absoluteExpiresAt⟩,
      db.withSessions (db.oauth.webSessions.upsert
        { row with lastSeenAt := now, idleExpiresAt := idleExpiresAt }))
  | none =>
    .ok (none, db.withSessions (db.oauth.webSessions.modify
      (fun row => row.sessionIdHash = sessionDigest ∧ row.revokedAt = none ∧
        (row.idleExpiresAt ≤ now ∨ row.absoluteExpiresAt ≤ now))
      fun row => { row with revokedAt := some now }))

/-- `revoke`. -/
def revokeSession (sessionDigest : Digest) (now : ℤ) : Database :=
  db.withSessions (db.oauth.webSessions.modify
    (fun row => row.sessionIdHash = sessionDigest ∧ row.revokedAt = none)
    fun row => { row with revokedAt := some now })

/-! ## Login attempts -/

/-- `OidcLoginAttemptStore::issue`. What it has deleted comes back when it fails. -/
def issueLoginAttempt (attempt : OidcLoginAttempt) (now : ℤ) : Except SqliteStoreError Database :=
  let attempts := db.oauth.oidcLoginAttempts.deleteWhere (OAuthTables.purgedLoginAttempt now)
  if maxPendingOidcLoginAttempts ≤ attempts.rows.length then .error .database
  else
    match attempts.insert? (attempt.row hashToken) with
    | none => .error .database
    | some attempts => .ok (db.withLoginAttempts attempts)

/-- `OidcLoginAttemptStore::consume`. The row goes, also when it has expired. -/
def consumeLoginAttempt (state : String) (now : ℤ) : Option OidcLoginAttempt × Database :=
  (((db.oauth.oidcLoginAttempts.find (hashToken state)).filter fun row => now < row.expiresAt).map
      fun row => ⟨state, row.nonce, row.pkceVerifier, row.expiresAt⟩,
    db.withLoginAttempts (db.oauth.oidcLoginAttempts.deleteWhere fun row =>
      row.stateHash = hashToken state))

end Database

/-! ## Transactions -/

/-- The transactions on sessions and login attempts, and any other one. -/
inductive SessionAction
  | insert (record : WebSessionRecord) (actor : Actor) (identityId : ℕ)
  | lookup (sessionDigest : Digest) (idleWindow : ℕ)
  | revoke (sessionDigest : Digest)
  | issueAttempt (attempt : OidcLoginAttempt)
  | consume (state : String)
  | purge (unusedClientCutoff : ℤ)
  /-- A transaction that leaves sessions and login attempts alone. -/
  | elsewhere (db : Database)

/-- A database with the digests of all sessions that were ever issued. -/
structure SessionSystem where
  db : Database
  drawn : List Digest

namespace SessionSystem

variable (hashToken : String → Digest) (sys : SessionSystem)

def start : SessionSystem := ⟨Database.empty, []⟩

/-- The sessions of the system. -/
def sessions : Table SessionRow := sys.db.oauth.webSessions

/-- The login attempts of the system. -/
def attempts : Table LoginAttemptRow := sys.db.oauth.oidcLoginAttempts

/-- The database after a transaction. -/
def nextDb (now : ℤ) : SessionAction → Database
  | .insert record actor identityId =>
    sys.db.commit (sys.db.insertSession record actor identityId now)
  | .lookup sessionDigest idleWindow =>
    sys.db.commit ((sys.db.lookupAndExtend sessionDigest now idleWindow).map Prod.snd)
  | .revoke sessionDigest => sys.db.revokeSession sessionDigest now
  | .issueAttempt attempt => sys.db.commit (sys.db.issueLoginAttempt hashToken attempt now)
  | .consume state => (sys.db.consumeLoginAttempt hashToken state now).2
  | .purge unusedClientCutoff => (sys.db.purgeExpiredOperationalState now unusedClientCutoff).2
  | .elsewhere db => db

/-- The system after a transaction. -/
def next (label : ℤ × SessionAction) : SessionSystem :=
  ⟨sys.nextDb hashToken label.1 label.2,
    match label.2 with
    | .insert record _ _ => record.sessionDigest :: sys.drawn
    | _ => sys.drawn⟩

/-- What the callers see to : the digest of a new session is fresh and its absolute expiry an
`i64`, and the idle window is positive. -/
def Allowed : SessionAction → Prop
  | .insert record _ _ => record.sessionDigest ∉ sys.drawn ∧ record.absoluteExpiresAt ≤ i64Max
  | .lookup _ idleWindow => 0 < idleWindow
  | .elsewhere db => db.oauth.webSessions = sys.sessions ∧
      db.oauth.oidcLoginAttempts = sys.attempts
  | _ => True

/-- One transaction. -/
def Step (hashToken : String → Digest) (sys : SessionSystem) (label : ℤ × SessionAction)
    (sys' : SessionSystem) : Prop :=
  sys.Allowed label.2 ∧ sys' = sys.next hashToken label

end SessionSystem

/-! ## What a session keeps -/

/-- A row of a session and a later one : the absolute expiry is the same, and a revocation is not
taken back. -/
structure SessionRow.Ages (row row' : SessionRow) : Prop where
  sessionIdHash : row'.sessionIdHash = row.sessionIdHash
  absoluteExpiresAt : row'.absoluteExpiresAt = row.absoluteExpiresAt
  revoked : row.revokedAt ≠ none → row'.revokedAt ≠ none

theorem SessionRow.Ages.refl (row : SessionRow) : row.Ages row := ⟨rfl, rfl, fun h => h⟩

namespace Database

variable {hashToken : String → Digest} {db db' : Database} {sessionDigest : Digest} {now : ℤ}
  {idleWindow : ℕ}

/-- What a look-up that answers has found and written. -/
theorem lookupAndExtend_eq_some {session : AuthenticatedWebSession}
    (h : db.lookupAndExtend sessionDigest now idleWindow = .ok (some session, db')) :
    ∃ row ∈ db.oauth.webSessions, row.sessionIdHash = sessionDigest ∧ row.Active now ∧
      session.idleExpiresAt =
        min row.absoluteExpiresAt (saturatingAdd now (min (idleWindow : ℤ) i64Max)) ∧
      session.absoluteExpiresAt = row.absoluteExpiresAt ∧
      db' = db.withSessions (db.oauth.webSessions.upsert
        { row with lastSeenAt := now, idleExpiresAt := session.idleExpiresAt }) := by
  unfold lookupAndExtend at h
  dsimp only at h
  split at h
  · next row hrow =>
    obtain ⟨hfind, hactive⟩ := Option.filter_eq_some_iff.mp hrow
    obtain ⟨principal, -, h⟩ := Except.bind_eq_ok.mp h
    cases h
    exact ⟨row, Table.mem_of_find hfind, Table.key_of_find hfind, by simpa using hactive, rfl, rfl,
      rfl⟩
  · cases h

/-- A look-up without an answer leaves every session of the digest revoked. -/
theorem lookupAndExtend_eq_none
    (h : db.lookupAndExtend sessionDigest now idleWindow = .ok (none, db')) :
    (∀ row ∈ db.oauth.webSessions, row.sessionIdHash = sessionDigest → ¬row.Active now) ∧
      db' = db.withSessions (db.oauth.webSessions.modify
        (fun row => row.sessionIdHash = sessionDigest ∧ row.revokedAt = none ∧
          (row.idleExpiresAt ≤ now ∨ row.absoluteExpiresAt ≤ now))
        fun row => { row with revokedAt := some now }) := by
  unfold lookupAndExtend at h
  dsimp only at h
  split at h
  · next row hrow =>
    obtain ⟨principal, -, h⟩ := Except.bind_eq_ok.mp h
    cases h
  · next hnone =>
    cases h
    refine ⟨?_, rfl⟩
    rintro row hrow rfl
    have hfind : db.oauth.webSessions.find row.sessionIdHash = some row := Table.find_of_mem hrow
    rw [hfind] at hnone
    simpa using hnone

theorem mem_revoked {p : SessionRow → Bool} {row' : SessionRow}
    (h : row' ∈ db.oauth.webSessions.modify p fun row => { row with revokedAt := some now }) :
    ∃ row ∈ db.oauth.webSessions,
      row' = if p row then { row with revokedAt := some now } else row :=
  Table.mem_modify.mp h

theorem sessions_of_modify {p : SessionRow → Bool} {row' : SessionRow}
    (h : row' ∈ db.oauth.webSessions.modify p fun row => { row with revokedAt := some now }) :
    ∃ row ∈ db.oauth.webSessions, row.Ages row' := by
  obtain ⟨row, hrow, rfl⟩ := mem_revoked h
  refine ⟨row, hrow, ?_⟩
  split_ifs
  · exact ⟨rfl, rfl, fun _ => by simp⟩
  · exact .refl row

theorem sessions_of_lookup {answer : Option AuthenticatedWebSession}
    (h : db.lookupAndExtend sessionDigest now idleWindow = .ok (answer, db')) :
    ∀ row' ∈ db'.oauth.webSessions, ∃ row ∈ db.oauth.webSessions, row.Ages row' := by
  intro row' hrow'
  cases answer with
  | none =>
    obtain ⟨-, rfl⟩ := lookupAndExtend_eq_none h
    exact sessions_of_modify hrow'
  | some session =>
    obtain ⟨row, hrow, -, -, -, -, rfl⟩ := lookupAndExtend_eq_some h
    rcases Table.mem_upsert.mp hrow' with rfl | ⟨hold, -⟩
    · exact ⟨row, hrow, rfl, rfl, fun h => h⟩
    · exact ⟨row', hold, .refl row'⟩

theorem insertSession_eq_ok {record : WebSessionRecord} {actor : Actor} {identityId : ℕ}
    (h : db.insertSession record actor identityId now = .ok db') :
    db'.oauth.oidcLoginAttempts = db.oauth.oidcLoginAttempts ∧
      ∀ row' ∈ db'.oauth.webSessions, row' ∈ db.oauth.webSessions ∨
        row'.sessionIdHash = record.sessionDigest ∧
          row'.absoluteExpiresAt = record.absoluteExpiresAt := by
  unfold insertSession at h
  split_ifs at h
  split at h
  · cases h
  · next sessions hinsert =>
    cases h
    refine ⟨rfl, fun row' hrow' => ?_⟩
    rcases (Table.mem_insert? hinsert).mp hrow' with hold | rfl
    · exact Or.inl hold
    · exact Or.inr ⟨rfl, rfl⟩

theorem issueLoginAttempt_eq_ok {attempt : OidcLoginAttempt}
    (h : db.issueLoginAttempt hashToken attempt now = .ok db') :
    db'.oauth.webSessions = db.oauth.webSessions ∧
      db'.oauth.oidcLoginAttempts.rows.length ≤ maxPendingOidcLoginAttempts ∧
      (∀ row ∈ db.oauth.oidcLoginAttempts, OAuthTables.purgedLoginAttempt now row = false →
        row.stateHash ≠ hashToken attempt.state) ∧
      ∀ row, row ∈ db'.oauth.oidcLoginAttempts ↔
        row ∈ db.oauth.oidcLoginAttempts ∧ OAuthTables.purgedLoginAttempt now row = false ∨
          row = attempt.row hashToken := by
  unfold issueLoginAttempt at h
  dsimp only at h
  split_ifs at h with hfull
  split at h
  · cases h
  · next attempts hinsert =>
    cases h
    obtain ⟨hfresh, hrows⟩ := Table.insert?_eq_some.mp hinsert
    refine ⟨rfl, ?_, fun row hrow hkept => ?_, fun row => ?_⟩
    · show attempts.rows.length ≤ _
      rw [hrows, List.length_append, List.length_singleton]
      omega
    · exact Table.find_eq_none.mp hfresh row (Table.mem_deleteWhere.mpr ⟨hrow, hkept⟩)
    · exact (Table.mem_insert? hinsert).trans (or_congr_left Table.mem_deleteWhere)

theorem sessions_of_purge (unusedClientCutoff : ℤ) {row' : SessionRow} :
    row' ∈ (db.purgeExpiredOperationalState now unusedClientCutoff).2.oauth.webSessions ↔
      row' ∈ db.oauth.webSessions ∧ OAuthTables.purgedSession now row' = false :=
  Table.mem_deleteWhere

end Database

namespace SessionSystem

variable {hashToken : String → Digest} {sys sys' : SessionSystem} {label : ℤ × SessionAction}
  {moves : List (Move SessionSystem (ℤ × SessionAction))}

/-- A step keeps what is there of a session, and adds the one it inserts. -/
theorem Step.sessions (hstep : Step hashToken sys label sys') : ∀ row' ∈ sys'.sessions,
    (∃ row ∈ sys.sessions, row.Ages row') ∨
      ∃ record actor identityId, label.2 = .insert record actor identityId ∧
        row'.sessionIdHash = record.sessionDigest ∧
          row'.absoluteExpiresAt = record.absoluteExpiresAt := by
  obtain ⟨hallowed, rfl⟩ := hstep
  obtain ⟨now, action⟩ := label
  intro row' hrow'
  change row' ∈ (sys.nextDb hashToken now action).oauth.webSessions at hrow'
  have hsame : row' ∈ sys.sessions → ∃ row ∈ sys.sessions, row.Ages row' :=
    fun hrow => ⟨row', hrow, .refl row'⟩
  cases action with
  | insert record actor identityId =>
    dsimp only [nextDb] at hrow'
    cases hinsert : sys.db.insertSession record actor identityId now with
    | error e =>
      rw [hinsert] at hrow'
      exact Or.inl (hsame hrow')
    | ok db =>
      rw [hinsert] at hrow'
      rcases (Database.insertSession_eq_ok hinsert).2 row' hrow' with hold | hnew
      · exact Or.inl (hsame hold)
      · exact Or.inr ⟨record, actor, identityId, rfl, hnew⟩
  | lookup sessionDigest idleWindow =>
    left
    dsimp only [nextDb] at hrow'
    cases hlookup : sys.db.lookupAndExtend sessionDigest now idleWindow with
    | error e =>
      rw [hlookup] at hrow'
      exact hsame hrow'
    | ok result =>
      rw [hlookup] at hrow'
      exact Database.sessions_of_lookup hlookup row' hrow'
  | revoke sessionDigest => exact Or.inl (Database.sessions_of_modify hrow')
  | issueAttempt attempt =>
    left
    dsimp only [nextDb] at hrow'
    cases hissue : sys.db.issueLoginAttempt hashToken attempt now with
    | error e =>
      rw [hissue] at hrow'
      exact hsame hrow'
    | ok db =>
      rw [hissue] at hrow'
      change row' ∈ db.oauth.webSessions at hrow'
      rw [(Database.issueLoginAttempt_eq_ok hissue).1] at hrow'
      exact hsame hrow'
  | consume state => exact Or.inl (hsame hrow')
  | purge unusedClientCutoff =>
    exact Or.inl (hsame ((Database.sessions_of_purge unusedClientCutoff).mp hrow').1)
  | elsewhere db =>
    have hdb : db.oauth.webSessions = sys.sessions := hallowed.1
    change row' ∈ db.oauth.webSessions at hrow'
    rw [hdb] at hrow'
    exact Or.inl (hsame hrow')

theorem Step.drawn (hstep : Step hashToken sys label sys') : sys.drawn ⊆ sys'.drawn := by
  obtain ⟨-, rfl⟩ := hstep
  unfold next
  intro digest hdigest
  split
  · exact List.mem_cons_of_mem _ hdigest
  · exact hdigest

/-- A property that ages with a session holds of the sessions with a drawn digest for good. -/
theorem Step.drawn_sessions {Q : SessionRow → Prop}
    (hages : ∀ row row' : SessionRow, row.Ages row' → Q row → Q row') {digest : Digest}
    (hstep : Step hashToken sys label sys') (hdrawn : digest ∈ sys.drawn)
    (hsys : ∀ row ∈ sys.sessions, row.sessionIdHash = digest → Q row) :
    ∀ row ∈ sys'.sessions, row.sessionIdHash = digest → Q row := by
  intro row' hrow' hdigest
  rcases hstep.sessions row' hrow' with
    ⟨row, hrow, hage⟩ | ⟨record, actor, identityId, hlabel, hhash, -⟩
  · exact hages row row' hage (hsys row hrow (hage.sessionIdHash.symm.trans hdigest))
  · obtain ⟨hallowed, -⟩ := hstep
    rw [hlabel] at hallowed
    exact absurd (hhash.symm.trans hdigest ▸ hdrawn) hallowed.1

theorem drawn_sessions_of_run {Q : SessionRow → Prop}
    (hages : ∀ row row' : SessionRow, row.Ages row' → Q row → Q row') {digest : Digest}
    (hrun : Run (Step hashToken) sys moves sys') (hdrawn : digest ∈ sys.drawn)
    (hsys : ∀ row ∈ sys.sessions, row.sessionIdHash = digest → Q row) :
    ∀ row ∈ sys'.sessions, row.sessionIdHash = digest → Q row := by
  have hinv := hrun.invariant (P := fun t => digest ∈ t.drawn ∧
    ∀ row ∈ t.sessions, row.sessionIdHash = digest → Q row) ?_ ⟨hdrawn, hsys⟩
  · exact hinv.2
  · rintro s label t ⟨hs, hrows⟩ hstep
    exact ⟨hstep.drawn hs, hstep.drawn_sessions hages hs hrows⟩

/-! ## What a login attempt keeps -/

/-- A step deletes login attempts, or it is the issue of one. -/
theorem Step.attempts (hstep : Step hashToken sys label sys') :
    sys'.attempts.rows.Sublist sys.attempts.rows ∨
      ∃ attempt, label.2 = .issueAttempt attempt ∧
        sys.db.issueLoginAttempt hashToken attempt label.1 = .ok sys'.db := by
  obtain ⟨hallowed, rfl⟩ := hstep
  obtain ⟨now, action⟩ := label
  change (sys.nextDb hashToken now action).oauth.oidcLoginAttempts.rows.Sublist _ ∨ _
  cases action with
  | insert record actor identityId =>
    left
    dsimp only [nextDb]
    cases hinsert : sys.db.insertSession record actor identityId now with
    | error e => exact List.Sublist.refl _
    | ok db =>
      show db.oauth.oidcLoginAttempts.rows.Sublist _
      rw [(Database.insertSession_eq_ok hinsert).1]
      exact List.Sublist.refl _
  | lookup sessionDigest idleWindow =>
    left
    dsimp only [nextDb]
    cases hlookup : sys.db.lookupAndExtend sessionDigest now idleWindow with
    | error e => exact List.Sublist.refl _
    | ok result =>
      obtain ⟨answer, db⟩ := result
      cases answer with
      | none =>
        obtain ⟨-, rfl⟩ := Database.lookupAndExtend_eq_none hlookup
        exact List.Sublist.refl _
      | some session =>
        obtain ⟨row, -, -, -, -, -, rfl⟩ := Database.lookupAndExtend_eq_some hlookup
        exact List.Sublist.refl _
  | revoke sessionDigest => exact Or.inl (List.Sublist.refl _)
  | issueAttempt attempt =>
    cases hissue : sys.db.issueLoginAttempt hashToken attempt now with
    | error e =>
      left
      dsimp only [nextDb]
      rw [hissue]
      exact List.Sublist.refl _
    | ok db =>
      refine Or.inr ⟨attempt, rfl, hissue.trans ?_⟩
      dsimp only [next, nextDb]
      rw [hissue]
      rfl
  | consume state => exact Or.inl List.filter_sublist
  | purge unusedClientCutoff => exact Or.inl List.filter_sublist
  | elsewhere db =>
    left
    have hdb : db.oauth.oidcLoginAttempts = sys.attempts := hallowed.2
    show db.oauth.oidcLoginAttempts.rows.Sublist _
    rw [hdb]

/-- The login attempt a move has stored. -/
def issued (hashToken : String → Digest) (m : Move SessionSystem (ℤ × SessionAction)) :
    Option OidcLoginAttempt :=
  match m.label.2 with
  | .issueAttempt attempt =>
    (m.pre.db.issueLoginAttempt hashToken attempt m.label.1).toOption.map fun _ => attempt
  | _ => none

/-- The login attempt a move has consumed. -/
def consumed (hashToken : String → Digest) (m : Move SessionSystem (ℤ × SessionAction)) :
    Option OidcLoginAttempt :=
  match m.label.2 with
  | .consume state => (m.pre.db.consumeLoginAttempt hashToken state m.label.1).1
  | _ => none

/-- The attempt has this digest of its state. -/
def ofState (hashToken : String → Digest) (digest : Digest) (attempt : OidcLoginAttempt) : Bool :=
  hashToken attempt.state = digest

/-- One when an attempt with the digest is stored. -/
def stored (sys : SessionSystem) (digest : Digest) : ℕ :=
  if ∃ row ∈ sys.attempts, row.stateHash = digest then 1 else 0

theorem stored_le_one (sys : SessionSystem) (digest : Digest) : sys.stored digest ≤ 1 := by
  unfold stored
  split_ifs <;> omega

theorem stored_mono (h : ∀ row ∈ sys'.attempts, row ∈ sys.attempts) (digest : Digest) :
    sys'.stored digest ≤ sys.stored digest := by
  unfold stored
  split_ifs with h' hsys
  · omega
  · obtain ⟨row, hrow, hdigest⟩ := h'
    exact absurd ⟨row, h row hrow, hdigest⟩ hsys
  · omega
  · omega

theorem stored_eq_one {row : LoginAttemptRow} (h : row ∈ sys.attempts) :
    sys.stored row.stateHash = 1 :=
  if_pos ⟨row, h, rfl⟩

theorem consumed_eq_some {m : Move SessionSystem (ℤ × SessionAction)} {attempt : OidcLoginAttempt}
    (hstep : Step hashToken m.pre m.label m.post) (h : consumed hashToken m = some attempt) :
    m.label.1 < attempt.expiresAt ∧ attempt.row hashToken ∈ m.pre.attempts ∧
      m.post.stored (hashToken attempt.state) = 0 := by
  obtain ⟨-, hpost⟩ := hstep
  unfold consumed at h
  split at h
  · next state hlabel =>
    obtain ⟨row, hrow, rfl⟩ := Option.map_eq_some_iff.mp h
    obtain ⟨hfind, hexpires⟩ := Option.filter_eq_some_iff.mp hrow
    have hkey : row.stateHash = hashToken state := Table.key_of_find hfind
    refine ⟨by simpa using hexpires, ?_, ?_⟩
    · show (⟨hashToken state, row.nonce, row.pkceVerifier, row.expiresAt⟩ : LoginAttemptRow) ∈ _
      rw [← hkey]
      exact Table.mem_of_find hfind
    · refine if_neg ?_
      rintro ⟨row', hrow', hdigest⟩
      rw [hpost] at hrow'
      unfold attempts next nextDb at hrow'
      rw [hlabel] at hrow'
      have hkept := (Table.mem_deleteWhere.mp hrow').2
      simp only [decide_eq_false_iff_not] at hkept
      exact hkept hdigest
  · cases h

/-- A move stores an attempt only when it issues one. -/
theorem Step.stored_le (digest : Digest) {m : Move SessionSystem (ℤ × SessionAction)}
    (hstep : Step hashToken m.pre m.label m.post) :
    m.post.stored digest ≤
      m.pre.stored digest + ((issued hashToken m).any (ofState hashToken digest)).toNat := by
  rcases hstep.attempts with hsub | ⟨attempt, hlabel, hissue⟩
  · have hmono := stored_mono (fun row hrow => hsub.subset hrow) digest
    omega
  have hissued : issued hashToken m = some attempt := by
    unfold issued
    rw [hlabel]
    simp [hissue, Except.toOption]
  by_cases hdigest : hashToken attempt.state = digest
  · have hany : (issued hashToken m).any (ofState hashToken digest) = true := by
      simp [hissued, ofState, hdigest]
    have hone := m.post.stored_le_one digest
    rw [hany, Bool.toNat_true]
    omega
  · have hmono : m.post.stored digest ≤ m.pre.stored digest := by
      unfold stored
      split_ifs with hpost hpre
      · omega
      · obtain ⟨row, hrow, hhash⟩ := hpost
        rcases ((Database.issueLoginAttempt_eq_ok hissue).2.2.2 row).mp hrow with ⟨hold, -⟩ | rfl
        · exact absurd ⟨row, hold, hhash⟩ hpre
        · exact absurd hhash hdigest
      · omega
      · omega
    omega

/-- A move takes a stored attempt for the one it consumes. -/
theorem Step.stored (digest : Digest) {m : Move SessionSystem (ℤ × SessionAction)}
    (hstep : Step hashToken m.pre m.label m.post) :
    ((consumed hashToken m).any (ofState hashToken digest)).toNat + m.post.stored digest ≤
      m.pre.stored digest + ((issued hashToken m).any (ofState hashToken digest)).toNat := by
  have hle := hstep.stored_le digest
  cases hconsumed : consumed hashToken m with
  | none =>
    rw [Option.any_none, Bool.toNat_false]
    omega
  | some attempt =>
    obtain ⟨-, hrow, hpost⟩ := consumed_eq_some hstep hconsumed
    by_cases hdigest : hashToken attempt.state = digest
    · have hpre : m.pre.stored digest = 1 := hdigest ▸ stored_eq_one hrow
      have hone := Bool.toNat_le (ofState hashToken digest attempt)
      rw [hdigest] at hpost
      rw [Option.any_some, hpost, hpre]
      omega
    · have hany : ofState hashToken digest attempt = false := decide_eq_false hdigest
      rw [Option.any_some, hany, Bool.toNat_false]
      omega

theorem stored_of_run (digest : Digest) (hrun : Run (Step hashToken) sys moves sys') :
    moves.countP (fun m => (consumed hashToken m).any (ofState hashToken digest)) +
        sys'.stored digest ≤
      sys.stored digest +
        moves.countP fun m => (issued hashToken m).any (ofState hashToken digest) := by
  induction hrun with
  | nil => simp
  | @snoc t u moves label hrun hstep ih =>
    have hlast := Step.stored digest (m := ⟨t, label, u⟩) hstep
    dsimp only at hlast
    simp only [List.countP_append, List.countP_singleton]
    have htoNat : ∀ b : Bool, (if b = true then 1 else 0) = b.toNat := by decide
    rw [htoNat, htoNat]
    omega

theorem Step.pending (hstep : Step hashToken sys label sys')
    (hsys : sys.attempts.rows.length ≤ maxPendingOidcLoginAttempts) :
    sys'.attempts.rows.length ≤ maxPendingOidcLoginAttempts := by
  rcases hstep.attempts with hsub | ⟨attempt, -, hissue⟩
  · exact hsub.length_le.trans hsys
  · exact (Database.issueLoginAttempt_eq_ok hissue).2.1

/-- Every stored attempt was issued in the run. -/
theorem attempts_of_run (hrun : Run (Step hashToken) start moves sys) :
    ∀ row ∈ sys.attempts, ∃ m ∈ moves, ∃ attempt, issued hashToken m = some attempt ∧
      attempt.row hashToken = row := by
  induction hrun with
  | nil => exact fun row hrow => absurd hrow Table.not_mem_empty
  | @snoc t u moves label hrun hstep ih =>
    intro row hrow
    rcases hstep.attempts with hsub | ⟨attempt, hlabel, hissue⟩
    · obtain ⟨m, hm, hissued⟩ := ih row (hsub.subset hrow)
      exact ⟨m, List.mem_append_left _ hm, hissued⟩
    · rcases ((Database.issueLoginAttempt_eq_ok hissue).2.2.2 row).mp hrow with ⟨hold, -⟩ | rfl
      · obtain ⟨m, hm, hissued⟩ := ih row hold
        exact ⟨m, List.mem_append_left _ hm, hissued⟩
      · refine ⟨⟨t, label, u⟩, by simp, attempt, ?_, rfl⟩
        unfold issued
        dsimp only
        rw [hlabel]
        simp [hissue, Except.toOption]

/-! ## Runs -/

/-- The move looks the session up and is answered. -/
def Authenticates (m : Move SessionSystem (ℤ × SessionAction)) (digest : Digest)
    (session : AuthenticatedWebSession) : Prop :=
  ∃ idleWindow db, m.label.2 = .lookup digest idleWindow ∧
    m.pre.db.lookupAndExtend digest m.label.1 idleWindow = .ok (some session, db)

/-- The move finds the session expired or revoked, revokes it, or purges it. -/
def Ends (m : Move SessionSystem (ℤ × SessionAction)) (digest : Digest) : Prop :=
  (∃ idleWindow db, m.label.2 = .lookup digest idleWindow ∧
    m.pre.db.lookupAndExtend digest m.label.1 idleWindow = .ok (none, db)) ∨
  m.label.2 = .revoke digest ∨
  ∃ unusedClientCutoff, m.label.2 = .purge unusedClientCutoff ∧ ∃ row ∈ m.pre.sessions,
    row.sessionIdHash = digest ∧ OAuthTables.purgedSession m.label.1 row = true

/-- What a run promises of its sessions and its login attempts. -/
structure LifecycleSafe (hashToken : String → Digest)
    (moves : List (Move SessionSystem (ℤ × SessionAction))) : Prop where
  /-- A session that was issued and has ended does not authenticate again. -/
  ended : ∀ before m after, moves = before ++ m :: after → ∀ digest ∈ m.pre.drawn,
    Ends m digest → ∀ m' ∈ after, ∀ session, ¬Authenticates m' digest session
  /-- An answer expires later than now, and not after the absolute expiry. -/
  extended : ∀ m ∈ moves, ∀ digest session, Authenticates m digest session →
    m.label.1 < session.idleExpiresAt ∧ session.idleExpiresAt ≤ session.absoluteExpiresAt
  /-- No extension moves the absolute expiry a session was issued with. -/
  absolute : ∀ before m after record actor identityId, moves = before ++ m :: after →
    m.label.2 = .insert record actor identityId → ∀ m' ∈ after, ∀ session,
      Authenticates m' record.sessionDigest session →
        session.absoluteExpiresAt = record.absoluteExpiresAt ∧
          m'.label.1 < record.absoluteExpiresAt
  /-- A state is consumed as often as it was issued at most, so once when it was drawn once. -/
  consumed_once : ∀ digest,
    moves.countP (fun m => (consumed hashToken m).any (ofState hashToken digest)) ≤
      moves.countP fun m => (issued hashToken m).any (ofState hashToken digest)
  /-- An attempt is consumed before the expiry it was issued with. -/
  unexpired : ∀ m ∈ moves, ∀ attempt, consumed hashToken m = some attempt →
    m.label.1 < attempt.expiresAt ∧ ∃ m₀ ∈ moves, ∃ attempt₀,
      issued hashToken m₀ = some attempt₀ ∧ attempt₀.row hashToken = attempt.row hashToken
  /-- The store does not grow beyond its bound. -/
  pending : ∀ m ∈ moves, m.post.attempts.rows.length ≤ maxPendingOidcLoginAttempts

/-- The digests of the sessions were drawn, and their absolute expiries are `i64`. -/
structure Consistent (sys : SessionSystem) : Prop where
  drawn : ∀ row ∈ sys.sessions, row.sessionIdHash ∈ sys.drawn
  absolute : ∀ row ∈ sys.sessions, row.absoluteExpiresAt ≤ i64Max

theorem Step.consistent (hstep : Step hashToken sys label sys') (hsys : sys.Consistent) :
    sys'.Consistent := by
  have hdrawn := hstep.drawn
  refine ⟨fun row' hrow' => ?_, fun row' hrow' => ?_⟩
  · rcases hstep.sessions row' hrow' with
      ⟨row, hrow, hage⟩ | ⟨record, actor, identityId, hlabel, hhash, -⟩
    · rw [hage.sessionIdHash]
      exact hdrawn (hsys.drawn row hrow)
    · obtain ⟨-, rfl⟩ := hstep
      rw [hhash]
      unfold next
      rw [hlabel]
      exact List.mem_cons_self ..
  · rcases hstep.sessions row' hrow' with
      ⟨row, hrow, hage⟩ | ⟨record, actor, identityId, hlabel, -, habsolute⟩
    · rw [hage.absoluteExpiresAt]
      exact hsys.absolute row hrow
    · obtain ⟨hallowed, -⟩ := hstep
      rw [hlabel] at hallowed
      rw [habsolute]
      exact hallowed.2

theorem consistent_of_run (hrun : Run (Step hashToken) start moves sys) : sys.Consistent := by
  refine hrun.invariant (fun s label t hs hstep => hstep.consistent hs) ⟨?_, ?_⟩ <;>
    exact fun row hrow => absurd hrow Table.not_mem_empty

theorem Authenticates.active {m : Move SessionSystem (ℤ × SessionAction)} {digest : Digest}
    {session : AuthenticatedWebSession} (h : Authenticates m digest session) :
    ∃ row ∈ m.pre.sessions, row.sessionIdHash = digest ∧ row.Active m.label.1 ∧
      session.absoluteExpiresAt = row.absoluteExpiresAt := by
  obtain ⟨idleWindow, db, -, hlookup⟩ := h
  obtain ⟨row, hrow, hhash, hactive, -, habsolute, -⟩ := Database.lookupAndExtend_eq_some hlookup
  exact ⟨row, hrow, hhash, hactive, habsolute⟩

/-- A look-up extends a session into the future and not beyond its absolute expiry. -/
theorem Authenticates.extended {m : Move SessionSystem (ℤ × SessionAction)} {digest : Digest}
    {session : AuthenticatedWebSession} (h : Authenticates m digest session)
    (hallowed : m.pre.Allowed m.label.2) (hpre : m.pre.Consistent) :
    m.label.1 < session.idleExpiresAt ∧ session.idleExpiresAt ≤ session.absoluteExpiresAt := by
  obtain ⟨idleWindow, db, hlabel, hlookup⟩ := h
  rw [hlabel] at hallowed
  have hwindow : 0 < idleWindow := hallowed
  obtain ⟨row, hrow, -, ⟨-, -, hactive⟩, hidle, habsolute, -⟩ :=
    Database.lookupAndExtend_eq_some hlookup
  have hrange := hpre.absolute row hrow
  rw [hidle, habsolute]
  unfold saturatingAdd i64Max i64Min at *
  omega

/-- What ends a session leaves no row of it that is not revoked. -/
theorem Ends.dead {m : Move SessionSystem (ℤ × SessionAction)} {digest : Digest}
    (h : Ends m digest) (hstep : Step hashToken m.pre m.label m.post) :
    ∀ row ∈ m.post.sessions, row.sessionIdHash = digest → row.revokedAt ≠ none := by
  obtain ⟨-, hpost⟩ := hstep
  obtain ⟨pre, ⟨now, action⟩, post⟩ := m
  dsimp only at hpost ⊢
  intro row' hrow' hdigest hnone
  rw [hpost] at hrow'
  change row' ∈ (pre.nextDb hashToken now action).oauth.webSessions at hrow'
  rcases h with ⟨idleWindow, db, hlabel, hlookup⟩ | hlabel |
    ⟨cutoff, hlabel, row, hrow, hhash, hpurged⟩
  · dsimp only at hlabel hlookup
    subst hlabel
    dsimp only [nextDb] at hrow'
    rw [hlookup] at hrow'
    obtain ⟨hinactive, rfl⟩ := Database.lookupAndExtend_eq_none hlookup
    obtain ⟨row, hrow, rfl⟩ := Database.mem_revoked hrow'
    split_ifs at hdigest hnone with hexpired
    have hactive := hinactive row hrow hdigest
    simp only [hdigest, hnone, true_and, decide_eq_true_eq, not_or, not_le] at hexpired
    exact hactive ⟨hnone, hexpired⟩
  · dsimp only at hlabel
    subst hlabel
    obtain ⟨row, hrow, rfl⟩ := Database.mem_revoked hrow'
    split_ifs at hdigest hnone with hlive
    exact hlive (decide_eq_true ⟨hdigest, hnone⟩)
  · dsimp only at hlabel hrow hpurged
    subst hlabel
    obtain ⟨hold, hkept⟩ := (Database.sessions_of_purge cutoff).mp hrow'
    have hsame : row' = row := Table.eq_of_key_eq hold hrow (hdigest.trans hhash.symm)
    rw [hsame, hpurged] at hkept
    cases hkept

theorem Step.fresh {record : WebSessionRecord} {actor : Actor} {identityId : ℕ}
    (hstep : Step hashToken sys label sys') (hsys : sys.Consistent)
    (hlabel : label.2 = .insert record actor identityId) :
    record.sessionDigest ∈ sys'.drawn ∧ ∀ row ∈ sys'.sessions,
      row.sessionIdHash = record.sessionDigest →
        row.absoluteExpiresAt = record.absoluteExpiresAt := by
  refine ⟨?_, fun row' hrow' hdigest => ?_⟩
  · obtain ⟨-, rfl⟩ := hstep
    unfold next
    rw [hlabel]
    exact List.mem_cons_self ..
  · rcases hstep.sessions row' hrow' with
      ⟨row, hrow, hage⟩ | ⟨record', actor', identityId', hlabel', -, habsolute⟩
    · obtain ⟨hallowed, -⟩ := hstep
      rw [hlabel] at hallowed
      have hdrawn := hsys.drawn row hrow
      rw [← hage.sessionIdHash, hdigest] at hdrawn
      exact absurd hdrawn hallowed.1
    · rw [hlabel] at hlabel'
      cases hlabel'
      exact habsolute

/-- Every run of the two stores is safe. -/
theorem session_lifecycle_safe (hrun : Run (Step hashToken) start moves sys) :
    LifecycleSafe hashToken moves where
  ended before m after hmoves digest hdrawn hends m' hm' session hauthenticates := by
    subst hmoves
    obtain ⟨-, hstep, hafter⟩ := hrun.split
    obtain ⟨mid, rest, rfl⟩ := List.append_of_mem hm'
    obtain ⟨hmid, -, -⟩ := hafter.split
    have hdead := drawn_sessions_of_run (Q := fun row => row.revokedAt ≠ none)
      (fun row row' hage => hage.revoked) hmid (hstep.drawn hdrawn) (hends.dead hstep)
    obtain ⟨row, hrow, hhash, hactive, -⟩ := hauthenticates.active
    exact hdead row hrow hhash hactive.1
  extended m hm digest session hauthenticates := by
    obtain ⟨⟨before, hbefore⟩, hstep, -⟩ := hrun.of_mem hm
    exact hauthenticates.extended hstep.1 (consistent_of_run hbefore)
  absolute before m after record actor identityId hmoves hlabel m' hm' session hauthenticates := by
    subst hmoves
    obtain ⟨hbefore, hstep, hafter⟩ := hrun.split
    obtain ⟨mid, rest, rfl⟩ := List.append_of_mem hm'
    obtain ⟨hmid, -, -⟩ := hafter.split
    obtain ⟨hdrawn, hfresh⟩ := hstep.fresh (consistent_of_run hbefore) hlabel
    have hfixed := drawn_sessions_of_run
      (Q := fun row => row.absoluteExpiresAt = record.absoluteExpiresAt)
      (fun row row' hage hrow => hage.absoluteExpiresAt.trans hrow) hmid hdrawn hfresh
    obtain ⟨row, hrow, hhash, ⟨-, -, hactive⟩, habsolute⟩ := hauthenticates.active
    have hrecord := hfixed row hrow hhash
    exact ⟨habsolute.trans hrecord, hrecord ▸ hactive⟩
  consumed_once digest := by
    have hcount := stored_of_run digest hrun
    have hstart : start.stored digest = 0 := if_neg fun ⟨row, hrow, _⟩ =>
      Table.not_mem_empty hrow
    omega
  unexpired m hm attempt hconsumed := by
    obtain ⟨before, after, rfl⟩ := List.append_of_mem hm
    obtain ⟨hbefore, hstep, -⟩ := hrun.split
    obtain ⟨hexpires, hrow, -⟩ := consumed_eq_some hstep hconsumed
    obtain ⟨m₀, hm₀, attempt₀, hissued, hsame⟩ := attempts_of_run hbefore _ hrow
    exact ⟨hexpires, m₀, List.mem_append_left _ hm₀, attempt₀, hissued, hsame⟩
  pending m hm := by
    obtain ⟨⟨before, hbefore⟩, hstep, -⟩ := hrun.of_mem hm
    refine hstep.pending (hbefore.invariant (P := fun t => t.attempts.rows.length ≤ _)
      (fun s label t hs hst => hst.pending hs) ?_)
    exact Nat.zero_le _

end SessionSystem

/-! ## A session and a login attempt -/

open Database SessionSystem

def sampleSession : WebSessionRecord where
  sessionDigest := ⟨1⟩
  csrfDigest := ⟨2⟩
  principal := alice.authenticatedIdentity
  idleExpiresAt := 1000
  absoluteExpiresAt := 2000

def sampleAttempt : OidcLoginAttempt := ⟨"state-1", "nonce-1", "verifier-1", 600000⟩

/-- Alice logs in. Her session is extended once, found expired, and looked up again by a clock
that has gone back. -/
def loggedIn : List (ℤ × SessionAction) :=
  [(0, .elsewhere (empty.login alice.authenticatedIdentity)), (0, .issueAttempt sampleAttempt),
    (50, .consume "state-1"), (100, .insert sampleSession alice 1), (200, .lookup ⟨1⟩ 900),
    (1100, .lookup ⟨1⟩ 900), (300, .lookup ⟨1⟩ 900)]

/-- One transaction of that run. -/
def sampleSessionNext (sys : SessionSystem) (label : ℤ × SessionAction) : SessionSystem :=
  sys.next sampleTokenDigest label

theorem run_loggedIn :
    Run (SessionSystem.Step sampleTokenDigest) .start (Run.trace sampleSessionNext .start loggedIn)
      (loggedIn.foldl sampleSessionNext .start) := by
  refine Run.run_trace_of_legal sampleSessionNext _ _ ?_
  refine List.forall_mem_cons.mpr ⟨⟨rfl, rfl⟩, ?_⟩
  refine List.forall_mem_cons.mpr ⟨trivial, ?_⟩
  refine List.forall_mem_cons.mpr ⟨trivial, ?_⟩
  refine List.forall_mem_cons.mpr ⟨⟨by decide, by decide⟩, ?_⟩
  refine List.forall_mem_cons.mpr ⟨(by decide : 0 < 900), ?_⟩
  refine List.forall_mem_cons.mpr ⟨(by decide : 0 < 900), ?_⟩
  refine List.forall_mem_cons.mpr ⟨(by decide : 0 < 900), ?_⟩
  exact List.forall_mem_nil _

/-- That run is safe, and the attempt was consumed in it. -/
theorem session_lifecycle_safe_loggedIn :
    SessionSystem.LifecycleSafe sampleTokenDigest (Run.trace sampleSessionNext .start loggedIn) ∧
      (Run.trace sampleSessionNext .start loggedIn).countP
        (fun m => (consumed sampleTokenDigest m).isSome) = 1 :=
  ⟨session_lifecycle_safe run_loggedIn, by decide +kernel⟩

end Marginalis
