import Marginalis.Outbox

/-!
# The attempts of a delivery

A subscription is disabled when a delivery has failed too often, and its owner can give the
delivery a new budget of attempts. A tick decides both from the number of attempts it read when
it claimed the delivery. `DeliveryLedger` keeps the books that the database does not : how often
the owner has retried each delivery, and how many attempts claimed since the last retry have
failed.

Where every answer is recorded before the owner steps in, the books and the column agree, and a
subscription is disabled only for a head that has used its budget
(`AuditedSystem.exhaustion_sound`). A retry between the claim and the record is undone by the
record, and a tick disables a subscription whose head it has never sent
(`discarded_head_disables`).
-/

namespace Marginalis

/-! ## The books -/

/-- The key of the delivery an attempt is for. -/
def WebhookPendingDelivery.key (delivery : WebhookPendingDelivery) : SubscriptionId × ℕ :=
  (delivery.subscriptionId, delivery.event.sequence)

/-- The first remaining delivery, when its attempt has failed and is not recorded. -/
def DeliveryTick.failing (tick : DeliveryTick) : Option WebhookPendingDelivery :=
  match tick.stage with
  | .answered (.error _) => tick.remaining.head?
  | _ => none

/-- The first remaining delivery, when its last attempt was recorded as failed. -/
def DeliveryTick.exhausting (tick : DeliveryTick) : Option WebhookPendingDelivery :=
  match tick.stage with
  | .exhausted => tick.remaining.head?
  | _ => none

/-- The tick that records an answer. -/
def DeliveryAction.recordedBy : DeliveryAction → Option ℕ
  | tick i .record => some i
  | _ => none

/-- The tick that disables a subscription. -/
def DeliveryAction.disabledBy : DeliveryAction → Option ℕ
  | tick i .disable => some i
  | _ => none

theorem DeliveryAction.eq_of_recordedBy {action : DeliveryAction} {i : ℕ}
    (h : i ∈ action.recordedBy) : action = .tick i .record := by
  unfold recordedBy at h
  split at h <;> simp_all

/-- The delivery of a change to a subscription is pending. -/
def Database.IsPending (db : Database) (key : SubscriptionId × ℕ) : Prop :=
  ∃ row ∈ db.webhookDeliveries, Keyed.key row = key ∧ row.state = .pending

instance (db : Database) (key : SubscriptionId × ℕ) : Decidable (db.IsPending key) := by
  unfold Database.IsPending
  infer_instance

/-- The command resets the attempts of the delivery. -/
def Database.Retries (db : Database) (actor : Actor) (id : SubscriptionId)
    (key : SubscriptionId × ℕ) : Prop :=
  db.Owned actor id ∧ ∃ row ∈ db.webhookDeliveries, Keyed.key row = key ∧
    row.subscriptionId = id ∧ db.IsHead row

instance (db : Database) (actor : Actor) (id : SubscriptionId) (key : SubscriptionId × ℕ) :
    Decidable (db.Retries actor id key) := by
  unfold Database.Retries
  infer_instance

/-- For each delivery, the retries of its owner, the failed attempts recorded among those claimed
since the last of them, and the retries there were when each tick made its claim. -/
structure DeliveryLedger where
  retries : SubscriptionId × ℕ → ℕ
  failures : SubscriptionId × ℕ → ℕ
  claims : ℕ → SubscriptionId × ℕ → ℕ

namespace DeliveryLedger

/-- The tick claimed the delivery after its last retry. -/
def Fresh (ledger : DeliveryLedger) (i : ℕ) (key : SubscriptionId × ℕ) : Prop :=
  ledger.claims i key = ledger.retries key

instance (ledger : DeliveryLedger) (i : ℕ) (key : SubscriptionId × ℕ) :
    Decidable (ledger.Fresh i key) := inferInstanceAs (Decidable (_ = _))

def retry (ledger : DeliveryLedger) (db : Database) (actor : Actor) (id : SubscriptionId) :
    DeliveryLedger :=
  { ledger with
    retries := fun key =>
      if db.Retries actor id key then ledger.retries key + 1 else ledger.retries key
    failures := fun key => if db.Retries actor id key then 0 else ledger.failures key }

def claim (ledger : DeliveryLedger) (i : ℕ) : DeliveryLedger :=
  { ledger with claims := Function.update ledger.claims i ledger.retries }

def fail (ledger : DeliveryLedger) (key : SubscriptionId × ℕ) : DeliveryLedger :=
  { ledger with failures := Function.update ledger.failures key (ledger.failures key + 1) }

/-- The books after an action. -/
def next (ledger : DeliveryLedger) (sys : DeliverySystem) : DeliveryAction → DeliveryLedger
  | .owner actor (.retry id) => ledger.retry sys.db actor id
  | .claim => ledger.claim sys.ticks.length
  | .tick i .record =>
    match sys.ticks[i]?.bind DeliveryTick.failing with
    | some delivery =>
      if sys.db.IsPending delivery.key ∧ ledger.Fresh i delivery.key then ledger.fail delivery.key
      else ledger
    | none => ledger
  | _ => ledger

end DeliveryLedger

/-- The system with its books. -/
structure AuditedSystem where
  sys : DeliverySystem
  ledger : DeliveryLedger

namespace AuditedSystem

def start : AuditedSystem := ⟨.start, ⟨fun _ => 0, fun _ => 0, fun _ _ => 0⟩⟩

def next (a : AuditedSystem) (label : ℤ × DeliveryAction) : AuditedSystem :=
  ⟨a.sys.next label.1 label.2, a.ledger.next a.sys label.2⟩

def Step (a : AuditedSystem) (label : ℤ × DeliveryAction) (a' : AuditedSystem) : Prop :=
  a.sys.Allowed label.2 ∧ a' = a.next label

/-! ## Soundness -/

/-- No more attempts are counted against a pending delivery than have failed of those claimed
since its owner's last retry. -/
def BudgetKept (a : AuditedSystem) : Prop :=
  ∀ row ∈ a.sys.db.webhookDeliveries, row.state = .pending →
    row.attemptCount ≤ a.ledger.failures (Keyed.key row)

/-- A subscription that the move disables as exhausted has an oldest pending delivery that has
used its budget. -/
def DisablesSoundly (m : Move AuditedSystem (ℤ × DeliveryAction)) : Prop :=
  ∀ s ∈ m.pre.sys.db.webhookSubscriptions, s.state = .active →
    ∀ s' ∈ m.post.sys.db.webhookSubscriptions, s'.subscriptionId = s.subscriptionId →
      s'.state = .disabled .deliveryExhausted →
      ∃ row ∈ m.pre.sys.db.webhookDeliveries, row.subscriptionId = s.subscriptionId ∧
        m.pre.sys.db.IsHead row ∧ webhookMaxAttempts ≤ m.pre.ledger.failures (Keyed.key row)

/-- A failed attempt that is recorded for a pending delivery was claimed after the last retry, or
as many attempts that were have failed before. -/
def RecordsInBudget (m : Move AuditedSystem (ℤ × DeliveryAction)) : Prop :=
  ∀ i ∈ m.label.2.recordedBy, ∀ tick ∈ m.pre.sys.ticks[i]?, ∀ delivery ∈ tick.failing,
    m.pre.sys.db.IsPending delivery.key → m.pre.ledger.Fresh i delivery.key ∨
      delivery.attempts ≤ m.pre.ledger.failures delivery.key

instance : DecidablePred RecordsInBudget := fun m => by
  unfold RecordsInBudget
  infer_instance

/-- A tick that disables an active subscription does so for a delivery that is still pending, and
that it claimed after the last retry, or that has used the budget of that retry. -/
def DisablesForPending (m : Move AuditedSystem (ℤ × DeliveryAction)) : Prop :=
  ∀ i ∈ m.label.2.disabledBy, ∀ tick ∈ m.pre.sys.ticks[i]?, ∀ delivery ∈ tick.exhausting,
    (∃ s ∈ m.pre.sys.db.webhookSubscriptions, s.subscriptionId = delivery.subscriptionId ∧
      s.state = .active) →
    m.pre.sys.db.IsPending delivery.key ∧ (m.pre.ledger.Fresh i delivery.key ∨
      webhookMaxAttempts ≤ m.pre.ledger.failures delivery.key)

instance : DecidablePred DisablesForPending := fun m => by
  unfold DisablesForPending
  infer_instance

end AuditedSystem

/-! ## One step of a tick -/

namespace DeliveryTick

variable {tick : DeliveryTick} {db : Database} {delivery : WebhookPendingDelivery} {a : TickAction}

theorem mem_of_failing (h : tick.failing = some delivery) : delivery ∈ tick.remaining := by
  unfold failing at h
  split at h
  · exact List.mem_of_mem_head? h
  · cases h

theorem mem_of_exhausting (h : tick.exhausting = some delivery) : delivery ∈ tick.remaining := by
  unfold exhausting at h
  split at h
  · exact List.mem_of_mem_head? h
  · cases h

theorem step_send (tick : DeliveryTick) (db : Database)
    (answer : Except WebhookDeliveryFailure Unit) : (tick.step db (.send answer)).2 = db := by
  simp only [step]
  split <;> rfl

/-- The record of a failed attempt writes the count that was read at the claim, and one. -/
theorem step_record_of_failing (db : Database) (h : tick.failing = some delivery) :
    ∃ failure nextAttemptAt, (tick.step db .record).2 =
      db.recordFailed delivery.subscriptionId delivery.event.sequence failure
        delivery.attempts nextAttemptAt tick.now := by
  obtain ⟨now, remaining, stage, outcome⟩ := tick
  unfold failing at h
  rcases stage with _ | (failure | ⟨⟩) | _ <;> try cases h
  cases remaining with
  | nil => cases h
  | cons first rest =>
    cases h
    exact ⟨failure, _, rfl⟩

/-- Any other record writes nothing, or finishes a delivery. -/
theorem step_record_of_not_failing (db : Database) (h : tick.failing = none) :
    (tick.step db .record).2 = db ∨ ∃ id n,
      (tick.step db .record).2 = db.recordDelivered id n tick.now := by
  obtain ⟨now, remaining, stage, outcome⟩ := tick
  unfold failing at h
  cases remaining with
  | nil =>
    refine Or.inl ?_
    rcases stage with _ | (failure | ⟨⟩) | _ <;> rfl
  | cons first rest =>
    rcases stage with _ | (failure | ⟨⟩) | _
    · exact Or.inl rfl
    · cases h
    · exact Or.inr ⟨_, _, rfl⟩
    · exact Or.inl rfl

/-- A disable writes nothing, or disables the subscription of the exhausted delivery. -/
theorem step_disable (tick : DeliveryTick) (db : Database) : (tick.step db .disable).2 = db ∨
    ∃ delivery, tick.exhausting = some delivery ∧ (tick.step db .disable).2 =
      db.disableExhaustedSubscription delivery.subscriptionId tick.now := by
  obtain ⟨now, remaining, stage, outcome⟩ := tick
  cases remaining with
  | nil =>
    refine Or.inl ?_
    cases stage <;> rfl
  | cons first rest =>
    cases stage with
    | sending | answered => exact Or.inl rfl
    | exhausted => exact Or.inr ⟨first, rfl, rfl⟩

/-- A delivery is exhausted by the record of its last attempt. -/
theorem exhausting_step (h : (tick.step db a).1.exhausting = some delivery) :
    tick.exhausting = some delivery ∨
      a = .record ∧ tick.failing = some delivery ∧ webhookMaxAttempts ≤ delivery.attempts := by
  obtain ⟨now, remaining, stage, outcome⟩ := tick
  cases a with
  | send answer => cases stage <;> cases remaining <;> exact Or.inl h
  | record =>
    cases remaining with
    | nil => rcases stage with _ | (failure | ⟨⟩) | _ <;> exact Or.inl h
    | cons first rest =>
      rcases stage with _ | (failure | ⟨⟩) | _
      · exact Or.inl h
      · simp only [step] at h
        split_ifs at h with hmax
        · cases h
          exact Or.inr ⟨rfl, rfl, hmax⟩
        · cases h
      · cases h
      · exact Or.inl h
  | disable =>
    cases remaining with
    | nil => cases stage <;> exact Or.inl h
    | cons first rest =>
      cases stage with
      | sending | answered => exact Or.inl h
      | exhausted => cases h
  | abort =>
    unfold exhausting step at h
    dsimp only at h
    split at h <;> cases h

end DeliveryTick

namespace DeliverySystem

variable {sys sys' : DeliverySystem} {label : ℤ × DeliveryAction}

/-- A tick is the one that was there, has made a step, or has just made its claim. -/
theorem getElem_ticks_cases (hstep : sys.Step label sys') {i : ℕ} {tick' : DeliveryTick}
    (h : sys'.ticks[i]? = some tick') : sys.ticks[i]? = some tick' ∨
      (∃ tick a, label.2 = .tick i a ∧ sys.ticks[i]? = some tick ∧
        tick' = (tick.step sys.db a).1) ∨
      label.2 = .claim ∧ i = sys.ticks.length ∧ ∃ claimed db,
        sys.db.claimDueDeliveries label.1 (saturatingAdd label.1 webhookLeaseMs)
          webhookDeliveryBatch = .ok (claimed, db) ∧ tick' = .start label.1 claimed := by
  obtain ⟨now, action⟩ := label
  obtain ⟨-, rfl⟩ := hstep
  cases action with
  | login | command | library | elsewhere | owner | purgeDeliveries | purgeOperationalState
  | purgeNotes => exact Or.inl h
  | claim =>
    simp only [next] at h
    split at h
    · next claimed db hclaim =>
      rw [List.getElem?_append] at h
      split_ifs at h with hi
      · exact Or.inl h
      · obtain ⟨hlt, heq⟩ := List.getElem?_eq_some_iff.mp h
        simp only [List.length_singleton] at hlt
        simp only [List.getElem_singleton] at heq
        exact Or.inr (Or.inr ⟨rfl, by omega, claimed, db, hclaim, heq.symm⟩)
    · exact Or.inl h
  | tick j a =>
    simp only [next] at h
    split at h
    · next tick htick =>
      rw [List.getElem?_set] at h
      split_ifs at h with hij hlt
      · subst hij
        cases h
        exact Or.inr (Or.inl ⟨tick, a, rfl, htick, rfl⟩)
      · exact Or.inl h
    · exact Or.inl h

theorem isPending_iff {db : Database} {key : SubscriptionId × ℕ} :
    db.IsPending key ↔ key.2 ∈ db.queues.pending key.1 := by
  constructor
  · rintro ⟨row, hrow, rfl, hstate⟩
    exact Database.mem_pending hrow hstate
  · rintro ⟨row, hrow, hid, hn, hstate⟩
    exact ⟨row, hrow, Prod.ext hid hn, hstate⟩

/-- A delivery that a tick has claimed is pending only as long as it was. -/
theorem Consistent.isPending_of_step (hsys : sys.Consistent) (hstep : sys.Step label sys')
    {tick : DeliveryTick} (htick : tick ∈ sys.ticks) {delivery : WebhookPendingDelivery}
    (hdelivery : delivery ∈ tick.remaining) (h : sys'.db.IsPending delivery.key) :
    sys.db.IsPending delivery.key := by
  have hle := (hsys.claimed tick htick delivery hdelivery).le_last
  rw [isPending_iff] at h ⊢
  rcases hsys.refines hstep with hfans | ⟨-, hq | ⟨actor, id, -, hq⟩⟩
  · exact Queues.Step.pending_of_le (.publish hfans.published) h hle
  · exact hq.pending_of_le h hle
  · rw [hq] at h
    exact h.1

end DeliverySystem

/-! ## Rows and subscriptions after a step -/

namespace Database

variable {db db' : Database}

/-- The attempts of every pending delivery are those it had, or none. -/
def KeepsAttempts (db db' : Database) : Prop :=
  ∀ row' ∈ db'.webhookDeliveries, row'.state = .pending → row'.attemptCount = 0 ∨
    ∃ row ∈ db.webhookDeliveries, Keyed.key row = Keyed.key row' ∧ row.state = .pending ∧
      row.attemptCount = row'.attemptCount

/-- No active subscription is disabled as exhausted. -/
def KeepsActive (db db' : Database) : Prop :=
  ∀ s ∈ db.webhookSubscriptions, s.state = .active → ∀ s' ∈ db'.webhookSubscriptions,
    s'.subscriptionId = s.subscriptionId → s'.state ≠ .disabled .deliveryExhausted

theorem KeepsAttempts.of_subset
    (h : ∀ row ∈ db'.webhookDeliveries, row ∈ db.webhookDeliveries) : db.KeepsAttempts db' :=
  fun row' hrow' hstate => Or.inr ⟨row', h row' hrow', rfl, hstate, rfl⟩

/-- An update of deliveries that resets attempts or finishes deliveries. -/
theorem KeepsAttempts.modify {p : DeliveryRow → Bool} {set : DeliveryRow → DeliveryRow}
    (hset : ∀ r, Keyed.key (set r) = Keyed.key r)
    (hdb' : db'.webhookDeliveries = db.webhookDeliveries.modify p set hset)
    (h : ∀ row, (set row).state = .pending → (set row).attemptCount = 0) :
    db.KeepsAttempts db' := by
  intro row' hrow' hstate
  rw [hdb', Table.mem_modify] at hrow'
  obtain ⟨row, hrow, rfl⟩ := hrow'
  split_ifs at hstate ⊢ with hp
  · exact Or.inl (h row hstate)
  · exact Or.inr ⟨row, hrow, rfl, hstate, rfl⟩

theorem FansOut.keepsAttempts (h : db.FansOut db') : db.KeepsAttempts db' := by
  intro row' hrow' hstate
  rcases (h.mem_rows_iff row').mp hrow' with hrow | ⟨s, -, c, -, -, -, rfl⟩
  · exact Or.inr ⟨row', hrow, rfl, hstate, rfl⟩
  · exact Or.inl rfl

theorem keepsAttempts_of_unleased_eq (h : db'.unleased = db.unleased) : db.KeepsAttempts db' := by
  intro row' hrow' hstate
  obtain ⟨row, hrow, hkey, hsame, hcount⟩ := exists_of_unleased_eq h hrow'
  exact Or.inr ⟨row, hrow, hkey, hsame.trans hstate, hcount⟩

theorem KeepsActive.of_eq (h : db'.webhookSubscriptions = db.webhookSubscriptions) :
    db.KeepsActive db' := by
  intro s hs hactive s' hs' hid hdisabled
  have heq : s' = s := Table.eq_of_key_eq (h ▸ hs') hs hid
  rw [heq, hactive] at hdisabled
  cases hdisabled

/-- An update of subscriptions that leaves the active ones active. -/
theorem KeepsActive.modify {p : SubscriptionRow → Bool} {set : SubscriptionRow → SubscriptionRow}
    (hset : ∀ s, Keyed.key (set s) = Keyed.key s)
    (hdb' : db'.webhookSubscriptions = db.webhookSubscriptions.modify p set hset)
    (h : ∀ s, s.state = .active → (set s).state = .active) : db.KeepsActive db' := by
  intro s hs hactive s' hs' hid hdisabled
  rw [hdb', Table.mem_modify] at hs'
  obtain ⟨r, hr, rfl⟩ := hs'
  have hkey : Keyed.key (if p r then set r else r) = Keyed.key r := by
    split_ifs
    · exact hset r
    · rfl
  have heq : r = s := Table.eq_of_key_eq hr hs (hkey.symm.trans hid)
  subst heq
  split_ifs at hdisabled with hp
  · rw [h r hactive] at hdisabled
    cases hdisabled
  · rw [hactive] at hdisabled
    cases hdisabled

end Database

open Database in
/-- Every command but a retry keeps the attempts. -/
theorem SubscriptionCommand.keepsAttempts (db : Database) (actor : Actor) (now : ℤ)
    (c : SubscriptionCommand) : db.KeepsAttempts (c.exec actor now db) := by
  cases c with
  | create id url eventKinds secret =>
    simp only [exec]
    split
    · next db' h =>
      obtain ⟨subscriptions, -, rfl⟩ := createOwnedSubscription_eq_ok h
      exact .of_subset fun _ hrow => hrow
    · exact .of_subset fun _ hrow => hrow
  | activate id => exact .of_subset fun _ hrow => hrow
  | replaceSecret id secret => exact .of_subset fun _ hrow => hrow
  | retry id =>
    simp only [exec, retryOwnedHeadDelivery]
    split_ifs
    · exact .modify (by intro; rfl) rfl fun _ _ => rfl
    · exact .of_subset fun _ hrow => hrow
  | discard id =>
    simp only [exec, discardOwnedHeadDelivery]
    split_ifs
    · exact .modify (by intro; rfl) rfl fun _ h => by cases h
    · exact .of_subset fun _ hrow => hrow
  | delete id =>
    simp only [exec, deleteOwnedSubscription]
    split_ifs
    · exact .of_subset fun _ hrow => (Table.mem_deleteWhere.mp hrow).1
    · exact .of_subset fun _ hrow => hrow

open Database in
/-- No command disables a subscription. -/
theorem SubscriptionCommand.keepsActive (db : Database) (actor : Actor) (now : ℤ)
    (c : SubscriptionCommand) : db.KeepsActive (c.exec actor now db) := by
  cases c with
  | create id url eventKinds secret =>
    simp only [exec]
    split
    · next db' h =>
      obtain ⟨subscriptions, hinsert, rfl⟩ := createOwnedSubscription_eq_ok h
      intro s hs hactive s' hs' hid hdisabled
      rcases (Table.mem_insert? hinsert).mp hs' with hs' | rfl
      · rw [Table.eq_of_key_eq hs' hs hid, hactive] at hdisabled
        cases hdisabled
      · cases hdisabled
    · exact .of_eq rfl
  | activate id => exact .modify (by intro; rfl) rfl fun _ _ => rfl
  | replaceSecret id secret => exact .modify (by intro; rfl) rfl fun _ hactive => hactive
  | retry id =>
    simp only [exec, retryOwnedHeadDelivery]
    split_ifs
    · exact .modify (by intro; rfl) rfl fun _ _ => rfl
    · exact .of_eq rfl
  | discard id =>
    simp only [exec, discardOwnedHeadDelivery]
    split_ifs
    · exact .modify (by intro; rfl) rfl fun _ _ => rfl
    · exact .of_eq rfl
  | delete id =>
    simp only [exec, deleteOwnedSubscription]
    split_ifs
    · intro s hs hactive s' hs' hid hdisabled
      have hs' := (Table.mem_deleteWhere.mp hs').1
      rw [Table.eq_of_key_eq hs' hs hid, hactive] at hdisabled
      cases hdisabled
    · exact .of_eq rfl

/-! ## What every action keeps -/

namespace DeliverySystem

variable {sys sys' : DeliverySystem} {label : ℤ × DeliveryAction}

/-- Only the record of a failed attempt changes the attempts of a pending delivery. -/
theorem Consistent.keepsAttempts (hsys : sys.Consistent) (hstep : sys.Step label sys')
    (h : ∀ i tick, label.2 = .tick i .record → sys.ticks[i]? = some tick → tick.failing = none) :
    sys.db.KeepsAttempts sys'.db := by
  by_cases helsewhere : label.2.isElsewhere = true
  · exact (hsys.fansOut hstep helsewhere).keepsAttempts
  have hsame : sys.db.KeepsAttempts sys.db := .of_subset fun _ hrow => hrow
  obtain ⟨now, action⟩ := label
  obtain ⟨-, rfl⟩ := hstep
  cases action with
  | login | command | library | elsewhere | purgeNotes => exact absurd rfl helsewhere
  | owner actor c => exact c.keepsAttempts sys.db actor now
  | claim =>
    simp only [next]
    split
    · next claimed db hclaim =>
      exact Database.keepsAttempts_of_unleased_eq (Database.claimDueDeliveries_eq_ok hclaim).1
    · exact hsame
  | tick i a =>
    simp only [next]
    split
    · next tick htick =>
      show sys.db.KeepsAttempts (tick.step sys.db a).2
      cases a with
      | send answer =>
        rw [tick.step_send]
        exact hsame
      | record =>
        rcases DeliveryTick.step_record_of_not_failing sys.db (h i tick rfl htick) with
          heq | ⟨id, n, heq⟩
        · rw [heq]
          exact hsame
        · rw [heq]
          exact .modify (by intro; rfl) rfl fun _ hstate => by cases hstate
      | disable =>
        rcases tick.step_disable sys.db with heq | ⟨d, -, heq⟩
        · rw [heq]
          exact hsame
        · rw [heq]
          exact .of_subset fun _ hrow => hrow
      | abort => exact hsame
    · exact hsame
  | purgeDeliveries => exact .of_subset fun _ hrow => (Table.mem_deleteWhere.mp hrow).1
  | purgeOperationalState cutoff => exact hsame

/-- Only the disable of an exhausted delivery disables an active subscription so. -/
theorem Consistent.keepsActive (hsys : sys.Consistent) (hstep : sys.Step label sys')
    (h : ∀ i tick, label.2 = .tick i .disable → sys.ticks[i]? = some tick →
      tick.exhausting = none) : sys.db.KeepsActive sys'.db := by
  by_cases helsewhere : label.2.isElsewhere = true
  · exact .of_eq (hsys.fansOut hstep helsewhere).subscriptions
  obtain ⟨now, action⟩ := label
  obtain ⟨-, rfl⟩ := hstep
  cases action with
  | login | command | library | elsewhere | purgeNotes => exact absurd rfl helsewhere
  | owner actor c => exact c.keepsActive sys.db actor now
  | claim =>
    simp only [next]
    split
    · next claimed db hclaim =>
      exact .of_eq (Database.tables_of_unleased_eq
        (Database.claimDueDeliveries_eq_ok hclaim).1).2.2
    · exact .of_eq rfl
  | tick i a =>
    simp only [next]
    split
    · next tick htick =>
      refine .of_eq ?_
      show (tick.step sys.db a).2.webhookSubscriptions = _
      cases a with
      | send answer => rw [tick.step_send]
      | record =>
        cases hfailing : tick.failing with
        | none =>
          rcases DeliveryTick.step_record_of_not_failing sys.db hfailing with heq | ⟨id, n, heq⟩
          · rw [heq]
          · rw [heq]
            rfl
        | some delivery =>
          obtain ⟨failure, nextAttemptAt, heq⟩ :=
            DeliveryTick.step_record_of_failing sys.db hfailing
          rw [heq]
          rfl
      | disable =>
        rcases tick.step_disable sys.db with heq | ⟨d, hd, heq⟩
        · rw [heq]
        · rw [h i tick rfl htick] at hd
          cases hd
      | abort => rfl
    · exact .of_eq rfl
  | purgeDeliveries => exact .of_eq rfl
  | purgeOperationalState cutoff => exact .of_eq rfl

end DeliverySystem

/-! ## The books are kept -/

namespace DeliveryLedger

variable {ledger : DeliveryLedger} {sys : DeliverySystem} {action : DeliveryAction} {i : ℕ}
  {key : SubscriptionId × ℕ}

theorem retries_le_next (ledger : DeliveryLedger) (sys : DeliverySystem) (action : DeliveryAction)
    (key : SubscriptionId × ℕ) : ledger.retries key ≤ (ledger.next sys action).retries key := by
  unfold next
  split
  · simp only [retry]
    split_ifs <;> omega
  · exact Nat.le_refl _
  · split
    · split_ifs <;> exact Nat.le_refl _
    · exact Nat.le_refl _
  · exact Nat.le_refl _

theorem claims_next (hi : i ≠ sys.ticks.length) :
    (ledger.next sys action).claims i = ledger.claims i := by
  unfold next
  split
  · rfl
  · simp only [claim]
    exact Function.update_of_ne hi _ _
  · split
    · split_ifs <;> rfl
    · rfl
  · rfl

/-- A retry starts the count of a delivery anew, and nothing else lowers it. -/
theorem failures_next (ledger : DeliveryLedger) (sys : DeliverySystem) (action : DeliveryAction)
    (key : SubscriptionId × ℕ) :
    ledger.failures key ≤ (ledger.next sys action).failures key ∨
      ∃ actor id, action = .owner actor (.retry id) ∧ sys.db.Retries actor id key ∧
        (ledger.next sys action).retries key = ledger.retries key + 1 := by
  unfold next
  split
  · next actor id =>
    simp only [retry]
    by_cases h : sys.db.Retries actor id key
    · exact Or.inr ⟨actor, id, rfl, h, if_pos h⟩
    · exact Or.inl (by rw [if_neg h])
  · exact Or.inl (Nat.le_refl _)
  · split
    · next delivery _ =>
      split_ifs
      · refine Or.inl ?_
        by_cases hkey : key = delivery.key
        · subst hkey
          simp [fail]
        · simp [fail, Function.update_of_ne hkey]
      · exact Or.inl (Nat.le_refl _)
    · exact Or.inl (Nat.le_refl _)
  · exact Or.inl (Nat.le_refl _)

/-- A claim that is fresh afterwards was fresh before, and no failure since is forgotten. -/
theorem Fresh.of_next (hle : ledger.claims i key ≤ ledger.retries key)
    (hi : i ≠ sys.ticks.length) (h : (ledger.next sys action).Fresh i key) :
    ledger.Fresh i key ∧ ledger.failures key ≤ (ledger.next sys action).failures key := by
  have hretries := ledger.retries_le_next sys action key
  unfold Fresh at h ⊢
  rw [claims_next hi] at h
  rcases ledger.failures_next sys action key with hfailures | ⟨actor, id, -, -, hretried⟩
  · exact ⟨by omega, hfailures⟩
  · omega

/-- The record of a fresh attempt that failed is counted. -/
theorem failures_next_record {tick : DeliveryTick} {delivery : WebhookPendingDelivery}
    (htick : sys.ticks[i]? = some tick) (hfailing : tick.failing = some delivery)
    (hpending : sys.db.IsPending delivery.key) (hfresh : ledger.Fresh i delivery.key) :
    (ledger.next sys (.tick i .record)).failures delivery.key =
      ledger.failures delivery.key + 1 := by
  simp only [next, htick, Option.bind_some, hfailing, hpending, hfresh, and_self, if_true, fail,
    Function.update_self]

/-- The record of any other attempt is not. -/
theorem next_record_of_not_fresh {tick : DeliveryTick} {delivery : WebhookPendingDelivery}
    (htick : sys.ticks[i]? = some tick) (hfailing : tick.failing = some delivery)
    (hfresh : ¬ledger.Fresh i delivery.key) : ledger.next sys (.tick i .record) = ledger := by
  simp only [next, htick, Option.bind_some, hfailing, hfresh, and_false, if_false]

end DeliveryLedger

/-- An attempt counts at most one more than were read at the claim. -/
theorem WebhookPendingDelivery.attempts_le (delivery : WebhookPendingDelivery) :
    delivery.attempts ≤ delivery.attemptCount + 1 :=
  Nat.min_le_left _ _

namespace AuditedSystem

variable {a a' : AuditedSystem} {label : ℤ × DeliveryAction}

/-- The budgets are kept, and every tick under way has read a count that is in the books. -/
structure Accounted (a : AuditedSystem) : Prop where
  base : a.sys.Consistent
  budget : a.BudgetKept
  claims_le : ∀ i < a.sys.ticks.length, ∀ key, a.ledger.claims i key ≤ a.ledger.retries key
  attempts_le : ∀ i tick, a.sys.ticks[i]? = some tick → ∀ delivery ∈ tick.remaining,
    a.ledger.Fresh i delivery.key → delivery.attemptCount ≤ a.ledger.failures delivery.key
  exhausted : ∀ i tick delivery, a.sys.ticks[i]? = some tick → tick.exhausting = some delivery →
    webhookMaxAttempts ≤ delivery.attempts ∧
      (a.sys.db.IsPending delivery.key → a.ledger.Fresh i delivery.key →
        delivery.attempts ≤ a.ledger.failures delivery.key)

theorem accounted_start : start.Accounted where
  base := DeliverySystem.consistent_start
  budget row hrow := absurd hrow Table.not_mem_empty
  claims_le i hi := absurd hi (Nat.not_lt_zero i)
  attempts_le i tick htick := by simp [start, DeliverySystem.start] at htick
  exhausted i tick delivery htick := by simp [start, DeliverySystem.start] at htick

theorem Step.base (h : a.Step label a') : a.sys.Step label a'.sys := by
  obtain ⟨hallowed, rfl⟩ := h
  exact ⟨hallowed, rfl⟩

/-- The row of a delivery that is retried has no attempts left counted. -/
theorem attemptCount_of_retries {db : Database} {actor : Actor} {id : SubscriptionId} {now : ℤ}
    {row : DeliveryRow} (h : db.Retries actor id (Keyed.key row))
    (hrow : row ∈ (SubscriptionCommand.exec actor now db (.retry id)).webhookDeliveries) :
    row.attemptCount = 0 := by
  obtain ⟨howned, head, hhead, hkey, hid, hishead⟩ := h
  simp only [SubscriptionCommand.exec, Database.retryOwnedHeadDelivery, if_pos howned] at hrow
  obtain ⟨r, hr, rfl⟩ := (Database.mem_updateHeadDelivery (by intro; rfl)).mp hrow
  have hrk : Keyed.key r = Keyed.key head := by
    rw [hkey]
    split_ifs <;> rfl
  have heq : r = head := Table.eq_of_key_eq hr hhead hrk
  subst heq
  rw [if_pos ⟨hid, hishead⟩]
  rfl

/-- The rows after the record of a failed attempt. -/
theorem mem_recordFailed {db : Database} {delivery : WebhookPendingDelivery}
    {failure : WebhookDeliveryFailure} {nextAttemptAt attemptedAt : ℤ} {row : DeliveryRow}
    (hrow : row ∈ (db.recordFailed delivery.subscriptionId delivery.event.sequence failure
      delivery.attempts nextAttemptAt attemptedAt).webhookDeliveries) :
    row ∈ db.webhookDeliveries ∨ Keyed.key row = delivery.key ∧ db.IsPending delivery.key ∧
      row.attemptCount = delivery.attempts := by
  obtain ⟨r, hr, rfl⟩ := (Database.mem_updatePendingDelivery (by intro; rfl)).mp hrow
  split_ifs with h
  · exact Or.inr ⟨Prod.ext h.1 h.2.1, ⟨r, hr, Prod.ext h.1 h.2.1, h.2.2⟩, rfl⟩
  · exact Or.inl hr

/-- The record of a failed attempt stays in the budget when it is one that the budget allows. -/
theorem Accounted.budgetKept_record (h : a.Accounted) {i : ℕ} {tick : DeliveryTick}
    {delivery : WebhookPendingDelivery} (hlabel : label.2 = .tick i .record)
    (htick : a.sys.ticks[i]? = some tick) (hfailing : tick.failing = some delivery)
    (hstep : a.Step label a') (hbudget : a.sys.db.IsPending delivery.key →
      a.ledger.Fresh i delivery.key ∨ delivery.attempts ≤ a.ledger.failures delivery.key) :
    a'.BudgetKept := by
  obtain ⟨now, action⟩ := label
  obtain ⟨-, rfl⟩ := hstep
  obtain rfl : action = .tick i .record := hlabel
  obtain ⟨failure, nextAttemptAt, hrecord⟩ :=
    DeliveryTick.step_record_of_failing a.sys.db hfailing
  have hdb := (a.sys.db_next_tick htick now .record).trans hrecord
  intro row hrow hstate
  have hle : a.ledger.failures (Keyed.key row) ≤
      (a.ledger.next a.sys (.tick i .record)).failures (Keyed.key row) := by
    rcases a.ledger.failures_next a.sys (.tick i .record) (Keyed.key row) with h | ⟨_, _, h, -⟩
    · exact h
    · cases h
  change row ∈ (a.sys.next now (.tick i .record)).db.webhookDeliveries at hrow
  rw [hdb] at hrow
  show row.attemptCount ≤ (a.ledger.next a.sys (.tick i .record)).failures (Keyed.key row)
  rcases mem_recordFailed hrow with hrow | ⟨hkey, hpending, hcount⟩
  · exact (h.budget row hrow hstate).trans hle
  · rw [hcount, hkey]
    by_cases hfresh : a.ledger.Fresh i delivery.key
    · rw [DeliveryLedger.failures_next_record htick hfailing hpending hfresh]
      have hread := h.attempts_le i tick htick delivery (DeliveryTick.mem_of_failing hfailing)
        hfresh
      have hattempts := delivery.attempts_le
      omega
    · rw [hkey] at hle
      exact ((hbudget hpending).resolve_left hfresh).trans hle

/-- A record that the budget does not allow takes from it. -/
theorem not_budgetKept_record {i : ℕ} {tick : DeliveryTick} {delivery : WebhookPendingDelivery}
    (hlabel : label.2 = .tick i .record) (htick : a.sys.ticks[i]? = some tick)
    (hfailing : tick.failing = some delivery) (hstep : a.Step label a')
    (hpending : a.sys.db.IsPending delivery.key) (hfresh : ¬a.ledger.Fresh i delivery.key)
    (hlt : a.ledger.failures delivery.key < delivery.attempts) : ¬a'.BudgetKept := by
  obtain ⟨now, action⟩ := label
  obtain ⟨-, rfl⟩ := hstep
  obtain rfl : action = .tick i .record := hlabel
  obtain ⟨failure, nextAttemptAt, hrecord⟩ :=
    DeliveryTick.step_record_of_failing a.sys.db hfailing
  obtain ⟨row, hrow, hkey, hstate⟩ := hpending
  intro hkept
  have hid : row.subscriptionId = delivery.subscriptionId := congrArg Prod.fst hkey
  have hn : row.eventSequence = delivery.event.sequence := congrArg Prod.snd hkey
  have hwritten : row.failed failure delivery.attempts nextAttemptAt tick.now ∈
      (a.sys.next now (.tick i .record)).db.webhookDeliveries := by
    rw [a.sys.db_next_tick htick, hrecord]
    refine (Database.mem_updatePendingDelivery (by intro; rfl)).mpr ⟨row, hrow, ?_⟩
    rw [if_pos ⟨hid, hn, hstate⟩]
  have hcount := hkept _ hwritten hstate
  have hledger : (a.next (now, .tick i .record)).ledger = a.ledger :=
    DeliveryLedger.next_record_of_not_fresh htick hfailing hfresh
  rw [hledger] at hcount
  exact absurd hcount (not_le.mpr (hkey ▸ hlt))

/-- Every other step keeps the budgets. -/
theorem Accounted.budgetKept_step (h : a.Accounted) (hstep : a.Step label a')
    (hmeets : RecordsInBudget ⟨a, label, a'⟩) : a'.BudgetKept := by
  by_cases hrecord : ∀ i tick, label.2 = .tick i .record → a.sys.ticks[i]? = some tick →
      tick.failing = none
  · have hkeeps := h.base.keepsAttempts hstep.base hrecord
    obtain ⟨now, action⟩ := label
    obtain ⟨-, rfl⟩ := hstep
    intro row' hrow' hstate
    rcases hkeeps row' hrow' hstate with hzero | ⟨row, hrow, hkey, hpending, hcount⟩
    · omega
    rcases a.ledger.failures_next a.sys action (Keyed.key row') with
      hle | ⟨actor, id, haction, hr, -⟩
    · have hbudget := h.budget row hrow hpending
      rw [hkey, hcount] at hbudget
      exact hbudget.trans hle
    · subst haction
      have hzero : row'.attemptCount = 0 := attemptCount_of_retries hr hrow'
      omega
  · push Not at hrecord
    obtain ⟨i, tick, hlabel, htick, hfailing⟩ := hrecord
    obtain ⟨delivery, hfailing⟩ := Option.ne_none_iff_exists'.mp hfailing
    exact h.budgetKept_record hlabel htick hfailing hstep
      (hmeets i (by rw [hlabel]; rfl) tick htick delivery hfailing)

/-- What a tick under way has read stays in the books. -/
theorem Accounted.step (h : a.Accounted) (hstep : a.Step label a')
    (hmeets : RecordsInBudget ⟨a, label, a'⟩) : a'.Accounted := by
  have hsys := hstep.base
  have hledger : a'.ledger = a.ledger.next a.sys label.2 := by rw [hstep.2]; rfl
  have hkept : ∀ {i : ℕ} {tick : DeliveryTick} {key : SubscriptionId × ℕ},
      a.sys.ticks[i]? = some tick → a'.ledger.Fresh i key →
      a.ledger.Fresh i key ∧ a.ledger.failures key ≤ a'.ledger.failures key := by
    intro i tick key htick hfresh
    have hi : i < a.sys.ticks.length := (List.getElem?_eq_some_iff.mp htick).1
    rw [hledger] at hfresh ⊢
    exact hfresh.of_next (h.claims_le i hi key) hi.ne
  refine ⟨h.base.step hsys, h.budgetKept_step hstep hmeets, ?_, ?_, ?_⟩
  · intro i hi key
    rw [hledger]
    have hle := a.ledger.retries_le_next a.sys label.2 key
    by_cases hold : i < a.sys.ticks.length
    · rw [DeliveryLedger.claims_next hold.ne]
      exact (h.claims_le i hold key).trans hle
    · obtain ⟨tick', htick'⟩ : ∃ tick', a'.sys.ticks[i]? = some tick' :=
        ⟨_, List.getElem?_eq_getElem hi⟩
      rcases DeliverySystem.getElem_ticks_cases hsys htick' with
        htick | ⟨tick, act, -, htick, -⟩ | ⟨hclaim, rfl, -⟩
      · exact absurd (List.getElem?_eq_some_iff.mp htick).1 hold
      · exact absurd (List.getElem?_eq_some_iff.mp htick).1 hold
      · rw [hclaim]
        simp [DeliveryLedger.next, DeliveryLedger.claim]
  · intro i tick' htick' delivery hdelivery hfresh
    rcases DeliverySystem.getElem_ticks_cases hsys htick' with
      htick | ⟨tick, act, -, htick, rfl⟩ | ⟨hclaim, rfl, claimed, db, hok, rfl⟩
    · obtain ⟨hbefore, hle⟩ := hkept htick hfresh
      exact (h.attempts_le i tick' htick delivery hdelivery hbefore).trans hle
    · obtain ⟨hbefore, hle⟩ := hkept htick hfresh
      exact (h.attempts_le i tick htick delivery (DeliveryTick.mem_remaining_step hdelivery)
        hbefore).trans hle
    · obtain ⟨row, hrow, hid, hn, hdue, hcount⟩ :=
        (Database.claimDueDeliveries_eq_ok hok).2 delivery hdelivery
      have hbudget := h.budget row hrow hdue.2.2.2.1
      rw [show Keyed.key row = delivery.key from Prod.ext hid hn] at hbudget
      rw [hledger, hclaim]
      exact hcount.trans hbudget
  · intro i tick' delivery htick' hexhausting
    rcases DeliverySystem.getElem_ticks_cases hsys htick' with
      htick | ⟨tick, act, hact, htick, rfl⟩ | ⟨-, -, claimed, db, -, rfl⟩
    · have hdelivery := DeliveryTick.mem_of_exhausting hexhausting
      obtain ⟨hmax, hcounted⟩ := h.exhausted i tick' delivery htick hexhausting
      refine ⟨hmax, fun hpending hfresh => ?_⟩
      obtain ⟨hbefore, hle⟩ := hkept htick hfresh
      exact (hcounted (h.base.isPending_of_step hsys (List.mem_of_getElem? htick) hdelivery
        hpending) hbefore).trans hle
    · rcases DeliveryTick.exhausting_step hexhausting with hexhausting | ⟨rfl, hfailing, hmax⟩
      · have hdelivery := DeliveryTick.mem_of_exhausting hexhausting
        obtain ⟨hmax, hcounted⟩ := h.exhausted i tick delivery htick hexhausting
        refine ⟨hmax, fun hpending hfresh => ?_⟩
        obtain ⟨hbefore, hle⟩ := hkept htick hfresh
        exact (hcounted (h.base.isPending_of_step hsys (List.mem_of_getElem? htick) hdelivery
          hpending) hbefore).trans hle
      · have hdelivery := DeliveryTick.mem_of_failing hfailing
        refine ⟨hmax, fun hpending hfresh => ?_⟩
        have hpending := h.base.isPending_of_step hsys (List.mem_of_getElem? htick) hdelivery
          hpending
        have hbefore := (hkept htick hfresh).1
        have hread := h.attempts_le i tick htick delivery hdelivery hbefore
        have hattempts := delivery.attempts_le
        rw [hledger, hact, DeliveryLedger.failures_next_record htick hfailing hpending hbefore]
        omega
    · cases hexhausting

/-- The subscription that was disabled is the one named. -/
theorem subscription_of_disableExhausted {db : Database} {id : SubscriptionId} {now : ℤ}
    {s s' : SubscriptionRow} (hs : s ∈ db.webhookSubscriptions) (hactive : s.state = .active)
    (hs' : s' ∈ (db.disableExhaustedSubscription id now).webhookSubscriptions)
    (hid : s'.subscriptionId = s.subscriptionId)
    (hdisabled : s'.state = .disabled .deliveryExhausted) : s.subscriptionId = id := by
  unfold Database.disableExhaustedSubscription at hs'
  dsimp only at hs'
  rw [Table.mem_modify] at hs'
  obtain ⟨r, hr, rfl⟩ := hs'
  have heq : r = s := by
    refine Table.eq_of_key_eq hr hs (Eq.trans ?_ hid)
    split_ifs <;> rfl
  subst heq
  split_ifs at hdisabled with hp
  · simp only [decide_eq_true_eq] at hp
    exact hp.1
  · rw [hactive] at hdisabled
    cases hdisabled

/-- A subscription is disabled for the head of its queue, which has used its budget. -/
theorem Accounted.disablesSoundly (h : a.Accounted) (hstep : a.Step label a')
    (hmeets : DisablesForPending ⟨a, label, a'⟩) : DisablesSoundly ⟨a, label, a'⟩ := by
  by_cases hdisable : ∀ i tick, label.2 = .tick i .disable → a.sys.ticks[i]? = some tick →
      tick.exhausting = none
  · intro s hs hactive s' hs' hid hdisabled
    exact absurd hdisabled (h.base.keepsActive hstep.base hdisable s hs hactive s' hs' hid)
  push Not at hdisable
  obtain ⟨i, tick, hlabel, htick, hexhausting⟩ := hdisable
  obtain ⟨delivery, hexhausting⟩ := Option.ne_none_iff_exists'.mp hexhausting
  intro s hs hactive s' hs' hid hdisabled
  -- the subscription is that of the exhausted delivery
  have hsame : s.subscriptionId = delivery.subscriptionId := by
    obtain ⟨now, action⟩ := label
    obtain ⟨-, rfl⟩ := hstep
    obtain rfl : action = .tick i .disable := hlabel
    change s' ∈ (a.sys.next now (.tick i .disable)).db.webhookSubscriptions at hs'
    rw [a.sys.db_next_tick htick] at hs'
    rcases tick.step_disable a.sys.db with heq | ⟨d, hd, heq⟩
    · rw [heq] at hs'
      rw [Table.eq_of_key_eq hs' hs hid, hactive] at hdisabled
      cases hdisabled
    · obtain rfl : d = delivery := Option.some.inj (hd.symm.trans hexhausting)
      rw [heq] at hs'
      exact subscription_of_disableExhausted hs hactive hs' hid hdisabled
  obtain ⟨hpending, hcounted⟩ := hmeets i (by rw [hlabel]; rfl) tick htick delivery hexhausting
    ⟨s, hs, hsame, hactive⟩
  have hfailures : webhookMaxAttempts ≤ a.ledger.failures delivery.key := by
    obtain ⟨hmax, hfresh⟩ := h.exhausted i tick delivery htick hexhausting
    rcases hcounted with hcounted | hcounted
    · exact hmax.trans (hfresh hpending hcounted)
    · exact hcounted
  obtain ⟨row, hrow, hkey, hstate⟩ := hpending
  have hclaimed := h.base.claimed tick (List.mem_of_getElem? htick) delivery
    (DeliveryTick.mem_of_exhausting hexhausting)
  refine ⟨row, hrow, (congrArg Prod.fst hkey).trans hsame.symm, ?_, hkey ▸ hfailures⟩
  rw [Database.isHead_iff hrow]
  refine ⟨hstate, ?_⟩
  have hmem := Database.mem_pending hrow hstate
  have hleast := hclaimed.isLeast (DeliverySystem.isPending_iff.mp ⟨row, hrow, hkey, hstate⟩)
  rw [show row.subscriptionId = delivery.subscriptionId from congrArg Prod.fst hkey,
    show row.eventSequence = delivery.event.sequence from congrArg Prod.snd hkey]
  exact hleast

/-- In every run, the budgets are kept in every state exactly when every failed attempt that is
recorded is one the budget allows. When in addition a tick disables a subscription only for a
delivery that is still pending, and not for one retried since, the head of the subscription has
used its budget. -/
theorem exhaustion_sound {moves : List (Move AuditedSystem (ℤ × DeliveryAction))}
    (h : Run Step start moves a) :
    ((∀ m ∈ moves, m.post.BudgetKept) ↔ ∀ m ∈ moves, RecordsInBudget m) ∧
      ((∀ m ∈ moves, RecordsInBudget m ∧ DisablesForPending m) →
        ∀ m ∈ moves, m.post.BudgetKept ∧ DisablesSoundly m) := by
  have haccounted : (∀ m ∈ moves, RecordsInBudget m) →
      a.Accounted ∧ ∀ m ∈ moves, m.pre.Accounted := by
    induction h with
    | nil => exact fun _ => ⟨accounted_start, by simp⟩
    | snoc h hlast ih =>
      intro hmeets
      obtain ⟨hend, hpre⟩ := ih fun m hm => hmeets m (List.mem_append_left _ hm)
      refine ⟨hend.step hlast (hmeets _ (List.mem_append_right _ (List.mem_singleton_self _))), ?_⟩
      intro m hm
      rcases List.mem_append.mp hm with hm | hm
      · exact hpre m hm
      · rw [List.mem_singleton.mp hm]
        exact hend
  have hkept : (∀ m ∈ moves, RecordsInBudget m) → ∀ m ∈ moves, m.post.BudgetKept := by
    intro hmeets m hm
    exact ((haccounted hmeets).2 m hm).budgetKept_step (h.of_mem hm).2.1 (hmeets m hm)
  refine ⟨⟨?_, hkept⟩, ?_⟩
  · intro hbudget m hm i hi tick htick delivery hfailing hpending
    by_contra hnot
    push Not at hnot
    exact not_budgetKept_record (DeliveryAction.eq_of_recordedBy hi) htick hfailing
      (h.of_mem hm).2.1 hpending hnot.1 hnot.2
      (hbudget m hm)
  · intro hmeets m hm
    have hrecords := fun m hm => (hmeets m hm).1
    exact ⟨hkept hrecords m hm, ((haccounted hrecords).2 m hm).disablesSoundly
      (h.of_mem hm).2.1 (hmeets m hm).2⟩

end AuditedSystem

/-! ## Ten failures -/

/-- One action of a run. -/
def sampleAuditedNext (a : AuditedSystem) (label : ℤ × DeliveryAction) : AuditedSystem :=
  a.next label

theorem run_audited (labels : List (ℤ × DeliveryAction))
    (h : ∀ label ∈ labels, label.2.isClosed = true) :
    Run AuditedSystem.Step .start (Run.trace sampleAuditedNext .start labels)
      (labels.foldl sampleAuditedNext .start) := by
  refine Run.run_trace_of_legal sampleAuditedNext _ _ fun m hm => ?_
  have hclosed := h m.label (Run.label_mem_of_mem_trace hm)
  unfold DeliverySystem.Allowed
  split
  · next heq => simp [heq, DeliveryAction.isClosed] at hclosed
  · next heq => simp [heq, DeliveryAction.isClosed] at hclosed
  · trivial

open Database in
/-- Alice subscribes to her notes and makes two changes. -/
def twoChanges : List (ℤ × DeliveryAction) :=
  [(0, .login alice.authenticatedIdentity),
    (0, .owner alice (.create ⟨1⟩ "https://receiver.example.test/hook"
      [.noteCreated, .noteUpdated] "secret")),
    (0, .owner alice (.activate ⟨1⟩)),
    (10, .command (.create alice ⟨1⟩ ⟨"A", "= A", []⟩ ⟨[], [], []⟩ 10 .web)),
    (20, .command (.update alice ⟨1⟩ 1 ⟨"A", "= A\n\nB", []⟩ ⟨[], [], []⟩ 20))]

/-- A round of a tick to a receiver that does not answer. -/
def timedOutRound (i : ℕ) : List (ℤ × DeliveryAction) :=
  [((i + 1) * 4000000, .claim), ((i + 1) * 4000000, .tick i (.send (.error .timedOut))),
    ((i + 1) * 4000000, .tick i .record)]

/-- The first change times out ten times, and the subscription is disabled. -/
def tenFailures : List (ℤ × DeliveryAction) :=
  twoChanges ++ (List.range 10).flatMap timedOutRound ++ [(40000010, .tick 9 .disable)]

theorem exhaustion_sound_tenFailures :
    ∃ a, Run AuditedSystem.Step .start (Run.trace sampleAuditedNext .start tenFailures) a ∧
      ∀ m ∈ Run.trace sampleAuditedNext .start tenFailures,
        m.post.BudgetKept ∧ AuditedSystem.DisablesSoundly m := by
  have hrun := run_audited tenFailures (by decide)
  exact ⟨_, hrun, (AuditedSystem.exhaustion_sound hrun).2 (by decide +kernel)⟩

open Database in
/-- Alice discards the first change when its last attempt is recorded and its subscription is not
disabled yet. -/
def tenFailuresThenDiscard : List (ℤ × DeliveryAction) :=
  twoChanges ++ (List.range 10).flatMap timedOutRound ++ [(40000005, .owner alice (.discard ⟨1⟩))]

open Database in
/-- Alice retries the first change between its first attempt and the record of it. -/
def failureThenRetry : List (ℤ × DeliveryAction) :=
  twoChanges ++ [(4000000, .claim), (4000000, .tick 0 (.send (.error .timedOut))),
    (4000005, .owner alice (.retry ⟨1⟩)), (4000010, .tick 0 .record)]

/-- The tick goes on to disable the subscription, whose oldest pending delivery is now the second
change, which was never sent. And where Alice retries instead, the record of an attempt that was
claimed before takes from the budget that she restored. -/
theorem discarded_head_disables :
    (∃ moves a, Run AuditedSystem.Step .start moves a ∧
      ∃ m ∈ moves, ¬AuditedSystem.DisablesSoundly m) ∧
    ∃ moves a, Run AuditedSystem.Step .start moves a ∧ ¬a.BudgetKept := by
  constructor
  · obtain ⟨discarded, hdef⟩ : ∃ a, a = tenFailuresThenDiscard.foldl sampleAuditedNext .start :=
      ⟨_, rfl⟩
    have hrun : Run AuditedSystem.Step .start _ discarded :=
      hdef ▸ run_audited tenFailuresThenDiscard (by decide)
    have hstep : AuditedSystem.Step discarded (40000010, .tick 9 .disable)
        (discarded.next (40000010, .tick 9 .disable)) := ⟨trivial, rfl⟩
    refine ⟨_, _, hrun.snoc hstep, _, List.mem_append_right _ (List.mem_singleton_self _),
      fun hsound => ?_⟩
    have hactive : ∃ s ∈ discarded.sys.db.webhookSubscriptions,
        s.subscriptionId = ⟨1⟩ ∧ s.state = .active := by
      rw [hdef]
      decide +kernel
    have hdisabled :
        ∃ s ∈ (discarded.next (40000010, .tick 9 .disable)).sys.db.webhookSubscriptions,
          s.subscriptionId = ⟨1⟩ ∧ s.state = .disabled .deliveryExhausted := by
      rw [hdef]
      decide +kernel
    have hunsent : ∀ row ∈ discarded.sys.db.webhookDeliveries, row.subscriptionId = ⟨1⟩ →
        discarded.sys.db.IsHead row → discarded.ledger.failures (Keyed.key row) = 0 := by
      rw [hdef]
      decide +kernel
    obtain ⟨s, hs, hid, hactive⟩ := hactive
    obtain ⟨s', hs', hid', hdisabled⟩ := hdisabled
    obtain ⟨row, hrow, hrowid, hhead, hmax⟩ :=
      hsound s hs hactive s' hs' (hid'.trans hid.symm) hdisabled
    have hzero := hunsent row hrow (hrowid.trans hid) hhead
    rw [hzero] at hmax
    exact absurd hmax (by decide)
  · refine ⟨_, _, run_audited failureThenRetry (by decide), fun hkept => ?_⟩
    have hspent :
        ∃ row ∈ (failureThenRetry.foldl sampleAuditedNext .start).sys.db.webhookDeliveries,
        row.state = .pending ∧ (failureThenRetry.foldl sampleAuditedNext .start).ledger.failures
          (Keyed.key row) < row.attemptCount := by decide +kernel
    obtain ⟨row, hrow, hstate, hlt⟩ := hspent
    exact absurd (hkept row hrow hstate) (not_le.mpr hlt)

end Marginalis
