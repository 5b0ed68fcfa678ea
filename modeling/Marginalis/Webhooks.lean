import Marginalis.Changes
import Marginalis.Result
import Mathlib.Data.List.Sort

/-!
# Webhooks

A recorded change is fanned out to delivery rows (`fanOutRows`), and the transactions of this
module move them on. A tick claims the oldest pending delivery of each active subscription
under a lease (`claimDueDeliveries`), and after each answer of the receiver records it
(`recordDelivered`, `recordFailed`), or disables a subscription whose attempts are exhausted.
The owner of a subscription can retry or discard its oldest pending delivery, and an age
limit clears what is finished (`purgeExpiredDeliveries`).

`webhookDeliveryTick` is one tick with nothing between its transactions. `receiver` stands for
the receivers behind the sender : what each answers to a delivery.
-/

namespace Marginalis

/-! ## Limits -/

/-- `WEBHOOK_MAX_ATTEMPTS`. -/
def webhookMaxAttempts : ℕ := 10

def webhookBackoffBaseMs : ℤ := 5000

def webhookBackoffMaxMs : ℤ := 3600000

/-- How long a claimed delivery is kept from other ticks. -/
def webhookLeaseMs : ℤ := 60000

/-- How long a finished delivery is kept. -/
def webhookRetentionMs : ℤ := 7 * dayMs

/-- How many deliveries a tick claims. -/
def webhookDeliveryBatch : ℕ := 4

def u32Max : ℕ := 4294967295

/-- `webhook_backoff_ms` : doubled with every attempt, up to a limit. -/
def webhookBackoffMs (attemptsSoFar : ℕ) : ℤ :=
  min (webhookBackoffBaseMs * 2 ^ min (attemptsSoFar - 1) 30) webhookBackoffMaxMs

/-! ## Claimed deliveries -/

structure WebhookEvent where
  kind : ChangeKind
  sequence : ℕ
  targetId : ℕ
  revision : ℕ
  occurredAt : ℤ
  deriving DecidableEq, Repr

/-- A delivery as a tick has claimed it. `attemptCount` does not include the attempt to come. -/
structure WebhookPendingDelivery where
  subscriptionId : SubscriptionId
  url : String
  secret : String
  attemptCount : ℕ
  event : WebhookEvent
  deriving DecidableEq, Repr

/-- The attempts including this one, in a `u32`. -/
def WebhookPendingDelivery.attempts (delivery : WebhookPendingDelivery) : ℕ :=
  min (delivery.attemptCount + 1) u32Max

/-- What a tick has done, for its log. -/
structure WebhookTickOutcome where
  delivered : List SubscriptionId
  failed : List (SubscriptionId × WebhookDeliveryFailure)
  disabled : List SubscriptionId
  deriving DecidableEq, Repr

/-! ## Updates of a delivery row -/

namespace DeliveryRow

variable (row : DeliveryRow)

def leased (leaseUntil : ℤ) : DeliveryRow := { row with leaseExpiresAt := some leaseUntil }

def delivered (deliveredAt : ℤ) : DeliveryRow :=
  { row with
    state := .delivered, leaseExpiresAt := none, lastFailure := none
    lastAttemptedAt := some deliveredAt }

def failed (failure : WebhookDeliveryFailure) (attemptCount : ℕ)
    (nextAttemptAt attemptedAt : ℤ) : DeliveryRow :=
  { row with
    attemptCount := attemptCount, nextAttemptAt := nextAttemptAt, leaseExpiresAt := none
    lastFailure := some failure, lastAttemptedAt := some attemptedAt }

def retried (now : ℤ) : DeliveryRow :=
  { row with attemptCount := 0, nextAttemptAt := now, leaseExpiresAt := none }

def discarded (now : ℤ) : DeliveryRow :=
  { row with state := .discarded, leaseExpiresAt := none, lastAttemptedAt := some now }

end DeliveryRow

/-! ## The delivery repository -/

namespace Database

variable (db : Database)

/-- The row is pending, and no other of its subscription was recorded before it. -/
def IsHead (row : DeliveryRow) : Prop :=
  row.state = .pending ∧ ∀ head ∈ db.webhookDeliveries,
    head.subscriptionId = row.subscriptionId ∧ head.state = .pending →
      row.eventSequence ≤ head.eventSequence

instance (row : DeliveryRow) : Decidable (db.IsHead row) := by
  unfold IsHead
  infer_instance

/-- The condition of `claim_due_deliveries`. -/
def IsDue (now : ℤ) (row : DeliveryRow) : Prop :=
  (∃ s ∈ db.webhookSubscriptions, s.subscriptionId = row.subscriptionId ∧ s.state = .active) ∧
    row.nextAttemptAt ≤ now ∧ (∀ lease ∈ row.leaseExpiresAt, lease ≤ now) ∧ db.IsHead row

instance (now : ℤ) (row : DeliveryRow) : Decidable (db.IsDue now row) := by
  unfold IsDue
  infer_instance

/-- `UPDATE webhook_deliveries` of the delivery of one change, when it is pending. -/
def updatePendingDelivery (subscriptionId : SubscriptionId) (eventSequence : ℕ)
    (set : DeliveryRow → DeliveryRow) (hset : ∀ r, Keyed.key (set r) = Keyed.key r) : Database :=
  { db with
    webhookDeliveries := db.webhookDeliveries.modify
      (fun row => row.subscriptionId = subscriptionId ∧ row.eventSequence = eventSequence ∧
        row.state = .pending) set hset }

/-- `UPDATE webhook_deliveries` of the oldest pending delivery of a subscription. -/
def updateHeadDelivery (subscriptionId : SubscriptionId)
    (set : DeliveryRow → DeliveryRow) (hset : ∀ r, Keyed.key (set r) = Keyed.key r) : Database :=
  { db with
    webhookDeliveries := db.webhookDeliveries.modify
      (fun row => row.subscriptionId = subscriptionId ∧ db.IsHead row) set hset }

theorem mem_updatePendingDelivery {db : Database} {id : SubscriptionId} {n : ℕ}
    {set : DeliveryRow → DeliveryRow} (hset : ∀ r, Keyed.key (set r) = Keyed.key r)
    {row : DeliveryRow} : row ∈ (db.updatePendingDelivery id n set hset).webhookDeliveries ↔
      ∃ r ∈ db.webhookDeliveries, row = if r.subscriptionId = id ∧ r.eventSequence = n ∧
        r.state = .pending then set r else r := by
  unfold updatePendingDelivery
  dsimp only
  rw [Table.mem_modify]
  simp only [decide_eq_true_eq]

theorem mem_updateHeadDelivery {db : Database} {id : SubscriptionId}
    {set : DeliveryRow → DeliveryRow} (hset : ∀ r, Keyed.key (set r) = Keyed.key r)
    {row : DeliveryRow} : row ∈ (db.updateHeadDelivery id set hset).webhookDeliveries ↔
      ∃ r ∈ db.webhookDeliveries,
        row = if r.subscriptionId = id ∧ db.IsHead r then set r else r := by
  unfold updateHeadDelivery
  dsimp only
  rw [Table.mem_modify]
  simp only [decide_eq_true_eq]

/-- The claimed row with its subscription and its change. -/
def readPendingDelivery (row : DeliveryRow) : Except StorageError WebhookPendingDelivery :=
  match db.webhookDeliveries.find (row.subscriptionId, row.eventSequence),
      db.webhookSubscriptions.find row.subscriptionId, db.domainChanges.find row.eventSequence with
  | some d, some s, some e =>
    .ok
      { subscriptionId := row.subscriptionId
        url := s.url
        secret := s.secret
        attemptCount := if d.attemptCount ≤ u32Max then d.attemptCount else 0
        event :=
          { kind := e.changeKind
            sequence := row.eventSequence
            targetId := e.targetId
            revision := e.revision
            occurredAt := e.occurredAt } }
  | _, _, _ => .error .unavailable

/-- The due rows in the order of their changes, up to the limit. -/
def dueDeliveries (now : ℤ) (limit : ℕ) : List DeliveryRow :=
  ((db.webhookDeliveries.select fun row => db.IsDue now row).insertionSort
    fun a b => a.eventSequence ≤ b.eventSequence).take limit

/-- `claim_due_deliveries`. Every row is still pending when its lease is set, so each of the
updates meets its row. -/
def claimDueDeliveries (now leaseUntil : ℤ) (limit : ℕ) :
    Except StorageError (List WebhookPendingDelivery × Database) := do
  let rows := db.dueDeliveries now limit
  let db := rows.foldl (fun db row => db.updatePendingDelivery row.subscriptionId
    row.eventSequence (·.leased leaseUntil) fun _ => rfl) db
  let deliveries ← rows.mapM db.readPendingDelivery
  return (deliveries, db)

/-- `record_delivered`. -/
def recordDelivered (subscriptionId : SubscriptionId) (eventSequence : ℕ) (deliveredAt : ℤ) :
    Database :=
  db.updatePendingDelivery subscriptionId eventSequence (·.delivered deliveredAt) fun _ => rfl

/-- `record_failed`. -/
def recordFailed (subscriptionId : SubscriptionId) (eventSequence : ℕ)
    (failure : WebhookDeliveryFailure) (attemptCount : ℕ) (nextAttemptAt attemptedAt : ℤ) :
    Database :=
  db.updatePendingDelivery subscriptionId eventSequence
    (·.failed failure attemptCount nextAttemptAt attemptedAt) fun _ => rfl

/-- `disable_exhausted_subscription`. -/
def disableExhaustedSubscription (subscriptionId : SubscriptionId) (disabledAt : ℤ) : Database :=
  { db with
    webhookSubscriptions := db.webhookSubscriptions.modify
      (fun s => s.subscriptionId = subscriptionId ∧ s.state = .active)
      fun s => { s with
        state := .disabled .deliveryExhausted, updatedAt := disabledAt,
        revision := s.revision + 1 } }

/-- A finished delivery that is old enough. -/
def purgedDelivery (horizon : ℤ) (row : DeliveryRow) : Bool :=
  row.state ≠ .pending ∧ ∃ attempted ∈ row.lastAttemptedAt, attempted ≤ horizon

/-- A change of the webhook kinds that nothing refers to. -/
def purgedWebhookChange (horizon : ℤ) (row : DomainChangeRow) : Bool :=
  row.occurredAt ≤ horizon ∧ row.changeKind.isWebhookEvent = true ∧
    (¬∃ d ∈ db.webhookDeliveries, d.eventSequence = row.changeSequence) ∧
    ¬∃ sync ∈ db.noteSyncProjection, sync.changeSequence = row.changeSequence

/-- `purge_expired_deliveries`, with the number of deliveries it deleted. -/
def purgeExpiredDeliveries (now : ℤ) : ℕ × Database :=
  let horizon := saturatingSub now webhookRetentionMs
  let deliveries := db.webhookDeliveries.deleteWhere (purgedDelivery horizon)
  let count := db.webhookDeliveries.rows.length - deliveries.rows.length
  let db := { db with webhookDeliveries := deliveries }
  (count, { db with
    domainChanges := db.domainChanges.deleteWhere (db.purgedWebhookChange horizon) })

end Database

/-! ## The subscription repository -/

namespace Database

variable (db : Database) (actor : Actor) (subscriptionId : SubscriptionId)

/-- The actor owns the subscription. -/
def Owned : Prop :=
  ∃ s ∈ db.webhookSubscriptions, s.subscriptionId = subscriptionId ∧ s.owner = actor.principalId

instance : Decidable (db.Owned actor subscriptionId) := by
  unfold Owned
  infer_instance

/-- `create_owned_subscription`. -/
def createOwnedSubscription (url : String) (eventKinds : List ChangeKind) (secret : String)
    (now : ℤ) : Except StorageError Database :=
  if (db.principals.find actor.principalId).isSome then
    match db.webhookSubscriptions.insert? ⟨subscriptionId, actor.principalId, url, secret,
        eventKinds, .pendingChallenge, now, now, 1⟩ with
    | some subscriptions => .ok { db with webhookSubscriptions := subscriptions }
    | none => .error .unavailable
  else .error .unavailable

/-- `UPDATE webhook_subscriptions` of a subscription of the actor. -/
def updateOwnedSubscription (set : SubscriptionRow → SubscriptionRow)
    (hset : ∀ s, Keyed.key (set s) = Keyed.key s) : Bool × Database :=
  (db.Owned actor subscriptionId, { db with
    webhookSubscriptions := db.webhookSubscriptions.modify
      (fun s => s.subscriptionId = subscriptionId ∧ s.owner = actor.principalId) set hset })

/-- `activate_owned_subscription`. -/
def activateOwnedSubscription (now : ℤ) : Bool × Database :=
  db.updateOwnedSubscription actor subscriptionId
    (fun s => { s with state := .active, updatedAt := now, revision := s.revision + 1 })
    fun _ => rfl

/-- `replace_owned_secret`. -/
def replaceOwnedSecret (secret : String) (now : ℤ) : Bool × Database :=
  db.updateOwnedSubscription actor subscriptionId
    (fun s => { s with secret := secret, updatedAt := now, revision := s.revision + 1 })
    fun _ => rfl

/-- `delete_owned_subscription`, with the cascade to its deliveries. -/
def deleteOwnedSubscription : Bool × Database :=
  if db.Owned actor subscriptionId then
    (true, { db with
      webhookSubscriptions := db.webhookSubscriptions.deleteWhere fun s =>
        s.subscriptionId = subscriptionId ∧ s.owner = actor.principalId
      webhookDeliveries := db.webhookDeliveries.deleteWhere fun row =>
        row.subscriptionId = subscriptionId })
  else (false, db)

/-- A subscription that was disabled for its attempts is active again. -/
def reactivateExhausted (now : ℤ) : Database :=
  { db with
    webhookSubscriptions := db.webhookSubscriptions.modify
      (fun s => s.subscriptionId = subscriptionId ∧ s.state = .disabled .deliveryExhausted)
      fun s => { s with state := .active, updatedAt := now, revision := s.revision + 1 } }

/-- `retry_owned_head_delivery`. -/
def retryOwnedHeadDelivery (now : ℤ) : Bool × Database :=
  if db.Owned actor subscriptionId then
    (true, (db.updateHeadDelivery subscriptionId (·.retried now) fun _ => rfl).reactivateExhausted
      subscriptionId now)
  else (false, db)

/-- `discard_owned_head_delivery`. -/
def discardOwnedHeadDelivery (now : ℤ) : Bool × Database :=
  if db.Owned actor subscriptionId then
    (true, (db.updateHeadDelivery subscriptionId (·.discarded now) fun _ => rfl).reactivateExhausted
      subscriptionId now)
  else (false, db)

end Database

/-! ## The tick -/

section Tick

variable (receiver : WebhookPendingDelivery → Except WebhookDeliveryFailure Unit) (now : ℤ)

/-- One round of the loop : send, record the answer, and disable after the last attempt. -/
def deliverOne (done : WebhookTickOutcome × Database) (delivery : WebhookPendingDelivery) :
    WebhookTickOutcome × Database :=
  let (outcome, db) := done
  match receiver delivery with
  | .ok () =>
    ({ outcome with delivered := outcome.delivered ++ [delivery.subscriptionId] },
      db.recordDelivered delivery.subscriptionId delivery.event.sequence now)
  | .error failure =>
    let nextAttemptAt := saturatingAdd now (webhookBackoffMs delivery.attempts)
    let db := db.recordFailed delivery.subscriptionId delivery.event.sequence failure
      delivery.attempts nextAttemptAt now
    let outcome := { outcome with failed := outcome.failed ++ [(delivery.subscriptionId, failure)] }
    if webhookMaxAttempts ≤ delivery.attempts then
      ({ outcome with disabled := outcome.disabled ++ [delivery.subscriptionId] },
        db.disableExhaustedSubscription delivery.subscriptionId now)
    else (outcome, db)

/-- `webhook_delivery_tick`. -/
def webhookDeliveryTick (db : Database) : Except StorageError (WebhookTickOutcome × Database) := do
  let leaseUntil := saturatingAdd now webhookLeaseMs
  let (claimed, db) ← db.claimDueDeliveries now leaseUntil webhookDeliveryBatch
  return claimed.foldl (deliverOne receiver now) (⟨[], [], []⟩, db)

end Tick

end Marginalis
