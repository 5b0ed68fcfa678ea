import Marginalis.LibraryRuns
import Marginalis.PurgeNotes
import Marginalis.RowWrites
import Marginalis.SyncRuns

/-!
# The webhook outbox

`DeliverySystem` is a database with the ticks that are under way. A tick stops between any two
of its transactions and goes on with what it has claimed, and in between it may have lost its
lease, its delivery or the subscription.

Each step is one step of the queues (`DeliverySystem.Consistent.refines`), so the delivery a
tick has claimed stays the head of its queue until it is finished. That is what keeps a
receiver from hearing of two changes in the wrong order, in every interleaving. What a step
writes to notes and items it records, so nothing an owner subscribed to is missing
(`DeliverySystem.outbox_integrity`).
-/

namespace Marginalis

/-! ## Ticks under way -/

/-- What a tick does next with the first of its remaining deliveries. -/
inductive TickStage
  | sending
  | answered (answer : Except WebhookDeliveryFailure Unit)
  | exhausted

/-- A tick between two of its transactions. -/
structure DeliveryTick where
  now : ℤ
  remaining : List WebhookPendingDelivery
  stage : TickStage
  outcome : WebhookTickOutcome

/-- A tick stops when a transaction fails, or with the process. -/
inductive TickAction
  | send (answer : Except WebhookDeliveryFailure Unit)
  | record
  | disable
  | abort

namespace DeliveryTick

/-- A tick that has claimed its deliveries. -/
def start (now : ℤ) (claimed : List WebhookPendingDelivery) : DeliveryTick :=
  ⟨now, claimed, .sending, ⟨[], [], []⟩⟩

/-- One step of the loop of `webhook_delivery_tick`. -/
def step (tick : DeliveryTick) (db : Database) : TickAction → DeliveryTick × Database
  | .send answer =>
    match tick.stage, tick.remaining with
    | .sending, _ :: _ => ({ tick with stage := .answered answer }, db)
    | _, _ => (tick, db)
  | .record =>
    match tick.stage, tick.remaining with
    | .answered (.ok ()), delivery :: rest =>
      ({ tick with
          remaining := rest
          stage := .sending
          outcome := { tick.outcome with
            delivered := tick.outcome.delivered ++ [delivery.subscriptionId] } },
        db.recordDelivered delivery.subscriptionId delivery.event.sequence tick.now)
    | .answered (.error failure), delivery :: rest =>
      let nextAttemptAt := saturatingAdd tick.now (webhookBackoffMs delivery.attempts)
      let outcome := { tick.outcome with
        failed := tick.outcome.failed ++ [(delivery.subscriptionId, failure)] }
      (if webhookMaxAttempts ≤ delivery.attempts then
          { tick with stage := .exhausted, outcome := outcome }
        else { tick with remaining := rest, stage := .sending, outcome := outcome },
        db.recordFailed delivery.subscriptionId delivery.event.sequence failure
          delivery.attempts nextAttemptAt tick.now)
    | _, _ => (tick, db)
  | .disable =>
    match tick.stage, tick.remaining with
    | .exhausted, delivery :: rest =>
      ({ tick with
          remaining := rest
          stage := .sending
          outcome := { tick.outcome with
            disabled := tick.outcome.disabled ++ [delivery.subscriptionId] } },
        db.disableExhaustedSubscription delivery.subscriptionId tick.now)
    | _, _ => (tick, db)
  | .abort => ({ tick with remaining := [] }, db)

/-- A step writes nothing, or the answer to the first remaining delivery, or disables its
subscription. -/
theorem step_cases (tick : DeliveryTick) (db : Database) (a : TickAction) :
    (tick.step db a).2 = db ∨ ∃ delivery ∈ tick.remaining,
      (tick.step db a).2 =
        db.recordDelivered delivery.subscriptionId delivery.event.sequence tick.now ∨
      (∃ failure nextAttemptAt, (tick.step db a).2 =
        db.recordFailed delivery.subscriptionId delivery.event.sequence failure
          delivery.attempts nextAttemptAt tick.now) ∨
      (tick.step db a).2 = db.disableExhaustedSubscription delivery.subscriptionId tick.now := by
  obtain ⟨now, remaining, stage, outcome⟩ := tick
  cases a with
  | send answer =>
    refine Or.inl ?_
    cases stage <;> cases remaining <;> rfl
  | record =>
    cases remaining with
    | nil =>
      refine Or.inl ?_
      rcases stage with _ | (failure | ⟨⟩) | _ <;> rfl
    | cons delivery rest =>
      rcases stage with _ | (failure | ⟨⟩) | _
      · exact Or.inl rfl
      · exact Or.inr ⟨delivery, List.mem_cons_self .., Or.inr (Or.inl ⟨failure, _, rfl⟩)⟩
      · exact Or.inr ⟨delivery, List.mem_cons_self .., Or.inl rfl⟩
      · exact Or.inl rfl
  | disable =>
    cases remaining with
    | nil =>
      refine Or.inl ?_
      cases stage <;> rfl
    | cons delivery rest =>
      cases stage with
      | sending | answered => exact Or.inl rfl
      | exhausted => exact Or.inr ⟨delivery, List.mem_cons_self .., Or.inr (Or.inr rfl)⟩
  | abort => exact Or.inl rfl

/-- A tick claims no more once it is under way. -/
theorem mem_remaining_step {tick : DeliveryTick} {db : Database} {a : TickAction}
    {delivery : WebhookPendingDelivery} (h : delivery ∈ (tick.step db a).1.remaining) :
    delivery ∈ tick.remaining := by
  obtain ⟨now, remaining, stage, outcome⟩ := tick
  cases a with
  | send answer => cases stage <;> cases remaining <;> exact h
  | record =>
    cases remaining with
    | nil => rcases stage with _ | (failure | ⟨⟩) | _ <;> exact h
    | cons first rest =>
      rcases stage with _ | (failure | ⟨⟩) | _
      · exact h
      · simp only [step] at h
        split_ifs at h
        · exact h
        · exact List.mem_cons_of_mem _ h
      · exact List.mem_cons_of_mem _ h
      · exact h
  | disable =>
    cases remaining with
    | nil => cases stage <;> exact h
    | cons first rest =>
      cases stage with
      | sending | answered => exact h
      | exhausted => exact List.mem_cons_of_mem _ h
  | abort => cases h

end DeliveryTick

/-! ## The system -/

/-- What an owner does with a subscription. -/
inductive SubscriptionCommand
  | create (subscriptionId : SubscriptionId) (url : String) (eventKinds : List ChangeKind)
      (secret : String)
  | activate (subscriptionId : SubscriptionId)
  | replaceSecret (subscriptionId : SubscriptionId) (secret : String)
  | retry (subscriptionId : SubscriptionId)
  | discard (subscriptionId : SubscriptionId)
  | delete (subscriptionId : SubscriptionId)

/-- The transaction of a command. One that fails leaves the database as it is. -/
def SubscriptionCommand.exec (actor : Actor) (now : ℤ) (db : Database) :
    SubscriptionCommand → Database
  | create subscriptionId url eventKinds secret =>
    match db.createOwnedSubscription actor subscriptionId url eventKinds secret now with
    | .ok db' => db'
    | .error _ => db
  | activate subscriptionId => (db.activateOwnedSubscription actor subscriptionId now).2
  | replaceSecret subscriptionId secret =>
    (db.replaceOwnedSecret actor subscriptionId secret now).2
  | retry subscriptionId => (db.retryOwnedHeadDelivery actor subscriptionId now).2
  | discard subscriptionId => (db.discardOwnedHeadDelivery actor subscriptionId now).2
  | delete subscriptionId => (db.deleteOwnedSubscription actor subscriptionId).2

/-- A database and all ticks there ever were. -/
structure DeliverySystem where
  db : Database
  ticks : List DeliveryTick

inductive DeliveryAction
  | login (identity : Identity)
  | command (c : NoteCommand)
  | library (db' : Database)
  | elsewhere (db' : Database)
  | owner (actor : Actor) (c : SubscriptionCommand)
  | claim
  | tick (i : ℕ) (a : TickAction)
  | purgeDeliveries
  | purgeOperationalState (unusedClientCutoff : ℤ)
  | purgeNotes (cutoff : ℤ)

/-- The action belongs to another part of the program. -/
def DeliveryAction.isElsewhere : DeliveryAction → Bool
  | login _ | command _ | library _ | elsewhere _ | purgeNotes _ => true
  | _ => false

namespace DeliverySystem

def start : DeliverySystem := ⟨.empty, []⟩

def next (sys : DeliverySystem) (now : ℤ) : DeliveryAction → DeliverySystem
  | .login identity => { sys with db := sys.db.login identity }
  | .command c => { sys with db := sys.db.commit (c.exec sys.db) }
  | .library db' | .elsewhere db' => { sys with db := db' }
  | .owner actor c => { sys with db := c.exec actor now sys.db }
  | .claim =>
    match sys.db.claimDueDeliveries now (saturatingAdd now webhookLeaseMs) webhookDeliveryBatch with
    | .ok (claimed, db) => ⟨db, sys.ticks ++ [.start now claimed]⟩
    | .error _ => sys
  | .tick i a =>
    match sys.ticks[i]? with
    | some tick => ⟨(tick.step sys.db a).2, sys.ticks.set i (tick.step sys.db a).1⟩
    | none => sys
  | .purgeDeliveries => { sys with db := (sys.db.purgeExpiredDeliveries now).2 }
  | .purgeOperationalState unusedClientCutoff =>
    { sys with db := (sys.db.purgeExpiredOperationalState now unusedClientCutoff).2 }
  | .purgeNotes cutoff =>
    { sys with db := sys.db.commit ((sys.db.purgeDeletedBefore cutoff).map Prod.snd) }

/-- A transaction of the library is a sequence of statements, one elsewhere writes neither the
tables of the outbox nor the rows it is about. -/
def Allowed (sys : DeliverySystem) : DeliveryAction → Prop
  | .library db' => Statements sys.db db'
  | .elsewhere db' => sys.db.SameOutbox db' ∧ db'.rowTables = sys.db.rowTables
  | _ => True

/-- One transaction, or one answer of a receiver, at any time. -/
def Step (sys : DeliverySystem) (label : ℤ × DeliveryAction) (sys' : DeliverySystem) : Prop :=
  sys.Allowed label.2 ∧ sys' = sys.next label.1 label.2

/-- The commands and the imports of the library are such transactions. -/
theorem step_library {lib : ImportLibrary} {sys : DeliverySystem} {t : TimedOperation}
    {db' : Database} (h : t.Step lib sys.db db') (hlibrary : t.OfLibrary) :
    sys.Step (t.now, .library db') { sys with db := db' } :=
  ⟨(h.libraryStatements hlibrary).statements, rfl⟩

/-! ### One tick after the other -/

section Tick

variable {receiver : WebhookPendingDelivery → Except WebhookDeliveryFailure Unit} {now : ℤ}
  {db : Database} {ticks : List DeliveryTick}

variable (now) (ticks) in
theorem step_lastTick (db : Database) (tick : DeliveryTick) (a : TickAction) :
    Step ⟨db, ticks ++ [tick]⟩ (now, .tick ticks.length a)
      ⟨(tick.step db a).2, ticks ++ [(tick.step db a).1]⟩ := by
  refine ⟨trivial, ?_⟩
  simp [next]

variable (receiver) (now) (ticks) in
/-- A round of the loop : the answer, its record, and the disable after the last attempt. -/
theorem run_deliverOne (delivery : WebhookPendingDelivery) (rest : List WebhookPendingDelivery)
    (done : WebhookTickOutcome × Database) :
    ∃ moves, Run Step ⟨done.2, ticks ++ [⟨now, delivery :: rest, .sending, done.1⟩]⟩ moves
      ⟨(deliverOne receiver now done delivery).2,
        ticks ++ [⟨now, rest, .sending, (deliverOne receiver now done delivery).1⟩]⟩ := by
  obtain ⟨outcome, db⟩ := done
  have hsend := (Run.nil _).snoc (step_lastTick now ticks db
    ⟨now, delivery :: rest, .sending, outcome⟩ (.send (receiver delivery)))
  have hrecord := hsend.snoc (step_lastTick now ticks _ _ .record)
  unfold deliverOne
  cases hanswer : receiver delivery with
  | ok answer =>
    simp only [DeliveryTick.step, hanswer] at hrecord
    exact ⟨_, hrecord⟩
  | error failure =>
    simp only [DeliveryTick.step, hanswer] at hrecord
    by_cases hexhausted : webhookMaxAttempts ≤ delivery.attempts
    · simp only [if_pos hexhausted] at hrecord ⊢
      have hdisable := hrecord.snoc (step_lastTick now ticks _ _ .disable)
      simp only [DeliveryTick.step] at hdisable
      exact ⟨_, hdisable⟩
    · simp only [if_neg hexhausted] at hrecord ⊢
      exact ⟨_, hrecord⟩

variable (receiver) (now) (ticks) in
theorem run_deliverAll (claimed : List WebhookPendingDelivery)
    (done : WebhookTickOutcome × Database) :
    ∃ moves, Run Step ⟨done.2, ticks ++ [⟨now, claimed, .sending, done.1⟩]⟩ moves
      ⟨(claimed.foldl (deliverOne receiver now) done).2,
        ticks ++ [⟨now, [], .sending, (claimed.foldl (deliverOne receiver now) done).1⟩]⟩ := by
  induction claimed generalizing done with
  | nil => exact ⟨[], .nil _⟩
  | cons delivery rest ih =>
    obtain ⟨moves, hfirst⟩ := run_deliverOne receiver now ticks delivery rest done
    obtain ⟨moves', hrest⟩ := ih (deliverOne receiver now done delivery)
    exact ⟨moves ++ moves', hfirst.append hrest⟩

/-- A tick with nothing between its transactions is a run of these steps. -/
theorem run_webhookDeliveryTick {outcome : WebhookTickOutcome} {db' : Database}
    (h : webhookDeliveryTick receiver now db = .ok (outcome, db')) :
    ∃ moves, Run Step ⟨db, ticks⟩ moves ⟨db', ticks ++ [⟨now, [], .sending, outcome⟩]⟩ := by
  obtain ⟨⟨claimed, leased⟩, hclaim, hfold⟩ := Except.bind_eq_ok.mp h
  have hfold := Except.ok.inj hfold
  obtain ⟨moves, hrun⟩ := run_deliverAll receiver now ticks claimed (⟨[], [], []⟩, leased)
  rw [hfold] at hrun
  have hstep : Step ⟨db, ticks⟩ (now, .claim) ⟨leased, ticks ++ [.start now claimed]⟩ := by
    refine ⟨trivial, ?_⟩
    simp only [next, hclaim]
  exact ⟨_, ((Run.nil _).snoc hstep).append hrun⟩

end Tick

end DeliverySystem

namespace Database

variable {db db' : Database} {id : SubscriptionId}

/-! ## The commands of an owner -/

/-- A subscription is created with a new id. -/
theorem createOwnedSubscription_eq_ok {actor : Actor} {url secret : String}
    {eventKinds : List ChangeKind} {now : ℤ}
    (h : db.createOwnedSubscription actor id url eventKinds secret now = .ok db') :
    ∃ subscriptions, db.webhookSubscriptions.insert? ⟨id, actor.principalId, url, secret,
        eventKinds, .pendingChallenge, now, now, 1⟩ = some subscriptions ∧
      db' = { db with webhookSubscriptions := subscriptions } := by
  unfold createOwnedSubscription at h
  split_ifs at h
  split at h
  · next subscriptions hinsert =>
    cases h
    exact ⟨subscriptions, hinsert, rfl⟩
  · cases h

/-- A subscription is deleted with its deliveries, and an id is that of one subscription. -/
theorem quiet_deleteSubscription {actor : Actor} :
    db.Quiet { db with
      webhookSubscriptions := db.webhookSubscriptions.deleteWhere fun s =>
        s.subscriptionId = id ∧ s.owner = actor.principalId
      webhookDeliveries := db.webhookDeliveries.deleteWhere fun row =>
        row.subscriptionId = id } where
  last := rfl
  rows row' hrow' := ⟨row', (Table.mem_deleteWhere.mp hrow').1, rfl⟩
  changes_subset _ hc := hc
  changes_kept _ hc _ := hc
  subscriptions_kept s hs hrow := by
    obtain ⟨row, hrow, hid⟩ := hrow
    have hne := (Table.mem_deleteWhere.mp hrow).2
    simp only [decide_eq_false_iff_not] at hne
    refine ⟨s, Table.mem_deleteWhere.mpr ⟨hs, ?_⟩, rfl⟩
    simp only [decide_eq_false_iff_not]
    exact fun h => hne (hid.trans h.1)

/-- A command is one step of the queues, or it drops one. -/
theorem exec_subscriptionCommand (db : Database) (actor : Actor) (now : ℤ)
    (c : SubscriptionCommand) :
    db.Quiet (c.exec actor now db) ∧ (db.queues.Step (c.exec actor now db).queues ∨
      ∃ id, c = .delete id ∧ (c.exec actor now db).queues = db.queues.drop id) := by
  cases c with
  | create id url eventKinds secret =>
    simp only [SubscriptionCommand.exec]
    split
    · next db' h =>
      obtain ⟨subscriptions, hinsert, rfl⟩ := createOwnedSubscription_eq_ok h
      refine ⟨.of_rows rfl rfl (fun row hrow => ⟨row, hrow, rfl⟩) fun s hs => ?_,
        Or.inl (.of_eq rfl)⟩
      exact ⟨s, (Table.mem_insert? hinsert).mpr (Or.inl hs), rfl⟩
    · exact ⟨.refl db, Or.inl (.of_eq rfl)⟩
  | activate id => exact ⟨quiet_modifySubscriptions, Or.inl (.of_eq rfl)⟩
  | replaceSecret id secret => exact ⟨quiet_modifySubscriptions, Or.inl (.of_eq rfl)⟩
  | retry id =>
    simp only [SubscriptionCommand.exec, retryOwnedHeadDelivery]
    split_ifs
    · refine ⟨.reactivateExhausted quiet_modify id now, Or.inl ?_⟩
      have hqueues : (db.updateHeadDelivery id (·.retried now) fun _ => rfl).queues = db.queues :=
        queues_retryHead id now
      exact .of_eq hqueues
    · exact ⟨.refl db, Or.inl (.of_eq rfl)⟩
  | discard id =>
    simp only [SubscriptionCommand.exec, discardOwnedHeadDelivery]
    split_ifs
    · refine ⟨.reactivateExhausted quiet_modify id now, Or.inl ?_⟩
      exact step_discardHead id now
    · exact ⟨.refl db, Or.inl (.of_eq rfl)⟩
  | delete id =>
    simp only [SubscriptionCommand.exec, deleteOwnedSubscription]
    split_ifs
    · exact ⟨quiet_deleteSubscription, Or.inr ⟨id, rfl, queues_deleteSubscription id _⟩⟩
    · exact ⟨.refl db, Or.inl (.of_eq rfl)⟩

end Database

/-! ## Every step is a step of the queues -/

namespace DeliverySystem

variable {sys sys' : DeliverySystem} {label : ℤ × DeliveryAction}

/-- What the ticks rely on : each delivery a tick has claimed is the head of its queue, or
finished. -/
structure Consistent (sys : DeliverySystem) : Prop where
  keys : sys.db.OutboxKeys
  inOrder : sys.db.queues.InOrder
  claimed : ∀ tick ∈ sys.ticks, ∀ delivery ∈ tick.remaining,
    sys.db.queues.Claimed delivery.subscriptionId delivery.event.sequence

theorem consistent_start : start.Consistent where
  keys := Database.outboxKeys_empty
  inOrder := by
    constructor <;> intro id n hn <;> obtain ⟨row, hrow, -⟩ := hn <;>
      exact absurd hrow Table.not_mem_empty
  claimed := by simp [start]

/-- What a step does to the outbox. -/
def Refines (sys : DeliverySystem) (action : DeliveryAction) (sys' : DeliverySystem) : Prop :=
  sys.db.FansOut sys'.db ∨ sys.db.Quiet sys'.db ∧ (sys.db.queues.Step sys'.db.queues ∨
    ∃ actor id, action = .owner actor (.delete id) ∧ sys'.db.queues = sys.db.queues.drop id)

theorem login_sameOutbox (db : Database) (identity : Identity) :
    db.SameOutbox (db.login identity) := by
  rcases Database.login_cases db identity with h | ⟨principals, identities, row, -, -, h⟩
  · rw [h]
    exact ⟨rfl, rfl, rfl, rfl⟩
  · rw [h]
    exact ⟨rfl, rfl, rfl, rfl⟩

theorem db_next_tick {i : ℕ} {tick : DeliveryTick} (htick : sys.ticks[i]? = some tick) (now : ℤ)
    (a : TickAction) : (sys.next now (.tick i a)).db = (tick.step sys.db a).2 := by
  simp only [next, htick]

/-- A transaction of another part of the program records changes or writes nothing here. -/
theorem Consistent.fansOut (hsys : sys.Consistent) (hstep : sys.Step label sys')
    (h : label.2.isElsewhere = true) : sys.db.FansOut sys'.db := by
  have hsame : sys.db.FansOut sys.db := Database.SameOutbox.fansOut hsys.keys ⟨rfl, rfl, rfl, rfl⟩
  obtain ⟨now, action⟩ := label
  obtain ⟨hallowed, rfl⟩ := hstep
  cases action with
  | login identity => exact (login_sameOutbox sys.db identity).fansOut hsys.keys
  | command c =>
    simp only [next]
    cases hexec : c.exec sys.db with
    | error e => exact hsame
    | ok db' => exact Statements.fansOut hsys.keys (NoteCommand.exec_statements hexec)
  | library db' => exact Statements.fansOut hsys.keys hallowed
  | elsewhere db' => exact hallowed.1.fansOut hsys.keys
  | owner | claim | tick | purgeDeliveries | purgeOperationalState => cases h
  | purgeNotes cutoff =>
    simp only [next]
    cases hpurge : sys.db.purgeDeletedBefore cutoff with
    | error e => exact hsame
    | ok purged =>
      obtain ⟨count, db'⟩ := purged
      exact (Database.sameChanges_purgeDeletedBefore hpurge).sameOutbox.fansOut hsys.keys

/-- A step of the outbox itself is one step of the queues, or it drops one. -/
theorem Consistent.quiet (hsys : sys.Consistent) (hstep : sys.Step label sys')
    (h : label.2.isElsewhere = false) : sys.db.Quiet sys'.db ∧
      (sys.db.queues.Step sys'.db.queues ∨ ∃ actor id, label.2 = .owner actor (.delete id) ∧
        sys'.db.queues = sys.db.queues.drop id) := by
  have hsame : sys.db.Quiet sys.db ∧ (sys.db.queues.Step sys.db.queues ∨ ∃ actor id,
      label.2 = .owner actor (.delete id) ∧ sys.db.queues = sys.db.queues.drop id) :=
    ⟨.refl _, Or.inl (.of_eq rfl)⟩
  obtain ⟨now, action⟩ := label
  obtain ⟨hallowed, rfl⟩ := hstep
  cases action with
  | login | command | library | elsewhere | purgeNotes => cases h
  | owner actor c =>
    obtain ⟨hquiet, hqueues⟩ := sys.db.exec_subscriptionCommand actor now c
    refine ⟨hquiet, hqueues.imp_right ?_⟩
    rintro ⟨id, rfl, hdrop⟩
    exact ⟨actor, id, rfl, hdrop⟩
  | claim =>
    simp only [next]
    split
    · next claimed db hclaim =>
      obtain ⟨hleased, -⟩ := Database.claimDueDeliveries_eq_ok hclaim
      exact ⟨Database.quiet_of_unleased_eq hleased,
        Or.inl (.of_eq (Database.queues_of_unleased_eq hleased))⟩
    · exact hsame
  | tick i a =>
    simp only [next]
    split
    · next tick htick =>
      rcases tick.step_cases sys.db a with h | ⟨delivery, hdelivery, h | ⟨f, at', h⟩ | h⟩
      · refine ⟨?_, Or.inl (.of_eq (congrArg Database.queues h))⟩
        rw [h]
        exact .refl _
      · have hclaimed := hsys.claimed tick (List.mem_of_getElem? htick) delivery hdelivery
        dsimp only
        rw [h]
        exact ⟨Database.quiet_modify, Or.inl (Database.step_recordDelivered hclaimed tick.now)⟩
      · dsimp only
        rw [h]
        exact ⟨Database.quiet_modify, Or.inl (.of_eq (Database.queues_recordFailed ..))⟩
      · dsimp only
        rw [h]
        exact ⟨Database.quiet_modifySubscriptions, Or.inl (.of_eq rfl)⟩
    · exact hsame
  | purgeDeliveries =>
    exact ⟨Database.quiet_purgeExpiredDeliveries now,
      Or.inl (Database.step_purgeExpiredDeliveries now)⟩
  | purgeOperationalState cutoff =>
    exact ⟨Database.quiet_purgeExpiredOperationalState now cutoff, Or.inl (.of_eq rfl)⟩

theorem Consistent.refines (hsys : sys.Consistent) (hstep : sys.Step label sys') :
    sys.Refines label.2 sys' := by
  cases helsewhere : label.2.isElsewhere with
  | true => exact Or.inl (hsys.fansOut hstep helsewhere)
  | false => exact Or.inr (hsys.quiet hstep helsewhere)

theorem Refines.inOrder (horder : sys.db.queues.InOrder) {action : DeliveryAction}
    (h : sys.Refines action sys') : sys'.db.queues.InOrder := by
  rcases h with h | ⟨-, h | ⟨actor, id, -, h⟩⟩
  · exact Queues.Step.inOrder horder (.publish h.published)
  · exact h.inOrder horder
  · exact h ▸ horder.drop id

theorem Refines.claimed {action : DeliveryAction} (h : sys.Refines action sys')
    {id : SubscriptionId} {n : ℕ} (hclaimed : sys.db.queues.Claimed id n) :
    sys'.db.queues.Claimed id n := by
  rcases h with h | ⟨-, h | ⟨actor, id, -, h⟩⟩
  · exact Queues.Step.claimed hclaimed (.publish h.published)
  · exact h.claimed hclaimed
  · exact h ▸ hclaimed.drop id

/-- A tick goes on with what it has claimed, and a new one has claimed heads. -/
theorem ticks_cases (hstep : sys.Step label sys') : ∀ tick' ∈ sys'.ticks,
    (∃ tick ∈ sys.ticks, ∀ delivery ∈ tick'.remaining, delivery ∈ tick.remaining) ∨
      ∀ delivery ∈ tick'.remaining,
        IsLeast (sys.db.queues.pending delivery.subscriptionId) delivery.event.sequence := by
  obtain ⟨now, action⟩ := label
  obtain ⟨-, rfl⟩ := hstep
  intro tick' htick'
  cases action with
  | login | command | library | elsewhere | owner | purgeDeliveries | purgeOperationalState
  | purgeNotes => exact Or.inl ⟨tick', htick', fun _ h => h⟩
  | claim =>
    simp only [next] at htick'
    split at htick'
    · next claimed db hclaim =>
      rcases List.mem_append.mp htick' with h | h
      · exact Or.inl ⟨tick', h, fun _ h => h⟩
      · obtain rfl := List.mem_singleton.mp h
        refine Or.inr fun delivery hdelivery => ?_
        obtain ⟨row, hrow, hid, hsequence, hdue, -⟩ :=
          (Database.claimDueDeliveries_eq_ok hclaim).2 delivery hdelivery
        rw [← hid, ← hsequence]
        exact ((Database.isHead_iff hrow).mp hdue.2.2.2).2
    · exact Or.inl ⟨tick', htick', fun _ h => h⟩
  | tick i a =>
    simp only [next] at htick'
    split at htick'
    · next tick htick =>
      rcases List.mem_or_eq_of_mem_set htick' with h | rfl
      · exact Or.inl ⟨tick', h, fun _ h => h⟩
      · exact Or.inl ⟨tick, List.mem_of_getElem? htick, fun _ =>
          DeliveryTick.mem_remaining_step⟩
    · exact Or.inl ⟨tick', htick', fun _ h => h⟩

theorem Consistent.step (hsys : sys.Consistent) (hstep : sys.Step label sys') :
    sys'.Consistent where
  keys := by
    rcases hsys.refines hstep with h | ⟨h, -⟩
    · exact h.outboxKeys hsys.keys
    · exact h.outboxKeys hsys.keys
  inOrder := (hsys.refines hstep).inOrder hsys.inOrder
  claimed tick' htick' delivery hdelivery := by
    refine (hsys.refines hstep).claimed ?_
    rcases ticks_cases hstep tick' htick' with ⟨tick, htick, hsub⟩ | hhead
    · exact hsys.claimed tick htick delivery (hsub delivery hdelivery)
    · exact hsys.inOrder.claimed (hhead delivery hdelivery)

/-! ## What a step writes -/

/-- The commands of an owner do not write notes or items. -/
theorem rowTables_subscriptionCommand (db : Database) (actor : Actor) (now : ℤ)
    (c : SubscriptionCommand) : (c.exec actor now db).rowTables = db.rowTables := by
  cases c with
  | create id url eventKinds secret =>
    simp only [SubscriptionCommand.exec]
    split
    · next db' h =>
      obtain ⟨subscriptions, -, rfl⟩ := Database.createOwnedSubscription_eq_ok h
      rfl
    · rfl
  | activate | replaceSecret => rfl
  | retry id =>
    simp only [SubscriptionCommand.exec, Database.retryOwnedHeadDelivery]
    split_ifs <;> rfl
  | discard id =>
    simp only [SubscriptionCommand.exec, Database.discardOwnedHeadDelivery]
    split_ifs <;> rfl
  | delete id =>
    simp only [SubscriptionCommand.exec, Database.deleteOwnedSubscription]
    split_ifs <;> rfl

theorem rowTables_tick (tick : DeliveryTick) (db : Database) (a : TickAction) :
    (tick.step db a).2.rowTables = db.rowTables := by
  rcases tick.step_cases db a with h | ⟨delivery, -, h | ⟨failure, at', h⟩ | h⟩ <;> rw [h] <;> rfl

/-- A step of the outbox itself leaves the rows alone. -/
theorem rowTables_next (sys : DeliverySystem) (now : ℤ) {action : DeliveryAction}
    (h : action.isElsewhere = false) : (sys.next now action).db.rowTables = sys.db.rowTables := by
  cases action with
  | login | command | library | elsewhere | purgeNotes => cases h
  | owner actor c => exact rowTables_subscriptionCommand sys.db actor now c
  | claim =>
    simp only [next]
    split
    · next claimed db hclaim =>
      have hleased := (Database.claimDueDeliveries_eq_ok hclaim).1
      have hrows := congrArg Database.rowTables hleased
      exact hrows
    · rfl
  | tick i a =>
    simp only [next]
    split
    · next tick htick => exact rowTables_tick tick sys.db a
    · rfl
  | purgeDeliveries | purgeOperationalState => rfl

theorem rowTables_login (db : Database) (identity : Identity) :
    (db.login identity).rowTables = db.rowTables := by
  rcases Database.login_cases db identity with h | ⟨principals, identities, row, -, -, h⟩
  · rw [h]
  · rw [h]
    rfl

/-- What a step writes it records, up to a purge. -/
theorem Consistent.recordsWrites (hsys : sys.Consistent) (hstep : sys.Step label sys')
    (hpurge : ∀ cutoff, label.2 ≠ .purgeNotes cutoff) : sys.db.RecordsWrites sys'.db := by
  have hbound := hsys.keys.bounded
  cases helsewhere : label.2.isElsewhere with
  | false =>
    have hsubset := (hsys.quiet hstep helsewhere).1.changes_subset
    obtain ⟨-, rfl⟩ := hstep
    exact Database.recordsWrites_of_subset hbound (sys.rowTables_next label.1 helsewhere) hsubset
  | true =>
    obtain ⟨now, action⟩ := label
    obtain ⟨hallowed, rfl⟩ := hstep
    cases action with
    | owner | claim | tick | purgeDeliveries | purgeOperationalState => cases helsewhere
    | login identity =>
      have hsame := (login_sameOutbox sys.db identity).domainChanges
      exact Database.recordsWrites_of_subset hbound (rowTables_login sys.db identity)
        fun _ h => hsame ▸ h
    | command c =>
      simp only [next]
      cases hexec : c.exec sys.db with
      | error e => exact Database.recordsWrites_of_subset hbound rfl fun _ h => h
      | ok db' => exact Statements.recordsWrites hsys.keys (NoteCommand.exec_statements hexec)
    | library db' => exact Statements.recordsWrites hsys.keys hallowed
    | elsewhere db' =>
      exact Database.recordsWrites_of_subset hbound hallowed.2
        fun _ h => hallowed.1.domainChanges ▸ h
    | purgeNotes cutoff => exact absurd rfl (hpurge cutoff)

/-! ## The integrity of the outbox -/

/-- What a move does with changes and deliveries. Whatever it writes to notes and items is
recorded, each write by one change, up to a purge of deleted notes. A change it records is fanned
out to exactly the active subscriptions that receive it, once and for all. A pending delivery
goes with its subscription only, and the change it refers to stays. -/
structure KeepsOutbox (m : Move DeliverySystem (ℤ × DeliveryAction)) : Prop where
  writes : (∀ cutoff, m.label.2 ≠ .purgeNotes cutoff) → m.pre.db.RecordsWrites m.post.db
  recorded : ∀ n, m.pre.db.lastChangeSequence < n → n ≤ m.post.db.lastChangeSequence →
    ∃ c ∈ m.post.db.domainChanges, c.changeSequence = n
  fansOut : ∀ c ∈ m.post.db.domainChanges, m.pre.db.lastChangeSequence < c.changeSequence →
    ∀ id, (∃! row, row ∈ m.post.db.webhookDeliveries ∧ row.subscriptionId = id ∧
        row.eventSequence = c.changeSequence) ↔
      ∃ s ∈ m.pre.db.webhookSubscriptions, s.subscriptionId = id ∧ s.Receives c.toDomainChange
  once : ∀ row ∈ m.post.db.webhookDeliveries,
    row.eventSequence ≤ m.pre.db.lastChangeSequence →
    ∃ r ∈ m.pre.db.webhookDeliveries, Keyed.key r = Keyed.key row
  pending_kept : ∀ row ∈ m.pre.db.webhookDeliveries, row.state = .pending →
    (∃ r ∈ m.post.db.webhookDeliveries, Keyed.key r = Keyed.key row) ∨
      ∃ actor, m.label.2 = .owner actor (.delete row.subscriptionId)
  change_kept : ∀ row ∈ m.pre.db.webhookDeliveries, row.state = .pending →
    ∀ c ∈ m.pre.db.domainChanges, c.changeSequence = row.eventSequence →
      c ∈ m.post.db.domainChanges

/-- What is delivered or discarded was recorded before everything that is pending. -/
def FinishedBeforePending (sys : DeliverySystem) : Prop :=
  ∀ done ∈ sys.db.webhookDeliveries, ∀ row ∈ sys.db.webhookDeliveries,
    done.subscriptionId = row.subscriptionId → done.state ≠ .pending → row.state = .pending →
      done.eventSequence < row.eventSequence

theorem Consistent.finishedBeforePending (hsys : sys.Consistent) : sys.FinishedBeforePending := by
  intro done hdone row hrow hid hfinished hpending
  exact hsys.inOrder.finished_lt row.subscriptionId done.eventSequence
    (hid ▸ Database.mem_finished hdone hfinished) row.eventSequence
    (Database.mem_pending hrow hpending)

theorem keepsOutbox_of_fansOut {m : Move DeliverySystem (ℤ × DeliveryAction)}
    (hkeys : m.pre.db.OutboxKeys) (h : m.pre.db.FansOut m.post.db)
    (hwrites : (∀ cutoff, m.label.2 ≠ .purgeNotes cutoff) →
      m.pre.db.RecordsWrites m.post.db) : KeepsOutbox m where
  writes := hwrites
  recorded := h.recorded
  fansOut c hc hlt id := by
    constructor
    · rintro ⟨row, ⟨hrow, rfl, hsequence⟩, -⟩
      rcases (h.mem_rows_iff row).mp hrow with hrow | ⟨s, hs, x, hx, -, hreceives, rfl⟩
      · exact absurd (hkeys.delivery_le hrow) (by omega)
      · have hxc : x = c := Table.eq_of_key_eq hx hc hsequence
        exact ⟨s, hs, rfl, hxc ▸ hreceives⟩
    · rintro ⟨s, hs, rfl, hreceives⟩
      have hrow := (h.mem_rows_iff _).mpr (Or.inr ⟨s, hs, c, hc, hlt, hreceives, rfl⟩)
      refine ⟨_, ⟨hrow, rfl, rfl⟩, fun row ⟨hmem, hid, hsequence⟩ => ?_⟩
      exact Table.eq_of_key_eq hmem hrow (Prod.ext hid hsequence)
  once row hrow hle := by
    rcases (h.mem_rows_iff row).mp hrow with hrow | ⟨s, -, c, -, hlt, -, rfl⟩
    · exact ⟨row, hrow, rfl⟩
    · exact absurd hlt (not_lt.mpr hle)
  pending_kept row hrow _ := Or.inl ⟨row, (h.mem_rows_iff row).mpr (Or.inl hrow), rfl⟩
  change_kept _ _ _ c hc _ := h.mem_changes c hc

theorem keepsOutbox_of_quiet {m : Move DeliverySystem (ℤ × DeliveryAction)}
    (hkeys : m.pre.db.OutboxKeys) (h : m.pre.db.Quiet m.post.db)
    (hqueues : m.pre.db.queues.Step m.post.db.queues ∨
      ∃ actor id, m.label.2 = .owner actor (.delete id) ∧
        m.post.db.queues = m.pre.db.queues.drop id)
    (hwrites : (∀ cutoff, m.label.2 ≠ .purgeNotes cutoff) →
      m.pre.db.RecordsWrites m.post.db) : KeepsOutbox m where
  writes := hwrites
  recorded n hlt hle := by
    rw [h.last] at hle
    omega
  fansOut c hc hlt := absurd (hkeys.bounded c (h.changes_subset c hc)) (by omega)
  once row hrow _ := h.rows row hrow
  pending_kept row hrow hstate := by
    have hpending := Database.mem_pending hrow hstate
    rcases hqueues with hstep | ⟨actor, id, haction, hdrop⟩
    · rcases hstep.pending_cases hpending with ⟨r, hr, hid, hn, -⟩ | ⟨⟨r, hr, hid, hn, -⟩, -⟩
      · exact Or.inl ⟨r, hr, Prod.ext hid hn⟩
      · exact Or.inl ⟨r, hr, Prod.ext hid hn⟩
    · by_cases hid : row.subscriptionId = id
      · exact Or.inr ⟨actor, hid ▸ haction⟩
      · have hkept : row.eventSequence ∈ m.post.db.queues.pending row.subscriptionId := by
          rw [hdrop]
          exact ⟨hpending, hid⟩
        obtain ⟨r, hr, hid, hn, -⟩ := hkept
        exact Or.inl ⟨r, hr, Prod.ext hid hn⟩
  change_kept row hrow hstate c hc heq :=
    h.changes_kept c hc (Or.inl ⟨row, hrow, heq.symm, hstate⟩)

/-- In every run from the empty database, every move keeps the outbox, and in every state the
finished deliveries of a subscription come before the pending ones. -/
theorem outbox_integrity {moves : List (Move DeliverySystem (ℤ × DeliveryAction))}
    (h : Run Step start moves sys) :
    (∀ m ∈ moves, KeepsOutbox m) ∧ sys.FinishedBeforePending := by
  have hinvariant : ∀ sys label sys', Consistent sys → Step sys label sys' → Consistent sys' :=
    fun _ _ _ hsys hstep => hsys.step hstep
  constructor
  · intro m hm
    have hpre := h.invariant_of_mem hinvariant consistent_start hm
    obtain ⟨-, hstep, -⟩ := h.of_mem hm
    rcases hpre.refines hstep with hfans | ⟨hquiet, hqueues⟩
    · exact keepsOutbox_of_fansOut hpre.keys hfans (hpre.recordsWrites hstep)
    · exact keepsOutbox_of_quiet hpre.keys hquiet hqueues (hpre.recordsWrites hstep)
  · exact (h.invariant hinvariant consistent_start).finishedBeforePending

end DeliverySystem

/-! ## A subscription -/

/-- The action brings no database with it. -/
def DeliveryAction.isClosed : DeliveryAction → Bool
  | library _ | elsewhere _ => false
  | _ => true

/-- One action of a run. -/
def sampleDeliveryNext (sys : DeliverySystem) (label : ℤ × DeliveryAction) : DeliverySystem :=
  sys.next label.1 label.2

theorem run_deliveries (sys : DeliverySystem) {labels : List (ℤ × DeliveryAction)}
    (h : ∀ label ∈ labels, label.2.isClosed = true) :
    Run DeliverySystem.Step sys (Run.trace sampleDeliveryNext sys labels)
      (labels.foldl sampleDeliveryNext sys) := by
  refine Run.run_trace_of_legal sampleDeliveryNext _ _ fun m hm => ?_
  have hclosed := h m.label (Run.label_mem_of_mem_trace hm)
  unfold DeliverySystem.Allowed
  split
  · next heq => simp [heq, DeliveryAction.isClosed] at hclosed
  · next heq => simp [heq, DeliveryAction.isClosed] at hclosed
  · trivial

open Database in
/-- Alice subscribes to her notes and items. Of the two changes she makes to a note, the first is
delivered after its lease has expired and another tick has sent it again. -/
def subscribedNotes : List (ℤ × DeliveryAction) :=
  [(0, .login alice.authenticatedIdentity),
    (0, .owner alice (.create ⟨1⟩ "https://receiver.example.test/hook"
      [.noteCreated, .noteUpdated, .bibliographyItemCreated] "secret")),
    (0, .owner alice (.activate ⟨1⟩)),
    (10, .command (.create alice ⟨1⟩ ⟨"A", "= A", []⟩ ⟨[], [], []⟩ 10 .web)),
    (20, .claim),
    (20, .tick 0 (.send (.ok ()))),
    (30, .command (.update alice ⟨1⟩ 1 ⟨"A", "= A\n\nB", []⟩ ⟨[], [], []⟩ 30)),
    (70000, .claim),
    (70000, .tick 1 (.send (.error .timedOut))),
    (70010, .tick 0 .record),
    (70020, .tick 1 .record)]

def subscribedSystem : DeliverySystem := subscribedNotes.foldl sampleDeliveryNext .start

open Database in
/-- She adds an item. -/
def citedArticle : TimedOperation :=
  ⟨75000, .library (.add alice (sampleArticle "doe2024" "First") ⟨1⟩)⟩

def citedSystem : DeliverySystem :=
  { subscribedSystem with db := citedArticle.next editedLibrary subscribedSystem.db }

open Database in
/-- She discards the second change of the note, and the item goes out. -/
def deliveredItems : List (ℤ × DeliveryAction) :=
  [(80000, .claim),
    (80010, .owner alice (.discard ⟨1⟩)),
    (80020, .tick 2 (.send (.ok ()))),
    (80030, .tick 2 .record),
    (90000, .claim),
    (90010, .tick 3 (.send (.ok ()))),
    (90020, .tick 3 .record),
    (8 * dayMs, .purgeDeliveries)]

/-- The moves of that run. -/
def subscribedMoves : List (Move DeliverySystem (ℤ × DeliveryAction)) :=
  Run.trace sampleDeliveryNext .start subscribedNotes ++
    [⟨subscribedSystem, (75000, .library citedSystem.db), citedSystem⟩] ++
    Run.trace sampleDeliveryNext citedSystem deliveredItems

theorem step_citedArticle :
    citedArticle.Step editedLibrary subscribedSystem.db citedSystem.db :=
  ⟨trivial, rfl⟩

theorem outbox_integrity_subscribedNotes :
    (∀ m ∈ subscribedMoves, DeliverySystem.KeepsOutbox m) ∧
      (deliveredItems.foldl sampleDeliveryNext citedSystem).FinishedBeforePending :=
  DeliverySystem.outbox_integrity
    (((run_deliveries .start (by decide)).snoc
      (DeliverySystem.step_library step_citedArticle trivial)).append
        (run_deliveries citedSystem (by decide)))

end Marginalis
