import Marginalis.Cleanup
import Marginalis.ProjectionLog
import Marginalis.Queues
import Marginalis.Webhooks

/-!
# The queues of the outbox

The deliveries of a subscription are a numbered queue (`Database.queues`) : its entries are the
changes the subscription receives, its consumer the tick. A transaction either records changes
and fans them out (`FansOut`), or records none and keeps every change a delivery needs
(`Quiet`), and each is one step of the queues, or drops one.
-/

namespace Marginalis

open Relation

/-! ## The queues of a database -/

namespace Database

/-- The deliveries as queues, one for every subscription. -/
def queues (db : Database) : Queues SubscriptionId where
  last := db.lastChangeSequence
  pending id := {n | ∃ row ∈ db.webhookDeliveries,
    row.subscriptionId = id ∧ row.eventSequence = n ∧ row.state = .pending}
  finished id := {n | ∃ row ∈ db.webhookDeliveries,
    row.subscriptionId = id ∧ row.eventSequence = n ∧ row.state ≠ .pending}

variable {db db' : Database} {id : SubscriptionId} {n : ℕ} {row : DeliveryRow}

theorem mem_pending (hrow : row ∈ db.webhookDeliveries) (h : row.state = .pending) :
    row.eventSequence ∈ db.queues.pending row.subscriptionId :=
  ⟨row, hrow, rfl, rfl, h⟩

theorem mem_finished (hrow : row ∈ db.webhookDeliveries) (h : row.state ≠ .pending) :
    row.eventSequence ∈ db.queues.finished row.subscriptionId :=
  ⟨row, hrow, rfl, rfl, h⟩

/-- The oldest pending row is the head of its queue. -/
theorem isHead_iff (hrow : row ∈ db.webhookDeliveries) : db.IsHead row ↔
    row.state = .pending ∧ IsLeast (db.queues.pending row.subscriptionId) row.eventSequence := by
  constructor
  · rintro ⟨hstate, hle⟩
    refine ⟨hstate, mem_pending hrow hstate, ?_⟩
    rintro m ⟨other, hother, hid, rfl, hpending⟩
    exact hle other hother ⟨hid, hpending⟩
  · rintro ⟨hstate, hleast⟩
    refine ⟨hstate, fun other hother h => ?_⟩
    exact hleast.2 (h.1 ▸ mem_pending hother h.2)

theorem queues_congr (hlast : db'.lastChangeSequence = db.lastChangeSequence)
    (hdeliveries : db'.webhookDeliveries = db.webhookDeliveries) : db'.queues = db.queues := by
  unfold queues
  rw [hlast, hdeliveries]

/-! ### Updates of deliveries -/

section Modify

variable {p : DeliveryRow → Bool} {set : DeliveryRow → DeliveryRow}
  {hset : ∀ r, Keyed.key (set r) = Keyed.key r}

/-- The rows after an update, by their keys and states. -/
theorem exists_modify {P : DeliveryState → Prop} :
    (∃ row ∈ db.webhookDeliveries.modify p set hset,
      row.subscriptionId = id ∧ row.eventSequence = n ∧ P row.state) ↔
    ∃ row ∈ db.webhookDeliveries, row.subscriptionId = id ∧ row.eventSequence = n ∧
      P (if p row then set row else row).state := by
  have hkey : ∀ row, (if p row then set row else row).subscriptionId = row.subscriptionId ∧
      (if p row then set row else row).eventSequence = row.eventSequence := by
    intro row
    split_ifs
    · exact Prod.ext_iff.mp (hset row)
    · exact ⟨rfl, rfl⟩
  constructor
  · rintro ⟨_, hmem, hid, hn, hP⟩
    obtain ⟨row, hrow, rfl⟩ := Table.mem_modify.mp hmem
    exact ⟨row, hrow, (hkey row).1 ▸ hid, (hkey row).2 ▸ hn, hP⟩
  · rintro ⟨row, hrow, rfl, rfl, hP⟩
    exact ⟨_, Table.mem_modify.mpr ⟨row, hrow, rfl⟩, (hkey row).1, (hkey row).2, hP⟩

/-- An update that keeps the states keeps the queues. -/
theorem queues_modify (hstate : ∀ row, p row = true → (set row).state = row.state) :
    queues { db with webhookDeliveries := db.webhookDeliveries.modify p set hset } =
      db.queues := by
  have hsame : ∀ row, (if p row then set row else row).state = row.state := by
    intro row
    split_ifs with hp
    · exact hstate row hp
    · rfl
  ext id n
  · rfl
  · simp only [queues, Set.mem_ofPred_eq, exists_modify (P := (· = .pending)), hsame]
  · simp only [queues, Set.mem_ofPred_eq, exists_modify (P := (· ≠ .pending)), hsame]

/-- An update that finishes one pending delivery. -/
theorem queues_finish (hstate : ∀ row, (set row).state ≠ .pending)
    (hp : ∀ row ∈ db.webhookDeliveries, p row = true ↔
      row.subscriptionId = id ∧ row.eventSequence = n ∧ row.state = .pending)
    (hn : n ∈ db.queues.pending id) :
    queues { db with webhookDeliveries := db.webhookDeliveries.modify p set hset } =
      db.queues.finish id n := by
  have hafter : ∀ row ∈ db.webhookDeliveries,
      ((if p row then set row else row).state = .pending ↔
        row.state = .pending ∧ ¬(row.subscriptionId = id ∧ row.eventSequence = n)) := by
    intro row hrow
    have hrow := hp row hrow
    have := hstate row
    split_ifs with h <;> tauto
  ext j m
  · rfl
  · simp only [queues, Queues.finish, Set.mem_ofPred_eq, exists_modify (P := (· = .pending))]
    constructor
    · rintro ⟨row, hrow, rfl, rfl, h⟩
      obtain ⟨hpending, hne⟩ := (hafter row hrow).mp h
      exact ⟨⟨row, hrow, rfl, rfl, hpending⟩, hne⟩
    · rintro ⟨⟨row, hrow, rfl, rfl, hpending⟩, hne⟩
      exact ⟨row, hrow, rfl, rfl, (hafter row hrow).mpr ⟨hpending, hne⟩⟩
  · simp only [queues, Queues.finish, Set.mem_ofPred_eq, exists_modify (P := (· ≠ .pending))]
    constructor
    · rintro ⟨row, hrow, rfl, rfl, h⟩
      rw [ne_eq, hafter row hrow] at h
      by_cases hpending : row.state = .pending
      · exact Or.inr (by tauto)
      · exact Or.inl ⟨row, hrow, rfl, rfl, hpending⟩
    · rintro (⟨row, hrow, rfl, rfl, h⟩ | ⟨rfl, rfl⟩)
      · refine ⟨row, hrow, rfl, rfl, ?_⟩
        rw [ne_eq, hafter row hrow]
        tauto
      · obtain ⟨row, hrow, rfl, rfl, hpending⟩ := hn
        refine ⟨row, hrow, rfl, rfl, ?_⟩
        rw [ne_eq, hafter row hrow]
        tauto

end Modify

/-! ### Leases -/

/-- The database with every lease taken away. -/
def unleased (db : Database) : Database :=
  { db with
    webhookDeliveries := db.webhookDeliveries.modify (fun _ => true)
      (fun row => { row with leaseExpiresAt := none }) fun _ => rfl }

theorem queues_unleased (db : Database) : db.unleased.queues = db.queues :=
  queues_modify fun _ _ => rfl

theorem unleased_updatePendingDelivery {leaseUntil : ℤ} :
    (db.updatePendingDelivery id n (·.leased leaseUntil) fun _ => rfl).unleased = db.unleased := by
  unfold unleased updatePendingDelivery
  refine congrArg (fun deliveries => { db with webhookDeliveries := deliveries })
    (Table.ext_rows ?_)
  simp only [Table.modify, List.map_map]
  refine List.map_congr_left fun row _ => ?_
  simp only [Function.comp_apply, if_true, DeliveryRow.leased]
  split_ifs <;> rfl

theorem mem_unleased : row ∈ db.unleased.webhookDeliveries ↔
    ∃ r ∈ db.webhookDeliveries, row = { r with leaseExpiresAt := none } := by
  unfold unleased
  dsimp only
  rw [Table.mem_modify]
  simp

/-- A row is the same in both databases, up to its lease. -/
theorem exists_of_unleased_eq (h : db'.unleased = db.unleased)
    (hrow : row ∈ db'.webhookDeliveries) :
    ∃ r ∈ db.webhookDeliveries, Keyed.key r = Keyed.key row ∧ r.state = row.state ∧
      r.attemptCount = row.attemptCount := by
  obtain ⟨r, hr, heq⟩ := mem_unleased.mp (h ▸ mem_unleased.mpr ⟨row, hrow, rfl⟩)
  simp only [DeliveryRow.mk.injEq] at heq
  obtain ⟨hid, hsequence, hstate, hcount, -⟩ := heq
  exact ⟨r, hr, Prod.ext hid.symm hsequence.symm, hstate.symm, hcount.symm⟩

theorem tables_of_unleased_eq (h : db'.unleased = db.unleased) :
    db'.domainChanges = db.domainChanges ∧ db'.lastChangeSequence = db.lastChangeSequence ∧
      db'.webhookSubscriptions = db.webhookSubscriptions := by
  have hchanges := congrArg Database.domainChanges h
  have hlast := congrArg Database.lastChangeSequence h
  have hsubscriptions := congrArg Database.webhookSubscriptions h
  exact ⟨hchanges, hlast, hsubscriptions⟩

theorem mem_dueDeliveries {now : ℤ} {limit : ℕ} (h : row ∈ db.dueDeliveries now limit) :
    row ∈ db.webhookDeliveries ∧ db.IsDue now row := by
  have h := (List.mem_insertionSort _).mp (List.mem_of_mem_take h)
  simpa using Table.mem_select.mp h

/-- The rows that `claim_due_deliveries` reads back, with their leases. -/
theorem unleased_leaseRows (leaseUntil : ℤ) (rows : List DeliveryRow) (db : Database) :
    (rows.foldl (fun db row => db.updatePendingDelivery row.subscriptionId row.eventSequence
      (·.leased leaseUntil) fun _ => rfl) db).unleased = db.unleased := by
  induction rows generalizing db with
  | nil => rfl
  | cons row rows ih => rw [List.foldl_cons, ih, unleased_updatePendingDelivery]

theorem readPendingDelivery_eq_ok {delivery : WebhookPendingDelivery}
    (h : db.readPendingDelivery row = .ok delivery) : ∃ d ∈ db.webhookDeliveries,
      Keyed.key d = Keyed.key row ∧ delivery.subscriptionId = row.subscriptionId ∧
      delivery.event.sequence = row.eventSequence ∧ delivery.attemptCount ≤ d.attemptCount := by
  unfold readPendingDelivery at h
  split at h
  · next d s e hd hs he =>
    cases h
    refine ⟨d, Table.mem_of_find hd, Table.key_of_find hd, rfl, rfl, ?_⟩
    dsimp only
    split_ifs
    · exact Nat.le_refl _
    · exact Nat.zero_le _
  · cases h

/-- A claim sets leases, and what it claims is the head of a queue. -/
theorem claimDueDeliveries_eq_ok {now leaseUntil : ℤ} {limit : ℕ}
    {claimed : List WebhookPendingDelivery}
    (h : db.claimDueDeliveries now leaseUntil limit = .ok (claimed, db')) :
    db'.unleased = db.unleased ∧ ∀ delivery ∈ claimed, ∃ row ∈ db.webhookDeliveries,
      row.subscriptionId = delivery.subscriptionId ∧ row.eventSequence = delivery.event.sequence ∧
      db.IsDue now row ∧ delivery.attemptCount ≤ row.attemptCount := by
  unfold claimDueDeliveries at h
  obtain ⟨deliveries, hmap, h⟩ := Except.bind_eq_ok.mp h
  cases h
  have hleased := unleased_leaseRows leaseUntil (db.dueDeliveries now limit) db
  refine ⟨hleased, fun delivery hdelivery => ?_⟩
  obtain ⟨row, hrow, hread⟩ := Except.exists_of_mem_mapM hmap hdelivery
  obtain ⟨hmem, hdue⟩ := mem_dueDeliveries hrow
  obtain ⟨d, hd, hkey, hid, hsequence, hattempts⟩ := readPendingDelivery_eq_ok hread
  -- the row that was read back is the due row with its new lease
  obtain ⟨r, hr, hrk, -, hcount⟩ := exists_of_unleased_eq hleased hd
  have hrow_eq : r = row := Table.eq_of_key_eq hr hmem (hrk.trans hkey)
  subst hrow_eq
  exact ⟨r, hmem, hid.symm, hsequence.symm, hdue, hcount ▸ hattempts⟩

/-! ## What the outbox refers to -/

/-- Every delivery has its change and its subscription, and every change a number given out. -/
structure OutboxKeys (db : Database) : Prop where
  bounded : db.LogBounded
  recorded : ∀ row ∈ db.webhookDeliveries, ∃ c ∈ db.domainChanges,
    c.changeSequence = row.eventSequence
  subscribed : ∀ row ∈ db.webhookDeliveries, ∃ s ∈ db.webhookSubscriptions,
    s.subscriptionId = row.subscriptionId

theorem outboxKeys_empty : empty.OutboxKeys := by
  constructor <;> simp [LogBounded, empty]

theorem OutboxKeys.delivery_le (hkeys : db.OutboxKeys) (hrow : row ∈ db.webhookDeliveries) :
    row.eventSequence ≤ db.lastChangeSequence := by
  obtain ⟨c, hc, heq⟩ := hkeys.recorded row hrow
  exact heq ▸ hkeys.bounded c hc

/-- No claim fails for a row that is missing. -/
theorem OutboxKeys.claimDueDeliveries (hkeys : db.OutboxKeys) (now leaseUntil : ℤ) (limit : ℕ) :
    ∃ claimed, db.claimDueDeliveries now leaseUntil limit = .ok claimed := by
  set leased := (db.dueDeliveries now limit).foldl (fun db row => db.updatePendingDelivery
    row.subscriptionId row.eventSequence (·.leased leaseUntil) fun _ => rfl) db with hdef
  have hleased : leased.unleased = db.unleased := unleased_leaseRows leaseUntil _ db
  obtain ⟨hchanges, -, hsubscriptions⟩ := tables_of_unleased_eq hleased
  have hread : ∀ row ∈ db.dueDeliveries now limit, ∃ delivery,
      leased.readPendingDelivery row = .ok delivery := by
    intro row hrow
    have hmem := (mem_dueDeliveries hrow).1
    obtain ⟨d, hd, hkey, -⟩ := exists_of_unleased_eq hleased.symm hmem
    obtain ⟨s, hs, hid⟩ := hkeys.subscribed row hmem
    obtain ⟨c, hc, hsequence⟩ := hkeys.recorded row hmem
    have hd : leased.webhookDeliveries.find (row.subscriptionId, row.eventSequence) = some d :=
      Table.find_eq_some.mpr ⟨hd, hkey⟩
    have hs : leased.webhookSubscriptions.find row.subscriptionId = some s := by
      rw [hsubscriptions]
      exact Table.find_eq_some.mpr ⟨hs, hid⟩
    have hc : leased.domainChanges.find row.eventSequence = some c := by
      rw [hchanges]
      exact Table.find_eq_some.mpr ⟨hc, hsequence⟩
    unfold readPendingDelivery
    rw [hd, hs, hc]
    exact ⟨_, rfl⟩
  obtain ⟨claimed, hclaimed⟩ := Except.mapM_ok hread
  refine ⟨(claimed, leased), ?_⟩
  unfold Database.claimDueDeliveries
  dsimp only
  rw [← hdef, hclaimed]
  rfl

/-! ### Transactions that record changes -/

/-- The tables of the outbox are the same. -/
structure SameOutbox (db db' : Database) : Prop where
  domainChanges : db'.domainChanges = db.domainChanges
  lastChangeSequence : db'.lastChangeSequence = db.lastChangeSequence
  webhookSubscriptions : db'.webhookSubscriptions = db.webhookSubscriptions
  webhookDeliveries : db'.webhookDeliveries = db.webhookDeliveries

/-- The subscriptions that receive a change. -/
def receivers (db : Database) (c : DomainChange) : Set SubscriptionId :=
  {id | ∃ s ∈ db.webhookSubscriptions, s.subscriptionId = id ∧ s.Receives c}

theorem mem_webhookDeliveries_recordChange (hkeys : db.OutboxKeys) {c : DomainChange} :
    row ∈ (db.recordChange c).webhookDeliveries ↔ row ∈ db.webhookDeliveries ∨
      ∃ s ∈ db.webhookSubscriptions, s.Receives c ∧ row = s.pendingDelivery (db.nextChange c) := by
  have hfan : row ∈ db.fanOutRows (db.nextChange c) ↔
      ∃ s ∈ db.webhookSubscriptions, s.Receives c ∧ row = s.pendingDelivery (db.nextChange c) := by
    unfold fanOutRows
    rw [List.mem_map]
    constructor
    · rintro ⟨s, hs, rfl⟩
      obtain ⟨hs, hc⟩ := Table.mem_select.mp hs
      exact ⟨s, hs, of_decide_eq_true hc, rfl⟩
    · rintro ⟨s, hs, hc, rfl⟩
      exact ⟨s, Table.mem_select.mpr ⟨hs, decide_eq_true hc⟩, rfl⟩
  rw [recordChange_webhookDeliveries, Table.mem_upsertAll fun key =>
    ⟨key.1, db.lastChangeSequence + 1, .pending, 0, c.occurredAt, none, none, none⟩, hfan]
  · constructor
    · rintro (h | ⟨h, -⟩)
      · exact Or.inr h
      · exact Or.inl h
    · rintro (h | h)
      · refine Or.inr ⟨h, fun hkey => ?_⟩
        obtain ⟨r, hr, hrk⟩ := List.mem_map.mp hkey
        obtain ⟨s, -, rfl⟩ := List.mem_map.mp hr
        have hsequence : db.lastChangeSequence + 1 = row.eventSequence := congrArg Prod.snd hrk
        have hle := hkeys.delivery_le h
        omega
      · exact Or.inl h
  · intro r hr
    obtain ⟨s, -, rfl⟩ := List.mem_map.mp hr
    rfl

theorem queues_recordChange (hkeys : db.OutboxKeys) (c : DomainChange) :
    (db.recordChange c).queues = db.queues.publish (db.receivers c) := by
  ext id n
  · rfl
  · constructor
    · rintro ⟨row, hrow, rfl, rfl, hstate⟩
      rcases (mem_webhookDeliveries_recordChange hkeys).mp hrow with hrow | ⟨s, hs, hc, rfl⟩
      · exact Or.inl (mem_pending hrow hstate)
      · exact Or.inr ⟨⟨s, hs, rfl, hc⟩, rfl⟩
    · rintro (⟨row, hrow, rfl, rfl, hstate⟩ | ⟨⟨s, hs, rfl, hc⟩, rfl⟩)
      · exact ⟨row, (mem_webhookDeliveries_recordChange hkeys).mpr (Or.inl hrow), rfl, rfl, hstate⟩
      · exact ⟨_, (mem_webhookDeliveries_recordChange hkeys).mpr (Or.inr ⟨s, hs, hc, rfl⟩),
          rfl, rfl, rfl⟩
  · constructor
    · rintro ⟨row, hrow, rfl, rfl, hstate⟩
      rcases (mem_webhookDeliveries_recordChange hkeys).mp hrow with hrow | ⟨s, hs, hc, rfl⟩
      · exact mem_finished hrow hstate
      · exact absurd rfl hstate
    · rintro ⟨row, hrow, rfl, rfl, hstate⟩
      exact ⟨row, (mem_webhookDeliveries_recordChange hkeys).mpr (Or.inl hrow), rfl, rfl, hstate⟩

/-- The transaction records changes and fans them out, and writes nothing else of the outbox. -/
structure FansOut (db db' : Database) : Prop where
  published : Queues.Published db.queues db'.queues
  subscriptions : db'.webhookSubscriptions = db.webhookSubscriptions
  last_le : db.lastChangeSequence ≤ db'.lastChangeSequence
  recorded : ∀ n, db.lastChangeSequence < n → n ≤ db'.lastChangeSequence →
    ∃ c ∈ db'.domainChanges, c.changeSequence = n
  mem_changes : ∀ c, c ∈ db.domainChanges → c ∈ db'.domainChanges
  changes_cases : ∀ c, c ∈ db'.domainChanges → c ∈ db.domainChanges ∨
    db.lastChangeSequence < c.changeSequence ∧ c.changeSequence ≤ db'.lastChangeSequence
  mem_rows_iff : ∀ row, row ∈ db'.webhookDeliveries ↔ row ∈ db.webhookDeliveries ∨
    ∃ s ∈ db.webhookSubscriptions, ∃ c ∈ db'.domainChanges,
      db.lastChangeSequence < c.changeSequence ∧ s.Receives c.toDomainChange ∧
      row = s.pendingDelivery c

theorem SameOutbox.fansOut (hkeys : db.OutboxKeys) (h : db.SameOutbox db') : db.FansOut db' where
  published := by
    rw [queues_congr h.lastChangeSequence h.webhookDeliveries]
  subscriptions := h.webhookSubscriptions
  last_le := h.lastChangeSequence.ge
  recorded n hlt hle := by
    rw [h.lastChangeSequence] at hle
    omega
  mem_changes c hc := h.domainChanges ▸ hc
  changes_cases c hc := Or.inl (h.domainChanges ▸ hc)
  mem_rows_iff row := by
    rw [h.webhookDeliveries, h.domainChanges]
    constructor
    · exact Or.inl
    · rintro (h | ⟨s, -, c, hc, hlt, -⟩)
      · exact h
      · exact absurd (hkeys.bounded c hc) (by omega)

theorem fansOut_recordChange (hkeys : db.OutboxKeys) (c : DomainChange) :
    db.FansOut (db.recordChange c) where
  published := ReflTransGen.single ⟨_, queues_recordChange hkeys c⟩
  subscriptions := rfl
  last_le := Nat.le_succ _
  recorded n hlt hle := by
    have hn : n = db.lastChangeSequence + 1 := le_antisymm hle hlt
    exact ⟨_, (mem_recordChange hkeys.bounded).mpr (Or.inr rfl), hn.symm⟩
  mem_changes x hx := (mem_recordChange hkeys.bounded).mpr (Or.inl hx)
  changes_cases x hx := by
    rcases (mem_recordChange hkeys.bounded).mp hx with hx | rfl
    · exact Or.inl hx
    · exact Or.inr ⟨Nat.lt_succ_self _, Nat.le_refl _⟩
  mem_rows_iff row := by
    rw [mem_webhookDeliveries_recordChange hkeys]
    refine or_congr_right ?_
    constructor
    · rintro ⟨s, hs, hc, rfl⟩
      exact ⟨s, hs, _, (mem_recordChange hkeys.bounded).mpr (Or.inr rfl), Nat.lt_succ_self _, hc,
        rfl⟩
    · rintro ⟨s, hs, x, hx, hlt, hreceives, rfl⟩
      rcases (mem_recordChange hkeys.bounded).mp hx with hx | rfl
      · exact absurd (hkeys.bounded x hx) (by omega)
      · exact ⟨s, hs, hreceives, rfl⟩

theorem FansOut.outboxKeys (hkeys : db.OutboxKeys) (h : db.FansOut db') : db'.OutboxKeys where
  bounded c hc := by
    rcases h.changes_cases c hc with hc | ⟨-, hle⟩
    · exact (hkeys.bounded c hc).trans h.last_le
    · exact hle
  recorded row hrow := by
    rcases (h.mem_rows_iff row).mp hrow with hrow | ⟨s, hs, c, hc, hlt, hreceives, rfl⟩
    · obtain ⟨c, hc, heq⟩ := hkeys.recorded row hrow
      exact ⟨c, h.mem_changes c hc, heq⟩
    · exact ⟨c, hc, rfl⟩
  subscribed row hrow := by
    rw [h.subscriptions]
    rcases (h.mem_rows_iff row).mp hrow with hrow | ⟨s, hs, c, hc, hlt, hreceives, rfl⟩
    · exact hkeys.subscribed row hrow
    · exact ⟨s, hs, rfl⟩

theorem FansOut.trans {db'' : Database} (h : db.FansOut db') (h' : db'.FansOut db'') :
    db.FansOut db'' where
  published := ReflTransGen.trans h.published h'.published
  subscriptions := h'.subscriptions.trans h.subscriptions
  last_le := h.last_le.trans h'.last_le
  recorded n hlt hle := by
    by_cases hn : n ≤ db'.lastChangeSequence
    · obtain ⟨c, hc, heq⟩ := h.recorded n hlt hn
      exact ⟨c, h'.mem_changes c hc, heq⟩
    · exact h'.recorded n (by omega) hle
  mem_changes c hc := h'.mem_changes c (h.mem_changes c hc)
  changes_cases c hc := by
    have hle := h.last_le
    have hle' := h'.last_le
    rcases h'.changes_cases c hc with hc | ⟨hlt, hc⟩
    · rcases h.changes_cases c hc with hc | ⟨hlt, hc⟩
      · exact Or.inl hc
      · exact Or.inr ⟨hlt, by omega⟩
    · exact Or.inr ⟨by omega, hc⟩
  mem_rows_iff row := by
    have hle := h.last_le
    rw [h'.mem_rows_iff, h.mem_rows_iff, h.subscriptions]
    constructor
    · rintro ((hrow | ⟨s, hs, c, hc, hlt, hr⟩) | ⟨s, hs, c, hc, hlt, hr⟩)
      · exact Or.inl hrow
      · exact Or.inr ⟨s, hs, c, h'.mem_changes c hc, hlt, hr⟩
      · exact Or.inr ⟨s, hs, c, hc, by omega, hr⟩
    · rintro (hrow | ⟨s, hs, c, hc, hlt, hr⟩)
      · exact Or.inl (Or.inl hrow)
      · rcases h'.changes_cases c hc with hc' | ⟨hlt', -⟩
        · exact Or.inl (Or.inr ⟨s, hs, c, hc', hlt, hr⟩)
        · exact Or.inr ⟨s, hs, c, hc, hlt', hr⟩

theorem SameChanges.sameOutbox (h : db.SameChanges db') : db.SameOutbox db' :=
  ⟨h.domainChanges, h.lastChangeSequence, h.webhookSubscriptions, h.webhookDeliveries⟩

end Database

open Database

theorem Statement.fansOut {db db' : Database} (hkeys : db.OutboxKeys) (h : Statement db db') :
    db.FansOut db' := by
  rcases h.recordChange_cases with hsame | ⟨db₀, c, hsame, rfl⟩
  · exact hsame.sameOutbox.fansOut hkeys
  · have hwritten := hsame.sameOutbox.fansOut hkeys
    exact hwritten.trans (fansOut_recordChange (hwritten.outboxKeys hkeys) c)

/-- A transaction on notes or on the library. -/
theorem Statements.fansOut {db db' : Database} (hkeys : db.OutboxKeys) (h : Statements db db') :
    db.FansOut db' := by
  induction h with
  | refl => exact SameOutbox.fansOut hkeys ⟨rfl, rfl, rfl, rfl⟩
  | tail _ hstep ih => exact ih.trans (hstep.fansOut (ih.outboxKeys hkeys))

namespace Database

variable {db db' : Database} {id : SubscriptionId} {n : ℕ} {row : DeliveryRow}

/-! ### Transactions that record no change -/

/-- The transaction records no change, adds no delivery, and deletes no change that a delivery
needs. -/
structure Quiet (db db' : Database) : Prop where
  last : db'.lastChangeSequence = db.lastChangeSequence
  rows : ∀ row' ∈ db'.webhookDeliveries, ∃ row ∈ db.webhookDeliveries,
    Keyed.key row = Keyed.key row'
  changes_subset : ∀ c, c ∈ db'.domainChanges → c ∈ db.domainChanges
  changes_kept : ∀ c, c ∈ db.domainChanges →
    (∃ row ∈ db.webhookDeliveries, row.eventSequence = c.changeSequence ∧ row.state = .pending) ∨
      (∃ row ∈ db'.webhookDeliveries, row.eventSequence = c.changeSequence) →
    c ∈ db'.domainChanges
  subscriptions_kept : ∀ s ∈ db.webhookSubscriptions,
    (∃ row ∈ db'.webhookDeliveries, row.subscriptionId = s.subscriptionId) →
    ∃ s' ∈ db'.webhookSubscriptions, s'.subscriptionId = s.subscriptionId

theorem Quiet.outboxKeys (hkeys : db.OutboxKeys) (h : db.Quiet db') : db'.OutboxKeys where
  bounded c hc := h.last ▸ hkeys.bounded c (h.changes_subset c hc)
  recorded row' hrow' := by
    obtain ⟨row, hrow, hkey⟩ := h.rows row' hrow'
    obtain ⟨c, hc, heq⟩ := hkeys.recorded row hrow
    have heq' : c.changeSequence = row'.eventSequence := heq.trans (congrArg Prod.snd hkey)
    exact ⟨c, h.changes_kept c hc (Or.inr ⟨row', hrow', heq'.symm⟩), heq'⟩
  subscribed row' hrow' := by
    obtain ⟨row, hrow, hkey⟩ := h.rows row' hrow'
    obtain ⟨s, hs, heq⟩ := hkeys.subscribed row hrow
    have heq' : s.subscriptionId = row'.subscriptionId := heq.trans (congrArg Prod.fst hkey)
    obtain ⟨s', hs', hid⟩ := h.subscriptions_kept s hs ⟨row', hrow', heq'.symm⟩
    exact ⟨s', hs', hid.trans heq'⟩

/-- No change is touched, and no subscription lost. -/
theorem Quiet.of_rows (hchanges : db'.domainChanges = db.domainChanges)
    (hlast : db'.lastChangeSequence = db.lastChangeSequence)
    (hrows : ∀ row' ∈ db'.webhookDeliveries, ∃ row ∈ db.webhookDeliveries,
      Keyed.key row = Keyed.key row')
    (hsubscriptions : ∀ s ∈ db.webhookSubscriptions,
      ∃ s' ∈ db'.webhookSubscriptions, s'.subscriptionId = s.subscriptionId) : db.Quiet db' where
  last := hlast
  rows := hrows
  changes_subset _ hc := hchanges ▸ hc
  changes_kept _ hc _ := hchanges ▸ hc
  subscriptions_kept s hs _ := hsubscriptions s hs

theorem Quiet.refl (db : Database) : db.Quiet db :=
  .of_rows rfl rfl (fun row hrow => ⟨row, hrow, rfl⟩) fun s hs => ⟨s, hs, rfl⟩

/-- An update of deliveries. -/
theorem quiet_modify {p : DeliveryRow → Bool} {set : DeliveryRow → DeliveryRow}
    {hset : ∀ r, Keyed.key (set r) = Keyed.key r} :
    db.Quiet { db with webhookDeliveries := db.webhookDeliveries.modify p set hset } := by
  refine .of_rows rfl rfl (fun row' hrow' => ?_) fun s hs => ⟨s, hs, rfl⟩
  exact (Table.exists_key_modify hset).mp ⟨row', hrow', rfl⟩

/-- An update of subscriptions keeps their ids. -/
theorem exists_subscription_modify {t : Table SubscriptionRow} {p : SubscriptionRow → Bool}
    {set : SubscriptionRow → SubscriptionRow} (hset : ∀ s, Keyed.key (set s) = Keyed.key s) :
    ∀ s ∈ t, ∃ s' ∈ t.modify p set hset, s'.subscriptionId = s.subscriptionId :=
  fun s hs => (Table.exists_key_modify hset).mpr ⟨s, hs, rfl⟩

theorem quiet_modifySubscriptions {p : SubscriptionRow → Bool}
    {set : SubscriptionRow → SubscriptionRow} {hset : ∀ s, Keyed.key (set s) = Keyed.key s} :
    db.Quiet { db with webhookSubscriptions := db.webhookSubscriptions.modify p set hset } :=
  .of_rows rfl rfl (fun row hrow => ⟨row, hrow, rfl⟩) (exists_subscription_modify hset)

theorem Quiet.reactivateExhausted (h : db.Quiet db') (id : SubscriptionId) (now : ℤ) :
    db.Quiet (db'.reactivateExhausted id now) where
  last := h.last
  rows := h.rows
  changes_subset := h.changes_subset
  changes_kept := h.changes_kept
  subscriptions_kept s hs hrow := by
    obtain ⟨s', hs', hid⟩ := h.subscriptions_kept s hs hrow
    have hkept : ∃ s'' ∈ (db'.reactivateExhausted id now).webhookSubscriptions,
        s''.subscriptionId = s'.subscriptionId := by
      refine exists_subscription_modify ?_ s' hs'
      exact fun _ => rfl
    obtain ⟨s'', hs'', hid'⟩ := hkept
    exact ⟨s'', hs'', hid'.trans hid⟩

/-- A claim, up to the leases it sets. -/
theorem quiet_of_unleased_eq (h : db'.unleased = db.unleased) : db.Quiet db' := by
  obtain ⟨hchanges, hlast, hsubscriptions⟩ := tables_of_unleased_eq h
  refine .of_rows hchanges hlast (fun row' hrow' => ?_) fun s hs => ⟨s, hsubscriptions ▸ hs, rfl⟩
  obtain ⟨row, hrow, hkey, -⟩ := exists_of_unleased_eq h hrow'
  exact ⟨row, hrow, hkey⟩

theorem queues_of_unleased_eq (h : db'.unleased = db.unleased) : db'.queues = db.queues := by
  rw [← queues_unleased db', h, queues_unleased]

/-! ### The answers -/

/-- The answer to a claimed delivery finishes the head of its queue, or comes too late. -/
theorem step_recordDelivered (h : db.queues.Claimed id n) (deliveredAt : ℤ) :
    db.queues.Step (db.recordDelivered id n deliveredAt).queues := by
  by_cases hn : n ∈ db.queues.pending id
  · have hfinish : (db.recordDelivered id n deliveredAt).queues = db.queues.finish id n := by
      refine queues_finish (fun row => by simp [DeliveryRow.delivered]) (fun row _ => ?_) hn
      simp
    exact hfinish ▸ .finish id n (h.isLeast hn)
  · refine .of_eq (queues_congr rfl (Table.ext_rows ?_))
    refine (List.map_congr_left fun row hrow => if_neg ?_).trans (List.map_id _)
    simp only [decide_eq_true_eq]
    rintro ⟨rfl, rfl, hstate⟩
    exact hn (mem_pending hrow hstate)

theorem queues_recordFailed (failure : WebhookDeliveryFailure) (attemptCount : ℕ)
    (nextAttemptAt attemptedAt : ℤ) :
    (db.recordFailed id n failure attemptCount nextAttemptAt attemptedAt).queues = db.queues :=
  queues_modify fun _ _ => rfl

/-! ### The commands of an owner -/

theorem mem_updateHead_iff (id : SubscriptionId) (hrow : row ∈ db.webhookDeliveries) :
    (row.subscriptionId = id ∧ db.IsHead row) ↔ row.subscriptionId = id ∧
      row.state = .pending ∧ IsLeast (db.queues.pending id) row.eventSequence := by
  refine and_congr_right fun hid => ?_
  rw [isHead_iff hrow, hid]

/-- Discarding finishes the head of the queue, when there is one. -/
theorem step_discardHead (id : SubscriptionId) (now : ℤ) :
    db.queues.Step (db.updateHeadDelivery id (·.discarded now) fun _ => rfl).queues := by
  by_cases hhead : ∃ n, IsLeast (db.queues.pending id) n
  · obtain ⟨n, hn⟩ := hhead
    have hfinish : (db.updateHeadDelivery id (·.discarded now) fun _ => rfl).queues =
        db.queues.finish id n := by
      refine queues_finish (fun row => by simp [DeliveryRow.discarded]) (fun row hrow => ?_) hn.1
      rw [decide_eq_true_eq, mem_updateHead_iff id hrow]
      constructor
      · rintro ⟨hid, hstate, hleast⟩
        exact ⟨hid, hleast.unique hn, hstate⟩
      · rintro ⟨hid, rfl, hstate⟩
        exact ⟨hid, hstate, hn⟩
    exact hfinish ▸ .finish id n hn
  · refine .of_eq (queues_congr rfl (Table.ext_rows ?_))
    refine (List.map_congr_left fun row hrow => if_neg ?_).trans (List.map_id _)
    rw [decide_eq_true_eq, mem_updateHead_iff id hrow]
    rintro ⟨-, -, hleast⟩
    exact hhead ⟨_, hleast⟩

theorem queues_retryHead (id : SubscriptionId) (now : ℤ) :
    (db.updateHeadDelivery id (·.retried now) fun _ => rfl).queues = db.queues :=
  queues_modify fun _ _ => rfl

/-- Deleting a subscription drops its queue. -/
theorem queues_deleteSubscription (id : SubscriptionId) (subscriptions : Table SubscriptionRow) :
    queues { db with
      webhookSubscriptions := subscriptions
      webhookDeliveries := db.webhookDeliveries.deleteWhere fun row => row.subscriptionId = id } =
      db.queues.drop id := by
  ext j m
  · rfl
  · simp only [queues, Queues.drop, Set.mem_ofPred_eq, Table.mem_deleteWhere,
      decide_eq_false_iff_not]
    constructor
    · rintro ⟨row, ⟨hrow, hid⟩, rfl, rfl, hstate⟩
      exact ⟨⟨row, hrow, rfl, rfl, hstate⟩, hid⟩
    · rintro ⟨⟨row, hrow, rfl, rfl, hstate⟩, hid⟩
      exact ⟨row, ⟨hrow, hid⟩, rfl, rfl, hstate⟩
  · simp only [queues, Queues.drop, Set.mem_ofPred_eq, Table.mem_deleteWhere,
      decide_eq_false_iff_not]
    constructor
    · rintro ⟨row, ⟨hrow, hid⟩, rfl, rfl, hstate⟩
      exact ⟨⟨row, hrow, rfl, rfl, hstate⟩, hid⟩
    · rintro ⟨⟨row, hrow, rfl, rfl, hstate⟩, hid⟩
      exact ⟨row, ⟨hrow, hid⟩, rfl, rfl, hstate⟩

/-! ### The purges -/

theorem quiet_purgeExpiredDeliveries (now : ℤ) :
    db.Quiet (db.purgeExpiredDeliveries now).2 where
  last := rfl
  rows row' hrow' := ⟨row', (Table.mem_deleteWhere.mp hrow').1, rfl⟩
  changes_subset c hc := (Table.mem_deleteWhere.mp hc).1
  changes_kept c hc hneeded := by
    refine Table.mem_deleteWhere.mpr ⟨hc, ?_⟩
    have hkept : ∃ d ∈ db.webhookDeliveries.deleteWhere
        (purgedDelivery (saturatingSub now webhookRetentionMs)),
        d.eventSequence = c.changeSequence := by
      rcases hneeded with ⟨row, hrow, heq, hstate⟩ | ⟨row, hrow, heq⟩
      · refine ⟨row, Table.mem_deleteWhere.mpr ⟨hrow, ?_⟩, heq⟩
        simp [purgedDelivery, hstate]
      · exact ⟨row, hrow, heq⟩
    simp only [purgedWebhookChange, decide_eq_false_iff_not]
    exact fun hpurged => hpurged.2.2.1 hkept
  subscriptions_kept s hs _ := ⟨s, hs, rfl⟩

/-- Purging forgets finished deliveries. -/
theorem step_purgeExpiredDeliveries (now : ℤ) :
    db.queues.Step (db.purgeExpiredDeliveries now).2.queues := by
  have hforget : (db.purgeExpiredDeliveries now).2.queues =
      { db.queues with finished := (db.purgeExpiredDeliveries now).2.queues.finished } := by
    ext id n
    · rfl
    · constructor
      · rintro ⟨row, hrow, h⟩
        exact ⟨row, (Table.mem_deleteWhere.mp hrow).1, h⟩
      · rintro ⟨row, hrow, hid, hn, hstate⟩
        refine ⟨row, Table.mem_deleteWhere.mpr ⟨hrow, ?_⟩, hid, hn, hstate⟩
        simp [purgedDelivery, hstate]
    · rfl
  rw [hforget]
  refine .forget _ ?_
  rintro id n ⟨row, hrow, h⟩
  exact ⟨row, (Table.mem_deleteWhere.mp hrow).1, h⟩

theorem quiet_purgeExpiredOperationalState (now unusedClientCutoff : ℤ) :
    db.Quiet (db.purgeExpiredOperationalState now unusedClientCutoff).2 where
  last := rfl
  rows row hrow := ⟨row, hrow, rfl⟩
  changes_subset c hc := (Table.mem_deleteWhere.mp hc).1
  changes_kept c hc hneeded := by
    refine Table.mem_deleteWhere.mpr ⟨hc, ?_⟩
    have hkept : ∃ d ∈ db.webhookDeliveries, d.eventSequence = c.changeSequence := by
      rcases hneeded with ⟨row, hrow, heq, -⟩ | ⟨row, hrow, heq⟩
      · exact ⟨row, hrow, heq⟩
      · exact ⟨row, hrow, heq⟩
    simp only [purgedChange, decide_eq_false_iff_not]
    exact fun hpurged => hpurged.2.2 hkept
  subscriptions_kept s hs _ := ⟨s, hs, rfl⟩

end Database

end Marginalis
