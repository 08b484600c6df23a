import OpcUa.QueueCounters
import OpcUa.Loops

namespace OpcUa.KeepAliveCadence

open MonitoredItems Subscriptions SubscriptionServices SubscriptionRuns SubscriptionJobs QueueCounters
open Loops (Throughout throughout_congr)

section Cycles

variable {sub : Subscription} {op : Op} {n : Nat}

def isEmptyCycle (sub : Subscription) : Op → Bool
  | .update c => cycleDue sub c && !hasQueuedData sub
  | _ => false

/-- Not a part of a Publish request that finds nothing, and no modification. -/
def Undisturbed : Op → Prop
  | .forceKeepAlive _ | .modify _ => False
  | _ => True

def retained (sub : Subscription) : Op → List UnpublishedNotification
  | .update c => if cycleDue sub c then (makeRoom sub).unpublishedNotifications else sub.unpublishedNotifications
  | _ => sub.unpublishedNotifications

def QueuesKeepAlive (sub : Subscription) (op : Op) : Prop :=
  ∃ m, m.hasData = false ∧ (Op.apply sub op).unpublishedNotifications = m :: retained sub op

theorem not_queues_of_length (h : (Op.apply sub op).unpublishedNotifications.length ≤ (retained sub op).length) :
    ¬ QueuesKeepAlive sub op := by
  rintro ⟨m, _, hlist⟩
  rw [hlist, List.length_cons] at h
  omega

theorem queuedTotal_other {type : MonitoredItemType} {items : List MonitoredItem}
    (h : ∀ item ∈ items, item.monitoredItemType = .changeNotify) (htype : type ≠ .changeNotify) :
    queuedTotal type items = 0 := by
  have hnone : items.filter (fun item => !item.queue.isEmpty && item.monitoredItemType == type) = [] := by
    rw [List.filter_eq_nil_iff]
    intro item hitem
    rw [h item hitem]
    simp [htype.symm]
  rw [queuedTotal, hnone]
  rfl

theorem hasQueuedData_eq (h : Counted sub) :
    hasQueuedData sub = !(queuedTotal .changeNotify sub.monitoredItems == 0) := by
  have hkinds : ∀ item ∈ sub.monitoredItems, item.monitoredItemType = .changeNotify :=
    fun item hitem => (h.items item hitem).kind
  have hevents : queuedTotal .eventNotify sub.monitoredItems = 0 := queuedTotal_other hkinds (by decide)
  have hstatus : queuedTotal .statusNotify sub.monitoredItems = 0 := queuedTotal_other hkinds (by decide)
  rw [hasQueuedData, hevents, hstatus]
  simp

theorem hasData_dataMessage (h : Counted sub) (hdata : hasQueuedData sub = true) (c : Cycle) :
    (dataMessage (makeRoom sub) c).hasData = true := by
  have hsome : queuedTotal .changeNotify (makeRoom sub).monitoredItems ≠ 0 := by
    rw [monitoredItems_makeRoom]
    rw [hasQueuedData_eq h] at hdata
    simpa using hdata
  rw [dataMessage, UnpublishedNotification.hasData, if_neg hsome]
  rfl

theorem queuesKeepAlive_update (h : Counted sub) (c : Cycle) :
    QueuesKeepAlive sub (.update c) ↔ isEmptyCycle sub (.update c) = true ∧ keepAliveDue sub = true := by
  rw [isEmptyCycle, Bool.and_eq_true, Bool.not_eq_true']
  rcases update_cases sub c with ⟨hdue, heq⟩ | ⟨hdue, hdata, heq⟩ | ⟨hdue, hdata, hkeep, hsame⟩ |
    ⟨hdue, hdata, hkeep, hsame⟩
  · have hnot : ¬ QueuesKeepAlive sub (.update c) := by
      apply not_queues_of_length
      rw [Op.apply, heq, retained, hdue, if_neg Bool.false_ne_true]
    simp [hnot, hdue]
  · have hnot : ¬ QueuesKeepAlive sub (.update c) := by
      rintro ⟨m, hm, hlist⟩
      rw [Op.apply, heq, retained, if_pos hdue] at hlist
      have hmessage : dataMessage (makeRoom sub) c = m := (List.cons.inj hlist).1
      rw [← hmessage, hasData_dataMessage h hdata] at hm
      cases hm
    simp [hnot, hdata]
  · have hnot : ¬ QueuesKeepAlive sub (.update c) := by
      apply not_queues_of_length
      rw [Op.apply, hsame.notifications, retained, if_pos hdue]
    simp [hnot, hkeep]
  · have hqueues : QueuesKeepAlive sub (.update c) := by
      refine ⟨keepAlive (makeRoom sub) c.publishTime, rfl, ?_⟩
      rw [Op.apply, hsame.notifications, retained, if_pos hdue]
      rfl
    simp [hqueues, hdue, hdata, hkeep]

theorem queuesKeepAlive_iff (h : Counted sub) (hop : Undisturbed op) :
    QueuesKeepAlive sub op ↔ isEmptyCycle sub op = true ∧ keepAliveDue sub = true := by
  cases op with
  | update c => exact queuesKeepAlive_update h c
  | forceKeepAlive | modify => cases hop
  | publish i =>
      have hnot : ¬ QueuesKeepAlive sub (.publish i) :=
        not_queues_of_length (Nat.le_of_eq (List.length_modify _ _ _))
      simp [hnot, isEmptyCycle]
  | delete seqNo =>
      have hnot : ¬ QueuesKeepAlive sub (.delete seqNo) := not_queues_of_length (List.length_filter_le _ _)
      simp [hnot, isEmptyCycle]
  | sample s =>
      have hnot : ¬ QueuesKeepAlive sub (.sample s) := not_queues_of_length (Nat.le_refl _)
      simp [hnot, isEmptyCycle]
  | addItem itemId nodeId p =>
      have hnot : ¬ QueuesKeepAlive sub (.addItem itemId nodeId p) := not_queues_of_length (Nat.le_refl _)
      simp [hnot, isEmptyCycle]
  | removeItem itemId =>
      have hnot : ¬ QueuesKeepAlive sub (.removeItem itemId) := not_queues_of_length (Nat.le_refl _)
      simp [hnot, isEmptyCycle]
  | register guid =>
      have hnot : ¬ QueuesKeepAlive sub (.register guid) := not_queues_of_length (Nat.le_refl _)
      simp [hnot, isEmptyCycle]

theorem keepAliveCount_makeRoom : (makeRoom sub).keepAliveCount = sub.keepAliveCount := by
  rw [makeRoom]
  split <;> rfl

theorem keepAliveCount_idleCycle (publishTime : Int) : (idleCycle sub publishTime).keepAliveCount =
    { sub.keepAliveCount with
      currentValue :=
        if keepAliveDue sub then sub.keepAliveCount.maxValue else sub.keepAliveCount.currentValue - 1 } := by
  rw [idleCycle]
  dsimp only
  by_cases hdue : keepAliveDue sub = true
  · have hless : sub.keepAliveCount.currentValue - 1 < sub.keepAliveCount.minValue := of_decide_eq_true hdue
    rw [if_pos hless, if_pos hdue, generateKeepAlive, if_neg (fun h => Int.lt_asymm hless h.1)]
  · have hnot : ¬ sub.keepAliveCount.currentValue - 1 < sub.keepAliveCount.minValue :=
      fun h => hdue (decide_eq_true h)
    rw [if_neg hnot, if_neg hdue]

theorem keepAliveCount_apply (hop : Undisturbed op) : (Op.apply sub op).keepAliveCount =
    if isEmptyCycle sub op then
      { sub.keepAliveCount with
        currentValue :=
          if keepAliveDue sub then sub.keepAliveCount.maxValue else sub.keepAliveCount.currentValue - 1 }
    else sub.keepAliveCount := by
  cases op with
  | update c =>
      rw [Op.apply, updateNotifications, isEmptyCycle, cycleDue]
      by_cases hdue : sub.lastPublished + sub.publishingInterval > c.now
      · rw [if_pos hdue, decide_eq_false (Int.not_le.mpr hdue)]
        rfl
      · rw [if_neg hdue, decide_eq_true (Int.not_lt.mp hdue)]
        cases hasQueuedData sub with
        | true => exact keepAliveCount_makeRoom
        | false =>
            rw [if_neg Bool.false_ne_true, keepAliveCount_idleCycle, keepAliveDue_makeRoom, keepAliveCount_makeRoom]
            rfl
  | forceKeepAlive | modify => cases hop
  | _ => rfl

end Cycles

section Counting

/-- A subscription with the number of cycles without data: those in a row
since the creation, the last data or the last keep-alive that was expected,
and all of them. -/
structure Tracked where
  sub : Subscription
  inRow : Nat
  total : Nat

namespace Tracked

variable (n : Nat)

/-- A keep-alive is expected in every `n`-th cycle without data. -/
def step (t : Tracked) (op : Op) : Tracked where
  sub := Op.apply t.sub op
  inRow :=
    match op with
    | .update c =>
        if !cycleDue t.sub c then t.inRow
        else if hasQueuedData t.sub || t.inRow + 1 = n then 0
        else t.inRow + 1
    | _ => t.inRow
  total := if isEmptyCycle t.sub op then t.total + 1 else t.total

/-- A keep-alive is queued exactly where one is expected. -/
def Cadent (t : Tracked) (op : Op) : Prop :=
  QueuesKeepAlive t.sub op ↔ isEmptyCycle t.sub op = true ∧ t.inRow + 1 = n

/-- The cycles in a row make up `n` exactly if all of them make up one more
than `n`, or as much and a multiple of 101. -/
def CountsAgree (t : Tracked) (op : Op) : Prop :=
  isEmptyCycle t.sub op = true → (t.inRow + 1 = n ↔ n ≤ t.total ∧ (t.total - n) % 101 = 0)

instance (t : Tracked) (op : Op) : Decidable (CountsAgree n t op) :=
  inferInstanceAs (Decidable (_ → _))

/-- The counter starts at `n`, and at 100 after every keep-alive. -/
def countdown (total : Nat) : Int := if total ≤ n then n - total else 100 - ((total - n - 1) % 101 : Nat)

structure Counting (t : Tracked) : Prop where
  counted : Counted t.sub
  count : t.sub.keepAliveCount = ⟨countdown n t.total, 0, 100⟩

variable {n} {t : Tracked} {op : Op} {ops : List Op}

theorem countdown_zero_iff (total : Nat) : countdown n total - 1 < 0 ↔ n ≤ total ∧ (total - n) % 101 = 0 := by
  rw [countdown]
  split <;> omega

theorem countdown_succ (total : Nat) :
    countdown n (total + 1) = if countdown n total - 1 < 0 then 100 else countdown n total - 1 := by
  rw [countdown, countdown]
  split <;> split <;> split <;> omega

theorem Counting.keepAliveDue_iff (h : Counting n t) :
    keepAliveDue t.sub = true ↔ n ≤ t.total ∧ (t.total - n) % 101 = 0 := by
  rw [← countdown_zero_iff, keepAliveDue, h.count]
  exact decide_eq_true_iff

theorem Counting.step (h : Counting n t) (hop : Undisturbed op) : Counting n (t.step n op) where
  counted := counted_apply op h.counted
  count := by
    have hcount : (t.step n op).sub.keepAliveCount = _ := keepAliveCount_apply hop
    rw [hcount]
    by_cases hempty : isEmptyCycle t.sub op = true
    · have htotal : (t.step n op).total = t.total + 1 := if_pos hempty
      rw [if_pos hempty, htotal, countdown_succ, keepAliveDue, h.count]
      by_cases hzero : countdown n t.total - 1 < 0 <;> simp [hzero]
    · have htotal : (t.step n op).total = t.total := if_neg hempty
      rw [if_neg hempty, htotal]
      exact h.count

theorem Counting.cadent_iff (h : Counting n t) (hop : Undisturbed op) : Cadent n t op ↔ CountsAgree n t op := by
  rw [Cadent, queuesKeepAlive_iff h.counted hop, h.keepAliveDue_iff, CountsAgree, and_congr_right_iff]
  exact forall_congr' fun _ => Iff.comm

theorem Counting.throughout_iff (h : Counting n t) (hops : ∀ op ∈ ops, Undisturbed op) :
    Throughout (Tracked.step n) (Cadent n) t ops ↔ Throughout (Tracked.step n) (CountsAgree n) t ops := by
  refine throughout_congr (I := fun t ops => Counting n t ∧ ∀ op ∈ ops, Undisturbed op) ?_ ?_ ⟨h, hops⟩
  · rintro t op ops ⟨h, hops⟩
    exact ⟨h.step (hops op List.mem_cons_self), fun x hx => hops x (List.mem_cons_of_mem op hx)⟩
  · rintro t op ops ⟨h, hops⟩
    exact h.cadent_iff (hops op List.mem_cons_self)

end Tracked

end Counting

open Tracked

theorem keepAliveCount_new {sub : Subscription} (h : IsNew sub) :
    sub.keepAliveCount = ⟨sub.keepAliveCount.currentValue, 0, 100⟩ := by
  obtain ⟨address, id, guid, publishingEnabled, p, e, rfl⟩ := h
  rw [registerOps]
  split <;> rfl

/-- The counter of a subscription is set to the revised count only once, and
data do not set it back. -/
theorem keepAlive_cadence_iff {sub : Subscription} {n : Nat} {ops : List Op} (hnew : IsNew sub)
    (hcount : sub.keepAliveCount.currentValue = n) (hops : ∀ op ∈ ops, Undisturbed op) :
    Throughout (step n) (Cadent n) ⟨sub, 0, 0⟩ ops ↔ Throughout (step n) (CountsAgree n) ⟨sub, 0, 0⟩ ops := by
  have hstart : countdown n 0 = n := by simp [countdown]
  have hcounting : Counting n ⟨sub, 0, 0⟩ := by
    refine ⟨counted_new hnew, ?_⟩
    rw [hstart, ← hcount]
    exact keepAliveCount_new hnew
  exact hcounting.throughout_iff hops

section Example

open Publishing (quiet showing sampleItem)

/-- The client asks for a keep-alive in every second cycle. -/
def briskSubscription : Subscription :=
  let new := newSubscription 1 7 (sampleGuid 1) true { sampleParameters with maxKeepAliveCount := 2 }
  Op.applyAll (registerOps ⟨0, sampleGuid 1⟩ new) new

theorem isNew_briskSubscription : IsNew briskSubscription := ⟨1, 7, sampleGuid 1, true, _, ⟨0, sampleGuid 1⟩, rfl⟩

def quietCycle : Op := .update (quiet.cycle 0)

/-- The first keep-alive comes one cycle late. -/
theorem keepAlive_late : IsNew briskSubscription ∧ briskSubscription.keepAliveCount.currentValue = 2 ∧
    (∀ op ∈ [quietCycle, quietCycle], Undisturbed op) ∧
    ¬ Throughout (step 2) (Cadent 2) ⟨briskSubscription, 0, 0⟩ [quietCycle, quietCycle] := by
  refine ⟨isNew_briskSubscription, by decide, fun op hop => ?_, fun h => ?_⟩
  · simp only [List.mem_cons, List.not_mem_nil, or_false, or_self] at hop
    rw [hop]
    trivial
  · obtain ⟨_, hsecond, _⟩ := h
    obtain ⟨m, _, hlist⟩ := hsecond.mpr ⟨by decide +kernel, by decide +kernel⟩
    have hnone : (Op.applyAll [quietCycle, quietCycle] briskSubscription).unpublishedNotifications.isEmpty = true := by
      decide +kernel
    have hsome : (Op.applyAll [quietCycle, quietCycle] briskSubscription).unpublishedNotifications =
        m :: _ := hlist
    rw [hsome] at hnone
    cases hnone

/-- A change comes in the second cycle, and a keep-alive two cycles later. -/
def changeInSecondCycle : List Op :=
  [.addItem 8 (NodeIds.numericId 1 1) sampleItem, quietCycle, .sample ((showing 1 5000000).sampling 0), quietCycle,
    quietCycle, quietCycle]

theorem keepAlive_cadence_changeInSecondCycle : IsNew briskSubscription ∧
    briskSubscription.keepAliveCount.currentValue = (2 : Nat) ∧ (∀ op ∈ changeInSecondCycle, Undisturbed op) ∧
    Throughout (step 2) (Cadent 2) ⟨briskSubscription, 0, 0⟩ changeInSecondCycle := by
  have hcount : briskSubscription.keepAliveCount.currentValue = (2 : Nat) := by decide
  have hops : ∀ op ∈ changeInSecondCycle, Undisturbed op := by
    intro op hop
    simp only [changeInSecondCycle, List.mem_cons, List.not_mem_nil, or_false] at hop
    rcases hop with rfl | rfl | rfl | rfl | rfl | rfl <;> trivial
  refine ⟨isNew_briskSubscription, hcount, hops, ?_⟩
  exact (keepAlive_cadence_iff isNew_briskSubscription hcount hops).mpr (by decide +kernel)

end Example

end OpcUa.KeepAliveCadence
