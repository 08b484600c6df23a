import OpcUa.QueuedSamples
import OpcUa.Loops

namespace OpcUa.IntervalChecks

open MonitoredItems Subscriptions SubscriptionServices QueuedSamples
open SubscriptionRuns (IsNew)
open Loops (run Throughout run_of_throughout)

section Spacing

variable {α : Type} {time gap : α → Int}

/-- Every event comes its own gap after all those before it. The newest one
is the first. -/
def Spaced (time gap : α → Int) (log : List α) : Prop :=
  log.Pairwise (fun later earlier => time earlier + gap later ≤ time later)

instance (log : List α) : Decidable (Spaced time gap log) := inferInstanceAs (Decidable (List.Pairwise _ _))

def milliseconds (n : Int) : Int := 10000 * n

end Spacing

section Items

inductive ItemOp
  | sample (s : Sampling)
  | clear

/-- An item with the times of its samplings and, of these, the times at which
a value was queued. -/
structure Sampled where
  item : MonitoredItem
  samplings : List Int
  queued : List Int

namespace Sampled

def apply (t : Sampled) : ItemOp → Sampled
  | .sample s =>
      ⟨queuePushDataValue s t.item, s.sampledAt :: t.samplings,
        if (queuedValue s t.item).isSome then s.sampledAt :: t.queued else t.queued⟩
  | .clear => { t with item := clearQueue t.item }

/-- The time of the sampling is taken after the check of the interval. -/
def ClockAdvances : ItemOp → Prop
  | .sample s => s.now ≤ s.sampledAt
  | .clear => True

def KeepsInterval (t : Sampled) : Prop :=
  Spaced id (fun _ => milliseconds t.item.samplingInterval.toNat) t.queued

instance (t : Sampled) : Decidable t.KeepsInterval := inferInstanceAs (Decidable (Spaced _ _ _))

/-- The item was sampled before, and the interval since then is over in units
of the clock but not in milliseconds. -/
def Early (t : Sampled) : ItemOp → Prop
  | .sample s => ∃ earlier ∈ t.samplings, earlier + t.item.samplingInterval.toNat ≤ s.now ∧
      s.sampledAt < earlier + milliseconds t.item.samplingInterval.toNat
  | .clear => False

instance (t : Sampled) : ∀ op, Decidable (Early t op)
  | .sample _ => inferInstanceAs (Decidable (∃ _ ∈ _, _ ∧ _))
  | .clear => .isFalse id

structure Remembers (t : Sampled) : Prop where
  sampled : t.queued ⊆ t.samplings
  last : ∀ earlier ∈ t.queued, earlier ≤ t.item.lastSampled

variable {t : Sampled} {op : ItemOp}

theorem samplingInterval_dropOldest (item : MonitoredItem) :
    (dropOldest item).samplingInterval = item.samplingInterval ∧ (dropOldest item).lastSampled = item.lastSampled := by
  rw [dropOldest]
  split <;> exact ⟨rfl, rfl⟩

theorem samplingInterval_queuePush (s : Sampling) (item : MonitoredItem) :
    (queuePushDataValue s item).samplingInterval = item.samplingInterval := by
  cases hvalue : queuedValue s item with
  | none =>
      rcases queuePush_of_unqueued hvalue with heq | heq <;> rw [heq]
      exact (samplingInterval_dropOldest item).1
  | some v =>
      rw [queuePush_of_queued hvalue]
      exact (samplingInterval_dropOldest item).1

theorem lastSampled_of_unqueued {s : Sampling} {item : MonitoredItem} (h : queuedValue s item = none) :
    (queuePushDataValue s item).lastSampled = item.lastSampled := by
  rcases queuePush_of_unqueued h with heq | heq <;> rw [heq]
  exact (samplingInterval_dropOldest item).2

/-- The check counts the milliseconds as units of the clock. -/
theorem due_of_queued {s : Sampling} {item : MonitoredItem} {v : AttributeReads.DataValue}
    (h : queuedValue s item = some v) : item.lastSampled + item.samplingInterval.toNat ≤ s.now := by
  have htaken := (queuedValue_eq_some.mp h).1.taken
  rw [taken] at htaken
  split at htaken
  · cases htaken
  · omega

theorem Remembers.apply (h : Remembers t) (hclock : ClockAdvances op) : Remembers (t.apply op) := by
  cases op with
  | clear => exact ⟨h.sampled, h.last⟩
  | sample s =>
      rw [Sampled.apply]
      cases hvalue : queuedValue s t.item with
      | none =>
          refine ⟨fun earlier hearlier => List.mem_cons_of_mem _ (h.sampled hearlier), fun earlier hearlier => ?_⟩
          dsimp only
          rw [lastSampled_of_unqueued hvalue]
          exact h.last earlier hearlier
      | some v =>
          refine ⟨List.cons_subset_cons _ h.sampled, fun earlier hearlier => ?_⟩
          dsimp only
          rw [queuePush_of_queued hvalue]
          rcases List.mem_cons.mp hearlier with rfl | hearlier
          · exact Int.le_refl _
          · have hlast := h.last earlier hearlier
            have hdue := due_of_queued hvalue
            have hnow : s.now ≤ s.sampledAt := hclock
            have hle : earlier ≤ s.sampledAt := by omega
            exact hle

theorem Remembers.keepsInterval (h : Remembers t) (hinTime : ¬ Early t op) (hkeeps : KeepsInterval t) :
    KeepsInterval (t.apply op) := by
  cases op with
  | clear => exact hkeeps
  | sample s =>
      rw [KeepsInterval, Sampled.apply]
      dsimp only
      rw [samplingInterval_queuePush]
      cases hvalue : queuedValue s t.item with
      | none => exact hkeeps
      | some v =>
          refine List.pairwise_cons.mpr ⟨fun earlier hearlier => ?_, hkeeps⟩
          have hlast := h.last earlier hearlier
          have hdue := due_of_queued hvalue
          by_contra hsoon
          exact hinTime ⟨earlier, h.sampled hearlier, by omega, Int.not_le.mp hsoon⟩

end Sampled

end Items

section Publications

/-- A subscription with its items, the times of its publishing cycles and, of
its notifications with data, the times and the publishing intervals that it had
then. What came last is the first. -/
structure Tracked where
  sub : Subscription
  items : List Sampled
  cycles : List Int
  notifications : List (Int × Int)

/-- A cycle that moves the values of its items to a notification. -/
def clears (sub : Subscription) (c : Cycle) : Bool :=
  cycleDue sub c && hasQueuedData sub && queuedTotal .changeNotify sub.monitoredItems != 0

namespace Tracked

def trackItems (t : Tracked) : Op → List Sampled
  | .sample s => t.items.mapIdx (fun k item => item.apply (.sample (s k)))
  | .update c =>
      if clears t.sub c then t.items.map (fun item => if collects item.item then item.apply .clear else item)
      else t.items
  | .addItem itemId nodeId p => ⟨newMonitoredItem itemId nodeId p, [], []⟩ :: t.items
  | .removeItem itemId => t.items.eraseP (·.item.itemId == itemId)
  | _ => t.items

/-- The cycles that come once the publishing interval is over, in units of the
clock, since the time 0. -/
def trackCycles (t : Tracked) : Op → List Int
  | .update c => if t.sub.publishingInterval ≤ c.now then c.publishTime :: t.cycles else t.cycles
  | _ => t.cycles

def trackNotifications (t : Tracked) : Op → List (Int × Int)
  | .update c =>
      if cycleDue t.sub c && hasQueuedData t.sub then (c.publishTime, t.sub.publishingInterval) :: t.notifications
      else t.notifications
  | _ => t.notifications

def apply (t : Tracked) (op : Op) : Tracked where
  sub := Op.apply t.sub op
  items := t.trackItems op
  cycles := t.trackCycles op
  notifications := t.trackNotifications op

def start (sub : Subscription) : Tracked := ⟨sub, [], [], []⟩

/-- The values of every item and the notifications are their intervals apart. -/
structure KeepsIntervals (t : Tracked) : Prop where
  items : ∀ item ∈ t.items, item.KeepsInterval
  notifications : Spaced (·.1) (fun n => milliseconds n.2) t.notifications

/-- An item is sampled, or a cycle comes, before the interval since an earlier
sampling or cycle is over, whatever came of that one. -/
def Early (t : Tracked) : Op → Prop
  | .sample s => ∃ x ∈ t.items.zipIdx, x.1.Early (.sample (s x.2))
  | .update c => t.sub.publishingInterval ≤ c.now ∧
      ∃ earlier ∈ t.cycles, c.publishTime < earlier + milliseconds t.sub.publishingInterval
  | _ => False

instance (t : Tracked) : ∀ op, Decidable (t.Early op)
  | .sample _ => inferInstanceAs (Decidable (∃ _ ∈ _, _))
  | .update _ => inferInstanceAs (Decidable (_ ∧ ∃ _ ∈ _, _))
  | .forceKeepAlive _ | .publish _ | .delete _ | .addItem .. | .removeItem _ | .modify _ | .register _ => .isFalse id

/-- What drives the subscription leaves all intervals alone. -/
def InTime : Tracked → List Op → Prop := Throughout apply (fun t op => ¬ t.Early op)

/-- The samplings of an operation read the clock in order. -/
def SamplesInOrder : Op → Prop
  | .sample s => ∀ k, (s k).now ≤ (s k).sampledAt
  | _ => True

/-- The time of the last notification is never kept, so every cycle after the
first interval is due. -/
structure Tracks (t : Tracked) : Prop where
  lastPublished : t.sub.lastPublished = 0
  items : t.items.map (·.item) = t.sub.monitoredItems
  remembers : ∀ item ∈ t.items, item.Remembers
  cycles : ∀ n ∈ t.notifications, n.1 ∈ t.cycles
  held : ∀ n ∈ t.sub.unpublishedNotifications, n.hasData = true →
    n.notification.publishTime ∈ t.notifications.map (·.1)

variable {t : Tracked} {op : Op} {sub : Subscription}

theorem lastPublished_apply (sub : Subscription) (op : Op) : (Op.apply sub op).lastPublished = sub.lastPublished := by
  have hroom : (makeRoom sub).lastPublished = sub.lastPublished := by
    rw [makeRoom]
    split <;> rfl
  cases op with
  | update c =>
      rw [Op.apply, updateNotifications]
      split
      · rfl
      · split
        · exact hroom
        · rw [idleCycle]
          dsimp only
          split
          · rw [generateKeepAlive]
            split <;> exact hroom
          · exact hroom
  | forceKeepAlive publishTime =>
      rw [Op.apply, generateKeepAlive]
      split <;> rfl
  | _ => rfl

theorem monitoredItems_update (sub : Subscription) (c : Cycle) : (updateNotifications sub c).monitoredItems =
    if clears sub c then sub.monitoredItems.map clearCollected else sub.monitoredItems := by
  rw [clears]
  rcases update_cases sub c with ⟨hdue, heq⟩ | ⟨hdue, hdata, heq⟩ | ⟨hdue, hdata, _, hsame⟩ | ⟨hdue, hdata, _, hsame⟩
  · rw [hdue, heq]
    rfl
  · rw [hdue, hdata, heq, dataCycle, monitoredItems_makeRoom]
    by_cases htotal : queuedTotal .changeNotify sub.monitoredItems = 0
    · simp [htotal]
    · simp [htotal]
  · rw [hdue, hdata]
    exact hsame.items.trans (monitoredItems_makeRoom sub)
  · rw [hdue, hdata]
    exact hsame.items.trans (monitoredItems_makeRoom sub)

/-- New in a subscription are keep-alives and the data of a cycle. -/
theorem mem_apply {n : UnpublishedNotification} (h : n ∈ (Op.apply sub op).unpublishedNotifications) :
    (∃ before ∈ sub.unpublishedNotifications, n.notification = before.notification) ∨ n.hasData = false ∨
      ∃ c, op = .update c ∧ (cycleDue sub c && hasQueuedData sub) = true ∧
        n.notification.publishTime = c.publishTime := by
  have hroom : n ∈ (makeRoom sub).unpublishedNotifications → n ∈ sub.unpublishedNotifications := by
    intro hn
    rcases makeRoom_cases sub with heq | ⟨hnil, _⟩
    · exact heq ▸ hn
    · rw [hnil] at hn
      cases hn
  cases op with
  | update c =>
      rw [Op.apply] at h
      rcases update_cases sub c with ⟨_, heq⟩ | ⟨hdue, hdata, heq⟩ | ⟨_, _, _, hsame⟩ | ⟨_, _, _, hsame⟩
      · exact .inl ⟨n, heq ▸ h, rfl⟩
      · rw [heq] at h
        rcases List.mem_cons.mp h with rfl | h
        · exact .inr (.inr ⟨c, rfl, Bool.and_eq_true_iff.mpr ⟨hdue, hdata⟩, rfl⟩)
        · exact .inl ⟨n, hroom h, rfl⟩
      · exact .inl ⟨n, hroom (hsame.notifications ▸ h), rfl⟩
      · rw [hsame.notifications] at h
        rcases List.mem_cons.mp h with rfl | h
        · exact .inr (.inl rfl)
        · exact .inl ⟨n, hroom h, rfl⟩
  | forceKeepAlive publishTime =>
      rw [(sameQueues_forceKeepAlive sub publishTime).notifications] at h
      rcases List.mem_cons.mp h with rfl | h
      · exact .inr (.inl rfl)
      · exact .inl ⟨n, h, rfl⟩
  | publish i => exact .inl (mem_publishNotification h)
  | delete seqNo => exact .inl ⟨n, List.mem_of_mem_filter h, rfl⟩
  | sample | addItem | removeItem | modify | register => exact .inl ⟨n, h, rfl⟩

theorem items_apply (h : t.items.map (·.item) = t.sub.monitoredItems) :
    (t.apply op).items.map (·.item) = (t.apply op).sub.monitoredItems := by
  cases op with
  | sample s =>
      rw [apply, trackItems, Op.apply, sampleItems]
      dsimp only
      rw [← h]
      refine List.ext_getElem? (fun k => ?_)
      rw [List.getElem?_map, List.getElem?_mapIdx, List.getElem?_mapIdx, List.getElem?_map, Option.map_map,
        Option.map_map]
      rfl
  | update c =>
      rw [apply, trackItems, Op.apply]
      dsimp only
      rw [monitoredItems_update, ← h]
      split
      · rw [List.map_map, List.map_map]
        refine List.map_congr_left (fun item _ => ?_)
        rw [Function.comp_apply, Function.comp_apply, clearCollected]
        split <;> rfl
      · rfl
  | forceKeepAlive publishTime => exact h.trans (sameQueues_forceKeepAlive t.sub publishTime).items.symm
  | addItem itemId nodeId p => exact congrArg _ h
  | removeItem itemId =>
      rw [apply, trackItems, Op.apply]
      dsimp only
      rw [← h, List.eraseP_map]
      rfl
  | publish | delete | modify | register => exact h

/-- What holds of a new item and of an item after each of its operations
holds of all items. -/
theorem forall_trackItems {P : Sampled → Prop} (h : ∀ item ∈ t.items, P item)
    (hnew : ∀ itemId nodeId p, P ⟨newMonitoredItem itemId nodeId p, [], []⟩)
    (hclear : ∀ item, P item → P (item.apply .clear))
    (hsample : ∀ s k item, op = .sample s → t.items[k]? = some item → P item → P (item.apply (.sample (s k)))) :
    ∀ item ∈ t.trackItems op, P item := by
  intro item hitem
  cases op with
  | sample s =>
      obtain ⟨k, hk, rfl⟩ := List.mem_mapIdx.mp hitem
      exact hsample s k _ rfl (List.getElem?_eq_getElem hk) (h _ (List.getElem_mem hk))
  | update c =>
      rw [trackItems] at hitem
      split at hitem
      · obtain ⟨before, hbefore, rfl⟩ := List.mem_map.mp hitem
        split
        · exact hclear before (h before hbefore)
        · exact h before hbefore
      · exact h item hitem
  | addItem itemId nodeId p =>
      rcases List.mem_cons.mp hitem with rfl | hitem
      · exact hnew itemId nodeId p
      · exact h item hitem
  | removeItem itemId => exact h item (List.mem_of_mem_eraseP hitem)
  | forceKeepAlive | publish | delete | modify | register => exact h item hitem

theorem remembers_new (itemId : UInt32) (nodeId : NodeIds.NodeId) (p : ItemParameters) :
    Sampled.Remembers ⟨newMonitoredItem itemId nodeId p, [], []⟩ :=
  ⟨List.Subset.refl _, fun _ hearlier => absurd hearlier List.not_mem_nil⟩

theorem Tracks.due_iff (h : Tracks t) (c : Cycle) : cycleDue t.sub c = true ↔ t.sub.publishingInterval ≤ c.now := by
  rw [cycleDue, h.lastPublished, Int.zero_add, decide_eq_true_iff]

theorem Tracks.cycles_apply (h : Tracks t) : ∀ n ∈ t.trackNotifications op, n.1 ∈ t.trackCycles op := by
  intro n hn
  cases op with
  | update c =>
      rw [trackNotifications] at hn
      rw [trackCycles]
      split at hn
      · next hdata =>
        rw [if_pos ((h.due_iff c).mp (Bool.and_eq_true_iff.mp hdata).1)]
        rcases List.mem_cons.mp hn with rfl | hn
        · exact List.mem_cons_self
        · exact List.mem_cons_of_mem _ (h.cycles n hn)
      · split
        · exact List.mem_cons_of_mem _ (h.cycles n hn)
        · exact h.cycles n hn
  | _ => exact h.cycles n hn

theorem mem_trackNotifications {x : Int} (h : x ∈ t.notifications.map (·.1)) :
    x ∈ (t.trackNotifications op).map (·.1) := by
  cases op with
  | update c =>
      rw [trackNotifications]
      split
      · exact List.mem_cons_of_mem _ h
      · exact h
  | _ => exact h

theorem Tracks.held_apply (h : Tracks t) : ∀ n ∈ (Op.apply t.sub op).unpublishedNotifications, n.hasData = true →
    n.notification.publishTime ∈ (t.trackNotifications op).map (·.1) := by
  intro n hn hdata
  rcases mem_apply hn with ⟨before, hbefore, hsame⟩ | hnone | ⟨c, rfl, hcycle, htime⟩
  · rw [UnpublishedNotification.hasData, hsame] at hdata
    rw [hsame]
    exact mem_trackNotifications (h.held before hbefore hdata)
  · rw [hnone] at hdata
    cases hdata
  · rw [trackNotifications, if_pos hcycle, htime]
    exact List.mem_cons_self

theorem Tracks.apply (h : Tracks t) (hclock : SamplesInOrder op) : Tracks (t.apply op) where
  lastPublished := (lastPublished_apply t.sub op).trans h.lastPublished
  items := items_apply h.items
  remembers := by
    refine forall_trackItems h.remembers (fun itemId nodeId p => remembers_new itemId nodeId p)
      (fun item hitem => hitem.apply trivial) ?_
    rintro s k item rfl _ hitem
    have hop : Sampled.ClockAdvances (.sample (s k)) := hclock k
    exact hitem.apply hop
  cycles := h.cycles_apply
  held := h.held_apply

theorem Tracks.items_keepInterval (h : Tracks t) (hclock : SamplesInOrder op) (hinTime : ¬ t.Early op)
    (hkeeps : ∀ item ∈ t.items, item.KeepsInterval) : ∀ item ∈ t.trackItems op, item.KeepsInterval := by
  have hboth : ∀ item ∈ t.trackItems op, item.Remembers ∧ item.KeepsInterval := by
    refine forall_trackItems (fun item hitem => ⟨h.remembers item hitem, hkeeps item hitem⟩)
      (fun itemId nodeId p => ⟨remembers_new itemId nodeId p, List.Pairwise.nil⟩) ?_ ?_
    · rintro item ⟨hremembers, hitem⟩
      exact ⟨hremembers.apply trivial, hremembers.keepsInterval id hitem⟩
    · rintro s k item rfl hk ⟨hremembers, hitem⟩
      have hop : Sampled.ClockAdvances (.sample (s k)) := hclock k
      refine ⟨hremembers.apply hop, hremembers.keepsInterval (fun hearly => hinTime ?_) hitem⟩
      exact ⟨(item, k), List.mk_mem_zipIdx_iff_getElem?.mpr hk, hearly⟩
  exact fun item hitem => (hboth item hitem).2

theorem Tracks.notifications_keepInterval (h : Tracks t) (hinTime : ¬ t.Early op)
    (hspaced : Spaced (·.1) (fun n => milliseconds n.2) t.notifications) :
    Spaced (·.1) (fun n => milliseconds n.2) (t.trackNotifications op) := by
  cases op with
  | update c =>
      rw [trackNotifications]
      split
      · next hdata =>
        have hdue := (h.due_iff c).mp (Bool.and_eq_true_iff.mp hdata).1
        refine List.pairwise_cons.mpr ⟨fun n hn => ?_, hspaced⟩
        by_contra hsoon
        exact hinTime ⟨hdue, n.1, h.cycles n hn, Int.not_le.mp hsoon⟩
      · exact hspaced
  | _ => exact hspaced

theorem tracks_start (hnew : IsNew sub) : Tracks (start sub) := by
  obtain ⟨address, id, guid, publishingEnabled, p, e, rfl⟩ := hnew
  refine ⟨?_, ?_, fun _ hitem => absurd hitem List.not_mem_nil, fun _ hn => absurd hn List.not_mem_nil, ?_⟩
  · rw [start, registerOps]
    split <;> rfl
  · rw [start, registerOps]
    split <;> rfl
  · intro n hn
    rw [start, SequenceNumbers.unpublishedNotifications_new ⟨address, id, guid, publishingEnabled, p, e, rfl⟩] at hn
    cases hn

theorem sub_run (t : Tracked) (ops : List Op) : (run apply t ops).sub = Op.applyAll ops t.sub := by
  induction ops generalizing t with
  | nil => rfl
  | cons op ops ih => exact ih (t.apply op)

end Tracked

end Publications

/-- The intervals are compared with a clock in units of 100 ns, and the time of
the last notification is not kept. So they are kept where the samplings and the
cycles keep them. -/
theorem intervals_kept {sub : Subscription} {ops : List Op} (hnew : IsNew sub)
    (hclock : ∀ op ∈ ops, Tracked.SamplesInOrder op) (hinTime : (Tracked.start sub).InTime ops) :
    let t := run Tracked.apply (Tracked.start sub) ops
    t.sub = Op.applyAll ops sub ∧ t.items.map (·.item) = t.sub.monitoredItems ∧
      (∀ n ∈ t.sub.unpublishedNotifications, n.hasData = true →
        n.notification.publishTime ∈ t.notifications.map (·.1)) ∧
      t.KeepsIntervals := by
  have hrun : Tracked.Tracks (run Tracked.apply (Tracked.start sub) ops) ∧
      (run Tracked.apply (Tracked.start sub) ops).KeepsIntervals := by
    refine run_of_throughout (R := fun t => Tracked.Tracks t ∧ t.KeepsIntervals) ?_ hclock hinTime
      ⟨Tracked.tracks_start hnew, fun _ hitem => absurd hitem List.not_mem_nil, List.Pairwise.nil⟩
    rintro t op hop hlate ⟨htracks, hitems, hnotifications⟩
    exact ⟨htracks.apply hop, htracks.items_keepInterval hop hlate hitems,
      htracks.notifications_keepInterval hlate hnotifications⟩
  exact ⟨Tracked.sub_run _ _, hrun.1.items, hrun.1.held, hrun.2⟩

section Example

open NodeIds Publishing SubscriptionJobs

def slowItem : ItemParameters := { sampleItem with samplingInterval := 0x408F400000000000 }

/-- It gets no timer. -/
def fastSubscription : Subscription :=
  newSubscription 1 7 (sampleGuid 1) true { sampleParameters with publishingInterval := 0x4014000000000000 }

theorem isNew_fastSubscription : IsNew fastSubscription :=
  ⟨1, 7, sampleGuid 1, true, { sampleParameters with publishingInterval := 0x4014000000000000 }, ⟨0, sampleGuid 1⟩,
    rfl⟩

/-- What a Publish request does to a subscription without a timer, while the
number in the variable is `x`. -/
def requested (x : UInt32) (now : Int) : List Op := forcedOps (showing x now) 0 fastSubscription

theorem samplesInOrder_requested (x : UInt32) (now : Int) : ∀ op ∈ requested x now, Tracked.SamplesInOrder op := by
  intro op hop
  rw [requested, forcedOps, if_neg (by decide)] at hop
  simp only [List.mem_cons, List.not_mem_nil, or_false] at hop
  rcases hop with rfl | rfl
  · exact fun _ => Int.le_refl _
  · trivial

/-- Requests a millisecond apart. -/
def fastRequests : List Op :=
  .addItem 8 (numericId 1 1) slowItem :: (requested 1 5000000 ++ requested 2 5010000)

theorem intervals_not_kept :
    IsNew fastSubscription ∧ (∀ op ∈ fastRequests, Tracked.SamplesInOrder op) ∧
      (∃ item ∈ (run Tracked.apply (Tracked.start fastSubscription) fastRequests).items, ¬ item.KeepsInterval) ∧
      ¬ Spaced (·.1) (fun n => milliseconds n.2)
        (run Tracked.apply (Tracked.start fastSubscription) fastRequests).notifications := by
  refine ⟨isNew_fastSubscription, ?_, ?_, ?_⟩
  · intro op hop
    rcases List.mem_cons.mp hop with rfl | hop
    · trivial
    · rcases List.mem_append.mp hop with hop | hop
      · exact samplesInOrder_requested 1 5000000 op hop
      · exact samplesInOrder_requested 2 5010000 op hop
  · decide +kernel
  · decide +kernel

/-- Requests a second apart. -/
def slowRequests : List Op :=
  .addItem 8 (numericId 1 1) slowItem :: (requested 1 5000000 ++ (requested 2 15000000 ++ requested 3 25000000))

theorem intervals_kept_slow :
    let t := run Tracked.apply (Tracked.start fastSubscription) slowRequests
    t.notifications = [(25000000, 5), (15000000, 5), (5000000, 5)] ∧
      t.items.map (·.queued) = [[25000000, 15000000, 5000000]] ∧ t.KeepsIntervals := by
  have hclock : ∀ op ∈ slowRequests, Tracked.SamplesInOrder op := by
    intro op hop
    rcases List.mem_cons.mp hop with rfl | hop
    · trivial
    · rcases List.mem_append.mp hop with hop | hop
      · exact samplesInOrder_requested 1 5000000 op hop
      · rcases List.mem_append.mp hop with hop | hop
        · exact samplesInOrder_requested 2 15000000 op hop
        · exact samplesInOrder_requested 3 25000000 op hop
  have hinTime : (Tracked.start fastSubscription).InTime slowRequests := by
    unfold Tracked.InTime
    decide +kernel
  exact ⟨by decide +kernel, by decide +kernel, (intervals_kept isNew_fastSubscription hclock hinTime).2.2.2⟩

end Example

end OpcUa.IntervalChecks
