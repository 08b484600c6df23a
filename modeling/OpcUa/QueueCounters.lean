import OpcUa.PublicationOrder
import OpcUa.ValueDecoding

namespace OpcUa.QueueCounters

open MonitoredItems Subscriptions SubscriptionServices SubscriptionRuns SubscriptionJobs Publishing SequenceNumbers
open PublicationOrder AttributeReads
open ValueDecoding (maxArraySize)
open Timers (dueJobs)

section Items

variable {item : MonitoredItem}

/-- The counter of the queue is its length and within the bound. Everything
in the queue has a type. -/
structure Consistent (item : MonitoredItem) : Prop where
  kind : item.monitoredItemType = .changeNotify
  current : item.queueSize.currentValue.toNat = item.queue.length
  within : item.queueSize.currentValue ≤ item.queueSize.maxValue
  room : 0 < item.queueSize.maxValue
  typed : ∀ v ∈ item.queue, typeOf v.value ≠ none

theorem Consistent.dropOldest (h : Consistent item) : Consistent (dropOldest item) ∧
    (dropOldest item).queueSize.currentValue < (dropOldest item).queueSize.maxValue := by
  rw [MonitoredItems.dropOldest]
  by_cases hfull : item.queueSize.currentValue ≥ item.queueSize.maxValue
  · rw [if_pos hfull]
    have hpos : 0 < item.queueSize.currentValue.toNat :=
      Nat.lt_of_lt_of_le (UInt32.lt_iff_toNat_lt.mp h.room) (UInt32.le_iff_toNat_le.mp hfull)
    have hsub : (item.queueSize.currentValue - 1).toNat = item.queueSize.currentValue.toNat - 1 :=
      UInt32.toNat_sub_of_le _ _ (UInt32.le_iff_toNat_le.mpr hpos)
    have hwithin := UInt32.le_iff_toNat_le.mp h.within
    refine ⟨⟨h.kind, ?_, ?_, h.room, fun v hv => h.typed v (List.mem_of_mem_dropLast hv)⟩, ?_⟩
    · dsimp only
      rw [hsub, List.length_dropLast, h.current]
    · rw [UInt32.le_iff_toNat_le, hsub]
      dsimp only
      omega
    · rw [UInt32.lt_iff_toNat_lt, hsub]
      dsimp only
      omega
  · rw [if_neg hfull]
    exact ⟨h, UInt32.not_le.mp hfull⟩

theorem Consistent.insertValue (h : Consistent item) (hroom : item.queueSize.currentValue < item.queueSize.maxValue)
    {v : DataValue} (hv : typeOf v.value ≠ none) (sampledAt : Int) (encoding : Option (List UInt8)) :
    Consistent (insertValue item sampledAt encoding v) := by
  have hlt := UInt32.lt_iff_toNat_lt.mp hroom
  have hmax := item.queueSize.maxValue.toNat_lt
  have hadd : (item.queueSize.currentValue + 1).toNat = item.queueSize.currentValue.toNat + 1 := by
    have hone : (1 : UInt32).toNat = 1 := rfl
    rw [UInt32.toNat_add, hone]
    omega
  refine ⟨h.kind, ?_, ?_, h.room, ?_⟩
  · rw [MonitoredItems.insertValue]
    dsimp only
    rw [hadd, h.current, List.length_cons]
  · rw [MonitoredItems.insertValue, UInt32.le_iff_toNat_le]
    dsimp only
    rw [hadd]
    exact hlt
  · intro w hw
    rcases List.mem_cons.mp hw with rfl | hw
    · exact hv
    · exact h.typed w hw

theorem Consistent.queuePush (h : Consistent item) (s : Sampling) : Consistent (queuePushDataValue s item) := by
  obtain ⟨hdropped, hroom⟩ := h.dropOldest
  rcases queuePush_cases s item with heq | ⟨v, hv, _, heq | heq⟩
  · rw [heq]
    exact h
  · rw [heq]
    exact hdropped
  · rw [heq]
    exact hdropped.insertValue hroom hv s.sampledAt (encodeSample s.buffer v)

theorem Consistent.clear (h : Consistent item) : Consistent (clearCollected item) := by
  rw [clearCollected]
  split
  · exact ⟨h.kind, rfl, UInt32.le_iff_toNat_le.mpr (Nat.zero_le _), h.room, fun _ hv => absurd hv List.not_mem_nil⟩
  · exact h

theorem consistent_new (itemId : UInt32) (nodeId : NodeIds.NodeId) (p : ItemParameters) :
    Consistent (newMonitoredItem itemId nodeId p) := by
  have hbound : (bounded 0 100 p.queueSize).toNat ≤ 100 := by
    rw [bounded]
    split
    · exact Nat.le_refl 100
    · next hle =>
      split
      · exact Nat.zero_le 100
      · exact UInt32.le_iff_toNat_le.mp (UInt32.not_lt.mp hle)
  have hpos : 0 < bounded 0 100 p.queueSize + 1 := by
    have hone : (1 : UInt32).toNat = 1 := rfl
    have hzero : (0 : UInt32).toNat = 0 := rfl
    rw [UInt32.lt_iff_toNat_lt, UInt32.toNat_add, hone, hzero]
    omega
  exact ⟨rfl, rfl, UInt32.le_iff_toNat_le.mpr (Nat.zero_le _), hpos, fun _ hv => absurd hv List.not_mem_nil⟩

end Items

section Subscriptions

variable {sub sub' : Subscription}

/-- The counters of a subscription and of its items. -/
structure Counted (sub : Subscription) : Prop where
  size : sub.unpublishedNotificationsSize = sub.unpublishedNotifications.length
  items : ∀ item ∈ sub.monitoredItems, Consistent item

theorem counted_of_same (h : SameQueues sub sub') (hc : Counted sub') : Counted sub where
  size := by
    rw [h.size, h.notifications]
    exact hc.size
  items := by
    rw [h.items]
    exact hc.items

theorem Counted.makeRoom (h : Counted sub) : Counted (makeRoom sub) where
  size := by
    rcases makeRoom_cases sub with heq | ⟨hnil, hsize⟩
    · rw [heq]
      exact h.size
    · rw [hnil, hsize, h.size, Nat.sub_self]
      rfl
  items := by
    rw [monitoredItems_makeRoom]
    exact h.items

theorem Counted.insert (h : Counted sub) (n : UnpublishedNotification) : Counted (insertNotification sub n) where
  size := congrArg (· + 1) h.size
  items := h.items

theorem Counted.dataCycle (h : Counted sub) (c : Cycle) : Counted (dataCycle sub c) where
  size := (h.insert (dataMessage sub c)).size
  items := by
    intro item hitem
    rw [Subscriptions.dataCycle] at hitem
    dsimp only at hitem
    split at hitem
    · exact h.items item hitem
    · obtain ⟨before, hbefore, rfl⟩ := List.mem_map.mp hitem
      exact (h.items before hbefore).clear

theorem counted_apply (op : Op) (h : Counted sub) : Counted (Op.apply sub op) := by
  cases op with
  | sample s =>
      refine ⟨h.size, fun item hitem => ?_⟩
      obtain ⟨k, hk⟩ := List.mem_iff_getElem?.mp hitem
      obtain ⟨before, hbefore, rfl⟩ := Option.map_eq_some_iff.mp (List.getElem?_mapIdx ▸ hk)
      exact (h.items before (List.mem_of_getElem? hbefore)).queuePush (s k)
  | update c =>
      rcases update_cases sub c with ⟨_, heq⟩ | ⟨_, _, heq⟩ | ⟨_, _, _, hsame⟩ | ⟨_, _, _, hsame⟩
      · rw [Op.apply, heq]
        exact h
      · rw [Op.apply, heq]
        exact h.makeRoom.dataCycle c
      · exact counted_of_same hsame h.makeRoom
      · exact counted_of_same hsame (h.makeRoom.insert _)
  | forceKeepAlive publishTime => exact counted_of_same (sameQueues_forceKeepAlive sub publishTime) (h.insert _)
  | publish i =>
      refine ⟨?_, h.items⟩
      rw [Op.apply, publishNotification]
      dsimp only
      rw [List.length_modify]
      exact h.size
  | delete seqNo =>
      refine ⟨?_, h.items⟩
      rw [Op.apply, deleteUnpublishedNotification]
      dsimp only
      rw [h.size, List.length_eq_countP_add_countP (deletes seqNo false), ← List.countP_eq_length_filter]
      simp only [Bool.not_eq_true, Bool.decide_eq_false]
      omega
  | addItem itemId nodeId p =>
      refine ⟨h.size, fun item hitem => ?_⟩
      rcases List.mem_cons.mp hitem with rfl | hitem
      · exact consistent_new itemId nodeId p
      · exact h.items item hitem
  | removeItem itemId => exact ⟨h.size, fun item hitem => h.items item (List.mem_of_mem_eraseP hitem)⟩
  | modify | register => exact ⟨h.size, h.items⟩

theorem counted_new (h : IsNew sub) : Counted sub := by
  obtain ⟨address, id, guid, publishingEnabled, p, e, rfl⟩ := h
  rw [registerOps]
  split
  · exact ⟨rfl, fun _ hitem => absurd hitem List.not_mem_nil⟩
  · exact ⟨rfl, fun _ hitem => absurd hitem List.not_mem_nil⟩

end Subscriptions

section Arrays

variable {sub : Subscription} {items : List MonitoredItem}

def monitoredItemNotification : DataTypes.DataType :=
  TypeTable.struct 806 [TypeTable.one TypeTable.uint32, TypeTable.one TypeTable.dataValue]

/-- The array that `UA_Array_new` returns for the notifications. The result
is NULL if the array would be too large. -/
def arrayLength (size : Nat) : Nat :=
  if size > maxArraySize ∨ monitoredItemNotification.memSize * size > maxArraySize then 0 else size

/-- The places that `MonitoredItem_QueueToDataChangeNotifications` writes to.
After a value without a type the place is used again. -/
def queueWrites : Nat → List DataValue → List Nat
  | _, [] => []
  | place, v :: rest => place :: queueWrites (if (typeOf v.value).isSome then place + 1 else place) rest

/-- The places that `Subscription_updateNotifications` has written. -/
def changeWrites : Nat → List MonitoredItem → List Nat
  | _, [] => []
  | place, item :: rest =>
      if collects item then
        queueWrites place item.queue ++
          changeWrites (place + (queueToDataChangeNotifications (fun _ => 0) item).length) rest
      else changeWrites place rest

/-- The places that `Subscription_getAvailableSequenceNumbers` writes to. The
array has a place for everything that is counted. -/
def numberWrites (sub : Subscription) : List Nat := List.range sub.unpublishedNotifications.length

def NumbersFit (sub : Subscription) : Prop := ∀ place ∈ numberWrites sub, place < sub.unpublishedNotificationsSize

def ChangesFit (sub : Subscription) : Prop :=
  ∀ place ∈ changeWrites 0 sub.monitoredItems,
    place < arrayLength (queuedTotal .changeNotify sub.monitoredItems).toNat

def WritesFit (sub : Subscription) : Op → Prop
  | .update c => cycleDue sub c = true → queuedTotal .changeNotify sub.monitoredItems ≠ 0 → ChangesFit sub
  | .publish i => NumbersFit (publishNotification sub i)
  | _ => True

def queuedValues (items : List MonitoredItem) : Nat := (items.map (·.queue.length)).sum

theorem queueWrites_typed {queue : List DataValue} (h : ∀ v ∈ queue, typeOf v.value ≠ none) (place : Nat) :
    queueWrites place queue = List.range' place queue.length := by
  induction queue generalizing place with
  | nil => rfl
  | cons v rest ih =>
      have hv : (typeOf v.value).isSome = true := Option.isSome_iff_ne_none.mpr (h v List.mem_cons_self)
      rw [queueWrites, if_pos hv, ih (fun w hw => h w (List.mem_cons_of_mem v hw)), List.length_cons, List.range'_succ]

theorem length_queueToDataChangeNotifications {item : MonitoredItem} (h : ∀ v ∈ item.queue, typeOf v.value ≠ none)
    (now : Nat → UInt64) : (queueToDataChangeNotifications now item).length = item.queue.length := by
  rw [queueToDataChangeNotifications, List.filter_eq_self.mpr, List.length_mapIdx]
  intro n hn
  obtain ⟨k, hk⟩ := List.mem_iff_getElem?.mp hn
  obtain ⟨v, hv, rfl⟩ := Option.map_eq_some_iff.mp (List.getElem?_mapIdx ▸ hk)
  exact Option.isSome_iff_ne_none.mpr (h v (List.mem_of_getElem? hv))

theorem queue_nil_of_not_collects {item : MonitoredItem} (h : Consistent item) (hnot : ¬ collects item = true) :
    item.queue = [] := by
  simpa [collects, h.kind] using hnot

theorem changeWrites_eq (h : ∀ item ∈ items, Consistent item) (place : Nat) :
    changeWrites place items = List.range' place (queuedValues items) := by
  induction items generalizing place with
  | nil => rfl
  | cons item rest ih =>
      have hitem := h item List.mem_cons_self
      have hrest := ih (fun x hx => h x (List.mem_cons_of_mem item hx))
      rw [changeWrites, queuedValues, List.map_cons, List.sum_cons]
      by_cases hcollects : collects item = true
      · rw [if_pos hcollects, queueWrites_typed hitem.typed, length_queueToDataChangeNotifications hitem.typed, hrest,
          List.range'_append_1]
        rfl
      · rw [if_neg hcollects, hrest, queue_nil_of_not_collects hitem hcollects, List.length_nil, Nat.zero_add]
        rfl

/-- The total that is computed first is the number of the values, as far as
it fits. -/
theorem toNat_queuedTotal (h : ∀ item ∈ items, Consistent item) :
    (queuedTotal .changeNotify items).toNat = queuedValues items % 4294967296 := by
  induction items with
  | nil => rfl
  | cons item rest ih =>
      have hitem := h item List.mem_cons_self
      have hrest := ih (fun x hx => h x (List.mem_cons_of_mem item hx))
      rw [queuedValues, List.map_cons, List.sum_cons]
      by_cases hcollects : collects item = true
      · have hkept : (!item.queue.isEmpty && item.monitoredItemType == .changeNotify) = true := by
          rw [Bool.and_comm]
          exact hcollects
        have hstep : queuedTotal .changeNotify (item :: rest) =
            item.queueSize.currentValue + queuedTotal .changeNotify rest := by
          simp only [queuedTotal, List.filter_cons, hkept, if_true, List.map_cons, List.sum_cons]
        rw [hstep, UInt32.toNat_add, hrest, hitem.current]
        exact Nat.add_mod_mod _ _ _
      · have hkept : ¬ (!item.queue.isEmpty && item.monitoredItemType == .changeNotify) = true := by
          rw [Bool.and_comm]
          exact hcollects
        have hstep : queuedTotal .changeNotify (item :: rest) = queuedTotal .changeNotify rest := by
          simp only [queuedTotal, List.filter_cons, hkept, Bool.false_eq_true, if_false]
        rw [hstep, hrest, queue_nil_of_not_collects hitem hcollects, List.length_nil, Nat.zero_add]
        rfl

/-- The array for the values can be allocated, or the total is zero as a
`UA_UInt32`. -/
def Fits (values : Nat) : Prop :=
  values % 4294967296 = 0 ∨ monitoredItemNotification.memSize * values ≤ maxArraySize

def FewValues (sub : Subscription) : Op → Prop
  | .update c => cycleDue sub c = true → Fits (queuedValues sub.monitoredItems)
  | _ => True

theorem range_fits_iff (values length : Nat) : (∀ place ∈ List.range' 0 values, place < length) ↔ values ≤ length := by
  simp only [List.mem_range'_1, Nat.zero_le, true_and, Nat.zero_add]
  constructor
  · intro h
    by_contra hlt
    exact absurd (h length (Nat.not_le.mp hlt)) (Nat.lt_irrefl length)
  · exact fun h place hplace => Nat.lt_of_lt_of_le hplace h

theorem changesFit_iff (h : Counted sub) (hsome : queuedTotal .changeNotify sub.monitoredItems ≠ 0) :
    ChangesFit sub ↔ Fits (queuedValues sub.monitoredItems) := by
  have htotal := toNat_queuedTotal h.items
  have hne : queuedValues sub.monitoredItems % 4294967296 ≠ 0 := by
    rw [← htotal]
    exact fun hzero => hsome (UInt32.toNat_inj.mp hzero)
  have hsize : monitoredItemNotification.memSize = 104 := by decide +kernel
  rw [ChangesFit, changeWrites_eq h.items, range_fits_iff, htotal, Fits, arrayLength, hsize, maxArraySize]
  generalize queuedValues sub.monitoredItems = values at hne ⊢
  split <;> omega

theorem numbersFit (h : Counted sub) : NumbersFit sub := by
  intro place hplace
  rw [h.size]
  exact List.mem_range.mp hplace

theorem writesFit_iff (h : Counted sub) (op : Op) : WritesFit sub op ↔ FewValues sub op := by
  cases op with
  | update c =>
      refine forall_congr' (fun _ => ?_)
      by_cases hzero : queuedTotal .changeNotify sub.monitoredItems = 0
      · have hvalues : queuedValues sub.monitoredItems % 4294967296 = 0 := by
          rw [← toNat_queuedTotal h.items, hzero]
          rfl
        exact ⟨fun _ => .inl hvalues, fun _ hne => absurd hzero hne⟩
      · exact ⟨fun hfit => (changesFit_iff h hzero).mp (hfit hzero), fun hfits _ => (changesFit_iff h hzero).mpr hfits⟩
  | publish i => exact ⟨fun _ => trivial, fun _ => numbersFit (counted_apply (.publish i) h)⟩
  | sample | forceKeepAlive | delete | addItem | removeItem | modify | register => exact Iff.rfl

end Arrays

section Runs

variable {s : State} {events reached : List Event}

theorem counted_run (hinitial : Initial s) (events : List Event) :
    ∀ sub ∈ (run s events).subscriptions, Counted sub := by
  have hnone : ∀ sub ∈ s.subscriptions, Counted sub := by
    intro sub hsub
    rw [hinitial.subscriptions] at hsub
    cases hsub
  have htrue : MeetsAll (CallsMeet (fun _ _ => True)) s events := by
    clear hinitial hnone
    induction events generalizing s with
    | nil => trivial
    | cons event events ih => exact ⟨fun _ _ => trivial, ih⟩
  exact run_subscriptions (fun _ h => counted_new h) (fun _ op _ h => counted_apply op h) htrue hnone

/-- In every state that is reached the counters are right, and no step writes
behind the end of an array. -/
structure Kept (s : State) (events : List Event) : Prop where
  counted : ∀ reached, reached <+: events → ∀ sub ∈ (run s reached).subscriptions, Counted sub
  fits : MeetsAll (CallsMeet WritesFit) s events

theorem meets_iff (hsubs : ∀ sub ∈ s.subscriptions, Counted sub) :
    MeetsAll (CallsMeet WritesFit) s events ↔ MeetsAll (CallsMeet FewValues) s events := by
  induction events generalizing s with
  | nil => exact Iff.rfl
  | cons event events ih =>
      have hcalls := stepCalls_invariant (fun _ op h => counted_apply op h) hsubs event
      have hfirst : CallsMeet WritesFit s event ↔ CallsMeet FewValues s event :=
        forall_congr' (fun call => forall_congr' (fun hcall => writesFit_iff (hcalls call hcall) call.2))
      have hnext : ∀ sub ∈ (step s event).subscriptions, Counted sub :=
        step_subscriptions (C := fun _ _ => True) (fun _ h => counted_new h) (fun _ op _ h => counted_apply op h)
          (fun _ _ => trivial) hsubs
      exact and_congr hfirst (ih hnext)

theorem counters_kept_iff (hinitial : Initial s) (events : List Event) :
    Kept s events ↔ MeetsAll (CallsMeet FewValues) s events := by
  have hnone : ∀ sub ∈ s.subscriptions, Counted sub := counted_run hinitial []
  constructor
  · exact fun h => (meets_iff hnone).mp h.fits
  · exact fun h => ⟨fun reached _ => counted_run hinitial reached, (meets_iff hnone).mpr h⟩

end Runs

section Example

/-- The subscription of `sampleCreation`. -/
def createdSample : Subscription where
  address := 1
  lifeTime := ⟨100, 0, 15000⟩
  keepAliveCount := ⟨10, 0, 100⟩
  publishingInterval := 500
  lastPublished := 0
  subscriptionID := 7
  notificationsPerPublish := 0
  publishingMode := true
  priority := 0
  sequenceNumber := 1
  timedUpdateJobGuid := sampleGuid 1
  timedUpdateIsRegistered := true
  unpublishedNotifications := []
  unpublishedNotificationsSize := 0
  monitoredItems := []

def crowdedWith (items : List MonitoredItem) : Subscription := { createdSample with monitoredItems := items }

def crowded (last : UInt32) (items : List MonitoredItem) : State where
  sessions := [⟨0, ⟨last, sampleGuid 0, [crowdedWith items]⟩⟩]
  repeatedJobs := [⟨5000000, 5000000, [⟨sampleGuid 1, .timedUpdateNotifications 1⟩]⟩]

def oneMore : Event := .createMonitoredItems 0 (numberSpace 1) 7 [(NodeIds.numericId 1 1, sampleItem)]

def collection : Event := .tick 5000000 (showing 1 5000000)

theorem run_sampleCreation : run emptyState sampleCreation = crowded 7 [] := rfl

theorem step_oneMore (last : UInt32) (items : List MonitoredItem) : step (crowded last items) oneMore =
    crowded (last + 1) (newMonitoredItem (last + 1) (NodeIds.numericId 1 1) sampleItem :: items) := rfl

theorem run_oneMore (count : Nat) : ∃ last items, run emptyState (sampleCreation ++ List.replicate count oneMore) =
    crowded last items ∧ items.length = count ∧
      ∀ item ∈ items, ∃ id, item = newMonitoredItem id (NodeIds.numericId 1 1) sampleItem := by
  induction count with
  | zero =>
      refine ⟨7, [], ?_, rfl, fun _ h => absurd h List.not_mem_nil⟩
      rw [List.replicate_zero, List.append_nil, run_sampleCreation]
  | succ count ih =>
      obtain ⟨last, items, hrun, hlength, hitems⟩ := ih
      refine ⟨last + 1, newMonitoredItem (last + 1) (NodeIds.numericId 1 1) sampleItem :: items, ?_, ?_, ?_⟩
      · rw [List.replicate_succ', ← List.append_assoc, run, List.foldl_append]
        change step (run emptyState (sampleCreation ++ List.replicate count oneMore)) oneMore = _
        rw [hrun, step_oneMore]
      · rw [List.length_cons, hlength]
      · intro item hitem
        rcases List.mem_cons.mp hitem with rfl | hitem
        · exact ⟨last + 1, rfl⟩
        · exact hitems item hitem

theorem length_first_sample (id : UInt32) (k : Nat) :
    (queuePushDataValue ((showing 1 5000000).sampling 0 k)
      (newMonitoredItem id (NodeIds.numericId 1 1) sampleItem)).queue.length = 1 := by rfl

theorem queuedValues_first_samples {items : List MonitoredItem}
    (h : ∀ item ∈ items, ∃ id, item = newMonitoredItem id (NodeIds.numericId 1 1) sampleItem) :
    queuedValues (sampleItems (crowdedWith items) ((showing 1 5000000).sampling 0)).monitoredItems = items.length := by
  have hone : ∀ n ∈ (items.mapIdx (fun k item => queuePushDataValue ((showing 1 5000000).sampling 0 k) item)).map
      (·.queue.length), n = 1 := by
    intro n hn
    obtain ⟨item, hitem, rfl⟩ := List.mem_map.mp hn
    obtain ⟨k, hk⟩ := List.mem_iff_getElem?.mp hitem
    obtain ⟨before, hbefore, rfl⟩ := Option.map_eq_some_iff.mp (List.getElem?_mapIdx ▸ hk)
    obtain ⟨id, rfl⟩ := h before (List.mem_of_getElem? hbefore)
    exact length_first_sample id k
  rw [sampleItems, queuedValues, crowdedWith, List.eq_replicate_of_mem hone, List.sum_replicate, List.length_map,
    List.length_mapIdx, Nat.nsmul_eq_mul, Nat.mul_one]

theorem mem_collection (last : UInt32) (items : List MonitoredItem) :
    (sampleItems (crowdedWith items) ((showing 1 5000000).sampling 0), Op.update ((showing 1 5000000).cycle 0)) ∈
      stepCalls (crowded last items) collection := by
  have hdue : dueJobs 5000000 (crowded last items).repeatedJobs =
      [⟨sampleGuid 1, .timedUpdateNotifications 1⟩] := rfl
  rw [collection, stepCalls, hdue]
  exact .inl ⟨crowdedWith items, List.mem_singleton_self _, rfl, List.mem_cons_of_mem _ (List.mem_singleton_self _)⟩

/-- Two items, with a value for each of them in two cycles. -/
def collectedRun : List Event := sampleCreation ++ [oneMore, oneMore, collection, .tick 10000000 (showing 2 10000000)]

theorem fewValues_tick {s : State} {now : Int} {e : Surroundings} {guid : NodeIds.Guid} {address : Nat}
    (hdue : dueJobs now s.repeatedJobs = [⟨guid, .timedUpdateNotifications address⟩])
    (hfew : ∀ sub ∈ s.subscriptions, monitoredItemNotification.memSize *
      queuedValues (Op.apply sub (.sample (e.sampling 0))).monitoredItems ≤ maxArraySize) :
    CallsMeet FewValues s (.tick now e) :=
  callsMeet_tick hdue (fun sub hsub => ⟨trivial, fun _ => .inr (hfew sub hsub)⟩)

theorem counters_kept_collected : Kept emptyState collectedRun ∧
    (run emptyState collectedRun).subscriptions.map (·.unpublishedNotificationsSize) = [2] := by
  let s₁ := run emptyState (sampleCreation ++ [oneMore, oneMore])
  have hcreate : ∀ s, CallsMeet FewValues s oneMore := fun s => callsMeet_createItem (fun _ _ => trivial)
  let s₂ := step s₁ collection
  have hdue₁ : dueJobs 5000000 s₁.repeatedJobs = [⟨sampleGuid 1, .timedUpdateNotifications 1⟩] := by decide +kernel
  have hdue₂ : dueJobs 10000000 s₂.repeatedJobs = [⟨sampleGuid 1, .timedUpdateNotifications 1⟩] := by
    decide +kernel
  have hfirst : CallsMeet FewValues s₁ collection := fewValues_tick hdue₁ (by decide +kernel)
  have hsecond : CallsMeet FewValues s₂ (.tick 10000000 (showing 2 10000000)) :=
    fewValues_tick hdue₂ (by decide +kernel)
  refine ⟨(counters_kept_iff initial_emptyState _).mpr ?_, by decide +kernel⟩
  exact ⟨fun _ h => absurd h (Set.notMem_empty _), fun _ h => absurd h (Set.notMem_empty _), hcreate _, hcreate _,
    hfirst, hsecond, trivial⟩

theorem MeetsAll.append_right {C : State → Event → Prop} {s : State} {front back : List Event}
    (h : MeetsAll C s (front ++ back)) : MeetsAll C (run s front) back := by
  induction front generalizing s with
  | nil => exact h
  | cons event front ih => exact ih h.2

/-- The array for more than a million values is not allocated, and it is
written to nevertheless. -/
theorem changes_written_past_array :
    Initial emptyState ∧ ¬ Kept emptyState (sampleCreation ++ List.replicate 1008247 oneMore ++ [collection]) := by
  refine ⟨initial_emptyState, fun h => ?_⟩
  obtain ⟨last, items, hrun, hlength, hitems⟩ := run_oneMore 1008247
  have hcounted := counted_run initial_emptyState (sampleCreation ++ List.replicate 1008247 oneMore)
  have hmeets := (MeetsAll.append_right h.fits).1
  rw [hrun] at hmeets hcounted
  have hcall := mem_collection last items
  have hsampled := stepCalls_invariant (fun _ op h => counted_apply op h) hcounted collection _ hcall
  have hfew := (writesFit_iff hsampled _).mp (hmeets _ hcall) rfl
  rw [queuedValues_first_samples hitems, hlength] at hfew
  rcases hfew with hzero | hfew
  · exact absurd hzero (by decide +kernel)
  · exact absurd hfew (by decide +kernel)

end Example

end OpcUa.QueueCounters
