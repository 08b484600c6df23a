import OpcUa.MonitoredItems

namespace OpcUa.Subscriptions

open StatusCodes NodeIds MonitoredItems
open Sessions (doubleWithin truncateDouble)

/-- `UA_NotificationMessage`. The notification data is empty or has a data
change notification as its only element. -/
structure NotificationMessage where
  sequenceNumber : UInt32
  publishTime : Int
  notificationData : List (List MonitoredItemNotification)

def NotificationMessage.init : NotificationMessage := ⟨0, 0, []⟩

structure UnpublishedNotification where
  publishedOnce : Bool
  notification : NotificationMessage

namespace UnpublishedNotification

def number (n : UnpublishedNotification) : UInt32 := n.notification.sequenceNumber

def hasData (n : UnpublishedNotification) : Bool := !n.notification.notificationData.isEmpty

end UnpublishedNotification

/-- `UA_Subscription`, with the address that was allocated for it. The lists
start with what was inserted last. The update job is the callback with the
address as its data. -/
structure Subscription where
  address : Nat
  lifeTime : BoundedValue UInt32
  keepAliveCount : BoundedValue Int
  publishingInterval : Int
  lastPublished : Int
  subscriptionID : UInt32
  notificationsPerPublish : UInt32
  publishingMode : Bool
  priority : UInt32
  sequenceNumber : UInt32
  timedUpdateJobGuid : Guid
  timedUpdateIsRegistered : Bool
  unpublishedNotifications : List UnpublishedNotification
  unpublishedNotificationsSize : Nat
  monitoredItems : List MonitoredItem

/-- The clock in a publishing cycle. The last one is for the values, by the
item and by the place in its queue. -/
structure Cycle where
  now : Int
  publishTime : Int
  valueTime : Nat → Nat → UInt64

section Operations

variable (sub : Subscription)

/-- `LIST_INSERT_HEAD`, with the counter. -/
def insertNotification (n : UnpublishedNotification) : Subscription :=
  { sub with
    unpublishedNotifications := n :: sub.unpublishedNotifications
    unpublishedNotificationsSize := sub.unpublishedNotificationsSize + 1 }

/-- A keep-alive has the number after the next one, and does not use it up. -/
def keepAlive (publishTime : Int) : UnpublishedNotification :=
  ⟨false, ⟨sub.sequenceNumber + 1, publishTime, []⟩⟩

def generateKeepAlive (publishTime : Int) : Subscription :=
  if sub.keepAliveCount.currentValue > sub.keepAliveCount.minValue ∧
      sub.keepAliveCount.currentValue ≤ sub.keepAliveCount.maxValue then sub
  else
    { insertNotification sub (keepAlive sub publishTime) with
      keepAliveCount := { sub.keepAliveCount with currentValue := sub.keepAliveCount.maxValue } }

/-- The notifications that `Subscription_deleteUnpublishedNotification` deletes. -/
def deletes (seqNo : UInt32) (deleteAll : Bool) (n : UnpublishedNotification) : Bool := deleteAll || n.number == seqNo

/-- `Subscription_deleteUnpublishedNotification`: how many are deleted, and
what is left. -/
def deleteUnpublishedNotification (seqNo : UInt32) (deleteAll : Bool) : Nat × Subscription :=
  let deletedItems := sub.unpublishedNotifications.countP (deletes seqNo deleteAll)
  (deletedItems,
    { sub with
      unpublishedNotifications := sub.unpublishedNotifications.filter (fun n => !deletes seqNo deleteAll n)
      unpublishedNotificationsSize := sub.unpublishedNotificationsSize - deletedItems })

/-- How much data of a kind is held in the queues, as a `UA_UInt32`. -/
def queuedTotal (type : MonitoredItemType) (items : List MonitoredItem) : UInt32 :=
  ((items.filter (fun item => !item.queue.isEmpty && item.monitoredItemType == type)).map
    (·.queueSize.currentValue)).sum

/-- Items of another kind or with an empty queue are passed over. -/
def collects (item : MonitoredItem) : Bool := item.monitoredItemType == .changeNotify && !item.queue.isEmpty

def collect (valueTime : Nat → Nat → UInt64) (items : List MonitoredItem) : List MonitoredItemNotification :=
  (items.mapIdx (fun k item => if collects item then queueToDataChangeNotifications (valueTime k) item else [])).flatten

def clearCollected (item : MonitoredItem) : MonitoredItem := if collects item then clearQueue item else item

def makeRoom : Subscription :=
  if sub.unpublishedNotificationsSize ≥ 10 then (deleteUnpublishedNotification sub 0 true).2 else sub

def idleCycle (publishTime : Int) : Subscription :=
  let sub' := { sub with
    keepAliveCount := { sub.keepAliveCount with currentValue := sub.keepAliveCount.currentValue - 1 } }
  if sub'.keepAliveCount.currentValue < sub'.keepAliveCount.minValue then generateKeepAlive sub' publishTime else sub'

/-- The next message, with the data changes if there are any. -/
def dataMessage (c : Cycle) : UnpublishedNotification :=
  ⟨false, ⟨sub.sequenceNumber, c.publishTime,
    if queuedTotal .changeNotify sub.monitoredItems = 0 then [] else [collect c.valueTime sub.monitoredItems]⟩⟩

def dataCycle (c : Cycle) : Subscription :=
  { insertNotification sub (dataMessage sub c) with
    sequenceNumber := sub.sequenceNumber + 1
    monitoredItems :=
      if queuedTotal .changeNotify sub.monitoredItems = 0 then sub.monitoredItems
      else sub.monitoredItems.map clearCollected }

def hasQueuedData : Bool :=
  !(queuedTotal .changeNotify sub.monitoredItems == 0 && queuedTotal .eventNotify sub.monitoredItems == 0 &&
    queuedTotal .statusNotify sub.monitoredItems == 0)

def updateNotifications (c : Cycle) : Subscription :=
  if sub.lastPublished + sub.publishingInterval > c.now then sub
  else if hasQueuedData sub then dataCycle (makeRoom sub) c
  else idleCycle (makeRoom sub) c.publishTime

def getAvailableSequenceNumbers : List UInt32 := sub.unpublishedNotifications.map (·.number)

def publishNotification (i : Nat) : Subscription :=
  { sub with
    unpublishedNotifications := sub.unpublishedNotifications.modify i (fun n => { n with publishedOnce := true }) }

def sampleItems (s : Nat → Sampling) : Subscription :=
  { sub with monitoredItems := sub.monitoredItems.mapIdx (fun k item => queuePushDataValue (s k) item) }

end Operations

def copyNotificationMessage (src : UnpublishedNotification) : NotificationMessage := src.notification

section Requests

def doubleIsNaN (bits : UInt64) : Bool := bits.toNat % 9223372036854775808 > 9218868437227405312

/-- `UA_BOUNDEDVALUE_SETWBOUNDS` of a `UA_Double` and the conversion to an
integer. A NaN passes the bounds, and its conversion is left to the machine. -/
def boundedDouble (low high : Nat) (ofNaN : Int) (bits : UInt64) : Int :=
  if doubleIsNaN bits then ofNaN
  else if bits.toNat ≥ 9223372036854775808 then low
  else if bits = 0 ∨ doubleWithin bits high then max low (truncateDouble bits)
  else high

def revisedPublishingInterval (requested : UInt64) : Int := boundedDouble 0 10000 (-9223372036854775808) requested

def revisedSamplingInterval (requested : UInt64) : UInt32 := UInt32.ofNat (boundedDouble 5 1000 0 requested).toNat

end Requests

/-- The requested parameters of a monitored item. -/
structure ItemParameters where
  attributeID : UInt32
  clientHandle : UInt32
  samplingInterval : UInt64
  queueSize : UInt32
  discardOldest : Bool

/-- The item that `createMonitoredItems` inserts. -/
def newMonitoredItem (itemId : UInt32) (nodeId : NodeId) (p : ItemParameters) : MonitoredItem where
  itemId := itemId
  monitoredItemType := .changeNotify
  monitoredNodeId := nodeId
  attributeID := p.attributeID
  clientHandle := p.clientHandle
  samplingInterval := revisedSamplingInterval p.samplingInterval
  queueSize := ⟨0, 0, bounded 0 100 p.queueSize + 1⟩
  discardOldest := p.discardOldest
  lastSampled := 0
  lastSampledValue := none
  queue := []

/-- What is requested of `Service_CreateSubscription` as well as of
`Service_ModifySubscription`. -/
structure Parameters where
  publishingInterval : UInt64
  lifetimeCount : UInt32
  maxKeepAliveCount : UInt32
  maxNotificationsPerPublish : UInt32
  priority : UInt32

def revise (sub : Subscription) (p : Parameters) : Subscription :=
  { sub with
    publishingInterval := revisedPublishingInterval p.publishingInterval
    lifeTime := ⟨bounded 0 15000 p.lifetimeCount, 0, 15000⟩
    keepAliveCount := ⟨(bounded 0 100 p.maxKeepAliveCount).toNat, 0, 100⟩
    notificationsPerPublish := p.maxNotificationsPerPublish
    priority := p.priority }

/-- What the services and the timer do to a subscription. -/
inductive Op
  | sample (s : Nat → Sampling)
  | update (c : Cycle)
  | forceKeepAlive (publishTime : Int)
  | publish (i : Nat)
  | delete (seqNo : UInt32)
  | addItem (itemId : UInt32) (nodeId : NodeId) (p : ItemParameters)
  | removeItem (itemId : UInt32)
  | modify (p : Parameters)
  | register (guid : Guid)

namespace Op

def apply (sub : Subscription) : Op → Subscription
  | sample s => sampleItems sub s
  | update c => updateNotifications sub c
  | forceKeepAlive publishTime =>
      generateKeepAlive
        { sub with keepAliveCount := { sub.keepAliveCount with currentValue := sub.keepAliveCount.minValue } }
        publishTime
  | publish i => publishNotification sub i
  | delete seqNo => (deleteUnpublishedNotification sub seqNo false).2
  | addItem itemId nodeId p =>
      { sub with monitoredItems := newMonitoredItem itemId nodeId p :: sub.monitoredItems }
  | removeItem itemId => { sub with monitoredItems := sub.monitoredItems.eraseP (·.itemId == itemId) }
  | modify p => revise sub p
  | register guid => { sub with timedUpdateJobGuid := guid, timedUpdateIsRegistered := true }

def applyAll (ops : List Op) (sub : Subscription) : Subscription := ops.foldl apply sub

def calls : List Op → Subscription → List (Subscription × Op)
  | [], _ => []
  | op :: ops, sub => (sub, op) :: calls ops (apply sub op)

end Op

section Cycles

variable (sub : Subscription) (c : Cycle)

/-- The two have the same notifications and items. -/
structure SameQueues (sub sub' : Subscription) : Prop where
  notifications : sub.unpublishedNotifications = sub'.unpublishedNotifications
  size : sub.unpublishedNotificationsSize = sub'.unpublishedNotificationsSize
  sequenceNumber : sub.sequenceNumber = sub'.sequenceNumber
  items : sub.monitoredItems = sub'.monitoredItems

def cycleDue : Bool := sub.lastPublished + sub.publishingInterval ≤ c.now

def keepAliveDue : Bool := sub.keepAliveCount.currentValue - 1 < sub.keepAliveCount.minValue

theorem sameQueues_forceKeepAlive (publishTime : Int) :
    SameQueues (Op.apply sub (.forceKeepAlive publishTime)) (insertNotification sub (keepAlive sub publishTime)) := by
  rw [Op.apply, generateKeepAlive, if_neg (fun h => Int.lt_irrefl _ h.1)]
  exact ⟨rfl, rfl, rfl, rfl⟩

theorem sameQueues_idleCycle (publishTime : Int) :
    SameQueues (idleCycle sub publishTime)
      (if keepAliveDue sub then insertNotification sub (keepAlive sub publishTime) else sub) := by
  rw [idleCycle]
  by_cases hdue : keepAliveDue sub = true
  · have hless : sub.keepAliveCount.currentValue - 1 < sub.keepAliveCount.minValue := of_decide_eq_true hdue
    dsimp only
    rw [if_pos hless, if_pos hdue, generateKeepAlive, if_neg (fun h => Int.lt_asymm hless h.1)]
    exact ⟨rfl, rfl, rfl, rfl⟩
  · have hnot : ¬ sub.keepAliveCount.currentValue - 1 < sub.keepAliveCount.minValue :=
      fun h => hdue (decide_eq_true h)
    dsimp only
    rw [if_neg hnot, if_neg hdue]
    exact ⟨rfl, rfl, rfl, rfl⟩

theorem keepAliveDue_makeRoom : keepAliveDue (makeRoom sub) = keepAliveDue sub := by
  rw [makeRoom]
  split <;> rfl

theorem update_cases :
    cycleDue sub c = false ∧ updateNotifications sub c = sub ∨
      cycleDue sub c = true ∧ hasQueuedData sub = true ∧ updateNotifications sub c = dataCycle (makeRoom sub) c ∨
      cycleDue sub c = true ∧ hasQueuedData sub = false ∧ keepAliveDue sub = false ∧
        SameQueues (updateNotifications sub c) (makeRoom sub) ∨
      cycleDue sub c = true ∧ hasQueuedData sub = false ∧ keepAliveDue sub = true ∧
        SameQueues (updateNotifications sub c)
          (insertNotification (makeRoom sub) (keepAlive (makeRoom sub) c.publishTime)) := by
  rw [updateNotifications]
  by_cases hdue : sub.lastPublished + sub.publishingInterval > c.now
  · exact .inl ⟨decide_eq_false (Int.not_le.mpr hdue), if_pos hdue⟩
  · have htrue : cycleDue sub c = true := decide_eq_true (Int.not_lt.mp hdue)
    rw [if_neg hdue]
    cases hdata : hasQueuedData sub with
    | true => exact .inr (.inl ⟨htrue, rfl, rfl⟩)
    | false =>
        have hidle := sameQueues_idleCycle (makeRoom sub) c.publishTime
        rw [keepAliveDue_makeRoom] at hidle
        cases hkeep : keepAliveDue sub with
        | false =>
            rw [hkeep] at hidle
            exact .inr (.inr (.inl ⟨htrue, rfl, rfl, hidle⟩))
        | true =>
            rw [hkeep] at hidle
            exact .inr (.inr (.inr ⟨htrue, rfl, rfl, hidle⟩))

theorem sequenceNumber_makeRoom : (makeRoom sub).sequenceNumber = sub.sequenceNumber := by
  rw [makeRoom]
  split <;> rfl

theorem monitoredItems_makeRoom : (makeRoom sub).monitoredItems = sub.monitoredItems := by
  rw [makeRoom]
  split <;> rfl

theorem makeRoom_cases : makeRoom sub = sub ∨
    (makeRoom sub).unpublishedNotifications = [] ∧
      (makeRoom sub).unpublishedNotificationsSize =
        sub.unpublishedNotificationsSize - sub.unpublishedNotifications.length := by
  rw [makeRoom]
  split
  · refine .inr ⟨?_, ?_⟩
    · simp [deleteUnpublishedNotification, deletes]
    · have hall : sub.unpublishedNotifications.countP (deletes 0 true) = sub.unpublishedNotifications.length := by
        rw [List.countP_eq_length]
        exact fun _ _ => rfl
      exact congrArg (sub.unpublishedNotificationsSize - ·) hall
  · exact .inl rfl

end Cycles

section Messages

variable {sub : Subscription} {i : Nat}

theorem messages_publishNotification (sub : Subscription) (i : Nat) :
    (publishNotification sub i).unpublishedNotifications.map (·.notification) =
      sub.unpublishedNotifications.map (·.notification) := by
  rw [publishNotification]
  dsimp only
  generalize sub.unpublishedNotifications = notifications
  induction notifications generalizing i with
  | nil => rw [List.modify_nil]
  | cons n rest ih =>
      cases i with
      | zero => rfl
      | succ i => rw [List.modify_succ_cons, List.map_cons, List.map_cons, ih i]

theorem mem_publishNotification {n : UnpublishedNotification}
    (h : n ∈ (publishNotification sub i).unpublishedNotifications) :
    ∃ before ∈ sub.unpublishedNotifications, n.notification = before.notification := by
  have hmem := List.mem_map_of_mem (f := fun x : UnpublishedNotification => x.notification) h
  rw [messages_publishNotification] at hmem
  obtain ⟨before, hbefore, hsame⟩ := List.mem_map.mp hmem
  exact ⟨before, hbefore, hsame.symm⟩

end Messages

end OpcUa.Subscriptions
