import OpcUa.Subscriptions
import OpcUa.Timers

namespace OpcUa.SubscriptionServices

open StatusCodes NodeIds MonitoredItems Subscriptions Timers
open AddressSpaces (AddressSpace)

section Managers

/-- The first of the elements with the property is changed. -/
def modifyFirst {α : Type} (p : α → Bool) (f : α → α) : List α → List α
  | [] => []
  | x :: rest => if p x then f x :: rest else x :: modifyFirst p f rest

structure SubscriptionManager where
  lastSessionID : UInt32
  lastJobGuid : Guid
  serverSubscriptions : List Subscription

def getSubscriptionByID (subs : List Subscription) (id : UInt32) : Option Subscription :=
  subs.find? (·.subscriptionID == id)

/-- The operations of a service on the subscription that its request names. -/
def callByID (id : UInt32) (ops : Subscription → List Op) (subs : List Subscription) : List Subscription :=
  modifyFirst (·.subscriptionID == id) (fun sub => Op.applyAll (ops sub) sub) subs

/-- `UA_Subscription_new`, with the parameters of the request. The job gets
the id that the manager gives to all jobs. -/
def newSubscription (address : Nat) (id : UInt32) (guid : Guid) (publishingEnabled : Bool) (p : Parameters) :
    Subscription :=
  revise
    { address := address, lifeTime := ⟨0, 0, 0⟩, keepAliveCount := ⟨0, 0, 0⟩, publishingInterval := 0,
      lastPublished := 0, subscriptionID := id, notificationsPerPublish := 0, publishingMode := publishingEnabled,
      priority := 0, sequenceNumber := 1, timedUpdateJobGuid := guid, timedUpdateIsRegistered := false,
      unpublishedNotifications := [], unpublishedNotificationsSize := 0, monitoredItems := [] }
    p

end Managers

section Jobs

inductive Job
  | timedUpdateNotifications (data : Nat)
  | other (method : Nat)
deriving DecidableEq, Repr

/-- The clock and the random id of a job that is added. -/
structure Registration where
  now : Int
  guid : Guid

def jobInterval (sub : Subscription) : UInt32 := UInt32.ofInt sub.publishingInterval * 10000

/-- The two checks on the way to `addRepeatedJob`. -/
def registers (sub : Subscription) : Bool :=
  decide (5 < sub.publishingInterval) && decide (5 ≤ UInt32.ofInt sub.publishingInterval)

def registerOps (e : Registration) (sub : Subscription) : List Op := if registers sub then [.register e.guid] else []

/-- `Subscription_registerUpdateJob`, as far as the timer is concerned. -/
def registerUpdateJob (e : Registration) (sub : Subscription) (timer : Timer Guid Job) : Timer Guid Job :=
  if registers sub then
    addRepeatedJob (e.now + (jobInterval sub).toNat) (jobInterval sub) ⟨e.guid, .timedUpdateNotifications sub.address⟩
      timer
  else timer

/-- `Subscription_timedUpdateNotificationsJob` -/
def timedOps (s : Nat → Sampling) (c : Cycle) (sub : Subscription) : List Op :=
  if sub.subscriptionID = 0 then [] else [.sample s, .update c]

end Jobs

section Publish

/-- `UA_PublishResponse`. `source` says which notification the message was
copied from: the places of the subscription and of the notification in their
lists. -/
structure PublishResponse where
  results : List StatusCode
  subscriptionId : UInt32
  notificationMessage : NotificationMessage
  availableSequenceNumbers : List UInt32
  source : Option (Nat × Nat)

structure SubscriptionAcknowledgement where
  subscriptionId : UInt32
  sequenceNumber : UInt32
deriving DecidableEq, Repr

def acknowledgementOps (a : SubscriptionAcknowledgement) (_ : Subscription) : List Op := [.delete a.sequenceNumber]

def acknowledge (subs : List Subscription) (a : SubscriptionAcknowledgement) : List Subscription :=
  callByID a.subscriptionId (acknowledgementOps a) subs

def acknowledgementResult (subs : List Subscription) (a : SubscriptionAcknowledgement) : StatusCode :=
  match getSubscriptionByID subs a.subscriptionId with
  | none => badSubscriptionIdInvalid
  | some sub =>
      if (deleteUnpublishedNotification sub a.sequenceNumber false).1 = 0 then badSequenceNumberInvalid else good

def acknowledgementResults : List Subscription → List SubscriptionAcknowledgement → List StatusCode
  | _, [] => []
  | subs, a :: acks => acknowledgementResult subs a :: acknowledgementResults (acknowledge subs a) acks

/-- What a Publish request finds outside of the subscriptions, by the place
of the subscription and of the item. -/
structure Surroundings where
  sampling : Nat → Nat → Sampling
  cycle : Nat → Cycle
  keepAliveTime : Int

variable (e : Surroundings)

/-- A subscription without a timer is updated by the request. -/
def forcedOps (k : Nat) (sub : Subscription) : List Op :=
  if sub.timedUpdateIsRegistered then [] else [.sample (e.sampling k), .update (e.cycle k)]

def refresh (k : Nat) (sub : Subscription) : Subscription := Op.applyAll (forcedOps e k sub) sub

/-- The first notification that was not published yet, with its place. -/
def firstUnpublished (sub : Subscription) : Option (UnpublishedNotification × Nat) :=
  if sub.unpublishedNotificationsSize = 0 then none
  else sub.unpublishedNotifications.zipIdx.find? (fun x => !x.1.publishedOnce)

/-- What `Service_Publish` takes for a keep-alive. -/
def takenForKeepAlive (sub : Subscription) (n : UnpublishedNotification) : Bool := n.number > sub.sequenceNumber

def takeOps (sub : Subscription) : List Op :=
  match firstUnpublished sub with
  | none => []
  | some (n, i) =>
      if takenForKeepAlive sub n then [.publish i, .delete (sub.sequenceNumber + 1)] else [.publish i]

def respond (k : Nat) (r : PublishResponse) (sub : Subscription) : PublishResponse :=
  match firstUnpublished sub with
  | none => r
  | some (n, i) =>
      { r with
        subscriptionId := sub.subscriptionID
        notificationMessage := copyNotificationMessage n
        availableSequenceNumbers := if takenForKeepAlive sub n then [] else getAvailableSequenceNumbers sub
        source := some (k, i) }

def roundOps (k : Nat) (sub : Subscription) : List Op := forcedOps e k sub ++ takeOps (refresh e k sub)

def publishLoop : Nat → PublishResponse → List Subscription → PublishResponse × List Subscription
  | _, r, [] => (r, [])
  | k, r, sub :: rest =>
      let (r', rest') := publishLoop (k + 1) (respond k r (refresh e k sub)) rest
      (r', Op.applyAll (roundOps e k sub) sub :: rest')

/-- The keep-alive that answers a request for which nothing is left. -/
def forcedKeepAliveOps (sub : Subscription) : List Op :=
  [.forceKeepAlive e.keepAliveTime, .delete (sub.sequenceNumber + 1)]

def respondKeepAlive (r : PublishResponse) (sub : Subscription) : PublishResponse :=
  match (Op.apply sub (.forceKeepAlive e.keepAliveTime)).unpublishedNotifications with
  | [] => { r with subscriptionId := sub.subscriptionID }
  | n :: _ =>
      { r with
        subscriptionId := sub.subscriptionID
        notificationMessage := copyNotificationMessage n
        source := some (0, 0) }

def publishKeepAlive (r : PublishResponse) : List Subscription → PublishResponse × List Subscription
  | [] => (r, [])
  | sub :: rest => (respondKeepAlive e r sub, Op.applyAll (forcedKeepAliveOps e sub) sub :: rest)

def initialResponse (subs : List Subscription) (acks : List SubscriptionAcknowledgement) : PublishResponse :=
  ⟨acknowledgementResults subs acks, 0, .init, [], none⟩

/-- `Service_Publish` on the subscriptions of the session. -/
def publish (acks : List SubscriptionAcknowledgement) (subs : List Subscription) :
    PublishResponse × List Subscription :=
  let (r, subs') := publishLoop e 0 (initialResponse subs acks) (acks.foldl acknowledge subs)
  if r.source.isNone then publishKeepAlive e r subs' else (r, subs')

end Publish

end OpcUa.SubscriptionServices
