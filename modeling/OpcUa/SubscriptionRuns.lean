import OpcUa.SubscriptionServices
import Mathlib.Data.List.Forall2
import Mathlib.Data.Set.Basic

namespace OpcUa.SubscriptionRuns

open StatusCodes NodeIds MonitoredItems Subscriptions SubscriptionServices Timers
open AddressSpaces (AddressSpace)

structure Session where
  address : Nat
  subscriptionManager : SubscriptionManager

/-- What the subscription services use of the server. -/
structure State where
  sessions : List Session
  repeatedJobs : Timer Guid Job

namespace State

variable (s : State)

def subscriptions : List Subscription := s.sessions.flatMap (·.subscriptionManager.serverSubscriptions)

def managerOf (i : Nat) : Option SubscriptionManager :=
  (s.sessions.find? (·.address == i)).map (·.subscriptionManager)

def modifyManager (i : Nat) (f : SubscriptionManager → SubscriptionManager) : State :=
  { s with
    sessions := modifyFirst (·.address == i) (fun x => { x with subscriptionManager := f x.subscriptionManager })
      s.sessions }

def modifySubscriptions (i : Nat) (f : List Subscription → List Subscription) : State :=
  s.modifyManager i (fun m => { m with serverSubscriptions := f m.serverSubscriptions })

/-- The allocator proposes an address, or none. It never proposes one that is
in use. -/
def allocateSubscription (proposal : Option Nat) : Option Nat :=
  proposal.filter (fun a => s.subscriptions.all (·.address != a))

def allocateSession (proposal : Option Nat) : Option Nat :=
  proposal.filter (fun a => s.sessions.all (·.address != a))

end State

section Services

variable (s : State) (i : Nat)

/-- `SubscriptionManager_init`, when a session is created. -/
def createSession (address : Option Nat) (start : UInt32) (guid : Guid) : State :=
  match s.allocateSession address with
  | none => s
  | some a => { s with sessions := ⟨a, ⟨start, guid, []⟩⟩ :: s.sessions }

/-- `SubscriptionManager_deleteMembers`, when a session is closed. -/
def closeSession : State :=
  match s.managerOf i with
  | none => s
  | some m =>
      { sessions := s.sessions.eraseP (·.address == i)
        repeatedJobs :=
          m.serverSubscriptions.foldl (fun timer sub => removeRepeatedJob sub.timedUpdateJobGuid timer) s.repeatedJobs }

/-- `Service_CreateSubscription`. The id is used up even without memory. -/
def createSubscription (address : Option Nat) (e : Registration) (publishingEnabled : Bool) (p : Parameters) : State :=
  match s.managerOf i with
  | none => s
  | some m =>
      let id := m.lastSessionID + 1
      match s.allocateSubscription address with
      | none => s.modifyManager i (fun m => { m with lastSessionID := id })
      | some a =>
          let sub := newSubscription a id m.lastJobGuid publishingEnabled p
          let created := Op.applyAll (registerOps e sub) sub
          { s.modifyManager i (fun m =>
              { m with lastSessionID := id, serverSubscriptions := created :: m.serverSubscriptions }) with
            repeatedJobs := registerUpdateJob e sub s.repeatedJobs }

def modifyOps (e : Registration) (p : Parameters) (sub : Subscription) : List Op :=
  .modify p :: registerOps e (revise sub p)

def modifySubscription (e : Registration) (id : UInt32) (p : Parameters) : State :=
  match (s.managerOf i).bind (fun m => getSubscriptionByID m.serverSubscriptions id) with
  | none => s
  | some sub =>
      { s.modifySubscriptions i (callByID id (modifyOps e p)) with
        repeatedJobs := registerUpdateJob e (revise sub p) s.repeatedJobs }

def deleteSubscription (id : UInt32) : State :=
  match (s.managerOf i).bind (fun m => getSubscriptionByID m.serverSubscriptions id) with
  | none => s
  | some sub =>
      { s.modifySubscriptions i (fun subs => subs.eraseP (·.subscriptionID == id)) with
        repeatedJobs := removeRepeatedJob sub.timedUpdateJobGuid s.repeatedJobs }

def deleteSubscriptions (ids : List UInt32) : State := ids.foldl (fun s id => deleteSubscription s i id) s

/-- The loop of `Service_CreateMonitoredItems`: items of unknown nodes are not
created. -/
def itemOps (space : AddressSpace) : UInt32 → List (NodeId × ItemParameters) → List Op
  | _, [] => []
  | last, (nodeId, p) :: items =>
      match space.get nodeId with
      | none => itemOps space last items
      | some target => .addItem (last + 1) target.nodeId p :: itemOps space (last + 1) items

def createItems (space : AddressSpace) (id : UInt32) (items : List (NodeId × ItemParameters))
    (m : SubscriptionManager) : SubscriptionManager :=
  match getSubscriptionByID m.serverSubscriptions id with
  | none => m
  | some _ =>
      let ops := itemOps space m.lastSessionID items
      { m with
        lastSessionID := m.lastSessionID + UInt32.ofNat ops.length
        serverSubscriptions := callByID id (fun _ => ops) m.serverSubscriptions }

def createMonitoredItems (space : AddressSpace) (id : UInt32) (items : List (NodeId × ItemParameters)) : State :=
  s.modifyManager i (createItems space id items)

def removeItemOps (itemIds : List UInt32) (_ : Subscription) : List Op := itemIds.map .removeItem

def deleteMonitoredItems (id : UInt32) (itemIds : List UInt32) : State :=
  s.modifySubscriptions i (callByID id (removeItemOps itemIds))

def republishOps (retransmitSequenceNumber : UInt32) (sub : Subscription) : List Op :=
  match sub.unpublishedNotifications.findIdx? (·.number == retransmitSequenceNumber) with
  | none => []
  | some k => [.publish k]

def republish (id : UInt32) (retransmitSequenceNumber : UInt32) : State :=
  s.modifySubscriptions i (callByID id (republishOps retransmitSequenceNumber))

def servicePublish (e : Surroundings) (acks : List SubscriptionAcknowledgement) : State :=
  s.modifySubscriptions i (fun subs => (publish e acks subs).2)

end Services

section Timer

def runOn (f : Subscription → List Op) (a : Nat) (sub : Subscription) : Subscription :=
  if sub.address = a then Op.applyAll (f sub) sub else sub

def runJob (ops : Subscription → List Op) (s : State) : Job → State
  | .other _ => s
  | .timedUpdateNotifications a =>
      { s with
        sessions := s.sessions.map (fun x =>
          { x with
            subscriptionManager :=
              { x.subscriptionManager with
                serverSubscriptions := x.subscriptionManager.serverSubscriptions.map (runOn ops a) } }) }

def jobOps (e : Surroundings) (k : Nat) : Subscription → List Op := timedOps (e.sampling k) (e.cycle k)

def runJobs (e : Surroundings) : Nat → State → List (IdentifiedJob Guid Job) → State
  | _, s, [] => s
  | k, s, j :: jobs => runJobs e (k + 1) (runJob (jobOps e k) s j.job) jobs

/-- One round of the loop of `processRepeatedJobs`. -/
def tick (s : State) (current : Int) (e : Surroundings) : State :=
  let s' := runJobs e 0 s (dueJobs current s.repeatedJobs)
  { s' with repeatedJobs := reschedule current s'.repeatedJobs }

end Timer

/-- A request, or a round of the timer, with what the environment answers. -/
inductive Event
  | createSession (address : Option Nat) (start : UInt32) (guid : Guid)
  | closeSession (i : Nat)
  | createSubscription (i : Nat) (address : Option Nat) (e : Registration) (publishingEnabled : Bool) (p : Parameters)
  | modifySubscription (i : Nat) (e : Registration) (id : UInt32) (p : Parameters)
  | deleteSubscriptions (i : Nat) (ids : List UInt32)
  | createMonitoredItems (i : Nat) (space : AddressSpace) (id : UInt32) (items : List (NodeId × ItemParameters))
  | deleteMonitoredItems (i : Nat) (id : UInt32) (itemIds : List UInt32)
  | publish (i : Nat) (e : Surroundings) (acks : List SubscriptionAcknowledgement)
  | republish (i : Nat) (id : UInt32) (retransmitSequenceNumber : UInt32)
  | tick (current : Int) (e : Surroundings)

def step (s : State) : Event → State
  | .createSession address start guid => createSession s address start guid
  | .closeSession i => closeSession s i
  | .createSubscription i address e publishingEnabled p => createSubscription s i address e publishingEnabled p
  | .modifySubscription i e id p => modifySubscription s i e id p
  | .deleteSubscriptions i ids => deleteSubscriptions s i ids
  | .createMonitoredItems i space id items => createMonitoredItems s i space id items
  | .deleteMonitoredItems i id itemIds => deleteMonitoredItems s i id itemIds
  | .publish i e acks => servicePublish s i e acks
  | .republish i id retransmitSequenceNumber => republish s i id retransmitSequenceNumber
  | .tick current e => tick s current e

def run (s : State) (events : List Event) : State := events.foldl step s

/-- A server without sessions. It may have jobs of its own. -/
def Initial (s : State) : Prop :=
  s.sessions = [] ∧ ∀ j ∈ allJobs s.repeatedJobs, ∀ a, j.job ≠ .timedUpdateNotifications a

theorem Initial.subscriptions {s : State} (h : Initial s) : s.subscriptions = [] := by
  rw [State.subscriptions, h.1]
  rfl

section Calls

/-- Operations on subscriptions, with the state in which each one finds the
subscription. -/
abbrev Calls := Set (Subscription × Op)

def callsOn (ops : Subscription → List Op) (sub : Subscription) : Calls := { call | call ∈ Op.calls (ops sub) sub }

def callsByID (id : UInt32) (ops : Subscription → List Op) (subs : List Subscription) : Calls :=
  { call | ∃ sub, getSubscriptionByID subs id = some sub ∧ call ∈ callsOn ops sub }

def acknowledgementCalls : List Subscription → List SubscriptionAcknowledgement → Calls
  | _, [] => ∅
  | subs, a :: acks =>
      callsByID a.subscriptionId (acknowledgementOps a) subs ∪ acknowledgementCalls (acknowledge subs a) acks

def loopCalls (e : Surroundings) : Nat → List Subscription → Calls
  | _, [] => ∅
  | k, sub :: rest => callsOn (roundOps e k) sub ∪ loopCalls e (k + 1) rest

def keepAliveCalls (e : Surroundings) : List Subscription → Calls
  | [] => ∅
  | sub :: _ => callsOn (forcedKeepAliveOps e) sub

def publishCalls (e : Surroundings) (acks : List SubscriptionAcknowledgement) (subs : List Subscription) : Calls :=
  let subs' := acks.foldl acknowledge subs
  let looped := publishLoop e 0 (initialResponse subs acks) subs'
  acknowledgementCalls subs acks ∪ loopCalls e 0 subs' ∪
    if looped.1.source.isNone then keepAliveCalls e looped.2 else ∅

def jobCalls (ops : Subscription → List Op) (s : State) : Job → Calls
  | .other _ => ∅
  | .timedUpdateNotifications a => { call | ∃ sub ∈ s.subscriptions, sub.address = a ∧ call ∈ callsOn ops sub }

def jobsCalls (e : Surroundings) : Nat → State → List (IdentifiedJob Guid Job) → Calls
  | _, _, [] => ∅
  | k, s, j :: jobs => jobCalls (jobOps e k) s j.job ∪ jobsCalls e (k + 1) (runJob (jobOps e k) s j.job) jobs

/-- The calls of a service on the subscriptions of a session. -/
def managerCalls (s : State) (i : Nat) (calls : SubscriptionManager → Calls) : Calls :=
  { call | ∃ m, s.managerOf i = some m ∧ call ∈ calls m }

/-- What a step does to the subscriptions that it keeps. -/
def stepCalls (s : State) : Event → Calls
  | .modifySubscription i e id p => managerCalls s i (fun m => callsByID id (modifyOps e p) m.serverSubscriptions)
  | .createMonitoredItems i space id items =>
      managerCalls s i (fun m => callsByID id (fun _ => itemOps space m.lastSessionID items) m.serverSubscriptions)
  | .deleteMonitoredItems i id itemIds =>
      managerCalls s i (fun m => callsByID id (removeItemOps itemIds) m.serverSubscriptions)
  | .publish i e acks => managerCalls s i (fun m => publishCalls e acks m.serverSubscriptions)
  | .republish i id retransmitSequenceNumber =>
      managerCalls s i (fun m => callsByID id (republishOps retransmitSequenceNumber) m.serverSubscriptions)
  | .tick current e => jobsCalls e 0 s (dueJobs current s.repeatedJobs)
  | .createSession _ _ _ | .closeSession _ | .createSubscription _ _ _ _ _ | .deleteSubscriptions _ _ => ∅

/-- The subscription comes out of calls that are among the given ones. -/
def Evolves (T : Calls) (sub sub' : Subscription) : Prop :=
  ∃ ops, Op.applyAll ops sub = sub' ∧ ∀ call ∈ Op.calls ops sub, call ∈ T

variable {T T' : Calls} {sub sub' sub'' : Subscription}

theorem calls_append (ops ops' : List Op) (sub : Subscription) :
    Op.calls (ops ++ ops') sub = Op.calls ops sub ++ Op.calls ops' (Op.applyAll ops sub) := by
  induction ops generalizing sub with
  | nil => rfl
  | cons op ops ih => exact congrArg (List.cons (sub, op)) (ih (Op.apply sub op))

theorem applyAll_append (ops ops' : List Op) (sub : Subscription) :
    Op.applyAll (ops ++ ops') sub = Op.applyAll ops' (Op.applyAll ops sub) := List.foldl_append

theorem Evolves.refl (T : Calls) (sub : Subscription) : Evolves T sub sub :=
  ⟨[], rfl, fun _ h => absurd h List.not_mem_nil⟩

theorem Evolves.trans (h : Evolves T sub sub') (h' : Evolves T sub' sub'') : Evolves T sub sub'' := by
  obtain ⟨ops, rfl, hops⟩ := h
  obtain ⟨ops', rfl, hops'⟩ := h'
  refine ⟨ops ++ ops', applyAll_append ops ops' sub, ?_⟩
  intro call hcall
  rw [calls_append] at hcall
  rcases List.mem_append.mp hcall with hcall | hcall
  · exact hops call hcall
  · exact hops' call hcall

theorem Evolves.mono (hT : T ⊆ T') (h : Evolves T sub sub') : Evolves T' sub sub' := by
  obtain ⟨ops, hsub, hops⟩ := h
  exact ⟨ops, hsub, fun call hcall => hT (hops call hcall)⟩

theorem evolves_applyAll (ops : Subscription → List Op) (sub : Subscription) :
    Evolves (callsOn ops sub) sub (Op.applyAll (ops sub) sub) := ⟨ops sub, rfl, fun _ h => h⟩

theorem Evolves.invariant {P : Subscription → Prop} (hop : ∀ call ∈ T, P call.1 → P (Op.apply call.1 call.2))
    (h : Evolves T sub sub') (hsub : P sub) : P sub' := by
  obtain ⟨ops, rfl, hops⟩ := h
  induction ops generalizing sub with
  | nil => exact hsub
  | cons op ops ih =>
      have hfirst : P (Op.apply sub op) := hop (sub, op) (hops _ List.mem_cons_self) hsub
      exact ih hfirst (fun call hcall => hops call (List.mem_cons_of_mem _ hcall))

end Calls

section Evolution

variable {α : Type} {p : α → Bool} {l : List α} {x : α}

theorem modifyFirst_none (h : l.find? p = none) (f : α → α) : modifyFirst p f l = l := by
  induction l with
  | nil => rfl
  | cons y rest ih =>
      have hy : ¬ p y = true := List.find?_eq_none.mp h y List.mem_cons_self
      have hrest : rest.find? p = none :=
        List.find?_eq_none.mpr (fun z hz => List.find?_eq_none.mp h z (List.mem_cons_of_mem y hz))
      rw [modifyFirst, if_neg hy, ih hrest]

theorem modifyFirst_some (h : l.find? p = some x) : ∃ front back, l = front ++ x :: back ∧
    l.eraseP p = front ++ back ∧ ∀ f, modifyFirst p f l = front ++ f x :: back := by
  obtain ⟨hx, front, back, rfl, hfront⟩ := List.find?_eq_some_iff_append.mp h
  refine ⟨front, back, rfl, ?_, ?_⟩
  · rw [List.eraseP_append_right _ (fun b hb => by simpa using hfront b hb), List.eraseP_cons_of_pos hx]
  · intro f
    clear h
    induction front with
    | nil => rw [List.nil_append, modifyFirst, if_pos hx, List.nil_append]
    | cons y front ih =>
        have hy : p y = false := by simpa using hfront y List.mem_cons_self
        rw [List.cons_append, modifyFirst, hy, if_neg Bool.false_ne_true,
          ih (fun b hb => hfront b (List.mem_cons_of_mem _ hb)), List.cons_append]

/-- Every subscription of the one list evolves into its successor in the other. -/
abbrev EvolveAll (T : Calls) : List Subscription → List Subscription → Prop := List.Forall₂ (Evolves T)

variable {T T' : Calls} {subs subs' subs'' : List Subscription} {ops : Subscription → List Op} {e : Surroundings}

theorem EvolveAll.refl (T : Calls) (subs : List Subscription) : EvolveAll T subs subs := by
  induction subs with
  | nil => exact .nil
  | cons sub subs ih => exact .cons (Evolves.refl T sub) ih

theorem EvolveAll.mono (hT : T ⊆ T') (h : EvolveAll T subs subs') : EvolveAll T' subs subs' :=
  h.imp (fun _ _ h => h.mono hT)

theorem EvolveAll.trans (h : EvolveAll T subs subs') (h' : EvolveAll T subs' subs'') : EvolveAll T subs subs'' := by
  induction h generalizing subs'' with
  | nil => exact h'
  | cons hsub _ ih =>
      cases h' with
      | cons hsub' hsubs' => exact .cons (hsub.trans hsub') (ih hsubs')

theorem EvolveAll.append {tail tail' : List Subscription} (h : EvolveAll T subs subs') (h' : EvolveAll T tail tail') :
    EvolveAll T (subs ++ tail) (subs' ++ tail') := List.rel_append h h'

theorem EvolveAll.getElem? {k : Nat} {sub' : Subscription} (h : EvolveAll T subs subs')
    (hsub' : subs'[k]? = some sub') : ∃ sub, subs[k]? = some sub ∧ Evolves T sub sub' := by
  induction h generalizing k with
  | nil => cases hsub'
  | cons hevolves _ ih =>
      cases k with
      | zero =>
          cases hsub'
          exact ⟨_, rfl, hevolves⟩
      | succ k => exact ih hsub'

theorem EvolveAll.exists_of_mem {sub' : Subscription} (h : EvolveAll T subs subs') (hsub' : sub' ∈ subs') :
    ∃ sub ∈ subs, Evolves T sub sub' := by
  obtain ⟨k, hk⟩ := List.mem_iff_getElem?.mp hsub'
  obtain ⟨sub, hsub, hevolves⟩ := h.getElem? hk
  exact ⟨sub, List.mem_of_getElem? hsub, hevolves⟩

theorem evolveAll_callByID (id : UInt32) (ops : Subscription → List Op) (subs : List Subscription) :
    EvolveAll (callsByID id ops subs) subs (callByID id ops subs) := by
  cases hfind : getSubscriptionByID subs id with
  | none =>
      rw [callByID, modifyFirst_none hfind]
      exact .refl _ _
  | some sub =>
      obtain ⟨front, back, hsubs, _, hmodify⟩ := modifyFirst_some hfind
      have hsub : Evolves (callsByID id ops subs) sub (Op.applyAll (ops sub) sub) :=
        (evolves_applyAll ops sub).mono (fun call hcall => ⟨sub, hfind, hcall⟩)
      rw [callByID, hmodify]
      nth_rewrite 2 [hsubs]
      exact (EvolveAll.refl _ front).append (.cons hsub (EvolveAll.refl _ back))

theorem evolveAll_acknowledge (acks : List SubscriptionAcknowledgement) (subs : List Subscription) :
    EvolveAll (acknowledgementCalls subs acks) subs (acks.foldl acknowledge subs) := by
  induction acks generalizing subs with
  | nil => exact .refl _ _
  | cons a acks ih =>
      have hfirst := (evolveAll_callByID a.subscriptionId (acknowledgementOps a) subs).mono
        (Set.subset_union_left (t := acknowledgementCalls (acknowledge subs a) acks))
      exact hfirst.trans ((ih (acknowledge subs a)).mono Set.subset_union_right)

theorem evolveAll_publishLoop (k : Nat) (r : PublishResponse) (subs : List Subscription) :
    EvolveAll (loopCalls e k subs) subs (publishLoop e k r subs).2 := by
  induction subs generalizing k r with
  | nil => exact .nil
  | cons sub rest ih =>
      have hsub := (evolves_applyAll (roundOps e k) sub).mono (Set.subset_union_left (t := loopCalls e (k + 1) rest))
      exact .cons hsub ((ih (k + 1) (respond k r (refresh e k sub))).mono Set.subset_union_right)

theorem evolveAll_publishKeepAlive (r : PublishResponse) (subs : List Subscription) :
    EvolveAll (keepAliveCalls e subs) subs (publishKeepAlive e r subs).2 := by
  cases subs with
  | nil => exact .nil
  | cons sub rest => exact .cons (evolves_applyAll (forcedKeepAliveOps e) sub) (EvolveAll.refl _ rest)

theorem evolveAll_publish (acks : List SubscriptionAcknowledgement) (subs : List Subscription) :
    EvolveAll (publishCalls e acks subs) subs (publish e acks subs).2 := by
  let subs₁ := acks.foldl acknowledge subs
  let looped := publishLoop e 0 (initialResponse subs acks) subs₁
  have hacks : EvolveAll (publishCalls e acks subs) subs subs₁ :=
    (evolveAll_acknowledge acks subs).mono (fun _ h => .inl (.inl h))
  have hloop : EvolveAll (publishCalls e acks subs) subs₁ looped.2 :=
    (evolveAll_publishLoop 0 (initialResponse subs acks) subs₁).mono (fun _ h => .inl (.inr h))
  rw [publish]
  by_cases hnone : looped.1.source.isNone = true
  · have hkeep : EvolveAll (publishCalls e acks subs) looped.2 (publishKeepAlive e looped.1 looped.2).2 := by
      refine (evolveAll_publishKeepAlive looped.1 looped.2).mono (fun _ h => .inr ?_)
      rw [if_pos hnone]
      exact h
    dsimp only
    rw [if_pos hnone]
    exact hacks.trans (hloop.trans hkeep)
  · dsimp only
    rw [if_neg hnone]
    exact hacks.trans hloop

end Evolution

section Steps

variable {s : State} {i : Nat} {m : SubscriptionManager} {T : Calls} {e : Surroundings}

theorem modifyManager_none (h : s.managerOf i = none) (f : SubscriptionManager → SubscriptionManager) :
    s.modifyManager i f = s := by
  rw [State.modifyManager, modifyFirst_none (Option.map_eq_none_iff.mp h)]

theorem managerOf_some (h : s.managerOf i = some m) : ∃ front back,
    s.subscriptions = front ++ m.serverSubscriptions ++ back ∧
      (s.sessions.eraseP (·.address == i)).flatMap (·.subscriptionManager.serverSubscriptions) = front ++ back ∧
      ∀ f, (s.modifyManager i f).subscriptions = front ++ (f m).serverSubscriptions ++ back := by
  obtain ⟨x, hfind, rfl⟩ := Option.map_eq_some_iff.mp h
  obtain ⟨front, back, hsessions, herase, hmodify⟩ := modifyFirst_some hfind
  refine ⟨front.flatMap (·.subscriptionManager.serverSubscriptions),
    back.flatMap (·.subscriptionManager.serverSubscriptions), ?_, ?_, ?_⟩
  · rw [State.subscriptions, hsessions, List.flatMap_append, List.flatMap_cons, List.append_assoc]
  · rw [herase, List.flatMap_append]
  · intro f
    rw [State.subscriptions, State.modifyManager]
    dsimp only
    rw [hmodify, List.flatMap_append, List.flatMap_cons, List.append_assoc]

theorem evolveAll_modifyManager {f : SubscriptionManager → SubscriptionManager}
    (h : ∀ m, s.managerOf i = some m → EvolveAll T m.serverSubscriptions (f m).serverSubscriptions) :
    EvolveAll T s.subscriptions (s.modifyManager i f).subscriptions := by
  cases hm : s.managerOf i with
  | none =>
      rw [modifyManager_none hm]
      exact .refl _ _
  | some m =>
      obtain ⟨front, back, hsubs, _, hmodify⟩ := managerOf_some hm
      rw [hsubs, hmodify]
      exact ((EvolveAll.refl T front).append (h m hm)).append (.refl T back)

theorem evolveAll_service {calls : SubscriptionManager → Calls} {f : SubscriptionManager → SubscriptionManager}
    (h : ∀ m, EvolveAll (calls m) m.serverSubscriptions (f m).serverSubscriptions) :
    EvolveAll (managerCalls s i calls) s.subscriptions (s.modifyManager i f).subscriptions :=
  evolveAll_modifyManager (fun m hm => (h m).mono (fun _ hcall => ⟨m, hm, hcall⟩))

theorem subscriptions_runJob (ops : Subscription → List Op) (s : State) (a : Nat) :
    (runJob ops s (.timedUpdateNotifications a)).subscriptions = s.subscriptions.map (runOn ops a) := by
  rw [State.subscriptions, State.subscriptions, runJob, List.flatMap_map, List.map_flatMap]

theorem evolveAll_runJob (ops : Subscription → List Op) (s : State) (job : Job) :
    EvolveAll (jobCalls ops s job) s.subscriptions (runJob ops s job).subscriptions := by
  cases job with
  | other method => exact .refl _ _
  | timedUpdateNotifications a =>
      rw [subscriptions_runJob, EvolveAll, List.forall₂_map_right_iff, List.forall₂_same]
      intro sub hsub
      by_cases ha : sub.address = a
      · rw [runOn, if_pos ha]
        exact (evolves_applyAll ops sub).mono (fun _ hcall => ⟨sub, hsub, ha, hcall⟩)
      · rw [runOn, if_neg ha]
        exact .refl _ _

theorem evolveAll_runJobs (k : Nat) (s : State) (jobs : List (IdentifiedJob Guid Job)) :
    EvolveAll (jobsCalls e k s jobs) s.subscriptions (runJobs e k s jobs).subscriptions := by
  induction jobs generalizing k s with
  | nil => exact .refl _ _
  | cons j jobs ih =>
      have hfirst : EvolveAll (jobsCalls e k s (j :: jobs)) s.subscriptions
          (runJob (jobOps e k) s j.job).subscriptions :=
        (evolveAll_runJob (jobOps e k) s j.job).mono Set.subset_union_left
      exact hfirst.trans ((ih (k + 1) (runJob (jobOps e k) s j.job)).mono Set.subset_union_right)

/-- The events that neither create nor delete a subscription. -/
def Event.keeps : Event → Bool
  | .closeSession _ | .createSubscription _ _ _ _ _ | .deleteSubscriptions _ _ => false
  | _ => true

theorem evolveAll_step {event : Event} (h : event.keeps = true) :
    EvolveAll (stepCalls s event) s.subscriptions (step s event).subscriptions := by
  cases event with
  | closeSession i => cases h
  | createSubscription i address e publishingEnabled p => cases h
  | deleteSubscriptions i ids => cases h
  | createSession address start guid =>
      rw [step, createSession]
      cases s.allocateSession address <;> exact .refl _ _
  | modifySubscription i e id p =>
      have hmodify : EvolveAll (stepCalls s (.modifySubscription i e id p)) s.subscriptions
          (s.modifySubscriptions i (callByID id (modifyOps e p))).subscriptions :=
        evolveAll_service (fun m => evolveAll_callByID id (modifyOps e p) m.serverSubscriptions)
      rw [step, modifySubscription]
      cases (s.managerOf i).bind (fun m => getSubscriptionByID m.serverSubscriptions id) with
      | none => exact .refl _ _
      | some sub => exact hmodify
  | createMonitoredItems i space id items =>
      refine evolveAll_service (fun m => ?_)
      rw [createItems]
      cases getSubscriptionByID m.serverSubscriptions id with
      | none => exact .refl _ _
      | some sub => exact evolveAll_callByID id (fun _ => itemOps space m.lastSessionID items) m.serverSubscriptions
  | deleteMonitoredItems i id itemIds =>
      exact evolveAll_service (fun m => evolveAll_callByID id (removeItemOps itemIds) m.serverSubscriptions)
  | publish i e acks => exact evolveAll_service (fun m => evolveAll_publish acks m.serverSubscriptions)
  | republish i id retransmitSequenceNumber =>
      exact evolveAll_service (fun m =>
        evolveAll_callByID id (republishOps retransmitSequenceNumber) m.serverSubscriptions)
  | tick current e => exact evolveAll_runJobs 0 s (dueJobs current s.repeatedJobs)

end Steps

section Runs

variable {s : State} {i : Nat} {sub sub' : Subscription}

/-- A subscription as `Service_CreateSubscription` makes it. -/
def IsNew (sub : Subscription) : Prop :=
  ∃ (address : Nat) (id : UInt32) (guid : Guid) (publishingEnabled : Bool) (p : Parameters) (e : Registration),
    let new := newSubscription address id guid publishingEnabled p
    sub = Op.applyAll (registerOps e new) new

theorem sublist_deleteSubscription (s : State) (i : Nat) (id : UInt32) :
    (deleteSubscription s i id).subscriptions.Sublist s.subscriptions := by
  rw [deleteSubscription]
  cases hfind : (s.managerOf i).bind (fun m => getSubscriptionByID m.serverSubscriptions id) with
  | none => exact .refl _
  | some found =>
      obtain ⟨m, hm, _⟩ := Option.bind_eq_some_iff.mp hfind
      obtain ⟨front, back, hsubs, _, hmodify⟩ := managerOf_some hm
      have herased := hmodify (fun m => { m with
        serverSubscriptions := m.serverSubscriptions.eraseP (·.subscriptionID == id) })
      rw [hsubs]
      exact herased ▸ ((List.Sublist.refl front).append List.eraseP_sublist).append (.refl back)

theorem sublist_deleteSubscriptions (s : State) (i : Nat) (ids : List UInt32) :
    (deleteSubscriptions s i ids).subscriptions.Sublist s.subscriptions := by
  induction ids generalizing s with
  | nil => exact .refl _
  | cons id ids ih => exact (ih (deleteSubscription s i id)).trans (sublist_deleteSubscription s i id)

theorem sublist_closeSession (s : State) (i : Nat) : (closeSession s i).subscriptions.Sublist s.subscriptions := by
  rw [closeSession]
  cases hm : s.managerOf i with
  | none => exact .refl _
  | some m =>
      obtain ⟨front, back, hsubs, herased, _⟩ := managerOf_some hm
      have hrest : (front ++ back).Sublist (front ++ m.serverSubscriptions ++ back) :=
        (List.sublist_append_left front _).append (.refl back)
      rw [← hsubs, ← herased] at hrest
      exact hrest

theorem address_ne_of_allocated {address : Option Nat} {a : Nat} (h : s.allocateSubscription address = some a) :
    ∀ sub ∈ s.subscriptions, sub.address ≠ a := by
  intro sub hsub
  obtain ⟨_, hall⟩ := Option.filter_eq_some_iff.mp h
  exact bne_iff_ne.mp (List.all_eq_true.mp hall sub hsub)

theorem subscriptions_createSubscription (s : State) (i : Nat) (address : Option Nat) (e : Registration)
    (publishingEnabled : Bool) (p : Parameters) :
    (createSubscription s i address e publishingEnabled p).subscriptions = s.subscriptions ∧
        (createSubscription s i address e publishingEnabled p).repeatedJobs = s.repeatedJobs ∨
      ∃ a id guid front back, s.allocateSubscription address = some a ∧ s.subscriptions = front ++ back ∧
        let new := newSubscription a id guid publishingEnabled p
        (createSubscription s i address e publishingEnabled p).subscriptions =
            front ++ Op.applyAll (registerOps e new) new :: back ∧
          (createSubscription s i address e publishingEnabled p).repeatedJobs =
            registerUpdateJob e new s.repeatedJobs := by
  rw [createSubscription]
  cases hm : s.managerOf i with
  | none => exact .inl ⟨rfl, rfl⟩
  | some m =>
      obtain ⟨front, back, hsubs, _, hmodify⟩ := managerOf_some hm
      cases ha : s.allocateSubscription address with
      | none =>
          refine .inl ⟨?_, rfl⟩
          dsimp only
          rw [hmodify, hsubs]
      | some a =>
          refine .inr ⟨a, m.lastSessionID + 1, m.lastJobGuid, front, m.serverSubscriptions ++ back, rfl, ?_, ?_, rfl⟩
          · rw [hsubs, List.append_assoc]
          · let new := newSubscription a (m.lastSessionID + 1) m.lastJobGuid publishingEnabled p
            have hcreated := hmodify (fun x => { x with
              lastSessionID := m.lastSessionID + 1
              serverSubscriptions := Op.applyAll (registerOps e new) new :: x.serverSubscriptions })
            exact hcreated.trans (List.append_assoc _ _ _)

theorem mem_step {event : Event} (h : sub' ∈ (step s event).subscriptions) :
    IsNew sub' ∨ ∃ sub ∈ s.subscriptions, Evolves (stepCalls s event) sub sub' := by
  by_cases hkeeps : event.keeps = true
  · exact .inr (EvolveAll.exists_of_mem (evolveAll_step hkeeps) h)
  · cases event with
    | closeSession i => exact .inr ⟨sub', (sublist_closeSession s i).subset h, .refl _ _⟩
    | deleteSubscriptions i ids => exact .inr ⟨sub', (sublist_deleteSubscriptions s i ids).subset h, .refl _ _⟩
    | createSubscription i address e publishingEnabled p =>
        rw [step] at h
        rcases subscriptions_createSubscription s i address e publishingEnabled p with
          ⟨hsame, _⟩ | ⟨a, id, guid, front, back, _, hsubs, hcreated, _⟩
        · rw [hsame] at h
          exact .inr ⟨sub', h, .refl _ _⟩
        · rw [hcreated] at h
          rcases List.mem_append.mp h with hmem | hmem
          · exact .inr ⟨sub', hsubs ▸ List.mem_append_left _ hmem, .refl _ _⟩
          · rcases List.mem_cons.mp hmem with rfl | hmem
            · exact .inl ⟨a, id, guid, publishingEnabled, p, e, rfl⟩
            · exact .inr ⟨sub', hsubs ▸ List.mem_append_right _ hmem, .refl _ _⟩
    | _ => exact absurd rfl hkeeps

def MeetsAll (C : State → Event → Prop) : State → List Event → Prop
  | _, [] => True
  | s, event :: events => C s event ∧ MeetsAll C (step s event) events

theorem MeetsAll.take {C : State → Event → Prop} {events reached : List Event} (h : MeetsAll C s events)
    (hreached : reached <+: events) : MeetsAll C s reached := by
  obtain ⟨rest, rfl⟩ := hreached
  induction reached generalizing s with
  | nil => trivial
  | cons event reached ih => exact ⟨h.1, ih h.2⟩

theorem run_invariant {C : State → Event → Prop} {I : State → Prop}
    (hstep : ∀ s event, C s event → I s → I (step s event)) {events : List Event} (hmeets : MeetsAll C s events)
    (h : I s) : I (run s events) := by
  induction events generalizing s with
  | nil => exact h
  | cons event events ih => exact ih hmeets.2 (hstep s event hmeets.1 h)

def CallsMeet (C : Subscription → Op → Prop) (s : State) (event : Event) : Prop :=
  ∀ call ∈ stepCalls s event, C call.1 call.2

theorem step_subscriptions {C : Subscription → Op → Prop} {P : Subscription → Prop} (hnew : ∀ sub, IsNew sub → P sub)
    (hop : ∀ sub op, C sub op → P sub → P (Op.apply sub op)) {event : Event} (hmeets : CallsMeet C s event)
    (h : ∀ sub ∈ s.subscriptions, P sub) : ∀ sub ∈ (step s event).subscriptions, P sub := by
  intro sub' hsub'
  rcases mem_step hsub' with hisNew | ⟨sub, hsub, hevolves⟩
  · exact hnew sub' hisNew
  · exact hevolves.invariant (fun call hcall => hop call.1 call.2 (hmeets call hcall)) (h sub hsub)

theorem run_subscriptions {C : Subscription → Op → Prop} {P : Subscription → Prop} (hnew : ∀ sub, IsNew sub → P sub)
    (hop : ∀ sub op, C sub op → P sub → P (Op.apply sub op)) {events : List Event}
    (hmeets : MeetsAll (CallsMeet C) s events) (h : ∀ sub ∈ s.subscriptions, P sub) :
    ∀ sub ∈ (run s events).subscriptions, P sub := by
  refine run_invariant (I := fun s => ∀ sub ∈ s.subscriptions, P sub) ?_ hmeets h
  intro s event hmeets h
  exact step_subscriptions hnew hop hmeets h

end Runs

section CallInvariants

variable {P : Subscription → Prop} {T : Calls} {s : State} {e : Surroundings}

theorem EvolveAll.invariant (hop : ∀ sub op, P sub → P (Op.apply sub op)) {subs subs' : List Subscription}
    (h : EvolveAll T subs subs') (hsubs : ∀ sub ∈ subs, P sub) : ∀ sub ∈ subs', P sub := by
  intro sub' hsub'
  obtain ⟨sub, hsub, hevolves⟩ := EvolveAll.exists_of_mem h hsub'
  exact hevolves.invariant (fun call _ => hop call.1 call.2) (hsubs sub hsub)

theorem callsOn_invariant (hop : ∀ sub op, P sub → P (Op.apply sub op)) {ops : Subscription → List Op}
    {sub : Subscription} (hsub : P sub) : ∀ call ∈ callsOn ops sub, P call.1 := by
  intro call hcall
  rw [callsOn, Set.mem_ofPred_eq] at hcall
  generalize ops sub = list at hcall
  induction list generalizing sub with
  | nil => cases hcall
  | cons op list ih =>
      rcases List.mem_cons.mp hcall with rfl | hcall
      · exact hsub
      · exact ih (hop sub op hsub) hcall

theorem callsByID_invariant (hop : ∀ sub op, P sub → P (Op.apply sub op)) {id : UInt32} {ops : Subscription → List Op}
    {subs : List Subscription} (hsubs : ∀ sub ∈ subs, P sub) : ∀ call ∈ callsByID id ops subs, P call.1 := by
  rintro call ⟨sub, hfind, hcall⟩
  exact callsOn_invariant hop (hsubs sub (List.mem_of_find?_eq_some hfind)) call hcall

theorem publishCalls_invariant (hop : ∀ sub op, P sub → P (Op.apply sub op))
    {acks : List SubscriptionAcknowledgement} {subs : List Subscription} (hsubs : ∀ sub ∈ subs, P sub) :
    ∀ call ∈ publishCalls e acks subs, P call.1 := by
  have hacks : ∀ (acks : List SubscriptionAcknowledgement) subs, (∀ sub ∈ subs, P sub) →
      ∀ call ∈ acknowledgementCalls subs acks, P call.1 := by
    intro acks subs hsubs call hcall
    induction acks generalizing subs with
    | nil => cases hcall
    | cons a acks ih =>
        rcases hcall with hcall | hcall
        · exact callsByID_invariant hop hsubs call hcall
        · have hnext : EvolveAll _ subs (acknowledge subs a) := evolveAll_callByID _ (acknowledgementOps a) subs
          exact ih (acknowledge subs a) (hnext.invariant hop hsubs) hcall
  have hloop : ∀ k (subs : List Subscription), (∀ sub ∈ subs, P sub) → ∀ call ∈ loopCalls e k subs, P call.1 := by
    intro k subs hsubs call hcall
    induction subs generalizing k with
    | nil => cases hcall
    | cons sub rest ih =>
        rcases hcall with hcall | hcall
        · exact callsOn_invariant hop (hsubs sub List.mem_cons_self) call hcall
        · exact ih (k + 1) (fun x hx => hsubs x (List.mem_cons_of_mem sub hx)) hcall
  have hacknowledged := EvolveAll.invariant hop (evolveAll_acknowledge acks subs) hsubs
  rintro call ((hcall | hcall) | hcall)
  · exact hacks acks subs hsubs call hcall
  · exact hloop 0 (acks.foldl acknowledge subs) hacknowledged call hcall
  · have hlooped := EvolveAll.invariant hop
      (evolveAll_publishLoop (e := e) 0 (initialResponse subs acks) (acks.foldl acknowledge subs)) hacknowledged
    split at hcall
    · cases hlist : (publishLoop e 0 (initialResponse subs acks) (acks.foldl acknowledge subs)).2 with
      | nil =>
          rw [hlist] at hcall
          cases hcall
      | cons sub rest =>
          rw [hlist] at hcall hlooped
          exact callsOn_invariant hop (hlooped sub List.mem_cons_self) call hcall
    · cases hcall

theorem jobsCalls_invariant (hop : ∀ sub op, P sub → P (Op.apply sub op)) {k : Nat}
    {jobs : List (IdentifiedJob Guid Job)} (hsubs : ∀ sub ∈ s.subscriptions, P sub) :
    ∀ call ∈ jobsCalls e k s jobs, P call.1 := by
  intro call hcall
  induction jobs generalizing k s with
  | nil => cases hcall
  | cons j jobs ih =>
      rcases hcall with hcall | hcall
      · cases hjob : j.job with
        | other method =>
            rw [hjob] at hcall
            cases hcall
        | timedUpdateNotifications a =>
            rw [hjob] at hcall
            obtain ⟨sub, hsub, _, hcall⟩ := hcall
            exact callsOn_invariant hop (hsubs sub hsub) call hcall
      · exact ih (EvolveAll.invariant hop (evolveAll_runJob (jobOps e k) s j.job) hsubs) hcall

/-- What holds of all subscriptions and is kept by all operations also holds
within the steps. -/
theorem stepCalls_invariant (hop : ∀ sub op, P sub → P (Op.apply sub op)) (hsubs : ∀ sub ∈ s.subscriptions, P sub)
    (event : Event) : ∀ call ∈ stepCalls s event, P call.1 := by
  have hmanager : ∀ {i m}, s.managerOf i = some m → ∀ sub ∈ m.serverSubscriptions, P sub := by
    intro i m hm sub hsub
    obtain ⟨front, back, hall, _⟩ := managerOf_some hm
    refine hsubs sub ?_
    rw [hall]
    exact List.mem_append_left _ (List.mem_append_right _ hsub)
  intro call hcall
  cases event with
  | publish i e acks =>
      obtain ⟨m, hm, hcall⟩ := hcall
      exact publishCalls_invariant hop (hmanager hm) call hcall
  | modifySubscription | createMonitoredItems | deleteMonitoredItems | republish =>
      obtain ⟨m, hm, hcall⟩ := hcall
      exact callsByID_invariant hop (hmanager hm) call hcall
  | tick current e => exact jobsCalls_invariant hop hsubs call hcall
  | createSession | closeSession | createSubscription | deleteSubscriptions => cases hcall

end CallInvariants

end OpcUa.SubscriptionRuns
