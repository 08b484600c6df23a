import OpcUa.SequenceNumbers

namespace OpcUa.PublicationOrder

open MonitoredItems Subscriptions SubscriptionServices SubscriptionRuns SubscriptionJobs Publishing SequenceNumbers
open Timers (dueJobs)

section Addresses

variable {s : State} {T : Calls} {sub sub' : Subscription}

theorem address_apply (op : Op) (sub : Subscription) : (Op.apply sub op).address = sub.address := by
  by_cases hregister : isRegister op = true
  · cases op with
    | register guid => rfl
    | _ => cases hregister
  · exact congrArg Handle.address (handle_apply (Bool.not_eq_true _ ▸ hregister) sub)

theorem Evolves.address (h : Evolves T sub sub') : sub'.address = sub.address :=
  h.invariant (P := fun x => x.address = sub.address) (fun call _ heq => (address_apply call.2 call.1).trans heq) rfl

theorem EvolveAll.addresses {subs subs' : List Subscription} (h : EvolveAll T subs subs') :
    subs'.map (·.address) = subs.map (·.address) := by
  induction h with
  | nil => rfl
  | cons hsub _ ih => rw [List.map_cons, List.map_cons, Evolves.address hsub, ih]

def Separate (s : State) : Prop := (s.subscriptions.map (·.address)).Nodup

theorem separate_step {event : Event} (h : Separate s) : Separate (step s event) := by
  by_cases hkeeps : event.keeps = true
  · rw [Separate, EvolveAll.addresses (evolveAll_step hkeeps)]
    exact h
  · cases event with
    | createSubscription i address e publishingEnabled p =>
        rw [step]
        rcases subscriptions_createSubscription s i address e publishingEnabled p with
          ⟨hsame, _⟩ | ⟨a, id, guid, front, back, ha, hsubs, hcreated, _⟩
        · rw [Separate, hsame]
          exact h
        · let new := newSubscription a id guid publishingEnabled p
          have haddress : (Op.applyAll (registerOps e new) new).address = a :=
            Evolves.address (evolves_applyAll (registerOps e) new)
          have hfresh : a ∉ s.subscriptions.map (·.address) := by
            rw [List.mem_map]
            rintro ⟨sub, hsub, heq⟩
            exact address_ne_of_allocated ha sub hsub heq
          rw [Separate, hcreated, List.map_append, List.map_cons, haddress]
          rw [Separate] at h
          rw [hsubs, List.map_append] at h hfresh
          exact List.nodup_middle.mpr (List.nodup_cons.mpr ⟨hfresh, h⟩)
    | deleteSubscriptions i ids => exact h.sublist ((sublist_deleteSubscriptions s i ids).map _)
    | closeSession i => exact h.sublist ((sublist_closeSession s i).map _)
    | _ => exact absurd rfl hkeeps

end Addresses

section Order

variable {D : List UInt32} {sub sub' : Subscription} {n : UnpublishedNotification} {i : Nat}

/-- A notification with data that waits to be published. -/
def Waits (sub : Subscription) (n : UnpublishedNotification) : Prop :=
  n ∈ sub.unpublishedNotifications ∧ n.hasData = true ∧ n.publishedOnce = false

/-- `D` are the numbers that were delivered so far. What still waits has
higher numbers. -/
structure Ordered (D : List UInt32) (sub : Subscription) : Prop where
  increasing : D.Pairwise (· < ·)
  counted : ∀ n ∈ sub.unpublishedNotifications, n.hasData = true → n.number < sub.sequenceNumber
  behind : ∀ d ∈ D, d < sub.sequenceNumber ∧ ∀ n, Waits sub n → d < n.number

def CountsOn (sub : Subscription) : Op → Prop
  | .update c => cycleDue sub c = true → hasQueuedData sub = true → sub.sequenceNumber ≠ 0xFFFFFFFF
  | _ => True

theorem ordered_of_same (h : SameQueues sub sub') (ho : Ordered D sub') : Ordered D sub where
  increasing := ho.increasing
  counted := by
    rw [h.notifications, h.sequenceNumber]
    exact ho.counted
  behind d hd := by
    rw [h.sequenceNumber]
    refine ⟨(ho.behind d hd).1, fun n hn => (ho.behind d hd).2 n ?_⟩
    rw [Waits, h.notifications] at hn
    exact hn

/-- Everything that is held was held before, with the same message, and does
not wait if it did not wait before. -/
def Shrinks (sub sub' : Subscription) : Prop :=
  ∀ n ∈ sub'.unpublishedNotifications, ∃ before ∈ sub.unpublishedNotifications,
    n.notification = before.notification ∧ (n.publishedOnce = false → before.publishedOnce = false)

theorem Shrinks.waits (h : Shrinks sub sub') (hn : Waits sub' n) :
    ∃ before, Waits sub before ∧ n.number = before.number := by
  obtain ⟨hmem, hdata, hwaits⟩ := hn
  obtain ⟨before, hbefore, hsame, hflag⟩ := h n hmem
  refine ⟨before, ⟨hbefore, ?_, hflag hwaits⟩, congrArg NotificationMessage.sequenceNumber hsame⟩
  rw [UnpublishedNotification.hasData, ← hsame]
  exact hdata

theorem Ordered.shrink (h : Ordered D sub) (hshrinks : Shrinks sub sub')
    (hnumber : sub'.sequenceNumber = sub.sequenceNumber) : Ordered D sub' where
  increasing := h.increasing
  counted n hn hdata := by
    obtain ⟨before, hbefore, hsame, _⟩ := hshrinks n hn
    have hdata' : before.hasData = true := by rw [UnpublishedNotification.hasData, ← hsame]; exact hdata
    have hsameNumber : n.number = before.number := congrArg NotificationMessage.sequenceNumber hsame
    rw [hnumber, hsameNumber]
    exact h.counted before hbefore hdata'
  behind d hd := by
    rw [hnumber]
    refine ⟨(h.behind d hd).1, fun n hn => ?_⟩
    obtain ⟨before, hbefore, hsame⟩ := hshrinks.waits hn
    rw [hsame]
    exact (h.behind d hd).2 before hbefore

theorem shrinks_of_sublist (h : sub'.unpublishedNotifications.Sublist sub.unpublishedNotifications) :
    Shrinks sub sub' := fun n hn => ⟨n, h.subset hn, rfl, id⟩

theorem getElem?_publishNotification {j : Nat} (h : (publishNotification sub i).unpublishedNotifications[j]? = some n) :
    ∃ before, sub.unpublishedNotifications[j]? = some before ∧ n.notification = before.notification ∧
      n.publishedOnce = (before.publishedOnce || decide (i = j)) := by
  rw [publishNotification] at h
  dsimp only at h
  rw [List.getElem?_modify] at h
  obtain ⟨before, hbefore, rfl⟩ := Option.map_eq_some_iff.mp h
  refine ⟨before, hbefore, ?_, ?_⟩
  · by_cases hij : i = j <;> simp [hij]
  · by_cases hij : i = j <;> simp [hij]

theorem shrinks_publishNotification (sub : Subscription) (i : Nat) : Shrinks sub (publishNotification sub i) := by
  intro n hn
  obtain ⟨j, hj⟩ := List.mem_iff_getElem?.mp hn
  obtain ⟨before, hbefore, hsame, hflag⟩ := getElem?_publishNotification hj
  refine ⟨before, List.mem_of_getElem? hbefore, hsame, fun hwaits => ?_⟩
  rw [hwaits] at hflag
  exact (Bool.or_eq_false_iff.mp hflag.symm).1

theorem Ordered.makeRoom (h : Ordered D sub) : Ordered D (makeRoom sub) := by
  refine h.shrink (shrinks_of_sublist ?_) (sequenceNumber_makeRoom sub)
  rcases makeRoom_cases sub with heq | ⟨hnil, _⟩
  · rw [heq]
  · rw [hnil]
    exact List.nil_sublist _

theorem Ordered.keepAlive (h : Ordered D sub) (publishTime : Int) :
    Ordered D (insertNotification sub (Subscriptions.keepAlive sub publishTime)) where
  increasing := h.increasing
  counted n hn hdata := by
    rcases List.mem_cons.mp hn with rfl | hn
    · cases hdata
    · exact h.counted n hn hdata
  behind d hd := by
    refine ⟨(h.behind d hd).1, fun n hn => ?_⟩
    obtain ⟨hmem, hdata, hwaits⟩ := hn
    rcases List.mem_cons.mp hmem with rfl | hmem
    · cases hdata
    · exact (h.behind d hd).2 n ⟨hmem, hdata, hwaits⟩

theorem Ordered.dataCycle (h : Ordered D sub) (hmax : sub.sequenceNumber ≠ 0xFFFFFFFF) (c : Cycle) :
    Ordered D (dataCycle sub c) where
  increasing := h.increasing
  counted n hn hdata := by
    have hnext : sub.sequenceNumber < sub.sequenceNumber + 1 := lt_succ_of_not_max hmax
    rcases List.mem_cons.mp hn with rfl | hn
    · exact hnext
    · exact UInt32.lt_trans (h.counted n hn hdata) hnext
  behind d hd := by
    refine ⟨UInt32.lt_trans (h.behind d hd).1 (lt_succ_of_not_max hmax), fun n hn => ?_⟩
    obtain ⟨hmem, hdata, hwaits⟩ := hn
    rcases List.mem_cons.mp hmem with rfl | hmem
    · exact (h.behind d hd).1
    · exact (h.behind d hd).2 n ⟨hmem, hdata, hwaits⟩

theorem ordered_apply {op : Op} (hcounts : CountsOn sub op) (h : Ordered D sub) : Ordered D (Op.apply sub op) := by
  cases op with
  | update c =>
      rcases update_cases sub c with ⟨_, heq⟩ | ⟨hdue, hdata, heq⟩ | ⟨_, _, _, hsame⟩ | ⟨_, _, _, hsame⟩
      · rw [Op.apply, heq]
        exact h
      · have hmax := hcounts hdue hdata
        rw [← sequenceNumber_makeRoom] at hmax
        rw [Op.apply, heq]
        exact h.makeRoom.dataCycle hmax c
      · exact ordered_of_same hsame h.makeRoom
      · exact ordered_of_same hsame (h.makeRoom.keepAlive c.publishTime)
  | forceKeepAlive publishTime =>
      exact ordered_of_same (sameQueues_forceKeepAlive sub publishTime) (h.keepAlive publishTime)
  | publish i => exact h.shrink (shrinks_publishNotification sub i) rfl
  | delete seqNo => exact h.shrink (shrinks_of_sublist List.filter_sublist) rfl
  | sample | addItem | removeItem | modify | register =>
      exact h.shrink (shrinks_of_sublist (List.Sublist.refl _)) rfl

theorem ordered_new (h : IsNew sub) : Ordered [] sub where
  increasing := .nil
  counted n hn := by
    rw [unpublishedNotifications_new h] at hn
    cases hn
  behind d hd := absurd hd List.not_mem_nil

def OnlyWaiting (sub : Subscription) : Prop :=
  ∀ n i, firstUnpublished sub = some (n, i) → n.hasData = true →
    ∀ j n', sub.unpublishedNotifications[j]? = some n' → n'.hasData = true → n'.publishedOnce = false → j = i

theorem Ordered.deliver (h : Ordered D sub) (honly : OnlyWaiting sub) (hfirst : firstUnpublished sub = some (n, i))
    (hdata : n.hasData = true) : Ordered (D ++ [n.number]) (Op.applyAll (takeOps sub) sub) := by
  obtain ⟨hn, hwaits⟩ := getElem?_of_firstUnpublished hfirst
  have hless : n.number < sub.sequenceNumber := h.counted n (List.mem_of_getElem? hn) hdata
  have hops : takeOps sub = [.publish i] := by
    have hkeep : takenForKeepAlive sub n = false := decide_eq_false (UInt32.lt_asymm hless)
    rw [takeOps, hfirst]
    dsimp only
    rw [hkeep, if_neg Bool.false_ne_true]
  have hcounts : CountsOn sub (.publish i) := trivial
  have hpublished : Ordered D (publishNotification sub i) := ordered_apply hcounts h
  have hnone : ∀ n', ¬ Waits (publishNotification sub i) n' := by
    rintro n' ⟨hmem, hdata', hwaits'⟩
    obtain ⟨j, hj⟩ := List.mem_iff_getElem?.mp hmem
    obtain ⟨before, hbefore, hsame, hflag⟩ := getElem?_publishNotification hj
    rw [hwaits'] at hflag
    obtain ⟨hwaited, hne⟩ := Bool.or_eq_false_iff.mp hflag.symm
    have hbeforeData : before.hasData = true := by rw [UnpublishedNotification.hasData, ← hsame]; exact hdata'
    exact of_decide_eq_false hne (honly n i hfirst hdata j before hbefore hbeforeData hwaited).symm
  rw [hops]
  refine ⟨?_, hpublished.counted, ?_⟩
  · refine List.pairwise_append.mpr ⟨h.increasing, List.pairwise_singleton _ _, ?_⟩
    intro d hd x hx
    rw [List.mem_singleton.mp hx]
    exact (h.behind d hd).2 n ⟨List.mem_of_getElem? hn, hdata, hwaits⟩
  · intro d hd
    refine ⟨?_, fun n' hn' => absurd hn' (hnone n')⟩
    rcases List.mem_append.mp hd with hd | hd
    · exact (h.behind d hd).1
    · rw [List.mem_singleton.mp hd]
      exact hless

end Order

section Histories

/-- The numbers of the notifications with data that were delivered so far, by
the address of the subscription. -/
abbrev History := Nat → List UInt32

/-- The notification with data that a response delivers: the address of its
subscription and its number. -/
def delivery (subs : List Subscription) (r : PublishResponse) : Option (Nat × UInt32) :=
  match r.source with
  | none => none
  | some (k, _) =>
      if r.notificationMessage.notificationData.isEmpty then none
      else subs[k]?.map (fun sub => (sub.address, r.notificationMessage.sequenceNumber))

def record (h : History) (s : State) : Event → History
  | .publish i e acks =>
      match (s.managerOf i).bind (fun m => delivery m.serverSubscriptions (publish e acks m.serverSubscriptions).1) with
      | none => h
      | some (a, number) => Function.update h a (h a ++ [number])
  | .createSubscription _ address _ _ _ =>
      match s.allocateSubscription address with
      | none => h
      | some a => Function.update h a []
  | _ => h

def history : History → State → List Event → History
  | h, _, [] => h
  | h, s, event :: events => history (record h s event) (step s event) events

/-- A Publish request finds at most one notification with data that waits,
where it publishes one. No counter wraps around. -/
def NoBacklog (s : State) (event : Event) : Prop :=
  CallsMeet CountsOn s event ∧
    match event with
    | .publish i e acks =>
        ∀ m, s.managerOf i = some m → ∀ sub ∈ offered e acks m.serverSubscriptions, OnlyWaiting sub
    | _ => True

structure InOrder (h : History) (s : State) : Prop where
  separate : Separate s
  ordered : ∀ sub ∈ s.subscriptions, Ordered (h sub.address) sub

variable {h : History} {s : State} {event : Event}

section Deliveries

variable {e : Surroundings} {acks : List SubscriptionAcknowledgement} {subs : List Subscription} {a : Nat}
  {number : UInt32}

theorem notEmpty_of_delivery {r : PublishResponse} (h : delivery subs r = some (a, number)) :
    r.notificationMessage.notificationData.isEmpty = false := by
  rw [delivery] at h
  split at h
  · cases h
  · cases hempty : r.notificationMessage.notificationData.isEmpty with
    | false => rfl
    | true =>
        rw [hempty, if_pos rfl] at h
        cases h

theorem publish_of_delivery (h : delivery subs (publish e acks subs).1 = some (a, number)) :
    publish e acks subs = looped e acks subs := by
  have hdata := notEmpty_of_delivery h
  by_contra hne
  have hnone : (looped e acks subs).1.source = none := by
    by_contra hsome
    exact hne (publish_of_some hsome)
  rw [publish_of_none hnone] at hdata h
  cases hsubs : (looped e acks subs).2 with
  | nil =>
      rw [hsubs, delivery, publishKeepAlive, hnone] at h
      cases h
  | cons sub rest =>
      rw [hsubs, publishKeepAlive, respondKeepAlive, unpublishedNotifications_forceKeepAlive] at hdata
      cases hdata

theorem getElem?_looped {k : Nat} {before : Subscription} (h : (acknowledged acks subs)[k]? = some before) :
    (looped e acks subs).2[k]? = some (Op.applyAll (takeOps (refresh e k before)) (refresh e k before)) := by
  rw [looped, publishLoop_subs, List.getElem?_mapIdx, h, Option.map_some, Nat.zero_add, roundOps, applyAll_append]
  rfl

theorem delivery_some (h : delivery subs (publish e acks subs).1 = some (a, number)) :
    ∃ k sub before n i, subs[k]? = some sub ∧ sub.address = a ∧ (acknowledged acks subs)[k]? = some before ∧
      firstUnpublished (refresh e k before) = some (n, i) ∧ n.hasData = true ∧ n.number = number ∧
      (publish e acks subs).2[k]? = some (Op.applyAll (takeOps (refresh e k before)) (refresh e k before)) := by
  have hloop := publish_of_delivery h
  have hdata := notEmpty_of_delivery h
  rcases publishLoop_carries e 0 (initialResponse subs acks) (acknowledged acks subs) with
    hsame | ⟨k, before, n, i, hbefore, hfirst, hcarries⟩
  · rw [hloop, delivery, looped, hsame] at h
    cases h
  · rw [Nat.zero_add] at hfirst hcarries
    obtain ⟨n', hn', hmessage⟩ := hcarries.message
    rw [(getElem?_of_firstUnpublished hfirst).1] at hn'
    cases hn'
    rw [hloop, looped, hmessage, copyNotificationMessage] at hdata
    rw [hloop, delivery, looped, hcarries.source] at h
    dsimp only at h
    rw [hmessage, copyNotificationMessage, hdata, if_neg Bool.false_ne_true] at h
    obtain ⟨sub, hsub, heq⟩ := Option.map_eq_some_iff.mp h
    cases heq
    have hdata' : n.hasData = true := by rw [UnpublishedNotification.hasData, hdata]; rfl
    exact ⟨k, sub, before, n, i, hsub, rfl, hbefore, hfirst, hdata', rfl, hloop ▸ getElem?_looped hbefore⟩

end Deliveries

theorem mem_loopCalls {e : Surroundings} {k d : Nat} {subs : List Subscription} {sub : Subscription}
    (hsub : subs[d]? = some sub) : callsOn (roundOps e (k + d)) sub ⊆ loopCalls e k subs := by
  induction subs generalizing k d with
  | nil => cases hsub
  | cons first rest ih =>
      cases d with
      | zero =>
          cases hsub
          exact Set.subset_union_left
      | succ d =>
          have hshift : k + (d + 1) = k + 1 + d := by rw [Nat.add_assoc, Nat.add_comm 1 d]
          rw [hshift]
          exact (ih hsub).trans Set.subset_union_right

theorem evolves_refresh {e : Surroundings} {acks : List SubscriptionAcknowledgement} {subs : List Subscription}
    {k : Nat} {sub before : Subscription} (hsub : subs[k]? = some sub)
    (hbefore : (acknowledged acks subs)[k]? = some before) :
    Evolves (publishCalls e acks subs) sub (refresh e k before) := by
  obtain ⟨sub', hsub', hacks⟩ := (evolveAll_acknowledge acks subs).getElem? hbefore
  rw [hsub] at hsub'
  cases hsub'
  have hforced : Evolves (publishCalls e acks subs) before (refresh e k before) := by
    refine ⟨forcedOps e k before, rfl, fun call hcall => .inl (.inr ?_)⟩
    have hround : call ∈ callsOn (roundOps e (0 + k)) before := by
      rw [Nat.zero_add, callsOn, Set.mem_ofPred_eq, roundOps, calls_append]
      exact List.mem_append_left _ hcall
    exact mem_loopCalls hbefore hround
  exact (hacks.mono (fun _ hcall => .inl (.inl hcall))).trans hforced

theorem ordered_of_keeps {sub' : Subscription} (hinv : InOrder h s) (hkeeps : event.keeps = true)
    (hmeets : CallsMeet CountsOn s event) (hsub' : sub' ∈ (step s event).subscriptions) :
    Ordered (h sub'.address) sub' := by
  obtain ⟨sub, hsub, hevolves⟩ := EvolveAll.exists_of_mem (evolveAll_step hkeeps) hsub'
  rw [Evolves.address hevolves]
  exact hevolves.invariant (fun call hcall => ordered_apply (hmeets call hcall)) (hinv.ordered sub hsub)

theorem ordered_publish {i : Nat} {e : Surroundings} {acks : List SubscriptionAcknowledgement} {sub' : Subscription}
    (hinv : InOrder h s) (hcondition : NoBacklog s (.publish i e acks))
    (hsub' : sub' ∈ (step s (.publish i e acks)).subscriptions) :
    Ordered (record h s (.publish i e acks) sub'.address) sub' := by
  obtain ⟨hmeets, honly⟩ := hcondition
  have hkept : Ordered (h sub'.address) sub' := ordered_of_keeps hinv rfl hmeets hsub'
  rw [record]
  cases hdelivery : (s.managerOf i).bind
      (fun m => delivery m.serverSubscriptions (publish e acks m.serverSubscriptions).1) with
  | none => exact hkept
  | some x =>
      obtain ⟨a, number⟩ := x
      dsimp only
      by_cases ha : sub'.address = a
      · obtain ⟨m, hm, hdelivered⟩ := Option.bind_eq_some_iff.mp hdelivery
        obtain ⟨k, sub, before, n, j, hsub, rfl, hbefore, hfirst, hdata, rfl, hafter⟩ := delivery_some hdelivered
        obtain ⟨front, back, hsubs, _, hmodify⟩ := managerOf_some hm
        let delivered := Op.applyAll (takeOps (refresh e k before)) (refresh e k before)
        have haddress : delivered.address = sub.address := by
          obtain ⟨sub₀, hsub₀, hevolves⟩ := (evolveAll_publish acks m.serverSubscriptions).getElem? hafter
          rw [hsub] at hsub₀
          cases hsub₀
          exact Evolves.address hevolves
        have hmem : delivered ∈ (step s (.publish i e acks)).subscriptions := by
          rw [step, servicePublish, State.modifySubscriptions, hmodify]
          exact List.mem_append_left _ (List.mem_append_right _ (List.mem_of_getElem? hafter))
        have hsame : sub' = delivered :=
          List.inj_on_of_nodup_map (separate_step hinv.separate) hsub' hmem (ha.trans haddress.symm)
        have hsubMem : sub ∈ s.subscriptions := by
          rw [hsubs]
          exact List.mem_append_left _ (List.mem_append_right _ (List.mem_of_getElem? hsub))
        have hrefreshed : Ordered (h sub.address) (refresh e k before) := by
          refine (evolves_refresh hsub hbefore).invariant (fun call hcall => ?_) (hinv.ordered sub hsubMem)
          exact ordered_apply (hmeets call ⟨m, hm, hcall⟩)
        have hoffered : refresh e k before ∈ offered e acks m.serverSubscriptions :=
          List.mem_of_getElem? (getElem?_offered.mpr ⟨before, hbefore, rfl⟩)
        rw [ha, Function.update_self, hsame]
        exact hrefreshed.deliver (honly m hm _ hoffered) hfirst hdata
      · rw [Function.update_of_ne ha]
        exact hkept

theorem ordered_createSubscription {i : Nat} {address : Option Nat} {e : SubscriptionServices.Registration}
    {publishingEnabled : Bool} {p : Parameters} {sub' : Subscription} (hinv : InOrder h s)
    (hsub' : sub' ∈ (step s (.createSubscription i address e publishingEnabled p)).subscriptions) :
    Ordered (record h s (.createSubscription i address e publishingEnabled p) sub'.address) sub' := by
  have hold : ∀ sub ∈ s.subscriptions,
      Ordered (record h s (.createSubscription i address e publishingEnabled p) sub.address) sub := by
    intro sub hsub
    rw [record]
    cases ha : s.allocateSubscription address with
    | none => exact hinv.ordered sub hsub
    | some a =>
        dsimp only
        rw [Function.update_of_ne (address_ne_of_allocated ha sub hsub)]
        exact hinv.ordered sub hsub
  rw [step] at hsub'
  rcases subscriptions_createSubscription s i address e publishingEnabled p with
    ⟨hsame, _⟩ | ⟨a, id, guid, front, back, ha, hsubs, hcreated, _⟩
  · rw [hsame] at hsub'
    exact hold sub' hsub'
  · rw [hcreated] at hsub'
    rw [hsubs] at hold
    rcases List.mem_append.mp hsub' with hmem | hmem
    · exact hold sub' (List.mem_append_left _ hmem)
    · rcases List.mem_cons.mp hmem with rfl | hmem
      · let new := newSubscription a id guid publishingEnabled p
        have haddress : (Op.applyAll (registerOps e new) new).address = a :=
          Evolves.address (evolves_applyAll (registerOps e) new)
        rw [record, ha]
        dsimp only
        rw [haddress, Function.update_self]
        exact ordered_new ⟨a, id, guid, publishingEnabled, p, e, rfl⟩
      · exact hold sub' (List.mem_append_right _ hmem)

theorem inOrder_step (hcondition : NoBacklog s event) (hinv : InOrder h s) :
    InOrder (record h s event) (step s event) where
  separate := separate_step hinv.separate
  ordered sub' hsub' := by
    cases event with
    | publish i e acks => exact ordered_publish hinv hcondition hsub'
    | createSubscription i address e publishingEnabled p => exact ordered_createSubscription hinv hsub'
    | deleteSubscriptions i ids => exact hinv.ordered sub' ((sublist_deleteSubscriptions s i ids).subset hsub')
    | closeSession i => exact hinv.ordered sub' ((sublist_closeSession s i).subset hsub')
    | createSession | modifySubscription | createMonitoredItems | deleteMonitoredItems | republish | tick =>
        exact ordered_of_keeps hinv rfl hcondition.1 hsub'

theorem inOrder_run {events : List Event} (hmeets : MeetsAll NoBacklog s events) (hinv : InOrder h s) :
    InOrder (history h s events) (run s events) := by
  induction events generalizing h s with
  | nil => exact hinv
  | cons event events ih => exact ih hmeets.2 (inOrder_step hmeets.1 hinv)

/-- Whatever was delivered of a subscription came in the order of the numbers. -/
theorem publication_in_order {s : State} {events reached : List Event} (hinitial : Initial s)
    (hmeets : MeetsAll NoBacklog s events) (hreached : reached <+: events) :
    ∀ sub ∈ (run s reached).subscriptions, (history (fun _ => []) s reached sub.address).Pairwise (· < ·) := by
  have hinv : InOrder (fun _ => []) s := by
    refine ⟨?_, ?_⟩
    · rw [Separate, hinitial.subscriptions]
      exact List.nodup_nil
    · rw [hinitial.subscriptions]
      exact fun _ hsub => absurd hsub List.not_mem_nil
  exact fun sub hsub => ((inOrder_run (hmeets.take hreached) hinv).ordered sub hsub).increasing

end Histories

section Example

def watching : List Event :=
  sampleCreation ++ [.createMonitoredItems 0 (numberSpace 1) 7 [(NodeIds.numericId 1 1, sampleItem)]]

def backlogRun : List Event :=
  watching ++ [.tick 5000000 (showing 1 5000000), .tick 10000000 (showing 2 10000000), .publish 0 quiet [],
    .publish 0 quiet []]

theorem publication_reversed : Initial emptyState ∧ ¬ ∀ sub ∈ (run emptyState backlogRun).subscriptions,
    (history (fun _ => []) emptyState backlogRun sub.address).Pairwise (· < ·) := by
  refine ⟨initial_emptyState, fun h => ?_⟩
  have haddresses : (run emptyState backlogRun).subscriptions.map (·.address) = [1] := by decide +kernel
  have hhistory : history (fun _ => []) emptyState backlogRun 1 = [2, 1] := by decide +kernel
  have hmem : 1 ∈ (run emptyState backlogRun).subscriptions.map (·.address) := by
    rw [haddresses]
    exact List.mem_singleton_self 1
  obtain ⟨sub, hsub, haddress⟩ := List.mem_map.mp hmem
  have hincreasing := h sub hsub
  rw [haddress, hhistory] at hincreasing
  exact absurd hincreasing (by decide)

/-- Every change is asked for before the next one. -/
def promptRun : List Event :=
  watching ++ [.tick 5000000 (showing 1 5000000), .publish 0 quiet [], .tick 10000000 (showing 2 10000000),
    .publish 0 quiet []]

theorem onlyWaiting_of_alone {sub : Subscription}
    (h : ∀ x ∈ sub.unpublishedNotifications.zipIdx, ∀ y ∈ sub.unpublishedNotifications.zipIdx,
      x.1.publishedOnce = false → y.1.hasData = true → y.1.publishedOnce = false → y.2 = x.2) : OnlyWaiting sub := by
  intro n i hfirst _ j n' hn' hdata hwaits
  obtain ⟨hn, hfresh⟩ := getElem?_of_firstUnpublished hfirst
  exact h (n, i) (List.mk_mem_zipIdx_iff_getElem?.mpr hn) (n', j) (List.mk_mem_zipIdx_iff_getElem?.mpr hn') hfresh hdata
    hwaits

theorem countsOn_of_mem_takeOps {sub : Subscription} {op : Op} (hop : op ∈ takeOps sub) (x : Subscription) :
    CountsOn x op := by
  rw [takeOps] at hop
  split at hop
  · cases hop
  · split at hop
    · rcases List.mem_pair.mp hop with rfl | rfl <;> trivial
    · rw [List.mem_singleton.mp hop]
      trivial

theorem countsOn_publish {e : Surroundings} {subs : List Subscription}
    (h : ∀ sub ∈ subs, sub.timedUpdateIsRegistered = true) :
    ∀ call ∈ publishCalls e [] subs, CountsOn call.1 call.2 := by
  have hloop : ∀ k (subs : List Subscription), (∀ sub ∈ subs, sub.timedUpdateIsRegistered = true) →
      ∀ call ∈ loopCalls e k subs, CountsOn call.1 call.2 := by
    intro k subs h call hcall
    induction subs generalizing k with
    | nil => cases hcall
    | cons sub rest ih =>
        rcases hcall with hcall | hcall
        · have hop := mem_of_mem_calls hcall
          rw [roundOps, forcedOps, if_pos (h sub List.mem_cons_self), List.nil_append] at hop
          exact countsOn_of_mem_takeOps hop call.1
        · exact ih (k + 1) (fun x hx => h x (List.mem_cons_of_mem sub hx)) hcall
  intro call hcall
  rcases hcall with (hcall | hcall) | hcall
  · cases hcall
  · exact hloop 0 subs h call hcall
  · split at hcall
    · cases hsubs : (publishLoop e 0 (initialResponse subs []) ([].foldl acknowledge subs)).2 with
      | nil =>
          rw [hsubs] at hcall
          cases hcall
      | cons sub rest =>
          rw [hsubs] at hcall
          rcases List.mem_pair.mp hcall with rfl | rfl <;> trivial
    · cases hcall

theorem countsOn_tick {s : State} {now : Int} {e : Surroundings}
    (hdue : dueJobs now s.repeatedJobs = [⟨sampleGuid 1, .timedUpdateNotifications 1⟩])
    (hfresh : ∀ sub ∈ s.subscriptions, sub.sequenceNumber ≠ 0xFFFFFFFF) : CallsMeet CountsOn s (.tick now e) :=
  callsMeet_tick hdue (fun sub hsub => ⟨trivial, fun _ _ => hfresh sub hsub⟩)

theorem noBacklog_publish {s : State}
    (hregistered : ∀ m ∈ s.managerOf 0, ∀ sub ∈ m.serverSubscriptions, sub.timedUpdateIsRegistered = true)
    (hwaiting : ∀ m ∈ s.managerOf 0, ∀ sub ∈ offered quiet [] m.serverSubscriptions,
      ∀ x ∈ sub.unpublishedNotifications.zipIdx, ∀ y ∈ sub.unpublishedNotifications.zipIdx,
        x.1.publishedOnce = false → y.1.hasData = true → y.1.publishedOnce = false → y.2 = x.2) :
    NoBacklog s (.publish 0 quiet []) := by
  refine ⟨?_, fun m hm sub hsub => onlyWaiting_of_alone (hwaiting m hm sub hsub)⟩
  rintro call ⟨m, hm, hcall⟩
  exact countsOn_publish (hregistered m hm) call hcall

theorem publication_in_order_prompt : MeetsAll NoBacklog emptyState promptRun ∧
    (∀ sub ∈ (run emptyState promptRun).subscriptions,
      (history (fun _ => []) emptyState promptRun sub.address).Pairwise (· < ·)) ∧
    history (fun _ => []) emptyState promptRun 1 = [1, 2] := by
  let s₁ := run emptyState watching
  let s₂ := step s₁ (.tick 5000000 (showing 1 5000000))
  let s₃ := step s₂ (.publish 0 quiet [])
  let s₄ := step s₃ (.tick 10000000 (showing 2 10000000))
  have htick : CallsMeet CountsOn s₁ (.tick 5000000 (showing 1 5000000)) :=
    countsOn_tick (by decide +kernel) (by decide +kernel)
  have htick' : CallsMeet CountsOn s₃ (.tick 10000000 (showing 2 10000000)) :=
    countsOn_tick (by decide +kernel) (by decide +kernel)
  have hpublish : NoBacklog s₂ (.publish 0 quiet []) := noBacklog_publish (by decide +kernel) (by decide +kernel)
  have hpublish' : NoBacklog s₄ (.publish 0 quiet []) := noBacklog_publish (by decide +kernel) (by decide +kernel)
  have hcreateItem : CallsMeet CountsOn (run emptyState sampleCreation)
      (.createMonitoredItems 0 (numberSpace 1) 7 [(NodeIds.numericId 1 1, sampleItem)]) :=
    callsMeet_createItem (fun _ _ => trivial)
  have hmeets : MeetsAll NoBacklog emptyState promptRun :=
    ⟨⟨fun _ h => absurd h (Set.notMem_empty _), trivial⟩, ⟨fun _ h => absurd h (Set.notMem_empty _), trivial⟩,
      ⟨hcreateItem, trivial⟩, ⟨htick, trivial⟩, hpublish, ⟨htick', trivial⟩, hpublish', trivial⟩
  exact ⟨hmeets, publication_in_order initial_emptyState hmeets (List.prefix_refl _), by decide +kernel⟩

end Example

end OpcUa.PublicationOrder
