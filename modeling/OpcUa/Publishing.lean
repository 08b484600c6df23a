import OpcUa.SubscriptionJobs
import OpcUa.SubTypes

namespace OpcUa.Publishing

open NodeIds MonitoredItems Subscriptions SubscriptionServices SubscriptionRuns SubscriptionJobs

section Taking

/-- The operation marks the notification at the place as published, or
deletes it. -/
def Takes (sub : Subscription) (j : Nat) : Op → Prop
  | .publish i => j = i
  | .delete seqNo => ∃ n, sub.unpublishedNotifications[j]? = some n ∧ n.number = seqNo
  | _ => False

variable (e : Surroundings) (acks : List SubscriptionAcknowledgement) (subs : List Subscription)

def acknowledged : List Subscription := acks.foldl acknowledge subs

def looped : PublishResponse × List Subscription :=
  publishLoop e 0 (initialResponse subs acks) (acknowledged acks subs)

/-- In the round of the subscription at place `k`, or after all rounds, the
notification at place `j` of `sub` is taken. `sub` is the subscription at that
moment. -/
inductive Taken : Nat → Subscription → Nat → Prop
  | round {k : Nat} {sub : Subscription} {op : Op} {j : Nat} (hsub : (acknowledged acks subs)[k]? = some sub)
      (hop : op ∈ takeOps (refresh e k sub)) (htakes : Takes (refresh e k sub) j op) : Taken k (refresh e k sub) j
  | keepAlive {sub : Subscription} {rest : List Subscription} {j : Nat} (hnone : (looped e acks subs).1.source = none)
      (hsub : (looped e acks subs).2 = sub :: rest)
      (htakes : Takes (Op.apply sub (.forceKeepAlive e.keepAliveTime)) j (.delete (sub.sequenceNumber + 1))) :
      Taken 0 (Op.apply sub (.forceKeepAlive e.keepAliveTime)) j

/-- The response carries the notification at place `j` of the subscription at
place `k`. -/
structure Carries (r : PublishResponse) (k : Nat) (sub : Subscription) (j : Nat) : Prop where
  source : r.source = some (k, j)
  subscriptionId : r.subscriptionId = sub.subscriptionID
  message : ∃ n, sub.unpublishedNotifications[j]? = some n ∧ r.notificationMessage = copyNotificationMessage n

/-- Every notification that the request takes is in its response. -/
def Delivers : Prop := ∀ k sub j, Taken e acks subs k sub j → Carries (publish e acks subs).1 k sub j

/-- The subscriptions after the acknowledgements and the forced updates. -/
def offered : List Subscription := (acknowledged acks subs).mapIdx (refresh e)

/-- Only one subscription has something to publish. Numbers of keep-alives
are not borrowed twice where a keep-alive is taken. -/
structure Alone : Prop where
  single : ∀ (k k' : Nat) sub sub', (offered e acks subs)[k]? = some sub → (offered e acks subs)[k']? = some sub' →
    firstUnpublished sub ≠ none → firstUnpublished sub' ≠ none → k = k'
  keepAlive : ∀ sub ∈ offered e acks subs, ∀ n i, firstUnpublished sub = some (n, i) → takenForKeepAlive sub n = true →
    ∀ j n', sub.unpublishedNotifications[j]? = some n' → n'.number = sub.sequenceNumber + 1 → j = i
  forced : (∀ sub ∈ offered e acks subs, firstUnpublished sub = none) → ∀ sub, (offered e acks subs)[0]? = some sub →
    ∀ n ∈ sub.unpublishedNotifications, n.number ≠ sub.sequenceNumber + 1

end Taking

section Loop

variable {e : Surroundings} {k : Nat} {r : PublishResponse} {subs : List Subscription} {sub : Subscription}
  {n : UnpublishedNotification} {i : Nat}

theorem getElem?_of_firstUnpublished (h : firstUnpublished sub = some (n, i)) :
    sub.unpublishedNotifications[i]? = some n ∧ n.publishedOnce = false := by
  rw [firstUnpublished] at h
  split at h
  · cases h
  · have hmem := List.mem_of_find?_eq_some h
    have hnot := List.find?_some h
    exact ⟨List.mem_zipIdx_iff_getElem?.mp hmem, by simpa using hnot⟩

theorem publish_mem_takeOps (h : firstUnpublished sub = some (n, i)) : Op.publish i ∈ takeOps sub := by
  rw [takeOps, h]
  dsimp only
  split <;> exact List.mem_cons_self

theorem delete_mem_takeOps (h : firstUnpublished sub = some (n, i)) (hkeep : takenForKeepAlive sub n = true) :
    Op.delete (sub.sequenceNumber + 1) ∈ takeOps sub := by
  rw [takeOps, h]
  dsimp only
  rw [if_pos hkeep]
  exact List.mem_cons_of_mem _ List.mem_cons_self

theorem takes_of_mem {op : Op} {j : Nat} (hop : op ∈ takeOps sub) (h : Takes sub j op) :
    ∃ n i, firstUnpublished sub = some (n, i) ∧ (j = i ∨ takenForKeepAlive sub n = true ∧
      ∃ n', sub.unpublishedNotifications[j]? = some n' ∧ n'.number = sub.sequenceNumber + 1) := by
  rw [takeOps] at hop
  cases hfirst : firstUnpublished sub with
  | none =>
      rw [hfirst] at hop
      cases hop
  | some x =>
      obtain ⟨n, i⟩ := x
      rw [hfirst] at hop
      dsimp only at hop
      refine ⟨n, i, rfl, ?_⟩
      by_cases hkeep : takenForKeepAlive sub n = true
      · rw [if_pos hkeep] at hop
        rcases List.mem_pair.mp hop with rfl | rfl
        · exact .inl h
        · exact .inr ⟨hkeep, h⟩
      · rw [if_neg hkeep] at hop
        cases List.mem_singleton.mp hop
        exact .inl h

theorem applyAll_roundOps (h : firstUnpublished (refresh e k sub) = none) :
    Op.applyAll (roundOps e k sub) sub = refresh e k sub := by
  rw [roundOps, takeOps, h, List.append_nil]
  rfl

theorem publishLoop_silent (h : ∀ d sub, subs[d]? = some sub → firstUnpublished (refresh e (k + d) sub) = none) :
    (publishLoop e k r subs).1 = r ∧ (publishLoop e k r subs).2 = subs.mapIdx (fun d => refresh e (k + d)) := by
  induction subs generalizing k r with
  | nil => exact ⟨rfl, rfl⟩
  | cons sub rest ih =>
      have hfirst : firstUnpublished (refresh e k sub) = none := h 0 sub rfl
      have hrespond : respond k r (refresh e k sub) = r := by rw [respond, hfirst]
      have hrest : ∀ d sub, rest[d]? = some sub → firstUnpublished (refresh e (k + 1 + d) sub) = none := by
        intro d sub hsub
        rw [Nat.add_assoc, Nat.add_comm 1 d]
        exact h (d + 1) sub hsub
      obtain ⟨hr, hsubs⟩ := ih (r := r) hrest
      rw [publishLoop, hrespond]
      refine ⟨hr, ?_⟩
      dsimp only
      rw [hsubs, applyAll_roundOps hfirst, List.mapIdx_cons]
      have hshift : (fun d => refresh e (k + 1 + d)) = fun d => refresh e (k + (d + 1)) := by
        funext d
        rw [Nat.add_assoc, Nat.add_comm 1 d]
      rw [hshift]
      rfl

theorem publishLoop_last {d : Nat} (hsub : subs[d]? = some sub)
    (hfirst : firstUnpublished (refresh e (k + d) sub) = some (n, i))
    (hlast : ∀ d' sub', d < d' → subs[d']? = some sub' → firstUnpublished (refresh e (k + d') sub') = none) :
    Carries (publishLoop e k r subs).1 (k + d) (refresh e (k + d) sub) i := by
  induction subs generalizing k r d with
  | nil => cases hsub
  | cons first rest ih =>
      have hshift : ∀ d, k + (d + 1) = k + 1 + d := fun d => by rw [Nat.add_assoc, Nat.add_comm 1 d]
      rw [publishLoop]
      cases d with
      | zero =>
          cases hsub
          have hrest : ∀ d sub, rest[d]? = some sub → firstUnpublished (refresh e (k + 1 + d) sub) = none := by
            intro d sub hsub
            rw [← hshift]
            exact hlast (d + 1) sub (Nat.zero_lt_succ d) hsub
          have hfirst' : firstUnpublished (refresh e k sub) = some (n, i) := hfirst
          dsimp only
          rw [(publishLoop_silent hrest).1, respond, hfirst']
          exact ⟨rfl, rfl, n, (getElem?_of_firstUnpublished hfirst).1, rfl⟩
      | succ d =>
          rw [hshift d] at hfirst ⊢
          refine ih (r := respond k r (refresh e k first)) hsub hfirst ?_
          intro d' sub' hd' hsub'
          rw [← hshift]
          exact hlast (d' + 1) sub' (Nat.succ_lt_succ hd') hsub'

theorem publishLoop_subs (e : Surroundings) (k : Nat) (r : PublishResponse) (subs : List Subscription) :
    (publishLoop e k r subs).2 = subs.mapIdx (fun d sub => Op.applyAll (roundOps e (k + d) sub) sub) := by
  induction subs generalizing k r with
  | nil => rfl
  | cons sub rest ih =>
      have hshift : (fun d sub => Op.applyAll (roundOps e (k + 1 + d) sub) sub) =
          fun d sub => Op.applyAll (roundOps e (k + (d + 1)) sub) sub := by
        funext d sub
        rw [Nat.add_assoc, Nat.add_comm 1 d]
      rw [publishLoop]
      dsimp only
      rw [ih, hshift, List.mapIdx_cons]
      rfl

theorem publishLoop_carries (e : Surroundings) (k : Nat) (r : PublishResponse) (subs : List Subscription) :
    (publishLoop e k r subs).1 = r ∨ ∃ d sub n i, subs[d]? = some sub ∧
      firstUnpublished (refresh e (k + d) sub) = some (n, i) ∧
      Carries (publishLoop e k r subs).1 (k + d) (refresh e (k + d) sub) i := by
  induction subs generalizing k r with
  | nil => exact .inl rfl
  | cons sub rest ih =>
      rw [publishLoop]
      dsimp only
      rcases ih (k + 1) (respond k r (refresh e k sub)) with heq | ⟨d, later, n, i, hlater, hfirst, hcarries⟩
      · rw [heq, respond]
        cases hfirst : firstUnpublished (refresh e k sub) with
        | none => exact .inl rfl
        | some x =>
            obtain ⟨n, i⟩ := x
            exact .inr ⟨0, sub, n, i, rfl, hfirst, rfl, rfl, n, (getElem?_of_firstUnpublished hfirst).1, rfl⟩
      · have hshift : k + 1 + d = k + (d + 1) := by rw [Nat.add_assoc, Nat.add_comm 1 d]
        rw [hshift] at hfirst hcarries
        exact .inr ⟨d + 1, later, n, i, hlater, hfirst, hcarries⟩

end Loop

section Equivalence

variable {e : Surroundings} {acks : List SubscriptionAcknowledgement} {subs : List Subscription} {k : Nat}
  {sub : Subscription} {n : UnpublishedNotification} {i : Nat}

theorem getElem?_offered : (offered e acks subs)[k]? = some sub ↔
    ∃ before, (acknowledged acks subs)[k]? = some before ∧ refresh e k before = sub := by
  rw [offered, List.getElem?_mapIdx, Option.map_eq_some_iff]

theorem unpublishedNotifications_forceKeepAlive (sub : Subscription) (publishTime : Int) :
    (Op.apply sub (.forceKeepAlive publishTime)).unpublishedNotifications =
      keepAlive sub publishTime :: sub.unpublishedNotifications := by
  simp [Op.apply, generateKeepAlive, insertNotification, keepAlive]

theorem subscriptionID_forceKeepAlive (sub : Subscription) (publishTime : Int) :
    (Op.apply sub (.forceKeepAlive publishTime)).subscriptionID = sub.subscriptionID := by
  simp [Op.apply, generateKeepAlive, insertNotification]

theorem looped_silent (h : ∀ sub ∈ offered e acks subs, firstUnpublished sub = none) :
    looped e acks subs = (initialResponse subs acks, offered e acks subs) := by
  have hnone : ∀ d sub, (acknowledged acks subs)[d]? = some sub → firstUnpublished (refresh e (0 + d) sub) = none := by
    intro d sub hsub
    rw [Nat.zero_add]
    exact h _ (List.mem_of_getElem? (getElem?_offered.mpr ⟨sub, hsub, rfl⟩))
  obtain ⟨hr, hsubs⟩ := publishLoop_silent (r := initialResponse subs acks) hnone
  have hzero : (fun d => refresh e (0 + d)) = refresh e := by
    funext d
    rw [Nat.zero_add]
  rw [hzero] at hsubs
  exact Prod.ext hr hsubs

theorem publish_of_some (h : (looped e acks subs).1.source ≠ none) : publish e acks subs = looped e acks subs := by
  have hsome : ¬ (looped e acks subs).1.source.isNone = true := by simpa using h
  exact if_neg hsome

theorem publish_of_none (h : (looped e acks subs).1.source = none) :
    publish e acks subs = publishKeepAlive e (looped e acks subs).1 (looped e acks subs).2 := by
  have hnone : (looped e acks subs).1.source.isNone = true := Option.isNone_iff_eq_none.mpr h
  exact if_pos hnone

theorem Delivers.unique (h : Delivers e acks subs) {k' : Nat} {sub' : Subscription} {j j' : Nat}
    (htaken : Taken e acks subs k sub j) (htaken' : Taken e acks subs k' sub' j') : k = k' ∧ j = j' := by
  have hsource := (h k sub j htaken).source
  rw [(h k' sub' j' htaken').source] at hsource
  cases hsource
  exact ⟨rfl, rfl⟩

theorem taken_first (hsub : (offered e acks subs)[k]? = some sub) (hfirst : firstUnpublished sub = some (n, i)) :
    Taken e acks subs k sub i := by
  obtain ⟨before, hbefore, rfl⟩ := getElem?_offered.mp hsub
  exact .round hbefore (publish_mem_takeOps hfirst) rfl

theorem alone_of_delivers (h : Delivers e acks subs) : Alone e acks subs where
  single k k' sub sub' hsub hsub' hfirst hfirst' := by
    obtain ⟨⟨n, i⟩, hn⟩ := Option.ne_none_iff_exists'.mp hfirst
    obtain ⟨⟨n', i'⟩, hn'⟩ := Option.ne_none_iff_exists'.mp hfirst'
    exact (h.unique (taken_first hsub hn) (taken_first hsub' hn')).1
  keepAlive sub hsub n i hfirst hkeep j n' hn' hnumber := by
    obtain ⟨k, hk⟩ := List.mem_iff_getElem?.mp hsub
    have htaken : Taken e acks subs k sub j := by
      obtain ⟨before, hbefore, rfl⟩ := getElem?_offered.mp hk
      exact .round hbefore (delete_mem_takeOps hfirst hkeep) ⟨n', hn', hnumber⟩
    exact (h.unique htaken (taken_first hk hfirst)).2
  forced hsilent sub hsub n hn hnumber := by
    have hlooped := looped_silent hsilent
    have hnone : (looped e acks subs).1.source = none := by rw [hlooped]; rfl
    obtain ⟨rest, hrest⟩ : ∃ rest, (looped e acks subs).2 = sub :: rest := by
      rw [hlooped]
      cases hall : offered e acks subs with
      | nil =>
          rw [hall] at hsub
          cases hsub
      | cons first rest =>
          rw [hall] at hsub
          cases hsub
          exact ⟨rest, rfl⟩
    obtain ⟨j, hj⟩ := List.mem_iff_getElem?.mp hn
    have hnew : Takes (Op.apply sub (.forceKeepAlive e.keepAliveTime)) 0 (.delete (sub.sequenceNumber + 1)) := by
      refine ⟨keepAlive sub e.keepAliveTime, ?_, rfl⟩
      rw [unpublishedNotifications_forceKeepAlive]
      rfl
    have hold : Takes (Op.apply sub (.forceKeepAlive e.keepAliveTime)) (j + 1)
        (.delete (sub.sequenceNumber + 1)) := by
      refine ⟨n, ?_, hnumber⟩
      rw [unpublishedNotifications_forceKeepAlive]
      exact hj
    have hsame := (h.unique (.keepAlive hnone hrest hnew) (.keepAlive hnone hrest hold)).2
    cases hsame

theorem Alone.carries (h : Alone e acks subs) (hsub : (offered e acks subs)[k]? = some sub)
    (hfirst : firstUnpublished sub = some (n, i)) : Carries (looped e acks subs).1 k sub i := by
  obtain ⟨before, hbefore, rfl⟩ := getElem?_offered.mp hsub
  have hlast : ∀ d' sub', k < d' → (acknowledged acks subs)[d']? = some sub' →
      firstUnpublished (refresh e (0 + d') sub') = none := by
    intro d' sub' hd' hsub'
    rw [Nat.zero_add]
    by_contra hsome
    have hsame := h.single k d' _ _ hsub (getElem?_offered.mpr ⟨sub', hsub', rfl⟩) (by rw [hfirst]; nofun) hsome
    omega
  have hcarries := publishLoop_last (e := e) (k := 0) (r := initialResponse subs acks) hbefore
    (by rw [Nat.zero_add]; exact hfirst) hlast
  rw [Nat.zero_add] at hcarries
  exact hcarries

theorem delivers_of_alone (h : Alone e acks subs) : Delivers e acks subs := by
  intro k sub j htaken
  cases htaken with
  | @round _ before op _ hbefore hop htakes =>
      obtain ⟨n, i, hfirst, hplace⟩ := takes_of_mem hop htakes
      have hsub : (offered e acks subs)[k]? = some (refresh e k before) := getElem?_offered.mpr ⟨before, hbefore, rfl⟩
      have hcarries := h.carries hsub hfirst
      have hj : j = i := by
        rcases hplace with hj | ⟨hkeep, n', hn', hnumber⟩
        · exact hj
        · exact h.keepAlive _ (List.mem_of_getElem? hsub) n i hfirst hkeep j n' hn' hnumber
      rw [publish_of_some (by rw [hcarries.source]; nofun), hj]
      exact hcarries
  | @keepAlive sub rest _ hnone hrest htakes =>
      have hsilent : ∀ sub ∈ offered e acks subs, firstUnpublished sub = none := by
        intro sub hsub
        by_contra hsome
        obtain ⟨⟨n, i⟩, hfirst⟩ := Option.ne_none_iff_exists'.mp hsome
        obtain ⟨k, hk⟩ := List.mem_iff_getElem?.mp hsub
        have hsource := (h.carries hk hfirst).source
        rw [hnone] at hsource
        cases hsource
      have hsub : (offered e acks subs)[0]? = some sub := by
        have hsubs : (looped e acks subs).2 = offered e acks subs := by rw [looped_silent hsilent]
        rw [← hsubs, hrest]
        rfl
      obtain ⟨n, hn, hnumber⟩ := htakes
      rw [unpublishedNotifications_forceKeepAlive] at hn
      rw [publish_of_none hnone, hrest, publishKeepAlive, respondKeepAlive, unpublishedNotifications_forceKeepAlive]
      cases j with
      | zero =>
          refine ⟨rfl, (subscriptionID_forceKeepAlive sub e.keepAliveTime).symm, keepAlive sub e.keepAliveTime, ?_, rfl⟩
          rw [unpublishedNotifications_forceKeepAlive]
          rfl
      | succ j => exact absurd hnumber (h.forced hsilent sub hsub n (List.mem_of_getElem? hn))

theorem publish_delivers_iff (e : Surroundings) (acks : List SubscriptionAcknowledgement) (subs : List Subscription) :
    Delivers e acks subs ↔ Alone e acks subs := ⟨alone_of_delivers, delivers_of_alone⟩

end Equivalence

section Example

def emptySpace : AddressSpaces.AddressSpace := ⟨[], .nil⟩

def quietSampling : Sampling :=
  ⟨0, 0, emptySpace, AttributeReads.sampleOutside, [], fun _ => 0⟩

/-- The clock has been running for a while, and nothing is sampled. -/
def quiet : Surroundings := ⟨fun _ _ => quietSampling, fun _ => ⟨5000000, 5000000, fun _ _ => 0⟩, 5000000⟩

def numberNode (x : UInt32) : AddressSpaces.Node :=
  SubTypes.plainNode (NodeIds.numericId 1 1)
    (.variable ⟨⟨0xFFFFFFFF, .variant (AttributeReads.int32Variant x) none none⟩, 3, 3, 0, 0⟩)

def numberSpace (x : UInt32) : AddressSpaces.AddressSpace := ⟨[numberNode x], List.pairwise_singleton _ _⟩

/-- The variable has the value `x`. -/
def showing (x : UInt32) (now : Int) : Surroundings :=
  ⟨fun _ _ => { quietSampling with now := now, sampledAt := now, space := numberSpace x },
    fun _ => ⟨now, now, fun _ _ => 0⟩, now⟩

def sampleItem : ItemParameters := ⟨13, 1, 0x406F400000000000, 1, true⟩

def numberItem : MonitoredItem := newMonitoredItem 8 (numericId 1 1) sampleItem

/-- The calls that add an item for the variable. -/
theorem callsMeet_createItem {C : Subscription → Op → Prop} {s : State} {i : Nat} {id : UInt32}
    (h : ∀ sub itemId, C sub (.addItem itemId (numericId 1 1) sampleItem)) :
    CallsMeet C s (.createMonitoredItems i (numberSpace 1) id [(numericId 1 1, sampleItem)]) := by
  rintro call ⟨m, _, sub, _, hcall⟩
  have hop := mem_of_mem_calls hcall
  have hops : itemOps (numberSpace 1) m.lastSessionID [(numericId 1 1, sampleItem)] =
      [.addItem (m.lastSessionID + 1) (numericId 1 1) sampleItem] := rfl
  rw [hops] at hop
  rw [List.mem_singleton.mp hop]
  exact h call.1 (m.lastSessionID + 1)

/-- The calls of a round in which one timer is due. -/
theorem callsMeet_tick {C : Subscription → Op → Prop} {s : State} {now : Int} {e : Surroundings} {guid : Guid}
    {address : Nat} (hdue : Timers.dueJobs now s.repeatedJobs = [⟨guid, .timedUpdateNotifications address⟩])
    (h : ∀ sub ∈ s.subscriptions, C sub (.sample (e.sampling 0)) ∧
      C (Op.apply sub (.sample (e.sampling 0))) (.update (e.cycle 0))) : CallsMeet C s (.tick now e) := by
  intro call hcall
  rw [stepCalls, hdue] at hcall
  obtain ⟨sub, hsub, _, hcall⟩ | hcall := hcall
  · rw [callsOn, jobOps, timedOps, Set.mem_ofPred_eq] at hcall
    split at hcall
    · cases hcall
    · rcases List.mem_pair.mp hcall with rfl | rfl
      · exact (h sub hsub).1
      · exact (h sub hsub).2
  · cases hcall

def eagerParameters : Parameters := { sampleParameters with maxKeepAliveCount := 0 }

/-- Two subscriptions of one session have waited for one cycle. -/
def twoWaiting : State :=
  run emptyState
    [.createSession (some 0) 6 (sampleGuid 0), .createSubscription 0 (some 1) ⟨0, sampleGuid 1⟩ true eagerParameters,
      .createSubscription 0 (some 2) ⟨0, sampleGuid 2⟩ true eagerParameters, .tick 5000000 quiet]

/-- Both keep-alives are taken, and one of them is in the response. -/
theorem keepAlive_not_delivered : ¬ Delivers quiet [] twoWaiting.subscriptions := by
  intro h
  have hfirst : ((offered quiet [] twoWaiting.subscriptions)[0]?.bind firstUnpublished).isSome = true := by
    decide +kernel
  have hsecond : ((offered quiet [] twoWaiting.subscriptions)[1]?.bind firstUnpublished).isSome = true := by
    decide +kernel
  obtain ⟨_, hx⟩ := Option.isSome_iff_exists.mp hfirst
  obtain ⟨_, hy⟩ := Option.isSome_iff_exists.mp hsecond
  obtain ⟨sub, hsub, hx⟩ := Option.bind_eq_some_iff.mp hx
  obtain ⟨sub', hsub', hy⟩ := Option.bind_eq_some_iff.mp hy
  have hsame := (alone_of_delivers h).single 0 1 sub sub' hsub hsub' (by rw [hx]; nofun) (by rw [hy]; nofun)
  cases hsame

end Example

end OpcUa.Publishing
