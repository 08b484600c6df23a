import OpcUa.SubscriptionRuns

namespace OpcUa.SubscriptionJobs

open NodeIds MonitoredItems Subscriptions SubscriptionServices SubscriptionRuns Timers

section Handles

/-- What the timer and a subscription know of each other. -/
structure Handle where
  address : Nat
  guid : Guid
  registered : Bool

def handle (sub : Subscription) : Handle := ⟨sub.address, sub.timedUpdateJobGuid, sub.timedUpdateIsRegistered⟩

def IsUpdate (j : IdentifiedJob Guid Job) : Prop := ∃ a, j.job = .timedUpdateNotifications a

def Apart (j j' : IdentifiedJob Guid Job) : Prop := IsUpdate j ∨ IsUpdate j' → j.id ≠ j'.id

theorem Apart.symm {j j' : IdentifiedJob Guid Job} (h : Apart j j') : Apart j' j := fun hupdate => (h hupdate.symm).symm

/-- Every update job is the job of a subscription and has the id that the
subscription stores. No other job has this id. -/
structure Matches (handles : List Handle) (jobs : List (IdentifiedJob Guid Job)) : Prop where
  addresses : (handles.map (·.address)).Nodup
  stored : ∀ j ∈ jobs, ∀ a, j.job = .timedUpdateNotifications a →
    ∃ x ∈ handles, x.address = a ∧ x.guid = j.id ∧ x.registered = true
  apart : jobs.Pairwise Apart

variable {handles handles' : List Handle} {jobs jobs' : List (IdentifiedJob Guid Job)} {x : Handle} {a : Nat}
  {guid : Guid}

theorem Matches.perm (h : Matches handles jobs) (hhandles : handles.Perm handles') (hjobs : jobs.Perm jobs') :
    Matches handles' jobs' where
  addresses := (hhandles.map _).nodup_iff.mp h.addresses
  stored j hj a ha := by
    obtain ⟨x, hx, hstored⟩ := h.stored j (hjobs.mem_iff.mpr hj) a ha
    exact ⟨x, hhandles.mem_iff.mp hx, hstored⟩
  apart := (hjobs.pairwise_iff Apart.symm).mp h.apart

theorem Matches.create (h : Matches handles jobs) (hx : x.address ∉ handles.map (·.address)) :
    Matches (x :: handles) jobs where
  addresses := List.nodup_cons.mpr ⟨hx, h.addresses⟩
  stored j hj a ha := by
    obtain ⟨y, hy, hstored⟩ := h.stored j hj a ha
    exact ⟨y, List.mem_cons_of_mem x hy, hstored⟩
  apart := h.apart

theorem Matches.not_stored (h : Matches (x :: handles) jobs) (hx : x.registered = false) :
    ∀ j ∈ jobs, j.job ≠ .timedUpdateNotifications x.address := by
  intro j hj hjob
  obtain ⟨y, hy, haddress, _, hregistered⟩ := h.stored j hj x.address hjob
  rcases List.mem_cons.mp hy with rfl | hy
  · rw [hx] at hregistered
    cases hregistered
  · exact (List.nodup_cons.mp h.addresses).1 (List.mem_map.mpr ⟨y, hy, haddress⟩)

theorem Matches.register (h : Matches (x :: handles) jobs) (hx : x.registered = false)
    (hguid : ∀ j ∈ jobs, j.id ≠ guid) :
    Matches (⟨x.address, guid, true⟩ :: handles) (⟨guid, .timedUpdateNotifications x.address⟩ :: jobs) where
  addresses := h.addresses
  stored j hj a ha := by
    rcases List.mem_cons.mp hj with rfl | hold
    · cases ha
      exact ⟨_, List.mem_cons_self, rfl, rfl, rfl⟩
    · obtain ⟨y, hy, haddress, hstored⟩ := h.stored j hold a ha
      rcases List.mem_cons.mp hy with rfl | hy
      · exact absurd (haddress ▸ ha) (h.not_stored hx j hold)
      · exact ⟨y, List.mem_cons_of_mem _ hy, haddress, hstored⟩
  apart := List.pairwise_cons.mpr ⟨fun j hj _ => (hguid j hj).symm, h.apart⟩

/-- The removal by the stored id takes the job of the deleted subscription,
if there is one. -/
theorem Matches.delete {timer : Timer Guid Job} (h : Matches (x :: handles) (allJobs timer)) :
    Matches handles (allJobs (removeRepeatedJob x.guid timer)) where
  addresses := (List.nodup_cons.mp h.addresses).2
  stored j hj a ha := by
    have hmem := mem_of_removeRepeatedJob hj
    obtain ⟨y, hy, haddress, hguid, hregistered⟩ := h.stored j hmem a ha
    rcases List.mem_cons.mp hy with rfl | hy
    · obtain ⟨removed, hremoved, hperm⟩ := perm_removeRepeatedJob ⟨j, hmem, hguid.symm⟩
      have hapart := List.rel_of_pairwise_cons ((hperm.pairwise_iff Apart.symm).mp h.apart) hj
      exact absurd (hremoved.trans hguid) (hapart (.inr ⟨a, ha⟩))
    · exact ⟨y, hy, haddress, hguid, hregistered⟩
  apart := by
    by_cases hsome : ∃ j ∈ allJobs timer, j.id = x.guid
    · obtain ⟨removed, _, hperm⟩ := perm_removeRepeatedJob hsome
      exact (List.pairwise_cons.mp ((hperm.pairwise_iff Apart.symm).mp h.apart)).2
    · rw [removeRepeatedJob_absent (fun j hj hid => hsome ⟨j, hj, hid⟩)]
      exact h.apart

theorem Matches.deleteAll {timer : Timer Guid Job} {deleted : List Handle}
    (h : Matches (deleted ++ handles) (allJobs timer)) :
    Matches handles (allJobs (deleted.foldl (fun timer x => removeRepeatedJob x.guid timer) timer)) := by
  induction deleted generalizing timer with
  | nil => exact h
  | cons x deleted ih => exact ih h.delete

theorem Matches.countP_le_one (h : Matches handles jobs) (a : Nat) :
    jobs.countP (fun j => j.job = .timedUpdateNotifications a) ≤ 1 := by
  have hsame : ∀ j ∈ jobs, ∀ j' ∈ jobs, j.job = .timedUpdateNotifications a → j'.job = .timedUpdateNotifications a →
      j.id = j'.id := by
    intro j hj j' hj' hjob hjob'
    obtain ⟨x, hx, haddress, hguid, _⟩ := h.stored j hj a hjob
    obtain ⟨x', hx', haddress', hguid', _⟩ := h.stored j' hj' a hjob'
    have hxx : x = x' := List.inj_on_of_nodup_map h.addresses hx hx' (haddress.trans haddress'.symm)
    rw [← hguid, ← hguid', hxx]
  have hapart := h.apart
  clear h
  induction jobs with
  | nil => exact Nat.zero_le 1
  | cons j jobs ih =>
      obtain ⟨hj, hjobs⟩ := List.pairwise_cons.mp hapart
      have hrest := ih (fun y hy y' hy' => hsame y (List.mem_cons_of_mem j hy) y' (List.mem_cons_of_mem j hy')) hjobs
      by_cases hjob : j.job = .timedUpdateNotifications a
      · have hzero : jobs.countP (fun j => j.job = .timedUpdateNotifications a) = 0 := by
          rw [List.countP_eq_zero]
          intro j' hj' hjob'
          have hjob' := of_decide_eq_true hjob'
          exact hj j' hj' (.inl ⟨a, hjob⟩) (hsame j List.mem_cons_self j' (List.mem_cons_of_mem j hj') hjob hjob')
        simp [hjob, hzero]
      · simpa [hjob] using hrest

end Handles

section Operations

variable {op : Op} {sub : Subscription} {s : State} {e : Surroundings}

def isRegister : Op → Bool
  | .register _ => true
  | _ => false

theorem handle_generateKeepAlive (sub : Subscription) (publishTime : Int) :
    handle (generateKeepAlive sub publishTime) = handle sub := by
  rw [generateKeepAlive]
  split <;> rfl

theorem handle_makeRoom (sub : Subscription) : handle (makeRoom sub) = handle sub := by
  rw [makeRoom]
  split <;> rfl

theorem handle_updateNotifications (sub : Subscription) (c : Cycle) :
    handle (updateNotifications sub c) = handle sub := by
  rw [updateNotifications]
  split
  · rfl
  · split
    · exact handle_makeRoom sub
    · rw [idleCycle]
      split
      · rw [handle_generateKeepAlive]
        exact handle_makeRoom sub
      · exact handle_makeRoom sub

theorem handle_apply (h : isRegister op = false) (sub : Subscription) : handle (Op.apply sub op) = handle sub := by
  cases op with
  | update c => exact handle_updateNotifications sub c
  | forceKeepAlive publishTime => exact handle_generateKeepAlive _ publishTime
  | register guid => cases h
  | _ => rfl

def Plain (ops : Subscription → List Op) : Prop := ∀ sub, ∀ op ∈ ops sub, isRegister op = false

theorem mem_of_mem_calls {ops : List Op} {call : Subscription × Op} (h : call ∈ Op.calls ops sub) : call.2 ∈ ops := by
  induction ops generalizing sub with
  | nil => cases h
  | cons op ops ih =>
      rcases List.mem_cons.mp h with rfl | h
      · exact List.mem_cons_self
      · exact List.mem_cons_of_mem op (ih h)

theorem plain_callsOn {ops : Subscription → List Op} (h : Plain ops) {call : Subscription × Op}
    (hcall : call ∈ callsOn ops sub) : isRegister call.2 = false := h sub call.2 (mem_of_mem_calls hcall)

theorem plain_callsByID {ops : Subscription → List Op} (h : Plain ops) {id : UInt32} {subs : List Subscription}
    {call : Subscription × Op} (hcall : call ∈ callsByID id ops subs) : isRegister call.2 = false := by
  obtain ⟨sub, _, hcall⟩ := hcall
  exact plain_callsOn h hcall

theorem plain_acknowledgementOps (a : SubscriptionAcknowledgement) : Plain (acknowledgementOps a) := by
  simp [Plain, acknowledgementOps, isRegister]

theorem plain_roundOps (k : Nat) : Plain (roundOps e k) := by
  intro sub op hop
  rcases List.mem_append.mp hop with hop | hop
  · rw [forcedOps] at hop
    split at hop
    · cases hop
    · rcases List.mem_pair.mp hop with rfl | rfl <;> rfl
  · rw [takeOps] at hop
    cases hfirst : firstUnpublished (refresh e k sub) with
    | none =>
        rw [hfirst] at hop
        cases hop
    | some x =>
        rw [hfirst] at hop
        dsimp only at hop
        split at hop
        · rcases List.mem_pair.mp hop with rfl | rfl <;> rfl
        · cases List.mem_singleton.mp hop
          rfl

theorem plain_forcedKeepAliveOps : Plain (forcedKeepAliveOps e) := by
  simp [Plain, forcedKeepAliveOps, isRegister]

theorem plain_removeItemOps (itemIds : List UInt32) : Plain (removeItemOps itemIds) := by
  simp [Plain, removeItemOps, isRegister]

theorem plain_republishOps (retransmitSequenceNumber : UInt32) : Plain (republishOps retransmitSequenceNumber) := by
  intro sub op hop
  rw [republishOps] at hop
  split at hop
  · cases hop
  · cases List.mem_singleton.mp hop
    rfl

theorem plain_jobOps (k : Nat) : Plain (jobOps e k) := by
  intro sub op hop
  rw [jobOps, timedOps] at hop
  split at hop
  · cases hop
  · rcases List.mem_pair.mp hop with rfl | rfl <;> rfl

theorem plain_itemOps (space : AddressSpaces.AddressSpace) (last : UInt32) (items : List (NodeId × ItemParameters)) :
    ∀ op ∈ itemOps space last items, isRegister op = false := by
  induction items generalizing last with
  | nil =>
      intro op hop
      cases hop
  | cons item items ih =>
      intro op hop
      rw [itemOps] at hop
      split at hop
      · exact ih last op hop
      · rcases List.mem_cons.mp hop with rfl | hop
        · rfl
        · exact ih (last + 1) op hop

theorem plain_acknowledgementCalls {acks : List SubscriptionAcknowledgement} {subs : List Subscription}
    {call : Subscription × Op} (h : call ∈ acknowledgementCalls subs acks) : isRegister call.2 = false := by
  induction acks generalizing subs with
  | nil => cases h
  | cons a acks ih =>
      rcases h with h | h
      · exact plain_callsByID (plain_acknowledgementOps a) h
      · exact ih h

theorem plain_loopCalls {k : Nat} {subs : List Subscription} {call : Subscription × Op}
    (h : call ∈ loopCalls e k subs) : isRegister call.2 = false := by
  induction subs generalizing k with
  | nil => cases h
  | cons sub rest ih =>
      rcases h with h | h
      · exact plain_callsOn (plain_roundOps k) h
      · exact ih h

theorem plain_publishCalls {acks : List SubscriptionAcknowledgement} {subs : List Subscription}
    {call : Subscription × Op} (h : call ∈ publishCalls e acks subs) : isRegister call.2 = false := by
  rcases h with (h | h) | h
  · exact plain_acknowledgementCalls h
  · exact plain_loopCalls h
  · split at h
    · cases hsubs : (publishLoop e 0 (initialResponse subs acks) (acks.foldl acknowledge subs)).2 with
      | nil =>
          rw [hsubs] at h
          cases h
      | cons sub rest =>
          rw [hsubs] at h
          exact plain_callsOn plain_forcedKeepAliveOps h
    · cases h

theorem plain_jobsCalls {k : Nat} {jobs : List (IdentifiedJob Guid Job)} {call : Subscription × Op}
    (h : call ∈ jobsCalls e k s jobs) : isRegister call.2 = false := by
  induction jobs generalizing k s with
  | nil => cases h
  | cons j jobs ih =>
      rcases h with h | h
      · cases hjob : j.job with
        | other method =>
            rw [hjob] at h
            cases h
        | timedUpdateNotifications a =>
            rw [hjob] at h
            obtain ⟨sub, _, _, h⟩ := h
            exact plain_callsOn (plain_jobOps k) h
      · exact ih h

/-- Only `Service_ModifySubscription` registers the job of a subscription
that exists already. -/
theorem plain_stepCalls {event : Event} (hevent : ∀ i e id p, event ≠ .modifySubscription i e id p)
    {call : Subscription × Op} (h : call ∈ stepCalls s event) : isRegister call.2 = false := by
  cases event with
  | modifySubscription i e id p => exact absurd rfl (hevent i e id p)
  | createMonitoredItems i space id items =>
      obtain ⟨m, _, h⟩ := h
      exact plain_callsByID (fun _ => plain_itemOps space m.lastSessionID items) h
  | deleteMonitoredItems i id itemIds =>
      obtain ⟨m, _, h⟩ := h
      exact plain_callsByID (plain_removeItemOps itemIds) h
  | publish i e acks =>
      obtain ⟨m, _, h⟩ := h
      exact plain_publishCalls h
  | republish i id retransmitSequenceNumber =>
      obtain ⟨m, _, h⟩ := h
      exact plain_callsByID (plain_republishOps retransmitSequenceNumber) h
  | tick current e => exact plain_jobsCalls h
  | createSession | closeSession | createSubscription | deleteSubscriptions => cases h

theorem handles_step {event : Event} (hkeeps : event.keeps = true)
    (hevent : ∀ i e id p, event ≠ .modifySubscription i e id p) :
    (step s event).subscriptions.map handle = s.subscriptions.map handle := by
  have hsame : List.Forall₂ (· = ·) (s.subscriptions.map handle) ((step s event).subscriptions.map handle) := by
    rw [List.forall₂_map_left_iff, List.forall₂_map_right_iff]
    refine (evolveAll_step hkeeps).imp (fun sub sub' hevolves => ?_)
    refine hevolves.invariant (P := fun x => handle sub = handle x) ?_ rfl
    intro call hcall heq
    rw [handle_apply (plain_stepCalls hevent hcall), heq]
  rw [List.forall₂_eq_eq_eq] at hsame
  exact hsame.symm

end Operations

section Steps

variable {s : State} {i : Nat}

def Inv (s : State) : Prop := Matches (s.subscriptions.map handle) (allJobs s.repeatedJobs)

def Unused (s : State) (guid : Guid) : Prop := ∀ j ∈ allJobs s.repeatedJobs, j.id ≠ guid

/-- The subscription that a request of the session names. -/
def named (s : State) (i : Nat) (id : UInt32) : Option Subscription :=
  (s.managerOf i).bind (fun m => getSubscriptionByID m.serverSubscriptions id)

def wantsJob (p : Parameters) : Prop := 5 < revisedPublishingInterval p.publishingInterval

/-- A subscription is not registered again while it is registered, and the id
that is drawn for a job is new. -/
def RegistersOnce (s : State) : Event → Prop
  | .createSubscription _ _ e _ p => wantsJob p → Unused s e.guid
  | .modifySubscription i e id p =>
      wantsJob p → Unused s e.guid ∧ ∀ sub, named s i id = some sub → sub.timedUpdateIsRegistered = false
  | _ => True

theorem wantsJob_of_registers {sub : Subscription} {p : Parameters} (h : registers (revise sub p) = true) :
    wantsJob p := by
  rw [registers, Bool.and_eq_true, decide_eq_true_eq] at h
  exact h.1

theorem matches_register {sub : Subscription} {handles : List Handle} {timer : Timer Guid Job} {e : Registration}
    (h : Matches (handle sub :: handles) (allJobs timer))
    (hregisters : registers sub = true →
      sub.timedUpdateIsRegistered = false ∧ ∀ j ∈ allJobs timer, j.id ≠ e.guid) :
    Matches (handle (Op.applyAll (registerOps e sub) sub) :: handles) (allJobs (registerUpdateJob e sub timer)) := by
  by_cases hr : registers sub = true
  · obtain ⟨hfree, hunused⟩ := hregisters hr
    rw [registerOps, registerUpdateJob, if_pos hr, if_pos hr]
    exact (h.register hfree hunused).perm (.refl _) (perm_addRepeatedJob _ _ timer).symm
  · rw [registerOps, registerUpdateJob, if_neg hr, if_neg hr]
    exact h

theorem inv_createSubscription {address : Option Nat} {e : Registration} {publishingEnabled : Bool} {p : Parameters}
    (h : Inv s) (hunused : wantsJob p → Unused s e.guid) :
    Inv (createSubscription s i address e publishingEnabled p) := by
  rcases subscriptions_createSubscription s i address e publishingEnabled p with
    ⟨hsubs, hjobs⟩ | ⟨a, id, guid, front, back, ha, hsubs, hcreated, hjobs⟩
  · rw [Inv, hsubs, hjobs]
    exact h
  · let new := newSubscription a id guid publishingEnabled p
    have hfresh : a ∉ (s.subscriptions.map handle).map (·.address) := by
      rw [List.map_map, List.mem_map]
      rintro ⟨sub, hsub, haddress⟩
      exact address_ne_of_allocated ha sub hsub haddress
    have hnew : Matches (handle new :: s.subscriptions.map handle) (allJobs s.repeatedJobs) := h.create hfresh
    have hregistered := matches_register hnew (e := e)
      (fun hr => ⟨rfl, hunused (wantsJob_of_registers hr)⟩)
    rw [Inv, hcreated, hjobs]
    refine hregistered.perm ?_ (.refl _)
    rw [hsubs, List.map_append, List.map_append, List.map_cons]
    exact List.perm_middle.symm

theorem named_some {id : UInt32} {sub : Subscription} (h : named s i id = some sub) : ∃ front back,
    s.subscriptions = front ++ sub :: back ∧
      (s.modifySubscriptions i (fun subs => subs.eraseP (·.subscriptionID == id))).subscriptions = front ++ back ∧
      ∀ ops, (s.modifySubscriptions i (callByID id ops)).subscriptions =
        front ++ Op.applyAll (ops sub) sub :: back := by
  obtain ⟨m, hm, hfind⟩ := Option.bind_eq_some_iff.mp h
  obtain ⟨front, back, hsubs, _, hmodify⟩ := managerOf_some hm
  obtain ⟨front', back', hserver, herase, hfirst⟩ := modifyFirst_some hfind
  refine ⟨front ++ front', back' ++ back, ?_, ?_, ?_⟩
  · rw [hsubs, hserver]
    simp
  · rw [State.modifySubscriptions, hmodify]
    dsimp only
    rw [herase]
    simp
  · intro ops
    rw [State.modifySubscriptions, hmodify]
    dsimp only
    rw [callByID, hfirst]
    simp

theorem inv_modifySubscription {e : Registration} {id : UInt32} {p : Parameters} (h : Inv s)
    (hcondition : RegistersOnce s (.modifySubscription i e id p)) : Inv (modifySubscription s i e id p) := by
  rw [modifySubscription]
  cases hnamed : named s i id with
  | none =>
      rw [named] at hnamed
      rw [hnamed]
      exact h
  | some sub =>
      obtain ⟨front, back, hsubs, _, hmodified⟩ := named_some hnamed
      have hfirst : Matches (handle (revise sub p) :: (front ++ back).map handle) (allJobs s.repeatedJobs) := by
        refine h.perm ?_ (.refl _)
        rw [hsubs, List.map_append, List.map_append, List.map_cons]
        exact List.perm_middle
      have hregistered := matches_register hfirst (e := e) (by
        intro hr
        obtain ⟨hunused, hfree⟩ := hcondition (wantsJob_of_registers hr)
        exact ⟨hfree sub hnamed, hunused⟩)
      rw [named] at hnamed
      rw [hnamed]
      refine hregistered.perm ?_ (.refl _)
      change List.Perm _ ((s.modifySubscriptions i (callByID id (modifyOps e p))).subscriptions.map handle)
      rw [hmodified, List.map_append, List.map_append, List.map_cons]
      exact List.perm_middle.symm

theorem inv_deleteSubscription {id : UInt32} (h : Inv s) : Inv (deleteSubscription s i id) := by
  rw [deleteSubscription]
  cases hnamed : named s i id with
  | none =>
      rw [named] at hnamed
      rw [hnamed]
      exact h
  | some sub =>
      obtain ⟨front, back, hsubs, herased, _⟩ := named_some hnamed
      have hfirst : Matches (handle sub :: (front ++ back).map handle) (allJobs s.repeatedJobs) := by
        refine h.perm ?_ (.refl _)
        rw [hsubs, List.map_append, List.map_append, List.map_cons]
        exact List.perm_middle
      rw [named] at hnamed
      rw [hnamed]
      refine hfirst.delete.perm ?_ (.refl _)
      rw [← herased]
      exact .refl _

theorem inv_deleteSubscriptions {ids : List UInt32} (h : Inv s) : Inv (deleteSubscriptions s i ids) := by
  induction ids generalizing s with
  | nil => exact h
  | cons id ids ih => exact ih (inv_deleteSubscription h)

theorem inv_closeSession (h : Inv s) : Inv (closeSession s i) := by
  rw [closeSession]
  cases hm : s.managerOf i with
  | none => exact h
  | some m =>
      obtain ⟨front, back, hsubs, herased, _⟩ := managerOf_some hm
      have hfirst : Matches (m.serverSubscriptions.map handle ++ (front ++ back).map handle)
          (allJobs s.repeatedJobs) := by
        refine h.perm ?_ (.refl _)
        rw [hsubs, List.map_append, List.map_append, List.map_append, List.append_assoc]
        exact List.perm_append_comm_assoc _ _ _
      have hdeleted := hfirst.deleteAll
      rw [List.foldl_map, ← herased] at hdeleted
      exact hdeleted

theorem repeatedJobs_runJob (ops : Subscription → List Op) (s : State) (job : Job) :
    (runJob ops s job).repeatedJobs = s.repeatedJobs := by cases job <;> rfl

theorem repeatedJobs_runJobs (e : Surroundings) (k : Nat) (s : State) (jobs : List (IdentifiedJob Guid Job)) :
    (runJobs e k s jobs).repeatedJobs = s.repeatedJobs := by
  induction jobs generalizing k s with
  | nil => rfl
  | cons j jobs ih => rw [runJobs, ih, repeatedJobs_runJob]

theorem perm_step {event : Event} (hkeeps : event.keeps = true)
    (hevent : ∀ i e id p, event ≠ .modifySubscription i e id p) :
    (allJobs s.repeatedJobs).Perm (allJobs (step s event).repeatedJobs) := by
  cases event with
  | modifySubscription i e id p => exact absurd rfl (hevent i e id p)
  | closeSession | createSubscription | deleteSubscriptions => cases hkeeps
  | createSession address start guid =>
      rw [step, createSession]
      cases s.allocateSession address <;> exact .refl _
  | tick current e =>
      rw [step, tick]
      dsimp only
      rw [repeatedJobs_runJobs]
      exact (perm_reschedule current s.repeatedJobs).symm
  | createMonitoredItems | deleteMonitoredItems | publish | republish => exact .refl _

theorem inv_step {event : Event} (hcondition : RegistersOnce s event) (h : Inv s) : Inv (step s event) := by
  by_cases hmodify : ∃ i e id p, event = .modifySubscription i e id p
  · obtain ⟨i, e, id, p, rfl⟩ := hmodify
    exact inv_modifySubscription h hcondition
  · have hevent : ∀ i e id p, event ≠ .modifySubscription i e id p :=
      fun i e id p heq => hmodify ⟨i, e, id, p, heq⟩
    by_cases hkeeps : event.keeps = true
    · rw [Inv, handles_step hkeeps hevent]
      exact h.perm (.refl _) (perm_step hkeeps hevent)
    · cases event with
      | createSubscription i address e publishingEnabled p => exact inv_createSubscription h hcondition
      | deleteSubscriptions i ids => exact inv_deleteSubscriptions h
      | closeSession i => exact inv_closeSession h
      | _ => exact absurd rfl hkeeps

theorem inv_initial (h : Initial s) : Inv s where
  addresses := by
    rw [h.subscriptions]
    exact List.nodup_nil
  stored j hj a ha := absurd ha (h.2 j hj a)
  apart := by
    refine List.pairwise_of_forall_mem_list (fun j hj j' hj' hupdate => ?_)
    rcases hupdate with ⟨a, ha⟩ | ⟨a, ha⟩
    · exact absurd ha (h.2 j hj a)
    · exact absurd ha (h.2 j' hj' a)

end Steps

section Claim

variable {s : State} {events reached : List Event}

/-- Every update job is the job of a subscription that exists, and no other
job is. What the timer runs is among the jobs. -/
structure JobsMatch (s : State) : Prop where
  exist : ∀ j ∈ allJobs s.repeatedJobs, ∀ a, j.job = .timedUpdateNotifications a →
    ∃ sub ∈ s.subscriptions, sub.address = a
  single : ∀ sub ∈ s.subscriptions,
    (allJobs s.repeatedJobs).countP (fun j => j.job = .timedUpdateNotifications sub.address) ≤ 1
  touched : ∀ current, ∀ j ∈ dueJobs current s.repeatedJobs, ∀ a, j.job = .timedUpdateNotifications a →
    ∃ sub ∈ s.subscriptions, sub.address = a

theorem mem_allJobs_of_due {timer : Timer Guid Job} {current : Int} {j : IdentifiedJob Guid Job}
    (h : j ∈ dueJobs current timer) : j ∈ allJobs timer := by
  cases timer with
  | nil => cases h
  | cons tw rest =>
      rw [dueJobs] at h
      split at h
      · cases h
      · rw [allJobs_cons]
        exact List.mem_append_left _ h

theorem Inv.jobsMatch (h : Inv s) : JobsMatch s := by
  have hexist : ∀ j ∈ allJobs s.repeatedJobs, ∀ a, j.job = .timedUpdateNotifications a →
      ∃ sub ∈ s.subscriptions, sub.address = a := by
    intro j hj a ha
    obtain ⟨x, hx, haddress, _⟩ := h.stored j hj a ha
    obtain ⟨sub, hsub, rfl⟩ := List.mem_map.mp hx
    exact ⟨sub, hsub, haddress⟩
  exact ⟨hexist, fun sub _ => h.countP_le_one sub.address,
    fun current j hj => hexist j (mem_allJobs_of_due hj)⟩

/-- The jobs match in every state that is reached. -/
theorem jobs_match_subscriptions (hinitial : Initial s) (hmeets : MeetsAll RegistersOnce s events)
    (hreached : reached <+: events) : JobsMatch (run s reached) := by
  have hinv : Inv (run s reached) :=
    run_invariant (fun _ _ hcondition h => inv_step hcondition h) (hmeets.take hreached) (inv_initial hinitial)
  exact hinv.jobsMatch

def emptyState : State := ⟨[], []⟩

theorem initial_emptyState : Initial emptyState := ⟨rfl, fun _ hj => absurd hj List.not_mem_nil⟩

def sampleGuid (n : UInt32) : Guid := ⟨n, 0, 0, List.replicate 8 0, rfl⟩

def sampleParameters : Parameters := ⟨0x407F400000000000, 100, 10, 0, 0⟩

def slowerParameters : Parameters := { sampleParameters with publishingInterval := 0x408F400000000000 }

def sampleCreation : List Event :=
  [.createSession (some 0) 6 (sampleGuid 0), .createSubscription 0 (some 1) ⟨0, sampleGuid 1⟩ true sampleParameters]

theorem jobs_match_deleted :
    MeetsAll RegistersOnce emptyState (sampleCreation ++ [.deleteSubscriptions 0 [7]]) ∧
      JobsMatch (run emptyState (sampleCreation ++ [.deleteSubscriptions 0 [7]])) := by
  have hmeets : MeetsAll RegistersOnce emptyState (sampleCreation ++ [.deleteSubscriptions 0 [7]]) :=
    ⟨trivial, fun _ _ hj => absurd hj List.not_mem_nil, trivial, trivial⟩
  exact ⟨hmeets, jobs_match_subscriptions initial_emptyState hmeets (List.prefix_refl _)⟩

/-- The modification overwrites the id of the first job, and the deletion
finds only the second one. -/
theorem jobs_unmatched_modified : Initial emptyState ∧ ¬ JobsMatch (run emptyState
    (sampleCreation ++ [.modifySubscription 0 ⟨1, sampleGuid 2⟩ 7 slowerParameters, .deleteSubscriptions 0 [7]])) := by
  refine ⟨initial_emptyState, fun h => ?_⟩
  have hjobs : (allJobs (run emptyState (sampleCreation ++
      [.modifySubscription 0 ⟨1, sampleGuid 2⟩ 7 slowerParameters, .deleteSubscriptions 0 [7]])).repeatedJobs) =
      [⟨sampleGuid 1, .timedUpdateNotifications 1⟩] := by decide +kernel
  have hsubs : (run emptyState (sampleCreation ++
      [.modifySubscription 0 ⟨1, sampleGuid 2⟩ 7 slowerParameters, .deleteSubscriptions 0 [7]])).subscriptions.length =
      0 := by decide +kernel
  obtain ⟨sub, hsub, _⟩ := h.exist ⟨sampleGuid 1, .timedUpdateNotifications 1⟩ (hjobs ▸ List.mem_singleton_self _) 1 rfl
  rw [List.length_eq_zero_iff.mp hsubs] at hsub
  cases hsub

end Claim

end OpcUa.SubscriptionJobs
