import OpcUa.QueueCounters

namespace OpcUa.NotificationRetention

open MonitoredItems Subscriptions SubscriptionServices SubscriptionRuns SubscriptionJobs Publishing SequenceNumbers
open PublicationOrder QueueCounters
open Timers (dueJobs)

section Operations

variable {event : Event} {sub sub' : Subscription} {n : UnpublishedNotification} {op : Op}

/-- The notification is still there. It may have been published. -/
def Holds (sub : Subscription) (n : UnpublishedNotification) : Prop :=
  ∃ n' ∈ sub.unpublishedNotifications, n'.notification = n.notification

def Acknowledges (event : Event) (id seqNo : UInt32) : Prop :=
  match event with
  | .publish _ _ acks => ⟨id, seqNo⟩ ∈ acks
  | _ => False

def HoldsNoData (sub : Subscription) : Prop := ∀ n ∈ sub.unpublishedNotifications, n.hasData = false

/-- A cycle that finds the list full finds no data in it, and what is deleted
without an acknowledgement is not the number of any data. -/
def SparesData (event : Event) (sub : Subscription) : Op → Prop
  | .update c => cycleDue sub c = true → 10 ≤ sub.unpublishedNotificationsSize → HoldsNoData sub
  | .delete seqNo =>
      Acknowledges event sub.subscriptionID seqNo ∨
        ∀ n ∈ sub.unpublishedNotifications, n.hasData = true → n.number ≠ seqNo
  | _ => True

theorem subscriptionID_makeRoom (sub : Subscription) : (makeRoom sub).subscriptionID = sub.subscriptionID := by
  rw [makeRoom]
  split <;> rfl

theorem subscriptionID_generateKeepAlive (sub : Subscription) (publishTime : Int) :
    (generateKeepAlive sub publishTime).subscriptionID = sub.subscriptionID := by
  rw [generateKeepAlive]
  split <;> rfl

theorem subscriptionID_apply (op : Op) (sub : Subscription) :
    (Op.apply sub op).subscriptionID = sub.subscriptionID := by
  cases op with
  | update c =>
      rw [Op.apply, updateNotifications]
      split
      · rfl
      · split
        · exact subscriptionID_makeRoom sub
        · rw [idleCycle]
          dsimp only
          split
          · exact (subscriptionID_generateKeepAlive _ _).trans (subscriptionID_makeRoom sub)
          · exact subscriptionID_makeRoom sub
  | forceKeepAlive publishTime => exact subscriptionID_generateKeepAlive _ _
  | _ => rfl

theorem holds_of_mem (h : n ∈ sub.unpublishedNotifications) : Holds sub n := ⟨n, h, rfl⟩

theorem hasData_of_same {n' : UnpublishedNotification} (h : n'.notification = n.notification) :
    n'.hasData = n.hasData := by
  rw [UnpublishedNotification.hasData, h]
  rfl

theorem holds_makeRoom (hroom : 10 ≤ sub.unpublishedNotificationsSize → HoldsNoData sub)
    (h : n ∈ sub.unpublishedNotifications) (hdata : n.hasData = true) :
    n ∈ (makeRoom sub).unpublishedNotifications := by
  rw [makeRoom]
  split
  · next hfull =>
    rw [hroom hfull n h] at hdata
    cases hdata
  · exact h

theorem holds_apply (hspares : SparesData event sub op) (h : n ∈ sub.unpublishedNotifications)
    (hdata : n.hasData = true) :
    Holds (Op.apply sub op) n ∨ Acknowledges event sub.subscriptionID n.number := by
  cases op with
  | update c =>
      left
      rcases update_cases sub c with ⟨_, heq⟩ | ⟨hdue, _, heq⟩ | ⟨hdue, _, _, hsame⟩ | ⟨hdue, _, _, hsame⟩
      · rw [Op.apply, heq]
        exact holds_of_mem h
      · rw [Op.apply, heq]
        exact holds_of_mem (List.mem_cons_of_mem _ (holds_makeRoom (hspares hdue) h hdata))
      · rw [Op.apply, Holds, hsame.notifications]
        exact holds_of_mem (holds_makeRoom (hspares hdue) h hdata)
      · rw [Op.apply, Holds, hsame.notifications]
        exact ⟨n, List.mem_cons_of_mem _ (holds_makeRoom (hspares hdue) h hdata), rfl⟩
  | forceKeepAlive publishTime =>
      left
      rw [Holds, (sameQueues_forceKeepAlive sub publishTime).notifications]
      exact ⟨n, List.mem_cons_of_mem _ h, rfl⟩
  | publish i =>
      left
      have hmem : n.notification ∈ (publishNotification sub i).unpublishedNotifications.map (·.notification) := by
        rw [messages_publishNotification]
        exact List.mem_map_of_mem h
      obtain ⟨n', hn', hsame⟩ := List.mem_map.mp hmem
      exact ⟨n', hn', hsame⟩
  | delete seqNo =>
      by_cases hnumber : n.number = seqNo
      · rcases hspares with hacknowledged | hother
        · rw [hnumber]
          exact .inr hacknowledged
        · exact absurd hnumber (hother n h hdata)
      · left
        refine holds_of_mem (List.mem_filter.mpr ⟨h, ?_⟩)
        simp [deletes, hnumber]
  | sample | addItem | removeItem | modify | register => exact .inl (holds_of_mem h)

theorem holds_of_evolves {T : Calls} (hspares : ∀ call ∈ T, SparesData event call.1 call.2) (h : Evolves T sub sub')
    (hn : Holds sub n) (hdata : n.hasData = true) :
    Holds sub' n ∨ Acknowledges event sub.subscriptionID n.number := by
  obtain ⟨ops, rfl, hops⟩ := h
  induction ops generalizing sub with
  | nil => exact .inl hn
  | cons op ops ih =>
      obtain ⟨n', hn', hsame⟩ := hn
      have hnumber : n'.number = n.number := congrArg NotificationMessage.sequenceNumber hsame
      have hfirst := holds_apply (hspares (sub, op) (hops _ List.mem_cons_self)) hn'
        ((hasData_of_same hsame).trans hdata)
      rcases hfirst with ⟨n'', hn'', hsame'⟩ | hacknowledged
      · have hrest := ih ⟨n'', hn'', hsame'.trans hsame⟩ (fun call hcall => hops call (List.mem_cons_of_mem _ hcall))
        rw [subscriptionID_apply] at hrest
        exact hrest
      · rw [hnumber] at hacknowledged
        exact .inr hacknowledged

end Operations

section Steps

variable {s : State} {event : Event} {sub : Subscription} {n : UnpublishedNotification}

def StillHeld (s : State) (event : Event) (sub : Subscription) (n : UnpublishedNotification) : Prop :=
  ∃ sub' ∈ (step s event).subscriptions, sub'.address = sub.address ∧ Holds sub' n

def Deleted (s : State) (event : Event) (sub : Subscription) : Prop :=
  ∀ sub' ∈ (step s event).subscriptions, sub'.address ≠ sub.address

/-- A request of the session of the subscription acknowledges the number. -/
def Acknowledged (s : State) (event : Event) (sub : Subscription) (n : UnpublishedNotification) : Prop :=
  match event with
  | .publish i _ acks =>
      (∃ m, s.managerOf i = some m ∧ sub ∈ m.serverSubscriptions) ∧ ⟨sub.subscriptionID, n.number⟩ ∈ acks
  | _ => False

/-- The limit is reached, and the oldest one alone makes room. -/
def MadeRoom (s : State) (event : Event) (sub : Subscription) (n : UnpublishedNotification) : Prop :=
  10 ≤ sub.unpublishedNotificationsSize ∧ sub.unpublishedNotifications.getLast? = some n ∧
    ∀ other ∈ sub.unpublishedNotifications.dropLast, StillHeld s event sub other

/-- There is a reason why a notification left, if it did. -/
def Accounted (s : State) (event : Event) (sub : Subscription) (n : UnpublishedNotification) : Prop :=
  StillHeld s event sub n ∨ Deleted s event sub ∨ Acknowledged s event sub n ∨ MadeRoom s event sub n

def Spares (s : State) (event : Event) : Prop := CallsMeet (SparesData event) s event

theorem stillHeld_of_mem (hsub : sub ∈ (step s event).subscriptions) (h : n ∈ sub.unpublishedNotifications) :
    StillHeld s event sub n := ⟨sub, hsub, rfl, holds_of_mem h⟩

theorem deleted_of_sublist (hseparate : Separate s) (hsublist : (step s event).subscriptions.Sublist s.subscriptions)
    (hsub : sub ∈ s.subscriptions) (hgone : sub ∉ (step s event).subscriptions) : Deleted s event sub := by
  intro sub' hsub' haddress
  have hsame : sub' = sub := List.inj_on_of_nodup_map hseparate (hsublist.subset hsub') hsub haddress
  rw [hsame] at hsub'
  exact hgone hsub'

theorem accounted_of_evolves {subs' : List Subscription} {T : Calls}
    (hspares : ∀ call ∈ T, SparesData event call.1 call.2)
    {subs : List Subscription} (hevolve : EvolveAll T subs subs') (hkept : subs' ⊆ (step s event).subscriptions)
    (hsub : sub ∈ subs) (h : n ∈ sub.unpublishedNotifications) (hdata : n.hasData = true) :
    StillHeld s event sub n ∨ Acknowledges event sub.subscriptionID n.number := by
  obtain ⟨k, hk⟩ := List.mem_iff_getElem?.mp hsub
  obtain ⟨hlt, hget⟩ := List.getElem?_eq_some_iff.mp hk
  have hlength := hevolve.length_eq
  have hevolves : Evolves T sub subs'[k] := by
    have := List.forall₂_iff_get.mp hevolve
    have hrelated := this.2 k hlt (hlength ▸ hlt)
    rw [List.get_eq_getElem, List.get_eq_getElem, hget] at hrelated
    exact hrelated
  rcases holds_of_evolves hspares hevolves (holds_of_mem h) hdata with hheld | hacknowledged
  · exact .inl ⟨subs'[k], hkept (List.getElem_mem _), Evolves.address hevolves, hheld⟩
  · exact .inr hacknowledged

theorem accounted_publish {i : Nat} {e : Surroundings} {acks : List SubscriptionAcknowledgement}
    (hspares : Spares s (.publish i e acks)) (hsub : sub ∈ s.subscriptions)
    (h : n ∈ sub.unpublishedNotifications) (hdata : n.hasData = true) : Accounted s (.publish i e acks) sub n := by
  cases hm : s.managerOf i with
  | none =>
      left
      refine stillHeld_of_mem ?_ h
      rw [step, servicePublish, State.modifySubscriptions, modifyManager_none hm]
      exact hsub
  | some m =>
      obtain ⟨front, back, hsubs, _, hmodify⟩ := managerOf_some hm
      have hafter : (step s (.publish i e acks)).subscriptions =
          front ++ (publish e acks m.serverSubscriptions).2 ++ back := hmodify _
      rw [hsubs] at hsub
      rcases List.mem_append.mp hsub with hsub | hsub
      · rcases List.mem_append.mp hsub with hsub | hsub
        · left
          refine stillHeld_of_mem ?_ h
          rw [hafter]
          exact List.mem_append_left _ (List.mem_append_left _ hsub)
        · have hcalls : ∀ call ∈ publishCalls e acks m.serverSubscriptions,
              SparesData (.publish i e acks) call.1 call.2 := fun call hcall => hspares call ⟨m, hm, hcall⟩
          have hkept : (publish e acks m.serverSubscriptions).2 ⊆ (step s (.publish i e acks)).subscriptions := by
            rw [hafter]
            exact fun x hx => List.mem_append_left _ (List.mem_append_right _ hx)
          rcases accounted_of_evolves hcalls (evolveAll_publish acks m.serverSubscriptions) hkept hsub h hdata with
            hheld | hacknowledged
          · exact .inl hheld
          · exact .inr (.inr (.inl ⟨⟨m, hm, hsub⟩, hacknowledged⟩))
      · left
        refine stillHeld_of_mem ?_ h
        rw [hafter]
        exact List.mem_append_right _ hsub

theorem accounted_step (hseparate : Separate s) (hspares : Spares s event) (hsub : sub ∈ s.subscriptions)
    (h : n ∈ sub.unpublishedNotifications) (hdata : n.hasData = true) : Accounted s event sub n := by
  have hsublist (hsublist : (step s event).subscriptions.Sublist s.subscriptions) : Accounted s event sub n := by
    by_cases hkept : sub ∈ (step s event).subscriptions
    · exact .inl (stillHeld_of_mem hkept h)
    · exact .inr (.inl (deleted_of_sublist hseparate hsublist hsub hkept))
  cases event with
  | closeSession i => exact hsublist (sublist_closeSession s i)
  | deleteSubscriptions i ids => exact hsublist (sublist_deleteSubscriptions s i ids)
  | createSubscription i address e publishingEnabled p =>
      left
      refine stillHeld_of_mem ?_ h
      rw [step]
      rcases subscriptions_createSubscription s i address e publishingEnabled p with
        ⟨hsame, _⟩ | ⟨a, id, guid, front, back, _, hsubs, hcreated, _⟩
      · rw [hsame]
        exact hsub
      · rw [hcreated]
        rw [hsubs] at hsub
        rcases List.mem_append.mp hsub with hsub | hsub
        · exact List.mem_append_left _ hsub
        · exact List.mem_append_right _ (List.mem_cons_of_mem _ hsub)
  | publish i e acks => exact accounted_publish hspares hsub h hdata
  | createSession | modifySubscription | createMonitoredItems | deleteMonitoredItems | republish | tick =>
      rcases accounted_of_evolves hspares (evolveAll_step rfl) (List.Subset.refl _) hsub h hdata with hheld | hnone
      · exact .inl hheld
      · exact absurd hnone id

end Steps

theorem separate_run {s : State} {events : List Event} (h : Separate s) : Separate (run s events) := by
  induction events generalizing s with
  | nil => exact h
  | cons event events ih => exact ih (separate_step h)

/-- As long as no cycle finds a full list with data in it, data leave only by
acknowledgement or with their subscription. -/
theorem notifications_retained {s : State} {events reached : List Event} {event : Event} (hinitial : Initial s)
    (hmeets : MeetsAll Spares s events) (hreached : reached ++ [event] <+: events) :
    ∀ sub ∈ (run s reached).subscriptions, ∀ n ∈ sub.unpublishedNotifications, n.hasData = true →
      Accounted (run s reached) event sub n := by
  have hseparate : Separate s := by
    rw [Separate, hinitial.subscriptions]
    exact List.nodup_nil
  have hspares : Spares (run s reached) event := (MeetsAll.append_right (hmeets.take hreached)).1
  exact fun sub hsub n hn hdata => accounted_step (separate_run hseparate) hspares hsub hn hdata

section Example

def changingTick (k : Nat) : Event := .tick (5000000 * (k + 1)) (showing (UInt32.ofNat (k + 1)) (5000000 * (k + 1)))

def longBacklog : List Event := watching ++ (List.range 10).map changingTick

/-- The eleventh notification drives out the ten before it. -/
theorem backlog_dropped : Initial emptyState ∧
    ¬ ∀ sub ∈ (run emptyState longBacklog).subscriptions, ∀ n ∈ sub.unpublishedNotifications, n.hasData = true →
      Accounted (run emptyState longBacklog) (changingTick 10) sub n := by
  refine ⟨initial_emptyState, fun h => ?_⟩
  have hbefore : ∃ sub ∈ (run emptyState longBacklog).subscriptions, sub.address = 1 ∧
      ∃ n ∈ sub.unpublishedNotifications, n.hasData = true ∧ n.number = 10 ∧
        ∀ last ∈ sub.unpublishedNotifications.getLast?, last.number = 1 := by decide +kernel
  have hafter : ∀ sub ∈ (step (run emptyState longBacklog) (changingTick 10)).subscriptions,
      ∀ n ∈ sub.unpublishedNotifications, n.number = 11 := by decide +kernel
  have hthere : ∃ sub ∈ (step (run emptyState longBacklog) (changingTick 10)).subscriptions, sub.address = 1 := by
    decide +kernel
  obtain ⟨sub, hsub, haddress, n, hn, hdata, hnumber, hlast⟩ := hbefore
  rcases h sub hsub n hn hdata with ⟨sub', hsub', _, n', hn', hsame⟩ | hdeleted | hacknowledged | ⟨_, holdest, _⟩
  · have heleven := hafter sub' hsub' n' hn'
    rw [UnpublishedNotification.number, hsame] at heleven
    exact absurd (hnumber.symm.trans heleven) (by decide)
  · obtain ⟨sub', hsub', haddress'⟩ := hthere
    exact hdeleted sub' hsub' (haddress'.trans haddress.symm)
  · exact hacknowledged
  · exact absurd (hnumber.symm.trans (hlast n holdest)) (by decide)

theorem spares_tick {s : State} {current : Int} {e : Surroundings} {guid : NodeIds.Guid} {address : Nat}
    (hdue : dueJobs current s.repeatedJobs = [⟨guid, .timedUpdateNotifications address⟩])
    (hroom : ∀ sub ∈ s.subscriptions, (Op.apply sub (.sample (e.sampling 0))).unpublishedNotificationsSize < 10) :
    Spares s (.tick current e) :=
  callsMeet_tick hdue
    (fun sub hsub => ⟨trivial, fun _ hfull => absurd hfull (Nat.not_le.mpr (hroom sub hsub))⟩)

/-- The second change leaves the notification of the first one alone. -/
theorem notifications_retained_two : MeetsAll Spares emptyState (watching ++ [changingTick 0] ++ [changingTick 1]) ∧
    ∀ sub ∈ (run emptyState (watching ++ [changingTick 0])).subscriptions, ∀ n ∈ sub.unpublishedNotifications,
      n.hasData = true → Accounted (run emptyState (watching ++ [changingTick 0])) (changingTick 1) sub n := by
  let s₁ := run emptyState watching
  let s₂ := step s₁ (changingTick 0)
  have hitem : Spares (run emptyState sampleCreation)
      (.createMonitoredItems 0 (numberSpace 1) 7 [(NodeIds.numericId 1 1, sampleItem)]) :=
    callsMeet_createItem (fun _ _ => trivial)
  have hdue₁ : dueJobs 5000000 s₁.repeatedJobs = [⟨sampleGuid 1, .timedUpdateNotifications 1⟩] := by
    decide +kernel
  have hdue₂ : dueJobs 10000000 s₂.repeatedJobs = [⟨sampleGuid 1, .timedUpdateNotifications 1⟩] := by
    decide +kernel
  have hfirst : Spares s₁ (changingTick 0) := spares_tick hdue₁ (by decide +kernel)
  have hsecond : Spares s₂ (changingTick 1) := spares_tick hdue₂ (by decide +kernel)
  have hmeets : MeetsAll Spares emptyState (watching ++ [changingTick 0] ++ [changingTick 1]) :=
    ⟨fun _ h => absurd h (Set.notMem_empty _), fun _ h => absurd h (Set.notMem_empty _), hitem, hfirst, hsecond,
      trivial⟩
  exact ⟨hmeets, notifications_retained initial_emptyState hmeets (List.prefix_refl _)⟩

end Example

end OpcUa.NotificationRetention
