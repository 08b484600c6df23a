import OpcUa.Publishing

namespace OpcUa.SequenceNumbers

open MonitoredItems Subscriptions SubscriptionServices SubscriptionRuns SubscriptionJobs Publishing Timers

section Numbers

variable {sub sub' : Subscription} {n : UnpublishedNotification} {number : UInt32}

theorem lt_succ_of_not_max {x : UInt32} (h : x ≠ 0xFFFFFFFF) : x < x + 1 := by
  rw [UInt32.lt_iff_toNat_lt, UInt32.toNat_add]
  have hmax : x.toNat ≠ 4294967295 := fun heq => h (UInt32.toNat_inj.mp heq)
  have hlt := x.toNat_lt
  simp only [UInt32.toNat_ofNat]
  omega

def Borrowed (sub : Subscription) (number : UInt32) : Prop :=
  ∃ n ∈ sub.unpublishedNotifications, n.hasData = false ∧ n.number = number

/-- The numbers of the notifications that are held are distinct, and those
with data have been counted. -/
structure Numbered (sub : Subscription) : Prop where
  distinct : (getAvailableSequenceNumbers sub).Nodup
  counted : ∀ n ∈ sub.unpublishedNotifications, n.hasData = true → n.number < sub.sequenceNumber

/-- A message gets a number that no keep-alive has borrowed, and the counter
does not wrap around. -/
def FreeNumber (sub : Subscription) : Op → Prop
  | .update c =>
      cycleDue sub c = true →
        (hasQueuedData sub = true →
            sub.sequenceNumber ≠ 0xFFFFFFFF ∧ ¬ Borrowed (makeRoom sub) sub.sequenceNumber) ∧
          (hasQueuedData sub = false → keepAliveDue sub = true →
            sub.sequenceNumber ≠ 0xFFFFFFFF ∧ ¬ Borrowed (makeRoom sub) (sub.sequenceNumber + 1))
  | .forceKeepAlive _ => sub.sequenceNumber ≠ 0xFFFFFFFF ∧ ¬ Borrowed sub (sub.sequenceNumber + 1)
  | _ => True

instance (sub : Subscription) (number : UInt32) : Decidable (Borrowed sub number) :=
  inferInstanceAs (Decidable (∃ _ ∈ _, _))

instance (sub : Subscription) : ∀ op, Decidable (FreeNumber sub op)
  | .update _ => inferInstanceAs (Decidable (_ → _ ∧ _))
  | .forceKeepAlive _ => inferInstanceAs (Decidable (_ ∧ _))
  | .sample _ | .publish _ | .delete _ | .addItem .. | .removeItem _ | .modify _ | .register _ => .isTrue trivial

theorem numbered_of_same (h : SameQueues sub sub') (hn : Numbered sub') : Numbered sub where
  distinct := by
    rw [getAvailableSequenceNumbers, h.notifications]
    exact hn.distinct
  counted := by
    rw [h.notifications, h.sequenceNumber]
    exact hn.counted

theorem Numbered.sublist (h : Numbered sub)
    (hsublist : sub'.unpublishedNotifications.Sublist sub.unpublishedNotifications)
    (hnumber : sub'.sequenceNumber = sub.sequenceNumber) : Numbered sub' where
  distinct := h.distinct.sublist (hsublist.map _)
  counted n hn hdata := hnumber ▸ h.counted n (hsublist.subset hn) hdata

theorem Numbered.makeRoom (h : Numbered sub) : Numbered (makeRoom sub) := by
  refine h.sublist ?_ (sequenceNumber_makeRoom sub)
  rcases makeRoom_cases sub with heq | ⟨hnil, _⟩
  · rw [heq]
  · rw [hnil]
    exact List.nil_sublist _

theorem Numbered.not_mem (h : Numbered sub) (hnumber : sub.sequenceNumber ≤ number) (hfree : ¬ Borrowed sub number) :
    number ∉ getAvailableSequenceNumbers sub := by
  intro hmem
  obtain ⟨n, hn, heq⟩ := List.mem_map.mp hmem
  cases hdata : n.hasData with
  | true =>
      have hless := h.counted n hn hdata
      rw [heq] at hless
      exact absurd hnumber (UInt32.not_le.mpr hless)
  | false => exact hfree ⟨n, hn, hdata, heq⟩

theorem Numbered.keepAlive (h : Numbered sub) (hmax : sub.sequenceNumber ≠ 0xFFFFFFFF)
    (hfree : ¬ Borrowed sub (sub.sequenceNumber + 1)) (publishTime : Int) :
    Numbered (insertNotification sub (Subscriptions.keepAlive sub publishTime)) where
  distinct := List.nodup_cons.mpr ⟨h.not_mem (UInt32.le_of_lt (lt_succ_of_not_max hmax)) hfree, h.distinct⟩
  counted n hn hdata := by
    rcases List.mem_cons.mp hn with rfl | hn
    · cases hdata
    · exact h.counted n hn hdata

theorem Numbered.dataCycle (h : Numbered sub) (hmax : sub.sequenceNumber ≠ 0xFFFFFFFF)
    (hfree : ¬ Borrowed sub sub.sequenceNumber) (c : Cycle) : Numbered (dataCycle sub c) where
  distinct := List.nodup_cons.mpr ⟨h.not_mem (UInt32.le_refl _) hfree, h.distinct⟩
  counted n hn hn' := by
    have hnext : sub.sequenceNumber < sub.sequenceNumber + 1 := lt_succ_of_not_max hmax
    rcases List.mem_cons.mp hn with rfl | hn
    · exact hnext
    · exact UInt32.lt_trans (h.counted n hn hn') hnext

theorem numbers_publishNotification (i : Nat) :
    getAvailableSequenceNumbers (publishNotification sub i) = getAvailableSequenceNumbers sub := by
  have hnumbers (x : Subscription) : getAvailableSequenceNumbers x =
      (x.unpublishedNotifications.map (·.notification)).map (·.sequenceNumber) := by
    rw [List.map_map]
    rfl
  rw [hnumbers, hnumbers, messages_publishNotification]

/-- Every acknowledgement deletes at most one notification, and a
retransmission finds at most one. -/
structure Unambiguous (sub : Subscription) : Prop where
  distinct : (getAvailableSequenceNumbers sub).Nodup
  acknowledgement : ∀ seqNo, (deleteUnpublishedNotification sub seqNo false).1 ≤ 1
  retransmission : ∀ (i j : Nat) n n', sub.unpublishedNotifications[i]? = some n →
    sub.unpublishedNotifications[j]? = some n' → n.number = n'.number → i = j

theorem unambiguous_of_distinct (h : (getAvailableSequenceNumbers sub).Nodup) : Unambiguous sub where
  distinct := h
  acknowledgement seqNo := by
    have hcount : (deleteUnpublishedNotification sub seqNo false).1 =
        (getAvailableSequenceNumbers sub).count seqNo := by
      rw [deleteUnpublishedNotification, getAvailableSequenceNumbers, List.count, List.countP_map]
      rfl
    rw [hcount]
    exact List.nodup_iff_count_le_one.mp h seqNo
  retransmission i j n n' hn hn' hnumber := by
    have hi : (getAvailableSequenceNumbers sub)[i]? = some n.number := by
      rw [getAvailableSequenceNumbers, List.getElem?_map, hn, Option.map_some]
    have hj : (getAvailableSequenceNumbers sub)[j]? = some n.number := by
      rw [getAvailableSequenceNumbers, List.getElem?_map, hn', Option.map_some, hnumber]
    obtain ⟨hlt, hget⟩ := List.getElem?_eq_some_iff.mp hi
    obtain ⟨hlt', hget'⟩ := List.getElem?_eq_some_iff.mp hj
    exact (h.getElem_inj_iff).mp (hget.trans hget'.symm)

theorem Numbered.publish (h : Numbered sub) (i : Nat) : Numbered (publishNotification sub i) where
  distinct := by
    rw [numbers_publishNotification]
    exact h.distinct
  counted n hn hdata := by
    obtain ⟨before, hbefore, hsame⟩ := mem_publishNotification hn
    have hnumber : n.number = before.number := congrArg NotificationMessage.sequenceNumber hsame
    have hdata' : before.hasData = true := by rw [UnpublishedNotification.hasData, ← hsame]; exact hdata
    rw [hnumber]
    exact h.counted before hbefore hdata'

theorem numbered_apply {op : Op} (hfree : FreeNumber sub op) (h : Numbered sub) : Numbered (Op.apply sub op) := by
  cases op with
  | update c =>
      rcases update_cases sub c with ⟨_, heq⟩ | ⟨hdue, hdata, heq⟩ | ⟨_, _, _, hsame⟩ | ⟨hdue, hdata, hkeep, hsame⟩
      · rw [Op.apply, heq]
        exact h
      · obtain ⟨hmax, hborrowed⟩ := (hfree hdue).1 hdata
        rw [← sequenceNumber_makeRoom] at hmax hborrowed
        rw [Op.apply, heq]
        exact h.makeRoom.dataCycle hmax hborrowed c
      · exact numbered_of_same hsame h.makeRoom
      · obtain ⟨hmax, hborrowed⟩ := (hfree hdue).2 hdata hkeep
        rw [← sequenceNumber_makeRoom] at hmax hborrowed
        exact numbered_of_same hsame (h.makeRoom.keepAlive hmax hborrowed c.publishTime)
  | forceKeepAlive publishTime =>
      exact numbered_of_same (sameQueues_forceKeepAlive sub publishTime) (h.keepAlive hfree.1 hfree.2 publishTime)
  | publish i => exact h.publish i
  | delete seqNo => exact h.sublist List.filter_sublist rfl
  | sample | addItem | removeItem | modify | register => exact ⟨h.distinct, h.counted⟩

theorem unpublishedNotifications_new (h : IsNew sub) : sub.unpublishedNotifications = [] := by
  obtain ⟨address, id, guid, publishingEnabled, p, e, rfl⟩ := h
  rw [registerOps]
  split <;> rfl

theorem numbered_new (h : IsNew sub) : Numbered sub where
  distinct := by
    rw [getAvailableSequenceNumbers, unpublishedNotifications_new h]
    exact List.nodup_nil
  counted n hn := by
    rw [unpublishedNotifications_new h] at hn
    cases hn

theorem sequence_numbers_identify {s : State} {events reached : List Event} (hinitial : Initial s)
    (hmeets : MeetsAll (CallsMeet FreeNumber) s events) (hreached : reached <+: events) :
    ∀ sub ∈ (run s reached).subscriptions, Unambiguous sub := by
  have hnone : ∀ sub ∈ s.subscriptions, Numbered sub := by
    intro sub hsub
    rw [hinitial.subscriptions] at hsub
    cases hsub
  have hnumbered := run_subscriptions (fun _ h => numbered_new h) (fun _ _ hfree h => numbered_apply hfree h)
    (hmeets.take hreached) hnone
  exact fun sub hsub => unambiguous_of_distinct (hnumbered sub hsub).distinct

end Numbers

section Example

def eagerCreation : List Event :=
  [.createSession (some 0) 6 (sampleGuid 0), .createSubscription 0 (some 1) ⟨0, sampleGuid 1⟩ true eagerParameters]

/-- The data of the first and the third cycle and the keep-alive of the second
one wait together. -/
def mixedRun : List Event :=
  eagerCreation ++ [.createMonitoredItems 0 (numberSpace 1) 7 [(NodeIds.numericId 1 1, sampleItem)],
    .tick 5000000 (showing 1 5000000), .tick 10000000 (showing 1 10000000), .tick 15000000 (showing 2 15000000)]

theorem sequence_numbers_identify_mixed :
    MeetsAll (CallsMeet FreeNumber) emptyState mixedRun ∧
      (run emptyState mixedRun).subscriptions.map getAvailableSequenceNumbers = [[2, 3, 1]] ∧
      ∀ sub ∈ (run emptyState mixedRun).subscriptions, Unambiguous sub := by
  let s₁ := run emptyState (mixedRun.take 3)
  let s₂ := step s₁ (.tick 5000000 (showing 1 5000000))
  let s₃ := step s₂ (.tick 10000000 (showing 1 10000000))
  have hitem : CallsMeet FreeNumber (run emptyState eagerCreation)
      (.createMonitoredItems 0 (numberSpace 1) 7 [(NodeIds.numericId 1 1, sampleItem)]) :=
    callsMeet_createItem (fun _ _ => trivial)
  have hdue₁ : Timers.dueJobs 5000000 s₁.repeatedJobs = [⟨sampleGuid 1, .timedUpdateNotifications 1⟩] := by
    decide +kernel
  have hdata : CallsMeet FreeNumber s₁ (.tick 5000000 (showing 1 5000000)) :=
    callsMeet_tick hdue₁ (by decide +kernel)
  have hdue₂ : Timers.dueJobs 10000000 s₂.repeatedJobs = [⟨sampleGuid 1, .timedUpdateNotifications 1⟩] := by
    decide +kernel
  have hidle : CallsMeet FreeNumber s₂ (.tick 10000000 (showing 1 10000000)) :=
    callsMeet_tick hdue₂ (by decide +kernel)
  have hdue₃ : Timers.dueJobs 15000000 s₃.repeatedJobs = [⟨sampleGuid 1, .timedUpdateNotifications 1⟩] := by
    decide +kernel
  have hchange : CallsMeet FreeNumber s₃ (.tick 15000000 (showing 2 15000000)) :=
    callsMeet_tick hdue₃ (by decide +kernel)
  have hmeets : MeetsAll (CallsMeet FreeNumber) emptyState mixedRun :=
    ⟨fun _ h => absurd h (Set.notMem_empty _), fun _ h => absurd h (Set.notMem_empty _), hitem, hdata, hidle, hchange,
      trivial⟩
  exact ⟨hmeets, by decide +kernel, sequence_numbers_identify initial_emptyState hmeets (List.prefix_refl _)⟩

/-- The client does not ask for a notification in 102 cycles without data. -/
def idleRun : List Event :=
  eagerCreation ++ (List.range 102).map (fun k => .tick (5000000 * (k + 1)) quiet)

/-- The second keep-alive has the number of the first one. -/
theorem keepAlives_same_number :
    Initial emptyState ∧ ¬ ∀ sub ∈ (run emptyState idleRun).subscriptions, Unambiguous sub := by
  refine ⟨initial_emptyState, fun h => ?_⟩
  have hnumbers : (run emptyState idleRun).subscriptions.map getAvailableSequenceNumbers = [[2, 2]] := by
    decide +kernel
  have hmem : [2, 2] ∈ (run emptyState idleRun).subscriptions.map getAvailableSequenceNumbers := by
    rw [hnumbers]
    exact List.mem_singleton_self _
  obtain ⟨sub, hsub, heq⟩ := List.mem_map.mp hmem
  have hdistinct := (h sub hsub).distinct
  rw [heq] at hdistinct
  exact absurd hdistinct (by decide)

end Example

end OpcUa.SequenceNumbers
