import OpcUa.PublicationOrder

namespace OpcUa.QueuedSamples

open StatusCodes DataTypes Values AddressSpaces AttributeReads MonitoredItems

section Samples

variable (s : Sampling) (item : MonitoredItem)

def isFull : Bool := item.queueSize.currentValue ≥ item.queueSize.maxValue

def taken : Option DataValue :=
  if item.lastSampled + item.samplingInterval.toNat > s.now then none
  else if item.monitoredItemType ≠ .changeNotify then none
  else match s.space.get item.monitoredNodeId with
    | none => none
    | some target =>
        let (error, v) := copyMonitoredValueToVariant s item.attributeID target
        if error ∨ typeOf v.value = none then none else some v

structure Arrives (v : DataValue) : Prop where
  taken : taken s item = some v
  admitted : isFull item = true → item.discardOldest = true

def Repeats (v : DataValue) : Prop := item.lastSampledValue ≠ none ∧ encodeSample s.buffer v = item.lastSampledValue

instance (v : DataValue) : Decidable (Repeats s item v) := inferInstanceAs (Decidable (_ ∧ _))

/-- A value with room for it, or with a way to make room. -/
def arriving : Option DataValue := if isFull item && !item.discardOldest then none else taken s item

def queuedValue : Option DataValue := (arriving s item).filter (fun v => !decide (Repeats s item v))

variable {s item} {v : DataValue}

theorem queuePush_of_taken (h : taken s item = some v) : queuePushDataValue s item =
    if item.queueSize.currentValue ≥ item.queueSize.maxValue ∧ !item.discardOldest then item
    else queueSample s v (dropOldest item) := by
  rw [taken] at h
  split at h
  · cases h
  · next hdue =>
    split at h
    · cases h
    · next hkind =>
      cases hnode : s.space.get item.monitoredNodeId with
      | none =>
          rw [hnode] at h
          cases h
      | some target =>
          rw [hnode] at h
          dsimp only at h
          split at h
          · cases h
          · next hvalue =>
            cases h
            rw [queuePushDataValue, if_neg hdue, if_neg hkind, hnode]
            dsimp only
            rw [if_neg hvalue]

theorem queuePush_of_none (h : taken s item = none) : queuePushDataValue s item = item := by
  rw [taken] at h
  rw [queuePushDataValue]
  split
  · rfl
  · next hdue =>
    split
    · rfl
    · next hkind =>
      rw [if_neg hdue, if_neg hkind] at h
      cases hnode : s.space.get item.monitoredNodeId with
      | none => rfl
      | some target =>
          rw [hnode] at h
          dsimp only at h ⊢
          split at h
          · next hvalue => rw [if_pos hvalue]
          · cases h

theorem typed_of_taken (h : taken s item = some v) : typeOf v.value ≠ none := by
  rw [taken] at h
  split at h
  · cases h
  · split at h
    · cases h
    · cases hnode : s.space.get item.monitoredNodeId with
      | none =>
          rw [hnode] at h
          cases h
      | some target =>
          rw [hnode] at h
          dsimp only at h
          split at h
          · cases h
          · next hvalue =>
            cases h
            exact fun hnone => hvalue (.inr hnone)

theorem queuePush_of_kept_out (h : ∀ v, ¬ Arrives s item v) : queuePushDataValue s item = item := by
  cases htaken : taken s item with
  | none => exact queuePush_of_none htaken
  | some v =>
      rw [queuePush_of_taken htaken, if_pos]
      refine ⟨?_, ?_⟩
      · by_contra hfull
        exact h v ⟨htaken, fun hisFull => absurd (of_decide_eq_true hisFull) hfull⟩
      · cases hdiscard : item.discardOldest with
        | false => rfl
        | true => exact absurd ⟨htaken, fun _ => hdiscard⟩ (h v)

theorem queuePush_of_arrives (h : Arrives s item v) : queuePushDataValue s item = queueSample s v
    (dropOldest item) := by
  rw [queuePush_of_taken h.taken, if_neg]
  rintro ⟨hfull, hkeep⟩
  rw [h.admitted (decide_eq_true hfull)] at hkeep
  cases hkeep

theorem lastSampledValue_dropOldest : (dropOldest item).lastSampledValue = item.lastSampledValue := by
  rw [dropOldest]
  split <;> rfl

theorem queuePush_of_repeats (h : Arrives s item v) (hsame : Repeats s item v) :
    queuePushDataValue s item = dropOldest item := by
  rw [queuePush_of_arrives h, queueSample, lastSampledValue_dropOldest]
  exact if_pos hsame

theorem arriving_eq_some : arriving s item = some v ↔ Arrives s item v := by
  rw [arriving]
  constructor
  · intro h
    split at h
    · cases h
    · next hout =>
      refine ⟨h, fun hfull => ?_⟩
      simpa [hfull] using hout
  · intro h
    rw [if_neg, h.taken]
    intro hout
    rw [Bool.and_eq_true, Bool.not_eq_true'] at hout
    rw [h.admitted hout.1] at hout
    cases hout.2

theorem queuedValue_eq_some : queuedValue s item = some v ↔ Arrives s item v ∧ ¬ Repeats s item v := by
  rw [queuedValue, Option.filter_eq_some_iff, arriving_eq_some]
  simp

theorem queuePush_of_new (h : Arrives s item v) (hnew : ¬ Repeats s item v) :
    queuePushDataValue s item = insertValue (dropOldest item) s.sampledAt (encodeSample s.buffer v) v := by
  rw [queuePush_of_arrives h, queueSample, lastSampledValue_dropOldest]
  exact if_neg hnew

theorem queuePush_of_unqueued (h : queuedValue s item = none) :
    queuePushDataValue s item = item ∨ queuePushDataValue s item = dropOldest item := by
  by_cases harrives : ∃ v, Arrives s item v
  · obtain ⟨v, harrives⟩ := harrives
    by_cases hsame : Repeats s item v
    · exact .inr (queuePush_of_repeats harrives hsame)
    · rw [queuedValue_eq_some.mpr ⟨harrives, hsame⟩] at h
      cases h
  · exact .inl (queuePush_of_kept_out (not_exists.mp harrives))

theorem queuePush_of_queued (h : queuedValue s item = some v) :
    queuePushDataValue s item = insertValue (dropOldest item) s.sampledAt (encodeSample s.buffer v) v := by
  obtain ⟨harrives, hnew⟩ := queuedValue_eq_some.mp h
  exact queuePush_of_new harrives hnew

end Samples

section Losses

variable {s : Sampling} {item : MonitoredItem} {v : DataValue}

/-- No value came to the queue and none went. -/
structure Untouched (before after : MonitoredItem) : Prop where
  queue : after.queue = before.queue
  counter : after.queueSize.currentValue = before.queueSize.currentValue
  lastSampledValue : after.lastSampledValue = before.lastSampledValue

/-- One value came, and at most the oldest one went, out of a full queue. -/
def Gained (before after : MonitoredItem) (v : DataValue) : Prop :=
  after.queue = v :: before.queue ∨ isFull before = true ∧ after.queue = v :: before.queue.dropLast

def LosesNothing (s : Sampling) (item : MonitoredItem) : Prop :=
  Untouched item (queuePushDataValue s item) ∨ ∃ v, Gained item (queuePushDataValue s item) v

def Displaces (s : Sampling) (item : MonitoredItem) : Prop :=
  isFull item = true ∧ item.discardOldest = true ∧ ∃ v, taken s item = some v ∧ Repeats s item v

theorem dropOldest_of_full (h : isFull item = true) : (dropOldest item).queue = item.queue.dropLast ∧
    (dropOldest item).queueSize.currentValue = item.queueSize.currentValue - 1 := by
  rw [dropOldest, if_pos (of_decide_eq_true h)]
  exact ⟨rfl, rfl⟩

theorem dropOldest_of_room (h : isFull item = false) : dropOldest item = item := by
  rw [dropOldest, if_neg (of_decide_eq_false h)]

theorem gained_of_new (h : Arrives s item v) (hnew : ¬ Repeats s item v) :
    Gained item (queuePushDataValue s item) v := by
  rw [queuePush_of_new h hnew, Gained, insertValue]
  cases hfull : isFull item with
  | true => exact .inr ⟨rfl, congrArg _ (dropOldest_of_full hfull).1⟩
  | false =>
      rw [dropOldest_of_room hfull]
      exact .inl rfl

theorem losesNothing_of_room (hroom : isFull item = false) : LosesNothing s item := by
  by_cases harrives : ∃ v, Arrives s item v
  · obtain ⟨v, h⟩ := harrives
    by_cases hsame : Repeats s item v
    · left
      rw [queuePush_of_repeats h hsame, dropOldest_of_room hroom]
      exact ⟨rfl, rfl, rfl⟩
    · exact .inr ⟨v, gained_of_new h hsame⟩
  · left
    rw [queuePush_of_kept_out (not_exists.mp harrives)]
    exact ⟨rfl, rfl, rfl⟩

theorem not_losesNothing_of_displaces (h : Displaces s item) : ¬ LosesNothing s item := by
  obtain ⟨hfull, hdiscard, v, htaken, hsame⟩ := h
  obtain ⟨hqueue, hcounter⟩ := dropOldest_of_full hfull
  rw [LosesNothing, queuePush_of_repeats ⟨htaken, fun _ => hdiscard⟩ hsame]
  rintro (huntouched | ⟨w, hgained | ⟨_, hgained⟩⟩)
  · have hne : item.queueSize.currentValue - 1 ≠ item.queueSize.currentValue := by
      intro heq
      simp at heq
    exact hne (hcounter.symm.trans huntouched.counter)
  · have hlength := congrArg List.length (hqueue.symm.trans hgained)
    rw [List.length_dropLast, List.length_cons] at hlength
    omega
  · exact List.cons_ne_self w _ (hgained.symm.trans hqueue)

/-- The oldest value makes room before it is known whether the sample is
new. -/
theorem queuePush_losesNothing_iff (s : Sampling) (item : MonitoredItem) :
    LosesNothing s item ↔ ¬ Displaces s item := by
  refine ⟨fun h hdisplaces => not_losesNothing_of_displaces hdisplaces h, fun h => ?_⟩
  cases hfull : isFull item with
  | false => exact losesNothing_of_room hfull
  | true =>
      by_cases harrives : ∃ v, Arrives s item v
      · obtain ⟨v, harrives⟩ := harrives
        by_cases hsame : Repeats s item v
        · exact absurd ⟨hfull, harrives.admitted hfull, v, harrives.taken, hsame⟩ h
        · exact .inr ⟨v, gained_of_new harrives hsame⟩
      · left
        rw [queuePush_of_kept_out (not_exists.mp harrives)]
        exact ⟨rfl, rfl, rfl⟩

end Losses

section Example

open Publishing Subscriptions

/-- The number was 1 and is 2 now. There is room for two values. -/
def watchedNumber : MonitoredItem :=
  queuePushDataValue ((showing 2 10000000).sampling 0 0) <| queuePushDataValue ((showing 1 5000000).sampling 0 0) <|
    newMonitoredItem 8 (NodeIds.numericId 1 1) sampleItem

/-- The number is still 2, and the value 1 is gone. -/
theorem unchanged_sample_displaces : ¬ LosesNothing ((showing 2 15000000).sampling 0 0) watchedNumber := by
  have hbefore : watchedNumber.queue.length = 2 := by decide +kernel
  have hafter : (queuePushDataValue ((showing 2 15000000).sampling 0 0) watchedNumber).queue.length = 1 := by
    decide +kernel
  rintro (huntouched | ⟨v, hgained | ⟨_, hgained⟩⟩)
  · rw [huntouched.queue, hbefore] at hafter
    cases hafter
  · rw [hgained, List.length_cons, hbefore] at hafter
    cases hafter
  · rw [hgained, List.length_cons, List.length_dropLast, hbefore] at hafter
    cases hafter

end Example

end OpcUa.QueuedSamples
