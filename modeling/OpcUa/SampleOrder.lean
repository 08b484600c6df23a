import OpcUa.QueuedSamples

namespace OpcUa.SampleOrder

open DataTypes AttributeReads MonitoredItems QueuedSamples

section Runs

/-- The values that an item holds after a sampling, oldest first, if it held
`held` before. A value that arrives at a full queue drives out the oldest. -/
def heldAfter (s : Sampling) (item : MonitoredItem) (held : List DataValue) : List DataValue :=
  let kept := if (arriving s item).isSome && isFull item then held.tail else held
  kept ++ (queuedValue s item).toList

/-- An item with the values that it holds, in the order in which they were
sampled. -/
structure Watched where
  item : MonitoredItem
  held : List DataValue

def Watched.sample (w : Watched) (s : Sampling) : Watched :=
  ⟨queuePushDataValue s w.item, heldAfter s w.item w.held⟩

def watch (item : MonitoredItem) (samplings : List Sampling) : Watched :=
  samplings.foldl Watched.sample ⟨clearQueue item, []⟩

structure Reversed (w : Watched) : Prop where
  queue : w.item.queue = w.held.reverse
  typed : ∀ v ∈ w.held, typeOf v.value ≠ none

variable {s : Sampling} {w : Watched}

theorem reverse_kept (h : w.item.queue = w.held.reverse) :
    (dropOldest w.item).queue = (if isFull w.item then w.held.tail else w.held).reverse := by
  cases hfull : isFull w.item with
  | true => rw [(dropOldest_of_full hfull).1, h, List.dropLast_reverse, if_pos rfl]
  | false => rw [dropOldest_of_room hfull, h, if_neg Bool.false_ne_true]

theorem Reversed.queue_sample (h : Reversed w) (s : Sampling) :
    (w.sample s).item.queue = (w.sample s).held.reverse := by
  rw [Watched.sample, heldAfter]
  cases harriving : arriving s w.item with
  | none =>
      have hnone : ∀ v, ¬ Arrives s w.item v := by
        intro v harrives
        rw [arriving_eq_some.mpr harrives] at harriving
        cases harriving
      rw [queuePush_of_kept_out hnone, queuedValue, harriving]
      simpa using h.queue
  | some v =>
      have harrives := arriving_eq_some.mp harriving
      by_cases hsame : Repeats s w.item v
      · have hnone : queuedValue s w.item = none := by simp [queuedValue, harriving, hsame]
        rw [queuePush_of_repeats harrives hsame, hnone, reverse_kept h.queue]
        simp
      · rw [queuePush_of_new harrives hsame, queuedValue_eq_some.mpr ⟨harrives, hsame⟩,
          insertValue, reverse_kept h.queue]
        simp

theorem Reversed.sample (h : Reversed w) (s : Sampling) : Reversed (w.sample s) := by
  refine ⟨h.queue_sample s, fun v hv => ?_⟩
  rw [Watched.sample, heldAfter] at hv
  rcases List.mem_append.mp hv with hv | hv
  · split at hv
    · exact h.typed v (List.mem_of_mem_tail hv)
    · exact h.typed v hv
  · have hqueued : queuedValue s w.item = some v := Option.mem_toList.mp hv
    exact typed_of_taken (queuedValue_eq_some.mp hqueued).1.taken

theorem reversed_run (samplings : List Sampling) (h : Reversed w) : Reversed (samplings.foldl Watched.sample w) := by
  induction samplings generalizing w with
  | nil => exact h
  | cons s rest ih => exact ih (h.sample s)

theorem reversed_watch (item : MonitoredItem) (samplings : List Sampling) : Reversed (watch item samplings) :=
  reversed_run samplings ⟨rfl, fun _ hv => absurd hv List.not_mem_nil⟩

end Runs

section Notifications

variable {now : Nat → UInt64} {w : Watched}

/-- A value but for the server timestamp, which a notification sets. -/
def unstamped (v : DataValue) : DataValue := stamp 0 v

/-- The values of the notifications are those that the item holds, oldest
first. -/
def ListsInOrder (now : Nat → UInt64) (w : Watched) : Prop :=
  (queueToDataChangeNotifications now w.item).map (fun n => unstamped n.value) = w.held.map unstamped

def Mirrored (held : List DataValue) : Prop := (held.map unstamped).reverse = held.map unstamped

theorem listed_values (h : ∀ v ∈ w.item.queue, typeOf v.value ≠ none) :
    (queueToDataChangeNotifications now w.item).map (fun n => unstamped n.value) = w.item.queue.map unstamped := by
  have htyped : ∀ n ∈ w.item.queue.mapIdx
    (fun k v => (⟨w.item.clientHandle, stamp (now k) v⟩ : MonitoredItemNotification)),
      (typeOf n.value.value).isSome = true := by
    intro n hn
    obtain ⟨k, hk, rfl⟩ := List.mem_mapIdx.mp hn
    exact Option.isSome_iff_ne_none.mpr (h w.item.queue[k] (List.getElem_mem hk))
  rw [queueToDataChangeNotifications, List.filter_eq_self.mpr htyped]
  apply List.ext_getElem?
  intro k
  simp only [List.getElem?_map, List.getElem?_mapIdx]
  cases w.item.queue[k]? <;> rfl

/-- The queue is walked from the newest value on. -/
theorem notifications_in_order_iff (item : MonitoredItem) (samplings : List Sampling) (now : Nat → UInt64) :
    ListsInOrder now (watch item samplings) ↔ Mirrored (watch item samplings).held := by
  have hreversed := reversed_watch item samplings
  have htyped : ∀ v ∈ (watch item samplings).item.queue, typeOf v.value ≠ none := by
    intro v hv
    rw [hreversed.queue] at hv
    exact hreversed.typed v (List.mem_reverse.mp hv)
  rw [ListsInOrder, listed_values htyped, hreversed.queue, Mirrored, List.map_reverse]

end Notifications

section Example

open Publishing Subscriptions

def twoSamplings : List Sampling := [(showing 1 5000000).sampling 0 0, (showing 2 10000000).sampling 0 0]

/-- The 2 is listed before the 1. -/
theorem notifications_newest_first : ¬ ListsInOrder (fun _ => 0) (watch numberItem twoSamplings) := by
  intro h
  have hbytes := congrArg (List.map (encodeSample (fun _ => 0))) h
  exact absurd hbytes (by decide +kernel)

end Example

end OpcUa.SampleOrder
