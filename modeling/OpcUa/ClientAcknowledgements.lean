import Mathlib.Data.List.Count
import OpcUa.StatusCodes

namespace OpcUa.ClientAcknowledgements

open StatusCodes

variable {Value : Type}

structure Acknowledgement where
  subscriptionId : UInt32
  sequenceNumber : UInt32
deriving DecidableEq, Repr

/-- A subscription of the client, with the client handles of its monitored
items. -/
structure Subscription where
  subscriptionId : UInt32
  monitoredItems : List UInt32
deriving DecidableEq, Repr

structure Client where
  subscriptions : List Subscription
  pendingNotificationsAcks : List Acknowledgement
deriving DecidableEq, Repr

/-- An entry of `notificationData`: a decoded data change notification with
the client handle and the value of each of its items, or anything else. -/
inductive NotificationData (Value : Type)
  | dataChange (monitoredItems : List (UInt32 × Value))
  | other

structure PublishResponse (Value : Type) where
  serviceResult : StatusCode
  results : List StatusCode
  subscriptionId : UInt32
  moreNotifications : Bool
  sequenceNumber : UInt32
  notificationData : List (NotificationData Value)

/-- What the code finds at `response.results[i]`: behind the array it is
whatever the memory holds. -/
def resultAt (response : PublishResponse Value) (outside : Nat → StatusCode) (i : Nat) : StatusCode :=
  response.results[i]?.getD (outside i)

/-- The loop over the pending acknowledgements: the indices at which it reads
the results, and the acknowledgements that stay. -/
def processResults (result : Nat → StatusCode) : Nat → List Acknowledgement → List Nat × List Acknowledgement
  | _, [] => ([], [])
  | i, ack :: acks =>
      let (reads, left) := processResults result (i + 1) acks
      (i :: reads, if result i = good ∨ result i = badSequenceNumberInvalid then left else ack :: left)

/-- The calls of the handlers: for each item the first monitored item with the
client handle. -/
def handlerCalls (sub : Subscription) : NotificationData Value → List (UInt32 × Value)
  | .dataChange monitoredItems => monitoredItems.filter fun item => item.1 ∈ sub.monitoredItems
  | .other => []

/-- What `UA_Client_processPublishRx` does with a response. -/
structure Processed (Value : Type) where
  reads : List Nat
  left : List Acknowledgement
  calls : List (UInt32 × Value)
  client : Client
  moreNotifications : Bool

def processPublishRx (outside : Nat → StatusCode) (client : Client) (response : PublishResponse Value) :
    Processed Value :=
  if response.serviceResult ≠ good then ⟨[], client.pendingNotificationsAcks, [], client, false⟩
  else
    let (reads, left) := processResults (resultAt response outside) 0 client.pendingNotificationsAcks
    let client' := { client with pendingNotificationsAcks := left }
    if response.subscriptionId = 0 then ⟨reads, left, [], client', false⟩
    else match client.subscriptions.find? (·.subscriptionId = response.subscriptionId) with
      | none => ⟨reads, left, [], client', false⟩
      | some sub =>
          let ack := ⟨sub.subscriptionId, response.sequenceNumber⟩
          let acks := if ack ∈ left then left else ack :: left
          ⟨reads, left, response.notificationData.flatMap (handlerCalls sub),
            { client' with pendingNotificationsAcks := acks }, response.moreNotifications⟩

/-- One round of the loop of `UA_Client_Subscriptions_manuallySendPublishRequest`.
The request carries the acknowledgements in the order of the list. -/
structure Exchange (Value : Type) where
  subscriptionAcknowledgements : List Acknowledgement
  response : PublishResponse Value
  reads : List Nat
  left : List Acknowledgement

/-- The loop, over what the service calls answer; `outside` is the memory
behind the results of each response. -/
def manuallySendPublishRequest : List (PublishResponse Value × (Nat → StatusCode)) → Client →
    List (Exchange Value) × Client
  | [], client => ([], client)
  | (response, outside) :: responses, client =>
      let processed := processPublishRx outside client response
      let exchange := ⟨client.pendingNotificationsAcks, response, processed.reads, processed.left⟩
      if processed.moreNotifications then
        let (exchanges, last) := manuallySendPublishRequest responses processed.client
        (exchange :: exchanges, last)
      else ([exchange], processed.client)

inductive Call (Value : Type)
  | publish (responses : List (PublishResponse Value × (Nat → StatusCode)))
  -- subscriptions and monitored items are created and removed
  | changeSubscriptions (subscriptions : List Subscription)

def run : List (Call Value) → Client → List (Exchange Value) × Client
  | [], client => ([], client)
  | .publish responses :: calls, client =>
      let (exchanges, client') := manuallySendPublishRequest responses client
      let (later, last) := run calls client'
      (exchanges ++ later, last)
  | .changeSubscriptions subscriptions :: calls, client => run calls { client with subscriptions := subscriptions }

/-- The server accepted the acknowledgement or can never accept it. -/
def isFinal (result : StatusCode) : Bool :=
  result = good ∨ result = badSequenceNumberInvalid ∨ result = badSubscriptionIdInvalid

/-- What the acknowledgements ought to come to: only results that exist are
read, and the result at an index decides on the acknowledgement that was sent
at that index. -/
def Correct (e : Exchange Value) : Prop :=
  if e.response.serviceResult ≠ good then e.reads = [] ∧ e.left = e.subscriptionAcknowledgements
  else (∀ i ∈ e.reads, i < e.response.results.length) ∧
    e.left = (e.subscriptionAcknowledgements.zipIdx.filter
      fun sent => !(e.response.results[sent.2]?.any isFinal)).map Prod.fst

/-- A response that is processed has a result for every acknowledgement, and
none of these reports an unknown subscription. -/
def Answered (e : Exchange Value) : Prop :=
  e.response.serviceResult = good →
    e.subscriptionAcknowledgements.length ≤ e.response.results.length ∧
    badSubscriptionIdInvalid ∉ e.response.results.take e.subscriptionAcknowledgements.length

section Results

variable {result : Nat → StatusCode} {acks : List Acknowledgement} {i : Nat}

theorem reads_processResults : (processResults result i acks).1 = List.range' i acks.length := by
  induction acks generalizing i with
  | nil => rfl
  | cons ack acks ih => rw [processResults, List.length_cons, List.range'_succ, ← ih]

theorem left_processResults : (processResults result i acks).2 =
    ((acks.zipIdx i).filter fun sent =>
      !(result sent.2 = good ∨ result sent.2 = badSequenceNumberInvalid)).map Prod.fst := by
  induction acks generalizing i with
  | nil => rfl
  | cons ack acks ih =>
      rw [processResults, List.zipIdx_cons, List.filter_cons]
      simp only [ih]
      by_cases hgone : result i = good ∨ result i = badSequenceNumberInvalid <;> simp [hgone]

theorem filter_eq_filter_iff {α : Type} {p q : α → Bool} {l : List α} (h : ∀ a ∈ l, q a = true → p a = true) :
    (l.filter p).length = (l.filter q).length ↔ ∀ a ∈ l, p a = true → q a = true := by
  constructor
  · intro hlength a ha hp
    by_contra hq
    have hsub : (l.filter q).Sublist (l.filter p) := by
      have heq : l.filter q = (l.filter p).filter q := by
        rw [List.filter_filter]
        refine List.filter_congr fun b hb => ?_
        cases hqb : q b with
        | false => rfl
        | true => simp [h b hb hqb]
      rw [heq]
      exact List.filter_sublist
    have hsame := hsub.eq_of_length hlength.symm
    have hmem : a ∈ l.filter q := hsame ▸ List.mem_filter.mpr ⟨ha, hp⟩
    exact hq (List.mem_filter.mp hmem).2
  · intro hback
    congr 1
    refine List.filter_congr fun a ha => ?_
    rw [Bool.eq_iff_iff]
    exact ⟨hback a ha, h a ha⟩

end Results

section Exchanges

variable {client : Client} {response : PublishResponse Value} {outside : Nat → StatusCode}

def exchange (outside : Nat → StatusCode) (client : Client) (response : PublishResponse Value) : Exchange Value :=
  let processed := processPublishRx outside client response
  ⟨client.pendingNotificationsAcks, response, processed.reads, processed.left⟩

theorem processPublishRx_refused (h : response.serviceResult ≠ good) :
    processPublishRx outside client response = ⟨[], client.pendingNotificationsAcks, [], client, false⟩ := by
  rw [processPublishRx, if_pos h]

theorem processPublishRx_results (outside : Nat → StatusCode) (client : Client) (h : response.serviceResult = good) :
    ((processPublishRx outside client response).reads, (processPublishRx outside client response).left) =
      processResults (resultAt response outside) 0 client.pendingNotificationsAcks := by
  simp only [processPublishRx, h, ne_eq, not_true_eq_false, if_false]
  split
  · rfl
  · split <;> rfl

theorem pending_processPublishRx (outside : Nat → StatusCode) (client : Client) (response : PublishResponse Value) :
    (processPublishRx outside client response).client.pendingNotificationsAcks.length ≤
      (processPublishRx outside client response).left.length + 1 := by
  rw [processPublishRx]
  split
  · exact Nat.le_succ _
  · simp only
    split
    · exact Nat.le_succ _
    · split
      · exact Nat.le_succ _
      · simp only
        split
        · exact Nat.le_succ _
        · exact Nat.le_refl _

theorem resultAt_eq {i : Nat} {result : StatusCode} (h : response.results[i]? = some result) :
    resultAt response outside i = result := by
  rw [resultAt, h, Option.getD_some]

theorem mem_zipIdx_lt {α : Type} {l : List α} {a : α × Nat} (h : a ∈ l.zipIdx) : a.2 < l.length := by
  have hlt := List.snd_lt_of_mem_zipIdx h
  omega

/-- With a result for every acknowledgement, the right ones are removed unless
a result reports an unknown subscription. -/
theorem removed_iff (acks : List Acknowledgement) (hlength : acks.length ≤ response.results.length) :
    (processResults (resultAt response outside) 0 acks).2 =
      (acks.zipIdx.filter fun sent => !(response.results[sent.2]?.any isFinal)).map Prod.fst ↔
    badSubscriptionIdInvalid ∉ response.results.take acks.length := by
  have hresult : ∀ a ∈ acks.zipIdx, ∃ result, response.results[a.2]? = some result ∧
      resultAt response outside a.2 = result := fun a ha => by
    have hlt := mem_zipIdx_lt ha
    have hget : response.results[a.2]? = some response.results[a.2] := List.getElem?_eq_getElem (by omega)
    exact ⟨_, hget, resultAt_eq hget⟩
  have hless : ∀ a ∈ acks.zipIdx, (!(response.results[a.2]?.any isFinal)) = true →
      (!decide (resultAt response outside a.2 = good ∨ resultAt response outside a.2 = badSequenceNumberInvalid)) =
        true := fun a ha hkept => by
    obtain ⟨result, hget, hat⟩ := hresult a ha
    rw [hat]
    simp only [hget, Option.any_some, isFinal, Bool.not_eq_true', decide_eq_false_iff_not, not_or] at hkept
    simp only [Bool.not_eq_true', decide_eq_false_iff_not, not_or]
    exact ⟨hkept.1, hkept.2.1⟩
  rw [left_processResults]
  constructor
  · intro heq hmem
    have hsame := (filter_eq_filter_iff hless).mp (by simpa using congrArg List.length heq)
    obtain ⟨i, hi⟩ := List.mem_iff_getElem?.mp hmem
    rw [List.getElem?_take] at hi
    split at hi
    · next hlt =>
        have ha : (acks[i], i) ∈ acks.zipIdx := List.mem_zipIdx_iff_getElem?.mpr (List.getElem?_eq_getElem hlt)
        have hat : resultAt response outside i = badSubscriptionIdInvalid := resultAt_eq hi
        have hkept := hsame _ ha (by simp only [hat]; decide)
        simp only [hi, Option.any_some] at hkept
        exact absurd hkept (by decide)
    · cases hi
  · intro hnone
    congr 1
    refine List.filter_congr fun a ha => ?_
    obtain ⟨result, hget, hat⟩ := hresult a ha
    have hne : result ≠ badSubscriptionIdInvalid := fun heq => hnone <| by
      rw [List.mem_iff_getElem?]
      exact ⟨a.2, by rw [List.getElem?_take, if_pos (mem_zipIdx_lt ha), hget, heq]⟩
    rw [hat, hget, Option.any_some]
    simp only [isFinal, hne, or_false]

theorem correct_exchange_iff :
    Correct (exchange outside client response) ↔ Answered (exchange outside client response) := by
  by_cases hservice : response.serviceResult = good
  · obtain ⟨hreads, hleft⟩ := Prod.mk.inj (processPublishRx_results outside client hservice)
    rw [reads_processResults] at hreads
    rw [Correct, Answered, if_neg (by simpa [exchange] using hservice)]
    simp only [exchange, hservice, forall_const, hreads, hleft]
    have hexist : (∀ i ∈ List.range' 0 client.pendingNotificationsAcks.length, i < response.results.length) ↔
        client.pendingNotificationsAcks.length ≤ response.results.length := by
      constructor
      · intro h
        by_contra hlong
        have hlast := h response.results.length (by rw [List.mem_range'_1]; omega)
        omega
      · intro h i hi
        rw [List.mem_range'_1] at hi
        omega
    rw [hexist]
    exact and_congr_right fun hlength => hleft ▸ removed_iff client.pendingNotificationsAcks hlength
  · rw [Correct, Answered, if_pos (by simpa [exchange] using hservice)]
    simp [exchange, processPublishRx_refused hservice, hservice]

/-- The server accepts every acknowledgement or says why it never can. -/
def Decided (e : Exchange Value) : Prop :=
  e.response.serviceResult = good →
    ∀ result ∈ e.response.results.take e.subscriptionAcknowledgements.length, isFinal result = true

theorem left_of_decided (hanswered : Answered (exchange outside client response))
    (hdecided : Decided (exchange outside client response)) (hservice : response.serviceResult = good) :
    (processPublishRx outside client response).left = [] := by
  obtain ⟨_, hcorrect⟩ : _ ∧ (exchange outside client response).left = _ := by
    have hcorrect := correct_exchange_iff.mpr hanswered
    rwa [Correct, if_neg (by simpa [exchange] using hservice)] at hcorrect
  have hleft : (processPublishRx outside client response).left = (exchange outside client response).left := rfl
  rw [hleft, hcorrect, List.map_eq_nil_iff, List.filter_eq_nil_iff]
  intro sent hsent
  have hlt := mem_zipIdx_lt hsent
  have hlength := (hanswered hservice).1
  have hget : (exchange outside client response).response.results[sent.2]? =
      some (exchange outside client response).response.results[sent.2] := List.getElem?_eq_getElem (by omega)
  have hfinal := hdecided hservice _ <| List.mem_iff_getElem?.mpr
    ⟨sent.2, by rw [List.getElem?_take, if_pos hlt]; exact hget⟩
  rw [hget, Option.any_some, hfinal]
  decide

theorem pending_le_of_decided (hanswered : Answered (exchange outside client response))
    (hdecided : Decided (exchange outside client response)) (hone : client.pendingNotificationsAcks.length ≤ 1) :
    (processPublishRx outside client response).client.pendingNotificationsAcks.length ≤ 1 := by
  by_cases hservice : response.serviceResult = good
  · have hleft := left_of_decided hanswered hdecided hservice
    have hpending := pending_processPublishRx outside client response
    rw [hleft, List.length_nil] at hpending
    exact hpending
  · rw [processPublishRx_refused hservice]
    exact hone

end Exchanges

section Runs

theorem exchanges_of_loop {responses : List (PublishResponse Value × (Nat → StatusCode))} {client : Client}
    {e : Exchange Value} (h : e ∈ (manuallySendPublishRequest responses client).1) :
    ∃ outside client response, e = exchange outside client response := by
  induction responses generalizing client with
  | nil => exact absurd h List.not_mem_nil
  | cons first responses ih =>
      obtain ⟨response, outside⟩ := first
      rw [manuallySendPublishRequest] at h
      simp only at h
      split at h
      · rcases List.mem_cons.mp h with rfl | h
        · exact ⟨outside, client, response, rfl⟩
        · exact ih h
      · obtain rfl := List.mem_singleton.mp h
        exact ⟨outside, client, response, rfl⟩

theorem exchanges_of_run {calls : List (Call Value)} {client : Client} {e : Exchange Value}
    (h : e ∈ (run calls client).1) : ∃ outside client response, e = exchange outside client response := by
  induction calls generalizing client with
  | nil => exact absurd h List.not_mem_nil
  | cons call calls ih =>
      cases call with
      | publish responses => exact (List.mem_append.mp h).elim exchanges_of_loop ih
      | changeSubscriptions subscriptions => exact ih h

theorem pending_of_loop {responses : List (PublishResponse Value × (Nat → StatusCode))} {client : Client}
    (h : ∀ e ∈ (manuallySendPublishRequest responses client).1, Answered e ∧ Decided e)
    (hone : client.pendingNotificationsAcks.length ≤ 1) :
    (manuallySendPublishRequest responses client).2.pendingNotificationsAcks.length ≤ 1 := by
  induction responses generalizing client with
  | nil => exact hone
  | cons first responses ih =>
      obtain ⟨response, outside⟩ := first
      rw [manuallySendPublishRequest] at h ⊢
      simp only at h ⊢
      split at h
      · next hmore =>
          obtain ⟨hanswered, hdecided⟩ := h _ List.mem_cons_self
          rw [if_pos hmore]
          exact ih (fun e he => h e (List.mem_cons_of_mem _ he)) (pending_le_of_decided hanswered hdecided hone)
      · next hmore =>
          obtain ⟨hanswered, hdecided⟩ := h _ List.mem_cons_self
          rw [if_neg hmore]
          exact pending_le_of_decided hanswered hdecided hone

theorem pending_of_run {calls : List (Call Value)} {client : Client}
    (h : ∀ e ∈ (run calls client).1, Answered e ∧ Decided e)
    (hone : client.pendingNotificationsAcks.length ≤ 1) :
    (run calls client).2.pendingNotificationsAcks.length ≤ 1 := by
  induction calls generalizing client with
  | nil => exact hone
  | cons call calls ih =>
      cases call with
      | publish responses =>
          exact ih (fun e he => h e (List.mem_append_right _ he))
            (pending_of_loop (fun e he => h e (List.mem_append_left _ he)) hone)
      | changeSubscriptions subscriptions => exact ih h hone

/-- In every run the results are matched with the acknowledgements just when
each response that is processed answers all of them and none with an unknown
subscription. Then at most one acknowledgement stays pending. -/
theorem acknowledgements_correct_iff (calls : List (Call Value)) (client : Client) :
    ((∀ e ∈ (run calls client).1, Correct e) ↔ ∀ e ∈ (run calls client).1, Answered e) ∧
    ((∀ e ∈ (run calls client).1, Answered e ∧ Decided e) → client.pendingNotificationsAcks.length ≤ 1 →
      (run calls client).2.pendingNotificationsAcks.length ≤ 1) := by
  refine ⟨forall₂_congr fun e he => ?_, pending_of_run⟩
  obtain ⟨outside, client', response, rfl⟩ := exchanges_of_run he
  exact correct_exchange_iff

/-- Subscription 7 sends notification 1 and has disappeared when it is
acknowledged; meanwhile subscription 8 sends a notification. -/
def disappearing : List (Call Unit) :=
  [.changeSubscriptions [⟨7, []⟩, ⟨8, []⟩],
    .publish [(⟨good, [], 7, false, 1, []⟩, fun _ => badInternalError)],
    .publish [(⟨good, [badSubscriptionIdInvalid], 8, false, 1, []⟩, fun _ => badInternalError)],
    .publish [(⟨good, [good], 8, false, 2, []⟩, fun _ => badInternalError)]]

/-- The acknowledgement for the subscription that is gone stays, and the last
response has a result too few. -/
theorem disappearing_not_correct : ¬ (∀ e ∈ (run disappearing ⟨[], []⟩).1, Correct e) ∧
    (run disappearing ⟨[], []⟩).2.pendingNotificationsAcks = [⟨8, 2⟩, ⟨7, 1⟩] := by
  refine ⟨fun h => ?_, by decide⟩
  have hlast : ∃ e ∈ (run disappearing ⟨[], []⟩).1, e.response.serviceResult = good ∧
      e.reads = [0, 1] ∧ e.response.results.length = 1 := by
    exact ⟨_, List.mem_cons_of_mem _ (List.mem_cons_of_mem _ List.mem_cons_self), rfl, by decide, rfl⟩
  obtain ⟨e, he, hservice, hreads, hlength⟩ := hlast
  have hcorrect := h e he
  rw [Correct, if_neg (by simpa using hservice), hreads, hlength] at hcorrect
  exact absurd (hcorrect.1 1 (by decide)) (by decide)

end Runs

end OpcUa.ClientAcknowledgements
