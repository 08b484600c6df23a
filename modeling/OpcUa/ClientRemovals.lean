import Mathlib.Data.List.Basic
import OpcUa.StatusCodes

namespace OpcUa.ClientRemovals

open StatusCodes

section Model

/-- A subscription of the client with the ids of its monitored items. -/
structure Subscription where
  subscriptionId : UInt32
  monitoredItems : List UInt32
deriving DecidableEq, Repr

abbrev Client := List Subscription

/-- What the server answers to a deletion, or what the client makes of it when
no answer is decoded. -/
structure Response where
  serviceResult : StatusCode
  results : List StatusCode
deriving DecidableEq, Repr

def findSubscription (client : Client) (subscriptionId : UInt32) : Option Subscription :=
  client.find? (fun sub => sub.subscriptionId = subscriptionId)

/-- The first result counts if there are more than `few`, else the result of
the service. -/
def statusOf (few : Nat) (response : Response) : StatusCode :=
  if response.results.length > few then response.results.headD good else response.serviceResult

/-- The first item with the id is taken from the first subscription with the
id. -/
def eraseItem (subscriptionId monitoredItemId : UInt32) : Client → Client
  | [] => []
  | sub :: subs =>
      if sub.subscriptionId = subscriptionId then
        { sub with monitoredItems := sub.monitoredItems.erase monitoredItemId } :: subs
      else sub :: eraseItem subscriptionId monitoredItemId subs

def eraseSubscription (subscriptionId : UInt32) (client : Client) : Client :=
  client.eraseP (fun sub => sub.subscriptionId = subscriptionId)

def removeMonitoredItem (client : Client) (subscriptionId monitoredItemId : UInt32) (response : Response) :
    StatusCode × Client :=
  match findSubscription client subscriptionId with
  | none => (badSubscriptionIdInvalid, client)
  | some sub =>
      if monitoredItemId ∉ sub.monitoredItems then (badMonitoredItemIdInvalid, client)
      else
        let retval := statusOf 1 response
        if retval = good then (retval, eraseItem subscriptionId monitoredItemId client) else (retval, client)

/-- The loop over the monitored items. The list is left behind the item that
may be removed. -/
def removeItems (subscriptionId : UInt32) : List (UInt32 × Response) → StatusCode → Client → StatusCode × Client
  | [], retval, client => (retval, client)
  | (monitoredItemId, response) :: rest, retval, client =>
      let r := removeMonitoredItem client subscriptionId monitoredItemId response
      removeItems subscriptionId rest (retval ||| r.1) r.2

/-- The items of a subscription with the answers to their deletion. -/
def asked (sub : Subscription) (itemResponses : Nat → Response) : List (UInt32 × Response) :=
  sub.monitoredItems.zipIdx.map (fun p => (p.1, itemResponses p.2))

def remove (client : Client) (subscriptionId : UInt32) (itemResponses : Nat → Response) (response : Response) :
    StatusCode × Client :=
  match findSubscription client subscriptionId with
  | none => (badSubscriptionIdInvalid, client)
  | some sub =>
      let r := removeItems subscriptionId (asked sub itemResponses) good client
      if r.1 ≠ good then r
      else
        let retval := statusOf 0 response
        if retval = good then (retval, eraseSubscription subscriptionId r.2) else (retval, r.2)

end Model

section Mirrors

/-- The server reported GOOD for the one thing it was asked to delete. -/
def Response.Reported (response : Response) : Prop := response.serviceResult = good ∧ response.results = [good]

instance (response : Response) : Decidable response.Reported := inferInstanceAs (Decidable (_ ∧ _))

/-- The status of the service, or of the item if the service is good. -/
def Response.status (response : Response) : StatusCode :=
  if response.serviceResult ≠ good then response.serviceResult else response.results.headD good

/-- An item that the client knows is removed exactly when the server reported
it. Otherwise nothing changes. -/
def MirrorsItem (client : Client) (subscriptionId monitoredItemId : UInt32) (response : Response) : Prop :=
  let r := removeMonitoredItem client subscriptionId monitoredItemId response
  if ∃ sub, findSubscription client subscriptionId = some sub ∧ monitoredItemId ∈ sub.monitoredItems then
    (response.Reported → r = (good, eraseItem subscriptionId monitoredItemId client)) ∧
      (¬ response.Reported → r = (response.status, client))
  else r.1 ≠ good ∧ r.2 = client

def EachMirrored (subscriptionId : UInt32) : List (UInt32 × Response) → Client → Prop
  | [], _ => True
  | (monitoredItemId, response) :: rest, client =>
      MirrorsItem client subscriptionId monitoredItemId response ∧
        EachMirrored subscriptionId rest (removeMonitoredItem client subscriptionId monitoredItemId response).2

/-- A subscription that the client knows is removed exactly when the server
reported it. It is not asked to if the deletion of an item failed, whose status
is returned then. -/
def MirrorsSubscription (client : Client) (subscriptionId : UInt32) (itemResponses : Nat → Response)
    (response : Response) : Prop :=
  let r := remove client subscriptionId itemResponses response
  match findSubscription client subscriptionId with
  | none => r.1 ≠ good ∧ r.2 = client
  | some sub =>
      let items := asked sub itemResponses
      let left := (removeItems subscriptionId items good client).2
      EachMirrored subscriptionId items client ∧
        if ∀ item ∈ items, item.2.Reported then
          (response.Reported → r = (good, eraseSubscription subscriptionId left)) ∧
            (¬ response.Reported → r = (response.status, left))
        else r.2 = left ∧ ∃ item ∈ items, ¬ item.2.Reported ∧ r.1 = item.2.status

/-- What an answer has to be for the client to take the right status from it. -/
structure Response.Clear (few : Nat) (response : Response) : Prop where
  granted : response.serviceResult = good →
    response.results = [good] ∨ few < response.results.length ∧ response.results.headD good ≠ good
  refused : response.serviceResult ≠ good →
    response.results.length ≤ few ∨ response.results.headD good = response.serviceResult

def combined (items : List (UInt32 × Response)) : StatusCode :=
  items.foldl (fun retval item => retval ||| item.2.status) good

/-- When the removal of a subscription goes as the server says. -/
structure ClearRemoval (sub : Subscription) (itemResponses : Nat → Response) (response : Response) : Prop where
  items : ∀ item ∈ asked sub itemResponses, item.2.Clear 1
  subscription : (∀ item ∈ asked sub itemResponses, item.2.Reported) → response.Clear 0
  failed : (∃ item ∈ asked sub itemResponses, ¬ item.2.Reported) →
    ∃ item ∈ asked sub itemResponses, ¬ item.2.Reported ∧ combined (asked sub itemResponses) = item.2.status

end Mirrors

section Statuses

variable {few : Nat} {response : Response}

theorem clear_iff : response.Clear few ↔
    (response.Reported → statusOf few response = good) ∧
      (¬ response.Reported → statusOf few response ≠ good ∧ statusOf few response = response.status) := by
  obtain ⟨serviceResult, results⟩ := response
  have hclear : Response.Clear few ⟨serviceResult, results⟩ ↔
      (serviceResult = good → results = [good] ∨ few < results.length ∧ results.headD good ≠ good) ∧
        (serviceResult ≠ good → results.length ≤ few ∨ results.headD good = serviceResult) :=
    ⟨fun h => ⟨h.granted, h.refused⟩, fun h => ⟨h.1, h.2⟩⟩
  rw [hclear]
  by_cases hservice : serviceResult = good
  · by_cases hmany : few < results.length
    · by_cases hsingle : results = [good]
      · simp [Response.Reported, statusOf, hservice, hsingle]
      · simp [Response.Reported, Response.status, statusOf, hservice, hsingle, hmany]
    · by_cases hsingle : results = [good]
      · simp [Response.Reported, statusOf, hservice, hsingle]
      · simp [Response.Reported, Response.status, statusOf, hservice, hsingle, hmany]
  · by_cases hmany : few < results.length
    · simp [Response.Reported, Response.status, statusOf, hservice, hmany]
      grind
    · simp [Response.Reported, Response.status, statusOf, hservice, hmany, Nat.not_lt.mp hmany]

theorem statusOf_of_clear (h : response.Clear 1) : statusOf 1 response = response.status := by
  obtain ⟨hreported, hother⟩ := clear_iff.mp h
  by_cases hr : response.Reported
  · rw [hreported hr]
    simp [Response.status, hr.1, hr.2]
  · exact (hother hr).2

/-- What is removed on the status that the client takes goes as the server says
if and only if the answer is clear. -/
theorem outcome_iff {client removed : Client} (hne : removed ≠ client) :
    ((response.Reported →
        (statusOf few response, if statusOf few response = good then removed else client) = (good, removed)) ∧
      (¬ response.Reported → (statusOf few response, if statusOf few response = good then removed else client) =
        (response.status, client))) ↔ response.Clear few := by
  rw [clear_iff]
  by_cases hr : response.Reported
  · simp only [hr, not_true_eq_false, forall_true_left, false_implies, and_true, Prod.mk.injEq]
    exact ⟨And.left, fun h => ⟨h, if_pos h⟩⟩
  · simp only [hr, not_false_eq_true, forall_true_left, false_implies, true_and, Prod.mk.injEq]
    constructor
    · rintro ⟨hstatus, hclient⟩
      refine ⟨fun hgood => ?_, hstatus⟩
      rw [if_pos hgood] at hclient
      exact hne hclient
    · rintro ⟨hbad, hstatus⟩
      exact ⟨hstatus, if_neg hbad⟩

end Statuses

section Items

variable {client : Client} {sub : Subscription} {subscriptionId monitoredItemId : UInt32} {response : Response}
  {kept : List UInt32} {items : List (UInt32 × Response)} {retval : StatusCode}

theorem findSubscription_eraseItem (subscriptionId monitoredItemId : UInt32) (client : Client) :
    findSubscription (eraseItem subscriptionId monitoredItemId client) subscriptionId =
      (findSubscription client subscriptionId).map
        (fun sub => { sub with monitoredItems := sub.monitoredItems.erase monitoredItemId }) := by
  induction client with
  | nil => rfl
  | cons sub subs ih =>
      by_cases h : sub.subscriptionId = subscriptionId
      · simp [eraseItem, findSubscription, h]
      · simpa [eraseItem, findSubscription, h] using ih

theorem eraseItem_ne (hsub : findSubscription client subscriptionId = some sub)
    (hitem : monitoredItemId ∈ sub.monitoredItems) : eraseItem subscriptionId monitoredItemId client ≠ client := by
  intro hsame
  have hfind := findSubscription_eraseItem subscriptionId monitoredItemId client
  rw [hsame, hsub, Option.map_some, Option.some.injEq] at hfind
  have hlength := congrArg (fun sub => sub.monitoredItems.length) hfind
  have hpos := List.length_pos_of_mem hitem
  simp only [List.length_erase_of_mem hitem] at hlength
  omega

theorem removeMonitoredItem_known (hsub : findSubscription client subscriptionId = some sub)
    (hitem : monitoredItemId ∈ sub.monitoredItems) (response : Response) :
    removeMonitoredItem client subscriptionId monitoredItemId response =
      (statusOf 1 response,
        if statusOf 1 response = good then eraseItem subscriptionId monitoredItemId client else client) := by
  rw [removeMonitoredItem, hsub]
  simp only [hitem, not_true_eq_false, if_false]
  split <;> rfl

theorem mirrorsItem_known (hsub : findSubscription client subscriptionId = some sub)
    (hitem : monitoredItemId ∈ sub.monitoredItems) :
    MirrorsItem client subscriptionId monitoredItemId response ↔ response.Clear 1 := by
  have hknown : ∃ sub, findSubscription client subscriptionId = some sub ∧ monitoredItemId ∈ sub.monitoredItems :=
    ⟨sub, hsub, hitem⟩
  rw [MirrorsItem, removeMonitoredItem_known hsub hitem]
  dsimp only
  rw [if_pos hknown]
  exact outcome_iff (eraseItem_ne hsub hitem)

theorem mirrorsItem_unknown
    (h : ¬ ∃ sub, findSubscription client subscriptionId = some sub ∧ monitoredItemId ∈ sub.monitoredItems) :
    MirrorsItem client subscriptionId monitoredItemId response := by
  rw [MirrorsItem, if_neg h, removeMonitoredItem]
  cases hsub : findSubscription client subscriptionId with
  | none =>
      have hbad : badSubscriptionIdInvalid ≠ good := by decide
      exact ⟨hbad, rfl⟩
  | some sub =>
      have hitem : monitoredItemId ∉ sub.monitoredItems := fun hmem => h ⟨sub, hsub, hmem⟩
      have hbad : badMonitoredItemIdInvalid ≠ good := by decide
      simpa [hitem] using hbad

theorem items_of_removeMonitoredItem (response : Response) (hsub : findSubscription client subscriptionId = some sub)
    (hitems : sub.monitoredItems = kept ++ (monitoredItemId, response).1 :: items.map Prod.fst) :
    ∃ sub' kept', findSubscription (removeMonitoredItem client subscriptionId monitoredItemId response).2
      subscriptionId =
      some sub' ∧ sub'.monitoredItems = kept' ++ items.map Prod.fst := by
  have hitem : monitoredItemId ∈ sub.monitoredItems := by simp [hitems]
  rw [removeMonitoredItem_known hsub hitem]
  dsimp only
  split
  · rw [findSubscription_eraseItem, hsub, Option.map_some]
    refine ⟨{ sub with monitoredItems := sub.monitoredItems.erase monitoredItemId }, ?_⟩
    by_cases hkept : monitoredItemId ∈ kept
    · exact ⟨kept.erase monitoredItemId ++ [monitoredItemId], rfl, by simp [hitems, List.erase_append_left _ hkept]⟩
    · exact ⟨kept, rfl, by simp [hitems, List.erase_append_right _ hkept]⟩
  · exact ⟨sub, kept ++ [monitoredItemId], hsub, by simp [hitems]⟩

theorem eachMirrored_iff (hsub : findSubscription client subscriptionId = some sub)
    (hitems : sub.monitoredItems = kept ++ items.map Prod.fst) :
    EachMirrored subscriptionId items client ↔ ∀ item ∈ items, item.2.Clear 1 := by
  induction items generalizing client sub kept with
  | nil => simp [EachMirrored]
  | cons item items ih =>
      obtain ⟨monitoredItemId, response⟩ := item
      have hitem : monitoredItemId ∈ sub.monitoredItems := by simp [hitems]
      obtain ⟨sub', kept', hsub', hitems'⟩ := items_of_removeMonitoredItem response hsub hitems
      rw [EachMirrored, mirrorsItem_known hsub hitem, ih hsub' hitems', List.forall_mem_cons]

theorem status_removeItems (retval : StatusCode) (hsub : findSubscription client subscriptionId = some sub)
    (hitems : sub.monitoredItems = kept ++ items.map Prod.fst) :
    (removeItems subscriptionId items retval client).1 =
      items.foldl (fun retval item => retval ||| statusOf 1 item.2) retval := by
  induction items generalizing client sub kept retval with
  | nil => rfl
  | cons item items ih =>
      obtain ⟨monitoredItemId, response⟩ := item
      have hitem : monitoredItemId ∈ sub.monitoredItems := by simp [hitems]
      obtain ⟨sub', kept', hsub', hitems'⟩ := items_of_removeMonitoredItem response hsub hitems
      rw [removeItems, ih _ hsub' hitems', removeMonitoredItem_known hsub hitem, List.foldl_cons]

theorem findSubscription_removeItems (retval : StatusCode) (hsub : findSubscription client subscriptionId = some sub)
    (hitems : sub.monitoredItems = kept ++ items.map Prod.fst) :
    ∃ sub', findSubscription (removeItems subscriptionId items retval client).2 subscriptionId = some sub' := by
  induction items generalizing client sub kept retval with
  | nil => exact ⟨sub, hsub⟩
  | cons item items ih =>
      obtain ⟨monitoredItemId, response⟩ := item
      obtain ⟨sub', kept', hsub', hitems'⟩ := items_of_removeMonitoredItem response hsub hitems
      exact ih _ hsub' hitems'

theorem foldl_or_eq_good (f : UInt32 × Response → StatusCode) (items : List (UInt32 × Response)) (retval : StatusCode) :
    items.foldl (fun retval item => retval ||| f item) retval = good ↔ retval = good ∧
      ∀ item ∈ items, f item = good := by
  induction items generalizing retval with
  | nil => simp
  | cons item items ih => rw [List.foldl_cons, ih, or_eq_good, List.forall_mem_cons, and_assoc]

theorem map_asked (sub : Subscription) (itemResponses : Nat → Response) :
    (asked sub itemResponses).map Prod.fst = sub.monitoredItems := by
  rw [asked, List.map_map]
  exact List.zipIdx_map_fst 0 _

end Items

section Removals

variable {client : Client} {subscriptionId : UInt32} {itemResponses : Nat → Response} {response : Response}

theorem eraseSubscription_ne {sub : Subscription} (hsub : findSubscription client subscriptionId = some sub) :
    eraseSubscription subscriptionId client ≠ client := by
  intro hsame
  have hmem := List.mem_of_find?_eq_some hsub
  have hid := List.find?_some hsub
  have hlength := congrArg List.length hsame
  rw [eraseSubscription, List.length_eraseP_of_mem hmem hid] at hlength
  have hpos := List.length_pos_of_mem hmem
  omega

theorem mirrorsItem_iff (client : Client) (subscriptionId monitoredItemId : UInt32) (response : Response) :
    MirrorsItem client subscriptionId monitoredItemId response ↔
      ∀ sub, findSubscription client subscriptionId = some sub → monitoredItemId ∈ sub.monitoredItems →
        response.Clear 1 := by
  by_cases h : ∃ sub, findSubscription client subscriptionId = some sub ∧ monitoredItemId ∈ sub.monitoredItems
  · obtain ⟨sub, hsub, hitem⟩ := h
    rw [mirrorsItem_known hsub hitem]
    constructor
    · exact fun hclear _ _ _ => hclear
    · exact fun hclear => hclear sub hsub hitem
  · exact iff_of_true (mirrorsItem_unknown h) (fun sub hsub hitem => absurd ⟨sub, hsub, hitem⟩ h)

/-- If all items are deleted with clear answers, their statuses are good in one
if and only if all deletions were reported. -/
theorem combined_of_clear {items : List (UInt32 × Response)} (h : ∀ item ∈ items, item.2.Clear 1) :
    items.foldl (fun retval item => retval ||| statusOf 1 item.2) good = combined items ∧
      (combined items = good ↔ ∀ item ∈ items, item.2.Reported) := by
  have hsame : items.foldl (fun retval item => retval ||| statusOf 1 item.2) good = combined items := by
    apply List.foldl_ext
    intro retval item hitem
    rw [statusOf_of_clear (h item hitem)]
  refine ⟨hsame, ?_⟩
  rw [← hsame, foldl_or_eq_good, and_iff_right rfl]
  refine forall₂_congr (fun item hitem => ?_)
  obtain ⟨hreported, hother⟩ := clear_iff.mp (h item hitem)
  refine ⟨fun hgood => ?_, hreported⟩
  by_contra hr
  exact (hother hr).1 hgood

theorem remove_of_good {sub : Subscription} (hsub : findSubscription client subscriptionId = some sub)
    (hgood : (removeItems subscriptionId (asked sub itemResponses) good client).1 = good) :
    remove client subscriptionId itemResponses response = (statusOf 0 response,
      if statusOf 0 response = good then
        eraseSubscription subscriptionId (removeItems subscriptionId (asked sub itemResponses) good client).2
      else (removeItems subscriptionId (asked sub itemResponses) good client).2) := by
  rw [remove, hsub]
  simp only [hgood, ne_eq, not_true_eq_false, if_false]
  split <;> rfl

theorem remove_of_bad {sub : Subscription} (hsub : findSubscription client subscriptionId = some sub)
    (hbad : (removeItems subscriptionId (asked sub itemResponses) good client).1 ≠ good) :
    remove client subscriptionId itemResponses response =
      removeItems subscriptionId (asked sub itemResponses) good client := by
  rw [remove, hsub]
  exact if_pos hbad

theorem mirrorsSubscription_iff (client : Client) (subscriptionId : UInt32) (itemResponses : Nat → Response)
    (response : Response) : MirrorsSubscription client subscriptionId itemResponses response ↔
      ∀ sub, findSubscription client subscriptionId = some sub → ClearRemoval sub itemResponses response := by
  cases hsub : findSubscription client subscriptionId with
  | none =>
      have hbad : badSubscriptionIdInvalid ≠ good := by decide
      rw [MirrorsSubscription, remove, hsub]
      exact iff_of_true ⟨hbad, rfl⟩ (fun _ h => nomatch h)
  | some sub =>
      have hitems : sub.monitoredItems = [] ++ (asked sub itemResponses).map Prod.fst :=
        (map_asked sub itemResponses).symm
      have heach := eachMirrored_iff hsub hitems
      have hstatus := status_removeItems good hsub hitems
      obtain ⟨sub', hleft⟩ := findSubscription_removeItems good hsub hitems
      have hclearRemoval : (∀ other, some sub = some other → ClearRemoval other itemResponses response) ↔
          ClearRemoval sub itemResponses response :=
        ⟨fun h => h sub rfl, fun h other heq => Option.some.inj heq ▸ h⟩
      rw [hclearRemoval, MirrorsSubscription, hsub]
      dsimp only
      rw [heach]
      by_cases hclear : ∀ item ∈ asked sub itemResponses, item.2.Clear 1
      · obtain ⟨hsame, hall⟩ := combined_of_clear hclear
        rw [hsame] at hstatus
        by_cases hreported : ∀ item ∈ asked sub itemResponses, item.2.Reported
        · have hgood := hstatus.trans (hall.mpr hreported)
          rw [if_pos hreported, remove_of_good hsub hgood, outcome_iff (eraseSubscription_ne hleft)]
          constructor
          · rintro ⟨_, hsubscription⟩
            refine ⟨hclear, fun _ => hsubscription, ?_⟩
            rintro ⟨item, hitem, hnot⟩
            exact absurd (hreported item hitem) hnot
          · exact fun h => ⟨hclear, h.subscription hreported⟩
        · have hbad : (removeItems subscriptionId (asked sub itemResponses) good client).1 ≠ good := by
            rw [hstatus]
            exact fun h => hreported (hall.mp h)
          rw [if_neg hreported, remove_of_bad hsub hbad, hstatus]
          have hfailed : ∃ item ∈ asked sub itemResponses, ¬ item.2.Reported := by
            simpa using hreported
          constructor
          · rintro ⟨_, _, item, hitem, hnot, hcombined⟩
            exact ⟨hclear, fun h => absurd h hreported, fun _ => ⟨item, hitem, hnot, hcombined⟩⟩
          · exact fun h => ⟨hclear, rfl, h.failed hfailed⟩
      · constructor
        · exact fun h => absurd h.1 hclear
        · exact fun h => absurd h.items hclear

/-- The client has what the server has after a removal if and only if the
answers are clear. -/
theorem mirrors_iff (client : Client) (subscriptionId monitoredItemId : UInt32) (itemResponses : Nat → Response)
    (response : Response) :
    (MirrorsItem client subscriptionId monitoredItemId response ↔ ∀ sub,
      findSubscription client subscriptionId = some sub → monitoredItemId ∈ sub.monitoredItems → response.Clear 1) ∧
    (MirrorsSubscription client subscriptionId itemResponses response ↔ ∀ sub,
      findSubscription client subscriptionId = some sub → ClearRemoval sub itemResponses response) :=
  ⟨mirrorsItem_iff client subscriptionId monitoredItemId response,
    mirrorsSubscription_iff client subscriptionId itemResponses response⟩

/-- The only result is bad, and the item is removed all the same. A subscription
is removed although there is no result. -/
theorem unreported_not_mirrored :
    ¬ MirrorsItem [⟨1, [5]⟩] 1 5 ⟨good, [badMonitoredItemIdInvalid]⟩ ∧
      removeMonitoredItem [⟨1, [5]⟩] 1 5 ⟨good, [badMonitoredItemIdInvalid]⟩ = (good, [⟨1, []⟩]) ∧
      ¬ MirrorsSubscription [⟨1, []⟩] 1 (fun _ => ⟨good, []⟩) ⟨good, []⟩ := by
  refine ⟨fun h => ?_, by decide, fun h => ?_⟩
  · have hknown : ∃ sub, findSubscription [⟨1, [5]⟩] 1 = some sub ∧ (5 : UInt32) ∈ sub.monitoredItems :=
      ⟨_, rfl, by decide⟩
    rw [MirrorsItem, if_pos hknown] at h
    exact absurd (h.2 (by decide)) (by decide)
  · obtain ⟨_, hremoved⟩ := h
    rw [if_pos (show ∀ item ∈ asked ⟨1, []⟩ (fun _ => ⟨good, []⟩), item.2.Reported from nofun)] at hremoved
    exact absurd (hremoved.2 (by decide)) (by decide)

end Removals

end OpcUa.ClientRemovals
