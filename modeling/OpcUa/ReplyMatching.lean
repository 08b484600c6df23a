import OpcUa.ChunkIndependence
import OpcUa.ClientCalls

namespace OpcUa.ReplyMatching

open StatusCodes LittleEndian NodeIds Connections ChunkIndependence Readers Decoding ServiceTable Loops ClientCalls
open MessageHandlers hiding State

section Framing

variable {maxMessageSize : UInt32} {c : Connection} {mem : Allocator} {bytes : UaString}

def Beginning (maxMessageSize : UInt32) (rest : List UInt8) : Prop := rest = [] ∨ Unfinished maxMessageSize rest

def outcome (c : Connection) (bytes : UaString) : List UInt8 × List UInt8 :=
  advance c.localConf.maxMessageSize (c.incompleteMessage.bytes ++ bytes.bytes)

/-- The memory that is asked for is granted. -/
structure Granted (mem : Allocator) (c : Connection) (bytes : UaString) : Prop where
  realloc : c.incompleteMessage.bytes ≠ [] → mem.realloc = true
  malloc : (outcome c bytes).1 ≠ [] → (outcome c bytes).2 ≠ [] → mem.malloc = true
  copy : c.incompleteMessage.bytes = [] → (outcome c bytes).1 = [] → (outcome c bytes).2 ≠ [] → mem.copy = true

/-- A call of `UA_Connection_completeMessages` that hands over the message and
stores the rest. -/
structure HandsOver (c : Connection) (done : Completed) (message rest : List UInt8) : Prop where
  handed : done.message.bytes = message
  isNone : done.message = none ↔ message = []
  stored : done.connection.incompleteMessage.bytes = rest
  localConf : done.connection.localConf = c.localConf

theorem scanMessages_le {data : List UInt8} {pos : Nat} (h : pos ≤ data.length) :
    (scanMessages maxMessageSize data pos).1 ≤ data.length := by
  fun_induction scanMessages maxMessageSize data pos with
  | case5 pos _ _ _ _ _ _ ih => exact ih (by omega)
  | _ => exact h

theorem deliver_granted (message : UaString) (realloced : Bool) (hsource : realloced = true → message = none)
    (hempty : realloced = false → c.incompleteMessage.bytes = []) {current : List UInt8}
    (hcurrent : (if realloced then c.incompleteMessage else message).bytes = current)
    (hmalloc : (advance c.localConf.maxMessageSize current).1 ≠ [] →
    (advance c.localConf.maxMessageSize current).2 ≠ [] →
      mem.malloc = true)
    (hcopy : realloced = false → (advance c.localConf.maxMessageSize current).1 = [] →
      (advance c.localConf.maxMessageSize current).2 ≠ [] → mem.copy = true) :
    (deliver mem c message realloced).status = good ∧
      HandsOver c (deliver mem c message realloced) (advance c.localConf.maxMessageSize current).1
        (advance c.localConf.maxMessageSize current).2 := by
  have hle : (scanMessages c.localConf.maxMessageSize current 0).1 ≤ current.length := scanMessages_le (Nat.zero_le _)
  rw [advance] at *
  rw [deliver, hcurrent]
  generalize scanMessages c.localConf.maxMessageSize current 0 = scanned at *
  by_cases hdelete : scanned.2.getD (lastIndex current.length) = 0
  · simp only [if_pos hdelete]
    cases realloced with
    | true => exact ⟨rfl, congrArg UaString.bytes (hsource rfl), ⟨fun _ => rfl, fun _ => hsource rfl⟩, rfl, rfl⟩
    | false => exact ⟨rfl, rfl, ⟨fun _ => rfl, fun _ => rfl⟩, hempty rfl, rfl⟩
  simp only [if_neg hdelete] at hmalloc hcopy ⊢
  by_cases hpos : scanned.1 = 0
  · have hnothing : current.take scanned.1 = [] := by rw [hpos, List.take_zero]
    have hall : current.drop scanned.1 = current := by rw [hpos, List.drop_zero]
    rw [hnothing, hall] at hcopy ⊢
    rw [if_pos hpos]
    cases realloced with
    | true => exact ⟨rfl, congrArg UaString.bytes (hsource rfl), ⟨fun _ => rfl, fun _ => hsource rfl⟩, hcurrent, rfl⟩
    | false =>
        refine ⟨rfl, rfl, ⟨fun _ => rfl, fun _ => rfl⟩, ?_, rfl⟩
        by_cases hnil : current = []
        · cases mem.copy with
          | true => rfl
          | false => exact hnil.symm
        · rw [hcopy rfl rfl hnil]
          rfl
  have htake : current.take scanned.1 ≠ [] := by
    rw [Ne, List.take_eq_nil_iff, not_or]
    exact ⟨hpos, fun hnil => hpos (by simpa [hnil] using hle)⟩
  simp only [if_neg hpos]
  by_cases hlength : current.length = scanned.1
  · have hall : current.take scanned.1 = current := by rw [← hlength, List.take_length]
    have hnone : current.drop scanned.1 = [] := by rw [← hlength, List.drop_length]
    rw [hall] at htake
    rw [if_neg (not_not.mpr hlength), hall, hnone]
    cases realloced with
    | true => exact ⟨rfl, rfl, ⟨by rintro ⟨⟩, fun hnil => absurd hnil htake⟩, rfl, rfl⟩
    | false =>
        refine ⟨rfl, hcurrent, ⟨fun hmessage => ?_, fun hnil => absurd hnil htake⟩, hempty rfl, rfl⟩
        rw [← hcurrent]
        exact congrArg UaString.bytes hmessage
  · have hdrop : current.drop scanned.1 ≠ [] := by
      rw [Ne, List.drop_eq_nil_iff]
      omega
    rw [if_pos hlength, hmalloc htake hdrop]
    exact ⟨rfl, rfl, ⟨by rintro ⟨⟩, fun hnil => absurd hnil htake⟩, rfl, rfl⟩

theorem completeMessages_granted (h : Granted mem c bytes) : (completeMessages mem c bytes).status = good ∧
    HandsOver c (completeMessages mem c bytes) (outcome c bytes).1 (outcome c bytes).2 := by
  rw [completeMessages]
  by_cases hstored : c.incompleteMessage.length > 0
  · have hne : c.incompleteMessage.bytes ≠ [] := List.length_pos_iff.mp hstored
    rw [if_pos hstored, h.realloc hne]
    have hdeliver := deliver_granted
      (c := { c with incompleteMessage := some (c.incompleteMessage.bytes ++ bytes.bytes) })
      (releaseRecvBuffer bytes) true (fun _ => rfl) (fun hfalse => by cases hfalse) rfl h.malloc
      (fun hfalse => by cases hfalse)
    exact ⟨hdeliver.1, hdeliver.2.handed, hdeliver.2.isNone, hdeliver.2.stored, hdeliver.2.localConf⟩
  · have hnil : c.incompleteMessage.bytes = [] := List.eq_nil_of_length_eq_zero (Nat.eq_zero_of_not_pos hstored)
    have hcurrent : bytes.bytes = c.incompleteMessage.bytes ++ bytes.bytes := by rw [hnil, List.nil_append]
    rw [if_neg hstored]
    exact deliver_granted bytes false (fun htrue => by cases htrue) (fun _ => hnil) hcurrent h.malloc
      (fun _ => h.copy hnil)

theorem deliver_malloc_refused (message : UaString) (realloced : Bool) (hsource : realloced = true → message = none)
    {current : List UInt8} (hcurrent : (if realloced then c.incompleteMessage else message).bytes = current)
    (hfirst : (advance c.localConf.maxMessageSize current).1 ≠ [])
    (hrest : (advance c.localConf.maxMessageSize current).2 ≠ [])
    (hmalloc : mem.malloc = false) : HandsOver c (deliver mem c message realloced) [] [] := by
  rw [advance] at hfirst hrest
  rw [deliver, hcurrent]
  generalize scanMessages c.localConf.maxMessageSize current 0 = scanned at *
  by_cases hdelete : scanned.2.getD (lastIndex current.length) = 0
  · simp only [if_pos hdelete] at hfirst
    exact absurd rfl hfirst
  simp only [if_neg hdelete] at hfirst hrest ⊢
  have hpos : scanned.1 ≠ 0 := by
    intro hzero
    rw [hzero, List.take_zero] at hfirst
    exact hfirst rfl
  have hlength : current.length ≠ scanned.1 := by
    intro hall
    rw [← hall, List.drop_length] at hrest
    exact hrest rfl
  rw [if_neg hpos, if_pos hlength, hmalloc]
  cases realloced with
  | true => exact ⟨congrArg UaString.bytes (hsource rfl), ⟨fun _ => rfl, fun _ => hsource rfl⟩, rfl, rfl⟩
  | false => exact ⟨rfl, ⟨fun _ => rfl, fun _ => rfl⟩, rfl, rfl⟩

theorem deliver_copy_refused {message : UaString} (hfirst : (advance c.localConf.maxMessageSize message.bytes).1 = [])
    (hrest : (advance c.localConf.maxMessageSize message.bytes).2 ≠ []) (hcopy : mem.copy = false) :
    HandsOver c (deliver mem c message false) [] [] := by
  have hsource : (if false then c.incompleteMessage else message).bytes = message.bytes := rfl
  rw [advance] at hfirst hrest
  rw [deliver, hsource]
  generalize scanMessages c.localConf.maxMessageSize message.bytes 0 = scanned at *
  by_cases hdelete : scanned.2.getD (lastIndex message.bytes.length) = 0
  · simp only [if_pos hdelete] at hrest
    exact absurd rfl hrest
  simp only [if_neg hdelete] at hfirst hrest ⊢
  have hpos : scanned.1 = 0 := by
    refine (List.take_eq_nil_iff.mp hfirst).resolve_right (fun hnil => hrest ?_)
    rw [hnil, List.drop_nil]
  rw [if_pos hpos, hcopy]
  exact ⟨rfl, ⟨fun _ => rfl, fun _ => rfl⟩, rfl, rfl⟩

theorem outcome_nil (h : c.incompleteMessage.bytes ++ bytes.bytes = []) : (outcome c bytes).2 = [] := by
  rw [outcome, h, advance]
  split
  · rfl
  · exact List.drop_nil

theorem completeMessages_refused (h : ¬ Granted mem c bytes) :
    HandsOver c (completeMessages mem c bytes) [] [] ∧ c.incompleteMessage.bytes ++ bytes.bytes ≠ [] := by
  rw [completeMessages]
  by_cases hstored : c.incompleteMessage.length > 0
  · have hne : c.incompleteMessage.bytes ≠ [] := List.length_pos_iff.mp hstored
    refine ⟨?_, fun hnil => hne (List.append_eq_nil_iff.mp hnil).1⟩
    rw [if_pos hstored]
    cases hrealloc : mem.realloc with
    | false => exact ⟨rfl, ⟨fun _ => rfl, fun _ => rfl⟩, rfl, rfl⟩
    | true =>
        have hmalloc : (outcome c bytes).1 ≠ [] ∧ (outcome c bytes).2 ≠ [] ∧ mem.malloc = false := by
          by_contra hnot
          refine h ⟨fun _ => hrealloc, fun hfirst hrest => ?_, fun hnil => absurd hnil hne⟩
          by_contra hfalse
          exact hnot ⟨hfirst, hrest, Bool.eq_false_of_not_eq_true hfalse⟩
        have hlost := deliver_malloc_refused
          (c := { c with incompleteMessage := some (c.incompleteMessage.bytes ++ bytes.bytes) })
            (releaseRecvBuffer bytes)
          true (fun _ => rfl) rfl hmalloc.1 hmalloc.2.1 hmalloc.2.2
        exact ⟨hlost.handed, hlost.isNone, hlost.stored, hlost.localConf⟩
  · have hnil : c.incompleteMessage.bytes = [] := List.eq_nil_of_length_eq_zero (Nat.eq_zero_of_not_pos hstored)
    have hsource : outcome c bytes = advance c.localConf.maxMessageSize bytes.bytes := by
      rw [outcome, hnil, List.nil_append]
    have hrest : (outcome c bytes).2 ≠ [] := by
      intro hrest
      exact h ⟨fun hne => absurd hnil hne, fun _ hne => absurd hrest hne, fun _ _ hne => absurd hrest hne⟩
    refine ⟨?_, fun hall => hrest (outcome_nil hall)⟩
    rw [if_neg hstored]
    by_cases hfirst : (outcome c bytes).1 = []
    · have hcopy : mem.copy = false := by
        refine Bool.eq_false_of_not_eq_true (fun hcopy => ?_)
        exact h ⟨fun hne => absurd hnil hne, fun hne => absurd hfirst hne, fun _ _ _ => hcopy⟩
      rw [hsource] at hfirst hrest
      exact deliver_copy_refused hfirst hrest hcopy
    · have hmalloc : mem.malloc = false := by
        refine Bool.eq_false_of_not_eq_true (fun hmalloc => ?_)
        exact h ⟨fun hne => absurd hnil hne, fun _ _ => hmalloc, fun _ hnone => absurd hnone hfirst⟩
      rw [hsource] at hfirst hrest
      exact deliver_malloc_refused bytes false (fun hfalse => by cases hfalse) rfl hfirst hrest hmalloc

end Framing

section Ledgers

/-- The request id in the sequence header of a message, behind the headers of its
type. -/
def carriedId (m : List UInt8) : Option UInt32 :=
  let st : Dec := ⟨m, 0, [], []⟩
  if msgtypeAt m 0 = MessageType.opn.code then
    match attempt (both messageHeaderDecodeBinary
      (both asymmetricHeaderDecodeBinary sequenceHeaderDecodeBinary)) st with
    | (.ok (_, _, _, requestId), _) => some requestId
    | _ => none
  else
    match attempt (both messageHeaderDecodeBinary (both uint32DecodeBinary sequenceHeaderDecodeBinary)) st with
    | (.ok (_, _, _, requestId), _) => some requestId
    | _ => none

/-- The bytes received so far, the buffers used up for requests, and the bytes
that are stored. -/
structure Ledger where
  stream : List UInt8
  replies : List (UInt32 × List UInt8)
  stored : List UInt8
  limit : UInt32

namespace Ledger

/-- Every buffer was one message for the request, and all that was received
stands in these messages or is the beginning of the next one. -/
structure Balanced (l : Ledger) : Prop where
  matched : ∀ reply ∈ l.replies, WellFormed l.limit reply.2 ∧ carriedId reply.2 = some reply.1
  complete : l.stream = (l.replies.map (·.2)).flatten ++ l.stored
  unfinished : Beginning l.limit l.stored

def keep (l : Ledger) (bytes stored : List UInt8) : Ledger := { l with stream := l.stream ++ bytes, stored := stored }

def use (l : Ledger) (bytes stored : List UInt8) (requestId : UInt32) (reply : List UInt8) : Ledger :=
  { l with stream := l.stream ++ bytes, replies := l.replies ++ [(requestId, reply)], stored := stored }

variable {l : Ledger} {bytes stored : List UInt8} {requestId : UInt32} {reply : List UInt8}

theorem balanced_keep_iff (h : l.Balanced) :
    (l.keep bytes stored).Balanced ↔ l.stored ++ bytes = stored ∧ Beginning l.limit stored := by
  have hstream : l.stream ++ bytes = (l.replies.map (·.2)).flatten ++ (l.stored ++ bytes) := by
    rw [h.complete, List.append_assoc]
  constructor
  · intro hkeep
    exact ⟨List.append_cancel_left (hstream.symm.trans hkeep.complete), hkeep.unfinished⟩
  · rintro ⟨hstored, hbeginning⟩
    exact ⟨h.matched, hstream.trans (by rw [hstored]; rfl), hbeginning⟩

theorem balanced_use_iff (h : l.Balanced) : (l.use bytes stored requestId reply).Balanced ↔
    l.stored ++ bytes = reply ++ stored ∧ WellFormed l.limit reply ∧ carriedId reply = some requestId ∧
      Beginning l.limit stored := by
  have hstream : l.stream ++ bytes = (l.replies.map (·.2)).flatten ++ (l.stored ++ bytes) := by
    rw [h.complete, List.append_assoc]
  have hreplies : ((l.replies ++ [(requestId, reply)]).map (·.2)).flatten ++ stored =
      (l.replies.map (·.2)).flatten ++ (reply ++ stored) := by simp
  constructor
  · intro huse
    have hlast := huse.matched (requestId, reply) (List.mem_append_right _ (List.mem_singleton_self _))
    exact ⟨List.append_cancel_left (hstream.symm.trans (huse.complete.trans hreplies)), hlast.1,
      hlast.2, huse.unfinished⟩
  · rintro ⟨hbytes, hwell, hcarried, hbeginning⟩
    refine ⟨fun r hr => ?_, hstream.trans (by rw [hbytes]; exact hreplies.symm), hbeginning⟩
    rcases List.mem_append.mp hr with hbefore | hnew
    · exact h.matched r hbefore
    · rw [List.mem_singleton.mp hnew]
      exact ⟨hwell, hcarried⟩

end Ledger

variable {maxMessageSize : UInt32} {data m rest : List UInt8}

theorem advance_nil : advance maxMessageSize [] = ([], []) := by
  have hscan : scanMessages maxMessageSize [] 0 = (0, none) := by
    rw [scanMessages, if_neg (by decide)]
  simp [advance, hscan]

theorem advance_beginning (h : Beginning maxMessageSize data) (hfits : SizeFits maxMessageSize data.length)
    (hapart : data.length ≠ 1) : advance maxMessageSize data = ([], data) := by
  rcases h with rfl | hunfinished
  · exact advance_nil
  · exact @advance_flatten maxMessageSize [] data nofun hunfinished hfits hapart

theorem advance_message (hm : WellFormed maxMessageSize m) (hrest : Beginning maxMessageSize rest)
    (hfits : SizeFits maxMessageSize (m ++ rest).length) : advance maxMessageSize (m ++ rest) = (m, rest) := by
  have hlength : 16 ≤ m.length := hm.2.2.1
  have hunfinished : Unfinished maxMessageSize rest := by
    rcases hrest with rfl | hunfinished
    · exact ⟨m, List.length_pos_iff.mp (by omega), hm⟩
    · exact hunfinished
  have hflat : [m].flatten = m := by simp
  have h := @advance_flatten maxMessageSize [m] rest (fun x hx => by rwa [List.mem_singleton.mp hx]) hunfinished
    (by rwa [hflat]) (by rw [hflat, List.length_append]; omega)
  rwa [hflat] at h

theorem fits_of_advance (h : (advance maxMessageSize data).1 ++ (advance maxMessageSize data).2 = data) :
    SizeFits maxMessageSize data.length := by
  by_cases hlength : data.length < 16
  · exact .inr hlength
  · refine .inl (Nat.not_le.mp (fun hmax => ?_))
    rw [advance_rejects hmax (Nat.not_lt.mp hlength)] at h
    rw [← h] at hlength
    exact hlength (by decide)

end Ledgers

section States

variable {b : Build} {x : State} {requestId : UInt32}

def ledger (x : State) : Ledger where
  stream := x.stream
  replies := x.exchanges.map (fun e => (e.requestId, e.reply))
  stored := x.client.connection.incompleteMessage.bytes
  limit := x.client.connection.localConf.maxMessageSize

def isDecoded : Answer → Bool
  | .failed _ => false
  | _ => true

/-- What was handed to a caller was found in the buffer used up for its request. -/
def Answered (x : State) : Prop :=
  ∀ r ∈ x.returned, isDecoded r.answer = true → ∃ e ∈ x.exchanges, e.requestId = r.requestId ∧ e.answer = some r.answer

/-- Where the client waits for a reply, and to which request. -/
def waitsFor : Phase → Option UInt32
  | .idle => none
  | .opening requestId _ => some requestId
  | .replying requestId _ => some requestId

/-- A step that neither receives nor uses up anything. -/
structure Quiet (x x' : State) : Prop where
  same : ledger x' = ledger x
  answered : Answered x → Answered x'

theorem quiet_give {c : Client} {answer : Answer}
    (hstored : c.connection.incompleteMessage = x.client.connection.incompleteMessage)
    (hconf : c.connection.localConf = x.client.connection.localConf)
    (hanswer : isDecoded answer = true → ∃ e ∈ x.exchanges, e.requestId = requestId ∧ e.answer = some answer) :
    Quiet x (x.give c requestId answer) where
  same := by
    simp only [ledger, State.give, hstored, hconf]
  answered := by
    intro h r hr hdecoded
    rcases List.mem_append.mp hr with hbefore | hnew
    · exact h r hbefore hdecoded
    · obtain rfl := List.mem_singleton.mp hnew
      exact hanswer hdecoded

theorem quiet_failed {c : Client} (status : StatusCode)
    (hstored : c.connection.incompleteMessage = x.client.connection.incompleteMessage)
    (hconf : c.connection.localConf = x.client.connection.localConf) :
    Quiet x (x.give c requestId (.failed status)) := quiet_give hstored hconf nofun

theorem sendRequest_connection (c : Client) (sending : Servers.Sending) :
    (sendRequest c sending).2.connection.incompleteMessage = c.connection.incompleteMessage ∧
      (sendRequest c sending).2.connection.localConf = c.connection.localConf := by
  cases sending <;> exact ⟨rfl, rfl⟩

theorem sendOpening_connection (c : Client) (sending : Servers.Sending) :
    (sendOpening c sending).2.connection.incompleteMessage = c.connection.incompleteMessage ∧
      (sendOpening c sending).2.connection.localConf = c.connection.localConf := by
  cases sending <;> exact ⟨rfl, rfl⟩

theorem acceptOpening_connection (c : Client) (reply : List UInt8) (heap : List Bool) (now : Servers.DateTime) :
    (acceptOpening b c reply heap now).2.connection = c.connection := by
  rw [acceptOpening]
  split
  · rfl
  · split
    · rfl
    · dsimp only
      split <;> rfl

theorem retrieveResponse_connection (c : Client) (requestId : UInt32) (responseType : DataTypes.DataType)
    (reply : List UInt8) (heap : List Bool) : (retrieveResponse b c requestId responseType reply heap).2.connection =
    c.connection := by
  rw [retrieveResponse]
  split
  · rfl
  · split
    · split
      · rfl
      · split <;> rfl
    · split <;> rfl

theorem quiet_request {c : Client} (r : Request) (hconnection : c.connection = x.client.connection) :
    Quiet x (x.request c r) := by
  obtain ⟨hstored, hconf⟩ := sendRequest_connection c r.sending
  rw [hconnection] at hstored hconf
  rw [State.request]
  split
  · exact quiet_failed _ hstored hconf
  · exact ⟨by simp only [ledger, hstored, hconf], fun h => h⟩

theorem quiet_call (x : State) (r : Request) : Quiet x (x.call r) := by
  obtain ⟨hstored, hconf⟩ := sendOpening_connection x.client r.opening
  rw [State.call]
  split
  · split
    · exact quiet_failed _ rfl rfl
    · exact quiet_request r rfl
  · dsimp only
    split
    · exact quiet_failed _ hstored hconf
    · exact ⟨by simp only [ledger, hstored, hconf], fun h => h⟩

section Receiving

variable {r : Receive}

/-- What a `recv` comes to for the ledger. -/
def receives (x : State) (requestId : UInt32) (r : Receive) : Ledger :=
  let done := x.completed r
  let stored := done.connection.incompleteMessage.bytes
  if r.status ||| done.status = good ∧ done.message.bytes ≠ [] then
    (ledger x).use r.bytes.bytes stored requestId done.message.bytes
  else (ledger x).keep r.bytes.bytes stored

theorem ledger_accept (hconf : (x.completed r).connection.localConf = x.client.connection.localConf) :
    ledger (x.accept r) = (ledger x).keep r.bytes.bytes (x.completed r).connection.incompleteMessage.bytes := by
  simp only [ledger, State.accept, Ledger.keep, hconf]

theorem ledger_exchange (reply : List UInt8) (answer : Option Answer)
    (hconf : (x.completed r).connection.localConf = x.client.connection.localConf) :
    ledger ((x.accept r).exchange requestId reply answer) =
      (ledger x).use r.bytes.bytes (x.completed r).connection.incompleteMessage.bytes requestId reply := by
  simp only [ledger, State.accept, State.exchange, Ledger.use, hconf, List.map_append, List.map_cons, List.map_nil]

theorem answered_exchange {reply : List UInt8} {answer : Option Answer} (h : Answered x) :
    Answered (x.exchange requestId reply answer) := by
  intro r hr hdecoded
  obtain ⟨e, he, hfound⟩ := h r hr hdecoded
  exact ⟨e, List.mem_append_left _ he, hfound⟩

theorem Quiet.after_accept {x' : State} (h : Quiet (x.accept r) x')
    (hconf : (x.completed r).connection.localConf = x.client.connection.localConf) :
    ledger x' = (ledger x).keep r.bytes.bytes (x.completed r).connection.incompleteMessage.bytes ∧
      (Answered x → Answered x') :=
  ⟨h.same.trans (ledger_accept hconf), h.answered⟩

theorem Quiet.after_exchange {x' : State} {reply : List UInt8} {answer : Option Answer}
    (h : Quiet ((x.accept r).exchange requestId reply answer) x')
    (hconf : (x.completed r).connection.localConf = x.client.connection.localConf) :
    ledger x' = (ledger x).use r.bytes.bytes (x.completed r).connection.incompleteMessage.bytes requestId reply ∧
      (Answered x → Answered x') :=
  ⟨h.same.trans (ledger_exchange reply answer hconf), fun hx => h.answered (answered_exchange hx)⟩

theorem receive_spec (hwaits : waitsFor x.phase = some requestId)
    (hconf : (x.completed r).connection.localConf = x.client.connection.localConf)
    (hnone : (x.completed r).message = none ↔ (x.completed r).message.bytes = []) :
    ledger (x.receive b r) = receives x requestId r ∧ (Answered x → Answered (x.receive b r)) := by
  cases hphase : x.phase with
  | idle =>
      rw [hphase] at hwaits
      cases hwaits
  | opening id request =>
      rw [hphase] at hwaits
      obtain rfl := Option.some.inj hwaits
      rw [State.receive, hphase, receives]
      by_cases hstatus : r.status ||| (x.completed r).status = good
      · by_cases hmessage : (x.completed r).message.bytes = []
        · have hlength : (x.completed r).message.length = 0 := congrArg List.length hmessage
          simp only [hstatus, hmessage, hlength, ne_eq, not_true_eq_false, and_false, if_false, if_true]
          exact ⟨ledger_accept hconf, fun h => h⟩
        · have hlength : (x.completed r).message.length ≠ 0 :=
            fun hzero => hmessage (List.eq_nil_of_length_eq_zero hzero)
          simp only [hstatus, hmessage, hlength, ne_eq, not_true_eq_false, not_false_eq_true,
            and_self, if_false, if_true]
          have hconnection := acceptOpening_connection (b := b) (x.accept r).client (x.completed r).message.bytes r.heap
            r.now
          generalize acceptOpening b (x.accept r).client (x.completed r).message.bytes r.heap r.now =
            opened at hconnection ⊢
          refine @Quiet.after_exchange x id r _ _ none ?_ hconf
          split
          · exact quiet_failed _ (congrArg Connection.incompleteMessage hconnection)
              (congrArg Connection.localConf hconnection)
          · exact quiet_request request hconnection
      · simp only [hstatus, ne_eq, not_false_eq_true, false_and, if_false, if_true]
        exact Quiet.after_accept (quiet_failed _ rfl rfl) hconf
  | replying id request =>
      rw [hphase] at hwaits
      obtain rfl := Option.some.inj hwaits
      rw [State.receive, hphase, receives]
      by_cases hstatus : r.status ||| (x.completed r).status = good
      · by_cases hmessage : (x.completed r).message.bytes = []
        · simp only [hstatus, hnone.mpr hmessage, ne_eq, not_true_eq_false, if_false, if_true]
          exact ⟨ledger_accept hconf, fun h => h⟩
        · have hsome : (x.completed r).message ≠ none := fun h => hmessage (hnone.mp h)
          simp only [hstatus, hmessage, hsome, ne_eq, not_true_eq_false, not_false_eq_true, and_self, if_false, if_true]
          have hconnection := retrieveResponse_connection (b := b) (x.accept r).client id request.responseType
            (x.completed r).message.bytes r.heap
          generalize retrieveResponse b (x.accept r).client id request.responseType
            (x.completed r).message.bytes r.heap =
            a at hconnection ⊢
          refine @Quiet.after_exchange x id r _ _ (some a.1) ?_ hconf
          refine quiet_give (congrArg Connection.incompleteMessage hconnection)
            (congrArg Connection.localConf hconnection) (fun _ => ?_)
          exact ⟨_, List.mem_append_right _ (List.mem_singleton_self _), rfl, rfl⟩
      · simp only [hstatus, ne_eq, not_false_eq_true, false_and, if_false, if_true]
        exact Quiet.after_accept (quiet_failed _ rfl rfl) hconf

end Receiving

section Runs

def pending (x : State) (r : Receive) : List UInt8 := x.client.connection.incompleteMessage.bytes ++ r.bytes.bytes

def limit (x : State) : UInt32 := x.client.connection.localConf.maxMessageSize

/-- Nothing but the message for the request is completed by what is received,
and nothing is lost before it is complete. -/
structure Orderly (x : State) (requestId : UInt32) (r : Receive) : Prop where
  granted : Granted r.memory x.client.connection r.bytes
  apart : (pending x r).length ≠ 1
  fits : SizeFits (limit x) (pending x r).length
  single : Beginning (limit x) (pending x r) ∨ r.status = good ∧ ∃ m rest, pending x r = m ++ rest ∧
    WellFormed (limit x) m ∧ carriedId m = some requestId ∧ Beginning (limit x) rest

def Matches (x : State) : Event → Prop
  | .call _ => True
  | .receive r => ∀ requestId, waitsFor x.phase = some requestId → Orderly x requestId r

/-- What the caller was handed was decoded from a message with the id of its
request, and all that was received stands in messages with the id of the request
they were taken for, or is the stored beginning of the next one. -/
structure Accounted (x : State) : Prop where
  answered : ∀ r ∈ x.returned, isDecoded r.answer = true →
    ∃ e ∈ x.exchanges, e.answer = some r.answer ∧ carriedId e.reply = some r.requestId
  matched : ∀ e ∈ x.exchanges, WellFormed (limit x) e.reply ∧ carriedId e.reply = some e.requestId
  complete : x.stream = (x.exchanges.map (·.reply)).flatten ++ x.client.connection.incompleteMessage.bytes
  unfinished : Beginning (limit x) x.client.connection.incompleteMessage.bytes

variable {r : Receive}

theorem handsOver_connection {done : Completed} {message rest : List UInt8}
    (h : HandsOver (x.connection r) done message rest) : HandsOver x.client.connection done message rest := by
  refine ⟨h.handed, h.isNone, h.stored, h.localConf.trans ?_⟩
  rw [State.connection]
  split <;> rfl

theorem granted_connection : Granted r.memory (x.connection r) r.bytes ↔
    Granted r.memory x.client.connection r.bytes := by
  rw [State.connection]
  split
  · exact ⟨fun h => ⟨h.realloc, h.malloc, h.copy⟩, fun h => ⟨h.realloc, h.malloc, h.copy⟩⟩
  · exact Iff.rfl

theorem outcome_connection : outcome (x.connection r) r.bytes = advance (limit x) (pending x r) := by
  rw [State.connection]
  split <;> rfl

theorem receives_granted (h : Granted r.memory x.client.connection r.bytes) : receives x requestId r =
    if r.status = good ∧ (advance (limit x) (pending x r)).1 ≠ [] then
      (ledger x).use r.bytes.bytes (advance (limit x) (pending x r)).2 requestId (advance (limit x) (pending x r)).1
    else (ledger x).keep r.bytes.bytes (advance (limit x) (pending x r)).2 := by
  obtain ⟨hstatus, hhands⟩ := completeMessages_granted (granted_connection.mpr h)
  have hgood : r.status ||| (x.completed r).status = good ↔ r.status = good := by
    rw [or_eq_good]
    exact and_iff_left hstatus
  have hhanded : (x.completed r).message.bytes = (advance (limit x) (pending x r)).1 :=
    hhands.handed.trans (congrArg Prod.fst outcome_connection)
  have hstored : (x.completed r).connection.incompleteMessage.bytes = (advance (limit x) (pending x r)).2 :=
    hhands.stored.trans (congrArg Prod.snd outcome_connection)
  simp only [receives, hgood, hhanded, hstored]

theorem receives_refused (requestId : UInt32) (h : ¬ Granted r.memory x.client.connection r.bytes) :
    receives x requestId r = (ledger x).keep r.bytes.bytes [] ∧ pending x r ≠ [] := by
  obtain ⟨hhands, hne⟩ := completeMessages_refused (mt granted_connection.mp h)
  have hpending : (x.connection r).incompleteMessage.bytes ++ r.bytes.bytes = pending x r := by
    rw [State.connection]
    split <;> rfl
  have hhanded : (x.completed r).message.bytes = [] := hhands.handed
  have hstored : (x.completed r).connection.incompleteMessage.bytes = [] := hhands.stored
  rw [hpending] at hne
  refine ⟨?_, hne⟩
  rw [receives, hhanded, hstored, if_neg (fun hnot => hnot.2 rfl)]

/-- The balance after a `recv`, by whether the memory is granted and whether a
message is completed. -/
theorem balanced_receives_iff (h : (ledger x).Balanced) : (receives x requestId r).Balanced ↔
    Orderly x requestId r := by
  by_cases hgranted : Granted r.memory x.client.connection r.bytes
  · rw [receives_granted hgranted]
    have happart : (advance (limit x) (pending x r)).1 ++ (advance (limit x) (pending x r)).2 = pending x r →
        (pending x r).length ≠ 1 := by
      intro hall hone
      rw [advance_single hone] at hall
      rw [← hall] at hone
      cases hone
    constructor
    · intro hbalanced
      split at hbalanced
      · rename_i hreply
        obtain ⟨hbytes, hwell, hcarried, hrest⟩ := (Ledger.balanced_use_iff h).mp hbalanced
        exact ⟨hgranted, happart hbytes.symm, fits_of_advance hbytes.symm,
          .inr ⟨hreply.1, _, _, hbytes, hwell, hcarried, hrest⟩⟩
      · obtain ⟨hbytes, hbeginning⟩ := (Ledger.balanced_keep_iff h).mp hbalanced
        have hrest : (advance (limit x) (pending x r)).2 = pending x r := hbytes.symm
        have hfirst : (advance (limit x) (pending x r)).1 = [] := by
          have hle := advance_length_le (limit x) (pending x r)
          rw [hrest] at hle
          exact List.eq_nil_of_length_eq_zero (by omega)
        have hall : (advance (limit x) (pending x r)).1 ++ (advance (limit x) (pending x r)).2 = pending x r := by
          rw [hfirst, hrest, List.nil_append]
        rw [hrest] at hbeginning
        exact ⟨hgranted, happart hall, fits_of_advance hall, .inl hbeginning⟩
    · intro horderly
      rcases horderly.single with hbeginning | ⟨hgood, m, rest, hbytes, hwell, hcarried, hrest⟩
      · rw [advance_beginning hbeginning horderly.fits horderly.apart, if_neg (fun hnot => hnot.2 rfl)]
        exact (Ledger.balanced_keep_iff h).mpr ⟨rfl, hbeginning⟩
      · have hne : m ≠ [] := List.length_pos_iff.mp (by have hlength := hwell.2.2.1; omega)
        have hfits := horderly.fits
        rw [hbytes] at hfits
        rw [hbytes, advance_message hwell hrest hfits, if_pos ⟨hgood, hne⟩]
        exact (Ledger.balanced_use_iff h).mpr ⟨hbytes, hwell, hcarried, hrest⟩
  · obtain ⟨hlost, hne⟩ := receives_refused requestId hgranted
    rw [hlost]
    refine iff_of_false (fun hbalanced => ?_) (fun horderly => hgranted horderly.granted)
    exact hne ((Ledger.balanced_keep_iff h).mp hbalanced).1

theorem map_replies (x : State) : (ledger x).replies.map (·.2) = x.exchanges.map (·.reply) := List.map_map

theorem accounted_iff : Accounted x ↔ (ledger x).Balanced ∧ Answered x := by
  constructor
  · intro h
    refine ⟨⟨fun reply hreply => ?_, ?_, h.unfinished⟩, fun r hr hdecoded => ?_⟩
    · obtain ⟨e, he, rfl⟩ := List.mem_map.mp hreply
      exact h.matched e he
    · rw [map_replies]
      exact h.complete
    · obtain ⟨e, he, hanswer, hcarried⟩ := h.answered r hr hdecoded
      exact ⟨e, he, Option.some.inj ((h.matched e he).2.symm.trans hcarried), hanswer⟩
  · rintro ⟨hbalanced, hanswered⟩
    have hmatched : ∀ e ∈ x.exchanges, WellFormed (limit x) e.reply ∧ carriedId e.reply = some e.requestId :=
      fun e he => hbalanced.matched _ (List.mem_map_of_mem he)
    refine ⟨fun r hr hdecoded => ?_, hmatched, ?_, hbalanced.unfinished⟩
    · obtain ⟨e, he, hid, hanswer⟩ := hanswered r hr hdecoded
      exact ⟨e, he, hanswer, hid ▸ (hmatched e he).2⟩
    · rw [← map_replies]
      exact hbalanced.complete

theorem accounted_quiet {x' : State} (hquiet : Quiet x x') (h : Accounted x) : Accounted x' := by
  obtain ⟨hbalanced, hanswered⟩ := accounted_iff.mp h
  refine accounted_iff.mpr ⟨?_, hquiet.answered hanswered⟩
  rw [hquiet.same]
  exact hbalanced

theorem completed_handsOver (x : State) (r : Receive) : ∃ message rest,
    HandsOver x.client.connection (x.completed r) message rest := by
  by_cases hgranted : Granted r.memory (x.connection r) r.bytes
  · exact ⟨_, _, handsOver_connection (completeMessages_granted hgranted).2⟩
  · exact ⟨_, _, handsOver_connection (completeMessages_refused hgranted).1⟩

theorem accounted_receive_iff (hwaits : waitsFor x.phase = some requestId) (h : Accounted x) :
    Accounted (x.receive b r) ↔ Orderly x requestId r := by
  obtain ⟨hbalanced, hanswered⟩ := accounted_iff.mp h
  obtain ⟨message, rest, hhands⟩ := completed_handsOver x r
  have hnone : (x.completed r).message = none ↔ (x.completed r).message.bytes = [] := by
    rw [hhands.isNone, hhands.handed]
  obtain ⟨hledger, hkeeps⟩ := receive_spec (b := b) hwaits hhands.localConf hnone
  rw [accounted_iff, hledger, balanced_receives_iff hbalanced]
  exact and_iff_left (hkeeps hanswered)

theorem accounted_step_iff (x : State) (e : Event) (h : Accounted x) : Accounted (step b x e) ↔ Matches x e := by
  cases e with
  | call r =>
      refine iff_of_true ?_ trivial
      rw [step]
      split
      · exact accounted_quiet (quiet_call x r) h
      · exact h
  | receive r =>
      rw [step, Matches]
      cases hwaits : waitsFor x.phase with
      | none =>
          have hidle : x.receive b r = x := by
            cases hphase : x.phase with
            | idle => rw [State.receive, hphase]
            | opening id request =>
                rw [hphase] at hwaits
                cases hwaits
            | replying id request =>
                rw [hphase] at hwaits
                cases hwaits
          rw [hidle]
          refine iff_of_true h ?_
          rintro _ ⟨⟩
      | some requestId =>
          rw [accounted_receive_iff hwaits h]
          constructor
          · intro horderly id hid
            cases hid
            exact horderly
          · exact fun hall => hall requestId rfl

/-- In every state of a run everything is accounted for, exactly if every `recv`
was orderly. -/
theorem replies_matched_iff (b : Build) (c : Client) (events : List Event) :
    (∀ k, Accounted (run (step b) (start c) (events.take k))) ↔
      Beginning c.connection.localConf.maxMessageSize c.connection.incompleteMessage.bytes ∧
        Throughout (step b) Matches (start c) events := by
  refine (always_iff_throughout (accounted_step_iff (b := b)) (start c) events).trans (and_congr_left (fun _ => ?_))
  constructor
  · intro h
    exact h.unfinished
  · intro h
    exact ⟨nofun, nofun, rfl, h⟩

/-- A response is only handed over from a reply with the id of the request. A
fault is handed over from any reply. -/
theorem replyId_of_response {c : Client} {responseType : DataTypes.DataType} {reply : List UInt8} {heap : List Bool}
    {response : ServiceTable.Any}
    (h : (retrieveResponse b c requestId responseType reply heap).1 = .response response) :
    ∃ messageHeader tokenId sequenceNumber responseId st, attempt replyHeadersDecodeBinary ⟨reply, 0, [], heap⟩ =
      (.ok (messageHeader, tokenId, (sequenceNumber, requestId), responseId), st) := by
  rw [retrieveResponse] at h
  split at h
  · cases h
  · rename_i messageHeader tokenId sequenceNumber replyId responseId st hheaders
    split at h
    · split at h
      · cases h
      · split at h <;> cases h
    · rename_i hmatches
      have hid : replyId = requestId := by
        by_contra hne
        exact hmatches (by simp [hne])
      exact ⟨messageHeader, tokenId, sequenceNumber, responseId, st, hid ▸ hheaders⟩

def strayFault : List UInt8 :=
  [77, 83, 71, 70, 52, 0, 0, 0, 1, 0, 0, 0, 1, 0, 0, 0, 5, 0, 0, 0, 99, 0, 0, 0, 1, 0, 141, 1] ++
    [0, 0, 0, 0, 0, 0, 0, 0, 7, 0, 0, 0, 0, 0, 11, 128, 0, 255, 255, 255, 255, 0, 0, 0]

def sampleClient : Client where
  state := .connected
  connection := ⟨.established, standardConfig, standardConfig, none, none⟩
  sequenceNumber := 10
  securityToken := ⟨1, 1, 0, 30000⟩
  requestId := 7
  requestHandle := 3
  secureChannelLifeTime := 30000
  timeToRenewSecureChannel := 2000
  scExpiresAt := 300000000

def sampleEvents : List Event :=
  [.call ⟨TypeTable.closeSessionResponse, 0, .sent, .sent⟩, .receive ⟨good, some strayFault, false, .succeeds, [], 0⟩]

def received (events : List Event) : List UInt8 :=
  events.flatMap fun
    | .call _ => []
    | .receive r => r.bytes.bytes

theorem fault_handed_sampleEvents : ¬ ∀ (b : Build) (c : Client) (events : List Event) (msgs : List (List UInt8)),
    c.connection.incompleteMessage = none → (∀ m ∈ msgs, WellFormed c.connection.localConf.maxMessageSize m) →
      received events = msgs.flatten → ∀ k, Accounted (run (step b) (start c) (events.take k)) := by
  intro h
  have hwell : WellFormed standardConfig.maxMessageSize strayFault := by decide +kernel
  have haccounted := h standardBuild sampleClient sampleEvents [strayFault] rfl
    (fun m hm => by rwa [List.mem_singleton.mp hm]) (by decide +kernel) 2
  have hreturned : (run (step standardBuild) (start sampleClient) sampleEvents).returned.map
      (fun r => (r.requestId, isDecoded r.answer)) = [(8, true)] := by decide +kernel
  have hreplies : (run (step standardBuild) (start sampleClient) sampleEvents).exchanges.map
      (fun e => carriedId e.reply) = [some 99] := by decide +kernel
  obtain ⟨r, hr, hpair⟩ := List.mem_map.mp (hreturned ▸ List.mem_singleton_self (8, true))
  obtain ⟨e, he, _, hcarried⟩ := haccounted.answered r hr (congrArg Prod.snd hpair)
  have hother : carriedId e.reply ∈ [some (99 : UInt32)] := hreplies ▸ List.mem_map_of_mem he
  have hid : r.requestId = 8 := congrArg Prod.fst hpair
  rw [List.mem_singleton.mp hother, hid] at hcarried
  exact absurd hcarried (by decide)

end Runs

end States

end OpcUa.ReplyMatching
