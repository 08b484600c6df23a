import OpcUa.LittleEndian
import OpcUa.NodeIds

namespace OpcUa.Connections

open StatusCodes LittleEndian NodeIds

inductive ConnectionState
  | opening | established | closed
deriving DecidableEq, Repr

structure ConnectionConfig where
  protocolVersion : UInt32
  sendBufferSize : UInt32
  recvBufferSize : UInt32
  maxMessageSize : UInt32
  maxChunkCount : UInt32
deriving DecidableEq, Repr

def standardConfig : ConnectionConfig := ⟨0, 65536, 65536, 65536, 1⟩

/-- `UA_Connection` without the socket and the callbacks of the network layer.
The channel is named by its address. -/
structure Connection where
  state : ConnectionState
  localConf : ConnectionConfig
  remoteConf : ConnectionConfig
  channel : Option Nat
  incompleteMessage : UaString
deriving DecidableEq, Repr

def init : Connection := ⟨.closed, standardConfig, standardConfig, none, none⟩

inductive MessageType
  | msg | opn | hel | ack | clo
deriving DecidableEq, Repr

/-- The three type bytes of a message header as the source compares them. -/
def MessageType.code : MessageType → Nat
  | .msg => 77 + 83 * 256 + 71 * 65536
  | .opn => 79 + 80 * 256 + 78 * 65536
  | .hel => 72 + 69 * 256 + 76 * 65536
  | .ack => 65 + 67 * 256 + 75 * 65536
  | .clo => 67 + 76 * 256 + 79 * 65536

def recognized (msgtype : Nat) : Bool :=
  msgtype == MessageType.msg.code || msgtype == MessageType.opn.code ||
    msgtype == MessageType.hel.code || msgtype == MessageType.ack.code ||
    msgtype == MessageType.clo.code

def msgtypeAt (data : List UInt8) (pos : Nat) : Nat := ofBytes ((data.drop pos).take 3)

/-- The loop of `UA_Connection_completeMessages`: the first position after the
complete messages, and the position at which garbage was found. -/
def scanMessages (maxMessageSize : UInt32) (data : List UInt8) (pos : Nat) : Nat × Option Nat :=
  if data.length - pos ≥ 16 then
    if !recognized (msgtypeAt data pos) then (pos, some pos)
    else match read 4 data (pos + 4) with
      | none => (pos, some pos)
      | some n =>
          if toInt32 n < 16 ∨ toInt32 n > toInt32 maxMessageSize.toNat then (pos, some pos)
          else if (toInt32 n).toNat + pos > data.length then (pos, none)
          else scanMessages maxMessageSize data (pos + (toInt32 n).toNat)
  else (pos, none)
termination_by data.length - pos
decreasing_by omega

structure Allocator where
  realloc : Bool
  malloc : Bool
  copy : Bool
deriving DecidableEq, Repr

def Allocator.succeeds : Allocator := ⟨true, true, true⟩

structure Completed where
  status : StatusCode
  connection : Connection
  message : UaString
  realloced : Bool
deriving DecidableEq, Repr

/-- The callback of the network layer, which frees the buffer. -/
def releaseRecvBuffer (_message : UaString) : UaString := none

/-- `current->length - 1` in `size_t`. -/
def lastIndex (length : Nat) : Nat := if length = 0 then 18446744073709551615 else length - 1

/-- The part after the concatenation, where `current` is the stored message
if `realloced` is set and the received one otherwise. -/
def deliver (mem : Allocator) (c : Connection) (message : UaString) (realloced : Bool) : Completed :=
  let current := (if realloced then c.incompleteMessage else message).bytes
  let scanned := scanMessages c.localConf.maxMessageSize current 0
  let pos := scanned.1
  let deleteAt := scanned.2.getD (lastIndex current.length)
  if deleteAt = 0 then
    if !realloced then ⟨good, c, releaseRecvBuffer message, true⟩
    else ⟨good, { c with incompleteMessage := none }, message, true⟩
  else if pos = 0 then
    if !realloced then
      ⟨good, { c with incompleteMessage := if mem.copy then some current else none },
        releaseRecvBuffer message, true⟩
    else ⟨good, c, message, true⟩
  else if current.length ≠ pos then
    if !mem.malloc then
      ⟨badOutOfMemory, { c with incompleteMessage := none },
        if !realloced then releaseRecvBuffer message else message, true⟩
    else
      ⟨good, { c with incompleteMessage := some (current.drop pos) }, some (current.take pos),
        realloced⟩
  else if realloced then ⟨good, { c with incompleteMessage := none }, some current, true⟩
  else ⟨good, c, message, false⟩

def completeMessages (mem : Allocator) (c : Connection) (message : UaString) : Completed :=
  if c.incompleteMessage.length > 0 then
    if !mem.realloc then
      ⟨badOutOfMemory, { c with incompleteMessage := none }, releaseRecvBuffer message, false⟩
    else
      deliver mem
        { c with incompleteMessage := some (c.incompleteMessage.bytes ++ message.bytes) }
        (releaseRecvBuffer message) true
  else deliver mem c message false

/-- The chunks of a stream handed over one after the other. -/
def receive (mem : Allocator) (c : Connection) : List (List UInt8) → List (List UInt8) × Connection
  | [] => ([], c)
  | chunk :: chunks =>
      let r := completeMessages mem c (some chunk)
      let rest := receive mem r.connection chunks
      (r.message.bytes :: rest.1, rest.2)

section Framing

/-- A message of a recognized type that announces its own length, within the
limits of the connection. -/
def WellFormed (maxMessageSize : UInt32) (msg : List UInt8) : Prop :=
  recognized (msgtypeAt msg 0) = true ∧ read 4 msg 4 = some msg.length ∧ 16 ≤ msg.length ∧
    msg.length ≤ maxMessageSize.toNat

/-- The beginning of a well-formed message that is not yet complete. -/
def Unfinished (maxMessageSize : UInt32) (bytes : List UInt8) : Prop :=
  ∃ tail, tail ≠ [] ∧ WellFormed maxMessageSize (bytes ++ tail)

/-- Sizes that the signed comparison of the source handles: the limit is not
negative as `UA_Int32`, or the comparison is never reached. -/
def SizeFits (maxMessageSize : UInt32) (n : Nat) : Prop :=
  maxMessageSize.toNat < 2147483648 ∨ n < 16

instance (maxMessageSize : UInt32) (msg : List UInt8) : Decidable (WellFormed maxMessageSize msg) :=
  inferInstanceAs (Decidable (_ ∧ _))

variable {maxMessageSize : UInt32}

theorem toInt32_of_lt {n : Nat} (h : n < 2147483648) : toInt32 n = n := if_pos h

theorem msgtypeAt_append (before bytes after : List UInt8) (h : 3 ≤ bytes.length) :
    msgtypeAt (before ++ bytes ++ after) before.length = msgtypeAt bytes 0 := by
  rw [msgtypeAt, msgtypeAt, List.append_assoc, List.drop_left, List.drop_zero,
    List.take_append_of_le_length h]

/-- The header fields of a message that starts at the end of `before`, of which
at least 16 bytes are there. -/
theorem scanMessages_header (before bytes tail after : List UInt8) (hlen : 16 ≤ bytes.length)
    (hmsg : WellFormed maxMessageSize (bytes ++ tail)) (hmax : maxMessageSize.toNat < 2147483648)
    (hend : after = [] ∨ tail = []) :
    scanMessages maxMessageSize (before ++ bytes ++ after) before.length =
      if tail = [] then
        scanMessages maxMessageSize (before ++ bytes ++ after) (before.length + bytes.length)
      else (before.length, none) := by
  obtain ⟨htype, hread, hmin, hle⟩ := hmsg
  have hroom : (before ++ bytes ++ after).length - before.length ≥ 16 := by
    simp only [List.length_append]
    omega
  have htype' : msgtypeAt (before ++ bytes ++ after) before.length = msgtypeAt (bytes ++ tail) 0 := by
    rw [msgtypeAt_append _ _ _ (by omega), ← msgtypeAt_append [] bytes tail (by omega)]
    rfl
  have hread' : read 4 (before ++ bytes ++ after) (before.length + 4) =
      some (bytes ++ tail).length := by
    rw [read_append _ _ _ _ _ (by omega), ← hread, ← read_append 4 [] bytes tail 4 (by omega)]
    rfl
  rw [scanMessages, if_pos hroom, htype', htype, hread']
  simp only [Bool.not_true, Bool.false_eq_true, if_false]
  rw [toInt32_of_lt (n := (bytes ++ tail).length) (by omega), toInt32_of_lt hmax,
    if_neg (by omega), Int.toNat_natCast]
  by_cases htail : tail = []
  · rw [if_pos htail, if_neg (by simp only [htail, List.append_nil, List.length_append]; omega),
      htail, List.append_nil]
  · have hafter := hend.resolve_right htail
    have hpos := List.length_pos_iff.mpr htail
    rw [if_neg htail, if_pos (by
      simp only [hafter, List.append_nil, List.length_append]
      omega)]

theorem scanMessages_messages (before : List UInt8) (msgs : List (List UInt8)) (after : List UInt8)
    (hmsgs : ∀ m ∈ msgs, WellFormed maxMessageSize m) (hmax : maxMessageSize.toNat < 2147483648) :
    scanMessages maxMessageSize (before ++ (msgs.flatten ++ after)) before.length =
      scanMessages maxMessageSize (before ++ (msgs.flatten ++ after)) (before ++ msgs.flatten).length := by
  induction msgs generalizing before with
  | nil => simp
  | cons m msgs ih =>
      have hm := hmsgs m List.mem_cons_self
      have h := scanMessages_header before m [] (msgs.flatten ++ after) hm.2.2.1
        (by simpa using hm) hmax (Or.inr rfl)
      have hnext := ih (before ++ m) (fun x hx => hmsgs x (List.mem_cons_of_mem m hx))
      rw [if_pos rfl, ← List.length_append, hnext] at h
      simpa using h

theorem scanMessages_unfinished (before : List UInt8) {rest : List UInt8} (hrest : Unfinished maxMessageSize rest)
    (hfits : SizeFits maxMessageSize rest.length) :
    scanMessages maxMessageSize (before ++ rest) before.length = (before.length, none) := by
  obtain ⟨tail, htail, hwell⟩ := hrest
  by_cases hlen : 16 ≤ rest.length
  · have hmax := hfits.resolve_right (Nat.not_lt.mpr hlen)
    have h := scanMessages_header before rest tail [] hlen hwell hmax (Or.inl rfl)
    rw [if_neg htail, List.append_nil] at h
    exact h
  · have hshort : ¬ (before ++ rest).length - before.length ≥ 16 := by
      rw [List.length_append]
      omega
    rw [scanMessages, if_neg hshort]

theorem scanMessages_flatten (before : List UInt8) (msgs : List (List UInt8)) (rest : List UInt8)
    (hmsgs : ∀ m ∈ msgs, WellFormed maxMessageSize m) (hrest : Unfinished maxMessageSize rest)
    (hfits : SizeFits maxMessageSize (msgs.flatten ++ rest).length) :
    scanMessages maxMessageSize (before ++ (msgs.flatten ++ rest)) before.length =
      (before.length + msgs.flatten.length, none) := by
  cases msgs with
  | nil => exact scanMessages_unfinished before hrest hfits
  | cons m msgs =>
      have hm := (hmsgs m List.mem_cons_self).2.2.1
      have hmax : maxMessageSize.toNat < 2147483648 := by
        refine hfits.resolve_right ?_
        simp only [List.flatten_cons, List.length_append]
        omega
      rw [scanMessages_messages before (m :: msgs) rest hmsgs hmax, ← List.append_assoc,
        scanMessages_unfinished _ hrest (Or.inl hmax), List.length_append]

end Framing

end OpcUa.Connections
