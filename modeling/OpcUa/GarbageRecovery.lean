import OpcUa.ChunkIndependence

namespace OpcUa.GarbageRecovery

open StatusCodes LittleEndian NodeIds Connections ChunkIndependence

variable {maxMessageSize : UInt32}

/-- At least 16 bytes that do not begin with the header of an admissible
message: the type is unknown or the length is not allowed. -/
def Rejected (maxMessageSize : UInt32) (bytes : List UInt8) : Prop :=
  16 ≤ bytes.length ∧ (recognized (msgtypeAt bytes 0) = false ∨
    ∀ n ∈ read 4 bytes 4, toInt32 n < 16 ∨ toInt32 n > toInt32 maxMessageSize.toNat)

def cleared (c : Connection) : Connection := { c with incompleteMessage := none }

/-- The messages come out, nothing is kept, and all later calls answer as if the
bytes behind the messages had never been there. -/
def Recovers (mem : Allocator) (c : Connection) (chunk : List UInt8) (msgs : List (List UInt8)) :
    Prop :=
  let r := completeMessages mem c (some chunk)
  r.message.bytes = msgs.flatten ∧ r.connection.incompleteMessage.bytes = [] ∧
    ∀ (later : Allocator) (chunks : List (List UInt8)),
      (receive later r.connection chunks).1 = (receive later (cleared c) chunks).1

theorem scanMessages_rejected (before : List UInt8) {garbage : List UInt8}
    (h : Rejected maxMessageSize garbage) :
    scanMessages maxMessageSize (before ++ garbage) before.length =
      (before.length, some before.length) := by
  obtain ⟨hlen, hbad⟩ := h
  have hroom : (before ++ garbage).length - before.length ≥ 16 := by
    rw [List.length_append]
    omega
  have htype : msgtypeAt (before ++ garbage) before.length = msgtypeAt garbage 0 := by
    have := msgtypeAt_append before garbage [] (by omega)
    rwa [List.append_nil] at this
  have hread : read 4 (before ++ garbage) (before.length + 4) = read 4 garbage 4 := by
    have := read_append 4 before garbage [] 4 (by omega)
    rwa [List.append_nil] at this
  rw [scanMessages, if_pos hroom, htype, hread]
  cases hrec : recognized (msgtypeAt garbage 0) with
  | false => rfl
  | true =>
      have hsize := hbad.resolve_left (by simp [hrec])
      cases hn : read 4 garbage 4 with
      | none => rfl
      | some n =>
          have hout := hsize n hn
          simp only [Bool.not_true, Bool.false_eq_true, if_false]
          rw [if_pos hout]

/-- A limit that is negative as `UA_Int32` rejects everything. -/
theorem rejected_of_negative (hmax : 2147483648 ≤ maxMessageSize.toNat) {bytes : List UInt8}
    (hlen : 16 ≤ bytes.length) : Rejected maxMessageSize bytes := by
  refine ⟨hlen, Or.inr ?_⟩
  intro n _
  have hlt : maxMessageSize.toNat < 4294967296 := maxMessageSize.toNat_lt
  have hneg : toInt32 maxMessageSize.toNat < 0 := by
    unfold toInt32
    omega
  omega

theorem scanMessages_garbage {msgs : List (List UInt8)} {garbage : List UInt8}
    (hmsgs : ∀ m ∈ msgs, WellFormed maxMessageSize m) (hgarbage : Rejected maxMessageSize garbage)
    (hmax : maxMessageSize.toNat < 2147483648) :
    scanMessages maxMessageSize (msgs.flatten ++ garbage) 0 =
      (msgs.flatten.length, some msgs.flatten.length) := by
  have h := scanMessages_messages [] msgs garbage hmsgs hmax
  rw [List.nil_append, List.nil_append, List.length_nil] at h
  rw [h]
  exact scanMessages_rejected msgs.flatten hgarbage

section Clearing

variable {c₁ c₂ : Connection}

/-- The connections differ at most in how they keep nothing. -/
def Alike (c₁ c₂ : Connection) : Prop :=
  cleared c₁ = cleared c₂ ∧ (c₁.incompleteMessage = c₂.incompleteMessage ∨
    (c₁.incompleteMessage.bytes = [] ∧ c₂.incompleteMessage.bytes = []))

theorem alike_cleared (h : c₁.incompleteMessage.bytes = []) : Alike c₁ (cleared c₁) :=
  ⟨rfl, Or.inr ⟨h, rfl⟩⟩

theorem eq_of_cleared (hc : cleared c₁ = cleared c₂) :
    c₂ = { c₁ with incompleteMessage := c₂.incompleteMessage } := by
  cases c₁
  cases c₂
  simp_all [cleared]

theorem length_eq_zero {s : UaString} (h : s.bytes = []) : ¬ s.length > 0 := by
  simp [UaString.length, h]

theorem deliver_alike (mem : Allocator) (c : Connection) (message : UaString) {x₁ x₂ : UaString}
    (h₁ : x₁.bytes = []) (h₂ : x₂.bytes = []) :
    (deliver mem { c with incompleteMessage := x₁ } message false).message =
        (deliver mem { c with incompleteMessage := x₂ } message false).message ∧
      Alike (deliver mem { c with incompleteMessage := x₁ } message false).connection
        (deliver mem { c with incompleteMessage := x₂ } message false).connection := by
  have hleft : Alike { c with incompleteMessage := x₁ } { c with incompleteMessage := x₂ } :=
    ⟨rfl, Or.inr ⟨h₁, h₂⟩⟩
  unfold deliver
  simp only [Bool.false_eq_true, if_false, Bool.not_false, if_true]
  split
  · exact ⟨rfl, hleft⟩
  · split
    · exact ⟨rfl, rfl, Or.inl rfl⟩
    · split
      · split
        · exact ⟨rfl, rfl, Or.inl rfl⟩
        · exact ⟨rfl, rfl, Or.inl rfl⟩
      · exact ⟨rfl, hleft⟩

theorem completeMessages_alike (mem : Allocator) (message : UaString) (h : Alike c₁ c₂) :
    (completeMessages mem c₁ message).message = (completeMessages mem c₂ message).message ∧
      Alike (completeMessages mem c₁ message).connection
        (completeMessages mem c₂ message).connection := by
  rcases h.2 with hsame | ⟨h₁, h₂⟩
  · rw [eq_of_cleared h.1, ← hsame]
    exact ⟨rfl, rfl, Or.inl rfl⟩
  · unfold completeMessages
    rw [if_neg (length_eq_zero h₁), if_neg (length_eq_zero h₂), eq_of_cleared h.1]
    exact deliver_alike mem c₁ message h₁ h₂

theorem receive_alike (mem : Allocator) (chunks : List (List UInt8)) (h : Alike c₁ c₂) :
    (receive mem c₁ chunks).1 = (receive mem c₂ chunks).1 := by
  induction chunks generalizing c₁ c₂ with
  | nil => rfl
  | cons chunk chunks ih =>
      obtain ⟨hmessage, halike⟩ := completeMessages_alike mem (some chunk) h
      simp only [receive, hmessage, ih halike]

end Clearing

/-- The whole buffer is garbage: it is thrown away, with any outcome of the
allocations. -/
theorem recovers_of_rejected (mem : Allocator) {c : Connection} {chunk : List UInt8}
    (h : Rejected c.localConf.maxMessageSize (c.incompleteMessage.bytes ++ chunk)) :
    Recovers mem c chunk [] := by
  have hscan : scanMessages c.localConf.maxMessageSize (c.incompleteMessage.bytes ++ chunk) 0 =
      (0, some 0) := scanMessages_rejected [] h
  have hkept : (completeMessages mem c (some chunk)).message.bytes = [] ∧
      (completeMessages mem c (some chunk)).connection.incompleteMessage.bytes = [] ∧
      cleared (completeMessages mem c (some chunk)).connection = cleared c := by
    unfold completeMessages
    by_cases hstored : c.incompleteMessage.length > 0
    · rw [if_pos hstored]
      cases hmem : mem.realloc with
      | false => exact ⟨rfl, rfl, rfl⟩
      | true =>
          unfold deliver
          simp only [Bool.not_true, Bool.false_eq_true, if_false, if_true, UaString.bytes,
            Option.getD_some] at hscan ⊢
          simp only [hscan, Option.getD_some, if_true]
          exact ⟨rfl, rfl, rfl⟩
    · have hnil : c.incompleteMessage.bytes = [] :=
        List.eq_nil_of_length_eq_zero (Nat.eq_zero_of_not_pos hstored)
      rw [hnil, List.nil_append] at hscan
      rw [if_neg hstored]
      unfold deliver
      have hchunk : UaString.bytes (some chunk) = chunk := rfl
      simp only [Bool.false_eq_true, if_false, hchunk, hscan, Option.getD_some, if_true,
        Bool.not_false]
      exact ⟨rfl, hnil, trivial⟩
  obtain ⟨hmessage, hbytes, hcleared⟩ := hkept
  refine ⟨hmessage, hbytes, ?_⟩
  intro later chunks
  rw [← hcleared]
  exact receive_alike later chunks (alike_cleared hbytes)

/-- Behind messages the garbage is stored, or a failed allocation loses the
messages. -/
theorem deliver_garbage (mem : Allocator) {c : Connection} {message : UaString} {realloced : Bool}
    {messages garbage : List UInt8} (hne : messages ≠ []) (hlen : 16 ≤ garbage.length)
    (hcur : (if realloced then c.incompleteMessage else message).bytes = messages ++ garbage)
    (hscan : scanMessages c.localConf.maxMessageSize (messages ++ garbage) 0 =
      (messages.length, some messages.length)) (hsource : realloced = true → message.bytes = []) :
    (deliver mem c message realloced).connection.incompleteMessage.bytes = garbage ∨
      (deliver mem c message realloced).message.bytes = [] := by
  have hpos : messages.length ≠ 0 := fun h => hne (List.eq_nil_of_length_eq_zero h)
  have hmore : (messages ++ garbage).length ≠ messages.length := by
    rw [List.length_append]
    omega
  unfold deliver
  simp only [hcur, hscan, Option.getD_some, hpos, hmore, if_false, ne_eq, not_false_eq_true, if_true]
  cases mem.malloc with
  | true => exact Or.inl (by simp [UaString.bytes])
  | false =>
      cases realloced with
      | false => exact Or.inr rfl
      | true => exact Or.inr (hsource rfl)

/-- Behind at least one message the garbage is kept as if it were the beginning
of the next message, or the messages are lost. -/
theorem not_recovers_of_messages (mem : Allocator) {c : Connection} {chunk garbage : List UInt8}
    {msgs : List (List UInt8)} (hmsgs : ∀ m ∈ msgs, WellFormed c.localConf.maxMessageSize m)
    (hgarbage : Rejected c.localConf.maxMessageSize garbage)
    (hbuffer : c.incompleteMessage.bytes ++ chunk = msgs.flatten ++ garbage) (hsome : msgs ≠ []) :
    ¬ Recovers mem c chunk msgs := by
  rintro ⟨hmessage, hkept, _⟩
  obtain ⟨m, rest, rfl⟩ := List.exists_cons_of_ne_nil hsome
  have hlong : 16 ≤ (m :: rest).flatten.length := by
    have hmin := (hmsgs m List.mem_cons_self).2.2.1
    rw [List.flatten_cons, List.length_append]
    omega
  have hne : (m :: rest).flatten ≠ [] := by
    intro hnil
    rw [hnil] at hlong
    exact absurd hlong (by decide)
  have hgne : garbage ≠ [] := by
    rintro rfl
    exact absurd hgarbage.1 (by decide)
  by_cases hmax : c.localConf.maxMessageSize.toNat < 2147483648
  · have hscan := scanMessages_garbage hmsgs hgarbage hmax
    unfold completeMessages at hmessage hkept
    by_cases hstored : c.incompleteMessage.length > 0
    · rw [if_pos hstored] at hmessage hkept
      cases hmem : mem.realloc with
      | false =>
          simp only [hmem, Bool.not_false, if_true] at hmessage
          exact hne hmessage.symm
      | true =>
          simp only [hmem, Bool.not_true, Bool.false_eq_true, if_false] at hmessage hkept
          have hcur : (if true = true then
              some (c.incompleteMessage.bytes ++ UaString.bytes (some chunk))
              else releaseRecvBuffer (some chunk) : UaString).bytes =
                (m :: rest).flatten ++ garbage := hbuffer
          obtain hstore | hlost := deliver_garbage mem hne hgarbage.1
            (c := { c with incompleteMessage := some (c.incompleteMessage.bytes ++ chunk) })
            hcur hscan (fun _ => rfl)
          · exact hgne (hstore.symm.trans hkept)
          · exact hne (hmessage.symm.trans hlost)
    · have hnil : c.incompleteMessage.bytes = [] :=
        List.eq_nil_of_length_eq_zero (Nat.eq_zero_of_not_pos hstored)
      rw [hnil, List.nil_append] at hbuffer
      rw [if_neg hstored] at hmessage hkept
      have hcur : (if false = true then c.incompleteMessage else some chunk : UaString).bytes =
          (m :: rest).flatten ++ garbage := hbuffer
      obtain hstore | hlost := deliver_garbage mem hne hgarbage.1 hcur hscan (fun h => by cases h)
      · exact hgne (hstore.symm.trans hkept)
      · exact hne (hmessage.symm.trans hlost)
  · -- A negative limit rejects the first message already.
    have hall : Rejected c.localConf.maxMessageSize (c.incompleteMessage.bytes ++ chunk) := by
      rw [hbuffer]
      exact rejected_of_negative (by omega) (by rw [List.length_append]; omega)
    obtain ⟨hnone, _⟩ := recovers_of_rejected mem hall
    exact hne (hmessage.symm.trans hnone)

/-- Garbage in a buffer does no harm exactly if no message stands before it. -/
theorem completeMessages_recovers_iff (mem : Allocator) {c : Connection}
    {chunk garbage : List UInt8} {msgs : List (List UInt8)}
    (hmsgs : ∀ m ∈ msgs, WellFormed c.localConf.maxMessageSize m)
    (hgarbage : Rejected c.localConf.maxMessageSize garbage)
    (hbuffer : c.incompleteMessage.bytes ++ chunk = msgs.flatten ++ garbage) :
    Recovers mem c chunk msgs ↔ msgs = [] := by
  constructor
  · intro h
    by_contra hsome
    exact not_recovers_of_messages mem hmsgs hgarbage hbuffer hsome h
  · rintro rfl
    refine recovers_of_rejected mem ?_
    rw [hbuffer]
    exact hgarbage

def zeros : List UInt8 := List.replicate 16 0

theorem rejected_zeros : Rejected 65536 zeros := ⟨by decide, Or.inl (by decide)⟩

theorem completeMessages_recovers_zeros : Recovers .succeeds init zeros [] :=
  (completeMessages_recovers_iff .succeeds (c := init) (by simp) rejected_zeros rfl).mpr rfl

theorem receive_hello_zeros :
    (receive .succeeds init [hello ++ zeros, hello]).1 = [hello, []] ∧
      (receive .succeeds init [hello, hello]).1 = [hello, hello] := by
  have hmsgs : ∀ m ∈ [hello], WellFormed 65536 m := by decide
  have hscan : scanMessages 65536 (hello ++ zeros) 0 = (16, some 16) :=
    scanMessages_garbage hmsgs rejected_zeros (by decide)
  have hagain : scanMessages 65536 (zeros ++ hello) 0 = (0, some 0) :=
    scanMessages_rejected [] ⟨by decide, Or.inl (by decide)⟩
  have hwhole : advance 65536 hello = (hello, []) := by
    have hrest : Unfinished 65536 [] := ⟨hello, by decide, by decide⟩
    have h := advance_flatten hmsgs hrest
      (Or.inl (by decide)) (by decide)
    simpa using h
  have hfirst : advance 65536 (hello ++ zeros) = (hello, zeros) := by
    simp only [advance, hscan]
    decide
  have hsecond : advance 65536 (zeros ++ hello) = ([], []) := by
    simp [advance, hagain]
  have hstart : init.incompleteMessage.bytes = [] := rfl
  have hconf : init.localConf.maxMessageSize = 65536 := rfl
  rw [(receive_feed _ init).1, (receive_feed _ init).1, hstart, hconf]
  simp only [feed, List.nil_append, hfirst, hsecond, hwhole]
  exact ⟨trivial, trivial⟩

/-- After a message and 16 zero bytes the following message is lost. -/
theorem garbage_poisons : ¬ ∀ (c : Connection) (chunk garbage : List UInt8)
    (msgs : List (List UInt8)), (∀ m ∈ msgs, WellFormed c.localConf.maxMessageSize m) →
      Rejected c.localConf.maxMessageSize garbage →
      c.incompleteMessage.bytes ++ chunk = msgs.flatten ++ garbage →
      Recovers .succeeds c chunk msgs := by
  intro h
  obtain ⟨_, _, hlater⟩ := h init (hello ++ zeros) zeros [hello]
    (show ∀ m ∈ [hello], WellFormed 65536 m by decide) rejected_zeros rfl
  have hbad := receive_hello_zeros.1
  have hgood := receive_hello_zeros.2
  have hnext := hlater .succeeds [hello]
  simp only [receive, List.cons.injEq, and_true] at hbad hgood hnext
  rw [hbad.2] at hnext
  have hclear : cleared init = init := rfl
  have hfirst : (receive .succeeds init [hello]).1 = [hello] := by
    simp only [receive, hgood.1]
  rw [hclear] at hnext
  simp only [receive, List.cons.injEq, and_true] at hfirst
  rw [hfirst] at hnext
  exact absurd hnext (by decide)

end OpcUa.GarbageRecovery
