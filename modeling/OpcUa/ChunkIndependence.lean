import OpcUa.Connections

namespace OpcUa.ChunkIndependence

open StatusCodes LittleEndian NodeIds Connections

section Delivery

variable {maxMessageSize : UInt32}

/-- What one call hands over and what it stores, given the stored bytes
followed by the received ones. -/
def advance (maxMessageSize : UInt32) (current : List UInt8) : List UInt8 × List UInt8 :=
  let scanned := scanMessages maxMessageSize current 0
  if scanned.2.getD (lastIndex current.length) = 0 then ([], [])
  else (current.take scanned.1, current.drop scanned.1)

def feed (maxMessageSize : UInt32) (stored : List UInt8) :
    List (List UInt8) → List (List UInt8) × List UInt8
  | [] => ([], stored)
  | chunk :: chunks =>
      let step := advance maxMessageSize (stored ++ chunk)
      let rest := feed maxMessageSize step.2 chunks
      (step.1 :: rest.1, rest.2)

theorem deliver_advance (c : Connection) (message : UaString) (realloced : Bool)
    (hsource : realloced = true → message.bytes = [])
    (hempty : realloced = false → c.incompleteMessage.bytes = []) :
    let r := deliver .succeeds c message realloced
    let current := (if realloced then c.incompleteMessage else message).bytes
    r.message.bytes = (advance c.localConf.maxMessageSize current).1 ∧
      r.connection.incompleteMessage.bytes = (advance c.localConf.maxMessageSize current).2 ∧
      r.connection.localConf = c.localConf := by
  dsimp only
  generalize hcur : (if realloced then c.incompleteMessage else message).bytes = current
  generalize hscan : scanMessages c.localConf.maxMessageSize current 0 = scanned
  unfold deliver advance
  simp only [hcur, hscan]
  by_cases hdel : scanned.2.getD (lastIndex current.length) = 0
  · cases realloced <;>
      simp_all [releaseRecvBuffer, UaString.bytes]
  · by_cases hpos : scanned.1 = 0
    · cases realloced <;>
        simp_all [releaseRecvBuffer, UaString.bytes, Allocator.succeeds]
    · by_cases hlen : current.length = scanned.1
      · have htake : current.take scanned.1 = current := by rw [← hlen, List.take_length]
        have hdrop : current.drop scanned.1 = [] := by rw [← hlen, List.drop_length]
        cases realloced <;> simp_all [UaString.bytes]
      · cases realloced <;>
          simp_all [UaString.bytes, Allocator.succeeds]

theorem completeMessages_advance (c : Connection) (chunk : List UInt8) :
    let r := completeMessages .succeeds c (some chunk)
    let step := advance c.localConf.maxMessageSize (c.incompleteMessage.bytes ++ chunk)
    r.message.bytes = step.1 ∧ r.connection.incompleteMessage.bytes = step.2 ∧
      r.connection.localConf = c.localConf := by
  unfold completeMessages
  by_cases hstored : c.incompleteMessage.length > 0
  · rw [if_pos hstored]
    have h := deliver_advance
      { c with incompleteMessage := some (c.incompleteMessage.bytes ++ chunk) }
      (releaseRecvBuffer (some chunk)) true (fun _ => rfl) (fun h => by cases h)
    simpa [Allocator.succeeds, UaString.bytes] using h
  · have hnil : c.incompleteMessage.bytes = [] :=
      List.eq_nil_of_length_eq_zero (Nat.eq_zero_of_not_pos hstored)
    rw [if_neg hstored, hnil, List.nil_append]
    exact deliver_advance c (some chunk) false (fun h => by cases h) (fun _ => hnil)

theorem receive_feed (chunks : List (List UInt8)) (c : Connection) :
    (receive .succeeds c chunks).1 =
        (feed c.localConf.maxMessageSize c.incompleteMessage.bytes chunks).1 ∧
      (receive .succeeds c chunks).2.incompleteMessage.bytes =
        (feed c.localConf.maxMessageSize c.incompleteMessage.bytes chunks).2 := by
  induction chunks generalizing c with
  | nil => exact ⟨rfl, rfl⟩
  | cons chunk chunks ih =>
      obtain ⟨hout, hstored, hconf⟩ := completeMessages_advance c chunk
      obtain ⟨hrest, hfinal⟩ := ih (completeMessages .succeeds c (some chunk)).connection
      rw [hconf, hstored] at hrest hfinal
      constructor
      · simp only [receive, feed, hout, hrest]
      · simp only [receive, feed, hfinal]

theorem advance_length_le (maxMessageSize : UInt32) (current : List UInt8) :
    (advance maxMessageSize current).1.length + (advance maxMessageSize current).2.length ≤
      current.length := by
  unfold advance
  dsimp only
  split
  · simp
  · simp only [List.length_take, List.length_drop]
    omega

theorem feed_length_le (maxMessageSize : UInt32) (chunks : List (List UInt8)) (stored : List UInt8) :
    (feed maxMessageSize stored chunks).1.flatten.length +
        (feed maxMessageSize stored chunks).2.length ≤ stored.length + chunks.flatten.length := by
  induction chunks generalizing stored with
  | nil => simp [feed]
  | cons chunk chunks ih =>
      have hstep := advance_length_le maxMessageSize (stored ++ chunk)
      have hrest := ih (advance maxMessageSize (stored ++ chunk)).2
      simp only [feed, List.flatten_cons, List.length_append] at hstep ⊢
      omega

theorem advance_single {current : List UInt8} (h : current.length = 1) :
    advance maxMessageSize current = ([], []) := by
  have hscan : scanMessages maxMessageSize current 0 = (0, none) := by
    rw [scanMessages, if_neg (by omega)]
  simp [advance, hscan, lastIndex, h]

theorem advance_flatten {msgs : List (List UInt8)} {rest : List UInt8}
    (hmsgs : ∀ m ∈ msgs, WellFormed maxMessageSize m) (hrest : Unfinished maxMessageSize rest)
    (hfits : SizeFits maxMessageSize (msgs.flatten ++ rest).length)
    (hlen : (msgs.flatten ++ rest).length ≠ 1) :
    advance maxMessageSize (msgs.flatten ++ rest) = (msgs.flatten, rest) := by
  have hscan : scanMessages maxMessageSize (msgs.flatten ++ rest) 0 =
      (msgs.flatten.length, none) := by
    simpa using scanMessages_flatten [] msgs rest hmsgs hrest hfits
  have hlast : lastIndex (msgs.flatten ++ rest).length ≠ 0 := by
    unfold lastIndex
    split
    · decide
    · omega
  simp only [advance, hscan, Option.getD_none, hlast, if_false, List.take_left, List.drop_left]

/-- A limit that is negative as `UA_Int32` rejects every header. -/
theorem advance_rejects {current : List UInt8} (hmax : 2147483648 ≤ maxMessageSize.toNat)
    (hlen : 16 ≤ current.length) : advance maxMessageSize current = ([], []) := by
  have hlt : maxMessageSize.toNat < 4294967296 := maxMessageSize.toNat_lt
  have hneg : toInt32 maxMessageSize.toNat < 0 := by
    unfold toInt32
    omega
  have hscan : scanMessages maxMessageSize current 0 = (0, some 0) := by
    rw [scanMessages, if_pos (by omega)]
    cases recognized (msgtypeAt current 0) with
    | false => rfl
    | true =>
        cases read 4 current (0 + 4) with
        | none => rfl
        | some n =>
            simp only [Bool.not_true, Bool.false_eq_true, if_false]
            rw [if_pos (by omega)]
  simp [advance, hscan]

theorem feed_loses (hmax : 2147483648 ≤ maxMessageSize.toNat) (chunks : List (List UInt8))
    (stored : List UInt8) (hstored : stored.length < 16)
    (hlen : 16 ≤ stored.length + chunks.flatten.length) :
    (feed maxMessageSize stored chunks).1.flatten.length +
        (feed maxMessageSize stored chunks).2.length < stored.length + chunks.flatten.length := by
  induction chunks generalizing stored with
  | nil =>
      rw [List.flatten_nil, List.length_nil] at hlen
      omega
  | cons chunk chunks ih =>
      rw [List.flatten_cons, List.length_append] at hlen ⊢
      simp only [feed, List.flatten_cons, List.length_append]
      by_cases hbig : 16 ≤ (stored ++ chunk).length
      · have hle := feed_length_le maxMessageSize chunks []
        rw [advance_rejects hmax hbig]
        simp only [List.length_nil, List.length_append] at hle hbig ⊢
        omega
      · have hscan : scanMessages maxMessageSize (stored ++ chunk) 0 = (0, none) := by
          rw [scanMessages, if_neg (by omega)]
        have hshort : (advance maxMessageSize (stored ++ chunk)).2.length < 16 := by
          have := advance_length_le maxMessageSize (stored ++ chunk)
          omega
        have hstep := advance_length_le maxMessageSize (stored ++ chunk)
        rw [List.length_append] at hbig hstep
        by_cases hkept : (advance maxMessageSize (stored ++ chunk)).2.length =
            stored.length + chunk.length
        · have hrest := ih _ hshort (by omega)
          omega
        · have hnothing : (advance maxMessageSize (stored ++ chunk)).1 = [] := by
            unfold advance
            simp only [hscan]
            split <;> rfl
          have hle := feed_length_le maxMessageSize chunks (advance maxMessageSize (stored ++ chunk)).2
          rw [hnothing, List.length_nil]
          rw [hnothing, List.length_nil] at hstep
          omega

end Delivery

section Chunkings

variable {maxMessageSize : UInt32}

/-- The complete messages come out in order, every buffer ends on a message
boundary, and the unfinished prefix is stored. -/
def Delivered (msgs : List (List UInt8)) (rest : List UInt8) (outs : List (List UInt8))
    (stored : List UInt8) : Prop :=
  outs.flatten = msgs.flatten ∧
    (∀ k, ∃ j ≤ msgs.length, (outs.take k).flatten = (msgs.take j).flatten) ∧ stored = rest

def Boundary (msgs : List (List UInt8)) (n : Nat) : Prop :=
  ∃ j ≤ msgs.length, (msgs.take j).flatten.length = n

/-- No one-byte chunk begins where a message begins. The first chunk begins
`start` bytes into the messages. -/
def StartsApart (msgs : List (List UInt8)) (start : Nat) (chunks : List (List UInt8)) : Prop :=
  ∀ before chunk after, chunks = before ++ chunk :: after → chunk.length = 1 →
    ¬ Boundary msgs (start + before.flatten.length)

/-- After no chunk, also an empty one, is a single byte of a message there. An
empty chunk meets the byte that is stored from before. -/
def EndsApart (msgs : List (List UInt8)) (start : Nat) (chunks : List (List UInt8)) : Prop :=
  ∀ before chunk after, chunks = before ++ chunk :: after → chunk.length ≤ 1 →
    ∀ n, Boundary msgs n → start + (before ++ [chunk]).flatten.length ≠ n + 1

theorem startsApart_iff_endsApart {msgs : List (List UInt8)} {start : Nat} {chunks : List (List UInt8)}
    (hne : ∀ c ∈ chunks, c ≠ []) : StartsApart msgs start chunks ↔ EndsApart msgs start chunks := by
  constructor
  · intro h before chunk after hsplit hlen n hn hend
    have hpos := List.length_pos_iff.mpr (hne chunk (hsplit ▸ List.mem_append_right before List.mem_cons_self))
    have hone : chunk.length = 1 := by omega
    refine h before chunk after hsplit hone ?_
    rw [List.flatten_append, List.length_append, List.flatten_singleton, hone] at hend
    have hstart : start + before.flatten.length = n := by omega
    exact hstart ▸ hn
  · intro h before chunk after hsplit hone hstart
    refine h before chunk after hsplit (Nat.le_of_eq hone) _ hstart ?_
    rw [List.flatten_append, List.length_append, List.flatten_singleton, hone, Nat.add_assoc]

theorem flatten_take_append_drop (msgs : List (List UInt8)) (k : Nat) :
    (msgs.take k).flatten ++ (msgs.drop k).flatten = msgs.flatten := by
  rw [← List.flatten_append, List.take_append_drop]

theorem flatten_take_drop (msgs : List (List UInt8)) (k j : Nat) :
    (msgs.take (k + j)).flatten = (msgs.take k).flatten ++ ((msgs.drop k).take j).flatten := by
  rw [List.take_add, List.flatten_append]

theorem unfinished_flatten {msgs : List (List UInt8)} {rest : List UInt8}
    (hmsgs : ∀ m ∈ msgs, WellFormed maxMessageSize m)
    (h : Unfinished maxMessageSize (msgs.flatten ++ rest)) : msgs = [] := by
  cases msgs with
  | nil => rfl
  | cons m msgs =>
      obtain ⟨tail, htail, _, hread, _, _⟩ := h
      obtain ⟨_, hread', hmin, _⟩ := hmsgs m List.mem_cons_self
      have hpos := List.length_pos_iff.mpr htail
      have hsame : read 4 ([] ++ m ++ (msgs.flatten ++ rest ++ tail)) (([] : List UInt8).length + 4) =
          read 4 m 4 :=
        read_append 4 [] m _ 4 (by omega)
      have hflat : (m :: msgs).flatten ++ rest ++ tail = [] ++ m ++ (msgs.flatten ++ rest ++ tail) := by
        simp
      rw [hflat] at hread
      have hlen : m.length = ([] ++ m ++ (msgs.flatten ++ rest ++ tail)).length :=
        Option.some.inj (hread'.symm.trans (hsame.symm.trans hread))
      simp only [List.nil_append, List.length_append] at hlen
      omega

theorem split_prefix {msgs : List (List UInt8)} {rest x y : List UInt8}
    (hmsgs : ∀ m ∈ msgs, WellFormed maxMessageSize m) (hrest : Unfinished maxMessageSize rest)
    (h : x ++ y = msgs.flatten ++ rest) :
    ∃ k r, x = (msgs.take k).flatten ++ r ∧ Unfinished maxMessageSize r ∧
      r ++ y = (msgs.drop k).flatten ++ rest := by
  induction msgs generalizing x with
  | nil =>
      obtain ⟨tail, htail, hwell⟩ := hrest
      refine ⟨0, x, rfl, ⟨y ++ tail, by simp [htail], ?_⟩, h⟩
      have hxy : x ++ y = rest := h
      rw [← List.append_assoc, hxy]
      exact hwell
  | cons m msgs ih =>
      have hm := hmsgs m List.mem_cons_self
      rw [List.flatten_cons, List.append_assoc] at h
      rcases List.append_eq_append_iff.mp h with ⟨t, hmt, hyt⟩ | ⟨x', hx, hrest'⟩
      · by_cases ht : t = []
        · subst ht
          rw [List.append_nil] at hmt
          obtain ⟨k, r, hk, hr, hy⟩ := ih (x := [])
            (fun a ha => hmsgs a (List.mem_cons_of_mem m ha)) (by simpa using hyt)
          refine ⟨k + 1, r, ?_, hr, hy⟩
          rw [List.take_succ_cons, List.flatten_cons, List.append_assoc, ← hk, hmt, List.append_nil]
        · exact ⟨0, x, rfl, ⟨t, ht, hmt ▸ hm⟩, by simpa [List.append_assoc] using h⟩
      · obtain ⟨k, r, hk, hr, hy⟩ := ih (fun a ha => hmsgs a (List.mem_cons_of_mem m ha)) hrest'.symm
        refine ⟨k + 1, r, ?_, hr, hy⟩
        rw [List.take_succ_cons, List.flatten_cons, List.append_assoc, ← hk, hx]

theorem delivered_cons {msgs : List (List UInt8)} {rest stored : List UInt8}
    {outs : List (List UInt8)} (k : Nat) :
    Delivered msgs rest ((msgs.take k).flatten :: outs) stored ↔
      Delivered (msgs.drop k) rest outs stored := by
  have hall := flatten_take_append_drop msgs k
  constructor
  · rintro ⟨hflat, hends, hstored⟩
    rw [List.flatten_cons, ← hall] at hflat
    refine ⟨List.append_cancel_left hflat, ?_, hstored⟩
    intro i
    obtain ⟨j, hj, hend⟩ := hends (i + 1)
    rw [List.take_succ_cons, List.flatten_cons] at hend
    by_cases hjk : k ≤ j
    · obtain ⟨d, rfl⟩ := Nat.exists_eq_add_of_le hjk
      rw [flatten_take_drop] at hend
      exact ⟨d, by simp only [List.length_drop]; omega, List.append_cancel_left hend⟩
    · obtain ⟨d, rfl⟩ := Nat.exists_eq_add_of_le (Nat.le_of_not_le hjk)
      rw [flatten_take_drop, List.append_assoc] at hend
      have hlen := congrArg List.length hend
      simp only [List.length_append] at hlen
      have hnil := List.eq_nil_of_length_eq_zero (show ((outs.take i).flatten).length = 0 by omega)
      exact ⟨0, Nat.zero_le _, by rw [hnil]; rfl⟩
  · rintro ⟨hflat, hends, hstored⟩
    refine ⟨by rw [List.flatten_cons, hflat, hall], ?_, hstored⟩
    intro i
    cases i with
    | zero => exact ⟨0, Nat.zero_le _, rfl⟩
    | succ i =>
        obtain ⟨j, hj, hend⟩ := hends i
        rw [List.length_drop] at hj
        rw [List.take_succ_cons, List.flatten_cons, hend]
        by_cases hk : k ≤ msgs.length
        · exact ⟨k + j, by omega, (flatten_take_drop msgs k j).symm⟩
        · have hdrop : msgs.drop k = [] := List.drop_eq_nil_of_le (by omega)
          have htake : msgs.take k = msgs := List.take_of_length_le (by omega)
          exact ⟨msgs.length, le_refl _, by rw [hdrop, htake, List.take_length]; simp⟩

theorem boundary_drop {msgs : List (List UInt8)} (k n : Nat) :
    Boundary msgs ((msgs.take k).flatten.length + n) ↔ Boundary (msgs.drop k) n := by
  constructor
  · rintro ⟨j, hj, hlen⟩
    by_cases hjk : k ≤ j
    · obtain ⟨d, rfl⟩ := Nat.exists_eq_add_of_le hjk
      rw [flatten_take_drop, List.length_append] at hlen
      exact ⟨d, by simp only [List.length_drop]; omega, by omega⟩
    · obtain ⟨d, rfl⟩ := Nat.exists_eq_add_of_le (Nat.le_of_not_le hjk)
      rw [flatten_take_drop, List.length_append] at hlen
      have hn : n = 0 := by omega
      exact ⟨0, Nat.zero_le _, hn.symm⟩
  · rintro ⟨j, hj, rfl⟩
    rw [List.length_drop] at hj
    by_cases hk : k ≤ msgs.length
    · refine ⟨k + j, by omega, ?_⟩
      rw [flatten_take_drop, List.length_append]
    · have hdrop : msgs.drop k = [] := List.drop_eq_nil_of_le (by omega)
      have htake : msgs.take k = msgs := List.take_of_length_le (by omega)
      refine ⟨msgs.length, le_refl _, ?_⟩
      rw [hdrop, htake, List.take_length]
      simp

theorem endsApart_cons {msgs : List (List UInt8)} {chunk r : List UInt8}
    {chunks : List (List UInt8)} {start k : Nat}
    (hlen : start + chunk.length = (msgs.take k).flatten.length + r.length)
    (hfirst : chunk.length ≤ 1 → ∀ n, Boundary msgs n → start + chunk.length ≠ n + 1)
    (hlater : ∀ n, Boundary msgs n → (msgs.take k).flatten.length ≤ n + 1 → (msgs.take k).flatten.length ≤ n) :
    EndsApart msgs start (chunk :: chunks) ↔ EndsApart (msgs.drop k) r.length chunks := by
  have hshift (before : List (List UInt8)) : start + (chunk :: before).flatten.length =
      (msgs.take k).flatten.length + (r.length + before.flatten.length) := by
    rw [List.flatten_cons, List.length_append]
    omega
  constructor
  · intro h before c after hsplit hc n hn hend
    have hstart := h (chunk :: before) c after (by rw [hsplit]; rfl) hc _ ((boundary_drop k n).mpr hn)
    rw [List.cons_append, hshift] at hstart
    omega
  · intro h before c after hsplit hc n hn hend
    cases before with
    | nil =>
        obtain ⟨rfl, rfl⟩ := List.cons.inj hsplit
        exact hfirst hc n hn (by simpa using hend)
    | cons b before =>
        obtain ⟨rfl, hrest⟩ := List.cons.inj hsplit
        rw [List.cons_append, hshift] at hend
        obtain ⟨d, rfl⟩ := Nat.exists_eq_add_of_le (hlater n hn (by omega))
        exact h before c after hrest hc d ((boundary_drop k d).mp hn) (by omega)

/-- The boundary before the end of a message is further away than a byte. -/
theorem boundary_le {msgs : List (List UInt8)} (hmsgs : ∀ m ∈ msgs, WellFormed maxMessageSize m) (k : Nat) {n : Nat}
    (hn : Boundary msgs n) (hle : (msgs.take k).flatten.length ≤ n + 1) : (msgs.take k).flatten.length ≤ n := by
  obtain ⟨j, _, rfl⟩ := hn
  rcases Nat.le_total k j with hkj | hjk
  · obtain ⟨d, rfl⟩ := Nat.exists_eq_add_of_le hkj
    rw [flatten_take_drop, List.length_append]
    exact Nat.le_add_right _ _
  · obtain ⟨d, rfl⟩ := Nat.exists_eq_add_of_le hjk
    rw [flatten_take_drop, List.length_append] at hle ⊢
    cases hbetween : (msgs.drop j).take d with
    | nil => exact Nat.le_refl _
    | cons m between =>
        have hm : m ∈ (msgs.drop j).take d := hbetween ▸ List.mem_cons_self
        obtain ⟨_, _, hmin, _⟩ := hmsgs m (List.mem_of_mem_drop (List.mem_of_mem_take hm))
        rw [hbetween, List.flatten_cons, List.length_append] at hle
        omega

/-- A boundary in the part that is stored is its beginning. -/
theorem boundary_of_unfinished {msgs : List (List UInt8)} {rest r y : List UInt8} {n : Nat}
    (hmsgs : ∀ m ∈ msgs, WellFormed maxMessageSize m) (hr : Unfinished maxMessageSize r)
    (h : r ++ y = msgs.flatten ++ rest) (hn : Boundary msgs n) (hle : n ≤ r.length) : n = 0 := by
  obtain ⟨j, _, rfl⟩ := hn
  rw [← flatten_take_append_drop msgs j, List.append_assoc] at h
  obtain ⟨tail, heq⟩ : (msgs.take j).flatten <+: r := by
    refine List.prefix_of_prefix_length_le ?_ (List.prefix_append r y) hle
    rw [h]
    exact List.prefix_append _ _
  have hnone := unfinished_flatten (fun m hm => hmsgs m (List.mem_of_mem_take hm)) (heq ▸ hr)
  rw [hnone]
  rfl

theorem feed_delivered_iff (chunks : List (List UInt8)) {msgs : List (List UInt8)}
    {rest r : List UInt8} (hmsgs : ∀ m ∈ msgs, WellFormed maxMessageSize m)
    (hrest : Unfinished maxMessageSize rest) (hr : Unfinished maxMessageSize r)
    (hstream : r ++ chunks.flatten = msgs.flatten ++ rest)
    (hfits : SizeFits maxMessageSize (r ++ chunks.flatten).length) :
    Delivered msgs rest (feed maxMessageSize r chunks).1 (feed maxMessageSize r chunks).2 ↔
      EndsApart msgs r.length chunks := by
  induction chunks generalizing msgs r with
  | nil =>
      rw [List.flatten_nil, List.append_nil] at hstream
      have hnone := unfinished_flatten hmsgs (hstream ▸ hr)
      subst hnone
      constructor
      · intro _ before c after hsplit
        simp at hsplit
      · intro _
        exact ⟨rfl, fun k => ⟨0, le_refl _, by simp [feed]⟩, hstream⟩
  | cons chunk chunks ih =>
      rw [List.flatten_cons, ← List.append_assoc] at hstream hfits
      by_cases hone : (r ++ chunk).length = 1
      · constructor
        · rintro ⟨hflat, _, hstored⟩
          have hle := feed_length_le maxMessageSize chunks []
          have hlen := congrArg List.length hstream
          simp only [feed, advance_single hone] at hflat hstored
          rw [List.flatten_cons, List.nil_append] at hflat
          rw [hflat, hstored] at hle
          simp only [List.length_append, List.length_nil] at hle hlen hone
          omega
        · intro h
          rw [List.length_append] at hone
          refine absurd ?_ (h [] chunk chunks rfl (by omega) 0 ⟨0, Nat.zero_le _, rfl⟩)
          simpa using hone
      · obtain ⟨k, r', hsplit, hr', hnext⟩ := split_prefix hmsgs hrest hstream
        have htake : ∀ m ∈ msgs.take k, WellFormed maxMessageSize m :=
          fun m hm => hmsgs m (List.mem_of_mem_take hm)
        have hstep : advance maxMessageSize (r ++ chunk) = ((msgs.take k).flatten, r') := by
          rw [hsplit] at hone ⊢
          refine advance_flatten htake hr' ?_ hone
          rw [← hsplit]
          exact hfits.imp id (fun h => by rw [List.length_append] at h; omega)
        have hfits' : SizeFits maxMessageSize (r' ++ chunks.flatten).length := by
          refine hfits.imp id (fun h => ?_)
          rw [hsplit, List.append_assoc, List.length_append] at h
          omega
        have hih := ih (fun m hm => hmsgs m (List.mem_of_mem_drop hm)) hr' hnext hfits'
        have hlen : r.length + chunk.length = (msgs.take k).flatten.length + r'.length := by
          simpa only [List.length_append] using congrArg List.length hsplit
        have hfirst : chunk.length ≤ 1 → ∀ n, Boundary msgs n → r.length + chunk.length ≠ n + 1 := by
          intro hc n hn hend
          have hzero := boundary_of_unfinished hmsgs hr ((List.append_assoc _ _ _).symm.trans hstream) hn (by omega)
          rw [List.length_append] at hone
          omega
        rw [endsApart_cons hlen hfirst (fun n hn => boundary_le hmsgs k hn), ← hih]
        simp only [feed, hstep]
        exact delivered_cons k

/-- A stream in which the messages are well formed, cut into chunks, of which
some may be empty. -/
structure Cut (maxMessageSize : UInt32) (msgs : List (List UInt8)) (rest : List UInt8)
    (chunks : List (List UInt8)) : Prop where
  wellFormed : ∀ m ∈ msgs, WellFormed maxMessageSize m
  unfinished : Unfinished maxMessageSize rest
  flatten_eq : chunks.flatten = msgs.flatten ++ rest

structure Stream (maxMessageSize : UInt32) (msgs : List (List UInt8)) (rest : List UInt8)
    (chunks : List (List UInt8)) : Prop extends Cut maxMessageSize msgs rest chunks where
  nonempty : ∀ c ∈ chunks, c ≠ []

theorem unfinished_nil {rest : List UInt8} (h : Unfinished maxMessageSize rest) :
    Unfinished maxMessageSize [] := by
  obtain ⟨tail, htail, hwell⟩ := h
  exact ⟨rest ++ tail, by simp [htail], hwell⟩

theorem receive_delivers_iff {c : Connection} {msgs : List (List UInt8)}
    {rest : List UInt8} {chunks : List (List UInt8)} (hfresh : c.incompleteMessage.bytes = [])
    (hcut : Cut c.localConf.maxMessageSize msgs rest chunks) :
    Delivered msgs rest (receive .succeeds c chunks).1
        (receive .succeeds c chunks).2.incompleteMessage.bytes ↔
      SizeFits c.localConf.maxMessageSize chunks.flatten.length ∧ EndsApart msgs 0 chunks := by
  obtain ⟨houts, hstored⟩ := receive_feed chunks c
  rw [houts, hstored, hfresh]
  by_cases hfits : SizeFits c.localConf.maxMessageSize chunks.flatten.length
  · have hfed := feed_delivered_iff chunks hcut.wellFormed hcut.unfinished (unfinished_nil hcut.unfinished)
      hcut.flatten_eq hfits
    rw [List.length_nil] at hfed
    rw [hfed]
    exact ⟨fun h => ⟨hfits, h⟩, fun h => h.2⟩
  · refine iff_of_false ?_ (fun h => hfits h.1)
    rintro ⟨hflat, _, hrest⟩
    simp only [SizeFits, not_or, Nat.not_lt] at hfits
    have hlost := feed_loses hfits.1 chunks [] (by decide) (by simpa using hfits.2)
    rw [hflat, hrest, hcut.flatten_eq] at hlost
    simp only [List.length_append, List.length_nil] at hlost
    omega

/-- On a fresh connection the cuts do not matter exactly if the size limit is
positive as `UA_Int32` (or never looked at) and no chunk is the first byte of
a message alone. -/
theorem completeMessages_delivers_iff {c : Connection} {msgs : List (List UInt8)}
    {rest : List UInt8} {chunks : List (List UInt8)} (hfresh : c.incompleteMessage = none)
    (hstream : Stream c.localConf.maxMessageSize msgs rest chunks) :
    Delivered msgs rest (receive .succeeds c chunks).1
        (receive .succeeds c chunks).2.incompleteMessage.bytes ↔
      SizeFits c.localConf.maxMessageSize chunks.flatten.length ∧ StartsApart msgs 0 chunks := by
  rw [startsApart_iff_endsApart hstream.nonempty]
  have hnil : c.incompleteMessage.bytes = [] := by
    rw [hfresh]
    rfl
  exact receive_delivers_iff hnil hstream.toCut

def hello : List UInt8 := [72, 69, 76, 70, 16, 0, 0, 0, 0, 0, 0, 0, 0, 0, 0, 0]

theorem hello_cut (chunks : List (List UInt8)) (hflat : chunks.flatten = hello) : Cut 65536 [hello] [] chunks := by
  have hwell : WellFormed 65536 hello := by decide
  refine ⟨by simpa using hwell, ⟨hello, by decide, hwell⟩, ?_⟩
  rw [hflat]
  simp

theorem hello_stream (chunks : List (List UInt8)) (hne : ∀ c ∈ chunks, c ≠ [])
    (hflat : chunks.flatten = hello) : Stream 65536 [hello] [] chunks := ⟨hello_cut chunks hflat, hne⟩

/-- The first byte of the message alone is thrown away. -/
theorem completeMessages_loses_byte : ¬ ∀ (c : Connection) (msgs : List (List UInt8))
    (rest : List UInt8) (chunks : List (List UInt8)), c.incompleteMessage = none →
      Stream c.localConf.maxMessageSize msgs rest chunks →
      Delivered msgs rest (receive .succeeds c chunks).1
        (receive .succeeds c chunks).2.incompleteMessage.bytes := by
  intro h
  have hstream := hello_stream [hello.take 1, hello.drop 1] (by decide) (by decide)
  have hbad := h init [hello] [] _ rfl hstream
  obtain ⟨houts, hstored⟩ := receive_feed [hello.take 1, hello.drop 1] init
  have hle := feed_length_le 65536 [hello.drop 1] []
  have hone : advance 65536 (hello.take 1) = ([], []) := advance_single rfl
  obtain ⟨hflat, _, _⟩ := hbad
  rw [houts] at hflat
  change ((advance 65536 (hello.take 1)).1 ::
    (feed 65536 (advance 65536 (hello.take 1)).2 [hello.drop 1]).1).flatten = _ at hflat
  rw [hone, List.flatten_cons, List.nil_append] at hflat
  rw [hflat] at hle
  have hall : [hello].flatten.length = 16 := by decide
  have hpart : [hello.drop 1].flatten.length = 15 := by decide
  rw [hall, hpart, List.length_nil] at hle
  omega

/-- Cut after the third byte the same message arrives. -/
theorem completeMessages_delivers_hello :
    Stream init.localConf.maxMessageSize [hello] [] [hello.take 3, hello.drop 3] ∧
      Delivered [hello] [] (receive .succeeds init [hello.take 3, hello.drop 3]).1
        (receive .succeeds init [hello.take 3, hello.drop 3]).2.incompleteMessage.bytes := by
  have hstream := hello_stream [hello.take 3, hello.drop 3] (by decide) (by decide)
  refine ⟨hstream, (completeMessages_delivers_iff rfl hstream).mpr ⟨.inl (by decide), ?_⟩⟩
  intro before chunk after hsplit hone
  have hmem : chunk ∈ [hello.take 3, hello.drop 3] := hsplit ▸ List.mem_append_right before List.mem_cons_self
  exact absurd hone ((by decide : ∀ chunk ∈ [hello.take 3, hello.drop 3], chunk.length ≠ 1) chunk hmem)

end Chunkings

end OpcUa.ChunkIndependence
