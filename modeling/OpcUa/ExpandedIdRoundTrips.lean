import OpcUa.DecodedValues
import OpcUa.ReadBack

namespace OpcUa.ExpandedIdRoundTrips

open StatusCodes LittleEndian NodeIds DataTypes Buffers Writers ValueEncoding Readers Decoding ReadBack
open WritePrograms EncoderPrograms EncoderRuns NodeIdRoundTrips SimpleRoundTrips DecodedValues

/-- The id is the same after it has been encoded and decoded. -/
def Returned (x : ExpandedNodeId) (st : Enc) : Prop :=
  ComesBack (expandedNodeIdEncodeBinary x) expandedNodeIdDecodeBinary st x

def HasRoom (x : ExpandedNodeId) (st : Enc) : Prop :=
  st.offset + (wire (expandedNodeIdProg x)).length ≤ st.data.length

def IdReturned (n : NodeId) : Prop :=
  ∃ w, (∀ limit, Writes limit (nodeIdEncodeBinary n) w) ∧ Reads 0 nodeIdDecodeBinary w n

/-- A namespace URI is not empty and has a length of 31 bits, and flags are
only set at an offset of 32 bits. -/
def Returnable (x : ExpandedNodeId) (offset : Nat) : Prop :=
  x.namespaceUri ≠ some [] ∧ Short x.namespaceUri ∧
    (x.namespaceUri.length > 0 ∨ x.serverIndex > 0 → offset < 4294967296)

theorem representable_of_returned {n : NodeId} (h : IdReturned n) : Representable n := by
  obtain ⟨w, hw, hread⟩ := h
  obtain rfl := writes_unique hw (fun limit => writes_nodeId limit n)
  exact representable_of_reads hread

section Room

variable {x : ExpandedNodeId} {st : Enc}

theorem wire_head_ne (n : NodeId) : wire (nodeIdProg n) ≠ [] := by
  obtain ⟨tag, w, hw, _⟩ := wire_nodeIdProg n
  rw [hw]
  exact List.cons_ne_nil tag w

theorem expanded_written (hroom : HasRoom x st) (hfits : st.offset < 4294967296 ∨ expandedOptions x = []) :
    ∃ pre post st', pre.length = st.offset ∧ expandedNodeIdEncodeBinary x st = (good, st') ∧
      st'.data = pre ++ wire (expandedNodeIdProg x) ++ post ∧
      st'.offset = pre.length + (wire (expandedNodeIdProg x)).length := by
  obtain ⟨pre, mid, post, hdata, hpre, hmid⟩ := split_at hroom
  have hhead : Writes st.data.length (nodeIdProg x.nodeId).run _ :=
    run_writes _ (encodable_nodeIdProg x.nodeId).1 (Or.inr (encodable_nodeIdProg x.nodeId).2)
  obtain ⟨st', hrun, hdata', hoff'⟩ := run_tagged (expandedOptions x) hhead (wire_head_ne x.nodeId) hdata hpre.symm
    hmid (Nat.le_refl _) (hfits.imp_left (fun h => by omega))
  refine ⟨pre, post, st', hpre, ?_, hdata', hoff'⟩
  rw [expandedNodeId_run]
  exact hrun

end Room

section Displaced

variable {w : List UInt8} {pre : List UInt8}

/-- `w` stands behind as many bytes as before, and the offset is behind it. -/
def Kept (pre w : List UInt8) (st : Enc) : Prop :=
  (∃ pre' post, st.data = pre' ++ w ++ post ∧ pre'.length = pre.length) ∧ (pre ++ w).length ≤ st.offset

theorem kept_write {st : Enc} (h : Kept pre w st) (bytes : List UInt8) : Kept pre w (st.write bytes) := by
  obtain ⟨⟨pre', post, hdata, hpre⟩, hoff⟩ := h
  obtain ⟨post', hpost⟩ := overwrite_behind (pre' ++ w) post bytes (i := st.offset)
    (by rw [List.length_append, hpre, ← List.length_append]; exact hoff)
  refine ⟨⟨pre', post', ?_, hpre⟩, hoff.trans (Nat.le_add_right _ _)⟩
  change overwrite st.data st.offset bytes = _
  rw [hdata, hpost]

theorem kept_emit {st : Enc} (h : Kept pre w st) (bytes : List UInt8) : Kept pre w (emit bytes st).2 := by
  rw [emit]
  split
  · exact h
  · exact kept_write h bytes

theorem kept_run {st : Enc} (h : Kept pre w st) (a : Write) : Kept pre w (a.run st).2 := by
  cases a with
  | plain bytes => exact kept_emit h bytes
  | text bytes =>
      rw [Write.run]
      dsimp only
      split
      · exact h
      · exact kept_write (kept_emit h _) bytes

theorem kept_setFlag {st : Enc} (h : Kept pre w st) {q : Nat} (hq : q < pre.length) (flag : UInt8) :
    Kept pre w (st.setFlag q flag) := by
  obtain ⟨⟨pre', post, hdata, hpre⟩, hoff⟩ := h
  refine ⟨⟨overwrite pre' q [st.data.getD q 0 ||| flag], post, ?_, ?_⟩, hoff⟩
  · change overwrite st.data q [st.data.getD q 0 ||| flag] = _
    rw [hdata, List.append_assoc, overwrite_before _ _ _ (by omega), List.append_assoc]
  · rw [length_overwrite, hpre]

theorem kept_runOptions {q : Nat} (hq : q < pre.length) (options : List (Write × UInt8)) :
    ∀ {st : Enc}, Kept pre w st → Kept pre w (runOptions q options st).2 := by
  induction options with
  | nil =>
      intro st h
      exact h
  | cons o options ih =>
      intro st h
      exact ih (kept_setFlag (kept_run h o.1) hq o.2)

theorem expanded_displaced {x : ExpandedNodeId} {st : Enc} (hroom : HasRoom x st) (hstart : 4294967296 ≤ st.offset) :
    ∃ pre post, (expandedNodeIdEncodeBinary x st).2.data = pre ++ wire (nodeIdProg x.nodeId) ++ post ∧
      pre.length = st.offset := by
  have hshort : st.offset + (wire (nodeIdProg x.nodeId)).length ≤ st.data.length := by
    refine le_trans (Nat.add_le_add_left ?_ _) hroom
    rw [expandedNodeIdProg, wire, length_withOptions]
    exact Nat.le_add_right _ _
  obtain ⟨pre, mid, post, hdata, hpre, hmid⟩ := split_at hshort
  obtain ⟨st1, hrun, hdata1, hoff1⟩ := writes_nodeId st.data.length x.nodeId pre mid post st hdata hpre.symm
    hmid (Nat.le_refl _)
  have hkept : Kept pre (wire (nodeIdProg x.nodeId)) st1 :=
    ⟨⟨pre, post, hdata1, rfl⟩, by rw [hoff1, List.length_append]⟩
  have hq : st.offset % 4294967296 < pre.length := by
    rw [hpre]
    exact lt_of_lt_of_le (Nat.mod_lt _ (by decide)) hstart
  obtain ⟨⟨pre', post', hdata', hpre'⟩, _⟩ := kept_runOptions hq (expandedOptions x) hkept
  refine ⟨pre', post', ?_, hpre'.trans hpre⟩
  have hsecond : (expandedNodeIdEncodeBinary x st).2 =
      (runOptions (st.offset % 4294967296) (expandedOptions x) st1).2 := by
    rw [expandedNodeId_run, expandedNodeIdProg, Prog.run, ← nodeId_run]
    simp only [orThen, hrun]
  rw [hsecond]
  exact hdata'

end Displaced

theorem expandedOptions_eq_nil {x : ExpandedNodeId} :
    expandedOptions x = [] ↔ ¬ (x.namespaceUri.length > 0 ∨ x.serverIndex > 0) := by
  rw [expandedOptions, List.append_eq_nil_iff, not_or]
  refine and_congr ?_ ?_
  · split <;> simp_all
  · split <;> simp_all

theorem reads_unflagged {n : NodeId} {room : Nat} (h : Representable n) :
    Reads room expandedNodeIdDecodeBinary (wire (nodeIdProg n)) ⟨n, none, 0⟩ := by
  have hread : Reads room expandedNodeIdDecodeBinary (wire (expandedNodeIdProg ⟨n, none, 0⟩)) _ :=
    reads_expandedNodeId ⟨h, Nat.zero_lt_succ _, Or.inl rfl⟩
  exact hread

variable {x : ExpandedNodeId} {st : Enc}

theorem offset_of_returned (hroom : HasRoom x st) (hn : Representable x.nodeId) (h : Returned x st)
    (hflags : x.namespaceUri.length > 0 ∨ x.serverIndex > 0) : st.offset < 4294967296 := by
  by_contra hstart
  obtain ⟨pre, post, hdata, hpre⟩ := expanded_displaced hroom (Nat.not_lt.mp hstart)
  obtain ⟨st', hencode, hdecode⟩ := h
  obtain ⟨dst, hdecode, _⟩ := hdecode []
  rw [hencode] at hdata
  obtain ⟨_, dst', hread, _⟩ := reads_unflagged hn pre post ⟨st'.data, st.offset, [], []⟩ hdata hpre.symm
    (Nat.zero_le _) rfl
  obtain ⟨hx, _⟩ : x = ⟨x.nodeId, none, 0⟩ ∧ dst = dst' := by
    rw [hread] at hdecode
    simpa using hdecode.symm
  rw [hx] at hflags
  simp [UaString.length, UaString.bytes] at hflags

theorem short_of_returned (h : Returned x st) : Short x.namespaceUri := by
  obtain ⟨_, _, hdecode⟩ := h.decoded
  exact (expandedNodeId_ok hdecode).2.1

theorem fits_of_flags (h : x.namespaceUri.length > 0 ∨ x.serverIndex > 0 → st.offset < 4294967296) :
    st.offset < 4294967296 ∨ expandedOptions x = [] := by
  by_cases hflags : x.namespaceUri.length > 0 ∨ x.serverIndex > 0
  · exact Or.inl (h hflags)
  · exact Or.inr (expandedOptions_eq_nil.mpr hflags)

theorem uri_of_returned (hroom : HasRoom x st) (hn : Representable x.nodeId) (h : Returned x st) :
    x.namespaceUri ≠ some [] := by
  intro hempty
  obtain ⟨pre, post, st', hpre, hencode, hdata, hoff⟩ :=
    expanded_written hroom (fits_of_flags (offset_of_returned hroom hn h))
  have hback : ComesBack (expandedNodeIdEncodeBinary x) expandedNodeIdDecodeBinary st (expandedBack x x.nodeId) :=
    comesBack_of_written hencode hdata hpre hoff (reads_expandedBack (fun _ => reads_nodeId hn) (short_of_returned h))
  have huri : (expandedBack x x.nodeId).namespaceUri = none := by
    rw [expandedBack, if_neg (by simp [hempty, UaString.length, UaString.bytes])]
  rw [hback.unique h, hempty] at huri
  cases huri

theorem returned_of_returnable (hroom : HasRoom x st) (hn : Representable x.nodeId)
    (hns : x.namespaceUri.length > 0 → x.nodeId.namespaceIndex = 0) (h : Returnable x st.offset) : Returned x st := by
  obtain ⟨huri, hshort, hflags⟩ := h
  obtain ⟨pre, post, st', hpre, hencode, hdata, hoff⟩ := expanded_written hroom (fits_of_flags hflags)
  have hrange : ExpandedInRange x := by
    refine ⟨hn, hshort, ?_⟩
    match hcase : x.namespaceUri with
    | none => exact Or.inl rfl
    | some [] => exact absurd hcase huri
    | some (b :: bs) => exact Or.inr ⟨Nat.succ_pos _, hns (by rw [hcase]; exact Nat.succ_pos _)⟩
  exact comesBack_of_written hencode hdata hpre hoff (reads_expandedNodeId hrange)

theorem expandedNodeId_returned_iff (hid : IdReturned x.nodeId)
    (hns : x.namespaceUri.length > 0 → x.nodeId.namespaceIndex = 0) (hroom : HasRoom x st) :
    Returned x st ↔ Returnable x st.offset := by
  have hn := representable_of_returned hid
  constructor
  · intro h
    exact ⟨uri_of_returned hroom hn h, short_of_returned h, offset_of_returned hroom hn h⟩
  · exact returned_of_returnable hroom hn hns

theorem idReturned_of_representable {n : NodeId} (h : Representable n) : IdReturned n :=
  ⟨wire (nodeIdProg n), fun limit => writes_nodeId limit n, reads_nodeId h⟩

/-- `i=84` of server 3 in the namespace `A`. -/
def sampleId : ExpandedNodeId := ⟨numericId 0 84, some [65], 3⟩

theorem sampleId_returned : IdReturned sampleId.nodeId ∧ Returned sampleId ⟨List.replicate 16 0, 2, []⟩ := by
  have hid : IdReturned sampleId.nodeId := idReturned_of_representable ⟨by decide, by decide⟩
  have hroom : HasRoom sampleId ⟨List.replicate 16 0, 2, []⟩ := by
    unfold HasRoom
    decide
  have hshort : Returnable sampleId 2 := ⟨by decide, (by decide : 1 < 2147483648), fun _ => by decide⟩
  exact ⟨hid, (expandedNodeId_returned_iff hid (fun _ => rfl) hroom).mpr hshort⟩

/-- A buffer of more than 4 GiB, to be filled from there on. -/
def farBuffer : Enc := ⟨List.replicate (4294967296 + 16) 0, 4294967296, []⟩

/-- The flag for the URI is set at the start of the buffer, and the decoder
finds a NodeId alone. An empty URI is not written at all. -/
theorem far_and_empty_not_returned :
    (HasRoom ⟨numericId 0 1, some [65], 0⟩ farBuffer ∧ ¬ Returned ⟨numericId 0 1, some [65], 0⟩ farBuffer) ∧
      ¬ Returned ⟨numericId 0 1, some [], 0⟩ ⟨[0, 0, 0, 0], 0, []⟩ := by
  have hn : Representable (numericId 0 1) := ⟨by decide, by decide⟩
  have hroom : HasRoom ⟨numericId 0 1, some [65], 0⟩ farBuffer := by
    have hwire : (wire (expandedNodeIdProg ⟨numericId 0 1, some [65], 0⟩)).length = 7 := by decide
    have hlength : farBuffer.data.length = 4294967296 + 16 := List.length_replicate
    rw [HasRoom, hwire, hlength]
    exact Nat.add_le_add_left (by decide) 4294967296
  refine ⟨⟨hroom, fun h => ?_⟩, fun h => ?_⟩
  · have hlt : farBuffer.offset < 4294967296 := offset_of_returned hroom hn h (Or.inl (by decide))
    exact absurd hlt (Nat.lt_irrefl 4294967296)
  · refine uri_of_returned ?_ hn h rfl
    unfold HasRoom
    decide

end OpcUa.ExpandedIdRoundTrips
