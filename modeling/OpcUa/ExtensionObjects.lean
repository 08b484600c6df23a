import OpcUa.SimpleRoundTrips

namespace OpcUa.ExtensionObjects

open Filter
open StatusCodes LittleEndian NodeIds DataTypes TypeTable Values Writers ValueEncoding Readers Decoding ValueDecoding
  ReadBack WritePrograms EncoderPrograms EncoderRuns LeafReading NodeIdRoundTrips ValueReading SimpleRoundTrips

variable {room limit : Nat}

/-- What the decoder makes of the id `i` of namespace 0. -/
def onWire (i : UInt32) : UInt32 := if i = 256 then 0 else i

theorem compacted_zero (i : UInt32) : compacted 0 i = numericId 0 (onWire i) := by
  rw [onWire]
  split
  · rename_i h
    rw [h]
    rfl
  · rename_i h
    rw [(compacted_eq_iff 0 i).mpr]
    exact ⟨fun hi => h hi.2, fun hns => (by decide : (0 : UInt16) ≠ 256) hns.1⟩

theorem onWire_eq_iff (i : UInt32) : onWire i = i ↔ i ≠ 256 := by
  rw [onWire]
  split
  · rename_i h
    subst h
    decide
  · rename_i h
    exact ⟨fun _ => h, fun _ => rfl⟩

theorem reads_header (i : UInt32) (encoding : UInt8) :
    Reads room headerDecodeBinary (wire (nodeIdProg (numericId 0 i)) ++ [encoding])
      (numericId 0 (onWire i), encoding) := by
  intro pre post st hdata hoff hpost hheap
  have hboth : Reads room (both nodeIdDecodeBinary byteDecodeBinary) _ _ :=
    reads_both (reads_numeric 0 i) (reads_byte encoding)
  obtain ⟨v, st', hrun, hrest⟩ := hboth pre post st hdata hoff hpost hheap
  refine ⟨v, st', ?_, hrest⟩
  rw [headerDecodeBinary, hrun, compacted_zero]
  rfl

theorem reads_nobody {jump : (t : DataType) → DecM (Val t)} (i : UInt32) :
    Reads room (extensionObjectDecodeBinary jump) (wire (nodeIdProg (numericId 0 i)) ++ [0])
      (.encoded (numericId 0 (onWire i)) .nobody none) := by
  have h : Reads room (extensionObjectDecodeBinary jump)
      ((wire (nodeIdProg (numericId 0 i)) ++ [0]) ++ []) _ :=
    reads_andThen (reads_header i 0) (reads_succeed _)
  rwa [List.append_nil] at h

theorem reads_xml {jump : (t : DataType) → DecM (Val t)} (i : UInt32) {body : UaString}
    (h : body.length < 2147483648) :
    Reads room (extensionObjectDecodeBinary jump)
      ((wire (nodeIdProg (numericId 0 i)) ++ [2]) ++ wire (stringProg body))
      (.encoded (numericId 0 (onWire i)) .xml body) :=
  reads_andThen (reads_header i 2) (reads_map _ (reads_string h))

/-- The outcome for content of a known type: the announced length is compared
with the bytes read. -/
theorem content_run {jump : (t : DataType) → DecM (Val t)} {typeId : NodeId} {type : DataType}
    {data : Val type} {w : List UInt8} (hfind : findDataType (contentId typeId) = some type)
    (hjump : Reads room (jump type) w data) {pre post : List UInt8} {st : Dec}
    (hdata : st.data = pre ++ (lengthBytes w.length ++ w) ++ post) (hoff : st.offset = pre.length)
    (hpost : room ≤ post.length) (hheap : st.heap = []) :
    ∃ v st', contentDecodeBinary jump typeId st = some (if (w.length : Int) =
        toInt32 (w.length % 4294967296) then .ok (.decoded false type data) else .error badDecodingError, st') ∧
      st'.data = pre ++ v ++ post ∧ v.length = (lengthBytes w.length ++ w).length ∧
      st'.offset = pre.length + (lengthBytes w.length ++ w).length ∧ st'.heap = [] := by
  obtain ⟨v, st1, st2, hrun1, hrun2, hdata2, hv, hoff2, hheap2⟩ :=
    (reads_int32 w.length).bind (reads_allocated hjump) hdata hoff hpost hheap
  refine ⟨v, st2, ?_, hdata2, hv, hoff2, hheap2⟩
  simp only [contentDecodeBinary, andThen, hrun1, hfind]
  simp only [andThen] at hrun2
  rw [hrun2]
  have hend : (st2.offset : Int) = st.offset + 4 + w.length := by
    rw [hoff2, hoff]
    simp only [List.length_append, length_toBytes]
    omega
  by_cases hlen : (w.length : Int) = toInt32 (w.length % 4294967296)
  · rw [if_pos hlen]
    simp only [hend, hlen, ne_eq, not_true_eq_false, if_false]
    rfl
  · rw [if_neg hlen]
    simp only [hend]
    rw [if_pos (by omega)]

theorem length_eq_toInt32 (n : Nat) : (n : Int) = toInt32 (n % 4294967296) ↔ n < 2147483648 := by
  rw [toInt32]
  split <;> omega

theorem findDataType_of_mem {t : DataType} (h : t ∈ uaTypes) : findDataType t.typeId = some t := by
  rw [findDataType]
  cases hfind : uaTypes.find? (fun s => nodeIdEqual t.typeId s.typeId) with
  | none =>
      have hnone := List.find?_eq_none.mp hfind t h
      exact absurd (nodeIdEqual_refl t.typeId) hnone
  | some s =>
      have hs := List.mem_of_find?_eq_some hfind
      have heq := List.find?_some hfind
      obtain ⟨i, hi⟩ := typeId_numeric t h
      obtain ⟨j, hj⟩ := typeId_numeric s hs
      rw [hi, hj, nodeIdEqual_numeric] at heq
      have hid : t.typeId = s.typeId := by rw [hi, hj, heq]
      rw [List.inj_on_of_nodup_map typeIds_nodup hs h hid.symm]

theorem mem_of_findDataType {id : NodeId} {t : DataType} (h : findDataType id = some t) : t ∈ uaTypes :=
  List.mem_of_find?_eq_some h

theorem typeId_ne {t : DataType} (h : t ∈ uaTypes) : t.typeId ≠ numericId 0 254 := by
  have hall : uaTypes.all (fun t => t.typeId != numericId 0 254) = true := by decide +kernel
  simpa using List.all_eq_true.mp hall t h

theorem binaryId_of_mem {t : DataType} (h : t ∈ uaTypes) : ∃ i, binaryId t.typeId = numericId 0 i ∧
    onWire i = i ∧ contentId (numericId 0 i) = t.typeId := by
  obtain ⟨j, hj⟩ := typeId_numeric t h
  have hne := typeId_ne h
  rw [hj] at hne ⊢
  refine ⟨j + 2, rfl, ?_, ?_⟩
  · rw [onWire_eq_iff]
    intro heq
    apply hne
    have hj2 : j = 254 := by
      have h2 : j = 256 - 2 := by rw [← heq]; simp
      exact h2
    rw [hj2]
  · simp [contentId, numericId]

theorem typeId_isNumeric {t : DataType} (h : t ∈ uaTypes) : t.typeId.identifier.isNumeric = true := by
  obtain ⟨j, hj⟩ := typeId_numeric t h
  rw [hj]
  rfl

theorem valProg_decoded {t : DataType} (h : t ∈ uaTypes) (nodelete : Bool) (data : Val t) :
    valProg (.decoded nodelete t data) = wrapProg t.typeId (valProg data) := by
  rw [valProg, decodedProg, typeId_isNumeric h]
  rfl

/-- The value that is expected back. Content is owned by the result. -/
def returned : Val .extensionObject → Val .extensionObject
  | .encoded typeId encoding body => .encoded typeId encoding body
  | .decoded _ type data => .decoded false type data

/-- The value is encoded, and decoded as `v'` if `room` more bytes follow. -/
def ReturnsAs (limit room : Nat) {t : DataType} (v v' : Val t) : Prop :=
  Writes limit (encodeBinary v) (wireOf v) ∧
    ∀ᶠ fuel in atTop, Reads room (decodeBinary fuel t) (wireOf v) v'

def InNamespaceZero (typeId : NodeId) : Prop := ∃ i, typeId = numericId 0 i

/-- The ExtensionObjects that are in the scope of the decoder. -/
def Admitted (limit : Nat) : Val .extensionObject → Prop
  | .encoded typeId .nobody body => InNamespaceZero typeId ∧ body = none
  | .encoded typeId .byteString _ => InNamespaceZero typeId ∧ findDataType typeId = none
  | .encoded typeId .xml _ => InNamespaceZero typeId
  | .decoded _ type data => type ∈ uaTypes ∧ RoundTrips limit data

/-- The ExtensionObjects that survive. The decoder shifts the type id of every
byte string body, and the length of a body is an `Int32`. -/
def Survives : Val .extensionObject → Prop
  | .encoded typeId .nobody _ => typeId ≠ numericId 0 256
  | .encoded _ .byteString _ => False
  | .encoded typeId .xml body => typeId ≠ numericId 0 256 ∧ body.length < 2147483648
  | .decoded _ _ data => (wireOf data).length < 2147483648

theorem writes_encoded (limit : Nat) (typeId : NodeId) (encoding : BodyEncoding) (body : UaString) :
    Writes limit (encodeBinary (.encoded typeId encoding body)) (wireOf (.encoded typeId encoding body)) := by
  have hid := encodable_nodeIdProg typeId
  have hbody := encodable_stringProg body
  have hopt := encodable_optionally (b := encoding != .nobody) hbody.1 hbody.2
  rw [encodeBinary_run, wireOf, valProg]
  exact run_writes _ ⟨hid.1, trivial, hopt.1⟩ (Or.inr ⟨hid.2, trivial, hopt.2⟩)

theorem wireOf_encoded (typeId : NodeId) (encoding : BodyEncoding) (body : UaString) :
    wireOf (.encoded typeId encoding body) = (wire (nodeIdProg typeId) ++ [encoding.byte]) ++
      if encoding != .nobody then wire (stringProg body) else [] := by
  rw [wireOf, valProg, encodedProg, wire, wire, wire_optionally, List.append_assoc]
  rfl

theorem returnsAs_iff {t : DataType} {v v' : Val t} : ReturnsAs limit room v v' ↔
    Writes limit (encodeBinary v) (wireOf v) ∧
      ∀ᶠ n in atTop, Reads room (decodeBinary (n + 1) t) (wireOf v) v' := by
  rw [ReturnsAs, eventually_succ (P := fun n => Reads room (decodeBinary n t) _ v')]

/-- If the decoder always returns `v`, only `v` can be expected. -/
theorem returnsAs_of_reads {t : DataType} {v v' : Val t} (hw : Writes limit (encodeBinary v) (wireOf v))
    (h : ∀ n, Reads room (decodeBinary (n + 1) t) (wireOf v) v') {u : Val t} :
    ReturnsAs limit room v u ↔ u = v' := by
  rw [returnsAs_iff]
  constructor
  · rintro ⟨_, hu⟩
    obtain ⟨n, hn⟩ := hu.exists
    exact hn.unique (h n)
  · rintro rfl
    exact ⟨hw, Eventually.of_forall h⟩

theorem numericId_ne_iff (i : UInt32) : numericId 0 i ≠ numericId 0 256 ↔ i ≠ 256 := by
  simp [numericId]

theorem nobody_returns_iff (i : UInt32) :
    ReturnsAs limit room (.encoded (numericId 0 i) .nobody none) (.encoded (numericId 0 i) .nobody none) ↔
      i ≠ 256 := by
  have hread : ∀ n, Reads room (decodeBinary (n + 1) .extensionObject)
      (wireOf (.encoded (numericId 0 i) .nobody none)) (.encoded (numericId 0 (onWire i)) .nobody none) := by
    intro n
    rw [wireOf_encoded, if_neg (by decide), List.append_nil]
    exact reads_nobody i
  rw [returnsAs_of_reads (writes_encoded limit _ _ _) hread, ← onWire_eq_iff]
  simp [numericId, eq_comm]

theorem content_encoded {jump : (t : DataType) → DecM (Val t)} {typeId id : NodeId} {st st' : Dec}
    {encoding : BodyEncoding} {body : UaString}
    (h : contentDecodeBinary jump typeId st = some (.ok (.encoded id encoding body), st')) :
    id = contentId typeId ∧ encoding = .byteString := by
  obtain ⟨length, st1, _, h⟩ := andThen_ok h
  split at h
  · split at h
    · simp at h
    · rename_i r st2 _
      split at h
      · simp at h
      · cases r <;> simp [Except.map] at h
  · obtain ⟨body', _, heq⟩ := map_ok h
    simp only [Val.encoded.injEq] at heq
    exact ⟨heq.1.symm, heq.2.1.symm⟩

theorem xml_length {jump : (t : DataType) → DecM (Val t)} {id : NodeId} {st st' : Dec} {body : UaString}
    (h : extensionObjectDecodeBinary jump st = some (.ok (.encoded id .xml body), st')) :
    body.length < 2147483648 := by
  obtain ⟨⟨typeId, encoding⟩, st1, _, h⟩ := andThen_ok h
  dsimp only at h
  split at h
  · simp [succeed] at h
  split at h
  · obtain ⟨body', hstring, heq⟩ := map_ok h
    simp only [Val.encoded.injEq] at heq
    rw [← heq.2.2]
    exact stringDecodeBinary_length hstring
  · exact absurd (content_encoded h).2 (by decide)

theorem xml_returns_iff (i : UInt32) (body : UaString) :
    ReturnsAs limit room (.encoded (numericId 0 i) .xml body) (.encoded (numericId 0 i) .xml body) ↔
      i ≠ 256 ∧ body.length < 2147483648 := by
  by_cases hlen : body.length < 2147483648
  · have hread : ∀ n, Reads room (decodeBinary (n + 1) .extensionObject)
        (wireOf (.encoded (numericId 0 i) .xml body)) (.encoded (numericId 0 (onWire i)) .xml body) := by
      intro n
      rw [wireOf_encoded, if_pos (by decide)]
      exact reads_xml i hlen
    rw [returnsAs_of_reads (writes_encoded limit _ _ _) hread, ← onWire_eq_iff]
    simp [numericId, hlen, eq_comm]
  · refine iff_of_false ?_ (fun h => hlen h.2)
    intro h
    obtain ⟨n, hn⟩ := (returnsAs_iff.mp h).2.exists
    obtain ⟨st', hrun, _⟩ := hn.run []
    exact hlen (xml_length hrun)

theorem shifted_ne (i : UInt32) : numericId 0 i ≠ contentId (numericId 0 (onWire i)) := by
  intro hid
  have hshift : i = onWire i - 2 := by simpa [contentId, numericId] using hid
  rw [onWire] at hshift
  split at hshift
  · rename_i h256
    rw [h256] at hshift
    exact absurd hshift (by decide)
  · have htwo : i + 2 = i + 0 := by
      nth_rewrite 1 [hshift]
      simp
    exact absurd ((UInt32.add_right_inj i).mp htwo) (by decide)

/-- The id of a byte string body is shifted by the decoder, but not by the
encoder. -/
theorem byteString_not_returned (i : UInt32) (body : UaString) :
    ¬ ReturnsAs limit room (.encoded (numericId 0 i) .byteString body)
      (.encoded (numericId 0 i) .byteString body) := by
  intro h
  obtain ⟨n, hn⟩ := (returnsAs_iff.mp h).2.exists
  rw [wireOf_encoded, if_pos (by decide)] at hn
  obtain ⟨st', hrun, _⟩ := hn.run []
  have hreads : Reads 0 headerDecodeBinary _ _ := reads_header i 1
  obtain ⟨_, st1, hheader, _⟩ := hreads []
    (wire (stringProg body) ++ List.replicate room 0)
    ⟨((wire (nodeIdProg (numericId 0 i)) ++ [1]) ++ wire (stringProg body)) ++ List.replicate room 0,
      0, [], []⟩
    (by simp) rfl (Nat.zero_le _) rfl
  obtain ⟨p, st2, hheader', hcontent⟩ := andThen_ok hrun
  obtain ⟨rfl, rfl⟩ : p = (numericId 0 (onWire i), 1) ∧ st2 = st1 := by
    have heq := hheader'.symm.trans hheader
    simpa using heq
  exact shifted_ne i (content_encoded hcontent).1

theorem writes_wrapProg {typeId : NodeId} {content : Prog} {w : List UInt8}
    (h : Writes limit content.run w) : Writes limit (wrapProg typeId content).run
      ((wire (nodeIdProg (binaryId typeId)) ++ [1]) ++ (lengthBytes w.length ++ w)) := by
  have hid := encodable_nodeIdProg (binaryId typeId)
  exact writes_wrap (run_writes (.seq _ (plain [1])) ⟨hid.1, trivial⟩ (Or.inr ⟨hid.2, trivial⟩)) h

theorem wire_wrapProg (typeId : NodeId) (content : Prog) : wire (wrapProg typeId content) =
    (wire (nodeIdProg (binaryId typeId)) ++ [1]) ++ (lengthBytes (wire content).length ++ wire content) :=
  rfl

theorem wrapped_run {jump : (t : DataType) → DecM (Val t)} {type : DataType} (hmem : type ∈ uaTypes)
    {data : Val type} (hjump : Reads room (jump type) (wireOf data) data) {pre post : List UInt8} {st : Dec}
    (hdata : st.data = pre ++ wire (wrapProg type.typeId (valProg data)) ++ post)
    (hoff : st.offset = pre.length) (hpost : room ≤ post.length) (hheap : st.heap = []) :
    ∃ v st', extensionObjectDecodeBinary jump st = some (if (wireOf data).length < 2147483648
        then .ok (.decoded false type data) else .error badDecodingError, st') ∧
      st'.data = pre ++ v ++ post ∧ v.length = (wire (wrapProg type.typeId (valProg data))).length ∧
      st'.offset = pre.length + (wire (wrapProg type.typeId (valProg data))).length ∧ st'.heap = [] := by
  obtain ⟨i, hid, honWire, hcontent⟩ := binaryId_of_mem hmem
  rw [wire_wrapProg, hid] at hdata ⊢
  change st.data = pre ++ ((wire (nodeIdProg (numericId 0 i)) ++ [1]) ++
    (lengthBytes (wireOf data).length ++ wireOf data)) ++ post at hdata
  have hreads : Reads 0 headerDecodeBinary _ _ := reads_header i 1
  obtain ⟨v1, st1, hrun1, hdata1, hv1, hoff1, hheap1⟩ := hreads pre
    ((lengthBytes (wireOf data).length ++ wireOf data) ++ post) st
    (by rw [hdata]; simp only [List.append_assoc]) hoff (Nat.zero_le _) hheap
  have hfind : findDataType (contentId (numericId 0 (onWire i))) = some type := by
    rw [honWire, hcontent, findDataType_of_mem hmem]
  have hsplit1 : st1.data = (pre ++ v1) ++ (lengthBytes (wireOf data).length ++ wireOf data) ++ post := by
    rw [hdata1]
    simp only [List.append_assoc]
  obtain ⟨v2, st2, hrun2, hdata2, hv2, hoff2, hheap2⟩ := content_run hfind hjump hsplit1
    (by rw [hoff1, ← hv1, List.length_append]) hpost hheap1
  refine ⟨v1 ++ v2, st2, ?_, by rw [hdata2]; simp only [List.append_assoc], ?_, ?_, hheap2⟩
  · rw [extensionObjectDecodeBinary, andThen, hrun1]
    change contentDecodeBinary jump (numericId 0 (onWire i)) st1 = _
    rw [hrun2]
    simp only [length_eq_toInt32]
  · rw [List.length_append, hv1, hv2, ← List.length_append]
    rfl
  · rw [hoff2, List.length_append, hv1, Nat.add_assoc, ← List.length_append]
    rfl

theorem decoded_returns_iff {nodelete : Bool} {type : DataType} {data : Val type} (hmem : type ∈ uaTypes)
    (h : RoundTrips limit data) :
    ReturnsAs limit room (.decoded nodelete type data) (.decoded false type data) ↔
      (wireOf data).length < 2147483648 := by
  have hwrites : Writes limit (encodeBinary (.decoded nodelete type data))
      (wireOf (.decoded nodelete type data)) := by
    rw [encodeBinary_run, wireOf, valProg_decoded hmem, wire_wrapProg]
    exact writes_wrapProg (roundTrips_iff.mp h).1
  rw [returnsAs_iff, wireOf, valProg_decoded hmem]
  constructor
  · rintro ⟨_, hread⟩
    obtain ⟨n, hn, hdata⟩ := (hread.and h.2).exists
    by_contra hlen
    obtain ⟨st', hrun, _⟩ := hn.run []
    let st : Dec := ⟨wire (wrapProg type.typeId (valProg data)) ++ List.replicate room 0, 0, [], []⟩
    have hsplit : st.data = [] ++ wire (wrapProg type.typeId (valProg data)) ++ List.replicate room 0 := rfl
    obtain ⟨_, st'', hrun', _⟩ := wrapped_run hmem hdata hsplit rfl (Nat.zero_le _) rfl
    rw [if_neg hlen] at hrun'
    have heq := hrun.symm.trans hrun'
    simp at heq
  · intro hlen
    rw [wireOf, valProg_decoded hmem] at hwrites
    refine ⟨hwrites, ?_⟩
    filter_upwards [h.2] with n hn
    intro pre post st hdata hoff hpost hheap
    obtain ⟨v, st', hrun, hrest⟩ := wrapped_run hmem hn hdata hoff (Nat.zero_le _) hheap
    rw [if_pos hlen] at hrun
    exact ⟨v, st', hrun, hrest⟩

theorem extensionObject_returns_iff (v : Val .extensionObject) (h : Admitted limit v) :
    ReturnsAs limit room v (returned v) ↔ Survives v := by
  cases v with
  | encoded typeId encoding body =>
      cases encoding with
      | nobody =>
          obtain ⟨⟨i, rfl⟩, rfl⟩ := h
          exact (nobody_returns_iff i).trans (numericId_ne_iff i).symm
      | byteString =>
          obtain ⟨⟨i, rfl⟩, _⟩ := h
          exact iff_of_false (byteString_not_returned i body) id
      | xml =>
          obtain ⟨i, rfl⟩ := h
          exact (xml_returns_iff i body).trans (and_congr_left' (numericId_ne_iff i).symm)
  | decoded nodelete type data => exact decoded_returns_iff h.1 h.2

def sampleContent : Val .extensionObject := .decoded true int32 (.simple 5)

theorem sampleContent_admitted : Admitted 1000 sampleContent :=
  ⟨List.getElem_mem (l := uaTypes) (n := 5) (by decide +kernel), simple_roundTrips trivial (Or.inl (by decide))⟩

theorem extensionObject_returns_sampleContent :
    Admitted 1000 sampleContent ∧ ReturnsAs 1000 0 sampleContent (.decoded false int32 (.simple 5)) :=
  ⟨sampleContent_admitted,
    (extensionObject_returns_iff sampleContent sampleContent_admitted).mpr
      (by decide : 4 < 2147483648)⟩

/-- A byte string under the unknown type id 5000 comes back under 4998. -/
theorem extensionObject_shifts_typeId :
    ¬ ∀ v : Val .extensionObject, Admitted 1000 v → ReturnsAs 1000 0 v (returned v) := by
  intro h
  exact byteString_not_returned 5000 (some [1, 2, 3])
    (h (.encoded (numericId 0 5000) .byteString (some [1, 2, 3]))
      ⟨⟨5000, rfl⟩, by decide +kernel⟩)

end OpcUa.ExtensionObjects
