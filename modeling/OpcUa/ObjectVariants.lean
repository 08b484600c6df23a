import Mathlib.Data.List.GetD
import OpcUa.VariantShapes

namespace OpcUa.ObjectVariants

open Filter
open StatusCodes LittleEndian NodeIds DataTypes TypeTable Values Writers ValueEncoding Readers Decoding ValueDecoding
  ReadBack BoundedReading DecodeBounds WritePrograms EncoderPrograms LeafReading NodeIdRoundTrips ValueReading
  SimpleRoundTrips ExtensionObjects Variants VariantShapes

variable {room limit : Nat} {jump : (t : DataType) → DecM (Val t)}

def headOf : DecM (NodeId × UInt8) :=
  andThen nodeIdDecodeBinary (fun typeId => map (Prod.mk typeId) byteDecodeBinary)

theorem keeps_headOf : Keeps headOf :=
  keeps_andThen keeps_nodeId (fun _ => keeps_map _ keeps_byte)

theorem reads_headOf (i : UInt32) (encoding : UInt8) :
    Reads room headOf (wire (nodeIdProg (numericId 0 i)) ++ [encoding])
      (numericId 0 (onWire i), encoding) := by
  have h : Reads room headOf (wire (nodeIdProg (numericId 0 i)) ++ [encoding]) (compacted 0 i, encoding) :=
    reads_andThen (reads_numeric 0 i) (reads_map _ (reads_byte encoding))
  rwa [compacted_zero] at h

theorem reads_object {i : UInt32} {encoding : UInt8} {rest : List UInt8} {data : Val .extensionObject}
    (hw : wireOf data = (wire (nodeIdProg (numericId 0 i)) ++ [encoding]) ++ rest)
    (hnone : encoding = 1 → findDataType (numericId 0 (onWire i)) = none)
    (hread : Reads room (jump .extensionObject) (wireOf data) data) :
    Reads room (objectVariantDecodeBinary jump) (wireOf data) (.scalarVariant .extensionObject data) := by
  intro pre post st hdata hoff hpost hheap
  have hreads : Reads 0 headOf _ _ := reads_headOf i encoding
  obtain ⟨_, st1, hhead, -, -, -, hheap1⟩ := hreads pre (rest ++ post) st
    (by rw [hdata, hw]; simp only [List.append_assoc]) hoff (Nat.zero_le _) hheap
  have hkeep : st1.data = st.data := keeps_headOf _ _ _ hhead
  obtain ⟨v, st', hrun, hrest⟩ := reads_allocated (reads_map (Val.scalarVariant .extensionObject) hread)
    pre post { st1 with offset := st.offset } (hkeep.trans hdata) hoff hpost hheap1
  refine ⟨v, st', ?_, hrest⟩
  have hhead' : andThen nodeIdDecodeBinary (fun typeId => map (Prod.mk typeId) byteDecodeBinary) st =
      some (.ok (numericId 0 (onWire i), encoding), st1) := hhead
  have hfound : (if (numericId 0 (onWire i)).namespaceIndex = 0 ∧ encoding = 1
      then findDataType (numericId 0 (onWire i)) else none) = none := by
    split
    · rename_i h
      exact hnone h.2
    · rfl
  simp only [objectVariantDecodeBinary, hhead', hfound]
  exact hrun

theorem objectVariant_ok {st st1 st' : Dec} {typeId : NodeId} {u : Val .variant}
    (h : objectVariantDecodeBinary jump st = some (.ok u, st'))
    (hhead : headOf st = some (.ok (typeId, 1), st1)) (hns : typeId.namespaceIndex = 0) :
    (∃ type x, findDataType typeId = some type ∧ u = .scalarVariant type x ∧
      jump type { st1 with heap := st1.heap.tail } = some (.ok x, st')) ∨
    (findDataType typeId = none ∧ ∃ x, u = .scalarVariant .extensionObject x) := by
  have hhead' : andThen nodeIdDecodeBinary (fun typeId => map (Prod.mk typeId) byteDecodeBinary) st =
      some (.ok (typeId, 1), st1) := hhead
  simp only [objectVariantDecodeBinary, hhead', hns, and_self, if_true] at h
  cases hfind : findDataType typeId with
  | some type =>
      simp only [hfind] at h
      obtain ⟨_, st2, hallocate, h⟩ := andThen_ok h
      obtain ⟨x, hjump, rfl⟩ := map_ok h
      exact Or.inl ⟨type, x, rfl, rfl, allocate_ok hallocate ▸ hjump⟩
  | none =>
      simp only [hfind] at h
      obtain ⟨_, st2, _, h⟩ := andThen_ok h
      obtain ⟨x, _, rfl⟩ := map_ok h
      exact Or.inr ⟨rfl, x, rfl⟩

theorem typeId_of_findDataType {id : UInt32} {t : DataType}
    (h : findDataType (numericId 0 id) = some t) : t.typeId = numericId 0 id := by
  obtain ⟨j, hj⟩ := typeId_numeric t (mem_of_findDataType h)
  have heq := List.find?_some h
  rw [hj, nodeIdEqual_numeric] at heq
  rw [hj, heq]

theorem headOf_wrapped {type : DataType} (hmem : type ∈ uaTypes) {data : Val type} {pre post : List UInt8}
    {st : Dec} (hdata : st.data = pre ++ wire (wrapProg type.typeId (valProg data)) ++ post)
    (hoff : st.offset = pre.length) (hheap : st.heap = []) :
    ∃ i st1, binaryId type.typeId = numericId 0 i ∧ contentId (numericId 0 i) = type.typeId ∧
      headOf st = some (.ok (numericId 0 i, 1), st1) ∧
      st1.offset = (pre ++ (wire (nodeIdProg (numericId 0 i)) ++ [1])).length := by
  obtain ⟨i, hid, honWire, hcontent⟩ := binaryId_of_mem hmem
  rw [wire_wrapProg, hid] at hdata
  have hreads : Reads 0 headOf _ _ := reads_headOf i 1
  obtain ⟨_, st1, hhead, _, _, hoff1, _⟩ := hreads pre
    ((lengthBytes (wire (valProg data)).length ++ wire (valProg data)) ++ post) st
    (by rw [hdata]; simp only [List.append_assoc]) hoff (Nat.zero_le _) hheap
  rw [honWire] at hhead
  exact ⟨i, st1, hid, hcontent, hhead, hoff1.trans List.length_append.symm⟩

theorem structure_not_run {t : DataType} (hmem : t ∈ uaTypes) (hb : t.builtin = false) {data : Val t}
    {pre post : List UInt8} {st st' : Dec} (hdata : st.data = pre ++ wire (wrapProg t.typeId (valProg data)) ++ post)
    (hoff : st.offset = pre.length) (hheap : st.heap = []) :
    objectVariantDecodeBinary jump st ≠ some (.ok (.scalarVariant t data), st') := by
  intro hrun
  obtain ⟨i, st1, _, hcontent, hhead, _⟩ := headOf_wrapped hmem hdata hoff hheap
  rcases objectVariant_ok hrun hhead rfl with ⟨type, x, hfind, heq, _⟩ | ⟨_, x, heq⟩
  · simp only [Val.scalarVariant.injEq] at heq
    obtain ⟨rfl, _⟩ := heq
    have hself := typeId_of_findDataType hfind
    rw [hself] at hcontent
    simp [contentId, numericId] at hcontent
  · simp only [Val.scalarVariant.injEq] at heq
    rw [heq.1] at hb
    exact absurd hb (by decide)

theorem structure_not_read {t : DataType} (hmem : t ∈ uaTypes) (hb : t.builtin = false) (data : Val t) :
    ¬ CanRead (objectVariantDecodeBinary jump) (wire (wrapProg t.typeId (valProg data)))
      (.scalarVariant t data) := by
  rintro ⟨pre, post, st, st', hdata, hoff, hheap, _, hrun, _⟩
  exact structure_not_run hmem hb hdata hoff hheap hrun

theorem header_ok {st st' : Dec} {typeId : NodeId} {encoding : UInt8}
    (h : headerDecodeBinary st = some (.ok (typeId, encoding), st')) : ∃ i, typeId = numericId 0 i := by
  rw [headerDecodeBinary] at h
  split at h
  · simp at h
  · simp at h
  · rename_i typeId' encoding' st1 _
    split at h
    · simp at h
    · rename_i hnum
      simp only [Option.some.injEq, Prod.mk.injEq, Except.ok.injEq] at h
      obtain ⟨⟨rfl, rfl⟩, rfl⟩ := h
      obtain ⟨ns, identifier⟩ := typeId'
      cases identifier with
      | numeric i => exact ⟨i, by simp_all [numericId, Identifier.isNumeric]⟩
      | _ => simp [Identifier.isNumeric] at hnum

theorem content_decoded {typeId : NodeId} {st st' : Dec} {nodelete : Bool} {type : DataType}
    {data : Val type}
    (h : contentDecodeBinary jump typeId st = some (.ok (.decoded nodelete type data), st')) :
    nodelete = false ∧ findDataType (contentId typeId) = some type ∧ ∃ st1 length,
      int32DecodeBinary st = some (.ok length, st1) ∧
      jump type { st1 with heap := st1.heap.tail } = some (.ok data, st') ∧
      (st'.offset : Int) = st.offset + 4 + length := by
  obtain ⟨length, st1, hlength, h⟩ := andThen_ok h
  split at h
  · rename_i type' hfind
    split at h
    · simp at h
    · rename_i r st2 hjump
      split at h
      · simp at h
      · rename_i hend
        cases r with
        | error code => simp [Except.map] at h
        | ok x =>
            simp only [Except.map, Option.some.injEq, Prod.mk.injEq, Except.ok.injEq,
              Val.decoded.injEq] at h
            obtain ⟨⟨rfl, rfl, hx⟩, rfl⟩ := h
            obtain rfl := eq_of_heq hx
            obtain ⟨_, st3, hallocate, hjump⟩ := andThen_ok hjump
            exact ⟨rfl, hfind, st1, length, hlength, allocate_ok hallocate ▸ hjump, not_not.mp hend⟩
  · obtain ⟨body, _, heq⟩ := map_ok h
    simp at heq

theorem object_cases {v : Val .extensionObject} (h : RoundTrips limit v) :
    (∃ i body, v = .encoded (numericId 0 i) .nobody body) ∨
      (∃ i body, v = .encoded (numericId 0 i) .xml body) ∨
      ∃ type data, v = .decoded false type data ∧ type ∈ uaTypes := by
  obtain ⟨n, hn⟩ := (roundTrips_iff.mp h).2.exists
  obtain ⟨st', hrun, _⟩ := hn.run []
  obtain ⟨⟨typeId, encoding⟩, st1, hheader, hbody⟩ := andThen_ok hrun
  obtain ⟨i, rfl⟩ := header_ok hheader
  dsimp only at hbody
  split at hbody
  · simp only [succeed, Option.some.injEq, Prod.mk.injEq, Except.ok.injEq] at hbody
    exact Or.inl ⟨i, none, hbody.1.symm⟩
  split at hbody
  · obtain ⟨body, _, heq⟩ := map_ok hbody
    exact Or.inr (Or.inl ⟨i, body, heq.symm⟩)
  · cases v with
    | encoded id kind body =>
        obtain ⟨hid, rfl⟩ := content_encoded hbody
        have hround : ReturnsAs limit 0 (.encoded id .byteString body) (.encoded id .byteString body) := h
        rw [hid] at hround
        exact absurd hround (byteString_not_returned _ body)
    | decoded nodelete type data =>
        obtain ⟨rfl, hfind, _⟩ := content_decoded hbody
        exact Or.inr (Or.inr ⟨type, data, rfl, mem_of_findDataType hfind⟩)

theorem uint32_offset {st st' : Dec} {x : UInt32} (h : uint32DecodeBinary st = some (.ok x, st')) :
    st'.offset = st.offset + 4 := by
  obtain ⟨bytes, htake, _⟩ := map_ok h
  rw [(take_ok htake).2.2]
  rfl

theorem int32_offset {st st' : Dec} {x : Int} (h : int32DecodeBinary st = some (.ok x, st')) :
    st'.offset = st.offset + 4 := by
  obtain ⟨y, hy, _⟩ := map_ok h
  exact uint32_offset hy

theorem string_offset {st st' : Dec} {s : UaString} (h : stringDecodeBinary st = some (.ok s, st')) :
    st'.offset = st.offset + 4 + s.length := by
  obtain ⟨signedLength, st1, hlength, h⟩ := andThen_ok h
  have hoff := int32_offset (withError_ok hlength)
  split at h
  · simp only [Option.some.injEq, Prod.mk.injEq, Except.ok.injEq] at h
    rw [← h.1, ← h.2, hoff]
    split <;> rfl
  · split at h
    · simp at h
    · obtain ⟨_, st2, hallocate, h⟩ := andThen_ok h
      obtain ⟨bytes, htake, rfl⟩ := map_ok h
      obtain ⟨hbytes, _, rfl⟩ := take_ok htake
      rw [allocate_ok hallocate]
      change st1.offset + signedLength.toNat = st.offset + 4 + bytes.length
      rw [hoff, hbytes]

theorem nameSlots_offset {n : Nat} {id id' : NodeId} {st st' : Dec}
    {slots : Slots (.scalar (.simple id .uint16) (.scalar (.simple id' .string) .nil))}
    (h : membersDecodeBinary n jump _ st = some (.ok slots, st')) :
    st'.offset = st.offset + (wire (slotsProg slots)).length := by
  obtain ⟨⟨ns, rest⟩, hboth, rfl⟩ := map_ok h
  obtain ⟨st1, hns, hrest⟩ := both_ok hboth
  obtain ⟨⟨name, last⟩, hboth', rfl⟩ := map_ok hrest
  obtain ⟨st2, hname, hlast⟩ := both_ok hboth'
  obtain ⟨x, hx, rfl⟩ := map_ok hns
  obtain ⟨s, hs, rfl⟩ := map_ok hname
  obtain ⟨bytes, htake, _⟩ := map_ok hx
  have hoff1 : st1.offset = st.offset + 2 := by
    rw [(take_ok htake).2.2]
    rfl
  simp only [membersDecodeBinary, succeed, Option.some.injEq, Prod.mk.injEq, Except.ok.injEq] at hlast
  obtain ⟨rfl, rfl⟩ := hlast
  rw [string_offset hs, hoff1, slotsProg, slotsProg, slotsProg, valProg, valProg]
  change _ = st.offset + (toBytes 2 x.toNat ++ (wire (stringProg s) ++ [])).length
  rw [List.length_append, List.append_nil, length_toBytes, wire_stringProg_length]
  omega

theorem qualifiedName_offset {n : Nat} {st st' : Dec} {v : Val qualifiedName}
    (h : decodeBinary n qualifiedName st = some (.ok v, st')) :
    st'.offset = st.offset + (wireOf v).length := by
  cases n with
  | zero => simp [decodeBinary] at h
  | succ n =>
      obtain ⟨slots, hslots, rfl⟩ := map_ok h
      have hwire : wireOf (.struct slots : Val qualifiedName) = wire (slotsProg slots) := by
        rw [wireOf, valProg]
      exact (nameSlots_offset hslots).trans (congrArg (fun w => st.offset + w.length) hwire.symm)

section Names

def cell (data : List UInt8) (i : Nat) : Nat := (data.getD i 0).toNat

theorem cell_lt (data : List UInt8) (i : Nat) : cell data i < 256 := (data.getD i 0).toNat_lt

theorem ofBytes_cells (data : List UInt8) (i k : Nat) :
    ofBytes ((data.drop i).take (k + 1)) = cell data i + 256 * ofBytes ((data.drop (i + 1)).take k) := by
  by_cases hi : i < data.length
  · rw [List.drop_eq_getElem_cons hi, List.take_succ_cons, ofBytes, cell, List.getD_eq_getElem _ _ hi]
  · have hnil : data.drop i = [] := List.drop_eq_nil_of_le (by omega)
    have hnil' : data.drop (i + 1) = [] := List.drop_eq_nil_of_le (by omega)
    rw [hnil, hnil', cell, List.getD_eq_default _ _ (by omega)]
    simp [ofBytes]

theorem cell_toBytes (pre post : List UInt8) {k n j : Nat} (hj : j < k) :
    cell (pre ++ (toBytes k n ++ post)) (pre.length + j) = n / 256 ^ j % 256 := by
  have hbyte : ∀ k n j, j < k → ((toBytes k n).getD j 0).toNat = n / 256 ^ j % 256 := by
    intro k
    induction k with
    | zero => intro n j hj; omega
    | succ k ih =>
        intro n j hj
        cases j with
        | zero => simp [toBytes]
        | succ j =>
            rw [toBytes, List.getD_cons_succ, ih _ _ (by omega), Nat.div_div_eq_div_mul, pow_succ']
  rw [cell, List.getD_append_right _ _ _ _ (by omega), Nat.add_sub_cancel_left,
    List.getD_append _ _ _ _ (by rw [length_toBytes]; exact hj), hbyte k n j hj]

variable {st st' : Dec}

theorem byte_cell {x : UInt8} (h : byteDecodeBinary st = some (.ok x, st')) :
    x.toNat = cell st.data st.offset ∧ st'.data = st.data ∧ st'.offset = st.offset + 1 := by
  obtain ⟨bytes, htake, rfl⟩ := map_ok h
  obtain ⟨_, hbytes, rfl⟩ := take_ok htake
  have hlt := cell_lt st.data st.offset
  rw [hbytes, ofBytes_cells, List.take_zero, ofBytes, UInt8.toNat_ofNat']
  exact ⟨by omega, rfl, rfl⟩

theorem uint16_cells {x : UInt16} (h : uint16DecodeBinary st = some (.ok x, st')) :
    x.toNat = cell st.data st.offset + 256 * cell st.data (st.offset + 1) ∧ st'.data = st.data ∧
      st'.offset = st.offset + 2 := by
  obtain ⟨bytes, htake, rfl⟩ := map_ok h
  obtain ⟨_, hbytes, rfl⟩ := take_ok htake
  have h0 := cell_lt st.data st.offset
  have h1 := cell_lt st.data (st.offset + 1)
  rw [hbytes, ofBytes_cells, ofBytes_cells, List.take_zero, ofBytes, UInt16.toNat_ofNat']
  exact ⟨by omega, rfl, rfl⟩

theorem uint32_cells {x : UInt32} (h : uint32DecodeBinary st = some (.ok x, st')) :
    x.toNat = cell st.data st.offset + 256 * cell st.data (st.offset + 1) + 65536 * cell st.data (st.offset + 2) +
        16777216 * cell st.data (st.offset + 3) ∧ st'.data = st.data ∧ st'.offset = st.offset + 4 := by
  obtain ⟨bytes, htake, rfl⟩ := map_ok h
  obtain ⟨_, hbytes, rfl⟩ := take_ok htake
  have h0 := cell_lt st.data st.offset
  have h1 := cell_lt st.data (st.offset + 1)
  have h2 := cell_lt st.data (st.offset + 2)
  have h3 := cell_lt st.data (st.offset + 3)
  rw [hbytes, ofBytes_cells, ofBytes_cells, ofBytes_cells, ofBytes_cells, List.take_zero, ofBytes, UInt32.toNat_ofNat']
  simp only [Nat.add_assoc, Nat.reduceAdd]
  exact ⟨by omega, rfl, rfl⟩

theorem wire_nameSlots {id id' : NodeId}
    (slots : Slots (.scalar (.simple id .uint16) (.scalar (.simple id' .string) .nil))) :
    ∃ ns s, wire (slotsProg slots) = toBytes 2 ns ++ wire (stringProg s) := by
  match slots with
  | .scalar (.simple ns) (.scalar (.simple s) .nil) =>
      refine ⟨UInt16.toNat ns, s, ?_⟩
      rw [slotsProg, slotsProg, slotsProg, valProg, valProg]
      exact congrArg (toBytes 2 _ ++ ·) (List.append_nil _)

theorem wireOf_name (data : Val qualifiedName) : ∃ ns s, wireOf data = toBytes 2 ns ++ wire (stringProg s) := by
  have hslots : ∀ slots, wireOf (.struct slots : Val qualifiedName) = wire (slotsProg slots) := by
    intro slots
    rw [wireOf, valProg]
  match data with
  | .struct slots =>
      obtain ⟨ns, s, hwire⟩ := wire_nameSlots slots
      exact ⟨ns, s, (hslots slots).trans hwire⟩

theorem header_parts {typeId : NodeId} {encoding : UInt8}
    (h : headerDecodeBinary st = some (.ok (typeId, encoding), st')) :
    ∃ st1, nodeIdDecodeBinary st = some (.ok typeId, st1) ∧ byteDecodeBinary st1 = some (.ok encoding, st') := by
  rw [headerDecodeBinary] at h
  split at h
  · simp at h
  · simp at h
  · rename_i hboth
    split at h
    · simp at h
    · simp only [Option.some.injEq, Prod.mk.injEq, Except.ok.injEq] at h
      obtain ⟨⟨rfl, rfl⟩, rfl⟩ := h
      exact both_ok hboth

theorem numericId_cells {i : UInt32} (h : nodeIdDecodeBinary st = some (.ok (numericId 0 i), st')) :
    st'.data = st.data ∧
      (cell st.data st.offset = 0 ∧ st'.offset = st.offset + 2 ∨
        cell st.data st.offset = 1 ∧ cell st.data (st.offset + 1) = 0 ∧ st'.offset = st.offset + 4 ∨
        cell st.data st.offset = 2 ∧ 16777216 * cell st.data (st.offset + 6) ≤ i.toNat) := by
  obtain ⟨tag, st1, htag, h⟩ := andThen_ok h
  obtain ⟨hcell, hdata1, hoff1⟩ := byte_cell htag
  rw [nodeIdBodyDecodeBinary] at h
  split at h
  · rename_i h0
    obtain ⟨x, hx, _⟩ := map_ok h
    obtain ⟨_, hdata2, hoff2⟩ := byte_cell hx
    rw [h0] at hcell
    exact ⟨hdata2.trans hdata1, .inl ⟨hcell.symm, by omega⟩⟩
  split at h
  · rename_i h1
    obtain ⟨⟨ns, x⟩, hboth, heq⟩ := map_ok h
    obtain ⟨st2, hns, hx⟩ := both_ok hboth
    obtain ⟨hnsCell, hdata2, hoff2⟩ := byte_cell hns
    obtain ⟨_, hdata3, hoff3⟩ := uint16_cells hx
    rw [h1] at hcell
    have hzero : ns.toNat = 0 := by
      have hns0 : ns.toUInt16.toNat = 0 := congrArg UInt16.toNat (congrArg NodeId.namespaceIndex heq)
      simpa using hns0
    rw [hdata1, hoff1, hzero] at hnsCell
    exact ⟨hdata3.trans (hdata2.trans hdata1), .inr (.inl ⟨hcell.symm, hnsCell.symm, by omega⟩)⟩
  split at h
  · rename_i h2
    obtain ⟨⟨ns, x⟩, hboth, heq⟩ := map_ok h
    obtain ⟨st2, hns, hx⟩ := both_ok hboth
    obtain ⟨_, hdata2, hoff2⟩ := uint16_cells hns
    obtain ⟨hxCells, hdata3, _⟩ := uint32_cells hx
    rw [h2] at hcell
    have hxi : x = i := by simpa [numericId] using congrArg NodeId.identifier heq
    rw [hdata2, hdata1, hxi, show st2.offset + 3 = st.offset + 6 by omega] at hxCells
    exact ⟨hdata3.trans (hdata2.trans hdata1), .inr (.inr ⟨hcell.symm, by omega⟩)⟩
  split at h
  · obtain ⟨p, _, heq⟩ := map_ok h
    simp [numericId] at heq
  split at h
  · obtain ⟨p, _, heq⟩ := map_ok h
    simp [numericId] at heq
  split at h
  · obtain ⟨p, _, heq⟩ := map_ok h
    simp [numericId] at heq
  · simp [fail] at h

/-- What the bytes of an object with this name say: the id in one of its forms
comes first, and the length behind it is that of the name. -/
theorem object_cells {n : Nat} {nodelete : Bool} {data : Val qualifiedName}
    (h : decodeBinary n .extensionObject st = some (.ok (.decoded nodelete qualifiedName data), st')) :
    (∃ offset, (wireOf data).length = cell st.data offset + 256 * cell st.data (offset + 1) +
        65536 * cell st.data (offset + 2) + 16777216 * cell st.data (offset + 3) ∧
      (cell st.data st.offset = 0 ∧ offset = st.offset + 3 ∨
        cell st.data st.offset = 1 ∧ cell st.data (st.offset + 1) = 0 ∧ offset = st.offset + 5)) ∨
      cell st.data st.offset = 2 ∧ cell st.data (st.offset + 6) = 0 := by
  cases n with
  | zero => simp [decodeBinary] at h
  | succ n =>
      obtain ⟨⟨typeId, encoding⟩, st2, hheader, hbody⟩ := andThen_ok h
      obtain ⟨i, rfl⟩ := header_ok hheader
      obtain ⟨st1, hnode, hencoding⟩ := header_parts hheader
      dsimp only at hbody
      split at hbody
      · simp [succeed] at hbody
      split at hbody
      · obtain ⟨body, _, heq⟩ := map_ok hbody
        simp at heq
      obtain ⟨_, hfind, st3, length, hlength, hjump, hend⟩ := content_decoded hbody
      obtain ⟨x, hx, rfl⟩ := map_ok hlength
      obtain ⟨hxCells, _, hoff3⟩ := uint32_cells hx
      obtain ⟨_, hdata2, hoff2⟩ := byte_cell hencoding
      obtain ⟨hdata1, hforms⟩ := numericId_cells hnode
      rw [hdata2, hdata1] at hxCells
      have hi : i.toNat = 22 := by
        have hid : numericId 0 20 = numericId 0 (i - 2) := typeId_of_findDataType hfind
        have hsub : i - 2 = 20 := by simpa [numericId, eq_comm] using hid
        have h22 : i = 20 + 2 := by rw [← hsub]; simp
        rw [h22]
        rfl
      have hconsumed := qualifiedName_offset hjump
      change st'.offset = st3.offset + (wireOf data).length at hconsumed
      have hxLength : x.toNat = (wireOf data).length := by
        have hlt : x.toNat < 4294967296 := x.toNat_lt
        have hsigned : toInt32 x.toNat = (wireOf data).length := by omega
        rw [toInt32] at hsigned
        split at hsigned <;> omega
      rw [hxLength] at hxCells
      rcases hforms with ⟨h0, hoff1⟩ | ⟨h0, h1, hoff1⟩ | ⟨h0, hhigh⟩
      · exact .inl ⟨st2.offset, hxCells, .inl ⟨h0, by omega⟩⟩
      · exact .inl ⟨st2.offset, hxCells, .inr ⟨h0, h1, by omega⟩⟩
      · exact .inr ⟨h0, by omega⟩

/-- The length of the name, four bytes, the namespace, two bytes, and the
length of its text. -/
theorem name_cells {data : Val qualifiedName} {pre post : List UInt8}
    (hdata : st.data = pre ++ (lengthBytes (wireOf data).length ++ wireOf data) ++ post)
    (hoff : st.offset = pre.length) :
    (∀ j < 4, cell st.data (st.offset + j) = (wireOf data).length / 256 ^ j % 256) ∧
      ∃ k, (wireOf data).length = 6 + k ∧ (0 < k → cell st.data (st.offset + 6) = k % 256) := by
  obtain ⟨ns, s, hwire⟩ := wireOf_name data
  refine ⟨fun j hj => ?_, s.length, ?_, fun hpos => ?_⟩
  · rw [hoff, ← cell_toBytes pre (wireOf data ++ post) hj, hdata]
    simp only [lengthBytes, List.append_assoc]
  · rw [hwire, List.length_append, length_toBytes, wire_stringProg_length]
    omega
  · have hlength : (pre ++ (toBytes 4 (wireOf data).length ++ toBytes 2 ns)).length = st.offset + 6 := by
      rw [hoff, List.length_append, List.length_append, length_toBytes, length_toBytes]
    have hsplit : st.data = (pre ++ (toBytes 4 (wireOf data).length ++ toBytes 2 ns)) ++
        (toBytes 4 s.length ++ (s.bytes ++ post)) := by
      rw [hdata, hwire, EncoderRuns.stringProg_of_pos hpos]
      simp only [lengthBytes, wire, Write.wire, List.append_assoc]
      rfl
    have hcell := cell_toBytes (pre ++ (toBytes 4 (wireOf data).length ++ toBytes 2 ns)) (s.bytes ++ post)
      (k := 4) (n := s.length) (j := 0) (by decide)
    rw [← hsplit, hlength] at hcell
    simpa using hcell

/-- The length and the bytes of a QualifiedName are never an object with this
name: the lowest byte of the text's length stands where a zero would have to
be. -/
theorem name_not_run {n : Nat} {nodelete : Bool} {data : Val qualifiedName} {pre post : List UInt8}
    (hdata : st.data = pre ++ (lengthBytes (wireOf data).length ++ wireOf data) ++ post)
    (hoff : st.offset = pre.length) :
    decodeBinary n .extensionObject st ≠ some (.ok (.decoded nodelete qualifiedName data), st') := by
  intro h
  obtain ⟨hcells, k, hlength, htext⟩ := name_cells hdata hoff
  have hcell0 : cell st.data st.offset = (wireOf data).length % 256 := by simpa using hcells 0 (by decide)
  have hcell1 : cell st.data (st.offset + 1) = (wireOf data).length / 256 % 256 := hcells 1 (by decide)
  have hcell3 : cell st.data (st.offset + 3) = (wireOf data).length / 16777216 % 256 := hcells 3 (by decide)
  have hpos : 0 < k := by
    refine Nat.pos_of_ne_zero fun hzero => ?_
    rcases object_cells h with ⟨_, _, ⟨h0, _⟩ | ⟨h0, _⟩⟩ | ⟨h0, _⟩ <;> omega
  have hcell6 := htext hpos
  have h6 := cell_lt st.data (st.offset + 6)
  rcases object_cells h with ⟨_, hsame, ⟨h0, rfl⟩ | ⟨h0, h1, rfl⟩⟩ | ⟨h0, hzero⟩
  · simp only [Nat.add_assoc, Nat.reduceAdd] at hsame
    have h4 := cell_lt st.data (st.offset + 4)
    have h5 := cell_lt st.data (st.offset + 5)
    omega
  · simp only [Nat.add_assoc, Nat.reduceAdd] at hsame
    have h5 := cell_lt st.data (st.offset + 5)
    have h7 := cell_lt st.data (st.offset + 7)
    omega
  · omega

end Names

theorem qualifiedName_of_typeId {t : DataType} (h : t ∈ uaTypes) (hid : t.typeId = numericId 0 20) :
    t = qualifiedName := by
  have hmem : qualifiedName ∈ uaTypes :=
    List.getElem_mem (l := uaTypes) (n := 19) (by decide +kernel)
  exact List.inj_on_of_nodup_map typeIds_nodup h hmem hid

/-- The content of the object is taken for a value of the type that has the id
of its encoding. -/
theorem object_not_run {n : Nat} {type : DataType} {data : Val type} (hmem : type ∈ uaTypes)
    (hfind : findDataType (binaryId type.typeId) ≠ none) {pre post : List UInt8} {st st' : Dec}
    (hdata : st.data = pre ++ wire (wrapProg type.typeId (valProg data)) ++ post) (hoff : st.offset = pre.length)
    (hheap : st.heap = []) :
    objectVariantDecodeBinary (decodeBinary n) st ≠
      some (.ok (.scalarVariant .extensionObject (.decoded false type data)), st') := by
  intro hrun
  obtain ⟨i, st1, hid, hcontent, hhead, hoff1⟩ := headOf_wrapped hmem hdata hoff hheap
  rw [hid] at hfind
  rcases objectVariant_ok hrun hhead rfl with ⟨type', x, hfind', heq, hjump⟩ | ⟨hnone, _⟩
  · simp only [Val.scalarVariant.injEq] at heq
    obtain ⟨rfl, hx⟩ := heq
    obtain rfl := eq_of_heq hx
    have h22 : numericId 0 22 = numericId 0 i := typeId_of_findDataType hfind'
    obtain rfl : i = 22 := by simpa [numericId, eq_comm] using h22
    obtain rfl := qualifiedName_of_typeId hmem (hcontent.symm.trans (by decide))
    rw [wire_wrapProg, hid] at hdata
    have hoff2 : ({ st1 with heap := st1.heap.tail } : Dec).offset = _ := hoff1
    have hdata2 : ({ st1 with heap := st1.heap.tail } : Dec).data =
        (pre ++ (wire (nodeIdProg (numericId 0 22)) ++ [1])) ++
          (lengthBytes (wireOf data).length ++ wireOf data) ++ post := by
      change st1.data = _
      rw [keeps_headOf _ _ _ hhead, hdata]
      simp only [List.append_assoc]
      rfl
    exact name_not_run hdata2 hoff2 hjump
  · exact hfind hnone

theorem object_not_read {n : Nat} {type : DataType} {data : Val type} (hmem : type ∈ uaTypes)
    (hfind : findDataType (binaryId type.typeId) ≠ none) :
    ¬ CanRead (objectVariantDecodeBinary (decodeBinary n)) (wire (wrapProg type.typeId (valProg data)))
      (.scalarVariant .extensionObject (.decoded false type data)) := by
  rintro ⟨pre, post, st, st', hdata, hoff, hheap, _, hrun, _⟩
  exact object_not_run hmem hfind hdata hoff hheap hrun

end OpcUa.ObjectVariants
