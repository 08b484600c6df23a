import OpcUa.EncoderRuns
import OpcUa.LeafReading

namespace OpcUa.NodeIdRoundTrips

open StatusCodes LittleEndian NodeIds DataTypes Writers ValueEncoding Readers Decoding ReadBack WritePrograms
  EncoderPrograms EncoderRuns LeafReading

variable {room : Nat}

/-- A numeric id after the cast to the fields of the format chosen for it. -/
def compacted (ns : UInt16) (i : UInt32) : NodeId :=
  if i.toNat > uint16Max ∨ ns.toNat > byteMax then numericId ns i
  else if i.toNat > byteMax ∨ ns.toNat > 0 then numericId ns.toUInt8.toUInt16 i.toUInt16.toUInt32
  else numericId 0 i.toUInt8.toUInt32

theorem reads_tagged (tag : UInt8) {n : NodeId} {w : List UInt8}
    (h : Reads room (nodeIdBodyDecodeBinary tag) w n) : Reads room nodeIdDecodeBinary (tag :: w) n :=
  reads_andThen (w := [tag]) (reads_byte tag) h

theorem nodeIdProg_numeric (ns : UInt16) (i : UInt32) : nodeIdProg (numericId ns i) =
    if i.toNat > uint16Max ∨ ns.toNat > byteMax then
      .seq (plain [2]) (.seq (plain (toBytes 2 ns.toNat)) (plain (toBytes 4 i.toNat)))
    else if i.toNat > byteMax ∨ ns.toNat > 0 then
      .seq (plain [1]) (.seq (plain [ns.toUInt8]) (plain (toBytes 2 i.toUInt16.toNat)))
    else .seq (plain [0]) (plain [i.toUInt8]) :=
  rfl

theorem reads_numeric (ns : UInt16) (i : UInt32) :
    Reads room nodeIdDecodeBinary (wire (nodeIdProg (numericId ns i))) (compacted ns i) := by
  rw [nodeIdProg_numeric, compacted]
  by_cases hcomplete : i.toNat > uint16Max ∨ ns.toNat > byteMax
  · rw [if_pos hcomplete, if_pos hcomplete]
    exact reads_tagged 2
      (reads_map (fun p => numericId p.1 p.2) (reads_both (reads_uint16 ns) (reads_uint32 i)))
  · rw [if_neg hcomplete, if_neg hcomplete]
    by_cases hfour : i.toNat > byteMax ∨ ns.toNat > 0
    · rw [if_pos hfour, if_pos hfour]
      exact reads_tagged 1
        (reads_map (fun p => numericId p.1.toUInt16 p.2.toUInt32)
          (reads_both (reads_byte ns.toUInt8) (reads_uint16 i.toUInt16)))
    · rw [if_neg hfour, if_neg hfour]
      exact reads_tagged 0
        (reads_map (fun b => numericId 0 b.toUInt32) (reads_byte i.toUInt8))

/-- The ids that fit into the format in which they are encoded. -/
def Representable (n : NodeId) : Prop :=
  match n.identifier with
  | .numeric i =>
      ¬ (n.namespaceIndex = 0 ∧ i = 256) ∧ ¬ (n.namespaceIndex = 256 ∧ i.toNat ≤ uint16Max)
  | .string s => s.length < 2147483648
  | .guid _ => True
  | .byteString b => b.length < 2147483648

theorem numericId_inj {ns ns' : UInt16} {i i' : UInt32} :
    numericId ns i = numericId ns' i' ↔ ns.toNat = ns'.toNat ∧ i.toNat = i'.toNat := by
  simp [numericId, UInt16.toNat_inj, UInt32.toNat_inj]

theorem compacted_eq_iff (ns : UInt16) (i : UInt32) :
    compacted ns i = numericId ns i ↔ Representable (numericId ns i) := by
  have hzero : ns = 0 ↔ ns.toNat = 0 := by rw [← UInt16.toNat_inj]; rfl
  have hns : ns = 256 ↔ ns.toNat = 256 := by rw [← UInt16.toNat_inj]; rfl
  have hi : i = 256 ↔ i.toNat = 256 := by rw [← UInt32.toNat_inj]; rfl
  have hrep : Representable (numericId ns i) ↔ ¬ (ns.toNat = 0 ∧ i.toNat = 256) ∧
      ¬ (ns.toNat = 256 ∧ i.toNat ≤ 65535) := by
    rw [← hzero, ← hns, ← hi]
    rfl
  rw [hrep]
  have h16 : uint16Max = 65535 := rfl
  have h8 : byteMax = 256 := rfl
  rw [compacted]
  by_cases hcomplete : i.toNat > uint16Max ∨ ns.toNat > byteMax
  · rw [if_pos hcomplete]
    constructor
    · intro _
      omega
    · intro _
      rfl
  · rw [if_neg hcomplete]
    by_cases hfour : i.toNat > byteMax ∨ ns.toNat > 0
    · rw [if_pos hfour, numericId_inj]
      simp only [UInt16.toNat_toUInt32, UInt8.toNat_toUInt16, UInt16.toNat_toUInt8,
        UInt32.toNat_toUInt16]
      omega
    · rw [if_neg hfour, numericId_inj]
      simp only [UInt8.toNat_toUInt32, UInt32.toNat_toUInt8]
      change 0 = ns.toNat ∧ _ ↔ _
      omega

theorem reads_nodeId {n : NodeId} (h : Representable n) :
    Reads room nodeIdDecodeBinary (wire (nodeIdProg n)) n := by
  obtain ⟨ns, identifier⟩ := n
  cases identifier with
  | numeric i =>
      have hread : Reads room nodeIdDecodeBinary (wire (nodeIdProg (numericId ns i))) _ :=
        reads_numeric ns i
      rwa [(compacted_eq_iff ns i).mpr h] at hread
  | string s =>
      exact reads_tagged 3
        (reads_map (fun p => NodeId.mk p.1 (.string p.2)) (reads_both (reads_uint16 ns) (reads_string h)))
  | guid g =>
      exact reads_tagged 4
        (reads_map (fun p => NodeId.mk p.1 (.guid p.2)) (reads_both (reads_uint16 ns) (reads_guid g)))
  | byteString b =>
      exact reads_tagged 5
        (reads_map (fun p => NodeId.mk p.1 (.byteString p.2))
          (reads_both (reads_uint16 ns) (reads_string h)))

theorem encodable_stringProg (s : UaString) : Encodable (stringProg s) ∧ Untagged (stringProg s) := by
  match s with
  | none => exact ⟨trivial, trivial⟩
  | some [] => exact ⟨trivial, trivial⟩
  | some (b :: bs) => exact ⟨trivial, trivial⟩

theorem encodable_seqAll (ps : List Prog) (h : ∀ p ∈ ps, Encodable p ∧ Untagged p) :
    Encodable (Prog.seqAll ps) ∧ Untagged (Prog.seqAll ps) := by
  induction ps with
  | nil => exact ⟨trivial, trivial⟩
  | cons p ps ih =>
      have hp := h p (by simp)
      have hps := ih (fun q hq => h q (by simp [hq]))
      exact ⟨⟨hp.1, hps.1⟩, ⟨hp.2, hps.2⟩⟩

theorem encodable_guidProg (g : Guid) : Encodable (guidProg g) ∧ Untagged (guidProg g) := by
  have hlast := encodable_seqAll (g.data4.map (fun b => plain [b])) (by
    intro p hp
    obtain ⟨b, _, rfl⟩ := List.mem_map.mp hp
    exact ⟨trivial, trivial⟩)
  exact ⟨⟨trivial, trivial, trivial, hlast.1⟩, ⟨trivial, trivial, trivial, hlast.2⟩⟩

theorem encodable_nodeIdProg (n : NodeId) : Encodable (nodeIdProg n) ∧ Untagged (nodeIdProg n) := by
  obtain ⟨ns, identifier⟩ := n
  cases identifier with
  | numeric i =>
      change Encodable (nodeIdProg (numericId ns i)) ∧ Untagged (nodeIdProg (numericId ns i))
      rw [nodeIdProg_numeric]
      split
      · exact ⟨⟨trivial, trivial, trivial⟩, ⟨trivial, trivial, trivial⟩⟩
      · split
        · exact ⟨⟨trivial, trivial, trivial⟩, ⟨trivial, trivial, trivial⟩⟩
        · exact ⟨⟨trivial, trivial⟩, ⟨trivial, trivial⟩⟩
  | string s =>
      have h := encodable_stringProg s
      exact ⟨⟨trivial, trivial, h.1⟩, ⟨trivial, trivial, h.2⟩⟩
  | guid g =>
      have h := encodable_guidProg g
      exact ⟨⟨trivial, trivial, h.1⟩, ⟨trivial, trivial, h.2⟩⟩
  | byteString b =>
      have h := encodable_stringProg b
      exact ⟨⟨trivial, trivial, h.1⟩, ⟨trivial, trivial, h.2⟩⟩

theorem writes_nodeId (limit : Nat) (n : NodeId) :
    Writes limit (nodeIdEncodeBinary n) (wire (nodeIdProg n)) := by
  rw [nodeId_run]
  have h := encodable_nodeIdProg n
  exact run_writes _ h.1 (Or.inr h.2)

/-- The strings in a decoded id are in the range of `UA_Int32`. -/
theorem nodeIdDecodeBinary_strings {st st' : Dec} {ns : UInt16} {s : UaString} {identifier : Identifier}
    (h : nodeIdDecodeBinary st = some (.ok ⟨ns, identifier⟩, st'))
    (hs : identifier = .string s ∨ identifier = .byteString s) : s.length < 2147483648 := by
  obtain ⟨tag, st1, _, h⟩ := andThen_ok h
  have hother : ∀ {α : Type} {d : DecM α} {f : α → NodeId}, map f d st1 = some (.ok ⟨ns, identifier⟩, st') →
      (∀ a, (f a).identifier ≠ .string s ∧ (f a).identifier ≠ .byteString s) → False := by
    intro α d f hmap hf
    obtain ⟨a, _, ha⟩ := map_ok hmap
    have hne := hf a
    rw [ha] at hne
    exact hs.elim hne.1 hne.2
  have htext : ∀ {f : UInt16 × UaString → NodeId},
      map f (both uint16DecodeBinary stringDecodeBinary) st1 = some (.ok ⟨ns, identifier⟩, st') →
      (∀ p, (f p).identifier = .string p.2 ∨ (f p).identifier = .byteString p.2) →
      s.length < 2147483648 := by
    intro f hmap hf
    obtain ⟨⟨ns', s'⟩, hboth, hp⟩ := map_ok hmap
    obtain ⟨st2, _, hstring⟩ := both_ok hboth
    have heq := hf (ns', s')
    rw [hp] at heq
    have hss : s = s' := by
      rcases hs with rfl | rfl <;> rcases heq with heq | heq <;> simp at heq <;> exact heq
    rw [hss]
    exact stringDecodeBinary_length hstring
  rw [nodeIdBodyDecodeBinary] at h
  split at h
  · exact (hother h (fun _ => ⟨by simp [numericId], by simp [numericId]⟩)).elim
  split at h
  · exact (hother h (fun _ => ⟨by simp [numericId], by simp [numericId]⟩)).elim
  split at h
  · exact (hother h (fun _ => ⟨by simp [numericId], by simp [numericId]⟩)).elim
  split at h
  · exact htext h (fun _ => Or.inl rfl)
  split at h
  · exact (hother h (fun _ => ⟨by simp, by simp⟩)).elim
  split at h
  · exact htext h (fun _ => Or.inr rfl)
  · simp [fail] at h

theorem representable_of_reads {n : NodeId} (h : Reads room nodeIdDecodeBinary (wire (nodeIdProg n)) n) :
    Representable n := by
  obtain ⟨ns, identifier⟩ := n
  cases identifier with
  | numeric i => exact (compacted_eq_iff ns i).mp ((reads_numeric ns i).unique h)
  | string s =>
      obtain ⟨st', hrun, _⟩ := h.run []
      exact nodeIdDecodeBinary_strings hrun (Or.inl rfl)
  | guid g => exact trivial
  | byteString b =>
      obtain ⟨st', hrun, _⟩ := h.run []
      exact nodeIdDecodeBinary_strings hrun (Or.inr rfl)

/-- The encoder and the decoder agree on exactly the representable ids. -/
theorem nodeId_roundTrips_iff (n : NodeId) :
    (∃ w, (∀ limit, Writes limit (nodeIdEncodeBinary n) w) ∧ Reads 0 nodeIdDecodeBinary w n) ↔
      Representable n := by
  constructor
  · rintro ⟨w, hw, hread⟩
    have hwire := writes_unique hw (fun limit => writes_nodeId limit n)
    subst hwire
    exact representable_of_reads hread
  · intro h
    exact ⟨wire (nodeIdProg n), fun limit => writes_nodeId limit n, reads_nodeId h⟩

theorem nodeId_loses_identifier :
    ¬ ∃ w, (∀ limit, Writes limit (nodeIdEncodeBinary (numericId 0 256)) w) ∧
      Reads 0 nodeIdDecodeBinary w (numericId 0 256) := by
  rintro ⟨w, hw, hread⟩
  have hwire := writes_unique hw (fun limit => writes_nodeId limit (numericId 0 256))
  subst hwire
  have hnot : ¬ Representable (numericId 0 256) := fun h => h.1 ⟨rfl, rfl⟩
  exact hnot (representable_of_reads hread)

end OpcUa.NodeIdRoundTrips
