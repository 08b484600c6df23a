import OpcUa.Decoding
import OpcUa.EncoderPrograms
import OpcUa.ReadBack

namespace OpcUa.LeafReading

open StatusCodes LittleEndian NodeIds DataTypes ValueEncoding Readers Decoding ReadBack WritePrograms EncoderPrograms

variable {room : Nat}

theorem reads_bytes (k n : Nat) : Reads room (take k) (toBytes k n) (toBytes k n) := by
  have h : Reads room (take (toBytes k n).length) (toBytes k n) (toBytes k n) := reads_take _
  rwa [length_toBytes] at h

theorem reads_byte (x : UInt8) : Reads room byteDecodeBinary [x] x := by
  have h : Reads room byteDecodeBinary [x] (UInt8.ofNat (ofBytes [x])) :=
    reads_map _ (reads_take [x])
  have hx : UInt8.ofNat (ofBytes [x]) = x := by simp [ofBytes]
  rwa [hx] at h

theorem reads_uint16 (x : UInt16) : Reads room uint16DecodeBinary (toBytes 2 x.toNat) x := by
  have h : Reads room uint16DecodeBinary (toBytes 2 x.toNat) _ := reads_map _ (reads_bytes 2 x.toNat)
  have hx : UInt16.ofNat (ofBytes (toBytes 2 x.toNat)) = x := by
    have hlt : x.toNat < 256 ^ 2 := x.toNat_lt
    rw [ofBytes_toBytes, Nat.mod_eq_of_lt hlt, UInt16.ofNat_toNat]
  rwa [hx] at h

theorem reads_uint32_of (n : Nat) :
    Reads room uint32DecodeBinary (toBytes 4 n) (UInt32.ofNat n) := by
  have h : Reads room uint32DecodeBinary (toBytes 4 n) _ := reads_map _ (reads_bytes 4 n)
  have hx : UInt32.ofNat (ofBytes (toBytes 4 n)) = UInt32.ofNat n := by
    rw [ofBytes_toBytes, ← UInt32.toNat_inj, UInt32.toNat_ofNat', UInt32.toNat_ofNat']
    exact Nat.mod_mod n (2 ^ 32)
  rwa [hx] at h

theorem reads_uint32 (x : UInt32) : Reads room uint32DecodeBinary (toBytes 4 x.toNat) x := by
  have h : Reads room uint32DecodeBinary (toBytes 4 x.toNat) _ := reads_uint32_of x.toNat
  rwa [UInt32.ofNat_toNat] at h

theorem reads_uint64 (x : UInt64) : Reads room uint64DecodeBinary (toBytes 8 x.toNat) x := by
  have h : Reads room uint64DecodeBinary (toBytes 8 x.toNat) _ := reads_map _ (reads_bytes 8 x.toNat)
  have hx : UInt64.ofNat (ofBytes (toBytes 8 x.toNat)) = x := by
    have hlt : x.toNat < 256 ^ 8 := x.toNat_lt
    rw [ofBytes_toBytes, Nat.mod_eq_of_lt hlt, UInt64.ofNat_toNat]
  rwa [hx] at h

theorem reads_int32 (n : Nat) :
    Reads room int32DecodeBinary (toBytes 4 n) (toInt32 (n % 4294967296)) := by
  have h : Reads room int32DecodeBinary (toBytes 4 n) _ := reads_map _ (reads_uint32_of n)
  rwa [UInt32.toNat_ofNat'] at h

theorem reads_length {n : Nat} (h : n < 2147483648) :
    Reads room int32DecodeBinary (lengthBytes n) n := by
  have hread : Reads room int32DecodeBinary (lengthBytes n) _ := reads_int32 n
  rwa [Nat.mod_eq_of_lt (by omega), toInt32, if_pos h] at hread

theorem reads_nullLength : Reads room int32DecodeBinary nullLengthBytes (-1) :=
  reads_int32 4294967295

theorem reads_boolean {x : UInt8} (h : x ≤ 1) : Reads room booleanDecodeBinary [x] x := by
  have hread : Reads room booleanDecodeBinary [x] (if x > 0 then 1 else 0) :=
    reads_map _ (reads_byte x)
  have hx : x = 0 ∨ x = 1 := by
    have hle := UInt8.le_iff_toNat_le.mp h
    rw [← UInt8.toNat_inj, ← UInt8.toNat_inj]
    change x.toNat = 0 ∨ x.toNat = 1
    change x.toNat ≤ 1 at hle
    omega
  rcases hx with rfl | rfl
  · exact hread
  · exact hread

/-- The rest of `String_decodeBinary` after a positive length. -/
theorem reads_text (bytes : List UInt8) (hlen : bytes.length < 2147483648) (hne : bytes ≠ []) :
    Reads room stringDecodeBinary (Write.text bytes).wire (some bytes) := by
  have hpos := List.length_pos_iff.mpr hne
  refine reads_andThen (reads_withError _ (reads_length hlen)) ?_
  intro pre post st hdata hoff hpost hheap
  have hroom : ¬ st.offset + bytes.length > st.data.length := by
    rw [hdata, hoff]
    simp only [List.length_append]
    omega
  have hbody : Reads room (andThen allocate (fun _ => map some (take bytes.length))) bytes (some bytes) :=
    reads_allocated (reads_map some (reads_take bytes))
  obtain ⟨v, st', hrun, hrest⟩ := hbody pre post st hdata hoff hpost hheap
  refine ⟨v, st', ?_, hrest⟩
  change (if (bytes.length : Int) ≤ 0 then _ else if st.offset + bytes.length > st.data.length then _
    else andThen allocate (fun _ => map some (take bytes.length)) st) = _
  rw [if_neg (by omega), if_neg hroom, hrun]

theorem wire_stringProg_length (s : UaString) : (wire (stringProg s)).length = 4 + s.length := by
  match s with
  | none => rfl
  | some [] => rfl
  | some (b :: bs) =>
      change (toBytes 4 (b :: bs).length ++ (b :: bs)).length = 4 + (b :: bs).length
      rw [List.length_append, length_toBytes]

theorem reads_string {s : UaString} (h : s.length < 2147483648) :
    Reads room stringDecodeBinary (wire (stringProg s)) s := by
  match s, h with
  | none, _ =>
      have hread : Reads room stringDecodeBinary (nullLengthBytes ++ []) none := by
        refine reads_andThen (reads_withError _ reads_nullLength) ?_
        exact reads_succeed none
      rwa [List.append_nil] at hread
  | some [], h =>
      have hread : Reads room stringDecodeBinary (lengthBytes 0 ++ []) (some []) := by
        refine reads_andThen (reads_withError _ (reads_length h)) ?_
        exact reads_succeed (some [])
      rwa [List.append_nil] at hread
  | some (b :: bs), h => exact reads_text (b :: bs) h (by simp)

/-- No length that the decoder accepts exceeds the range of `UA_Int32`. -/
theorem stringDecodeBinary_length {st st' : Dec} {s : UaString}
    (h : stringDecodeBinary st = some (.ok s, st')) : s.length < 2147483648 := by
  obtain ⟨signedLength, st1, hlength, h⟩ := andThen_ok h
  have hrange : signedLength < 2147483648 := by
    obtain ⟨x, -, rfl⟩ := map_ok (withError_ok hlength)
    have hx : x.toNat < 4294967296 := x.toNat_lt
    rw [toInt32]
    split <;> omega
  split at h
  · simp only [Option.some.injEq, Prod.mk.injEq, Except.ok.injEq] at h
    rw [← h.1]
    split <;> simp [UaString.length, UaString.bytes]
  · split at h
    · simp at h
    · obtain ⟨_, st2, _, h⟩ := andThen_ok h
      obtain ⟨bytes, htake, rfl⟩ := map_ok h
      have hbytes := (take_ok htake).1
      simp only [UaString.length, UaString.bytes, Option.getD_some]
      omega

theorem reads_bytesDecode (bytes : List UInt8) :
    Reads room (bytesDecodeBinary bytes.length) bytes bytes := by
  induction bytes with
  | nil => exact reads_succeed []
  | cons b bs ih =>
      exact reads_map (fun p => p.1 :: p.2) (reads_both (w := [b]) (reads_byte b) ih)

theorem wire_seqAll_bytes (bytes : List UInt8) :
    wire (Prog.seqAll (bytes.map (fun b => plain [b]))) = bytes := by
  induction bytes with
  | nil => rfl
  | cons b bs ih =>
      rw [List.map_cons, Prog.seqAll, wire, ih]
      rfl

theorem reads_guid (g : Guid) : Reads room guidDecodeBinary (wire (guidProg g)) g := by
  have hlast : Reads room (bytesDecodeBinary 8)
      (wire (Prog.seqAll (g.data4.map (fun b => plain [b])))) g.data4 := by
    rw [wire_seqAll_bytes, ← g.data4_length]
    exact reads_bytesDecode g.data4
  have hread : Reads room guidDecodeBinary (wire (guidProg g))
      (guidOf (g.data1, g.data2, g.data3, g.data4)) :=
    reads_map guidOf (reads_both (reads_uint32 _) (reads_both (reads_uint16 _)
      (reads_both (reads_uint16 _) hlast)))
  rwa [guidOf, dif_pos g.data4_length] at hread

section Keeps

theorem keeps_byte : Keeps byteDecodeBinary := keeps_map _ (keeps_take 1)

theorem keeps_uint16 : Keeps uint16DecodeBinary := keeps_map _ (keeps_take 2)

theorem keeps_uint32 : Keeps uint32DecodeBinary := keeps_map _ (keeps_take 4)

theorem keeps_string : Keeps stringDecodeBinary := by
  refine keeps_andThen (keeps_withError _ (keeps_map _ keeps_uint32)) (fun signedLength => ?_)
  exact keeps_if (fun _ => signedLength ≤ 0) (keeps_succeed _)
    (keeps_if (fun st => st.offset + signedLength.toNat > st.data.length) (keeps_fail _)
      (keeps_andThen keeps_allocate (fun _ => keeps_map some (keeps_take _))))

theorem keeps_bytes (n : Nat) : Keeps (bytesDecodeBinary n) := by
  induction n with
  | zero => exact keeps_succeed []
  | succ n ih => exact keeps_map _ (keeps_both keeps_byte ih)

theorem keeps_guid : Keeps guidDecodeBinary :=
  keeps_map _ (keeps_both keeps_uint32 (keeps_both keeps_uint16 (keeps_both keeps_uint16 (keeps_bytes 8))))

theorem keeps_nodeId : Keeps nodeIdDecodeBinary := by
  refine keeps_andThen keeps_byte (fun encodingByte => ?_)
  rw [nodeIdBodyDecodeBinary]
  split
  · exact keeps_map _ keeps_byte
  split
  · exact keeps_map _ (keeps_both keeps_byte keeps_uint16)
  split
  · exact keeps_map _ (keeps_both keeps_uint16 keeps_uint32)
  split
  · exact keeps_map _ (keeps_both keeps_uint16 keeps_string)
  split
  · exact keeps_map _ (keeps_both keeps_uint16 keeps_guid)
  split
  · exact keeps_map _ (keeps_both keeps_uint16 keeps_string)
  · exact keeps_fail _

end Keeps

end OpcUa.LeafReading
