import OpcUa.EncoderRuns
import OpcUa.EntryPoints
import OpcUa.Recoveries

namespace OpcUa.Reencoding

open Filter
open LittleEndian NodeIds DataTypes TypeTable Values ValueEncoding Readers Decoding ValueDecoding ReadBack
open WritePrograms EncoderPrograms EncoderRuns EntryPoints LeafReading NodeIdRoundTrips ValueReading
open SimpleRoundTrips Variants VariantShapes DecodedValues StableValues Recoveries

variable {t : DataType}

/-- The bytes that `UA_encodeBinary` writes for a value. -/
def uaWire (v : Val t) : List UInt8 := wire (uaProg v)

/-- The value is encoded in every buffer with room for it, and decoded again
if enough bytes follow. The flags of an ExpandedNodeId are set at an offset of
32 bits. -/
def Restored (v : Val t) : Prop :=
  (∀ limit, limit ≤ 4294967296 ∨ Untagged (uaProg v) → Writes limit (uaEncodeBinary v) (uaWire v)) ∧
    ∃ room, ∀ᶠ fuel in atTop, Reads room (uaDecodeBinary fuel t) (uaWire v) v

/-- An ExpandedNodeId that is not a member of a structure is encoded by its
members, with an empty namespace URI as well. -/
def UaStable : {t : DataType} → Val t → Prop
  | _, .simple (b := .expandedNodeId) x => StableId x.nodeId
  | _, v => Stable v

theorem restored_iff {v : Val t} (hencodable : Encodable (uaProg v)) :
    Restored v ↔ ∃ room, ∀ᶠ fuel in atTop, Reads room (uaDecodeBinary fuel t) (uaWire v) v := by
  refine ⟨fun h => h.2, fun h => ⟨fun limit hlimit => ?_, h⟩⟩
  rw [uaEncodeBinary_run]
  exact run_writes _ hencodable hlimit

theorem uaProg_of_direct (h : rerouted t = false) (v : Val t) : uaProg v = valProg v := by
  cases v with
  | @simple typeId b x =>
      cases b <;> first | rfl | cases h
  | _ => rfl

theorem uaStable_of_direct (h : rerouted t = false) (v : Val t) : UaStable v = Stable v := by
  cases v with
  | @simple typeId b x =>
      cases b <;> first | rfl | cases h
  | _ => rfl

theorem direct_restored_iff (h : rerouted t = false) {v : Val t} (hv : Decoded v) : Restored v ↔ UaStable v := by
  have hprog := uaProg_of_direct h v
  have hdecode : ∀ fuel, uaDecodeBinary fuel t = decodeBinary fuel t := decode_of_direct h
  rw [restored_iff (by rw [hprog]; exact encodable_val v hv), uaStable_of_direct h v, uaWire, hprog]
  simp only [hdecode]
  constructor
  · rintro ⟨room, hread⟩
    refine stable_of_recovers v hv ?_
    exact (eventually_succ (P := fun n => Recovers (decodeBinary n t) _ _)).mpr
      (hread.mono (fun n hn => recovers_of_reads hn))
  · intro hstable
    exact ⟨slack, (eventually_succ (P := fun n => Reads slack (decodeBinary n t) _ _)).mp (reads_stable v hv hstable)⟩

theorem bytesOf_eq {typeId : NodeId} : (vs : Vals (.simple typeId .byte)) →
    bytesOf vs = imageVals vs ∧ (bytesOf vs).length = vs.length
  | .nil => by
      rw [bytesOf]
      exact ⟨rfl, rfl⟩
  | .cons (.simple x) vs => by
      obtain ⟨hbytes, hlength⟩ := bytesOf_eq vs
      rw [bytesOf, imageVals, hbytes, List.length_cons, ← hbytes, hlength]
      exact ⟨rfl, rfl⟩

def textProg (x : UaString) : Prog :=
  arrayProg TypeTable.byte (if x.isNone then nullLengthBytes else lengthBytes x.length) x.bytes
    (x.bytes.map (fun byte => plain [byte]))

theorem wire_textProg (a : Arr TypeTable.byte) : wire (textProg (stringOf a)) = arrayLengthBytes a ++ arrWire a := by
  cases a with
  | null => rfl
  | items vs =>
      have hbytes := bytesOf_eq vs
      have hwire : imageVals vs = itemsWire vs := imageVals_eq rfl vs
      have hlength : UaString.length (some (bytesOf vs)) = vs.length := hbytes.2
      have htext : wire (textProg (some (bytesOf vs))) =
          lengthBytes (UaString.length (some (bytesOf vs))) ++ bytesOf vs := rfl
      change wire (textProg (some (bytesOf vs))) = lengthBytes vs.length ++ itemsWire vs
      rw [htext, hlength]
      exact congrArg (lengthBytes vs.length ++ ·) (hbytes.1.trans hwire)

theorem reads_textProg {a : Arr TypeTable.byte} (ha : DecodedArr a) :
    Reads slack byteArrayDecodeBinary (wire (textProg (stringOf a))) (stringOf a) := by
  rw [wire_textProg]
  exact reads_map stringOf (reads_arrayMember ha (le_refl _) (fun hcopy => by cases hcopy))

theorem text_restored {st st' : Dec} {v : Val t} {fuel : Nat} (f : UaString → Val t)
    (hf : ∀ x, uaProg (f x) = textProg x) (hdecode : ∀ fuel, uaDecodeBinary fuel t = map f byteArrayDecodeBinary)
    (h : uaDecodeBinary fuel t st = some (.ok v, st')) : Restored v := by
  rw [hdecode] at h
  obtain ⟨x, hx, rfl⟩ := map_ok h
  obtain ⟨a, ha, rfl⟩ := map_ok hx
  obtain ⟨n, st1, hn, ha⟩ := andThen_ok ha
  have hitem : Yields (map (fun x => (.simple x : Val TypeTable.byte)) byteDecodeBinary) := decode_ok 1 TypeTable.byte
  have harr := (array_ok hitem (int32_lt hn) ha).1
  rw [restored_iff (by rw [hf]; exact ⟨trivial, trivial⟩)]
  refine ⟨slack, Eventually.of_forall (fun fuel => ?_)⟩
  rw [hdecode, uaWire, hf]
  exact reads_map f (reads_textProg harr)

theorem expanded_restored_iff {typeId : NodeId} {x : ExpandedNodeId} (hid : ShortId x.nodeId)
    (huri : Short x.namespaceUri) :
    Restored (.simple x : Val (.simple typeId .expandedNodeId)) ↔ StableId x.nodeId := by
  have hencodable : Encodable (uaProg (.simple x : Val (.simple typeId .expandedNodeId))) :=
    ⟨(encodable_nodeIdProg x.nodeId).1, (encodable_stringProg x.namespaceUri).1, trivial⟩
  have hwire : uaWire (.simple x : Val (.simple typeId .expandedNodeId)) =
      wire (nodeIdProg x.nodeId) ++ (wire (stringProg x.namespaceUri) ++ toBytes 4 x.serverIndex.toNat) := by
    rfl
  rw [restored_iff hencodable, hwire]
  constructor
  · rintro ⟨room, hread⟩
    obtain ⟨fuel, hfuel⟩ := hread.exists
    obtain ⟨⟨n, uri, server⟩, hboth, heq⟩ := (recovers_of_reads hfuel).of_map
    have hn : n = x.nodeId := congrArg ExpandedNodeId.nodeId (Val.simple.inj heq)
    rw [hn] at hboth
    exact stableId_of_recovers hid hboth.fst
  · intro hstable
    refine ⟨0, Eventually.of_forall (fun fuel => ?_)⟩
    have hboth : Reads 0 (both nodeIdDecodeBinary (both stringDecodeBinary uint32DecodeBinary)) _
        (x.nodeId, x.namespaceUri, x.serverIndex) :=
      reads_both (reads_nodeId (representable_of_stable hid hstable))
        (reads_both (reads_string huri) (reads_uint32 x.serverIndex))
    exact reads_map _ hboth

theorem localizedText_restored {typeId : NodeId} {x : LocalizedText} (hlocale : Short x.locale) (htext : Short x.text) :
    Restored (.simple x : Val (.simple typeId .localizedText)) := by
  have hencodable : Encodable (uaProg (.simple x : Val (.simple typeId .localizedText))) :=
    ⟨(encodable_stringProg x.locale).1, (encodable_stringProg x.text).1⟩
  rw [restored_iff hencodable]
  refine ⟨0, Eventually.of_forall (fun fuel => ?_)⟩
  have hboth : Reads 0 (both stringDecodeBinary stringDecodeBinary) _ (x.locale, x.text) :=
    reads_both (reads_string hlocale) (reads_string htext)
  exact reads_map _ hboth

/-- A value that has been decoded comes back from its encoding in exactly the
cases that `UaStable` names. -/
theorem uaBinary_restored_iff {fuel : Nat} {st st' : Dec} {v : Val t}
    (h : uaDecodeBinary fuel t st = some (.ok v, st')) : Restored v ↔ UaStable v := by
  cases hrerouted : rerouted t with
  | false =>
      rw [decode_of_direct hrerouted] at h
      exact direct_restored_iff hrerouted (decode_ok fuel t st st' v h).1
  | true =>
      cases t with
      | simple typeId b =>
          cases b with
          | string | byteString | xmlElement =>
              refine iff_of_true (text_restored (fun x => .simple x) (fun _ => rfl) (fun _ => rfl) h) ?_
              obtain ⟨x, _, rfl⟩ := map_ok h
              change Stable (.simple x)
              rw [Stable]
              trivial
          | expandedNodeId =>
              obtain ⟨⟨n, uri, server⟩, hboth, rfl⟩ := map_ok h
              obtain ⟨st1, hn, hrest⟩ := both_ok hboth
              obtain ⟨st2, huri, _⟩ := both_ok hrest
              exact expanded_restored_iff (nodeId_ok hn) (stringDecodeBinary_length huri)
          | localizedText =>
              obtain ⟨⟨locale, text⟩, hboth, rfl⟩ := map_ok h
              obtain ⟨st1, hlocale, htext⟩ := both_ok hboth
              refine iff_of_true (localizedText_restored (stringDecodeBinary_length hlocale)
                (stringDecodeBinary_length htext)) ?_
              change Stable (.simple (b := .localizedText) _)
              rw [Stable]
              trivial
          | _ => cases hrerouted
      | _ => cases hrerouted

/-- An id in the format for all numeric ids, which the encoder takes for large ones only. -/
def longForm (low high : UInt8) : List UInt8 := [2, 0, 0, low, high, 0, 0]

theorem uaBinary_restored_longForm :
    ∃ v st', uaDecodeBinary 1 TypeTable.nodeId ⟨longForm 5 0, 0, [], []⟩ = some (.ok v, st') ∧ Restored v := by
  have hdecode : ∃ st', uaDecodeBinary 1 TypeTable.nodeId ⟨longForm 5 0, 0, [], []⟩ =
      some (.ok (.simple (b := .nodeId) (numericId 0 5)), st') := ⟨_, rfl⟩
  obtain ⟨st', hdecode⟩ := hdecode
  refine ⟨_, st', hdecode, (uaBinary_restored_iff hdecode).mpr ?_⟩
  change Stable (.simple (b := .nodeId) (numericId 0 5))
  rw [Stable]
  exact ⟨by decide, by decide⟩

/-- The identifier 256 is encoded in one byte. -/
theorem uaBinary_loses_identifier :
    ∃ v st', uaDecodeBinary 1 TypeTable.nodeId ⟨longForm 0 1, 0, [], []⟩ = some (.ok v, st') ∧ ¬ Restored v := by
  have hdecode : ∃ st', uaDecodeBinary 1 TypeTable.nodeId ⟨longForm 0 1, 0, [], []⟩ =
      some (.ok (.simple (b := .nodeId) (numericId 0 256)), st') := ⟨_, rfl⟩
  obtain ⟨st', hdecode⟩ := hdecode
  refine ⟨_, st', hdecode, fun hrestored => ?_⟩
  have hdecoded : Decoded (.simple (numericId 0 256) : Val TypeTable.nodeId) := by
    rw [Decoded]
    trivial
  have hstable := (direct_restored_iff rfl hdecoded).mp hrestored
  change Stable (.simple (b := .nodeId) (numericId 0 256)) at hstable
  rw [Stable] at hstable
  exact hstable.1 ⟨rfl, rfl⟩

end OpcUa.Reencoding
