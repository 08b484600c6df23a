import OpcUa.AttributeReads
import OpcUa.ValueEncoding

namespace OpcUa.MonitoredItems

open StatusCodes NodeIds DataTypes Values Writers ValueEncoding AddressSpaces AttributeReads

/-- `UA_Int32_BoundedValue` and `UA_UInt32_BoundedValue` -/
structure BoundedValue (α : Type) where
  currentValue : α
  minValue : α
  maxValue : α
deriving DecidableEq, Repr

inductive MonitoredItemType
  | changeNotify | statusNotify | eventNotify
deriving DecidableEq, Repr

/-- `UA_MonitoredItem`. The queue starts with the newest value.
`lastSampledValue` is `none` while its pointer is NULL. -/
structure MonitoredItem where
  itemId : UInt32
  monitoredItemType : MonitoredItemType
  monitoredNodeId : NodeId
  attributeID : UInt32
  clientHandle : UInt32
  samplingInterval : UInt32
  queueSize : BoundedValue UInt32
  discardOldest : Bool
  lastSampled : Int
  lastSampledValue : Option (List UInt8)
  queue : List DataValue

/-- What a sampling finds outside of the item: the clock before and after,
the nodes, the answers of the data sources and the bytes that the allocator
left in the buffer for the encoding. -/
structure Sampling where
  now : Int
  sampledAt : Int
  space : AddressSpace
  outside : Outside
  calls : List ValueCall
  buffer : Fin 512 → UInt8

def sampled (value : Val .variant) : Bool × DataValue :=
  (false, { DataValue.init with hasValue := true, value := value })

def samplingError : Bool × DataValue := (true, DataValue.init)

def copyVariableValue (s : Sampling) (nodeId : NodeId) : ValueSource → Bool × DataValue
  | .variant value _ _ => sampled value
  | .dataSource source =>
      let answer := s.outside.read s.calls source nodeId true none .init
      if answer.1 ≠ good then samplingError else (false, answer.2)

/-- `MonitoredItem_CopyMonitoredValueToVariant`: if there was an error, and
the value. -/
def copyMonitoredValueToVariant (s : Sampling) (attributeID : UInt32) (src : Node) : Bool × DataValue :=
  match attributeOf attributeID with
  | some .nodeId => sampled (nodeIdVariant src.nodeId)
  | some .nodeClass => sampled (int32Variant (nodeClassValue src.nodeClass))
  | some .browseName => sampled (qualifiedNameVariant src.browseName)
  | some .displayName => sampled (localizedTextVariant src.displayName)
  | some .description => sampled (localizedTextVariant src.displayName)
  | some .writeMask => sampled (uint32Variant src.writeMask)
  | some .userWriteMask => sampled (uint32Variant src.writeMask)
  | some .value =>
      match src.body with
      | .variable members => copyVariableValue s src.nodeId members.value
      | _ => samplingError
  | _ => samplingError

def mask (v : DataValue) : UInt8 :=
  (if v.hasValue then 0x01 else 0) ||| (if v.hasStatus then 0x02 else 0) |||
    (if v.hasSourceTimestamp then 0x04 else 0) ||| (if v.hasServerTimestamp then 0x08 else 0) |||
    (if v.hasSourcePicoseconds then 0x10 else 0) ||| (if v.hasServerPicoseconds then 0x20 else 0)

def toVal (v : DataValue) : Val .dataValue :=
  .dataValue ⟨mask v, v.status, v.sourceTimestamp, v.sourcePicoseconds, v.serverTimestamp, v.serverPicoseconds⟩ v.value

/-- The whole buffer is kept, also the part behind the encoding. If the value
cannot be encoded, the buffer is deleted. -/
def encodeSample (buffer : Fin 512 → UInt8) (v : DataValue) : Option (List UInt8) :=
  let (retval, dst) := uaEncodeBinary (toVal v) ⟨List.ofFn buffer, 0, []⟩
  if retval ≠ good then none else some dst.data

def dropOldest (item : MonitoredItem) : MonitoredItem :=
  if item.queueSize.currentValue ≥ item.queueSize.maxValue then
    { item with
      queue := item.queue.dropLast
      queueSize := { item.queueSize with currentValue := item.queueSize.currentValue - 1 } }
  else item

def insertValue (item : MonitoredItem) (sampledAt : Int) (encoding : Option (List UInt8)) (v : DataValue) :
    MonitoredItem :=
  { item with
    lastSampled := sampledAt
    lastSampledValue := encoding
    queue := v :: item.queue
    queueSize := { item.queueSize with currentValue := item.queueSize.currentValue + 1 } }

/-- Only a value whose encoding differs from the last one is queued. The room
for it is made before that is known. -/
def queueSample (s : Sampling) (v : DataValue) (item : MonitoredItem) : MonitoredItem :=
  let encoding := encodeSample s.buffer v
  if item.lastSampledValue ≠ none ∧ encoding = item.lastSampledValue then item
  else insertValue item s.sampledAt encoding v

def queuePushDataValue (s : Sampling) (item : MonitoredItem) : MonitoredItem :=
  if item.lastSampled + item.samplingInterval.toNat > s.now then item
  else if item.monitoredItemType ≠ .changeNotify then item
  else match s.space.get item.monitoredNodeId with
    | none => item
    | some target =>
        let (error, v) := copyMonitoredValueToVariant s item.attributeID target
        if error ∨ typeOf v.value = none then item
        else if item.queueSize.currentValue ≥ item.queueSize.maxValue ∧ !item.discardOldest then item
        else queueSample s v (dropOldest item)

structure MonitoredItemNotification where
  clientHandle : UInt32
  value : DataValue

/-- The value of a notification gets a server timestamp. -/
def stamp (now : UInt64) (v : DataValue) : DataValue :=
  { v with hasServerPicoseconds := false, hasServerTimestamp := true, serverTimestamp := now }

/-- `MonitoredItem_QueueToDataChangeNotifications`: a value without a type is
overwritten by the next one. -/
def queueToDataChangeNotifications (now : Nat → UInt64) (item : MonitoredItem) : List MonitoredItemNotification :=
  (item.queue.mapIdx (fun k v => ⟨item.clientHandle, stamp (now k) v⟩)).filter (fun n => (typeOf n.value.value).isSome)

def clearQueue (item : MonitoredItem) : MonitoredItem :=
  { item with queue := [], queueSize := { item.queueSize with currentValue := 0 } }

/-- `UA_BOUNDEDVALUE_SETWBOUNDS` -/
def bounded (low high x : UInt32) : UInt32 := if x > high then high else if x < low then low else x

theorem queuePush_cases (s : Sampling) (item : MonitoredItem) : queuePushDataValue s item = item ∨
    ∃ v, typeOf v.value ≠ none ∧
      (item.queueSize.currentValue ≥ item.queueSize.maxValue → item.discardOldest = true) ∧
      (queuePushDataValue s item = dropOldest item ∨
        queuePushDataValue s item = insertValue (dropOldest item) s.sampledAt (encodeSample s.buffer v) v) := by
  rw [queuePushDataValue]
  split
  · exact .inl rfl
  · split
    · exact .inl rfl
    · split
      · exact .inl rfl
      · next target _ =>
        dsimp only
        split
        · exact .inl rfl
        · next htyped =>
          split
          · exact .inl rfl
          · next hroom =>
            have hdiscard : item.queueSize.currentValue ≥ item.queueSize.maxValue → item.discardOldest = true := by
              intro hfull
              cases hd : item.discardOldest with
              | true => rfl
              | false => exact absurd ⟨hfull, by rw [hd]; rfl⟩ hroom
            refine .inr ⟨_, fun hnone => htyped (.inr hnone), hdiscard, ?_⟩
            rw [queueSample]
            split
            · exact .inl rfl
            · exact .inr rfl

end OpcUa.MonitoredItems
