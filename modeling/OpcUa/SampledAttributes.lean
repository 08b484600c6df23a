import OpcUa.MonitoredItems
import OpcUa.WrittenAttributes

namespace OpcUa.SampledAttributes

open StatusCodes DataTypes NodeIds Values AddressSpaces AttributeReads MonitoredItems WrittenAttributes

variable {s : AddressSpace} {id : NodeId} {n : Node} {a : AttributeId} {value value' : Val .variant}

/-- A read of the whole attribute returns the value, whatever the timestamps
are. -/
def ReadReturns (s : AddressSpace) (id : NodeId) (attributeID : UInt32) (value : Val .variant) : Prop :=
  ∀ outside calls timestamps, ∃ v calls',
    readSingle outside calls timestamps s ⟨id, attributeID, none, ⟨0, none⟩⟩ = some (v, calls') ∧
      v.hasValue = true ∧ v.hasStatus = false ∧ v.value = value

/-- A variable keeps its value in the node and has no callback for reads. -/
def StoresValue (n : Node) : Prop :=
  ∀ members, n.body = .variable members → ∃ value onWrite, members.value = .variant value none onWrite

/-- The attributes for which the sampling looks at the wrong member. -/
def Mistaken (n : Node) (attributeID : UInt32) : Prop :=
  attributeID = AttributeId.description.number ∧ n.displayName ≠ n.description ∨
    attributeID = AttributeId.userWriteMask.number ∧ n.writeMask ≠ n.userWriteMask

theorem number_inj {b : AttributeId} : a.number = b.number ↔ a = b := by
  constructor
  · intro h
    have hsame : some a = some b := by rw [← attributeOf_number a, h, attributeOf_number b]
    exact Option.some.inj hsame
  · exact congrArg AttributeId.number

theorem mistaken_iff : Mistaken n a.number ↔
    a = .description ∧ n.displayName ≠ n.description ∨ a = .userWriteMask ∧ n.writeMask ≠ n.userWriteMask := by
  rw [Mistaken, number_inj, number_inj]

theorem readReturns_iff (hn : s.get id = some n) (h : attributeValue n a = some value') :
    ReadReturns s id a.number value ↔ value = value' := by
  have hreads : Reads s id a value' := reads_of_get hn h
  constructor
  · exact fun hread => reads_unique (a := a) hread hreads
  · rintro rfl
    exact hreads

theorem localizedTextVariant_inj {x y : LocalizedText} :
    localizedTextVariant x = localizedTextVariant y ↔ x = y := by
  constructor
  · intro h
    cases h
    rfl
  · exact congrArg localizedTextVariant

theorem uint32Variant_inj {x y : UInt32} : uint32Variant x = uint32Variant y ↔ x = y := by
  constructor
  · intro h
    cases h
    rfl
  · exact congrArg uint32Variant

/-- Only the value of a variable is sampled, and what the node stores is what
is read. -/
theorem storedValue_of_sampled {sampling : Sampling} {v : DataValue} (hstores : StoresValue n)
    (hsampled : copyMonitoredValueToVariant sampling AttributeId.value.number n = (false, v)) :
    attributeValue n .value = some v.value := by
  rw [copyMonitoredValueToVariant, attributeOf_number] at hsampled
  dsimp only at hsampled
  split at hsampled
  · next members hbody =>
    obtain ⟨value, onWrite, hvalue⟩ := hstores members hbody
    rw [hvalue] at hsampled
    cases hsampled
    have hsource : sourceOf n = some (.variant value none onWrite) := by rw [sourceOf, hbody, ← hvalue]; rfl
    exact storedValue_of_source hsource
  · cases hsampled

/-- A sampled value is what a read returns, but for the description and the
user write mask. For these the sampling takes the display name and the write
mask. -/
theorem sampled_reads_iff (sampling : Sampling) {attributeID : UInt32} {v : DataValue} (hn : s.get id = some n)
    (hstores : StoresValue n) (hsampled : copyMonitoredValueToVariant sampling attributeID n = (false, v)) :
    ReadReturns s id attributeID v.value ↔ ¬ Mistaken n attributeID := by
  cases ha : attributeOf attributeID with
  | none =>
      rw [copyMonitoredValueToVariant, ha] at hsampled
      cases hsampled
  | some a =>
      obtain rfl := number_of_attributeOf ha
      rw [mistaken_iff]
      cases a with
      | value =>
          rw [readReturns_iff hn (storedValue_of_sampled hstores hsampled)]
          simp
      | description =>
          rw [copyMonitoredValueToVariant, ha] at hsampled
          cases hsampled
          rw [readReturns_iff hn rfl, localizedTextVariant_inj]
          simp
      | userWriteMask =>
          rw [copyMonitoredValueToVariant, ha] at hsampled
          cases hsampled
          rw [readReturns_iff hn rfl, uint32Variant_inj]
          simp
      | nodeId | nodeClass | browseName | displayName | writeMask =>
          rw [copyMonitoredValueToVariant, ha] at hsampled
          cases hsampled
          rw [readReturns_iff hn rfl]
          simp
      | _ =>
          rw [copyMonitoredValueToVariant, ha] at hsampled
          cases hsampled

/-- A number with a display name and without a description. -/
def labelledNode : Node := { sampleNode sampleNumber with displayName := ⟨none, some [0x4e]⟩ }

def labelledSpace : AddressSpace := ⟨[labelledNode], by simp⟩

def labelledSampling : Sampling := ⟨0, 0, labelledSpace, sampleOutside, [], fun _ => 0⟩

theorem storesValue_labelledNode : StoresValue labelledNode := by
  intro members hbody
  cases hbody
  exact ⟨_, _, rfl⟩

theorem sampled_reads_number :
    copyMonitoredValueToVariant labelledSampling AttributeId.value.number labelledNode = sampled (int32Variant 5) ∧
      ReadReturns labelledSpace (numericId 1 1) AttributeId.value.number (int32Variant 5) := by
  refine ⟨rfl, (sampled_reads_iff labelledSampling (n := labelledNode) (v := (sampled (int32Variant 5)).2) rfl
    storesValue_labelledNode rfl).mpr ?_⟩
  rintro (⟨h, _⟩ | ⟨h, _⟩)
  · exact absurd h (by decide)
  · exact absurd h (by decide)

/-- The description is sampled as the display name. -/
theorem description_sampled_displayName :
    labelledSpace.get (numericId 1 1) = some labelledNode ∧ StoresValue labelledNode ∧
      copyMonitoredValueToVariant labelledSampling AttributeId.description.number labelledNode =
        sampled (localizedTextVariant labelledNode.displayName) ∧
      ¬ ReadReturns labelledSpace (numericId 1 1) AttributeId.description.number
        (localizedTextVariant labelledNode.displayName) := by
  refine ⟨rfl, storesValue_labelledNode, rfl, fun hread => ?_⟩
  have hsame := (readReturns_iff (n := labelledNode) rfl rfl).mp hread
  exact absurd (localizedTextVariant_inj.mp hsame) (by decide)

end OpcUa.SampledAttributes
