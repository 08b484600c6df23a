import OpcUa.NodeAdditions

namespace OpcUa.MethodNodes

open StatusCodes NodeIds DataTypes Values AddressSpaces References SubTypes Browsing NodeManagement NodeCreation
  MirroredReferences AddedNodes NodeAdditions
open NodeStores (NodeClass)
open Sessions (ascii)

def HoldsArguments (s : AddressSpace) (methodId propertyId : NodeId) (name : String)
    (arguments : Arr TypeTable.argument) :
    Prop :=
  s.get propertyId = some
    { argumentsNode methodId.namespaceIndex name arguments with
      nodeId := propertyId
      references := [parentReference (numericId 0 hasProperty) methodId] }

/-- The method is added under the given parent and no other node, with the given
type of references, and has the two properties with the arguments. -/
structure MethodAdded (host : Host) (st : State) (parentNodeId referenceTypeId : NodeId) (node : Node)
    (inputArguments outputArguments : Arr TypeTable.argument) (added : AddNodesResult × State) : Prop where
  statusCode : added.1.statusCode = good
  addedNodeId : added.1.addedNodeId = insertedId host st node.nodeId
  method : (added.2.space.get added.1.addedNodeId).map bare = some (bare { node with nodeId := added.1.addedNodeId })
  parent : ∃ r, links false added.1.addedNodeId referenceTypeId r = true ∧
    refsAt added.2.space parentNodeId = refsAt st.space parentNodeId ++ [r]
  others : ∀ a, Stored st.space a → nodeIdEqual parentNodeId a = false → refsAt added.2.space a = refsAt st.space a
  properties : ∃ r inputId outputId, links true parentNodeId referenceTypeId r = true ∧
    refsAt added.2.space added.1.addedNodeId =
      [r, childReference (numericId 0 hasProperty) inputId, childReference (numericId 0 hasProperty) outputId] ∧
    HoldsArguments added.2.space added.1.addedNodeId inputId "InputArguments" inputArguments ∧
    HoldsArguments added.2.space added.1.addedNodeId outputId "OutputArguments" outputArguments

variable {host : Host} {st : State} {n : Node} {id a requestedNewNodeId parentNodeId referenceTypeId : NodeId}
  {name : String} {arguments inputArguments outputArguments : Arr TypeTable.argument} {browseName : QualifiedName}
  {attr : MethodAttributes} {method handle : Nat}

section Arguments

end Arguments

section Methods

theorem MethodAdded.congr {parentNodeId' referenceTypeId' : NodeId} {added : AddNodesResult × State}
    (hparent : nodeIdEqual parentNodeId' parentNodeId = true)
    (htype : nodeIdEqual referenceTypeId' referenceTypeId = true)
    (h : MethodAdded host st parentNodeId' referenceTypeId' n inputArguments outputArguments added) :
    MethodAdded host st parentNodeId referenceTypeId n inputArguments outputArguments added := by
  have hlinks : ∀ {inverse id id' r}, nodeIdEqual id' id = true → links inverse id' referenceTypeId' r = true →
      links inverse id referenceTypeId r = true := by
    intro inverse id id' r hid hr
    rw [links, nodeIdEqual_congr_right hid, nodeIdEqual_congr_right htype] at hr
    exact hr
  obtain ⟨r, hr, hreferences⟩ := h.parent
  obtain ⟨r', inputId, outputId, hr', hproperties⟩ := h.properties
  refine ⟨h.statusCode, h.addedNodeId, h.method, ⟨r, hlinks (nodeIdEqual_refl _) hr, ?_⟩, ?_,
    ⟨r', inputId, outputId, hlinks hparent hr', hproperties⟩⟩
  · rw [← refsAt_congr hparent, hreferences, refsAt_congr hparent]
  · intro a ha hne
    refine h.others a ha ?_
    rw [← hne]
    rw [nodeIdEqual_comm, nodeIdEqual_congr_right hparent, nodeIdEqual_comm]

end Methods

section Samples

def sampleMethod : MethodAttributes := ⟨⟨⟨none, none⟩, ⟨none, none⟩, 0, 0⟩, 1, 1⟩

end Samples

end OpcUa.MethodNodes
