import OpcUa.Batches
import OpcUa.Paging
import OpcUa.SubTypes
import OpcUa.ValueDecoding

namespace OpcUa.Browsing

open StatusCodes NodeIds DataTypes ServiceTable AddressSpaces SubTypes Paging Batches
open NodeStores (NodeClass)
open ValueDecoding (maxArraySize)

def browseForward : UInt32 := 0
def browseInverse : UInt32 := 1
def browseBoth : UInt32 := 2

structure BrowseDescription where
  nodeId : NodeId
  browseDirection : UInt32
  referenceTypeId : NodeId
  includeSubtypes : Bool
  nodeClassMask : UInt32
  resultMask : UInt32
deriving DecidableEq

structure ReferenceDescription where
  referenceTypeId : NodeId
  isForward : Bool
  nodeId : ExpandedNodeId
  browseName : QualifiedName
  displayName : LocalizedText
  nodeClass : UInt32
  typeDefinition : ExpandedNodeId
deriving DecidableEq

def nullExpandedNodeId : ExpandedNodeId := ⟨nullId, none, 0⟩

def hasTypeDefinition : UInt32 := 40

/-- The target of the first reference, in any direction, with the number of
HasTypeDefinition. -/
def typeDefinition (curr : Node) : ExpandedNodeId :=
  if curr.nodeClass = .object ∨ curr.nodeClass = .variable then
    match curr.references.find? (fun r => numericBits r.referenceTypeId == hasTypeDefinition) with
    | some r => r.targetId
    | none => nullExpandedNodeId
  else nullExpandedNodeId

def wants (mask bit : UInt32) : Bool := mask &&& bit != 0

def fillReferenceDescription (curr : Node) (r : ReferenceNode) (mask : UInt32) : ReferenceDescription where
  nodeId := ⟨curr.nodeId, none, 0⟩
  referenceTypeId := if wants mask 1 then r.referenceTypeId else nullId
  isForward := if wants mask 2 then !r.isInverse else false
  nodeClass := if wants mask 4 then nodeClassValue curr.nodeClass else 0
  browseName := if wants mask 8 then curr.browseName else ⟨0, none⟩
  displayName := if wants mask 16 then curr.displayName else ⟨none, none⟩
  typeDefinition := if wants mask 32 then typeDefinition curr else nullExpandedNodeId

/-- The types that are looked for: `none` stands for all of them. -/
abbrev RelevantTypes := Option (List NodeId)

def isRelevant (relevant : RelevantTypes) (r : ReferenceNode) : Bool :=
  match relevant with
  | none => true
  | some types => types.any (nodeIdEqual r.referenceTypeId)

def returnRelevantNode (s : AddressSpace) (descr : BrowseDescription) (relevant : RelevantTypes)
    (r : ReferenceNode) : Option Node :=
  if r.isInverse && descr.browseDirection == browseForward then none
  else if !r.isInverse && descr.browseDirection == browseInverse then none
  else if !isRelevant relevant r then none
  else
    match s.get r.targetId.nodeId with
    | none => none
    | some n =>
        if descr.nodeClassMask != 0 && nodeClassValue n.nodeClass &&& descr.nodeClassMask == 0 then none
        else some n

/-- The types of a browse description. `none` if `findSubTypes` does not end
within the fuel. -/
def relevantTypes (fuel : Nat) (s : AddressSpace) (descr : BrowseDescription) :
    Option (Except StatusCode RelevantTypes) :=
  if isNull descr.referenceTypeId then some (.ok none)
  else if descr.includeSubtypes then (findSubTypes fuel s descr.referenceTypeId).map (·.map some)
  else
    match s.get descr.referenceTypeId with
    | none => some (.error badReferenceTypeIdInvalid)
    | some n =>
        if n.nodeClass ≠ .referenceType then some (.error badReferenceTypeIdInvalid)
        else some (.ok (some [descr.referenceTypeId]))

/-- How many references can be returned at most. The size of the array, a
`size_t`, is cut down to the 32 bits of the limit. -/
def realMaxrefs (maxrefs : UInt32) (referencesSize : Nat) : UInt32 :=
  let limit := if maxrefs == 0 then UInt32.ofNat referencesSize else maxrefs
  if limit.toNat > referencesSize then UInt32.ofNat referencesSize else limit

/-- `UA_Array_new` answers NULL for the references of the result. -/
def exceedsArray (maxrefs : UInt32) : Bool := TypeTable.referenceDescription.memSize * maxrefs.toNat > maxArraySize

/-- As many references as fit into an array. -/
def mostReferences : Nat := 546133

/-- The part of `Service_Browse_single` before the continuation points. The
function returns early or knows where its loop has stopped. -/
inductive Collected
  | returned (statusCode : StatusCode)
  | collected (references : List ReferenceDescription) (referencesIndex referencesSize : Nat)

def describe (s : AddressSpace) (descr : BrowseDescription) (relevant : RelevantTypes) (r : ReferenceNode) :
    Option ReferenceDescription :=
  (returnRelevantNode s descr relevant r).map (fillReferenceDescription · r descr.resultMask)

def browseLoop (s : AddressSpace) (descr : BrowseDescription) (relevant : RelevantTypes) (n : Node)
    (maxrefs continuationIndex : UInt32) : Nat × List ReferenceDescription :=
  collect (describe s descr relevant) continuationIndex.toNat (realMaxrefs maxrefs n.references.length).toNat
    n.references 0 0 []

def collectReferences (fuel : Nat) (s : AddressSpace) (descr : BrowseDescription)
    (maxrefs continuationIndex : UInt32) : Option Collected :=
  if descr.browseDirection != browseBoth && descr.browseDirection != browseForward &&
      descr.browseDirection != browseInverse then some (.returned badBrowseDirectionInvalid)
  else
    match relevantTypes fuel s descr with
    | none => none
    | some (.error status) => some (.returned status)
    | some (.ok relevant) =>
        match s.get descr.nodeId with
        | none => some (.returned badNodeIdUnknown)
        | some n =>
            if n.references.length = 0 then some (.returned good)
            else if exceedsArray (realMaxrefs maxrefs n.references.length) then some (.returned badOutOfMemory)
            else
              let r := browseLoop s descr relevant n maxrefs continuationIndex
              some (.collected r.2 r.1 n.references.length)

structure ContinuationPointEntry where
  identifier : List UInt8
  browseDescription : BrowseDescription
  continuationIndex : UInt32
  maxReferences : UInt32
deriving DecidableEq

/-- The members of a session that browsing uses. -/
structure Continuations where
  continuationPoints : List ContinuationPointEntry
  availableContinuationPoints : UInt16
deriving DecidableEq

structure BrowseResult where
  statusCode : StatusCode
  continuationPoint : UaString
  references : List ReferenceDescription
deriving DecidableEq

/-- An entry is known by its place in the list of the session. -/
def removeCp (i : Nat) (session : Continuations) : Continuations where
  continuationPoints := session.continuationPoints.eraseIdx i
  availableContinuationPoints := session.availableContinuationPoints + 1

/-- The continuation point of a browse without one. The bytes of the random
identifier are given. -/
def createCp (identifier : List UInt8) (session : Continuations) (descr : BrowseDescription) (maxrefs : UInt32)
    (references : List ReferenceDescription) : BrowseResult × Continuations :=
  if maxrefs != 0 && references.length ≥ maxrefs.toNat then
    if session.availableContinuationPoints == 0 then (⟨badNoContinuationPoints, none, references⟩, session)
    else
      (⟨good, some identifier, references⟩,
        { continuationPoints :=
            ⟨identifier, descr, UInt32.ofNat references.length, maxrefs⟩ :: session.continuationPoints
          availableContinuationPoints := session.availableContinuationPoints - 1 })
  else (⟨good, none, references⟩, session)

def continueCp (i : Nat) (cp : ContinuationPointEntry) (session : Continuations)
    (references : List ReferenceDescription) (referencesIndex referencesSize : Nat) :
    BrowseResult × Continuations :=
  if referencesIndex = referencesSize then (⟨good, none, references⟩, removeCp i session)
  else
    (⟨good, some cp.identifier, references⟩,
      { session with
        continuationPoints := session.continuationPoints.set i
          { cp with continuationIndex := cp.continuationIndex + UInt32.ofNat references.length } })

/-- `Service_Browse_single` without a continuation point. -/
def browseSingle (fuel : Nat) (s : AddressSpace) (identifier : List UInt8) (session : Continuations)
    (descr : BrowseDescription) (maxrefs : UInt32) : Option (BrowseResult × Continuations) :=
  (collectReferences fuel s descr maxrefs 0).map fun
    | .returned status => (⟨status, none, []⟩, session)
    | .collected references _ _ => createCp identifier session descr maxrefs references

/-- `Service_Browse_single` at a continuation point. -/
def browseContinue (fuel : Nat) (s : AddressSpace) (session : Continuations) (i : Nat)
    (cp : ContinuationPointEntry) : Option (BrowseResult × Continuations) :=
  (collectReferences fuel s cp.browseDescription cp.maxReferences cp.continuationIndex).map fun
    | .returned status => (⟨status, none, []⟩, session)
    | .collected references index size => continueCp i cp session references index size

def findCp (session : Continuations) (continuationPoint : UaString) : Option (ContinuationPointEntry × Nat) :=
  session.continuationPoints.zipIdx.find? (fun p => stringEqual (some p.1.identifier) continuationPoint)

/-- One pass of the loop of `Service_BrowseNext`. -/
def browseNextSingle (fuel : Nat) (s : AddressSpace) (release : Bool) (session : Continuations)
    (continuationPoint : UaString) : Option (BrowseResult × Continuations) :=
  match findCp session continuationPoint with
  | none => some (⟨badContinuationPointInvalid, none, []⟩, session)
  | some (cp, i) =>
      if release then some (⟨good, none, []⟩, removeCp i session)
      else browseContinue fuel s session i cp

/-- The service result and the results of a response. -/
structure Response (β : Type) where
  serviceResult : StatusCode
  results : List β
deriving DecidableEq

/-- `Service_Browse`. Each item has a random identifier at hand. -/
def browse (fuel : Nat) (s : AddressSpace) (session : Continuations) (viewId : NodeId)
    (nodesToBrowse : List (BrowseDescription × List UInt8)) (maxReferencesPerNode : UInt32) :
    Option (Response BrowseResult × Continuations) :=
  if !isNull viewId then some (⟨badViewIdUnknown, []⟩, session)
  else if nodesToBrowse.length = 0 then some (⟨badNothingToDo, []⟩, session)
  else
    (batch (fun session item => browseSingle fuel s item.2 session item.1 maxReferencesPerNode) session
      nodesToBrowse).map (fun r => (⟨good, r.1⟩, r.2))

def browseNext (fuel : Nat) (s : AddressSpace) (session : Continuations) (releaseContinuationPoints : Bool)
    (continuationPoints : List UaString) : Option (Response BrowseResult × Continuations) :=
  if continuationPoints.length = 0 then some (⟨badNothingToDo, []⟩, session)
  else
    (batch (browseNextSingle fuel s releaseContinuationPoints) session continuationPoints).map
      (fun r => (⟨good, r.1⟩, r.2))

theorem exceedsArray_iff {maxrefs : UInt32} : exceedsArray maxrefs = true ↔ mostReferences < maxrefs.toNat := by
  have hsize : TypeTable.referenceDescription.memSize = 192 := rfl
  rw [exceedsArray, decide_eq_true_iff, hsize, maxArraySize, mostReferences]
  omega

theorem realMaxrefs_le (maxrefs : UInt32) (size : Nat) : (realMaxrefs maxrefs size).toNat ≤ size := by
  rw [realMaxrefs]
  generalize (if maxrefs == 0 then UInt32.ofNat size else maxrefs) = limit
  by_cases h : limit.toNat > size
  · rw [if_pos h]
    rw [UInt32.toNat_ofNat']
    exact Nat.mod_le _ _
  · rw [if_neg h]
    exact Nat.not_lt.mp h

theorem realMaxrefs_of_ne {maxrefs : UInt32} (hmax : maxrefs ≠ 0) (size : Nat) :
    (realMaxrefs maxrefs size).toNat = min maxrefs.toNat size := by
  have hlimit : (if maxrefs == 0 then UInt32.ofNat size else maxrefs) = maxrefs :=
    if_neg (by simpa using hmax)
  rw [realMaxrefs, hlimit]
  split
  · rename_i hless
    have hsize : size < 2 ^ 32 := hless.trans maxrefs.toNat_lt
    rw [UInt32.toNat_ofNat_of_lt' hsize, Nat.min_eq_right hless.le]
  · rename_i hless
    rw [Nat.min_eq_left (Nat.not_lt.mp hless)]

theorem exceedsArray_of_few {size : Nat} (h : size ≤ mostReferences) (maxrefs : UInt32) :
    exceedsArray (realMaxrefs maxrefs size) = false := by
  refine Bool.eq_false_iff.mpr (fun hlarge => ?_)
  exact Nat.not_lt.mpr ((realMaxrefs_le maxrefs size).trans h) (exceedsArray_iff.mp hlarge)

theorem exceedsArray_of_limit {maxrefs : UInt32} (hmax : maxrefs ≠ 0) (h : maxrefs.toNat ≤ mostReferences)
    (size : Nat) : exceedsArray (realMaxrefs maxrefs size) = false := by
  refine Bool.eq_false_iff.mpr (fun hlarge => ?_)
  rw [exceedsArray_iff, realMaxrefs_of_ne hmax] at hlarge
  omega

/-- The limit and the position only matter once the array is allocated. -/
theorem collectReferences_cases (fuel : Nat) (s : AddressSpace) (descr : BrowseDescription) :
    (∀ maxrefs k, collectReferences fuel s descr maxrefs k = none) ∨
      (∃ status, ∀ maxrefs k, collectReferences fuel s descr maxrefs k = some (.returned status)) ∨
      ∃ n relevant, s.get descr.nodeId = some n ∧ ∀ maxrefs k, collectReferences fuel s descr maxrefs k =
        if exceedsArray (realMaxrefs maxrefs n.references.length) then some (.returned badOutOfMemory)
        else some (.collected (browseLoop s descr relevant n maxrefs k).2 (browseLoop s descr relevant n maxrefs k).1
          n.references.length) := by
  by_cases hdirection : (descr.browseDirection != browseBoth && descr.browseDirection != browseForward &&
      descr.browseDirection != browseInverse) = true
  · refine .inr (.inl ⟨badBrowseDirectionInvalid, ?_⟩)
    intro maxrefs k
    rw [collectReferences, if_pos hdirection]
  simp only [collectReferences, if_neg hdirection]
  cases htypes : relevantTypes fuel s descr with
  | none => exact .inl (fun _ _ => rfl)
  | some outcome =>
      cases outcome with
      | error status => exact .inr (.inl ⟨status, fun _ _ => rfl⟩)
      | ok relevant =>
          cases hn : s.get descr.nodeId with
          | none => exact .inr (.inl ⟨badNodeIdUnknown, fun _ _ => rfl⟩)
          | some n =>
              by_cases hempty : n.references.length = 0
              · refine .inr (.inl ⟨good, ?_⟩)
                intro maxrefs k
                simp only [if_pos hempty]
              · refine .inr (.inr ⟨n, relevant, rfl, ?_⟩)
                intro maxrefs k
                simp only [if_neg hempty]

theorem collectReferences_of_types {fuel : Nat} {s : AddressSpace} {descr : BrowseDescription}
    {outcome : Except StatusCode RelevantTypes} (h : relevantTypes fuel s descr = some outcome)
    (maxrefs k : UInt32) : ∃ collected, collectReferences fuel s descr maxrefs k = some collected := by
  rw [collectReferences, h]
  split
  · exact ⟨_, rfl⟩
  cases outcome with
  | error status => exact ⟨_, rfl⟩
  | ok relevant =>
      dsimp only
      split
      · exact ⟨_, rfl⟩
      split
      · exact ⟨_, rfl⟩
      split <;> exact ⟨_, rfl⟩

theorem relevantTypes_mono {fuel : Nat} {s : AddressSpace} {descr : BrowseDescription}
    {outcome : Except StatusCode RelevantTypes} (h : relevantTypes fuel s descr = some outcome) (more : Nat) :
    relevantTypes (fuel + more) s descr = some outcome := by
  rw [relevantTypes] at h ⊢
  split at h
  · rename_i hnull
    rw [if_pos hnull]
    exact h
  rename_i hnull
  rw [if_neg hnull]
  split at h
  · rename_i hsubtypes
    rw [if_pos hsubtypes]
    obtain ⟨found, hfound, rfl⟩ := Option.map_eq_some_iff.mp h
    rw [findSubTypes_mono hfound more]
    rfl
  · rename_i hsubtypes
    rw [if_neg hsubtypes]
    exact h

theorem collectReferences_mono {fuel : Nat} {s : AddressSpace} {descr : BrowseDescription} {maxrefs k : UInt32}
    {collected : Collected} (h : collectReferences fuel s descr maxrefs k = some collected) (more : Nat) :
    collectReferences (fuel + more) s descr maxrefs k = some collected := by
  rw [collectReferences] at h ⊢
  cases htypes : relevantTypes fuel s descr with
  | none =>
      rw [htypes] at h
      split at h
      · rename_i hdirection
        rw [if_pos hdirection]
        exact h
      · cases h
  | some outcome =>
      rw [relevantTypes_mono htypes more]
      rw [htypes] at h
      exact h

theorem browseSingle_mono {fuel : Nat} {s : AddressSpace} {identifier : List UInt8} {session : Continuations}
    {descr : BrowseDescription} {maxrefs : UInt32} {r : BrowseResult × Continuations}
    (h : browseSingle fuel s identifier session descr maxrefs = some r) (more : Nat) :
    browseSingle (fuel + more) s identifier session descr maxrefs = some r := by
  rw [browseSingle] at h ⊢
  obtain ⟨collected, hcollected, rfl⟩ := Option.map_eq_some_iff.mp h
  rw [collectReferences_mono hcollected more]
  rfl

theorem mem_browseLoop {s : AddressSpace} {descr : BrowseDescription} {relevant : RelevantTypes} {n : Node}
    {maxrefs k : UInt32} {rd : ReferenceDescription} (h : rd ∈ (browseLoop s descr relevant n maxrefs k).2) :
    ∃ r ∈ n.references, ∃ curr, returnRelevantNode s descr relevant r = some curr ∧
      fillReferenceDescription curr r descr.resultMask = rd := by
  rw [browseLoop, collect_start] at h
  obtain ⟨r, hr, hdescribe⟩ := List.mem_filterMap.mp (List.mem_of_mem_drop (List.mem_of_mem_take h))
  exact ⟨r, hr, Option.map_eq_some_iff.mp hdescribe⟩

theorem get_of_returnRelevantNode {s : AddressSpace} {descr : BrowseDescription} {relevant : RelevantTypes}
    {r : ReferenceNode} {curr : Node} (h : returnRelevantNode s descr relevant r = some curr) :
    s.get r.targetId.nodeId = some curr := by
  rw [returnRelevantNode] at h
  repeat' split at h
  all_goals cases h
  assumption

theorem get_of_collected {fuel : Nat} {s : AddressSpace} {descr : BrowseDescription} {maxrefs k : UInt32}
    {references : List ReferenceDescription} {index size : Nat}
    (h : collectReferences fuel s descr maxrefs k = some (.collected references index size))
    {rd : ReferenceDescription} (hrd : rd ∈ references) : ∃ n, s.get rd.nodeId.nodeId = some n := by
  rcases collectReferences_cases fuel s descr with hnone | ⟨status, hstatus⟩ | ⟨n, relevant, _, hcollect⟩
  · rw [hnone] at h
    cases h
  · rw [hstatus] at h
    cases h
  · rw [hcollect] at h
    split at h
    · cases h
    cases h
    obtain ⟨r, _, curr, hcurr, rfl⟩ := mem_browseLoop hrd
    obtain ⟨hmem, _⟩ := get_eq_some.mp (get_of_returnRelevantNode hcurr)
    exact ⟨curr, get_eq_some.mpr ⟨hmem, nodeIdEqual_refl _⟩⟩

theorem createCp_references {identifier : List UInt8} {session : Continuations} {descr : BrowseDescription}
    {maxrefs : UInt32} (references : List ReferenceDescription) :
    (createCp identifier session descr maxrefs references).1.references = references := by
  rw [createCp]
  split
  · split <;> rfl
  · rfl

def plainObject (id : NodeId) (references : List ReferenceNode) : Node :=
  { plainNode id (.object 0 0) with references := references }

def organizes (target : NodeId) : ReferenceNode := ⟨numericId 0 35, false, ⟨target, none, 0⟩⟩

def sampleFolder (references : List ReferenceNode) : AddressSpace where
  nodes := [plainObject (numericId 1 1) references, plainObject (numericId 1 2) [], plainObject (numericId 1 3) []]
  distinct := by simp [plainObject, plainNode]; decide

def samplePair : AddressSpace := sampleFolder [organizes (numericId 1 2), organizes (numericId 1 3)]

structure RelativePathElement where
  referenceTypeId : NodeId
  isInverse : Bool
  includeSubtypes : Bool
  targetName : QualifiedName
deriving DecidableEq

structure BrowsePathTarget where
  targetId : ExpandedNodeId
  remainingPathIndex : UInt32
deriving DecidableEq

structure BrowsePathResult where
  statusCode : StatusCode
  targets : List BrowsePathTarget
deriving DecidableEq

/-- The types of an element. Without the subtypes nothing is looked up. -/
def elementTypes (fuel : Nat) (s : AddressSpace) (elem : RelativePathElement) :
    Option (Except StatusCode RelevantTypes) :=
  if isNull elem.referenceTypeId then some (.ok none)
  else if !elem.includeSubtypes then some (.ok (some [elem.referenceTypeId]))
  else (findSubTypes fuel s elem.referenceTypeId).map (·.map some)

/-- The direction is only compared together with a type. -/
def matchesElement (relevant : RelevantTypes) (elem : RelativePathElement) (r : ReferenceNode) : Bool :=
  match relevant with
  | none => true
  | some types => types.any (fun t => r.isInverse == elem.isInverse && nodeIdEqual r.referenceTypeId t)

def hasTargetName (elem : RelativePathElement) (n : Node) : Bool :=
  elem.targetName.namespaceIndex == n.browseName.namespaceIndex &&
    stringEqual elem.targetName.name n.browseName.name

def namedTarget (s : AddressSpace) (elem : RelativePathElement) (r : ReferenceNode) : Option Node :=
  match s.get r.targetId.nodeId with
  | none => none
  | some next => if hasTargetName elem next then some next else none

/-- How a walk ends. Beyond the capacity of the array, `UA_realloc` is called
with the address of the pointer, which is not the beginning of an allocation. -/
inductive Walk (β : Type)
  | undefined
  | returned (value : β)
deriving DecidableEq

def capacity : Nat := 10

def browseTarget (n : Node) : BrowsePathTarget := ⟨⟨n.nodeId, none, 0⟩, 0xFFFFFFFF⟩

def addTarget (next : Node) (targets : List BrowsePathTarget) : Walk (StatusCode × List BrowsePathTarget) :=
  if targets.length ≥ capacity then .undefined else .returned (good, targets ++ [browseTarget next])

/-- The loop over the references of a node. It is left when a step does not
return GOOD. -/
def walkReferences (next : ReferenceNode → Option Node)
    (visit : Node → List BrowsePathTarget → Option (Walk (StatusCode × List BrowsePathTarget))) :
    List ReferenceNode → List BrowsePathTarget → Option (Walk (StatusCode × List BrowsePathTarget))
  | [], targets => some (.returned (good, targets))
  | r :: rest, targets =>
      match next r with
      | none => walkReferences next visit rest targets
      | some n =>
          match visit n targets with
          | some (.returned (status, targets')) =>
              if status = good then walkReferences next visit rest targets'
              else some (.returned (status, targets'))
          | other => other

def nextNode (s : AddressSpace) (relevant : RelevantTypes) (elem : RelativePathElement) (r : ReferenceNode) :
    Option Node :=
  if matchesElement relevant elem r then namedTarget s elem r else none

/-- `none` if a search for subtypes does not end within the fuel. The path is
never empty when the function is called. -/
def walkBrowsePath (fuel : Nat) (s : AddressSpace) : List RelativePathElement → Node → List BrowsePathTarget →
    Option (Walk (StatusCode × List BrowsePathTarget))
  | [], _, targets => some (.returned (good, targets))
  | elem :: rest, node, targets =>
      match elementTypes fuel s elem with
      | none => none
      | some (.error status) => some (.returned (status, targets))
      | some (.ok relevant) =>
          walkReferences (nextNode s relevant elem)
            (fun next targets =>
              if rest.length > 0 then walkBrowsePath fuel s rest next targets
              else some (addTarget next targets))
            node.references targets

def pathResult (r : StatusCode × List BrowsePathTarget) : BrowsePathResult :=
  let status := if r.2.length = 0 ∧ r.1 = good then badNoMatch else r.1
  if status ≠ good then ⟨status, []⟩ else ⟨status, r.2⟩

def finishWalk : Walk (StatusCode × List BrowsePathTarget) → Walk BrowsePathResult
  | .undefined => .undefined
  | .returned r => .returned (pathResult r)

/-- `Service_TranslateBrowsePathsToNodeIds_single` -/
def translateBrowsePath (fuel : Nat) (s : AddressSpace) (startingNode : NodeId) (path : List RelativePathElement) :
    Option (Walk BrowsePathResult) :=
  if path.length = 0 then some (.returned ⟨badNothingToDo, []⟩)
  else
    match s.get startingNode with
    | none => some (.returned ⟨badNodeIdUnknown, []⟩)
    | some firstNode => (walkBrowsePath fuel s path firstNode []).map finishWalk

end OpcUa.Browsing
