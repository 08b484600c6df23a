import OpcUa.AttributeWrites
import OpcUa.Batches
import OpcUa.NodeCreation

namespace OpcUa.BatchResults

open StatusCodes NodeIds DataTypes AddressSpaces References Browsing NodeManagement NodeCreation AttributeReads
  AttributeWrites Batches
open ValueDecoding (maxArraySize)

/-- The state of the services, with the calls into callbacks and data sources
of variables. -/
structure Server extends State where
  valueCalls : List ValueCall

structure DeleteNodesItem where
  nodeId : NodeId
  deleteTargetReferences : Bool

/-- The part of a response that the services fill in. -/
structure Response (β : Type) where
  serviceResult : StatusCode
  results : List β

section Singles

variable (host : Host) (outside : Outside) (fuel : Nat) (st : Server)

def addReference (item : AddReferencesItem) : Option (StatusCode × Server) :=
  let r := addReferencesSingle st.space item
  some (r.1, { st with space := r.2 })

def deleteReference (item : DeleteReferencesItem) : Option (StatusCode × Server) :=
  let r := deleteReferencesSingle st.space item
  some (r.1, { st with space := r.2 })

def deleteNode (item : DeleteNodesItem) : Option (StatusCode × Server) :=
  (deleteNodesSingle host fuel st.toState item.nodeId item.deleteTargetReferences).map
    (fun r => (r.1, { st with toState := r.2 }))

def addNodeItem (item : AddNodesItem) : Option (AddNodesResult × Server) :=
  (addNodesSingle host fuel st.toState item).map (fun r => (r.1, { st with toState := r.2 }))

def writeItem (item : WriteValue) : Option (StatusCode × Server) :=
  (writeSingle outside st.valueCalls item st.space).map
    (fun r => (r.1, { st with space := r.2.1, valueCalls := r.2.2 }))

end Singles

section Services

variable (host : Host) (outside : Outside) (fuel : Nat) (memory : Nat → StatusCode) (st : Server)

/-- `UA_malloc` for an array. The memory holds what it held before. -/
def mallocResults (size : Nat) : List StatusCode := (List.range size).map memory

/-- `UA_Array_new` for an array that is not empty. The memory is zeroed. -/
def newResults {β : Type} (type : DataType) (zero : β) (size : Nat) : Option (List β) :=
  if size > maxArraySize ∨ type.memSize * size > maxArraySize then none else some (List.replicate size zero)

/-- `Service_AddReferences`. Nothing is assigned to the results. -/
def addReferences (referencesToAdd : List AddReferencesItem) : Option (Response StatusCode × Server) :=
  if referencesToAdd.length ≤ 0 then some (⟨badNothingToDo, []⟩, st)
  else
    (sweep addReference st referencesToAdd).map (fun st => (⟨good, mallocResults memory referencesToAdd.length⟩, st))

def deleteReferences (referencesToDelete : List DeleteReferencesItem) : Option (Response StatusCode × Server) :=
  if referencesToDelete.length ≤ 0 then some (⟨badNothingToDo, []⟩, st)
  else
    (fill deleteReference 0 st referencesToDelete (mallocResults memory referencesToDelete.length)).map
      (fun r => (⟨good, r.1⟩, r.2))

def deleteNodes (nodesToDelete : List DeleteNodesItem) : Option (Response StatusCode × Server) :=
  if nodesToDelete.length ≤ 0 then some (⟨badNothingToDo, []⟩, st)
  else
    (fill (deleteNode host fuel) 0 st nodesToDelete (mallocResults memory nodesToDelete.length)).map
      (fun r => (⟨good, r.1⟩, r.2))

def addNodes (nodesToAdd : List AddNodesItem) : Option (Response AddNodesResult × Server) :=
  if nodesToAdd.length ≤ 0 then some (⟨badNothingToDo, []⟩, st)
  else
    match newResults TypeTable.addNodesResult (⟨good, nullId⟩ : AddNodesResult) nodesToAdd.length with
    | none => some (⟨badOutOfMemory, []⟩, st)
    | some results => (fill (addNodeItem host fuel) 0 st nodesToAdd results).map (fun r => (⟨good, r.1⟩, r.2))

def write (nodesToWrite : List WriteValue) : Option (Response StatusCode × Server) :=
  if nodesToWrite.length ≤ 0 then some (⟨badNothingToDo, []⟩, st)
  else
    match newResults TypeTable.statusCode good nodesToWrite.length with
    | none => some (⟨badOutOfMemory, []⟩, st)
    | some results => (fill (writeItem outside) 0 st nodesToWrite results).map (fun r => (⟨good, r.1⟩, r.2))

end Services

section Requests

inductive Service
  | addReferences | deleteReferences | deleteNodes | addNodes | write
deriving DecidableEq, Repr

namespace Service

@[reducible] def Item : Service → Type
  | addReferences => AddReferencesItem
  | deleteReferences => DeleteReferencesItem
  | deleteNodes => DeleteNodesItem
  | addNodes => AddNodesItem
  | write => WriteValue

@[reducible] def Result : Service → Type
  | addNodes => AddNodesResult
  | _ => StatusCode

def itemType : Service → DataType
  | addReferences => TypeTable.addReferencesItem
  | deleteReferences => TypeTable.deleteReferencesItem
  | deleteNodes => TypeTable.deleteNodesItem
  | addNodes => TypeTable.addNodesItem
  | write => TypeTable.writeValue

end Service

/-- A request as it comes out of the decoder, which refuses larger arrays. -/
structure Request (service : Service) where
  items : List service.Item
  bounded : service.itemType.memSize * items.length ≤ maxArraySize

variable (host : Host) (outside : Outside) (fuel : Nat) (memory : Nat → StatusCode)

def single : (service : Service) → Server → service.Item → Option (service.Result × Server)
  | .addReferences => addReference
  | .deleteReferences => deleteReference
  | .deleteNodes => deleteNode host fuel
  | .addNodes => addNodeItem host fuel
  | .write => writeItem outside

def serve : {service : Service} → Server → Request service → Option (Response service.Result × Server)
  | .addReferences, st, request => addReferences memory st request.items
  | .deleteReferences, st, request => deleteReferences memory st request.items
  | .deleteNodes, st, request => deleteNodes host fuel memory st request.items
  | .addNodes, st, request => addNodes host fuel st request.items
  | .write, st, request => write outside st request.items

/-- The service returns exactly if the operations on the items do, one after
the other, and its results are theirs. -/
def LinesUp {service : Service} (st : Server) (request : Request service) : Prop :=
  ∀ response st', serve host outside fuel memory st request = some (response, st') ↔
    response.serviceResult = good ∧
      Run (single host outside fuel service) st st' request.items response.results

end Requests

section Alignment

variable {host : Host} {outside : Outside} {fuel : Nat} {memory : Nat → StatusCode} {st : Server}

theorem served_iff {α β : Type} {f : Server → α → Option (β × Server)} {items : List α}
    {served : Option (Response β × Server)} (h : served = (batch f st items).map (fun r => (⟨good, r.1⟩, r.2)))
    (response : Response β) (st' : Server) :
    served = some (response, st') ↔ response.serviceResult = good ∧ Run f st st' items response.results := by
  rw [h, Option.map_eq_some_iff]
  constructor
  · rintro ⟨⟨results, last⟩, hbatch, heq⟩
    cases heq
    exact ⟨rfl, batch_iff_run.mp hbatch⟩
  · rintro ⟨hgood, hrun⟩
    refine ⟨(response.results, st'), batch_iff_run.mpr hrun, ?_⟩
    rw [← hgood]

theorem not_empty {α : Type} {items : List α} (h : items ≠ []) : ¬ items.length ≤ 0 :=
  Nat.not_le.mpr (List.length_pos_iff.mpr h)

theorem length_mallocResults (memory : Nat → StatusCode) (size : Nat) : (mallocResults memory size).length = size := by
  rw [mallocResults, List.length_map, List.length_range]

theorem newResults_some {β : Type} {type itemType : DataType} {zero : β} {size : Nat} (hone : 1 ≤ itemType.memSize)
    (hsize : type.memSize ≤ itemType.memSize) (h : itemType.memSize * size ≤ maxArraySize) :
    newResults type zero size = some (List.replicate size zero) := by
  have hitems : size ≤ maxArraySize := by
    calc size
        _ = 1 * size := (Nat.one_mul size).symm
        _ ≤ itemType.memSize * size := Nat.mul_le_mul_right size hone
        _ ≤ maxArraySize := h
  have hresults : type.memSize * size ≤ maxArraySize := Nat.le_trans (Nat.mul_le_mul_right size hsize) h
  exact if_neg (not_or.mpr ⟨Nat.not_lt.mpr hitems, Nat.not_lt.mpr hresults⟩)

theorem linesUp_deleteReferences (request : Request .deleteReferences) (h : request.items ≠ []) :
    LinesUp host outside fuel memory st request := by
  refine served_iff ?_
  change deleteReferences memory st request.items = _
  rw [deleteReferences, if_neg (not_empty h), fill_eq_batch (length_mallocResults _ _)]
  rfl

theorem linesUp_deleteNodes (request : Request .deleteNodes) (h : request.items ≠ []) :
    LinesUp host outside fuel memory st request := by
  refine served_iff ?_
  change deleteNodes host fuel memory st request.items = _
  rw [deleteNodes, if_neg (not_empty h), fill_eq_batch (length_mallocResults _ _)]
  rfl

theorem linesUp_addNodes (request : Request .addNodes) (h : request.items ≠ []) :
    LinesUp host outside fuel memory st request := by
  refine served_iff ?_
  change addNodes host fuel st request.items = _
  rw [addNodes, if_neg (not_empty h), newResults_some (by decide) (by decide) request.bounded]
  dsimp only
  rw [fill_eq_batch (List.length_replicate ..)]
  rfl

theorem linesUp_write (request : Request .write) (h : request.items ≠ []) :
    LinesUp host outside fuel memory st request := by
  refine served_iff ?_
  change write outside st request.items = _
  rw [write, if_neg (not_empty h), newResults_some (by decide) (by decide) request.bounded]
  dsimp only
  rw [fill_eq_batch (List.length_replicate ..)]
  rfl

theorem addReferences_results (request : Request .addReferences) (h : request.items ≠ []) :
    serve host outside fuel memory st request =
      (batch addReference st request.items).map
        (fun r => (⟨good, mallocResults memory request.items.length⟩, r.2)) := by
  change addReferences memory st request.items = _
  rw [addReferences, if_neg (not_empty h), sweep_eq_batch, Option.map_map]
  rfl

theorem batch_addReference (st : Server) (items : List AddReferencesItem) :
    ∃ results st', batch addReference st items = some (results, st') := by
  induction items generalizing st with
  | nil => exact ⟨[], st, rfl⟩
  | cons item items ih =>
      obtain ⟨results, st', hrest⟩ :
        ∃ results st', batch addReference { st with space := (addReferencesSingle st.space item).2 } items =
          some (results, st') := ih _
      refine ⟨(addReferencesSingle st.space item).1 :: results, st', ?_⟩
      rw [batch, addReference]
      dsimp only
      rw [hrest, Option.map_some]

theorem exists_mallocResults_ne (results : List StatusCode) {size : Nat} (h : 0 < size) :
    ∃ memory, mallocResults memory size ≠ results := by
  refine ⟨fun i => results.getD i good + 1, ?_⟩
  intro heq
  have hfirst : (mallocResults (fun i => results.getD i good + 1) size).getD 0 good = results.getD 0 good := by rw [heq]
  rw [mallocResults, List.getD_eq_getElem?_getD, List.getElem?_map, List.getElem?_range h] at hfirst
  simp at hfirst

theorem not_linesUp_addReferences (request : Request .addReferences) (h : request.items ≠ []) :
    ¬ ∀ memory, LinesUp host outside fuel memory st request := by
  intro hall
  obtain ⟨results, st', hbatch⟩ := batch_addReference st request.items
  obtain ⟨memory, hmemory⟩ := exists_mallocResults_ne results (List.length_pos_iff.mpr h)
  have hserve : serve host outside fuel memory st request =
      some (⟨good, mallocResults memory request.items.length⟩, st') := by
    rw [addReferences_results request h, hbatch]
    rfl
  have hrun := ((hall memory _ _).mp hserve).2
  have hsame : batch addReference st request.items = some (mallocResults memory request.items.length, st') :=
    batch_iff_run.mpr hrun
  rw [hbatch] at hsame
  exact hmemory (congrArg Prod.fst (Option.some.inj hsame)).symm

end Alignment

/-- Whatever fresh memory holds, the results of each service line up with the
items, except those of AddReferences. -/
theorem results_lineUp_iff (host : Host) (outside : Outside) (fuel : Nat) (st : Server) (service : Service)
    (request : Request service) (h : request.items ≠ []) :
    (∀ memory, LinesUp host outside fuel memory st request) ↔ service ≠ .addReferences := by
  cases service with
  | addReferences => exact iff_of_false (not_linesUp_addReferences request h) (fun hne => hne rfl)
  | deleteReferences => exact iff_of_true (fun memory => linesUp_deleteReferences request h) (by decide)
  | deleteNodes => exact iff_of_true (fun memory => linesUp_deleteNodes request h) (by decide)
  | addNodes => exact iff_of_true (fun memory => linesUp_addNodes request h) (by decide)
  | write => exact iff_of_true (fun memory => linesUp_write request h) (by decide)

section Samples

def sampleServer : Server := ⟨⟨sampleFolder [], ⟨[], 5⟩, 0, 0, []⟩, []⟩

def sampleDeletion (nodeId : NodeId) : DeleteNodesItem := ⟨nodeId, true⟩

def sampleDeletions : Request .deleteNodes where
  items := [sampleDeletion (numericId 1 2), sampleDeletion (numericId 1 2)]
  bounded := by decide

theorem results_lineUp_sampleDeletions :
    ∃ response st', serve sampleHost sampleOutside 0 (fun _ => 7) sampleServer sampleDeletions = some (response, st') ∧
      response.results = [good, badNodeIdInvalid] ∧
      Run (single sampleHost sampleOutside 0 .deleteNodes) sampleServer st' sampleDeletions.items response.results := by
  have hitems : sampleDeletions.items ≠ [] := by simp [sampleDeletions]
  have hall := (results_lineUp_iff sampleHost sampleOutside 0 sampleServer .deleteNodes sampleDeletions hitems).mpr
    (by decide)
  obtain ⟨response, st', hserve, hresults⟩ : ∃ response st',
      serve sampleHost sampleOutside 0 (fun _ => 7) sampleServer sampleDeletions = some (response, st') ∧
        response.results = [good, badNodeIdInvalid] := ⟨_, _, rfl, rfl⟩
  exact ⟨response, st', hserve, hresults, ((hall _ response st').mp hserve).2⟩

def sampleReferences : Request .addReferences where
  items := [⟨numericId 1 9, numericId 0 35, true, none, ⟨numericId 1 2, none, 0⟩⟩]
  bounded := by decide

/-- The status of the item is an error, but the memory holds a GOOD. -/
theorem results_misaligned :
    serve sampleHost sampleOutside 0 (fun _ => good) sampleServer sampleReferences =
        some (⟨good, [good]⟩, sampleServer) ∧
      single sampleHost sampleOutside 0 .addReferences sampleServer
          ⟨numericId 1 9, numericId 0 35, true, none, ⟨numericId 1 2, none, 0⟩⟩ =
        some (badNodeIdUnknown, sampleServer) ∧
      ¬ LinesUp sampleHost sampleOutside 0 (fun _ => good) sampleServer sampleReferences := by
  have hserve : serve sampleHost sampleOutside 0 (fun _ => good) sampleServer sampleReferences =
    some (⟨good, [good]⟩, sampleServer) := rfl
  refine ⟨hserve, rfl, ?_⟩
  intro hlines
  obtain ⟨_, states, hfirst, _, hstep⟩ := ((hlines _ _).mp hserve).2
  have hsingle := hstep 0 _ good rfl rfl
  rw [hfirst] at hsingle
  cases hsingle

end Samples

end OpcUa.BatchResults
