import Mathlib.Data.List.Nodup

namespace OpcUa.Dispatching

variable {α Connection Message Callback : Type}

/-- `UA_Job`. A callback stands for the method together with its data. -/
inductive Job (Connection Message Callback : Type)
  | nothing
  | detachConnection (connection : Connection)
  | binaryMessageNetworklayer (connection : Connection) (message : Message)
  | binaryMessageAllocated (connection : Connection) (message : Message)
  | methodCall (method : Callback)
  | methodCallDelayed (method : Callback)
deriving DecidableEq, Repr

inductive Action (Connection Message Callback : Type)
  | detachSecureChannel (connection : Connection)
  | processBinaryMessage (connection : Connection) (message : Message)
  | releaseRecvBuffer (connection : Connection) (message : Message)
  | deleteMembers (message : Message)
  | call (method : Callback)
deriving DecidableEq, Repr

def processJob : Job Connection Message Callback → List (Action Connection Message Callback)
  | .nothing => []
  | .detachConnection connection => [.detachSecureChannel connection]
  | .binaryMessageNetworklayer connection message =>
      [.processBinaryMessage connection message, .releaseRecvBuffer connection message]
  | .binaryMessageAllocated connection message => [.processBinaryMessage connection message, .deleteMembers message]
  | .methodCall method | .methodCallDelayed method => [.call method]

def processJobs (jobs : List (Job Connection Message Callback)) : List (Action Connection Message Callback) :=
  jobs.flatMap processJob

def batchSize : Nat := 20

/-- The batches that the loop of `dispatchJobs` enqueues while `jobsSize` jobs
are left, the last jobs of the array first. The fuel bounds its rounds. -/
def slices (jobs : List α) : Nat → Nat → List (List α)
  | 0, _ => []
  | fuel + 1, jobsSize =>
      if jobsSize > 0 then
        let size := min batchSize jobsSize
        let startIndex := jobsSize - size
        (jobs.drop startIndex).take size :: slices jobs fuel startIndex
      else []

/-- `dispatchJobs`, on the queue as it stands. -/
def dispatchJobs (queue : List (List α)) (jobs : List α) : List (List α) :=
  queue ++ slices jobs jobs.length jobs.length

/-- What a single worker does until the queue is empty: it takes the first
batch and processes its jobs. -/
def drain : List (List (Job Connection Message Callback)) → List (Action Connection Message Callback)
  | [] => []
  | wln :: queue => processJobs wln ++ drain queue

section Slices

variable {jobs : List α} {fuel jobsSize : Nat}

theorem slices_step (jobs : List α) (fuel : Nat) (hpos : 0 < jobsSize) : slices jobs (fuel + 1) jobsSize =
    (jobs.drop (jobsSize - min batchSize jobsSize)).take (min batchSize jobsSize) ::
      slices jobs fuel (jobsSize - min batchSize jobsSize) := by
  rw [slices, if_pos hpos]

theorem flatten_slices (jobs : List α) (hfuel : jobsSize ≤ fuel) :
    (slices jobs fuel jobsSize).reverse.flatten = jobs.take jobsSize := by
  induction fuel generalizing jobsSize with
  | zero =>
      obtain rfl : jobsSize = 0 := Nat.le_zero.mp hfuel
      rfl
  | succ fuel ih =>
      by_cases hpos : 0 < jobsSize
      · have hsize : 0 < min batchSize jobsSize := Nat.lt_min.mpr ⟨by decide, hpos⟩
        have hle : min batchSize jobsSize ≤ jobsSize := Nat.min_le_right _ _
        rw [slices_step _ _ hpos, List.reverse_cons, List.flatten_concat, ih (by omega), ← List.take_add,
          Nat.sub_add_cancel hle]
      · obtain rfl : jobsSize = 0 := by omega
        rfl

theorem mem_flatten_slices {job : α} : job ∈ (slices jobs jobs.length jobs.length).flatten ↔ job ∈ jobs := by
  have hall := flatten_slices jobs (Nat.le_refl jobs.length)
  rw [List.take_length] at hall
  have hmem : job ∈ (slices jobs jobs.length jobs.length).reverse.flatten ↔ job ∈ jobs := by rw [hall]
  rw [← hmem, List.mem_flatten, List.mem_flatten]
  simp only [List.mem_reverse]

theorem length_slices {batch : List α} (hsize : jobsSize ≤ jobs.length) (h : batch ∈ slices jobs fuel jobsSize) :
    0 < batch.length ∧ batch.length ≤ batchSize := by
  induction fuel generalizing jobsSize with
  | zero => exact absurd h List.not_mem_nil
  | succ fuel ih =>
      by_cases hpos : 0 < jobsSize
      · rw [slices_step _ _ hpos] at h
        rcases List.mem_cons.mp h with rfl | h
        · have hmin : 0 < min batchSize jobsSize := Nat.lt_min.mpr ⟨by decide, hpos⟩
          have hle : min batchSize jobsSize ≤ jobsSize := Nat.min_le_right _ _
          have hbatch : min batchSize jobsSize ≤ batchSize := Nat.min_le_left _ _
          rw [List.length_take, List.length_drop]
          omega
        · exact ih (by omega) h
      · rw [slices, if_neg hpos] at h
        exact absurd h List.not_mem_nil

theorem slices_map {β : Type} (f : α → β) (jobs : List α) (fuel jobsSize : Nat) :
    slices (jobs.map f) fuel jobsSize = (slices jobs fuel jobsSize).map (List.map f) := by
  induction fuel generalizing jobsSize with
  | zero => rfl
  | succ fuel ih =>
      by_cases hpos : 0 < jobsSize
      · rw [slices_step _ _ hpos, slices_step _ _ hpos, ih, List.map_cons, List.map_take, List.map_drop]
      · rw [slices, slices, if_neg hpos, if_neg hpos, List.map_nil]

theorem slices_zero : slices jobs fuel 0 = [] := by
  cases fuel <;> rfl

theorem flatten_slices_small (hsmall : jobs.length ≤ batchSize) :
    (slices jobs jobs.length jobs.length).flatten = jobs := by
  cases jobs with
  | nil => rfl
  | cons first rest =>
      have hpos : 0 < (first :: rest).length := Nat.succ_pos _
      have hslices := slices_step (first :: rest) rest.length hpos
      rw [Nat.min_eq_right hsmall, Nat.sub_self, List.drop_zero, List.take_length, slices_zero] at hslices
      rw [List.length_cons] at hslices ⊢
      rw [hslices, List.flatten_cons, List.flatten_nil, List.append_nil]

theorem flatten_slices_ne (fuel : Nat) (hnodup : jobs.Nodup) (hlong : batchSize < jobs.length) :
    (slices jobs (fuel + 1) jobs.length).flatten ≠ jobs := by
  intro heq
  have hmin : min batchSize jobs.length = batchSize := Nat.min_eq_left (Nat.le_of_lt hlong)
  rw [slices_step _ _ (by omega), hmin, List.flatten_cons] at heq
  have hfirst : jobs[0]? = jobs[jobs.length - batchSize]? := by
    have hhead := congrArg (·[0]?) heq
    rw [← hhead, List.getElem?_append_left, List.getElem?_take, List.getElem?_drop, Nat.add_zero]
    · simp [batchSize]
    · rw [List.length_take, List.length_drop]
      simp only [batchSize] at hlong ⊢
      omega
  have hzero : 0 = jobs.length - batchSize :=
    (List.getElem?_inj (by omega) hnodup).mp hfirst
  omega

end Slices

theorem drain_eq_flatMap (queue : List (List (Job Connection Message Callback))) :
    drain queue = queue.flatMap processJobs := by
  induction queue with
  | nil => rfl
  | cons wln queue ih => rw [drain, ih, List.flatMap_cons]

theorem drain_eq (queue : List (List (Job Connection Message Callback))) : drain queue = processJobs queue.flatten := by
  induction queue with
  | nil => rfl
  | cons wln queue ih => rw [drain, ih, List.flatten_cons, processJobs, processJobs, processJobs, List.flatMap_append]

/-- The batches, and the order in which a single worker executes the jobs. -/
theorem dispatchJobs_splits (queue : List (List (Job Connection Message Callback)))
    (jobs : List (Job Connection Message Callback)) :
    ∃ batches, dispatchJobs queue jobs = queue ++ batches ∧
      (∀ batch ∈ batches, 0 < batch.length ∧ batch.length ≤ batchSize) ∧ batches.reverse.flatten = jobs ∧
      drain (dispatchJobs queue jobs) = drain queue ++ batches.flatMap processJobs ∧
      (jobs.length ≤ batchSize → drain (dispatchJobs [] jobs) = processJobs jobs) ∧
      -- `zipIdx` tells equal jobs at two places of the array apart
      dispatchJobs [] jobs = (dispatchJobs [] jobs.zipIdx).map (List.map Prod.fst) ∧
      ((dispatchJobs [] jobs.zipIdx).flatten = jobs.zipIdx ↔ jobs.length ≤ batchSize) := by
  refine ⟨slices jobs jobs.length jobs.length, rfl, fun batch h => length_slices (Nat.le_refl _) h, ?_, ?_, ?_, ?_, ?_⟩
  · rw [flatten_slices jobs (Nat.le_refl _), List.take_length]
  · rw [drain_eq_flatMap, drain_eq_flatMap, dispatchJobs, List.flatMap_append]
  · intro hle
    rw [drain_eq, dispatchJobs, List.nil_append, flatten_slices_small hle]
  · rw [dispatchJobs, dispatchJobs, List.nil_append, List.nil_append, ← slices_map, List.zipIdx_map_fst,
      List.length_zipIdx]
  · constructor
    · intro heq
      by_contra hlong
      have hnodup : jobs.zipIdx.Nodup := by
        refine List.Nodup.of_map Prod.snd ?_
        rw [List.zipIdx_map_snd]
        exact List.nodup_range'
      have hne := flatten_slices_ne (jobs.length - 1) hnodup (by rw [List.length_zipIdx]; omega)
      rw [List.length_zipIdx, Nat.sub_add_cancel (by omega)] at hne
      rw [dispatchJobs, List.nil_append, List.length_zipIdx] at heq
      exact hne heq
    · intro hle
      rw [dispatchJobs, List.nil_append]
      exact flatten_slices_small (by rwa [List.length_zipIdx])

/-- Of 21 jobs a single worker executes the second one first. -/
theorem long_array_out_of_order :
    ¬ (drain (dispatchJobs [] ((List.range 21).map (Job.methodCall : Nat → Job Unit Unit Nat))) =
      processJobs ((List.range 21).map Job.methodCall)) := by
  decide

end OpcUa.Dispatching
