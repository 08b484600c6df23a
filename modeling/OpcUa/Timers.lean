import Mathlib.Data.List.Basic

namespace OpcUa.Timers

variable {Id Job : Type}

structure IdentifiedJob (Id Job : Type) where
  id : Id
  job : Job
deriving DecidableEq, Repr

/-- `struct RepeatedJobs`: the jobs of one interval. Times are in units of
100 ns. -/
structure RepeatedJobs (Id Job : Type) where
  nextTime : Int
  interval : UInt32
  jobs : List (IdentifiedJob Id Job)
deriving DecidableEq, Repr

abbrev Timer (Id Job : Type) := List (RepeatedJobs Id Job)

def allJobs (timer : Timer Id Job) : List (IdentifiedJob Id Job) := timer.flatMap (·.jobs)

/-- `addRepeatedJob`: the job joins the entry of its interval if that stands
before the first entry that is due later than the job. -/
def addRepeatedJob (firstTime : Int) (interval : UInt32) (job : IdentifiedJob Id Job) : Timer Id Job → Timer Id Job
  | [] => [⟨firstTime, interval, [job]⟩]
  | tw :: rest =>
      if interval = tw.interval then { tw with jobs := tw.jobs ++ [job] } :: rest
      else if tw.nextTime > firstTime then ⟨firstTime, interval, [job]⟩ :: tw :: rest
      else tw :: addRepeatedJob firstTime interval job rest

/-- The last entry moves to the place of the removed one. -/
def removeAt (jobs : List (IdentifiedJob Id Job)) (i : Nat) : List (IdentifiedJob Id Job) :=
  match jobs.getLast? with
  | none => jobs
  | some last => (jobs.set i last).dropLast

/-- `removeRepeatedJob`: only the first job with the id is removed. -/
def removeRepeatedJob [DecidableEq Id] (id : Id) : Timer Id Job → Timer Id Job
  | [] => []
  | tw :: rest => match tw.jobs.findIdx? (fun j => j.id = id) with
      | none => tw :: removeRepeatedJob id rest
      | some i => if tw.jobs.length = 1 then rest else { tw with jobs := removeAt tw.jobs i } :: rest

/-- The jobs that `processRepeatedJobs` runs in one round of its loop. -/
def dueJobs (current : Int) : Timer Id Job → List (IdentifiedJob Id Job)
  | [] => []
  | tw :: _ => if tw.nextTime > current then [] else tw.jobs

/-- The end of the round: the entry moves to the place of its next time. -/
def reschedule (current : Int) : Timer Id Job → Timer Id Job
  | [] => []
  | tw :: rest =>
      if tw.nextTime > current then tw :: rest
      else
        let nextTime := max (tw.nextTime + tw.interval.toNat) current
        rest.takeWhile (·.nextTime ≤ nextTime) ++
          { tw with nextTime := nextTime } :: rest.dropWhile (·.nextTime ≤ nextTime)

section Permutations

variable {timer : Timer Id Job} {tw : RepeatedJobs Id Job} {job : IdentifiedJob Id Job}

theorem allJobs_cons : allJobs (tw :: timer) = tw.jobs ++ allJobs timer := List.flatMap_cons

theorem allJobs_append {timer' : Timer Id Job} : allJobs (timer ++ timer') = allJobs timer ++ allJobs timer' :=
  List.flatMap_append

theorem perm_addRepeatedJob (firstTime : Int) (interval : UInt32) (timer : Timer Id Job) :
    (allJobs (addRepeatedJob firstTime interval job timer)).Perm (job :: allJobs timer) := by
  induction timer with
  | nil => exact .refl _
  | cons tw rest ih =>
      rw [addRepeatedJob]
      split
      · rw [allJobs_cons, allJobs_cons, List.append_assoc]
        exact List.perm_middle
      · split
        · rw [allJobs_cons]
          exact .refl _
        · rw [allJobs_cons, allJobs_cons]
          exact (ih.append_left tw.jobs).trans List.perm_middle

theorem perm_removeAt {jobs : List (IdentifiedJob Id Job)} {i : Nat} (h : jobs[i]? = some job) :
    jobs.Perm (job :: removeAt jobs i) := by
  obtain ⟨front, back, rfl, rfl⟩ : ∃ front back, jobs = front ++ job :: back ∧ front.length = i := by
    obtain ⟨hlt, hget⟩ := List.getElem?_eq_some_iff.mp h
    have hdrop : jobs.drop i = job :: jobs.drop (i + 1) := by rw [← hget, List.drop_eq_getElem_cons hlt]
    refine ⟨jobs.take i, jobs.drop (i + 1), ?_, List.length_take_of_le (Nat.le_of_lt hlt)⟩
    rw [← hdrop, List.take_append_drop]
  rcases List.eq_nil_or_concat' back with rfl | ⟨mid, last, rfl⟩
  · have hlast : (front ++ [job]).getLast? = some job := List.getLast?_concat
    have hset : ((front ++ [job]).set front.length job).dropLast = front := by simp
    rw [removeAt, hlast]
    simp only [hset]
    exact List.perm_append_singleton job front
  · have hsplit (x : IdentifiedJob Id Job) : front ++ x :: (mid ++ [last]) = (front ++ x :: mid) ++ [last] := by simp
    have hset : (front ++ job :: (mid ++ [last])).set front.length last = front ++ last :: (mid ++ [last]) := by simp
    have hlast : (front ++ job :: (mid ++ [last])).getLast? = some last := by rw [hsplit, List.getLast?_concat]
    rw [removeAt, hlast]
    simp only [hset]
    rw [hsplit last, List.dropLast_concat]
    refine List.perm_middle.trans (List.Perm.cons job ?_)
    rw [← List.append_assoc]
    exact (List.perm_append_singleton last (front ++ mid)).trans List.perm_middle.symm

theorem perm_reschedule (current : Int) (timer : Timer Id Job) :
    (allJobs (reschedule current timer)).Perm (allJobs timer) := by
  cases timer with
  | nil => exact .refl _
  | cons tw rest =>
      rw [reschedule]
      split
      · exact .refl _
      · simp only [allJobs_append, allJobs_cons]
        refine (List.perm_append_comm_assoc _ _ _).trans (List.Perm.append_left tw.jobs ?_)
        rw [← allJobs_append, List.takeWhile_append_dropWhile]

variable [DecidableEq Id] {id : Id}

theorem removeRepeatedJob_absent (h : ∀ j ∈ allJobs timer, j.id ≠ id) : removeRepeatedJob id timer = timer := by
  induction timer with
  | nil => rfl
  | cons tw rest ih =>
      rw [allJobs_cons] at h
      have hnone : tw.jobs.findIdx? (fun j => j.id = id) = none := by
        rw [List.findIdx?_eq_none_iff]
        intro j hj
        exact decide_eq_false (h j (List.mem_append_left _ hj))
      rw [removeRepeatedJob, hnone, ih (fun j hj => h j (List.mem_append_right _ hj))]

theorem perm_removeRepeatedJob (h : ∃ j ∈ allJobs timer, j.id = id) :
    ∃ j, j.id = id ∧ (allJobs timer).Perm (j :: allJobs (removeRepeatedJob id timer)) := by
  induction timer with
  | nil =>
      obtain ⟨j, hj, _⟩ := h
      cases hj
  | cons tw rest ih =>
      rw [removeRepeatedJob]
      cases hfind : tw.jobs.findIdx? (fun j => j.id = id) with
      | none =>
          have habsent := List.findIdx?_eq_none_iff.mp hfind
          have hrest : ∃ j ∈ allJobs rest, j.id = id := by
            obtain ⟨j, hj, hid⟩ := h
            rcases List.mem_append.mp (allJobs_cons ▸ hj) with hj | hj
            · exact absurd hid (of_decide_eq_false (habsent j hj))
            · exact ⟨j, hj, hid⟩
          obtain ⟨j, hid, hperm⟩ := ih hrest
          refine ⟨j, hid, ?_⟩
          simp only [allJobs_cons]
          exact (hperm.append_left tw.jobs).trans List.perm_middle
      | some i =>
          obtain ⟨hlt, hid, _⟩ := List.findIdx?_eq_some_iff_getElem.mp hfind
          have hget : tw.jobs[i]? = some tw.jobs[i] := List.getElem?_eq_getElem hlt
          refine ⟨tw.jobs[i], of_decide_eq_true hid, ?_⟩
          rw [allJobs_cons]
          by_cases hone : tw.jobs.length = 1
          · obtain ⟨j, hjobs⟩ := List.length_eq_one_iff.mp hone
            have hzero : i = 0 := by omega
            subst hzero
            simp [hjobs]
          · simp only [hone, if_false, allJobs_cons]
            exact (perm_removeAt hget).append_right _

theorem mem_of_removeRepeatedJob {j : IdentifiedJob Id Job} (h : j ∈ allJobs (removeRepeatedJob id timer)) :
    j ∈ allJobs timer := by
  by_cases hsome : ∃ j ∈ allJobs timer, j.id = id
  · obtain ⟨_, _, hperm⟩ := perm_removeRepeatedJob hsome
    exact hperm.mem_iff.mpr (List.mem_cons_of_mem _ h)
  · rw [removeRepeatedJob_absent (fun j hj hid => hsome ⟨j, hj, hid⟩)] at h
    exact h

end Permutations

end OpcUa.Timers
