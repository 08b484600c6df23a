import Mathlib.Data.List.TakeWhile
import Mathlib.Tactic.Tauto
import OpcUa.WorkerThreads

namespace OpcUa.EpochGuards

open Dispatching hiding processJob
open WorkerThreads

variable {n : Nat} {s : State n} {queue : List (List QueuedJob)} {workers : Fin n → Worker} {log : List Event}
  {dj : DelayedJobs n} {m : Nat} {i : Fin n} {job : QueuedJob}

def Held (workers : Fin n → Worker) (job : QueuedJob) : Prop :=
  ∃ i batch, (workers i).batch = some batch ∧ job ∈ batch

/-- Why the entry is not executed before the normal job has finished: the
worker that holds the job has not counted on since the counters were set, and
they are not set before the job has left the queue. -/
def Guarded (queue : List (List QueuedJob)) (workers : Fin n → Worker) (log : List Event) (dj : DelayedJobs n)
    (m : Nat) : Prop :=
  .finished m ∈ log ∨
  (∃ i batch, (workers i).batch = some batch ∧ .normal m ∈ batch ∧
    ∀ set, dj.workerCounters = some set → set i = (workers i).counter) ∨
  (dj.workerCounters = none ∧ ¬ Held workers (.getCounters dj.address) ∧
    ∃ front back, queue = front ++ back ∧ .normal m ∈ front.flatten ∧ .getCounters dj.address ∉ front.flatten)

section Guards

theorem finished_of_guarded {counters : Fin n → Nat} (hcounters : ∀ i, counters i = (workers i).counter)
    (h : Guarded queue workers log dj m) (hmoved : allMoved counters dj = true) : .finished m ∈ log := by
  rw [allMoved] at hmoved
  rcases h with h | ⟨i, batch, _, _, hset⟩ | ⟨hnone, _⟩
  · exact h
  · cases hcase : dj.workerCounters with
    | none => simp [hcase] at hmoved
    | some set =>
        rw [hcase] at hmoved
        exact absurd ((hset set hcase).trans (hcounters i).symm) (of_decide_eq_true hmoved i)
  · simp [hnone] at hmoved

/-- The first entry is not closed: its `getCounters` does not exist yet. -/
theorem guarded_of_placed (hnone : dj.workerCounters = none) (hheld : ¬ Held workers (.getCounters dj.address))
    (hqueued : .getCounters dj.address ∉ queue.flatten)
    (h : .finished m ∈ log ∨ Held workers (.normal m) ∨ .normal m ∈ queue.flatten) :
    Guarded queue workers log dj m := by
  rcases h with h | ⟨i, batch, hbatch, hmem⟩ | h
  · exact .inl h
  · refine .inr (.inl ⟨i, batch, hbatch, hmem, fun set hset => ?_⟩)
    rw [hnone] at hset
    cases hset
  · exact .inr (.inr ⟨hnone, hheld, queue, [], (List.append_nil _).symm, h, hqueued⟩)

theorem Guarded.log_append (h : Guarded queue workers log dj m) (events : List Event) :
    Guarded queue workers (events ++ log) dj m :=
  h.imp (List.mem_append_right _) id

theorem Guarded.enqueue (h : Guarded queue workers log dj m) (more : List (List QueuedJob)) :
    Guarded (queue ++ more) workers log dj m := by
  rcases h with h | h | ⟨hnone, hheld, front, back, rfl, hmem, hget⟩
  · exact .inl h
  · exact .inr (.inl h)
  · exact .inr (.inr ⟨hnone, hheld, front, back ++ more, List.append_assoc .., hmem, hget⟩)

theorem Guarded.of_same {dj' : DelayedJobs n} (h : Guarded queue workers log dj m)
    (haddress : dj'.address = dj.address) (hset : dj'.workerCounters = dj.workerCounters) :
    Guarded queue workers log dj' m := by
  rw [Guarded, haddress, hset]
  exact h

theorem held_take {wln : List QueuedJob} (hidle : (workers i).batch = none) :
    Held (Function.update workers i ⟨(workers i).counter, some wln⟩) job ↔ job ∈ wln ∨ Held workers job := by
  constructor
  · rintro ⟨j, batch, hbatch, hmem⟩
    by_cases hj : j = i
    · subst j
      rw [Function.update_self] at hbatch
      exact .inl (Option.some.inj hbatch ▸ hmem)
    · rw [Function.update_of_ne hj] at hbatch
      exact .inr ⟨j, batch, hbatch, hmem⟩
  · rintro (hmem | ⟨j, batch, hbatch, hmem⟩)
    · exact ⟨i, wln, by rw [Function.update_self], hmem⟩
    · have hj : j ≠ i := by
        rintro rfl
        rw [hidle] at hbatch
        cases hbatch
      exact ⟨j, batch, by rwa [Function.update_of_ne hj], hmem⟩

theorem Guarded.take {wln : List QueuedJob} (hidle : (workers i).batch = none)
    (h : Guarded (wln :: queue) workers log dj m) :
    Guarded queue (Function.update workers i ⟨(workers i).counter, some wln⟩) log dj m := by
  rcases h with h | ⟨j, batch, hbatch, hmem, hset⟩ | ⟨hnone, hheld, front, back, hqueue, hmem, hget⟩
  · exact .inl h
  · have hj : j ≠ i := by
      rintro rfl
      rw [hidle] at hbatch
      cases hbatch
    refine .inr (.inl ⟨j, batch, ?_, hmem, fun set hsome => ?_⟩)
    · rwa [Function.update_of_ne hj]
    · rw [Function.update_of_ne hj]
      exact hset set hsome
  · cases front with
    | nil => exact absurd hmem List.not_mem_nil
    | cons first front =>
        obtain ⟨rfl, rfl⟩ : wln = first ∧ queue = front ++ back := List.cons.inj hqueue
        rw [List.flatten_cons, List.mem_append] at hmem hget
        rw [not_or] at hget
        rcases hmem with hmem | hmem
        · refine .inr (.inl ⟨i, wln, by rw [Function.update_self], hmem, fun set hsome => ?_⟩)
          rw [hnone] at hsome
          cases hsome
        · refine .inr (.inr ⟨hnone, ?_, front, back, rfl, hmem, hget.2⟩)
          rw [held_take hidle, not_or]
          exact ⟨hget.1, hheld⟩

theorem held_of_run {rest : List QueuedJob} {first : QueuedJob} (hbatch : (workers i).batch = some (first :: rest))
    (h : Held (Function.update workers i ⟨(workers i).counter, some rest⟩) job) : Held workers job := by
  obtain ⟨j, batch, hj', hmem⟩ := h
  by_cases hj : j = i
  · subst j
    rw [Function.update_self] at hj'
    exact ⟨i, first :: rest, hbatch, List.mem_cons_of_mem _ (Option.some.inj hj' ▸ hmem)⟩
  · rw [Function.update_of_ne hj] at hj'
    exact ⟨j, batch, hj', hmem⟩

theorem held_run {rest : List QueuedJob} {first : QueuedJob} (hbatch : (workers i).batch = some (first :: rest))
    (h : Held workers job) :
    job = first ∨ Held (Function.update workers i ⟨(workers i).counter, some rest⟩) job := by
  obtain ⟨j, batch, hj', hmem⟩ := h
  by_cases hj : j = i
  · subst j
    obtain rfl := Option.some.inj (hj'.symm.trans hbatch)
    exact (List.mem_cons.mp hmem).imp id fun hrest => ⟨i, rest, by rw [Function.update_self], hrest⟩
  · exact .inr ⟨j, batch, by rwa [Function.update_of_ne hj], hmem⟩

theorem Guarded.run {rest : List QueuedJob} {first : QueuedJob} (hbatch : (workers i).batch = some (first :: rest))
    (h : Guarded queue workers log dj m) (hfirst : first ≠ .normal m) :
    Guarded queue (Function.update workers i ⟨(workers i).counter, some rest⟩) log dj m := by
  rcases h with h | ⟨j, batch, hj', hmem, hset⟩ | ⟨hnone, hheld, hqueue⟩
  · exact .inl h
  · refine .inr (.inl ?_)
    by_cases hj : j = i
    · subst j
      obtain rfl := Option.some.inj (hj'.symm.trans hbatch)
      have hrest := (List.mem_cons.mp hmem).resolve_left (Ne.symm hfirst)
      exact ⟨i, rest, by rw [Function.update_self], hrest, by rw [Function.update_self]; exact hset⟩
    · refine ⟨j, batch, ?_, hmem, fun set hsome => ?_⟩
      · rwa [Function.update_of_ne hj]
      · rw [Function.update_of_ne hj]
        exact hset set hsome
  · exact .inr (.inr ⟨hnone, fun h => hheld (held_of_run hbatch h), hqueue⟩)

theorem held_count {counter : Nat} (hempty : ∀ batch, (workers i).batch = some batch → batch = []) :
    Held (Function.update workers i ⟨counter, none⟩) job ↔ Held workers job := by
  constructor
  · rintro ⟨j, batch, hbatch, hmem⟩
    by_cases hj : j = i
    · subst j
      rw [Function.update_self] at hbatch
      cases hbatch
    · rw [Function.update_of_ne hj] at hbatch
      exact ⟨j, batch, hbatch, hmem⟩
  · rintro ⟨j, batch, hbatch, hmem⟩
    have hj : j ≠ i := by
      rintro rfl
      rw [hempty batch hbatch] at hmem
      exact List.not_mem_nil hmem
    exact ⟨j, batch, by rwa [Function.update_of_ne hj], hmem⟩

theorem Guarded.count {counter : Nat} (hempty : ∀ batch, (workers i).batch = some batch → batch = [])
    (h : Guarded queue workers log dj m) : Guarded queue (Function.update workers i ⟨counter, none⟩) log dj m := by
  rcases h with h | ⟨j, batch, hbatch, hmem, hset⟩ | ⟨hnone, hheld, hqueue⟩
  · exact .inl h
  · have hj : j ≠ i := by
      rintro rfl
      rw [hempty batch hbatch] at hmem
      exact List.not_mem_nil hmem
    refine .inr (.inl ⟨j, batch, ?_, hmem, fun set hsome => ?_⟩)
    · rwa [Function.update_of_ne hj]
    · rw [Function.update_of_ne hj]
      exact hset set hsome
  · exact .inr (.inr ⟨hnone, by rwa [held_count hempty], hqueue⟩)

theorem Guarded.getCounters {counters : Fin n → Nat} {address : Nat}
    (hcounters : ∀ i, counters i = (workers i).counter) (hheld : Held workers (.getCounters address))
    (h : Guarded queue workers log dj m) :
    Guarded queue workers log (if dj.address = address then { dj with workerCounters := some counters } else dj) m := by
  split
  · next haddress =>
      rcases h with h | ⟨j, batch, hbatch, hmem, _⟩ | ⟨_, hnot, _⟩
      · exact .inl h
      · refine .inr (.inl ⟨j, batch, hbatch, hmem, fun set hset => ?_⟩)
        obtain rfl := Option.some.inj hset
        exact hcounters j
      · exact absurd (haddress ▸ hheld) hnot
  · exact h

end Guards

section DispatchedDelayedJobs

/-- What the second loop does: the first entry of which all workers have moved
is processed twice, and what comes after it is lost. -/
theorem dispatchDelayedJobs_cases (counters : Fin n → Nat) (list : List (DelayedJobs n)) :
    ((∀ dj ∈ list.tail, allMoved counters dj = false) ∧ dispatchDelayedJobs counters list = ([], list)) ∨
    ∃ beforedw front dw back, list = beforedw :: (front ++ dw :: back) ∧ allMoved counters dw = true ∧
      dispatchDelayedJobs counters list =
        (dw.jobs.map .executed ++ .freed dw.address :: (dw.jobs.map .executed ++ [.freed dw.address]),
          beforedw :: front) := by
  cases list with
  | nil => exact .inl ⟨by simp, rfl⟩
  | cons beforedw rest =>
      rw [dispatchDelayedJobs]
      cases hdrop : rest.dropWhile (fun dj => !allMoved counters dj) with
      | nil =>
          have hall := List.dropWhile_eq_nil_iff.mp hdrop
          refine .inl ⟨fun dj hdj => by simpa using hall dj hdj, ?_⟩
          rw [List.takeWhile_eq_self_iff.mpr hall]
          rfl
      | cons dw back =>
          refine .inr ⟨beforedw, rest.takeWhile (fun dj => !allMoved counters dj), dw, back, ?_, ?_, rfl⟩
          · rw [← hdrop, List.takeWhile_append_dropWhile]
          · have hnot := List.head_dropWhile_not (fun dj => !allMoved counters dj) (l := rest) (by simp [hdrop])
            simpa [hdrop] using hnot

theorem mem_dispatchDelayedJobs {counters : Fin n → Nat} {list : List (DelayedJobs n)} {e : Event}
    (h : e ∈ (dispatchDelayedJobs counters list).1) : (∃ address, e = .freed address) ∨
      ∃ dw ∈ list, allMoved counters dw = true ∧ ∃ d ∈ dw.jobs, e = .executed d := by
  rcases dispatchDelayedJobs_cases counters list with ⟨_, heq⟩ | ⟨beforedw, front, dw, back, rfl, hmoved, heq⟩
  · rw [heq] at h
    exact absurd h List.not_mem_nil
  · have hdw : dw ∈ beforedw :: (front ++ dw :: back) := by simp
    rw [heq] at h
    simp only [List.mem_append, List.mem_cons, List.mem_map, List.not_mem_nil, or_false] at h
    rcases h with ⟨d, hd, rfl⟩ | rfl | ⟨d, hd, rfl⟩ | rfl
    · exact .inr ⟨dw, hdw, hmoved, d, hd, rfl⟩
    · exact .inl ⟨_, rfl⟩
    · exact .inr ⟨dw, hdw, hmoved, d, hd, rfl⟩
    · exact .inl ⟨_, rfl⟩

theorem prefix_dispatchDelayedJobs (counters : Fin n → Nat) (list : List (DelayedJobs n)) :
    (dispatchDelayedJobs counters list).2 <+: list := by
  rcases dispatchDelayedJobs_cases counters list with ⟨_, heq⟩ | ⟨beforedw, front, dw, back, rfl, _, heq⟩
  · simp only [heq, List.prefix_refl]
  · rw [heq]
    exact ⟨dw :: back, rfl⟩

end DispatchedDelayedJobs

structure Inv (s : State n) : Prop where
  placed : ∀ m, .dispatched m ∈ s.log →
    .finished m ∈ s.log ∨ Held s.workers (.normal m) ∨ .normal m ∈ s.dispatchQueue.flatten
  jobs_lt : ∀ dj ∈ s.delayedJobs, ∀ d ∈ dj.jobs, d < s.delayeds
  pending_lt : ∀ d ∈ s.mainLoopJobs, d < s.delayeds
  address_lt : ∀ dj ∈ s.delayedJobs, dj.address < s.addresses
  getCounters_lt : ∀ a, Held s.workers (.getCounters a) ∨ .getCounters a ∈ s.dispatchQueue.flatten → a < s.addresses
  first : ∀ dj rest, s.delayedJobs = dj :: rest → dj.workerCounters = none ∧
    ¬ Held s.workers (.getCounters dj.address) ∧ .getCounters dj.address ∉ s.dispatchQueue.flatten
  guarded : s.phase.isWorking = true → ∀ dj ∈ s.delayedJobs, ∀ d ∈ dj.jobs, ∀ m, Before m d s.log →
    Guarded s.dispatchQueue s.workers s.log dj m
  idle : s.phase.isWorking = false → ∀ i, (s.workers i).batch = none
  nonempty : ∀ dj ∈ s.delayedJobs, dj.jobs ≠ []

section Steps

theorem inv_initial (n : Nat) : Inv (initial n) := by
  refine ⟨?_, ?_, ?_, ?_, ?_, ?_, ?_, ?_, ?_⟩ <;> simp [initial, Held]

theorem before_quiet {events : List Event} {d : Nat} (hquiet : ∀ e ∈ events, e.isQuiet = true) :
    Before m d (events ++ log) ↔ Before m d log :=
  before_append fun hmem => by simpa [Event.isQuiet] using hquiet _ hmem

theorem dispatched_quiet {events : List Event} (hquiet : ∀ e ∈ events, e.isQuiet = true)
    (h : .dispatched m ∈ events ++ log) : .dispatched m ∈ log := by
  rcases List.mem_append.mp h with h | h
  · simpa [Event.isQuiet] using hquiet _ h
  · exact h

theorem inv_enqueue (more : List (List QueuedJob)) (events : List Event) (normals : Nat) (h : Inv s)
    (hnew : ∀ m, .dispatched m ∈ events → .normal m ∈ more.flatten)
    (hadded : ∀ d, .added d ∉ events)
    (hgetCounters : ∀ a, .getCounters a ∈ more.flatten → a < s.addresses ∧
      ∀ dj rest, s.delayedJobs = dj :: rest → dj.address ≠ a) :
    Inv { s with dispatchQueue := s.dispatchQueue ++ more, log := events ++ s.log, normals := normals } where
  placed m hm := by
    rw [List.flatten_append]
    rcases List.mem_append.mp hm with hm | hm
    · exact .inr (.inr (List.mem_append_right _ (hnew m hm)))
    · exact (h.placed m hm).imp (List.mem_append_right _) (Or.imp_right (List.mem_append_left _))
  jobs_lt := h.jobs_lt
  pending_lt := h.pending_lt
  address_lt := h.address_lt
  getCounters_lt a ha := by
    rw [List.flatten_append, List.mem_append, ← or_assoc] at ha
    exact ha.elim (h.getCounters_lt a) fun hmore => (hgetCounters a hmore).1
  first dj rest heq := by
    obtain ⟨hnone, hheld, hqueued⟩ := h.first dj rest heq
    refine ⟨hnone, hheld, ?_⟩
    rw [List.flatten_append, List.mem_append, not_or]
    exact ⟨hqueued, fun hmore => (hgetCounters _ hmore).2 dj rest heq rfl⟩
  guarded hworking dj hdj d hd m hbefore :=
    ((h.guarded hworking dj hdj d hd m ((before_append (hadded d)).mp hbefore)).enqueue more).log_append events
  idle := h.idle
  nonempty := h.nonempty

theorem inv_append {next : List (DelayedJobs n)} {d : Nat} (h : Inv s) (hlist : s.delayedJobs = dj :: next)
    (hd : d < s.delayeds) : Inv { s with delayedJobs := { dj with jobs := dj.jobs ++ [d] } :: next } := by
  obtain ⟨hnone, hheld, hqueued⟩ := h.first dj next hlist
  have hdj : dj ∈ s.delayedJobs := hlist ▸ List.mem_cons_self
  have hnext {x} (hx : x ∈ next) : x ∈ s.delayedJobs := hlist ▸ List.mem_cons_of_mem _ hx
  refine ⟨h.placed, ?_, h.pending_lt, ?_, h.getCounters_lt, ?_, ?_, h.idle, ?_⟩
  · intro x hx e he
    rcases List.mem_cons.mp hx with rfl | hx
    · rcases List.mem_append.mp he with he | he
      · exact h.jobs_lt dj hdj e he
      · exact List.mem_singleton.mp he ▸ hd
    · exact h.jobs_lt x (hnext hx) e he
  · intro x hx
    rcases List.mem_cons.mp hx with rfl | hx
    · exact h.address_lt dj hdj
    · exact h.address_lt x (hnext hx)
  · intro x rest heq
    obtain ⟨rfl, _⟩ := List.cons.inj heq
    exact ⟨hnone, hheld, hqueued⟩
  · intro hworking x hx e he m hbefore
    rcases List.mem_cons.mp hx with rfl | hx
    · exact (guarded_of_placed hnone hheld hqueued (h.placed m (dispatched_of_before hbefore))).of_same rfl rfl
    · exact h.guarded hworking x (hnext hx) e he m hbefore
  · intro x hx
    rcases List.mem_cons.mp hx with rfl | hx
    · simp
    · exact h.nonempty x (hnext hx)

theorem inv_push {d : Nat} (h : Inv s) (hd : d < s.delayeds) :
    Inv { s with delayedJobs := ⟨s.addresses, none, [d]⟩ :: s.delayedJobs, addresses := s.addresses + 1 } := by
  have hheld : ¬ Held s.workers (.getCounters s.addresses) := fun hmem =>
    Nat.lt_irrefl _ (h.getCounters_lt _ (.inl hmem))
  have hqueued : .getCounters s.addresses ∉ s.dispatchQueue.flatten := fun hmem =>
    Nat.lt_irrefl _ (h.getCounters_lt _ (.inr hmem))
  refine ⟨h.placed, ?_, h.pending_lt, ?_, ?_, ?_, ?_, h.idle, ?_⟩
  · intro x hx e he
    rcases List.mem_cons.mp hx with rfl | hx
    · exact List.mem_singleton.mp he ▸ hd
    · exact h.jobs_lt x hx e he
  · intro x hx
    rcases List.mem_cons.mp hx with rfl | hx
    · exact Nat.lt_succ_self _
    · exact Nat.lt_succ_of_lt (h.address_lt x hx)
  · exact fun a ha => Nat.lt_succ_of_lt (h.getCounters_lt a ha)
  · intro x rest heq
    obtain ⟨rfl, _⟩ := List.cons.inj heq
    exact ⟨rfl, hheld, hqueued⟩
  · intro hworking x hx e he m hbefore
    rcases List.mem_cons.mp hx with rfl | hx
    · exact guarded_of_placed rfl hheld hqueued (h.placed m (dispatched_of_before hbefore))
    · exact h.guarded hworking x hx e he m hbefore
  · intro x hx
    rcases List.mem_cons.mp hx with rfl | hx
    · simp
    · exact h.nonempty x hx

theorem inv_addDelayedJob {d : Nat} (h : Inv s) (hd : d < s.delayeds) : Inv (addDelayedJob s d) := by
  have hnew : Inv (newDelayedJobs s d) := by
    have hpush := inv_push h hd
    cases hlist : s.delayedJobs with
    | nil =>
        rw [hlist] at hpush
        rw [newDelayedJobs, hlist]
        exact hpush
    | cons next rest =>
        have haddress : next.address < s.addresses := h.address_lt next (hlist ▸ List.mem_cons_self)
        have hget : ∀ a, .getCounters a ∈ (slices [QueuedJob.getCounters next.address] 1 1).flatten →
            a = next.address := fun a ha => by
          have hmem := mem_flatten_slices.mp ha
          exact QueuedJob.getCounters.inj (List.mem_singleton.mp hmem)
        have henqueue := inv_enqueue (slices [.getCounters next.address] 1 1) [] s.normals hpush (by simp) (by simp)
          fun a ha => by
            obtain rfl := hget a ha
            refine ⟨Nat.lt_succ_of_lt haddress, fun x rest' heq => ?_⟩
            obtain ⟨rfl, _⟩ := List.cons.inj heq
            exact Nat.ne_of_gt haddress
        rw [hlist] at henqueue
        rw [newDelayedJobs, hlist]
        exact henqueue
  rw [addDelayedJob]
  split
  · exact hnew
  · next dj next heq =>
      split
      · exact hnew
      · exact inv_append h heq hd

theorem inv_log (events : List Event) {pending : List Nat} {normals delayeds : Nat} (h : Inv s)
    (hdispatched : ∀ m, .dispatched m ∈ events → .finished m ∈ events)
    (hadded : ∀ d, .added d ∈ events → s.delayeds ≤ d) (hle : s.delayeds ≤ delayeds)
    (hpending : ∀ d ∈ pending, d < delayeds) :
    Inv { s with mainLoopJobs := pending, log := events ++ s.log, normals := normals, delayeds := delayeds } where
  placed m hm := by
    rcases List.mem_append.mp hm with hm | hm
    · exact .inl (List.mem_append_left _ (hdispatched m hm))
    · exact (h.placed m hm).imp (List.mem_append_right _) id
  jobs_lt dj hdj d hd := Nat.lt_of_lt_of_le (h.jobs_lt dj hdj d hd) hle
  pending_lt := hpending
  address_lt := h.address_lt
  getCounters_lt := h.getCounters_lt
  first := h.first
  guarded hworking dj hdj d hd m hbefore := by
    have hnone : .added d ∉ events := fun hmem =>
      Nat.not_le.mpr (h.jobs_lt dj hdj d hd) (hadded d hmem)
    exact (h.guarded hworking dj hdj d hd m ((before_append hnone).mp hbefore)).log_append events
  idle := h.idle
  nonempty := h.nonempty

theorem delayeds_addDelayedJob (s : State n) (d : Nat) : (addDelayedJob s d).delayeds = s.delayeds := by
  rw [addDelayedJob]
  split
  · rfl
  · split <;> rfl

theorem inv_foldl_addDelayedJob (jobs : List Nat) (h : Inv s) (hjobs : ∀ d ∈ jobs, d < s.delayeds) :
    Inv (jobs.foldl addDelayedJob s) := by
  induction jobs generalizing s with
  | nil => exact h
  | cons d jobs ih =>
      refine ih (inv_addDelayedJob h (hjobs d List.mem_cons_self)) fun e he => ?_
      rw [delayeds_addDelayedJob]
      exact hjobs e (List.mem_cons_of_mem _ he)

theorem inv_take {wln : List QueuedJob} {queue : List (List QueuedJob)} (h : Inv s)
    (hworking : s.phase.isWorking = true) (hidle : (s.workers i).batch = none)
    (hqueue : s.dispatchQueue = wln :: queue) :
    Inv { s with
      dispatchQueue := queue
      workers := Function.update s.workers i ⟨(s.workers i).counter, some wln⟩ } where
  placed m hm := by
    have hplaced := h.placed m hm
    rw [hqueue, List.flatten_cons, List.mem_append] at hplaced
    rw [held_take hidle]
    tauto
  jobs_lt := h.jobs_lt
  pending_lt := h.pending_lt
  address_lt := h.address_lt
  getCounters_lt a ha := by
    have hlt := h.getCounters_lt a
    rw [hqueue, List.flatten_cons, List.mem_append] at hlt
    rw [held_take hidle] at ha
    tauto
  first dj rest heq := by
    obtain ⟨hnone, hheld, hqueued⟩ := h.first dj rest heq
    rw [hqueue, List.flatten_cons, List.mem_append] at hqueued
    rw [held_take hidle]
    tauto
  guarded hphase dj hdj d hd m hbefore := by
    have hguarded := h.guarded hphase dj hdj d hd m hbefore
    rw [hqueue] at hguarded
    exact hguarded.take hidle
  idle hphase := absurd hworking (by simpa using hphase)
  nonempty := h.nonempty

theorem inv_count {counter : Nat} (h : Inv s) (hempty : ∀ batch, (s.workers i).batch = some batch → batch = []) :
    Inv { s with workers := Function.update s.workers i ⟨counter, none⟩ } where
  placed m hm := by
    rw [held_count hempty]
    exact h.placed m hm
  jobs_lt := h.jobs_lt
  pending_lt := h.pending_lt
  address_lt := h.address_lt
  getCounters_lt a ha := by
    rw [held_count hempty] at ha
    exact h.getCounters_lt a ha
  first dj rest heq := by
    rw [held_count hempty]
    exact h.first dj rest heq
  guarded hphase dj hdj d hd m hbefore := (h.guarded hphase dj hdj d hd m hbefore).count hempty
  idle hphase j := by
    change (Function.update s.workers i ⟨counter, none⟩ j).batch = none
    by_cases hj : j = i
    · subst j
      rw [Function.update_self]
    · rw [Function.update_of_ne hj]
      exact h.idle hphase j
  nonempty := h.nonempty

theorem getCounters_mem {counters : Fin n → Nat} {address : Nat} {list : List (DelayedJobs n)}
    (h : dj ∈ getCounters counters address list) : ∃ old ∈ list, dj.address = old.address ∧ dj.jobs = old.jobs ∧
      dj = if old.address = address then { old with workerCounters := some counters } else old := by
  obtain ⟨old, hold, rfl⟩ := List.mem_map.mp h
  refine ⟨old, hold, ?_, ?_, rfl⟩ <;> split <;> rfl

theorem quiet_dispatchDelayedJobs (counters : Fin n → Nat) (list : List (DelayedJobs n)) :
    ∀ e ∈ (dispatchDelayedJobs counters list).1.reverse, e.isQuiet = true := by
  intro e he
  rcases mem_dispatchDelayedJobs (List.mem_reverse.mp he) with ⟨_, rfl⟩ | ⟨_, _, _, _, _, rfl⟩ <;> rfl

/-- A job leaves the entries as they are or takes them from the end. Only
`getCounters` sets something in one of them. -/
theorem mem_processJob (h : dj ∈ (processJob counters s job).delayedJobs) :
    ∃ old ∈ s.delayedJobs, dj.address = old.address ∧ dj.jobs = old.jobs := by
  cases job with
  | normal => exact ⟨dj, h, rfl, rfl⟩
  | getCounters address =>
      obtain ⟨old, hold, haddress, hjobs, _⟩ := getCounters_mem h
      exact ⟨old, hold, haddress, hjobs⟩
  | dispatchDelayedJobs => exact ⟨dj, (prefix_dispatchDelayedJobs counters s.delayedJobs).subset h, rfl, rfl⟩

theorem first_processJob {rest : List (DelayedJobs n)} (h : (processJob counters s job).delayedJobs = dj :: rest)
    (hother : ∀ dj rest, s.delayedJobs = dj :: rest → job ≠ .getCounters dj.address) :
    ∃ rest', s.delayedJobs = dj :: rest' := by
  cases job with
  | normal => exact ⟨rest, h⟩
  | getCounters address =>
      cases hlist : s.delayedJobs with
      | nil =>
          rw [processJob, hlist] at h
          cases h
      | cons old rest' =>
          have hne : old.address ≠ address := fun hself => hother old rest' hlist (hself ▸ rfl)
          rw [processJob, hlist, getCounters, List.map_cons, if_neg hne] at h
          exact ⟨rest', by rw [(List.cons.inj h).1]⟩
  | dispatchDelayedJobs =>
      obtain ⟨behind, hbehind⟩ := prefix_dispatchDelayedJobs counters s.delayedJobs
      refine ⟨rest ++ behind, ?_⟩
      rw [← hbehind, ← List.cons_append]
      exact congrArg (· ++ behind) h

/-- The job has been taken out of its batch. Whoever executes it, it is not
for the first entry to set its counters. -/
theorem inv_processJob (hplaced : ∀ m, .dispatched m ∈ s.log → job = .normal m ∨ .finished m ∈ s.log ∨
      Held s.workers (.normal m) ∨ .normal m ∈ s.dispatchQueue.flatten)
    (hjobs : ∀ dj ∈ s.delayedJobs, ∀ d ∈ dj.jobs, d < s.delayeds) (hpending : ∀ d ∈ s.mainLoopJobs, d < s.delayeds)
    (haddress : ∀ dj ∈ s.delayedJobs, dj.address < s.addresses)
    (hlt : ∀ a, Held s.workers (.getCounters a) ∨ .getCounters a ∈ s.dispatchQueue.flatten → a < s.addresses)
    (hfirst : ∀ dj rest, s.delayedJobs = dj :: rest → job ≠ .getCounters dj.address ∧ dj.workerCounters = none ∧
      ¬ Held s.workers (.getCounters dj.address) ∧ .getCounters dj.address ∉ s.dispatchQueue.flatten)
    (hguarded : s.phase.isWorking = true → ∀ dj ∈ (processJob counters s job).delayedJobs, ∀ d ∈ dj.jobs,
      ∀ m, Before m d (processJob counters s job).log →
        Guarded s.dispatchQueue s.workers (processJob counters s job).log dj m)
    (hidle : s.phase.isWorking = false → ∀ i, (s.workers i).batch = none)
    (hnonempty : ∀ dj ∈ s.delayedJobs, dj.jobs ≠ []) : Inv (processJob counters s job) := by
  have hentries : (∀ dj ∈ (processJob counters s job).delayedJobs, ∀ d ∈ dj.jobs, d < s.delayeds) ∧
      (∀ dj ∈ (processJob counters s job).delayedJobs, dj.address < s.addresses) ∧
      ∀ dj ∈ (processJob counters s job).delayedJobs, dj.jobs ≠ [] := by
    refine ⟨fun dj hdj d hd => ?_, fun dj hdj => ?_, fun dj hdj => ?_⟩ <;>
      obtain ⟨old, hold, haddr, hsame⟩ := mem_processJob hdj
    · exact hjobs old hold d (hsame ▸ hd)
    · exact haddr ▸ haddress old hold
    · exact hsame ▸ hnonempty old hold
  have hhead : ∀ dj rest, (processJob counters s job).delayedJobs = dj :: rest → dj.workerCounters = none ∧
      ¬ Held s.workers (.getCounters dj.address) ∧ .getCounters dj.address ∉ s.dispatchQueue.flatten := by
    intro dj rest heq
    obtain ⟨rest', hlist⟩ := first_processJob heq fun dj rest heq => (hfirst dj rest heq).1
    exact (hfirst dj rest' hlist).2
  obtain ⟨hjobs', haddress', hnonempty'⟩ := hentries
  cases job with
  | normal number =>
      refine ⟨fun m hm => ?_, hjobs', hpending, haddress', hlt, hhead, hguarded, hidle, hnonempty'⟩
      rcases hplaced m ((List.mem_cons.mp hm).resolve_left (by simp)) with hself | hdone | hrest
      · exact .inl (QueuedJob.normal.inj hself ▸ List.mem_cons_self)
      · exact .inl (List.mem_cons_of_mem _ hdone)
      · exact .inr hrest
  | getCounters address =>
      refine ⟨fun m hm => ?_, hjobs', hpending, haddress', hlt, hhead, hguarded, hidle, hnonempty'⟩
      exact (hplaced m hm).resolve_left (by simp)
  | dispatchDelayedJobs =>
      refine ⟨fun m hm => ?_, hjobs', hpending, haddress', hlt, hhead, hguarded, hidle, hnonempty'⟩
      have hold := dispatched_quiet (quiet_dispatchDelayedJobs counters s.delayedJobs) hm
      exact ((hplaced m hold).resolve_left (by simp)).imp (List.mem_append_right _) id

theorem guarded_run {rest : List QueuedJob} (h : Inv s) (hworking : s.phase.isWorking = true)
    (hbatch : (s.workers i).batch = some (job :: rest)) {s' : State n}
    (hs' : s' = { s with workers := Function.update s.workers i ⟨(s.workers i).counter, some rest⟩ }) :
    ∀ dj ∈ (processJob s.counters s' job).delayedJobs, ∀ d ∈ dj.jobs, ∀ m,
      Before m d (processJob s.counters s' job).log →
        Guarded s'.dispatchQueue s'.workers (processJob s.counters s' job).log dj m := by
  subst hs'
  intro dj hdj d hd m hbefore
  cases job with
  | normal number =>
      have hold : Before m d s.log := hbefore.resolve_left fun hadded => by cases hadded.1
      by_cases hself : number = m
      · exact .inl (hself ▸ List.mem_cons_self)
      · have hrun := (h.guarded hworking dj hdj d hd m hold).run hbatch (by simpa using hself)
        exact hrun.log_append [_]
  | getCounters address =>
      have hheld : Held s.workers (.getCounters address) := ⟨i, _, hbatch, List.mem_cons_self⟩
      obtain ⟨old, hold, _, hjobs, rfl⟩ := getCounters_mem hdj
      have hguarded := h.guarded hworking old hold d (hjobs ▸ hd) m hbefore
      exact (hguarded.getCounters (fun _ => rfl) hheld).run hbatch (by simp)
  | dispatchDelayedJobs =>
      have hmem := (prefix_dispatchDelayedJobs s.counters s.delayedJobs).subset hdj
      have hold := (before_quiet (quiet_dispatchDelayedJobs s.counters s.delayedJobs)).mp hbefore
      have hrun := (h.guarded hworking dj hmem d hd m hold).run hbatch (by simp)
      exact hrun.log_append _

theorem inv_run {rest : List QueuedJob} (h : Inv s) (hbatch : (s.workers i).batch = some (job :: rest)) :
    Inv (processJob s.counters
      { s with workers := Function.update s.workers i ⟨(s.workers i).counter, some rest⟩ } job) := by
  have hworking : s.phase.isWorking = true := by
    by_contra hphase
    rw [h.idle (by simpa using hphase) i] at hbatch
    cases hbatch
  refine inv_processJob ?_ h.jobs_lt h.pending_lt h.address_lt ?_ ?_ (fun _ => guarded_run h hworking hbatch rfl)
    (fun hphase => absurd hworking (by simpa using hphase)) h.nonempty
  · intro m hm
    rcases h.placed m hm with hdone | hheld | hqueued
    · exact .inr (.inl hdone)
    · exact (held_run hbatch hheld).imp Eq.symm fun hheld => .inr (.inl hheld)
    · exact .inr (.inr (.inr hqueued))
  · exact fun a ha => h.getCounters_lt a (ha.imp (held_of_run hbatch) id)
  · intro dj rest' heq
    obtain ⟨hnone, hheld, hqueued⟩ := h.first dj rest' heq
    refine ⟨?_, hnone, fun hmem => hheld (held_of_run hbatch hmem), hqueued⟩
    rintro rfl
    exact hheld ⟨i, _, hbatch, List.mem_cons_self⟩

theorem inv_empty {stale : Fin n → Nat} {jobs : List QueuedJob} (h : Inv s) (hphase : s.phase = .joined)
    (hqueue : s.dispatchQueue = (job :: jobs) :: queue) :
    Inv (processJob stale { s with dispatchQueue := jobs :: queue } job) := by
  have hflat : s.dispatchQueue.flatten = job :: (jobs :: queue).flatten := by rw [hqueue]; rfl
  have hstopped : s.phase.isWorking = false := by rw [hphase]; rfl
  refine inv_processJob ?_ h.jobs_lt h.pending_lt h.address_lt ?_ ?_
    (fun hworking => absurd hworking (by simp [hstopped])) h.idle h.nonempty
  · intro m hm
    have hold := h.placed m hm
    rw [hflat, List.mem_cons] at hold
    tauto
  · exact fun a ha => h.getCounters_lt a (ha.imp id fun hmem => hflat ▸ List.mem_cons_of_mem _ hmem)
  · intro dj rest heq
    obtain ⟨hnone, hheld, hqueued⟩ := h.first dj rest heq
    rw [hflat, List.mem_cons, not_or] at hqueued
    exact ⟨Ne.symm hqueued.1, hnone, hheld, hqueued.2⟩

theorem inv_emptied (h : Inv s) (hphase : s.phase = .joined) (hqueue : s.dispatchQueue = [] :: queue) :
    Inv { s with dispatchQueue := queue } := by
  have hflat : s.dispatchQueue.flatten = queue.flatten := by rw [hqueue]; rfl
  refine ⟨?_, h.jobs_lt, h.pending_lt, h.address_lt, ?_, ?_, ?_, h.idle, h.nonempty⟩
  · exact hflat ▸ h.placed
  · exact hflat ▸ h.getCounters_lt
  · exact hflat ▸ h.first
  · intro hworking
    rw [hphase] at hworking
    cases hworking

theorem mem_number {first : Nat} {jobs : List MainJob} (h : job ∈ number first jobs) :
    (∃ k, job = .normal k) ∨ job = .dispatchDelayedJobs := by
  induction jobs generalizing first with
  | nil => exact absurd h List.not_mem_nil
  | cons kind jobs ih =>
      cases kind with
      | normal => exact (List.mem_cons.mp h).elim (fun heq => .inl ⟨first, heq⟩) ih
      | dispatchDelayedJobs => exact (List.mem_cons.mp h).elim .inr ih

theorem mem_dispatchEvents {jobs : List QueuedJob} {e : Event} (h : e ∈ dispatchEvents jobs) :
    ∃ k, e = .dispatched k ∧ .normal k ∈ jobs := by
  obtain ⟨job, hjob, heq⟩ := List.mem_filterMap.mp h
  cases job with
  | normal k => exact ⟨k, (Option.some.inj heq).symm, hjob⟩
  | getCounters | dispatchDelayedJobs => cases heq

theorem inv_dispatch (jobs : List MainJob) (h : Inv s) : Inv (dispatch s jobs) := by
  refine inv_enqueue (slices (number s.normals jobs) _ _) _ _ h ?_ ?_ ?_
  · intro m hm
    obtain ⟨k, heq, hk⟩ := mem_dispatchEvents (List.mem_reverse.mp hm)
    obtain rfl := Event.dispatched.inj heq
    exact mem_flatten_slices.mpr hk
  · intro d hd
    obtain ⟨k, heq, _⟩ := mem_dispatchEvents (List.mem_reverse.mp hd)
    cases heq
  · intro a ha
    rcases mem_number (mem_flatten_slices.mp ha) with ⟨k, heq⟩ | heq <;> cases heq

theorem inv_foldl_processStopped (jobs : List StopJob) (h : Inv s) : Inv (jobs.foldl processStopped s) := by
  induction jobs generalizing s with
  | nil => exact h
  | cons job jobs ih =>
      refine ih ?_
      cases job with
      | normal =>
          exact inv_log [_, _] h (by simp) (by simp) (Nat.le_refl _) h.pending_lt
      | delayed =>
          exact inv_log [_, _] h (by simp) (by simp) (Nat.le_succ _)
            fun d hd => Nat.lt_succ_of_lt (h.pending_lt d hd)

theorem inv_finish {events : List Event} (h : Inv s) (hphase : s.phase = .joined)
    (hquiet : ∀ e ∈ events, e.isQuiet = true) :
    Inv { s with phase := .finished, delayedJobs := [], log := events ++ s.log } where
  placed m hm := (h.placed m (dispatched_quiet hquiet hm)).imp (List.mem_append_right _) id
  jobs_lt := by simp
  pending_lt := h.pending_lt
  address_lt := by simp
  getCounters_lt := h.getCounters_lt
  first dj rest heq := by cases heq
  guarded hworking := by cases hworking
  idle _ := h.idle (by rw [hphase]; rfl)
  nonempty := by simp

theorem quiet_remainingEvents (list : List (DelayedJobs n)) :
    ∀ e ∈ (remainingEvents list).reverse, e.isQuiet = true := by
  intro e he
  obtain ⟨dw, _, hmem⟩ := List.mem_flatMap.mp (List.mem_reverse.mp he)
  rcases List.mem_append.mp hmem with hmem | hmem
  · obtain ⟨d, _, rfl⟩ := List.mem_map.mp hmem
    rfl
  · obtain rfl := List.mem_singleton.mp hmem
    rfl

theorem inv_step (h : Inv s) (label : Label n) : Inv (step s label) := by
  refine step_preserves h fun s' hstep => ?_
  have hpending : ∀ d ∈ s.mainLoopJobs, d < s.delayeds + 1 := fun d hd => Nat.lt_succ_of_lt (h.pending_lt d hd)
  cases hstep with
  | dispatch => exact inv_dispatch _ h
  | addDelayedJob =>
      exact inv_addDelayedJob (inv_log [_] h (by simp) (by simp) (Nat.le_succ _) hpending) (Nat.lt_succ_self _)
  | requestDelayedJob =>
      refine inv_log [_] h (by simp) (by simp) (Nat.le_succ _) fun d hd => ?_
      rcases List.mem_cons.mp hd with rfl | hd
      · exact Nat.lt_succ_self _
      · exact hpending d hd
  | processMainLoopJobs =>
      exact inv_foldl_addDelayedJob _ (inv_log [] h (by simp) (by simp) (Nat.le_refl _) (by simp)) h.pending_lt
  | take hidle hqueue hworking => exact inv_take h hworking hidle hqueue
  | run hbatch => exact inv_run h hbatch
  | finishBatch hbatch => exact inv_count h fun batch heq => Option.some.inj (heq.symm.trans hbatch)
  | wait hidle hworking => exact inv_count h fun batch heq => (by rw [hidle] at heq; cases heq)
  | stop hphase =>
      have hworking : s.phase.isWorking = true := by rw [hphase]; rfl
      refine inv_foldl_processStopped _ ?_
      exact ⟨h.placed, h.jobs_lt, h.pending_lt, h.address_lt, h.getCounters_lt, h.first,
        fun _ => h.guarded hworking, fun hidle => (by cases hidle), h.nonempty⟩
  | join hphase hidle =>
      exact ⟨h.placed, h.jobs_lt, h.pending_lt, h.address_lt, h.getCounters_lt, h.first,
        fun hworking => (by cases hworking), fun _ => hidle, h.nonempty⟩
  | empty hphase hqueue => exact inv_empty h hphase hqueue
  | emptied hphase hqueue => exact inv_emptied h hphase hqueue
  | finish hphase hqueue => exact inv_finish h hphase (quiet_remainingEvents _)

end Steps

end OpcUa.EpochGuards
