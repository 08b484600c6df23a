import Mathlib.Data.List.Count
import OpcUa.EpochGuards

namespace OpcUa.DelayedExecution

open WorkerThreads EpochGuards

variable {n : Nat} {s : State n} {labels : List (Label n)} {label : Label n} {i : Fin n} {job : QueuedJob}
  {counters : Fin n → Nat}

def NoneDue (counters : Fin n → Nat) (list : List (DelayedJobs n)) : Prop :=
  ∀ dj ∈ list.tail, allMoved counters dj = false

/-- If the step calls `dispatchDelayedJobs`, the call finds nothing to do. -/
def Spares (s : State n) : Label n → Prop
  | .run i => ∀ rest, (s.workers i).batch = some (.dispatchDelayedJobs :: rest) → NoneDue s.counters s.delayedJobs
  | .empty stale => s.phase = .joined → ∀ jobs queue, s.dispatchQueue = (.dispatchDelayedJobs :: jobs) :: queue →
      NoneDue stale s.delayedJobs
  | _ => True

/-- Besides, the network layers are stopped with a delayed job only when all
normal jobs have finished, and no call of `UA_Server_addDelayedJob` is pending
at the end. -/
def Meets (s : State n) : Label n → Prop
  | .stop jobs => s.phase = .running → .delayed ∈ jobs → ∀ m, .dispatched m ∈ s.log → .finished m ∈ s.log
  | .finish => s.phase = .joined → s.dispatchQueue = [] → s.mainLoopJobs = []
  | label => Spares s label

section Suffixes

theorem log_processJob (counters : Fin n → Nat) (s : State n) (job : QueuedJob) :
    ∃ events, (processJob counters s job).log = events ++ s.log ∧ (∀ e ∈ events, e.isQuiet = true) := by
  cases job with
  | normal number => exact ⟨[.finished number], rfl, by simp [Event.isQuiet]⟩
  | getCounters => exact ⟨[], rfl, by simp⟩
  | dispatchDelayedJobs => exact ⟨_, rfl, quiet_dispatchDelayedJobs counters s.delayedJobs⟩

theorem log_addDelayedJob (s : State n) (d : Nat) : (addDelayedJob s d).log = s.log := by
  rw [addDelayedJob]
  split
  · rfl
  · split <;> rfl

theorem log_foldl_addDelayedJob (jobs : List Nat) (s : State n) : (jobs.foldl addDelayedJob s).log = s.log := by
  induction jobs generalizing s with
  | nil => rfl
  | cons d jobs ih => rw [List.foldl_cons, ih, log_addDelayedJob]

theorem suffix_foldl_processStopped (jobs : List StopJob) (s : State n) :
    s.log <:+ (jobs.foldl processStopped s).log := by
  induction jobs generalizing s with
  | nil => exact List.suffix_refl _
  | cons job jobs ih =>
      refine List.IsSuffix.trans ?_ (ih (processStopped s job))
      cases job with
      | normal | delayed => exact ⟨[_, _], rfl⟩

theorem suffix_processJob {s' : State n} (hsame : s'.log = s.log) : s.log <:+ (processJob counters s' job).log := by
  obtain ⟨events, hlog, _⟩ := log_processJob counters s' job
  exact ⟨events, by rw [hlog, hsame]⟩

theorem suffix_step (s : State n) (label : Label n) : s.log <:+ (step s label).log := by
  refine step_preserves (P := fun s' => s.log <:+ s'.log) (List.suffix_refl _) fun s' hstep => ?_
  cases hstep with
  | dispatch | finish => exact List.suffix_append _ _
  | addDelayedJob =>
      rw [log_addDelayedJob]
      exact List.suffix_cons _ _
  | requestDelayedJob => exact List.suffix_cons _ _
  | processMainLoopJobs => simp only [log_foldl_addDelayedJob, List.suffix_refl]
  | run => exact suffix_processJob rfl
  | empty => exact suffix_processJob rfl
  | stop => exact suffix_foldl_processStopped _ { s with phase := .stopping }
  | take | finishBatch | wait | join | emptied => exact List.suffix_refl _

theorem suffix_run (labels : List (Label n)) (s : State n) : s.log <:+ (run s labels).log := by
  induction labels generalizing s with
  | nil => exact List.suffix_refl _
  | cons label labels ih => exact (suffix_step s label).trans (ih (step s label))

end Suffixes

section Lateness

theorem dispatchDelayedJobs_none {list : List (DelayedJobs n)} (h : NoneDue counters list) :
    dispatchDelayedJobs counters list = ([], list) := by
  rcases dispatchDelayedJobs_cases counters list with ⟨_, heq⟩ | ⟨beforedw, front, dw, back, rfl, hmoved, _⟩
  · exact heq
  · have hnot := h dw (by simp)
    rw [hmoved] at hnot
    cases hnot

theorem processJob_none (s : State n) (h : NoneDue counters s.delayedJobs) :
    processJob counters s .dispatchDelayedJobs = s := by
  simp only [processJob, dispatchDelayedJobs_none h, List.reverse_nil, List.nil_append]

theorem late_processJob {s' : State n} (hlate : Late s'.log)
    (h : ∀ dj ∈ s'.delayedJobs, allMoved counters dj = true → ∀ d ∈ dj.jobs, ∀ m, Before m d s'.log →
      .finished m ∈ s'.log) : Late (processJob counters s' job).log := by
  cases job with
  | normal number => exact ⟨fun d hd => by simp at hd, hlate⟩
  | getCounters => exact hlate
  | dispatchDelayedJobs =>
      have hquiet := quiet_dispatchDelayedJobs counters s'.delayedJobs
      refine late_append hlate ?_ ?_
      · intro d _ hmem
        simpa [Event.isQuiet] using hquiet _ hmem
      · intro d hmem m hbefore
        rcases mem_dispatchDelayedJobs (List.mem_reverse.mp hmem) with ⟨a, heq⟩ | ⟨dj, hdj, hmoved, e, he, heq⟩
        · cases heq
        · exact h dj hdj hmoved d (Event.executed.inj heq ▸ he) m hbefore

theorem late_run_worker {rest : List QueuedJob} (h : Inv s) (hlate : Late s.log)
    (hbatch : (s.workers i).batch = some (job :: rest)) :
    Late (processJob s.counters
      { s with workers := Function.update s.workers i ⟨(s.workers i).counter, some rest⟩ } job).log := by
  have hworking : s.phase.isWorking = true := by
    by_contra hphase
    rw [h.idle (by simpa using hphase) i] at hbatch
    cases hbatch
  refine late_processJob hlate fun dj hdj hmoved d hd m hbefore => ?_
  exact finished_of_guarded (fun _ => rfl) (h.guarded hworking dj hdj d hd m hbefore) hmoved

theorem late_dispatch (jobs : List MainJob) (hlate : Late s.log) : Late (dispatch s jobs).log := by
  refine late_append hlate ?_ ?_ <;>
    (intro d hmem
     obtain ⟨k, heq, _⟩ := mem_dispatchEvents (List.mem_reverse.mp hmem)
     cases heq)

theorem late_foldl_processStopped (jobs : List StopJob) (hlate : Late s.log)
    (h : .delayed ∈ jobs → ∀ m, .dispatched m ∈ s.log → .finished m ∈ s.log) :
    Late (jobs.foldl processStopped s).log := by
  induction jobs generalizing s with
  | nil => exact hlate
  | cons job jobs ih =>
      cases job with
      | normal =>
          refine ih ⟨fun d hd => by simp at hd, fun d hd => by simp at hd, hlate⟩ fun hmem m hm => ?_
          rcases List.mem_cons.mp hm with hm | hm
          · cases hm
          · rcases List.mem_cons.mp hm with hm | hm
            · exact Event.dispatched.inj hm ▸ List.mem_cons_self
            · exact List.mem_cons_of_mem _ (List.mem_cons_of_mem _ (h (List.mem_cons_of_mem _ hmem) m hm))
      | delayed =>
          have hall := h List.mem_cons_self
          have hdone : ∀ m, .dispatched m ∈ Event.added s.delayeds :: s.log → .finished m ∈ s.log := fun m hm =>
            hall m ((List.mem_cons.mp hm).resolve_left (by simp))
          refine ih ⟨?_, fun d hd => by simp at hd, hlate⟩ fun _ m hm => ?_
          · intro d _ m hbefore
            exact List.mem_cons_of_mem _ (hdone m (dispatched_of_before hbefore))
          · have hold := hdone m ((List.mem_cons.mp hm).resolve_left (by simp))
            exact List.mem_cons_of_mem _ (List.mem_cons_of_mem _ hold)

theorem late_finish (h : Inv s) (hlate : Late s.log) (hphase : s.phase = .joined) (hqueue : s.dispatchQueue = []) :
    Late ((remainingEvents s.delayedJobs).reverse ++ s.log) := by
  have hquiet := quiet_remainingEvents s.delayedJobs
  refine late_append hlate ?_ ?_
  · intro d _ hmem
    simpa [Event.isQuiet] using hquiet _ hmem
  · intro d _ m hbefore
    rcases h.placed m (dispatched_of_before hbefore) with hdone | ⟨i, batch, hbatch, _⟩ | hqueued
    · exact hdone
    · rw [h.idle (by rw [hphase]; rfl) i] at hbatch
      cases hbatch
    · rw [hqueue] at hqueued
      exact absurd hqueued List.not_mem_nil

theorem late_step (h : Inv s) (hlate : Late s.log) (hmeets : Meets s label) : Late (step s label).log := by
  refine step_preserves (P := fun s' => Late s'.log) hlate fun s' hstep => ?_
  cases hstep with
  | dispatch => exact late_dispatch _ hlate
  | addDelayedJob =>
      rw [log_addDelayedJob]
      exact ⟨fun d hd => by simp at hd, hlate⟩
  | requestDelayedJob => exact ⟨fun d hd => by simp at hd, hlate⟩
  | processMainLoopJobs =>
      rw [log_foldl_addDelayedJob]
      exact hlate
  | run hbatch => exact late_run_worker h hlate hbatch
  | stop hphase => exact late_foldl_processStopped _ hlate (hmeets hphase)
  | @empty _ job jobs queue hphase hqueue =>
      cases job with
      | normal number => exact ⟨fun d hd => by simp at hd, hlate⟩
      | getCounters => exact hlate
      | dispatchDelayedJobs =>
          rw [processJob_none { s with dispatchQueue := jobs :: queue } (hmeets hphase jobs queue hqueue)]
          exact hlate
  | finish hphase hqueue => exact late_finish h hlate hphase hqueue
  | take | finishBatch | wait | join | emptied => exact hlate

end Lateness

section Counting

/-- Where the delayed job is: in the history, in the list or on the stack. -/
def total (s : State n) (d : Nat) : Nat :=
  s.log.count (.executed d) + (s.delayedJobs.flatMap (·.jobs)).count d + s.mainLoopJobs.count d

/-- The numbers of the jobs are given out one after the other. -/
structure Numbered (s : State n) : Prop where
  added : ∀ d, s.log.count (.added d) = if d < s.delayeds then 1 else 0
  dispatched : ∀ m, .dispatched m ∈ s.log → m < s.normals

theorem added_iff (h : Numbered s) (d : Nat) : .added d ∈ s.log ↔ d < s.delayeds := by
  rw [← List.count_pos_iff, h.added]
  split <;> simp [*]

theorem numbered_initial (n : Nat) : Numbered (initial n) :=
  ⟨fun d => by simp [initial], fun m hm => absurd hm List.not_mem_nil⟩

theorem numbered_quiet {s' : State n} (events : List Event) (h : Numbered s) (hlog : s'.log = events ++ s.log)
    (hquiet : ∀ e ∈ events, e.isQuiet = true) (hdelayeds : s'.delayeds = s.delayeds)
    (hnormals : s'.normals = s.normals) :
    Numbered s' := by
  constructor
  · intro d
    have hzero : events.count (.added d) = 0 := by
      rw [List.count_eq_zero]
      intro hmem
      simpa [Event.isQuiet] using hquiet _ hmem
    rw [hlog, List.count_append, hzero, Nat.zero_add, h.added, hdelayeds]
  · intro m hm
    rw [hnormals]
    rw [hlog] at hm
    exact h.dispatched m (dispatched_quiet hquiet hm)

theorem numbered_added {s' : State n} (h : Numbered s) (hlog : s'.log = .added s.delayeds :: s.log)
    (hdelayeds : s'.delayeds = s.delayeds + 1) (hnormals : s'.normals = s.normals) : Numbered s' := by
  constructor
  · intro d
    rw [hlog, List.count_cons, h.added, hdelayeds]
    by_cases heq : s.delayeds = d
    · simp [heq]
    · have hne : (Event.added s.delayeds == Event.added d) = false := by simpa using heq
      simp only [hne, Bool.false_eq_true, if_false, Nat.add_zero]
      congr 1
      rw [eq_iff_iff]
      omega
  · intro m hm
    rw [hnormals]
    rw [hlog] at hm
    exact h.dispatched m ((List.mem_cons.mp hm).resolve_left (by simp))

theorem processJob_frame (counters : Fin n → Nat) (s : State n) (job : QueuedJob) :
    (processJob counters s job).delayeds = s.delayeds ∧ (processJob counters s job).normals = s.normals ∧
      (processJob counters s job).mainLoopJobs = s.mainLoopJobs ∧ (processJob counters s job).phase = s.phase := by
  cases job with
  | normal | getCounters | dispatchDelayedJobs => exact ⟨rfl, rfl, rfl, rfl⟩

theorem addDelayedJob_frame (s : State n) (d : Nat) :
    (addDelayedJob s d).delayeds = s.delayeds ∧ (addDelayedJob s d).normals = s.normals ∧
      (addDelayedJob s d).mainLoopJobs = s.mainLoopJobs ∧ (addDelayedJob s d).phase = s.phase := by
  rw [addDelayedJob]
  split
  · exact ⟨rfl, rfl, rfl, rfl⟩
  · split <;> exact ⟨rfl, rfl, rfl, rfl⟩

theorem foldl_addDelayedJob_frame (jobs : List Nat) (s : State n) :
    (jobs.foldl addDelayedJob s).delayeds = s.delayeds ∧ (jobs.foldl addDelayedJob s).normals = s.normals ∧
      (jobs.foldl addDelayedJob s).mainLoopJobs = s.mainLoopJobs ∧ (jobs.foldl addDelayedJob s).phase = s.phase := by
  induction jobs generalizing s with
  | nil => exact ⟨rfl, rfl, rfl, rfl⟩
  | cons d jobs ih =>
      obtain ⟨hdelayeds, hnormals, hpending, hphase⟩ := addDelayedJob_frame s d
      obtain ⟨hdelayeds', hnormals', hpending', hphase'⟩ := ih (addDelayedJob s d)
      exact ⟨hdelayeds'.trans hdelayeds, hnormals'.trans hnormals, hpending'.trans hpending, hphase'.trans hphase⟩

theorem number_lt {first k : Nat} {jobs : List MainJob} (h : .normal k ∈ number first jobs) :
    k < first + jobs.length := by
  induction jobs generalizing first with
  | nil => exact absurd h List.not_mem_nil
  | cons kind jobs ih =>
      rw [List.length_cons]
      cases kind with
      | normal =>
          rcases List.mem_cons.mp h with heq | h
          · obtain rfl := QueuedJob.normal.inj heq
            omega
          · have hlt := ih h
            omega
      | dispatchDelayedJobs =>
          have hlt := ih ((List.mem_cons.mp h).resolve_left (by simp))
          omega

theorem numbered_dispatch (jobs : List MainJob) (h : Numbered s) : Numbered (dispatch s jobs) := by
  constructor
  · intro d
    have hzero : (dispatchEvents (number s.normals jobs)).reverse.count (.added d) = 0 := by
      rw [List.count_eq_zero]
      intro hmem
      obtain ⟨k, heq, _⟩ := mem_dispatchEvents (List.mem_reverse.mp hmem)
      cases heq
    rw [dispatch, List.count_append, hzero, Nat.zero_add, h.added]
  · intro m hm
    rcases List.mem_append.mp hm with hm | hm
    · obtain ⟨k, heq, hk⟩ := mem_dispatchEvents (List.mem_reverse.mp hm)
      exact Event.dispatched.inj heq ▸ number_lt hk
    · exact Nat.lt_of_lt_of_le (h.dispatched m hm) (Nat.le_add_right _ _)

theorem numbered_foldl_processStopped (jobs : List StopJob) (h : Numbered s) :
    Numbered (jobs.foldl processStopped s) := by
  induction jobs generalizing s with
  | nil => exact h
  | cons job jobs ih =>
      refine ih ?_
      cases job with
      | normal =>
          constructor
          · intro d
            rw [processStopped, List.count_cons_of_ne (by simp), List.count_cons_of_ne (by simp), h.added]
          · intro m hm
            rcases List.mem_cons.mp ((List.mem_cons.mp hm).resolve_left (by simp)) with heq | hm
            · exact Event.dispatched.inj heq ▸ Nat.lt_succ_self _
            · exact Nat.lt_succ_of_lt (h.dispatched m hm)
      | delayed =>
          have hadded : Numbered { s with log := .added s.delayeds :: s.log, delayeds := s.delayeds + 1 } :=
            numbered_added h rfl rfl rfl
          exact numbered_quiet [.executed s.delayeds] hadded rfl (by simp [Event.isQuiet]) rfl rfl

theorem numbered_processJob (counters : Fin n → Nat) (job : QueuedJob) (h : Numbered s) :
    Numbered (processJob counters s job) := by
  obtain ⟨events, hlog, hquiet⟩ := log_processJob counters s job
  obtain ⟨hdelayeds, hnormals, _, _⟩ := processJob_frame counters s job
  exact numbered_quiet events h hlog hquiet hdelayeds hnormals

theorem numbered_step (h : Numbered s) (label : Label n) : Numbered (step s label) := by
  have hsame {s' : State n} (hlog : s'.log = s.log) (hdelayeds : s'.delayeds = s.delayeds)
      (hnormals : s'.normals = s.normals) : Numbered s' :=
    numbered_quiet [] h hlog (by simp) hdelayeds hnormals
  refine step_preserves h fun s' hstep => ?_
  cases hstep with
  | dispatch => exact numbered_dispatch _ h
  | addDelayedJob =>
      obtain ⟨hdelayeds, hnormals, _, _⟩ := addDelayedJob_frame
        { s with log := .added s.delayeds :: s.log, delayeds := s.delayeds + 1 } s.delayeds
      exact numbered_added h (log_addDelayedJob _ _) hdelayeds hnormals
  | requestDelayedJob => exact numbered_added h rfl rfl rfl
  | processMainLoopJobs =>
      obtain ⟨hdelayeds, hnormals, _, _⟩ := foldl_addDelayedJob_frame s.mainLoopJobs { s with mainLoopJobs := [] }
      exact hsame (log_foldl_addDelayedJob _ _) hdelayeds hnormals
  | run => exact numbered_processJob _ _ (hsame rfl rfl rfl)
  | empty => exact numbered_processJob _ _ (hsame rfl rfl rfl)
  | stop => exact numbered_foldl_processStopped _ (hsame rfl rfl rfl)
  | finish => exact numbered_quiet _ h rfl (quiet_remainingEvents _) rfl rfl
  | take | finishBatch | wait | join | emptied => exact hsame rfl rfl rfl

theorem total_addDelayedJob (s : State n) (d e : Nat) :
    total (addDelayedJob s d) e = total s e + if d = e then 1 else 0 := by
  have hnew : total (newDelayedJobs s d) e = total s e + if d = e then 1 else 0 := by
    simp only [total, newDelayedJobs, List.flatMap_cons, List.count_append, List.count_cons, List.count_nil, beq_iff_eq]
    omega
  rw [addDelayedJob]
  split
  · exact hnew
  · next dj next heq =>
      split
      · exact hnew
      · simp only [total, heq, List.flatMap_cons, List.count_append, List.count_cons, List.count_nil, beq_iff_eq]
        omega

theorem total_foldl_addDelayedJob (jobs : List Nat) (s : State n) (e : Nat) :
    total (jobs.foldl addDelayedJob s) e = total s e + jobs.count e := by
  induction jobs generalizing s with
  | nil => rfl
  | cons d jobs ih =>
      rw [List.foldl_cons, ih, total_addDelayedJob, List.count_cons]
      simp only [beq_iff_eq]
      omega

theorem flatMap_getCounters (counters : Fin n → Nat) (address : Nat) (list : List (DelayedJobs n)) :
    (getCounters counters address list).flatMap (·.jobs) = list.flatMap (·.jobs) := by
  rw [getCounters, List.flatMap_map]
  congr 1
  funext dj
  split <;> rfl

theorem total_processJob (s : State n) (d : Nat) (h : job = .dispatchDelayedJobs → NoneDue counters s.delayedJobs) :
    total (processJob counters s job) d = total s d := by
  cases job with
  | normal number =>
      simp only [total, processJob, List.count_cons_of_ne (by simp : Event.finished number ≠ .executed d)]
  | getCounters => simp only [total, processJob, flatMap_getCounters]
  | dispatchDelayedJobs => rw [processJob_none s (h rfl)]

theorem count_remainingEvents (list : List (DelayedJobs n)) (d : Nat) :
    (remainingEvents list).reverse.count (.executed d) = (list.flatMap (·.jobs)).count d := by
  rw [(List.reverse_perm _).count_eq]
  induction list with
  | nil => rfl
  | cons dw list ih =>
      have hjobs : (dw.jobs.map Event.executed).count (.executed d) = dw.jobs.count d :=
        List.count_map_of_injective _ _ (fun _ _ => Event.executed.inj) d
      rw [remainingEvents, List.flatMap_cons] at *
      rw [List.flatMap_cons, List.count_append, List.count_append, List.count_append, hjobs, ih,
        List.count_singleton]
      simp

def Accounted (s : State n) : Prop := ∀ d, total s d = s.log.count (.added d)

theorem accounted_foldl_processStopped (jobs : List StopJob) (h : Accounted s) :
    Accounted (jobs.foldl processStopped s) := by
  induction jobs generalizing s with
  | nil => exact h
  | cons job jobs ih =>
      refine ih fun d => ?_
      have hold := h d
      cases job with
      | normal =>
          simp only [total, processStopped, List.count_cons] at hold ⊢
          simpa using hold
      | delayed =>
          simp only [total, processStopped, List.count_cons, beq_iff_eq, Event.executed.injEq, Event.added.injEq,
            reduceCtorEq, if_false] at hold ⊢
          omega

theorem accounted_processJob (h : Accounted s) (hnone : job = .dispatchDelayedJobs → NoneDue counters s.delayedJobs) :
    Accounted (processJob counters s job) := by
  intro d
  obtain ⟨events, hlog, hquiet⟩ := log_processJob counters s job
  have hzero : events.count (.added d) = 0 :=
    List.count_eq_zero.mpr fun hmem => by simpa [Event.isQuiet] using hquiet _ hmem
  rw [total_processJob s d hnone, hlog, List.count_append, hzero, Nat.zero_add]
  exact h d

theorem accounted_dispatch (jobs : List MainJob) (h : Accounted s) : Accounted (dispatch s jobs) := by
  intro d
  have hevents (e : Event) (hne : ∀ k, e ≠ .dispatched k) :
      (dispatchEvents (number s.normals jobs)).reverse.count e = 0 := by
    rw [List.count_eq_zero]
    intro hmem
    obtain ⟨k, heq, _⟩ := mem_dispatchEvents (List.mem_reverse.mp hmem)
    exact hne k heq
  have hold := h d
  simp only [total, dispatch, List.count_append, hevents (.executed d) (by simp), hevents (.added d) (by simp),
    Nat.zero_add] at hold ⊢
  exact hold

theorem accounted_finish (h : Accounted s) : Accounted
    { s with phase := .finished, delayedJobs := [], log := (remainingEvents s.delayedJobs).reverse ++ s.log } := by
  intro d
  have hold := h d
  have hzero : (remainingEvents s.delayedJobs).reverse.count (.added d) = 0 :=
    List.count_eq_zero.mpr fun hmem => by simpa [Event.isQuiet] using quiet_remainingEvents _ _ hmem
  simp only [total, List.count_append, count_remainingEvents, hzero, List.flatMap_nil, List.count_nil] at hold ⊢
  omega

theorem accounted_step (h : Accounted s) (hspares : Spares s label) : Accounted (step s label) := by
  refine step_preserves h fun s' hstep => ?_
  cases hstep with
  | dispatch => exact accounted_dispatch _ h
  | addDelayedJob =>
      intro d
      have hold := h d
      rw [total_addDelayedJob, log_addDelayedJob]
      simp only [total, List.count_cons, beq_iff_eq, Event.added.injEq, reduceCtorEq, if_false,
        Nat.add_zero] at hold ⊢
      omega
  | requestDelayedJob =>
      intro d
      have hold := h d
      simp only [total, List.count_cons, beq_iff_eq, Event.added.injEq, reduceCtorEq, if_false,
        Nat.add_zero] at hold ⊢
      omega
  | processMainLoopJobs =>
      intro d
      have hold := h d
      rw [total_foldl_addDelayedJob, log_foldl_addDelayedJob]
      simp only [total, List.count_nil, Nat.add_zero] at hold ⊢
      exact hold
  | @run i _ rest hbatch =>
      exact accounted_processJob
        (s := { s with workers := Function.update s.workers i ⟨(s.workers i).counter, some rest⟩ }) h
        fun heq => hspares rest (heq ▸ hbatch)
  | @empty _ _ jobs queue hphase hqueue =>
      exact accounted_processJob (s := { s with dispatchQueue := jobs :: queue }) h
        fun heq => hspares hphase jobs queue (heq ▸ hqueue)
  | stop => exact accounted_foldl_processStopped _ h
  | finish => exact accounted_finish h
  | take | finishBatch | wait | join | emptied => exact h

end Counting

section Ends

theorem step_finished (h : Inv s) (hphase : s.phase = .finished) (label : Label n) : step s label = s := by
  have hidle := h.idle (by rw [hphase]; rfl)
  refine (step_cases s label).resolve_right fun hstep => ?_
  generalize step s label = s' at hstep
  cases hstep with
  | dispatch hother | addDelayedJob hother | processMainLoopJobs hother | stop hother | join hother | empty hother
  | emptied hother | finish hother => cases hother.symm.trans hphase
  | requestDelayedJob hopen => exact hopen hphase
  | take _ _ hworking | wait _ hworking =>
      rw [hphase] at hworking
      cases hworking
  | run hbatch | finishBatch hbatch =>
      rw [hidle] at hbatch
      cases hbatch

theorem run_finished (h : Inv s) (hphase : s.phase = .finished) (labels : List (Label n)) : run s labels = s := by
  induction labels with
  | nil => rfl
  | cons label labels ih => rw [run, List.foldl_cons, step_finished h hphase label]; exact ih

theorem phase_foldl_processStopped (jobs : List StopJob) (s : State n) :
    (jobs.foldl processStopped s).phase = s.phase := by
  induction jobs generalizing s with
  | nil => rfl
  | cons job jobs ih =>
      rw [List.foldl_cons, ih]
      cases job with
      | normal | delayed => rfl

theorem phase_step (s : State n) (label : Label n) : (step s label).phase = s.phase ∨
    s.phase = .running ∧ (step s label).phase = .stopping ∨ s.phase = .stopping ∧ (step s label).phase = .joined ∨
    label = .finish ∧ s.phase = .joined := by
  refine step_preserves (P := fun s' => s'.phase = s.phase ∨ s.phase = .running ∧ s'.phase = .stopping ∨
    s.phase = .stopping ∧ s'.phase = .joined ∨ label = .finish ∧ s.phase = .joined) (.inl rfl) fun s' hstep => ?_
  cases hstep with
  | addDelayedJob => exact .inl (addDelayedJob_frame _ _).2.2.2
  | processMainLoopJobs => exact .inl (foldl_addDelayedJob_frame _ _).2.2.2
  | run => exact .inl (processJob_frame _ _ _).2.2.2
  | empty => exact .inl (processJob_frame _ _ _).2.2.2
  | stop hphase => exact .inr (.inl ⟨hphase, phase_foldl_processStopped _ _⟩)
  | join hphase => exact .inr (.inr (.inl ⟨hphase, rfl⟩))
  | finish hphase => exact .inr (.inr (.inr ⟨rfl, hphase⟩))
  | dispatch | requestDelayedJob | take | finishBatch | wait | emptied => exact .inl rfl

theorem running_of_step (h : (step s label).phase = .running) : s.phase = .running := by
  rcases phase_step s label with heq | ⟨_, heq⟩ | ⟨_, heq⟩ | ⟨rfl, hphase⟩
  · exact heq ▸ h
  · rw [heq] at h
    cases h
  · rw [heq] at h
    cases h
  · rw [step] at h
    split at h
    · cases h
    · exact h

/-- While the server runs, the steps that the condition is about on its way
down do not happen. -/
theorem late_of_running (hinv : Inv s) (hlate : Late s.log) (h : (step s label).phase = .running) :
    Late (step s label).log := by
  have hphase := running_of_step h
  cases label with
  | dispatch | addDelayedJob | requestDelayedJob | processMainLoopJobs | take | finishBatch | wait | join =>
      exact late_step hinv hlate trivial
  | run i =>
      rw [step]
      split
      · next hbatch => exact late_run_worker hinv hlate hbatch
      · exact hlate
  | stop jobs =>
      rw [step, if_pos hphase, phase_foldl_processStopped] at h
      cases h
  | empty | finish =>
      simp only [step, hphase]
      simpa using hlate

theorem executed_twice {list : List (DelayedJobs n)} (hnonempty : ∀ dj ∈ list, dj.jobs ≠ [])
    (h : ¬ NoneDue counters list) :
    ∃ dj ∈ list, ∃ d ∈ dj.jobs, 2 ≤ (dispatchDelayedJobs counters list).1.count (.executed d) := by
  rcases dispatchDelayedJobs_cases counters list with ⟨hnone, _⟩ | ⟨beforedw, front, dw, back, hlist, _, heq⟩
  · exact absurd hnone h
  · have hdw : dw ∈ list := by
      rw [hlist]
      simp
    obtain ⟨d, hd⟩ := List.exists_mem_of_ne_nil _ (hnonempty dw hdw)
    have hcount : 1 ≤ (dw.jobs.map Event.executed).count (.executed d) :=
      List.count_pos_iff.mpr (List.mem_map_of_mem hd)
    refine ⟨dw, hdw, d, hd, ?_⟩
    rw [heq]
    simp only [List.count_append, List.count_cons]
    omega

theorem late_running (labels : List (Label n)) (hinv : Inv s) (hlate : Late s.log)
    (h : (run s labels).phase = .running) : Late (run s labels).log := by
  have hstart : ∀ (labels : List (Label n)) {s : State n}, (run s labels).phase = .running → s.phase = .running := by
    intro labels
    induction labels with
    | nil => exact fun h => h
    | cons label labels ih => exact fun h => running_of_step (ih h)
  induction labels generalizing s with
  | nil => exact hlate
  | cons label labels ih =>
      exact ih (inv_step hinv label) (late_of_running hinv hlate (hstart labels h)) h

def Obeys (s : State n) : List (Label n) → Prop
  | [] => True
  | label :: labels => Meets s label ∧ Obeys (step s label) labels

theorem obeys_iff : Obeys s labels ↔
    ∀ before label after, labels = before ++ label :: after → Meets (run s before) label := by
  induction labels generalizing s with
  | nil => simp [Obeys]
  | cons first rest ih =>
      rw [Obeys, ih]
      constructor
      · rintro ⟨hfirst, hrest⟩ before label after heq
        cases before with
        | nil =>
            obtain ⟨rfl, _⟩ := List.cons.inj heq
            exact hfirst
        | cons _ before =>
            obtain ⟨rfl, rfl⟩ := List.cons.inj heq
            exact hrest before label after rfl
      · intro h
        refine ⟨h [] first rest rfl, fun before label after heq => ?_⟩
        exact h (first :: before) label after (by rw [heq, List.cons_append])

theorem spares_of_meets (h : Meets s label) : Spares s label := by
  cases label with
  | stop | finish => trivial
  | dispatch | addDelayedJob | requestDelayedJob | processMainLoopJobs | take | run | finishBatch | wait | join
  | empty => exact h

def Emptied (s : State n) : Prop := s.phase = .finished → s.delayedJobs = [] ∧ s.mainLoopJobs = []

theorem emptied_step (hinv : Inv s) (h : Emptied s) (hmeets : Meets s label) : Emptied (step s label) := by
  intro hfinished
  rcases phase_step s label with heq | ⟨_, heq⟩ | ⟨_, heq⟩ | ⟨rfl, hphase⟩
  · have hphase := heq ▸ hfinished
    rw [step_finished hinv hphase]
    exact h hphase
  · rw [heq] at hfinished
    cases hfinished
  · rw [heq] at hfinished
    cases hfinished
  · rw [step] at hfinished ⊢
    split at hfinished
    · next hjoined =>
        rw [if_pos hjoined]
        exact ⟨rfl, hmeets hphase hjoined.2⟩
    · rw [hphase] at hfinished
      cases hfinished

/-- A run whose steps meet the condition executes every delayed job once, and
late enough. -/
theorem once_of_obeys (hinv : Inv s) (hnumbered : Numbered s) (haccounted : Accounted s) (hlate : Late s.log)
    (hemptied : Emptied s) (h : Obeys s labels) (hphase : (run s labels).phase = .finished) :
    ExactlyOnce (run s labels).log ∧ Late (run s labels).log := by
  induction labels generalizing s with
  | nil =>
      refine ⟨fun d hd => ?_, hlate⟩
      obtain ⟨hlist, hpending⟩ := hemptied hphase
      have hone : s.log.count (.added d) = 1 := by rw [hnumbered.added, if_pos ((added_iff hnumbered d).mp hd)]
      have htotal := haccounted d
      rw [total, hlist, hpending, hone, List.flatMap_nil, List.count_nil] at htotal
      exact htotal
  | cons label labels ih =>
      exact ih (inv_step hinv label) (numbered_step hnumbered label) (accounted_step haccounted (spares_of_meets h.1))
        (late_step hinv hlate h.1) (emptied_step hinv hemptied h.1) h.2 hphase

theorem not_late_of_stopped {jobs : List StopJob} (hnumbered : Numbered s) (hdelayed : .delayed ∈ jobs)
    (h : Late (jobs.foldl processStopped s).log) : ∀ m, .dispatched m ∈ s.log → .finished m ∈ s.log := by
  induction jobs generalizing s with
  | nil => exact absurd hdelayed List.not_mem_nil
  | cons job jobs ih =>
      cases job with
      | normal =>
          have hnormal : Numbered (processStopped s .normal) := numbered_foldl_processStopped [.normal] hnumbered
          intro m hm
          have hlater := ih hnormal ((List.mem_cons.mp hdelayed).resolve_left (by simp)) h m
            (List.mem_cons_of_mem _ (List.mem_cons_of_mem _ hm))
          rcases List.mem_cons.mp hlater with heq | hlater
          · obtain rfl := Event.finished.inj heq
            exact absurd (hnumbered.dispatched _ hm) (Nat.lt_irrefl _)
          · exact (List.mem_cons.mp hlater).resolve_left (by simp)
      | delayed =>
          intro m hm
          have hhere := (late_of_suffix (suffix_foldl_processStopped jobs (processStopped s .delayed)) h).1
          have hdone := hhere s.delayeds rfl m (.inl ⟨rfl, hm⟩)
          exact (List.mem_cons.mp hdone).resolve_left (by simp)

theorem spares_of_once {log : List Event} (hinv : Inv s) (hnumbered : Numbered s)
    (hsuffix : (step s label).log <:+ log) (h : ExactlyOnce log) : Spares s label := by
  -- a job that is executed twice in the step has been executed twice at the end
  have htwice {counters : Fin n → Nat} (s' : State n) (hlist : s'.delayedJobs = s.delayedJobs) (hlog : s'.log = s.log)
      (hstep : step s label = processJob counters s' .dispatchDelayedJobs) : NoneDue counters s.delayedJobs := by
    by_contra hdue
    obtain ⟨dj, hdj, d, hd, hcount⟩ := executed_twice hinv.nonempty hdue
    have hadded : .added d ∈ log := by
      refine hsuffix.subset ((suffix_step s label).subset ?_)
      exact (added_iff hnumbered d).mpr (hinv.jobs_lt dj hdj d hd)
    have hone := h d hadded
    have hle : (step s label).log.count (.executed d) ≤ log.count (.executed d) := hsuffix.sublist.count_le _
    rw [hstep, processJob, hlist] at hle
    simp only [List.count_append, (List.reverse_perm _).count_eq] at hle
    omega
  cases label with
  | run i =>
      intro rest hbatch
      refine htwice { s with workers := Function.update s.workers i ⟨(s.workers i).counter, some rest⟩ } rfl rfl ?_
      rw [step, hbatch]
  | empty stale =>
      intro hphase jobs queue hqueue
      refine htwice { s with dispatchQueue := jobs :: queue } rfl rfl ?_
      rw [step, if_pos hphase, hqueue]
  | dispatch | addDelayedJob | requestDelayedJob | processMainLoopJobs | take | finishBatch | wait | stop | join
  | finish => trivial

theorem obeys_of_once (hinv : Inv s) (hnumbered : Numbered s) (haccounted : Accounted s)
    (honce : ExactlyOnce (run s labels).log) (hlate : Late (run s labels).log) : Obeys s labels := by
  induction labels generalizing s with
  | nil => trivial
  | cons label labels ih =>
      have hsuffix : (step s label).log <:+ (run (step s label) labels).log := suffix_run labels (step s label)
      have hspares : Spares s label := spares_of_once hinv hnumbered hsuffix honce
      have haccounted' := accounted_step haccounted hspares
      refine ⟨?_, ih (inv_step hinv label) (numbered_step hnumbered label) haccounted' honce hlate⟩
      cases label with
      | stop jobs =>
          intro hphase hdelayed
          have hstep := late_of_suffix hsuffix hlate
          rw [step, if_pos hphase] at hstep
          exact not_late_of_stopped (s := { s with phase := .stopping }) ⟨hnumbered.added, hnumbered.dispatched⟩
            hdelayed hstep
      | finish =>
          intro hphase hqueue
          have hfinished : (step s .finish).phase = .finished := by rw [step, if_pos ⟨hphase, hqueue⟩]
          have hend := run_finished (inv_step hinv .finish) hfinished labels
          rw [List.eq_nil_iff_forall_not_mem]
          intro d hd
          have hadded : .added d ∈ (step s .finish).log :=
            (suffix_step s .finish).subset ((added_iff hnumbered d).mpr (hinv.pending_lt d hd))
          have honce' : ExactlyOnce (run (step s .finish) labels).log := honce
          rw [hend] at honce'
          have hcount : (step s .finish).log.count (.added d) = 1 := by
            have hnumbered' := numbered_step hnumbered .finish
            rw [hnumbered'.added, if_pos ((added_iff hnumbered' d).mp hadded)]
          have htotal := haccounted' d
          have hpending : 0 < (step s .finish).mainLoopJobs.count d := by
            rw [step, if_pos ⟨hphase, hqueue⟩]
            exact List.count_pos_iff.mpr hd
          rw [total, honce' d hadded, hcount] at htotal
          omega
      | dispatch | addDelayedJob | requestDelayedJob | processMainLoopJobs | take | run | finishBatch | wait | join
      | empty => exact hspares

/-- Delayed jobs are late enough while the server runs. Over a whole run they
are, and each is executed once, just when every step meets the condition. -/
theorem delayedJobs_once_iff (n : Nat) (labels : List (Label n)) :
    ((run (initial n) labels).phase = .running → Late (run (initial n) labels).log) ∧
    ((run (initial n) labels).phase = .finished →
      (ExactlyOnce (run (initial n) labels).log ∧ Late (run (initial n) labels).log ↔
        ∀ before label after, labels = before ++ label :: after → Meets (run (initial n) before) label)) := by
  have haccounted : Accounted (initial n) := fun d => rfl
  refine ⟨late_running labels (inv_initial n) trivial, fun hphase => ?_⟩
  rw [← obeys_iff]
  constructor
  · rintro ⟨honce, hlate⟩
    exact obeys_of_once (inv_initial n) (numbered_initial n) haccounted honce hlate
  · intro h
    exact once_of_obeys (inv_initial n) (numbered_initial n) haccounted trivial (fun hend => by cases hend) h hphase

theorem noneDue_of_short (counters : Fin n → Nat) {list : List (DelayedJobs n)} (h : list.length ≤ 1) :
    NoneDue counters list := by
  intro dj hdj
  cases list with
  | nil => cases hdj
  | cons first rest =>
      obtain rfl : rest = [] := List.length_eq_zero_iff.mp (Nat.le_zero.mp (Nat.le_of_succ_le_succ h))
      cases hdj

/-- Two workers, a delayed job of the main loop and one that is asked for. The
delayed jobs are looked for twice, and their entry is still the first one. -/
def quietRun : List (Label 2) :=
  [.dispatch [.normal, .dispatchDelayedJobs], .addDelayedJob, .requestDelayedJob, .take 0, .run 0, .run 0,
    .finishBatch 0, .processMainLoopJobs, .dispatch [.dispatchDelayedJobs], .take 1, .run 1, .finishBatch 1, .stop [],
    .join, .finish]

theorem quietRun_once : ExactlyOnce (run (initial 2) quietRun).log ∧ Late (run (initial 2) quietRun).log := by
  refine ((delayedJobs_once_iff 2 quietRun).2 (by decide +kernel)).mpr ?_
  rw [← obeys_iff]
  refine ⟨trivial, trivial, trivial, trivial, ?_, ?_, trivial, trivial, trivial, trivial, ?_, trivial, ?_, trivial, ?_,
    trivial⟩
  · exact fun _ _ => noneDue_of_short _ (by decide +kernel)
  · exact fun _ _ => noneDue_of_short _ (by decide +kernel)
  · exact fun _ _ => noneDue_of_short _ (by decide +kernel)
  · exact fun _ hmem => absurd hmem List.not_mem_nil
  · exact fun _ _ => by decide +kernel

/-- A full entry whose counters have moved is found by `dispatchDelayedJobs`. -/
def fullRun : List (Label 1) :=
  List.replicate 101 .addDelayedJob ++ [.take 0, .run 0, .finishBatch 0, .dispatch [.dispatchDelayedJobs], .take 0,
    .run 0, .finishBatch 0, .stop [], .join, .finish]

/-- Its jobs are executed twice, and the entry is freed twice. -/
theorem fullRun_not_once : (run (initial 1) fullRun).phase = .finished ∧
    (run (initial 1) fullRun).log.count (.executed 0) = 2 ∧ (run (initial 1) fullRun).log.count (.freed 0) = 2 ∧
    ¬ (ExactlyOnce (run (initial 1) fullRun).log ∧ Late (run (initial 1) fullRun).log) := by
  have htwice : (run (initial 1) fullRun).log.count (.executed 0) = 2 := by decide +kernel
  refine ⟨by decide +kernel, htwice, by decide +kernel, fun ⟨honce, _⟩ => ?_⟩
  have hone := honce 0 (by decide +kernel)
  omega

end Ends

end OpcUa.DelayedExecution
