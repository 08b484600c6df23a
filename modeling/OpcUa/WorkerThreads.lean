import Mathlib.Logic.Function.Basic
import OpcUa.Dispatching

namespace OpcUa.WorkerThreads

open Dispatching

variable {n : Nat}

/-- A job in the dispatch queue. The normal jobs are numbered, an entry of
the list of delayed jobs is named by its address. -/
inductive QueuedJob
  | normal (number : Nat)
  | getCounters (delayed : Nat)
  | dispatchDelayedJobs
deriving DecidableEq, Repr

/-- `*server->workerCounters[i]` and what the worker still has to do of the
batch that it has taken. -/
structure Worker where
  counter : Nat
  batch : Option (List QueuedJob)

/-- `struct DelayedJobs`. The counters are NULL until `getCounters` has run. -/
structure DelayedJobs (n : Nat) where
  address : Nat
  workerCounters : Option (Fin n → Nat)
  jobs : List Nat

inductive Event
  | dispatched (normal : Nat)
  | finished (normal : Nat)
  | added (delayed : Nat)
  | executed (delayed : Nat)
  | freed (address : Nat)
deriving DecidableEq, Repr

/-- An event that adds no delayed job and dispatches no normal one. -/
def Event.isQuiet : Event → Bool
  | .dispatched _ | .added _ => false
  | .finished _ | .executed _ | .freed _ => true

inductive Phase
  | running
  | stopping
  | joined
  | finished
deriving DecidableEq, Repr

/-- The server with its `n` worker threads. `mainLoopJobs` holds the pending
calls of `addDelayedJobAsync`. The log is a history, the last event first. -/
structure State (n : Nat) where
  phase : Phase
  dispatchQueue : List (List QueuedJob)
  workers : Fin n → Worker
  mainLoopJobs : List Nat
  delayedJobs : List (DelayedJobs n)
  log : List Event
  normals : Nat
  delayeds : Nat
  addresses : Nat

def initial (n : Nat) : State n := ⟨.running, [], fun _ => ⟨0, none⟩, [], [], [], 0, 0, 0⟩

def State.counters (s : State n) (i : Fin n) : Nat := (s.workers i).counter

section Functions

/-- `getCounters`: `counters` is what it reads from the workers. -/
def getCounters (counters : Fin n → Nat) (address : Nat) (list : List (DelayedJobs n)) : List (DelayedJobs n) :=
  list.map fun dj => if dj.address = address then { dj with workerCounters := some counters } else dj

def delayedJobsSize : Nat := 100

/-- The first half of `addDelayedJob`: a new entry, and `getCounters` for the
full list that comes afterwards. -/
def newDelayedJobs (s : State n) (job : Nat) : State n :=
  { s with
    delayedJobs := ⟨s.addresses, none, [job]⟩ :: s.delayedJobs
    addresses := s.addresses + 1
    dispatchQueue := match s.delayedJobs with
      | [] => s.dispatchQueue
      | next :: _ => dispatchJobs s.dispatchQueue [.getCounters next.address] }

def addDelayedJob (s : State n) (job : Nat) : State n :=
  match s.delayedJobs with
  | [] => newDelayedJobs s job
  | dj :: next =>
      if dj.jobs.length ≥ delayedJobsSize then newDelayedJobs s job
      else { s with delayedJobs := { dj with jobs := dj.jobs ++ [job] } :: next }

/-- The counters of the entry have been set and have moved. -/
def allMoved (counters : Fin n → Nat) (dj : DelayedJobs n) : Bool :=
  match dj.workerCounters with
  | none => false
  | some workerCounters => decide (∀ i, workerCounters i ≠ counters i)

/-- The second loop of `dispatchDelayedJobs`. `next` is what `beforedw->next`
points to: the exchange returns it and leaves NULL there. The content of a
freed entry is still read as it was. The fuel bounds the rounds. -/
def processFrom : Nat → List (DelayedJobs n) → List (DelayedJobs n) → List Event
  | 0, _, _ => []
  | _ + 1, [], _ => []
  | fuel + 1, dw :: _, next => dw.jobs.map .executed ++ .freed dw.address :: processFrom fuel next []

/-- `dispatchDelayedJobs`: what happens, and the list that is left. The search
starts at the second entry. -/
def dispatchDelayedJobs (counters : Fin n → Nat) : List (DelayedJobs n) → List Event × List (DelayedJobs n)
  | [] => ([], [])
  | beforedw :: rest =>
      let dw := rest.dropWhile (fun dj => !allMoved counters dj)
      (processFrom 3 dw dw, beforedw :: rest.takeWhile (fun dj => !allMoved counters dj))

/-- A job of a batch, executed by a thread that reads `counters`. -/
def processJob (counters : Fin n → Nat) (s : State n) : QueuedJob → State n
  | .normal number => { s with log := .finished number :: s.log }
  | .getCounters delayed => { s with delayedJobs := getCounters counters delayed s.delayedJobs }
  | .dispatchDelayedJobs =>
      let (events, left) := dispatchDelayedJobs counters s.delayedJobs
      { s with delayedJobs := left, log := events.reverse ++ s.log }

inductive MainJob
  | normal
  | dispatchDelayedJobs
deriving DecidableEq, Repr

def number : Nat → List MainJob → List QueuedJob
  | _, [] => []
  | first, .normal :: rest => .normal first :: number (first + 1) rest
  | first, .dispatchDelayedJobs :: rest => .dispatchDelayedJobs :: number first rest

def dispatchEvents (jobs : List QueuedJob) : List Event :=
  jobs.filterMap fun job => match job with
    | .normal number => some (.dispatched number)
    | _ => none

def dispatch (s : State n) (jobs : List MainJob) : State n :=
  let queued := number s.normals jobs
  { s with
    dispatchQueue := dispatchJobs s.dispatchQueue queued
    log := (dispatchEvents queued).reverse ++ s.log
    normals := s.normals + jobs.length }

/-- A job that a network layer returns when it is stopped. -/
inductive StopJob
  | normal
  | delayed
deriving DecidableEq, Repr

/-- `UA_Server_run_shutdown` executes these jobs at once, those for delayed
execution too. -/
def processStopped (s : State n) : StopJob → State n
  | .normal => { s with log := .finished s.normals :: .dispatched s.normals :: s.log, normals := s.normals + 1 }
  | .delayed => { s with log := .executed s.delayeds :: .added s.delayeds :: s.log, delayeds := s.delayeds + 1 }

/-- The last loop of `UA_Server_run_shutdown`. -/
def remainingEvents (list : List (DelayedJobs n)) : List Event :=
  list.flatMap fun dw => dw.jobs.map .executed ++ [.freed dw.address]

end Functions

inductive Label (n : Nat)
  | dispatch (jobs : List MainJob)
  | addDelayedJob
  | requestDelayedJob
  | processMainLoopJobs
  | take (i : Fin n)
  | run (i : Fin n)
  | finishBatch (i : Fin n)
  | wait (i : Fin n)
  | stop (jobs : List StopJob)
  | join
  | empty (stale : Fin n → Nat)
  | finish

def Phase.isWorking : Phase → Bool
  | .running | .stopping => true
  | .joined | .finished => false

def step (s : State n) : Label n → State n
  | .dispatch jobs => if s.phase = .running then dispatch s jobs else s
  | .addDelayedJob =>
      if s.phase = .running then
        addDelayedJob { s with log := .added s.delayeds :: s.log, delayeds := s.delayeds + 1 } s.delayeds
      else s
  -- `UA_Server_addDelayedJob`, in any thread
  | .requestDelayedJob =>
      if s.phase = .finished then s
      else { s with
        mainLoopJobs := s.delayeds :: s.mainLoopJobs
        log := .added s.delayeds :: s.log
        delayeds := s.delayeds + 1 }
  | .processMainLoopJobs =>
      if s.phase = .running then s.mainLoopJobs.foldl addDelayedJob { s with mainLoopJobs := [] } else s
  | .take i => match (s.workers i).batch, s.dispatchQueue with
      | none, wln :: queue =>
          if s.phase.isWorking then
            { s with
              dispatchQueue := queue
              workers := Function.update s.workers i ⟨(s.workers i).counter, some wln⟩ }
          else s
      | _, _ => s
  | .run i => match (s.workers i).batch with
      | some (job :: rest) =>
          processJob s.counters
            { s with workers := Function.update s.workers i ⟨(s.workers i).counter, some rest⟩ } job
      | _ => s
  | .finishBatch i => match (s.workers i).batch with
      | some [] => { s with workers := Function.update s.workers i ⟨(s.workers i).counter + 1, none⟩ }
      | _ => s
  -- the worker found the queue empty and has slept
  | .wait i => match (s.workers i).batch with
      | none =>
          if s.phase.isWorking then
            { s with workers := Function.update s.workers i ⟨(s.workers i).counter + 1, none⟩ }
          else s
      | some _ => s
  | .stop jobs => if s.phase = .running then jobs.foldl processStopped { s with phase := .stopping } else s
  | .join => if s.phase = .stopping ∧ ∀ i, (s.workers i).batch = none then { s with phase := .joined } else s
  -- `emptyDispatchQueue`: the counters are freed by now, `stale` is read in their place
  | .empty stale =>
      if s.phase = .joined then
        match s.dispatchQueue with
        | (job :: jobs) :: queue => processJob stale { s with dispatchQueue := jobs :: queue } job
        | [] :: queue => { s with dispatchQueue := queue }
        | [] => s
      else s
  | .finish =>
      if s.phase = .joined ∧ s.dispatchQueue = [] then
        { s with
          phase := .finished
          delayedJobs := []
          log := (remainingEvents s.delayedJobs).reverse ++ s.log }
      else s

def run (s : State n) (labels : List (Label n)) : State n := labels.foldl step s

/-- The steps that are possible, and where they lead. -/
inductive Transition (s : State n) : Label n → State n → Prop
  | dispatch {jobs : List MainJob} (hphase : s.phase = .running) : Transition s (.dispatch jobs) (dispatch s jobs)
  | addDelayedJob (hphase : s.phase = .running) : Transition s .addDelayedJob
      (addDelayedJob { s with log := .added s.delayeds :: s.log, delayeds := s.delayeds + 1 } s.delayeds)
  | requestDelayedJob (hphase : s.phase ≠ .finished) : Transition s .requestDelayedJob
      { s with
        mainLoopJobs := s.delayeds :: s.mainLoopJobs
        log := .added s.delayeds :: s.log
        delayeds := s.delayeds + 1 }
  | processMainLoopJobs (hphase : s.phase = .running) : Transition s .processMainLoopJobs
      (s.mainLoopJobs.foldl addDelayedJob { s with mainLoopJobs := [] })
  | take {i : Fin n} {wln : List QueuedJob} {queue : List (List QueuedJob)} (hidle : (s.workers i).batch = none)
      (hqueue : s.dispatchQueue = wln :: queue) (hworking : s.phase.isWorking = true) : Transition s (.take i)
      { s with
        dispatchQueue := queue
        workers := Function.update s.workers i ⟨(s.workers i).counter, some wln⟩ }
  | run {i : Fin n} {job : QueuedJob} {rest : List QueuedJob} (hbatch : (s.workers i).batch = some (job :: rest)) :
      Transition s (.run i) (processJob s.counters
        { s with workers := Function.update s.workers i ⟨(s.workers i).counter, some rest⟩ } job)
  | finishBatch {i : Fin n} (hbatch : (s.workers i).batch = some []) : Transition s (.finishBatch i)
      { s with workers := Function.update s.workers i ⟨(s.workers i).counter + 1, none⟩ }
  | wait {i : Fin n} (hidle : (s.workers i).batch = none) (hworking : s.phase.isWorking = true) :
      Transition s (.wait i) { s with workers := Function.update s.workers i ⟨(s.workers i).counter + 1, none⟩ }
  | stop {jobs : List StopJob} (hphase : s.phase = .running) :
      Transition s (.stop jobs) (jobs.foldl processStopped { s with phase := .stopping })
  | join (hphase : s.phase = .stopping) (hidle : ∀ i, (s.workers i).batch = none) :
      Transition s .join { s with phase := .joined }
  | empty {stale : Fin n → Nat} {job : QueuedJob} {jobs : List QueuedJob} {queue : List (List QueuedJob)}
      (hphase : s.phase = .joined) (hqueue : s.dispatchQueue = (job :: jobs) :: queue) :
      Transition s (.empty stale) (processJob stale { s with dispatchQueue := jobs :: queue } job)
  | emptied {stale : Fin n → Nat} {queue : List (List QueuedJob)} (hphase : s.phase = .joined)
      (hqueue : s.dispatchQueue = [] :: queue) : Transition s (.empty stale) { s with dispatchQueue := queue }
  | finish (hphase : s.phase = .joined) (hqueue : s.dispatchQueue = []) : Transition s .finish
      { s with
        phase := .finished
        delayedJobs := []
        log := (remainingEvents s.delayedJobs).reverse ++ s.log }

theorem step_cases (s : State n) (label : Label n) : step s label = s ∨ Transition s label (step s label) := by
  cases label with
  | dispatch jobs =>
      rw [step]
      split
      · next hphase => exact .inr (.dispatch hphase)
      · exact .inl rfl
  | addDelayedJob =>
      rw [step]
      split
      · next hphase => exact .inr (.addDelayedJob hphase)
      · exact .inl rfl
  | requestDelayedJob =>
      rw [step]
      split
      · exact .inl rfl
      · next hphase => exact .inr (.requestDelayedJob hphase)
  | processMainLoopJobs =>
      rw [step]
      split
      · next hphase => exact .inr (.processMainLoopJobs hphase)
      · exact .inl rfl
  | take i =>
      rw [step]
      split
      · next hidle hqueue =>
          split
          · next hworking => exact .inr (.take hidle hqueue hworking)
          · exact .inl rfl
      · exact .inl rfl
  | run i =>
      rw [step]
      split
      · next hbatch => exact .inr (.run hbatch)
      · exact .inl rfl
  | finishBatch i =>
      rw [step]
      split
      · next hbatch => exact .inr (.finishBatch hbatch)
      · exact .inl rfl
  | wait i =>
      rw [step]
      split
      · next hidle =>
          split
          · next hworking => exact .inr (.wait hidle hworking)
          · exact .inl rfl
      · exact .inl rfl
  | stop jobs =>
      rw [step]
      split
      · next hphase => exact .inr (.stop hphase)
      · exact .inl rfl
  | join =>
      rw [step]
      split
      · next hjoin => exact .inr (.join hjoin.1 hjoin.2)
      · exact .inl rfl
  | empty stale =>
      rw [step]
      split
      · next hphase =>
          split
          · next hqueue => exact .inr (.empty hphase hqueue)
          · next hqueue => exact .inr (.emptied hphase hqueue)
          · exact .inl rfl
      · exact .inl rfl
  | finish =>
      rw [step]
      split
      · next hphase => exact .inr (.finish hphase.1 hphase.2)
      · exact .inl rfl

theorem step_preserves {P : State n → Prop} {s : State n} {label : Label n} (h : P s)
    (hnext : ∀ s', Transition s label s' → P s') : P (step s label) := by
  rcases step_cases s label with heq | hstep
  · rw [heq]
    exact h
  · exact hnext _ hstep

section Histories

/-- The normal job was dispatched before the delayed job was added. -/
def Before (normal delayed : Nat) : List Event → Prop
  | [] => False
  | e :: log => (e = .added delayed ∧ .dispatched normal ∈ log) ∨ Before normal delayed log

/-- No delayed job is executed before the normal jobs that were dispatched
before it was added have finished. -/
def Late : List Event → Prop
  | [] => True
  | e :: log =>
      (∀ delayed, e = .executed delayed → ∀ normal, Before normal delayed log → .finished normal ∈ log) ∧ Late log

def ExactlyOnce (log : List Event) : Prop :=
  ∀ delayed, .added delayed ∈ log → log.count (.executed delayed) = 1

theorem dispatched_of_before {normal delayed : Nat} {log : List Event} (h : Before normal delayed log) :
    .dispatched normal ∈ log := by
  induction log with
  | nil => exact h.elim
  | cons e log ih =>
      rcases h with ⟨_, h⟩ | h
      · exact List.mem_cons_of_mem _ h
      · exact List.mem_cons_of_mem _ (ih h)

theorem before_append {normal delayed : Nat} {events log : List Event} (hadded : .added delayed ∉ events) :
    Before normal delayed (events ++ log) ↔ Before normal delayed log := by
  induction events with
  | nil => rfl
  | cons e events ih =>
      rw [List.mem_cons, not_or] at hadded
      rw [List.cons_append, Before, ih hadded.2]
      exact or_iff_right fun h => hadded.1 h.1.symm

theorem late_append {events log : List Event} (hlate : Late log)
    (hadded : ∀ delayed, .executed delayed ∈ events → .added delayed ∉ events)
    (h : ∀ delayed, .executed delayed ∈ events → ∀ normal, Before normal delayed log → .finished normal ∈ log) :
    Late (events ++ log) := by
  induction events with
  | nil => exact hlate
  | cons e events ih =>
      refine ⟨?_, ih ?_ ?_⟩
      · rintro delayed rfl normal hbefore
        have hnone := fun hmem => hadded delayed List.mem_cons_self (List.mem_cons_of_mem _ hmem)
        exact List.mem_append_right _
          (h delayed List.mem_cons_self normal ((before_append hnone).mp hbefore))
      · exact fun delayed hmem hadd =>
          hadded delayed (List.mem_cons_of_mem _ hmem) (List.mem_cons_of_mem _ hadd)
      · exact fun delayed hmem => h delayed (List.mem_cons_of_mem _ hmem)

theorem late_of_suffix {log log' : List Event} (hsuffix : log <:+ log') (h : Late log') : Late log := by
  obtain ⟨events, rfl⟩ := hsuffix
  induction events with
  | nil => exact h
  | cons e events ih => exact ih h.2

end Histories

end OpcUa.WorkerThreads
