import OpcUa.StatusCodes
import OpcUa.TimerRuns

namespace OpcUa.MainLoopJobs

open StatusCodes Timers

variable {Id Job : Type} {timer : Timer Id Job} {interval : UInt32} {job : IdentifiedJob Id Job}

/-- A call of `UA_Server_addRepeatedJob`, with the interval in milliseconds
and the job with its id, or of `UA_Server_removeRepeatedJob`. -/
inductive Request (Id Job : Type)
  | add (interval : UInt32) (job : IdentifiedJob Id Job)
  | remove (id : Id)
deriving DecidableEq, Repr

def units (interval : UInt32) : UInt32 := interval * 10000

def status : Request Id Job → StatusCode
  | .add interval _ => if interval < 5 then badInternalError else good
  | .remove _ => good

def repeatedJobs (timer : Timer Id Job) : List (UInt32 × IdentifiedJob Id Job) :=
  timer.flatMap fun tw => tw.jobs.map fun job => (tw.interval, job)

/-- The entries of `server->mainLoopJobs`. -/
inductive MainLoopJob (Id Job : Type)
  | addRepeatedJob (interval : UInt32) (job : IdentifiedJob Id Job)
  | removeRepeatedJob (id : Id)
deriving DecidableEq, Repr

/-- The job that the call pushes in the multithreaded build. -/
def mainLoopJob : Request Id Job → Option (MainLoopJob Id Job)
  | .add interval job => if interval < 5 then none else some (.addRepeatedJob (units interval) job)
  | .remove id => some (.removeRepeatedJob id)

def push (mainLoopJobs : List (MainLoopJob Id Job)) (request : Request Id Job) : List (MainLoopJob Id Job) :=
  match mainLoopJob request with
  | none => mainLoopJobs
  | some mlw => mlw :: mainLoopJobs

section Execution

variable [DecidableEq Id]

/-- The call in the single-threaded build, at the time `now`. -/
def performDirectly (now : Int) (timer : Timer Id Job) : Request Id Job → Timer Id Job
  | .add interval job =>
      if interval < 5 then timer else addRepeatedJob (now + (units interval).toNat) (units interval) job timer
  | .remove id => removeRepeatedJob id timer

def processMainLoopJob (now : Int) (timer : Timer Id Job) : MainLoopJob Id Job → Timer Id Job
  | .addRepeatedJob interval job => addRepeatedJob (now + interval.toNat) interval job timer
  | .removeRepeatedJob id => removeRepeatedJob id timer

/-- `processMainLoopJobs`: the whole stack is popped and executed from its
top. `clock` gives the time at which each job is executed. -/
def processMainLoopJobs (clock : Nat → Int) : List (MainLoopJob Id Job) → Timer Id Job → Timer Id Job
  | [], timer => timer
  | mlw :: rest, timer => processMainLoopJobs (fun k => clock (k + 1)) rest (processMainLoopJob (clock 0) timer mlw)

end Execution

section Effects

variable [DecidableEq Id] {id : Id}

end Effects

section Orders

def entries : MainLoopJob Id Job → List (UInt32 × IdentifiedJob Id Job)
  | .addRepeatedJob interval job => [(interval, job)]
  | .removeRepeatedJob _ => []

def removedId : MainLoopJob Id Job → Option Id
  | .addRepeatedJob .. => none
  | .removeRepeatedJob id => some id

def removedIds (jobs : List (MainLoopJob Id Job)) : List Id := jobs.filterMap removedId

variable [DecidableEq Id]

def kept : List (MainLoopJob Id Job) → List (UInt32 × IdentifiedJob Id Job)
  | [] => []
  | mlw :: rest => (entries mlw).filter (·.2.id ∉ removedIds rest) ++ kept rest

variable {jobs before : List (MainLoopJob Id Job)} {mlw : MainLoopJob Id Job}

/-- Every job that is added is removed before its addition just when it is
removed after it. -/
def Balanced (jobs : List (MainLoopJob Id Job)) : Prop :=
  ∀ before after interval job, jobs = before ++ .addRepeatedJob interval job :: after →
    (.removeRepeatedJob job.id ∈ before ↔ .removeRepeatedJob job.id ∈ after)

end Orders

section Builds

variable [DecidableEq Id] {requests : List (Request Id Job)}

end Builds

end OpcUa.MainLoopJobs
