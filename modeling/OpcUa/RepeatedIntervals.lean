import OpcUa.MainLoopJobs

namespace OpcUa.RepeatedIntervals

open StatusCodes Timers TimerRuns MainLoopJobs

/-- A job with the interval in milliseconds that was asked for. -/
structure Asked (Job : Type) where
  interval : UInt32
  job : Job
deriving DecidableEq, Repr

variable {Id Job : Type} {timer before after : Timer Id (Asked Job)} {tw : RepeatedJobs Id (Asked Job)}
  {job : IdentifiedJob Id (Asked Job)} {interval : UInt32} {now current : Int}

def clockUnits (interval : UInt32) : Int := interval.toNat * 10000

def InRange (interval : UInt32) : Prop := interval.toNat * 10000 < 4294967296

instance : Decidable (InRange interval) := inferInstanceAs (Decidable (_ < _))

section Calls

/-- The functions of the server that change or process the repeated jobs, with
the time at which they read the clock. -/
inductive Call (Id Job : Type)
  | addRepeatedJob (now : Int) (interval : UInt32) (id : Id) (job : Job)
  | removeRepeatedJob (id : Id)
  | processRepeatedJobs (current : Int)
deriving DecidableEq, Repr

variable [DecidableEq Id]

/-- What a call makes of the list, if it returns. -/
inductive Step : Call Id Job → Timer Id (Asked Job) → Timer Id (Asked Job) → Prop
  | addRepeatedJob (now : Int) (interval : UInt32) (id : Id) (job : Job) (timer : Timer Id (Asked Job)) :
      Step (.addRepeatedJob now interval id job) timer
        (performDirectly now timer (.add interval ⟨id, interval, job⟩))
  | removeRepeatedJob (id : Id) (timer : Timer Id (Asked Job)) :
      Step (.removeRepeatedJob id) timer (performDirectly 0 timer (.remove id))
  | processRepeatedJobs (current : Int) {fuel : Nat} {timer left : Timer Id (Asked Job)}
      {executed : List (IdentifiedJob Id (Asked Job))}
      (h : TimerRuns.processRepeatedJobs current fuel timer = some (executed, left)) :
      Step (.processRepeatedJobs current) timer left

/-- The calls so far, the last first, and the list that they leave. -/
inductive Run : List (Call Id Job) → Timer Id (Asked Job) → Prop
  | start : Run [] []
  | step {calls : List (Call Id Job)} {call : Call Id Job} {before after : Timer Id (Asked Job)} (h : Run calls before)
      (hstep : Step call before after) : Run (call :: calls) after

/-- The job is due after its interval, or with the entry that it shares. -/
def FirstDue (now : Int) (job : IdentifiedJob Id (Asked Job)) (before after : Timer Id (Asked Job)) : Prop :=
  ∃ tw ∈ after, job ∈ tw.jobs ∧ (tw.nextTime = now + clockUnits job.job.interval ∨
    ∃ shared ∈ before, (shared.interval.toNat : Int) = clockUnits job.job.interval ∧ tw.nextTime = shared.nextTime)

def Scheduled (call : Call Id Job) (before after : Timer Id (Asked Job)) : Prop :=
  match call with
  | .addRepeatedJob now interval id job =>
      status (.add interval (⟨id, interval, job⟩ : IdentifiedJob Id (Asked Job))) = good →
        FirstDue now ⟨id, interval, job⟩ before after
  | _ => True

/-- What is asked of the list. An entry is moved by the interval of its jobs
whenever they are executed, unless it is late, and the loop ends. -/
structure Repeating (timer : Timer Id (Asked Job)) : Prop where
  repeats : ∀ tw ∈ timer, ∀ job ∈ tw.jobs, ∀ current, tw.nextTime ≤ current →
    (executedAt current tw).nextTime = max (tw.nextTime + clockUnits job.job.interval) current
  ends : ∀ current, ∃ fuel result, TimerRuns.processRepeatedJobs current fuel timer = some result

/-- Every call of the run keeps to the interval that was asked for. -/
def AsAsked (calls : List (Call Id Job)) : Prop :=
  ∀ call part, call :: part <:+ calls → ∀ before after, Run part before → Step call before after →
    Scheduled call before after ∧ Repeating after

def Accepted (calls : List (Call Id Job)) : Prop :=
  ∀ now interval id job, Call.addRepeatedJob now interval id job ∈ calls → 5 ≤ interval → InRange interval

end Calls

section Entries

theorem toNat_units (h : InRange interval) : ((units interval).toNat : Int) = clockUnits interval := by
  simp only [InRange] at h
  simp [units, clockUnits, UInt32.toNat_mul, Nat.mod_eq_of_lt h]

theorem inRange_of_units (h : ((units interval).toNat : Int) = clockUnits interval) : InRange interval := by
  have hlt := (units interval).toNat_lt
  simp only [clockUnits, InRange] at *
  omega

theorem units_pos (h : InRange interval) (hmin : 5 ≤ interval) : 0 < units interval := by
  have hunits := toNat_units h
  have hfive : 5 ≤ interval.toNat := UInt32.le_iff_toNat_le.mp hmin
  simp only [clockUnits] at hunits
  exact UInt32.lt_iff_toNat_lt.mpr (show 0 < (units interval).toNat by omega)

def Timed (timer : Timer Id (Asked Job)) : Prop :=
  ∀ tw ∈ timer, 0 < tw.interval ∧ ∀ job ∈ tw.jobs, (tw.interval.toNat : Int) = clockUnits job.job.interval

theorem entry_of_addRepeatedJob {firstTime : Int} (h : tw ∈ addRepeatedJob firstTime interval job timer) :
    tw = ⟨firstTime, interval, [job]⟩ ∨ tw ∈ timer ∨
      ∃ old ∈ timer, old.interval = interval ∧ tw = { old with jobs := old.jobs ++ [job] } := by
  induction timer with
  | nil => simpa [addRepeatedJob] using h
  | cons first rest ih =>
      by_cases hshared : interval = first.interval
      · rw [addRepeatedJob, if_pos hshared] at h
        rcases List.mem_cons.mp h with rfl | h
        · exact .inr (.inr ⟨first, List.mem_cons_self, hshared.symm, rfl⟩)
        · exact .inr (.inl (List.mem_cons_of_mem _ h))
      · by_cases hlater : first.nextTime > firstTime
        · rw [addRepeatedJob, if_neg hshared, if_pos hlater] at h
          rcases List.mem_cons.mp h with rfl | h
          · exact .inl rfl
          · exact .inr (.inl h)
        · rw [addRepeatedJob, if_neg hshared, if_neg hlater] at h
          rcases List.mem_cons.mp h with rfl | h
          · exact .inr (.inl List.mem_cons_self)
          · rcases ih h with hnew | hold | ⟨old, hold, heq⟩
            · exact .inl hnew
            · exact .inr (.inl (List.mem_cons_of_mem _ hold))
            · exact .inr (.inr ⟨old, List.mem_cons_of_mem _ hold, heq⟩)

theorem exists_entry (firstTime : Int) (interval : UInt32) (job : IdentifiedJob Id (Asked Job))
    (timer : Timer Id (Asked Job)) : ∃ tw ∈ addRepeatedJob firstTime interval job timer, job ∈ tw.jobs ∧
      tw.interval = interval ∧ (tw.nextTime = firstTime ∨
        ∃ shared ∈ timer, shared.interval = interval ∧ tw.nextTime = shared.nextTime) := by
  induction timer with
  | nil => exact ⟨⟨firstTime, interval, [job]⟩, by simp [addRepeatedJob]⟩
  | cons first rest ih =>
      rw [addRepeatedJob]
      split
      · next hshared =>
        refine ⟨{ first with jobs := first.jobs ++ [job] }, List.mem_cons_self, by simp, hshared.symm, .inr ?_⟩
        exact ⟨first, List.mem_cons_self, hshared.symm, rfl⟩
      · split
        · exact ⟨⟨firstTime, interval, [job]⟩, by simp⟩
        · obtain ⟨tw, htw, hjob, hinterval, htime⟩ := ih
          refine ⟨tw, List.mem_cons_of_mem _ htw, hjob, hinterval, htime.imp_right ?_⟩
          rintro ⟨shared, hshared, heq⟩
          exact ⟨shared, List.mem_cons_of_mem _ hshared, heq⟩

theorem entry_of_removeRepeatedJob [DecidableEq Id] {id : Id} (h : tw ∈ removeRepeatedJob id timer) :
    ∃ old ∈ timer, tw.interval = old.interval ∧ ∀ job ∈ tw.jobs, job ∈ old.jobs := by
  induction timer with
  | nil => cases h
  | cons first rest ih =>
      have hrest (hmem : tw ∈ rest) : ∃ old ∈ first :: rest, tw.interval = old.interval ∧
        ∀ job ∈ tw.jobs, job ∈ old.jobs :=
        ⟨tw, List.mem_cons_of_mem _ hmem, rfl, fun _ hjob => hjob⟩
      rw [removeRepeatedJob] at h
      cases hfind : first.jobs.findIdx? (fun j => j.id = id) with
      | none =>
          rw [hfind] at h
          rcases List.mem_cons.mp h with rfl | h
          · exact ⟨tw, List.mem_cons_self, rfl, fun _ hjob => hjob⟩
          · obtain ⟨old, hold, heq⟩ := ih h
            exact ⟨old, List.mem_cons_of_mem _ hold, heq⟩
      | some i =>
          rw [hfind] at h
          obtain ⟨hlt, _, _⟩ := List.findIdx?_eq_some_iff_getElem.mp hfind
          have hperm := perm_removeAt (List.getElem?_eq_getElem hlt)
          dsimp only at h
          split at h
          · exact hrest h
          · rcases List.mem_cons.mp h with rfl | h
            · exact ⟨first, List.mem_cons_self, rfl, fun job hjob => hperm.mem_iff.mpr (List.mem_cons_of_mem _ hjob)⟩
            · exact hrest h

theorem timed_addRepeatedJob {firstTime : Int} (h : Timed timer) (hpos : 0 < interval)
    (hunits : (interval.toNat : Int) = clockUnits job.job.interval) :
    Timed (addRepeatedJob firstTime interval job timer) := by
  intro tw htw
  rcases entry_of_addRepeatedJob htw with rfl | htw | ⟨old, hold, hinterval, rfl⟩
  · exact ⟨hpos, by simpa using hunits⟩
  · exact h tw htw
  · obtain ⟨holdpos, hjobs⟩ := h old hold
    refine ⟨holdpos, fun other hother => ?_⟩
    rcases List.mem_append.mp hother with hother | hother
    · exact hjobs other hother
    · obtain rfl := List.mem_singleton.mp hother
      simpa [hinterval] using hunits

theorem timed_removeRepeatedJob [DecidableEq Id] {id : Id} (h : Timed timer) : Timed (removeRepeatedJob id timer) := by
  intro tw htw
  obtain ⟨old, hold, hinterval, hjobs⟩ := entry_of_removeRepeatedJob htw
  obtain ⟨hpos, hasked⟩ := h old hold
  simp only [hinterval]
  exact ⟨hpos, fun job hjob => hasked job (hjobs job hjob)⟩

theorem timed_reschedule {rest : Timer Id (Asked Job)} (hdue : ¬ tw.nextTime > current) (h : Timed (tw :: rest)) :
    Timed (reschedule current (tw :: rest)) := by
  intro other hother
  rcases List.mem_cons.mp ((perm_reschedule_cons rest hdue).mem_iff.mp hother) with rfl | hother
  · exact h tw List.mem_cons_self
  · exact h other (List.mem_cons_of_mem _ hother)

end Entries

section Loops

theorem timed_processRepeatedJobs {fuel : Nat} {executed : List (IdentifiedJob Id (Asked Job))}
    (hrun : TimerRuns.processRepeatedJobs current fuel timer = some (executed, after)) (h : Timed timer) :
    Timed after := by
  induction fuel generalizing timer executed with
  | zero => cases hrun
  | succ fuel ih =>
      cases timer with
      | nil =>
          cases hrun
          exact h
      | cons tw rest =>
          rw [TimerRuns.processRepeatedJobs] at hrun
          by_cases hdue : tw.nextTime > current
          · rw [if_pos hdue] at hrun
            cases hrun
            exact h
          · rw [if_neg hdue] at hrun
            obtain ⟨⟨inner, left⟩, hinner, heq⟩ := Option.map_eq_some_iff.mp hrun
            cases heq
            exact ih hinner (timed_reschedule hdue h)

theorem processRepeatedJobs_ends {fuel : Nat} (h : Timed timer) (hfuel : backlog current timer < fuel) :
    ∃ result, TimerRuns.processRepeatedJobs current fuel timer = some result := by
  induction fuel generalizing timer with
  | zero => omega
  | succ fuel ih =>
      cases timer with
      | nil => exact ⟨_, rfl⟩
      | cons tw rest =>
          rw [TimerRuns.processRepeatedJobs]
          by_cases hdue : tw.nextTime > current
          · exact ⟨_, if_pos hdue⟩
          · have hless := backlog_reschedule rest (h tw List.mem_cons_self).1 hdue
            obtain ⟨result, hresult⟩ := ih (timed_reschedule hdue h) (by omega)
            rw [if_neg hdue, hresult]
            exact ⟨_, rfl⟩

theorem repeating_of_timed (h : Timed timer) : Repeating timer where
  repeats tw htw job hjob current _ := by simp [executedAt, (h tw htw).2 job hjob]
  ends current := ⟨backlog current timer + 1, processRepeatedJobs_ends h (Nat.lt_succ_self _)⟩

theorem interval_of_repeating (h : Repeating timer) (htw : tw ∈ timer) (hjob : job ∈ tw.jobs) :
    (tw.interval.toNat : Int) = clockUnits job.job.interval := by
  have hnext := h.repeats tw htw job hjob tw.nextTime (Int.le_refl _)
  simp only [executedAt, clockUnits] at *
  omega

theorem processRepeatedJobs_endless (current : Int) (jobs : List (IdentifiedJob Id Job)) (fuel : Nat) :
    TimerRuns.processRepeatedJobs current fuel [⟨current, 0, jobs⟩] = none := by
  induction fuel with
  | zero => rfl
  | succ fuel ih =>
      have hsame : reschedule current [⟨current, 0, jobs⟩] = [⟨current, 0, jobs⟩] := by simp [reschedule]
      simp [TimerRuns.processRepeatedJobs, hsame, ih]

end Loops

section Runs

variable [DecidableEq Id] {calls part : List (Call Id Job)} {call : Call Id Job}

theorem timed_step
    (hcall : ∀ now interval id job, call = .addRepeatedJob now interval id job → 5 ≤ interval → InRange interval)
    (hstep : Step call before after) (h : Timed before) : Timed after := by
  cases hstep with
  | addRepeatedJob now interval id job =>
      rw [performDirectly]
      split
      · exact h
      · next hmin =>
        have hfive := UInt32.not_lt.mp hmin
        have hrange := hcall now interval id job rfl hfive
        exact timed_addRepeatedJob h (units_pos hrange hfive) (toNat_units hrange)
  | removeRepeatedJob id => exact timed_removeRepeatedJob h
  | processRepeatedJobs current hrun => exact timed_processRepeatedJobs hrun h

theorem timed_run (haccepted : Accepted calls) (h : Run calls timer) : Timed timer := by
  induction h with
  | start => exact nofun
  | step _ hstep ih =>
      apply timed_step ?_ hstep
      · exact ih (fun now interval id job hmem => haccepted now interval id job (List.mem_cons_of_mem _ hmem))
      · rintro now interval id job rfl
        exact haccepted now interval id job List.mem_cons_self

theorem scheduled_of_inRange
    (hcall : ∀ now interval id job, call = .addRepeatedJob now interval id job → 5 ≤ interval → InRange interval)
    (hstep : Step call before after) : Scheduled call before after := by
  cases hstep with
  | removeRepeatedJob id => exact trivial
  | processRepeatedJobs current hrun => exact trivial
  | addRepeatedJob now interval id job =>
      intro hgood
      have hmin : ¬ interval < 5 := by
        intro hless
        simp [status, hless] at hgood
        cases hgood
      have hrange := hcall now interval id job rfl (UInt32.not_lt.mp hmin)
      obtain ⟨tw, htw, hjob, _, htime⟩ := exists_entry (now + (units interval).toNat) (units interval)
        ⟨id, interval, job⟩ before
      rw [performDirectly, if_neg hmin]
      refine ⟨tw, htw, hjob, ?_⟩
      rw [toNat_units hrange] at htime
      refine htime.imp_right ?_
      rintro ⟨shared, hshared, hinterval, hsame⟩
      exact ⟨shared, hshared, hinterval ▸ toNat_units hrange, hsame⟩

theorem AsAsked.mono (h : AsAsked calls) (hpart : part <:+ calls) : AsAsked part :=
  fun call rest hrest => h call rest (hrest.trans hpart)

theorem AsAsked.repeating (h : AsAsked calls) (hrun : Run calls timer) : Repeating timer := by
  cases hrun with
  | start => exact repeating_of_timed nofun
  | step hrun hstep => exact (h _ _ (List.suffix_refl _) _ _ hrun hstep).2

theorem AsAsked.runs (h : AsAsked calls) : ∃ timer, Run calls timer := by
  induction calls with
  | nil => exact ⟨[], .start⟩
  | cons call part ih =>
      have hpart := h.mono (List.suffix_cons call part)
      obtain ⟨before, hbefore⟩ := ih hpart
      cases call with
      | addRepeatedJob now interval id job => exact ⟨_, hbefore.step (.addRepeatedJob now interval id job before)⟩
      | removeRepeatedJob id => exact ⟨_, hbefore.step (.removeRepeatedJob id before)⟩
      | processRepeatedJobs current =>
          obtain ⟨fuel, ⟨executed, left⟩, hreturns⟩ := (hpart.repeating hbefore).ends current
          exact ⟨left, hbefore.step (.processRepeatedJobs current hreturns)⟩

/-- The intervals are kept in every state of a run if and only if none of those
that are accepted overflows. -/
theorem asAsked_iff (calls : List (Call Id Job)) : AsAsked calls ↔ Accepted calls := by
  constructor
  · intro h now interval id job hmem hfive
    obtain ⟨later, part, rfl⟩ := List.append_of_mem hmem
    have hsuffix : Call.addRepeatedJob now interval id job :: part <:+
        later ++ Call.addRepeatedJob now interval id job :: part := List.suffix_append _ _
    obtain ⟨before, hbefore⟩ := (h.mono ((List.suffix_cons _ _).trans hsuffix)).runs
    obtain ⟨_, hrepeating⟩ := h _ _ hsuffix _ _ hbefore (.addRepeatedJob now interval id job before)
    obtain ⟨tw, htw, hjob, hinterval, _⟩ := exists_entry (now + (units interval).toNat) (units interval)
      ⟨id, interval, job⟩ before
    rw [performDirectly, if_neg (UInt32.not_lt.mpr hfive)] at hrepeating
    have hsame := interval_of_repeating hrepeating htw hjob
    rw [hinterval] at hsame
    exact inRange_of_units hsame
  · intro h call part hsuffix before after hrun hstep
    have hcall : ∀ now interval id job, call = .addRepeatedJob now interval id job → 5 ≤ interval →
      InRange interval := by
      rintro now interval id job rfl
      exact h now interval id job (hsuffix.subset List.mem_cons_self)
    have hpart : Accepted part := fun now interval id job hmem =>
      h now interval id job (hsuffix.subset (List.mem_cons_of_mem _ hmem))
    exact ⟨scheduled_of_inRange hcall hstep, repeating_of_timed (timed_step hcall hstep (timed_run hpart hrun))⟩

/-- A job that was asked for every seven minutes is due again after 270 us, and
one for every three days keeps the loop from ending. -/
theorem overflows_not_asAsked :
    ¬ AsAsked [Call.addRepeatedJob 0 429497 1 ()] ∧
      ∀ fuel, TimerRuns.processRepeatedJobs 0 fuel
        (performDirectly 0 [] (.add 268435456 (⟨1, ()⟩ : IdentifiedJob Nat Unit))) =
        none := by
  constructor
  · intro h
    obtain ⟨_, hrepeating⟩ := h _ _ (List.suffix_refl _) _ _ .start (.addRepeatedJob 0 429497 1 () [])
    have hentry : (⟨2704, 2704, [⟨1, 429497, ()⟩]⟩ : RepeatedJobs Nat (Asked Unit)) ∈
        performDirectly 0 [] (.add 429497 ⟨1, 429497, ()⟩) := by decide
    have hnext := hrepeating.repeats _ hentry _ (List.mem_singleton_self _) 2704 (Int.le_refl _)
    exact absurd hnext (by decide)
  · intro fuel
    have hentry : performDirectly 0 [] (.add 268435456 (⟨1, ()⟩ : IdentifiedJob Nat Unit)) =
      [⟨0, 0, [⟨1, ()⟩]⟩] := by decide
    rw [hentry]
    exact processRepeatedJobs_endless 0 _ fuel

end Runs

end OpcUa.RepeatedIntervals
