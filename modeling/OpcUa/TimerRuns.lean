import Mathlib.Algebra.BigOperators.Group.List.Basic
import Mathlib.Algebra.Ring.Nat
import Mathlib.Data.List.Perm.Subperm
import OpcUa.Timers

namespace OpcUa.TimerRuns

open Timers

variable {Id Job : Type} {timer timer' : Timer Id Job} {tw : RepeatedJobs Id Job} {job : IdentifiedJob Id Job}
  {clock current firstTime : Int} {interval : UInt32}

/-- `processRepeatedJobs`: what is executed and the list that is left. The
fuel bounds the rounds of the loop. -/
def processRepeatedJobs (current : Int) : Nat → Timer Id Job → Option (List (IdentifiedJob Id Job) × Timer Id Job)
  | 0, _ => none
  | _ + 1, [] => some ([], [])
  | fuel + 1, tw :: rest =>
      if tw.nextTime > current then some ([], tw :: rest)
      else (processRepeatedJobs current fuel (reschedule current (tw :: rest))).map
        fun (executed, left) => (tw.jobs ++ executed, left)

/-- What holds of the list when the clock shows `clock`. No entry is further
ahead than its own interval. -/
structure Ordered (clock : Int) (timer : Timer Id Job) : Prop where
  sorted : timer.Pairwise (fun a b => a.nextTime ≤ b.nextTime)
  distinct : timer.Pairwise (fun a b => a.interval ≠ b.interval)
  positive : ∀ tw ∈ timer, 0 < tw.interval
  within : ∀ tw ∈ timer, tw.nextTime ≤ clock + tw.interval.toNat

section Keeping

theorem Ordered.mono (h : Ordered clock timer) (hle : clock ≤ current) : Ordered current timer where
  sorted := h.sorted
  distinct := h.distinct
  positive := h.positive
  within tw hmem := by
    have hwithin := h.within tw hmem
    omega

theorem ordered_nil (clock : Int) : Ordered clock ([] : Timer Id Job) :=
  ⟨.nil, .nil, by simp, by simp⟩

def slot (tw : RepeatedJobs Id Job) : Int × UInt32 := (tw.nextTime, tw.interval)

/-- The order depends only on the times and the intervals, and it is kept
when entries are taken out. -/
theorem Ordered.sublist (h : Ordered clock timer) (hsub : (timer'.map slot).Sublist (timer.map slot)) :
    Ordered clock timer' := by
  have hkept {R : Int × UInt32 → Int × UInt32 → Prop} (hR : timer.Pairwise (fun a b => R (slot a) (slot b))) :
      timer'.Pairwise (fun a b => R (slot a) (slot b)) :=
    List.pairwise_map.mp ((List.pairwise_map.mpr hR).sublist hsub)
  have hmem : ∀ tw ∈ timer', ∃ old ∈ timer, old.nextTime = tw.nextTime ∧ old.interval = tw.interval := by
    intro tw htw
    obtain ⟨old, hold, heq⟩ := List.mem_map.mp (hsub.subset (List.mem_map_of_mem htw))
    exact ⟨old, hold, (Prod.mk.inj heq).1, (Prod.mk.inj heq).2⟩
  refine ⟨?_, ?_, ?_, ?_⟩
  · exact hkept (R := fun a b => a.1 ≤ b.1) h.sorted
  · exact hkept (R := fun a b => a.2 ≠ b.2) h.distinct
  · intro tw htw
    obtain ⟨old, hold, _, hinterval⟩ := hmem tw htw
    exact hinterval ▸ h.positive old hold
  · intro tw htw
    obtain ⟨old, hold, htime, hinterval⟩ := hmem tw htw
    rw [← htime, ← hinterval]
    exact h.within old hold

theorem mem_addRepeatedJob (h : tw ∈ addRepeatedJob firstTime interval job timer) :
    tw.nextTime = firstTime ∧ tw.interval = interval ∨
      ∃ old ∈ timer, tw.nextTime = old.nextTime ∧ tw.interval = old.interval := by
  induction timer with
  | nil =>
      obtain rfl := List.mem_singleton.mp h
      exact .inl ⟨rfl, rfl⟩
  | cons first rest ih =>
      rw [addRepeatedJob] at h
      split at h
      · rcases List.mem_cons.mp h with rfl | h
        · exact .inr ⟨first, List.mem_cons_self, rfl, rfl⟩
        · exact .inr ⟨tw, List.mem_cons_of_mem _ h, rfl, rfl⟩
      · split at h
        · rcases List.mem_cons.mp h with rfl | h
          · exact .inl ⟨rfl, rfl⟩
          · exact .inr ⟨tw, h, rfl, rfl⟩
        · rcases List.mem_cons.mp h with rfl | h
          · exact .inr ⟨tw, List.mem_cons_self, rfl, rfl⟩
          · rcases ih h with hnew | ⟨old, hold, heq⟩
            · exact .inl hnew
            · exact .inr ⟨old, List.mem_cons_of_mem _ hold, heq⟩

theorem sorted_addRepeatedJob (h : timer.Pairwise (fun a b => a.nextTime ≤ b.nextTime)) :
    (addRepeatedJob firstTime interval job timer).Pairwise (fun a b => a.nextTime ≤ b.nextTime) := by
  induction timer with
  | nil => exact List.pairwise_singleton _ _
  | cons first rest ih =>
      obtain ⟨hfirst, hrest⟩ := List.pairwise_cons.mp h
      rw [addRepeatedJob]
      split
      · exact List.pairwise_cons.mpr ⟨hfirst, hrest⟩
      · split
        · next hlater =>
            refine List.pairwise_cons.mpr ⟨?_, h⟩
            intro tw htw
            rcases List.mem_cons.mp htw with rfl | htw
            · exact Int.le_of_lt hlater
            · exact Int.le_trans (Int.le_of_lt hlater) (hfirst tw htw)
        · next hnot =>
            refine List.pairwise_cons.mpr ⟨?_, ih hrest⟩
            intro tw htw
            rcases mem_addRepeatedJob htw with ⟨htime, _⟩ | ⟨old, hold, htime, _⟩
            · rw [htime]
              exact Int.not_lt.mp hnot
            · rw [htime]
              exact hfirst old hold

theorem distinct_addRepeatedJob (hsorted : timer.Pairwise (fun a b => a.nextTime ≤ b.nextTime))
    (h : timer.Pairwise (fun a b => a.interval ≠ b.interval))
    (hreach : ∀ tw ∈ timer, tw.interval = interval → tw.nextTime ≤ firstTime) :
    (addRepeatedJob firstTime interval job timer).Pairwise (fun a b => a.interval ≠ b.interval) := by
  induction timer with
  | nil => exact List.pairwise_singleton _ _
  | cons first rest ih =>
      obtain ⟨hfirst, hrest⟩ := List.pairwise_cons.mp h
      obtain ⟨hle, hsorted'⟩ := List.pairwise_cons.mp hsorted
      rw [addRepeatedJob]
      split
      · exact List.pairwise_cons.mpr ⟨hfirst, hrest⟩
      · next hne =>
          split
          · next hlater =>
              refine List.pairwise_cons.mpr ⟨?_, h⟩
              intro tw htw heq
              have hreached := hreach tw htw heq.symm
              rcases List.mem_cons.mp htw with rfl | htw
              · omega
              · have := hle tw htw
                omega
          · refine List.pairwise_cons.mpr ⟨?_, ih hsorted' hrest (fun tw htw => hreach tw (List.mem_cons_of_mem _ htw))⟩
            intro tw htw
            rcases mem_addRepeatedJob htw with ⟨_, hinterval⟩ | ⟨old, hold, _, hinterval⟩
            · rw [hinterval]
              exact Ne.symm hne
            · rw [hinterval]
              exact hfirst old hold

theorem ordered_addRepeatedJob (h : Ordered clock timer) (hpos : 0 < interval) :
    Ordered clock (addRepeatedJob (clock + interval.toNat) interval job timer) where
  sorted := sorted_addRepeatedJob h.sorted
  distinct := distinct_addRepeatedJob h.sorted h.distinct fun tw htw heq => heq ▸ h.within tw htw
  positive tw htw := by
    rcases mem_addRepeatedJob htw with ⟨_, hinterval⟩ | ⟨old, hold, _, hinterval⟩
    · exact hinterval ▸ hpos
    · exact hinterval ▸ h.positive old hold
  within tw htw := by
    rcases mem_addRepeatedJob htw with ⟨htime, hinterval⟩ | ⟨old, hold, htime, hinterval⟩
    · exact Int.le_of_eq (htime.trans (by rw [hinterval]))
    · rw [htime, hinterval]
      exact h.within old hold

theorem slots_removeRepeatedJob [DecidableEq Id] (id : Id) (timer : Timer Id Job) :
    ((removeRepeatedJob id timer).map slot).Sublist (timer.map slot) := by
  induction timer with
  | nil => exact List.Sublist.refl _
  | cons tw rest ih =>
      rw [removeRepeatedJob]
      split
      · exact ih.cons_cons _
      · split
        · exact List.sublist_cons_self _ _
        · exact List.Sublist.refl _

end Keeping

section Rounds

theorem sorted_place (tw : RepeatedJobs Id Job) (h : timer.Pairwise (fun a b => a.nextTime ≤ b.nextTime)) :
    (timer.takeWhile (·.nextTime ≤ tw.nextTime) ++ tw :: timer.dropWhile (·.nextTime ≤ tw.nextTime)).Pairwise
      (fun a b => a.nextTime ≤ b.nextTime) := by
  induction timer with
  | nil => exact List.pairwise_singleton _ _
  | cons first rest ih =>
      obtain ⟨hfirst, hrest⟩ := List.pairwise_cons.mp h
      by_cases hle : first.nextTime ≤ tw.nextTime
      · simp only [List.takeWhile_cons, List.dropWhile_cons, hle, decide_true, if_true, List.cons_append]
        refine List.pairwise_cons.mpr ⟨?_, ih hrest⟩
        intro a ha
        rw [List.perm_middle.mem_iff, List.takeWhile_append_dropWhile] at ha
        rcases List.mem_cons.mp ha with rfl | ha
        · exact hle
        · exact hfirst a ha
      · simp only [List.takeWhile_cons, List.dropWhile_cons, hle, decide_false, Bool.false_eq_true, if_false,
          List.nil_append]
        refine List.pairwise_cons.mpr ⟨?_, h⟩
        have hlater : tw.nextTime ≤ first.nextTime := by omega
        intro a ha
        rcases List.mem_cons.mp ha with rfl | ha
        · exact hlater
        · exact Int.le_trans hlater (hfirst a ha)

def executedAt (current : Int) (tw : RepeatedJobs Id Job) : RepeatedJobs Id Job :=
  { tw with nextTime := max (tw.nextTime + tw.interval.toNat) current }

theorem perm_reschedule_cons (rest : Timer Id Job) (hdue : ¬ tw.nextTime > current) :
    (reschedule current (tw :: rest)).Perm (executedAt current tw :: rest) := by
  rw [reschedule, if_neg hdue]
  refine List.perm_middle.trans (List.Perm.cons _ ?_)
  rw [List.takeWhile_append_dropWhile]

theorem ordered_reschedule {rest : Timer Id Job} (h : Ordered current (tw :: rest)) (hdue : ¬ tw.nextTime > current) :
    Ordered current (reschedule current (tw :: rest)) := by
  have hperm := perm_reschedule_cons rest hdue
  obtain ⟨_, hsorted⟩ := List.pairwise_cons.mp h.sorted
  refine ⟨?_, ?_, ?_, ?_⟩
  · rw [reschedule, if_neg hdue]
    exact sorted_place (executedAt current tw) hsorted
  · have hswap : ∀ {a b : RepeatedJobs Id Job}, a.interval ≠ b.interval → b.interval ≠ a.interval := Ne.symm
    refine (hperm.pairwise_iff hswap).mpr (List.pairwise_cons.mpr ?_)
    exact List.pairwise_cons.mp h.distinct
  · intro a ha
    rcases List.mem_cons.mp (hperm.mem_iff.mp ha) with rfl | ha
    · exact h.positive tw List.mem_cons_self
    · exact h.positive a (List.mem_cons_of_mem _ ha)
  · intro a ha
    rcases List.mem_cons.mp (hperm.mem_iff.mp ha) with rfl | ha
    · simp only [executedAt]
      omega
    · exact h.within a (List.mem_cons_of_mem _ ha)

/-- How often the entry is still executed at most: an entry that is behind
the clock is moved up to it first. -/
def behind (current : Int) (tw : RepeatedJobs Id Job) : Nat :=
  if tw.nextTime < current then 2 else if tw.nextTime = current then 1 else 0

def backlog (current : Int) (timer : Timer Id Job) : Nat := (timer.map (behind current)).sum

theorem behind_executedAt (hpos : 0 < tw.interval) (hdue : ¬ tw.nextTime > current) :
    behind current (executedAt current tw) < behind current tw := by
  have hnat : 0 < tw.interval.toNat := UInt32.lt_iff_toNat_lt.mp hpos
  obtain ⟨next, hnext⟩ : ∃ next, next = max (tw.nextTime + tw.interval.toNat) current := ⟨_, rfl⟩
  have hclock : current ≤ next := hnext ▸ Int.le_max_right _ _
  have hlater : tw.nextTime + tw.interval.toNat ≤ next := hnext ▸ Int.le_max_left _ _
  simp only [behind, executedAt, ← hnext]
  split_ifs <;> omega

theorem backlog_reschedule (rest : Timer Id Job) (hpos : 0 < tw.interval) (hdue : ¬ tw.nextTime > current) :
    backlog current (reschedule current (tw :: rest)) < backlog current (tw :: rest) := by
  have hsum : backlog current (reschedule current (tw :: rest)) =
      backlog current (executedAt current tw :: rest) :=
    ((perm_reschedule_cons rest hdue).map (behind current)).sum_eq
  have hless := behind_executedAt hpos hdue
  rw [hsum]
  simp only [backlog, List.map_cons, List.sum_cons]
  omega

def Due (current : Int) (timer : Timer Id Job) (job : IdentifiedJob Id Job) : Prop :=
  ∃ tw ∈ timer, tw.nextTime ≤ current ∧ job ∈ tw.jobs

/-- What a call of `processRepeatedJobs` does to an ordered list. -/
structure Processed (current : Int) (timer : Timer Id Job) (executed : List (IdentifiedJob Id Job))
    (left : Timer Id Job) : Prop where
  ordered : Ordered current left
  perm : (allJobs left).Perm (allJobs timer)
  executes : ∀ job, job ∈ executed ↔ Due current timer job
  later : ∀ tw ∈ left, current < tw.nextTime

theorem processed_none (h : Ordered current timer) (hlater : ∀ tw ∈ timer, current < tw.nextTime) :
    Processed current timer [] timer := by
  refine ⟨h, .refl _, ?_, hlater⟩
  intro job
  refine ⟨fun hmem => absurd hmem List.not_mem_nil, ?_⟩
  rintro ⟨tw, htw, hdue, _⟩
  exact absurd hdue (Int.not_le.mpr (hlater tw htw))

theorem processed_round {rest left : Timer Id Job} {executed : List (IdentifiedJob Id Job)}
    (hdue : ¬ tw.nextTime > current) (h : Processed current (reschedule current (tw :: rest)) executed left) :
    Processed current (tw :: rest) (tw.jobs ++ executed) left := by
  have hperm := perm_reschedule_cons rest hdue
  refine ⟨h.ordered, h.perm.trans (perm_reschedule current _), ?_, h.later⟩
  intro job
  rw [List.mem_append, h.executes]
  constructor
  · rintro (hjob | ⟨a, ha, hadue, hjob⟩)
    · exact ⟨tw, List.mem_cons_self, by omega, hjob⟩
    · rcases List.mem_cons.mp (hperm.mem_iff.mp ha) with rfl | ha
      · exact ⟨tw, List.mem_cons_self, by omega, hjob⟩
      · exact ⟨a, List.mem_cons_of_mem _ ha, hadue, hjob⟩
  · rintro ⟨a, ha, hadue, hjob⟩
    rcases List.mem_cons.mp ha with rfl | ha
    · exact .inl hjob
    · exact .inr ⟨a, hperm.mem_iff.mpr (List.mem_cons_of_mem _ ha), hadue, hjob⟩

theorem processRepeatedJobs_spec {fuel : Nat} (h : Ordered current timer) (hfuel : backlog current timer < fuel) :
    ∃ executed left, processRepeatedJobs current fuel timer = some (executed, left) ∧
      Processed current timer executed left := by
  induction fuel generalizing timer with
  | zero => omega
  | succ fuel ih =>
      cases timer with
      | nil => exact ⟨[], [], rfl, processed_none h (by simp)⟩
      | cons tw rest =>
          rw [processRepeatedJobs]
          by_cases hdue : tw.nextTime > current
          · rw [if_pos hdue]
            refine ⟨[], tw :: rest, rfl, processed_none h ?_⟩
            intro a ha
            rcases List.mem_cons.mp ha with rfl | ha
            · exact hdue
            · exact Int.lt_of_lt_of_le hdue ((List.pairwise_cons.mp h.sorted).1 a ha)
          · have hless := backlog_reschedule rest (h.positive tw List.mem_cons_self) hdue
            obtain ⟨executed, left, heq, hprocessed⟩ := ih (ordered_reschedule h hdue) (by omega)
            rw [if_neg hdue, heq]
            exact ⟨tw.jobs ++ executed, left, rfl, processed_round hdue hprocessed⟩

theorem processRepeatedJobs_mono {fuel : Nat} {result : List (IdentifiedJob Id Job) × Timer Id Job}
    (h : processRepeatedJobs current fuel timer = some result) :
    processRepeatedJobs current (fuel + 1) timer = some result := by
  induction fuel generalizing timer result with
  | zero => cases h
  | succ fuel ih =>
      cases timer with
      | nil => exact h
      | cons tw rest =>
          rw [processRepeatedJobs] at h ⊢
          by_cases hdue : tw.nextTime > current
          · rw [if_pos hdue] at h ⊢
            exact h
          · rw [if_neg hdue] at h ⊢
            obtain ⟨inner, hinner, rfl⟩ := Option.map_eq_some_iff.mp h
            rw [ih hinner]
            rfl

theorem processRepeatedJobs_unique {fuel fuel' : Nat} {result result' : List (IdentifiedJob Id Job) × Timer Id Job}
    (h : processRepeatedJobs current fuel timer = some result)
    (h' : processRepeatedJobs current fuel' timer = some result') : result = result' := by
  have hmore {n k : Nat} {r} (hr : processRepeatedJobs current n timer = some r) :
      processRepeatedJobs current (n + k) timer = some r := by
    induction k with
    | zero => exact hr
    | succ k ih => exact processRepeatedJobs_mono ih
  have hboth := (hmore (k := fuel') h).symm.trans (Nat.add_comm fuel fuel' ▸ hmore (k := fuel) h')
  exact Option.some.inj hboth

theorem processed_of_eq {fuel : Nat} {executed : List (IdentifiedJob Id Job)} {left : Timer Id Job}
    (h : Ordered current timer) (heq : processRepeatedJobs current fuel timer = some (executed, left)) :
    Processed current timer executed left := by
  obtain ⟨executed', left', heq', hprocessed⟩ := processRepeatedJobs_spec h (Nat.lt_succ_self _)
  obtain ⟨rfl, rfl⟩ := Prod.mk.inj (processRepeatedJobs_unique heq heq')
  exact hprocessed

end Rounds

section Runs

variable [DecidableEq Id] {id : Id}

inductive Call (Id Job : Type)
  | add (now : Int) (interval : UInt32) (job : IdentifiedJob Id Job)
  | remove (id : Id)
  | process (current : Int)

/-- The calls so far, the last first, the clock and the list they leave. -/
inductive Run : List (Call Id Job) → Int → Timer Id Job → Prop
  | start (clock : Int) : Run [] clock []
  | add {calls clock timer} (now : Int) (interval : UInt32) (job : IdentifiedJob Id Job) :
      Run calls clock timer → clock ≤ now → 0 < interval →
      Run (.add now interval job :: calls) now (addRepeatedJob (now + interval.toNat) interval job timer)
  | remove {calls clock timer} (id : Id) :
      Run calls clock timer → Run (.remove id :: calls) clock (removeRepeatedJob id timer)
  | process {calls clock timer} (current : Int) (fuel : Nat) (executed : List (IdentifiedJob Id Job))
      (left : Timer Id Job) : Run calls clock timer → clock ≤ current →
      processRepeatedJobs current fuel timer = some (executed, left) →
      Run (.process current :: calls) current left

def added : List (Call Id Job) → List (IdentifiedJob Id Job)
  | [] => []
  | .add _ _ job :: calls => job :: added calls
  | .remove _ :: calls | .process _ :: calls => added calls

/-- How many jobs with the id have to be there: a removal takes one. -/
def outstanding (id : Id) : List (Call Id Job) → Nat
  | [] => 0
  | .add _ _ job :: calls => outstanding id calls + if job.id = id then 1 else 0
  | .remove removed :: calls => outstanding id calls - if removed = id then 1 else 0
  | .process _ :: calls => outstanding id calls

variable {calls : List (Call Id Job)}

theorem ordered_of_run (h : Run calls clock timer) : Ordered clock timer := by
  induction h with
  | start clock => exact ordered_nil clock
  | add now interval job _ hclock hpos ih => exact ordered_addRepeatedJob (ih.mono hclock) hpos
  | remove id _ ih => exact ih.sublist (slots_removeRepeatedJob id _)
  | process current fuel executed left _ hclock heq ih => exact (processed_of_eq (ih.mono hclock) heq).ordered

theorem subperm_of_run (h : Run calls clock timer) : (allJobs timer).Subperm (added calls) := by
  induction h with
  | start => exact List.Subperm.refl _
  | add now interval job _ _ _ ih =>
      exact (perm_addRepeatedJob _ interval _).subperm.trans ((List.subperm_cons job).mpr ih)
  | @remove calls clock timer id _ ih =>
      refine List.Subperm.trans ?_ ih
      by_cases hsome : ∃ j ∈ allJobs timer, j.id = id
      · obtain ⟨j, _, hperm⟩ := perm_removeRepeatedJob hsome
        exact (List.sublist_cons_self j _).subperm.trans hperm.symm.subperm
      · rw [removeRepeatedJob_absent (fun j hj hid => hsome ⟨j, hj, hid⟩)]
  | process current fuel executed left hrun hclock heq ih =>
      exact (processed_of_eq ((ordered_of_run hrun).mono hclock) heq).perm.subperm.trans ih

theorem count_removeRepeatedJob (removed id : Id) (timer : Timer Id Job) :
    (allJobs (removeRepeatedJob removed timer)).countP (·.id = id) =
      (allJobs timer).countP (·.id = id) - if removed = id then 1 else 0 := by
  by_cases hsome : ∃ j ∈ allJobs timer, j.id = removed
  · obtain ⟨j, hid, hperm⟩ := perm_removeRepeatedJob hsome
    rw [hperm.countP_eq, List.countP_cons, hid]
    by_cases heq : removed = id <;> simp [heq]
  · have habsent : ∀ j ∈ allJobs timer, j.id ≠ removed := fun j hj hid => hsome ⟨j, hj, hid⟩
    rw [removeRepeatedJob_absent habsent]
    by_cases heq : removed = id
    · have hzero : (allJobs timer).countP (·.id = id) = 0 := by
        rw [List.countP_eq_zero]
        intro j hj
        rw [decide_eq_true_eq, ← heq]
        exact habsent j hj
      rw [hzero, Nat.zero_sub]
    · rw [if_neg heq, Nat.sub_zero]

theorem count_of_run (h : Run calls clock timer) :
    (allJobs timer).countP (·.id = id) = outstanding id calls := by
  induction h with
  | start => rfl
  | add now interval job _ _ _ ih =>
      rw [(perm_addRepeatedJob _ interval _).countP_eq, List.countP_cons, ih, outstanding]
      simp only [decide_eq_true_eq]
  | remove removed _ ih => rw [count_removeRepeatedJob, ih, outstanding]
  | process current fuel executed left hrun hclock heq ih =>
      rw [(processed_of_eq ((ordered_of_run hrun).mono hclock) heq).perm.countP_eq, ih, outstanding]

/-- The list of repeated jobs after any calls, and what the next call of
`processRepeatedJobs` does. -/
theorem repeatedJobs_in_order (h : Run calls clock timer) :
    timer.Pairwise (fun a b => a.nextTime ≤ b.nextTime) ∧ timer.Pairwise (fun a b => a.interval ≠ b.interval) ∧
    (allJobs timer).Subperm (added calls) ∧
    (∀ id, (allJobs timer).countP (·.id = id) = outstanding id calls) ∧
    ∀ current, clock ≤ current → ∃ executed left,
      (∀ fuel, backlog current timer < fuel → processRepeatedJobs current fuel timer = some (executed, left)) ∧
      (∀ tw ∈ timer, tw.nextTime ≤ current → ∀ job ∈ tw.jobs, job ∈ executed) ∧
      (∀ tw ∈ left, current < tw.nextTime) ∧ (allJobs left).Perm (allJobs timer) := by
  have hordered := ordered_of_run h
  refine ⟨hordered.sorted, hordered.distinct, subperm_of_run h, fun id => count_of_run h, ?_⟩
  intro current hclock
  obtain ⟨executed, left, heq, hprocessed⟩ :=
    processRepeatedJobs_spec (hordered.mono hclock) (Nat.lt_succ_self _)
  refine ⟨executed, left, ?_, ?_, hprocessed.later, hprocessed.perm⟩
  · intro fuel hfuel
    obtain ⟨executed', left', heq', _⟩ := processRepeatedJobs_spec (hordered.mono hclock) hfuel
    rw [heq', processRepeatedJobs_unique heq' heq]
  · intro tw htw hdue job hjob
    exact (hprocessed.executes job).mpr ⟨tw, htw, hdue, hjob⟩

def sampleTimer : Timer Nat Nat := [⟨20010, 20000, [⟨2, 7⟩]⟩, ⟨50000, 50000, [⟨1, 5⟩]⟩]

theorem run_sampleTimer : Run [.add 10 20000 ⟨2, 7⟩, .add 0 50000 ⟨1, 5⟩] 10 sampleTimer :=
  (((Run.start 0).add 0 50000 ⟨1, 5⟩ (by decide) (by decide)).add 10 20000 ⟨2, 7⟩ (by decide) (by decide))

/-- Both entries are due and behind the clock, so both are executed twice. -/
theorem sampleTimer_in_order : sampleTimer.Pairwise (fun a b => a.nextTime ≤ b.nextTime) ∧
    ∃ executed left, processRepeatedJobs 100000 5 sampleTimer = some (executed, left) ∧
      (⟨1, 5⟩ ∈ executed ∧ ⟨2, 7⟩ ∈ executed) ∧ (∀ tw ∈ left, 100000 < tw.nextTime) ∧
      (allJobs left).Perm (allJobs sampleTimer) := by
  obtain ⟨hsorted, _, _, _, hprocess⟩ := repeatedJobs_in_order run_sampleTimer
  obtain ⟨executed, left, heq, hexecuted, hlater, hperm⟩ := hprocess 100000 (by decide)
  refine ⟨hsorted, executed, left, heq 5 (by decide), ⟨?_, ?_⟩, hlater, hperm⟩
  · exact hexecuted ⟨50000, 50000, [⟨1, 5⟩]⟩ (by decide) (by decide) ⟨1, 5⟩ (by decide)
  · exact hexecuted ⟨20010, 20000, [⟨2, 7⟩]⟩ (by decide) (by decide) ⟨2, 7⟩ (by decide)

end Runs

end OpcUa.TimerRuns
