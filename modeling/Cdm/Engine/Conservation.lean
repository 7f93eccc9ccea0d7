import Cdm.Engine.Scheduler

/-!
# Every range once, every counter once

At every moment of a run the ranges that have been handed out are those with an outcome and those a
worker holds, and the run's committed counters are the sum over the ranges that have been merged.
When the workers have left, nothing is held, so the outcomes and the unclaimed ranges are the plan
and the report's counters are the sum over the outcomes.

The cursor of the work list keeps moving when the list is exhausted; it does not wrap, because each
worker leaves at its first claim that finds nothing.
-/

namespace Cdm

open JobCounters List

namespace WorkerState

/-- The range a worker has claimed and not recorded. -/
def held : WorkerState → List TokenRange
  | processing range => [range]
  | closing _ finished | reporting finished => [finished.outcome.range]
  | _ => []

/-- The range a worker has merged and not recorded. -/
def merged : WorkerState → List FinishedRange
  | reporting finished => [finished]
  | _ => []

/-- The range a worker has finished and not recorded. -/
def finished : WorkerState → List FinishedRange
  | closing _ finished | reporting finished => [finished]
  | _ => []

theorem eq_done_of_isDone {state : WorkerState} (h : state.isDone = true) : state = .done := by
  cases state <;> first | rfl | cases h

end WorkerState

/-- Replacing an element of a list exchanges what it contributes. -/
theorem perm_flatMap_set {α β : Type*} {l : List α} {i : ℕ} {a : α} (h : l[i]? = some a) (b : α)
    (f : α → List β) : ((l.set i b).flatMap f ++ f a).Perm (l.flatMap f ++ f b) := by
  induction l generalizing i with
  | nil => cases h
  | cons x xs ih =>
    cases i with
    | zero =>
      cases h
      rw [set_cons_zero, flatMap_cons, flatMap_cons, append_assoc,
        append_assoc]
      calc (f b ++ (xs.flatMap f ++ f a)).Perm (xs.flatMap f ++ f a ++ f b) := perm_append_comm
        _ = xs.flatMap f ++ (f a ++ f b) := append_assoc ..
        (xs.flatMap f ++ (f a ++ f b)).Perm (f a ++ (xs.flatMap f ++ f b)) :=
          perm_append_comm_assoc ..
    | succ i =>
      rw [set_cons_succ, flatMap_cons, flatMap_cons, append_assoc,
        append_assoc]
      exact (ih h).append_left (f x)

/-- Replacing an element by one that contributes the same changes nothing. -/
theorem flatMap_set_of_eq {α β : Type*} {l : List α} {i : ℕ} {a b : α} (h : l[i]? = some a)
    {f : α → List β} (hf : f b = f a) : (l.set i b).flatMap f = l.flatMap f := by
  induction l generalizing i with
  | nil => rfl
  | cons x xs ih =>
    cases i with
    | zero =>
      cases h
      rw [set_cons_zero, flatMap_cons, flatMap_cons, hf]
    | succ i => rw [set_cons_succ, flatMap_cons, flatMap_cons, ih h]

namespace SchedulerRun

variable {settings : SchedulerSettings} {job : JobKind} {plan : TokenPlan}

/-- The ranges with an outcome, and those that workers hold. -/
def accounted (s : SchedulerRun) : List TokenRange :=
  s.outcomes.map (fun f => f.outcome.range) ++ s.workers.flatMap WorkerState.held

/-- What a counter should be: the sum over the ranges that have been merged. -/
def total (s : SchedulerRun) (kind : CounterKind) : UInt64 :=
  (s.outcomes.map fun f => f.counters.committed kind).sum +
    ((s.workers.flatMap WorkerState.merged).map fun f => f.counters.committed kind).sum

/-- What holds in every state of a run. -/
structure Conserved (settings : SchedulerSettings) (job : JobKind) (plan : TokenPlan)
    (s : SchedulerRun) : Prop where
  workers : s.workers.length = settings.workerCount
  ranges : s.queue.ranges = plan.tokenRanges
  /-- Only a worker that leaves moves the cursor past the end. -/
  cursor : s.queue.next.toNat ≤ s.queue.ranges.length + s.workers.countP WorkerState.isDone
  claims : s.accounted.Perm s.queue.taken
  job_eq : s.runCounters.job = job
  jobs : ∀ state ∈ s.workers, ∀ f ∈ state.finished, f.counters.job = job
  counters : ∀ kind, s.runCounters.committed kind = s.total kind

theorem countP_isDone_set {s : SchedulerRun} {w : ℕ} {a : WorkerState}
    (hw : s.workers[w]? = some a) (hnot : a.isDone = false) (b : WorkerState) :
    (s.workers.set w b).countP WorkerState.isDone =
      s.workers.countP WorkerState.isDone + if b.isDone then 1 else 0 := by
  obtain ⟨hlt, hget⟩ := List.getElem?_eq_some_iff.1 hw
  rw [countP_set hlt, hget, hnot]
  rfl

/-- The cursor is far from wrapping. -/
theorem Conserved.next_lt {s : SchedulerRun} (hi : Conserved settings job plan s) :
    s.queue.next.toNat + 1 < 2 ^ 64 := by
  have hworkers : s.workers.countP WorkerState.isDone ≤ settings.workerCount :=
    (countP_le_length ..).trans hi.workers.le
  have hcursor := hi.cursor
  have hlen := s.queue.ranges_length_le
  have hcount := settings.workers.toNat_lt
  simp only [SchedulerSettings.workerCount] at hworkers
  simp only [isizeMax] at hlen
  omega

theorem Conserved.cursor_set {s : SchedulerRun} (hi : Conserved settings job plan s) {w : ℕ}
    {a : WorkerState} (hw : s.workers[w]? = some a) (hnot : a.isDone = false) (b : WorkerState) :
    s.queue.next.toNat ≤
      s.queue.ranges.length + (s.workers.set w b).countP WorkerState.isDone := by
  rw [countP_isDone_set hw hnot b]
  exact hi.cursor.trans (by omega)

theorem Conserved.jobs_set {s : SchedulerRun} (hi : Conserved settings job plan s) {w : ℕ}
    {b : WorkerState} (hjobs : ∀ f ∈ b.finished, f.counters.job = job) :
    ∀ state ∈ s.workers.set w b, ∀ f ∈ state.finished, f.counters.job = job := by
  intro state hstate f hf
  rcases mem_or_eq_of_mem_set hstate with h | rfl
  · exact hi.jobs state h f hf
  · exact hjobs f hf

/-- What a worker contributes does not change when it moves to a state with the same ranges. -/
theorem Conserved.silent {s : SchedulerRun} (hi : Conserved settings job plan s) {w : ℕ}
    {a : WorkerState} (hw : s.workers[w]? = some a) (hnot : a.isDone = false) (b : WorkerState)
    (hheld : b.held = a.held) (hmerged : b.merged = a.merged)
    (hjobs : ∀ f ∈ b.finished, f.counters.job = job) (control : RunControl) :
    Conserved settings job plan ({ s with control := control }.setWorker w b) := by
  refine ⟨(length_set ..).trans hi.workers, hi.ranges, hi.cursor_set hw hnot b, ?_, hi.job_eq,
    hi.jobs_set hjobs, fun kind => ?_⟩
  · change (_ ++ (s.workers.set w b).flatMap WorkerState.held).Perm _
    rw [flatMap_set_of_eq hw hheld]
    exact hi.claims
  · change _ = _ + (((s.workers.set w b).flatMap WorkerState.merged).map _).sum
    rw [flatMap_set_of_eq hw hmerged]
    exact hi.counters kind

/-- A claim hands a range to the worker, or the worker leaves. -/
theorem Conserved.claim {s : SchedulerRun} (hi : Conserved settings job plan s) {w : ℕ}
    (hw : s.workers[w]? = some .claiming) :
    Conserved settings job plan
      ({ s with queue := s.queue.claim.2 }.setWorker w (.afterClaim s.queue.claim.1)) := by
  have hcount := countP_isDone_set hw rfl (.afterClaim s.queue.claim.1)
  have hcursor := hi.cursor
  refine ⟨(length_set ..).trans hi.workers, hi.ranges, ?_, ?_, hi.job_eq,
    hi.jobs_set fun f hf => ?_, fun kind => ?_⟩
  · change s.queue.claim.2.next.toNat ≤ s.queue.ranges.length + (s.workers.set w _).countP _
    rw [WorkQueue.toNat_next_claim hi.next_lt, hcount]
    cases hc : s.queue.claim.1 with
    | none =>
      simp only [WorkerState.afterClaim, WorkerState.isDone, if_true]
      omega
    | some range =>
      have := WorkQueue.lt_length_of_claim hc
      omega
  · have hset : ((s.workers.set w (.afterClaim s.queue.claim.1)).flatMap WorkerState.held).Perm
        (s.workers.flatMap WorkerState.held ++ s.queue.claim.1.toList) := by
      have := perm_flatMap_set hw (.afterClaim s.queue.claim.1) WorkerState.held
      cases hc : s.queue.claim.1 <;>
        simpa [WorkerState.held, WorkerState.afterClaim, hc] using this
    change (_ ++ (s.workers.set w _).flatMap WorkerState.held).Perm s.queue.claim.2.taken
    rw [WorkQueue.taken_claim hi.next_lt]
    refine (hset.append_left _).trans ?_
    rw [← append_assoc]
    exact hi.claims.append_right _
  · cases hc : s.queue.claim.1 <;> simp [hc, WorkerState.afterClaim, WorkerState.finished] at hf
  · have hmerged : (WorkerState.afterClaim s.queue.claim.1).merged =
        WorkerState.claiming.merged := by
      cases s.queue.claim.1 <;> rfl
    change _ = _ + (((s.workers.set w _).flatMap WorkerState.merged).map _).sum
    rw [flatMap_set_of_eq hw hmerged]
    exact hi.counters kind

/-- A worker merges the counters of its range. -/
theorem Conserved.merge {s : SchedulerRun} (hi : Conserved settings job plan s) {w : ℕ}
    {f : FinishedRange} (hw : s.workers[w]? = some (.closing [] f)) :
    Conserved settings job plan
      ({ s with runCounters := (s.runCounters.add f.counters).toOption.getD s.runCounters }.setWorker
        w (.reporting f)) := by
  have hmem := mem_of_getElem? hw
  have hjob : f.counters.job = s.runCounters.job :=
    (hi.jobs _ hmem f (mem_singleton.2 rfl)).trans hi.job_eq.symm
  obtain ⟨c', hadd⟩ := exists_add hjob
  obtain ⟨-, hjob', hcommitted⟩ := add_eq_ok hadd
  rw [hadd]
  refine ⟨(length_set ..).trans hi.workers, hi.ranges, hi.cursor_set hw rfl _, ?_,
    hjob'.trans hi.job_eq, hi.jobs_set ?_, ?_⟩
  · have hheld : (WorkerState.reporting f).held = (WorkerState.closing [] f).held := rfl
    change (_ ++ (s.workers.set w (.reporting f)).flatMap WorkerState.held).Perm _
    rw [flatMap_set_of_eq hw hheld]
    exact hi.claims
  · intro g hg
    rw [mem_singleton.1 hg]
    exact hjob.trans hi.job_eq
  · intro kind
    have hperm : ((s.workers.set w (.reporting f)).flatMap WorkerState.merged).Perm
        (s.workers.flatMap WorkerState.merged ++ [f]) := by
      simpa [WorkerState.merged] using perm_flatMap_set hw (.reporting f) WorkerState.merged
    change c'.committed kind = _ + (((s.workers.set w (.reporting f)).flatMap _).map _).sum
    rw [(hcommitted kind).1, hi.counters kind, (hperm.map _).sum_eq, map_append,
      sum_append, ← add_assoc, map_singleton, sum_singleton]
    rfl

/-- A worker records the outcome of its range. -/
theorem Conserved.record {s : SchedulerRun} (hi : Conserved settings job plan s) {w : ℕ}
    {f : FinishedRange} (hw : s.workers[w]? = some (.reporting f)) :
    Conserved settings job plan
      ({ s with outcomes := s.outcomes ++ [f] }.setWorker w .limiting) := by
  refine ⟨(length_set ..).trans hi.workers, hi.ranges, hi.cursor_set hw rfl _, ?_, hi.job_eq,
    hi.jobs_set (by intro g hg; cases hg), ?_⟩
  · have hperm : ((s.workers.set w .limiting).flatMap WorkerState.held ++ [f.outcome.range]).Perm
        (s.workers.flatMap WorkerState.held) := by
      simpa [WorkerState.held] using perm_flatMap_set hw .limiting WorkerState.held
    refine List.Perm.trans ?_ hi.claims
    change ((s.outcomes ++ [f]).map _ ++ (s.workers.set w .limiting).flatMap _).Perm _
    rw [map_append, append_assoc]
    exact (perm_append_comm.trans hperm).append_left _
  · intro kind
    have hperm : ((s.workers.set w .limiting).flatMap WorkerState.merged ++ [f]).Perm
        (s.workers.flatMap WorkerState.merged) := by
      simpa [WorkerState.merged] using perm_flatMap_set hw .limiting WorkerState.merged
    change s.runCounters.committed kind = ((s.outcomes ++ [f]).map _).sum +
      (((s.workers.set w .limiting).flatMap _).map _).sum
    rw [hi.counters kind, total, ← (hperm.map _).sum_eq, map_append, sum_append,
      map_append, sum_append, map_singleton, sum_singleton, add_assoc,
      add_comm (List.sum _) (f.counters.committed kind)]

theorem Conserved.work {s s' : SchedulerRun} (hi : Conserved settings job plan s) {w : ℕ}
    {state : WorkerState} (hw : s.workers[w]? = some state)
    (h : s.workStep settings w state = some s') : Conserved settings job plan s' := by
  have hjobs : ∀ f ∈ state.finished, f.counters.job = job :=
    hi.jobs state (mem_of_getElem? hw)
  cases state with
  | waiting =>
    simp only [workStep] at h
    split_ifs at h
    cases h
    exact hi.silent hw rfl .checking rfl rfl hjobs s.control
  | checking =>
    cases h
    split_ifs
    · exact hi.silent hw rfl .done rfl rfl hjobs s.control
    · exact hi.silent hw rfl .claiming rfl rfl hjobs s.control
  | claiming =>
    cases h
    exact hi.claim hw
  | processing range => cases h
  | closing ops finished =>
    cases ops with
    | nil =>
      cases h
      exact hi.merge hw
    | cons op ops =>
      cases h
      exact hi.silent hw rfl (.closing ops finished) rfl rfl hjobs _
  | reporting finished =>
    cases h
    exact hi.record hw
  | limiting =>
    cases h
    split_ifs
    · exact hi.silent hw rfl .waiting rfl rfl hjobs s.control
    · exact hi.silent hw rfl .counting rfl rfl hjobs s.control
  | counting =>
    cases h
    exact hi.silent hw rfl (.halting _) rfl rfl hjobs s.control
  | halting ops =>
    cases ops with
    | nil =>
      cases h
      exact hi.silent hw rfl .waiting rfl rfl hjobs s.control
    | cons op ops =>
      cases h
      exact hi.silent hw rfl (.halting ops) rfl rfl hjobs _
  | done => cases h

/-- However a range ends, it keeps its range and the job of its counters. -/
theorem processRange_spec (c : JobCounters) (range : TokenRange) (result : RangeResult) :
    (processRange c range result).outcome.range = range ∧
      (processRange c range result).counters.job = c.job := by
  cases result with
  | verdict verdict => exact ⟨rfl, job_recordRangeSuccess c⟩
  | error error => exact ⟨rfl, job_recordRangeFailure c⟩
  | panic message => exact ⟨rfl, job_recordRangeFailure c⟩
  | killed => exact ⟨rfl, rfl⟩

theorem step_conserved {s s' : SchedulerRun} {act : Act} (hi : Conserved settings job plan s)
    (h : step settings s act = some s') : Conserved settings job plan s' := by
  cases act with
  | request request =>
    simp only [step] at h
    split_ifs at h
    cases h
    exact ⟨hi.workers, hi.ranges, hi.cursor, hi.claims, hi.job_eq, hi.jobs, hi.counters⟩
  | advance call =>
    simp only [step] at h
    split at h
    · cases h
      exact ⟨hi.workers, hi.ranges, hi.cursor, hi.claims, hi.job_eq, hi.jobs, hi.counters⟩
    · cases h
  | work w =>
    obtain ⟨state, hw, hstep⟩ := Option.bind_eq_some_iff.1 h
    exact hi.work hw hstep
  | finish w result units =>
    simp only [step] at h
    split at h
    · next range hw =>
      split_ifs at h
      cases h
      obtain ⟨hrange, hjob⟩ := processRange_spec ⟨s.runCounters.job, units⟩ range result
      refine hi.silent hw rfl (.closing _ _) ?_ rfl ?_ s.control
      · simp [WorkerState.held, hrange]
      · intro f hf
        rw [mem_singleton.1 hf, hjob]
        exact hi.job_eq
    · cases h

theorem init_conserved (hlen : plan.ranges.length ≤ isizeMax) :
    Conserved settings job plan (init settings job plan hlen) := by
  refine ⟨length_replicate, rfl, Nat.zero_le _, ?_, rfl, ?_, fun kind => ?_⟩
  · simp [accounted, init, WorkQueue.taken, WorkQueue.claimed, WorkQueue.new, WorkerState.held]
  · intro state hstate f hf
    rw [eq_of_mem_replicate hstate] at hf
    cases hf
  · have hmerged : (List.replicate settings.workerCount WorkerState.waiting).flatMap
        WorkerState.merged = [] := by
      refine flatMap_eq_nil_iff.2 fun state hstate => ?_
      rw [eq_of_mem_replicate hstate]
      rfl
    simp [total, init, hmerged]

/-- With all workers gone, no range is held. -/
theorem flatMap_workers_of_joined {β : Type*} {s : SchedulerRun} (hj : s.Joined)
    {f : WorkerState → List β} (hf : f .done = []) : s.workers.flatMap f = [] := by
  refine flatMap_eq_nil_iff.2 fun state hstate => ?_
  rw [WorkerState.eq_done_of_isDone (hj state hstate), hf]

/-- The report's counters are the run's. -/
theorem committed_report (s : SchedulerRun) (kind : CounterKind) :
    s.report.counters.committed kind = s.runCounters.committed kind := by
  obtain ⟨c', hadd⟩ := exists_add
    (show s.runCounters.job = (JobCounters.new s.runCounters.job).job from rfl)
  obtain ⟨-, -, hcommitted⟩ := add_eq_ok hadd
  have hc' : s.report.counters = c'.flush := by
    simp only [report, hadd]
    rfl
  rw [hc', committed_flush_of_idle ((hcommitted kind).2.trans rfl),
    (hcommitted kind).1, committed_new, zero_add]

section Joined

variable {s : SchedulerRun} (hi : Conserved settings job plan s) (hj : s.Joined)

include hi hj

/-- The outcomes and the unclaimed ranges are the plan. -/
theorem Conserved.accounted_of_joined :
    (s.outcomes.map (fun f => f.outcome.range) ++ s.queue.unclaimed).Perm plan.tokenRanges := by
  have hheld := flatMap_workers_of_joined hj (f := WorkerState.held) rfl
  have hclaims := hi.claims
  rw [accounted, hheld, append_nil] at hclaims
  calc (s.outcomes.map (fun f => f.outcome.range) ++ s.queue.unclaimed).Perm
        (s.queue.taken ++ s.queue.unclaimed) := hclaims.append_right _
    _ = plan.tokenRanges := by rw [WorkQueue.taken_append_unclaimed, hi.ranges]

/-- So are those of the report. -/
theorem Conserved.report_ranges :
    (s.report.outcomes.map (fun f => f.outcome.range) ++ s.report.unclaimed).Perm
      plan.tokenRanges := by
  have hsorted : s.report.outcomes.Perm s.outcomes := mergeSort_perm ..
  exact ((hsorted.map _).append_right _).trans (hi.accounted_of_joined hj)

/-- The report's counters are the sums over the outcomes. -/
theorem Conserved.committed_report_of_joined (kind : CounterKind) :
    s.report.counters.committed kind =
      (s.outcomes.map fun f => f.counters.committed kind).sum := by
  have hmerged := flatMap_workers_of_joined hj (f := WorkerState.merged) rfl
  rw [committed_report, hi.counters, total, hmerged]
  simp

end Joined

/-- **Exactly once.** For every plan, every number of workers, whatever the processor does, and every
interleaving with pauses, resumes, stops and kills: when the workers have left, the ranges with an
outcome and the unclaimed ranges are the plan, and each committed counter of the report is the sum
over the outcomes of the range's own, which its metrics string shows. -/
theorem ranges_and_counters_conserved {hlen : plan.ranges.length ≤ isizeMax} {acts : List Act}
    {s : SchedulerRun} (hrun : (lts settings).exec (init settings job plan hlen) acts = some s)
    (hj : s.Joined) :
    (s.report.outcomes.map (fun f => f.outcome.range) ++ s.report.unclaimed).Perm
        plan.tokenRanges ∧
      ∀ kind, s.report.counters.committed kind =
        (s.report.outcomes.map fun f => f.counters.committed kind).sum := by
  have hi : Conserved settings job plan s :=
    LTS.exec_invariant hrun (init_conserved hlen) fun _ _ _ hi h => step_conserved hi h
  have hsorted : s.report.outcomes.Perm s.outcomes := mergeSort_perm ..
  refine ⟨hi.report_ranges hj, fun kind => ?_⟩
  rw [hi.committed_report_of_joined hj, (hsorted.map _).sum_eq]

/-! ### A run that is killed -/

/-- Three ranges of ten tokens. -/
def killedPlan : TokenPlan where
  partitioner := .murmur3
  strategy := .fixed
  bounds := ⟨0, 29, by decide, by decide, by decide⟩
  coveragePercent := 100
  runId := ⟨1⟩
  resumedFrom := none
  ranges := [.unrouted ⟨0, 9, by decide, by decide, by decide⟩,
    .unrouted ⟨10, 19, by decide, by decide, by decide⟩,
    .unrouted ⟨20, 29, by decide, by decide, by decide⟩]
  ranges_ne_nil := by decide

/-- Two workers and no error limit. -/
def pairSettings : SchedulerSettings := ⟨2, 0⟩

/-- The counters of a range that has read `n` rows. -/
def readRows (n : UInt64) : CounterKind → CounterUnit
  | .read => ⟨n, 0⟩
  | _ => {}

/-- The first range fails, the second is cut short by a kill, and nobody claims the third. -/
def killedActs : List Act :=
  [.work 0, .work 0, .work 0, .work 1, .work 1, .work 1,
    .finish 0 (.error ⟨.read, "timeout", {}⟩) (readRows 5), .work 0, .work 0, .work 0,
    .request .kill, .advance 0, .advance 0, .advance 0, .advance 0,
    .finish 1 .killed (readRows 7), .work 1, .work 1, .work 1, .work 1, .work 1, .work 0, .work 0]

instance decidableJoined (s : SchedulerRun) : Decidable s.Joined :=
  inferInstanceAs (Decidable (∀ state ∈ s.workers, _))

theorem ranges_and_counters_conserved_killed :
    ∃ s, (lts pairSettings).exec (init pairSettings .migrate killedPlan (by decide)) killedActs =
        some s ∧ s.Joined ∧ s.report.outcomes.length = 2 ∧
      (s.report.outcomes.map (fun f => f.outcome.range) ++ s.report.unclaimed).Perm
        killedPlan.tokenRanges ∧
      ∀ kind, s.report.counters.committed kind =
        (s.report.outcomes.map fun f => f.counters.committed kind).sum := by
  have hsome : ((lts pairSettings).exec (init pairSettings .migrate killedPlan (by decide))
      killedActs).any (fun s => s.Joined ∧ s.outcomes.length = 2) = true := by decide
  obtain ⟨s, hs, h⟩ := (Option.any_eq_true _ _).1 hsome
  obtain ⟨hj, hlen⟩ := of_decide_eq_true h
  exact ⟨s, hs, hj, (length_mergeSort ..).trans hlen, ranges_and_counters_conserved hs hj⟩

end SchedulerRun

end Cdm
