import Cdm.Engine.Conservation
import Cdm.Track.Resume

/-!
# A run that left work behind is adopted

`auto_rerun` adopts the newest run unless it ended and its metrics string shows no failed partition.
A run that left a range unclaimed or abandoned was stopped, and a stop records its reason before it
takes effect, so the run did not end; a range that failed is counted, and the count is in the string.
-/

namespace Cdm

open JobCounters List

/-! ### The failed partitions in the metrics string -/

theorem JobCounters.toList_entry (c : JobCounters) :
    (c.entry .committed .partitionsFailed).toList = partitionsFailedPrefix.toList ++
      ' ' :: Nat.toDigits 10 (c.committed .partitionsFailed).toNat := by
  have hnum : toString (c.countOf .partitionsFailed .committed) =
      String.ofList (Nat.toDigits 10 (c.committed .partitionsFailed).toNat) :=
    Nat.toString_eq_ofList_toDigits
  rw [entry, hnum, String.toList_append, String.toList_append, String.toList_ofList]
  simp [CounterKind.titleCase, partitionsFailedPrefix]

/-- A failed partition is read back from the stored string. -/
theorem JobCounters.hasFailedPartitions_runInfo {c : JobCounters}
    (h : c.committed .partitionsFailed ≠ 0) : hasFailedPartitions c.runInfo = true := by
  generalize hn : (c.committed .partitionsFailed).toNat = n
  have hpos : 0 < n := by
    rw [← hn, Nat.pos_iff_ne_zero]
    exact fun h0 => h (UInt64.toNat_inj.1 h0)
  have hdigit : ∀ d ∈ Nat.toDigits 10 n, d.isDigit = true := fun d hd =>
    Nat.isDigit_of_mem_toDigits (by decide) (by decide) hd
  have hlast : ∀ d ∈ (Nat.toDigits 10 n).getLast?, Text.isWhitespace d = false := fun d hd =>
    Text.isWhitespace_of_isDigit (hdigit d (mem_of_getLast? hd))
  have hhead : ∀ d ∈ (Nat.toDigits 10 n).head?, Text.isWhitespace d = false := fun d hd =>
    Text.isWhitespace_of_isDigit (hdigit d (mem_of_head? hd))
  -- the last entry of the string, and what reading it gives
  have hentry : (c.entry .committed .partitionsFailed).toList =
      partitionsFailedPrefix.toList ++ ' ' :: Nat.toDigits 10 n := hn ▸ c.toList_entry
  have htrim : Text.trim ([' '] ++ (partitionsFailedPrefix.toList ++ ' ' :: Nat.toDigits 10 n)) =
      partitionsFailedPrefix.toList ++ ' ' :: Nat.toDigits 10 n := by
    refine Text.trim_append (forall_mem_singleton.2 rfl) (fun d hd => ?_) fun d hd => hlast d ?_
    · cases hd
      decide
    · rwa [getLast?_append_of_ne_nil _ (by simp),
        getLast?_cons_of_ne_nil Nat.toDigits_ne_nil] at hd
  have hnumber : Text.trim (' ' :: Nat.toDigits 10 n) = Nat.toDigits 10 n :=
    Text.trim_append (forall_mem_singleton.2 rfl) hhead hlast
  obtain ⟨start, hinfo⟩ := c.runInfo_eq
  have hmem : [' '] ++ (partitionsFailedPrefix.toList ++ ' ' :: Nat.toDigits 10 n) ∈
      Text.splitOn ';' c.runInfo.toList := by
    have hlist : c.runInfo.toList = start.toList ++
        ';' :: ([' '] ++ (partitionsFailedPrefix.toList ++ ' ' :: Nat.toDigits 10 n)) := by
      rw [hinfo, String.toList_append, String.toList_append, hentry]
      simp [metricSeparator]
    rw [hlist]
    refine mem_of_mem_tail (Text.mem_tail_splitOn ?_ _)
    intro hsemi
    simp only [mem_append, mem_cons] at hsemi
    rcases hsemi with (h | h) | h | h | h
    · cases h
    · cases h
    · revert h
      decide
    · cases h
    · exact absurd (hdigit _ h) (by decide)
  refine any_eq_true.2 ⟨_, hmem, ?_⟩
  rw [htrim, Text.stripPrefix_append]
  simp only [hnumber, Text.parseI64_toDigits]
  split_ifs
  · simpa using hpos
  · rfl

/-- What is left of a call of `stop` that a worker makes. -/
def WorkerState.ops : WorkerState → List ControlOp
  | closing ops _ | halting ops => ops
  | _ => []

namespace SchedulerRun

variable {settings : SchedulerSettings} {job : JobKind} {plan : TokenPlan}

/-! ### What the scheduler counts -/

/-- A processor counts rows, and leaves the number of failed partitions to the scheduler. -/
def RowsOnly (_ : SchedulerRun) : Act → Prop
  | .finish _ _ units => units .partitionsFailed = {}
  | _ => True

theorem isRegistered_partitionsFailed (c : JobCounters) :
    c.isRegistered .partitionsFailed = true := by
  unfold isRegistered
  cases c.job <;> rfl

/-- A failed range counts as one failed partition. -/
theorem committed_recordRangeFailure (c : JobCounters) :
    (recordRangeFailure c).flush.committed .partitionsFailed =
      c.committed .partitionsFailed + c.countOf .partitionsFailed .interim + 1 := by
  unfold recordRangeFailure
  rw [committed_flush, JobCounters.committed, countOf_incrementKind,
    countOf_incrementKind]
  simp only [isRegistered_partitionsFailed]
  split_ifs <;> simp [countOf_incrementKind, add_assoc] at *

theorem committed_recordRangeSuccess (c : JobCounters) :
    (recordRangeSuccess c).flush.committed .partitionsFailed =
      c.committed .partitionsFailed + c.countOf .partitionsFailed .interim := by
  unfold recordRangeSuccess
  rw [committed_flush, JobCounters.committed, countOf_incrementKind,
    countOf_incrementKind]
  simp

/-- The failed partitions of a finished range: one if it failed. -/
def CountsFailure (f : FinishedRange) : Prop :=
  f.counters.committed .partitionsFailed = if f.outcome.status = .fail then 1 else 0

theorem countsFailure_processRange {units : CounterKind → CounterUnit} (job : JobKind)
    (h : units .partitionsFailed = {}) (range : TokenRange) (result : RangeResult) :
    CountsFailure (processRange ⟨job, units⟩ range result) := by
  have hzero : ∀ view, (⟨job, units⟩ : JobCounters).countOf .partitionsFailed view = 0 := by
    intro view
    simp only [countOf, h]
    cases view <;> simp [CounterUnit.get]
  cases result with
  | verdict verdict =>
    have hstatus : verdict.status ≠ .fail := by cases verdict <;> decide
    refine (committed_recordRangeSuccess _).trans ?_
    rw [JobCounters.committed, hzero, hzero]
    exact (if_neg hstatus).symm
  | error error =>
    refine (committed_recordRangeFailure _).trans ?_
    rw [JobCounters.committed, hzero, hzero]
    rfl
  | panic message =>
    refine (committed_recordRangeFailure _).trans ?_
    rw [JobCounters.committed, hzero, hzero]
    rfl
  | killed =>
    refine (committed_flush _ _).trans ?_
    rw [JobCounters.committed, hzero, hzero]
    rfl

/-! ### Why a run stops -/

/-- The ranges that have ended, recorded or not. -/
def ended (s : SchedulerRun) : List FinishedRange :=
  s.outcomes ++ s.workers.flatMap WorkerState.finished

/-- What holds in every state of a run whose processor counts rows only. -/
structure Stopped (s : SchedulerRun) : Prop where
  explained : s.control.Explained
  calls : ∀ ops ∈ s.calls, RecordsFirst s.control.reason.isSome ops
  workerOps : ∀ state ∈ s.workers, RecordsFirst s.control.reason.isSome state.ops
  /-- A worker leaves when the run is stopping, or when there is nothing left to claim. -/
  left : (∃ state ∈ s.workers, state.isDone = true) →
    s.control.stopping = true ∨ s.queue.ranges.length ≤ s.queue.next.toNat
  /-- A range is abandoned in a run that stops. -/
  abandoned : ∀ f ∈ s.ended, f.outcome.abandoned = true → s.control.reason.isSome = true
  failures : ∀ f ∈ s.ended, CountsFailure f

theorem mem_ended_setWorker {s : SchedulerRun} {w : ℕ} {b : WorkerState} {f : FinishedRange}
    {control : RunControl} (h : f ∈ ({ s with control := control }.setWorker w b).ended) :
    f ∈ s.ended ∨ f ∈ b.finished := by
  rcases mem_append.1 h with h | h
  · exact .inl (mem_append_left _ h)
  · obtain ⟨state, hstate, hf⟩ := mem_flatMap.1 h
    rcases mem_or_eq_of_mem_set hstate with hm | rfl
    · exact .inl (mem_append_right _ (mem_flatMap.2 ⟨state, hm, hf⟩))
    · exact .inr hf

theorem mem_ended_of_worker {s : SchedulerRun} {w : ℕ} {a : WorkerState} {f : FinishedRange}
    (hw : s.workers[w]? = some a) (hf : f ∈ a.finished) : f ∈ s.ended :=
  mem_append_right _ (mem_flatMap.2 ⟨a, mem_of_getElem? hw, hf⟩)

/-- A worker moves on without touching the control. -/
theorem Stopped.move {s : SchedulerRun} (hi : Stopped s) {w : ℕ} {b : WorkerState}
    (hops : RecordsFirst s.control.reason.isSome b.ops)
    (hleft : b.isDone = true →
      s.control.stopping = true ∨ s.queue.ranges.length ≤ s.queue.next.toNat)
    (hfinished : ∀ f ∈ b.finished, f ∈ s.ended ∨
      (f.outcome.abandoned = true → s.control.reason.isSome = true) ∧ CountsFailure f) :
    Stopped (s.setWorker w b) := by
  refine ⟨hi.explained, hi.calls, ?_, ?_, fun f hf hab => ?_, fun f hf => ?_⟩
  · intro state hstate
    rcases mem_or_eq_of_mem_set hstate with h | rfl
    · exact hi.workerOps state h
    · exact hops
  · rintro ⟨state, hstate, hdone⟩
    rcases mem_or_eq_of_mem_set hstate with h | rfl
    · exact hi.left ⟨state, h, hdone⟩
    · exact hleft hdone
  · rcases mem_ended_setWorker hf with h | h
    · exact hi.abandoned f h hab
    · rcases hfinished f h with h | h
      · exact hi.abandoned f h hab
      · exact h.1 hab
  · rcases mem_ended_setWorker hf with h | h
    · exact hi.failures f h
    · rcases hfinished f h with h | h
      · exact hi.failures f h
      · exact h.2

/-- An operation on the control keeps what is known: reasons and flags are never taken back. -/
theorem Stopped.perform {s : SchedulerRun} (hi : Stopped s) {op : ControlOp} {ops : List ControlOp}
    (hops : RecordsFirst s.control.reason.isSome (op :: ops)) :
    Stopped { s with control := s.control.perform op } ∧
      RecordsFirst (s.control.perform op).reason.isSome ops := by
  obtain ⟨hexp, hrest⟩ := hi.explained.perform hops
  have hmono := fun h => RunControl.isSome_reason_perform (c := s.control) op h
  refine ⟨⟨hexp, fun o ho => recordsFirst_mono hmono (hi.calls o ho),
    fun st hst => recordsFirst_mono hmono (hi.workerOps st hst), fun hdone => ?_,
    fun f hf hab => hmono (hi.abandoned f hf hab), hi.failures⟩, hrest⟩
  refine (hi.left hdone).imp_left fun h => ?_
  cases op <;> first | exact h | rfl

/-- A claim moves the cursor on. -/
theorem Stopped.claim {s : SchedulerRun} (hi : Stopped s) (hnext : s.queue.next.toNat + 1 < 2 ^ 64) :
    Stopped { s with queue := s.queue.claim.2 } := by
  refine ⟨hi.explained, hi.calls, hi.workerOps, fun h => ?_, hi.abandoned, hi.failures⟩
  refine (hi.left h).imp_right fun hle => ?_
  change s.queue.ranges.length ≤ s.queue.claim.2.next.toNat
  rw [WorkQueue.toNat_next_claim hnext]
  exact Nat.le_succ_of_le hle

/-- Recording an outcome keeps the ranges that have ended. -/
theorem Stopped.record {s : SchedulerRun} (hi : Stopped s) {f : FinishedRange} (hf : f ∈ s.ended) :
    Stopped { s with outcomes := s.outcomes ++ [f] } := by
  have hended : ∀ g ∈ ({ s with outcomes := s.outcomes ++ [f] } : SchedulerRun).ended,
      g ∈ s.ended := by
    intro g hg
    simp only [ended, append_assoc, mem_append, mem_singleton] at hg
    rcases hg with h | rfl | h
    · exact mem_append_left _ h
    · exact hf
    · exact mem_append_right _ h
  exact ⟨hi.explained, hi.calls, hi.workerOps, hi.left, fun g hg => hi.abandoned g (hended g hg),
    fun g hg => hi.failures g (hended g hg)⟩

theorem Stopped.work {s s' : SchedulerRun} (hi : Stopped s)
    (hnext : s.queue.next.toNat + 1 < 2 ^ 64) {w : ℕ} {state : WorkerState}
    (hw : s.workers[w]? = some state) (h : s.workStep settings w state = some s') : Stopped s' := by
  have hops := hi.workerOps state (mem_of_getElem? hw)
  have hended : ∀ f ∈ state.finished, f ∈ s.ended := fun f hf => mem_ended_of_worker hw hf
  cases state with
  | waiting =>
    simp only [workStep] at h
    split_ifs at h
    cases h
    exact hi.move trivial (fun h => by cases h) (fun f hf => by cases hf)
  | checking =>
    cases h
    split_ifs with hstop
    · exact hi.move trivial (fun _ => .inl hstop) (fun f hf => by cases hf)
    · exact hi.move trivial (fun h => by cases h) (fun f hf => by cases hf)
  | claiming =>
    cases h
    change Stopped ({ s with queue := s.queue.claim.2 }.setWorker w (.afterClaim s.queue.claim.1))
    cases hc : s.queue.claim.1 with
    | none =>
      refine (hi.claim hnext).move trivial (fun _ => .inr ?_) (fun f hf => by cases hf)
      change s.queue.ranges.length ≤ s.queue.claim.2.next.toNat
      rw [WorkQueue.toNat_next_claim hnext]
      exact Nat.le_succ_of_le (WorkQueue.length_le_of_claim_none hc)
    | some range =>
      exact (hi.claim hnext).move trivial (fun h => by cases h) (fun f hf => by cases hf)
  | processing range => cases h
  | closing ops finished =>
    cases ops with
    | nil =>
      cases h
      have hsame : Stopped { s with
          runCounters := (s.runCounters.add finished.counters).toOption.getD s.runCounters } :=
        ⟨hi.explained, hi.calls, hi.workerOps, hi.left, hi.abandoned, hi.failures⟩
      exact hsame.move trivial (fun h => by cases h) (fun f hf => .inl (hended f hf))
    | cons op ops =>
      cases h
      obtain ⟨hs, hrest⟩ := hi.perform hops
      exact hs.move hrest (fun h => by cases h) (fun f hf => .inl (hended f hf))
  | reporting finished =>
    cases h
    exact (hi.record (hended finished (mem_singleton.2 rfl))).move trivial
      (fun h => by cases h) (fun f hf => by cases hf)
  | limiting =>
    cases h
    split_ifs
    · exact hi.move trivial (fun h => by cases h) (fun f hf => by cases hf)
    · exact hi.move trivial (fun h => by cases h) (fun f hf => by cases hf)
  | counting =>
    cases h
    refine hi.move ?_ (fun h => by cases h) (fun f hf => by cases hf)
    change RecordsFirst _ (if _ then _ else _)
    split_ifs
    · exact recordsFirst_stopOps _ _
    · trivial
  | halting ops =>
    cases ops with
    | nil =>
      cases h
      exact hi.move trivial (fun h => by cases h) (fun f hf => by cases hf)
    | cons op ops =>
      cases h
      obtain ⟨hs, hrest⟩ := hi.perform hops
      exact hs.move hrest (fun h => by cases h) (fun f hf => by cases hf)
  | done => cases h

theorem recordsFirst_result (known : Bool) (result : RangeResult) :
    RecordsFirst known result.stopOps := by
  cases result with
  | error e =>
    change RecordsFirst known (if _ then _ else _)
    split_ifs
    · exact recordsFirst_stopOps _ _
    · trivial
  | verdict verdict => trivial
  | panic message => trivial
  | killed => trivial

theorem abandoned_processRange {c : JobCounters} {range : TokenRange} {result : RangeResult}
    (h : (processRange c range result).outcome.abandoned = true) : result = .killed := by
  cases result <;> first | rfl | cases h

theorem step_stopped {s s' : SchedulerRun} {act : Act} (hi : Stopped s)
    (hnext : s.queue.next.toNat + 1 < 2 ^ 64) (hrows : s.RowsOnly act)
    (h : step settings s act = some s') : Stopped s' := by
  cases act with
  | request request =>
    simp only [step] at h
    split_ifs at h
    cases h
    refine ⟨hi.explained, fun ops hops => ?_, hi.workerOps, hi.left, hi.abandoned, hi.failures⟩
    rcases mem_append.1 hops with h | h
    · exact hi.calls ops h
    · rw [mem_singleton.1 h]
      exact recordsFirst_ops _ _ _
  | advance call =>
    simp only [step] at h
    split at h
    · next op ops hcall =>
      cases h
      obtain ⟨hs, hrest⟩ := hi.perform (hi.calls _ (mem_of_getElem? hcall))
      refine ⟨hs.explained, fun o ho => ?_, hs.workerOps, hs.left, hs.abandoned, hs.failures⟩
      rcases mem_or_eq_of_mem_set ho with h | rfl
      · exact hs.calls o h
      · exact hrest
    · cases h
  | work w =>
    obtain ⟨state, hw, hstep⟩ := Option.bind_eq_some_iff.1 h
    exact hi.work hnext hw hstep
  | finish w result units =>
    simp only [step] at h
    split at h
    · next range hw =>
      split_ifs at h with hkilled
      cases h
      refine hi.move (recordsFirst_result _ _) (fun h => by cases h) fun f hf => .inr ?_
      rw [mem_singleton.1 hf]
      refine ⟨fun hab => hi.explained (.inr ?_), countsFailure_processRange _ hrows _ _⟩
      -- only a killed run abandons a range
      have hresult := abandoned_processRange hab
      by_contra hne
      exact hkilled ⟨hresult, by simpa using hne⟩
    · cases h

theorem init_stopped (hlen : plan.ranges.length ≤ isizeMax) :
    Stopped (init settings job plan hlen) := by
  have hwaiting : ∀ state ∈ (init settings job plan hlen).workers, state = .waiting :=
    fun state h => eq_of_mem_replicate h
  have hended : (init settings job plan hlen).ended = [] := by
    refine append_eq_nil_iff.2 ⟨rfl, flatMap_eq_nil_iff.2 fun state h => ?_⟩
    rw [hwaiting state h]
    rfl
  refine ⟨?_, fun ops h => ?_, fun state h => ?_, ?_, fun f hf => ?_, fun f hf => ?_⟩
  · rintro (h | h) <;> cases h
  · cases h
  · rw [hwaiting state h]
    trivial
  · rintro ⟨state, h, hdone⟩
    rw [hwaiting state h] at hdone
    cases hdone
  · rw [hended] at hf
    cases hf
  · rw [hended] at hf
    cases hf

/-! ### Adopting the run -/

/-- With at most `2 ^ 64` ranges, the number of failures is not lost to wrapping. -/
theorem toNat_sum_failures {fs : List FinishedRange} (h : ∀ f ∈ fs, CountsFailure f)
    (hlen : fs.length < 2 ^ 64) :
    (fs.map fun f : FinishedRange => f.counters.committed .partitionsFailed).sum.toNat =
      fs.countP fun f => f.outcome.status = .fail := by
  induction fs with
  | nil => rfl
  | cons f fs ih =>
    have hrest := ih (fun g hg => h g (mem_cons_of_mem _ hg)) (by simp at hlen; omega)
    have hle := countP_le_length (p := fun f => decide (f.outcome.status = .fail)) (l := fs)
    have hf := h f mem_cons_self
    rw [CountsFailure] at hf
    rw [map_cons, sum_cons, UInt64.toNat_add, hrest, hf, countP_cons]
    simp only [length_cons] at hlen
    by_cases hstatus : f.outcome.status = .fail
    · have h1 : (1 : UInt64).toNat = 1 := rfl
      simp only [hstatus, if_true, decide_true, h1]
      rw [Nat.mod_eq_of_lt (by omega)]
      omega
    · have h0 : (0 : UInt64).toNat = 0 := rfl
      simp only [hstatus, if_false, decide_false, Bool.false_eq_true, h0]
      rw [Nat.mod_eq_of_lt (by omega)]
      omega

/-- A run with a reason did not end. -/
theorem status_report_ne_ended {s : SchedulerRun} (h : s.control.reason.isSome = true) :
    s.report.status ≠ .ended := by
  obtain ⟨reason, hreason⟩ := Option.isSome_iff_exists.1 h
  simp only [report, hreason, Option.elim_some]
  exact reason.runStatus_ne_ended

theorem adoptPreviousRun_of_isResumable {run : RunRecord} (h : isResumable run = true) :
    adoptPreviousRun (some run) = some run.runId := by
  simp [adoptPreviousRun, h]

/-- A run that left a range unclaimed, or abandoned one, was stopped for a reason. -/
theorem Stopped.isSome_reason {s : SchedulerRun} (hi : Stopped s) (hj : s.Joined)
    (hworkers : s.workers ≠ [])
    (h : s.queue.unclaimed ≠ [] ∨ ∃ f ∈ s.outcomes, f.outcome.abandoned = true) :
    s.control.reason.isSome = true := by
  rcases h with hunclaimed | ⟨f, hf, hab⟩
  · obtain ⟨state, hstate⟩ := exists_mem_of_ne_nil _ hworkers
    rcases hi.left ⟨state, hstate, hj state hstate⟩ with hstop | hle
    · exact hi.explained (.inl hstop)
    · refine absurd ?_ hunclaimed
      rw [WorkQueue.unclaimed, WorkQueue.claimed, min_eq_right hle, drop_length]
  · exact hi.abandoned f (mem_append_left _ hf) hab

/-- A run with a failed range has the failure in its metrics string. -/
theorem Stopped.hasFailedPartitions {s : SchedulerRun} (hi : Stopped s) (hj : s.Joined)
    (hc : Conserved settings job plan s) {f : FinishedRange} (hf : f ∈ s.outcomes)
    (hfail : f.outcome.status = .fail) :
    hasFailedPartitions s.report.counters.runInfo = true := by
  have hlen : s.outcomes.length < 2 ^ 64 := by
    have hle : s.accounted.length ≤ s.queue.ranges.length := by
      rw [hc.claims.length_eq, WorkQueue.taken, length_take, WorkQueue.claimed]
      omega
    have := s.queue.ranges_length_le
    simp only [accounted, length_append, length_map] at hle
    simp only [isizeMax] at this
    omega
  have hcount : 0 < s.outcomes.countP fun f => f.outcome.status = .fail :=
    countP_pos_iff.2 ⟨f, hf, by simp [hfail]⟩
  have hsum := toNat_sum_failures
    (fun g hg => hi.failures g (mem_append_left _ hg)) hlen
  refine hasFailedPartitions_runInfo fun h0 => ?_
  have hmerged := flatMap_workers_of_joined hj (f := WorkerState.merged) rfl
  rw [committed_report, hc.counters, total, hmerged, map_nil, sum_nil, add_zero] at h0
  rw [h0] at hsum
  exact absurd hsum hcount.ne

/-- **Unfinished runs are adopted.** For every plan, all results of its ranges and every
interleaving of the workers with stops and kills: when the workers have left, with a range unclaimed,
abandoned or failed, the run's record is resumable and the next run adopts it. -/
theorem unfinished_run_adopted {hlen : plan.ranges.length ≤ isizeMax} {acts : List Act}
    {s : SchedulerRun} {run : RunRecord}
    (hrun : (lts settings).exec (init settings job plan hlen) acts = some s)
    (hrows : (lts settings).Along RowsOnly (init settings job plan hlen) acts) (hj : s.Joined)
    (hunfinished : s.report.unclaimed ≠ [] ∨
      ∃ f ∈ s.report.outcomes, f.outcome.abandoned = true ∨ f.outcome.status = .fail)
    (hstatus : run.status = s.report.status) (hinfo : run.info = some s.report.counters.runInfo) :
    isResumable run = true ∧ adoptPreviousRun (some run) = some run.runId := by
  obtain ⟨hc, hi⟩ : Conserved settings job plan s ∧ Stopped s := by
    refine LTS.exec_invariant_along (I := fun s => Conserved settings job plan s ∧ Stopped s)
      hrun hrows ⟨init_conserved hlen, init_stopped hlen⟩ ?_
    intro s act s' h hrows hstep
    exact ⟨step_conserved h.1 hstep, step_stopped h.2 h.1.next_lt hrows hstep⟩
  have hworkers : s.workers ≠ [] := by
    intro hnil
    have := hc.workers
    rw [hnil, SchedulerSettings.workerCount, length_nil] at this
    omega
  have hmem : ∀ f, f ∈ s.report.outcomes ↔ f ∈ s.outcomes := fun f => mem_mergeSort
  have hresumable : isResumable run = true := by
    rw [isResumable, hstatus, hinfo]
    rcases hunfinished with h | ⟨f, hf, hab | hfail⟩
    · have := status_report_ne_ended (hi.isSome_reason hj hworkers (.inl h))
      simp [this]
    · have := status_report_ne_ended (hi.isSome_reason hj hworkers (.inr ⟨f, (hmem f).1 hf, hab⟩))
      simp [this]
    · simp [hi.hasFailedPartitions hj hc ((hmem f).1 hf) hfail]
  exact ⟨hresumable, adoptPreviousRun_of_isResumable hresumable⟩

instance decidableRowsOnly (s : SchedulerRun) : ∀ act, Decidable (s.RowsOnly act)
  | .finish _ _ units => inferInstanceAs (Decidable (units .partitionsFailed = _))
  | .request _ | .advance _ | .work _ => .isTrue trivial

theorem unfinished_run_adopted_killed :
    ∃ s, (lts pairSettings).exec (init pairSettings .migrate killedPlan (by decide)) killedActs =
        some s ∧ s.report.unclaimed ≠ [] ∧
      ∀ table job, isResumable ⟨⟨1⟩, none, table, job, s.report.status, none, none,
        some s.report.counters.runInfo⟩ = true := by
  have hsome : ((lts pairSettings).exec (init pairSettings .migrate killedPlan (by decide))
      killedActs).any (fun s => s.Joined ∧ s.queue.unclaimed ≠ []) = true := by decide
  obtain ⟨s, hs, h⟩ := (Option.any_eq_true _ _).1 hsome
  obtain ⟨hj, hunclaimed⟩ := of_decide_eq_true h
  exact ⟨s, hs, hunclaimed, fun table job =>
    (unfinished_run_adopted hs (by decide) hj (.inl hunclaimed) rfl rfl).1⟩

end SchedulerRun

end Cdm
