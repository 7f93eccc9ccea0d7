import Cdm.Engine.JobRun
import Cdm.Jobs.WholeRange

/-!
# A guardrail run

A guardrail range that finds the run killed passes all the same, with rows of its scan unmeasured.
A process exits with success only if nothing stopped the run, so that no call of it was cut short:
the whole plan has then been measured.
-/

namespace Cdm

open SchedulerRun

namespace GuardrailRange

variable {job : GuardrailJob} {range : TokenRange} {rows : List RowSizes}
  {s : RangeCall GuardrailRange RowSizes}

/-- Whether a row has a column that is too large. -/
def isLarge (guardrail : ColumnSizeGuardrail) (row : RowSizes) : Bool :=
  (guardrail.check row).isSome

/-- What is counted when these rows have been measured. -/
def tally (guardrail : ColumnSizeGuardrail) (measured : List RowSizes) : CounterKind → ℕ
  | .read => measured.length
  | .large => measured.countP (isLarge guardrail)
  | .valid => measured.countP fun row => !isLarge guardrail row
  | _ => 0

/-- The row is counted as read, and as large or valid. -/
def count (guardrail : ColumnSizeGuardrail) (c : JobCounters) (row : RowSizes) : JobCounters :=
  let kind := if (guardrail.check row).isSome then .large else .valid
  (c.incrementKind .read 1).incrementKind kind 1

section Steps

variable {guardrail : ColumnSizeGuardrail} {s s' : GuardrailRange}

theorem read_eq {row : Option RowSizes} (h : read s row = some s') :
    s'.counters = s.counters ∧ s'.measured = s.measured := by
  unfold read at h
  split at h
  · cases h
    exact ⟨rfl, rfl⟩
  · cases h
    exact ⟨rfl, rfl⟩
  · simp at h

/-- A step counts nothing, or the row that it measures. -/
theorem step_eq {act : Act} (h : step guardrail s act = some s') :
    (s'.counters = s.counters ∧ s'.measured = s.measured) ∨
      ∃ row, s'.counters = count guardrail s.counters row ∧ s'.measured = s.measured ++ [row] := by
  unfold step at h
  split at h
  · split at h
    · next row _ =>
      cases h
      exact .inr ⟨row, rfl, rfl⟩
    · simp at h
  · split at h
    · cases h
      exact .inl ⟨rfl, rfl⟩
    · simp at h
  · split at h
    · simp at h
    · cases h
      exact .inl ⟨rfl, rfl⟩

theorem ofRows_count {c : JobCounters} (h : c.OfRows .guardrail) (row : RowSizes) :
    (count guardrail c row).OfRows .guardrail := by
  refine (h.increment (by decide) 1).increment ?_ 1
  split_ifs <;> decide

end Steps

theorem countsRows (job : GuardrailJob) : job.rangeJob.CountsRows .guardrail where
  init := .new .guardrail
  read s row s' h hs := by
    change s'.counters.OfRows .guardrail
    rw [(read_eq (show read s row = some s' from hs)).1]
    exact h
  step s act s' h hs := by
    change s'.counters.OfRows .guardrail
    obtain ⟨hcounters, -⟩ | ⟨row, hcounters, -⟩ :=
      step_eq (show step job.guardrail s act = some s' from hs)
    · rw [hcounters]
      exact h
    · rw [hcounters]
      exact ofRows_count h row
  cancel s h := h

theorem tally_read (guardrail : ColumnSizeGuardrail) (measured : List RowSizes) :
    tally guardrail measured .read =
      tally guardrail measured .valid + tally guardrail measured .large := by
  have hlength := List.length_eq_countP_add_countP (isLarge guardrail) (l := measured)
  simp only [Bool.not_eq_true, Bool.decide_eq_false] at hlength
  exact hlength.trans (Nat.add_comm ..)

theorem tally_concat (guardrail : ColumnSizeGuardrail) (measured : List RowSizes) (row : RowSizes) :
    tally guardrail (measured ++ [row]) =
      let f := Function.update (tally guardrail measured) .read (tally guardrail measured .read + 1)
      let kind := if (guardrail.check row).isSome then .large else .valid
      Function.update f kind (f kind + 1) := by
  funext kind
  rcases hlarge : guardrail.check row with - | column
  · cases kind <;> simp [tally, List.countP_append, isLarge, hlarge]
  · cases kind <;> simp [tally, List.countP_append, isLarge, hlarge]

/-- The counters say what has been measured. -/
theorem counts_of_exec {acts : List (RangeCall.Act Act)}
    (h : (RangeCall.lts job.rangeJob range).exec (.start job.rangeJob rows) acts = some s) :
    s.job.counters.Counts (tally job.guardrail s.job.measured) := by
  refine RangeCall.exec_invariant
    (J := fun s _ => s.counters.Counts (tally job.guardrail s.measured)) h (LTS.along_true _ _)
    ?_ ?_ ?_ ?_ ?_
  · have hzero : tally job.guardrail [] = fun _ => 0 := by
      funext kind
      cases kind <;> rfl
    exact hzero ▸ JobCounters.Counts.new .guardrail
  · intro s act s' _ hi hs
    obtain ⟨hcounters, hmeasured⟩ | ⟨row, hcounters, hmeasured⟩ :=
      step_eq (show step job.guardrail s act = some s' from hs)
    · rw [hcounters, hmeasured]
      exact hi
    · rw [hcounters, hmeasured, tally_concat]
      exact (hi.increment .read 1).increment _ 1
  · intro s row s' _ hi hs
    obtain ⟨hcounters, hmeasured⟩ := read_eq (show read s (some row) = some s' from hs)
    rw [hcounters, hmeasured]
    exact hi
  · intro s s' hi hs
    obtain ⟨hcounters, hmeasured⟩ := read_eq (show read s none = some s' from hs)
    rw [hcounters, hmeasured]
    exact hi
  · intro s _ _ _ hi
    exact hi

/-- A call that was never killed was not cut short. -/
theorem cutShort_eq_nil {acts : List (RangeCall.Act Act)}
    (h : (RangeCall.lts job.rangeJob range).exec (.start job.rangeJob rows) acts = some s)
    (hkilled : s.control.killed = false) :
    (RangeCall.lts job.rangeJob range).outputs cutShort (.start job.rangeJob rows) acts = [] := by
  refine LTS.exec_invariant_outputs (f := cutShort)
    (I := fun s cuts => s.control.killed = false → cuts = []) h (fun _ => rfl) ?_ hkilled
  intro s act s' cuts hi hs hkilled'
  have hkilled : s.control.killed = false := by
    by_contra hne
    rw [JobRun.killed_of_step (P := fun _ => job.rangeJob) hs (by simpa using hne)] at hkilled'
    simp at hkilled'
  have hnone : cutShort s act = none := by
    unfold cutShort
    split
    · split <;> simp [hkilled]
    · rfl
  simp [hi hkilled, hnone]

/-- A call that was never killed, and succeeded, has measured its scan. -/
theorem measured_of_succeeded {acts : List (RangeCall.Act Act)}
    (h : (RangeCall.lts job.rangeJob range).exec (.start job.rangeJob rows) acts = some s)
    (hs : s.Succeeded) (hkilled : s.control.killed = false) : s.job.measured = rows :=
  (guardrail_whole_iff h hs).2 (cutShort_eq_nil h hkilled)

end GuardrailRange

/-- `run_status`: a run that found a large column is a `DIFF`. -/
def GuardrailJob.runStatus (report : SchedulerRun.Report) : RunStatus :=
  if report.status ≠ .ended then report.status
  else if report.counters.countOf .large .committed > 0 then .diff
  else .ended

/-- The exit for that status looks at the large columns, and not at the ranges. -/
theorem GuardrailJob.forRunStatus_runStatus (s : SchedulerRun) :
    Exit.forRunStatus (runStatus s.report) = .success ↔
      s.report.stoppedBy = none ∧ s.report.counters.committed .large = 0 := by
  have hlarge : s.report.counters.countOf .large .committed > 0 ↔
      s.report.counters.committed .large ≠ 0 := UInt64.pos_iff_ne_zero
  unfold runStatus
  rw [status_report]
  rcases s.report.stoppedBy with - | reason
  · simp only [Option.elim_none, ne_eq, not_true, if_false, true_and, hlarge]
    split_ifs with hzero
    · simp [Exit.forRunStatus, hzero]
    · simp [Exit.forRunStatus, hzero]
  · cases reason <;> simp [StopReason.runStatus, Exit.forRunStatus]

/-- **What a guardrail run that succeeds has done.** In every report `READ = VALID + LARGE`.  A
process exits with success exactly when nothing stopped the run and every range of the plan succeeded;
it has then measured every row of every scan, each once, and the report counts them, and the large
ones among them.  The status that the job gives the run is a success when nothing stopped it and no row is large,
so that a run that finds a large row exits with success, against that status. -/
theorem GuardrailJob.measured_plan {settings : SchedulerSettings} {plan : TokenPlan}
    {job : GuardrailJob} {scan : TokenRange → List RowSizes}
    {s : JobRun GuardrailRange RowSizes} {hlen : plan.ranges.length ≤ isizeMax}
    {acts : List (JobRun.Act GuardrailRange.Act)}
    (hrun : (JobRun.lts settings (fun _ => job.rangeJob) scan).exec
      (.init settings .guardrail plan hlen) acts = some s) (hj : s.run.Joined) (dryRun : Bool) :
    let count := s.run.report.counters.committed
    let rows := plan.tokenRanges.flatMap scan
    count .read = count .valid + count .large ∧
      ((RunSummary.fromReport .guardrail s.run.report dryRun).exit = .success ↔ s.Whole plan) ∧
      (s.Whole plan → (s.ended.flatMap fun e => e.2.measured).Perm rows ∧
        count .read = .ofNat rows.length ∧
        count .large = .ofNat (rows.countP (GuardrailRange.isLarge job.guardrail))) ∧
      (Exit.forRunStatus (GuardrailJob.runStatus s.run.report) = .success ↔
        s.run.report.stoppedBy = none ∧ count .large = 0) := by
  intro count rows
  have hP : ∀ _ : TokenRange, job.rangeJob.CountsRows .guardrail :=
    fun _ => GuardrailRange.countsRows job
  have hi := JobRun.sound_of_exec hP hrun
  have hcount (counter : CounterKind) (hreg : counter.isRegisteredFor .guardrail = true)
      (hrows : counter.isPartitionCounter = false) (herror : counter ≠ .error) :
      count counter = .ofNat (s.ended.map fun e =>
        GuardrailRange.tally job.guardrail e.2.measured counter).sum := by
    refine hi.committed_rows hP hj hreg hrows herror fun e he => ?_
    obtain ⟨call, ⟨acts, hexec⟩, -, hjob, -⟩ := hi.courses e he
    exact ⟨_, hjob ▸ GuardrailRange.counts_of_exec hexec, rfl⟩
  have hread := hcount .read rfl rfl (by decide)
  have hlarge := hcount .large rfl rfl (by decide)
  have hvalid := hcount .valid rfl rfl (by decide)
  refine ⟨?_, ?_, fun hwhole => ?_, GuardrailJob.forRunStatus_runStatus s.run⟩
  · rw [hread, hvalid, hlarge, ← UInt64.ofNat_add, ← List.sum_map_add]
    refine congrArg UInt64.ofNat (congrArg List.sum (List.map_congr_left fun e _ => ?_))
    exact GuardrailRange.tally_read job.guardrail e.2.measured
  · exact hi.exit_success_iff_whole hj rfl rfl .guardrail dryRun
  · obtain ⟨hperm, hcalls⟩ := hi.whole hj hwhole
    have hrows : (s.ended.map fun e => e.2.measured) =
        (s.ended.map fun e => e.1.outcome.range).map scan := by
      rw [List.map_map]
      refine List.map_congr_left fun e he => ?_
      obtain ⟨call, ⟨acts, hexec⟩, hjob, -, hsucceeded, hkilled⟩ := hcalls e he
      exact hjob ▸ GuardrailRange.measured_of_succeeded hexec hsucceeded hkilled
    have hflat : (s.ended.flatMap fun e => e.2.measured).Perm (plan.tokenRanges.flatMap scan) := by
      rw [List.flatMap_def, hrows, ← List.flatMap_def]
      exact hperm.flatMap_right scan
    refine ⟨hflat, ?_, ?_⟩
    · rw [hread, ← hflat.length_eq, List.length_flatMap]
      rfl
    · rw [hlarge, ← hflat.countP_eq, List.countP_flatMap]
      rfl

namespace TwoRows

/-- The two rows are those of the range that starts at zero; the other ranges are empty. -/
def scanOf (range : TokenRange) : List RowSizes := if range.min = 0 then scan else []

/-- One worker measures the two rows, the other one ends the two empty ranges meanwhile. -/
def runActs : List (JobRun.Act GuardrailRange.Act) :=
  [.run (.work 0), .run (.work 0), .run (.work 0), .run (.work 1), .run (.work 1), .run (.work 1),
    .call 0 .read, .call 1 .read, .call 0 .poll, .call 1 .finish, .call 0 (.work .measure),
    .run (.work 1), .run (.work 1), .run (.work 1), .run (.work 1), .run (.work 1), .run (.work 1),
    .call 0 .read, .call 1 .read, .call 0 .poll, .call 0 (.work .measure), .call 1 .finish,
    .call 0 .read, .call 0 .finish, .run (.work 0), .run (.work 0), .run (.work 0), .run (.work 1),
    .run (.work 1), .run (.work 1), .run (.work 1), .run (.work 1), .run (.work 1), .run (.work 0),
    .run (.work 0), .run (.work 0)]

theorem measured_plan_twoRows :
    ∃ s, (JobRun.lts pairSettings (fun _ => job.rangeJob) scanOf).exec
        (.init pairSettings .guardrail killedPlan (by decide)) runActs =
          some s ∧ s.run.report.counters.committed .read = 2 ∧
      s.run.report.counters.committed .large = 1 ∧
      (RunSummary.fromReport .guardrail s.run.report false).exit = .success ∧
      Exit.forRunStatus (GuardrailJob.runStatus s.run.report) ≠ .success := by
  have hsome : ((JobRun.lts pairSettings (fun _ => job.rangeJob) scanOf).exec
      (.init pairSettings .guardrail killedPlan (by decide)) runActs).any
      (fun s => s.run.Joined ∧ s.run.control.reason = none ∧
        (s.run.outcomes.map fun f => f.outcome.range).Perm killedPlan.tokenRanges ∧
        ∀ f ∈ s.run.outcomes, f.outcome.isSuccess = true) = true := by decide
  obtain ⟨s, hs, h⟩ := (Option.any_eq_true _ _).1 hsome
  obtain ⟨hj, hnone, hranges, hall⟩ := of_decide_eq_true h
  have hwhole : s.Whole killedPlan := JobRun.whole_of_outcomes hnone hranges hall
  obtain ⟨-, hexit, hcounts, hstatus⟩ := GuardrailJob.measured_plan hs hj false
  have hlarge : s.run.report.counters.committed .large = 1 := (hcounts hwhole).2.2.trans (by decide)
  refine ⟨s, hs, (hcounts hwhole).2.1.trans (by decide), hlarge, hexit.2 hwhole, fun h => ?_⟩
  rw [(hstatus.1 h).2] at hlarge
  simp at hlarge

end TwoRows

end Cdm
