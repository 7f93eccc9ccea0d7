import Cdm.Engine.RangeCall
import Cdm.Engine.RunReport

/-!
# A run with its jobs

To the scheduler a range ends with any result.  Here the job is part of the run: a worker that holds
a range is in a call of `process_range` on the scan of that range, whose steps interleave with those
of the other workers and of the run's control, and the range ends with what the call comes to.

Seen from the scheduler this is a run of the scheduler; seen from one call it is that call, with the
stops of the run as its control.  What is known of the two carries over, and meets in the report: a
process that exits with success has seen every call through.
-/

namespace Cdm

open List SchedulerRun

/-! ### A job that counts rows only -/

/-- The counters of a range, in which nothing but rows has been counted. -/
structure JobCounters.OfRows (kind : JobKind) (c : JobCounters) : Prop where
  job_eq : c.job = kind
  partitionsFailed : c.units .partitionsFailed = {}

namespace JobCounters

variable {kind : JobKind} {c : JobCounters}

theorem OfRows.new (kind : JobKind) : (new kind).OfRows kind := ⟨rfl, rfl⟩

theorem OfRows.increment (h : c.OfRows kind) {counter : CounterKind}
    (hcounter : counter ≠ .partitionsFailed) (n : UInt64) :
    (c.incrementKind counter n).OfRows kind := by
  refine ⟨(job_incrementKind ..).trans h.job_eq, ?_⟩
  unfold incrementKind JobCounters.counter
  by_cases hreg : counter.isRegisteredFor c.job = true
  · simp [hreg, incrementBy, Function.update_of_ne hcounter.symm, h.partitionsFailed]
  · simp [hreg, h.partitionsFailed]

theorem OfRows.reset (h : c.OfRows kind) {counter : CounterKind}
    (hcounter : counter ≠ .partitionsFailed) : (c.reset counter).OfRows kind := by
  refine ⟨(job_reset ..).trans h.job_eq, ?_⟩
  unfold JobCounters.reset JobCounters.counter
  by_cases hreg : counter.isRegisteredFor c.job = true
  · simp [hreg, Function.update_of_ne hcounter.symm, h.partitionsFailed]
  · simp [hreg, h.partitionsFailed]

end JobCounters

variable {σ α ι : Type*}

/-- Whatever the job does, it counts rows only. -/
structure RangeJob.CountsRows (kind : JobKind) (P : RangeJob σ α ι) : Prop where
  init : (P.counters P.init).OfRows kind
  read : ∀ s item s', (P.counters s).OfRows kind → P.read s item = some s' →
    (P.counters s').OfRows kind
  step : ∀ s act s', (P.counters s).OfRows kind → P.step s act = some s' →
    (P.counters s').OfRows kind
  cancel : ∀ s, (P.counters s).OfRows kind → (P.counters (P.cancel s)).OfRows kind

theorem RangeJob.CountsRows.of_exec {kind : JobKind} {P : RangeJob σ α ι} (h : P.CountsRows kind)
    {range : TokenRange} {scan : List ι} {acts : List (RangeCall.Act α)} {call : RangeCall σ ι}
    (hexec : (RangeCall.lts P range).exec (.start P scan) acts = some call) :
    (P.counters call.job).OfRows kind :=
  RangeCall.exec_invariant (J := fun job _ => (P.counters job).OfRows kind) hexec
    (LTS.along_true _ _) h.init (fun job act job' _ hi hs => h.step job act job' hi hs)
    (fun job item job' _ hi hs => h.read job (some item) job' hi hs)
    (fun job job' hi hs => h.read job none job' hi hs) fun s _ _ _ hi => h.cancel s.job hi

/-! ### What the report counts -/

/-- However a range ends, its rows are credited as they have been counted. -/
theorem committed_processRange {c : JobCounters} {f : CounterKind → ℕ} (h : c.Counts f)
    (range : TokenRange) (result : RangeResult) {counter : CounterKind}
    (hreg : c.isRegistered counter = true) (hrows : counter.isPartitionCounter = false)
    (herror : counter ≠ .error) :
    (processRange c range result).counters.committed counter = .ofNat (f counter) := by
  have hpassed : counter ≠ .partitionsPassed := by
    rintro rfl
    simp [CounterKind.isPartitionCounter] at hrows
  have hfailed : counter ≠ .partitionsFailed := by
    rintro rfl
    simp [CounterKind.isPartitionCounter] at hrows
  rcases result with verdict | error | message | -
  · have hcompleted : (RangeResult.verdict verdict).Completed := trivial
    exact committed_processRange_verdict h range hcompleted hreg hpassed
  · have hgiven : (RangeResult.error error).Failed := trivial
    simpa [herror] using committed_processRange_failed h range hgiven hreg hfailed
  · have hgiven : (RangeResult.panic message).Failed := trivial
    simpa [herror] using committed_processRange_failed h range hgiven hreg hfailed
  · exact h.committed_flush hreg

theorem SchedulerRun.job_report (s : SchedulerRun) : s.report.counters.job = s.runCounters.job := by
  obtain ⟨c, hadd⟩ := JobCounters.exists_add
    (show s.runCounters.job = (JobCounters.new s.runCounters.job).job from rfl)
  have hreport : s.report.counters = c.flush := by
    simp only [report, hadd]
    rfl
  rw [hreport, JobCounters.job_flush]
  exact (JobCounters.add_eq_ok hadd).2.1

/-- A job that registers none of the discrepancies has none to repair. -/
theorem unrepaired_of_not_registered {report : SchedulerRun.Report}
    (h : CounterKind.missing.isRegisteredFor report.counters.job = false)
    (h' : CounterKind.mismatch.isRegisteredFor report.counters.job = false) :
    unrepaired report = 0 := by
  simp only [unrepaired, JobCounters.counter, h, h']
  split_ifs <;> simp_all

/-- A range that is recorded as a success has been ended by the job's verdict. -/
theorem RangeCall.finished_of_succeeded {P : RangeJob σ α ι} {range : TokenRange} {items : List ι}
    {acts : List (Act α)} {s : RangeCall σ ι} {finished : FinishedRange}
    (h : (lts P range).exec (start P items) acts = some s) (houtcome : s.outcome = some finished)
    (hs : s.Succeeded) : ∃ verdict, P.result s.job = some (.verdict verdict) ∧
      finished = processRange (P.counters s.job) range (.verdict verdict) := by
  obtain ⟨verdict, hverdict⟩ := verdict_of_succeeded h hs
  obtain ⟨result, hresult, rfl⟩ := outcome_of_exec h houtcome
  refine ⟨verdict, hverdict, ?_⟩
  obtain ⟨_, heq, hstarted, -⟩ := hs
  cases houtcome.symm.trans heq
  rcases hresult with hresult | rfl
  · cases hresult.symm.trans hverdict
    rfl
  · exact absurd rfl hstarted

/-! ### The run -/

/-- A run, and the calls of `process_range` that its workers are in. -/
structure JobRun (σ ι : Type*) where
  run : SchedulerRun
  /-- The call of each worker that holds a range. -/
  calls : ℕ → Option (RangeCall σ ι)
  /-- A ghost: the ranges that have ended, each with the job as its call left it. -/
  ended : List (FinishedRange × σ)

namespace JobRun

/-- The steps of a run with its jobs. -/
inductive Act (α : Type*)
  /-- A step of the run that does not end a range. -/
  | run (act : SchedulerRun.Act)
  /-- A step of a worker's call. -/
  | call (worker : ℕ) (act : RangeCall.Act α)

section

variable (settings : SchedulerSettings) (P : TokenRange → RangeJob σ α ι)
  (scan : TokenRange → List ι)

/-- A run that is about to start its workers. -/
def init (kind : JobKind) (plan : TokenPlan) (h : plan.ranges.length ≤ isizeMax) : JobRun σ ι :=
  ⟨.init settings kind plan h, fun _ => none, []⟩

/-- The calls in the next state of the run: a worker that has claimed a range starts one, and all see
the run's control. -/
def callsIn (s : JobRun σ ι) (run : SchedulerRun) (w : ℕ) : Option (RangeCall σ ι) :=
  match run.workers[w]? with
  | some (.processing range) =>
    some { (s.calls w).getD (.start (P range) (scan range)) with control := run.control }
  | _ => none

/-- A worker's call comes to `result`. -/
def conclude (s : JobRun σ ι) (w : ℕ) (range : TokenRange) (call : RangeCall σ ι)
    (result : RangeResult) : Option (JobRun σ ι) :=
  let counters := (P range).counters call.job
  (SchedulerRun.step settings s.run (.finish w result counters.units)).map fun run =>
    { run
      calls := s.callsIn P scan run
      ended := s.ended ++ [(processRange counters range result, call.job)] }

/-- One step. -/
def step (s : JobRun σ ι) : Act α → Option (JobRun σ ι)
  | .run (.finish ..) => none
  | .run act => (SchedulerRun.step settings s.run act).map fun run =>
      { s with run, calls := s.callsIn P scan run }
  | .call w act =>
    match s.run.workers[w]?, s.calls w with
    | some (.processing range), some call =>
      match act with
      | .control _ => none
      | .finish => ((P range).result call.job).bind (s.conclude settings P scan w range call)
      | .abandon =>
        -- the race is biased towards a job that has ended
        if ((P range).result call.job).isNone then s.conclude settings P scan w range call .killed
        else none
      | act => (RangeCall.step (P range) range call act).map fun call =>
          { s with calls := Function.update s.calls w (some call) }
    | _, _ => none

/-- The runs with their jobs. -/
def lts : LTS (JobRun σ ι) (Act α) := ⟨step settings P scan⟩

/-- The call has been made, and has come here against some stops of the run. -/
def Follows (range : TokenRange) (call : RangeCall σ ι) : Prop :=
  ∃ acts, (RangeCall.lts (P range) range).exec (.start (P range) (scan range)) acts = some call

/-- The range was ended by a call on its scan, which was killed only if the run was. -/
def EndedBy (control : RunControl) (e : FinishedRange × σ) : Prop :=
  ∃ call, Follows P scan e.1.outcome.range call ∧ call.outcome = some e.1 ∧ call.job = e.2 ∧
    (call.control.killed = true → control.killed = true)

/-- What holds in every state: the run is one of the scheduler, and its calls are calls. -/
structure Sound (kind : JobKind) (plan : TokenPlan) (s : JobRun σ ι) : Prop where
  reported : SchedulerRun.Reported settings kind plan s.run
  /-- A call that starts now would see the run's control. -/
  fresh : ∀ range,
    Follows P scan range { RangeCall.start (P range) (scan range) with control := s.run.control }
  busy : ∀ w range, s.run.workers[w]? = some (.processing range) →
    ∃ call, s.calls w = some call ∧ call.control = s.run.control ∧ call.outcome = none ∧
      Follows P scan range call
  idle : ∀ w, (∀ range, s.run.workers[w]? ≠ some (.processing range)) → s.calls w = none
  ended : (s.ended.map Prod.fst).Perm s.run.ended
  courses : ∀ e ∈ s.ended, EndedBy P scan s.run.control e

end

/-! ### What a step of the scheduler does -/

variable {settings : SchedulerSettings}

theorem finished_afterClaim (claimed : Option TokenRange) :
    (WorkerState.afterClaim claimed).finished = [] := by
  cases claimed <;> rfl

/-- Unless it ends a range, a step performs at most one operation on the control and moves at most
one worker, none that processes a range. -/
theorem quiet_step {run run' : SchedulerRun} {act : SchedulerRun.Act}
    (h : SchedulerRun.step settings run act = some run')
    (hact : ∀ w result units, act ≠ .finish w result units) :
    (run'.control = run.control ∨ ∃ op, run'.control = run.control.perform op) ∧
      ((run'.workers = run.workers ∧ run'.outcomes = run.outcomes) ∨
        ∃ w a b, run.workers[w]? = some a ∧ (∀ range, a ≠ .processing range) ∧
          run'.workers = run.workers.set w b ∧
          run'.outcomes ++ b.finished = run.outcomes ++ a.finished) := by
  rcases act with request | call | w | ⟨w, result, units⟩
  · simp only [SchedulerRun.step] at h
    split_ifs at h
    cases h
    exact ⟨.inl rfl, .inl ⟨rfl, rfl⟩⟩
  · simp only [SchedulerRun.step] at h
    split at h
    · cases h
      exact ⟨.inr ⟨_, rfl⟩, .inl ⟨rfl, rfl⟩⟩
    · simp at h
  · obtain ⟨state, hw, hstep⟩ := Option.bind_eq_some_iff.1 h
    rcases state with - | - | - | range | ⟨ops, f⟩ | f | - | - | ops | -
    · simp only [workStep] at hstep
      split_ifs at hstep
      cases hstep
      exact ⟨.inl rfl, .inr ⟨w, _, _, hw, by simp, rfl, rfl⟩⟩
    · cases hstep
      refine ⟨.inl rfl, .inr ⟨w, _, _, hw, by simp, rfl, ?_⟩⟩
      split_ifs <;> rfl
    · cases hstep
      refine ⟨.inl rfl, .inr ⟨w, _, _, hw, by simp, rfl, ?_⟩⟩
      exact congrArg (run.outcomes ++ ·) (finished_afterClaim _)
    · simp [workStep] at hstep
    · rcases ops with - | ⟨op, ops⟩
      · cases hstep
        exact ⟨.inl rfl, .inr ⟨w, _, _, hw, by simp, rfl, rfl⟩⟩
      · cases hstep
        exact ⟨.inr ⟨op, rfl⟩, .inr ⟨w, _, _, hw, by simp, rfl, rfl⟩⟩
    · cases hstep
      exact ⟨.inl rfl, .inr ⟨w, _, _, hw, by simp, rfl, append_nil _⟩⟩
    · cases hstep
      refine ⟨.inl rfl, .inr ⟨w, _, _, hw, by simp, rfl, ?_⟩⟩
      split_ifs <;> rfl
    · cases hstep
      exact ⟨.inl rfl, .inr ⟨w, _, _, hw, by simp, rfl, rfl⟩⟩
    · rcases ops with - | ⟨op, ops⟩
      · cases hstep
        exact ⟨.inl rfl, .inr ⟨w, _, _, hw, by simp, rfl, rfl⟩⟩
      · cases hstep
        exact ⟨.inr ⟨op, rfl⟩, .inr ⟨w, _, _, hw, by simp, rfl, rfl⟩⟩
    · simp [workStep] at hstep
  · exact absurd rfl (hact w result units)

/-- A worker that moves on takes along what it has finished, or records it. -/
theorem perm_ended_set {run run' : SchedulerRun} {w : ℕ} {a b : WorkerState}
    {fs : List FinishedRange} (hw : run.workers[w]? = some a)
    (hworkers : run'.workers = run.workers.set w b)
    (hfinished : run'.outcomes ++ b.finished = run.outcomes ++ a.finished ++ fs) :
    run'.ended.Perm (run.ended ++ fs) := by
  have hset := perm_flatMap_set hw b WorkerState.finished
  rw [← hworkers] at hset
  classical
  refine perm_iff_count.2 fun f => ?_
  have hcount := hset.count_eq f
  have hcounts := congrArg (List.count f) hfinished
  simp only [SchedulerRun.ended, count_append] at hcount hcounts ⊢
  omega

theorem killed_of_perform {c c' : RunControl} (h : c' = c ∨ ∃ op, c' = c.perform op)
    (hkilled : c.killed = true) : c'.killed = true := by
  rcases h with rfl | ⟨op, rfl⟩
  · exact hkilled
  · cases op <;> simp [RunControl.perform, hkilled]

/-! ### What a step of a call does -/

variable {P : TokenRange → RangeJob σ α ι} {scan : TokenRange → List ι}

theorem Follows.step {range : TokenRange} {call call' : RangeCall σ ι} (h : Follows P scan range call)
    (act : RangeCall.Act α) (hstep : RangeCall.step (P range) range call act = some call') :
    Follows P scan range call' := by
  obtain ⟨acts, hexec⟩ := h
  refine ⟨acts ++ [act], ?_⟩
  rw [LTS.exec_append, hexec]
  exact LTS.exec_cons_eq_some.2 ⟨call', hstep, rfl⟩

/-- The control of a call follows that of its run. -/
theorem Follows.control {range : TokenRange} {call : RangeCall σ ι} {control : RunControl}
    (h : Follows P scan range call)
    (hcontrol : control = call.control ∨ ∃ op, control = call.control.perform op) :
    Follows P scan range { call with control := control } := by
  rcases hcontrol with rfl | ⟨op, rfl⟩
  · exact h
  · exact h.step (.control op) rfl

/-- A call that goes on has no outcome, and leaves the control alone. -/
theorem call_goes_on {range : TokenRange} {call call' : RangeCall σ ι} {act : RangeCall.Act α}
    (h : RangeCall.step (P range) range call act = some call') (hnone : call.outcome = none)
    (hact : (∃ a, act = .work a) ∨ act = .read ∨ act = .poll) :
    call'.control = call.control ∧ call'.outcome = none := by
  rcases hact with ⟨a, rfl⟩ | rfl | rfl
  · simp only [RangeCall.step] at h
    split_ifs at h
    obtain ⟨job, -, rfl⟩ := Option.map_eq_some_iff.1 h
    exact ⟨rfl, hnone⟩
  · simp only [RangeCall.step] at h
    split_ifs at h
    obtain ⟨job, -, rfl⟩ := Option.map_eq_some_iff.1 h
    exact ⟨rfl, hnone⟩
  · simp only [RangeCall.step] at h
    split_ifs at h
    · cases h
      exact ⟨rfl, hnone⟩
    · cases h
      exact ⟨rfl, hnone⟩

/-- A call is not taken back from being killed. -/
theorem killed_of_step {range : TokenRange} {call call' : RangeCall σ ι} {act : RangeCall.Act α}
    (h : RangeCall.step (P range) range call act = some call')
    (hkilled : call.control.killed = true) : call'.control.killed = true := by
  rcases act with op | - | - | a | - | -
  · cases h
    exact killed_of_perform (.inr ⟨op, rfl⟩) hkilled
  · simp only [RangeCall.step] at h
    split_ifs at h
    cases h
    exact hkilled
  · simp only [RangeCall.step] at h
    split_ifs at h
    obtain ⟨job, -, rfl⟩ := Option.map_eq_some_iff.1 h
    exact hkilled
  · simp only [RangeCall.step] at h
    split_ifs at h
    obtain ⟨job, -, rfl⟩ := Option.map_eq_some_iff.1 h
    exact hkilled
  · simp only [RangeCall.step] at h
    split at h
    · cases h
      exact hkilled
    · simp at h
  · simp only [RangeCall.step] at h
    split_ifs at h
    cases h
    exact hkilled

/-! ### The invariant -/

variable {kind : JobKind} {plan : TokenPlan} {s s' : JobRun σ ι}

/-- The calls in the next state of the run, if no worker that processes a range takes another. -/
theorem Sound.callsIn (hi : Sound settings P scan kind plan s) {run : SchedulerRun}
    (hcontrol : run.control = s.run.control ∨ ∃ op, run.control = s.run.control.perform op)
    (hkeep : ∀ (w : ℕ) (r r' : TokenRange), s.run.workers[w]? = some (.processing r) →
      run.workers[w]? = some (.processing r') → r = r') {w : ℕ} {range : TokenRange}
    (hw : run.workers[w]? = some (.processing range)) :
    ∃ call, s.callsIn P scan run w = some call ∧ call.control = run.control ∧
      call.outcome = none ∧ Follows P scan range call := by
  refine ⟨{ (s.calls w).getD (.start (P range) (scan range)) with control := run.control },
    by simp only [JobRun.callsIn, hw], rfl, ?_⟩
  by_cases hbusy : ∃ r, s.run.workers[w]? = some (.processing r)
  · obtain ⟨r, hr⟩ := hbusy
    obtain rfl := hkeep w r range hr hw
    obtain ⟨call, hcall, hsame, hnone, hfollows⟩ := hi.busy w r hr
    rw [hcall, Option.getD_some]
    exact ⟨hnone, hfollows.control (hsame ▸ hcontrol)⟩
  · rw [hi.idle w fun r hr => hbusy ⟨r, hr⟩, Option.getD_none]
    exact ⟨rfl, (hi.fresh range).control hcontrol⟩

theorem callsIn_idle {run : SchedulerRun} {w : ℕ}
    (hw : ∀ range, run.workers[w]? ≠ some (.processing range)) : s.callsIn P scan run w = none := by
  unfold callsIn
  split
  · next range hrange => exact absurd hrange (hw range)
  · rfl

/-- A step of the scheduler that does not end a range. -/
theorem Sound.quiet (hi : Sound settings P scan kind plan s) {act : SchedulerRun.Act}
    {run : SchedulerRun} (h : SchedulerRun.step settings s.run act = some run)
    (hact : ∀ w result units, act ≠ .finish w result units) :
    Sound settings P scan kind plan { s with run, calls := s.callsIn P scan run } := by
  obtain ⟨hcontrol, hworkers⟩ := quiet_step h hact
  have hrows : s.run.RowsOnly act := by
    rcases act with request | call | w | ⟨w, result, units⟩
    · trivial
    · trivial
    · trivial
    · exact absurd rfl (hact w result units)
  refine ⟨step_reported hi.reported hrows h,
    fun range => (hi.fresh range).control hcontrol, fun w range hw => hi.callsIn hcontrol (fun v r r' hr hr' => ?_) hw,
    fun w hw => callsIn_idle hw, ?_, fun e he => ?_⟩
  · rcases hworkers with ⟨hsame, -⟩ | ⟨v', a, b, ha, hne, hset, -⟩
    · rw [hsame, hr] at hr'
      simpa using hr'
    · -- the worker that moves on does not process a range
      have hv : v' ≠ v := by
        rintro rfl
        rw [ha, Option.some.injEq] at hr
        exact hne r hr
      rw [hset, getElem?_set_ne hv, hr] at hr'
      simpa using hr'
  · refine hi.ended.trans ?_
    rcases hworkers with ⟨hsame, houtcomes⟩ | ⟨v, a, b, ha, -, hset, hfinished⟩
    · rw [SchedulerRun.ended, SchedulerRun.ended, hsame, houtcomes]
    · have hmoved : run.outcomes ++ b.finished = s.run.outcomes ++ a.finished ++ [] :=
        hfinished.trans (append_nil _).symm
      have hperm := perm_ended_set ha hset hmoved
      rw [append_nil] at hperm
      exact hperm.symm
  · obtain ⟨call, hfollows, houtcome, hjob, hkilled⟩ := hi.courses e he
    exact ⟨call, hfollows, houtcome, hjob, fun h => killed_of_perform hcontrol (hkilled h)⟩

/-- A call ends, and its range with it. -/
theorem Sound.conclude (hP : ∀ range, (P range).CountsRows kind)
    (hi : Sound settings P scan kind plan s) {w : ℕ} {range : TokenRange} {call : RangeCall σ ι}
    (hw : s.run.workers[w]? = some (.processing range)) (hcall : s.calls w = some call)
    {result : RangeResult} (hresult : (P range).result call.job = some result ∨
      (P range).result call.job = none ∧ result = .killed)
    (h : s.conclude settings P scan w range call result = some s') :
    Sound settings P scan kind plan s' := by
  obtain ⟨run, hstep, rfl⟩ := Option.map_eq_some_iff.1 h
  obtain ⟨call', hcall', hcontrol, hnone, hfollows⟩ := hi.busy w range hw
  cases hcall.symm.trans hcall'
  have hrows : ((P range).counters call.job).OfRows kind := by
    obtain ⟨acts, hexec⟩ := hfollows
    exact (hP range).of_exec hexec
  have hunits : s.run.RowsOnly (.finish w result ((P range).counters call.job).units) :=
    hrows.partitionsFailed
  have hreported := step_reported hi.reported hunits hstep
  have hcounters : (⟨s.run.runCounters.job, ((P range).counters call.job).units⟩ : JobCounters) =
      (P range).counters call.job := by
    rw [hi.reported.conserved.job_eq, ← hrows.job_eq]
  simp only [SchedulerRun.step, hw, hcounters] at hstep
  split_ifs at hstep with hkilled
  obtain rfl := Option.some.inj hstep
  obtain ⟨hrange, -⟩ := processRange_spec ((P range).counters call.job) range result
  refine ⟨hreported, hi.fresh, fun v r hv => ?_, fun v hv => callsIn_idle hv, ?_, fun e he => ?_⟩
  · refine hi.callsIn ?_ (fun v r r' hr hr' => ?_) hv
    · exact .inl rfl
    have hne : w ≠ v := by
      rintro rfl
      simp [setWorker, (List.getElem?_eq_some_iff.1 hw).1] at hr'
    rw [setWorker, getElem?_set_ne hne, hr] at hr'
    simpa using hr'
  · rw [map_append]
    refine (hi.ended.append_right _).trans (List.Perm.symm ?_)
    exact perm_ended_set hw rfl (by simp [setWorker, WorkerState.finished])
  · rcases mem_append.1 he with he | he
    · exact hi.courses e he
    · obtain rfl := mem_singleton.1 he
      refine ⟨{ call with outcome := some (processRange ((P range).counters call.job) range result) },
        ?_, rfl, rfl, fun h => ?_⟩
      · rw [hrange]
        rcases hresult with hresult | ⟨hresult, rfl⟩
        · exact hfollows.step .finish (by simp [RangeCall.step, hnone, hresult])
        · have hkill : call.control.killed = true := by
            rw [hcontrol]
            by_contra hne
            exact hkilled ⟨rfl, by simpa using hne⟩
          exact hfollows.step .abandon (by simp [RangeCall.step, hnone, hresult, hkill])
      · exact (congrArg RunControl.killed hcontrol).symm.trans h

/-- A call goes on. -/
theorem Sound.goOn (hi : Sound settings P scan kind plan s) {w : ℕ} {range : TokenRange}
    {call call' : RangeCall σ ι} {act : RangeCall.Act α}
    (hw : s.run.workers[w]? = some (.processing range)) (hcall : s.calls w = some call)
    (h : RangeCall.step (P range) range call act = some call')
    (hact : (∃ a, act = .work a) ∨ act = .read ∨ act = .poll) :
    Sound settings P scan kind plan { s with calls := Function.update s.calls w (some call') } := by
  obtain ⟨call₀, hcall₀, hcontrol, hnone, hfollows⟩ := hi.busy w range hw
  cases hcall.symm.trans hcall₀
  obtain ⟨hsame, hnone'⟩ := call_goes_on h hnone hact
  refine ⟨hi.reported, hi.fresh, fun v r hv => ?_, fun v hv => ?_, hi.ended, hi.courses⟩
  · by_cases hvw : v = w
    · subst hvw
      obtain rfl : range = r := by simpa [hw] using hv
      exact ⟨call', Function.update_self .., hsame.trans hcontrol, hnone', hfollows.step act h⟩
    · obtain ⟨call₁, hcall₁, hrest⟩ := hi.busy v r hv
      exact ⟨call₁, (Function.update_of_ne hvw ..).trans hcall₁, hrest⟩
  · have hvw : v ≠ w := by
      rintro rfl
      exact hv range hw
    change Function.update s.calls w (some call') v = none
    rw [Function.update_of_ne hvw]
    exact hi.idle v hv

theorem step_sound (hP : ∀ range, (P range).CountsRows kind)
    (hi : Sound settings P scan kind plan s) {act : Act α}
    (h : step settings P scan s act = some s') : Sound settings P scan kind plan s' := by
  rcases act with act | ⟨w, act⟩
  · have hquiet (hact : ∀ w result units, act ≠ .finish w result units)
        (h : (SchedulerRun.step settings s.run act).map (fun run =>
          { s with run, calls := s.callsIn P scan run }) = some s') :
        Sound settings P scan kind plan s' := by
      obtain ⟨run, hstep, rfl⟩ := Option.map_eq_some_iff.1 h
      exact hi.quiet hstep hact
    rcases act with request | call | w | ⟨w, result, units⟩
    · exact hquiet (by simp) h
    · exact hquiet (by simp) h
    · exact hquiet (by simp) h
    · simp [step] at h
  · simp only [step] at h
    split at h
    · next range call hw hcall =>
      rcases act with op | - | - | a | - | -
      · simp at h
      · obtain ⟨call', hstep, rfl⟩ := Option.map_eq_some_iff.1 h
        exact hi.goOn hw hcall hstep (.inr (.inr rfl))
      · obtain ⟨call', hstep, rfl⟩ := Option.map_eq_some_iff.1 h
        exact hi.goOn hw hcall hstep (.inr (.inl rfl))
      · obtain ⟨call', hstep, rfl⟩ := Option.map_eq_some_iff.1 h
        exact hi.goOn hw hcall hstep (.inl ⟨a, rfl⟩)
      · obtain ⟨result, hresult, hconclude⟩ := Option.bind_eq_some_iff.1 h
        exact hi.conclude hP hw hcall (.inl hresult) hconclude
      · split_ifs at h with hnone
        exact hi.conclude hP hw hcall (.inr ⟨by simpa using hnone, rfl⟩) h
    · simp at h

theorem init_sound (hlen : plan.ranges.length ≤ isizeMax) :
    Sound settings P scan kind plan (init settings kind plan hlen) := by
  have hwaiting {w : ℕ} {state : WorkerState}
      (h : (init (σ := σ) (ι := ι) settings kind plan hlen).run.workers[w]? = some state) :
      state = .waiting := eq_of_mem_replicate (mem_of_getElem? h)
  refine ⟨init_reported hlen, fun range => ⟨[], rfl⟩, fun w range hw => ?_,
    fun _ _ => rfl, ?_, by simp [init]⟩
  · cases hwaiting hw
  · simp [init, init_ended hlen]

/-- **A run is the calls that it makes.** However the workers interleave with each other and with
stops and kills, every range that has ended was ended by a call of `process_range` on its scan. -/
theorem sound_of_exec (hP : ∀ range, (P range).CountsRows kind)
    {hlen : plan.ranges.length ≤ isizeMax} {acts : List (Act α)}
    (h : (lts settings P scan).exec (init settings kind plan hlen) acts = some s) :
    Sound settings P scan kind plan s :=
  LTS.exec_invariant h (init_sound hlen) fun _ _ _ hi hs => step_sound hP hi hs

/-! ### When all workers have left -/

/-- Nothing stopped the run, and every range of the plan succeeded. -/
def Whole (plan : TokenPlan) (s : JobRun σ ι) : Prop :=
  s.run.report.stoppedBy = none ∧ s.run.report.AllSucceeded plan

/-- The outcomes of the report are those of the run. -/
theorem whole_of_outcomes (hnone : s.run.control.reason = none)
    (hranges : (s.run.outcomes.map fun f => f.outcome.range).Perm plan.tokenRanges)
    (hall : ∀ f ∈ s.run.outcomes, f.outcome.isSuccess = true) : s.Whole plan := by
  have hsorted : s.run.report.outcomes.Perm s.run.outcomes := mergeSort_perm ..
  exact ⟨hnone, (hsorted.map _).trans hranges, fun f hf => hall f (hsorted.mem_iff.1 hf)⟩

variable (hP : ∀ range, (P range).CountsRows kind) (hi : Sound settings P scan kind plan s) (hj : s.run.Joined)

include hi hj

/-- The ranges that have ended are those with an outcome. -/
theorem Sound.perm_outcomes : (s.ended.map Prod.fst).Perm s.run.outcomes := by
  have hfinished := flatMap_workers_of_joined hj (f := WorkerState.finished) rfl
  have hended := hi.ended
  rwa [SchedulerRun.ended, hfinished, append_nil] at hended

/-- A level of the report is the sum over the calls. -/
theorem Sound.committed_report {counter : CounterKind} {count : FinishedRange × σ → ℕ}
    (h : ∀ e ∈ s.ended, e.1.counters.committed counter = .ofNat (count e)) :
    s.run.report.counters.committed counter = .ofNat (s.ended.map count).sum := by
  have hsum : (s.ended.map fun e => e.1.counters.committed counter).sum =
      UInt64.ofNat (s.ended.map count).sum := by
    rw [map_congr_left h]
    induction s.ended with
    | nil => rfl
    | cons e es ih => simp [ih, UInt64.ofNat_add]
  rw [hi.reported.conserved.committed_report_of_joined hj, ← hsum,
    ← ((hi.perm_outcomes hj).map fun f => f.counters.committed counter).sum_eq, map_map]
  rfl

include hP in
/-- A counter of rows in the report is the sum of what the calls have counted. -/
theorem Sound.committed_rows {counter : CounterKind}
    (hreg : counter.isRegisteredFor kind = true) (hrows : counter.isPartitionCounter = false)
    (herror : counter ≠ .error) {count : FinishedRange × σ → ℕ}
    (hcount : ∀ e ∈ s.ended, ∃ f, ((P e.1.outcome.range).counters e.2).Counts f ∧
      f counter = count e) :
    s.run.report.counters.committed counter = .ofNat (s.ended.map count).sum := by
  refine hi.committed_report hj fun e he => ?_
  obtain ⟨f, hf, heq⟩ := hcount e he
  obtain ⟨call, ⟨acts, hexec⟩, houtcome, hjob, -⟩ := hi.courses e he
  obtain ⟨result, -, hfinished⟩ := RangeCall.outcome_of_exec hexec houtcome
  have hkind := ((hP e.1.outcome.range).of_exec hexec).job_eq
  rw [hjob] at hfinished hkind
  rw [hfinished, ← heq]
  refine committed_processRange hf _ result ?_ hrows herror
  rw [JobCounters.isRegistered, hkind]
  exact hreg

/-- Where no discrepancies are registered, a success is a whole plan. -/
theorem Sound.exit_success_iff_whole (hmissing : CounterKind.missing.isRegisteredFor kind = false)
    (hmismatch : CounterKind.mismatch.isRegisteredFor kind = false) (job : JobKind) (dryRun : Bool) :
    (RunSummary.fromReport job s.run.report dryRun).exit = .success ↔ s.Whole plan := by
  rw [hi.reported.exit_success_iff hj]
  have hkind : s.run.report.counters.job = kind :=
    (job_report _).trans hi.reported.conserved.job_eq
  have hnone := unrepaired_of_not_registered (hkind ▸ hmissing) (hkind ▸ hmismatch)
  exact ⟨fun h => ⟨h.1, h.2.1⟩, fun h => ⟨h.1, h.2, hnone⟩⟩

/-- The calls of a run whose ranges all succeeded: one for each range of the plan, each a success,
and killed only with the run. -/
theorem Sound.succeeded (hall : s.run.report.AllSucceeded plan) :
    (s.ended.map fun e => e.1.outcome.range).Perm plan.tokenRanges ∧
      ∀ e ∈ s.ended, ∃ call, Follows P scan e.1.outcome.range call ∧ call.job = e.2 ∧
        call.outcome = some e.1 ∧ call.Succeeded ∧
          (call.control.killed = true → s.run.control.killed = true) := by
  have hperm : (s.ended.map Prod.fst).Perm s.run.report.outcomes :=
    (hi.perm_outcomes hj).trans (mergeSort_perm ..).symm
  refine ⟨?_, fun e he => ?_⟩
  · have := hperm.map fun f => f.outcome.range
    rw [map_map] at this
    exact this.trans hall.1
  · obtain ⟨call, hfollows, houtcome, hjob, hkilled⟩ := hi.courses e he
    have hsuccess := hall.2 e.1 (hperm.mem_iff.1 (mem_map_of_mem he))
    refine ⟨call, hfollows, hjob, houtcome, ⟨e.1, houtcome, ?_, ?_⟩, hkilled⟩
    · rintro hstatus
      simp [RangeOutcome.isSuccess, hstatus] at hsuccess
    · rintro hstatus
      simp [RangeOutcome.isSuccess, hstatus] at hsuccess

/-- When nothing stopped the run either, no call was killed. -/
theorem Sound.whole (hwhole : s.Whole plan) :
    (s.ended.map fun e => e.1.outcome.range).Perm plan.tokenRanges ∧
      ∀ e ∈ s.ended, ∃ call, Follows P scan e.1.outcome.range call ∧ call.job = e.2 ∧
        call.outcome = some e.1 ∧ call.Succeeded ∧ call.control.killed = false := by
  obtain ⟨hranges, hcalls⟩ := hi.succeeded hj hwhole.2
  refine ⟨hranges, fun e he => ?_⟩
  obtain ⟨call, hfollows, hjob, houtcome, hsucceeded, hkilled⟩ := hcalls e he
  refine ⟨call, hfollows, hjob, houtcome, hsucceeded, ?_⟩
  by_contra hne
  have hreason := hi.reported.stopped.explained (.inr (hkilled (by simpa using hne)))
  rw [show s.run.control.reason = none from hwhole.1] at hreason
  simp at hreason

end JobRun

end Cdm
