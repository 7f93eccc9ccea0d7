import Cdm.Engine.Control
import Cdm.Engine.Outcome
import Cdm.LTS.Basic
import Cdm.Metrics.Registry
import Cdm.Planner.Plan
import Mathlib.Data.List.Sort

/-!
# The range scheduler

`Scheduler::run` starts a fixed number of workers over one work list.  A worker waits while the run
is paused, leaves when it is stopping or the list is exhausted, claims a range, processes it, merges
the range's counters into the run's, records the outcome and checks the error limit.  When all
workers have left, the report is built.

What a processor does with a range is not modelled: a range ends with any result and any values in
its counters, which the label of the step carries.  Every access to shared memory is a step of its
own, so that the workers and the calls of `RunControl` interleave in every order.  The observer's
calls change nothing here and are left out.
-/

namespace Cdm

/-! ### Accounting for a range -/

/-- How one range ended.  For a failed range the error stands where the program has the diagnostic
that it renders from it. -/
structure RangeOutcome where
  range : TokenRange
  status : RunStatus
  runInfo : String
  error : Option CdmError
  abandoned : Bool
  deriving DecidableEq

/-- The rows a failed range read but could not account for. -/
def lostRows (c : JobCounters) : UInt64 :=
  let count kind := (c.countOf kind .interim).toNat
  let lost : ℕ :=
    match c.job with
    | .migrate => count .read - count .write - count .skipped
    | .validate => count .read - count .valid - count .missing - count .mismatch - count .skipped
    | .guardrail => 0
  .ofNat lost

/-- Counts a failed range: the lost rows, and one more failed partition. -/
def recordRangeFailure (c : JobCounters) : JobCounters :=
  let lost := lostRows c
  let c := if lost > 0 then c.incrementKind .error lost else c
  c.incrementKind .partitionsFailed 1

/-- Counts a range that completed. -/
def recordRangeSuccess (c : JobCounters) : JobCounters := c.incrementKind .partitionsPassed 1

theorem job_recordRangeFailure (c : JobCounters) : (recordRangeFailure c).job = c.job := by
  unfold recordRangeFailure
  rw [JobCounters.job_incrementKind]
  split_ifs
  · exact JobCounters.job_incrementKind ..
  · rfl

theorem job_recordRangeSuccess (c : JobCounters) : (recordRangeSuccess c).job = c.job :=
  JobCounters.job_incrementKind ..

/-- What the processing of a range came to. -/
inductive RangeResult
  | verdict (verdict : RangeVerdict)
  | error (error : CdmError)
  | panic (message : String)
  /-- The run was killed first. -/
  | killed
  deriving DecidableEq

/-- A range that has ended, with its counters after the flush, which its metrics string shows. -/
structure FinishedRange where
  outcome : RangeOutcome
  counters : JobCounters
  runInfo_eq : outcome.runInfo = counters.runInfo

/-- The outcome of a failed range. -/
def failRange (c : JobCounters) (range : TokenRange) (error : CdmError) : FinishedRange :=
  let c := (recordRangeFailure c).flush
  ⟨⟨range, .fail, c.runInfo, some error, false⟩, c, rfl⟩

/-- The outcome of a range, given its counters as the processor left them. -/
def processRange (c : JobCounters) (range : TokenRange) : RangeResult → FinishedRange
  | .verdict verdict =>
    let c := (recordRangeSuccess c).flush
    ⟨⟨range, verdict.status, c.runInfo, none, false⟩, c, rfl⟩
  | .error error => failRange c range error
  | .panic message =>
    failRange c range <| CdmError.withRange
      ⟨.internal, "the job panicked while processing the range: " ++ message, {}⟩ range
  | .killed =>
    let c := c.flush
    ⟨⟨range, .started, c.runInfo, none, true⟩, c, rfl⟩

/-- What the worker does to the run's control before it accounts for the range: a fatal error stops
the run, a panic does not. -/
def RangeResult.stopOps : RangeResult → List ControlOp
  | error e => if e.kind.isFatal then Cdm.stopOps .fatal else []
  | _ => []

/-! ### Workers -/

/-- Where a worker is in its loop. -/
inductive WorkerState
  /-- It waits while the run is paused. -/
  | waiting
  /-- It is about to look whether the run is stopping. -/
  | checking
  /-- It is about to claim a range. -/
  | claiming
  | processing (range : TokenRange)
  /-- It performs what is left of a call of `stop`, then merges the counters of the range. -/
  | closing (ops : List ControlOp) (finished : FinishedRange)
  /-- It is about to record the outcome. -/
  | reporting (finished : FinishedRange)
  /-- It is about to look whether the error limit has to be checked. -/
  | limiting
  /-- It is about to read the run's errors. -/
  | counting
  /-- It performs what is left of a call of `stop`, then goes on. -/
  | halting (ops : List ControlOp)
  | done

/-- Whether the worker has left. -/
def WorkerState.isDone : WorkerState → Bool
  | done => true
  | _ => false

/-- A worker leaves when there is nothing to claim. -/
def WorkerState.afterClaim : Option TokenRange → WorkerState
  | some range => processing range
  | none => done

/-- What the scheduler is configured with. -/
structure SchedulerSettings where
  workers : UInt32
  /-- The total of `ERROR` above which the run stops; zero for no limit. -/
  errorLimit : UInt64
  deriving DecidableEq, Repr

/-- How many workers are started. -/
def SchedulerSettings.workerCount (settings : SchedulerSettings) : ℕ := max settings.workers.toNat 1

/-- The shared state of a run. -/
structure SchedulerRun where
  control : RunControl
  queue : WorkQueue
  runCounters : JobCounters
  /-- The outcomes in the order they were recorded, each with the counters of its range. -/
  outcomes : List FinishedRange
  workers : List WorkerState
  /-- What is left of the calls of `RunControl` that other threads have made. -/
  calls : List (List ControlOp)

namespace SchedulerRun

/-- The steps of a run. -/
inductive Act
  /-- Another thread calls a method of `RunControl`. -/
  | request (request : ControlRequest)
  /-- The next operation of such a call. -/
  | advance (call : ℕ)
  /-- The next operation of a worker. -/
  | work (worker : ℕ)
  /-- The range of a worker ends, its counters holding `units`. -/
  | finish (worker : ℕ) (result : RangeResult) (units : CounterKind → CounterUnit)

variable (settings : SchedulerSettings)

/-- A run that is about to start its workers. -/
def init (job : JobKind) (plan : TokenPlan) (h : plan.ranges.length ≤ isizeMax) :
    SchedulerRun where
  control := {}
  queue := .new plan.tokenRanges (by simpa [TokenPlan.tokenRanges] using h)
  runCounters := .new job
  outcomes := []
  workers := List.replicate settings.workerCount .waiting
  calls := []

/-- Moves a worker on. -/
def setWorker (s : SchedulerRun) (w : ℕ) (state : WorkerState) : SchedulerRun :=
  { s with workers := s.workers.set w state }

/-- The next operation of the worker `w`. -/
def workStep (s : SchedulerRun) (w : ℕ) : WorkerState → Option SchedulerRun
  | .waiting =>
    if !s.control.paused || s.control.stopping then some (s.setWorker w .checking) else none
  | .checking => some (s.setWorker w (if s.control.stopping then .done else .claiming))
  | .claiming =>
    let (range, queue) := s.queue.claim
    some ({ s with queue := queue }.setWorker w (.afterClaim range))
  | .processing _ => none
  | .closing (op :: ops) finished =>
    some ({ s with control := s.control.perform op }.setWorker w (.closing ops finished))
  | .closing [] finished =>
    -- an error of `add` is logged and dropped
    let counters := (s.runCounters.add finished.counters).toOption.getD s.runCounters
    some ({ s with runCounters := counters }.setWorker w (.reporting finished))
  | .reporting finished =>
    some ({ s with outcomes := s.outcomes ++ [finished] }.setWorker w .limiting)
  | .limiting =>
    let skip := settings.errorLimit == 0 || s.control.stopping
    some (s.setWorker w (if skip then .waiting else .counting))
  | .counting =>
    let errors := s.runCounters.countOf .error .committed
    let ops := if errors > settings.errorLimit then stopOps .errorLimit else []
    some (s.setWorker w (.halting ops))
  | .halting (op :: ops) =>
    some ({ s with control := s.control.perform op }.setWorker w (.halting ops))
  | .halting [] => some (s.setWorker w .waiting)
  | .done => none

/-- One step. -/
def step (s : SchedulerRun) : Act → Option SchedulerRun
  | .request request =>
    -- the watchdog's grace period starts when the run is stopping
    if request = .graceExpired ∧ s.control.stopping = false then none
    else some { s with calls := s.calls ++ [request.ops s.control] }
  | .advance call =>
    match s.calls[call]? with
    | some (op :: ops) =>
      some { s with control := s.control.perform op, calls := s.calls.set call ops }
    | _ => none
  | .work w => (s.workers[w]?).bind (s.workStep settings w)
  | .finish w result units =>
    match s.workers[w]? with
    | some (.processing range) =>
      -- only a killed run cuts a range short
      if result = .killed ∧ s.control.killed = false then none
      else
        let finished := processRange ⟨s.runCounters.job, units⟩ range result
        some (s.setWorker w (.closing result.stopOps finished))
    | _ => none

/-- The runs of the scheduler. -/
def lts : LTS SchedulerRun Act := ⟨step settings⟩

/-- Whether every worker has left. -/
def Joined (s : SchedulerRun) : Prop := ∀ state ∈ s.workers, state.isDone = true

/-- What a finished run returns, less the run's and the node's names and the elapsed time. -/
structure Report where
  job : JobKind
  status : RunStatus
  stoppedBy : Option StopReason
  rangesPlanned : ℕ
  counters : JobCounters
  outcomes : List FinishedRange
  unclaimed : List TokenRange

/-- The report of a run whose workers have left: the outcomes in ring order, and the run's counters
copied into a fresh registry and flushed. -/
def report (s : SchedulerRun) : Report :=
  let counters := JobCounters.new s.runCounters.job
  { job := s.runCounters.job
    status := s.control.reason.elim .ended StopReason.runStatus
    stoppedBy := s.control.reason
    rangesPlanned := s.queue.ranges.length
    counters := ((counters.add s.runCounters).toOption.getD counters).flush
    outcomes := s.outcomes.mergeSort (fun a b => a.outcome.range ≤ b.outcome.range)
    unclaimed := s.queue.unclaimed }

end SchedulerRun

end Cdm
