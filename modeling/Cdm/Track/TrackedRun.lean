import Cdm.Engine.Observed
import Cdm.Track.Flow

/-!
# A tracked run

The tracker is the observer of the run it tracks.  The workers mark their ranges `STARTED` and record
how they ended; when the scheduler has returned, `Tracking::finish` gives the tracker the status and
the counters of the report.  The workers, the writer and its timer, the calls of `RunControl` and
`finish` interleave in every order.

What is stored when `finish` has returned is a function of the report: the run row has its status and
its counters, each range with an outcome has the row of its outcome, and each unclaimed range the row
it was planned with.  The condition on the tracker's moves is `Tracker.InOrder`.
-/

namespace Cdm

open List SchedulerRun

/-- The tracking of a run: its tracker, and the report that the scheduler has returned. -/
structure Tracking where
  tracker : Tracker
  report : Option SchedulerRun.Report

namespace Tracking

/-- What happens besides the calls of the workers. -/
inductive Act
  /-- The scheduler returns its report. -/
  | returned
  /-- `finish`, with the report. -/
  | finish
  /-- A move of the tracker that is no call from outside. -/
  | own (act : Tracker.Act)

/-- Whether a move is a call from outside. -/
def isCall : Tracker.Act → Bool
  | .startRange .. | .finishRange .. | .finish .. => true
  | _ => false

variable (config : TrackerConfig)

/-- The tracker makes a move. -/
def move (s : Tracking) (act : Tracker.Act) : Option Tracking :=
  (s.tracker.step config act).map fun tracker => { s with tracker }

def step (run : SchedulerRun) (s : Tracking) : Act → Option Tracking
  | .returned =>
    if run.Joined ∧ s.report.isNone then some { s with report := some run.report } else none
  | .finish =>
    s.report.bind fun report => s.move config (.finish report.status report.counters.runInfo)
  | .own act => if isCall act then none else s.move config act

/-- The tracking as the observer of its run. -/
def observer : RangeObserver Tracking Act where
  onRangeStarted s range now := s.move config (.startRange range now)
  onRangeFinished s outcome _ :=
    s.move config (.finishRange outcome.range outcome.status outcome.runInfo)
  busy s range := s.tracker.calls.any fun c => c.record.range = range
  step := step config

/-- The tracking of a run that is about to start. -/
def init (record : RunRecord) (plan : TokenPlan) : Tracking :=
  ⟨.init (.create record plan.tokenRanges), none⟩

/-- The condition on a step: the tracker moves in order. -/
def InOrder (s : ObservedRun Tracking) : ObservedRun.Act Act → Prop
  | .own (.own act) => s.observer.tracker.InOrder config act
  | _ => True

instance decidableInOrder (s : ObservedRun Tracking) : ∀ act, Decidable (InOrder config s act)
  | .own (.own act) => inferInstanceAs (Decidable (s.observer.tracker.InOrder config act))
  | .own .returned | .own .finish | .run _ | .onRangeStarted .. | .onRangeFinished .. =>
    .isTrue trivial

end Tracking

/-- The write that a call of an observer makes. -/
def ObserverCall.write : ObserverCall → RangeRecord
  | rangeStarted range now => .startWrite range now
  | rangeFinished finished _ =>
    .finishWrite finished.outcome.range finished.outcome.status finished.outcome.runInfo

@[simp] theorem ObserverCall.range_write (call : ObserverCall) : call.write.range = call.range := by
  cases call <;> rfl

namespace Tracking

variable {config : TrackerConfig} {settings : SchedulerSettings} {job : JobKind} {plan : TokenPlan}
  {record : RunRecord} {J : SchedulerRun → Prop}

/-- A tracker that has been asked for the writes of the calls, and knows of no other range. -/
structure Fed (record : RunRecord) (plan : TokenPlan) (calls : List ObserverCall) (t : Tracker) :
    Prop where
  order : Tracker.OrderInv (.create record plan.tokenRanges) t
  oneCall : t.OneCall
  asked : ∀ k, t.asked k = (calls.map ObserverCall.write).filter fun w => w.range.min = k
  within : t.Within (· ∈ plan.tokenRanges)

/-- What holds in every state of a tracked run; `J` is what else is known of the scheduler. -/
structure Kept (settings : SchedulerSettings) (job : JobKind) (plan : TokenPlan)
    (record : RunRecord) (J : SchedulerRun → Prop) (s : ObservedRun Tracking) : Prop where
  conserved : s.run.Conserved settings job plan
  also : J s.run
  told : s.Told
  fed : Fed record plan s.calls s.observer.tracker
  /-- A call that has not returned is about a range that a worker holds, who has told of it. -/
  waiting : ∀ c ∈ s.observer.tracker.calls, s.Holds c.record.range
  /-- The report is that of the run when its workers had left. -/
  returned : ∀ report ∈ s.observer.report, ∃ r : SchedulerRun, r.Conserved settings job plan ∧
    J r ∧ r.Joined ∧ report = r.report ∧ s.run.workers = r.workers ∧ s.run.outcomes = r.outcomes ∧
      s.run.queue = r.queue
  runOnce : ∃ written, s.observer.tracker.RunOnce { record with status := .started } written ∧
    ∀ w ∈ written, ∃ report ∈ s.observer.report, w = (report.status, report.counters.runInfo)

/-- A move of the tracker keeps what it is fed with, and adds the write it brings in. -/
theorem Fed.move {calls calls' : List ObserverCall} {t t' : Tracker} {act : Tracker.Act}
    (hi : Fed record plan calls t) (hspawned : t.Unspawned) (ho : t.InOrder config act)
    (hin : ∀ w ∈ Tracker.enqueued act, w.range ∈ plan.tokenRanges)
    (hcalls : calls'.map ObserverCall.write =
      calls.map ObserverCall.write ++ (Tracker.enqueued act).toList)
    (h : t.step config act = some t') : Fed record plan calls' t' := by
  have hstep := Tracker.callStep_step h
  refine ⟨Tracker.step_orderInv hi.order ho h, Tracker.oneCall_step hi.oneCall hstep, fun k => ?_,
    Tracker.step_within hi.within hspawned h hin⟩
  rw [Tracker.asked_step hi.oneCall hstep k, hi.asked k, hcalls, filter_append]

theorem enqueued_eq_none {act : Tracker.Act} (h : isCall act = false) :
    Tracker.enqueued act = none := by
  cases act <;> first | rfl | simp [isCall] at h

theorem finishes_eq_none {act : Tracker.Act} (h : isCall act = false) :
    Tracker.finishes act = none := by
  cases act <;> first | rfl | simp [isCall] at h

/-- The ranges of the workers are of the plan. -/
theorem mem_of_held {run : SchedulerRun} (hc : run.Conserved settings job plan) {w : ℕ}
    {state : WorkerState} (hw : run.workers[w]? = some state) {range : TokenRange}
    (h : range ∈ state.held) : range ∈ plan.tokenRanges := by
  have hmem : range ∈ run.accounted :=
    mem_append_right _ (mem_flatMap.2 ⟨state, mem_of_getElem? hw, h⟩)
  rw [← hc.ranges]
  exact mem_of_mem_take (hc.claims.mem_iff.1 hmem)

theorem Kept.unspawned {s : ObservedRun Tracking} (hi : Kept settings job plan record J s) :
    s.observer.tracker.Unspawned :=
  have ⟨_, hrun, _⟩ := hi.runOnce
  hrun.unspawned hi.fed.order.spawnsRun

/-- A range that a call is about stays held until the call has returned. -/
theorem Kept.holds {s s' : ObservedRun Tracking} {act : ObservedRun.Act Act}
    (hi : Kept settings job plan record J s)
    (h : ObservedRun.step settings (observer config) s act = some s') {c : Call}
    (hc : c ∈ s.observer.tracker.calls) : s'.Holds c.record.range :=
  hi.told.holds_step h (hi.waiting c hc) (any_eq_true.2 ⟨c, hc, by simp⟩)

/-- A step of the scheduler. -/
theorem Kept.scheduler {s s' : ObservedRun Tracking} {act : SchedulerRun.Act}
    (hi : Kept settings job plan record J s) (hJ : J s'.run) (htold : s'.Told)
    (h : ObservedRun.step settings (observer config) s (.run act) = some s') :
    Kept settings job plan record J s' := by
  obtain ⟨hrun, hobserver, hcalls, -⟩ := hi.told.scheduler_cases h
  refine ⟨step_conserved hi.conserved hrun, hJ, htold, ?_, ?_, ?_, ?_⟩
  · rw [hobserver, hcalls]
    exact hi.fed
  · rw [hobserver]
    exact fun c hc => hi.holds h hc
  · rw [hobserver]
    intro report hreport
    obtain ⟨r, hconserved, hr, hj, hreport, hworkers, houtcomes, hqueue⟩ := hi.returned report hreport
    have hjoined : s.run.Joined := by
      unfold SchedulerRun.Joined
      rw [hworkers]
      exact hj
    obtain ⟨hworkers', houtcomes', hqueue'⟩ := hjoined.step hrun
    exact ⟨r, hconserved, hr, hj, hreport, hworkers'.trans hworkers, houtcomes'.trans houtcomes,
      hqueue'.trans hqueue⟩
  · rw [hobserver]
    exact hi.runOnce

/-- What a call of a worker makes the tracker do. -/
def callAct : ObserverCall → Tracker.Act
  | .rangeStarted range now => .startRange range now
  | .rangeFinished f _ => .finishRange f.outcome.range f.outcome.status f.outcome.runInfo

theorem tell_observer (s : Tracking) (call : ObserverCall) :
    (observer config).tell s call.now call.notice = s.move config (callAct call) := by
  cases call <;> rfl

theorem enqueued_callAct (call : ObserverCall) :
    Tracker.enqueued (callAct call) = some call.write := by
  cases call <;> rfl

theorem finishes_callAct (call : ObserverCall) : Tracker.finishes (callAct call) = none := by
  cases call <;> rfl

theorem inOrder_callAct (t : Tracker) (call : ObserverCall) : t.InOrder config (callAct call) := by
  cases call <;> trivial

/-- A call of a worker, whose write enters the tracker. -/
theorem Kept.call {s s' : ObservedRun Tracking} (hi : Kept settings job plan record J s)
    {act : ObservedRun.Act Act} (h : ObservedRun.step settings (observer config) s act = some s')
    {w : ℕ} {state : WorkerState} {call : ObserverCall} (hw : s.run.workers[w]? = some state)
    (hflag : s.told[w]? = some false) (htells : ObservedRun.Tells state call)
    (hobserver : (observer config).tell s.observer call.now call.notice = some s'.observer)
    (hrun : s'.run = s.run) (htold : s'.told = s.told.set w true)
    (hcalls : s'.calls = s.calls ++ [call]) : Kept settings job plan record J s' := by
  rw [tell_observer] at hobserver
  obtain ⟨tracker, hmove, hobserver⟩ := Option.map_eq_some_iff.1 hobserver
  have hrangeOf : call.write.range ∈ plan.tokenRanges := by
    rw [ObserverCall.range_write]
    exact mem_of_held hi.conserved hw (by simp [htells.held])
  refine ⟨hrun ▸ hi.conserved, hrun ▸ hi.also, ObservedRun.step_told hi.told h, ?_, fun c hc => ?_, ?_,
    ?_⟩
  · rw [← hobserver]
    refine hi.fed.move hi.unspawned (inOrder_callAct ..) ?_ ?_ hmove
    · simpa [enqueued_callAct] using hrangeOf
    · simp [hcalls, enqueued_callAct]
  · rw [← hobserver] at hc
    rcases (Tracker.callStep_step hmove).mem hc with ⟨c', hc', heq⟩ | hnew
    · exact heq ▸ hi.holds h hc'
    · rw [enqueued_callAct, Option.some.injEq] at hnew
      rw [← hnew, ObserverCall.range_write]
      exact ObservedRun.holds_of_told hw hflag htells hrun htold
  · rw [← hobserver, hrun]
    exact hi.returned
  · obtain ⟨written, honce, hwritten⟩ := hi.runOnce
    have hstep := Tracker.step_runOnce honce hi.fed.order.spawnsRun hmove
    rw [finishes_callAct, Option.or_none] at hstep
    rw [← hobserver]
    exact ⟨written, hstep, hwritten⟩

/-- A move of the tracker that brings in no range write. -/
theorem Kept.quiet {s : ObservedRun Tracking} (hi : Kept settings job plan record J s)
    {act : Tracker.Act} {t : Tracking} (h : s.observer.move config act = some t)
    (ho : s.observer.tracker.InOrder config act) (hnone : Tracker.enqueued act = none)
    (hfinishes : ∀ w ∈ Tracker.finishes act,
      ∃ report ∈ s.observer.report, w = (report.status, report.counters.runInfo))
    (htold : ObservedRun.Told { s with observer := t }) :
    Kept settings job plan record J { s with observer := t } := by
  obtain ⟨tracker, hmove, rfl⟩ := Option.map_eq_some_iff.1 h
  refine ⟨hi.conserved, hi.also, htold, ?_, ?_, hi.returned, ?_⟩
  · exact hi.fed.move hi.unspawned ho (by simp [hnone]) (by simp [hnone]) hmove
  · intro c hc
    rcases (Tracker.callStep_step hmove).mem hc with ⟨c', hc', heq⟩ | hnew
    · exact heq ▸ hi.waiting c' hc'
    · simp [hnone] at hnew
  · obtain ⟨written, honce, hwritten⟩ := hi.runOnce
    refine ⟨_, Tracker.step_runOnce honce hi.fed.order.spawnsRun hmove, fun w hw => ?_⟩
    rcases written with - | w'
    · exact hfinishes w hw
    · exact hwritten w hw

theorem step_kept {s s' : ObservedRun Tracking} {act : ObservedRun.Act Act}
    (hi : Kept settings job plan record J s) (ho : InOrder config s act) (hJ : J s'.run)
    (h : ObservedRun.step settings (observer config) s act = some s') :
    Kept settings job plan record J s' := by
  have htold := ObservedRun.step_told hi.told h
  rcases ObservedRun.observerStep_step h with ⟨act, -, -⟩ |
    ⟨_, w, state, call, -, hw, hflag, htells, hobserver, hrun, hset, hcalls⟩ | ⟨act, -⟩
  · exact hi.scheduler hJ htold h
  · exact hi.call h hw hflag htells hobserver hrun hset hcalls
  · obtain ⟨observer, hstep, rfl⟩ := Option.map_eq_some_iff.1 h
    rcases act with - | - | act
    · simp only [Tracking.observer, Tracking.step] at hstep
      split_ifs at hstep with hguard
      cases hstep
      have hnone : s.observer.report = none := by simpa using hguard.2
      refine ⟨hi.conserved, hi.also, htold, hi.fed, hi.waiting, ?_, ?_⟩
      · intro report hreport
        exact ⟨s.run, hi.conserved, hi.also, hguard.1, (Option.some.inj hreport).symm, rfl, rfl, rfl⟩
      · obtain ⟨written, honce, hwritten⟩ := hi.runOnce
        refine ⟨written, honce, fun w hw => ?_⟩
        obtain ⟨report, hreport, -⟩ := hwritten w hw
        simp [hnone] at hreport
    · obtain ⟨report, hreport, hmove⟩ := Option.bind_eq_some_iff.1 hstep
      refine hi.quiet hmove trivial rfl (fun w hw => ⟨report, hreport, ?_⟩) htold
      exact (Option.some.inj hw).symm
    · simp only [Tracking.observer, Tracking.step] at hstep
      split_ifs at hstep with hcall
      rw [Bool.not_eq_true] at hcall
      exact hi.quiet hstep ho (enqueued_eq_none hcall) (by simp [finishes_eq_none hcall]) htold

theorem init_kept (hapart : Cover.Apart TokenRange.Mem plan.tokenRanges)
    (hlen : plan.ranges.length ≤ isizeMax) (hJ : J (.init settings job plan hlen)) :
    Kept settings job plan record J (.init settings job plan hlen (init record plan)) := by
  refine ⟨init_conserved hlen, hJ, ObservedRun.init_told hlen _, ?_, ?_, ?_, ?_⟩
  · refine ⟨Tracker.init_orderInv _, ?_, fun k => ?_, ?_, ?_, ?_⟩
    · simp [Tracker.OneCall, ObservedRun.init, init, Tracker.init]
    · simp [Tracker.asked, Tracker.writesAt, Tracker.waitingAt, ObservedRun.init, init, Tracker.init]
    · rintro w (⟨c, hc, -⟩ | ⟨k, old, hold, -⟩)
      · simp [ObservedRun.init, init, Tracker.init] at hc
      · simp [ObservedRun.init, init, Tracker.init] at hold
    · simp [Tracker.items, ObservedRun.init, init, Tracker.init]
    · intro k row hrow
      obtain ⟨range, hrange, hmin, rfl⟩ := (StoredRun.getElem?_create hapart).1 hrow
      exact ⟨hrange, hmin⟩
  · simp [ObservedRun.init, init, Tracker.init]
  · simp [ObservedRun.init, init]
  · refine ⟨none, ⟨rfl, ?_, rfl⟩, by simp⟩
    simp [Tracker.runs, Tracker.items, ObservedRun.init, init, Tracker.init]

/-! ### When `finish` has returned -/

variable {s : ObservedRun Tracking} (hi : Kept settings job plan record J s)
  (hapart : Cover.Apart TokenRange.Mem plan.tokenRanges) (hj : s.run.Joined)
  (hdone : s.observer.tracker.phase = .finished)

theorem nodup_of_apart {ranges : List TokenRange} (h : Cover.Apart TokenRange.Mem ranges) :
    ranges.Nodup :=
  .of_map TokenRange.min (StoredRun.nodup_min_of_apart h)

include hapart in
theorem eq_of_min {r r' : TokenRange} (hr : r ∈ plan.tokenRanges) (hr' : r' ∈ plan.tokenRanges)
    (h : r.min = r'.min) : r = r' :=
  hapart.eq_of_mem hr hr' r.contains_min (h ▸ r'.contains_min)

include hi

include hdone in
/-- The run row has been written with the report. -/
theorem Kept.runRow : ∃ report ∈ s.observer.report, ∃ now, s.observer.tracker.store.info =
    Tracker.runRow { record with status := .started } report.status report.counters.runInfo now := by
  obtain ⟨hqueue, hsender, hspawned, -⟩ := hi.fed.order.closed (hdone ▸ by decide)
  have hruns : s.observer.tracker.runs = [] := by
    simp [Tracker.runs, Tracker.items, hi.fed.order.idle hdone, hqueue, hspawned]
  have hfinished := hi.fed.order.finishing hsender
  obtain ⟨written, honce, hwritten⟩ := hi.runOnce
  rcases written with - | ⟨status, info⟩
  · simp [honce.1] at hfinished
  · obtain ⟨report, hreport, heq⟩ := hwritten _ rfl
    cases heq
    rcases honce.2 with ⟨hone, -⟩ | ⟨-, now, hinfo⟩
    · simp [hruns] at hone
    · exact ⟨report, hreport, now, hinfo⟩

include hj

/-- With the workers gone, every write that was asked for is in the history. -/
theorem Kept.writesAt_of_joined (k : ℤ) : s.observer.tracker.writesAt k =
    (s.calls.map ObserverCall.write).filter fun w => w.range.min = k := by
  have hnone : s.observer.tracker.calls = [] := by
    exact eq_nil_iff_forall_not_mem.2 fun c hc =>
      hi.told.not_holds_of_joined hj _ (hi.waiting c hc)
  have hasked := hi.fed.asked k
  rwa [Tracker.asked, Tracker.waitingAt, hnone, map_nil, filter_nil, append_nil]
    at hasked

include hapart

/-- The calls about ranges that start where a range of the plan does are about that range. -/
theorem Kept.writesAt_range {range : TokenRange} (hrange : range ∈ plan.tokenRanges) :
    s.observer.tracker.writesAt range.min = (s.callsAt range).map ObserverCall.write := by
  have hmem : ∀ call ∈ s.calls, call.range ∈ plan.tokenRanges := by
    intro call hcall
    refine (hi.conserved.accounted_of_joined hj).mem_iff.1 (mem_append_left _ ?_)
    rcases call with ⟨r, now⟩ | ⟨f, now⟩
    · exact (hi.told.started_of_joined hj).mem_iff.1 (mem_filterMap.2 ⟨_, hcall, rfl⟩)
    · exact mem_map_of_mem
        ((hi.told.finished_of_joined hj).mem_iff.1 (mem_filterMap.2 ⟨_, hcall, rfl⟩))
  rw [hi.writesAt_of_joined hj, filter_map, ObservedRun.callsAt]
  congr 1
  refine filter_congr fun call hcall => ?_
  rw [Function.comp_apply, ObserverCall.range_write, decide_eq_decide]
  exact ⟨eq_of_min hapart (hmem call hcall) hrange, congrArg _⟩

include hdone

/-- The row of a range has the outcome of the calls about it. -/
theorem Kept.rowOutcome_range {range : TokenRange} (hrange : range ∈ plan.tokenRanges) :
    rowOutcome s.observer.tracker.store.ranges[range.min]? =
      rowOutcome (replay (some (StoredRun.plannedRow range))
        ((s.callsAt range).map ObserverCall.write)) := by
  have hreplayed := hi.fed.order.replayed range.min
  rw [hi.fed.order.pipeline_eq_nil hdone, hi.writesAt_range hapart hj hrange,
    (StoredRun.getElem?_create hapart).2 ⟨range, hrange, rfl, rfl⟩] at hreplayed
  exact hreplayed

theorem Kept.row_of_outcome {f : FinishedRange} (hf : f ∈ s.run.outcomes) :
    rowOutcome s.observer.tracker.store.ranges[f.outcome.range.min]? =
      some (f.outcome.status, some f.outcome.runInfo) := by
  have hplan := hi.conserved.accounted_of_joined hj
  have hnodup := hi.conserved.nodup_accounted (nodup_of_apart hapart)
  have hrange := hplan.mem_iff.1 (mem_append_left _ (mem_map_of_mem hf))
  obtain ⟨t, t', hcalls⟩ := hi.told.callsAt_outcome hnodup hf
  rw [hi.rowOutcome_range hapart hj hdone hrange, hcalls]
  rfl

theorem Kept.row_of_unclaimed {range : TokenRange} (hrange : range ∈ s.run.queue.unclaimed) :
    rowOutcome s.observer.tracker.store.ranges[range.min]? = some (.notStarted, none) := by
  have hplan := hi.conserved.accounted_of_joined hj
  have hdisjoint := (nodup_append.1 (hplan.nodup_iff.2 (nodup_of_apart hapart))).2.2
  have hnot : range ∉ s.run.accounted := by
    rw [SchedulerRun.accounted, flatMap_workers_of_joined hj rfl, append_nil]
    exact fun hmem => hdisjoint _ hmem _ hrange rfl
  rw [hi.rowOutcome_range hapart hj hdone (hplan.mem_iff.1 (mem_append_right _ hrange)),
    hi.told.callsAt_unclaimed hnot]
  rfl

end Tracking

/-- What a report says of each range of the plan: its status, and its metrics string. -/
def SchedulerRun.Report.recorded (report : SchedulerRun.Report) :
    List (TokenRange × RunStatus × Option String) :=
  report.outcomes.map (fun f => (f.outcome.range, f.outcome.status, some f.outcome.runInfo)) ++
    report.unclaimed.map fun range => (range, .notStarted, none)

/-- What a row says of its range. -/
def RangeRecord.entry (row : RangeRecord) : TokenRange × RunStatus × Option String :=
  (row.range, row.status, row.info)

namespace Tracking

/-- What is stored is what the report says. -/
structure Stored (record : RunRecord) (plan : TokenPlan) (report : SchedulerRun.Report)
    (stored : StoredRun) : Prop where
  rows : (stored.rows.map RangeRecord.entry).Perm report.recorded
  info : ∃ now, stored.info =
    Tracker.runRow { record with status := .started } report.status report.counters.runInfo now
  plan : (report.recorded.map Prod.fst).Perm plan.tokenRanges

variable {config : TrackerConfig} {settings : SchedulerSettings} {job : JobKind} {plan : TokenPlan}
  {record : RunRecord} {J : SchedulerRun → Prop} {s : ObservedRun Tracking}

theorem mem_rows_entry {stored : StoredRun} (hwithin : ∀ (k : ℤ), ∀ row ∈ stored.ranges[k]?,
    row.range ∈ plan.tokenRanges ∧ row.range.min = k)
    (hapart : Cover.Apart TokenRange.Mem plan.tokenRanges) {range : TokenRange}
    (hrange : range ∈ plan.tokenRanges) {status : RunStatus} {info : Option String} :
    (range, status, info) ∈ stored.rows.map RangeRecord.entry ↔
      rowOutcome stored.ranges[range.min]? = some (status, info) := by
  constructor
  · intro hmem
    obtain ⟨row, hrow, hentry⟩ := mem_map.1 hmem
    obtain ⟨k, hk⟩ := StoredRun.mem_rows.1 hrow
    cases hentry
    rw [(hwithin k row hk).2, hk]
    rfl
  · intro hrow
    obtain ⟨row, hk, hentry⟩ := Option.map_eq_some_iff.1 hrow
    obtain ⟨hmem, hmin⟩ := hwithin _ row hk
    refine mem_map.2 ⟨row, StoredRun.mem_rows.2 ⟨_, hk⟩, ?_⟩
    rw [RangeRecord.entry, eq_of_min hapart hmem hrange hmin, hentry]

/-- No two rows are of one range. -/
theorem nodup_rows_entry {stored : StoredRun}
    (hwithin : ∀ (k : ℤ), ∀ row ∈ stored.ranges[k]?, row.range.min = k) :
    (stored.rows.map RangeRecord.entry).Nodup := by
  rw [List.Nodup, pairwise_map]
  refine Table.pairwise_rows fun k k' row row' hne hk hk' heq => hne ?_
  rw [← hwithin k row hk, ← hwithin k' row' hk']
  exact congrArg (fun entry => entry.1.min) heq

theorem Kept.stored (hi : Kept settings job plan record J s)
    (hapart : Cover.Apart TokenRange.Mem plan.tokenRanges)
    (hdone : s.observer.tracker.phase = .finished) : ∃ r : SchedulerRun, J r ∧
      r.Conserved settings job plan ∧ r.Joined ∧ s.observer.report = some r.report ∧
      Stored record plan r.report s.observer.tracker.store := by
  obtain ⟨report, hreport, hinfo⟩ := hi.runRow hdone
  obtain ⟨r, hconserved, hr, hj, rfl, hworkers, houtcomes, hqueue⟩ := hi.returned report hreport
  have hjoined : s.run.Joined := by
    unfold SchedulerRun.Joined
    rw [hworkers]
    exact hj
  have hsorted : r.report.outcomes.Perm s.run.outcomes :=
    houtcomes ▸ mergeSort_perm ..
  have hunclaimed : r.report.unclaimed = s.run.queue.unclaimed := by
    rw [hqueue]
    rfl
  have hplan : (r.report.recorded.map Prod.fst).Perm plan.tokenRanges := by
    refine List.Perm.trans ?_ (hi.conserved.accounted_of_joined hjoined)
    rw [SchedulerRun.Report.recorded, map_append, map_map, map_map, hunclaimed]
    exact (hsorted.map _).append (.of_eq (map_id _))
  have hrecorded {entry : TokenRange × RunStatus × Option String} (h : entry ∈ r.report.recorded) :
      rowOutcome s.observer.tracker.store.ranges[entry.1.min]? = some entry.2 := by
    rcases mem_append.1 h with h | h
    · obtain ⟨f, hf, rfl⟩ := mem_map.1 h
      exact hi.row_of_outcome hapart hjoined hdone (hsorted.mem_iff.1 hf)
    · obtain ⟨range, hrange, rfl⟩ := mem_map.1 h
      exact hi.row_of_unclaimed hapart hjoined hdone (hunclaimed ▸ hrange)
  have hwithin := hi.fed.within.rows
  refine ⟨r, hr, hconserved, hj, hreport, ?_, hinfo, hplan⟩
  refine (perm_ext_iff_of_nodup (nodup_rows_entry fun k row hk => (hwithin k row hk).2)
    (.of_map Prod.fst (hplan.nodup_iff.2 (nodup_of_apart hapart)))).2 fun entry => ⟨?_, ?_⟩
  · intro hmem
    obtain ⟨row, hrow, rfl⟩ := mem_map.1 hmem
    obtain ⟨k, hk⟩ := StoredRun.mem_rows.1 hrow
    -- the report has an entry for the range of the row
    obtain ⟨entry, hentry, hrange⟩ := mem_map.1 (hplan.mem_iff.2 (hwithin k row hk).1)
    have hrow := (mem_rows_entry hwithin hapart (hwithin k row hk).1).1 hmem
    have heq : entry.2 = (row.status, row.info) := by
      have := hrecorded hentry
      rw [hrange, hrow] at this
      exact (Option.some.inj this).symm
    rwa [RangeRecord.entry, ← heq, ← hrange]
  · intro hentry
    have hrange := hplan.mem_iff.1 (mem_map_of_mem hentry)
    exact (mem_rows_entry hwithin hapart hrange).2 (hrecorded hentry)

/-- The tracked runs. -/
def lts (config : TrackerConfig) (settings : SchedulerSettings) :
    LTS (ObservedRun Tracking) (ObservedRun.Act Act) :=
  ObservedRun.lts settings (observer config)

/-- A tracked run that is about to start. -/
def start (settings : SchedulerSettings) (job : JobKind) (record : RunRecord) (plan : TokenPlan)
    (hlen : plan.ranges.length ≤ isizeMax) : ObservedRun Tracking :=
  .init settings job plan hlen (init record plan)

open ObservedRun (soleSettings killedPlan_apart)

/-- The first range passes, the second fails, and the run is stopped before the third. -/
def stoppedActs : List (ObservedRun.Act Act) :=
  [.run (.work 0), .run (.work 0), .run (.work 0), .onRangeStarted 0 5, .own (.own (.trySend 0)),
    .run (.finish 0 (.verdict .pass) (readRows 3)), .run (.work 0),
    .onRangeFinished 0 6, .own (.own (.trySend 0)), .run (.work 0), .run (.work 0),
    .run (.work 0), .run (.work 0), .run (.work 0), .onRangeStarted 0 7, .own (.own (.trySend 0)),
    .run (.finish 0 (.error ⟨.read, "timeout", {}⟩) (readRows 2)), .run (.work 0),
    .own (.own .recv), .own (.own (.apply 8)), .own (.own (.apply 8)), .own (.own (.apply 8)),
    .onRangeFinished 0 8, .own (.own (.trySend 0)), .run (.work 0), .run (.work 0),
    .run (.request (.stop .operator)), .run (.advance 0), .run (.advance 0), .run (.advance 0),
    .run (.work 0), .run (.work 0), .own .returned, .own .finish, .own (.own .dropSender),
    .own (.own .recv), .own (.own (.apply 9)), .own (.own (.apply 9)), .own (.own .drain),
    .own (.own .join), .own (.own .done)]

def stoppedRecord : RunRecord :=
  ⟨⟨1⟩, none, ⟨"ks", "t"⟩, .migrate, .notStarted, none, none, none⟩

def roomy : TrackerConfig := ⟨4, 4⟩

end Tracking

end Cdm
