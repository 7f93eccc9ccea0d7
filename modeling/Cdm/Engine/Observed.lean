import Cdm.Engine.Conservation
import Cdm.Lib.Keyed

/-!
# A run and its observer

A worker tells the observer of the run of each range twice: when it has claimed the range, before
any work, and when the range has ended and its counters have been merged, before its outcome is
recorded.  The calls of different workers interleave in every order with everything else.

An observer is given here by its state and by what the two calls do to it; a call that has not
returned holds its worker up.
-/

namespace Cdm

open List Option WorkerState

/-- What an observer is told of a range. -/
inductive Notice
  | started (range : TokenRange)
  | finished (outcome : RangeOutcome)

/-- A call of an observer, with the time of the call. -/
inductive ObserverCall
  | rangeStarted (range : TokenRange) (now : ℤ)
  | rangeFinished (finished : FinishedRange) (now : ℤ)

namespace ObserverCall

/-- The range a call is about. -/
def range : ObserverCall → TokenRange
  | rangeStarted range _ => range
  | rangeFinished finished _ => finished.outcome.range

def started? : ObserverCall → Option TokenRange
  | rangeStarted range _ => some range
  | rangeFinished .. => none

def finished? : ObserverCall → Option FinishedRange
  | rangeStarted .. => none
  | rangeFinished finished _ => some finished

/-- What the call tells. -/
def notice : ObserverCall → Notice
  | rangeStarted range _ => .started range
  | rangeFinished finished _ => .finished finished.outcome

def now : ObserverCall → ℤ
  | rangeStarted _ now | rangeFinished _ now => now

@[simp] theorem range_rangeStarted (r : TokenRange) (t : ℤ) : (rangeStarted r t).range = r := rfl

@[simp] theorem range_rangeFinished (f : FinishedRange) (t : ℤ) :
    (rangeFinished f t).range = f.outcome.range := rfl

@[simp] theorem started?_rangeStarted (r : TokenRange) (t : ℤ) :
    (rangeStarted r t).started? = some r := rfl

@[simp] theorem started?_rangeFinished (f : FinishedRange) (t : ℤ) :
    (rangeFinished f t).started? = none := rfl

@[simp] theorem finished?_rangeStarted (r : TokenRange) (t : ℤ) :
    (rangeStarted r t).finished? = none := rfl

@[simp] theorem finished?_rangeFinished (f : FinishedRange) (t : ℤ) :
    (rangeFinished f t).finished? = some f := rfl

/-- The calls an observer may have had about a range, in order. -/
inductive Protocol (range : TokenRange) : List ObserverCall → Prop
  | none : Protocol range []
  | started (t : ℤ) : Protocol range [rangeStarted range t]
  | finished (t t' : ℤ) (f : FinishedRange) (hf : f.outcome.range = range) :
      Protocol range [rangeStarted range t, rangeFinished f t']

end ObserverCall

/-- An observer with states `σ` and steps `α` of its own. -/
structure RangeObserver (σ α : Type*) where
  onRangeStarted : σ → TokenRange → ℤ → Option σ
  onRangeFinished : σ → RangeOutcome → ℤ → Option σ
  /-- A call about the range has not returned. -/
  busy : σ → TokenRange → Bool
  /-- What it does by itself; it may look at the run. -/
  step : SchedulerRun → σ → α → Option σ

/-- A call of either kind. -/
def RangeObserver.tell {σ α : Type*} (O : RangeObserver σ α) (s : σ) (now : ℤ) : Notice → Option σ
  | .started range => O.onRangeStarted s range now
  | .finished outcome => O.onRangeFinished s outcome now

/-- The observer used when nobody is watching. -/
def RangeObserver.noop : RangeObserver Unit Empty where
  onRangeStarted _ _ _ := some ()
  onRangeFinished _ _ _ := some ()
  busy _ _ := false
  step _ _ act := act.elim

namespace SchedulerRun

/-- When the workers have left, only the control changes. -/
theorem Joined.step {settings : SchedulerSettings} {s s' : SchedulerRun} {act : Act}
    (hj : s.Joined) (h : s.step settings act = some s') :
    s'.workers = s.workers ∧ s'.outcomes = s.outcomes ∧ s'.queue = s.queue := by
  have hdone {w : ℕ} {state : WorkerState} (hw : s.workers[w]? = some state) : state = .done :=
    eq_done_of_isDone (hj state (mem_of_getElem? hw))
  rcases act with request | call | w | ⟨w, result, units⟩
  · simp only [SchedulerRun.step] at h
    split_ifs at h
    cases h
    exact ⟨rfl, rfl, rfl⟩
  · simp only [SchedulerRun.step] at h
    split at h
    · cases h
      exact ⟨rfl, rfl, rfl⟩
    · simp at h
  · obtain ⟨state, hw, hstep⟩ := bind_eq_some_iff.1 h
    rw [hdone hw] at hstep
    simp [workStep] at hstep
  · simp only [SchedulerRun.step] at h
    split at h
    · next range hw => cases hdone hw
    · simp at h

end SchedulerRun

/-- The ranges that workers have taken are of the plan, each once. -/
theorem SchedulerRun.Conserved.nodup_accounted {settings : SchedulerSettings} {job : JobKind}
    {plan : TokenPlan} {s : SchedulerRun} (hc : s.Conserved settings job plan)
    (hplan : plan.tokenRanges.Nodup) : s.accounted.Nodup := by
  rw [← hc.ranges] at hplan
  exact hc.claims.nodup_iff.2 (hplan.sublist (take_sublist ..))

/-- A run with its observer. -/
structure ObservedRun (σ : Type*) where
  run : SchedulerRun
  /-- Which workers have told the observer of the stage they are in. -/
  told : List Bool
  observer : σ
  /-- A ghost: the calls that have been made, in order. -/
  calls : List ObserverCall

namespace ObservedRun

variable {σ α : Type*}

/-- The steps of an observed run. -/
inductive Act (α : Type*)
  | run (act : SchedulerRun.Act)
  | onRangeStarted (worker : ℕ) (now : ℤ)
  | onRangeFinished (worker : ℕ) (now : ℤ)
  | own (act : α)

/-- The step of the scheduler, if it is one. -/
def Act.run? : Act α → Option SchedulerRun.Act
  | run act => some act
  | _ => none

/-- The worker that would leave a stage it has to tell the observer of, and its range. -/
def leaves (s : SchedulerRun) : SchedulerRun.Act → Option (ℕ × TokenRange)
  | .work w | .finish w _ _ =>
    match s.workers[w]? with
    | some (.processing range) => some (w, range)
    | some (.reporting finished) => some (w, finished.outcome.range)
    | _ => none
  | .request _ | .advance _ => none

variable (settings : SchedulerSettings) (O : RangeObserver σ α)

/-- A run that is about to start its workers. -/
def init (job : JobKind) (plan : TokenPlan) (h : plan.ranges.length ≤ isizeMax) (observer : σ) :
    ObservedRun σ where
  run := .init settings job plan h
  told := List.replicate settings.workerCount false
  observer := observer
  calls := []

/-- One step. -/
def step (s : ObservedRun σ) : Act α → Option (ObservedRun σ)
  | .run act =>
    match leaves s.run act with
    | none => (s.run.step settings act).map fun run => { s with run }
    | some (w, range) =>
      if s.told[w]? = some true ∧ O.busy s.observer range = false then
        (s.run.step settings act).map fun run => { s with run, told := s.told.set w false }
      else none
  | .onRangeStarted w now =>
    match s.run.workers[w]?, s.told[w]? with
    | some (.processing range), some false =>
      (O.onRangeStarted s.observer range now).map fun observer =>
        { s with
          observer
          told := s.told.set w true
          calls := s.calls ++ [ObserverCall.rangeStarted range now] }
    | _, _ => none
  | .onRangeFinished w now =>
    match s.run.workers[w]?, s.told[w]? with
    | some (.reporting finished), some false =>
      (O.onRangeFinished s.observer finished.outcome now).map fun observer =>
        { s with
          observer
          told := s.told.set w true
          calls := s.calls ++ [ObserverCall.rangeFinished finished now] }
    | _, _ => none
  | .own act => (O.step s.run s.observer act).map fun observer => { s with observer }

/-- The observed runs. -/
def lts : LTS (ObservedRun σ) (Act α) := ⟨step settings O⟩

/-! ### Where the workers are -/

/-- Whether a worker has to tell the observer of the stage it is in. -/
def tells : WorkerState → Bool
  | .processing _ | .reporting _ => true
  | _ => false

/-- The range a worker holds that the observer knows of. -/
def begun : WorkerState × Bool → List TokenRange
  | (.processing range, true) => [range]
  | (.closing _ finished, _) | (.reporting finished, _) => [finished.outcome.range]
  | _ => []

/-- The end of a range that the observer has been told and that is not recorded. -/
def ended : WorkerState × Bool → List FinishedRange
  | (.reporting finished, true) => [finished]
  | _ => []

/-- The workers, each with whether it has told the observer of its stage. -/
def stations (s : ObservedRun σ) : List (WorkerState × Bool) := s.run.workers.zip s.told

/-- What the observer has been told. -/
structure Told (s : ObservedRun σ) : Prop where
  length : s.told.length = s.run.workers.length
  quiet : ∀ station ∈ s.stations, station.2 = true → tells station.1 = true
  started : (s.calls.filterMap ObserverCall.started?).Perm
    (s.run.outcomes.map (fun f => f.outcome.range) ++ s.stations.flatMap begun)
  finished : (s.calls.filterMap ObserverCall.finished?).Perm
    (s.run.outcomes ++ s.stations.flatMap ended)
  /-- No end is told before its start. -/
  ordered : ∀ i f now, s.calls[i]? = some (.rangeFinished f now) →
    f.outcome.range ∈ (s.calls.take i).filterMap ObserverCall.started?

theorem zip_set {β γ : Type*} (as : List β) (bs : List γ) (i : ℕ) (a : β) (b : γ) :
    (as.set i a).zip (bs.set i b) = (as.zip bs).set i (a, b) := by
  induction as generalizing bs i with
  | nil => simp
  | cons x as ih =>
    rcases bs with - | ⟨y, bs⟩
    · simp
    · rcases i with - | i
      · simp
      · simp [ih]

variable {settings} {O} {s s' : ObservedRun σ}

theorem getElem?_stations {w : ℕ} {state : WorkerState} {flag : Bool}
    (hw : s.run.workers[w]? = some state) (ht : s.told[w]? = some flag) :
    s.stations[w]? = some (state, flag) := by
  simp [stations, getElem?_zip_eq_some, hw, ht]

theorem stations_set {w : ℕ} {state : WorkerState} {flag : Bool}
    (hw : s'.run.workers = s.run.workers.set w state) (ht : s'.told = s.told.set w flag) :
    s'.stations = s.stations.set w (state, flag) := by
  rw [stations, hw, ht, zip_set]
  rfl

theorem set_of_getElem? {β : Type*} {l : List β} {i : ℕ} {a : β} (h : l[i]? = some a) :
    l.set i a = l := by
  obtain ⟨hlt, rfl⟩ := List.getElem?_eq_some_iff.1 h
  exact set_getElem_self hlt

/-- A worker in a stage that the observer is not told of has its flag down. -/
theorem Told.flag_eq_false (hi : Told s) {w : ℕ} {state : WorkerState}
    (hw : s.run.workers[w]? = some state) (hquiet : tells state = false) :
    s.told[w]? = some false := by
  obtain ⟨hlt, -⟩ := List.getElem?_eq_some_iff.1 hw
  obtain ⟨flag, hflag⟩ : ∃ flag, s.told[w]? = some flag :=
    ⟨_, getElem?_eq_getElem (hi.length ▸ hlt)⟩
  rw [hflag]
  by_contra hne
  have htrue : flag = true := by simpa using hne
  have := hi.quiet _ (mem_of_getElem? (getElem?_stations hw hflag)) htrue
  simp [hquiet] at this

/-! ### What a step of the scheduler does -/

theorem begun_afterClaim (claimed : Option TokenRange) : begun (.afterClaim claimed, false) = [] := by
  cases claimed <;> rfl

/-- When no worker leaves a stage that the observer is told of: no worker moves, or one moves on with
the range it holds. -/
theorem step_of_leaves_none {run run' : SchedulerRun} {act : SchedulerRun.Act}
    (h : run.step settings act = some run') (hl : leaves run act = none) :
    run'.outcomes = run.outcomes ∧ (run'.workers = run.workers ∨
      ∃ w a b, run.workers[w]? = some a ∧ run'.workers = run.workers.set w b ∧
        tells a = false ∧ begun (b, false) = begun (a, false)) := by
  rcases act with request | call | w | ⟨w, result, units⟩
  · simp only [SchedulerRun.step] at h
    split_ifs at h
    cases h
    exact ⟨rfl, .inl rfl⟩
  · simp only [SchedulerRun.step] at h
    split at h
    · cases h
      exact ⟨rfl, .inl rfl⟩
    · simp at h
  · obtain ⟨state, hw, hstep⟩ := bind_eq_some_iff.1 h
    simp only [leaves, hw] at hl
    rcases state with - | - | - | range | ⟨ops, f⟩ | f | - | - | ops | -
    · simp only [SchedulerRun.workStep] at hstep
      split_ifs at hstep
      cases hstep
      exact ⟨rfl, .inr ⟨w, _, _, hw, rfl, rfl, rfl⟩⟩
    · cases hstep
      refine ⟨rfl, .inr ⟨w, _, _, hw, rfl, rfl, ?_⟩⟩
      split_ifs <;> rfl
    · cases hstep
      exact ⟨rfl, .inr ⟨w, _, _, hw, rfl, rfl, begun_afterClaim _⟩⟩
    · simp at hl
    · rcases ops with - | ⟨op, ops⟩
      · cases hstep
        exact ⟨rfl, .inr ⟨w, _, _, hw, rfl, rfl, rfl⟩⟩
      · cases hstep
        exact ⟨rfl, .inr ⟨w, _, _, hw, rfl, rfl, rfl⟩⟩
    · simp at hl
    · cases hstep
      refine ⟨rfl, .inr ⟨w, _, _, hw, rfl, rfl, ?_⟩⟩
      split_ifs <;> rfl
    · cases hstep
      exact ⟨rfl, .inr ⟨w, _, _, hw, rfl, rfl, rfl⟩⟩
    · rcases ops with - | ⟨op, ops⟩
      · cases hstep
        exact ⟨rfl, .inr ⟨w, _, _, hw, rfl, rfl, rfl⟩⟩
      · cases hstep
        exact ⟨rfl, .inr ⟨w, _, _, hw, rfl, rfl, rfl⟩⟩
    · cases hstep
  · simp only [SchedulerRun.step] at h
    split at h
    · next range hw => simp [leaves, hw] at hl
    · simp at h

/-- When one does: it ends its range, or records it. -/
theorem step_of_leaves {run run' : SchedulerRun} {act : SchedulerRun.Act} {w : ℕ}
    {range : TokenRange} (h : run.step settings act = some run')
    (hl : leaves run act = some (w, range)) :
    (∃ ops f, run.workers[w]? = some (.processing range) ∧ f.outcome.range = range ∧
      run'.workers = run.workers.set w (.closing ops f) ∧ run'.outcomes = run.outcomes) ∨
    ∃ f, run.workers[w]? = some (.reporting f) ∧ f.outcome.range = range ∧
      run'.workers = run.workers.set w .limiting ∧ run'.outcomes = run.outcomes ++ [f] := by
  have hplace : ∀ v, leaves run (.work v) = some (w, range) → v = w ∧
      (run.workers[w]? = some (.processing range) ∨
        ∃ f, run.workers[w]? = some (.reporting f) ∧ f.outcome.range = range) := by
    intro v hv
    simp only [leaves] at hv
    split at hv
    · next hw =>
      cases hv
      exact ⟨rfl, .inl hw⟩
    · next f hw =>
      cases hv
      exact ⟨rfl, .inr ⟨f, hw, rfl⟩⟩
    · simp at hv
  rcases act with request | call | v | ⟨v, result, units⟩
  · simp [leaves] at hl
  · simp [leaves] at hl
  · obtain ⟨rfl, hw | ⟨f, hw, hf⟩⟩ := hplace v hl
    · simp [SchedulerRun.step, hw, SchedulerRun.workStep] at h
    · simp only [SchedulerRun.step, hw, bind_some, SchedulerRun.workStep] at h
      cases h
      exact .inr ⟨f, hw, hf, rfl, rfl⟩
  · obtain ⟨rfl, hw | ⟨f, hw, hf⟩⟩ := hplace v hl
    · simp only [SchedulerRun.step, hw] at h
      split_ifs at h
      cases h
      exact .inl ⟨_, _, hw, (SchedulerRun.processRange_spec ..).1, rfl, rfl⟩
    · simp [SchedulerRun.step, hw] at h

/-! ### What the observer has been told -/

/-- The flag of a worker that moves is set, and it holds the same range. -/
theorem Told.quiet_set (hi : Told s) {w : ℕ} {state : WorkerState} {flag : Bool}
    (h : flag = true → tells state = true) :
    ∀ station ∈ s.stations.set w (state, flag), station.2 = true → tells station.1 = true := by
  intro station hstation
  rcases mem_or_eq_of_mem_set hstation with hmem | rfl
  · exact hi.quiet station hmem
  · exact h

/-- One element of a list has changed: what is told now, and what is recorded and held, still agree
if what it held with what is newly told is what is newly recorded with what it holds. -/
theorem perm_told {β γ : Type*} {stations : List β} {i : ℕ} {a b : β} (hs : stations[i]? = some a)
    {f : β → List γ} {told recorded newTold newRecorded : List γ}
    (h : told.Perm (recorded ++ stations.flatMap f)) (heq : f a ++ newTold = newRecorded ++ f b) :
    (told ++ newTold).Perm (recorded ++ newRecorded ++ (stations.set i b).flatMap f) := by
  have hset := perm_flatMap_set hs b f
  refine (h.append_right newTold).trans ?_
  rw [append_assoc, append_assoc]
  refine .append_left recorded ((perm_append_right_iff (f b)).1 ?_)
  calc (stations.flatMap f ++ newTold ++ f b).Perm (stations.flatMap f ++ f b ++ newTold) := by
        rw [append_assoc, append_assoc]
        exact perm_append_comm.append_left _
    _ ~ (stations.set i b).flatMap f ++ f a ++ newTold := hset.symm.append_right newTold
    _ = (stations.set i b).flatMap f ++ newRecorded ++ f b := by rw [append_assoc, heq, append_assoc]
    _ ~ newRecorded ++ (stations.set i b).flatMap f ++ f b := perm_append_comm.append_right _

/-- A call at the end of the list keeps the order of those before it. -/
theorem ordered_append {calls : List ObserverCall} {call : ObserverCall}
    (h : ∀ i f now, calls[i]? = some (.rangeFinished f now) →
      f.outcome.range ∈ (calls.take i).filterMap ObserverCall.started?)
    (hcall : ∀ f now, call = .rangeFinished f now →
      f.outcome.range ∈ calls.filterMap ObserverCall.started?) :
    ∀ i f now, (calls ++ [call])[i]? = some (.rangeFinished f now) →
      f.outcome.range ∈ ((calls ++ [call]).take i).filterMap ObserverCall.started? := by
  intro i f now hi
  by_cases hlt : i < calls.length
  · rw [getElem?_append_left hlt] at hi
    rw [take_append_of_le_length hlt.le]
    exact h i f now hi
  · rw [getElem?_append_right (by omega), getElem?_singleton] at hi
    split_ifs at hi with hzero
    have hlen : i = calls.length := by omega
    rw [hlen, take_left]
    exact hcall f now (Option.some.inj hi)

/-- A worker moves, tells the observer or records its range. -/
theorem Told.move (hi : Told s) {w : ℕ} {a b : WorkerState} {flag flag' : Bool}
    (hw : s.run.workers[w]? = some a) (ht : s.told[w]? = some flag)
    (hworkers : s'.run.workers = s.run.workers.set w b) (htold : s'.told = s.told.set w flag')
    (hquiet : flag' = true → tells b = true) {recorded : List FinishedRange}
    (houtcomes : s'.run.outcomes = s.run.outcomes ++ recorded) {calls : List ObserverCall}
    (hcalls : s'.calls = s.calls ++ calls)
    (hbegun : begun (a, flag) ++ calls.filterMap ObserverCall.started? =
      recorded.map (fun f => f.outcome.range) ++ begun (b, flag'))
    (hended : ended (a, flag) ++ calls.filterMap ObserverCall.finished? =
      recorded ++ ended (b, flag'))
    (hordered : ∀ i f now, (s.calls ++ calls)[i]? = some (.rangeFinished f now) →
      f.outcome.range ∈ ((s.calls ++ calls).take i).filterMap ObserverCall.started?) : Told s' := by
  have hs := getElem?_stations hw ht
  have hstations := stations_set hworkers htold
  refine ⟨by simp [hworkers, htold, hi.length], ?_, ?_, ?_, ?_⟩
  · rw [hstations]
    exact hi.quiet_set hquiet
  · rw [hcalls, houtcomes, hstations, filterMap_append, map_append]
    exact perm_told hs hi.started hbegun
  · rw [hcalls, houtcomes, hstations, filterMap_append]
    exact perm_told hs hi.finished hended
  · rw [hcalls]
    exact hordered

/-- A worker that moves on within the knowledge of the observer. -/
theorem Told.silent (hi : Told s) {w : ℕ} {a b : WorkerState} {flag : Bool}
    (hw : s.run.workers[w]? = some a) (ht : s.told[w]? = some flag)
    (hworkers : s'.run.workers = s.run.workers.set w b) (htold : s'.told = s.told.set w false)
    (houtcomes : s'.run.outcomes = s.run.outcomes) (hcalls : s'.calls = s.calls)
    (hbegun : begun (b, false) = begun (a, flag)) (hended : ended (a, flag) = []) : Told s' := by
  have hnone : ended (b, false) = [] := by cases b <;> rfl
  refine hi.move hw ht hworkers htold (fun h => by cases h) (houtcomes.trans (append_nil _).symm)
    (hcalls.trans (append_nil _).symm) ?_ ?_ ?_
  · rw [hbegun]
    exact append_nil _
  · rw [hended, hnone]
    rfl
  · simpa using hi.ordered

theorem step_told (hi : Told s) {act : Act α} (h : step settings O s act = some s') : Told s' := by
  rcases act with act | ⟨w, now⟩ | ⟨w, now⟩ | act
  · simp only [step] at h
    split at h
    · next hl =>
      obtain ⟨run, hrun, rfl⟩ := map_eq_some_iff.1 h
      obtain ⟨houtcomes, hworkers | ⟨w, a, b, hw, hworkers, hquiet, hbegun⟩⟩ :=
        step_of_leaves_none hrun hl
      · refine ⟨by simp [hworkers, hi.length], ?_, ?_, ?_, hi.ordered⟩
        · simpa [stations, hworkers] using hi.quiet
        · simpa [stations, hworkers, houtcomes] using hi.started
        · simpa [stations, hworkers, houtcomes] using hi.finished
      · have ht := hi.flag_eq_false hw hquiet
        have hended : ended (a, false) = [] := by cases a <;> rfl
        exact hi.silent hw ht hworkers (set_of_getElem? ht).symm houtcomes rfl hbegun hended
    · next w range hl =>
      split_ifs at h with hguard
      obtain ⟨run, hrun, rfl⟩ := map_eq_some_iff.1 h
      obtain ⟨ops, f, hw, hf, hworkers, houtcomes⟩ | ⟨f, hw, -, hworkers, houtcomes⟩ :=
        step_of_leaves hrun hl
      · exact hi.silent hw hguard.1 hworkers rfl houtcomes rfl (by simp [begun, hf]) rfl
      · -- the range whose end was told is recorded
        exact hi.move hw hguard.1 hworkers rfl (fun h => by cases h) houtcomes (append_nil _).symm rfl
          rfl (by simpa using hi.ordered)
  · simp only [step] at h
    split at h
    · next range hw ht =>
      obtain ⟨observer, -, rfl⟩ := map_eq_some_iff.1 h
      exact hi.move hw ht (set_of_getElem? hw).symm rfl (fun _ => rfl) (append_nil _).symm rfl rfl rfl
        (ordered_append hi.ordered (by simp))
    · simp at h
  · simp only [step] at h
    split at h
    · next f hw ht =>
      obtain ⟨observer, -, rfl⟩ := map_eq_some_iff.1 h
      refine hi.move hw ht (set_of_getElem? hw).symm rfl (fun _ => rfl) (append_nil _).symm rfl rfl rfl
        (ordered_append hi.ordered ?_)
      rintro g t ⟨⟩
      refine hi.started.mem_iff.2 (mem_append_right _ (mem_flatMap.2 ?_))
      exact ⟨_, mem_of_getElem? (getElem?_stations hw ht), mem_singleton.2 rfl⟩
    · simp at h
  · obtain ⟨observer, -, rfl⟩ := map_eq_some_iff.1 h
    exact ⟨hi.length, hi.quiet, hi.started, hi.finished, hi.ordered⟩

/-- A step of the scheduler moves a worker that has nothing to tell, or one that then has to tell
again. -/
theorem Told.scheduler_cases (hi : Told s) {act : SchedulerRun.Act}
    (h : step settings O s (.run act) = some s') :
    s.run.step settings act = some s'.run ∧ s'.observer = s.observer ∧ s'.calls = s.calls ∧
      ((leaves s.run act = none ∧ s'.told = s.told ∧ ∀ v : ℕ, s.told[v]? = some true →
          s'.run.workers[v]? = s.run.workers[v]?) ∨
        ∃ (w : ℕ) (range : TokenRange) (state : WorkerState), leaves s.run act = some (w, range) ∧ s.run.workers[w]? = some state ∧
          state.held = [range] ∧ s.told[w]? = some true ∧ O.busy s.observer range = false ∧
          s'.told = s.told.set w false ∧
          ∀ v : ℕ, v ≠ w → s'.run.workers[v]? = s.run.workers[v]?) := by
  simp only [step] at h
  split at h
  · next hl =>
    obtain ⟨run, hrun, rfl⟩ := map_eq_some_iff.1 h
    refine ⟨hrun, rfl, rfl, .inl ⟨hl, rfl, fun v hflag => ?_⟩⟩
    obtain ⟨-, hworkers | ⟨w, a, b, hw, hworkers, hquiet, -⟩⟩ := step_of_leaves_none hrun hl
    · rw [hworkers]
    · -- the worker that moves has told nothing
      have hne : w ≠ v := by
        rintro rfl
        have := hi.flag_eq_false hw hquiet
        simp [this] at hflag
      rw [hworkers, getElem?_set_ne hne]
  · next w range hl =>
    split_ifs at h with hguard
    obtain ⟨run, hrun, rfl⟩ := map_eq_some_iff.1 h
    obtain ⟨state, b, hw, hheld, hworkers⟩ : ∃ (state b : WorkerState),
        s.run.workers[w]? = some state ∧ state.held = [range] ∧
          run.workers = s.run.workers.set w b := by
      obtain ⟨ops, f, hw, -, hworkers, -⟩ | ⟨f, hw, hf, hworkers, -⟩ := step_of_leaves hrun hl
      · exact ⟨_, _, hw, rfl, hworkers⟩
      · exact ⟨_, _, hw, by simp [held, hf], hworkers⟩
    refine ⟨hrun, rfl, rfl, .inr ⟨w, range, state, hl, hw, hheld, hguard.1, hguard.2, rfl,
      fun v hne => ?_⟩⟩
    rw [hworkers, getElem?_set_ne hne.symm]

/-- A worker whose call has not returned stays where it is. -/
theorem Told.held_up (hi : Told s) {act : SchedulerRun.Act}
    (h : step settings O s (.run act) = some s') {v : ℕ} {state : WorkerState}
    (hv : s.run.workers[v]? = some state) (hflag : s.told[v]? = some true) {range : TokenRange}
    (hheld : range ∈ state.held) (hbusy : O.busy s.observer range = true) :
    s'.run.workers[v]? = some state ∧ s'.told[v]? = some true := by
  obtain ⟨-, -, -, ⟨-, htold, hworkers⟩ |
    ⟨w, other, state', -, hw, hheld', -, hidle, htold, hworkers⟩⟩ := hi.scheduler_cases h
  · exact ⟨(hworkers v hflag).trans hv, htold ▸ hflag⟩
  · -- the worker that leaves has no call under way
    have hne : v ≠ w := by
      rintro rfl
      obtain rfl : state' = state := Option.some.inj (hw.symm.trans hv)
      rw [hheld', mem_singleton] at hheld
      simp [← hheld, hbusy] at hidle
    exact ⟨(hworkers v hne).trans hv, by rwa [htold, getElem?_set_ne hne.symm]⟩

/-- The range is held by a worker that has told the observer of its stage. -/
def Holds (s : ObservedRun σ) (range : TokenRange) : Prop :=
  ∃ (w : ℕ) (state : WorkerState), s.run.workers[w]? = some state ∧ s.told[w]? = some true ∧
    range ∈ state.held

/-- As long as a call about it has not returned, a range stays held. -/
theorem Told.holds_step (hi : Told s) {act : Act α} (h : step settings O s act = some s')
    {range : TokenRange} (hheld : s.Holds range) (hbusy : O.busy s.observer range = true) :
    s'.Holds range := by
  obtain ⟨v, state, hv, hflag, hrange⟩ := hheld
  have hset (w : ℕ) : (s.told.set w true)[v]? = some true := by
    by_cases hw : w = v
    · obtain ⟨hlt, -⟩ := List.getElem?_eq_some_iff.1 hflag
      rw [hw, getElem?_set_self hlt]
    · rw [getElem?_set_ne hw, hflag]
  rcases act with act | ⟨w, now⟩ | ⟨w, now⟩ | act
  · obtain ⟨hv', hflag'⟩ := hi.held_up h hv hflag hrange hbusy
    exact ⟨v, state, hv', hflag', hrange⟩
  · simp only [step] at h
    split at h
    · obtain ⟨observer, -, rfl⟩ := map_eq_some_iff.1 h
      exact ⟨v, state, hv, hset w, hrange⟩
    · simp at h
  · simp only [step] at h
    split at h
    · obtain ⟨observer, -, rfl⟩ := map_eq_some_iff.1 h
      exact ⟨v, state, hv, hset w, hrange⟩
    · simp at h
  · obtain ⟨observer, -, rfl⟩ := map_eq_some_iff.1 h
    exact ⟨v, state, hv, hflag, hrange⟩

/-- A worker that has left holds nothing. -/
theorem Told.not_holds_of_joined (hi : Told s) (hj : s.run.Joined) (range : TokenRange) :
    ¬ s.Holds range := by
  rintro ⟨w, state, hw, hflag, -⟩
  have htells := hi.quiet _ (mem_of_getElem? (getElem?_stations hw hflag)) rfl
  rw [eq_done_of_isDone (hj state (mem_of_getElem? hw))] at htells
  simp [tells] at htells

/-- The call that a worker makes in its stage. -/
inductive Tells : WorkerState → ObserverCall → Prop
  | started (range : TokenRange) (now : ℤ) : Tells (.processing range) (.rangeStarted range now)
  | finished (finished : FinishedRange) (now : ℤ) :
      Tells (.reporting finished) (.rangeFinished finished now)

theorem Tells.held {state : WorkerState} {call : ObserverCall} (h : Tells state call) :
    state.held = [call.range] := by
  cases h <;> rfl

/-- What a step does to the observer: the scheduler leaves it alone, a worker calls it, or it moves by
itself. -/
inductive ObserverStep (O : RangeObserver σ α) (s s' : ObservedRun σ) : Act α → Prop
  | left (act : SchedulerRun.Act) (hobserver : s'.observer = s.observer)
      (hcalls : s'.calls = s.calls) : ObserverStep O s s' (.run act)
  | told (act : Act α) (w : ℕ) (state : WorkerState) (call : ObserverCall) (hact : act.run? = none)
      (hw : s.run.workers[w]? = some state) (hflag : s.told[w]? = some false)
      (htells : Tells state call)
      (hobserver : O.tell s.observer call.now call.notice = some s'.observer)
      (hrun : s'.run = s.run) (htold : s'.told = s.told.set w true)
      (hcalls : s'.calls = s.calls ++ [call]) : ObserverStep O s s' act
  | own (act : α) (hobserver : O.step s.run s.observer act = some s'.observer)
      (hrun : s'.run = s.run) (htold : s'.told = s.told) (hcalls : s'.calls = s.calls) :
      ObserverStep O s s' (.own act)

theorem observerStep_step {act : Act α} (h : step settings O s act = some s') :
    ObserverStep O s s' act := by
  rcases act with act | ⟨w, now⟩ | ⟨w, now⟩ | act
  · simp only [step] at h
    split at h
    · obtain ⟨run, -, rfl⟩ := map_eq_some_iff.1 h
      exact .left act rfl rfl
    · split_ifs at h
      obtain ⟨run, -, rfl⟩ := map_eq_some_iff.1 h
      exact .left act rfl rfl
  · simp only [step] at h
    split at h
    · next range hw ht =>
      obtain ⟨observer, hobserver, rfl⟩ := map_eq_some_iff.1 h
      exact .told _ w _ _ rfl hw ht (.started range now) hobserver rfl rfl rfl
    · simp at h
  · simp only [step] at h
    split at h
    · next f hw ht =>
      obtain ⟨observer, hobserver, rfl⟩ := map_eq_some_iff.1 h
      exact .told _ w _ _ rfl hw ht (.finished f now) hobserver rfl rfl rfl
    · simp at h
  · obtain ⟨observer, hobserver, rfl⟩ := map_eq_some_iff.1 h
    exact .own act hobserver rfl rfl rfl

/-- The worker that has made a call is in the stage it told of. -/
theorem holds_of_told {w : ℕ} {state : WorkerState} {call : ObserverCall}
    (hw : s.run.workers[w]? = some state) (hflag : s.told[w]? = some false)
    (htells : Tells state call) (hrun : s'.run = s.run) (htold : s'.told = s.told.set w true) :
    s'.Holds call.range := by
  refine ⟨w, state, hrun ▸ hw, ?_, by simp [htells.held]⟩
  rw [htold, getElem?_set_self (List.getElem?_eq_some_iff.1 hflag).1]

/-! ### The calls about one range -/

theorem init_told {job : JobKind} {plan : TokenPlan} (hlen : plan.ranges.length ≤ isizeMax)
    (observer : σ) : Told (init settings job plan hlen observer) := by
  have hstation : ∀ station ∈ (init settings job plan hlen observer).stations,
      station = (.waiting, false) := by
    intro station hstation
    obtain ⟨hstate, hflag⟩ := of_mem_zip (a := station.1) (b := station.2) hstation
    exact Prod.ext (eq_of_mem_replicate hstate) (eq_of_mem_replicate hflag)
  have hnone {β : Type} (f : WorkerState × Bool → List β) (hf : f (.waiting, false) = []) :
      (init settings job plan hlen observer).stations.flatMap f = [] :=
    flatMap_eq_nil_iff.2 fun station h => by rw [hstation station h, hf]
  refine ⟨by simp [init, SchedulerRun.init], ?_, ?_, ?_, ?_⟩
  · intro station h hflag
    simp [hstation station h] at hflag
  · rw [hnone begun rfl]
    rfl
  · rw [hnone ended rfl]
    rfl
  · simp [init]

/-- A step of an observed run is a step of the scheduler, or leaves it alone. -/
theorem run_step {act : Act α} (h : step settings O s act = some s') :
    s'.run = s.run ∨ ∃ a, act = .run a ∧ s.run.step settings a = some s'.run := by
  rcases act with act | ⟨w, now⟩ | ⟨w, now⟩ | act
  · simp only [step] at h
    split at h
    · obtain ⟨run, hrun, rfl⟩ := map_eq_some_iff.1 h
      exact .inr ⟨act, rfl, hrun⟩
    · split_ifs at h
      obtain ⟨run, hrun, rfl⟩ := map_eq_some_iff.1 h
      exact .inr ⟨act, rfl, hrun⟩
  · simp only [step] at h
    split at h
    · obtain ⟨observer, -, rfl⟩ := map_eq_some_iff.1 h
      exact .inl rfl
    · simp at h
  · simp only [step] at h
    split at h
    · obtain ⟨observer, -, rfl⟩ := map_eq_some_iff.1 h
      exact .inl rfl
    · simp at h
  · obtain ⟨observer, -, rfl⟩ := map_eq_some_iff.1 h
    exact .inl rfl

theorem conserved_step {job : JobKind} {plan : TokenPlan} {act : Act α}
    (hi : s.run.Conserved settings job plan) (h : step settings O s act = some s') :
    s'.run.Conserved settings job plan := by
  rcases run_step h with hrun | ⟨a, -, hstep⟩
  · rwa [hrun]
  · exact SchedulerRun.step_conserved hi hstep

/-- When the workers have left, every recorded range was told. -/
theorem Told.flatMap_stations (hj : s.run.Joined) {β : Type*} (f : WorkerState × Bool → List β)
    (hf : ∀ flag, f (.done, flag) = []) : s.stations.flatMap f = [] := by
  refine flatMap_eq_nil_iff.2 fun ⟨state, flag⟩ h => ?_
  rw [eq_done_of_isDone (hj state (of_mem_zip h).1), hf]

theorem Told.started_of_joined (hi : Told s) (hj : s.run.Joined) :
    (s.calls.filterMap ObserverCall.started?).Perm
      (s.run.outcomes.map fun f => f.outcome.range) := by
  simpa [flatMap_stations hj begun fun _ => rfl] using hi.started

theorem Told.finished_of_joined (hi : Told s) (hj : s.run.Joined) :
    (s.calls.filterMap ObserverCall.finished?).Perm s.run.outcomes := by
  simpa [flatMap_stations hj ended fun _ => rfl] using hi.finished

/-- The calls about a range. -/
def callsAt (s : ObservedRun σ) (range : TokenRange) : List ObserverCall :=
  s.calls.filter fun call => call.range = range

/-- What the calls about a range tell, of which each tells about its own range. -/
theorem filterMap_callsAt {β : Type} {f : ObserverCall → Option β} {rangeOf : β → TokenRange}
    (hrange : ∀ call, ∀ b ∈ f call, rangeOf b = call.range) (s : ObservedRun σ) (range : TokenRange) :
    (s.callsAt range).filterMap f = (s.calls.filterMap f).filter (rangeOf · = range) := by
  rw [callsAt, filterMap_filter, filter_filterMap]
  refine filterMap_congr fun call _ => ?_
  cases hcall : f call with
  | none => simp
  | some b => simp [hrange call b hcall, Option.filter]

theorem started_callsAt (s : ObservedRun σ) (range : TokenRange) :
    (s.callsAt range).filterMap ObserverCall.started? =
      (s.calls.filterMap ObserverCall.started?).filter (· = range) :=
  filterMap_callsAt (by rintro ⟨r, now⟩ b ⟨⟩; rfl) s range

theorem finished_callsAt (s : ObservedRun σ) (range : TokenRange) :
    (s.callsAt range).filterMap ObserverCall.finished? =
      (s.calls.filterMap ObserverCall.finished?).filter fun f => f.outcome.range = range :=
  filterMap_callsAt (by rintro ⟨f, now⟩ b ⟨⟩; rfl) s range

/-- A list of calls with neither starts nor ends is empty. -/
theorem calls_eq_nil {calls : List ObserverCall} (hs : calls.filterMap ObserverCall.started? = [])
    (hf : calls.filterMap ObserverCall.finished? = []) : calls = [] := by
  rcases calls with - | ⟨⟨r, now⟩ | ⟨f, now⟩, calls⟩
  · rfl
  · simp at hs
  · simp at hf

/-- An end is not the first call about a range. -/
theorem Told.callsAt_ne_finished_cons (hi : Told s) (range : TokenRange) (f : FinishedRange) (t : ℤ)
    (rest : List ObserverCall) : s.callsAt range ≠ .rangeFinished f t :: rest := by
  intro h
  obtain ⟨before, after, hcalls, hbefore, hf, -⟩ := filter_eq_cons_iff.1 h
  have hat : s.calls[before.length]? = some (.rangeFinished f t) := by simp [hcalls]
  have hmem := hi.ordered _ _ _ hat
  rw [hcalls, take_left, mem_filterMap] at hmem
  obtain ⟨call, hcall, hstart⟩ := hmem
  have hf : f.outcome.range = range := of_decide_eq_true hf
  rcases call with ⟨r, now⟩ | ⟨g, now⟩
  · refine hbefore _ hcall (decide_eq_true ?_)
    rw [← hf]
    simpa using hstart
  · simp at hstart

theorem begun_sublist (station : WorkerState × Bool) : (begun station).Sublist station.1.held := by
  rcases station with ⟨- | - | - | range | ⟨ops, f⟩ | f | - | - | ops | -, - | -⟩ <;>
    simp [begun, held]

theorem ended_sublist (station : WorkerState × Bool) :
    ((ended station).map fun f => f.outcome.range).Sublist station.1.held := by
  rcases station with ⟨- | - | - | range | ⟨ops, f⟩ | f | - | - | ops | -, - | -⟩ <;>
    simp [ended, held]

theorem Told.stations_held (hi : Told s) :
    s.stations.flatMap (fun station => station.1.held) = s.run.workers.flatMap held := by
  conv_rhs => rw [← map_fst_zip hi.length.ge, flatMap_map]
  rfl

/-- The starts are of different ranges when the ranges that workers have taken are. -/
theorem Told.nodup_started (hi : Told s) (hnodup : s.run.accounted.Nodup) :
    (s.calls.filterMap ObserverCall.started?).Nodup := by
  have hsub := List.Sublist.flatMap_right s.stations fun station _ => begun_sublist station
  rw [hi.stations_held] at hsub
  exact hi.started.nodup_iff.2 ((hsub.append_left _).nodup hnodup)

/-- So are the ends. -/
theorem Told.nodup_finished (hi : Told s) (hnodup : s.run.accounted.Nodup) :
    ((s.calls.filterMap ObserverCall.finished?).map fun f => f.outcome.range).Nodup := by
  have hsub := List.Sublist.flatMap_right s.stations fun station _ => ended_sublist station
  rw [hi.stations_held, ← map_flatMap] at hsub
  refine (hi.finished.map _).nodup_iff.2 ?_
  rw [map_append]
  exact (hsub.append_left _).nodup hnodup

/-- At every moment, the calls about a range are in order. -/
theorem Told.protocol (hi : Told s) (hnodup : s.run.accounted.Nodup) (range : TokenRange) :
    ObserverCall.Protocol range (s.callsAt range) := by
  have hstarts : (s.callsAt range).filterMap ObserverCall.started? = [] ∨
      (s.callsAt range).filterMap ObserverCall.started? = [range] := by
    rw [started_callsAt]
    by_cases hmem : range ∈ s.calls.filterMap ObserverCall.started?
    · exact .inr (Keyed.filter_eq_singleton ((map_id _).symm ▸ hi.nodup_started hnodup) hmem)
    · exact .inl (filter_eq_nil_iff.2 fun r hr heq => hmem (of_decide_eq_true heq ▸ hr))
  have hfinishes : (s.callsAt range).filterMap ObserverCall.finished? = [] ∨
      ∃ f, f.outcome.range = range ∧ (s.callsAt range).filterMap ObserverCall.finished? = [f] := by
    rw [finished_callsAt]
    by_cases hmem : ∃ f ∈ s.calls.filterMap ObserverCall.finished?, f.outcome.range = range
    · obtain ⟨f, hf, rfl⟩ := hmem
      exact .inr ⟨f, rfl, Keyed.filter_eq_singleton (hi.nodup_finished hnodup) hf⟩
    · exact .inl (filter_eq_nil_iff.2 fun f hf heq => hmem ⟨f, hf, of_decide_eq_true heq⟩)
  rcases hcalls : s.callsAt range with - | ⟨⟨r, t⟩ | ⟨f, t⟩, rest⟩
  · exact .none
  · -- the start is the only one, so what is left is an end or nothing
    rw [hcalls] at hstarts hfinishes
    obtain ⟨rfl, hrest⟩ : r = range ∧ rest.filterMap ObserverCall.started? = [] := by
      simpa [filterMap_cons] using hstarts
    rcases hfinishes with hnone | ⟨f, hf, hone⟩
    · rw [calls_eq_nil hrest (by simpa using hnone)]
      exact .started t
    · rcases rest with - | ⟨⟨r', t'⟩ | ⟨g, t'⟩, rest⟩
      · simp [filterMap_cons] at hone
      · simp at hrest
      · obtain ⟨rfl, hrest'⟩ : g = f ∧ rest.filterMap ObserverCall.finished? = [] := by
          simpa [filterMap_cons] using hone
        rw [calls_eq_nil (by simpa using hrest) hrest']
        exact .finished t t' g hf
  · exact absurd hcalls (hi.callsAt_ne_finished_cons range f t rest)

/-- The calls about a range with an outcome are its start and its end. -/
theorem Told.callsAt_outcome (hi : Told s) (hnodup : s.run.accounted.Nodup) {f : FinishedRange}
    (hf : f ∈ s.run.outcomes) : ∃ t t',
      s.callsAt f.outcome.range = [.rangeStarted f.outcome.range t, .rangeFinished f t'] := by
  have hmem : f ∈ (s.callsAt f.outcome.range).filterMap ObserverCall.finished? := by
    rw [finished_callsAt, mem_filter]
    exact ⟨hi.finished.mem_iff.2 (mem_append_left _ hf), decide_eq_true rfl⟩
  have hprotocol := hi.protocol hnodup f.outcome.range
  generalize s.callsAt f.outcome.range = calls at hmem hprotocol ⊢
  rcases hprotocol with - | t | ⟨t, t', g, hg⟩
  · simp at hmem
  · simp at hmem
  · obtain rfl : g = f := by simpa [eq_comm] using hmem
    exact ⟨t, t', rfl⟩

/-- There is no call about a range that no worker has taken. -/
theorem Told.callsAt_unclaimed (hi : Told s) {range : TokenRange} (h : range ∉ s.run.accounted) :
    s.callsAt range = [] := by
  have hheld := hi.stations_held
  rw [SchedulerRun.accounted, ← hheld, mem_append, not_or] at h
  refine calls_eq_nil ?_ ?_
  · rw [started_callsAt, filter_eq_nil_iff]
    intro r hr heq
    obtain rfl : r = range := of_decide_eq_true heq
    rcases mem_append.1 (hi.started.mem_iff.1 hr) with hmem | hmem
    · exact h.1 hmem
    · obtain ⟨station, hstation, hbegun⟩ := mem_flatMap.1 hmem
      exact h.2 (mem_flatMap.2 ⟨station, hstation, (begun_sublist station).subset hbegun⟩)
  · rw [finished_callsAt, filter_eq_nil_iff]
    intro f hf heq
    obtain rfl : f.outcome.range = range := of_decide_eq_true heq
    rcases mem_append.1 (hi.finished.mem_iff.1 hf) with hmem | hmem
    · exact h.1 (mem_map_of_mem hmem)
    · obtain ⟨station, hstation, hended⟩ := mem_flatMap.1 hmem
      exact h.2 (mem_flatMap.2
        ⟨station, hstation, (ended_sublist station).subset (mem_map_of_mem hended)⟩)

/-- **The protocol of an observer.** For every observer, whatever it does and however long its calls
take, and every interleaving of the workers: at every moment the calls about a range are none, its
start, or its start and its end; they are its start and the end that was recorded once it has an
outcome, and none if no worker has claimed it. -/
theorem calls_in_order {plan : TokenPlan} (hnodup : plan.tokenRanges.Nodup) {job : JobKind}
    {hlen : plan.ranges.length ≤ isizeMax} {observer : σ} {acts : List (Act α)}
    (hrun : (lts settings O).exec (init settings job plan hlen observer) acts = some s)
    (range : TokenRange) :
    ObserverCall.Protocol range (s.callsAt range) ∧
      (∀ f ∈ s.run.outcomes, f.outcome.range = range → ∃ t t',
        s.callsAt range = [.rangeStarted range t, .rangeFinished f t']) ∧
      (range ∈ s.run.queue.unclaimed → s.callsAt range = []) := by
  obtain ⟨hc, hi⟩ : s.run.Conserved settings job plan ∧ s.Told :=
    LTS.exec_invariant (I := fun s => s.run.Conserved settings job plan ∧ s.Told) hrun
      ⟨SchedulerRun.init_conserved hlen, init_told hlen observer⟩
      fun _ _ _ hi h => ⟨conserved_step hi.1 h, step_told hi.2 h⟩
  have haccounted := hc.nodup_accounted hnodup
  have hplan : (s.run.queue.taken ++ s.run.queue.unclaimed).Nodup := by
    rwa [WorkQueue.taken_append_unclaimed, hc.ranges]
  refine ⟨hi.protocol haccounted range, ?_, fun hunclaimed => hi.callsAt_unclaimed fun hmem => ?_⟩
  · rintro f hf rfl
    exact hi.callsAt_outcome haccounted hf
  · exact (nodup_append.1 hplan).2.2 _ (hc.claims.mem_iff.1 hmem) _ hunclaimed rfl

theorem killedPlan_apart :
    Cover.Apart TokenRange.Mem SchedulerRun.killedPlan.tokenRanges := by
  have hbelow {r r' : TokenRange} (h : r.max < r'.min) : ∀ t, r.Mem t → ¬ r'.Mem t := by
    intro t ht ht'
    rw [TokenRange.mem_iff] at ht ht'
    omega
  refine pairwise_cons.2 ⟨fun r hr => hbelow ?_, pairwise_pair.2 (hbelow (by decide))⟩
  rcases mem_pair.1 hr with rfl | rfl <;> decide

/-- One worker and no error limit. -/
def soleSettings : SchedulerSettings := ⟨1, 0⟩

/-- One range has ended, another has begun, and nobody has claimed the third. -/
def noopActs : List (Act Empty) :=
  [.run (.work 0), .run (.work 0), .run (.work 1), .run (.work 1), .run (.work 1), .run (.work 0),
    .onRangeStarted 1 5, .run (.finish 1 (.verdict .pass) (SchedulerRun.readRows 3)),
    .onRangeStarted 0 6, .run (.work 1), .onRangeFinished 1 7, .run (.work 1)]

theorem calls_in_order_noop :
    ∃ s, (lts SchedulerRun.pairSettings .noop).exec
        (init SchedulerRun.pairSettings .migrate SchedulerRun.killedPlan (by decide) ()) noopActs =
          some s ∧ s.calls.length = 3 ∧
      ∀ range, ObserverCall.Protocol range (s.callsAt range) := by
  have hsome : ((lts SchedulerRun.pairSettings .noop).exec
      (init SchedulerRun.pairSettings .migrate SchedulerRun.killedPlan (by decide) ())
      noopActs).any (fun s => s.calls.length = 3) = true := by decide
  obtain ⟨s, hs, h⟩ := (Option.any_eq_true _ _).1 hsome
  exact ⟨s, hs, of_decide_eq_true h, fun range => (calls_in_order (by decide) hs range).1⟩

end ObservedRun

end Cdm
