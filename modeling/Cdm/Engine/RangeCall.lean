import Cdm.Engine.Accounting

/-!
# One range against a stop

`process_range` runs a job on one range and races it against a kill of the run.  The job looks at
the cancellation token at certain points of its loop; between any two of its steps another thread
may stop or kill the run.  The race is biased: a job that has ended is listened to, and only one
that has not is abandoned.

A job is given by its steps, here: how it takes the next item of the scan, where it looks at the
token, and what it does when it finds it cancelled.
-/

namespace Cdm

/-- A job with states `σ` and steps `α` that reads a scan of `ι`. -/
structure RangeJob (σ α ι : Type*) where
  init : σ
  /-- Takes the next item of the scan, or its end. -/
  read : σ → Option ι → Option σ
  /-- The other steps. -/
  step : σ → α → Option σ
  /-- Whether the job looks at the cancellation token before it goes on. -/
  polls : σ → Bool
  /-- What it does when the token is cancelled. -/
  cancel : σ → σ
  result : σ → Option RangeResult
  counters : σ → JobCounters

/-- A call of `process_range`. -/
structure RangeCall (σ ι : Type*) where
  control : RunControl
  /-- What is left of the scan. -/
  left : List ι
  /-- The job has looked at the token, and goes on. -/
  checked : Bool
  job : σ
  outcome : Option FinishedRange

namespace RangeCall

variable {σ α ι : Type*}

/-- The steps of a call. -/
inductive Act (α : Type*)
  /-- Another thread stops or kills the run: one operation of its call. -/
  | control (op : ControlOp)
  /-- The job looks at the token. -/
  | poll
  | read
  | work (act : α)
  /-- The job has ended, and the range is accounted for. -/
  | finish
  /-- The run has been killed, and the job has not ended. -/
  | abandon

/-- Whether the job goes on: the range has no outcome yet, and the token has been looked at where it
has to be. -/
def goesOn (P : RangeJob σ α ι) (s : RangeCall σ ι) : Bool :=
  s.outcome.isNone && (s.checked || !P.polls s.job)

section

variable (P : RangeJob σ α ι) (range : TokenRange)

/-- A call that is about to start, for a scan that yields `scan`. -/
def start (scan : List ι) : RangeCall σ ι := ⟨{}, scan, false, P.init, none⟩

/-- One step. -/
def step (s : RangeCall σ ι) : Act α → Option (RangeCall σ ι)
  | .control op => some { s with control := s.control.perform op }
  | .poll =>
    if s.outcome.isNone && P.polls s.job && !s.checked then
      if s.control.killed then some { s with job := P.cancel s.job }
      else some { s with checked := true }
    else none
  | .read =>
    if s.goesOn P then
      (P.read s.job s.left.head?).map fun job =>
        { s with job, left := s.left.tail, checked := false }
    else none
  | .work a =>
    if s.goesOn P then (P.step s.job a).map fun job => { s with job, checked := false } else none
  | .finish =>
    match s.outcome, P.result s.job with
    | none, some result =>
      some { s with outcome := some (processRange (P.counters s.job) range result) }
    | _, _ => none
  | .abandon =>
    if s.control.killed && s.outcome.isNone && (P.result s.job).isNone then
      some { s with outcome := some (processRange (P.counters s.job) range .killed) }
    else none

/-- The calls. -/
def lts : LTS (RangeCall σ ι) (Act α) := ⟨step P range⟩

end

/-- The status recorded for the range is neither `STARTED` nor `FAIL`. -/
def Succeeded (s : RangeCall σ ι) : Prop :=
  ∃ finished, s.outcome = some finished ∧ finished.outcome.status ≠ .started ∧
    finished.outcome.status ≠ .fail

variable {P : RangeJob σ α ι} {range : TokenRange} {s s' : RangeCall σ ι}

/-- Everything a step can do to the job and the scan. -/
theorem step_cases {a : Act α} (h : step P range s a = some s') :
    (s'.job = s.job ∧ s'.left = s.left ∧ (a = .poll → s.control.killed = false)) ∨
    (a = .poll ∧ P.polls s.job = true ∧ s.control.killed = true ∧ s'.job = P.cancel s.job ∧
      s'.left = s.left) ∨
    (a = .read ∧ P.read s.job s.left.head? = some s'.job ∧ s'.left = s.left.tail) ∨
    ∃ act, a = .work act ∧ P.step s.job act = some s'.job ∧ s'.left = s.left := by
  cases a with
  | control op =>
    cases h
    exact .inl ⟨rfl, rfl, nofun⟩
  | poll =>
    simp only [step] at h
    split_ifs at h with hpoll hkilled
    · cases h
      simp only [Bool.and_eq_true] at hpoll
      exact .inr (.inl ⟨rfl, hpoll.1.2, hkilled, rfl, rfl⟩)
    · cases h
      exact .inl ⟨rfl, rfl, fun _ => by simpa using hkilled⟩
  | read =>
    simp only [step] at h
    split_ifs at h
    obtain ⟨job, hjob, rfl⟩ := Option.map_eq_some_iff.1 h
    exact .inr (.inr (.inl ⟨rfl, hjob, rfl⟩))
  | work act =>
    simp only [step] at h
    split_ifs at h
    obtain ⟨job, hjob, rfl⟩ := Option.map_eq_some_iff.1 h
    exact .inr (.inr (.inr ⟨act, rfl, hjob, rfl⟩))
  | finish =>
    simp only [step] at h
    split at h
    · cases h
      exact .inl ⟨rfl, rfl, nofun⟩
    · cases h
  | abandon =>
    simp only [step] at h
    split_ifs at h
    cases h
    exact .inl ⟨rfl, rfl, nofun⟩

/-- **Induction over a call.** What a job keeps when it takes an item or the end of the scan, along
its other steps, and when it finds the token cancelled, it keeps along every call in which the token
is found cancelled only where `G` allows it. -/
theorem exec_invariant {J : σ → List ι → Prop} {G : RangeCall σ ι → Act α → Prop} {scan : List ι}
    {acts : List (Act α)} (h : (lts P range).exec (start P scan) acts = some s)
    (hG : (lts P range).Along G (start P scan) acts) (h₀ : J P.init scan)
    (hstep : ∀ job act job' left, J job left → P.step job act = some job' → J job' left)
    (hitem : ∀ job item job' left, J job (item :: left) → P.read job (some item) = some job' →
      J job' left)
    (hend : ∀ job job', J job [] → P.read job none = some job' → J job' [])
    (hcancel : ∀ s : RangeCall σ ι, G s .poll → P.polls s.job = true → s.control.killed = true →
      J s.job s.left → J (P.cancel s.job) s.left) :
    J s.job s.left := by
  refine LTS.exec_invariant_along (I := fun s => J s.job s.left) h hG h₀ ?_
  intro s a s' hJ hguard hs
  obtain ⟨hjob, hleft, -⟩ | ⟨rfl, hpolls, hkilled, hjob, hleft⟩ | ⟨rfl, hjob, hleft⟩ |
    ⟨act, rfl, hjob, hleft⟩ := step_cases hs
  · rw [hjob, hleft]
    exact hJ
  · rw [hjob, hleft]
    exact hcancel s hguard hpolls hkilled hJ
  · cases hscan : s.left with
    | nil =>
      rw [hscan] at hJ hjob hleft
      rw [hleft]
      exact hend s.job s'.job hJ hjob
    | cons item left =>
      rw [hscan] at hJ hjob hleft
      rw [hleft]
      exact hitem s.job item s'.job left hJ hjob
  · rw [hleft]
    exact hstep s.job act s'.job s.left hJ hjob

/-- The outcome of a call is that of the job's result, or of a killed range. -/
theorem outcome_of_exec {scan : List ι} {acts : List (Act α)} {finished : FinishedRange}
    (h : (lts P range).exec (start P scan) acts = some s) (houtcome : s.outcome = some finished) :
    ∃ result, (P.result s.job = some result ∨ result = .killed) ∧
      finished = processRange (P.counters s.job) range result := by
  refine LTS.exec_invariant (I := fun s => ∀ finished, s.outcome = some finished →
    ∃ result, (P.result s.job = some result ∨ result = .killed) ∧
      finished = processRange (P.counters s.job) range result) h ?_ ?_ finished houtcome
  · intro finished hnone
    cases hnone
  · intro s a s' hI hstep
    cases a with
    | control op =>
      cases hstep
      exact hI
    | poll =>
      simp only [lts, step] at hstep
      intro finished hfinished
      split_ifs at hstep with hpoll <;> cases hstep <;> simp_all
    | read =>
      simp only [lts, step] at hstep
      intro finished hfinished
      split_ifs at hstep with hwork
      obtain ⟨job, -, rfl⟩ := Option.map_eq_some_iff.1 hstep
      simp_all [goesOn]
    | work act =>
      simp only [lts, step] at hstep
      intro finished hfinished
      split_ifs at hstep with hwork
      obtain ⟨job, -, rfl⟩ := Option.map_eq_some_iff.1 hstep
      simp_all [goesOn]
    | finish =>
      simp only [lts, step] at hstep
      split at hstep
      · next result hnone hresult =>
        cases hstep
        intro finished hfinished
        cases hfinished
        exact ⟨result, .inl hresult, rfl⟩
      · cases hstep
    | abandon =>
      simp only [lts, step] at hstep
      split_ifs at hstep
      cases hstep
      intro finished hfinished
      cases hfinished
      exact ⟨.killed, .inr rfl, rfl⟩

/-- **Only a verdict is a success.** -/
theorem verdict_of_succeeded {scan : List ι} {acts : List (Act α)}
    (h : (lts P range).exec (start P scan) acts = some s) (hs : s.Succeeded) :
    ∃ verdict, P.result s.job = some (.verdict verdict) := by
  obtain ⟨finished, houtcome, hstarted, hfail⟩ := hs
  obtain ⟨result, hresult, rfl⟩ := outcome_of_exec h houtcome
  cases result with
  | verdict verdict =>
    obtain hresult | hresult := hresult
    · exact ⟨verdict, hresult⟩
    · cases hresult
  | error error => exact absurd rfl hfail
  | panic message => exact absurd rfl hfail
  | killed => exact absurd rfl hstarted

end RangeCall

end Cdm
