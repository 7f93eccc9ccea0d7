import Cdm.Engine.Adoption

/-!
# The error limit

After every range a worker looks at the run's committed `ERROR` total and stops the run when it
exceeds the limit.  There is no lock between the merge of a range's counters, the look at the total,
the stop and the next claim, so other workers claim and merge in between.

When the workers have left, whoever merged last has looked at the total the report shows, or has
found the run stopping already.  And once the total exceeds the limit, every worker that comes round
sees it for itself before it claims again, so it does not matter how long the worker that saw it
first takes to stop the run.  This rests on the total not falling back: it wraps at `2 ^ 64`.
-/

namespace Cdm

open List

namespace WorkerState

/-- A worker that will look at the errors before it claims again, or is about to record a reason. -/
def isWatching : WorkerState → Bool
  | reporting _ | limiting | counting => true
  | halting (.record _ :: _) => true
  | _ => false

/-- How many ranges a worker may still claim once the errors exceed the limit. -/
def mayClaim (stopping : Bool) : WorkerState → ℕ
  | claiming => 1
  | waiting | checking => if stopping then 0 else 1
  | halting ops => if stopping || ops.contains .cancelStopping then 0 else 1
  | _ => 0

theorem mayClaim_le_one (stopping : Bool) (state : WorkerState) : state.mayClaim stopping ≤ 1 := by
  cases state <;> simp only [mayClaim] <;> (try split_ifs) <;> omega

/-- A stop takes claims away. -/
theorem mayClaim_of_stopping {stopping stopping' : Bool} (h : stopping = true → stopping' = true)
    (state : WorkerState) : state.mayClaim stopping' ≤ state.mayClaim stopping := by
  cases stopping with
  | true => rw [h rfl]
  | false =>
    cases state with
    | halting ops =>
      cases stopping' <;> simp [mayClaim]
    | _ => cases stopping' <;> simp [mayClaim]

end WorkerState

/-- A stopping run keeps stopping. -/
theorem RunControl.stopping_perform {c : RunControl} (op : ControlOp) (h : c.stopping = true) :
    (c.perform op).stopping = true := by
  cases op with
  | cancelStopping => rfl
  | _ => exact h

namespace SchedulerRun

variable {settings : SchedulerSettings} {job : JobKind} {plan : TokenPlan}

/-! ### An excess is noticed -/

/-- What holds in every state of a run. -/
structure Watched (settings : SchedulerSettings) (s : SchedulerRun) : Prop where
  explained : s.control.Explained
  calls : ∀ ops ∈ s.calls, RecordsFirst s.control.reason.isSome ops
  workerOps : ∀ state ∈ s.workers, RecordsFirst s.control.reason.isSome state.ops
  noticed : settings.errorLimit < s.runCounters.committed .error →
    s.control.reason.isSome = true ∨ ∃ state ∈ s.workers, state.isWatching = true

/-- A worker moves on without touching the control. -/
theorem Watched.move {s : SchedulerRun} (hi : Watched settings s) {w : ℕ} {a b : WorkerState}
    (hw : s.workers[w]? = some a) (hops : RecordsFirst s.control.reason.isSome b.ops)
    (hwatch : settings.errorLimit < s.runCounters.committed .error → a.isWatching = true →
      b.isWatching = true ∨ s.control.reason.isSome = true) :
    Watched settings (s.setWorker w b) := by
  refine ⟨hi.explained, hi.calls, ?_, ?_⟩
  · intro state hstate
    rcases mem_or_eq_of_mem_set hstate with h | rfl
    · exact hi.workerOps state h
    · exact hops
  · intro hexceeds
    obtain hreason | ⟨state, hstate, hwatching⟩ := hi.noticed hexceeds
    · exact .inl hreason
    · obtain ⟨v, hv⟩ := mem_iff_getElem?.1 hstate
      by_cases hvw : w = v
      · subst hvw
        cases hw.symm.trans hv
        obtain hb | hreason := hwatch hexceeds hwatching
        · refine .inr ⟨b, ?_, hb⟩
          exact mem_set (List.getElem?_eq_some_iff.1 hw).1 b
        · exact .inl hreason
      · refine .inr ⟨state, ?_, hwatching⟩
        exact mem_of_getElem? (i := v) (by simp [setWorker, hvw, hv])

/-- An operation on the control: reasons and flags are never taken back. -/
theorem Watched.perform {s : SchedulerRun} (hi : Watched settings s) {op : ControlOp}
    {ops : List ControlOp} (hops : RecordsFirst s.control.reason.isSome (op :: ops)) :
    Watched settings { s with control := s.control.perform op } ∧
      RecordsFirst (s.control.perform op).reason.isSome ops := by
  obtain ⟨hexplained, hrest⟩ := hi.explained.perform hops
  have hmono := fun h => RunControl.isSome_reason_perform (c := s.control) op h
  exact ⟨⟨hexplained, fun o ho => recordsFirst_mono hmono (hi.calls o ho),
    fun state hstate => recordsFirst_mono hmono (hi.workerOps state hstate),
    fun h => (hi.noticed h).imp_left hmono⟩, hrest⟩

/-- A worker that has just merged its range is about to look. -/
theorem Watched.merge {s : SchedulerRun} (hi : Watched settings s) {w : ℕ} {a : WorkerState}
    (hw : s.workers[w]? = some a) (counters : JobCounters) (f : FinishedRange) :
    Watched settings ({ s with runCounters := counters }.setWorker w (.reporting f)) := by
  refine ⟨hi.explained, hi.calls, ?_, ?_⟩
  · intro state hstate
    rcases mem_or_eq_of_mem_set hstate with h | rfl
    · exact hi.workerOps state h
    · trivial
  · intro _
    exact .inr ⟨.reporting f, mem_set (List.getElem?_eq_some_iff.1 hw).1 _, rfl⟩

theorem Watched.work {s s' : SchedulerRun} (hlimit : settings.errorLimit ≠ 0)
    (hi : Watched settings s) {w : ℕ} {state : WorkerState} (hw : s.workers[w]? = some state)
    (h : s.workStep settings w state = some s') : Watched settings s' := by
  have hops := hi.workerOps state (mem_of_getElem? hw)
  cases state with
  | waiting =>
    simp only [workStep] at h
    split_ifs at h
    cases h
    exact hi.move hw trivial fun _ h => by cases h
  | checking =>
    cases h
    split_ifs
    · exact hi.move hw trivial fun _ h => by cases h
    · exact hi.move hw trivial fun _ h => by cases h
  | claiming =>
    cases h
    have hsame : Watched settings { s with queue := s.queue.claim.2 } :=
      ⟨hi.explained, hi.calls, hi.workerOps, hi.noticed⟩
    change Watched settings
      ({ s with queue := s.queue.claim.2 }.setWorker w (.afterClaim s.queue.claim.1))
    refine hsame.move hw ?_ fun _ h => by cases h
    cases s.queue.claim.1 <;> trivial
  | processing range => cases h
  | closing ops finished =>
    cases ops with
    | nil =>
      cases h
      exact hi.merge hw _ finished
    | cons op ops =>
      cases h
      obtain ⟨hs, hrest⟩ := hi.perform hops
      exact hs.move hw hrest fun _ h => by cases h
  | reporting finished =>
    cases h
    have hsame : Watched settings { s with outcomes := s.outcomes ++ [finished] } :=
      ⟨hi.explained, hi.calls, hi.workerOps, hi.noticed⟩
    exact hsame.move hw trivial fun _ _ => .inl rfl
  | limiting =>
    cases h
    split_ifs with hskip
    · -- with a limit, only a stopping run is not looked at, and it has a reason
      refine hi.move hw trivial fun _ _ => .inr (hi.explained (.inl ?_))
      simpa [hlimit] using hskip
    · exact hi.move hw trivial fun _ _ => .inl rfl
  | counting =>
    cases h
    refine hi.move hw ?_ ?_
    · change RecordsFirst _ (if _ then _ else _)
      split_ifs
      · exact recordsFirst_stopOps _ _
      · trivial
    · intro hexceeds _
      rw [if_pos hexceeds]
      exact .inl rfl
  | halting ops =>
    cases ops with
    | nil =>
      cases h
      exact hi.move hw trivial fun _ h => by cases h
    | cons op ops =>
      cases h
      obtain ⟨hs, hrest⟩ := hi.perform hops
      refine hs.move hw hrest fun _ hwatching => .inr ?_
      -- what it was about to do was to record a reason
      cases op with
      | record reason => simp [RunControl.perform]
      | _ => cases hwatching
  | done => cases h

theorem step_watched {s s' : SchedulerRun} {act : Act} (hlimit : settings.errorLimit ≠ 0)
    (hi : Watched settings s) (h : step settings s act = some s') : Watched settings s' := by
  cases act with
  | request request =>
    simp only [step] at h
    split_ifs at h
    cases h
    refine ⟨hi.explained, fun ops hops => ?_, hi.workerOps, hi.noticed⟩
    rcases mem_append.1 hops with h | h
    · exact hi.calls ops h
    · rw [mem_singleton.1 h]
      exact recordsFirst_ops _ _ _
  | advance call =>
    simp only [step] at h
    split at h
    · next op ops hcall =>
      cases h
      obtain ⟨hs, hrest⟩ := hi.perform (hi.calls _ (mem_of_getElem? hcall))
      refine ⟨hs.explained, fun o ho => ?_, hs.workerOps, hs.noticed⟩
      rcases mem_or_eq_of_mem_set ho with h | rfl
      · exact hs.calls o h
      · exact hrest
    · cases h
  | work w =>
    obtain ⟨state, hw, hstep⟩ := Option.bind_eq_some_iff.1 h
    exact hi.work hlimit hw hstep
  | finish w result units =>
    simp only [step] at h
    split at h
    · next range hw =>
      split_ifs at h
      cases h
      exact hi.move hw (recordsFirst_result _ _) fun _ h => by cases h
    · cases h

theorem init_watched (hlen : plan.ranges.length ≤ isizeMax) :
    Watched settings (init settings job plan hlen) := by
  refine ⟨?_, ?_, fun state h => ?_, fun h => ?_⟩
  · rintro (h | h) <;> cases h
  · intro ops h
    cases h
  · rw [eq_of_mem_replicate h]
    trivial
  · have hzero : (init settings job plan hlen).runCounters.committed .error = 0 :=
      JobCounters.committed_new job .error
    rw [hzero] at h
    exact absurd h (by simp)

/-- When the workers have left, nobody is about to look any more. -/
theorem Watched.isSome_reason {s : SchedulerRun} (hi : Watched settings s) (hj : s.Joined)
    (h : settings.errorLimit < s.runCounters.committed .error) :
    s.control.reason.isSome = true := by
  obtain hreason | ⟨state, hstate, hwatching⟩ := hi.noticed h
  · exact hreason
  · rw [WorkerState.eq_done_of_isDone (hj state hstate)] at hwatching
    cases hwatching

/-! ### The errors that have been merged -/

/-- The errors of a list of ranges. -/
def errorsOf (fs : List FinishedRange) : ℕ :=
  (fs.map fun f => (f.counters.committed .error).toNat).sum

/-- The errors of the ranges that have been merged into the run's counters. -/
def errorSum (s : SchedulerRun) : ℕ :=
  errorsOf s.outcomes + errorsOf (s.workers.flatMap WorkerState.merged)

theorem errorsOf_append (fs gs : List FinishedRange) :
    errorsOf (fs ++ gs) = errorsOf fs + errorsOf gs := by
  simp [errorsOf]

theorem errorsOf_perm {fs gs : List FinishedRange} (h : fs.Perm gs) : errorsOf fs = errorsOf gs :=
  (h.map _).sum_eq

theorem toNat_sum_errors (fs : List FinishedRange) :
    (fs.map fun f : FinishedRange => f.counters.committed .error).sum.toNat =
      errorsOf fs % 2 ^ 64 := by
  induction fs with
  | nil => rfl
  | cons f fs ih =>
    have hcons : errorsOf (f :: fs) = (f.counters.committed .error).toNat + errorsOf fs := by
      simp [errorsOf]
    rw [map_cons, sum_cons, UInt64.toNat_add, ih, hcons]
    omega

/-- The run's total is the errors of the merged ranges, wrapped. -/
theorem Conserved.toNat_errors {s : SchedulerRun} (hi : Conserved settings job plan s) :
    (s.runCounters.committed .error).toNat = s.errorSum % 2 ^ 64 := by
  rw [hi.counters, total, UInt64.toNat_add, toNat_sum_errors, toNat_sum_errors, errorSum]
  omega

/-- A worker that moves to a state with the same merged range changes no sum. -/
theorem errorSum_le_setWorker {s : SchedulerRun} {w : ℕ} {a : WorkerState}
    (hw : s.workers[w]? = some a) (b : WorkerState) (hmerged : b.merged = a.merged) :
    s.errorSum ≤ (s.setWorker w b).errorSum := by
  unfold errorSum setWorker
  rw [flatMap_set_of_eq hw hmerged]

/-- What has been merged stays merged. -/
theorem errorSum_le_work {s s' : SchedulerRun} {w : ℕ} {state : WorkerState}
    (hw : s.workers[w]? = some state) (h : s.workStep settings w state = some s') :
    s.errorSum ≤ s'.errorSum := by
  cases state with
  | waiting =>
    simp only [workStep] at h
    split_ifs at h
    cases h
    exact errorSum_le_setWorker hw _ rfl
  | checking =>
    cases h
    split_ifs
    · exact errorSum_le_setWorker hw _ rfl
    · exact errorSum_le_setWorker hw _ rfl
  | claiming =>
    cases h
    refine errorSum_le_setWorker (s := { s with queue := s.queue.claim.2 }) hw
      (.afterClaim s.queue.claim.1) ?_
    cases s.queue.claim.1 <;> rfl
  | processing range => cases h
  | closing ops finished =>
    cases ops with
    | nil =>
      cases h
      have hperm : ((s.workers.set w (.reporting finished)).flatMap WorkerState.merged).Perm
          (s.workers.flatMap WorkerState.merged ++ [finished]) := by
        simpa [WorkerState.merged] using
          perm_flatMap_set hw (.reporting finished) WorkerState.merged
      change _ ≤ errorsOf s.outcomes + errorsOf ((s.workers.set w (.reporting finished)).flatMap _)
      rw [errorsOf_perm hperm, errorsOf_append, errorSum]
      omega
    | cons op ops =>
      cases h
      exact errorSum_le_setWorker (s := { s with control := s.control.perform op }) hw
        (.closing ops finished) rfl
  | reporting finished =>
    cases h
    have hperm : ((s.workers.set w .limiting).flatMap WorkerState.merged ++ [finished]).Perm
        (s.workers.flatMap WorkerState.merged) := by
      simpa [WorkerState.merged] using perm_flatMap_set hw .limiting WorkerState.merged
    change _ ≤ errorsOf (s.outcomes ++ [finished]) +
      errorsOf ((s.workers.set w .limiting).flatMap _)
    rw [errorSum, ← errorsOf_perm hperm, errorsOf_append, errorsOf_append]
    omega
  | limiting =>
    cases h
    split_ifs
    · exact errorSum_le_setWorker hw _ rfl
    · exact errorSum_le_setWorker hw _ rfl
  | counting =>
    cases h
    exact errorSum_le_setWorker hw _ rfl
  | halting ops =>
    cases ops with
    | nil =>
      cases h
      exact errorSum_le_setWorker hw _ rfl
    | cons op ops =>
      cases h
      exact errorSum_le_setWorker (s := { s with control := s.control.perform op }) hw
        (.halting ops) rfl
  | done => cases h

theorem errorSum_le_step {s s' : SchedulerRun} {act : Act} (h : step settings s act = some s') :
    s.errorSum ≤ s'.errorSum := by
  cases act with
  | request request =>
    simp only [step] at h
    split_ifs at h
    cases h
    exact le_rfl
  | advance call =>
    simp only [step] at h
    split at h
    · cases h
      exact le_rfl
    · cases h
  | work w =>
    obtain ⟨state, hw, hstep⟩ := Option.bind_eq_some_iff.1 h
    exact errorSum_le_work hw hstep
  | finish w result units =>
    simp only [step] at h
    split at h
    · next range hw =>
      split_ifs at h
      cases h
      exact errorSum_le_setWorker hw _ rfl
    · cases h

/-! ### One further range -/

/-- The range the worker `v` claims in a step. -/
def claims (v : ℕ) (s : SchedulerRun) : Act → Option TokenRange
  | .work w =>
    match s.workers[w]? with
    | some .claiming => if w = v then s.queue.claim.1 else none
    | _ => none
  | _ => none

/-- How many ranges the worker `v` may still claim. -/
def budget (v : ℕ) (s : SchedulerRun) : ℕ :=
  (s.workers[v]?).elim 0 (WorkerState.mayClaim s.control.stopping)

theorem budget_setWorker_self {s : SchedulerRun} {w : ℕ} {a : WorkerState}
    (hw : s.workers[w]? = some a) (b : WorkerState) :
    (s.setWorker w b).budget w = b.mayClaim s.control.stopping := by
  obtain ⟨hlt, -⟩ := List.getElem?_eq_some_iff.1 hw
  simp [budget, setWorker, hlt]

theorem budget_setWorker_of_ne {s : SchedulerRun} {v w : ℕ} (hne : w ≠ v) (b : WorkerState) :
    (s.setWorker w b).budget v = s.budget v := by
  simp [budget, setWorker, hne]

theorem budget_perform_le (v : ℕ) (s : SchedulerRun) (op : ControlOp) :
    ({ s with control := s.control.perform op } : SchedulerRun).budget v ≤ s.budget v := by
  unfold budget
  cases s.workers[v]? with
  | none => exact le_rfl
  | some state =>
    exact WorkerState.mayClaim_of_stopping (RunControl.stopping_perform op) state

/-- What another worker does takes claims away only. -/
theorem budget_of_other {s s' : SchedulerRun} {v w : ℕ} {state : WorkerState} (hne : w ≠ v)
    (h : s.workStep settings w state = some s') : s'.budget v ≤ s.budget v := by
  cases state with
  | waiting =>
    simp only [workStep] at h
    split_ifs at h
    cases h
    exact (budget_setWorker_of_ne hne _).le
  | processing range => cases h
  | closing ops finished =>
    cases ops with
    | nil =>
      cases h
      exact (budget_setWorker_of_ne hne (.reporting finished)).le
    | cons op ops =>
      cases h
      exact (budget_setWorker_of_ne hne (.closing ops finished)).le.trans (budget_perform_le v s op)
  | halting ops =>
    cases ops with
    | nil =>
      cases h
      exact (budget_setWorker_of_ne hne _).le
    | cons op ops =>
      cases h
      exact (budget_setWorker_of_ne hne (.halting ops)).le.trans (budget_perform_le v s op)
  | claiming =>
    cases h
    exact (budget_setWorker_of_ne (s := { s with queue := s.queue.claim.2 }) hne
      (.afterClaim s.queue.claim.1)).le
  | reporting finished =>
    cases h
    exact (budget_setWorker_of_ne (s := { s with outcomes := s.outcomes ++ [finished] }) hne
      .limiting).le
  | checking | limiting | counting =>
    cases h
    exact (budget_setWorker_of_ne hne _).le
  | done => cases h

/-- **A worker that comes round sees the excess.** While the errors exceed the limit, what a worker
claims comes out of what it may still claim. -/
theorem budget_work {s s' : SchedulerRun} {w : ℕ} {state : WorkerState}
    (hlimit : settings.errorLimit ≠ 0) (hexceeds : settings.errorLimit < s.runCounters.committed .error)
    (hw : s.workers[w]? = some state) (h : s.workStep settings w state = some s') :
    (s.claims w (.work w)).toList.length + s'.budget w ≤ state.mayClaim s.control.stopping := by
  have hclaims : state ≠ .claiming →
      (s.claims w (.work w)).toList.length + s'.budget w = s'.budget w := by
    intro hne
    have hnone : s.claims w (.work w) = none := by
      simp only [claims, hw]
      cases state <;> first | rfl | exact absurd rfl hne
    rw [hnone, Option.toList_none, length_nil, Nat.zero_add]
  cases state with
  | waiting =>
    rw [hclaims (by simp)]
    simp only [workStep] at h
    split_ifs at h
    cases h
    rw [budget_setWorker_self hw]
    simp [WorkerState.mayClaim]
  | checking =>
    rw [hclaims (by simp)]
    cases h
    rw [budget_setWorker_self hw]
    split_ifs with hstop
    · simp [WorkerState.mayClaim]
    · simp [WorkerState.mayClaim, hstop]
  | claiming =>
    cases h
    have hbudget := budget_setWorker_self (s := { s with queue := s.queue.claim.2 }) hw
      (.afterClaim s.queue.claim.1)
    change _ + ({ s with queue := s.queue.claim.2 }.setWorker w
      (.afterClaim s.queue.claim.1)).budget w ≤ _
    rw [hbudget]
    simp only [claims, hw, if_true]
    cases s.queue.claim.1 <;> simp [WorkerState.afterClaim, WorkerState.mayClaim]
  | processing range => cases h
  | closing ops finished =>
    rw [hclaims (by simp)]
    cases ops with
    | nil =>
      cases h
      exact (budget_setWorker_self hw (.reporting finished)).le
    | cons op ops =>
      cases h
      exact (budget_setWorker_self (s := { s with control := s.control.perform op }) hw
        (.closing ops finished)).le
  | reporting finished =>
    rw [hclaims (by simp)]
    cases h
    exact (budget_setWorker_self (s := { s with outcomes := s.outcomes ++ [finished] }) hw
      .limiting).le
  | limiting =>
    rw [hclaims (by simp)]
    cases h
    rw [budget_setWorker_self hw]
    split_ifs with hskip
    · have hstop : s.control.stopping = true := by simpa [hlimit] using hskip
      simp [WorkerState.mayClaim, hstop]
    · simp [WorkerState.mayClaim]
  | counting =>
    rw [hclaims (by simp)]
    cases h
    rw [budget_setWorker_self hw, if_pos hexceeds]
    simp [WorkerState.mayClaim, stopOps]
  | halting ops =>
    rw [hclaims (by simp)]
    cases ops with
    | nil =>
      cases h
      rw [budget_setWorker_self hw]
      simp [WorkerState.mayClaim]
    | cons op ops =>
      cases h
      have hbudget := budget_setWorker_self (s := { s with control := s.control.perform op }) hw
        (.halting ops)
      change ({ s with control := s.control.perform op }.setWorker w (.halting ops)).budget w ≤ _
      rw [hbudget]
      cases op <;> simp [WorkerState.mayClaim, RunControl.perform]
  | done => cases h

theorem budget_step {s s' : SchedulerRun} {act : Act} (hlimit : settings.errorLimit ≠ 0)
    (hexceeds : settings.errorLimit < s.runCounters.committed .error) (v : ℕ)
    (h : step settings s act = some s') :
    (s.claims v act).toList.length + s'.budget v ≤ s.budget v := by
  cases act with
  | request request =>
    simp only [step] at h
    split_ifs at h
    cases h
    exact (Nat.zero_add _).le
  | advance call =>
    simp only [step] at h
    split at h
    · next op ops hcall =>
      cases h
      simp only [claims, Option.toList_none, length_nil, Nat.zero_add]
      exact budget_perform_le v s op
    · cases h
  | work w =>
    obtain ⟨state, hw, hstep⟩ := Option.bind_eq_some_iff.1 h
    by_cases hv : w = v
    · subst hv
      refine (budget_work hlimit hexceeds hw hstep).trans ?_
      simp [budget, hw]
    · have hclaims : s.claims v (.work w) = none := by
        simp only [claims, hw, if_neg hv]
        cases state <;> rfl
      rw [hclaims, Option.toList_none, length_nil, Nat.zero_add]
      exact budget_of_other hv hstep
  | finish w result units =>
    simp only [step] at h
    split at h
    · next range hw =>
      split_ifs at h
      cases h
      simp only [claims, Option.toList_none, length_nil, Nat.zero_add]
      by_cases hv : w = v
      · subst hv
        rw [budget_setWorker_self hw]
        exact Nat.zero_le _
      · rw [budget_setWorker_of_ne hv]
    · cases h

/-- The worker `w` sees that the run has too many errors. -/
def Observes (settings : SchedulerSettings) (s : SchedulerRun) (w : ℕ) : Prop :=
  s.workers[w]? = some .counting ∧ settings.errorLimit < s.runCounters.committed .error

/-- Once the errors exceed the limit, a worker claims at most one further range. -/
theorem claims_le_one {s s' : SchedulerRun} {acts : List Act} (hlimit : settings.errorLimit ≠ 0)
    (hi : Conserved settings job plan s)
    (hexceeds : settings.errorLimit < s.runCounters.committed .error)
    (hrun : (lts settings).exec s acts = some s') (hwrap : s'.errorSum < 2 ^ 64) (v : ℕ) :
    ((lts settings).outputs (claims v) s acts).length ≤ 1 := by
  have hlow : settings.errorLimit.toNat < s.errorSum := by
    have hlt := UInt64.lt_iff_toNat_lt.1 hexceeds
    rw [hi.toNat_errors] at hlt
    exact hlt.trans_le (Nat.mod_le _ _)
  -- the induction carries the claims made together with those that may still be made
  have hbound : Conserved settings job plan s' ∧ settings.errorLimit.toNat < s'.errorSum ∧
      (s'.errorSum < 2 ^ 64 →
        ((lts settings).outputs (claims v) s acts).length + s'.budget v ≤ 1) := by
    refine LTS.exec_invariant_outputs (f := claims v) (I := fun t values =>
      Conserved settings job plan t ∧ settings.errorLimit.toNat < t.errorSum ∧
        (t.errorSum < 2 ^ 64 → values.length + t.budget v ≤ 1)) hrun ⟨hi, hlow, fun _ => ?_⟩ ?_
    · rw [length_nil, Nat.zero_add, budget]
      cases s.workers[v]? with
      | none => exact Nat.zero_le _
      | some state => exact WorkerState.mayClaim_le_one _ state
    · rintro t act t' values ⟨hc, hmore, hbudget⟩ hstep
      have hle := errorSum_le_step hstep
      refine ⟨step_conserved hc hstep, hmore.trans_le hle, fun hlt => ?_⟩
      have hsmall : t.errorSum < 2 ^ 64 := hle.trans_lt hlt
      have hstill : settings.errorLimit < t.runCounters.committed .error := by
        rw [UInt64.lt_iff_toNat_lt, hc.toNat_errors, Nat.mod_eq_of_lt hsmall]
        exact hmore
      have hspent := budget_step hlimit hstill v hstep
      have hbefore := hbudget hsmall
      rw [length_append]
      omega
  exact (Nat.le_add_right _ _).trans (hbound.2.2 hwrap)

/-- **The error limit.** For every plan, every limit, whatever the processor counts, and every
interleaving: when the workers have left and the report shows more errors than the limit, the run
did not end as `ENDED`; and after a worker has seen the excess, as long as the errors of the merged
ranges stay below `2 ^ 64`, no worker claims more than one further range. -/
theorem error_limit_enforced {hlen : plan.ranges.length ≤ isizeMax} {acts : List Act}
    {s : SchedulerRun} (hlimit : 0 < settings.errorLimit)
    (hrun : (lts settings).exec (init settings job plan hlen) acts = some s) :
    (s.Joined → settings.errorLimit < s.report.counters.committed .error →
      s.report.status ≠ .ended) ∧
    ∀ w later s', s.Observes settings w → (lts settings).exec s (.work w :: later) = some s' →
      s'.errorSum < 2 ^ 64 →
        ∀ v, ((lts settings).outputs (claims v) s (.work w :: later)).length ≤ 1 := by
  have hne : settings.errorLimit ≠ 0 := by
    rintro heq
    rw [heq] at hlimit
    exact absurd hlimit (by decide)
  refine ⟨?_, ?_⟩
  · intro hj hexceeds
    have hi : Watched settings s :=
      LTS.exec_invariant hrun (init_watched hlen) fun _ _ _ hi h => step_watched hne hi h
    rw [committed_report] at hexceeds
    exact status_report_ne_ended (hi.isSome_reason hj hexceeds)
  · intro w later s' hobserves hlater hwrap v
    have hi : Conserved settings job plan s :=
      LTS.exec_invariant hrun (init_conserved hlen) fun _ _ _ hi h => step_conserved hi h
    exact claims_le_one hne hi hobserves.2 hlater hwrap v

/-! ### A total that wraps -/

/-- Two workers, and at most one error. -/
def oneError : SchedulerSettings := ⟨2, 1⟩

/-- The counters of a range with `n` errors. -/
def errorRows (n : UInt64) : CounterKind → CounterUnit
  | .error => ⟨n, 0⟩
  | _ => {}

/-- The first worker's range has two errors, and it is about to look. -/
def observedActs : List Act :=
  [.work 0, .work 0, .work 0, .work 1, .work 1, .finish 0 (.verdict .pass) (errorRows 2), .work 0,
    .work 0, .work 0]

/-- The other worker claims a range with `n` errors before the first one has stopped the run, and
comes round again. -/
def laterActs (n : UInt64) : List Act :=
  [.work 1, .finish 1 (.verdict .pass) (errorRows n), .work 1, .work 1, .work 1, .work 1, .work 1,
    .work 1, .work 1, .work 1]

instance decidableObserves (s : SchedulerRun) (w : ℕ) : Decidable (s.Observes oneError w) :=
  decidable_of_iff ((s.workers[w]?).any (fun state => state matches .counting) = true ∧
    oneError.errorLimit < s.runCounters.committed .error) <| by
      unfold Observes
      cases s.workers[w]? with
      | none => simp
      | some state => cases state <;> simp

theorem error_limit_enforced_observed :
    ∃ s s', (lts oneError).exec (init oneError .migrate killedPlan (by decide)) observedActs =
        some s ∧ s.Observes oneError 0 ∧
      (lts oneError).exec s (.work 0 :: laterActs 3) = some s' ∧
      ∀ v, ((lts oneError).outputs (claims v) s (.work 0 :: laterActs 3)).length ≤ 1 := by
  have hsome : ((lts oneError).exec (init oneError .migrate killedPlan (by decide))
      observedActs).any (fun s => s.Observes oneError 0 ∧
        ((lts oneError).exec s (.work 0 :: laterActs 3)).any (fun s' => s'.errorSum < 2 ^ 64) =
          true) = true := by decide
  obtain ⟨s, hs, h⟩ := (Option.any_eq_true _ _).1 hsome
  obtain ⟨hobserves, hlater⟩ := of_decide_eq_true h
  obtain ⟨s', hs', hwrap⟩ := (Option.any_eq_true _ _).1 hlater
  exact ⟨s, s', hs, hobserves, hs',
    (error_limit_enforced (by decide) hs).2 0 (laterActs 3) s' hobserves hs'
      (of_decide_eq_true hwrap)⟩

/-- After a worker has seen the excess, the other one adds `2 ^ 64 - 2` errors to the two there are,
sees none, and claims a second range. -/
theorem claims_two_after_wrap :
    ∃ s s', (lts oneError).exec (init oneError .migrate killedPlan (by decide)) observedActs =
        some s ∧ s.Observes oneError 0 ∧
      (lts oneError).exec s (.work 0 :: laterActs (2 ^ 64 - 2)) = some s' ∧
      ((lts oneError).outputs (claims 1) s (.work 0 :: laterActs (2 ^ 64 - 2))).length = 2 := by
  have hsome : ((lts oneError).exec (init oneError .migrate killedPlan (by decide))
      observedActs).any (fun s => s.Observes oneError 0 ∧
        ((lts oneError).exec s (.work 0 :: laterActs (2 ^ 64 - 2))).isSome = true ∧
        ((lts oneError).outputs (claims 1) s (.work 0 :: laterActs (2 ^ 64 - 2))).length = 2) =
          true := by set_option maxRecDepth 30000 in decide
  obtain ⟨s, hs, h⟩ := (Option.any_eq_true _ _).1 hsome
  obtain ⟨hobserves, hlater, hlength⟩ := of_decide_eq_true h
  obtain ⟨s', hs'⟩ := Option.isSome_iff_exists.1 hlater
  exact ⟨s, s', hs, hobserves, hs', hlength⟩

end SchedulerRun

end Cdm
