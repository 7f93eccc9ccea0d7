import Cdm.Engine.JobRun
import Cdm.Jobs.WholeRange

/-!
# A validate run

A range is a `DIFF` when it has found more discrepancies than it has corrected; the process sums both
up over the whole run, and compares the sums.  The two agree as long as the lookups fit a counter,
since no range corrects more than it has found.
-/

namespace Cdm

open List SchedulerRun

namespace ValidateRange

/-- The discrepancies that a range has counted. -/
def found (s : ValidateRange) : ℕ :=
  (s.counters.countOf .missing .interim).toNat + (s.counters.countOf .mismatch .interim).toNat

/-- Those that it has corrected. -/
def fixed (s : ValidateRange) : ℕ :=
  (s.counters.countOf .correctedMissing .interim).toNat +
    (s.counters.countOf .correctedMismatch .interim).toNat

/-- The lookups whose results it has classified. -/
def lookups (s : ValidateRange) : ℕ := (s.rows.map RowFate.classified).sum

/-- A range without a discrepancy has counted none, and the verdict is on what has been counted. -/
structure Judged (s : ValidateRange) : Prop where
  clean : s.hadDiscrepancy = false →
    s.counters.countOf .missing .interim = 0 ∧ s.counters.countOf .mismatch .interim = 0
  verdict : ∀ verdict, s.phase = .ended (.verdict verdict) →
    verdict = ValidateJob.verdict s.counters s.hadDiscrepancy

/-- What a step may do to the counters: nothing, or count one row or lookup. -/
def CountsOne (s s' : ValidateRange) : Prop :=
  s'.counters = s.counters ∨ ∃ kind, kind ≠ .partitionsFailed ∧
    s'.counters = s.counters.incrementKind kind 1 ∧
    (s'.hadDiscrepancy = false → kind ≠ .missing ∧ kind ≠ .mismatch)

section Steps

variable [LiteralParsers] [SerdeJson] {job : ValidateJob} {fetchSize : ℕ} {s s' : ValidateRange}

/-- Every step but those that classify a lookup or end the range. -/
theorem step_counts_of_quiet {act : Act} (hs : step job fetchSize s act = some s')
    (hcompare : ∀ fetched, act ≠ .compare fetched) (hdrained : act ≠ .drained) :
    CountsOne s s' ∧ s'.hadDiscrepancy = s.hadDiscrepancy ∧
      ∀ verdict, s'.phase ≠ .ended (.verdict verdict) := by
  cases act with
  | cancel =>
    simp only [step] at hs
    split at hs
    · cases hs
      exact ⟨.inl rfl, rfl, by simp⟩
    · simp at hs
  | nextRecord record =>
    simp only [step] at hs
    split at hs
    · split at hs
      · cases hs
        exact ⟨.inl rfl, rfl, by simp⟩
      · cases hs
        exact ⟨.inl rfl, rfl, by simp⟩
      · cases hs
        exact ⟨.inr ⟨.read, by decide, rfl, fun _ => by decide⟩, rfl, by simp⟩
    · simp at hs
  | filter =>
    simp only [step] at hs
    split at hs
    · split at hs
      · cases hs
        exact ⟨.inl rfl, rfl, by simp⟩
      · cases hs
        exact ⟨.inr ⟨.skipped, by decide, rfl, fun _ => by decide⟩, rfl, by simp⟩
      · cases hs
        exact ⟨.inl rfl, rfl, by simp⟩
    · simp at hs
  | explode =>
    simp only [step] at hs
    split at hs
    · split at hs
      · cases hs
        exact ⟨.inl rfl, rfl, by simp⟩
      · cases hs
        exact ⟨.inr ⟨.skipped, by decide, rfl, fun _ => by decide⟩, rfl, by simp⟩
      · cases hs
        exact ⟨.inl rfl, rfl, by simp⟩
    · simp at hs
  | enqueue slot =>
    simp only [step] at hs
    split at hs
    · split at hs <;> cases hs <;> exact ⟨.inl rfl, rfl, by simp⟩
    · simp at hs
  | enqueued =>
    simp only [step] at hs
    split at hs
    · cases hs
      refine ⟨.inl rfl, rfl, fun verdict => ?_⟩
      simp only
      split_ifs <;> simp
    · simp at hs
  | compare fetched => exact absurd rfl (hcompare fetched)
  | drained => exact absurd rfl hdrained
  | correct written =>
    simp only [step] at hs
    split at hs
    · next comparison after _ =>
      split_ifs at hs
      · split at hs
        · cases hs
          exact ⟨.inl rfl, rfl, by simp⟩
        · cases hs
          refine ⟨.inr ⟨correctedOf comparison, ?_, rfl, fun _ => ?_⟩, rfl, by simp⟩
          · cases comparison <;> simp [correctedOf]
          · cases comparison <;> simp [correctedOf]
      · cases hs
        exact ⟨.inl rfl, rfl, by simp⟩
    · simp at hs
  | panic message =>
    simp only [step] at hs
    split at hs
    · simp at hs
    · cases hs
      exact ⟨.inl rfl, rfl, by simp⟩

/-- Everything a step can do to what the verdict is about. -/
theorem step_counts {act : Act} (hs : step job fetchSize s act = some s') :
    CountsOne s s' ∧ (s'.hadDiscrepancy = false → s.hadDiscrepancy = false) ∧
      ∀ verdict, s'.phase = .ended (.verdict verdict) →
        verdict = ValidateJob.verdict s'.counters s'.hadDiscrepancy := by
  have hquiet (hcompare : ∀ fetched, act ≠ .compare fetched) (hdrained : act ≠ .drained) :
      CountsOne s s' ∧ (s'.hadDiscrepancy = false → s.hadDiscrepancy = false) ∧
        ∀ verdict, s'.phase = .ended (.verdict verdict) →
          verdict = ValidateJob.verdict s'.counters s'.hadDiscrepancy := by
    obtain ⟨hcounts, hsame, hverdict⟩ := step_counts_of_quiet hs hcompare hdrained
    exact ⟨hcounts, fun h => hsame ▸ h, fun verdict hended => absurd hended (hverdict verdict)⟩
  by_cases hdrained : act = .drained
  · subst hdrained
    simp only [step] at hs
    split at hs
    · next after _ _ =>
      cases hs
      refine ⟨.inl rfl, id, fun verdict hended => ?_⟩
      cases after
      · simp at hended
      · simpa using hended.symm
      · simp at hended
    · simp at hs
  · by_cases hcompare : ∃ fetched, act = .compare fetched
    · obtain ⟨fetched, rfl⟩ := hcompare
      simp only [step] at hs
      split at hs
      · cases hs
        exact ⟨.inl rfl, id, by simp⟩
      · next record records _ _ _ =>
        split at hs
        · cases hs
          exact ⟨.inl rfl, id, by simp⟩
        · next target =>
          cases hs
          generalize job.plan.compare record.2 target = comparison
          refine ⟨.inr ⟨counterOf comparison, ?_, rfl, fun hclean => ?_⟩,
            fun hclean => (Bool.or_eq_false_iff.1 hclean).1, fun verdict hended => ?_⟩
          · cases comparison <;> simp [counterOf]
          · -- a lookup that is no discrepancy counts as valid
            have hvalid := (Bool.or_eq_false_iff.1 hclean).2
            cases comparison <;> simp_all [Comparison.isDiscrepancy, counterOf]
          · simp only at hended
            split_ifs at hended
      · simp at hs
    · exact hquiet (fun fetched h => hcompare ⟨fetched, h⟩) hdrained

theorem step_judged (hi : Judged s) {act : Act} (hs : step job fetchSize s act = some s') :
    Judged s' := by
  obtain ⟨hcounts, hclean, hverdict⟩ := step_counts hs
  refine ⟨fun h => ?_, hverdict⟩
  obtain ⟨hmissing, hmismatch⟩ := hi.clean (hclean h)
  rcases hcounts with heq | ⟨kind, -, heq, hkind⟩
  · rw [heq]
    exact ⟨hmissing, hmismatch⟩
  · rw [heq, JobCounters.countOf_incrementKind, JobCounters.countOf_incrementKind,
      if_neg fun h' => (hkind h).1 h'.1.symm, if_neg fun h' => (hkind h).2 h'.1.symm, hmissing,
      hmismatch]
    exact ⟨rfl, rfl⟩

theorem ofRows_step (h : s.counters.OfRows .validate) {act : Act}
    (hs : step job fetchSize s act = some s') : s'.counters.OfRows .validate := by
  rcases (step_counts hs).1 with heq | ⟨kind, hkind, heq, -⟩
  · exact heq ▸ h
  · exact heq ▸ h.increment hkind 1

theorem step_of_workStep {act : Act} (hs : workStep job fetchSize s act = some s') :
    step job fetchSize s act = some s' := by
  unfold workStep at hs
  split at hs
  · simp at hs
  · simp at hs
  · exact hs

theorem countsRows : (job.rangeJob fetchSize).CountsRows .validate where
  init := .new .validate
  read s record s' h hs :=
    ofRows_step h (show step job fetchSize s (.nextRecord (.ok record)) = some s' from hs)
  step _ _ _ h hs := ofRows_step h (step_of_workStep hs)
  cancel _ h := h

/-- What the steps of a range keep, a call keeps. -/
theorem call_invariant {J : ValidateRange → Prop} {range : TokenRange} {records : List Record}
    {acts : List (RangeCall.Act Act)} {call : RangeCall ValidateRange Record}
    (h : (RangeCall.lts (job.rangeJob fetchSize) range).exec (.start (job.rangeJob fetchSize) records)
      acts = some call) (h₀ : J init)
    (hstep : ∀ s act s', J s → step job fetchSize s act = some s' → J s') : J call.job := by
  refine RangeCall.exec_invariant (J := fun s _ => J s) h (LTS.along_true _ _) h₀ ?_ ?_ ?_ ?_
  · exact fun s act s' _ hi hs => hstep s act s' hi (step_of_workStep hs)
  · exact fun s record s' _ hi hs => hstep s (.nextRecord (.ok (some record))) s' hi hs
  · exact fun s s' hi hs => hstep s (.nextRecord (.ok none)) s' hi hs
  · intro s _ hpolls _ hi
    refine hstep s.job .cancel _ hi ?_
    have hreading : s.job.phase = .reading := by
      simp only [ValidateJob.rangeJob] at hpolls
      cases hphase : s.job.phase <;> simp_all
    simp only [step, hreading]
    rfl

/-- Everything that is known of a range after a call. -/
theorem inv_of_call {range : TokenRange} {records : List Record} {acts : List (RangeCall.Act Act)}
    {call : RangeCall ValidateRange Record}
    (h : (RangeCall.lts (job.rangeJob fetchSize) range).exec (.start (job.rangeJob fetchSize) records)
      acts = some call) : (∃ lookups f, Inv job call.job lookups f) ∧ Judged call.job := by
  constructor
  · refine call_invariant (J := fun s => ∃ lookups f, Inv job s lookups f) h ?_ ?_
    · obtain ⟨f, hi⟩ := inv_of_exec (show (lts job fetchSize).exec init [] = some init from rfl)
      exact ⟨_, f, hi⟩
    · rintro s act s' ⟨lookups, f, hi⟩ hs
      exact ⟨_, step_inv hi act hs⟩
  · refine call_invariant h ⟨fun _ => ⟨rfl, rfl⟩, ?_⟩ fun _ _ _ hi hs => step_judged hi hs
    simp [init]

omit [LiteralParsers] [SerdeJson] in
theorem phase_of_result {verdict : RangeVerdict} (h : s.result = some (.verdict verdict)) :
    s.phase = .ended (.verdict verdict) := by
  unfold result at h
  split at h
  · next result hphase =>
    cases h
    exact hphase
  · simp at h

/-- When the lookups fit a counter, it holds what has been counted. -/
theorem Inv.toNat_countOf {classified : List Classified} {f : CounterKind → ℕ}
    (hi : Inv job s classified f) {kind : CounterKind} (hreg : kind.isRegisteredFor .validate = true)
    (hlt : f kind < 2 ^ 64) : (s.counters.countOf kind .interim).toNat = f kind :=
  hi.counts.toNat_countOf hi.registry hreg hlt

theorem Inv.lookups_eq {classified : List Classified} {f : CounterKind → ℕ}
    (hi : Inv job s classified f) (hfits : s.lookups < 2 ^ 64) :
    (s.counters.countOf .valid .interim).toNat + (s.counters.countOf .missing .interim).toNat +
      (s.counters.countOf .mismatch .interim).toNat = s.lookups := by
  have hclassified : _ = s.lookups := hi.classified
  rw [hi.toNat_countOf rfl (by omega), hi.toNat_countOf rfl (by omega),
    hi.toNat_countOf rfl (by omega)]
  exact hclassified

/-- When the lookups fit a counter, no more has been corrected than found. -/
theorem Inv.fixed_le_found {classified : List Classified} {f : CounterKind → ℕ}
    (hi : Inv job s classified f) (hfits : s.lookups < 2 ^ 64) :
    s.found = f .missing + f .mismatch ∧ s.fixed = f .correctedMissing + f .correctedMismatch ∧
      f .correctedMissing ≤ f .missing ∧ f .correctedMismatch ≤ f .mismatch ∧
      s.found ≤ s.lookups := by
  have hclassified : _ = s.lookups := hi.classified
  have hmissing := hi.correctedMissing
  have hmismatch := hi.correctedMismatch
  rw [found, fixed, hi.toNat_countOf rfl (by omega), hi.toNat_countOf rfl (by omega),
    hi.toNat_countOf rfl (by omega), hi.toNat_countOf rfl (by omega)]
  exact ⟨rfl, rfl, by omega, by omega, by omega⟩

/-- A range that completes is a `DIFF` exactly when it has found more than it has corrected. -/
theorem fixed_eq_found_iff {classified : List Classified} {f : CounterKind → ℕ}
    (hi : Inv job s classified f) (hjudged : Judged s) (hfits : s.lookups < 2 ^ 64)
    {verdict : RangeVerdict} (hended : s.phase = .ended (.verdict verdict)) :
    s.fixed = s.found ↔ verdict ≠ .diff := by
  obtain ⟨hfound, hfixed, hmissing, hmismatch, hle⟩ := hi.fixed_le_found hfits
  have hcount {kind : CounterKind} (hreg : kind.isRegisteredFor .validate = true) :
      s.counters.countOf kind .interim = .ofNat (f kind) :=
    hi.counts.interim kind (by rw [JobCounters.isRegistered, hi.registry]; exact hreg)
  have heq {a b : ℕ} (ha : a < 2 ^ 64) (hb : b < 2 ^ 64) : UInt64.ofNat a = .ofNat b ↔ a = b := by
    rw [← UInt64.toNat_inj, UInt64.toNat_ofNat_of_lt' ha, UInt64.toNat_ofNat_of_lt' hb]
  rw [hjudged.verdict verdict hended, ValidateJob.verdict]
  cases hclean : s.hadDiscrepancy with
  | false =>
    obtain ⟨hnone, hnone'⟩ := hjudged.clean hclean
    rw [found, hnone, hnone'] at hfound
    simp only [Bool.not_false, if_true]
    simp only [UInt64.toNat_zero, Nat.add_zero] at hfound
    rw [found, hnone, hnone']
    simp
    omega
  | true =>
    simp only [Bool.not_true, Bool.false_eq_true, if_false]
    split_ifs with hsame
    · rw [hcount rfl, hcount rfl, hcount rfl, hcount rfl, heq (by omega) (by omega),
        heq (by omega) (by omega)] at hsame
      simp
      omega
    · rw [hcount rfl, hcount rfl, hcount rfl, hcount rfl, heq (by omega) (by omega),
        heq (by omega) (by omega)] at hsame
      simp
      omega

end Steps

end ValidateRange

/-- The discrepancies that are shown: those found less those corrected. -/
theorem unrepaired_eq {report : SchedulerRun.Report} (hjob : report.counters.job = .validate)
    {f : CounterKind → ℕ}
    (h : ∀ kind : CounterKind, kind ∈ [.missing, .mismatch, .correctedMissing, .correctedMismatch] →
      report.counters.committed kind = .ofNat (f kind))
    (hfits : f .missing + f .mismatch < 2 ^ 64)
    (hle : f .correctedMissing + f .correctedMismatch ≤ f .missing + f .mismatch) :
    unrepaired report =
      .ofNat (f .missing + f .mismatch - (f .correctedMissing + f .correctedMismatch)) := by
  have hcount (kind : CounterKind) (hreg : kind.isRegisteredFor .validate = true) :
      ∃ counter, report.counters.counter kind = .ok counter ∧
        (report.counters.units counter.kind).get .committed = report.counters.committed kind := by
    simp [JobCounters.counter, JobCounters.committed, JobCounters.countOf, JobCounters.isRegistered,
      hjob, hreg]
  obtain ⟨missing, hmissing, ha⟩ := hcount .missing rfl
  obtain ⟨mismatch, hmismatch, hb⟩ := hcount .mismatch rfl
  obtain ⟨corrected, hcorrected, hc⟩ := hcount .correctedMissing rfl
  obtain ⟨corrected', hcorrected', hd⟩ := hcount .correctedMismatch rfl
  simp only [unrepaired, hmissing, hmismatch, hcorrected, hcorrected', ha, hb, hc, hd]
  rw [h _ (by simp), h _ (by simp), h _ (by simp), h _ (by simp), ← UInt64.ofNat_add,
    ← UInt64.ofNat_add, if_pos (ValidateRange.ofNat_le_ofNat hle hfits), ← UInt64.ofNat_sub hle]

section ValidatePlan

variable [LiteralParsers] [SerdeJson] {settings : SchedulerSettings} {plan : TokenPlan}
  {kind : JobKind} {job : ValidateJob} {fetchSize : ℕ} {records : TokenRange → List Record}
  {s : JobRun ValidateRange Record}

theorem ValidateRange.inv_of_mem
    (hi : s.Sound settings (fun _ => job.rangeJob fetchSize) records kind plan) :
    ∀ e ∈ s.ended, (∃ lookups f, Inv job e.2 lookups f) ∧ e.2.Judged := by
  intro e he
  obtain ⟨call, ⟨acts, hexec⟩, -, hjob, -⟩ := hi.courses e he
  exact hjob ▸ inv_of_call hexec

/-- What the report counts of the lookups is the sum over the ranges. -/
theorem ValidateRange.committed_report
    (hi : s.Sound settings (fun _ => job.rangeJob fetchSize) records .validate plan)
    (hj : s.run.Joined) (kind : CounterKind) (hreg : kind.isRegisteredFor .validate = true)
    (hrows : kind.isPartitionCounter = false) (herror : kind ≠ .error) :
    s.run.report.counters.committed kind =
      .ofNat (s.ended.map fun e => (e.2.counters.countOf kind .interim).toNat).sum := by
  refine hi.committed_rows (fun _ => countsRows) hj hreg hrows herror fun e he => ?_
  obtain ⟨⟨lookups, f, hf⟩, -⟩ := inv_of_mem hi e he
  refine ⟨fun kind => (e.2.counters.countOf kind .interim).toNat, ⟨fun _ _ => ?_, ?_⟩, rfl⟩
  · exact UInt64.ofNat_toNat.symm
  · exact hf.counts.committed

/-- Nothing is left to repair when every range has corrected what it has found. -/
theorem ValidateRange.unrepaired_eq_zero_iff
    (hi : s.Sound settings (fun _ => job.rangeJob fetchSize) records .validate plan)
    (hj : s.run.Joined) (hfits : (s.ended.map fun e => e.2.lookups).sum < 2 ^ 64) :
    unrepaired s.run.report = 0 ↔ ∀ e ∈ s.ended, e.2.fixed = e.2.found := by
  let total (kind : CounterKind) : ℕ :=
    (s.ended.map fun e => (e.2.counters.countOf kind .interim).toNat).sum
  have hfound : (s.ended.map fun e => e.2.found).sum = total .missing + total .mismatch :=
    sum_map_add ..
  have hfixed : (s.ended.map fun e => e.2.fixed).sum =
      total .correctedMissing + total .correctedMismatch := sum_map_add ..
  have hle : ∀ e ∈ s.ended, e.2.fixed ≤ e.2.found ∧ e.2.found ≤ e.2.lookups := by
    intro e he
    obtain ⟨⟨lookups, f, hf⟩, -⟩ := inv_of_mem hi e he
    have hfit := lt_of_le_of_lt (le_sum_of_mem (mem_map.2 ⟨e, he, rfl⟩)) hfits
    obtain ⟨hfound, hfixed, hmissing, hmismatch, hlookups⟩ := hf.fixed_le_found hfit
    exact ⟨by omega, hlookups⟩
  have hsums := sum_le_sum fun e he => (hle e he).1
  have hlookups := sum_le_sum fun e he => (hle e he).2
  have hkind : s.run.report.counters.job = .validate :=
    (job_report _).trans hi.reported.conserved.job_eq
  have hzero (n : ℕ) (hn : n < 2 ^ 64) : UInt64.ofNat n = 0 ↔ n = 0 := by
    rw [← UInt64.toNat_inj, UInt64.toNat_ofNat_of_lt' hn]
    rfl
  rw [unrepaired_eq hkind (f := total) (fun kind hkind => ?_) (by omega) (by omega), ← hfound,
    ← hfixed, hzero _ (by omega)]
  · refine ⟨fun h => Tally.forall_eq_of_sum_le (fun e he => (hle e he).1) (by omega), fun h => ?_⟩
    rw [map_congr_left h, Nat.sub_self]
  · have hcases : kind = .missing ∨ kind = .mismatch ∨ kind = .correctedMissing ∨
        kind = .correctedMismatch := by simpa using hkind
    rcases hcases with rfl | rfl | rfl | rfl
    · exact committed_report hi hj .missing rfl rfl (by decide)
    · exact committed_report hi hj .mismatch rfl rfl (by decide)
    · exact committed_report hi hj .correctedMissing rfl rfl (by decide)
    · exact committed_report hi hj .correctedMismatch rfl rfl (by decide)

/-- A range that succeeded is recorded as `PASS` or `DIFF_CORRECTED` when it has corrected what it
has found. -/
theorem ValidateRange.status_iff
    (hi : s.Sound settings (fun _ => job.rangeJob fetchSize) records .validate plan)
    (hj : s.run.Joined) (hfits : (s.ended.map fun e => e.2.lookups).sum < 2 ^ 64)
    (hall : s.run.report.AllSucceeded plan) {e : FinishedRange × ValidateRange} (he : e ∈ s.ended) :
    (e.1.outcome.status = .pass ∨ e.1.outcome.status = .diffCorrected) ↔ e.2.fixed = e.2.found := by
  obtain ⟨call, ⟨acts, hexec⟩, hjob, houtcome, hsucceeded, -⟩ := (hi.succeeded hj hall).2 e he
  obtain ⟨verdict, hresult, hfinished⟩ := RangeCall.finished_of_succeeded hexec houtcome hsucceeded
  obtain ⟨⟨lookups, f, hf⟩, hjudged⟩ := inv_of_mem hi e he
  have hfit := lt_of_le_of_lt (le_sum_of_mem (mem_map.2 ⟨e, he, rfl⟩)) hfits
  rw [hjob] at hresult
  rw [fixed_eq_found_iff hf hjudged hfit (phase_of_result hresult), hfinished]
  cases verdict <;> simp [processRange, RangeVerdict.status]

/-- **What a validate run that succeeds has done.** As long as the lookups fit a counter: in every
report `VALID`, `MISSING` and `MISMATCH` are together the lookups that were classified; a process
exits with success exactly when nothing stopped the run and every range of the plan is recorded as
`PASS` or `DIFF_CORRECTED`; and when every range has succeeded, whatever stopped the run then, every
record of the plan has been read, and skipped or classified. -/
theorem ValidateJob.validated_plan {hlen : plan.ranges.length ≤ isizeMax}
    {acts : List (JobRun.Act ValidateRange.Act)}
    (hrun : (JobRun.lts settings (fun _ => job.rangeJob fetchSize) records).exec
      (.init settings .validate plan hlen) acts = some s) (hj : s.run.Joined)
    (hfits : (s.ended.map fun e => e.2.lookups).sum < 2 ^ 64) (dryRun : Bool) :
    let count := s.run.report.counters.committed
    count .valid + count .missing + count .mismatch =
        .ofNat (s.ended.map fun e => e.2.lookups).sum ∧
      ((RunSummary.fromReport .validate s.run.report dryRun).exit = .success ↔
        s.Whole plan ∧ ∀ f ∈ s.run.report.outcomes,
          f.outcome.status = .pass ∨ f.outcome.status = .diffCorrected) ∧
      (s.run.report.AllSucceeded plan → count .read = .ofNat (plan.tokenRanges.flatMap records).length ∧
        ∀ e ∈ s.ended, ∀ row ∈ e.2.rows, row.isLost = false) := by
  intro count
  have hP : ∀ _ : TokenRange, (job.rangeJob fetchSize).CountsRows .validate :=
    fun _ => ValidateRange.countsRows
  have hi := JobRun.sound_of_exec hP hrun
  have hcount := ValidateRange.committed_report hi hj
  have hmem : ∀ f, f ∈ s.run.report.outcomes ↔ ∃ e ∈ s.ended, e.1 = f := by
    intro f
    rw [mem_outcomes_report, ← (hi.perm_outcomes hj).mem_iff, mem_map]
  refine ⟨?_, ?_, fun hall => ?_⟩
  · calc count .valid + count .missing + count .mismatch
        = .ofNat (s.ended.map fun e => (e.2.counters.countOf .valid .interim).toNat +
            (e.2.counters.countOf .missing .interim).toNat +
              (e.2.counters.countOf .mismatch .interim).toNat).sum := by
          rw [sum_map_add, sum_map_add, UInt64.ofNat_add, UInt64.ofNat_add]
          exact congrArg₂ _ (congrArg₂ _ (hcount .valid rfl rfl (by decide))
            (hcount .missing rfl rfl (by decide))) (hcount .mismatch rfl rfl (by decide))
      _ = .ofNat (s.ended.map fun e => e.2.lookups).sum := by
          refine congrArg UInt64.ofNat (congrArg List.sum (map_congr_left fun e he => ?_))
          obtain ⟨⟨lookups, f, hf⟩, -⟩ := ValidateRange.inv_of_mem hi e he
          exact hf.lookups_eq
            (lt_of_le_of_lt (le_sum_of_mem (mem_map.2 ⟨e, he, rfl⟩)) hfits)
  · rw [hi.reported.exit_success_iff hj, ValidateRange.unrepaired_eq_zero_iff hi hj hfits,
      ← and_assoc]
    refine and_congr_right fun hwhole => ?_
    constructor
    · intro h f hf
      obtain ⟨e, he, rfl⟩ := (hmem f).1 hf
      exact (ValidateRange.status_iff hi hj hfits hwhole.2 he).2 (h e he)
    · intro h e he
      exact (ValidateRange.status_iff hi hj hfits hwhole.2 he).1 (h e.1 ((hmem e.1).2 ⟨e, he, rfl⟩))
  · obtain ⟨hperm, hcalls⟩ := hi.succeeded hj hall
    have hrows : ∀ e ∈ s.ended, e.2.rows.length = (records e.1.outcome.range).length ∧
        ∀ row ∈ e.2.rows, row.isLost = false := by
      intro e he
      obtain ⟨call, ⟨acts, hexec⟩, hjob, -, hsucceeded, -⟩ := hcalls e he
      exact hjob ▸ (validate_whole hexec hsucceeded).2
    have hlength : (plan.tokenRanges.flatMap records).length =
        (s.ended.map fun e => e.2.rows.length).sum := by
      rw [length_flatMap, ← (hperm.map fun range => (records range).length).sum_eq,
        map_map]
      exact congrArg List.sum (map_congr_left fun e he => (hrows e he).1.symm)
    refine ⟨?_, fun e he => (hrows e he).2⟩
    rw [hlength]
    refine hi.committed_rows hP hj rfl rfl (by decide) fun e he => ?_
    obtain ⟨⟨lookups, f, hf⟩, -⟩ := ValidateRange.inv_of_mem hi e he
    exact ⟨f, hf.counts, hf.read⟩

end ValidatePlan

section Sample

attribute [local instance] LiteralParsers.rejecting SerdeJson.rejecting

namespace ValidateRange.Sample

/-- A job that corrects what is missing. -/
def correcting : ValidateJob := { job with settings := ⟨⟨true, false, false⟩, false⟩ }

/-- The range that starts at zero has a record with one map entry. -/
def recordsOf (range : TokenRange) : List Record :=
  if range.min = 0 then [record [(1, 5)]] else []

/-- One worker finds the entry missing and writes it, the other one ends the two empty ranges. -/
def runActs : List (JobRun.Act Act) :=
  [.run (.work 0), .run (.work 0), .run (.work 0), .run (.work 1), .run (.work 1), .run (.work 1),
    .call 0 .poll, .call 0 .read, .call 1 .poll, .call 0 (.work .filter), .call 0 (.work .explode),
    .call 1 .read, .call 0 (.work (.enqueue (.ok ()))), .call 1 (.work .drained), .call 1 .finish,
    .call 0 (.work .enqueued), .call 0 (.work (.compare (.ok none))),
    .call 0 (.work (.correct (.ok ()))), .call 0 (.work .drained), .call 0 .poll, .call 0 .read,
    .call 0 (.work .drained), .call 0 .finish, .run (.work 1), .run (.work 1), .run (.work 1),
    .run (.work 1), .run (.work 1), .run (.work 1), .call 1 .poll, .call 1 .read,
    .call 1 (.work .drained), .call 1 .finish, .run (.work 0), .run (.work 0), .run (.work 0),
    .run (.work 1), .run (.work 1), .run (.work 1), .run (.work 1), .run (.work 1), .run (.work 1),
    .run (.work 0), .run (.work 0), .run (.work 0)]

theorem validated_plan_corrected :
    ∃ s, (JobRun.lts pairSettings (fun _ => correcting.rangeJob 1) recordsOf).exec
        (.init pairSettings .validate killedPlan (by decide)) runActs =
          some s ∧
      (∃ f ∈ s.run.report.outcomes, f.outcome.status = .diffCorrected) ∧
      (RunSummary.fromReport .validate s.run.report false).exit = .success ∧
      s.run.report.counters.committed .read = 1 := by
  have hsome : ((JobRun.lts pairSettings (fun _ => correcting.rangeJob 1)
      recordsOf).exec
      (.init pairSettings .validate killedPlan (by decide)) runActs).any
      (fun s => s.run.Joined ∧ s.run.control.reason = none ∧
        (s.run.outcomes.map fun f => f.outcome.range).Perm killedPlan.tokenRanges ∧
        (s.run.outcomes.map fun f => f.outcome.status) = [.pass, .diffCorrected, .pass] ∧
        (∀ f ∈ s.run.outcomes, f.outcome.isSuccess = true) ∧
        (s.ended.map fun e => e.2.lookups).sum = 1) = true := by
    decide
  obtain ⟨s, hs, h⟩ := (Option.any_eq_true _ _).1 hsome
  obtain ⟨hj, hnone, hranges, hstatuses, hall, hlookups⟩ := of_decide_eq_true h
  have hwhole : s.Whole killedPlan := JobRun.whole_of_outcomes hnone hranges hall
  have hstatus : ∀ f ∈ s.run.report.outcomes,
      f.outcome.status = .pass ∨ f.outcome.status = .diffCorrected := by
    intro f hf
    have hmem := mem_map_of_mem (f := fun f : FinishedRange => f.outcome.status)
      (mem_outcomes_report.1 hf)
    rw [hstatuses] at hmem
    simp only [mem_cons, not_mem_nil, or_false] at hmem
    rcases hmem with hpass | hdiff | hpass
    · exact .inl hpass
    · exact .inr hdiff
    · exact .inl hpass
  have hcorrected : ∃ f ∈ s.run.outcomes, f.outcome.status = .diffCorrected := by
    refine mem_map.1 ?_
    rw [hstatuses]
    decide
  obtain ⟨f, hf, hdiff⟩ := hcorrected
  obtain ⟨-, hexit, hread⟩ := ValidateJob.validated_plan hs hj (by rw [hlookups]; decide) false
  exact ⟨s, hs, ⟨f, mem_outcomes_report.2 hf, hdiff⟩, hexit.2 ⟨hwhole, hstatus⟩,
    (hread hwhole.2).1.trans (by decide)⟩

end ValidateRange.Sample

end Sample

end Cdm
