import Cdm.Engine.Outcome
import Cdm.LTS.Basic
import Cdm.Track.Resume
import Cdm.Track.Store

/-!
# Chains of runs

A table is migrated by a chain of runs: the first one executes a plan, and each later one resumes
the run before it.  A run creates its range rows before anything is processed; workers then move
rows from `NOT_STARTED` to `STARTED` and on to the status of an outcome, in any order, and the run
may stop after any of these writes.  The next run reads the rows as they were left and executes
`planResume` over them.
-/

namespace Cdm

open List
open Std (TreeMap)

/-- The runs of a chain, the latest one apart. -/
structure Chain where
  latest : StoredRun
  earlier : List StoredRun

namespace Chain

/-- The moves of a chain. -/
inductive Act
  /-- A worker claims a range of the latest run and its row becomes `STARTED`. -/
  | start (range : TokenRange) (now : ℤ)
  /-- A worker records how a range it started has ended. -/
  | finish (range : TokenRange) (outcome : RangeEnd) (runInfo : String)
  /-- The run row of the latest run takes its final status. -/
  | close (status : RunStatus) (runInfo : String) (now : ℤ)
  /-- A new run resumes the latest one. -/
  | resume (multiplier : ℕ) (runId : RunId) (partitioner : Partitioner) (now : ℤ)

/-- All runs of the chain, the latest one first. -/
def runs (c : Chain) : List StoredRun := c.latest :: c.earlier

/-- The first run of a chain, which executes `plan`. -/
def first (run : RunRecord) (plan : TokenPlan) : Chain :=
  ⟨StoredRun.create run plan.tokenRanges, []⟩

/-- Applies a range write if the row of its range is in status `expected`. -/
def writeRange (c : Chain) (expected : RunStatus) (write : RangeRecord) : Option Chain :=
  match c.latest.ranges[write.range.min]? with
  | none => none
  | some row =>
    if row.range = write.range ∧ row.status = expected then
      some { c with latest := c.latest.updateRange write }
    else none

/-- The run that executes the plan of a resume. -/
def resumeRecord (previous : RunRecord) (runId : RunId) (now : ℤ) : RunRecord :=
  { previous with
    runId := runId
    previousRunId := some previous.runId
    startedAt := some now
    endedAt := none
    info := none }

/-- Resumes the latest run.  Nothing happens when planning fails, when there is nothing to resume,
or when the store refuses the run id. -/
def resume (c : Chain) (policy : RerunPolicy) (multiplier : ℕ) (runId : RunId)
    (partitioner : Partitioner) (now : ℤ) : Option Chain :=
  match planResume c.latest.info.runId (some c.latest.info) c.latest.rows policy multiplier runId with
  | .error _ => none
  | .ok resumePlan =>
    match resumePlan.tokenPlan runId partitioner with
    | .error _ => none
    | .ok plan =>
      if c.runs.any fun run => run.info.runId = runId then none
      else
        some ⟨StoredRun.create (resumeRecord c.latest.info runId now) plan.tokenRanges, c.runs⟩

/-- One move of the chain. -/
def step (policy : RerunPolicy) (c : Chain) : Act → Option Chain
  | .start range now => c.writeRange .notStarted (.startWrite range now)
  | .finish range outcome runInfo =>
    c.writeRange .started (.finishWrite range outcome.status runInfo)
  | .close status runInfo now =>
    if status = .ended ∨ status = .interrupted ∨ status = .aborted then
      some { c with latest := c.latest.updateRun status (some runInfo) now }
    else none
  | .resume multiplier runId partitioner now => c.resume policy multiplier runId partitioner now

/-- The chains under one rerun policy. -/
def lts (policy : RerunPolicy) : LTS Chain Act := ⟨step policy⟩

/-! ### What holds at every point -/

/-- A row of some run of the chain records the token as finished. -/
def Done (c : Chain) (t : ℤ) : Prop :=
  ∃ run ∈ c.runs, ∃ row ∈ run.rows,
    row.range.contains t = true ∧ (row.status = .pass ∨ row.status = .diffCorrected)

/-- The statuses a range row goes through. -/
def RowStatus (status : RunStatus) : Prop :=
  status.isPending = true ∨ status = .pass ∨ status = .diffCorrected

/-- What every point of a chain over the tokens of `plan` satisfies. -/
structure Inv (plan : List TokenRange) (c : Chain) : Prop where
  /-- The run row says that the run was started. -/
  runStarted : c.latest.info.status ≠ .notStarted
  /-- There are range rows. -/
  nonempty : ∃ k : ℤ, ∃ row, c.latest.ranges[k]? = some row
  /-- Two rows of the latest run share no token. -/
  apart : ∀ (k k' : ℤ) (row row' : RangeRecord), k ≠ k' → c.latest.ranges[k]? = some row →
    c.latest.ranges[k']? = some row' → ∀ t, row.range.Mem t → ¬ row'.range.Mem t
  /-- Rows only take the statuses of a range. -/
  status : ∀ (k : ℤ) (row : RangeRecord), c.latest.ranges[k]? = some row → RowStatus row.status
  /-- A token of the plan is done, or a row of the latest run still has it to do. -/
  safe : ∀ t, Cover.Covers TokenRange.Mem plan t →
    c.Done t ∨ ∃ k : ℤ, ∃ row, c.latest.ranges[k]? = some row ∧ row.range.Mem t ∧
      row.status.isPending = true

/-! ### Worker writes -/

theorem writeRange_eq_some {c c' : Chain} {expected : RunStatus} {w : RangeRecord}
    (h : c.writeRange expected w = some c') :
    ∃ row, c.latest.ranges[w.range.min]? = some row ∧ row.range = w.range ∧
      row.status = expected ∧ c' = { c with latest := c.latest.updateRange w } := by
  unfold writeRange at h
  split at h
  · cases h
  · rename_i row hrow
    split_ifs at h with hr
    cases h
    exact ⟨row, hrow, hr.1, hr.2, rfl⟩

/-- A row of the latest run after a write: it holds the tokens it held before, and it is either
untouched or the row that was written. -/
theorem row_of_updateRange {s : StoredRun} {w old row : RangeRecord} {k : ℤ}
    (hold : s.ranges[w.range.min]? = some old) (hrange : old.range = w.range)
    (h : (s.updateRange w).ranges[k]? = some row) :
    ∃ before, s.ranges[k]? = some before ∧ row.range = before.range ∧
      (k = w.range.min ∧ row.status = w.status ∨ row.status = before.status) := by
  rw [StoredRun.getElem?_updateRange] at h
  split_ifs at h with hk
  · subst hk
    cases h
    exact ⟨old, hold, by simp [hrange], .inl ⟨rfl, by simp⟩⟩
  · exact ⟨row, h, rfl, .inr rfl⟩

theorem Done.mono {c c' : Chain} {t : ℤ} (h : c.Done t)
    (hlatest : ∀ row ∈ c.latest.rows, row.status = .pass ∨ row.status = .diffCorrected →
      ∃ run ∈ c'.runs, row ∈ run.rows)
    (hearlier : ∀ run ∈ c.earlier, run ∈ c'.runs) : c'.Done t := by
  obtain ⟨run, hrun, row, hrow, ht, hst⟩ := h
  rcases mem_cons.1 hrun with rfl | hrun
  · obtain ⟨run', hrun', hrow'⟩ := hlatest row hrow hst
    exact ⟨run', hrun', row, hrow', ht, hst⟩
  · exact ⟨run, hearlier run hrun, row, hrow, ht, hst⟩

/-- A worker's write to a row that is not finished keeps the invariant. -/
theorem writeRange_inv {plan : List TokenRange} {c c' : Chain} {expected : RunStatus}
    {w : RangeRecord} (hi : Inv plan c) (h : c.writeRange expected w = some c')
    (hexp : expected.isPending = true) (hw : RowStatus w.status) : Inv plan c' := by
  obtain ⟨old, hold, hrange, hstatus, rfl⟩ := writeRange_eq_some h
  have hnew : (c.latest.updateRange w).ranges[w.range.min]? =
      some (StoredRun.mergeRow (some old) w) := by
    rw [StoredRun.getElem?_updateRange, if_pos rfl, hold]
  have hother : ∀ k : ℤ, k ≠ w.range.min →
      (c.latest.updateRange w).ranges[k]? = c.latest.ranges[k]? := by
    intro k hk
    rw [StoredRun.getElem?_updateRange, if_neg hk]
  refine ⟨hi.runStarted, ⟨_, _, hnew⟩, ?_, ?_, ?_⟩
  · intro k k' row row' hne hk hk' t hm hm'
    obtain ⟨b, hb, hbr, -⟩ := row_of_updateRange hold hrange hk
    obtain ⟨b', hb', hbr', -⟩ := row_of_updateRange hold hrange hk'
    exact hi.apart k k' b b' hne hb hb' t (hbr ▸ hm) (hbr' ▸ hm')
  · intro k row hk
    obtain ⟨b, hb, -, ⟨-, hs⟩ | hs⟩ := row_of_updateRange hold hrange hk
    · exact hs ▸ hw
    · exact hs ▸ hi.status k b hb
  · intro t ht
    rcases hi.safe t ht with hdone | ⟨k, row, hk, hm, hp⟩
    · -- the row written was pending, so no finished row is touched
      left
      refine hdone.mono ?_ fun run hrun => mem_cons_of_mem _ hrun
      intro row hrow hst
      obtain ⟨k, hk⟩ := StoredRun.mem_rows.1 hrow
      have hne : k ≠ w.range.min := by
        rintro rfl
        rw [hold] at hk
        cases hk
        rw [hstatus] at hst
        rcases hst with rfl | rfl <;> cases hexp
      exact ⟨_, mem_cons_self, StoredRun.mem_rows.2 ⟨k, (hother k hne).trans hk⟩⟩
    · by_cases hkw : k = w.range.min
      · subst hkw
        rw [hold] at hk
        cases hk
        have hmem : (StoredRun.mergeRow (some old) w).range.Mem t := by
          rw [StoredRun.mergeRow_range, ← hrange]
          exact hm
        rcases hw with hpend | hfin
        · exact .inr ⟨_, _, hnew, hmem, by simpa using hpend⟩
        · exact .inl ⟨_, mem_cons_self, _, StoredRun.mem_rows.2 ⟨_, hnew⟩, hmem,
            by simpa using hfin⟩
      · exact .inr ⟨k, row, (hother k hkw).trans hk, hm, hp⟩

/-! ### New runs -/

/-- A run created for ranges that share no token satisfies the invariant over any tokens that are
done or in one of the ranges. -/
theorem create_inv {plan : List TokenRange} {run : RunRecord} {ranges : List TokenRange}
    {earlier : List StoredRun} (hne : ranges ≠ []) (hapart : Cover.Apart TokenRange.Mem ranges)
    (hsafe : ∀ t, Cover.Covers TokenRange.Mem plan t →
      Done ⟨StoredRun.create run ranges, earlier⟩ t ∨ Cover.Covers TokenRange.Mem ranges t) :
    Inv plan ⟨StoredRun.create run ranges, earlier⟩ := by
  have hrow : ∀ r ∈ ranges,
      (StoredRun.create run ranges).ranges[r.min]? = some (StoredRun.plannedRow r) :=
    fun r hr => (StoredRun.getElem?_create hapart).2 ⟨r, hr, rfl, rfl⟩
  refine ⟨nofun, ?_, ?_, ?_, ?_⟩
  · obtain ⟨r, hr⟩ := exists_mem_of_ne_nil _ hne
    exact ⟨_, _, hrow r hr⟩
  · intro k k' row row' hkk hk hk' t hm hm'
    obtain ⟨r, hr, rfl, rfl⟩ := (StoredRun.getElem?_create hapart).1 hk
    obtain ⟨r', hr', rfl, rfl⟩ := (StoredRun.getElem?_create hapart).1 hk'
    exact hkk (congrArg TokenRange.min (hapart.eq_of_mem hr hr' hm hm'))
  · intro k row hk
    obtain ⟨r, -, -, rfl⟩ := (StoredRun.getElem?_create hapart).1 hk
    exact .inl rfl
  · intro t ht
    rcases hsafe t ht with hdone | ⟨r, hr, hm⟩
    · exact .inl hdone
    · exact .inr ⟨_, _, hrow r hr, hm, rfl⟩

theorem first_inv (run : RunRecord) {plan : TokenPlan}
    (h : Cover.Apart TokenRange.Mem plan.tokenRanges) :
    Inv plan.tokenRanges (first run plan) :=
  create_inv plan.tokenRanges_ne_nil h fun _ ht => .inr ht

section Resume

variable {policy : RerunPolicy} (hpolicy : policy.isCounterRestricted = false)

include hpolicy

theorem mem_pendingRanges {records : List RangeRecord} {r : TokenRange} :
    r ∈ pendingRanges policy records ↔
      ∃ row ∈ records, row.status.isPending = true ∧ row.range = r := by
  simp only [pendingRanges, RerunPolicy.disposition_of_unrestricted hpolicy, mem_map,
    mem_filter, decide_eq_true_eq]
  constructor
  · rintro ⟨row, ⟨hrow, hp⟩, rfl⟩
    refine ⟨row, hrow, ?_, rfl⟩
    by_contra hn
    simp [hn] at hp
  · rintro ⟨row, hrow, hp, rfl⟩
    exact ⟨row, ⟨hrow, by simp [hp]⟩, rfl⟩

omit hpolicy in
theorem pendingRanges_apart {plan : List TokenRange} {c : Chain} (hi : Inv plan c) :
    Cover.Apart TokenRange.Mem (pendingRanges policy c.latest.rows) := by
  have hrows : c.latest.rows.Pairwise fun a b => ∀ t, a.range.Mem t → ¬ b.range.Mem t :=
    Table.pairwise_rows hi.apart
  rw [pendingRanges, Cover.Apart, pairwise_map]
  exact hrows.filter _

/-- A resume keeps the invariant: its ranges hold exactly the tokens that were pending. -/
theorem resume_inv {plan : List TokenRange} {c c' : Chain} {multiplier : ℕ} {runId : RunId}
    {partitioner : Partitioner} {now : ℤ} (hi : Inv plan c)
    (h : c.resume policy multiplier runId partitioner now = some c') : Inv plan c' := by
  unfold resume at h
  split at h
  · cases h
  · rename_i resumePlan hresume
    split at h
    · cases h
    · rename_i tokenPlan htoken
      split_ifs at h
      cases h
      have hranges := ResumePlan.tokenRanges_of_tokenPlan htoken
      obtain ⟨f, hperm, hdiv⟩ :=
        planResume_ok hresume (ResumePlan.fallback_of_tokenPlan htoken)
      rw [← hranges] at hperm
      have hpending : Cover.Apart TokenRange.Mem (pendingRanges policy c.latest.rows) :=
        pendingRanges_apart hi
      refine create_inv tokenPlan.tokenRanges_ne_nil ((hpending.flatMap hdiv).perm hperm.symm) ?_
      intro t ht
      rcases hi.safe t ht with hdone | ⟨k, row, hk, hm, hp⟩
      · left
        refine hdone.mono (fun row hrow _ => ?_) fun run hrun => ?_
        · exact ⟨c.latest, mem_cons_of_mem _ mem_cons_self, hrow⟩
        · exact mem_cons_of_mem _ (mem_cons_of_mem _ hrun)
      · right
        have hcov : Cover.Covers TokenRange.Mem (pendingRanges policy c.latest.rows) t :=
          ⟨row.range, (mem_pendingRanges hpolicy).2
            ⟨row, StoredRun.mem_rows.2 ⟨k, hk⟩, hp, rfl⟩, hm⟩
        exact ((Cover.covers_flatMap hdiv).2 hcov).perm hperm.symm

/-! ### Whole chains -/

theorem step_inv {plan : List TokenRange} {c c' : Chain} {act : Act} (hi : Inv plan c)
    (h : step policy c act = some c') : Inv plan c' := by
  cases act with
  | start range now => exact writeRange_inv hi h rfl (.inl rfl)
  | finish range outcome runInfo =>
    refine writeRange_inv hi h rfl ?_
    cases outcome with
    | completed verdict =>
      cases verdict with
      | pass => exact .inr (.inl rfl)
      | diff => exact .inl rfl
      | diffCorrected => exact .inr (.inr rfl)
    | failed => exact .inl rfl
    | abandoned => exact .inl rfl
  | close status runInfo now =>
    simp only [step] at h
    split_ifs at h with hs
    cases h
    refine ⟨?_, hi.nonempty, hi.apart, hi.status, fun t ht => ?_⟩
    · rcases hs with rfl | rfl | rfl <;> exact nofun
    · rcases hi.safe t ht with hdone | hpend
      · left
        exact hdone.mono (fun row hrow _ => ⟨_, mem_cons_self, hrow⟩)
          fun run hrun => mem_cons_of_mem _ hrun
      · exact .inr hpend
  | resume multiplier runId partitioner now => exact resume_inv hpolicy hi h

/-- The invariant holds at every point of a chain. -/
theorem inv_of_reachable {run : RunRecord} {plan : TokenPlan} {c : Chain}
    (hplan : Cover.Apart TokenRange.Mem plan.tokenRanges)
    (h : (lts policy).Reachable (first run plan) c) : Inv plan.tokenRanges c :=
  h.invariant (first_inv run hplan) fun _ _ _ hi hs => step_inv hpolicy hi hs

/-- **No token is ever lost.** At every point of a chain, whatever the multipliers of its resumes
and wherever its runs stopped, every token of the plan is recorded as finished by some run, or lies
in exactly one range of the latest run that the next resume plans again.  The rows a resume is given
are never empty. -/
theorem token_done_or_pending {run : RunRecord} {plan : TokenPlan} {c : Chain}
    (hplan : plan.tokenRanges.Pairwise fun r s => r.intersects s = false)
    (h : (lts policy).Reachable (first run plan) c) :
    c.latest.rows ≠ [] ∧
      ∀ t, (∃ r ∈ plan.tokenRanges, r.contains t = true) →
        c.Done t ∨ ∃! row, row ∈ c.latest.rows ∧ row.range.contains t = true ∧
          policy.disposition (some row.status) = .rerun := by
  have hapart : Cover.Apart TokenRange.Mem plan.tokenRanges := by
    refine hplan.imp ?_
    intro r s hrs t hr hs
    have := TokenRange.intersects_iff_exists.2 ⟨t, hr, hs⟩
    rw [hrs] at this
    cases this
  have hi := inv_of_reachable hpolicy hapart h
  constructor
  · obtain ⟨k, row, hk⟩ := hi.nonempty
    exact Table.rows_ne_nil hk
  · intro t ht
    rcases hi.safe t ht with hdone | ⟨k, row, hk, hm, hp⟩
    · exact .inl hdone
    · right
      refine ⟨row, ⟨StoredRun.mem_rows.2 ⟨k, hk⟩, hm, ?_⟩, ?_⟩
      · rw [RerunPolicy.disposition_of_unrestricted hpolicy, if_pos hp]
      · rintro row' ⟨hrow', hm', -⟩
        obtain ⟨k', hk'⟩ := StoredRun.mem_rows.1 hrow'
        by_contra hne
        have hkk : k' ≠ k := by
          rintro rfl
          rw [hk] at hk'
          cases hk'
          exact hne rfl
        exact hi.apart k' k row' row hkk hk' hk t hm' hm

end Resume

/-! ### A chain of two runs -/

/-- A migration of `ks.t`. -/
def sampleRun : RunRecord :=
  ⟨⟨1⟩, none, ⟨"ks", "t"⟩, .migrate, .started, none, none, none⟩

/-- The tokens `1..10` and `11..20`. -/
def sampleRanges : List TokenRange :=
  [.checked 1 10 (.refl true), .checked 11 20 (.refl true)]

def samplePlan : TokenPlan where
  partitioner := .murmur3
  strategy := .fixed
  bounds := .checked 1 20 (.refl true)
  coveragePercent := 100
  runId := ⟨1⟩
  resumedFrom := none
  ranges := sampleRanges.map .unrouted
  ranges_ne_nil := by decide

/-- The first range passes, the second is interrupted, and a second run resumes it. -/
def sampleActs : List Act :=
  [.start (.checked 1 10 (.refl true)) 0,
    .finish (.checked 1 10 (.refl true)) (.completed .pass) "",
    .start (.checked 11 20 (.refl true)) 1,
    .close .interrupted "" 2,
    .resume 1 ⟨2⟩ .murmur3 3]

theorem token_done_or_pending_sample :
    ∃ c, (lts .idempotent).exec (first sampleRun samplePlan) sampleActs = some c ∧
      c.earlier.length = 1 ∧ c.latest.rows ≠ [] ∧
      ∀ t, (∃ r ∈ samplePlan.tokenRanges, r.contains t = true) →
        c.Done t ∨ ∃! row, row ∈ c.latest.rows ∧ row.range.contains t = true ∧
          RerunPolicy.idempotent.disposition (some row.status) = .rerun := by
  have hsome : ((lts .idempotent).exec (first sampleRun samplePlan) sampleActs).any
      (fun c => c.earlier.length == 1) = true := by decide
  obtain ⟨c, hc, hlen⟩ := (Option.any_eq_true _ _).1 hsome
  exact ⟨c, hc, by simpa using hlen,
    token_done_or_pending rfl (by decide) ⟨sampleActs, hc⟩⟩

end Chain

end Cdm
