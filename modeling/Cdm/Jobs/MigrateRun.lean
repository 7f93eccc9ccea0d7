import Cdm.Engine.JobRun
import Cdm.Jobs.WholeRange

/-!
# A migrate run

A row that has been read is skipped, is an error of its own, or is written; the counters of a range
are those of the fates of its rows.  A range that completes has settled all of them, so that a
process exits with success only when every row of the plan is accounted for.
-/

namespace Cdm

open List Option SchedulerRun

namespace MigrateCall

open MigrateRange (RowFate)

/-- The phase is about the row in hand. -/
def hasRow : MigrateRange.Phase → Bool
  | .processing _ | .writing _ | .counting _ | .flushing (some _) => true
  | _ => false

/-- The fates of the rows that were read. -/
def fatesOf (rows : List (Row × RowFate)) : List RowFate := rows.map Prod.snd

/-- The counters of a range, in terms of what became of its rows. -/
structure Counted (s : MigrateCall) (f : CounterKind → ℕ) : Prop where
  job : s.range.counters.job = .migrate
  counts : s.range.counters.Counts f
  read : f .read = (fatesOf s.rows).length
  skipped : f .skipped = (fatesOf s.rows).count .skipped
  failed : f .error = (fatesOf s.rows).count .failed
  reading : hasRow s.range.phase = true → ∃ row before, s.rows = (row, .reading) :: before

theorem fatesOf_flush (rows : List (Row × RowFate)) :
    fatesOf (rows.map fun row => (row.1, row.2.flush)) = (fatesOf rows).map RowFate.flush := by
  simp [fatesOf, Function.comp_def]

theorem count_flush {fate : RowFate} (h : fate = .skipped ∨ fate = .failed) (fates : List RowFate) :
    (fates.map RowFate.flush).count fate = fates.count fate := by
  induction fates with
  | nil => rfl
  | cons first rest ih =>
    rw [map_cons, count_cons, count_cons, ih]
    rcases h with rfl | rfl
    · cases first <;> rfl
    · cases first <;> rfl

/-- Each row has one fate. -/
theorem length_of_settled (fates : List RowFate) (h : ∀ fate ∈ fates, fate.isSettled = true) :
    fates.length = fates.count .written + fates.count .skipped + fates.count .failed := by
  induction fates with
  | nil => rfl
  | cons fate fates ih =>
    have hrest := ih fun fate hfate => h fate (mem_cons_of_mem _ hfate)
    have hfate := h fate mem_cons_self
    rw [length_cons, count_cons, count_cons, count_cons]
    cases fate <;> simp_all [RowFate.isSettled] <;> omega

section Steps

variable {s : MigrateCall} {f : CounterKind → ℕ}

/-- A step that counts nothing. -/
theorem Counted.move (hi : Counted s f) {rows : List (Except CdmError Row)} {buffer : WriteBuffer}
    {phase : MigrateRange.Phase} (h : hasRow phase = true → hasRow s.range.phase = true) :
    Counted ⟨⟨s.range.counters, rows, buffer, phase⟩, s.rows⟩ f :=
  ⟨hi.job, hi.counts, hi.read, hi.skipped, hi.failed, fun hphase => hi.reading (h hphase)⟩

/-- The row in hand is skipped or an error, or its writes have been issued. -/
theorem Counted.settle (hi : Counted s f) (hphase : hasRow s.range.phase = true)
    {counters : JobCounters} {f' : CounterKind → ℕ} {fate : RowFate}
    (hjob : counters.job = .migrate) (hcounts : counters.Counts f') (hread : f' .read = f .read)
    (hskipped : f' .skipped = f .skipped + if fate = .skipped then 1 else 0)
    (hfailed : f' .error = f .error + if fate = .failed then 1 else 0) :
    Counted ⟨{ s.range with counters, phase := .paging }, setLast fate s.rows⟩ f' := by
  obtain ⟨row, before, heq⟩ := hi.reading hphase
  have hlast : fatesOf (setLast fate s.rows) = fate :: fatesOf before := by rw [heq]; rfl
  have hbefore : fatesOf s.rows = .reading :: fatesOf before := by rw [heq]; rfl
  refine ⟨hjob, hcounts, ?_, ?_, ?_, by simp [hasRow]⟩
  · rw [hread, hi.read, hlast, hbefore]
    rfl
  · rw [hskipped, hi.skipped, hlast, hbefore, count_cons, count_cons]
    simp
  · rw [hfailed, hi.failed, hlast, hbefore, count_cons, count_cons]
    simp

variable [LiteralParsers] [SerdeJson] {migration : MigratePlan} {batching : MigrateSettings}
  {positions : List ℕ}

theorem Counted.nextPage (hi : Counted s f)
    {page : Except CdmError (Option (List (Except CdmError Row)))} {range : MigrateRange}
    (hs : MigrateRange.step migration batching positions s.range (.nextPage page) = some range) :
    Counted ⟨range, s.rows⟩ f := by
  simp only [MigrateRange.step] at hs
  split at hs
  · split at hs
    · cases hs
      exact hi.move (by simp [hasRow])
    · cases hs
      exact hi.move (by simp [hasRow])
    · cases hs
      exact hi
    · cases hs
      exact hi.move (by simp [hasRow])
  · simp at hs

theorem Counted.nextRow (hi : Counted s f) {range : MigrateRange}
    (hs : MigrateRange.step migration batching positions s.range .nextRow = some range) :
    ∃ f', Counted ⟨range, fates migration s.range s.rows .nextRow⟩ f' := by
  simp only [MigrateRange.step] at hs
  split at hs
  · next hpaging hrows =>
    cases hs
    simp only [fates, hpaging, hrows]
    exact ⟨f, hi.move (by simp [hasRow])⟩
  · next hpaging hrows =>
    cases hs
    simp only [fates, hpaging, hrows]
    exact ⟨f, hi.move (by simp [hasRow])⟩
  · next row rows hpaging hrows =>
    cases hs
    simp only [fates, hpaging, hrows]
    refine ⟨_, (JobCounters.job_incrementKind ..).trans hi.job, hi.counts.increment .read 1, ?_, ?_,
      ?_, fun _ => ⟨row, s.rows, rfl⟩⟩
    · simp [fatesOf, hi.read]
    · simp [fatesOf, hi.skipped]
    · simp [fatesOf, hi.failed]
  · simp at hs

theorem Counted.process (hi : Counted s f)
    {lookup : BoundWrite → Except CdmError (Option Row)} {range : MigrateRange}
    (hs : MigrateRange.step migration batching positions s.range (.process lookup) = some range) :
    ∃ f', Counted ⟨range, fates migration s.range s.rows (.process lookup)⟩ f' := by
  simp only [MigrateRange.step] at hs
  split at hs
  · next row hprocessing =>
    have hrow : hasRow s.range.phase = true := by rw [hprocessing]; rfl
    simp only [fates, hprocessing]
    split_ifs at hs with hskipped
    · cases hs
      rw [if_pos hskipped]
      exact ⟨_, hi.settle hrow ((JobCounters.job_incrementKind ..).trans hi.job)
        (hi.counts.increment .skipped 1) (by simp) (by simp) (by simp)⟩
    · cases hs
      rw [if_neg hskipped]
      exact ⟨f, hi.move fun _ => hrow⟩
  · simp at hs

theorem Counted.push (hi : Counted s f)
    {slot : WriteSlot} {written : Except CdmError Unit}
    {range : MigrateRange}
    (hs : MigrateRange.step migration batching positions s.range (.push slot written) = some range) :
    Counted ⟨range, s.rows⟩ f := by
  simp only [MigrateRange.step] at hs
  split at hs
  · next hwriting =>
    split at hs
    · cases hs
      exact hi.move (by simp [hasRow])
    · cases hs
      exact hi.move fun _ => by rw [hwriting]; rfl
  · simp at hs

theorem Counted.count (hi : Counted s f) {range : MigrateRange}
    (hs : MigrateRange.step migration batching positions s.range .count = some range) :
    ∃ f', Counted ⟨range, s.rows⟩ f' := by
  simp only [MigrateRange.step] at hs
  split at hs
  · next left hcounting =>
    cases hs
    refine ⟨_, (JobCounters.job_incrementKind ..).trans hi.job, hi.counts.increment .unflushed 1,
      ?_, ?_, ?_, fun _ => hi.reading (by rw [hcounting]; rfl)⟩
    · simpa using hi.read
    · simpa using hi.skipped
    · simpa using hi.failed
  · simp at hs

theorem Counted.flush (hi : Counted s f)
    {slot : WriteSlot} {results : List (Except CdmError Unit)}
    {range : MigrateRange}
    (hs : MigrateRange.step migration batching positions s.range (.flush slot results) = some range) :
    ∃ f', Counted ⟨range, fates migration s.range s.rows (.flush slot results)⟩ f' := by
  simp only [MigrateRange.step] at hs
  split at hs
  · next outcome hflushing =>
    simp only [fates, hflushing]
    rcases hdrain : s.range.buffer.drain slot results with - | drained
    · simp [hdrain] at hs
    · rw [hdrain] at hs
      rcases drained with e | written
      · cases hs
        exact ⟨f, hi.move (by simp [hasRow])⟩
      · cases hs
        refine ⟨_, (MigrateRange.job_credit _).trans hi.job,
          MigrateRange.counts_credit hi.job hi.counts, ?_, ?_, ?_, fun hphase => ?_⟩
        · simpa [fatesOf] using hi.read
        · simpa [fatesOf_flush, count_flush] using hi.skipped
        · simpa [fatesOf_flush, count_flush] using hi.failed
        · rcases outcome with - | outcome
          · simp [hasRow] at hphase
          · obtain ⟨row, before, heq⟩ := hi.reading (by rw [hflushing]; rfl)
            exact ⟨row, before.map fun row => (row.1, row.2.flush), by simp [heq, RowFate.flush]⟩
  · simp at hs

theorem Counted.settled (hi : Counted s f) {range : MigrateRange}
    (hs : MigrateRange.step migration batching positions s.range .settle = some range) :
    ∃ f', Counted ⟨range, fates migration s.range s.rows .settle⟩ f' := by
  simp only [MigrateRange.step] at hs
  split at hs
  · next hwriting =>
    cases hs
    simp only [fates, hwriting]
    exact ⟨f, hi.settle (by rw [hwriting]; rfl) hi.job hi.counts rfl (by simp) (by simp)⟩
  · next hwriting =>
    cases hs
    simp only [fates, hwriting]
    exact ⟨_, hi.settle (by rw [hwriting]; rfl) ((JobCounters.job_incrementKind ..).trans hi.job)
      (hi.counts.increment .error 1) (by simp) (by simp) (by simp)⟩
  · next hwriting =>
    cases hs
    simp only [fates, hwriting]
    exact ⟨f, hi.move (by simp [hasRow])⟩
  · simp at hs

/-- Each step counts what it does to the rows. -/
theorem Counted.step (hi : Counted s f) {act : MigrateRange.Act} {s' : MigrateCall}
    (hs : MigrateCall.step migration batching positions s act = some s') : ∃ f', Counted s' f' := by
  cases act with
  | nextPage page =>
    cases page with
    | ok page => simp [MigrateCall.step] at hs
    | error e =>
      obtain ⟨range, hrange, rfl⟩ := map_eq_some_iff.1 hs
      exact ⟨f, hi.nextPage hrange⟩
  | nextRow =>
    obtain ⟨range, hrange, rfl⟩ := map_eq_some_iff.1 hs
    exact hi.nextRow hrange
  | process lookup =>
    obtain ⟨range, hrange, rfl⟩ := map_eq_some_iff.1 hs
    exact hi.process hrange
  | push slot written =>
    obtain ⟨range, hrange, rfl⟩ := map_eq_some_iff.1 hs
    exact ⟨f, hi.push hrange⟩
  | count =>
    obtain ⟨range, hrange, rfl⟩ := map_eq_some_iff.1 hs
    exact hi.count hrange
  | flush slot results =>
    obtain ⟨range, hrange, rfl⟩ := map_eq_some_iff.1 hs
    exact hi.flush hrange
  | settle =>
    obtain ⟨range, hrange, rfl⟩ := map_eq_some_iff.1 hs
    exact hi.settled hrange
  | panic message =>
    obtain ⟨range, hrange, rfl⟩ := map_eq_some_iff.1 hs
    simp only [MigrateRange.step] at hrange
    split at hrange
    · simp at hrange
    · cases hrange
      exact ⟨f, hi.move (by simp [hasRow])⟩

end Steps

section Whole

variable [LiteralParsers] [SerdeJson] {migration : MigratePlan} {batching : MigrateSettings}
  {positions : List ℕ}

theorem ofRows_step {s s' : MigrateRange} {act : MigrateRange.Act}
    (h : s.counters.OfRows .migrate)
    (hs : MigrateRange.step migration batching positions s act = some s') :
    s'.counters.OfRows .migrate := by
  cases act with
  | nextPage page =>
    simp only [MigrateRange.step] at hs
    split at hs
    · split at hs <;> cases hs <;> exact h
    · simp at hs
  | nextRow =>
    simp only [MigrateRange.step] at hs
    split at hs
    · cases hs
      exact h
    · cases hs
      exact h
    · cases hs
      exact h.increment (by decide) 1
    · simp at hs
  | process lookup =>
    simp only [MigrateRange.step] at hs
    split at hs
    · split_ifs at hs
      · cases hs
        exact h.increment (by decide) 1
      · cases hs
        exact h
    · simp at hs
  | push slot written =>
    simp only [MigrateRange.step] at hs
    split at hs
    · split at hs <;> cases hs <;> exact h
    · simp at hs
  | count =>
    simp only [MigrateRange.step] at hs
    split at hs
    · cases hs
      exact h.increment (by decide) 1
    · simp at hs
  | flush slot results =>
    simp only [MigrateRange.step] at hs
    split at hs
    · split at hs
      · simp at hs
      · cases hs
        exact h
      · cases hs
        unfold MigrateRange.credit
        dsimp only
        split_ifs
        · exact (h.increment (by decide) _).reset (by decide)
        · exact h
    · simp at hs
  | settle =>
    simp only [MigrateRange.step] at hs
    split at hs
    · cases hs
      exact h
    · cases hs
      exact h.increment (by decide) 1
    · cases hs
      exact h
    · simp at hs
  | panic message =>
    simp only [MigrateRange.step] at hs
    split at hs
    · simp at hs
    · cases hs
      exact h

/-- A step of the call is one of the range. -/
theorem exists_step {s s' : MigrateCall} {act : MigrateRange.Act}
    (hs : MigrateCall.step migration batching positions s act = some s') :
    MigrateRange.step migration batching positions s.range act = some s'.range := by
  unfold MigrateCall.step at hs
  split at hs
  · simp at hs
  · obtain ⟨range, hrange, rfl⟩ := map_eq_some_iff.1 hs
    exact hrange

theorem countsRows (range : TokenRange) :
    (MigrateJob.rangeJob migration batching positions range).CountsRows .migrate where
  init := .new .migrate
  read s page s' h hs := by
    obtain ⟨next, hrange, rfl⟩ := map_eq_some_iff.1 hs
    exact ofRows_step h hrange
  step s act s' h hs := ofRows_step h (exists_step hs)
  cancel s h := h

variable {range : TokenRange} {pages : List (List (Except CdmError Row))}
  {s : RangeCall MigrateCall (List (Except CdmError Row))}
  {acts : List (RangeCall.Act MigrateRange.Act)}
  (h : (RangeCall.lts (MigrateJob.rangeJob migration batching positions range) range).exec
    (.start (MigrateJob.rangeJob migration batching positions range) pages) acts = some s)

include h

theorem counted_of_exec :
    ∃ f, Counted s.job f := by
  refine RangeCall.exec_invariant (J := fun job _ => ∃ f, Counted job f) h (LTS.along_true _ _)
    ?_ ?_ ?_ ?_ ?_
  · exact ⟨fun _ => 0, rfl, .new .migrate, rfl, rfl, rfl, by simp [MigrateJob.rangeJob, hasRow,
      MigrateRange.init]⟩
  · rintro s act s' - ⟨f, hi⟩ hs
    exact hi.step hs
  · rintro s page s' - ⟨f, hi⟩ hs
    obtain ⟨next, hrange, rfl⟩ := map_eq_some_iff.1 hs
    exact ⟨f, hi.nextPage hrange⟩
  · rintro s s' ⟨f, hi⟩ hs
    obtain ⟨next, hrange, rfl⟩ := map_eq_some_iff.1 hs
    exact ⟨f, hi.nextPage hrange⟩
  · rintro s - - - ⟨f, hi⟩
    exact ⟨f, hi.move (by simp [hasRow])⟩

/-- What a call does to its range is a course of the range. -/
theorem inv_of_exec (hexplode : migration.features.explode = none) :
    ∃ es f, MigrateRange.Inv s.job.range es f := by
  refine RangeCall.exec_invariant (J := fun job _ => ∃ es f, MigrateRange.Inv job.range es f) h
    (LTS.along_true _ _) ?_ ?_ ?_ ?_ ?_
  · exact ⟨[], fun _ => 0, rfl, .new .migrate, rfl, rfl, rfl, rfl, rfl, rfl⟩
  · rintro s act s' - ⟨es, f, hi⟩ hs
    exact ⟨_, MigrateRange.step_inv hexplode hi act (exists_step hs)⟩
  · rintro s page s' - ⟨es, f, hi⟩ hs
    obtain ⟨next, hrange, rfl⟩ := map_eq_some_iff.1 hs
    exact ⟨es, f, MigrateRange.nextPage_inv hi hrange⟩
  · rintro s s' ⟨es, f, hi⟩ hs
    obtain ⟨next, hrange, rfl⟩ := map_eq_some_iff.1 hs
    exact ⟨es, f, MigrateRange.nextPage_inv hi hrange⟩
  · rintro s - - - ⟨es, f, hi⟩
    exact ⟨es, f, hi.fail (by trivial)⟩

/-- What a call that succeeded is credited with. -/
theorem committed_of_succeeded {finished : FinishedRange} (houtcome : s.outcome = some finished)
    (hs : s.Succeeded) :
    finished.counters.committed .error = .ofNat ((fatesOf s.job.rows).count .failed) ∧
      (migration.features.explode = none →
        finished.counters.committed .write = .ofNat ((fatesOf s.job.rows).count .written)) := by
  obtain ⟨verdict, hresult, rfl⟩ := RangeCall.finished_of_succeeded h houtcome hs
  obtain ⟨f, hi⟩ := counted_of_exec h
  have hended : s.job.range.phase = .ended (.verdict verdict) := by
    change MigrateCall.result s.job = _ at hresult
    unfold MigrateCall.result at hresult
    split at hresult
    · next result hphase =>
      cases hresult
      exact hphase
    · simp at hresult
  have hcompleted : (RangeResult.verdict verdict).Completed := trivial
  have hcommitted (kind : CounterKind) (hreg : kind.isRegisteredFor .migrate = true)
      (hkind : kind ≠ .partitionsPassed) :=
    committed_processRange_verdict hi.counts range hcompleted
      (show s.job.range.counters.isRegistered kind = true from (hi.job ▸ hreg :)) hkind
  have hread := hcommitted .read rfl (by decide)
  have hskipped := hcommitted .skipped rfl (by decide)
  have hfailed := hcommitted .error rfl (by decide)
  rw [hi.failed] at hfailed
  refine ⟨hfailed, fun hexplode => ?_⟩
  obtain ⟨es, g, hinv⟩ := inv_of_exec h hexplode
  have haccounted := MigrateRange.accounted_of_completed hinv range hended hcompleted
  obtain ⟨-, hsettled⟩ := migrate_whole h hs
  have hlength := length_of_settled (fatesOf s.job.rows) fun fate hfate => by
    obtain ⟨row, hrow, rfl⟩ := mem_map.1 hfate
    exact hsettled row hrow
  rw [MigrateRange.Accounted, hread, hskipped, hfailed, hi.read, hi.skipped, hlength,
    UInt64.ofNat_add, UInt64.ofNat_add] at haccounted
  exact ((UInt64.add_left_inj _).1 ((UInt64.add_left_inj _).1 haccounted)).symm

end Whole

end MigrateCall

/-- **What a migrate run that succeeds has done.** In every report `READ` and `SKIPPED` are the
numbers of rows that were read and skipped.  A process exits with success exactly when nothing stopped
the run and every range of the plan succeeded; every row of the plan has then been read, and written,
skipped or counted under `ERROR`, and without an explode map `WRITE` is the number of rows written. -/
theorem MigrateJob.migrated_plan [LiteralParsers] [SerdeJson] {settings : SchedulerSettings}
    {plan : TokenPlan} {migration : MigratePlan} {batching : MigrateSettings} {positions : List ℕ}
    {pages : TokenRange → List (List (Except CdmError Row))}
    {s : JobRun MigrateCall (List (Except CdmError Row))} {hlen : plan.ranges.length ≤ isizeMax}
    {acts : List (JobRun.Act MigrateRange.Act)}
    (hrun : (JobRun.lts settings (MigrateJob.rangeJob migration batching positions) pages).exec
      (.init settings .migrate plan hlen) acts = some s) (hj : s.run.Joined) (dryRun : Bool) :
    let count := s.run.report.counters.committed
    let fates := s.ended.flatMap fun e => MigrateCall.fatesOf e.2.rows
    count .read = .ofNat fates.length ∧ count .skipped = .ofNat (fates.count .skipped) ∧
      ((RunSummary.fromReport .migrate s.run.report dryRun).exit = .success ↔ s.Whole plan) ∧
      (s.Whole plan →
        (s.ended.flatMap fun e => MigrateCall.readRows e.2.rows).Perm
            (plan.tokenRanges.flatMap fun range => (pages range).flatten) ∧
          (∀ fate ∈ fates, fate.isSettled = true) ∧
          count .error = .ofNat (fates.count .failed) ∧
          (migration.features.explode = none → count .write = .ofNat (fates.count .written))) := by
  intro count fates
  have hP : ∀ range, (MigrateJob.rangeJob migration batching positions range).CountsRows .migrate :=
    MigrateCall.countsRows
  have hi := JobRun.sound_of_exec hP hrun
  have hsum (fate : MigrateRange.RowFate) : fates.count fate =
      (s.ended.map fun e => (MigrateCall.fatesOf e.2.rows).count fate).sum := by
    rw [count_flatMap]
    rfl
  refine ⟨?_, ?_, ?_, fun hwhole => ?_⟩
  · rw [length_flatMap]
    refine hi.committed_rows hP hj rfl rfl (by decide) fun e he => ?_
    obtain ⟨call, ⟨acts, hexec⟩, -, hjob, -⟩ := hi.courses e he
    obtain ⟨f, hf⟩ := MigrateCall.counted_of_exec hexec
    exact hjob ▸ ⟨f, hf.counts, hf.read⟩
  · rw [hsum]
    refine hi.committed_rows hP hj rfl rfl (by decide) fun e he => ?_
    obtain ⟨call, ⟨acts, hexec⟩, -, hjob, -⟩ := hi.courses e he
    obtain ⟨f, hf⟩ := MigrateCall.counted_of_exec hexec
    exact hjob ▸ ⟨f, hf.counts, hf.skipped⟩
  · exact hi.exit_success_iff_whole hj rfl rfl .migrate dryRun
  · obtain ⟨hperm, hcalls⟩ := hi.whole hj hwhole
    have hread : (s.ended.flatMap fun e => MigrateCall.readRows e.2.rows) =
        (s.ended.map fun e => e.1.outcome.range).flatMap fun range => (pages range).flatten := by
      rw [flatMap_map]
      refine flatMap_congr fun e he => ?_
      obtain ⟨call, ⟨acts, hexec⟩, hjob, -, hsucceeded, -⟩ := hcalls e he
      exact hjob ▸ (migrate_whole hexec hsucceeded).1
    refine ⟨hread ▸ hperm.flatMap_right _, fun fate hfate => ?_, ?_, fun hexplode => ?_⟩
    · obtain ⟨e, he, hfate⟩ := mem_flatMap.1 hfate
      obtain ⟨row, hrow, rfl⟩ := mem_map.1 hfate
      obtain ⟨call, ⟨acts, hexec⟩, hjob, -, hsucceeded, -⟩ := hcalls e he
      rw [← hjob] at hrow
      exact (migrate_whole hexec hsucceeded).2 row hrow
    · rw [hsum]
      refine hi.committed_report hj fun e he => ?_
      obtain ⟨call, ⟨acts, hexec⟩, hjob, houtcome, hsucceeded, -⟩ := hcalls e he
      exact hjob ▸ (MigrateCall.committed_of_succeeded hexec houtcome hsucceeded).1
    · rw [hsum]
      refine hi.committed_report hj fun e he => ?_
      obtain ⟨call, ⟨acts, hexec⟩, hjob, houtcome, hsucceeded, -⟩ := hcalls e he
      exact hjob ▸ (MigrateCall.committed_of_succeeded hexec houtcome hsucceeded).2 hexplode

section Sample

attribute [local instance] LiteralParsers.rejecting SerdeJson.rejecting

namespace MigrateRange.Sample

open MigrateSample

/-- The range that starts at zero has a row with a key and one without. -/
def pagesOf (range : TokenRange) : List (List (Except CdmError Row)) :=
  if range.min = 0 then
    [[.ok ⟨[some [0, 0, 0, 7], some [0, 0, 0, 1]]⟩, .ok ⟨[some [0, 0, 0, 7], none]⟩]]
  else []

/-- One worker migrates the two rows, the other one ends the two empty ranges meanwhile. -/
def runActs : List (JobRun.Act Act) :=
  [.run (.work 0), .run (.work 0), .run (.work 0), .run (.work 1), .run (.work 1), .run (.work 1),
    .call 0 .poll, .call 0 .read, .call 1 .poll, .call 0 (.work .nextRow),
    .call 0 (.work (.process fun _ => .ok none)), .call 1 .read, .call 1 .finish,
    .call 0 (.work (.push (fun _ => .ok ()) (.ok ()))), .call 0 (.work .count),
    .call 0 (.work .settle), .run (.work 1), .run (.work 1), .run (.work 1), .run (.work 1),
    .run (.work 1), .run (.work 1), .call 0 (.work .nextRow),
    .call 0 (.work (.process fun _ => .ok none)), .call 0 (.work .settle), .call 1 .poll,
    .call 1 .read, .call 1 .finish, .call 0 (.work .nextRow),
    .call 0 (.work (.flush (fun _ => .ok ()) [.ok ()])), .call 0 .poll, .call 0 .read,
    .call 0 .finish, .run (.work 0), .run (.work 0), .run (.work 0), .run (.work 1), .run (.work 1),
    .run (.work 1), .run (.work 1), .run (.work 1), .run (.work 1), .run (.work 0), .run (.work 0),
    .run (.work 0)]

theorem migrated_plan_rejected :
    ∃ s, (JobRun.lts pairSettings (MigrateJob.rangeJob plan settings [0]) pagesOf).exec
        (.init pairSettings .migrate killedPlan (by decide)) runActs =
          some s ∧
      (RunSummary.fromReport .migrate s.run.report false).exit = .success ∧
      s.run.report.counters.committed .error = 1 ∧ s.run.report.counters.committed .write = 1 := by
  have hsome : ((JobRun.lts pairSettings (MigrateJob.rangeJob plan settings [0])
      pagesOf).exec
      (.init pairSettings .migrate killedPlan (by decide)) runActs).any
      (fun s => s.run.Joined ∧ s.run.control.reason = none ∧
        (s.run.outcomes.map fun f => f.outcome.range).Perm killedPlan.tokenRanges ∧
        (∀ f ∈ s.run.outcomes, f.outcome.isSuccess = true) ∧
        s.ended.flatMap (fun e => MigrateCall.fatesOf e.2.rows) = [.failed, .written]) = true := by
    decide
  obtain ⟨s, hs, h⟩ := (Option.any_eq_true _ _).1 hsome
  obtain ⟨hj, hnone, hranges, hall, hfates⟩ := of_decide_eq_true h
  have hwhole : s.Whole killedPlan := JobRun.whole_of_outcomes hnone hranges hall
  obtain ⟨-, -, hexit, hrows⟩ := MigrateJob.migrated_plan hs hj false
  obtain ⟨-, -, herror, hwrite⟩ := hrows hwhole
  rw [hfates] at herror hwrite
  exact ⟨s, hs, hexit.2 hwhole, herror, hwrite rfl⟩

end MigrateRange.Sample

end Sample

end Cdm
