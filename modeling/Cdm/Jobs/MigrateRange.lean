import Cdm.Engine.Accounting
import Cdm.Jobs.Migrate

/-!
# A migrate range, row by row

`MigrateJob::process` takes the rows of a range page by page.  A row is counted as read, processed
(`MigrateJob.processRow`), and what it writes is pushed into the page's write buffer, which keeps
writes in flight until it is flushed.  A write is counted as unflushed when it is issued, and credited
to `WRITE` when the flush that covers it has succeeded.

What the origin and the target answer is carried by the labels: the pages, the target row a counter
write is computed from, how the request for a write slot ended, and how the writes in flight ended.
An error for a slot means that the semaphore is closed; a request for a slot that waits is a run that
takes no further step, and `Cdm.Jobs.Delivery` says when one does.  A panic may happen between any two
steps.
-/

namespace Cdm

open Fallible

/-- How rows are grouped into a batch. -/
inductive BatchGrouping
  /-- One partition in a batch. -/
  | strict
  /-- In the order they are read. -/
  | legacy
  deriving DecidableEq, Repr

/-- The settings of a migrate job that the row loop reads. -/
structure MigrateSettings where
  batchSize : ℕ
  flushThreshold : ℕ
  grouping : BatchGrouping
  deriving DecidableEq, Repr

namespace MigrateSettings

/-- `flush_threshold`. -/
def flushThresholdFor (fetchSize batchSize : ℕ) : ℕ := min fetchSize (max (batchSize * 10) 100)

/-- Resolves the settings; counters and writetime filters are not batched. -/
def new (batchSize fetchSize : ℕ) (grouping : BatchGrouping) (counterTarget writetimeFilter : Bool) :
    MigrateSettings :=
  let effective := if counterTarget || writetimeFilter || batchSize < 1 then 1 else batchSize
  ⟨effective, flushThresholdFor fetchSize effective, grouping⟩

def isBatching (settings : MigrateSettings) : Bool := settings.batchSize > 1

/-- Whether this many unflushed writes are enough to flush. -/
def shouldFlush (settings : MigrateSettings) (unflushed : UInt64) : Bool :=
  unflushed.toNat ≥ settings.flushThreshold

end MigrateSettings

/-! ### The write buffer -/

/-- The writes that are sent together. -/
abbrev Request := List BoundWrite

/-- Whether a request gets a slot. -/
abbrev WriteSlot := Request → Except CdmError Unit

/-- The writes of one page: the batch that is being collected, and the requests in flight. -/
structure WriteBuffer where
  batch : Request := []
  inflight : List Request := []

namespace WriteBuffer

/-- Whether a write belongs to the partition of the batch. -/
def samePartition (positions : List ℕ) (buffer : WriteBuffer) (write : BoundWrite) : Bool :=
  match buffer.batch.getLast? with
  | none => true
  | some last => positions.all fun position =>
    match last[position]?, write[position]? with
    | some a, some b => a.bytes = b.bytes
    | _, _ => true

/-- `send_batch`; `slot` is how `write_slot` ends for a request. -/
def sendBatch {ε : Type} (slot : Request → Except ε Unit) (buffer : WriteBuffer) :
    Except ε WriteBuffer :=
  if buffer.batch.isEmpty then .ok buffer
  else do
    slot buffer.batch
    return { batch := [], inflight := buffer.inflight ++ [buffer.batch] }

/-- The positions that a buffer compares: none under `legacy` grouping. -/
def comparedPositions (settings : MigrateSettings) (partitionPositions : List ℕ) : List ℕ :=
  match settings.grouping with
  | .strict => partitionPositions
  | .legacy => []

/-- `push`, up to the counting. -/
def push {ε : Type} (settings : MigrateSettings) (partitionPositions : List ℕ)
    (slot : Request → Except ε Unit) (buffer : WriteBuffer)
    (write : BoundWrite) : Except ε WriteBuffer :=
  let positions := comparedPositions settings partitionPositions
  if settings.isBatching then do
    let buffer ←
      if !buffer.batch.isEmpty && !buffer.samePartition positions write then buffer.sendBatch slot
      else .ok buffer
    let buffer := { buffer with batch := buffer.batch ++ [write] }
    if buffer.batch.length ≥ settings.batchSize then buffer.sendBatch slot else .ok buffer
  else do
    slot [write]
    return { buffer with inflight := buffer.inflight ++ [[write]] }

/-- `flush`, up to the crediting: the batch is sent, and every request is awaited.  `results` are
their results in the order in which they complete; the first failure is reported. -/
def drain (slot : WriteSlot)
    (results : List (Except CdmError Unit)) (buffer : WriteBuffer) :
    Option (Except CdmError Unit) :=
  match buffer.sendBatch slot with
  | .error e => some (.error e)
  | .ok buffer =>
    if results.length = buffer.inflight.length then some (results.forM id) else none

end WriteBuffer

/-! ### The range -/

namespace MigrateRange

/-- Where a range is. -/
inductive Phase
  /-- Between two pages. -/
  | scanning
  /-- Between two rows of a page. -/
  | paging
  /-- The row has been counted as read. -/
  | processing (row : Row)
  /-- What is left of the row: the writes that are still to be pushed, and then its error. -/
  | writing (left : RowOutcome)
  /-- A write has been issued, and is about to be counted. -/
  | counting (left : RowOutcome)
  /-- The buffer is being flushed, in the middle of a row or at the end of a page. -/
  | flushing (left : Option RowOutcome)
  | ended (result : RangeResult)

end MigrateRange

/-- The counters of a range, the rows left of its page, the page's buffer, and where the range is. -/
structure MigrateRange where
  counters : JobCounters
  rows : List (Except CdmError Row)
  buffer : WriteBuffer
  phase : MigrateRange.Phase

namespace MigrateRange

/-- The steps of a range, with what the clusters answer. -/
inductive Act
  /-- The next page: none at the end of the range, an error also when the run is shutting down. -/
  | nextPage (page : Except CdmError (Option (List (Except CdmError Row))))
  | nextRow
  /-- The target rows are looked up by `lookup`. -/
  | process (lookup : BoundWrite → Except CdmError (Option Row))
  /-- A write is issued; a counter write has then ended as `written`. -/
  | push (slot : WriteSlot) (written : Except CdmError Unit)
  | count
  | flush (slot : WriteSlot) (results : List (Except CdmError Unit))
  | settle
  | panic (message : String)

/-- A range that is about to be scanned. -/
def init : MigrateRange := ⟨.new .migrate, [], {}, .scanning⟩

/-- `WRITE` is credited with the unflushed writes. -/
def credit (c : JobCounters) : JobCounters :=
  let unflushed := c.countOf .unflushed .interim
  if unflushed > 0 then (c.incrementKind .write unflushed).reset .unflushed else c

section

variable [LiteralParsers] [SerdeJson] (plan : MigratePlan) (settings : MigrateSettings)
  (partitionPositions : List ℕ)

/-- One step. -/
def step (s : MigrateRange) : Act → Option MigrateRange
  | .nextPage page =>
    match s.phase with
    | .scanning =>
      match page with
      | .error e => some { s with phase := .ended (.error e) }
      | .ok none => some { s with phase := .ended (.verdict .pass) }
      | .ok (some []) => some s
      | .ok (some rows) => some { s with rows, buffer := {}, phase := .paging }
    | _ => none
  | .nextRow =>
    match s.phase, s.rows with
    | .paging, [] => some { s with phase := .flushing none }
    | .paging, .error e :: _ => some { s with phase := .ended (.error e) }
    | .paging, .ok row :: rows =>
      some { s with counters := s.counters.incrementKind .read 1, rows, phase := .processing row }
    | _, _ => none
  | .process lookup =>
    match s.phase with
    | .processing row =>
      let outcome := MigrateJob.processRow plan lookup row
      if outcome.skipped then
        some { s with counters := s.counters.incrementKind .skipped 1, phase := .paging }
      else some { s with phase := .writing outcome }
    | _ => none
  | .push slot written =>
    match s.phase with
    | .writing ⟨write :: pushed, skipped, error⟩ =>
      let issued :=
        if plan.isCounterRun then written.map fun _ => s.buffer
        else s.buffer.push settings partitionPositions slot write
      match issued with
      | .error e => some { s with phase := .ended (.error e) }
      | .ok buffer => some { s with buffer, phase := .counting ⟨pushed, skipped, error⟩ }
    | _ => none
  | .count =>
    match s.phase with
    | .counting left =>
      let counters := s.counters.incrementKind .unflushed 1
      let phase :=
        if settings.shouldFlush (counters.countOf .unflushed .interim) then .flushing (some left)
        else .writing left
      some { s with counters, phase }
    | _ => none
  | .flush slot results =>
    match s.phase with
    | .flushing left =>
      match s.buffer.drain slot results with
      | none => none
      | some (.error e) => some { s with phase := .ended (.error e) }
      | some (.ok _) =>
        some { s with
          counters := credit s.counters
          buffer := {}
          phase := left.elim .scanning .writing }
    | _ => none
  | .settle =>
    match s.phase with
    | .writing ⟨[], _, none⟩ => some { s with phase := .paging }
    | .writing ⟨[], _, some (.record _)⟩ =>
      some { s with counters := s.counters.incrementKind .error 1, phase := .paging }
    | .writing ⟨[], _, some (.range e)⟩ => some { s with phase := .ended (.error e) }
    | _ => none
  | .panic message =>
    match s.phase with
    | .ended _ => none
    | _ => some { s with phase := .ended (.panic message) }

/-- The steps of a range. -/
def lts : LTS MigrateRange Act := ⟨step plan settings partitionPositions⟩

end

/-! ### What is counted -/

/-- Something that happened to a row. -/
inductive Event
  | read
  | skipped
  /-- A write was issued. -/
  | issued
  /-- A record-level error. -/
  | failed
  deriving DecidableEq, Repr

/-- What a step counts. -/
def event [LiteralParsers] [SerdeJson] (plan : MigratePlan) (s : MigrateRange) : Act → Option Event
  | .nextRow =>
    match s.phase, s.rows with
    | .paging, .ok _ :: _ => some .read
    | _, _ => none
  | .process lookup =>
    match s.phase with
    | .processing row => if (MigrateJob.processRow plan lookup row).skipped then some .skipped else none
    | _ => none
  | .count =>
    match s.phase with
    | .counting _ => some .issued
    | _ => none
  | .settle =>
    match s.phase with
    | .writing ⟨[], _, some (.record _)⟩ => some .failed
    | _ => none
  | _ => none

/-! ### One write a row -/

/-- A row that makes one write has pushed it, or has failed. -/
theorem writeAll_single {plan : MigratePlan}
    (lookup : BoundWrite → Except CdmError (Option Row)) (row : Row) (inputs : BindInputs) :
    (∃ write, (MigrateJob.writeAll plan lookup row [inputs]).pushed = [write] ∧
      (MigrateJob.writeAll plan lookup row [inputs]).error = none) ∨
    (MigrateJob.writeAll plan lookup row [inputs]).pushed = [] ∧
      (MigrateJob.writeAll plan lookup row [inputs]).error.isSome = true := by
  unfold MigrateJob.writeAll runAll runAll
  cases MigrateJob.writeRow plan lookup row inputs with
  | ok write => exact .inl ⟨write, rfl, rfl⟩
  | error e => exact .inr ⟨rfl, rfl⟩

section Single

variable [LiteralParsers] [SerdeJson] {plan : MigratePlan}

theorem entries_of_classify {features : MigrateFeatures} (hexplode : features.explode = none)
    {record : Record} {inputs : RowInputs}
    (h : MigrateJob.classify features record = .ok (.write inputs)) : inputs.entries = none := by
  obtain ⟨accepted, -, h⟩ := bind_eq_ok.1 h
  cases accepted with
  | false => cases h
  | true =>
    obtain ⟨ttl, -, h⟩ := bind_eq_ok.1 h
    obtain ⟨writetime, -, h⟩ := bind_eq_ok.1 h
    obtain ⟨extracted, -, h⟩ := bind_eq_ok.1 h
    obtain ⟨entries, hentries, h⟩ := bind_eq_ok.1 h
    rw [MigrateJob.entries, hexplode] at hentries
    cases hentries
    cases h
    rfl

/-- Without an explode map a row that is not skipped makes one write, or fails before it. -/
theorem processRow_single (hexplode : plan.features.explode = none)
    (lookup : BoundWrite → Except CdmError (Option Row)) (row : Row)
    (hskipped : (MigrateJob.processRow plan lookup row).skipped = false) :
    (∃ write, (MigrateJob.processRow plan lookup row).pushed = [write] ∧
      (MigrateJob.processRow plan lookup row).error = none) ∨
    (MigrateJob.processRow plan lookup row).pushed = [] ∧
      (MigrateJob.processRow plan lookup row).error.isSome = true := by
  unfold MigrateJob.processRow at hskipped ⊢
  by_cases hneeds : plan.needsRecord
  · simp only [hneeds, Bool.not_true, Bool.false_eq_true, if_false] at hskipped ⊢
    cases hclassify : MigrateJob.classify plan.features
        (MigrateJob.materialise row plan.projectionWidth plan.originKeyIndices) with
    | error e => exact .inr ⟨rfl, rfl⟩
    | ok decision =>
      cases decision with
      | skipped =>
        rw [hclassify] at hskipped
        cases hskipped
      | write inputs =>
        simp only [MigrateJob.bindInputs, entries_of_classify hexplode hclassify]
        exact writeAll_single ..
  · simp only [hneeds, Bool.not_false, if_true]
    exact writeAll_single ..

end Single

/-! ### The invariant -/

/-- Of the rows read, all but `n` were skipped, failed or written. -/
def Tally (es : List Event) (n : ℕ) : Prop :=
  es.count .read = es.count .skipped + es.count .failed + es.count .issued + n

/-- Where the rows read so far are, when `unflushed` writes are. -/
def InPhase (es : List Event) (unflushed : ℕ) : Phase → Prop
  | .scanning => Tally es 0 ∧ unflushed = 0
  | .paging => Tally es 0
  | .processing _ => Tally es 1
  | .writing left =>
    (∃ write, left.pushed = [write] ∧ left.error = none) ∧ Tally es 1 ∨
      left.pushed = [] ∧ left.error.isSome = true ∧ Tally es 1 ∨
      left.pushed = [] ∧ left.error = none ∧ Tally es 0
  | .counting left => left.pushed = [] ∧ left.error = none ∧ Tally es 1
  | .flushing left => (∀ outcome ∈ left, outcome.pushed = [] ∧ outcome.error = none) ∧ Tally es 0
  | .ended result => (result.Completed → Tally es 0 ∧ unflushed = 0) ∧ ∃ n, Tally es n

/-- The counters of a range, and where its rows are. -/
structure Inv (s : MigrateRange) (es : List Event) (f : CounterKind → ℕ) : Prop where
  job : s.counters.job = .migrate
  counts : s.counters.Counts f
  read : f .read = es.count .read
  skipped : f .skipped = es.count .skipped
  failed : f .error = es.count .failed
  issued : f .write + f .unflushed = es.count .issued
  phase : InPhase es (f .unflushed) s.phase

theorem InPhase.tally {es : List Event} {unflushed : ℕ} {phase : Phase}
    (h : InPhase es unflushed phase) : ∃ n, Tally es n := by
  cases phase with
  | scanning => exact ⟨0, h.1⟩
  | paging => exact ⟨0, h⟩
  | processing row => exact ⟨1, h⟩
  | writing left =>
    rcases h with ⟨-, h⟩ | ⟨-, -, h⟩ | ⟨-, -, h⟩
    · exact ⟨1, h⟩
    · exact ⟨1, h⟩
    · exact ⟨0, h⟩
  | counting left => exact ⟨1, h.2.2⟩
  | flushing left => exact ⟨0, h.2⟩
  | ended result => exact h.2

variable {s s' : MigrateRange} {es : List Event} {f : CounterKind → ℕ}

/-- A step that counts nothing. -/
theorem Inv.move (hi : Inv s es f) {rows : List (Except CdmError Row)} {buffer : WriteBuffer}
    {phase : Phase} (h : InPhase es (f .unflushed) phase) :
    Inv ⟨s.counters, rows, buffer, phase⟩ es f :=
  ⟨hi.job, hi.counts, hi.read, hi.skipped, hi.failed, hi.issued, h⟩

/-- A range fails in any phase. -/
theorem Inv.fail (hi : Inv s es f) {rows : List (Except CdmError Row)} {buffer : WriteBuffer}
    {result : RangeResult} (hresult : result.Failed) :
    Inv ⟨s.counters, rows, buffer, .ended result⟩ es f := by
  refine hi.move ⟨fun hcompleted => ?_, hi.phase.tally⟩
  cases result with
  | verdict verdict => exact hresult.elim
  | error error => exact hcompleted.elim
  | panic message => exact hcompleted.elim
  | killed => exact hcompleted.elim

/-- A step that counts one thing. -/
theorem Inv.increment (hi : Inv s es f) (kind : CounterKind) (e : Event)
    {rows : List (Except CdmError Row)} {buffer : WriteBuffer} {phase : Phase}
    (hkind : kind = .read ∧ e = .read ∨ kind = .skipped ∧ e = .skipped ∨
      kind = .error ∧ e = .failed ∨ kind = .unflushed ∧ e = .issued)
    (h : InPhase (es ++ [e]) (Function.update f kind (f kind + 1) .unflushed) phase) :
    Inv ⟨s.counters.incrementKind kind 1, rows, buffer, phase⟩ (es ++ [e])
      (Function.update f kind (f kind + 1)) := by
  have hread := hi.read
  have hskipped := hi.skipped
  have hfailed := hi.failed
  have hissued := hi.issued
  rcases hkind with ⟨rfl, rfl⟩ | ⟨rfl, rfl⟩ | ⟨rfl, rfl⟩ | ⟨rfl, rfl⟩ <;>
    exact ⟨by simpa using hi.job, hi.counts.increment _ 1, by simp [hread], by simp [hskipped],
      by simp [hfailed], by simp; omega, h⟩

/-- The unflushed writes are credited. -/
theorem counts_credit {c : JobCounters} (hjob : c.job = .migrate) (h : c.Counts f) :
    (credit c).Counts (Function.update (Function.update f .write (f .write + f .unflushed))
      .unflushed 0) := by
  have hunflushed := h.interim .unflushed (by rw [JobCounters.isRegistered, hjob]; rfl)
  unfold credit
  rw [hunflushed]
  dsimp only
  split_ifs with hpos
  · exact (h.increment .write (f .unflushed)).reset .unflushed
  · have hzero : UInt64.ofNat (f .unflushed) = 0 :=
      UInt64.toNat_inj.1 (Nat.eq_zero_of_not_pos hpos)
    refine ⟨fun kind hreg => ?_, h.committed⟩
    rw [h.interim kind hreg]
    by_cases hkind : kind = .unflushed
    · subst hkind
      simp [hzero]
    · by_cases hwrite : kind = .write
      · subst hwrite
        simp [UInt64.ofNat_add, hzero]
      · simp [hkind, hwrite]

theorem job_credit (c : JobCounters) : (credit c).job = c.job := by
  unfold credit
  dsimp only
  split_ifs
  · rw [JobCounters.job_reset, JobCounters.job_incrementKind]
  · rfl

theorem Inv.credit (hi : Inv s es f) {rows : List (Except CdmError Row)} {buffer : WriteBuffer}
    {phase : Phase} (h : InPhase es 0 phase) :
    Inv ⟨MigrateRange.credit s.counters, rows, buffer, phase⟩ es
      (Function.update (Function.update f .write (f .write + f .unflushed)) .unflushed 0) :=
  ⟨(job_credit _).trans hi.job, counts_credit hi.job hi.counts, by simpa using hi.read,
    by simpa using hi.skipped, by simpa using hi.failed, by simpa using hi.issued, by simpa using h⟩

section Steps

variable [LiteralParsers] [SerdeJson] {plan : MigratePlan} {settings : MigrateSettings}
  {partitionPositions : List ℕ}

theorem nextPage_inv (hi : Inv s es f) {page : Except CdmError (Option (List (Except CdmError Row)))}
    (hs : step plan settings partitionPositions s (.nextPage page) = some s') : Inv s' es f := by
  have hphase := hi.phase
  simp only [step] at hs
  split at hs
  · rename_i hscanning
    rw [hscanning] at hphase
    split at hs
    · cases hs
      exact hi.fail trivial
    · cases hs
      exact hi.move ⟨fun _ => hphase, 0, hphase.1⟩
    · cases hs
      exact hi
    · cases hs
      exact hi.move hphase.1
  · cases hs

theorem nextRow_inv (hi : Inv s es f)
    (hs : step plan settings partitionPositions s .nextRow = some s') :
    ∃ f', Inv s' (es ++ (event plan s .nextRow).toList) f' := by
  have hphase := hi.phase
  simp only [step] at hs
  split at hs
  · rename_i hpaging hrows
    rw [hpaging] at hphase
    cases hs
    rw [event, hpaging, hrows]
    simp only [Option.toList_none, List.append_nil]
    exact ⟨f, hi.move ⟨by simp, hphase⟩⟩
  · rename_i e rows hpaging hrows
    cases hs
    rw [event, hpaging, hrows]
    simp only [Option.toList_none, List.append_nil]
    exact ⟨f, hi.fail trivial⟩
  · rename_i row rows hpaging hrows
    rw [hpaging] at hphase
    cases hs
    rw [event, hpaging, hrows]
    refine ⟨_, hi.increment .read .read (.inl ⟨rfl, rfl⟩) ?_⟩
    have htally : Tally es 0 := hphase
    simp only [InPhase, Tally, List.count_append] at htally ⊢
    simp
    omega
  · cases hs

theorem process_inv (hexplode : plan.features.explode = none) (hi : Inv s es f)
    {lookup : BoundWrite → Except CdmError (Option Row)}
    (hs : step plan settings partitionPositions s (.process lookup) = some s') :
    ∃ f', Inv s' (es ++ (event plan s (.process lookup)).toList) f' := by
  have hphase := hi.phase
  simp only [step] at hs
  split at hs
  · rename_i row hprocessing
    rw [hprocessing] at hphase
    rw [event, hprocessing]
    have htally : Tally es 1 := hphase
    split_ifs at hs with hskipped
    · cases hs
      simp only [hskipped, if_true]
      refine ⟨_, hi.increment .skipped .skipped (.inr (.inl ⟨rfl, rfl⟩)) ?_⟩
      simp only [InPhase, Tally, List.count_append] at htally ⊢
      simp
      omega
    · cases hs
      simp only [hskipped, Bool.false_eq_true, if_false, Option.toList_none, List.append_nil]
      refine ⟨f, hi.move ?_⟩
      rcases processRow_single hexplode lookup row (by simpa using hskipped) with hpushed | hfailed
      · exact .inl ⟨hpushed, htally⟩
      · exact .inr (.inl ⟨hfailed.1, hfailed.2, htally⟩)
  · cases hs

theorem push_inv (hi : Inv s es f) {slot : WriteSlot}
    {written : Except CdmError Unit}
    (hs : step plan settings partitionPositions s (.push slot written) = some s') :
    Inv s' es f := by
  have hphase := hi.phase
  simp only [step] at hs
  split at hs
  · rename_i write pushed skipped error hwriting
    rw [hwriting] at hphase
    split at hs
    · cases hs
      exact hi.fail trivial
    · cases hs
      rcases hphase with ⟨⟨_, hpushed, herror⟩, htally⟩ | ⟨hpushed, -⟩ | ⟨hpushed, -⟩
      · exact hi.move ⟨(List.cons.inj hpushed).2, herror, htally⟩
      · cases hpushed
      · cases hpushed
  · cases hs

theorem count_inv (hi : Inv s es f)
    (hs : step plan settings partitionPositions s .count = some s') :
    ∃ f', Inv s' (es ++ (event plan s .count).toList) f' := by
  have hphase := hi.phase
  simp only [step] at hs
  split at hs
  · rename_i left hcounting
    rw [hcounting] at hphase
    obtain ⟨hpushed, herror, htally⟩ := hphase
    rw [event, hcounting]
    cases hs
    have htally' : Tally (es ++ [Event.issued]) 0 := by
      simp only [Tally, List.count_append] at htally ⊢
      simp
      omega
    refine ⟨_, hi.increment .unflushed .issued (.inr (.inr (.inr ⟨rfl, rfl⟩))) ?_⟩
    split_ifs
    · refine ⟨fun outcome houtcome => ?_, htally'⟩
      cases houtcome
      exact ⟨hpushed, herror⟩
    · exact .inr (.inr ⟨hpushed, herror, htally'⟩)
  · cases hs

theorem flush_inv (hi : Inv s es f) {slot : WriteSlot}
    {results : List (Except CdmError Unit)}
    (hs : step plan settings partitionPositions s (.flush slot results) = some s') :
    ∃ f', Inv s' es f' := by
  have hphase := hi.phase
  simp only [step] at hs
  split at hs
  · rename_i left hflushing
    rw [hflushing] at hphase
    obtain ⟨hleft, htally⟩ := hphase
    split at hs
    · cases hs
    · cases hs
      exact ⟨f, hi.fail trivial⟩
    · cases hs
      refine ⟨_, hi.credit ?_⟩
      cases left with
      | none => exact ⟨htally, rfl⟩
      | some outcome =>
        obtain ⟨hpushed, herror⟩ := hleft outcome rfl
        exact .inr (.inr ⟨hpushed, herror, htally⟩)
  · cases hs

theorem settle_inv (hi : Inv s es f)
    (hs : step plan settings partitionPositions s .settle = some s') :
    ∃ f', Inv s' (es ++ (event plan s .settle).toList) f' := by
  have hphase := hi.phase
  simp only [step] at hs
  split at hs
  · rename_i skipped hwriting
    rw [hwriting] at hphase
    cases hs
    rw [event, hwriting]
    simp only [Option.toList_none, List.append_nil]
    rcases hphase with ⟨⟨_, hpushed, -⟩, -⟩ | ⟨-, herror, -⟩ | ⟨-, -, htally⟩
    · cases hpushed
    · cases herror
    · exact ⟨f, hi.move htally⟩
  · rename_i skipped e hwriting
    rw [hwriting] at hphase
    cases hs
    rw [event, hwriting]
    refine ⟨_, hi.increment .error .failed (.inr (.inr (.inl ⟨rfl, rfl⟩))) ?_⟩
    rcases hphase with ⟨⟨_, hpushed, -⟩, -⟩ | ⟨-, -, htally⟩ | ⟨-, herror, -⟩
    · cases hpushed
    · simp only [InPhase, Tally, List.count_append] at htally ⊢
      simp
      omega
    · cases herror
  · rename_i skipped e hwriting
    cases hs
    rw [event, hwriting]
    simp only [Option.toList_none, List.append_nil]
    exact ⟨f, hi.fail trivial⟩
  · cases hs

theorem step_inv (hexplode : plan.features.explode = none) (hi : Inv s es f) (a : Act)
    (hs : step plan settings partitionPositions s a = some s') :
    ∃ f', Inv s' (es ++ (event plan s a).toList) f' := by
  cases a with
  | nextPage page => exact ⟨f, by simpa [event] using nextPage_inv hi hs⟩
  | nextRow => exact nextRow_inv hi hs
  | process lookup => exact process_inv hexplode hi hs
  | push slot written => exact ⟨f, by simpa [event] using push_inv hi hs⟩
  | count => exact count_inv hi hs
  | flush slot results => simpa [event] using flush_inv hi hs
  | settle => exact settle_inv hi hs
  | panic message =>
    simp only [step] at hs
    split at hs
    · cases hs
    · cases hs
      have hfailed : RangeResult.Failed (.panic message) := trivial
      exact ⟨f, by simpa [event] using hi.fail hfailed⟩

end Steps

/-! ### The range as a whole -/

/-- Every row that was read was written, skipped or is an error. -/
def Accounted (c : JobCounters) : Prop :=
  c.committed .read = c.committed .write + c.committed .skipped + c.committed .error

/-- Of a range that completes, every row is accounted for. -/
theorem accounted_of_completed (hi : Inv s es f) (range : TokenRange) {result : RangeResult}
    (hended : s.phase = .ended result) (hcompleted : result.Completed) :
    Accounted (processRange s.counters range result).counters := by
  have hphase := hi.phase
  rw [hended] at hphase
  obtain ⟨htally, hunflushed⟩ := hphase.1 hcompleted
  have hreg {kind : CounterKind} (h : kind.isRegisteredFor .migrate = true) :
      s.counters.isRegistered kind = true := by
    rw [JobCounters.isRegistered, hi.job]
    exact h
  have hcommitted := fun {kind} => @committed_processRange_verdict _ _ hi.counts range _ hcompleted kind
  have hread := hi.read
  have hskipped := hi.skipped
  have hfailed := hi.failed
  have hissued := hi.issued
  rw [Accounted, hcommitted (hreg rfl) (by decide), hcommitted (hreg rfl) (by decide),
    hcommitted (hreg rfl) (by decide), hcommitted (hreg rfl) (by decide), ← UInt64.ofNat_add,
    ← UInt64.ofNat_add]
  rw [Tally] at htally
  exact congrArg _ (by omega)

/-- Of a range that fails, every row is accounted for exactly when no record failed on its own: such
a row is an error already, and is charged to the range once more. -/
theorem accounted_iff_of_failed (hi : Inv s es f) (range : TokenRange) {result : RangeResult}
    (hfailed : result.Failed) (hrows : es.count .read < 2 ^ 64) :
    Accounted (processRange s.counters range result).counters ↔ es.count .failed = 0 := by
  obtain ⟨n, htally⟩ := hi.phase.tally
  rw [Tally] at htally
  have hreg {kind : CounterKind} (h : kind.isRegisteredFor .migrate = true) :
      s.counters.isRegistered kind = true := by
    rw [JobCounters.isRegistered, hi.job]
    exact h
  have hcommitted := fun {kind} => @committed_processRange_failed _ _ hi.counts range _ hfailed kind
  have hread := hi.read
  have hskipped := hi.skipped
  have herror := hi.failed
  have hissued := hi.issued
  have hlost := toNat_lostRows_migrate hi.counts hi.job (by omega) (by omega) (by omega)
  have hlt : es.count .failed < 2 ^ 64 := by omega
  rw [Accounted, hcommitted (hreg rfl) (by decide), hcommitted (hreg rfl) (by decide),
    hcommitted (hreg rfl) (by decide), hcommitted (hreg rfl) (by decide), ← UInt64.ofNat_add,
    ← UInt64.ofNat_add, hlost]
  -- the rows are charged once too often, by the number of records that failed on their own
  have hsum : f .write + (if CounterKind.write = .error then f .read - f .write - f .skipped else 0) +
      (f .skipped + if CounterKind.skipped = .error then f .read - f .write - f .skipped else 0) +
      (f .error + if CounterKind.error = .error then f .read - f .write - f .skipped else 0) =
      f .read + es.count .failed := by
    simp only [reduceCtorEq, if_false, if_true]
    omega
  rw [hsum]
  simp only [reduceCtorEq, if_false, Nat.add_zero, UInt64.ofNat_add]
  constructor
  · intro h
    have hzero : UInt64.ofNat (es.count .failed) = 0 := by
      have := congrArg (fun x => x - UInt64.ofNat (f .read)) h
      simpa [UInt64.add_comm] using this.symm
    have := congrArg UInt64.toNat hzero
    rwa [UInt64.toNat_ofNat_of_lt' hlt] at this
  · intro h
    rw [h]
    simp

section Range

variable [LiteralParsers] [SerdeJson] (plan : MigratePlan) (settings : MigrateSettings)
  (partitionPositions : List ℕ)

/-- What a range has counted. -/
def events (acts : List Act) : List Event :=
  (lts plan settings partitionPositions).outputs (event plan) init acts

variable {plan settings partitionPositions}

theorem inv_of_exec (hexplode : plan.features.explode = none) {acts : List Act}
    (h : (lts plan settings partitionPositions).exec init acts = some s) :
    ∃ f, Inv s (events plan settings partitionPositions acts) f := by
  refine LTS.exec_invariant_outputs (I := fun s es => ∃ f, Inv s es f) h ?_ ?_
  · exact ⟨fun _ => 0, rfl, .new .migrate, rfl, rfl, rfl, rfl, rfl, rfl⟩
  · rintro s a s' es ⟨f, hi⟩ hs
    exact step_inv hexplode hi a hs

/-- The rows of a range that completes are accounted for.  Those of a range that fails are exactly
when no record of it failed on its own, as long as their number fits a counter. -/
theorem rows_accounted (hexplode : plan.features.explode = none) {acts : List Act}
    (h : (lts plan settings partitionPositions).exec init acts = some s) {result : RangeResult}
    (hended : s.phase = .ended result) (hkilled : result ≠ .killed) (range : TokenRange) :
    (result.Completed → Accounted (processRange s.counters range result).counters) ∧
    ((events plan settings partitionPositions acts).count .read < 2 ^ 64 →
      (Accounted (processRange s.counters range result).counters ↔
        result.Completed ∨ (events plan settings partitionPositions acts).count .failed = 0)) := by
  obtain ⟨f, hi⟩ := inv_of_exec hexplode h
  refine ⟨accounted_of_completed hi range hended, fun hrows => ?_⟩
  have hresult : result.Completed ∨ result.Failed ∧ ¬result.Completed := by
    cases result with
    | verdict verdict => exact .inl trivial
    | error error => exact .inr ⟨trivial, id⟩
    | panic message => exact .inr ⟨trivial, id⟩
    | killed => exact absurd rfl hkilled
  rcases hresult with hcompleted | ⟨hfailed, hnot⟩
  · exact iff_of_true (accounted_of_completed hi range hended hcompleted) (.inl hcompleted)
  · rw [accounted_iff_of_failed hi range hfailed hrows, or_iff_right hnot]

end Range

/-! ### A record that is counted twice -/

namespace Sample

open MigrateSample

attribute [local instance] LiteralParsers.rejecting SerdeJson.rejecting

def settings : MigrateSettings := .new 5 1000 .strict false false

def readFailed : CdmError := ⟨.read, "the page could not be read", {}⟩

/-- The only range. -/
def range : TokenRange := .checked 0 9 (.refl true)

/-- One row is migrated; then the next page cannot be read. -/
def migrated : List Act :=
  [.nextPage (.ok (some [.ok ⟨[some [0, 0, 0, 7], some [0, 0, 0, 1]]⟩])), .nextRow,
    .process fun _ => .ok none, .push (fun _ => .ok ()) (.ok ()), .count, .settle, .nextRow,
    .flush (fun _ => .ok ()) [.ok ()], .nextPage (.error readFailed)]

/-- One row lacks a key column, which is an error of the record; then the next page cannot be read. -/
def rejected : List Act :=
  [.nextPage (.ok (some [.ok ⟨[some [0, 0, 0, 7], none]⟩])), .nextRow, .process fun _ => .ok none,
    .settle, .nextRow, .flush (fun _ => .ok ()) [], .nextPage (.error readFailed)]

theorem rows_accounted_migrated :
    ∃ s, (lts plan settings [0]).exec init migrated = some s ∧
      s.phase = .ended (.error readFailed) ∧
      Accounted (processRange s.counters range (.error readFailed)).counters := by
  have hrun : ∃ s, (lts plan settings [0]).exec init migrated = some s ∧
      s.phase = .ended (.error readFailed) := ⟨_, rfl, rfl⟩
  obtain ⟨s, hs, hended⟩ := hrun
  have hevents : events plan settings [0] migrated = [.read, .issued] := rfl
  refine ⟨s, hs, hended, ?_⟩
  refine ((rows_accounted rfl hs hended nofun range).2 ?_).2 (.inr ?_)
  · rw [hevents]
    decide
  · rw [hevents]
    decide

/-- The row is counted as an error when it is rejected, and again when the range fails. -/
theorem rows_not_accounted :
    ∃ s, (lts plan settings [0]).exec init rejected = some s ∧
      s.phase = .ended (.error readFailed) ∧
      (processRange s.counters range (.error readFailed)).counters.committed .read = 1 ∧
      (processRange s.counters range (.error readFailed)).counters.committed .write = 0 ∧
      (processRange s.counters range (.error readFailed)).counters.committed .skipped = 0 ∧
      (processRange s.counters range (.error readFailed)).counters.committed .error = 2 :=
  ⟨_, rfl, rfl, rfl, rfl, rfl, rfl⟩

end Sample

end MigrateRange

end Cdm
