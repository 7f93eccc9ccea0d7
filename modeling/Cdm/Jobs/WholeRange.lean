import Cdm.Jobs.Guardrail
import Cdm.Jobs.MigrateRange
import Cdm.Jobs.ValidateAccounting

/-!
# A success means the whole range

A range that is recorded as anything but `STARTED` or `FAIL` is not looked at again, so every row of
its scan has to have been read and accounted for.  The three jobs look at the cancellation token at
different points: the migrate job before each page, the validate job before each record, the
guardrail job after each row.  The first two give the range up with an error; the third leaves its
loop as if the scan had ended, with the row in hand uncounted and the rest unread.
-/

namespace Cdm

open List Option RangeCall

/-! ### Migrate -/

namespace MigrateRange

/-- What became of a row. -/
inductive RowFate
  /-- It has been read, and its writes may be under way. -/
  | reading
  | skipped
  /-- It is an error of its own. -/
  | failed
  /-- All of its writes have been issued. -/
  | issued
  /-- They have been flushed, and credited. -/
  | written
  deriving DecidableEq, Repr

/-- The row is accounted for. -/
def RowFate.isSettled : RowFate → Bool
  | skipped | failed | written => true
  | _ => false

/-- The row is accounted for by the next flush. -/
def RowFate.isIssued : RowFate → Bool
  | reading => false
  | _ => true

/-- A flush credits what has been issued. -/
def RowFate.flush : RowFate → RowFate
  | issued => written
  | fate => fate

end MigrateRange

/-- A migrate range, and what became of the rows it read, the last one first. -/
structure MigrateCall where
  range : MigrateRange
  rows : List (Row × MigrateRange.RowFate)

namespace MigrateCall

open MigrateRange (RowFate)

/-- The fate of the row in hand. -/
def setLast (fate : RowFate) (rows : List (Row × RowFate)) : List (Row × RowFate) :=
  rows.modifyHead fun row => (row.1, fate)

section

variable [LiteralParsers] [SerdeJson] (plan : MigratePlan)

/-- What a step means to the rows. -/
def fates (s : MigrateRange) (rows : List (Row × RowFate)) : MigrateRange.Act → List (Row × RowFate)
  | .nextRow =>
    match s.phase, s.rows with
    | .paging, .ok row :: _ => (row, .reading) :: rows
    | _, _ => rows
  | .process lookup =>
    match s.phase with
    | .processing row =>
      if (MigrateJob.processRow plan lookup row).skipped then setLast .skipped rows else rows
    | _ => rows
  | .settle =>
    match s.phase with
    | .writing ⟨[], _, none⟩ => setLast .issued rows
    | .writing ⟨[], _, some (.record _)⟩ => setLast .failed rows
    | _ => rows
  | .flush slot results =>
    match s.phase, s.buffer.drain slot results with
    | .flushing _, some (.ok _) => rows.map fun row => (row.1, row.2.flush)
    | _, _ => rows
  | _ => rows

variable (settings : MigrateSettings) (positions : List ℕ)

/-- The next page, or the end of the scan. -/
def read (s : MigrateCall) (page : Option (List (Except CdmError Row))) : Option MigrateCall :=
  (MigrateRange.step plan settings positions s.range (.nextPage (.ok page))).map fun range =>
    { s with range }

/-- The other steps; the pages come from the scan. -/
def step (s : MigrateCall) (act : MigrateRange.Act) : Option MigrateCall :=
  match act with
  | .nextPage (.ok _) => none
  | act => (MigrateRange.step plan settings positions s.range act).map fun range =>
    { range, rows := fates plan s.range s.rows act }

/-- Whether the token is looked at next. -/
def polls (s : MigrateCall) : Bool := s.range.phase matches .scanning

/-- What the range came to. -/
def result (s : MigrateCall) : Option RangeResult :=
  match s.range.phase with
  | .ended result => some result
  | _ => none

end

/-- The error of a range that is given up. -/
def abandoned (range : TokenRange) : CdmError :=
  CdmError.withRange ⟨.cancelled,
    "the range was abandoned before its next page: the run is shutting down (ENG-010)", {}⟩ range

end MigrateCall

/-- The migrate job on a range, over the pages of its scan. -/
def MigrateJob.rangeJob [LiteralParsers] [SerdeJson] (plan : MigratePlan) (settings : MigrateSettings)
    (positions : List ℕ) (range : TokenRange) :
    RangeJob MigrateCall MigrateRange.Act (List (Except CdmError Row)) where
  init := ⟨.init, []⟩
  read := MigrateCall.read plan settings positions
  step := MigrateCall.step plan settings positions
  polls := MigrateCall.polls
  cancel s := { s with range := { s.range with phase := .ended (.error (MigrateCall.abandoned range)) } }
  result := MigrateCall.result
  counters s := s.range.counters

namespace MigrateCall

open MigrateRange (RowFate)

/-- The rows that a list of fates is about. -/
def readRows (rows : List (Row × RowFate)) : List (Except CdmError Row) :=
  rows.reverse.map fun row => Except.ok row.1

/-- What became of the rows so far. -/
def InPhase (left : List (Except CdmError Row)) (rows : List (Row × RowFate)) :
    MigrateRange.Phase → Prop
  | .scanning => left = [] ∧ ∀ row ∈ rows, row.2.isSettled = true
  | .paging => ∀ row ∈ rows, row.2.isIssued = true
  | .flushing none => left = [] ∧ ∀ row ∈ rows, row.2.isIssued = true
  | .processing _ | .writing _ | .counting _ | .flushing (some _) =>
    ∃ last before, rows = last :: before ∧ ∀ row ∈ before, row.2.isIssued = true
  | .ended _ => True

/-- The rows that were read, those left of the page and those of the pages left are the scan; a range
that completes has come to its end. -/
structure Follows (scan : List (List (Except CdmError Row))) (s : MigrateCall)
    (left : List (List (Except CdmError Row))) : Prop where
  read : readRows s.rows ++ s.range.rows ++ left.flatten = scan.flatten
  phase : InPhase s.range.rows s.rows s.range.phase
  ended : ∀ verdict, s.range.phase = .ended (.verdict verdict) →
    s.range.rows = [] ∧ left = [] ∧ ∀ row ∈ s.rows, row.2.isSettled = true

theorem readRows_cons (row : Row) (fate : RowFate) (rows : List (Row × RowFate)) :
    readRows ((row, fate) :: rows) = readRows rows ++ [Except.ok row] := by
  simp [readRows]

theorem readRows_setLast (fate : RowFate) (rows : List (Row × RowFate)) :
    readRows (setLast fate rows) = readRows rows := by
  cases rows with
  | nil => rfl
  | cons last before => simp [readRows, setLast]

theorem readRows_flush (rows : List (Row × RowFate)) :
    readRows (rows.map fun row => (row.1, row.2.flush)) = readRows rows := by
  simp [readRows, ← map_reverse, Function.comp_def]

theorem RowFate.isSettled_flush {fate : RowFate} (h : fate.isIssued = true) :
    fate.flush.isSettled = true := by
  cases fate <;> first | rfl | cases h

theorem RowFate.isIssued_flush {fate : RowFate} (h : fate.isIssued = true) :
    fate.flush.isIssued = true := by
  cases fate <;> first | rfl | cases h

theorem RowFate.isIssued_of_isSettled {fate : RowFate} (h : fate.isSettled = true) :
    fate.isIssued = true := by
  cases fate <;> first | rfl | cases h

section Steps

variable [LiteralParsers] [SerdeJson] {plan : MigratePlan} {settings : MigrateSettings}
  {positions : List ℕ} {scan left : List (List (Except CdmError Row))}
  {s s' : MigrateCall}

omit [LiteralParsers] [SerdeJson] in
/-- A range that ends without a verdict claims nothing. -/
theorem Follows.fail (h : Follows scan s left) {result : RangeResult} (hfailed : result.Failed) :
    Follows scan ⟨{ s.range with phase := .ended result }, s.rows⟩ left := by
  refine ⟨h.read, trivial, fun verdict hended => ?_⟩
  cases hended
  exact hfailed.elim

theorem Follows.page {page : List (Except CdmError Row)} (h : Follows scan s (page :: left))
    (hs : MigrateCall.read plan settings positions s (some page) = some s') :
    Follows scan s' left := by
  obtain ⟨range, hrange, rfl⟩ := map_eq_some_iff.1 hs
  have hread := h.read
  have hphase := h.phase
  simp only [MigrateRange.step] at hrange
  split at hrange
  · next hscanning =>
    rw [hscanning] at hphase
    obtain ⟨hempty, hsettled⟩ := hphase
    rw [hempty, append_nil, flatten_cons] at hread
    cases page with
    | nil =>
      cases hrange
      refine ⟨by rw [hempty, append_nil]; simpa using hread, ?_, ?_⟩
      · rw [hscanning]
        exact ⟨hempty, hsettled⟩
      · intro verdict hended
        rw [hscanning] at hended
        cases hended
    | cons first rest =>
      cases hrange
      refine ⟨?_, ?_, ?_⟩
      · rw [append_assoc]
        exact hread
      · exact fun row hrow => RowFate.isIssued_of_isSettled (hsettled row hrow)
      · intro verdict hended
        cases hended
  · cases hrange

theorem Follows.finish (h : Follows scan s [])
    (hs : MigrateCall.read plan settings positions s none = some s') : Follows scan s' [] := by
  obtain ⟨range, hrange, rfl⟩ := map_eq_some_iff.1 hs
  have hphase := h.phase
  simp only [MigrateRange.step] at hrange
  split at hrange
  · next hscanning =>
    rw [hscanning] at hphase
    cases hrange
    exact ⟨h.read, trivial, fun _ _ => ⟨hphase.1, rfl, hphase.2⟩⟩
  · cases hrange

theorem Follows.nextRow (h : Follows scan s left) {range : MigrateRange}
    (hs : MigrateRange.step plan settings positions s.range .nextRow = some range) :
    Follows scan ⟨range, fates plan s.range s.rows .nextRow⟩ left := by
  have hread := h.read
  have hphase := h.phase
  simp only [MigrateRange.step] at hs
  split at hs
  · next hpaging hrows =>
    rw [hpaging] at hphase
    cases hs
    simp only [fates, hpaging, hrows]
    rw [hrows] at hread
    refine ⟨hread, ⟨rfl, hphase⟩, fun verdict hended => ?_⟩
    cases hended
  · next hpaging hrows =>
    cases hs
    have hfates : fates plan s.range s.rows .nextRow = s.rows := by
      simp only [fates, hpaging, hrows]
    rw [hfates]
    exact h.fail (by trivial)
  · next row rows hpaging hrows =>
    rw [hpaging] at hphase
    rw [hrows] at hread
    cases hs
    simp only [fates, hpaging, hrows]
    refine ⟨?_, ⟨_, _, rfl, hphase⟩, fun verdict hended => ?_⟩
    · rw [readRows_cons, append_assoc, append_assoc]
      simpa using hread
    · cases hended
  · cases hs

theorem Follows.process (h : Follows scan s left)
    {lookup : BoundWrite → Except CdmError (Option Row)} {range : MigrateRange}
    (hs : MigrateRange.step plan settings positions s.range (.process lookup) = some range) :
    Follows scan ⟨range, fates plan s.range s.rows (.process lookup)⟩ left := by
  have hread := h.read
  have hphase := h.phase
  simp only [MigrateRange.step] at hs
  split at hs
  · next row hprocessing =>
    rw [hprocessing] at hphase
    obtain ⟨last, before, hrows, hbefore⟩ := hphase
    simp only [fates, hprocessing]
    split_ifs at hs with hskipped
    · cases hs
      rw [if_pos hskipped]
      refine ⟨?_, ?_, fun verdict hended => ?_⟩
      · change readRows (setLast .skipped s.rows) ++ _ ++ _ = _
        rw [readRows_setLast]
        exact hread
      · rw [hrows]
        exact forall_mem_cons.2 ⟨rfl, hbefore⟩
      · cases hended
    · cases hs
      rw [if_neg hskipped]
      refine ⟨hread, ⟨last, before, hrows, hbefore⟩, fun verdict hended => ?_⟩
      cases hended
  · cases hs

theorem Follows.push (h : Follows scan s left)
    {slot : WriteSlot} {written : Except CdmError Unit}
    {range : MigrateRange}
    (hs : MigrateRange.step plan settings positions s.range (.push slot written) =
      some range) : Follows scan ⟨range, s.rows⟩ left := by
  have hphase := h.phase
  simp only [MigrateRange.step] at hs
  split at hs
  · next hwriting =>
    rw [hwriting] at hphase
    split at hs
    · cases hs
      exact h.fail (by trivial)
    · cases hs
      refine ⟨h.read, hphase, fun verdict hended => ?_⟩
      cases hended
  · cases hs

theorem Follows.count (h : Follows scan s left) {range : MigrateRange}
    (hs : MigrateRange.step plan settings positions s.range .count = some range) :
    Follows scan ⟨range, s.rows⟩ left := by
  have hphase := h.phase
  simp only [MigrateRange.step] at hs
  split at hs
  · next left hcounting =>
    rw [hcounting] at hphase
    cases hs
    split_ifs
    · refine ⟨h.read, hphase, fun verdict hended => ?_⟩
      cases hended
    · refine ⟨h.read, hphase, fun verdict hended => ?_⟩
      cases hended
  · cases hs

theorem Follows.flush (h : Follows scan s left)
    {slot : WriteSlot} {results : List (Except CdmError Unit)}
    {range : MigrateRange}
    (hs : MigrateRange.step plan settings positions s.range (.flush slot results) =
      some range) : Follows scan ⟨range, fates plan s.range s.rows (.flush slot results)⟩ left := by
  have hread := h.read
  have hphase := h.phase
  simp only [MigrateRange.step] at hs
  split at hs
  · next outcome hflushing =>
    rw [hflushing] at hphase
    simp only [fates, hflushing]
    cases hdrain : s.range.buffer.drain slot results with
    | none =>
      rw [hdrain] at hs
      cases hs
    | some drained =>
      rw [hdrain] at hs
      cases drained with
      | error e =>
        cases hs
        exact h.fail (by trivial)
      | ok _ =>
        cases hs
        refine ⟨?_, ?_, fun verdict hended => ?_⟩
        · change readRows (s.rows.map fun row => (row.1, row.2.flush)) ++ _ ++ _ = _
          rw [readRows_flush]
          exact hread
        · cases outcome with
          | none =>
            refine ⟨hphase.1, forall_mem_map.2 fun row hrow => ?_⟩
            exact RowFate.isSettled_flush (hphase.2 row hrow)
          | some outcome =>
            obtain ⟨last, before, hrows, hbefore⟩ := hphase
            refine ⟨(last.1, last.2.flush), before.map fun row => (row.1, row.2.flush), ?_,
              forall_mem_map.2 fun row hrow => RowFate.isIssued_flush (hbefore row hrow)⟩
            simp [hrows]
        · cases outcome <;> cases hended
  · cases hs

theorem Follows.settle (h : Follows scan s left) {range : MigrateRange}
    (hs : MigrateRange.step plan settings positions s.range .settle = some range) :
    Follows scan ⟨range, fates plan s.range s.rows .settle⟩ left := by
  have hread := h.read
  have hphase := h.phase
  have hsettled (fate : RowFate) (hfate : fate.isIssued = true)
      (hrows : ∃ last before, s.rows = last :: before ∧ ∀ row ∈ before, row.2.isIssued = true)
      (counters : JobCounters) :
      Follows scan ⟨{ s.range with counters, phase := .paging }, setLast fate s.rows⟩ left := by
    obtain ⟨last, before, hrows, hbefore⟩ := hrows
    refine ⟨?_, ?_, fun verdict hended => by cases hended⟩
    · change readRows (setLast fate s.rows) ++ _ ++ _ = _
      rw [readRows_setLast]
      exact hread
    · rw [hrows]
      exact forall_mem_cons.2 ⟨hfate, hbefore⟩
  simp only [MigrateRange.step] at hs
  split at hs
  · next hwriting =>
    rw [hwriting] at hphase
    cases hs
    simp only [fates, hwriting]
    exact hsettled .issued rfl hphase s.range.counters
  · next hwriting =>
    rw [hwriting] at hphase
    cases hs
    simp only [fates, hwriting]
    exact hsettled .failed rfl hphase _
  · next hwriting =>
    cases hs
    simp only [fates, hwriting]
    exact h.fail (by trivial)
  · cases hs

theorem Follows.step (h : Follows scan s left) {act : MigrateRange.Act}
    (hs : MigrateCall.step plan settings positions s act = some s') :
    Follows scan s' left := by
  cases act with
  | nextPage page =>
    cases page with
    | ok page => cases hs
    | error e =>
      obtain ⟨range, hrange, rfl⟩ := map_eq_some_iff.1 hs
      simp only [MigrateRange.step] at hrange
      split at hrange
      · cases hrange
        exact h.fail (by trivial)
      · cases hrange
  | nextRow =>
    obtain ⟨range, hrange, rfl⟩ := map_eq_some_iff.1 hs
    exact h.nextRow hrange
  | process lookup =>
    obtain ⟨range, hrange, rfl⟩ := map_eq_some_iff.1 hs
    exact h.process hrange
  | push slot written =>
    obtain ⟨range, hrange, rfl⟩ := map_eq_some_iff.1 hs
    exact h.push hrange
  | count =>
    obtain ⟨range, hrange, rfl⟩ := map_eq_some_iff.1 hs
    exact h.count hrange
  | flush slot results =>
    obtain ⟨range, hrange, rfl⟩ := map_eq_some_iff.1 hs
    exact h.flush hrange
  | settle =>
    obtain ⟨range, hrange, rfl⟩ := map_eq_some_iff.1 hs
    exact h.settle hrange
  | panic message =>
    obtain ⟨range, hrange, rfl⟩ := map_eq_some_iff.1 hs
    simp only [MigrateRange.step] at hrange
    split at hrange
    · cases hrange
    · cases hrange
      exact h.fail (by trivial)

end Steps

end MigrateCall

section Migrate

variable [LiteralParsers] [SerdeJson] {plan : MigratePlan} {settings : MigrateSettings}
  {positions : List ℕ} {range : TokenRange}

/-- A success of the migrate job means the whole range. -/
theorem migrate_whole {scan : List (List (Except CdmError Row))}
    {acts : List (RangeCall.Act MigrateRange.Act)}
    {s : RangeCall MigrateCall (List (Except CdmError Row))}
    (h : (RangeCall.lts (MigrateJob.rangeJob plan settings positions range) range).exec
      (.start (MigrateJob.rangeJob plan settings positions range) scan) acts = some s)
    (hs : s.Succeeded) :
    MigrateCall.readRows s.job.rows = scan.flatten ∧
      ∀ row ∈ s.job.rows, row.2.isSettled = true := by
  have hfollows : MigrateCall.Follows scan s.job s.left := by
    refine exec_invariant h (LTS.along_true _ _) ?_ ?_ ?_ ?_ ?_
    · exact ⟨rfl, ⟨rfl, nofun⟩, nofun⟩
    · intro job act job' left hJ hstep
      exact hJ.step hstep
    · intro job item job' left hJ hstep
      exact hJ.page hstep
    · intro job job' hJ hstep
      exact hJ.finish hstep
    · intro s _ _ _ hJ
      exact hJ.fail (by trivial)
  obtain ⟨verdict, hresult⟩ := verdict_of_succeeded h hs
  have hended : s.job.range.phase = .ended (.verdict verdict) := by
    change MigrateCall.result s.job = _ at hresult
    unfold MigrateCall.result at hresult
    split at hresult
    · next result hphase =>
      cases hresult
      exact hphase
    · cases hresult
  obtain ⟨hrows, hleft, hsettled⟩ := hfollows.ended verdict hended
  have hread := hfollows.read
  rw [hrows, hleft, append_nil, flatten_nil, append_nil] at hread
  exact ⟨hread, hsettled⟩

end Migrate

/-! ### Validate -/

namespace ValidateRange

/-- What the range came to. -/
def result (s : ValidateRange) : Option RangeResult :=
  match s.phase with
  | .ended result => some result
  | _ => none

/-- The end of the scan has been seen. -/
def Phase.isFinishing : Phase → Bool
  | .comparing .finish | .correcting _ .finish | .ended (.verdict _) => true
  | _ => false

end ValidateRange

section Validate

variable [LiteralParsers] [SerdeJson]

/-- The steps but those that take a record, which comes from the scan, or look at the token. -/
def ValidateRange.workStep (job : ValidateJob) (fetchSize : ℕ) (s : ValidateRange) :
    ValidateRange.Act → Option ValidateRange
  | .nextRecord (.ok _) | .cancel => none
  | act => ValidateRange.step job fetchSize s act

/-- The validate job on a range, over the records of its scan. -/
def ValidateJob.rangeJob (job : ValidateJob) (fetchSize : ℕ) :
    RangeJob ValidateRange ValidateRange.Act Record where
  init := .init
  read s record := ValidateRange.step job fetchSize s (.nextRecord (.ok record))
  step := ValidateRange.workStep job fetchSize
  polls s := s.phase matches .reading
  cancel s := { s with phase := .comparing .cancelled }
  result := ValidateRange.result
  counters s := s.counters

namespace ValidateRange

variable {job : ValidateJob} {fetchSize : ℕ} {s s' : ValidateRange}

/-- The steps that take no record keep the number of rows, and see no end. -/
theorem quiet_step {act : Act} (h : step job fetchSize s act = some s')
    (hact : ∀ record, act ≠ .nextRecord (.ok record)) :
    s'.rows.length = s.rows.length ∧ (s'.phase.isFinishing = true → s.phase.isFinishing = true) := by
  cases act with
  | cancel =>
    simp only [step] at h
    split at h
    · cases h
      exact ⟨rfl, by rintro ⟨⟩⟩
    · cases h
  | nextRecord record =>
    cases record with
    | ok record => exact absurd rfl (hact record)
    | error e =>
      simp only [step] at h
      split at h
      · cases h
        exact ⟨rfl, by rintro ⟨⟩⟩
      · cases h
  | filter =>
    simp only [step] at h
    split at h
    · split at h <;> cases h <;> exact ⟨by simp, by rintro ⟨⟩⟩
    · cases h
  | explode =>
    simp only [step] at h
    split at h
    · split at h <;> cases h <;> exact ⟨by simp, by rintro ⟨⟩⟩
    · cases h
  | enqueue slot =>
    simp only [step] at h
    split at h
    · split at h <;> cases h <;> exact ⟨rfl, by rintro ⟨⟩⟩
    · cases h
  | enqueued =>
    simp only [step] at h
    split at h
    · cases h
      refine ⟨rfl, ?_⟩
      split_ifs <;> rintro ⟨⟩
    · cases h
  | compare fetched =>
    simp only [step] at h
    split at h
    · cases h
      exact ⟨rfl, by rintro ⟨⟩⟩
    · next after _ _ _ _ hphase _ _ =>
      split at h
      · cases h
        exact ⟨rfl, by rintro ⟨⟩⟩
      · cases h
        refine ⟨by simp, ?_⟩
        rw [hphase]
        cases after <;> split_ifs <;> simp [Phase.isFinishing]
    · cases h
  | drained =>
    simp only [step] at h
    split at h
    · next after hphase _ =>
      cases h
      refine ⟨rfl, ?_⟩
      rw [hphase]
      cases after <;> simp [Phase.isFinishing]
    · cases h
  | correct written =>
    simp only [step] at h
    split at h
    · next comparison after hphase =>
      rw [hphase]
      split_ifs at h
      · split at h
        · cases h
          exact ⟨rfl, by rintro ⟨⟩⟩
        · cases h
          exact ⟨rfl, by cases after <;> simp [Phase.isFinishing]⟩
      · cases h
        exact ⟨rfl, by cases after <;> simp [Phase.isFinishing]⟩
    · cases h
  | panic message =>
    simp only [step] at h
    split at h
    · cases h
    · cases h
      exact ⟨rfl, by rintro ⟨⟩⟩

/-- Each record of the scan is a row of the range, or is left; the end is seen when none is. -/
structure Follows (job : ValidateJob) (scan : List Record) (s : ValidateRange) (left : List Record) :
    Prop where
  inv : ∃ lookups f, Inv job s lookups f
  rows : s.rows.length + left.length = scan.length
  ended : s.phase.isFinishing = true → left = []

end ValidateRange

/-- A success of the validate job means the whole range. -/
theorem validate_whole {job : ValidateJob} {fetchSize : ℕ} {range : TokenRange} {scan : List Record}
    {acts : List (RangeCall.Act ValidateRange.Act)} {s : RangeCall ValidateRange Record}
    (h : (RangeCall.lts (job.rangeJob fetchSize) range).exec (.start (job.rangeJob fetchSize) scan)
      acts = some s) (hs : s.Succeeded) :
    s.left = [] ∧ s.job.rows.length = scan.length ∧ ∀ row ∈ s.job.rows, row.isLost = false := by
  have hfollows : ValidateRange.Follows job scan s.job s.left := by
    refine exec_invariant h (LTS.along_true _ _) ?_ ?_ ?_ ?_ ?_
    · have hstart : (ValidateRange.lts job fetchSize).exec ValidateRange.init [] =
          some ValidateRange.init := rfl
      obtain ⟨f, hinv⟩ := ValidateRange.inv_of_exec hstart
      exact ⟨⟨_, f, hinv⟩, Nat.zero_add _, by rintro ⟨⟩⟩
    · rintro s act s' left ⟨⟨lookups, f, hinv⟩, hrows, hended⟩ hstep
      have hquiet : ValidateRange.step job fetchSize s act = some s' ∧
          ∀ record, act ≠ .nextRecord (.ok record) := by
        change ValidateRange.workStep job fetchSize s act = some s' at hstep
        unfold ValidateRange.workStep at hstep
        split at hstep
        · cases hstep
        · cases hstep
        · next hne _ => exact ⟨hstep, hne⟩
      obtain ⟨f', hinv'⟩ := ValidateRange.step_inv hinv act hquiet.1
      obtain ⟨hlength, hfinishing⟩ := ValidateRange.quiet_step hquiet.1 hquiet.2
      exact ⟨⟨_, f', hinv'⟩, by rw [hlength]; exact hrows, fun h => hended (hfinishing h)⟩
    · rintro s record s' left ⟨⟨lookups, f, hinv⟩, hrows, hended⟩ hstep
      change ValidateRange.step job fetchSize s (.nextRecord (.ok (some record))) = some s' at hstep
      obtain ⟨f', hinv'⟩ := ValidateRange.step_inv hinv _ hstep
      simp only [ValidateRange.step] at hstep
      split at hstep
      · cases hstep
        refine ⟨⟨_, f', hinv'⟩, ?_, by rintro ⟨⟩⟩
        simp only [length_append, length_cons, length_nil] at hrows ⊢
        omega
      · cases hstep
    · rintro s s' ⟨⟨lookups, f, hinv⟩, hrows, -⟩ hstep
      change ValidateRange.step job fetchSize s (.nextRecord (.ok none)) = some s' at hstep
      obtain ⟨f', hinv'⟩ := ValidateRange.step_inv hinv _ hstep
      simp only [ValidateRange.step] at hstep
      split at hstep
      · cases hstep
        exact ⟨⟨_, f', hinv'⟩, hrows, fun _ => rfl⟩
      · cases hstep
    · rintro s - hpolls - ⟨⟨lookups, f, hinv⟩, hrows, -⟩
      have hreading : s.job.phase = .reading := by
        simp only [ValidateJob.rangeJob] at hpolls
        cases hphase : s.job.phase <;> simp_all
      have hcancel : ValidateRange.step job fetchSize s.job .cancel =
          some { s.job with phase := .comparing .cancelled } := by
        simp only [ValidateRange.step, hreading]
      obtain ⟨f', hinv'⟩ := ValidateRange.step_inv hinv _ hcancel
      exact ⟨⟨_, f', hinv'⟩, hrows, by rintro ⟨⟩⟩
  obtain ⟨verdict, hresult⟩ := verdict_of_succeeded h hs
  have hended : s.job.phase = .ended (.verdict verdict) := by
    change ValidateRange.result s.job = _ at hresult
    unfold ValidateRange.result at hresult
    split at hresult
    · next result hphase =>
      cases hresult
      exact hphase
    · cases hresult
  have hleft : s.left = [] := hfollows.ended (by rw [hended]; rfl)
  obtain ⟨lookups, f, hinv⟩ := hfollows.inv
  have hphase := hinv.phase
  rw [hended] at hphase
  have hrows := hfollows.rows
  rw [hleft, length_nil, Nat.add_zero] at hrows
  exact ⟨hleft, hrows, hphase.2 trivial⟩

end Validate

/-! ### Guardrail -/

namespace GuardrailRange

variable {job : GuardrailJob} {range : TokenRange} {scan : List RowSizes}
  {s : RangeCall GuardrailRange RowSizes}

/-- The row in hand when the job finds the run killed. -/
def cutShort (s : RangeCall GuardrailRange RowSizes) : RangeCall.Act Act → Option RowSizes
  | .poll =>
    match s.job.phase with
    | .arrived row => if s.control.killed then some row else none
    | _ => none
  | _ => none

/-- The row that has arrived and is not counted yet. -/
def Phase.inHand : Phase → List RowSizes
  | .arrived row => [row]
  | _ => []

/-- Unless the job has panicked, the rows measured, the row in hand and those left are the scan; a
range that passes has come to its end. -/
structure Follows (scan : List RowSizes) (s : GuardrailRange) (left : List RowSizes) : Prop where
  rows : (∀ message, s.phase ≠ .ended (.panic message)) → s.measured ++ s.phase.inHand ++ left = scan
  ended : ∀ verdict, s.phase = .ended (.verdict verdict) → left = []

/-- The range has passed with a row that was not measured. -/
def Short (scan : List RowSizes) (s : GuardrailRange) : Prop :=
  s.phase = .ended (.verdict .pass) ∧ s.measured.length < scan.length

theorem Follows.step {left : List RowSizes} {s s' : GuardrailRange} {act : Act}
    (h : Follows scan s left) (hs : step job.guardrail s act = some s') : Follows scan s' left := by
  have hrows := h.rows
  cases act with
  | measure =>
    simp only [GuardrailRange.step] at hs
    split at hs
    · next row harrived =>
      rw [harrived] at hrows
      cases hs
      exact ⟨fun _ => by simpa [Phase.inHand] using hrows (by rintro _ ⟨⟩), by rintro _ ⟨⟩⟩
    · cases hs
  | fail error =>
    simp only [GuardrailRange.step] at hs
    split at hs
    · next hreading =>
      rw [hreading] at hrows
      cases hs
      exact ⟨fun _ => hrows (by rintro _ ⟨⟩), by rintro _ ⟨⟩⟩
    · cases hs
  | panic message =>
    simp only [GuardrailRange.step] at hs
    split at hs
    · cases hs
    · cases hs
      exact ⟨fun h => absurd rfl (h message), by rintro _ ⟨⟩⟩

theorem Follows.row {row : RowSizes} {left : List RowSizes} {s s' : GuardrailRange}
    (h : Follows scan s (row :: left)) (hs : read s (some row) = some s') : Follows scan s' left := by
  have hrows := h.rows
  unfold GuardrailRange.read at hs
  split at hs
  · next hreading hrow =>
    rw [hreading] at hrows
    cases hs
    cases hrow
    exact ⟨fun _ => by simpa [Phase.inHand] using hrows nofun, nofun⟩
  · next hrow => cases hrow
  · cases hs

theorem Follows.finish {s s' : GuardrailRange} (h : Follows scan s [])
    (hs : read s none = some s') : Follows scan s' [] := by
  have hrows := h.rows
  unfold GuardrailRange.read at hs
  split at hs
  · next hrow => cases hrow
  · next hreading _ =>
    rw [hreading] at hrows
    cases hs
    exact ⟨fun _ => hrows nofun, fun _ _ => rfl⟩
  · cases hs

/-! A range that has ended makes no further step. -/

theorem not_step_of_short {s s' : GuardrailRange} (h : Short scan s) (act : Act) :
    step job.guardrail s act ≠ some s' := by
  intro hs
  cases act <;> simp [GuardrailRange.step, h.1] at hs

theorem not_read_of_short {s s' : GuardrailRange} (h : Short scan s)
    (row : Option RowSizes) : read s row ≠ some s' := by
  intro hs
  cases row <;> simp [GuardrailRange.read, h.1] at hs

theorem polls_of_short {s : GuardrailRange} (h : Short scan s) : s.polls = false := by
  simp [polls, h.1]

/-- One step of a call: the range follows its scan as long as it has not been cut short, and from
then on is short of it. -/
theorem follows_or_short_step {s s' : RangeCall GuardrailRange RowSizes}
    {act : RangeCall.Act Act} {cuts : List RowSizes}
    (hI : cuts = [] ∧ Follows scan s.job s.left ∨ cuts ≠ [] ∧ Short scan s.job)
    (hs : RangeCall.step job.rangeJob range s act = some s') :
    cuts ++ (cutShort s act).toList = [] ∧ Follows scan s'.job s'.left ∨
      cuts ++ (cutShort s act).toList ≠ [] ∧ Short scan s'.job := by
  obtain ⟨hjob, hleft, hpoll⟩ | ⟨rfl, hpolls, hkilled, hjob, hleft⟩ | ⟨rfl, hjob, hleft⟩ |
    ⟨work, rfl, hjob, hleft⟩ := step_cases hs
  · have hnone : cutShort s act = none := by
      cases act with
      | poll =>
        simp only [cutShort, hpoll rfl]
        cases s.job.phase <;> rfl
      | _ => rfl
    rw [hnone, toList_none, append_nil, hjob, hleft]
    exact hI
  · -- the row in hand is the one the range is short of
    change s.job.polls = true at hpolls
    obtain ⟨row, harrived⟩ : ∃ row, s.job.phase = .arrived row := by
      unfold polls at hpolls
      split at hpolls
      · next row harrived => exact ⟨row, harrived⟩
      · cases hpolls
    obtain ⟨rfl, hfollows⟩ | ⟨-, hshort⟩ := hI
    · have hrows := hfollows.rows (by rw [harrived]; rintro _ ⟨⟩)
      have hcut : cutShort s .poll = some row := by simp [cutShort, harrived, hkilled]
      rw [hcut, hjob]
      refine .inr ⟨by simp, rfl, ?_⟩
      rw [← hrows, harrived]
      simp only [Phase.inHand, length_append, length_cons, length_nil]
      change s.job.measured.length < _
      omega
    · rw [polls_of_short hshort] at hpolls
      cases hpolls
  · have hnone : cutShort s (.read) = none := rfl
    rw [hnone, toList_none, append_nil]
    obtain ⟨rfl, hfollows⟩ | ⟨-, hshort⟩ := hI
    · refine .inl ⟨rfl, ?_⟩
      cases hscan : s.left with
      | nil =>
        rw [hscan] at hfollows hjob hleft
        rw [hleft]
        exact hfollows.finish hjob
      | cons row left =>
        rw [hscan] at hfollows hjob hleft
        rw [hleft]
        exact hfollows.row hjob
    · exact absurd hjob (not_read_of_short hshort _)
  · have hnone : cutShort s (.work work) = none := rfl
    rw [hnone, toList_none, append_nil, hleft]
    obtain ⟨rfl, hfollows⟩ | ⟨-, hshort⟩ := hI
    · exact .inl ⟨rfl, hfollows.step hjob⟩
    · exact absurd hjob (not_step_of_short hshort _)

end GuardrailRange

/-- A success of the guardrail job means the whole range exactly when the job was not cut short: it
never found, after a row had arrived, that the run had been killed. -/
theorem guardrail_whole_iff {job : GuardrailJob} {range : TokenRange} {scan : List RowSizes}
    {acts : List (RangeCall.Act GuardrailRange.Act)} {s : RangeCall GuardrailRange RowSizes}
    (h : (RangeCall.lts job.rangeJob range).exec (.start job.rangeJob scan) acts = some s)
    (hs : s.Succeeded) :
    s.job.measured = scan ↔
      (RangeCall.lts job.rangeJob range).outputs GuardrailRange.cutShort
        (.start job.rangeJob scan) acts = [] := by
  have hrun := LTS.exec_invariant_outputs (f := GuardrailRange.cutShort) (I := fun s cuts =>
    cuts = [] ∧ GuardrailRange.Follows scan s.job s.left ∨
      cuts ≠ [] ∧ GuardrailRange.Short scan s.job) h
    (.inl ⟨rfl, fun _ => rfl, nofun⟩) fun _ _ _ _ hI hs =>
      GuardrailRange.follows_or_short_step hI hs
  obtain ⟨verdict, hresult⟩ := verdict_of_succeeded h hs
  have hended : s.job.phase = .ended (.verdict verdict) := by
    change GuardrailRange.result s.job = _ at hresult
    unfold GuardrailRange.result at hresult
    split at hresult
    · next result hphase =>
      cases hresult
      exact hphase
    · cases hresult
  obtain ⟨hcuts, hfollows⟩ | ⟨hcuts, -, hshort⟩ := hrun
  · refine ⟨fun _ => hcuts, fun _ => ?_⟩
    have hrows := hfollows.rows (by rw [hended]; exact nofun)
    rw [hfollows.ended verdict hended, hended] at hrows
    simpa [GuardrailRange.Phase.inHand] using hrows
  · refine ⟨fun hwhole => ?_, fun hnil => absurd hnil hcuts⟩
    rw [hwhole] at hshort
    exact absurd hshort (lt_irrefl _)

/-- **A success means the whole range.** Whatever the scan yields, and however the call interleaves
with stops and kills: a migrate range that is recorded as a success has read every row of its scan,
and written, skipped or failed each; a validate range has read every record, and skipped it or
classified all of its lookups; a guardrail range has measured every row exactly when it was not cut
short. -/
theorem success_means_whole_range (range : TokenRange) :
    (∀ [LiteralParsers] [SerdeJson] (plan : MigratePlan) (settings : MigrateSettings)
        (positions : List ℕ)
        (scan : List (List (Except CdmError Row))) (acts : List (RangeCall.Act MigrateRange.Act))
        (s : RangeCall MigrateCall (List (Except CdmError Row))),
      (RangeCall.lts (MigrateJob.rangeJob plan settings positions range) range).exec
          (.start (MigrateJob.rangeJob plan settings positions range) scan) acts = some s →
        s.Succeeded → MigrateCall.readRows s.job.rows = scan.flatten ∧
          ∀ row ∈ s.job.rows, row.2.isSettled = true) ∧
    (∀ [LiteralParsers] [SerdeJson] (job : ValidateJob) (fetchSize : ℕ)
        (scan : List Record) (acts : List (RangeCall.Act ValidateRange.Act))
        (s : RangeCall ValidateRange Record),
      (RangeCall.lts (job.rangeJob fetchSize) range).exec (.start (job.rangeJob fetchSize) scan)
          acts = some s → s.Succeeded →
        s.left = [] ∧ s.job.rows.length = scan.length ∧ ∀ row ∈ s.job.rows, row.isLost = false) ∧
    ∀ (job : GuardrailJob) (scan : List RowSizes)
        (acts : List (RangeCall.Act GuardrailRange.Act)) (s : RangeCall GuardrailRange RowSizes),
      (RangeCall.lts job.rangeJob range).exec (.start job.rangeJob scan) acts = some s →
        s.Succeeded →
          (s.job.measured = scan ↔
            (RangeCall.lts job.rangeJob range).outputs GuardrailRange.cutShort
              (.start job.rangeJob scan) acts = []) := by
  refine ⟨?_, ?_, ?_⟩
  · intro _ _ plan settings positions scan acts s h hs
    exact migrate_whole h hs
  · intro _ _ job fetchSize scan acts s h hs
    exact validate_whole h hs
  · intro job scan acts s h hs
    exact guardrail_whole_iff h hs

instance decidableSucceeded {σ ι : Type*} (s : RangeCall σ ι) : Decidable s.Succeeded :=
  decidable_of_iff (s.outcome.any (fun finished => finished.outcome.status ≠ .started ∧
    finished.outcome.status ≠ .fail) = true) <| by
      unfold RangeCall.Succeeded
      cases s.outcome <;> simp

namespace TwoRows

/-- A guardrail of one kilobyte on the column `value`. -/
def job : GuardrailJob := ⟨⟨["value"], 1000, true⟩, rfl⟩

/-- A short row and a large one. -/
def scan : List RowSizes := [⟨⟨[]⟩, [3]⟩, ⟨⟨[]⟩, [2000]⟩]

def range : TokenRange := .checked 0 9 (.refl true)

/-- Both rows are measured, although the run is killed in the end. -/
def measured : List (RangeCall.Act GuardrailRange.Act) :=
  [.read, .poll, .work .measure, .read, .poll, .control .cancelKilled, .work .measure, .read, .finish]

/-- The run is killed after the first row. -/
def killed : List (RangeCall.Act GuardrailRange.Act) :=
  [.read, .poll, .work .measure, .control .cancelKilled, .read, .poll, .finish]

theorem success_means_whole_range_measured :
    ∃ s, (RangeCall.lts job.rangeJob range).exec (.start job.rangeJob scan) measured = some s ∧
      s.Succeeded ∧ s.job.measured = scan := by
  have hsome : ((RangeCall.lts job.rangeJob range).exec (.start job.rangeJob scan) measured).any
      (fun s => s.Succeeded) = true := by decide
  obtain ⟨s, hs, hsucceeded⟩ := (Option.any_eq_true _ _).1 hsome
  refine ⟨s, hs, of_decide_eq_true hsucceeded, ?_⟩
  refine ((success_means_whole_range range).2.2 job scan measured s hs
    (of_decide_eq_true hsucceeded)).2 ?_
  decide

/-- The range is recorded as passed, and its large row was neither counted nor checked. -/
theorem passed_without_second_row :
    ∃ s, (RangeCall.lts job.rangeJob range).exec (.start job.rangeJob scan) killed = some s ∧
      s.Succeeded ∧ s.outcome.map (fun finished => finished.outcome.status) = some .pass ∧
      s.job.measured.length = 1 ∧ scan.length = 2 := by
  have hsome : ((RangeCall.lts job.rangeJob range).exec (.start job.rangeJob scan) killed).any
      (fun s => s.Succeeded ∧
        s.outcome.map (fun finished => finished.outcome.status) = some .pass ∧
        s.job.measured.length = 1 ∧ scan.length = 2) = true := by decide
  obtain ⟨s, hs, h⟩ := (Option.any_eq_true _ _).1 hsome
  exact ⟨s, hs, of_decide_eq_true h⟩

end TwoRows

end Cdm
