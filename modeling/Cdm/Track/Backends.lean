import Cdm.Track.Store
import Cdm.Lib.Fallible
import Cdm.LTS.Machine

/-!
# The three tracking backends

One run's rows in memory, in a SQLite file and in Cassandra, and the writes the backends share:
creating a run, updating a range and updating the run.  The backends differ in what they check and
in what they leave alone.

* In memory a range write replaces every column it carries.  Tokens are `i128` and no bound is
  checked.
* SQLite refuses a bound that is not a `bigint`, and a second row under one `token_min`.  A range
  write with the status `STARTED` leaves `run_info` alone, whatever it carries; any other keeps the
  columns it does not carry (`COALESCE`).
* Cassandra refuses a bound that is not a `bigint`.  Every write is an upsert of the columns it
  names: a range write with the status `STARTED` does not name `run_info`, any other does, and binds
  null when there is none.
-/

namespace Cdm

open Fallible Function List Option

/-- `token_bound`: a token that is stored in a `bigint` column. -/
def tokenBound (token : ℤ) (range : TokenRange) : Except CdmError ℤ :=
  if -2 ^ 63 ≤ token ∧ token < 2 ^ 63 then .ok token
  else .error (CdmError.withConfigKey ⟨.tracking,
    s!"token {token} of range {range} does not fit in the bigint column cdm_run_details uses. " ++
      "This is a RandomPartitioner ring; Java CDM truncates the value and resumes the wrong " ++
      "ranges. Disable run tracking, or migrate with a Murmur3 origin.", {}⟩ "track_run.enabled")

/-- The bounds of the planned ranges, checked before anything is written. -/
def tokenBounds (ranges : List TokenRange) : Except CdmError (List (ℤ × ℤ)) :=
  ranges.mapM fun range => do
    let min ← tokenBound range.min range
    let max ← tokenBound range.max range
    return (min, max)

/-- Milliseconds since the epoch. -/
def toMillis (nanos : ℤ) : ℤ := nanos / 1000000

/-- A call of a tracking store, and the clock when it is made. -/
inductive TrackingCall
  | createRun (run : RunRecord) (ranges : List TokenRange) (now : ℤ)
  | updateRange (record : RangeRecord) (now : ℤ)
  | updateRun (status : RunStatus) (info : Option String) (now : ℤ)

/-- What is read back and compared: the status and the metrics string of the run, and those of the
range under each `token_min`; the inner `none` is a row that cannot be read. -/
structure ReadBack where
  run : Option (RunStatus × Option String)
  ranges : ℤ → Option (Option (RunStatus × Option String))

/-- A run id that is taken, in a store that outlives the process. -/
def runIdTaken (run : RunRecord) : CdmError :=
  CdmError.withConfigKey ⟨.tracking,
    s!"run id {run.runId} already exists for table {run.table.table}; pick another " ++
      "track_run.run_id or omit it to have one allocated", {}⟩ "track_run.run_id"

/-- A run that is not there. -/
def runMissing (id : RunId) : CdmError := ⟨.tracking, s!"run {id} does not exist", {}⟩

/-! ### In memory -/

namespace MemoryStore

/-- The rows of the run, if it exists. -/
abbrev Tracking := Option StoredRun

/-- One call on the run `id`: the rows afterwards, or the error, which leaves them alone. -/
def track (id : RunId) (s : Tracking) : TrackingCall → Except CdmError Tracking
  | .createRun run ranges _ =>
    match s with
    | some _ => .error ⟨.tracking, s!"run id {run.runId} already exists for table {run.table}", {}⟩
    | none => .ok (some (StoredRun.create run ranges))
  | .updateRange record _ =>
    match s with
    | none => .error (runMissing id)
    | some stored => .ok (some (stored.updateRange record))
  | .updateRun status info now =>
    match s with
    | none => .error (runMissing id)
    | some stored => .ok (some (stored.updateRun status info now))

/-- What is read back. -/
def readBack (s : Tracking) : ReadBack where
  run := s.map fun stored => (stored.info.status, stored.info.info)
  ranges min := (s.bind fun stored => stored.ranges[min]?).map fun row => some (row.status, row.info)

/-- The in-memory backend, for the run `id`. -/
def tracking (id : RunId) : Machine Tracking TrackingCall (Option CdmError) := .ofFallible (track id)

end MemoryStore

/-! ### In a SQLite file -/

namespace SqliteStore

/-- A row of `cdm_run_info`. -/
structure InfoRow where
  runType : JobKind
  prevRunId : ℤ
  startTime : ℤ
  endTime : Option ℤ
  runInfo : Option String
  status : RunStatus

/-- A row of `cdm_run_details` under its `token_min`. -/
structure DetailRow where
  tokenMax : ℤ
  startTime : Option ℤ
  status : RunStatus
  runInfo : Option String

/-- The rows of one run id. -/
structure Tracking where
  info : Option InfoRow
  details : ℤ → Option DetailRow

/-- `INSERT INTO cdm_run_details`, once for each planned range; a key that is there already fails the
transaction. -/
def insertDetails (details : ℤ → Option DetailRow) :
    List (ℤ × ℤ) → Except CdmError (ℤ → Option DetailRow)
  | [] => .ok details
  | (min, max) :: bounds =>
    match details min with
    | some _ =>
      .error ⟨.tracking, "inserting a range row: UNIQUE constraint failed: " ++
        "cdm_run_details.keyspace_name, cdm_run_details.table_name, cdm_run_details.run_id, " ++
        "cdm_run_details.token_min", {}⟩
    | none => insertDetails (Function.update details min (some ⟨max, none, .notStarted, none⟩)) bounds

/-- `START_RUN_DETAIL`: `run_info` is left alone. -/
def startRunDetail (row : Option DetailRow) (max startTime : ℤ) (status : RunStatus) : DetailRow :=
  { tokenMax := max, startTime := some startTime, status, runInfo := row.bind DetailRow.runInfo }

/-- `UPDATE_RUN_DETAIL`: what the write does not carry is left alone, and so is a start time. -/
def updateRunDetail (row : Option DetailRow) (max : ℤ) (startTime : Option ℤ) (status : RunStatus)
    (info : Option String) : DetailRow :=
  { tokenMax := max
    startTime := (row.bind DetailRow.startTime).or startTime
    status
    runInfo := info.or (row.bind DetailRow.runInfo) }

/-- One call on the run `id`: the rows afterwards, or the error, which leaves them alone. -/
def track (id : RunId) (s : Tracking) : TrackingCall → Except CdmError Tracking
  | .createRun run ranges now => do
    let bounds ← tokenBounds ranges
    if s.info.isSome then
      .error (runIdTaken run)
    else do
      let details ← insertDetails s.details bounds
      return {
        info := some ⟨run.job, run.previousRunId.elim 0 fun id => id.raw.toInt,
          toMillis (run.startedAt.getD now), none, none, .started⟩
        details }
  | .updateRange record now => do
    let min ← tokenBound record.range.min record.range
    let max ← tokenBound record.range.max record.range
    let row :=
      if record.status = .started then
        startRunDetail (s.details min) max (toMillis (record.startedAt.getD now)) record.status
      else
        updateRunDetail (s.details min) max (record.startedAt.map toMillis) record.status record.info
    return { s with details := Function.update s.details min (some row) }
  | .updateRun status info now =>
    match s.info with
    | none => .error (runMissing id)
    | some row =>
      .ok { s with info := some { row with
        endTime := some (toMillis now), runInfo := info.or row.runInfo, status } }

/-- What is read back. -/
def readBack (s : Tracking) : ReadBack where
  run := s.info.map fun row => (row.status, row.runInfo)
  ranges min := (s.details min).map fun row => some (row.status, row.runInfo)

/-- The SQLite backend, for the run `id`. -/
def tracking (id : RunId) : Machine Tracking TrackingCall (Option CdmError) := .ofFallible (track id)

end SqliteStore

/-! ### In Cassandra -/

namespace CassandraStore

/-- A row of `cdm_run_info`; every column but the key may be null. -/
structure InfoRow where
  runType : Option JobKind := none
  prevRunId : Option ℤ := none
  startTime : Option ℤ := none
  endTime : Option ℤ := none
  runInfo : Option String := none
  status : Option RunStatus := none

/-- A row of `cdm_run_details` under its `token_min`. -/
structure DetailRow where
  tokenMax : Option ℤ := none
  startTime : Option ℤ := none
  status : Option RunStatus := none
  runInfo : Option String := none

/-- The rows of one run id. -/
structure Tracking where
  info : Option InfoRow
  details : ℤ → Option DetailRow

/-- `decode_status`: a null status counts as pending. -/
def decodeStatus (status : Option RunStatus) : RunStatus := status.getD .started

/-- Sets columns of the run row. -/
def Tracking.upsertInfo (s : Tracking) (set : InfoRow → InfoRow) : Tracking :=
  { s with info := some (set (s.info.getD {})) }

/-- Sets columns of a range row. -/
def Tracking.upsertDetail (s : Tracking) (min : ℤ) (set : DetailRow → DetailRow) : Tracking :=
  { s with details := Function.update s.details min (some (set ((s.details min).getD {}))) }

/-- `INSERT INTO cdm_run_info`, which does not name `run_info`. -/
def insertRunInfo (s : Tracking) (run : RunRecord) (now : ℤ) (status : RunStatus) : Tracking :=
  s.upsertInfo fun row => { row with
    runType := some run.job
    prevRunId := some (run.previousRunId.elim 0 fun id => id.raw.toInt)
    startTime := some (toMillis now)
    status := some status }

/-- `INSERT INTO cdm_run_details`. -/
def insertRunDetail (s : Tracking) (min max : ℤ) (status : RunStatus) : Tracking :=
  s.upsertDetail min fun row => { row with tokenMax := some max, status := some status }

/-- One call: the rows afterwards, or the error, which leaves them alone.  A run that is not there
is created by an update. -/
def track (s : Tracking) : TrackingCall → Except CdmError Tracking
  | .createRun run ranges now => do
    let bounds ← tokenBounds ranges
    if s.info.isSome then
      .error (runIdTaken run)
    else
      let s := insertRunInfo s run now .notStarted
      let s := bounds.foldl (fun s bound => insertRunDetail s bound.1 bound.2 .notStarted) s
      return insertRunInfo s run now .started
  | .updateRange record now => do
    let min ← tokenBound record.range.min record.range
    return s.upsertDetail min fun row =>
      if record.status = .started then
        { row with startTime := some (toMillis now), status := some record.status }
      else { row with status := some record.status, runInfo := record.info }
  | .updateRun status info now =>
    -- an absent metrics string is bound as unset
    .ok (s.upsertInfo fun row => { row with
      endTime := some (toMillis now), runInfo := info.or row.runInfo, status := some status })

/-- What is read back; a range row without `token_max` cannot be read. -/
def readBack (s : Tracking) : ReadBack where
  run := s.info.map fun row => (decodeStatus row.status, row.runInfo)
  ranges min := (s.details min).map fun row =>
    row.tokenMax.map fun _ => (decodeStatus row.status, row.runInfo)

/-- The Cassandra backend. -/
def tracking : Machine Tracking TrackingCall (Option CdmError) := .ofFallible track

end CassandraStore

/-! ### What is written -/

/-- The record a tracker creates its run with. -/
def newRunRecord (id : RunId) (previousRunId : Option RunId) (table : TableRef) (job : JobKind)
    (now : ℤ) : RunRecord where
  runId := id
  previousRunId := previousRunId
  table := table
  job := job
  status := .notStarted
  startedAt := some now
  endedAt := none
  info := none

/-- What is written once a run is created.  A range that was abandoned is finished with the status
`STARTED`; a range that a coordinator gives up is finished with `FAIL`. -/
inductive TrackingWrite
  | startRange (range : TokenRange) (now : ℤ)
  | finishRange (range : TokenRange) (status : RunStatus) (runInfo : String) (now : ℤ)
  | updateRun (status : RunStatus) (info : Option String) (now : ℤ)

namespace TrackingWrite

/-- The record of a range write. -/
def record? : TrackingWrite → Option RangeRecord
  | startRange range now => some (.startWrite range now)
  | finishRange range status runInfo _ => some (.finishWrite range status runInfo)
  | updateRun _ _ _ => none

def call : TrackingWrite → TrackingCall
  | startRange range now => .updateRange (.startWrite range now) now
  | finishRange range status runInfo now => .updateRange (.finishWrite range status runInfo) now
  | updateRun status info now => .updateRun status info now

/-- The status and the metrics string of the run after a write. -/
def advanceRun : TrackingWrite → RunStatus × Option String → RunStatus × Option String
  | updateRun status info _, row => (status, info.or row.2)
  | _, row => row

/-- The status and the metrics string of the range under `min` after a write, in a backend that
keeps the metrics of the writes with a status that `counts`. -/
def advance (counts : RunStatus → Bool) (min : ℤ) (write : TrackingWrite)
    (row : RunStatus × Option String) : RunStatus × Option String :=
  match write.record? with
  | none => row
  | some record =>
    if record.range.min = min then
      (record.status, if counts record.status then record.info.or row.2 else row.2)
    else row

/-- A write without a metrics string marks a range as started. -/
theorem info_of_record? {write : TrackingWrite} {record : RangeRecord}
    (h : write.record? = some record) :
    record.info.isSome = true ∨ record.status = .started ∧ record.info = none := by
  cases write with
  | startRange range now =>
    cases h
    exact .inr ⟨rfl, rfl⟩
  | finishRange range status runInfo now =>
    cases h
    exact .inl rfl
  | updateRun status info now => cases h

/-- A write is a write to a range, or a write to the run. -/
theorem call_cases (write : TrackingWrite) :
    (∃ record now, write.record? = some record ∧ write.call = .updateRange record now) ∨
      ∃ status info now, write = .updateRun status info now := by
  cases write with
  | startRange range now => exact .inl ⟨_, now, rfl, rfl⟩
  | finishRange range status runInfo now => exact .inl ⟨_, now, rfl, rfl⟩
  | updateRun status info now => exact .inr ⟨status, info, now, rfl⟩

theorem advanceRun_of_record? {write : TrackingWrite} {record : RangeRecord}
    (h : write.record? = some record) (run : RunStatus × Option String) :
    write.advanceRun run = run := by
  cases write with
  | startRange range now => rfl
  | finishRange range status runInfo now => rfl
  | updateRun status info now => cases h

end TrackingWrite

/-- The last metrics string that is written for the range under `min` with a status that
`counts`. -/
def lastMetrics (counts : RunStatus → Bool) (min : ℤ) (writes : List TrackingWrite) :
    Option String :=
  writes.foldl (fun last write =>
    match write.record? with
    | none => last
    | some record =>
      if record.range.min = min && counts record.status then record.info.or last else last) none

/-- The status does not depend on which metrics count. -/
theorem advance_fst (counts counts' : RunStatus → Bool) (min : ℤ) (write : TrackingWrite)
    {row row' : RunStatus × Option String} (h : row.1 = row'.1) :
    (write.advance counts min row).1 = (write.advance counts' min row').1 := by
  unfold TrackingWrite.advance
  cases write.record? with
  | none => exact h
  | some record =>
    by_cases hmin : record.range.min = min
    · simp [hmin]
    · simpa [hmin] using h

/-- The row of the range under `min` after all writes. -/
def rowAfter (counts : RunStatus → Bool) (min : ℤ) (writes : List TrackingWrite) :
    RunStatus × Option String :=
  writes.foldl (fun row write => write.advance counts min row) (.notStarted, none)

theorem rowAfter_fst (counts counts' : RunStatus → Bool) (min : ℤ) (writes : List TrackingWrite) :
    (rowAfter counts min writes).1 = (rowAfter counts' min writes).1 := by
  have fold : ∀ (row row' : RunStatus × Option String), row.1 = row'.1 →
      (writes.foldl (fun row write => write.advance counts min row) row).1 =
        (writes.foldl (fun row write => write.advance counts' min row) row').1 := by
    induction writes with
    | nil => exact fun _ _ h => h
    | cons write writes ih => exact fun _ _ h => ih _ _ (advance_fst counts counts' min write h)
  exact fold _ _ rfl

theorem rowAfter_snd (counts : RunStatus → Bool) (min : ℤ) (writes : List TrackingWrite) :
    (rowAfter counts min writes).2 = lastMetrics counts min writes := by
  have fold : ∀ row : RunStatus × Option String,
      (writes.foldl (fun row write => write.advance counts min row) row).2 =
        writes.foldl (fun last write =>
          match write.record? with
          | none => last
          | some record =>
            if record.range.min = min && counts record.status then record.info.or last
            else last) row.2 := by
    induction writes with
    | nil => exact fun _ => rfl
    | cons write writes ih =>
      intro row
      rw [foldl_cons, foldl_cons, ih]
      congr 1
      unfold TrackingWrite.advance
      cases write.record? with
      | none => rfl
      | some record =>
        by_cases hmin : record.range.min = min
        · simp [hmin]
        · simp [hmin]
  exact fold _

/-! ### Following the writes -/

/-- What is read back of a run with the given rows. -/
def shows (run : RunStatus × Option String) (rows : ℤ → Option (RunStatus × Option String)) :
    ReadBack :=
  ⟨some run, fun min => (rows min).map some⟩

/-- What is read back is given by the run and by the range under each `token_min`. -/
theorem eq_shows {r : ReadBack} {run : RunStatus × Option String}
    {rows : ℤ → Option (RunStatus × Option String)} :
    r = shows run rows ↔ r.run = some run ∧ ∀ min, r.ranges min = (rows min).map some := by
  constructor
  · rintro rfl
    exact ⟨rfl, fun _ => rfl⟩
  · rintro ⟨hrun, hrows⟩
    cases r
    cases hrun
    cases funext hrows
    rfl

/-- The bounds of a range fit the columns they are stored in. -/
def Fits (range : TokenRange) : Prop := -2 ^ 63 ≤ range.min ∧ range.max < 2 ^ 63

/-- A backend follows the writes, keeping the metrics that `counts`: a run write sets what it carries,
and a write to a range that has a row sets that row. -/
structure Follows {S : Type} (M : Machine S TrackingCall (Option CdmError))
    (readBack : S → ReadBack) (counts : RunStatus → Bool) : Prop where
  run : ∀ s row status info now, (readBack s).run = some row →
    (readBack (M.step s (.updateRun status info now)).1).run = some (status, info.or row.2) ∧
      (readBack (M.step s (.updateRun status info now)).1).ranges = (readBack s).ranges
  range : ∀ s run row (write : TrackingWrite) record now, write.record? = some record →
    Fits record.range → (readBack s).run = some run →
    (readBack s).ranges record.range.min = some (some row) →
    (readBack (M.step s (.updateRange record now)).1).run = some run ∧
      (readBack (M.step s (.updateRange record now)).1).ranges =
        Function.update (readBack s).ranges record.range.min (some (some
          (record.status, if counts record.status then record.info.or row.2 else row.2)))

theorem Follows.step {S : Type} {M : Machine S TrackingCall (Option CdmError)}
    {readBack : S → ReadBack} {counts : RunStatus → Bool} (h : Follows M readBack counts) {s : S}
    {run : RunStatus × Option String} {rows : ℤ → Option (RunStatus × Option String)}
    (write : TrackingWrite) (hs : readBack s = shows run rows)
    (hwrite : ∀ record ∈ write.record?,
      Fits record.range ∧ (rows record.range.min).isSome = true) :
    readBack (M.step s write.call).1 =
      shows (write.advanceRun run) fun min => (rows min).map (write.advance counts min) := by
  obtain ⟨hrun, hrows⟩ := eq_shows.1 hs
  rcases write.call_cases with ⟨record, now, hrecord, hcall⟩ | ⟨status, info, now, rfl⟩
  · obtain ⟨hfits, hsome⟩ := hwrite record hrecord
    obtain ⟨row, hrow⟩ := isSome_iff_exists.1 hsome
    have hread : (readBack s).ranges record.range.min = some (some row) := by
      rw [hrows, hrow]
      rfl
    obtain ⟨hrun', hranges⟩ := h.range s run row write record now hrecord hfits hrun hread
    rw [hcall]
    refine eq_shows.2 ⟨by rw [hrun', write.advanceRun_of_record? hrecord], fun min => ?_⟩
    rw [hranges]
    by_cases hmin : min = record.range.min
    · subst hmin
      simp [hrow, TrackingWrite.advance, hrecord]
    · have hkeep : write.advance counts min = id := by
        funext row
        simp [TrackingWrite.advance, hrecord, Ne.symm hmin]
      rw [update_of_ne hmin, hrows, hkeep, Option.map_id, id]
  · obtain ⟨hrun', hranges⟩ := h.run s run status info now hrun
    refine eq_shows.2 ⟨hrun', fun min => ?_⟩
    have hkeep : (TrackingWrite.updateRun status info now).advance counts min = id := rfl
    rw [hkeep, Option.map_id, id, ← hrows]
    exact congrFun hranges min

/-- **Induction over the writes** of a backend that follows them. -/
theorem Follows.run_shows {S : Type} {M : Machine S TrackingCall (Option CdmError)}
    {readBack : S → ReadBack} {counts : RunStatus → Bool} (h : Follows M readBack counts)
    {writes : List TrackingWrite} {s : S} {run : RunStatus × Option String}
    {rows : ℤ → Option (RunStatus × Option String)} (hs : readBack s = shows run rows)
    (hwrites : ∀ write ∈ writes, ∀ record ∈ write.record?,
      Fits record.range ∧ (rows record.range.min).isSome = true) :
    readBack (M.run s (writes.map TrackingWrite.call)) =
      shows (writes.foldl (fun run write => write.advanceRun run) run) fun min =>
        (rows min).map fun row => writes.foldl (fun row write => write.advance counts min row) row := by
  induction writes generalizing s run rows with
  | nil => simpa [Machine.run] using hs
  | cons write writes ih =>
    have hstep := h.step write hs (hwrites write mem_cons_self)
    rw [map_cons, Machine.run, ih hstep]
    · simp only [foldl_cons, Option.map_map, comp_def]
    · intro w hw record hrecord
      simpa using hwrites w (mem_cons_of_mem _ hw) record hrecord

theorem tokenBound_min {range : TokenRange} (h : Fits range) :
    tokenBound range.min range = .ok range.min := by
  have hle := range.min_le_max
  exact if_pos ⟨h.1, by have := h.2; omega⟩

theorem tokenBound_max {range : TokenRange} (h : Fits range) :
    tokenBound range.max range = .ok range.max := by
  have hle := range.min_le_max
  exact if_pos ⟨by have := h.1; omega, h.2⟩

/-- The bounds of the planned ranges can be stored when all of them fit. -/
theorem tokenBounds_eq_ok {ranges : List TokenRange} {bounds : List (ℤ × ℤ)} :
    tokenBounds ranges = .ok bounds ↔
      (∀ range ∈ ranges, Fits range) ∧ bounds = ranges.map fun range => (range.min, range.max) := by
  induction ranges generalizing bounds with
  | nil => simp [tokenBounds, pure, Except.pure, eq_comm]
  | cons range ranges ih =>
    rw [tokenBounds, mapM_cons, bind_eq_ok]
    constructor
    · rintro ⟨bound, hbound, h⟩
      obtain ⟨rest, hrest, h⟩ := bind_eq_ok.1 h
      cases h
      obtain ⟨hfits, rfl⟩ := ih.1 hrest
      obtain ⟨min, hmin, hbound⟩ := bind_eq_ok.1 hbound
      obtain ⟨max, hmax, hbound⟩ := bind_eq_ok.1 hbound
      cases hbound
      rw [tokenBound] at hmin hmax
      split_ifs at hmin hmax with hlo hhi
      cases hmin
      cases hmax
      exact ⟨forall_mem_cons.2 ⟨⟨hlo.1, hhi.2⟩, hfits⟩, rfl⟩
    · rintro ⟨hfits, rfl⟩
      rw [forall_mem_cons] at hfits
      refine ⟨(range.min, range.max), ?_, ?_⟩
      · rw [tokenBound_min hfits.1, tokenBound_max hfits.1]
        rfl
      · exact bind_eq_ok.2 ⟨_, ih.2 ⟨hfits.2, rfl⟩, rfl⟩

/-- The rows of a run that has just been created. -/
def plannedRows (ranges : List TokenRange) (min : ℤ) : Option (RunStatus × Option String) :=
  if min ∈ ranges.map TokenRange.min then some (.notStarted, none) else none

namespace MemoryStore

/-- The in-memory backend creates a run. -/
theorem readBack_create {run : RunRecord} {ranges : List TokenRange} (hinfo : run.info = none)
    (hnodup : (ranges.map TokenRange.min).Nodup) :
    readBack (some (StoredRun.create run ranges)) = shows (.started, none) (plannedRows ranges) := by
  refine eq_shows.2 ⟨by simp [readBack, StoredRun.create, hinfo], fun min => ?_⟩
  have hkeys : ((ranges.map StoredRun.plannedRow).map fun r => r.range.min).Nodup := by
    simpa [StoredRun.plannedRow, comp_def] using hnodup
  have hget {row : RangeRecord} : (StoredRun.create run ranges).ranges[min]? = some row ↔
      row ∈ ranges.map StoredRun.plannedRow ∧ row.range.min = min := Table.getElem?_load hkeys
  show ((StoredRun.create run ranges).ranges[min]?).map (fun row => some (row.status, row.info)) = _
  rw [plannedRows]
  split_ifs with hmin
  · obtain ⟨range, hrange, rfl⟩ := mem_map.1 hmin
    rw [hget.2 ⟨mem_map_of_mem hrange, rfl⟩]
    rfl
  · cases hrow : (StoredRun.create run ranges).ranges[min]? with
    | none => rfl
    | some row =>
      obtain ⟨hmem, rfl⟩ := hget.1 hrow
      obtain ⟨range, hrange, rfl⟩ := mem_map.1 hmem
      exact absurd (mem_map_of_mem hrange) hmin

/-- A run stays there. -/
theorem isSome_run (id : RunId) (stored : StoredRun) (calls : List TrackingCall) :
    ((tracking id).run (some stored) calls).isSome = true := by
  refine Machine.run_invariant (I := fun s : Tracking => s.isSome = true) ?_ rfl
  intro s call _ hs
  obtain ⟨stored, rfl⟩ := isSome_iff_exists.1 hs
  cases call <;> rfl

/-- The in-memory backend keeps every metrics string. -/
theorem tracking_follows (id : RunId) : Follows (tracking id) readBack fun _ => true where
  run s row status info now hrun := by
    obtain ⟨stored, rfl, hstored⟩ := map_eq_some_iff.1 hrun
    cases hstored
    exact ⟨rfl, rfl⟩
  range s run row write record now hrecord hfits hrun hrow := by
    obtain ⟨stored, rfl, hstored⟩ := map_eq_some_iff.1 hrun
    refine ⟨hrun, funext fun min => ?_⟩
    show ((stored.updateRange record).ranges[min]?).map (fun row => some (row.status, row.info)) = _
    rw [StoredRun.getElem?_updateRange]
    by_cases hmin : min = record.range.min
    · subst hmin
      obtain ⟨old, hold, heq⟩ := map_eq_some_iff.1 hrow
      rw [bind_some] at hold
      cases heq
      rw [if_pos rfl, hold, update_self]
      rfl
    · rw [if_neg hmin, update_of_ne hmin]
      rfl

end MemoryStore

namespace SqliteStore

/-- The planned ranges are inserted when their keys are new. -/
theorem insertDetails_eq_ok {bounds : List (ℤ × ℤ)} {details : ℤ → Option DetailRow}
    (hnodup : (bounds.map Prod.fst).Nodup) (hnew : ∀ bound ∈ bounds, details bound.1 = none) :
    ∃ out, insertDetails details bounds = .ok out ∧ ∀ min,
      (out min).map (fun row => some (row.status, row.runInfo)) =
        if min ∈ bounds.map Prod.fst then some (some (.notStarted, none))
        else (details min).map fun row => some (row.status, row.runInfo) := by
  induction bounds generalizing details with
  | nil => exact ⟨details, rfl, fun _ => by simp⟩
  | cons bound bounds ih =>
    obtain ⟨min, max⟩ := bound
    rw [map_cons, nodup_cons] at hnodup
    rw [forall_mem_cons] at hnew
    have hnext : ∀ bound ∈ bounds,
        Function.update details min (some ⟨max, none, .notStarted, none⟩) bound.1 = none := by
      intro bound hbound
      have hne : bound.1 ≠ min := by
        intro h
        exact hnodup.1 (mem_map.2 ⟨bound, hbound, h⟩)
      rw [update_of_ne hne]
      exact hnew.2 bound hbound
    obtain ⟨out, hout, hrows⟩ := ih hnodup.2 hnext
    refine ⟨out, by rw [insertDetails, hnew.1]; exact hout, fun min' => ?_⟩
    rw [hrows, map_cons]
    by_cases hmin : min' = min
    · subst hmin
      simp [hnodup.1]
    · simp only [mem_cons, hmin, false_or, update_of_ne hmin]

/-- Two ranges with one `token_min` are not inserted. -/
theorem nodup_of_insertDetails {bounds : List (ℤ × ℤ)} {details out : ℤ → Option DetailRow}
    (h : insertDetails details bounds = .ok out) :
    (bounds.map Prod.fst).Nodup ∧ ∀ bound ∈ bounds, details bound.1 = none := by
  induction bounds generalizing details with
  | nil => simp
  | cons bound bounds ih =>
    obtain ⟨min, max⟩ := bound
    rw [insertDetails] at h
    split at h
    · cases h
    · rename_i hmin
      obtain ⟨hnodup, hnew⟩ := ih h
      have hfresh : ∀ b ∈ bounds, b.1 ≠ min := by
        intro b hb heq
        have := hnew b hb
        simp [heq] at this
      refine ⟨?_, ?_⟩
      · rw [map_cons, nodup_cons]
        refine ⟨?_, hnodup⟩
        intro hmem
        obtain ⟨b, hb, heq⟩ := mem_map.1 hmem
        exact hfresh b hb heq
      · rw [forall_mem_cons]
        refine ⟨hmin, fun b hb => ?_⟩
        have := hnew b hb
        rwa [update_of_ne (hfresh b hb)] at this

/-- The SQLite backend creates a run whose ranges fit and have different keys. -/
theorem readBack_create {id : RunId} {run : RunRecord} {ranges : List TokenRange} {now : ℤ}
    (hfits : ∀ range ∈ ranges, Fits range) (hnodup : (ranges.map TokenRange.min).Nodup) :
    readBack ((tracking id).step ⟨none, fun _ => none⟩ (.createRun run ranges now)).1 =
      shows (.started, none) (plannedRows ranges) := by
  have hkeys : ((ranges.map fun range => (range.min, range.max)).map Prod.fst) =
      ranges.map TokenRange.min := by
    simp [comp_def]
  obtain ⟨out, hout, hrows⟩ :=
    @insertDetails_eq_ok _ (fun _ => none) (hkeys.symm ▸ hnodup) fun _ _ => rfl
  have hcreate : track id ⟨none, fun _ => none⟩ (.createRun run ranges now) = .ok ⟨some _, out⟩ :=
    bind_eq_ok.2 ⟨_, tokenBounds_eq_ok.2 ⟨hfits, rfl⟩,
      bind_eq_ok.2 ⟨out, hout, rfl⟩⟩
  rw [tracking, Machine.ofFallible_step hcreate]
  refine eq_shows.2 ⟨rfl, fun min => ?_⟩
  show (out min).map _ = _
  rw [hrows, hkeys, plannedRows]
  split_ifs
  · rfl
  · rfl

/-- Otherwise there is no run, and none is created later. -/
theorem run_eq_none {id : RunId} {run : RunRecord} {ranges : List TokenRange} {now : ℤ}
    (h : ¬((∀ range ∈ ranges, Fits range) ∧ (ranges.map TokenRange.min).Nodup))
    (writes : List TrackingWrite) :
    (readBack ((tracking id).run ⟨none, fun _ => none⟩
      (.createRun run ranges now :: writes.map TrackingWrite.call))).run = none := by
  have hfailed : ∃ e, track id ⟨none, fun _ => none⟩ (.createRun run ranges now) = .error e := by
    cases hcreate : track id ⟨none, fun _ => none⟩ (.createRun run ranges now) with
    | error e => exact ⟨e, rfl⟩
    | ok s =>
      obtain ⟨bounds, hbounds, hrest⟩ := bind_eq_ok.1 hcreate
      obtain ⟨hfits, rfl⟩ := tokenBounds_eq_ok.1 hbounds
      obtain ⟨out, hout, -⟩ := bind_eq_ok.1 hrest
      refine absurd ⟨hfits, ?_⟩ h
      simpa [comp_def] using (nodup_of_insertDetails hout).1
  obtain ⟨e, he⟩ := hfailed
  have hinfo : ((tracking id).run ⟨none, fun _ => none⟩ (writes.map TrackingWrite.call)).info =
      none := by
    refine Machine.run_invariant (I := fun s : Tracking => s.info = none) ?_ rfl
    intro s call hcall hs
    obtain ⟨write, -, rfl⟩ := mem_map.1 hcall
    rcases write.call_cases with ⟨record, now, -, hcall⟩ | ⟨status, info, now, rfl⟩
    · rw [hcall, tracking, Machine.ofFallible]
      dsimp only
      split
      · rename_i s' hs'
        obtain ⟨min, -, hs'⟩ := bind_eq_ok.1 hs'
        obtain ⟨max, -, hs'⟩ := bind_eq_ok.1 hs'
        cases hs'
        exact hs
      · exact hs
    · rw [TrackingWrite.call, tracking, Machine.ofFallible_step_of_error (by rw [track, hs])]
      exact hs
  rw [Machine.run, tracking, Machine.ofFallible_step_of_error he]
  show Option.map _ ((tracking id).run ⟨none, fun _ => none⟩ _).info = none
  rw [hinfo]
  rfl

/-- The SQLite backend keeps the metrics string of a range unless it is abandoned. -/
theorem tracking_follows (id : RunId) :
    Follows (tracking id) readBack fun status => status ≠ .started where
  run s row status info now hrun := by
    obtain ⟨info', hinfo, hrow⟩ := map_eq_some_iff.1 hrun
    cases hrow
    rw [tracking, Machine.ofFallible_step (by rw [track, hinfo])]
    exact ⟨rfl, rfl⟩
  range s run row write record now hrecord hfits hrun hrow := by
    rw [tracking, Machine.ofFallible_step (by
      rw [track, tokenBound_min hfits, tokenBound_max hfits]
      rfl)]
    refine ⟨hrun, funext fun min => ?_⟩
    obtain ⟨old, hold, heq⟩ := map_eq_some_iff.1 hrow
    cases heq
    by_cases hmin : min = record.range.min
    · subst hmin
      by_cases hstatus : record.status = .started
      · simp [readBack, hstatus, startRunDetail, hold]
      · simp [readBack, hstatus, updateRunDetail, hold]
    · simp [readBack, hmin]

end SqliteStore

namespace CassandraStore

/-- The planned ranges are inserted, whatever is there. -/
theorem foldl_insertRunDetail (bounds : List (ℤ × ℤ)) (s : Tracking) :
    (bounds.foldl (fun s bound => insertRunDetail s bound.1 bound.2 .notStarted) s).info = s.info ∧
      ∀ min, (readBack (bounds.foldl (fun s bound =>
        insertRunDetail s bound.1 bound.2 .notStarted) s)).ranges min =
          if min ∈ bounds.map Prod.fst then
            some (some (.notStarted, (s.details min).bind DetailRow.runInfo))
          else (readBack s).ranges min := by
  induction bounds generalizing s with
  | nil => exact ⟨rfl, fun _ => by simp⟩
  | cons bound bounds ih =>
    obtain ⟨hinfo, hrows⟩ := ih (insertRunDetail s bound.1 bound.2 .notStarted)
    refine ⟨hinfo, fun min => ?_⟩
    rw [foldl_cons, hrows, map_cons]
    by_cases hmin : min = bound.1
    · subst hmin
      cases hrow : s.details bound.1 <;>
        simp [insertRunDetail, Tracking.upsertDetail, readBack, decodeStatus, hrow]
    · simp only [insertRunDetail, Tracking.upsertDetail, readBack, mem_cons, hmin, false_or,
        update_of_ne hmin]

/-- The Cassandra backend creates a run whose ranges fit. -/
theorem readBack_create {run : RunRecord} {ranges : List TokenRange} {now : ℤ}
    (hfits : ∀ range ∈ ranges, Fits range) :
    readBack (tracking.step ⟨none, fun _ => none⟩ (.createRun run ranges now)).1 =
      shows (.started, none) (plannedRows ranges) := by
  have hkeys : ((ranges.map fun range => (range.min, range.max)).map Prod.fst) =
      ranges.map TokenRange.min := by
    simp [comp_def]
  have hcreate : track ⟨none, fun _ => none⟩ (.createRun run ranges now) = .ok _ :=
    bind_eq_ok.2 ⟨_, tokenBounds_eq_ok.2 ⟨hfits, rfl⟩, rfl⟩
  obtain ⟨hinfo, hrows⟩ := foldl_insertRunDetail (ranges.map fun range => (range.min, range.max))
    (insertRunInfo ⟨none, fun _ => none⟩ run now .notStarted)
  rw [tracking, Machine.ofFallible_step hcreate]
  refine eq_shows.2 ⟨?_, fun min => ?_⟩
  · unfold readBack
    rw [insertRunInfo, Tracking.upsertInfo, hinfo]
    rfl
  · refine (hrows min).trans ?_
    rw [hkeys, plannedRows]
    split_ifs
    · rfl
    · rfl

/-- The Cassandra backend keeps the metrics string of a range unless it is abandoned. -/
theorem tracking_follows : Follows tracking readBack fun status => status ≠ .started where
  run s row status info now hrun := by
    obtain ⟨info', hinfo, hrow⟩ := map_eq_some_iff.1 hrun
    cases hrow
    rw [tracking, Machine.ofFallible_step rfl]
    refine ⟨?_, rfl⟩
    simp [readBack, Tracking.upsertInfo, hinfo, decodeStatus]
  range s run row write record now hrecord hfits hrun hrow := by
    rw [tracking, Machine.ofFallible_step (by
      rw [track, tokenBound_min hfits]
      rfl)]
    refine ⟨hrun, funext fun min => ?_⟩
    obtain ⟨old, hold, heq⟩ := map_eq_some_iff.1 hrow
    obtain ⟨max, hmax, heq⟩ := map_eq_some_iff.1 heq
    cases heq
    by_cases hmin : min = record.range.min
    · subst hmin
      by_cases hstatus : record.status = .started
      · simp [readBack, Tracking.upsertDetail, hold, hmax, hstatus, decodeStatus]
      · have hinfo : record.info.or old.runInfo = record.info := by
          rcases write.info_of_record? hrecord with hsome | ⟨hstarted, -⟩
          · obtain ⟨info, hinfo⟩ := isSome_iff_exists.1 hsome
            rw [hinfo]
            rfl
          · exact absurd hstarted hstatus
        simp [readBack, Tracking.upsertDetail, hold, hmax, hstatus, decodeStatus, hinfo]
    · simp [readBack, Tracking.upsertDetail, hmin]

end CassandraStore

/-! ### Agreement -/

section Agreement

variable (id : RunId) (previousRunId : Option RunId) (table : TableRef) (job : JobKind) (now : ℤ)
  (ranges : List TokenRange) (writes : List TrackingWrite)

/-- The calls of a run: it is created, and then written to. -/
def runCalls : List TrackingCall :=
  .createRun (newRunRecord id previousRunId table job now) ranges now ::
    writes.map TrackingWrite.call

/-- What the in-memory backend reads back after a run. -/
def MemoryStore.readAfter : ReadBack :=
  readBack ((tracking id).run none (runCalls id previousRunId table job now ranges writes))

/-- What the SQLite backend reads back after a run. -/
def SqliteStore.readAfter : ReadBack :=
  readBack ((tracking id).run ⟨none, fun _ => none⟩
    (runCalls id previousRunId table job now ranges writes))

/-- What the Cassandra backend reads back after a run. -/
def CassandraStore.readAfter : ReadBack :=
  readBack (tracking.run ⟨none, fun _ => none⟩
    (runCalls id previousRunId table job now ranges writes))

/-- What is read back of a run whose ranges were planned, when the metrics that `counts` are kept. -/
def tracked (counts : RunStatus → Bool) : ReadBack :=
  shows (writes.foldl (fun run write => write.advanceRun run) (.started, none)) fun min =>
    if min ∈ ranges.map TokenRange.min then some (rowAfter counts min writes) else none

/-- A backend that follows the writes and creates the run as planned. -/
theorem Follows.run_tracked {S : Type} {M : Machine S TrackingCall (Option CdmError)}
    {readBack : S → ReadBack} {counts : RunStatus → Bool} (h : Follows M readBack counts)
    {s : S} (hs : readBack s = shows (.started, none) (plannedRows ranges))
    (hfits : ∀ range ∈ ranges, Fits range)
    (hplanned : ∀ write ∈ writes, ∀ record ∈ write.record?, record.range ∈ ranges) :
    readBack (M.run s (writes.map TrackingWrite.call)) = tracked ranges writes counts := by
  rw [h.run_shows hs]
  · refine congrArg _ (funext fun min => ?_)
    unfold plannedRows
    split_ifs
    · rfl
    · rfl
  · intro write hwrite record hrecord
    have hmem := hplanned write hwrite record hrecord
    exact ⟨hfits _ hmem, by rw [plannedRows, if_pos (mem_map_of_mem hmem)]; rfl⟩

/-- What two backends read back is the same when their last metrics strings are. -/
theorem tracked_eq_iff (counts counts' : RunStatus → Bool) :
    tracked ranges writes counts = tracked ranges writes counts' ↔
      ∀ range ∈ ranges, lastMetrics counts range.min writes = lastMetrics counts' range.min writes := by
  constructor
  · intro h range hrange
    have hrow := congrFun (congrArg ReadBack.ranges h) range.min
    have hmem : range.min ∈ ranges.map TokenRange.min := mem_map_of_mem hrange
    simp only [tracked, shows, if_pos hmem, map_some, Option.some.injEq] at hrow
    rw [← rowAfter_snd, ← rowAfter_snd, hrow]
  · intro h
    refine congrArg (shows _) (funext fun min => ?_)
    split_ifs with hmin
    · obtain ⟨range, hrange, rfl⟩ := mem_map.1 hmin
      refine congrArg some (Prod.ext (rowAfter_fst _ _ _ _) ?_)
      rw [rowAfter_snd, rowAfter_snd, h range hrange]
    · rfl

variable {ranges writes}

/-- The three tracking backends read back the same exactly when the planned ranges fit their columns
and have different keys, and for each of them the last metrics string was not written with the
status `STARTED`, as it is when a range is abandoned: then it is lost in SQLite and in Cassandra. -/
theorem tracking_stores_agree_iff
    (hplanned : ∀ write ∈ writes, ∀ record ∈ write.record?, record.range ∈ ranges) :
    (MemoryStore.readAfter id previousRunId table job now ranges writes =
        SqliteStore.readAfter id previousRunId table job now ranges writes ∧
      MemoryStore.readAfter id previousRunId table job now ranges writes =
        CassandraStore.readAfter id previousRunId table job now ranges writes) ↔
      (∀ range ∈ ranges, Fits range) ∧ (ranges.map TokenRange.min).Nodup ∧
        ∀ range ∈ ranges, lastMetrics (fun _ => true) range.min writes =
          lastMetrics (fun status => status ≠ .started) range.min writes := by
  by_cases hcreated : (∀ range ∈ ranges, Fits range) ∧ (ranges.map TokenRange.min).Nodup
  · obtain ⟨hfits, hnodup⟩ := hcreated
    have hmemory : MemoryStore.readAfter id previousRunId table job now ranges writes =
        tracked ranges writes fun _ => true :=
      (MemoryStore.tracking_follows id).run_tracked ranges writes
        (MemoryStore.readBack_create rfl hnodup) hfits hplanned
    have hsqlite : SqliteStore.readAfter id previousRunId table job now ranges writes =
        tracked ranges writes fun status => status ≠ .started :=
      (SqliteStore.tracking_follows id).run_tracked ranges writes
        (SqliteStore.readBack_create hfits hnodup) hfits hplanned
    have hcassandra : CassandraStore.readAfter id previousRunId table job now ranges writes =
        tracked ranges writes fun status => status ≠ .started :=
      CassandraStore.tracking_follows.run_tracked ranges writes
        (CassandraStore.readBack_create hfits) hfits hplanned
    rw [hmemory, hsqlite, hcassandra, and_self, tracked_eq_iff]
    exact ⟨fun h => ⟨hfits, hnodup, h⟩, fun h => h.2.2⟩
  · -- SQLite has refused the run, and the in-memory backend has it
    constructor
    · rintro ⟨hsqlite, -⟩
      have hrun := congrArg ReadBack.run hsqlite
      rw [SqliteStore.readAfter, runCalls, SqliteStore.run_eq_none hcreated] at hrun
      have hsome := MemoryStore.isSome_run id
        (StoredRun.create (newRunRecord id previousRunId table job now) ranges)
        (writes.map TrackingWrite.call)
      obtain ⟨stored, hstored⟩ := isSome_iff_exists.1 hsome
      have hmemory : (MemoryStore.readAfter id previousRunId table job now ranges writes).run =
          some (stored.info.status, stored.info.info) := by
        show (MemoryStore.readBack ((MemoryStore.tracking id).run (some (StoredRun.create
          (newRunRecord id previousRunId table job now) ranges)) _)).run = _
        rw [hstored]
        rfl
      rw [hmemory] at hrun
      cases hrun
    · rintro ⟨hfits, hnodup, -⟩
      exact absurd ⟨hfits, hnodup⟩ hcreated

end Agreement

section Abandoned

/-- One range, `[0, 9]`. -/
def firstRange : TokenRange := .checked 0 9 (.refl true)

/-- The range is started and passes. -/
def passedWrites : List TrackingWrite :=
  [.startRange firstRange 1, .finishRange firstRange .pass "Read: 4" 2,
    .updateRun .ended (some "Read: 4") 3]

/-- The range is started and abandoned: it is finished with the status `STARTED`. -/
def abandonedWrites : List TrackingWrite :=
  [.startRange firstRange 1, .finishRange firstRange .started "Read: 4" 2]

theorem tracking_stores_agree_iff_passed :
    MemoryStore.readAfter ⟨7⟩ none ⟨"ks", "t"⟩ .migrate 0 [firstRange] passedWrites =
        SqliteStore.readAfter ⟨7⟩ none ⟨"ks", "t"⟩ .migrate 0 [firstRange] passedWrites ∧
      MemoryStore.readAfter ⟨7⟩ none ⟨"ks", "t"⟩ .migrate 0 [firstRange] passedWrites =
        CassandraStore.readAfter ⟨7⟩ none ⟨"ks", "t"⟩ .migrate 0 [firstRange] passedWrites := by
  refine (tracking_stores_agree_iff _ _ _ _ _ ?_).2 ⟨?_, ?_, ?_⟩
  · intro write hwrite record hrecord
    simp only [passedWrites, mem_cons, not_mem_nil, or_false] at hwrite
    rcases hwrite with rfl | rfl | rfl
    · cases hrecord
      exact mem_cons_self
    · cases hrecord
      exact mem_cons_self
    · cases hrecord
  · exact forall_mem_singleton.2 ⟨by decide, by decide⟩
  · decide
  · exact forall_mem_singleton.2 (by decide)

/-- The metrics of an abandoned range are read back from memory and from nowhere else. -/
theorem tracking_stores_disagree :
    (MemoryStore.readAfter ⟨7⟩ none ⟨"ks", "t"⟩ .migrate 0 [firstRange] abandonedWrites).ranges 0 =
        some (some (.started, some "Read: 4")) ∧
      (SqliteStore.readAfter ⟨7⟩ none ⟨"ks", "t"⟩ .migrate 0 [firstRange] abandonedWrites).ranges 0 =
        some (some (.started, none)) ∧
      (CassandraStore.readAfter ⟨7⟩ none ⟨"ks", "t"⟩ .migrate 0 [firstRange]
          abandonedWrites).ranges 0 =
        some (some (.started, none)) := by
  refine ⟨?_, ?_, ?_⟩
  · decide
  · decide
  · decide

end Abandoned

end Cdm
