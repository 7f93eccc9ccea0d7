import Cdm.Lib.Table
import Cdm.Planner.Split

/-!
# The tracking store

One run's rows as the tracking tables hold them: the run row, and the range rows keyed by
`token_min`, the clustering key of `cdm_run_details`.  `createRun` writes all range rows as
`NOT_STARTED` before the run row becomes `STARTED`; `updateRange` and `updateRun` overwrite, and
leave a column alone that the write does not carry.
-/

namespace Cdm

open Std (TreeMap)

/-- The write that marks a range `STARTED`. -/
def RangeRecord.startWrite (range : TokenRange) (now : ℤ) : RangeRecord :=
  ⟨range, .started, some now, none⟩

/-- The write that records how a range ended, with its metrics string. -/
def RangeRecord.finishWrite (range : TokenRange) (status : RunStatus) (runInfo : String) :
    RangeRecord :=
  ⟨range, status, none, some runInfo⟩

/-- One run's rows. -/
structure StoredRun where
  info : RunRecord
  ranges : TreeMap ℤ RangeRecord

namespace StoredRun

/-- The range row a new run starts with. -/
def plannedRow (range : TokenRange) : RangeRecord where
  range := range
  status := .notStarted
  startedAt := none
  info := none

/-- The rows of a new run: every range `NOT_STARTED`, then the run `STARTED`. -/
def create (run : RunRecord) (ranges : List TokenRange) : StoredRun where
  info := { run with status := .started }
  ranges := Table.load (fun r => r.range.min) (ranges.map plannedRow)

/-- The row a range write leaves, given the row it finds. -/
def mergeRow (old : Option RangeRecord) (write : RangeRecord) : RangeRecord :=
  match old with
  | none => write
  | some row =>
    { range := write.range
      status := write.status
      startedAt := write.startedAt.or row.startedAt
      info := write.info.or row.info }

/-- Applies a range write. -/
def updateRange (s : StoredRun) (write : RangeRecord) : StoredRun :=
  { s with ranges := s.ranges.insert write.range.min (mergeRow s.ranges[write.range.min]? write) }

/-- Applies a run write; `now` is the clock of the store. -/
def updateRun (s : StoredRun) (status : RunStatus) (info : Option String) (now : ℤ) : StoredRun :=
  { s with
    info := { s.info with
      status := status
      info := info.or s.info.info
      endedAt := if status = .ended then some now else s.info.endedAt } }

/-- The range rows, in the order `cdm_run_details` returns them. -/
def rows (s : StoredRun) : List RangeRecord := Table.rows s.ranges

@[simp] theorem updateRange_info (s : StoredRun) (w : RangeRecord) :
    (s.updateRange w).info = s.info := rfl

@[simp] theorem updateRun_ranges (s : StoredRun) (st : RunStatus) (i : Option String) (now : ℤ) :
    (s.updateRun st i now).ranges = s.ranges := rfl

@[simp] theorem mergeRow_status (old : Option RangeRecord) (w : RangeRecord) :
    (mergeRow old w).status = w.status := by
  cases old <;> rfl

@[simp] theorem mergeRow_range (old : Option RangeRecord) (w : RangeRecord) :
    (mergeRow old w).range = w.range := by
  cases old <;> rfl

/-- A write changes the row of its own range and no other. -/
theorem getElem?_updateRange (s : StoredRun) (w : RangeRecord) (k : ℤ) :
    (s.updateRange w).ranges[k]? =
      if k = w.range.min then some (mergeRow s.ranges[k]? w) else s.ranges[k]? := by
  simp only [updateRange, TreeMap.getElem?_insert, compare_eq_iff_eq]
  by_cases h : k = w.range.min
  · simp [h]
  · simp [h, Ne.symm h]

/-- Ranges that share no token have different lower bounds. -/
theorem nodup_min_of_apart {ranges : List TokenRange} (h : Cover.Apart TokenRange.Mem ranges) :
    (ranges.map TokenRange.min).Nodup := by
  rw [List.Nodup, List.pairwise_map]
  refine h.imp ?_
  intro r s hrs heq
  have hr : r.Mem r.min := r.contains_min
  exact hrs r.min hr (heq ▸ s.contains_min)

/-- The range rows of a new run whose ranges share no token. -/
theorem getElem?_create {run : RunRecord} {ranges : List TokenRange}
    (h : Cover.Apart TokenRange.Mem ranges) {k : ℤ} {row : RangeRecord} :
    (create run ranges).ranges[k]? = some row ↔
      ∃ r ∈ ranges, r.min = k ∧ row = plannedRow r := by
  have hnodup : ((ranges.map plannedRow).map fun r => r.range.min).Nodup := by
    simpa [plannedRow, Function.comp_def] using nodup_min_of_apart h
  rw [create, Table.getElem?_load hnodup]
  constructor
  · rintro ⟨hm, rfl⟩
    obtain ⟨r, hr, rfl⟩ := List.mem_map.1 hm
    exact ⟨r, hr, rfl, rfl⟩
  · rintro ⟨r, hr, rfl, rfl⟩
    exact ⟨List.mem_map_of_mem hr, rfl⟩

theorem mem_rows {s : StoredRun} {row : RangeRecord} :
    row ∈ s.rows ↔ ∃ k : ℤ, s.ranges[k]? = some row :=
  Table.mem_rows

end StoredRun

end Cdm
