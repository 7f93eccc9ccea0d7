import Cdm.Engine.Scheduler

/-!
# Accounting for the rows of a range

What the counters of a range hold after the scheduler's flush, in terms of what the processor has
counted.  A range that completes is credited with exactly that; one that fails is charged, under
`ERROR`, with the rows it read and cannot account for, on top of the errors counted already.
-/

namespace Cdm

/-- Whether the processor completed the range. -/
def RangeResult.Completed : RangeResult → Prop
  | verdict _ => True
  | _ => False

/-- Whether the processor gave the range up: it returned an error or panicked. -/
def RangeResult.Failed : RangeResult → Prop
  | error _ | panic _ => True
  | _ => False

variable {c : JobCounters} {f : CounterKind → ℕ}

/-- The counters of a range that completes. -/
theorem committed_processRange_verdict (h : c.Counts f) (range : TokenRange) {result : RangeResult}
    (hresult : result.Completed) {kind : CounterKind} (hreg : c.isRegistered kind = true)
    (hkind : kind ≠ .partitionsPassed) :
    (processRange c range result).counters.committed kind = .ofNat (f kind) := by
  cases result with
  | verdict verdict =>
    have hreg' : (recordRangeSuccess c).isRegistered kind = true := by
      rwa [JobCounters.isRegistered, job_recordRangeSuccess]
    have hcounts : (recordRangeSuccess c).Counts _ := h.increment .partitionsPassed 1
    refine (hcounts.committed_flush hreg').trans ?_
    rw [Function.update_of_ne hkind]
  | error error => exact hresult.elim
  | panic message => exact hresult.elim
  | killed => exact hresult.elim

/-- A failed range is charged with the rows it lost. -/
theorem counts_recordRangeFailure (h : c.Counts f) :
    (recordRangeFailure c).Counts (Function.update
      (Function.update f .error (f .error + (lostRows c).toNat)) .partitionsFailed
      (f .partitionsFailed + 1)) := by
  have hlost : (if lostRows c > 0 then c.incrementKind .error (lostRows c) else c).Counts
      (Function.update f .error (f .error + (lostRows c).toNat)) := by
    split_ifs with hpos
    · have := h.increment .error (lostRows c).toNat
      rwa [UInt64.ofNat_toNat] at this
    · have hzero : (lostRows c).toNat = 0 := Nat.eq_zero_of_not_pos hpos
      rw [hzero, Nat.add_zero, Function.update_eq_self]
      exact h
  exact hlost.increment .partitionsFailed 1

/-- The counters of a range that fails. -/
theorem committed_processRange_failed (h : c.Counts f) (range : TokenRange) {result : RangeResult}
    (hresult : result.Failed) {kind : CounterKind} (hreg : c.isRegistered kind = true)
    (hkind : kind ≠ .partitionsFailed) :
    (processRange c range result).counters.committed kind =
      .ofNat (f kind + if kind = .error then (lostRows c).toNat else 0) := by
  have hfailed (error : CdmError) : (failRange c range error).counters.committed kind =
      .ofNat (f kind + if kind = .error then (lostRows c).toNat else 0) := by
    have hreg' : (recordRangeFailure c).isRegistered kind = true := by
      rwa [JobCounters.isRegistered, job_recordRangeFailure]
    refine ((counts_recordRangeFailure h).committed_flush hreg').trans ?_
    rw [Function.update_of_ne hkind, Function.update_apply]
    split_ifs with herror
    · rw [herror]
    · rfl
  cases result with
  | verdict verdict => exact hresult.elim
  | error error => exact hfailed error
  | panic message => exact hfailed _
  | killed => exact hresult.elim

/-- A level that fits its counter. -/
theorem JobCounters.Counts.toNat_countOf (h : c.Counts f) {job : JobKind} (hjob : c.job = job)
    {kind : CounterKind} (hreg : kind.isRegisteredFor job = true) (hlt : f kind < 2 ^ 64) :
    (c.countOf kind .interim).toNat = f kind := by
  rw [h.interim kind (by rw [JobCounters.isRegistered, hjob]; exact hreg)]
  exact UInt64.toNat_ofNat_of_lt' hlt

/-- The rows a failed migrate range is charged with. -/
theorem toNat_lostRows_migrate (h : c.Counts f) (hjob : c.job = .migrate) (hread : f .read < 2 ^ 64)
    (hwrite : f .write < 2 ^ 64) (hskipped : f .skipped < 2 ^ 64) :
    (lostRows c).toNat = f .read - f .write - f .skipped := by
  unfold lostRows
  simp only [hjob]
  rw [h.toNat_countOf hjob rfl hread, h.toNat_countOf hjob rfl hwrite,
    h.toNat_countOf hjob rfl hskipped]
  exact UInt64.toNat_ofNat_of_lt' (lt_of_le_of_lt (by omega) hread)

/-- The rows a failed validate range is charged with. -/
theorem toNat_lostRows_validate (h : c.Counts f) (hjob : c.job = .validate)
    (hread : f .read < 2 ^ 64) (hvalid : f .valid < 2 ^ 64) (hmissing : f .missing < 2 ^ 64)
    (hmismatch : f .mismatch < 2 ^ 64) (hskipped : f .skipped < 2 ^ 64) :
    (lostRows c).toNat = f .read - f .valid - f .missing - f .mismatch - f .skipped := by
  unfold lostRows
  simp only [hjob]
  rw [h.toNat_countOf hjob rfl hread, h.toNat_countOf hjob rfl hvalid,
    h.toNat_countOf hjob rfl hmissing, h.toNat_countOf hjob rfl hmismatch,
    h.toNat_countOf hjob rfl hskipped]
  exact UInt64.toNat_ofNat_of_lt' (lt_of_le_of_lt (by omega) hread)

end Cdm
