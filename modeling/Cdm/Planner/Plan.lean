import Mathlib.Data.List.Sort
import Cdm.Planner.Split

/-!
# Token plans

A `TokenPlan` is the work list of a run, in the order it will be scheduled.  `TokenPlan.fromRanges`
builds one from ranges that were computed elsewhere, which is what a resume does; it refuses a
list that is empty, too long or overlapping.
-/

namespace Cdm

/-- The partitioner of the origin cluster. -/
inductive Partitioner
  | murmur3
  | random
  | byteOrdered
  deriving DecidableEq, Repr

/-- How the ring is divided into ranges. -/
inductive PlanStrategy
  | fixed
  | ringAware
  | adaptive
  deriving DecidableEq, Repr

/-- One range of a plan, with the replicas that own it when the strategy knows them. -/
structure PlannedRange where
  range : TokenRange
  replicas : List String
  deriving DecidableEq

/-- A range with no replica information. -/
def PlannedRange.unrouted (range : TokenRange) : PlannedRange := ⟨range, []⟩

/-- The immutable result of planning.  A plan is never empty: the splitter emits at least one
range, and `TokenPlan.fromRanges` refuses an empty list. -/
structure TokenPlan where
  partitioner : Partitioner
  strategy : PlanStrategy
  bounds : TokenRange
  coveragePercent : ℕ
  runId : RunId
  resumedFrom : Option RunId
  ranges : List PlannedRange
  ranges_ne_nil : ranges ≠ []
  deriving DecidableEq

namespace TokenPlan

/-- Just the token ranges, in scheduling order. -/
def tokenRanges (plan : TokenPlan) : List TokenRange := plan.ranges.map PlannedRange.range

/-- The first two neighbours of a list in ring order that share tokens. -/
def firstOverlap : List TokenRange → Option (TokenRange × TokenRange)
  | left :: right :: rest =>
    if left.intersects right then some (left, right) else firstOverlap (right :: rest)
  | _ => none

/-- The smallest range that holds both. -/
def hull (a b : TokenRange) : TokenRange where
  min := Min.min a.min b.min
  max := Max.max a.max b.max
  min_le_max := (min_le_left _ _).trans (a.min_le_max.trans (le_max_left _ _))
  i128Min_le := le_min a.i128Min_le b.i128Min_le
  le_i128Max := max_le a.le_i128Max b.le_i128Max

/-- Builds a plan from a work list rather than by splitting the ring; the order is kept. -/
def fromRanges (runId : RunId) (partitioner : Partitioner) (resumedFrom : Option RunId)
    (ranges : List TokenRange) : Except CdmError TokenPlan :=
  match ranges with
  | [] =>
    .error ⟨.config, "a token plan needs at least one range; an empty work list would run nothing " ++
      "and report success", {}⟩
  | first :: rest =>
    if maxPlannedRanges < (first :: rest).length then
      .error ⟨.config, s!"a work list of {(first :: rest).length} ranges exceeds the " ++
        s!"{maxPlannedRanges}-range ceiling (NFR-003)", {}⟩
    else
      match firstOverlap ((first :: rest).insertionSort (· ≤ ·)) with
      | some (left, right) =>
        .error ⟨.config, s!"the work list overlaps: {left} and {right} share tokens, so every row " ++
          s!"between them would be processed twice", {}⟩
      | none =>
        .ok {
          partitioner := partitioner
          strategy := .fixed
          bounds := (first :: rest).foldl hull first
          coveragePercent := 100
          runId := runId
          resumedFrom := resumedFrom
          ranges := (first :: rest).map PlannedRange.unrouted
          ranges_ne_nil := by simp }

theorem tokenRanges_ne_nil (plan : TokenPlan) : plan.tokenRanges ≠ [] := by
  simp [tokenRanges, plan.ranges_ne_nil]

/-- An accepted work list is kept as it is. -/
theorem tokenRanges_of_fromRanges {runId : RunId} {p : Partitioner} {prev : Option RunId}
    {ranges : List TokenRange} {plan : TokenPlan}
    (h : fromRanges runId p prev ranges = .ok plan) : plan.tokenRanges = ranges := by
  cases ranges with
  | nil => cases h
  | cons first rest =>
    unfold fromRanges at h
    simp only at h
    split_ifs at h
    split at h
    · cases h
    · injection h with h
      subst h
      simp [tokenRanges, PlannedRange.unrouted, Function.comp_def]

end TokenPlan

end Cdm
