import Cdm.Planner.Shares

/-!
# The number of ranges of a plan

A plan is held in memory for a whole run, and `maxPlannedRanges` is the ceiling on its length.  The
ceiling is checked for each call of the ring splitter.  The fixed strategy makes one call; ring-aware
planning makes one for each clipped segment, and adaptive planning breaks up every range of the fixed
plan with a splitter that has no ceiling.
-/

namespace Cdm

open Fallible

/-! ### Lengths -/

/-- What the splitter returns, it returns for a number of parts it accepts. -/
theorem length_splitRing {bounds : TokenRange} {n c : ℕ} {parts : List TokenRange}
    (h : splitRing bounds n c = .ok parts) :
    1 ≤ n ∧ n ≤ maxPlannedRanges ∧ parts.length = partCount bounds n := by
  have haccepted : n ≠ 0 ∧ n ≤ maxPlannedRanges ∧ bounds.max - bounds.min ≤ i128Max := by
    unfold splitRing at h
    split_ifs at h with hzero hceiling
    split at h
    · cases h
    · rename_i hs
      unfold checkedSub at hs
      split_ifs at hs with hspan
      exact ⟨hzero, not_lt.1 hceiling, hspan.2⟩
  obtain ⟨hzero, hceiling, hspan⟩ := haccepted
  obtain ⟨_, hsize, rfl, hsplit, -⟩ :=
    splitRing_of_le (Nat.one_le_iff_ne_zero.2 hzero) hceiling hspan c
  cases h.symm.trans hsplit
  refine ⟨Nat.one_le_iff_ne_zero.2 hzero, hceiling, ?_⟩
  rw [partCount, ← length_splitLoop bounds.min bounds.i128Min_le bounds.min_le_max,
    Int.toNat_natCast]

/-- The even splitter cuts as many parts as it is asked for, or one for each token. -/
theorem TokenRange.length_split {r : TokenRange} {n : ℕ} {parts : List TokenRange}
    (h : r.split n = .ok parts) : parts.length = Min.min n r.tokenCount := by
  unfold TokenRange.split at h
  split_ifs at h
  cases h
  rw [List.length_pmap, length_evenPieces]

theorem length_flatten_of_mapM {L : List PlannedRange} {out : List (List PlannedRange)}
    {f : PlannedRange → Except CdmError (List PlannedRange)} {g : PlannedRange → ℕ}
    (h : L.mapM f = .ok out) (hf : ∀ planned ∈ L, ∀ pieces, f planned = .ok pieces →
      pieces.length = g planned) : out.flatten.length = (L.map g).sum := by
  obtain ⟨hmap, hok⟩ := mapM_eq_ok_map [] h
  rw [hmap, List.length_flatten, List.map_map]
  congr 1
  refine List.map_congr_left ?_
  intro planned hp
  exact hf planned hp _ (hok planned hp)

namespace PlannerSettings

variable {settings : PlannerSettings} {bounds : TokenRange} {topology : Option ClusterTopology}
  {ranges : List PlannedRange}

/-- How many ranges the clipped segments are cut into. -/
def segmentRanges (settings : PlannerSettings) (clipped : List PlannedRange) : ℕ :=
  (clipped.map fun planned =>
    partCount planned.range (settings.segmentParts (countTokens clipped) planned.range)).sum

/-- How many ranges the estimates break a list of ranges up into. -/
def estimatedRanges (settings : PlannerSettings) (estimates : List SizeEstimate)
    (base : List PlannedRange) : ℕ :=
  (base.map fun planned =>
    min (settings.splitFactor estimates planned.range) planned.range.tokenCount).sum

/-- The estimates that adaptive planning breaks ranges up by. -/
def usedEstimates (settings : PlannerSettings) (topology : ClusterTopology) :
    Except CdmError (List SizeEstimate) :=
  if settings.maxRowsPerRange = 0 then .ok []
  else
    match settings.table with
    | none => .ok []
    | some table => topology.sizeEstimates table

/-- The segments of the ring, or the estimates, do not raise the number of ranges above the
ceiling. -/
def WithinCeiling (settings : PlannerSettings) (bounds : TokenRange) (topology : ClusterTopology) :
    Prop :=
  match settings.strategy with
  | .fixed => True
  | .ringAware => ∀ segments, topology.ring = .ok segments →
      settings.segmentRanges (clipSegments segments bounds) ≤ maxPlannedRanges
  | .adaptive => ∀ estimates base, settings.usedEstimates topology = .ok estimates →
      settings.planFixed bounds = .ok base → estimates ≠ [] →
        settings.estimatedRanges estimates base ≤ maxPlannedRanges

theorem length_planFixed (h : settings.planFixed bounds = .ok ranges) :
    ranges.length ≤ maxPlannedRanges := by
  obtain ⟨parts, hparts, rfl⟩ := map_eq_ok.1 h
  obtain ⟨hone, hceiling, hlength⟩ := length_splitRing hparts
  rw [List.length_map, hlength]
  exact (partCount_le bounds hone).trans hceiling

theorem length_cutSegment {total : ℕ} {planned : PlannedRange} {pieces : List PlannedRange}
    (h : settings.cutSegment total planned = .ok pieces) :
    pieces.length = partCount planned.range (settings.segmentParts total planned.range) := by
  obtain ⟨parts, hparts, rfl⟩ := map_eq_ok.1 h
  rw [PlannedRange.withPieces, List.length_map, (length_splitRing hparts).2.2]

theorem length_planRingAware {cluster : ClusterTopology} {segments : List RingSegment}
    (hring : cluster.ring = .ok segments)
    (h : settings.planRingAware bounds (some cluster) = .ok ranges) :
    ranges.length = settings.segmentRanges (clipSegments segments bounds) := by
  obtain ⟨out, hout, rfl⟩ := planRingAware_cuts hring h
  exact length_flatten_of_mapM hout fun planned _ pieces hp => length_cutSegment hp

theorem length_breakUp {estimates : List SizeEstimate} {planned : PlannedRange}
    {pieces : List PlannedRange} (h : settings.breakUp estimates planned = .ok pieces) :
    pieces.length = min (settings.splitFactor estimates planned.range) planned.range.tokenCount := by
  unfold breakUp at h
  simp only at h
  split_ifs at h with hone
  · cases h
    rw [hone, min_eq_left planned.range.tokenCount_pos]
    rfl
  · obtain ⟨cut, hcut, rfl⟩ := map_eq_ok.1 h
    rw [PlannedRange.withPieces, List.length_map, TokenRange.length_split hcut]

/-- The adaptive strategy returns the fixed plan, broken up where there are estimates. -/
theorem planAdaptive_length {cluster : ClusterTopology}
    (h : settings.planAdaptive bounds (some cluster) = .ok ranges) :
    ∃ estimates base, settings.usedEstimates cluster = .ok estimates ∧
      settings.planFixed bounds = .ok base ∧
      (estimates = [] ∧ ranges = base ∨
        estimates ≠ [] ∧ ranges.length = settings.estimatedRanges estimates base) := by
  obtain ⟨base, hbase, h⟩ := bind_eq_ok.1 h
  rw [usedEstimates]
  simp only at h
  split_ifs at h with hrows
  · cases h
    rw [if_pos hrows]
    exact ⟨[], ranges, rfl, hbase, .inl ⟨rfl, rfl⟩⟩
  · rw [if_neg hrows]
    cases htable : settings.table with
    | none =>
      rw [htable] at h
      cases h
      exact ⟨[], ranges, rfl, hbase, .inl ⟨rfl, rfl⟩⟩
    | some table =>
      rw [htable] at h
      obtain ⟨estimates, hestimates, h⟩ := bind_eq_ok.1 h
      refine ⟨estimates, base, hestimates, hbase, ?_⟩
      split_ifs at h with hnone
      · cases h
        exact .inl ⟨hnone, rfl⟩
      · obtain ⟨out, hout, rfl⟩ := map_eq_ok.1 h
        exact .inr ⟨hnone, length_flatten_of_mapM hout fun planned _ pieces hp =>
          length_breakUp hp⟩

/-- The ranges of a strategy are within the ceiling exactly when the segments and the estimates keep
them there. -/
theorem length_planRanges_le_iff {cluster : ClusterTopology}
    (h : settings.planRanges bounds (some cluster) = .ok ranges) :
    ranges.length ≤ maxPlannedRanges ↔ settings.WithinCeiling bounds cluster := by
  unfold planRanges at h
  rw [WithinCeiling]
  cases hstrategy : settings.strategy with
  | fixed =>
    rw [hstrategy] at h
    exact iff_of_true (length_planFixed h) trivial
  | ringAware =>
    rw [hstrategy] at h
    obtain ⟨segments, -, -, hring, -⟩ := planRingAware_eq_ok h
    rw [length_planRingAware hring h]
    constructor
    · intro hle segments' hring'
      cases hring.symm.trans hring'
      exact hle
    · intro hle
      exact hle segments hring
  | adaptive =>
    rw [hstrategy] at h
    obtain ⟨estimates, base, hestimates, hbase, ⟨hnone, rfl⟩ | ⟨hsome, hlength⟩⟩ :=
      planAdaptive_length h
    · refine iff_of_true (length_planFixed hbase) ?_
      intro estimates' base' hestimates' _ hne
      cases hestimates.symm.trans hestimates'
      exact absurd hnone hne
    · rw [hlength]
      constructor
      · intro hle estimates' base' hestimates' hbase' _
        cases hestimates.symm.trans hestimates'
        cases hbase.symm.trans hbase'
        exact hle
      · intro hle
        exact hle estimates base hestimates hbase hsome

/-- A strategy that needs no topology does not look at it. -/
theorem planRanges_of_fixed (h : settings.strategy = .fixed) :
    settings.planRanges bounds topology = settings.planFixed bounds := by
  rw [planRanges, h]

/-- **When a plan is bounded.** A plan has at least one range, and at most `maxPlannedRanges` exactly
when its strategy is fixed, or the clipped segments are cut into that many at most, or the estimates
break the fixed plan up into that many at most. -/
theorem plan_bounded_iff {runId : RunId} {plan : TokenPlan}
    (h : settings.plan runId topology = .ok plan) :
    (1 ≤ plan.ranges.length ∧ plan.ranges.length ≤ maxPlannedRanges) ↔
      ∀ cluster, topology = some cluster → settings.WithinCeiling plan.bounds cluster := by
  have hpos : 1 ≤ plan.ranges.length := List.length_pos_iff.2 plan.ranges_ne_nil
  obtain ⟨-, -, ranges, hranges, hplan⟩ := plan_eq_ok h
  have hlength : plan.ranges.length = ranges.length := by
    rw [hplan, (shuffleForRun_perm ranges runId).length_eq]
  rw [hlength] at hpos ⊢
  rw [and_iff_right hpos]
  cases topology with
  | some cluster =>
    rw [length_planRanges_le_iff hranges]
    constructor
    · rintro hle _ ⟨⟩
      exact hle
    · intro hle
      exact hle cluster rfl
  | none =>
    -- only the fixed strategy plans without a cluster
    have hfixed : settings.strategy = .fixed := by
      obtain ⟨bounds, -, h⟩ := bind_eq_ok.1 h
      cases hstrategy : settings.strategy with
      | fixed => rfl
      | ringAware =>
        rw [hstrategy] at h
        cases h
      | adaptive =>
        rw [hstrategy] at h
        cases h
    rw [planRanges_of_fixed hfixed] at hranges
    refine iff_of_true (length_planFixed hranges) ?_
    intro cluster hnone
    cases hnone

/-- Ranges that a strategy finds become a plan. -/
theorem exists_plan {runId : RunId} {cluster : ClusterTopology}
    (hbounds : settings.partitioner.resolveBounds settings.tokenMin settings.tokenMax = .ok bounds)
    (hranges : settings.planRanges bounds (some cluster) = .ok ranges) :
    ∃ plan, settings.plan runId (some cluster) = .ok plan ∧ plan.bounds = bounds := by
  rw [plan, hbounds, ok_bind, Option.isNone_some, Bool.and_false,
    if_neg Bool.false_ne_true]
  split
  · next e he => cases hranges.symm.trans he
  · exact ⟨_, rfl, rfl⟩

end PlannerSettings

/-! ### A ring with two single tokens -/

namespace CeilingSample

open PlannerSettings

/-- One node holds the Murmur3 ring but its last two tokens, and two others hold one each. -/
def segments : List RingSegment :=
  [⟨.checked i64Min (i64Max - 2) (by decide), ["node-1"]⟩,
    ⟨.checked (i64Max - 1) (i64Max - 1) (by decide), ["node-2"]⟩,
    ⟨.checked i64Max i64Max (by decide), ["node-3"]⟩]

def cluster : ClusterTopology := ⟨.ok segments, fun _ => .ok []⟩

/-- As many parts as one plan may contain. -/
def settings : PlannerSettings :=
  ⟨.murmur3, 50000000, 100, none, none, .ringAware, 1000000, none⟩

/-- The large segment gets one part less than there may be, and each of the others one. -/
theorem segmentRanges_eq : settings.segmentRanges (clipSegments segments .murmur3Full) =
    50000001 := by
  decide

theorem exists_planRanges :
    ∃ ranges, settings.planRanges .murmur3Full (some cluster) = .ok ranges := by
  have hcut : ∀ planned ∈ clipSegments segments .murmur3Full, ∃ pieces,
      settings.cutSegment (countTokens (clipSegments segments .murmur3Full)) planned =
        .ok pieces := by
    intro planned hp
    have hparts : ∀ planned ∈ clipSegments segments .murmur3Full,
        1 ≤ settings.segmentParts (countTokens (clipSegments segments .murmur3Full))
            planned.range ∧
          settings.segmentParts (countTokens (clipSegments segments .murmur3Full))
            planned.range ≤ maxPlannedRanges ∧
          planned.range.max - planned.range.min ≤ i128Max := by decide
    obtain ⟨hone, hceiling, hspan⟩ := hparts planned hp
    obtain ⟨parts, -, -, hsplit, -⟩ := splitRing_of_le hone hceiling hspan 100
    exact ⟨planned.withPieces parts, map_eq_ok.2 ⟨parts, hsplit, rfl⟩⟩
  obtain ⟨out, hout⟩ := exists_mapM_eq_ok.2 hcut
  exact ⟨out.flatten, congrArg (Except.map List.flatten) hout⟩

/-- The plan has one range more than a plan may have. -/
theorem plan_not_bounded : ∃ plan, settings.plan ⟨7⟩ (some cluster) = .ok plan ∧
    plan.ranges.length = 50000001 ∧
    ¬(1 ≤ plan.ranges.length ∧ plan.ranges.length ≤ maxPlannedRanges) := by
  obtain ⟨ranges, hranges⟩ := exists_planRanges
  obtain ⟨plan, hplan, hbounds⟩ := exists_plan rfl hranges
  obtain ⟨-, -, ranges', hranges', hshuffled⟩ := plan_eq_ok hplan
  rw [hbounds] at hranges'
  cases hranges.symm.trans hranges'
  have hlength : plan.ranges.length = 50000001 := by
    rw [hshuffled, (shuffleForRun_perm ranges ⟨7⟩).length_eq, ← segmentRanges_eq]
    exact length_planRingAware rfl hranges
  refine ⟨plan, hplan, hlength, ?_⟩
  rw [hlength]
  decide

end CeilingSample

/-- The ring of two nodes keeps its plan below the ceiling. -/
theorem plan_bounded_halves : ∃ plan, RingSample.settings.plan ⟨7⟩ (some RingSample.cluster) = .ok plan ∧
    1 ≤ plan.ranges.length ∧ plan.ranges.length ≤ maxPlannedRanges := by
  have hok : (RingSample.settings.plan ⟨7⟩ (some RingSample.cluster)).isOk = true := by
    decide
  cases h : RingSample.settings.plan ⟨7⟩ (some RingSample.cluster) with
  | error e =>
    rw [h] at hok
    cases hok
  | ok plan =>
    refine ⟨plan, rfl, (PlannerSettings.plan_bounded_iff h).2 ?_⟩
    rintro cluster ⟨⟩ segments ⟨⟩
    have hbounds : RingSample.settings.partitioner.resolveBounds RingSample.settings.tokenMin
        RingSample.settings.tokenMax =
          .ok ⟨-1000, i64Max, by decide, by decide, by decide⟩ := by decide
    rw [Except.ok.inj ((PlannerSettings.plan_eq_ok h).1.symm.trans hbounds)]
    decide

end Cdm
