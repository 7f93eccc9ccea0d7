import Cdm.Planner.Bounds
import Cdm.Planner.Even
import Cdm.Planner.Shuffle

/-!
# Planning a run

`PlannerSettings.plan` turns the settings of a run, and what the cluster says of its ring, into the
list of ranges the run will process.  The three strategies cut the resolved bounds differently:

* `fixed` cuts the whole segment with the ring splitter;
* `ringAware` clips every ring segment to the bounds and cuts each piece on its own, so that no
  range straddles a replica boundary;
* `adaptive` starts from the fixed plan and subdivides the ranges whose row estimate is too large.
-/

namespace Cdm

open Fallible List TokenRange

/-! ### What the cluster says -/

/-- One contiguous slice of the ring with the nodes that hold a replica of it. -/
structure RingSegment where
  range : TokenRange
  replicas : List String
  deriving DecidableEq

/-- One row of `system.size_estimates`, reduced to what planning reads of it. -/
structure SizeEstimate where
  range : TokenRange
  partitionsCount : ℕ
  deriving DecidableEq

/-- The cluster facts the planner consults. -/
structure ClusterTopology where
  ring : Except CdmError (List RingSegment)
  sizeEstimates : TableRef → Except CdmError (List SizeEstimate)

namespace PlanStrategy

/-- The spelling of `plan.strategy`. -/
def asStr : PlanStrategy → String
  | fixed => "fixed"
  | ringAware => "ring_aware"
  | adaptive => "adaptive"

/-- Whether the strategy needs cluster metadata. -/
def needsTopology : PlanStrategy → Bool
  | fixed => false
  | ringAware | adaptive => true

end PlanStrategy

/-- What planning reads of the configuration. -/
structure PlannerSettings where
  partitioner : Partitioner
  numParts : ℕ
  coveragePercent : ℕ
  tokenMin : Option I128
  tokenMax : Option I128
  strategy : PlanStrategy
  maxRowsPerRange : ℕ
  table : Option TableRef

/-! ### Clipping and estimates -/

/-- The part of `range` inside `bounds`, or nothing when they are disjoint. -/
def clip (range bounds : TokenRange) : Option TokenRange :=
  if range.intersects bounds then
    (TokenRange.new (max range.min bounds.min) (min range.max bounds.max)
      (range.i128Min_le.trans (le_max_left ..))
      ((min_le_left ..).trans range.le_i128Max)).toOption
  else none

theorem clip_eq_some {range bounds c : TokenRange} (h : clip range bounds = some c) :
    c.min = max range.min bounds.min ∧ c.max = min range.max bounds.max := by
  unfold clip at h
  split_ifs at h
  exact new_eq_ok (toOption_eq_some.1 h)

/-- A token is kept by clipping exactly when it lies in both ranges. -/
theorem exists_clip_mem {range bounds : TokenRange} {t : ℤ} :
    (∃ c, clip range bounds = some c ∧ c.Mem t) ↔ range.Mem t ∧ bounds.Mem t := by
  constructor
  · rintro ⟨c, hc, ht⟩
    obtain ⟨h₁, h₂⟩ := clip_eq_some hc
    rw [mem_iff, h₁, h₂, max_le_iff, le_min_iff] at ht
    exact ⟨mem_iff.2 ⟨ht.1.1, ht.2.1⟩, mem_iff.2 ⟨ht.1.2, ht.2.2⟩⟩
  · rintro ⟨hr, hb⟩
    have hi : range.intersects bounds = true := intersects_iff_exists.2 ⟨t, hr, hb⟩
    rw [mem_iff] at hr hb
    have hle : max range.min bounds.min ≤ min range.max bounds.max :=
      (max_le hr.1 hb.1).trans (le_min hr.2 hb.2)
    refine ⟨⟨_, _, hle, range.i128Min_le.trans (le_max_left ..),
      (min_le_left ..).trans range.le_i128Max⟩, ?_, ?_⟩
    · rw [clip, if_pos hi, TokenRange.new, dif_pos hle]
      rfl
    · exact mem_iff.2 ⟨max_le hr.1 hb.1, le_min hr.2 hb.2⟩

/-- Estimated rows inside `range`, prorated across the estimates that overlap it. -/
def estimatedRowsIn (range : TokenRange) (estimates : List SizeEstimate) : ℕ :=
  estimates.foldl
    (fun total estimate =>
      if !estimate.range.intersects range then total
      else if estimate.range.tokenCount = 0 then total
      else
        match clip range estimate.range with
        | none => total
        | some overlap =>
          min u128Max (total +
            min u128Max (estimate.partitionsCount * overlap.tokenCount) /
              estimate.range.tokenCount))
    0

/-! ### The strategies -/

namespace PlannedRange

/-- The planned range holds the token. -/
def Mem (planned : PlannedRange) (t : ℤ) : Prop := planned.range.Mem t

/-- A planned range cut into `pieces`, which keep its replicas. -/
def withPieces (planned : PlannedRange) (pieces : List TokenRange) : List PlannedRange :=
  pieces.map fun piece => ⟨piece, planned.replicas⟩

theorem divides_withPieces (planned : PlannedRange) {pieces : List TokenRange}
    (h : Cover.Divides TokenRange.Mem pieces planned.range) :
    Cover.Divides Mem (planned.withPieces pieces) planned := by
  refine ⟨pairwise_map.2 h.apart, fun t => ?_⟩
  refine Iff.trans ?_ (h.covers_iff t)
  simp [Cover.Covers, withPieces, Mem]

end PlannedRange

namespace PlannerSettings

/-- The ring splitter over the whole segment. -/
def planFixed (settings : PlannerSettings) (bounds : TokenRange) :
    Except CdmError (List PlannedRange) :=
  (splitRing bounds settings.numParts settings.coveragePercent).map
    (List.map PlannedRange.unrouted)

/-- How many parts a clipped segment gets: its share of `numParts` by width, and at least one. -/
def segmentParts (settings : PlannerSettings) (totalTokens : ℕ) (range : TokenRange) : ℕ :=
  let share := min u128Max (settings.numParts * range.tokenCount) / max totalTokens 1
  max (min share u64Max) 1

/-- The parts of the ring segments that lie inside the bounds. -/
def clipSegments (segments : List RingSegment) (bounds : TokenRange) : List PlannedRange :=
  segments.filterMap fun segment =>
    (clip segment.range bounds).map fun range => ⟨range, segment.replicas⟩

/-- A clipped segment, cut into its share of the parts. -/
def cutSegment (settings : PlannerSettings) (totalTokens : ℕ) (planned : PlannedRange) :
    Except CdmError (List PlannedRange) :=
  (splitRing planned.range (settings.segmentParts totalTokens planned.range)
    settings.coveragePercent).map planned.withPieces

/-- One group of ranges for each ring segment that overlaps the bounds. -/
def planRingAware (settings : PlannerSettings) (bounds : TokenRange)
    (topology : Option ClusterTopology) : Except CdmError (List PlannedRange) :=
  match topology with
  | none => settings.planFixed bounds
  | some topology => do
    let segments ← topology.ring
    if segments = [] then
      .error ⟨.config,
        "the origin reported an empty token ring, so `ring_aware` planning is impossible", {}⟩
    else
      let clipped := clipSegments segments bounds
      if clipped = [] then
        .error ⟨.config, s!"no ring segment overlaps the configured token bounds {bounds}", {}⟩
      else
        -- the sum is a `u128`, which wraps in a release build
        let totalTokens := (clipped.map fun planned => planned.range.tokenCount).sum % 2 ^ 128
        (clipped.mapM (settings.cutSegment totalTokens)).map List.flatten

/-- Into how many parts the adaptive strategy cuts a range. -/
def splitFactor (settings : PlannerSettings) (estimates : List SizeEstimate) (range : TokenRange) :
    ℕ :=
  let rows := estimatedRowsIn range estimates
  -- `div_ceil`, then the narrowing to a `u32`
  let factor := (rows + settings.maxRowsPerRange - 1) / settings.maxRowsPerRange
  max (min factor u32Max) 1

/-- One range of the fixed plan, broken up when its estimate is over-large. -/
def breakUp (settings : PlannerSettings) (estimates : List SizeEstimate) (planned : PlannedRange) :
    Except CdmError (List PlannedRange) :=
  let factor := settings.splitFactor estimates planned.range
  if factor = 1 then .ok [planned]
  else (planned.range.split factor).map planned.withPieces

/-- The fixed plan, with over-large ranges broken up. -/
def planAdaptive (settings : PlannerSettings) (bounds : TokenRange)
    (topology : Option ClusterTopology) : Except CdmError (List PlannedRange) := do
  let base ← settings.planFixed bounds
  match topology with
  | none => .ok base
  | some topology =>
    if settings.maxRowsPerRange = 0 then .ok base
    else
      match settings.table with
      | none => .ok base
      | some table => do
        let estimates ← topology.sizeEstimates table
        if estimates = [] then .ok base
        else
          (base.mapM (settings.breakUp estimates)).map List.flatten

/-- The ranges of the configured strategy, in ring order where the strategy keeps it. -/
def planRanges (settings : PlannerSettings) (bounds : TokenRange)
    (topology : Option ClusterTopology) : Except CdmError (List PlannedRange) :=
  match settings.strategy with
  | .fixed => settings.planFixed bounds
  | .ringAware => settings.planRingAware bounds topology
  | .adaptive => settings.planAdaptive bounds topology

/-! ### What the strategies produce -/

section Strategies

variable {settings : PlannerSettings} {bounds : TokenRange} {topology : Option ClusterTopology}
  {ranges : List PlannedRange}

/-- Cutting every range of a list keeps it apart and keeps its tokens. -/
theorem divides_of_mapM {L : List PlannedRange} {out : List (List PlannedRange)}
    {f : PlannedRange → Except CdmError (List PlannedRange)} (h : L.mapM f = .ok out)
    (hf : ∀ planned ∈ L, ∀ pieces, f planned = .ok pieces →
      Cover.Divides PlannedRange.Mem pieces planned) {bounds : PlannedRange}
    (hL : Cover.Divides PlannedRange.Mem L bounds) :
    Cover.Divides PlannedRange.Mem out.flatten bounds := by
  obtain ⟨hmap, hok⟩ := mapM_eq_ok_map [] h
  have hdiv : ∀ planned ∈ L,
      Cover.Divides PlannedRange.Mem (getD (f planned) []) planned :=
    fun planned hp => hf planned hp _ (hok planned hp)
  rw [hmap, ← List.flatMap]
  refine ⟨hL.apart.flatMap hdiv, fun t => ?_⟩
  rw [Cover.covers_flatMap hdiv, hL.covers_iff]

theorem flatten_ne_nil_of_mapM {L : List PlannedRange} {out : List (List PlannedRange)}
    {f : PlannedRange → Except CdmError (List PlannedRange)} (h : L.mapM f = .ok out)
    (hL : L ≠ []) (hf : ∀ planned ∈ L, ∀ pieces, f planned = .ok pieces → pieces ≠ []) :
    out.flatten ≠ [] := by
  obtain ⟨hmap, hok⟩ := mapM_eq_ok_map [] h
  obtain ⟨first, hfirst⟩ := exists_mem_of_ne_nil L hL
  rw [hmap, Ne, flatten_eq_nil_iff]
  intro hnil
  exact hf first hfirst _ (hok first hfirst) (hnil _ (mem_map_of_mem hfirst))

/-- Pieces that hold a token between them are not the empty list. -/
theorem ne_nil_of_divides {L : List PlannedRange} {planned : PlannedRange}
    (h : Cover.Divides PlannedRange.Mem L planned) : L ≠ [] := by
  rintro rfl
  obtain ⟨_, hmem, -⟩ := (h.covers_iff planned.range.min).2 planned.range.contains_min
  cases hmem

theorem planFixed_ne_nil (h : settings.planFixed bounds = .ok ranges) : ranges ≠ [] := by
  obtain ⟨parts, hs, rfl⟩ := map_eq_ok.1 h
  simpa using splitRing_ne_nil hs

theorem planFixed_divides (h : settings.planFixed bounds = .ok ranges)
    (hfull : effectiveCoverage settings.coveragePercent = 100) :
    Cover.Divides PlannedRange.Mem ranges (.unrouted bounds) := by
  obtain ⟨parts, hs, rfl⟩ := map_eq_ok.1 h
  exact PlannedRange.divides_withPieces (.unrouted bounds) (splitRing_divides_of_coverage hs hfull)

/-- The clipped segments of a ring that covers the bounds divide the bounds. -/
theorem clipped_divides {segments : List RingSegment}
    (hapart : Cover.Apart TokenRange.Mem (segments.map RingSegment.range))
    (hcover : ∀ t, bounds.Mem t → Cover.Covers TokenRange.Mem (segments.map RingSegment.range) t) :
    Cover.Divides PlannedRange.Mem (clipSegments segments bounds) (.unrouted bounds) := by
  refine ⟨?_, fun t => ⟨?_, ?_⟩⟩
  · have hsegments : Cover.Apart (fun s : RingSegment => s.range.Mem) segments :=
      pairwise_map.1 hapart
    refine hsegments.filterMap ?_
    intro segment planned hs t ht
    obtain ⟨c, hc, rfl⟩ := Option.map_eq_some_iff.1 hs
    exact (exists_clip_mem.1 ⟨c, hc, ht⟩).1
  · rintro ⟨planned, hp, ht⟩
    obtain ⟨segment, -, hs⟩ := mem_filterMap.1 hp
    obtain ⟨c, hc, rfl⟩ := Option.map_eq_some_iff.1 hs
    exact (exists_clip_mem.1 ⟨c, hc, ht⟩).2
  · intro ht
    obtain ⟨r, hr, hrt⟩ := hcover t ht
    obtain ⟨segment, hs, rfl⟩ := mem_map.1 hr
    obtain ⟨c, hc, hct⟩ : ∃ c, clip segment.range bounds = some c ∧ c.Mem t :=
      exists_clip_mem.2 ⟨hrt, ht⟩
    exact ⟨⟨c, segment.replicas⟩, mem_filterMap.2 ⟨segment, hs, by simp [hc]⟩, hct⟩

/-- What ring-aware planning cuts, and how. -/
theorem planRingAware_eq_ok {topology : ClusterTopology}
    (h : settings.planRingAware bounds (some topology) = .ok ranges) :
    ∃ segments totalTokens out, topology.ring = .ok segments ∧ clipSegments segments bounds ≠ [] ∧
      (clipSegments segments bounds).mapM (settings.cutSegment totalTokens) = .ok out ∧
      ranges = out.flatten := by
  obtain ⟨segments, hring, h⟩ := bind_eq_ok.1 h
  simp only at h
  split_ifs at h with h₁ h₂
  obtain ⟨out, hout, rfl⟩ := map_eq_ok.1 h
  exact ⟨segments, _, out, hring, h₂, hout, rfl⟩

theorem planRingAware_ne_nil (h : settings.planRingAware bounds topology = .ok ranges) :
    ranges ≠ [] := by
  cases topology with
  | none => exact planFixed_ne_nil h
  | some topology =>
    obtain ⟨segments, totalTokens, out, -, hne, hout, rfl⟩ := planRingAware_eq_ok h
    refine flatten_ne_nil_of_mapM hout hne ?_
    intro planned _ pieces hp
    obtain ⟨cut, hcut, rfl⟩ := map_eq_ok.1 hp
    simpa [PlannedRange.withPieces] using splitRing_ne_nil hcut

theorem planRingAware_divides (h : settings.planRingAware bounds topology = .ok ranges)
    (hfull : effectiveCoverage settings.coveragePercent = 100)
    (hring : ∀ cluster ∈ topology, ∀ segments, cluster.ring = .ok segments →
      Cover.Apart TokenRange.Mem (segments.map RingSegment.range) ∧
        ∀ t, bounds.Mem t → Cover.Covers TokenRange.Mem (segments.map RingSegment.range) t) :
    Cover.Divides PlannedRange.Mem ranges (.unrouted bounds) := by
  cases topology with
  | none => exact planFixed_divides h hfull
  | some topology =>
    obtain ⟨segments, totalTokens, out, hs, -, hout, rfl⟩ := planRingAware_eq_ok h
    obtain ⟨hapart, hcover⟩ := hring topology rfl segments hs
    refine divides_of_mapM hout ?_ (clipped_divides hapart hcover)
    intro planned _ pieces hp
    obtain ⟨cut, hcut, rfl⟩ := map_eq_ok.1 hp
    exact planned.divides_withPieces (splitRing_divides_of_coverage hcut hfull)

/-- A range of the fixed plan is narrow enough for the even splitter to count its tokens. -/
theorem breakUp_divides {estimates : List SizeEstimate} {planned : PlannedRange}
    {pieces : List PlannedRange} (h : settings.breakUp estimates planned = .ok pieces)
    (hwidth : planned.range.max - planned.range.min ≤ i128Max) :
    Cover.Divides PlannedRange.Mem pieces planned := by
  unfold breakUp at h
  simp only at h
  split_ifs at h
  · cases h
    exact Cover.divides_self planned
  · obtain ⟨cut, hcut, rfl⟩ := map_eq_ok.1 h
    have hlt : planned.range.max - planned.range.min < 2 ^ 128 - 1 :=
      hwidth.trans_lt (by decide)
    exact planned.divides_withPieces (split_divides hcut hlt)

theorem planFixed_width (h : settings.planFixed bounds = .ok ranges) :
    ∀ planned ∈ ranges, planned.range.max - planned.range.min ≤ i128Max := by
  obtain ⟨parts, hs, rfl⟩ := map_eq_ok.1 h
  intro planned hp
  obtain ⟨r, hr, rfl⟩ := mem_map.1 hp
  exact (splitRing_inside hs r hr).2.2

/-- The adaptive strategy returns the fixed plan as it is, or with each of its ranges broken up. -/
theorem planAdaptive_eq_ok (h : settings.planAdaptive bounds topology = .ok ranges) :
    ∃ base, settings.planFixed bounds = .ok base ∧
      (ranges = base ∨ ∃ estimates out, base.mapM (settings.breakUp estimates) = .ok out ∧
        ranges = out.flatten) := by
  obtain ⟨base, hbase, h⟩ := bind_eq_ok.1 h
  refine ⟨base, hbase, ?_⟩
  cases topology with
  | none =>
    cases h
    exact Or.inl rfl
  | some topology =>
    simp only at h
    split_ifs at h
    · cases h
      exact Or.inl rfl
    · cases htable : settings.table with
      | none =>
        rw [htable] at h
        cases h
        exact Or.inl rfl
      | some table =>
        rw [htable] at h
        obtain ⟨estimates, -, h⟩ := bind_eq_ok.1 h
        split_ifs at h
        · cases h
          exact Or.inl rfl
        · obtain ⟨out, hout, rfl⟩ := map_eq_ok.1 h
          exact Or.inr ⟨estimates, out, hout, rfl⟩

theorem planAdaptive_ne_nil (h : settings.planAdaptive bounds topology = .ok ranges) :
    ranges ≠ [] := by
  obtain ⟨base, hbase, rfl | ⟨estimates, out, hout, rfl⟩⟩ := planAdaptive_eq_ok h
  · exact planFixed_ne_nil hbase
  · refine flatten_ne_nil_of_mapM hout (planFixed_ne_nil hbase) ?_
    intro planned hp pieces hpieces
    exact ne_nil_of_divides (breakUp_divides hpieces (planFixed_width hbase planned hp))

theorem planAdaptive_divides (h : settings.planAdaptive bounds topology = .ok ranges)
    (hfull : effectiveCoverage settings.coveragePercent = 100) :
    Cover.Divides PlannedRange.Mem ranges (.unrouted bounds) := by
  obtain ⟨base, hbase, rfl | ⟨estimates, out, hout, rfl⟩⟩ := planAdaptive_eq_ok h
  · exact planFixed_divides hbase hfull
  · refine divides_of_mapM hout ?_ (planFixed_divides hbase hfull)
    intro planned hp pieces hpieces
    exact breakUp_divides hpieces (planFixed_width hbase planned hp)

theorem planRanges_ne_nil (h : settings.planRanges bounds topology = .ok ranges) : ranges ≠ [] := by
  unfold planRanges at h
  cases hs : settings.strategy with
  | fixed =>
    rw [hs] at h
    exact planFixed_ne_nil h
  | ringAware =>
    rw [hs] at h
    exact planRingAware_ne_nil h
  | adaptive =>
    rw [hs] at h
    exact planAdaptive_ne_nil h

theorem planRanges_divides (h : settings.planRanges bounds topology = .ok ranges)
    (hfull : effectiveCoverage settings.coveragePercent = 100)
    (hring : settings.strategy = .ringAware → ∀ cluster ∈ topology, ∀ segments,
      cluster.ring = .ok segments → Cover.Apart TokenRange.Mem (segments.map RingSegment.range) ∧
        ∀ t, bounds.Mem t → Cover.Covers TokenRange.Mem (segments.map RingSegment.range) t) :
    Cover.Divides PlannedRange.Mem ranges (.unrouted bounds) := by
  unfold planRanges at h
  cases hs : settings.strategy with
  | fixed =>
    rw [hs] at h
    exact planFixed_divides h hfull
  | ringAware =>
    rw [hs] at h
    exact planRingAware_divides h hfull (hring hs)
  | adaptive =>
    rw [hs] at h
    exact planAdaptive_divides h hfull

end Strategies

/-! ### The plan -/

/-- Computes the plan of a run. -/
def plan (settings : PlannerSettings) (runId : RunId) (topology : Option ClusterTopology) :
    Except CdmError TokenPlan := do
  let bounds ← settings.partitioner.resolveBounds settings.tokenMin settings.tokenMax
  if settings.strategy.needsTopology && topology.isNone then
    .error (CdmError.withConfigKey
      ⟨.config, s!"plan strategy `{settings.strategy.asStr}` needs origin cluster metadata, which " ++
        "is not available; use `fixed` to plan without a cluster", {}⟩
      "plan.strategy")
  else
    match h : settings.planRanges bounds topology with
    | .error err => .error err
    | .ok ranges =>
      .ok {
        partitioner := settings.partitioner
        strategy := settings.strategy
        bounds := bounds
        coveragePercent := effectiveCoverage settings.coveragePercent
        runId := runId
        resumedFrom := none
        ranges := shuffleForRun ranges runId
        ranges_ne_nil := by
          intro hnil
          have hperm := shuffleForRun_perm ranges runId
          rw [hnil] at hperm
          exact planRanges_ne_nil h hperm.nil_eq.symm }

theorem plan_eq_ok {settings : PlannerSettings} {runId : RunId} {topology : Option ClusterTopology}
    {plan : TokenPlan} (h : settings.plan runId topology = .ok plan) :
    settings.partitioner.resolveBounds settings.tokenMin settings.tokenMax = .ok plan.bounds ∧
      plan.coveragePercent = effectiveCoverage settings.coveragePercent ∧
      ∃ ranges, settings.planRanges plan.bounds topology = .ok ranges ∧
        plan.ranges = shuffleForRun ranges runId := by
  obtain ⟨bounds, hb, h⟩ := bind_eq_ok.1 h
  split_ifs at h
  split at h
  · cases h
  · rename_i ranges hr
    cases h
    exact ⟨hb, rfl, ranges, hr, rfl⟩

/-- **A plan covers the ring exactly.** At full coverage, whatever the partitioner, the number of
parts, the strategy and the run, the planned ranges are pairwise apart and hold exactly the tokens
of the resolved bounds; ring-aware planning needs a ring whose segments are apart and cover the
bounds. -/
theorem plan_divides {settings : PlannerSettings} {runId : RunId}
    {topology : Option ClusterTopology} {plan : TokenPlan}
    (h : settings.plan runId topology = .ok plan) (hfull : plan.coveragePercent = 100)
    (hring : settings.strategy = .ringAware → ∀ cluster ∈ topology, ∀ segments,
      cluster.ring = .ok segments → Cover.Apart TokenRange.Mem (segments.map RingSegment.range) ∧
        ∀ t, plan.bounds.Mem t →
          Cover.Covers TokenRange.Mem (segments.map RingSegment.range) t) :
    settings.partitioner.resolveBounds settings.tokenMin settings.tokenMax = .ok plan.bounds ∧
      Cover.Divides TokenRange.Mem plan.tokenRanges plan.bounds := by
  obtain ⟨hb, hcoverage, ranges, hranges, hplan⟩ := plan_eq_ok h
  refine ⟨hb, ?_⟩
  have hdiv : Cover.Divides PlannedRange.Mem plan.ranges (.unrouted plan.bounds) := by
    rw [hplan]
    exact (planRanges_divides hranges (hcoverage ▸ hfull) hring).perm
      (shuffleForRun_perm ranges runId).symm
  refine ⟨pairwise_map.2 hdiv.apart, fun t => ?_⟩
  rw [← show (PlannedRange.unrouted plan.bounds).Mem t ↔ plan.bounds.Mem t from Iff.rfl,
    ← hdiv.covers_iff]
  simp [Cover.Covers, TokenPlan.tokenRanges, PlannedRange.Mem]

end PlannerSettings

/-! ### A ring of two nodes -/

namespace RingSample

/-- A Murmur3 ring that two nodes hold half each. -/
def halves : List RingSegment :=
  [⟨.checked i64Min (-1) (by decide), ["node-1"]⟩,
    ⟨.checked 0 i64Max (by decide), ["node-2"]⟩]

def cluster : ClusterTopology := ⟨.ok halves, fun _ => .ok []⟩

/-- Ten ranges over the tokens from -1000 on, along the ring segments. -/
def settings : PlannerSettings :=
  ⟨.murmur3, 10, 100, some ⟨-1000, by decide, by decide⟩, none, .ringAware, 1000000, none⟩

theorem halves_apart : Cover.Apart TokenRange.Mem (halves.map RingSegment.range) := by
  refine pairwise_pair.2 ?_
  intro t h₁ h₂
  rw [mem_iff] at h₁ h₂
  simp only at h₁ h₂
  omega

theorem halves_cover {t : ℤ} (ht : murmur3Full.Mem t) :
    Cover.Covers TokenRange.Mem (halves.map RingSegment.range) t := by
  obtain ⟨h₁, h₂⟩ := mem_iff.1 ht
  by_cases h : t ≤ -1
  · exact ⟨_, mem_cons_self .., mem_iff.2 ⟨h₁, h⟩⟩
  · refine ⟨_, mem_cons_of_mem _ (mem_cons_self ..), mem_iff.2 ⟨?_, h₂⟩⟩
    simp only
    omega

/-- The two-node ring is planned exactly, clipped to the configured bounds. -/
theorem plan_divides_halves : ∃ plan, settings.plan ⟨7⟩ (some cluster) = .ok plan ∧
    plan.bounds.min = -1000 ∧ plan.bounds.max = i64Max ∧
    Cover.Divides TokenRange.Mem plan.tokenRanges plan.bounds := by
  have hok : (settings.plan ⟨7⟩ (some cluster)).isOk = true := by decide
  cases h : settings.plan ⟨7⟩ (some cluster) with
  | error e =>
    rw [h] at hok
    cases hok
  | ok plan =>
    have hb : settings.partitioner.resolveBounds settings.tokenMin settings.tokenMax =
        .ok ⟨-1000, i64Max, by decide, by decide, by decide⟩ := by decide
    have hbounds := hb.symm.trans (PlannerSettings.plan_eq_ok h).1
    have hplan : plan.bounds = ⟨-1000, i64Max, by decide, by decide, by decide⟩ :=
      (Except.ok.inj hbounds).symm
    refine ⟨plan, rfl, by rw [hplan], by rw [hplan], ?_⟩
    refine (PlannerSettings.plan_divides h ((PlannerSettings.plan_eq_ok h).2.1.trans rfl) ?_).2
    intro _ c hc segments hs
    cases hc
    cases hs
    refine ⟨halves_apart, fun t ht => halves_cover ?_⟩
    rw [hplan, mem_iff] at ht
    have : i64Min ≤ -1000 := by decide
    exact mem_iff.2 ⟨this.trans ht.1, ht.2⟩

end RingSample

end Cdm
