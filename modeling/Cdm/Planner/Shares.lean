import Mathlib.Data.Int.ConditionallyCompleteOrder
import Mathlib.Algebra.Order.BigOperators.Group.List
import Mathlib.Data.Int.Interval
import Cdm.Planner.Geometry
import Cdm.Planner.Strategies

/-!
# The shares of the ring segments

Ring-aware planning gives every clipped segment a share of the parts by its width.  The share is a
quotient of `u128`s whose dividend, a number of parts times a number of tokens, saturates.  Token
counts reach `2 ^ 127`, so that two parts already saturate it.
-/

namespace Cdm

open Fallible List

/-! ### Widths -/

namespace TokenRange

/-- The number of tokens in the range. -/
def width (r : TokenRange) : ℕ := (r.max - r.min + 1).toNat

theorem width_pos (r : TokenRange) : 0 < r.width := by
  have := r.min_le_max
  rw [width]
  omega

theorem card_Icc (r : TokenRange) : (Finset.Icc r.min r.max).card = r.width := by
  rw [Int.card_Icc, width, sub_add_eq_add_sub]

/-- Of a range that is no wider than an `i128`, the count does not saturate. -/
theorem tokenCount_eq_width {r : TokenRange} (h : r.max - r.min ≤ i128Max) :
    r.tokenCount = r.width := by
  have hcount := r.tokenCount_eq
  have hle := r.min_le_max
  have htop : i128Max = 2 ^ 127 - 1 := rfl
  rw [width]
  omega

/-- The ranges of a list that is apart are no wider together than a range that holds them. -/
theorem sum_width_le {ranges : List TokenRange} {bounds : TokenRange}
    (hapart : Cover.Apart Mem ranges) (hinside : ∀ r ∈ ranges, bounds.containsRange r = true) :
    (ranges.map width).sum ≤ bounds.width := by
  -- the tokens of the ranges, as one set
  have hunion : ∃ tokens : Finset ℤ, tokens.card = (ranges.map width).sum ∧
      ∀ t, t ∈ tokens ↔ Cover.Covers Mem ranges t := by
    clear hinside
    induction ranges with
    | nil => exact ⟨∅, rfl, fun t => by simp [Cover.Covers]⟩
    | cons r ranges ih =>
      obtain ⟨hr, hrest⟩ := pairwise_cons.1 hapart
      obtain ⟨tokens, hcard, htokens⟩ := ih hrest
      refine ⟨Finset.Icc r.min r.max ∪ tokens, ?_, ?_⟩
      · rw [Finset.card_union_of_disjoint, hcard, card_Icc, map_cons, sum_cons]
        rw [Finset.disjoint_left]
        intro t ht hmem
        obtain ⟨s, hs, hst⟩ := (htokens t).1 hmem
        exact hr s hs t (mem_iff.2 (Finset.mem_Icc.1 ht)) hst
      · intro t
        rw [Finset.mem_union, Finset.mem_Icc, htokens, Cover.covers_cons, mem_iff]
  obtain ⟨tokens, hcard, htokens⟩ := hunion
  rw [← hcard, ← card_Icc]
  refine Finset.card_le_card ?_
  intro t ht
  obtain ⟨r, hr, hrt⟩ := (htokens t).1 ht
  obtain ⟨h₁, h₂⟩ := containsRange_iff.1 (hinside r hr)
  rw [mem_iff] at hrt
  exact Finset.mem_Icc.2 ⟨h₁.trans hrt.1, hrt.2.trans h₂⟩

end TokenRange

/-- The share of `parts` that a number of tokens has among all of them, and at least one. -/
def proportionalShare (parts tokens totalTokens : ℕ) : ℕ := max 1 (parts * tokens / totalTokens)

/-! ### Clipped segments -/

namespace PlannerSettings

variable {settings : PlannerSettings} {bounds : TokenRange} {segments : List RingSegment}

/-- The number of tokens of the clipped segments, as the planner counts them. -/
def countTokens (clipped : List PlannedRange) : ℕ :=
  (clipped.map fun planned => planned.range.tokenCount).sum % 2 ^ 128

/-- The number of tokens of the clipped segments. -/
def totalWidth (clipped : List PlannedRange) : ℕ :=
  (clipped.map fun planned => planned.range.width).sum

/-- Ring-aware planning cuts each clipped segment into its share, by the planner's count. -/
theorem planRingAware_cuts {topology : ClusterTopology} {ranges : List PlannedRange}
    (hring : topology.ring = .ok segments)
    (h : settings.planRingAware bounds (some topology) = .ok ranges) :
    ∃ out, (clipSegments segments bounds).mapM
        (settings.cutSegment (countTokens (clipSegments segments bounds))) = .ok out ∧
      ranges = out.flatten := by
  simp only [planRingAware, hring] at h
  rw [ok_bind] at h
  split_ifs at h
  obtain ⟨out, hout, rfl⟩ := map_eq_ok.1 h
  exact ⟨out, hout, rfl⟩

/-- A clipped segment lies in its segment and in the bounds. -/
theorem exists_of_mem_clipSegments {planned : PlannedRange}
    (h : planned ∈ clipSegments segments bounds) :
    bounds.containsRange planned.range = true ∧
      ∃ segment ∈ segments, segment.range.containsRange planned.range = true := by
  obtain ⟨segment, hsegment, hclip⟩ := mem_filterMap.1 h
  obtain ⟨c, hc, rfl⟩ := Option.map_eq_some_iff.1 hclip
  obtain ⟨hmin, hmax⟩ := clip_eq_some hc
  refine ⟨TokenRange.containsRange_iff.2 ?_, segment, hsegment, TokenRange.containsRange_iff.2 ?_⟩
  · rw [hmin, hmax]
    exact ⟨le_max_right .., min_le_right ..⟩
  · rw [hmin, hmax]
    exact ⟨le_max_left .., min_le_left ..⟩

theorem apart_clipSegments (hapart : Cover.Apart TokenRange.Mem (segments.map RingSegment.range)) :
    Cover.Apart PlannedRange.Mem (clipSegments segments bounds) := by
  have hsegments : Cover.Apart (fun s : RingSegment => s.range.Mem) segments :=
    pairwise_map.1 hapart
  refine hsegments.filterMap ?_
  intro segment planned hs t ht
  obtain ⟨c, hc, rfl⟩ := Option.map_eq_some_iff.1 hs
  exact (exists_clip_mem.1 ⟨c, hc, ht⟩).1

/-- On a ring without overlaps the planner counts right. -/
theorem countTokens_eq (segments : List RingSegment) (hspan : bounds.max - bounds.min ≤ i128Max)
    (hapart : Cover.Apart TokenRange.Mem (segments.map RingSegment.range)) :
    (∀ planned ∈ clipSegments segments bounds, planned.range.tokenCount = planned.range.width) ∧
      countTokens (clipSegments segments bounds) = totalWidth (clipSegments segments bounds) ∧
      totalWidth (clipSegments segments bounds) ≤ 2 ^ 127 := by
  have hinside : ∀ planned ∈ clipSegments segments bounds,
      bounds.containsRange planned.range = true := fun planned h =>
    (exists_of_mem_clipSegments h).1
  have hcount : ∀ planned ∈ clipSegments segments bounds,
      planned.range.tokenCount = planned.range.width := by
    intro planned hp
    obtain ⟨hmin, hmax⟩ := TokenRange.containsRange_iff.1 (hinside planned hp)
    exact TokenRange.tokenCount_eq_width (by omega)
  have htotal : totalWidth (clipSegments segments bounds) ≤ bounds.width := by
    have hranges : Cover.Apart TokenRange.Mem
        ((clipSegments segments bounds).map PlannedRange.range) :=
      pairwise_map.2 (apart_clipSegments hapart)
    have hle := TokenRange.sum_width_le hranges (by simpa using hinside)
    rwa [map_map] at hle
  have hwidth : bounds.width ≤ 2 ^ 127 := by
    have htop : i128Max = 2 ^ 127 - 1 := rfl
    rw [TokenRange.width]
    omega
  refine ⟨hcount, ?_, htotal.trans hwidth⟩
  rw [countTokens, map_congr_left hcount, ← totalWidth, Nat.mod_eq_of_lt (by omega)]

/-! ### Shares -/

/-- A quotient is the quotient of the saturated dividend exactly when the dividend is below the first
multiple of the divisor above the ceiling. -/
theorem min_div_eq_iff {cap dividend divisor : ℕ} (h : 0 < divisor) :
    min cap dividend / divisor = dividend / divisor ↔ dividend < (cap / divisor + 1) * divisor := by
  rw [← Nat.div_lt_iff_lt_mul h, Nat.lt_succ_iff]
  constructor
  · intro heq
    rw [← heq]
    exact Nat.div_le_div_right (min_le_left ..)
  · intro hle
    rcases le_total dividend cap with hcap | hcap
    · rw [min_eq_right hcap]
    · rw [min_eq_left hcap]
      exact le_antisymm (Nat.div_le_div_right hcap) hle

/-- The number of parts of a segment is its proportional share exactly when saturation does not change
the quotient. -/
theorem segmentParts_eq_iff (hparts : settings.numParts ≤ u64Max) {range : TokenRange} {total : ℕ}
    (hpos : 0 < total) (hcount : range.tokenCount = range.width) (hrange : range.width ≤ total)
    (htotal : total ≤ u128Max) :
    settings.segmentParts total range = proportionalShare settings.numParts range.width total ↔
      settings.numParts * range.width < (u128Max / total + 1) * total := by
  have hshare : settings.numParts * range.width / total ≤ settings.numParts :=
    Nat.div_le_of_le_mul (by rw [Nat.mul_comm total]; exact Nat.mul_le_mul_left _ hrange)
  have hsaturated : min u128Max (settings.numParts * range.width) / total ≤
      settings.numParts * range.width / total := Nat.div_le_div_right (min_le_right ..)
  rw [← min_div_eq_iff hpos, segmentParts, proportionalShare, hcount, Nat.max_eq_left hpos,
    Nat.min_eq_left ((hsaturated.trans hshare).trans hparts), max_comm 1]
  constructor
  · intro hmax
    rcases le_total (settings.numParts * range.width) u128Max with hcap | hcap
    · rw [Nat.min_eq_right hcap]
    · -- both quotients are at least one, so that the larger of each and one is the quotient
      have hone : 1 ≤ min u128Max (settings.numParts * range.width) / total := by
        rw [Nat.min_eq_left hcap]
        exact (Nat.one_le_div_iff hpos).2 htotal
      rwa [Nat.max_eq_left hone, Nat.max_eq_left (hone.trans hsaturated)] at hmax
  · intro heq
    rw [heq]

/-- Ring-aware planning is proportional: each clipped segment is cut into its share of the parts, over
the integers, and no planned range crosses the boundary of a segment. -/
structure Proportional (settings : PlannerSettings) (bounds : TokenRange)
    (segments : List RingSegment) : Prop where
  parts : ∀ planned ∈ clipSegments segments bounds,
    settings.segmentParts (countTokens (clipSegments segments bounds)) planned.range =
      proportionalShare settings.numParts planned.range.width
        (totalWidth (clipSegments segments bounds))
  inside : ∀ topology ranges, topology.ring = .ok segments →
    settings.planRingAware bounds (some topology) = .ok ranges →
      ∀ planned ∈ ranges, ∃ segment ∈ segments, segment.range.containsRange planned.range = true

/-- A planned range lies in one segment of the ring. -/
theorem planRingAware_inside {topology : ClusterTopology} {ranges : List PlannedRange}
    (hring : topology.ring = .ok segments)
    (h : settings.planRingAware bounds (some topology) = .ok ranges) :
    ∀ planned ∈ ranges, ∃ segment ∈ segments, segment.range.containsRange planned.range = true := by
  obtain ⟨out, hout, rfl⟩ := planRingAware_cuts hring h
  obtain ⟨hmap, hok⟩ := mapM_eq_ok_map [] hout
  intro planned hplanned
  rw [hmap, ← List.flatMap, mem_flatMap] at hplanned
  obtain ⟨clipped, hclipped, hmem⟩ := hplanned
  obtain ⟨pieces, hpieces, heq⟩ := map_eq_ok.1 (hok clipped hclipped)
  rw [← heq] at hmem
  obtain ⟨piece, hpiece, rfl⟩ := mem_map.1 hmem
  obtain ⟨-, segment, hsegment, hinside⟩ := exists_of_mem_clipSegments hclipped
  have hpart := splitRing_inside hpieces piece hpiece
  rw [TokenRange.containsRange_iff] at hinside
  exact ⟨segment, hsegment, TokenRange.containsRange_iff.2
    ⟨hinside.1.trans hpart.1, hpart.2.1.trans hinside.2⟩⟩

/-- **When the shares are proportional.** On a ring without overlaps, for bounds in the ring of a
partitioner, ring-aware planning is proportional exactly when no clipped segment's product of parts
and tokens reaches the first multiple of the total above `u128::MAX`. -/
theorem shares_proportional_iff {p : Partitioner} {ring : TokenRange}
    (hring : p.fullRing = some ring) (hbounds : ring.containsRange bounds = true)
    (hapart : Cover.Apart TokenRange.Mem (segments.map RingSegment.range))
    (hparts : settings.numParts ≤ u64Max) :
    settings.Proportional bounds segments ↔
      ∀ planned ∈ clipSegments segments bounds, settings.numParts * planned.range.width <
        (u128Max / totalWidth (clipSegments segments bounds) + 1) *
          totalWidth (clipSegments segments bounds) := by
  obtain ⟨hcount, htotal, hle⟩ :=
    countTokens_eq segments (Partitioner.span_le hring hbounds) hapart
  have hiff : ∀ planned ∈ clipSegments segments bounds,
      (settings.segmentParts (countTokens (clipSegments segments bounds)) planned.range =
        proportionalShare settings.numParts planned.range.width
          (totalWidth (clipSegments segments bounds)) ↔
        settings.numParts * planned.range.width <
          (u128Max / totalWidth (clipSegments segments bounds) + 1) *
            totalWidth (clipSegments segments bounds)) := by
    intro planned hp
    have hwidth : planned.range.width ≤ totalWidth (clipSegments segments bounds) :=
      le_sum_of_mem (mem_map.2 ⟨planned, hp, rfl⟩)
    rw [htotal]
    exact segmentParts_eq_iff hparts (planned.range.width_pos.trans_le hwidth)
      (hcount planned hp) hwidth (hle.trans (by decide))
  constructor
  · intro h planned hp
    exact (hiff planned hp).1 (h.parts planned hp)
  · intro h
    refine ⟨fun planned hp => (hiff planned hp).2 (h planned hp), ?_⟩
    intro topology ranges hsegments hplan
    exact planRingAware_inside hsegments hplan

end PlannerSettings

/-! ### A ring of one node -/

namespace ShareSample

/-- A `RandomPartitioner` ring that one node holds. -/
def whole : List RingSegment := [⟨.randomFull, ["node-1"]⟩]

/-- Ten parts over the whole ring. -/
def settings : PlannerSettings := ⟨.random, 10, 100, none, none, .ringAware, 1000000, none⟩

/-- The Murmur3 ring of two nodes is shared out proportionally. -/
theorem shares_proportional_halves :
    (∀ planned ∈ PlannerSettings.clipSegments RingSample.halves .murmur3Full,
      10 * planned.range.width <
        (u128Max / PlannerSettings.totalWidth (PlannerSettings.clipSegments RingSample.halves
          .murmur3Full) + 1) *
            PlannerSettings.totalWidth (PlannerSettings.clipSegments RingSample.halves
              .murmur3Full)) ∧
      RingSample.settings.Proportional .murmur3Full RingSample.halves := by
  have hfits : ∀ planned ∈ PlannerSettings.clipSegments RingSample.halves .murmur3Full,
      10 * planned.range.width <
        (u128Max / PlannerSettings.totalWidth (PlannerSettings.clipSegments RingSample.halves
          .murmur3Full) + 1) *
            PlannerSettings.totalWidth (PlannerSettings.clipSegments RingSample.halves
              .murmur3Full) := by decide
  exact ⟨hfits, (PlannerSettings.shares_proportional_iff (p := .murmur3) rfl (by decide)
    RingSample.halves_apart (by decide)).2 hfits⟩

/-- The whole `RandomPartitioner` ring is cut into one part, and not into the ten that it was given:
`10 * 2 ^ 127` saturates. -/
theorem not_proportional : ¬settings.Proportional .randomFull whole := by
  intro h
  have hparts := h.parts ⟨.randomFull, ["node-1"]⟩ (by decide)
  revert hparts
  decide

end ShareSample

end Cdm
