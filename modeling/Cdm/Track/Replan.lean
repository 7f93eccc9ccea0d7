import Cdm.Planner.Admission
import Cdm.Planner.Geometry
import Cdm.Track.Resume

/-!
# A resume partitions the records of a run

Every record of the previous run is left alone, planned again, or withheld; the ranges that are
planned hold the tokens of the records that are planned again, each token once, however the pending
ranges are subdivided.  Nodes that read the records in different orders plan the same ranges in the
same order.

A resume plans nothing when the multiplier is above the range ceiling and some record is to be planned
again, and the scheduler takes no plan that is empty or above the ceiling itself.
-/

namespace Cdm

open Fallible List

/-! ### What became of a record -/

namespace ResumePlan

variable (plan : ResumePlan)

/-- No token of the range is planned. -/
def LeavesOut (range : TokenRange) : Prop :=
  ∀ t, range.Mem t → ¬Cover.Covers TokenRange.Mem plan.ranges t

/-- Every token of the range is planned. -/
def Replans (range : TokenRange) : Prop :=
  ∀ t, range.Mem t → Cover.Covers TokenRange.Mem plan.ranges t

/-- The range is on the quarantine list. -/
def Quarantines (range : TokenRange) : Prop := ∃ entry ∈ plan.quarantined, entry.range = range

/-- What the resume has done with a record. -/
def Treats (record : RangeRecord) : RangeDisposition → Prop
  | .complete => plan.LeavesOut record.range ∧ ¬plan.Quarantines record.range
  | .rerun => plan.Replans record.range ∧ ¬plan.Quarantines record.range
  | .quarantined reason => plan.LeavesOut record.range ∧
      ⟨record.range, some record.status, reason⟩ ∈ plan.quarantined

variable {plan}

theorem not_replans_of_leavesOut {range : TokenRange} (h : plan.LeavesOut range) :
    ¬plan.Replans range := by
  intro hreplans
  exact h range.min range.contains_min (hreplans range.min range.contains_min)

/-- A resume does one thing with a record. -/
theorem Treats.unique {record : RangeRecord} {d d' : RangeDisposition} (h : plan.Treats record d)
    (h' : plan.Treats record d') : d = d' := by
  cases d with
  | complete =>
    cases d' with
    | complete => rfl
    | rerun => exact absurd h'.1 (not_replans_of_leavesOut h.1)
    | quarantined reason => exact absurd ⟨_, h'.2, rfl⟩ h.2
  | rerun =>
    cases d' with
    | complete => exact absurd h.1 (not_replans_of_leavesOut h'.1)
    | rerun => rfl
    | quarantined reason => exact absurd h.1 (not_replans_of_leavesOut h'.1)
  | quarantined reason =>
    cases d' with
    | complete => exact absurd ⟨_, h.2, rfl⟩ h'.2
    | rerun => exact absurd h'.1 (not_replans_of_leavesOut h.1)
    | quarantined reason' =>
      cases reason
      cases reason'
      rfl

end ResumePlan

/-! ### The records of a plan -/

section Records

variable {prev runId : RunId} {previous : RunRecord} {records : List RangeRecord}
  {policy : RerunPolicy} {multiplier : ℕ} {plan : ResumePlan}

theorem mem_pendingRanges {range : TokenRange} :
    range ∈ pendingRanges policy records ↔
      ∃ record ∈ records, policy.disposition (some record.status) = .rerun ∧
        record.range = range := by
  simp [pendingRanges, and_assoc]

theorem mem_quarantinedRanges {entry : QuarantinedRange} :
    entry ∈ quarantinedRanges policy records ↔
      ∃ record ∈ records, policy.disposition (some record.status) = .quarantined entry.reason ∧
        entry = ⟨record.range, some record.status, entry.reason⟩ := by
  rw [quarantinedRanges, mem_filterMap]
  refine exists_congr fun record => and_congr_right fun _ => ?_
  cases policy.disposition (some record.status) with
  | complete => simp
  | rerun => simp
  | quarantined reason =>
    obtain ⟨range, status, reason'⟩ := entry
    simp only [Option.some.injEq, QuarantinedRange.mk.injEq]
    tauto

variable (hstarted : previous.status ≠ .notStarted)
  (hapart : Cover.Apart TokenRange.Mem (records.map RangeRecord.range))
  (h : planResume prev (some previous) records policy multiplier runId = .ok plan)

include hapart in
/-- Of records whose ranges are apart, one is determined by its range. -/
theorem eq_of_range {a b : RangeRecord} (ha : a ∈ records) (hb : b ∈ records)
    (h : a.range = b.range) : a = b := by
  have hrecords : Cover.Apart (fun record : RangeRecord => record.range.Mem) records :=
    pairwise_map.1 hapart
  exact hrecords.eq_of_mem ha hb (a := a.range.min) a.range.contains_min
    (h ▸ a.range.contains_min)

include hstarted h

/-- What a resume of a started run plans and withholds; without records it falls back, and does
neither. -/
theorem planResume_spec :
    ∃ f : TokenRange → List TokenRange,
      plan.ranges.Perm ((pendingRanges policy records).flatMap f) ∧
      (∀ r ∈ pendingRanges policy records, Cover.Divides TokenRange.Mem (f r) r) ∧
      plan.quarantined.Perm (quarantinedRanges policy records) := by
  by_cases hrecords : records = []
  · subst hrecords
    rw [planResume, if_neg hstarted, if_pos rfl] at h
    cases h
    exact ⟨fun r => [r], .refl _, fun r hr => absurd hr not_mem_nil, .refl _⟩
  · have hfallback := planResume_fallback h hstarted hrecords
    obtain ⟨f, hperm, hdivides⟩ := planResume_ok h hfallback
    exact ⟨f, hperm, hdivides, quarantined_of_planResume h hfallback⟩

/-- The tokens that are planned are those of the records that are planned again. -/
theorem covers_planResume (t : ℤ) :
    Cover.Covers TokenRange.Mem plan.ranges t ↔
      ∃ record ∈ records, policy.disposition (some record.status) = .rerun ∧
        record.range.Mem t := by
  obtain ⟨f, hperm, hdivides, -⟩ := planResume_spec hstarted h
  have hcovers : Cover.Covers TokenRange.Mem plan.ranges t ↔
      Cover.Covers TokenRange.Mem (pendingRanges policy records) t := by
    rw [← Cover.covers_flatMap hdivides]
    exact ⟨fun hc => hc.perm hperm, fun hc => hc.perm hperm.symm⟩
  rw [hcovers]
  constructor
  · rintro ⟨range, hrange, ht⟩
    obtain ⟨record, hrecord, hrerun, rfl⟩ := mem_pendingRanges.1 hrange
    exact ⟨record, hrecord, hrerun, ht⟩
  · rintro ⟨record, hrecord, hrerun, ht⟩
    exact ⟨record.range, mem_pendingRanges.2 ⟨record, hrecord, hrerun, rfl⟩, ht⟩

include hapart

theorem apart_planResume : Cover.Apart TokenRange.Mem plan.ranges := by
  obtain ⟨f, hperm, hdivides, -⟩ := planResume_spec hstarted h
  exact ((hapart.sublist (filter_sublist.map _)).flatMap hdivides).perm hperm.symm

/-- A record is treated as the policy disposes of its status. -/
theorem treats_planResume {record : RangeRecord} (hrecord : record ∈ records) :
    plan.Treats record (policy.disposition (some record.status)) := by
  have hrecords : Cover.Apart (fun record : RangeRecord => record.range.Mem) records :=
    pairwise_map.1 hapart
  obtain ⟨-, -, -, hquarantined⟩ := planResume_spec hstarted h
  have hleaves (hdisposition : policy.disposition (some record.status) ≠ .rerun) :
      plan.LeavesOut record.range := by
    intro t ht hcovers
    -- the token is in no record but this one
    obtain ⟨other, hother, hrerun, hother'⟩ := (covers_planResume hstarted h t).1 hcovers
    cases hrecords.eq_of_mem hother hrecord hother' ht
    exact hdisposition hrerun
  have hquarantine (hdisposition : ∀ reason,
      policy.disposition (some record.status) ≠ .quarantined reason) :
      ¬plan.Quarantines record.range := by
    rintro ⟨entry, hentry, hrange⟩
    obtain ⟨other, hother, hreason, heq⟩ := mem_quarantinedRanges.1 (hquarantined.mem_iff.1 hentry)
    rw [heq] at hrange
    cases eq_of_range hapart hother hrecord hrange
    exact hdisposition _ hreason
  cases hdisposition : policy.disposition (some record.status) with
  | complete =>
    exact ⟨hleaves (by simp [hdisposition]), hquarantine (by simp [hdisposition])⟩
  | rerun =>
    refine ⟨?_, hquarantine (by simp [hdisposition])⟩
    intro t ht
    exact (covers_planResume hstarted h t).2 ⟨record, hrecord, hdisposition, ht⟩
  | quarantined reason =>
    refine ⟨hleaves (by simp [hdisposition]), hquarantined.mem_iff.2 ?_⟩
    exact mem_quarantinedRanges.2 ⟨record, hrecord, hdisposition, rfl⟩

/-- A resume that plans a range below the ceiling has a plan for the scheduler. -/
theorem exists_tokenPlan (hne : plan.ranges ≠ [])
    (hle : plan.ranges.length ≤ maxPlannedRanges) (p : Partitioner) :
    ∃ tokenPlan, plan.tokenPlan runId p = .ok tokenPlan ∧
      tokenPlan.tokenRanges = plan.ranges := by
  have hrecords : records ≠ [] := by
    rintro rfl
    have hcovers := covers_planResume hstarted h (plan.ranges.head hne).min
    obtain ⟨record, hrecord, -⟩ :=
      hcovers.1 ⟨_, head_mem hne, (plan.ranges.head hne).contains_min⟩
    exact absurd hrecord not_mem_nil
  rw [ResumePlan.tokenPlan, planResume_fallback h hstarted hrecords, if_neg (by simp), if_neg hne]
  exact TokenPlan.exists_fromRanges hne hle (apart_planResume hstarted hapart h)

end Records

/-! ### The order of the records -/

theorem insertionSort_eq_of_perm {ranges ranges' : List TokenRange} (h : ranges.Perm ranges') :
    ranges.insertionSort (· ≤ ·) = ranges'.insertionSort (· ≤ ·) := by
  refine List.Perm.eq_of_pairwise' (r := (· ≤ ·)) (pairwise_insertionSort ..)
    (pairwise_insertionSort ..) ?_
  exact (perm_insertionSort ..).trans (h.trans (perm_insertionSort ..).symm)

/-- Ranges that come in another order are subdivided into the same parts. -/
theorem subdivideAll_perm {ranges ranges' parts : List TokenRange} {multiplier : ℕ}
    (h : ranges.Perm ranges') (hparts : subdivideAll ranges multiplier = .ok parts) :
    ∃ parts', subdivideAll ranges' multiplier = .ok parts' ∧ parts.Perm parts' := by
  unfold subdivideAll at hparts ⊢
  split_ifs at hparts ⊢ with hmultiplier
  · obtain ⟨pieces, hpieces, rfl⟩ := map_eq_ok.1 hparts
    obtain ⟨hmap, hok⟩ := mapM_eq_ok_map [] hpieces
    obtain ⟨pieces', hpieces'⟩ := exists_mapM_eq_ok.2 fun r hr =>
      ⟨_, hok r (h.mem_iff.2 hr)⟩
    obtain ⟨hmap', -⟩ := mapM_eq_ok_map [] hpieces'
    refine ⟨pieces'.flatten, map_eq_ok.2 ⟨pieces', hpieces', rfl⟩, ?_⟩
    rw [hmap, hmap']
    exact (h.map _).flatten
  · cases hparts
    exact ⟨ranges', rfl, h⟩

/-- Ranges that are no wider than an `i128` are subdivided, unless the multiplier is above the
ceiling and there is a range. -/
theorem exists_subdivideAll_iff {ranges : List TokenRange} {multiplier : ℕ}
    (hspan : ∀ range ∈ ranges, range.max - range.min ≤ i128Max) :
    (∃ parts, subdivideAll ranges (max multiplier 1) = .ok parts) ↔
      multiplier ≤ maxPlannedRanges ∨ ranges = [] := by
  have hceiling : 1 ≤ maxPlannedRanges := by decide
  unfold subdivideAll
  split_ifs with hmultiplier
  · constructor
    · rintro ⟨parts, hparts⟩
      obtain ⟨pieces, hpieces, -⟩ := map_eq_ok.1 hparts
      obtain ⟨-, hok⟩ := mapM_eq_ok_map [] hpieces
      by_contra hnot
      obtain ⟨hlt, hne⟩ := not_or.1 hnot
      obtain ⟨range, hrange⟩ := exists_mem_of_ne_nil _ hne
      -- the first range that is split already meets the ceiling
      have hsplit := hok range hrange
      rw [subdivide, if_neg (by omega), splitRing, if_neg (by omega), if_pos (by omega)] at hsplit
      cases hsplit
    · intro hor
      have hcut : ∀ range ∈ ranges, ∃ parts, subdivide range (max multiplier 1) = .ok parts := by
        intro range hrange
        have hle : multiplier ≤ maxPlannedRanges := hor.resolve_right (ne_nil_of_mem hrange)
        obtain ⟨parts, -, -, hsplit, -⟩ :=
          splitRing_of_le (n := max multiplier 1) (by omega) (by omega) (hspan range hrange) 100
        rw [subdivide, if_neg (by omega), hsplit]
        exact ⟨_, rfl⟩
      obtain ⟨pieces, hpieces⟩ := exists_mapM_eq_ok.2 hcut
      exact ⟨pieces.flatten, map_eq_ok.2 ⟨pieces, hpieces, rfl⟩⟩
  · exact iff_of_true ⟨_, rfl⟩ (.inl (by omega))

section Order

variable {prev runId : RunId} {previous : RunRecord} {records records' : List RangeRecord}
  {policy : RerunPolicy} {multiplier : ℕ} {plan : ResumePlan}

/-- The quarantined ranges are apart, so that sorting them by range leaves no choice. -/
theorem insertionSort_quarantinedRanges
    (hapart : Cover.Apart TokenRange.Mem (records.map RangeRecord.range))
    (h : records.Perm records') :
    (quarantinedRanges policy records).insertionSort (fun a b => a.range ≤ b.range) =
      (quarantinedRanges policy records').insertionSort fun a b => a.range ≤ b.range := by
  have htotal : Std.Total fun a b : QuarantinedRange => a.range ≤ b.range :=
    ⟨fun a b => le_total a.range b.range⟩
  have htrans : IsTrans QuarantinedRange fun a b => a.range ≤ b.range :=
    ⟨fun _ _ _ hab hbc => hab.trans hbc⟩
  have hperm : (quarantinedRanges policy records).Perm (quarantinedRanges policy records') :=
    h.filterMap _
  refine List.Perm.eq_of_pairwise ?_ (pairwise_insertionSort _ _)
    (pairwise_insertionSort _ _)
    ((perm_insertionSort ..).trans (hperm.trans (perm_insertionSort ..).symm))
  intro a b ha hb hab hba
  rw [mem_insertionSort] at ha hb
  obtain ⟨x, hx, hxreason, hxa⟩ := mem_quarantinedRanges.1 ha
  obtain ⟨y, hy, hyreason, hyb⟩ := mem_quarantinedRanges.1 (hperm.mem_iff.2 hb)
  -- entries that neither comes before are of one range, and so of one record
  have hrange : x.range = y.range := by
    have := le_antisymm hab hba
    rwa [hxa, hyb] at this
  cases eq_of_range hapart hx hy hrange
  have hreason : a.reason = b.reason := by
    cases hxreason.symm.trans hyreason
    rfl
  rw [hxa, hyb, hreason]

theorem planResume_perm (hapart : Cover.Apart TokenRange.Mem (records.map RangeRecord.range))
    (h : records.Perm records')
    (hplan : planResume prev (some previous) records policy multiplier runId = .ok plan) :
    planResume prev (some previous) records' policy multiplier runId = .ok plan := by
  by_cases hstatus : previous.status = .notStarted
  · rw [planResume, if_pos hstatus] at hplan ⊢
    exact hplan
  · by_cases hrecords : records = []
    · subst hrecords
      cases h.nil_eq
      exact hplan
    · have hrecords' : records' ≠ [] := by
        rintro rfl
        exact hrecords h.eq_nil
      rw [planResume_of_records hstatus hrecords] at hplan
      rw [planResume_of_records hstatus hrecords']
      obtain ⟨pending, hpending, rfl⟩ := map_eq_ok.1 hplan
      have hranges : (pendingRanges policy records).Perm (pendingRanges policy records') :=
        (h.filter _).map _
      obtain ⟨pending', hpending', hperm⟩ := subdivideAll_perm hranges hpending
      refine map_eq_ok.2 ⟨pending', hpending', ?_⟩
      rw [insertionSort_eq_of_perm hperm, insertionSort_quarantinedRanges hapart h, h.length_eq]

/-- A resume of ranges that are no wider than an `i128` fails only on a multiplier above the ceiling,
and only when there is something to subdivide. -/
theorem exists_planResume_iff (hstarted : previous.status ≠ .notStarted)
    (hspan : ∀ record ∈ records, record.range.max - record.range.min ≤ i128Max) :
    (∃ plan, planResume prev (some previous) records policy multiplier runId = .ok plan) ↔
      multiplier ≤ maxPlannedRanges ∨
        ∀ record ∈ records, policy.disposition (some record.status) ≠ .rerun := by
  by_cases hrecords : records = []
  · subst hrecords
    refine iff_of_true ⟨.ofFallback prev (.noRangesRecorded prev), ?_⟩
      (.inr fun _ h => absurd h not_mem_nil)
    rw [planResume, if_neg hstarted, if_pos rfl]
  · have hranges : ∀ range ∈ pendingRanges policy records, range.max - range.min ≤ i128Max := by
      intro range hrange
      obtain ⟨record, hrecord, -, rfl⟩ := mem_pendingRanges.1 hrange
      exact hspan record hrecord
    have hnone : pendingRanges policy records = [] ↔
        ∀ record ∈ records, policy.disposition (some record.status) ≠ .rerun := by
      simp [pendingRanges]
    rw [planResume_of_records hstarted hrecords, ← hnone, ← exists_subdivideAll_iff hranges]
    constructor
    · rintro ⟨plan, hplan⟩
      obtain ⟨pending, hpending, -⟩ := map_eq_ok.1 hplan
      exact ⟨pending, hpending⟩
    · rintro ⟨pending, hpending⟩
      exact ⟨_, map_eq_ok.2 ⟨pending, hpending, rfl⟩⟩

end Order

section Partition

variable {prev runId : RunId} {previous : RunRecord} {records : List RangeRecord}

/-- **A resume partitions the records of a started run.** Of a plan that a resume makes, each record
is complete, planned again or quarantined, and one of these only; the tokens planned are those of the
records planned again, whatever the multiplier; the planned ranges are apart, and the scheduler takes
them when there are any and not more than the ceiling.  The order of the records changes nothing, and
the resume makes a plan unless the multiplier is above the ceiling and some record is planned
again. -/
theorem planResume_partition (policy : RerunPolicy) (multiplier : ℕ)
    (hstarted : previous.status ≠ .notStarted)
    (hapart : Cover.Apart TokenRange.Mem (records.map RangeRecord.range)) :
    (∀ plan, planResume prev (some previous) records policy multiplier runId = .ok plan →
      (∀ record ∈ records, ∃! d, plan.Treats record d) ∧
      (∀ t, Cover.Covers TokenRange.Mem plan.ranges t ↔
        ∃ record ∈ records, policy.disposition (some record.status) = .rerun ∧
          record.range.Mem t) ∧
      Cover.Apart TokenRange.Mem plan.ranges ∧
      (plan.ranges ≠ [] → plan.ranges.length ≤ maxPlannedRanges → ∀ p, ∃ tokenPlan,
        plan.tokenPlan runId p = .ok tokenPlan ∧ tokenPlan.tokenRanges = plan.ranges)) ∧
    (∀ records', records.Perm records' →
      (planResume prev (some previous) records' policy multiplier runId).toOption =
        (planResume prev (some previous) records policy multiplier runId).toOption) ∧
    ((∀ record ∈ records, record.range.max - record.range.min ≤ i128Max) →
      ((∃ plan, planResume prev (some previous) records policy multiplier runId = .ok plan) ↔
        multiplier ≤ maxPlannedRanges ∨
          ∀ record ∈ records, policy.disposition (some record.status) ≠ .rerun)) := by
  refine ⟨?_, ?_, exists_planResume_iff hstarted⟩
  · intro plan h
    refine ⟨?_, covers_planResume hstarted h, apart_planResume hstarted hapart h, ?_⟩
    · intro record hrecord
      have htreats := treats_planResume hstarted hapart h hrecord
      exact ⟨_, htreats, fun d hd => hd.unique htreats⟩
    · intro hne hle p
      exact exists_tokenPlan hstarted hapart h hne hle p
  · intro records' hperm
    have hapart' : Cover.Apart TokenRange.Mem (records'.map RangeRecord.range) :=
      hapart.perm (hperm.map _)
    ext plan
    rw [toOption_eq_some, toOption_eq_some]
    exact ⟨planResume_perm hapart' hperm.symm, planResume_perm hapart hperm⟩

end Partition

/-! ### A run of two ranges -/

namespace ReplanSample

def previous : RunRecord :=
  ⟨⟨1⟩, none, ⟨"ks", "t"⟩, .migrate, .started, none, none, none⟩

/-- One range that has failed, and one that has passed. -/
def records : List RangeRecord :=
  [⟨.checked 0 9 (.refl true), .fail, none, none⟩,
    ⟨.checked 10 19 (.refl true), .pass, none, none⟩]

theorem records_apart : Cover.Apart TokenRange.Mem (records.map RangeRecord.range) := by
  refine pairwise_pair.2 ?_
  intro t h₁ h₂
  rw [TokenRange.mem_iff] at h₁ h₂
  simp only at h₁ h₂
  omega

/-- The failed range is planned again in parts, and the other is left out. -/
theorem planResume_partition_records : ∃ plan,
    planResume ⟨1⟩ (some previous) records .idempotent 2 ⟨2⟩ = .ok plan ∧
    (∀ record ∈ records, ∃! d, plan.Treats record d) := by
  have hok : (planResume ⟨1⟩ (some previous) records .idempotent 2 ⟨2⟩).isOk = true := by
    decide
  cases h : planResume ⟨1⟩ (some previous) records .idempotent 2 ⟨2⟩ with
  | error e =>
    rw [h] at hok
    cases hok
  | ok plan =>
    exact ⟨plan, rfl, ((planResume_partition .idempotent 2 (by decide) records_apart).1 plan h).1⟩

/-- A run whose only range has passed leaves nothing that the scheduler would take; and a multiplier
above the ceiling is refused. -/
theorem refused :
    (∃ plan, planResume ⟨1⟩ (some previous) (records.drop 1) .idempotent 1 ⟨2⟩ = .ok plan ∧
      (plan.tokenPlan ⟨2⟩ .murmur3).isOk = false) ∧
    (planResume ⟨1⟩ (some previous) records .idempotent 50000001 ⟨2⟩).isOk = false := by
  refine ⟨⟨_, rfl, by decide⟩, by decide⟩

end ReplanSample

end Cdm
