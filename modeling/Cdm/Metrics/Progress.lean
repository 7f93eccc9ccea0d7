import Mathlib.Algebra.BigOperators.Ring.List
import Mathlib.Algebra.Order.BigOperators.Group.List
import Mathlib.Data.List.Induction
import Mathlib.Order.Interval.Finset.Nat
import Mathlib.Data.Int.Interval
import Cdm.Planner.Strategies

/-!
# Progress

The progress of a run is the weight of its completed ranges over the weight of all of them.  The
weight of a range is the number of its tokens, or the partitions that the estimates of the cluster
put in it.

Workers report that a range was started and that it came to an end.  A report can come twice, out of
order, or for a range that was never planned.
-/

namespace Cdm

open List

/-- A row estimate for a slice of the ring. -/
structure RangeEstimate where
  range : TokenRange
  partitions : ℕ

/-- The ranges that have not completed and their weights, and the counts. -/
structure ProgressTracker where
  totalWeight : ℕ
  rangesTotal : ℕ
  /-- Every planned range that has not completed, and its weight. -/
  weights : List (TokenRange × ℕ)
  /-- Ranges claimed by a worker and not yet finished. -/
  inFlight : List TokenRange
  byStatus : RunStatus → ℕ
  completedWeight : ℕ
  rangesCompleted : ℕ

/-- The counts of a snapshot. -/
structure Progress where
  rangesTotal : ℕ
  rangesCompleted : ℕ
  rangesInFlight : ℕ
  rangesPending : ℕ
  rangesByStatus : RunStatus → ℕ

/-- A report of a worker. -/
inductive ProgressCall
  | rangeStarted (range : TokenRange)
  | rangeCompleted (range : TokenRange) (status : RunStatus)

/-- A range that was abandoned is reported as started, which is not terminal. -/
def RunStatus.isTerminal (status : RunStatus) : Bool :=
  !(status == .started || status == .notStarted)

/-- Inserts a range, in place of an equal one. -/
def insertWeight (weights : List (TokenRange × ℕ)) (entry : TokenRange × ℕ) :
    List (TokenRange × ℕ) :=
  entry :: weights.filter (·.1 ≠ entry.1)

/-- The ranges with their weights; a weight of zero is raised to one. -/
def collectWeights (ranges : List (TokenRange × ℕ)) : List (TokenRange × ℕ) :=
  (ranges.map fun entry => (entry.1, max entry.2 1)).foldl insertWeight []

/-- The sum of the weights. -/
def weightSum (weights : List (TokenRange × ℕ)) : ℕ := (weights.map Prod.snd).sum

/-- Estimated partitions inside `range`, prorated across the estimates that overlap it. -/
def estimatedPartitionsIn (range : TokenRange) (estimates : List RangeEstimate) : ℕ :=
  estimates.foldl
    (fun total estimate =>
      if !estimate.range.intersects range then total
      else if estimate.range.tokenCount = 0 then total
      else
        match clip range estimate.range with
        | none => total
        | some overlap =>
          min u128Max (total +
            min u128Max (estimate.partitions * overlap.tokenCount) / estimate.range.tokenCount))
    0

namespace ProgressTracker

/-- Builds a tracker from explicit weights; the sum wraps. -/
def withWeights (ranges : List (TokenRange × ℕ)) : ProgressTracker where
  totalWeight := max (weightSum (collectWeights ranges) % 2 ^ 128) 1
  rangesTotal := min (collectWeights ranges).length (2 ^ 64 - 1)
  weights := collectWeights ranges
  inFlight := []
  byStatus := fun _ => 0
  completedWeight := 0
  rangesCompleted := 0

/-- Weights every range by its token count. -/
def tokenSpans (ranges : List TokenRange) : List (TokenRange × ℕ) :=
  ranges.map fun range => (range, range.tokenCount)

def byTokenSpan (ranges : List TokenRange) : ProgressTracker := withWeights (tokenSpans ranges)

/-- Weights every range by the partitions that the estimates put in it, and the others by their
token count, scaled to the mean of these. -/
def estimatedWeights (ranges : List TokenRange) (estimates : List RangeEstimate) :
    List (TokenRange × ℕ) :=
  let weighted := ranges.map fun range => (range, estimatedPartitionsIn range estimates)
  let covered := weighted.filter fun entry => 0 < entry.2
  if covered.isEmpty then tokenSpans ranges
  else
    let coveredPartitions := weightSum covered % 2 ^ 128
    let coveredTokens := max ((covered.map fun entry => entry.1.tokenCount).sum % 2 ^ 128) 1
    weighted.map fun entry =>
      (entry.1, if 0 < entry.2 then entry.2
        else max (min u128Max (entry.1.tokenCount * coveredPartitions) / coveredTokens) 1)

/-- Records that a worker has claimed a range; an unknown one is ignored. -/
def rangeStarted (t : ProgressTracker) (range : TokenRange) : ProgressTracker :=
  if range ∈ t.weights.map Prod.fst then
    { t with inFlight := range :: t.inFlight.filter (· ≠ range) }
  else t

/-- Records that a range reached a status. -/
def rangeCompleted (t : ProgressTracker) (range : TokenRange) (status : RunStatus) :
    ProgressTracker :=
  let t := { t with inFlight := t.inFlight.filter (· ≠ range) }
  if !status.isTerminal then t
  else
    -- the weight is removed, so that a range counts once
    match t.weights.find? (·.1 = range) with
    | none => t
    | some entry =>
      { t with
        weights := t.weights.filter (·.1 ≠ range)
        completedWeight := min (t.completedWeight + entry.2) u128Max
        rangesCompleted := (t.rangesCompleted + 1) % 2 ^ 64
        byStatus := fun s => if s = status then (t.byStatus s + 1) % 2 ^ 64 else t.byStatus s }

def call (t : ProgressTracker) : ProgressCall → ProgressTracker
  | .rangeStarted range => t.rangeStarted range
  | .rangeCompleted range status => t.rangeCompleted range status

/-- The tracker after some calls. -/
def run (t : ProgressTracker) (calls : List ProgressCall) : ProgressTracker := calls.foldl call t

/-- The current progress; the subtractions saturate. -/
def snapshot (t : ProgressTracker) : Progress where
  rangesTotal := t.rangesTotal
  rangesCompleted := t.rangesCompleted
  rangesInFlight := min t.inFlight.length (2 ^ 64 - 1)
  rangesPending := t.rangesTotal - t.rangesCompleted - min t.inFlight.length (2 ^ 64 - 1)
  rangesByStatus := t.byStatus

end ProgressTracker

/-! ### The planned ranges -/

theorem weightSum_filter (p : TokenRange × ℕ → Bool) (weights : List (TokenRange × ℕ)) :
    weightSum (weights.filter p) + weightSum (weights.filter fun e => !p e) =
      weightSum weights := by
  induction weights with
  | nil => rfl
  | cons entry weights ih =>
    simp only [weightSum, filter_cons] at ih ⊢
    cases p entry <;> simp <;> omega

theorem nodup_insertWeight {weights : List (TokenRange × ℕ)} {entry : TokenRange × ℕ}
    (h : (weights.map Prod.fst).Nodup) : ((insertWeight weights entry).map Prod.fst).Nodup := by
  rw [insertWeight, map_cons, nodup_cons]
  refine ⟨fun hmem => ?_, h.sublist (List.Sublist.map _ filter_sublist)⟩
  obtain ⟨other, hother, heq⟩ := mem_map.1 hmem
  exact (of_decide_eq_true (mem_filter.1 hother).2) heq

/-- Every range is planned once. -/
theorem nodup_collectWeights (ranges : List (TokenRange × ℕ)) :
    ((collectWeights ranges).map Prod.fst).Nodup := by
  have hfold : ∀ (entries weights : List (TokenRange × ℕ)), (weights.map Prod.fst).Nodup →
      ((entries.foldl insertWeight weights).map Prod.fst).Nodup := by
    intro entries
    induction entries with
    | nil => exact fun weights h => h
    | cons entry entries ih => exact fun weights h => ih _ (nodup_insertWeight h)
  exact hfold _ _ nodup_nil

theorem mem_map_insertWeight {weights : List (TokenRange × ℕ)} {entry : TokenRange × ℕ}
    {range : TokenRange} : range ∈ (insertWeight weights entry).map Prod.fst ↔
      range ∈ weights.map Prod.fst ∨ range = entry.1 := by
  rw [insertWeight, map_cons, mem_cons]
  constructor
  · rintro (rfl | h)
    · exact .inr rfl
    · obtain ⟨other, hother, rfl⟩ := mem_map.1 h
      exact .inl (mem_map.2 ⟨other, (mem_filter.1 hother).1, rfl⟩)
  · rintro (h | rfl)
    · by_cases heq : range = entry.1
      · exact .inl heq
      · obtain ⟨other, hother, rfl⟩ := mem_map.1 h
        exact .inr (mem_map.2 ⟨other, mem_filter.2 ⟨hother, decide_eq_true heq⟩, rfl⟩)
    · exact .inl rfl

/-- The planned ranges are the given ones. -/
theorem mem_map_collectWeights {ranges : List (TokenRange × ℕ)} {range : TokenRange} :
    range ∈ (collectWeights ranges).map Prod.fst ↔ range ∈ ranges.map Prod.fst := by
  have hfold : ∀ (entries weights : List (TokenRange × ℕ)),
      range ∈ (entries.foldl insertWeight weights).map Prod.fst ↔
        range ∈ weights.map Prod.fst ∨ range ∈ entries.map Prod.fst := by
    intro entries
    induction entries with
    | nil => simp
    | cons entry entries ih =>
      intro weights
      rw [foldl_cons, ih, mem_map_insertWeight, map_cons, mem_cons, or_assoc]
  rw [collectWeights, hfold]
  simp

/-- No weight is zero. -/
theorem pos_of_mem_collectWeights {ranges : List (TokenRange × ℕ)} {entry : TokenRange × ℕ}
    (h : entry ∈ collectWeights ranges) : 1 ≤ entry.2 := by
  have hfold : ∀ (entries weights : List (TokenRange × ℕ)), (∀ e ∈ entries, 1 ≤ e.2) →
      (∀ e ∈ weights, 1 ≤ e.2) → ∀ e ∈ entries.foldl insertWeight weights, 1 ≤ e.2 := by
    intro entries
    induction entries with
    | nil => exact fun weights _ hw => hw
    | cons entry entries ih =>
      intro weights he hw
      rw [forall_mem_cons] at he
      refine ih _ he.2 fun e hmem => ?_
      rcases mem_cons.1 hmem with rfl | hmem
      · exact he.1
      · exact hw e (mem_filter.1 hmem).1
  refine hfold _ _ (fun e he => ?_) (by simp) entry h
  obtain ⟨other, -, rfl⟩ := mem_map.1 he
  exact le_max_right _ _

/-! ### What the tracker holds -/

/-- The terminal status that a call reports of a range. -/
def outcomeOf (range : TokenRange) : ProgressCall → Option RunStatus
  | .rangeStarted _ => none
  | .rangeCompleted other status =>
    if other = range ∧ status.isTerminal = true then some status else none

/-- The first terminal status that was reported of a range. -/
def outcome (calls : List ProgressCall) (range : TokenRange) : Option RunStatus :=
  calls.findSome? (outcomeOf range)

theorem outcome_concat (calls : List ProgressCall) (c : ProgressCall) (range : TokenRange) :
    outcome (calls ++ [c]) range = (outcome calls range).or (outcomeOf range c) := by
  rw [outcome, outcome, findSome?_append]
  cases h : outcomeOf range c <;> simp [h]

/-- A sum over a list changes as one of its members does. -/
theorem sum_map_update {α : Type*} {l : List α} (hnodup : l.Nodup) {a : α} (ha : a ∈ l)
    {f g : α → ℕ} (h : ∀ b ∈ l, b ≠ a → f b = g b) :
    (l.map f).sum + g a = (l.map g).sum + f a := by
  obtain ⟨l₁, l₂, rfl⟩ := append_of_mem ha
  have hrest : ∀ b ∈ l₁ ++ l₂, f b = g b := by
    have hnot := (nodup_cons.1 (nodup_middle.1 hnodup)).1
    intro b hb
    refine h b ?_ fun heq => hnot (heq ▸ hb)
    rw [mem_append, mem_cons]
    rcases mem_append.1 hb with hb | hb
    · exact .inl hb
    · exact .inr (.inr hb)
  have h₁ : l₁.map f = l₁.map g :=
    map_congr_left fun b hb => hrest b (mem_append_left _ hb)
  have h₂ : l₂.map f = l₂.map g :=
    map_congr_left fun b hb => hrest b (mem_append_right _ hb)
  simp only [map_append, map_cons, sum_append, sum_cons, h₁, h₂]
  omega

theorem countP_eq_sum_map {α : Type*} (p : α → Bool) (l : List α) :
    l.countP p = (l.map fun a => if p a then 1 else 0).sum := by
  induction l with
  | nil => rfl
  | cons a l ih =>
    rw [countP_cons, map_cons, sum_cons, ih, Nat.add_comm]

/-- One member more satisfies the predicate. -/
theorem countP_update {α : Type*} {l : List α} (hnodup : l.Nodup) {a : α} (ha : a ∈ l)
    {p q : α → Bool} (h : ∀ b ∈ l, b ≠ a → p b = q b) (hp : p a = true) (hq : q a = false) :
    l.countP p = l.countP q + 1 := by
  have hgrow := sum_map_update hnodup ha (f := fun b => if p b then 1 else 0)
    (g := fun b => if q b then 1 else 0) fun b hb hne => by rw [h b hb hne]
  rw [countP_eq_sum_map, countP_eq_sum_map]
  simpa [hp, hq] using hgrow

theorem weightSum_filter_eq_sum (p : TokenRange × ℕ → Bool) (l : List (TokenRange × ℕ)) :
    weightSum (l.filter p) = (l.map fun e => if p e then e.2 else 0).sum := by
  induction l with
  | nil => rfl
  | cons e l ih =>
    simp only [weightSum, filter_cons, map_cons, sum_cons] at ih ⊢
    cases p e <;> simp [ih]

namespace ProgressTracker

/-- What a tracker of a plan holds after some calls: every planned range is in it until it has an
outcome, and is counted under its outcome from then on. -/
structure Holds (plan : List (TokenRange × ℕ)) (calls : List ProgressCall)
    (t : ProgressTracker) : Prop where
  weights : t.weights = plan.filter fun e => (outcome calls e.1).isNone
  completedWeight : t.completedWeight =
    weightSum (plan.filter fun e => (outcome calls e.1).isSome)
  rangesCompleted : t.rangesCompleted = plan.countP fun e => (outcome calls e.1).isSome
  byStatus : ∀ status, t.byStatus status = plan.countP fun e => outcome calls e.1 = some status
  nodup : t.inFlight.Nodup
  pending : ∀ range ∈ t.inFlight, range ∈ t.weights.map Prod.fst

variable {plan : List (TokenRange × ℕ)} {calls : List ProgressCall} {t : ProgressTracker}

/-- A call that changes no outcome of the plan changes only what is in flight. -/
theorem Holds.of_outcome_eq (h : Holds plan calls t) {c : ProgressCall} {t' : ProgressTracker}
    (hsame : ∀ e ∈ plan, outcome (calls ++ [c]) e.1 = outcome calls e.1)
    (hweights : t'.weights = t.weights) (hweight : t'.completedWeight = t.completedWeight)
    (hcompleted : t'.rangesCompleted = t.rangesCompleted) (hstatus : t'.byStatus = t.byStatus)
    (hnodup : t'.inFlight.Nodup)
    (hpending : ∀ range ∈ t'.inFlight, range ∈ t.weights.map Prod.fst) :
    Holds plan (calls ++ [c]) t' where
  weights := by
    rw [hweights, h.weights]
    exact filter_congr fun e he => by rw [hsame e he]
  completedWeight := by
    rw [hweight, h.completedWeight]
    congr 1
    exact filter_congr fun e he => by rw [hsame e he]
  rangesCompleted := by
    rw [hcompleted, h.rangesCompleted]
    exact countP_congr fun e he => by rw [hsame e he]
  byStatus := fun status => by
    rw [hstatus, h.byStatus]
    exact countP_congr fun e he => by rw [hsame e he]
  nodup := hnodup
  pending := fun range hrange => hweights ▸ hpending range hrange

theorem Holds.rangeStarted (h : Holds plan calls t) (range : TokenRange) :
    Holds plan (calls ++ [ProgressCall.rangeStarted range]) (t.rangeStarted range) := by
  have hsame : ∀ e ∈ plan, outcome (calls ++ [ProgressCall.rangeStarted range]) e.1 = outcome calls e.1 := by
    intro e _
    rw [outcome_concat, outcomeOf, Option.or_none]
  unfold ProgressTracker.rangeStarted
  split_ifs with hmem
  · refine h.of_outcome_eq hsame rfl rfl rfl rfl ?_ fun other hother => ?_
    · exact nodup_cons.2 ⟨by simp, h.nodup.filter _⟩
    · rcases mem_cons.1 hother with rfl | hother
      · exact hmem
      · exact h.pending other (mem_filter.1 hother).1
  · exact h.of_outcome_eq hsame rfl rfl rfl rfl h.nodup h.pending

/-- The first outcome of a planned range moves its weight to the completed ones. -/
theorem Holds.of_first_outcome (hnodup : (plan.map Prod.fst).Nodup)
    (hsum : weightSum plan < 2 ^ 128) (hlen : plan.length < 2 ^ 64) (h : Holds plan calls t)
    {entry : TokenRange × ℕ} (hplan : entry ∈ plan) (hnone : outcome calls entry.1 = none)
    {status : RunStatus} (hterminal : status.isTerminal = true) {t' : ProgressTracker}
    (hweights : t'.weights = t.weights.filter (·.1 ≠ entry.1))
    (hweight : t'.completedWeight = min (t.completedWeight + entry.2) u128Max)
    (hcompleted : t'.rangesCompleted = (t.rangesCompleted + 1) % 2 ^ 64)
    (hstatus : ∀ s, t'.byStatus s =
      if s = status then (t.byStatus s + 1) % 2 ^ 64 else t.byStatus s)
    (hflight : t'.inFlight = t.inFlight.filter (· ≠ entry.1)) :
    Holds plan (calls ++ [ProgressCall.rangeCompleted entry.1 status]) t' := by
  have hunique : ∀ e ∈ plan, e ≠ entry → e.1 ≠ entry.1 := fun e he hne heq =>
    hne (inj_on_of_nodup_map hnodup he hplan heq)
  have hnew : ∀ e ∈ plan, outcome (calls ++ [ProgressCall.rangeCompleted entry.1 status]) e.1 =
      if e.1 = entry.1 then some status else outcome calls e.1 := by
    intro e _
    rw [outcome_concat, outcomeOf]
    by_cases heq : e.1 = entry.1
    · rw [if_pos ⟨heq.symm, hterminal⟩, if_pos heq, heq, hnone]
      rfl
    · rw [if_neg (fun h => heq h.1.symm), if_neg heq, Option.or_none]
  have hother : ∀ e ∈ plan, e ≠ entry →
      outcome (calls ++ [ProgressCall.rangeCompleted entry.1 status]) e.1 = outcome calls e.1 :=
    fun e he hne => by rw [hnew e he, if_neg (hunique e he hne)]
  have hentry : outcome (calls ++ [ProgressCall.rangeCompleted entry.1 status]) entry.1 = some status := by
    rw [hnew entry hplan, if_pos rfl]
  have hentries : plan.Nodup := hnodup.of_map
  refine ⟨?_, ?_, ?_, fun s => ?_, ?_, fun range hrange => ?_⟩
  · rw [hweights, h.weights, filter_filter]
    refine filter_congr fun e he => ?_
    rw [hnew e he]
    by_cases heq : e.1 = entry.1 <;> simp [heq]
  · have hgrow := sum_map_update hentries hplan
      (f := fun e => if (outcome (calls ++ [ProgressCall.rangeCompleted entry.1 status]) e.1).isSome
        then e.2 else 0)
      (g := fun e => if (outcome calls e.1).isSome then e.2 else 0)
      fun e he hne => by rw [hother e he hne]
    have hbound := weightSum_filter
      (fun e => (outcome (calls ++ [ProgressCall.rangeCompleted entry.1 status]) e.1).isSome) plan
    simp only [hentry, hnone, Option.isSome_none, Option.isSome_some, if_true,
      Bool.false_eq_true, if_false] at hgrow
    rw [weightSum_filter_eq_sum] at hbound
    rw [hweight, h.completedWeight, weightSum_filter_eq_sum, weightSum_filter_eq_sum, u128Max]
    omega
  · have hgrow := countP_update hentries hplan
      (p := fun e => (outcome (calls ++ [ProgressCall.rangeCompleted entry.1 status]) e.1).isSome)
      (q := fun e => (outcome calls e.1).isSome)
      (fun e he hne => by rw [hother e he hne]) (by rw [hentry]; rfl) (by rw [hnone]; rfl)
    have hbound : plan.countP
      (fun e => (outcome (calls ++ [ProgressCall.rangeCompleted entry.1 status]) e.1).isSome) ≤
        plan.length := countP_le_length
    rw [hcompleted, h.rangesCompleted, ← hgrow, Nat.mod_eq_of_lt (by omega)]
  · rw [hstatus, h.byStatus]
    split_ifs with hs
    · have hgrow := countP_update hentries hplan
        (p := fun e => outcome (calls ++ [ProgressCall.rangeCompleted entry.1 status]) e.1 = some s)
        (q := fun e => outcome calls e.1 = some s)
        (fun e he hne => by rw [hother e he hne]) (by simp [hentry, hs]) (by simp [hnone])
      have hbound : plan.countP
        (fun e => outcome (calls ++ [ProgressCall.rangeCompleted entry.1 status]) e.1 = some s) ≤
          plan.length := countP_le_length
      rw [← hgrow, Nat.mod_eq_of_lt (by omega)]
    · refine countP_congr fun e he => ?_
      by_cases heq : e = entry
      · simp [heq, hentry, hnone, Ne.symm hs]
      · rw [hother e he heq]
  · rw [hflight]
    exact h.nodup.filter _
  · rw [hflight] at hrange
    obtain ⟨hflying, hne⟩ := mem_filter.1 hrange
    obtain ⟨e, he, rfl⟩ := mem_map.1 (h.pending range hflying)
    rw [hweights]
    exact mem_map.2 ⟨e, mem_filter.2 ⟨he, hne⟩, rfl⟩

theorem Holds.rangeCompleted (hnodup : (plan.map Prod.fst).Nodup)
    (hsum : weightSum plan < 2 ^ 128) (hlen : plan.length < 2 ^ 64) (h : Holds plan calls t)
    (range : TokenRange) (status : RunStatus) :
    Holds plan (calls ++ [ProgressCall.rangeCompleted range status]) (t.rangeCompleted range status) := by
  have hrest : ∀ other ∈ t.inFlight.filter (· ≠ range), other ∈ t.weights.map Prod.fst :=
    fun other hother => h.pending other (mem_filter.1 hother).1
  have hflight : (t.inFlight.filter (· ≠ range)).Nodup := h.nodup.filter _
  unfold ProgressTracker.rangeCompleted
  dsimp only
  split_ifs with hterminal
  · refine h.of_outcome_eq (fun e _ => ?_) rfl rfl rfl rfl hflight hrest
    rw [outcome_concat, outcomeOf, if_neg (by simp_all), Option.or_none]
  · rw [Bool.not_eq_true, Bool.not_eq_false'] at hterminal
    split
    · rename_i hfind
      -- the range was not planned, or it has an outcome already
      refine h.of_outcome_eq (fun e he => ?_) rfl rfl rfl rfl hflight hrest
      rw [outcome_concat, outcomeOf]
      split_ifs with heq
      · have hout : ¬ e ∈ t.weights := fun hmem =>
          find?_eq_none.1 hfind e hmem (decide_eq_true heq.1.symm)
        rw [h.weights, mem_filter, not_and] at hout
        cases houtcome : outcome calls e.1 with
        | none => exact absurd (by rw [houtcome]; rfl) (hout he)
        | some _ => rfl
      · exact Option.or_none
    · rename_i entry hfind
      obtain rfl : entry.1 = range := by simpa using find?_some hfind
      have hmem := mem_of_find?_eq_some hfind
      rw [h.weights, mem_filter, Option.isNone_iff_eq_none] at hmem
      exact h.of_first_outcome hnodup hsum hlen hmem.1 hmem.2 hterminal rfl rfl rfl
        (fun _ => rfl) rfl

/-- **What the tracker holds** after any list of calls. -/
theorem run_spec {ranges : List (TokenRange × ℕ)}
    (hsum : weightSum (collectWeights ranges) < 2 ^ 128)
    (hlen : (collectWeights ranges).length < 2 ^ 64) (calls : List ProgressCall) :
    Holds (collectWeights ranges) calls ((withWeights ranges).run calls) := by
  induction calls using List.reverseRecOn with
  | nil =>
    refine ⟨?_, ?_, ?_, fun status => ?_, nodup_nil, by simp [run, withWeights]⟩
    · simp [run, withWeights, outcome]
    · simp [run, withWeights, outcome, weightSum]
    · simp [run, withWeights, outcome]
    · simp [run, withWeights, outcome]
  | append_singleton calls c ih =>
    rw [run, foldl_append, ← run]
    cases c with
    | rangeStarted range => exact ih.rangeStarted range
    | rangeCompleted range status =>
      exact ih.rangeCompleted (nodup_collectWeights ranges) hsum hlen range status

/-! ### Sums of weights -/

theorem weightSum_insertWeight_le (weights : List (TokenRange × ℕ)) (entry : TokenRange × ℕ) :
    weightSum (insertWeight weights entry) ≤ weightSum weights + entry.2 := by
  have hsplit := weightSum_filter (fun e => decide (e.1 ≠ entry.1)) weights
  have hcons : weightSum (insertWeight weights entry) =
      entry.2 + weightSum (weights.filter fun e => decide (e.1 ≠ entry.1)) := rfl
  omega

/-- The weights that are kept are not more than those that are given. -/
theorem weightSum_collectWeights_le (ranges : List (TokenRange × ℕ)) :
    weightSum (collectWeights ranges) ≤ (ranges.map fun entry => max entry.2 1).sum := by
  have hfold : ∀ entries weights : List (TokenRange × ℕ),
      weightSum (entries.foldl insertWeight weights) ≤ weightSum weights + weightSum entries := by
    intro entries
    induction entries with
    | nil => exact fun weights => le_rfl
    | cons entry entries ih =>
      intro weights
      have hinsert := weightSum_insertWeight_le weights entry
      have hcons : weightSum (entry :: entries) = entry.2 + weightSum entries := rfl
      have := ih (insertWeight weights entry)
      rw [foldl_cons]
      omega
  refine (hfold _ []).trans (le_of_eq ?_)
  simp [weightSum, Function.comp_def]

/-- Ranges of a ring that are apart have no more tokens than the ring. -/
theorem sum_tokenCount_le {ring : TokenRange} {ranges : List TokenRange}
    (hring : ∀ r ∈ ranges, ring.containsRange r = true)
    (hapart : ranges.Pairwise fun a b => a.intersects b = false) :
    ((ranges.map TokenRange.tokenCount).sum : ℤ) ≤ ring.max + 1 - ring.min := by
  have htokens : ∃ tokens : Finset ℤ, (∀ t ∈ tokens, ∃ r ∈ ranges, r.min ≤ t ∧ t ≤ r.max) ∧
      (ranges.map TokenRange.tokenCount).sum ≤ tokens.card := by
    clear hring
    induction ranges with
    | nil => exact ⟨∅, by simp, by simp⟩
    | cons r ranges ih =>
      obtain ⟨hfirst, hrest⟩ := pairwise_cons.1 hapart
      obtain ⟨tokens, hmem, hcard⟩ := ih hrest
      have hdisjoint : Disjoint (Finset.Icc r.min r.max) tokens := by
        rw [Finset.disjoint_left]
        intro t ht htokens
        obtain ⟨other, hother, hlo, hhi⟩ := hmem t htokens
        rw [Finset.mem_Icc] at ht
        have := hfirst other hother
        rw [← Bool.not_eq_true, TokenRange.intersects_iff] at this
        exact this ⟨ht.1.trans hhi, hlo.trans ht.2⟩
      refine ⟨Finset.Icc r.min r.max ∪ tokens, fun t ht => ?_, ?_⟩
      · rcases Finset.mem_union.1 ht with ht | ht
        · exact ⟨r, mem_cons_self, Finset.mem_Icc.1 ht⟩
        · obtain ⟨other, hother, h⟩ := hmem t ht
          exact ⟨other, mem_cons_of_mem _ hother, h⟩
      · have hcount := r.min_add_tokenCount_le
        rw [Finset.card_union_of_disjoint hdisjoint, Int.card_Icc, map_cons, sum_cons]
        omega
  obtain ⟨tokens, hmem, hcard⟩ := htokens
  have hsubset : tokens ⊆ Finset.Icc ring.min ring.max := by
    intro t ht
    obtain ⟨r, hr, hlo, hhi⟩ := hmem t ht
    obtain ⟨hmin, hmax⟩ := TokenRange.containsRange_iff.1 (hring r hr)
    exact Finset.mem_Icc.2 ⟨hmin.trans hlo, hhi.trans hmax⟩
  have hle := Finset.card_le_card hsubset
  rw [Int.card_Icc] at hle
  have := ring.min_le_max
  omega

/-- The tokens of ranges that are apart are a sum of 128 bits. -/
theorem weightSum_tokenSpans_lt {p : Partitioner} {ring : TokenRange} {ranges : List TokenRange}
    (hp : p.fullRing = some ring) (hring : ∀ r ∈ ranges, ring.containsRange r = true)
    (hapart : ranges.Pairwise fun a b => a.intersects b = false) :
    weightSum (collectWeights (tokenSpans ranges)) < 2 ^ 128 := by
  have hle := weightSum_collectWeights_le (tokenSpans ranges)
  have hsum : ((tokenSpans ranges).map fun entry => max entry.2 1).sum =
      (ranges.map TokenRange.tokenCount).sum := by
    congr 1
    simp only [tokenSpans, map_map]
    exact map_congr_left fun r _ => max_eq_left r.tokenCount_pos
  have htokens := sum_tokenCount_le hring hapart
  have hwidth : ring.max + 1 - ring.min < 2 ^ 128 := by
    cases p with
    | murmur3 =>
      cases hp
      decide
    | random =>
      cases hp
      decide
    | byteOrdered => cases hp
  omega

/-- The partitions that the estimates put in the ranges. -/
def estimatedPartitions (ranges : List TokenRange) (estimates : List RangeEstimate) : ℕ :=
  (ranges.map fun range => estimatedPartitionsIn range estimates).sum

theorem weightSum_covered (ranges : List TokenRange) (estimates : List RangeEstimate) :
    weightSum ((ranges.map fun range => (range, estimatedPartitionsIn range estimates)).filter
      fun entry => 0 < entry.2) = estimatedPartitions ranges estimates := by
  induction ranges with
  | nil => rfl
  | cons range ranges ih =>
    rw [map_cons, filter_cons, estimatedPartitions, map_cons, sum_cons,
      ← estimatedPartitions, ← ih]
    split_ifs with hpos
    · rfl
    · have hzero : estimatedPartitionsIn range estimates = 0 := by simpa using hpos
      rw [hzero, Nat.zero_add]

/-- The estimated weights are a sum of 128 bits as long as the estimates are not out of all
proportion to the ring. -/
theorem weightSum_estimatedWeights_lt {p : Partitioner} {ring : TokenRange}
    {ranges : List TokenRange} {estimates : List RangeEstimate} (hp : p.fullRing = some ring)
    (hring : ∀ r ∈ ranges, ring.containsRange r = true)
    (hapart : ranges.Pairwise fun a b => a.intersects b = false)
    (hsmall : estimatedPartitions ranges estimates * (ring.max + 2 - ring.min) < 2 ^ 128) :
    weightSum (collectWeights (estimatedWeights ranges estimates)) < 2 ^ 128 := by
  have htokens := sum_tokenCount_le hring hapart
  have hcovered := weightSum_covered ranges estimates
  rw [estimatedWeights]
  dsimp only
  split_ifs with hempty
  · exact weightSum_tokenSpans_lt hp hring hapart
  · rw [hcovered]
    have hpos : 1 ≤ estimatedPartitions ranges estimates := by
      rw [List.isEmpty_iff] at hempty
      obtain ⟨entry, hentry⟩ := exists_mem_of_ne_nil _ hempty
      have hentry' : 0 < entry.2 := of_decide_eq_true (mem_filter.1 hentry).2
      have hle := single_le_sum (fun _ _ => Nat.zero_le _) _
        (mem_map_of_mem (f := Prod.snd) hentry)
      rw [← hcovered]
      exact hentry'.trans_le hle
    generalize max _ 1 = coveredTokens
    refine (weightSum_collectWeights_le _).trans_lt ?_
    rw [map_map, map_map]
    have hweight : ∀ range ∈ ranges, ((fun entry : TokenRange × ℕ => max entry.2 1) ∘
        (fun entry : TokenRange × ℕ => (entry.1, if 0 < entry.2 then entry.2
          else max (min u128Max (entry.1.tokenCount *
            (estimatedPartitions ranges estimates % 2 ^ 128)) / coveredTokens) 1)) ∘
        fun range => (range, estimatedPartitionsIn range estimates)) range ≤
          estimatedPartitionsIn range estimates +
            range.tokenCount * estimatedPartitions ranges estimates := by
      intro range _
      have hone := Nat.mul_le_mul range.tokenCount_pos hpos
      have hmod := Nat.mul_le_mul_left range.tokenCount
        (Nat.mod_le (estimatedPartitions ranges estimates) (2 ^ 128))
      have hquot : min u128Max (range.tokenCount *
          (estimatedPartitions ranges estimates % 2 ^ 128)) / coveredTokens ≤
            range.tokenCount * (estimatedPartitions ranges estimates % 2 ^ 128) :=
        (Nat.div_le_self ..).trans (min_le_right ..)
      simp only [Function.comp_apply]
      split_ifs <;> omega
    have hsum := sum_le_sum hweight
    have hdistrib : (ranges.map fun range => estimatedPartitionsIn range estimates +
        range.tokenCount * estimatedPartitions ranges estimates).sum =
          estimatedPartitions ranges estimates + (ranges.map TokenRange.tokenCount).sum *
            estimatedPartitions ranges estimates := by
      rw [sum_map_add, sum_map_mul_right]
      rfl
    rw [hdistrib] at hsum
    refine hsum.trans_lt ?_
    generalize (ranges.map TokenRange.tokenCount).sum = tokens at htokens
    zify
    have := mul_le_mul_of_nonneg_right htokens
      (Int.natCast_nonneg (estimatedPartitions ranges estimates))
    linarith

/-! ### The accounts -/

variable {ranges : List (TokenRange × ℕ)}

/-- The numbers of a tracker after some calls. -/
structure Accounts (ranges : List (TokenRange × ℕ)) (calls : List ProgressCall)
    (t : ProgressTracker) : Prop where
  /-- Completed, in flight and pending are all the planned ranges. -/
  partition : t.snapshot.rangesCompleted + t.snapshot.rangesInFlight + t.snapshot.rangesPending =
    (collectWeights ranges).length
  /-- Each planned range with a terminal report is counted as completed, once. -/
  completed : t.snapshot.rangesCompleted =
    (collectWeights ranges).countP fun e => (outcome calls e.1).isSome
  /-- It is counted under the first status that was reported. -/
  byStatus : ∀ status, t.snapshot.rangesByStatus status =
    (collectWeights ranges).countP fun e => outcome calls e.1 = some status
  /-- The total did not wrap. -/
  total : t.totalWeight = max (weightSum (collectWeights ranges)) 1
  /-- The completed weight did not saturate. -/
  weight : t.completedWeight =
    weightSum ((collectWeights ranges).filter fun e => (outcome calls e.1).isSome)
  weight_le : t.completedWeight ≤ t.totalWeight
  /-- The total is reached with the last planned range. -/
  reached : ranges ≠ [] → (t.completedWeight = t.totalWeight ↔
    ∀ range ∈ ranges.map Prod.fst, (outcome calls range).isSome = true)

theorem totals_run (t : ProgressTracker) (calls : List ProgressCall) :
    (t.run calls).totalWeight = t.totalWeight ∧ (t.run calls).rangesTotal = t.rangesTotal := by
  induction calls generalizing t with
  | nil => exact ⟨rfl, rfl⟩
  | cons c calls ih =>
    have hcall : (t.call c).totalWeight = t.totalWeight ∧
        (t.call c).rangesTotal = t.rangesTotal := by
      cases c with
      | rangeStarted range =>
        simp only [call, ProgressTracker.rangeStarted]
        split_ifs <;> exact ⟨rfl, rfl⟩
      | rangeCompleted range status =>
        simp only [call, ProgressTracker.rangeCompleted]
        split_ifs
        · exact ⟨rfl, rfl⟩
        · split <;> exact ⟨rfl, rfl⟩
    obtain ⟨hweight, hcount⟩ := ih (t.call c)
    exact ⟨hweight.trans hcall.1, hcount.trans hcall.2⟩

/-- The weight of the ranges that have not completed is zero exactly when there is none. -/
theorem weightSum_eq_zero_iff {p : TokenRange × ℕ → Bool} :
    weightSum ((collectWeights ranges).filter p) = 0 ↔
      ∀ e ∈ collectWeights ranges, p e = false := by
  rw [weightSum, sum_eq_zero_iff]
  constructor
  · intro h e he
    by_contra hp
    have := h e.2 (mem_map_of_mem (mem_filter.2 ⟨he, by simpa using hp⟩))
    have := pos_of_mem_collectWeights he
    omega
  · intro h x hx
    obtain ⟨e, he, rfl⟩ := mem_map.1 hx
    obtain ⟨hmem, hp⟩ := mem_filter.1 he
    rw [h e hmem] at hp
    cases hp

theorem accounts (hsum : weightSum (collectWeights ranges) < 2 ^ 128)
    (hlen : (collectWeights ranges).length < 2 ^ 64) (calls : List ProgressCall) :
    Accounts ranges calls ((withWeights ranges).run calls) := by
  have hspec := run_spec hsum hlen calls
  obtain ⟨htotal, hcount⟩ := totals_run (withWeights ranges) calls
  generalize (withWeights ranges).run calls = t at hspec htotal hcount ⊢
  have hweightTotal : t.totalWeight = max (weightSum (collectWeights ranges)) 1 := by
    rw [htotal, withWeights, Nat.mod_eq_of_lt hsum]
  have hrangesTotal : t.rangesTotal = (collectWeights ranges).length := by
    rw [hcount, withWeights]
    exact min_eq_left (by omega)
  have hflight : t.inFlight.length ≤ t.weights.length := by
    have hsub := (hspec.nodup.subperm fun range h => hspec.pending range h).length_le
    rwa [length_map] at hsub
  have hsplit : (collectWeights ranges).countP (fun e => (outcome calls e.1).isSome) +
      t.weights.length = (collectWeights ranges).length := by
    rw [hspec.weights, ← countP_eq_length_filter, length_eq_countP_add_countP
      (fun e : TokenRange × ℕ => (outcome calls e.1).isSome)]
    congr 1
    exact countP_congr fun e _ => by cases outcome calls e.1 <;> simp
  have hweights := weightSum_filter (fun e => (outcome calls e.1).isSome) (collectWeights ranges)
  refine ⟨?_, hspec.rangesCompleted, hspec.byStatus, hweightTotal, hspec.completedWeight, ?_,
    fun hne => ?_⟩
  · simp only [snapshot, hrangesTotal, hspec.rangesCompleted]
    omega
  · rw [hspec.completedWeight, hweightTotal]
    omega
  · have hpos : 1 ≤ weightSum (collectWeights ranges) := by
      by_contra hzero
      have hall := (@weightSum_eq_zero_iff ranges fun _ => true).1 (by
        rw [filter_true]
        omega)
      obtain ⟨entry, hentry⟩ := exists_mem_of_ne_nil _ hne
      obtain ⟨e, he, -⟩ := mem_map.1
        (mem_map_collectWeights.2 (mem_map_of_mem hentry))
      cases hall e he
    rw [hspec.completedWeight, hweightTotal, max_eq_left hpos]
    have hzero := @weightSum_eq_zero_iff ranges fun e => !(outcome calls e.1).isSome
    constructor
    · intro heq range hrange
      obtain ⟨e, he, rfl⟩ := mem_map.1 (mem_map_collectWeights.2 hrange)
      simpa using hzero.1 (by omega) e he
    · intro hall
      have := hzero.2 fun e he => by
        rw [hall e.1 (mem_map_collectWeights.1 (mem_map_of_mem he))]
        rfl
      omega

end ProgressTracker

open ProgressTracker

/-- **The accounts of the progress.** For every plan whose weights are a sum of 128 bits, as those
by tokens always are, and every list of calls, the numbers of the tracker agree. -/
theorem progress_accounts :
    (∀ (ranges : List (TokenRange × ℕ)) (calls : List ProgressCall),
      weightSum (collectWeights ranges) < 2 ^ 128 → (collectWeights ranges).length < 2 ^ 64 →
        Accounts ranges calls ((withWeights ranges).run calls)) ∧
      ∀ (p : Partitioner) (ring : TokenRange) (ranges : List TokenRange),
        p.fullRing = some ring → (∀ r ∈ ranges, ring.containsRange r = true) →
        ranges.Pairwise (fun a b => a.intersects b = false) →
          weightSum (collectWeights (tokenSpans ranges)) < 2 ^ 128 ∧
          ∀ estimates : List RangeEstimate,
            estimatedPartitions ranges estimates * (ring.max + 2 - ring.min) < 2 ^ 128 →
              weightSum (collectWeights (estimatedWeights ranges estimates)) < 2 ^ 128 :=
  ⟨fun _ calls hsum hlen => accounts hsum hlen calls, fun _ _ _ hp hring hapart =>
    ⟨weightSum_tokenSpans_lt hp hring hapart, fun _ hsmall =>
      weightSum_estimatedWeights_lt hp hring hapart hsmall⟩⟩

/-- Two halves of the ring, of which one is completed twice and started in between. -/
theorem progress_accounts_halves :
    let low : TokenRange := ⟨i64Min, -1, by decide, by decide, by decide⟩
    let high : TokenRange := ⟨0, i64Max, by decide, by decide, by decide⟩
    let calls : List ProgressCall :=
      [.rangeCompleted low .pass, .rangeStarted low, .rangeStarted high, .rangeCompleted low .fail]
    Accounts (tokenSpans [low, high]) calls ((byTokenSpan [low, high]).run calls) :=
  progress_accounts.1 _ _
    (progress_accounts.2 .murmur3 .murmur3Full _ rfl (by decide) (by decide)).1 (by decide)

/-- A plan without ranges has a total weight of one, which is never reached. -/
theorem not_progress_reached :
    ¬ ∀ (ranges : List (TokenRange × ℕ)) (calls : List ProgressCall),
      let t := (withWeights ranges).run calls
      t.completedWeight = t.totalWeight ↔
        ∀ range ∈ ranges.map Prod.fst, (outcome calls range).isSome = true := by
  intro h
  have hreached := (h [] []).2 (by simp)
  cases hreached

end Cdm
