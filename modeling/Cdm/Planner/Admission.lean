import Mathlib.Data.List.Chain
import Mathlib.Order.Bounds.Basic
import Cdm.Planner.Plan

/-!
# Which work lists are admitted

A work list that was computed elsewhere becomes a plan exactly when it has a range, is not above the
ceiling, and no token is in two of its ranges.  The last is decided on neighbours alone, once the
ranges are sorted by their lower ends: if no two neighbours share a token, each range ends before
the next one starts, and so before every later one does.
-/

namespace Cdm

open List

/-! ### Ranges in ring order -/

namespace TokenRange

/-- `a` ends before `b` starts. -/
def Before (a b : TokenRange) : Prop := a.max < b.min

theorem Before.trans {a b c : TokenRange} (hab : a.Before b) (hbc : b.Before c) : a.Before c :=
  lt_trans hab (lt_of_le_of_lt b.min_le_max hbc)

theorem Before.apart {a b : TokenRange} (h : a.Before b) (t : ℤ) (ha : a.Mem t) : ¬ b.Mem t := by
  intro hb
  have hlt : a.max < t := lt_of_lt_of_le h (mem_iff.1 hb).1
  exact absurd (mem_iff.1 ha).2 hlt.not_ge

/-- In ring order, ranges that share no token follow one another. -/
theorem before_of_le {a b : TokenRange} (hle : a ≤ b) (h : a.intersects b = false) :
    a.Before b := by
  have hmin : a.min ≤ b.min := by
    rcases le_iff.1 hle with hlt | ⟨heq, _⟩
    · exact hlt.le
    · exact heq.le
  by_contra hover
  have hshared : a.intersects b = true :=
    intersects_iff.2 ⟨hmin.trans b.min_le_max, not_lt.1 hover⟩
  exact absurd (h.symm.trans hshared) Bool.false_ne_true

end TokenRange

namespace TokenPlan

/-! ### Neighbours decide -/

/-- A work list whose ranges are apart has no overlap. -/
theorem firstOverlap_eq_none {ranges : List TokenRange} (h : Cover.Apart TokenRange.Mem ranges) :
    firstOverlap ranges = none := by
  fun_induction firstOverlap ranges with
  | case1 left right rest hintersects =>
    obtain ⟨t, hleft, hright⟩ := TokenRange.intersects_iff_exists.1 hintersects
    exact absurd hright ((pairwise_cons.1 h).1 right (mem_cons_self ..) t hleft)
  | case2 left right rest _ ih => exact ih (pairwise_cons.1 h).2
  | case3 ranges _ => rfl

/-- In ring order, a work list without an overlap is a chain. -/
theorem isChain_of_firstOverlap {ranges : List TokenRange} (hsorted : ranges.Pairwise (· ≤ ·))
    (h : firstOverlap ranges = none) : ranges.IsChain TokenRange.Before := by
  fun_induction firstOverlap ranges with
  | case1 left right rest hintersects => cases h
  | case2 left right rest hintersects ih =>
    obtain ⟨hleft, hrest⟩ := pairwise_cons.1 hsorted
    have hbefore := TokenRange.before_of_le (hleft right (mem_cons_self ..))
      (Bool.eq_false_of_not_eq_true hintersects)
    exact isChain_cons_cons.2 ⟨hbefore, ih hrest h⟩
  | case3 ranges hshort =>
    match ranges with
    | [] => exact isChain_nil
    | [_] => exact isChain_singleton _
    | left :: right :: rest => exact absurd rfl (hshort left right rest)

/-- So its ranges are apart, whichever two of them. -/
theorem apart_of_firstOverlap {ranges : List TokenRange} (hsorted : ranges.Pairwise (· ≤ ·))
    (h : firstOverlap ranges = none) : Cover.Apart TokenRange.Mem ranges := by
  have : IsTrans TokenRange TokenRange.Before := ⟨fun _ _ _ => TokenRange.Before.trans⟩
  have hpairwise := isChain_iff_pairwise.1 (isChain_of_firstOverlap hsorted h)
  exact hpairwise.imp fun hbefore t => hbefore.apart t

/-- Sorting a work list and looking at neighbours tells whether its ranges are apart. -/
theorem firstOverlap_sorted_iff {ranges : List TokenRange} :
    firstOverlap (ranges.insertionSort (· ≤ ·)) = none ↔ Cover.Apart TokenRange.Mem ranges := by
  have hperm := perm_insertionSort (· ≤ ·) ranges
  constructor
  · intro h
    exact (apart_of_firstOverlap (pairwise_insertionSort ..) h).perm hperm
  · intro h
    exact firstOverlap_eq_none (h.perm hperm.symm)

/-! ### The bounds of a plan -/

theorem isLeast_foldl_min {α : Type*} [LinearOrder α] (a : α) (l : List α) :
    IsLeast {b | b ∈ a :: l} (l.foldl min a) := by
  induction l generalizing a with
  | nil => simp
  | cons c l ih =>
    obtain ⟨hmem, hleast⟩ := ih (min a c)
    have hle : l.foldl min (min a c) ≤ min a c := hleast (mem_cons_self ..)
    rw [foldl_cons]
    constructor
    · rcases mem_cons.1 hmem with heq | hmem
      · rw [heq]
        rcases min_choice a c with h | h
        · exact mem_cons.2 (.inl h)
        · exact mem_cons.2 (.inr (mem_cons.2 (.inl h)))
      · exact mem_cons_of_mem _ (mem_cons_of_mem _ hmem)
    · intro b hb
      rcases mem_cons.1 hb with rfl | hb
      · exact hle.trans (min_le_left _ _)
      rcases mem_cons.1 hb with rfl | hb
      · exact hle.trans (min_le_right _ _)
      · exact hleast (mem_cons_of_mem _ hb)

theorem isGreatest_foldl_max {α : Type*} [LinearOrder α] (a : α) (l : List α) :
    IsGreatest {b | b ∈ a :: l} (l.foldl max a) :=
  isLeast_foldl_min (α := αᵒᵈ) a l

theorem hull_min (first : TokenRange) (ranges : List TokenRange) :
    (ranges.foldl hull first).min = (ranges.map TokenRange.min).foldl min first.min := by
  rw [foldl_map]
  exact (foldl_hom TokenRange.min fun _ _ => rfl).symm

theorem hull_max (first : TokenRange) (ranges : List TokenRange) :
    (ranges.foldl hull first).max = (ranges.map TokenRange.max).foldl max first.max := by
  rw [foldl_map]
  exact (foldl_hom TokenRange.max fun _ _ => rfl).symm

/-! ### Admission -/

section Admission

variable {runId : RunId} {p : Partitioner} {prev : Option RunId} {ranges : List TokenRange}

/-- A work list is accepted when there is one, below the ceiling, and no token is in it twice. -/
theorem exists_fromRanges (hne : ranges ≠ []) (hle : ranges.length ≤ maxPlannedRanges)
    (hapart : Cover.Apart TokenRange.Mem ranges) :
    ∃ plan, fromRanges runId p prev ranges = .ok plan ∧ plan.tokenRanges = ranges := by
  cases ranges with
  | nil => exact absurd rfl hne
  | cons first rest =>
    have hnone := firstOverlap_sorted_iff.2 hapart
    have hplan : ∃ plan, fromRanges runId p prev (first :: rest) = .ok plan := by
      simp only [fromRanges, if_neg (not_lt.2 hle), hnone]
      exact ⟨_, rfl⟩
    obtain ⟨plan, hplan⟩ := hplan
    exact ⟨plan, hplan, tokenRanges_of_fromRanges hplan⟩

/-- What an accepted work list has passed, and the plan that is made of it. -/
theorem fromRanges_spec {plan : TokenPlan} (h : fromRanges runId p prev ranges = .ok plan) :
    ∃ first rest, ranges = first :: rest ∧ ranges.length ≤ maxPlannedRanges ∧
      firstOverlap (ranges.insertionSort (· ≤ ·)) = none ∧
      plan.bounds = ranges.foldl hull first := by
  cases ranges with
  | nil => cases h
  | cons first rest =>
    unfold fromRanges at h
    simp only at h
    split_ifs at h with hlength
    split at h
    · cases h
    · rename_i hnone
      injection h with h
      subst h
      exact ⟨first, rest, rfl, not_lt.1 hlength, hnone, rfl⟩

/-- **Admission of a work list.** A plan is built exactly from the lists that have a range, are not
above the ceiling, and have each token in one range at most; it keeps their order, and reaches from
their least token to their greatest. -/
theorem fromRanges_iff (runId : RunId) (p : Partitioner) (prev : Option RunId)
    (ranges : List TokenRange) :
    ((∃ plan, fromRanges runId p prev ranges = .ok plan) ↔
      ranges ≠ [] ∧ ranges.length ≤ maxPlannedRanges ∧
        ranges.Pairwise fun a b => ∀ t, a.contains t = true → ¬ b.contains t = true) ∧
    ∀ plan, fromRanges runId p prev ranges = .ok plan →
      plan.tokenRanges = ranges ∧
        IsLeast (TokenRange.min '' {r | r ∈ ranges}) plan.bounds.min ∧
        IsGreatest (TokenRange.max '' {r | r ∈ ranges}) plan.bounds.max := by
  refine ⟨⟨?_, ?_⟩, ?_⟩
  · rintro ⟨plan, h⟩
    obtain ⟨first, rest, hcons, hlength, hnone, -⟩ := fromRanges_spec h
    exact ⟨hcons ▸ cons_ne_nil _ _, hlength, firstOverlap_sorted_iff.1 hnone⟩
  · rintro ⟨hne, hlength, hapart⟩
    obtain ⟨plan, hplan, -⟩ := exists_fromRanges hne hlength hapart
    exact ⟨plan, hplan⟩
  · intro plan h
    obtain ⟨first, rest, rfl, -, -, hbounds⟩ := fromRanges_spec h
    have hset (f : TokenRange → ℤ) : {b | b ∈ f first :: (first :: rest).map f} =
        f '' {r | r ∈ first :: rest} := by
      ext b
      have hfirst : b = f first → b ∈ (first :: rest).map f := by
        rintro rfl
        exact mem_map_of_mem (mem_cons_self ..)
      exact (mem_cons.trans (or_iff_right_of_imp hfirst)).trans mem_map
    rw [hbounds, hull_min, hull_max, ← hset, ← hset]
    exact ⟨tokenRanges_of_fromRanges h, isLeast_foldl_min _ _, isGreatest_foldl_max _ _⟩

/-- Two ranges that touch, against the order of the ring. -/
def touching : List TokenRange :=
  [.checked 5 9 (.refl true), .checked (-3) 4 (by decide)]

theorem fromRanges_iff_touching :
    ∃ plan, fromRanges ⟨1⟩ .murmur3 none touching = .ok plan ∧
      plan.tokenRanges.map TokenRange.min = [5, -3] ∧ plan.bounds.min ≤ -3 := by
  have hapart : touching.Pairwise fun a b => ∀ t, a.contains t = true → ¬ b.contains t = true := by
    refine pairwise_pair.2 fun t h h' => ?_
    have hlower := (TokenRange.contains_iff.1 h).1
    have hupper := (TokenRange.contains_iff.1 h').2
    exact absurd (hlower.trans hupper) (by decide)
  obtain ⟨plan, hplan⟩ := (fromRanges_iff ⟨1⟩ .murmur3 none touching).1.2
    ⟨cons_ne_nil _ _, by decide, hapart⟩
  obtain ⟨hranges, hleast, -⟩ := (fromRanges_iff ⟨1⟩ .murmur3 none touching).2 plan hplan
  have hlower : (⟨-3, 4, by decide, by decide, by decide⟩ : TokenRange) ∈ touching :=
    mem_cons_of_mem _ (mem_cons_self ..)
  exact ⟨plan, hplan, by rw [hranges]; rfl, hleast.2 ⟨_, hlower, rfl⟩⟩

end Admission

end TokenPlan

end Cdm
