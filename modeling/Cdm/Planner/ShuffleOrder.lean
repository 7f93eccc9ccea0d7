import Mathlib.Data.Nat.Find
import Mathlib.Logic.Function.Iterate
import Cdm.Planner.Shuffle

/-!
# What the shuffle depends on

The order of a shuffled plan is one of the places of its ranges: it depends on the run id and on how
many ranges there are, and on nothing else.  The indices come from a loop over the draws of a
generator, which ends with the first draw that is not rejected, whatever the draws are.
-/

namespace Cdm

namespace SplitMix64

/-! ### The rejection loop -/

/-- The loop over a sequence of draws ends with this index. -/
inductive Draws (bound : UInt64) : (ℕ → UInt64) → UInt64 → Prop
  | keep {draws : ℕ → UInt64} (h : accepts bound (draws 0) = true) :
      Draws bound draws (draws 0 % bound)
  | reject {draws : ℕ → UInt64} {index : UInt64} (h : ¬ accepts bound (draws 0) = true)
      (hrest : Draws bound (fun n => draws (n + 1)) index) : Draws bound draws index

section Loop

variable {bound : UInt64} {draws : ℕ → UInt64}

/-- The loop ends with the first draw that is kept. -/
theorem draws_iff {index : UInt64} : Draws bound draws index ↔
    ∃ n, accepts bound (draws n) = true ∧ (∀ m < n, ¬ accepts bound (draws m) = true) ∧
      index = draws n % bound := by
  constructor
  · intro h
    induction h with
    | keep h => exact ⟨0, h, fun m hm => absurd hm (Nat.not_lt_zero m), rfl⟩
    | reject h hrest ih =>
      obtain ⟨n, hn, hbefore, rfl⟩ := ih
      refine ⟨n + 1, hn, fun m hm => ?_, rfl⟩
      cases m with
      | zero => exact h
      | succ m => exact hbefore m (Nat.lt_of_succ_lt_succ hm)
  · rintro ⟨n, hn, hbefore, rfl⟩
    induction n generalizing draws with
    | zero => exact .keep hn
    | succ n ih =>
      exact .reject (hbefore 0 (Nat.succ_pos n))
        (ih hn fun m hm => hbefore (m + 1) (Nat.succ_lt_succ hm))

/-- **The loop ends exactly when the draws are not all rejected.** -/
theorem exists_draws_iff :
    (∃ index, Draws bound draws index) ↔ ∃ n, accepts bound (draws n) = true := by
  constructor
  · rintro ⟨index, h⟩
    obtain ⟨n, hn, -⟩ := draws_iff.1 h
    exact ⟨n, hn⟩
  · intro h
    classical
    exact ⟨_, draws_iff.2 ⟨Nat.find h, Nat.find_spec h, fun _ => Nat.find_min h, rfl⟩⟩

end Loop

/-! ### The draws of the generator -/

/-- The generator after so many draws. -/
def after (rng : SplitMix64) (n : ℕ) : SplitMix64 := (fun g => g.nextU64.2)^[n] rng

/-- The draws of a generator. -/
def draws (rng : SplitMix64) (n : ℕ) : UInt64 := (rng.after n).nextU64.1

theorem draws_zero (rng : SplitMix64) : rng.draws 0 = rng.nextU64.1 := rfl

theorem draws_succ (rng : SplitMix64) :
    (fun n => rng.draws (n + 1)) = rng.nextU64.2.draws := by
  funext n
  rw [draws, draws, after, after, Function.iterate_succ_apply]

/-- The loop of the generator is the loop over its draws. -/
theorem draws_drawBelow (rng : SplitMix64) (bound : UInt64) :
    Draws bound rng.draws (rng.drawBelow bound).1 := by
  fun_induction drawBelow rng bound with
  | case1 rng draw h =>
    rw [← draws_zero] at h ⊢
    exact .keep h
  | case2 rng draw h ih =>
    rw [← draws_zero] at h
    refine .reject h ?_
    rw [draws_succ]
    exact ih

end SplitMix64

/-! ### The places of the items -/

section Order

variable {α β : Type*}

theorem map_swap (f : α → β) (items : List α) (i j : ℕ) :
    (items.swap i j).map f = (items.map f).swap i j := by
  induction items generalizing i j with
  | nil => rfl
  | cons a items ih =>
    cases i with
    | zero =>
      cases j with
      | zero => rfl
      | succ j => cases h : items[j]? <;> simp [h, List.map_set]
    | succ i =>
      cases j with
      | zero => cases h : items[i]? <;> simp [h, List.map_set]
      | succ j => simp [ih]

theorem shuffleFrom_map (f : α → β) (items : List α) (rng : SplitMix64) (n : ℕ) :
    shuffleFrom (items.map f) rng n =
      ((shuffleFrom items rng n).1.map f, (shuffleFrom items rng n).2) := by
  induction n generalizing items rng with
  | zero => rfl
  | succ n ih =>
    rw [shuffleFrom, shuffleFrom, ← map_swap, ih]

theorem shuffleOnce_map (f : α → β) (items : List α) (rng : SplitMix64) :
    shuffleOnce (items.map f) rng =
      ((shuffleOnce items rng).1.map f, (shuffleOnce items rng).2) := by
  rw [shuffleOnce, List.length_map, shuffleFrom_map]
  rfl

/-- The shuffle moves the items without looking at them. -/
theorem shuffleForRun_map (f : α → β) (items : List α) (runId : RunId) :
    shuffleForRun (items.map f) runId = (shuffleForRun items runId).map f := by
  rw [shuffleForRun, shuffleOnce_map]
  dsimp only
  rw [shuffleOnce_map]
  rfl

/-- The places are those that a list of the same length has under the same run id. -/
theorem shuffleForRun_range (items : List α) (runId : RunId) :
    (shuffleForRun items runId).map some =
      (shuffleForRun (List.range items.length) runId).map (items[·]?) := by
  rw [← shuffleForRun_map, ← shuffleForRun_map]
  congr 1
  apply List.ext_getElem?
  intro i
  by_cases h : i < items.length
  · simp [h]
  · simp [h]

end Order

/-- **The shuffle of a run.** It is a permutation of its input; the items go to places that the run
id and their number determine; an index drawn below a bound is below it, in every state of the
generator; and the loop that draws it ends on every sequence of draws that are not all rejected, as
those of the generator never are. -/
theorem shuffleForRun_exact.{u} :
    (∀ (α : Type u) (items : List α) (runId : RunId),
      (shuffleForRun items runId).Perm items ∧ (shuffleForRun items runId).map some =
        (shuffleForRun (List.range items.length) runId).map (items[·]?)) ∧
      (∀ (rng : SplitMix64) (bound : ℕ), 1 ≤ bound → (rng.nextIndex bound).1 < bound) ∧
      (∀ (bound : UInt64) (draws : ℕ → UInt64), (∃ index, SplitMix64.Draws bound draws index) ↔
        ∃ n, SplitMix64.accepts bound (draws n) = true) ∧
      ∀ (rng : SplitMix64) (bound : UInt64),
        SplitMix64.Draws bound rng.draws (rng.drawBelow bound).1 :=
  ⟨fun _ items runId => ⟨shuffleForRun_perm items runId, shuffleForRun_range items runId⟩,
    fun rng _ h => rng.nextIndex_lt h, fun _ _ => SplitMix64.exists_draws_iff,
    SplitMix64.draws_drawBelow⟩

/-- An index below 10. -/
theorem nextIndex_lt_ten : ((⟨0⟩ : SplitMix64).nextIndex 10).1 < 10 :=
  shuffleForRun_exact.{0}.2.1 ⟨0⟩ 10 (by decide)

end Cdm
