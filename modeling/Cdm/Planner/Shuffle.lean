import Mathlib.Algebra.Group.Nat.Defs
import Mathlib.Data.List.Perm.Basic
import Mathlib.Data.Nat.Notation
import Cdm.Core.Domain

/-!
# The run-seeded double shuffle

Two Fisher–Yates passes over the work list, driven by a SplitMix64 generator that is seeded from
the run id, so that replanning a run gives the same order.

The rejection loop of `nextIndex` has no bound in the source.  It ends because the generator's
state walks through all of `ZMod 2^64` in steps of an odd constant: it reaches zero, which is
always accepted, and `stepsToZero` counts the steps that are left.
-/

namespace Cdm

/-- SplitMix64. -/
structure SplitMix64 where
  state : UInt64
  deriving DecidableEq

namespace SplitMix64

/-- The golden-ratio increment. -/
def gamma : UInt64 := 0x9E3779B97F4A7C15

/-- The finalizer: the 64 bits drawn from a state. -/
def mix (z : UInt64) : UInt64 :=
  let z := (z ^^^ (z >>> 30)) * 0xBF58476D1CE4E5B9
  let z := (z ^^^ (z >>> 27)) * 0x94D049BB133111EB
  z ^^^ (z >>> 31)

/-- The next 64 bits, and the generator after drawing them. -/
def nextU64 (rng : SplitMix64) : UInt64 × SplitMix64 :=
  let state := rng.state + gamma
  (mix state, ⟨state⟩)

-- the published first outputs of the generator
example : (nextU64 ⟨0⟩).1 = 16294208416658607535 ∧
    (nextU64 (nextU64 ⟨0⟩).2).1 = 7960286522194355700 := by decide

/-- `2^64 mod bound`. -/
def overhang (bound : UInt64) : UInt64 := (0xFFFFFFFFFFFFFFFF % bound + 1) % bound

/-- Whether a draw is kept: all draws when `bound` divides `2^64`, else those below the largest
multiple of `bound`. -/
def accepts (bound draw : UInt64) : Bool :=
  overhang bound == 0 || decide (draw < 0 - overhang bound)

/-! ### The rejection loop ends -/

/-- The inverse of `gamma` modulo `2^64`. -/
def gammaInv : UInt64 := 0xF1DE83E19937733D

/-- How many more draws it takes until the state is zero. -/
def stepsToZero (rng : SplitMix64) : UInt64 := -(rng.state + gamma) * gammaInv

theorem gamma_mul_gammaInv : gamma * gammaInv = 1 := by decide

@[simp] theorem mix_zero : mix 0 = 0 := by decide

theorem stepsToZero_next (rng : SplitMix64) :
    rng.nextU64.2.stepsToZero = rng.stepsToZero - 1 := by
  have := gamma_mul_gammaInv
  simp only [stepsToZero, nextU64]
  grind

theorem state_next_of_stepsToZero {rng : SplitMix64} (h : rng.stepsToZero = 0) :
    rng.state + gamma = 0 := by
  have := gamma_mul_gammaInv
  unfold stepsToZero at h
  grind

theorem accepts_zero (bound : UInt64) : accepts bound 0 = true := by
  unfold accepts
  by_cases h : overhang bound = 0
  · simp [h]
  · have hpos : (0 : UInt64) < 0 - overhang bound := by
      rw [UInt64.pos_iff_ne_zero]
      intro h0
      exact h (by grind)
    rw [decide_eq_true hpos, Bool.or_true]

/-- A rejected draw is not the last one before the state is zero. -/
theorem stepsToZero_lt {rng : SplitMix64} {bound : UInt64}
    (h : ¬ accepts bound rng.nextU64.1 = true) :
    rng.nextU64.2.stepsToZero < rng.stepsToZero := by
  have hne : rng.stepsToZero ≠ 0 := by
    intro h0
    apply h
    have hdraw : rng.nextU64.1 = 0 := by
      simp [nextU64, state_next_of_stepsToZero h0]
    rw [hdraw]
    exact accepts_zero bound
  have hpos : 0 < rng.stepsToZero.toNat := by
    have := UInt64.pos_iff_ne_zero.2 hne
    simpa [UInt64.lt_iff_toNat_lt] using this
  have hone : (1 : UInt64) ≤ rng.stepsToZero := by
    rw [UInt64.le_iff_toNat_le]
    exact hpos
  rw [stepsToZero_next, UInt64.lt_iff_toNat_lt, UInt64.toNat_sub_of_le _ _ hone]
  simp
  omega

/-- The rejection loop: draws until one is kept, and reduces it modulo `bound`. -/
def drawBelow (rng : SplitMix64) (bound : UInt64) : UInt64 × SplitMix64 :=
  let draw := rng.nextU64
  if accepts bound draw.1 then (draw.1 % bound, draw.2) else drawBelow draw.2 bound
termination_by rng.stepsToZero.toNat
decreasing_by
  rename_i h
  exact UInt64.lt_iff_toNat_lt.1 (stepsToZero_lt h)

/-- An index in `0..bound`, by rejection. -/
def nextIndex (rng : SplitMix64) (bound : ℕ) : ℕ × SplitMix64 :=
  -- `u64::try_from(bound)` fails above `u64::MAX`
  if 2 ^ 64 ≤ bound then (0, rng)
  else if bound ≤ 1 then (0, rng)
  else
    let draw := rng.drawBelow (UInt64.ofNat bound)
    (draw.1.toNat, draw.2)

theorem drawBelow_lt (rng : SplitMix64) {bound : UInt64} (h : bound ≠ 0) :
    (rng.drawBelow bound).1 < bound := by
  fun_induction drawBelow rng bound with
  | case1 rng draw _ => exact UInt64.mod_lt _ (UInt64.pos_iff_ne_zero.2 h)
  | case2 rng draw _ ih => exact ih

/-- An index drawn below `bound` is below `bound`. -/
theorem nextIndex_lt (rng : SplitMix64) {bound : ℕ} (h : 1 ≤ bound) :
    (rng.nextIndex bound).1 < bound := by
  unfold nextIndex
  split_ifs with hbig hone
  · exact h
  · exact h
  · have hn : (UInt64.ofNat bound).toNat = bound := UInt64.toNat_ofNat_of_lt' (by
      rw [UInt64.size]
      omega)
    have hne : UInt64.ofNat bound ≠ 0 := by
      intro h0
      rw [h0] at hn
      simp at hn
      omega
    have := UInt64.lt_iff_toNat_lt.1 (rng.drawBelow_lt hne)
    rw [hn] at this
    exact this

end SplitMix64

/-! ### The shuffle -/

section Shuffle

variable {α : Type*}

/-- The permutation seed of a run: its id, passed through the generator once. -/
def seedFor (runId : RunId) : UInt64 :=
  (SplitMix64.nextU64 ⟨runId.raw.toUInt64⟩).1

/-- The swaps of one pass, for `index` down to 1. -/
def shuffleFrom (items : List α) (rng : SplitMix64) : ℕ → List α × SplitMix64
  | 0 => (items, rng)
  | index + 1 =>
    let target := rng.nextIndex (index + 2)
    shuffleFrom (items.swap (index + 1) target.1) target.2 index

/-- One Fisher–Yates pass, walked from the end. -/
def shuffleOnce (items : List α) (rng : SplitMix64) : List α × SplitMix64 :=
  shuffleFrom items rng (items.length - 1)

/-- Shuffles twice; the generator state carries over between the passes. -/
def shuffleForRun (items : List α) (runId : RunId) : List α :=
  let first := shuffleOnce items ⟨seedFor runId⟩
  (shuffleOnce first.1 first.2).1

theorem shuffleFrom_perm (items : List α) (rng : SplitMix64) (n : ℕ) :
    (shuffleFrom items rng n).1.Perm items := by
  induction n generalizing items rng with
  | zero => exact List.Perm.refl _
  | succ n ih => exact (ih _ _).trans (List.swap_perm ..)

theorem shuffleOnce_perm (items : List α) (rng : SplitMix64) :
    (shuffleOnce items rng).1.Perm items :=
  shuffleFrom_perm ..

/-- **The shuffle is a permutation** of its input. -/
theorem shuffleForRun_perm (items : List α) (runId : RunId) :
    (shuffleForRun items runId).Perm items :=
  (shuffleOnce_perm ..).trans (shuffleOnce_perm ..)

end Shuffle

end Cdm
