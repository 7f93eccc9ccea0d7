import Mathlib.Data.Nat.Log
import Mathlib.Tactic.Ring
import Mathlib.Tactic.Linarith

/-!
# Rounding to the precision of a double

A natural number in a double has 53 significant bits; the others are rounded to the nearest, with
ties to even.  The exponent of a double is wide enough for every natural number considered here, so
it is left out.
-/

namespace Binary64

/-- The weight of the last significant bit. -/
def unit (n : ℕ) : ℕ := 2 ^ (n.log2 + 1 - 53)

/-- The nearest number with 53 significant bits, ties to even. -/
def round (n : ℕ) : ℕ :=
  if 2 * (n % unit n) < unit n ∨ 2 * (n % unit n) = unit n ∧ n / unit n % 2 = 0 then
    n / unit n * unit n
  else n / unit n * unit n + unit n

theorem unit_pos (n : ℕ) : 0 < unit n := Nat.two_pow_pos _

/-- Below `2 ^ 53` nothing is rounded. -/
theorem unit_eq_one {n : ℕ} (h : n < 2 ^ 53) : unit n = 1 := by
  have hlog : n.log2 + 1 - 53 = 0 := by
    rcases Nat.eq_zero_or_pos n with rfl | hpos
    · rfl
    · have := (Nat.log2_lt hpos.ne').2 h
      omega
  rw [unit, hlog, pow_zero]

/-- There are 53 significant bits. -/
theorem unit_bounds {n : ℕ} (h : 2 ^ 53 ≤ n) : 2 ^ 52 * unit n ≤ n ∧ n < 2 ^ 53 * unit n := by
  have hne : n ≠ 0 := by omega
  have hlog : 53 ≤ n.log2 := (Nat.le_log2 hne).2 h
  obtain ⟨e, he⟩ : ∃ e, n.log2 = e + 52 := ⟨n.log2 - 52, by omega⟩
  have hlow := Nat.log2_self_le hne
  have hhigh := @Nat.lt_log2_self n
  have hexp : e + 52 + 1 - 53 = e := by omega
  rw [unit, he, hexp]
  rw [he, Nat.pow_add, Nat.mul_comm] at hlow
  rw [he, Nat.add_assoc, Nat.pow_add, Nat.mul_comm] at hhigh
  exact ⟨hlow, hhigh⟩

/-- A grid contains every coarser one. -/
theorem unit_dvd_two_pow {n e : ℕ} (h : n < 2 ^ (53 + e)) : unit n ∣ 2 ^ e := by
  apply Nat.pow_dvd_pow
  rcases Nat.eq_zero_or_pos n with rfl | hpos
  · exact Nat.zero_le e
  · have := (Nat.log2_lt hpos.ne').2 h
    omega

theorem unit_dvd_round (n : ℕ) : unit n ∣ round n := by
  unfold round
  split_ifs
  · exact Nat.dvd_mul_left _ _
  · exact (Nat.dvd_add_right (Nat.dvd_mul_left _ _)).2 (dvd_refl _)

/-- A rounded number is half a unit away, at most. -/
theorem round_near (n : ℕ) :
    2 * round n ≤ 2 * n + unit n ∧ 2 * n ≤ 2 * round n + unit n := by
  have hmod := Nat.mod_lt n (unit_pos n)
  have hdiv := Nat.div_add_mod' n (unit n)
  unfold round
  split_ifs with h <;> omega

/-- A number of the grid that is less than half a unit away is the rounded one. -/
theorem round_eq_of_dvd {n m : ℕ} (hdvd : unit n ∣ m) (hlo : 2 * m < 2 * n + unit n)
    (hhi : 2 * n < 2 * m + unit n) : round n = m := by
  obtain ⟨hle, hge⟩ := round_near n
  obtain ⟨a, ha⟩ := unit_dvd_round n
  obtain ⟨b, rfl⟩ := hdvd
  have hpos := unit_pos n
  rw [ha] at hle hge ⊢
  congr 1
  by_contra hne
  rcases Nat.lt_or_gt_of_ne hne with hlt | hlt
  · have := Nat.mul_le_mul_left (unit n) (Nat.succ_le_of_lt hlt)
    rw [Nat.mul_succ] at this
    omega
  · have := Nat.mul_le_mul_left (unit n) (Nat.succ_le_of_lt hlt)
    rw [Nat.mul_succ] at this
    omega

theorem round_eq_self {n : ℕ} (h : n < 2 ^ 53) : round n = n := by
  have hunit := unit_eq_one h
  exact round_eq_of_dvd (by rw [hunit]; exact one_dvd n) (by omega) (by omega)

/-- The relative error is at most `2 ^ -53`. -/
theorem round_relative (n : ℕ) :
    2 ^ 53 * round n ≤ (2 ^ 53 + 1) * n ∧ 2 ^ 53 * n ≤ 2 ^ 53 * round n + n := by
  by_cases h : n < 2 ^ 53
  · rw [round_eq_self h]
    omega
  · have hunit := (unit_bounds (not_lt.1 h)).1
    have hnear := round_near n
    omega

end Binary64
