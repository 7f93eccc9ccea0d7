import Mathlib.Data.List.Induction
import Mathlib.Data.List.Forall2
import Mathlib.Data.Nat.Bitwise
import Mathlib.Data.Nat.Find
import Mathlib.Order.Bounds.Basic
import Cdm.Lib.Binary64

/-!
# Latency histograms

A value is counted in one of 976 buckets: one for each value below 16, and sixteen for each power of
two above it.  A percentile is reported as the upper bound of the bucket in which the count reaches
its rank, so it can be above the exact maximum.

The rank is computed with doubles.
-/

namespace Cdm

open List

/-- Linear sub-buckets within each power of two. -/
def subBuckets : ℕ := 16

/-- How many buckets there are. -/
def bucketCount : ℕ := 976

/-- The bucket a value belongs to. -/
def bucketIndex (value : ℕ) : ℕ :=
  if value < subBuckets then value
  else
    -- `u64::BITS - 1 - value.leading_zeros()`
    let exponent := value.log2
    let shift := exponent - 4
    let sub := (value >>> shift) - subBuckets
    (shift + 1) * subBuckets + sub

/-- The largest value that falls in a bucket; the addition saturates. -/
def bucketUpperBound (index : ℕ) : ℕ :=
  if index < subBuckets then index
  else
    let shift := index / subBuckets - 1
    let sub := index % subBuckets
    min (((subBuckets + sub) <<< shift) % 2 ^ 64 + ((1 <<< shift) % 2 ^ 64 - 1)) (2 ^ 64 - 1)

/-! ### The values of a bucket -/

theorem log2_sub_eq {value shift sub : ℕ} (hsub : sub < 16)
    (hlo : (16 + sub) * 2 ^ shift ≤ value) (hhi : value < (16 + sub + 1) * 2 ^ shift) :
    value.log2 - 4 = shift := by
  have hpos : 0 < 2 ^ shift := Nat.two_pow_pos _
  have hge : 16 * 2 ^ shift ≤ value :=
    (Nat.mul_le_mul_right _ (Nat.le_add_right 16 sub)).trans hlo
  have hlt : value < 32 * 2 ^ shift :=
    hhi.trans_le (Nat.mul_le_mul_right _ (by omega))
  have hne : value ≠ 0 := by omega
  have hlog : value.log2 = shift + 4 := by
    rw [Nat.log2_eq_iff hne, Nat.pow_add, Nat.add_assoc, Nat.pow_add]
    constructor
    · rw [Nat.mul_comm]
      exact hge
    · rw [Nat.mul_comm (2 ^ shift)]
      exact hlt
  rw [hlog, Nat.add_sub_cancel]

/-- The values of the bucket `sub` of the power of two `shift + 4`. -/
theorem bucketIndex_of_mem {value shift sub : ℕ} (hsub : sub < 16)
    (hlo : (16 + sub) * 2 ^ shift ≤ value) (hhi : value < (16 + sub + 1) * 2 ^ shift) :
    bucketIndex value = (shift + 1) * 16 + sub := by
  have hpos : 0 < 2 ^ shift := Nat.two_pow_pos _
  have hge := (Nat.mul_le_mul_right (2 ^ shift) (Nat.le_add_right 16 sub)).trans hlo
  have hquot : value >>> shift = 16 + sub := by
    rw [Nat.shiftRight_eq_div_pow]
    exact Nat.div_eq_of_lt_le hlo hhi
  have hnot : ¬ value < subBuckets := by
    rw [subBuckets]
    omega
  rw [bucketIndex, if_neg hnot]
  simp only [log2_sub_eq hsub hlo hhi, hquot, subBuckets]
  omega

/-- Every value from 16 on is in one of these buckets. -/
theorem exists_bucket {value : ℕ} (h : 16 ≤ value) : ∃ shift sub, sub < 16 ∧
    (16 + sub) * 2 ^ shift ≤ value ∧ value < (16 + sub + 1) * 2 ^ shift := by
  have hne : value ≠ 0 := by omega
  have hlog : 4 ≤ value.log2 := (Nat.le_log2 hne).2 h
  obtain ⟨shift, hshift⟩ : ∃ shift, value.log2 = shift + 4 := ⟨value.log2 - 4, by omega⟩
  have hpos : 0 < 2 ^ shift := Nat.two_pow_pos _
  have hlow := Nat.log2_self_le hne
  have hhigh := @Nat.lt_log2_self value
  rw [hshift, Nat.pow_add, Nat.mul_comm] at hlow
  rw [hshift, Nat.add_assoc, Nat.pow_add, Nat.mul_comm] at hhigh
  have hquotLo : 16 ≤ value / 2 ^ shift := (Nat.le_div_iff_mul_le hpos).2 hlow
  have hquotHi : value / 2 ^ shift < 32 := (Nat.div_lt_iff_lt_mul hpos).2 hhigh
  have hsplit : 16 + (value / 2 ^ shift - 16) = value / 2 ^ shift := by omega
  refine ⟨shift, value / 2 ^ shift - 16, by omega, ?_, ?_⟩
  · rw [hsplit]
    exact Nat.div_mul_le_self value _
  · rw [hsplit]
    have := Nat.lt_mul_div_succ value hpos
    rwa [Nat.mul_comm] at this

/-- A bucket is determined by its values. -/
theorem bucketIndex_eq_iff {value shift sub : ℕ} (hsub : sub < 16) :
    bucketIndex value = (shift + 1) * 16 + sub ↔
      (16 + sub) * 2 ^ shift ≤ value ∧ value < (16 + sub + 1) * 2 ^ shift := by
  constructor
  · intro h
    by_cases hsmall : value < 16
    · rw [bucketIndex, subBuckets, if_pos hsmall] at h
      omega
    · obtain ⟨shift', sub', hsub', hlo, hhi⟩ := exists_bucket (not_lt.1 hsmall)
      rw [bucketIndex_of_mem hsub' hlo hhi] at h
      obtain rfl : shift' = shift := by omega
      obtain rfl : sub' = sub := by omega
      exact ⟨hlo, hhi⟩
  · rintro ⟨hlo, hhi⟩
    exact bucketIndex_of_mem hsub hlo hhi

theorem bucketIndex_of_lt {value : ℕ} (h : value < 16) : bucketIndex value = value := if_pos h

theorem shift_lt {value shift sub : ℕ} (hvalue : value < 2 ^ 64)
    (hlo : (16 + sub) * 2 ^ shift ≤ value) : shift < 60 := by
  by_contra hge
  have hpow : 2 ^ 60 ≤ 2 ^ shift := Nat.pow_le_pow_right (by decide) (not_lt.1 hge)
  have := Nat.mul_le_mul (Nat.le_add_right 16 sub) hpow
  omega

/-- The shifts of the upper bound lose no bits, and its addition does not saturate. -/
theorem shifts_fit {shift sub : ℕ} (hshift : shift < 60) (hsub : sub < 16) :
    (16 + sub) * 2 ^ shift < 2 ^ 64 ∧ 2 ^ shift < 2 ^ 64 ∧
      (16 + sub) * 2 ^ shift + (2 ^ shift - 1) < 2 ^ 64 := by
  have hpow : 2 ^ shift ≤ 2 ^ 59 := Nat.pow_le_pow_right (by decide) (by omega)
  have hpos : 0 < 2 ^ shift := Nat.two_pow_pos _
  have := Nat.mul_le_mul (show 16 + sub ≤ 31 by omega) hpow
  omega

theorem bucketUpperBound_eq {shift sub : ℕ} (hshift : shift < 60) (hsub : sub < 16) :
    bucketUpperBound ((shift + 1) * 16 + sub) = (16 + sub) * 2 ^ shift + (2 ^ shift - 1) := by
  obtain ⟨hfirst, hsecond, hsum⟩ := shifts_fit hshift hsub
  have hnot : ¬ (shift + 1) * 16 + sub < 16 := by omega
  have hdiv : ((shift + 1) * 16 + sub) / 16 - 1 = shift := by omega
  have hmod : ((shift + 1) * 16 + sub) % 16 = sub := by omega
  simp only [bucketUpperBound, subBuckets, if_neg hnot, hdiv, hmod, Nat.shiftLeft_eq, Nat.one_mul]
  rw [Nat.mod_eq_of_lt hfirst, Nat.mod_eq_of_lt hsecond, Nat.min_eq_left (by omega)]

/-- What holds of the bucket of a value. -/
structure BucketFits (value : ℕ) : Prop where
  index_lt : bucketIndex value < bucketCount
  isGreatest : IsGreatest {other | other < 2 ^ 64 ∧ bucketIndex other = bucketIndex value}
    (bucketUpperBound (bucketIndex value))
  near : 16 * bucketUpperBound (bucketIndex value) ≤ 17 * value

theorem bucketFits {value : ℕ} (hvalue : value < 2 ^ 64) : BucketFits value := by
  by_cases hsmall : value < 16
  · have hindex := bucketIndex_of_lt hsmall
    have hbound : bucketUpperBound value = value := if_pos hsmall
    refine ⟨?_, ?_, ?_⟩
    · rw [hindex, bucketCount]
      omega
    · rw [hindex, hbound]
      refine ⟨⟨hvalue, hindex⟩, fun other hother => ?_⟩
      by_cases hother' : other < 16
      · rw [← hother.2, bucketIndex_of_lt hother']
      · obtain ⟨shift, sub, hsub, hlo, hhi⟩ := exists_bucket (not_lt.1 hother')
        have := hother.2
        rw [bucketIndex_of_mem hsub hlo hhi] at this
        omega
    · rw [hindex, hbound]
      omega
  · obtain ⟨shift, sub, hsub, hlo, hhi⟩ := exists_bucket (not_lt.1 hsmall)
    have hshift := shift_lt hvalue hlo
    have hpos : 0 < 2 ^ shift := Nat.two_pow_pos _
    have hfit := shifts_fit hshift hsub
    rw [Nat.succ_mul] at hhi
    have hindex : bucketIndex value = (shift + 1) * 16 + sub :=
      bucketIndex_of_mem hsub hlo (by rwa [Nat.succ_mul])
    have hmul := Nat.mul_le_mul_right (2 ^ shift) (Nat.le_add_right 16 sub)
    refine ⟨?_, ?_, ?_⟩
    · rw [hindex, bucketCount]
      omega
    · rw [hindex, bucketUpperBound_eq hshift hsub]
      refine ⟨⟨hfit.2.2, (bucketIndex_eq_iff hsub).2 ⟨by omega, ?_⟩⟩, fun other hother => ?_⟩
      · rw [Nat.succ_mul]
        omega
      · have hother := ((bucketIndex_eq_iff hsub).1 hother.2).2
        rw [Nat.succ_mul] at hother
        omega
    · rw [hindex, bucketUpperBound_eq hshift hsub]
      omega

/-- No shift or subtraction of either function goes out of its range, no shift to the left loses a
bit, and the addition does not saturate. -/
structure ShiftsFit (value : ℕ) : Prop where
  right : 16 ≤ value → 4 ≤ value.log2 ∧ value.log2 < 64 ∧
    16 ≤ value >>> (value.log2 - 4) ∧ value >>> (value.log2 - 4) < 32
  left : ∀ index, bucketIndex value = index → 16 ≤ index →
    1 ≤ index / 16 ∧ index / 16 - 1 < 64 ∧ (16 + index % 16) <<< (index / 16 - 1) < 2 ^ 64 ∧
      1 <<< (index / 16 - 1) < 2 ^ 64 ∧
      (16 + index % 16) <<< (index / 16 - 1) + (1 <<< (index / 16 - 1) - 1) < 2 ^ 64

theorem shiftsFit {value : ℕ} (hvalue : value < 2 ^ 64) : ShiftsFit value := by
  refine ⟨fun h => ?_, ?_⟩
  · have hne : value ≠ 0 := by omega
    have hlog : 4 ≤ value.log2 := (Nat.le_log2 hne).2 h
    obtain ⟨shift, sub, hsub, hlo, hhi⟩ := exists_bucket h
    have hquot : value >>> shift = 16 + sub := by
      rw [Nat.shiftRight_eq_div_pow]
      exact Nat.div_eq_of_lt_le hlo hhi
    have hindex := bucketIndex_of_mem hsub hlo hhi
    have hshift : value.log2 - 4 = shift := log2_sub_eq hsub hlo hhi
    rw [hshift, hquot]
    exact ⟨hlog, (Nat.log2_lt hne).2 hvalue, by omega, by omega⟩
  · rintro index rfl hlarge
    have hsmall : ¬ value < 16 := fun h => by
      rw [bucketIndex_of_lt h] at hlarge
      omega
    obtain ⟨shift, sub, hsub, hlo, hhi⟩ := exists_bucket (not_lt.1 hsmall)
    have hshift := shift_lt hvalue hlo
    obtain ⟨hfirst, hsecond, hsum⟩ := shifts_fit hshift hsub
    have hdiv : ((shift + 1) * 16 + sub) / 16 - 1 = shift := by omega
    have hmod : ((shift + 1) * 16 + sub) % 16 = sub := by omega
    rw [bucketIndex_of_mem hsub hlo hhi, hdiv, hmod, Nat.shiftLeft_eq, Nat.shiftLeft_eq,
      Nat.one_mul]
    exact ⟨by omega, by omega, hfirst, hsecond, hsum⟩

/-- A larger value is in no earlier bucket. -/
theorem bucketIndex_mono {value other : ℕ} (h : value ≤ other) :
    bucketIndex value ≤ bucketIndex other := by
  by_cases hsmall : value < 16
  · rw [bucketIndex_of_lt hsmall]
    by_cases hother : other < 16
    · rwa [bucketIndex_of_lt hother]
    · obtain ⟨shift, sub, hsub, hlo, hhi⟩ := exists_bucket (not_lt.1 hother)
      rw [bucketIndex_of_mem hsub hlo hhi]
      omega
  · obtain ⟨shift, sub, hsub, hlo, hhi⟩ := exists_bucket (not_lt.1 hsmall)
    obtain ⟨shift', sub', hsub', hlo', hhi'⟩ := exists_bucket ((not_lt.1 hsmall).trans h)
    rw [bucketIndex_of_mem hsub hlo hhi, bucketIndex_of_mem hsub' hlo' hhi']
    by_contra hlt
    -- an earlier bucket ends before the other begins
    have hends : (16 + sub' + 1) * 2 ^ shift' ≤ (16 + sub) * 2 ^ shift := by
      rcases Nat.lt_or_ge shift' shift with hshift | hshift
      · have hpow : 2 ^ (shift' + 1) ≤ 2 ^ shift := Nat.pow_le_pow_right (by decide) hshift
        have := Nat.mul_le_mul_right (2 ^ shift') (show 16 + sub' + 1 ≤ 32 by omega)
        have := Nat.mul_le_mul (show 16 ≤ 16 + sub by omega) hpow
        rw [Nat.pow_succ] at this
        omega
      · obtain rfl : shift' = shift := by omega
        exact Nat.mul_le_mul_right _ (by omega)
    omega

/-! ### The rank of a percentile -/

/-- A fraction between a half and one, and the double that is written for it. -/
structure Fraction where
  num : ℕ
  den : ℕ
  /-- The double, in units of `2 ^ -53`. -/
  bits : ℕ
  nearest : 2 * (bits * den) ≤ 2 * (num * 2 ^ 53) + den ∧
    2 * (num * 2 ^ 53) ≤ 2 * (bits * den) + den

/-- The percentiles that are reported. -/
def percentiles : List Fraction :=
  [⟨1, 2, 4503599627370496, by decide⟩, ⟨9, 10, 8106479329266893, by decide⟩,
    ⟨99, 100, 8917127262193582, by decide⟩, ⟨999, 1000, 8998192055486251, by decide⟩]

/-- `((total as f64) * fraction).ceil().max(1.0) as u64`. -/
def Fraction.rank (p : Fraction) (total : ℕ) : ℕ :=
  max ((Binary64.round (Binary64.round total * p.bits) + (2 ^ 53 - 1)) / 2 ^ 53) 1

namespace Fraction

theorem rank_pos (p : Fraction) (total : ℕ) : 1 ≤ p.rank total := le_max_right _ _

theorem forall_mem_percentiles {P : Fraction → Prop}
    (half : P ⟨1, 2, 4503599627370496, by decide⟩)
    (ninety : P ⟨9, 10, 8106479329266893, by decide⟩)
    (ninetyNine : P ⟨99, 100, 8917127262193582, by decide⟩)
    (nines : P ⟨999, 1000, 8998192055486251, by decide⟩) : ∀ p ∈ percentiles, P p := by
  intro p hp
  simp only [percentiles, mem_cons, not_mem_nil, or_false] at hp
  rcases hp with rfl | rfl | rfl | rfl
  · exact half
  · exact ninety
  · exact ninetyNine
  · exact nines

theorem bits_le {p : Fraction} (hp : p ∈ percentiles) : p.bits ≤ 2 ^ 53 - 2 ^ 40 := by
  exact forall_mem_percentiles (P := fun p => p.bits ≤ 2 ^ 53 - 2 ^ 40)
    (by decide) (by decide) (by decide) (by decide) p hp

/-- No rank is above the number of samples. -/
theorem rank_le {p : Fraction} (hp : p ∈ percentiles) {total : ℕ} (htotal : 1 ≤ total) :
    p.rank total ≤ total := by
  refine max_le ?_ htotal
  have hbits := bits_le hp
  have hfirst := (Binary64.round_relative total).1
  have hsecond := (Binary64.round_relative (Binary64.round total * p.bits)).1
  have hproduct := Nat.mul_le_mul_left (Binary64.round total) hbits
  generalize Binary64.round (Binary64.round total * p.bits) = result at *
  generalize Binary64.round total * p.bits = product at *
  generalize Binary64.round total = rounded at *
  omega

theorem lt_two_mul_unit {bits n : ℕ} (hhalf : 2 ^ 52 ≤ bits) :
    n < 2 * Binary64.unit (n * bits) := by
  have hproduct := Nat.mul_le_mul_left n hhalf
  by_cases hsmall : n * bits < 2 ^ 53
  · rw [Binary64.unit_eq_one hsmall]
    omega
  · have := (Binary64.unit_bounds (not_lt.1 hsmall)).2
    omega

/-- The error of the double and of the rounding do not reach the next whole number. -/
theorem round_mul_near {a b bits n q d : ℕ} (hb : 0 < b) (hb' : b ≤ 1000) (hd : d ≤ 8)
    (hdb : 4 * d ≤ b) (hhalf : 2 ^ 52 ≤ bits) (hbits : bits < 2 ^ 53)
    (hup : bits * b ≤ a * 2 ^ 53 + d) (hdown : a * 2 ^ 53 ≤ bits * b + d)
    (hmany : n ≤ 2 ^ 44) (hlo : a * n ≤ b * q) (hhi : b * q < a * n + b) :
    Binary64.round (n * bits) ≤ 2 ^ 53 * q ∧
      2 ^ 53 * q < Binary64.round (n * bits) + 2 ^ 53 := by
  have hproduct : n * bits < 2 ^ (53 + 44) := by
    calc n * bits ≤ 2 ^ 44 * bits := Nat.mul_le_mul_right _ hmany
      _ < 2 ^ 44 * 2 ^ 53 := Nat.mul_lt_mul_of_pos_left hbits (by decide)
      _ = 2 ^ (53 + 44) := by decide
  have hdvd := Binary64.unit_dvd_two_pow hproduct
  have hunit := Nat.le_of_dvd (Nat.two_pow_pos _) hdvd
  obtain ⟨hnearUp, hnearDown⟩ := Binary64.round_near (n * bits)
  -- everything over the common denominator
  have hscaledUp : b * (n * bits) ≤ 2 ^ 53 * (a * n) + n * d := by
    have := Nat.mul_le_mul_left n hup
    linarith
  have hscaledDown : 2 ^ 53 * (a * n) ≤ b * (n * bits) + n * d := by
    have := Nat.mul_le_mul_left n hdown
    linarith
  have hroundUp := Nat.mul_le_mul_left b hnearUp
  have hroundDown := Nat.mul_le_mul_left b hnearDown
  rcases Nat.eq_or_lt_of_le hlo with hexact | hbetween
  · have hround : Binary64.round (n * bits) = 2 ^ 53 * q := by
      have hless : 2 * (n * d) < b * Binary64.unit (n * bits) := by
        have hsmall := lt_two_mul_unit (n := n) hhalf
        have hpos := Nat.mul_le_mul_right (Binary64.unit (n * bits)) hdb
        rcases Nat.eq_zero_or_pos d with rfl | hdpos
        · have := Nat.mul_pos hb (Binary64.unit_pos (n * bits))
          omega
        · have := Nat.mul_lt_mul_of_pos_right hsmall hdpos
          linarith
      refine Binary64.round_eq_of_dvd (hdvd.trans ?_) ?_ ?_
      · exact (Nat.pow_dvd_pow 2 (by decide)).trans (Nat.dvd_mul_right _ _)
      · apply Nat.lt_of_mul_lt_mul_left (a := b)
        rw [hexact] at hscaledUp hscaledDown
        linarith
      · apply Nat.lt_of_mul_lt_mul_left (a := b)
        rw [hexact] at hscaledUp hscaledDown
        linarith
    omega
  · have herror : b * Binary64.unit (n * bits) + 2 * (n * d) < 2 * 2 ^ 53 := by
      have := Nat.mul_le_mul hb' hunit
      have := Nat.mul_le_mul hmany hd
      omega
    constructor
    · apply Nat.le_of_mul_le_mul_left (c := b) _ hb
      linarith
    · apply Nat.lt_of_mul_lt_mul_left (a := b)
      linarith

/-- Rounding up a quotient. -/
theorem ceil_eq {n q unit : ℕ} (hunit : 0 < unit) (hle : n ≤ unit * q)
    (hlt : unit * q < n + unit) : (n + (unit - 1)) / unit = q := by
  apply Nat.div_eq_of_lt_le
  · rw [Nat.mul_comm]
    omega
  · rw [Nat.mul_comm, Nat.mul_succ]
    omega

/-- The doubles of the percentiles are this near. -/
theorem near_of_mem {p : Fraction} (hp : p ∈ percentiles) : ∃ d, 0 < p.den ∧ p.den ≤ 1000 ∧
    d ≤ 8 ∧ 4 * d ≤ p.den ∧ 2 ^ 52 ≤ p.bits ∧ p.bits < 2 ^ 53 ∧
    p.bits * p.den ≤ p.num * 2 ^ 53 + d ∧ p.num * 2 ^ 53 ≤ p.bits * p.den + d ∧ 0 < p.num := by
  revert p
  exact fun {p} => forall_mem_percentiles (P := fun p => ∃ d, 0 < p.den ∧ p.den ≤ 1000 ∧
      d ≤ 8 ∧ 4 * d ≤ p.den ∧ 2 ^ 52 ≤ p.bits ∧ p.bits < 2 ^ 53 ∧
      p.bits * p.den ≤ p.num * 2 ^ 53 + d ∧ p.num * 2 ^ 53 ≤ p.bits * p.den + d ∧ 0 < p.num)
    ⟨0, by decide⟩ ⟨2, by decide⟩ ⟨8, by decide⟩ ⟨8, by decide⟩ p

/-- Up to `2 ^ 44` samples the rank is the fraction of them, rounded up. -/
theorem rank_eq {p : Fraction} (hp : p ∈ percentiles) {total : ℕ} (htotal : 1 ≤ total)
    (hmany : total ≤ 2 ^ 44) :
    p.num * total ≤ p.den * p.rank total ∧ p.den * p.rank total < p.num * total + p.den := by
  obtain ⟨d, hden, hden', hd, hdb, hhalf, hbits, hup, hdown, hnum⟩ := near_of_mem hp
  have hself : Binary64.round total = total := Binary64.round_eq_self (by omega)
  obtain ⟨q, hq⟩ : ∃ q, (p.num * total + (p.den - 1)) / p.den = q := ⟨_, rfl⟩
  have hdiv := Nat.div_add_mod (p.num * total + (p.den - 1)) p.den
  have hmod := Nat.mod_lt (p.num * total + (p.den - 1)) hden
  rw [hq] at hdiv
  have hlo : p.num * total ≤ p.den * q := by omega
  have hhi : p.den * q < p.num * total + p.den := by omega
  have hq1 : 1 ≤ q := by
    have := Nat.mul_pos hnum htotal
    rcases Nat.eq_zero_or_pos q with rfl | hpos
    · omega
    · exact hpos
  obtain ⟨hle, hlt⟩ :=
    round_mul_near hden hden' hd hdb hhalf hbits hup hdown hmany hlo hhi
  have hceil : (Binary64.round (total * p.bits) + (2 ^ 53 - 1)) / 2 ^ 53 = q :=
    ceil_eq (by decide) hle hlt
  have hrank : p.rank total = q := by
    rw [rank, hself, hceil, Nat.max_eq_left hq1]
  rw [hrank]
  exact ⟨hlo, hhi⟩

end Fraction

/-! ### Recording and reading -/

/-- A distribution of values. -/
structure Histogram where
  buckets : List ℕ
  count : ℕ
  sum : ℕ
  max : ℕ

/-- A distribution at one instant. -/
structure HistogramSnapshot where
  count : ℕ
  sum : ℕ
  max : ℕ
  percentiles : List ℕ

/-- The bucket in which the count of the values seen reaches the rank. -/
def seek (rank : ℕ) : List ℕ → ℕ → ℕ → ℕ
  | [], _, _ => bucketUpperBound (bucketCount - 1)
  | count :: rest, index, seen =>
    if rank ≤ seen + count then bucketUpperBound index
    else seek rank rest (index + 1) (seen + count)

/-- The value at a fraction of the distribution, or zero when nothing has been recorded. -/
def percentileOf (buckets : List ℕ) (total : ℕ) (p : Fraction) : ℕ :=
  if total = 0 then 0 else seek (p.rank total) buckets 0 0

namespace Histogram

/-- An empty histogram. -/
def new : Histogram := ⟨List.replicate bucketCount 0, 0, 0, 0⟩

/-- Records one value; the counters wrap. -/
def record (h : Histogram) (value : ℕ) : Histogram where
  buckets := h.buckets.modify (bucketIndex value) fun n => (n + 1) % 2 ^ 64
  count := (h.count + 1) % 2 ^ 64
  sum := (h.sum + value) % 2 ^ 64
  max := Max.max h.max value

/-- A point-in-time reading. -/
def snapshot (h : Histogram) : HistogramSnapshot :=
  let total := h.buckets.sum % 2 ^ 64
  ⟨total, h.sum, h.max, percentiles.map (percentileOf h.buckets total)⟩

/-- The histogram of some samples, in the order they were recorded. -/
def ofSamples (samples : List ℕ) : Histogram := samples.foldl record new

end Histogram

section Counts

variable {samples : List ℕ}

/-- How many samples a bucket has. -/
def inBucket (samples : List ℕ) (index : ℕ) : ℕ :=
  samples.countP fun s => bucketIndex s = index

/-- How many samples are in the buckets before this one. -/
def before (samples : List ℕ) (index : ℕ) : ℕ := samples.countP fun s => bucketIndex s < index

theorem before_zero : before samples 0 = 0 := by
  simp [before]

theorem before_succ (index : ℕ) :
    before samples (index + 1) = before samples index + inBucket samples index := by
  induction samples with
  | nil => rfl
  | cons s samples ih =>
    simp only [before, inBucket, countP_cons, decide_eq_true_eq] at ih ⊢
    split_ifs <;> omega

theorem before_bucketCount (h : ∀ s ∈ samples, s < 2 ^ 64) :
    before samples bucketCount = samples.length := by
  rw [before, countP_eq_length]
  intro s hs
  exact decide_eq_true (bucketFits (h s hs)).index_lt

/-- The buckets count the samples. -/
theorem buckets_ofSamples (hmany : samples.length < 2 ^ 64) :
    (Histogram.ofSamples samples).buckets =
      (List.range bucketCount).map (inBucket samples) := by
  induction samples using List.reverseRecOn with
  | nil =>
    apply ext_getElem
    · simp [Histogram.ofSamples, Histogram.new]
    · intro i h₁ h₂
      simp [Histogram.ofSamples, Histogram.new, inBucket]
  | append_singleton samples s ih =>
    rw [length_append, length_singleton] at hmany
    have hcount : ∀ index, inBucket samples index ≤ samples.length := fun index =>
      countP_le_length
    rw [Histogram.ofSamples, foldl_append, foldl_cons, foldl_nil,
      ← Histogram.ofSamples, Histogram.record, ih (by omega)]
    apply ext_getElem
    · simp
    · intro i h₁ h₂
      have hi := hcount i
      rw [getElem_modify, getElem_map, getElem_map, getElem_range]
      simp only [inBucket, countP_append, countP_cons, countP_nil,
        decide_eq_true_eq] at hi ⊢
      split_ifs
      · exact Nat.mod_eq_of_lt (by omega)
      · rfl

theorem sum_inBucket (n : ℕ) : ((List.range n).map (inBucket samples)).sum = before samples n := by
  induction n with
  | zero => exact before_zero.symm
  | succ n ih => rw [range_succ, map_append, sum_append, ih, before_succ]; simp

/-- The loop stops at the first bucket in which the count reaches the rank. -/
theorem seek_range' {rank : ℕ} (n index : ℕ) (hnot : before samples index < rank)
    (hreach : rank ≤ before samples (index + n)) :
    ∃ i, seek rank ((List.range' index n).map (inBucket samples)) index (before samples index) =
        bucketUpperBound i ∧ before samples i < rank ∧ rank ≤ before samples (i + 1) := by
  induction n generalizing index with
  | zero =>
    rw [Nat.add_zero] at hreach
    omega
  | succ n ih =>
    rw [range'_succ, map_cons, seek, ← before_succ]
    split_ifs with hhere
    · exact ⟨index, rfl, hnot, hhere⟩
    · exact ih (index + 1) (not_le.1 hhere) (by rwa [Nat.add_assoc, Nat.add_comm 1])

/-- The value at a rank among the samples. -/
def IsAtRank (samples : List ℕ) (rank value : ℕ) : Prop :=
  IsLeast {x | rank ≤ samples.countP (· ≤ x)} value

/-- The true percentile: the least value with that fraction of the samples up to it. -/
def IsPercentile (samples : List ℕ) (p : Fraction) (value : ℕ) : Prop :=
  IsLeast {x | p.num * samples.length ≤ p.den * samples.countP (· ≤ x)} value

/-- The value at the rank is in the bucket in which the count reaches the rank. -/
theorem exists_isAtRank (hsamples : ∀ s ∈ samples, s < 2 ^ 64) {rank i : ℕ}
    (hnot : before samples i < rank) (hreach : rank ≤ before samples (i + 1)) :
    ∃ x, IsAtRank samples rank x ∧ x ≤ bucketUpperBound i ∧ 16 * bucketUpperBound i ≤ 17 * x := by
  -- the bucket has a sample, whose upper bound it is
  obtain ⟨s, hs, rfl⟩ : ∃ s ∈ samples, bucketIndex s = i := by
    rw [before_succ] at hreach
    have hpos : 0 < inBucket samples i := by omega
    obtain ⟨s, hs, hindex⟩ := countP_pos_iff.1 hpos
    exact ⟨s, hs, of_decide_eq_true hindex⟩
  obtain ⟨hub, hbucket⟩ := (bucketFits (hsamples s hs)).isGreatest.1
  have hbound : rank ≤ samples.countP (· ≤ bucketUpperBound (bucketIndex s)) := by
    refine hreach.trans (countP_mono_left fun other hother h => decide_eq_true ?_)
    have hother' := Nat.le_of_lt_succ (of_decide_eq_true h)
    by_contra hgt
    have hmono := bucketIndex_mono (not_le.1 hgt).le
    rw [hbucket] at hmono
    exact hgt ((bucketFits (hsamples s hs)).isGreatest.2
      ⟨hsamples other hother, le_antisymm hother' hmono⟩)
  have hexists : ∃ x, rank ≤ samples.countP (· ≤ x) := ⟨_, hbound⟩
  have hleast : IsAtRank samples rank (Nat.find hexists) :=
    ⟨Nat.find_spec hexists, fun _ h => Nat.find_min' hexists h⟩
  refine ⟨Nat.find hexists, hleast, hleast.2 hbound, ?_⟩
  have hle := hleast.2 hbound
  have hindex : bucketIndex (Nat.find hexists) = bucketIndex s := by
    apply le_antisymm
    · rw [← hbucket]
      exact bucketIndex_mono hle
    · by_contra hlt
      have hfew : samples.countP (· ≤ Nat.find hexists) ≤ before samples (bucketIndex s) :=
        countP_mono_left fun other _ h => decide_eq_true
          ((bucketIndex_mono (of_decide_eq_true h)).trans_lt (not_le.1 hlt))
      have := hleast.1
      rw [Set.mem_ofPred_eq] at this
      omega
  have hnear := (bucketFits (hle.trans_lt hub)).near
  rwa [hindex] at hnear

/-- What is reported of a fraction of the samples. -/
theorem exists_reported (hsamples : ∀ s ∈ samples, s < 2 ^ 64) (hmany : samples.length < 2 ^ 64)
    (hne : samples ≠ []) {p : Fraction} (hp : p ∈ percentiles) :
    ∃ x, IsAtRank samples (p.rank samples.length) x ∧
      x ≤ percentileOf (Histogram.ofSamples samples).buckets samples.length p ∧
      16 * percentileOf (Histogram.ofSamples samples).buckets samples.length p ≤ 17 * x := by
  have hpos := length_pos_iff.2 hne
  have hreach : p.rank samples.length ≤ before samples (0 + bucketCount) := by
    rw [Nat.zero_add, before_bucketCount hsamples]
    exact Fraction.rank_le hp hpos
  have hstart : before samples 0 < p.rank samples.length := by
    rw [before_zero]
    exact p.rank_pos _
  obtain ⟨i, hseek, hbefore, hafter⟩ := seek_range' bucketCount 0 hstart hreach
  rw [before_zero, ← range_eq_range'] at hseek
  have hreported : percentileOf (Histogram.ofSamples samples).buckets samples.length p =
      bucketUpperBound i := by
    rw [percentileOf, if_neg hpos.ne', buckets_ofSamples hmany, hseek]
  rw [hreported]
  exact exists_isAtRank hsamples hbefore hafter

/-- Up to `2 ^ 44` samples the value at the rank is the percentile. -/
theorem IsAtRank.isPercentile {p : Fraction} (hp : p ∈ percentiles) (hne : samples ≠ [])
    (hmany : samples.length ≤ 2 ^ 44) {x : ℕ} (h : IsAtRank samples (p.rank samples.length) x) :
    IsPercentile samples p x := by
  obtain ⟨hlo, hhi⟩ := Fraction.rank_eq hp (length_pos_iff.2 hne) hmany
  have hset : {x | p.num * samples.length ≤ p.den * samples.countP (· ≤ x)} =
      {x | p.rank samples.length ≤ samples.countP (· ≤ x)} := by
    ext y
    constructor
    · intro hy
      by_contra hlt
      have := Nat.mul_le_mul_left p.den (Nat.succ_le_of_lt (not_le.1 hlt))
      rw [Nat.mul_succ] at this
      rw [Set.mem_ofPred_eq] at hy
      omega
    · intro hy
      exact hlo.trans (Nat.mul_le_mul_left _ hy)
  rw [IsPercentile, hset]
  exact h

end Counts

/-- The percentiles that are reported of some samples. -/
def reported (samples : List UInt64) : List ℕ :=
  (Histogram.ofSamples (samples.map UInt64.toNat)).snapshot.percentiles

theorem reported_eq {samples : List UInt64} (hmany : samples.length < 2 ^ 64) :
    reported samples = percentiles.map (percentileOf
      (Histogram.ofSamples (samples.map UInt64.toNat)).buckets samples.length) := by
  have hlen : (samples.map UInt64.toNat).length = samples.length := length_map _
  have hlt : ∀ s ∈ samples.map UInt64.toNat, s < 2 ^ 64 := by
    intro s hs
    obtain ⟨v, -, rfl⟩ := mem_map.1 hs
    exact v.toNat_lt
  rw [reported, Histogram.snapshot, buckets_ofSamples (by omega), sum_inBucket,
    before_bucketCount hlt, hlen, Nat.mod_eq_of_lt hmany]

/-- **The accuracy of the histogram.** Every `u64` is in a bucket, larger ones in no earlier bucket,
and the upper bound of its bucket is the greatest value in it and at most a sixteenth above it, with
no overflow.  Of every list of samples each reported percentile is at least the value at the rank
that the code computes and at most a sixteenth above it, and up to `2 ^ 44` samples this value is
the true percentile. -/
theorem histogram_accurate :
    (∀ value : UInt64, BucketFits value.toNat ∧ ShiftsFit value.toNat) ∧
      (∀ value other : UInt64, value ≤ other →
        bucketIndex value.toNat ≤ bucketIndex other.toNat) ∧
      ∀ samples : List UInt64, samples ≠ [] → samples.length < 2 ^ 64 →
        List.Forall₂ (fun p r => ∃ x,
          IsAtRank (samples.map UInt64.toNat) (p.rank samples.length) x ∧ x ≤ r ∧ 16 * r ≤ 17 * x ∧
          (samples.length ≤ 2 ^ 44 → IsPercentile (samples.map UInt64.toNat) p x))
          percentiles (reported samples) := by
  refine ⟨fun value => ⟨bucketFits value.toNat_lt, shiftsFit value.toNat_lt⟩,
    fun value other h => bucketIndex_mono (UInt64.le_iff_toNat_le.1 h), ?_⟩
  intro samples hne hmany
  have hlen : (samples.map UInt64.toNat).length = samples.length := length_map _
  have hlt : ∀ s ∈ samples.map UInt64.toNat, s < 2 ^ 64 := by
    intro s hs
    obtain ⟨v, -, rfl⟩ := mem_map.1 hs
    exact v.toNat_lt
  have hne' : samples.map UInt64.toNat ≠ [] := by simpa using hne
  rw [reported_eq hmany, forall₂_map_right_iff, forall₂_same]
  intro p hp
  obtain ⟨x, hx, hle, hnear⟩ := exists_reported hlt (hlen ▸ hmany) hne' hp
  rw [hlen] at hx hle hnear
  refine ⟨x, hx, hle, hnear, fun hfew => ?_⟩
  exact IsAtRank.isPercentile hp hne' (hlen ▸ hfew) (hlen ▸ hx)

/-- Three samples. -/
theorem histogram_accurate_three :
    List.Forall₂ (fun p r => ∃ x, IsAtRank [5, 32, 40] (p.rank 3) x ∧ x ≤ r ∧ 16 * r ≤ 17 * x ∧
      (3 ≤ 2 ^ 44 → IsPercentile [5, 32, 40] p x)) percentiles (reported [5, 32, 40]) :=
  histogram_accurate.2.2 [5, 32, 40] (by decide) (by decide)

/-- Of the one sample 32, a percentile of 33 is reported. -/
theorem not_reported_le_max : ¬ ∀ samples : List UInt64, samples ≠ [] →
    ∀ r ∈ reported samples, r ≤ (Histogram.ofSamples (samples.map UInt64.toNat)).snapshot.max := by
  intro h
  have hmax : 33 ≤ 32 := h [32] (by decide) 33 (by decide +kernel)
  omega

end Cdm
