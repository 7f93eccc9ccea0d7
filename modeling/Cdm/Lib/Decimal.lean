import Cdm.Lib.Words

/-!
# Decimal digits

Numbers written with a fixed number of digits, and read back.
-/

namespace Decimal

open Text
open List

/-- The digits of a number, with zeros in front up to the width. -/
def padded (width n : ℕ) : List Char :=
  List.replicate (width - (Nat.toDigits 10 n).length) '0' ++ Nat.toDigits 10 n

/-- A number with its sign. -/
def signed (n : ℤ) : List Char :=
  if n < 0 then '-' :: Nat.toDigits 10 n.natAbs else Nat.toDigits 10 n.natAbs

/-- The last digits of a number, as many as the width. -/
def digits : ℕ → ℕ → List Char
  | 0, _ => []
  | width + 1, n => digits width (n / 10) ++ [Nat.digitChar (n % 10)]

@[simp] theorem length_digits (width n : ℕ) : (digits width n).length = width := by
  induction width generalizing n with
  | zero => rfl
  | succ width ih => rw [digits, length_append, ih, length_singleton]

theorem isDigit_of_mem_digits {width n : ℕ} {c : Char} (h : c ∈ digits width n) :
    c.isDigit = true := by
  induction width generalizing n with
  | zero => cases h
  | succ width ih =>
    rw [digits, mem_append, mem_singleton] at h
    rcases h with h | rfl
    · exact ih h
    · rw [Nat.isDigit_digitChar, decide_eq_true_eq]
      exact Nat.mod_lt _ (by decide)

theorem isDigit_of_mem_padded {width n : ℕ} {c : Char} (h : c ∈ padded width n) :
    c.isDigit = true := by
  rw [padded, mem_append] at h
  rcases h with h | h
  · rw [eq_of_mem_replicate h]
    rfl
  · exact Nat.isDigit_of_mem_toDigits (by decide) (by decide) h

theorem ofDigitChars_padded (width n : ℕ) : Nat.ofDigitChars 10 (padded width n) 0 = n := by
  rw [padded, Nat.ofDigitChars_append, Nat.ofDigitChars_replicate_zero, Nat.mul_zero,
    Nat.ofDigitChars_ten_toDigits]

theorem ofDigitChars_digits (width n : ℕ) :
    Nat.ofDigitChars 10 (digits width n) 0 = n % 10 ^ width := by
  induction width generalizing n with
  | zero => rw [Nat.pow_zero, Nat.mod_one]; rfl
  | succ width ih =>
    rw [digits, Nat.ofDigitChars_append, ih,
      Nat.ofDigitChars_cons_digitChar_of_lt_ten (Nat.mod_lt _ (by decide)), Nat.ofDigitChars_nil,
      Nat.pow_succ', Nat.mod_mul, Nat.add_comm]

theorem digits_zero (width : ℕ) : digits width 0 = List.replicate width '0' := by
  induction width with
  | zero => rfl
  | succ width ih => rw [digits, Nat.zero_div, ih, replicate_succ']; rfl

/-- A number that fits is written with exactly as many digits as the width. -/
theorem padded_eq_digits {width n : ℕ} (hwidth : 1 ≤ width) (h : n < 10 ^ width) :
    padded width n = digits width n := by
  induction width generalizing n with
  | zero => omega
  | succ width ih =>
    rw [digits, padded, Nat.toDigits_eq_if (by decide)]
    split_ifs with hn
    · rw [length_singleton, Nat.add_sub_cancel, Nat.div_eq_of_lt hn, Nat.mod_eq_of_lt hn,
        digits_zero]
    · have hdiv : n / 10 < 10 ^ width := by
        rw [Nat.pow_succ] at h
        omega
      have hpos : 1 ≤ width := by
        by_contra hzero
        obtain rfl : width = 0 := by omega
        rw [Nat.zero_add, Nat.pow_one] at h
        exact hn h
      rw [← ih hpos hdiv, padded, length_append, length_singleton, Nat.add_sub_add_right,
        append_assoc]

theorem length_padded {width n : ℕ} (hwidth : 1 ≤ width) (h : n < 10 ^ width) :
    (padded width n).length = width := by
  rw [padded_eq_digits hwidth h, length_digits]

theorem length_padded_le {width most n : ℕ} (hmost : width ≤ most) (hpos : 0 < most)
    (h : n < 10 ^ most) : (padded width n).length ≤ most := by
  have hlength := (Nat.length_toDigits_le_iff (b := 10) (by decide) hpos).2 h
  rw [padded, length_append, length_replicate]
  omega

theorem lt_length_padded {most n : ℕ} (hpos : 0 < most) (h : 10 ^ most ≤ n) (width : ℕ) :
    most < (padded width n).length := by
  have hlength := mt (Nat.length_toDigits_le_iff (b := 10) (by decide) hpos).1 (not_lt.2 h)
  rw [padded, length_append]
  omega

/-- A number that does not fit is written as it is. -/
theorem padded_of_le {width n : ℕ} (h : 10 ^ width ≤ n) : padded width n = Nat.toDigits 10 n := by
  have hlength : width ≤ (Nat.toDigits 10 n).length := by
    rcases Nat.eq_zero_or_pos width with rfl | hwidth
    · exact Nat.zero_le _
    · have hmore := lt_length_padded hwidth h 0
      rw [padded, Nat.zero_sub] at hmore
      exact hmore.le
  rw [padded, Nat.sub_eq_zero_of_le hlength, replicate_zero, nil_append]

theorem padded_ne_nil (width n : ℕ) : padded width n ≠ [] := fun h =>
  Nat.toDigits_ne_nil (append_eq_nil_iff.1 h).2

theorem padded_inj {width m n : ℕ} : padded width m = padded width n ↔ m = n := by
  refine ⟨fun h => ?_, fun h => h ▸ rfl⟩
  rw [← ofDigitChars_padded width m, h, ofDigitChars_padded]

/-- The first digits are those of a quotient. -/
theorem take_digits (first others n : ℕ) :
    (digits (first + others) n).take first = digits first (n / 10 ^ others) := by
  induction others generalizing n with
  | zero => rw [Nat.add_zero, Nat.pow_zero, Nat.div_one, take_of_length_le (by simp)]
  | succ others ih =>
    rw [← Nat.add_assoc, digits, take_append_of_le_length (by simp), ih, Nat.pow_succ',
      Nat.div_div_eq_div_mul]

/-- Zeros behind a number are those of a product. -/
theorem digits_mul_pow (first others n : ℕ) :
    digits (first + others) (n * 10 ^ others) = digits first n ++ List.replicate others '0' := by
  induction others with
  | zero => rw [Nat.add_zero, Nat.pow_zero, Nat.mul_one, replicate_zero, append_nil]
  | succ others ih =>
    rw [← Nat.add_assoc, digits, Nat.pow_succ, ← Nat.mul_assoc, Nat.mul_div_cancel _ (by decide),
      Nat.mul_mod_left, ih, append_assoc, replicate_succ']
    rfl

/-- A text of digits is read as its number, when that fits. -/
theorem parseI64_of_digits {s : List Char} (hne : s ≠ []) (hs : ∀ c ∈ s, c.isDigit = true) :
    parseI64 s =
      if Nat.ofDigitChars 10 s 0 < 2 ^ 63 then some (Nat.ofDigitChars 10 s 0 : ℤ) else none := by
  have hsign : splitSign s = (false, s) := by
    unfold splitSign
    split
    · exact absurd (hs _ mem_cons_self) (by decide)
    · exact absurd (hs _ mem_cons_self) (by decide)
    · rfl
  rw [parseI64, hsign]
  simp only [parseDigits, if_pos (And.intro hne (all_eq_true.2 hs)), Bool.false_eq_true,
    if_false]
  by_cases hfits : Nat.ofDigitChars 10 s 0 < 2 ^ 63
  · rw [if_pos hfits, if_pos (by omega)]
  · rw [if_neg hfits, if_neg (by omega)]

theorem ofDigitChars_lt {s : List Char} (hs : ∀ c ∈ s, c.isDigit = true) (init : ℕ) :
    Nat.ofDigitChars 10 s init < (init + 1) * 10 ^ s.length := by
  induction s generalizing init with
  | nil => rw [Nat.ofDigitChars_nil, length_nil, Nat.pow_zero]; omega
  | cons c cs ih =>
    rw [forall_mem_cons] at hs
    have hdigit : c.toNat - '0'.toNat < 10 := by
      have hc := hs.1
      simp only [Char.isDigit, Bool.and_eq_true, decide_eq_true_eq, ge_iff_le] at hc
      have hle : c.toNat ≤ 57 := hc.2
      have hzero : '0'.toNat = 48 := rfl
      omega
    have hcs := ih hs.2 (10 * init + (c.toNat - '0'.toNat))
    rw [Nat.ofDigitChars_cons, length_cons, Nat.pow_succ']
    refine hcs.trans_le ?_
    rw [← Nat.mul_assoc]
    exact Nat.mul_le_mul_right _ (by omega)

/-- A number has no more digits than its text has bytes. -/
theorem lt_of_parseU32 {s : List Char} {n : ℕ} (h : parseU32 s = some n) :
    n < 10 ^ utf8Len s := by
  have hlength : (withoutPlus s).length ≤ s.length := by
    unfold withoutPlus
    split
    · exact Nat.le_succ _
    · exact le_rfl
  rw [parseU32, parseDigits] at h
  split_ifs at h with hs
  dsimp only at h
  split_ifs at h
  cases h
  have hlt := ofDigitChars_lt (all_eq_true.1 hs.2) 0
  rw [Nat.zero_add, Nat.one_mul] at hlt
  exact hlt.trans_le (Nat.pow_le_pow_right (by decide)
    (hlength.trans (length_le_utf8Len s)))

theorem withoutPlus_of_digits {s : List Char} (hs : ∀ c ∈ s, c.isDigit = true) :
    withoutPlus s = s := by
  unfold withoutPlus
  split
  · exact absurd (hs _ mem_cons_self) (by decide)
  · rfl

theorem parseU32_of_digits {s : List Char} (hne : s ≠ []) (hs : ∀ c ∈ s, c.isDigit = true) :
    parseU32 s =
      if Nat.ofDigitChars 10 s 0 < 2 ^ 32 then some (Nat.ofDigitChars 10 s 0) else none := by
  have hdigits : parseDigits s = some (Nat.ofDigitChars 10 s 0) :=
    if_pos ⟨hne, all_eq_true.2 hs⟩
  rw [parseU32, withoutPlus_of_digits hs, hdigits]

theorem parseU32_padded (width n : ℕ) :
    parseU32 (padded width n) = if n < 2 ^ 32 then some n else none := by
  rw [parseU32_of_digits (padded_ne_nil _ _) fun c hc => isDigit_of_mem_padded hc,
    ofDigitChars_padded]

end Decimal
