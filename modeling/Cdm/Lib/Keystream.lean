import Mathlib.Algebra.GroupWithZero.Nat
import Mathlib.Data.List.TakeDrop
import Mathlib.Data.Nat.Notation

/-!
# Chained keystreams

Data is masked in blocks of `n` bytes, each with a mask that is computed from the mask before it;
the last block may be shorter.
-/

namespace Keystream

open List

variable {next : List UInt8 → List UInt8} {n : ℕ}

/-- Masks the data block by block; `p` is the mask before the first block. -/
def mask (next : List UInt8 → List UInt8) (n : ℕ) [NeZero n] (p data : List UInt8) : List UInt8 :=
  if data = [] then [] else
    List.zipWith (· ^^^ ·) (data.take n) (next p) ++ mask next n (next p) (data.drop n)
termination_by data.length
decreasing_by
  have hpos : 0 < data.length := length_pos_iff.2 ‹_›
  have hn : n ≠ 0 := NeZero.ne n
  rw [length_drop]
  omega

theorem zipWith_xor_xor (data key : List UInt8) (h : data.length ≤ key.length) :
    List.zipWith (· ^^^ ·) (List.zipWith (· ^^^ ·) data key) key = data := by
  induction data generalizing key with
  | nil => rfl
  | cons b data ih =>
    cases key with
    | nil => cases h
    | cons k key =>
      have hb : b ^^^ k ^^^ k = b := by rw [UInt8.xor_assoc, UInt8.xor_self, UInt8.xor_zero]
      rw [zipWith_cons_cons, zipWith_cons_cons, hb,
        ih key (Nat.le_of_succ_le_succ h)]

variable [NeZero n]

@[simp] theorem mask_nil (p : List UInt8) : mask next n p [] = [] := by
  rw [mask, if_pos rfl]

theorem mask_of_ne_nil {p data : List UInt8} (h : data ≠ []) :
    mask next n p data =
      List.zipWith (· ^^^ ·) (data.take n) (next p) ++ mask next n (next p) (data.drop n) := by
  rw [mask, if_neg h]

/-- Masking keeps the length. -/
theorem length_mask (hnext : ∀ p, (next p).length = n) (p data : List UInt8) :
    (mask next n p data).length = data.length := by
  fun_induction mask next n p data with
  | case1 p => rfl
  | case2 p data hne ih =>
    rw [length_append, ih, length_zipWith, hnext, length_take, length_drop]
    omega

/-- A masked block is whole unless it is the last one. -/
theorem split_mask (hnext : ∀ p, (next p).length = n) (p data : List UInt8) :
    let block := List.zipWith (· ^^^ ·) (data.take n) (next p)
    let rest := mask next n (next p) (data.drop n)
    (block ++ rest).take n = block ∧ (block ++ rest).drop n = rest := by
  intro block rest
  have hblock : block.length = min n data.length := by
    simp only [block, length_zipWith, hnext, length_take]
    omega
  by_cases hfull : n ≤ data.length
  · have hlength : block.length = n := by omega
    exact ⟨take_left' hlength, drop_left' hlength⟩
  · have hrest : rest = [] := by
      have hdrop : data.drop n = [] := drop_of_length_le (by omega)
      simp only [rest, hdrop, mask_nil]
    rw [hrest, append_nil]
    exact ⟨take_of_length_le (by omega), drop_of_length_le (by omega)⟩

/-- **Masking twice.** The masks do not depend on the data, so the second masking undoes the first,
whatever the length of the last block. -/
theorem mask_mask (hnext : ∀ p, (next p).length = n) (p data : List UInt8) :
    mask next n p (mask next n p data) = data := by
  fun_induction mask next n p data with
  | case1 p => rw [mask_nil]
  | case2 p data hne ih =>
    obtain ⟨htake, hdrop⟩ := split_mask hnext p data
    have hmasked : List.zipWith (· ^^^ ·) (data.take n) (next p) ++
        mask next n (next p) (data.drop n) ≠ [] := by
      rw [← mask_of_ne_nil hne]
      intro h
      have hlength := length_mask hnext p data
      rw [h] at hlength
      exact hne (length_eq_zero_iff.1 hlength.symm)
    have hle : (data.take n).length ≤ (next p).length := by
      rw [hnext]
      exact length_take_le n data
    rw [mask_of_ne_nil hmasked, htake, hdrop, ih, zipWith_xor_xor _ _ hle, take_append_drop]

end Keystream
