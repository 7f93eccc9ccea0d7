import Mathlib.Data.List.Chain
import Cdm.Planner.Even

/-!
# What the even subdivision is worth

`TokenRange.split` promises the tokens of its range, cut into parts of nearly the same size.  Its
arithmetic wraps, and its comments say that it never does before the loop is over.

The count of the tokens saturates at `u128::MAX`, and the range of all `i128` has one token more:
its last token is in no part.  A part of more than half of the tokens is longer than an `i128`
counts, so that its end is found by an addition that wraps; it is the right one nevertheless.
-/

namespace Cdm

open List

namespace TokenRange

/-- How many tokens there are from one bound to the other. -/
def pairWidth (bounds : ℤ × ℤ) : ℤ := bounds.2 - bounds.1 + 1

/-- The parts of a subdivision: as many as are asked for, or one for each token; from the lower
bound of the range to its upper bound, each right behind the one before it; and of sizes that
differ by one at most. -/
structure SplitsEvenly (r : TokenRange) (n : ℕ) (parts : List TokenRange) : Prop where
  length : parts.length = Min.min n r.tokenCount
  first : parts.head?.map TokenRange.min = some r.min
  last : parts.getLast?.map TokenRange.max = some r.max
  contiguous : parts.IsChain fun part next => next.min = part.max + 1
  even : ∀ part ∈ parts, ∀ other ∈ parts,
    pairWidth (part.min, part.max) ≤ pairWidth (other.min, other.max) + 1

/-- An `i128`. -/
def InI128 (x : ℤ) : Prop := i128Min ≤ x ∧ x ≤ i128Max

/-- The exact sums that the additions of the loop are to give, but for the cursor behind the last
part. -/
def cursorSums (base remainder : ℕ) : (left index : ℕ) → (cursor : ℤ) → List ℤ
  | 0, _, _ => []
  | left + 1, index, cursor =>
    let span := base + if index < remainder then 1 else 0
    let sum := cursor + wrapI128 (span - 1)
    let last := wrapI128 sum
    sum :: ((if left = 0 then [] else [last + 1]) ++
      cursorSums base remainder left (index + 1) (wrapI128 (last + 1)))

/-- The sums of a subdivision into `n` parts. -/
def loopSums (r : TokenRange) (n : ℕ) : List ℤ :=
  let parts := Min.min n r.tokenCount
  cursorSums (r.tokenCount / parts) (r.tokenCount % parts) parts 0 r.min

/-- What the wrapping operations are to give: the difference that the count is taken of, and the
sums of the loop. -/
def wrappingSums (r : TokenRange) (n : ℕ) : List ℤ := (r.max - r.min) :: r.loopSums n

end TokenRange

/-! ### The parts -/

namespace EvenLoop

variable {base remainder left index : ℕ} {cursor stop : ℤ}

/-- The next part, with its size, and the loop over the rest. -/
theorem step_size (h : EvenLoop base remainder (left + 1) index cursor stop) :
    ∃ last, last = cursor + (base + if index < remainder then 1 else 0 : ℕ) - 1 ∧
      evenPieces base remainder (left + 1) index cursor =
        (cursor, last) :: evenPieces base remainder left (index + 1) (wrapI128 (last + 1)) ∧
      (left = 0 → last = stop) ∧
      (0 < left → wrapI128 (last + 1) = last + 1 ∧
        EvenLoop base remainder left (index + 1) (last + 1) stop) := by
  obtain ⟨last, -, -, heq, hlast, hrest⟩ := h.step
  refine ⟨last, ?_, heq, hlast, hrest⟩
  have hend := h.last_eq
  simp only [evenPieces, List.cons.injEq, Prod.mk.injEq, true_and] at heq
  exact heq.1.symm.trans hend

theorem head_pieces : ((evenPieces base remainder (left + 1) index cursor).head?).map Prod.fst =
    some cursor := rfl

/-- A part has `base` tokens, or one more. -/
theorem pairWidth_pieces (h : EvenLoop base remainder left index cursor stop) :
    ∀ p ∈ evenPieces base remainder left index cursor,
      (base : ℤ) ≤ TokenRange.pairWidth p ∧ TokenRange.pairWidth p ≤ base + 1 := by
  induction left generalizing index cursor with
  | zero => exact fun p hp => absurd hp not_mem_nil
  | succ left ih =>
    obtain ⟨last, hsize, heq, -, hrest⟩ := h.step_size
    intro p hp
    rw [heq] at hp
    rcases mem_cons.1 hp with rfl | hp
    · rw [TokenRange.pairWidth]
      dsimp only
      split_ifs at hsize <;> omega
    · rcases Nat.eq_zero_or_pos left with rfl | hleft
      · exact absurd hp not_mem_nil
      · obtain ⟨hwrap, hloop⟩ := hrest hleft
        rw [hwrap] at hp
        exact ih hloop p hp

/-- Each part starts behind the one before it. -/
theorem chain_pieces (h : EvenLoop base remainder left index cursor stop) :
    (evenPieces base remainder left index cursor).IsChain fun p q => q.1 = p.2 + 1 := by
  induction left generalizing index cursor with
  | zero => exact isChain_nil
  | succ left ih =>
    obtain ⟨last, -, heq, -, hrest⟩ := h.step_size
    rw [heq]
    rcases left with _ | left
    · exact isChain_singleton _
    · obtain ⟨hwrap, hloop⟩ := hrest (Nat.succ_pos left)
      have hchain := ih hloop
      rw [hwrap]
      rw [evenPieces] at hchain ⊢
      exact isChain_cons_cons.2 ⟨rfl, hchain⟩

/-- The last part ends where the loop is to stop. -/
theorem last_pieces (h : EvenLoop base remainder (left + 1) index cursor stop) :
    ((evenPieces base remainder (left + 1) index cursor).getLast?).map Prod.snd = some stop := by
  induction left generalizing index cursor with
  | zero =>
    obtain ⟨last, -, heq, hlast, -⟩ := h.step_size
    rw [heq, hlast rfl]
    rfl
  | succ left ih =>
    obtain ⟨last, -, heq, -, hrest⟩ := h.step_size
    obtain ⟨hwrap, hloop⟩ := hrest (Nat.succ_pos left)
    have hlast := ih hloop
    rw [heq, hwrap]
    rw [evenPieces] at hlast ⊢
    rwa [getLast?_cons_cons]

/-! ### The sums -/

/-- No sum leaves the `i128` if no part is longer than an `i128` counts. -/
theorem inI128_cursorSums (h : EvenLoop base remainder left index cursor stop)
    (hsize : (base + if index < remainder then 1 else 0 : ℕ) ≤ 2 ^ 127) :
    ∀ x ∈ TokenRange.cursorSums base remainder left index cursor, TokenRange.InI128 x := by
  induction left generalizing index cursor with
  | zero => exact fun x hx => absurd hx not_mem_nil
  | succ left ih =>
    obtain ⟨last, hlast, heq, -, hrest⟩ := h.step_size
    have hbase := h.base_pos
    have hmin := h.i128Min_le
    have hmax := h.le_i128Max
    have hends := h.ends
    rw [tokensLeft_succ] at hends
    have hspan : wrapI128 (((base + if index < remainder then 1 else 0 : ℕ) : ℤ) - 1) =
        ((base + if index < remainder then 1 else 0 : ℕ) : ℤ) - 1 := by
      exact wrapI128_of_mem (by unfold i128Min; omega) (by unfold i128Max; omega)
    have hend := h.last_eq
    rw [hspan] at hend
    have hsum : cursor + (((base + if index < remainder then 1 else 0 : ℕ) : ℤ) - 1) = last := by
      omega
    have hinside : TokenRange.InI128 last := ⟨by omega, by omega⟩
    intro x hx
    rw [TokenRange.cursorSums] at hx
    simp only [hspan, hsum] at hx
    have hwrapped : wrapI128 last = last := wrapI128_of_mem hinside.1 hinside.2
    rw [hwrapped] at hx
    rcases mem_cons.1 hx with rfl | hx
    · exact hinside
    rcases left with _ | left
    · exact absurd hx not_mem_nil
    obtain ⟨hwrap, hloop⟩ := hrest (Nat.succ_pos left)
    rw [if_neg (Nat.succ_ne_zero left), hwrap] at hx
    rcases mem_cons.1 hx with rfl | hx
    · have hrange := hloop.i128Min_le
      have hleft := (hloop.bounds _ (mem_cons_self ..)).1
      have hle := (hloop.bounds _ (mem_cons_self ..)).2
      exact ⟨hrange, by omega⟩
    · refine ih hloop ?_ x hx
      split_ifs at hsize ⊢ <;> omega

end EvenLoop

/-! ### The subdivision -/

namespace TokenRange

variable {r : TokenRange} {n : ℕ}

/-- A subdivision into at least one part, and the loop that makes it. -/
theorem split_eq_ok (r : TokenRange) (hn : 1 ≤ n) :
    ∃ parts, r.split n = .ok parts ∧
      parts.map (fun part => (part.min, part.max)) =
        evenPieces (r.tokenCount / Min.min n r.tokenCount)
          (r.tokenCount % Min.min n r.tokenCount) (Min.min n r.tokenCount) 0 r.min := by
  have hne : n ≠ 0 := by omega
  unfold split
  rw [dif_neg hne]
  refine ⟨_, rfl, ?_⟩
  rw [map_pmap]
  exact (pmap_eq_map _).trans (map_id' _)

theorem min_parts_pos (r : TokenRange) (hn : 1 ≤ n) : 0 < Min.min n r.tokenCount :=
  lt_min hn r.tokenCount_pos

/-- The parts are what they should be, but for where the last one ends. -/
theorem split_parts {parts : List TokenRange} (hn : 1 ≤ n) (h : r.split n = .ok parts) :
    parts.length = Min.min n r.tokenCount ∧ parts.head?.map TokenRange.min = some r.min ∧
      parts.getLast?.map TokenRange.max = some (r.min + r.tokenCount - 1) ∧
      (parts.IsChain fun part next => next.min = part.max + 1) ∧
      ∀ part ∈ parts, ∀ other ∈ parts,
        pairWidth (part.min, part.max) ≤ pairWidth (other.min, other.max) + 1 := by
  obtain ⟨parts', hsplit, hpieces⟩ := r.split_eq_ok hn
  cases h.symm.trans hsplit
  have hloop := r.evenLoop (r.min_parts_pos hn) (min_le_right _ _)
  obtain ⟨left, hleft⟩ := Nat.exists_eq_succ_of_ne_zero (r.min_parts_pos hn).ne'
  rw [hleft] at hpieces hloop
  refine ⟨?_, ?_, ?_, ?_, ?_⟩
  · have hlength := congrArg List.length hpieces
    rw [length_map, length_evenPieces] at hlength
    rw [hlength, hleft]
  · have hhead : ((evenPieces (r.tokenCount / left.succ) (r.tokenCount % left.succ) left.succ 0
        r.min).head?).map Prod.fst = some r.min := EvenLoop.head_pieces
    rwa [← hpieces, head?_map, Option.map_map] at hhead
  · have hlast := hloop.last_pieces
    rwa [← hpieces, getLast?_map, Option.map_map] at hlast
  · have hchain := hloop.chain_pieces
    rwa [← hpieces, isChain_map] at hchain
  · intro part hpart other hother
    have hwidth := hloop.pairWidth_pieces
    rw [← hpieces] at hwidth
    have hleft := hwidth _ (mem_map_of_mem hpart)
    have hright := hwidth _ (mem_map_of_mem hother)
    exact hleft.2.trans (Int.add_le_add_right hright.1 1)

/-- A range is subdivided as it should be unless it is the range of all `i128`. -/
theorem splitsEvenly_iff (hn : 1 ≤ n) :
    (∃ parts, r.split n = .ok parts ∧ r.SplitsEvenly n parts) ↔ r.max - r.min < 2 ^ 128 - 1 := by
  obtain ⟨parts, hsplit, -⟩ := r.split_eq_ok hn
  obtain ⟨hlength, hfirst, hlast, hchain, heven⟩ := split_parts hn hsplit
  have hcount := r.tokenCount_eq
  have hle := r.min_le_max
  constructor
  · rintro ⟨parts', hsplit', hparts⟩
    cases hsplit'.symm.trans hsplit
    have hmax := Option.some.inj (hlast.symm.trans hparts.last)
    omega
  · intro hwidth
    have hmax : r.min + r.tokenCount - 1 = r.max := by omega
    exact ⟨parts, hsplit, hlength, hfirst, hmax ▸ hlast, hchain, heven⟩

/-- A single part of more than half of the tokens has its end found by an addition that wraps. -/
theorem loopSums_one (hwidth : 2 ^ 127 ≤ r.max - r.min) :
    ∃ x ∈ r.loopSums 1, ¬ InI128 x := by
  have hcount := r.tokenCount_eq
  have hpos := r.tokenCount_pos
  have hmax := r.le_i128Max
  have hone : Min.min 1 r.tokenCount = 1 := min_eq_left hpos
  have hwrap : wrapI128 ((r.tokenCount : ℤ) - 1) = r.tokenCount - 1 - 2 ^ 128 := by
    rw [wrapI128, ← Int.sub_bmod_right]
    exact Int.bmod_eq_of_le (by omega) (by omega)
  refine ⟨r.min + wrapI128 ((r.tokenCount : ℤ) - 1), ?_, ?_⟩
  · rw [loopSums, hone, Nat.div_one, Nat.mod_one, cursorSums]
    simp
  · rw [hwrap, InI128, i128Min]
    unfold i128Max at hmax
    omega

/-- No part is longer than an `i128` counts, if there are two of them or half of the tokens. -/
theorem span_le (hn : 1 ≤ n) (h : 2 ≤ n ∨ r.max - r.min < 2 ^ 127) :
    (r.tokenCount / Min.min n r.tokenCount +
      if 0 < r.tokenCount % Min.min n r.tokenCount then 1 else 0 : ℕ) ≤ 2 ^ 127 := by
  have hcount := r.tokenCount_eq
  have hle := r.min_le_max
  have hpos := r.min_parts_pos hn
  have hdiv := Nat.div_add_mod r.tokenCount (Min.min n r.tokenCount)
  generalize hparts : Min.min n r.tokenCount = parts at *
  generalize r.tokenCount / parts = base at *
  have hhalf : r.tokenCount ≤ 2 ^ 127 ∨ 2 ≤ parts := by omega
  rcases hhalf with hhalf | htwo
  · have hbase : base ≤ parts * base := Nat.le_mul_of_pos_left _ hpos
    split_ifs <;> omega
  · have hbase : 2 * base ≤ parts * base := Nat.mul_le_mul_right _ htwo
    split_ifs <;> omega

/-- The additions of the loop do not wrap if there are two parts, or half of the tokens. -/
theorem inI128_loopSums_iff (hn : 1 ≤ n) :
    (∀ x ∈ r.loopSums n, InI128 x) ↔ 2 ≤ n ∨ r.max - r.min < 2 ^ 127 := by
  constructor
  · intro h
    by_contra hnot
    rw [not_or, not_le, not_lt] at hnot
    obtain rfl : n = 1 := by omega
    obtain ⟨x, hx, hwraps⟩ := loopSums_one hnot.2
    exact hwraps (h x hx)
  · intro h
    exact (r.evenLoop (r.min_parts_pos hn) (min_le_right _ _)).inI128_cursorSums (span_le hn h)

/-- **The even subdivision.**  It is as it should be for every range but that of all `i128`, and no
operation wraps exactly for the ranges whose bounds are an `i128` apart; the additions of its loop
wrap only for a single part that is longer. -/
theorem split_evenly_iff (r : TokenRange) {n : ℕ} (hn : 1 ≤ n) :
    (((∃ parts, r.split n = .ok parts ∧ r.SplitsEvenly n parts) ∧
        ∀ x ∈ r.wrappingSums n, InI128 x) ↔ r.max - r.min ≤ i128Max) ∧
      ((∃ parts, r.split n = .ok parts ∧ r.SplitsEvenly n parts) ↔
        r.max - r.min < 2 ^ 128 - 1) ∧
      ((∀ x ∈ r.loopSums n, InI128 x) ↔ 2 ≤ n ∨ r.max - r.min < 2 ^ 127) := by
  refine ⟨?_, splitsEvenly_iff hn, inI128_loopSums_iff hn⟩
  rw [splitsEvenly_iff hn, wrappingSums, forall_mem_cons, inI128_loopSums_iff hn, InI128]
  have hle := r.min_le_max
  unfold i128Min i128Max
  omega

/-- Ten tokens into four parts. -/
theorem split_evenly_ten :
    ∃ parts, (⟨1, 10, by decide, by decide, by decide⟩ : TokenRange).split 4 = .ok parts ∧
      SplitsEvenly ⟨1, 10, by decide, by decide, by decide⟩ 4 parts :=
  (split_evenly_iff ⟨1, 10, by decide, by decide, by decide⟩ (by decide)).2.1.2 (by decide)

/-- The last token of all is in no part of the range of all. -/
theorem not_split_evenly : ¬ ∀ (r : TokenRange) (n : ℕ), 1 ≤ n →
    (∃ parts, r.split n = .ok parts ∧ r.SplitsEvenly n parts) ∧
      ∀ x ∈ r.wrappingSums n, InI128 x := by
  intro h
  obtain ⟨hparts, -⟩ := h ⟨i128Min, i128Max, by decide, by decide, by decide⟩ 2 (by decide)
  have hwidth := (splitsEvenly_iff (by decide)).1 hparts
  revert hwidth
  decide

end TokenRange

end Cdm
