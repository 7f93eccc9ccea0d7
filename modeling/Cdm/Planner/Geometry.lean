import Mathlib.Data.List.Chain
import Cdm.Planner.Bounds

/-!
# The geometry of a split

The parts of `splitRing` tile the range that is split: the first starts where the range does, each
starts one token after the last one ends, and the last ends where the range does.  There are as many
as parts of the chosen width fit, which is never more than were asked for.  A coverage below 100 only
moves their upper ends.

The widths reach `2 ^ 127 - 1`, so that a product with a percentage need not be an `i128`.
`splitRingChecked` is the splitter with every sum, difference and product checked; it never fails.
-/

namespace Cdm

open List TokenRange

/-! ### Tilings -/

/-- The ranges start at `lower`, each starts one token after the one before it ends, and the last
ends at `upper`. -/
structure Tiles (lower upper : ℤ) (ranges : List TokenRange) : Prop where
  first : ranges.head?.map TokenRange.min = some lower
  last : ranges.getLast?.map TokenRange.max = some upper
  next : ranges.IsChain fun r s => s.min = r.max + 1

namespace Tiles

variable {lower upper : ℤ} {r : TokenRange} {ranges : List TokenRange}

theorem singleton (hmin : r.min = lower) (hmax : r.max = upper) : Tiles lower upper [r] :=
  ⟨congrArg some hmin, congrArg some hmax, isChain_singleton r⟩

theorem ne_nil (h : Tiles lower upper ranges) : ranges ≠ [] := by
  rintro rfl
  cases h.first

theorem cons (hmin : r.min = lower) (h : Tiles (r.max + 1) upper ranges) :
    Tiles lower upper (r :: ranges) := by
  cases ranges with
  | nil => exact absurd rfl h.ne_nil
  | cons s ranges =>
    refine ⟨congrArg some hmin, ?_, isChain_cons_cons.2 ⟨Option.some.inj h.first, h.next⟩⟩
    rw [getLast?_cons_cons]
    exact h.last

/-- What is left of a tiling behind its first range. -/
theorem tail {s : TokenRange} (h : Tiles lower upper (r :: s :: ranges)) :
    Tiles (r.max + 1) upper (s :: ranges) := by
  obtain ⟨hnext, hchain⟩ := isChain_cons_cons.1 h.next
  refine ⟨congrArg some hnext, ?_, hchain⟩
  rw [← getLast?_cons_cons]
  exact h.last

/-- The ranges of a tiling lie between its ends. -/
theorem bounds (h : Tiles lower upper ranges) :
    ∀ r ∈ ranges, lower ≤ r.min ∧ r.max ≤ upper := by
  induction ranges generalizing lower with
  | nil => simp
  | cons r ranges ih =>
    have hmin : r.min = lower := Option.some.inj h.first
    have hr := r.min_le_max
    cases ranges with
    | nil =>
      have hmax : r.max = upper := Option.some.inj h.last
      intro s hs
      obtain rfl := mem_singleton.1 hs
      omega
    | cons s ranges =>
      have hrest := ih h.tail
      intro t ht
      rcases mem_cons.1 ht with rfl | ht
      · have := hrest s (mem_cons_self ..)
        have := s.min_le_max
        omega
      · have := hrest t ht
        omega

theorem ascending (h : Tiles lower upper ranges) :
    ranges.Pairwise fun r s => r.max < s.min := by
  induction ranges generalizing lower with
  | nil => exact List.Pairwise.nil
  | cons r ranges ih =>
    cases ranges with
    | nil => exact pairwise_singleton ..
    | cons s ranges =>
      refine pairwise_cons.2 ⟨?_, ih h.tail⟩
      intro t ht
      have := h.tail.bounds t ht
      omega

theorem covers (h : Tiles lower upper ranges) {t : ℤ} (h₁ : lower ≤ t) (h₂ : t ≤ upper) :
    Cover.Covers TokenRange.Mem ranges t := by
  induction ranges generalizing lower with
  | nil => exact absurd rfl h.ne_nil
  | cons r ranges ih =>
    have hmin : r.min = lower := Option.some.inj h.first
    cases ranges with
    | nil =>
      have hmax : r.max = upper := Option.some.inj h.last
      exact ⟨r, mem_singleton_self r, mem_iff.2 (by omega)⟩
    | cons s ranges =>
      rw [Cover.covers_cons]
      by_cases hr : t ≤ r.max
      · exact .inl (mem_iff.2 ⟨by omega, hr⟩)
      · exact .inr (ih h.tail (by omega))

/-- A tiling, and a range that starts one token after it ends. -/
theorem concat (h : Tiles lower upper ranges) (hnext : r.min = upper + 1) :
    Tiles lower r.max (ranges ++ [r]) := by
  induction ranges generalizing lower with
  | nil => exact absurd rfl h.ne_nil
  | cons s ranges ih =>
    have hmin : s.min = lower := Option.some.inj h.first
    cases ranges with
    | nil =>
      have hmax : s.max = upper := Option.some.inj h.last
      exact Tiles.cons hmin (Tiles.singleton (hmax ▸ hnext) rfl)
    | cons t ranges => exact Tiles.cons hmin (ih h.tail)

theorem apart (h : Tiles lower upper ranges) : Cover.Apart TokenRange.Mem ranges := by
  refine h.ascending.imp ?_
  intro r s hrs t hr hs
  rw [mem_iff] at hr hs
  omega

/-- Every token between the ends of a tiling lies in exactly one of its ranges. -/
theorem existsUnique (h : Tiles lower upper ranges) {t : ℤ} (h₁ : lower ≤ t) (h₂ : t ≤ upper) :
    ∃! r, r ∈ ranges ∧ r.Mem t :=
  h.apart.existsUnique (h.covers h₁ h₂)

end Tiles

/-! ### Coverage -/

/-- The quotient and the remainder of a width, scaled apart, are the width scaled. -/
theorem scaleByPercent_eq (width : ℤ) (percent : ℕ) :
    scaleByPercent width percent = width * percent / 100 := by
  have hwidth : width * percent = width % 100 * percent + 100 * (width / 100 * percent) := by
    calc width * percent = (width % 100 + 100 * (width / 100)) * percent := by
          rw [Int.emod_add_mul_ediv]
      _ = width % 100 * percent + 100 * (width / 100 * percent) := by ring
  rw [scaleByPercent, hwidth, Int.add_mul_ediv_left _ _ (by norm_num)]
  omega

theorem scaleByPercent_mono {width : ℤ} (hwidth : 0 ≤ width) {p q : ℕ} (h : p ≤ q) :
    scaleByPercent width p ≤ scaleByPercent width q := by
  rw [scaleByPercent_eq, scaleByPercent_eq]
  have hpq : (p : ℤ) ≤ q := by exact_mod_cast h
  exact Int.ediv_le_ediv (by norm_num) (by gcongr)

/-- A range at a coverage percentage, from its lower bound. -/
def TokenRange.shrink (r : TokenRange) (coverage : ℕ) (hcov : coverage ≤ 100) : TokenRange where
  min := r.min
  max := r.min + scaleByPercent (r.max - r.min) coverage
  min_le_max := by
    have := scaleByPercent_nonneg (sub_nonneg.2 r.min_le_max) coverage
    omega
  i128Min_le := r.i128Min_le
  le_i128Max := by
    have := scaleByPercent_le (sub_nonneg.2 r.min_le_max) hcov
    have := r.le_i128Max
    omega

section Loop

variable {size max : ℤ} {coverage : ℕ} {hsize : 0 < size} {hmax : max ≤ i128Max}
  {hcov : coverage ≤ 100}

theorem part_eq_shrink {curMin : ℤ} {hmin : i128Min ≤ curMin} {h : curMin ≤ max} :
    part size max coverage hsize hmax hcov curMin hmin h =
      (part size max 100 hsize hmax le_rfl curMin hmin h).shrink coverage hcov := by
  have hfull : (part size max 100 hsize hmax le_rfl curMin hmin h).max =
      (partEnd size max curMin).1 := part_max_full rfl
  refine TokenRange.ext rfl ?_
  show curMin + scaleByPercent ((partEnd size max curMin).1 - curMin) coverage =
    curMin + scaleByPercent ((part size max 100 hsize hmax le_rfl curMin hmin h).max - curMin)
      coverage
  rw [hfull]

theorem splitLoop_of_exhausted {curMin : ℤ} {hmin : i128Min ≤ curMin} (h : curMin ≤ max)
    (hx : (partEnd size max curMin).2 = true) :
    splitLoop size max coverage hsize hmax hcov curMin hmin =
      [part size max coverage hsize hmax hcov curMin hmin h] := by
  rw [splitLoop, dif_pos h]
  exact if_pos hx

theorem splitLoop_of_next {curMin next : ℤ} {hmin : i128Min ≤ curMin} (h : curMin ≤ max)
    (hx : ¬(partEnd size max curMin).2 = true)
    (hn : checkedAdd (partEnd size max curMin).1 1 = some next) :
    splitLoop size max coverage hsize hmax hcov curMin hmin =
      part size max coverage hsize hmax hcov curMin hmin h ::
        splitLoop size max coverage hsize hmax hcov next (checkedAdd_eq_some hn).2.1 := by
  rw [splitLoop, dif_pos h]
  refine (if_neg hx).trans ?_
  split
  · next next' hn' =>
    cases hn.symm.trans hn'
    rfl
  · next hn' => cases hn.symm.trans hn'

/-- The last part ends at the top of the type. -/
theorem splitLoop_of_top {curMin : ℤ} {hmin : i128Min ≤ curMin} (h : curMin ≤ max)
    (hx : ¬(partEnd size max curMin).2 = true)
    (hn : checkedAdd (partEnd size max curMin).1 1 = none) :
    splitLoop size max coverage hsize hmax hcov curMin hmin =
      [part size max coverage hsize hmax hcov curMin hmin h] := by
  rw [splitLoop, dif_pos h]
  refine (if_neg hx).trans ?_
  split
  · next next hn' => cases hn.symm.trans hn'
  · rfl

theorem splitLoop_of_lt {curMin : ℤ} {hmin : i128Min ≤ curMin} (h : ¬curMin ≤ max) :
    splitLoop size max coverage hsize hmax hcov curMin hmin = [] := by
  rw [splitLoop, dif_neg h]

/-- A coverage percentage shrinks each part, and nothing else. -/
theorem splitLoop_eq_map (curMin : ℤ) (hmin : i128Min ≤ curMin) :
    splitLoop size max coverage hsize hmax hcov curMin hmin =
      (splitLoop size max 100 hsize hmax le_rfl curMin hmin).map (·.shrink coverage hcov) := by
  fun_induction splitLoop size max 100 hsize hmax le_rfl curMin hmin with
  | case1 curMin hmin h piece hx =>
    rw [splitLoop_of_exhausted h hx, part_eq_shrink]
    rfl
  | case2 curMin hmin h piece hx next hn ih =>
    rw [splitLoop_of_next h hx hn, part_eq_shrink, ih]
    rfl
  | case3 curMin hmin h piece hx hn =>
    rw [splitLoop_of_top h hx hn, part_eq_shrink]
    rfl
  | case4 curMin hmin h =>
    rw [splitLoop_of_lt h]
    rfl

/-- A part that does not exhaust the range is of the chosen width. -/
theorem partEnd_of_not_exhausted {curMin : ℤ} (h : (partEnd size max curMin).2 = false) :
    (partEnd size max curMin).1 = curMin + size := by
  unfold partEnd at h ⊢
  cases hc : checkedAdd curMin size with
  | none =>
    rw [hc] at h
    simp at h
  | some c =>
    rw [hc] at h
    have := (checkedAdd_eq_some hc).1
    simp only at h ⊢
    split_ifs at h ⊢
    exact this

/-- A part that exhausts the range is no wider than the chosen width. -/
theorem sub_le_of_exhausted {curMin : ℤ} (hsize : 0 < size) (hmax : max ≤ i128Max)
    (hmin : i128Min ≤ curMin) (h : (partEnd size max curMin).2 = true) : max - curMin < size := by
  unfold partEnd at h
  cases hc : checkedAdd curMin size with
  | none =>
    unfold checkedAdd at hc
    split_ifs at hc
    omega
  | some c =>
    rw [hc] at h
    have := (checkedAdd_eq_some hc).1
    simp only at h
    split_ifs at h
    omega

/-- At full coverage the loop tiles what is left of the range. -/
theorem splitLoop_tiles (curMin : ℤ) (hmin : i128Min ≤ curMin) (h : curMin ≤ max) :
    Tiles curMin max (splitLoop size max 100 hsize hmax le_rfl curMin hmin) := by
  fun_induction splitLoop size max 100 hsize hmax le_rfl curMin hmin with
  | case1 curMin hmin h piece hx =>
    exact Tiles.singleton rfl ((part_max_full rfl).trans (partEnd_exhausted hx))
  | case2 curMin hmin h piece hx next hn ih =>
    have hnext := (checkedAdd_eq_some hn).1
    have hpiece : piece.max = (partEnd size max curMin).1 := part_max_full rfl
    have hb := partEnd_bounds hsize h
    by_cases hle : next ≤ max
    · refine Tiles.cons rfl ?_
      rw [hpiece, ← hnext]
      exact ih hle
    · -- the part ends with the range, and the loop is left
      rw [splitLoop_of_lt hle]
      exact Tiles.singleton rfl (by omega)
  | case3 curMin hmin h piece hx hn =>
    have hb := partEnd_bounds hsize h
    have htop := checkedAdd_one_eq_none (hmin.trans hb.1) hn
    have hpiece : piece.max = (partEnd size max curMin).1 := part_max_full rfl
    exact Tiles.singleton rfl (by omega)
  | case4 curMin hmin hlt => exact absurd h hlt

/-- There are as many parts as steps of the loop fit into what is left of the range. -/
theorem length_splitLoop (curMin : ℤ) (hmin : i128Min ≤ curMin) (h : curMin ≤ max) :
    ((splitLoop size max coverage hsize hmax hcov curMin hmin).length : ℤ) =
      (max - curMin) / (size + 1) + 1 := by
  fun_induction splitLoop size max coverage hsize hmax hcov curMin hmin with
  | case1 curMin hmin h piece hx =>
    have hlt := sub_le_of_exhausted hsize hmax hmin hx
    rw [Int.ediv_eq_zero_of_lt (by omega) (by omega)]
    rfl
  | case2 curMin hmin h piece hx next hn ih =>
    have hnext := (checkedAdd_eq_some hn).1
    have hend := partEnd_of_not_exhausted (by simpa using hx)
    by_cases hle : next ≤ max
    · have hstep : max - curMin = max - next + 1 * (size + 1) := by omega
      rw [length_cons, Nat.cast_succ, ih hle, hstep, Int.add_mul_ediv_right _ _ (by omega)]
    · rw [splitLoop_of_lt hle, Int.ediv_eq_zero_of_lt (by omega) (by omega)]
      rfl
  | case3 curMin hmin h piece hx hn =>
    have hb := partEnd_bounds hsize h
    have htop := checkedAdd_one_eq_none (hmin.trans hb.1) hn
    have hend := partEnd_of_not_exhausted (by simpa using hx)
    rw [Int.ediv_eq_zero_of_lt (by omega) (by omega)]
    rfl
  | case4 curMin hmin hlt => exact absurd h hlt

end Loop

/-! ### Checked arithmetic -/

/-- `i128::checked_mul`. -/
def checkedMul (a b : ℤ) : Option ℤ :=
  if i128Min ≤ a * b ∧ a * b ≤ i128Max then some (a * b) else none

theorem checkedAdd_of_mem {a b : ℤ} (h₁ : i128Min ≤ a + b) (h₂ : a + b ≤ i128Max) :
    checkedAdd a b = some (a + b) := if_pos ⟨h₁, h₂⟩

theorem checkedSub_of_mem {a b : ℤ} (h₁ : i128Min ≤ a - b) (h₂ : a - b ≤ i128Max) :
    checkedSub a b = some (a - b) := if_pos ⟨h₁, h₂⟩

theorem checkedMul_of_mem {a b : ℤ} (h₁ : i128Min ≤ a * b) (h₂ : a * b ≤ i128Max) :
    checkedMul a b = some (a * b) := if_pos ⟨h₁, h₂⟩

/-- `scale_by_percent`, unless a product or the sum leaves the `i128`. -/
def scaleByPercentChecked (width : ℤ) (percent : ℕ) : Option ℤ := do
  let whole ← checkedMul (width / 100) percent
  let rest ← checkedMul (width % 100) percent
  checkedAdd whole (rest / 100)

theorem scaleByPercentChecked_eq {width : ℤ} (h₀ : 0 ≤ width) (hmax : width ≤ i128Max)
    {percent : ℕ} (hpercent : percent ≤ 100) :
    scaleByPercentChecked width percent = some (scaleByPercent width percent) := by
  have hbottom : i128Min ≤ 0 := by decide
  have htop : 9900 ≤ i128Max := by decide
  have hpercent' : (percent : ℤ) ≤ 100 := by exact_mod_cast hpercent
  have hscaled := scaleByPercent_le h₀ hpercent
  have hwhole : 0 ≤ width / 100 * percent := by positivity
  have hrest : 0 ≤ width % 100 * percent := by
    have := Int.emod_nonneg width (show (100 : ℤ) ≠ 0 by norm_num)
    positivity
  have hrest' : width % 100 * percent ≤ 99 * 100 := by
    have := Int.emod_lt_of_pos width (show (0 : ℤ) < 100 by norm_num)
    have : width % 100 ≤ 99 := by omega
    gcongr
  unfold scaleByPercent at hscaled
  have hquotient : 0 ≤ width % 100 * percent / 100 := by positivity
  rw [scaleByPercentChecked, checkedMul_of_mem (by omega) (by omega),
    checkedMul_of_mem (by omega) (by omega)]
  exact checkedAdd_of_mem (by omega) (by omega)

/-- The bounds of the part that starts at `curMin`, unless the arithmetic overflows. -/
def partChecked (size max : ℤ) (coverage : ℕ) (curMin : ℤ) : Option (ℤ × ℤ) := do
  let width ← checkedSub (partEnd size max curMin).1 curMin
  let covered ← scaleByPercentChecked width coverage
  let upper ← checkedAdd curMin covered
  return (curMin, upper)

/-- The loop of the splitter, which gives up where the arithmetic of a part overflows. -/
def splitLoopChecked (size max : ℤ) (coverage : ℕ) (hsize : 0 < size) (curMin : ℤ) :
    Option (List (ℤ × ℤ)) :=
  if _h : curMin ≤ max then
    (partChecked size max coverage curMin).bind fun piece =>
      if (partEnd size max curMin).2 then
        some [piece]
      else
        match _hn : checkedAdd (partEnd size max curMin).1 1 with
        | some next => (splitLoopChecked size max coverage hsize next).map (piece :: ·)
        | none => some [piece]
  else
    some []
termination_by (max + 1 - curMin).toNat
decreasing_by
  have hb := partEnd_bounds hsize _h
  have := (checkedAdd_eq_some _hn).1
  omega

theorem span_nonneg {bounds : TokenRange} {span : ℤ}
    (h : checkedSub bounds.max bounds.min = some span) : 0 ≤ span := by
  have := checkedSub_eq_some h
  have := bounds.min_le_max
  omega

/-- The splitter, which gives up where its arithmetic overflows. -/
def splitRingChecked (bounds : TokenRange) (numParts coveragePercent : ℕ) :
    Option (List (ℤ × ℤ)) :=
  if numParts = 0 ∨ maxPlannedRanges < numParts then none
  else
    match hs : checkedSub bounds.max bounds.min with
    | none => none
    | some span =>
      have hspan : 0 ≤ span := span_nonneg hs
      splitLoopChecked (if span / numParts = 0 then fallbackPartitionSize else span / numParts)
        bounds.max (effectiveCoverage coveragePercent) (partSize_pos span hspan numParts) bounds.min

/-- The bounds of a range. -/
def TokenRange.ends (r : TokenRange) : ℤ × ℤ := (r.min, r.max)

section Checked

variable {size max : ℤ} {coverage : ℕ} {hsize : 0 < size} {hmax : max ≤ i128Max}
  {hcov : coverage ≤ 100}

theorem partChecked_eq {curMin : ℤ} {hmin : i128Min ≤ curMin} (h : curMin ≤ max)
    (hspan : max - curMin ≤ i128Max) :
    partChecked size max coverage curMin =
      some (part size max coverage hsize hmax hcov curMin hmin h).ends := by
  have hbottom : i128Min ≤ 0 := by decide
  have hb := partEnd_bounds hsize h
  have hwidth : 0 ≤ (partEnd size max curMin).1 - curMin := by omega
  have h₁ := scaleByPercent_nonneg hwidth coverage
  have h₂ := scaleByPercent_le hwidth hcov
  rw [partChecked, checkedSub_of_mem (by omega) (by omega)]
  simp only [Option.bind_eq_bind, Option.bind_some]
  rw [scaleByPercentChecked_eq hwidth (by omega) hcov]
  simp only [Option.bind_some]
  rw [checkedAdd_of_mem (by omega) (by omega)]
  rfl

/-- The loop does not overflow on a span that is an `i128`. -/
theorem splitLoopChecked_eq (curMin : ℤ) (hmin : i128Min ≤ curMin)
    (hspan : max - curMin ≤ i128Max) :
    splitLoopChecked size max coverage hsize curMin =
      some ((splitLoop size max coverage hsize hmax hcov curMin hmin).map TokenRange.ends) := by
  fun_induction splitLoop size max coverage hsize hmax hcov curMin hmin with
  | case1 curMin hmin h piece hx =>
    rw [splitLoopChecked, dif_pos h, partChecked_eq h hspan, Option.bind_some, if_pos hx]
    rfl
  | case2 curMin hmin h piece hx next hn ih =>
    have hb := partEnd_bounds hsize h
    have hnext := (checkedAdd_eq_some hn).1
    rw [splitLoopChecked, dif_pos h, partChecked_eq h hspan, Option.bind_some, if_neg hx]
    split
    · next next' hn' =>
      cases hn.symm.trans hn'
      rw [ih (by omega)]
      rfl
    · next hn' => cases hn.symm.trans hn'
  | case3 curMin hmin h piece hx hn =>
    rw [splitLoopChecked, dif_pos h, partChecked_eq h hspan, Option.bind_some, if_neg hx]
    split
    · next next hn' => cases hn.symm.trans hn'
    · rfl
  | case4 curMin hmin h =>
    rw [splitLoopChecked, dif_neg h]
    rfl

end Checked

/-! ### The splitter -/

/-- The width of the parts. -/
def partSize (span : ℤ) (numParts : ℕ) : ℤ :=
  if span / numParts = 0 then fallbackPartitionSize else span / numParts

/-- The number of parts that the splitter cuts a range into. -/
def partCount (bounds : TokenRange) (numParts : ℕ) : ℕ :=
  ((bounds.max - bounds.min) / (partSize (bounds.max - bounds.min) numParts + 1) + 1).toNat

/-- No more parts are cut than are asked for. -/
theorem partCount_le (bounds : TokenRange) {n : ℕ} (hn : 1 ≤ n) : partCount bounds n ≤ n := by
  have hspan : 0 ≤ bounds.max - bounds.min := sub_nonneg.2 bounds.min_le_max
  rw [partCount]
  generalize bounds.max - bounds.min = span at hspan ⊢
  have hn' : (0 : ℤ) < n := by omega
  have hpos : 0 < partSize span n := partSize_pos span hspan n
  have hlt : span < (partSize span n + 1) * n := by
    rw [partSize]
    split_ifs with hzero
    · -- fewer tokens than parts
      have hlt := ((Int.ediv_eq_iff_of_pos hn').1 hzero).2
      have : (n : ℤ) * 1 ≤ n * (fallbackPartitionSize + 1) := by gcongr; decide
      linarith
    · have hdiv := Int.lt_ediv_add_one_mul_self span hn'
      linarith
  have hcount : span / (partSize span n + 1) < n := Int.ediv_lt_of_lt_mul (by omega) (by linarith)
  omega

/-- What the splitter returns for a number of parts that it accepts; nothing overflows. -/
theorem splitRing_of_le {bounds : TokenRange} {n : ℕ} (hn : 1 ≤ n) (hmax : n ≤ maxPlannedRanges)
    (hspan : bounds.max - bounds.min ≤ i128Max) (coverage : ℕ) :
    ∃ parts, ∃ hsize : 0 < partSize (bounds.max - bounds.min) n,
      parts = splitLoop (partSize (bounds.max - bounds.min) n) bounds.max
        (effectiveCoverage coverage) hsize bounds.le_i128Max (effectiveCoverage_le coverage)
        bounds.min bounds.i128Min_le ∧
      splitRing bounds n coverage = .ok parts ∧
      splitRingChecked bounds n coverage = some (parts.map TokenRange.ends) := by
  have hwidth : 0 ≤ bounds.max - bounds.min := sub_nonneg.2 bounds.min_le_max
  have hbottom : i128Min ≤ 0 := by decide
  have hsub : checkedSub bounds.max bounds.min = some (bounds.max - bounds.min) :=
    checkedSub_of_mem (by omega) hspan
  refine ⟨_, partSize_pos _ hwidth n, rfl, ?_, ?_⟩
  · rw [splitRing, if_neg (by omega), if_neg (by omega)]
    split
    · next hs => cases hsub.symm.trans hs
    · next span hs =>
      cases hsub.symm.trans hs
      rfl
  · rw [splitRingChecked, if_neg (by omega)]
    split
    · next hs => cases hsub.symm.trans hs
    · next span hs =>
      cases hsub.symm.trans hs
      exact splitLoopChecked_eq bounds.min bounds.i128Min_le hspan

/-- A range that lies in the ring of a partitioner is no wider than an `i128`. -/
theorem Partitioner.span_le {p : Partitioner} {ring bounds : TokenRange}
    (hring : p.fullRing = some ring) (hbounds : ring.containsRange bounds = true) :
    bounds.max - bounds.min ≤ i128Max := by
  obtain ⟨hmin, hmax⟩ := containsRange_iff.1 hbounds
  have hwidth : ring.max - ring.min ≤ i128Max := by
    cases p with
    | murmur3 =>
      cases hring
      decide
    | random =>
      cases hring
      decide
    | byteOrdered => cases hring
  omega

/-- What the splitter returns at full coverage, in as many parts as are planned at most. -/
theorem splitRing_full {bounds : TokenRange} {n : ℕ} (hn : 1 ≤ n) (hmax : n ≤ maxPlannedRanges)
    (hspan : bounds.max - bounds.min ≤ i128Max) :
    ∃ parts, splitRing bounds n 100 = .ok parts ∧
      splitRingChecked bounds n 100 = some (parts.map TokenRange.ends) ∧
      parts.length = partCount bounds n ∧ Tiles bounds.min bounds.max parts := by
  obtain ⟨_, hsize, rfl, hsplit, hchecked⟩ := splitRing_of_le hn hmax hspan 100
  refine ⟨_, hsplit, hchecked, ?_, splitLoop_tiles _ _ bounds.min_le_max⟩
  rw [partCount, ← length_splitLoop bounds.min bounds.i128Min_le bounds.min_le_max,
    Int.toNat_natCast]

/-- **The splitter tiles its range.** For bounds in the ring of a partitioner and any number of parts
up to the ceiling, no arithmetic overflows; there is a part and there are at most as many as were
asked for, the first starts where the bounds do, each starts one token after the last one ends, and
the last ends where the bounds do: every token of the bounds lies in exactly one. -/
theorem splitRing_tiles {p : Partitioner} {ring bounds : TokenRange}
    (hring : p.fullRing = some ring) (hbounds : ring.containsRange bounds = true) {n : ℕ}
    (hn : 1 ≤ n) (hmax : n ≤ maxPlannedRanges) :
    ∃ parts, splitRing bounds n 100 = .ok parts ∧
      splitRingChecked bounds n 100 = some (parts.map TokenRange.ends) ∧
      parts ≠ [] ∧ parts.length ≤ n ∧ (parts.Pairwise fun r s => r.max < s.min) ∧
      Tiles bounds.min bounds.max parts ∧ ∀ t, bounds.Mem t → ∃! r, r ∈ parts ∧ r.Mem t := by
  obtain ⟨parts, hsplit, hchecked, hlength, htiles⟩ :=
    splitRing_full hn hmax (Partitioner.span_le hring hbounds)
  refine ⟨parts, hsplit, hchecked, htiles.ne_nil, ?_, htiles.ascending, htiles, ?_⟩
  · rw [hlength]
    exact partCount_le bounds hn
  · intro t ht
    obtain ⟨h₁, h₂⟩ := mem_iff.1 ht
    exact htiles.existsUnique h₁ h₂

/-- The whole ring of a `RandomPartitioner`, whose last token is the greatest `i128`, in three
parts. -/
theorem splitRing_tiles_randomFull :
    ∃ parts, splitRing .randomFull 3 100 = .ok parts ∧
      splitRingChecked .randomFull 3 100 = some (parts.map TokenRange.ends) ∧
      parts ≠ [] ∧ parts.length ≤ 3 ∧ (parts.Pairwise fun r s => r.max < s.min) ∧
      Tiles 0 i128Max parts ∧ ∀ t, randomFull.Mem t → ∃! r, r ∈ parts ∧ r.Mem t :=
  splitRing_tiles (p := .random) rfl (by decide) (by decide) (by decide)

/-- The sample of a range at a percentage: it starts where the range does, and has that percentage of
its width, rounded down. -/
structure SampleOf (percent : ℕ) (whole sample : TokenRange) : Prop where
  min : sample.min = whole.min
  max : sample.max = whole.min + (whole.max - whole.min) * percent / 100
  inside : whole.containsRange sample = true

theorem TokenRange.sampleOf_shrink (r : TokenRange) {percent : ℕ} (h : percent ≤ 100) :
    SampleOf percent r (r.shrink percent h) where
  min := rfl
  max := congrArg (r.min + ·) (scaleByPercent_eq _ _)
  inside := by
    have := scaleByPercent_le (sub_nonneg.2 r.min_le_max) h
    refine containsRange_iff.2 ⟨le_rfl, ?_⟩
    show r.min + scaleByPercent (r.max - r.min) percent ≤ r.max
    omega

theorem effectiveCoverage_of_mem {c : ℕ} (h₁ : 1 ≤ c) (h₂ : c ≤ 100) : effectiveCoverage c = c :=
  if_pos ⟨h₁, h₂⟩

/-- At a coverage percentage the splitter shrinks the parts that it cuts at full coverage. -/
theorem splitRing_eq_map {bounds : TokenRange} {n : ℕ} {parts : List TokenRange} (hn : 1 ≤ n)
    (hmax : n ≤ maxPlannedRanges) (hspan : bounds.max - bounds.min ≤ i128Max)
    (hfull : splitRing bounds n 100 = .ok parts) {percent : ℕ} (h₁ : 1 ≤ percent)
    (h₂ : percent ≤ 100) :
    splitRing bounds n percent = .ok (parts.map (·.shrink percent h₂)) ∧
      splitRingChecked bounds n percent =
        some ((parts.map (·.shrink percent h₂)).map TokenRange.ends) := by
  obtain ⟨_, hsize, rfl, hsplit, -⟩ := splitRing_of_le hn hmax hspan 100
  obtain ⟨sampled, hsize', hsampled, hsample, hchecked⟩ := splitRing_of_le hn hmax hspan percent
  cases hfull.symm.trans hsplit
  rw [splitLoop_eq_map] at hsampled
  simp only [effectiveCoverage_of_mem h₁ h₂] at hsampled
  rw [hsample, hchecked, hsampled]
  exact ⟨rfl, rfl⟩

/-- **Sampling keeps the geometry.** At a coverage percentage there are as many parts as at full
coverage, each the sample of its full counterpart; a part at a percentage lies in the part at a
greater one, and no arithmetic overflows. -/
theorem splitRing_sampled {p : Partitioner} {ring bounds : TokenRange}
    (hring : p.fullRing = some ring) (hbounds : ring.containsRange bounds = true) {n : ℕ}
    (hn : 1 ≤ n) (hmax : n ≤ maxPlannedRanges) {percent larger : ℕ} (h₁ : 1 ≤ percent)
    (hle : percent ≤ larger) (h₂ : larger ≤ 100) :
    ∃ full sampled sampled',
      splitRing bounds n 100 = .ok full ∧ splitRing bounds n percent = .ok sampled ∧
      splitRing bounds n larger = .ok sampled' ∧
      splitRingChecked bounds n percent = some (sampled.map TokenRange.ends) ∧
      sampled.length = full.length ∧ List.Forall₂ (SampleOf percent) full sampled ∧
      List.Forall₂ (fun r s => s.containsRange r = true) sampled sampled' := by
  have hspan := Partitioner.span_le hring hbounds
  obtain ⟨full, hfull, -⟩ := splitRing_full hn hmax hspan
  obtain ⟨hsampled, hchecked⟩ := splitRing_eq_map hn hmax hspan hfull h₁ (hle.trans h₂)
  obtain ⟨hsampled', -⟩ := splitRing_eq_map hn hmax hspan hfull (h₁.trans hle) h₂
  refine ⟨full, _, _, hfull, hsampled, hsampled', hchecked, length_map .., ?_, ?_⟩
  · rw [forall₂_map_right_iff, forall₂_same]
    intro r _
    exact r.sampleOf_shrink (hle.trans h₂)
  · rw [forall₂_map_left_iff, forall₂_map_right_iff, forall₂_same]
    intro r _
    have := scaleByPercent_mono (sub_nonneg.2 r.min_le_max) hle
    refine containsRange_iff.2 ⟨le_rfl, ?_⟩
    show r.min + scaleByPercent (r.max - r.min) percent ≤
      r.min + scaleByPercent (r.max - r.min) larger
    omega

/-- The whole ring of a `RandomPartitioner` as one part, sampled at a quarter and at a half. -/
theorem splitRing_sampled_randomFull :
    ∃ full sampled sampled',
      splitRing .randomFull 1 100 = .ok full ∧ splitRing .randomFull 1 25 = .ok sampled ∧
      splitRing .randomFull 1 50 = .ok sampled' ∧
      splitRingChecked .randomFull 1 25 = some (sampled.map TokenRange.ends) ∧
      sampled.length = full.length ∧ List.Forall₂ (SampleOf 25) full sampled ∧
      List.Forall₂ (fun r s => s.containsRange r = true) sampled sampled' :=
  splitRing_sampled (p := .random) rfl (by decide) (by decide) (by decide) (by decide) (by decide)
    (by decide)

end Cdm
