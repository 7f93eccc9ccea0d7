import Mathlib.Tactic.Linarith
import Mathlib.Tactic.Ring
import Cdm.Core.Error
import Cdm.Lib.Cover

/-!
# The ring splitter

`splitRing` cuts a range of the ring into parts, the way Java CDM does: parts of width
`(max - min) / num_parts` with a one-token step between them, a fallback width when that quotient is
zero, and a coverage percentage that shrinks every part from its lower bound.
-/

namespace Cdm

/-- The relation "the range holds the token", for lists of ranges as covers. -/
def TokenRange.Mem (r : TokenRange) (t : ℤ) : Prop := r.contains t = true

theorem TokenRange.mem_iff {r : TokenRange} {t : ℤ} : r.Mem t ↔ r.min ≤ t ∧ t ≤ r.max :=
  TokenRange.contains_iff

/-! ### Checked `i128` arithmetic -/

/-- `i128::checked_add`. -/
def checkedAdd (a b : ℤ) : Option ℤ :=
  if i128Min ≤ a + b ∧ a + b ≤ i128Max then some (a + b) else none

/-- `i128::checked_sub`. -/
def checkedSub (a b : ℤ) : Option ℤ :=
  if i128Min ≤ a - b ∧ a - b ≤ i128Max then some (a - b) else none

theorem checkedAdd_eq_some {a b c : ℤ} (h : checkedAdd a b = some c) :
    c = a + b ∧ i128Min ≤ c ∧ c ≤ i128Max := by
  unfold checkedAdd at h
  split_ifs at h with hb
  cases h
  exact ⟨rfl, hb⟩

/-- Adding one fails only at the top of the type. -/
theorem checkedAdd_one_eq_none {a : ℤ} (ha : i128Min ≤ a) (h : checkedAdd a 1 = none) :
    i128Max ≤ a := by
  unfold checkedAdd at h
  split_ifs at h with hb
  omega

theorem checkedSub_eq_some {a b c : ℤ} (h : checkedSub a b = some c) : c = a - b := by
  unfold checkedSub at h
  split_ifs at h
  cases h
  rfl

/-! ### The loop -/

/-- The width used when `(max - min) / num_parts` truncates to zero. -/
def fallbackPartitionSize : ℤ := 100000

/-- The most ranges one plan may contain. -/
def maxPlannedRanges : ℕ := 50000000

/-- Anything outside `1..=100` means 100. -/
def effectiveCoverage (configured : ℕ) : ℕ :=
  if 1 ≤ configured ∧ configured ≤ 100 then configured else 100

/-- `floor (width * percent / 100)` without forming `width * percent`. -/
def scaleByPercent (width : ℤ) (percent : ℕ) : ℤ :=
  width / 100 * percent + width % 100 * percent / 100

/-- The upper end of the part that starts at `curMin`, and whether it exhausts the range. -/
def partEnd (size max curMin : ℤ) : ℤ × Bool :=
  let (newMax, exhausted) :=
    match checkedAdd curMin size with
    | some candidate => (candidate, false)
    | none => (max, true)
  if max < newMax then (max, true) else (newMax, exhausted)

theorem effectiveCoverage_le (c : ℕ) : effectiveCoverage c ≤ 100 := by
  unfold effectiveCoverage
  split_ifs <;> omega

theorem scaleByPercent_nonneg {w : ℤ} (hw : 0 ≤ w) (p : ℕ) : 0 ≤ scaleByPercent w p := by
  have h₁ : 0 ≤ w / 100 := by positivity
  have h₂ : 0 ≤ w % 100 := Int.emod_nonneg w (by norm_num)
  unfold scaleByPercent
  positivity

theorem scaleByPercent_le {w : ℤ} (hw : 0 ≤ w) {p : ℕ} (hp : p ≤ 100) :
    scaleByPercent w p ≤ w := by
  unfold scaleByPercent
  have hp' : (p : ℤ) ≤ 100 := by exact_mod_cast hp
  have h₁ : w / 100 * p ≤ w / 100 * 100 := by
    have : 0 ≤ w / 100 := by positivity
    gcongr
  have h₂ : w % 100 * p / 100 ≤ w % 100 := by
    have hr : 0 ≤ w % 100 := Int.emod_nonneg w (by norm_num)
    have : w % 100 * p ≤ w % 100 * 100 := by gcongr
    omega
  omega

@[simp] theorem scaleByPercent_hundred (w : ℤ) : scaleByPercent w 100 = w := by
  unfold scaleByPercent
  push_cast
  omega

theorem partEnd_bounds {size max curMin : ℤ} (hsize : 0 < size) (h : curMin ≤ max) :
    curMin ≤ (partEnd size max curMin).1 ∧ (partEnd size max curMin).1 ≤ max := by
  unfold partEnd
  cases hc : checkedAdd curMin size with
  | none => simp [h]
  | some c =>
    have hc' := (checkedAdd_eq_some hc).1
    simp only
    split_ifs with hlt
    · exact ⟨h, le_rfl⟩
    · simp only
      omega

/-- A part that exhausts the range ends where the range does. -/
theorem partEnd_exhausted {size max curMin : ℤ} (h : (partEnd size max curMin).2 = true) :
    (partEnd size max curMin).1 = max := by
  unfold partEnd at h ⊢
  cases hc : checkedAdd curMin size with
  | none => simp
  | some c =>
    simp only [hc] at h ⊢
    split_ifs at h ⊢ with hlt
    rfl

/-- The part that starts at `curMin`, shrunk to the coverage. -/
def part (size max : ℤ) (coverage : ℕ) (hsize : 0 < size) (hmax : max ≤ i128Max)
    (hcov : coverage ≤ 100) (curMin : ℤ) (hmin : i128Min ≤ curMin) (h : curMin ≤ max) :
    TokenRange where
  min := curMin
  max := curMin + scaleByPercent ((partEnd size max curMin).1 - curMin) coverage
  min_le_max := by
    have := scaleByPercent_nonneg (sub_nonneg.2 (partEnd_bounds hsize h).1) coverage
    omega
  i128Min_le := hmin
  le_i128Max := by
    have hb := partEnd_bounds hsize h
    have := scaleByPercent_le (sub_nonneg.2 hb.1) hcov
    omega

/-- The loop of the splitter from `curMax = curMin` on.  The source builds each part with the
fallible `TokenRange::new`; here the part carries the proof that it is not inverted. -/
def splitLoop (size max : ℤ) (coverage : ℕ) (hsize : 0 < size) (hmax : max ≤ i128Max)
    (hcov : coverage ≤ 100) (curMin : ℤ) (hmin : i128Min ≤ curMin) : List TokenRange :=
  if h : curMin ≤ max then
    let piece := part size max coverage hsize hmax hcov curMin hmin h
    if (partEnd size max curMin).2 then
      [piece]
    else
      match hn : checkedAdd (partEnd size max curMin).1 1 with
      | some next =>
        piece :: splitLoop size max coverage hsize hmax hcov next (checkedAdd_eq_some hn).2.1
      | none => [piece]
  else
    []
termination_by (max + 1 - curMin).toNat
decreasing_by
  have hb := partEnd_bounds hsize h
  have := (checkedAdd_eq_some hn).1
  omega

theorem partSize_pos (span : ℤ) (hspan : 0 ≤ span) (n : ℕ) :
    0 < if span / n = 0 then fallbackPartitionSize else span / n := by
  split_ifs with h
  · decide
  · have : 0 ≤ span / n := by positivity
    omega

/-- Splits `bounds` into `numParts` ranges, in ring order. -/
def splitRing (bounds : TokenRange) (numParts coveragePercent : ℕ) :
    Except CdmError (List TokenRange) :=
  if numParts = 0 then
    .error (CdmError.withConfigKey
      ⟨.config, "perfops.num_parts must be at least 1; the ring cannot be split into zero parts",
        {}⟩
      "perfops.num_parts")
  else if maxPlannedRanges < numParts then
    .error (CdmError.withConfigKey
      ⟨.config,
        s!"perfops.num_parts is {numParts}, above the {maxPlannedRanges} range ceiling; a plan is " ++
          s!"held in memory for the whole run (NFR-003). Raise perfops.batch_size or split the table " ++
          s!"across runs instead.", {}⟩
      "perfops.num_parts")
  else
    match hs : checkedSub bounds.max bounds.min with
    | none =>
      .error ⟨.internal, s!"token range {bounds} is wider than the i128 token space", {}⟩
    | some span =>
      have hspan : 0 ≤ span := by
        have := checkedSub_eq_some hs
        have := bounds.min_le_max
        omega
      .ok (splitLoop (if span / numParts = 0 then fallbackPartitionSize else span / numParts)
        bounds.max (effectiveCoverage coveragePercent) (partSize_pos span hspan numParts)
        bounds.le_i128Max (effectiveCoverage_le _) bounds.min bounds.i128Min_le)

/-! ### What the loop produces -/

section Loop

variable {size max : ℤ} {coverage : ℕ} {hsize : 0 < size} {hmax : max ≤ i128Max}
  {hcov : coverage ≤ 100}

theorem splitLoop_ne_nil {curMin : ℤ} {hmin : i128Min ≤ curMin} (h : curMin ≤ max) :
    splitLoop size max coverage hsize hmax hcov curMin hmin ≠ [] := by
  rw [splitLoop, dif_pos h]
  simp only
  split_ifs
  · simp
  · split <;> simp

theorem part_max_le {curMin : ℤ} {hmin : i128Min ≤ curMin} {h : curMin ≤ max} :
    (part size max coverage hsize hmax hcov curMin hmin h).max ≤ (partEnd size max curMin).1 := by
  have := scaleByPercent_le (sub_nonneg.2 (partEnd_bounds hsize h).1) hcov
  change curMin + scaleByPercent _ _ ≤ _
  omega

theorem part_max_full {curMin : ℤ} {hmin : i128Min ≤ curMin} {h : curMin ≤ max}
    (hfull : coverage = 100) :
    (part size max coverage hsize hmax hcov curMin hmin h).max = (partEnd size max curMin).1 := by
  subst hfull
  change curMin + scaleByPercent _ 100 = _
  rw [scaleByPercent_hundred]
  omega

/-- Every part starts at or after `curMin` and ends at or before `max`. -/
theorem splitLoop_bounds (curMin : ℤ) (hmin : i128Min ≤ curMin) :
    ∀ r ∈ splitLoop size max coverage hsize hmax hcov curMin hmin,
      curMin ≤ r.min ∧ r.max ≤ max := by
  fun_induction splitLoop size max coverage hsize hmax hcov curMin hmin with
  | case1 curMin hmin h piece hx =>
    intro r hr
    obtain rfl := List.mem_singleton.1 hr
    exact ⟨le_rfl, part_max_le.trans (partEnd_bounds hsize h).2⟩
  | case2 curMin hmin h piece hx next hn ih =>
    have hb := partEnd_bounds hsize h
    have hnext := (checkedAdd_eq_some hn).1
    intro r hr
    rcases List.mem_cons.1 hr with rfl | hr
    · exact ⟨le_rfl, part_max_le.trans hb.2⟩
    · have := ih r hr
      omega
  | case3 curMin hmin h piece hx hn =>
    intro r hr
    obtain rfl := List.mem_singleton.1 hr
    exact ⟨le_rfl, part_max_le.trans (partEnd_bounds hsize h).2⟩
  | case4 curMin hmin h => simp

/-- The parts come in ring order, with no token in two of them. -/
theorem splitLoop_ordered (curMin : ℤ) (hmin : i128Min ≤ curMin) :
    (splitLoop size max coverage hsize hmax hcov curMin hmin).Pairwise
      fun r s => r.max < s.min := by
  fun_induction splitLoop size max coverage hsize hmax hcov curMin hmin with
  | case1 curMin hmin h piece hx => simp
  | case2 curMin hmin h piece hx next hn ih =>
    have hnext := (checkedAdd_eq_some hn).1
    refine List.pairwise_cons.2 ⟨?_, ih⟩
    intro r hr
    have h₁ := (splitLoop_bounds next _ r hr).1
    have h₂ : piece.max ≤ _ := part_max_le
    omega
  | case3 curMin hmin h piece hx hn => simp
  | case4 curMin hmin h => simp

/-- At full coverage the parts hold every token from `curMin` to `max`. -/
theorem splitLoop_covers (hfull : coverage = 100) (curMin : ℤ) (hmin : i128Min ≤ curMin) (t : ℤ)
    (h₁ : curMin ≤ t) (h₂ : t ≤ max) :
    Cover.Covers TokenRange.Mem (splitLoop size max coverage hsize hmax hcov curMin hmin) t := by
  -- each part is the whole segment up to `partEnd`, so a token is in this part or in a later one
  have here : ∀ {c : ℤ} {hc : i128Min ≤ c} {h : c ≤ max}, c ≤ t → t ≤ (partEnd size max c).1 →
      (part size max coverage hsize hmax hcov c hc h).Mem t := by
    intro c hc h hct htc
    exact TokenRange.mem_iff.2 ⟨hct, (part_max_full hfull).symm ▸ htc⟩
  fun_induction splitLoop size max coverage hsize hmax hcov curMin hmin with
  | case1 curMin hmin h piece hx =>
    exact ⟨piece, List.mem_singleton_self _, here h₁ (h₂.trans_eq (partEnd_exhausted hx).symm)⟩
  | case2 curMin hmin h piece hx next hn ih =>
    have hnext := (checkedAdd_eq_some hn).1
    rw [Cover.covers_cons]
    by_cases hle : t ≤ (partEnd size max curMin).1
    · exact Or.inl (here h₁ hle)
    · exact Or.inr (ih (by omega))
  | case3 curMin hmin h piece hx hn =>
    have hb := partEnd_bounds hsize h
    have htop := checkedAdd_one_eq_none (hmin.trans hb.1) hn
    exact ⟨piece, List.mem_singleton_self _, here h₁ (by omega)⟩
  | case4 curMin hmin h => omega

end Loop

theorem splitRing_eq_ok {bounds : TokenRange} {n c : ℕ} {parts : List TokenRange}
    (h : splitRing bounds n c = .ok parts) :
    ∃ size, ∃ hsize : 0 < size,
      parts = splitLoop size bounds.max (effectiveCoverage c) hsize bounds.le_i128Max
        (effectiveCoverage_le c) bounds.min bounds.i128Min_le := by
  unfold splitRing at h
  split_ifs at h
  split at h
  · cases h
  · injection h with h
    exact ⟨_, _, h.symm⟩

/-- The splitter never returns nothing. -/
theorem splitRing_ne_nil {bounds : TokenRange} {n c : ℕ} {parts : List TokenRange}
    (h : splitRing bounds n c = .ok parts) : parts ≠ [] := by
  obtain ⟨size, hsize, rfl⟩ := splitRing_eq_ok h
  exact splitLoop_ne_nil bounds.min_le_max

/-- A part of an accepted range is not wider than an `i128` holds, and lies inside the range. -/
theorem splitRing_inside {bounds : TokenRange} {n c : ℕ} {parts : List TokenRange}
    (h : splitRing bounds n c = .ok parts) :
    ∀ r ∈ parts, bounds.min ≤ r.min ∧ r.max ≤ bounds.max ∧ r.max - r.min ≤ i128Max := by
  have hwidth : bounds.max - bounds.min ≤ i128Max := by
    unfold splitRing at h
    split_ifs at h
    split at h
    · cases h
    · rename_i hs
      unfold checkedSub at hs
      split_ifs at hs with hb
      exact hb.2
  obtain ⟨size, hsize, rfl⟩ := splitRing_eq_ok h
  intro r hr
  have := splitLoop_bounds bounds.min bounds.i128Min_le r hr
  omega

/-- The splitter divides its range whenever the coverage it applies is full. -/
theorem splitRing_divides_of_coverage {bounds : TokenRange} {n c : ℕ} {parts : List TokenRange}
    (h : splitRing bounds n c = .ok parts) (hfull : effectiveCoverage c = 100) :
    Cover.Divides TokenRange.Mem parts bounds := by
  obtain ⟨size, hsize, rfl⟩ := splitRing_eq_ok h
  refine ⟨?_, fun t => ⟨?_, ?_⟩⟩
  · refine (splitLoop_ordered bounds.min bounds.i128Min_le).imp ?_
    intro r s hrs t hr hs
    rw [TokenRange.mem_iff] at hr hs
    omega
  · rintro ⟨r, hr, hrt⟩
    have hb := splitLoop_bounds bounds.min bounds.i128Min_le r hr
    rw [TokenRange.mem_iff] at hrt ⊢
    omega
  · intro ht
    obtain ⟨h₁, h₂⟩ := TokenRange.mem_iff.1 ht
    exact splitLoop_covers hfull bounds.min bounds.i128Min_le t h₁ h₂

/-- **The splitter divides its range.** At full coverage the parts are apart and hold exactly the
tokens of the range. -/
theorem splitRing_divides {bounds : TokenRange} {n : ℕ} {parts : List TokenRange}
    (h : splitRing bounds n 100 = .ok parts) : Cover.Divides TokenRange.Mem parts bounds :=
  splitRing_divides_of_coverage h rfl

end Cdm
