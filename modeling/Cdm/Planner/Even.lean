import Cdm.Planner.Split

/-!
# The even subdivision of a range

`TokenRange.split` cuts a range into a given number of parts whose sizes differ by at most one
token.  It is the splitter of the adaptive strategy; the ring itself is cut by `splitRing`.

The arithmetic of the source wraps.  A wrapped cursor is never used: the cursor leaves the range
only after the last part.
-/

namespace Cdm

/-- Two's-complement wrapping to an `i128`. -/
def wrapI128 (x : ℤ) : ℤ := Int.bmod x (2 ^ 128)

theorem wrapI128_of_mem {x : ℤ} (h₁ : i128Min ≤ x) (h₂ : x ≤ i128Max) : wrapI128 x = x := by
  unfold i128Min at h₁
  unfold i128Max at h₂
  refine Int.bmod_eq_of_le ?_ ?_ <;> norm_num at * <;> omega

theorem wrapI128_add_wrapI128 (x y : ℤ) : wrapI128 (x + wrapI128 y) = wrapI128 (x + y) :=
  Int.add_bmod_bmod

namespace TokenRange

/-- The number of tokens in the range. -/
def tokenCount (r : TokenRange) : ℕ := Min.min u128Max (((r.max - r.min) % 2 ^ 128).toNat + 1)

theorem tokenCount_eq (r : TokenRange) :
    (r.tokenCount : ℤ) = Min.min (2 ^ 128 - 1) (r.max - r.min + 1) := by
  have h₁ := r.min_le_max
  have h₂ : -2 ^ 127 ≤ r.min := r.i128Min_le
  have h₃ : r.max ≤ 2 ^ 127 - 1 := r.le_i128Max
  have hmod : (r.max - r.min) % 2 ^ 128 = r.max - r.min := Int.emod_eq_of_lt (by omega) (by omega)
  unfold tokenCount u128Max
  rw [hmod]
  omega

theorem tokenCount_pos (r : TokenRange) : 0 < r.tokenCount := by
  have := r.min_le_max
  have := r.tokenCount_eq
  omega

/-- The parts never reach past the range, whether or not the count saturates. -/
theorem min_add_tokenCount_le (r : TokenRange) : r.min + r.tokenCount ≤ r.max + 1 := by
  have := r.tokenCount_eq
  omega

end TokenRange

/-! ### The loop -/

/-- The loop of `TokenRange::split` with `left` parts to go, from part `index` at `cursor`. -/
def evenPieces (base remainder : ℕ) : (left index : ℕ) → (cursor : ℤ) → List (ℤ × ℤ)
  | 0, _, _ => []
  | left + 1, index, cursor =>
    let span := base + if index < remainder then 1 else 0
    let last := wrapI128 (cursor + wrapI128 (span - 1))
    (cursor, last) :: evenPieces base remainder left (index + 1) (wrapI128 (last + 1))

theorem length_evenPieces (base remainder left index : ℕ) (cursor : ℤ) :
    (evenPieces base remainder left index cursor).length = left := by
  induction left generalizing index cursor with
  | zero => rfl
  | succ left ih => rw [evenPieces, List.length_cons, ih]

/-- The tokens the parts from `index` on still have to take. -/
def tokensLeft (base remainder left index : ℕ) : ℕ := left * base + min left (remainder - index)

theorem tokensLeft_succ (base remainder left index : ℕ) :
    tokensLeft base remainder (left + 1) index =
      (base + if index < remainder then 1 else 0) +
        tokensLeft base remainder left (index + 1) := by
  unfold tokensLeft
  rw [Nat.succ_mul]
  split_ifs <;> omega

/-- What the loop is entered with: the cursor is an `i128`, and the parts that are left end at
`stop`. -/
structure EvenLoop (base remainder left index : ℕ) (cursor stop : ℤ) : Prop where
  base_pos : 0 < base
  i128Min_le : i128Min ≤ cursor
  le_i128Max : stop ≤ i128Max
  ends : cursor + tokensLeft base remainder left index = stop + 1

namespace EvenLoop

variable {base remainder left index : ℕ} {cursor stop : ℤ}

/-- The end of the next part, with the wrapping gone. -/
theorem last_eq (h : EvenLoop base remainder (left + 1) index cursor stop) :
    wrapI128 (cursor + wrapI128
        (((base + if index < remainder then 1 else 0 : ℕ) : ℤ) - 1)) =
      cursor + (base + if index < remainder then 1 else 0 : ℕ) - 1 := by
  have hends := h.ends
  rw [tokensLeft_succ] at hends
  have h₁ := h.base_pos
  have h₂ := h.i128Min_le
  have h₃ := h.le_i128Max
  rw [wrapI128_add_wrapI128, wrapI128_of_mem] <;> omega

/-- One turn of the loop: the part that is cut off, and the loop over the rest, which is entered
only when something is left. -/
theorem step (h : EvenLoop base remainder (left + 1) index cursor stop) :
    ∃ last, cursor ≤ last ∧ last ≤ stop ∧
      evenPieces base remainder (left + 1) index cursor =
        (cursor, last) :: evenPieces base remainder left (index + 1) (wrapI128 (last + 1)) ∧
      (left = 0 → last = stop) ∧
      (0 < left → wrapI128 (last + 1) = last + 1 ∧
        EvenLoop base remainder left (index + 1) (last + 1) stop) := by
  have hends := h.ends
  rw [tokensLeft_succ] at hends
  have h₁ := h.base_pos
  have h₂ := h.i128Min_le
  have h₃ := h.le_i128Max
  refine ⟨cursor + (base + if index < remainder then 1 else 0 : ℕ) - 1, by omega, by omega, ?_,
    ?_, ?_⟩
  · simp only [evenPieces]
    rw [h.last_eq]
  · rintro rfl
    simp only [tokensLeft, Nat.zero_mul, Nat.zero_min] at hends
    omega
  · intro hleft
    have hrest : 0 < tokensLeft base remainder left (index + 1) :=
      Nat.add_pos_left (Nat.mul_pos hleft h₁) _
    refine ⟨wrapI128_of_mem (by omega) (by omega), h₁, by omega, h₃, by omega⟩

/-- Every part lies between the cursor and the end. -/
theorem bounds (h : EvenLoop base remainder left index cursor stop) :
    ∀ p ∈ evenPieces base remainder left index cursor,
      cursor ≤ p.1 ∧ p.1 ≤ p.2 ∧ p.2 ≤ stop := by
  induction left generalizing index cursor with
  | zero => simp [evenPieces]
  | succ left ih =>
    obtain ⟨last, h₁, h₂, heq, -, hrest⟩ := h.step
    intro p hp
    rw [heq] at hp
    rcases List.mem_cons.1 hp with rfl | hp
    · exact ⟨le_rfl, h₁, h₂⟩
    · rcases Nat.eq_zero_or_pos left with rfl | hleft
      · simp [evenPieces] at hp
      · obtain ⟨hwrap, hloop⟩ := hrest hleft
        rw [hwrap] at hp
        have := ih hloop p hp
        omega

/-- The parts come in ring order, with no token in two of them. -/
theorem ordered (h : EvenLoop base remainder left index cursor stop) :
    (evenPieces base remainder left index cursor).Pairwise fun p q => p.2 < q.1 := by
  induction left generalizing index cursor with
  | zero => simp [evenPieces]
  | succ left ih =>
    obtain ⟨last, h₁, h₂, heq, -, hrest⟩ := h.step
    rw [heq]
    rcases Nat.eq_zero_or_pos left with rfl | hleft
    · simp [evenPieces]
    · obtain ⟨hwrap, hloop⟩ := hrest hleft
      rw [hwrap]
      refine List.pairwise_cons.2 ⟨?_, ih hloop⟩
      intro q hq
      have := (hloop.bounds q hq).1
      simp only
      omega

/-- The parts hold every token from the cursor to the end. -/
theorem covers (h : EvenLoop base remainder left index cursor stop) (hleft : 0 < left) {t : ℤ}
    (h₁ : cursor ≤ t) (h₂ : t ≤ stop) :
    ∃ p ∈ evenPieces base remainder left index cursor, p.1 ≤ t ∧ t ≤ p.2 := by
  induction left generalizing index cursor with
  | zero => omega
  | succ left ih =>
    obtain ⟨last, -, -, heq, hlast, hrest⟩ := h.step
    rw [heq]
    by_cases hle : t ≤ last
    · exact ⟨_, List.mem_cons_self .., h₁, hle⟩
    · have hleft : 0 < left := by
        rw [Nat.pos_iff_ne_zero]
        intro h0
        have := hlast h0
        omega
      obtain ⟨hwrap, hloop⟩ := hrest hleft
      obtain ⟨p, hp, hpt⟩ := ih hloop hleft (by omega)
      exact ⟨p, List.mem_cons_of_mem _ (hwrap.symm ▸ hp), hpt⟩

end EvenLoop

/-! ### The subdivision -/

namespace TokenRange

/-- The loop as `split` enters it, with `parts` in `1..=total`. -/
theorem evenLoop (r : TokenRange) {parts : ℕ} (hpos : 0 < parts) (hle : parts ≤ r.tokenCount) :
    EvenLoop (r.tokenCount / parts) (r.tokenCount % parts) parts 0 r.min
      (r.min + r.tokenCount - 1) where
  base_pos := Nat.div_pos hle hpos
  i128Min_le := r.i128Min_le
  le_i128Max := by
    have := r.min_add_tokenCount_le
    have := r.le_i128Max
    omega
  ends := by
    have hdiv := Nat.div_add_mod r.tokenCount parts
    have hmod : r.tokenCount % parts ≤ parts := (Nat.mod_lt _ hpos).le
    have : tokensLeft (r.tokenCount / parts) (r.tokenCount % parts) parts 0 = r.tokenCount := by
      unfold tokensLeft
      rw [Nat.sub_zero, Nat.min_eq_right hmod]
      exact hdiv
    rw [this]
    omega

theorem evenPieces_valid (r : TokenRange) {parts : ℕ} (hpos : 0 < parts)
    (hle : parts ≤ r.tokenCount) :
    ∀ p ∈ evenPieces (r.tokenCount / parts) (r.tokenCount % parts) parts 0 r.min,
      p.1 ≤ p.2 ∧ i128Min ≤ p.1 ∧ p.2 ≤ i128Max := by
  intro p hp
  have hloop := r.evenLoop hpos hle
  have h₁ := hloop.bounds p hp
  have h₂ := hloop.le_i128Max
  have h₃ := hloop.i128Min_le
  omega

/-- Splits the range into `parts` contiguous sub-ranges, sized as evenly as the token count
allows.  The source builds the parts without a check; here each carries the proof that it is a
range. -/
def split (r : TokenRange) (parts : ℕ) : Except CdmError (List TokenRange) :=
  if h : parts = 0 then .error ⟨.config, "cannot split a token range into zero parts", {}⟩
  else
    let total := r.tokenCount
    let parts := Min.min parts total
    .ok ((evenPieces (total / parts) (total % parts) parts 0 r.min).pmap
      (fun p hp => ⟨p.1, p.2, hp.1, hp.2.1, hp.2.2⟩)
      (r.evenPieces_valid (lt_min (Nat.pos_of_ne_zero h) r.tokenCount_pos) (min_le_right ..)))

/-- **The subdivision divides its range**, when the range is not the whole `i128`: there the count
of its tokens saturates. -/
theorem split_divides {r : TokenRange} {n : ℕ} {parts : List TokenRange}
    (h : r.split n = .ok parts) (hwidth : r.max - r.min < 2 ^ 128 - 1) :
    Cover.Divides TokenRange.Mem parts r := by
  unfold split at h
  split_ifs at h with hn
  injection h with h
  subst h
  have hcount : r.min + r.tokenCount - 1 = r.max := by
    have := r.tokenCount_eq
    omega
  have hpos : 0 < Min.min n r.tokenCount := lt_min (Nat.pos_of_ne_zero hn) r.tokenCount_pos
  have hloop := r.evenLoop hpos (min_le_right ..)
  rw [hcount] at hloop
  refine ⟨?_, fun t => ⟨?_, ?_⟩⟩
  · refine List.Pairwise.pmap hloop.ordered _ ?_
    intro p _ q _ hpq t hp hq
    rw [mem_iff] at hp hq
    simp only at hp hq
    omega
  · rintro ⟨s, hs, hst⟩
    obtain ⟨p, hp, rfl⟩ := List.mem_pmap.1 hs
    have hb := hloop.bounds p hp
    rw [mem_iff] at hst ⊢
    simp only at hst
    omega
  · intro ht
    obtain ⟨h₁, h₂⟩ := mem_iff.1 ht
    obtain ⟨p, hp, hpt⟩ := hloop.covers hpos h₁ h₂
    exact ⟨_, List.mem_pmap.2 ⟨p, hp, rfl⟩, mem_iff.2 hpt⟩

-- the remainder goes to the leading parts
example : ((⟨1, 10, by decide, by decide, by decide⟩ : TokenRange).split 4).map
    (List.map fun r => (r.min, r.max)) = .ok [(1, 3), (4, 6), (7, 8), (9, 10)] := by decide

end TokenRange

end Cdm
