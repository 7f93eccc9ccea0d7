import Cdm.Lib.BigEndian
import Cdm.Planner.Bounds

/-!
# The token bounds a scan binds

A planned range has 128-bit bounds, and a scan binds two values for them: a `bigint` for Murmur3
tokens, a `varint` for the others.  The migrate and guardrail jobs read through `RangeScan`, the
validate job through `CqlRowSource`, and each narrows a bound in its own way when it does not fit a
`bigint`: the scan saturates, the row source falls back to `i64::MIN`.

The harness binds `bigint`s for `ByteOrderedPartitioner` too, whose bounds the planner does not
check against any ring.
-/

namespace Cdm

open BigEndian

/-- One end of a token range, typed as its partitioner requires. -/
inductive TokenBound
  /-- Bound as `bigint`. -/
  | murmur3 (token : ℤ)
  /-- Bound as `varint`. -/
  | random (token : ℤ)
  deriving DecidableEq, Repr

/-- How wide the tokens of a range scan are. -/
inductive TokenWidth
  | murmur3
  | random
  deriving DecidableEq, Repr

/-- The same distinction, as the row source spells it. -/
inductive TokenKind
  | murmur3
  | random
  deriving DecidableEq, Repr

/-! ### Writing and reading a bound -/

/-- The top bit of a byte. -/
def signBit (b : UInt8) : Bool := b &&& 0x80 != 0

/-- Drops the leading bytes that only repeat the sign. -/
def stripFiller (filler : UInt8) : Bytes → Bytes
  | b :: next :: rest =>
    if b = filler ∧ signBit next = (filler == 0xff) then stripFiller filler (next :: rest)
    else b :: next :: rest
  | bytes => bytes

namespace TokenBound

/-- The value as the wire represents it. -/
def serialized : TokenBound → Bytes
  | murmur3 token => ofInt 8 token
  | random token => stripFiller (if token < 0 then 0xff else 0x00) (ofInt 16 token)

end TokenBound

/-- What the cluster reads: a `bigint` is eight bytes, a `varint` at least one. -/
def TokenWidth.decode : TokenWidth → Bytes → Option ℤ
  | murmur3, bytes => if bytes.length = 8 then some (toInt bytes) else none
  | random, bytes => if bytes = [] then none else some (toInt bytes)

theorem signBit_eq_true {b : UInt8} : signBit b = true ↔ 128 ≤ b.toNat := by
  have hall : ∀ n : Fin 256, signBit (UInt8.ofNat n) = true ↔ 128 ≤ (UInt8.ofNat n).toNat := by
    set_option maxRecDepth 30000 in decide
  simpa using hall ⟨b.toNat, b.toNat_lt⟩

theorem toInt_stripFiller {filler : UInt8} (hfiller : filler = 0 ∨ filler = 0xff)
    (bytes : Bytes) : toInt (stripFiller filler bytes) = toInt bytes := by
  fun_induction stripFiller filler bytes with
  | case1 b next rest h ih =>
    obtain ⟨rfl, hsign⟩ := h
    rw [ih]
    rcases hfiller with rfl | rfl
    · have : ¬ 128 ≤ next.toNat := by
        rw [← signBit_eq_true, hsign]
        decide
      exact (toInt_zero_cons (by omega)).symm
    · have : 128 ≤ next.toNat := by
        rw [← signBit_eq_true, hsign]
        decide
      exact (toInt_ff_cons this).symm
  | case2 b next rest h => rfl
  | case3 bytes h => rfl

theorem stripFiller_ne_nil (filler : UInt8) {bytes : Bytes} (h : bytes ≠ []) :
    stripFiller filler bytes ≠ [] := by
  fun_induction stripFiller filler bytes with
  | case1 b next rest _ ih => exact ih (List.cons_ne_nil _ _)
  | case2 b next rest _ => exact h
  | case3 bytes _ => exact h

/-- A `bigint` bound reads back as it was bound. -/
theorem decode_serialized_murmur3 {token : ℤ} (h₁ : i64Min ≤ token) (h₂ : token ≤ i64Max) :
    TokenWidth.murmur3.decode (TokenBound.murmur3 token).serialized = some token := by
  unfold i64Min at h₁
  unfold i64Max at h₂
  simp only [TokenWidth.decode, TokenBound.serialized, length_ofInt, if_true]
  rw [toInt_ofInt (by norm_num; omega) (by norm_num; omega)]

/-- A `varint` bound reads back as it was bound. -/
theorem decode_serialized_random {token : ℤ} (h₁ : i128Min ≤ token) (h₂ : token ≤ i128Max) :
    TokenWidth.random.decode (TokenBound.random token).serialized = some token := by
  unfold i128Min at h₁
  unfold i128Max at h₂
  have hne : ofInt 16 token ≠ [] := by
    intro h
    have := length_ofInt 16 token
    rw [h] at this
    cases this
  have hfiller : (if token < 0 then (0xff : UInt8) else 0x00) = 0 ∨
      (if token < 0 then (0xff : UInt8) else 0x00) = 0xff := by
    split_ifs
    · exact Or.inr rfl
    · exact Or.inl rfl
  simp only [TokenWidth.decode, TokenBound.serialized, stripFiller_ne_nil _ hne, if_false,
    toInt_stripFiller hfiller]
  rw [toInt_ofInt (by norm_num; omega) (by norm_num; omega)]

/-! ### The two readers -/

/-- Narrows a planned bound to an `i64` without wrapping. -/
def saturatingI64 (token : ℤ) : ℤ :=
  if i64Min ≤ token ∧ token ≤ i64Max then token else if token < 0 then i64Min else i64Max

/-- The bounds a range has in a range scan of the given width. -/
def boundsOf (range : TokenRange) : TokenWidth → TokenBound × TokenBound
  | .murmur3 => (.murmur3 (saturatingI64 range.min), .murmur3 (saturatingI64 range.max))
  | .random => (.random range.min, .random range.max)

/-- The bound form of one end of a range in the row source. -/
def TokenKind.bound : TokenKind → ℤ → TokenBound
  | murmur3, token => .murmur3 (if i64Min ≤ token ∧ token ≤ i64Max then token else i64Min)
  | random, token => .random token

namespace Partitioner

/-- The token width the harness gives the prepared statements. -/
def tokenWidth : Partitioner → TokenWidth
  | murmur3 | byteOrdered => .murmur3
  | random => .random

/-- The token kind the harness gives the row source. -/
def tokenKind : Partitioner → TokenKind
  | murmur3 | byteOrdered => .murmur3
  | random => .random

end Partitioner

/-- The two values a range scan binds for `range`. -/
def RangeScan.binds (p : Partitioner) (range : TokenRange) : Bytes × Bytes :=
  let bounds := boundsOf range p.tokenWidth
  (bounds.1.serialized, bounds.2.serialized)

/-- The two values the row source binds for `range`. -/
def CqlRowSource.binds (p : Partitioner) (range : TokenRange) : Bytes × Bytes :=
  ((p.tokenKind.bound range.min).serialized, (p.tokenKind.bound range.max).serialized)

/-! ### When the bounds are the range's own -/

/-- The bound values decode to the bounds of the range. -/
def BindsExactly (width : TokenWidth) (binds : Bytes × Bytes) (range : TokenRange) : Prop :=
  width.decode binds.1 = some range.min ∧ width.decode binds.2 = some range.max

/-- The token satisfies `TOKEN(..) >= ? AND TOKEN(..) <= ?` with the bound values. -/
def Selects (width : TokenWidth) (binds : Bytes × Bytes) (t : ℤ) : Prop :=
  ∃ lower upper, width.decode binds.1 = some lower ∧ width.decode binds.2 = some upper ∧
    lower ≤ t ∧ t ≤ upper

/-- Every job scans exactly the range: the bounds of both readers decode to the range's own, and
both select exactly its tokens. -/
structure ScansExactly (p : Partitioner) (range : TokenRange) : Prop where
  scan : BindsExactly p.tokenWidth (RangeScan.binds p range) range
  source : BindsExactly p.tokenWidth (CqlRowSource.binds p range) range
  scan_selects : ∀ t, Selects p.tokenWidth (RangeScan.binds p range) t ↔ range.Mem t
  source_selects : ∀ t, Selects p.tokenWidth (CqlRowSource.binds p range) t ↔ range.Mem t

theorem BindsExactly.selects_iff {width : TokenWidth} {binds : Bytes × Bytes} {range : TokenRange}
    (h : BindsExactly width binds range) (t : ℤ) : Selects width binds t ↔ range.Mem t := by
  rw [TokenRange.mem_iff, Selects, h.1, h.2]
  simp

/-- Exact bounds select the right tokens, so they are all there is to check. -/
theorem scansExactly_of_binds {p : Partitioner} {range : TokenRange}
    (h₁ : BindsExactly p.tokenWidth (RangeScan.binds p range) range)
    (h₂ : BindsExactly p.tokenWidth (CqlRowSource.binds p range) range) : ScansExactly p range :=
  ⟨h₁, h₂, h₁.selects_iff, h₂.selects_iff⟩

theorem saturatingI64_bounds (token : ℤ) :
    i64Min ≤ saturatingI64 token ∧ saturatingI64 token ≤ i64Max := by
  unfold saturatingI64
  split_ifs with h h'
  · exact h
  · exact ⟨le_rfl, by decide⟩
  · exact ⟨by decide, le_rfl⟩

theorem saturatingI64_of_mem {token : ℤ} (h₁ : i64Min ≤ token) (h₂ : token ≤ i64Max) :
    saturatingI64 token = token := if_pos ⟨h₁, h₂⟩

/-- A range inside the `bigint`s is bound exactly by both readers. -/
theorem scansExactly_of_i64 {p : Partitioner} {range : TokenRange}
    (hp : p.tokenWidth = .murmur3) (h₁ : i64Min ≤ range.min) (h₂ : range.max ≤ i64Max) :
    ScansExactly p range := by
  have hmin := range.min_le_max
  have hkind : p.tokenKind = .murmur3 := by
    cases p with
    | murmur3 => rfl
    | random => cases hp
    | byteOrdered => rfl
  refine scansExactly_of_binds ?_ ?_
  · simp only [BindsExactly, RangeScan.binds, hp, boundsOf]
    rw [saturatingI64_of_mem h₁ (hmin.trans h₂), saturatingI64_of_mem (h₁.trans hmin) h₂]
    exact ⟨decode_serialized_murmur3 h₁ (hmin.trans h₂),
      decode_serialized_murmur3 (h₁.trans hmin) h₂⟩
  · simp only [BindsExactly, CqlRowSource.binds, hp, hkind, TokenKind.bound]
    rw [if_pos ⟨h₁, hmin.trans h₂⟩, if_pos ⟨h₁.trans hmin, h₂⟩]
    exact ⟨decode_serialized_murmur3 h₁ (hmin.trans h₂),
      decode_serialized_murmur3 (h₁.trans hmin) h₂⟩

/-- Every range is bound exactly as `varint`s. -/
theorem scansExactly_random (range : TokenRange) : ScansExactly .random range := by
  have h₁ := decode_serialized_random range.i128Min_le (range.min_le_max.trans range.le_i128Max)
  have h₂ := decode_serialized_random (range.i128Min_le.trans range.min_le_max) range.le_i128Max
  refine scansExactly_of_binds ?_ ?_
  · simp only [BindsExactly, RangeScan.binds, Partitioner.tokenWidth, boundsOf]
    exact ⟨h₁, h₂⟩
  · simp only [BindsExactly, CqlRowSource.binds, Partitioner.tokenWidth, Partitioner.tokenKind,
      TokenKind.bound]
    exact ⟨h₁, h₂⟩

/-- A `bigint` scan reads no bound outside the `bigint`s. -/
theorem i64_of_bindsExactly {range : TokenRange}
    (h : BindsExactly .murmur3 (RangeScan.binds .byteOrdered range) range) :
    i64Min ≤ range.min ∧ range.max ≤ i64Max := by
  obtain ⟨h₁, h₂⟩ := h
  have hlo := saturatingI64_bounds range.min
  have hhi := saturatingI64_bounds range.max
  simp only [RangeScan.binds, Partitioner.tokenWidth, boundsOf] at h₁ h₂
  rw [decode_serialized_murmur3 hlo.1 hlo.2, Option.some_inj] at h₁
  rw [decode_serialized_murmur3 hhi.1 hhi.2, Option.some_inj] at h₂
  exact ⟨h₁ ▸ hlo.1, h₂ ▸ hhi.2⟩

/-- **When every job scans exactly its range.** For bounds the partitioner accepts and a range
inside them, the two pairs of token bounds are the range's own exactly when the partitioner is not
`ByteOrderedPartitioner` or the range lies inside the `bigint`s. -/
theorem scansExactly_iff {p : Partitioner} {min max : Option I128} {bounds range : TokenRange}
    (hb : p.resolveBounds min max = .ok bounds) (hr : bounds.containsRange range = true) :
    ScansExactly p range ↔ (p = .byteOrdered → i64Min ≤ range.min ∧ range.max ≤ i64Max) := by
  constructor
  · rintro h rfl
    exact i64_of_bindsExactly h.scan
  · intro h
    cases p with
    | murmur3 =>
      have hring := TokenRange.containsRange_iff.1
        (Partitioner.resolveBounds_of_fullRing hb rfl)
      have hinside := TokenRange.containsRange_iff.1 hr
      exact scansExactly_of_i64 rfl (hring.1.trans hinside.1) (hinside.2.trans hring.2)
    | random => exact scansExactly_random range
    | byteOrdered => exact scansExactly_of_i64 rfl (h rfl).1 (h rfl).2

namespace ByteOrderedSample

/-- The tokens from 0 to `2 ^ 64`. -/
def range : TokenRange := .checked 0 (2 ^ 64) (by decide)

theorem resolved : Partitioner.byteOrdered.resolveBounds
    (some ⟨0, by decide, by decide⟩) (some ⟨2 ^ 64, by decide, by decide⟩) = .ok range := by
  decide

/-- A range inside the `bigint`s, scanned exactly under the same bounds. -/
theorem scansExactly_low :
    ScansExactly .byteOrdered ⟨0, 100, by decide, by decide, by decide⟩ :=
  (scansExactly_iff resolved (by decide)).2 fun _ => ⟨by decide, by decide⟩

/-- Of the tokens from 0 to `2 ^ 64` the range scan reads the lower half, and the row source
none. -/
theorem not_scansExactly_of_accepted :
    ¬ ∀ (p : Partitioner) (min max : Option I128) (bounds range : TokenRange),
      p.resolveBounds min max = .ok bounds → bounds.containsRange range = true →
        ScansExactly p range := by
  intro h
  have hexact := (h _ _ _ _ range resolved (by decide)).source.2
  revert hexact
  decide

end ByteOrderedSample

end Cdm
