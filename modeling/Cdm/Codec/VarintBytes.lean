import Mathlib.Data.Nat.Size
import Cdm.Codec.Plan
import Cdm.Codec.Wire

/-!
# The bytes of a varint

A `varint` is an integer of any size, in two's complement.  The bytes come from the conversions of
the big-integer library, most significant first for the wire, and least significant first where a
`varint` is narrowed to a `bigint`: there the low eight bytes are copied over a buffer of the sign.
-/

namespace Cdm

open BigEndian List

/-- The conversions of a big integer to and from signed bytes. -/
structure SignedBytes where
  toSignedBytesBe : ℤ → Bytes
  toSignedBytesLe : ℤ → Bytes
  fromSignedBytesBe : Bytes → ℤ

/-- They are two's complement in either order, and the first byte is not there for the sign alone if
the next one has it too. -/
structure SignedBytes.IsTwosComplement (big : SignedBytes) : Prop where
  fromBe : ∀ bytes, big.fromSignedBytesBe bytes = toInt bytes
  toBe : ∀ value, toInt (big.toSignedBytesBe value) = value
  toLe : ∀ value, toInt (big.toSignedBytesLe value).reverse = value
  not_isFiller : ∀ value b next rest, big.toSignedBytesBe value = b :: next :: rest →
    ¬ IsFiller b next

namespace Wire

/-- A value of a fixed width. -/
def fixed (width : ℕ) (what : String) (bytes : Bytes) : Except CdmError Bytes :=
  if bytes.length = width then .ok bytes
  else .error (conversionError s!"expected {width} bytes for a {what} value, got {bytes.length}")

/-- Reads a `bigint`. -/
def readI64 (bytes : Bytes) : Except CdmError ℤ := do
  let bytes ← fixed 8 "bigint" bytes
  return toInt bytes

variable (big : SignedBytes)

/-- Reads a `varint`. -/
def readVarint (bytes : Bytes) : Except CdmError ℤ :=
  if bytes.isEmpty then .error (conversionError "empty varint value")
  else .ok (big.fromSignedBytesBe bytes)

/-- Serialises a `varint`. -/
def writeVarint (value : ℤ) : Bytes := if value.sign = 0 then [0] else big.toSignedBytesBe value

end Wire

namespace Builtin

variable (big : SignedBytes)

/-- Copies bytes over the front of a buffer, as many as it has room for. -/
def overlay (buffer bytes : Bytes) : Bytes :=
  bytes.take buffer.length ++ buffer.drop bytes.length

/-- The low 64 bits of a value, as an `i64`. -/
def low64Bits (value : ℤ) : ℤ :=
  let bytes := big.toSignedBytesLe value
  let fill : UInt8 := if value.sign = -1 then 0xff else 0
  toInt (overlay (List.replicate 8 fill) bytes).reverse

def bigintToVarint : Converter
  | none => .ok none
  | some bytes => do
    let value ← Wire.readI64 bytes
    return some (Wire.writeVarint big value)

def varintToBigint : Converter
  | none => .ok none
  | some bytes => do
    let value ← Wire.readVarint big bytes
    return some (Wire.writeI64 (low64Bits big value))

end Builtin

/-! ### The wire form -/

namespace Wire

variable {big : SignedBytes}

theorem readVarint_of_ne_nil (h : big.IsTwosComplement) {bytes : Bytes} (hne : bytes ≠ []) :
    readVarint big bytes = .ok (toInt bytes) := by
  rw [readVarint, if_neg (by simpa using hne), h.fromBe]

theorem readVarint_eq_ok (h : big.IsTwosComplement) {bytes : Bytes} {value : ℤ}
    (hread : readVarint big bytes = .ok value) : bytes ≠ [] ∧ toInt bytes = value := by
  rcases eq_or_ne bytes [] with rfl | hne
  · cases hread
  · rw [readVarint_of_ne_nil h hne] at hread
    exact ⟨hne, Except.ok.inj hread⟩

theorem writeVarint_ne_nil (h : big.IsTwosComplement) (value : ℤ) :
    writeVarint big value ≠ [] := by
  rw [writeVarint]
  split_ifs with hsign
  · exact cons_ne_nil _ _
  · intro hnil
    have hvalue := h.toBe value
    rw [hnil] at hvalue
    exact hsign (Int.sign_eq_zero_iff_zero.2 hvalue.symm)

theorem toInt_writeVarint (h : big.IsTwosComplement) (value : ℤ) :
    toInt (writeVarint big value) = value := by
  rw [writeVarint]
  split_ifs with hsign
  · rw [Int.sign_eq_zero_iff_zero.1 hsign, toInt_cons, if_pos (by decide)]
    rfl
  · exact h.toBe value

/-- What is written reads back. -/
theorem readVarint_writeVarint (h : big.IsTwosComplement) (value : ℤ) :
    readVarint big (writeVarint big value) = .ok value := by
  rw [readVarint_of_ne_nil h (writeVarint_ne_nil h value), toInt_writeVarint h]

/-- Nothing shorter reads as the value. -/
theorem length_writeVarint_le (h : big.IsTwosComplement) {value : ℤ} {other : Bytes}
    (hother : readVarint big other = .ok value) :
    (writeVarint big value).length ≤ other.length := by
  obtain ⟨hne, hvalue⟩ := readVarint_eq_ok h hother
  refine length_le_of_not_isFiller (fun b next rest hbytes => ?_) hne
    (hvalue.trans (toInt_writeVarint h value).symm)
  rw [writeVarint] at hbytes
  split_ifs at hbytes with hsign
  · cases hbytes
  · exact h.not_isFiller value b next rest hbytes

end Wire

/-! ### Narrowing -/

namespace Builtin

variable {big : SignedBytes}

theorem length_overlay (buffer bytes : Bytes) :
    (overlay buffer bytes).length = buffer.length := by
  rw [overlay, length_append, length_take, length_drop]
  omega

/-- A value of fewer than eight bytes is extended by its sign. -/
theorem low64Bits_of_lt (h : big.IsTwosComplement) {value : ℤ}
    (hlen : (big.toSignedBytesLe value).length < 8) : low64Bits big value = value := by
  have hvalue := h.toLe value
  rw [low64Bits, overlay, length_replicate]
  generalize big.toSignedBytesLe value = bytes at *
  rw [take_of_length_le hlen.le, drop_replicate, reverse_append,
    reverse_replicate]
  cases hbytes : bytes.reverse with
  | nil =>
    rw [hbytes] at hvalue
    rw [← hvalue, append_nil, reverse_eq_nil_iff.1 hbytes]
    decide
  | cons b rest =>
    rw [hbytes] at hvalue
    refine (toInt_replicate_append rest ?_ _).trans hvalue
    have hsign : value < 0 ↔ 128 ≤ b.toNat := hvalue ▸ toInt_cons_neg_iff
    rcases lt_or_ge value 0 with hneg | hpos
    · exact .inr ⟨if_pos (Int.sign_eq_neg_one_of_neg hneg), hsign.1 hneg⟩
    · have hne : value.sign ≠ -1 := fun e => absurd (Int.neg_of_sign_eq_neg_one e) (not_lt.2 hpos)
      exact .inl ⟨if_neg hne, by omega⟩

/-- Of a value of eight bytes or more, the low eight remain. -/
theorem low64Bits_of_le {value : ℤ} (hlen : 8 ≤ (big.toSignedBytesLe value).length) :
    low64Bits big value = toInt ((big.toSignedBytesLe value).take 8).reverse := by
  rw [low64Bits, overlay, length_replicate, drop_eq_nil_of_le (by simpa using hlen),
    append_nil]

/-- Narrowing keeps the value modulo `2 ^ 64`. -/
theorem low64Bits_modEq (h : big.IsTwosComplement) (value : ℤ) :
    low64Bits big value ≡ value [ZMOD 2 ^ 64] := by
  rcases lt_or_ge (big.toSignedBytesLe value).length 8 with hlt | hle
  · rw [low64Bits_of_lt h hlt]
  · have hvalue := h.toLe value
    rw [low64Bits_of_le hle]
    generalize big.toSignedBytesLe value = bytes at *
    have hmod := toInt_append_modEq (bytes.drop 8).reverse (bytes.take 8).reverse
    rw [← reverse_append, take_append_drop, hvalue, length_reverse,
      length_take_of_le hle] at hmod
    exact hmod.symm

/-- Narrowing gives an `i64`. -/
theorem low64Bits_bounds (big : SignedBytes) (value : ℤ) :
    i64Min ≤ low64Bits big value ∧ low64Bits big value ≤ i64Max := by
  rw [low64Bits, i64Min, i64Max]
  generalize (if value.sign = -1 then (0xff : UInt8) else 0) = fill
  have hbounds := toInt_bounds
    (overlay (List.replicate 8 fill) (big.toSignedBytesLe value)).reverse
  rw [length_reverse, length_overlay, length_replicate] at hbounds
  omega

/-- An `i64` is its own low 64 bits. -/
theorem low64Bits_eq_self (h : big.IsTwosComplement) {value : ℤ} (hmin : i64Min ≤ value)
    (hmax : value ≤ i64Max) : low64Bits big value = value := by
  have hmod := low64Bits_modEq h value
  obtain ⟨hlo, hhi⟩ := low64Bits_bounds big value
  rw [Int.ModEq] at hmod
  rw [i64Min] at hmin hlo
  rw [i64Max] at hmax hhi
  omega

theorem bigintToVarint_of_length (big : SignedBytes) {bytes : Bytes} (hlen : bytes.length = 8) :
    bigintToVarint big (some bytes) = .ok (some (Wire.writeVarint big (toInt bytes))) := by
  have hread : Wire.readI64 bytes = .ok (toInt bytes) := by
    rw [Wire.readI64, Wire.fixed, if_pos hlen]
    rfl
  rw [bigintToVarint, hread]
  rfl

theorem varintToBigint_of_readVarint {bytes : Bytes} {value : ℤ}
    (hread : Wire.readVarint big bytes = .ok value) :
    varintToBigint big (some bytes) = .ok (some (Wire.writeI64 (low64Bits big value))) := by
  rw [varintToBigint, hread]
  rfl

/-- A `bigint` comes back from a `varint`, byte for byte. -/
theorem varintToBigint_bigintToVarint (h : big.IsTwosComplement) {bytes : Bytes}
    (hlen : bytes.length = 8) :
    (bigintToVarint big (some bytes)).bind (varintToBigint big) = .ok (some bytes) := by
  obtain ⟨hlo, hhi⟩ := toInt_bounds bytes
  rw [hlen] at hlo hhi
  have hself : low64Bits big (toInt bytes) = toInt bytes := by
    refine low64Bits_eq_self h ?_ ?_
    · rw [i64Min]
      omega
    · rw [i64Max]
      omega
  have hback : Wire.writeI64 (toInt bytes) = bytes := by
    rw [Wire.writeI64, ← hlen, ofInt_toInt]
  calc (bigintToVarint big (some bytes)).bind (varintToBigint big)
      = varintToBigint big (some (Wire.writeVarint big (toInt bytes))) := by
        rw [bigintToVarint_of_length big hlen, Except.bind]
    _ = .ok (some (Wire.writeI64 (low64Bits big (toInt bytes)))) :=
        varintToBigint_of_readVarint (Wire.readVarint_writeVarint h _)
    _ = .ok (some bytes) := by rw [hself, hback]

end Builtin

/-- The two numbers agree in their low 64 bits, and the first is an `i64`. -/
structure IsLow64 (low value : ℤ) : Prop where
  modEq : low ≡ value [ZMOD 2 ^ 64]
  i64Min_le : i64Min ≤ low
  le_i64Max : low ≤ i64Max

/-- The byte string reads as the value, no shorter one does, and no other of its length. -/
structure SignedBytes.IsMinimal (big : SignedBytes) (value : ℤ) (bytes : Bytes) : Prop where
  reads : Wire.readVarint big bytes = .ok value
  minimal : ∀ other, Wire.readVarint big other = .ok value → bytes.length ≤ other.length
  unique : ∀ other, Wire.readVarint big other = .ok value →
    other.length = bytes.length → other = bytes

theorem Wire.isMinimal_writeVarint {big : SignedBytes} (h : big.IsTwosComplement) (value : ℤ) :
    big.IsMinimal value (Wire.writeVarint big value) where
  reads := Wire.readVarint_writeVarint h value
  minimal _ hother := Wire.length_writeVarint_le h hother
  unique _ hother hlen := eq_of_toInt_eq hlen
    ((Wire.readVarint_eq_ok h hother).2.trans (Wire.toInt_writeVarint h value).symm)

/-- **Varints and bigints.**  For every integer the narrowed value is its low 64 bits, what is
written is the shortest byte string that reads back, and every `bigint` comes back from the `varint`
that it is converted to. -/
theorem Builtin.varint_exact {big : SignedBytes} (h : big.IsTwosComplement) :
    (∀ value, IsLow64 (low64Bits big value) value) ∧
      (∀ value, big.IsMinimal value (Wire.writeVarint big value)) ∧
      ∀ value : Int64, (bigintToVarint big (some (Wire.writeI64 value.toInt))).bind
        (varintToBigint big) = .ok (some (Wire.writeI64 value.toInt)) := by
  refine ⟨fun value => ?_, Wire.isMinimal_writeVarint h, fun value => ?_⟩
  · obtain ⟨hlo, hhi⟩ := low64Bits_bounds big value
    exact ⟨low64Bits_modEq h value, hlo, hhi⟩
  · exact varintToBigint_bigintToVarint h (length_ofInt 8 value.toInt)

/-! ### The shortest width -/

namespace SignedBytes

/-- How many bytes a value needs, with its sign. -/
def width (value : ℤ) : ℕ := (if value < 0 then -value - 1 else value).toNat.size / 8 + 1

/-- Conversions that write as many bytes as a value needs. -/
def shortest : SignedBytes where
  toSignedBytesBe value := ofInt (width value) value
  toSignedBytesLe value := (ofInt (width value) value).reverse
  fromSignedBytesBe := toInt

/-- The values of so many bytes are those that need no more. -/
theorem width_le_iff {value : ℤ} {n : ℕ} :
    width value ≤ n + 1 ↔ -((256 ^ (n + 1) : ℕ) : ℤ) ≤ 2 * value ∧
      2 * value < (256 ^ (n + 1) : ℕ) := by
  have hpow : 256 ^ (n + 1) = 2 * 2 ^ (8 * n + 7) := by
    rw [← pow_succ', show 256 = 2 ^ 8 from rfl, ← pow_mul]
    congr 1
  have hsize : width value ≤ n + 1 ↔
      (if value < 0 then -value - 1 else value).toNat < 2 ^ (8 * n + 7) := by
    rw [← Nat.size_le, width]
    omega
  rw [hsize, hpow]
  generalize 2 ^ (8 * n + 7) = half
  split_ifs <;> omega

theorem toInt_ofInt_width (value : ℤ) : toInt (ofInt (width value) value) = value := by
  obtain ⟨hlo, hhi⟩ := width_le_iff.1 (Nat.le_refl (width value))
  exact toInt_ofInt hlo hhi

theorem isTwosComplement_shortest : shortest.IsTwosComplement where
  fromBe _ := rfl
  toBe := toInt_ofInt_width
  toLe value := by
    show toInt (ofInt (width value) value).reverse.reverse = value
    rw [reverse_reverse, toInt_ofInt_width]
  not_isFiller value b next rest hbytes hfiller := by
    have hbytes' : ofInt (width value) value = b :: next :: rest := hbytes
    have hlen := length_ofInt (width value) value
    have hvalue := toInt_ofInt_width value
    rw [hbytes', toInt_cons_of_isFiller hfiller] at hvalue
    rw [hbytes', length_cons, length_cons] at hlen
    -- the value fits what is behind the first byte
    have hbounds := toInt_bounds (next :: rest)
    rw [hvalue, length_cons] at hbounds
    have hwidth := width_le_iff.2 hbounds
    omega

end SignedBytes

section Sample

/-- The last value of one byte, the first of two, and a value that is too wide for a `bigint`. -/
theorem Builtin.varint_exact_sample :
    SignedBytes.shortest.IsMinimal (-128) [0x80] ∧
      SignedBytes.shortest.IsMinimal 128 [0, 0x80] ∧
      Builtin.low64Bits SignedBytes.shortest (2 ^ 64 + 1) ≡ 1 [ZMOD 2 ^ 64] := by
  obtain ⟨hlow, hminimal, -⟩ := Builtin.varint_exact SignedBytes.isTwosComplement_shortest
  refine ⟨hminimal (-128), hminimal 128, ?_⟩
  exact (hlow (2 ^ 64 + 1)).modEq.trans (by decide)

end Sample

end Cdm
