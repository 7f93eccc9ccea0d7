import Cdm.Core.Error
import Cdm.Lib.BigEndian
import Cdm.Lib.Fallible

/-!
# Byte-level CQL serialization

The framing of native protocol v4: a collection is an `i32` element count followed by elements with
an `i32` length, where a negative length denotes null.  A reader is the bytes that remain to be
read; the source's offset cannot overflow, since no count it is asked for exceeds `2 ^ 31`.
-/

namespace Cdm

namespace Wire

open BigEndian

/-- A type-conversion failure, which concerns one record. -/
def conversionError (message : String) : CdmError := ⟨.typeConversion, message, {}⟩

/-! ### Reading -/

/-- The next `count` bytes, and what remains. -/
def take (count : ℕ) (bytes : Bytes) : Except CdmError (Bytes × Bytes) :=
  if count ≤ bytes.length then .ok (bytes.take count, bytes.drop count)
  else .error (conversionError
    s!"truncated serialised value: wanted {count} more bytes, {bytes.length} remain")

def takeI32 (bytes : Bytes) : Except CdmError (ℤ × Bytes) :=
  (take 4 bytes).map fun r => (toInt r.1, r.2)

/-- One element with its length; `none` for the null marker. -/
def takeElement (bytes : Bytes) : Except CdmError (RawCell × Bytes) := do
  let (length, rest) ← takeI32 bytes
  if length < 0 then return (none, rest)
  let (value, rest) ← take length.toNat rest
  return (some value, rest)

/-! ### Writing -/

/-- The bytes of an `i32`. -/
def writeI32 (value : ℤ) : Bytes := ofInt 4 value

/-- The bytes of an `i64`. -/
def writeI64 (value : ℤ) : Bytes := ofInt 8 value

/-- One element with its length, or the null marker. -/
def writeElement : RawCell → Except CdmError Bytes
  | none => .ok (writeI32 (-1))
  | some bytes =>
    if bytes.length < 2 ^ 31 then .ok (writeI32 bytes.length ++ bytes)
    else .error (conversionError "serialised element exceeds 2 GiB")

/-- Several elements, one after the other. -/
def writeElements : List RawCell → Except CdmError Bytes
  | [] => .ok []
  | e :: es => do
    let bytes ← writeElement e
    let rest ← writeElements es
    return bytes ++ rest

/-! ### Reading what was written -/

@[simp] theorem length_writeI32 (i : ℤ) : (writeI32 i).length = 4 := length_ofInt 4 i

theorem take_append (a b : Bytes) : take a.length (a ++ b) = .ok (a, b) := by
  simp [take]

theorem take_eq_ok {n : ℕ} {bytes a b : Bytes} :
    take n bytes = .ok (a, b) ↔ a.length = n ∧ bytes = a ++ b := by
  rw [take]
  split_ifs with h
  · constructor
    · intro e
      cases e
      simp [h]
    · rintro ⟨rfl, rfl⟩
      simp
  · constructor
    · intro e
      cases e
    · rintro ⟨rfl, rfl⟩
      simp at h

/-- An `i32` read is the four bytes that write it. -/
theorem takeI32_eq_ok {bytes rest : Bytes} {i : ℤ} :
    takeI32 bytes = .ok (i, rest) ↔ bytes = writeI32 i ++ rest ∧ -2 ^ 31 ≤ i ∧ i < 2 ^ 31 := by
  rw [takeI32, Fallible.map_eq_ok]
  constructor
  · rintro ⟨⟨a, b⟩, htake, heq⟩
    obtain ⟨ha, rfl⟩ := take_eq_ok.1 htake
    obtain ⟨rfl, rfl⟩ := Prod.mk.inj heq
    have hlo := Int.le_bmod (x := (toNat a : ℤ)) (m := 256 ^ a.length) (by positivity)
    have hhi := Int.bmod_lt (x := (toNat a : ℤ)) (m := 256 ^ a.length) (by positivity)
    rw [ha] at hlo hhi
    refine ⟨?_, ?_, ?_⟩
    · show a ++ b = ofInt 4 (toInt a) ++ b
      rw [← ha, ofInt_toInt]
    · show -2 ^ 31 ≤ (toNat a : ℤ).bmod (256 ^ a.length)
      rw [ha]
      omega
    · show (toNat a : ℤ).bmod (256 ^ a.length) < 2 ^ 31
      rw [ha]
      omega
  · rintro ⟨rfl, hlo, hhi⟩
    refine ⟨(writeI32 i, rest), take_eq_ok.2 ⟨length_writeI32 i, rfl⟩, ?_⟩
    rw [writeI32, toInt_ofInt (by omega) (by omega)]

/-- An element reads back as it was written. -/
theorem takeElement_append {e : RawCell} {bytes : Bytes} (h : writeElement e = .ok bytes)
    (rest : Bytes) : takeElement (bytes ++ rest) = .ok (e, rest) := by
  cases e with
  | none =>
    cases h
    rw [takeElement, takeI32_eq_ok.2 ⟨rfl, by decide, by decide⟩]
    rfl
  | some b =>
    rw [writeElement] at h
    split_ifs at h with hb
    cases h
    have hread : takeI32 (writeI32 b.length ++ b ++ rest) = .ok ((b.length : ℤ), b ++ rest) :=
      takeI32_eq_ok.2 ⟨List.append_assoc .., by omega, by omega⟩
    have hneg : ¬((b.length : ℤ) < 0) := by omega
    rw [takeElement, hread]
    simp only [bind, Except.bind, hneg, if_false, Int.toNat_natCast, take_append]
    rfl

/-- What has been read, when an element was read: a null marker, or a length and that many
bytes. -/
theorem takeElement_eq_ok {bytes rest : Bytes} {e : RawCell} :
    takeElement bytes = .ok (e, rest) ↔
      (∃ i : ℤ, e = none ∧ bytes = writeI32 i ++ rest ∧ -2 ^ 31 ≤ i ∧ i < 0) ∨
      ∃ b : Bytes, e = some b ∧ writeElement e = .ok (writeI32 b.length ++ b) ∧
        bytes = writeI32 b.length ++ b ++ rest := by
  constructor
  · intro h
    rw [takeElement, Fallible.bind_eq_ok] at h
    obtain ⟨⟨length, rest'⟩, hread, h⟩ := h
    obtain ⟨rfl, hlo, hhi⟩ := takeI32_eq_ok.1 hread
    simp only at h
    split_ifs at h with hneg
    · cases h
      exact .inl ⟨length, rfl, rfl, hlo, hneg⟩
    · obtain ⟨⟨value, rest''⟩, htake, h⟩ := Fallible.bind_eq_ok.1 h
      cases h
      obtain ⟨hlen, rfl⟩ := take_eq_ok.1 htake
      have hcast : (value.length : ℤ) = length := by omega
      have hfits : value.length < 2 ^ 31 := by omega
      refine .inr ⟨value, rfl, ?_, by rw [hcast, List.append_assoc]⟩
      show (if value.length < 2 ^ 31 then _ else _) = _
      rw [if_pos hfits]
  · rintro (⟨i, rfl, rfl, hlo, hneg⟩ | ⟨b, rfl, hw, rfl⟩)
    · rw [takeElement, takeI32_eq_ok.2 ⟨rfl, hlo, by omega⟩]
      simp only [bind, Except.bind, hneg, if_true]
      rfl
    · exact takeElement_append hw rest

/-! ### Map entries -/

/-- `n` keys and values, and what remains. -/
def takeEntries : ℕ → Bytes → Except CdmError (List (RawCell × RawCell) × Bytes)
  | 0, bytes => .ok ([], bytes)
  | n + 1, bytes => do
    let (key, rest) ← takeElement bytes
    let (value, rest) ← takeElement rest
    let (entries, rest) ← takeEntries n rest
    return ((key, value) :: entries, rest)

/-- No entry of a serialized map has a null value. -/
def NoNullValues (bytes : Bytes) : Prop :=
  ∀ count rest entries after, takeI32 bytes = .ok (count, rest) →
    takeEntries count.toNat rest = .ok (entries, after) → ∀ entry ∈ entries, entry.2 ≠ none

theorem writeI32_inj {i j : ℤ} {a b : Bytes} (hi : -2 ^ 31 ≤ i ∧ i < 2 ^ 31)
    (hj : -2 ^ 31 ≤ j ∧ j < 2 ^ 31) (h : writeI32 i ++ a = writeI32 j ++ b) : i = j ∧ a = b := by
  have hread := takeI32_eq_ok.2 ⟨h, hj⟩
  rw [takeI32_eq_ok.2 ⟨rfl, hi⟩] at hread
  cases hread
  exact ⟨rfl, rfl⟩

end Wire

end Cdm
