import Mathlib.Data.List.Flatten
import Mathlib.Data.Nat.Notation
import Mathlib.Tactic.SplitIfs

/-!
# UTF-16

A character of the basic plane is one unit, any other character a high and a low surrogate.  A
sequence of units is well formed when each high surrogate is followed by a low one and no low one
stands alone.
-/

namespace Utf16

/-- The units of one character. -/
def encodeChar (c : Char) : List UInt16 :=
  if c.toNat < 0x10000 then [UInt16.ofNat c.toNat]
  else [UInt16.ofNat (0xd800 + (c.toNat - 0x10000) / 0x400),
    UInt16.ofNat (0xdc00 + (c.toNat - 0x10000) % 0x400)]

def encode (s : List Char) : List UInt16 := s.flatMap encodeChar

def IsHigh (u : UInt16) : Prop := 0xd800 ≤ u.toNat ∧ u.toNat < 0xdc00

def IsLow (u : UInt16) : Prop := 0xdc00 ≤ u.toNat ∧ u.toNat < 0xe000

instance (u : UInt16) : Decidable (IsHigh u) := inferInstanceAs (Decidable (_ ∧ _))

instance (u : UInt16) : Decidable (IsLow u) := inferInstanceAs (Decidable (_ ∧ _))

/-- The character of a surrogate pair. -/
def ofPair (high low : UInt16) : Char :=
  Char.ofNat (0x10000 + (high.toNat - 0xd800) * 0x400 + (low.toNat - 0xdc00))

/-- The characters of a sequence of units, unless a surrogate of it stands alone. -/
def decode : List UInt16 → Option (List Char)
  | [] => some []
  | unit :: units =>
    if IsHigh unit then
      match units with
      | low :: units =>
        if IsLow low then (decode units).map (ofPair unit low :: ·) else none
      | [] => none
    else if IsLow unit then none
    else (decode units).map (Char.ofNat unit.toNat :: ·)

/-- A character is none of the surrogates. -/
theorem toNat_char (c : Char) : c.toNat < 0xd800 ∨ 0xdfff < c.toNat ∧ c.toNat < 0x110000 := by
  have hvalid : c.toNat.isValidChar := c.valid
  exact hvalid

theorem decode_encodeChar (c : Char) (units : List UInt16) :
    decode (encodeChar c ++ units) = (decode units).map (c :: ·) := by
  have hc := toNat_char c
  unfold encodeChar
  split_ifs with hbasic
  · have hunit := UInt16.toNat_ofNat_of_lt' hbasic
    have hhigh : ¬ IsHigh (UInt16.ofNat c.toNat) := by
      rintro ⟨hlo, hhi⟩
      omega
    have hlow : ¬ IsLow (UInt16.ofNat c.toNat) := by
      rintro ⟨hlo, hhi⟩
      omega
    rw [List.singleton_append, decode.eq_def]
    simp only [if_neg hhigh, if_neg hlow, hunit, Char.ofNat_toNat]
  · have hhi := UInt16.toNat_ofNat_of_lt' (n := 0xd800 + (c.toNat - 0x10000) / 0x400)
      (by rw [UInt16.size]; omega)
    have hlo := UInt16.toNat_ofNat_of_lt' (n := 0xdc00 + (c.toNat - 0x10000) % 0x400)
      (by rw [UInt16.size]; omega)
    have hhigh : IsHigh (UInt16.ofNat (0xd800 + (c.toNat - 0x10000) / 0x400)) := by
      refine ⟨?_, ?_⟩ <;> omega
    have hlow : IsLow (UInt16.ofNat (0xdc00 + (c.toNat - 0x10000) % 0x400)) := by
      refine ⟨?_, ?_⟩ <;> omega
    have hjoin : 0x10000 + (0xd800 + (c.toNat - 0x10000) / 0x400 - 0xd800) * 0x400 +
        (0xdc00 + (c.toNat - 0x10000) % 0x400 - 0xdc00) = c.toNat := by omega
    have hpair := ofPair.eq_1 (UInt16.ofNat (0xd800 + (c.toNat - 0x10000) / 0x400))
      (UInt16.ofNat (0xdc00 + (c.toNat - 0x10000) % 0x400))
    rw [hhi, hlo, hjoin, Char.ofNat_toNat] at hpair
    rw [List.cons_append, List.singleton_append, decode.eq_def]
    simp only [if_pos hhigh, if_pos hlow, hpair]

/-- Decoding inverts encoding, whatever the characters. -/
theorem decode_encode (s : List Char) : decode (encode s) = some s := by
  induction s with
  | nil => rfl
  | cons c s ih => rw [encode, List.flatMap_cons, decode_encodeChar, ← encode, ih, Option.map_some]

end Utf16
