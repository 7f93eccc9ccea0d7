import Cdm.Cql.TokenBounds

/-!
# The bytes of a token bound

A `RandomPartitioner` bound is a `varint`: its sixteen bytes without those in front that only repeat
the sign.  What remains is the shortest byte string with the value of the token, and the only one of
its length.  A Murmur3 bound is a `bigint`, of eight bytes.
-/

namespace Cdm

open BigEndian

/-- The loop stops in front of a byte that is no filler, or that the sign of the value needs. -/
theorem stripFiller_stops {filler b next : UInt8} {bytes rest : Bytes}
    (h : stripFiller filler bytes = b :: next :: rest) :
    ¬ (b = filler ∧ signBit next = (filler == 0xff)) := by
  fun_induction stripFiller filler bytes with
  | case1 first second others _ ih => exact ih h
  | case2 first second others hkept =>
    cases h
    exact hkept
  | case3 bytes hshort => exact absurd h (hshort b next rest)

theorem signBit_eq_false {b : UInt8} : signBit b = false ↔ b.toNat < 128 := by
  rw [← Bool.not_eq_true, signBit_eq_true, not_le]

/-- The filler of a value. -/
def signFiller (value : ℤ) : UInt8 := if value < 0 then 0xff else 0x00

theorem signFiller_eq (value : ℤ) : signFiller value = 0 ∨ signFiller value = 0xff := by
  unfold signFiller
  split_ifs
  · exact .inr rfl
  · exact .inl rfl

/-- What the loop leaves does not start with a byte that only repeats the sign. -/
theorem not_isFiller_stripFiller {value : ℤ} {bytes : Bytes}
    (hvalue : toInt bytes = value) {b next : UInt8} {rest : Bytes}
    (hbytes : stripFiller (signFiller value) bytes = b :: next :: rest) :
    ¬ BigEndian.IsFiller b next := by
  have hstripped := (toInt_stripFiller (signFiller_eq value) bytes).trans hvalue
  rw [hbytes] at hstripped
  have hsign : toInt (b :: next :: rest) < 0 ↔ 128 ≤ b.toNat :=
    toInt_cons_neg_iff
  rw [hstripped] at hsign
  have hstops := stripFiller_stops hbytes
  rintro (⟨rfl, hnext⟩ | ⟨rfl, hnext⟩)
  · have hfiller : signFiller value = 0 := if_neg fun h => absurd (hsign.1 h) (by decide)
    exact hstops ⟨hfiller.symm, by rw [hfiller, signBit_eq_false.2 hnext]; rfl⟩
  · have hfiller : signFiller value = 255 := if_pos (hsign.2 (by decide))
    exact hstops ⟨hfiller.symm, by rw [hfiller, signBit_eq_true.2 hnext]; rfl⟩

/-- No shorter byte string has the value of what the loop leaves. -/
theorem length_stripFiller_le {value : ℤ} {bytes shorter : Bytes}
    (hvalue : toInt bytes = value) (hne : shorter ≠ [])
    (hshorter : toInt shorter = value) :
    (stripFiller (signFiller value) bytes).length ≤ shorter.length := by
  have hstripped : toInt (stripFiller (signFiller value) bytes) = value :=
    (toInt_stripFiller (signFiller_eq value) bytes).trans hvalue
  exact length_le_of_not_isFiller
    (fun b next rest hbytes => not_isFiller_stripFiller hvalue hbytes) hne
    (hshorter.trans hstripped.symm)

namespace TokenBound

/-- The byte string is the shortest with the value, and the only one of its length. -/
structure IsShortest (value : ℤ) (bytes : Bytes) : Prop where
  decodes : TokenWidth.random.decode bytes = some value
  shortest : ∀ other, TokenWidth.random.decode other = some value → bytes.length ≤ other.length
  unique : ∀ other, TokenWidth.random.decode other = some value →
    other.length = bytes.length → other = bytes

/-- The byte string is the value in eight bytes, most significant first. -/
structure IsEightBytes (value : ℤ) (bytes : Bytes) : Prop where
  decodes : TokenWidth.murmur3.decode bytes = some value
  length_eq : bytes.length = 8
  digits : ∀ i < 8, bytes[i]? = some (UInt8.ofNat (value / (256 ^ (7 - i) : ℕ) % 256).toNat)

theorem toInt_of_decode {value : ℤ} {bytes : Bytes}
    (h : TokenWidth.random.decode bytes = some value) :
    bytes ≠ [] ∧ toInt bytes = value := by
  simp only [TokenWidth.decode] at h
  split_ifs at h with hne
  exact ⟨hne, Option.some_inj.1 h⟩

theorem isShortest_serialized (token : I128) :
    IsShortest token.val (random token.val).serialized := by
  have hdecodes := decode_serialized_random token.i128Min_le token.le_i128Max
  refine ⟨hdecodes, fun other hother => ?_, fun other hother hlen => ?_⟩
  · obtain ⟨hne, hvalue⟩ := toInt_of_decode hother
    refine length_stripFiller_le (toInt_ofInt ?_ ?_) hne hvalue
    · have := token.i128Min_le
      unfold i128Min at this
      norm_num
      omega
    · have := token.le_i128Max
      unfold i128Max at this
      norm_num
      omega
  · -- two byte strings of one length and one value
    have hvalue := (toInt_of_decode hother).2.trans (toInt_of_decode hdecodes).2.symm
    exact eq_of_toInt_eq hlen hvalue

theorem isEightBytes_serialized (token : Int64) :
    IsEightBytes token.toInt (murmur3 token.toInt).serialized := by
  refine ⟨decode_serialized_murmur3 ?_ ?_, length_ofInt 8 _, fun i hi => ?_⟩
  · exact Int64.le_toInt token
  · have := Int64.toInt_lt token
    unfold i64Max
    omega
  · exact getElem?_ofInt hi _

/-- **The bytes of a token bound.** For every `i128` they are the shortest big-endian two's
complement of the token, and for every `i64` its eight big-endian bytes. -/
theorem serialized_exact :
    (∀ token : I128, IsShortest token.val (random token.val).serialized) ∧
      ∀ token : Int64, IsEightBytes token.toInt (murmur3 token.toInt).serialized :=
  ⟨isShortest_serialized, isEightBytes_serialized⟩

end TokenBound

end Cdm
