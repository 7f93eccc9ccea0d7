import Mathlib.Data.Nat.Notation
import Mathlib.Data.Int.Notation
import Mathlib.Algebra.Order.Ring.Nat
import Mathlib.Data.List.Induction
import Mathlib.Tactic.Positivity
import Mathlib.Tactic.Ring
import Mathlib.Data.Int.ModEq

/-!
# Big-endian integers

`toNat` and `ofNat w` read and write an unsigned integer as a byte string of fixed width, most
significant byte first; `toInt` and `ofInt w` do the same for two's complement, as the
`from_be_bytes` and `to_be_bytes` of the machine integers do.
-/

namespace BigEndian

open List

/-- The unsigned value of a byte string. -/
def toNat (bs : List UInt8) : ℕ := bs.foldl (fun n b => 256 * n + b.toNat) 0

/-- The `w` low bytes of `n`. -/
def ofNat : ℕ → ℕ → List UInt8
  | 0, _ => []
  | w + 1, n => ofNat w (n / 256) ++ [UInt8.ofNat n]

/-- The value of a byte string as a two's complement integer. -/
def toInt (bs : List UInt8) : ℤ := (toNat bs : ℤ).bmod (256 ^ bs.length)

/-- The two's complement representation of `i` in `w` bytes. -/
def ofInt (w : ℕ) (i : ℤ) : List UInt8 := ofNat w (i % (256 ^ w : ℕ)).toNat

/-! ### Unsigned -/

@[simp] theorem toNat_nil : toNat [] = 0 := rfl

theorem toNat_concat (bs : List UInt8) (b : UInt8) :
    toNat (bs ++ [b]) = 256 * toNat bs + b.toNat := by
  simp [toNat]

@[simp] theorem length_ofNat (w n : ℕ) : (ofNat w n).length = w := by
  induction w generalizing n with
  | zero => rfl
  | succ w ih => simp [ofNat, ih]

theorem toNat_lt (bs : List UInt8) : toNat bs < 256 ^ bs.length := by
  induction bs using List.reverseRecOn with
  | nil => simp
  | append_singleton bs b ih =>
    have hb : b.toNat < 256 := b.toNat_lt
    rw [toNat_concat, length_append, length_singleton, pow_succ]
    omega

theorem toNat_cons (b : UInt8) (bs : List UInt8) :
    toNat (b :: bs) = b.toNat * 256 ^ bs.length + toNat bs := by
  induction bs using List.reverseRecOn with
  | nil => simp [toNat]
  | append_singleton bs c ih =>
    rw [← cons_append, toNat_concat, ih, toNat_concat, length_append,
      length_singleton, pow_succ]
    ring

/-- Writing and reading back keeps the low bytes. -/
theorem toNat_append (as bs : List UInt8) :
    toNat (as ++ bs) = toNat as * 256 ^ bs.length + toNat bs := by
  induction bs using List.reverseRecOn with
  | nil => simp
  | append_singleton bs b ih =>
    rw [← append_assoc, toNat_concat, toNat_concat, ih, length_append,
      length_singleton, pow_succ]
    ring

theorem toNat_ofNat (w n : ℕ) : toNat (ofNat w n) = n % 256 ^ w := by
  induction w generalizing n with
  | zero => simp [ofNat, Nat.mod_one]
  | succ w ih =>
    have hb : (UInt8.ofNat n).toNat = n % 256 := rfl
    rw [ofNat, toNat_concat, ih, hb, pow_succ, mul_comm (256 ^ w) 256, Nat.mod_mul]
    omega

/-- Reading and writing back keeps the byte string. -/
theorem ofNat_toNat (bs : List UInt8) : ofNat bs.length (toNat bs) = bs := by
  induction bs using List.reverseRecOn with
  | nil => rfl
  | append_singleton bs b ih =>
    have hb : b.toNat < 256 := b.toNat_lt
    have hdiv : (256 * toNat bs + b.toNat) / 256 = toNat bs := by omega
    have hlow : UInt8.ofNat (256 * toNat bs + b.toNat) = b := by
      apply UInt8.toNat_inj.1
      show (256 * toNat bs + b.toNat) % 256 = b.toNat
      omega
    rw [length_append, length_singleton, ofNat, toNat_concat, hdiv, ih, hlow]

/-- Where a byte of an unsigned integer stands. -/
theorem getElem?_ofNat {w i : ℕ} (h : i < w) (n : ℕ) :
    (ofNat w n)[i]? = some (UInt8.ofNat (n / 256 ^ (w - 1 - i))) := by
  induction w generalizing n with
  | zero => cases h
  | succ w ih =>
    rw [ofNat]
    by_cases hi : i < w
    · rw [getElem?_append_left (by simpa using hi), ih hi, Nat.div_div_eq_div_mul,
        ← pow_succ']
      congr 4
      omega
    · obtain rfl : i = w := by omega
      rw [getElem?_append_right (by simp)]
      simp

/-! ### Two's complement -/

@[simp] theorem length_ofInt (w : ℕ) (i : ℤ) : (ofInt w i).length = w := length_ofNat w _

theorem toNat_ofInt (w : ℕ) (i : ℤ) : (toNat (ofInt w i) : ℤ) = i % (256 ^ w : ℕ) := by
  have hpos : (0 : ℤ) < (256 ^ w : ℕ) := by positivity
  have hlt := Int.emod_lt_of_pos i hpos
  have hnonneg := Int.emod_nonneg i hpos.ne'
  rw [ofInt, toNat_ofNat, Nat.mod_eq_of_lt (by omega), Int.toNat_of_nonneg hnonneg]

/-- Writing and reading a signed integer reduces it modulo the width. -/
theorem toInt_ofInt_eq_bmod (w : ℕ) (i : ℤ) : toInt (ofInt w i) = i.bmod (256 ^ w) := by
  rw [toInt, length_ofInt, toNat_ofInt, Int.emod_bmod]

/-- A signed integer that fits the width survives writing and reading. -/
theorem toInt_ofInt {w : ℕ} {i : ℤ} (hlo : -((256 ^ w : ℕ) : ℤ) ≤ 2 * i)
    (hhi : 2 * i < (256 ^ w : ℕ)) : toInt (ofInt w i) = i := by
  rw [toInt_ofInt_eq_bmod]
  exact Int.bmod_eq_of_le_mul_two (by omega) (by omega)

/-- Two integers are written alike if and only if they agree modulo the width. -/
theorem ofInt_inj {w : ℕ} {i j : ℤ} : ofInt w i = ofInt w j ↔ i ≡ j [ZMOD (256 ^ w : ℕ)] := by
  constructor
  · intro h
    rw [Int.ModEq, ← toNat_ofInt, ← toNat_ofInt, h]
  · intro h
    rw [ofInt, ofInt, h]

/-- Reading a byte string as a signed integer loses nothing. -/
theorem ofInt_toInt (bs : List UInt8) : ofInt bs.length (toInt bs) = bs := by
  have hlt := toNat_lt bs
  have hmod : (toInt bs) % ((256 ^ bs.length : ℕ) : ℤ) = toNat bs := by
    rw [toInt, Int.bmod_emod, Int.emod_eq_of_lt (by omega) (by omega)]
  rw [ofInt, hmod, Int.toNat_natCast, ofNat_toNat]

theorem toInt_bounds (bs : List UInt8) :
    -((256 ^ bs.length : ℕ) : ℤ) ≤ 2 * toInt bs ∧ 2 * toInt bs < (256 ^ bs.length : ℕ) := by
  have hpos : 0 < 256 ^ bs.length := by positivity
  have hlo := Int.le_bmod (x := toNat bs) hpos
  have hhi := Int.bmod_lt (x := toNat bs) hpos
  rw [toInt]
  omega

theorem toInt_modEq_toNat (bs : List UInt8) :
    toInt bs ≡ toNat bs [ZMOD (256 ^ bs.length : ℕ)] := by
  rw [Int.ModEq, toInt, Int.bmod_emod]

/-- The low bytes of a signed integer are what it is modulo their width. -/
theorem toInt_append_modEq (as bs : List UInt8) :
    toInt (as ++ bs) ≡ toInt bs [ZMOD (256 ^ bs.length : ℕ)] := by
  have hdvd : ((256 ^ bs.length : ℕ) : ℤ) ∣ (256 ^ (as ++ bs).length : ℕ) := by
    rw [length_append, pow_add]
    exact_mod_cast Dvd.intro_left _ rfl
  have hlow : (toNat (as ++ bs) : ℤ) ≡ toNat bs [ZMOD (256 ^ bs.length : ℕ)] := by
    rw [toNat_append, Nat.cast_add, Nat.cast_mul]
    exact Int.modEq_iff_dvd.2 ⟨-toNat as, by ring⟩
  exact (((toInt_modEq_toNat (as ++ bs)).of_dvd hdvd).trans hlow).trans
    (toInt_modEq_toNat bs).symm

/-- Where a byte of a signed integer stands. -/
theorem getElem?_ofInt {w i : ℕ} (h : i < w) (value : ℤ) :
    (ofInt w value)[i]? =
      some (UInt8.ofNat (value / (256 ^ (w - 1 - i) : ℕ) % 256).toNat) := by
  rw [ofInt, getElem?_ofNat h]
  have hpos : (0 : ℤ) < (256 ^ w : ℕ) := by positivity
  obtain ⟨low, hlow⟩ := Int.eq_ofNat_of_zero_le (Int.emod_nonneg value hpos.ne')
  have hsplit := Int.emod_add_mul_ediv value (256 ^ w : ℕ)
  rw [hlow] at hsplit
  have hwidth : (256 ^ w : ℕ) = 256 ^ (w - 1 - i) * 256 * 256 ^ i := by
    rw [← pow_succ, ← pow_add]
    congr 1
    omega
  have hquot : value / (256 ^ (w - 1 - i) : ℕ) % 256 = (low / 256 ^ (w - 1 - i) : ℕ) % 256 := by
    rw [← hsplit, hwidth]
    push_cast
    rw [show (256 : ℤ) ^ (w - 1 - i) * 256 * 256 ^ i * (value / (256 ^ (w - 1 - i) * 256 * 256 ^ i))
      = 256 ^ (w - 1 - i) * (256 * (256 ^ i * (value / (256 ^ (w - 1 - i) * 256 * 256 ^ i)))) by
        ring, Int.add_mul_ediv_left _ _ (by positivity), Int.add_mul_emod_self_left]
  rw [hlow, hquot, Int.toNat_natCast]
  congr 1
  apply UInt8.toNat_inj.1
  have : ((low / 256 ^ (w - 1 - i) : ℕ) : ℤ) % 256 = ((low / 256 ^ (w - 1 - i) % 256 : ℕ) : ℤ) := by
    push_cast
    rfl
  rw [this, Int.toNat_natCast]
  simp

/-- The sign of a byte string is the top bit of its first byte. -/
theorem toInt_cons (b : UInt8) (bs : List UInt8) :
    toInt (b :: bs) = if b.toNat < 128 then (toNat (b :: bs) : ℤ)
      else toNat (b :: bs) - (256 ^ (bs.length + 1) : ℕ) := by
  have hlt := toNat_lt (b :: bs)
  have htail := toNat_lt bs
  have hcons := toNat_cons b bs
  have hmod : ((toNat (b :: bs) : ℕ) : ℤ) % ((256 ^ (bs.length + 1) : ℕ) : ℤ) =
      toNat (b :: bs) := Int.emod_eq_of_lt (by omega) (by exact_mod_cast hlt)
  have hhalf : (256 ^ (bs.length + 1) + 1) / 2 = 128 * 256 ^ bs.length := by
    rw [pow_succ]
    omega
  have hsign : toNat (b :: bs) < 128 * 256 ^ bs.length ↔ b.toNat < 128 := by
    constructor
    · intro h
      by_contra hb
      have := Nat.mul_le_mul_right (256 ^ bs.length) (not_lt.1 hb)
      omega
    · intro hb
      have := Nat.mul_le_mul_right (256 ^ bs.length) (Nat.succ_le_of_lt hb)
      rw [Nat.succ_mul] at this
      omega
  rw [toInt, length_cons, Int.bmod_def, hmod]
  have hcast : (((256 ^ (bs.length + 1) : ℕ) : ℤ) + 1) / 2 = (128 * 256 ^ bs.length : ℕ) := by
    rw [← hhalf]
    push_cast
    rfl
  rw [hcast]
  by_cases hb : b.toNat < 128
  · rw [if_pos hb, if_pos (by exact_mod_cast hsign.2 hb)]
  · have : ¬ ((toNat (b :: bs) : ℤ) < (128 * 256 ^ bs.length : ℕ)) := by
      exact_mod_cast fun h => hb (hsign.1 h)
    rw [if_neg hb, if_neg this]

/-- A zero byte before a byte with a clear top bit does not change the value. -/
theorem toInt_zero_cons {b : UInt8} {bs : List UInt8} (hb : b.toNat < 128) :
    toInt (0 :: b :: bs) = toInt (b :: bs) := by
  rw [toInt_cons, toInt_cons, if_pos (by decide), if_pos hb, toNat_cons 0]
  simp

/-- A byte of ones before a byte with the top bit set does not change the value. -/
theorem toInt_ff_cons {b : UInt8} {bs : List UInt8} (hb : 128 ≤ b.toNat) :
    toInt (255 :: b :: bs) = toInt (b :: bs) := by
  rw [toInt_cons, toInt_cons, if_neg (by decide), if_neg (by omega), toNat_cons 255,
    length_cons]
  have : (255 : UInt8).toNat = 255 := rfl
  rw [this, pow_succ _ (bs.length + 1)]
  push_cast
  ring

/-- The sign of a byte string is the top bit of its first byte. -/
theorem toInt_cons_neg_iff {b : UInt8} {bs : List UInt8} :
    toInt (b :: bs) < 0 ↔ 128 ≤ b.toNat := by
  have hlt := toNat_lt (b :: bs)
  rw [length_cons] at hlt
  rw [toInt_cons]
  split_ifs with hb <;> omega

/-- Any number of bytes that repeat the sign can stand in front. -/
theorem toInt_replicate_append {fill b : UInt8} (bs : List UInt8)
    (h : fill = 0 ∧ b.toNat < 128 ∨ fill = 255 ∧ 128 ≤ b.toNat) (k : ℕ) :
    toInt (List.replicate k fill ++ b :: bs) = toInt (b :: bs) := by
  induction k with
  | zero => rfl
  | succ k ih =>
    rw [← ih, replicate_succ, cons_append]
    cases k with
    | zero =>
      rcases h with ⟨rfl, hb⟩ | ⟨rfl, hb⟩
      · exact toInt_zero_cons hb
      · exact toInt_ff_cons hb
    | succ k =>
      rw [replicate_succ, cons_append]
      rcases h with ⟨rfl, -⟩ | ⟨rfl, -⟩
      · exact toInt_zero_cons (by decide)
      · exact toInt_ff_cons (by decide)

/-- The first byte only repeats the sign that the next one has. -/
def IsFiller (b next : UInt8) : Prop := b = 0 ∧ next.toNat < 128 ∨ b = 255 ∧ 128 ≤ next.toNat

/-- A value that fits all but the first byte has a first byte that only repeats the sign. -/
theorem isFiller_of_fits {b next : UInt8} {rest : List UInt8}
    (hlo : -((256 ^ (rest.length + 1) : ℕ) : ℤ) ≤ 2 * toInt (b :: next :: rest))
    (hhi : 2 * toInt (b :: next :: rest) < (256 ^ (rest.length + 1) : ℕ)) : IsFiller b next := by
  have hb : b.toNat < 256 := b.toNat_lt
  have htail := toNat_lt rest
  have hvalue := toInt_cons b (next :: rest)
  rw [toNat_cons, toNat_cons, length_cons] at hvalue
  simp only [pow_succ] at hvalue hlo hhi
  generalize 256 ^ rest.length = width at *
  have hpos : 0 < width := by omega
  by_cases hsign : b.toNat < 128
  · rw [if_pos hsign] at hvalue
    have hzero : b.toNat = 0 := by
      by_contra hne
      have := Nat.mul_le_mul_right (width * 256) (Nat.one_le_iff_ne_zero.2 hne)
      omega
    have hnext : next.toNat < 128 := by
      by_contra hle
      have := Nat.mul_le_mul_right width (not_lt.1 hle)
      omega
    exact .inl ⟨UInt8.toNat_inj.1 hzero, hnext⟩
  · rw [if_neg hsign] at hvalue
    have hones : b.toNat = 255 := by
      by_contra hne
      have := Nat.mul_le_mul_right (width * 256) (show b.toNat ≤ 254 by omega)
      have := Nat.mul_le_mul_right width (show next.toNat ≤ 255 by have := next.toNat_lt; omega)
      omega
    have hnext : 128 ≤ next.toNat := by
      by_contra hlt
      have := Nat.mul_le_mul_right width (show next.toNat ≤ 127 by omega)
      rw [hones] at hvalue
      omega
    exact .inr ⟨UInt8.toNat_inj.1 hones, hnext⟩

theorem toInt_cons_of_isFiller {b next : UInt8} {rest : List UInt8} (h : IsFiller b next) :
    toInt (b :: next :: rest) = toInt (next :: rest) := by
  rcases h with ⟨rfl, hnext⟩ | ⟨rfl, hnext⟩
  · exact toInt_zero_cons hnext
  · exact toInt_ff_cons hnext

/-- Without a first byte that only repeats the sign, no byte string of the value is shorter. -/
theorem length_le_of_not_isFiller {bytes other : List UInt8}
    (h : ∀ b next rest, bytes = b :: next :: rest → ¬ IsFiller b next) (hne : other ≠ [])
    (hvalue : toInt other = toInt bytes) : bytes.length ≤ other.length := by
  by_contra hlt
  have hpos := length_pos_iff.2 hne
  match bytes, h, hvalue, hlt with
  | [], _, _, hlt => exact hlt (Nat.zero_le _)
  | [b], _, _, hlt =>
    rw [length_singleton] at hlt
    omega
  | b :: next :: rest, h, hvalue, hlt =>
    -- the value fits the shorter string, so it fits all but the first byte
    have hwidth : 256 ^ other.length ≤ 256 ^ (rest.length + 1) :=
      Nat.pow_le_pow_right (by decide) (by simp at hlt; omega)
    obtain ⟨hlo, hhi⟩ := toInt_bounds other
    rw [hvalue] at hlo hhi
    have hlo' : -((256 ^ (rest.length + 1) : ℕ) : ℤ) ≤ 2 * toInt (b :: next :: rest) := by omega
    have hhi' : 2 * toInt (b :: next :: rest) < (256 ^ (rest.length + 1) : ℕ) := by omega
    exact h b next rest rfl (isFiller_of_fits hlo' hhi')

/-- Two byte strings of one length and one value are the same. -/
theorem eq_of_toInt_eq {as bs : List UInt8} (hlen : as.length = bs.length)
    (h : toInt as = toInt bs) : as = bs := by
  rw [← ofInt_toInt as, hlen, h, ofInt_toInt]

end BigEndian
