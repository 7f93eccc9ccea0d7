import Cdm.Codec.DateRange

/-!
# The bytes of a date range

A byte for the kind of the range, and for each bound eight bytes for the milliseconds and one for
the precision.  The decoder reads the bounds that the kind has and never looks at what is left of
the buffer.
-/

namespace Cdm

open Fallible List

namespace Precision

def code : Precision → UInt8
  | year => 0
  | month => 1
  | day => 2
  | hour => 3
  | minute => 4
  | second => 5
  | millisecond => 6

def fromCode (code : UInt8) : Option Precision :=
  match code with
  | 0 => some year
  | 1 => some month
  | 2 => some day
  | 3 => some hour
  | 4 => some minute
  | 5 => some second
  | 6 => some millisecond
  | _ => none

theorem fromCode_eq_some {code : UInt8} {precision : Precision} :
    fromCode code = some precision ↔ code = precision.code := by
  constructor
  · intro h
    unfold fromCode at h
    split at h <;> cases h <;> rfl
  · rintro rfl
    cases precision <;> rfl

end Precision

/-- The milliseconds are an `i64`. -/
def DateRangeBound.IsI64 (bound : DateRangeBound) : Prop :=
  -2 ^ 63 ≤ bound.millis ∧ bound.millis < 2 ^ 63

namespace DateRange

/-- A bound, and what follows it. -/
def takeBound (rest : Bytes) : Except CdmError (DateRangeBound × Bytes) :=
  if 9 ≤ rest.length then
    let raw := rest.take 9
    let code := raw[8]?.getD 0xff
    match Precision.fromCode code with
    | none => .error (Wire.conversionError s!"unknown date-range precision code {code}")
    | some precision => .ok (⟨BigEndian.toInt (raw.take 8), precision⟩, rest.drop 9)
  else .error (Wire.conversionError "truncated date-range bound")

/-- Decodes the date-range encoding. -/
def fromBytes (bytes : Bytes) : Except CdmError DateRange :=
  match bytes with
  | [] => .error (Wire.conversionError "empty date-range value")
  | kind :: rest =>
    match kind with
    | 0 => do
      let (bound, _) ← takeBound rest
      return single bound
    | 1 => do
      let (lower, rest) ← takeBound rest
      let (upper, _) ← takeBound rest
      return closed lower upper
    | 2 => do
      let (lower, _) ← takeBound rest
      return openUpper lower
    | 3 => do
      let (upper, _) ← takeBound rest
      return openLower upper
    | 4 => .ok bothOpen
    | 5 => .ok singleOpen
    | other => .error (Wire.conversionError s!"unknown date-range kind {other}")

def pushBound (bound : DateRangeBound) : Bytes :=
  Wire.writeI64 bound.millis ++ [bound.precision.code]

/-- Encodes the date-range encoding. -/
def toBytes : DateRange → Bytes
  | single bound => 0 :: pushBound bound
  | closed lower upper => 1 :: (pushBound lower ++ pushBound upper)
  | openUpper lower => 2 :: pushBound lower
  | openLower upper => 3 :: pushBound upper
  | bothOpen => [4]
  | singleOpen => [5]

/-- The milliseconds of every bound are an `i64`. -/
def IsI64 : DateRange → Prop
  | single bound => bound.IsI64
  | closed lower upper => lower.IsI64 ∧ upper.IsI64
  | openUpper lower => lower.IsI64
  | openLower upper => upper.IsI64
  | bothOpen | singleOpen => True

/-- How many bytes an encoding has that starts like the buffer. -/
def encodedLength (bytes : Bytes) : ℕ :=
  match bytes.head? with
  | some 0 | some 2 | some 3 => 10
  | some 1 => 19
  | _ => 1

/-! ### Bounds -/

@[simp] theorem length_pushBound (bound : DateRangeBound) : (pushBound bound).length = 9 := by
  simp [pushBound, Wire.writeI64]

theorem takeBound_eq_ok {bytes rest : Bytes} {bound : DateRangeBound} :
    takeBound bytes = .ok (bound, rest) ↔ bytes = pushBound bound ++ rest ∧ bound.IsI64 := by
  constructor
  · intro h
    rw [takeBound] at h
    split_ifs at h with hlong
    dsimp only at h
    split at h
    · cases h
    · rename_i precision hcode
      cases h
      rw [Precision.fromCode_eq_some] at hcode
      have hlen : (bytes.take 8).length = 8 := by
        rw [length_take]
        omega
      have hbound := BigEndian.toInt_bounds (bytes.take 8)
      rw [hlen] at hbound
      have htake : (bytes.take 9).take 8 = bytes.take 8 := by rw [take_take]; rfl
      have hlast : bytes.take 9 = bytes.take 8 ++ [precision.code] := by
        have hget : bytes[8]? = some bytes[8] := getElem?_eq_getElem hlong
        rw [getElem?_take_of_lt (by omega), hget, Option.getD_some] at hcode
        rw [← hcode, take_succ_eq_append_getElem hlong]
      refine ⟨?_, ?_⟩
      · rw [pushBound, Wire.writeI64, htake]
        have hmillis := BigEndian.ofInt_toInt (bytes.take 8)
        rw [hlen] at hmillis
        rw [hmillis, ← hlast, take_append_drop]
      · rw [DateRangeBound.IsI64]
        dsimp only
        rw [htake]
        norm_num at hbound ⊢
        omega
  · rintro ⟨rfl, hlo, hhi⟩
    have hmillis : (Wire.writeI64 bound.millis).length = 8 := BigEndian.length_ofInt 8 _
    have htake : (pushBound bound ++ rest).take 9 = pushBound bound :=
      take_left' (length_pushBound bound)
    have hdrop : (pushBound bound ++ rest).drop 9 = rest :=
      drop_left' (length_pushBound bound)
    have hvalue : BigEndian.toInt ((pushBound bound).take 8) = bound.millis := by
      rw [pushBound, take_left' hmillis, Wire.writeI64,
        BigEndian.toInt_ofInt (by norm_num; omega) (by norm_num; omega)]
    have hcode : (pushBound bound)[8]?.getD 0xff = bound.precision.code := by
      rw [pushBound, getElem?_append_right hmillis.le, hmillis]
      rfl
    rw [takeBound, if_pos (by simp), htake, hdrop]
    dsimp only
    rw [hcode, Precision.fromCode_eq_some.2 rfl, hvalue]

/-! ### Ranges -/

/-- What is decoded is an encoding, with any bytes behind it. -/
theorem fromBytes_eq_ok {bytes : Bytes} {range : DateRange} :
    fromBytes bytes = .ok range ↔ (∃ behind, bytes = range.toBytes ++ behind) ∧ range.IsI64 := by
  constructor
  · intro h
    unfold fromBytes at h
    split at h
    · cases h
    · split at h
      · obtain ⟨⟨bound, behind⟩, hbound, h⟩ := bind_eq_ok.1 h
        cases h
        obtain ⟨rfl, hi64⟩ := takeBound_eq_ok.1 hbound
        exact ⟨⟨behind, rfl⟩, hi64⟩
      · obtain ⟨⟨lower, rest⟩, hlower, h⟩ := bind_eq_ok.1 h
        obtain ⟨⟨upper, behind⟩, hupper, h⟩ := bind_eq_ok.1 h
        cases h
        obtain ⟨rfl, hlo⟩ := takeBound_eq_ok.1 hlower
        obtain ⟨rfl, hhi⟩ := takeBound_eq_ok.1 hupper
        exact ⟨⟨behind, by simp [toBytes]⟩, hlo, hhi⟩
      · obtain ⟨⟨bound, behind⟩, hbound, h⟩ := bind_eq_ok.1 h
        cases h
        obtain ⟨rfl, hi64⟩ := takeBound_eq_ok.1 hbound
        exact ⟨⟨behind, rfl⟩, hi64⟩
      · obtain ⟨⟨bound, behind⟩, hbound, h⟩ := bind_eq_ok.1 h
        cases h
        obtain ⟨rfl, hi64⟩ := takeBound_eq_ok.1 hbound
        exact ⟨⟨behind, rfl⟩, hi64⟩
      · cases h
        exact ⟨⟨_, rfl⟩, trivial⟩
      · cases h
        exact ⟨⟨_, rfl⟩, trivial⟩
      · cases h
  · rintro ⟨⟨behind, rfl⟩, hi64⟩
    cases range with
    | single bound =>
      exact bind_eq_ok.2 ⟨(bound, behind), takeBound_eq_ok.2 ⟨rfl, hi64⟩, rfl⟩
    | closed lower upper =>
      have hlower : takeBound (pushBound lower ++ pushBound upper ++ behind) =
          .ok (lower, pushBound upper ++ behind) :=
        takeBound_eq_ok.2 ⟨append_assoc .., hi64.1⟩
      exact bind_eq_ok.2 ⟨_, hlower,
        bind_eq_ok.2 ⟨(upper, behind), takeBound_eq_ok.2 ⟨rfl, hi64.2⟩, rfl⟩⟩
    | openUpper lower =>
      exact bind_eq_ok.2 ⟨(lower, behind), takeBound_eq_ok.2 ⟨rfl, hi64⟩, rfl⟩
    | openLower upper =>
      exact bind_eq_ok.2 ⟨(upper, behind), takeBound_eq_ok.2 ⟨rfl, hi64⟩, rfl⟩
    | bothOpen => rfl
    | singleOpen => rfl

theorem encodedLength_toBytes (range : DateRange) (behind : Bytes) :
    encodedLength (range.toBytes ++ behind) = range.toBytes.length := by
  cases range <;> simp [toBytes, encodedLength]

/-- **When the bytes of a date range come back.** Every date range comes back from its bytes, and
an accepted buffer comes back from its date range exactly when there is nothing behind the bounds
that its first byte announces. -/
theorem bytes_roundTrip_iff (bytes : Bytes) (range : DateRange) :
    (range.IsI64 → fromBytes range.toBytes = .ok range) ∧
      (fromBytes bytes = .ok range →
        (range.toBytes = bytes ↔ bytes.length = encodedLength bytes)) := by
  refine ⟨fun hi64 => ?_, fun h => ?_⟩
  · exact fromBytes_eq_ok.2 ⟨⟨[], (append_nil _).symm⟩, hi64⟩
  · obtain ⟨⟨behind, rfl⟩, -⟩ := fromBytes_eq_ok.1 h
    rw [encodedLength_toBytes, length_append, self_eq_append_right]
    simp

/-- From the year 2001 on. -/
theorem bytes_roundTrip_openUpper :
    fromBytes (openUpper ⟨978307200000, .year⟩).toBytes =
        .ok (openUpper ⟨978307200000, .year⟩) ∧
      toBytes singleOpen = [5] :=
  ⟨(bytes_roundTrip_iff [] _).1 ⟨by decide, by decide⟩,
    ((bytes_roundTrip_iff [5] singleOpen).2 rfl).2 rfl⟩

/-- A byte behind an open range is accepted, and lost. -/
theorem not_bytes_roundTrip :
    ¬ ((∀ range : DateRange, range.IsI64 → fromBytes range.toBytes = .ok range) ∧
      ∀ bytes range, fromBytes bytes = .ok range → range.toBytes = bytes) := by
  rintro ⟨-, h⟩
  cases h [4, 0] bothOpen rfl

end DateRange

end Cdm
