import Cdm.Planner.Plan
import Cdm.Lib.Fallible

/-!
# Partitioners and the bounds of a plan

The part of the ring a run plans is the partitioner's whole ring, narrowed by `filter.token.min`
and `filter.token.max`.  `ByteOrderedPartitioner` has no numeric ring, so there both bounds have to
be configured and nothing but their order is checked.
-/

namespace Cdm

/-- An `i128`. -/
structure I128 where
  val : ℤ
  i128Min_le : i128Min ≤ val
  le_i128Max : val ≤ i128Max

instance : DecidableEq I128 := fun a b =>
  decidable_of_iff (a.val = b.val) ⟨fun h => by cases a; cases b; cases h; rfl, congrArg I128.val⟩

namespace TokenRange

/-- The full Murmur3 ring. -/
def murmur3Full : TokenRange := ⟨i64Min, i64Max, by decide, by decide, by decide⟩

theorem i128Min_nonpos : i128Min ≤ 0 := by decide

/-- The full `RandomPartitioner` ring. -/
def randomFull : TokenRange := ⟨0, i128Max, by decide, i128Min_nonpos, by decide⟩

/-- The lower bound of a range, as the `i128` it is. -/
def lower (r : TokenRange) : I128 := ⟨r.min, r.i128Min_le, r.min_le_max.trans r.le_i128Max⟩

/-- The upper bound of a range, as the `i128` it is. -/
def upper (r : TokenRange) : I128 := ⟨r.max, r.i128Min_le.trans r.min_le_max, r.le_i128Max⟩

/-- Whether `other` is entirely inside this range. -/
def containsRange (r other : TokenRange) : Bool := r.min ≤ other.min && other.max ≤ r.max

theorem containsRange_iff {r s : TokenRange} :
    r.containsRange s = true ↔ r.min ≤ s.min ∧ s.max ≤ r.max := by
  simp [containsRange]

theorem new_eq_ok {min max : ℤ} {hmin : i128Min ≤ min} {hmax : max ≤ i128Max} {r : TokenRange}
    (h : TokenRange.new min max hmin hmax = .ok r) : r.min = min ∧ r.max = max := by
  unfold TokenRange.new at h
  split_ifs at h with hle
  cases h
  exact ⟨rfl, rfl⟩

end TokenRange

/-- Wraps a bounds failure in the config key the operator has to change. -/
def boundsError (message : String) : CdmError :=
  CdmError.withConfigKey ⟨.config, message, {}⟩ "filter.token"

namespace Partitioner

/-- The class name without its package. -/
def shortName : Partitioner → String
  | murmur3 => "Murmur3Partitioner"
  | random => "RandomPartitioner"
  | byteOrdered => "ByteOrderedPartitioner"

/-- The full token ring of the partitioner. -/
def fullRing : Partitioner → Option TokenRange
  | murmur3 => some TokenRange.murmur3Full
  | random => some TokenRange.randomFull
  | byteOrdered => none

/-- The segment of the ring to plan: the configured bounds over the partitioner's defaults. -/
def resolveBounds (p : Partitioner) (min max : Option I128) : Except CdmError TokenRange :=
  match p.fullRing with
  | none =>
    match min, max with
    | some min, some max =>
      (TokenRange.new min.val max.val min.i128Min_le max.le_i128Max).mapError
        fun e => boundsError e.message
    | _, _ =>
      .error ⟨.config, p.shortName ++ " has no numeric token ring, so `filter.token.min` and " ++
        "`filter.token.max` must both be set to plan a run", {}⟩
  | some ring =>
    let min := min.getD ring.lower
    let max := max.getD ring.upper
    if !ring.contains min.val || !ring.contains max.val then
      .error (boundsError (s!"token bounds [{min.val}, {max.val}] fall outside the " ++
        s!"{p.shortName} ring {ring}"))
    else
      (TokenRange.new min.val max.val min.i128Min_le max.le_i128Max).mapError
        fun e => boundsError e.message

/-- **Accepted bounds lie inside the ring**, where the partitioner has one. -/
theorem resolveBounds_of_fullRing {p : Partitioner} {min max : Option I128}
    {bounds ring : TokenRange} (h : p.resolveBounds min max = .ok bounds)
    (hring : p.fullRing = some ring) : ring.containsRange bounds = true := by
  simp only [resolveBounds, hring] at h
  split_ifs at h with hout
  simp only [Bool.or_eq_true, Bool.not_eq_eq_eq_not, Bool.not_true, not_or,
    Bool.not_eq_false] at hout
  obtain ⟨hmin, hmax⟩ := hout
  obtain ⟨h₁, h₂⟩ := TokenRange.new_eq_ok (Fallible.mapError_eq_ok.1 h)
  rw [TokenRange.containsRange_iff, h₁, h₂]
  exact ⟨(TokenRange.contains_iff.1 hmin).1, (TokenRange.contains_iff.1 hmax).2⟩

end Partitioner

end Cdm
