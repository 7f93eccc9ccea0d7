import Cdm.Feature.Facts
import Cdm.Codec.Framing

/-!
# The framing the features read

The features' own reader of serialized maps and lists accepts what the reader of the codec accepts,
and returns the same elements.  Neither looks at the bytes behind the last element, and both take
any negative length for a null.
-/

namespace Cdm

open List

namespace FeatureWire

open Fallible

variable {what : String} {bytes : Bytes}

theorem takeElement_eq_ok {p : RawCell × Bytes} :
    takeElement what bytes = .ok p ↔ Wire.takeElement bytes = .ok p := mapError_eq_ok

theorem takeElements_eq_ok {n : ℕ} {elements : List RawCell} :
    takeElements what n bytes = .ok elements ↔
      ∃ rest, Wire.takeElements n bytes = .ok (elements, rest) := by
  induction n generalizing bytes elements with
  | zero =>
    constructor
    · rintro ⟨⟩
      exact ⟨bytes, rfl⟩
    · rintro ⟨rest, ⟨⟩⟩
      rfl
  | succ n ih =>
    rw [takeElements, bind_eq_ok]
    constructor
    · rintro ⟨⟨element, between⟩, helement, h⟩
      obtain ⟨others, hothers, h⟩ := bind_eq_ok.1 h
      cases h
      obtain ⟨rest, hrest⟩ := ih.1 hothers
      exact ⟨rest, Wire.takeElements_cons_eq_ok.2
        ⟨element, between, others, takeElement_eq_ok.1 helement, hrest, rfl⟩⟩
    · rintro ⟨rest, h⟩
      obtain ⟨element, between, others, helement, hothers, rfl⟩ := Wire.takeElements_cons_eq_ok.1 h
      exact ⟨(element, between), takeElement_eq_ok.2 helement,
        bind_eq_ok.2 ⟨others, ih.2 ⟨rest, hothers⟩, rfl⟩⟩

theorem takeEntries_eq_ok {n : ℕ} {entries : List (RawCell × RawCell)} :
    takeEntries what n bytes = .ok entries ↔
      ∃ rest, Wire.takeEntries n bytes = .ok (entries, rest) := by
  induction n generalizing bytes entries with
  | zero =>
    constructor
    · rintro ⟨⟩
      exact ⟨bytes, rfl⟩
    · rintro ⟨rest, ⟨⟩⟩
      rfl
  | succ n ih =>
    rw [takeEntries, bind_eq_ok]
    constructor
    · rintro ⟨⟨key, between⟩, hkey, h⟩
      obtain ⟨⟨value, behind⟩, hvalue, h⟩ := bind_eq_ok.1 h
      obtain ⟨others, hothers, h⟩ := bind_eq_ok.1 h
      cases h
      obtain ⟨rest, hrest⟩ := ih.1 hothers
      exact ⟨rest, Wire.takeEntries_cons_eq_ok.2 ⟨key, between, value, behind, others,
        takeElement_eq_ok.1 hkey, takeElement_eq_ok.1 hvalue, hrest, rfl⟩⟩
    · rintro ⟨rest, h⟩
      obtain ⟨key, between, value, behind, others, hkey, hvalue, hothers, rfl⟩ :=
        Wire.takeEntries_cons_eq_ok.1 h
      exact ⟨(key, between), takeElement_eq_ok.2 hkey, bind_eq_ok.2 ⟨(value, behind),
        takeElement_eq_ok.2 hvalue, bind_eq_ok.2 ⟨others, ih.2 ⟨rest, hothers⟩, rfl⟩⟩⟩

theorem takeCount_eq_ok {count : ℕ} {rest : Bytes} :
    takeCount what bytes = .ok (count, rest) ↔ Wire.takeI32 bytes = .ok ((count : ℤ), rest) := by
  rw [takeCount, bind_eq_ok]
  constructor
  · rintro ⟨⟨i, behind⟩, hread, h⟩
    simp only at h
    split_ifs at h with hneg
    cases h
    rw [Int.toNat_of_nonneg (not_lt.1 hneg)]
    exact mapError_eq_ok.1 hread
  · intro h
    have hneg : ¬((count : ℤ) < 0) := by omega
    refine ⟨((count : ℤ), rest), mapError_eq_ok.2 h, ?_⟩
    simp only [hneg, if_false, Int.toNat_natCast]

/-- A map is read as the entries behind its count. -/
theorem mapEntries_eq_ok {entries : List (RawCell × RawCell)} :
    mapEntries bytes = .ok entries ↔ ∃ (count : ℕ) (rest after : Bytes),
      Wire.takeI32 bytes = .ok ((count : ℤ), rest) ∧
        Wire.takeEntries count rest = .ok (entries, after) := by
  rw [mapEntries, bind_eq_ok]
  constructor
  · rintro ⟨⟨count, rest⟩, hcount, h⟩
    obtain ⟨after, hafter⟩ := takeEntries_eq_ok.1 h
    exact ⟨count, rest, after, takeCount_eq_ok.1 hcount, hafter⟩
  · rintro ⟨count, rest, after, hcount, hafter⟩
    exact ⟨(count, rest), takeCount_eq_ok.2 hcount, takeEntries_eq_ok.2 ⟨after, hafter⟩⟩

/-- A list is read as the elements behind its count. -/
theorem listElements_eq_ok {elements : List RawCell} :
    listElements bytes = .ok elements ↔ ∃ (count : ℕ) (rest after : Bytes),
      Wire.takeI32 bytes = .ok ((count : ℤ), rest) ∧
        Wire.takeElements count rest = .ok (elements, after) := by
  rw [listElements, bind_eq_ok]
  constructor
  · rintro ⟨⟨count, rest⟩, hcount, h⟩
    obtain ⟨after, hafter⟩ := takeElements_eq_ok.1 h
    exact ⟨count, rest, after, takeCount_eq_ok.1 hcount, hafter⟩
  · rintro ⟨count, rest, after, hcount, hafter⟩
    exact ⟨(count, rest), takeCount_eq_ok.2 hcount, takeElements_eq_ok.2 ⟨after, hafter⟩⟩

/-- A map reads back as it was written. -/
theorem mapEntries_of_isMap {entries : List (RawCell × RawCell)}
    (h : Wire.IsMap entries.length entries bytes) : mapEntries bytes = .ok entries := by
  obtain ⟨rest, hcount, hrest⟩ := h.read
  exact mapEntries_eq_ok.2 ⟨entries.length, rest, [], hcount, hrest⟩

/-- A list reads back as it was written. -/
theorem listElements_of_isSequence {elements : List RawCell}
    (h : Wire.IsSequence elements bytes) : listElements bytes = .ok elements := by
  obtain ⟨rest, hcount, hrest⟩ := h.read
  exact listElements_eq_ok.2 ⟨elements.length, rest, [], hcount, hrest⟩

/-! ### The bytes of a list that is read -/

/-- An element on the wire: a negative length, which stands for a null, or the bytes of a value
behind their length. -/
inductive Slot where
  | null (length : ℤ)
  | value (bytes : Bytes)

namespace Slot

/-- The element it is. -/
def cell : Slot → RawCell
  | null _ => none
  | value bytes => some bytes

/-- The bytes of it. -/
def written : Slot → Bytes
  | null length => Wire.writeI32 length
  | value bytes => Wire.writeI32 bytes.length ++ bytes

/-- The length is one of an element, and fits in an `i32`. -/
def Fits : Slot → Prop
  | null length => -2 ^ 31 ≤ length ∧ length < 0
  | value bytes => bytes.length < 2 ^ 31

theorem some_mem_map_cell {slots : List Slot} {value : Bytes} :
    some value ∈ slots.map cell ↔ .value value ∈ slots := by
  rw [mem_map]
  constructor
  · rintro ⟨slot, hslot, hcell⟩
    cases slot with
    | null length => cases hcell
    | value bytes =>
      cases hcell
      exact hslot
  · intro h
    exact ⟨.value value, h, rfl⟩

theorem takeElement_append {slot : Slot} (h : slot.Fits) (rest : Bytes) :
    Wire.takeElement (slot.written ++ rest) = .ok (slot.cell, rest) := by
  cases slot with
  | null length => exact Wire.takeElement_eq_ok.2 (.inl ⟨length, rfl, rfl, h⟩)
  | value bytes => exact Wire.takeElement_eq_ok.2 (.inr ⟨bytes, rfl, if_pos h, rfl⟩)

theorem exists_of_takeElement {bytes rest : Bytes} {element : RawCell}
    (h : Wire.takeElement bytes = .ok (element, rest)) :
    ∃ slot : Slot, slot.Fits ∧ element = slot.cell ∧ bytes = slot.written ++ rest := by
  rcases Wire.takeElement_eq_ok.1 h with ⟨length, rfl, hbytes, hfits⟩ | ⟨value, rfl, hwrite, hbytes⟩
  · exact ⟨null length, hfits, rfl, hbytes⟩
  · rw [Wire.writeElement] at hwrite
    split_ifs at hwrite with hfits
    exact ⟨.value value, hfits, rfl, hbytes⟩

/-- What is read as elements is one slot after the other. -/
theorem takeElements_eq_ok {n : ℕ} {bytes rest : Bytes} {elements : List RawCell} :
    Wire.takeElements n bytes = .ok (elements, rest) ↔ ∃ slots : List Slot, slots.length = n ∧
      (∀ slot ∈ slots, slot.Fits) ∧ elements = slots.map cell ∧
      bytes = slots.flatMap Slot.written ++ rest := by
  induction n generalizing bytes elements with
  | zero =>
    constructor
    · rintro ⟨⟩
      exact ⟨[], rfl, fun _ h => absurd h not_mem_nil, rfl, rfl⟩
    · rintro ⟨slots, hlength, -, rfl, rfl⟩
      rw [length_eq_zero_iff.1 hlength]
      rfl
  | succ n ih =>
    rw [Wire.takeElements_cons_eq_ok]
    constructor
    · rintro ⟨element, between, others, helement, hothers, rfl⟩
      obtain ⟨slot, hslot, rfl, rfl⟩ := exists_of_takeElement helement
      obtain ⟨slots, hlength, hslots, rfl, rfl⟩ := ih.1 hothers
      refine ⟨slot :: slots, congrArg Nat.succ hlength, forall_mem_cons.2 ⟨hslot, hslots⟩,
        rfl, ?_⟩
      rw [flatMap_cons, append_assoc]
    · rintro ⟨slots, hlength, hslots, rfl, rfl⟩
      obtain ⟨slot, slots, rfl⟩ := exists_cons_of_length_eq_add_one hlength
      obtain ⟨hslot, hslots⟩ := forall_mem_cons.1 hslots
      refine ⟨slot.cell, slots.flatMap Slot.written ++ rest, slots.map cell, ?_,
        ih.2 ⟨slots, Nat.succ.inj hlength, hslots, rfl, rfl⟩, rfl⟩
      rw [flatMap_cons, append_assoc]
      exact takeElement_append hslot _

/-- The slots are what is written for their elements, where every null has the null marker. -/
theorem writeElements_eq_ok_iff {slots : List Slot} (h : ∀ slot ∈ slots, slot.Fits) :
    Wire.writeElements (slots.map cell) = .ok (slots.flatMap written) ↔
      ∀ length, null length ∈ slots → length = -1 := by
  induction slots with
  | nil => simp [Wire.writeElements]
  | cons slot slots ih =>
    obtain ⟨hslot, hslots⟩ := forall_mem_cons.1 h
    rw [map_cons, Wire.writeElements_cons_eq_ok, flatMap_cons]
    cases slot with
    | null length =>
      constructor
      · rintro ⟨first, others, ⟨⟩, hothers, heq⟩
        have hlength : length = -1 := by
          simp only [Fits] at hslot
          exact (Wire.writeI32_inj (by omega) (by omega) heq).1
        have hrest := (append_inj heq (by simp [written])).2
        rw [← hrest] at hothers
        intro length' hlength'
        rcases mem_cons.1 hlength' with heq | hlength'
        · cases heq
          exact hlength
        · exact (ih hslots).1 hothers length' hlength'
      · intro hall
        refine ⟨written (null length), _, ?_, (ih hslots).2 fun length' hlength' =>
          hall length' (mem_cons_of_mem _ hlength'), rfl⟩
        rw [hall length mem_cons_self]
        rfl
    | value value =>
      have hfirst : Wire.writeElement (cell (.value value)) = .ok (written (.value value)) :=
        if_pos hslot
      constructor
      · rintro ⟨first, others, hwritten, hothers, heq⟩
        rw [hfirst] at hwritten
        cases hwritten
        rw [← append_cancel_left heq] at hothers
        intro length hlength
        rcases mem_cons.1 hlength with heq | hlength
        · cases heq
        · exact (ih hslots).1 hothers length hlength
      · intro hall
        exact ⟨_, _, hfirst, (ih hslots).2 fun length hlength =>
          hall length (mem_cons_of_mem _ hlength), rfl⟩

end Slot

/-- A list that is read: its count, which is not negative, that many slots, and what is left
behind. -/
structure IsList (slots : List Slot) (behind bytes : Bytes) : Prop where
  count : slots.length < 2 ^ 31
  fits : ∀ slot ∈ slots, slot.Fits
  eq : bytes = Wire.writeI32 slots.length ++ (slots.flatMap Slot.written ++ behind)

/-- There are bytes behind the last slot, or a null has another length than `-1`. -/
def Slipped (slots : List Slot) (behind : Bytes) : Prop :=
  behind ≠ [] ∨ ∃ length, .null length ∈ slots ∧ length ≠ -1

theorem listElements_eq_ok_iff {elements : List RawCell} :
    listElements bytes = .ok elements ↔
      ∃ slots behind, IsList slots behind bytes ∧ elements = slots.map Slot.cell := by
  rw [listElements_eq_ok]
  constructor
  · rintro ⟨count, rest, behind, hcount, hread⟩
    obtain ⟨rfl, -, hlt⟩ := Wire.takeI32_eq_ok.1 hcount
    obtain ⟨slots, rfl, hfits, rfl, rfl⟩ := Slot.takeElements_eq_ok.1 hread
    exact ⟨slots, behind, ⟨by omega, hfits, rfl⟩, rfl⟩
  · rintro ⟨slots, behind, h, rfl⟩
    have hcount := h.count
    exact ⟨slots.length, _, behind, Wire.takeI32_eq_ok.2 ⟨h.eq, by omega, by omega⟩,
      Slot.takeElements_eq_ok.2 ⟨slots, rfl, h.fits, rfl, rfl⟩⟩

/-- A list that is read is well formed unless it is slipped. -/
theorem IsList.isSequence_iff {slots : List Slot} {behind : Bytes} (h : IsList slots behind bytes) :
    (∃ elements, Wire.IsSequence elements bytes) ↔ ¬Slipped slots behind := by
  have hbehind : Wire.takeElements slots.length (slots.flatMap Slot.written ++ behind) =
      .ok (slots.map Slot.cell, behind) := Slot.takeElements_eq_ok.2 ⟨slots, rfl, h.fits, rfl, rfl⟩
  have hwritten := Slot.writeElements_eq_ok_iff h.fits
  have hcount := h.count
  rw [Slipped, not_or, not_not]
  push Not
  constructor
  · rintro ⟨elements, hlt, out, hout, heq⟩
    obtain ⟨hlength, rfl⟩ := Wire.writeI32_inj (by omega) (by omega) (h.eq.symm.trans heq)
    have hread := Wire.takeElements_append hout []
    rw [append_nil, ← Int.natCast_inj.1 hlength, hbehind] at hread
    cases hread
    rw [append_nil] at hout
    exact ⟨rfl, hwritten.1 hout⟩
  · rintro ⟨rfl, hnull⟩
    refine ⟨slots.map Slot.cell, by rwa [length_map], _, hwritten.2 hnull, ?_⟩
    rw [h.eq, length_map, append_nil]

end FeatureWire

end Cdm
