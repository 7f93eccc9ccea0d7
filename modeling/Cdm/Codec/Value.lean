import Cdm.Codec.Framing
import Cdm.Lib.Encoded

/-!
# Values as trees

What a cell says, without the framing: nothing, a value that is not taken apart, a sequence of
elements, the entries of a map, or the components of a tuple or a UDT.  A record may have fewer
components than its type, as it may be serialized with fewer.
-/

namespace Cdm

open Fallible List
open Wire

/-- A value as a tree. -/
inductive CqlValue
  | null
  /-- A value that is not taken apart, with its bytes. -/
  | leaf (bytes : Bytes)
  /-- The elements of a list or a set. -/
  | sequence (elements : List CqlValue)
  | entries (pairs : List (CqlValue × CqlValue))
  /-- The components of a tuple or the fields of a UDT, which may be fewer than the type has. -/
  | record (components : List CqlValue)

namespace CqlValue

/-! ### Equality -/

mutual

def beq : CqlValue → CqlValue → Bool
  | null, null => true
  | leaf a, leaf b => a = b
  | sequence as, sequence bs | record as, record bs => beqList as bs
  | entries as, entries bs => beqEntries as bs
  | _, _ => false

def beqList : List CqlValue → List CqlValue → Bool
  | [], [] => true
  | a :: as, b :: bs => beq a b && beqList as bs
  | _, _ => false

def beqEntries : List (CqlValue × CqlValue) → List (CqlValue × CqlValue) → Bool
  | [], [] => true
  | (ka, va) :: as, (kb, vb) :: bs => beq ka kb && beq va vb && beqEntries as bs
  | _, _ => false

end

mutual

theorem beq_iff (a b : CqlValue) : beq a b = true ↔ a = b := by
  cases a <;> cases b <;> simp [beq, beqList_iff, beqEntries_iff]

theorem beqList_iff (as bs : List CqlValue) : beqList as bs = true ↔ as = bs := by
  cases as <;> cases bs <;> simp [beqList, beq_iff, beqList_iff]

theorem beqEntries_iff (as bs : List (CqlValue × CqlValue)) :
    beqEntries as bs = true ↔ as = bs := by
  cases as with
  | nil => cases bs <;> simp [beqEntries]
  | cons a as =>
    cases bs with
    | nil => simp [beqEntries]
    | cons b bs =>
      obtain ⟨ka, va⟩ := a
      obtain ⟨kb, vb⟩ := b
      simp [beqEntries, beq_iff, beqEntries_iff]

end

instance : DecidableEq CqlValue := fun a b => decidable_of_iff _ (beq_iff a b)

/-! ### Serialization -/

/-- The bytes of a sequence, with its count. -/
def frameSequence (cells : List RawCell) : Except CdmError Bytes :=
  if cells.length < 2 ^ 31 then (writeElements cells).map (writeI32 cells.length ++ ·)
  else .error (conversionError "collection has more than 2^31 elements")

/-- The bytes of a map, with its count. -/
def frameEntries (cells : List (RawCell × RawCell)) : Except CdmError Bytes :=
  if cells.length < 2 ^ 31 then (writeElements (flatten cells)).map (writeI32 cells.length ++ ·)
  else .error (conversionError "collection has more than 2^31 elements")

mutual

/-- A value as a cell.  What is too long to be framed is not a value. -/
def cell : CqlValue → Except CdmError RawCell
  | null => .ok none
  | leaf bytes => .ok (some bytes)
  | sequence elements => do
    let cells ← cells elements
    (frameSequence cells).map some
  | entries pairs => do
    let cells ← entryCells pairs
    (frameEntries cells).map some
  | record components => do
    let cells ← cells components
    (writeElements cells).map some

def cells : List CqlValue → Except CdmError (List RawCell)
  | [] => .ok []
  | value :: values => do
    let first ← cell value
    let others ← cells values
    return first :: others

def entryCells : List (CqlValue × CqlValue) → Except CdmError (List (RawCell × RawCell))
  | [] => .ok []
  | (key, value) :: pairs => do
    let key ← cell key
    let value ← cell value
    let others ← entryCells pairs
    return (key, value) :: others

end

/-- An entry as two cells. -/
def entryCell (pair : CqlValue × CqlValue) : Except CdmError (RawCell × RawCell) := do
  let key ← pair.1.cell
  let value ← pair.2.cell
  return (key, value)

theorem cells_eq_mapM (values : List CqlValue) : cells values = values.mapM cell := by
  induction values with
  | nil => rfl
  | cons value values ih => rw [cells, ih, mapM_cons]

theorem entryCell_eq_ok {pair : CqlValue × CqlValue} {cells : RawCell × RawCell} :
    entryCell pair = .ok cells ↔ pair.1.cell = .ok cells.1 ∧ pair.2.cell = .ok cells.2 := by
  rw [entryCell, bind_eq_ok]
  constructor
  · rintro ⟨key, hkey, h⟩
    obtain ⟨value, hvalue, h⟩ := bind_eq_ok.1 h
    cases h
    exact ⟨hkey, hvalue⟩
  · rintro ⟨hkey, hvalue⟩
    exact ⟨cells.1, hkey, bind_eq_ok.2 ⟨cells.2, hvalue, rfl⟩⟩

theorem entryCells_eq_mapM (pairs : List (CqlValue × CqlValue)) :
    entryCells pairs = pairs.mapM entryCell := by
  induction pairs with
  | nil => rfl
  | cons pair pairs ih =>
    obtain ⟨key, value⟩ := pair
    rw [entryCells, ih, mapM_cons, entryCell]
    cases key.cell with
    | error e => rfl
    | ok key =>
      cases value.cell with
      | error e => rfl
      | ok value => rfl

theorem frameSequence_eq_ok {cells : List RawCell} {bytes : Bytes} :
    frameSequence cells = .ok bytes ↔ IsSequence cells bytes := by
  rw [frameSequence, IsSequence]
  split_ifs with h
  · rw [map_eq_ok]
    simp only [h, true_and, eq_comm]
  · simp only [h, false_and]

theorem frameEntries_eq_ok {cells : List (RawCell × RawCell)} {bytes : Bytes} :
    frameEntries cells = .ok bytes ↔ IsMap cells.length cells bytes := by
  rw [frameEntries, IsMap]
  split_ifs with h
  · have hrange : -2 ^ 31 ≤ (cells.length : ℤ) ∧ (cells.length : ℤ) < 2 ^ 31 := by omega
    rw [map_eq_ok]
    simp only [hrange, Int.toNat_natCast, true_and, and_self, eq_comm]
  · have hrange : ¬(cells.length : ℤ) < 2 ^ 31 := by omega
    simp only [hrange, and_false, false_and]

theorem cell_sequence_eq_ok {elements : List CqlValue} {out : RawCell} :
    (sequence elements).cell = .ok out ↔ ∃ cells bytes, elements.mapM cell = .ok cells ∧
      IsSequence cells bytes ∧ out = some bytes := by
  rw [cell, cells_eq_mapM, bind_eq_ok]
  constructor
  · rintro ⟨cells, hcells, h⟩
    obtain ⟨bytes, hbytes, rfl⟩ := map_eq_ok.1 h
    exact ⟨cells, bytes, hcells, frameSequence_eq_ok.1 hbytes, rfl⟩
  · rintro ⟨cells, bytes, hcells, hframed, rfl⟩
    exact ⟨cells, hcells, map_eq_ok.2 ⟨bytes, frameSequence_eq_ok.2 hframed, rfl⟩⟩

theorem cell_entries_eq_ok {pairs : List (CqlValue × CqlValue)} {out : RawCell} :
    (entries pairs).cell = .ok out ↔ ∃ cells bytes, pairs.mapM entryCell = .ok cells ∧
      IsMap cells.length cells bytes ∧ out = some bytes := by
  rw [cell, entryCells_eq_mapM, bind_eq_ok]
  constructor
  · rintro ⟨cells, hcells, h⟩
    obtain ⟨bytes, hbytes, rfl⟩ := map_eq_ok.1 h
    exact ⟨cells, bytes, hcells, frameEntries_eq_ok.1 hbytes, rfl⟩
  · rintro ⟨cells, bytes, hcells, hframed, rfl⟩
    exact ⟨cells, hcells, map_eq_ok.2 ⟨bytes, frameEntries_eq_ok.2 hframed, rfl⟩⟩

theorem cell_record_eq_ok {components : List CqlValue} {out : RawCell} :
    (record components).cell = .ok out ↔ ∃ cells bytes, components.mapM cell = .ok cells ∧
      writeElements cells = .ok bytes ∧ out = some bytes := by
  rw [cell, cells_eq_mapM, bind_eq_ok]
  constructor
  · rintro ⟨cells, hcells, h⟩
    obtain ⟨bytes, hbytes, rfl⟩ := map_eq_ok.1 h
    exact ⟨cells, bytes, hcells, hbytes, rfl⟩
  · rintro ⟨cells, bytes, hcells, hbytes, rfl⟩
    exact ⟨cells, hcells, map_eq_ok.2 ⟨bytes, hbytes, rfl⟩⟩

/-- Only null is written as null. -/
theorem eq_null_of_cell {value : CqlValue} (h : value.cell = .ok none) : value = null := by
  cases value with
  | null => rfl
  | leaf bytes => cases h
  | sequence elements =>
    obtain ⟨cells, bytes, -, -, h⟩ := cell_sequence_eq_ok.1 h
    cases h
  | entries pairs =>
    obtain ⟨cells, bytes, -, -, h⟩ := cell_entries_eq_ok.1 h
    cases h
  | record components =>
    obtain ⟨cells, bytes, -, -, h⟩ := cell_record_eq_ok.1 h
    cases h

end CqlValue

/-! ### Values of a type -/

namespace CqlTypeInfo

/-- How the values of a type are taken apart. -/
inductive Shape
  /-- Not at all. -/
  | leaf
  /-- Into elements, which are to be distinct in a set. -/
  | sequence (isSet : Bool) (element : CqlTypeInfo)
  | entries (key value : CqlTypeInfo)
  | record (components : List CqlTypeInfo)

/-- How the values of the type are taken apart.  The elements of a vector are not framed. -/
def shape : CqlTypeInfo → Shape
  | list a _ => .sequence false a
  | set a _ => .sequence true a
  | map k v _ => .entries k v
  | tuple as => .record as
  | udt _ _ fields _ => .record (fields.map Prod.snd)
  | primitive _ | custom _ | vector _ _ => .leaf

end CqlTypeInfo

namespace CqlValue

/-- The trees that are values of a type. -/
inductive Fits : CqlTypeInfo → CqlValue → Prop
  | null (t : CqlTypeInfo) : Fits t null
  | leaf {t : CqlTypeInfo} (ht : t.shape = .leaf) (bytes : Bytes) : Fits t (leaf bytes)
  | sequence {t a : CqlTypeInfo} {isSet : Bool} {elements : List CqlValue}
    (ht : t.shape = .sequence isSet a)
    (h : ∀ e ∈ elements, Fits a e) : Fits t (sequence elements)
  | entries {t k v : CqlTypeInfo} {pairs : List (CqlValue × CqlValue)}
    (ht : t.shape = .entries k v) (hkey : ∀ e ∈ pairs, Fits k e.1)
    (hvalue : ∀ e ∈ pairs, Fits v e.2) : Fits t (entries pairs)
  | record {t : CqlTypeInfo} {as : List CqlTypeInfo} {components : List CqlValue}
    (ht : t.shape = .record as) (hlen : components.length ≤ as.length)
    (h : ∀ (i : ℕ) a c, as[i]? = some a → components[i]? = some c → Fits a c) :
    Fits t (record components)

/-- A record whose components are of the first component types. -/
theorem Fits.of_forall₂ {t : CqlTypeInfo} {as : List CqlTypeInfo} {components : List CqlValue}
    (rest : List CqlTypeInfo) (ht : t.shape = .record (as ++ rest))
    (h : List.Forall₂ Fits as components) : Fits t (.record components) := by
  refine .record ht ?_ fun i a c ha hc => ?_
  · rw [length_append, ← h.length_eq]
    omega
  · obtain ⟨hi, rfl⟩ := List.getElem?_eq_some_iff.1 hc
    have hi' : i < as.length := h.length_eq ▸ hi
    rw [getElem?_append_left hi', getElem?_eq_getElem hi'] at ha
    cases ha
    exact h.get hi' hi

end CqlValue

/-- Types whose values are taken apart in the same way. -/
inductive CqlTypeInfo.SameForm : CqlTypeInfo → CqlTypeInfo → Prop
  | leaf {a b : CqlTypeInfo} (ha : a.shape = .leaf) (hb : b.shape = .leaf) : SameForm a b
  | sequence {a b x y : CqlTypeInfo} {isSet : Bool} (ha : a.shape = .sequence isSet x)
    (hb : b.shape = .sequence isSet y) (h : SameForm x y) : SameForm a b
  | entries {a b k v k' v' : CqlTypeInfo} (ha : a.shape = .entries k v)
    (hb : b.shape = .entries k' v') (hkey : SameForm k k') (hvalue : SameForm v v') : SameForm a b
  | record {a b : CqlTypeInfo} {as bs : List CqlTypeInfo} (ha : a.shape = .record as)
    (hb : b.shape = .record bs) (hlen : as.length = bs.length)
    (h : ∀ (i : ℕ) x y, as[i]? = some x → bs[i]? = some y → SameForm x y) : SameForm a b

/-- Types of the same form have the same values. -/
theorem CqlTypeInfo.SameForm.fits {a b : CqlTypeInfo} (h : SameForm a b) {value : CqlValue}
    (hv : CqlValue.Fits a value) : CqlValue.Fits b value := by
  induction h generalizing value with
  | leaf ha hb =>
    cases hv with
    | null => exact .null _
    | leaf _ bytes => exact .leaf hb bytes
    | sequence ht | entries ht | record ht => cases ha.symm.trans ht
  | sequence ha hb _ ih =>
    cases hv with
    | null => exact .null _
    | sequence ht helements =>
      cases ha.symm.trans ht
      exact .sequence hb fun e he => ih (helements e he)
    | leaf ht | entries ht | record ht => cases ha.symm.trans ht
  | entries ha hb _ _ ihKey ihValue =>
    cases hv with
    | null => exact .null _
    | entries ht hkey hvalue =>
      cases ha.symm.trans ht
      exact .entries hb (fun e he => ihKey (hkey e he)) fun e he => ihValue (hvalue e he)
    | leaf ht | sequence ht | record ht => cases ha.symm.trans ht
  | record ha hb hlen _ ih =>
    cases hv with
    | null => exact .null _
    | record ht hcount hcomponents =>
      cases ha.symm.trans ht
      refine .record hb (hlen ▸ hcount) fun i y c hy hc => ?_
      obtain ⟨hi, -⟩ := List.getElem?_eq_some_iff.1 hy
      have hx := getElem?_eq_getElem (hlen ▸ hi)
      exact ih i _ y hx hy (hcomponents i _ c hx hc)
    | leaf ht | sequence ht | entries ht => cases ha.symm.trans ht

namespace Wire

theorem IsSequence.injective {cells cells' : List RawCell} {bytes : Bytes}
    (h : IsSequence cells bytes) (h' : IsSequence cells' bytes) : cells = cells' := by
  obtain ⟨rest, hcount, htake⟩ := h.read
  obtain ⟨rest', hcount', htake'⟩ := h'.read
  obtain ⟨hlen, rfl⟩ := Prod.mk.inj (Except.ok.inj (hcount.symm.trans hcount'))
  rw [Nat.cast_injective hlen, htake'] at htake
  exact (Prod.mk.inj (Except.ok.inj htake)).1.symm

theorem IsMap.injective {cells cells' : List (RawCell × RawCell)} {count count' : ℤ} {bytes : Bytes}
    (h : IsMap count cells bytes) (h' : IsMap count' cells' bytes) : cells = cells' := by
  obtain ⟨rest, hcount, htake⟩ := h.read
  obtain ⟨rest', hcount', htake'⟩ := h'.read
  obtain ⟨rfl, rfl⟩ := Prod.mk.inj (Except.ok.inj (hcount.symm.trans hcount'))
  exact (Prod.mk.inj (Except.ok.inj (htake.symm.trans htake'))).1

theorem writeElement_ne_nil {element : RawCell} (h : writeElement element = .ok []) : False := by
  have hread := takeElement_append h []
  cases hread

theorem writeElements_injective {cells cells' : List RawCell} {bytes : Bytes}
    (h : writeElements cells = .ok bytes) (h' : writeElements cells' = .ok bytes) :
    cells = cells' := by
  induction cells generalizing cells' bytes with
  | nil =>
    cases h
    cases cells' with
    | nil => rfl
    | cons cell' cells' =>
      obtain ⟨first, others, hfirst, -, hnil⟩ := writeElements_cons_eq_ok.1 h'
      rw [(append_eq_nil_iff.1 hnil.symm).1] at hfirst
      exact (writeElement_ne_nil hfirst).elim
  | cons cell cells ih =>
    obtain ⟨first, others, hfirst, hothers, rfl⟩ := writeElements_cons_eq_ok.1 h
    cases cells' with
    | nil =>
      have hnil := Except.ok.inj h'
      rw [(append_eq_nil_iff.1 hnil.symm).1] at hfirst
      exact (writeElement_ne_nil hfirst).elim
    | cons cell' cells' =>
      obtain ⟨first', others', hfirst', hothers', heq⟩ := writeElements_cons_eq_ok.1 h'
      have hread := takeElement_append hfirst others
      rw [heq, takeElement_append hfirst' others'] at hread
      obtain ⟨rfl, rfl⟩ := Prod.mk.inj (Except.ok.inj hread)
      rw [ih hothers hothers']

end Wire

namespace CqlValue

/-- The cell of a value determines it. -/
theorem Fits.eq_of_cell {t : CqlTypeInfo} {x y : CqlValue} (hx : Fits t x) (hy : Fits t y)
    {out : RawCell} (hcx : x.cell = .ok out) (hcy : y.cell = .ok out) : x = y := by
  induction hx generalizing y out with
  | null t =>
    cases hcx
    exact (eq_null_of_cell hcy).symm
  | leaf ht bytes =>
    cases hcx
    cases hy with
    | null => cases hcy
    | leaf =>
      cases hcy
      rfl
    | sequence ht' | entries ht' | record ht' => cases ht.symm.trans ht'
  | sequence ht h ih =>
    obtain ⟨cells, bytes, hcells, hframed, rfl⟩ := cell_sequence_eq_ok.1 hcx
    cases hy with
    | null => cases hcy
    | sequence ht' h' =>
      cases ht.symm.trans ht'
      obtain ⟨cells', bytes', hcells', hframed', heq⟩ := cell_sequence_eq_ok.1 hcy
      cases heq
      rw [hframed.injective hframed'] at hcells
      rw [mapM_injective (fun x hx y hy z => ih x hx (h' y hy)) hcells hcells']
    | leaf ht' | entries ht' | record ht' => cases ht.symm.trans ht'
  | entries ht hkey hvalue ihKey ihValue =>
    obtain ⟨cells, bytes, hcells, hframed, rfl⟩ := cell_entries_eq_ok.1 hcx
    cases hy with
    | null => cases hcy
    | entries ht' hkey' hvalue' =>
      cases ht.symm.trans ht'
      obtain ⟨cells', bytes', hcells', hframed', heq⟩ := cell_entries_eq_ok.1 hcy
      cases heq
      rw [hframed.injective hframed'] at hcells
      refine congrArg _ (mapM_injective (fun x hx y hy z hxz hyz => ?_) hcells hcells')
      rw [entryCell_eq_ok] at hxz hyz
      exact Prod.ext (ihKey x hx (hkey' y hy) hxz.1 hyz.1) (ihValue x hx (hvalue' y hy) hxz.2 hyz.2)
    | leaf ht' | sequence ht' | record ht' => cases ht.symm.trans ht'
  | @record t as components ht hlen h ih =>
    obtain ⟨cells, bytes, hcells, hframed, rfl⟩ := cell_record_eq_ok.1 hcx
    cases hy with
    | null => cases hcy
    | record ht' hlen' h' =>
      cases ht.symm.trans ht'
      obtain ⟨cells', bytes', hcells', hframed', heq⟩ := cell_record_eq_ok.1 hcy
      cases heq
      rw [writeElements_injective hframed hframed'] at hcells
      have hcount := length_mapM hcells
      have hcount' := length_mapM hcells'
      refine congrArg _ (ext_getElem (by omega) fun i hi hi' => ?_)
      have hcell := (mapM_eq_ok hcells).get hi (by omega)
      have hcell' := (mapM_eq_ok hcells').get hi' (by omega)
      rw [get_eq_getElem] at hcell hcell'
      have hget := getElem?_eq_getElem (l := as) (i := i) (by omega)
      exact ih i _ _ hget (getElem?_eq_getElem hi)
        (h' i _ _ hget (getElem?_eq_getElem hi')) hcell hcell'
    | leaf ht' | sequence ht' | entries ht' => cases ht.symm.trans ht'

end CqlValue

end Cdm
