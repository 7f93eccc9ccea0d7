import Cdm.Feature.Writetime
import Cdm.Feature.Framing

/-!
# What the TTL and the writetime of a row are

The integers of the selected cells, scalars and elements of lists alike, are gathered, and the row
gets the greatest one.  A list with bytes behind its last element, or with a null marker other than
`-1`, is read as if it was well formed.
-/

namespace Cdm

open List

namespace WritetimeTtlPlan

open Fallible

/-- The integers of the elements that are not null. -/
def integers (elements : List RawCell) : List ℤ :=
  elements.filterMap fun element => element.map BigEndian.toInt

/-- The integers of `width` bytes that a well-formed cell of a selected column holds. -/
inductive Holds (width : ℕ) : Bool → RawCell → List ℤ → Prop
  | null (collection : Bool) : Holds width collection none []
  | scalar {bytes : Bytes} (hwidth : bytes.length = width) :
      Holds width false (some bytes) [BigEndian.toInt bytes]
  | list {elements : List RawCell} {bytes : Bytes} (hframed : Wire.IsSequence elements bytes)
      (hwidth : ∀ element, some element ∈ elements → element.length = width) :
      Holds width true (some bytes) (integers elements)

/-- The integers of `width` bytes that are read from a cell of a selected column: a list may have
bytes behind its last element, and nulls with any negative length. -/
inductive Reads (width : ℕ) : Bool → RawCell → List ℤ → Prop
  | null (collection : Bool) : Reads width collection none []
  | scalar {bytes : Bytes} (hwidth : bytes.length = width) :
      Reads width false (some bytes) [BigEndian.toInt bytes]
  | list {slots : List FeatureWire.Slot} {behind bytes : Bytes}
      (hlist : FeatureWire.IsList slots behind bytes)
      (hwidth : ∀ element, .value element ∈ slots → element.length = width) :
      Reads width true (some bytes) (integers (slots.map FeatureWire.Slot.cell))

/-- The integers of the selected cells, one column after the other. -/
def Gathers (R : Bool → RawCell → List ℤ → Prop) (row : Row) (columns : List SelectedColumn)
    (values : List ℤ) : Prop :=
  ∃ held : List (List ℤ), held.flatten = values ∧
    List.Forall₂ (fun column integers => ∃ cell, row.cells[column.index]? = some cell ∧
      R column.collection cell integers) columns held

/-- A writetime is the custom one, or the maximum of the selected cells and the increment; and a
malformed cell is an error. -/
structure WritetimeExact (plan : WritetimeTtlPlan) (row : Row) : Prop where
  custom : 0 < plan.customWritetime → plan.writetime row = .ok (some plan.customWritetime)
  computed : plan.customWritetime ≤ 0 → ∀ values,
    Gathers (Holds 8) row plan.writetimeColumns values →
      plan.writetime row =
        .ok (values.max?.map fun value => saturateI64 (value + plan.writetimeIncrement))
  malformed : plan.customWritetime ≤ 0 →
    (¬∃ values, Gathers (Holds 8) row plan.writetimeColumns values) →
      ∃ e, plan.writetime row = .error e

/-- A TTL is the custom one, or the maximum of the selected cells, zero when all are null; and a
malformed cell is an error. -/
structure TtlExact (plan : WritetimeTtlPlan) (row : Row) : Prop where
  custom : 0 < plan.customTtl → plan.ttl row = .ok (some (min plan.customTtl (2 ^ 31 - 1)))
  unselected : plan.customTtl ≤ 0 → plan.ttlColumns = [] → plan.ttl row = .ok none
  computed : plan.customTtl ≤ 0 → plan.ttlColumns ≠ [] → ∀ values,
    Gathers (Holds 4) row plan.ttlColumns values → plan.ttl row = .ok (some (values.max?.getD 0))
  malformed : plan.customTtl ≤ 0 → (¬∃ values, Gathers (Holds 4) row plan.ttlColumns values) →
    ∃ e, plan.ttl row = .error e

/-- Every selected cell is read, and one of them is a list with bytes behind its last element or
with a null that has another length than `-1`. -/
def Overlooks (width : ℕ) (row : Row) (columns : List SelectedColumn) : Prop :=
  (∀ column ∈ columns, ∃ cell integers, row.cells[column.index]? = some cell ∧
    Reads width column.collection cell integers) ∧
  ∃ column ∈ columns, column.collection = true ∧ ∃ bytes slots behind,
    row.cells[column.index]? = some (some bytes) ∧ FeatureWire.IsList slots behind bytes ∧
      FeatureWire.Slipped slots behind

/-- The second row has the integers of the first one in its selected cells, the elements of a list
possibly in another order. -/
def Rearranged (width : ℕ) (columns : List SelectedColumn) (row row' : Row) : Prop :=
  ∀ column ∈ columns, ∃ cell cell' integers integers', row.cells[column.index]? = some cell ∧
    row'.cells[column.index]? = some cell' ∧ Holds width column.collection cell integers ∧
    Holds width column.collection cell' integers' ∧ integers.Perm integers'

/-! ### Cells -/

theorem Holds.reads {width : ℕ} {collection : Bool} {cell : RawCell} {values : List ℤ}
    (h : Holds width collection cell values) : Reads width collection cell values := by
  cases h with
  | null => exact .null collection
  | scalar hwidth => exact .scalar hwidth
  | list hframed hwidth =>
    obtain ⟨slots, behind, hlist, rfl⟩ :=
      FeatureWire.listElements_eq_ok_iff.1 (FeatureWire.listElements_of_isSequence hframed)
    exact .list hlist fun element helement => hwidth element (mem_map_of_mem helement)

/-- What is read from a cell that is not well formed, is read from a slipped list. -/
theorem Reads.holds {width : ℕ} {collection : Bool} {cell : RawCell} {values : List ℤ}
    (h : Reads width collection cell values) :
    Holds width collection cell values ∨ collection = true ∧ ∃ bytes slots behind,
      cell = some bytes ∧ FeatureWire.IsList slots behind bytes ∧
        FeatureWire.Slipped slots behind := by
  cases h with
  | null => exact .inl (.null collection)
  | scalar hwidth => exact .inl (.scalar hwidth)
  | @list slots behind bytes hlist hwidth =>
    by_cases hslipped : FeatureWire.Slipped slots behind
    · exact .inr ⟨rfl, bytes, slots, behind, rfl, hlist, hslipped⟩
    · obtain ⟨elements, hframed⟩ := hlist.isSequence_iff.2 hslipped
      have hread := FeatureWire.listElements_of_isSequence hframed
      rw [FeatureWire.listElements_eq_ok_iff.2 ⟨slots, behind, hlist, rfl⟩] at hread
      cases hread
      exact .inl (.list hframed fun element helement =>
        hwidth element (FeatureWire.Slot.some_mem_map_cell.1 helement))

/-! ### Gathering -/

section Gather

variable {R : Bool → RawCell → List ℤ → Prop} {row : Row} {column : SelectedColumn}
  {columns : List SelectedColumn} {values : List ℤ}

theorem gathers_nil : Gathers R row [] values ↔ values = [] := by
  constructor
  · rintro ⟨held, rfl, h⟩
    cases h
    rfl
  · rintro rfl
    exact ⟨[], rfl, .nil⟩

theorem gathers_cons :
    Gathers R row (column :: columns) values ↔ ∃ cell first others,
      row.cells[column.index]? = some cell ∧ R column.collection cell first ∧
      Gathers R row columns others ∧ values = first ++ others := by
  constructor
  · rintro ⟨held, rfl, h⟩
    obtain ⟨first, held, ⟨cell, hcell, hfirst⟩, hothers, rfl⟩ := forall₂_cons_left_iff.1 h
    exact ⟨cell, first, held.flatten, hcell, hfirst, ⟨held, rfl, hothers⟩, rfl⟩
  · rintro ⟨cell, first, others, hcell, hfirst, ⟨held, rfl, hothers⟩, rfl⟩
    exact ⟨first :: held, rfl, .cons ⟨cell, hcell, hfirst⟩ hothers⟩

/-- Something is gathered when there is something in each cell. -/
theorem exists_gathers_iff :
    (∃ values, Gathers R row columns values) ↔ ∀ column ∈ columns, ∃ cell integers,
      row.cells[column.index]? = some cell ∧ R column.collection cell integers := by
  induction columns with
  | nil => simp [gathers_nil]
  | cons column columns ih =>
    rw [forall_mem_cons, ← ih]
    constructor
    · rintro ⟨values, h⟩
      obtain ⟨cell, first, others, hcell, hfirst, hothers, -⟩ := gathers_cons.1 h
      exact ⟨⟨cell, first, hcell, hfirst⟩, others, hothers⟩
    · rintro ⟨⟨cell, first, hcell, hfirst⟩, others, hothers⟩
      exact ⟨_, gathers_cons.2 ⟨cell, first, others, hcell, hfirst, hothers, rfl⟩⟩

theorem Gathers.imp {S : Bool → RawCell → List ℤ → Prop}
    (hRS : ∀ collection cell integers, R collection cell integers → S collection cell integers)
    (h : Gathers R row columns values) : Gathers S row columns values := by
  obtain ⟨held, hvalues, h⟩ := h
  refine ⟨held, hvalues, h.imp ?_⟩
  rintro column integers ⟨cell, hcell, hholds⟩
  exact ⟨cell, hcell, hRS _ _ _ hholds⟩

/-- The columns in another order gather the integers in another order. -/
theorem Gathers.perm {columns' : List SelectedColumn} (h : Gathers R row columns values)
    (hperm : columns.Perm columns') : ∃ values', Gathers R row columns' values' ∧
      values.Perm values' := by
  induction hperm generalizing values with
  | nil => exact ⟨values, h, .refl _⟩
  | @cons column columns columns' _ ih =>
    obtain ⟨cell, first, others, hcell, hfirst, hothers, rfl⟩ := gathers_cons.1 h
    obtain ⟨others', hothers', hperm⟩ := ih hothers
    exact ⟨first ++ others', gathers_cons.2 ⟨cell, first, others', hcell, hfirst, hothers', rfl⟩,
      hperm.append_left first⟩
  | swap column column' columns =>
    obtain ⟨cell, first, rest, hcell, hfirst, hrest, rfl⟩ := gathers_cons.1 h
    obtain ⟨cell', second, others, hcell', hsecond, hothers, rfl⟩ := gathers_cons.1 hrest
    refine ⟨second ++ (first ++ others), ?_, ?_⟩
    · exact gathers_cons.2 ⟨cell', second, _, hcell', hsecond,
        gathers_cons.2 ⟨cell, first, others, hcell, hfirst, hothers, rfl⟩, rfl⟩
    · rw [← append_assoc, ← append_assoc]
      exact perm_append_comm.append_right others
  | trans _ _ ih₁ ih₂ =>
    obtain ⟨values₁, h₁, hperm₁⟩ := ih₁ h
    obtain ⟨values₂, h₂, hperm₂⟩ := ih₂ h₁
    exact ⟨values₂, h₂, hperm₁.trans hperm₂⟩

/-- Rows with the same integers in their cells gather the same integers. -/
theorem Rearranged.gathers {width : ℕ} {row' : Row} (h : Rearranged width columns row row') :
    ∃ values values', Gathers (Holds width) row columns values ∧
      Gathers (Holds width) row' columns values' ∧ values.Perm values' := by
  induction columns with
  | nil => exact ⟨[], [], gathers_nil.2 rfl, gathers_nil.2 rfl, .refl _⟩
  | cons column columns ih =>
    obtain ⟨cell, cell', first, first', hcell, hcell', hfirst, hfirst', hperm⟩ :=
      h column mem_cons_self
    obtain ⟨others, others', hothers, hothers', hperm'⟩ :=
      ih fun column hcolumn => h column (mem_cons_of_mem _ hcolumn)
    exact ⟨_, _, gathers_cons.2 ⟨cell, first, others, hcell, hfirst, hothers, rfl⟩,
      gathers_cons.2 ⟨cell', first', others', hcell', hfirst', hothers', rfl⟩, hperm.append hperm'⟩

end Gather

/-! ### The maximum -/

theorem foldl_raise_some (values : List ℤ) (value : ℤ) :
    values.foldl raise (some value) = some (values.foldl max value) := by
  induction values generalizing value with
  | nil => rfl
  | cons next values ih => exact ih (max value next)

theorem foldl_raise (values : List ℤ) : values.foldl raise none = values.max? := by
  cases values with
  | nil => rfl
  | cons value values => exact foldl_raise_some values value

theorem max?_perm {values values' : List ℤ} (h : values.Perm values') :
    values.max? = values'.max? := by
  rw [← foldl_raise, ← foldl_raise]
  refine h.foldl_eq' ?_ none
  intro x _ y _ maximum
  cases maximum with
  | none => exact congrArg some (max_comm x y)
  | some value => exact congrArg some (max_right_comm value x y)

section Maximum

variable {width : ℕ} {decode : Bytes → Except CdmError ℤ}
  (hdecode : ∀ bytes value, decode bytes = .ok value ↔
    bytes.length = width ∧ value = BigEndian.toInt bytes)

include hdecode

theorem maximumOfElements_eq_ok {elements : List RawCell} {start result : Option ℤ} :
    maximumOfElements decode start elements = .ok result ↔
      (∀ element, some element ∈ elements → element.length = width) ∧
        result = (integers elements).foldl raise start := by
  induction elements generalizing start with
  | nil =>
    constructor
    · rintro ⟨⟩
      exact ⟨fun _ h => absurd h not_mem_nil, rfl⟩
    · rintro ⟨-, rfl⟩
      rfl
  | cons element elements ih =>
    cases element with
    | none =>
      rw [maximumOfElements, ih]
      simp [integers]
    | some bytes =>
      have hintegers : integers (some bytes :: elements) =
          BigEndian.toInt bytes :: integers elements := rfl
      rw [maximumOfElements, bind_eq_ok, hintegers, foldl_cons]
      constructor
      · rintro ⟨value, hvalue, h⟩
        obtain ⟨hwidth, rfl⟩ := (hdecode bytes value).1 hvalue
        obtain ⟨hall, rfl⟩ := ih.1 h
        refine ⟨fun element helement => ?_, rfl⟩
        rcases mem_cons.1 helement with heq | helement
        · cases heq
          exact hwidth
        · exact hall element helement
      · rintro ⟨hall, rfl⟩
        exact ⟨BigEndian.toInt bytes, (hdecode _ _).2 ⟨hall bytes mem_cons_self, rfl⟩,
          ih.2 ⟨fun element helement => hall element (mem_cons_of_mem _ helement), rfl⟩⟩

/-- One selected cell raises the maximum by what is read from it. -/
theorem maximumStep_eq_ok {row : Row} {column : SelectedColumn} {start result : Option ℤ} :
    maximumStep row decode start column = .ok result ↔ ∃ cell integers,
      row.cells[column.index]? = some cell ∧ Reads width column.collection cell integers ∧
        result = integers.foldl raise start := by
  obtain ⟨index, collection⟩ := column
  rw [maximumStep]
  cases hcell : row.cells[index]? with
  | none => simp
  | some cell =>
    cases cell with
    | none =>
      constructor
      · rintro ⟨⟩
        exact ⟨none, [], rfl, .null _, rfl⟩
      · rintro ⟨cell, integers, ⟨⟩, hreads, rfl⟩
        cases hreads
        rfl
    | some bytes =>
      cases collection with
      | false =>
        show (decode bytes).map (raise start) = .ok result ↔ _
        rw [map_eq_ok]
        constructor
        · rintro ⟨value, hvalue, rfl⟩
          obtain ⟨hwidth, rfl⟩ := (hdecode bytes value).1 hvalue
          exact ⟨some bytes, _, rfl, .scalar hwidth, rfl⟩
        · rintro ⟨cell, integers, ⟨⟩, hreads, rfl⟩
          cases hreads with
          | scalar hwidth => exact ⟨_, (hdecode _ _).2 ⟨hwidth, rfl⟩, rfl⟩
      | true =>
        show (FeatureWire.listElements bytes >>= maximumOfElements decode start) = .ok result ↔ _
        rw [bind_eq_ok]
        constructor
        · rintro ⟨elements, hread, h⟩
          obtain ⟨hwidth, rfl⟩ := (maximumOfElements_eq_ok hdecode).1 h
          obtain ⟨slots, behind, hlist, rfl⟩ := FeatureWire.listElements_eq_ok_iff.1 hread
          exact ⟨some bytes, _, rfl, .list hlist fun element helement =>
            hwidth element (mem_map_of_mem helement), rfl⟩
        · rintro ⟨cell, integers, ⟨⟩, hreads, rfl⟩
          cases hreads with
          | @list slots behind _ hlist hwidth =>
            refine ⟨_, FeatureWire.listElements_eq_ok_iff.2 ⟨slots, behind, hlist, rfl⟩,
              (maximumOfElements_eq_ok hdecode).2 ⟨fun element helement => ?_, rfl⟩⟩
            exact hwidth element (FeatureWire.Slot.some_mem_map_cell.1 helement)

theorem foldlM_maximumStep_eq_ok {row : Row} {columns : List SelectedColumn}
    {start result : Option ℤ} :
    columns.foldlM (maximumStep row decode) start = .ok result ↔ ∃ values,
      Gathers (Reads width) row columns values ∧ result = values.foldl raise start := by
  induction columns generalizing start with
  | nil =>
    simp only [gathers_nil, exists_eq_left, foldl_nil]
    constructor
    · rintro ⟨⟩
      rfl
    · rintro rfl
      rfl
  | cons column columns ih =>
    rw [foldlM_cons, bind_eq_ok]
    constructor
    · rintro ⟨next, hstep, h⟩
      obtain ⟨cell, first, hcell, hfirst, rfl⟩ := (maximumStep_eq_ok hdecode).1 hstep
      obtain ⟨others, hothers, rfl⟩ := ih.1 h
      exact ⟨first ++ others, gathers_cons.2 ⟨cell, first, others, hcell, hfirst, hothers, rfl⟩,
        foldl_append.symm⟩
    · rintro ⟨values, h, rfl⟩
      obtain ⟨cell, first, others, hcell, hfirst, hothers, rfl⟩ := gathers_cons.1 h
      exact ⟨_, (maximumStep_eq_ok hdecode).2 ⟨cell, first, hcell, hfirst, rfl⟩,
        ih.2 ⟨others, hothers, foldl_append⟩⟩

/-- The maximum is that of the integers that are read from the selected cells. -/
theorem maximum_eq_ok {row : Row} {columns : List SelectedColumn} {result : Option ℤ} :
    maximum row columns decode = .ok result ↔
      ∃ values, Gathers (Reads width) row columns values ∧ result = values.max? := by
  rw [maximum, foldlM_maximumStep_eq_ok hdecode]
  simp only [foldl_raise]

/-- The maximum of well-formed cells. -/
theorem maximum_of_gathers {row : Row} {columns : List SelectedColumn} {values : List ℤ}
    (h : Gathers (Holds width) row columns values) :
    maximum row columns decode = .ok values.max? :=
  (maximum_eq_ok hdecode).2 ⟨values, h.imp fun _ _ _ => Holds.reads, rfl⟩

/-- A malformed cell is an error, unless it is overlooked. -/
theorem exists_maximum_eq_error_iff {row : Row} {columns : List SelectedColumn}
    (h : ¬∃ values, Gathers (Holds width) row columns values) :
    (∃ e, maximum row columns decode = .error e) ↔ ¬Overlooks width row columns := by
  have hreads : (∃ result, maximum row columns decode = .ok result) ↔ ∀ column ∈ columns,
      ∃ cell integers, row.cells[column.index]? = some cell ∧
        Reads width column.collection cell integers := by
    rw [← exists_gathers_iff]
    constructor
    · rintro ⟨result, hresult⟩
      obtain ⟨values, hvalues, -⟩ := (maximum_eq_ok hdecode).1 hresult
      exact ⟨values, hvalues⟩
    · rintro ⟨values, hvalues⟩
      exact ⟨_, (maximum_eq_ok hdecode).2 ⟨values, hvalues, rfl⟩⟩
  constructor
  · rintro ⟨e, he⟩ ⟨hall, -⟩
    obtain ⟨result, hresult⟩ := hreads.2 hall
    rw [he] at hresult
    cases hresult
  · intro hnot
    cases hresult : maximum row columns decode with
    | error e => exact ⟨e, rfl⟩
    | ok result =>
      refine absurd ⟨hreads.1 ⟨result, hresult⟩, ?_⟩ hnot
      rw [exists_gathers_iff] at h
      push Not at h
      obtain ⟨column, hcolumn, hmalformed⟩ := h
      obtain ⟨cell, integers, hcell, hread⟩ := hreads.1 ⟨result, hresult⟩ column hcolumn
      rcases hread.holds with hholds | ⟨hcollection, bytes, slots, behind, rfl, hlist, hslipped⟩
      · exact absurd hholds (hmalformed cell integers hcell)
      · exact ⟨column, hcolumn, hcollection, bytes, slots, behind, hcell, hlist, hslipped⟩

end Maximum

theorem readI64_eq_ok (bytes : Bytes) (value : ℤ) :
    readI64 bytes = .ok value ↔ bytes.length = 8 ∧ value = BigEndian.toInt bytes := by
  rw [readI64]
  split_ifs with h <;> simp [h, eq_comm]

theorem readI32_eq_ok (bytes : Bytes) (value : ℤ) :
    readI32 bytes = .ok value ↔ bytes.length = 4 ∧ value = BigEndian.toInt bytes := by
  rw [readI32]
  split_ifs with h <;> simp [h, eq_comm]

/-! ### The writetime and the TTL of a row -/

variable {plan : WritetimeTtlPlan} {row : Row}

/-- The writetime when no custom one replaces it. -/
theorem writetime_of_not_custom (h : plan.customWritetime ≤ 0) :
    plan.writetime row = (maximum row plan.writetimeColumns readI64).map fun maximum =>
      maximum.map fun value => saturateI64 (value + plan.writetimeIncrement) := by
  rw [writetime, if_neg (not_lt.2 h)]
  split_ifs with hempty
  · rw [List.isEmpty_iff.1 hempty]
    rfl
  · rfl

theorem ttl_of_not_custom (h : plan.customTtl ≤ 0) (hselected : plan.ttlColumns ≠ []) :
    plan.ttl row = (maximum row plan.ttlColumns readI32).map fun maximum =>
      some (maximum.getD 0) := by
  rw [ttl, if_neg (not_lt.2 h), if_neg (by rwa [List.isEmpty_iff])]

/-- A row with an overlooked list has a cell that is not well formed. -/
theorem Overlooks.not_gathers {width : ℕ} {columns : List SelectedColumn}
    (h : Overlooks width row columns) : ¬∃ values, Gathers (Holds width) row columns values := by
  rw [exists_gathers_iff]
  intro hall
  obtain ⟨column, hcolumn, hcollection, bytes, slots, behind, hcell, hlist, hslipped⟩ := h.2
  obtain ⟨cell, integers, hcell', hholds⟩ := hall column hcolumn
  rw [hcell] at hcell'
  cases hcell'
  rw [hcollection] at hholds
  cases hholds with
  | list hframed => exact hlist.isSequence_iff.1 ⟨_, hframed⟩ hslipped

theorem writetimeExact_iff : WritetimeExact plan row ↔
    ¬(plan.customWritetime ≤ 0 ∧ Overlooks 8 row plan.writetimeColumns) := by
  constructor
  · rintro hexact ⟨hcustom, hover⟩
    have herror := hexact.malformed hcustom hover.not_gathers
    simp only [writetime_of_not_custom hcustom, map_eq_error] at herror
    rw [exists_maximum_eq_error_iff readI64_eq_ok hover.not_gathers] at herror
    exact herror hover
  · intro hnot
    refine ⟨fun h => if_pos h, fun hcustom values hvalues => ?_, fun hcustom hmalformed => ?_⟩
    · rw [writetime_of_not_custom hcustom, maximum_of_gathers readI64_eq_ok hvalues]
      rfl
    · simp only [writetime_of_not_custom hcustom, map_eq_error]
      rw [exists_maximum_eq_error_iff readI64_eq_ok hmalformed]
      exact fun hover => hnot ⟨hcustom, hover⟩

theorem ttlExact_iff : TtlExact plan row ↔
    ¬(plan.customTtl ≤ 0 ∧ Overlooks 4 row plan.ttlColumns) := by
  have hselected (hmalformed : ¬∃ values, Gathers (Holds 4) row plan.ttlColumns values) :
      plan.ttlColumns ≠ [] := by
    intro hnil
    rw [hnil] at hmalformed
    exact hmalformed ⟨[], gathers_nil.2 rfl⟩
  constructor
  · rintro hexact ⟨hcustom, hover⟩
    have herror := hexact.malformed hcustom hover.not_gathers
    simp only [ttl_of_not_custom hcustom (hselected hover.not_gathers), map_eq_error] at herror
    rw [exists_maximum_eq_error_iff readI32_eq_ok hover.not_gathers] at herror
    exact herror hover
  · intro hnot
    refine ⟨fun h => if_pos h, fun hcustom hnil => ?_, fun hcustom hne values hvalues => ?_,
      fun hcustom hmalformed => ?_⟩
    · rw [ttl, if_neg (not_lt.2 hcustom), if_pos (List.isEmpty_iff.2 hnil)]
    · rw [ttl_of_not_custom hcustom hne, maximum_of_gathers readI32_eq_ok hvalues]
      rfl
    · simp only [ttl_of_not_custom hcustom (hselected hmalformed), map_eq_error]
      rw [exists_maximum_eq_error_iff readI32_eq_ok hmalformed]
      exact fun hover => hnot ⟨hcustom, hover⟩

/-- The maximum of well-formed cells does not depend on the order of the columns and elements. -/
theorem maximum_rearranged {width : ℕ} {decode : Bytes → Except CdmError ℤ}
    (hdecode : ∀ bytes value, decode bytes = .ok value ↔
      bytes.length = width ∧ value = BigEndian.toInt bytes)
    {columns columns' : List SelectedColumn} {row' : Row} (hperm : columns.Perm columns')
    (hrow : Rearranged width columns row row') :
    maximum row' columns' decode = maximum row columns decode := by
  obtain ⟨values, values', hvalues, hvalues', hsame⟩ := hrow.gathers
  obtain ⟨values'', hvalues'', hsame'⟩ := hvalues'.perm hperm
  rw [maximum_of_gathers hdecode hvalues, maximum_of_gathers hdecode hvalues'',
    max?_perm (hsame.trans hsame')]

/-- The writetime and the TTL are what they have to be exactly where no custom one is needed to
replace an overlooked list; and the order of the columns, and that of the elements of a list, do not
matter. -/
theorem exact_iff (plan : WritetimeTtlPlan) (row : Row) :
    (WritetimeExact plan row ↔
      ¬(plan.customWritetime ≤ 0 ∧ Overlooks 8 row plan.writetimeColumns)) ∧
    (TtlExact plan row ↔ ¬(plan.customTtl ≤ 0 ∧ Overlooks 4 row plan.ttlColumns)) ∧
    (∀ (columns : List SelectedColumn) (row' : Row), plan.writetimeColumns.Perm columns →
      Rearranged 8 plan.writetimeColumns row row' →
        { plan with writetimeColumns := columns }.writetime row' = plan.writetime row) ∧
    ∀ (columns : List SelectedColumn) (row' : Row), plan.ttlColumns.Perm columns →
      Rearranged 4 plan.ttlColumns row row' →
        { plan with ttlColumns := columns }.ttl row' = plan.ttl row := by
  refine ⟨writetimeExact_iff, ttlExact_iff, fun columns row' hperm hrow => ?_,
    fun columns row' hperm hrow => ?_⟩
  · by_cases hcustom : plan.customWritetime ≤ 0
    · have hcolumns : writetime { plan with writetimeColumns := columns } row' =
          (maximum row' columns readI64).map fun maximum =>
            maximum.map fun value => saturateI64 (value + plan.writetimeIncrement) :=
        writetime_of_not_custom hcustom
      rw [writetime_of_not_custom hcustom, hcolumns, maximum_rearranged readI64_eq_ok hperm hrow]
    · rw [writetime, writetime, if_pos (not_le.1 hcustom), if_pos (not_le.1 hcustom)]
  · rw [ttl, ttl, maximum_rearranged readI32_eq_ok hperm hrow]
    have hempty : columns.isEmpty = plan.ttlColumns.isEmpty := by
      rw [Bool.eq_iff_iff, List.isEmpty_iff, List.isEmpty_iff, ← length_eq_zero_iff,
        ← length_eq_zero_iff, hperm.length_eq]
    rw [hempty]

/-- A list of one writetime with a byte behind it, which should be an error. -/
theorem not_writetimeExact :
    ¬WritetimeExact { writetimeColumns := [⟨0, true⟩] }
      ⟨[some [0, 0, 0, 1, 0, 0, 0, 8, 0, 0, 0, 0, 0, 0, 0, 5, 9]]⟩ := by
  intro hexact
  have hmalformed : ¬∃ values, Gathers (Holds 8)
      ⟨[some [0, 0, 0, 1, 0, 0, 0, 8, 0, 0, 0, 0, 0, 0, 0, 5, 9]]⟩ [⟨0, true⟩] values := by
    rw [exists_gathers_iff]
    intro hall
    obtain ⟨cell, integers, hcell, hholds⟩ := hall _ mem_cons_self
    cases hcell
    have hlist : FeatureWire.IsList [.value [0, 0, 0, 0, 0, 0, 0, 5]] [9]
        [0, 0, 0, 1, 0, 0, 0, 8, 0, 0, 0, 0, 0, 0, 0, 5, 9] :=
      ⟨by decide, forall_mem_singleton.2 (show 8 < 2 ^ 31 by decide), by decide⟩
    cases hholds with
    | list hframed => exact hlist.isSequence_iff.1 ⟨_, hframed⟩ (.inl (cons_ne_nil 9 []))
  obtain ⟨e, he⟩ := hexact.malformed (by decide) hmalformed
  have hread : writetime { writetimeColumns := [⟨0, true⟩] }
      ⟨[some [0, 0, 0, 1, 0, 0, 0, 8, 0, 0, 0, 0, 0, 0, 0, 5, 9]]⟩ = .ok (some 5) := by
    decide +kernel
  rw [hread] at he
  cases he

end WritetimeTtlPlan

end Cdm
