import Cdm.Jobs.Migrate
import Cdm.Cql.Counter
import Mathlib.Tactic.Ring

/-!
# The two ways a counter is brought up to date

A counter can be added to and not be set, so both jobs write differences.  The migrate job computes
`origin - current` for each counter column of the target and puts the differences where the binder
reads the origin cells (`CounterPlan.deltas`, `CounterPlan.deltaRow`); of several counters that read
one origin column the first one decides.  A correction of the validate job rewrites the origin cells
in place, one counter after the other, and saturates (`CqlRowSink.counterDeltas`): a cell that several
counters read is lowered once for each of them.
-/

namespace Cdm

open List Wire
open BigEndian
open Fallible

/-- The target column at `index` is a counter that reads the origin column at `o`. -/
structure CounterAt (mapping : ColumnMapping) (index o : ℕ) : Prop where
  isCounter : ∃ column, mapping.targetColumns[index]? = some column ∧ column.isCounter = true
  source : mapping.source index = some (.origin o)

/-! ### The migrate job -/

namespace CounterPlan

/-- The counters of a plan are the counters of the mapping. -/
theorem mem_columns {mapping : ColumnMapping} {plan : CounterPlan} (h : resolve mapping = .ok plan)
    {counter : CounterColumn} :
    counter ∈ plan.columns ↔ CounterAt mapping counter.targetIndex counter.originIndex := by
  rw [resolve] at h
  split at h
  · cases h
  cases h
  obtain ⟨o, index⟩ := counter
  simp only [mem_filterMap, Prod.exists, mem_zipIdx_iff_getElem?]
  constructor
  · rintro ⟨column, i, hcolumn, h⟩
    split at h
    · rename_i hcounter
      split at h
      · cases h
        exact ⟨⟨column, hcolumn, hcounter⟩, ‹_›⟩
      · cases h
    · cases h
  · rintro ⟨⟨column, hcolumn, hcounter⟩, hsource⟩
    exact ⟨column, index, hcolumn, by simp [hcounter, hsource]⟩

theorem counterValue_eq_ok {bytes : Bytes} {side : Side} {value : ℤ} :
    counterValue bytes side = .ok value ↔ bytes.length = 8 ∧ value = toInt bytes := by
  rw [counterValue]
  split_ifs with h
  · simp [h, eq_comm]
  · simp [h]

/-- The value of an eight-byte integer is in range. -/
theorem toInt_range {bytes : Bytes} (h : bytes.length = 8) :
    i64Min ≤ toInt bytes ∧ toInt bytes ≤ i64Max := by
  have hbounds := toInt_bounds bytes
  rw [h] at hbounds
  rw [i64Min, i64Max]
  omega

theorem currentValue_range {current : Option Row} {index : ℕ} {value : ℤ}
    (h : currentValue current index = .ok value) : i64Min ≤ value ∧ value ≤ i64Max := by
  rw [currentValue] at h
  split at h
  · obtain ⟨hlen, rfl⟩ := counterValue_eq_ok.1 h
    exact toInt_range hlen
  · cases h
    decide

/-- The delta of a counter whose origin has a value. -/
theorem delta_eq_ok {origin : Row} {current : Option Row} {counter : CounterColumn} {bytes : Bytes}
    (hcell : origin.cells[counter.originIndex]? = some (some bytes)) {d : Option (ℕ × Bytes)}
    (h : delta origin current counter = .ok d) :
    bytes.length = 8 ∧ ∃ value, currentValue current counter.targetIndex = .ok value ∧
      d = some (counter.originIndex, writeI64 (toInt bytes - value)) := by
  rw [delta, hcell] at h
  obtain ⟨originValue, horigin, h⟩ := bind_eq_ok.1 h
  obtain ⟨value, hvalue, h⟩ := bind_eq_ok.1 h
  obtain ⟨hlen, rfl⟩ := counterValue_eq_ok.1 horigin
  cases h
  exact ⟨hlen, value, hvalue, rfl⟩

theorem delta_originIndex {origin : Row} {current : Option Row} {counter : CounterColumn}
    {d : ℕ × Bytes} (h : delta origin current counter = .ok (some d)) :
    d.1 = counter.originIndex := by
  rw [delta] at h
  split at h
  · cases h
  · obtain ⟨originValue, -, h⟩ := bind_eq_ok.1 h
    obtain ⟨value, -, h⟩ := bind_eq_ok.1 h
    cases h
    rfl

/-- Of the counters that read one origin column, the first decides what its cell is replaced by. -/
theorem find?_reduceOption {origin : Row} {current : Option Row} {counters : List CounterColumn}
    {ds : List (Option (ℕ × Bytes))} (h : counters.mapM (delta origin current) = .ok ds) {o : ℕ}
    {bytes : Bytes} (hcell : origin.cells[o]? = some (some bytes))
    (hreads : ∃ counter ∈ counters, counter.originIndex = o) :
    bytes.length = 8 ∧ ∃ first ∈ counters, first.originIndex = o ∧
      ∃ value, currentValue current first.targetIndex = .ok value ∧
        ds.reduceOption.find? (·.1 = o) =
          some (o, writeI64 (toInt bytes - value)) := by
  have h2 := mapM_eq_ok h
  clear h
  induction h2 with
  | nil => simp at hreads
  | @cons counter d counters ds hdelta _ ih =>
    by_cases hthis : counter.originIndex = o
    · subst hthis
      obtain ⟨hlen, value, hvalue, rfl⟩ := delta_eq_ok hcell hdelta
      exact ⟨hlen, counter, mem_cons_self, rfl, value, hvalue,
        by simp [reduceOption_cons_of_some]⟩
    · have hrest : ∃ counter ∈ counters, counter.originIndex = o := by
        obtain ⟨other, hmem, hother⟩ := hreads
        rcases mem_cons.1 hmem with rfl | hmem
        · exact absurd hother hthis
        · exact ⟨other, hmem, hother⟩
      obtain ⟨hlen, first, hmem, hfirst, value, hvalue, hfind⟩ := ih hrest
      refine ⟨hlen, first, mem_cons_of_mem _ hmem, hfirst, value, hvalue, ?_⟩
      cases d with
      | none => exact hfind
      | some d =>
        have hindex := delta_originIndex hdelta
        rw [reduceOption_cons_of_some, find?_cons_of_neg (by simpa [hindex] using hthis)]
        exact hfind

/-- The cell of an origin column that counters read, once the deltas are in place. -/
theorem cell_deltaRow {mapping : ColumnMapping} {plan : CounterPlan} (hplan : resolve mapping = .ok plan)
    {origin : Row} {current : Option Row} {deltas : List (ℕ × Bytes)}
    (hdeltas : plan.deltas origin current = .ok deltas) {o : ℕ} {bytes : Bytes}
    (hcell : origin.cells[o]? = some (some bytes)) {index : ℕ} (hcounter : CounterAt mapping index o) :
    bytes.length = 8 ∧ ∃ first value, CounterAt mapping first o ∧
      currentValue current first = .ok value ∧ (deltaRow origin deltas).cells[o]? =
        some (some (writeI64 (toInt bytes - value))) := by
  obtain ⟨ds, hds, h⟩ := bind_eq_ok.1 hdeltas
  cases h
  obtain ⟨hlen, first, hmem, rfl, value, hvalue, hfind⟩ := find?_reduceOption hds hcell
    ⟨⟨o, index⟩, (mem_columns hplan).2 hcounter, rfl⟩
  refine ⟨hlen, first.targetIndex, value, (mem_columns hplan).1 hmem, hvalue, ?_⟩
  simp [deltaRow, getElem?_mapIdx, hcell, hfind]

end CounterPlan

/-- Adding what is written for a difference gives the minuend, modulo `2 ^ 64`. -/
theorem toInt_writeI64_add (x y : ℤ) :
    toInt (writeI64 (x - y)) + y ≡ x [ZMOD 2 ^ 64] := by
  have hmod : toInt (writeI64 (x - y)) ≡ x - y [ZMOD 2 ^ 64] := by
    rw [writeI64, toInt_ofInt_eq_bmod]
    exact Int.bmod_emod
  calc toInt (writeI64 (x - y)) + y ≡ x - y + y [ZMOD 2 ^ 64] := hmod.add_right y
    _ = x := sub_add_cancel x y

/-- What is bound for each counter takes it from its current value to the origin's, modulo `2 ^ 64`:
for every counter column whose origin column has a value. -/
def Converges (mapping : ColumnMapping) (binder : Binder) (origin : Row) (current : Option Row)
    (values : BoundWrite) : Prop :=
  ∀ index o bytes, CounterAt mapping index o → origin.cells[o]? = some (some bytes) →
    ∃ value delta, CounterPlan.currentValue current index = .ok value ∧
      binder.valueOf values index = some (.value delta) ∧
      toInt delta + value ≡ toInt bytes [ZMOD 2 ^ 64]

/-- Counters that read one origin column, which has a value, hold one value in the target. -/
def HoldAlike (mapping : ColumnMapping) (origin : Row) (current : Option Row) : Prop :=
  ∀ index index' o bytes, CounterAt mapping index o → CounterAt mapping index' o →
    origin.cells[o]? = some (some bytes) →
    CounterPlan.currentValue current index = CounterPlan.currentValue current index'

section Migrate

variable [AlphanumericTable] {mapping : ColumnMapping} {projection : OriginProjection}
  {planner : Planner} {missingKey : MissingKeyPolicy} {mapRemoveNullValue : Bool}
  {features : MigrateFeatures} {plan : MigratePlan}
  (hplan : MigratePlan.resolve mapping projection planner missingKey mapRemoveNullValue features =
    .ok plan)
  (hcodec : ∀ origin, planner.registry.converter origin (.primitive .counter) = none)
  {origin : Row} {current : Option Row} {deltas : List (ℕ × Bytes)}
  (hdeltas : plan.counters.deltas origin current = .ok deltas) {inputs : BindInputs}
  {values : BoundWrite}
  (hbind : plan.binder.bind (CounterPlan.deltaRow origin deltas) inputs = .ok values)

include hplan hcodec hdeltas hbind

/-- What the migrate job binds for a counter: the same for all that read one origin column. -/
theorem migrated_value {o : ℕ} {bytes : Bytes} (hcell : origin.cells[o]? = some (some bytes))
    {index : ℕ} (hcounter : CounterAt mapping index o) :
    bytes.length = 8 ∧ ∃ first value, CounterAt mapping first o ∧
      CounterPlan.currentValue current first = .ok value ∧
      ∀ index, CounterAt mapping index o → plan.binder.valueOf values index =
        some (.value (writeI64 (toInt bytes - value))) := by
  obtain ⟨upsert, hupsert, hbinder, hcounters⟩ := MigratePlan.resolve_eq_ok hplan
  obtain ⟨hlen, first, value, hfirst, hvalue, hdelta⟩ :=
    CounterPlan.cell_deltaRow hcounters hdeltas hcell hcounter
  refine ⟨hlen, first, value, hfirst, hvalue, ?_⟩
  rintro index ⟨⟨column, hcolumn, hiscounter⟩, hsource⟩
  exact Binder.valueOf_counter hupsert hbinder hcodec hbind hcolumn hiscounter hsource hdelta

/-- One delta takes two counters to one value only if they hold one value. -/
theorem holdAlike_of_converges (h : Converges mapping plan.binder origin current values) :
    HoldAlike mapping origin current := by
  intro index index' o bytes hindex hindex' hcell
  obtain ⟨-, first, shared, -, -, hbound⟩ := migrated_value hplan hcodec hdeltas hbind hcell hindex
  obtain ⟨value, delta, hvalue, hdelta, hsum⟩ := h index o bytes hindex hcell
  obtain ⟨value', delta', hvalue', hdelta', hsum'⟩ := h index' o bytes hindex' hcell
  rw [hbound index hindex] at hdelta
  rw [hbound index' hindex'] at hdelta'
  cases hdelta
  cases hdelta'
  have hmod := Int.ModEq.add_left_cancel' _ (hsum.trans hsum'.symm)
  have hrange := CounterPlan.currentValue_range hvalue
  have hrange' := CounterPlan.currentValue_range hvalue'
  have heq : value = value' := by
    rw [Int.ModEq] at hmod
    rw [i64Min, i64Max] at hrange hrange'
    omega
  rw [hvalue, hvalue', heq]

theorem converges_of_holdAlike (h : HoldAlike mapping origin current) :
    Converges mapping plan.binder origin current values := by
  intro index o bytes hindex hcell
  obtain ⟨-, first, value, hfirst, hvalue, hbound⟩ :=
    migrated_value hplan hcodec hdeltas hbind hcell hindex
  refine ⟨value, _, ?_, hbound index hindex, toInt_writeI64_add _ _⟩
  rw [h index first o bytes hindex hfirst hcell, hvalue]

/-- A migration converges if and only if counters that read one origin column hold one value: the
delta of the first of them is bound for all. -/
theorem converges_iff :
    Converges mapping plan.binder origin current values ↔ HoldAlike mapping origin current :=
  ⟨holdAlike_of_converges hplan hcodec hdeltas hbind, converges_of_holdAlike hplan hcodec hdeltas hbind⟩

end Migrate

namespace CounterSample

/-- ASCII names are all the sample needs. -/
local instance : AlphanumericTable := AlphanumericTable.ascii

def origin : TableSchema where
  keyspace := "ks"
  table := "src"
  columns := [⟨"id", "int", .partitionKey, 0⟩, ⟨"hits", "counter", .regular, -1⟩]
  nodup := by decide

def target : TableSchema where
  keyspace := "ks"
  table := "dst"
  columns := [⟨"id", "int", .partitionKey, 0⟩, ⟨"hits", "counter", .regular, -1⟩,
    ⟨"visits", "counter", .regular, -1⟩]
  nodup := by decide

/-- The origin's counter is renamed, and the target has a column of the old name too: it feeds
both. -/
def options : MappingOptions := { rename := ["hits:visits"] }

def mapping : ColumnMapping where
  originColumns := origin.columns
  sources := [.origin 0, .origin 1, .origin 1]
  originTable := origin
  targetTable := target
  length_sources := rfl
  originIndex_lt := by decide
  key_derivable := by decide

def planner : Planner := ⟨⟨[]⟩, false⟩

def projection : OriginProjection := OriginProjection.new origin.columns []

def binder : Binder where
  statement := {
    cql := "UPDATE ks.dst SET hits=hits+?,visits=visits+? WHERE id=?"
    counter := true
    usingClause := ⟨false, false⟩
    slots := [.column 1, .column 2, .keyColumn 0] }
  columns := [⟨"id", .primitive .int, "int", .passthrough, .origin 0, true⟩,
    ⟨"hits", .primitive .counter, "counter", .passthrough, .origin 1, false⟩,
    ⟨"visits", .primitive .counter, "counter", .passthrough, .origin 1, false⟩]
  missingKey := {}
  mapRemoveNullValue := false

def plan : MigratePlan where
  binder := binder
  keyBinding := [0]
  counters := ⟨[⟨1, 1⟩, ⟨1, 2⟩]⟩
  originKeyIndices := [0]
  projectionWidth := 2
  features := {}
  needsRecord := false

/-- A counter of a small value. -/
def cell (value : UInt8) : Bytes := [0, 0, 0, 0, 0, 0, 0, value]

/-- The origin's counter is at ten. -/
def row : Row := ⟨[some [0, 0, 0, 1], some (cell 10)]⟩

/-- The two counters of the target. -/
def held (hits visits : UInt8) : Row := ⟨[some [0, 0, 0, 1], some (cell hits), some (cell visits)]⟩

theorem eq_of_counterAt {index o : ℕ} (h : CounterAt mapping index o) :
    (index = 1 ∨ index = 2) ∧ o = 1 := by
  obtain ⟨⟨column, hcolumn, hcounter⟩, hsource⟩ := h
  match index with
  | 0 =>
    cases hcolumn
    exact absurd hcounter (by decide)
  | 1 =>
    cases hsource
    exact ⟨.inl rfl, rfl⟩
  | 2 =>
    cases hsource
    exact ⟨.inr rfl, rfl⟩
  | n + 3 => cases hcolumn

theorem holdAlike (value : UInt8) : HoldAlike mapping row (some (held value value)) := by
  intro index index' o bytes hindex hindex' _
  obtain ⟨rfl | rfl, -⟩ := eq_of_counterAt hindex
  · obtain ⟨rfl | rfl, -⟩ := eq_of_counterAt hindex'
    · rfl
    · rfl
  · obtain ⟨rfl | rfl, -⟩ := eq_of_counterAt hindex'
    · rfl
    · rfl

/-- The target holds three and five.  Seven is bound for both counters, and the second goes to
twelve. -/
theorem not_converges :
    ColumnMapping.resolve origin target options = .ok mapping ∧
      MigratePlan.resolve mapping projection planner {} false {} = .ok plan ∧
      plan.counters.deltas row (some (held 3 5)) = .ok [(1, cell 7), (1, cell 5)] ∧
      plan.binder.bind (CounterPlan.deltaRow row [(1, cell 7), (1, cell 5)]) {} =
        .ok [.value (cell 7), .value (cell 7), .value [0, 0, 0, 1]] ∧
      ¬Converges mapping plan.binder row (some (held 3 5))
        [.value (cell 7), .value (cell 7), .value [0, 0, 0, 1]] := by
  refine ⟨rfl, rfl, by decide +kernel, by rfl, ?_⟩
  intro h
  obtain ⟨value, delta, hvalue, hdelta, hsum⟩ := h 2 1 (cell 10) ⟨⟨_, rfl, by decide⟩, rfl⟩ rfl
  have hheld : CounterPlan.currentValue (some (held 3 5)) 2 = .ok 5 := by decide
  cases hheld.symm.trans hvalue
  cases hdelta
  exact absurd hsum (by decide)

/-- The target holds three twice. -/
theorem converges_of_three :
    Converges mapping plan.binder row (some (held 3 3))
      [.value (cell 7), .value (cell 7), .value [0, 0, 0, 1]] := by
  have hplan : MigratePlan.resolve mapping projection planner {} false {} = .ok plan := rfl
  have hdeltas : plan.counters.deltas row (some (held 3 3)) = .ok [(1, cell 7), (1, cell 7)] := by
    decide +kernel
  have hbind : plan.binder.bind (CounterPlan.deltaRow row [(1, cell 7), (1, cell 7)]) {} =
      .ok [.value (cell 7), .value (cell 7), .value [0, 0, 0, 1]] := rfl
  refine (converges_iff hplan (fun _ => rfl) hdeltas hbind).2 ?_
  exact holdAlike 3

end CounterSample

/-! ### Saturating subtraction -/

/-- Subtracting from an `i64` again and again saturates at most once. -/
theorem iterate_saturateI64 {x t : ℤ} (hx : i64Min ≤ x ∧ x ≤ i64Max) (n : ℕ) :
    (fun value => saturateI64 (value - t))^[n] x = saturateI64 (x - n * t) := by
  rw [i64Min, i64Max] at hx
  induction n with
  | zero =>
    simp only [Function.iterate_zero, id_eq, saturateI64, i64Min, i64Max]
    omega
  | succ n ih =>
    -- the multiples of `t` all have its sign
    have hsucc : ((n + 1 : ℕ) : ℤ) * t = n * t + t := by
      push_cast
      ring
    have hsign : 0 ≤ t ∧ 0 ≤ (n : ℤ) * t ∨ t ≤ 0 ∧ (n : ℤ) * t ≤ 0 := by
      rcases le_total 0 t with ht | ht
      · exact .inl ⟨ht, by positivity⟩
      · exact .inr ⟨ht, mul_nonpos_of_nonneg_of_nonpos (by positivity) ht⟩
    rw [Function.iterate_succ_apply', ih, hsucc]
    generalize (n : ℤ) * t = m at hsign
    simp only [saturateI64, i64Min, i64Max]
    omega

/-- How a value `x` of the origin must lie to the value `t` the target holds, where `n` counters are
corrected from one cell: nothing is to be subtracted, or the difference fits and is subtracted once,
or it is the very bound at which the subtraction saturates. -/
def SubtractsOnce (n : ℕ) (x t : ℤ) : Prop :=
  t = 0 ∨ i64Min ≤ x - t ∧ x - t ≤ i64Max ∧
    (n = 1 ∨ 2 ≤ n ∧ (0 < t ∧ x - t = i64Min ∨ t < 0 ∧ x - t = i64Max))

/-- When subtracting `t` several times from `x`, with saturation, writes the same as `x - t`, which
wraps. -/
theorem writeI64_iterate_eq_iff {x t : ℤ} (hx : i64Min ≤ x ∧ x ≤ i64Max)
    (ht : i64Min ≤ t ∧ t ≤ i64Max) (n : ℕ) :
    writeI64 ((fun value => saturateI64 (value - t))^[n] x) = writeI64 (x - t) ↔
      SubtractsOnce n x t := by
  rw [writeI64, writeI64, ofInt_inj, iterate_saturateI64 hx, Int.ModEq]
  simp only [SubtractsOnce, saturateI64, i64Min, i64Max] at hx ht ⊢
  have hzero : t = 0 → (n : ℤ) * t = 0 := by
    rintro rfl
    exact mul_zero _
  have hnone : n = 0 → (n : ℤ) * t = 0 := by
    rintro rfl
    exact zero_mul _
  have hone : n = 1 → (n : ℤ) * t = t := by
    rintro rfl
    exact one_mul _
  have hpos : 2 ≤ n → 0 ≤ t → 2 * t ≤ (n : ℤ) * t := fun hn h =>
    mul_le_mul_of_nonneg_right (by exact_mod_cast hn) h
  have hneg : 2 ≤ n → t ≤ 0 → (n : ℤ) * t ≤ 2 * t := fun hn h =>
    mul_le_mul_of_nonpos_right (by exact_mod_cast hn) h
  generalize (n : ℤ) * t = m at hzero hnone hone hpos hneg ⊢
  have hn : n = 0 ∨ n = 1 ∨ 2 ≤ n := by omega
  rcases hn with hn | hn | hn
  · have hm := hnone hn
    omega
  · have hm := hone hn
    omega
  · rcases lt_trichotomy t 0 with h | h | h
    · have hm := hneg hn h.le
      omega
    · have hm := hzero h
      omega
    · have hm := hpos hn h.le
      omega

/-! ### The validate job -/

/-- A column that is declared `counter` is a counter. -/
theorem ColumnMeta.isCounter_of_declared {column : ColumnMeta}
    (h : Text.toLower column.cqlType.toList = "counter".toList) : column.isCounter = true := by
  have halpha := Text.isAlpha_of_toLower h (by simp)
  have htrim : Text.trim column.cqlType.toList = column.cqlType.toList := by
    refine Text.trim_append (w := []) (by simp) ?_ ?_
    · exact fun c hc => Text.isWhitespace_of_isAlpha (halpha c (mem_of_mem_head? hc))
    · exact fun c hc => Text.isWhitespace_of_isAlpha (halpha c (mem_of_getLast? hc))
  simp [isCounter, unfrozen, htrim, h]

namespace CqlRowSink

variable {mapping : ColumnMapping}

/-- The counters of the sink are counters of the mapping. -/
theorem counterAt_of_mem {binder : Binder} {timestamps : Option RowTimestamps}
    {counter : CounterColumn} (h : counter ∈ (prepare binder mapping timestamps).counters) :
    CounterAt mapping counter.targetIndex counter.originIndex := by
  rw [prepare] at h
  dsimp only at h
  split at h
  · obtain ⟨⟨column, index⟩, hcolumn, h⟩ := mem_filterMap.1 h
    rw [mem_zipIdx_iff_getElem?] at hcolumn
    rw [counterColumn] at h
    split at h
    · rename_i hdeclared
      rw [ColumnMapping.sourceOf_name hcolumn] at h
      split at h
      · cases h
        exact ⟨⟨column, hcolumn, ColumnMeta.isCounter_of_declared hdeclared⟩, ‹_›⟩
      · cases h
    · cases h
  · cases h

/-- What the target holds, as the correction reads it. -/
theorem counterValue_of_currentValue {target : Row} {index : ℕ} {value : ℤ}
    (h : CounterPlan.currentValue (some target) index = .ok value) :
    ((target.cells[index]?).bind counterValue).getD 0 = value := by
  rw [CounterPlan.currentValue, Option.bind_some] at h
  rcases hcell : target.cells[index]? with _ | _ | bytes
  · rw [hcell] at h
    cases h
    rfl
  · rw [hcell] at h
    cases h
    rfl
  · rw [hcell] at h
    obtain ⟨hlen, rfl⟩ := CounterPlan.counterValue_eq_ok.1 h
    simp [counterValue, hlen]

theorem saturateI64_range (x : ℤ) : i64Min ≤ saturateI64 x ∧ saturateI64 x ≤ i64Max := by
  simp only [saturateI64, i64Min, i64Max]
  omega

theorem toInt_writeI64 {x : ℤ} (hx : i64Min ≤ x ∧ x ≤ i64Max) :
    toInt (writeI64 x) = x := by
  rw [i64Min, i64Max] at hx
  rw [writeI64]
  exact toInt_ofInt (by omega) (by omega)

/-- The cell of an origin column is lowered once for each counter that reads it. -/
theorem foldl_counterDelta (target : Row) {o : ℕ} {t : ℤ} (counters : List CounterColumn)
    (hheld : ∀ counter ∈ counters, counter.originIndex = o →
      ((target.cells[counter.targetIndex]?).bind counterValue).getD 0 = t)
    {cells : List RawCell} {x : ℤ} (hx : i64Min ≤ x ∧ x ≤ i64Max)
    (hcell : cells[o]? = some (some (writeI64 x))) :
    (counters.foldl (counterDelta target) cells)[o]? = some (some (writeI64
      ((fun value => saturateI64 (value - t))^[counters.countP (·.originIndex = o)] x))) := by
  induction counters generalizing cells x with
  | nil => exact hcell
  | cons counter counters ih =>
    have hrest := fun c hc => hheld c (mem_cons_of_mem counter hc)
    rw [foldl_cons]
    by_cases hthis : counter.originIndex = o
    · have hlt : o < cells.length := (List.getElem?_eq_some_iff.1 hcell).1
      have horigin : ((cells[o]?).bind counterValue).getD 0 = x := by
        have hlen : (writeI64 x).length = 8 := length_ofInt 8 x
        rw [hcell, Option.bind_some, counterValue, if_pos hlen, Option.getD_some]
        exact toInt_writeI64 hx
      have hstep : (counterDelta target cells counter)[o]? =
          some (some (writeI64 (saturateI64 (x - t)))) := by
        rw [counterDelta, hthis, horigin, hheld counter mem_cons_self hthis]
        exact getElem?_set_self hlt
      rw [countP_cons_of_pos (by simpa using hthis), Function.iterate_succ_apply]
      exact ih hrest (saturateI64_range _) hstep
    · have hstep : (counterDelta target cells counter)[o]? = cells[o]? := by
        rw [counterDelta]
        exact getElem?_set_ne hthis
      rw [countP_cons_of_neg (by simpa using hthis)]
      exact ih hrest hx (hstep.trans hcell)

/-- What a correction binds: the row, or the row with its counters turned into deltas. -/
theorem write_eq_ok {sink : CqlRowSink} {record : Record} {values : BoundWrite}
    (h : sink.write record = .ok values) :
    ∃ ttl writetime, sink.binder.bind ((sink.counterDeltas record).getD record.origin)
      (inputs record ttl writetime) = .ok values := by
  obtain ⟨⟨ttl, writetime⟩, -, h⟩ := bind_eq_ok.1 h
  rw [mapError_eq_ok] at h
  exact ⟨ttl, writetime, h⟩

/-- The row that a correction binds, when there is a target row. -/
theorem counterDeltas_getD (sink : CqlRowSink) {record : Record} {target : Row}
    (htarget : record.target = some target) :
    (sink.counterDeltas record).getD record.origin =
      ⟨sink.counters.foldl (counterDelta target) record.origin.cells⟩ := by
  rw [counterDeltas, htarget]
  dsimp only
  split_ifs with hempty
  · rw [List.isEmpty_iff.1 hempty]
    rfl
  · rfl

section Write

variable [AlphanumericTable] {u : UsingClause} {statement : TargetUpsert} {planner : Planner}
  {missingKey : MissingKeyPolicy} {mapRemoveNullValue : Bool} {binder : Binder}
  {timestamps : Option RowTimestamps} {record : Record} {values : BoundWrite}

omit [AlphanumericTable] in
/-- The origin cell a correction binds for a counter, when those that read it hold one value. -/
theorem counterDeltas_cell {o : ℕ} {bytes : Bytes} (hlen : bytes.length = 8)
    (hcell : record.origin.cells[o]? = some (some bytes)) {t : ℤ}
    (hheld : ∀ index, CounterAt mapping index o →
      CounterPlan.currentValue record.target index = .ok t) {index : ℕ}
    (hcounter : CounterAt mapping index o) :
    (((prepare binder mapping timestamps).counterDeltas record).getD record.origin).cells[o]? =
      some (some (writeI64 ((fun value => saturateI64 (value - t))^[
        (prepare binder mapping timestamps).counters.countP (·.originIndex = o)]
        (toInt bytes)))) := by
  have hbytes : writeI64 (toInt bytes) = bytes := by
    rw [writeI64, ← hlen]
    exact ofInt_toInt bytes
  cases htarget : record.target with
  | none =>
    -- there is nothing to subtract
    have hzero := hheld index hcounter
    rw [htarget] at hzero
    cases hzero
    have hrange := CounterPlan.toInt_range hlen
    have hsame : saturateI64 (toInt bytes) = toInt bytes := by
      rw [i64Min, i64Max] at hrange
      simp only [saturateI64, i64Min, i64Max]
      omega
    rw [counterDeltas, htarget, iterate_saturateI64 hrange, mul_zero, sub_zero, hsame, hbytes]
    exact hcell
  | some target =>
    rw [counterDeltas_getD _ htarget]
    rw [← hbytes] at hcell
    refine foldl_counterDelta target _ ?_ (CounterPlan.toInt_range hlen) hcell
    intro counter hmem hreads
    have hat := counterAt_of_mem hmem
    rw [hreads] at hat
    have hvalue := hheld _ hat
    rw [htarget] at hvalue
    exact counterValue_of_currentValue hvalue

/-- What a correction binds for a counter, when those that read one origin column hold one value. -/
theorem valueOf_counter (hstatement : TargetUpsert.new mapping u = .ok statement)
    (hbinder : Binder.new mapping statement planner missingKey mapRemoveNullValue = .ok binder)
    (hcodec : ∀ origin, planner.registry.converter origin (.primitive .counter) = none)
    (hwrite : (prepare binder mapping timestamps).write record = .ok values) {o : ℕ} {bytes : Bytes}
    (hlen : bytes.length = 8) (hcell : record.origin.cells[o]? = some (some bytes)) {t : ℤ}
    (hheld : ∀ index, CounterAt mapping index o →
      CounterPlan.currentValue record.target index = .ok t) {index : ℕ}
    (hcounter : CounterAt mapping index o) :
    binder.valueOf values index = some (.value (writeI64
      ((fun value => saturateI64 (value - t))^[
        (prepare binder mapping timestamps).counters.countP (·.originIndex = o)]
        (toInt bytes)))) := by
  obtain ⟨ttl, writetime, hbind⟩ := write_eq_ok hwrite
  obtain ⟨column, hcolumn, hiscounter⟩ := hcounter.isCounter
  exact Binder.valueOf_counter hstatement hbinder hcodec hbind hcolumn hiscounter hcounter.source
    (counterDeltas_cell hlen hcell hheld hcounter)

end Write

end CqlRowSink

/-- The two jobs bind the same for each counter whose origin column has a value, and it takes the
counter from its current value to the origin's, modulo `2 ^ 64`. -/
def PathsAgree (mapping : ColumnMapping) (binder : Binder) (origin target : Row)
    (migrated corrected : BoundWrite) : Prop :=
  ∀ index o bytes, CounterAt mapping index o → origin.cells[o]? = some (some bytes) →
    ∃ value delta, CounterPlan.currentValue (some target) index = .ok value ∧
      binder.valueOf migrated index = some (.value delta) ∧
      binder.valueOf corrected index = some (.value delta) ∧
      toInt delta + value ≡ toInt bytes [ZMOD 2 ^ 64]

section Correction

variable [AlphanumericTable] {mapping : ColumnMapping} {projection : OriginProjection}
  {planner : Planner} {missingKey : MissingKeyPolicy} {mapRemoveNullValue : Bool}
  {features : MigrateFeatures} {plan : MigratePlan} {timestamps : Option RowTimestamps}
  {record : Record} {target : Row}
  (hplan : MigratePlan.resolve mapping projection planner missingKey mapRemoveNullValue features =
    .ok plan)
  (hcodec : ∀ origin, planner.registry.converter origin (.primitive .counter) = none)
  (htarget : record.target = some target) {corrected : BoundWrite}
  (hwrite : (CqlRowSink.prepare plan.binder mapping timestamps).write record = .ok corrected)

include hplan hcodec htarget hwrite

/-- What a correction binds for a counter, when those that read one origin column hold one value. -/
theorem corrected_value {o : ℕ} {bytes : Bytes} (hlen : bytes.length = 8)
    (hcell : record.origin.cells[o]? = some (some bytes)) {t : ℤ}
    (hheld : ∀ index, CounterAt mapping index o →
      CounterPlan.currentValue (some target) index = .ok t) {index : ℕ}
    (hcounter : CounterAt mapping index o) :
    plan.binder.valueOf corrected index = some (.value (writeI64
      ((fun value => saturateI64 (value - t))^[
        (CqlRowSink.prepare plan.binder mapping timestamps).counters.countP (·.originIndex = o)]
        (toInt bytes)))) := by
  obtain ⟨upsert, hupsert, hbinder, -⟩ := MigratePlan.resolve_eq_ok hplan
  rw [← htarget] at hheld
  exact CqlRowSink.valueOf_counter hupsert hbinder hcodec hwrite hlen hcell hheld hcounter

variable {deltas : List (ℕ × Bytes)}
  (hdeltas : plan.counters.deltas record.origin (some target) = .ok deltas) {inputs : BindInputs}
  {migrated : BoundWrite}
  (hbind : plan.binder.bind (CounterPlan.deltaRow record.origin deltas) inputs = .ok migrated)

include hdeltas hbind

/-- What the two jobs bind for a counter, once those that share its origin column hold one value. -/
theorem corrected_eq_migrated_iff (halike : HoldAlike mapping record.origin (some target))
    {index o : ℕ} {bytes : Bytes} {t : ℤ} (hindex : CounterAt mapping index o)
    (hcell : record.origin.cells[o]? = some (some bytes))
    (ht : CounterPlan.currentValue (some target) index = .ok t) :
    plan.binder.valueOf corrected index = plan.binder.valueOf migrated index ↔
      SubtractsOnce ((CqlRowSink.prepare plan.binder mapping timestamps).counters.countP
        (·.originIndex = o)) (toInt bytes) t := by
  obtain ⟨hlen, first, value, hfirst, hvalue, hmigrated⟩ :=
    migrated_value hplan hcodec hdeltas hbind hcell hindex
  have hheld (index' : ℕ) (hindex' : CounterAt mapping index' o) :
      CounterPlan.currentValue (some target) index' = .ok t := by
    rw [halike index' index o bytes hindex' hindex hcell, ht]
  cases (hheld first hfirst).symm.trans hvalue
  rw [hmigrated index hindex,
    corrected_value hplan hcodec htarget hwrite hlen hcell hheld hindex, Option.some.injEq,
    BoundValue.value.injEq]
  exact writeI64_iterate_eq_iff (CounterPlan.toInt_range hlen) (CounterPlan.currentValue_range ht) _

/-- The two jobs agree if and only if counters that read one origin column hold one value, and the
correction of that column's cell subtracts it once. -/
theorem pathsAgree_iff :
    PathsAgree mapping plan.binder record.origin target migrated corrected ↔
      HoldAlike mapping record.origin (some target) ∧
        ∀ index o bytes t, CounterAt mapping index o →
          record.origin.cells[o]? = some (some bytes) →
          CounterPlan.currentValue (some target) index = .ok t →
          SubtractsOnce ((CqlRowSink.prepare plan.binder mapping timestamps).counters.countP
            (·.originIndex = o)) (toInt bytes) t := by
  constructor
  · intro h
    have halike : HoldAlike mapping record.origin (some target) := by
      refine holdAlike_of_converges hplan hcodec hdeltas hbind ?_
      intro index o bytes hindex hcell
      obtain ⟨value, delta, hvalue, hdelta, -, hsum⟩ := h index o bytes hindex hcell
      exact ⟨value, delta, hvalue, hdelta, hsum⟩
    refine ⟨halike, ?_⟩
    intro index o bytes t hindex hcell ht
    obtain ⟨value, delta, -, hmigrated, hcorrected, -⟩ := h index o bytes hindex hcell
    refine (corrected_eq_migrated_iff hplan hcodec htarget hwrite hdeltas hbind halike hindex hcell
      ht).1 ?_
    rw [hmigrated, hcorrected]
  · rintro ⟨halike, honce⟩ index o bytes hindex hcell
    obtain ⟨t, delta, ht, hdelta, hsum⟩ :=
      converges_of_holdAlike hplan hcodec hdeltas hbind halike index o bytes hindex hcell
    refine ⟨t, delta, ht, hdelta, ?_, hsum⟩
    rw [← hdelta]
    exact (corrected_eq_migrated_iff hplan hcodec htarget hwrite hdeltas hbind halike hindex hcell
      ht).2 (honce index o bytes t hindex hcell ht)

end Correction

namespace CounterSample

local instance : AlphanumericTable := AlphanumericTable.ascii

def sink : CqlRowSink := CqlRowSink.prepare plan.binder mapping none

/-- The row, with what the target holds for it. -/
def record (hits visits : UInt8) : Record :=
  ⟨⟨[some [0, 0, 0, 1]]⟩, row, some (held hits visits), none⟩

/-- The target holds three twice.  The migration binds seven, and the correction ten minus three
minus three. -/
theorem not_pathsAgree :
    ColumnMapping.resolve origin target options = .ok mapping ∧
      MigratePlan.resolve mapping projection planner {} false {} = .ok plan ∧
      plan.counters.deltas row (some (held 3 3)) = .ok [(1, cell 7), (1, cell 7)] ∧
      plan.binder.bind (CounterPlan.deltaRow row [(1, cell 7), (1, cell 7)]) {} =
        .ok [.value (cell 7), .value (cell 7), .value [0, 0, 0, 1]] ∧
      sink.write (record 3 3) = .ok [.value (cell 4), .value (cell 4), .value [0, 0, 0, 1]] ∧
      ¬PathsAgree mapping plan.binder row (held 3 3)
        [.value (cell 7), .value (cell 7), .value [0, 0, 0, 1]]
        [.value (cell 4), .value (cell 4), .value [0, 0, 0, 1]] := by
  refine ⟨rfl, rfl, by decide +kernel, rfl, by decide, ?_⟩
  intro h
  obtain ⟨value, delta, -, hmigrated, hcorrected, -⟩ :=
    h 1 1 (cell 10) ⟨⟨_, rfl, by decide⟩, rfl⟩ rfl
  cases hmigrated
  cases hcorrected

/-- Where the target holds nothing yet, both bind the origin's value. -/
theorem pathsAgree_of_zero :
    PathsAgree mapping plan.binder row (held 0 0)
      [.value (cell 10), .value (cell 10), .value [0, 0, 0, 1]]
      [.value (cell 10), .value (cell 10), .value [0, 0, 0, 1]] := by
  have hplan : MigratePlan.resolve mapping projection planner {} false {} = .ok plan := rfl
  have hdeltas : plan.counters.deltas (record 0 0).origin (some (held 0 0)) =
      .ok [(1, cell 10), (1, cell 10)] := by
    decide +kernel
  have hbind : plan.binder.bind
      (CounterPlan.deltaRow (record 0 0).origin [(1, cell 10), (1, cell 10)]) {} =
      .ok [.value (cell 10), .value (cell 10), .value [0, 0, 0, 1]] := rfl
  have hwrite : (CqlRowSink.prepare plan.binder mapping none).write (record 0 0) =
      .ok [.value (cell 10), .value (cell 10), .value [0, 0, 0, 1]] := by
    decide
  refine (pathsAgree_iff hplan (fun _ => rfl) rfl hwrite hdeltas hbind).2 ⟨holdAlike 0, ?_⟩
  intro index o bytes t hindex _ ht
  obtain ⟨rfl | rfl, -⟩ := eq_of_counterAt hindex
  · have hheld : CounterPlan.currentValue (some (held 0 0)) 1 = .ok 0 := by decide
    cases hheld.symm.trans ht
    exact .inl rfl
  · have hheld : CounterPlan.currentValue (some (held 0 0)) 2 = .ok 0 := by decide
    cases hheld.symm.trans ht
    exact .inl rfl

end CounterSample

end Cdm
