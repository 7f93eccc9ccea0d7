import Cdm.Cql.Statement
import Cdm.Codec.Plan

/-!
# Binding a row into the target statement

A bind marker is `unset` or carries a value: there is no null.  A null value and an empty list, set
or map are bound as unset, so that the write does not leave a tombstone; a null in a key column is
substituted, or the record is an error.
-/

namespace Cdm

open List Wire
open Fallible

/-- One bound parameter. -/
inductive BoundValue
  | unset
  | value (bytes : Bytes)
  deriving DecidableEq, Repr

/-- The serialized bytes, or null when unset. -/
def BoundValue.bytes : BoundValue → RawCell
  | unset => none
  | value bytes => some bytes

/-- The bound parameters of one statement, in bind order. -/
abbrev BoundWrite := List BoundValue

/-- What a target primary-key column gets when the origin had no value. -/
structure MissingKeyPolicy where
  /-- The replacement of a timestamp, in epoch milliseconds. -/
  missingKeyTsReplace : Option ℤ := none

/-- The substitute for a null in a key column of this type: the empty string for text, the
configured replacement for a timestamp. -/
def MissingKeyPolicy.substitute (policy : MissingKeyPolicy) : CqlTypeInfo → Option Bytes
  | .primitive .text | .primitive .ascii => some []
  | .primitive .timestamp => policy.missingKeyTsReplace.map writeI64
  | _ => none

/-- The per-row inputs of binding that do not come from the origin row itself. -/
structure BindInputs where
  /-- In seconds. -/
  ttl : Option ℤ := none
  /-- In microseconds. -/
  writetime : Option ℤ := none
  explodeKey : Option Bytes := none
  explodeValue : Option Bytes := none
  extractedJson : Option Bytes := none
  /-- The record's primary key, carried only so that a failure can identify the row. -/
  key : Option PrimaryKey := none

/-! ### Serialized collections -/

/-- Whether a value of this type is unset when it is empty. -/
def isJavaCollection : CqlTypeInfo → Bool
  | .list _ _ | .set _ _ | .map _ _ _ => true
  | _ => false

def isMap : CqlTypeInfo → Bool
  | .map _ _ _ => true
  | _ => false

/-- Whether a serialized collection has no elements; a buffer too short for a count counts as
empty. -/
def isEmptyCollection (bytes : Bytes) : Bool :=
  if 4 ≤ bytes.length then BigEndian.toInt (bytes.take 4) = 0 else true

def truncated : CdmError :=
  conversionError
    ("the serialised map is truncated: an element length runs past the end of the value " ++
      "(MIG-014)")

/-- Reads an `i32` at the start of `bytes`. -/
def readI32 (bytes : Bytes) : Except CdmError (ℤ × Bytes) :=
  if 4 ≤ bytes.length then .ok (BigEndian.toInt (bytes.take 4), bytes.drop 4)
  else .error truncated

/-- One element with its length prefix, its declared length, and what follows it. -/
def skipElement (bytes : Bytes) : Except CdmError (Bytes × ℤ × Bytes) := do
  let (len, rest) ← readI32 bytes
  if len < 0 then return (bytes.take 4, len, rest)
  if len.toNat ≤ rest.length then
    return (bytes.take (4 + len.toNat), len, rest.drop len.toNat)
  else throw truncated

/-- The entries among the next `n` whose value is not null, and how many were dropped. -/
def stripEntries : ℕ → Bytes → Except CdmError (Bytes × ℕ)
  | 0, _ => .ok ([], 0)
  | n + 1, bytes => do
    let (key, _, rest) ← skipElement bytes
    let (value, len, rest) ← skipElement rest
    let (kept, dropped) ← stripEntries n rest
    return if len < 0 then (kept, dropped + 1) else (key ++ value ++ kept, dropped)

/-- Removes map entries whose value is null. -/
def stripNullMapValues (bytes : Bytes) : Except CdmError Bytes := do
  let (count, rest) ← readI32 bytes
  let (kept, dropped) ← stripEntries count.toNat rest
  return if dropped = 0 then bytes else writeI32 (count - dropped) ++ kept

/-! ### Removing null map values -/

open Wire in
theorem readI32_eq_ok {bytes rest : Bytes} {i : ℤ} :
    readI32 bytes = .ok (i, rest) ↔ takeI32 bytes = .ok (i, rest) := by
  rw [readI32, takeI32, Wire.take]
  split_ifs <;> simp [Except.map]

/-- Skipping an element is reading it, and keeping the bytes. -/
theorem skipElement_eq_ok {bytes slice rest : Bytes} {len : ℤ}
    (h : skipElement bytes = .ok (slice, len, rest)) :
    bytes = slice ++ rest ∧
      ∃ element, takeElement bytes = .ok (element, rest) ∧ (len < 0 ↔ element = none) := by
  rw [skipElement, bind_eq_ok] at h
  obtain ⟨⟨i, rest'⟩, hread, h⟩ := h
  rw [readI32_eq_ok] at hread
  obtain ⟨rfl, hlo, hhi⟩ := takeI32_eq_ok.1 hread
  simp only at h
  split_ifs at h with hneg hfits
  · cases h
    have htake : (writeI32 len ++ rest).take 4 = writeI32 len :=
      take_left' (length_writeI32 len)
    refine ⟨by rw [htake], none, ?_, by simp [hneg]⟩
    exact takeElement_eq_ok.2 (.inl ⟨len, rfl, rfl, hlo, hneg⟩)
  · cases h
    have hlen : ((rest'.take len.toNat).length : ℤ) = len := by
      rw [length_take]
      omega
    have htake : (writeI32 len ++ rest').take (4 + len.toNat) =
        writeI32 len ++ rest'.take len.toNat := by
      rw [List.take_append, length_writeI32, Nat.add_sub_cancel_left,
        take_of_length_le (by simp)]
    have hsplit : writeI32 len ++ rest' =
        writeI32 (rest'.take len.toNat).length ++ rest'.take len.toNat ++ rest'.drop len.toNat := by
      rw [hlen, append_assoc, take_append_drop]
    refine ⟨by rw [htake, append_assoc, take_append_drop], some (rest'.take len.toNat),
      ?_, by simp [hneg]⟩
    refine takeElement_eq_ok.2 (.inr ⟨_, rfl, ?_, hsplit⟩)
    rw [writeElement, if_pos (by omega)]

/-- The entries that are dropped are those with a null value. -/
theorem stripEntries_eq_ok {n dropped : ℕ} {bytes kept : Bytes}
    (h : stripEntries n bytes = .ok (kept, dropped)) :
    ∃ entries after, takeEntries n bytes = .ok (entries, after) ∧
      dropped = entries.countP (·.2 = none) ∧ entries.length = n := by
  induction n generalizing bytes kept dropped with
  | zero =>
    cases h
    exact ⟨[], bytes, rfl, rfl, rfl⟩
  | succ n ih =>
    rw [stripEntries, bind_eq_ok] at h
    obtain ⟨⟨k, _, rest⟩, hkey, h⟩ := h
    obtain ⟨⟨v, len, rest'⟩, hvalue, h⟩ := bind_eq_ok.1 h
    obtain ⟨⟨kept', dropped'⟩, hrec, h⟩ := bind_eq_ok.1 h
    obtain ⟨-, key, hk, -⟩ := skipElement_eq_ok hkey
    obtain ⟨-, value, hv, hnull⟩ := skipElement_eq_ok hvalue
    obtain ⟨entries, after, htake, rfl, hlen⟩ := ih hrec
    refine ⟨(key, value) :: entries, after, ?_, ?_, by simp [hlen]⟩
    · simp only [takeEntries, hk, hv, htake, bind, Except.bind]
      rfl
    · simp only [pure, Except.pure, Except.ok.injEq] at h
      split_ifs at h with hlt
      · cases h
        simp [hnull.1 hlt]
      · cases h
        have hsome : value ≠ none := fun e => hlt (hnull.2 e)
        simp [hsome]

/-- Removing null map values leaves a map alone when it has none, and makes it smaller when it has
one. -/
theorem stripNullMapValues_eq_ok {bytes out : Bytes} (h : stripNullMapValues bytes = .ok out) :
    (Wire.NoNullValues bytes ∧ out = bytes) ∨
      ¬Wire.NoNullValues bytes ∧ ∃ count rest less kept,
        bytes = writeI32 count ++ rest ∧ out = writeI32 less ++ kept ∧
        0 ≤ less ∧ less < count ∧ count < 2 ^ 31 := by
  rw [stripNullMapValues, bind_eq_ok] at h
  obtain ⟨⟨count, rest⟩, hread, h⟩ := h
  obtain ⟨⟨kept, dropped⟩, hstrip, h⟩ := bind_eq_ok.1 h
  rw [readI32_eq_ok] at hread
  obtain ⟨entries, after, htake, rfl, hlen⟩ := stripEntries_eq_ok hstrip
  have hnull : Wire.NoNullValues bytes ↔ ∀ entry ∈ entries, entry.2 ≠ none := by
    constructor
    · exact fun hnn => hnn count rest entries after hread htake
    · intro hall count' rest' entries' after' hread' htake'
      rw [hread] at hread'
      cases hread'
      rw [htake] at htake'
      cases htake'
      exact hall
  rw [hnull]
  have hle : entries.countP (·.2 = none) ≤ entries.length := countP_le_length
  obtain ⟨hbytes, hlo, hhi⟩ := takeI32_eq_ok.1 hread
  have hzero : entries.countP (·.2 = none) = 0 ↔ ∀ entry ∈ entries, entry.2 ≠ none := by
    simp [countP_eq_zero]
  rw [← hzero]
  simp only [pure, Except.pure, Except.ok.injEq] at h
  split_ifs at h with hdropped
  · exact .inl ⟨hdropped, h.symm⟩
  · exact .inr ⟨hdropped, count, rest, _, kept, hbytes, h.symm, by omega, by omega, hhi⟩

/-- Removing null map values leaves a map alone exactly when it has none. -/
theorem stripNullMapValues_eq_self {bytes out : Bytes} (h : stripNullMapValues bytes = .ok out) :
    out = bytes ↔ Wire.NoNullValues bytes := by
  rcases stripNullMapValues_eq_ok h with ⟨hnn, rfl⟩ | ⟨hnn, count, rest, less, kept, rfl, rfl, hs⟩
  · simp [hnn]
  · constructor
    · intro heq
      have hcount := (writeI32_inj (by omega) (by omega) heq).1
      omega
    · exact fun h => absurd h hnn

/-! ### The binder -/

/-- One target column, resolved for binding. -/
structure ColumnBind where
  name : String
  cqlType : CqlTypeInfo
  declaredType : String
  plan : ConversionPlan
  source : TargetSource
  isKey : Bool

/-- The resolved binding plan for one target statement. -/
structure Binder where
  statement : TargetUpsert
  columns : List ColumnBind
  missingKey : MissingKeyPolicy
  mapRemoveNullValue : Bool

/-- A bind failure. -/
structure BindFailure where
  column : String
  cqlType : String
  bindIndex : ℕ
  columnIndex : ℕ
  statement : String
  key : Option PrimaryKey
  cause : Option CdmError
  deriving DecidableEq

namespace BindFailure

def render (failure : BindFailure) : String :=
  s!"failed to bind column `{failure.column}` of type {failure.cqlType} at column index " ++
    s!"{failure.columnIndex} and bind index {failure.bindIndex} of statement: " ++
    failure.statement ++
    (failure.key.elim "" fun key => " (primary key " ++ toString key ++ ")") ++
    (failure.cause.elim "" fun cause => ": " ++ toString cause)

/-- A bind failure is a write error. -/
def toError (failure : BindFailure) : CdmError :=
  let error :=
    ((⟨.write, failure.render, {}⟩ : CdmError).withSide .target).withColumn failure.column
  match failure.key with
  | some key => error.withPrimaryKey key
  | none => error

end BindFailure

/-- A column's declared type. -/
def parseType [AlphanumericTable] (column : ColumnMeta) (side : Side) :
    Except CdmError CqlTypeInfo :=
  (CqlTypeInfo.parse column.cqlType).mapError fun e => (e.withSide side).withColumn column.name

namespace Binder

def outOfRange (index : ℕ) (mapping : ColumnMapping) : CdmError :=
  ⟨.internal, s!"the column mapping refers to origin column {index}, but the projection has " ++
    s!"{mapping.originColumns.length}", {}⟩

/-- The conversion of a column's values.  Everything that does not come from an origin column
already arrives in the target's representation. -/
def planFor [AlphanumericTable] (mapping : ColumnMapping) (planner : Planner)
    (target : CqlTypeInfo) : TargetSource → Except CdmError ConversionPlan
  | .origin index =>
    match mapping.originColumns[index]? with
    | none => .error (outOfRange index mapping)
    | some column => (parseType column .origin).map fun origin => planner.planTypes origin target
  | _ => .ok .passthrough

/-- Resolves one target column. -/
def resolveColumn [AlphanumericTable] (mapping : ColumnMapping) (planner : Planner)
    (column : ColumnMeta × ℕ) : Except CdmError ColumnBind := do
  let cqlType ← parseType column.1 .target
  let source := (mapping.source column.2).getD .absent
  let plan ← planFor mapping planner cqlType source
  return {
    name := column.1.name
    cqlType
    declaredType := column.1.cqlType
    plan
    source
    isKey := column.1.kind.isKey }

/-- Resolves the plan: one conversion per mapped column pair. -/
def new [AlphanumericTable] (mapping : ColumnMapping) (statement : TargetUpsert)
    (planner : Planner) (missingKey : MissingKeyPolicy) (mapRemoveNullValue : Bool) :
    Except CdmError Binder := do
  let columns ← mapping.targetColumns.zipIdx.mapM (resolveColumn mapping planner)
  return { statement, columns, missingKey, mapRemoveNullValue }

/-- What is known of the binding of the target column `target` at position `index`. -/
structure Resolves [AlphanumericTable] (mapping : ColumnMapping) (planner : Planner)
    (target : ColumnMeta) (index : ℕ) (column : ColumnBind) : Prop where
  name : column.name = target.name
  cqlType : parseType target .target = .ok column.cqlType
  declaredType : column.declaredType = target.cqlType
  source : column.source = (mapping.source index).getD .absent
  plan : planFor mapping planner column.cqlType column.source = .ok column.plan
  isKey : column.isKey = target.kind.isKey

theorem resolves_of_resolveColumn [AlphanumericTable] {mapping : ColumnMapping} {planner : Planner}
    {target : ColumnMeta} {index : ℕ} {column : ColumnBind}
    (h : resolveColumn mapping planner (target, index) = .ok column) :
    Resolves mapping planner target index column := by
  rw [resolveColumn, bind_eq_ok] at h
  obtain ⟨cqlType, htype, h⟩ := h
  obtain ⟨plan, hplan, h⟩ := bind_eq_ok.1 h
  cases h
  exact ⟨rfl, htype, rfl, rfl, hplan, rfl⟩

section New

variable [AlphanumericTable] {mapping : ColumnMapping} {statement : TargetUpsert}
  {planner : Planner} {missingKey : MissingKeyPolicy} {mapRemoveNullValue : Bool} {binder : Binder}

theorem new_eq_ok (h : new mapping statement planner missingKey mapRemoveNullValue = .ok binder) :
    mapping.targetColumns.zipIdx.mapM (resolveColumn mapping planner) = .ok binder.columns ∧
      binder.statement = statement ∧ binder.missingKey = missingKey ∧
      binder.mapRemoveNullValue = mapRemoveNullValue := by
  obtain ⟨columns, hcolumns, h⟩ := bind_eq_ok.1 h
  cases h
  exact ⟨hcolumns, rfl, rfl, rfl⟩

/-- The binder holds one resolved column for each target column. -/
theorem resolves_getElem?
    (h : new mapping statement planner missingKey mapRemoveNullValue = .ok binder) {index : ℕ}
    {column : ColumnBind} (hcolumn : binder.columns[index]? = some column) :
    ∃ target, mapping.targetColumns[index]? = some target ∧
      Resolves mapping planner target index column := by
  obtain ⟨⟨target, i⟩, hget, hres⟩ := mapM_getElem? (new_eq_ok h).1 index hcolumn
  rw [getElem?_zipIdx] at hget
  obtain ⟨t, ht, heq⟩ := Option.map_eq_some_iff.1 hget
  obtain ⟨rfl, hi⟩ := Prod.mk.inj heq
  have hindex : i = index := by omega
  subst hindex
  exact ⟨t, ht, resolves_of_resolveColumn hres⟩

theorem length_columns
    (h : new mapping statement planner missingKey mapRemoveNullValue = .ok binder) :
    binder.columns.length = mapping.targetColumns.length := by
  simpa using (mapM_eq_ok (new_eq_ok h).1).length_eq.symm

theorem map_name_columns
    (h : new mapping statement planner missingKey mapRemoveNullValue = .ok binder) :
    binder.columns.map ColumnBind.name = mapping.targetColumns.map ColumnMeta.name := by
  apply ext_getElem?
  intro index
  rw [getElem?_map, getElem?_map]
  cases hcolumn : binder.columns[index]? with
  | some column =>
    obtain ⟨target, htarget, hres⟩ := resolves_getElem? h hcolumn
    rw [htarget, Option.map_some, Option.map_some, hres.name]
  | none =>
    have hlen := length_columns h
    rw [List.getElem?_eq_none_iff] at hcolumn
    rw [getElem?_eq_none (by omega)]
    rfl

end New

variable (binder : Binder)

def missingKeyError (column : ColumnBind) : CdmError :=
  ((⟨.write, s!"target primary-key column `{column.name}` of type {column.cqlType} is null on the " ++
    "origin and has no substitute: only text and ascii keys default to the empty string, and a " ++
    "timestamp key needs transform.missing_key_ts_replace (MIG-013).", {}⟩ : CdmError).withSide
    .target).withColumn column.name

def keyCannotBeUnset (column : ColumnBind) : CdmError :=
  ((⟨.write, s!"target primary-key column `{column.name}` is an empty collection, which cannot be " ++
    "bound as UNSET because a key must be present (MIG-012, MIG-013).", {}⟩ : CdmError).withSide
    .target).withColumn column.name

/-- What a column with no value binds. -/
def absentValue (column : ColumnBind) : Except CdmError BoundValue :=
  if !column.isKey then .ok .unset
  else
    match binder.missingKey.substitute column.cqlType with
    | some bytes => .ok (.value bytes)
    | none => .error (missingKeyError column)

/-- Applies the column's conversion plan. -/
def convert (column : ColumnBind) (bytes : Bytes) : Except CdmError Bytes :=
  if column.plan.isIdentity then .ok bytes
  else (column.plan.apply (some bytes)).map fun cell => cell.getD []

/-- The bytes of a value as they are written, after null map values have been removed. -/
def stripped (column : ColumnBind) (bytes : Bytes) : Except CdmError Bytes :=
  if binder.mapRemoveNullValue && isMap column.cqlType then stripNullMapValues bytes else .ok bytes

/-- One column's value before it becomes a `BoundValue`; an error without a cause when the row is
narrower than the projection. -/
def rawValue (column : ColumnBind) (row : Row) (inputs : BindInputs) :
    Except (Option CdmError) (Option Bytes) :=
  match column.source with
  | .origin index =>
    match row.cells[index]? with
    | none => .error none
    | some none => .ok none
    | some (some bytes) => ((convert column bytes).map some).mapError some
  | .explodeKey => .ok inputs.explodeKey
  | .explodeValue => .ok inputs.explodeValue
  | .extractJson _ => .ok inputs.extractedJson
  | .constant _ | .absent => .ok none

/-- What a column with a value binds. -/
def presentValue (column : ColumnBind) (bytes : Bytes) : Except CdmError BoundValue := do
  let bytes ← binder.stripped column bytes
  if isJavaCollection column.cqlType && isEmptyCollection bytes then
    -- a key column that is an empty collection cannot be unset
    if column.isKey then .error (keyCannotBeUnset column) else .ok .unset
  else .ok (.value bytes)

/-- One column's bound value. -/
def bindColumn (column : ColumnBind) (row : Row) (inputs : BindInputs) :
    Except (Option CdmError) BoundValue := do
  match ← rawValue column row inputs with
  | none => (binder.absentValue column).mapError some
  | some bytes => (binder.presentValue column bytes).mapError some

def failure (bindIndex columnIndex : ℕ) (column cqlType : String) (inputs : BindInputs)
    (cause : Option CdmError) : BindFailure :=
  { column, cqlType, bindIndex, columnIndex, statement := binder.statement.cql,
    key := inputs.key, cause }

/-- The value of the target column at `index`, for the marker at `bindIndex`. -/
def bindIndexed (row : Row) (inputs : BindInputs) (bindIndex index : ℕ) :
    Except BindFailure BoundValue :=
  match binder.columns[index]? with
  | none => .error (binder.failure bindIndex index "<unknown>" "internal" inputs none)
  | some column =>
    (binder.bindColumn column row inputs).mapError fun cause =>
      binder.failure bindIndex index column.name column.declaredType inputs cause

/-- The value of one bind marker. -/
def bindSlot (row : Row) (inputs : BindInputs) : BindSlot × ℕ → Except BindFailure BoundValue
  | (.column index, bindIndex) | (.keyColumn index, bindIndex) =>
    binder.bindIndexed row inputs bindIndex index
  | (.ttl, _) => .ok (inputs.ttl.elim .unset fun ttl => .value (writeI32 ttl))
  | (.writetime, _) =>
    .ok (inputs.writetime.elim .unset fun writetime => .value (writeI64 writetime))

/-- Binds one origin row: the parameters of the statement, in bind order.  Whether the write may be
retried is a property of the statement (`TargetUpsert.counter`). -/
def bind (row : Row) (inputs : BindInputs) : Except BindFailure BoundWrite :=
  binder.statement.slots.zipIdx.mapM (binder.bindSlot row inputs)

/-! ### The key of a lookup -/

/-- The position of one bound key column. -/
def keyIndex (name : String) : Except CdmError ℕ :=
  match binder.columns.findIdx? (·.name = name) with
  | some index => .ok index
  | none => .error ⟨.internal,
      s!"the target lookup binds key column `{name}`, which is not a target column of this " ++
        "binder; the statement and the binder were built from different mappings", {}⟩

/-- The target key columns a lookup binds, as binder positions. -/
def keyBinding (select : TargetSelectByPk) : Except CdmError (List ℕ) :=
  select.boundKeyColumns.mapM binder.keyIndex

/-- Binds one row's primary key into the lookup. -/
def bindKey (binding : List ℕ) (row : Row) (inputs : BindInputs) :
    Except BindFailure BoundWrite :=
  binding.zipIdx.mapM fun key => binder.bindIndexed row inputs key.2 key.1

/-! ### What is written verbatim -/

/-- No entry of the value is removed on the way into the column. -/
def KeepsEntries (column : ColumnBind) (bytes : Bytes) : Prop :=
  binder.mapRemoveNullValue = true → isMap column.cqlType = true → Wire.NoNullValues bytes

variable {binder}

theorem stripped_eq_self_iff {column : ColumnBind} {bytes out : Bytes}
    (h : binder.stripped column bytes = .ok out) :
    out = bytes ↔ binder.KeepsEntries column bytes := by
  rw [stripped] at h
  split_ifs at h with hstrip
  · simp only [Bool.and_eq_true] at hstrip
    simp [stripNullMapValues_eq_self h, KeepsEntries, hstrip.1, hstrip.2]
  · cases h
    simp only [KeepsEntries, true_iff]
    intro hremove hmap
    simp [hremove, hmap] at hstrip

theorem isMap_iff {t : CqlTypeInfo} :
    isMap t = true ↔ ∃ key value frozen, t = .map key value frozen := by
  cases t <;> simp [isMap]

section Resolved

variable [AlphanumericTable] {mapping : ColumnMapping} {planner : Planner} {target : ColumnMeta}
  {index : ℕ} {column : ColumnBind}

/-- The conversion of a column that reads the origin. -/
theorem Resolves.plan_origin (h : Resolves mapping planner target index column) {i : ℕ}
    (hsource : column.source = .origin i) :
    ∃ originColumn originType, mapping.originColumns[i]? = some originColumn ∧
      parseType originColumn .origin = .ok originType ∧
      column.plan = planner.planTypes originType column.cqlType := by
  have hplan := h.plan
  rw [hsource, planFor] at hplan
  cases hcol : mapping.originColumns[i]? with
  | none =>
    rw [hcol] at hplan
    cases hplan
  | some originColumn =>
    rw [hcol] at hplan
    obtain ⟨originType, htype, hplan⟩ := map_eq_ok.1 hplan
    exact ⟨originColumn, originType, rfl, htype, hplan.symm⟩

/-- A column that does not read the origin is not converted. -/
theorem Resolves.plan_passthrough (h : Resolves mapping planner target index column)
    (hsource : ∀ i, column.source ≠ .origin i) : column.plan = .passthrough := by
  have hplan := h.plan
  unfold planFor at hplan
  split at hplan
  · exact absurd ‹_› (hsource _)
  · exact (Except.ok.inj hplan).symm

theorem Resolves.plan_map (h : Resolves mapping planner target index column)
    (hmap : isMap column.cqlType = true) :
    column.plan.isIdentity = true ∨ ∃ k v, column.plan = .map k v := by
  obtain ⟨key, value, frozen, htype⟩ := isMap_iff.1 hmap
  by_cases hsource : ∃ i, column.source = .origin i
  · obtain ⟨i, hi⟩ := hsource
    obtain ⟨_, originType, -, -, hplan⟩ := h.plan_origin hi
    rw [hplan, htype]
    exact Planner.planTypes_map originType key value frozen
  · rw [h.plan_passthrough fun i hi => hsource ⟨i, hi⟩]
    exact .inl rfl

/-- A converted and stripped value is the value itself only if neither step changed it. -/
theorem Resolves.written_eq_iff (hres : Resolves mapping planner target index column)
    {bytes converted out : Bytes} (hconvert : convert column bytes = .ok converted)
    (hstrip : binder.stripped column converted = .ok out) :
    out = bytes ↔ convert column bytes = .ok bytes ∧ binder.KeepsEntries column bytes := by
  constructor
  · rintro rfl
    have hsame : converted = out := by
      by_contra hne
      have hkeeps := (stripped_eq_self_iff hstrip).not.1 fun e => hne e.symm
      simp only [KeepsEntries, Classical.not_imp] at hkeeps
      obtain ⟨hremove, hmap, hnull⟩ := hkeeps
      rw [stripped, hremove, hmap, Bool.and_self, if_pos rfl] at hstrip
      -- the conversion keeps the count of a map, and stripping makes it smaller
      rcases stripNullMapValues_eq_ok hstrip with ⟨hnn, -⟩ | ⟨-, count, rest, less, kept, h⟩
      · exact hnull hnn
      · obtain ⟨hconverted, hout, hless, hlt, hhi⟩ := h
        rw [convert] at hconvert
        split_ifs at hconvert with hid
        · exact hne (Except.ok.inj hconvert).symm
        · obtain ⟨k, v, hplan⟩ := (hres.plan_map hmap).resolve_left hid
          obtain ⟨cell, happly, hcell⟩ := map_eq_ok.1 hconvert
          rw [hplan] at happly
          obtain ⟨n, r, c, hbytes, rfl, hnlo, hnhi⟩ := ConversionPlan.apply_map happly
          rw [Option.getD_some] at hcell
          rw [← hcell] at hconverted
          have h₁ := (writeI32_inj ⟨hnlo, hnhi⟩ (by omega) hconverted).1
          have h₂ := (writeI32_inj ⟨hnlo, hnhi⟩ (by omega) (hbytes.symm.trans hout)).1
          omega
    subst hsame
    exact ⟨hconvert, (stripped_eq_self_iff hstrip).1 rfl⟩
  · rintro ⟨hsame, hkeeps⟩
    rw [hconvert] at hsame
    cases hsame
    exact (stripped_eq_self_iff hstrip).2 hkeeps

end Resolved

/-- What a key column binds, when it has a value. -/
theorem presentValue_of_isKey {column : ColumnBind} {bytes : Bytes} {value : BoundValue}
    (hkey : column.isKey = true) (h : binder.presentValue column bytes = .ok value) :
    ∃ out, binder.stripped column bytes = .ok out ∧ value = .value out := by
  obtain ⟨out, hout, h⟩ := bind_eq_ok.1 h
  split_ifs at h with hempty
  cases h
  exact ⟨out, hout, rfl⟩

/-- What a key column binds, when it has no value. -/
theorem absentValue_of_isKey {column : ColumnBind} {value : BoundValue}
    (hkey : column.isKey = true) (h : binder.absentValue column = .ok value) :
    ∃ bytes, binder.missingKey.substitute column.cqlType = some bytes ∧ value = .value bytes := by
  rw [absentValue, hkey] at h
  cases hsub : binder.missingKey.substitute column.cqlType with
  | none =>
    rw [hsub] at h
    cases h
  | some bytes =>
    rw [hsub] at h
    cases h
    exact ⟨bytes, rfl, rfl⟩

theorem bindIndexed_eq_ok {row : Row} {inputs : BindInputs} {bindIndex index : ℕ}
    {value : BoundValue} :
    binder.bindIndexed row inputs bindIndex index = .ok value ↔
      ∃ column, binder.columns[index]? = some column ∧
        binder.bindColumn column row inputs = .ok value := by
  rw [bindIndexed]
  cases binder.columns[index]? with
  | none => simp
  | some column => simp [mapError_eq_ok]

theorem keyIndex_eq_ok {name : String} {index : ℕ} :
    binder.keyIndex name = .ok index ↔ binder.columns.findIdx? (·.name = name) = some index := by
  rw [keyIndex]
  cases binder.columns.findIdx? (·.name = name) with
  | none => simp
  | some i => simp

/-- The values a bound key consists of, column by column. -/
theorem bindKey_eq_ok {binding : List ℕ} {row : Row} {inputs : BindInputs}
    {values : BoundWrite} (h : binder.bindKey binding row inputs = .ok values) :
    binding.mapM (binder.bindIndexed row inputs 0) = .ok values := by
  refine mapM_zipIdx_eq_ok ?_ h
  intro index bindIndex value hvalue
  exact bindIndexed_eq_ok.2 (bindIndexed_eq_ok.1 hvalue)

/-- The value of a column that reads the origin: none for a null cell, and the converted bytes
otherwise. -/
theorem rawValue_origin_eq_ok {column : ColumnBind} {row : Row} {inputs : BindInputs} {i : ℕ}
    (hsource : column.source = .origin i) {raw : Option Bytes} :
    rawValue column row inputs = .ok raw ↔
      (row.cells[i]? = some none ∧ raw = none) ∨
      ∃ bytes converted, row.cells[i]? = some (some bytes) ∧
        convert column bytes = .ok converted ∧ raw = some converted := by
  simp only [rawValue, hsource]
  rcases hcell : row.cells[i]? with _ | _ | bytes
  · simp
  · simp [eq_comm]
  · simp only [mapError_eq_ok, map_eq_ok]
    constructor
    · rintro ⟨converted, hconvert, rfl⟩
      exact .inr ⟨bytes, converted, rfl, hconvert, rfl⟩
    · rintro (⟨hc, -⟩ | ⟨_, converted, hc, hconvert, rfl⟩)
      · cases hc
      · cases hc
        exact ⟨converted, hconvert, rfl⟩

/-- What a column binds, when it has no value and when it has one. -/
theorem bindColumn_eq_ok {column : ColumnBind} {row : Row} {inputs : BindInputs}
    {value : BoundValue} (h : binder.bindColumn column row inputs = .ok value) :
    (rawValue column row inputs = .ok none ∧ binder.absentValue column = .ok value) ∨
      ∃ bytes, rawValue column row inputs = .ok (some bytes) ∧
        binder.presentValue column bytes = .ok value := by
  obtain ⟨raw, hraw, h⟩ := bind_eq_ok.1 h
  cases raw with
  | none => exact .inl ⟨hraw, mapError_eq_ok.1 h⟩
  | some bytes => exact .inr ⟨bytes, hraw, mapError_eq_ok.1 h⟩

/-! ### What binding depends on -/

theorem toOption_bindIndexed (row : Row) (inputs : BindInputs) (bindIndex index : ℕ) :
    (binder.bindIndexed row inputs bindIndex index).toOption =
      (binder.columns[index]?).bind fun column => (binder.bindColumn column row inputs).toOption := by
  rw [bindIndexed]
  cases binder.columns[index]? with
  | none => rfl
  | some column => simp

/-- Two rows bind the same, or are both rejected, when every column does. -/
theorem toOption_bind_congr {row row' : Row} {inputs inputs' : BindInputs}
    (hcolumns : ∀ column ∈ binder.columns, (binder.bindColumn column row inputs).toOption =
      (binder.bindColumn column row' inputs').toOption)
    (httl : inputs.ttl = inputs'.ttl) (hwritetime : inputs.writetime = inputs'.writetime) :
    (binder.bind row inputs).toOption = (binder.bind row' inputs').toOption := by
  have indexed (bindIndex index : ℕ) :
      (binder.bindIndexed row inputs bindIndex index).toOption =
        (binder.bindIndexed row' inputs' bindIndex index).toOption := by
    rw [toOption_bindIndexed, toOption_bindIndexed]
    cases hcolumn : binder.columns[index]? with
    | none => rfl
    | some column => exact hcolumns column (mem_of_getElem? hcolumn)
  apply toOption_mapM_congr
  rintro ⟨slot, bindIndex⟩ -
  cases slot with
  | column index => exact indexed bindIndex index
  | keyColumn index => exact indexed bindIndex index
  | ttl => rw [bindSlot, bindSlot, httl]
  | writetime => rw [bindSlot, bindSlot, hwritetime]

/-- The key a failure is reported under does not matter to what is bound. -/
theorem toOption_bind_key (row : Row) (inputs : BindInputs) (key : Option PrimaryKey) :
    (binder.bind row { inputs with key }).toOption = (binder.bind row inputs).toOption :=
  toOption_bind_congr (fun _ _ => rfl) rfl rfl

/-! ### The extracted property -/

/-- Every column that takes the extracted property leaves it out: the column is a collection, and
the property is an empty one. -/
def LeavesOut (binder : Binder) (bytes : Bytes) : Prop :=
  ∀ column ∈ binder.columns, column.source.isExtractJson = true →
    isJavaCollection column.cqlType = true ∧
      ∃ out, binder.stripped column bytes = .ok out ∧ isEmptyCollection out = true

/-- The columns of the extracted property are no key columns, and take a bind marker each. -/
structure BindsExtracted (binder : Binder) : Prop where
  isKey_eq_false : ∀ column ∈ binder.columns, column.source.isExtractJson = true →
    column.isKey = false
  column_mem_slots : ∀ (index : ℕ) column, binder.columns[index]? = some column →
    column.source.isExtractJson = true → .column index ∈ binder.statement.slots

theorem rawValue_without {column : ColumnBind} (h : column.source.isExtractJson = false) (row : Row)
    (inputs : BindInputs) (extracted : Option Bytes) :
    rawValue column row { inputs with extractedJson := extracted } = rawValue column row inputs := by
  unfold rawValue
  cases hsource : column.source <;> simp_all [TargetSource.isExtractJson]

/-- A column that does not take the extracted property binds the same without it. -/
theorem bindColumn_without {column : ColumnBind} (h : column.source.isExtractJson = false)
    (row : Row) (inputs : BindInputs) (extracted : Option Bytes) :
    binder.bindColumn column row { inputs with extractedJson := extracted } =
      binder.bindColumn column row inputs := by
  rw [bindColumn, bindColumn, rawValue_without h]

theorem rawValue_extractJson {column : ColumnBind} (h : column.source.isExtractJson = true)
    (row : Row) (inputs : BindInputs) : rawValue column row inputs = .ok inputs.extractedJson := by
  unfold rawValue
  cases hsource : column.source <;> simp_all [TargetSource.isExtractJson]

/-- Without an extracted property, its columns are unset. -/
theorem bindColumn_extractJson_none {column : ColumnBind} (h : column.source.isExtractJson = true)
    (hkey : column.isKey = false) (row : Row) {inputs : BindInputs}
    (hinputs : inputs.extractedJson = none) : binder.bindColumn column row inputs = .ok .unset := by
  rw [bindColumn, rawValue_extractJson h, hinputs]
  show (binder.absentValue column).mapError some = .ok .unset
  rw [absentValue, hkey]
  rfl

/-- The extracted property is left out exactly when it binds as unset. -/
theorem bindColumn_extractJson_some {column : ColumnBind} (h : column.source.isExtractJson = true)
    (hkey : column.isKey = false) (row : Row) {inputs : BindInputs} {bytes : Bytes}
    (hinputs : inputs.extractedJson = some bytes) :
    binder.bindColumn column row inputs = .ok .unset ↔
      isJavaCollection column.cqlType = true ∧
        ∃ out, binder.stripped column bytes = .ok out ∧ isEmptyCollection out = true := by
  rw [bindColumn, rawValue_extractJson h, hinputs]
  show (binder.presentValue column bytes).mapError some = .ok .unset ↔ _
  rw [mapError_eq_ok, presentValue, bind_eq_ok]
  constructor
  · rintro ⟨out, hout, hvalue⟩
    split_ifs at hvalue with hempty
    · rw [Bool.and_eq_true] at hempty
      exact ⟨hempty.1, out, hout, hempty.2⟩
    · cases hvalue
  · rintro ⟨hcollection, out, hout, hempty⟩
    refine ⟨out, hout, ?_⟩
    rw [hcollection, hempty, hkey]
    rfl

/-- A row that is rejected without the extracted property is rejected with it. -/
theorem toOption_bind_eq_none (hbinds : binder.BindsExtracted) {row : Row} {inputs : BindInputs}
    (h : (binder.bind row { inputs with extractedJson := none }).toOption = none) :
    (binder.bind row inputs).toOption = none := by
  rw [bind, toOption_mapM_eq_none] at h ⊢
  obtain ⟨⟨slot, bindIndex⟩, hslot, hnone⟩ := h
  refine ⟨(slot, bindIndex), hslot, ?_⟩
  have indexed (index : ℕ) (hindex : (binder.bindIndexed row { inputs with extractedJson := none }
      bindIndex index).toOption = none) :
      (binder.bindIndexed row inputs bindIndex index).toOption = none := by
    rw [toOption_bindIndexed] at hindex ⊢
    cases hcolumn : binder.columns[index]? with
    | none => rfl
    | some column =>
      rw [hcolumn] at hindex
      by_cases hjson : column.source.isExtractJson = true
      · have hkey := hbinds.isKey_eq_false column (mem_of_getElem? hcolumn) hjson
        rw [Option.bind_some, bindColumn_extractJson_none hjson hkey row rfl] at hindex
        cases hindex
      · rw [Option.bind_some, bindColumn_without (by simpa using hjson)] at hindex
        exact hindex
  cases slot with
  | column index => exact indexed index hnone
  | keyColumn index => exact indexed index hnone
  | ttl => cases hnone
  | writetime => cases hnone

/-- The extracted property makes no difference when there is none, when it is left out, and when the
row is rejected without it. -/
theorem toOption_bind_eq_iff (hbinds : binder.BindsExtracted) {row : Row} {inputs : BindInputs} :
    (binder.bind row inputs).toOption =
        (binder.bind row { inputs with extractedJson := none }).toOption ↔
      (binder.bind row { inputs with extractedJson := none }).toOption = none ∨
        ∀ bytes, inputs.extractedJson = some bytes → binder.LeavesOut bytes := by
  constructor
  · intro h
    rw [or_iff_not_imp_left]
    intro hsome bytes hbytes column hcolumn hjson
    obtain ⟨values, hwithout⟩ := Option.ne_none_iff_exists'.1 hsome
    rw [hwithout] at h
    rw [toOption_eq_some] at h hwithout
    obtain ⟨index, hindex⟩ := mem_iff_getElem?.1 hcolumn
    have hkey := hbinds.isKey_eq_false column hcolumn hjson
    obtain ⟨n, hn⟩ := mem_iff_getElem?.1 (hbinds.column_mem_slots index column hindex hjson)
    have hmem : (BindSlot.column index, n) ∈ binder.statement.slots.zipIdx := by
      rw [mem_zipIdx_iff_getElem?]
      exact hn
    have hslot := eq_of_mapM_eq_ok h hwithout _ hmem
    have hunset : binder.bindIndexed row inputs n index = .ok .unset := by
      refine hslot.trans (bindIndexed_eq_ok.2 ⟨column, hindex, ?_⟩)
      exact bindColumn_extractJson_none hjson hkey row rfl
    obtain ⟨column', hcolumn', hbound⟩ := bindIndexed_eq_ok.1 hunset
    rw [hindex] at hcolumn'
    cases hcolumn'
    exact (bindColumn_extractJson_some hjson hkey row hbytes).1 hbound
  · rintro (hnone | hleaves)
    · rw [hnone]
      exact toOption_bind_eq_none hbinds hnone
    · refine toOption_bind_congr ?_ rfl rfl
      intro column hcolumn
      by_cases hjson : column.source.isExtractJson = true
      · have hkey := hbinds.isKey_eq_false column hcolumn hjson
        have hwithout : binder.bindColumn column row { inputs with extractedJson := none } =
            .ok .unset := bindColumn_extractJson_none hjson hkey row rfl
        rw [hwithout]
        cases hextracted : inputs.extractedJson with
        | none => rw [bindColumn_extractJson_none hjson hkey row hextracted]
        | some bytes =>
          rw [(bindColumn_extractJson_some hjson hkey row hextracted).2
            (hleaves bytes hextracted column hcolumn hjson)]
      · rw [bindColumn_without (by simpa using hjson) row inputs none]

end Binder

end Cdm
