import Cdm.Feature.Facts
import Cdm.Codec.Plan

/-!
# Explode map

One origin map column becomes one target row for each of its entries, in wire order; the two halves
of an entry are converted to the types of the two target columns.
-/

namespace Cdm

/-- The explode-map feature's configuration: the origin map column, and the target columns of the
key and of the value. -/
structure ExplodeMap where
  origin : String
  key : String
  value : String
  deriving DecidableEq, Repr

/-- The resolved feature. -/
structure ExplodePlan where
  /-- The position of the map column in the origin projection. -/
  originIndex : ℕ
  keyPlan : ConversionPlan
  valuePlan : ConversionPlan
  keyColumn : String
  valueColumn : String
  keyIsKey : Bool
  valueIsKey : Bool

namespace ExplodeMap

variable (config : ExplodeMap)

/-- Whether all three column names are configured. -/
def isEnabled : Bool := !config.origin.isEmpty && !config.key.isEmpty && !config.value.isEmpty

def missing (column : String) (table : TableRef) : CdmError :=
  CdmError.withColumn
    ⟨.schemaMismatch, s!"explode-map column `{column}` is not on table {table}", {}⟩ column

/-- The named column of a table. -/
def columnOf (facts : TableFacts) (name : String) : Except CdmError ColumnFacts :=
  match facts.column name with
  | some column => .ok column
  | none => .error (missing name facts.table)

theorem columnOf_eq_ok {facts : TableFacts} {name : String} {column : ColumnFacts}
    (h : columnOf facts name = .ok column) : facts.column name = some column := by
  unfold columnOf at h
  split at h
  · rename_i found hfound
    cases h
    exact hfound
  · cases h

/-- Resolves the origin column's position and the two element conversions. -/
def resolve (schema : FeatureSchema) (planner : Planner) : Except CdmError ExplodePlan := do
  let origin ← columnOf schema.origin config.origin
  match origin.cqlType with
  | .map key value _ =>
    match schema.origin.indexOf config.origin with
    | none => .error (missing config.origin schema.origin.table)
    | some originIndex => do
      let keyColumn ← columnOf schema.target config.key
      let valueColumn ← columnOf schema.target config.value
      return {
        originIndex
        keyPlan := planner.planTypes key keyColumn.cqlType
        valuePlan := planner.planTypes value valueColumn.cqlType
        keyColumn := config.key
        valueColumn := config.value
        keyIsKey := keyColumn.key
        valueIsKey := valueColumn.key }
  | _ => .error (CdmError.withColumn ⟨.schemaMismatch,
      s!"explode-map origin column `{config.origin}` is {origin.cqlType}, not a map", {}⟩
      config.origin)

end ExplodeMap

namespace ExplodePlan

variable (plan : ExplodePlan)

/-- One entry, converted to the target column types. -/
def explodeEntry (entry : RawCell × RawCell) : Except CdmError ExplodedEntry := do
  let key ← plan.keyPlan.apply entry.1
  let value ← plan.valuePlan.apply entry.2
  return ⟨key, value⟩

/-- Explodes one serialized map cell.  A null or empty map yields no entries. -/
def explode : RawCell → Except CdmError (List ExplodedEntry)
  | none => .ok []
  | some bytes => do
    let entries ← FeatureWire.mapEntries bytes
    entries.mapM plan.explodeEntry

/-- Explodes the map column of an origin row. -/
def explodeRecord (record : Record) : Except CdmError (List ExplodedEntry) := do
  let cell ← record.originCell plan.originIndex
  plan.explode cell

variable {plan}

/-- The exploded column is the named one, and it is a map. -/
theorem isMap_of_resolve {config : ExplodeMap} {schema : FeatureSchema} {planner : Planner}
    (h : config.resolve schema planner = .ok plan) :
    ∃ column key value frozen, schema.origin.columns[plan.originIndex]? = some column ∧
      column.cqlType = .map key value frozen := by
  obtain ⟨origin, horigin, h⟩ := Fallible.bind_eq_ok.1 h
  split at h
  · rename_i key value frozen htype
    split at h
    · cases h
    · rename_i index hindex
      obtain ⟨keyColumn, -, h⟩ := Fallible.bind_eq_ok.1 h
      obtain ⟨valueColumn, -, h⟩ := Fallible.bind_eq_ok.1 h
      cases h
      refine ⟨origin, key, value, frozen, ?_, htype⟩
      show schema.origin.columns[index]? = some origin
      rw [TableFacts.getElem?_indexOf hindex]
      exact ExplodeMap.columnOf_eq_ok horigin
  · cases h

end ExplodePlan

end Cdm
