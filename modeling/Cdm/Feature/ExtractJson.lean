import Cdm.Feature.Facts
import Cdm.Feature.Literal

/-!
# Extract JSON

One property of the JSON document in an origin column becomes a target column.  A null or blank
document, and a path that addresses nothing, extract nothing; a JSON `null` extracts a null cell.
-/

namespace Cdm

/-- How a value inside the document is addressed. -/
inductive JsonPath
  | field (name : String)
  | pointer (text : String)
  deriving DecidableEq, Repr

namespace JsonPath

/-- A leading `/` means a pointer; anything else is a property name. -/
def parse (text : String) : JsonPath :=
  if text.toList.head? = some '/' then pointer text else field text

/-- Resolves the path against a document. -/
def resolve [SerdeJson] (path : JsonPath) (document : JsonValue) : Option JsonValue :=
  match path with
  | field name => document.get name
  | pointer text => SerdeJson.pointer document text

end JsonPath

/-- The extract-JSON feature's configuration. -/
structure ExtractJson where
  originColumn : String
  path : JsonPath
  targetColumn : String
  overwrite : Bool

/-- The resolved feature. -/
structure ExtractJsonPlan where
  /-- The position of the document column in the origin projection. -/
  originIndex : ℕ
  path : JsonPath
  targetColumn : String
  targetType : CqlTypeInfo
  overwrite : Bool

namespace ExtractJson

variable (config : ExtractJson)

/-- Whether both the origin column and a target column are configured. -/
def isEnabled : Bool := !config.originColumn.isEmpty && !config.targetColumn.isEmpty

def missing (column : String) (table : TableRef) : CdmError :=
  CdmError.withColumn
    ⟨.schemaMismatch, s!"extract-JSON column `{column}` is not on table {table}", {}⟩ column

/-- Resolves the column positions and the target type. -/
def resolve (schema : FeatureSchema) : Except CdmError ExtractJsonPlan :=
  match schema.origin.indexOf config.originColumn with
  | none => .error (missing config.originColumn schema.origin.table)
  | some originIndex =>
    match schema.target.column config.targetColumn with
    | none => .error (missing config.targetColumn schema.target.table)
    | some target =>
      .ok {
        originIndex
        path := config.path
        targetColumn := config.targetColumn
        targetType := target.cqlType
        overwrite := config.overwrite }

variable {config}

/-- The document column is one of the columns of the row. -/
theorem originIndex_lt {schema : FeatureSchema} {plan : ExtractJsonPlan}
    (h : config.resolve schema = .ok plan) : plan.originIndex < schema.origin.columns.length := by
  unfold resolve at h
  split at h
  · cases h
  · rename_i index hindex
    split at h
    · cases h
    · cases h
      exact (List.findIdx?_eq_some_iff_getElem.1 hindex).1

end ExtractJson

namespace ExtractJsonPlan

variable [LiteralParsers] [SerdeJson] (plan : ExtractJsonPlan)

def notUtf8 : CdmError :=
  CdmError.withColumn
    ⟨.typeConversion, "extract-JSON origin column is not valid UTF-8 text", {}⟩ plan.targetColumn

def notADocument (e : JsonError) : CdmError :=
  CdmError.withColumn
    ⟨.typeConversion, s!"extract-JSON origin column does not contain a JSON document: {e.category} " ++
      s!"at line {e.line}, column {e.column}", {}⟩ plan.targetColumn

/-- The property of a parsed document. -/
def extractProperty (document : JsonValue) : Except CdmError (Option RawCell) :=
  match plan.path.resolve document with
  | none => .ok none
  | some value => (value.encode plan.targetType).map some

/-- Extracts the mapped property from one document cell: `none` when there is nothing to write. -/
def extract : RawCell → Except CdmError (Option RawCell)
  | none => .ok none
  | some bytes =>
    match String.fromUTF8? ⟨bytes.toArray⟩ with
    | none => .error (notUtf8 plan)
    | some text =>
      if Text.trim text.toList = [] then .ok none
      else
        match SerdeJson.fromStr text with
        | .error e => .error (notADocument plan e)
        | .ok document => plan.extractProperty document

/-- Extracts from a record, tagging a failure with the row's primary key. -/
def extractRecord (record : Record) : Except CdmError (Option RawCell) := do
  let cell ← record.originCell plan.originIndex
  (plan.extract cell).mapError fun e => e.withPrimaryKey record.key

end ExtractJsonPlan

end Cdm
