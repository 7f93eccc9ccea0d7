import Cdm.Cql.Schema

/-!
# Which origin column feeds which target column

A `ColumnMapping` answers, once at startup, what the origin `SELECT` projects, where the value of
each target column comes from, and whether every component of the target primary key can be derived.
It can only be obtained from `ColumnMapping.resolve`, so what `resolve` checks is a field of the
structure.
-/

namespace Cdm

/-- Where one target column's value comes from. -/
inductive TargetSource
  /-- The origin column at this position in the origin projection. -/
  | origin (index : ℕ)
  /-- A constant column, inlined into the statement as the CQL literal it carries. -/
  | constant (literal : String)
  /-- The key of an exploded map entry. -/
  | explodeKey
  /-- The value of an exploded map entry. -/
  | explodeValue
  /-- A property extracted from the JSON document in the origin column at this position. -/
  | extractJson (index : ℕ)
  /-- Nothing on the origin supplies this column. -/
  | absent
  deriving DecidableEq, Repr

namespace TargetSource

def isConstant : TargetSource → Bool
  | constant _ => true
  | _ => false

def isExtractJson : TargetSource → Bool
  | extractJson _ => true
  | _ => false

/-- The origin positions a source reads. -/
def originIndex : TargetSource → Option ℕ
  | origin index | extractJson index => some index
  | _ => none

end TargetSource

/-- The configuration a mapping is resolved from. -/
structure MappingOptions where
  /-- Entries written `origin_name:target_name`. -/
  rename : List String := []
  skip : List String := []
  /-- Constant columns as target column and CQL literal. -/
  constants : List (String × String) := []
  /-- The explode map as origin map column, target key column and target value column. -/
  explodeMap : Option (String × String × String) := none
  /-- Extract-JSON as origin document column and target column. -/
  extractJson : Option (String × String) := none

/-- Where the named target column takes its value from. -/
def sourceNamed (columns : List ColumnMeta) (sources : List TargetSource) (name : String) :
    Option TargetSource :=
  (columns.findIdx? (·.name = name)).bind fun index => sources[index]?

/-- Whether a source can supply a component of the target primary key. -/
def suppliesKey : Option TargetSource → Bool
  | none | some .absent => false
  | _ => true

/-- The resolved origin-to-target correspondence. -/
structure ColumnMapping where
  /-- The origin columns the run reads, in projection order. -/
  originColumns : List ColumnMeta
  /-- One source for each target column. -/
  sources : List TargetSource
  originTable : TableSchema
  targetTable : TableSchema
  length_sources : sources.length = targetTable.columns.length
  originIndex_lt : ∀ source ∈ sources, ∀ index ∈ source.originIndex, index < originColumns.length
  key_derivable : ∀ column ∈ targetTable.primaryKey,
    suppliesKey (sourceNamed targetTable.columns sources column.name) = true

namespace ColumnMapping

/-! ### Resolving -/

/-- The skipped columns, in their internal form. -/
def skippedNames (skip : List String) : List String :=
  (skip.map fun name => Identifier.unformat (String.ofList (Text.trim name.toList))).filter
    (· ≠ "")

/-- A problem with one of the names to skip: a key column, or no column at all. -/
def checkSkipped (table : TableSchema) (name : String) : Except CdmError Unit :=
  let error (message : String) : CdmError :=
    (((⟨.config, message, {}⟩ : CdmError).withSide .origin).withTable table.tableRef).withColumn name
  match table.column name with
  | some column =>
    if column.kind.isKey then
      .error (error (s!"schema.origin.column.skip names `{name}`, which is a primary-key " ++
        s!"column of {table.quotedName}: a row cannot be identified without it (SCH-004)."))
    else .ok ()
  | none =>
    .error (error (s!"schema.origin.column.skip names `{name}`, which is not a column of " ++
      s!"{table.quotedName} (SCH-004)."))

/-- The origin columns, minus the skipped ones. -/
def projectOrigin (table : TableSchema) (skip : List String) : Except CdmError (List ColumnMeta) :=
  do
    let skipped := skippedNames skip
    skipped.forM (checkSkipped table)
    return table.columns.filter fun column => column.name ∉ skipped

def danglingRename (entry column : String) (side : Side) (target : TableSchema) : CdmError :=
  (((⟨.config,
    s!"schema.origin.column.rename entry `{entry}` names `{column}`, which is not a " ++
      s!"column of the {side.asStr} table (SCH-003).", {}⟩ : CdmError).withSide side).withTable
    target.tableRef).withColumn column

/-- One explicit pair, validated against both sides; `none` for a blank entry. -/
def parseRename (origin : List ColumnMeta) (target : TableSchema) (entry : String) :
    Except CdmError (Option (String × String)) :=
  let chars := Text.trim entry.toList
  let entry := String.ofList chars
  if chars.isEmpty then .ok none
  else
    let left := Text.trim (chars.takeWhile (· ≠ ':'))
    let right := Text.trim (chars.dropWhile (· ≠ ':')).tail
    if left.isEmpty || right.isEmpty then
      .error ⟨.config,
        s!"schema.origin.column.rename entry `{entry}` is mis-configured: it must " ++
          "be written `origin_name:target_name` with both sides present (SCH-003).", {}⟩
    else
      let originName := Identifier.unformat (String.ofList left)
      let targetName := Identifier.unformat (String.ofList right)
      if !origin.any (·.name = originName) then
        .error (danglingRename entry originName .origin target)
      else if (target.column targetName).isNone then
        .error (danglingRename entry targetName .target target)
      else .ok (some (originName, targetName))

/-- The explicit `origin:target` pairs. -/
def parseRenames (rename : List String) (origin : List ColumnMeta) (target : TableSchema) :
    Except CdmError (List (String × String)) := do
  let pairs ← rename.mapM (parseRename origin target)
  return pairs.reduceOption

/-- The position of the named column in the origin projection. -/
def indexNamed (origin : List ColumnMeta) (name : String) : Option ℕ :=
  origin.findIdx? (·.name = name)

/-- The named origin column as a source of the given form, or else another source. -/
def lookupOr (origin : List ColumnMeta) (build : ℕ → TargetSource) (name : String)
    (otherwise : TargetSource) : TargetSource :=
  ((indexNamed origin name).map build).getD otherwise

/-- The renamed column, or else the identically named one. -/
def mappedSource (origin : List ColumnMeta) (renames : List (String × String))
    (column : ColumnMeta) : TargetSource :=
  let identical := lookupOr origin .origin column.name .absent
  match renames.find? fun pair => pair.2 = column.name with
  | some (originName, _) => lookupOr origin .origin originName identical
  | none => identical

/-- The source of one target column: explode-map key, explode-map value, extracted JSON, constant,
and last the mapped origin column. -/
def sourceFor (origin : List ColumnMeta) (renames : List (String × String))
    (options : MappingOptions) (column : ColumnMeta) : TargetSource :=
  let isNamed (name : String) : Bool := Identifier.unformat name = column.name
  if options.explodeMap.any fun names => isNamed names.2.1 then .explodeKey
  else if options.explodeMap.any fun names => isNamed names.2.2 then .explodeValue
  else
    match options.extractJson.filter fun names => isNamed names.2 with
    | some (document, _) => lookupOr origin .extractJson (Identifier.unformat document) .absent
    | none =>
      match options.constants.find? fun pair => isNamed pair.1 with
      | some (_, literal) => .constant literal
      | none => mappedSource origin renames column

/-- A source that reads the origin reads one of its first `n` columns. -/
def ReadsBelow (n : ℕ) (source : TargetSource) : Prop := ∀ index ∈ source.originIndex, index < n

theorem readsBelow_lookupOr {origin : List ColumnMeta} {build : ℕ → TargetSource} {name : String}
    {otherwise : TargetSource} (hbuild : ∀ i, (build i).originIndex = some i)
    (h : ReadsBelow origin.length otherwise) :
    ReadsBelow origin.length (lookupOr origin build name otherwise) := by
  cases hn : indexNamed origin name with
  | none => simpa [lookupOr, hn] using h
  | some i =>
    have hi : i < origin.length := (List.findIdx?_eq_some_iff_getElem.1 hn).1
    simpa [ReadsBelow, lookupOr, hn, hbuild] using hi

theorem readsBelow_absent (n : ℕ) : ReadsBelow n .absent := by
  simp [ReadsBelow, TargetSource.originIndex]

theorem readsBelow_mappedSource (origin : List ColumnMeta) (renames : List (String × String))
    (column : ColumnMeta) : ReadsBelow origin.length (mappedSource origin renames column) := by
  have hid : ReadsBelow origin.length (lookupOr origin .origin column.name .absent) :=
    readsBelow_lookupOr (fun _ => rfl) (readsBelow_absent _)
  unfold mappedSource
  split
  · exact readsBelow_lookupOr (fun _ => rfl) hid
  · exact hid

theorem readsBelow_sourceFor (origin : List ColumnMeta) (renames : List (String × String))
    (options : MappingOptions) (column : ColumnMeta) :
    ReadsBelow origin.length (sourceFor origin renames options column) := by
  unfold sourceFor
  dsimp only
  split_ifs
  · simp [ReadsBelow, TargetSource.originIndex]
  · simp [ReadsBelow, TargetSource.originIndex]
  · split
    · exact readsBelow_lookupOr (fun _ => rfl) (readsBelow_absent _)
    · split
      · simp [ReadsBelow, TargetSource.originIndex]
      · exact readsBelow_mappedSource origin renames column

/-- A target primary-key component that nothing supplies. -/
def underivable (table : TableSchema) (column : ColumnMeta) : CdmError :=
  (((⟨.schemaMismatch,
    s!"target primary-key column `{column.name}` of {table.quotedName} has no source: " ++
      "no origin column maps to it, no constant column supplies it and the explode map does not " ++
      "produce it. Map an origin column with schema.origin.column.rename, or supply it with " ++
      "feature.constant_columns (SCH-006).", {}⟩ : CdmError).withSide .target).withTable
    table.tableRef).withColumn column.name

/-- Resolves the mapping, reporting the first problem that makes the run unsafe. -/
def resolve (originTable targetTable : TableSchema) (options : MappingOptions) :
    Except CdmError ColumnMapping := do
  let origin ← projectOrigin originTable options.skip
  let renames ← parseRenames options.rename origin targetTable
  let sources := targetTable.columns.map (sourceFor origin renames options)
  match h : targetTable.primaryKey.find? fun column =>
      !suppliesKey (sourceNamed targetTable.columns sources column.name) with
  | some column => .error (underivable targetTable column)
  | none =>
    .ok {
      originColumns := origin
      sources := sources
      originTable := originTable
      targetTable := targetTable
      length_sources := by simp [sources]
      originIndex_lt := by
        intro source hs
        obtain ⟨column, -, rfl⟩ := List.mem_map.1 hs
        exact readsBelow_sourceFor origin renames options column
      key_derivable := by simpa using h }

/-! ### Reading the mapping -/

variable (mapping : ColumnMapping)

/-- The target columns, in schema order. -/
def targetColumns : List ColumnMeta := mapping.targetTable.columns

/-- Where the target column at `index` takes its value from. -/
def source (index : ℕ) : Option TargetSource := mapping.sources[index]?

/-- Where the named target column takes its value from. -/
def sourceOf (name : String) : Option TargetSource :=
  sourceNamed mapping.targetColumns mapping.sources name

/-- Whether the target is a counter table. -/
def targetIsCounter : Bool := mapping.targetTable.isCounterTable

end ColumnMapping

end Cdm
