import Cdm.Feature.Filter
import Cdm.Jobs.Build

/-!
# Where the features read

The mapping, the TTL/writetime plan, the explode and extract-JSON plans and the column-value filter
each compute positions of their own.  All of them are positions in one row: the columns the run
reads, and behind them the `TTL(…)` and `WRITETIME(…)` expressions.
-/

namespace Cdm

open Fallible List

/-- What one cell of a scanned row is the value of. -/
inductive Projected
  | column (name : String)
  | ttl (name : String)
  | writetime (name : String)
  deriving DecidableEq, Repr

/-- The expression as the projection writes it. -/
def Projected.text : Projected → String
  | column name => Identifier.format name
  | ttl name => Identifier.format s!"TTL({name})"
  | writetime name => Identifier.format s!"WRITETIME({name})"

/-- The origin column that a target column is mapped from: the renamed one, or else the one of the
same name. -/
def mappedName (renames : List (String × String)) (column : ColumnMeta) : String :=
  ((renames.find? fun pair => pair.2 = column.name).map Prod.fst).getD column.name

namespace Build

variable (tables : ResolvedTables) (config : RunConfig)

/-- The `TTL(…)` and `WRITETIME(…)` expressions a run selects. -/
def expressions : List Projected :=
  if tables.mapping.targetIsCounter || tables.features.origin.isCounterTable then []
  else (config.writetimeTtl.ttlColumns tables.features.origin).map .ttl ++
    (config.writetimeTtl.writetimeColumns tables.features.origin).map .writetime

/-- What the cells of a scanned row are the values of. -/
def projected : List Projected :=
  tables.mapping.originColumns.map (fun column => .column column.name) ++ expressions tables config

/-- The column-value filter of a run. -/
def columnFilter (name value : Option String) : ColumnValueFilter :=
  .load name value tables.features.origin

end Build

/-- Every position that a component holds is that of the cell it is meant for, in a row that has one
cell for each projected expression. -/
structure CellsRead (tables : ResolvedTables) (config : RunConfig) (renames : List (String × String))
    (timestamps : WritetimeTtlPlan) (exploded : Option ExplodePlan)
    (extracted : Option ExtractJsonPlan) (filter : ColumnValueFilter) (cell : Projected → RawCell)
    (row : Row) : Prop where
  ttl : ∀ (n : ℕ) (selected : SelectedColumn), timestamps.ttlColumns[n]? = some selected → ∃ name,
    (config.writetimeTtl.ttlColumns tables.features.origin)[n]? = some name ∧
      row.cells[selected.index]? = some (cell (.ttl name))
  writetime : ∀ (n : ℕ) (selected : SelectedColumn),
    timestamps.writetimeColumns[n]? = some selected → ∃ name,
      (config.writetimeTtl.writetimeColumns tables.features.origin)[n]? = some name ∧
      row.cells[selected.index]? = some (cell (.writetime name))
  explode : ∀ plan ∈ exploded,
    row.cells[plan.originIndex]? = some (cell (.column config.explodeMap.origin))
  extractJson : ∀ plan ∈ extracted,
    row.cells[plan.originIndex]? = some (cell (.column config.extractJson.originColumn))
  filter : ∀ index ∈ filter.index, row.cells[index]? = some (cell (.column filter.column))
  mapped : ∀ (n : ℕ) (column : ColumnMeta) (index : ℕ), tables.mapping.targetColumns[n]? = some column →
    tables.mapping.source n = some (.origin index) →
      row.cells[index]? = some (cell (.column (mappedName renames column)))
  /-- The mapping reads the name of the document column as CQL. -/
  document : ∀ (n index : ℕ), tables.mapping.source n = some (.extractJson index) →
    row.cells[index]? =
      some (cell (.column (Identifier.unformat config.extractJson.originColumn)))
  /-- The expressions stand behind the columns, one after the other. -/
  distinct : (timestamps.ttlColumns ++ timestamps.writetimeColumns).map SelectedColumn.index =
    List.range' tables.mapping.originColumns.length (Build.expressions tables config).length

/-! ### The mapping -/

namespace ColumnMapping

variable {origin : List ColumnMeta} {renames : List (String × String)} {options : MappingOptions}
  {column : ColumnMeta} {index : ℕ}

/-- A source that is looked up is that of the named column, or the other one. -/
theorem lookupOr_cases (origin : List ColumnMeta) (build : ℕ → TargetSource) (name : String)
    (otherwise : TargetSource) :
    (∃ index, indexNamed origin name = some index ∧
      lookupOr origin build name otherwise = build index) ∨
    indexNamed origin name = none ∧ lookupOr origin build name otherwise = otherwise := by
  rw [lookupOr]
  cases hindex : indexNamed origin name with
  | none => exact .inr ⟨rfl, rfl⟩
  | some index => exact .inl ⟨index, rfl, rfl⟩

theorem lookupOr_absent {build : ℕ → TargetSource} (hbuild : Function.Injective build)
    (habsent : build index ≠ .absent) {name : String}
    (h : lookupOr origin build name .absent = build index) : indexNamed origin name = some index := by
  rcases lookupOr_cases origin build name .absent with ⟨found, hfound, heq⟩ | ⟨-, heq⟩
  · rw [hfound, hbuild (heq.symm.trans h)]
  · exact absurd (h.symm.trans heq) habsent

/-- What is read for a mapped column: the renamed origin column, or the one of the same name. -/
theorem mappedSource_origin
    (hrenames : ∀ pair ∈ renames, ∃ column ∈ origin, column.name = pair.1)
    (h : mappedSource origin renames column = .origin index) :
    indexNamed origin (mappedName renames column) = some index := by
  rw [mappedSource] at h
  rw [mappedName]
  split at h
  · rename_i name other hfind
    rw [hfind, Option.map_some, Option.getD_some]
    rcases lookupOr_cases origin .origin name (lookupOr origin .origin column.name .absent) with
      ⟨found, hfound, heq⟩ | ⟨hnone, -⟩
    · rw [hfound, TargetSource.origin.inj (heq.symm.trans h)]
    · -- the renamed column exists
      obtain ⟨declared, hmem, hname⟩ := hrenames _ (mem_of_find?_eq_some hfind)
      have hne := findIdx?_eq_none_iff.1 hnone declared hmem
      simp [hname] at hne
  · rename_i hfind
    rw [hfind]
    exact lookupOr_absent (fun _ _ => TargetSource.origin.inj) TargetSource.noConfusion h

/-- A mapped column reads an origin column, or nothing. -/
theorem mappedSource_cases (origin : List ColumnMeta) (renames : List (String × String))
    (column : ColumnMeta) :
    (∃ index, mappedSource origin renames column = .origin index) ∨
      mappedSource origin renames column = .absent := by
  have hidentical : (∃ index, lookupOr origin .origin column.name .absent = .origin index) ∨
      lookupOr origin .origin column.name .absent = .absent := by
    rcases lookupOr_cases origin .origin column.name .absent with ⟨index, -, heq⟩ | ⟨-, heq⟩
    · exact .inl ⟨index, heq⟩
    · exact .inr heq
  rw [mappedSource]
  split
  · rename_i name _ _
    rcases lookupOr_cases origin .origin name (lookupOr origin .origin column.name .absent) with
      ⟨index, -, heq⟩ | ⟨-, heq⟩
    · exact .inl ⟨index, heq⟩
    · rw [heq]
      exact hidentical
  · exact hidentical

/-- A target column that reads an origin column is a mapped one. -/
theorem sourceFor_origin (h : sourceFor origin renames options column = .origin index) :
    mappedSource origin renames column = .origin index := by
  unfold sourceFor at h
  dsimp only at h
  split_ifs at h
  split at h
  · rename_i document _ _
    rcases lookupOr_cases origin .extractJson (Identifier.unformat document) .absent with
      ⟨found, -, heq⟩ | ⟨-, heq⟩
    · cases heq.symm.trans h
    · cases heq.symm.trans h
  · split at h
    · cases h
    · exact h

/-- The position of the document column. -/
theorem sourceFor_extractJson (h : sourceFor origin renames options column = .extractJson index) :
    ∃ names, options.extractJson = some names ∧
      indexNamed origin (Identifier.unformat names.1) = some index := by
  unfold sourceFor at h
  dsimp only at h
  split_ifs at h
  split at h
  · rename_i document extracted hfilter
    exact ⟨(document, extracted), (Option.filter_eq_some_iff.1 hfilter).1,
      lookupOr_absent (fun _ _ => TargetSource.extractJson.inj) TargetSource.noConfusion h⟩
  · split at h
    · cases h
    · -- a mapped column reads no document
      rcases mappedSource_cases origin renames column with ⟨found, heq⟩ | heq
      · cases heq.symm.trans h
      · cases heq.symm.trans h

/-- Only columns that the run reads are renamed. -/
theorem mem_origin_of_parseRename {target : TableSchema} {entry : String} {pair : String × String}
    (h : parseRename origin target entry = .ok (some pair)) :
    ∃ column ∈ origin, column.name = pair.1 := by
  unfold parseRename at h
  dsimp only at h
  split_ifs at h with _ _ hmissing
  · exact absurd (Except.ok.inj h) (Option.some_ne_none _).symm
  · have hpair := Option.some.inj (Except.ok.inj h)
    have hname := congrArg Prod.fst hpair
    dsimp only at hname
    rw [Bool.not_eq_true, Bool.not_eq_false', any_eq_true] at hmissing
    obtain ⟨column, hmem, hcolumn⟩ := hmissing
    exact ⟨column, hmem, (of_decide_eq_true hcolumn).trans hname⟩

theorem mem_origin_of_parseRenames {target : TableSchema} {rename : List String}
    (h : parseRenames rename origin target = .ok renames) {pair : String × String}
    (hpair : pair ∈ renames) : ∃ column ∈ origin, column.name = pair.1 := by
  obtain ⟨pairs, hpairs, h⟩ := bind_eq_ok.1 h
  cases h
  rw [reduceOption_mem_iff, mem_iff_getElem?] at hpair
  obtain ⟨n, hn⟩ := hpair
  obtain ⟨entry, -, hentry⟩ := mapM_getElem? hpairs n hn
  exact mem_origin_of_parseRename hentry

/-- What a resolved mapping consists of. -/
theorem resolve_eq_ok {originTable targetTable : TableSchema} {mapping : ColumnMapping}
    (h : resolve originTable targetTable options = .ok mapping) :
    ∃ renames, parseRenames options.rename mapping.originColumns targetTable = .ok renames ∧
      mapping.targetTable = targetTable ∧
      mapping.sources = targetTable.columns.map (sourceFor mapping.originColumns renames options) := by
  obtain ⟨origin, -, h⟩ := bind_eq_ok.1 h
  obtain ⟨renames, hrenames, h⟩ := bind_eq_ok.1 h
  dsimp only at h
  split at h
  · cases h
  · cases h
    exact ⟨renames, hrenames, rfl, rfl⟩

end ColumnMapping

/-! ### Columns -/

namespace Build

variable {tables : ResolvedTables} {config : RunConfig} {timestamps : WritetimeTtlPlan}

theorem projected_column {index : ℕ} {column : ColumnMeta}
    (h : tables.mapping.originColumns[index]? = some column) :
    (projected tables config)[index]? = some (.column column.name) := by
  obtain ⟨hlt, -⟩ := List.getElem?_eq_some_iff.1 h
  rw [projected, getElem?_append_left (by rw [length_map]; exact hlt), getElem?_map, h]
  rfl

/-- The position of a column that the mapping looks up. -/
theorem projected_indexNamed {name : String} {index : ℕ}
    (h : ColumnMapping.indexNamed tables.mapping.originColumns name = some index) :
    (projected tables config)[index]? = some (.column name) := by
  obtain ⟨hlt, hname, -⟩ := findIdx?_eq_some_iff_getElem.1 h
  rw [projected_column (getElem?_eq_getElem hlt), of_decide_eq_true hname]

/-- The position of an expression. -/
theorem projected_expression {index : ℕ} :
    (projected tables config)[tables.mapping.originColumns.length + index]? =
      (expressions tables config)[index]? := by
  rw [projected, getElem?_append_right (by rw [length_map]; omega), length_map,
    Nat.add_sub_cancel_left]

section

variable [AlphanumericTable] {origin target : TableSchema}
  (htables : ResolvedTables.introspect origin target config = .ok tables)

include htables

/-- The position of a column that a feature looks up. -/
theorem projected_indexOf {name : String} {index : ℕ}
    (h : tables.features.origin.indexOf name = some index) :
    (projected tables config)[index]? = some (.column name) := by
  obtain ⟨hlt, hname, -⟩ := findIdx?_eq_some_iff_getElem.1 h
  obtain ⟨declared, hdeclared, hsame, -⟩ := TableFacts.getElem?_ofColumns
    (ResolvedTables.facts_of_introspect htables) (getElem?_eq_getElem hlt)
  rw [projected_column hdeclared, ← hsame, of_decide_eq_true hname]

theorem length_facts :
    tables.features.origin.columns.length = tables.mapping.originColumns.length :=
  TableFacts.length_columns (ResolvedTables.facts_of_introspect htables)

/-- Where the features read. -/
theorem projected_explode {planner : Planner} {exploded : Option ExplodePlan}
    (h : explode tables config planner = .ok exploded) {plan : ExplodePlan} (hplan : plan ∈ exploded) :
    (projected tables config)[plan.originIndex]? = some (.column config.explodeMap.origin) := by
  rw [explode] at h
  split_ifs at h
  · obtain ⟨found, hfound, heq⟩ := map_eq_ok.1 h
    subst heq
    cases Option.some.inj hplan
    obtain ⟨column, -, hfound⟩ := bind_eq_ok.1 hfound
    split at hfound
    · split at hfound
      · cases hfound
      · rename_i index hindex
        obtain ⟨keyColumn, -, hfound⟩ := bind_eq_ok.1 hfound
        obtain ⟨valueColumn, -, hfound⟩ := bind_eq_ok.1 hfound
        cases hfound
        exact projected_indexOf htables hindex
    · cases hfound
  · cases h
    cases hplan

theorem projected_extractJson {extracted : Option ExtractJsonPlan}
    (h : extractJson tables config = .ok extracted) {plan : ExtractJsonPlan}
    (hplan : plan ∈ extracted) :
    (projected tables config)[plan.originIndex]? = some (.column config.extractJson.originColumn) := by
  rw [extractJson] at h
  split_ifs at h
  · obtain ⟨found, hfound, heq⟩ := map_eq_ok.1 h
    subst heq
    cases Option.some.inj hplan
    rw [ExtractJson.resolve] at hfound
    split at hfound
    · cases hfound
    · rename_i index hindex
      split at hfound
      · cases hfound
      · cases hfound
        exact projected_indexOf htables hindex
  · cases h
    cases hplan

/-- What the mapping of a run consists of. -/
theorem mapping_eq_ok : ∃ renames,
    ColumnMapping.parseRenames config.rename tables.mapping.originColumns target = .ok renames ∧
    ∀ (n : ℕ) (column : ColumnMeta), tables.mapping.targetColumns[n]? = some column →
      tables.mapping.source n = some (ColumnMapping.sourceFor tables.mapping.originColumns renames
        config.mappingOptions column) := by
  obtain ⟨targetFacts, -, h⟩ := bind_eq_ok.1 htables
  obtain ⟨mapping, hmapping, h⟩ := bind_eq_ok.1 h
  obtain ⟨originFacts, -, h⟩ := bind_eq_ok.1 h
  cases h
  obtain ⟨renames, hrenames, htarget, hsources⟩ := ColumnMapping.resolve_eq_ok hmapping
  refine ⟨renames, hrenames, fun n column hcolumn => ?_⟩
  dsimp only at hcolumn ⊢
  rw [ColumnMapping.targetColumns, htarget] at hcolumn
  rw [ColumnMapping.source, hsources, getElem?_map, hcolumn]
  rfl

end

/-! ### The expressions -/

/-- The expressions that a plan selects stand one after the other. -/
theorem select_eq_ok {facts : TableFacts} {base start : ℕ} {names : List String}
    {selected : List SelectedColumn}
    (h : (names.zipIdx start).mapM (WritetimeTtl.select facts base) = .ok selected) :
    selected.map SelectedColumn.index = List.range' (base + start) names.length := by
  have hall := mapM_eq_ok h
  clear h
  induction names generalizing start selected with
  | nil =>
    cases hall
    rfl
  | cons name names ih =>
    rw [zipIdx_cons] at hall
    obtain ⟨column, rest, hcolumn, hrest, rfl⟩ := forall₂_cons_left_iff.1 hall
    obtain ⟨scalar, -, rfl⟩ := map_eq_ok.1 hcolumn
    rw [map_cons, ih hrest, length_cons, range'_succ, Nat.add_assoc]

/-- Which expression is selected, and where it stands. -/
theorem index_of_select {facts : TableFacts} {base start n : ℕ} {names : List String}
    {columns : List SelectedColumn} {selected : SelectedColumn}
    (h : (names.zipIdx start).mapM (WritetimeTtl.select facts base) = .ok columns)
    (hselected : columns[n]? = some selected) :
    ∃ name, names[n]? = some name ∧ selected.index = base + (start + n) := by
  have hindex := congrArg (fun indices => indices[n]?) (select_eq_ok h)
  rw [getElem?_map, hselected, Option.map_some] at hindex
  obtain ⟨hlt, heq⟩ := List.getElem?_eq_some_iff.1 hindex.symm
  rw [length_range'] at hlt
  refine ⟨names[n], getElem?_eq_getElem hlt, ?_⟩
  rw [← heq, getElem_range']
  omega

/-- A run either selects no expressions, or those of the selected columns. -/
theorem writetimeTtl_cases
    (h : writetimeTtl tables config = .ok timestamps) :
    (timestamps = {} ∧ expressions tables config = []) ∨
    ∃ ttlNames writetimeNames,
      config.writetimeTtl.ttlColumns tables.features.origin = ttlNames ∧
      config.writetimeTtl.writetimeColumns tables.features.origin = writetimeNames ∧
      expressions tables config = ttlNames.map .ttl ++ writetimeNames.map .writetime ∧
      timestamps.projection = ttlNames.map (fun name => s!"TTL({name})") ++
        writetimeNames.map (fun name => s!"WRITETIME({name})") ∧
      ttlNames.zipIdx.mapM (WritetimeTtl.select tables.features.origin
        tables.features.origin.columns.length) = .ok timestamps.ttlColumns ∧
      (writetimeNames.zipIdx ttlNames.length).mapM (WritetimeTtl.select tables.features.origin
        tables.features.origin.columns.length) = .ok timestamps.writetimeColumns := by
  rw [writetimeTtl] at h
  rw [expressions]
  split_ifs at h ⊢ with hcounter
  · cases h
    exact .inl ⟨rfl, rfl⟩
  · rw [Bool.or_eq_true, not_or] at hcounter
    have horigin := Bool.eq_false_iff.2 hcounter.2
    rw [WritetimeTtl.resolve, horigin] at h
    obtain ⟨ttl, httl, h⟩ := bind_eq_ok.1 h
    obtain ⟨writetime, hwritetime, h⟩ := bind_eq_ok.1 h
    cases h
    exact .inr ⟨_, _, rfl, rfl, rfl, rfl, httl, hwritetime⟩

/-- The projection is made of the projected columns and expressions. -/
theorem entries_projection
    (h : writetimeTtl tables config = .ok timestamps) :
    (projection tables timestamps).entries = (projected tables config).map Projected.text := by
  rw [projection, OriginProjection.new, projected, map_append, map_map]
  rcases writetimeTtl_cases h with ⟨rfl, hexpressions⟩ |
    ⟨ttlNames, writetimeNames, -, -, hexpressions, hprojection, -, -⟩
  · rw [hexpressions]
    rfl
  · rw [hexpressions, hprojection, map_append, map_append, map_map, map_map,
      map_map, map_map]
    rfl

section Selected

variable (hbase : tables.features.origin.columns.length = tables.mapping.originColumns.length)
  (h : writetimeTtl tables config = .ok timestamps)

include hbase h

/-- Where the `TTL(…)` expressions stand. -/
theorem projected_ttl {n : ℕ} {selected : SelectedColumn}
    (hselected : timestamps.ttlColumns[n]? = some selected) :
    ∃ name, (config.writetimeTtl.ttlColumns tables.features.origin)[n]? = some name ∧
      (projected tables config)[selected.index]? = some (.ttl name) := by
  rcases writetimeTtl_cases h with ⟨rfl, -⟩ |
    ⟨ttlNames, writetimeNames, rfl, -, hexpressions, -, httl, -⟩
  · cases hselected
  · obtain ⟨name, hname, hindex⟩ := index_of_select httl hselected
    refine ⟨name, hname, ?_⟩
    obtain ⟨hlt, -⟩ := List.getElem?_eq_some_iff.1 hname
    rw [hindex, hbase, projected_expression, hexpressions, Nat.zero_add,
      getElem?_append_left (by rw [length_map]; exact hlt), getElem?_map, hname]
    rfl

/-- Where the `WRITETIME(…)` expressions stand. -/
theorem projected_writetime {n : ℕ} {selected : SelectedColumn}
    (hselected : timestamps.writetimeColumns[n]? = some selected) :
    ∃ name, (config.writetimeTtl.writetimeColumns tables.features.origin)[n]? = some name ∧
      (projected tables config)[selected.index]? = some (.writetime name) := by
  rcases writetimeTtl_cases h with ⟨rfl, -⟩ |
    ⟨ttlNames, writetimeNames, -, rfl, hexpressions, -, -, hwritetime⟩
  · cases hselected
  · obtain ⟨name, hname, hindex⟩ := index_of_select hwritetime hselected
    refine ⟨name, hname, ?_⟩
    rw [hindex, hbase, projected_expression, hexpressions,
      getElem?_append_right (by rw [length_map]; omega), length_map,
      Nat.add_sub_cancel_left, getElem?_map, hname]
    rfl

/-- No two of the selected expressions share a position, and none shares one with a column. -/
theorem index_selected :
    (timestamps.ttlColumns ++ timestamps.writetimeColumns).map SelectedColumn.index =
      List.range' tables.mapping.originColumns.length (expressions tables config).length := by
  rcases writetimeTtl_cases h with ⟨rfl, hexpressions⟩ |
    ⟨ttlNames, writetimeNames, -, -, hexpressions, -, httl, hwritetime⟩
  · rw [hexpressions]
    rfl
  · rw [map_append, select_eq_ok httl, select_eq_ok hwritetime, hexpressions, length_append,
      length_map, length_map, hbase, Nat.add_zero, range'_append_1]

end Selected

/-- For every run that resolves, and a row that has one cell for each entry of the projection: every
position of a component is that of the cell it is meant for. -/
theorem cells_read [AlphanumericTable] {origin target : TableSchema} {planner : Planner}
    {exploded : Option ExplodePlan} {extracted : Option ExtractJsonPlan}
    (htables : ResolvedTables.introspect origin target config = .ok tables)
    (htimestamps : writetimeTtl tables config = .ok timestamps)
    (hexploded : explode tables config planner = .ok exploded)
    (hextracted : extractJson tables config = .ok extracted) (name value : Option String)
    {cell : Projected → RawCell} {row : Row}
    (hrow : row.cells = (projected tables config).map cell) :
    (projection tables timestamps).entries = (projected tables config).map Projected.text ∧
    ∃ renames,
      ColumnMapping.parseRenames config.rename tables.mapping.originColumns target = .ok renames ∧
      CellsRead tables config renames timestamps exploded extracted (columnFilter tables name value)
        cell row := by
  obtain ⟨renames, hrenames, hsources⟩ := mapping_eq_ok htables
  have hbase := length_facts htables
  have hcell {index : ℕ} {expression : Projected}
      (h : (projected tables config)[index]? = some expression) :
      row.cells[index]? = some (cell expression) := by
    rw [hrow, getElem?_map, h]
    rfl
  refine ⟨entries_projection htimestamps, renames, hrenames, ?_⟩
  refine {
    ttl := ?_, writetime := ?_, explode := ?_, extractJson := ?_, filter := ?_, mapped := ?_
    document := ?_, distinct := index_selected hbase htimestamps }
  · intro n selected hselected
    obtain ⟨name, hname, hprojected⟩ := projected_ttl hbase htimestamps hselected
    exact ⟨name, hname, hcell hprojected⟩
  · intro n selected hselected
    obtain ⟨name, hname, hprojected⟩ := projected_writetime hbase htimestamps hselected
    exact ⟨name, hname, hcell hprojected⟩
  · exact fun plan hplan => hcell (projected_explode htables hexploded hplan)
  · exact fun plan hplan => hcell (projected_extractJson htables hextracted hplan)
  · exact fun index hindex =>
      hcell (projected_indexOf htables (ColumnValueFilter.indexOf_of_load hindex))
  · intro n column index hcolumn hsource
    rw [hsources n column hcolumn, Option.some.injEq] at hsource
    exact hcell (projected_indexNamed (ColumnMapping.mappedSource_origin
      (fun _ => ColumnMapping.mem_origin_of_parseRenames hrenames)
      (ColumnMapping.sourceFor_origin hsource)))
  · intro n index hsource
    obtain ⟨hlt, -⟩ := List.getElem?_eq_some_iff.1 hsource
    rw [tables.mapping.length_sources] at hlt
    rw [hsources n _ (getElem?_eq_getElem hlt), Option.some.injEq] at hsource
    obtain ⟨names, hnames, hindex⟩ := ColumnMapping.sourceFor_extractJson hsource
    have hname : config.extractJson.originColumn = names.1 := by
      rw [RunConfig.mappingOptions] at hnames
      dsimp only at hnames
      split_ifs at hnames
      exact congrArg Prod.fst (Option.some.inj hnames)
    rw [hname]
    exact hcell (projected_indexNamed hindex)

end Build

/-! ### A row of eight cells -/

namespace PositionSample

local instance : AlphanumericTable := AlphanumericTable.ascii

def origin : TableSchema where
  keyspace := "ks"
  table := "src"
  columns := [⟨"doc", "text", .regular, -1⟩, ⟨"id", "int", .partitionKey, 0⟩,
    ⟨"note", "text", .regular, -1⟩, ⟨"tags", "map<text, int>", .regular, -1⟩,
    ⟨"title", "text", .regular, -1⟩]
  nodup := by decide

def target : TableSchema where
  keyspace := "ks"
  table := "dst"
  columns := [⟨"amount", "int", .regular, -1⟩, ⟨"headline", "text", .regular, -1⟩,
    ⟨"id", "int", .partitionKey, 0⟩, ⟨"lang", "text", .regular, -1⟩, ⟨"tag", "text", .clustering, 0⟩]
  nodup := by decide

/-- One column is skipped, and one renamed. -/
def config : RunConfig where
  rename := ["title:headline"]
  skip := ["note"]
  explodeMap := ⟨"tags", "tag", "amount"⟩
  extractJson := ⟨"doc", .field "lang", "lang", false⟩
  writetimeTtl := ⟨true, [], true, [], false, 0, 0, 0⟩
  missingKeyPolicy := {}
  mapRemoveNullValue := false
  autocorrect := ⟨false, false, false⟩
  keysOnly := false

def planner : Planner := ⟨⟨[]⟩, false⟩

/-- The names of the projection, and where each feature reads. -/
def positions : Except CdmError (List String × List (List ℕ)) := do
  let tables ← ResolvedTables.introspect origin target config
  let timestamps ← Build.writetimeTtl tables config
  let exploded ← Build.explode tables config planner
  let extracted ← Build.extractJson tables config
  return ((Build.projection tables timestamps).entries,
    [timestamps.ttlColumns.map SelectedColumn.index,
      timestamps.writetimeColumns.map SelectedColumn.index,
      exploded.toList.map ExplodePlan.originIndex,
      extracted.toList.map ExtractJsonPlan.originIndex,
      (Build.columnFilter tables (some " title ") (some "x")).index.toList])

theorem positions_eq : positions = .ok
    (["doc", "id", "tags", "title", "TTL(doc)", "TTL(title)", "WRITETIME(doc)", "WRITETIME(title)"],
      [[4, 5], [6, 7], [2], [0], [3]]) := by decide

/-- The cells of four columns and four expressions, and what is read from them. -/
theorem cells_read_sample : ∃ tables timestamps exploded extracted,
    ResolvedTables.introspect origin target config = .ok tables ∧
    Build.writetimeTtl tables config = .ok timestamps ∧
    Build.explode tables config planner = .ok exploded ∧
    Build.extractJson tables config = .ok extracted ∧
    ((Build.projection tables timestamps).entries,
      [timestamps.ttlColumns.map SelectedColumn.index,
        timestamps.writetimeColumns.map SelectedColumn.index,
        exploded.toList.map ExplodePlan.originIndex,
        extracted.toList.map ExtractJsonPlan.originIndex,
        (Build.columnFilter tables (some " title ") (some "x")).index.toList]) =
      (["doc", "id", "tags", "title", "TTL(doc)", "TTL(title)", "WRITETIME(doc)",
        "WRITETIME(title)"], [[4, 5], [6, 7], [2], [0], [3]]) ∧
    ∀ cell : Projected → RawCell, ∃ renames,
      CellsRead tables config renames timestamps exploded extracted
        (Build.columnFilter tables (some " title ") (some "x")) cell
        ⟨(Build.projected tables config).map cell⟩ := by
  obtain ⟨tables, htables, h⟩ := bind_eq_ok.1 positions_eq
  obtain ⟨timestamps, htimestamps, h⟩ := bind_eq_ok.1 h
  obtain ⟨exploded, hexploded, h⟩ := bind_eq_ok.1 h
  obtain ⟨extracted, hextracted, h⟩ := bind_eq_ok.1 h
  refine ⟨tables, timestamps, exploded, extracted, htables, htimestamps, hexploded, hextracted,
    Except.ok.inj h, fun cell => ?_⟩
  obtain ⟨renames, -, hread⟩ := (Build.cells_read htables htimestamps hexploded hextracted
    (some " title ") (some "x") rfl).2
  exact ⟨renames, hread⟩

end PositionSample

end Cdm
