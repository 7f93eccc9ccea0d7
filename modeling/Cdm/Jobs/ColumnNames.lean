import Cdm.Cql.Spelling
import Cdm.Jobs.Positions
import Cdm.Lib.Words

/-!
# Columns that are named in the configuration

A column is named in the configuration by its CQL spelling.  The features look it up in what they
know of the tables, and the mapping looks it up in the columns of the tables.  Only the explode map
reads a spelling back before it looks for the column; extract JSON, the column-value filter and the
lists of TTL and writetime columns take the text as it is.  The mapping reads every name back, also
the names of the explode map, which have been read back already.
-/

namespace Cdm

open List Text

/-! ### Reading the properties -/

namespace FeatureProperties

/-- Reads a CQL identifier back to its internal form, as the features do. -/
def unformat (name : String) : String :=
  let chars := name.toList
  let wellFormedQuoted := 2 ≤ chars.length && chars.head? = some doubleQuote &&
    endsWith doubleQuote chars && !chars.any isWhitespace
  if chars.isEmpty then ""
  else if wellFormedQuoted then
    String.ofList (replace [doubleQuote, doubleQuote] [doubleQuote]
      chars.tail.dropLast)
  else if chars.contains doubleQuote || chars.any isWhitespace then
    let trimmed := trim chars
    if 2 ≤ trimmed.length && trimmed.head? = some doubleQuote &&
        endsWith doubleQuote trimmed then
      String.ofList (replace [doubleQuote, doubleQuote] [doubleQuote]
        trimmed.tail.dropLast)
    else name
  else name

/-- A property naming a column, read back from its CQL spelling. -/
def columnName (raw : Option String) : Option String :=
  ((trimmedProperty raw).map unformat).filter fun name => !name.isEmpty

/-- A comma-separated list property, trimmed element by element, without empty elements. -/
def list (raw : Option String) : List String :=
  match raw.filter fun value => !value.isEmpty with
  | none => []
  | some value =>
    (((Text.splitOn ',' value.toList).map trim).filter fun element => !element.isEmpty).map
      String.ofList

/-- A list property in the flat view of the configuration. -/
def joined (names : List String) : String := ",".intercalate names

end FeatureProperties

/-- Reads the explode map's three columns. -/
def ExplodeMap.load (origin key value : Option String) : ExplodeMap where
  origin := (FeatureProperties.columnName origin).getD ""
  key := (FeatureProperties.columnName key).getD ""
  value := (FeatureProperties.columnName value).getD ""

/-- The path and the column of a property mapping; a bare name is both. -/
def ExtractJson.splitMapping (mapping : List Char) : List Char × List Char :=
  match mapping.dropWhile (· ≠ ':') with
  | [] => (mapping, mapping)
  | _ :: column => (trim (mapping.takeWhile (· ≠ ':')), trim column)

/-- Reads extract JSON's configuration, splitting the property mapping into path and column. -/
def ExtractJson.load (originColumn propertyMapping : Option String) (overwrite : Bool) :
    ExtractJson :=
  let mapping := splitMapping ((trimmedProperty propertyMapping).getD "").toList
  { originColumn := (trimmedProperty originColumn).getD ""
    path := JsonPath.parse (String.ofList mapping.1)
    targetColumn := String.ofList mapping.2
    overwrite }

/-- Reads the columns that supply a TTL or a writetime; naming columns turns the automatic mode off
for that dimension.  The switches and the numbers are given as they are read. -/
def WritetimeTtl.load (ttlNames writetimeNames : Option String)
    (automaticTtl automaticWritetime useCollections : Bool)
    (customWritetime writetimeIncrement customTtl : ℤ) : WritetimeTtl where
  automaticTtl := (FeatureProperties.list ttlNames).isEmpty && automaticTtl
  ttlNames := FeatureProperties.list ttlNames
  automaticWritetime := (FeatureProperties.list writetimeNames).isEmpty && automaticWritetime
  writetimeNames := FeatureProperties.list writetimeNames
  useCollections
  customWritetime
  writetimeIncrement
  customTtl

/-! ### Finding the columns -/

/-- The two tables of a run, as the features and as the mapping see them. -/
structure TableViews where
  features : FeatureSchema
  /-- The origin columns the run reads. -/
  origin : List ColumnMeta
  target : TableSchema
  origin_names : features.origin.columns.map ColumnFacts.name = origin.map ColumnMeta.name
  target_names : features.target.columns.map ColumnFacts.name = target.columns.map ColumnMeta.name

namespace TableViews

section

variable [AlphanumericTable]

end

/-- Two tables with text columns of the same names. -/
def ofNames (names : List String) (h : names.Nodup) : TableViews where
  features :=
    ⟨⟨⟨"ks", "src"⟩, names.map fun name => ⟨name, .primitive .text, false⟩⟩,
      ⟨⟨"ks", "dst"⟩, names.map fun name => ⟨name, .primitive .text, false⟩⟩⟩
  origin := names.map fun name => ⟨name, "text", .regular, -1⟩
  target :=
    { keyspace := "ks"
      table := "dst"
      columns := names.map fun name => ⟨name, "text", .regular, -1⟩
      nodup := by
        rw [map_map]
        exact (map_id names).symm ▸ h }
  origin_names := by
    rw [map_map, map_map]
    rfl
  target_names := by
    rw [map_map, map_map]
    rfl

variable (views : TableViews)

def originNames : List String := views.origin.map ColumnMeta.name

def targetNames : List String := views.target.columns.map ColumnMeta.name

end TableViews

/-- A run with this explode map. -/
def RunConfig.withExplode (run : RunConfig) (config : ExplodeMap) : RunConfig :=
  { run with explodeMap := config }

/-- A run with extract JSON, and no explode map. -/
def RunConfig.withExtract (run : RunConfig) (config : ExtractJson) : RunConfig :=
  { run with explodeMap := ⟨"", "", ""⟩, extractJson := config }

/-- The explode map is switched on, and its columns are those of the given names: in the plan, and
in the mapping. -/
structure ExplodeMap.Finds (config : ExplodeMap) (views : TableViews) (run : RunConfig)
    (renames : List (String × String)) (map key value : String) : Prop where
  enabled : config.isEnabled = true
  mapColumn : views.features.origin.indexOf config.origin = views.features.origin.indexOf map
  keyColumn : views.features.target.column config.key = views.features.target.column key
  valueColumn : views.features.target.column config.value = views.features.target.column value
  keySource : ∀ column ∈ views.target.columns,
    ColumnMapping.sourceFor views.origin renames (run.withExplode config).mappingOptions
      column = .explodeKey ↔ column.name = key
  valueSource : ∀ column ∈ views.target.columns,
    ColumnMapping.sourceFor views.origin renames (run.withExplode config).mappingOptions
      column = .explodeValue ↔ column.name = value ∧ column.name ≠ key

/-- Extract JSON is switched on, and its columns are those of the given names: in the plan, and in
the mapping, where no column is exploded. -/
structure ExtractJson.Finds (config : ExtractJson) (views : TableViews) (run : RunConfig)
    (renames : List (String × String)) (document extracted : String) : Prop where
  enabled : config.isEnabled = true
  documentColumn : views.features.origin.indexOf config.originColumn =
    views.features.origin.indexOf document
  extractedColumn : views.features.target.column config.targetColumn =
    views.features.target.column extracted
  source : ∀ column ∈ views.target.columns, ∀ index,
    ColumnMapping.sourceFor views.origin renames
        (run.withExtract config).mappingOptions column =
      .extractJson index ↔
      column.name = extracted ∧ ColumnMapping.indexNamed views.origin document = some index

/-! ### The conditions -/

namespace Identifier

/-- A name that is found in its spelling as it is. -/
def ReadRaw (name : String) : Prop := name ≠ "" ∧ Verbatim name.toList

/-- A name that is found in its spelling, once that is read back. -/
def ReadOnce (name : String) : Prop := name ≠ "" ∧ Recovered name.toList

/-- A name that is found in its spelling as it is, and once that is read back. -/
def ReadRawAndOnce (name : String) : Prop :=
  name ≠ "" ∧ Verbatim name.toList ∧ isQuoted name.toList = false

/-- A name that is found in its spelling, once that is read back, and twice. -/
def ReadOnceAndTwice (name : String) : Prop :=
  name ≠ "" ∧ Recovered name.toList ∧ alreadyQuoted (trim name.toList) = false

end Identifier

/-! ### Looking up a column -/

section

variable {α : Type} {nameOf : α → String} {columns : List α} {name other : String}

theorem findIdx?_name_eq_iff (h : name ∈ columns.map nameOf) :
    columns.findIdx? (fun a => decide (nameOf a = other)) =
      columns.findIdx? (fun a => decide (nameOf a = name)) ↔ other = name := by
  refine ⟨fun heq => ?_, fun heq => by rw [heq]⟩
  obtain ⟨a, ha, hname⟩ := mem_map.1 h
  cases hindex : columns.findIdx? (fun a => decide (nameOf a = name)) with
  | none =>
    have hne := findIdx?_eq_none_iff.1 hindex a ha
    rw [decide_eq_false_iff_not] at hne
    exact absurd hname hne
  | some index =>
    obtain ⟨hlt, hfound, -⟩ := findIdx?_eq_some_iff_getElem.1 hindex
    obtain ⟨hlt', hother, -⟩ := findIdx?_eq_some_iff_getElem.1 (heq.trans hindex)
    exact (of_decide_eq_true hother).symm.trans (of_decide_eq_true hfound)

theorem find?_name_eq_iff (h : name ∈ columns.map nameOf) :
    columns.find? (fun a => decide (nameOf a = other)) =
      columns.find? (fun a => decide (nameOf a = name)) ↔ other = name := by
  refine ⟨fun heq => ?_, fun heq => by rw [heq]⟩
  obtain ⟨a, ha, hname⟩ := mem_map.1 h
  cases hfind : columns.find? (fun a => decide (nameOf a = name)) with
  | none =>
    have hne := find?_eq_none.1 hfind a ha
    rw [decide_eq_true_eq] at hne
    exact absurd hname hne
  | some found =>
    have hfound := find?_some hfind
    have hother := find?_some (heq.trans hfind)
    exact (of_decide_eq_true hother).symm.trans (of_decide_eq_true hfound)

end

namespace TableViews

variable {views : TableViews} {name other : String}

theorem indexOf_eq_iff (h : name ∈ views.originNames) :
    views.features.origin.indexOf other = views.features.origin.indexOf name ↔ other = name :=
  findIdx?_name_eq_iff (by rw [views.origin_names]; exact h)

theorem column_eq_iff (h : name ∈ views.originNames) :
    views.features.origin.column other = views.features.origin.column name ↔ other = name :=
  find?_name_eq_iff (by rw [views.origin_names]; exact h)

theorem targetColumn_eq_iff (h : name ∈ views.targetNames) :
    views.features.target.column other = views.features.target.column name ↔ other = name :=
  find?_name_eq_iff (by rw [views.target_names]; exact h)

end TableViews

namespace ColumnMapping

variable {origin : List ColumnMeta} {renames : List (String × String)} {options : MappingOptions}
  {column : ColumnMeta}

/-- The target columns of the explode map. -/
theorem sourceFor_explode {names : String × String × String}
    (h : options.explodeMap = some names) :
    (sourceFor origin renames options column = .explodeKey ↔
        Identifier.unformat names.2.1 = column.name) ∧
      (sourceFor origin renames options column = .explodeValue ↔
        Identifier.unformat names.2.2 = column.name ∧
          Identifier.unformat names.2.1 ≠ column.name) := by
  unfold sourceFor
  simp only [h, Option.any_some, decide_eq_true_eq]
  split_ifs with hkey hvalue
  · simp [hkey]
  · simp [hkey, hvalue]
  · simp only [hkey, hvalue, false_and, iff_false]
    split
    · rename_i document _ _
      rcases lookupOr_cases origin .extractJson (Identifier.unformat document) .absent with
        ⟨index, -, heq⟩ | ⟨-, heq⟩
      · simp [heq]
      · simp [heq]
    · split
      · simp
      · rcases mappedSource_cases origin renames column with ⟨index, heq⟩ | heq
        · simp [heq]
        · simp [heq]

/-- The target column of extract JSON, where no column is exploded. -/
theorem sourceFor_extract {names : String × String} (hexplode : options.explodeMap = none)
    (h : options.extractJson = some names) (index : ℕ) :
    sourceFor origin renames options column = .extractJson index ↔
      Identifier.unformat names.2 = column.name ∧
        indexNamed origin (Identifier.unformat names.1) = some index := by
  unfold sourceFor
  simp only [hexplode, h, Option.any_none, Bool.false_eq_true, if_false]
  by_cases hname : Identifier.unformat names.2 = column.name
  · simp only [Option.filter_some, hname, decide_true, if_true, true_and]
    rcases lookupOr_cases origin .extractJson (Identifier.unformat names.1) .absent with
      ⟨found, hfound, heq⟩ | ⟨hnone, heq⟩
    · simp [heq, hfound]
    · simp [heq, hnone]
  · simp only [Option.filter_some, hname, decide_false, Bool.false_eq_true, if_false, false_and,
      iff_false]
    split
    · simp
    · rcases mappedSource_cases origin renames column with ⟨found, heq⟩ | heq
      · simp [heq]
      · simp [heq]

end ColumnMapping

/-! ### What the properties are read as -/

namespace FeatureProperties

theorem undouble_eq_replace (s : List Char) :
    Identifier.undouble s =
      replace [doubleQuote, doubleQuote] [doubleQuote] s := by
  rw [replace_eq_undoubled]
  fun_induction Identifier.undouble s with
  | case1 => rfl
  | case2 c => rfl
  | case3 c d cs h ih => rw [undoubled, if_pos h, ih]
  | case4 c d cs h ih => rw [undoubled, if_neg h, ih]

/-- Both crates read a name back alike. -/
theorem unformat_eq (name : String) : unformat name = Identifier.unformat name := by
  by_cases hempty : name = ""
  · subst hempty
    rfl
  have hchars : name.toList.isEmpty = false := by
    rw [List.isEmpty_eq_false_iff]
    exact fun hnil => hempty (String.toList_eq_nil_iff.1 hnil)
  unfold unformat Identifier.unformat
  simp only [undouble_eq_replace, Identifier.isQuoted, Identifier.alreadyQuoted, hchars,
    Bool.false_eq_true, if_false]

theorem trimmedProperty_format (name : String) :
    (trimmedProperty (some (Identifier.format name))).getD "" = Identifier.format name := by
  rw [trimmedProperty, Option.map_some, Identifier.trim_format, String.ofList_toList,
    Option.filter_some]
  split_ifs with hempty
  · rfl
  · rw [Bool.not_eq_true, Bool.not_eq_false', String.isEmpty_iff] at hempty
    rw [hempty]
    rfl

theorem columnName_format (name : String) :
    (columnName (some (Identifier.format name))).getD "" =
      Identifier.unformat (Identifier.format name) := by
  have htrim := trimmedProperty_format name
  rw [columnName]
  cases htrimmed : trimmedProperty (some (Identifier.format name)) with
  | none =>
    rw [htrimmed] at htrim
    rw [← htrim]
    rfl
  | some found =>
    rw [htrimmed, Option.getD_some] at htrim
    rw [htrim, Option.map_some, unformat_eq, Option.filter_some]
    split_ifs with hempty
    · exact Option.getD_some
    · rw [Bool.not_eq_true, Bool.not_eq_false', String.isEmpty_iff] at hempty
      rw [hempty]
      rfl

theorem list_some (value : String) : list (some value) =
    (((Text.splitOn ',' value.toList).map trim).filter fun element => !element.isEmpty).map
      String.ofList := by
  rw [list, Option.filter_some]
  by_cases hempty : value = ""
  · subst hempty
    rfl
  · have hfull : (!value.isEmpty) = true := by
      rw [Bool.not_eq_true', ← Bool.not_eq_true, String.isEmpty_iff]
      exact hempty
    rw [if_pos hfull]

/-- The names of a list are read as they are written, without the empty ones. -/
theorem list_joined {names : List String} (h : ∀ name ∈ names, ',' ∉ name.toList) :
    list (some (joined (names.map Identifier.format))) =
      (names.map Identifier.format).filter fun name => !name.isEmpty := by
  rw [list_some, joined, String.toList_intercalate]
  by_cases hnil : names = []
  · subst hnil
    rfl
  have hsplit : Text.splitOn ',' ([','].intercalate
      ((names.map Identifier.format).map String.toList)) =
        (names.map Identifier.format).map String.toList := by
    refine splitOn_intercalate (by simpa using hnil) fun piece hpiece => ?_
    rw [map_map] at hpiece
    obtain ⟨name, hname, rfl⟩ := mem_map.1 hpiece
    exact fun hcomma => h name hname (Identifier.mem_format (by decide) hcomma)
  have htrim : ((names.map Identifier.format).map String.toList).map trim =
      (names.map Identifier.format).map String.toList := by
    rw [map_map, map_map, map_map]
    refine map_congr_left fun name _ => ?_
    rw [Function.comp_apply, Function.comp_apply, Identifier.trim_format, Function.comp_apply]
  have hcomma : ",".toList = [','] := rfl
  rw [hcomma, hsplit, htrim, filter_map, map_map]
  conv_rhs => rw [← map_id ((names.map Identifier.format).filter fun name => !name.isEmpty)]
  have hsame : (fun element : List Char => !element.isEmpty) ∘ String.toList =
      fun name : String => !name.isEmpty := by
    funext name
    rw [Function.comp_apply, Bool.eq_iff_iff]
    simp
  rw [hsame]
  exact map_congr_left fun name _ => String.ofList_toList

/-- A list of names is understood exactly when each of its names is. -/
theorem map_filter_map_eq_iff {β : Type} {look : String → β} {reading : String → String}
    {p : String → Bool} {names : List String}
    (hlook : ∀ name ∈ names, ∀ other, look other = look name ↔ other = name) :
    ((names.map reading).filter p).map look = names.map look ↔
      ∀ name ∈ names, p name = true ∧ reading name = name := by
  constructor
  · intro heq
    have hlength := congrArg List.length heq
    rw [length_map, length_map] at hlength
    have hall : ∀ name ∈ names.map reading, p name = true :=
      length_filter_eq_length_iff.1 (hlength.trans (length_map _).symm)
    rw [filter_eq_self.2 hall, map_map, map_inj_left] at heq
    intro name hname
    have hself := (hlook name hname _).1 (heq name hname)
    refine ⟨?_, hself⟩
    have hp := hall _ (mem_map_of_mem (f := reading) hname)
    rwa [hself] at hp
  · intro h
    have hsame : names.map reading = names := by
      conv_rhs => rw [← map_id names]
      exact map_congr_left fun name hname => (h name hname).2
    rw [hsame, filter_eq_self.2 fun name hname => (h name hname).1]

theorem trim_colon {front back : List Char} (hback : trim back = back) :
    trim (front ++ ':' :: back) = front.dropWhile isWhitespace ++ ':' :: back := by
  have hsplit := takeWhile_append_dropWhile (p := isWhitespace) (l := front)
  conv_lhs => rw [← hsplit, append_assoc]
  refine trim_append (fun c hc => mem_takeWhile_imp hc) (fun c hc => ?_) fun c hc => ?_
  · cases hrest : front.dropWhile isWhitespace with
    | nil =>
      rw [hrest] at hc
      cases hc
      rfl
    | cons d rest =>
      have hnot := head?_dropWhile_not isWhitespace front
      rw [hrest] at hc hnot
      cases hc
      exact hnot
  · rw [getLast?_append_of_ne_nil _ (cons_ne_nil _ _)] at hc
    cases hb : back with
    | nil =>
      rw [hb] at hc
      cases hc
      rfl
    | cons d rest =>
      rw [hb, getLast?_cons_cons, ← hb, ← hback] at hc
      exact last_trim c hc

theorem dropWhile_trim (name : String) :
    (Identifier.format name).toList.dropWhile isWhitespace =
      (Identifier.format name).toList := by
  refine dropWhile_isWhitespace_of_head fun c hc => ?_
  rw [← Identifier.trim_format name] at hc
  exact head_trim c hc

theorem ne_colon {text : List Char} (h : ':' ∉ text) :
    ∀ c ∈ text, decide (c ≠ ':') = true := by
  intro c hc
  rw [decide_eq_true_eq]
  rintro rfl
  exact h hc

end FeatureProperties

open FeatureProperties hiding unformat
open Identifier

/-- The text of a property mapping. -/
def ExtractJson.mappingText (path : Option String) (column : String) : String :=
  match path with
  | some path => path ++ ":" ++ column
  | none => column

theorem ExtractJson.targetColumn_load {extracted : String} (h : ':' ∉ extracted.toList)
    {path : Option String} (hpath : ∀ text ∈ path, ':' ∉ text.toList)
    (originColumn : Option String) (overwrite : Bool) :
    (load originColumn (some (mappingText path (format extracted))) overwrite).targetColumn =
      format extracted := by
  have hcolon : ':' ∉ (format extracted).toList := fun hmem => h (mem_format (by decide) hmem)
  have htrim := trim_format extracted
  rw [load]
  dsimp only
  cases path with
  | none =>
    have hdrop : (format extracted).toList.dropWhile (fun c => decide (c ≠ ':')) = [] :=
      dropWhile_eq_nil_iff.2 (ne_colon hcolon)
    rw [mappingText, trimmedProperty_format, splitMapping, hdrop, String.ofList_toList]
  | some text =>
    have htext := hpath text rfl
    have hchars : (text ++ ":" ++ format extracted).toList =
        text.toList ++ ':' :: (format extracted).toList := by
      rw [String.toList_append, String.toList_append, append_assoc]
      rfl
    have hfront : ':' ∉ text.toList.dropWhile isWhitespace :=
      fun hmem => htext ((dropWhile_suffix _).subset hmem)
    have hdrop : (text.toList.dropWhile isWhitespace ++
        ':' :: (format extracted).toList).dropWhile (fun c => decide (c ≠ ':')) =
          ':' :: (format extracted).toList :=
      dropWhile_exact (ne_colon hfront) (by rintro c ⟨⟩; rfl)
    have hfull : (!(String.ofList (text.toList.dropWhile isWhitespace ++
        ':' :: (format extracted).toList)).isEmpty) = true := by
      rw [Bool.not_eq_true', ← Bool.not_eq_true, String.isEmpty_iff, ← String.toList_eq_nil_iff,
        String.toList_ofList]
      exact append_ne_nil_of_right_ne_nil _ (cons_ne_nil _ _)
    rw [mappingText, trimmedProperty, Option.map_some, hchars, trim_colon htrim, Option.filter_some,
      if_pos hfull, Option.getD_some, String.toList_ofList, splitMapping, hdrop]
    dsimp only
    rw [htrim, String.ofList_toList]

/-! ### When the columns are found -/

section

variable {views : TableViews} {run : RunConfig} {renames : List (String × String)}

theorem isEmpty_eq_false_iff {name : String} : name.isEmpty = false ↔ name ≠ "" := by
  rw [← Bool.not_eq_true, String.isEmpty_iff]

theorem exists_column_named {columns : List ColumnMeta} {name : String}
    (h : name ∈ columns.map ColumnMeta.name) : ∃ column ∈ columns, column.name = name :=
  mem_map.1 h

theorem ExplodeMap.load_format (map key value : String) :
    load (some (format map)) (some (format key)) (some (format value)) =
      ⟨unformat (format map), unformat (format key), unformat (format value)⟩ := by
  rw [load, columnName_format, columnName_format, columnName_format]

theorem ExtractJson.originColumn_load (document : String) (propertyMapping : Option String)
    (overwrite : Bool) :
    (load (some (format document)) propertyMapping overwrite).originColumn = format document := by
  rw [load]
  dsimp only
  rw [trimmedProperty_format]

/-- The explode map: its plan reads the names back once, the mapping those of the target columns a
second time. -/
theorem ExplodeMap.lookups_iff {map key value : String} (hmap : map ∈ views.originNames)
    (hkey : key ∈ views.targetNames) (hvalue : value ∈ views.targetNames) :
    (load (some (format map)) (some (format key)) (some (format value))).Finds views run renames
        map key value ↔
      ReadOnce map ∧ ReadOnceAndTwice key ∧ ReadOnceAndTwice value := by
  rw [load_format]
  generalize hconfig :
    ExplodeMap.mk (unformat (format map)) (unformat (format key)) (unformat (format value)) = config
  obtain ⟨horigin, hkeyName, hvalueName⟩ : config.origin = unformat (format map) ∧
      config.key = unformat (format key) ∧ config.value = unformat (format value) := by
    simp only [← hconfig, and_self]
  clear hconfig
  constructor
  · intro h
    have hmap' := (TableViews.indexOf_eq_iff hmap).1 h.mapColumn
    have hkey' := (TableViews.targetColumn_eq_iff hkey).1 h.keyColumn
    have hvalue' := (TableViews.targetColumn_eq_iff hvalue).1 h.valueColumn
    have henabled := h.enabled
    have hoptions : (run.withExplode config).mappingOptions.explodeMap =
        some (config.origin, config.key, config.value) := if_pos henabled
    rw [isEnabled, Bool.and_eq_true, Bool.and_eq_true, Bool.not_eq_true', Bool.not_eq_true',
      Bool.not_eq_true', isEmpty_eq_false_iff, isEmpty_eq_false_iff, isEmpty_eq_false_iff, hmap',
      hkey', hvalue'] at henabled
    obtain ⟨⟨hmapNe, hkeyNe⟩, hvalueNe⟩ := henabled
    have hkeyTwice : unformat key = key := by
      obtain ⟨column, hcolumn, hname⟩ := exists_column_named hkey
      have hsource := (ColumnMapping.sourceFor_explode hoptions).1.1
        ((h.keySource column hcolumn).2 hname)
      dsimp only at hsource
      rwa [hkey', hname] at hsource
    have hvalueTwice : unformat value = value := by
      by_cases hsame : value = key
      · rw [hsame]
        exact hkeyTwice
      obtain ⟨column, hcolumn, hname⟩ := exists_column_named hvalue
      have hsource := ((ColumnMapping.sourceFor_explode hoptions).2.1
        ((h.valueSource column hcolumn).2 ⟨hname, fun e => hsame (hname.symm.trans e)⟩)).1
      dsimp only at hsource
      rwa [hvalue', hname] at hsource
    exact ⟨⟨hmapNe, (unformat_format_iff map).1 (horigin.symm.trans hmap')⟩,
      ⟨hkeyNe, (unformat_format_iff key).1 (hkeyName.symm.trans hkey'),
        (unformat_eq_self_iff key).1 hkeyTwice⟩,
      ⟨hvalueNe, (unformat_format_iff value).1 (hvalueName.symm.trans hvalue'),
        (unformat_eq_self_iff value).1 hvalueTwice⟩⟩
  · rintro ⟨⟨hmapNe, hmapOnce⟩, ⟨hkeyNe, hkeyOnce, hkeyTwice⟩, ⟨hvalueNe, hvalueOnce, hvalueTwice⟩⟩
    rw [(unformat_format_iff map).2 hmapOnce] at horigin
    rw [(unformat_format_iff key).2 hkeyOnce] at hkeyName
    rw [(unformat_format_iff value).2 hvalueOnce] at hvalueName
    have henabled : config.isEnabled = true := by
      rw [isEnabled, horigin, hkeyName, hvalueName, isEmpty_eq_false_iff.2 hmapNe,
        isEmpty_eq_false_iff.2 hkeyNe, isEmpty_eq_false_iff.2 hvalueNe]
      rfl
    have hoptions : (run.withExplode config).mappingOptions.explodeMap =
        some (config.origin, config.key, config.value) := if_pos henabled
    refine ⟨henabled, by rw [horigin], by rw [hkeyName], by rw [hvalueName],
      fun column _ => ?_, fun column _ => ?_⟩
    · rw [(ColumnMapping.sourceFor_explode hoptions).1]
      dsimp only
      rw [hkeyName, (unformat_eq_self_iff key).2 hkeyTwice]
      exact eq_comm
    · rw [(ColumnMapping.sourceFor_explode hoptions).2]
      dsimp only
      rw [hkeyName, hvalueName, (unformat_eq_self_iff key).2 hkeyTwice,
        (unformat_eq_self_iff value).2 hvalueTwice, ne_comm]
      exact and_congr_left fun _ => eq_comm

/-- Extract JSON: its plan takes the names as they are, the mapping reads them back. -/
theorem ExtractJson.lookups_iff {document extracted : String}
    (hdocument : document ∈ views.originNames) (hextracted : extracted ∈ views.targetNames)
    (hcolon : ':' ∉ extracted.toList)
    {path : Option String} (hpath : ∀ text ∈ path, ':' ∉ text.toList) (overwrite : Bool) :
    (load (some (format document)) (some (mappingText path (format extracted))) overwrite).Finds
        views run renames document extracted ↔
      ReadRawAndOnce document ∧ ReadRawAndOnce extracted := by
  have htarget := targetColumn_load hcolon hpath (some (format document)) overwrite
  have horigin := originColumn_load document (some (mappingText path (format extracted))) overwrite
  generalize load (some (format document)) (some (mappingText path (format extracted))) overwrite =
    config at htarget horigin
  have hexplode : (run.withExtract config).mappingOptions.explodeMap = none := rfl
  constructor
  · intro h
    have hdocument' := (TableViews.indexOf_eq_iff hdocument).1 h.documentColumn
    have hextracted' := (TableViews.targetColumn_eq_iff hextracted).1 h.extractedColumn
    have henabled := h.enabled
    have hoptions : (run.withExtract config).mappingOptions.extractJson =
        some (config.originColumn, config.targetColumn) := if_pos henabled
    rw [isEnabled, Bool.and_eq_true, Bool.not_eq_true', Bool.not_eq_true', isEmpty_eq_false_iff,
      isEmpty_eq_false_iff, hdocument', hextracted'] at henabled
    have hverbatim := (format_eq_self_iff document).1 (horigin.symm.trans hdocument')
    have hverbatim' := (format_eq_self_iff extracted).1 (htarget.symm.trans hextracted')
    obtain ⟨column, hcolumn, hname⟩ := exists_column_named hextracted
    obtain ⟨index, hindex⟩ :
        ∃ index, ColumnMapping.indexNamed views.origin document = some index := by
      obtain ⟨found, hfound, hfoundName⟩ := exists_column_named hdocument
      cases hindex : ColumnMapping.indexNamed views.origin document with
      | some index => exact ⟨index, rfl⟩
      | none =>
        have hne := findIdx?_eq_none_iff.1 hindex found hfound
        rw [decide_eq_false_iff_not] at hne
        exact absurd hfoundName hne
    obtain ⟨htwice', hsame⟩ := (ColumnMapping.sourceFor_extract hexplode hoptions index).1
      ((h.source column hcolumn index).2 ⟨hname, hindex⟩)
    dsimp only at htwice' hsame
    rw [hextracted', hname] at htwice'
    have htwice : unformat document = document := by
      rw [hdocument'] at hsame
      exact (findIdx?_name_eq_iff hdocument).1 (hsame.trans hindex.symm)
    exact ⟨⟨henabled.1, hverbatim, hverbatim.unformat_eq_self_iff.1 htwice⟩,
      ⟨henabled.2, hverbatim', hverbatim'.unformat_eq_self_iff.1 htwice'⟩⟩
  · rintro ⟨⟨hne, hverbatim, hquoted⟩, ⟨hne', hverbatim', hquoted'⟩⟩
    rw [(format_eq_self_iff document).2 hverbatim] at horigin
    rw [(format_eq_self_iff extracted).2 hverbatim'] at htarget
    have henabled : config.isEnabled = true := by
      rw [isEnabled, horigin, htarget, isEmpty_eq_false_iff.2 hne, isEmpty_eq_false_iff.2 hne']
      rfl
    have hoptions : (run.withExtract config).mappingOptions.extractJson =
        some (config.originColumn, config.targetColumn) := if_pos henabled
    refine ⟨henabled, by rw [horigin], by rw [htarget], fun column _ index => ?_⟩
    rw [ColumnMapping.sourceFor_extract hexplode hoptions]
    dsimp only
    rw [horigin, htarget, hverbatim.unformat_eq_self_iff.2 hquoted,
      hverbatim'.unformat_eq_self_iff.2 hquoted']
    exact and_congr_left fun _ => eq_comm

/-- The column-value filter takes the name as it is. -/
theorem ColumnValueFilter.lookups_iff {name : String} (hname : name ∈ views.originNames)
    (value : Option String) :
    (load (some (format name)) value views.features.origin).index =
        views.features.origin.indexOf name ↔ Verbatim name.toList := by
  rw [load]
  dsimp only
  rw [trimmedProperty_format, TableViews.indexOf_eq_iff hname, format_eq_self_iff]

/-- A list of columns is taken as it is. -/
theorem FeatureProperties.list_finds_iff {names : List String}
    (hnames : ∀ name ∈ names, name ∈ views.originNames ∧ ',' ∉ name.toList) :
    (list (some (joined (names.map format)))).map views.features.origin.column =
        names.map views.features.origin.column ↔ ∀ name ∈ names, ReadRaw name := by
  rw [list_joined fun name hname => (hnames name hname).2,
    map_filter_map_eq_iff fun name hname other => TableViews.column_eq_iff (hnames name hname).1]
  refine forall₂_congr fun name _ => ?_
  rw [Bool.not_eq_true', isEmpty_eq_false_iff, format_eq_self_iff]
  rfl

/-- The columns that are skipped are read back. -/
theorem ColumnMapping.skippedNames_finds_iff {table : TableSchema} {names : List String}
    (hnames : ∀ name ∈ names, name ∈ table.columns.map ColumnMeta.name) :
    (skippedNames (names.map format)).map table.column = names.map table.column ↔
      ∀ name ∈ names, ReadOnce name := by
  have hread : (names.map format).map (fun name =>
      unformat (String.ofList (trim name.toList))) =
        names.map fun name => unformat (format name) := by
    rw [map_map]
    refine map_congr_left fun name _ => ?_
    rw [Function.comp_apply, trim_format, String.ofList_toList]
  have hlook : ∀ name ∈ names, ∀ other, table.column other = table.column name ↔ other = name :=
    fun name hname other => find?_name_eq_iff (hnames name hname)
  rw [skippedNames, hread, map_filter_map_eq_iff hlook]
  refine forall₂_congr fun name _ => ?_
  rw [decide_eq_true_eq, unformat_format_iff]
  rfl

/-- Both halves of a rename are read back. -/
theorem ColumnMapping.parseRename_finds_iff {name renamed : String}
    (hname : name ∈ views.originNames) (hrenamed : renamed ∈ views.targetNames)
    (hcolon : ':' ∉ name.toList) :
    parseRename views.origin views.target (format name ++ ":" ++ format renamed) =
        .ok (some (name, renamed)) ↔ ReadOnce name ∧ ReadOnce renamed := by
  have hchars : (format name ++ ":" ++ format renamed).toList =
      (format name).toList ++ ':' :: (format renamed).toList := by
    rw [String.toList_append, String.toList_append, append_assoc]
    rfl
  have htrim : trim (format name ++ ":" ++ format renamed).toList =
      (format name).toList ++ ':' :: (format renamed).toList := by
    rw [hchars, trim_colon (trim_format renamed), dropWhile_trim]
  have hplain : ∀ c ∈ (format name).toList, decide (c ≠ ':') = true :=
    ne_colon fun hmem => hcolon (mem_format (by decide) hmem)
  have htake : ((format name).toList ++ ':' :: (format renamed).toList).takeWhile
      (fun c => decide (c ≠ ':')) = (format name).toList :=
    takeWhile_exact hplain (by rintro c ⟨⟩; rfl)
  have hdrop : ((format name).toList ++ ':' :: (format renamed).toList).dropWhile
      (fun c => decide (c ≠ ':')) = ':' :: (format renamed).toList :=
    dropWhile_exact hplain (by rintro c ⟨⟩; rfl)
  have hfull : ((format name).toList ++ ':' :: (format renamed).toList).isEmpty = false := by
    rw [List.isEmpty_eq_false_iff]
    exact append_ne_nil_of_right_ne_nil _ (cons_ne_nil _ _)
  have hempty : ∀ text : String, (format text).toList.isEmpty = true ↔ text = "" := by
    intro text
    rw [List.isEmpty_iff, String.toList_eq_nil_iff, format_eq_empty_iff]
  unfold parseRename
  simp only [htrim, hfull, Bool.false_eq_true, if_false, htake, hdrop, tail_cons,
    trim_format, String.ofList_toList, Bool.or_eq_true, hempty]
  constructor
  · intro h
    split_ifs at h with hnames horigin htarget
    rw [not_or] at hnames
    obtain ⟨hleft, hright⟩ := Prod.mk.inj (Option.some.inj (Except.ok.inj h))
    exact ⟨⟨hnames.1, (unformat_format_iff name).1 hleft⟩,
      ⟨hnames.2, (unformat_format_iff renamed).1 hright⟩⟩
  · rintro ⟨⟨hne, honce⟩, ⟨hne', honce'⟩⟩
    have horigin : views.origin.any (fun column => decide (column.name = name)) = true := by
      obtain ⟨column, hcolumn, hfound⟩ := exists_column_named hname
      exact any_eq_true.2 ⟨column, hcolumn, decide_eq_true hfound⟩
    have htarget : (views.target.column renamed).isNone = false := by
      obtain ⟨column, hcolumn, hfound⟩ := exists_column_named hrenamed
      rw [Option.isNone_eq_false_iff, TableSchema.column, find?_isSome]
      exact ⟨column, hcolumn, decide_eq_true hfound⟩
    rw [if_neg (not_or.2 ⟨hne, hne'⟩), (unformat_format_iff name).2 honce,
      (unformat_format_iff renamed).2 honce']
    simp [horigin, htarget]

/-- Both crates read names back alike.  And for every property, the names that are found by their
spelling: the columns of the explode map, of extract JSON, of the filter, of the TTL and writetime
lists, of the skipped columns, and of a rename. -/
theorem TableViews.finds_iff (views : TableViews) (run : RunConfig)
    (renames : List (String × String)) :
    (∀ text, FeatureProperties.unformat text = Identifier.unformat text) ∧
    (∀ map ∈ views.originNames, ∀ key ∈ views.targetNames, ∀ value ∈ views.targetNames,
      ((ExplodeMap.load (some (format map)) (some (format key)) (some (format value))).Finds
          views run renames map key value ↔
        ReadOnce map ∧ ReadOnceAndTwice key ∧ ReadOnceAndTwice value)) ∧
    (∀ document ∈ views.originNames, ∀ extracted ∈ views.targetNames, ':' ∉ extracted.toList →
      ∀ path : Option String, (∀ text ∈ path, ':' ∉ text.toList) → ∀ overwrite,
        ((ExtractJson.load (some (format document))
            (some (ExtractJson.mappingText path (format extracted))) overwrite).Finds
            views run renames document extracted ↔
          ReadRawAndOnce document ∧ ReadRawAndOnce extracted)) ∧
    (∀ name ∈ views.originNames, ∀ value,
      ((ColumnValueFilter.load (some (format name)) value views.features.origin).index =
          views.features.origin.indexOf name ↔ Verbatim name.toList)) ∧
    (∀ ttl writetime : List String,
      (∀ name ∈ ttl ++ writetime, name ∈ views.originNames ∧ ',' ∉ name.toList) →
      ∀ automaticTtl automaticWritetime useCollections customWritetime writetimeIncrement customTtl,
        let config := WritetimeTtl.load (some (joined (ttl.map format)))
          (some (joined (writetime.map format))) automaticTtl automaticWritetime useCollections
          customWritetime writetimeIncrement customTtl
        (config.ttlNames.map views.features.origin.column =
            ttl.map views.features.origin.column ↔ ∀ name ∈ ttl, ReadRaw name) ∧
        (config.writetimeNames.map views.features.origin.column =
            writetime.map views.features.origin.column ↔ ∀ name ∈ writetime, ReadRaw name)) ∧
    (∀ (table : TableSchema) (names : List String),
      (∀ name ∈ names, name ∈ table.columns.map ColumnMeta.name) →
        ((ColumnMapping.skippedNames (names.map format)).map table.column =
            names.map table.column ↔ ∀ name ∈ names, ReadOnce name)) ∧
    (∀ name ∈ views.originNames, ∀ renamed ∈ views.targetNames, ':' ∉ name.toList →
      (ColumnMapping.parseRename views.origin views.target
          (format name ++ ":" ++ format renamed) = .ok (some (name, renamed)) ↔
        ReadOnce name ∧ ReadOnce renamed)) := by
  refine ⟨unformat_eq, ?_, ?_, ?_, ?_, ?_, ?_⟩
  · exact fun map hmap key hkey value hvalue => ExplodeMap.lookups_iff hmap hkey hvalue
  · exact fun document hdocument extracted hextracted hcolon path hpath overwrite =>
      ExtractJson.lookups_iff hdocument hextracted hcolon hpath overwrite
  · exact fun name hname value => ColumnValueFilter.lookups_iff hname value
  · intro ttl writetime hnames automaticTtl automaticWritetime useCollections customWritetime
      writetimeIncrement customTtl
    exact ⟨list_finds_iff fun name hname => hnames name (mem_append_left _ hname),
      list_finds_iff fun name hname => hnames name (mem_append_right _ hname)⟩
  · exact fun table names hnames => ColumnMapping.skippedNames_finds_iff hnames
  · exact fun name hname renamed hrenamed hcolon =>
      ColumnMapping.parseRename_finds_iff hname hrenamed hcolon

/-- A column with a capital letter is renamed, and it is in the explode map. -/
theorem TableViews.finds_iff_capital :
    ColumnMapping.parseRename (ofNames ["Data", "doc"] (by decide)).origin
        (ofNames ["Data", "doc"] (by decide)).target
        (format "Data" ++ ":" ++ format "doc") = .ok (some ("Data", "doc")) ∧
      (ExplodeMap.load (some (format "doc")) (some (format "Data")) (some (format "doc"))).Finds
        (ofNames ["Data", "doc"] (by decide)) PositionSample.config [] "doc" "Data" "doc" := by
  obtain ⟨-, hexplode, -, -, -, -, hrename⟩ :=
    finds_iff (ofNames ["Data", "doc"] (by decide)) PositionSample.config []
  have hdata : ReadOnce "Data" := ⟨by decide, by decide, by decide⟩
  have hdoc : ReadOnce "doc" := ⟨by decide, by decide, by decide⟩
  exact ⟨(hrename "Data" (by decide) "doc" (by decide) (by decide)).2 ⟨hdata, hdoc⟩,
    (hexplode "doc" (by decide) "Data" (by decide) "doc" (by decide)).2
      ⟨hdoc, ⟨hdata.1, hdata.2, by decide⟩, ⟨hdoc.1, hdoc.2, by decide⟩⟩⟩

/-- But extract JSON looks for it with its quotation marks. -/
theorem TableViews.not_finds :
    ¬ ∀ (views : TableViews) (run : RunConfig) (renames : List (String × String)),
      ∀ document ∈ views.originNames, ∀ extracted ∈ views.targetNames,
        (∀ name ∈ [document, extracted], ',' ∉ name.toList ∧ ':' ∉ name.toList) →
          (ExtractJson.load (some (format document)) (some (format extracted)) false).Finds
            views run renames document extracted := by
  intro h
  have hfound := (h (ofNames ["Data", "doc"] (by decide)) PositionSample.config [] "Data"
    (by decide) "doc" (by decide) (by decide)).documentColumn
  exact absurd hfound (by decide)

end

end Cdm
