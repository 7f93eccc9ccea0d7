import Cdm.Jobs.Redaction
import Cdm.Lib.Csv
import Cdm.Lib.Json

/-!
# The records of a discrepancy report

A record is written as a JSON object, in a document or on a line of its own, or as rows of comma-
separated values: one for each differing column, and one if there is none.
-/

namespace Cdm

open List

/-- How a report is written. -/
inductive ReportFormat
  | none
  | json
  | ndjson
  | csv
  deriving DecidableEq, Repr

def DiscrepancyKind.asStr : DiscrepancyKind → String
  | missing => "missing"
  | correctedMissing => "corrected_missing"
  | mismatch => "mismatch"
  | correctedMismatch => "corrected_mismatch"

/-! ### JSON -/

def jsonString (text : String) : Json.Value := .string text.toList

def jsonObject (fields : List (String × Json.Value)) : Json.Value :=
  .object (Json.Fields.ofList (fields.map fun field => (field.1.toList, field.2)))

def jsonArray (elements : List Json.Value) : Json.Value := .array (Json.Values.ofList elements)

def EventRange.toJson (range : EventRange) : Json.Value :=
  jsonObject [("min", jsonString range.min), ("max", jsonString range.max)]

def ColumnRecord.toJson (record : ColumnRecord) : Json.Value :=
  jsonObject ([("column", jsonString record.column), ("origin", jsonString record.origin),
    ("target", jsonString record.target)] ++
      record.error.toList.map fun error => ("error", jsonString error))

def DiscrepancyRecord.toJson (record : DiscrepancyRecord) : Json.Value :=
  jsonObject ([("run_id", .number (.ofInt record.runId.raw.toInt)),
    ("range", record.range.toJson), ("key", jsonString record.key),
    ("kind", jsonString record.kind.asStr), ("values_redacted", .bool record.valuesRedacted)] ++
      if record.columns.isEmpty then []
      else [("columns", jsonArray (record.columns.map ColumnRecord.toJson))])

/-! ### Reading JSON -/

def jsonField (name : String) : Json.Value → Option Json.Value
  | .object fields => fields.lookup name.toList
  | _ => none

def jsonText : Json.Value → Option String
  | .string text => some (String.ofList text)
  | _ => none

def jsonElements : Json.Value → Option (List Json.Value)
  | .array elements => some elements.toList
  | _ => none

def DiscrepancyKind.parse (text : String) : Option DiscrepancyKind :=
  [missing, correctedMissing, mismatch, correctedMismatch].find? fun kind => kind.asStr = text

def RunId.ofJson : Json.Value → Option RunId
  | .number value => (Text.parseI64 value.1).map fun raw => ⟨Int64.ofInt raw⟩
  | _ => none

def EventRange.ofJson (value : Json.Value) : Option EventRange := do
  let min ← (jsonField "min" value).bind jsonText
  let max ← (jsonField "max" value).bind jsonText
  return ⟨min, max⟩

/-- An error that is not there is none. -/
def ColumnRecord.ofJson (value : Json.Value) : Option ColumnRecord := do
  let column ← (jsonField "column" value).bind jsonText
  let origin ← (jsonField "origin" value).bind jsonText
  let target ← (jsonField "target" value).bind jsonText
  let error ← match jsonField "error" value with
    | none => some none
    | some error => (jsonText error).map some
  return ⟨column, origin, target, error⟩

def ColumnRecord.listOfJson (value : Json.Value) : Option (List ColumnRecord) :=
  (jsonElements value).bind fun elements => elements.mapM ofJson

/-- Columns that are not there are none. -/
def DiscrepancyRecord.ofJson (value : Json.Value) : Option DiscrepancyRecord := do
  let runId ← (jsonField "run_id" value).bind RunId.ofJson
  let range ← (jsonField "range" value).bind EventRange.ofJson
  let key ← (jsonField "key" value).bind jsonText
  let kind ← ((jsonField "kind" value).bind jsonText).bind DiscrepancyKind.parse
  let valuesRedacted ← match jsonField "values_redacted" value with
    | some (.bool valuesRedacted) => some valuesRedacted
    | _ => none
  let columns ← match jsonField "columns" value with
    | none => some []
    | some columns => ColumnRecord.listOfJson columns
  return ⟨runId, range, key, kind, valuesRedacted, columns⟩

@[simp] theorem jsonField_nil (name : String) : jsonField name (jsonObject []) = none := rfl

@[simp] theorem jsonField_cons (name other : String) (value : Json.Value)
    (fields : List (String × Json.Value)) :
    jsonField name (jsonObject ((other, value) :: fields)) =
      if other = name then some value else jsonField name (jsonObject fields) := by
  show (if other.toList = name.toList then some value else jsonField name (jsonObject fields)) = _
  by_cases h : other = name
  · rw [if_pos h, if_pos (congrArg String.toList h)]
  · rw [if_neg h, if_neg fun e => h (String.toList_inj.1 e)]

@[simp] theorem jsonText_jsonString (text : String) : jsonText (jsonString text) = some text := by
  rw [jsonText.eq_def, jsonString]
  exact congrArg some String.ofList_toList

@[simp] theorem jsonElements_jsonArray (elements : List Json.Value) :
    jsonElements (jsonArray elements) = some elements :=
  congrArg some (Json.Values.toList_ofList elements)

theorem mapM_map_of_inverse {α β : Type*} {f : α → β} {g : β → Option α}
    (h : ∀ a, g (f a) = some a) (list : List α) : (list.map f).mapM g = some list := by
  induction list with
  | nil => rfl
  | cons a list ih =>
    rw [map_cons, mapM_cons, h, ih]
    rfl

@[simp] theorem DiscrepancyKind.parse_asStr (kind : DiscrepancyKind) :
    parse kind.asStr = some kind := by
  cases kind <;> decide

@[simp] theorem RunId.ofJson_number (id : RunId) :
    ofJson (.number (.ofInt id.raw.toInt)) = some id := by
  rw [ofJson, Json.Number.parseI64_ofInt, Option.map_some, Int64.ofInt_toInt]

@[simp] theorem EventRange.ofJson_toJson (range : EventRange) :
    ofJson range.toJson = some range := by
  simp [ofJson, toJson]

theorem ColumnRecord.ofJson_toJson (record : ColumnRecord) :
    ofJson record.toJson = some record := by
  obtain ⟨column, origin, target, error⟩ := record
  cases error with
  | none => simp [ofJson, toJson]
  | some error => simp [ofJson, toJson]

/-- A record is read back from its JSON value. -/
theorem DiscrepancyRecord.ofJson_toJson (record : DiscrepancyRecord) :
    ofJson record.toJson = some record := by
  obtain ⟨runId, range, key, kind, valuesRedacted, columns⟩ := record
  have hcolumns := mapM_map_of_inverse ColumnRecord.ofJson_toJson columns
  cases columns with
  | nil => simp [ofJson, toJson]
  | cons column columns =>
    rw [map_cons] at hcolumns
    simp [ofJson, toJson, ColumnRecord.listOfJson, hcolumns]

/-! ### Comma-separated values -/

/-- A field, in quotation marks where it needs them. -/
def csvField (value : String) : List Char :=
  if value.toList.any fun c => c = ',' || c = '\x22' || c = '\n' || c = '\r' then
    '\x22' :: (Text.doubled '\x22' value.toList ++ ['\x22'])
  else value.toList

/-- One row per differing column, and one for a discrepancy that has none. -/
def DiscrepancyRecord.csvRows (record : DiscrepancyRecord) : List Char :=
  let start := (toString record.runId).toList ++ ',' :: (csvField record.range.min ++
    ',' :: (csvField record.range.max ++ ',' :: (csvField record.key ++
      ',' :: record.kind.asStr.toList)))
  if record.columns.isEmpty then start ++ [',', ',', ',', ',', '\n']
  else record.columns.flatMap fun column => start ++ ',' :: (csvField column.column ++
    ',' :: (csvField column.origin ++ ',' :: (csvField column.target ++
      ',' :: (csvField (column.error.getD "") ++ ['\n']))))

/-- The header a report of rows opens with. -/
def csvHeader : List Char :=
  "run_id,range_min,range_max,key,kind,column,origin,target,error\n".toList

def csvNames : List String :=
  ["run_id", "range_min", "range_max", "key", "kind", "column", "origin", "target", "error"]

/-- The fields of the rows. -/
def DiscrepancyRecord.csvFields (record : DiscrepancyRecord) : List (List String) :=
  let start := [toString record.runId, record.range.min, record.range.max, record.key,
    record.kind.asStr]
  if record.columns.isEmpty then [start ++ ["", "", "", ""]]
  else record.columns.map fun column =>
    start ++ [column.column, column.origin, column.target, column.error.getD ""]

def csvLine (values : List String) : List Char := Csv.line (values.map String.toList)

theorem csvField_eq (value : String) : csvField value = Csv.field value.toList := rfl

theorem csvHeader_eq : csvHeader = csvLine csvNames := by decide

/-- A text without special characters is a field as it is. -/
theorem csvField_of_plain {value : String} (h : ∀ c ∈ value.toList, Csv.isSpecial c = false) :
    Csv.field value.toList = value.toList := by
  rw [Csv.field, if_neg]
  rw [Bool.not_eq_true, any_eq_false]
  intro c hc
  rw [h c hc]
  exact Bool.false_ne_true

theorem csvField_runId (id : RunId) :
    Csv.field (toString id).toList = (toString id).toList := by
  refine csvField_of_plain fun c hc => ?_
  have hdigit : ∀ n : ℕ, c ∈ Nat.toDigits 10 n → Csv.isSpecial c = false := by
    intro n hn
    have hdigit := Json.isDigit_toDigits n c hn
    have hne : ∀ d : Char, d.isDigit = false → c ≠ d := by
      rintro d hd rfl
      rw [hdigit] at hd
      cases hd
    rw [Csv.isSpecial]
    simp [hne ',' (by decide), hne '\x22' (by decide), hne '\n' (by decide), hne '\r' (by decide)]
  have htext : (toString id).toList = (toString id.raw.toInt).toList := rfl
  rw [htext, Json.toList_toString] at hc
  split_ifs at hc
  · rcases mem_cons.1 hc with rfl | hc
    · decide
    · exact hdigit _ hc
  · exact hdigit _ hc

theorem csvField_asStr (kind : DiscrepancyKind) :
    Csv.field kind.asStr.toList = kind.asStr.toList := by
  cases kind <;> decide

/-- The rows are the lines of their fields. -/
theorem DiscrepancyRecord.csvRows_eq (record : DiscrepancyRecord) :
    record.csvRows = record.csvFields.flatMap csvLine := by
  rw [csvRows, csvFields]
  split_ifs
  · simp [csvLine, Csv.line, csvField_eq, csvField_runId, csvField_asStr]
    rfl
  · rw [flatMap_map]
    refine flatMap_congr fun column _ => ?_
    simp [csvLine, Csv.line, csvField_eq, csvField_runId, csvField_asStr]

/-! ### The text of a record -/

/-- The text of a record, with the separator that its position requires. -/
def DiscrepancyRecord.serialise (format : ReportFormat) (record : DiscrepancyRecord)
    (written : ℕ) : List Char :=
  match format with
  | .none => []
  | .ndjson => Json.print .compact 0 record.toJson ++ ['\n']
  | .json =>
    let body := Json.print .pretty 0 record.toJson
    let indented := List.intercalate ['\n', ' ', ' '] (Text.lines body)
    if written = 0 then ['[', '\n', ' ', ' '] ++ indented
    else [',', '\n', ' ', ' '] ++ indented
  | .csv => record.csvRows

theorem getLast?_print_toJson (record : DiscrepancyRecord) :
    (Json.print .pretty 0 record.toJson).getLast? = some '}' := by
  rw [DiscrepancyRecord.toJson, jsonObject, Json.print_object _ _ (by nofun), ← cons_append]
  exact getLast?_concat

/-- The lines of the body, with two blanks before all but the first, are the body one deeper. -/
theorem intercalate_lines_toJson (record : DiscrepancyRecord) :
    List.intercalate ['\n', ' ', ' '] (Text.lines (Json.print .pretty 0 record.toJson)) =
      Json.print .pretty 1 record.toJson := by
  have hreturn : '\r' ∉ Json.print .pretty 0 record.toJson := by
    intro hmem
    have hallowed := Json.mem_print (p := fun c => decide (c = '\n' ∨ 0x20 ≤ c.toNat))
      (fun c hc => decide_eq_true (.inr hc)) (fun depth c hc => ?_) (fun c hc => ?_) hmem
    · exact absurd hallowed (by decide)
    · rcases mem_cons.1 hc with rfl | hc
      · decide
      · rw [eq_of_mem_replicate hc]
        decide
    · rw [mem_singleton.1 hc]
      decide
  have hend : (Json.print .pretty 0 record.toJson).getLast? ≠ some '\n' := by
    rw [getLast?_print_toJson]
    decide
  rw [Json.intercalate_lines hreturn hend, Json.indent_print]

/-- A record on one line. -/
theorem not_mem_print_compact {c : Char} (h : c.toNat < 0x20) (record : DiscrepancyRecord) :
    c ∉ Json.print .compact 0 record.toJson := by
  intro hmem
  have hallowed := Json.mem_print (p := fun c => decide (0x20 ≤ c.toNat))
    (fun c hc => decide_eq_true hc) (fun _ c hc => absurd hc not_mem_nil)
    (fun c hc => absurd hc not_mem_nil) hmem
  exact absurd (of_decide_eq_true hallowed) (not_le.2 h)

theorem DiscrepancyRecord.serialise_ne_nil {format : ReportFormat} (h : format ≠ .none)
    (record : DiscrepancyRecord) (written : ℕ) : record.serialise format written ≠ [] := by
  cases format with
  | none => exact absurd rfl h
  | ndjson => exact append_ne_nil_of_right_ne_nil _ (cons_ne_nil _ _)
  | json =>
    rw [serialise]
    split_ifs <;> exact cons_ne_nil _ _
  | csv =>
    rw [serialise, csvRows]
    split_ifs with hcolumns
    · simp
    · intro hnil
      rw [flatMap_eq_nil_iff] at hnil
      obtain ⟨column, hcolumn⟩ := exists_mem_of_ne_nil _ (by simpa using hcolumns)
      have := hnil column hcolumn
      simp at this

end Cdm
