import Cdm.Codec.Codecset
import Cdm.Jobs.Compare

/-!
# What a discrepancy discloses

A mismatch is written to the diff log, with every value position redacted, and to the discrepancy
report, where with `redact_values` a value is replaced by a digest.  Whether a value is null is not
hidden, and neither are the differing columns, nor the primary key.

`Discreet` says that nothing else can be told from either: two comparisons that agree in the key, in
which cells are null, and in which columns differ how, are logged and reported alike, up to the
digests.  It is a statement about two runs of the comparison.  The one thing that stands in its way
is the text of an error, which is carried into both places as it is.
-/

namespace Cdm

open Fallible List

/-! ### The diff log -/

/-- What one value position renders as. -/
def redacted : String := "<redacted>"

namespace ColumnDifference

/-- This column's fragment of the detail. -/
def render (difference : ColumnDifference) : String :=
  match difference.kind with
  | .value false =>
    s!"Target column:{difference.column}-origin[{redacted}]-target[{redacted}]; "
  | .value true => s!"Target column:{difference.column}-origin[{redacted}]-target[null]; "
  | .originNull => s!"Target column:{difference.column} origin is null, target is {redacted}; "
  | .error message targetIndex originIndex =>
    s!"Target column:{difference.column} Exception {message} targetIndex:{targetIndex} " ++
      s!"originIndex:{originIndex}; "

/-- Why the column could not be compared at all, when that is what happened. -/
def error (difference : ColumnDifference) : Option String :=
  match difference.kind with
  | .error message _ _ => some message
  | _ => none

end ColumnDifference

/-- The detail string of a mismatch. -/
def Mismatch.detail (differences : List ColumnDifference) : String :=
  String.join (differences.map ColumnDifference.render)

/-- The message of a mismatch in the diff log, behind the time and the label of the range. -/
def DiffLog.mismatch (key : PrimaryKey) (detail : String) : String :=
  s!"Mismatch row found for key: {key} Mismatch: {detail}"

/-! ### The discrepancy report -/

/-- The FNV-1a 64-bit digest of a text, as sixteen hexadecimal characters. -/
def fingerprint (key : String) : String :=
  let hash : UInt64 := key.toUTF8.data.toList.foldl
    (fun hash byte => (hash ^^^ byte.toUInt64) * 0x100000001b3) 0xcbf29ce484222325
  String.ofList ((List.range 16).map fun i => Text.hexDigit (hash.toNat / 16 ^ (15 - i) % 16))

/-- What a validate run found. -/
inductive DiscrepancyKind
  | missing
  | correctedMissing
  | mismatch
  | correctedMismatch
  deriving DecidableEq, Repr

/-- A range, with its bounds in decimal. -/
structure EventRange where
  min : String
  max : String
  deriving DecidableEq

/-- One differing column within a discrepancy. -/
structure ColumnRecord where
  column : String
  origin : String
  target : String
  error : Option String
  deriving DecidableEq

/-- One discrepancy, as the report records it. -/
structure DiscrepancyRecord where
  runId : RunId
  range : EventRange
  key : String
  kind : DiscrepancyKind
  valuesRedacted : Bool
  columns : List ColumnRecord
  deriving DecidableEq

/-- The report's settings. -/
structure DiscrepancyReport where
  runId : RunId
  redactValues : Bool

namespace DiscrepancyReport

variable (report : DiscrepancyReport)

/-- The start of a redacted value. -/
def redactedPrefix : String := "fnv1a64:"

/-- One value position, under the redaction policy. -/
def render : RawCell → String
  | none => "null"
  | some bytes =>
    let rendered := RawCell.render (some bytes)
    if report.redactValues then redactedPrefix ++ fingerprint rendered else rendered

def columnRecord (difference : ColumnDifference) : ColumnRecord where
  column := difference.column
  origin := report.render difference.origin
  target := report.render difference.target
  error := difference.error

/-- Builds a record. -/
def build (range : TokenRange) (key : PrimaryKey) (kind : DiscrepancyKind)
    (mismatch : Option (List ColumnDifference)) : DiscrepancyRecord where
  runId := report.runId
  range := ⟨toString range.min, toString range.max⟩
  key := toString key
  kind := kind
  valuesRedacted := report.redactValues
  columns := (mismatch.getD []).map report.columnRecord

end DiscrepancyReport

/-- The two fields are the same, or both of them digests. -/
def SameUpToDigest (a b : String) : Prop :=
  a = b ∨ ∃ x y, a = DiscrepancyReport.redactedPrefix ++ x ∧ b = DiscrepancyReport.redactedPrefix ++ y

structure ColumnRecord.SameUpToDigests (a b : ColumnRecord) : Prop where
  column : a.column = b.column
  origin : SameUpToDigest a.origin b.origin
  target : SameUpToDigest a.target b.target
  error : a.error = b.error

/-- Two records differ in nothing but the digests of their values. -/
structure DiscrepancyRecord.SameUpToDigests (a b : DiscrepancyRecord) : Prop where
  runId : a.runId = b.runId
  range : a.range = b.range
  key : a.key = b.key
  kind : a.kind = b.kind
  valuesRedacted : a.valuesRedacted = b.valuesRedacted
  columns : List.Forall₂ ColumnRecord.SameUpToDigests a.columns b.columns

/-! ### What may be disclosed -/

/-- What kind of difference it is. -/
inductive DifferenceForm
  | value (targetIsNull : Bool)
  | originNull
  | error
  deriving DecidableEq, Repr

def DifferenceKind.form : DifferenceKind → DifferenceForm
  | .value targetIsNull => .value targetIsNull
  | .originNull => .originNull
  | .error _ _ _ => .error

/-- A record, and the target row fetched for it. -/
structure Compared where
  record : Record
  target : Row

namespace ComparisonPlan

/-- What columns contribute in the same places can be compared column by column. -/
theorem forall₂_filterMap_iff {α β : Type} {f g : α → Option β} {R : β → β → Prop} {xs : List α}
    (h : ∀ x ∈ xs, (f x).isSome = (g x).isSome) :
    List.Forall₂ R (xs.filterMap f) (xs.filterMap g) ↔
      ∀ x ∈ xs, ∀ y z, f x = some y → g x = some z → R y z := by
  induction xs with
  | nil => simp
  | cons x xs ih =>
    rw [forall_mem_cons] at h ⊢
    obtain ⟨hx, hxs⟩ := h
    rw [← ih hxs, filterMap_cons, filterMap_cons]
    cases hf : f x with
    | none =>
      cases hg : g x with
      | none => simp
      | some z =>
        rw [hf, hg] at hx
        cases hx
    | some y =>
      cases hg : g x with
      | none =>
        rw [hf, hg] at hx
        cases hx
      | some z => simp

/-- Whether the column at a position is part of the primary key. -/
def IsKeyAt (columns : List ColumnMeta) (index : ℕ) : Prop :=
  ∃ column, columns[index]? = some column ∧ column.kind.isKey = true

/-- The two have the same key: the record's, and the key cells on both sides. -/
structure SameKey (mapping : ColumnMapping) (a b : Compared) : Prop where
  key : a.record.key = b.record.key
  origin : ∀ index, IsKeyAt mapping.originColumns index →
    a.record.origin.cells[index]? = b.record.origin.cells[index]?
  target : ∀ index, IsKeyAt mapping.targetColumns index →
    a.target.cells[index]? = b.target.cells[index]?

/-- The same cells are null. -/
structure SameNullness (a b : Compared) : Prop where
  origin : a.record.origin.cells.map Option.isSome = b.record.origin.cells.map Option.isSome
  target : a.target.cells.map Option.isSome = b.target.cells.map Option.isSome
  exploded : a.record.exploded.map (fun entry => (entry.key.isSome, entry.value.isSome)) =
    b.record.exploded.map fun entry => (entry.key.isSome, entry.value.isSome)

/-! ### Columns that disclose the same -/

/-- Two differences look the same once their values are redacted. -/
structure SameDisclosure (d e : ColumnDifference) : Prop where
  column : d.column = e.column
  origin : d.origin.isSome = e.origin.isSome
  target : d.target.isSome = e.target.isSome
  kind : d.kind = e.kind

/-- What a comparison of two values contributes, from its form. -/
theorem compareValues_eq_some {column : ColumnCompare} {origin target : RawCell} {originIndex : ℤ}
    {d : ColumnDifference} (h : compareValues column origin target originIndex = some d) :
    d.column = column.name ∧ d.origin = origin ∧ d.target = target ∧
      (d.kind = .originNull ∧ origin.isSome = false ∧ target.isSome = true ∨
        (∃ null, d.kind = .value null ∧ origin.isSome = true ∧ target.isSome = !null) ∨
        ∃ current e, target = some current ∧ converted column current = .error e ∧
          origin.isSome = true ∧ d.kind = .error (toString e) column.targetIndex originIndex) := by
  cases origin with
  | none =>
    cases target with
    | none => cases h
    | some current =>
      cases h
      exact ⟨rfl, rfl, rfl, .inl ⟨rfl, rfl, rfl⟩⟩
  | some bytes =>
    cases target with
    | none =>
      cases h
      exact ⟨rfl, rfl, rfl, .inr (.inl ⟨true, rfl, rfl, rfl⟩)⟩
    | some current =>
      simp only [compareValues] at h
      cases hconverted : converted column current with
      | error e =>
        rw [hconverted] at h
        cases h
        exact ⟨rfl, rfl, rfl, .inr (.inr ⟨current, e, rfl, hconverted, rfl, rfl⟩)⟩
      | ok cell =>
        rw [hconverted] at h
        dsimp only at h
        split_ifs at h
        cases h
        exact ⟨rfl, rfl, rfl, .inr (.inl ⟨false, rfl, rfl, rfl⟩)⟩

/-- Comparisons of one form disclose the same, unless they fail with different texts. -/
theorem sameDisclosure_of_compareValues {column : ColumnCompare} {origin origin' target target' : RawCell}
    {originIndex : ℤ} {d e : ColumnDifference}
    (hd : compareValues column origin target originIndex = some d)
    (he : compareValues column origin' target' originIndex = some e)
    (hform : d.kind.form = e.kind.form)
    (htext : ∀ current current' f f', target = some current → target' = some current' →
      converted column current = .error f → converted column current' = .error f' →
      toString f = toString f') : SameDisclosure d e := by
  obtain ⟨hdc, rfl, rfl, hdk⟩ := compareValues_eq_some hd
  obtain ⟨hec, rfl, rfl, hek⟩ := compareValues_eq_some he
  refine ⟨hdc.trans hec.symm, ?_, ?_, ?_⟩
  all_goals
    rcases hdk with ⟨hk, ho, ht⟩ | ⟨null, hk, ho, ht⟩ | ⟨current, f, ht, hf, ho, hk⟩ <;>
    rcases hek with ⟨hk', ho', ht'⟩ | ⟨null', hk', ho', ht'⟩ | ⟨current', f', ht', hf', ho', hk'⟩ <;>
    rw [hk, hk'] at hform <;> cases hform
  · rw [ho, ho']
  · rw [ho, ho']
  · rw [ho, ho']
  · rw [ht, ht']
  · rw [ht, ht']
  · rw [ht, ht']
    rfl
  · rw [hk, hk']
  · rw [hk, hk']
  · rw [hk, hk', htext current current' f f' ht ht' hf hf']

/-- A column that is not converted does not fail. -/
theorem form_ne_error_of_passthrough {column : ColumnCompare} (hplan : column.plan = .passthrough)
    {origin target : RawCell} {originIndex : ℤ} {d : ColumnDifference}
    (h : compareValues column origin target originIndex = some d) : d.kind.form ≠ .error := by
  obtain ⟨-, -, -, ⟨hk, -⟩ | ⟨null, hk, -⟩ | ⟨current, e, -, he, -⟩⟩ := compareValues_eq_some h
  · simp [hk, DifferenceKind.form]
  · simp [hk, DifferenceKind.form]
  · rw [converted, hplan] at he
    cases he

theorem SameDisclosure.render_eq {d e : ColumnDifference} (h : SameDisclosure d e) :
    d.render = e.render := by
  rw [ColumnDifference.render, ColumnDifference.render, h.column, h.kind]

theorem detail_eq {ds es : List ColumnDifference} (h : List.Forall₂ SameDisclosure ds es) :
    Mismatch.detail ds = Mismatch.detail es := by
  have hrender : ds.map ColumnDifference.render = es.map ColumnDifference.render := by
    induction h with
    | nil => rfl
    | cons hd _ ih => rw [map_cons, map_cons, hd.render_eq, ih]
  rw [Mismatch.detail, Mismatch.detail, hrender]

/-- A redacted cell shows whether it is null. -/
theorem sameUpToDigest_render {report : DiscrepancyReport} (hredact : report.redactValues = true)
    {cell cell' : RawCell} (h : cell.isSome = cell'.isSome) :
    SameUpToDigest (report.render cell) (report.render cell') := by
  cases cell with
  | none =>
    cases cell' with
    | none => exact .inl rfl
    | some bytes' => cases h
  | some bytes =>
    cases cell' with
    | none => cases h
    | some bytes' =>
      rw [DiscrepancyReport.render, DiscrepancyReport.render, hredact]
      exact .inr ⟨_, _, rfl, rfl⟩

theorem SameDisclosure.columnRecord {report : DiscrepancyReport}
    (hredact : report.redactValues = true) {d e : ColumnDifference} (h : SameDisclosure d e) :
    (report.columnRecord d).SameUpToDigests (report.columnRecord e) where
  column := h.column
  origin := sameUpToDigest_render hredact h.origin
  target := sameUpToDigest_render hredact h.target
  error := by
    show d.error = e.error
    rw [ColumnDifference.error, ColumnDifference.error, h.kind]

theorem isSome_getElem?_eq {cells cells' : List RawCell}
    (h : cells.map Option.isSome = cells'.map Option.isSome) (index : ℕ) :
    cells[index]?.map Option.isSome = cells'[index]?.map Option.isSome := by
  rw [← getElem?_map, ← getElem?_map, h]

theorem isSome_join_eq {cells cells' : List RawCell}
    (h : cells.map Option.isSome = cells'.map Option.isSome) (index : ℕ) :
    (cells[index]?).join.isSome = (cells'[index]?).join.isSome := by
  have hjoin (cell : Option RawCell) : cell.join.isSome = (cell.map Option.isSome).getD false := by
    rcases cell with _ | _ | _ <;> rfl
  rw [hjoin, hjoin, isSome_getElem?_eq h]

/-- A row of nulls with one value in it. -/
def oneCell (width index : ℕ) (bytes : Bytes) : Row :=
  ⟨(List.replicate width none).set index (some bytes)⟩

theorem getElem?_oneCell_self {width index : ℕ} (h : index < width) (bytes : Bytes) :
    (oneCell width index bytes).cells[index]? = some (some bytes) := by
  simp [oneCell, h]

theorem getElem?_oneCell_ne {width index other : ℕ} (h : index ≠ other) (bytes bytes' : Bytes) :
    (oneCell width index bytes).cells[other]? = (oneCell width index bytes').cells[other]? := by
  rw [oneCell, oneCell, getElem?_set_ne h, getElem?_set_ne h]

theorem map_isSome_oneCell (width index : ℕ) (bytes bytes' : Bytes) :
    (oneCell width index bytes).cells.map Option.isSome =
      (oneCell width index bytes').cells.map Option.isSome := by
  rw [oneCell, oneCell, map_set, map_set]
  rfl

/-! ### Resolved plans -/

section Resolved

variable [AlphanumericTable] {mapping : ColumnMapping} {planner : Planner}
  {extractJson : Option ExtractJsonPlan} {extractJsonOverwrites : Bool} {plan : ComparisonPlan}

/-- A column stands at its index, and is converted only if it is mapped. -/
theorem resolved_getElem?
    (h : resolve mapping planner extractJson extractJsonOverwrites = .ok plan) {index : ℕ}
    {column : ColumnCompare} (hcolumn : plan.columns[index]? = some column) :
    column.targetIndex = index ∧
      ((∀ i, column.rule ≠ .mapped i) → column.plan = .passthrough) := by
  obtain ⟨columns, hcolumns, h⟩ := bind_eq_ok.1 h
  cases h
  obtain ⟨⟨target, i⟩, hget, hres⟩ := mapM_getElem? hcolumns index hcolumn
  rw [getElem?_zipIdx] at hget
  obtain ⟨_, -, heq⟩ := Option.map_eq_some_iff.1 hget
  obtain ⟨-, hi⟩ := Prod.mk.inj heq
  obtain ⟨_, -, hres⟩ := bind_eq_ok.1 hres
  obtain ⟨⟨rule, conversion⟩, hrule, hres⟩ := bind_eq_ok.1 hres
  cases hres
  refine ⟨by rw [← hi, Nat.zero_add], ?_⟩
  intro hmapped
  unfold ruleFor at hrule
  split at hrule
  case h_2 =>
    -- the column is mapped
    split at hrule
    · cases hrule
    · obtain ⟨_, -, heq⟩ := map_eq_ok.1 hrule
      cases heq
      exact absurd rfl (hmapped _)
  all_goals
    cases hrule
    rfl

theorem resolved_keysOnly
    (h : resolve mapping planner extractJson extractJsonOverwrites = .ok plan) :
    plan.keysOnly = false := by
  obtain ⟨columns, -, h⟩ := bind_eq_ok.1 h
  cases h
  rfl

theorem resolveColumn_eq_ok {column : ColumnMeta} {index : ℕ} {resolved : ColumnCompare}
    (h : resolveColumn mapping planner (column, index) = .ok resolved) :
    resolved.targetIndex = index ∧ ∃ target, CqlTypeInfo.parse column.cqlType = .ok target ∧
      ruleFor mapping planner target ((mapping.source index).getD .absent) =
        .ok (resolved.rule, resolved.plan) := by
  obtain ⟨target, htarget, h⟩ := bind_eq_ok.1 h
  obtain ⟨⟨rule, conversion⟩, hrule, h⟩ := bind_eq_ok.1 h
  cases h
  exact ⟨rfl, target, mapError_eq_ok.1 htarget, hrule⟩

theorem ruleFor_eq_ok_iff {target : CqlTypeInfo} {source : Option TargetSource}
    {rule : CompareRule} {conversion : ConversionPlan}
    (h : ruleFor mapping planner target (source.getD .absent) = .ok (rule, conversion)) :
    (∀ index, rule = .mapped index ↔ source = some (.origin index)) ∧
      (rule = .extractJson ↔ ∃ name, source = some (.extractJson name)) ∧
      ∀ index, source = some (.origin index) → ∃ column origin,
        mapping.originColumns[index]? = some column ∧
        CqlTypeInfo.parse column.cqlType = .ok origin ∧
        conversion = planner.planTypes target origin := by
  rcases source with _ | source
  · cases h
    simp
  cases source with
  | origin index =>
    rw [Option.getD_some, ruleFor] at h
    split at h
    · cases h
    · next column hcolumn =>
      obtain ⟨origin, horigin, heq⟩ := map_eq_ok.1 h
      cases heq
      refine ⟨by simp, by simp, ?_⟩
      rintro _ ⟨⟩
      exact ⟨column, origin, hcolumn, mapError_eq_ok.1 horigin, rfl⟩
  | _ =>
    cases h
    simp

end Resolved

/-! ### What a plan discloses -/

variable [LiteralParsers] [SerdeJson]

/-- What a column contributes for a record and its target row. -/
def difference (plan : ComparisonPlan) (a : Compared) (column : ColumnCompare) :
    Option ColumnDifference :=
  plan.compareColumn a.record a.target column

/-- The same columns differ, in the same way. -/
def SameDifferences (plan : ComparisonPlan) (a b : Compared) : Prop :=
  ∀ column ∈ plan.columns, (plan.difference a column).map (·.kind.form) =
    (plan.difference b column).map (·.kind.form)

/-- No value reaches the diff log or a redacted report: comparisons that agree in all that may be
disclosed are logged alike, and reported alike up to the digests of their values. -/
def Discreet (mapping : ColumnMapping) (plan : ComparisonPlan) : Prop :=
  ∀ a b, SameKey mapping a b → SameNullness a b → plan.SameDifferences a b →
    ∀ ds es, plan.compare a.record (some a.target) = .mismatch ds →
      plan.compare b.record (some b.target) = .mismatch es →
      DiffLog.mismatch a.record.key (Mismatch.detail ds) =
        DiffLog.mismatch b.record.key (Mismatch.detail es) ∧
      ∀ report : DiscrepancyReport, report.redactValues = true → ∀ range kind,
        (report.build range a.record.key kind (some ds)).SameUpToDigests
          (report.build range b.record.key kind (some es))

/-- Outside of the key, the failures of the column say nothing of the values they fail on. -/
structure FailsUniformly (mapping : ColumnMapping) (plan : ComparisonPlan) (column : ColumnCompare) :
    Prop where
  mapped : ∀ originIndex, column.rule = .mapped originIndex →
    ¬IsKeyAt mapping.targetColumns column.targetIndex → OneText (converted column)
  extracted : column.rule = .extractJson → ∀ extract, plan.extractJson = some extract →
    ¬IsKeyAt mapping.originColumns extract.originIndex → ∀ key : PrimaryKey, OneText fun bytes =>
      (extract.extract (some bytes)).mapError fun e => e.withPrimaryKey key

/-! ### Pairs of comparisons -/

section Pairs

variable {mapping : ColumnMapping} {plan : ComparisonPlan} {a b : Compared}

/-- What a mismatch consists of. -/
theorem compare_eq_mismatch_iff (hkeys : plan.keysOnly = false) {ds : List ColumnDifference} :
    plan.compare a.record (some a.target) = .mismatch ds ↔
      ds = plan.columns.filterMap (plan.difference a) ∧ ds ≠ [] := by
  simp only [compare, hkeys, Bool.false_eq_true, if_false]
  split
  · next hnil =>
    have hdifferences : plan.columns.filterMap (plan.difference a) = [] := hnil
    simp [hdifferences]
  · next hcons =>
    have hdifferences : plan.columns.filterMap (plan.difference a) ≠ [] := hcons
    rw [Comparison.mismatch.injEq]
    constructor
    · rintro rfl
      exact ⟨rfl, hdifferences⟩
    · rintro ⟨rfl, -⟩
      rfl

/-- The failure of an extraction comes from the document, unless the record has none. -/
theorem extractRecord_eq_error {extract : ExtractJsonPlan} {record : Record} {e : CdmError}
    (h : extract.extractRecord record = .error e) :
    (record.origin.cells[extract.originIndex]? = none ∧
        record.originCell extract.originIndex = .error e) ∨
      ∃ bytes, record.origin.cells[extract.originIndex]? = some (some bytes) ∧
        (extract.extract (some bytes)).mapError (fun e => e.withPrimaryKey record.key) = .error e := by
  rw [ExtractJsonPlan.extractRecord, Record.originCell] at h
  rw [Record.originCell]
  cases hcell : record.origin.cells[extract.originIndex]? with
  | none =>
    rw [hcell] at h
    simp only [bind, Except.bind] at h
    exact .inl ⟨rfl, by rw [Except.error.inj h]⟩
  | some cell =>
    rw [hcell] at h
    cases cell with
    | none => cases h
    | some bytes => exact .inr ⟨bytes, rfl, h⟩

/-- Extractions from records with one key that both fail, fail with one text. -/
theorem toString_extractRecord_eq {extract : ExtractJsonPlan}
    (htext : ¬IsKeyAt mapping.originColumns extract.originIndex → ∀ key : PrimaryKey,
      OneText fun bytes => (extract.extract (some bytes)).mapError fun e => e.withPrimaryKey key)
    (hkey : SameKey mapping a b) (hnull : SameNullness a b) {e f : CdmError}
    (he : extract.extractRecord a.record = .error e)
    (hf : extract.extractRecord b.record = .error f) : toString e = toString f := by
  have hcell := isSome_getElem?_eq hnull.origin extract.originIndex
  rcases extractRecord_eq_error he with ⟨hnone, he⟩ | ⟨bytes, hbytes, he⟩
  · rcases extractRecord_eq_error hf with ⟨hnone', hf⟩ | ⟨bytes', hbytes', -⟩
    · -- both records are too narrow, and equally so
      have hlen := congrArg List.length hnull.origin
      rw [length_map, length_map] at hlen
      rw [Record.originCell, hnone] at he
      rw [Record.originCell, hnone', ← hlen, ← hkey.key] at hf
      rw [← Except.error.inj he, ← Except.error.inj hf]
    · rw [hnone, hbytes'] at hcell
      cases hcell
  · rcases extractRecord_eq_error hf with ⟨hnone', -⟩ | ⟨bytes', hbytes', hf⟩
    · rw [hbytes, hnone'] at hcell
      cases hcell
    · rw [← hkey.key] at hf
      by_cases hisKey : IsKeyAt mapping.originColumns extract.originIndex
      · have hsame := hkey.origin _ hisKey
        rw [hbytes, hbytes'] at hsame
        cases hsame
        rw [he] at hf
        rw [Except.error.inj hf]
      · exact htext hisKey a.record.key bytes bytes' e f he hf

/-- What comparing the extracted property contributes. -/
theorem compareExtracted_eq_some {column : ColumnCompare} {record : Record} {target : RawCell}
    {d : ColumnDifference} (h : plan.compareExtracted column record target = some d) :
    ∃ extract, plan.extractJson = some extract ∧
      ((∃ extracted, extract.extractRecord record = .ok extracted ∧
          compareValues column extracted.join target extract.originIndex = some d) ∨
        ∃ e, extract.extractRecord record = .error e ∧
          d = ⟨column.name, none, target,
            .error (toString e) column.targetIndex extract.originIndex⟩) := by
  rw [compareExtracted] at h
  split_ifs at h
  cases hextract : plan.extractJson with
  | none =>
    rw [hextract] at h
    cases h
  | some extract =>
    rw [hextract] at h
    dsimp only at h
    cases hrecord : extract.extractRecord record with
    | error e =>
      rw [hrecord] at h
      cases h
      exact ⟨extract, rfl, .inr ⟨e, hrecord, rfl⟩⟩
    | ok extracted =>
      rw [hrecord] at h
      exact ⟨extract, rfl, .inl ⟨extracted, hrecord, h⟩⟩

/-- A column that fails uniformly discloses the same of comparisons that agree in all that may be
disclosed. -/
theorem sameDisclosure_of_failsUniformly {column : ColumnCompare}
    (hfails : plan.FailsUniformly mapping column)
    (hpassthrough : (∀ i, column.rule ≠ .mapped i) → column.plan = .passthrough)
    (hkey : SameKey mapping a b) (hnull : SameNullness a b) {d e : ColumnDifference}
    (hd : plan.difference a column = some d) (he : plan.difference b column = some e)
    (hform : d.kind.form = e.kind.form) : SameDisclosure d e := by
  have htarget := isSome_join_eq hnull.target column.targetIndex
  rw [difference, compareColumn] at hd he
  cases hrule : column.rule with
  | constant =>
    rw [hrule] at hd
    cases hd
  | unsourced =>
    rw [hrule] at hd he
    refine sameDisclosure_of_compareValues hd he hform ?_
    intro current current' f f' _ _ hf _
    rw [converted, hpassthrough (by simp [hrule])] at hf
    cases hf
  | exploded half =>
    rw [hrule] at hd he
    dsimp only at hd he
    have hexploded := hnull.exploded
    cases ha : a.record.exploded with
    | none =>
      cases hb : b.record.exploded with
      | none =>
        rw [ha] at hd
        rw [hb] at he
        cases hd
        cases he
        exact ⟨rfl, rfl, htarget, rfl⟩
      | some entry =>
        rw [ha, hb] at hexploded
        cases hexploded
    | some entry =>
      cases hb : b.record.exploded with
      | none =>
        rw [ha, hb] at hexploded
        cases hexploded
      | some entry' =>
        rw [ha] at hd
        rw [hb] at he
        refine sameDisclosure_of_compareValues hd he hform ?_
        intro current current' f f' _ _ hf _
        rw [converted, hpassthrough (by simp [hrule])] at hf
        cases hf
  | mapped originIndex =>
    rw [hrule] at hd he
    dsimp only at hd he
    have horigin := isSome_getElem?_eq hnull.origin originIndex
    cases ha : a.record.origin.cells[originIndex]? with
    | none =>
      cases hb : b.record.origin.cells[originIndex]? with
      | none =>
        rw [ha] at hd
        rw [hb] at he
        cases hd
        cases he
        exact ⟨rfl, rfl, htarget, rfl⟩
      | some cell =>
        rw [ha, hb] at horigin
        cases horigin
    | some cell =>
      cases hb : b.record.origin.cells[originIndex]? with
      | none =>
        rw [ha, hb] at horigin
        cases horigin
      | some cell' =>
        rw [ha] at hd
        rw [hb] at he
        refine sameDisclosure_of_compareValues hd he hform ?_
        intro current current' f f' hcurrent hcurrent' hf hf'
        by_cases hisKey : IsKeyAt mapping.targetColumns column.targetIndex
        · rw [hkey.target _ hisKey, hcurrent'] at hcurrent
          cases hcurrent
          rw [hf] at hf'
          rw [Except.error.inj hf']
        · exact hfails.mapped originIndex hrule hisKey current current' f f' hf hf'
  | extractJson =>
    rw [hrule] at hd he
    have hplan := hpassthrough (by simp [hrule])
    obtain ⟨extract, hextract, ⟨x, hx, hd⟩ | ⟨f, hf, rfl⟩⟩ := compareExtracted_eq_some hd
    · obtain ⟨extract', hextract', ⟨y, hy, he⟩ | ⟨f', hf', rfl⟩⟩ := compareExtracted_eq_some he
      · cases hextract.symm.trans hextract'
        refine sameDisclosure_of_compareValues hd he hform ?_
        intro current current' f f' _ _ hf _
        rw [converted, hplan] at hf
        cases hf
      · exact absurd hform (form_ne_error_of_passthrough hplan hd)
    · obtain ⟨extract', hextract', ⟨y, hy, he⟩ | ⟨f', hf', rfl⟩⟩ := compareExtracted_eq_some he
      · exact absurd hform.symm (form_ne_error_of_passthrough hplan he)
      · cases hextract.symm.trans hextract'
        have htext := toString_extractRecord_eq (hfails.extracted hrule extract hextract) hkey hnull
          hf hf'
        exact ⟨rfl, rfl, htarget, by rw [htext]⟩

theorem SameDifferences.isSome_eq (h : plan.SameDifferences a b) {column : ColumnCompare}
    (hmem : column ∈ plan.columns) :
    (plan.difference a column).isSome = (plan.difference b column).isSome := by
  have hform := congrArg Option.isSome (h column hmem)
  rwa [Option.isSome_map, Option.isSome_map] at hform

theorem SameDifferences.form_eq (h : plan.SameDifferences a b) {column : ColumnCompare}
    (hmem : column ∈ plan.columns) {d e : ColumnDifference}
    (hd : plan.difference a column = some d) (he : plan.difference b column = some e) :
    d.kind.form = e.kind.form := by
  have hform := h column hmem
  rw [hd, he] at hform
  exact Option.some.inj hform

/-- A discreet plan reports the same errors for comparisons that agree in all that may be
disclosed. -/
theorem Discreet.error_eq (hdiscreet : plan.Discreet mapping) (hkeys : plan.keysOnly = false)
    {a b : Compared} (hkey : SameKey mapping a b) (hnull : SameNullness a b)
    (hsame : plan.SameDifferences a b) {column : ColumnCompare} (hmem : column ∈ plan.columns)
    {d e : ColumnDifference} (hd : plan.difference a column = some d)
    (he : plan.difference b column = some e) : d.error = e.error := by
  have hmismatch {c : Compared} {d : ColumnDifference} (hd : plan.difference c column = some d) :
      plan.compare c.record (some c.target) =
        .mismatch (plan.columns.filterMap (plan.difference c)) := by
    rw [compare_eq_mismatch_iff hkeys]
    exact ⟨rfl, ne_nil_of_mem (mem_filterMap.2 ⟨column, hmem, hd⟩)⟩
  have hreport := (hdiscreet a b hkey hnull hsame _ _ (hmismatch hd) (hmismatch he)).2
    ⟨⟨0⟩, true⟩ rfl ⟨0, 0, le_rfl, by decide, by decide⟩ .mismatch
  have hall := forall₂_map_right_iff.1 (forall₂_map_left_iff.1 hreport.columns)
  rw [Option.getD_some, Option.getD_some,
    forall₂_filterMap_iff fun column hmem => hsame.isSome_eq hmem] at hall
  exact (hall column hmem d e hd he).error

end Pairs

section Discreet

variable [AlphanumericTable] {mapping : ColumnMapping} {planner : Planner}
  {extractJson : Option ExtractJsonPlan} {extractJsonOverwrites : Bool} {plan : ComparisonPlan}

/-- A plan whose columns fail uniformly is discreet. -/
theorem discreet_of_failsUniformly
    (hplan : resolve mapping planner extractJson extractJsonOverwrites = .ok plan)
    (hfails : ∀ column ∈ plan.columns, plan.FailsUniformly mapping column) :
    plan.Discreet mapping := by
  intro a b hkey hnull hsame ds es hds hes
  have hkeys := resolved_keysOnly hplan
  obtain ⟨rfl, -⟩ := (compare_eq_mismatch_iff hkeys).1 hds
  obtain ⟨rfl, -⟩ := (compare_eq_mismatch_iff hkeys).1 hes
  have hall : List.Forall₂ SameDisclosure (plan.columns.filterMap (plan.difference a))
      (plan.columns.filterMap (plan.difference b)) := by
    rw [forall₂_filterMap_iff fun column hmem => hsame.isSome_eq hmem]
    intro column hmem d e hd he
    obtain ⟨index, hindex⟩ := mem_iff_getElem?.1 hmem
    exact sameDisclosure_of_failsUniformly (hfails column hmem) (resolved_getElem? hplan hindex).2
      hkey hnull hd he (hsame.form_eq hmem hd he)
  refine ⟨by rw [detail_eq hall, hkey.key], ?_⟩
  intro report hredact range kind
  refine ⟨rfl, rfl, by rw [DiscrepancyReport.build, hkey.key]; rfl, rfl, rfl, ?_⟩
  exact forall₂_map_left_iff.2 (forall₂_map_right_iff.2
    (hall.imp fun _ _ h => h.columnRecord hredact))

/-- A column of a discreet plan has one text for all values its conversion fails on: two target rows
that differ in that value alone would be told apart by it. -/
theorem Discreet.oneText_converted
    (hplan : resolve mapping planner extractJson extractJsonOverwrites = .ok plan)
    (hdiscreet : plan.Discreet mapping) {column : ColumnCompare} (hmem : column ∈ plan.columns)
    {originIndex : ℕ} (hrule : column.rule = .mapped originIndex)
    (hkey : ¬IsKeyAt mapping.targetColumns column.targetIndex) : OneText (converted column) := by
  intro bytes bytes' e e' he he'
  let record : Record := .new ⟨[]⟩ (oneCell (originIndex + 1) originIndex [])
  let pair (current : Bytes) : Compared :=
    ⟨record, oneCell (column.targetIndex + 1) column.targetIndex current⟩
  have hdifference {current : Bytes} {f : CdmError} (hf : converted column current = .error f) :
      plan.difference (pair current) column = some ⟨column.name, some [], some current,
        .error (toString f) column.targetIndex originIndex⟩ := by
    rw [difference, compareColumn, hrule]
    dsimp only
    rw [show record.origin.cells[originIndex]? = some (some []) from
        getElem?_oneCell_self (Nat.lt_succ_self _) _,
      show (pair current).target.cells[column.targetIndex]? = some (some current) from
        getElem?_oneCell_self (Nat.lt_succ_self _) _]
    simp only [Option.join_some, compareValues, hf]
  have hsame : plan.SameDifferences (pair bytes) (pair bytes') := by
    intro other hother
    by_cases hindex : column.targetIndex = other.targetIndex
    · -- no two columns of the plan stand at one index
      obtain ⟨i, hi⟩ := mem_iff_getElem?.1 hmem
      obtain ⟨j, hj⟩ := mem_iff_getElem?.1 hother
      rw [(resolved_getElem? hplan hi).1, (resolved_getElem? hplan hj).1] at hindex
      rw [hindex, hj] at hi
      cases hi
      rw [hdifference he, hdifference he']
      rfl
    · rw [difference, difference, compareColumn, compareColumn,
        show (pair bytes).target.cells[other.targetIndex]? =
          (pair bytes').target.cells[other.targetIndex]? from getElem?_oneCell_ne hindex _ _]
  have hsameKey : SameKey mapping (pair bytes) (pair bytes') := by
    refine ⟨rfl, fun _ _ => rfl, ?_⟩
    intro index hindex
    refine getElem?_oneCell_ne ?_ _ _
    rintro rfl
    exact hkey hindex
  have herror := hdiscreet.error_eq (resolved_keysOnly hplan) hsameKey
    ⟨rfl, map_isSome_oneCell _ _ _ _, rfl⟩ hsame hmem (hdifference he) (hdifference he')
  exact Option.some.inj herror

/-- The extraction of a discreet plan has one text for all documents it fails on: two records that
differ in the document alone would be told apart by it. -/
theorem Discreet.oneText_extract
    (hplan : resolve mapping planner extractJson extractJsonOverwrites = .ok plan)
    (hdiscreet : plan.Discreet mapping) {column : ColumnCompare} (hmem : column ∈ plan.columns)
    (hrule : column.rule = .extractJson) {extract : ExtractJsonPlan}
    (hextract : plan.extractJson = some extract)
    (hkey : ¬IsKeyAt mapping.originColumns extract.originIndex) (key : PrimaryKey) :
    OneText fun bytes => (extract.extract (some bytes)).mapError fun e => e.withPrimaryKey key := by
  intro bytes bytes' e e' he he'
  let document (current : Bytes) : Row := oneCell (extract.originIndex + 1) extract.originIndex current
  let pair (current : Bytes) : Compared := ⟨.new key (document current), ⟨[]⟩⟩
  have hdifference {current : Bytes} {f : CdmError}
      (hf : (extract.extract (some current)).mapError (fun e => e.withPrimaryKey key) = .error f)
      {other : ColumnCompare} (hother : other.rule = .extractJson) :
      plan.difference (pair current) other = some ⟨other.name, none, none,
        .error (toString f) other.targetIndex extract.originIndex⟩ := by
    have hrecord : extract.extractRecord (pair current).record = .error f := by
      rw [ExtractJsonPlan.extractRecord, Record.originCell,
        show (pair current).record.origin.cells[extract.originIndex]? = some (some current) from
          getElem?_oneCell_self (Nat.lt_succ_self _) _]
      exact hf
    rw [difference, compareColumn, hother]
    dsimp only
    rw [compareExtracted, hextract]
    simp only [hrecord]
    simp [pair]
  have hnull : SameNullness (pair bytes) (pair bytes') :=
    ⟨map_isSome_oneCell _ _ _ _, rfl, rfl⟩
  have hsame : plan.SameDifferences (pair bytes) (pair bytes') := by
    intro other hother
    cases hotherRule : other.rule with
    | extractJson =>
      rw [hdifference he hotherRule, hdifference he' hotherRule]
      rfl
    | mapped originIndex =>
      -- the target is null, so the form is that of the origin's cell
      have hcell := isSome_getElem?_eq hnull.origin originIndex
      rw [difference, difference, compareColumn, compareColumn, hotherRule]
      dsimp only
      generalize (pair bytes).record.origin.cells[originIndex]? = cell at hcell ⊢
      generalize (pair bytes').record.origin.cells[originIndex]? = cell' at hcell ⊢
      rcases cell with _ | _ | x <;> rcases cell' with _ | _ | y <;> first | rfl | cases hcell
    | constant | unsourced =>
      rw [difference, difference, compareColumn, compareColumn, hotherRule]
    | exploded =>
      rw [difference, difference, compareColumn, compareColumn, hotherRule]
      rfl
  have hsameKey : SameKey mapping (pair bytes) (pair bytes') := by
    refine ⟨rfl, ?_, fun _ _ => rfl⟩
    intro index hindex
    refine getElem?_oneCell_ne ?_ _ _
    rintro rfl
    exact hkey hindex
  have herror := hdiscreet.error_eq (resolved_keysOnly hplan) hsameKey hnull hsame hmem
    (hdifference he hrule) (hdifference he' hrule)
  exact Option.some.inj herror

/-- A plan is discreet exactly when no column outside the key can fail with two texts. -/
theorem discreet_iff_uniform
    (hplan : resolve mapping planner extractJson extractJsonOverwrites = .ok plan) :
    plan.Discreet mapping ↔ ∀ column ∈ plan.columns, plan.FailsUniformly mapping column := by
  refine ⟨?_, discreet_of_failsUniformly hplan⟩
  intro hdiscreet column hmem
  refine ⟨?_, ?_⟩
  · intro originIndex hrule hkey
    exact hdiscreet.oneText_converted hplan hmem hrule hkey
  · intro hrule extract hextract hkey key
    exact hdiscreet.oneText_extract hplan hmem hrule hextract hkey key

end Discreet

/-! ### Columns whose errors show nothing -/

section Reticent

/-- An extraction shows whether the document is text. -/
theorem not_oneText_extract (hjson : ∃ e, SerdeJson.fromStr "\x7b" = .error e)
    (extract : ExtractJsonPlan) (key : PrimaryKey) :
    ¬OneText fun bytes =>
      (extract.extract (some bytes)).mapError fun e => e.withPrimaryKey key := by
  obtain ⟨e, he⟩ := hjson
  have hdocument : extract.extract (some [0x7b]) = .error (extract.notADocument e) := by
    have hread : String.fromUTF8? ⟨#[0x7b]⟩ = some "\x7b" := by decide
    have hblank : ¬Text.trim "\x7b".toList = [] := by decide
    simp only [ExtractJsonPlan.extract, List.toArray, hread, hblank, if_false, he]
  intro hone
  have hmessage := CdmError.message_inj (hone [0xff] [0x7b]
    (extract.notUtf8.withPrimaryKey key) ((extract.notADocument e).withPrimaryKey key) rfl
    (by simp only [hdocument]; rfl)) rfl rfl
  -- `is not valid` in the one, `does not contain` in the other
  have hchar := congrArg (fun message => message.toList[27]?) hmessage
  simp only [ExtractJsonPlan.notUtf8, ExtractJsonPlan.notADocument, CdmError.withPrimaryKey,
    CdmError.withColumn, String.toList_append, append_assoc] at hchar
  rw [getElem?_append_left (by decide)] at hchar
  revert hchar
  decide

variable [AlphanumericTable]

/-- No error shows the value of the column: outside of the key, the conversion from its type to that
of the origin is reticent, and no property is extracted from a document. -/
structure ReticentColumn (mapping : ColumnMapping) (planner : Planner) (enabled : List Codecset)
    (extractJson : Option ExtractJsonPlan) (column : ColumnMeta) (index : ℕ) : Prop where
  mapped : ∀ originIndex originColumn target origin, column.kind.isKey = false →
    mapping.source index = some (.origin originIndex) →
    mapping.originColumns[originIndex]? = some originColumn →
    CqlTypeInfo.parse column.cqlType = .ok target →
    CqlTypeInfo.parse originColumn.cqlType = .ok origin → planner.Reticent enabled target origin
  extracted : ∀ name, mapping.source index = some (.extractJson name) →
    ∀ extract, extractJson = some extract → IsKeyAt mapping.originColumns extract.originIndex

/-- No error shows the value of a column. -/
def Reticent (mapping : ColumnMapping) (planner : Planner) (enabled : List Codecset)
    (extractJson : Option ExtractJsonPlan) : Prop :=
  ∀ column index, mapping.targetColumns[index]? = some column →
    ReticentColumn mapping planner enabled extractJson column index

variable {mapping : ColumnMapping} {planner : Planner} {enabled : List Codecset}
  {extractJson : Option ExtractJsonPlan} {extractJsonOverwrites : Bool} {plan : ComparisonPlan}

variable {F : Type} [F64 F] [CodecCrates] [ChronoUtc] {settings : Option TimestampFormat}

omit [SerdeJson] [AlphanumericTable] in
/-- A mapped column fails with one text exactly when its types are reticent. -/
theorem oneText_converted_iff
    (hregistry : CodecRegistry.withBuiltins F enabled settings = .ok planner.registry)
    {resolved : ColumnCompare} {target origin : CqlTypeInfo}
    (hplan : resolved.plan = planner.planTypes target origin) :
    OneText (converted resolved) ↔ planner.Reticent enabled target origin := by
  have hconverted : converted resolved =
      fun bytes => (planner.planTypes target origin).apply (some bytes) := by
    funext bytes
    rw [converted, hplan]
    split_ifs with hidentity
    · exact (ConversionPlan.apply_of_isIdentity hidentity _).symm
    · rfl
  rw [hconverted, Planner.oneText_apply_iff hregistry]

/-- Over the built-in codecs, a column fails uniformly exactly when it is reticent. -/
theorem failsUniformly_iff (hregistry : CodecRegistry.withBuiltins F enabled settings = .ok planner.registry)
    (hjson : ∃ e, SerdeJson.fromStr "\x7b" = .error e) (hextract : plan.extractJson = extractJson)
    {column : ColumnMeta} {index : ℕ} (hcolumn : mapping.targetColumns[index]? = some column)
    {resolved : ColumnCompare} (hresolved : resolveColumn mapping planner (column, index) = .ok resolved) :
    plan.FailsUniformly mapping resolved ↔
      ReticentColumn mapping planner enabled extractJson column index := by
  obtain ⟨hindex, target, htarget, hrule⟩ := resolveColumn_eq_ok hresolved
  obtain ⟨hmapped, hextracted, hconversion⟩ := ruleFor_eq_ok_iff hrule
  have hkey : IsKeyAt mapping.targetColumns resolved.targetIndex ↔ column.kind.isKey = true := by
    rw [hindex, IsKeyAt, hcolumn]
    simp
  constructor
  · rintro ⟨hone, hdocument⟩
    refine ⟨?_, ?_⟩
    · intro originIndex originColumn target' origin hnot hsource horiginColumn htarget' horigin
      obtain ⟨column', origin', hcolumn', horigin', hplan⟩ := hconversion originIndex hsource
      cases horiginColumn.symm.trans hcolumn'
      cases horigin.symm.trans horigin'
      cases htarget.symm.trans htarget'
      refine (oneText_converted_iff hregistry hplan).1 (hone originIndex ((hmapped _).2 hsource) ?_)
      rw [hkey, hnot]
      exact Bool.false_ne_true
    · intro name hsource extract hsome
      by_contra hnot
      exact not_oneText_extract hjson extract ⟨[]⟩
        (hdocument (hextracted.2 ⟨name, hsource⟩) extract (hextract.trans hsome) hnot ⟨[]⟩)
  · rintro ⟨hreticent, hdocument⟩
    refine ⟨?_, ?_⟩
    · intro originIndex hruleEq hnot
      have hsource := (hmapped _).1 hruleEq
      obtain ⟨originColumn, origin, horiginColumn, horigin, hplan⟩ := hconversion originIndex hsource
      refine (oneText_converted_iff hregistry hplan).2
        (hreticent originIndex originColumn target origin ?_ hsource horiginColumn htarget horigin)
      exact eq_false_of_ne_true (mt hkey.2 hnot)
    · intro hruleEq extract hsome hnot
      obtain ⟨name, hsource⟩ := hextracted.1 hruleEq
      exact absurd (hdocument name hsource extract (hextract.symm.trans hsome)) hnot

/-- A comparison plan over the built-in codecs lets no value into the diff log or a redacted report
exactly when it compares the keys only, or when its columns are reticent: outside of the key no value
is converted but by a codec whose errors show nothing, and no document is extracted from. -/
theorem discreet_iff (hplan : resolve mapping planner extractJson extractJsonOverwrites = .ok plan)
    (hregistry : CodecRegistry.withBuiltins F enabled settings = .ok planner.registry)
    (hjson : ∃ e, SerdeJson.fromStr "\x7b" = .error e) (keysOnly : Bool) :
    (plan.withKeysOnly keysOnly).Discreet mapping ↔
      keysOnly = true ∨ Reticent mapping planner enabled extractJson := by
  cases keysOnly with
  | true =>
    refine iff_of_true ?_ (.inl rfl)
    intro a b _ _ _ ds es hds
    cases hds
  | false =>
    have hsame : plan.withKeysOnly false = plan := by
      rw [withKeysOnly, ← resolved_keysOnly hplan]
    rw [hsame, discreet_iff_uniform hplan]
    obtain ⟨columns, hcolumns, h⟩ := bind_eq_ok.1 hplan
    cases h
    rw [forall_mem_mapM hcolumns fun x hx resolved hresolved => failsUniformly_iff hregistry hjson rfl
      (List.mem_zipIdx_iff_getElem?.1 hx) hresolved]
    simp only [Prod.forall, List.mem_zipIdx_iff_getElem?, Reticent, Bool.false_eq_true, false_or]

end Reticent

end ComparisonPlan

/-! ### An `int` compared with a `text`, and an `ascii` with a `blob`

Where the origin holds numbers and the target words, the diff log quotes them.  Where the target holds
bytes that are not ASCII, it does not. -/

namespace RedactionSample

open ComparisonPlan Codecset

/-- Doubles, of which there are none here. -/
local instance : F64 Bytes := ⟨id, id, fun _ => [], fun _ => none⟩

local instance : CodecCrates where
  big := SignedBytes.shortest
  decimalText value := String.ofList (plainString value)
  panicked := Wire.conversionError "panicked"

local instance : AlphanumericTable := AlphanumericTable.ascii

attribute [local instance] LiteralParsers.rejecting SerdeJson.rejecting ChronoUtc.gregorian

def enabled : List Codecset := [.intString, .asciiBlob]

def planner : Planner where
  registry := ⟨both .ascii .blob Builtin.identityBytes (Builtin.fnConverter Builtin.blobToAscii) ++
    both .bigInt .varInt (Builtin.bigintToVarint SignedBytes.shortest)
      (Builtin.varintToBigint SignedBytes.shortest) ++
    both .int .text (Builtin.fnConverter Builtin.intToText) Builtin.textToInt⟩
  compatJava := false

theorem registry_eq : CodecRegistry.withBuiltins Bytes enabled none = .ok planner.registry := rfl

/-- A table with a value of the given type. -/
def table (name cqlType : String) : TableSchema where
  keyspace := "ks"
  table := name
  columns := [⟨"id", "int", .partitionKey, 0⟩, ⟨"v", cqlType, .regular, -1⟩]
  nodup := by simp

def mapping (originType targetType : String) : ColumnMapping where
  originColumns := (table "src" originType).columns
  sources := [.origin 0, .origin 1]
  originTable := table "src" originType
  targetTable := table "dst" targetType
  length_sources := by simp [table]
  originIndex_lt := by simp [table, TargetSource.originIndex]
  key_derivable := by
    intro column hcolumn
    have hid : column ∈ [⟨"id", "int", .partitionKey, 0⟩] := hcolumn
    rw [mem_singleton.1 hid]
    rfl

/-- The plan that converts the value as given. -/
def plan (conversion : ConversionPlan) : ComparisonPlan where
  columns := [⟨"id", 0, .mapped 0, .passthrough⟩, ⟨"v", 1, .mapped 1, conversion⟩]
  extractJson := none
  extractJsonOverwrites := false
  keysOnly := false

theorem plan_eq : ComparisonPlan.resolve (mapping "int" "text") planner none false =
    .ok (plan (.codec Builtin.textToInt)) := rfl

theorem asciiPlan_eq : ComparisonPlan.resolve (mapping "ascii" "blob") planner none false =
    .ok (plan (.codec (Builtin.fnConverter Builtin.blobToAscii))) := rfl

/-- The record with the number 5, and a target row with these bytes in its place. -/
def pair (bytes : Bytes) : Compared :=
  ⟨.new ⟨[some [0, 0, 0, 1]]⟩ ⟨[some [0, 0, 0, 1], some [0, 0, 0, 5]]⟩,
    ⟨[some [0, 0, 0, 1], some bytes]⟩⟩

def mismatch (bytes : Bytes) (text : String) : List ColumnDifference :=
  [⟨"v", some [0, 0, 0, 5], some bytes,
    .error s!"type conversion error: `{text}` is not an int: invalid digit found in string" 1 1⟩]

theorem compare_ab :
    (plan (.codec Builtin.textToInt)).compare (pair [97, 98]).record (some (pair [97, 98]).target) =
      .mismatch (mismatch [97, 98] "ab") := by
  decide

theorem compare_cd :
    (plan (.codec Builtin.textToInt)).compare (pair [99, 100]).record
      (some (pair [99, 100]).target) = .mismatch (mismatch [99, 100] "cd") := by
  decide

/-- The words `ab` and `cd` are told apart by the diff log. -/
theorem not_discreet :
    ComparisonPlan.resolve (mapping "int" "text") planner none false =
        .ok (plan (.codec Builtin.textToInt)) ∧
      ¬(plan (.codec Builtin.textToInt)).Discreet (mapping "int" "text") := by
  refine ⟨plan_eq, ?_⟩
  intro hdiscreet
  have hkey : SameKey (mapping "int" "text") (pair [97, 98]) (pair [99, 100]) := by
    refine ⟨rfl, fun _ _ => rfl, ?_⟩
    rintro index ⟨column, hcolumn, hisKey⟩
    match index with
    | 0 => rfl
    | 1 =>
      cases hcolumn
      cases hisKey
    | index + 2 => rfl
  have hsame : (plan (.codec Builtin.textToInt)).SameDifferences (pair [97, 98])
      (pair [99, 100]) := by
    intro column hcolumn
    revert column
    decide
  have hlog := (hdiscreet _ _ hkey ⟨rfl, rfl, rfl⟩ hsame _ _ compare_ab compare_cd).1
  revert hlog
  decide

/-- The codec from `text` to `int` is not reticent, and that from `blob` to `ascii` is. -/
theorem discreet_ascii :
    ¬((plan (.codec Builtin.textToInt)).withKeysOnly false).Discreet (mapping "int" "text") ∧
      ((plan (.codec (Builtin.fnConverter Builtin.blobToAscii))).withKeysOnly false).Discreet
        (mapping "ascii" "blob") := by
  refine ⟨mt (discreet_iff plan_eq registry_eq ⟨_, rfl⟩ false).1 ?_,
    (discreet_iff asciiPlan_eq registry_eq ⟨_, rfl⟩ false).2 (.inr ?_)⟩
  · rintro (hkeys | hreticent)
    · cases hkeys
    · obtain hidentity | ⟨codec, p, q, -, ⟨⟩, ⟨⟩, hreticent⟩ :=
        (hreticent ⟨"v", "text", .regular, -1⟩ 1 rfl).mapped 1 ⟨"v", "int", .regular, -1⟩
          (.primitive .text) (.primitive .int) rfl rfl rfl rfl rfl
      · cases hidentity
      · cases codec <;> cases hreticent
  · intro column index hcolumn
    refine ⟨?_, by rintro name - extract ⟨⟩⟩
    intro originIndex originColumn target origin hkey hsource horiginColumn htarget horigin
    match index with
    | 0 =>
      cases hcolumn
      cases hkey
    | 1 =>
      cases hcolumn
      cases hsource
      cases horiginColumn
      cases htarget
      cases horigin
      exact .inr ⟨.asciiBlob, .blob, .ascii, .inr (by decide), rfl, rfl, rfl⟩
    | index + 2 => cases hcolumn

end RedactionSample

end Cdm
