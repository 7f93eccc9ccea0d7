import Cdm.Codec.Udt
import Cdm.Cql.Bind

/-!
# Binding UDT values

The planner matches the fields of two UDTs by name, and would move each to its place.  The binder
never shows it any: it parses the types of both columns without a resolver, so a UDT is a name to it,
and two columns of one UDT have the same type.  The value is then written as it was read, in the
field order of the origin, and the target reads it in its own.
-/

namespace Cdm

open Fallible
open Wire

/-! ### Maps without null values -/

/-- What can be read can be skipped. -/
theorem exists_skipElement {bytes rest : Bytes} {element : RawCell}
    (h : takeElement bytes = .ok (element, rest)) :
    ∃ slice len, skipElement bytes = .ok (slice, len, rest) := by
  rw [takeElement, bind_eq_ok] at h
  obtain ⟨⟨len, rest'⟩, hread, h⟩ := h
  rw [skipElement, readI32_eq_ok.2 hread, ok_bind]
  dsimp only at h ⊢
  split_ifs at h ⊢ with hneg hfits
  · cases h
    exact ⟨_, _, rfl⟩
  · obtain ⟨⟨value, rest''⟩, htake, h⟩ := bind_eq_ok.1 h
    cases h
    obtain ⟨hlen, rfl⟩ := take_eq_ok.1 htake
    rw [← hlen, List.drop_left]
    exact ⟨_, _, rfl⟩
  · obtain ⟨⟨value, rest''⟩, htake, h⟩ := bind_eq_ok.1 h
    obtain ⟨hlen, rfl⟩ := take_eq_ok.1 htake
    rw [List.length_append] at hfits
    omega

/-- The entries of a map are keys and values in turn. -/
theorem takeElements_of_takeEntries {n : ℕ} {bytes rest : Bytes}
    {entries : List (RawCell × RawCell)} (h : takeEntries n bytes = .ok (entries, rest)) :
    takeElements (2 * n) bytes = .ok (flatten entries, rest) := by
  induction n generalizing bytes entries with
  | zero =>
    cases h
    rfl
  | succ n ih =>
    obtain ⟨key, between, value, behind, others, hkey, hvalue, hothers, rfl⟩ :=
      takeEntries_cons_eq_ok.1 h
    exact takeElements_cons_eq_ok.2 ⟨key, between, _, hkey, takeElements_cons_eq_ok.2
      ⟨value, behind, _, hvalue, ih hothers, rfl⟩, rfl⟩

theorem exists_stripEntries {n : ℕ} {bytes rest : Bytes} {cells : List RawCell}
    (h : takeElements (2 * n) bytes = .ok (cells, rest)) :
    ∃ kept dropped, stripEntries n bytes = .ok (kept, dropped) := by
  induction n generalizing bytes cells with
  | zero => exact ⟨[], 0, rfl⟩
  | succ n ih =>
    obtain ⟨key, between, _, hkey, h, -⟩ := takeElements_cons_eq_ok.1 h
    obtain ⟨value, behind, _, hvalue, h, -⟩ := takeElements_cons_eq_ok.1 h
    obtain ⟨kept, dropped, hstrip⟩ := ih h
    obtain ⟨_, _, hkey⟩ := exists_skipElement hkey
    obtain ⟨_, _, hvalue⟩ := exists_skipElement hvalue
    rw [stripEntries, hkey, ok_bind]
    dsimp only
    rw [hvalue, ok_bind]
    dsimp only
    rw [hstrip, ok_bind]
    dsimp only
    split_ifs <;> exact ⟨_, _, rfl⟩

/-- From a map without null values, none is removed. -/
theorem stripNullMapValues_of_cells {bytes : Bytes} {cells : List RawCell}
    (h : CqlTypeInfo.sequenceCells 2 bytes = .ok cells) : stripNullMapValues bytes = .ok bytes := by
  obtain ⟨⟨count, rest⟩, hcount, h⟩ := bind_eq_ok.1 h
  obtain ⟨⟨elements, behind⟩, helements, h⟩ := bind_eq_ok.1 h
  dsimp only at h
  split_ifs at h with hnull
  obtain ⟨kept, dropped, hstrip⟩ := exists_stripEntries helements
  obtain ⟨out, hout⟩ : ∃ out, stripNullMapValues bytes = .ok out := by
    rw [stripNullMapValues, readI32_eq_ok.2 hcount, ok_bind]
    dsimp only
    rw [hstrip, ok_bind]
    exact ⟨_, rfl⟩
  have hnone : NoNullValues bytes := by
    intro count' rest' entries after hcount' htake entry hentry hvalue
    cases hcount.symm.trans hcount'
    cases helements.symm.trans (takeElements_of_takeEntries htake)
    refine hnull (List.mem_flatMap.2 ⟨entry, hentry, ?_⟩)
    simp [hvalue]
  rw [hout, (stripNullMapValues_eq_self hout).2 hnone]

namespace CqlTypeInfo

theorem isMap_bare (t : CqlTypeInfo) : isMap t.bare = isMap t := by
  cases t <;> rfl

theorem isJavaCollection_bare (t : CqlTypeInfo) : isJavaCollection t.bare = isJavaCollection t := by
  cases t <;> rfl

end CqlTypeInfo

/-- A value that is left out has no elements. -/
theorem cells_of_isEmptyCollection {perEntry : ℕ} {bytes : Bytes} {cells : List RawCell}
    (hcells : CqlTypeInfo.sequenceCells perEntry bytes = .ok cells)
    (hempty : isEmptyCollection bytes = true) : cells = [] := by
  obtain ⟨⟨count, rest⟩, hcount, hrest⟩ := bind_eq_ok.1 hcells
  obtain ⟨⟨elements, behind⟩, helements, h⟩ := bind_eq_ok.1 hrest
  rw [takeI32, map_eq_ok] at hcount
  obtain ⟨⟨first, _⟩, htake, heq⟩ := hcount
  cases heq
  obtain ⟨hlen, rfl⟩ := take_eq_ok.1 htake
  have hzero : BigEndian.toInt first = 0 := by
    rw [isEmptyCollection, if_pos (by simp [hlen]), ← hlen, List.take_left] at hempty
    simpa using hempty
  dsimp only at helements h
  rw [hzero, Int.toNat_zero, Nat.mul_zero] at helements
  cases helements
  rw [if_neg List.not_mem_nil] at h
  exact (Except.ok.inj h).symm

namespace Binder

open CqlTypeInfo

section Column

variable [ClientReader] {planner : Planner} {binder : Binder} {origin target : CqlTypeInfo}
  {column : ColumnBind} {bytes out : Bytes}

/-- A well-formed value loses no map entries. -/
theorem stripped_wellFormed (h : Corresponds origin target) (htype : column.cqlType = target.bare)
    (hwf : WellFormed origin (some bytes)) : binder.stripped column bytes = .ok bytes := by
  rw [stripped, htype, isMap_bare]
  split_ifs with hstrip
  · simp only [Bool.and_eq_true] at hstrip
    cases h with
    | map fa fb hkey hvalue =>
      obtain ⟨cells, hcells⟩ := hwf.exists_cells rfl
      exact stripNullMapValues_of_cells hcells
    | _ => cases hstrip.2
  · rfl

/-- What is bound for a well-formed value is the value itself, unless it is left out. -/
theorem presentValue_wellFormed (h : Corresponds origin target)
    (htype : column.cqlType = target.bare) (hwf : WellFormed origin (some bytes)) :
    binder.presentValue column bytes = .ok (.value out) ↔
      out = bytes ∧ (isJavaCollection target && isEmptyCollection bytes) = false := by
  rw [presentValue, stripped_wellFormed h htype hwf, ok_bind, htype, isJavaCollection_bare]
  split_ifs with hempty hkey
  · simp [hempty]
  · simp [hempty]
  · simp [hempty, eq_comm]

/-- A value that is left out has no UDT in it. -/
theorem kept_of_isEmptyCollection (h : Corresponds origin target)
    (hwf : WellFormed origin (some bytes))
    (hempty : (isJavaCollection target && isEmptyCollection bytes) = true) :
    planner.Kept origin target (some bytes) (some bytes) := by
  rw [Bool.and_eq_true] at hempty
  obtain ⟨ha, perEntry, hsequence⟩ : origin.hasCells = true ∧
      ∃ perEntry, origin.cells bytes = sequenceCells perEntry bytes := by
    cases h with
    | list | set => exact ⟨rfl, 1, rfl⟩
    | map => exact ⟨rfl, 2, rfl⟩
    | _ => cases hempty.1
  obtain ⟨cells, hcells⟩ := hwf.exists_cells ha
  rw [Planner.kept_collection_iff h ha hcells]
  rw [hsequence] at hcells
  rw [cells_of_isEmptyCollection hcells hempty.2]
  intro i cell hcell
  cases hcell

/-- A column that does not convert binds the bytes it has read. -/
theorem bindIndexed_passthrough (h : Corresponds origin target)
    (htype : column.cqlType = target.bare) {index originIndex : ℕ}
    (hcolumn : binder.columns[index]? = some column) (hsource : column.source = .origin originIndex)
    (hplan : column.plan = .passthrough) {row : Row} {inputs : BindInputs} {bindIndex : ℕ}
    (hcell : row.cells[originIndex]? = some (some bytes)) (hwf : WellFormed origin (some bytes)) :
    binder.bindIndexed row inputs bindIndex index = .ok (.value out) ↔
      out = bytes ∧ (isJavaCollection target && isEmptyCollection bytes) = false := by
  have hconvert : convert column bytes = .ok bytes := by
    rw [convert, hplan]
    rfl
  have hraw : rawValue column row inputs = .ok (some bytes) :=
    (rawValue_origin_eq_ok hsource).2 (.inr ⟨bytes, bytes, hcell, hconvert, rfl⟩)
  rw [bindIndexed_eq_ok, ← presentValue_wellFormed h htype hwf]
  constructor
  · rintro ⟨column', hcolumn', hbind⟩
    cases hcolumn.symm.trans hcolumn'
    rw [bindColumn, hraw, ok_bind] at hbind
    exact mapError_eq_ok.1 hbind
  · intro hpresent
    refine ⟨column, hcolumn, ?_⟩
    rw [bindColumn, hraw, ok_bind]
    exact mapError_eq_ok.2 hpresent

end Column

section New

variable [AlphanumericTable] {mapping : ColumnMapping} {statement : TargetUpsert}
  {planner : Planner} {missingKey : MissingKeyPolicy} {mapRemoveNullValue : Bool} {binder : Binder}
  {originTypes targetTypes : UdtResolver} {origin target : CqlTypeInfo} {index originIndex : ℕ}
  {originColumn targetColumn : ColumnMeta}
  (hnew : new mapping statement planner missingKey mapRemoveNullValue = .ok binder)
  (htarget : mapping.targetColumns[index]? = some targetColumn)
  (hsource : mapping.source index = some (.origin originIndex))
  (horigin : mapping.originColumns[originIndex]? = some originColumn)
  (horiginType : parseWith originTypes originColumn.cqlType = .ok origin)
  (htargetType : parseWith targetTypes targetColumn.cqlType = .ok target)
  (h : Corresponds origin target)

include hnew htarget hsource horigin horiginType htargetType h

/-- Without their definitions the types of the two columns are one, and nothing is converted. -/
theorem resolved_of_corresponds :
    ∃ column, binder.columns[index]? = some column ∧ column.source = .origin originIndex ∧
      column.cqlType = target.bare ∧ column.plan = .passthrough := by
  obtain ⟨column, hcolumn⟩ : ∃ column, binder.columns[index]? = some column := by
    obtain ⟨hlt, -⟩ := List.getElem?_eq_some_iff.1 htarget
    rw [← length_columns hnew] at hlt
    exact ⟨_, List.getElem?_eq_getElem hlt⟩
  obtain ⟨targetColumn', htarget', hres⟩ := resolves_getElem? hnew hcolumn
  cases htarget.symm.trans htarget'
  have hcolumnSource : column.source = .origin originIndex := by
    rw [hres.source, hsource]
    rfl
  have htype : column.cqlType = target.bare := by
    have hparse := mapError_eq_ok.1 hres.cqlType
    exact Except.ok.inj (hparse.symm.trans (parse_of_parseWith htargetType))
  obtain ⟨originColumn', originType, horigin', hparse, hplan⟩ := hres.plan_origin hcolumnSource
  cases horigin.symm.trans horigin'
  have hbare : originType = origin.bare :=
    Except.ok.inj ((mapError_eq_ok.1 hparse).symm.trans (parse_of_parseWith horiginType))
  refine ⟨column, hcolumn, hcolumnSource, htype, ?_⟩
  rw [hplan, htype, hbare, Planner.planTypes.eq_def, h.sameType_bare, Bool.true_or, if_pos rfl]

/-- In every bound value of a column each field of a UDT is read on the target as the converted value
the origin has under its name, exactly when in every value of the column each field that is not null
stands where the target declares it and reads the same with its conversion and without. -/
theorem udts_kept_iff [ClientReader] :
    (∀ row inputs bindIndex bytes out, row.cells[originIndex]? = some (some bytes) →
      WellFormed origin (some bytes) →
      binder.bindIndexed row inputs bindIndex index = .ok (.value out) →
      planner.Kept origin target (some bytes) (some out)) ↔
    ∀ bytes, WellFormed origin (some bytes) → planner.InPlace origin target (some bytes) := by
  obtain ⟨column, hcolumn, hcolumnSource, htype, hplan⟩ :=
    resolved_of_corresponds hnew htarget hsource horigin horiginType htargetType h
  rw [← Planner.forall_kept_iff h]
  constructor
  · intro hbound bytes hwf
    cases hempty : isJavaCollection target && isEmptyCollection bytes with
    | true => exact kept_of_isEmptyCollection h hwf hempty
    | false =>
      have hcell : (List.replicate originIndex none ++ [some bytes])[originIndex]? =
          some (some bytes) := by simp
      refine hbound ⟨_⟩ {} 0 bytes bytes hcell hwf ?_
      rw [bindIndexed_passthrough h htype hcolumn hcolumnSource hplan hcell hwf]
      exact ⟨rfl, hempty⟩
  · intro hkept row inputs bindIndex bytes out hcell hwf hbind
    rw [bindIndexed_passthrough h htype hcolumn hcolumnSource hplan hcell hwf] at hbind
    obtain ⟨rfl, -⟩ := hbind
    exact hkept out hwf

end New

end Binder

/-! ### A type whose fields were added in another order

`point` has the fields `x` and `y` on the origin, and `y` and `x` on the target. -/

namespace UdtSample

open CqlTypeInfo

local instance : AlphanumericTable := AlphanumericTable.ascii

/-- A client that reads values as their bytes, and vectors of values without a width not at all. -/
local instance : ClientReader where
  Value := Bytes
  read _ bytes := .ok bytes
  splitVector _ _ := .error (conversionError "no such vector here")
  exists_splitVector_set h := nomatch h

def planner : Planner := ⟨⟨[]⟩, false⟩

def originFields : List (String × CqlTypeInfo) := [("x", .primitive .int), ("y", .primitive .int)]

def targetFields : List (String × CqlTypeInfo) := [("y", .primitive .int), ("x", .primitive .int)]

def originTypes : UdtResolver := fun _ name => if name = "point" then some originFields else none

def targetTypes : UdtResolver := fun _ name => if name = "point" then some targetFields else none

def table (name : String) : TableSchema where
  keyspace := "ks"
  table := name
  columns := [⟨"id", "int", .partitionKey, 0⟩, ⟨"at", "point", .regular, 0⟩]
  nodup := by decide

def mapping : ColumnMapping where
  originColumns := (table "src").columns
  sources := [.origin 0, .origin 1]
  originTable := table "src"
  targetTable := table "dst"
  length_sources := by decide
  originIndex_lt := by decide
  key_derivable := by decide

def statement : TargetUpsert := TargetUpsert.insert mapping ⟨false, false⟩

def binder : Binder where
  statement := statement
  columns := [⟨"id", .primitive .int, "int", .passthrough, .origin 0, true⟩,
    ⟨"at", .udt none "point" [] false, "point", .passthrough, .origin 1, false⟩]
  missingKey := {}
  mapRemoveNullValue := false

def origin : CqlTypeInfo := .udt none "point" originFields false

def target : CqlTypeInfo := .udt none "point" targetFields false

/-- The point (1, 2). -/
def point : Bytes := [0, 0, 0, 4, 0, 0, 0, 1, 0, 0, 0, 4, 0, 0, 0, 2]

theorem parse_point (resolver : UdtResolver) :
    parseWith resolver "point" =
      .ok (.udt none "point" ((resolver none "point").getD []) false) := by
  have htext : "point".toList = ['p', 'o', 'i', 'n', 't'] := rfl
  have hname : identifier ['p', 'o', 'i', 'n', 't'] ['p', 'o', 'i', 'n', 't'] =
      .ok (['p', 'o', 'i', 'n', 't'], []) := rfl
  have hlower : String.ofList (Text.toLower ['p', 'o', 'i', 'n', 't']) = "point" := rfl
  have hsplit : Text.rsplitOnce '.' ['p', 'o', 'i', 'n', 't'] = none := rfl
  have hof : String.ofList ['p', 'o', 'i', 'n', 't'] = "point" := rfl
  have hleaf : leaf resolver ['p', 'o', 'i', 'n', 't'] "point" false =
      .udt none "point" ((resolver none "point").getD []) false := by
    simp [leaf, primitiveNamed, dseTypes, List.lookup_cons, List.lookup_nil, hof, hsplit]
  rw [parseWith, htext]
  simp only [List.length_cons, List.length_nil, parseTypeInner, hname, hlower, ok_bind,
    hleaf]
  rfl

/-- To the binder both columns have the type `point`, and no fields. -/
theorem new_eq : Binder.new mapping statement planner {} false = .ok binder := by
  have hint (side : Side) : parseType ⟨"id", "int", .partitionKey, 0⟩ side = .ok (.primitive .int) :=
    rfl
  have hpoint (side : Side) : parseType ⟨"at", "point", .regular, 0⟩ side =
      .ok (.udt none "point" [] false) :=
    mapError_eq_ok.2 (parse_point _)
  have hid : Binder.resolveColumn mapping planner (⟨"id", "int", .partitionKey, 0⟩, 0) =
      .ok ⟨"id", .primitive .int, "int", .passthrough, .origin 0, true⟩ :=
    bind_eq_ok.2 ⟨_, hint .target, bind_eq_ok.2
      ⟨.passthrough, map_eq_ok.2 ⟨_, hint .origin, rfl⟩, rfl⟩⟩
  have hat : Binder.resolveColumn mapping planner (⟨"at", "point", .regular, 0⟩, 1) =
      .ok ⟨"at", .udt none "point" [] false, "point", .passthrough, .origin 1, false⟩ :=
    bind_eq_ok.2 ⟨_, hpoint .target, bind_eq_ok.2
      ⟨.passthrough, map_eq_ok.2 ⟨_, hpoint .origin, rfl⟩, rfl⟩⟩
  exact bind_eq_ok.2
    ⟨binder.columns, mapM_eq_ok_iff.2 (.cons hid (.cons hat .nil)), rfl⟩

theorem corresponds : Corresponds origin target :=
  .udt none none "point" false false (by decide) (by decide)

theorem readFields_point :
    ConversionPlan.readFields originFields.length point =
      .ok [some [0, 0, 0, 1], some [0, 0, 0, 2]] := by
  decide

/-- The target reads the point (2, 1). -/
theorem not_kept :
    Binder.new mapping statement planner {} false = .ok binder ∧
      mapping.source 1 = some (.origin 1) ∧
      parseWith originTypes "point" = .ok origin ∧
      parseWith targetTypes "point" = .ok target ∧ Corresponds origin target ∧
      WellFormed origin (some point) ∧
      binder.bindIndexed ⟨[some [0, 0, 0, 7], some point]⟩ {} 1 1 = .ok (.value point) ∧
      ¬planner.Kept origin target (some point) (some point) := by
  refine ⟨new_eq, rfl, parse_point _, parse_point _, corresponds, ?_, ?_, ?_⟩
  · rw [origin, wellFormed_udt_iff readFields_point]
    rintro i ⟨name, t⟩ cell hfield -
    obtain rfl : t = .primitive .int := by
      simp only [originFields, List.getElem?_cons] at hfield
      split_ifs at hfield <;> cases hfield <;> rfl
    cases cell <;> exact ⟨_, rfl⟩
  · decide
  · have hlen : originFields.length = targetFields.length := rfl
    rw [origin, target, Planner.kept_udt_iff hlen readFields_point]
    intro hkept
    -- the first field of the target is `y`, and the first cell is that of `x`
    obtain ⟨read, hnamed, hdecode⟩ := hkept 0 _ _ rfl rfl
    have hmeant : planner.namedField originFields
        [some [0, 0, 0, 1], some [0, 0, 0, 2]] ("y", .primitive .int) =
        .ok (.scalar [0, 0, 0, 2]) := rfl
    cases hnamed.symm.trans hmeant
    cases hdecode

/-- The values of this column, of which the point (1, 2) is not in place. -/
theorem kept_iff :
    (∀ row inputs bindIndex bytes out, row.cells[1]? = some (some bytes) →
      WellFormed origin (some bytes) →
      binder.bindIndexed row inputs bindIndex 1 = .ok (.value out) →
      planner.Kept origin target (some bytes) (some out)) ↔
    ∀ bytes, WellFormed origin (some bytes) → planner.InPlace origin target (some bytes) := by
  have htarget : mapping.targetColumns[1]? = some ⟨"at", "point", .regular, 0⟩ := rfl
  have horigin : mapping.originColumns[1]? = some ⟨"at", "point", .regular, 0⟩ := rfl
  exact Binder.udts_kept_iff new_eq htarget rfl horigin (parse_point originTypes)
    (parse_point targetTypes) corresponds

end UdtSample

end Cdm
