import Cdm.Cql.Bind
import Mathlib.Data.List.NodupEquivFin

/-!
# The key a validate run looks up

`TargetKeyPlan` derives the bound components of the target primary key from an origin row, for the
lookup of the target row; `Binder.bindKey` derives the same components for the write.  A null key
component is substituted on both sides, by one `MissingKeyPolicy`.

The two do not agree on everything: the key plan takes the origin cell, or the half of an exploded
entry, as it is, where the binder converts it, removes null map values from it, and substitutes a
null half.
-/

namespace Cdm

open Fallible List

/-- Where one bound component of the target key comes from. -/
inductive TargetKeySlot
  | origin (index : ℕ)
  | explodeKey
  | explodeValue
  deriving DecidableEq, Repr

/-- The two halves of an exploded entry, in the target's representation. -/
structure ExplodedKeyParts where
  key : Option Bytes := none
  value : Option Bytes := none

/-- What a null in one bound key component is replaced with. -/
structure KeySubstitute where
  value : RawCell
  /-- Whether the replacement may also be written back into the origin row's cell. -/
  mirror : Bool
  deriving DecidableEq

/-- How the bound components of the target primary key are derived, in bind order: each slot, with
the replacement for a null in it, if it has one. -/
structure TargetKeyPlan where
  slots : List (TargetKeySlot × Option KeySubstitute)

namespace TargetKeyPlan

/-! ### Resolving -/

section Resolve

variable [AlphanumericTable] (mapping : ColumnMapping)

/-- Whether the origin column at `index` has exactly the type `target`. -/
def hasOriginType (index : ℕ) (target : CqlTypeInfo) : Except CdmError Bool :=
  match mapping.originColumns[index]? with
  | none => .ok false
  | some column => (parseType column .origin).map fun origin => decide (origin = target)

/-- Whether exactly one target column reads the origin column at `index`. -/
def soleReader (index : ℕ) : Bool :=
  (mapping.sources.filter (· = .origin index)).length = 1

/-- What a null in the key column `column`, sourced from origin position `index`, is replaced
with. -/
def substituteFor (column : String) (index : ℕ) (missingKey : MissingKeyPolicy) :
    Except CdmError (Option KeySubstitute) :=
  match mapping.targetColumns.find? (·.name = column) with
  | none => .ok none
  | some target => do
    let targetType ← parseType target .target
    match missingKey.substitute targetType with
    | none => return none
    | some value =>
      let sameType ← hasOriginType mapping index targetType
      return some ⟨some value, sameType && soleReader mapping index⟩

def inadmissible (column : String) (source : Option TargetSource) : CdmError :=
  let supplier := match source with
    | some (.extractJson _) => "an extracted JSON property"
    | some (.constant _) => "a constant, which carries no bind marker"
    | _ => "nothing"
  ((⟨.schemaMismatch, s!"the target primary-key column `{column}` is supplied by {supplier}, " ++
    "which `SCH-006` does not admit as a source for a target primary key: a component must come " ++
    "from a mapped origin column, a constant column or an exploded map entry (SCH-006).", {}⟩ :
    CdmError).withSide .target).withColumn column

/-- One bound key column. -/
def resolveSlot (missingKey : MissingKeyPolicy) (column : String) :
    Except CdmError (TargetKeySlot × Option KeySubstitute) :=
  match mapping.sourceOf column with
  | some (.origin index) =>
    (substituteFor mapping column index missingKey).map fun substitute => (.origin index, substitute)
  | some .explodeKey => .ok (.explodeKey, none)
  | some .explodeValue => .ok (.explodeValue, none)
  | other => .error (inadmissible column other)

/-- Resolves the plan from the mapping, the lookup statement built from it, and the policy the
write path binds with. -/
def resolve (select : TargetSelectByPk) (missingKey : MissingKeyPolicy) :
    Except CdmError TargetKeyPlan :=
  (select.boundKeyColumns.mapM (resolveSlot mapping missingKey)).map TargetKeyPlan.mk

end Resolve

/-! ### Deriving keys -/

/-- The cell at `index`, null when the row is narrower. -/
def cellAt (row : Row) (index : ℕ) : RawCell := (row.cells[index]?).join

/-- One component of the key. -/
def slotValue (row : Row) (entry : ExplodedKeyParts) :
    TargetKeySlot × Option KeySubstitute → RawCell
  | (.origin index, substitute) =>
    match cellAt row index with
    | some bytes => some bytes
    | none => substitute.bind KeySubstitute.value
  | (.explodeKey, _) => entry.key
  | (.explodeValue, _) => entry.value

/-- The key of one origin row, for one exploded map entry. -/
def keyOf (plan : TargetKeyPlan) (row : Row) (entry : ExplodedKeyParts) : PrimaryKey :=
  ⟨plan.slots.map (slotValue row entry)⟩

/-- Replaces a null key cell that has a mirrored substitute. -/
def substituteStep (row : Row) (cells : Option (List RawCell)) :
    TargetKeySlot × Option KeySubstitute → Option (List RawCell)
  | (.origin index, some substitute) =>
    if cellAt row index = none && substitute.mirror then
      some ((cells.getD row.cells).set index substitute.value)
    else cells
  | _ => cells

/-- The origin row with every substitutable null key cell replaced, or `none` when the row needs no
replacement. -/
def substituted (plan : TargetKeyPlan) (row : Row) : Option Row :=
  (plan.slots.foldl (substituteStep row) none).map Row.mk

/-- The row a scan hands on. -/
def scanned (plan : TargetKeyPlan) (row : Row) : Row := (plan.substituted row).getD row

/-! ### The scanned row -/

variable {plan : TargetKeyPlan} {row : Row}

/-- A cell of the scanned row is that of the row, or the mirrored substitute of a null key cell. -/
def Kept (plan : TargetKeyPlan) (row : Row) (cells : List RawCell) : Prop :=
  ∀ index, cells[index]? = row.cells[index]? ∨
    row.cells[index]? = some none ∧ ∃ substitute : KeySubstitute,
      (.origin index, some substitute) ∈ plan.slots ∧ substitute.mirror = true ∧
        cells[index]? = some substitute.value

theorem kept_substituteStep {cells : Option (List RawCell)}
    {slot : TargetKeySlot × Option KeySubstitute} (hslot : slot ∈ plan.slots)
    (h : Kept plan row (cells.getD row.cells)) :
    Kept plan row ((substituteStep row cells slot).getD row.cells) := by
  unfold substituteStep
  split
  · rename_i index substitute
    split_ifs with hset
    · simp only [Bool.and_eq_true, decide_eq_true_eq] at hset
      intro j
      rw [Option.getD_some]
      by_cases hj : index = j
      · subst hj
        rw [getElem?_set_self']
        cases hcell : row.cells[index]? with
        | none =>
          have hnone : (cells.getD row.cells)[index]? = none := by
            rcases h index with heq | ⟨hsome, -⟩
            · rw [heq, hcell]
            · rw [hcell] at hsome
              cases hsome
          exact .inl (by rw [hnone]; rfl)
        | some cell =>
          have hnull : cell = none := by simpa [cellAt, hcell] using hset.1
          have hsome : ((cells.getD row.cells)[index]?).isSome = true := by
            rcases h index with heq | ⟨-, s, -, -, heq⟩
            · rw [heq, hcell]
              rfl
            · rw [heq]
              rfl
          obtain ⟨c, hc⟩ := Option.isSome_iff_exists.1 hsome
          exact .inr ⟨by rw [hnull], substitute, hslot, hset.2, by rw [hc]; rfl⟩
      · rw [getElem?_set_ne hj]
        exact h j
    · exact h
  · exact h

theorem kept_foldl (slots : List (TargetKeySlot × Option KeySubstitute))
    (hsub : slots ⊆ plan.slots) {cells : Option (List RawCell)}
    (h : Kept plan row (cells.getD row.cells)) :
    Kept plan row ((slots.foldl (substituteStep row) cells).getD row.cells) := by
  induction slots generalizing cells with
  | nil => exact h
  | cons slot slots ih =>
    rw [cons_subset] at hsub
    exact ih hsub.2 (kept_substituteStep hsub.1 h)

/-- What the scanned row holds. -/
theorem kept_scanned (plan : TargetKeyPlan) (row : Row) :
    Kept plan row (plan.scanned row).cells := by
  have h : Kept plan row ((plan.slots.foldl (substituteStep row) none).getD row.cells) :=
    kept_foldl plan.slots (List.Subset.refl _) fun index => .inl rfl
  rw [scanned, substituted]
  cases hfold : plan.slots.foldl (substituteStep row) none with
  | none =>
    rw [hfold] at h
    exact h
  | some cells =>
    rw [hfold] at h
    exact h

/-- Slots that read one origin cell agree on its replacement, if one of them is mirrored. -/
def Coherent (plan : TargetKeyPlan) : Prop :=
  ∀ index substitute (mirrored : KeySubstitute), (.origin index, substitute) ∈ plan.slots →
    (.origin index, some mirrored) ∈ plan.slots → mirrored.mirror = true →
    substitute = some mirrored

/-- The key does not depend on whether the null key cells have been replaced. -/
theorem keyOf_scanned (hplan : plan.Coherent) (row : Row) (entry : ExplodedKeyParts) :
    plan.keyOf (plan.scanned row) entry = plan.keyOf row entry := by
  rw [keyOf, keyOf]
  congr 1
  apply map_congr_left
  rintro ⟨slot, substitute⟩ hslot
  cases slot with
  | origin index =>
    rcases kept_scanned plan row index with heq | ⟨hnull, mirrored, hmem, hmirror, heq⟩
    · simp [slotValue, cellAt, heq]
    · have hs := hplan index substitute mirrored hslot hmem hmirror
      simp only [slotValue, cellAt, heq, hnull, hs]
      cases hv : mirrored.value <;> simp [hv]
  | explodeKey => rfl
  | explodeValue => rfl

/-! ### Written verbatim -/

/-- The binder writes the value of a key column as it finds it: a non-null cell that the conversion
leaves as it is, and a half of an exploded entry that is there, without null map values to remove
in either. -/
def WrittenVerbatim (binder : Binder) (row : Row) (entry : ExplodedKeyParts)
    (column : ColumnBind) : Prop :=
  match column.source with
  | .origin index => ∀ bytes, row.cells[index]? = some (some bytes) →
      Binder.convert column bytes = .ok bytes ∧ binder.KeepsEntries column bytes
  | .explodeKey => ∃ bytes, entry.key = some bytes ∧ binder.KeepsEntries column bytes
  | .explodeValue => ∃ bytes, entry.value = some bytes ∧ binder.KeepsEntries column bytes
  | _ => True

/-- A half of an exploded entry is bound as the key plan takes it when it is there and keeps its
entries. -/
theorem half_eq_iff {binder : Binder} {column : ColumnBind} {row : Row} {inputs : BindInputs} {value : BoundValue}
    {half : Option Bytes} (hkey : column.isKey = true)
    (hraw : Binder.rawValue column row inputs = .ok half)
    (hbind : binder.bindColumn column row inputs = .ok value) :
    half = value.bytes ↔ ∃ bytes, half = some bytes ∧ binder.KeepsEntries column bytes := by
  rcases Binder.bindColumn_eq_ok hbind with ⟨hnone, habsent⟩ | ⟨bytes, hsome, hpresent⟩
  · rw [hraw] at hnone
    cases hnone
    obtain ⟨bytes, -, rfl⟩ := Binder.absentValue_of_isKey hkey habsent
    simp [BoundValue.bytes]
  · rw [hraw] at hsome
    cases hsome
    obtain ⟨out, hstrip, rfl⟩ := Binder.presentValue_of_isKey hkey hpresent
    have hiff := Binder.stripped_eq_self_iff hstrip
    simp only [BoundValue.bytes, Option.some.injEq, exists_eq_left']
    rw [eq_comm]
    exact hiff

/-! ### What the plan is resolved from -/

/-- A named source is that of the target column of the name. -/
theorem exists_of_sourceOf {mapping : ColumnMapping} {name : String} {source : TargetSource}
    (h : mapping.sourceOf name = some source) :
    ∃ index : ℕ, ∃ target ∈ mapping.targetColumns, mapping.targetColumns[index]? = some target ∧
      target.name = name ∧ mapping.sources[index]? = some source := by
  obtain ⟨index, hindex, hsource⟩ := Option.bind_eq_some_iff.1 h
  obtain ⟨hlt, hname, -⟩ := findIdx?_eq_some_iff_getElem.1 hindex
  exact ⟨index, mapping.targetColumns[index], getElem_mem hlt,
    getElem?_eq_getElem hlt, by simpa using hname, hsource⟩

/-- Two columns of the target cannot both be the only one that reads an origin cell. -/
theorem name_eq_of_soleReader {mapping : ColumnMapping} {i : ℕ}
    (h : soleReader mapping i = true) {a b : String}
    (ha : mapping.sourceOf a = some (.origin i)) (hb : mapping.sourceOf b = some (.origin i)) :
    a = b := by
  obtain ⟨m, ta, -, hma, rfl, hsa⟩ := exists_of_sourceOf ha
  obtain ⟨n, tb, -, hnb, rfl, hsb⟩ := exists_of_sourceOf hb
  obtain ⟨hm, hsm⟩ := List.getElem?_eq_some_iff.1 hsa
  obtain ⟨hn, hsn⟩ := List.getElem?_eq_some_iff.1 hsb
  have hcount : mapping.sources.count (.origin i) = 1 := by
    simpa [soleReader, count_eq_length_filter, Bool.beq_eq_decide_eq] using h
  have hnot : ¬List.Duplicate (.origin i) mapping.sources := by
    rw [duplicate_iff_two_le_count]
    omega
  have hmn : m = n := by
    rcases Nat.lt_trichotomy m n with hlt | heq | hlt
    · exact absurd (duplicate_iff_exists_distinct_get.2
        ⟨⟨m, hm⟩, ⟨n, hn⟩, hlt, hsm.symm, hsn.symm⟩) hnot
    · exact heq
    · exact absurd (duplicate_iff_exists_distinct_get.2
        ⟨⟨n, hn⟩, ⟨m, hm⟩, hlt, hsn.symm, hsm.symm⟩) hnot
  subst hmn
  rw [hma] at hnb
  cases hnb
  rfl

section Agreement

variable [AlphanumericTable] {mapping : ColumnMapping} {select : TargetSelectByPk}
  {statement : TargetUpsert} {planner : Planner} {missingKey : MissingKeyPolicy}
  {mapRemoveNullValue : Bool} {binder : Binder}

theorem resolve_eq_ok (h : resolve mapping select missingKey = .ok plan) :
    select.boundKeyColumns.mapM (resolveSlot mapping missingKey) = .ok plan.slots := by
  obtain ⟨slots, hslots, rfl⟩ := map_eq_ok.1 h
  exact hslots

/-- What a slot that reads the origin comes from. -/
theorem resolveSlot_origin {name : String} {i : ℕ} {substitute : Option KeySubstitute}
    (h : resolveSlot mapping missingKey name = .ok (.origin i, substitute)) :
    mapping.sourceOf name = some (.origin i) ∧
      substituteFor mapping name i missingKey = .ok substitute := by
  unfold resolveSlot at h
  split at h
  · rename_i index hsource
    obtain ⟨s, hs, heq⟩ := map_eq_ok.1 h
    cases heq
    exact ⟨hsource, hs⟩
  all_goals cases h

/-- A mirrored substitute belongs to a cell that one column reads. -/
theorem soleReader_of_mirror {name : String} {i : ℕ} {substitute : KeySubstitute}
    (h : substituteFor mapping name i missingKey = .ok (some substitute))
    (hmirror : substitute.mirror = true) : soleReader mapping i = true := by
  unfold substituteFor at h
  split at h
  · cases h
  · obtain ⟨targetType, -, h⟩ := bind_eq_ok.1 h
    split at h
    · cases h
    · obtain ⟨sameType, -, h⟩ := bind_eq_ok.1 h
      cases h
      exact (Bool.and_eq_true_iff.1 hmirror).2

/-- A resolved plan replaces a cell in one way. -/
theorem coherent_of_resolve (h : resolve mapping select missingKey = .ok plan) :
    plan.Coherent := by
  intro i substitute mirrored hslot hmem hmirror
  obtain ⟨m, hm⟩ := mem_iff_getElem?.1 hslot
  obtain ⟨n, hn⟩ := mem_iff_getElem?.1 hmem
  obtain ⟨a, -, ha⟩ := mapM_getElem? (resolve_eq_ok h) m hm
  obtain ⟨b, -, hb⟩ := mapM_getElem? (resolve_eq_ok h) n hn
  obtain ⟨hsa, hsubst⟩ := resolveSlot_origin ha
  obtain ⟨hsb, hmirrored⟩ := resolveSlot_origin hb
  have hab := name_eq_of_soleReader (soleReader_of_mirror hmirrored hmirror) hsa hsb
  subst hab
  rw [hsubst] at hmirrored
  exact Except.ok.inj hmirrored

/-! ### When the two keys agree -/

/-- The column of the binder that a bound key column of the lookup stands for. -/
theorem resolves_named (hselect : TargetSelectByPk.new mapping = .ok select)
    (hbinder : Binder.new mapping statement planner missingKey mapRemoveNullValue = .ok binder)
    {name : String} (hname : name ∈ select.boundKeyColumns) {index : ℕ}
    (hindex : binder.columns.findIdx? (·.name = name) = some index) :
    ∃ column target, binder.columns[index]? = some column ∧ column.name = name ∧
      Binder.Resolves mapping planner target index column ∧ column.isKey = true ∧
      mapping.sourceOf name = some column.source ∧
      mapping.targetColumns.find? (·.name = name) = some target := by
  obtain ⟨hlt, hat, -⟩ := findIdx?_eq_some_iff_getElem.1 hindex
  have hcolumn : binder.columns[index]? = some binder.columns[index] :=
    getElem?_eq_getElem hlt
  have hcname : binder.columns[index].name = name := by simpa using hat
  obtain ⟨target, htarget, hres⟩ := Binder.resolves_getElem? hbinder hcolumn
  have htname : target.name = name := hres.name.symm.trans hcname
  have hmem : target ∈ mapping.targetTable.columns := mem_of_getElem? htarget
  obtain ⟨key, hkey, hkname⟩ := TargetSelectByPk.mem_boundKeyColumns hselect hname
  obtain ⟨hkmem, hiskey⟩ := mapping.targetTable.mem_primaryKey.1 hkey
  have hsame : key = target :=
    mapping.targetTable.eq_of_name_eq hkmem hmem (hkname.trans htname.symm)
  subst hsame
  have hidx : mapping.targetColumns.findIdx? (·.name = name) = some index := by
    have h := congrArg (List.findIdx? (· = name)) (Binder.map_name_columns hbinder)
    rw [findIdx?_map, findIdx?_map] at h
    exact h.symm.trans hindex
  have hsrc : mapping.source index = some binder.columns[index].source := by
    obtain ⟨hltt, -⟩ := List.getElem?_eq_some_iff.1 htarget
    have hlts : index < mapping.sources.length := by
      rw [mapping.length_sources]
      exact hltt
    rw [hres.source, ColumnMapping.source, getElem?_eq_getElem hlts]
    rfl
  refine ⟨_, key, hcolumn, hcname, hres, hres.isKey.trans hiskey, ?_, ?_⟩
  · rw [ColumnMapping.sourceOf, sourceNamed, hidx]
    exact hsrc
  · cases hfind : mapping.targetColumns.find? (·.name = name) with
    | none =>
      rw [find?_eq_none] at hfind
      exact absurd (by simpa using htname) (hfind key hmem)
    | some found =>
      have hfmem : found ∈ mapping.targetTable.columns := mem_of_find?_eq_some hfind
      have hfname : found.name = name := by simpa using find?_some hfind
      rw [mapping.targetTable.eq_of_name_eq hfmem hmem (hfname.trans htname.symm)]

/-- One component: the lookup's value is the written one exactly when that is written verbatim. -/
theorem slotValue_eq_iff {column : ColumnBind} {target : ColumnMeta} {index : ℕ} {name : String}
    (hres : Binder.Resolves mapping planner target index column) (hkey : column.isKey = true)
    (hsource : mapping.sourceOf name = some column.source)
    (hfind : mapping.targetColumns.find? (·.name = name) = some target)
    {slot : TargetKeySlot × Option KeySubstitute}
    (hslot : resolveSlot mapping binder.missingKey name = .ok slot)
    {inputs : BindInputs} {value : BoundValue}
    (hbind : binder.bindColumn column row inputs = .ok value) :
    slotValue row ⟨inputs.explodeKey, inputs.explodeValue⟩ slot = value.bytes ↔
      WrittenVerbatim binder row ⟨inputs.explodeKey, inputs.explodeValue⟩ column := by
  rw [resolveSlot, hsource] at hslot
  cases hsrc : column.source with
  | origin i =>
    rw [hsrc] at hslot
    obtain ⟨substitute, hsub, rfl⟩ := map_eq_ok.1 hslot
    simp only [WrittenVerbatim, hsrc]
    rcases Binder.bindColumn_eq_ok hbind with ⟨hnone, habsent⟩ | ⟨bytes, hsome, hpresent⟩
    · -- a null cell: both sides take the substitute of the same policy
      obtain ⟨bytes, hpolicy, rfl⟩ := Binder.absentValue_of_isKey hkey habsent
      have hcell : row.cells[i]? = some none := by
        rcases (Binder.rawValue_origin_eq_ok hsrc).1 hnone with ⟨hcell, -⟩ | ⟨_, _, -, -, h⟩
        · exact hcell
        · cases h
      have hvalue : substitute.bind KeySubstitute.value = some bytes := by
        rw [substituteFor, hfind] at hsub
        simp only [hres.cqlType, bind, Except.bind, hpolicy] at hsub
        split at hsub
        · cases hsub
        · cases hsub
          rfl
      simp [slotValue, cellAt, hcell, hvalue, BoundValue.bytes]
    · obtain ⟨out, hstrip, rfl⟩ := Binder.presentValue_of_isKey hkey hpresent
      rcases (Binder.rawValue_origin_eq_ok hsrc).1 hsome with
        ⟨-, h⟩ | ⟨cell, converted, hcell, hconvert, h⟩
      · cases h
      · cases h
        have hiff := hres.written_eq_iff hconvert hstrip
        simp only [slotValue, cellAt, hcell, Option.join_some, BoundValue.bytes, Option.some.injEq,
          forall_eq']
        rw [eq_comm]
        exact hiff
  | explodeKey =>
    rw [hsrc] at hslot
    cases hslot
    simp only [WrittenVerbatim, hsrc]
    exact half_eq_iff hkey (by simp [Binder.rawValue, hsrc, slotValue]) hbind
  | explodeValue =>
    rw [hsrc] at hslot
    cases hslot
    simp only [WrittenVerbatim, hsrc]
    exact half_eq_iff hkey (by simp [Binder.rawValue, hsrc, slotValue]) hbind
  | constant _ =>
    rw [hsrc] at hslot
    cases hslot
  | extractJson _ =>
    rw [hsrc] at hslot
    cases hslot
  | absent =>
    rw [hsrc] at hslot
    cases hslot

/-- The key of a row is the key the write binds exactly when the binder writes every bound key
column verbatim. -/
theorem keyOf_eq_iff (hselect : TargetSelectByPk.new mapping = .ok select)
    (hbinder : Binder.new mapping statement planner missingKey mapRemoveNullValue = .ok binder)
    {binding : List ℕ} (hbinding : binder.keyBinding select = .ok binding)
    (hplan : resolve mapping select missingKey = .ok plan) {row : Row} {inputs : BindInputs}
    {values : BoundWrite} (hbind : binder.bindKey binding row inputs = .ok values) :
    (plan.keyOf row ⟨inputs.explodeKey, inputs.explodeValue⟩).values =
        values.map BoundValue.bytes ↔
      ∀ column ∈ binder.columns, column.name ∈ select.boundKeyColumns →
        WrittenVerbatim binder row ⟨inputs.explodeKey, inputs.explodeValue⟩ column := by
  -- slots, indices and values are functions of the name of the key column
  obtain ⟨hslots, hslot⟩ := mapM_eq_ok_map (.explodeKey, none) (resolve_eq_ok hplan)
  obtain ⟨hindices, hindex⟩ := mapM_eq_ok_map 0 hbinding
  obtain ⟨hvalues, hvalue⟩ := mapM_eq_ok_map .unset (Binder.bindKey_eq_ok hbind)
  obtain ⟨-, -, hpolicy, -⟩ := Binder.new_eq_ok hbinder
  have component (name : String) (hname : name ∈ select.boundKeyColumns) :
      ∃ column ∈ binder.columns, column.name = name ∧
        (slotValue row ⟨inputs.explodeKey, inputs.explodeValue⟩
            (getD (resolveSlot mapping missingKey name) (.explodeKey, none)) =
          (getD (binder.bindIndexed row inputs 0
            (getD (binder.keyIndex name) 0)) .unset).bytes ↔
        WrittenVerbatim binder row ⟨inputs.explodeKey, inputs.explodeValue⟩ column) := by
    have hfound := hindex name hname
    have hmem : getD (binder.keyIndex name) 0 ∈ binding := by
      rw [hindices]
      exact mem_map_of_mem hname
    obtain ⟨column, hcolumn, hbound⟩ := Binder.bindIndexed_eq_ok.1 (hvalue _ hmem)
    obtain ⟨column', target, hcolumn', hcname, hres, hkey, hsource, hfind⟩ :=
      resolves_named hselect hbinder hname (Binder.keyIndex_eq_ok.1 hfound)
    rw [hcolumn] at hcolumn'
    cases hcolumn'
    refine ⟨column, mem_of_getElem? hcolumn, hcname, ?_⟩
    rw [← hpolicy] at hslot ⊢
    exact slotValue_eq_iff hres hkey hsource hfind (hslot name hname) hbound
  have hnodup : (binder.columns.map ColumnBind.name).Nodup := by
    rw [Binder.map_name_columns hbinder]
    exact mapping.targetTable.nodup
  rw [keyOf, hslots, hvalues, hindices, map_map, map_map, map_map,
    map_inj_left]
  constructor
  · intro h column hcolumn hname
    obtain ⟨column', hcolumn', hcname, hiff⟩ := component column.name hname
    have hsame : column' = column := inj_on_of_nodup_map hnodup hcolumn' hcolumn hcname
    rw [hsame] at hiff
    exact hiff.1 (h column.name hname)
  · intro h name hname
    obtain ⟨column, hcolumn, hcname, hiff⟩ := component name hname
    exact hiff.2 (h column hcolumn (by rwa [hcname]))

/-- The key derived for the lookup, from the row or from the row with its null key cells replaced,
is component by component the key the write binds, exactly when the binder writes every bound key
column verbatim. -/
theorem keyOf_eq_bindKey_iff (hselect : TargetSelectByPk.new mapping = .ok select)
    (hbinder : Binder.new mapping statement planner missingKey mapRemoveNullValue = .ok binder)
    {binding : List ℕ} (hbinding : binder.keyBinding select = .ok binding)
    (hplan : resolve mapping select missingKey = .ok plan) {row : Row} {inputs : BindInputs}
    {values : BoundWrite} (hbind : binder.bindKey binding row inputs = .ok values) :
    ((plan.keyOf row ⟨inputs.explodeKey, inputs.explodeValue⟩).values =
        values.map BoundValue.bytes ∧
      (plan.keyOf (plan.scanned row) ⟨inputs.explodeKey, inputs.explodeValue⟩).values =
        values.map BoundValue.bytes) ↔
      ∀ column ∈ binder.columns, column.name ∈ select.boundKeyColumns →
        WrittenVerbatim binder row ⟨inputs.explodeKey, inputs.explodeValue⟩ column := by
  rw [keyOf_scanned (coherent_of_resolve hplan), and_self]
  exact keyOf_eq_iff hselect hbinder hbinding hplan hbind

end Agreement

end TargetKeyPlan

/-! ### An `int` key copied into a `text` key

The write converts the key to its decimal text; the lookup asks for the four bytes of the `int`. -/

namespace KeySample

local instance : AlphanumericTable := AlphanumericTable.ascii

/-- The decimal text of a non-negative `int`. -/
def intToText : Converter
  | none => .ok none
  | some bytes => .ok (some
      ((Nat.toDigits 10 (BigEndian.toInt bytes).toNat).map fun c => UInt8.ofNat c.toNat))

def planner : Planner := ⟨⟨[⟨.primitive .int, .primitive .text, intToText⟩]⟩, false⟩

def origin : TableSchema where
  keyspace := "ks"
  table := "src"
  columns := [⟨"id", "int", .partitionKey, 0⟩, ⟨"cc", "text", .clustering, 0⟩]
  nodup := by decide

def target : TableSchema where
  keyspace := "ks"
  table := "dst"
  columns := [⟨"id", "text", .partitionKey, 0⟩, ⟨"cc", "text", .clustering, 0⟩]
  nodup := by decide

def mapping : ColumnMapping where
  originColumns := origin.columns
  sources := [.origin 0, .origin 1]
  originTable := origin
  targetTable := target
  length_sources := rfl
  originIndex_lt := by decide
  key_derivable := by decide

example : ColumnMapping.resolve origin target {} = .ok mapping := rfl

def select : TargetSelectByPk := ⟨"SELECT id,cc FROM ks.dst WHERE id=? AND cc=?", ["id", "cc"]⟩

def statement : TargetUpsert := TargetUpsert.insert mapping ⟨false, false⟩

def binder : Binder where
  statement := statement
  columns := [⟨"id", .primitive .text, "text", .codec intToText, .origin 0, true⟩,
    ⟨"cc", .primitive .text, "text", .passthrough, .origin 1, true⟩]
  missingKey := {}
  mapRemoveNullValue := false

def plan : TargetKeyPlan :=
  ⟨[(.origin 0, some ⟨some [], false⟩), (.origin 1, some ⟨some [], true⟩)]⟩

/-- The lookup asks for the bytes of the `int` 7, the write binds the text. -/
theorem keyOf_ne_bindKey :
    TargetSelectByPk.new mapping = .ok select ∧
      Binder.new mapping statement planner {} false = .ok binder ∧
      binder.keyBinding select = .ok [0, 1] ∧
      TargetKeyPlan.resolve mapping select {} = .ok plan ∧
      binder.bindKey [0, 1] ⟨[some [0, 0, 0, 7], none]⟩ {} = .ok [.value [55], .value []] ∧
      (plan.keyOf ⟨[some [0, 0, 0, 7], none]⟩ {}).values ≠
        [BoundValue.value [55], .value []].map BoundValue.bytes :=
  ⟨rfl, rfl, rfl, rfl, rfl, by decide⟩

/-- A null `int` is written as the empty string, and looked up so. -/
theorem keyOf_eq_bindKey_of_null :
    (plan.keyOf ⟨[none, some [97]]⟩ {}).values = [some [], some [97]] ∧
      (plan.keyOf (plan.scanned ⟨[none, some [97]]⟩) {}).values = [some [], some [97]] := by
  have hselect : TargetSelectByPk.new mapping = .ok select := rfl
  have hbinder : Binder.new mapping statement planner {} false = .ok binder := rfl
  have hbinding : binder.keyBinding select = .ok [0, 1] := rfl
  have hplan : TargetKeyPlan.resolve mapping select {} = .ok plan := rfl
  have hbind : binder.bindKey [0, 1] ⟨[none, some [97]]⟩ {} = .ok [.value [], .value [97]] := rfl
  refine (TargetKeyPlan.keyOf_eq_bindKey_iff hselect hbinder hbinding hplan hbind).2 ?_
  intro column hcolumn _
  rcases mem_pair.1 hcolumn with rfl | rfl
  · intro bytes h
    cases h
  · intro bytes h
    cases h
    exact ⟨rfl, fun hremove => by cases hremove⟩

end KeySample

end Cdm
