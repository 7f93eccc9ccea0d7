import Cdm.Codec.Codecset
import Cdm.Codec.RoundTrip
import Cdm.Cql.Bound
import Cdm.Jobs.Compare

/-!
# What is written compares as valid

A migration binds a row, and a validation compares the row with what the target holds.  The two
decide on their own what is null, what is empty and how a value is converted; here it is worked out
when they agree, that is, when a record is valid against the row its own upsert leaves.
-/

namespace Cdm

open List Wire
open Fallible

/-! ### Emptiness and null entries survive a conversion -/

theorem isEmptyCollection_writeI32 {count : ℤ} (h : -2 ^ 31 ≤ count ∧ count < 2 ^ 31) (rest : Bytes) :
    isEmptyCollection (writeI32 count ++ rest) = decide (count = 0) := by
  have htake : (writeI32 count ++ rest).take 4 = writeI32 count :=
    take_left' (length_writeI32 count)
  have hlen : 4 ≤ (writeI32 count ++ rest).length := by simp
  rw [isEmptyCollection, if_pos hlen, htake, writeI32,
    BigEndian.toInt_ofInt (by omega) (by omega)]

theorem isEmptyCollection_of_isSequence {elements : List RawCell} {bytes : Bytes}
    (h : Wire.IsSequence elements bytes) : isEmptyCollection bytes = decide (elements.length = 0) := by
  obtain ⟨hlt, out, -, rfl⟩ := h
  rw [isEmptyCollection_writeI32 (by omega)]
  simp

theorem noNullValues_of_isMap {count : ℤ} {entries : List (RawCell × RawCell)} {bytes : Bytes}
    (h : Wire.IsMap count entries bytes) :
    Wire.NoNullValues bytes ↔ ∀ entry ∈ entries, entry.2 ≠ none := by
  obtain ⟨rest, hcount, htake⟩ := h.read
  constructor
  · exact fun hnn => hnn count rest entries [] hcount htake
  · intro hall count' rest' entries' behind hcount' htake'
    cases hcount.symm.trans hcount'
    cases htake.symm.trans htake'
    exact hall

namespace Planner

open ConversionPlan

variable {planner : Planner}

theorem keepFirst_nil_eq_nil {elements : List RawCell} :
    keepFirst [] elements = [] ↔ elements = [] := by
  rw [eq_nil_iff_forall_not_mem, eq_nil_iff_forall_not_mem]
  simp only [mem_keepFirst, not_mem_nil, false_or]

/-- Converting a value that comes back keeps a collection empty or not empty. -/
theorem isEmptyCollection_apply {a b : CqlTypeInfo} (hb : isJavaCollection b = true) {bytes : Bytes}
    (hcanonical : planner.Canonical a b bytes) {out : Bytes}
    (h : (planner.planTypes a b).apply (some bytes) = .ok (some out)) :
    isEmptyCollection out = isEmptyCollection bytes := by
  by_cases hid : (planner.planTypes a b).isIdentity = true
  · rw [apply_of_isIdentity hid] at h
    cases h
    rfl
  rw [Bool.not_eq_true] at hid
  have hkind := sameKind_of_isIdentity hid
  unfold Canonical at hcanonical
  rw [hid] at hcanonical
  replace hcanonical := hcanonical.resolve_left (by simp)
  cases b with
  | list b fb =>
    cases a with
    | list a fa =>
      obtain ⟨elements, hseq, -⟩ := hcanonical
      rw [planTypes_list hid, apply_list] at h
      obtain ⟨_, happly, heq⟩ := map_eq_ok.1 h
      cases heq
      obtain ⟨converted, hmap, hout⟩ := (applySequence_of_isSequence hseq).1 happly
      simp only [Bool.false_eq_true, if_false] at hout
      rw [isEmptyCollection_of_isSequence hseq, isEmptyCollection_of_isSequence hout,
        length_mapM hmap]
    | _ => cases hkind
  | set b fb =>
    cases a with
    | set a fa =>
      obtain ⟨elements, hseq, -⟩ := hcanonical
      rw [planTypes_set hid, apply_set] at h
      obtain ⟨_, happly, heq⟩ := map_eq_ok.1 h
      cases heq
      obtain ⟨converted, hmap, hout⟩ := (applySequence_of_isSequence hseq).1 happly
      simp only [if_true] at hout
      rw [isEmptyCollection_of_isSequence hseq, isEmptyCollection_of_isSequence hout,
        ← length_mapM hmap]
      simp [length_eq_zero_iff, keepFirst_nil_eq_nil]
    | _ => cases hkind
  | map kb vb fb =>
    cases a with
    | map ka va fa =>
      obtain ⟨count, entries, hframed, -⟩ := hcanonical
      rw [planTypes_entries hid, apply_entries] at h
      obtain ⟨_, happly, heq⟩ := map_eq_ok.1 h
      cases heq
      obtain ⟨converted, hmap, hout⟩ := (applyMap_of_isMap hframed).1 happly
      obtain ⟨hrange, -, written, -, rfl⟩ := hframed
      obtain ⟨-, -, written', -, rfl⟩ := hout
      rw [isEmptyCollection_writeI32 hrange, isEmptyCollection_writeI32 hrange]
    | _ => cases hkind
  | _ => cases hb

/-- A conversion into a map, or from one, leaves the count at its front. -/
theorem take_apply {a b : CqlTypeInfo} (hmap : isMap a = true ∨ isMap b = true) {x y : Bytes}
    (h : (planner.planTypes a b).apply (some x) = .ok (some y)) : y.take 4 = x.take 4 := by
  by_cases hid : (planner.planTypes a b).isIdentity = true
  · rw [apply_of_isIdentity hid] at h
    cases h
    rfl
  rw [Bool.not_eq_true] at hid
  have hkind := sameKind_of_isIdentity hid
  cases a with
  | map ka va fa =>
    cases b with
    | map kb vb fb =>
      rw [planTypes_entries hid, apply_entries] at h
      obtain ⟨_, happly, heq⟩ := map_eq_ok.1 h
      cases heq
      obtain ⟨count, rest, entries, behind, converted, hcount, -, -, -, -, written, -, rfl⟩ :=
        applyMap_eq_ok.1 happly
      obtain ⟨rfl, -⟩ := takeI32_eq_ok.1 hcount
      rw [take_left' (length_writeI32 count), take_left' (length_writeI32 count)]
    | _ => cases hkind
  | _ =>
    refine hmap.elim (fun h => by cases h) fun h => ?_
    obtain ⟨kb, vb, fb, rfl⟩ := Binder.isMap_iff.1 h
    cases hkind

/-- Converting a map that comes back makes no value null and no null a value. -/
theorem noNullValues_apply (hinverse : planner.registry.MutuallyInverse) {a b : CqlTypeInfo}
    (ha : a.Unresolved) (hmap : isMap b = true) {bytes : Bytes}
    (hcanonical : planner.Canonical a b bytes) {out : Bytes}
    (h : (planner.planTypes a b).apply (some bytes) = .ok (some out)) :
    Wire.NoNullValues out ↔ Wire.NoNullValues bytes := by
  by_cases hid : (planner.planTypes a b).isIdentity = true
  · rw [apply_of_isIdentity hid] at h
    cases h
    rfl
  rw [Bool.not_eq_true] at hid
  have hkind := sameKind_of_isIdentity hid
  unfold Canonical at hcanonical
  rw [hid] at hcanonical
  replace hcanonical := hcanonical.resolve_left (by simp)
  cases b with
  | map kb vb fb =>
    cases a with
    | map ka va fa =>
      obtain ⟨count, entries, hframed, -⟩ := hcanonical
      rw [planTypes_entries hid, apply_entries] at h
      obtain ⟨_, happly, heq⟩ := map_eq_ok.1 h
      cases heq
      obtain ⟨converted, hmapped, hout⟩ := (applyMap_of_isMap hframed).1 happly
      rw [noNullValues_of_isMap hframed, noNullValues_of_isMap hout]
      have hsame := mapM_eq_ok hmapped
      clear hmapped hframed hout happly
      induction hsame with
      | nil => simp
      | @cons entry out _ _ hentry _ ih =>
        have hvalue := (convertEntry_eq_ok.1 hentry).2
        rw [applyElement_apply] at hvalue
        have hnone := apply_eq_none_iff hinverse ha.2 hvalue
        simp only [forall_mem_cons, ne_eq, hnone]
        exact and_congr_right' ih
    | _ => cases hkind
  | _ => cases hmap

end Planner

/-! ### A value there and back -/

/-- A value goes into a column of type `target` as it is: it is no empty collection, which is left
unset, and no map with null values where these are removed. -/
def WrittenWhole (mapRemoveNullValue : Bool) (target : CqlTypeInfo) (bytes : Bytes) : Prop :=
  ¬(isJavaCollection target = true ∧ isEmptyCollection bytes = true) ∧
    (mapRemoveNullValue = true → isMap target = true → Wire.NoNullValues bytes)

namespace Binder

variable {binder : Binder} {planner : Planner} {column : ColumnBind}

/-- A value that has lost an entry does not convert back into what it comes from: the conversions
keep the count of a map. -/
theorem stripped_eq_self_of_back {a : CqlTypeInfo} {bytes converted out : Bytes}
    (hconvert : (planner.planTypes a column.cqlType).apply (some bytes) = .ok (some converted))
    (hstrip : binder.stripped column converted = .ok out)
    (hback : (planner.planTypes column.cqlType a).apply (some out) = .ok (some bytes)) :
    out = converted := by
  by_contra hne
  have hkeeps := (stripped_eq_self_iff hstrip).not.1 hne
  simp only [KeepsEntries, Classical.not_imp] at hkeeps
  obtain ⟨hremove, hmap, hnull⟩ := hkeeps
  rw [stripped, hremove, hmap, Bool.and_self, if_pos rfl] at hstrip
  have hthere := Planner.take_apply (.inr hmap) hconvert
  have hreturn := Planner.take_apply (.inl hmap) hback
  obtain ⟨hnn, -⟩ | ⟨-, count, rest, less, kept, rfl, rfl, hless, hlt, hhi⟩ :=
    stripNullMapValues_eq_ok hstrip
  · exact hnull hnn
  · rw [hreturn, take_left' (length_writeI32 _), take_left' (length_writeI32 _)]
      at hthere
    have hcount := (writeI32_inj (by omega) (by omega) (congrArg (· ++ []) hthere)).1
    omega

/-- A value comes back from the target exactly when it is written whole and in canonical form. -/
theorem written_back_iff (hinverse : planner.registry.MutuallyInverse) {a : CqlTypeInfo}
    (ha : a.Unresolved) (hb : column.cqlType.Unresolved) {bytes converted out : Bytes}
    (hconvert : (planner.planTypes a column.cqlType).apply (some bytes) = .ok (some converted))
    (hstrip : binder.stripped column converted = .ok out) :
    ¬(isJavaCollection column.cqlType = true ∧ isEmptyCollection out = true) ∧
        (planner.planTypes column.cqlType a).apply (some out) = .ok (some bytes) ↔
      WrittenWhole binder.mapRemoveNullValue column.cqlType bytes ∧
        planner.Canonical a column.cqlType bytes := by
  have hundone := Planner.undone hinverse a column.cqlType ha hb hconvert
  simp only [Option.some.injEq, forall_eq'] at hundone
  have hempty (hcanonical : planner.Canonical a column.cqlType bytes) :
      (isJavaCollection column.cqlType = true ∧ isEmptyCollection converted = true) ↔
        isJavaCollection column.cqlType = true ∧ isEmptyCollection bytes = true := by
    refine and_congr_right fun hcollection => ?_
    rw [Planner.isEmptyCollection_apply hcollection hcanonical hconvert]
  have hnull (hcanonical : planner.Canonical a column.cqlType bytes) :
      binder.KeepsEntries column converted ↔ binder.KeepsEntries column bytes := by
    refine imp_congr_right fun _ => forall_congr' fun hmap => ?_
    exact Planner.noNullValues_apply hinverse ha hmap hcanonical hconvert
  constructor
  · rintro ⟨hwritten, hback⟩
    obtain rfl := stripped_eq_self_of_back hconvert hstrip hback
    have hcanonical := hundone.1 hback
    refine ⟨⟨(hempty hcanonical).not.1 hwritten, ?_⟩, hcanonical⟩
    exact (hnull hcanonical).1 ((stripped_eq_self_iff hstrip).1 rfl)
  · rintro ⟨⟨hwritten, hkeeps⟩, hcanonical⟩
    obtain rfl := (stripped_eq_self_iff hstrip).2 ((hnull hcanonical).2 hkeeps)
    exact ⟨(hempty hcanonical).not.2 hwritten, hundone.2 hcanonical⟩

end Binder

/-! ### A column there and back -/

/-- What a cell has to satisfy to come back from a column: a null must be none of a key column, which
would be substituted, and a value must be written whole and in canonical form. -/
def ComesBack (mapRemoveNullValue isKey : Bool) (target : CqlTypeInfo) (canonical : Bytes → Prop) :
    RawCell → Prop
  | none => isKey = false
  | some bytes => WrittenWhole mapRemoveNullValue target bytes ∧ canonical bytes

/-- A target row holds what was bound for its columns, and null where nothing was. -/
def Upserted (binder : Binder) (values : BoundWrite) (row : Row) : Prop :=
  ∀ index value, binder.valueOf values index = some value → (row.cells[index]?).join = value.bytes

section Faithful

variable [AlphanumericTable]

/-- What the record holds for the target column at `index` comes back from it. -/
def FaithfulAt (mapping : ColumnMapping) (planner : Planner) (mapRemoveNullValue : Bool)
    (record : Record) (target : ColumnMeta) (index : ℕ) : Prop :=
  ∀ targetType, CqlTypeInfo.parse target.cqlType = .ok targetType →
    match (mapping.source index).getD .absent with
    | .origin i =>
      ∀ origin originType, mapping.originColumns[i]? = some origin →
        CqlTypeInfo.parse origin.cqlType = .ok originType →
        ∃ cell, record.origin.cells[i]? = some cell ∧
          ComesBack mapRemoveNullValue target.kind.isKey targetType
            (planner.Canonical originType targetType) cell
    | .explodeKey =>
      ∃ entry, record.exploded = some entry ∧
        ComesBack mapRemoveNullValue target.kind.isKey targetType (fun _ => True) entry.key
    | .explodeValue =>
      ∃ entry, record.exploded = some entry ∧
        ComesBack mapRemoveNullValue target.kind.isKey targetType (fun _ => True) entry.value
    | .constant _ | .extractJson _ | .absent => True

/-- What the record holds comes back from every column of the target. -/
def Faithful (mapping : ColumnMapping) (planner : Planner) (mapRemoveNullValue : Bool)
    (record : Record) : Prop :=
  ∀ index target, mapping.targetColumns[index]? = some target →
    FaithfulAt mapping planner mapRemoveNullValue record target index

end Faithful

theorem ComparisonPlan.converted_eq (column : ColumnCompare) (bytes : Bytes) :
    ComparisonPlan.converted column bytes = column.plan.apply (some bytes) := by
  rw [ComparisonPlan.converted]
  split_ifs with hid
  · exact (ConversionPlan.apply_of_isIdentity hid _).symm
  · rfl

/-- A cell agrees with what was bound for it exactly when it comes back. -/
theorem compareValues_bound_iff {binder : Binder} {column : ColumnBind} {compared : ColumnCompare}
    {cell : RawCell} {value : BoundValue} {canonical : Bytes → Prop} {originIndex : ℤ}
    (h : (cell = none ∧ binder.absentValue column = .ok value) ∨
      ∃ bytes converted, cell = some bytes ∧ binder.presentValue column converted = .ok value ∧
        ∀ out, binder.stripped column converted = .ok out →
          (¬(isJavaCollection column.cqlType = true ∧ isEmptyCollection out = true) ∧
              compared.plan.apply (some out) = .ok (some bytes) ↔
            WrittenWhole binder.mapRemoveNullValue column.cqlType bytes ∧ canonical bytes)) :
    ComparisonPlan.compareValues compared cell value.bytes originIndex = none ↔
      ComesBack binder.mapRemoveNullValue column.isKey column.cqlType canonical cell := by
  rw [ComparisonPlan.compareValues_eq_none_iff]
  obtain ⟨rfl, habsent⟩ | ⟨bytes, converted, rfl, hpresent, hiff⟩ := h
  · simp only [ComesBack]
    by_cases hkey : column.isKey = true
    · -- a null key is substituted, and the target has a value where the origin has none
      obtain ⟨substitute, -, rfl⟩ := Binder.absentValue_of_isKey hkey habsent
      simp [hkey, BoundValue.bytes]
    · rw [Bool.not_eq_true] at hkey
      rw [Binder.absentValue, hkey] at habsent
      cases habsent
      simp [hkey, BoundValue.bytes]
  · obtain ⟨out, hout, hvalue⟩ := bind_eq_ok.1 hpresent
    rw [ComesBack, ← hiff out hout]
    split_ifs at hvalue with hempty hkey
    · -- an empty collection is left unset
      cases hvalue
      rw [Bool.and_eq_true] at hempty
      simp [hempty, BoundValue.bytes]
    · cases hvalue
      rw [Bool.and_eq_true] at hempty
      simp [hempty, BoundValue.bytes, ComparisonPlan.converted_eq]

/-- A value that is not converted comes back exactly when it is written whole. -/
theorem written_back_iff_of_passthrough {binder : Binder} {column : ColumnBind} {bytes out : Bytes}
    (hstrip : binder.stripped column bytes = .ok out) :
    ¬(isJavaCollection column.cqlType = true ∧ isEmptyCollection out = true) ∧
        ConversionPlan.passthrough.apply (some out) = .ok (some bytes) ↔
      WrittenWhole binder.mapRemoveNullValue column.cqlType bytes ∧ True := by
  have hsame : ConversionPlan.passthrough.apply (some out) = .ok (some bytes) ↔ out = bytes := by
    rw [ConversionPlan.apply_of_isIdentity rfl]
    simp
  rw [hsame, and_true]
  constructor
  · rintro ⟨hwritten, rfl⟩
    exact ⟨hwritten, (Binder.stripped_eq_self_iff hstrip).1 rfl⟩
  · rintro ⟨hwritten, hkeeps⟩
    obtain rfl := (Binder.stripped_eq_self_iff hstrip).2 hkeeps
    exact ⟨hwritten, rfl⟩

section Columns

variable [AlphanumericTable] {mapping : ColumnMapping} {planner : Planner} {binder : Binder}
  {target : ColumnMeta} {index : ℕ} {column : ColumnBind}

theorem Binder.Resolves.parse (h : Resolves mapping planner target index column) :
    CqlTypeInfo.parse target.cqlType = .ok column.cqlType := by
  have htype := h.cqlType
  rw [parseType, mapError_eq_ok] at htype
  exact htype

theorem Binder.Resolves.source_mem (h : Resolves mapping planner target index column)
    (htarget : mapping.targetColumns[index]? = some target) : column.source ∈ mapping.sources := by
  obtain ⟨hlt, -⟩ := List.getElem?_eq_some_iff.1 htarget
  have hlts : index < mapping.sources.length := by
    rw [mapping.length_sources]
    exact hlt
  rw [h.source, ColumnMapping.source, getElem?_eq_getElem hlts]
  exact getElem_mem hlts

/-- No key column is without a source. -/
theorem Binder.Resolves.isKey_of_absent (h : Resolves mapping planner target index column)
    (htarget : mapping.targetColumns[index]? = some target) (hsource : column.source = .absent) :
    column.isKey = false := by
  rw [h.isKey, ← Bool.not_eq_true]
  intro hkey
  have hmem : target ∈ mapping.targetTable.primaryKey :=
    mapping.targetTable.mem_primaryKey.2 ⟨mem_of_getElem? htarget, hkey⟩
  have hsupplied := mapping.key_derivable target hmem
  have hsourceOf := h.sourceOf htarget
  rw [h.name, hsource] at hsourceOf
  rw [show sourceNamed mapping.targetTable.columns mapping.sources target.name =
    some .absent from hsourceOf] at hsupplied
  cases hsupplied

omit [AlphanumericTable] in
/-- What an origin column binds for a value, as the conversion that makes it. -/
theorem Binder.convert_eq_ok (hinverse : planner.registry.MutuallyInverse) {a : CqlTypeInfo}
    (ha : a.Unresolved) (hplan : column.plan = planner.planTypes a column.cqlType)
    {bytes converted : Bytes} (h : convert column bytes = .ok converted) :
    (planner.planTypes a column.cqlType).apply (some bytes) = .ok (some converted) := by
  rw [convert, hplan] at h
  split_ifs at h with hid
  · cases h
    exact ConversionPlan.apply_of_isIdentity hid _
  · obtain ⟨cell, happly, hcell⟩ := map_eq_ok.1 h
    rw [happly]
    cases cell with
    | none => exact absurd ((Planner.apply_eq_none_iff hinverse ha happly).1 rfl) (by simp)
    | some out =>
      cases hcell
      rfl

variable [LiteralParsers] [SerdeJson] {plan : ComparisonPlan} {compared : ColumnCompare}
  {record : Record} {row : Row} {inputs : BindInputs} {value : BoundValue}

omit [AlphanumericTable] [LiteralParsers] [SerdeJson] in
/-- One half of an exploded entry, which is not converted, agrees with what was bound for it exactly
when it comes back. -/
theorem compareExploded_bound_iff {half : ExplodedHalf} {entry : ExplodedEntry}
    (hplan : compared.plan = .passthrough)
    (hraw : Binder.rawValue column record.origin inputs = .ok (half.cellOf entry))
    (hbound : binder.bindColumn column record.origin inputs = .ok value) {originIndex : ℤ} :
    ComparisonPlan.compareValues compared (half.cellOf entry) value.bytes originIndex = none ↔
      ComesBack binder.mapRemoveNullValue column.isKey column.cqlType (fun _ => True)
        (half.cellOf entry) := by
  apply compareValues_bound_iff
  obtain ⟨hnone, habsent⟩ | ⟨bytes, hsome, hpresent⟩ := Binder.bindColumn_eq_ok hbound
  · exact .inl ⟨Except.ok.inj (hraw.symm.trans hnone), habsent⟩
  · refine .inr ⟨bytes, bytes, Except.ok.inj (hraw.symm.trans hsome), hpresent, fun out hout => ?_⟩
    rw [hplan]
    exact written_back_iff_of_passthrough hout

omit [AlphanumericTable] [LiteralParsers] [SerdeJson] in
/-- An origin cell agrees with what was bound for it exactly when it comes back. -/
theorem compareMapped_bound_iff (hinverse : planner.registry.MutuallyInverse) {originType : CqlTypeInfo}
    (horigin : originType.Unresolved) (htarget : column.cqlType.Unresolved)
    (hthere : column.plan = planner.planTypes originType column.cqlType)
    (hback : compared.plan = planner.planTypes column.cqlType originType) {i : ℕ}
    (hsource : column.source = .origin i) {cell : RawCell} (hcell : record.origin.cells[i]? = some cell)
    (hbound : binder.bindColumn column record.origin inputs = .ok value) {originIndex : ℤ} :
    ComparisonPlan.compareValues compared cell value.bytes originIndex = none ↔
      ComesBack binder.mapRemoveNullValue column.isKey column.cqlType
        (planner.Canonical originType column.cqlType) cell := by
  apply compareValues_bound_iff
  obtain ⟨hnone, habsent⟩ | ⟨converted, hsome, hpresent⟩ := Binder.bindColumn_eq_ok hbound
  · obtain ⟨hnull, -⟩ | ⟨_, _, -, -, h⟩ := (Binder.rawValue_origin_eq_ok hsource).1 hnone
    · exact .inl ⟨Option.some.inj (hcell.symm.trans hnull), habsent⟩
    · cases h
  · obtain ⟨-, h⟩ | ⟨bytes, _, hbytes, hconvert, h⟩ := (Binder.rawValue_origin_eq_ok hsource).1 hsome
    · cases h
    · cases h
      refine .inr ⟨bytes, converted, Option.some.inj (hcell.symm.trans hbytes), hpresent,
        fun out hout => ?_⟩
      rw [hback]
      exact Binder.written_back_iff hinverse horigin htarget
        (Binder.convert_eq_ok hinverse horigin hthere hconvert) hout

/-- A column agrees with what was bound for it exactly when the record is faithful there. -/
theorem compareColumn_bound_iff (hinverse : planner.registry.MutuallyInverse)
    (hres : Binder.Resolves mapping planner target index column)
    (hcompared : ComparisonPlan.resolveColumn mapping planner (target, index) = .ok compared)
    (htarget : mapping.targetColumns[index]? = some target)
    (hjson : column.source.isExtractJson = false)
    (hkey : inputs.explodeKey = record.exploded.bind ExplodedEntry.key)
    (hvalue : inputs.explodeValue = record.exploded.bind ExplodedEntry.value)
    (hbound : binder.bindColumn column record.origin inputs = .ok value)
    (hcell : (row.cells[index]?).join = value.bytes) :
    plan.compareColumn record row compared = none ↔
      FaithfulAt mapping planner binder.mapRemoveNullValue record target index := by
  obtain ⟨cqlType, htype, h⟩ := bind_eq_ok.1 hcompared
  rw [ComparisonPlan.parseType, mapError_eq_ok, hres.parse] at htype
  cases htype
  obtain ⟨⟨rule, back⟩, hrule, h⟩ := bind_eq_ok.1 h
  cases h
  dsimp only at hrule
  have hbound' := Binder.bindColumn_eq_ok hbound
  simp only [ComparisonPlan.compareColumn, hcell, FaithfulAt, hres.parse, Except.ok.injEq,
    forall_eq', ← hres.source, ← hres.isKey] at hrule ⊢
  cases hsource : column.source with
  | constant literal =>
    rw [hsource] at hrule
    cases hrule
    simp
  | extractJson i =>
    rw [hsource] at hjson
    cases hjson
  | absent =>
    rw [hsource] at hrule
    cases hrule
    have hiskey := hres.isKey_of_absent htarget hsource
    obtain ⟨-, habsent⟩ | ⟨bytes, hraw, -⟩ := hbound'
    · rw [Binder.absentValue, hiskey] at habsent
      cases habsent
      simp [BoundValue.bytes, ComparisonPlan.compareValues]
    · simp [Binder.rawValue, hsource] at hraw
  | explodeKey =>
    rw [hsource] at hrule
    cases hrule
    cases hexploded : record.exploded with
    | none => simp
    | some entry =>
      have hraw : Binder.rawValue column record.origin inputs = .ok (ExplodedHalf.key.cellOf entry) := by
        simp only [Binder.rawValue, hsource, hkey, hexploded]
        rfl
      simp only [Option.some.injEq, exists_eq_left']
      exact compareExploded_bound_iff rfl hraw hbound
  | explodeValue =>
    rw [hsource] at hrule
    cases hrule
    cases hexploded : record.exploded with
    | none => simp
    | some entry =>
      have hraw : Binder.rawValue column record.origin inputs =
          .ok (ExplodedHalf.value.cellOf entry) := by
        simp only [Binder.rawValue, hsource, hvalue, hexploded]
        rfl
      simp only [Option.some.injEq, exists_eq_left']
      exact compareExploded_bound_iff rfl hraw hbound
  | origin i =>
    obtain ⟨originColumn, originType, horigin, hparse, hthere⟩ := hres.plan_origin hsource
    rw [parseType, mapError_eq_ok] at hparse
    rw [hsource, ComparisonPlan.ruleFor] at hrule
    simp only [horigin, ComparisonPlan.parseType, hparse] at hrule
    cases hrule
    have hmapped {cell : RawCell} (hread : record.origin.cells[i]? = some cell) :
        ComparisonPlan.compareValues
            ⟨target.name, index, .mapped i, planner.planTypes column.cqlType originType⟩ cell value.bytes
            i = none ↔
          ComesBack binder.mapRemoveNullValue column.isKey column.cqlType
            (planner.Canonical originType column.cqlType) cell :=
      compareMapped_bound_iff hinverse (CqlTypeInfo.unresolved_of_parse hparse)
        (CqlTypeInfo.unresolved_of_parse hres.parse) hthere rfl hsource hread hbound
    dsimp only
    constructor
    · intro hagrees originColumn' originType' horigin' hparse'
      cases horigin.symm.trans horigin'
      cases hparse.symm.trans hparse'
      cases hread : record.origin.cells[i]? with
      | none =>
        rw [hread] at hagrees
        cases hagrees
      | some cell =>
        rw [hread] at hagrees
        exact ⟨cell, rfl, (hmapped hread).1 hagrees⟩
    · intro hfaithful
      obtain ⟨cell, hread, hback⟩ := hfaithful originColumn originType horigin hparse
      rw [hread]
      exact (hmapped hread).2 hback

omit [AlphanumericTable] [LiteralParsers] [SerdeJson] in
theorem TargetUpsert.exists_constant (h : TargetUpsert.isConstant mapping index = true) :
    ∃ literal, mapping.source index = some (.constant literal) := by
  rw [TargetUpsert.isConstant, Option.any_eq_true] at h
  obtain ⟨source, hsource, hconstant⟩ := h
  cases source with
  | constant literal => exact ⟨literal, hsource⟩
  | _ => cases hconstant

/-- A constant is not compared. -/
theorem compareColumn_of_isConstant
    (hcompared : ComparisonPlan.resolveColumn mapping planner (target, index) = .ok compared)
    (hconstant : TargetUpsert.isConstant mapping index = true) :
    plan.compareColumn record row compared = none := by
  obtain ⟨literal, hsource⟩ := TargetUpsert.exists_constant hconstant
  obtain ⟨cqlType, -, h⟩ := bind_eq_ok.1 hcompared
  obtain ⟨⟨rule, back⟩, hrule, h⟩ := bind_eq_ok.1 h
  cases h
  dsimp only at hrule
  rw [hsource] at hrule
  cases hrule
  simp [ComparisonPlan.compareColumn]

omit [LiteralParsers] [SerdeJson] in
/-- The record holds nothing for a constant. -/
theorem faithfulAt_of_isConstant (hconstant : TargetUpsert.isConstant mapping index = true)
    (mapRemoveNullValue : Bool) :
    FaithfulAt mapping planner mapRemoveNullValue record target index := by
  obtain ⟨literal, hsource⟩ := TargetUpsert.exists_constant hconstant
  simp [FaithfulAt, hsource]

/-- A record is valid against the row its upsert leaves if and only if what it holds comes back from
every column. -/
theorem compare_upserted_iff (hinverse : planner.registry.MutuallyInverse) {u : UsingClause}
    {statement : TargetUpsert} {missingKey : MissingKeyPolicy} {mapRemoveNullValue : Bool}
    {extract : Option ExtractJsonPlan} {overwrites : Bool} {values : BoundWrite}
    (hstatement : TargetUpsert.new mapping u = .ok statement)
    (hbinder : Binder.new mapping statement planner missingKey mapRemoveNullValue = .ok binder)
    (hplan : ComparisonPlan.resolve mapping planner extract overwrites = .ok plan)
    (hjson : ∀ source ∈ mapping.sources, source.isExtractJson = false)
    (hkey : inputs.explodeKey = record.exploded.bind ExplodedEntry.key)
    (hvalue : inputs.explodeValue = record.exploded.bind ExplodedEntry.value)
    (hbind : binder.bind record.origin inputs = .ok values) (hrow : Upserted binder values row) :
    plan.compare record (some row) = .valid ↔ Faithful mapping planner mapRemoveNullValue record := by
  obtain ⟨columns, hcolumns, h⟩ := bind_eq_ok.1 hplan
  cases h
  rw [ComparisonPlan.compare_eq_valid_iff]
  simp only [Option.some.injEq, exists_eq_left', Bool.false_eq_true, false_or]
  refine (forall_mem_mapM hcolumns (p := fun column => FaithfulAt mapping planner
    mapRemoveNullValue record column.1 column.2) ?_).trans ?_
  · rintro ⟨target, index⟩ hmem compared hcompared
    rw [mem_zipIdx_iff_getElem?] at hmem
    by_cases hconstant : TargetUpsert.isConstant mapping index = true
    · exact iff_of_true (compareColumn_of_isConstant hcompared hconstant)
        (faithfulAt_of_isConstant hconstant mapRemoveNullValue)
    rw [Bool.not_eq_true] at hconstant
    obtain ⟨column, value, hres, hbound, hvalueOf⟩ :=
      Binder.valueOf_resolved hstatement hbinder hbind hmem hconstant
    rw [← (Binder.new_eq_ok hbinder).2.2.2]
    have hsource : column.source ∈ mapping.sources := hres.source_mem hmem
    exact compareColumn_bound_iff hinverse hres hcompared hmem (hjson _ hsource) hkey hvalue hbound
      (hrow index value hvalueOf)
  · simp only [Faithful, mem_zipIdx_iff_getElem?, Prod.forall]
    exact forall_comm

end Columns

namespace AgreementSample

local instance : AlphanumericTable := AlphanumericTable.ascii

attribute [local instance] LiteralParsers.rejecting SerdeJson.rejecting

def idColumn : ColumnMeta := ⟨"id", "int", .partitionKey, 0⟩

/-- The tags of a table whose elements have the given type. -/
def tagsColumn (element : String) : ColumnMeta :=
  ⟨"tags", "frozen<list<" ++ element ++ ">>", .regular, -1⟩

def table (name element : String) : TableSchema where
  keyspace := "ks"
  table := name
  columns := [idColumn, tagsColumn element]
  nodup := by simp [idColumn, tagsColumn]

def mapping : ColumnMapping where
  originColumns := (table "src" "ascii").columns
  sources := [.origin 0, .origin 1]
  originTable := table "src" "ascii"
  targetTable := table "dst" "blob"
  length_sources := by decide
  originIndex_lt := by decide
  key_derivable := by decide

/-- A text of ASCII characters has the bytes of the text. -/
def asciiBytes : Converter := Builtin.fnConverter readAscii

/-- Texts become blobs and blobs become texts. -/
def planner : Planner := ⟨⟨Codecset.both .ascii .blob asciiBytes asciiBytes⟩, false⟩

theorem asciiBytes_eq_ok {bytes : Bytes} {cell : RawCell} (h : asciiBytes (some bytes) = .ok cell) :
    cell = some bytes := by
  obtain ⟨out, hout, rfl⟩ := map_eq_ok.1 h
  rw [readAscii] at hout
  split_ifs at hout
  cases hout
  rfl

theorem converter_eq_some {a b : Primitive} {f : Converter}
    (h : planner.registry.converter (.primitive a) (.primitive b) = some f) :
    f = asciiBytes ∧ b.fixedWidth = none ∧
      planner.registry.converter (.primitive b) (.primitive a) = some asciiBytes := by
  obtain ⟨entry, hentry, rfl⟩ := Option.map_eq_some_iff.1 h
  have hmem := mem_of_find?_eq_some hentry
  have htypes := find?_some hentry
  rcases mem_pair.1 hmem with rfl | rfl
  · obtain ⟨rfl, rfl⟩ : .ascii = a ∧ .blob = b := by
      simpa [CqlTypeInfo.sameType] using htypes
    exact ⟨rfl, rfl, rfl⟩
  · obtain ⟨rfl, rfl⟩ : .blob = a ∧ .ascii = b := by
      simpa [CqlTypeInfo.sameType] using htypes
    exact ⟨rfl, rfl, rfl⟩

theorem mutuallyInverse : planner.registry.MutuallyInverse where
  inverse {a b f} h := by
    obtain ⟨rfl, -, hback⟩ := converter_eq_some h
    refine ⟨asciiBytes, hback, fun x y hxy => ?_⟩
    have hsame := asciiBytes_eq_ok hxy
    subst hsame
    exact ⟨x, rfl, hxy⟩
  width h := by
    obtain ⟨-, hwidth, -⟩ := converter_eq_some h
    simp [hwidth]

def statement : TargetUpsert := TargetUpsert.insert mapping ⟨false, false⟩

/-- The type of the tags. -/
def tagsType (element : Primitive) : CqlTypeInfo := .list (.primitive element) true

/-- The tags are converted one by one. -/
def tagsPlan : ConversionPlan := .list (.codec asciiBytes)

def binder : Binder where
  statement := statement
  columns := [⟨"id", .primitive .int, "int", .passthrough, .origin 0, true⟩,
    ⟨"tags", tagsType .blob, "frozen<list<blob>>", tagsPlan, .origin 1, false⟩]
  missingKey := {}
  mapRemoveNullValue := false

def plan : ComparisonPlan where
  columns := [⟨"id", 0, .mapped 0, .passthrough⟩, ⟨"tags", 1, .mapped 1, tagsPlan⟩]
  extractJson := none
  extractJsonOverwrites := false
  keysOnly := false

theorem parse_ascii : CqlTypeInfo.parse (tagsColumn "ascii").cqlType = .ok (tagsType .ascii) := by
  decide

theorem parse_blob : CqlTypeInfo.parse (tagsColumn "blob").cqlType = .ok (tagsType .blob) := by
  decide

theorem planTypes_tags : planner.planTypes (tagsType .ascii) (tagsType .blob) = tagsPlan ∧
    planner.planTypes (tagsType .blob) (tagsType .ascii) = tagsPlan := by
  have hforth : planner.planTypes (.primitive .ascii) (.primitive .blob) = .codec asciiBytes := by
    rw [Planner.planTypes.eq_def]
    rfl
  have hback : planner.planTypes (.primitive .blob) (.primitive .ascii) = .codec asciiBytes := by
    rw [Planner.planTypes.eq_def]
    rfl
  constructor
  · rw [Planner.planTypes.eq_def]
    exact congrArg (Planner.wrap .list) hforth
  · rw [Planner.planTypes.eq_def]
    exact congrArg (Planner.wrap .list) hback

theorem binder_eq : Binder.new mapping statement planner {} false = .ok binder := by
  have hid : Binder.resolveColumn mapping planner (idColumn, 0) =
      .ok ⟨"id", .primitive .int, "int", .passthrough, .origin 0, true⟩ := rfl
  have htags : Binder.resolveColumn mapping planner (tagsColumn "blob", 1) =
      .ok ⟨"tags", tagsType .blob, "frozen<list<blob>>", tagsPlan, .origin 1, false⟩ := by
    have horiginType (side : Side) : parseType (tagsColumn "ascii") side = .ok (tagsType .ascii) :=
      mapError_eq_ok.2 parse_ascii
    have htargetType (side : Side) : parseType (tagsColumn "blob") side = .ok (tagsType .blob) :=
      mapError_eq_ok.2 parse_blob
    have hplan : Binder.planFor mapping planner (tagsType .blob) (.origin 1) = .ok tagsPlan := by
      have horigin : mapping.originColumns[1]? = some (tagsColumn "ascii") := rfl
      rw [Binder.planFor, horigin]
      exact map_eq_ok.2 ⟨tagsType .ascii, horiginType _, planTypes_tags.1⟩
    exact bind_eq_ok.2
      ⟨tagsType .blob, htargetType _, bind_eq_ok.2 ⟨tagsPlan, hplan, rfl⟩⟩
  exact bind_eq_ok.2 ⟨_, mapM_eq_ok_iff.2 (.cons hid (.cons htags .nil)), rfl⟩

theorem plan_eq : ComparisonPlan.resolve mapping planner none false = .ok plan := by
  have hid : ComparisonPlan.resolveColumn mapping planner (idColumn, 0) =
      .ok ⟨"id", 0, .mapped 0, .passthrough⟩ := rfl
  have htags : ComparisonPlan.resolveColumn mapping planner (tagsColumn "blob", 1) =
      .ok ⟨"tags", 1, .mapped 1, tagsPlan⟩ := by
    have horiginType (side : Side) :
        ComparisonPlan.parseType (tagsColumn "ascii") side = .ok (tagsType .ascii) :=
      mapError_eq_ok.2 parse_ascii
    have htargetType (side : Side) :
        ComparisonPlan.parseType (tagsColumn "blob") side = .ok (tagsType .blob) :=
      mapError_eq_ok.2 parse_blob
    have hrule : ComparisonPlan.ruleFor mapping planner (tagsType .blob) (.origin 1) =
        .ok (.mapped 1, tagsPlan) := by
      have horigin : mapping.originColumns[1]? = some (tagsColumn "ascii") := rfl
      rw [ComparisonPlan.ruleFor, horigin]
      exact map_eq_ok.2 ⟨tagsType .ascii, horiginType _, by rw [planTypes_tags.2]⟩
    exact bind_eq_ok.2
      ⟨tagsType .blob, htargetType _, bind_eq_ok.2 ⟨_, hrule, rfl⟩⟩
  exact bind_eq_ok.2 ⟨_, mapM_eq_ok_iff.2 (.cons hid (.cons htags .nil)), rfl⟩

/-- A record with the given tags. -/
def record (tags : Bytes) : Record :=
  Record.new ⟨[some [0, 0, 0, 1]]⟩ ⟨[some [0, 0, 0, 1], some tags]⟩

theorem upserted {id : Bytes} {tags : BoundValue} :
    Upserted binder [.value id, tags] ⟨[some id, tags.bytes]⟩ := by
  intro index value h
  match index with
  | 0 =>
    cases h
    rfl
  | 1 =>
    cases h
    rfl
  | n + 2 => cases h

/-- The empty list of a frozen column is a value, which is left unset.  The target then has none, and
differs. -/
theorem not_valid_of_empty :
    ColumnMapping.resolve (table "src" "ascii") (table "dst" "blob") {} = .ok mapping ∧
      TargetUpsert.new mapping ⟨false, false⟩ = .ok statement ∧
      Binder.new mapping statement planner {} false = .ok binder ∧
      ComparisonPlan.resolve mapping planner none false = .ok plan ∧
      planner.registry.MutuallyInverse ∧
      binder.bind (record [0, 0, 0, 0]).origin {} = .ok [.value [0, 0, 0, 1], .unset] ∧
      Upserted binder [.value [0, 0, 0, 1], .unset] ⟨[some [0, 0, 0, 1], none]⟩ ∧
      plan.compare (record [0, 0, 0, 0]) (some ⟨[some [0, 0, 0, 1], none]⟩) =
        .mismatch [⟨"tags", some [0, 0, 0, 0], none, .value true⟩] := by
  refine ⟨rfl, rfl, binder_eq, plan_eq, mutuallyInverse, by decide, upserted,
    by decide⟩

/-- The tags `a` and `bc`. -/
def tags : Bytes := [0, 0, 0, 2, 0, 0, 0, 1, 97, 0, 0, 0, 2, 98, 99]

/-- A list of two elements comes back. -/
theorem valid_of_two :
    plan.compare (record tags) (some ⟨[some [0, 0, 0, 1], some tags]⟩) = .valid := by
  have hstatement : TargetUpsert.new mapping ⟨false, false⟩ = .ok statement := rfl
  have hbind : binder.bind (record tags).origin {} = .ok [.value [0, 0, 0, 1], .value tags] := by
    decide
  refine (compare_upserted_iff mutuallyInverse hstatement binder_eq plan_eq (by decide) rfl rfl hbind
    upserted).2 ?_
  intro index target htarget targetType htype
  match index with
  | 0 =>
    cases htarget
    cases htype
    intro origin originType horigin horiginType
    cases horigin
    cases horiginType
    refine ⟨_, rfl, ⟨?_, ?_⟩, ?_⟩
    · rintro ⟨h, -⟩
      cases h
    · intro h
      cases h
    · unfold Planner.Canonical
      exact .inl rfl
  | 1 =>
    cases htarget
    cases parse_blob.symm.trans htype
    intro origin originType horigin horiginType
    cases horigin
    cases parse_ascii.symm.trans horiginType
    refine ⟨_, rfl, ⟨?_, ?_⟩, ?_⟩
    · rintro ⟨-, h⟩
      exact absurd h (by decide)
    · intro h
      cases h
    · unfold Planner.Canonical
      refine .inr ⟨[some [97], some [98, 99]], ⟨by decide, _, rfl, rfl⟩, fun e _ x _ => ?_⟩
      unfold Planner.Canonical
      exact .inr trivial
  | n + 2 => cases htarget

end AgreementSample

end Cdm
