import Cdm.Codec.Builtin
import Cdm.Codec.Converted

/-!
# Conversion on bytes

A plan walks the bytes of a value and frames what it converts anew.  What it computes is the
serialization of the converted value: the plan of two types is `Planner.convert`, on encoded values.
-/

namespace Cdm

open Fallible List
open Wire

namespace ConversionPlan

open Planner (applyElement_apply apply_tuple)

/-! ### Records -/

/-- A record that is serialized with fewer components reads as one with nulls behind them. -/
theorem readFields_short {elements : List RawCell} {bytes : Bytes}
    (h : writeElements elements = .ok bytes) (missing : ℕ) :
    readFields (elements.length + missing) bytes = .ok (elements ++ List.replicate missing none) := by
  induction elements generalizing bytes with
  | nil =>
    cases h
    rw [length_nil, Nat.zero_add, readFields_nil, nil_append]
  | cons element elements ih =>
    obtain ⟨first, others, hfirst, hothers, rfl⟩ := writeElements_cons_eq_ok.1 h
    have hread := takeElement_append hfirst others
    cases hbytes : first ++ others with
    | nil =>
      rw [(append_eq_nil_iff.1 hbytes).1] at hfirst
      exact (writeElement_ne_nil hfirst).elim
    | cons b bs =>
      rw [hbytes] at hread
      rw [length_cons, Nat.add_right_comm, readFields_cons_eq_ok]
      exact ⟨element, others, _, hread, ih hothers, rfl⟩

/-- The converted value of one field. -/
def convertField (origin : List RawCell) (field : ℕ × ConversionPlan) :
    Except CdmError RawCell := do
  let some value := origin[field.1]? | throw (conversionError
    s!"UDT field index {field.1} is out of range for a {origin.length}-field value")
  field.2.apply value

theorem convertField_eq {origin : List RawCell} {field : ℕ × ConversionPlan} {value : RawCell}
    (h : origin[field.1]? = some value) : convertField origin field = field.2.apply value := by
  rw [convertField, h]

/-- The fields of a UDT are converted one by one, and written. -/
theorem convertFields_eq_ok {origin : List RawCell} {fields : List (ℕ × ConversionPlan)}
    {out : Bytes} : convertFields origin (applyFields fields) = .ok out ↔
      ∃ converted, fields.mapM (convertField origin) = .ok converted ∧
        writeElements converted = .ok out := by
  induction fields generalizing out with
  | nil =>
    constructor
    · intro h
      exact ⟨[], rfl, h⟩
    · rintro ⟨converted, h, hout⟩
      cases h
      exact hout
  | cons field fields ih =>
    obtain ⟨index, plan⟩ := field
    rw [applyFields, convertFields, mapM_cons]
    cases hvalue : origin[index]? with
    | none =>
      have herror : convertField origin (index, plan) = .error (conversionError
          s!"UDT field index {index} is out of range for a {origin.length}-field value") := by
        rw [convertField, hvalue]
        rfl
      rw [herror]
      constructor
      · intro h
        cases h
      · rintro ⟨converted, h, -⟩
        cases h
    | some value =>
      rw [convertField_eq hvalue]
      dsimp only
      rw [applyElement_apply, bind_eq_ok]
      constructor
      · rintro ⟨element, helement, h⟩
        obtain ⟨first, hfirst, h⟩ := bind_eq_ok.1 h
        obtain ⟨others, hothers, h⟩ := bind_eq_ok.1 h
        cases h
        obtain ⟨converted, hconverted, hwritten⟩ := ih.1 hothers
        refine ⟨element :: converted, ?_, ?_⟩
        · rw [helement, hconverted]
          rfl
        · exact writeElements_cons_eq_ok.2 ⟨first, others, hfirst, hwritten, rfl⟩
      · rintro ⟨converted, h, hout⟩
        obtain ⟨element, helement, h⟩ := bind_eq_ok.1 h
        obtain ⟨rest, hrest, h⟩ := bind_eq_ok.1 h
        cases h
        obtain ⟨first, others, hfirst, hothers, rfl⟩ := writeElements_cons_eq_ok.1 hout
        exact ⟨element, helement, bind_eq_ok.2 ⟨first, hfirst, bind_eq_ok.2
          ⟨others, ih.2 ⟨rest, hrest, hothers⟩, rfl⟩⟩⟩

/-- The components of a tuple are converted as fields that keep their places. -/
theorem convertEach_eq_mapM (before : List RawCell) {elements : List RawCell}
    {plans : List ConversionPlan}
    (hlen : elements.length = plans.length) :
    convertEach (plans.map apply) elements =
      ((plans.zipIdx before.length).map fun plan => (plan.2, plan.1)).mapM
        (convertField (before ++ elements)) := by
  induction plans generalizing before elements with
  | nil =>
    cases elements with
    | nil => rfl
    | cons element elements => cases hlen
  | cons plan plans ih =>
    cases elements with
    | nil => cases hlen
    | cons element elements =>
      have hget : (before ++ element :: elements)[before.length]? = some element := by simp
      have hassoc : before ++ element :: elements = before ++ [element] ++ elements := by simp
      have hrest := ih (before ++ [element]) (Nat.succ.inj hlen)
      rw [length_append, length_singleton, ← hassoc] at hrest
      rw [map_cons, convertEach, applyElement_apply, zipIdx_cons, map_cons,
        mapM_cons, convertField_eq hget, hrest]

/-- A record is converted field by field. -/
theorem IsRecord.apply_eq_ok {p : ConversionPlan} {fields : List (ℕ × ConversionPlan)}
    (h : p.IsRecord fields) {bytes : Bytes} {out : RawCell} :
    p.apply (some bytes) = .ok out ↔ ∃ origin converted written,
      readFields fields.length bytes = .ok origin ∧
        fields.mapM (convertField origin) = .ok converted ∧
        writeElements converted = .ok written ∧ out = some written := by
  cases h with
  | tuple plans =>
    rw [apply_tuple, Planner.cellwise, map_eq_ok]
    simp only [applyTuple_eq_ok, length_map, length_zipIdx]
    constructor
    · rintro ⟨written, ⟨origin, converted, hread, hconverted, hwritten⟩, rfl⟩
      have heach := convertEach_eq_mapM [] (length_readFields hread)
      exact ⟨origin, converted, written, hread, heach.symm.trans hconverted, hwritten, rfl⟩
    · rintro ⟨origin, converted, written, hread, hconverted, hwritten, rfl⟩
      have heach := convertEach_eq_mapM [] (length_readFields hread)
      exact ⟨written, ⟨origin, converted, hread, heach.trans hconverted, hwritten⟩, rfl⟩
  | udt fields =>
    have hlen : (applyFields fields).length = fields.length := by
      induction fields with
      | nil => rfl
      | cons field fields ih => rw [applyFields, length_cons, ih, length_cons]
    rw [apply, map_eq_ok]
    constructor
    · rintro ⟨written, h, rfl⟩
      obtain ⟨origin, hread, h⟩ := bind_eq_ok.1 h
      obtain ⟨converted, hconverted, hwritten⟩ := convertFields_eq_ok.1 h
      exact ⟨origin, converted, written, hlen ▸ hread, hconverted, hwritten, rfl⟩
    · rintro ⟨origin, converted, written, hread, hconverted, hwritten, rfl⟩
      exact ⟨written, bind_eq_ok.2 ⟨origin, hlen ▸ hread,
        convertFields_eq_ok.2 ⟨converted, hconverted, hwritten⟩⟩, rfl⟩

end ConversionPlan

namespace Planner

open CqlValue ConversionPlan

variable {planner : Planner} {a b : CqlTypeInfo}

/-- The cell of a component; one behind those that are there is null. -/
theorem cell_component {components : List CqlValue} {cells : List RawCell}
    (h : components.mapM cell = .ok cells) (missing : ℕ) {i : ℕ} (hi : i < cells.length + missing) :
    ∃ c, (cells ++ List.replicate missing none)[i]? = some c ∧
      (components[i]?.getD null).cell = .ok c := by
  by_cases hlt : i < cells.length
  · obtain ⟨component, hcomponent, hcell⟩ :=
      mapM_getElem? h i (getElem?_eq_getElem hlt)
    refine ⟨cells[i], ?_, ?_⟩
    · rw [getElem?_append_left hlt, getElem?_eq_getElem hlt]
    · rw [hcomponent]
      exact hcell
  · have hnone : components[i]? = none := by
      rw [List.getElem?_eq_none_iff, ← length_mapM h]
      omega
    refine ⟨none, ?_, ?_⟩
    · rw [getElem?_append_right (by omega), getElem?_replicate, if_pos (by omega)]
    · rw [hnone]
      rfl

/-- Two values of one type with the same cell are the same. -/
theorem cell_injective {t : CqlTypeInfo} {values : List CqlValue} (h : ∀ v ∈ values, Fits t v) :
    ∀ x ∈ values, ∀ y ∈ values, ∀ c, x.cell = .ok c → y.cell = .ok c → x = y :=
  fun x hx y hy _ hcx hcy => (h x hx).eq_of_cell (h y hy) hcx hcy

/-- Applying a plan is converting the value. -/
theorem Traversal.encodes {value : CqlValue} (h : planner.Traversal a b value) {c : RawCell}
    (hcell : value.cell = .ok c) :
    Encodes (planner.convert a b value) cell ((planner.planTypes a b).apply c) := by
  induction h generalizing c with
  | alike halike hplan hv =>
    intro out
    rw [hplan, convert_of_alike halike, ConversionPlan.apply]
    constructor
    · rintro h
      cases h
      exact ⟨_, rfl, hcell⟩
    · rintro ⟨v, hv, hout⟩
      cases hv
      exact hcell.symm.trans hout
  | null =>
    intro out
    cases hcell
    rw [apply_none, convert_null]
    constructor
    · rintro h
      cases h
      exact ⟨.null, rfl, rfl⟩
    · rintro ⟨v, hv, hout⟩
      cases hv
      exact hout
  | leaf halike hsupported ha hb hf hplan bytes =>
    intro out
    cases hcell
    rw [hplan, convert_leaf halike hf]
    constructor
    · intro h
      exact ⟨ofCell out, map_eq_ok.2 ⟨out, h, rfl⟩, cell_ofCell out⟩
    · rintro ⟨v, hv, hout⟩
      obtain ⟨converted, hconverted, rfl⟩ := map_eq_ok.1 hv
      rw [cell_ofCell] at hout
      exact hconverted.trans hout
  | list halike hplan h ih =>
    intro out
    obtain ⟨cells, bytes, hcells, hframed, rfl⟩ := cell_sequence_eq_ok.1 hcell
    have henc := Encodes.mapM_encoded hcells fun e he _ => ih e he
    rw [hplan, apply_list, cellwise, map_eq_ok, convert_list halike]
    simp only [applySequence_of_isSequence hframed, applyElement_apply]
    constructor
    · rintro ⟨written, ⟨converted, hconverted, hseq⟩, rfl⟩
      obtain ⟨values, hvalues, hout⟩ := (henc converted).1 hconverted
      exact ⟨.sequence values, map_eq_ok.2 ⟨values, hvalues, rfl⟩,
        cell_sequence_eq_ok.2 ⟨converted, written, hout, hseq, rfl⟩⟩
    · rintro ⟨v, hv, hout⟩
      obtain ⟨values, hvalues, rfl⟩ := map_eq_ok.1 hv
      obtain ⟨converted, written, hconverted, hseq, rfl⟩ := cell_sequence_eq_ok.1 hout
      exact ⟨written, ⟨converted, (henc converted).2 ⟨values, hvalues, hconverted⟩, hseq⟩, rfl⟩
  | set halike hplan h ih =>
    intro out
    obtain ⟨cells, bytes, hcells, hframed, rfl⟩ := cell_sequence_eq_ok.1 hcell
    have henc := Encodes.mapM_encoded hcells fun e he _ => ih e he
    rw [hplan, apply_set, cellwise, map_eq_ok, convert_set halike]
    simp only [applySequence_of_isSequence hframed, applyElement_apply, if_true]
    constructor
    · rintro ⟨written, ⟨converted, hconverted, hseq⟩, rfl⟩
      obtain ⟨values, hvalues, hout⟩ := (henc converted).1 hconverted
      have hkept := keepFirst_map (cell_injective (Traversal.fits_mapM h hvalues)) hout
      exact ⟨.sequence (keepFirst [] values), map_eq_ok.2 ⟨values, hvalues, rfl⟩,
        cell_sequence_eq_ok.2 ⟨keepFirst [] converted, written, hkept, hseq, rfl⟩⟩
    · rintro ⟨v, hv, hout⟩
      obtain ⟨values, hvalues, rfl⟩ := map_eq_ok.1 hv
      obtain ⟨kept, written, hkept, hseq, rfl⟩ := cell_sequence_eq_ok.1 hout
      obtain ⟨converted, hconverted⟩ : ∃ converted, values.mapM cell = .ok converted := by
        rw [exists_mapM_eq_ok]
        exact fun v hv => exists_mapM_eq_ok.1 ⟨kept, hkept⟩ v (mem_keepFirst.2 (.inr hv))
      have hsame := keepFirst_map (cell_injective (Traversal.fits_mapM h hvalues)) hconverted
      rw [hkept] at hsame
      cases hsame
      exact ⟨written, ⟨converted, (henc converted).2 ⟨values, hvalues, hconverted⟩, hseq⟩, rfl⟩
  | @map ka va kb vb fa fb pairs halike hplan hconverts hkey hvalue ihKey ihValue =>
    intro out
    obtain ⟨cells, bytes, hcells, hframed, rfl⟩ := cell_entries_eq_ok.1 hcell
    have henc : Encodes
        (pairs.mapM (convertPair (planner.convert ka kb) (planner.convert va vb)))
        (List.mapM entryCell)
        (cells.mapM
          (convertEntry (planner.planTypes ka kb).apply (planner.planTypes va vb).apply)) := by
      refine Encodes.mapM_encoded hcells fun pair hpair entry hentry => ?_
      rw [entryCell_eq_ok] at hentry
      intro converted
      have hk := ihKey pair hpair hentry.1 converted.1
      have hv := ihValue pair hpair hentry.2 converted.2
      rw [convertEntry_eq_ok, applyElement_apply, applyElement_apply, hk, hv]
      simp only [convertPair_eq_ok, entryCell_eq_ok]
      constructor
      · rintro ⟨⟨key, hkey, hkeyCell⟩, value, hvalue, hvalueCell⟩
        exact ⟨(key, value), ⟨hkey, hvalue⟩, hkeyCell, hvalueCell⟩
      · rintro ⟨pair', ⟨hkey, hvalue⟩, hkeyCell, hvalueCell⟩
        exact ⟨⟨pair'.1, hkey, hkeyCell⟩, pair'.2, hvalue, hvalueCell⟩
    rw [hplan, apply_entries, cellwise, map_eq_ok, convert_map halike]
    simp only [applyMap_of_isMap hframed]
    constructor
    · rintro ⟨written, ⟨converted, hconverted, hmap⟩, rfl⟩
      obtain ⟨values, hvalues, hout⟩ := (henc converted).1 hconverted
      rw [← length_mapM hconverted] at hmap
      exact ⟨.entries values, map_eq_ok.2 ⟨values, hvalues, rfl⟩,
        cell_entries_eq_ok.2 ⟨converted, written, hout, hmap, rfl⟩⟩
    · rintro ⟨v, hv, hout⟩
      obtain ⟨values, hvalues, rfl⟩ := map_eq_ok.1 hv
      obtain ⟨converted, written, hcells', hmap, rfl⟩ := cell_entries_eq_ok.1 hout
      have hconverted := (henc converted).2 ⟨values, hvalues, hcells'⟩
      rw [length_mapM hconverted] at hmap
      exact ⟨written, ⟨converted, hconverted, hmap⟩, rfl⟩
  | @record a b as bs fields components hrecord hlen halike hplan hfields hcount h ih =>
    intro out
    obtain ⟨cells, bytes, hcells, hwritten, rfl⟩ := cell_record_eq_ok.1 hcell
    have hcellCount := length_mapM hcells
    have hfieldCount : fields.length = as.length := by
      rw [← hfields.length_eq, hrecord.length_sources, hlen]
    -- the components that are missing are read as null
    have hread := readFields_short hwritten (fields.length - cells.length)
    rw [Nat.add_sub_cancel' (by omega)] at hread
    have henc : Encodes
        ((planner.sources a b).mapM
          (fromSource (.error mistyped) (as.map planner.convert) components))
        (List.mapM cell) (fields.mapM
          (convertField (cells ++ List.replicate (fields.length - cells.length) none))) := by
      refine Encodes.mapM (((forall₂_and_left _ _).2 ⟨ih, hfields⟩).imp ?_)
      rintro source field ⟨hih, hsame, x, hx, hfield⟩
      obtain ⟨hlt, -⟩ := List.getElem?_eq_some_iff.1 hx
      obtain ⟨c, hc, hcomponent⟩ := cell_component hcells
        (fields.length - cells.length) (i := source.1) (by omega)
      rw [fromSource_map hx, convertField_eq (hsame ▸ hc), hfield]
      exact hih x hx hcomponent
    rw [hplan.apply_eq_ok, convert_record hrecord halike]
    constructor
    · rintro ⟨origin, converted, written, horigin, hconverted, hout, rfl⟩
      cases hread.symm.trans horigin
      obtain ⟨values, hvalues, hcells'⟩ := (henc converted).1 hconverted
      exact ⟨.record values, map_eq_ok.2 ⟨values, hvalues, rfl⟩,
        cell_record_eq_ok.2 ⟨converted, written, hcells', hout, rfl⟩⟩
    · rintro ⟨v, hv, hout⟩
      obtain ⟨values, hvalues, rfl⟩ := map_eq_ok.1 hv
      obtain ⟨converted, written, hcells', hwrite, rfl⟩ := cell_record_eq_ok.1 hout
      exact ⟨_, converted, written, hread, (henc converted).2 ⟨values, hvalues, hcells'⟩, hwrite,
        rfl⟩

/-- A conversion gives the serialization of the converted value, and there is one if every leaf the
conversion comes to is converted. -/
theorem apply_eq_ok_iff_convert (h : (planner.planTypes a b).Supported) {value : CqlValue}
    (hv : Fits a value) {c : RawCell} (hcell : value.cell = .ok c) :
    (∀ out, (planner.planTypes a b).apply c = .ok out ↔
      ∃ converted, planner.convert a b value = .ok converted ∧ converted.cell = .ok out) ∧
    ((∃ converted, planner.convert a b value = .ok converted) ↔
      ∀ r ∈ planner.leafResults a b value, ∃ cell, r = .ok cell) :=
  have htraversal := (converts_of_supported a b h).traversal hv
  ⟨htraversal.encodes hcell, htraversal.exists_convert⟩

end Planner

namespace Numbers

open CqlValue

def text : CqlTypeInfo := .primitive .text

def int : CqlTypeInfo := .primitive .int

/-- Reads integers from text. -/
def planner : Planner := ⟨⟨[⟨text, int, Builtin.textToInt⟩]⟩, false⟩

def originType : CqlTypeInfo :=
  .udt none "point" [("labels", .set text false), ("range", .tuple [text, text])] false

def targetType : CqlTypeInfo :=
  .udt none "point" [("range", .tuple [int, text]), ("labels", .set int false)] false

/-- The labels `1`, null and `01`, and a range without its second component. -/
def point : CqlValue :=
  record [sequence [leaf [0x31], null, leaf [0x30, 0x31]], record [leaf [0x35]]]

theorem fits_point : Fits originType point := by
  refine .of_forall₂ [] rfl (.cons (.sequence rfl ?_) (.cons ?_ .nil))
  · intro e he
    simp only [mem_cons, not_mem_nil, or_false] at he
    obtain rfl | rfl | rfl := he
    · exact .leaf rfl _
    · exact .null _
    · exact .leaf rfl _
  · exact .of_forall₂ [text] rfl (.cons (.leaf rfl _) .nil)

/-- The range comes first, its second component is null, and of the two labels that are equal now
the first is kept. -/
theorem apply_point :
    (planner.planTypes originType targetType).apply (some [
      0, 0, 0, 19, 0, 0, 0, 3, 0, 0, 0, 1, 0x31, 255, 255, 255, 255, 0, 0, 0, 2, 0x30, 0x31,
      0, 0, 0, 5, 0, 0, 0, 1, 0x35]) = .ok (some [
      0, 0, 0, 12, 0, 0, 0, 4, 0, 0, 0, 5, 255, 255, 255, 255,
      0, 0, 0, 16, 0, 0, 0, 2, 0, 0, 0, 4, 0, 0, 0, 1, 255, 255, 255, 255]) := by
  have hcell : point.cell = .ok (some [
      0, 0, 0, 19, 0, 0, 0, 3, 0, 0, 0, 1, 0x31, 255, 255, 255, 255, 0, 0, 0, 2, 0x30, 0x31,
      0, 0, 0, 5, 0, 0, 0, 1, 0x35]) := by decide
  have hconvert : planner.convert originType targetType point =
      .ok (record [record [leaf [0, 0, 0, 5], null], sequence [leaf [0, 0, 0, 1], null]]) := by
    decide
  have hplan : (planner.planTypes originType targetType).Supported := by trivial
  exact ((Planner.apply_eq_ok_iff_convert hplan fits_point hcell).1 _).2
    ⟨_, hconvert, by decide⟩

/-- Fields are matched by position, as Java does. -/
def javaPlanner : Planner := ⟨⟨[]⟩, true⟩

def pairType : CqlTypeInfo := .udt none "pair" [("a", text), ("b", text)] false

def swappedType : CqlTypeInfo := .udt none "pair" [("b", text), ("a", text)] false

theorem fits_pair : Fits pairType (record [leaf [0x31], leaf [0x32]]) :=
  .of_forall₂ [] rfl (.cons (.leaf rfl _) (.cons (.leaf rfl _) .nil))

/-- A tuple that stays as it is may lack components afterwards too, and by position the fields of a
UDT are not matched by their names. -/
theorem apply_not_homomorphic :
    (∃ c, (planner.planTypes (.tuple [text, text]) (.tuple [text, text])).Supported ∧
      Fits (.tuple [text, text]) (record [leaf [0x31]]) ∧ (record [leaf [0x31]]).cell = .ok c ∧
      (planner.planTypes (.tuple [text, text]) (.tuple [text, text])).apply c ≠
        (record [leaf [0x31], null]).cell) ∧
    ∃ c, (javaPlanner.planTypes pairType swappedType).Supported ∧
      Fits pairType (record [leaf [0x31], leaf [0x32]]) ∧
      (record [leaf [0x31], leaf [0x32]]).cell = .ok c ∧
      (javaPlanner.planTypes pairType swappedType).apply c ≠
        (record [leaf [0x32], leaf [0x31]]).cell :=
  ⟨⟨some [0, 0, 0, 1, 0x31], trivial, .of_forall₂ [text] rfl (.cons (.leaf rfl _) .nil),
      by decide, by decide⟩,
    ⟨some [0, 0, 0, 1, 0x31, 0, 0, 0, 1, 0x32], trivial, fits_pair, by decide,
      by decide⟩⟩

end Numbers

end Cdm
