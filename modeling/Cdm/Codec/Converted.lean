import Cdm.Codec.Planned

/-!
# Converted values

What `Planner.convert` does at each node of a value, and that the result is a value of the target
type. It fails exactly where one of the leaves it reaches cannot be converted.
-/

namespace Cdm

open Fallible

namespace CqlValue

/-- What holds of null and of the components of a record holds of the component at any position, as
a missing one is null. -/
theorem component_of {p : CqlTypeInfo → CqlValue → Prop} (hnull : ∀ a, p a null)
    {as : List CqlTypeInfo} {components : List CqlValue}
    (h : ∀ (i : ℕ) a c, as[i]? = some a → components[i]? = some c → p a c) {i : ℕ}
    {a : CqlTypeInfo} (ha : as[i]? = some a) : p a (components[i]?.getD null) := by
  cases hc : components[i]? with
  | none => exact hnull a
  | some c => exact h i a c ha hc

section Fits

variable {t : CqlTypeInfo}

theorem fits_elements {a : CqlTypeInfo} {isSet : Bool} {elements : List CqlValue}
    (h : Fits t (sequence elements)) (ht : t.shape = .sequence isSet a) :
    ∀ e ∈ elements, Fits a e := by
  cases h with
  | sequence ht' hall =>
    cases ht.symm.trans ht'
    exact hall

theorem fits_pairs {k v : CqlTypeInfo} {pairs : List (CqlValue × CqlValue)}
    (h : Fits t (entries pairs)) (ht : t.shape = .entries k v) :
    ∀ e ∈ pairs, Fits k e.1 ∧ Fits v e.2 := by
  cases h with
  | entries ht' hkey hvalue =>
    cases ht.symm.trans ht'
    exact fun e he => ⟨hkey e he, hvalue e he⟩

theorem fits_components {as : List CqlTypeInfo} {components : List CqlValue}
    (h : Fits t (record components)) (ht : t.shape = .record as) :
    ∀ (i : ℕ) a c, as[i]? = some a → components[i]? = some c → Fits a c := by
  cases h with
  | record ht' _ hall =>
    cases ht.symm.trans ht'
    exact hall

end Fits

theorem fits_ofCell {t : CqlTypeInfo} (ht : t.shape = .leaf) (cell : RawCell) :
    Fits t (ofCell cell) := by
  cases cell with
  | none => exact .null t
  | some bytes => exact .leaf ht bytes

end CqlValue

namespace Planner

open CqlValue

variable {planner : Planner} {a b : CqlTypeInfo} {as bs : List CqlTypeInfo}

/-! ### One node at a time -/

theorem convertEach_eq (as : List CqlTypeInfo) :
    planner.convertEach as = as.map planner.convert :=
  List.eq_map_of_cons rfl (fun _ _ => rfl) as

theorem convertFields_eq (as : List (String × CqlTypeInfo)) :
    planner.convertFields as = (as.map Prod.snd).map planner.convert :=
  List.eq_map_snd_of_cons rfl (fun _ _ => rfl) as

theorem convert_of_alike (h : planner.alike a b = true) (value : CqlValue) :
    planner.convert a b value = .ok value := by
  rw [convert.eq_def, if_pos h]

theorem convert_null (a b : CqlTypeInfo) : planner.convert a b null = .ok null := by
  rw [convert.eq_def]
  split_ifs
  · rfl
  · rfl

theorem convert_list {fa fb : Bool} (h : planner.alike (.list a fa) (.list b fb) = false)
    (elements : List CqlValue) : planner.convert (.list a fa) (.list b fb) (sequence elements) =
      (elements.mapM (planner.convert a b)).map sequence :=
  if_neg (ne_true_of_eq_false h)

theorem convert_set {fa fb : Bool} (h : planner.alike (.set a fa) (.set b fb) = false)
    (elements : List CqlValue) : planner.convert (.set a fa) (.set b fb) (sequence elements) =
      (elements.mapM (planner.convert a b)).map fun converted =>
        sequence (keepFirst [] converted) :=
  if_neg (ne_true_of_eq_false h)

theorem convert_map {ka va kb vb : CqlTypeInfo} {fa fb : Bool}
    (h : planner.alike (.map ka va fa) (.map kb vb fb) = false)
    (pairs : List (CqlValue × CqlValue)) :
    planner.convert (.map ka va fa) (.map kb vb fb) (entries pairs) =
      (pairs.mapM (convertPair (planner.convert ka kb) (planner.convert va vb))).map entries :=
  if_neg (ne_true_of_eq_false h)

theorem convert_record (hrecord : RecordTypes a b as bs) (h : planner.alike a b = false)
    (components : List CqlValue) : planner.convert a b (record components) =
      ((planner.sources a b).mapM
        (fromSource (.error mistyped) (as.map planner.convert) components)).map record := by
  cases hrecord with
  | tuple as bs =>
    rw [← convertEach_eq]
    exact if_neg (ne_true_of_eq_false h)
  | udt ka kb na nb as bs fa fb =>
    rw [← convertFields_eq]
    exact if_neg (ne_true_of_eq_false h)

theorem convert_leaf {f : Converter} (h : planner.alike a b = false)
    (hf : planner.leafConverter a b = some f) (bytes : Bytes) :
    planner.convert a b (leaf bytes) = (f (some bytes)).map ofCell := by
  rw [convert.eq_def, h, if_neg Bool.false_ne_true]
  cases a with
  | custom | list | set | map | tuple | udt => cases hf
  | primitive | vector => simp only [hf]

theorem convertPair_eq_ok {fk fv : Conversion} {pair out : CqlValue × CqlValue} :
    convertPair fk fv pair = .ok out ↔ fk pair.1 = .ok out.1 ∧ fv pair.2 = .ok out.2 := by
  rw [convertPair, bind_eq_ok]
  constructor
  · rintro ⟨key, hkey, h⟩
    obtain ⟨value, hvalue, h⟩ := bind_eq_ok.1 h
    cases h
    exact ⟨hkey, hvalue⟩
  · rintro ⟨hkey, hvalue⟩
    exact ⟨out.1, hkey, bind_eq_ok.2 ⟨out.2, hvalue, rfl⟩⟩

theorem fromSource_map {γ : Type} {missing : γ} {f : CqlTypeInfo → CqlTypeInfo → CqlValue → γ}
    {components : List CqlValue} {source : ℕ × CqlTypeInfo} {x : CqlTypeInfo}
    (hx : as[source.1]? = some x) :
    fromSource missing (as.map f) components source =
      f x source.2 (components[source.1]?.getD null) := by
  rw [fromSource, List.getElem?_map, hx]
  rfl

/-! ### The type of the result -/

theorem RecordTypes.exists_source (planner : Planner) (hrecord : RecordTypes a b as bs) {i : ℕ}
    {y : CqlTypeInfo} (hy : bs[i]? = some y) : ∃ source ∈ planner.sources a b, source.2 = y ∧
      (planner.sources a b)[i]? = some source := by
  rw [← hrecord.sources_snd planner, List.getElem?_map, Option.map_eq_some_iff] at hy
  obtain ⟨source, hsource, rfl⟩ := hy
  exact ⟨source, List.mem_of_getElem? hsource, rfl, hsource⟩

/-- Every source of a planned record is a component of the origin. -/
theorem exists_of_isPlanOf {sources : List (ℕ × CqlTypeInfo)}
    {fields : List (ℕ × ConversionPlan)}
    (hfields : List.Forall₂ (planner.IsPlanOf as) sources fields) {source : ℕ × CqlTypeInfo}
    (hsource : source ∈ sources) : ∃ x, as[source.1]? = some x := by
  obtain ⟨i, hi⟩ := List.mem_iff_getElem?.1 hsource
  obtain ⟨hlt, rfl⟩ := List.getElem?_eq_some_iff.1 hi
  obtain ⟨-, x, hx, -⟩ := hfields.get hlt (hfields.length_eq ▸ hlt)
  exact ⟨x, hx⟩

/-- The nodes of a value that its conversion comes to. -/
inductive Traversal (planner : Planner) : CqlTypeInfo → CqlTypeInfo → CqlValue → Prop
  | alike {a b : CqlTypeInfo} {value : CqlValue} (halike : planner.alike a b = true)
    (hplan : planner.planTypes a b = .passthrough) (hv : Fits a value) :
    Traversal planner a b value
  | null (a b : CqlTypeInfo) : Traversal planner a b null
  | leaf {a b : CqlTypeInfo} {f : Converter} (halike : planner.alike a b = false)
    (hsupported : (planner.planTypes a b).Supported) (ha : a.shape = .leaf) (hb : b.shape = .leaf)
    (hf : planner.leafConverter a b = some f)
    (hplan : ∀ bytes, (planner.planTypes a b).apply (some bytes) = f (some bytes))
    (bytes : Bytes) : Traversal planner a b (leaf bytes)
  | list {a b : CqlTypeInfo} {fa fb : Bool} {elements : List CqlValue}
    (halike : planner.alike (.list a fa) (.list b fb) = false)
    (hplan : planner.planTypes (.list a fa) (.list b fb) = .list (planner.planTypes a b))
    (h : ∀ e ∈ elements, Traversal planner a b e) :
    Traversal planner (.list a fa) (.list b fb) (sequence elements)
  | set {a b : CqlTypeInfo} {fa fb : Bool} {elements : List CqlValue}
    (halike : planner.alike (.set a fa) (.set b fb) = false)
    (hplan : planner.planTypes (.set a fa) (.set b fb) = .set (planner.planTypes a b))
    (h : ∀ e ∈ elements, Traversal planner a b e) :
    Traversal planner (.set a fa) (.set b fb) (sequence elements)
  | map {ka va kb vb : CqlTypeInfo} {fa fb : Bool} {pairs : List (CqlValue × CqlValue)}
    (halike : planner.alike (.map ka va fa) (.map kb vb fb) = false)
    (hplan : planner.planTypes (.map ka va fa) (.map kb vb fb) =
      .map (planner.planTypes ka kb) (planner.planTypes va vb))
    (hconverts : planner.Converts ka kb) (hkey : ∀ e ∈ pairs, Traversal planner ka kb e.1)
    (hvalue : ∀ e ∈ pairs, Traversal planner va vb e.2) :
    Traversal planner (.map ka va fa) (.map kb vb fb) (entries pairs)
  | record {a b : CqlTypeInfo} {as bs : List CqlTypeInfo} {fields : List (ℕ × ConversionPlan)}
    {components : List CqlValue} (hrecord : RecordTypes a b as bs) (hlen : as.length = bs.length)
    (halike : planner.alike a b = false) (hplan : (planner.planTypes a b).IsRecord fields)
    (hfields : List.Forall₂ (planner.IsPlanOf as) (planner.sources a b) fields)
    (hcount : components.length ≤ as.length)
    (h : ∀ source ∈ planner.sources a b, ∀ x, as[source.1]? = some x →
      Traversal planner x source.2 (components[source.1]?.getD null)) :
    Traversal planner a b (record components)

theorem Converts.traversal (h : planner.Converts a b) {value : CqlValue} (hv : Fits a value) :
    planner.Traversal a b value := by
  induction h generalizing value with
  | alike halike hplan => exact .alike halike hplan hv
  | leaf halike hsupported ha hb hf hplan =>
    cases hv with
    | null => exact .null _ _
    | leaf _ bytes => exact .leaf halike hsupported ha hb hf hplan bytes
    | sequence ht | entries ht | record ht => cases ha.symm.trans ht
  | list halike hplan h ih =>
    cases hv with
    | null => exact .null _ _
    | sequence ht hall =>
      cases ht
      exact .list halike hplan fun e he => ih (hall e he)
    | leaf ht | entries ht | record ht => cases ht
  | set halike hplan h ih =>
    cases hv with
    | null => exact .null _ _
    | sequence ht hall =>
      cases ht
      exact .set halike hplan fun e he => ih (hall e he)
    | leaf ht | entries ht | record ht => cases ht
  | map halike hplan hkey hvalue ihKey ihValue =>
    cases hv with
    | null => exact .null _ _
    | entries ht hkeys hvalues =>
      cases ht
      exact .map halike hplan hkey (fun e he => ihKey (hkeys e he)) fun e he =>
        ihValue (hvalues e he)
    | leaf ht | sequence ht | record ht => cases ht
  | record hrecord hlen halike hplan hfields h ih =>
    cases hv with
    | null => exact .null _ _
    | record ht hcount hall =>
      cases hrecord.shape_left.symm.trans ht
      exact .record hrecord hlen halike hplan hfields hcount fun source hsource x hx =>
        ih source hsource x hx (component_of Fits.null hall hx)
    | leaf ht | sequence ht | entries ht => cases hrecord.shape_left.symm.trans ht

/-- A converted value is of the target type. -/
theorem Traversal.fits {value out : CqlValue} (h : planner.Traversal a b value)
    (hout : planner.convert a b value = .ok out) : Fits b out := by
  induction h generalizing out with
  | alike halike hplan hv =>
    rw [convert_of_alike halike] at hout
    cases hout
    exact (sameForm_of_alike _ _ halike).fits hv
  | null =>
    rw [convert_null] at hout
    cases hout
    exact .null _
  | leaf halike hsupported ha hb hf hplan bytes =>
    rw [convert_leaf halike hf] at hout
    obtain ⟨cell, -, rfl⟩ := map_eq_ok.1 hout
    exact fits_ofCell hb cell
  | list halike hplan h ih =>
    rw [convert_list halike] at hout
    obtain ⟨converted, hconverted, rfl⟩ := map_eq_ok.1 hout
    refine .sequence rfl fun y hy => ?_
    obtain ⟨x, hx, hxy⟩ := exists_of_mem_mapM hconverted hy
    exact ih x hx hxy
  | set halike hplan h ih =>
    rw [convert_set halike] at hout
    obtain ⟨converted, hconverted, rfl⟩ := map_eq_ok.1 hout
    refine .sequence rfl fun y hy => ?_
    obtain hy | hy := mem_keepFirst.1 hy
    · cases hy
    obtain ⟨x, hx, hxy⟩ := exists_of_mem_mapM hconverted hy
    exact ih x hx hxy
  | map halike hplan hconverts hkey hvalue ihKey ihValue =>
    rw [convert_map halike] at hout
    obtain ⟨converted, hconverted, rfl⟩ := map_eq_ok.1 hout
    refine .entries rfl (fun y hy => ?_) fun y hy => ?_
    · obtain ⟨x, hx, hxy⟩ := exists_of_mem_mapM hconverted hy
      exact ihKey x hx (convertPair_eq_ok.1 hxy).1
    · obtain ⟨x, hx, hxy⟩ := exists_of_mem_mapM hconverted hy
      exact ihValue x hx (convertPair_eq_ok.1 hxy).2
  | record hrecord hlen halike hplan hfields hcount h ih =>
    rw [convert_record hrecord halike] at hout
    obtain ⟨converted, hconverted, rfl⟩ := map_eq_ok.1 hout
    refine .record hrecord.shape_right ?_ fun i y c hy hc => ?_
    · rw [length_mapM hconverted, hrecord.length_sources]
    · obtain ⟨source, hsource, rfl, hi⟩ := hrecord.exists_source planner hy
      obtain ⟨source', hi', hc⟩ := mapM_getElem? hconverted i hc
      cases hi.symm.trans hi'
      obtain ⟨x, hx⟩ := exists_of_isPlanOf hfields hsource
      rw [fromSource_map hx] at hc
      exact ih source hsource x hx hc

theorem Traversal.fits_mapM {elements values : List CqlValue}
    (h : ∀ e ∈ elements, planner.Traversal a b e)
    (hvalues : elements.mapM (planner.convert a b) = .ok values) : ∀ v ∈ values, Fits b v := by
  intro v hv
  obtain ⟨e, he, hev⟩ := exists_of_mem_mapM hvalues hv
  exact (h e he).fits hev

/-! ### Whether there is a result -/

theorem leafResultsEach_eq (as : List CqlTypeInfo) :
    planner.leafResultsEach as = as.map planner.leafResults :=
  List.eq_map_of_cons rfl (fun _ _ => rfl) as

theorem leafResultsFields_eq (as : List (String × CqlTypeInfo)) :
    planner.leafResultsFields as = (as.map Prod.snd).map planner.leafResults :=
  List.eq_map_snd_of_cons rfl (fun _ _ => rfl) as

theorem leafResults_of_alike (h : planner.alike a b = true) (value : CqlValue) :
    planner.leafResults a b value = [] := by
  rw [leafResults.eq_def, if_pos h]

theorem leafResults_null (a b : CqlTypeInfo) : planner.leafResults a b null = [] := by
  rw [leafResults.eq_def]
  split_ifs
  · rfl
  · rfl

theorem leafResults_leaf {f : Converter} (h : planner.alike a b = false)
    (hf : planner.leafConverter a b = some f) (bytes : Bytes) :
    planner.leafResults a b (leaf bytes) = [f (some bytes)] := by
  rw [leafResults.eq_def, h, if_neg Bool.false_ne_true]
  cases a with
  | custom | list | set | map | tuple | udt => cases hf
  | primitive | vector => simp only [hf, Option.map_some, Option.toList_some]

theorem leafResults_record (hrecord : RecordTypes a b as bs) (h : planner.alike a b = false)
    (components : List CqlValue) : planner.leafResults a b (record components) =
      (planner.sources a b).flatMap (fromSource [] (as.map planner.leafResults) components) := by
  cases hrecord with
  | tuple as bs => rw [← leafResultsEach_eq, leafResults.eq_def, h, if_neg Bool.false_ne_true]
  | udt ka kb na nb as bs fa fb =>
    rw [← leafResultsFields_eq, leafResults.eq_def, h, if_neg Bool.false_ne_true]

/-- A value is converted if the leaves are that the conversion comes to. -/
theorem Traversal.exists_convert {value : CqlValue} (h : planner.Traversal a b value) :
    (∃ out, planner.convert a b value = .ok out) ↔
      ∀ r ∈ planner.leafResults a b value, ∃ cell, r = .ok cell := by
  induction h with
  | alike halike hplan hv =>
    rw [convert_of_alike halike, leafResults_of_alike halike]
    simp
  | null =>
    rw [convert_null, leafResults_null]
    simp
  | leaf halike hsupported ha hb hf hplan bytes =>
    rw [convert_leaf halike hf, leafResults_leaf halike hf, exists_map_eq_ok,
      List.forall_mem_singleton]
  | list halike hplan h ih =>
    rw [convert_list halike, exists_map_eq_ok, exists_mapM_eq_ok,
      leafResults.eq_def, halike, if_neg Bool.false_ne_true, List.forall_mem_flatMap]
    exact forall₂_congr ih
  | set halike hplan h ih =>
    rw [convert_set halike, exists_map_eq_ok, exists_mapM_eq_ok,
      leafResults.eq_def, halike, if_neg Bool.false_ne_true, List.forall_mem_flatMap]
    exact forall₂_congr ih
  | map halike hplan hconverts hkey hvalue ihKey ihValue =>
    rw [convert_map halike, exists_map_eq_ok, exists_mapM_eq_ok,
      leafResults.eq_def, halike, if_neg Bool.false_ne_true, List.forall_mem_flatMap]
    refine forall₂_congr fun pair hpair => ?_
    rw [List.forall_mem_append, ← ihKey pair hpair, ← ihValue pair hpair]
    simp only [convertPair_eq_ok, Prod.exists, exists_and_left, exists_and_right]
  | record hrecord hlen halike hplan hfields hcount h ih =>
    rw [convert_record hrecord halike, exists_map_eq_ok, exists_mapM_eq_ok,
      leafResults_record hrecord halike, List.forall_mem_flatMap]
    refine forall₂_congr fun source hsource => ?_
    obtain ⟨x, hx⟩ := exists_of_isPlanOf hfields hsource
    rw [fromSource_map hx, fromSource_map hx]
    exact ih source hsource x hx

end Planner

end Cdm
