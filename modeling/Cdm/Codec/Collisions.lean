import Cdm.Codec.Homomorphism

/-!
# Collections after a conversion

A codec may give two values the same result.  In a set the second of them is dropped.  The keys of a
map are not compared, so a map may have the same key twice afterwards: it is well formed if no two
of its keys become one, and the same holds of every map within.
-/

namespace Cdm

open Fallible List

namespace CqlValue

/-- The elements of every set are distinct, and so are the keys of every map. -/
inductive Distinct : CqlTypeInfo → CqlValue → Prop
  | null (t : CqlTypeInfo) : Distinct t null
  | leaf (t : CqlTypeInfo) (bytes : Bytes) : Distinct t (leaf bytes)
  | sequence {t a : CqlTypeInfo} {isSet : Bool} {elements : List CqlValue}
    (ht : t.shape = .sequence isSet a) (hdistinct : isSet = true → elements.Nodup)
    (h : ∀ e ∈ elements, Distinct a e) : Distinct t (sequence elements)
  | entries {t k v : CqlTypeInfo} {pairs : List (CqlValue × CqlValue)}
    (ht : t.shape = .entries k v) (hdistinct : (pairs.map Prod.fst).Nodup)
    (hkey : ∀ e ∈ pairs, Distinct k e.1) (hvalue : ∀ e ∈ pairs, Distinct v e.2) :
    Distinct t (entries pairs)
  | record {t : CqlTypeInfo} {as : List CqlTypeInfo} {components : List CqlValue}
    (ht : t.shape = .record as)
    (h : ∀ (i : ℕ) a c, as[i]? = some a → components[i]? = some c → Distinct a c) :
    Distinct t (record components)

variable {t : CqlTypeInfo}

theorem distinct_sequence_iff {a : CqlTypeInfo} {isSet : Bool} {elements : List CqlValue}
    (ht : t.shape = .sequence isSet a) : Distinct t (sequence elements) ↔
      (isSet = true → elements.Nodup) ∧ ∀ e ∈ elements, Distinct a e := by
  constructor
  · intro h
    cases h with
    | sequence ht' hdistinct hall =>
      cases ht.symm.trans ht'
      exact ⟨hdistinct, hall⟩
  · rintro ⟨hdistinct, hall⟩
    exact .sequence ht hdistinct hall

theorem distinct_entries_iff {k v : CqlTypeInfo} {pairs : List (CqlValue × CqlValue)}
    (ht : t.shape = .entries k v) : Distinct t (entries pairs) ↔
      (pairs.map Prod.fst).Nodup ∧ ∀ e ∈ pairs, Distinct k e.1 ∧ Distinct v e.2 := by
  constructor
  · intro h
    cases h with
    | entries ht' hdistinct hkey hvalue =>
      cases ht.symm.trans ht'
      exact ⟨hdistinct, fun e he => ⟨hkey e he, hvalue e he⟩⟩
  · rintro ⟨hdistinct, hall⟩
    exact .entries ht hdistinct (fun e he => (hall e he).1) fun e he => (hall e he).2

theorem distinct_record_iff {as : List CqlTypeInfo} {components : List CqlValue}
    (ht : t.shape = .record as) : Distinct t (record components) ↔
      ∀ (i : ℕ) a c, as[i]? = some a → components[i]? = some c → Distinct a c := by
  constructor
  · intro h
    cases h with
    | record ht' hall =>
      cases ht.symm.trans ht'
      exact hall
  · exact .record ht

/-- Values of types of the same form. -/
theorem Distinct.of_sameForm {a b : CqlTypeInfo} (h : a.SameForm b) {value : CqlValue}
    (hv : Distinct a value) : Distinct b value := by
  induction h generalizing value with
  | leaf ha hb =>
    cases hv with
    | null => exact .null _
    | leaf => exact .leaf _ _
    | sequence ht | entries ht | record ht => cases ha.symm.trans ht
  | sequence ha hb _ ih =>
    cases hv with
    | null => exact .null _
    | leaf => exact .leaf _ _
    | sequence ht hdistinct hall =>
      cases ha.symm.trans ht
      exact .sequence hb hdistinct fun e he => ih (hall e he)
    | entries ht | record ht => cases ha.symm.trans ht
  | entries ha hb _ _ ihKey ihValue =>
    cases hv with
    | null => exact .null _
    | leaf => exact .leaf _ _
    | entries ht hdistinct hkey hvalue =>
      cases ha.symm.trans ht
      exact .entries hb hdistinct (fun e he => ihKey (hkey e he)) fun e he => ihValue (hvalue e he)
    | sequence ht | record ht => cases ha.symm.trans ht
  | record ha hb hlen _ ih =>
    cases hv with
    | null => exact .null _
    | leaf => exact .leaf _ _
    | record ht hall =>
      cases ha.symm.trans ht
      refine .record hb fun i y c hy hc => ?_
      obtain ⟨hi, -⟩ := List.getElem?_eq_some_iff.1 hy
      have hx := getElem?_eq_getElem (hlen ▸ hi)
      exact ih i _ y hx hy (hall i _ c hx hc)
    | sequence ht | entries ht => cases ha.symm.trans ht

theorem ofCell_injective {c c' : RawCell} (h : ofCell c = ofCell c') : c = c' :=
  Except.ok.inj ((cell_ofCell c).symm.trans ((congrArg cell h).trans (cell_ofCell c')))

end CqlValue

namespace Planner

open CqlValue

variable (planner : Planner)

/-- What a codec gives for the bytes of a leaf. -/
def leafImage (converter : Option Converter) (bytes : Bytes) : Option RawCell :=
  converter.bind fun converter => (converter (some bytes)).toOption

mutual

/-- Whether two values of type `a` become one of type `b`: the codecs give the same results for
their leaves, apart from the elements of a set that become one with an earlier element. -/
def collide (a b : CqlTypeInfo) (x y : CqlValue) : Bool :=
  if planner.alike a b then x = y
  else
    match a, b, x, y with
    | _, _, .null, .null => true
    | a, b, .null, .leaf bytes => leafImage (planner.leafConverter a b) bytes = some none
    | a, b, .leaf bytes, .null => leafImage (planner.leafConverter a b) bytes = some none
    | a, b, .leaf bytes, .leaf bytes' =>
      leafImage (planner.leafConverter a b) bytes = leafImage (planner.leafConverter a b) bytes'
    | _, _, .null, _ => false
    | _, _, _, .null => false
    | .list a _, .list b _, .sequence xs, .sequence ys => xs.isEqv ys (collide a b)
    | .set a _, .set b _, .sequence xs, .sequence ys =>
      (keepFirstBy (collide a b) [] xs).isEqv (keepFirstBy (collide a b) [] ys) (collide a b)
    | .map ka va _, .map kb vb _, .entries xs, .entries ys =>
      xs.isEqv ys fun x y => collide ka kb x.1 y.1 && collide va vb x.2 y.2
    | .tuple as, .tuple bs, .record xs, .record ys =>
      (planner.sources (.tuple as) (.tuple bs)).all fun source =>
        fromSource (fun _ => true) (collideEach as) xs source (ys[source.1]?.getD .null)
    | .udt ka na as fa, .udt kb nb bs fb, .record xs, .record ys =>
      (planner.sources (.udt ka na as fa) (.udt kb nb bs fb)).all fun source =>
        fromSource (fun _ => true) (collideFields as) xs source (ys[source.1]?.getD .null)
    | _, _, _, _ => false

def collideEach : List CqlTypeInfo → List (CqlTypeInfo → CqlValue → CqlValue → Bool)
  | [] => []
  | a :: as => collide a :: collideEach as

def collideFields : List (String × CqlTypeInfo) → List (CqlTypeInfo → CqlValue → CqlValue → Bool)
  | [] => []
  | (_, a) :: as => collide a :: collideFields as

end

mutual

/-- No two keys of a map that is converted become one. -/
def keysApart (a b : CqlTypeInfo) (value : CqlValue) : Bool :=
  if planner.alike a b then true
  else
    match a, b, value with
    | _, _, .null => true
    | _, _, .leaf _ => true
    | .list a _, .list b _, .sequence elements => elements.all (keysApart a b)
    | .set a _, .set b _, .sequence elements => elements.all (keysApart a b)
    | .map ka va _, .map kb vb _, .entries pairs =>
      decide (pairs.Pairwise fun x y => planner.collide ka kb x.1 y.1 = false) &&
        pairs.all fun pair => keysApart ka kb pair.1 && keysApart va vb pair.2
    | .tuple as, .tuple bs, .record components =>
      (planner.sources (.tuple as) (.tuple bs)).all
        (fromSource true (keysApartEach as) components)
    | .udt ka na as fa, .udt kb nb bs fb, .record components =>
      (planner.sources (.udt ka na as fa) (.udt kb nb bs fb)).all
        (fromSource true (keysApartFields as) components)
    | _, _, _ => true

def keysApartEach : List CqlTypeInfo → List (CqlTypeInfo → CqlValue → Bool)
  | [] => []
  | a :: as => keysApart a :: keysApartEach as

def keysApartFields : List (String × CqlTypeInfo) → List (CqlTypeInfo → CqlValue → Bool)
  | [] => []
  | (_, a) :: as => keysApart a :: keysApartFields as

end

variable {planner : Planner} {a b : CqlTypeInfo} {as bs : List CqlTypeInfo}

/-! ### Values that become one -/

theorem collideEach_eq (as : List CqlTypeInfo) :
    planner.collideEach as = as.map planner.collide :=
  List.eq_map_of_cons rfl (fun _ _ => rfl) as

theorem collideFields_eq (as : List (String × CqlTypeInfo)) :
    planner.collideFields as = (as.map Prod.snd).map planner.collide :=
  List.eq_map_snd_of_cons rfl (fun _ _ => rfl) as

theorem collide_of_alike (h : planner.alike a b = true) (x y : CqlValue) :
    planner.collide a b x y = decide (x = y) := by
  rw [collide.eq_def, if_pos h]

theorem collide_list {fa fb : Bool} (h : planner.alike (.list a fa) (.list b fb) = false)
    (xs ys : List CqlValue) :
    planner.collide (.list a fa) (.list b fb) (sequence xs) (sequence ys) =
      xs.isEqv ys (planner.collide a b) :=
  if_neg (ne_true_of_eq_false h)

theorem collide_set {fa fb : Bool} (h : planner.alike (.set a fa) (.set b fb) = false)
    (xs ys : List CqlValue) :
    planner.collide (.set a fa) (.set b fb) (sequence xs) (sequence ys) =
      (keepFirstBy (planner.collide a b) [] xs).isEqv (keepFirstBy (planner.collide a b) [] ys)
        (planner.collide a b) :=
  if_neg (ne_true_of_eq_false h)

theorem collide_map {ka va kb vb : CqlTypeInfo} {fa fb : Bool}
    (h : planner.alike (.map ka va fa) (.map kb vb fb) = false)
    (xs ys : List (CqlValue × CqlValue)) :
    planner.collide (.map ka va fa) (.map kb vb fb) (entries xs) (entries ys) =
      xs.isEqv ys fun x y => planner.collide ka kb x.1 y.1 && planner.collide va vb x.2 y.2 :=
  if_neg (ne_true_of_eq_false h)

theorem collide_record (hrecord : RecordTypes a b as bs) (h : planner.alike a b = false)
    (xs ys : List CqlValue) : planner.collide a b (record xs) (record ys) =
      (planner.sources a b).all fun source => fromSource (fun _ => true) (as.map planner.collide)
        xs source (ys[source.1]?.getD null) := by
  cases hrecord with
  | tuple as bs =>
    rw [← collideEach_eq]
    exact if_neg (ne_true_of_eq_false h)
  | udt ka kb na nb as bs fa fb =>
    rw [← collideFields_eq]
    exact if_neg (ne_true_of_eq_false h)

/-- Only null, or a leaf, becomes null. -/
theorem eq_null_of_convert (h : planner.alike a b = false) {value : CqlValue}
    (hout : planner.convert a b value = .ok null) : value = null ∨ ∃ bytes, value = leaf bytes := by
  rw [convert.eq_def, h, if_neg Bool.false_ne_true] at hout
  cases value with
  | null => exact .inl rfl
  | leaf bytes => exact .inr ⟨bytes, rfl⟩
  | sequence | entries | record =>
    split at hout
    all_goals first
      | (cases hout; done)
      | (obtain ⟨_, -, hnull⟩ := map_eq_ok.1 hout; cases hnull; done)
      | (rename_i heq; cases heq)

/-- What becomes of a leaf. -/
theorem leafImage_eq {f : Converter} (halike : planner.alike a b = false)
    (hf : planner.leafConverter a b = some f) {bytes : Bytes} {out : CqlValue}
    (hout : planner.convert a b (leaf bytes) = .ok out) :
    ∃ cell, out = ofCell cell ∧ leafImage (planner.leafConverter a b) bytes = some cell := by
  rw [convert_leaf halike hf] at hout
  obtain ⟨cell, hcell, rfl⟩ := map_eq_ok.1 hout
  refine ⟨cell, rfl, ?_⟩
  rw [hf, leafImage, Option.bind_some, hcell]
  rfl

/-- Of values that are taken apart, null becomes one with null alone. -/
theorem collide_of_ne_leaf (halike : planner.alike a b = false) {x y x' y' : CqlValue}
    (hx : ∀ bytes, x ≠ leaf bytes) (hy : ∀ bytes, y ≠ leaf bytes)
    (hcx : planner.convert a b x = .ok x') (hcy : planner.convert a b y = .ok y')
    (h : x ≠ null → y ≠ null → (planner.collide a b x y = true ↔ x' = y')) :
    planner.collide a b x y = true ↔ x' = y' := by
  have hne {v v' : CqlValue} (hv : ∀ bytes, v ≠ leaf bytes) (hn : v ≠ null)
      (hcv : planner.convert a b v = .ok v') : v' ≠ null := by
    rintro rfl
    obtain hnull | ⟨bytes, hleaf⟩ := eq_null_of_convert halike hcv
    · exact hn hnull
    · exact hv bytes hleaf
  by_cases hxn : x = null
  · subst hxn
    rw [convert_null] at hcx
    cases hcx
    by_cases hyn : y = null
    · subst hyn
      rw [convert_null] at hcy
      cases hcy
      rw [collide.eq_def, halike, if_neg Bool.false_ne_true]
      exact iff_of_true rfl rfl
    · have hfalse : planner.collide a b null y = false := by
        rw [collide.eq_def, halike, if_neg Bool.false_ne_true]
        cases y with
        | null => exact absurd rfl hyn
        | leaf bytes => exact absurd rfl (hy bytes)
        | sequence | entries | record => rfl
      rw [hfalse]
      exact iff_of_false Bool.false_ne_true (hne hy hyn hcy).symm
  · by_cases hyn : y = null
    · subst hyn
      rw [convert_null] at hcy
      cases hcy
      have hfalse : planner.collide a b x null = false := by
        rw [collide.eq_def, halike, if_neg Bool.false_ne_true]
        cases x with
        | null => exact absurd rfl hxn
        | leaf bytes => exact absurd rfl (hx bytes)
        | sequence | entries | record => rfl
      rw [hfalse]
      exact iff_of_false Bool.false_ne_true (hne hx hxn hcx)
    · exact h hxn hyn

theorem ne_leaf_of_fits {t : CqlTypeInfo} {value : CqlValue} (h : Fits t value)
    (ht : t.shape ≠ .leaf) (bytes : Bytes) : value ≠ leaf bytes := by
  rintro rfl
  cases h with
  | leaf ht' => exact ht ht'

/-- What becomes of null and of leaves. -/
theorem collide_leaf_iff {f : Converter} (halike : planner.alike a b = false)
    (ha : a.shape = .leaf) (hf : planner.leafConverter a b = some f) {x y x' y' : CqlValue}
    (hx : Fits a x) (hy : Fits a y) (hcx : planner.convert a b x = .ok x')
    (hcy : planner.convert a b y = .ok y') : planner.collide a b x y = true ↔ x' = y' := by
  have hcell (c c' : RawCell) : some c = some c' ↔ ofCell c = ofCell c' := by
    constructor
    · rintro h
      cases h
      rfl
    · intro h
      rw [ofCell_injective h]
  rw [collide.eq_def, halike, if_neg Bool.false_ne_true]
  cases hx with
  | null =>
    rw [convert_null] at hcx
    cases hcx
    cases hy with
    | null =>
      rw [convert_null] at hcy
      cases hcy
      exact iff_of_true rfl rfl
    | leaf _ bytes =>
      obtain ⟨c, rfl, himage⟩ := leafImage_eq halike hf hcy
      dsimp only
      rw [himage, decide_eq_true_eq, eq_comm]
      exact hcell none c
    | sequence ht | entries ht | record ht => cases ha.symm.trans ht
  | leaf _ bytes =>
    obtain ⟨c, rfl, himage⟩ := leafImage_eq halike hf hcx
    cases hy with
    | null =>
      rw [convert_null] at hcy
      cases hcy
      dsimp only
      rw [himage, decide_eq_true_eq]
      exact hcell c none
    | leaf _ bytes' =>
      obtain ⟨c', rfl, himage'⟩ := leafImage_eq halike hf hcy
      dsimp only
      rw [himage, himage', decide_eq_true_eq]
      exact hcell c c'
    | sequence ht | entries ht | record ht => cases ha.symm.trans ht
  | sequence ht | entries ht | record ht => cases ha.symm.trans ht

/-- Two values collide if they become the same value. -/
theorem Converts.collide_iff (h : planner.Converts a b) {x y x' y' : CqlValue} (hx : Fits a x)
    (hy : Fits a y) (hcx : planner.convert a b x = .ok x') (hcy : planner.convert a b y = .ok y') :
    planner.collide a b x y = true ↔ x' = y' := by
  induction h generalizing x y x' y' with
  | alike halike hplan =>
    rw [convert_of_alike halike] at hcx hcy
    cases hcx
    cases hcy
    rw [collide_of_alike halike, decide_eq_true_eq]
  | leaf halike hsupported ha hb hf hplan => exact collide_leaf_iff halike ha hf hx hy hcx hcy
  | list halike hplan h ih =>
    refine collide_of_ne_leaf halike (ne_leaf_of_fits hx nofun) (ne_leaf_of_fits hy nofun) hcx hcy ?_
    intro hxn hyn
    cases hx with
    | sequence ht hxs =>
      cases hy with
      | sequence ht' hys =>
        cases ht
        cases ht'
        rw [convert_list halike] at hcx hcy
        obtain ⟨xs', hxs', rfl⟩ := map_eq_ok.1 hcx
        obtain ⟨ys', hys', rfl⟩ := map_eq_ok.1 hcy
        rw [collide_list halike, sequence.injEq]
        exact isEqv_iff (fun e he e' he' _ _ => ih (hxs e he) (hys e' he')) hxs' hys'
      | null => exact absurd rfl hyn
      | leaf ht' | entries ht' | record ht' => cases ht'
    | null => exact absurd rfl hxn
    | leaf ht | entries ht | record ht => cases ht
  | set halike hplan h ih =>
    refine collide_of_ne_leaf halike (ne_leaf_of_fits hx nofun) (ne_leaf_of_fits hy nofun) hcx hcy ?_
    intro hxn hyn
    cases hx with
    | sequence ht hxs =>
      cases hy with
      | sequence ht' hys =>
        cases ht
        cases ht'
        rw [convert_set halike] at hcx hcy
        obtain ⟨xs', hxs', rfl⟩ := map_eq_ok.1 hcx
        obtain ⟨ys', hys', rfl⟩ := map_eq_ok.1 hcy
        have hkept := mapM_keepFirstBy (fun e he e' he' _ _ => ih (hxs e he) (hxs e' he')) hxs'
        have hkept' := mapM_keepFirstBy (fun e he e' he' _ _ => ih (hys e he) (hys e' he')) hys'
        rw [collide_set halike, sequence.injEq]
        refine isEqv_iff (fun e he e' he' _ _ => ih (hxs e ?_) (hys e' ?_)) hkept hkept'
        · exact mem_of_mem_keepFirstBy he
        · exact mem_of_mem_keepFirstBy he'
      | null => exact absurd rfl hyn
      | leaf ht' | entries ht' | record ht' => cases ht'
    | null => exact absurd rfl hxn
    | leaf ht | entries ht | record ht => cases ht
  | map halike hplan hkey hvalue ihKey ihValue =>
    refine collide_of_ne_leaf halike (ne_leaf_of_fits hx nofun) (ne_leaf_of_fits hy nofun) hcx hcy ?_
    intro hxn hyn
    cases hx with
    | entries ht hxk hxv =>
      cases hy with
      | entries ht' hyk hyv =>
        cases ht
        cases ht'
        rw [convert_map halike] at hcx hcy
        obtain ⟨xs', hxs', rfl⟩ := map_eq_ok.1 hcx
        obtain ⟨ys', hys', rfl⟩ := map_eq_ok.1 hcy
        rw [collide_map halike, entries.injEq]
        refine isEqv_iff (fun e he e' he' p p' hp hp' => ?_) hxs' hys'
        rw [convertPair_eq_ok] at hp hp'
        rw [Bool.and_eq_true, ihKey (hxk e he) (hyk e' he') hp.1 hp'.1,
          ihValue (hxv e he) (hyv e' he') hp.2 hp'.2, Prod.ext_iff]
      | null => exact absurd rfl hyn
      | leaf ht' | sequence ht' | record ht' => cases ht'
    | null => exact absurd rfl hxn
    | leaf ht | sequence ht | record ht => cases ht
  | record hrecord hlen halike hplan hfields h ih =>
    have hshape := hrecord.shape_left
    have hne : CqlTypeInfo.shape _ ≠ .leaf := fun hleaf => by cases hshape.symm.trans hleaf
    refine collide_of_ne_leaf halike (ne_leaf_of_fits hx hne) (ne_leaf_of_fits hy hne) hcx hcy ?_
    intro hxn hyn
    cases hx with
    | record ht hcount hxs =>
      cases hy with
      | record ht' hcount' hys =>
        cases hshape.symm.trans ht
        cases hshape.symm.trans ht'
        rw [convert_record hrecord halike] at hcx hcy
        obtain ⟨xs', hxs', rfl⟩ := map_eq_ok.1 hcx
        obtain ⟨ys', hys', rfl⟩ := map_eq_ok.1 hcy
        rw [collide_record hrecord halike, all_eq_true, record.injEq]
        refine mapM_eq_iff (fun source hsource c c' hc hc' => ?_) hxs' hys'
        obtain ⟨x, hx⟩ := exists_of_isPlanOf hfields hsource
        rw [fromSource_map hx] at hc hc' ⊢
        exact ih source hsource x hx (component_of Fits.null hxs hx) (component_of Fits.null hys hx)
          hc hc'
      | null => exact absurd rfl hyn
      | leaf ht' | sequence ht' | entries ht' => cases hshape.symm.trans ht'
    | null => exact absurd rfl hxn
    | leaf ht | sequence ht | entries ht => cases hshape.symm.trans ht

/-! ### Well-formed results -/

theorem keysApartEach_eq (as : List CqlTypeInfo) :
    planner.keysApartEach as = as.map planner.keysApart :=
  List.eq_map_of_cons rfl (fun _ _ => rfl) as

theorem keysApartFields_eq (as : List (String × CqlTypeInfo)) :
    planner.keysApartFields as = (as.map Prod.snd).map planner.keysApart :=
  List.eq_map_snd_of_cons rfl (fun _ _ => rfl) as

theorem keysApart_of_alike (h : planner.alike a b = true) (value : CqlValue) :
    planner.keysApart a b value = true := by
  rw [keysApart.eq_def, if_pos h]

theorem keysApart_list {fa fb : Bool} (h : planner.alike (.list a fa) (.list b fb) = false)
    (elements : List CqlValue) :
    planner.keysApart (.list a fa) (.list b fb) (sequence elements) =
      elements.all (planner.keysApart a b) :=
  if_neg (ne_true_of_eq_false h)

theorem keysApart_set {fa fb : Bool} (h : planner.alike (.set a fa) (.set b fb) = false)
    (elements : List CqlValue) :
    planner.keysApart (.set a fa) (.set b fb) (sequence elements) =
      elements.all (planner.keysApart a b) :=
  if_neg (ne_true_of_eq_false h)

theorem keysApart_map {ka va kb vb : CqlTypeInfo} {fa fb : Bool}
    (h : planner.alike (.map ka va fa) (.map kb vb fb) = false)
    (pairs : List (CqlValue × CqlValue)) :
    planner.keysApart (.map ka va fa) (.map kb vb fb) (entries pairs) =
      (decide (pairs.Pairwise fun x y => planner.collide ka kb x.1 y.1 = false) &&
        pairs.all fun pair => planner.keysApart ka kb pair.1 && planner.keysApart va vb pair.2) :=
  if_neg (ne_true_of_eq_false h)

theorem keysApart_record (hrecord : RecordTypes a b as bs) (h : planner.alike a b = false)
    (components : List CqlValue) : planner.keysApart a b (record components) =
      (planner.sources a b).all (fromSource true (as.map planner.keysApart) components) := by
  cases hrecord with
  | tuple as bs =>
    rw [← keysApartEach_eq]
    exact if_neg (ne_true_of_eq_false h)
  | udt ka kb na nb as bs fa fb =>
    rw [← keysApartFields_eq]
    exact if_neg (ne_true_of_eq_false h)

theorem keysApart_null (a b : CqlTypeInfo) : planner.keysApart a b null = true := by
  rw [keysApart.eq_def]
  split_ifs
  · rfl
  · rfl

theorem keysApart_leaf (a b : CqlTypeInfo) (bytes : Bytes) :
    planner.keysApart a b (leaf bytes) = true := by
  rw [keysApart.eq_def]
  split_ifs
  · rfl
  · rfl

theorem distinct_ofCell (t : CqlTypeInfo) (cell : RawCell) : Distinct t (ofCell cell) := by
  cases cell with
  | none => exact .null t
  | some bytes => exact .leaf t bytes

/-- Where the keys of the maps stay apart, and only there, the result has no element and no key
twice. -/
theorem Traversal.distinct_iff {value out : CqlValue} (h : planner.Traversal a b value)
    (hv : Fits a value) (hd : Distinct a value) (hout : planner.convert a b value = .ok out) :
    Distinct b out ↔ planner.keysApart a b value = true := by
  induction h generalizing out with
  | alike halike hplan =>
    rw [convert_of_alike halike] at hout
    cases hout
    exact iff_of_true (hd.of_sameForm (sameForm_of_alike _ _ halike)) (keysApart_of_alike halike _)
  | null =>
    rw [convert_null] at hout
    cases hout
    exact iff_of_true (.null _) (keysApart_null _ _)
  | leaf halike hsupported ha hb hf hplan bytes =>
    rw [convert_leaf halike hf] at hout
    obtain ⟨cell, -, rfl⟩ := map_eq_ok.1 hout
    exact iff_of_true (distinct_ofCell _ cell) (keysApart_leaf _ _ bytes)
  | list halike hplan h ih =>
    rw [convert_list halike] at hout
    obtain ⟨converted, hconverted, rfl⟩ := map_eq_ok.1 hout
    rw [distinct_sequence_iff rfl] at hd
    rw [distinct_sequence_iff rfl, keysApart_list halike, all_eq_true,
      forall_mem_mapM hconverted fun e he _ hey =>
        ih e he (fits_elements hv rfl e he) (hd.2 e he) hey]
    exact and_iff_right (by rintro ⟨⟩)
  | @set a b fa fb elements halike hplan h ih =>
    rw [convert_set halike] at hout
    obtain ⟨converted, hconverted, rfl⟩ := map_eq_ok.1 hout
    rw [distinct_sequence_iff rfl] at hd
    have hkept : (∀ y ∈ keepFirst [] converted, Distinct b y) ↔ ∀ y ∈ converted, Distinct b y := by
      simp only [mem_keepFirst, not_mem_nil, false_or]
    rw [distinct_sequence_iff rfl, keysApart_set halike, all_eq_true, hkept, forall_mem_mapM hconverted fun e he _ hey =>
        ih e he (fits_elements hv rfl e he) (hd.2 e he) hey]
    exact and_iff_right fun _ => nodup_keepFirst nodup_nil converted
  | @map ka va kb vb fa fb pairs halike hplan hconverts hkey hvalue ihKey ihValue =>
    rw [convert_map halike] at hout
    obtain ⟨converted, hconverted, rfl⟩ := map_eq_ok.1 hout
    rw [distinct_entries_iff rfl] at hd
    have hfits := fits_pairs hv rfl
    have hapart : (pairs.Pairwise fun x y => planner.collide ka kb x.1 y.1 = false) ↔
        converted.Pairwise fun x y => x.1 ≠ y.1 := by
      refine pairwise_iff (fun e he e' he' p p' hp hp' => ?_) hconverted
      rw [convertPair_eq_ok] at hp hp'
      rw [← Bool.not_eq_true, hconverts.collide_iff (hfits e he).1 (hfits e' he').1 hp.1 hp'.1]
    have hall : (∀ p ∈ converted, Distinct kb p.1 ∧ Distinct vb p.2) ↔ ∀ e ∈ pairs,
        (planner.keysApart ka kb e.1 && planner.keysApart va vb e.2) = true := by
      refine forall_mem_mapM hconverted fun e he p hp => ?_
      rw [convertPair_eq_ok] at hp
      rw [Bool.and_eq_true, ihKey e he (hfits e he).1 (hd.2 e he).1 hp.1,
        ihValue e he (hfits e he).2 (hd.2 e he).2 hp.2]
    rw [distinct_entries_iff rfl, keysApart_map halike, Bool.and_eq_true, decide_eq_true_eq,
      all_eq_true, hapart, hall, List.Nodup, pairwise_map]
  | @record a b as bs fields components hrecord hlen halike hplan hfields hcount h ih =>
    rw [convert_record hrecord halike] at hout
    obtain ⟨converted, hconverted, rfl⟩ := map_eq_ok.1 hout
    have hfits := fits_components hv hrecord.shape_left
    rw [distinct_record_iff hrecord.shape_left] at hd
    rw [distinct_record_iff hrecord.shape_right, keysApart_record hrecord halike, all_eq_true]
    have hiff (source : ℕ × CqlTypeInfo) (hsource : source ∈ planner.sources a b) (c : CqlValue)
        (hc : fromSource (.error mistyped) (as.map planner.convert) components source = .ok c) :
        Distinct source.2 c ↔
          fromSource true (as.map planner.keysApart) components source = true := by
      obtain ⟨x, hx⟩ := exists_of_isPlanOf hfields hsource
      rw [fromSource_map hx] at hc ⊢
      exact ih source hsource x hx (component_of Fits.null hfits hx)
        (component_of Distinct.null hd hx) hc
    constructor
    · intro hall source hsource
      obtain ⟨i, hi⟩ := mem_iff_getElem?.1 hsource
      obtain ⟨c, hi', hc⟩ := exists_mapM_getElem? hconverted i hi
      refine (hiff source hsource c hc).1 (hall i source.2 c ?_ hi')
      rw [← hrecord.sources_snd planner, getElem?_map, hi]
      rfl
    · intro hall i y c hy hc
      obtain ⟨source, hsource, rfl, hi⟩ := hrecord.exists_source planner hy
      obtain ⟨source', hi', hc⟩ := mapM_getElem? hconverted i hc
      cases hi.symm.trans hi'
      exact (hiff source hsource c hc).2 (hall source hsource)

/-- A conversion keeps the elements of sets and the keys of maps distinct, in a value that is framed
with the number of its elements, if no two keys of a map become one. -/
theorem distinct_apply_iff (h : (planner.planTypes a b).Supported) {value : CqlValue}
    (hv : Fits a value) (hd : Distinct a value) {c out : RawCell} (hcell : value.cell = .ok c)
    (hout : (planner.planTypes a b).apply c = .ok out) :
    (∃ converted, Fits b converted ∧ converted.cell = .ok out ∧ Distinct b converted) ↔
      planner.keysApart a b value = true := by
  have htraversal := (converts_of_supported a b h).traversal hv
  obtain ⟨converted, hconverted, hcell'⟩ := (htraversal.encodes hcell out).1 hout
  rw [← htraversal.distinct_iff hv hd hconverted]
  constructor
  · rintro ⟨converted', hfits, hsame, hdistinct⟩
    rwa [(htraversal.fits hconverted).eq_of_cell hfits hcell' hsame]
  · intro hdistinct
    exact ⟨converted, htraversal.fits hconverted, hcell', hdistinct⟩

end Planner

namespace Numbers

open CqlValue

def namesType : CqlTypeInfo := .map text text false

def numbersType : CqlTypeInfo := .map int text false

/-- A map of two entries. -/
def names (first second : Bytes) : CqlValue :=
  entries [(leaf first, leaf [0x61]), (leaf second, leaf [0x62])]

theorem fits_names (first second : Bytes) : Fits namesType (names first second) := by
  refine .entries rfl ?_ ?_
  · simp only [forall_mem_cons, not_mem_nil, false_implies, implies_true, and_true]
    exact ⟨.leaf rfl first, .leaf rfl second⟩
  · simp only [forall_mem_cons, not_mem_nil, false_implies, implies_true, and_true]
    exact ⟨.leaf rfl _, .leaf rfl _⟩

theorem distinct_names {first second : Bytes} (h : first ≠ second) :
    Distinct namesType (names first second) := by
  rw [names, distinct_entries_iff rfl]
  refine ⟨by simp [h], ?_⟩
  simp only [forall_mem_cons, not_mem_nil, false_implies, implies_true, and_true]
  exact ⟨⟨.leaf _ _, .leaf _ _⟩, .leaf _ _, .leaf _ _⟩

theorem supported_names : (planner.planTypes namesType numbersType).Supported := by
  trivial

/-- The keys `1` and `2` are different numbers. -/
theorem distinct_apply_names : ∃ converted, Fits numbersType converted ∧
    converted.cell = .ok (some [0, 0, 0, 2,
      0, 0, 0, 4, 0, 0, 0, 1, 0, 0, 0, 1, 0x61, 0, 0, 0, 4, 0, 0, 0, 2, 0, 0, 0, 1, 0x62]) ∧
    Distinct numbersType converted := by
  have hcell : (names [0x31] [0x32]).cell = .ok (some [0, 0, 0, 2,
      0, 0, 0, 1, 0x31, 0, 0, 0, 1, 0x61, 0, 0, 0, 1, 0x32, 0, 0, 0, 1, 0x62]) := by
    decide
  have hkeys : planner.keysApart namesType numbersType (names [0x31] [0x32]) = true := by
    decide
  exact (Planner.distinct_apply_iff supported_names (fits_names _ _)
    (distinct_names (by decide)) hcell (by decide +kernel)).2 hkeys

/-- The keys `1` and `01` are one number, and the map has it twice. -/
theorem not_distinct_apply : ∃ c out, (planner.planTypes namesType numbersType).Supported ∧
    Fits namesType (names [0x31] [0x30, 0x31]) ∧ Distinct namesType (names [0x31] [0x30, 0x31]) ∧
    (names [0x31] [0x30, 0x31]).cell = .ok c ∧
    (planner.planTypes namesType numbersType).apply c = .ok out ∧
    ¬∃ converted, Fits numbersType converted ∧ converted.cell = .ok out ∧
      Distinct numbersType converted := by
  refine ⟨some [0, 0, 0, 2,
      0, 0, 0, 1, 0x31, 0, 0, 0, 1, 0x61, 0, 0, 0, 2, 0x30, 0x31, 0, 0, 0, 1, 0x62],
    some [0, 0, 0, 2,
      0, 0, 0, 4, 0, 0, 0, 1, 0, 0, 0, 1, 0x61, 0, 0, 0, 4, 0, 0, 0, 1, 0, 0, 0, 1, 0x62],
    supported_names, fits_names _ _, distinct_names (by decide), by decide,
    by decide +kernel, ?_⟩
  rintro ⟨converted, hfits, hcell, hdistinct⟩
  have htwice : Fits numbersType (names [0, 0, 0, 1] [0, 0, 0, 1]) :=
    (CqlTypeInfo.SameForm.entries rfl rfl (.leaf rfl rfl) (.leaf rfl rfl)).fits (fits_names _ _)
  have hsame : (names [0, 0, 0, 1] [0, 0, 0, 1]).cell = .ok (some [0, 0, 0, 2,
      0, 0, 0, 4, 0, 0, 0, 1, 0, 0, 0, 1, 0x61, 0, 0, 0, 4, 0, 0, 0, 1, 0, 0, 0, 1, 0x62]) := by
    decide
  rw [← htwice.eq_of_cell hfits hsame hcell, names, distinct_entries_iff rfl] at hdistinct
  exact absurd hdistinct.1 (by decide)

end Numbers

end Cdm
