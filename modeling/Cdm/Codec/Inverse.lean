import Cdm.Codec.Homomorphism

/-!
# Converting there and back

The plans of a pair of types, one for each direction, are made independently.  If the codecs of the
leaves undo each other, the plans do: a value that is converted and converted back is the value it
was, and so are its bytes.

What a value of a leaf type looks like is a parameter, as the codecs need to undo each other on such
values only.
-/

namespace Cdm

open Fallible List Option

/-- The names of the fields of a UDT. -/
def CqlTypeInfo.fieldNames : CqlTypeInfo → List String
  | udt _ _ fields _ => fields.map Prod.fst
  | _ => []

/-- What the values of the types that are not taken apart look like.  Those of a fixed width have
it. -/
structure LeafFormat where
  Valid : Primitive → Bytes → Prop
  width : ∀ {kind : Primitive} {bytes : Bytes} {n : ℕ}, Valid kind bytes → kind.fixedWidth = some n →
    bytes.length = n

/-- A value of a leaf type.  A vector is one if its elements have a fixed width and are values of
theirs. -/
def LeafFormat.ValidLeaf (format : LeafFormat) : CqlTypeInfo → Bytes → Prop
  | .primitive kind, bytes => format.Valid kind bytes
  | .vector (.primitive kind) dimensions, bytes => kind.fixedWidth.isSome = true →
    ∃ elements : List Bytes, elements.length = dimensions ∧ bytes = elements.flatten ∧
      ∀ e ∈ elements, format.Valid kind e
  | _, _ => True

namespace CqlValue

/-- A value with all its components.  The elements of a set are distinct, and so are the names of
the fields of a UDT. -/
inductive WellFormed (format : LeafFormat) : CqlTypeInfo → CqlValue → Prop
  | null (t : CqlTypeInfo) : WellFormed format t null
  | leaf {t : CqlTypeInfo} {bytes : Bytes} (ht : t.shape = .leaf)
    (hvalid : format.ValidLeaf t bytes) : WellFormed format t (leaf bytes)
  | sequence {t a : CqlTypeInfo} {isSet : Bool} {elements : List CqlValue}
    (ht : t.shape = .sequence isSet a) (hdistinct : isSet = true → elements.Nodup)
    (h : ∀ e ∈ elements, WellFormed format a e) : WellFormed format t (sequence elements)
  | entries {t k v : CqlTypeInfo} {pairs : List (CqlValue × CqlValue)}
    (ht : t.shape = .entries k v) (hkey : ∀ e ∈ pairs, WellFormed format k e.1)
    (hvalue : ∀ e ∈ pairs, WellFormed format v e.2) : WellFormed format t (entries pairs)
  | record {t : CqlTypeInfo} {as : List CqlTypeInfo} {components : List CqlValue}
    (ht : t.shape = .record as) (hnames : t.fieldNames.Nodup) (hlen : components.length = as.length)
    (h : ∀ (i : ℕ) a c, as[i]? = some a → components[i]? = some c → WellFormed format a c) :
    WellFormed format t (record components)

variable {format : LeafFormat} {t : CqlTypeInfo}

theorem WellFormed.fits {value : CqlValue} (h : WellFormed format t value) : Fits t value := by
  induction h with
  | null t => exact .null t
  | leaf ht hvalid => exact .leaf ht _
  | sequence ht hdistinct h ih => exact .sequence ht ih
  | entries ht hkey hvalue ihKey ihValue => exact .entries ht ihKey ihValue
  | record ht hnames hlen h ih => exact .record ht hlen.le ih

end CqlValue

namespace Planner

open CqlTypeInfo

variable {planner : Planner} {a b : CqlTypeInfo} {as bs : List CqlTypeInfo}

/-! ### Types in both directions -/

theorem namesMatchAsSets_comm (as bs : List (String × CqlTypeInfo)) :
    namesMatchAsSets as bs = namesMatchAsSets bs as := by
  rw [Bool.eq_iff_iff, namesMatchAsSets, namesMatchAsSets, isPerm_iff, isPerm_iff]
  exact ⟨List.Perm.symm, List.Perm.symm⟩

theorem findIdx?_eq_some {names : List String} {name : String} (h : name ∈ names) :
    ∃ i, names.findIdx? (fun n => n = name) = some i ∧ names[i]? = some name := by
  cases hi : names.findIdx? (fun n => n = name) with
  | none =>
    rw [findIdx?_eq_none_iff] at hi
    exact absurd (hi name h) (by simp)
  | some i =>
    obtain ⟨hlt, hname, -⟩ := findIdx?_eq_some_iff_getElem.1 hi
    refine ⟨i, rfl, ?_⟩
    rw [getElem?_eq_getElem hlt, of_decide_eq_true hname]

/-- If the fields keep their places in one direction, they do so in the other. -/
theorem fieldSource_comm {as bs : List (String × CqlTypeInfo)} (hlen : as.length = bs.length)
    (h : ∀ (i : ℕ) name, (bs.map Prod.fst)[i]? = some name → planner.fieldSource as bs i name = i)
    {i : ℕ} {name : String} (hname : (as.map Prod.fst)[i]? = some name) :
    planner.fieldSource bs as i name = i := by
  simp only [fieldSource, namesMatchAsSets_comm bs as] at h ⊢
  split_ifs at h ⊢ with hby
  · rw [Bool.and_eq_true] at hby
    have hperm := isPerm_iff.1 hby.2
    have hnames : as.map Prod.fst = bs.map Prod.fst := by
      refine ext_getElem (by simpa using hlen) fun j hj hj' => ?_
      have hget := getElem?_eq_getElem hj'
      obtain ⟨k, hk, hsame⟩ := findIdx?_eq_some (hperm.mem_iff.2 (mem_of_getElem? hget))
      have hplace := h j _ hget
      rw [hk, getD_some] at hplace
      rw [hplace, getElem?_eq_getElem hj] at hsame
      exact Option.some.inj hsame
    rw [← hnames] at h ⊢
    exact h i name hname
  · rfl

theorem RecordTypes.symm (h : RecordTypes a b as bs) : RecordTypes b a bs as := by
  cases h with
  | tuple as bs => exact .tuple bs as
  | udt ka kb na nb as bs fa fb => exact .udt kb ka nb na bs as fb fa

theorem sources_udt_getElem? {ka kb : Option String} {na nb : String}
    {as bs : List (String × CqlTypeInfo)} {fa fb : Bool} {i : ℕ} :
    (planner.sources (.udt ka na as fa) (.udt kb nb bs fb))[i]? =
      bs[i]?.map fun field => (planner.fieldSource as bs i field.1, field.2) := by
  rw [sources, getElem?_map, getElem?_zipIdx, Option.map_map, Nat.zero_add]
  rfl

/-- If the components keep their places in one direction, they do so in the other. -/
theorem RecordTypes.place_comm (hrecord : RecordTypes a b as bs) (hlen : as.length = bs.length)
    (h : ∀ (i : ℕ) source, (planner.sources a b)[i]? = some source → source.1 = i) {i : ℕ}
    {source : ℕ × CqlTypeInfo} (hsource : (planner.sources b a)[i]? = some source) :
    source.1 = i := by
  cases hrecord with
  | tuple as bs =>
    rw [sources_tuple_getElem?, map_eq_some_iff] at hsource
    obtain ⟨x, -, rfl⟩ := hsource
    rfl
  | udt ka kb na nb as bs fa fb =>
    rw [sources_udt_getElem?, map_eq_some_iff] at hsource
    obtain ⟨field, hfield, rfl⟩ := hsource
    refine fieldSource_comm (by simpa using hlen) (fun j name hname => ?_) (i := i) ?_
    · rw [getElem?_map, map_eq_some_iff] at hname
      obtain ⟨target, htarget, rfl⟩ := hname
      exact h j (planner.fieldSource as bs j target.1, target.2)
        (by rw [sources_udt_getElem?, htarget]; rfl)
    · rw [getElem?_map, hfield]
      rfl

theorem inPlace_comm (hrecord : RecordTypes a b as bs) (hlen : as.length = bs.length)
    (h : inPlace (as.map planner.alike) (planner.sources a b) = true)
    (ih : ∀ x ∈ as, ∀ y, planner.alike x y = true → planner.alike y x = true) :
    inPlace (bs.map planner.alike) (planner.sources b a) = true := by
  rw [inPlace_map_iff] at h ⊢
  intro i source hsource
  refine ⟨hrecord.place_comm hlen (fun j s hs => (h j s hs).1) hsource, ?_⟩
  have hx : as[i]? = some source.2 := by
    rw [← hrecord.symm.sources_snd planner, getElem?_map, hsource]
    rfl
  obtain ⟨hi, -⟩ := List.getElem?_eq_some_iff.1 hx
  have hy := getElem?_eq_getElem (hlen ▸ hi)
  obtain ⟨source', -, hsame, hsource'⟩ := hrecord.exists_source planner hy
  obtain ⟨-, x, hx', halike⟩ := h i source' hsource'
  cases hx.symm.trans hx'
  exact ⟨_, hy, ih _ (mem_of_getElem? hx) _ (hsame ▸ halike)⟩

theorem alike_swap_of_not_same {a b : CqlTypeInfo}
    (h : ¬(a.sameType b || assignable a b) = true → planner.alike b a = true) :
    planner.alike b a = true := by
  by_cases hsame : (a.sameType b || assignable a b) = true
  · rw [sameType_comm, assignable_comm] at hsame
    exact (alike_of_same hsame).1
  · exact h hsame

theorem alike_swap (a : CqlTypeInfo) : ∀ b, planner.alike a b = true → planner.alike b a = true := by
  induction a using CqlTypeInfo.component_induction with
  | primitive | custom =>
    intro b h
    refine alike_swap_of_not_same fun hsame => ?_
    rw [alike.eq_def, Bool.eq_false_iff.2 hsame, Bool.false_or] at h
    cases b <;> cases h
  | list a frozen ih =>
    intro b h
    refine alike_swap_of_not_same fun hsame => ?_
    rw [alike.eq_def, Bool.eq_false_iff.2 hsame, Bool.false_or] at h
    cases b with
    | list b frozen' =>
      rw [alike.eq_def]
      dsimp only
      rw [ih b h, Bool.or_true]
    | _ => cases h
  | set a frozen ih =>
    intro b h
    refine alike_swap_of_not_same fun hsame => ?_
    rw [alike.eq_def, Bool.eq_false_iff.2 hsame, Bool.false_or] at h
    cases b with
    | set b frozen' =>
      rw [alike.eq_def]
      dsimp only
      rw [ih b h, Bool.or_true]
    | _ => cases h
  | map k v frozen ihKey ihValue =>
    intro b h
    refine alike_swap_of_not_same fun hsame => ?_
    rw [alike.eq_def, Bool.eq_false_iff.2 hsame, Bool.false_or] at h
    cases b with
    | map k' v' frozen' =>
      rw [Bool.and_eq_true] at h
      rw [alike.eq_def]
      dsimp only
      rw [ihKey k' h.1, ihValue v' h.2, Bool.and_true, Bool.or_true]
    | _ => cases h
  | vector a dimensions ih =>
    intro b h
    refine alike_swap_of_not_same fun hsame => ?_
    rw [alike.eq_def, Bool.eq_false_iff.2 hsame, Bool.false_or] at h
    cases b with
    | vector b dimensions' =>
      rw [Bool.and_eq_true, beq_iff_eq] at h
      rw [alike.eq_def]
      dsimp only
      rw [ih b h.2, h.1, beq_self_eq_true, Bool.and_true, Bool.or_true]
    | _ => cases h
  | tuple as ih =>
    intro b h
    refine alike_swap_of_not_same fun hsame => ?_
    rw [alike.eq_def, Bool.eq_false_iff.2 hsame, Bool.false_or] at h
    cases b with
    | tuple bs =>
      rw [Bool.and_eq_true, beq_iff_eq, alikeEach_eq] at h
      rw [alike.eq_def]
      dsimp only
      rw [alikeEach_eq, inPlace_comm (.tuple as bs) h.1 h.2 ih, h.1, beq_self_eq_true,
        Bool.and_true, Bool.or_true]
    | _ => cases h
  | udt keyspace name as frozen ih =>
    intro b h
    refine alike_swap_of_not_same fun hsame => ?_
    rw [alike.eq_def, Bool.eq_false_iff.2 hsame, Bool.false_or] at h
    cases b with
    | udt keyspace' name' bs frozen' =>
      rw [Bool.and_eq_true, beq_iff_eq, alikeFields_eq] at h
      have hplace := inPlace_comm (.udt keyspace keyspace' name name' as bs frozen frozen')
        (by simpa using h.1) h.2 fun x hx => by
          obtain ⟨field, hfield, rfl⟩ := mem_map.1 hx
          exact ih field hfield
      rw [alike.eq_def]
      dsimp only
      rw [alikeFields_eq, hplace, h.1, beq_self_eq_true, Bool.and_true, Bool.or_true]
    | _ => cases h

/-- Values that are passed through in one direction are passed through in the other. -/
theorem alike_comm (a b : CqlTypeInfo) : planner.alike a b = planner.alike b a := by
  rw [Bool.eq_iff_iff]
  exact ⟨alike_swap a b, alike_swap b a⟩

/-- Where the component of a record comes from in one direction, it goes to in the other. -/
theorem RecordTypes.source_back (hrecord : RecordTypes a b as bs) (hlen : as.length = bs.length)
    (hnames : a.fieldNames.Nodup) {j : ℕ} {x : CqlTypeInfo} (hx : as[j]? = some x) :
    ∃ k y, (planner.sources b a)[j]? = some (k, x) ∧ bs[k]? = some y ∧
      (planner.sources a b)[k]? = some (j, y) := by
  obtain ⟨hj, -⟩ := List.getElem?_eq_some_iff.1 hx
  cases hrecord with
  | tuple as bs =>
    have hy := getElem?_eq_getElem (hlen ▸ hj)
    refine ⟨j, _, ?_, hy, ?_⟩
    · rw [sources_tuple_getElem?, hx]
      rfl
    · rw [sources_tuple_getElem?, hy]
      rfl
  | udt ka kb na nb as bs fa fb =>
    rw [length_map, length_map] at hlen
    rw [getElem?_map, map_eq_some_iff] at hx
    obtain ⟨field, hfield, rfl⟩ := hx
    simp only [sources_udt_getElem?, hfield, map_some, getElem?_map,
      map_eq_some_iff, fieldSource, namesMatchAsSets_comm bs as]
    by_cases hby : (!planner.compatJava && namesMatchAsSets as bs) = true
    · simp only [if_pos hby]
      rw [Bool.and_eq_true] at hby
      have hperm := isPerm_iff.1 hby.2
      have hname : (as.map Prod.fst)[j]? = some field.1 := by
        rw [getElem?_map, hfield]
        rfl
      obtain ⟨k, hk, hback⟩ := findIdx?_eq_some (hperm.mem_iff.1 (mem_of_getElem? hname))
      obtain ⟨i, hi, hfirst⟩ := findIdx?_eq_some (mem_of_getElem? hname)
      -- the name occurs once, so it is found where it was
      have hsame : i = j := (getElem?_inj (List.getElem?_eq_some_iff.1 hfirst).1 hnames).1
        (hfirst.trans hname.symm)
      rw [getElem?_map, map_eq_some_iff] at hback
      obtain ⟨target, htarget, htargetName⟩ := hback
      refine ⟨k, target.2, ?_, ⟨target, htarget, rfl⟩, target, htarget, ?_⟩
      · rw [hk]
        rfl
      · rw [htargetName, hi, hsame]
        rfl
    · simp only [if_neg hby]
      have hlt : j < as.length := (List.getElem?_eq_some_iff.1 hfield).1
      have htarget := getElem?_eq_getElem (hlen ▸ hlt)
      exact ⟨j, _, rfl, ⟨_, htarget, rfl⟩, _, htarget, rfl⟩

/-! ### Leaves -/

/-- The leaf types at the same place of two types, where a leaf is converted. -/
inductive LeafPair (planner : Planner) : CqlTypeInfo → CqlTypeInfo → Primitive → Primitive → Prop
  | primitive {x y : Primitive} (halike : planner.alike (.primitive x) (.primitive y) = false) :
    LeafPair planner (.primitive x) (.primitive y) x y
  | list {a b : CqlTypeInfo} {fa fb : Bool} {x y : Primitive}
    (halike : planner.alike (.list a fa) (.list b fb) = false) (h : LeafPair planner a b x y) :
    LeafPair planner (.list a fa) (.list b fb) x y
  | set {a b : CqlTypeInfo} {fa fb : Bool} {x y : Primitive}
    (halike : planner.alike (.set a fa) (.set b fb) = false) (h : LeafPair planner a b x y) :
    LeafPair planner (.set a fa) (.set b fb) x y
  | key {ka va kb vb : CqlTypeInfo} {fa fb : Bool} {x y : Primitive}
    (halike : planner.alike (.map ka va fa) (.map kb vb fb) = false)
    (h : LeafPair planner ka kb x y) : LeafPair planner (.map ka va fa) (.map kb vb fb) x y
  | value {ka va kb vb : CqlTypeInfo} {fa fb : Bool} {x y : Primitive}
    (halike : planner.alike (.map ka va fa) (.map kb vb fb) = false)
    (h : LeafPair planner va vb x y) : LeafPair planner (.map ka va fa) (.map kb vb fb) x y
  | vector {a b : CqlTypeInfo} {da db : ℕ} {x y : Primitive}
    (halike : planner.alike (.vector a da) (.vector b db) = false) (h : LeafPair planner a b x y) :
    LeafPair planner (.vector a da) (.vector b db) x y
  | component {a b c : CqlTypeInfo} {as bs : List CqlTypeInfo} {source : ℕ × CqlTypeInfo}
    {x y : Primitive} (hrecord : RecordTypes a b as bs) (halike : planner.alike a b = false)
    (hsource : source ∈ planner.sources a b) (hc : as[source.1]? = some c)
    (h : LeafPair planner c source.2 x y) : LeafPair planner a b x y

/-- `g` takes back what `f` makes of the values of a type, which are values of the other. -/
def TakesBack (format : LeafFormat) (x y : Primitive) (f g : Converter) : Prop :=
  ∀ bytes cell, format.Valid x bytes → f (some bytes) = .ok cell →
    ∃ out, cell = some out ∧ format.Valid y out ∧ g (some out) = .ok (some bytes)

/-- The codecs of the leaves undo each other. -/
def LeavesInverse (planner : Planner) (format : LeafFormat) (a b : CqlTypeInfo) : Prop :=
  ∀ x y, planner.LeafPair a b x y → ∀ f, planner.registry.converter (.primitive x) (.primitive y) =
    some f → ∃ g, planner.registry.converter (.primitive y) (.primitive x) = some g ∧
      TakesBack format x y f g

variable {format : LeafFormat}

/-- What a codec is planned as. -/
theorem planTypes_codec {x y : Primitive} {f : Converter}
    (halike : planner.alike (.primitive x) (.primitive y) = false)
    (hf : planner.registry.converter (.primitive x) (.primitive y) = some f) :
    planner.planTypes (.primitive x) (.primitive y) = .codec f := by
  rw [alike.eq_def, Bool.or_eq_false_iff] at halike
  rw [planTypes.eq_def, halike.1, if_neg Bool.false_ne_true]
  dsimp only
  rw [hf]

theorem planTypes_vector_codec {x y : Primitive} {f : Converter} {dimensions width width' : ℕ}
    (halike : planner.alike (.vector (.primitive x) dimensions) (.vector (.primitive y) dimensions) =
      false)
    (hplan : planner.planTypes (.primitive x) (.primitive y) = .codec f)
    (hx : x.fixedWidth = some width) (hy : y.fixedWidth = some width') :
    planner.planTypes (.vector (.primitive x) dimensions) (.vector (.primitive y) dimensions) =
      .vector (.codec f) dimensions width := by
  rw [alike.eq_def, Bool.or_eq_false_iff] at halike
  rw [planTypes.eq_def, halike.1, if_neg Bool.false_ne_true]
  dsimp only
  rw [if_neg (by simp), hplan]
  simp only [ConversionPlan.isPassthrough, fixedWidth, hx, hy, Bool.false_eq_true, if_false]

end Planner

namespace ConversionPlan

theorem length_flatten_of {elements : List Bytes} {width : ℕ}
    (h : ∀ e ∈ elements, e.length = width) : elements.flatten.length = elements.length * width := by
  induction elements with
  | nil => simp
  | cons e elements ih =>
    rw [forall_mem_cons] at h
    rw [flatten_cons, length_append, ih h.2, h.1, length_cons, Nat.succ_mul,
      Nat.add_comm]

/-- A vector is converted element by element. -/
theorem convertVector_flatten_eq_ok {f : Converter} {width : ℕ} {elements : List Bytes}
    (hwidth : ∀ e ∈ elements, e.length = width) {out : Bytes} :
    convertVector f width elements.length elements.flatten = .ok out ↔
      ∃ outs, List.Forall₂ (fun e o => f (some e) = .ok (some o)) elements outs ∧
        out = outs.flatten := by
  induction elements generalizing out with
  | nil =>
    constructor
    · intro h
      cases h
      exact ⟨[], .nil, rfl⟩
    · rintro ⟨outs, houts, rfl⟩
      cases houts
      rfl
  | cons e elements ih =>
    rw [forall_mem_cons] at hwidth
    rw [length_cons, convertVector_succ_eq_ok]
    constructor
    · rintro ⟨element, rest, converted, others, hlen, hbytes, hf, hothers, rfl⟩
      obtain ⟨rfl, rfl⟩ := append_inj hbytes (hwidth.1.trans hlen.symm)
      obtain ⟨outs, houts, rfl⟩ := (ih hwidth.2).1 hothers
      exact ⟨converted :: outs, .cons hf houts, rfl⟩
    · rintro ⟨outs, houts, rfl⟩
      cases houts with
      | @cons _ o _ outs hf hrest =>
        exact ⟨e, elements.flatten, o, outs.flatten, hwidth.1, rfl, hf,
          (ih hwidth.2).2 ⟨outs, hrest, rfl⟩, rfl⟩

end ConversionPlan

namespace Planner

open CqlValue CqlTypeInfo ConversionPlan

variable {planner : Planner} {format : LeafFormat} {a b : CqlTypeInfo}

/-- A vector is taken back if its elements are. -/
theorem applyVector_back {x y : Primitive} {f g : Converter} (hback : TakesBack format x y f g)
    {width width' : ℕ} (hx : x.fixedWidth = some width) (hy : y.fixedWidth = some width')
    {elements : List Bytes} (hvalid : ∀ e ∈ elements, format.Valid x e) {out : Bytes}
    (h : applyVector (codec f).apply elements.length width elements.flatten = .ok out) :
    applyVector (codec g).apply elements.length width' out = .ok elements.flatten := by
  obtain ⟨-, hconvert⟩ := applyVector_eq_ok.1 h
  obtain ⟨outs, houts, rfl⟩ :=
    (convertVector_flatten_eq_ok fun e he => format.width (hvalid e he) hx).1 hconvert
  have hall : List.Forall₂ (fun o e => format.Valid y o ∧ g (some o) = .ok (some e)) outs elements := by
    refine List.Forall₂.flip (((forall₂_and_left _ _).2 ⟨hvalid, houts⟩).imp ?_)
    rintro e o ⟨he, hf⟩
    obtain ⟨o', ho', hvalid', hg⟩ := hback e (some o) he hf
    cases ho'
    exact ⟨hvalid', hg⟩
  have hwidth (o : Bytes) (ho : o ∈ outs) : o.length = width' := by
    obtain ⟨i, hi, rfl⟩ := mem_iff_getElem.1 ho
    exact format.width (hall.get hi (hall.length_eq ▸ hi)).1 hy
  rw [applyVector_eq_ok, ← hall.length_eq]
  exact ⟨length_flatten_of hwidth, (convertVector_flatten_eq_ok hwidth).2
    ⟨elements, hall.imp fun _ _ ho => ho.2, rfl⟩⟩

/-- A leaf is taken back. -/
theorem leaf_back (halike : planner.alike a b = false)
    (hsupported : (planner.planTypes a b).Supported) {f : Converter}
    (hf : planner.leafConverter a b = some f) (hleaves : planner.LeavesInverse format a b)
    {bytes : Bytes} (hvalid : format.ValidLeaf a bytes) {cell : RawCell}
    (hcell : f (some bytes) = .ok cell) :
    ∃ g out, planner.leafConverter b a = some g ∧ cell = some out ∧
      g (some out) = .ok (some bytes) := by
  cases a with
  | primitive x =>
    cases b with
    | primitive y =>
      obtain ⟨g, hg, hback⟩ := hleaves x y (.primitive halike) f hf
      obtain ⟨out, hout, -, hbytes⟩ := hback bytes cell hvalid hcell
      exact ⟨g, out, hg, hout, hbytes⟩
    | _ => cases hf
  | vector a da =>
    cases b with
    | vector b db =>
      cases hf
      have hid := isIdentity_of_supported hsupported ((alike_eq _ _ hsupported).symm.trans halike)
      obtain ⟨width, width', rfl, hwidth, hwidth', hplan⟩ := planTypes_vector hid
      rw [hplan] at hsupported hcell
      -- only primitives have a width
      obtain ⟨x, rfl⟩ : ∃ x, a = .primitive x := by
        cases a <;> first | exact ⟨_, rfl⟩ | cases hwidth
      obtain ⟨y, rfl⟩ : ∃ y, b = .primitive y := by
        cases b <;> first | exact ⟨_, rfl⟩ | cases hwidth'
      have hwidth : x.fixedWidth = some width := hwidth
      have hwidth' : y.fixedWidth = some width' := hwidth'
      have halikeElement : planner.alike (.primitive x) (.primitive y) = false := by
        rw [alike.eq_def, Bool.or_eq_false_iff] at halike
        simpa using halike.2
      have hsupportedElement : (planner.planTypes (.primitive x) (.primitive y)).Supported := hsupported
      have hidElement := isIdentity_of_supported hsupportedElement
        ((alike_eq _ _ hsupportedElement).symm.trans halikeElement)
      obtain ⟨f, hf, hcodec⟩ := planTypes_primitive hidElement
      obtain ⟨g, hg, hback⟩ := hleaves x y (.vector halike (.primitive halikeElement)) f hf
      rw [alike_comm] at halike halikeElement
      have hplanBack := planTypes_vector_codec halike (planTypes_codec halikeElement hg) hwidth' hwidth
      obtain ⟨elements, hlen, rfl, helements⟩ := hvalid (by rw [hwidth]; rfl)
      rw [hcodec, apply_vector, cellwise] at hcell
      obtain ⟨out, hout, rfl⟩ := map_eq_ok.1 hcell
      subst hlen
      refine ⟨_, out, rfl, rfl, ?_⟩
      rw [hplanBack, apply_vector, cellwise]
      exact map_eq_ok.2 ⟨_, applyVector_back hback hwidth hwidth' helements hout, rfl⟩
    | _ => cases hf
  | _ => cases hf

/-! ### Values -/

theorem LeavesInverse.of_pair {c d : CqlTypeInfo} (h : planner.LeavesInverse format a b)
    (hpair : ∀ x y, planner.LeafPair c d x y → planner.LeafPair a b x y) :
    planner.LeavesInverse format c d :=
  fun x y hcd => h x y (hpair x y hcd)

/-- A converted value converts back. -/
theorem Traversal.convert_back {value out : CqlValue} (h : planner.Traversal a b value)
    (hv : WellFormed format a value) (hleaves : planner.LeavesInverse format a b)
    (hout : planner.convert a b value = .ok out) : planner.convert b a out = .ok value := by
  induction h generalizing out with
  | alike halike hplan =>
    rw [convert_of_alike halike] at hout
    cases hout
    exact convert_of_alike ((alike_comm _ _).symm.trans halike) _
  | null =>
    rw [convert_null] at hout
    cases hout
    exact convert_null _ _
  | leaf halike hsupported ha hb hf hplan bytes =>
    rw [convert_leaf halike hf] at hout
    obtain ⟨cell, hcell, rfl⟩ := map_eq_ok.1 hout
    cases hv with
    | leaf _ hvalid =>
      obtain ⟨g, out, hg, rfl, hback⟩ := leaf_back halike hsupported hf hleaves hvalid hcell
      exact (convert_leaf ((alike_comm _ _).symm.trans halike) hg out).trans
        (map_eq_ok.2 ⟨some bytes, hback, rfl⟩)
  | list halike hplan h ih =>
    rw [convert_list halike] at hout
    obtain ⟨converted, hconverted, rfl⟩ := map_eq_ok.1 hout
    cases hv with
    | sequence ht hdistinct hall =>
      cases ht
      rw [convert_list ((alike_comm _ _).symm.trans halike)]
      refine map_eq_ok.2 ⟨_, mapM_back (fun e he y hy => ?_) hconverted, rfl⟩
      exact ih e he (hall e he) (hleaves.of_pair fun _ _ => .list halike) hy
  | set halike hplan h ih =>
    rw [convert_set halike] at hout
    obtain ⟨converted, hconverted, rfl⟩ := map_eq_ok.1 hout
    cases hv with
    | sequence ht hdistinct hall =>
      cases ht
      have hback := mapM_back (fun e he y hy =>
        ih e he (hall e he) (hleaves.of_pair fun _ _ => .set halike) hy) hconverted
      -- what is taken back to different elements is different, so nothing is dropped
      have hnodup := nodup_of_mapM hback (hdistinct rfl)
      rw [keepFirst_eq_self hnodup, convert_set ((alike_comm _ _).symm.trans halike)]
      refine map_eq_ok.2 ⟨_, hback, ?_⟩
      rw [keepFirst_eq_self (hdistinct rfl)]
  | map halike hplan hconverts hkey hvalue ihKey ihValue =>
    rw [convert_map halike] at hout
    obtain ⟨converted, hconverted, rfl⟩ := map_eq_ok.1 hout
    cases hv with
    | entries ht hkeys hvalues =>
      cases ht
      rw [convert_map ((alike_comm _ _).symm.trans halike)]
      refine map_eq_ok.2 ⟨_, mapM_back (fun e he p hp => ?_) hconverted, rfl⟩
      rw [convertPair_eq_ok] at hp ⊢
      exact ⟨ihKey e he (hkeys e he) (hleaves.of_pair fun _ _ => .key halike) hp.1,
        ihValue e he (hvalues e he) (hleaves.of_pair fun _ _ => .value halike) hp.2⟩
  | @record a b as bs fields components hrecord hlen halike hplan hfields hcount h ih =>
    rw [convert_record hrecord halike] at hout
    obtain ⟨converted, hconverted, rfl⟩ := map_eq_ok.1 hout
    cases hv with
    | record ht hnames hcomponents hall =>
      cases hrecord.shape_left.symm.trans ht
      rw [convert_record hrecord.symm ((alike_comm _ _).symm.trans halike)]
      refine map_eq_ok.2 ⟨components, mapM_eq_ok_iff.2 ?_, rfl⟩
      refine forall₂_iff_get.2 ⟨?_, fun j hj hj' => ?_⟩
      · rw [hrecord.symm.length_sources, hcomponents]
      · have hx := getElem?_eq_getElem (hcomponents ▸ hj')
        have hcomponent := getElem?_eq_getElem hj'
        obtain ⟨k, y, hsource, hy, hback⟩ := hrecord.source_back hlen hnames hx
        obtain ⟨c, hc, hconvert⟩ := exists_mapM_getElem? hconverted k hback
        rw [fromSource_map hx, hcomponent, getD_some] at hconvert
        have hmem := mem_of_getElem? hback
        have hcBack := ih (j, y) hmem _ hx
          (by rw [hcomponent]; exact hall j _ _ hx hcomponent)
          (hleaves.of_pair fun _ _ => .component hrecord halike hmem hx)
          (by rw [hcomponent]; exact hconvert)
        rw [hcomponent, getD_some] at hcBack
        rw [get_eq_getElem, get_eq_getElem,
          Option.some.inj ((getElem?_eq_getElem hj).symm.trans hsource), fromSource_map hy, hc]
        exact hcBack

/-- The plan of the one direction undoes that of the other: the bytes of a value with all its
components come back, if the codecs of the leaves undo each other. -/
theorem apply_back (h : (planner.planTypes a b).Supported) (hback : (planner.planTypes b a).Supported)
    (hleaves : planner.LeavesInverse format a b) {value : CqlValue}
    (hv : WellFormed format a value) {c out : RawCell} (hcell : value.cell = .ok c)
    (hout : (planner.planTypes a b).apply c = .ok out) :
    (planner.planTypes b a).apply out = .ok c := by
  have htraversal := (converts_of_supported a b h).traversal hv.fits
  obtain ⟨converted, hconverted, hcell'⟩ := (htraversal.encodes hcell out).1 hout
  have htraversal' := (converts_of_supported b a hback).traversal (htraversal.fits hconverted)
  exact (htraversal'.encodes hcell' c).2
    ⟨value, htraversal.convert_back hv hleaves hconverted, hcell⟩

end Planner

namespace Notes

open CqlValue Planner

def text : CqlTypeInfo := .primitive .text

def blob : CqlTypeInfo := .primitive .blob

/-- Converts text to blobs and back. -/
def planner : Planner :=
  ⟨⟨[⟨text, blob, Builtin.identityBytes⟩, ⟨blob, text, Builtin.blobToText⟩]⟩, false⟩

/-- Text is UTF-8. -/
def format : LeafFormat where
  Valid kind bytes := (kind = .text → ∃ text, Builtin.readText bytes = .ok text) ∧
    ∀ n, kind.fixedWidth = some n → bytes.length = n
  width h hn := h.2 _ hn

/-- The two codecs undo each other on text. -/
theorem takesBack {x y : Primitive} {f : Converter}
    (hf : planner.registry.converter (.primitive x) (.primitive y) = some f) :
    ∃ g, planner.registry.converter (.primitive y) (.primitive x) = some g ∧
      TakesBack format x y f g := by
  obtain ⟨entry, hentry, rfl⟩ := map_eq_some_iff.1 hf
  have hmem := mem_of_find?_eq_some hentry
  have htypes := find?_some hentry
  simp only [planner, mem_cons, not_mem_nil, or_false] at hmem
  obtain rfl | rfl := hmem
  · simp only [text, blob, CqlTypeInfo.sameType, Bool.and_eq_true, decide_eq_true_eq] at htypes
    obtain ⟨rfl, rfl⟩ := htypes
    refine ⟨Builtin.blobToText, rfl, fun bytes cell hvalid hcell => ?_⟩
    cases hcell
    obtain ⟨chars, hchars⟩ := hvalid.1 rfl
    exact ⟨bytes, rfl, ⟨nofun, nofun⟩, bind_eq_ok.2 ⟨chars, hchars, rfl⟩⟩
  · simp only [text, blob, CqlTypeInfo.sameType, Bool.and_eq_true, decide_eq_true_eq] at htypes
    obtain ⟨rfl, rfl⟩ := htypes
    refine ⟨Builtin.identityBytes, rfl, fun bytes cell hvalid hcell => ?_⟩
    obtain ⟨chars, hchars, hcell⟩ := bind_eq_ok.1 hcell
    cases hcell
    exact ⟨bytes, rfl, ⟨fun _ => ⟨chars, hchars⟩, nofun⟩, rfl⟩

def originType : CqlTypeInfo :=
  .udt none "note" [("tags", .set text false), ("body", text)] false

def targetType : CqlTypeInfo :=
  .udt none "note" [("body", blob), ("tags", .set blob false)] false

def note : CqlValue := record [sequence [leaf [0x61], leaf [0x62]], leaf [0x63]]

theorem valid_text {bytes : Bytes} (h : (Builtin.readText bytes).toOption.isSome = true) :
    WellFormed format text (leaf bytes) := by
  obtain ⟨chars, hchars⟩ := isSome_iff_exists.1 h
  exact .leaf rfl ⟨fun _ => ⟨chars, toOption_eq_some.1 hchars⟩, nofun⟩

theorem wellFormed_note : WellFormed format originType note := by
  have htags : WellFormed format (.set text false) (sequence [leaf [0x61], leaf [0x62]]) := by
    refine .sequence rfl (fun _ => by decide) ?_
    simp only [forall_mem_cons, not_mem_nil, false_implies, implies_true, and_true]
    exact ⟨valid_text (by decide), valid_text (by decide)⟩
  refine .record rfl (by decide) rfl fun i a c ha hc => ?_
  match i with
  | 0 =>
    cases ha
    cases hc
    exact htags
  | 1 =>
    cases ha
    cases hc
    exact valid_text (by decide)
  | n + 2 => cases ha

/-- The fields change their places, and come back. -/
theorem apply_back_note :
    (planner.planTypes targetType originType).apply (some [0, 0, 0, 1, 0x63,
      0, 0, 0, 14, 0, 0, 0, 2, 0, 0, 0, 1, 0x61, 0, 0, 0, 1, 0x62]) =
      .ok (some [0, 0, 0, 14, 0, 0, 0, 2, 0, 0, 0, 1, 0x61, 0, 0, 0, 1, 0x62,
        0, 0, 0, 1, 0x63]) := by
  have hplan : (planner.planTypes originType targetType).Supported := by trivial
  have hplanBack : (planner.planTypes targetType originType).Supported := by trivial
  exact apply_back hplan hplanBack (fun x y _ f hf => takesBack hf) wellFormed_note
    (by decide) (by decide)

end Notes

end Cdm
