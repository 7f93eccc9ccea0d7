import Cdm.Config.Layering
import Cdm.Lib.Fallible

/-!
# Which trees are read

The tree of a load is built from the names of properties, so that no field of it is unknown and every
section is an object.  `serde_json::from_value` then refuses it exactly when it refuses the value of
some property, and what it says is about the first such value it meets.  It walks the tree in the
order of the names.
-/

namespace Cdm

open List

/-! ### The shape of the tree -/

namespace Struct

/-- Every section of the struct that the tree has is an object without unknown fields. -/
def Shaped : Struct → List (String × JsonValue) → Prop
  | done, _ => True
  | field _ rest, fields => rest.Shaped fields
  | nested key _ inner rest, fields =>
    (∀ json, JsonValue.lookup fields key = some json → ∃ object, json = .object object ∧
      (∀ f ∈ object, f.1 ∈ inner.keys) ∧ inner.Shaped object) ∧
    rest.Shaped fields

/-- The shape is that of the members. -/
theorem Shaped.congr {s : Struct} {fields fields' : List (String × JsonValue)} (h : s.Shaped fields)
    (hsame : ∀ key ∈ s.keys, JsonValue.lookup fields' key = JsonValue.lookup fields key) :
    s.Shaped fields' := by
  induction s with
  | done => trivial
  | field spec rest ih => exact ih h fun key hkey => hsame key (mem_cons_of_mem _ hkey)
  | nested key side inner rest ihInner ihRest =>
    refine ⟨?_, ihRest h.2 fun key hkey => hsame key (mem_cons_of_mem _ hkey)⟩
    rw [hsame key mem_cons_self]
    exact h.1

theorem shaped_nil (s : Struct) : s.Shaped [] := by
  induction s with
  | done => trivial
  | field spec rest ih => exact ih
  | nested key side inner rest ihInner ihRest => exact ⟨fun _ h => absurd h (by simp [JsonValue.lookup]), ihRest⟩

end Struct

namespace JsonValue

/-- A field that is set has the name it is set under. -/
theorem mem_setField {fields : List (String × JsonValue)} {key : String} {value : JsonValue}
    {f : String × JsonValue} (h : f ∈ setField fields key value) : f.1 = key ∨ f ∈ fields := by
  induction fields with
  | nil =>
    rw [mem_singleton.1 h]
    exact .inl rfl
  | cons field rest ih =>
    obtain ⟨k, v⟩ := field
    rw [setField] at h
    split_ifs at h
    · rcases mem_cons.1 h with rfl | h
      · exact .inl rfl
      · exact .inr (mem_cons_of_mem _ h)
    · rcases mem_cons.1 h with rfl | h
      · exact .inl rfl
      · exact .inr h
    · rcases mem_cons.1 h with rfl | h
      · exact .inr mem_cons_self
      · exact (ih h).imp id (mem_cons_of_mem _)

/-- What is inserted at a path adds the first name of the path. -/
theorem mem_insertPath {fields : List (String × JsonValue)} {key : String} {rest : List String}
    {value : JsonValue} {f : String × JsonValue} (h : f ∈ insertPath fields (key :: rest) value) :
    f.1 = key ∨ f ∈ fields := by
  cases rest with
  | nil => exact mem_setField h
  | cons next rest => exact mem_setField h

theorem lookup_insertPath_of_ne (fields : List (String × JsonValue)) {key k : String}
    (rest : List String) (value : JsonValue) (h : k ≠ key) :
    lookup (insertPath fields (key :: rest) value) k = lookup fields k := by
  cases rest <;> simp [insertPath, lookup_setField, h]

end JsonValue

namespace Struct

/-- Inserting a value at the path of a field keeps the shape. -/
theorem shaped_insertPath {s : Struct} (hs : s.WellNamed) {fields : List (String × JsonValue)}
    (h : s.Shaped fields) {path : List String} (hpath : path ∈ s.paths) (value : JsonValue) :
    s.Shaped (JsonValue.insertPath fields path value) := by
  induction s generalizing fields path with
  | done => trivial
  | field spec rest ih =>
    rcases mem_cons.1 hpath with rfl | hpath
    · -- the field is none of the members behind it
      refine Shaped.congr (s := rest) h fun key hkey => ?_
      exact JsonValue.lookup_insertPath_of_ne _ _ _ fun heq => hs.2.1 (heq ▸ hkey)
    · exact ih hs.2.2 h hpath
  | nested key side inner rest ihInner ihRest =>
    rcases mem_append.1 hpath with hpath | hpath
    · obtain ⟨path, hinner, rfl⟩ := mem_map.1 hpath
      refine ⟨?_, Shaped.congr h.2 fun k hk =>
        JsonValue.lookup_insertPath_of_ne _ _ _ fun heq => hs.2.1 (heq ▸ hk)⟩
      -- the path leads into the section, which is an object from then on
      obtain ⟨next, path, rfl, hnext⟩ := exists_cons_of_mem_paths hinner
      intro json hjson
      simp only [JsonValue.insertPath, JsonValue.lookup_setField, if_true] at hjson
      cases hjson
      refine ⟨_, rfl, ?_⟩
      cases hlookup : JsonValue.lookup fields key with
      | none =>
        refine ⟨fun f hf => ?_, ihInner hs.2.2.1 inner.shaped_nil hinner⟩
        rcases JsonValue.mem_insertPath hf with heq | hmem
        · exact heq ▸ hnext
        · exact absurd hmem not_mem_nil
      | some json =>
        obtain ⟨object, rfl, hkeys, hshaped⟩ := h.1 json hlookup
        refine ⟨fun f hf => ?_, ihInner hs.2.2.1 hshaped hinner⟩
        rcases JsonValue.mem_insertPath hf with heq | hmem
        · exact heq ▸ hnext
        · exact hkeys f hmem
    · obtain ⟨next, path', rfl, hnext⟩ := exists_cons_of_mem_paths hpath
      -- the path leads past the section, which is left as it was
      refine ⟨?_, ihRest hs.2.2.2 h.2 hpath⟩
      have hne : key ≠ next := by
        rintro rfl
        exact hs.2.1 hnext
      rw [JsonValue.lookup_insertPath_of_ne _ _ _ hne]
      exact h.1

end Struct

/-! ### Reading the tree -/

/-- The tree of registered names has the shape of the model. -/
theorem shaped_unflatten {flat : Std.TreeMap String JsonValue} (hflat : JsonValue.Registered flat) :
    ConfigModel.cdmConfig.Shaped (JsonValue.unflatten flat) ∧
      ∀ f ∈ JsonValue.unflatten flat, f.1 ∈ ConfigModel.cdmConfig.keys := by
  have hpath : ∀ e ∈ flat.toList, segments e.1 ∈ ConfigModel.cdmConfig.paths := by
    intro e he
    have hget : flat[e.1]? = some e.2 := Std.TreeMap.mem_toList_iff_getElem?_eq_some.1 he
    obtain ⟨p, hp, hname⟩ := hflat e.1 (by rw [hget]; rfl)
    obtain ⟨path, hpath, hsegments⟩ := Struct.exists_path PropertyRegistry.wellNamed {} hp
    rw [← hname, hsegments]
    exact hpath
  -- the induction is on the entries that are still to be inserted
  have run : ∀ (entries : List (String × JsonValue)) (fields : List (String × JsonValue)),
      (∀ e ∈ entries, segments e.1 ∈ ConfigModel.cdmConfig.paths) →
      ConfigModel.cdmConfig.Shaped fields →
      (∀ f ∈ fields, f.1 ∈ ConfigModel.cdmConfig.keys) →
      ConfigModel.cdmConfig.Shaped (entries.foldl
        (fun fields e => JsonValue.insertPath fields (segments e.1) e.2) fields) ∧
      ∀ f ∈ entries.foldl (fun fields e => JsonValue.insertPath fields (segments e.1) e.2) fields,
        f.1 ∈ ConfigModel.cdmConfig.keys := by
    intro entries
    induction entries with
    | nil => exact fun fields _ hshaped hkeys => ⟨hshaped, hkeys⟩
    | cons e entries ih =>
      intro fields hentries hshaped hkeys
      have he := hentries e mem_cons_self
      refine ih _ (fun e' he' => hentries e' (mem_cons_of_mem _ he'))
        (Struct.shaped_insertPath PropertyRegistry.wellNamed hshaped he e.2) fun f hf => ?_
      obtain ⟨key, rest, hsegments, hkey⟩ := Struct.exists_cons_of_mem_paths he
      simp only [hsegments] at hf
      rcases JsonValue.mem_insertPath hf with heq | hmem
      · exact heq ▸ hkey
      · exact hkeys f hmem
  exact run _ _ hpath (Struct.shaped_nil _) fun _ hf => absurd hf not_mem_nil

variable [ConfigCrates]

/-- A tree of the right shape is read when every value is. -/
theorem Struct.exists_fromFields {s : Struct} (hs : s.WellNamed) {ctx : MetaContext}
    {fields : List (String × JsonValue)} (hshaped : s.Shaped fields)
    (hread : ∀ p ∈ s.properties ctx, ∀ path, segments p.canonical = ctx.segments ++ path →
      ∀ json, JsonValue.lookupPath fields path = some json →
        (ConfigCrates.deserialize p json).isSome) :
    ∃ values, s.fromFields ctx fields = some values := by
  induction s generalizing ctx fields with
  | done => exact ⟨[], rfl⟩
  | field spec rest ih =>
    obtain ⟨values, hvalues⟩ := ih hs.2.2 hshaped fun p hp => hread p (mem_cons_of_mem _ hp)
    have hfield : ∃ value, readField (.build ctx spec) (JsonValue.lookup fields spec.key) =
        some value := by
      cases hlookup : JsonValue.lookup fields spec.key with
      | none => exact ⟨_, rfl⟩
      | some json =>
        exact Option.isSome_iff_exists.1 (hread _ mem_cons_self [spec.key]
          (ctx.segments_canonical hs.1) json hlookup)
    obtain ⟨value, hvalue⟩ := hfield
    exact ⟨_, by rw [fromFields, hvalue, Option.bind_some, hvalues]; rfl⟩
  | nested key side inner rest ihInner ihRest =>
    obtain ⟨outside, houtside⟩ := ihRest hs.2.2.2 hshaped.2 fun p hp =>
      hread p (mem_append_right _ hp)
    rw [fromFields, houtside]
    cases hlookup : JsonValue.lookup fields key with
    | none => exact ⟨_, rfl⟩
    | some json =>
      obtain ⟨object, rfl, hkeys, hobject⟩ := hshaped.1 json hlookup
      -- no field of the section is unknown, so that it is refused for a value only
      have hinner : ∃ inside, inner.fromFields (ctx.child key side) object = some inside := by
        refine ihInner hs.2.2.1 hobject fun p hp path hpath json hjson => ?_
        rw [ctx.segments_child hs.1, append_assoc] at hpath
        refine hread p (mem_append_left _ hp) (key :: path) hpath json ?_
        cases path with
        | nil => cases hjson
        | cons next path => rw [JsonValue.lookupPath_cons_cons, hlookup]; exact hjson
      obtain ⟨inside, hinside⟩ := hinner
      have hall : (object.all fun f => decide (f.1 ∈ inner.keys)) = true := by
        simpa [all_eq_true] using hkeys
      exact ⟨_, by simp only [hall, if_true, hinside]; rfl⟩

/-- **A tree is refused exactly when a value is.** -/
theorem CdmConfig.fromFields_unflatten_eq_none {flat : Std.TreeMap String JsonValue}
    (hflat : JsonValue.Registered flat) :
    CdmConfig.fromFields (JsonValue.unflatten flat) = none ↔
      ∃ p ∈ PropertyRegistry.all, ∃ json, flat[p.canonical]? = some json ∧
        ConfigCrates.deserialize p json = none := by
  constructor
  · intro hnone
    by_contra hread
    obtain ⟨hshaped, hkeys⟩ := shaped_unflatten hflat
    have hvalues : ∃ values, ConfigModel.cdmConfig.fromFields {} (JsonValue.unflatten flat) =
        some values := by
      refine Struct.exists_fromFields PropertyRegistry.wellNamed hshaped ?_
      intro p hp path hpath json hjson
      have hp' : p ∈ PropertyRegistry.all := hp
      have hpath' : segments p.canonical = path := hpath
      rw [← hpath', JsonValue.lookupPath_unflatten hflat hp'] at hjson
      rw [Option.isSome_iff_ne_none]
      exact fun hrejected => hread ⟨p, hp', json, hjson, hrejected⟩
    obtain ⟨values, hvalues⟩ := hvalues
    have hall : ((JsonValue.unflatten flat).all fun f =>
        decide (f.1 ∈ ConfigModel.cdmConfig.keys)) = true := by
      simpa [all_eq_true] using hkeys
    rw [fromFields, hall, if_pos rfl, hvalues] at hnone
    cases hnone
  · rintro ⟨p, hp, json, hjson, hrejected⟩
    by_contra hsome
    obtain ⟨config, hconfig⟩ := Option.ne_none_iff_exists'.1 hsome
    obtain ⟨value, -, hreads⟩ := CdmConfig.get_of_fromFields hconfig hp
    rw [JsonValue.lookupPath_unflatten hflat hp, hjson] at hreads
    cases hrejected.symm.trans hreads

/-! ### The first value that is rejected -/

namespace PropertyRegistry

omit [ConfigCrates] in
/-- The properties in the order of their names, which is the order of a tree. -/
def ordered : List PropertyMeta := all.insertionSort fun p q => p.canonical ≤ q.canonical

omit [ConfigCrates] in
theorem mem_ordered {p : PropertyMeta} : p ∈ ordered ↔ p ∈ all := mem_insertionSort _

/-- The value of a property, when it cannot be read. -/
def rejects (value : PropertyMeta → Option JsonValue) (p : PropertyMeta) :
    Option (PropertyMeta × JsonValue) :=
  (value p).bind fun json =>
    if (ConfigCrates.deserialize p json).isSome then none else some (p, json)

/-- The first property whose value cannot be read, with the value. -/
def firstRejected (value : PropertyMeta → Option JsonValue) : Option (PropertyMeta × JsonValue) :=
  ordered.findSome? (rejects value)

theorem rejects_eq_some {value : PropertyMeta → Option JsonValue} {p : PropertyMeta}
    {found : PropertyMeta × JsonValue} :
    rejects value p = some found ↔
      value p = some found.2 ∧ ConfigCrates.deserialize p found.2 = none ∧ found.1 = p := by
  rw [rejects, Option.bind_eq_some_iff]
  constructor
  · rintro ⟨json, hjson, h⟩
    split_ifs at h with hread
    cases h
    exact ⟨hjson, Option.not_isSome_iff_eq_none.1 hread, rfl⟩
  · obtain ⟨q, json⟩ := found
    rintro ⟨hjson, hread, rfl⟩
    exact ⟨json, hjson, by rw [hread]; rfl⟩

theorem firstRejected_eq_none {value : PropertyMeta → Option JsonValue} :
    firstRejected value = none ↔
      ¬∃ p ∈ all, ∃ json, value p = some json ∧ ConfigCrates.deserialize p json = none := by
  rw [firstRejected, findSome?_eq_none_iff]
  constructor
  · rintro h ⟨p, hp, json, hjson, hread⟩
    have hsome : rejects value p = some (p, json) := rejects_eq_some.2 ⟨hjson, hread, rfl⟩
    rw [h p (mem_ordered.2 hp)] at hsome
    cases hsome
  · intro h p hp
    by_contra hsome
    obtain ⟨found, hfound⟩ := Option.ne_none_iff_exists'.1 hsome
    obtain ⟨hjson, hread, -⟩ := rejects_eq_some.1 hfound
    exact h ⟨p, mem_ordered.1 hp, found.2, hjson, hread⟩

theorem of_firstRejected {value : PropertyMeta → Option JsonValue} {p : PropertyMeta}
    {json : JsonValue} (h : firstRejected value = some (p, json)) :
    p ∈ all ∧ value p = some json ∧ ConfigCrates.deserialize p json = none := by
  obtain ⟨q, hmem, hq⟩ := exists_of_findSome?_eq_some h
  obtain ⟨hjson, hread, rfl⟩ := rejects_eq_some.1 hq
  exact ⟨mem_ordered.1 hmem, hjson, hread⟩

theorem firstRejected_congr {value value' : PropertyMeta → Option JsonValue}
    (h : ∀ p ∈ all, value p = value' p) : firstRejected value = firstRejected value' := by
  refine Fallible.findSome?_congr fun p hp => ?_
  rw [rejects, rejects, h p (mem_ordered.1 hp)]

end PropertyRegistry

end Cdm
