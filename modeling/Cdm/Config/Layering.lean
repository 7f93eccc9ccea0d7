import Cdm.Config.Written

/-!
# Configuration layering

The loader gets the layers of what is written in its sources (`ConfigLoader.adds_add`).  Whatever
layers it is given, and in whatever order, a property has the value of the layer with the highest
rank that assigns it: of two layers of one rank the one that was added later, of two assignments of
one layer the later.  `Wins` says which assignment that is.

The proof follows the loader.  A value that is merged is found again under the name of its property
in the tree that is built from the merged values (`JsonValue.lookupPath_unflatten`), because the
names of the properties are no prefixes of one another; and the field of the configuration is read
from there (`Struct.fromFields_spec`).
-/

namespace Cdm

open List Option

/-! ### The tree -/

namespace JsonValue

theorem lookup_setField (fields : List (String × JsonValue)) (key : String) (value : JsonValue)
    (k : String) :
    lookup (setField fields key value) k = if k = key then some value else lookup fields k := by
  induction fields with
  | nil =>
    simp only [setField, lookup, find?_cons, find?_nil]
    by_cases h : key = k
    · simp [h]
    · simp [h, Ne.symm h]
  | cons field rest ih =>
    obtain ⟨j, v⟩ := field
    rw [setField]
    by_cases hj : j = key
    · subst hj
      by_cases h : j = k
      · simp [lookup, h]
      · simp [lookup, h, Ne.symm h]
    · rw [if_neg hj]
      split_ifs with hlt hk hk
      · simp [lookup, hk]
      · simp [lookup, Ne.symm hk]
      · subst hk
        have := ih
        rw [if_pos rfl] at this
        simpa [lookup, hj] using this
      · rw [if_neg hk] at ih
        by_cases hjk : j = k
        · simp [lookup, hjk]
        · simpa [lookup, hjk] using ih

theorem lookupPath_cons_cons (fields : List (String × JsonValue)) (head next : String)
    (rest : List String) :
    lookupPath fields (head :: next :: rest) =
      match lookup fields head with
      | some (object inner) => lookupPath inner (next :: rest)
      | _ => none := rfl

theorem lookupPath_insertPath_self (fields : List (String × JsonValue)) {path : List String}
    (h : path ≠ []) (value : JsonValue) :
    lookupPath (insertPath fields path value) path = some value := by
  induction path generalizing fields with
  | nil => exact absurd rfl h
  | cons head rest ih =>
    cases rest with
    | nil => simp [lookupPath, insertPath, lookup_setField]
    | cons next rest =>
      simp only [insertPath, lookupPath, lookup_setField, if_true]
      exact ih _ (cons_ne_nil _ _)

/-- A path is not touched by what is inserted elsewhere. -/
theorem lookupPath_insertPath (fields : List (String × JsonValue)) {p q : List String}
    (h : Incomparable p q) (value : JsonValue) :
    lookupPath (insertPath fields p value) q = lookupPath fields q := by
  induction p generalizing fields q with
  | nil => exact absurd nil_prefix h.1
  | cons a p ih =>
    cases q with
    | nil => exact absurd nil_prefix h.2
    | cons b q =>
      by_cases hab : b = a
      · -- the paths part below, in the object that both lead through
        subst hab
        have hrest : Incomparable p q :=
          ⟨fun hp => h.1 (cons_prefix_cons.2 ⟨rfl, hp⟩),
            fun hq => h.2 (cons_prefix_cons.2 ⟨rfl, hq⟩)⟩
        cases p with
        | nil => exact absurd nil_prefix hrest.1
        | cons c p =>
          cases q with
          | nil => exact absurd nil_prefix hrest.2
          | cons d q =>
            simp only [insertPath, lookupPath, lookup_setField, if_true]
            rw [ih _ hrest]
            split
            · rfl
            · cases q <;> rfl
      · have hfield : lookup (insertPath fields (a :: p) value) b = lookup fields b := by
          cases p <;> simp [insertPath, lookup_setField, hab]
        cases q <;> simp only [lookupPath, hfield]

/-- The value at a path after a run of insertions elsewhere. -/
theorem lookupPath_foldl (entries : List (String × JsonValue)) (fields : List (String × JsonValue))
    {path : List String} (h : ∀ e ∈ entries, Incomparable (segments e.1) path) :
    lookupPath (entries.foldl (fun fields e => insertPath fields (segments e.1) e.2) fields) path =
      lookupPath fields path := by
  induction entries generalizing fields with
  | nil => rfl
  | cons e entries ih =>
    rw [foldl_cons, ih _ fun e' he' => h e' (mem_cons_of_mem _ he'),
      lookupPath_insertPath _ (h e mem_cons_self)]

/-- The names of the registry's properties. -/
def Registered (flat : Std.TreeMap String JsonValue) : Prop :=
  ∀ k, flat[k]?.isSome → ∃ p ∈ PropertyRegistry.all, p.canonical = k

/-- **What is flattened is found again.** -/
theorem lookupPath_unflatten {flat : Std.TreeMap String JsonValue} (hflat : Registered flat)
    {p : PropertyMeta} (hp : p ∈ PropertyRegistry.all) :
    lookupPath (unflatten flat) (segments p.canonical) = flat[p.canonical]? := by
  have hother : ∀ e ∈ flat.toList, e.1 ≠ p.canonical →
      Incomparable (segments e.1) (segments p.canonical) := by
    intro e he hne
    have hget : flat[e.1]? = some e.2 := Std.TreeMap.mem_toList_iff_getElem?_eq_some.1 he
    obtain ⟨q, hq, hname⟩ := hflat e.1 (by rw [hget]; rfl)
    rw [← hname] at hne ⊢
    exact PropertyRegistry.incomparable hq hp hne
  cases hget : flat[p.canonical]? with
  | none =>
    have hne : ∀ e ∈ flat.toList, e.1 ≠ p.canonical := by
      intro e he heq
      rw [← heq, Std.TreeMap.mem_toList_iff_getElem?_eq_some.1 he] at hget
      cases hget
    rw [unflatten, lookupPath_foldl _ _ fun e he => hother e he (hne e he)]
    cases segments p.canonical with
    | nil => rfl
    | cons head rest => cases rest <;> rfl
  | some value =>
    obtain ⟨before, after, hlist⟩ :=
      append_of_mem (Std.TreeMap.mem_toList_iff_getElem?_eq_some.2 hget)
    have hdistinct := Std.TreeMap.distinct_keys_toList (t := flat)
    rw [hlist, pairwise_append, pairwise_cons] at hdistinct
    have hne : ∀ e ∈ after, e.1 ≠ p.canonical := by
      intro e he heq
      exact hdistinct.2.1.1 e he (by simp [heq])
    rw [unflatten, hlist, foldl_append, foldl_cons,
      lookupPath_foldl _ _ fun e he => hother e (by simp [hlist, he]) (hne e he)]
    refine lookupPath_insertPath_self _ ?_ _
    simp [segments, Text.splitOn_ne_nil]

end JsonValue

/-! ### Reading the configuration -/

section Reading

variable [ConfigCrates]

/-- What a field holds, by what the tree has at its path. -/
def PropertyMeta.Reads (p : PropertyMeta) (json : Option JsonValue) (value : Setting) : Prop :=
  match json with
  | none => value = p.default
  | some json => ConfigCrates.deserialize p json = some value

namespace Struct

theorem reads_of_readField {p : PropertyMeta} {json : Option JsonValue} {value : Setting}
    (h : readField p json = some value) : p.Reads json value := by
  cases json with
  | none => exact (Option.some.inj h).symm
  | some json => exact h

omit [ConfigCrates] in
theorem map_fst_defaults (s : Struct) (ctx : MetaContext) :
    (s.defaults ctx).map Prod.fst = (s.properties ctx).map PropertyMeta.canonical := by
  simp [defaults]

/-- What reading a section gives. -/
theorem fromFields_nested {ctx : MetaContext} {key : String} {side : Option String}
    {inner rest : Struct} {fields : List (String × JsonValue)} {values : List (String × Setting)}
    (h : (nested key side inner rest).fromFields ctx fields = some values) :
    ∃ inside outside, values = inside ++ outside ∧ rest.fromFields ctx fields = some outside ∧
      (JsonValue.lookup fields key = none ∧ inside = inner.defaults (ctx.child key side) ∨
        ∃ object, JsonValue.lookup fields key = some (.object object) ∧
          inner.fromFields (ctx.child key side) object = some inside) := by
  rw [fromFields] at h
  obtain ⟨inside, hinside, h⟩ := bind_eq_some_iff.1 h
  obtain ⟨outside, houtside, rfl⟩ := map_eq_some_iff.1 h
  refine ⟨inside, outside, rfl, houtside, ?_⟩
  split at hinside
  · next hlookup => exact .inl ⟨hlookup, (Option.some.inj hinside).symm⟩
  · next object hlookup =>
    split_ifs at hinside
    exact .inr ⟨object, hlookup, hinside⟩
  · cases hinside

theorem map_fst_fromFields {s : Struct} {ctx : MetaContext} {fields : List (String × JsonValue)}
    {values : List (String × Setting)} (h : s.fromFields ctx fields = some values) :
    values.map Prod.fst = (s.properties ctx).map PropertyMeta.canonical := by
  induction s generalizing ctx fields values with
  | done =>
    cases h
    rfl
  | field spec rest ih =>
    rw [fromFields] at h
    obtain ⟨value, -, h⟩ := bind_eq_some_iff.1 h
    obtain ⟨values', hrest, rfl⟩ := map_eq_some_iff.1 h
    rw [map_cons, ih hrest, properties, map_cons, PropertyMeta.build]
  | nested key side inner rest ihInner ihRest =>
    obtain ⟨inside, outside, rfl, hrest, ⟨-, rfl⟩ | ⟨object, -, hinner⟩⟩ := fromFields_nested h
    · rw [map_append, map_fst_defaults, ihRest hrest, properties, map_append]
    · rw [map_append, ihInner hinner, ihRest hrest, properties, map_append]

/-- **Every field is read from its path**, or keeps its default. -/
theorem fromFields_spec {s : Struct} (hs : s.WellNamed) {ctx : MetaContext}
    {fields : List (String × JsonValue)} {values : List (String × Setting)}
    (h : s.fromFields ctx fields = some values) {p : PropertyMeta} (hp : p ∈ s.properties ctx) :
    ∃ path value, segments p.canonical = ctx.segments ++ path ∧ path ≠ [] ∧
      (p.canonical, value) ∈ values ∧ p.Reads (JsonValue.lookupPath fields path) value := by
  induction s generalizing ctx fields values with
  | done => cases hp
  | field spec rest ih =>
    rw [fromFields] at h
    obtain ⟨value, hvalue, h⟩ := bind_eq_some_iff.1 h
    obtain ⟨values', hrest, rfl⟩ := map_eq_some_iff.1 h
    rcases mem_cons.1 hp with rfl | hp
    · refine ⟨[spec.key], value, ctx.segments_canonical hs.1, cons_ne_nil _ _,
        mem_cons_self, ?_⟩
      exact reads_of_readField hvalue
    · obtain ⟨path, value', hpath, hne, hmem, hreads⟩ := ih hs.2.2 hrest hp
      exact ⟨path, value', hpath, hne, mem_cons_of_mem _ hmem, hreads⟩
  | nested key side inner rest ihInner ihRest =>
    obtain ⟨inside, outside, rfl, hrest, hinside⟩ := fromFields_nested h
    rcases mem_append.1 hp with hp | hp
    · obtain ⟨hnone, rfl⟩ | ⟨object, hsome, hinner⟩ := hinside
      · -- the whole section is absent
        obtain ⟨k, -, path, hpath⟩ := exists_segments hs.2.2.1 _ hp
        rw [ctx.segments_child hs.1, append_assoc] at hpath
        refine ⟨key :: k :: path, p.default, hpath, cons_ne_nil _ _,
          mem_append_left _ (mem_map.2 ⟨p, hp, rfl⟩), ?_⟩
        rw [JsonValue.lookupPath_cons_cons, hnone]
        rfl
      · obtain ⟨path, value, hpath, hne, hmem, hreads⟩ := ihInner hs.2.2.1 hinner hp
        rw [ctx.segments_child hs.1, append_assoc] at hpath
        refine ⟨key :: path, value, hpath, cons_ne_nil _ _, mem_append_left _ hmem, ?_⟩
        obtain ⟨next, path, rfl⟩ := exists_cons_of_ne_nil hne
        rw [JsonValue.lookupPath_cons_cons, hsome]
        exact hreads
    · obtain ⟨path, value, hpath, hne, hmem, hreads⟩ := ihRest hs.2.2.2 hrest hp
      exact ⟨path, value, hpath, hne, mem_append_right _ hmem, hreads⟩

end Struct

/-- A configuration holds what the tree has under the names of the properties. -/
theorem CdmConfig.get_of_fromFields {fields : List (String × JsonValue)} {config : CdmConfig}
    (h : CdmConfig.fromFields fields = some config) {p : PropertyMeta}
    (hp : p ∈ PropertyRegistry.all) :
    ∃ value, config.get p.canonical = some value ∧
      p.Reads (JsonValue.lookupPath fields (segments p.canonical)) value := by
  rw [CdmConfig.fromFields] at h
  split_ifs at h
  obtain ⟨values, hvalues, rfl⟩ := map_eq_some_iff.1 h
  obtain ⟨path, value, hpath, -, hmem, hreads⟩ :=
    Struct.fromFields_spec PropertyRegistry.wellNamed hvalues hp
  rw [hpath]
  refine ⟨value, ?_, hreads⟩
  -- the field is the only one with this name
  have hnodup : (values.map Prod.fst).Nodup := by
    rw [Struct.map_fst_fromFields hvalues]
    exact PropertyRegistry.nodup_canonical
  obtain ⟨entry, hentry⟩ : ∃ entry, values.find? (·.1 = p.canonical) = some entry :=
    isSome_iff_exists.1 (find?_isSome.2 ⟨_, hmem, by simp⟩)
  have hname : entry.1 = p.canonical := by simpa using find?_some hentry
  have hsame : entry = (p.canonical, value) :=
    inj_on_of_nodup_map hnodup (mem_of_find?_eq_some hentry) hmem hname
  rw [CdmConfig.get, hentry, hsame]
  rfl

end Reading

/-! ### Which assignment wins -/

/-- A layer assigns a property. -/
def Layer.Assigns (layer : Layer) (key : String) : Prop := ∃ a ∈ layer.assignments, a.key = key

/-- The precedence of a layer. -/
def Layer.rank (layer : Layer) : ℕ := layer.source.rank

/-- The assignment that decides a property: the last one of a layer that no layer outranks, and that
no layer of its rank comes after. -/
structure Wins (layers : List Layer) (key : String) (layer : Layer) (a : Assignment) : Prop where
  ranked : ∃ before after, layers = before ++ layer :: after ∧
    (∀ l ∈ before, l.Assigns key → l.rank ≤ layer.rank) ∧
    ∀ l ∈ after, l.Assigns key → l.rank < layer.rank
  last : ∃ earlier later, layer.assignments = earlier ++ a :: later ∧ a.key = key ∧
    ∀ b ∈ later, b.key ≠ key

/-- A layer that assigns a property has a last assignment to it. -/
theorem Layer.exists_last {assignments : List Assignment} {key : String}
    (h : ∃ a ∈ assignments, a.key = key) :
    ∃ a earlier, ∃ later : List Assignment, assignments = earlier ++ a :: later ∧ a.key = key ∧
      ∀ b ∈ later, b.key ≠ key := by
  induction assignments with
  | nil =>
    obtain ⟨a, ha, -⟩ := h
    cases ha
  | cons b assignments ih =>
    by_cases hrest : ∃ a ∈ assignments, a.key = key
    · obtain ⟨a, earlier, later, hsplit, hkey, hlater⟩ := ih hrest
      exact ⟨a, b :: earlier, later, by rw [hsplit, cons_append], hkey, hlater⟩
    · obtain ⟨a, ha, hkey⟩ := h
      rcases mem_cons.1 ha with rfl | ha
      · exact ⟨a, [], assignments, rfl, hkey, fun b hb he => hrest ⟨b, hb, he⟩⟩
      · exact absurd ⟨a, ha, hkey⟩ hrest

/-- Some layer outranks the others, or comes after those of its rank. -/
theorem Layer.exists_ranked {layers : List Layer} {key : String}
    (h : ∃ layer ∈ layers, layer.Assigns key) :
    ∃ (layer : Layer) (before after : List Layer), layers = before ++ layer :: after ∧
      layer.Assigns key ∧
      (∀ l ∈ before, l.Assigns key → l.rank ≤ layer.rank) ∧
      ∀ l ∈ after, l.Assigns key → l.rank < layer.rank := by
  induction layers with
  | nil =>
    obtain ⟨layer, hlayer, -⟩ := h
    cases hlayer
  | cons first layers ih =>
    by_cases hrest : ∃ layer ∈ layers, layer.Assigns key
    · obtain ⟨layer, before, after, hsplit, hassigns, hbefore, hafter⟩ := ih hrest
      by_cases houtranks : first.Assigns key ∧ layer.rank < first.rank
      · -- the first layer outranks all that come after it
        refine ⟨first, [], layers, rfl, houtranks.1, nofun, fun l hl hassign => ?_⟩
        have hlt := houtranks.2
        rw [hsplit] at hl
        rcases mem_append.1 hl with hl | hl
        · exact lt_of_le_of_lt (hbefore l hl hassign) hlt
        · rcases mem_cons.1 hl with rfl | hl
          · exact hlt
          · exact (hafter l hl hassign).trans hlt
      · refine ⟨layer, first :: before, after, by rw [hsplit, cons_append], hassigns,
          fun l hl hassign => ?_, hafter⟩
        rcases mem_cons.1 hl with rfl | hl
        · exact not_lt.1 fun hlt => houtranks ⟨hassign, hlt⟩
        · exact hbefore l hl hassign
    · obtain ⟨layer, hlayer, hassigns⟩ := h
      rcases mem_cons.1 hlayer with rfl | hlayer
      · exact ⟨layer, [], layers, rfl, hassigns, nofun, fun l hl ha => absurd ⟨l, hl, ha⟩ hrest⟩
      · exact absurd ⟨layer, hlayer, hassigns⟩ hrest

theorem exists_wins {layers : List Layer} {key : String}
    (h : ∃ layer ∈ layers, layer.Assigns key) : ∃ layer a, Wins layers key layer a := by
  obtain ⟨layer, before, after, hsplit, hassigns, hbefore, hafter⟩ := Layer.exists_ranked h
  obtain ⟨a, earlier, later, hlast, hkey, hlater⟩ := Layer.exists_last hassigns
  exact ⟨layer, a, ⟨before, after, hsplit, hbefore, hafter⟩, ⟨earlier, later, hlast, hkey, hlater⟩⟩

/-! ### Merging -/

namespace Merged

/-- What the merged maps say of a property. -/
def entry (merged : Merged) (key : String) : Option JsonValue × Option Source × Option String :=
  (merged.values[key]?, merged.sources[key]?, merged.locations[key]?)

theorem entry_assign_of_ne (merged : Merged) (source : Source) {a : Assignment} {key : String}
    (h : a.key ≠ key) : (merged.assign source a).entry key = merged.entry key := by
  simp only [Merged.entry, assign]
  cases a.location <;> simp [Std.TreeMap.getElem?_insert, h]

theorem entry_assign_self (merged : Merged) (source : Source) (a : Assignment)
    (h : a.location.isSome) :
    (merged.assign source a).entry a.key = (some a.value, some source, a.location) := by
  obtain ⟨location, hlocation⟩ := isSome_iff_exists.1 h
  simp [Merged.entry, assign, hlocation]

theorem entry_foldl_assign (merged : Merged) (source : Source) {assignments : List Assignment}
    {key : String} (h : ∀ a ∈ assignments, a.key ≠ key) :
    (assignments.foldl (fun merged a => merged.assign source a) merged).entry key = merged.entry key := by
  induction assignments generalizing merged with
  | nil => rfl
  | cons a assignments ih =>
    rw [foldl_cons, ih _ fun b hb => h b (mem_cons_of_mem _ hb),
      entry_assign_of_ne _ _ (h a mem_cons_self)]

theorem entry_foldl_layer (merged : Merged) {layers : List Layer} {key : String}
    (h : ∀ l ∈ layers, ¬ l.Assigns key) : (layers.foldl layer merged).entry key = merged.entry key := by
  induction layers generalizing merged with
  | nil => rfl
  | cons l layers ih =>
    rw [foldl_cons, ih _ fun l' hl' => h l' (mem_cons_of_mem _ hl'), layer,
      entry_foldl_assign]
    exact fun a ha hkey => h l mem_cons_self ⟨a, ha, hkey⟩

/-- **The assignment that wins is merged.** -/
theorem entry_ofLayers {layers : List Layer} {key : String} {l : Layer} {a : Assignment}
    (h : Wins layers key l a) (hlocation : a.location.isSome) :
    (ofLayers layers).entry key = (some a.value, some l.source, a.location) := by
  obtain ⟨⟨before, after, rfl, hbefore, hafter⟩, earlier, later, hlast, rfl, hlater⟩ := h
  obtain ⟨pre, post, hsorted, hpost⟩ :=
    List.exists_sortByKey_append Layer.rank before l after
  -- no layer that is merged after the winner's assigns the property
  have hquiet : ∀ l' ∈ post, ¬ l'.Assigns a.key := by
    intro l' hl' hassigns
    obtain ⟨hmem, hrank⟩ | ⟨hmem, hrank⟩ := hpost l' hl'
    · exact absurd hrank (hafter l' hmem hassigns).ne
    · rcases mem_append.1 hmem with hmem | hmem
      · exact absurd hrank (not_lt.2 (hbefore l' hmem hassigns))
      · rcases mem_cons.1 hmem with rfl | hmem
        · exact absurd hrank (lt_irrefl _)
        · exact absurd hrank (hafter l' hmem hassigns).not_gt
  have hsort : (before ++ l :: after).sortByKey (·.source.rank) = pre ++ l :: post := hsorted
  rw [ofLayers, hsort, foldl_append, foldl_cons, entry_foldl_layer _ hquiet, layer, hlast,
    foldl_append, foldl_cons, entry_foldl_assign _ _ hlater, entry_assign_self _ _ _ hlocation]

/-- A property that no layer assigns is in none of the maps. -/
theorem entry_ofLayers_of_not_assigns {layers : List Layer} {key : String}
    (h : ∀ l ∈ layers, ¬ l.Assigns key) : (ofLayers layers).entry key = (none, none, none) := by
  rw [ofLayers, entry_foldl_layer]
  · rfl
  · intro l hl
    exact h l ((List.perm_sortByKey _ layers).subset hl)

end Merged

/-! ### Secrets -/

namespace ConfigLoader

/-- What a value becomes when its secret is resolved. -/
def secretOf (self : ConfigLoader) (p : PropertyMeta) (value : JsonValue) :
    Except String JsonValue :=
  match p.secret, value with
  | true, .string raw => (self.secrets.resolve raw).map .string
  | _, value => .ok value

variable (self : ConfigLoader) (sources : Std.TreeMap String Source)

/-- Resolving a secret changes the value of its property only. -/
theorem resolveSecret_of_ne (state : Std.TreeMap String JsonValue × List Diagnostic)
    {q : PropertyMeta} {key : String} (h : q.canonical ≠ key) :
    (self.resolveSecret sources state q).1[key]? = state.1[key]? := by
  unfold resolveSecret
  split
  · split
    · simp [Std.TreeMap.getElem?_insert, h]
    · simp [Std.TreeMap.getElem?_erase, h]
  · rfl

theorem resolveSecret_self (state : Std.TreeMap String JsonValue × List Diagnostic)
    {p : PropertyMeta} (hp : p.secret = true) :
    (self.resolveSecret sources state p).1[p.canonical]? =
      state.1[p.canonical]?.bind fun value => (self.secretOf p value).toOption := by
  unfold resolveSecret
  split
  · next raw hraw =>
    rw [hraw]
    simp only [bind_some, secretOf, hp]
    cases self.secrets.resolve raw with
    | ok resolved => simp [Except.map, Except.toOption]
    | error reason => simp [Except.map, Except.toOption]
  · next hnot =>
    cases hvalue : state.1[p.canonical]? with
    | none => rfl
    | some value =>
      rw [bind_some]
      unfold secretOf
      split
      · next raw _ => exact absurd hvalue (hnot raw)
      · rfl

/-- A secret that cannot be resolved is reported. -/
theorem mem_resolveSecret (state : Std.TreeMap String JsonValue × List Diagnostic)
    {p : PropertyMeta} {value : JsonValue} {reason : String}
    (hvalue : state.1[p.canonical]? = some value) (h : self.secretOf p value = .error reason) :
    unresolved sources p reason ∈ (self.resolveSecret sources state p).2 := by
  unfold secretOf at h
  split at h
  · next raw _ =>
    unfold resolveSecret
    rw [hvalue]
    cases hresolve : self.secrets.resolve raw with
    | ok resolved =>
      rw [hresolve] at h
      cases h
    | error reason' =>
      rw [hresolve] at h
      cases h
      simp [hresolve]
  · cases h

/-- A diagnostic that has been made is kept. -/
theorem subset_resolveSecret (state : Std.TreeMap String JsonValue × List Diagnostic)
    (q : PropertyMeta) : state.2 ⊆ (self.resolveSecret sources state q).2 := by
  unfold resolveSecret
  split
  · split
    · exact fun _ h => h
    · exact subset_append_left _ _
  · exact fun _ h => h

theorem foldl_resolveSecret_of_ne (state : Std.TreeMap String JsonValue × List Diagnostic)
    {secrets : List PropertyMeta} {key : String} (h : ∀ q ∈ secrets, q.canonical ≠ key) :
    (secrets.foldl (self.resolveSecret sources) state).1[key]? = state.1[key]? := by
  induction secrets generalizing state with
  | nil => rfl
  | cons q secrets ih =>
    rw [foldl_cons, ih _ fun q' hq' => h q' (mem_cons_of_mem _ hq'),
      resolveSecret_of_ne _ _ _ (h q mem_cons_self)]

theorem subset_foldl_resolveSecret (state : Std.TreeMap String JsonValue × List Diagnostic)
    (secrets : List PropertyMeta) :
    state.2 ⊆ (secrets.foldl (self.resolveSecret sources) state).2 := by
  induction secrets generalizing state with
  | nil => exact fun _ h => h
  | cons q secrets ih =>
    rw [foldl_cons]
    exact fun _ h => ih _ (self.subset_resolveSecret sources state q h)

/-- A property marked secret stands once among the secrets. -/
theorem exists_secrets_append {p : PropertyMeta} (hp : p ∈ PropertyRegistry.all)
    (hsecret : p.secret = true) :
    ∃ before after, PropertyRegistry.secrets = before ++ p :: after ∧
      (∀ q ∈ before, q.canonical ≠ p.canonical) ∧ ∀ q ∈ after, q.canonical ≠ p.canonical := by
  have hmem : p ∈ PropertyRegistry.secrets := mem_filter.2 ⟨hp, hsecret⟩
  obtain ⟨before, after, hsplit⟩ := append_of_mem hmem
  have hnodup : (PropertyRegistry.secrets.map PropertyMeta.canonical).Nodup :=
    PropertyRegistry.nodup_canonical.sublist (filter_sublist.map _)
  rw [hsplit, map_append, map_cons, nodup_append, nodup_cons] at hnodup
  obtain ⟨-, ⟨hafter, -⟩, hbefore⟩ := hnodup
  refine ⟨before, after, hsplit, fun q hq he => ?_, fun q hq he => ?_⟩
  · exact hbefore _ (mem_map_of_mem hq) _ mem_cons_self he
  · exact hafter (he ▸ mem_map_of_mem hq)

/-- **Secrets are resolved**, and the other values left alone. -/
theorem getElem?_resolveSecrets (merged : Merged) {p : PropertyMeta}
    (hp : p ∈ PropertyRegistry.all) :
    (self.resolveSecrets merged).1[p.canonical]? =
      merged.values[p.canonical]?.bind fun value => (self.secretOf p value).toOption := by
  rw [resolveSecrets]
  cases hsecret : p.secret with
  | true =>
    obtain ⟨before, after, hsplit, hbefore, hafter⟩ := exists_secrets_append hp hsecret
    rw [hsplit, foldl_append, foldl_cons, foldl_resolveSecret_of_ne _ _ _ hafter,
      resolveSecret_self _ _ _ hsecret, foldl_resolveSecret_of_ne _ _ _ hbefore]
  | false =>
    have hne : ∀ q ∈ PropertyRegistry.secrets, q.canonical ≠ p.canonical := by
      intro q hq he
      obtain ⟨hall, htrue⟩ := mem_filter.1 hq
      rw [PropertyRegistry.eq_of_canonical hall hp he, hsecret] at htrue
      cases htrue
    rw [foldl_resolveSecret_of_ne _ _ _ hne]
    cases merged.values[p.canonical]? with
    | none => rfl
    | some value =>
      simp only [bind_some, secretOf, hsecret]
      rfl

theorem mem_resolveSecrets (merged : Merged) {p : PropertyMeta} (hp : p ∈ PropertyRegistry.all)
    {value : JsonValue} {reason : String} (hvalue : merged.values[p.canonical]? = some value)
    (h : self.secretOf p value = .error reason) :
    unresolved merged.sources p reason ∈ (self.resolveSecrets merged).2 := by
  have hsecret : p.secret = true := by
    unfold secretOf at h
    split at h
    · next hsecret => exact hsecret
    · cases h
  obtain ⟨before, after, hsplit, hbefore, hafter⟩ := exists_secrets_append hp hsecret
  rw [resolveSecrets, hsplit, foldl_append, foldl_cons]
  refine subset_foldl_resolveSecret _ _ _ _ (self.mem_resolveSecret _ _ ?_ h)
  rw [foldl_resolveSecret_of_ne _ _ _ hbefore]
  exact hvalue

/-- Resolving secrets adds no key. -/
theorem registered_resolveSecrets (merged : Merged) (h : JsonValue.Registered merged.values) :
    JsonValue.Registered (self.resolveSecrets merged).1 := by
  intro key hkey
  by_cases hq : ∃ q ∈ PropertyRegistry.secrets, q.canonical = key
  · obtain ⟨q, hq, hname⟩ := hq
    exact ⟨q, (mem_filter.1 hq).1, hname⟩
  · rw [resolveSecrets, foldl_resolveSecret_of_ne _ _ _ fun q hmem he => hq ⟨q, hmem, he⟩] at hkey
    exact h key hkey

/-- What resolving the secrets finds does not depend on what was found before. -/
theorem foldl_resolveSecret_append (values : Std.TreeMap String JsonValue)
    (found : List Diagnostic) (secrets : List PropertyMeta) (state : List Diagnostic) :
    secrets.foldl (self.resolveSecret sources) (values, found ++ state) =
      ((secrets.foldl (self.resolveSecret sources) (values, state)).1,
        found ++ (secrets.foldl (self.resolveSecret sources) (values, state)).2) := by
  induction secrets generalizing values state with
  | nil => rfl
  | cons q secrets ih =>
    have hstep : self.resolveSecret sources (values, found ++ state) q =
        ((self.resolveSecret sources (values, state) q).1,
          found ++ (self.resolveSecret sources (values, state) q).2) := by
      unfold resolveSecret
      split
      · next raw hraw =>
        simp only [hraw]
        cases self.secrets.resolve raw with
        | ok resolved => rfl
        | error reason => simp
      · rfl
    rw [foldl_cons, foldl_cons, hstep, ih]

end ConfigLoader

/-! ### Adding layers -/

section Adding

variable [ConfigCrates]

namespace ConfigLoader

/-- The loader has got `layers` and `found` since it was `before`. -/
structure Grown (before after : ConfigLoader) (layers : List Layer) (found : List Diagnostic) :
    Prop where
  layers : after.layers = before.layers ++ layers
  diagnostics : after.diagnostics = before.diagnostics ++ found
  profile : after.profile = before.profile
  strict : after.strict = before.strict
  compatJava : after.compatJava = before.compatJava
  secrets : after.secrets = before.secrets

variable (self : ConfigLoader)

omit [ConfigCrates] in
theorem grown_push (source : Source)
    (entries : List (Option Assignment × List Diagnostic)) :
    Grown self (self.push source entries) (self.blank.push source entries).layers
      (self.blank.push source entries).diagnostics :=
  ⟨rfl, rfl, rfl, rfl, rfl, rfl⟩

theorem grown_withTree (tree : JsonValue) (source : Source) (label : String) :
    Grown self (self.withTree tree source label) (self.blank.withTree tree source label).layers
      (self.blank.withTree tree source label).diagnostics :=
  ⟨rfl, append_assoc _ _ _, rfl, rfl, rfl, rfl⟩

theorem grown_withAssignmentStrings (items : List String) (source : Source) (label : String) :
    Grown self (self.withAssignmentStrings items source label)
      (self.blank.withAssignmentStrings items source label).layers
      (self.blank.withAssignmentStrings items source label).diagnostics :=
  ⟨rfl, append_assoc _ _ _, rfl, rfl, rfl, rfl⟩

omit [ConfigCrates] in
/-- A file that cannot be read adds a diagnostic and no layer. -/
theorem grown_report (found : List Diagnostic) :
    Grown self (self.report found) (self.blank.report found).layers
      (self.blank.report found).diagnostics :=
  ⟨(append_nil _).symm, rfl, rfl, rfl, rfl, rfl⟩

theorem grown_withDocument (format : DocumentFormat) (path text : String) :
    Grown self (self.withDocument format path text) (self.blank.withDocument format path text).layers
      (self.blank.withDocument format path text).diagnostics := by
  unfold withDocument
  split
  · exact grown_withTree self _ _ _
  · exact grown_report self _

theorem grown_withFile (path : String) (contents : Except String String) :
    Grown self (self.withFile path contents) (self.blank.withFile path contents).layers
      (self.blank.withFile path contents).diagnostics := by
  cases contents with
  | error error => exact grown_report self _
  | ok text =>
    simp only [withFile]
    split_ifs
    · exact grown_withDocument self _ _ _
    · exact grown_withDocument self _ _ _
    · exact grown_withDocument self _ _ _
    · exact grown_push self _ _

/-- **What a layer adds depends on the settings only.** -/
theorem grown_add (x : Addition) :
    Grown self (self.add x) (self.blank.add x).layers (self.blank.add x).diagnostics := by
  cases x with
  | file path contents => exact grown_withFile self _ _
  | properties text label => exact grown_push self _ _
  | env vars => exact grown_push self _ _
  | overrides items => exact grown_withAssignmentStrings self _ _ _
  | flags items => exact grown_withAssignmentStrings self _ _ _
  | apiBody body => exact grown_withTree self _ _ _

omit [ConfigCrates] in
theorem Grown.blank {before after : ConfigLoader} {layers : List Layer} {found : List Diagnostic}
    (h : Grown before after layers found) : after.blank = before.blank := by
  obtain ⟨-, -, hprofile, hstrict, hcompat, hsecrets⟩ := h
  simp [ConfigLoader.blank, hprofile, hstrict, hcompat, hsecrets]

/-- What a list of layers adds. -/
theorem grown_addAll (additions : List Addition) :
    Grown self (self.addAll additions) (additions.flatMap fun x => (self.blank.add x).layers)
      (additions.flatMap fun x => (self.blank.add x).diagnostics) := by
  induction additions generalizing self with
  | nil => exact ⟨(append_nil _).symm, (append_nil _).symm, rfl, rfl, rfl, rfl⟩
  | cons x additions ih =>
    have hfirst := grown_add self x
    have hrest := ih (self.add x)
    rw [hfirst.blank] at hrest
    refine ⟨?_, ?_, hrest.profile.trans hfirst.profile, hrest.strict.trans hfirst.strict,
      hrest.compatJava.trans hfirst.compatJava, hrest.secrets.trans hfirst.secrets⟩
    · rw [flatMap_cons, ← append_assoc, ← hfirst.layers]
      exact hrest.layers
    · rw [flatMap_cons, ← append_assoc, ← hfirst.diagnostics]
      exact hrest.diagnostics

/-- The layers are of one rank, and their assignments to properties of the registry, and say where
they were written. -/
def Proper (layers : List Layer) (rank : ℕ) : Prop :=
  ∀ l ∈ layers, l.rank = rank ∧ ∀ a ∈ l.assignments,
    (∃ p ∈ PropertyRegistry.all, p.canonical = a.key) ∧ a.location.isSome

theorem assign_proper {key location : String}
    {convert : PropertyMeta → Option JsonValue × List Diagnostic} {a : Assignment}
    (h : (self.assign key location convert).1 = some a) :
    (∃ p ∈ PropertyRegistry.all, p.canonical = a.key) ∧ a.location.isSome := by
  unfold assign at h
  split at h
  · cases h
  · next p hp =>
    obtain ⟨value, -, rfl⟩ := map_eq_some_iff.1 h
    exact ⟨⟨p, (PropertyRegistry.mem_of_resolve hp).1, rfl⟩, rfl⟩

theorem push_proper (source : Source) {entries : List (Option Assignment × List Diagnostic)}
    (h : ∀ e ∈ entries, ∃ self key location convert, e = assign self key location convert) :
    Proper (self.blank.push source entries).layers source.rank := by
  intro l hl
  obtain rfl : l = ⟨source, entries.filterMap Prod.fst⟩ := by simpa [push, blank] using hl
  refine ⟨rfl, fun a ha => ?_⟩
  obtain ⟨e, he, hsome⟩ := mem_filterMap.1 ha
  obtain ⟨self', key, location, convert, rfl⟩ := h e he
  exact assign_proper self' hsome

theorem withStringPairs_proper (pairs : List (String × String × String))
    (source : Source) : Proper (self.blank.withStringPairs pairs source).layers source.rank := by
  refine push_proper self source fun e he => ?_
  obtain ⟨pair, -, rfl⟩ := mem_map.1 he
  exact ⟨_, _, _, _, rfl⟩

theorem withPropertiesStrAt_proper (text : String) (source : Source) (label : String) :
    Proper (self.blank.withPropertiesStrAt text source label).layers source.rank := by
  refine push_proper self source fun e he => ?_
  obtain ⟨entry, -, rfl⟩ := mem_map.1 he
  exact ⟨_, _, _, _, rfl⟩

theorem withTree_proper (tree : JsonValue) (source : Source)
    (label : String) : Proper (self.blank.withTree tree source label).layers source.rank := by
  refine push_proper self source fun e he => ?_
  obtain ⟨entry, -, rfl⟩ := mem_map.1 he
  exact ⟨_, _, _, _, rfl⟩

theorem withDocument_proper (format : DocumentFormat) (path text : String) :
    Proper (self.blank.withDocument format path text).layers (Source.file path).rank := by
  unfold withDocument
  split
  · exact withTree_proper self _ _ _
  · exact fun _ hl => absurd hl not_mem_nil

/-- **An added layer has the rank of its source.** -/
theorem add_proper (x : Addition) : Proper (self.blank.add x).layers x.rank := by
  cases x with
  | file path contents =>
    cases contents with
    | error error => exact fun _ hl => absurd hl not_mem_nil
    | ok text =>
      simp only [add, withFile]
      split_ifs
      · exact withDocument_proper self _ _ _
      · exact withDocument_proper self _ _ _
      · exact withDocument_proper self _ _ _
      · exact withPropertiesStrAt_proper self _ _ _
  | properties text label => exact withPropertiesStrAt_proper self _ _ _
  | env vars => exact withStringPairs_proper self _ _
  | overrides items => exact withStringPairs_proper self _ _
  | flags items => exact withStringPairs_proper self _ _
  | apiBody body => exact withTree_proper self _ _ _

/-! ### Loading -/

theorem load_config : self.load.config = CdmConfig.fromFields
      (JsonValue.unflatten (self.resolveSecrets (.ofLayers self.layers)).1) := by
  simp only [load]

theorem load_sources : self.load.sources = (Merged.ofLayers self.layers).sources := by
  simp only [load]

theorem load_locations : self.load.locations = (Merged.ofLayers self.layers).locations := by
  simp only [load]

theorem load_diagnostics :
    self.load.diagnostics = (self.resolveSecrets (.ofLayers self.layers)).2 ++
      checkTree (JsonValue.unflatten (self.resolveSecrets (.ofLayers self.layers)).1) := by
  simp only [load]

end ConfigLoader

/-- Whether any diagnostic blocks the run. -/
def LoadOutcome.hasErrors (outcome : LoadOutcome) : Bool :=
  outcome.diagnostics.any Diagnostic.isBlocking

/-- Two outcomes that differ in the order of their diagnostics at most. -/
structure LoadOutcome.Same (first second : LoadOutcome) : Prop where
  config : first.config = second.config
  sources : first.sources = second.sources
  locations : first.locations = second.locations
  diagnostics : first.diagnostics.Perm second.diagnostics

namespace ConfigLoader

/-- No layer assigns a property, and it keeps its default. -/
structure KeepsDefault (loader : ConfigLoader) (p : PropertyMeta) : Prop where
  unassigned : ∀ l ∈ loader.layers, ¬ l.Assigns p.canonical
  merged : (Merged.ofLayers loader.layers).entry p.canonical = (none, none, none)
  source : loader.load.sources[p.canonical]? = none
  location : loader.load.locations[p.canonical]? = none
  config : ∀ config, loader.load.config = some config → config.get p.canonical = some p.default

/-- A property takes its value, its source and its location from an assignment.  A secret is
resolved first; one that cannot be resolved blocks the run. -/
structure TakesFrom (loader : ConfigLoader) (p : PropertyMeta) (layer : Layer) (a : Assignment) :
    Prop where
  wins : Wins loader.layers p.canonical layer a
  written : a.location.isSome
  merged : (Merged.ofLayers loader.layers).entry p.canonical =
    (some a.value, some layer.source, a.location)
  source : loader.load.sources[p.canonical]? = some layer.source
  location : loader.load.locations[p.canonical]? = a.location
  config : ∀ config value, loader.load.config = some config → loader.secretOf p a.value = .ok value →
    config.get p.canonical = ConfigCrates.deserialize p value
  secret : ∀ reason, loader.secretOf p a.value = .error reason → loader.load.hasErrors = true

/-- The layers of a loader that started empty are proper. -/
theorem addAll_proper {self : ConfigLoader} (hempty : self.layers = []) (additions : List Addition) :
    ∀ l ∈ (self.addAll additions).layers, ∀ a ∈ l.assignments,
      (∃ p ∈ PropertyRegistry.all, p.canonical = a.key) ∧ a.location.isSome := by
  intro l hl
  rw [(grown_addAll self additions).layers, hempty, nil_append] at hl
  obtain ⟨x, -, hx⟩ := mem_flatMap.1 hl
  exact (add_proper self x l hx).2

omit [ConfigCrates] in
/-- What is merged from proper layers has the names of properties. -/
theorem registered_ofLayers {layers : List Layer}
    (hproper : ∀ l ∈ layers, ∀ a ∈ l.assignments,
      (∃ p ∈ PropertyRegistry.all, p.canonical = a.key) ∧ a.location.isSome) :
    JsonValue.Registered (Merged.ofLayers layers).values := by
  intro key hkey
  by_contra hnot
  have hnone : ∀ l ∈ layers, ¬ l.Assigns key := by
    rintro l hl ⟨a, ha, rfl⟩
    exact hnot (hproper l hl a ha).1
  have hentry := Merged.entry_ofLayers_of_not_assigns hnone
  rw [(Prod.mk.inj hentry).1] at hkey
  cases hkey

omit [ConfigCrates] in
/-- The tree of a loader holds the values that were merged, with the secrets resolved. -/
theorem lookupPath_tree {self : ConfigLoader}
    (hproper : ∀ l ∈ self.layers, ∀ a ∈ l.assignments,
      (∃ p ∈ PropertyRegistry.all, p.canonical = a.key) ∧ a.location.isSome)
    {p : PropertyMeta} (hp : p ∈ PropertyRegistry.all) :
    JsonValue.lookupPath
        (JsonValue.unflatten (self.resolveSecrets (.ofLayers self.layers)).1)
        (segments p.canonical) =
      (Merged.ofLayers self.layers).values[p.canonical]?.bind fun value =>
        (self.secretOf p value).toOption := by
  rw [JsonValue.lookupPath_unflatten (self.registered_resolveSecrets _ (registered_ofLayers hproper)) hp,
    getElem?_resolveSecrets _ _ hp]

/-- **Every property is settled**: by the assignment that wins, or by its default. -/
theorem settled {self : ConfigLoader}
    (hproper : ∀ l ∈ self.layers, ∀ a ∈ l.assignments,
      (∃ p ∈ PropertyRegistry.all, p.canonical = a.key) ∧ a.location.isSome)
    {p : PropertyMeta} (hp : p ∈ PropertyRegistry.all) :
    self.KeepsDefault p ∨ ∃ layer a, self.TakesFrom p layer a := by
  have htree := lookupPath_tree hproper hp
  have hget : ∀ config, self.load.config = some config → ∃ value,
      config.get p.canonical = some value ∧
        p.Reads ((Merged.ofLayers self.layers).values[p.canonical]?.bind fun value =>
          (self.secretOf p value).toOption) value := by
    intro config hconfig
    rw [load_config] at hconfig
    rw [← htree]
    exact CdmConfig.get_of_fromFields hconfig hp
  by_cases hassigned : ∃ layer ∈ self.layers, layer.Assigns p.canonical
  · right
    obtain ⟨layer, a, hwins⟩ := exists_wins hassigned
    have hwritten : a.location.isSome := by
      obtain ⟨⟨before, after, hlayers, -⟩, earlier, later, hlast, -⟩ := hwins
      have hl : layer ∈ self.layers := by simp [hlayers]
      have ha : a ∈ layer.assignments := by simp [hlast]
      exact (hproper layer hl a ha).2
    have hentry := Merged.entry_ofLayers hwins hwritten
    obtain ⟨hvalue, hrest⟩ := Prod.mk.inj hentry
    obtain ⟨hsource, hlocation⟩ := Prod.mk.inj hrest
    refine ⟨layer, a, hwins, hwritten, hentry, by rw [load_sources, hsource],
      by rw [load_locations, hlocation], fun config value hconfig hok => ?_, fun reason herror => ?_⟩
    · obtain ⟨setting, hsetting, hreads⟩ := hget config hconfig
      rw [hvalue, bind_some, hok] at hreads
      rw [hsetting]
      exact hreads.symm
    · have hmem := self.mem_resolveSecrets _ hp hvalue herror
      rw [LoadOutcome.hasErrors, load_diagnostics, any_append, Bool.or_eq_true]
      exact .inl (any_eq_true.2 ⟨_, hmem, by simp [Diagnostic.isBlocking, unresolved]⟩)
  · left
    have hnone : ∀ l ∈ self.layers, ¬ l.Assigns p.canonical :=
      fun l hl ha => hassigned ⟨l, hl, ha⟩
    have hentry := Merged.entry_ofLayers_of_not_assigns hnone
    obtain ⟨hvalue, hrest⟩ := Prod.mk.inj hentry
    obtain ⟨hsource, hlocation⟩ := Prod.mk.inj hrest
    refine ⟨hnone, hentry, by rw [load_sources, hsource], by rw [load_locations, hlocation],
      fun config hconfig => ?_⟩
    obtain ⟨setting, hsetting, hreads⟩ := hget config hconfig
    rw [hvalue, bind_none] at hreads
    rw [hsetting]
    exact congrArg some hreads

/-- A load says the same of layers that are sorted to one list. -/
theorem load_same {first second : ConfigLoader}
    (hlayers : first.layers.sortByKey Layer.rank = second.layers.sortByKey Layer.rank)
    (hsecrets : first.secrets = second.secrets)
    (hdiagnostics : first.diagnostics.Perm second.diagnostics) :
    first.load.Same second.load := by
  have hmerged : Merged.ofLayers first.layers = Merged.ofLayers second.layers :=
    congrArg (List.foldl Merged.layer {}) hlayers
  have hstep : first.resolveSecret = second.resolveSecret := by
    funext sources state p
    unfold resolveSecret
    rw [hsecrets]
  -- what is found in resolving the secrets comes after what was found before
  have hresolved : ∀ loader : ConfigLoader, ∀ merged, loader.resolveSecrets merged =
      ((PropertyRegistry.secrets.foldl (loader.resolveSecret merged.sources)
          (merged.values, [])).1,
        loader.diagnostics ++ (PropertyRegistry.secrets.foldl
          (loader.resolveSecret merged.sources) (merged.values, [])).2) := by
    intro loader merged
    have happend := loader.foldl_resolveSecret_append merged.sources merged.values
      loader.diagnostics PropertyRegistry.secrets []
    rwa [append_nil] at happend
  have htree : (first.resolveSecrets (.ofLayers first.layers)).1 =
      (second.resolveSecrets (.ofLayers second.layers)).1 := by
    rw [hresolved first, hresolved second, hmerged, hstep]
  have hconfig : first.load.config = second.load.config := by
    rw [load_config, load_config, htree]
  refine ⟨hconfig, by rw [load_sources, load_sources, hmerged],
    by rw [load_locations, load_locations, hmerged], ?_⟩
  rw [load_diagnostics, load_diagnostics, htree]
  refine List.Perm.append_right _ ?_
  rw [hresolved first, hresolved second, hmerged, hstep]
  exact hdiagnostics.append_right _

/-- **The order of layers of different ranks does not matter.** -/
theorem load_addAll_same (self : ConfigLoader) {additions others : List Addition}
    (h : ∀ r, additions.filter (·.rank = r) = others.filter (·.rank = r)) :
    (self.addAll additions).load.Same (self.addAll others).load := by
  have hfirst := grown_addAll self additions
  have hsecond := grown_addAll self others
  have hrank : ∀ x : Addition, ∀ l ∈ (self.blank.add x).layers, l.rank = x.rank :=
    fun x l hl => (add_proper self x l hl).1
  refine load_same ?_ (hfirst.secrets.trans hsecond.secrets.symm) ?_
  · refine List.sortByKey_eq_of_filter_eq _ fun r => ?_
    rw [hfirst.layers, hsecond.layers, filter_append, filter_append,
      List.filter_flatMap_of_rank _ hrank, List.filter_flatMap_of_rank _ hrank, h]
  · rw [hfirst.diagnostics, hsecond.diagnostics]
    exact ((List.perm_of_filter_eq _ h).flatMap_right _).append_left _

end ConfigLoader

/-- **Layering.** Whatever layers are added, in whatever order: the loader has got the layers of what
is written in them; a property that some layer assigns has the value of the assignment that wins,
and its source and location are those of that assignment; a property that no layer assigns keeps its
default.  Layers of different ranks may be added in any order. -/
theorem layering (profile : Option String) (strict compatJava : Bool) (secrets : SecretSource)
    (additions : List Addition) :
    let start : ConfigLoader := { profile, strict, compatJava, secrets }
    let loader := start.addAll additions
    (∃ added, List.Forall₂ start.Adds additions added ∧ loader.layers = added.flatten) ∧
    (∀ p ∈ PropertyRegistry.all,
      loader.KeepsDefault p ∨ ∃ layer a, loader.TakesFrom p layer a) ∧
    ∀ others : List Addition,
      (∀ r, additions.filter (·.rank = r) = others.filter (·.rank = r)) →
        loader.load.Same (start.addAll others).load := by
  intro start loader
  refine ⟨⟨additions.map fun x => (start.blank.add x).layers, ?_, ?_⟩, fun p hp => ?_,
    fun others h => start.load_addAll_same h⟩
  · rw [forall₂_map_right_iff]
    exact forall₂_same.2 fun x _ => start.adds_add x
  · exact (ConfigLoader.grown_addAll start additions).layers
  · exact ConfigLoader.settled (ConfigLoader.addAll_proper rfl additions) hp

end Adding

namespace LayeringSample

/-- Crates that read nothing. -/
local instance crates : ConfigCrates where
  parseF64 _ := .invalid
  normalizedLevenshtein _ _ := 0
  fromStr _ _ := .error "expected value at line 1 column 1"
  deserialize _ _ := none
  invalidTree _ := "invalid type"

/-- A loader that resolves no secret. -/
def start : ConfigLoader where
  secrets := { env := .error, file := .error, exec := .error }

/-- An override, and a variable that is added after it. -/
def additions : List Addition :=
  [.overrides ["perfops.num_parts = 9"], .env [("CDM__PERFOPS__NUM_PARTS", "7")]]

/-- The layers of the override and of the variable. -/
theorem layers_addAll {p : PropertyMeta}
    (hresolve : PropertyRegistry.resolve "perfops.num_parts" = some p) (hkind : p.kind = .integer) :
    (start.addAll additions).layers =
      [⟨.override, [⟨p.canonical, .number "9", some "--set perfops.num_parts"⟩]⟩,
        ⟨.environment, [⟨p.canonical, .number "7", some "CDM__PERFOPS__NUM_PARTS"⟩]⟩] := by
  have htext (raw location : String) (n : ℤ)
      (hraw : Text.parseI64 (Text.trim raw.toList) = some n) :
      start.assignText "perfops.num_parts" raw location =
        (some ⟨p.canonical, .number (toString n), some location⟩, []) := by
    simp only [ConfigLoader.assignText, ConfigLoader.assign, hresolve, ConfigLoader.coerce, hkind,
      PropertyKind.coerce, hraw, map_some]
  have h9 := htext " 9" "--set perfops.num_parts" 9 (by decide)
  have h7 := htext "7" "CDM__PERFOPS__NUM_PARTS" 7 (by decide)
  have hlayers : (start.addAll additions).layers =
      [⟨.override, [start.assignText "perfops.num_parts" " 9" "--set perfops.num_parts"].filterMap
          Prod.fst⟩,
        ⟨.environment, [start.assignText "perfops.num_parts" "7"
          "CDM__PERFOPS__NUM_PARTS"].filterMap Prod.fst⟩] := rfl
  rw [hlayers, h9, h7]
  rfl

/-- **The override wins**, though the variable was added after it. -/
theorem layering_override :
    ∃ p ∈ PropertyRegistry.all, p.canonical = "perfops.num_parts" ∧ ∃ layer a,
      ((start.addAll additions).TakesFrom p layer a ∧ layer.source = .override ∧
        a.value = .number "9") := by
  have hfacts : (ConfigModel.cdmConfig.member {} ["perfops", "num_parts"]).any
      (fun p => p.canonical = "perfops.num_parts" ∧ p.kind = .integer) = true := by
    decide
  obtain ⟨p, hp, hfacts⟩ := PropertyRegistry.exists_member hfacts
  obtain ⟨hname, hkind⟩ := of_decide_eq_true hfacts
  have hlayers := layers_addAll (hname ▸ PropertyRegistry.resolve_canonical hp) hkind
  obtain ⟨-, hsettled, -⟩ := layering none false false start.secrets additions
  refine ⟨p, hp, hname, ?_⟩
  have htakes : (start.addAll additions).KeepsDefault p ∨ ∃ layer a,
      (start.addAll additions).TakesFrom p layer a := hsettled p hp
  -- what wins here is merged, and so is what the property takes
  have hwins : Wins (start.addAll additions).layers p.canonical
      ⟨.override, [⟨p.canonical, .number "9", some "--set perfops.num_parts"⟩]⟩
      ⟨p.canonical, .number "9", some "--set perfops.num_parts"⟩ := by
    refine ⟨⟨[], _, hlayers, by simp, fun l hl _ => ?_⟩, [], [], rfl, rfl, by simp⟩
    rw [mem_singleton.1 hl]
    exact Nat.lt_succ_self 2
  have hmerged := Merged.entry_ofLayers hwins rfl
  rcases htakes with hkeeps | ⟨layer, a, htakes⟩
  · rw [hkeeps.merged] at hmerged
    cases hmerged
  · rw [htakes.merged] at hmerged
    obtain ⟨hvalue, hrest⟩ := Prod.mk.inj hmerged
    exact ⟨layer, a, htakes, Option.some.inj (Prod.mk.inj hrest).1, Option.some.inj hvalue⟩

end LayeringSample

end Cdm
