import Cdm.Config.Loader

/-!
# What the sources of a configuration say

What each layer assigns is said here without the loader: which entries are written in a source, in
which order, which property each of them names, and which value it gives the property.  An entry
names a property by its canonical or by a legacy name; it is written in a variable, an override, a
line or a leaf of a document; and a text says a value of the kind of the property.
-/

namespace Cdm

open List Text

/-- What is got from a list of things of which some give one result and the others none. -/
inductive Collects {α β : Type} (R : α → β → Prop) : List α → List β → Prop
  | nil : Collects R [] []
  | take {x : α} {y : β} {xs : List α} {ys : List β} :
    R x y → Collects R xs ys → Collects R (x :: xs) (y :: ys)
  | skip {x : α} {xs : List α} {ys : List β} :
    (∀ y, ¬ R x y) → Collects R xs ys → Collects R (x :: xs) ys

theorem collects_filterMap {α β : Type} {R : α → β → Prop} {f : α → Option β}
    (h : ∀ x y, f x = some y ↔ R x y) (xs : List α) : Collects R xs (xs.filterMap f) := by
  induction xs with
  | nil => exact .nil
  | cons x xs ih =>
    cases hx : f x with
    | none =>
      rw [filterMap_cons_none hx]
      refine .skip (fun y hy => ?_) ih
      rw [(h x y).2 hy] at hx
      cases hx
    | some y =>
      rw [filterMap_cons_some hx]
      exact .take ((h x y).1 hx) ih

/-! ### The property of a name -/

/-- The property that a name is for: the one with this canonical name or, where there is none, the
last that has it as a legacy name. -/
def PropertyMeta.IsNamed (p : PropertyMeta) (name : String) : Prop :=
  p ∈ PropertyRegistry.all ∧ p.canonical = name ∨
    (∀ q ∈ PropertyRegistry.all, q.canonical ≠ name) ∧
      ∃ before after, PropertyRegistry.all = before ++ p :: after ∧ name ∈ p.legacy ∧
        ∀ q ∈ after, name ∉ q.legacy

theorem PropertyRegistry.resolve_eq_some_iff {name : String} {p : PropertyMeta} :
    resolve name = some p ↔ p.IsNamed name := by
  rw [resolve, PropertyMeta.IsNamed]
  by_cases hcanonical : ∃ q ∈ all, q.canonical = name
  · obtain ⟨q, hq, rfl⟩ := hcanonical
    rw [byCanonical_eq hq]
    constructor
    · rintro ⟨⟩
      exact .inl ⟨hq, rfl⟩
    · rintro (⟨hp, hname⟩ | ⟨hnone, -⟩)
      · rw [eq_of_canonical hp hq hname]
        rfl
      · exact absurd rfl (hnone q hq)
  · have hnone : ∀ q ∈ all, q.canonical ≠ name := fun q hq he => hcanonical ⟨q, hq, he⟩
    have hmiss : byCanonical name = none := by
      rw [byCanonical, find?_eq_none]
      intro q hq
      simpa using hnone q (mem_reverse.1 hq)
    rw [hmiss]
    change byLegacy name = some p ↔ _
    rw [byLegacy, find?_eq_some_iff_append]
    constructor
    · rintro ⟨hp, later, earlier, hall, hlater⟩
      refine .inr ⟨hnone, earlier.reverse, later.reverse, ?_, by simpa using hp, ?_⟩
      · rw [← reverse_reverse all, hall]
        simp
      · intro q hq
        simpa using hlater q (mem_reverse.1 hq)
    · rintro (⟨hp, hname⟩ | ⟨-, before, after, hall, hp, hafter⟩)
      · exact absurd hname (hnone p hp)
      · refine ⟨by simpa using hp, after.reverse, before.reverse, ?_, ?_⟩
        · rw [hall]
          simp
        · intro q hq
          simpa using hafter q (mem_reverse.1 hq)

section Values

variable [ConfigCrates]

/-! ### The value of a text -/

/-- What a text says, of the kind of a property. -/
def PropertyKind.Says (kind : PropertyKind) (raw : String) (value : JsonValue) : Prop :=
  let text := trim raw.toList
  let lower := String.ofList (toLower text)
  match kind with
  | bool =>
    lower ∈ ["true", "yes", "on", "1"] ∧ value = .bool true ∨
      lower ∈ ["false", "no", "off", "0"] ∧ value = .bool false
  | integer => ∃ n, parseI64 text = some n ∧ value = .number (toString n)
  | bigInteger => ∃ n, parseI128 text = some n ∧ value = .string (toString n)
  | float => ∃ number, ConfigCrates.parseF64 text = .finite number ∧ value = .number number
  | list => text ≠ [] ∧
    value = .array ((Text.splitOn ',' text).map fun item => .string (String.ofList (trim item)))
  | enum variants =>
    ∃ before variant after, variants = before ++ variant :: after ∧
      toLower variant.toList = toLower text ∧
      (∀ v ∈ before, toLower v.toList ≠ toLower text) ∧ value = .string variant
  | string | path | secret | duration | socket | uuid | regex | timeZone | url => value = .string raw

theorem PropertyKind.coerce_eq_ok_iff {kind : PropertyKind} {raw : String} {value : JsonValue} :
    kind.coerce raw = .ok value ↔ kind.Says raw value := by
  cases kind with
  | bool =>
    simp only [coerce, Says]
    split_ifs with htrue hfalse
    · -- no word says both
      have hother : String.ofList (toLower (trim raw.toList)) ∉
          ["false", "no", "off", "0"] := by
        intro hfalse
        have hdisjoint : ∀ word ∈ ["true", "yes", "on", "1"], word ∉ ["false", "no", "off", "0"] := by
          decide
        exact hdisjoint _ htrue hfalse
      simp only [htrue, hother, true_and, false_and, or_false, Except.ok.injEq, eq_comm]
    · simp only [htrue, hfalse, true_and, false_and, false_or, Except.ok.injEq, eq_comm]
    · simp only [htrue, hfalse, false_and, or_false]
  | integer =>
    simp only [coerce, Says]
    cases parseI64 (trim raw.toList) <;> simp [eq_comm]
  | bigInteger =>
    simp only [coerce, Says]
    cases parseI128 (trim raw.toList) <;> simp [eq_comm]
  | float =>
    simp only [coerce, Says]
    cases ConfigCrates.parseF64 (trim raw.toList) <;> simp [eq_comm]
  | list =>
    simp only [coerce, Says]
    split_ifs with h <;> simp [h, eq_comm]
  | enum variants =>
    simp only [coerce, Says]
    constructor
    · intro h
      split at h
      · next variant hfind =>
        cases h
        obtain ⟨hsame, before, after, hall, hbefore⟩ := find?_eq_some_iff_append.1 hfind
        exact ⟨before, variant, after, hall, by simpa using hsame, by simpa using hbefore, rfl⟩
      · cases h
    · rintro ⟨before, variant, after, hall, hsame, hbefore, rfl⟩
      have hfind : variants.find? (fun v => toLower v.toList =
          toLower (trim raw.toList)) = some variant :=
        find?_eq_some_iff_append.2
          ⟨by simpa using hsame, before, after, hall, by simpa using hbefore⟩
      rw [hfind]
  | _ => simp [coerce, Says, eq_comm]

/-! ### Entries -/

/-- An entry of a source: the name, the value and the place that are written.  What has no types of
its own writes texts. -/
structure Written where
  name : String
  value : JsonValue
  location : String

/-- The value that a property takes from what is written.  With `--compat-java` a consistency level
that does not exist is `LOCAL_QUORUM`; and a large integer is kept as a text. -/
inductive PropertyMeta.Takes (p : PropertyMeta) (compatJava : Bool) : JsonValue → JsonValue → Prop
  | said {raw : String} {value : JsonValue} :
    p.kind.Says raw value → Takes p compatJava (.string raw) value
  | replaced {raw : String} :
    (∀ value, ¬ p.kind.Says raw value) → compatJava = true →
      (∃ rest, p.canonical.toList = "perfops.consistency.".toList ++ rest) →
        Takes p compatJava (.string raw) (.string "LOCAL_QUORUM")
  | large {text : String} : p.kind = .bigInteger → Takes p compatJava (.number text) (.string text)
  | typed {value : JsonValue} :
    (∀ raw, value ≠ .string raw) → (∀ text, value = .number text → p.kind ≠ .bigInteger) →
      Takes p compatJava value value

namespace ConfigLoader

omit [ConfigCrates] in
theorem isConsistency_iff {canonical : String} :
    isConsistency canonical = true ↔
      ∃ rest, canonical.toList = "perfops.consistency.".toList ++ rest := by
  rw [isConsistency, Option.isSome_iff_exists]
  constructor
  · rintro ⟨rest, h⟩
    exact ⟨rest, eq_append_of_stripPrefix h⟩
  · rintro ⟨rest, h⟩
    rw [h]
    exact ⟨rest, stripPrefix_append _ _⟩

theorem coerce_eq_some_iff (self : ConfigLoader) {p : PropertyMeta} {raw location : String}
    {value : JsonValue} :
    (self.coerce p.kind raw p.canonical location).1 = some value ↔
      p.Takes self.compatJava (.string raw) value := by
  have htext : ∀ v, p.kind.coerce raw = .ok v ↔ p.kind.Says raw v :=
    fun _ => PropertyKind.coerce_eq_ok_iff
  rw [coerce]
  cases hkind : p.kind.coerce raw with
  | ok said =>
    have hsaid := (htext said).1 hkind
    constructor
    · rintro ⟨⟩
      exact .said hsaid
    · rintro (h | ⟨h, -, -⟩ | - | ⟨h, -⟩)
      · rw [← htext, hkind] at h
        cases h
        rfl
      · exact absurd hsaid (h said)
      · exact absurd rfl (h raw)
  | error reason =>
    have hnot : ∀ v, ¬ p.kind.Says raw v := by
      intro v hv
      rw [← htext, hkind] at hv
      cases hv
    simp only
    split_ifs with h
    · constructor
      · rintro ⟨⟩
        exact .replaced hnot h.1 (isConsistency_iff.1 h.2)
      · rintro (hv | - | - | ⟨hv, -⟩)
        · exact absurd hv (hnot value)
        · rfl
        · exact absurd rfl (hv raw)
    · constructor
      · rintro ⟨⟩
      · rintro (hv | ⟨-, hjava, hlevel⟩ | - | ⟨hv, -⟩)
        · exact absurd hv (hnot value)
        · exact absurd ⟨hjava, isConsistency_iff.2 hlevel⟩ h
        · exact absurd rfl (hv raw)

/-- What an entry assigns. -/
def Assigned (self : ConfigLoader) (entry : Written) (a : Assignment) : Prop :=
  ∃ p : PropertyMeta, p.IsNamed entry.name ∧ p.Takes self.compatJava entry.value a.value ∧
    a.key = p.canonical ∧ a.location = some entry.location

theorem assign_eq_some_iff (self : ConfigLoader) {key location : String}
    {convert : PropertyMeta → Option JsonValue × List Diagnostic} {a : Assignment} :
    (self.assign key location convert).1 = some a ↔
      ∃ p : PropertyMeta, p.IsNamed key ∧ (convert p).1 = some a.value ∧ a.key = p.canonical ∧
        a.location = some location := by
  rw [assign]
  cases hresolve : PropertyRegistry.resolve key with
  | none =>
    constructor
    · rintro ⟨⟩
    · rintro ⟨p, hp, -⟩
      rw [PropertyRegistry.resolve_eq_some_iff.2 hp] at hresolve
      cases hresolve
  | some p =>
    simp only [Option.map_eq_some_iff]
    constructor
    · rintro ⟨value, hvalue, rfl⟩
      exact ⟨p, PropertyRegistry.resolve_eq_some_iff.1 hresolve, hvalue, rfl, rfl⟩
    · rintro ⟨q, hq, hvalue, hkey, hlocation⟩
      rw [PropertyRegistry.resolve_eq_some_iff.2 hq] at hresolve
      cases hresolve
      refine ⟨a.value, hvalue, ?_⟩
      rw [← hkey, ← hlocation]

theorem assignValue_eq_some_iff (self : ConfigLoader) {entry : Written} {a : Assignment} :
    (self.assignValue entry.location (entry.name, entry.value)).1 = some a ↔
      self.Assigned entry a := by
  rw [assignValue, assign_eq_some_iff, Assigned]
  refine exists_congr fun p => and_congr_right' (and_congr_left' ?_)
  -- the value that the property is given
  obtain ⟨name, written, location⟩ := entry
  generalize a.value = value
  simp only
  split
  · exact self.coerce_eq_some_iff
  · next hkind =>
    constructor
    · rintro ⟨⟩
      exact .large hkind
    · rintro (- | - | - | ⟨-, hnot⟩)
      · rfl
      · exact absurd hkind (hnot _ rfl)
  · next hstring hnumber =>
    constructor
    · rintro ⟨⟩
      exact .typed (fun raw h => hstring raw h) fun text h hkind => hnumber text h hkind
    · rintro (h | - | hkind | -)
      · exact absurd rfl (hstring _)
      · exact absurd rfl (hstring _)
      · exact absurd hkind (hnumber _ rfl)
      · rfl

end ConfigLoader

end Values

/-! ### Documents -/

namespace JsonValue

mutual

/-- The leaves of a document, each with the names that lead to it. -/
def leaves : JsonValue → List (List String × JsonValue)
  | object fields => leavesOf fields
  | leaf => [([], leaf)]

/-- The leaves of the members of an object. -/
def leavesOf : List (String × JsonValue) → List (List String × JsonValue)
  | [] => []
  | (name, member) :: rest =>
    member.leaves.map (fun leaf => (name :: leaf.1, leaf.2)) ++ leavesOf rest

end

/-- The names that lead to a leaf, with dots between them.  Empty names at the start are no names. -/
def dotted (path : List String) : String := ".".intercalate (path.dropWhile (· = ""))

theorem dotted_nil_cons (path : List String) : dotted ("" :: path) = dotted path := by
  simp [dotted]

theorem dotted_cons_cons {start : String} (hstart : start ≠ "") (name : String)
    (path : List String) : dotted ((start ++ "." ++ name) :: path) = dotted (start :: name :: path) := by
  have hjoined : start ++ "." ++ name ≠ "" := by simp [hstart]
  rw [dotted, dotted, dropWhile_cons_of_neg (by simp [hjoined]),
    dropWhile_cons_of_neg (by simpa using hstart)]
  cases path with
  | nil => simp [String.intercalate_cons_cons]
  | cons next path => simp [String.intercalate_cons_cons, String.append_assoc]

theorem dotted_singleton (name : String) : dotted [name] = name := by
  by_cases h : name = ""
  · simp [dotted, h]
  · simp [dotted, h]

/-- What a leaf is flattened to, below a name. -/
def flattened (start : String) (leaf : List String × JsonValue) : Option (String × JsonValue) :=
  if dotted (start :: leaf.1) = "" then none else some (dotted (start :: leaf.1), leaf.2)

mutual

/-- **A document is flattened to its leaves.** -/
theorem flatten_eq (tree : JsonValue) (start : String) :
    tree.flatten start = tree.leaves.filterMap (flattened start) := by
  cases tree with
  | object fields => rw [flatten, leaves, flattenFields_eq fields start]
  | null | bool value | number text | string text | array elements =>
    rw [flatten, leaves, filterMap_cons, filterMap_nil, flattened, dotted_singleton]
    · split_ifs <;> rfl
    · rintro fields ⟨⟩

theorem flattenFields_eq (fields : List (String × JsonValue)) (start : String) :
    flattenFields fields start = (leavesOf fields).filterMap (flattened start) := by
  cases fields with
  | nil => rfl
  | cons field rest =>
    obtain ⟨name, member⟩ := field
    rw [flattenFields, leavesOf, filterMap_append, flattenFields_eq rest start,
      flatten_eq member, filterMap_map]
    congr 1
    refine filterMap_congr fun leaf _ => ?_
    have hname : dotted ((if start = "" then name else start ++ "." ++ name) :: leaf.1) =
        dotted (start :: name :: leaf.1) := by
      by_cases hstart : start = ""
      · rw [if_pos hstart, hstart, dotted_nil_cons]
      · rw [if_neg hstart, dotted_cons_cons hstart]
    rw [Function.comp_apply, flattened, flattened, hname]

end

theorem leavesOf_filter (fields : List (String × JsonValue)) (name : String) :
    leavesOf (fields.filter (·.1 ≠ name)) =
      (leavesOf fields).filter (·.1.head? ≠ some name) := by
  induction fields with
  | nil => rfl
  | cons field rest ih =>
    obtain ⟨first, member⟩ := field
    have hhead : ∀ leaf ∈ member.leaves.map fun leaf => (first :: leaf.1, leaf.2),
        leaf.1.head? = some first := by
      intro leaf hleaf
      obtain ⟨inner, -, rfl⟩ := mem_map.1 hleaf
      rfl
    rw [leavesOf, filter_append, ← ih]
    by_cases h : first = name
    · have hnone : (member.leaves.map fun leaf => (first :: leaf.1, leaf.2)).filter
          (·.1.head? ≠ some name) = [] :=
        filter_eq_nil_iff.2 fun leaf hleaf => by simp [hhead leaf hleaf, h]
      rw [filter_cons_of_neg (by simpa using h), hnone, nil_append]
    · have hall : (member.leaves.map fun leaf => (first :: leaf.1, leaf.2)).filter
          (·.1.head? ≠ some name) = member.leaves.map fun leaf => (first :: leaf.1, leaf.2) :=
        filter_eq_self.2 fun leaf hleaf => by simpa [hhead leaf hleaf] using h
      rw [filter_cons_of_pos (by simpa using h), hall, leavesOf]

end JsonValue

/-! ### The entries of a source -/

/-- An entry for a leaf of a document, under the dotted name of the leaf. -/
def Written.ofLeaf (label : String) (leaf : List String × JsonValue) : Option Written :=
  if JsonValue.dotted leaf.1 = "" then none else some ⟨JsonValue.dotted leaf.1, leaf.2, label⟩

/-- The entries of a Java properties file, with the lines that they start in. -/
def Written.ofProperties (text label : String) : List Written :=
  (Properties.parse text).map fun entry =>
    ⟨entry.key, .string entry.value, label ++ ":" ++ toString entry.line⟩

/-- A variable that is an entry: `CDM__SECTION__NAME` is `section.name`. -/
def Written.IsVariable (var : String × String) (entry : Written) : Prop :=
  ∃ rest, var.1.toList = "CDM__".toList ++ rest ∧
    entry = ⟨String.ofList (toLower (replace "__".toList ".".toList rest)),
      .string var.2, var.1⟩

/-- An override that is an entry: `name=value`. -/
def Written.IsOverride (label item : String) (entry : Written) : Prop :=
  ∃ name value, item.toList = name ++ '=' :: value ∧ '=' ∉ name ∧
    entry = ⟨String.ofList (trim name), .string (String.ofList value),
      label ++ " " ++ String.ofList (trim name)⟩

/-- The format of a document, by the extension of its path. -/
def documentFormat (path : String) : Option DocumentFormat :=
  let extension := String.ofList (toLower ((ConfigLoader.extension path).getD "").toList)
  if extension = "toml" then some .toml
  else if extension = "yaml" ∨ extension = "yml" then some .yaml
  else if extension = "json" then some .json
  else none

/-- A layer that is added to a loader. -/
inductive Addition
  | file (path : String) (contents : Except String String)
  | properties (text label : String)
  | env (vars : List (String × String))
  | overrides (items : List String)
  | flags (items : List String)
  | apiBody (body : JsonValue)

/-- The rank of the layer that is added. -/
def Addition.rank : Addition → ℕ
  | file path _ => (Source.file path).rank
  | properties _ label => (Source.file label).rank
  | env _ => Source.environment.rank
  | overrides _ => Source.override.rank
  | flags _ => Source.flag.rank
  | apiBody _ => Source.apiBody.rank

section Adding

variable [ConfigCrates]

namespace ConfigLoader

/-- Adds a layer. -/
def add (self : ConfigLoader) : Addition → ConfigLoader
  | .file path contents => self.withFile path contents
  | .properties text label => self.withPropertiesStr text label
  | .env vars => self.withEnv vars
  | .overrides items => self.withOverrides items
  | .flags items => self.withFlags items
  | .apiBody body => self.withApiBody body

/-- Adds the layers of a list, one after the other. -/
def addAll (self : ConfigLoader) (additions : List Addition) : ConfigLoader :=
  additions.foldl add self

/-- A loader with the settings of another and nothing in it. -/
def blank (self : ConfigLoader) : ConfigLoader := { self with layers := [], diagnostics := [] }

omit [ConfigCrates] in
/-- The entries of a document: the leaves outside of its profiles, and after them those of the
selected profile. -/
def writtenIn (self : ConfigLoader) (tree : JsonValue) (label : String) : List Written :=
  let base := tree.leaves.filter (·.1.head? ≠ some "profiles")
  let profile := self.profile.bind fun name => (tree.get "profiles").bind (·.get name)
  (base ++ (profile.map JsonValue.leaves).getD []).filterMap (Written.ofLeaf label)

/-- A layer that assigns what the entries assign. -/
structure IsLayer (self : ConfigLoader) (source : Source) (entries : List Written) (layer : Layer) :
    Prop where
  source : layer.source = source
  assignments : Collects self.Assigned entries layer.assignments

/-- The layers that an addition comes to.  A file that cannot be read, or is not well-formed, has
none. -/
inductive Adds (self : ConfigLoader) : Addition → List Layer → Prop
  | unreadable {path error : String} : Adds self (.file path (.error error)) []
  | malformed {path text error : String} {format : DocumentFormat} :
    documentFormat path = some format → ConfigCrates.fromStr format text = .error error →
      Adds self (.file path (.ok text)) []
  | document {path text : String} {format : DocumentFormat} {tree : JsonValue} {layer : Layer} :
    documentFormat path = some format → ConfigCrates.fromStr format text = .ok tree →
      self.IsLayer (.file path) (self.writtenIn tree path) layer →
        Adds self (.file path (.ok text)) [layer]
  | propertiesFile {path text : String} {layer : Layer} :
    documentFormat path = none →
      self.IsLayer (.file path) (Written.ofProperties text path) layer →
        Adds self (.file path (.ok text)) [layer]
  | properties {text label : String} {layer : Layer} :
    self.IsLayer (.file label) (Written.ofProperties text label) layer →
      Adds self (.properties text label) [layer]
  | env {vars : List (String × String)} {entries : List Written} {layer : Layer} :
    Collects Written.IsVariable vars entries → self.IsLayer .environment entries layer →
      Adds self (.env vars) [layer]
  | overrides {items : List String} {entries : List Written} {layer : Layer} :
    Collects (Written.IsOverride "--set") items entries → self.IsLayer .override entries layer →
      Adds self (.overrides items) [layer]
  | flags {items : List String} {entries : List Written} {layer : Layer} :
    Collects (Written.IsOverride "flag") items entries → self.IsLayer .flag entries layer →
      Adds self (.flags items) [layer]
  | apiBody {body : JsonValue} {layer : Layer} :
    self.IsLayer .apiBody (self.writtenIn body "request body") layer →
      Adds self (.apiBody body) [layer]

/-- The layer of what is pushed for a list of entries. -/
theorem isLayer_push (self : ConfigLoader) (source : Source) (entries : List Written) :
    self.IsLayer source entries ⟨source, (entries.map fun entry =>
      self.assignValue entry.location (entry.name, entry.value)).filterMap Prod.fst⟩ := by
  refine ⟨rfl, ?_⟩
  rw [filterMap_map]
  exact collects_filterMap (fun entry a => self.assignValue_eq_some_iff) entries

theorem isLayer_withPropertiesStrAt (self : ConfigLoader) (text : String) (source : Source)
    (label : String) :
    ∃ layer, (self.blank.withPropertiesStrAt text source label).layers = [layer] ∧
      self.IsLayer source (Written.ofProperties text label) layer := by
  refine ⟨_, ?_, self.isLayer_push source _⟩
  rw [Written.ofProperties, map_map]
  rfl

omit [ConfigCrates] in
/-- The leaves of the base of a document. -/
theorem leaves_splitProfiles (tree : JsonValue) :
    (splitProfiles tree).1.leaves = tree.leaves.filter (·.1.head? ≠ some "profiles") := by
  cases tree with
  | object fields => exact JsonValue.leavesOf_filter fields "profiles"
  | null | bool value | number text | string text | array elements => rfl

omit [ConfigCrates] in
/-- What the loader lays over the base. -/
theorem overlay_fst (self : ConfigLoader) (tree : JsonValue) (label : String) :
    (self.overlay (splitProfiles tree).2 label).1 =
      ((self.profile.bind fun name => (tree.get "profiles").bind (·.get name)).map
        (·.flatten "")).getD [] := by
  have hprofiles : (splitProfiles tree).2 = tree.get "profiles" := by cases tree <;> rfl
  rw [overlay, hprofiles]
  cases self.profile with
  | none => rfl
  | some name =>
    cases tree.get "profiles" with
    | none => rfl
    | some profiles =>
      simp only [Option.bind_some]
      cases profiles.get name <;> rfl

omit [ConfigCrates] in
/-- The entries of a document are what it is flattened to. -/
theorem writtenIn_eq (self : ConfigLoader) (tree : JsonValue) (label : String) :
    self.writtenIn tree label =
      ((splitProfiles tree).1.flatten "" ++ (self.overlay (splitProfiles tree).2 label).1).map
        fun entry => ⟨entry.1, entry.2, label⟩ := by
  have hleaf : Written.ofLeaf label =
      fun leaf => (JsonValue.flattened "" leaf).map fun entry => ⟨entry.1, entry.2, label⟩ := by
    funext leaf
    rw [Written.ofLeaf, JsonValue.flattened, JsonValue.dotted_nil_cons]
    split_ifs <;> rfl
  have hmap (tree : JsonValue) : tree.leaves.filterMap (Written.ofLeaf label) =
      (tree.flatten "").map fun entry => ⟨entry.1, entry.2, label⟩ := by
    rw [JsonValue.flatten_eq, hleaf, map_filterMap]
  rw [writtenIn, filterMap_append, ← leaves_splitProfiles, hmap, overlay_fst,
    map_append]
  congr 1
  cases self.profile.bind fun name => (tree.get "profiles").bind (·.get name) with
  | none => rfl
  | some profile => exact hmap profile

theorem isLayer_withTree (self : ConfigLoader) (tree : JsonValue) (source : Source)
    (label : String) :
    ∃ layer, (self.blank.withTree tree source label).layers = [layer] ∧
      self.IsLayer source (self.writtenIn tree label) layer := by
  refine ⟨_, ?_, self.isLayer_push source _⟩
  rw [writtenIn_eq, map_map]
  rfl

theorem isLayer_withEnv (self : ConfigLoader) (vars : List (String × String)) :
    ∃ entries layer, Collects Written.IsVariable vars entries ∧
      (self.blank.withEnv vars).layers = [layer] ∧ self.IsLayer .environment entries layer := by
  refine ⟨vars.filterMap fun var => (stripPrefix "CDM__".toList var.1.toList).map fun rest =>
      ⟨String.ofList (toLower (replace "__".toList ".".toList rest)), .string var.2,
        var.1⟩, _, collects_filterMap (fun var entry => ?_) vars, ?_, self.isLayer_push _ _⟩
  · rw [Option.map_eq_some_iff]
    constructor
    · rintro ⟨rest, hrest, rfl⟩
      exact ⟨rest, eq_append_of_stripPrefix hrest, rfl⟩
    · rintro ⟨rest, hrest, rfl⟩
      exact ⟨rest, by rw [hrest, stripPrefix_append], rfl⟩
  · rw [map_filterMap]
    simp only [withEnv, withStringPairs, push, blank, map_filterMap, Option.map_map]
    rfl

theorem isLayer_withAssignmentStrings (self : ConfigLoader) (items : List String) (source : Source)
    (label : String) :
    ∃ entries layer, Collects (Written.IsOverride label) items entries ∧
      (self.blank.withAssignmentStrings items source label).layers = [layer] ∧
        self.IsLayer source entries layer := by
  let written : String → Written := fun item =>
    let key := String.ofList (trim (item.toList.takeWhile (· ≠ '=')))
    ⟨key, .string (String.ofList (item.toList.dropWhile (· ≠ '=')).tail), label ++ " " ++ key⟩
  -- an item with a separator is read up to the first one
  have hwritten : ∀ item name value, item.toList = name ++ '=' :: value → '=' ∉ name →
      written item = ⟨String.ofList (trim name), .string (String.ofList value),
        label ++ " " ++ String.ofList (trim name)⟩ := by
    intro item name value hitem hname
    have hplain : ∀ c ∈ name, decide (c ≠ '=') = true := by
      rintro c hc
      simpa using fun h : c = '=' => hname (h ▸ hc)
    simp only [written, hitem, takeWhile_append_of_pos hplain,
      dropWhile_append_of_pos hplain, takeWhile_cons, dropWhile_cons]
    simp
  refine ⟨(items.filter fun item => '=' ∈ item.toList).map written, _, ?_, ?_,
    self.isLayer_push _ _⟩
  · rw [← filterMap_eq_map', filterMap_filter]
    refine collects_filterMap (fun item entry => ?_) items
    constructor
    · intro h
      split_ifs at h with hsep
      cases h
      obtain ⟨name, value, hitem, hname⟩ := eq_append_cons_of_mem (by simpa using hsep)
      exact ⟨name, value, hitem, hname, hwritten item name value hitem hname⟩
    · rintro ⟨name, value, hitem, hname, rfl⟩
      rw [if_pos (by simp [hitem]), hwritten item name value hitem hname]
  · rw [map_map]
    simp only [withAssignmentStrings, withStringPairs, push, report, blank, map_map]
    rfl

/-- A file is read in the format of its extension. -/
theorem withFile_document (self : ConfigLoader) {path : String} {format : DocumentFormat}
    (h : documentFormat path = some format) (text : String) :
    self.withFile path (.ok text) = self.withDocument format path text := by
  rw [documentFormat] at h
  rw [withFile]
  cases hextension : extension path with
  | none =>
    rw [hextension] at h
    cases (show (none : Option DocumentFormat) = some format from h)
  | some extension =>
    simp only [hextension, Option.getD_some] at h ⊢
    split_ifs at h ⊢ <;> cases h <;> rfl

/-- A file of no other format is a properties file. -/
theorem withFile_properties (self : ConfigLoader) {path : String} (h : documentFormat path = none)
    (text : String) :
    self.withFile path (.ok text) = self.withPropertiesStrAt text (.file path) path := by
  rw [documentFormat] at h
  rw [withFile]
  cases hextension : extension path with
  | none => rfl
  | some extension =>
    simp only [hextension, Option.getD_some] at h ⊢
    split_ifs at h ⊢
    rfl

/-- **A loader adds what is written.** -/
theorem adds_add (self : ConfigLoader) (x : Addition) : self.Adds x (self.blank.add x).layers := by
  cases x with
  | file path contents =>
    cases contents with
    | error error => exact .unreadable
    | ok text =>
      cases hformat : documentFormat path with
      | none =>
        obtain ⟨layer, hlayers, hlayer⟩ := self.isLayer_withPropertiesStrAt text (.file path) path
        rw [add, withFile_properties _ hformat, hlayers]
        exact .propertiesFile hformat hlayer
      | some format =>
        rw [add, withFile_document _ hformat, withDocument]
        cases htree : ConfigCrates.fromStr format text with
        | error error => exact .malformed hformat htree
        | ok tree =>
          obtain ⟨layer, hlayers, hlayer⟩ := self.isLayer_withTree tree (.file path) path
          simp only [hlayers]
          exact .document hformat htree hlayer
  | properties text label =>
    obtain ⟨layer, hlayers, hlayer⟩ := self.isLayer_withPropertiesStrAt text (.file label) label
    rw [add, withPropertiesStr, hlayers]
    exact .properties hlayer
  | env vars =>
    obtain ⟨entries, layer, hentries, hlayers, hlayer⟩ := self.isLayer_withEnv vars
    rw [add, hlayers]
    exact .env hentries hlayer
  | overrides items =>
    obtain ⟨entries, layer, hentries, hlayers, hlayer⟩ :=
      self.isLayer_withAssignmentStrings items .override "--set"
    rw [add, withOverrides, hlayers]
    exact .overrides hentries hlayer
  | flags items =>
    obtain ⟨entries, layer, hentries, hlayers, hlayer⟩ :=
      self.isLayer_withAssignmentStrings items .flag "flag"
    rw [add, withFlags, hlayers]
    exact .flags hentries hlayer
  | apiBody body =>
    obtain ⟨layer, hlayers, hlayer⟩ := self.isLayer_withTree body .apiBody "request body"
    rw [add, withApiBody, hlayers]
    exact .apiBody hlayer

end ConfigLoader

end Adding

end Cdm
