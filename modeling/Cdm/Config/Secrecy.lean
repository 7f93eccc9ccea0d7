import Cdm.Config.Accepts
import Mathlib.Data.List.Forall2

/-!
# What a load says about secrets

Two loads are compared whose layers differ only in the values that they assign to secrets: the values
of an entry of a `.properties` file or of an environment variable, a value of a structured document,
what follows the `=` of an override, and what follows the name of the secret in an override that was
written without a `=`.  What a secret comes to is the same in both: it is accepted, rejected by
`serde_json::from_value`, or cannot be resolved for the same reason.

Every diagnostic of the two loads is then the same, and so are the sources and the locations, with
one exception.  A secret that a structured document gives as a number or a boolean is not coerced,
and the message of the failed deserialisation, which becomes a diagnostic, quotes the value it has
met.

The message of `serde_json` is a parameter: `QuotesRejected` says that it is about the first value
that is rejected and quotes it.
-/

namespace Cdm

open List

/-! ### Names of secrets -/

namespace PropertyRegistry

/-- The name, in either spelling, of a credential. -/
def IsSecretName (name : String) : Prop := ∃ p, resolve name = some p ∧ p.secret = true

/-- A key that assigns a credential, or something within one. -/
def AssignsSecret (key : String) : Prop :=
  ∃ name, IsSecretName name ∧ (key = name ∨ ∃ rest, key = name ++ "." ++ rest)

/-- The bytes of a name. -/
def bytes (name : String) : List UInt8 := name.toByteArray.data.toList

/-- Both spellings of properties. -/
def spellings (properties : List PropertyMeta) : List (List UInt8) :=
  properties.flatMap fun p => (p.canonical :: p.legacy).map bytes

theorem spelling_mem {name : String} {p : PropertyMeta} {properties : List PropertyMeta}
    (h : resolve name = some p) (hp : p ∈ properties) : bytes name ∈ spellings properties := by
  refine mem_flatMap.2 ⟨p, hp, mem_map_of_mem ?_⟩
  rcases (mem_of_resolve h).2 with rfl | hlegacy
  · exact mem_cons_self
  · exact mem_cons_of_mem _ hlegacy

/-- No property lies within a secret. -/
theorem secret_spellings_isolated : ((spellings secrets).all fun name =>
    (spellings all).all fun other => !(name ++ [0x2E]).isPrefixOf other) = true := by
  decide +kernel

/-- The characters that end the leading token of an override do not occur in the name of a
secret. -/
theorem secret_spellings_plain : ((spellings secrets).all fun name =>
    name.all fun byte => byte != 0x20 && byte != 0x09 && byte != 0x3A && byte != 0x3D) = true := by
  decide +kernel

theorem bytes_append (a b : String) : bytes (a ++ b) = bytes a ++ bytes b := by
  simp [bytes, String.toByteArray_append]

theorem mem_secrets {name : String} {p : PropertyMeta} (h : resolve name = some p)
    (hsecret : p.secret = true) : p ∈ secrets :=
  mem_filter.2 ⟨(mem_of_resolve h).1, hsecret⟩

/-- What lies within a secret is no property. -/
theorem resolve_within {name : String} (h : IsSecretName name) (rest : String) :
    resolve (name ++ "." ++ rest) = none := by
  obtain ⟨p, hp, hsecret⟩ := h
  by_contra hsome
  obtain ⟨q, hq⟩ := Option.ne_none_iff_exists'.1 hsome
  -- both names are spellings of properties, and one would start with the other
  have hname := spelling_mem hp (mem_secrets hp hsecret)
  have hother := spelling_mem hq (mem_of_resolve hq).1
  have hisolated := all_eq_true.1
    (all_eq_true.1 secret_spellings_isolated _ hname) _ hother
  have hdot : bytes "." = [0x2E] := by decide
  have hstarts : (bytes name ++ [0x2E]).isPrefixOf (bytes (name ++ "." ++ rest)) = true := by
    rw [bytes_append, bytes_append, hdot]
    exact isPrefixOf_iff_prefix.2 (prefix_append _ _)
  rw [hstarts] at hisolated
  cases hisolated

/-- What a key that assigns a secret resolves to, if anything. -/
theorem secret_of_assignsSecret {key : String} (h : AssignsSecret key) {p : PropertyMeta}
    (hp : resolve key = some p) : p ∈ secrets := by
  obtain ⟨name, hname, rfl | ⟨rest, rfl⟩⟩ := h
  · obtain ⟨q, hq, hsecret⟩ := hname
    cases hp.symm.trans hq
    exact mem_secrets hq hsecret
  · rw [resolve_within hname] at hp
    cases hp

/-- The name of a secret is one token. -/
theorem token_of_isSecretName {name : String} (h : IsSecretName name) :
    ∀ c ∈ name.toList, c ≠ ' ' ∧ c ≠ '\t' ∧ c ≠ ':' ∧ c ≠ '=' := by
  obtain ⟨p, hp, hsecret⟩ := h
  have hplain := all_eq_true.1 secret_spellings_plain _
    (spelling_mem hp (mem_secrets hp hsecret))
  have hbyte : ∀ {c : Char} {byte : UInt8}, byte ∈ String.utf8EncodeChar c → c ∈ name.toList →
      byte ∈ bytes name := by
    intro c byte hbyte hc
    obtain ⟨chars, rfl⟩ : ∃ chars, name = String.ofList chars :=
      ⟨name.toList, String.ofList_toList.symm⟩
    rw [String.toList_ofList] at hc
    simpa [bytes, List.utf8Encode] using ⟨_, hc, hbyte⟩
  have hne : ∀ byte ∈ bytes name, byte ≠ 0x20 ∧ byte ≠ 0x09 ∧ byte ≠ 0x3A ∧ byte ≠ 0x3D := by
    intro byte hmem
    have := all_eq_true.1 hplain byte hmem
    simp only [Bool.and_eq_true, bne_iff_ne] at this
    exact ⟨this.1.1.1, this.1.1.2, this.1.2, this.2⟩
  intro c hc
  refine ⟨?_, ?_, ?_, ?_⟩
  · rintro rfl
    exact (hne 0x20 (hbyte (by decide) hc)).1 rfl
  · rintro rfl
    exact (hne 0x09 (hbyte (by decide) hc)).2.1 rfl
  · rintro rfl
    exact (hne 0x3A (hbyte (by decide) hc)).2.2.1 rfl
  · rintro rfl
    exact (hne 0x3D (hbyte (by decide) hc)).2.2.2 rfl

end PropertyRegistry

/-! ### Layers that differ in secrets -/

open PropertyRegistry (IsSecretName AssignsSecret)

section Alike

variable [ConfigCrates]

/-- Entries of one key, with one value unless the key assigns a secret. -/
def EntryAlike {α : Type} (e e' : String × α) : Prop :=
  e.1 = e'.1 ∧ (e.2 = e'.2 ∨ AssignsSecret e.1)

omit [ConfigCrates] in
/-- Lines of a `.properties` document that differ in a secret at most. -/
def Entry.Alike (e e' : Entry) : Prop :=
  EntryAlike (e.key, e.value) (e'.key, e'.value) ∧ e.line = e'.line

namespace ConfigLoader

/-- The entries of a structured document under the selected profile. -/
def documentEntries (self : ConfigLoader) (label : String) (tree : JsonValue) :
    List (String × JsonValue) :=
  (splitProfiles tree).1.flatten "" ++ (self.overlay (splitProfiles tree).2 label).1

/-- Documents with the same keys, and the same values but those of secrets. -/
structure TreeAlike (loader : ConfigLoader) (label : String) (tree tree' : JsonValue) : Prop where
  entries : List.Forall₂ EntryAlike (loader.documentEntries label tree)
    (loader.documentEntries label tree')
  profile : (loader.overlay (splitProfiles tree).2 label).2 =
    (loader.overlay (splitProfiles tree').2 label).2

/-- The parser of a structured configuration file, from the extension of its path. -/
def structured (path : String) : Option DocumentFormat :=
  let format := String.ofList (Text.toLower ((extension path).getD "properties").toList)
  if format = "toml" then some .toml
  else if format = "yaml" ∨ format = "yml" then some .yaml
  else if format = "json" then some .json
  else none

/-- The key that an environment variable assigns. -/
def envKey (name : String) : Option String :=
  (Text.stripPrefix "CDM__".toList name.toList).map fun key =>
    String.ofList (Text.toLower (Text.replace "__".toList ".".toList key))

/-- Environment variables that differ in a secret at most. -/
def VarAlike (v v' : String × String) : Prop :=
  v.1 = v'.1 ∧ ∀ key ∈ envKey v.1, v.2 = v'.2 ∨ AssignsSecret key

/-- Overrides that differ in a secret at most. -/
inductive ItemAlike : String → String → Prop
  | same (item : String) : ItemAlike item item
  | assigned (key value value' : String) (hkey : '=' ∉ key.toList)
    (hsecret : AssignsSecret (String.ofList (Text.trim key.toList))) :
    ItemAlike (key ++ "=" ++ value) (key ++ "=" ++ value')
  /-- The value follows the name of the secret without a `=`. -/
  | malformed (name : String) (separator : Char) (value value' : String)
    (hname : IsSecretName name) (hseparator : separator = ' ' ∨ separator = '\t' ∨ separator = ':')
    (hvalue : '=' ∉ value.toList) (hvalue' : '=' ∉ value'.toList) :
    ItemAlike (name ++ separator.toString ++ value) (name ++ separator.toString ++ value')

end ConfigLoader

/-- Layers that differ only in the values assigned to secrets. -/
inductive Addition.Alike (self : ConfigLoader) : Addition → Addition → Prop
  | same (x : Addition) : Alike self x x
  | propertiesFile {path text text' : String} (hformat : ConfigLoader.structured path = none)
    (h : List.Forall₂ Entry.Alike (Properties.parse text) (Properties.parse text')) :
    Alike self (.file path (.ok text)) (.file path (.ok text'))
  | document {path text text' : String} {format : DocumentFormat} {tree tree' : JsonValue}
    (hformat : ConfigLoader.structured path = some format)
    (htree : ConfigCrates.fromStr format text = .ok tree)
    (htree' : ConfigCrates.fromStr format text' = .ok tree')
    (h : self.TreeAlike path tree tree') :
    Alike self (.file path (.ok text)) (.file path (.ok text'))
  | properties {text text' label : String}
    (h : List.Forall₂ Entry.Alike (Properties.parse text) (Properties.parse text')) :
    Alike self (.properties text label) (.properties text' label)
  | env {vars vars' : List (String × String)} (h : List.Forall₂ ConfigLoader.VarAlike vars vars') :
    Alike self (.env vars) (.env vars')
  | overrides {items items' : List String} (h : List.Forall₂ ConfigLoader.ItemAlike items items') :
    Alike self (.overrides items) (.overrides items')
  | flags {items items' : List String} (h : List.Forall₂ ConfigLoader.ItemAlike items items') :
    Alike self (.flags items) (.flags items')
  | apiBody {body body' : JsonValue} (h : self.TreeAlike "request body" body body') :
    Alike self (.apiBody body) (.apiBody body')

/-! ### What alike layers come to -/

/-- Assignments of one property from one place, of one value unless it is a secret. -/
structure Assignment.Alike (a a' : Assignment) : Prop where
  key : a.key = a'.key
  location : a.location = a'.location
  value : a.value = a'.value ∨ ∃ p ∈ PropertyRegistry.secrets, p.canonical = a.key

/-- Layers of one source with alike assignments. -/
def Layer.Alike (l l' : Layer) : Prop :=
  l.source = l'.source ∧ List.Forall₂ Assignment.Alike l.assignments l'.assignments

/-- Entries that come to alike assignments and the same diagnostics. -/
def ResultAlike (r r' : Option Assignment × List Diagnostic) : Prop :=
  Option.Rel Assignment.Alike r.1 r'.1 ∧ r.2 = r'.2

omit [ConfigCrates] in
theorem Assignment.Alike.refl (a : Assignment) : a.Alike a := ⟨rfl, rfl, .inl rfl⟩

omit [ConfigCrates] in
theorem ResultAlike.refl (r : Option Assignment × List Diagnostic) : ResultAlike r r := by
  refine ⟨?_, rfl⟩
  cases r.1 with
  | none => exact .none
  | some a => exact .some (.refl a)

namespace ConfigLoader

variable {self : ConfigLoader} {source : Source}

/-- Any text is taken for a secret. -/
theorem assignText_secret {key : String} {p : PropertyMeta}
    (hp : PropertyRegistry.resolve key = some p) (hsecret : p ∈ PropertyRegistry.secrets)
    (raw location : String) : self.assignText key raw location =
      (some ⟨p.canonical, .string raw, some location⟩, []) := by
  simp only [assignText, assign, hp, PropertyRegistry.kind_of_mem_secrets p hsecret]
  rfl

/-- Any value of a document is taken for a secret. -/
theorem assignValue_secret {key : String} {p : PropertyMeta}
    (hp : PropertyRegistry.resolve key = some p) (hsecret : p ∈ PropertyRegistry.secrets)
    (value : JsonValue) (label : String) :
    self.assignValue label (key, value) = (some ⟨p.canonical, value, some label⟩, []) := by
  simp only [assignValue, assign, hp, PropertyRegistry.kind_of_mem_secrets p hsecret]
  cases value <;> rfl

omit [ConfigCrates] in
/-- Two values of one secret, from one place. -/
theorem resultAlike_secret {p : PropertyMeta} (hsecret : p ∈ PropertyRegistry.secrets)
    (value value' : JsonValue) (location : String) :
    ResultAlike (some ⟨p.canonical, value, some location⟩, [])
      (some ⟨p.canonical, value', some location⟩, []) :=
  ⟨.some ⟨rfl, rfl, .inr ⟨p, hsecret, rfl⟩⟩, rfl⟩

theorem assignText_alike {e e' : String × String} (h : EntryAlike e e') (location : String) :
    ResultAlike (self.assignText e.1 e.2 location) (self.assignText e'.1 e'.2 location) := by
  obtain ⟨key, raw⟩ := e
  obtain ⟨key', raw'⟩ := e'
  obtain ⟨rfl, rfl | hassigns⟩ := h
  · exact .refl _
  · cases hp : PropertyRegistry.resolve key with
    | none =>
      simp only [assignText, assign, hp]
      exact .refl _
    | some p =>
      have hsecret := PropertyRegistry.secret_of_assignsSecret hassigns hp
      rw [assignText_secret hp hsecret, assignText_secret hp hsecret]
      exact resultAlike_secret hsecret _ _ _

theorem assignValue_alike {e e' : String × JsonValue} (h : EntryAlike e e') (label : String) :
    ResultAlike (self.assignValue label e) (self.assignValue label e') := by
  obtain ⟨key, value⟩ := e
  obtain ⟨key', value'⟩ := e'
  obtain ⟨rfl, rfl | hassigns⟩ := h
  · exact .refl _
  · cases hp : PropertyRegistry.resolve key with
    | none =>
      simp only [assignValue, assign, hp]
      exact .refl _
    | some p =>
      have hsecret := PropertyRegistry.secret_of_assignsSecret hassigns hp
      rw [assignValue_secret hp hsecret, assignValue_secret hp hsecret]
      exact resultAlike_secret hsecret _ _ _

/-- Loaders with alike layers and the same diagnostics. -/
structure Alike (first second : ConfigLoader) : Prop where
  layers : List.Forall₂ Layer.Alike first.layers second.layers
  diagnostics : first.diagnostics = second.diagnostics

omit [ConfigCrates] in
theorem Alike.refl (self : ConfigLoader) : self.Alike self := by
  refine ⟨forall₂_same.2 fun l _ => ⟨rfl, ?_⟩, rfl⟩
  exact forall₂_same.2 fun a _ => .refl a

omit [ConfigCrates] in
/-- Entries that come to the same make alike layers. -/
theorem push_alike (self : ConfigLoader) (source : Source)
    {results results' : List (Option Assignment × List Diagnostic)}
    (h : List.Forall₂ ResultAlike results results') :
    (self.push source results).Alike (self.push source results') := by
  have hassignments : List.Forall₂ Assignment.Alike (results.filterMap Prod.fst)
      (results'.filterMap Prod.fst) := by
    induction h with
    | nil => exact .nil
    | @cons r r' _ _ hr _ ih =>
      obtain ⟨a, found⟩ := r
      obtain ⟨a', found'⟩ := r'
      obtain ⟨hrel, -⟩ := hr
      cases hrel with
      | none => exact ih
      | some ha => exact .cons ha ih
  have hfound : results.flatMap Prod.snd = results'.flatMap Prod.snd := by
    clear hassignments
    induction h with
    | nil => rfl
    | cons hr _ ih => rw [flatMap_cons, flatMap_cons, hr.2, ih]
  refine ⟨?_, congrArg (self.diagnostics ++ ·) hfound⟩
  exact rel_append (Alike.refl self).layers (.cons ⟨rfl, hassignments⟩ .nil)

/-- Text entries that differ in secrets, with where they were written. -/
theorem withStringPairs_alike (self : ConfigLoader) (source : Source)
    {pairs pairs' : List (String × String × String)}
    (h : List.Forall₂ (fun a b => EntryAlike (a.1, a.2.1) (b.1, b.2.1) ∧ a.2.2 = b.2.2) pairs
      pairs') :
    (self.withStringPairs pairs source).Alike (self.withStringPairs pairs' source) := by
  refine push_alike self source ?_
  rw [forall₂_map_left_iff, forall₂_map_right_iff]
  refine h.imp fun a b hab => ?_
  rw [← hab.2]
  exact assignText_alike hab.1 a.2.2

theorem withPropertiesStrAt_alike (self : ConfigLoader) (source : Source) (label : String)
    {text text' : String}
    (h : List.Forall₂ Entry.Alike (Properties.parse text) (Properties.parse text')) :
    (self.withPropertiesStrAt text source label).Alike
      (self.withPropertiesStrAt text' source label) := by
  refine push_alike self source ?_
  rw [forall₂_map_left_iff, forall₂_map_right_iff]
  refine h.imp fun e e' he => ?_
  rw [← he.2]
  exact assignText_alike he.1 _

theorem withTree_alike (self : ConfigLoader) (source : Source) {label : String}
    {tree tree' : JsonValue} (h : self.TreeAlike label tree tree') :
    (self.withTree tree source label).Alike (self.withTree tree' source label) := by
  have hsame : self.withTree tree' source label =
      (self.report (self.overlay (splitProfiles tree).2 label).2).push source
        ((self.documentEntries label tree').map (self.assignValue label)) := by
    rw [h.profile]
    rfl
  rw [hsame]
  refine push_alike _ source ?_
  rw [forall₂_map_left_iff, forall₂_map_right_iff]
  exact h.entries.imp fun e e' he => assignValue_alike he label

theorem withEnv_alike (self : ConfigLoader) {vars vars' : List (String × String)}
    (h : List.Forall₂ VarAlike vars vars') : (self.withEnv vars).Alike (self.withEnv vars') := by
  refine withStringPairs_alike self .environment ?_
  induction h with
  | nil => exact .nil
  | @cons v v' _ _ hv _ ih =>
    obtain ⟨name, value⟩ := v
    obtain ⟨name', value'⟩ := v'
    obtain ⟨rfl, hvalue⟩ := hv
    rw [filterMap_cons, filterMap_cons]
    cases hkey : Text.stripPrefix "CDM__".toList name.toList with
    | none => exact ih
    | some key =>
      refine .cons ⟨⟨rfl, ?_⟩, rfl⟩ ih
      refine hvalue _ ?_
      rw [envKey, hkey]
      rfl

/-! ### Overrides -/

/-- What an override written `key=value` assigns. -/
def itemPair (label item : String) : String × String × String :=
  let key := String.ofList (Text.trim (item.toList.takeWhile (· ≠ '=')))
  (key, String.ofList (item.toList.dropWhile (· ≠ '=')).tail, label ++ " " ++ key)

/-- What alike overrides come to: the same diagnostic, or alike entries. -/
structure ItemsAgree (label item item' : String) : Prop where
  equals : '=' ∈ item.toList ↔ '=' ∈ item'.toList
  diagnostic : '=' ∉ item.toList → malformedOverride label item = malformedOverride label item'
  pair : '=' ∈ item.toList → EntryAlike ((itemPair label item).1, (itemPair label item).2.1)
      ((itemPair label item').1, (itemPair label item').2.1) ∧
    (itemPair label item).2.2 = (itemPair label item').2.2

omit [ConfigCrates] in
theorem takeWhile_append_stop {p : Char → Bool} {word rest : List Char} {stop : Char}
    (hword : ∀ c ∈ word, p c = true) (hstop : p stop = false) :
    (word ++ stop :: rest).takeWhile p = word := by
  rw [takeWhile_append_of_pos hword, takeWhile_cons, hstop]
  simp

omit [ConfigCrates] in
theorem itemsAgree_of_alike {item item' : String} (h : ItemAlike item item') (label : String) :
    ItemsAgree label item item' := by
  cases h with
  | same => exact ⟨Iff.rfl, fun _ => rfl, fun _ => ⟨⟨rfl, .inl rfl⟩, rfl⟩⟩
  | assigned key value value' hkey hsecret =>
    have htoList (value : String) : (key ++ "=" ++ value).toList = key.toList ++ '=' :: value.toList := by
      simp [String.toList_append]
    have hkey' (value : String) :
        (key ++ "=" ++ value).toList.takeWhile (· ≠ '=') = key.toList := by
      rw [htoList]
      refine takeWhile_append_stop (fun c hc => ?_) (by simp)
      simpa using fun heq : c = '=' => hkey (heq ▸ hc)
    have hmem (value : String) : '=' ∈ (key ++ "=" ++ value).toList := by simp [htoList]
    refine ⟨iff_of_true (hmem _) (hmem _), fun hnot => absurd (hmem _) hnot, fun _ => ?_⟩
    simp only [itemPair, hkey']
    exact ⟨⟨rfl, .inr hsecret⟩, trivial⟩
  | malformed name separator value value' hname hseparator hvalue hvalue' =>
    -- the name is the leading token, which is all that the diagnostic shows
    have htoken := PropertyRegistry.token_of_isSecretName hname
    have htoList (value : String) :
        (name ++ separator.toString ++ value).toList = name.toList ++ separator :: value.toList := by
      simp [String.toList_append]
    have hnot {value : String} (hvalue : '=' ∉ value.toList) :
        '=' ∉ (name ++ separator.toString ++ value).toList := by
      rw [htoList]
      rcases hseparator with rfl | rfl | rfl <;>
        simpa [hvalue] using fun h => (htoken _ h).2.2.2 rfl
    have hleading (value : String) : (name ++ separator.toString ++ value).toList.takeWhile
        (fun c => c ≠ ' ' ∧ c ≠ '\t' ∧ c ≠ ':') = name.toList := by
      rw [htoList]
      refine takeWhile_append_stop (fun c hc => ?_) ?_
      · obtain ⟨hspace, htab, hcolon, -⟩ := htoken c hc
        simp [hspace, htab, hcolon]
      · rcases hseparator with rfl | rfl | rfl <;> simp
    refine ⟨iff_of_false (hnot hvalue) (hnot hvalue'), fun _ => ?_, fun hmem => absurd hmem
      (hnot hvalue)⟩
    simp only [malformedOverride, hleading]

theorem withAssignmentStrings_alike (self : ConfigLoader) (source : Source) (label : String)
    {items items' : List String} (h : List.Forall₂ ItemAlike items items') :
    (self.withAssignmentStrings items source label).Alike
      (self.withAssignmentStrings items' source label) := by
  have hmalformed : (items.filter fun item => '=' ∉ item.toList).map (malformedOverride label) =
      (items'.filter fun item => '=' ∉ item.toList).map (malformedOverride label) := by
    induction h with
    | nil => rfl
    | @cons item item' _ _ hitem _ ih =>
      have hagree := itemsAgree_of_alike hitem label
      by_cases hmem : '=' ∈ item.toList
      · rw [filter_cons_of_neg (by simpa using hmem),
          filter_cons_of_neg (by simpa using hagree.equals.1 hmem), ih]
      · rw [filter_cons_of_pos (by simpa using hmem),
          filter_cons_of_pos (by simpa using fun h => hmem (hagree.equals.2 h)),
          map_cons, map_cons, hagree.diagnostic hmem, ih]
  have hpairs : List.Forall₂
      (fun a b => EntryAlike (a.1, a.2.1) (b.1, b.2.1) ∧ a.2.2 = b.2.2)
      ((items.filter fun item => '=' ∈ item.toList).map (itemPair label))
      ((items'.filter fun item => '=' ∈ item.toList).map (itemPair label)) := by
    clear hmalformed
    induction h with
    | nil => exact .nil
    | @cons item item' _ _ hitem _ ih =>
      have hagree := itemsAgree_of_alike hitem label
      by_cases hmem : '=' ∈ item.toList
      · rw [filter_cons_of_pos (by simpa using hmem),
          filter_cons_of_pos (by simpa using hagree.equals.1 hmem), map_cons,
          map_cons]
        exact .cons (hagree.pair hmem) ih
      · rw [filter_cons_of_neg (by simpa using hmem),
          filter_cons_of_neg (by simpa using fun h => hmem (hagree.equals.2 h))]
        exact ih
  have hsame : self.withAssignmentStrings items' source label =
      (self.report ((items.filter fun item => '=' ∉ item.toList).map
        (malformedOverride label))).withStringPairs
        ((items'.filter fun item => '=' ∈ item.toList).map (itemPair label)) source := by
    rw [hmalformed]
    rfl
  rw [hsame]
  exact withStringPairs_alike _ source hpairs

/-! ### Added layers -/

theorem withFile_ok (self : ConfigLoader) (path text : String) :
    self.withFile path (.ok text) =
      match structured path with
      | some format => self.withDocument format path text
      | none => self.withPropertiesStrAt text (.file path) path := by
  simp only [withFile, structured]
  split_ifs <;> rfl

/-- **Layers that differ in secrets add the same diagnostics, and alike assignments.** -/
theorem add_alike {self : ConfigLoader} {x y : Addition} (h : x.Alike self y) :
    (self.blank.add x).Alike (self.blank.add y) := by
  cases h with
  | same => exact .refl _
  | propertiesFile hformat h =>
    simp only [add, withFile_ok, hformat]
    exact withPropertiesStrAt_alike _ _ _ h
  | document hformat htree htree' h =>
    simp only [add, withFile_ok, hformat, withDocument, htree, htree']
    exact withTree_alike _ _ ⟨h.entries, h.profile⟩
  | properties h => exact withPropertiesStrAt_alike _ _ _ h
  | env h => exact withEnv_alike _ h
  | overrides h => exact withAssignmentStrings_alike _ _ _ h
  | flags h => exact withAssignmentStrings_alike _ _ _ h
  | apiBody h => exact withTree_alike _ _ ⟨h.entries, h.profile⟩

/-- Lists of such layers do, too. -/
theorem addAll_alike (self : ConfigLoader) {additions others : List Addition}
    (h : List.Forall₂ (Addition.Alike self) additions others) :
    (self.addAll additions).Alike (self.addAll others) := by
  have hfirst := grown_addAll self additions
  have hsecond := grown_addAll self others
  have hadded : List.Forall₂ Layer.Alike (additions.flatMap fun x => (self.blank.add x).layers)
      (others.flatMap fun x => (self.blank.add x).layers) ∧
      (additions.flatMap fun x => (self.blank.add x).diagnostics) =
        others.flatMap fun x => (self.blank.add x).diagnostics := by
    clear hfirst hsecond
    induction h with
    | nil => exact ⟨.nil, rfl⟩
    | cons hxy _ ih =>
      have halike := add_alike hxy
      simp only [flatMap_cons]
      exact ⟨rel_append halike.layers ih.1, by rw [halike.diagnostics, ih.2]⟩
  constructor
  · rw [hfirst.layers, hsecond.layers]
    exact rel_append (Alike.refl self).layers hadded.1
  · rw [hfirst.diagnostics, hsecond.diagnostics, hadded.2]

end ConfigLoader

/-! ### Merging alike layers -/

omit [ConfigCrates] in
/-- Maps with the same sources and locations, and the same values but those of secrets. -/
structure Merged.Alike (merged merged' : Merged) : Prop where
  sources : merged.sources = merged'.sources
  locations : merged.locations = merged'.locations
  values : ∀ key, merged.values[key]? = merged'.values[key]? ∨
    ∃ p ∈ PropertyRegistry.secrets, p.canonical = key

namespace Merged

omit [ConfigCrates] in
theorem assign_alike {merged merged' : Merged} (h : merged.Alike merged') (source : Source)
    {a a' : Assignment} (ha : a.Alike a') :
    (merged.assign source a).Alike (merged'.assign source a') := by
  constructor
  · simp only [assign, h.sources, ha.key]
  · simp only [assign, h.locations, ha.key, ha.location]
  · intro key
    by_cases hkey : a.key = key
    · subst hkey
      simpa [assign, ← ha.key] using ha.value
    · simpa [assign, ← ha.key, Std.TreeMap.getElem?_insert, hkey] using h.values key

omit [ConfigCrates] in
theorem layer_alike {merged merged' : Merged} (h : merged.Alike merged') {l l' : Layer}
    (hl : l.Alike l') : (merged.layer l).Alike (merged'.layer l') := by
  obtain ⟨hsource, hassignments⟩ := hl
  rw [layer, layer, hsource]
  exact rel_foldl (P := Alike) (R := Assignment.Alike)
    (fun _ _ hm _ _ ha => assign_alike hm _ ha) h hassignments

omit [ConfigCrates] in
/-- **Alike layers are merged alike.** -/
theorem ofLayers_alike {layers layers' : List Layer} (h : List.Forall₂ Layer.Alike layers layers') :
    (ofLayers layers).Alike (ofLayers layers') := by
  have hsorted : List.Forall₂ Layer.Alike (layers.sortByKey (·.source.rank))
      (layers'.sortByKey (·.source.rank)) :=
    h.sortByKey fun _ _ hl => congrArg Source.rank hl.1
  exact rel_foldl (P := Alike) (R := Layer.Alike) (fun _ _ hm _ _ hl => layer_alike hm hl)
    ⟨rfl, rfl, fun _ => .inl rfl⟩ hsorted

end Merged

/-! ### What becomes of a secret -/

/-- What the value of a secret comes to: it cannot be resolved, or is accepted or rejected by
`serde_json::from_value`. -/
inductive SecretFate
  | unresolved (reason : String)
  | accepted
  | rejected
  deriving DecidableEq

namespace ConfigLoader

/-- What a value of a secret comes to. -/
def fateOf (self : ConfigLoader) (p : PropertyMeta) (value : JsonValue) : SecretFate :=
  match self.secretOf p value with
  | .error reason => .unresolved reason
  | .ok json => if (ConfigCrates.deserialize p json).isSome then .accepted else .rejected

/-- What a secret comes to, if a layer assigns it. -/
def fate (self : ConfigLoader) (p : PropertyMeta) : Option SecretFate :=
  (Merged.ofLayers self.layers).values[p.canonical]?.map (self.fateOf p)

omit [ConfigCrates] in
/-- The value of a property in the tree: the one that was merged, with the secret resolved. -/
def resolvedValue (self : ConfigLoader) (p : PropertyMeta) : Option JsonValue :=
  (Merged.ofLayers self.layers).values[p.canonical]?.bind fun value =>
    (self.secretOf p value).toOption

/-- The diagnostics about the resolution of a secret. -/
def reportOf (sources : Std.TreeMap String Source) (p : PropertyMeta) :
    Option SecretFate → List Diagnostic
  | some (.unresolved reason) => [unresolved sources p reason]
  | _ => []

theorem resolveSecret_snd (self : ConfigLoader) (sources : Std.TreeMap String Source)
    (state : Std.TreeMap String JsonValue × List Diagnostic) {p : PropertyMeta}
    (hp : p.secret = true) :
    (self.resolveSecret sources state p).2 =
      state.2 ++ reportOf sources p (state.1[p.canonical]?.map (self.fateOf p)) := by
  unfold resolveSecret
  split
  · next raw hraw =>
    rw [hraw, Option.map_some]
    simp only [fateOf, secretOf, hp]
    cases self.secrets.resolve raw with
    | ok resolved =>
      simp only [Except.map]
      split_ifs <;> simp [reportOf]
    | error reason => rfl
  · next hnot =>
    cases hvalue : state.1[p.canonical]? with
    | none => simp [reportOf]
    | some value =>
      -- a value that is no text is left as it is
      have hok : self.secretOf p value = .ok value := by
        unfold secretOf
        split
        · next raw _ => exact absurd hvalue (hnot raw)
        · rfl
      rw [Option.map_some, fateOf, hok]
      simp only
      split_ifs <;> simp [reportOf]

/-- What resolving the secrets reports is what each comes to. -/
theorem foldl_resolveSecret_snd (self : ConfigLoader) (sources : Std.TreeMap String Source)
    {secrets : List PropertyMeta} (hsecret : ∀ p ∈ secrets, p.secret = true)
    (hnodup : (secrets.map PropertyMeta.canonical).Nodup)
    (state : Std.TreeMap String JsonValue × List Diagnostic) :
    (secrets.foldl (self.resolveSecret sources) state).2 =
      state.2 ++ secrets.flatMap fun p =>
        reportOf sources p (state.1[p.canonical]?.map (self.fateOf p)) := by
  induction secrets generalizing state with
  | nil => exact (append_nil _).symm
  | cons p secrets ih =>
    obtain ⟨hnotin, hnodup⟩ := nodup_cons.1 hnodup
    -- resolving the first secret leaves the values of the others as they are
    have hothers : ∀ q ∈ secrets,
        (self.resolveSecret sources state p).1[q.canonical]? = state.1[q.canonical]? :=
      fun q hq => self.resolveSecret_of_ne sources state fun heq =>
        hnotin (heq ▸ mem_map_of_mem hq)
    rw [foldl_cons, ih (fun q hq => hsecret q (mem_cons_of_mem _ hq)) hnodup,
      resolveSecret_snd _ _ _ (hsecret p mem_cons_self), append_assoc, flatMap_cons]
    congr 2
    exact flatMap_congr fun q hq => by rw [hothers q hq]

theorem resolveSecrets_snd (self : ConfigLoader) :
    (self.resolveSecrets (.ofLayers self.layers)).2 =
      self.diagnostics ++ PropertyRegistry.secrets.flatMap fun p =>
        reportOf (Merged.ofLayers self.layers).sources p (self.fate p) := by
  have hnodup : (PropertyRegistry.secrets.map PropertyMeta.canonical).Nodup :=
    PropertyRegistry.nodup_canonical.sublist (filter_sublist.map _)
  exact self.foldl_resolveSecret_snd _ (fun p hp => (mem_filter.1 hp).2) hnodup _

/-! ### The first value that is rejected -/

end ConfigLoader

/-- What the message of a mismatch shows of a value: a scalar, but nothing of what is in an array or
an object. -/
def JsonValue.shown : JsonValue → JsonValue
  | .array _ => .array []
  | .object _ => .object []
  | value => value

/-- What `serde_json` says of a tree that it refuses is about the first value that it rejects, and
quotes it. -/
structure QuotesRejected (message : PropertyMeta → JsonValue → String) : Prop where
  invalidTree : ∀ flat, JsonValue.Registered flat → ∀ p json,
    PropertyRegistry.firstRejected (fun p => flat[p.canonical]?) = some (p, json) →
      ConfigCrates.invalidTree (.object (JsonValue.unflatten flat)) = message p json
  quotes : ∀ p ∈ PropertyRegistry.secrets, ∀ json json',
    ConfigCrates.deserialize p json = none → ConfigCrates.deserialize p json' = none →
      (message p json = message p json' ↔ json.shown = json'.shown)

namespace PropertyRegistry

/-- A rejected value, and the same one of the same property unless that is a secret. -/
def RejectedAlike (found found' : PropertyMeta × JsonValue) : Prop :=
  found.1 = found'.1 ∧ (found.2 = found'.2 ∨ found.1 ∈ secrets)

/-- **The first property that is rejected is the same** when each is rejected in both or in
neither. -/
theorem firstRejected_alike {value value' : PropertyMeta → Option JsonValue}
    (h : ∀ p ∈ all, Option.Rel RejectedAlike (rejects value p) (rejects value' p)) :
    Option.Rel RejectedAlike (firstRejected value) (firstRejected value') :=
  Fallible.rel_findSome? fun p hp => h p (mem_ordered.1 hp)

end PropertyRegistry

namespace ConfigLoader

/-- Two loads reveal a secret when it is the first value that both of them reject, and the values
differ in what is shown of them. -/
def Reveals (first second : ConfigLoader) : Prop :=
  ∃ p json json', p.secret = true ∧
    PropertyRegistry.firstRejected first.resolvedValue = some (p, json) ∧
    PropertyRegistry.firstRejected second.resolvedValue = some (p, json') ∧
    json.shown ≠ json'.shown

/-- A value is rejected when it is resolved to one that cannot be read. -/
theorem fate_eq_rejected (self : ConfigLoader) (p : PropertyMeta) :
    self.fate p = some .rejected ↔
      ∃ found, PropertyRegistry.rejects self.resolvedValue p = some found := by
  rw [fate, PropertyRegistry.rejects, resolvedValue]
  cases hvalue : (Merged.ofLayers self.layers).values[p.canonical]? with
  | none => simp
  | some value =>
    rw [Option.map_some, Option.bind_some, fateOf]
    cases hsecret : self.secretOf p value with
    | error reason => simp [Except.toOption]
    | ok json =>
      cases hread : ConfigCrates.deserialize p json with
      | none => simp [Except.toOption, hread]
      | some setting => simp [Except.toOption, hread]

/-- A property that is no secret has one value, and a secret is rejected in both or in neither. -/
theorem rejects_alike {first second : ConfigLoader}
    (hmerged : (Merged.ofLayers first.layers).Alike (Merged.ofLayers second.layers))
    (hfates : ∀ p ∈ PropertyRegistry.secrets, first.fate p = second.fate p) {p : PropertyMeta}
    (hp : p ∈ PropertyRegistry.all) :
    Option.Rel PropertyRegistry.RejectedAlike (PropertyRegistry.rejects first.resolvedValue p)
      (PropertyRegistry.rejects second.resolvedValue p) := by
  have hnone (loader : ConfigLoader) (h : loader.fate p ≠ some .rejected) :
      PropertyRegistry.rejects loader.resolvedValue p = none := by
    by_contra hsome
    obtain ⟨found, hfound⟩ := Option.ne_none_iff_exists'.1 hsome
    exact h ((loader.fate_eq_rejected p).2 ⟨_, hfound⟩)
  by_cases hsecret : p ∈ PropertyRegistry.secrets
  · by_cases hrejected : first.fate p = some .rejected
    -- a secret is rejected in both, for values that may differ
    · obtain ⟨found, hfound⟩ := (first.fate_eq_rejected p).1 hrejected
      obtain ⟨found', hfound'⟩ := (second.fate_eq_rejected p).1 (hfates p hsecret ▸ hrejected)
      obtain ⟨-, -, hname⟩ := PropertyRegistry.rejects_eq_some.1 hfound
      obtain ⟨-, -, hname'⟩ := PropertyRegistry.rejects_eq_some.1 hfound'
      rw [hfound, hfound']
      exact .some ⟨hname.trans hname'.symm, .inr (hname ▸ hsecret)⟩
    · rw [hnone first hrejected, hnone second (hfates p hsecret ▸ hrejected)]
      exact .none
  -- a property that is no secret has the same value in both
  · have hvalue : first.resolvedValue p = second.resolvedValue p := by
      have hplain : p.secret ≠ true := fun h => hsecret (mem_filter.2 ⟨hp, h⟩)
      have hsame (loader : ConfigLoader) : loader.secretOf p = .ok := by
        funext value
        unfold secretOf
        split
        · next hsecret => exact absurd hsecret hplain
        · rfl
      rcases hmerged.values p.canonical with heq | ⟨q, hq, hname⟩
      · rw [resolvedValue, resolvedValue, heq, hsame, hsame]
      · exact absurd (PropertyRegistry.eq_of_canonical (mem_filter.1 hq).1 hp hname ▸ hq) hsecret
    rw [PropertyRegistry.rejects, PropertyRegistry.rejects, hvalue]
    cases (second.resolvedValue p).bind _ with
    | none => exact .none
    | some found => exact .some ⟨rfl, .inl rfl⟩

omit [ConfigCrates] in
/-- The values in the tree of a loader. -/
theorem getElem?_resolvedValue {self : ConfigLoader} {p : PropertyMeta}
    (hp : p ∈ PropertyRegistry.all) :
    (self.resolveSecrets (.ofLayers self.layers)).1[p.canonical]? = self.resolvedValue p :=
  self.getElem?_resolveSecrets _ hp

/-- What the check of the tree reports is what the message says of the first value that is
rejected. -/
theorem checkTree_resolved {message : PropertyMeta → JsonValue → String}
    (hmessage : QuotesRejected message) {self : ConfigLoader}
    (hregistered : JsonValue.Registered (Merged.ofLayers self.layers).values) :
    checkTree (JsonValue.unflatten (self.resolveSecrets (.ofLayers self.layers)).1) =
      match PropertyRegistry.firstRejected self.resolvedValue with
      | none => []
      | some (p, json) =>
        [{ severity := .error
           title := "the merged configuration is not valid"
           detail := some (message p json)
           rule := some "CFG-020" }] := by
  have hflat := self.registered_resolveSecrets _ hregistered
  have hfirst : PropertyRegistry.firstRejected (fun p =>
      (self.resolveSecrets (.ofLayers self.layers)).1[p.canonical]?) =
        PropertyRegistry.firstRejected self.resolvedValue :=
    PropertyRegistry.firstRejected_congr fun p hp => getElem?_resolvedValue hp
  cases hrejected : PropertyRegistry.firstRejected self.resolvedValue with
  | none =>
    rw [hrejected, PropertyRegistry.firstRejected_eq_none,
      ← CdmConfig.fromFields_unflatten_eq_none hflat] at hfirst
    obtain ⟨config, hconfig⟩ := Option.ne_none_iff_exists'.1 hfirst
    rw [checkTree, hconfig]
  | some found =>
    obtain ⟨p, json⟩ := found
    rw [hrejected] at hfirst
    have hrefused : CdmConfig.fromFields
        (JsonValue.unflatten (self.resolveSecrets (.ofLayers self.layers)).1) = none := by
      rw [CdmConfig.fromFields_unflatten_eq_none hflat]
      by_contra hnone
      rw [← PropertyRegistry.firstRejected_eq_none, hfirst] at hnone
      cases hnone
    rw [checkTree, hrefused, hmessage.invalidTree _ hflat p json hfirst]

/-- The loads of such layers report the same unless a secret is revealed. -/
theorem diagnostics_eq_iff {message : PropertyMeta → JsonValue → String}
    (hmessage : QuotesRejected message) {first second : ConfigLoader} (hloaders : first.Alike second)
    (hfates : ∀ p ∈ PropertyRegistry.secrets, first.fate p = second.fate p)
    (hfirst : JsonValue.Registered (Merged.ofLayers first.layers).values)
    (hsecond : JsonValue.Registered (Merged.ofLayers second.layers).values) :
    first.load.diagnostics = second.load.diagnostics ↔ ¬Reveals first second := by
  have hmerged := Merged.ofLayers_alike hloaders.layers
  -- the layers and the secrets report the same
  have hresolved : (first.resolveSecrets (.ofLayers first.layers)).2 =
      (second.resolveSecrets (.ofLayers second.layers)).2 := by
    rw [resolveSecrets_snd, resolveSecrets_snd, hloaders.diagnostics, hmerged.sources]
    congr 1
    exact flatMap_congr fun p hp => by rw [hfates p hp]
  have hrejected := PropertyRegistry.firstRejected_alike fun p hp =>
    rejects_alike hmerged hfates hp
  rw [load_diagnostics, load_diagnostics, hresolved, append_right_inj]
  refine (Eq.congr (checkTree_resolved hmessage hfirst) (checkTree_resolved hmessage hsecond)).trans ?_
  cases hone : PropertyRegistry.firstRejected first.resolvedValue with
  | none =>
    cases htwo : PropertyRegistry.firstRejected second.resolvedValue with
    | none =>
      refine iff_of_true rfl ?_
      rintro ⟨p, json, json', -, h, -⟩
      cases hone.symm.trans h
    | some found =>
      rw [hone, htwo] at hrejected
      cases hrejected
  | some found =>
    cases htwo : PropertyRegistry.firstRejected second.resolvedValue with
    | none =>
      rw [hone, htwo] at hrejected
      cases hrejected
    | some found' =>
      rw [hone, htwo] at hrejected
      obtain ⟨p, json⟩ := found
      obtain ⟨p', json'⟩ := found'
      obtain ⟨rfl, hvalue⟩ : p = p' ∧ (json = json' ∨ p ∈ PropertyRegistry.secrets) := by
        cases hrejected with
        | some h => exact h
      have hsays : message p json = message p json' ↔ (p.secret = true → json.shown = json'.shown) := by
        rcases hvalue with rfl | hsecret
        · exact iff_of_true rfl fun _ => rfl
        · rw [hmessage.quotes p hsecret json json' (PropertyRegistry.of_firstRejected hone).2.2
            (PropertyRegistry.of_firstRejected htwo).2.2]
          exact ⟨fun h _ => h, fun h => h (mem_filter.1 hsecret).2⟩
      have hreveals : Reveals first second ↔ p.secret = true ∧ json.shown ≠ json'.shown := by
        constructor
        · rintro ⟨q, v, w, hsecret, hv, hw, hne⟩
          cases hone.symm.trans hv
          cases htwo.symm.trans hw
          exact ⟨hsecret, hne⟩
        · rintro ⟨hsecret, hne⟩
          exact ⟨p, json, json', hsecret, hone, htwo, hne⟩
      rw [hreveals, not_and_not_right, ← hsays]
      simp

/-- **What a load says about secrets.**  Layers that differ only in the values of secrets, which
resolve or fail alike, have the same diagnostics, sources and locations, unless the first value that
is rejected is a secret: a structured document gives it as a number or a boolean, and the diagnostic
quotes it. -/
theorem reports_alike_iff {message : PropertyMeta → JsonValue → String}
    (hmessage : QuotesRejected message) (profile : Option String) (strict compatJava : Bool)
    (secrets : SecretSource) (additions others : List Addition)
    (halike : List.Forall₂ (Addition.Alike { profile, strict, compatJava, secrets }) additions
      others)
    (hfates : ∀ p ∈ PropertyRegistry.secrets,
      (addAll { profile, strict, compatJava, secrets } additions).fate p =
        (addAll { profile, strict, compatJava, secrets } others).fate p) :
    let first := addAll { profile, strict, compatJava, secrets } additions
    let second := addAll { profile, strict, compatJava, secrets } others
    (first.load.diagnostics = second.load.diagnostics ∧
      first.load.sources = second.load.sources ∧
      first.load.locations = second.load.locations) ↔ ¬Reveals first second := by
  intro first second
  have hloaders : Alike first second := addAll_alike _ halike
  have hmerged := Merged.ofLayers_alike hloaders.layers
  have hregistered (added : List Addition) : JsonValue.Registered
      (Merged.ofLayers (addAll { profile, strict, compatJava, secrets } added).layers).values :=
    registered_ofLayers (addAll_proper rfl added)
  have hsources : first.load.sources = second.load.sources := by
    rw [load_sources, load_sources, hmerged.sources]
  have hlocations : first.load.locations = second.load.locations := by
    rw [load_locations, load_locations, hmerged.locations]
  rw [and_iff_left ⟨hsources, hlocations⟩]
  exact diagnostics_eq_iff hmessage hloaders hfates (hregistered additions) (hregistered others)

end ConfigLoader

end Alike

/-! ### Loads of one secret -/

namespace SecretSample

/-- The `Deserialize` of a secret, which is text; other fields are not looked into. -/
def deserialize (p : PropertyMeta) : JsonValue → Option Setting
  | .string text => some (.text text)
  | .null => if p.default = .absent then some .absent else none
  | _ => if p.secret then none else some .absent

/-- `serde::de::Unexpected`, as it is displayed. -/
def unexpected : JsonValue → String
  | .null => "null"
  | .bool value => "boolean `" ++ (if value then "true" else "false") ++ "`"
  | .number text =>
    (if '.' ∈ text.toList then "floating point `" else "integer `") ++ text ++ "`"
  | .string text => "string \"" ++ text ++ "\""
  | .array _ => "sequence"
  | .object _ => "map"

/-- `serde::de::Error::invalid_type`, for a value that is no text. -/
def invalidType (_ : PropertyMeta) (json : JsonValue) : String :=
  "invalid type: " ++ unexpected json ++ ", expected a string"

/-- The message about the first value of a tree that is rejected. -/
def invalidTree : JsonValue → String
  | .object fields =>
    (PropertyRegistry.ordered.findSome? fun p =>
      (JsonValue.lookupPath fields (segments p.canonical)).bind fun json =>
        if (deserialize p json).isSome then none else some (invalidType p json)).getD ""
  | _ => ""

local instance crates : ConfigCrates where
  parseF64 _ := .invalid
  normalizedLevenshtein _ _ := 0
  fromStr _ _ := .error "expected value at line 1 column 1"
  deserialize := deserialize
  invalidTree := invalidTree

/-- The message shows a scalar. -/
theorem unexpected_eq_iff {json json' : JsonValue} :
    unexpected json = unexpected json' ↔ json.shown = json'.shown := by
  constructor
  · intro h
    have hlist := congrArg String.toList h
    cases json <;> cases json' <;>
      simp [unexpected, String.toList_append, String.toList_inj] at hlist <;>
      (try split_ifs at hlist) <;> simp_all [JsonValue.shown, String.toList_inj]
  · intro h
    cases json <;> cases json' <;> cases h <;> rfl

theorem invalidTree_unflatten {flat : Std.TreeMap String JsonValue}
    (hflat : JsonValue.Registered flat) {p : PropertyMeta} {json : JsonValue}
    (h : PropertyRegistry.firstRejected (fun p => flat[p.canonical]?) = some (p, json)) :
    invalidTree (.object (JsonValue.unflatten flat)) = invalidType p json := by
  rw [PropertyRegistry.firstRejected] at h
  have hmessage : ∀ q ∈ PropertyRegistry.ordered,
      ((JsonValue.lookupPath (JsonValue.unflatten flat) (segments q.canonical)).bind fun json =>
        if (deserialize q json).isSome then none else some (invalidType q json)) =
      (PropertyRegistry.rejects (fun p => flat[p.canonical]?) q).map fun found =>
        invalidType found.1 found.2 := by
    intro q hq
    rw [JsonValue.lookupPath_unflatten hflat (PropertyRegistry.mem_ordered.1 hq),
      PropertyRegistry.rejects]
    cases flat[q.canonical]? with
    | none => rfl
    | some json =>
      simp only [Option.bind_some]
      cases hread : deserialize q json <;> simp [ConfigCrates.deserialize, hread]
  have hfound := congrArg (Option.map fun found => invalidType found.1 found.2) h
  rw [map_findSome?] at hfound
  exact congrArg (·.getD "") ((Fallible.findSome?_congr hmessage).trans hfound)

theorem quotesRejected : QuotesRejected invalidType where
  invalidTree _ hflat _ _ h := invalidTree_unflatten hflat h
  quotes p _ json json' _ _ := by
    unfold invalidType
    rw [String.append_left_inj, String.append_right_inj, unexpected_eq_iff]

/-- A new loader. -/
def loader : ConfigLoader where
  secrets := { env := .error, file := .error, exec := .error }

/-- A request body with a password. -/
def body (password : JsonValue) : JsonValue :=
  .object [("connect", .object [("origin", .object [("password", password)])])]

/-- The password of the origin. -/
theorem exists_password : ∃ p, PropertyRegistry.resolve "connect.origin.password" = some p ∧
    p.canonical = "connect.origin.password" ∧ p.secret = true := by
  have hfacts : (ConfigModel.cdmConfig.member {} ["connect", "origin", "password"]).any
      (fun p => p.canonical = "connect.origin.password" ∧ p.secret = true) = true := by
    decide
  obtain ⟨p, hp, hfacts⟩ := PropertyRegistry.exists_member hfacts
  obtain ⟨hname, hsecret⟩ := of_decide_eq_true hfacts
  exact ⟨p, hname ▸ PropertyRegistry.resolve_canonical hp, hname, hsecret⟩

/-- A password that is no object is the one entry of its body. -/
theorem documentEntries_body {password : JsonValue} (h : password.flatten "connect.origin.password" =
    [("connect.origin.password", password)]) :
    loader.documentEntries "request body" (body password) =
      [("connect.origin.password", password)] := by
  simp [ConfigLoader.documentEntries, ConfigLoader.splitProfiles, ConfigLoader.overlay, loader, body,
    JsonValue.flatten, JsonValue.flattenFields, h]

/-- The request with a password. -/
def request (password : JsonValue) : ConfigLoader := loader.addAll [.apiBody (body password)]

theorem layers_request {password : JsonValue} (h : password.flatten "connect.origin.password" =
    [("connect.origin.password", password)]) :
    (request password).layers =
      [⟨.apiBody, [⟨"connect.origin.password", password, some "request body"⟩]⟩] := by
  obtain ⟨p, hp, hname, hsecret⟩ := exists_password
  change [] ++ [(⟨.apiBody, ((loader.documentEntries "request body" (body password)).map
    (loader.assignValue "request body")).filterMap Prod.fst⟩ : Layer)] = _
  rw [documentEntries_body h, map_singleton,
    ConfigLoader.assignValue_secret hp (PropertyRegistry.mem_secrets hp hsecret), hname]
  rfl

theorem body_alike {password password' : JsonValue}
    (h : password.flatten "connect.origin.password" = [("connect.origin.password", password)])
    (h' : password'.flatten "connect.origin.password" = [("connect.origin.password", password')]) :
    List.Forall₂ (Addition.Alike loader) [.apiBody (body password)] [.apiBody (body password')] := by
  obtain ⟨p, hp, -, hsecret⟩ := exists_password
  refine .cons (.apiBody ⟨?_, rfl⟩) .nil
  rw [documentEntries_body h, documentEntries_body h']
  exact .cons ⟨rfl, .inr ⟨_, ⟨p, hp, hsecret⟩, .inl rfl⟩⟩ .nil

section Request

variable {password : JsonValue}
  (h : password.flatten "connect.origin.password" = [("connect.origin.password", password)])

include h

theorem values_request (key : String) :
    (Merged.ofLayers (request password).layers).values[key]? =
      if "connect.origin.password" = key then some password else none := by
  rw [layers_request h]
  simp [Merged.ofLayers, List.sortByKey, Merged.layer, Merged.assign, Std.TreeMap.getElem?_insert]

theorem fate_request (p : PropertyMeta) : (request password).fate p =
    if "connect.origin.password" = p.canonical then some (loader.fateOf p password) else none := by
  rw [ConfigLoader.fate, values_request h]
  split_ifs <;> rfl

theorem resolvedValue_request (p : PropertyMeta) : (request password).resolvedValue p =
    if "connect.origin.password" = p.canonical then (loader.secretOf p password).toOption
      else none := by
  rw [ConfigLoader.resolvedValue, values_request h]
  split_ifs <;> rfl

end Request

/-- A number is no indirection. -/
theorem secretOf_number (p : PropertyMeta) (number : String) :
    loader.secretOf p (.number number) = .ok (.number number) := by
  unfold ConfigLoader.secretOf
  cases p.secret <;> rfl

/-- A number is rejected, and it is the first value that is. -/
theorem firstRejected_number {p : PropertyMeta}
    (hp : PropertyRegistry.resolve "connect.origin.password" = some p)
    (hname : p.canonical = "connect.origin.password") (hsecret : p.secret = true) (number : String) :
    PropertyRegistry.firstRejected (request (.number number)).resolvedValue =
      some (p, .number number) := by
  have hmem := (PropertyRegistry.mem_of_resolve hp).1
  have hvalue (q : PropertyMeta) : (request (.number number)).resolvedValue q =
      if "connect.origin.password" = q.canonical then some (.number number) else none := by
    rw [resolvedValue_request rfl, secretOf_number]
    rfl
  cases hfirst : PropertyRegistry.firstRejected (request (.number number)).resolvedValue with
  | none =>
    rw [PropertyRegistry.firstRejected_eq_none] at hfirst
    refine absurd ⟨p, hmem, .number number, ?_, ?_⟩ hfirst
    · rw [hvalue, hname, if_pos rfl]
    · simp [ConfigCrates.deserialize, deserialize, hsecret]
  | some found =>
    obtain ⟨q, json⟩ := found
    obtain ⟨hq, hjson, -⟩ := PropertyRegistry.of_firstRejected hfirst
    rw [hvalue] at hjson
    split_ifs at hjson with hcanonical
    cases hjson
    rw [PropertyRegistry.eq_of_canonical hq hmem (hcanonical.symm.trans hname.symm)]

theorem registered_request (password : JsonValue) :
    JsonValue.Registered (Merged.ofLayers (request password).layers).values :=
  ConfigLoader.registered_ofLayers (ConfigLoader.addAll_proper rfl _)

/-- **Two passwords that are numbers**: the diagnostic shows the number. -/
theorem reveals_number :
    QuotesRejected invalidType ∧
    List.Forall₂ (Addition.Alike loader) [.apiBody (body (.number "1"))]
      [.apiBody (body (.number "2"))] ∧
    (∀ p ∈ PropertyRegistry.secrets,
      (request (.number "1")).fate p = (request (.number "2")).fate p) ∧
    (request (.number "1")).load.diagnostics ≠ (request (.number "2")).load.diagnostics := by
  obtain ⟨p, hp, hname, hsecret⟩ := exists_password
  have halike : List.Forall₂ (Addition.Alike loader) [.apiBody (body (.number "1"))]
      [.apiBody (body (.number "2"))] := body_alike rfl rfl
  have hfates : ∀ q ∈ PropertyRegistry.secrets,
      (request (.number "1")).fate q = (request (.number "2")).fate q := by
    intro q hq
    rw [fate_request rfl, fate_request rfl]
    simp [ConfigLoader.fateOf, secretOf_number, ConfigCrates.deserialize, deserialize]
  refine ⟨quotesRejected, halike, hfates, ?_⟩
  refine (ConfigLoader.diagnostics_eq_iff quotesRejected (ConfigLoader.addAll_alike loader halike)
    hfates (registered_request _) (registered_request _)).not_left.2 ?_
  exact ⟨p, .number "1", .number "2", hsecret, firstRejected_number hp hname hsecret _,
    firstRejected_number hp hname hsecret _, by simp [JsonValue.shown]⟩

/-- Text without an indirection is accepted. -/
theorem fateOf_text {p : PropertyMeta} (hsecret : p.secret = true) {text : String}
    (htext : loader.secrets.resolve text = .ok text) :
    loader.fateOf p (.string text) = .accepted := by
  simp [ConfigLoader.fateOf, ConfigLoader.secretOf, hsecret, htext, Except.map,
    ConfigCrates.deserialize, deserialize]

theorem plain_hunter2 : loader.secrets.resolve "hunter2" = .ok "hunter2" := by
  simp [SecretSource.resolve, Text.stripPrefix]

theorem plain_horse : loader.secrets.resolve "correct horse" = .ok "correct horse" := by
  simp [SecretSource.resolve, Text.stripPrefix]

/-- Two passwords that are text: the loads say the same. -/
theorem reports_text :
    (request (.string "hunter2")).load.diagnostics =
      (request (.string "correct horse")).load.diagnostics ∧
    (request (.string "hunter2")).load.sources = (request (.string "correct horse")).load.sources ∧
    (request (.string "hunter2")).load.locations =
      (request (.string "correct horse")).load.locations := by
  have hfates : ∀ p ∈ PropertyRegistry.secrets,
      (request (.string "hunter2")).fate p = (request (.string "correct horse")).fate p := by
    intro p hp
    have hsecret := (mem_filter.1 hp).2
    rw [fate_request rfl, fate_request rfl, fateOf_text hsecret plain_hunter2,
      fateOf_text hsecret plain_horse]
  refine (ConfigLoader.reports_alike_iff quotesRejected none false false loader.secrets _ _
    (body_alike rfl rfl) hfates).2 ?_
  rintro ⟨p, json, -, hsecret, hfirst, -⟩
  obtain ⟨-, hjson, hread⟩ := PropertyRegistry.of_firstRejected hfirst
  replace hjson := (resolvedValue_request rfl p).symm.trans hjson
  split_ifs at hjson
  have hvalue : loader.secretOf p (.string "hunter2") = .ok (.string "hunter2") := by
    simp [ConfigLoader.secretOf, hsecret, plain_hunter2, Except.map]
  rw [hvalue] at hjson
  cases hjson
  cases hread

end SecretSample

end Cdm
