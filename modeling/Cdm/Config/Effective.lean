import Cdm.Cluster.Join
import Cdm.Config.Layering
import Cdm.Config.Render

/-!
# The effective configuration and its hash

`EffectiveConfig::resolve` decides what a configuration leaves open: the table of the target, the
automatic modes that a list of columns turns off, the number of workers, the identity of the node.
Its hash is a digest of the JSON text of the resolved configuration, in which a credential reads
`***`, and is what `check_config_hash` compares when a node joins a run.

The identity that a node is given in `cluster.node_id` is a field of the configuration, and enters the
text; the identity that it is given by default does not.  Nodes that have been named cannot join each
other, then.  Nor can nodes of which one has an optional credential, and the other none.

The digest is a parameter, and so is the text of a duration.
-/

namespace Cdm

open List PropertyRegistry

/-! ### Fields of a configuration -/

namespace Setting

/-- The values that a field of a kind can hold, by its Rust type. -/
def fits (kind : PropertyKind) : Setting → Bool
  | absent => true
  | flag _ => kind = .bool
  | integer _ => kind = .integer ∨ kind = .bigInteger
  | float number => kind = .float ∧ JsonValue.IsNumber number
  | names _ => kind = .list
  | duration _ => kind = .duration
  | text _ =>
    match kind with
    | .bool | .integer | .bigInteger | .float | .list | .duration => false
    | _ => true

end Setting

namespace CdmConfig

/-- Every field is there, and holds a value of its type. -/
def WellTyped (config : CdmConfig) : Prop :=
  ∀ p ∈ PropertyRegistry.all, ∃ value, config.get p.canonical = some value ∧ value.fits p.kind = true

/-- Assigns a field. -/
def set (config : CdmConfig) (canonical : String) (value : Setting) : CdmConfig where
  fields := (canonical, value) :: config.fields.filter (·.1 ≠ canonical)

/-- An `Option<String>`. -/
def text (config : CdmConfig) (canonical : String) : Option String :=
  match config.get canonical with
  | some (.text value) => some value
  | _ => none

/-- A `Vec<String>`. -/
def names (config : CdmConfig) (canonical : String) : List String :=
  match config.get canonical with
  | some (.names items) => items
  | _ => []

/-- An `Option<u32>`. -/
def count (config : CdmConfig) (canonical : String) : Option ℕ :=
  match config.get canonical with
  | some (.integer n) => some n.toNat
  | _ => none

@[simp] theorem get_set_self (config : CdmConfig) (canonical : String) (value : Setting) :
    (config.set canonical value).get canonical = some value := by
  simp [set, get]

theorem get_set_of_ne (config : CdmConfig) {canonical other : String} (value : Setting)
    (h : other ≠ canonical) : (config.set canonical value).get other = config.get other := by
  rw [get, get, set, find?_cons_of_neg (by simpa using h.symm), find?_filter]
  congr 2
  funext f
  by_cases hf : f.1 = other
  · simp [hf, h]
  · simp [hf]

end CdmConfig

/-! ### Serialisation -/

/-- `humantime::format_duration`, of a number of nanoseconds. -/
class DurationText where
  format : ℕ → String

section Serialize

variable [DurationText]

/-- What a value of a kind serialises as, if it is no credential. -/
def Setting.serializeValue (kind : PropertyKind) : Setting → JsonValue
  | absent => .null
  | flag value => .bool value
  | integer n => if kind = .bigInteger then .string (toString n) else .number (toString n)
  | float number => .number number
  | text value => .string value
  | names items => .array (items.map JsonValue.string)
  | duration nanos => .string (DurationText.format nanos)

/-- What a field serialises as: a credential is redacted. -/
def Setting.serialize (kind : PropertyKind) (value : Setting) : JsonValue :=
  if kind = .secret ∧ value ≠ .absent then .string "***" else value.serializeValue kind

/-- The members of a struct, in declaration order. -/
def Struct.serialize (config : CdmConfig) (ctx : MetaContext) :
    Struct → List (String × JsonValue)
  | done => []
  | field spec rest =>
    (spec.key, ((config.get (ctx.canonical spec.key)).getD spec.default).serialize spec.kind) ::
      rest.serialize config ctx
  | nested key side inner rest =>
    (key, .object (inner.serialize config (ctx.child key side))) :: rest.serialize config ctx

/-- The configuration as a document. -/
def CdmConfig.serialize (config : CdmConfig) : JsonValue :=
  .object (ConfigModel.cdmConfig.serialize config {})

/-- What a property serialises as. -/
def PropertyMeta.serialized (p : PropertyMeta) (config : CdmConfig) : JsonValue :=
  ((config.get p.canonical).getD p.default).serialize p.kind

/-! ### Resolution -/

namespace EffectiveConfig

/-- `serde_json::to_string` of a configuration. -/
def hashInput (config : CdmConfig) : String := String.ofList config.serialize.render

/-- Sixteen hexadecimal digits. -/
def formatHash (n : UInt64) : String :=
  String.ofList ((List.range 16).map fun i => Text.hexDigit (n.toNat / 16 ^ (15 - i) % 16))

/-- The digest of the serialised configuration, in which secrets are already redacted. -/
def hash (digest : String → UInt64) (config : CdmConfig) : String :=
  formatHash (digest (hashInput config))

end EffectiveConfig

end Serialize

/-- `parse_keyspace_table`. -/
def parseKeyspaceTable (value : String) : Option TableRef :=
  let trimmed := Text.trim value.toList
  match trimmed.dropWhile (· ≠ '.') with
  | [] => none
  | _ :: table =>
    let keyspace := trimmed.takeWhile (· ≠ '.')
    -- there is one dot, and a name on either side of it
    if keyspace = [] ∨ table = [] ∨ '.' ∈ table then none
    else some ⟨String.ofList keyspace, String.ofList table⟩

/-- What a node knows of the machine it runs on. -/
structure Machine where
  cpus : ℕ
  hostname : Option String
  computername : Option String
  pid : ℕ

/-- `hostname-pid`, or `unknown-pid` where the host name is not exposed to the process. -/
def Machine.defaultNodeId (machine : Machine) : String :=
  ((machine.hostname <|> machine.computername).getD "unknown") ++ "-" ++ toString machine.pid

/-- A configuration with every derived value resolved. -/
structure EffectiveConfig where
  config : CdmConfig
  originTable : Option TableRef
  targetTable : Option TableRef
  workers : ℕ
  nodeId : String
  configHash : String

namespace CdmConfig

/-- The target defaults to the origin. -/
def resolveTarget (config : CdmConfig) : CdmConfig :=
  -- an empty name is no name
  if (config.text "schema.target.keyspace_table").all (· = "") then
    config.set "schema.target.keyspace_table"
      ((config.get "schema.origin.keyspace_table").getD .absent)
  else config

/-- An explicit list of columns wins over the automatic mode. -/
def resolveAutomatic (config : CdmConfig) (names automatic : String) : CdmConfig :=
  if config.names names ≠ [] then config.set automatic (.flag false) else config

/-- The configuration of an effective configuration. -/
def resolve (config : CdmConfig) : CdmConfig :=
  (config.resolveTarget.resolveAutomatic "schema.origin.ttl.names"
    "schema.origin.ttl.automatic").resolveAutomatic "schema.origin.writetime.names"
      "schema.origin.writetime.automatic"

end CdmConfig

/-- Resolves a validated configuration. -/
def EffectiveConfig.resolve [DurationText] (digest : String → UInt64) (machine : Machine)
    (config : CdmConfig) : EffectiveConfig where
  config := config.resolve
  originTable := (config.resolve.text "schema.origin.keyspace_table").bind parseKeyspaceTable
  targetTable := (config.resolve.text "schema.target.keyspace_table").bind parseKeyspaceTable
  workers := (config.resolve.count "perfops.workers").getD (max 1 (min machine.cpus u32Max))
  nodeId := (config.resolve.text "cluster.node_id").getD machine.defaultNodeId
  configHash := hash digest config.resolve

/-! ### Defaults -/

namespace Struct

/-- The defaults of a struct are values of their types. -/
def DefaultsFit : Struct → Bool
  | done => true
  | field spec rest => spec.default.fits spec.kind && rest.DefaultsFit
  | nested _ _ inner rest => inner.DefaultsFit && rest.DefaultsFit

theorem DefaultsFit.fits {s : Struct} (h : s.DefaultsFit = true) (ctx : MetaContext) :
    ∀ p ∈ s.properties ctx, p.default.fits p.kind = true := by
  induction s generalizing ctx with
  | done => exact fun _ hp => absurd hp not_mem_nil
  | field spec rest ih =>
    rw [DefaultsFit, Bool.and_eq_true] at h
    rw [properties, forall_mem_cons]
    exact ⟨h.1, ih h.2 ctx⟩
  | nested key side inner rest ihInner ihRest =>
    rw [DefaultsFit, Bool.and_eq_true] at h
    rw [properties, forall_mem_append]
    exact ⟨ihInner h.1 _, ihRest h.2 ctx⟩

end Struct

namespace CdmConfig

/-- The `Default` of a configuration. -/
def default : CdmConfig where
  fields := ConfigModel.cdmConfig.defaults {}

theorem defaultsFit : ConfigModel.cdmConfig.DefaultsFit = true := by decide

theorem get_default {p : PropertyMeta} (hp : p ∈ PropertyRegistry.all) :
    default.get p.canonical = some p.default := by
  have hfields : default.fields = PropertyRegistry.all.map fun p => (p.canonical, p.default) := rfl
  rw [get, hfields, find?_map, Option.map_map]
  have hsome : (PropertyRegistry.all.find? fun q => q.canonical = p.canonical).isSome :=
    find?_isSome.2 ⟨p, hp, by simp⟩
  obtain ⟨q, hq⟩ := Option.isSome_iff_exists.1 hsome
  have hname : q.canonical = p.canonical := by simpa using find?_some hq
  have hsame := eq_of_canonical (mem_of_find?_eq_some hq) hp hname
  subst hsame
  exact congrArg (Option.map _) hq

theorem wellTyped_default : default.WellTyped :=
  fun p hp => ⟨p.default, get_default hp, Struct.DefaultsFit.fits defaultsFit {} p hp⟩

end CdmConfig

/-! ### What the text says -/

section Serialize

variable [DurationText]

/-- What a struct serialises as is what its properties serialise as. -/
theorem Struct.serialize_eq_iff (s : Struct) (ctx : MetaContext) (config config' : CdmConfig) :
    s.serialize config ctx = s.serialize config' ctx ↔
      ∀ p ∈ s.properties ctx, p.serialized config = p.serialized config' := by
  induction s generalizing ctx with
  | done => simp [serialize, properties]
  | field spec rest ih =>
    rw [serialize, serialize, properties, forall_mem_cons, List.cons.injEq, Prod.mk.injEq,
      eq_self, true_and, ih]
    rfl
  | nested key side inner rest ihInner ihRest =>
    rw [serialize, serialize, properties, forall_mem_append, List.cons.injEq, Prod.mk.injEq,
      eq_self, true_and, JsonValue.object.injEq, ihInner, ihRest]

theorem Struct.plain_serialize {s : Struct} {ctx : MetaContext} {config : CdmConfig}
    (h : ∀ p ∈ s.properties ctx, (p.serialized config).Plain) :
    JsonValue.PlainFields (s.serialize config ctx) := by
  induction s generalizing ctx with
  | done => trivial
  | field spec rest ih =>
    rw [properties, forall_mem_cons] at h
    exact ⟨h.1, ih h.2⟩
  | nested key side inner rest ihInner ihRest =>
    rw [properties, forall_mem_append] at h
    exact ⟨ihInner h.1, ihRest h.2⟩

/-- A value of its type is written as JSON. -/
theorem Setting.plain_serialize {kind : PropertyKind} {value : Setting}
    (h : value.fits kind = true) : (value.serialize kind).Plain := by
  rw [serialize]
  split_ifs
  · trivial
  · cases value with
    | absent => trivial
    | flag value => trivial
    | integer n =>
      rw [serializeValue]
      split_ifs
      · trivial
      · exact JsonValue.isNumber_toString n
    | float number => exact (of_decide_eq_true h).2
    | text value => trivial
    | names items =>
      rw [serializeValue]
      exact JsonValue.plainElements_map_string items
    | duration nanos => trivial

namespace EffectiveConfig

/-- **The text that is hashed determines what each property serialises as.** -/
theorem hashInput_eq_iff {config config' : CdmConfig} (h : config.WellTyped) (h' : config'.WellTyped) :
    hashInput config = hashInput config' ↔
      ∀ p ∈ PropertyRegistry.all, p.serialized config = p.serialized config' := by
  have hplain {config : CdmConfig} (h : config.WellTyped) : config.serialize.Plain := by
    refine Struct.plain_serialize fun p hp => ?_
    obtain ⟨value, hvalue, hfits⟩ := h p hp
    rw [PropertyMeta.serialized, hvalue]
    exact Setting.plain_serialize hfits
  rw [hashInput, hashInput]
  refine Iff.trans ?_ (Struct.serialize_eq_iff ConfigModel.cdmConfig {} config config')
  constructor
  · intro heq
    have hlist := congrArg String.toList heq
    rw [String.toList_ofList, String.toList_ofList] at hlist
    exact JsonValue.object.inj (JsonValue.render_injective (hplain h) (hplain h') hlist)
  · intro heq
    rw [CdmConfig.serialize, CdmConfig.serialize, heq]

end EffectiveConfig

end Serialize

/-! ### Nodes of one fleet -/

/-- A property that is no credential, with its name and its kind. -/
def Declares (name : String) (kind : PropertyKind) : Prop :=
  ∃ p ∈ PropertyRegistry.all, p.canonical = name ∧ p.kind = kind ∧ p.secret = false

theorem declares_of_member (path : List String) {name : String} {kind : PropertyKind}
    (h : (ConfigModel.cdmConfig.member {} path).any
      (fun p => p.canonical = name ∧ p.kind = kind ∧ p.secret = false) = true) :
    Declares name kind := by
  obtain ⟨p, hp, hfacts⟩ := exists_member h
  exact ⟨p, hp, of_decide_eq_true hfacts⟩

theorem declares_origin : Declares "schema.origin.keyspace_table" .string :=
  declares_of_member ["schema", "origin", "keyspace_table"] (by decide)

theorem declares_target : Declares "schema.target.keyspace_table" .string :=
  declares_of_member ["schema", "target", "keyspace_table"] (by decide)

theorem declares_ttl_names : Declares "schema.origin.ttl.names" .list :=
  declares_of_member ["schema", "origin", "ttl", "names"] (by decide)

theorem declares_ttl_automatic : Declares "schema.origin.ttl.automatic" .bool :=
  declares_of_member ["schema", "origin", "ttl", "automatic"] (by decide)

theorem declares_writetime_names : Declares "schema.origin.writetime.names" .list :=
  declares_of_member ["schema", "origin", "writetime", "names"] (by decide)

theorem declares_writetime_automatic : Declares "schema.origin.writetime.automatic" .bool :=
  declares_of_member ["schema", "origin", "writetime", "automatic"] (by decide)

theorem declares_nodeId : Declares "cluster.node_id" .string :=
  declares_of_member ["cluster", "node_id"] (by decide)

namespace CdmConfig

/-- Assigning a value of its type keeps a configuration well typed. -/
theorem WellTyped.set {config : CdmConfig} (h : config.WellTyped) {name : String}
    {kind : PropertyKind} (hname : Declares name kind) {value : Setting}
    (hvalue : value.fits kind = true) : (config.set name value).WellTyped := by
  intro p hp
  by_cases hsame : p.canonical = name
  · obtain ⟨q, hq, hcanonical, hkind, -⟩ := hname
    rw [eq_of_canonical hp hq (hsame.trans hcanonical.symm), hcanonical, hkind]
    exact ⟨value, get_set_self _ _ _, hvalue⟩
  · rw [get_set_of_ne _ _ hsame]
    exact h p hp

/-- Configurations that differ in credentials and in the identity of the node only. -/
def SameFleet (config config' : CdmConfig) : Prop :=
  ∀ p ∈ PropertyRegistry.all, p.secret = false → p.canonical ≠ "cluster.node_id" →
    config.get p.canonical = config'.get p.canonical

variable {config config' : CdmConfig}

theorem SameFleet.get (h : config.SameFleet config') {name : String} {kind : PropertyKind}
    (hname : Declares name kind) (hne : name ≠ "cluster.node_id") :
    config.get name = config'.get name := by
  obtain ⟨p, hp, rfl, -, hsecret⟩ := hname
  exact h p hp hsecret hne

theorem SameFleet.set (h : config.SameFleet config') (name : String) (value : Setting) :
    (config.set name value).SameFleet (config'.set name value) := by
  intro p hp hsecret hne
  by_cases hsame : p.canonical = name
  · rw [hsame, get_set_self, get_set_self]
  · rw [get_set_of_ne _ _ hsame, get_set_of_ne _ _ hsame]
    exact h p hp hsecret hne

/-- What the resolution of a configuration keeps: its type, what a fleet has in common, and the
fields that it does not assign. -/
structure Keeps (f : CdmConfig → CdmConfig) : Prop where
  wellTyped : ∀ {config : CdmConfig}, config.WellTyped → (f config).WellTyped
  sameFleet : ∀ {config config' : CdmConfig}, config.SameFleet config' →
    (f config).SameFleet (f config')
  node : ∀ config : CdmConfig, (f config).get "cluster.node_id" = config.get "cluster.node_id"
  secret : ∀ config : CdmConfig, ∀ p ∈ secrets,
    (f config).get p.canonical = config.get p.canonical

theorem Keeps.comp {f g : CdmConfig → CdmConfig} (hf : Keeps f) (hg : Keeps g) :
    Keeps fun config => g (f config) where
  wellTyped h := hg.wellTyped (hf.wellTyped h)
  sameFleet h := hg.sameFleet (hf.sameFleet h)
  node config := (hg.node _).trans (hf.node config)
  secret config p hp := (hg.secret _ p hp).trans (hf.secret config p hp)

/-- The name of a property that is no credential is not that of a credential. -/
theorem secret_ne {name : String} {kind : PropertyKind} (hname : Declares name kind)
    {p : PropertyMeta} (hp : p ∈ secrets) : p.canonical ≠ name := by
  obtain ⟨q, hq, rfl, -, hplain⟩ := hname
  obtain ⟨hall, hsecret⟩ := mem_filter.1 hp
  intro heq
  rw [eq_of_canonical hall hq heq, hplain] at hsecret
  cases hsecret

theorem keeps_resolveTarget : Keeps resolveTarget where
  wellTyped {config} h := by
    rw [resolveTarget]
    split_ifs
    · refine h.set declares_target ?_
      obtain ⟨q, hq, hname, hkind, -⟩ := declares_origin
      obtain ⟨value, hvalue, hfits⟩ := h q hq
      rw [hname] at hvalue
      rw [hkind] at hfits
      rwa [hvalue]
    · exact h
  sameFleet {config config'} h := by
    have htarget := h.get declares_target (by decide)
    have horigin := h.get declares_origin (by decide)
    have htext : config.text "schema.target.keyspace_table" =
        config'.text "schema.target.keyspace_table" := by
      rw [text, text, htarget]
    rw [resolveTarget, resolveTarget, htext, horigin]
    split_ifs
    · exact h.set _ _
    · exact h
  node config := by
    rw [resolveTarget]
    split_ifs
    · exact get_set_of_ne _ _ (by decide)
    · rfl
  secret config p hp := by
    rw [resolveTarget]
    split_ifs
    · exact get_set_of_ne _ _ (secret_ne declares_target hp)
    · rfl

theorem keeps_resolveAutomatic {list automatic : String} (hlist : Declares list .list)
    (hautomatic : Declares automatic .bool) (hlist' : list ≠ "cluster.node_id")
    (hautomatic' : "cluster.node_id" ≠ automatic) :
    Keeps fun config => config.resolveAutomatic list automatic where
  wellTyped {config} h := by
    rw [resolveAutomatic]
    split_ifs
    · exact h.set hautomatic rfl
    · exact h
  sameFleet {config config'} h := by
    have hnames : config.names list = config'.names list := by
      rw [names, names, h.get hlist hlist']
    rw [resolveAutomatic, resolveAutomatic, hnames]
    split_ifs
    · exact h.set _ _
    · exact h
  node config := by
    rw [resolveAutomatic]
    split_ifs
    · exact get_set_of_ne _ _ hautomatic'
    · rfl
  secret config p hp := by
    rw [resolveAutomatic]
    split_ifs
    · exact get_set_of_ne _ _ (secret_ne hautomatic hp)
    · rfl

theorem keeps_resolve : Keeps resolve :=
  (keeps_resolveTarget.comp (keeps_resolveAutomatic declares_ttl_names declares_ttl_automatic
    (by decide) (by decide))).comp (keeps_resolveAutomatic declares_writetime_names
      declares_writetime_automatic (by decide) (by decide))

end CdmConfig

/-! ### Joining -/

namespace EffectiveConfig

/-- The hexadecimal digits of a number determine it. -/
theorem mod_pow_eq_of_digits {n m k : ℕ} (h : ∀ i < k, n / 16 ^ i % 16 = m / 16 ^ i % 16) :
    n % 16 ^ k = m % 16 ^ k := by
  induction k with
  | zero => simp [Nat.mod_one]
  | succ k ih =>
    rw [Nat.mod_pow_succ, Nat.mod_pow_succ, ih fun i hi => h i (by omega), h k (by omega)]

theorem hexDigit_inj : ∀ a < 16, ∀ b < 16, Text.hexDigit a = Text.hexDigit b → a = b := by
  decide

/-- A hash is the digest. -/
theorem formatHash_injective : Function.Injective formatHash := by
  intro n m h
  have hlist := congrArg String.toList h
  rw [formatHash, formatHash, String.toList_ofList, String.toList_ofList,
    map_inj_left] at hlist
  have hdigits : ∀ i < 16, n.toNat / 16 ^ i % 16 = m.toNat / 16 ^ i % 16 := by
    intro i hi
    have hdigit := hlist (15 - i) (mem_range.2 (by omega))
    rw [show 15 - (15 - i) = i by omega] at hdigit
    exact hexDigit_inj _ (Nat.mod_lt _ (by decide)) _ (Nat.mod_lt _ (by decide)) hdigit
  have hmod := mod_pow_eq_of_digits hdigits
  have hn : n.toNat < 16 ^ 16 := n.toNat_lt
  have hm : m.toNat < 16 ^ 16 := m.toNat_lt
  rw [Nat.mod_eq_of_lt hn, Nat.mod_eq_of_lt hm] at hmod
  exact UInt64.toNat_inj.1 hmod

/-- A node may join a run that another one has initialised. -/
def Admits (initialiser joining : EffectiveConfig) : Prop :=
  ∀ existing : RunRecord, existing.info = some (configHashPrefix ++ initialiser.configHash) →
    checkConfigHash existing joining.configHash = .ok ()

theorem admits_iff_hash {initialiser joining : EffectiveConfig} :
    Admits initialiser joining ↔ initialiser.configHash = joining.configHash := by
  have hrecorded {existing : RunRecord}
      (h : existing.info = some (configHashPrefix ++ initialiser.configHash)) :
      recordedHash existing.info = some initialiser.configHash := by
    simp [h, recordedHash, String.toList_append, Text.stripPrefix_append]
  constructor
  · intro h
    -- the row of a run that the first node has just created
    let existing : RunRecord :=
      ⟨⟨1⟩, none, ⟨"ks", "tbl"⟩, .migrate, .started, none, none,
        some (configHashPrefix ++ initialiser.configHash)⟩
    have hjoins := Election.recordedHash_of_checkConfigHash (h existing rfl)
    have hinitialised : recordedHash existing.info = some initialiser.configHash := hrecorded rfl
    exact Option.some.inj (hinitialised.symm.trans hjoins)
  · intro heq existing hinfo
    rw [checkConfigHash, hrecorded hinfo]
    simp [heq]

section Fleet

variable [DurationText] {first second : CdmConfig}

theorem serialize_secret (value : Setting) :
    value.serialize .secret = if value = .absent then .null else .string "***" := by
  rw [Setting.serialize]
  split_ifs with hsecret habsent habsent
  · exact absurd habsent hsecret.2
  · rfl
  · rw [habsent]
    rfl
  · exact absurd ⟨rfl, habsent⟩ hsecret

/-- Whether a credential is there is all that is seen of it. -/
theorem serialized_secret_iff (hfirst : first.WellTyped) (hsecond : second.WellTyped)
    {p : PropertyMeta} (hp : p ∈ secrets) :
    p.serialized first = p.serialized second ↔
      (first.get p.canonical = some .absent ↔ second.get p.canonical = some .absent) := by
  have hkind := kind_of_mem_secrets p hp
  obtain ⟨value, hvalue, -⟩ := hfirst p (mem_filter.1 hp).1
  obtain ⟨value', hvalue', -⟩ := hsecond p (mem_filter.1 hp).1
  rw [PropertyMeta.serialized, PropertyMeta.serialized, hvalue, hvalue', hkind]
  simp only [Option.getD_some, serialize_secret, Option.some_inj]
  by_cases h : value = .absent <;> by_cases h' : value' = .absent <;> simp [h, h']

omit [DurationText] in
/-- A value of a field of text. -/
theorem fits_string {value : Setting} (h : value.fits .string = true) :
    value = .absent ∨ ∃ text, value = .text text := by
  cases value with
  | absent => exact .inl rfl
  | text text => exact .inr ⟨text, rfl⟩
  | _ => simp [Setting.fits] at h

/-- The name of a node is seen. -/
theorem serialized_nodeId_iff (hfirst : first.WellTyped) (hsecond : second.WellTyped)
    {p : PropertyMeta} (hp : p ∈ PropertyRegistry.all) (hname : p.canonical = "cluster.node_id") :
    p.serialized first = p.serialized second ↔
      first.text "cluster.node_id" = second.text "cluster.node_id" := by
  have hkind : p.kind = .string := by
    obtain ⟨q, hq, hname', hkind, -⟩ := declares_nodeId
    rw [eq_of_canonical hp hq (hname.trans hname'.symm), hkind]
  obtain ⟨value, hvalue, hfits⟩ := hfirst p hp
  obtain ⟨value', hvalue', hfits'⟩ := hsecond p hp
  rw [hkind] at hfits hfits'
  rw [PropertyMeta.serialized, PropertyMeta.serialized, hkind, hvalue, hvalue', CdmConfig.text,
    CdmConfig.text, ← hname, hvalue, hvalue']
  rcases fits_string hfits with rfl | ⟨text, rfl⟩ <;>
    rcases fits_string hfits' with rfl | ⟨text', rfl⟩ <;>
    simp [Setting.serialize, Setting.serializeValue]

/-- The texts of the configurations of one fleet. -/
theorem hashInput_resolve_eq_iff (hfirst : first.WellTyped) (hsecond : second.WellTyped)
    (hfleet : first.SameFleet second) :
    hashInput first.resolve = hashInput second.resolve ↔
      first.text "cluster.node_id" = second.text "cluster.node_id" ∧
        ∀ p ∈ secrets,
          (first.get p.canonical = some .absent ↔ second.get p.canonical = some .absent) := by
  have hkeeps := CdmConfig.keeps_resolve
  have hfirst' := hkeeps.wellTyped hfirst
  have hsecond' := hkeeps.wellTyped hsecond
  have htext (config : CdmConfig) :
      config.resolve.text "cluster.node_id" = config.text "cluster.node_id" := by
    rw [CdmConfig.text, CdmConfig.text, hkeeps.node config]
  rw [hashInput_eq_iff hfirst' hsecond']
  constructor
  · intro h
    constructor
    · obtain ⟨p, hp, hname, -⟩ := declares_nodeId
      have hnode := (serialized_nodeId_iff hfirst' hsecond' hp hname).1 (h p hp)
      rwa [htext, htext] at hnode
    · intro p hp
      have hsecret := (serialized_secret_iff hfirst' hsecond' hp).1 (h p (mem_filter.1 hp).1)
      rwa [hkeeps.secret first p hp, hkeeps.secret second p hp] at hsecret
  · rintro ⟨hnode, hsecrets⟩ p hp
    cases hsecret : p.secret with
    | true =>
      have hmem : p ∈ secrets := mem_filter.2 ⟨hp, hsecret⟩
      rw [serialized_secret_iff hfirst' hsecond' hmem, hkeeps.secret first p hmem,
        hkeeps.secret second p hmem]
      exact hsecrets p hmem
    | false =>
      by_cases hname : p.canonical = "cluster.node_id"
      · rw [serialized_nodeId_iff hfirst' hsecond' hp hname, htext, htext]
        exact hnode
      · rw [PropertyMeta.serialized, PropertyMeta.serialized,
          hkeeps.sameFleet hfleet p hp hsecret hname]

/-- Nodes whose texts have different digests do not admit each other. -/
theorem not_admits (digest : String → UInt64) {machine machine' : Machine}
    (h : digest (hashInput first.resolve) ≠ digest (hashInput second.resolve)) :
    ¬Admits (resolve digest machine first) (resolve digest machine' second) :=
  fun hadmits => h (formatHash_injective (admits_iff_hash.1 hadmits))

/-- Nodes admit each other whatever the digest is when the texts are the same. -/
theorem forall_admits_iff {machine machine' : Machine} :
    (∀ digest, Admits (resolve digest machine first) (resolve digest machine' second) ∧
      Admits (resolve digest machine' second) (resolve digest machine first)) ↔
      hashInput first.resolve = hashInput second.resolve := by
  constructor
  · intro h
    by_contra hne
    -- a digest that tells the texts apart
    refine not_admits (fun text => if text = hashInput first.resolve then 0 else 1) ?_ (h _).1
    rw [if_pos rfl, if_neg (Ne.symm hne)]
    decide
  · intro heq digest
    have hhash : hash digest first.resolve = hash digest second.resolve := by
      rw [hash, hash, heq]
    exact ⟨admits_iff_hash.2 hhash, admits_iff_hash.2 hhash.symm⟩

/-- **Which nodes of a fleet may join each other.**  Nodes whose configurations differ in credentials
and in the identity of the node only are admitted by each other, whatever the digest, if and only if
they are given the same identity, or none, and have the same optional credentials.  And what any
property serialises as can be told from the text that is hashed. -/
theorem admits_iff (hfirst : first.WellTyped) (hsecond : second.WellTyped)
    (machine machine' : Machine) :
    (first.SameFleet second →
      ((∀ digest, Admits (resolve digest machine first) (resolve digest machine' second) ∧
        Admits (resolve digest machine' second) (resolve digest machine first)) ↔
      first.text "cluster.node_id" = second.text "cluster.node_id" ∧
        ∀ p ∈ secrets,
          (first.get p.canonical = some .absent ↔ second.get p.canonical = some .absent))) ∧
    (∀ digest : String → UInt64,
      digest (hashInput first.resolve) ≠ digest (hashInput second.resolve) →
        ¬Admits (resolve digest machine first) (resolve digest machine' second)) ∧
    ∀ p ∈ PropertyRegistry.all, p.serialized first.resolve ≠ p.serialized second.resolve →
      hashInput first.resolve ≠ hashInput second.resolve := by
  refine ⟨fun hfleet => ?_, fun digest h => not_admits digest h, fun p hp hne heq => ?_⟩
  · rw [forall_admits_iff, hashInput_resolve_eq_iff hfirst hsecond hfleet]
  · have hkeeps := CdmConfig.keeps_resolve
    exact hne ((hashInput_eq_iff (hkeeps.wellTyped hfirst) (hkeeps.wellTyped hsecond)).1 heq p hp)

end Fleet

/-! ### Two nodes -/

namespace FleetSample

/-- Durations of whole minutes, seconds or milliseconds. -/
local instance durationText : DurationText where
  format nanos :=
    if nanos % 60000000000 = 0 then toString (nanos / 60000000000) ++ "m"
    else if nanos % 1000000000 = 0 then toString (nanos / 1000000000) ++ "s"
    else toString (nanos / 1000000) ++ "ms"

def machine : Machine where
  cpus := 8
  hostname := some "db-1"
  computername := none
  pid := 4711

def named (nodeId : String) : CdmConfig := CdmConfig.default.set "cluster.node_id" (.text nodeId)

theorem wellTyped_named (nodeId : String) : (named nodeId).WellTyped :=
  CdmConfig.wellTyped_default.set declares_nodeId rfl

/-- Two nodes that are given the names that the lease protocol asks for. -/
theorem named_not_admitted :
    (named "a").WellTyped ∧ (named "b").WellTyped ∧ (named "a").SameFleet (named "b") ∧
    hashInput (named "a").resolve ≠ hashInput (named "b").resolve ∧
    ∀ digest : String → UInt64,
      digest (hashInput (named "a").resolve) ≠ digest (hashInput (named "b").resolve) →
        ¬Admits (resolve digest machine (named "a")) (resolve digest machine (named "b")) := by
  have hfleet : (named "a").SameFleet (named "b") := by
    intro p _ _ hne
    rw [named, named, CdmConfig.get_set_of_ne _ _ hne, CdmConfig.get_set_of_ne _ _ hne]
  refine ⟨wellTyped_named "a", wellTyped_named "b", hfleet, ?_, fun digest h => not_admits digest h⟩
  rw [Ne, hashInput_resolve_eq_iff (wellTyped_named "a") (wellTyped_named "b") hfleet]
  rintro ⟨hnode, -⟩
  simp [named, CdmConfig.text] at hnode

/-- A node with a password of its own. -/
def ownPassword : CdmConfig := CdmConfig.default.set "connect.origin.password" (.text "hunter2")

theorem exists_password : ∃ p ∈ PropertyRegistry.all, p.canonical = "connect.origin.password" ∧
    p.kind = .secret ∧ p.secret = true ∧ p.default ≠ .absent := by
  have hfacts : (ConfigModel.cdmConfig.member {} ["connect", "origin", "password"]).any
      (fun p => p.canonical = "connect.origin.password" ∧ p.kind = .secret ∧ p.secret = true ∧
        p.default ≠ .absent) = true := by
    decide
  obtain ⟨p, hp, hfacts⟩ := exists_member hfacts
  exact ⟨p, hp, of_decide_eq_true hfacts⟩

/-- A digest. -/
def digest (text : String) : UInt64 := text.toList.foldl (fun n c => 31 * n + c.toNat.toUInt64) 7

/-- Two nodes with passwords of their own are admitted. -/
theorem passwords_admitted :
    Admits (resolve digest machine CdmConfig.default) (resolve digest machine ownPassword) ∧
    Admits (resolve digest machine ownPassword) (resolve digest machine CdmConfig.default) := by
  obtain ⟨q, hq, hname, hkind, hsecret, hdefault⟩ := exists_password
  have htyped : ownPassword.WellTyped := by
    intro p hp
    by_cases hsame : p.canonical = "connect.origin.password"
    · rw [eq_of_canonical hp hq (hsame.trans hname.symm), hkind, hname]
      exact ⟨_, CdmConfig.get_set_self _ _ _, rfl⟩
    · rw [ownPassword, CdmConfig.get_set_of_ne _ _ hsame]
      exact CdmConfig.wellTyped_default p hp
  have hfleet : CdmConfig.default.SameFleet ownPassword := by
    intro p hp hplain _
    rw [ownPassword, CdmConfig.get_set_of_ne]
    intro hsame
    rw [eq_of_canonical hp hq (hsame.trans hname.symm), hsecret] at hplain
    cases hplain
  refine ((EffectiveConfig.admits_iff CdmConfig.wellTyped_default htyped machine machine).1 hfleet).2
    ⟨?_, fun p hp => ?_⟩ digest
  · rw [CdmConfig.text, CdmConfig.text, ownPassword, CdmConfig.get_set_of_ne _ _ (by decide)]
  · by_cases hsame : p.canonical = "connect.origin.password"
    · have hpq := eq_of_canonical (mem_filter.1 hp).1 hq
        (hsame.trans hname.symm)
      rw [hpq, CdmConfig.get_default hq, hname, ownPassword, CdmConfig.get_set_self]
      simp [hdefault]
    · rw [ownPassword, CdmConfig.get_set_of_ne _ _ hsame]

end FleetSample

end EffectiveConfig

end Cdm
