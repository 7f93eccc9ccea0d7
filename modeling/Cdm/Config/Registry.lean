import Cdm.Feature.Literal
import Mathlib.Data.List.Sort
import Mathlib.Data.List.Dedup
import Mathlib.Data.Rat.Init

/-!
# The configuration model and its property registry

Every configuration property is declared once, as a field of a Rust struct.  A `Struct` is such a
declaration: its fields, and the sections nested in it.  Walking the tree of them yields the
registry, one `PropertyMeta` a property, which untyped sources of configuration are resolved
against.  Of what a declaration says, only the documentation (unit, example, stability, text) is
left out: no function here reads it.

What comes from outside the repository is in `ConfigCrates`: reading a floating-point number,
comparing two names, reading a document, and the `Deserialize` of one field.
-/

namespace Cdm

open List

/-- The kind of value a property accepts. -/
inductive PropertyKind
  | bool
  | integer
  | bigInteger
  | float
  | string
  | path
  | secret
  | list
  | duration
  | enum (variants : List String)
  | socket
  | uuid
  | regex
  | timeZone
  | url
  deriving DecidableEq

/-- A value that a field of the model holds. -/
inductive Setting
  | absent
  | flag (value : Bool)
  | integer (value : ℤ)
  | float (text : String)
  | text (value : String)
  | names (items : List String)
  | duration (nanos : ℕ)
  deriving DecidableEq

/-- `DurationSetting::from_secs`. -/
def Setting.fromSecs (secs : ℕ) : Setting := .duration (secs * 1000000000)

/-- `DurationSetting::from_millis`. -/
def Setting.fromMillis (millis : ℕ) : Setting := .duration (millis * 1000000)

/-- One row of the property registry. -/
structure PropertyMeta where
  canonical : String
  legacy : List String
  kind : PropertyKind
  secret : Bool
  default : Setting
  deriving DecidableEq

/-- What becomes of a text that should be a floating-point number. -/
inductive FloatText
  | invalid
  | notFinite
  | finite (number : String)

/-- The formats of structured configuration files. -/
inductive DocumentFormat
  | toml
  | yaml
  | json
  deriving DecidableEq

/-- What the configuration uses of the crates it is built on. -/
class ConfigCrates where
  /-- `str::parse::<f64>`, and the JSON number of the result. -/
  parseF64 : List Char → FloatText
  /-- `strsim::normalized_levenshtein`. -/
  normalizedLevenshtein : String → String → ℚ
  /-- A document, or what the parser says is wrong with it. -/
  fromStr : DocumentFormat → String → Except String JsonValue
  /-- The `Deserialize` of the type of one field. -/
  deserialize : PropertyMeta → JsonValue → Option Setting
  /-- What `serde_json::from_value` says of a tree that it cannot read. -/
  invalidTree : JsonValue → String

namespace PropertyKind

variable [ConfigCrates]

/-- Coerces a raw string from an untyped source into the JSON value the model expects. -/
def coerce (kind : PropertyKind) (raw : String) : Except String JsonValue :=
  let trimmed := Text.trim raw.toList
  let found := String.ofList trimmed
  match kind with
  | bool =>
    let word := String.ofList (Text.toLower trimmed)
    if word ∈ ["true", "yes", "on", "1"] then .ok (.bool true)
    else if word ∈ ["false", "no", "off", "0"] then .ok (.bool false)
    else .error ("expected a boolean, found `" ++ found ++ "`")
  | integer =>
    match Text.parseI64 trimmed with
    | some n => .ok (.number (toString n))
    | none => .error ("expected a whole number, found `" ++ found ++ "`")
  | bigInteger =>
    match Text.parseI128 trimmed with
    | some n => .ok (.string (toString n))
    | none => .error ("expected a whole number, found `" ++ found ++ "`")
  | float =>
    match ConfigCrates.parseF64 trimmed with
    | .invalid => .error ("expected a number, found `" ++ found ++ "`")
    | .notFinite => .error ("`" ++ found ++ "` is not a finite number")
    | .finite number => .ok (.number number)
  | list =>
    if trimmed = [] then .error "a list property may not be set to an empty value"
    else .ok (.array ((Text.splitOn ',' trimmed).map fun item =>
      .string (String.ofList (Text.trim item))))
  | enum variants =>
    match variants.find? fun variant => Text.toLower variant.toList = Text.toLower trimmed with
    | some variant => .ok (.string variant)
    | none => .error ("expected one of " ++ ", ".intercalate variants ++ ", found `" ++ found ++ "`")
  | string | path | secret | duration | socket | uuid | regex | timeZone | url => .ok (.string raw)

end PropertyKind

/-! ### The struct tree -/

/-- Where in the struct tree a set of properties sits: the canonical name of the section, and what
`side` stands for in legacy names. -/
structure MetaContext where
  pre : String := ""
  side : Option String := none

namespace MetaContext

/-- The canonical name of a property in this section. -/
def canonical (ctx : MetaContext) (key : String) : String :=
  if ctx.pre = "" then key else ctx.pre ++ "." ++ key

/-- The context of a nested section. -/
def child (ctx : MetaContext) (key : String) (side : Option String) : MetaContext where
  pre := if ctx.pre = "" then key else ctx.pre ++ "." ++ key
  side := side <|> ctx.side

/-- Substitutes the side in a legacy alias template. -/
def expand (ctx : MetaContext) (template : String) : String :=
  match ctx.side with
  | some side => String.ofList (Text.replace "\x7bside\x7d".toList side.toList template.toList)
  | none => template

end MetaContext

/-- The literal facts a field declaration supplies. -/
structure PropertySpec where
  key : String
  legacy : List String := []
  kind : PropertyKind
  secret : Bool := false
  default : Setting

/-- A registry row, from a declaration and where it stands. -/
def PropertyMeta.build (ctx : MetaContext) (spec : PropertySpec) : PropertyMeta where
  canonical := ctx.canonical spec.key
  legacy := spec.legacy.map ctx.expand
  kind := spec.kind
  secret := spec.secret
  default := spec.default

/-- A configuration struct: the members that are left, fields before nested sections. -/
inductive Struct
  | done
  | field (spec : PropertySpec) (rest : Struct)
  | nested (key : String) (side : Option String) (inner rest : Struct)

namespace Struct

/-- The struct with these fields and sections; a section may rebind the side. -/
def of (fields : List PropertySpec) (sections : List (String × Option String × Struct)) : Struct :=
  fields.foldr field (sections.foldr (fun s => nested s.1 s.2.1 s.2.2) done)

/-- The registry rows of a struct. -/
def properties (ctx : MetaContext) : Struct → List PropertyMeta
  | done => []
  | field spec rest => .build ctx spec :: rest.properties ctx
  | nested key side inner rest => inner.properties (ctx.child key side) ++ rest.properties ctx

/-- The names of the members of a struct, as they stand in a document. -/
def keys : Struct → List String
  | done => []
  | field spec rest => spec.key :: rest.keys
  | nested key _ _ rest => key :: rest.keys

end Struct

/-! ### The model -/

namespace ConfigModel

def scbTypeVariants : List String := ["default", "custom"]
def astraModeVariants : List String := ["sni", "single_endpoint"]
def trustStoreTypeVariants : List String := ["JKS", "PKCS12", "PEM"]
def reportFormatVariants : List String := ["none", "json", "ndjson", "csv"]
def consistencyLevelVariants : List String :=
  ["ANY", "ONE", "TWO", "THREE", "QUORUM", "LOCAL_ONE", "LOCAL_QUORUM", "EACH_QUORUM", "SERIAL",
    "LOCAL_SERIAL", "ALL"]
def batchGroupingVariants : List String := ["strict", "legacy"]
def guardrailModeVariants : List String := ["check", "warn", "block"]
def authModeVariants : List String := ["none", "bearer", "mtls"]
def eventSinkVariants : List String := ["none", "stdout_json", "file"]
def planStrategyVariants : List String := ["fixed", "ring_aware", "adaptive"]
def logFormatVariants : List String := ["pretty", "json", "compact"]

def astra : Struct :=
  .of
    [ { key := "database_id", legacy := ["spark.cdm.connect.\x7bside\x7d.astra.database.id"],
        kind := .uuid, default := .absent },
      { key := "scb_type", legacy := ["spark.cdm.connect.\x7bside\x7d.astra.scb.type"],
        kind := .enum scbTypeVariants, default := .text "default" },
      { key := "region", legacy := ["spark.cdm.connect.\x7bside\x7d.astra.scb.region"],
        kind := .string, default := .absent },
      { key := "custom_domain",
        legacy := ["spark.cdm.connect.\x7bside\x7d.astra.scb.custom.domain"], kind := .string,
        default := .absent },
      { key := "mode", kind := .enum astraModeVariants, default := .text "sni" },
      { key := "metadata_refresh_interval", kind := .duration, default := .fromSecs 300 } ]
    []

def speculative : Struct :=
  .of
    [ { key := "enabled", kind := .bool, default := .flag false },
      { key := "delay", kind := .duration, default := .fromMillis 200 },
      { key := "max_executions", kind := .integer, default := .integer 2 } ]
    []

def trustStore : Struct :=
  .of
    [ { key := "path", legacy := ["spark.cdm.connect.\x7bside\x7d.tls.trustStore.path"],
        kind := .path, default := .absent },
      { key := "password", legacy := ["spark.cdm.connect.\x7bside\x7d.tls.trustStore.password"],
        kind := .secret, secret := true, default := .absent },
      { key := "type", legacy := ["spark.cdm.connect.\x7bside\x7d.tls.trustStore.type"],
        kind := .enum trustStoreTypeVariants, default := .text "JKS" } ]
    []

def keyStore : Struct :=
  .of
    [ { key := "path", legacy := ["spark.cdm.connect.\x7bside\x7d.tls.keyStore.path"],
        kind := .path, default := .absent },
      { key := "password", legacy := ["spark.cdm.connect.\x7bside\x7d.tls.keyStore.password"],
        kind := .secret, secret := true, default := .absent } ]
    []

def tls : Struct :=
  .of
    [ { key := "enabled", legacy := ["spark.cdm.connect.\x7bside\x7d.tls.enabled"], kind := .bool,
        default := .flag false },
      { key := "cipher_suites", legacy := ["spark.cdm.connect.\x7bside\x7d.tls.enabledAlgorithms"],
        kind := .list,
        default := .names ["TLS_RSA_WITH_AES_128_CBC_SHA", "TLS_RSA_WITH_AES_256_CBC_SHA"] },
      { key := "is_astra", legacy := ["spark.cdm.connect.\x7bside\x7d.tls.isAstra"], kind := .bool,
        default := .flag false } ]
    [ ("truststore", none, trustStore),
      ("keystore", none, keyStore) ]

def sideConnect : Struct :=
  .of
    [ { key := "host", legacy := ["spark.cdm.connect.\x7bside\x7d.host"], kind := .string,
        default := .text "localhost" },
      { key := "port", legacy := ["spark.cdm.connect.\x7bside\x7d.port"], kind := .integer,
        default := .integer 9042 },
      { key := "scb", legacy := ["spark.cdm.connect.\x7bside\x7d.scb"], kind := .path,
        default := .absent },
      { key := "username", legacy := ["spark.cdm.connect.\x7bside\x7d.username"], kind := .string,
        default := .text "cassandra" },
      { key := "password", legacy := ["spark.cdm.connect.\x7bside\x7d.password"], kind := .secret,
        secret := true, default := .text "cassandra" },
      { key := "local_datacenter", kind := .string, default := .absent } ]
    [ ("astra", none, astra),
      ("speculative", none, speculative),
      ("tls", none, tls) ]

def connect : Struct :=
  .of
    []
    [ ("origin", some "origin", sideConnect),
      ("target", some "target", sideConnect) ]

def ttlColumns : Struct :=
  .of
    [ { key := "automatic", legacy := ["spark.cdm.schema.origin.column.ttl.automatic"],
        kind := .bool, default := .flag true },
      { key := "names", legacy := ["spark.cdm.schema.origin.column.ttl.names"], kind := .list,
        default := .names [] } ]
    []

def writetimeColumns : Struct :=
  .of
    [ { key := "automatic", legacy := ["spark.cdm.schema.origin.column.writetime.automatic"],
        kind := .bool, default := .flag true },
      { key := "names", legacy := ["spark.cdm.schema.origin.column.writetime.names"],
        kind := .list, default := .names [] } ]
    []

def originColumns : Struct :=
  .of
    [ { key := "skip", legacy := ["spark.cdm.schema.origin.column.skip"], kind := .list,
        default := .names [] },
      { key := "rename", legacy := ["spark.cdm.schema.origin.column.names.to.target"],
        kind := .list, default := .names [] } ]
    []

def originSchema : Struct :=
  .of
    [ { key := "keyspace_table", legacy := ["spark.cdm.schema.origin.keyspaceTable"],
        kind := .string, default := .absent } ]
    [ ("ttl", none, ttlColumns),
      ("writetime", none, writetimeColumns),
      ("column", none, originColumns) ]

def targetSchema : Struct :=
  .of
    [ { key := "keyspace_table", legacy := ["spark.cdm.schema.target.keyspaceTable"],
        kind := .string, default := .absent } ]
    []

def ttlWritetime : Struct :=
  .of
    [ { key := "use_collections", legacy := ["spark.cdm.schema.ttlwritetime.calc.useCollections"],
        kind := .bool, default := .flag false } ]
    []

def schemaSettings : Struct :=
  .of
    []
    [ ("origin", none, originSchema),
      ("target", none, targetSchema),
      ("ttl_writetime", none, ttlWritetime) ]

def autocorrect : Struct :=
  .of
    [ { key := "missing", legacy := ["spark.cdm.autocorrect.missing"], kind := .bool,
        default := .flag false },
      { key := "mismatch", legacy := ["spark.cdm.autocorrect.mismatch"], kind := .bool,
        default := .flag false },
      { key := "missing_counter", legacy := ["spark.cdm.autocorrect.missing.counter"],
        kind := .bool, default := .flag false } ]
    []

def validateReport : Struct :=
  .of
    [ { key := "format", kind := .enum reportFormatVariants, default := .text "none" },
      { key := "path", kind := .path, default := .text "cdm_logs/cdm_discrepancies.json" },
      { key := "redact_values", kind := .bool, default := .flag true } ]
    []

def validate : Struct :=
  .of
    [ { key := "keys_only", kind := .bool, default := .flag false } ]
    [ ("report", none, validateReport) ]

def trackRun : Struct :=
  .of
    [ { key := "enabled", legacy := ["spark.cdm.trackRun"], kind := .bool, default := .flag false },
      { key := "run_id", legacy := ["spark.cdm.trackRun.runId"], kind := .integer,
        default := .integer 0 },
      { key := "previous_run_id", legacy := ["spark.cdm.trackRun.previousRunId"], kind := .integer,
        default := .integer 0 },
      { key := "auto_rerun", legacy := ["spark.cdm.trackRun.autoRerun"], kind := .bool,
        default := .flag false },
      { key := "rerun_multiplier", legacy := ["spark.cdm.trackRun.rerunMultiplier"],
        kind := .integer, default := .integer 1 } ]
    []

def rateLimit : Struct :=
  .of
    [ { key := "origin", legacy := ["spark.cdm.perfops.ratelimit.origin"], kind := .integer,
        default := .integer 20000 },
      { key := "target", legacy := ["spark.cdm.perfops.ratelimit.target"], kind := .integer,
        default := .integer 20000 } ]
    []

def consistency : Struct :=
  .of
    [ { key := "read", legacy := ["spark.cdm.perfops.consistency.read"],
        kind := .enum consistencyLevelVariants, default := .text "LOCAL_QUORUM" },
      { key := "write", legacy := ["spark.cdm.perfops.consistency.write"],
        kind := .enum consistencyLevelVariants, default := .text "LOCAL_QUORUM" } ]
    []

def retry : Struct :=
  .of
    [ { key := "max_attempts", kind := .integer, default := .integer 5 },
      { key := "initial_backoff", kind := .duration, default := .fromMillis 100 },
      { key := "max_backoff", kind := .duration, default := .fromSecs 10 } ]
    []

def perfOps : Struct :=
  .of
    [ { key := "num_parts", legacy := ["spark.cdm.perfops.numParts"], kind := .integer,
        default := .integer 5000 },
      { key := "batch_size", legacy := ["spark.cdm.perfops.batchSize"], kind := .integer,
        default := .integer 5 },
      { key := "batch_grouping", kind := .enum batchGroupingVariants, default := .text "strict" },
      { key := "fetch_size", legacy := ["spark.cdm.perfops.fetchSizeInRows"], kind := .integer,
        default := .integer 1000 },
      { key := "error_limit", legacy := ["spark.cdm.perfops.errorLimit"], kind := .integer,
        default := .integer 0 },
      { key := "workers", kind := .integer, default := .absent },
      { key := "max_inflight_writes", kind := .integer, default := .integer 2000 },
      { key := "max_inflight_reads", kind := .integer, default := .integer 256 },
      { key := "request_timeout", kind := .duration, default := .fromSecs 30 },
      { key := "connection_pool_size", kind := .integer, default := .integer 4 },
      { key := "adaptive_ratelimit", kind := .bool, default := .flag false },
      { key := "adaptive_ratelimit_min_percent", kind := .integer, default := .integer 10 },
      { key := "shutdown_grace", kind := .duration, default := .fromSecs 60 } ]
    [ ("ratelimit", none, rateLimit),
      ("consistency", none, consistency),
      ("retry", none, retry) ]

def transform : Struct :=
  .of
    [ { key := "missing_key_ts_replace",
        legacy := ["spark.cdm.transform.missing.key.ts.replace.value"], kind := .integer,
        default := .absent },
      { key := "custom_writetime", legacy := ["spark.cdm.transform.custom.writetime"],
        kind := .integer, default := .integer 0 },
      { key := "custom_writetime_increment",
        legacy := ["spark.cdm.transform.custom.writetime.incrementBy"], kind := .integer,
        default := .integer 0 },
      { key := "custom_ttl", legacy := ["spark.cdm.transform.custom.ttl"], kind := .integer,
        default := .integer 0 },
      { key := "codecs", legacy := ["spark.cdm.transform.codecs"], kind := .list,
        default := .names [] },
      { key := "codec_timestamp_format",
        legacy := ["spark.cdm.transform.codecs.timestamp.string.format"], kind := .string,
        default := .text "yyyyMMddHHmmss" },
      { key := "codec_timestamp_zone",
        legacy := ["spark.cdm.transform.codecs.timestamp.string.zone"], kind := .string,
        default := .text "UTC" },
      { key := "map_remove_null_value", legacy := ["spark.cdm.transform.map.remove.null.value"],
        kind := .bool, default := .flag false } ]
    []

def tokenFilter : Struct :=
  .of
    [ { key := "min", legacy := ["spark.cdm.filter.cassandra.partition.min"], kind := .bigInteger,
        default := .absent },
      { key := "max", legacy := ["spark.cdm.filter.cassandra.partition.max"], kind := .bigInteger,
        default := .absent } ]
    []

def writetimeFilter : Struct :=
  .of
    [ { key := "min", legacy := ["spark.cdm.filter.java.writetime.min"], kind := .integer,
        default := .absent },
      { key := "max", legacy := ["spark.cdm.filter.java.writetime.max"], kind := .integer,
        default := .absent } ]
    []

def columnFilter : Struct :=
  .of
    [ { key := "name", legacy := ["spark.cdm.filter.java.column.name"], kind := .string,
        default := .absent },
      { key := "value", legacy := ["spark.cdm.filter.java.column.value"], kind := .string,
        default := .absent } ]
    []

def filter : Struct :=
  .of
    [ { key := "cql_where", legacy := ["spark.cdm.filter.cassandra.whereCondition"],
        kind := .string, default := .absent },
      { key := "token_coverage_percent", legacy := ["spark.cdm.filter.java.token.percent"],
        kind := .integer, default := .integer 100 } ]
    [ ("token", none, tokenFilter),
      ("writetime", none, writetimeFilter),
      ("column", none, columnFilter) ]

def constantColumns : Struct :=
  .of
    [ { key := "names", legacy := ["spark.cdm.feature.constantColumns.names"], kind := .list,
        default := .names [] },
      { key := "values", legacy := ["spark.cdm.feature.constantColumns.values"], kind := .string,
        default := .absent },
      { key := "split_regex", legacy := ["spark.cdm.feature.constantColumns.splitRegex"],
        kind := .string, default := .text "," } ]
    []

def explodeMap : Struct :=
  .of
    [ { key := "origin_column", legacy := ["spark.cdm.feature.explodeMap.origin.name"],
        kind := .string, default := .absent },
      { key := "target_key_column", legacy := ["spark.cdm.feature.explodeMap.target.name.key"],
        kind := .string, default := .absent },
      { key := "target_value_column", legacy := ["spark.cdm.feature.explodeMap.target.name.value"],
        kind := .string, default := .absent } ]
    []

def extractJson : Struct :=
  .of
    [ { key := "origin_column", legacy := ["spark.cdm.feature.extractJson.originColumn"],
        kind := .string, default := .absent },
      { key := "property_mapping", legacy := ["spark.cdm.feature.extractJson.propertyMapping"],
        kind := .string, default := .absent },
      { key := "overwrite", legacy := ["spark.cdm.feature.extractJson.overwrite"], kind := .bool,
        default := .flag false },
      { key := "exclusive", legacy := ["spark.cdm.feature.extractJson.exclusive"], kind := .bool,
        default := .flag false } ]
    []

def guardrail : Struct :=
  .of
    [ { key := "column_size_kb", legacy := ["spark.cdm.feature.guardrail.colSizeInKB"],
        kind := .float, default := .float "0.0" },
      { key := "mode", kind := .enum guardrailModeVariants, default := .text "check" } ]
    []

def feature : Struct :=
  .of
    []
    [ ("constant_columns", none, constantColumns),
      ("explode_map", none, explodeMap),
      ("extract_json", none, extractJson),
      ("guardrail", none, guardrail) ]

def auth : Struct :=
  .of
    [ { key := "mode", kind := .enum authModeVariants, default := .text "none" } ]
    []

def server : Struct :=
  .of
    [ { key := "enabled", kind := .bool, default := .flag false },
      { key := "bind", kind := .socket, default := .text "127.0.0.1:8080" } ]
    [ ("auth", none, auth) ]

def prometheus : Struct :=
  .of
    [ { key := "enabled", kind := .bool, default := .absent } ]
    []

def otlp : Struct :=
  .of
    [ { key := "endpoint", kind := .string, default := .absent } ]
    []

def events : Struct :=
  .of
    [ { key := "sink", kind := .enum eventSinkVariants, default := .text "none" },
      { key := "path", kind := .path, default := .text "cdm_logs/cdm_events.ndjson" } ]
    []

def metrics : Struct :=
  .of
    []
    [ ("prometheus", none, prometheus),
      ("otlp", none, otlp),
      ("events", none, events) ]

def cluster : Struct :=
  .of
    [ { key := "enabled", kind := .bool, default := .flag false },
      { key := "node_id", kind := .string, default := .absent },
      { key := "lease_duration", kind := .duration, default := .fromSecs 60 },
      { key := "heartbeat_interval", kind := .duration, default := .fromSecs 15 },
      { key := "max_attempts", kind := .integer, default := .integer 3 },
      { key := "ratelimit_is_global", kind := .bool, default := .flag false } ]
    []

def plan : Struct :=
  .of
    [ { key := "strategy", kind := .enum planStrategyVariants, default := .text "fixed" },
      { key := "max_rows_per_range", kind := .integer, default := .integer 1000000 } ]
    []

def logging : Struct :=
  .of
    [ { key := "level", kind := .string, default := .text "info" },
      { key := "format", kind := .enum logFormatVariants, default := .text "pretty" },
      { key := "diff_file", kind := .path, default := .text "cdm_logs/cdm_diff.log" } ]
    []

def cdmConfig : Struct :=
  .of
    []
    [ ("connect", none, connect),
      ("schema", none, schemaSettings),
      ("autocorrect", none, autocorrect),
      ("validate", none, validate),
      ("track_run", none, trackRun),
      ("perfops", none, perfOps),
      ("transform", none, transform),
      ("filter", none, filter),
      ("feature", none, feature),
      ("server", none, server),
      ("metrics", none, metrics),
      ("cluster", none, cluster),
      ("plan", none, plan),
      ("logging", none, logging) ]


end ConfigModel

/-! ### The registry -/

namespace PropertyRegistry

/-- Every property, in declaration order. -/
def all : List PropertyMeta := ConfigModel.cdmConfig.properties {}

/-- Looks a property up by its canonical name; of two with one name the index holds the later. -/
def byCanonical (name : String) : Option PropertyMeta := all.reverse.find? (·.canonical = name)

/-- Looks a property up by a legacy name. -/
def byLegacy (name : String) : Option PropertyMeta := all.reverse.find? (name ∈ ·.legacy)

/-- Looks a property up by either spelling. -/
def resolve (name : String) : Option PropertyMeta := byCanonical name <|> byLegacy name

/-- Every property whose value is a credential. -/
def secrets : List PropertyMeta := all.filter (·.secret)

/-- `0.6`, as the nearest floating-point number. -/
def minimumSimilarity : ℚ := 5404319552844595 / 9007199254740992

variable [ConfigCrates]

/-- The known name closest to `name`, from the same namespace; of several the last in the order of
the index. -/
def closestMatch (name : String) : Option String :=
  let names := if (Text.stripPrefix "spark.".toList name.toList).isSome
    then all.flatMap (·.legacy) else all.map (·.canonical)
  let scored := (names.dedup.insertionSort (· ≤ ·)).map fun candidate =>
    (candidate, ConfigCrates.normalizedLevenshtein name candidate)
  let close := scored.filter fun c => minimumSimilarity ≤ c.2
  (close.foldl (fun (best : Option (String × ℚ)) c =>
    match best with
    | some b => if b.2 ≤ c.2 then some c else some b
    | none => some c) none).map Prod.fst

end PropertyRegistry

/-! ### Names and paths -/

/-- The segments of a dotted name. -/
def segments (name : String) : List String := (Text.splitOn '.' name.toList).map String.ofList

/-- The section of a context, segment by segment. -/
def MetaContext.segments (ctx : MetaContext) : List String :=
  if ctx.pre = "" then [] else Cdm.segments ctx.pre

/-- A name that can be one segment: none of its bytes is a dot. -/
def IsSegment (key : String) : Prop := key ≠ "" ∧ 0x2E ∉ key.toByteArray.data.toList

instance (key : String) : Decidable (IsSegment key) := inferInstanceAs (Decidable (_ ∧ _))

theorem mem_bytes_of_mem_toList {key : String} (h : '.' ∈ key.toList) :
    0x2E ∈ key.toByteArray.data.toList := by
  obtain ⟨chars, rfl⟩ : ∃ chars, key = String.ofList chars :=
    ⟨key.toList, String.ofList_toList.symm⟩
  rw [String.toList_ofList] at h
  have hbyte : 0x2E ∈ String.utf8EncodeChar '.' := by decide
  simpa [List.utf8Encode] using ⟨_, h, hbyte⟩

theorem segments_of_isSegment {key : String} (h : IsSegment key) : segments key = [key] := by
  rw [segments, Text.splitOn_of_not_mem fun hdot => h.2 (mem_bytes_of_mem_toList hdot),
    map_singleton, String.ofList_toList]

theorem segments_dot (a b : String) : segments (a ++ "." ++ b) = segments a ++ segments b := by
  have htext : (a ++ "." ++ b).toList = a.toList ++ '.' :: b.toList := by
    simp [String.toList_append]
  rw [segments, htext, Text.splitOn_append_sep, map_append, segments, segments]

theorem MetaContext.segments_canonical (ctx : MetaContext) {key : String} (h : IsSegment key) :
    Cdm.segments (ctx.canonical key) = ctx.segments ++ [key] := by
  rw [canonical, segments]
  split_ifs
  · exact segments_of_isSegment h
  · rw [segments_dot, segments_of_isSegment h]

theorem MetaContext.segments_child (ctx : MetaContext) {key : String} (h : IsSegment key)
    (side : Option String) : (ctx.child key side).segments = ctx.segments ++ [key] := by
  have hne : (ctx.child key side).pre ≠ "" := by
    intro hnil
    have hlist := congrArg String.toList hnil
    rw [child] at hlist
    split_ifs at hlist
    · exact h.1 (String.toList_inj.1 hlist)
    · simp [String.toList_append] at hlist
  rw [segments, if_neg hne]
  exact ctx.segments_canonical h

/-- Neither of two paths leads through the other. -/
def Incomparable (p q : List String) : Prop := ¬ p <+: q ∧ ¬ q <+: p

theorem Incomparable.symm {p q : List String} (h : Incomparable p q) : Incomparable q p :=
  ⟨h.2, h.1⟩

theorem Incomparable.ne {p q : List String} (h : Incomparable p q) : p ≠ q :=
  fun he => h.1 (he ▸ prefix_rfl)

/-- Paths that part at some point. -/
theorem incomparable_of_ne {k k' : String} (h : k ≠ k') (pre p q : List String) :
    Incomparable (pre ++ k :: p) (pre ++ k' :: q) := by
  constructor <;>
  · rw [prefix_append_right_inj, cons_prefix_cons]
    rintro ⟨heq, -⟩
    simp_all

namespace Struct

/-- The members of every struct of a tree have distinct names without a dot, as the fields of a Rust
struct have. -/
def WellNamed : Struct → Prop
  | done => True
  | field spec rest => IsSegment spec.key ∧ spec.key ∉ rest.keys ∧ rest.WellNamed
  | nested key _ inner rest =>
    IsSegment key ∧ key ∉ rest.keys ∧ inner.WellNamed ∧ rest.WellNamed

instance decidableWellNamed : (s : Struct) → Decidable s.WellNamed
  | done => inferInstanceAs (Decidable True)
  | field _ rest =>
    have := rest.decidableWellNamed
    inferInstanceAs (Decidable (_ ∧ _ ∧ _))
  | nested _ _ inner rest =>
    have := inner.decidableWellNamed
    have := rest.decidableWellNamed
    inferInstanceAs (Decidable (_ ∧ _ ∧ _ ∧ _))

/-- The paths of the fields of a struct. -/
def paths : Struct → List (List String)
  | done => []
  | field spec rest => [spec.key] :: rest.paths
  | nested key _ inner rest => inner.paths.map (key :: ·) ++ rest.paths

/-- The path of a property leads to a field. -/
theorem exists_path {s : Struct} (hs : s.WellNamed) (ctx : MetaContext) {p : PropertyMeta}
    (hp : p ∈ s.properties ctx) :
    ∃ path ∈ s.paths, segments p.canonical = ctx.segments ++ path := by
  induction s generalizing ctx with
  | done => cases hp
  | field spec rest ih =>
    rcases mem_cons.1 hp with rfl | hp
    · exact ⟨_, mem_cons_self, ctx.segments_canonical hs.1⟩
    · obtain ⟨path, hpath, hsegments⟩ := ih hs.2.2 ctx hp
      exact ⟨path, mem_cons_of_mem _ hpath, hsegments⟩
  | nested key side inner rest ihInner ihRest =>
    rcases mem_append.1 hp with hp | hp
    · obtain ⟨path, hpath, hsegments⟩ := ihInner hs.2.2.1 _ hp
      refine ⟨key :: path, mem_append_left _ (mem_map_of_mem hpath), ?_⟩
      rw [hsegments, ctx.segments_child hs.1, append_assoc]
      rfl
    · obtain ⟨path, hpath, hsegments⟩ := ihRest hs.2.2.2 ctx hp
      exact ⟨path, mem_append_right _ hpath, hsegments⟩

/-- A path starts with a member. -/
theorem exists_cons_of_mem_paths {s : Struct} {path : List String} (h : path ∈ s.paths) :
    ∃ key rest, path = key :: rest ∧ key ∈ s.keys := by
  induction s with
  | done => cases h
  | field spec rest ih =>
    rcases mem_cons.1 h with rfl | h
    · exact ⟨spec.key, [], rfl, mem_cons_self⟩
    · obtain ⟨key, tail, rfl, hkey⟩ := ih h
      exact ⟨key, tail, rfl, mem_cons_of_mem _ hkey⟩
  | nested key side inner rest ihInner ihRest =>
    rcases mem_append.1 h with h | h
    · obtain ⟨path, -, rfl⟩ := mem_map.1 h
      exact ⟨key, path, rfl, mem_cons_self⟩
    · obtain ⟨key', tail, rfl, hkey⟩ := ihRest h
      exact ⟨key', tail, rfl, mem_cons_of_mem _ hkey⟩

/-- The name of a property leads through its section, and then through a member. -/
theorem exists_segments {s : Struct} (hs : s.WellNamed) (ctx : MetaContext) {p : PropertyMeta}
    (hp : p ∈ s.properties ctx) :
    ∃ k ∈ s.keys, ∃ rest, segments p.canonical = ctx.segments ++ k :: rest := by
  obtain ⟨path, hpath, hsegments⟩ := exists_path hs ctx hp
  obtain ⟨k, rest, rfl, hk⟩ := exists_cons_of_mem_paths hpath
  exact ⟨k, hk, rest, hsegments⟩

/-- **Names are no prefixes of one another.** -/
theorem pairwise_incomparable {s : Struct} (hs : s.WellNamed) (ctx : MetaContext) :
    (s.properties ctx).Pairwise fun p q =>
      Incomparable (segments p.canonical) (segments q.canonical) := by
  induction s generalizing ctx with
  | done => exact .nil
  | field spec rest ih =>
    refine pairwise_cons.2 ⟨fun q hq => ?_, ih hs.2.2 ctx⟩
    obtain ⟨k, hk, path, hpath⟩ := exists_segments hs.2.2 ctx hq
    have hne : spec.key ≠ k := fun h => hs.2.1 (h ▸ hk)
    rw [hpath, PropertyMeta.build, ctx.segments_canonical hs.1]
    exact incomparable_of_ne hne _ _ _
  | nested key side inner rest ihInner ihRest =>
    refine pairwise_append.2 ⟨ihInner hs.2.2.1 _, ihRest hs.2.2.2 ctx, fun p hp q hq => ?_⟩
    obtain ⟨k', -, path', hpath'⟩ := exists_segments hs.2.2.1 _ hp
    obtain ⟨k, hk, path, hpath⟩ := exists_segments hs.2.2.2 ctx hq
    have hne : key ≠ k := fun h => hs.2.1 (h ▸ hk)
    rw [hpath, hpath', ctx.segments_child hs.1, append_assoc]
    exact incomparable_of_ne hne _ _ _

/-- The property at a path. -/
def member (ctx : MetaContext) : Struct → List String → Option PropertyMeta
  | done, _ => none
  | field spec rest, path =>
    if path = [spec.key] then some (.build ctx spec) else rest.member ctx path
  | nested _ _ _ rest, [] => rest.member ctx []
  | nested key side inner rest, head :: path =>
    if head = key then inner.member (ctx.child key side) path else rest.member ctx (head :: path)

theorem mem_properties_of_member {s : Struct} {ctx : MetaContext} {path : List String}
    {p : PropertyMeta} (h : s.member ctx path = some p) : p ∈ s.properties ctx := by
  induction s generalizing ctx path with
  | done => cases h
  | field spec rest ih =>
    rw [member] at h
    split_ifs at h
    · cases h
      exact mem_cons_self
    · exact mem_cons_of_mem _ (ih h)
  | nested key side inner rest ihInner ihRest =>
    cases path with
    | nil => exact mem_append_right _ (ihRest h)
    | cons head path =>
      rw [member] at h
      split_ifs at h
      · exact mem_append_left _ (ihInner h)
      · exact mem_append_right _ (ihRest h)

end Struct

namespace PropertyRegistry

theorem wellNamed : ConfigModel.cdmConfig.WellNamed := by decide

theorem pairwise_incomparable :
    all.Pairwise fun p q => Incomparable (segments p.canonical) (segments q.canonical) :=
  Struct.pairwise_incomparable wellNamed {}

/-- Secrets are of the kind that any text fits. -/
theorem kind_of_mem_secrets : ∀ p ∈ secrets, p.kind = .secret := by decide

/-- The property at a path, and what can be said of it. -/
theorem exists_member {path : List String} {facts : PropertyMeta → Bool}
    (h : (ConfigModel.cdmConfig.member {} path).any facts = true) : ∃ p ∈ all, facts p = true := by
  obtain ⟨p, hp, hfacts⟩ := (Option.any_eq_true _ _).1 h
  exact ⟨p, Struct.mem_properties_of_member hp, hfacts⟩

/-- Properties with different names have incomparable ones. -/
theorem incomparable {p q : PropertyMeta} (hp : p ∈ all) (hq : q ∈ all)
    (h : p.canonical ≠ q.canonical) :
    Incomparable (segments p.canonical) (segments q.canonical) := by
  have hne : p ≠ q := fun he => h (he ▸ rfl)
  have : Std.Symm fun p q : PropertyMeta =>
    Incomparable (segments p.canonical) (segments q.canonical) := ⟨fun _ _ h => h.symm⟩
  exact pairwise_incomparable.forall hp hq hne

/-- A property has its name to itself. -/
theorem eq_of_canonical {p q : PropertyMeta} (hp : p ∈ all) (hq : q ∈ all)
    (h : p.canonical = q.canonical) : p = q := by
  by_contra hne
  have : Std.Symm fun p q : PropertyMeta =>
    Incomparable (segments p.canonical) (segments q.canonical) := ⟨fun _ _ h => h.symm⟩
  exact (pairwise_incomparable.forall hp hq hne).ne (congrArg segments h)

theorem nodup_canonical : (all.map PropertyMeta.canonical).Nodup :=
  pairwise_map.2 (pairwise_incomparable.imp fun h he => h.ne (congrArg segments he))

theorem byCanonical_eq {p : PropertyMeta} (hp : p ∈ all) : byCanonical p.canonical = some p := by
  obtain ⟨q, hq⟩ : ∃ q, byCanonical p.canonical = some q :=
    Option.isSome_iff_exists.1 (find?_isSome.2 ⟨p, mem_reverse.2 hp, by simp⟩)
  have hname : q.canonical = p.canonical := by simpa using find?_some hq
  rw [hq, eq_of_canonical (mem_reverse.1 (mem_of_find?_eq_some hq)) hp hname]

/-- What a name resolves to is a property that has or had this name. -/
theorem mem_of_resolve {name : String} {p : PropertyMeta} (h : resolve name = some p) :
    p ∈ all ∧ (p.canonical = name ∨ name ∈ p.legacy) := by
  rw [resolve] at h
  cases hcanonical : byCanonical name with
  | some q =>
    rw [hcanonical] at h
    cases h
    have hname : p.canonical = name := by simpa using find?_some hcanonical
    exact ⟨mem_reverse.1 (mem_of_find?_eq_some hcanonical), .inl hname⟩
  | none =>
    rw [hcanonical] at h
    have hlegacy : byLegacy name = some p := h
    have hname : name ∈ p.legacy := by simpa using find?_some hlegacy
    exact ⟨mem_reverse.1 (mem_of_find?_eq_some hlegacy), .inr hname⟩

/-- A property is found by its name. -/
theorem resolve_canonical {p : PropertyMeta} (hp : p ∈ all) : resolve p.canonical = some p := by
  rw [resolve, byCanonical_eq hp]
  rfl

end PropertyRegistry

end Cdm
