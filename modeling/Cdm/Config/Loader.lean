import Cdm.Config.Registry
import Cdm.Lib.RankSort
import Std.Data.TreeMap

/-!
# The configuration loader

A `ConfigLoader` collects layers of configuration: files, the environment, overrides, flags and the
body of an API request.  Each is flattened to canonical dotted keys as it is added, and `load`
merges them by rank, resolves secrets, rebuilds a tree and reads the configuration from it.

The filesystem is not modelled: `withFile` is given what reading the file gave.  A path is the text
that it is displayed as.  The documentation link of a diagnostic follows from its code, and is left
out.
-/

namespace Cdm

open Text

/-! ### Java properties -/

/-- One key/value pair, with the line it came from. -/
structure Entry where
  key : String
  value : String
  line : ℕ

namespace Properties

/-- The content of a line that ends in an odd number of backslashes, i.e. a continuation. -/
def continued (line : List Char) : Option (List Char) :=
  if (line.reverse.takeWhile (· = '\\')).length % 2 = 1 then some line.dropLast else none

/-- The key at the start of a logical line, and what follows it. -/
def readKey : List Char → List Char × Option (List Char)
  | [] => ([], none)
  | ['\\'] => ([], none)
  | '\\' :: escaped :: rest => ((escaped :: (readKey rest).1), (readKey rest).2)
  | c :: rest =>
    if c = '=' ∨ c = ':' then ([], some rest)
    else if isWhitespace c then ([], some (c :: rest))
    else (c :: (readKey rest).1, (readKey rest).2)

/-- `u32::from_str_radix` in hexadecimal, and the character with that code. -/
def decodeHex (hex : List Char) : Option Char :=
  let digits := match hex with
    | '+' :: rest => rest
    | _ => hex
  if digits ≠ [] ∧ digits.all (fun c => c.isDigit || ('a' ≤ c.toLower && c.toLower ≤ 'f')) then
    let code := digits.foldl (fun n c =>
      16 * n + if c.isDigit then c.toNat - 48 else c.toLower.toNat - 87) 0
    if code.isValidChar then some (Char.ofNat code) else none
  else none

/-- Decodes the escapes of a value, passing over the characters of an escape that is decoded. -/
def unescapeFrom : ℕ → List Char → List Char
  | _, [] => []
  | k + 1, _ :: rest => unescapeFrom k rest
  | 0, c :: rest =>
    if c ≠ '\\' then c :: unescapeFrom 0 rest
    else
      match rest with
      | 'n' :: _ => '\n' :: unescapeFrom 1 rest
      | 't' :: _ => '\t' :: unescapeFrom 1 rest
      | 'r' :: _ => '\r' :: unescapeFrom 1 rest
      | 'f' :: _ => Char.ofNat 12 :: unescapeFrom 1 rest
      | 'u' :: digits =>
        match decodeHex (digits.take 4) with
        | some decoded => decoded :: unescapeFrom 5 rest
        | none => '\\' :: 'u' :: (digits.take 4 ++ unescapeFrom 5 rest)
      | other :: _ => other :: unescapeFrom 1 rest
      | [] => ['\\']

/-- Decodes the escapes `java.util.Properties` recognises in a value. -/
def unescape (value : List Char) : List Char := unescapeFrom 0 value

/-- Splits one logical line into a key and a value. -/
def splitEntry (logical : List Char) (line : ℕ) : Option Entry :=
  let (key, separated) := readKey logical
  if key = [] then none
  else
    let rest := trimStart (separated.getD [])
    let rest := match rest with
      | '=' :: after | ':' :: after => trimStart after
      | _ => rest
    some ⟨String.ofList key, String.ofList (unescape (trimEnd rest)), line⟩

/-- The entries of the lines that are left, after the start of a logical line. -/
def parseLines : ℕ → List Char → ℕ → List (List Char) → List Entry
  | _, logical, start, [] => if logical = [] then [] else (splitEntry logical start).toList
  | index, logical, start, raw :: rest =>
    let line := trimStart raw
    if logical = [] ∧ (line = [] ∨ line.head? = some '#' ∨ line.head? = some '!') then
      parseLines (index + 1) [] start rest
    else
      let start := if logical = [] then index + 1 else start
      match continued line with
      | some head => parseLines (index + 1) (logical ++ head) start rest
      | none => (splitEntry (logical ++ line) start).toList ++ parseLines (index + 1) [] start rest

/-- Parses the contents of a `.properties` file. -/
def parse (text : String) : List Entry := parseLines 0 [] 0 (lines text.toList)

end Properties

/-! ### Diagnostics -/

/-- How much a finding matters. -/
inductive Severity
  | error
  | warning
  | info
  deriving DecidableEq

/-- A finding for the operator. -/
structure Diagnostic where
  code : String := "CDM-CONFIG"
  severity : Severity
  title : String
  detail : Option String := none
  location : Option String := none
  value : Option String := none
  rule : Option String := none
  suggestion : Option String := none
  deriving DecidableEq

/-- Whether a diagnostic must stop the run. -/
def Diagnostic.isBlocking (d : Diagnostic) : Bool := d.severity = .error

/-! ### Layers -/

/-- Where a value came from. -/
inductive Source
  | defaults
  | file (path : String)
  | environment
  | override
  | flag
  | apiBody
  deriving DecidableEq

namespace Source

/-- The precedence rank, lowest first. -/
def rank : Source → ℕ
  | defaults => 0
  | file _ => 1
  | environment => 2
  | override => 3
  | flag => 4
  | apiBody => 5

/-- The source as it is displayed. -/
def display : Source → String
  | defaults => "built-in default"
  | file path => "file " ++ path
  | environment => "environment"
  | override => "--set/--conf"
  | flag => "command-line flag"
  | apiBody => "API request body"

end Source

/-- One flattened assignment within a layer. -/
structure Assignment where
  key : String
  value : JsonValue
  location : Option String

/-- One source of configuration, already flattened to canonical keys. -/
structure Layer where
  source : Source
  assignments : List Assignment

/-- Where the indirections of secrets are resolved. -/
structure SecretSource where
  env : String → Except String String
  file : String → Except String String
  exec : String → Except String String

/-- Resolves one raw secret value, following `env:`, `file:` and `exec:` indirection. -/
def SecretSource.resolve (source : SecretSource) (raw : String) : Except String String :=
  let argument (rest : List Char) := String.ofList (trim rest)
  match stripPrefix "env:".toList raw.toList with
  | some name => source.env (argument name)
  | none =>
    match stripPrefix "file:".toList raw.toList with
    | some path => source.file (argument path)
    | none =>
      match stripPrefix "exec:".toList raw.toList with
      | some command => source.exec (argument command)
      | none => .ok raw

namespace JsonValue

/-- The fields of a section of the tree, by name. -/
def lookup (fields : List (String × JsonValue)) (key : String) : Option JsonValue :=
  (fields.find? (·.1 = key)).map Prod.snd

mutual

/-- Flattens a JSON tree to dotted keys, recursing into objects only. -/
def flatten : JsonValue → String → List (String × JsonValue)
  | object fields, pre => flattenFields fields pre
  | null, pre => if pre = "" then [] else [(pre, null)]
  | bool value, pre => if pre = "" then [] else [(pre, bool value)]
  | number text, pre => if pre = "" then [] else [(pre, number text)]
  | string text, pre => if pre = "" then [] else [(pre, string text)]
  | array elements, pre => if pre = "" then [] else [(pre, array elements)]

/-- Flattens the fields of an object. -/
def flattenFields : List (String × JsonValue) → String → List (String × JsonValue)
  | [], _ => []
  | (key, child) :: rest, pre =>
    flatten child (if pre = "" then key else pre ++ "." ++ key) ++ flattenFields rest pre

end

end JsonValue

/-- Builds a configuration from layered sources. -/
structure ConfigLoader where
  layers : List Layer := []
  diagnostics : List Diagnostic := []
  profile : Option String := none
  strict : Bool := false
  compatJava : Bool := false
  secrets : SecretSource

variable [ConfigCrates]

/-- The diagnostics an unrecognised key produces. -/
def unknownKey (key location : String) (strict : Bool) : List Diagnostic :=
  if (stripPrefix "spark.".toList key.toList).isSome ∧
      (stripPrefix "spark.cdm.".toList key.toList).isNone then []
  else
    [{ severity := if strict then .error else .warning
       title := "unknown property"
       location := some location
       value := some key
       rule := some "CFG-011"
       suggestion := (PropertyRegistry.closestMatch key).map fun suggestion =>
        "did you mean `" ++ suggestion ++ "`?" }]

namespace ConfigLoader

/-- Whether a property is one of the consistency levels. -/
def isConsistency (canonical : String) : Bool :=
  (stripPrefix "perfops.consistency.".toList canonical.toList).isSome

/-- Coerces a raw string, with a diagnostic when it does not fit the property's kind. -/
def coerce (self : ConfigLoader) (kind : PropertyKind) (raw canonical location : String) :
    Option JsonValue × List Diagnostic :=
  match kind.coerce raw with
  | .ok value => (some value, [])
  | .error reason =>
    if self.compatJava ∧ isConsistency canonical then
      (some (.string "LOCAL_QUORUM"),
        [{ severity := .warning
           title := "unrecognised consistency level coerced"
           location := some location
           value := some raw
           detail := some reason
           rule := some "CFG-161"
           suggestion := some ("`--compat-java` is in effect, so `LOCAL_QUORUM` was used; " ++
            "drop the flag to make this an error") }])
    else
      (none,
        [{ severity := .error
           title := "`" ++ canonical ++ "` has an unusable value"
           location := some location
           value := some raw
           detail := some reason
           rule := some (if kind = .list then "CFG-027"
            else if isConsistency canonical then "CFG-161" else "CFG-020") }])

/-- What one entry of a layer comes to: its assignment, and its diagnostics. -/
def assign (self : ConfigLoader) (key location : String)
    (convert : PropertyMeta → Option JsonValue × List Diagnostic) :
    Option Assignment × List Diagnostic :=
  match PropertyRegistry.resolve key with
  | none => (none, unknownKey key location self.strict)
  | some property =>
    ((convert property).1.map fun value => ⟨property.canonical, value, some location⟩,
      (convert property).2)

/-- Records diagnostics. -/
def report (self : ConfigLoader) (found : List Diagnostic) : ConfigLoader :=
  { self with diagnostics := self.diagnostics ++ found }

/-- Pushes a layer and the diagnostics of its entries. -/
def push (self : ConfigLoader) (source : Source)
    (entries : List (Option Assignment × List Diagnostic)) : ConfigLoader :=
  { self with
    layers := self.layers ++ [⟨source, entries.filterMap Prod.fst⟩]
    diagnostics := self.diagnostics ++ entries.flatMap Prod.snd }

/-- An entry whose value is text. -/
def assignText (self : ConfigLoader) (key raw location : String) :
    Option Assignment × List Diagnostic :=
  self.assign key location fun property =>
    self.coerce property.kind raw property.canonical location

/-- An entry of a structured document, which may still spell a typed value as a string. -/
def assignValue (self : ConfigLoader) (label : String) (entry : String × JsonValue) :
    Option Assignment × List Diagnostic :=
  self.assign entry.1 label fun property =>
    match entry.2, property.kind with
    | .string raw, _ => self.coerce property.kind raw property.canonical label
    | .number text, .bigInteger => (some (.string text), [])
    | value, _ => (some value, [])

/-- Adds a Java `.properties` document. -/
def withPropertiesStrAt (self : ConfigLoader) (text : String) (source : Source) (label : String) :
    ConfigLoader :=
  self.push source ((Properties.parse text).map fun entry =>
    self.assignText entry.key entry.value (label ++ ":" ++ toString entry.line))

/-- Adds a layer of `(key, raw value, where it was written)` triples. -/
def withStringPairs (self : ConfigLoader) (pairs : List (String × String × String))
    (source : Source) : ConfigLoader :=
  self.push source (pairs.map fun pair => self.assignText pair.1 pair.2.1 pair.2.2)

/-- The document without its profiles, and the profiles. -/
def splitProfiles : JsonValue → JsonValue × Option JsonValue
  | .object fields => (.object (fields.filter (·.1 ≠ "profiles")), JsonValue.lookup fields "profiles")
  | tree => (tree, none)

/-- The entries that the selected profile adds to a document, or a diagnostic. -/
def overlay (self : ConfigLoader) (profiles : Option JsonValue) (label : String) :
    List (String × JsonValue) × List Diagnostic :=
  match self.profile with
  | none => ([], [])
  | some name =>
    match profiles with
    | none => ([], [])
    | some tree =>
      match tree.get name with
      | some profile => (profile.flatten "", [])
      | none =>
        ([], [{ severity := .error
                title := "the requested profile is not defined"
                location := some label
                value := some name
                rule := some "CFG-013"
                suggestion := some "check the `[profiles.<name>]` blocks in this file" }])

/-- Adds a structured document, applying the selected profile over its base. -/
def withTree (self : ConfigLoader) (tree : JsonValue) (source : Source) (label : String) :
    ConfigLoader :=
  let (base, profiles) := splitProfiles tree
  let (overlaid, missing) := self.overlay profiles label
  (self.report missing).push source
    ((base.flatten "" ++ overlaid).map (self.assignValue label))

/-- The extension of a path: what follows the last dot of its last component. -/
def extension (path : String) : Option String :=
  let components := (splitOn '/' path.toList).filter fun c => c ≠ [] ∧ c ≠ ['.']
  match components.getLast? with
  | none => none
  | some name =>
    if name = ['.', '.'] then none
    else
      match rsplitOnce '.' name with
      | some (before, after) => if before = [] then none else some (String.ofList after)
      | none => none

/-- Adds the document of a configuration file, if its parser accepts it. -/
def withDocument (self : ConfigLoader) (format : DocumentFormat) (path text : String) :
    ConfigLoader :=
  match ConfigCrates.fromStr format text with
  | .ok tree => self.withTree tree (.file path) path
  | .error error =>
    self.report
      [{ severity := .error
         title := "the configuration file is not well-formed"
         location := some path
         detail := some error
         rule := some "CFG-010" }]

/-- Reads a configuration file, choosing the parser from its extension. -/
def withFile (self : ConfigLoader) (path : String) (contents : Except String String) :
    ConfigLoader :=
  match contents with
  | .error error =>
    self.report
      [{ severity := .error
         title := "cannot read the configuration file"
         location := some path
         detail := some error
         rule := some "CFG-010" }]
  | .ok text =>
    let format := String.ofList (toLower ((extension path).getD "properties").toList)
    if format = "toml" then self.withDocument .toml path text
    else if format = "yaml" ∨ format = "yml" then self.withDocument .yaml path text
    else if format = "json" then self.withDocument .json path text
    else self.withPropertiesStrAt text (.file path) path

/-- Adds a Java `.properties` document that is already in memory. -/
def withPropertiesStr (self : ConfigLoader) (text label : String) : ConfigLoader :=
  self.withPropertiesStrAt text (.file label) label

/-- Adds the `CDM__*` environment variables. -/
def withEnv (self : ConfigLoader) (vars : List (String × String)) : ConfigLoader :=
  self.withStringPairs (vars.filterMap fun var =>
    (stripPrefix "CDM__".toList var.1.toList).map fun key =>
      (String.ofList (toLower (replace "__".toList ".".toList key)), var.2, var.1))
    .environment

/-- The diagnostic of an override without a value; only its leading token is echoed. -/
def malformedOverride (label item : String) : Diagnostic where
  severity := .error
  title := "an override must be written `key=value`"
  location := some label
  value := some (String.ofList (item.toList.takeWhile fun c => c ≠ ' ' ∧ c ≠ '\t' ∧ c ≠ ':'))
  rule := some "CFG-010"

/-- Adds overrides or flags, each written `key=value`. -/
def withAssignmentStrings (self : ConfigLoader) (items : List String) (source : Source)
    (label : String) : ConfigLoader :=
  let pairs := (items.filter fun item => '=' ∈ item.toList).map fun item =>
    let key := String.ofList (trim (item.toList.takeWhile (· ≠ '=')))
    (key, String.ofList (item.toList.dropWhile (· ≠ '=')).tail, label ++ " " ++ key)
  let malformed := (items.filter fun item => '=' ∉ item.toList).map (malformedOverride label)
  (self.report malformed).withStringPairs pairs source

/-- Adds `--set key=value` and `--conf key=value` overrides. -/
def withOverrides (self : ConfigLoader) (overrides : List String) : ConfigLoader :=
  self.withAssignmentStrings overrides .override "--set"

/-- Adds explicit typed CLI flags, already resolved to canonical keys. -/
def withFlags (self : ConfigLoader) (flags : List String) : ConfigLoader :=
  self.withAssignmentStrings flags .flag "flag"

/-- Adds the values supplied in an API request body. -/
def withApiBody (self : ConfigLoader) (body : JsonValue) : ConfigLoader :=
  self.withTree body .apiBody "request body"

end ConfigLoader

/-! ### Merging -/

/-- What merging the layers gives: the value of each property, where it came from, and where it was
written. -/
structure Merged where
  values : Std.TreeMap String JsonValue := {}
  sources : Std.TreeMap String Source := {}
  locations : Std.TreeMap String String := {}

namespace Merged

/-- Merges one assignment. -/
def assign (merged : Merged) (source : Source) (a : Assignment) : Merged where
  values := merged.values.insert a.key a.value
  sources := merged.sources.insert a.key source
  locations :=
    match a.location with
    | some location => merged.locations.insert a.key location
    | none => merged.locations

/-- Merges one layer. -/
def layer (merged : Merged) (layer : Layer) : Merged :=
  layer.assignments.foldl (fun merged a => merged.assign layer.source a) merged

/-- Merges every layer, in the order of their ranks. -/
def ofLayers (layers : List Layer) : Merged :=
  (layers.sortByKey (·.source.rank)).foldl layer {}

end Merged

/-! ### The tree -/

namespace JsonValue

/-- Sets a field, in the order of the names. -/
def setField (fields : List (String × JsonValue)) (key : String) (value : JsonValue) :
    List (String × JsonValue) :=
  match fields with
  | [] => [(key, value)]
  | (k, v) :: rest =>
    if k = key then (key, value) :: rest
    else if key < k then (key, value) :: (k, v) :: rest
    else (k, v) :: setField rest key value

/-- Inserts `value` at `segments` within `fields`, creating intermediate objects. -/
def insertPath (fields : List (String × JsonValue)) : List String → JsonValue →
    List (String × JsonValue)
  | [], _ => fields
  | [last], value => setField fields last value
  | head :: rest, value =>
    let child := match lookup fields head with
      | some (object inner) => inner
      | _ => []
    setField fields head (object (insertPath child rest value))

/-- Rebuilds the fields of a nested JSON object from dotted keys. -/
def unflatten (flat : Std.TreeMap String JsonValue) : List (String × JsonValue) :=
  flat.toList.foldl (fun fields entry => insertPath fields (segments entry.1) entry.2) []

/-- The value at a path. -/
def lookupPath (fields : List (String × JsonValue)) : List String → Option JsonValue
  | [] => none
  | [last] => lookup fields last
  | head :: rest =>
    match lookup fields head with
    | some (object inner) => lookupPath inner rest
    | _ => none

end JsonValue

/-- A configuration: the values of the fields of the struct tree, by canonical name. -/
structure CdmConfig where
  fields : List (String × Setting)

/-- The value of a property. -/
def CdmConfig.get (config : CdmConfig) (canonical : String) : Option Setting :=
  (config.fields.find? (·.1 = canonical)).map Prod.snd

namespace Struct

/-- The `Default` of a struct. -/
def defaults (ctx : MetaContext) (s : Struct) : List (String × Setting) :=
  (s.properties ctx).map fun property => (property.canonical, property.default)

/-- What a field is read from: its value in the object, or nothing. -/
def readField (property : PropertyMeta) : Option JsonValue → Option Setting
  | none => some property.default
  | some json => ConfigCrates.deserialize property json

/-- The members of a struct read from an object: a field that is absent, or a whole section, keeps
its default; a field that no member has is refused.  A section of the tree is an object, so the
other forms that a struct could be read from do not arise. -/
def fromFields (ctx : MetaContext) :
    Struct → List (String × JsonValue) → Option (List (String × Setting))
  | done, _ => some []
  | field spec rest, fields =>
    (readField (.build ctx spec) (JsonValue.lookup fields spec.key)).bind fun value =>
      (rest.fromFields ctx fields).map fun values => (ctx.canonical spec.key, value) :: values
  | nested key side inner rest, fields =>
    let inside :=
      match JsonValue.lookup fields key with
      | none => some (inner.defaults (ctx.child key side))
      | some (.object object) =>
        if object.all (fun f => f.1 ∈ inner.keys) then
          inner.fromFields (ctx.child key side) object
        else none
      | some _ => none
    inside.bind fun inside => (rest.fromFields ctx fields).map (inside ++ ·)

end Struct

/-- `serde_json::from_value`, of the fields of the tree. -/
def CdmConfig.fromFields (fields : List (String × JsonValue)) : Option CdmConfig :=
  if fields.all (fun f => f.1 ∈ ConfigModel.cdmConfig.keys) then
    (ConfigModel.cdmConfig.fromFields {} fields).map CdmConfig.mk
  else none

/-! ### Loading -/

/-- What a load produced. -/
structure LoadOutcome where
  config : Option CdmConfig
  diagnostics : List Diagnostic
  sources : Std.TreeMap String Source
  locations : Std.TreeMap String String

namespace ConfigLoader

/-- The diagnostic of a secret that cannot be resolved. -/
def unresolved (sources : Std.TreeMap String Source) (property : PropertyMeta) (reason : String) :
    Diagnostic where
  severity := .error
  title := "cannot resolve a secret"
  location := some ((sources[property.canonical]?.map Source.display).getD "configuration")
  detail := some (property.canonical ++ ": " ++ reason)
  rule := some "CFG-012"
  suggestion := some ("use `env:VAR`, `file:/path` or `exec:command`, or the value " ++ "itself")

/-- Resolves the indirection of one property marked secret. -/
def resolveSecret (self : ConfigLoader) (sources : Std.TreeMap String Source)
    (state : Std.TreeMap String JsonValue × List Diagnostic) (property : PropertyMeta) :
    Std.TreeMap String JsonValue × List Diagnostic :=
  match state.1[property.canonical]? with
  | some (.string raw) =>
    match self.secrets.resolve raw with
    | .ok resolved => (state.1.insert property.canonical (.string resolved), state.2)
    | .error reason =>
      (state.1.erase property.canonical, state.2 ++ [unresolved sources property reason])
  | _ => state

/-- Resolves the indirection of every property marked secret. -/
def resolveSecrets (self : ConfigLoader) (merged : Merged) :
    Std.TreeMap String JsonValue × List Diagnostic :=
  PropertyRegistry.secrets.foldl (self.resolveSecret merged.sources)
    (merged.values, self.diagnostics)

/-- What is wrong with a tree that is no configuration. -/
def checkTree (tree : List (String × JsonValue)) : List Diagnostic :=
  match CdmConfig.fromFields tree with
  | some _ => []
  | none =>
    [{ severity := .error
       title := "the merged configuration is not valid"
       detail := some (ConfigCrates.invalidTree (.object tree))
       rule := some "CFG-020" }]

/-- Merges every layer, resolves secrets and deserialises. -/
def load (self : ConfigLoader) : LoadOutcome :=
  let merged := Merged.ofLayers self.layers
  let resolved := self.resolveSecrets merged
  let tree := JsonValue.unflatten resolved.1
  { config := CdmConfig.fromFields tree
    diagnostics := resolved.2 ++ checkTree tree
    sources := merged.sources
    locations := merged.locations }

end ConfigLoader

end Cdm
