import Cdm.Core.Domain
import Cdm.Lib.Text

/-!
# The error model

There is one error type, `CdmError`: a stable `ErrorKind`, a message, and an `ErrorContext` that
names the side, table, column, range, key and configuration property involved.  The underlying
cause (`source`) is an opaque boxed value that no modelled function reads, and is left out.
-/

namespace Cdm

/-- The stable error codes. -/
inductive ErrorKind
  | config
  | connect
  | auth
  | tls
  | schemaMismatch
  | schemaChanged
  | typeConversion
  | read
  | write
  | rateLimited
  | tracking
  | lease
  | cancelled
  | internal
  deriving DecidableEq, Repr

namespace ErrorKind

/-- Whether the operation may usefully be retried with backoff. -/
def isRetryable : ErrorKind → Bool
  | read | write | rateLimited => true
  | _ => false

/-- Whether encountering this kind aborts the whole run rather than failing one range. -/
def isFatal : ErrorKind → Bool
  | config | connect | auth | tls | schemaMismatch | schemaChanged | internal => true
  | _ => false

/-- The words an error of this kind is rendered with. -/
def heading : ErrorKind → String
  | config => "configuration error"
  | connect => "connection error"
  | auth => "authentication error"
  | tls => "TLS error"
  | schemaMismatch => "schema mismatch"
  | schemaChanged => "schema changed mid-run"
  | typeConversion => "type conversion error"
  | read => "read error"
  | write => "write error"
  | rateLimited => "rate limited"
  | tracking => "run tracking error"
  | lease => "lease error"
  | cancelled => "cancelled"
  | internal => "internal error"

end ErrorKind

/-- Where an error happened; each dimension is optional. -/
structure ErrorContext where
  side : Option Side := none
  table : Option TableRef := none
  column : Option String := none
  range : Option TokenRange := none
  primaryKey : Option PrimaryKey := none
  configKey : Option String := none
  deriving DecidableEq

/-- The one error type. -/
structure CdmError where
  kind : ErrorKind
  message : String
  context : ErrorContext := {}
  deriving DecidableEq

namespace CdmError

def withConfigKey (e : CdmError) (key : String) : CdmError :=
  { e with context := { e.context with configKey := some key } }

def withColumn (e : CdmError) (column : String) : CdmError :=
  { e with context := { e.context with column := some column } }

def withRange (e : CdmError) (range : TokenRange) : CdmError :=
  { e with context := { e.context with range := some range } }

def withSide (e : CdmError) (side : Side) : CdmError :=
  { e with context := { e.context with side := some side } }

def withTable (e : CdmError) (table : TableRef) : CdmError :=
  { e with context := { e.context with table := some table } }

def withPrimaryKey (e : CdmError) (key : PrimaryKey) : CdmError :=
  { e with context := { e.context with primaryKey := some key } }

end CdmError

/-! ### Rendering -/

/-- A byte as two hexadecimal digits. -/
def hexByte (b : UInt8) : String :=
  String.ofList [Text.hexDigit (b.toNat / 16), Text.hexDigit (b.toNat % 16)]

/-- A cell renders as hex, never as text. -/
def RawCell.render : RawCell → String
  | none => "null"
  | some bytes => "0x" ++ String.join (bytes.map hexByte)

instance : ToString PrimaryKey :=
  ⟨fun k => "(" ++ ", ".intercalate (k.values.map RawCell.render) ++ ")"⟩

instance : ToString ErrorContext where
  toString c :=
    let parts : List String :=
      (c.side.map Side.asStr).toList ++ (c.table.map toString).toList ++
      (c.column.map fun x => "column=" ++ x).toList ++
      (c.range.map fun x => "range=" ++ toString x).toList ++
      (c.primaryKey.map fun x => "pk=" ++ toString x).toList ++
      (c.configKey.map fun x => "key=" ++ x).toList
    if parts.isEmpty then "" else " [" ++ " ".intercalate parts ++ "]"

instance : ToString CdmError :=
  ⟨fun e => e.kind.heading ++ ": " ++ e.message ++ toString e.context⟩

/-! ### Fallible constructors of the domain types -/

/-- Creates a range, rejecting an inverted interval.  The arguments are `i128` values. -/
def TokenRange.new (min max : ℤ) (hmin : i128Min ≤ min) (hmax : max ≤ i128Max) :
    Except CdmError TokenRange :=
  if h : min ≤ max then .ok ⟨min, max, h, hmin, hmax⟩
  else .error ⟨.config,
    s!"inverted token range: min {min} is greater than max {max}", {}⟩

/-- The origin cell at `index`. -/
def Record.originCell (r : Record) (index : ℕ) : Except CdmError RawCell :=
  match r.origin.cells[index]? with
  | some cell => .ok cell
  | none => .error <| CdmError.withPrimaryKey
      ⟨.internal,
        s!"origin projection has {r.origin.cells.length} columns; column {index} was requested", {}⟩
      r.key

end Cdm
