import Cdm.Codec.Types
import Cdm.Codec.Wire

/-!
# The conversion planner

A `ConversionPlan` is computed once per column pair and then applied to every value.  Identical or
assignable types pass through; a registered codec converts a primitive; collections, tuples, UDTs
and vectors of the same kind are converted element by element; everything else is written through
unchanged.

The codecs themselves are a parameter: a registry maps a pair of types to a `Converter`.
-/

namespace Cdm

/-- Converts one cell; null converts to null. -/
abbrev Converter := RawCell → Except CdmError RawCell

/-- How one column's values are converted. -/
inductive ConversionPlan
  /-- The raw bytes are moved unchanged. -/
  | passthrough
  | codec (converter : Converter)
  /-- One entry per target field: the origin field it takes its value from, and how that value is
  converted. -/
  | udt (fields : List (ℕ × ConversionPlan))
  | list (element : ConversionPlan)
  | set (element : ConversionPlan)
  | map (key value : ConversionPlan)
  | tuple (elements : List ConversionPlan)
  /-- The width is that of one origin element. -/
  | vector (element : ConversionPlan) (dimensions originWidth : ℕ)
  /-- No conversion is known: the value passes through unchanged. -/
  | unsupported (origin target : CqlTypeInfo)

namespace ConversionPlan

open Wire

def isPassthrough : ConversionPlan → Bool
  | passthrough => true
  | _ => false

/-- Whether applying the plan is the identity on the serialized bytes. -/
def isIdentity : ConversionPlan → Bool
  | passthrough | unsupported _ _ => true
  | _ => false

/-! ### Applying a plan

The functions below take the conversion of an element as a function, which `apply` supplies. -/

/-- Converts one element; null stays null. -/
def applyElement (f : Converter) : RawCell → Except CdmError RawCell
  | none => .ok none
  | some bytes => f (some bytes)

/-- Reads and converts `n` elements, adding to those already converted.  In a set, an element that
is already there is dropped. -/
def convertElements (f : Converter) (dedupe : Bool) :
    ℕ → Bytes → List RawCell → Except CdmError (List RawCell)
  | 0, _, converted => .ok converted
  | n + 1, bytes, converted => do
    let (element, rest) ← takeElement bytes
    let element ← applyElement f element
    if dedupe && converted.contains element then convertElements f dedupe n rest converted
    else convertElements f dedupe n rest (converted ++ [element])

def applySequence (f : Converter) (bytes : Bytes) (dedupe : Bool) : Except CdmError Bytes := do
  let (count, rest) ← takeI32 bytes
  let converted ← convertElements f dedupe count.toNat rest []
  if converted.length < 2 ^ 31 then
    let out ← writeElements converted
    return writeI32 converted.length ++ out
  else throw (conversionError "collection has more than 2^31 elements")

/-- Reads, converts and writes `n` map entries. -/
def convertEntries (fk fv : Converter) : ℕ → Bytes → Except CdmError Bytes
  | 0, _ => .ok []
  | n + 1, bytes => do
    let (key, rest) ← takeElement bytes
    let key ← applyElement fk key
    let (value, rest) ← takeElement rest
    let value ← applyElement fv value
    let key ← writeElement key
    let value ← writeElement value
    let out ← convertEntries fk fv n rest
    return key ++ value ++ out

/-- The count of a map is written as it was read. -/
def applyMap (fk fv : Converter) (bytes : Bytes) : Except CdmError Bytes := do
  let (count, rest) ← takeI32 bytes
  let out ← convertEntries fk fv count.toNat rest
  return writeI32 count ++ out

/-- A tuple may be serialized with fewer components than its type declares; the missing ones are
null. -/
def applyTuple : List Converter → Bytes → Except CdmError Bytes
  | [], _ => .ok []
  | _ :: fs, [] => do
    let out ← writeElement none
    let rest ← applyTuple fs []
    return out ++ rest
  | f :: fs, b :: bs => do
    let (element, rest) ← takeElement (b :: bs)
    let element ← applyElement f element
    let out ← writeElement element
    let rest ← applyTuple fs rest
    return out ++ rest

/-- The first `n` fields of a UDT, null where the value has no more. -/
def readFields : ℕ → Bytes → Except CdmError (List RawCell)
  | 0, _ => .ok []
  | n + 1, [] => do
    let rest ← readFields n []
    return none :: rest
  | n + 1, b :: bs => do
    let (element, rest) ← takeElement (b :: bs)
    let others ← readFields n rest
    return element :: others

/-- Converts and writes the target fields, each from the origin field it names. -/
def convertFields (origin : List RawCell) : List (ℕ × Converter) → Except CdmError Bytes
  | [] => .ok []
  | (index, f) :: fields => do
    let some value := origin[index]? | throw (conversionError
      s!"UDT field index {index} is out of range for a {origin.length}-field value")
    let converted ← applyElement f value
    let out ← writeElement converted
    let rest ← convertFields origin fields
    return out ++ rest

def applyUdt (fields : List (ℕ × Converter)) (bytes : Bytes) : Except CdmError Bytes := do
  let origin ← readFields fields.length bytes
  convertFields origin fields

/-- Reads and converts `n` elements of the given width, which are not framed. -/
def convertVector (f : Converter) (width : ℕ) : ℕ → Bytes → Except CdmError Bytes
  | 0, _ => .ok []
  | n + 1, bytes => do
    let (element, rest) ← take width bytes
    let some converted ← f (some element) | throw (conversionError "a vector element cannot be null")
    let out ← convertVector f width n rest
    return converted ++ out

def applyVector (f : Converter) (dimensions originWidth : ℕ) (bytes : Bytes) :
    Except CdmError Bytes :=
  if bytes.length ≠ dimensions * originWidth then
    .error (conversionError (s!"vector of {dimensions} elements should be " ++
      s!"{dimensions * originWidth} bytes, got {bytes.length}"))
  else convertVector f originWidth dimensions bytes

mutual

/-- Converts one cell. -/
def apply : ConversionPlan → Converter
  | passthrough, value => .ok value
  | unsupported _ _, value => .ok value
  | codec converter, some bytes => converter (some bytes)
  | list element, some bytes => (applySequence (apply element) bytes false).map some
  | set element, some bytes => (applySequence (apply element) bytes true).map some
  | map key value, some bytes => (applyMap (apply key) (apply value) bytes).map some
  | tuple elements, some bytes => (applyTuple (applyAll elements) bytes).map some
  | udt fields, some bytes => (applyUdt (applyFields fields) bytes).map some
  | vector element dimensions width, some bytes =>
    (applyVector (apply element) dimensions width bytes).map some
  | _, none => .ok none

/-- The conversions of a tuple's components. -/
def applyAll : List ConversionPlan → List Converter
  | [] => []
  | plan :: plans => apply plan :: applyAll plans

/-- The conversions of a UDT's fields. -/
def applyFields : List (ℕ × ConversionPlan) → List (ℕ × Converter)
  | [] => []
  | (index, plan) :: fields => (index, apply plan) :: applyFields fields

end

theorem apply_none (p : ConversionPlan) : p.apply none = .ok none := by
  cases p <;> rfl

theorem apply_of_isIdentity {p : ConversionPlan} (h : p.isIdentity = true) (cell : RawCell) :
    p.apply cell = .ok cell := by
  cases p <;> first | rfl | cases h

end ConversionPlan

/-! ### Planning -/

/-- One registered conversion. -/
structure CodecEntry where
  origin : CqlTypeInfo
  target : CqlTypeInfo
  converter : Converter

/-- Every conversion available to a run. -/
structure CodecRegistry where
  entries : List CodecEntry

/-- The converter for one type pair, if a codec claims it. -/
def CodecRegistry.converter (registry : CodecRegistry) (origin target : CqlTypeInfo) :
    Option Converter :=
  (registry.entries.find? fun e => e.origin.sameType origin && e.target.sameType target).map
    CodecEntry.converter

/-- Resolves conversion plans.  `compatJava` restores Java's behaviour: UDT fields are matched by
position only, and tuples are left unconverted. -/
structure Planner where
  registry : CodecRegistry
  compatJava : Bool

/-- Types with directly assignable representations share a family. -/
def assignableFamily : CqlTypeInfo → Option ℕ
  | .primitive .text | .primitive .ascii => some 0
  | .primitive .bigInt | .primitive .counter => some 1
  | .primitive .uuid | .primitive .timeUuid => some 2
  | _ => none

/-- Whether two different types have directly assignable representations. -/
def assignable (origin target : CqlTypeInfo) : Bool :=
  match assignableFamily origin, assignableFamily target with
  | some a, some b => a == b
  | _, _ => false

/-- Whether the two lists of fields have the same names; the source sorts both and compares. -/
def namesMatchAsSets (origin target : List (String × CqlTypeInfo)) : Bool :=
  (origin.map Prod.fst).isPerm (target.map Prod.fst)

namespace Planner

open ConversionPlan

/-- The plan of a collection, given that of its elements. -/
def wrap (build : ConversionPlan → ConversionPlan) (element : ConversionPlan) : ConversionPlan :=
  if element.isPassthrough then passthrough else build element

/-- The plan of a UDT, given the plans its origin fields have for a target type. -/
def udtFields (byName : Bool) (originNames : List String)
    (planners : List (CqlTypeInfo → ConversionPlan)) :
    ℕ → List (String × CqlTypeInfo) → Option (List (ℕ × ConversionPlan))
  | _, [] => some []
  | position, (name, target) :: fields =>
    let originIndex :=
      if byName then (originNames.findIdx? (· = name)).getD position else position
    match planners[originIndex]? with
    | none => none
    | some planner =>
      (udtFields byName originNames planners (position + 1) fields).map
        fun rest => (originIndex, planner target) :: rest

/-- Whether every field stays in its place and passes through. -/
def fieldsInPlace (fields : List (ℕ × ConversionPlan)) : Bool :=
  fields.zipIdx.all fun field => field.1.1 == field.2 && field.1.2.isPassthrough

variable (planner : Planner)

mutual

/-- Plans one type pair. -/
def planTypes (origin target : CqlTypeInfo) : ConversionPlan :=
  if origin.sameType target || assignable origin target then passthrough
  else
    match origin, target with
    | .list a _, .list b _ => wrap list (planTypes a b)
    | .set a _, .set b _ => wrap set (planTypes a b)
    | .map ka va _, .map kb vb _ =>
      let key := planTypes ka kb
      let value := planTypes va vb
      if key.isPassthrough && value.isPassthrough then passthrough else map key value
    | .tuple as, .tuple bs =>
      if planner.compatJava || as.length ≠ bs.length then unsupported (.tuple as) (.tuple bs)
      else
        let plans := List.zipWith (fun plan b => plan b) (planEach as) bs
        if plans.all isPassthrough then passthrough else tuple plans
    | .udt ka na as fa, .udt kb nb bs fb =>
      if as.isEmpty || as.length ≠ bs.length then unsupported (.udt ka na as fa) (.udt kb nb bs fb)
      else
        match udtFields (!planner.compatJava && namesMatchAsSets as bs) (as.map Prod.fst)
          (planFields as) 0 bs with
        | none => unsupported (.udt ka na as fa) (.udt kb nb bs fb)
        | some fields => if fieldsInPlace fields then passthrough else udt fields
    | .vector a da, .vector b db =>
      if da ≠ db then unsupported (.vector a da) (.vector b db)
      else
        let element := planTypes a b
        if element.isPassthrough then passthrough
        else
          match a.fixedWidth, b.fixedWidth with
          | some originWidth, some _ => vector element da originWidth
          | _, _ => unsupported (.vector a da) (.vector b db)
    | .primitive a, .primitive b =>
      match planner.registry.converter (.primitive a) (.primitive b) with
      | some converter => codec converter
      | none => unsupported (.primitive a) (.primitive b)
    | origin, target => unsupported origin target

/-- The plans of a tuple's components, for any target. -/
def planEach : List CqlTypeInfo → List (CqlTypeInfo → ConversionPlan)
  | [] => []
  | a :: as => planTypes a :: planEach as

/-- The plans of a UDT's fields, for any target. -/
def planFields : List (String × CqlTypeInfo) → List (CqlTypeInfo → ConversionPlan)
  | [] => []
  | (_, a) :: as => planTypes a :: planFields as

end

variable {planner}

/-- A map is converted entry by entry, or passed through. -/
theorem planTypes_map (origin key value : CqlTypeInfo) (frozen : Bool) :
    (planner.planTypes origin (.map key value frozen)).isIdentity = true ∨
      ∃ k v, planner.planTypes origin (.map key value frozen) = .map k v := by
  rw [planTypes.eq_def]
  split_ifs
  · exact .inl rfl
  · cases origin with
    | map ka va fa =>
      dsimp only
      split_ifs
      · exact .inl rfl
      · exact .inr ⟨_, _, rfl⟩
    | _ => exact .inl rfl

end Planner

/-- Converting a map keeps its count. -/
theorem ConversionPlan.apply_map {k v : ConversionPlan} {bytes : Bytes} {out : RawCell}
    (h : (ConversionPlan.map k v).apply (some bytes) = .ok out) :
    ∃ count rest converted, bytes = Wire.writeI32 count ++ rest ∧
      out = some (Wire.writeI32 count ++ converted) ∧ -2 ^ 31 ≤ count ∧ count < 2 ^ 31 := by
  rw [apply, Fallible.map_eq_ok] at h
  obtain ⟨out, h, rfl⟩ := h
  rw [applyMap, Fallible.bind_eq_ok] at h
  obtain ⟨⟨count, rest⟩, hread, h⟩ := h
  obtain ⟨converted, -, h⟩ := Fallible.bind_eq_ok.1 h
  cases h
  obtain ⟨hbytes, hlo, hhi⟩ := Wire.takeI32_eq_ok.1 hread
  exact ⟨count, rest, converted, hbytes, rfl, hlo, hhi⟩

end Cdm
