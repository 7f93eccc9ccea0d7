import Cdm.Codec.RoundTrip
import Cdm.Codec.Value

/-!
# What a conversion is meant to do

The value of another type that corresponds to a value: every leaf is converted by the codec of its
types, and the rest of the tree is kept.  The elements of a set that have become equal are one
element, the components of a record stand in the order of the target type, and those that are
missing are null.  Where the types are alike all the way down, the value stays as it is.
-/

namespace Cdm

namespace CqlTypeInfo

/-- Induction over types, through the components of tuples and UDTs. -/
@[elab_as_elim]
theorem component_induction {motive : CqlTypeInfo → Prop}
    (primitive : ∀ kind, motive (primitive kind)) (custom : ∀ name, motive (custom name))
    (list : ∀ a frozen, motive a → motive (list a frozen))
    (set : ∀ a frozen, motive a → motive (set a frozen))
    (map : ∀ k v frozen, motive k → motive v → motive (map k v frozen))
    (vector : ∀ a dimensions, motive a → motive (vector a dimensions))
    (tuple : ∀ as, (∀ a ∈ as, motive a) → motive (tuple as))
    (udt : ∀ keyspace name fields frozen, (∀ field ∈ fields, motive field.2) →
      motive (udt keyspace name fields frozen)) : ∀ t, motive t
  | .primitive kind => primitive kind
  | .custom name => custom name
  | .list a frozen =>
    list a frozen (component_induction primitive custom list set map vector tuple udt a)
  | .set a frozen =>
    set a frozen (component_induction primitive custom list set map vector tuple udt a)
  | .map k v frozen =>
    map k v frozen (component_induction primitive custom list set map vector tuple udt k)
      (component_induction primitive custom list set map vector tuple udt v)
  | .vector a dimensions =>
    vector a dimensions (component_induction primitive custom list set map vector tuple udt a)
  | .tuple as =>
    tuple as fun a _ => component_induction primitive custom list set map vector tuple udt a
  | .udt keyspace name fields frozen =>
    udt keyspace name fields frozen fun field _ =>
      component_induction primitive custom list set map vector tuple udt field.2
  termination_by t => sizeOf t
  decreasing_by
    all_goals simp_wf
    all_goals first
      | omega
      | (have hlt := List.sizeOf_lt_of_mem ‹_ ∈ _›; omega)
      | (have hlt := List.sizeOf_lt_of_mem ‹_ ∈ _›; obtain ⟨n, t⟩ := field; simp_all; omega)

end CqlTypeInfo

namespace CqlValue

/-- A cell that is not taken apart. -/
def ofCell : RawCell → CqlValue
  | none => null
  | some bytes => leaf bytes

theorem cell_ofCell (cell : RawCell) : (ofCell cell).cell = .ok cell := by
  cases cell <;> rfl

end CqlValue

namespace Planner

variable (planner : Planner)

/-! ### Where components come from -/

/-- The position of the origin field a target field takes its value from: the one of its name if
both types have the same names, and the one at its place otherwise. -/
def fieldSource (as bs : List (String × CqlTypeInfo)) (position : ℕ) (name : String) : ℕ :=
  if !planner.compatJava && namesMatchAsSets as bs then
    ((as.map Prod.fst).findIdx? (· = name)).getD position
  else position

/-- For every component of a target record: the position of the origin component, and its type. -/
def sources : CqlTypeInfo → CqlTypeInfo → List (ℕ × CqlTypeInfo)
  | .tuple _, .tuple bs => bs.zipIdx.map fun component => (component.2, component.1)
  | .udt _ _ as _, .udt _ _ bs _ =>
    bs.zipIdx.map fun field => (planner.fieldSource as bs field.2 field.1.1, field.1.2)
  | _, _ => []

/-! ### Types that are alike -/

/-- Whether every component stays where it is and is of a type like the one it had. -/
def inPlace (tests : List (CqlTypeInfo → Bool)) (sources : List (ℕ × CqlTypeInfo)) : Bool :=
  sources.zipIdx.all fun source =>
    source.1.1 == source.2 && tests[source.2]?.any fun test => test source.1.2

mutual

/-- Whether the values of the one type are values of the other as they are: the types are the same,
or assignable, or that holds of everything in them and nothing changes its place. -/
def alike (a b : CqlTypeInfo) : Bool :=
  a.sameType b || assignable a b ||
    match a, b with
    | .list a _, .list b _ => alike a b
    | .set a _, .set b _ => alike a b
    | .map ka va _, .map kb vb _ => alike ka kb && alike va vb
    | .tuple as, .tuple bs =>
      as.length == bs.length && inPlace (alikeEach as) (planner.sources (.tuple as) (.tuple bs))
    | .udt ka na as fa, .udt kb nb bs fb =>
      as.length == bs.length &&
        inPlace (alikeFields as) (planner.sources (.udt ka na as fa) (.udt kb nb bs fb))
    | .vector a da, .vector b db => da == db && alike a b
    | _, _ => false

def alikeEach : List CqlTypeInfo → List (CqlTypeInfo → Bool)
  | [] => []
  | a :: as => alike a :: alikeEach as

def alikeFields : List (String × CqlTypeInfo) → List (CqlTypeInfo → Bool)
  | [] => []
  | (_, a) :: as => alike a :: alikeFields as

end

/-! ### Converted values -/

/-- What converts the leaves of the one type into those of the other. -/
def leafConverter : CqlTypeInfo → CqlTypeInfo → Option Converter
  | .primitive a, .primitive b => planner.registry.converter (.primitive a) (.primitive b)
  | .vector a da, .vector b db => some (planner.planTypes (.vector a da) (.vector b db)).apply
  | _, _ => none

/-- What cannot be converted, as it is no value of its type. -/
def mistyped : CdmError := Wire.conversionError "not a value of the type"

/-- A conversion of values. -/
abbrev Conversion := CqlValue → Except CdmError CqlValue

def convertPair (fk fv : Conversion) (pair : CqlValue × CqlValue) :
    Except CdmError (CqlValue × CqlValue) := do
  let key ← fk pair.1
  let value ← fv pair.2
  return (key, value)

/-- What the function of a component gives for the type of the target component and the component
that it takes its value from. -/
def fromSource {γ : Type} (missing : γ) (functions : List (CqlTypeInfo → CqlValue → γ))
    (components : List CqlValue) (source : ℕ × CqlTypeInfo) : γ :=
  match functions[source.1]? with
  | some f => f source.2 (components[source.1]?.getD .null)
  | none => missing

mutual

/-- The value of type `b` that corresponds to a value of type `a`. -/
def convert (a b : CqlTypeInfo) (value : CqlValue) : Except CdmError CqlValue :=
  if planner.alike a b then .ok value
  else
    match a, b, value with
    | _, _, .null => .ok .null
    | .list a _, .list b _, .sequence elements => (elements.mapM (convert a b)).map .sequence
    | .set a _, .set b _, .sequence elements =>
      (elements.mapM (convert a b)).map fun converted => .sequence (keepFirst [] converted)
    | .map ka va _, .map kb vb _, .entries pairs =>
      (pairs.mapM (convertPair (convert ka kb) (convert va vb))).map .entries
    | .tuple as, .tuple bs, .record components =>
      ((planner.sources (.tuple as) (.tuple bs)).mapM
        (fromSource (.error mistyped) (convertEach as) components)).map .record
    | .udt ka na as fa, .udt kb nb bs fb, .record components =>
      ((planner.sources (.udt ka na as fa) (.udt kb nb bs fb)).mapM
        (fromSource (.error mistyped) (convertFields as) components)).map .record
    | a, b, .leaf bytes =>
      match planner.leafConverter a b with
      | some converter => (converter (some bytes)).map .ofCell
      | none => .error mistyped
    | _, _, _ => .error mistyped

def convertEach : List CqlTypeInfo → List (CqlTypeInfo → Conversion)
  | [] => []
  | a :: as => convert a :: convertEach as

def convertFields : List (String × CqlTypeInfo) → List (CqlTypeInfo → Conversion)
  | [] => []
  | (_, a) :: as => convert a :: convertFields as

end

/-! ### The leaves of a value -/

mutual

/-- The conversions of the leaves that the conversion of a value comes to. -/
def leafResults (a b : CqlTypeInfo) (value : CqlValue) : List (Except CdmError RawCell) :=
  if planner.alike a b then []
  else
    match a, b, value with
    | _, _, .null => []
    | .list a _, .list b _, .sequence elements => elements.flatMap (leafResults a b)
    | .set a _, .set b _, .sequence elements => elements.flatMap (leafResults a b)
    | .map ka va _, .map kb vb _, .entries pairs =>
      pairs.flatMap fun pair => leafResults ka kb pair.1 ++ leafResults va vb pair.2
    | .tuple as, .tuple bs, .record components =>
      (planner.sources (.tuple as) (.tuple bs)).flatMap
        (fromSource [] (leafResultsEach as) components)
    | .udt ka na as fa, .udt kb nb bs fb, .record components =>
      (planner.sources (.udt ka na as fa) (.udt kb nb bs fb)).flatMap
        (fromSource [] (leafResultsFields as) components)
    | a, b, .leaf bytes =>
      ((planner.leafConverter a b).map fun converter => converter (some bytes)).toList
    | _, _, _ => []

def leafResultsEach :
    List CqlTypeInfo → List (CqlTypeInfo → CqlValue → List (Except CdmError RawCell))
  | [] => []
  | a :: as => leafResults a :: leafResultsEach as

def leafResultsFields :
    List (String × CqlTypeInfo) → List (CqlTypeInfo → CqlValue → List (Except CdmError RawCell))
  | [] => []
  | (_, a) :: as => leafResults a :: leafResultsFields as

end

end Planner

end Cdm
