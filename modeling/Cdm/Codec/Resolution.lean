import Cdm.Codec.Types
import Cdm.Lib.Fallible

/-!
# Types with and without their definitions

`system_schema` spells a UDT by its name.  What a resolver adds to a type are the fields of its
UDTs, and nothing else: a type that is parsed without a resolver is the resolved one with the fields
left out.  Two clusters that define a type differently therefore seem to have the same one.
-/

namespace Cdm

open Fallible

namespace CqlTypeInfo

mutual

/-- The type with every UDT reduced to its name. -/
def bare : CqlTypeInfo → CqlTypeInfo
  | primitive kind => primitive kind
  | list element frozen => list (bare element) frozen
  | set element frozen => set (bare element) frozen
  | map key value frozen => map (bare key) (bare value) frozen
  | tuple elements => tuple (bareAll elements)
  | udt keyspace name _ frozen => udt keyspace name [] frozen
  | vector element dimensions => vector (bare element) dimensions
  | custom name => custom name

def bareAll : List CqlTypeInfo → List CqlTypeInfo
  | [] => []
  | element :: elements => bare element :: bareAll elements

end

theorem bareAll_eq_map (elements : List CqlTypeInfo) : bareAll elements = elements.map bare := by
  induction elements with
  | nil => rfl
  | cons element elements ih => rw [bareAll, ih, List.map_cons]

/-! ### Components -/

/-- The type of the component at a position of a collection. -/
def cellType : CqlTypeInfo → ℕ → Option CqlTypeInfo
  | list element _, _ | set element _, _ | vector element _, _ => some element
  | map key value _, i => some (if i % 2 = 0 then key else value)
  | tuple elements, i => elements[i]?
  | _, _ => none

/-- Whether values of the type have components that are not the fields of a UDT. -/
def hasCells : CqlTypeInfo → Bool
  | list _ _ | set _ _ | map _ _ _ | tuple _ | vector _ _ => true
  | _ => false

/-! ### Types with the same shape -/

/-- Types that differ only in the definitions of their UDTs: a UDT has the same type name, and the
same fields in any order.  What the types of its fields are does not matter. -/
inductive Corresponds : CqlTypeInfo → CqlTypeInfo → Prop
  | primitive (kind : Primitive) : Corresponds (primitive kind) (primitive kind)
  | custom (name : String) : Corresponds (custom name) (custom name)
  | list {a b : CqlTypeInfo} (fa fb : Bool) (h : Corresponds a b) :
    Corresponds (list a fa) (list b fb)
  | set {a b : CqlTypeInfo} (fa fb : Bool) (h : Corresponds a b) : Corresponds (set a fa) (set b fb)
  | map {ka va kb vb : CqlTypeInfo} (fa fb : Bool) (hkey : Corresponds ka kb)
    (hvalue : Corresponds va vb) : Corresponds (map ka va fa) (map kb vb fb)
  | tuple {as bs : List CqlTypeInfo} (hlen : as.length = bs.length)
    (h : ∀ (i : ℕ) a b, as[i]? = some a → bs[i]? = some b → Corresponds a b) :
    Corresponds (tuple as) (tuple bs)
  | vector {a b : CqlTypeInfo} (dimensions : ℕ) (h : Corresponds a b) :
    Corresponds (vector a dimensions) (vector b dimensions)
  | udt (ka kb : Option String) (name : String) {as bs : List (String × CqlTypeInfo)}
    (fa fb : Bool) (hnodup : (as.map Prod.fst).Nodup)
    (hperm : (as.map Prod.fst).Perm (bs.map Prod.fst)) :
    Corresponds (udt ka name as fa) (udt kb name bs fb)

theorem sameTypes_of_getElem? {as bs : List CqlTypeInfo} (hlen : as.length = bs.length)
    (h : ∀ (i : ℕ) a b, as[i]? = some a → bs[i]? = some b → sameType a b = true) :
    sameTypes as bs = true := by
  induction as generalizing bs with
  | nil =>
    cases bs with
    | nil => rfl
    | cons b bs => cases hlen
  | cons a as ih =>
    cases bs with
    | nil => cases hlen
    | cons b bs =>
      rw [sameTypes, h 0 a b rfl rfl, Bool.true_and]
      exact ih (by simpa using hlen) fun i => h (i + 1)

/-- Without the definitions there is no difference left. -/
theorem Corresponds.sameType_bare {a b : CqlTypeInfo} (h : Corresponds a b) :
    sameType a.bare b.bare = true := by
  induction h with
  | primitive kind => simp [bare, sameType]
  | custom name => simp [bare, sameType]
  | list fa fb h ih => exact ih
  | set fa fb h ih => exact ih
  | map fa fb hkey hvalue ihKey ihValue => rw [bare, bare, sameType, ihKey, ihValue, Bool.true_and]
  | tuple hlen h ih =>
    rw [bare, bare, sameType, bareAll_eq_map, bareAll_eq_map]
    refine sameTypes_of_getElem? (by simpa using hlen) ?_
    intro i a b ha hb
    rw [List.getElem?_map, Option.map_eq_some_iff] at ha hb
    obtain ⟨a, ha, rfl⟩ := ha
    obtain ⟨b, hb, rfl⟩ := hb
    exact ih i a b ha hb
  | vector dimensions h ih => simp [bare, sameType, ih]
  | udt ka kb name fa fb hnodup hperm => simp [bare, sameType, sameFields]

theorem Corresponds.fixedWidth_eq {a b : CqlTypeInfo} (h : Corresponds a b) :
    a.fixedWidth = b.fixedWidth := by
  cases h <;> rfl

theorem Corresponds.hasCells_eq {a b : CqlTypeInfo} (h : Corresponds a b) :
    a.hasCells = b.hasCells := by
  cases h <;> rfl

/-- The components at one position have corresponding types. -/
theorem Corresponds.cellType {a b c d : CqlTypeInfo} {i : ℕ} (h : Corresponds a b)
    (hc : a.cellType i = some c) (hd : b.cellType i = some d) : Corresponds c d := by
  cases h with
  | primitive | custom | udt => cases hc
  | list fa fb h | set fa fb h | vector dimensions h =>
    cases hc
    cases hd
    exact h
  | map fa fb hkey hvalue =>
    rw [CqlTypeInfo.cellType, Option.some_inj] at hc hd
    split_ifs at hc hd
    · rwa [← hc, ← hd]
    · rwa [← hc, ← hd]
  | tuple hlen h => exact h i c d hc hd

theorem Corresponds.exists_cellType {a b c : CqlTypeInfo} {i : ℕ} (h : Corresponds a b)
    (hc : a.cellType i = some c) : ∃ d, b.cellType i = some d := by
  cases h with
  | primitive | custom | udt => cases hc
  | list | set | map | vector => exact ⟨_, rfl⟩
  | tuple hlen h =>
    obtain ⟨hi, -⟩ := List.getElem?_eq_some_iff.1 hc
    exact ⟨_, List.getElem?_eq_getElem (by omega)⟩

/-- Induction over the shape, with one case for all collections. -/
@[elab_as_elim]
theorem Corresponds.cell_induction {motive : CqlTypeInfo → CqlTypeInfo → Prop}
    (primitive : ∀ kind, motive (.primitive kind) (.primitive kind))
    (custom : ∀ name, motive (.custom name) (.custom name))
    (udt : ∀ ka kb name (as bs : List (String × CqlTypeInfo)) fa fb, (as.map Prod.fst).Nodup →
      (as.map Prod.fst).Perm (bs.map Prod.fst) → motive (.udt ka name as fa) (.udt kb name bs fb))
    (collection : ∀ a b, Corresponds a b → a.hasCells = true →
      (∀ i c d, a.cellType i = some c → b.cellType i = some d → motive c d) → motive a b)
    {a b : CqlTypeInfo} (h : Corresponds a b) : motive a b := by
  induction h with
  | primitive kind => exact primitive kind
  | custom name => exact custom name
  | udt ka kb name fa fb hnodup hperm => exact udt ka kb name _ _ fa fb hnodup hperm
  | list fa fb h ih =>
    refine collection _ _ (.list fa fb h) rfl ?_
    rintro i c d ⟨⟩ ⟨⟩
    exact ih
  | set fa fb h ih =>
    refine collection _ _ (.set fa fb h) rfl ?_
    rintro i c d ⟨⟩ ⟨⟩
    exact ih
  | vector dimensions h ih =>
    refine collection _ _ (.vector dimensions h) rfl ?_
    rintro i c d ⟨⟩ ⟨⟩
    exact ih
  | map fa fb hkey hvalue ihKey ihValue =>
    refine collection _ _ (.map fa fb hkey hvalue) rfl ?_
    intro i c d hc hd
    rw [CqlTypeInfo.cellType, Option.some_inj] at hc hd
    split_ifs at hc hd
    · rwa [← hc, ← hd]
    · rwa [← hc, ← hd]
  | tuple hlen h ih => exact collection _ _ (.tuple hlen h) rfl ih

/-! ### Parsing -/

theorem leaf_bare (resolver : UdtResolver) (name : List Char) (lower : String) (frozen : Bool) :
    leaf (fun _ _ => none) name lower frozen = (leaf resolver name lower frozen).bare := by
  rw [leaf, leaf]
  split
  · rfl
  · split
    · rfl
    · rfl

variable [AlphanumericTable] {resolver : UdtResolver}

/-- The resolver is only ever asked at a name, and does not decide how the text is read on. -/
theorem parseTypeInner_bare (text : List Char) (fuel : ℕ) :
    (∀ frozen rest parsed behind, parseTypeInner resolver text fuel frozen rest =
      .ok (parsed, behind) →
      parseTypeInner (fun _ _ => none) text fuel frozen rest = .ok (parsed.bare, behind)) ∧
    (∀ rest parsed behind, parseTupleRest resolver text fuel rest = .ok (parsed, behind) →
      parseTupleRest (fun _ _ => none) text fuel rest = .ok (bareAll parsed, behind)) := by
  induction fuel with
  | zero =>
    constructor
    · intro frozen rest parsed behind h
      cases h
    · intro rest parsed behind h
      cases h
  | succ fuel ih =>
    obtain ⟨ihInner, ihRest⟩ := ih
    constructor
    · intro frozen rest parsed behind h
      rw [parseTypeInner] at h ⊢
      obtain ⟨⟨name, rest'⟩, hname, h⟩ := bind_eq_ok.1 h
      refine bind_eq_ok.2 ⟨_, hname, ?_⟩
      dsimp only at h ⊢
      split at h
      -- frozen, list, set, map, tuple, vector, and a name
      · obtain ⟨_, hopen, h⟩ := bind_eq_ok.1 h
        obtain ⟨⟨inner, _⟩, hinner, h⟩ := bind_eq_ok.1 h
        obtain ⟨_, hclose, h⟩ := bind_eq_ok.1 h
        cases h
        simp only [hopen, ihInner _ _ _ _ hinner, hclose, bind, Except.bind]
        rfl
      · obtain ⟨_, hopen, h⟩ := bind_eq_ok.1 h
        obtain ⟨⟨element, _⟩, helement, h⟩ := bind_eq_ok.1 h
        obtain ⟨_, hclose, h⟩ := bind_eq_ok.1 h
        cases h
        simp only [hopen, ihInner _ _ _ _ helement, hclose, bind, Except.bind]
        rfl
      · obtain ⟨_, hopen, h⟩ := bind_eq_ok.1 h
        obtain ⟨⟨element, _⟩, helement, h⟩ := bind_eq_ok.1 h
        obtain ⟨_, hclose, h⟩ := bind_eq_ok.1 h
        cases h
        simp only [hopen, ihInner _ _ _ _ helement, hclose, bind, Except.bind]
        rfl
      · obtain ⟨_, hopen, h⟩ := bind_eq_ok.1 h
        obtain ⟨⟨key, _⟩, hkey, h⟩ := bind_eq_ok.1 h
        obtain ⟨_, hcomma, h⟩ := bind_eq_ok.1 h
        obtain ⟨⟨value, _⟩, hvalue, h⟩ := bind_eq_ok.1 h
        obtain ⟨_, hclose, h⟩ := bind_eq_ok.1 h
        cases h
        simp only [hopen, ihInner _ _ _ _ hkey, hcomma, ihInner _ _ _ _ hvalue, hclose, bind,
          Except.bind]
        rfl
      · obtain ⟨_, hopen, h⟩ := bind_eq_ok.1 h
        obtain ⟨⟨first, _⟩, hfirst, h⟩ := bind_eq_ok.1 h
        obtain ⟨⟨others, _⟩, hothers, h⟩ := bind_eq_ok.1 h
        obtain ⟨_, hclose, h⟩ := bind_eq_ok.1 h
        cases h
        simp only [hopen, ihInner _ _ _ _ hfirst, ihRest _ _ _ hothers, hclose, bind, Except.bind]
        rfl
      · obtain ⟨_, hopen, h⟩ := bind_eq_ok.1 h
        obtain ⟨⟨element, _⟩, helement, h⟩ := bind_eq_ok.1 h
        obtain ⟨_, hcomma, h⟩ := bind_eq_ok.1 h
        obtain ⟨⟨dims, _⟩, hdims, h⟩ := bind_eq_ok.1 h
        obtain ⟨_, hclose, h⟩ := bind_eq_ok.1 h
        cases h
        simp only [hopen, ihInner _ _ _ _ helement, hcomma, hdims, hclose, bind, Except.bind]
        rfl
      · cases h
        rw [← leaf_bare]
        rfl
    · intro rest parsed behind h
      rw [parseTupleRest] at h ⊢
      split at h
      · obtain ⟨⟨element, rest'⟩, helement, h⟩ := bind_eq_ok.1 h
        obtain ⟨⟨others, rest''⟩, hothers, h⟩ := bind_eq_ok.1 h
        cases h
        simp only [ihInner _ _ _ _ helement, ihRest _ _ _ hothers, bind, Except.bind]
        rfl
      · cases h
        rfl

/-- A type that is parsed without a resolver has the fields of its UDTs left out. -/
theorem parse_of_parseWith {text : String} {resolved : CqlTypeInfo}
    (h : parseWith resolver text = .ok resolved) : parse text = .ok resolved.bare := by
  rw [parseWith] at h
  obtain ⟨⟨parsed, rest⟩, hinner, h⟩ := bind_eq_ok.1 h
  rw [parse, parseWith]
  refine bind_eq_ok.2 ⟨_, (parseTypeInner_bare _ _).1 _ _ _ _ hinner, ?_⟩
  dsimp only at h ⊢
  split at h
  · cases h
    rfl
  · cases h

end CqlTypeInfo

end Cdm
