import Cdm.Codec.Framing
import Cdm.Codec.Resolution

/-!
# Conversion plans there and back

A run converts a value into the type of the target when it writes it, and back into the type of the
origin when it compares it.  The two plans come from one planner with the types exchanged.  Here it is
shown that they have one shape, and on which values the second undoes the first, provided that the
codecs at the leaves are inverse to each other.

The types of columns are parsed without a resolver, so no UDT has known fields and none is ever
converted field by field.
-/

namespace Cdm

namespace CqlTypeInfo

/-! ### Types without known fields -/

mutual

/-- No UDT of the type has known fields. -/
def Unresolved : CqlTypeInfo → Prop
  | list element _ | set element _ | vector element _ => Unresolved element
  | map key value _ => Unresolved key ∧ Unresolved value
  | tuple elements => UnresolvedAll elements
  | udt _ _ fields _ => fields = []
  | primitive _ | custom _ => True

def UnresolvedAll : List CqlTypeInfo → Prop
  | [] => True
  | element :: elements => Unresolved element ∧ UnresolvedAll elements

end

mutual

theorem unresolved_bare (t : CqlTypeInfo) : t.bare.Unresolved := by
  cases t with
  | primitive | custom => trivial
  | list element | set element | vector element =>
    simpa only [bare, Unresolved] using unresolved_bare element
  | map key value => exact ⟨unresolved_bare key, unresolved_bare value⟩
  | tuple elements => exact unresolvedAll_bare elements
  | udt => rfl

theorem unresolvedAll_bare (ts : List CqlTypeInfo) : UnresolvedAll (bareAll ts) := by
  cases ts with
  | nil => trivial
  | cons t ts => exact ⟨unresolved_bare t, unresolvedAll_bare ts⟩

end

/-- A type that is parsed without a resolver has no known fields. -/
theorem unresolved_of_parse [AlphanumericTable] {text : String} {cqlType : CqlTypeInfo}
    (h : parse text = .ok cqlType) : cqlType.Unresolved := by
  have hbare : cqlType = cqlType.bare := Except.ok.inj (h.symm.trans (parse_of_parseWith h))
  rw [hbare]
  exact unresolved_bare cqlType

/-! ### Exchanging the types -/

mutual

theorem sameType_comm (a b : CqlTypeInfo) : sameType a b = sameType b a := by
  cases a with
  | list a fa =>
    cases b with
    | list b fb => simpa only [sameType] using sameType_comm a b
    | _ => rfl
  | set a fa =>
    cases b with
    | set b fb => simpa only [sameType] using sameType_comm a b
    | _ => rfl
  | map ka va fa =>
    cases b with
    | map kb vb fb => simp only [sameType, sameType_comm ka kb, sameType_comm va vb]
    | _ => rfl
  | tuple as =>
    cases b with
    | tuple bs => simpa only [sameType] using sameTypes_comm as bs
    | _ => rfl
  | udt ka na as fa =>
    cases b with
    | udt kb nb bs fb => simp only [sameType, sameFields_comm as bs, Bool.beq_comm (a := na)]
    | _ => rfl
  | vector a da =>
    cases b with
    | vector b db => simp only [sameType, sameType_comm a b, Bool.beq_comm (a := da)]
    | _ => rfl
  | primitive a =>
    cases b with
    | primitive b => simp [sameType, eq_comm]
    | _ => rfl
  | custom a =>
    cases b with
    | custom b => simp [sameType, eq_comm]
    | _ => rfl

theorem sameTypes_comm (as bs : List CqlTypeInfo) : sameTypes as bs = sameTypes bs as := by
  cases as with
  | nil => cases bs <;> rfl
  | cons a as =>
    cases bs with
    | nil => rfl
    | cons b bs => simp only [sameTypes, sameType_comm a b, sameTypes_comm as bs]

theorem sameFields_comm (as bs : List (String × CqlTypeInfo)) :
    sameFields as bs = sameFields bs as := by
  cases as with
  | nil => cases bs <;> rfl
  | cons a as =>
    cases bs with
    | nil => rfl
    | cons b bs =>
      obtain ⟨na, a⟩ := a
      obtain ⟨nb, b⟩ := b
      simp only [sameFields, sameType_comm a b, sameFields_comm as bs, Bool.beq_comm (a := na)]

end

end CqlTypeInfo

/-! ### Inverse codecs -/

/-- The codecs of a registry undo each other: where there is one from a type to another, there is one
back, which undoes it.  What a codec makes has the width of its type. -/
structure CodecRegistry.MutuallyInverse (registry : CodecRegistry) : Prop where
  inverse : ∀ {a b : Primitive} {f : Converter},
    registry.converter (.primitive a) (.primitive b) = some f →
    ∃ g, registry.converter (.primitive b) (.primitive a) = some g ∧
      ∀ x y, f (some x) = .ok y → ∃ bytes, y = some bytes ∧ g (some bytes) = .ok (some x)
  width : ∀ {a b : Primitive} {f : Converter},
    registry.converter (.primitive a) (.primitive b) = some f →
    ∀ {x y : Bytes} {w : ℕ}, f (some x) = .ok (some y) → b.fixedWidth = some w → y.length = w

theorem CodecRegistry.MutuallyInverse.isSome_comm {registry : CodecRegistry}
    (h : registry.MutuallyInverse) (a b : Primitive) :
    (registry.converter (.primitive a) (.primitive b)).isSome =
      (registry.converter (.primitive b) (.primitive a)).isSome := by
  rw [Bool.eq_iff_iff, Option.isSome_iff_exists, Option.isSome_iff_exists]
  constructor
  · rintro ⟨f, hf⟩
    obtain ⟨g, hg, -⟩ := h.inverse hf
    exact ⟨g, hg⟩
  · rintro ⟨f, hf⟩
    obtain ⟨g, hg, -⟩ := h.inverse hf
    exact ⟨g, hg⟩

theorem assignable_comm (a b : CqlTypeInfo) : assignable a b = assignable b a := by
  rw [assignable, assignable]
  cases assignableFamily a with
  | none => cases assignableFamily b <;> rfl
  | some x =>
    cases assignableFamily b with
    | none => rfl
    | some y => exact Bool.beq_comm

namespace Planner

open ConversionPlan CqlTypeInfo

variable {planner : Planner}

theorem planEach_eq (as : List CqlTypeInfo) : planner.planEach as = as.map planner.planTypes := by
  induction as with
  | nil => rfl
  | cons a as ih => rw [planEach, ih, List.map_cons]

/-- The plans of the components of two tuples. -/
def planAll (planner : Planner) (as bs : List CqlTypeInfo) : List ConversionPlan :=
  List.zipWith planner.planTypes as bs

/-- Two plans agree on whether they convert at all, and on whether anything has to be done. -/
def SameShape (p q : ConversionPlan) : Prop :=
  p.isPassthrough = q.isPassthrough ∧ p.isIdentity = q.isIdentity

theorem SameShape.wrap {p q : ConversionPlan} (h : SameShape p q)
    {build : ConversionPlan → ConversionPlan} (hbuild : ∀ p, (build p).isPassthrough = false ∧
      (build p).isIdentity = false) :
    SameShape (Planner.wrap build p) (Planner.wrap build q) := by
  rw [Planner.wrap, Planner.wrap, h.1]
  split_ifs
  · exact ⟨rfl, rfl⟩
  · rw [SameShape, (hbuild p).1, (hbuild q).1, (hbuild p).2, (hbuild q).2]
    exact ⟨rfl, rfl⟩

mutual

/-- A plan and the plan the other way have one shape. -/
theorem sameShape (hinverse : planner.registry.MutuallyInverse) (a b : CqlTypeInfo)
    (ha : a.Unresolved) (hb : b.Unresolved) :
    SameShape (planner.planTypes a b) (planner.planTypes b a) := by
  rw [planTypes.eq_def planner a b, planTypes.eq_def planner b a, sameType_comm b a,
    assignable_comm b a]
  split_ifs with hsame
  · exact ⟨rfl, rfl⟩
  cases a with
  | list a fa =>
    cases b with
    | list b fb => exact (sameShape hinverse a b ha hb).wrap fun _ => ⟨rfl, rfl⟩
    | _ => exact ⟨rfl, rfl⟩
  | set a fa =>
    cases b with
    | set b fb => exact (sameShape hinverse a b ha hb).wrap fun _ => ⟨rfl, rfl⟩
    | _ => exact ⟨rfl, rfl⟩
  | map ka va fa =>
    cases b with
    | map kb vb fb =>
      dsimp only
      rw [(sameShape hinverse ka kb ha.1 hb.1).1, (sameShape hinverse va vb ha.2 hb.2).1]
      split_ifs <;> exact ⟨rfl, rfl⟩
    | _ => exact ⟨rfl, rfl⟩
  | tuple as =>
    cases b with
    | tuple bs =>
      have hall : (List.zipWith (fun a b => planner.planTypes a b) as bs).all isPassthrough =
          (List.zipWith (fun a b => planner.planTypes a b) bs as).all isPassthrough :=
        sameShape_all hinverse as bs ha hb
      simp only [planEach_eq, List.zipWith_map_left, ne_comm (a := bs.length), hall]
      split_ifs <;> exact ⟨rfl, rfl⟩
    | _ => exact ⟨rfl, rfl⟩
  | udt ka na as fa =>
    cases b with
    | udt kb nb bs fb =>
      cases ha
      cases hb
      exact ⟨rfl, rfl⟩
    | _ => exact ⟨rfl, rfl⟩
  | vector a da =>
    cases b with
    | vector b db =>
      dsimp only
      have helement := sameShape hinverse a b ha hb
      by_cases hdim : da = db
      · subst hdim
        simp only [ne_eq, not_true, if_false, helement.1]
        split_ifs
        · exact ⟨rfl, rfl⟩
        · cases a.fixedWidth <;> cases b.fixedWidth <;> exact ⟨rfl, rfl⟩
      · rw [if_pos hdim, if_pos (Ne.symm hdim)]
        exact ⟨rfl, rfl⟩
    | _ => exact ⟨rfl, rfl⟩
  | primitive a =>
    cases b with
    | primitive b =>
      have hcodec := hinverse.isSome_comm a b
      dsimp only
      cases hf : planner.registry.converter (.primitive a) (.primitive b) with
      | none =>
        cases hg : planner.registry.converter (.primitive b) (.primitive a) with
        | none => exact ⟨rfl, rfl⟩
        | some g =>
          rw [hf, hg] at hcodec
          cases hcodec
      | some f =>
        cases hg : planner.registry.converter (.primitive b) (.primitive a) with
        | none =>
          rw [hf, hg] at hcodec
          cases hcodec
        | some g => exact ⟨rfl, rfl⟩
    | _ => exact ⟨rfl, rfl⟩
  | custom a => cases b <;> exact ⟨rfl, rfl⟩

theorem sameShape_all (hinverse : planner.registry.MutuallyInverse) (as bs : List CqlTypeInfo)
    (has : UnresolvedAll as) (hbs : UnresolvedAll bs) :
    (planner.planAll as bs).all isPassthrough = (planner.planAll bs as).all isPassthrough := by
  cases as with
  | nil => cases bs <;> rfl
  | cons a as =>
    cases bs with
    | nil => rfl
    | cons b bs =>
      have hfirst := sameShape hinverse a b has.1 hbs.1
      have hothers := sameShape_all hinverse as bs has.2 hbs.2
      simp only [planAll] at hothers
      simp only [planAll, List.zipWith_cons_cons, List.all_cons, hfirst.1, hothers]

end

/-! ### Canonical values -/

section Canonical

variable (planner)

mutual

/-- The value is framed as the conversion from `origin` to `target` frames its results.  A value that
is not converted, or that a codec converts, may have any form. -/
def Canonical (origin target : CqlTypeInfo) (bytes : Bytes) : Prop :=
  (planner.planTypes origin target).isIdentity = true ∨
    match origin, target with
    | .list a _, .list b _ =>
      ∃ elements, Wire.IsSequence elements bytes ∧ ∀ e ∈ elements, ∀ x, e = some x → Canonical a b x
    | .set a _, .set b _ =>
      ∃ elements, Wire.IsSequence elements bytes ∧ elements.Nodup ∧
        ∀ e ∈ elements, ∀ x, e = some x → Canonical a b x
    | .map ka va _, .map kb vb _ =>
      ∃ count entries, Wire.IsMap count entries bytes ∧ ∀ entry ∈ entries,
        (∀ x, entry.1 = some x → Canonical ka kb x) ∧ ∀ x, entry.2 = some x → Canonical va vb x
    | .tuple as, .tuple bs =>
      ∃ elements, elements.length = as.length ∧ Wire.writeElements elements = .ok bytes ∧
        CanonicalEach as bs elements
    | .vector a dimensions, .vector b _ =>
      -- elements that no codec converts keep their width
      (planner.planTypes a b).isIdentity = false ∨ dimensions = 0 ∨ a.fixedWidth = b.fixedWidth
    | _, _ => True

/-- The components of a tuple are framed so, each for its own types. -/
def CanonicalEach : List CqlTypeInfo → List CqlTypeInfo → List RawCell → Prop
  | a :: as, b :: bs, element :: elements =>
    (∀ x, element = some x → Canonical a b x) ∧ CanonicalEach as bs elements
  | _, _, _ => True

end

end Canonical

/-- Cell by cell, where null stays null. -/
def cellwise (f : Bytes → Except CdmError Bytes) : Converter
  | none => .ok none
  | some bytes => (f bytes).map some

theorem undone_cellwise {f g : Bytes → Except CdmError Bytes} {C : Bytes → Prop}
    (h : Fallible.UndoneOn f g C) :
    Fallible.UndoneOn (cellwise f) (cellwise g) (fun cell => ∀ x, cell = some x → C x) := by
  intro cell out hf
  cases cell with
  | none =>
    cases hf
    simp [cellwise]
  | some bytes =>
    obtain ⟨converted, hconverted, rfl⟩ := Fallible.map_eq_ok.1 hf
    have hiff := h hconverted
    simp only [cellwise, Fallible.map_eq_ok, Option.some.injEq, exists_eq_right, hiff,
      forall_eq']

theorem applyElement_apply (p : ConversionPlan) : applyElement p.apply = p.apply := by
  funext cell
  cases cell with
  | none => exact (apply_none p).symm
  | some bytes => rfl

theorem apply_list (p : ConversionPlan) :
    (ConversionPlan.list p).apply = cellwise fun bytes => applySequence p.apply bytes false := by
  funext cell
  cases cell <;> rfl

theorem apply_set (p : ConversionPlan) :
    (ConversionPlan.set p).apply = cellwise fun bytes => applySequence p.apply bytes true := by
  funext cell
  cases cell <;> rfl

theorem apply_entries (k v : ConversionPlan) :
    (ConversionPlan.map k v).apply = cellwise (applyMap k.apply v.apply) := by
  funext cell
  cases cell <;> rfl

theorem applyAll_eq (plans : List ConversionPlan) : applyAll plans = plans.map ConversionPlan.apply := by
  induction plans with
  | nil => rfl
  | cons plan plans ih => rw [applyAll, ih, List.map_cons]

theorem apply_tuple (plans : List ConversionPlan) :
    (ConversionPlan.tuple plans).apply = cellwise (applyTuple (plans.map ConversionPlan.apply)) := by
  rw [← applyAll_eq]
  funext cell
  cases cell <;> rfl

theorem apply_vector (p : ConversionPlan) (dimensions width : ℕ) :
    (ConversionPlan.vector p dimensions width).apply =
      cellwise (applyVector p.apply dimensions width) := by
  funext cell
  cases cell <;> rfl

/-! ### The plans that convert -/

/-- Whether two types are converted element by element, or by a codec. -/
def sameKind : CqlTypeInfo → CqlTypeInfo → Bool
  | .list _ _, .list _ _ | .set _ _, .set _ _ | .map _ _ _, .map _ _ _ | .tuple _, .tuple _
  | .udt _ _ _ _, .udt _ _ _ _ | .vector _ _, .vector _ _ | .primitive _, .primitive _ => true
  | _, _ => false

/-- Types of different kinds are not converted. -/
theorem sameKind_of_isIdentity {a b : CqlTypeInfo}
    (h : (planner.planTypes a b).isIdentity = false) : sameKind a b = true := by
  rw [planTypes.eq_def] at h
  split at h
  · cases h
  · cases a <;> cases b <;> first | rfl | cases h

section Shapes

theorem planTypes_list {a b : CqlTypeInfo} {fa fb : Bool}
    (h : (planner.planTypes (.list a fa) (.list b fb)).isIdentity = false) :
    planner.planTypes (.list a fa) (.list b fb) = .list (planner.planTypes a b) := by
  rw [planTypes.eq_def] at h ⊢
  split_ifs at h ⊢
  · cases h
  · dsimp only [wrap] at h ⊢
    split_ifs at h ⊢
    · cases h
    · rfl

theorem planTypes_set {a b : CqlTypeInfo} {fa fb : Bool}
    (h : (planner.planTypes (.set a fa) (.set b fb)).isIdentity = false) :
    planner.planTypes (.set a fa) (.set b fb) = .set (planner.planTypes a b) := by
  rw [planTypes.eq_def] at h ⊢
  split_ifs at h ⊢
  · cases h
  · dsimp only [wrap] at h ⊢
    split_ifs at h ⊢
    · cases h
    · rfl

theorem planTypes_entries {ka va kb vb : CqlTypeInfo} {fa fb : Bool}
    (h : (planner.planTypes (.map ka va fa) (.map kb vb fb)).isIdentity = false) :
    planner.planTypes (.map ka va fa) (.map kb vb fb) =
      .map (planner.planTypes ka kb) (planner.planTypes va vb) := by
  rw [planTypes.eq_def] at h ⊢
  split_ifs at h ⊢
  · cases h
  · dsimp only at h ⊢
    split_ifs at h ⊢
    · cases h
    · rfl

theorem planTypes_tuple {as bs : List CqlTypeInfo}
    (h : (planner.planTypes (.tuple as) (.tuple bs)).isIdentity = false) :
    as.length = bs.length ∧
      planner.planTypes (.tuple as) (.tuple bs) = .tuple (planner.planAll as bs) := by
  rw [planTypes.eq_def] at h ⊢
  split_ifs at h ⊢
  · cases h
  · dsimp only at h ⊢
    split_ifs at h ⊢ with hlen hall
    · cases h
    · cases h
    · refine ⟨?_, ?_⟩
      · by_contra hne
        simp [hne] at hlen
      · rw [planEach_eq, List.zipWith_map_left]
        rfl

theorem planTypes_vector {a b : CqlTypeInfo} {da db : ℕ}
    (h : (planner.planTypes (.vector a da) (.vector b db)).isIdentity = false) :
    ∃ width width', da = db ∧ a.fixedWidth = some width ∧ b.fixedWidth = some width' ∧
      planner.planTypes (.vector a da) (.vector b db) = .vector (planner.planTypes a b) da width := by
  rw [planTypes.eq_def] at h ⊢
  split_ifs at h ⊢
  · cases h
  · dsimp only at h ⊢
    split_ifs at h ⊢ with hdim hpass
    · cases h
    · cases h
    · cases ha : a.fixedWidth with
      | none =>
        rw [ha] at h
        cases h
      | some width =>
        cases hb : b.fixedWidth with
        | none =>
          rw [ha, hb] at h
          cases h
        | some width' => exact ⟨width, width', not_not.1 hdim, rfl, rfl, rfl⟩

theorem planTypes_primitive {a b : Primitive}
    (h : (planner.planTypes (.primitive a) (.primitive b)).isIdentity = false) :
    ∃ f, planner.registry.converter (.primitive a) (.primitive b) = some f ∧
      planner.planTypes (.primitive a) (.primitive b) = .codec f := by
  rw [planTypes.eq_def] at h ⊢
  split_ifs at h ⊢
  · cases h
  · dsimp only at h ⊢
    cases hf : planner.registry.converter (.primitive a) (.primitive b) with
    | none =>
      rw [hf] at h
      cases h
    | some f => exact ⟨f, rfl, rfl⟩

/-- A conversion makes no value null and no null a value. -/
theorem apply_eq_none_iff (hinverse : planner.registry.MutuallyInverse) {a b : CqlTypeInfo}
    (ha : a.Unresolved) {cell out : RawCell} (h : (planner.planTypes a b).apply cell = .ok out) :
    out = none ↔ cell = none := by
  have hcellwise {f : Bytes → Except CdmError Bytes} {x : Bytes}
      (hf : cellwise f (some x) = .ok out) : out = none ↔ some x = none := by
    obtain ⟨y, -, rfl⟩ := Fallible.map_eq_ok.1 hf
    simp
  cases cell with
  | none =>
    rw [apply_none] at h
    cases h
    rfl
  | some x =>
    by_cases hid : (planner.planTypes a b).isIdentity = true
    · rw [apply_of_isIdentity hid] at h
      cases h
      rfl
    rw [Bool.not_eq_true] at hid
    have hkind := sameKind_of_isIdentity hid
    cases a with
    | list a fa =>
      cases b with
      | list b fb =>
        rw [planTypes_list hid, apply_list] at h
        exact hcellwise h
      | _ => cases hkind
    | set a fa =>
      cases b with
      | set b fb =>
        rw [planTypes_set hid, apply_set] at h
        exact hcellwise h
      | _ => cases hkind
    | map ka va fa =>
      cases b with
      | map kb vb fb =>
        rw [planTypes_entries hid, apply_entries] at h
        exact hcellwise h
      | _ => cases hkind
    | tuple as =>
      cases b with
      | tuple bs =>
        rw [(planTypes_tuple hid).2, apply_tuple] at h
        exact hcellwise h
      | _ => cases hkind
    | udt ka na as fa =>
      cases b with
      | udt kb nb bs fb =>
        cases ha
        rw [planTypes.eq_def] at hid
        split_ifs at hid
        · cases hid
        · cases hid
      | _ => cases hkind
    | vector a da =>
      cases b with
      | vector b db =>
        obtain ⟨width, width', rfl, -, -, hplan⟩ := planTypes_vector hid
        rw [hplan, apply_vector] at h
        exact hcellwise h
      | _ => cases hkind
    | primitive a =>
      cases b with
      | primitive b =>
        obtain ⟨f, hf, hplan⟩ := planTypes_primitive hid
        obtain ⟨g, -, hback⟩ := hinverse.inverse hf
        rw [hplan] at h
        obtain ⟨y, rfl, -⟩ := hback x out h
        simp
      | _ => cases hkind
    | custom a => cases b <;> cases hkind

end Shapes

mutual

/-- The values a conversion is undone on by the conversion the other way. -/
theorem undone (hinverse : planner.registry.MutuallyInverse) (a b : CqlTypeInfo)
    (ha : a.Unresolved) (hb : b.Unresolved) :
    Fallible.UndoneOn (planner.planTypes a b).apply (planner.planTypes b a).apply
      (fun cell => ∀ x, cell = some x → planner.Canonical a b x) := by
  have hshape := (sameShape hinverse a b ha hb).2
  by_cases hid : (planner.planTypes a b).isIdentity = true
  · intro cell out hf
    rw [apply_of_isIdentity hid] at hf
    cases hf
    rw [apply_of_isIdentity (hshape ▸ hid)]
    refine ⟨fun _ x _ => ?_, fun _ => rfl⟩
    unfold Canonical
    exact .inl hid
  rw [Bool.not_eq_true] at hid
  have hid' : (planner.planTypes b a).isIdentity = false := hshape ▸ hid
  cases a with
  | list a fa =>
    cases b with
    | list b fb =>
      have h := undone hinverse a b ha hb
      rw [← applyElement_apply, ← applyElement_apply (planner.planTypes b a)] at h
      rw [planTypes_list hid, planTypes_list hid', apply_list, apply_list]
      refine (undone_cellwise (undone_list h)).congr fun cell => forall₂_congr fun x _ => ?_
      rw [Canonical, hid]
      simp only [Bool.false_eq_true, false_or]
    | _ => exact absurd (sameKind_of_isIdentity hid) Bool.false_ne_true
  | set a fa =>
    cases b with
    | set b fb =>
      have h := undone hinverse a b ha hb
      rw [← applyElement_apply, ← applyElement_apply (planner.planTypes b a)] at h
      rw [planTypes_set hid, planTypes_set hid', apply_set, apply_set]
      refine (undone_cellwise (undone_set h)).congr fun cell => forall₂_congr fun x _ => ?_
      rw [Canonical, hid]
      simp only [Bool.false_eq_true, false_or]
    | _ => exact absurd (sameKind_of_isIdentity hid) Bool.false_ne_true
  | map ka va fa =>
    cases b with
    | map kb vb fb =>
      have hk := undone hinverse ka kb ha.1 hb.1
      have hv := undone hinverse va vb ha.2 hb.2
      rw [← applyElement_apply, ← applyElement_apply (planner.planTypes kb ka)] at hk
      rw [← applyElement_apply, ← applyElement_apply (planner.planTypes vb va)] at hv
      rw [planTypes_entries hid, planTypes_entries hid', apply_entries, apply_entries]
      refine (undone_cellwise (undone_map hk hv)).congr fun cell => forall₂_congr fun x _ => ?_
      rw [Canonical, hid]
      simp only [Bool.false_eq_true, false_or]
    | _ => exact absurd (sameKind_of_isIdentity hid) Bool.false_ne_true
  | tuple as =>
    cases b with
    | tuple bs =>
      obtain ⟨hlen, hplan⟩ := planTypes_tuple hid
      obtain ⟨-, hplan'⟩ := planTypes_tuple hid'
      have hfs : ((planner.planAll as bs).map ConversionPlan.apply).length = as.length := by
        simp [planAll, hlen]
      have hgs : ((planner.planAll bs as).map ConversionPlan.apply).length = as.length := by
        simp [planAll, hlen]
      rw [hplan, hplan', apply_tuple, apply_tuple]
      refine (undone_cellwise (undone_tuple (hfs.trans hgs.symm) (C := planner.CanonicalEach as bs)
        ?_)).congr fun cell => forall₂_congr fun x _ => ?_
      · intro elements converted hcount
        rw [hfs] at hcount
        exact undone_each hinverse as bs ha hb hlen elements converted hcount
      · rw [Canonical, hid, hfs]
        simp only [Bool.false_eq_true, false_or]
    | _ => exact absurd (sameKind_of_isIdentity hid) Bool.false_ne_true
  | udt ka na as fa =>
    cases b with
    | udt kb nb bs fb =>
      cases ha
      rw [planTypes.eq_def] at hid
      split_ifs at hid
      · cases hid
      · cases hid
    | _ => exact absurd (sameKind_of_isIdentity hid) Bool.false_ne_true
  | vector a da =>
    cases b with
    | vector b db =>
      obtain ⟨width, width', rfl, hwidth, hwidth', hplan⟩ := planTypes_vector hid
      obtain ⟨_, _, -, hsame, -, hplan'⟩ := planTypes_vector hid'
      cases hwidth'.symm.trans hsame
      rw [hplan, hplan', apply_vector, apply_vector]
      -- only primitives have a width, so the elements are converted by a codec or not at all
      obtain ⟨a, rfl⟩ : ∃ kind, a = .primitive kind := by
        cases a <;> first | exact ⟨_, rfl⟩ | cases hwidth
      obtain ⟨b, rfl⟩ : ∃ kind, b = .primitive kind := by
        cases b <;> first | exact ⟨_, rfl⟩ | cases hwidth'
      have hcanonical (x : Bytes) : planner.Canonical (.vector (.primitive a) da)
          (.vector (.primitive b) da) x ↔
          (planner.planTypes (.primitive a) (.primitive b)).isIdentity = false ∨ da = 0 ∨
            width = width' := by
        rw [Canonical, hid, hwidth, hwidth']
        simp only [Bool.false_eq_true, false_or, Option.some.injEq]
      have helement := (sameShape hinverse (.primitive a) (.primitive b) trivial trivial).2
      by_cases hel : (planner.planTypes (.primitive a) (.primitive b)).isIdentity = true
      · refine (undone_cellwise (undone_vector_id (fun x => apply_of_isIdentity hel _)
          (fun x => apply_of_isIdentity (helement ▸ hel) _) da)).congr fun cell =>
          forall₂_congr fun x _ => ?_
        rw [hcanonical, hel]
        simp only [Bool.true_eq_false, false_or]
      · rw [Bool.not_eq_true] at hel
        obtain ⟨f, hf, hp⟩ := planTypes_primitive hel
        obtain ⟨g, hg, hq⟩ := planTypes_primitive (helement ▸ hel)
        obtain ⟨g', hg', hback⟩ := hinverse.inverse hf
        cases hg.symm.trans hg'
        have hundo : ∀ x y, (planner.planTypes (.primitive a) (.primitive b)).apply (some x) = .ok y →
            ∃ converted, y = some converted ∧ converted.length = width' ∧
              (planner.planTypes (.primitive b) (.primitive a)).apply (some converted) =
                .ok (some x) := by
          rw [hp, hq]
          intro x y hxy
          obtain ⟨converted, rfl, hy⟩ := hback x y hxy
          exact ⟨converted, rfl, hinverse.width hf hxy hwidth', hy⟩
        refine (undone_cellwise (undone_vector hundo da)).congr fun cell =>
          forall₂_congr fun x _ => ?_
        rw [hcanonical, hel]
        simp only [true_or]
    | _ => exact absurd (sameKind_of_isIdentity hid) Bool.false_ne_true
  | primitive a =>
    cases b with
    | primitive b =>
      obtain ⟨f, hf, hplan⟩ := planTypes_primitive hid
      obtain ⟨g, hg, hplan'⟩ := planTypes_primitive hid'
      obtain ⟨g', hg', hback⟩ := hinverse.inverse hf
      cases hg.symm.trans hg'
      rw [hplan, hplan']
      intro cell out happly
      have hcanonical (x : Bytes) : planner.Canonical (.primitive a) (.primitive b) x := by
        unfold Canonical
        exact .inr trivial
      refine iff_of_true ?_ fun x _ => hcanonical x
      cases cell with
      | none =>
        cases happly
        rfl
      | some x =>
        obtain ⟨bytes, rfl, hx⟩ := hback x out happly
        exact hx
    | _ => exact absurd (sameKind_of_isIdentity hid) Bool.false_ne_true
  | custom a =>
    cases b <;> exact absurd (sameKind_of_isIdentity hid) Bool.false_ne_true

theorem undone_each (hinverse : planner.registry.MutuallyInverse) (as bs : List CqlTypeInfo)
    (has : UnresolvedAll as) (hbs : UnresolvedAll bs) (hlen : as.length = bs.length)
    (elements converted : List RawCell) (hcount : elements.length = as.length)
    (hf : convertEach ((planner.planAll as bs).map ConversionPlan.apply) elements = .ok converted) :
    convertEach ((planner.planAll bs as).map ConversionPlan.apply) converted = .ok elements ↔
      planner.CanonicalEach as bs elements := by
  cases as with
  | nil =>
    cases bs with
    | nil =>
      cases elements with
      | nil =>
        cases hf
        unfold CanonicalEach
        exact iff_of_true rfl trivial
      | cons element elements => cases hcount
    | cons b bs => cases hlen
  | cons a as =>
    cases bs with
    | nil => cases hlen
    | cons b bs =>
      cases elements with
      | nil => cases hcount
      | cons element elements =>
        obtain ⟨first, others, hfirst, hothers, rfl⟩ := convertEach_cons_eq_ok.1 hf
        rw [applyElement_apply] at hfirst
        have hiff : (planner.planTypes b a).apply first = .ok element ↔
            ∀ x, element = some x → planner.Canonical a b x := undone hinverse a b has.1 hbs.1 hfirst
        have hothersIff := undone_each hinverse as bs has.2 hbs.2 (by simpa using hlen) elements others
          (by simpa using hcount) hothers
        rw [CanonicalEach, ← hiff, ← hothersIff]
        have hcons : (planner.planAll (b :: bs) (a :: as)).map ConversionPlan.apply =
            (planner.planTypes b a).apply :: (planner.planAll bs as).map ConversionPlan.apply := rfl
        rw [hcons, convertEach_cons_eq_ok, applyElement_apply]
        constructor
        · rintro ⟨first', others', hfirst', hothers', heq⟩
          cases heq
          exact ⟨hfirst', hothers'⟩
        · rintro ⟨hfirst', hothers'⟩
          exact ⟨element, elements, hfirst', hothers', rfl⟩

end

end Planner

end Cdm
