import Cdm.Codec.Conversion

/-!
# The plans of supported types

A plan without an unsupported node follows the two types node by node.  The planner passes a value
through exactly where the types are alike, and otherwise plans one conversion for every component of
the target.
-/

namespace Cdm

open List

namespace ConversionPlan

mutual

/-- No node of the plan is unsupported. -/
def Supported : ConversionPlan → Prop
  | passthrough | codec _ => True
  | unsupported _ _ => False
  | list element | set element | vector element _ _ => Supported element
  | map key value => Supported key ∧ Supported value
  | tuple elements => SupportedAll elements
  | udt fields => SupportedFields fields

def SupportedAll : List ConversionPlan → Prop
  | [] => True
  | plan :: plans => Supported plan ∧ SupportedAll plans

def SupportedFields : List (ℕ × ConversionPlan) → Prop
  | [] => True
  | (_, plan) :: fields => Supported plan ∧ SupportedFields fields

end

/-- The fields a tuple or a UDT is converted by.  A tuple is a UDT whose fields keep their places.
-/
inductive IsRecord : ConversionPlan → List (ℕ × ConversionPlan) → Prop
  | tuple (plans : List ConversionPlan) :
    IsRecord (.tuple plans) (plans.zipIdx.map fun plan => (plan.2, plan.1))
  | udt (fields : List (ℕ × ConversionPlan)) : IsRecord (.udt fields) fields

theorem supportedAll_iff {plans : List ConversionPlan} :
    SupportedAll plans ↔ ∀ plan ∈ plans, plan.Supported := by
  induction plans with
  | nil => simp [SupportedAll]
  | cons plan plans ih => rw [SupportedAll, ih, forall_mem_cons]

theorem supportedFields_iff {fields : List (ℕ × ConversionPlan)} :
    SupportedFields fields ↔ ∀ field ∈ fields, field.2.Supported := by
  induction fields with
  | nil => simp [SupportedFields]
  | cons field fields ih => rw [SupportedFields, ih, forall_mem_cons]

theorem eq_passthrough {p : ConversionPlan} (h : p.isPassthrough = true) : p = passthrough := by
  cases p <;> first | rfl | cases h

theorem Supported.of_isPassthrough {p : ConversionPlan} (h : p.isPassthrough = true) :
    p.Supported := by
  rw [eq_passthrough h]
  trivial

end ConversionPlan

namespace Planner

open ConversionPlan

variable {planner : Planner}

/-! ### Components -/

theorem planFields_eq (as : List (String × CqlTypeInfo)) :
    planner.planFields as = as.map fun field => planner.planTypes field.2 := by
  induction as with
  | nil => rfl
  | cons field as ih =>
    obtain ⟨name, a⟩ := field
    rw [planFields, ih, map_cons]

theorem alikeEach_eq (as : List CqlTypeInfo) : planner.alikeEach as = as.map planner.alike :=
  List.eq_map_of_cons rfl (fun _ _ => rfl) as

theorem alikeFields_eq (as : List (String × CqlTypeInfo)) :
    planner.alikeFields as = (as.map Prod.snd).map planner.alike :=
  List.eq_map_snd_of_cons rfl (fun _ _ => rfl) as

/-- A planned component: where its value comes from, and the plan of the types. -/
def IsPlanOf (planner : Planner) (as : List CqlTypeInfo) (source : ℕ × CqlTypeInfo)
    (field : ℕ × ConversionPlan) : Prop :=
  field.1 = source.1 ∧ ∃ a, as[source.1]? = some a ∧ field.2 = planner.planTypes a source.2

/-- The plans of a UDT are those of its sources. -/
theorem udtFields_eq_some {as bs bs' : List (String × CqlTypeInfo)} {position : ℕ}
    {fields : List (ℕ × ConversionPlan)}
    (h : udtFields (!planner.compatJava && namesMatchAsSets as bs) (as.map Prod.fst)
      (planner.planFields as) position bs' = some fields) :
    List.Forall₂ (planner.IsPlanOf (as.map Prod.snd))
      ((bs'.zipIdx position).map fun field =>
        (planner.fieldSource as bs field.2 field.1.1, field.1.2)) fields := by
  induction bs' generalizing position fields with
  | nil =>
    cases h
    exact .nil
  | cons field bs' ih =>
    obtain ⟨name, b⟩ := field
    rw [udtFields] at h
    split at h
    · cases h
    · rename_i plan hplan
      obtain ⟨rest, hrest, rfl⟩ := Option.map_eq_some_iff.1 h
      rw [zipIdx_cons, map_cons]
      refine .cons ⟨rfl, ?_⟩ (ih hrest)
      rw [planFields_eq, getElem?_map, Option.map_eq_some_iff] at hplan
      obtain ⟨⟨name', a⟩, ha, rfl⟩ := hplan
      refine ⟨a, ?_, rfl⟩
      show (as.map Prod.snd)[if _ then _ else _]? = some a
      rw [getElem?_map, ha]
      rfl

/-- What `inPlace` tests. -/
theorem inPlace_map_iff {as : List CqlTypeInfo} {sources : List (ℕ × CqlTypeInfo)} :
    inPlace (as.map planner.alike) sources = true ↔
      ∀ (i : ℕ) (source : ℕ × CqlTypeInfo), sources[i]? = some source → source.1 = i ∧
        ∃ a, as[i]? = some a ∧ planner.alike a source.2 = true := by
  rw [inPlace, all_eq_true]
  constructor
  · intro h i source hsource
    have hmem := h (source, i) (mem_zipIdx_iff_getElem?.2 hsource)
    simp only [Bool.and_eq_true, beq_iff_eq, getElem?_map, Option.any_map] at hmem
    obtain ⟨hplace, htest⟩ := hmem
    cases ha : as[i]? with
    | none =>
      rw [ha] at htest
      cases htest
    | some a =>
      rw [ha] at htest
      exact ⟨hplace, a, rfl, htest⟩
  · rintro h ⟨source, i⟩ hmem
    obtain ⟨hplace, a, ha, halike⟩ := h i source (mem_zipIdx_iff_getElem?.1 hmem)
    simp [hplace, ha, halike]

theorem sources_tuple_getElem? {as bs : List CqlTypeInfo} {i : ℕ} :
    (planner.sources (.tuple as) (.tuple bs))[i]? = bs[i]?.map fun b => (i, b) := by
  rw [sources, getElem?_map, getElem?_zipIdx, Option.map_map, Nat.zero_add]
  rfl

/-- The tuples that stay as they are. -/
theorem tuple_inPlace_iff {as bs : List CqlTypeInfo} (hlen : as.length = bs.length)
    (h : ∀ (i : ℕ) a b, as[i]? = some a → bs[i]? = some b →
      planner.alike a b = (planner.planTypes a b).isPassthrough) :
    inPlace (as.map planner.alike) (planner.sources (.tuple as) (.tuple bs)) =
      (planner.planAll as bs).all isPassthrough := by
  rw [Bool.eq_iff_iff, inPlace_map_iff, all_eq_true]
  constructor
  · intro hall plan hplan
    obtain ⟨i, hi⟩ := mem_iff_getElem?.1 hplan
    rw [planAll, getElem?_zipWith_eq_some] at hi
    obtain ⟨a, b, ha, hb, rfl⟩ := hi
    obtain ⟨-, a', ha', halike⟩ := hall i (i, b) (by rw [sources_tuple_getElem?, hb]; rfl)
    cases ha.symm.trans ha'
    rw [← h i a b ha hb]
    exact halike
  · intro hall i source hsource
    rw [sources_tuple_getElem?, Option.map_eq_some_iff] at hsource
    obtain ⟨b, hb, rfl⟩ := hsource
    obtain ⟨hi, -⟩ := List.getElem?_eq_some_iff.1 hb
    have ha := getElem?_eq_getElem (l := as) (i := i) (by omega)
    refine ⟨rfl, as[i], ha, ?_⟩
    rw [h i as[i] b ha hb]
    refine hall _ (mem_of_getElem? (i := i) ?_)
    rw [planAll, getElem?_zipWith_eq_some]
    exact ⟨_, _, ha, hb, rfl⟩

/-- The UDTs that stay as they are. -/
theorem udt_inPlace_iff {as : List CqlTypeInfo} {sources : List (ℕ × CqlTypeInfo)}
    {fields : List (ℕ × ConversionPlan)}
    (hfields : List.Forall₂ (planner.IsPlanOf as) sources fields)
    (h : ∀ source ∈ sources, ∀ a, as[source.1]? = some a →
      planner.alike a source.2 = (planner.planTypes a source.2).isPassthrough) :
    inPlace (as.map planner.alike) sources = fieldsInPlace fields := by
  have hlen := hfields.length_eq
  rw [Bool.eq_iff_iff, inPlace_map_iff, fieldsInPlace, all_eq_true]
  constructor
  · rintro hall ⟨field, i⟩ hmem
    have hfield : fields[i]? = some field := mem_zipIdx_iff_getElem?.1 hmem
    obtain ⟨hi, rfl⟩ := List.getElem?_eq_some_iff.1 hfield
    obtain ⟨hsame, a, ha, hplan⟩ := hfields.get (by omega) hi
    rw [get_eq_getElem] at hsame ha hplan
    have hsource := getElem?_eq_getElem (l := sources) (i := i) (by omega)
    obtain ⟨hplace, a', ha', halike⟩ := hall i _ hsource
    rw [hplace, ha'] at ha
    cases ha
    rw [get_eq_getElem] at hsame hplan
    rw [Bool.and_eq_true, beq_iff_eq, hsame, hplan, ← h _ (mem_of_getElem? hsource) a
      (by rw [hplace, ha'])]
    exact ⟨hplace, halike⟩
  · intro hall i source hsource
    obtain ⟨hi, rfl⟩ := List.getElem?_eq_some_iff.1 hsource
    obtain ⟨hsame, a, ha, hplan⟩ := hfields.get hi (by omega)
    rw [get_eq_getElem] at hsame ha hplan
    rw [get_eq_getElem] at hsame hplan
    have hmem := hall (fields[i], i) (mem_zipIdx_iff_getElem?.2
      (getElem?_eq_getElem (by omega)))
    rw [Bool.and_eq_true, beq_iff_eq, hsame, hplan] at hmem
    obtain ⟨hplace, hpass⟩ := hmem
    rw [hplace] at ha
    refine ⟨hplace, a, ha, ?_⟩
    rw [h _ (mem_of_getElem? hsource) a (by rw [hplace, ha])]
    exact hpass

/-! ### What is passed through -/

/-- The same types, and assignable ones, are passed through. -/
theorem alike_of_same {a b : CqlTypeInfo} (h : (a.sameType b || assignable a b) = true) :
    planner.alike a b = true ∧ planner.planTypes a b = .passthrough := by
  rw [alike.eq_def, planTypes.eq_def, h, if_pos rfl]
  exact ⟨rfl, rfl⟩

theorem isPassthrough_wrap {build : ConversionPlan → ConversionPlan}
    (hbuild : ∀ p, (build p).isPassthrough = false) (p : ConversionPlan) :
    (wrap build p).isPassthrough = p.isPassthrough := by
  rw [wrap]
  split_ifs with h
  · rw [h]
    rfl
  · rw [hbuild, Bool.eq_false_iff.2 h]

theorem supported_of_wrap (build : ConversionPlan → ConversionPlan)
    (hbuild : ∀ p, (build p).Supported → p.Supported) {p : ConversionPlan}
    (h : (wrap build p).Supported) : p.Supported := by
  rw [wrap] at h
  split_ifs at h with hpass
  · exact .of_isPassthrough hpass
  · exact hbuild p h

theorem isPassthrough_ite {c : Prop} [Decidable c] {p : ConversionPlan}
    (hp : p.isPassthrough = false) : (if c then passthrough else p).isPassthrough = decide c := by
  split_ifs with h
  · simp [isPassthrough, h]
  · simp [hp, h]

/-- The components of a plan are supported, whether it passes through or not. -/
theorem supported_of_ite {c : Prop} [Decidable c] {p : ConversionPlan} {α : Type} {xs : List α}
    {plan : α → ConversionPlan} (hpass : c → ∀ x ∈ xs, (plan x).isPassthrough = true)
    (hp : p.Supported → ∀ x ∈ xs, (plan x).Supported)
    (h : (if c then passthrough else p).Supported) : ∀ x ∈ xs, (plan x).Supported := by
  split_ifs at h with hc
  · exact fun x hx => .of_isPassthrough (hpass hc x hx)
  · exact hp h

theorem fieldsInPlace_isPassthrough {fields : List (ℕ × ConversionPlan)}
    (h : fieldsInPlace fields = true) : ∀ field ∈ fields, field.2.isPassthrough = true := by
  intro field hfield
  obtain ⟨i, hi⟩ := mem_iff_getElem?.1 hfield
  have hmem := all_eq_true.1 h (field, i) (mem_zipIdx_iff_getElem?.2 hi)
  exact (Bool.and_eq_true _ _ ▸ hmem).2

theorem alike_eq_of {a b : CqlTypeInfo} (h : ¬(a.sameType b || assignable a b) = true →
    planner.alike a b = (planner.planTypes a b).isPassthrough) :
    planner.alike a b = (planner.planTypes a b).isPassthrough := by
  by_cases hsame : (a.sameType b || assignable a b) = true
  · rw [(alike_of_same hsame).1, (alike_of_same hsame).2]
    rfl
  · exact h hsame

/-- A plan without an unsupported node passes a value through where the types are alike. -/
theorem alike_eq (a : CqlTypeInfo) : ∀ b, (planner.planTypes a b).Supported →
    planner.alike a b = (planner.planTypes a b).isPassthrough := by
  induction a using CqlTypeInfo.component_induction with
  | primitive kind =>
    intro b h
    refine alike_eq_of fun hsame => ?_
    rw [planTypes.eq_def, if_neg hsame] at h ⊢
    rw [alike.eq_def, Bool.eq_false_iff.2 hsame, Bool.false_or]
    cases b with
    | primitive kind' =>
      dsimp only at h ⊢
      cases planner.registry.converter (.primitive kind) (.primitive kind') <;> rfl
    | _ => cases h
  | custom name =>
    intro b h
    refine alike_eq_of fun hsame => ?_
    rw [planTypes.eq_def, if_neg hsame] at h
    cases b <;> cases h
  | list a frozen ih =>
    intro b h
    refine alike_eq_of fun hsame => ?_
    rw [planTypes.eq_def, if_neg hsame] at h ⊢
    rw [alike.eq_def, Bool.eq_false_iff.2 hsame, Bool.false_or]
    cases b with
    | list b frozen' =>
      dsimp only at h ⊢
      rw [isPassthrough_wrap fun _ => rfl, ih b (supported_of_wrap list (fun _ => id) h)]
    | _ => cases h
  | set a frozen ih =>
    intro b h
    refine alike_eq_of fun hsame => ?_
    rw [planTypes.eq_def, if_neg hsame] at h ⊢
    rw [alike.eq_def, Bool.eq_false_iff.2 hsame, Bool.false_or]
    cases b with
    | set b frozen' =>
      dsimp only at h ⊢
      rw [isPassthrough_wrap fun _ => rfl, ih b (supported_of_wrap set (fun _ => id) h)]
    | _ => cases h
  | map k v frozen ihKey ihValue =>
    intro b h
    refine alike_eq_of fun hsame => ?_
    rw [planTypes.eq_def, if_neg hsame] at h ⊢
    rw [alike.eq_def, Bool.eq_false_iff.2 hsame, Bool.false_or]
    cases b with
    | map k' v' frozen' =>
      dsimp only at h ⊢
      split_ifs at h ⊢ with hpass
      · rw [Bool.and_eq_true] at hpass
        rw [ihKey k' (.of_isPassthrough hpass.1), ihValue v' (.of_isPassthrough hpass.2), hpass.1,
          hpass.2]
        rfl
      · rw [ihKey k' h.1, ihValue v' h.2, Bool.eq_false_iff.2 hpass]
        rfl
    | _ => cases h
  | vector a dimensions ih =>
    intro b h
    refine alike_eq_of fun hsame => ?_
    rw [planTypes.eq_def, if_neg hsame] at h ⊢
    rw [alike.eq_def, Bool.eq_false_iff.2 hsame, Bool.false_or]
    cases b with
    | vector b dimensions' =>
      dsimp only at h ⊢
      split_ifs at h ⊢ with hdim hpass
      · cases h
      · rw [ih b (.of_isPassthrough hpass), hpass, not_not.1 hdim]
        simp [isPassthrough]
      · split at h
        · rw [ih b h, Bool.eq_false_iff.2 hpass, Bool.and_false]
          rfl
        · cases h
    | _ => cases h
  | tuple as ih =>
    intro b h
    refine alike_eq_of fun hsame => ?_
    rw [planTypes.eq_def, if_neg hsame] at h ⊢
    rw [alike.eq_def, Bool.eq_false_iff.2 hsame, Bool.false_or]
    cases b with
    | tuple bs =>
      dsimp only at h ⊢
      rw [planEach_eq, zipWith_map_left] at h ⊢
      by_cases hlen : (planner.compatJava || decide (as.length ≠ bs.length)) = true
      · rw [if_pos hlen] at h
        cases h
      rw [if_neg hlen] at h ⊢
      rw [Bool.or_eq_true, not_or, decide_eq_true_eq, not_not] at hlen
      have hplans : ∀ plan ∈ planner.planAll as bs, plan.Supported :=
        supported_of_ite (p := .tuple (planner.planAll as bs)) (fun hall => all_eq_true.1 hall)
          (fun hs => supportedAll_iff.1 hs) h
      have halike (i : ℕ) (a b : CqlTypeInfo) (ha : as[i]? = some a) (hb : bs[i]? = some b) :
          planner.alike a b = (planner.planTypes a b).isPassthrough := by
        refine ih a (mem_of_getElem? ha) b (hplans _ (mem_of_getElem? (i := i) ?_))
        rw [planAll, getElem?_zipWith_eq_some]
        exact ⟨a, b, ha, hb, rfl⟩
      rw [alikeEach_eq, tuple_inPlace_iff hlen.2 halike, isPassthrough_ite rfl, hlen.2,
        beq_self_eq_true, Bool.true_and]
      exact Bool.decide_eq_true.symm
    | _ => cases h
  | udt keyspace name as frozen ih =>
    intro b h
    refine alike_eq_of fun hsame => ?_
    rw [planTypes.eq_def, if_neg hsame] at h ⊢
    rw [alike.eq_def, Bool.eq_false_iff.2 hsame, Bool.false_or]
    cases b with
    | udt keyspace' name' bs frozen' =>
      dsimp only at h ⊢
      by_cases hlen : (as.isEmpty || decide (as.length ≠ bs.length)) = true
      · rw [if_pos hlen] at h
        cases h
      rw [if_neg hlen] at h ⊢
      rw [Bool.or_eq_true, not_or, decide_eq_true_eq, not_not] at hlen
      split at h
      · cases h
      · rename_i fields hfields
        have hplans : ∀ field ∈ fields, field.2.Supported :=
          supported_of_ite (p := .udt fields) fieldsInPlace_isPassthrough
            (fun hs => supportedFields_iff.1 hs) h
        have hall : List.Forall₂ (planner.IsPlanOf (as.map Prod.snd))
            (planner.sources (.udt keyspace name as frozen) (.udt keyspace' name' bs frozen'))
            fields := udtFields_eq_some hfields
        have halike (source : ℕ × CqlTypeInfo)
            (hsource : source ∈ planner.sources (.udt keyspace name as frozen)
              (.udt keyspace' name' bs frozen')) (a : CqlTypeInfo)
            (ha : (as.map Prod.snd)[source.1]? = some a) :
            planner.alike a source.2 = (planner.planTypes a source.2).isPassthrough := by
          obtain ⟨i, hi⟩ := mem_iff_getElem?.1 hsource
          obtain ⟨hlt, rfl⟩ := List.getElem?_eq_some_iff.1 hi
          obtain ⟨-, a', ha', hplan⟩ := hall.get hlt (hall.length_eq ▸ hlt)
          cases ha.symm.trans ha'
          obtain ⟨field, hfield, rfl⟩ := mem_map.1 (mem_of_getElem? ha)
          have hsupported := hplans _ (get_mem fields ⟨i, hall.length_eq ▸ hlt⟩)
          rw [hplan] at hsupported
          exact ih field hfield _ hsupported
        rw [alikeFields_eq, udt_inPlace_iff hall halike, isPassthrough_ite rfl, hlen.2,
          beq_self_eq_true, Bool.true_and, Bool.decide_eq_true]
    | _ => cases h

/-! ### Types of the same form -/

end Planner

namespace CqlTypeInfo

theorem sameTypes_getElem? {as bs : List CqlTypeInfo} (h : sameTypes as bs = true) :
    as.length = bs.length ∧
      ∀ (i : ℕ) a b, as[i]? = some a → bs[i]? = some b → sameType a b = true := by
  induction as generalizing bs with
  | nil =>
    cases bs with
    | nil => exact ⟨rfl, fun i a b ha => by cases ha⟩
    | cons b bs => cases h
  | cons a as ih =>
    cases bs with
    | nil => cases h
    | cons b bs =>
      rw [sameTypes, Bool.and_eq_true] at h
      obtain ⟨hlen, hall⟩ := ih h.2
      refine ⟨congrArg (· + 1) hlen, fun i a' b' ha hb => ?_⟩
      cases i with
      | zero =>
        cases ha
        cases hb
        exact h.1
      | succ i => exact hall i a' b' ha hb

theorem sameTypes_of_sameFields {as bs : List (String × CqlTypeInfo)}
    (h : sameFields as bs = true) : sameTypes (as.map Prod.snd) (bs.map Prod.snd) = true := by
  induction as generalizing bs with
  | nil =>
    cases bs with
    | nil => rfl
    | cons b bs => cases h
  | cons a as ih =>
    cases bs with
    | nil => cases h
    | cons b bs =>
      rw [sameFields, Bool.and_eq_true, Bool.and_eq_true] at h
      rw [map_cons, map_cons, sameTypes, h.1.2, ih h.2]
      rfl

theorem sameForm_of_sameTypes {as bs : List CqlTypeInfo} {a b : CqlTypeInfo}
    (ha : a.shape = .record as) (hb : b.shape = .record bs) (h : sameTypes as bs = true)
    (ih : ∀ x ∈ as, ∀ y, sameType x y = true → SameForm x y) : SameForm a b :=
  .record ha hb (sameTypes_getElem? h).1 fun i x y hx hy =>
    ih x (mem_of_getElem? hx) y ((sameTypes_getElem? h).2 i x y hx hy)

theorem sameForm_of_sameType (a : CqlTypeInfo) : ∀ b, a.sameType b = true → SameForm a b := by
  induction a using CqlTypeInfo.component_induction with
  | primitive kind =>
    intro b h
    cases b with
    | primitive => exact .leaf rfl rfl
    | _ => cases h
  | custom name =>
    intro b h
    cases b with
    | custom => exact .leaf rfl rfl
    | _ => cases h
  | vector a dimensions =>
    intro b h
    cases b with
    | vector => exact .leaf rfl rfl
    | _ => cases h
  | list a frozen ih =>
    intro b h
    cases b with
    | list b frozen' => exact .sequence rfl rfl (ih b h)
    | _ => cases h
  | set a frozen ih =>
    intro b h
    cases b with
    | set b frozen' => exact .sequence rfl rfl (ih b h)
    | _ => cases h
  | map k v frozen ihKey ihValue =>
    intro b h
    cases b with
    | map k' v' frozen' =>
      rw [sameType, Bool.and_eq_true] at h
      exact .entries rfl rfl (ihKey k' h.1) (ihValue v' h.2)
    | _ => cases h
  | tuple as ih =>
    intro b h
    cases b with
    | tuple bs => exact sameForm_of_sameTypes rfl rfl h ih
    | _ => cases h
  | udt keyspace name as frozen ih =>
    intro b h
    cases b with
    | udt keyspace' name' bs frozen' =>
      rw [sameType, Bool.and_eq_true] at h
      refine sameForm_of_sameTypes rfl rfl (sameTypes_of_sameFields h.2) fun x hx => ?_
      obtain ⟨field, hfield, rfl⟩ := mem_map.1 hx
      exact ih field hfield
    | _ => cases h

theorem sameForm_of_assignable {a b : CqlTypeInfo} (h : assignable a b = true) : SameForm a b := by
  have hleaf {t : CqlTypeInfo} {family : ℕ} (ht : assignableFamily t = some family) :
      t.shape = .leaf := by
    cases t with
    | primitive => rfl
    | _ => cases ht
  rw [assignable] at h
  split at h
  · rename_i ha hb
    exact .leaf (hleaf ha) (hleaf hb)
  · cases h

theorem sameForm_of_not_same {a b : CqlTypeInfo}
    (h : ¬(a.sameType b || assignable a b) = true → SameForm a b) : SameForm a b := by
  by_cases hsame : (a.sameType b || assignable a b) = true
  · obtain hsame | hsame := Bool.or_eq_true _ _ ▸ hsame
    · exact sameForm_of_sameType a b hsame
    · exact sameForm_of_assignable hsame
  · exact h hsame

end CqlTypeInfo

namespace Planner

open ConversionPlan CqlTypeInfo

/-- Two tuples, or two UDTs, with the types of their components. -/
inductive RecordTypes : CqlTypeInfo → CqlTypeInfo → List CqlTypeInfo → List CqlTypeInfo → Prop
  | tuple (as bs : List CqlTypeInfo) : RecordTypes (.tuple as) (.tuple bs) as bs
  | udt (ka kb : Option String) (na nb : String) (as bs : List (String × CqlTypeInfo))
    (fa fb : Bool) :
    RecordTypes (.udt ka na as fa) (.udt kb nb bs fb) (as.map Prod.snd) (bs.map Prod.snd)

variable {planner : Planner} {a b : CqlTypeInfo} {as bs : List CqlTypeInfo}

theorem RecordTypes.shape_left (h : RecordTypes a b as bs) : a.shape = .record as := by
  cases h <;> rfl

theorem RecordTypes.shape_right (h : RecordTypes a b as bs) : b.shape = .record bs := by
  cases h <;> rfl

/-- The sources of a record have the types of its components. -/
theorem RecordTypes.sources_snd (planner : Planner) (h : RecordTypes a b as bs) :
    (planner.sources a b).map Prod.snd = bs := by
  cases h with
  | tuple as bs =>
    rw [sources, map_map]
    exact zipIdx_map_fst 0 bs
  | udt ka kb na nb as bs fa fb =>
    rw [sources, map_map]
    show bs.zipIdx.map (Prod.snd ∘ Prod.fst) = bs.map Prod.snd
    rw [← map_map, zipIdx_map_fst]

theorem RecordTypes.length_sources (planner : Planner) (h : RecordTypes a b as bs) :
    (planner.sources a b).length = bs.length := by
  rw [← h.sources_snd planner, length_map]

theorem sameForm_of_inPlace (hrecord : RecordTypes a b as bs) (hlen : as.length = bs.length)
    (hplace : inPlace (as.map planner.alike) (planner.sources a b) = true)
    (ih : ∀ x ∈ as, ∀ y, planner.alike x y = true → SameForm x y) : SameForm a b := by
  refine .record hrecord.shape_left hrecord.shape_right hlen fun i x y hx hy => ?_
  rw [← hrecord.sources_snd planner, getElem?_map, Option.map_eq_some_iff] at hy
  obtain ⟨source, hsource, rfl⟩ := hy
  obtain ⟨-, x', hx', halike⟩ := inPlace_map_iff.1 hplace i source hsource
  cases hx.symm.trans hx'
  exact ih x (mem_of_getElem? hx) _ halike

/-- Types that are alike have the same values. -/
theorem sameForm_of_alike (a : CqlTypeInfo) : ∀ b, planner.alike a b = true → SameForm a b := by
  induction a using CqlTypeInfo.component_induction with
  | primitive | custom =>
    intro b h
    refine sameForm_of_not_same fun hsame => ?_
    rw [alike.eq_def, Bool.eq_false_iff.2 hsame, Bool.false_or] at h
    cases b <;> cases h
  | list a frozen ih =>
    intro b h
    refine sameForm_of_not_same fun hsame => ?_
    rw [alike.eq_def, Bool.eq_false_iff.2 hsame, Bool.false_or] at h
    cases b with
    | list b frozen' => exact .sequence rfl rfl (ih b h)
    | _ => cases h
  | set a frozen ih =>
    intro b h
    refine sameForm_of_not_same fun hsame => ?_
    rw [alike.eq_def, Bool.eq_false_iff.2 hsame, Bool.false_or] at h
    cases b with
    | set b frozen' => exact .sequence rfl rfl (ih b h)
    | _ => cases h
  | map k v frozen ihKey ihValue =>
    intro b h
    refine sameForm_of_not_same fun hsame => ?_
    rw [alike.eq_def, Bool.eq_false_iff.2 hsame, Bool.false_or] at h
    cases b with
    | map k' v' frozen' =>
      rw [Bool.and_eq_true] at h
      exact .entries rfl rfl (ihKey k' h.1) (ihValue v' h.2)
    | _ => cases h
  | vector a dimensions ih =>
    intro b h
    refine sameForm_of_not_same fun hsame => ?_
    rw [alike.eq_def, Bool.eq_false_iff.2 hsame, Bool.false_or] at h
    cases b with
    | vector => exact .leaf rfl rfl
    | _ => cases h
  | tuple as ih =>
    intro b h
    refine sameForm_of_not_same fun hsame => ?_
    rw [alike.eq_def, Bool.eq_false_iff.2 hsame, Bool.false_or] at h
    cases b with
    | tuple bs =>
      rw [Bool.and_eq_true, beq_iff_eq, alikeEach_eq] at h
      exact sameForm_of_inPlace (.tuple as bs) h.1 h.2 ih
    | _ => cases h
  | udt keyspace name as frozen ih =>
    intro b h
    refine sameForm_of_not_same fun hsame => ?_
    rw [alike.eq_def, Bool.eq_false_iff.2 hsame, Bool.false_or] at h
    cases b with
    | udt keyspace' name' bs frozen' =>
      rw [Bool.and_eq_true, beq_iff_eq, alikeFields_eq] at h
      refine sameForm_of_inPlace (.udt keyspace keyspace' name name' as bs frozen frozen')
        (by simpa using h.1) h.2 fun x hx => ?_
      obtain ⟨field, hfield, rfl⟩ := mem_map.1 hx
      exact ih field hfield
    | _ => cases h

/-! ### Node by node -/

/-- Two types and their plan, node by node. -/
inductive Converts (planner : Planner) : CqlTypeInfo → CqlTypeInfo → Prop
  | alike {a b : CqlTypeInfo} (halike : planner.alike a b = true)
    (hplan : planner.planTypes a b = .passthrough) : Converts planner a b
  | leaf {a b : CqlTypeInfo} {f : Converter} (halike : planner.alike a b = false)
    (hsupported : (planner.planTypes a b).Supported) (ha : a.shape = .leaf) (hb : b.shape = .leaf)
    (hf : planner.leafConverter a b = some f)
    (hplan : ∀ bytes, (planner.planTypes a b).apply (some bytes) = f (some bytes)) :
    Converts planner a b
  | list {a b : CqlTypeInfo} {fa fb : Bool} (halike : planner.alike (.list a fa) (.list b fb) = false)
    (hplan : planner.planTypes (.list a fa) (.list b fb) = .list (planner.planTypes a b))
    (h : Converts planner a b) : Converts planner (.list a fa) (.list b fb)
  | set {a b : CqlTypeInfo} {fa fb : Bool} (halike : planner.alike (.set a fa) (.set b fb) = false)
    (hplan : planner.planTypes (.set a fa) (.set b fb) = .set (planner.planTypes a b))
    (h : Converts planner a b) : Converts planner (.set a fa) (.set b fb)
  | map {ka va kb vb : CqlTypeInfo} {fa fb : Bool}
    (halike : planner.alike (.map ka va fa) (.map kb vb fb) = false)
    (hplan : planner.planTypes (.map ka va fa) (.map kb vb fb) =
      .map (planner.planTypes ka kb) (planner.planTypes va vb))
    (hkey : Converts planner ka kb) (hvalue : Converts planner va vb) :
    Converts planner (.map ka va fa) (.map kb vb fb)
  | record {a b : CqlTypeInfo} {as bs : List CqlTypeInfo} {fields : List (ℕ × ConversionPlan)}
    (hrecord : RecordTypes a b as bs) (hlen : as.length = bs.length)
    (halike : planner.alike a b = false) (hplan : (planner.planTypes a b).IsRecord fields)
    (hfields : List.Forall₂ (planner.IsPlanOf as) (planner.sources a b) fields)
    (h : ∀ source ∈ planner.sources a b, ∀ x, as[source.1]? = some x →
      Converts planner x source.2) : Converts planner a b

theorem isIdentity_of_supported {p : ConversionPlan} (h : p.Supported)
    (hpass : p.isPassthrough = false) : p.isIdentity = false := by
  cases p with
  | passthrough => cases hpass
  | unsupported => cases h
  | _ => rfl

/-- What a UDT that is converted is planned as. -/
theorem planTypes_udt {ka kb : Option String} {na nb : String} {as bs : List (String × CqlTypeInfo)}
    {fa fb : Bool}
    (h : (planner.planTypes (.udt ka na as fa) (.udt kb nb bs fb)).isIdentity = false) :
    as.length = bs.length ∧ ∃ fields,
      planner.planTypes (.udt ka na as fa) (.udt kb nb bs fb) = .udt fields ∧
        List.Forall₂ (planner.IsPlanOf (as.map Prod.snd))
          (planner.sources (.udt ka na as fa) (.udt kb nb bs fb)) fields := by
  rw [planTypes.eq_def] at h ⊢
  split_ifs at h ⊢
  · cases h
  · dsimp only at h ⊢
    split_ifs at h ⊢ with hlen
    · cases h
    · split at h
      · cases h
      · rename_i fields hfields
        rw [Bool.or_eq_true, not_or, decide_eq_true_eq, not_not] at hlen
        split_ifs at h with hplace
        · cases h
        · exact ⟨hlen.2, fields, if_neg hplace, udtFields_eq_some hfields⟩

/-- The plans of a tuple are those of its sources. -/
theorem forall₂_planAll (planner : Planner) {as bs : List CqlTypeInfo} (hlen : as.length = bs.length) :
    List.Forall₂ (planner.IsPlanOf as) (planner.sources (.tuple as) (.tuple bs))
      ((planner.planAll as bs).zipIdx.map fun plan => (plan.2, plan.1)) := by
  refine forall₂_iff_get.2 ⟨?_, fun i hi hi' => ?_⟩
  · simp [sources, planAll, hlen]
  · rw [sources, length_map, length_zipIdx] at hi
    refine ⟨?_, as[i], ?_, ?_⟩
    · simp [sources]
    · simp [sources, hlen, hi]
    · simp [sources, planAll]

theorem mem_of_isPlanOf {as : List CqlTypeInfo} {sources : List (ℕ × CqlTypeInfo)}
    {fields : List (ℕ × ConversionPlan)}
    (hfields : List.Forall₂ (planner.IsPlanOf as) sources fields) {source : ℕ × CqlTypeInfo}
    (hsource : source ∈ sources) {x : CqlTypeInfo} (hx : as[source.1]? = some x) :
    ∃ field ∈ fields, field.2 = planner.planTypes x source.2 := by
  obtain ⟨i, hi⟩ := mem_iff_getElem?.1 hsource
  obtain ⟨hlt, rfl⟩ := List.getElem?_eq_some_iff.1 hi
  obtain ⟨-, x', hx', hplan⟩ := hfields.get hlt (hfields.length_eq ▸ hlt)
  cases hx.symm.trans hx'
  exact ⟨_, get_mem fields ⟨i, hfields.length_eq ▸ hlt⟩, hplan⟩

/-- A plan without an unsupported node converts node by node. -/
theorem converts_of_supported (a : CqlTypeInfo) :
    ∀ b, (planner.planTypes a b).Supported → planner.Converts a b := by
  have hstart {a b : CqlTypeInfo} (h : (planner.planTypes a b).Supported)
      (hrest : planner.alike a b = false → (planner.planTypes a b).isIdentity = false →
        planner.Converts a b) : planner.Converts a b := by
    cases halike : planner.alike a b with
    | true => exact .alike halike (eq_passthrough ((alike_eq a b h).symm.trans halike))
    | false =>
      exact hrest halike (isIdentity_of_supported h ((alike_eq a b h).symm.trans halike))
  induction a using CqlTypeInfo.component_induction with
  | primitive kind =>
    intro b h
    refine hstart h fun halike hid => ?_
    cases b with
    | primitive kind' =>
      obtain ⟨f, hf, hplan⟩ := planTypes_primitive hid
      exact .leaf halike h rfl rfl hf fun bytes => by rw [hplan, apply]
    | _ => cases sameKind_of_isIdentity hid
  | custom name =>
    intro b h
    refine hstart h fun halike hid => ?_
    cases sameKind_of_isIdentity hid
  | list a frozen ih =>
    intro b h
    refine hstart h fun halike hid => ?_
    cases b with
    | list b frozen' =>
      have hplan := planTypes_list hid
      rw [hplan] at h
      exact .list halike hplan (ih b h)
    | _ => cases sameKind_of_isIdentity hid
  | set a frozen ih =>
    intro b h
    refine hstart h fun halike hid => ?_
    cases b with
    | set b frozen' =>
      have hplan := planTypes_set hid
      rw [hplan] at h
      exact .set halike hplan (ih b h)
    | _ => cases sameKind_of_isIdentity hid
  | map k v frozen ihKey ihValue =>
    intro b h
    refine hstart h fun halike hid => ?_
    cases b with
    | map k' v' frozen' =>
      have hplan := planTypes_entries hid
      rw [hplan] at h
      exact .map halike hplan (ihKey k' h.1) (ihValue v' h.2)
    | _ => cases sameKind_of_isIdentity hid
  | vector a dimensions =>
    intro b h
    refine hstart h fun halike hid => ?_
    cases b with
    | vector b dimensions' => exact .leaf halike h rfl rfl rfl fun bytes => rfl
    | _ => cases sameKind_of_isIdentity hid
  | tuple as ih =>
    intro b h
    refine hstart h fun halike hid => ?_
    cases b with
    | tuple bs =>
      obtain ⟨hlen, hplan⟩ := planTypes_tuple hid
      rw [hplan] at h
      have hfields := forall₂_planAll planner hlen
      refine .record (.tuple as bs) hlen halike (hplan ▸ .tuple _) hfields ?_
      intro source hsource x hx
      obtain ⟨field, hfield, hfieldplan⟩ := mem_of_isPlanOf hfields hsource hx
      obtain ⟨plan, hmem, rfl⟩ := mem_map.1 hfield
      have hsupported := supportedAll_iff.1 h plan.1 (fst_mem_of_mem_zipIdx hmem)
      dsimp only at hfieldplan
      rw [hfieldplan] at hsupported
      exact ih x (mem_of_getElem? hx) _ hsupported
    | _ => cases sameKind_of_isIdentity hid
  | udt keyspace name as frozen ih =>
    intro b h
    refine hstart h fun halike hid => ?_
    cases b with
    | udt keyspace' name' bs frozen' =>
      obtain ⟨hlen, fields, hplan, hfields⟩ := planTypes_udt hid
      rw [hplan] at h
      refine .record (.udt keyspace keyspace' name name' as bs frozen frozen') (by simpa using hlen)
        halike (hplan ▸ .udt fields) hfields ?_
      intro source hsource x hx
      obtain ⟨field, hfield, hfieldplan⟩ := mem_of_isPlanOf hfields hsource hx
      have hsupported := supportedFields_iff.1 h field hfield
      rw [hfieldplan] at hsupported
      obtain ⟨origin, horigin, rfl⟩ := mem_map.1 (mem_of_getElem? hx)
      exact ih origin horigin _ hsupported
    | _ => cases sameKind_of_isIdentity hid

end Planner

end Cdm
