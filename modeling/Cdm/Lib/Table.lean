import Mathlib.Tactic.Common
import Mathlib.Data.List.Pairwise

/-!
# Tables keyed by an ordered column

A table is a `Std.TreeMap` from its key to its rows, as a `BTreeMap` is.  The lemmas here relate
the list of its rows to lookups, which is where the statements about updates live.
-/

namespace Table

open List Std

variable {κ β : Type*} {cmp : κ → κ → Ordering}

/-- The rows of a table, in key order. -/
def rows (t : TreeMap κ β cmp) : List β := t.toList.map Prod.snd

/-- The table after inserting `rs` in order, each under its own key. -/
def load (key : β → κ) (rs : List β) : TreeMap κ β cmp :=
  TreeMap.ofList (rs.map fun r => (key r, r)) cmp

variable [TransCmp cmp] [LawfulEqCmp cmp]

theorem mem_rows {t : TreeMap κ β cmp} {r : β} : r ∈ rows t ↔ ∃ k : κ, t[k]? = some r := by
  simp only [rows, mem_map, Prod.exists, exists_eq_right, TreeMap.mem_toList_iff_getElem?_eq_some]

theorem rows_ne_nil {t : TreeMap κ β cmp} {k : κ} {r : β} (h : t[k]? = some r) : rows t ≠ [] :=
  ne_nil_of_mem (mem_rows.2 ⟨k, h⟩)

/-- A relation between the rows under any two different keys holds along the list of rows. -/
theorem pairwise_rows {t : TreeMap κ β cmp} {R : β → β → Prop}
    (h : ∀ (k k' : κ) (r r' : β), k ≠ k' → t[k]? = some r → t[k']? = some r' → R r r') :
    (rows t).Pairwise R := by
  rw [rows, pairwise_map]
  refine (TreeMap.distinct_keys_toList (t := t)).imp_of_mem ?_
  rintro ⟨k, r⟩ ⟨k', r'⟩ hm hm' hne
  rw [TreeMap.mem_toList_iff_getElem?_eq_some] at hm hm'
  refine h k k' r r' ?_ hm hm'
  rintro rfl
  exact hne ReflCmp.compare_self

/-- A selection that only takes the row under `k` finds it once. -/
theorem filterMap_rows {γ : Type*} {t : TreeMap κ β cmp} {k : κ} {f : β → Option γ}
    (h : ∀ (k' : κ) (r : β), t[k']? = some r → k' ≠ k → f r = none) :
    (rows t).filterMap f = (t[k]?.bind f).toList := by
  rw [rows, filterMap_map]
  cases hk : t[k]? with
  | none =>
    rw [Option.bind_none, Option.toList_none, filterMap_eq_nil_iff]
    rintro ⟨k', r⟩ hm
    rw [TreeMap.mem_toList_iff_getElem?_eq_some] at hm
    refine h k' r hm ?_
    rintro rfl
    rw [hk] at hm
    cases hm
  | some r =>
    -- the row stands at one place of the list, and the other places have other keys
    have hm : (k, r) ∈ t.toList := TreeMap.mem_toList_iff_getElem?_eq_some.2 hk
    obtain ⟨l₁, l₂, hl⟩ := append_of_mem hm
    have hd := TreeMap.distinct_keys_toList (t := t)
    rw [hl, pairwise_append, pairwise_cons] at hd
    have hmem : ∀ p ∈ t.toList, t[p.1]? = some p.2 :=
      fun p hp => TreeMap.mem_toList_iff_getElem?_eq_some.1 hp
    have h₁ : l₁.filterMap (f ∘ Prod.snd) = [] := by
      rw [filterMap_eq_nil_iff]
      intro p hp
      refine h p.1 p.2 (hmem p (hl ▸ mem_append_left _ hp)) ?_
      intro heq
      exact hd.2.2 p hp _ mem_cons_self (heq ▸ ReflCmp.compare_self)
    have h₂ : l₂.filterMap (f ∘ Prod.snd) = [] := by
      rw [filterMap_eq_nil_iff]
      intro p hp
      refine h p.1 p.2 (hmem p (hl ▸ mem_append_right _ (mem_cons_of_mem _ hp))) ?_
      intro heq
      exact hd.2.1.1 p hp (heq ▸ ReflCmp.compare_self)
    rw [hl, filterMap_append, filterMap_cons, h₁, h₂]
    cases hf : f r <;> simp [hf]

/-- With distinct keys, loading a list of rows keeps each of them under its key and no other. -/
theorem getElem?_load {key : β → κ} {rs : List β} (h : (rs.map key).Nodup) {k : κ} {r : β} :
    (load key rs : TreeMap κ β cmp)[k]? = some r ↔ r ∈ rs ∧ key r = k := by
  classical
  have hd : (rs.map fun r => (key r, r)).Pairwise fun a b => ¬ cmp a.1 b.1 = .eq := by
    rw [pairwise_map]
    refine (pairwise_map.1 h).imp ?_
    intro a b hab hc
    exact hab (LawfulEqCmp.eq_of_compare hc)
  have key_of_mem : ∀ a ∈ rs, (load key rs : TreeMap κ β cmp)[key a]? = some a := by
    intro a ha
    exact TreeMap.getElem?_ofList_of_mem ReflCmp.compare_self hd (mem_map.2 ⟨a, ha, rfl⟩)
  constructor
  · intro hk
    by_cases hm : ∃ a ∈ rs, key a = k
    · obtain ⟨a, ha, rfl⟩ := hm
      rw [key_of_mem a ha] at hk
      cases hk
      exact ⟨ha, rfl⟩
    · have hnone : (load key rs : TreeMap κ β cmp)[k]? = none := by
        refine TreeMap.getElem?_ofList_of_contains_eq_false ?_
        simpa using hm
      rw [hnone] at hk
      cases hk
  · rintro ⟨hr, rfl⟩
    exact key_of_mem r hr

end Table
