import Mathlib.Logic.Relation
import Mathlib.Data.List.Basic

/-!
# Labelled transition systems with deterministic labels

A concurrent program is modelled by its state, a type of labels (who moves, and with which
choices) and a partial step function: `step s l = none` says that the move `l` is not possible in
`s`.  The nondeterminism of a schedule is the choice of the labels, so a run is a list of labels,
it can be evaluated on a concrete schedule, and a statement about every interleaving is a
statement about every list.
-/

/-- A transition system with states `S` and labels `L`, deterministic once the label is fixed. -/
structure LTS (S : Type*) (L : Type*) where
  /-- `step s l` : the state after the move `l`, or `none` when `l` is not possible in `s`. -/
  step : S → L → Option S

namespace LTS

variable {S L : Type*} (A : LTS S L)

/-- The state after a whole schedule, or `none` if one of its moves was not possible. -/
def exec (s : S) : List L → Option S
  | [] => some s
  | l :: ls => (A.step s l).bind fun s' => exec s' ls

/-- `s` is reachable from `s₀` by some schedule. -/
def Reachable (s₀ s : S) : Prop := ∃ ls, A.exec s₀ ls = some s

/-- Every step of the run `ls` from `s` is taken in a state, and with a label, that satisfy `G`. -/
def Along (G : S → L → Prop) (s : S) : List L → Prop
  | [] => True
  | l :: ls => G s l ∧ ∀ s', A.step s l = some s' → Along G s' ls

instance decidableAlong (G : S → L → Prop) [∀ s l, Decidable (G s l)] :
    ∀ s ls, Decidable (A.Along G s ls)
  | _, [] => .isTrue trivial
  | s, l :: ls =>
    have (t : S) : Decidable (A.Along G t ls) := decidableAlong G t ls
    inferInstanceAs (Decidable (G s l ∧ ∀ t ∈ A.step s l, A.Along G t ls))

/-- What the steps of a run put out, in order, when the step `l` from `s` puts out `f s l`. -/
def outputs {O : Type*} (f : S → L → Option O) (s : S) : List L → List O
  | [] => []
  | l :: ls => (f s l).toList ++ (A.step s l).elim [] fun s' => outputs f s' ls

variable {A}

@[simp] theorem exec_nil (s : S) : A.exec s [] = some s := rfl

theorem exec_cons (s : S) (l : L) (ls : List L) :
    A.exec s (l :: ls) = (A.step s l).bind fun s' => A.exec s' ls := rfl

theorem exec_cons_eq_some {s s' : S} {l : L} {ls : List L} :
    A.exec s (l :: ls) = some s' ↔ ∃ t, A.step s l = some t ∧ A.exec t ls = some s' := by
  rw [exec_cons, Option.bind_eq_some_iff]

theorem exec_append (s : S) (ls ms : List L) :
    A.exec s (ls ++ ms) = (A.exec s ls).bind fun s' => A.exec s' ms := by
  induction ls generalizing s with
  | nil => rfl
  | cons l ls ih =>
    rw [List.cons_append, exec_cons, exec_cons]
    cases A.step s l with
    | none => rfl
    | some t => exact ih t

/-- **Induction over runs.** A predicate that holds initially and that every step preserves holds
after every run. -/
theorem exec_invariant {I : S → Prop} {s₀ s : S} {ls : List L} (h : A.exec s₀ ls = some s)
    (h₀ : I s₀) (hstep : ∀ s l s', I s → A.step s l = some s' → I s') : I s := by
  induction ls generalizing s₀ with
  | nil =>
    cases h
    exact h₀
  | cons l ls ih =>
    obtain ⟨t, ht, hrest⟩ := exec_cons_eq_some.1 h
    exact ih hrest (hstep _ _ _ h₀ ht)

/-- **Induction over guarded runs.** As `exec_invariant`, for the runs whose steps are all taken
under the condition `G`; only those steps have to preserve the predicate. -/
theorem exec_invariant_along {G : S → L → Prop} {I : S → Prop} {s₀ s : S} {ls : List L}
    (h : A.exec s₀ ls = some s) (hG : A.Along G s₀ ls) (h₀ : I s₀)
    (hstep : ∀ s l s', I s → G s l → A.step s l = some s' → I s') : I s := by
  induction ls generalizing s₀ with
  | nil =>
    cases h
    exact h₀
  | cons l ls ih =>
    obtain ⟨t, ht, hrest⟩ := exec_cons_eq_some.1 h
    exact ih hrest (hG.2 t ht) (hstep _ _ _ h₀ hG.1 ht)

/-- **Induction over guarded runs with outputs.** As `exec_invariant_along`, for a predicate of the
state and of what the run has put out so far. -/
theorem exec_invariant_outputs_along {O : Type*} {f : S → L → Option O} {G : S → L → Prop}
    {I : S → List O → Prop} {s₀ s : S} {ls : List L} (h : A.exec s₀ ls = some s)
    (hG : A.Along G s₀ ls) (h₀ : I s₀ [])
    (hstep : ∀ s l s' os, I s os → G s l → A.step s l = some s' → I s' (os ++ (f s l).toList)) :
    I s (A.outputs f s₀ ls) := by
  have run : ∀ (ls : List L) (t : S) (os : List O), I t os → A.Along G t ls →
      A.exec t ls = some s → I s (os ++ A.outputs f t ls) := by
    intro ls
    induction ls with
    | nil =>
      intro t os hI _ hexec
      cases hexec
      rwa [outputs, List.append_nil]
    | cons l ls ih =>
      intro t os hI hG hexec
      obtain ⟨t', ht', hrest⟩ := exec_cons_eq_some.1 hexec
      rw [outputs, ht', Option.elim_some, ← List.append_assoc]
      exact ih t' _ (hstep t l t' os hI hG.1 ht') (hG.2 t' ht') hrest
  exact run ls s₀ [] h₀ hG h

theorem along_cons {G : S → L → Prop} {s t : S} {l : L} {ls : List L} (hs : A.step s l = some t)
    (hG : G s l) (h : A.Along G t ls) : A.Along G s (l :: ls) := by
  refine ⟨hG, fun s' hs' => ?_⟩
  rw [hs] at hs'
  cases hs'
  exact h

/-- A condition that always holds holds along every run. -/
theorem along_true (s : S) (ls : List L) : A.Along (fun _ _ => True) s ls := by
  induction ls generalizing s with
  | nil => trivial
  | cons l ls ih => exact ⟨trivial, fun s' _ => ih s'⟩

/-- **Induction over runs with outputs.** As `exec_invariant`, for a predicate of the state and of
what the run has put out so far. -/
theorem exec_invariant_outputs {O : Type*} {f : S → L → Option O} {I : S → List O → Prop} {s₀ s : S}
    {ls : List L} (h : A.exec s₀ ls = some s) (h₀ : I s₀ [])
    (hstep : ∀ s l s' os, I s os → A.step s l = some s' → I s' (os ++ (f s l).toList)) :
    I s (A.outputs f s₀ ls) :=
  exec_invariant_outputs_along h (along_true s₀ ls) h₀ fun s l s' os hI _ => hstep s l s' os hI

/-- What a run puts out, and one step more. -/
theorem outputs_concat {O : Type*} {f : S → L → Option O} {s s' : S} {ls : List L}
    (h : A.exec s ls = some s') (l : L) :
    A.outputs f s (ls ++ [l]) = A.outputs f s ls ++ (f s' l).toList := by
  induction ls generalizing s with
  | nil =>
    cases h
    rw [List.nil_append, outputs, outputs, List.nil_append]
    cases A.step s' l with
    | none => rw [Option.elim_none, List.append_nil]
    | some t => rw [Option.elim_some, outputs, List.append_nil]
  | cons l' ls ih =>
    obtain ⟨t, ht, hrest⟩ := exec_cons_eq_some.1 h
    rw [List.cons_append, outputs, outputs, ht, Option.elim_some, Option.elim_some, ih hrest,
      List.append_assoc]

/-- What a run puts out is picked from what it puts out in more detail. -/
theorem outputs_filterMap {O P : Type*} {f : S → L → O} {k : O → Option P} (s : S) (ls : List L) :
    (A.outputs (fun s l => some (f s l)) s ls).filterMap k = A.outputs (fun s l => k (f s l)) s ls := by
  induction ls generalizing s with
  | nil => rfl
  | cons l ls ih =>
    rw [outputs, outputs, Option.toList_some, List.singleton_append, List.filterMap_cons]
    have hrest : (((A.step s l).elim [] fun s' => A.outputs (fun s l => some (f s l)) s' ls).filterMap
        k) = (A.step s l).elim [] fun s' => A.outputs (fun s l => k (f s l)) s' ls := by
      cases A.step s l with
      | none => rfl
      | some t => exact ih t
    rw [hrest]
    cases k (f s l) <;> rfl

namespace Reachable

theorem refl (s : S) : A.Reachable s s := ⟨[], rfl⟩

theorem tail {s₀ s s' : S} {l : L} (h : A.Reachable s₀ s) (hl : A.step s l = some s') :
    A.Reachable s₀ s' := by
  obtain ⟨ls, hls⟩ := h
  refine ⟨ls ++ [l], ?_⟩
  rw [exec_append, hls]
  exact exec_cons_eq_some.2 ⟨s', hl, rfl⟩

theorem invariant {I : S → Prop} {s₀ s : S} (h : A.Reachable s₀ s) (h₀ : I s₀)
    (hstep : ∀ s l s', I s → A.step s l = some s' → I s') : I s := by
  obtain ⟨ls, hls⟩ := h
  exact exec_invariant hls h₀ hstep

end Reachable

end LTS
