import Mathlib.Algebra.BigOperators.Group.List.Basic
import Mathlib.Algebra.Order.BigOperators.Group.List
import Mathlib.Tactic.Abel

/-!
# Counting over a list that changes in one place
-/

namespace Tally

open List

variable {α : Type*}

theorem sum_map_modify {M : Type*} [AddCommMonoid M] {l : List α} {i : ℕ} {a : α}
    (h : l[i]? = some a) (u : α → α) (g : α → M) :
    ((l.modify i u).map g).sum + g a = (l.map g).sum + g (u a) := by
  induction l generalizing i with
  | nil => cases h
  | cons x l ih =>
    cases i with
    | zero =>
      cases h
      simp only [modify_zero_cons, map_cons, sum_cons]
      abel
    | succ i =>
      simp only [modify_succ_cons, map_cons, sum_cons]
      rw [add_assoc, ih h, add_assoc]

theorem sum_map_set {M : Type*} [AddCommMonoid M] {l : List α} {i : ℕ} {a : α}
    (h : l[i]? = some a) (b : α) (g : α → M) :
    ((l.set i b).map g).sum + g a = (l.map g).sum + g b := by
  have hset : l.set i b = l.modify i fun _ => b := by
    rw [modify_eq_set_getElem?, h]
    rfl
  rw [hset]
  exact sum_map_modify h (fun _ => b) g

theorem countP_eq_sum (p : α → Bool) (l : List α) :
    l.countP p = (l.map fun x => if p x then 1 else 0).sum := by
  induction l with
  | nil => rfl
  | cons x l ih =>
    rw [countP_cons, ih, map_cons, sum_cons, Nat.add_comm]

theorem countP_modify {l : List α} {i : ℕ} {a : α} (h : l[i]? = some a) (u : α → α)
    (p : α → Bool) :
    (l.modify i u).countP p + (if p a then 1 else 0) = l.countP p + if p (u a) then 1 else 0 := by
  rw [countP_eq_sum, countP_eq_sum]
  exact sum_map_modify h u fun x => if p x then 1 else 0

/-- Terms that are at most others, and whose sum is not less, are equal to them. -/
theorem forall_eq_of_sum_le {M : Type*} [AddCommMonoid M] [PartialOrder M] [IsOrderedCancelAddMonoid M]
    {f g : α → M} {l : List α} (h : ∀ a ∈ l, f a ≤ g a) (hsum : (l.map g).sum ≤ (l.map f).sum) :
    ∀ a ∈ l, f a = g a := by
  induction l with
  | nil => simp
  | cons a l ih =>
    obtain ⟨ha, hl⟩ := forall_mem_cons.1 h
    have hle : (l.map f).sum ≤ (l.map g).sum := sum_le_sum hl
    rw [map_cons, map_cons, sum_cons, sum_cons] at hsum
    have hhead : g a ≤ f a := le_of_add_le_add_right (hsum.trans (add_le_add_right hle _))
    have htail : (l.map g).sum ≤ (l.map f).sum :=
      le_of_add_le_add_left (hsum.trans (add_le_add_left ha _))
    exact forall_mem_cons.2 ⟨le_antisymm ha hhead, ih hl htail⟩

end Tally
