import Mathlib.Data.List.Nodup
import Mathlib.Data.List.Perm.Basic

/-!
# Lists whose elements have different keys
-/

namespace Keyed

variable {α κ : Type*} [DecidableEq κ] {g : α → κ} {l : List α}

theorem filter_eq_singleton (hkeys : (l.map g).Nodup) {a : α} (ha : a ∈ l) :
    (l.filter fun b => g b = g a) = [a] := by
  induction l with
  | nil => simp at ha
  | cons x xs ih =>
    rw [List.map_cons, List.nodup_cons] at hkeys
    rcases List.mem_cons.1 ha with rfl | ha
    · have hrest : (xs.filter fun b => g b = g a) = [] :=
        List.filter_eq_nil_iff.2 fun b hb hkey =>
          hkeys.1 (List.mem_map.2 ⟨b, hb, of_decide_eq_true hkey⟩)
      simp [hrest]
    · have hne : g x ≠ g a := fun h => hkeys.1 (h ▸ List.mem_map_of_mem ha)
      simp [hne, ih hkeys.2 ha]

theorem perm_cons_eraseIdx {i : ℕ} {a : α} (h : l[i]? = some a) : l.Perm (a :: l.eraseIdx i) := by
  obtain ⟨hlt, rfl⟩ := List.getElem?_eq_some_iff.1 h
  exact (List.getElem_cons_eraseIdx_perm hlt).symm

/-- Without an element, there is none with its key. -/
theorem filter_eraseIdx (hkeys : (l.map g).Nodup) {i : ℕ} {a : α} (h : l[i]? = some a) :
    ((l.eraseIdx i).filter fun b => g b = g a) = [] := by
  have hnodup := ((perm_cons_eraseIdx h).map g).nodup_iff.1 hkeys
  rw [List.map_cons, List.nodup_cons] at hnodup
  exact List.filter_eq_nil_iff.2 fun b hb hkey =>
    hnodup.1 (List.mem_map.2 ⟨b, hb, of_decide_eq_true hkey⟩)

theorem filter_eraseIdx_of_ne {i : ℕ} {a : α} (h : l[i]? = some a) {k : κ} (hk : g a ≠ k) :
    ((l.eraseIdx i).filter fun b => g b = k) = l.filter fun b => g b = k := by
  induction l generalizing i with
  | nil => simp at h
  | cons x xs ih =>
    rcases i with - | i
    · obtain rfl : x = a := by simpa using h
      simp [hk]
    · have hrest := ih (i := i) (by simpa using h)
      by_cases hx : g x = k
      · simp [hx, hrest]
      · simp [hx, hrest]

end Keyed
