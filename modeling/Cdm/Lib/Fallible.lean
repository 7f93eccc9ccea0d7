import Mathlib.Data.List.Basic
import Mathlib.Data.List.Forall2

/-!
# Fallible computations

Inversion lemmas for `Except`: what has happened when a chain of fallible steps, or a fallible map
over a list, ends well.  And what two searches through one list find.
-/

namespace Fallible

open List

universe u v

variable {ε : Type u} {α β : Type v}

theorem ok_bind (a : α) (f : α → Except ε β) : (Except.ok a >>= f) = f a := rfl

theorem error_bind (e : ε) (f : α → Except ε β) : (Except.error e >>= f) = .error e := rfl

theorem map_ok (f : α → β) (a : α) : (Except.ok a : Except ε α).map f = .ok (f a) := rfl

theorem map_error (f : α → β) (e : ε) : (Except.error e : Except ε α).map f = .error e := rfl

theorem toOption_ok (a : α) : (Except.ok a : Except ε α).toOption = some a := rfl

theorem toOption_error (e : ε) : (Except.error e : Except ε α).toOption = none := rfl

theorem bind_eq_ok {x : Except ε α} {f : α → Except ε β} {b : β} :
    (x >>= f) = .ok b ↔ ∃ a, x = .ok a ∧ f a = .ok b := by
  cases x with
  | error e => simp [error_bind]
  | ok a => simp [ok_bind]

theorem map_eq_ok {x : Except ε α} {f : α → β} {b : β} :
    x.map f = .ok b ↔ ∃ a, x = .ok a ∧ f a = b := by
  cases x with
  | error e => simp [map_error]
  | ok a => simp [map_ok]

theorem bind_eq_error {x : Except ε α} {f : α → Except ε β} {e : ε} :
    (x >>= f) = .error e ↔ x = .error e ∨ ∃ a, x = .ok a ∧ f a = .error e := by
  cases x with
  | error e => simp [error_bind]
  | ok a => simp [ok_bind]

theorem map_eq_error {x : Except ε α} {f : α → β} {e : ε} :
    x.map f = .error e ↔ x = .error e := by
  cases x with
  | error e => simp [map_error]
  | ok a => simp [map_ok]

/-- A fallible map that ends well has ended well on every element, in order. -/
theorem mapM_eq_ok {f : α → Except ε β} {xs : List α} {ys : List β} (h : xs.mapM f = .ok ys) :
    List.Forall₂ (fun x y => f x = .ok y) xs ys := by
  induction xs generalizing ys with
  | nil =>
    cases h
    exact .nil
  | cons x xs ih =>
    rw [mapM_cons, bind_eq_ok] at h
    obtain ⟨y, hy, h⟩ := h
    obtain ⟨zs, hzs, h⟩ := bind_eq_ok.1 h
    cases h
    exact .cons hy (ih hzs)

theorem mapM_eq_ok_iff {f : α → Except ε β} {xs : List α} {ys : List β} :
    xs.mapM f = .ok ys ↔ List.Forall₂ (fun x y => f x = .ok y) xs ys := by
  refine ⟨mapM_eq_ok, ?_⟩
  intro h
  induction h with
  | nil => rfl
  | cons hxy _ ih =>
    rw [mapM_cons, hxy, ih]
    rfl

/-- Distinct results come from distinct elements. -/
theorem nodup_of_mapM {f : α → Except ε β} {xs : List α} {ys : List β} (h : xs.mapM f = .ok ys)
    (hys : ys.Nodup) : xs.Nodup := by
  have h2 := mapM_eq_ok h
  clear h
  induction h2 with
  | nil => exact nodup_nil
  | @cons x y xs ys hxy hall ih =>
    obtain ⟨hnot, hys⟩ := nodup_cons.1 hys
    refine nodup_cons.2 ⟨?_, ih hys⟩
    intro hmem
    obtain ⟨i, hi, rfl⟩ := getElem_of_mem hmem
    have hy := hall.get hi (hall.length_eq ▸ hi)
    rw [get_eq_getElem] at hy
    rw [hxy] at hy
    rw [Except.ok.inj hy] at hnot
    exact hnot (get_mem _ _)

theorem length_mapM {f : α → Except ε β} {xs : List α} {ys : List β} (h : xs.mapM f = .ok ys) :
    ys.length = xs.length := (mapM_eq_ok h).length_eq.symm

/-- What holds of all results, in terms of what they come from. -/
theorem forall_mem_mapM {f : α → Except ε β} {xs : List α} {ys : List β} (h : xs.mapM f = .ok ys)
    {p : α → Prop} {q : β → Prop} (hpq : ∀ x ∈ xs, ∀ y, f x = .ok y → (q y ↔ p x)) :
    (∀ y ∈ ys, q y) ↔ ∀ x ∈ xs, p x := by
  replace h := mapM_eq_ok h
  induction h with
  | nil => simp
  | cons hxy _ ih =>
    rw [forall_mem_cons] at hpq
    rw [forall_mem_cons, forall_mem_cons]
    exact and_congr (hpq.1 _ hxy) (ih hpq.2)

/-- A fallible map over the elements and their positions, whose good outcomes do not depend on the
positions. -/
theorem mapM_zipIdx_eq_ok {f : α × ℕ → Except ε β} {g : α → Except ε β} {xs : List α}
    {ys : List β} (hfg : ∀ x i y, f (x, i) = .ok y → g x = .ok y) {k : ℕ}
    (h : (xs.zipIdx k).mapM f = .ok ys) : xs.mapM g = .ok ys := by
  induction xs generalizing ys k with
  | nil => exact h
  | cons x xs ih =>
    rw [zipIdx_cons, mapM_cons, bind_eq_ok] at h
    obtain ⟨y, hy, h⟩ := h
    obtain ⟨zs, hzs, h⟩ := bind_eq_ok.1 h
    rw [mapM_cons, hfg x k y hy, ok_bind, ih hzs]
    exact h

/-- The element a good outcome comes from. -/
theorem mapM_getElem? {f : α → Except ε β} {xs : List α} {ys : List β}
    (h : xs.mapM f = .ok ys) (i : ℕ) {y : β} (hy : ys[i]? = some y) :
    ∃ x, xs[i]? = some x ∧ f x = .ok y := by
  have h2 := mapM_eq_ok h
  have hlen := h2.length_eq
  obtain ⟨hi, rfl⟩ := List.getElem?_eq_some_iff.1 hy
  exact ⟨xs[i], getElem?_eq_getElem (by omega), h2.get (by omega) hi⟩

/-- The result of the first element with a property, and where it comes from. -/
theorem mapM_find? {f : α → Except ε β} {xs : List α} {ys : List β} {p : α → Bool}
    (h : xs.mapM f = .ok ys) (hp : ∃ x ∈ xs, p x = true) :
    ∃ x y, p x = true ∧ f x = .ok y ∧ ((xs.zip ys).find? fun z => p z.1).map Prod.snd = some y := by
  have h2 := mapM_eq_ok h
  clear h
  induction h2 with
  | nil => simp at hp
  | @cons x y xs ys hxy _ ih =>
    rw [zip_cons_cons, find?_cons]
    by_cases hx : p x = true
    · exact ⟨x, y, hx, hxy, by simp [hx]⟩
    · simp only [hx]
      refine ih ?_
      obtain ⟨z, hz, hpz⟩ := hp
      rcases mem_cons.1 hz with rfl | hz
      · exact absurd hpz hx
      · exact ⟨z, hz, hpz⟩

theorem mapError_eq_ok {ε' : Type u} {x : Except ε α} {f : ε → ε'} {a : α} :
    x.mapError f = .ok a ↔ x = .ok a := by
  cases x with
  | error e => simp [Except.mapError]
  | ok a => simp [Except.mapError]

/-- Steps that fail with a changed error make a map that fails with the changed error. -/
theorem mapM_mapError {ε' : Type u} (f : α → Except ε β) (g : ε → ε') (xs : List α) :
    xs.mapM (fun x => (f x).mapError g) = (xs.mapM f).mapError g := by
  induction xs with
  | nil => rfl
  | cons x xs ih =>
    rw [mapM_cons, mapM_cons, ih]
    cases f x with
    | error e => rfl
    | ok y =>
      cases xs.mapM f with
      | error e => rfl
      | ok ys => rfl

/-- A fallible map ends well exactly when each of its steps does. -/
theorem exists_mapM_eq_ok {f : α → Except ε β} {xs : List α} :
    (∃ ys, xs.mapM f = .ok ys) ↔ ∀ x ∈ xs, ∃ y, f x = .ok y := by
  induction xs with
  | nil => exact ⟨fun _ x hx => absurd hx not_mem_nil, fun _ => ⟨[], rfl⟩⟩
  | cons x xs ih =>
    rw [forall_mem_cons, ← ih, mapM_cons]
    constructor
    · rintro ⟨ys, h⟩
      obtain ⟨y, hy, h⟩ := bind_eq_ok.1 h
      obtain ⟨zs, hzs, -⟩ := bind_eq_ok.1 h
      exact ⟨⟨y, hy⟩, zs, hzs⟩
    · rintro ⟨⟨y, hy⟩, zs, hzs⟩
      exact ⟨y :: zs, by rw [hy, hzs]; rfl⟩

/-! ### Up to the error -/

/-- A fallible map fails when one of its steps does. -/
theorem toOption_mapM_eq_none {f : α → Except ε β} {xs : List α} :
    (xs.mapM f).toOption = none ↔ ∃ x ∈ xs, (f x).toOption = none := by
  induction xs with
  | nil =>
    have hnil : ([].mapM f : Except ε (List β)) = .ok [] := rfl
    simp [hnil, toOption_ok]
  | cons x xs ih =>
    rw [mapM_cons, exists_mem_cons_iff, ← ih]
    cases hx : f x with
    | error e => simp [error_bind, toOption_error]
    | ok y =>
      cases hxs : xs.mapM f with
      | error e => simp [ok_bind, toOption_error]
      | ok ys => simp [ok_bind, toOption_ok]

/-- Fallible maps whose steps return the same, or fail both, do so too. -/
theorem toOption_mapM_congr {ε' : Type u} {f : α → Except ε β} {g : α → Except ε' β} {xs : List α}
    (h : ∀ x ∈ xs, (f x).toOption = (g x).toOption) :
    (xs.mapM f).toOption = (xs.mapM g).toOption := by
  induction xs with
  | nil => rfl
  | cons x xs ih =>
    have hx := h x mem_cons_self
    have hxs := ih fun y hy => h y (mem_cons_of_mem _ hy)
    rw [mapM_cons, mapM_cons]
    cases hf : f x <;> cases hg : g x <;> rw [hf, hg] at hx <;> cases hx
    · rfl
    · cases hfs : xs.mapM f <;> cases hgs : xs.mapM g <;> rw [hfs, hgs] at hxs <;> cases hxs
      · rfl
      · rfl

/-- Fallible maps with one outcome agree on every element. -/
theorem eq_of_mapM_eq_ok {f g : α → Except ε β} {xs : List α} {ys : List β}
    (hf : xs.mapM f = .ok ys) (hg : xs.mapM g = .ok ys) : ∀ x ∈ xs, f x = g x := by
  replace hf := mapM_eq_ok hf
  replace hg := mapM_eq_ok hg
  induction hf with
  | nil => simp
  | cons hxy _ ih =>
    cases hg with
    | cons hxy' hg =>
      rw [forall_mem_cons]
      exact ⟨hxy.trans hxy'.symm, ih hg⟩

/-! ### One step after the other -/

/-- Takes a fallible step for one element after the other, up to the first failure: what the steps
returned, and the failure, if there was one. -/
def runAll (f : α → Except ε β) : List α → List β × Option ε
  | [] => ([], none)
  | x :: xs =>
    match f x with
    | .error e => ([], some e)
    | .ok y => (y :: (runAll f xs).1, (runAll f xs).2)

theorem runAll_ok {f : α → Except ε β} {x : α} {y : β} (h : f x = .ok y) (xs : List α) :
    runAll f (x :: xs) = (y :: (runAll f xs).1, (runAll f xs).2) := by
  rw [runAll, h]

theorem runAll_error {f : α → Except ε β} {x : α} {e : ε} (h : f x = .error e) (xs : List α) :
    runAll f (x :: xs) = ([], some e) := by
  rw [runAll, h]

/-- Steps that return the same, or fail both, come to the same. -/
theorem runAll_congr {ε' : Type u} {f : α → Except ε β} {g : α → Except ε' β} {xs : List α}
    (h : ∀ x ∈ xs, (f x).toOption = (g x).toOption) :
    (runAll f xs).1 = (runAll g xs).1 ∧ (runAll f xs).2.isSome = (runAll g xs).2.isSome := by
  induction xs with
  | nil => exact ⟨rfl, rfl⟩
  | cons x xs ih =>
    have hx := h x mem_cons_self
    obtain ⟨hvalues, hfailure⟩ := ih fun y hy => h y (mem_cons_of_mem _ hy)
    cases hf : f x with
    | error e =>
      rw [hf] at hx
      cases hg : g x with
      | error e' =>
        rw [runAll_error hf, runAll_error hg]
        exact ⟨rfl, rfl⟩
      | ok y =>
        rw [hg] at hx
        cases hx
    | ok y =>
      rw [hf] at hx
      cases hg : g x with
      | error e' =>
        rw [hg] at hx
        cases hx
      | ok z =>
        rw [hg] at hx
        cases hx
        rw [runAll_ok hf, runAll_ok hg]
        exact ⟨by rw [hvalues], hfailure⟩

/-- The failure of a run is that of one of its steps. -/
theorem exists_of_runAll {f : α → Except ε β} {xs : List α} {e : ε}
    (h : (runAll f xs).2 = some e) : ∃ x ∈ xs, f x = .error e := by
  induction xs with
  | nil => cases h
  | cons x xs ih =>
    cases hx : f x with
    | error e' =>
      rw [runAll_error hx] at h
      cases h
      exact ⟨x, mem_cons_self, hx⟩
    | ok y =>
      rw [runAll_ok hx] at h
      obtain ⟨x', hx', he⟩ := ih h
      exact ⟨x', mem_cons_of_mem _ hx', he⟩

/-- What a run returns is returned by its steps. -/
theorem mem_runAll {f : α → Except ε β} {xs : List α} {y : β} (h : y ∈ (runAll f xs).1) :
    ∃ x ∈ xs, f x = .ok y := by
  induction xs with
  | nil => cases h
  | cons x xs ih =>
    cases hx : f x with
    | error e =>
      rw [runAll_error hx] at h
      cases h
    | ok z =>
      rw [runAll_ok hx] at h
      rcases mem_cons.1 h with rfl | h
      · exact ⟨x, mem_cons_self, hx⟩
      · obtain ⟨x', hx', hy⟩ := ih h
        exact ⟨x', mem_cons_of_mem _ hx', hy⟩

theorem runAll_map {γ : Type v} (f : α → Except ε β) (g : γ → α) (xs : List γ) :
    runAll f (xs.map g) = runAll (fun x => f (g x)) xs := by
  induction xs with
  | nil => rfl
  | cons x xs ih =>
    rw [map_cons]
    cases hx : f (g x) with
    | error e => rw [runAll_error hx, runAll_error (f := fun x => f (g x)) hx]
    | ok y => rw [runAll_ok hx, runAll_ok (f := fun x => f (g x)) hx, ih]

/-- Runs that come to the same take the same first step. -/
theorem toOption_eq_of_runAll {ε' : Type u} {f : α → Except ε β} {g : α → Except ε' β} {x : α}
    {xs : List α} (hvalues : (runAll f (x :: xs)).1 = (runAll g (x :: xs)).1) :
    (f x).toOption = (g x).toOption := by
  cases hf : f x with
  | error e =>
    cases hg : g x with
    | error e' => rfl
    | ok z =>
      rw [runAll_error hf, runAll_ok hg] at hvalues
      cases hvalues
  | ok y =>
    cases hg : g x with
    | error e' =>
      rw [runAll_ok hf, runAll_error hg] at hvalues
      cases hvalues
    | ok z =>
      rw [runAll_ok hf, runAll_ok hg] at hvalues
      exact congrArg some (List.cons.inj hvalues).1

/-- A run returns nothing and fails exactly when its first step does. -/
theorem runAll_eq_failed_iff {f : α → Except ε β} {x : α} {xs : List α} :
    ((runAll f (x :: xs)).1, (runAll f (x :: xs)).2.isSome) = ([], true) ↔
      (f x).toOption = none := by
  cases hf : f x with
  | error e => simp [runAll_error hf, toOption_error]
  | ok y => simp [runAll_ok hf, toOption_ok]

@[simp] theorem toOption_mapError {ε' : Type u} (x : Except ε α) (f : ε → ε') :
    (x.mapError f).toOption = x.toOption := by
  cases x with
  | error e => rfl
  | ok a => rfl

theorem toOption_eq_some {x : Except ε α} {a : α} : x.toOption = some a ↔ x = .ok a := by
  cases x with
  | error e => simp [toOption_error]
  | ok b => simp [toOption_ok]

/-- The result of a fallible computation, or a default. -/
def getD (x : Except ε α) (d : α) : α :=
  match x with
  | .ok a => a
  | .error _ => d

@[simp] theorem getD_ok (a d : α) : getD (.ok a : Except ε α) d = a := rfl

/-- As `mapM_eq_ok`, with the result written as a total map. -/
theorem mapM_eq_ok_map {f : α → Except ε β} {xs : List α} {ys : List β} (d : β)
    (h : xs.mapM f = .ok ys) :
    ys = xs.map (fun x => getD (f x) d) ∧ ∀ x ∈ xs, f x = .ok (getD (f x) d) := by
  replace h := mapM_eq_ok h
  induction h with
  | nil => simp
  | cons hxy _ ih =>
    simp only [map_cons, hxy, getD_ok, mem_cons, forall_eq_or_imp, true_and]
    exact ⟨by rw [← ih.1], ih.2⟩

/-! ### Undoing a fallible computation -/

/-- `g` undoes `f` on exactly those inputs of `f` that satisfy `C`. -/
def UndoneOn (f : α → Except ε β) (g : β → Except ε α) (C : α → Prop) : Prop :=
  ∀ ⦃x y⦄, f x = .ok y → (g y = .ok x ↔ C x)

namespace UndoneOn

variable {f : α → Except ε β} {g : β → Except ε α} {C : α → Prop}

/-- Lists are undone element by element. -/
theorem mapM (h : UndoneOn f g C) :
    UndoneOn (List.mapM f) (List.mapM g) (fun xs => ∀ x ∈ xs, C x) := by
  intro xs ys hf
  rw [mapM_eq_ok_iff]
  have h2 := mapM_eq_ok hf
  clear hf
  induction h2 with
  | nil => simp
  | cons hxy _ ih => simp [h hxy, ih]

theorem congr (h : UndoneOn f g C) {C' : α → Prop} (hC : ∀ x, C x ↔ C' x) : UndoneOn f g C' := by
  intro x y hf
  rw [h hf, hC]

end UndoneOn

theorem findSome?_congr {α β : Type*} {f g : α → Option β} {xs : List α}
    (h : ∀ x ∈ xs, f x = g x) : xs.findSome? f = xs.findSome? g := by
  induction xs with
  | nil => rfl
  | cons x xs ih =>
    rw [findSome?_cons, findSome?_cons, h x mem_cons_self,
      ih fun y hy => h y (mem_cons_of_mem _ hy)]

/-- Searches that find related things in every element find related things first. -/
theorem rel_findSome? {α β γ : Type*} {R : β → γ → Prop} {f : α → Option β} {g : α → Option γ}
    {xs : List α} (h : ∀ x ∈ xs, Option.Rel R (f x) (g x)) :
    Option.Rel R (xs.findSome? f) (xs.findSome? g) := by
  induction xs with
  | nil => exact .none
  | cons x xs ih =>
    have hx := h x mem_cons_self
    rw [findSome?_cons, findSome?_cons]
    generalize f x = a at hx
    generalize g x = b at hx
    cases hx with
    | none => exact ih fun y hy => h y (mem_cons_of_mem _ hy)
    | some hab => exact .some hab

end Fallible
