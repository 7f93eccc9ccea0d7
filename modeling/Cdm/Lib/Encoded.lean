import Cdm.Lib.Fallible
import Mathlib.Data.List.Nodup

/-!
# Computing on encoded values

A program that works on the encodings of values is related to one that works on the values
themselves: `Encodes x enc y` says that `y` is what `x` gives, encoded, and fails where `x` fails or
its result has no encoding.  And the elements of a list without those that have occurred before,
which an injective encoding commutes with.
-/

universe u v

/-- A function on lists that goes through a list element by element. -/
theorem List.eq_map_of_cons {α β : Type*} {f : α → β} {fs : List α → List β} (hnil : fs [] = [])
    (hcons : ∀ x xs, fs (x :: xs) = f x :: fs xs) (xs : List α) : fs xs = xs.map f := by
  induction xs with
  | nil => exact hnil
  | cons x xs ih => rw [hcons, ih, List.map_cons]

/-- One that goes through the second components of pairs. -/
theorem List.eq_map_snd_of_cons {α β γ : Type*} {f : β → γ} {fs : List (α × β) → List γ}
    (hnil : fs [] = []) (hcons : ∀ x xs, fs (x :: xs) = f x.2 :: fs xs) (xs : List (α × β)) :
    fs xs = (xs.map Prod.snd).map f := by
  rw [List.map_map]
  exact List.eq_map_of_cons hnil hcons xs

variable {ε : Type u} {α β γ δ : Type v}

/-- `y` is the encoding of what `x` gives. -/
def Encodes (x : Except ε β) (enc : β → Except ε δ) (y : Except ε δ) : Prop :=
  ∀ d, y = .ok d ↔ ∃ b, x = .ok b ∧ enc b = .ok d

namespace Encodes

open Fallible

theorem mapM {g : α → Except ε β} {enc : β → Except ε δ} {f : γ → Except ε δ} {xs : List α}
    {ys : List γ} (h : List.Forall₂ (fun x y => Encodes (g x) enc (f y)) xs ys) :
    Encodes (xs.mapM g) (List.mapM enc) (ys.mapM f) := by
  intro ds
  rw [mapM_eq_ok_iff]
  constructor
  · intro hds
    induction h generalizing ds with
    | nil =>
      cases hds
      exact ⟨[], rfl, rfl⟩
    | cons hxy _ ih =>
      obtain ⟨d, rest, hd, hrest, rfl⟩ := List.forall₂_cons_left_iff.1 hds
      obtain ⟨b, hb, henc⟩ := (hxy d).1 hd
      obtain ⟨bs, hbs, hencs⟩ := ih rest hrest
      exact ⟨b :: bs, mapM_eq_ok_iff.2 (.cons hb (mapM_eq_ok_iff.1 hbs)),
        mapM_eq_ok_iff.2 (.cons henc (mapM_eq_ok_iff.1 hencs))⟩
  · rintro ⟨bs, hbs, hencs⟩
    rw [mapM_eq_ok_iff] at hbs hencs
    induction h generalizing bs ds with
    | nil =>
      cases hbs
      cases hencs
      exact .nil
    | cons hxy _ ih =>
      obtain ⟨b, rest, hb, hrest, rfl⟩ := List.forall₂_cons_left_iff.1 hbs
      obtain ⟨d, rest', hd, hrest', rfl⟩ := List.forall₂_cons_left_iff.1 hencs
      exact .cons ((hxy d).2 ⟨b, hb, hd⟩) (ih rest' rest hrest hrest')

/-- A program over a list of values, and one over the list of their encodings. -/
theorem mapM_encoded {g : α → Except ε β} {enc : α → Except ε γ} {enc' : β → Except ε δ}
    {f : γ → Except ε δ} {xs : List α} {ys : List γ} (henc : xs.mapM enc = .ok ys)
    (h : ∀ x ∈ xs, ∀ y, enc x = .ok y → Encodes (g x) enc' (f y)) :
    Encodes (xs.mapM g) (List.mapM enc') (ys.mapM f) := by
  refine mapM ?_
  have hall := mapM_eq_ok henc
  clear henc
  induction hall with
  | nil => exact .nil
  | cons hxy _ ih =>
    rw [List.forall_mem_cons] at h
    exact .cons (h.1 _ hxy) (ih h.2)

end Encodes

namespace Fallible

open List

/-- An encoding that tells elements apart tells lists apart. -/
theorem mapM_injective {f : α → Except ε β} {xs ys : List α} {zs : List β}
    (h : ∀ x ∈ xs, ∀ y ∈ ys, ∀ z, f x = .ok z → f y = .ok z → x = y) (hxs : xs.mapM f = .ok zs)
    (hys : ys.mapM f = .ok zs) : xs = ys := by
  replace hxs := mapM_eq_ok hxs
  replace hys := mapM_eq_ok hys
  induction hxs generalizing ys with
  | nil =>
    cases hys
    rfl
  | cons hxz _ ih =>
    obtain ⟨y, rest, hyz, hrest, rfl⟩ := forall₂_cons_right_iff.1 hys
    rw [h _ mem_cons_self y mem_cons_self _ hxz hyz,
      ih (fun x hx y hy => h x (mem_cons_of_mem _ hx) y (mem_cons_of_mem _ hy)) hrest]

theorem exists_of_mem_mapM {f : α → Except ε β} {xs : List α} {ys : List β}
    (h : xs.mapM f = .ok ys) {y : β} (hy : y ∈ ys) : ∃ x ∈ xs, f x = .ok y := by
  obtain ⟨i, hi⟩ := mem_iff_getElem?.1 hy
  obtain ⟨x, hx, hxy⟩ := mapM_getElem? h i hi
  exact ⟨x, mem_of_getElem? hx, hxy⟩

theorem exists_mapM_getElem? {f : α → Except ε β} {xs : List α} {ys : List β}
    (h : xs.mapM f = .ok ys) (i : ℕ) {x : α} (hx : xs[i]? = some x) :
    ∃ y, ys[i]? = some y ∧ f x = .ok y := by
  obtain ⟨hlt, rfl⟩ := List.getElem?_eq_some_iff.1 hx
  have hall := mapM_eq_ok h
  have hlt' : i < ys.length := hall.length_eq ▸ hlt
  exact ⟨ys[i], getElem?_eq_getElem hlt', hall.get hlt hlt'⟩

theorem exists_result_of_mem {f : α → Except ε β} {xs : List α} {ys : List β}
    (h : xs.mapM f = .ok ys) {x : α} (hx : x ∈ xs) : ∃ y ∈ ys, f x = .ok y := by
  obtain ⟨i, hi⟩ := mem_iff_getElem?.1 hx
  obtain ⟨y, hy, hxy⟩ := exists_mapM_getElem? h i hi
  exact ⟨y, mem_of_getElem? hy, hxy⟩

/-- A program that is undone on every element is undone on the list. -/
theorem mapM_back {f : α → Except ε β} {g : β → Except ε α} {xs : List α} {ys : List β}
    (h : ∀ x ∈ xs, ∀ y, f x = .ok y → g y = .ok x) (hxs : xs.mapM f = .ok ys) :
    ys.mapM g = .ok xs := by
  rw [mapM_eq_ok_iff] at hxs ⊢
  refine List.Forall₂.flip (((forall₂_and_left _ _).2 ⟨h, hxs⟩).imp ?_)
  rintro x y ⟨hx, hxy⟩
  exact hx y hxy

theorem exists_map_eq_ok {x : Except ε α} {f : α → β} :
    (∃ b, x.map f = .ok b) ↔ ∃ a, x = .ok a := by
  constructor
  · rintro ⟨b, h⟩
    obtain ⟨a, ha, -⟩ := map_eq_ok.1 h
    exact ⟨a, ha⟩
  · rintro ⟨a, ha⟩
    exact ⟨f a, map_eq_ok.2 ⟨a, ha, rfl⟩⟩

/-! ### Relations between results -/

section Relations

variable {f : α → Except ε β}

/-- Lists have the same results if their elements have. -/
theorem isEqv_iff {same : α → α → Bool} {xs ys : List α} {xs' ys' : List β}
    (h : ∀ x ∈ xs, ∀ y ∈ ys, ∀ x' y', f x = .ok x' → f y = .ok y' → (same x y = true ↔ x' = y'))
    (hxs : xs.mapM f = .ok xs') (hys : ys.mapM f = .ok ys') :
    xs.isEqv ys same = true ↔ xs' = ys' := by
  replace hxs := mapM_eq_ok hxs
  replace hys := mapM_eq_ok hys
  induction hxs generalizing ys ys' with
  | nil =>
    cases hys with
    | nil => simp
    | cons => simp
  | @cons x x' xs xs' hx _ ih =>
    cases hys with
    | nil => simp
    | @cons y y' ys ys' hy hys =>
      have hrest : xs.isEqv ys same = true ↔ xs' = ys' :=
        ih (fun a ha b hb => h a (mem_cons_of_mem _ ha) b (mem_cons_of_mem _ hb)) hys
      rw [isEqv_cons_cons, Bool.and_eq_true, cons_eq_cons,
        h x mem_cons_self y mem_cons_self x' y' hx hy, hrest]

/-- What holds of any two results, in terms of what they come from. -/
theorem pairwise_iff {r : α → α → Prop} {s : β → β → Prop} {xs : List α} {ys : List β}
    (h : ∀ x ∈ xs, ∀ y ∈ xs, ∀ x' y', f x = .ok x' → f y = .ok y' → (r x y ↔ s x' y'))
    (hxs : xs.mapM f = .ok ys) : xs.Pairwise r ↔ ys.Pairwise s := by
  replace hxs := mapM_eq_ok hxs
  induction hxs with
  | nil => simp
  | @cons x y xs ys hxy hxs ih =>
    have hfirst : (∀ a ∈ xs, r x a) ↔ ∀ b ∈ ys, s y b :=
      (forall_mem_mapM (mapM_eq_ok_iff.2 hxs) fun a ha b hab =>
        (h x mem_cons_self a (mem_cons_of_mem _ ha) y b hxy hab).symm).symm
    have hrest : xs.Pairwise r ↔ ys.Pairwise s :=
      ih fun a ha b hb => h a (mem_cons_of_mem _ ha) b (mem_cons_of_mem _ hb)
    rw [pairwise_cons, pairwise_cons, hfirst, hrest]

/-- Two programs have the same results on a list if they have on each element. -/
theorem mapM_eq_iff {g : α → Except ε β} {p : α → Prop} {xs : List α} {ys zs : List β}
    (h : ∀ x ∈ xs, ∀ y z, f x = .ok y → g x = .ok z → (p x ↔ y = z)) (hf : xs.mapM f = .ok ys)
    (hg : xs.mapM g = .ok zs) : (∀ x ∈ xs, p x) ↔ ys = zs := by
  replace hf := mapM_eq_ok hf
  replace hg := mapM_eq_ok hg
  induction hf generalizing zs with
  | nil =>
    cases hg
    simp
  | @cons x y xs ys hxy _ ih =>
    cases hg with
    | @cons _ z _ zs hxz hg =>
      have hrest : (∀ a ∈ xs, p a) ↔ ys = zs :=
        ih (fun a ha => h a (mem_cons_of_mem _ ha)) hg
      rw [forall_mem_cons, cons_eq_cons, h x mem_cons_self y z hxy hxz, hrest]

end Relations

end Fallible

/-! ### Repeated elements -/

/-- Adds the elements that are not the same as one that is there, one after the other. -/
def keepFirstBy (same : α → α → Bool) (kept : List α) : List α → List α
  | [] => kept
  | x :: xs =>
    if kept.any (same x) then keepFirstBy same kept xs else keepFirstBy same (kept ++ [x]) xs

theorem keepFirstBy_cons (same : α → α → Bool) (kept : List α) (x : α) (xs : List α) :
    keepFirstBy same kept (x :: xs) =
      if kept.any (same x) then keepFirstBy same kept xs
      else keepFirstBy same (kept ++ [x]) xs := rfl

theorem mem_of_mem_keepFirstBy {same : α → α → Bool} {xs : List α} {x : α}
    (h : x ∈ keepFirstBy same [] xs) : x ∈ xs := by
  have hall (kept : List α) (hx : x ∈ keepFirstBy same kept xs) : x ∈ kept ∨ x ∈ xs := by
    clear h
    induction xs generalizing kept with
    | nil => exact .inl hx
    | cons y ys ih =>
      rw [keepFirstBy_cons] at hx
      split_ifs at hx
      · obtain h | h := ih kept hx
        · exact .inl h
        · exact .inr (List.mem_cons_of_mem _ h)
      · obtain h | h := ih _ hx
        · obtain h | h := List.mem_append.1 h
          · exact .inl h
          · exact .inr (List.mem_singleton.1 h ▸ List.mem_cons_self)
        · exact .inr (List.mem_cons_of_mem _ h)
  obtain h | h := hall [] h
  · cases h
  · exact h

section KeepFirst

variable [DecidableEq β]

/-- Adds the elements that are not there yet, one after the other. -/
def keepFirst (kept : List β) : List β → List β
  | [] => kept
  | x :: xs => if x ∈ kept then keepFirst kept xs else keepFirst (kept ++ [x]) xs

theorem keepFirst_nil (kept : List β) : keepFirst kept [] = kept := rfl

theorem keepFirst_cons (kept : List β) (x : β) (xs : List β) :
    keepFirst kept (x :: xs) =
      if x ∈ kept then keepFirst kept xs else keepFirst (kept ++ [x]) xs := rfl

theorem mem_keepFirst {kept xs : List β} {x : β} : x ∈ keepFirst kept xs ↔ x ∈ kept ∨ x ∈ xs := by
  induction xs generalizing kept with
  | nil => simp [keepFirst_nil]
  | cons y ys ih =>
    rw [keepFirst_cons]
    split_ifs with hy
    · rw [ih, List.mem_cons]
      constructor
      · rintro (h | h)
        · exact .inl h
        · exact .inr (.inr h)
      · rintro (h | rfl | h)
        · exact .inl h
        · exact .inl hy
        · exact .inr h
    · rw [ih, List.mem_append, List.mem_singleton, List.mem_cons, or_assoc]

theorem nodup_keepFirst {kept : List β} (h : kept.Nodup) (xs : List β) :
    (keepFirst kept xs).Nodup := by
  induction xs generalizing kept with
  | nil => exact h
  | cons x xs ih =>
    rw [keepFirst_cons]
    split_ifs with hx
    · exact ih h
    · refine ih (List.nodup_append.2 ⟨h, by simp, ?_⟩)
      intro y hy z hz
      rw [List.mem_singleton.1 hz]
      rintro rfl
      exact hx hy

theorem keepFirst_of_nodup {kept xs : List β} (h : (kept ++ xs).Nodup) :
    keepFirst kept xs = kept ++ xs := by
  induction xs generalizing kept with
  | nil => rw [keepFirst_nil, List.append_nil]
  | cons x xs ih =>
    have hnot : x ∉ kept := fun hmem => List.disjoint_of_nodup_append h hmem List.mem_cons_self
    have hassoc : kept ++ x :: xs = kept ++ [x] ++ xs := by simp
    rw [keepFirst_cons, if_neg hnot, ih (by rwa [← hassoc]), ← hassoc]

theorem keepFirst_eq_self {xs : List β} (h : xs.Nodup) : keepFirst [] xs = xs :=
  (keepFirst_of_nodup (by rwa [List.nil_append])).trans (List.nil_append xs)

theorem length_keepFirst_le (kept xs : List β) :
    (keepFirst kept xs).length ≤ kept.length + xs.length := by
  induction xs generalizing kept with
  | nil => simp [keepFirst_nil]
  | cons x xs ih =>
    rw [keepFirst_cons]
    split_ifs
    · have := ih kept
      simp only [List.length_cons]
      omega
    · have := ih (kept ++ [x])
      simp only [List.length_append, List.length_cons, List.length_nil] at this ⊢
      omega

/-- Nothing is dropped only if no element is there twice. -/
theorem nodup_of_length_keepFirst {kept xs : List β} (hkept : kept.Nodup)
    (h : (keepFirst kept xs).length = kept.length + xs.length) : (kept ++ xs).Nodup := by
  induction xs generalizing kept with
  | nil => rwa [List.append_nil]
  | cons x xs ih =>
    rw [keepFirst_cons] at h
    split_ifs at h with hmem
    · have := length_keepFirst_le kept xs
      rw [List.length_cons] at h
      omega
    · have hassoc : kept ++ x :: xs = kept ++ [x] ++ xs := by simp
      have hnodup := nodup_keepFirst hkept [x]
      rw [keepFirst_cons, if_neg hmem, keepFirst_nil] at hnodup
      rw [hassoc]
      refine ih hnodup ?_
      rw [h]
      simp only [List.length_append, List.length_cons, List.length_nil]
      omega

theorem mapM_keepFirstBy_kept {same : α → α → Bool} {f : α → Except ε β} {kept xs : List α}
    {kept' ys : List β}
    (h : ∀ x ∈ kept ++ xs, ∀ y ∈ kept ++ xs, ∀ x' y', f x = .ok x' → f y = .ok y' →
      (same x y = true ↔ x' = y'))
    (hkept : kept.mapM f = .ok kept') (hxs : xs.mapM f = .ok ys) :
    (keepFirstBy same kept xs).mapM f = .ok (keepFirst kept' ys) := by
  replace hxs := Fallible.mapM_eq_ok hxs
  induction hxs generalizing kept kept' with
  | nil => exact hkept
  | @cons x y xs ys hxy _ ih =>
    have hmem : kept.any (same x) = true ↔ y ∈ kept' := by
      rw [List.any_eq_true]
      constructor
      · rintro ⟨k, hk, hsame⟩
        obtain ⟨k', hk', hkk'⟩ := Fallible.exists_result_of_mem hkept hk
        rwa [(h x (by simp) k (by simp [hk]) y k' hxy hkk').1 hsame]
      · intro hy
        obtain ⟨k, hk, hky⟩ := Fallible.exists_of_mem_mapM hkept hy
        exact ⟨k, hk, (h x (by simp) k (by simp [hk]) y y hxy hky).2 rfl⟩
    rw [keepFirstBy_cons, keepFirst_cons]
    by_cases hy : y ∈ kept'
    · rw [if_pos hy, if_pos (hmem.2 hy)]
      refine ih (fun a ha b hb => h a ?_ b ?_) hkept
      · exact List.append_subset.2 ⟨by simp, by simp⟩ ha
      · exact List.append_subset.2 ⟨by simp, by simp⟩ hb
    · rw [if_neg hy, if_neg (mt hmem.1 hy)]
      refine ih (by simpa [List.append_assoc] using h) ?_
      rw [Fallible.mapM_eq_ok_iff]
      exact List.rel_append (Fallible.mapM_eq_ok hkept) (.cons hxy .nil)

/-- Elements that are the same have the same result: dropping them before and after a program has
the same effect. -/
theorem mapM_keepFirstBy {same : α → α → Bool} {f : α → Except ε β} {xs : List α} {ys : List β}
    (h : ∀ x ∈ xs, ∀ y ∈ xs, ∀ x' y', f x = .ok x' → f y = .ok y' → (same x y = true ↔ x' = y'))
    (hxs : xs.mapM f = .ok ys) : (keepFirstBy same [] xs).mapM f = .ok (keepFirst [] ys) :=
  mapM_keepFirstBy_kept h rfl hxs

theorem keepFirst_eq_keepFirstBy (kept xs : List β) :
    keepFirst kept xs = keepFirstBy (fun x y => x = y) kept xs := by
  induction xs generalizing kept with
  | nil => rfl
  | cons x xs ih =>
    have hany : kept.any (fun y => x = y) = true ↔ x ∈ kept := by simp
    rw [keepFirst_cons, keepFirstBy_cons]
    by_cases hx : x ∈ kept
    · rw [if_pos hx, if_pos (hany.2 hx), ih]
    · rw [if_neg hx, if_neg (mt hany.1 hx), ih]

/-- An encoding that tells the elements apart may as well be applied first. -/
theorem keepFirst_map [DecidableEq α] {f : α → Except ε β} {xs : List α} {ys : List β}
    (h : ∀ x ∈ xs, ∀ y ∈ xs, ∀ z, f x = .ok z → f y = .ok z → x = y) (hxs : xs.mapM f = .ok ys) :
    (keepFirst [] xs).mapM f = .ok (keepFirst [] ys) := by
  rw [keepFirst_eq_keepFirstBy]
  refine mapM_keepFirstBy (fun x hx y hy x' y' hxx' hyy' => ?_) hxs
  rw [decide_eq_true_eq]
  constructor
  · rintro rfl
    exact Except.ok.inj (hxx'.symm.trans hyy')
  · rintro rfl
    exact h x hx y hy x' hxx' hyy'

end KeepFirst
