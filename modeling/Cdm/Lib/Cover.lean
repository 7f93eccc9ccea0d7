import Mathlib.Data.List.Pairwise
import Mathlib.Data.List.Perm.Basic
import Mathlib.Data.List.Flatten

/-!
# Lists of pieces that cover points

A list of pieces `L : List ι`, with a relation `mem i a` that says which points each piece holds.
The pieces are usually intervals, but nothing here depends on that.
-/

namespace Cover

variable {ι α : Type*} {mem : ι → α → Prop}

/-- Some piece of `L` holds `a`. -/
def Covers (mem : ι → α → Prop) (L : List ι) (a : α) : Prop := ∃ i ∈ L, mem i a

/-- No point is held by the pieces at two positions of `L`. -/
def Apart (mem : ι → α → Prop) (L : List ι) : Prop :=
  L.Pairwise fun i j => ∀ a, mem i a → ¬ mem j a

/-- The pieces of `L` are apart and hold exactly the points of `i`. -/
structure Divides (mem : ι → α → Prop) (L : List ι) (i : ι) : Prop where
  apart : Apart mem L
  covers_iff : ∀ a, Covers mem L a ↔ mem i a

theorem apart_symm : Std.Symm fun i j : ι => ∀ a, mem i a → ¬ mem j a :=
  ⟨fun _ _ h a hj hi => h a hi hj⟩

theorem Apart.perm {L M : List ι} (h : Apart mem L) (p : L.Perm M) : Apart mem M :=
  have := @apart_symm ι α mem
  (p.pairwise_iff fun {_ _} hij a hj hi => hij a hi hj).1 h

theorem Apart.sublist {L M : List ι} (h : Apart mem L) (s : M.Sublist L) : Apart mem M :=
  List.Pairwise.sublist s h

theorem Covers.perm {L M : List ι} {a : α} (h : Covers mem L a) (p : L.Perm M) :
    Covers mem M a := by
  obtain ⟨i, hi, ha⟩ := h
  exact ⟨i, p.mem_iff.1 hi, ha⟩

theorem covers_cons {i : ι} {L : List ι} {a : α} :
    Covers mem (i :: L) a ↔ mem i a ∨ Covers mem L a := by
  simp [Covers]

/-- A point lies in at most one of the pieces of a list that is apart. -/
theorem Apart.eq_of_mem {L : List ι} (h : Apart mem L) {i j : ι} {a : α} (hi : i ∈ L) (hj : j ∈ L)
    (hia : mem i a) (hja : mem j a) : i = j := by
  by_contra hne
  have := @apart_symm ι α mem
  exact h.forall hi hj hne a hia hja

/-- A covered point lies in exactly one piece. -/
theorem Apart.existsUnique {L : List ι} (h : Apart mem L) {a : α} (ha : Covers mem L a) :
    ∃! i, i ∈ L ∧ mem i a := by
  obtain ⟨i, hi, hia⟩ := ha
  exact ⟨i, ⟨hi, hia⟩, fun j ⟨hj, hja⟩ => h.eq_of_mem hj hi hja hia⟩

theorem covers_flatMap {L : List ι} {f : ι → List ι} (hf : ∀ i ∈ L, Divides mem (f i) i) {a : α} :
    Covers mem (L.flatMap f) a ↔ Covers mem L a := by
  constructor
  · rintro ⟨j, hj, hja⟩
    obtain ⟨i, hi, hji⟩ := List.mem_flatMap.1 hj
    exact ⟨i, hi, ((hf i hi).covers_iff a).1 ⟨j, hji, hja⟩⟩
  · rintro ⟨i, hi, hia⟩
    obtain ⟨j, hji, hja⟩ := ((hf i hi).covers_iff a).2 hia
    exact ⟨j, List.mem_flatMap.2 ⟨i, hi, hji⟩, hja⟩

/-- Replacing every piece by a division of it keeps the list apart. -/
theorem Apart.flatMap {L : List ι} {f : ι → List ι} (h : Apart mem L)
    (hf : ∀ i ∈ L, Divides mem (f i) i) : Apart mem (L.flatMap f) := by
  rw [Apart, List.pairwise_flatMap]
  refine ⟨fun i hi => (hf i hi).apart, ?_⟩
  refine List.Pairwise.imp_of_mem ?_ h
  intro i j hi hj hij x hx y hy a hxa hya
  exact hij a (((hf i hi).covers_iff a).1 ⟨x, hx, hxa⟩) (((hf j hj).covers_iff a).1 ⟨y, hy, hya⟩)

theorem divides_self (i : ι) : Divides mem [i] i :=
  ⟨List.pairwise_singleton _ _, fun a => by simp [Covers]⟩

theorem Divides.perm {L M : List ι} {i : ι} (h : Divides mem L i) (p : L.Perm M) :
    Divides mem M i :=
  ⟨h.apart.perm p, fun a => ⟨fun hc => (h.covers_iff a).1 (hc.perm p.symm),
    fun hi => ((h.covers_iff a).2 hi).perm p⟩⟩

/-- Dropping pieces, or keeping only a part of them, keeps the list apart. -/
theorem Apart.filterMap {κ : Type*} {mem' : κ → α → Prop} {L : List ι} {f : ι → Option κ}
    (h : Apart mem L) (hf : ∀ i k, f i = some k → ∀ a, mem' k a → mem i a) :
    Apart mem' (L.filterMap f) := by
  rw [Apart, List.pairwise_filterMap]
  refine h.imp ?_
  intro i j hij k hk l hl a hka hla
  exact hij a (hf i k hk a hka) (hf j l hl a hla)

end Cover
