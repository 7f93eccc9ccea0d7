import Mathlib.Data.List.Sort

/-!
# Sorting by rank

`slice::sort_by_key` sorts a list by the rank of its elements and is stable: elements of one rank
keep the order they had.  Such a sort is determined by what it does to the elements of one rank,
which is nothing.
-/

namespace List

variable {α : Type*} (rank : α → ℕ)

/-- `slice::sort_by_key`: the stable sort by a rank. -/
def sortByKey (l : List α) : List α := l.insertionSort fun a b => rank a ≤ rank b

theorem perm_sortByKey (l : List α) : l.sortByKey rank ~ l := l.perm_insertionSort _

theorem pairwise_sortByKey (l : List α) :
    (l.sortByKey rank).Pairwise fun a b => rank a ≤ rank b := by
  have : Std.Total fun a b : α => rank a ≤ rank b := ⟨fun a b => Nat.le_total _ _⟩
  have : IsTrans α fun a b => rank a ≤ rank b := ⟨fun a b c => Nat.le_trans⟩
  exact l.pairwise_insertionSort _

/-- An element goes in front of the elements of its rank. -/
theorem filter_orderedInsert (r : ℕ) (a : α) (l : List α) :
    (l.orderedInsert (fun a b => rank a ≤ rank b) a).filter (rank · = r) =
      (a :: l).filter (rank · = r) := by
  induction l with
  | nil => rfl
  | cons b l ih =>
    rw [orderedInsert]
    split_ifs with hle
    · rfl
    · -- `b` stays in front, and is of another rank than `a`
      rw [filter_cons, ih, filter_cons, filter_cons, filter_cons]
      by_cases ha : rank a = r
      · have hb : rank b ≠ r := fun hb => hle (by omega)
        simp [ha, hb]
      · simp [ha]

/-- **Stability**: the elements of one rank keep their order. -/
theorem filter_sortByKey (r : ℕ) (l : List α) :
    (l.sortByKey rank).filter (rank · = r) = l.filter (rank · = r) := by
  induction l with
  | nil => rfl
  | cons a l ih =>
    rw [sortByKey, insertionSort_cons, filter_orderedInsert, filter_cons, filter_cons,
      ← sortByKey, ih]

/-- A list in the order of the ranks is its elements below a rank, those of the rank, and those
above. -/
theorem eq_filter_append_of_pairwise {l : List α} (h : l.Pairwise fun a b => rank a ≤ rank b)
    (r : ℕ) : l = l.filter (rank · < r) ++ l.filter (rank · = r) ++ l.filter (r < rank ·) := by
  induction l with
  | nil => rfl
  | cons a l ih =>
    obtain ⟨ha, hl⟩ := pairwise_cons.1 h
    -- no element stands below a rank that the first one has reached
    have hnil : ∀ p : α → Bool, (∀ b, rank a ≤ rank b → p b = false) → l.filter p = [] :=
      fun p hp => filter_eq_nil_iff.2 fun b hb => by simp [hp b (ha b hb)]
    rcases lt_trichotomy (rank a) r with hlt | heq | hgt
    · have hne : rank a ≠ r := by omega
      have hle : ¬ r < rank a := by omega
      simpa [filter_cons, hlt, hne, hle] using ih hl
    · have hbelow := hnil (rank · < r) fun b hb => by simp; omega
      have := ih hl
      rw [hbelow, nil_append] at this
      simpa [filter_cons, heq, hbelow] using this
    · have hbelow := hnil (rank · < r) fun b hb => by simp; omega
      have hat := hnil (rank · = r) fun b hb => by simp; omega
      have hne : rank a ≠ r := by omega
      have hle : ¬ rank a < r := by omega
      have := ih hl
      rw [hbelow, hat, nil_append, nil_append] at this
      simpa [filter_cons, hgt, hne, hle, hbelow, hat] using this

/-- A list in the order of the ranks is determined by its elements of each rank. -/
theorem eq_of_pairwise_of_filter_eq {l₁ l₂ : List α} (h₁ : l₁.Pairwise fun a b => rank a ≤ rank b)
    (h₂ : l₂.Pairwise fun a b => rank a ≤ rank b)
    (h : ∀ r, l₁.filter (rank · = r) = l₂.filter (rank · = r)) : l₁ = l₂ := by
  have hmem : ∀ a, a ∈ l₁ ↔ a ∈ l₂ := fun a => by
    have := congrArg (a ∈ ·) (h (rank a))
    simpa using this
  induction l₁ generalizing l₂ with
  | nil => exact (eq_nil_iff_forall_not_mem.2 fun a ha => by simp [← hmem] at ha).symm
  | cons a l₁ ih =>
    cases l₂ with
    | nil => exact absurd ((hmem a).1 mem_cons_self) not_mem_nil
    | cons b l₂ =>
      obtain ⟨ha, hl₁⟩ := pairwise_cons.1 h₁
      obtain ⟨hb, hl₂⟩ := pairwise_cons.1 h₂
      -- each head is the least of one list, and in the other
      have hab : rank a ≤ rank b := by
        rcases mem_cons.1 ((hmem b).2 mem_cons_self) with rfl | hmemb
        · exact le_rfl
        · exact ha b hmemb
      have hba : rank b ≤ rank a := by
        rcases mem_cons.1 ((hmem a).1 mem_cons_self) with rfl | hmema
        · exact le_rfl
        · exact hb a hmema
      have hrank : rank b = rank a := le_antisymm hba hab
      have hhead := h (rank a)
      simp only [filter_cons, hrank, decide_true, if_true, cons.injEq] at hhead
      obtain ⟨rfl, -⟩ := hhead
      have htail : ∀ r, l₁.filter (rank · = r) = l₂.filter (rank · = r) := by
        intro r
        have := h r
        simp only [filter_cons] at this
        split_ifs at this
        · exact (cons.inj this).2
        · exact this
      refine congrArg _ (ih hl₁ hl₂ htail fun c => ?_)
      have := congrArg (c ∈ ·) (htail (rank c))
      simpa using this

/-- Lists whose elements of each rank stand in one order are sorted to one list. -/
theorem sortByKey_eq_of_filter_eq {l₁ l₂ : List α}
    (h : ∀ r, l₁.filter (rank · = r) = l₂.filter (rank · = r)) :
    l₁.sortByKey rank = l₂.sortByKey rank := by
  refine eq_of_pairwise_of_filter_eq rank (pairwise_sortByKey rank l₁) (pairwise_sortByKey rank l₂)
    fun r => ?_
  rw [filter_sortByKey, filter_sortByKey, h]

/-- The elements of a rank among those that a list of things of their rank stand for. -/
theorem filter_flatMap_of_rank {β : Type*} {kind : β → ℕ} {f : β → List α}
    (h : ∀ b, ∀ a ∈ f b, rank a = kind b) (r : ℕ) (l : List β) :
    (l.flatMap f).filter (rank · = r) = (l.filter (kind · = r)).flatMap f := by
  induction l with
  | nil => rfl
  | cons b l ih =>
    rw [flatMap_cons, filter_append, ih, filter_cons]
    by_cases hb : kind b = r
    · have hall : (f b).filter (rank · = r) = f b :=
        filter_eq_self.2 fun a ha => by simp [h b a ha, hb]
      simp [hb, hall]
    · have hnone : (f b).filter (rank · = r) = [] :=
        filter_eq_nil_iff.2 fun a ha => by simp [h b a ha, hb]
      simp [hb, hnone]

/-- Lists whose elements of each rank stand in one order have the same elements. -/
theorem perm_of_filter_eq {l₁ l₂ : List α}
    (h : ∀ r, l₁.filter (rank · = r) = l₂.filter (rank · = r)) : l₁ ~ l₂ :=
  (perm_sortByKey rank l₁).symm.trans
    (sortByKey_eq_of_filter_eq rank h ▸ perm_sortByKey rank l₂)

/-- Where an element stands after sorting: behind it come the elements of its rank that came after
it, and elements of a higher rank. -/
theorem exists_sortByKey_append (before : List α) (a : α) (after : List α) :
    ∃ pre post, (before ++ a :: after).sortByKey rank = pre ++ a :: post ∧
      ∀ b ∈ post, b ∈ after ∧ rank b = rank a ∨ b ∈ before ++ a :: after ∧ rank a < rank b := by
  have hsplit := eq_filter_append_of_pairwise rank (pairwise_sortByKey rank (before ++ a :: after))
    (rank a)
  rw [filter_sortByKey, filter_append, filter_cons_of_pos (by simp)] at hsplit
  refine ⟨((before ++ a :: after).sortByKey rank).filter (rank · < rank a) ++
      before.filter (rank · = rank a),
    after.filter (rank · = rank a) ++
      ((before ++ a :: after).sortByKey rank).filter (rank a < rank ·), ?_, fun b hb => ?_⟩
  · simpa only [append_assoc, cons_append] using hsplit
  · rcases mem_append.1 hb with hb | hb
    · left
      simpa using hb
    · right
      obtain ⟨hmem, hrank⟩ := mem_filter.1 hb
      exact ⟨(perm_sortByKey rank _).subset hmem, by simpa using hrank⟩

/-- Lists that are related element by element, in ranks also, are related after sorting. -/
theorem Forall₂.sortByKey {β : Type*} {R : α → β → Prop} {rank : α → ℕ} {rank' : β → ℕ}
    {l : List α} {l' : List β} (h : Forall₂ R l l') (hrank : ∀ a b, R a b → rank a = rank' b) :
    Forall₂ R (l.sortByKey rank) (l'.sortByKey rank') := by
  have insert : ∀ (a : α) (b : β), R a b → ∀ (l : List α) (l' : List β), Forall₂ R l l' →
      Forall₂ R (l.orderedInsert (fun a b => rank a ≤ rank b) a)
        (l'.orderedInsert (fun a b => rank' a ≤ rank' b) b) := by
    intro a b hab l l' h
    induction h with
    | nil => exact .cons hab .nil
    | cons hcd htail ih =>
      rw [orderedInsert, orderedInsert, ← hrank _ _ hab, ← hrank _ _ hcd]
      split_ifs
      · exact .cons hab (.cons hcd htail)
      · exact .cons hcd ih
  induction h with
  | nil => exact .nil
  | cons hab _ ih => exact insert _ _ hab _ _ ih

end List
