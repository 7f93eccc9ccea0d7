import Cdm.Lib.Text

/-!
# Scanning names

How far a scanner reads: a bare name ends before the first character that cannot belong to it.  And
texts between quotation marks, which are doubled within them.
-/

namespace Text

open List

/-! ### Bare names -/

section Span

variable {α : Type*} {p : α → Bool} {word rest : List α}

theorem takeWhile_exact (hword : ∀ c ∈ word, p c = true) (hrest : ∀ c ∈ rest.head?, p c = false) :
    (word ++ rest).takeWhile p = word := by
  rw [takeWhile_append_of_pos hword]
  cases rest with
  | nil => rw [takeWhile_nil, append_nil]
  | cons c cs => rw [takeWhile_cons_of_neg (by simp [hrest c rfl]), append_nil]

theorem dropWhile_exact (hword : ∀ c ∈ word, p c = true) (hrest : ∀ c ∈ rest.head?, p c = false) :
    (word ++ rest).dropWhile p = rest := by
  rw [dropWhile_append_of_pos hword]
  cases rest with
  | nil => rfl
  | cons c cs => rw [dropWhile_cons_of_neg (by simp [hrest c rfl])]

end Span

/-- A character of a plain name. -/
def isPlainChar (c : Char) : Bool := c.isLower || c.isDigit || c == '_'

/-- A name that is written without quotation marks: `[a-z][a-z0-9_]*`. -/
def isPlain : List Char → Bool
  | [] => false
  | c :: cs => c.isLower && cs.all isPlainChar

theorem isPlainChar_of_isPlain {s : List Char} (h : isPlain s = true) :
    s ≠ [] ∧ ∀ c ∈ s, isPlainChar c = true := by
  cases s with
  | nil => cases h
  | cons c cs =>
    rw [isPlain, Bool.and_eq_true, all_eq_true] at h
    refine ⟨cons_ne_nil c cs, ?_⟩
    rw [forall_mem_cons]
    exact ⟨by rw [isPlainChar, h.1, Bool.true_or, Bool.true_or], h.2⟩

theorem isWhitespace_of_isPlainChar {c : Char} (h : isPlainChar c = true) :
    isWhitespace c = false := by
  rw [isPlainChar, Bool.or_eq_true, Bool.or_eq_true, beq_iff_eq] at h
  rcases h with (h | h) | rfl
  · exact isWhitespace_of_isAlpha (by rw [isAlpha_eq, h, Bool.or_true])
  · exact isWhitespace_of_isDigit h
  · decide

/-- A plain character is the same in lower case. -/
theorem toLower_of_isPlainChar {c : Char} (h : isPlainChar c = true) : c.toLower = c := by
  have hupper : ¬(c.val ≥ 'A'.val ∧ c.val ≤ 'Z'.val) := by
    rintro ⟨hlo, hhi⟩
    have hlo : 65 ≤ c.val.toNat := UInt32.le_iff_toNat_le.1 hlo
    have hhi : c.val.toNat ≤ 90 := UInt32.le_iff_toNat_le.1 hhi
    rw [isPlainChar, Bool.or_eq_true, Bool.or_eq_true, beq_iff_eq] at h
    rcases h with (h | h) | rfl
    · delta Char.isLower at h
      simp only [Bool.and_eq_true, decide_eq_true_eq, ge_iff_le, UInt32.le_iff_toNat_le] at h
      have ha : (97 : ℕ) ≤ c.val.toNat := h.1
      omega
    · simp only [Char.isDigit, Bool.and_eq_true, decide_eq_true_eq, UInt32.le_iff_toNat_le] at h
      have hnine : c.val.toNat ≤ 57 := h.2
      omega
    · exact absurd hhi (by decide)
  exact dif_neg hupper

theorem toLower_of_isPlain {s : List Char} (h : isPlain s = true) : toLower s = s := by
  have hchars := (isPlainChar_of_isPlain h).2
  rw [toLower, map_congr_left fun c hc => toLower_of_isPlainChar (hchars c hc), map_id']

/-! ### Dotted names -/

/-- There is nothing to split where the separator is not. -/
theorem rsplitOnce_eq_none_iff {sep : Char} {s : List Char} : rsplitOnce sep s = none ↔ sep ∉ s := by
  have hdrop : s.reverse.dropWhile (· ≠ sep) = [] ↔ sep ∉ s := by
    rw [dropWhile_eq_nil_iff]
    simp only [mem_reverse, decide_eq_true_eq]
    exact ⟨fun h hmem => h sep hmem rfl, fun h c hc heq => h (heq ▸ hc)⟩
  rw [← hdrop, rsplitOnce]
  split
  · rename_i heq
    exact iff_of_true rfl heq
  · rename_i heq
    exact iff_of_false (Option.some_ne_none _) (by rw [heq]; exact cons_ne_nil _ _)

/-- A text is split at the last separator. -/
theorem rsplitOnce_append {sep : Char} {t : List Char} (h : sep ∉ t) (s : List Char) :
    rsplitOnce sep (s ++ sep :: t) = some (s, t) := by
  have hrev : (s ++ sep :: t).reverse = t.reverse ++ sep :: s.reverse := by simp
  have ht : ∀ c ∈ t.reverse, decide (c ≠ sep) = true := by
    intro c hc
    rw [mem_reverse] at hc
    rw [decide_eq_true_eq]
    rintro rfl
    exact h hc
  have hsep : ∀ c ∈ (sep :: s.reverse).head?, decide (c ≠ sep) = false := by
    rintro c ⟨⟩
    simp
  rw [rsplitOnce, hrev, dropWhile_exact ht hsep, takeWhile_exact ht hsep]
  simp

theorem endsWith_append (s : List Char) (c : Char) : endsWith c (s ++ [c]) = true := by
  simp [endsWith]

/-! ### Quoted names -/

variable {q : Char}

/-- The text with every quotation mark doubled. -/
def doubled (q : Char) (s : List Char) : List Char := s.flatMap fun c => if c = q then [q, q] else [c]

/-- The text between quotation marks. -/
def quoted (q : Char) (s : List Char) : List Char := q :: (doubled q s ++ [q])

@[simp] theorem doubled_nil : doubled q [] = [] := rfl

theorem doubled_cons_self (s : List Char) : doubled q (q :: s) = q :: q :: doubled q s := by
  simp [doubled]

theorem doubled_cons_of_ne {c : Char} (h : c ≠ q) (s : List Char) :
    doubled q (c :: s) = c :: doubled q s := by
  simp [doubled, h]

theorem doubled_append (s t : List Char) : doubled q (s ++ t) = doubled q s ++ doubled q t :=
  flatMap_append

theorem doubled_of_not_mem {s : List Char} (h : q ∉ s) : doubled q s = s := by
  induction s with
  | nil => rfl
  | cons c s ih =>
    rw [mem_cons, not_or] at h
    rw [doubled_cons_of_ne (Ne.symm h.1), ih h.2]

/-- The first quotation mark of a text, as it stands in the quoted text. -/
theorem exists_doubled_of_mem {s : List Char} (h : q ∈ s) :
    ∃ before behind, q ∉ before ∧ s = before ++ q :: behind ∧
      doubled q s = before ++ q :: q :: doubled q behind := by
  obtain ⟨before, behind, rfl, hbefore⟩ := eq_append_cons_of_mem h
  refine ⟨before, behind, hbefore, rfl, ?_⟩
  rw [doubled_append, doubled_of_not_mem hbefore, doubled_cons_self]

/-! ### Undoubling -/

/-- The text with every two quotation marks in a row made one, from the left. -/
def undoubled (q : Char) : List Char → List Char
  | [] => []
  | [c] => [c]
  | c :: d :: cs => if c = q ∧ d = q then q :: undoubled q cs else c :: undoubled q (d :: cs)

/-- Whether the quotation marks come in pairs, none of them split by the end of the text. -/
def paired (q : Char) : List Char → Bool
  | [] => true
  | [c] => c ≠ q
  | c :: d :: cs => if c = q then d = q && paired q cs else paired q (d :: cs)

theorem replace_eq_undoubled (s : List Char) : replace [q, q] [q] s = undoubled q s := by
  rw [replace]
  fun_induction undoubled q s with
  | case1 => rfl
  | case2 c =>
    have hstrip : stripPrefix [q, q] [c] = none := by
      by_cases hc : q = c <;> simp [stripPrefix, hc]
    rw [replaceFrom, hstrip]
    rfl
  | case3 c d cs h ih =>
    obtain ⟨rfl, rfl⟩ := h
    have hstrip : stripPrefix [d, d] (d :: d :: cs) = some cs := by simp [stripPrefix]
    rw [replaceFrom, hstrip]
    exact congrArg (d :: ·) ih
  | case4 c d cs h ih =>
    have hstrip : stripPrefix [q, q] (c :: d :: cs) = none := by
      by_cases hc : q = c
      · have hd : q ≠ d := fun hd => h ⟨hc.symm, hd.symm⟩
        simp [stripPrefix, hd]
      · simp [stripPrefix, hc]
    rw [replaceFrom, hstrip]
    exact congrArg (c :: ·) ih

/-- Undoubling the quotation marks undoes doubling them. -/
theorem undoubled_doubled (s : List Char) : undoubled q (doubled q s) = s := by
  induction s with
  | nil => rfl
  | cons c s ih =>
    by_cases hc : c = q
    · subst hc
      rw [doubled_cons_self, undoubled, if_pos ⟨rfl, rfl⟩, ih]
    · rw [doubled_cons_of_ne hc]
      cases hs : doubled q s with
      | nil =>
        rw [hs] at ih
        rw [← ih]
        rfl
      | cons d ds => rw [undoubled, if_neg fun h => hc h.1, ← hs, ih]

/-- The characters stay, and no others appear. -/
theorem mem_undoubled {c : Char} {s : List Char} : c ∈ undoubled q s ↔ c ∈ s := by
  fun_induction undoubled q s with
  | case1 => rfl
  | case2 => rfl
  | case3 d e cs h ih =>
    obtain ⟨rfl, rfl⟩ := h
    simp [ih]
  | case4 d e cs h ih => rw [mem_cons, ih, mem_cons (b := d)]

theorem paired_of_not_mem {s : List Char} (h : q ∉ s) : paired q s = true := by
  fun_induction paired q s with
  | case1 => rfl
  | case2 c =>
    rw [decide_eq_true_eq]
    rintro rfl
    exact h mem_cons_self
  | case3 d cs => exact absurd mem_cons_self h
  | case4 c d cs hc ih => exact ih fun hm => h (mem_cons_of_mem _ hm)

/-- The texts whose quotation marks come in pairs are those with doubled quotation marks. -/
theorem paired_iff {s : List Char} : paired q s = true ↔ ∃ t, s = doubled q t := by
  constructor
  · intro h
    fun_induction paired q s with
    | case1 => exact ⟨[], rfl⟩
    | case2 c =>
      have hc : c ≠ q := of_decide_eq_true h
      exact ⟨[c], (doubled_cons_of_ne hc []).symm⟩
    | case3 d cs ih =>
      rw [Bool.and_eq_true, decide_eq_true_eq] at h
      obtain ⟨t, rfl⟩ := ih h.2
      exact ⟨q :: t, by rw [doubled_cons_self, h.1]⟩
    | case4 c d cs hc ih =>
      obtain ⟨t, ht⟩ := ih h
      exact ⟨c :: t, by rw [doubled_cons_of_ne hc, ht]⟩
  · rintro ⟨t, rfl⟩
    induction t with
    | nil => rfl
    | cons c t ih =>
      by_cases hc : c = q
      · subst hc
        rw [doubled_cons_self, paired, if_pos rfl, decide_eq_true rfl, Bool.true_and, ih]
      · rw [doubled_cons_of_ne hc]
        cases ht : doubled q t with
        | nil => simp [paired, hc]
        | cons d ds => rw [paired, if_neg hc, ← ht, ih]

end Text
