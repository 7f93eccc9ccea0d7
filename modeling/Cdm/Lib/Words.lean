import Cdm.Lib.Text

/-!
# Words

Taking a text apart at its first separator, and into the words between white space.
-/

namespace Text

open List

/-- What stands before the first separator, and what behind it. -/
def splitOnce (separator : Char) : List Char → Option (List Char × List Char)
  | [] => none
  | c :: cs =>
    if c = separator then some ([], cs)
    else (splitOnce separator cs).map fun parts => (c :: parts.1, parts.2)

/-- `trim_matches`, with a character. -/
def trimMatches (c : Char) (s : List Char) : List Char :=
  ((s.dropWhile (· = c)).reverse.dropWhile (· = c)).reverse

/-- `trim_end_matches`, with a character. -/
def trimEndMatches (c : Char) (s : List Char) : List Char :=
  (s.reverse.dropWhile (· = c)).reverse

/-- `split_once`, at a text. -/
def splitOnceAt (pattern : List Char) : List Char → Option (List Char × List Char)
  | [] => if pattern = [] then some ([], []) else none
  | c :: cs =>
    match stripPrefix pattern (c :: cs) with
    | some rest => some ([], rest)
    | none => (splitOnceAt pattern cs).map fun parts => (c :: parts.1, parts.2)

/-- `String::truncate`, to so many bytes: it panics within a character. -/
def truncate : ℕ → List Char → Option (List Char)
  | 0, _ | _ + 1, [] => some []
  | bytes + 1, c :: cs =>
    if bytes + 1 < c.utf8Size then none
    else (truncate (bytes + 1 - c.utf8Size) cs).map fun rest => c :: rest

def withoutPlus : List Char → List Char
  | '+' :: rest => rest
  | s => s

/-- `str::parse::<u32>`: an optional plus sign and digits, within the range of the type. -/
def parseU32 (s : List Char) : Option ℕ :=
  match parseDigits (withoutPlus s) with
  | none => none
  | some n => if n < 2 ^ 32 then some n else none

def toUpper (s : List Char) : List Char := s.map Char.toUpper

/-- `split_whitespace`. -/
def words (s : List Char) : List (List Char) :=
  (s.splitOnP isWhitespace).filter fun word => !word.isEmpty

theorem splitOnce_append {separator : Char} {before : List Char} (h : separator ∉ before)
    (after : List Char) : splitOnce separator (before ++ separator :: after) = some (before, after) := by
  induction before with
  | nil => rw [nil_append, splitOnce, if_pos rfl]
  | cons c cs ih =>
    have hne : c ≠ separator := fun heq => h (heq ▸ mem_cons_self)
    rw [cons_append, splitOnce, if_neg hne, ih fun hmem => h (mem_cons_of_mem _ hmem)]
    rfl

theorem splitOnce_eq_some {separator : Char} {s before after : List Char} :
    splitOnce separator s = some (before, after) ↔
      s = before ++ separator :: after ∧ separator ∉ before := by
  refine ⟨fun h => ?_, fun ⟨heq, hnot⟩ => heq ▸ splitOnce_append hnot after⟩
  induction s generalizing before after with
  | nil => cases h
  | cons c cs ih =>
    rw [splitOnce] at h
    split_ifs at h with hc
    · cases h
      exact ⟨by rw [hc]; rfl, not_mem_nil⟩
    · obtain ⟨⟨start, rest⟩, hparts, heq⟩ := Option.map_eq_some_iff.1 h
      cases heq
      obtain ⟨rfl, hnot⟩ := ih hparts
      exact ⟨rfl, not_mem_cons_of_ne_of_not_mem (Ne.symm hc) hnot⟩

theorem splitOnce_eq_none {separator : Char} {s : List Char} :
    splitOnce separator s = none ↔ separator ∉ s := by
  induction s with
  | nil => exact iff_of_true rfl not_mem_nil
  | cons c cs ih =>
    rw [splitOnce]
    split_ifs with hc
    · exact iff_of_false nofun fun h => h (hc ▸ mem_cons_self)
    · rw [Option.map_eq_none_iff, ih, mem_cons, not_or]
      exact (and_iff_right (Ne.symm hc)).symm

/-- A text is found behind one that has not its first character. -/
theorem splitOnceAt_append {c : Char} {before : List Char} (h : c ∉ before)
    (pattern after : List Char) :
    splitOnceAt (c :: pattern) (before ++ (c :: pattern ++ after)) = some (before, after) := by
  induction before with
  | nil =>
    have hstrip := stripPrefix_append (c :: pattern) after
    rw [cons_append] at hstrip
    rw [nil_append, cons_append, splitOnceAt, hstrip]
  | cons d before ih =>
    have hne : c ≠ d := fun heq => h (heq ▸ mem_cons_self)
    rw [cons_append, splitOnceAt, stripPrefix, if_neg hne,
      ih fun hmem => h (mem_cons_of_mem _ hmem)]
    rfl

/-! ### Trimming characters -/

theorem trim_of_forall {s : List Char} (h : ∀ c ∈ s, isWhitespace c = false) : trim s = s :=
  trim_append (w := []) nofun (fun c hc => h c (mem_of_mem_head? hc))
    fun c hc => h c (mem_of_getLast? hc)

theorem dropWhile_of_not_mem {c : Char} {s : List Char} (h : c ∉ s) :
    s.dropWhile (· = c) = s := by
  cases s with
  | nil => rfl
  | cons d cs =>
    have hne : d ≠ c := fun heq => h (heq ▸ mem_cons_self)
    rw [dropWhile_cons_of_neg (by simpa using hne)]

theorem trimEndMatches_of_not_mem {c : Char} {s : List Char} (h : c ∉ s) :
    trimEndMatches c s = s := by
  rw [trimEndMatches, dropWhile_of_not_mem (mt mem_reverse.1 h), reverse_reverse]

theorem trimMatches_of_not_mem {c : Char} {s : List Char} (h : c ∉ s) : trimMatches c s = s := by
  rw [trimMatches, dropWhile_of_not_mem h, dropWhile_of_not_mem (mt mem_reverse.1 h),
    reverse_reverse]

theorem trimEndMatches_append {c : Char} {s : List Char} (h : c ∉ s) :
    trimEndMatches c (s ++ [c]) = s := by
  have hlast := trimEndMatches_of_not_mem h
  rw [trimEndMatches] at hlast ⊢
  rw [reverse_append, reverse_singleton, singleton_append,
    dropWhile_cons_of_pos (by simp), hlast]

theorem trimEndMatches_cons {c d : Char} (h : d ≠ c) (s : List Char) :
    ∃ rest, trimEndMatches c (d :: s) = d :: rest := by
  rw [trimEndMatches, reverse_cons, dropWhile_append]
  split_ifs
  · rw [dropWhile_cons_of_neg (by simpa using h)]
    exact ⟨[], rfl⟩
  · rw [reverse_append]
    exact ⟨_, rfl⟩

/-- A character is before and behind so many bytes. -/
def CutAt (bytes : ℕ) (s : List Char) : Prop :=
  ∃ before c after, s = before ++ c :: after ∧ utf8Len before < bytes ∧
    bytes < utf8Len before + c.utf8Size

theorem utf8Len_cons (c : Char) (cs : List Char) : utf8Len (c :: cs) = c.utf8Size + utf8Len cs := by
  rw [utf8Len, map_cons, sum_cons, utf8Len]

theorem truncate_eq_none {bytes : ℕ} {s : List Char} :
    truncate bytes s = none ↔ CutAt bytes s := by
  induction s generalizing bytes with
  | nil =>
    refine iff_of_false (by cases bytes <;> exact nofun) ?_
    rintro ⟨before, c, after, heq, -⟩
    simp at heq
  | cons c cs ih =>
    cases bytes with
    | zero => exact iff_of_false nofun fun ⟨_, _, _, _, hlt, _⟩ => absurd hlt (Nat.not_lt_zero _)
    | succ bytes =>
      rw [truncate]
      split_ifs with hlt
      · exact iff_of_true rfl ⟨[], c, cs, rfl, Nat.succ_pos _, by rwa [utf8Len, map_nil,
          sum_nil, Nat.zero_add]⟩
      · rw [Option.map_eq_none_iff, ih]
        constructor
        · rintro ⟨before, d, after, rfl, hbefore, hbehind⟩
          refine ⟨c :: before, d, after, rfl, ?_, ?_⟩ <;> rw [utf8Len_cons] <;> omega
        · rintro ⟨before, d, after, heq, hbefore, hbehind⟩
          cases before with
          | nil =>
            cases heq
            rw [utf8Len, map_nil, sum_nil] at hbehind
            omega
          | cons e before =>
            cases heq
            rw [utf8Len_cons] at hbefore hbehind
            exact ⟨before, d, after, rfl, by omega, by omega⟩

theorem utf8Len_append (s t : List Char) : utf8Len (s ++ t) = utf8Len s + utf8Len t := by
  rw [utf8Len, map_append, sum_append, utf8Len, utf8Len]

theorem length_le_utf8Len (s : List Char) : s.length ≤ utf8Len s := by
  induction s with
  | nil => exact le_rfl
  | cons c cs ih =>
    have hsize := c.utf8Size_pos
    rw [utf8Len_cons, length_cons]
    omega

theorem utf8Len_of_truncate {bytes : ℕ} {s first : List Char}
    (h : truncate bytes s = some first) : utf8Len first ≤ bytes := by
  induction s generalizing bytes first with
  | nil =>
    cases bytes <;> · cases h; exact Nat.zero_le _
  | cons c cs ih =>
    cases bytes with
    | zero =>
      cases h
      exact Nat.zero_le _
    | succ bytes =>
      rw [truncate] at h
      split_ifs at h with hlt
      obtain ⟨rest, hrest, rfl⟩ := Option.map_eq_some_iff.1 h
      have hle := ih hrest
      rw [utf8Len_cons]
      omega

theorem utf8Size_of_isDigit {c : Char} (h : c.isDigit = true) : c.utf8Size = 1 := by
  rw [Char.isDigit, Bool.and_eq_true, decide_eq_true_eq, decide_eq_true_eq] at h
  exact Char.utf8Size_eq_one_iff.2 (UInt32.le_trans h.2 (by decide))

theorem utf8Len_of_isDigit {s : List Char} (h : ∀ c ∈ s, c.isDigit = true) :
    utf8Len s = s.length := by
  induction s with
  | nil => rfl
  | cons c cs ih =>
    rw [forall_mem_cons] at h
    rw [utf8Len_cons, utf8Size_of_isDigit h.1, ih h.2, length_cons, Nat.add_comm]

/-- As many digits as bytes are left. -/
theorem truncate_of_isDigit {bytes : ℕ} {s : List Char} (h : ∀ c ∈ s, c.isDigit = true) :
    truncate bytes s = some (s.take bytes) := by
  induction s generalizing bytes with
  | nil => cases bytes <;> rfl
  | cons c cs ih =>
    rw [forall_mem_cons] at h
    cases bytes with
    | zero => rfl
    | succ bytes =>
      rw [truncate, utf8Size_of_isDigit h.1, if_neg (by omega), Nat.add_sub_cancel, ih h.2]
      rfl

/-- Pieces without the separator are found again. -/
theorem splitOn_intercalate {separator : Char} {pieces : List (List Char)} (hne : pieces ≠ [])
    (h : ∀ piece ∈ pieces, separator ∉ piece) :
    splitOn separator ([separator].intercalate pieces) = pieces := by
  induction pieces with
  | nil => exact absurd rfl hne
  | cons piece pieces ih =>
    rw [forall_mem_cons] at h
    cases pieces with
    | nil => rw [intercalate_singleton, splitOn_of_not_mem h.1]
    | cons next pieces =>
      rw [intercalate_cons_cons, append_assoc, singleton_append,
        splitOn_append_sep, splitOn_of_not_mem h.1, ih (cons_ne_nil _ _) h.2]
      rfl

theorem intercalate_splitOn (separator : Char) (s : List Char) :
    [separator].intercalate (splitOn separator s) = s := by
  induction s with
  | nil => rfl
  | cons c cs ih =>
    obtain ⟨piece, pieces, hpieces⟩ := exists_cons_of_ne_nil (splitOn_ne_nil separator cs)
    rw [hpieces] at ih
    rw [splitOn, hpieces]
    split_ifs with hc
    · rw [intercalate_cons_cons, ih, hc]
      rfl
    · cases pieces with
      | nil =>
        rw [intercalate_singleton] at ih ⊢
        rw [ih]
      | cons next pieces =>
        rw [intercalate_cons_cons] at ih ⊢
        rw [cons_append, cons_append, ih]

theorem not_mem_intercalate {c : Char} {separator : List Char} (hc : c ∉ separator)
    {pieces : List (List Char)} (h : ∀ piece ∈ pieces, c ∉ piece) :
    c ∉ separator.intercalate pieces := by
  induction pieces with
  | nil => exact not_mem_nil
  | cons piece pieces ih =>
    rw [forall_mem_cons] at h
    cases pieces with
    | nil =>
      rw [intercalate_singleton]
      exact h.1
    | cons next pieces =>
      rw [intercalate_cons_cons, mem_append, mem_append, not_or, not_or]
      exact ⟨⟨h.1, hc⟩, ih h.2⟩

theorem endsWith_iff {c : Char} {s : List Char} : endsWith c s = true ↔ ∃ t, s = t ++ [c] := by
  rw [endsWith, decide_eq_true_eq]
  constructor
  · intro h
    rcases eq_nil_or_concat s with rfl | ⟨t, last, rfl⟩
    · cases h
    · rw [concat_eq_append, getLast?_concat, Option.some.injEq] at h
      exact ⟨t, by rw [h, concat_eq_append]⟩
  · rintro ⟨t, rfl⟩
    exact getLast?_concat

/-- Nothing but white space. -/
def Blank (s : List Char) : Prop := ∀ c ∈ s, isWhitespace c = true

theorem blank_nil : Blank [] := fun _ hmem => absurd hmem not_mem_nil

theorem blank_cons {c : Char} {s : List Char} :
    Blank (c :: s) ↔ isWhitespace c = true ∧ Blank s := forall_mem_cons

theorem blank_append {s t : List Char} : Blank (s ++ t) ↔ Blank s ∧ Blank t := forall_mem_append

/-! ### Words -/

@[simp] theorem words_nil : words [] = [] := by simp [words]

theorem words_word {w : List Char} (hw : ∀ c ∈ w, isWhitespace c = false) (hne : w ≠ []) :
    words w = [w] := by
  rw [words, splitOnP_eq_singleton hw]
  cases w with
  | nil => exact absurd rfl hne
  | cons c cs => rfl

theorem words_append_cons {w : List Char} (hw : ∀ c ∈ w, isWhitespace c = false) {c : Char}
    (hc : isWhitespace c = true) (rest : List Char) :
    words (w ++ c :: rest) = if w = [] then words rest else w :: words rest := by
  rw [words, splitOnP_append_cons_of_forall_mem hw c hc]
  cases w with
  | nil => rfl
  | cons d ds => rfl

theorem words_cons_space {c : Char} (hc : isWhitespace c = true) (rest : List Char) :
    words (c :: rest) = words rest :=
  words_append_cons (w := []) (by simp) hc rest

/-- White space before the first word does not matter. -/
theorem words_space_append {space : List Char} (h : Blank space) (rest : List Char) :
    words (space ++ rest) = words rest := by
  induction space with
  | nil => rfl
  | cons c cs ih =>
    rw [blank_cons] at h
    rw [cons_append, words_cons_space h.1, ih h.2]

/-- A word that white space follows, or nothing. -/
theorem words_word_append {w rest : List Char} (hw : ∀ c ∈ w, isWhitespace c = false)
    (hne : w ≠ []) (hrest : ∀ c ∈ rest.head?, isWhitespace c = true) :
    words (w ++ rest) = w :: words rest := by
  cases rest with
  | nil => rw [append_nil, words_word hw hne, words_nil]
  | cons c cs =>
    have hc : isWhitespace c = true := hrest c rfl
    rw [words_append_cons hw hc, if_neg hne, words_cons_space hc]

theorem words_eq_nil {s : List Char} : words s = [] ↔ Blank s := by
  constructor
  · intro h
    induction s with
    | nil => exact blank_nil
    | cons c cs ih =>
      by_cases hc : isWhitespace c = true
      · rw [words_cons_space hc] at h
        exact blank_cons.2 ⟨hc, ih h⟩
      · exfalso
        have hsplit := takeWhile_append_dropWhile (p := fun c => !isWhitespace c) (l := c :: cs)
        have hhead := head?_dropWhile_not (fun c => !isWhitespace c) (c :: cs)
        rw [← hsplit, words_word_append] at h
        · cases h
        · intro d hd
          simpa using mem_takeWhile_imp hd
        · rw [takeWhile_cons, if_pos (by simpa using hc)]
          exact cons_ne_nil _ _
        · intro d hd
          rw [Option.mem_def.1 hd] at hhead
          simpa using hhead
  · intro h
    have hspace := words_space_append h []
    rwa [append_nil, words_nil] at hspace

/-- The first word, the white space before it and what follows it. -/
theorem exists_of_words_eq_cons {s w : List Char} {others : List (List Char)}
    (h : words s = w :: others) :
    ∃ before rest, s = before ++ (w ++ rest) ∧ Blank before ∧
      (∀ c ∈ w, isWhitespace c = false) ∧ w ≠ [] ∧
      (∀ c ∈ rest.head?, isWhitespace c = true) ∧ words rest = others := by
  induction s with
  | nil => cases h
  | cons c cs ih =>
    by_cases hc : isWhitespace c = true
    · rw [words_cons_space hc] at h
      obtain ⟨before, rest, rfl, hbefore, hrest⟩ := ih h
      exact ⟨c :: before, rest, rfl, blank_cons.2 ⟨hc, hbefore⟩, hrest⟩
    · have hsplit := takeWhile_append_dropWhile (p := fun c => !isWhitespace c) (l := c :: cs)
      have hhead := head?_dropWhile_not (fun c => !isWhitespace c) (c :: cs)
      have hword : ∀ d ∈ (c :: cs).takeWhile fun c => !isWhitespace c, isWhitespace d = false := by
        intro d hd
        simpa using mem_takeWhile_imp hd
      have hne : ((c :: cs).takeWhile fun c => !isWhitespace c) ≠ [] := by
        rw [takeWhile_cons, if_pos (by simpa using hc)]
        exact cons_ne_nil _ _
      have hrest : ∀ d ∈ ((c :: cs).dropWhile fun c => !isWhitespace c).head?,
          isWhitespace d = true := by
        intro d hd
        rw [Option.mem_def.1 hd] at hhead
        simpa using hhead
      rw [← hsplit, words_word_append hword hne hrest, List.cons.injEq] at h
      obtain ⟨rfl, rfl⟩ := h
      exact ⟨[], _, hsplit.symm, blank_nil, hword, hne, hrest, rfl⟩

end Text
