import Cdm.Feature.ParseLiteral
import Cdm.Lib.Quoted

/-!
# Splitting between brackets and quotes

What the splitter does with a text that another one follows.  A text is inert when the splitter goes
through it without splitting it, and is where it was behind it: in as many brackets, and outside of
quotes.  Quoted texts are inert, and so is what stands in brackets around inert texts.
-/

namespace Cdm

open List

namespace Literal

open Text

/-- Puts a text in front of the first piece. -/
def prepend (s : List Char) : List (List Char) → List (List Char)
  | [] => [s]
  | piece :: pieces => (s ++ piece) :: pieces

theorem push_prepend (c : Char) (s : List Char) (pieces : List (List Char)) :
    push c (prepend s pieces) = prepend (c :: s) pieces := by
  cases pieces <;> rfl

theorem prepend_append (s t : List Char) (pieces : List (List Char)) :
    prepend s (prepend t pieces) = prepend (s ++ t) pieces := by
  cases pieces with
  | nil => rfl
  | cons piece pieces =>
    show (s ++ (t ++ piece)) :: pieces = (s ++ t ++ piece) :: pieces
    rw [append_assoc]

theorem push_ne_nil (c : Char) (pieces : List (List Char)) : push c pieces ≠ [] := by
  cases pieces <;> exact cons_ne_nil _ _

theorem splitFrom_ne_nil (separator : Char) (depth : ℕ) (quoted : Bool) (text : List Char) :
    splitFrom separator depth quoted text ≠ [] := by
  cases text with
  | nil => exact cons_ne_nil _ _
  | cons c cs =>
    rw [splitFrom]
    split_ifs
    · exact push_ne_nil _ _
    · exact push_ne_nil _ _
    · exact push_ne_nil _ _
    · exact cons_ne_nil _ _
    · exact push_ne_nil _ _

theorem prepend_nil {pieces : List (List Char)} (h : pieces ≠ []) : prepend [] pieces = pieces := by
  cases pieces with
  | nil => exact absurd rfl h
  | cons piece pieces => rfl

/-- A character that is neither a quote nor a bracket. -/
def IsOrdinary (c : Char) : Prop := c ≠ singleQuote ∧ isOpening c = false ∧ isClosing c = false

/-- The quote and the brackets. -/
def specials : List Char :=
  [singleQuote, '[', '\x7b', '(', '<', ']', '\x7d', ')', '>']

theorem isOrdinary_iff {c : Char} : IsOrdinary c ↔ c ∉ specials := by
  simp only [IsOrdinary, isOpening, isClosing, specials, Bool.or_eq_false_iff, beq_eq_false_iff_ne,
    mem_cons, not_mem_nil, or_false, not_or, ne_eq, and_assoc]

/-- Neither the quote nor a bracket is in the class of characters. -/
theorem isOrdinary_of {p : Char → Bool} {c : Char} (hp : specials.all (fun c => !p c) = true)
    (h : p c = true) : IsOrdinary c := by
  refine isOrdinary_iff.2 fun hmem => ?_
  have hnot := all_eq_true.1 hp c hmem
  rw [h] at hnot
  cases hnot

theorem isOrdinary_of_isWhitespace {c : Char} (h : isWhitespace c = true) : IsOrdinary c :=
  isOrdinary_of (by decide) h

theorem splitFrom_quote (separator : Char) (depth : ℕ) (quoted : Bool) (rest : List Char) :
    splitFrom separator depth quoted (singleQuote :: rest) =
      push singleQuote (splitFrom separator depth (!quoted) rest) := by
  rw [splitFrom, if_pos rfl]

theorem splitFrom_opening {c : Char} (hquote : c ≠ singleQuote) (hc : isOpening c = true)
    (separator : Char) (depth : ℕ) (rest : List Char) :
    splitFrom separator depth false (c :: rest) =
      push c (splitFrom separator (depth + 1) false rest) := by
  rw [splitFrom, if_neg hquote, if_pos (by rw [hc]; rfl)]

theorem splitFrom_closing {c : Char} (hquote : c ≠ singleQuote) (hopening : isOpening c = false)
    (hc : isClosing c = true) (separator : Char) (depth : ℕ) (rest : List Char) :
    splitFrom separator depth false (c :: rest) =
      push c (splitFrom separator (depth - 1) false rest) := by
  rw [splitFrom, if_neg hquote, if_neg (by rw [hopening]; decide), if_pos (by rw [hc]; rfl)]

theorem splitFrom_ordinary {c : Char} (hc : IsOrdinary c) {separator : Char} {depth : ℕ}
    (h : c ≠ separator ∨ 1 ≤ depth) (rest : List Char) :
    splitFrom separator depth false (c :: rest) = push c (splitFrom separator depth false rest) := by
  have hnot : ¬(c = separator ∧ depth = 0 ∧ false = false) := by
    rintro ⟨rfl, rfl, -⟩
    rcases h with h | h
    · exact h rfl
    · omega
  rw [splitFrom, if_neg hc.1, if_neg (by rw [hc.2.1]; decide), if_neg (by rw [hc.2.2]; decide),
    if_neg hnot]

theorem splitFrom_separator {separator : Char} (h : IsOrdinary separator) (rest : List Char) :
    splitFrom separator 0 false (separator :: rest) = [] :: splitFrom separator 0 false rest := by
  rw [splitFrom, if_neg h.1, if_neg (by rw [h.2.1]; decide), if_neg (by rw [h.2.2]; decide),
    if_pos ⟨rfl, rfl, rfl⟩]

/-- Inside quotes nothing but a quote matters. -/
theorem splitFrom_quoted {c : Char} (hc : c ≠ singleQuote) (separator : Char) (depth : ℕ)
    (rest : List Char) : splitFrom separator depth true (c :: rest) =
      push c (splitFrom separator depth true rest) := by
  rw [splitFrom, if_neg hc]
  simp

/-! ### Inert texts -/

/-- The splitter goes through the text without splitting it, when it starts in at least `least`
brackets, and is in as many brackets afterwards. -/
def InertFrom (least : ℕ) (separator : Char) (text : List Char) : Prop :=
  ∀ depth, least ≤ depth → ∀ rest, splitFrom separator depth false (text ++ rest) =
    prepend text (splitFrom separator depth false rest)

section Inert

variable {least : ℕ} {separator : Char} {s t : List Char}

theorem inertFrom_nil : InertFrom least separator [] :=
  fun _ _ _ => (prepend_nil (splitFrom_ne_nil _ _ _ _)).symm

theorem InertFrom.append (hs : InertFrom least separator s) (ht : InertFrom least separator t) :
    InertFrom least separator (s ++ t) := by
  intro depth hdepth rest
  rw [append_assoc, hs depth hdepth, ht depth hdepth, prepend_append]

theorem inertFrom_ordinary {c : Char} (hc : IsOrdinary c) (h : c ≠ separator ∨ 1 ≤ least) :
    InertFrom least separator [c] := by
  intro depth hdepth rest
  rw [singleton_append, splitFrom_ordinary hc (h.imp_right hdepth.trans')]
  cases splitFrom separator depth false rest <;> rfl

theorem inertFrom_of_ordinary (hs : ∀ c ∈ s, IsOrdinary c)
    (h : separator ∉ s ∨ 1 ≤ least) : InertFrom least separator s := by
  induction s with
  | nil => exact inertFrom_nil
  | cons c s ih =>
    rw [forall_mem_cons] at hs
    have hchar : InertFrom least separator [c] :=
      inertFrom_ordinary hs.1 (h.imp_left fun hmem heq => hmem (heq ▸ mem_cons_self))
    exact hchar.append (ih hs.2 (h.imp_left fun hmem hs => hmem (mem_cons_of_mem _ hs)))

theorem splitFrom_doubled (separator : Char) (depth : ℕ) (s rest : List Char) :
    splitFrom separator depth true (doubled singleQuote s ++ rest) =
      prepend (doubled singleQuote s) (splitFrom separator depth true rest) := by
  induction s with
  | nil => exact (prepend_nil (splitFrom_ne_nil _ _ _ _)).symm
  | cons c s ih =>
    by_cases hc : c = singleQuote
    · subst hc
      rw [doubled_cons_self, cons_append, cons_append, splitFrom_quote, Bool.not_true,
        splitFrom_quote, Bool.not_false, ih, push_prepend, push_prepend]
    · rw [doubled_cons_of_ne hc, cons_append, splitFrom_quoted hc, ih, push_prepend]

/-- A quoted text is inert. -/
theorem inertFrom_quoted (s : List Char) :
    InertFrom least separator (quoted singleQuote s) := by
  intro depth _ rest
  rw [quoted, cons_append, splitFrom_quote, Bool.not_false, append_assoc,
    splitFrom_doubled, singleton_append, splitFrom_quote, Bool.not_true, ← singleton_append,
    push_prepend]
  cases splitFrom separator depth false rest with
  | nil => rfl
  | cons piece pieces => simp [prepend, push]

/-- A text in brackets is inert when what stands between them is, inside a bracket. -/
theorem inertFrom_bracketed {opening closing : Char} (hopening : isOpening opening = true)
    (hopeningQuote : opening ≠ singleQuote) (hclosing : isClosing closing = true)
    (hclosingQuote : closing ≠ singleQuote) (hclosingOpening : isOpening closing = false)
    (hs : InertFrom 1 separator s) :
    InertFrom least separator (opening :: (s ++ [closing])) := by
  intro depth _ rest
  rw [cons_append, append_assoc, splitFrom_opening hopeningQuote hopening,
    hs (depth + 1) (by omega), singleton_append,
    splitFrom_closing hclosingQuote hclosingOpening hclosing, Nat.add_sub_cancel, push_prepend]
  cases splitFrom separator depth false rest with
  | nil => rfl
  | cons piece pieces => simp [prepend, push]

theorem inertFrom_intercalate {c : Char} (hc : IsOrdinary c) {pieces : List (List Char)}
    (h : ∀ piece ∈ pieces, InertFrom 1 separator piece) :
    InertFrom 1 separator ([c].intercalate pieces) := by
  induction pieces with
  | nil => exact inertFrom_nil
  | cons piece pieces ih =>
    rw [forall_mem_cons] at h
    cases pieces with
    | nil =>
      rw [intercalate_singleton]
      exact h.1
    | cons next pieces =>
      rw [intercalate_cons_cons]
      exact (h.1.append (inertFrom_ordinary hc (.inr le_rfl))).append (ih h.2)

/-- White space around an inert text does not matter. -/
theorem InertFrom.of_trim (h : InertFrom least separator (trim s))
    (hseparator : isWhitespace separator = false) : InertFrom least separator s := by
  have hspace (w : List Char) (hw : ∀ c ∈ w, isWhitespace c = true) :
      InertFrom least separator w :=
    inertFrom_of_ordinary (fun c hc => isOrdinary_of_isWhitespace (hw c hc))
      (.inl fun hmem => Bool.false_ne_true (hseparator.symm.trans (hw _ hmem)))
  obtain ⟨before, after, heq, hbefore, hafter⟩ := exists_trim_padding s
  rw [heq]
  exact (hspace before hbefore).append (h.append (hspace after hafter))

end Inert

/-! ### Texts with separators between them -/

/-- Inert texts with separators between them are split apart. -/
theorem splitFrom_intercalate {separator : Char} (hseparator : IsOrdinary separator)
    {pieces : List (List Char)} (hne : pieces ≠ [])
    (h : ∀ piece ∈ pieces, InertFrom 0 separator piece) :
    splitFrom separator 0 false ([separator].intercalate pieces) = pieces := by
  induction pieces with
  | nil => exact absurd rfl hne
  | cons piece pieces ih =>
    rw [forall_mem_cons] at h
    cases pieces with
    | nil =>
      have hsplit := h.1 0 le_rfl []
      rw [append_nil] at hsplit
      rw [intercalate_singleton, hsplit]
      exact congrArg (fun piece => [piece]) (append_nil piece)
    | cons next pieces =>
      rw [intercalate_cons_cons, append_assoc, h.1 0 le_rfl, singleton_append,
        splitFrom_separator hseparator, ih (cons_ne_nil _ _) h.2]
      exact congrArg (· :: next :: pieces) (append_nil piece)

theorem intercalate_push (separator c : Char) {pieces : List (List Char)} (h : pieces ≠ []) :
    [separator].intercalate (push c pieces) = c :: [separator].intercalate pieces := by
  cases pieces with
  | nil => exact absurd rfl h
  | cons piece pieces =>
    cases pieces with
    | nil => rw [push, intercalate_singleton, intercalate_singleton]
    | cons next pieces => rw [push, intercalate_cons_cons, intercalate_cons_cons]; rfl

/-- The pieces and the separators between them are the text. -/
theorem intercalate_splitFrom (separator : Char) (depth : ℕ) (quoted : Bool) (text : List Char) :
    [separator].intercalate (splitFrom separator depth quoted text) = text := by
  induction text generalizing depth quoted with
  | nil => rfl
  | cons c cs ih =>
    rw [splitFrom]
    split_ifs with hquote hopening hclosing hseparator
    · rw [intercalate_push _ _ (splitFrom_ne_nil _ _ _ _), ih]
    · rw [intercalate_push _ _ (splitFrom_ne_nil _ _ _ _), ih]
    · rw [intercalate_push _ _ (splitFrom_ne_nil _ _ _ _), ih]
    · obtain ⟨rfl, -, -⟩ := hseparator
      obtain ⟨piece, pieces, hpieces⟩ :=
        exists_cons_of_ne_nil (splitFrom_ne_nil c depth quoted cs)
      rw [hpieces, intercalate_cons_cons, ← hpieces, ih]
      rfl
    · rw [intercalate_push _ _ (splitFrom_ne_nil _ _ _ _), ih]

/-- A piece without quotes and brackets has no separator in it. -/
theorem not_mem_of_mem_splitFrom {separator : Char} {text : List Char} {piece : List Char}
    (h : piece ∈ splitFrom separator 0 false text) (hpiece : ∀ c ∈ piece, IsOrdinary c) :
    separator ∉ piece := by
  -- of the first piece this holds where the splitter starts outside of brackets and quotes
  suffices hall : ∀ depth quoted first others,
      splitFrom separator depth quoted text = first :: others →
      ((∀ c ∈ first, IsOrdinary c) → depth = 0 → quoted = false → separator ∉ first) ∧
      ∀ piece ∈ others, (∀ c ∈ piece, IsOrdinary c) → separator ∉ piece by
    obtain ⟨first, others, heq⟩ := exists_cons_of_ne_nil (splitFrom_ne_nil separator 0 false text)
    rw [heq] at h
    rcases mem_cons.1 h with rfl | hmem
    · exact (hall 0 false _ _ heq).1 hpiece rfl rfl
    · exact (hall 0 false _ _ heq).2 piece hmem hpiece
  clear h hpiece piece
  induction text with
  | nil =>
    rintro depth quoted first others ⟨⟩
    exact ⟨fun _ _ _ => not_mem_nil, fun _ hmem => absurd hmem not_mem_nil⟩
  | cons c cs ih =>
    intro depth quoted first others heq
    -- what is pushed onto a piece is the character, and the other pieces stay
    have hpush (depth' : ℕ) (quoted' : Bool)
        (heq : push c (splitFrom separator depth' quoted' cs) = first :: others)
        (hc : IsOrdinary c → depth = 0 → quoted = false →
          depth' = 0 ∧ quoted' = false ∧ separator ≠ c) :
        ((∀ c ∈ first, IsOrdinary c) → depth = 0 → quoted = false → separator ∉ first) ∧
        ∀ piece ∈ others, (∀ c ∈ piece, IsOrdinary c) → separator ∉ piece := by
      obtain ⟨head, tail, hsplit⟩ :=
        exists_cons_of_ne_nil (splitFrom_ne_nil separator depth' quoted' cs)
      rw [hsplit, push, List.cons.injEq] at heq
      obtain ⟨rfl, rfl⟩ := heq
      refine ⟨fun hfirst hdepth hquoted => ?_, (ih depth' quoted' head tail hsplit).2⟩
      rw [forall_mem_cons] at hfirst
      obtain ⟨hdepth', hquoted', hne⟩ := hc hfirst.1 hdepth hquoted
      exact not_mem_cons_of_ne_of_not_mem hne
        ((ih _ _ head tail hsplit).1 hfirst.2 hdepth' hquoted')
    rw [splitFrom] at heq
    split_ifs at heq with hquote hopening hclosing hseparator
    · exact hpush _ _ heq fun hc => absurd hquote hc.1
    · refine hpush _ _ heq fun hc => ?_
      rw [hc.2.1] at hopening
      cases hopening
    · refine hpush _ _ heq fun hc => ?_
      rw [hc.2.2] at hclosing
      cases hclosing
    · obtain ⟨-, rfl, rfl⟩ := hseparator
      rw [List.cons.injEq] at heq
      obtain ⟨rfl, rfl⟩ := heq
      refine ⟨fun _ _ _ => not_mem_nil, ?_⟩
      obtain ⟨head, tail, hsplit⟩ :=
        exists_cons_of_ne_nil (splitFrom_ne_nil separator 0 false cs)
      rw [hsplit, forall_mem_cons]
      exact ⟨fun hhead => (ih _ _ head tail hsplit).1 hhead rfl rfl, (ih _ _ head tail hsplit).2⟩
    · refine hpush _ _ heq fun _ hdepth hquoted => ⟨hdepth, hquoted, ?_⟩
      rintro rfl
      exact hseparator ⟨rfl, hdepth, hquoted⟩

/-! ### Trimmed pieces -/

/-- The text consists of the pieces, with white space around them and separators in between. -/
def Joined (separator : Char) (pieces : List (List Char)) (text : List Char) : Prop :=
  ∃ padded : List (List Char), padded.map trim = pieces ∧ text = [separator].intercalate padded

theorem splitTopLevel_ne_nil (text : List Char) (separator : Char) :
    splitTopLevel text separator ≠ [] :=
  fun h => splitFrom_ne_nil _ _ _ _ (map_eq_nil_iff.1 h)

theorem joined_splitTopLevel (text : List Char) (separator : Char) :
    Joined separator (splitTopLevel text separator) text :=
  ⟨_, rfl, (intercalate_splitFrom separator 0 false text).symm⟩

/-- Inert pieces are found again. -/
theorem splitTopLevel_of_joined {separator : Char} (hseparator : IsOrdinary separator)
    (hspace : isWhitespace separator = false) {pieces : List (List Char)} {text : List Char}
    (h : Joined separator pieces text) (hne : pieces ≠ [])
    (hpieces : ∀ piece ∈ pieces, InertFrom 0 separator piece) :
    splitTopLevel text separator = pieces := by
  obtain ⟨padded, rfl, rfl⟩ := h
  rw [forall_mem_map] at hpieces
  rw [splitTopLevel, splitFrom_intercalate hseparator (fun h => hne (map_eq_nil_iff.2 h))
    fun piece hpiece => (hpieces piece hpiece).of_trim hspace]

/-- A blank text is one empty piece. -/
theorem splitTopLevel_blank {separator : Char} (hseparator : IsOrdinary separator)
    (hspace : isWhitespace separator = false) {text : List Char} (h : trim text = []) :
    splitTopLevel text separator = [[]] := by
  refine splitTopLevel_of_joined hseparator hspace ⟨[text], by rw [map_singleton, h], ?_⟩
    (cons_ne_nil _ _) (by simpa using inertFrom_nil)
  rw [intercalate_singleton]

theorem not_mem_of_mem_splitTopLevel {separator : Char} {text piece : List Char}
    (h : piece ∈ splitTopLevel text separator) (hpiece : ∀ c ∈ piece, IsOrdinary c) :
    separator ∉ piece := by
  obtain ⟨padded, hpadded, rfl⟩ := mem_map.1 h
  obtain ⟨before, after, heq, hbefore, hafter⟩ := exists_trim_padding padded
  have hordinary : ∀ c ∈ padded, IsOrdinary c := by
    intro c hc
    rw [heq, mem_append, mem_append] at hc
    rcases hc with hc | hc | hc
    · exact isOrdinary_of_isWhitespace (hbefore c hc)
    · exact hpiece c hc
    · exact isOrdinary_of_isWhitespace (hafter c hc)
  have hnot := not_mem_of_mem_splitFrom hpadded hordinary
  rw [heq, mem_append, mem_append, not_or, not_or] at hnot
  exact hnot.2.1

end Literal

end Cdm
