import Mathlib.Algebra.GroupWithZero.Nat
import Cdm.Lib.Quoted

/-!
# The tokens of CQL

A scanner of CQL text, one character at a time.  Its state between two characters is a `Mode`: what
has been read of the token that is under way.  A text that ends where a token may end can be put in
front of another one, as long as no token runs on across the border (`Cql.lex_append`), so what a
generated statement is scanned to is put together from its pieces.

Comments and strings in dollar signs are rejected.
-/

namespace Cql

open Text
open List

/-- A token: a bare word, which is a keyword, a name or a number, a quoted name, a string, a bind
marker, or any other character. -/
inductive Token
  | word (text : List Char)
  | name (text : List Char)
  | string (text : List Char)
  | marker
  | symbol (c : Char)
  deriving DecidableEq, Repr

/-- What has been read of a token. -/
inductive Mode
  | idle
  | word (text : List Char)
  /-- Inside quotation marks of the given kind. -/
  | quoted (quote : Char) (text : List Char)
  /-- Behind a quotation mark that may turn out to be doubled. -/
  | closing (quote : Char) (text : List Char)
  /-- Behind a character that may turn out to start a comment. -/
  | held (c : Char)
  | failed
  deriving DecidableEq, Repr

/-- A character of a bare word. -/
def isWordChar (c : Char) : Bool := c.isAlphanum || c == '_'

/-- The token of a quoted text. -/
def quotedToken (quote : Char) (text : List Char) : Token :=
  if quote = doubleQuote then .name text else .string text

namespace Mode

/-- The first character of a token. -/
def opening (c : Char) : List Token × Mode :=
  if c = ' ' ∨ c = '\t' ∨ c = '\n' ∨ c = '\r' then ([], idle)
  else if isWordChar c then ([], word [c])
  else if c = doubleQuote ∨ c = singleQuote then ([], quoted c [])
  else if c = '?' then ([.marker], idle)
  else if c = '-' ∨ c = '/' then ([], held c)
  else if c = '$' then ([], failed)
  else ([.symbol c], idle)

/-- A token that ends, and the first character of the next. -/
def ending (token : Token) (c : Char) : List Token × Mode :=
  (token :: (opening c).1, (opening c).2)

/-- One character. -/
def step : Mode → Char → List Token × Mode
  | idle, c => opening c
  | word text, c => if isWordChar c then ([], word (text ++ [c])) else ending (.word text) c
  | quoted quote text, c =>
    if c = quote then ([], closing quote text) else ([], quoted quote (text ++ [c]))
  | closing quote text, c =>
    if c = quote then ([], quoted quote (text ++ [quote])) else ending (quotedToken quote text) c
  | held h, c => if c = h ∨ h = '/' ∧ c = '*' then ([], failed) else ending (.symbol h) c
  | failed, _ => ([], failed)

/-- The token under way where the text ends. -/
def finish : Mode → Option (List Token)
  | idle => some []
  | word text => some [.word text]
  | closing quote text => some [quotedToken quote text]
  | held c => some [.symbol c]
  | quoted _ _ | failed => none

end Mode

/-- The tokens of a text behind what has been read of the first one. -/
def scan : Mode → List Char → Option (List Token)
  | mode, [] => mode.finish
  | mode, c :: cs => (scan (mode.step c).2 cs).map ((mode.step c).1 ++ ·)

/-- The tokens of a text. -/
def lex (text : List Char) : Option (List Token) := scan .idle text

/-! ### Texts in a row -/

/-- No token runs on into the text: it does not start with a character of a word, a quotation mark,
or a character of a comment. -/
def Separates (rest : List Char) : Prop :=
  ∀ c ∈ rest.head?, isWordChar c = false ∧ c ∉ [doubleQuote, singleQuote, '-', '/', '*']

theorem separates_cons {c : Char} (h : isWordChar c = false ∧
    c ∉ [doubleQuote, singleQuote, '-', '/', '*']) (cs : List Char) :
    Separates (c :: cs) := by
  rintro d ⟨⟩
  exact h

/-- The quotation marks under way are quotation marks, and what may start a comment is a minus or a
slash. -/
def Mode.Sound : Mode → Prop
  | quoted quote _ | closing quote _ => quote = doubleQuote ∨ quote = singleQuote
  | held c => c = '-' ∨ c = '/'
  | _ => True

theorem Mode.sound_opening (c : Char) : (opening c).2.Sound := by
  rw [opening]
  split_ifs with hspace hword hquote hmarker hheld hdollar
  · exact True.intro
  · exact True.intro
  · exact hquote
  · exact True.intro
  · exact hheld
  · exact True.intro
  · exact True.intro

theorem Mode.Sound.step {mode : Mode} (h : mode.Sound) (c : Char) : (mode.step c).2.Sound := by
  cases mode with
  | idle => exact sound_opening c
  | word text =>
    rw [Mode.step]
    split_ifs
    · exact True.intro
    · exact sound_opening c
  | quoted quote text =>
    rw [Mode.step]
    split_ifs
    · exact h
    · exact h
  | closing quote text =>
    rw [Mode.step]
    split_ifs
    · exact h
    · exact sound_opening c
  | held d =>
    rw [Mode.step]
    split_ifs
    · exact True.intro
    · exact sound_opening c
  | failed => exact True.intro

/-- The token under way ends where the text that follows separates. -/
theorem step_of_separates {mode : Mode} (hsound : mode.Sound) {ts : List Token}
    (hfinish : mode.finish = some ts) {c : Char} {cs : List Char} (h : Separates (c :: cs)) :
    mode.step c = (ts ++ (Mode.opening c).1, (Mode.opening c).2) := by
  obtain ⟨hword, hnot⟩ := h c rfl
  simp only [mem_cons, not_mem_nil, or_false, not_or] at hnot
  obtain ⟨hdouble, hsingle, hminus, hslash, hstar⟩ := hnot
  cases mode with
  | idle =>
    cases hfinish
    rfl
  | word text =>
    cases hfinish
    rw [Mode.step, hword]
    rfl
  | quoted quote text => cases hfinish
  | closing quote text =>
    cases hfinish
    have hne : c ≠ quote := by
      rcases hsound with rfl | rfl
      · exact hdouble
      · exact hsingle
    rw [Mode.step, if_neg hne]
    rfl
  | held d =>
    cases hfinish
    have hne : c ≠ d := by
      rcases hsound with rfl | rfl
      · exact hminus
      · exact hslash
    rw [Mode.step, if_neg (by simp [hne, hstar])]
    rfl
  | failed => cases hfinish

theorem scan_append {s rest : List Char} (hrest : Separates rest) {mode : Mode}
    (hsound : mode.Sound) {ts : List Token} (h : scan mode s = some ts) :
    scan mode (s ++ rest) = (lex rest).map (ts ++ ·) := by
  induction s generalizing mode ts with
  | nil =>
    cases rest with
    | nil =>
      show mode.finish = some (ts ++ [])
      rw [append_nil]
      exact h
    | cons c cs =>
      show (scan (mode.step c).2 cs).map ((mode.step c).1 ++ ·) = _
      rw [step_of_separates hsound h hrest, lex, scan, Option.map_map]
      simp only [Mode.step, Function.comp_def, append_assoc]
  | cons c s ih =>
    obtain ⟨us, hus, rfl⟩ := Option.map_eq_some_iff.1 h
    show (scan (mode.step c).2 (s ++ rest)).map ((mode.step c).1 ++ ·) = _
    rw [ih (hsound.step c) hus, Option.map_map]
    simp only [Function.comp_def, append_assoc]

/-- The tokens of a text in front of another one, if no token runs on across the border. -/
theorem lex_append {s rest : List Char} {ts : List Token} (h : lex s = some ts)
    (hrest : Separates rest) : lex (s ++ rest) = (lex rest).map (ts ++ ·) := by
  have hsound : Mode.idle.Sound := True.intro
  exact scan_append hrest hsound h

/-- Both texts have their tokens. -/
theorem lex_append_eq {s rest : List Char} {ts us : List Token} (h : lex s = some ts)
    (hrest : Separates rest) (hus : lex rest = some us) : lex (s ++ rest) = some (ts ++ us) := by
  rw [lex_append h hrest, hus]
  rfl

theorem lex_space (rest : List Char) : lex (' ' :: rest) = lex rest := by
  show (lex rest).map ([] ++ ·) = _
  simp

/-- A character that is a token by itself. -/
theorem lex_symbol {c : Char} (h : Mode.opening c = ([.symbol c], .idle)) (rest : List Char) :
    lex (c :: rest) = (lex rest).map (.symbol c :: ·) := by
  show (scan (Mode.opening c).2 rest).map ((Mode.opening c).1 ++ ·) = _
  rw [h]
  rfl

/-! ### Names -/

theorem scan_word {text rest : List Char} (h : ∀ c ∈ rest, isWordChar c = true) :
    scan (.word text) rest = some [.word (text ++ rest)] := by
  induction rest generalizing text with
  | nil => simp [scan, Mode.finish]
  | cons c rest ih =>
    rw [forall_mem_cons] at h
    rw [scan, Mode.step, if_pos h.1, ih h.2]
    simp

/-- A word is a token. -/
theorem lex_word {text : List Char} (hne : text ≠ []) (h : ∀ c ∈ text, isWordChar c = true) :
    lex text = some [.word text] := by
  obtain ⟨c, cs, rfl⟩ := exists_cons_of_ne_nil hne
  rw [forall_mem_cons] at h
  have hspace : ¬(c = ' ' ∨ c = '\t' ∨ c = '\n' ∨ c = '\r') := by
    rintro (rfl | rfl | rfl | rfl)
    · exact absurd h.1 (by decide)
    · exact absurd h.1 (by decide)
    · exact absurd h.1 (by decide)
    · exact absurd h.1 (by decide)
  have hopening : Mode.opening c = ([], .word [c]) := by
    rw [Mode.opening, if_neg hspace, if_pos h.1]
  show (scan (Mode.opening c).2 cs).map ((Mode.opening c).1 ++ ·) = _
  rw [hopening, scan_word h.2]
  rfl

theorem scan_doubled {quote : Char} (s text rest : List Char) :
    scan (.quoted quote text) (doubled quote s ++ rest) =
      scan (.quoted quote (text ++ s)) rest := by
  induction s generalizing text with
  | nil => rw [doubled_nil, nil_append, append_nil]
  | cons c s ih =>
    by_cases hc : c = quote
    · subst hc
      have hstep : scan (.quoted c text) (c :: c :: (doubled c s ++ rest)) =
          scan (.quoted c (text ++ [c])) (doubled c s ++ rest) := by
        simp [scan, Mode.step]
      rw [doubled_cons_self, cons_append, cons_append, hstep, ih]
      simp
    · have hstep : scan (.quoted quote text) (c :: (doubled quote s ++ rest)) =
          scan (.quoted quote (text ++ [c])) (doubled quote s ++ rest) := by
        simp [scan, Mode.step, hc]
      rw [doubled_cons_of_ne hc, cons_append, hstep, ih]
      simp

/-- A quoted text is a token. -/
theorem lex_quoted {quote : Char} (h : quote = doubleQuote ∨ quote = singleQuote)
    (s : List Char) : lex (quoted quote s) = some [quotedToken quote s] := by
  have hopening : Mode.opening quote = ([], .quoted quote []) := by
    rcases h with rfl | rfl
    · decide
    · decide
  show (scan (Mode.opening quote).2 (doubled quote s ++ [quote])).map
    ((Mode.opening quote).1 ++ ·) = _
  rw [hopening, scan_doubled]
  simp [scan, Mode.step, Mode.finish]

/-- A keyword in front of a space. -/
theorem lex_keyword {text : List Char} (hne : text ≠ []) (h : text.all isWordChar = true)
    (rest : List Char) : lex (text ++ ' ' :: rest) = (lex rest).map (.word text :: ·) := by
  have hword := lex_word hne (all_eq_true.1 h)
  rw [lex_append hword (separates_cons (by decide) rest), lex_space]
  rfl

/-- A keyword that is set off by spaces. -/
theorem lex_clause {text rest : List Char} {ts : List Token} (hne : text ≠ [])
    (h : text.all isWordChar = true) (hrest : lex rest = some ts) :
    lex (' ' :: (text ++ ' ' :: rest)) = some (.word text :: ts) := by
  rw [lex_space, lex_keyword hne h, hrest]
  rfl

/-! ### Keywords, as they are written -/

def insertWord : List Char := ['I', 'N', 'S', 'E', 'R', 'T']

def intoWord : List Char := ['I', 'N', 'T', 'O']

def valuesWord : List Char := ['V', 'A', 'L', 'U', 'E', 'S']

def updateWord : List Char := ['U', 'P', 'D', 'A', 'T', 'E']

def setWord : List Char := ['S', 'E', 'T']

def whereWord : List Char := ['W', 'H', 'E', 'R', 'E']

def selectWord : List Char := ['S', 'E', 'L', 'E', 'C', 'T']

def fromWord : List Char := ['F', 'R', 'O', 'M']

def usingWord : List Char := ['U', 'S', 'I', 'N', 'G']

def andWord : List Char := ['A', 'N', 'D']

def ttlWord : List Char := ['T', 'T', 'L']

def timestampWord : List Char := ['T', 'I', 'M', 'E', 'S', 'T', 'A', 'M', 'P']

/-! ### Lists -/

/-- Texts that are joined by a separator, each of which has its tokens. -/
theorem lex_intercalate {α : Type} {sep : List Char} {token : Token}
    (hsep : ∀ rest, Separates (sep ++ rest) ∧ lex (sep ++ rest) = (lex rest).map (token :: ·))
    {xs : List α} {text : α → List Char} {toks : α → List Token}
    (h : ∀ x ∈ xs, lex (text x) = some (toks x)) :
    lex (sep.intercalate (xs.map text)) = some ([token].intercalate (xs.map toks)) := by
  induction xs with
  | nil => rfl
  | cons x xs ih =>
    rw [forall_mem_cons] at h
    cases xs with
    | nil =>
      rw [map_singleton, map_singleton, intercalate_singleton,
        intercalate_singleton]
      exact h.1
    | cons y ys =>
      rw [map_cons, map_cons, map_cons, map_cons, intercalate_cons_cons,
        intercalate_cons_cons, append_assoc]
      obtain ⟨hseparates, hlex⟩ := hsep (sep.intercalate (text y :: ys.map text))
      have hrest := ih h.2
      rw [map_cons, map_cons] at hrest
      rw [lex_append h.1 hseparates, hlex, hrest]
      simp

theorem separates_comma (rest : List Char) :
    Separates ([','] ++ rest) ∧ lex ([','] ++ rest) = (lex rest).map (.symbol ',' :: ·) :=
  ⟨separates_cons (by decide) rest, lex_symbol (by decide) rest⟩

theorem separates_and (rest : List Char) :
    Separates ([' ', 'A', 'N', 'D', ' '] ++ rest) ∧
      lex ([' ', 'A', 'N', 'D', ' '] ++ rest) = (lex rest).map (.word andWord :: ·) := by
  refine ⟨separates_cons (by decide) _, ?_⟩
  show lex (' ' :: (andWord ++ ' ' :: rest)) = _
  rw [lex_space, lex_keyword (by decide) (by decide)]

end Cql
