import Mathlib.Data.Bool.AllAny
import Mathlib.Data.List.DropRight
import Cdm.Config.Loader
import Cdm.Lib.Utf16

/-!
# Java properties, written and read back

`java.util.Properties` writes every entry as `key=value`.  It escapes the blanks of a key and the
first blank of a value, the separators, the characters that start a comment, backslashes and control
characters, and writes what is not ASCII as one or two units of UTF-16.  A line may be broken at any
place that is not within an escape and not in front of a blank, and comments and blank lines may
stand between entries.

The reader decodes no escape within a key, reads each unit by itself, and trims the blanks at the
end of a value before it decodes the value.
-/

namespace Cdm

open List

namespace Properties

/-! ### Writing -/

/-- A hexadecimal digit. -/
def hexDigit (n : ℕ) : Char := if n < 10 then Char.ofNat (48 + n) else Char.ofNat (55 + n)

/-- Four hexadecimal digits. -/
def hex4 (n : ℕ) : List Char :=
  [hexDigit (n / 4096 % 16), hexDigit (n / 256 % 16), hexDigit (n / 16 % 16), hexDigit (n % 16)]

def unicodeEscape (unit : UInt16) : List Char := '\\' :: 'u' :: hex4 unit.toNat

/-- The letter of the escape of a control character, or the character that is escaped. -/
def escapeLetter (c : Char) : Option Char :=
  if c = '\t' then some 't'
  else if c = '\n' then some 'n'
  else if c = '\r' then some 'r'
  else if c = Char.ofNat 12 then some 'f'
  else if c = ' ' ∨ c = '\\' ∨ c = '=' ∨ c = ':' ∨ c = '#' ∨ c = '!' then some c
  else none

/-- A printable ASCII character. -/
def IsPrintable (c : Char) : Prop := 0x20 ≤ c.toNat ∧ c.toNat < 0x7f

instance (c : Char) : Decidable (IsPrintable c) := inferInstanceAs (Decidable (_ ∧ _))

def escapeChar (c : Char) : List Char :=
  match escapeLetter c with
  | some letter => ['\\', letter]
  | none => if IsPrintable c then [c] else (Utf16.encodeChar c).flatMap unicodeEscape

def escapeKey (key : List Char) : List Char := key.flatMap escapeChar

/-- Only the first blank of a value is escaped. -/
def escapeRest (value : List Char) : List Char :=
  value.flatMap fun c => if c = ' ' then [' '] else escapeChar c

def escapeValue : List Char → List Char
  | [] => []
  | c :: rest => escapeChar c ++ escapeRest rest

/-- An entry on one line. -/
def storeEntry (pair : List Char × List Char) : List Char :=
  escapeKey pair.1 ++ '=' :: escapeValue pair.2

/-! ### Layouts -/

/-- A blank of the format. -/
def IsBlank (c : Char) : Prop := c = ' ' ∨ c = '\t' ∨ c = Char.ofNat 12

instance (c : Char) : Decidable (IsBlank c) := inferInstanceAs (Decidable (_ ∨ _))

/-- How many backslashes a line ends in. -/
def trailing (line : List Char) : ℕ := (line.reverse.takeWhile (· = '\\')).length

/-- A line, broken into any number of lines.  It is not broken within an escape, and the blanks at
the start of the lines are not part of it. -/
inductive Wrapped : List Char → List (List Char) → Prop
  | last {blanks fragment : List Char} (hblanks : ∀ c ∈ blanks, IsBlank c)
      (hstart : fragment.head? ≠ some ' ') : Wrapped fragment [blanks ++ fragment]
  | broken {blanks fragment rest : List Char} {lines : List (List Char)}
      (hblanks : ∀ c ∈ blanks, IsBlank c) (hstart : fragment.head? ≠ some ' ')
      (heven : trailing fragment % 2 = 0) (hrest : Wrapped rest lines) :
      Wrapped (fragment ++ rest) ((blanks ++ fragment ++ ['\\']) :: lines)

/-- A blank line, or a comment. -/
def IsIgnored (line : List Char) : Prop :=
  '\n' ∉ line ∧ '\r' ∉ line ∧ ∃ blanks rest, line = blanks ++ rest ∧ (∀ c ∈ blanks, IsBlank c) ∧
    (rest = [] ∨ rest.head? = some '#' ∨ rest.head? = some '!')

/-- The lines of a file with these entries. -/
inductive Layout : List (List Char × List Char) → List (List Char) → Prop
  | nil : Layout [] []
  | ignored {pairs : List (List Char × List Char)} {line : List Char} {lines : List (List Char)}
      (hline : IsIgnored line) (hlines : Layout pairs lines) : Layout pairs (line :: lines)
  | entry {pair : List Char × List Char} {pairs : List (List Char × List Char)}
      {wrapped lines : List (List Char)} (hwrapped : Wrapped (storeEntry pair) wrapped)
      (hlines : Layout pairs lines) : Layout (pair :: pairs) (wrapped ++ lines)

/-! ### What comes back -/

/-- A character of a key: the letter of its escape, or the units of it with a `u` before each. -/
def readBackKeyChar (c : Char) : List Char :=
  match escapeLetter c with
  | some letter => [letter]
  | none =>
    if IsPrintable c then [c] else (Utf16.encodeChar c).flatMap fun unit => 'u' :: hex4 unit.toNat

def readBackKey (key : List Char) : List Char := key.flatMap readBackKeyChar

/-- A character of a value: itself, or the escapes of its surrogates. -/
def readBackChar (c : Char) : List Char :=
  if c.toNat < 0x10000 then [c] else (Utf16.encodeChar c).flatMap unicodeEscape

/-- A text without the blanks at its end. -/
def dropBlanks (text : List Char) : List Char := text.rdropWhile (· = ' ')

/-- A value without the blanks at its end, or the backslash of its escaped blank. -/
def readBackValue (value : List Char) : List Char :=
  if dropBlanks value = [] ∧ value ≠ [] then ['\\']
  else (dropBlanks value).flatMap readBackChar

/-- What an entry comes back as. -/
def readBack (pair : List Char × List Char) : List Char × List Char :=
  (readBackKey pair.1, readBackValue pair.2)

/-! ### Hexadecimal digits -/

theorem hexDigit_spec : ∀ n : Fin 16, hexDigit n ≠ '\\' ∧ hexDigit n ≠ '=' ∧ hexDigit n ≠ ':' ∧
    hexDigit n ≠ '+' ∧ hexDigit n ≠ ' ' ∧ IsPrintable (hexDigit n) ∧
    ((hexDigit n).isDigit || ('a' ≤ (hexDigit n).toLower && (hexDigit n).toLower ≤ 'f')) = true ∧
    (if (hexDigit n).isDigit then (hexDigit n).toNat - 48 else (hexDigit n).toLower.toNat - 87) =
      n.val := by
  decide

theorem mem_hex4 {c : Char} {n : ℕ} (h : c ∈ hex4 n) : ∃ m : Fin 16, c = hexDigit m := by
  simp only [hex4, mem_cons, not_mem_nil, or_false] at h
  rcases h with rfl | rfl | rfl | rfl
  all_goals exact ⟨⟨_, Nat.mod_lt _ (by omega)⟩, rfl⟩

theorem decodeHex_hexDigit (a b c d : Fin 16) :
    decodeHex [hexDigit a, hexDigit b, hexDigit c, hexDigit d] =
      if (4096 * a.val + 256 * b.val + 16 * c.val + d.val).isValidChar then
        some (Char.ofNat (4096 * a.val + 256 * b.val + 16 * c.val + d.val)) else none := by
  obtain ⟨-, -, -, hsign, -, -, ha, hvala⟩ := hexDigit_spec a
  obtain ⟨-, -, -, -, -, -, hb, hvalb⟩ := hexDigit_spec b
  obtain ⟨-, -, -, -, -, -, hc, hvalc⟩ := hexDigit_spec c
  obtain ⟨-, -, -, -, -, -, hd, hvald⟩ := hexDigit_spec d
  have hcode : 16 * (16 * (16 * (16 * 0 + a.val) + b.val) + c.val) + d.val =
      4096 * a.val + 256 * b.val + 16 * c.val + d.val := by omega
  unfold decodeHex
  split
  · rename_i digits hdigits
    exact absurd (List.cons.inj hdigits).1 hsign
  · simp only [all_cons, all_nil, ha, hb, hc, hd, Bool.and_self, foldl_cons,
      foldl_nil, hvala, hvalb, hvalc, hvald, hcode]
    rw [if_pos ⟨cons_ne_nil _ _, trivial⟩]

/-- Four digits are read as the number that was written, when it is that of a character. -/
theorem decodeHex_hex4 {n : ℕ} (h : n < 0x10000) :
    decodeHex (hex4 n) = if n.isValidChar then some (Char.ofNat n) else none := by
  have hdigit : ∀ k, k % 16 < 16 := fun k => Nat.mod_lt _ (by omega)
  have hread := decodeHex_hexDigit ⟨n / 4096 % 16, hdigit _⟩ ⟨n / 256 % 16, hdigit _⟩
    ⟨n / 16 % 16, hdigit _⟩ ⟨n % 16, hdigit _⟩
  have hsum : 4096 * (n / 4096 % 16) + 256 * (n / 256 % 16) + 16 * (n / 16 % 16) + n % 16 = n := by
    omega
  dsimp only at hread
  rw [hsum] at hread
  exact hread

/-! ### Escapes -/

theorem isWhitespace_of_isPrintable {c : Char} (h : IsPrintable c) (hblank : c ≠ ' ') :
    Text.isWhitespace c = false := by
  have hne : c.toNat ≠ 0x20 := fun e => hblank (Char.toNat_inj.mp e)
  obtain ⟨hlo, hhi⟩ := h
  simp only [Text.isWhitespace, Bool.or_eq_false_iff, Bool.and_eq_false_iff,
    decide_eq_false_iff_not, beq_eq_false_iff_ne]
  omega

/-- A character is written as itself, as an escape with a letter, or as its units. -/
theorem escapeChar_cases (c : Char) :
    (escapeChar c = [c] ∧ readBackKeyChar c = [c] ∧ IsPrintable c ∧
      c ≠ ' ' ∧ c ≠ '\\' ∧ c ≠ '=' ∧ c ≠ ':' ∧ c ≠ '#' ∧ c ≠ '!') ∨
    (∃ letter, escapeChar c = ['\\', letter] ∧ readBackKeyChar c = [letter] ∧
      IsPrintable letter ∧ (IsPrintable c → letter = c) ∧ (c ≠ ' ' → letter ≠ ' ') ∧
      c.toNat < 0x10000 ∧
      ∀ rest, unescapeFrom 0 ('\\' :: letter :: rest) = c :: unescapeFrom 0 rest) ∨
    (¬ IsPrintable c ∧ escapeChar c = (Utf16.encodeChar c).flatMap unicodeEscape ∧
      readBackKeyChar c =
        (Utf16.encodeChar c).flatMap fun unit => 'u' :: hex4 unit.toNat) := by
  unfold escapeChar readBackKeyChar
  cases hletter : escapeLetter c with
  | some letter =>
    right; left
    refine ⟨letter, rfl, rfl, ?_⟩
    unfold escapeLetter at hletter
    split_ifs at hletter with h₁ h₂ h₃ h₄ h₅
    · subst h₁; cases hletter
      exact ⟨by decide, by decide, by decide, by decide, fun rest => rfl⟩
    · subst h₂; cases hletter
      exact ⟨by decide, by decide, by decide, by decide, fun rest => rfl⟩
    · subst h₃; cases hletter
      exact ⟨by decide, by decide, by decide, by decide, fun rest => rfl⟩
    · subst h₄; cases hletter
      exact ⟨by decide, by decide, by decide, by decide, fun rest => rfl⟩
    · cases hletter
      rcases h₅ with rfl | rfl | rfl | rfl | rfl | rfl
      all_goals exact ⟨by decide, by decide, by decide, by decide, fun rest => rfl⟩
  | none =>
    by_cases hprint : IsPrintable c
    · left
      simp only [if_pos hprint, true_and]
      refine ⟨hprint, ?_, ?_, ?_, ?_, ?_, ?_⟩
      all_goals
        rintro rfl
        exact absurd hletter (by decide)
    · right; right
      simp only [if_neg hprint, and_true]
      exact hprint

theorem mem_unicodeEscape {c : Char} {unit : UInt16} (h : c ∈ unicodeEscape unit) :
    IsPrintable c ∧ c ≠ ' ' := by
  rcases mem_cons.mp h with rfl | h
  · decide
  rcases mem_cons.mp h with rfl | h
  · decide
  obtain ⟨m, rfl⟩ := mem_hex4 h
  exact ⟨(hexDigit_spec m).2.2.2.2.2.1, (hexDigit_spec m).2.2.2.2.1⟩

theorem mem_escapeChar {c d : Char} (h : d ∈ escapeChar c) :
    IsPrintable d ∧ (c ≠ ' ' → d ≠ ' ') := by
  rcases escapeChar_cases c with ⟨hesc, -, hprint, -⟩ |
    ⟨letter, hesc, -, hprint, -, hblank, -⟩ | ⟨-, hesc, -⟩
  · rw [hesc, mem_singleton] at h
    subst h
    exact ⟨hprint, id⟩
  · rw [hesc, mem_cons, mem_singleton] at h
    rcases h with rfl | rfl
    · exact ⟨by decide, fun _ => by decide⟩
    · exact ⟨hprint, hblank⟩
  · rw [hesc, mem_flatMap] at h
    obtain ⟨unit, -, hd⟩ := h
    have hmem := mem_unicodeEscape hd
    exact ⟨hmem.1, fun _ => hmem.2⟩

/-- What is written for a character starts with none of the characters that mean something. -/
theorem head_escapeChar (c : Char) : ∃ d rest, escapeChar c = d :: rest ∧ IsPrintable d ∧
    d ≠ ' ' ∧ d ≠ '=' ∧ d ≠ ':' ∧ d ≠ '#' ∧ d ≠ '!' := by
  rcases escapeChar_cases c with ⟨hesc, -, hprint, hblank, -, hplain⟩ | ⟨letter, hesc, -⟩ |
    ⟨-, hesc, -⟩
  · exact ⟨c, [], hesc, hprint, hblank, hplain⟩
  · exact ⟨'\\', _, hesc, by decide⟩
  · unfold Utf16.encodeChar at hesc
    split_ifs at hesc
    · exact ⟨'\\', _, hesc, by decide⟩
    · exact ⟨'\\', _, hesc, by decide⟩

/-! ### Reading a key -/

theorem readKey_append_plain {front : List Char}
    (h : ∀ c ∈ front, c ≠ '\\' ∧ c ≠ '=' ∧ c ≠ ':' ∧ Text.isWhitespace c = false)
    (rest : List Char) :
    readKey (front ++ rest) = (front ++ (readKey rest).1, (readKey rest).2) := by
  induction front with
  | nil => rfl
  | cons c front ih =>
    obtain ⟨hslash, heq, hcolon, hspace⟩ := h c mem_cons_self
    have htail := ih fun d hd => h d (mem_cons_of_mem _ hd)
    rw [cons_append, readKey.eq_4 c _ (fun e _ => hslash e) (fun _ _ e _ => hslash e),
      if_neg (by tauto), if_neg (by simp [hspace]), htail]
    rfl

theorem readKey_unicode (units : List UInt16) (rest : List Char) :
    readKey (units.flatMap unicodeEscape ++ rest) =
      ((units.flatMap fun unit => 'u' :: hex4 unit.toNat) ++ (readKey rest).1,
        (readKey rest).2) := by
  induction units with
  | nil => rfl
  | cons unit units ih =>
    have hdigits : ∀ c ∈ hex4 unit.toNat,
        c ≠ '\\' ∧ c ≠ '=' ∧ c ≠ ':' ∧ Text.isWhitespace c = false := by
      intro c hc
      obtain ⟨m, rfl⟩ := mem_hex4 hc
      obtain ⟨hslash, heq, hcolon, -, hblank, hprint, -⟩ := hexDigit_spec m
      exact ⟨hslash, heq, hcolon, isWhitespace_of_isPrintable hprint hblank⟩
    rw [flatMap_cons, append_assoc, unicodeEscape, cons_append, cons_append,
      readKey.eq_3, readKey_append_plain hdigits, ih, flatMap_cons]
    simp only [cons_append, append_assoc]

theorem readKey_escapeChar (c : Char) (rest : List Char) :
    readKey (escapeChar c ++ rest) =
      (readBackKeyChar c ++ (readKey rest).1, (readKey rest).2) := by
  rcases escapeChar_cases c with ⟨hesc, hback, hprint, hblank, hslash, heq, hcolon, -⟩ |
    ⟨letter, hesc, hback, -⟩ | ⟨-, hesc, hback⟩
  · rw [hesc, hback]
    refine readKey_append_plain (fun d hd => ?_) rest
    rw [mem_singleton] at hd
    subst hd
    exact ⟨hslash, heq, hcolon, isWhitespace_of_isPrintable hprint hblank⟩
  · rw [hesc, hback]
    rfl
  · rw [hesc, hback]
    exact readKey_unicode _ rest

/-- The key of an entry ends at the separator that was written after it. -/
theorem readKey_escapeKey (key value : List Char) :
    readKey (escapeKey key ++ '=' :: value) = (readBackKey key, some value) := by
  induction key with
  | nil => rfl
  | cons c key ih =>
    rw [escapeKey, flatMap_cons, append_assoc, readKey_escapeChar, ← escapeKey, ih]
    rfl

theorem readBackKeyChar_ne_nil (c : Char) : readBackKeyChar c ≠ [] := by
  rcases escapeChar_cases c with ⟨-, hback, -⟩ | ⟨letter, -, hback, -⟩ | ⟨-, -, hback⟩
  · rw [hback]; exact cons_ne_nil _ _
  · rw [hback]; exact cons_ne_nil _ _
  · rw [hback, Utf16.encodeChar]
    split_ifs
    · exact cons_ne_nil _ _
    · exact cons_ne_nil _ _

/-! ### Reading a value -/

theorem unescapeFrom_append (front rest : List Char) :
    unescapeFrom front.length (front ++ rest) = unescapeFrom 0 rest := by
  induction front with
  | nil => rfl
  | cons c front ih => rw [length_cons, cons_append, unescapeFrom, ih]

/-- A unit is decoded when it is a character, and kept as it is otherwise. -/
theorem unescapeFrom_unicodeEscape (unit : UInt16) (rest : List Char) :
    unescapeFrom 0 (unicodeEscape unit ++ rest) =
      (if unit.toNat.isValidChar then [Char.ofNat unit.toNat] else unicodeEscape unit) ++
        unescapeFrom 0 rest := by
  have htake : (hex4 unit.toNat ++ rest).take 4 = hex4 unit.toNat := rfl
  have hpass : unescapeFrom 5 ('u' :: (hex4 unit.toNat ++ rest)) = unescapeFrom 0 rest :=
    unescapeFrom_append ('u' :: hex4 unit.toNat) rest
  have hhex := decodeHex_hex4 unit.toNat_lt
  rw [unicodeEscape, cons_append, cons_append, unescapeFrom]
  simp only [ne_eq, not_true_eq_false, if_false, htake, hpass]
  split_ifs at hhex ⊢ with hvalid
  · rw [hhex]
    rfl
  · rw [hhex]
    simp only [cons_append]

theorem unescapeFrom_of_ne {c : Char} (h : c ≠ '\\') (rest : List Char) :
    unescapeFrom 0 (c :: rest) = c :: unescapeFrom 0 rest := by
  rw [unescapeFrom.eq_def]
  simp only [ne_eq, h, not_false_eq_true, if_true]

theorem unescapeFrom_escapeChar (c : Char) (rest : List Char) :
    unescapeFrom 0 (escapeChar c ++ rest) = readBackChar c ++ unescapeFrom 0 rest := by
  rcases escapeChar_cases c with ⟨hesc, -, ⟨-, hascii⟩, -, hslash, -⟩ |
    ⟨letter, hesc, -, -, -, -, hbasic, hread⟩ | ⟨-, hesc, -⟩
  · have hbasic : c.toNat < 0x10000 := by omega
    rw [hesc, readBackChar, if_pos hbasic, singleton_append, unescapeFrom_of_ne hslash,
      singleton_append]
  · rw [hesc, readBackChar, if_pos hbasic]
    exact hread rest
  · have hvalid : c.toNat.isValidChar := c.valid
    have hc := Utf16.toNat_char c
    rw [hesc, readBackChar]
    unfold Utf16.encodeChar
    split_ifs with hbasic
    · have hunit := UInt16.toNat_ofNat_of_lt' hbasic
      rw [flatMap_cons, flatMap_nil, append_nil, unescapeFrom_unicodeEscape, hunit,
        if_pos hvalid, Char.ofNat_toNat]
    · have hhi := UInt16.toNat_ofNat_of_lt' (n := 0xd800 + (c.toNat - 0x10000) / 0x400)
        (by rw [UInt16.size]; omega)
      have hlo := UInt16.toNat_ofNat_of_lt' (n := 0xdc00 + (c.toNat - 0x10000) % 0x400)
        (by rw [UInt16.size]; omega)
      have hhigh : ¬ (0xd800 + (c.toNat - 0x10000) / 0x400).isValidChar := by
        rintro (h | h) <;> omega
      have hlow : ¬ (0xdc00 + (c.toNat - 0x10000) % 0x400).isValidChar := by
        rintro (h | h) <;> omega
      rw [flatMap_cons, flatMap_cons, flatMap_nil, append_nil,
        append_assoc, unescapeFrom_unicodeEscape, hhi, if_neg hhigh,
        unescapeFrom_unicodeEscape, hlo, if_neg hlow, append_assoc]

theorem unescapeFrom_escapeRest (value : List Char) :
    unescapeFrom 0 (escapeRest value) = value.flatMap readBackChar := by
  induction value with
  | nil => rfl
  | cons c value ih =>
    rw [escapeRest, flatMap_cons, flatMap_cons, ← escapeRest, ← ih]
    split_ifs with hblank
    · subst hblank
      rfl
    · exact unescapeFrom_escapeChar c _

theorem unescape_escapeValue (value : List Char) :
    unescape (escapeValue value) = value.flatMap readBackChar := by
  cases value with
  | nil => rfl
  | cons c value =>
    rw [unescape, escapeValue, unescapeFrom_escapeChar, unescapeFrom_escapeRest, flatMap_cons]

theorem escapeValue_append_blanks {value blanks : List Char} (hvalue : value ≠ [])
    (hblanks : ∀ c ∈ blanks, c = ' ') :
    escapeValue (value ++ blanks) = escapeValue value ++ blanks := by
  have hrest : escapeRest blanks = blanks := by
    induction blanks with
    | nil => rfl
    | cons c blanks ih =>
      rw [escapeRest, flatMap_cons, if_pos (hblanks c mem_cons_self), ← escapeRest,
        ih fun d hd => hblanks d (mem_cons_of_mem _ hd), hblanks c mem_cons_self]
      rfl
  cases value with
  | nil => exact absurd rfl hvalue
  | cons c value =>
    rw [cons_append, escapeValue, escapeValue, escapeRest, flatMap_append, ← escapeRest,
      ← escapeRest, hrest, append_assoc]

/-- What is written for a value that ends in no blank ends in none. -/
theorem last_escapeValue {value : List Char} (h : value.getLast? ≠ some ' ') :
    ∀ d ∈ (escapeValue value).getLast?, Text.isWhitespace d = false := by
  rcases eq_nil_or_concat value with rfl | ⟨init, c, rfl⟩
  · intro d hd
    cases hd
  rw [concat_eq_append] at h ⊢
  have hc : c ≠ ' ' := by
    rintro rfl
    exact h getLast?_concat
  have hfront : ∃ front, escapeValue (init ++ [c]) = front ++ escapeChar c := by
    cases init with
    | nil => exact ⟨[], by simp [escapeValue, escapeRest]⟩
    | cons b init =>
      exact ⟨escapeChar b ++ escapeRest init, by simp [escapeValue, escapeRest, hc]⟩
  obtain ⟨front, hfront⟩ := hfront
  obtain ⟨e, rest, hesc, -⟩ := head_escapeChar c
  intro d hd
  rw [hfront, getLast?_append_of_ne_nil _ (by rw [hesc]; exact cons_ne_nil _ _)] at hd
  have hmem := mem_escapeChar (mem_of_getLast? hd)
  exact isWhitespace_of_isPrintable hmem.1 (hmem.2 hc)

theorem trimEnd_append {text blanks : List Char} (hblanks : ∀ c ∈ blanks, c = ' ')
    (hlast : ∀ d ∈ text.getLast?, Text.isWhitespace d = false) :
    Text.trimEnd (text ++ blanks) = text := by
  have hspace : ∀ c ∈ blanks.reverse, Text.isWhitespace c = true := by
    intro c hc
    rw [hblanks c (mem_reverse.mp hc)]
    rfl
  rw [Text.trimEnd, reverse_append, dropWhile_append_of_pos hspace,
    Text.dropWhile_isWhitespace_of_head (by rwa [head?_reverse]), reverse_reverse]

theorem exists_dropBlanks_append (text : List Char) :
    ∃ blanks, dropBlanks text ++ blanks = text ∧ ∀ c ∈ blanks, c = ' ' := by
  refine ⟨text.rtakeWhile fun c => decide (c = ' '), rdropWhile_append_rtakeWhile,
    fun c hc => ?_⟩
  exact of_decide_eq_true (mem_rtakeWhile_imp (p := fun c => decide (c = ' ')) hc)

theorem getLast?_dropBlanks (text : List Char) : (dropBlanks text).getLast? ≠ some ' ' := by
  intro hend
  have hne : dropBlanks text ≠ [] := by
    intro e
    rw [e] at hend
    cases hend
  have hnot := rdropWhile_last_not (fun c => decide (c = ' ')) text hne
  rw [getLast?_eq_some_getLast hne] at hend
  exact hnot (decide_eq_true (Option.some.inj hend))

theorem read_escapeValue (value : List Char) :
    unescape (Text.trimEnd (escapeValue value)) = readBackValue value := by
  obtain ⟨blanks, hsplit, hblanks⟩ := exists_dropBlanks_append value
  have hlast := getLast?_dropBlanks value
  rw [readBackValue]
  generalize dropBlanks value = kept at hsplit hlast ⊢
  by_cases hnil : kept = []
  · subst hnil
    rw [nil_append] at hsplit
    subst hsplit
    cases blanks with
    | nil => rfl
    | cons c blanks =>
      have hrest := fun d hd => hblanks d (mem_cons_of_mem _ hd)
      have hvalue := escapeValue_append_blanks (cons_ne_nil c []) hrest
      rw [singleton_append] at hvalue
      rw [if_pos ⟨rfl, cons_ne_nil _ _⟩, hvalue, hblanks c mem_cons_self]
      have hone : escapeValue [' '] = ['\\'] ++ [' '] := rfl
      rw [hone, append_assoc, trimEnd_append]
      · rfl
      · intro d hd
        rcases mem_cons.mp hd with rfl | hd
        · rfl
        · exact hrest d hd
      · intro d hd
        cases hd
        rfl
  · rw [if_neg fun h => hnil h.1, ← hsplit, escapeValue_append_blanks hnil hblanks,
      trimEnd_append hblanks (last_escapeValue hlast), unescape_escapeValue]

/-- An entry on one line is read as what comes back of it. -/
theorem splitEntry_storeEntry {pair : List Char × List Char} (hkey : pair.1 ≠ []) (line : ℕ) :
    splitEntry (storeEntry pair) line =
      some ⟨String.ofList (readBackKey pair.1), String.ofList (readBackValue pair.2), line⟩ := by
  have hback : readBackKey pair.1 ≠ [] := by
    obtain ⟨c, key, hcons⟩ := exists_cons_of_ne_nil hkey
    rw [hcons, readBackKey, flatMap_cons]
    exact append_ne_nil_of_left_ne_nil (readBackKeyChar_ne_nil c) _
  have hstart : Text.trimStart (escapeValue pair.2) = escapeValue pair.2 ∧
      ∀ after, escapeValue pair.2 ≠ '=' :: after ∧ escapeValue pair.2 ≠ ':' :: after := by
    cases hvalue : pair.2 with
    | nil => exact ⟨rfl, fun after => ⟨cons_ne_nil _ _ |>.symm, cons_ne_nil _ _ |>.symm⟩⟩
    | cons c value =>
      obtain ⟨d, rest, hesc, hprint, hplain⟩ := head_escapeChar c
      rw [escapeValue, hesc, cons_append]
      refine ⟨Text.dropWhile_isWhitespace_of_head fun e he => ?_, fun after => ⟨?_, ?_⟩⟩
      · cases he
        exact isWhitespace_of_isPrintable hprint hplain.1
      · exact fun e => hplain.2.1 (List.cons.inj e).1
      · exact fun e => hplain.2.2.1 (List.cons.inj e).1
  obtain ⟨htrim, hsep⟩ := hstart
  unfold splitEntry storeEntry
  simp only [readKey_escapeKey, if_neg hback, Option.getD_some, htrim]
  split
  · rename_i after heq
    exact absurd heq (hsep after).1
  · rename_i after heq
    exact absurd heq (hsep after).2
  · rw [read_escapeValue]

/-! ### Reading the lines -/

theorem mem_storeEntry {pair : List Char × List Char} {c : Char} (h : c ∈ storeEntry pair) :
    IsPrintable c := by
  rcases mem_append.mp h with hkey | hvalue
  · obtain ⟨d, -, hd⟩ := mem_flatMap.mp hkey
    exact (mem_escapeChar hd).1
  rcases mem_cons.mp hvalue with rfl | hvalue
  · decide
  cases hp : pair.2 with
  | nil =>
    rw [hp] at hvalue
    cases hvalue
  | cons d value =>
    rw [hp, escapeValue] at hvalue
    rcases mem_append.mp hvalue with hd | hrest
    · exact (mem_escapeChar hd).1
    obtain ⟨e, -, he⟩ := mem_flatMap.mp hrest
    split_ifs at he
    · rw [mem_singleton.mp he]
      decide
    · exact (mem_escapeChar he).1

theorem trailing_concat (line : List Char) : trailing (line ++ ['\\']) = trailing line + 1 := by
  simp [trailing]

theorem trailing_append {a : List Char} (ha : trailing a % 2 = 0) (b : List Char) :
    trailing (a ++ b) % 2 = trailing b % 2 := by
  rw [trailing, reverse_append, takeWhile_append]
  split_ifs with hall
  · rw [length_append, trailing, hall]
    rw [trailing] at ha
    omega
  · rfl

theorem trailing_escapeChar (c : Char) : trailing (escapeChar c) % 2 = 0 := by
  have hunit : ∀ unit, trailing (unicodeEscape unit) % 2 = 0 := by
    intro unit
    have hlast : hexDigit (unit.toNat % 16) ≠ '\\' :=
      (hexDigit_spec ⟨unit.toNat % 16, Nat.mod_lt _ (by omega)⟩).1
    simp [trailing, unicodeEscape, hex4, hlast]
  have hletters : ∀ letter, trailing ['\\', letter] % 2 = 0 := by
    intro letter
    by_cases h : letter = '\\'
    · rw [h]
      decide
    · simp [trailing, h]
  rcases escapeChar_cases c with ⟨hesc, -, -, -, hslash, -⟩ | ⟨letter, hesc, -⟩ | ⟨-, hesc, -⟩
  · simp [hesc, trailing, hslash]
  · rw [hesc]
    exact hletters letter
  · rw [hesc]
    generalize Utf16.encodeChar c = units
    induction units with
    | nil => rfl
    | cons unit units ih => rw [flatMap_cons, trailing_append (hunit unit), ih]

theorem trailing_storeEntry (pair : List Char × List Char) :
    trailing (storeEntry pair) % 2 = 0 := by
  have hkey : trailing (escapeKey pair.1) % 2 = 0 := by
    generalize pair.1 = key
    induction key with
    | nil => rfl
    | cons c key ih =>
      rw [escapeKey, flatMap_cons, trailing_append (trailing_escapeChar c), ← escapeKey, ih]
  have hrest : ∀ value, trailing (escapeRest value) % 2 = 0 := by
    intro value
    induction value with
    | nil => rfl
    | cons c value ih =>
      rw [escapeRest, flatMap_cons, ← escapeRest]
      split_ifs
      · rw [trailing_append (by decide), ih]
      · rw [trailing_append (trailing_escapeChar c), ih]
  have hvalue : trailing (escapeValue pair.2) % 2 = 0 := by
    cases pair.2 with
    | nil => rfl
    | cons c value => rw [escapeValue, trailing_append (trailing_escapeChar c), hrest]
  rw [storeEntry, trailing_append hkey, ← singleton_append, trailing_append (by decide),
    hvalue]

theorem isWhitespace_of_isBlank {c : Char} (h : IsBlank c) : Text.isWhitespace c = true := by
  rcases h with rfl | rfl | rfl
  all_goals rfl

theorem trimStart_append {blanks text : List Char} (hblanks : ∀ c ∈ blanks, IsBlank c)
    (hhead : ∀ c ∈ text.head?, Text.isWhitespace c = false) :
    Text.trimStart (blanks ++ text) = text := by
  rw [Text.trimStart,
    dropWhile_append_of_pos fun c hc => isWhitespace_of_isBlank (hblanks c hc),
    Text.dropWhile_isWhitespace_of_head hhead]

/-- The lines of an entry are joined to the entry: no break is within an escape, so that each line
but the last ends in an odd number of backslashes. -/
theorem parseLines_wrapped {text : List Char} {lines : List (List Char)}
    (h : Wrapped text lines) (hprint : ∀ c ∈ text, IsPrintable c) (heven : trailing text % 2 = 0)
    (logical : List Char)
    (hfirst : logical = [] → text ≠ [] ∧ text.head? ≠ some '#' ∧ text.head? ≠ some '!')
    (index start : ℕ) (rest : List (List Char)) :
    ∃ index' start', parseLines index logical start (lines ++ rest) =
      (splitEntry (logical ++ text) start').toList ++ parseLines index' [] start' rest := by
  induction h generalizing logical index start with
  | @last blanks fragment hblanks hstart =>
    have htrim : Text.trimStart (blanks ++ fragment) = fragment := by
      refine trimStart_append hblanks fun c hc => ?_
      refine isWhitespace_of_isPrintable (hprint c (mem_of_head? hc)) ?_
      rintro rfl
      exact hstart hc
    have hentry : ¬ (logical = [] ∧
        (fragment = [] ∨ fragment.head? = some '#' ∨ fragment.head? = some '!')) := by
      rintro ⟨hlogical, hignored⟩
      obtain ⟨hne, hhash, hbang⟩ := hfirst hlogical
      tauto
    have hend : continued fragment = none := by
      rw [continued, if_neg]
      rw [trailing] at heven
      omega
    refine ⟨index + 1, if logical = [] then index + 1 else start, ?_⟩
    rw [singleton_append, parseLines]
    simp only [htrim, if_neg hentry, hend]
  | @broken blanks fragment text lines hblanks hstart hfragment hrest ih =>
    have htrim : Text.trimStart (blanks ++ fragment ++ ['\\']) = fragment ++ ['\\'] := by
      rw [append_assoc]
      refine trimStart_append hblanks fun c hc => ?_
      cases fragment with
      | nil =>
        cases hc
        rfl
      | cons d fragment =>
        cases hc
        refine isWhitespace_of_isPrintable (hprint c mem_cons_self) ?_
        rintro rfl
        exact hstart rfl
    have hentry : ¬ (logical = [] ∧ (fragment ++ ['\\'] = [] ∨
        (fragment ++ ['\\']).head? = some '#' ∨ (fragment ++ ['\\']).head? = some '!')) := by
      rintro ⟨hlogical, hignored⟩
      obtain ⟨-, hhash, hbang⟩ := hfirst hlogical
      cases fragment with
      | nil => exact absurd hignored (by decide)
      | cons d fragment =>
        rcases hignored with hnil | hhead | hhead
        · cases hnil
        · exact hhash hhead
        · exact hbang hhead
    have hodd : continued (fragment ++ ['\\']) = some fragment := by
      have hcount := trailing_concat fragment
      rw [trailing] at hcount
      rw [continued, if_pos (by omega), dropLast_concat]
    have hnext : logical ++ fragment = [] →
        text ≠ [] ∧ text.head? ≠ some '#' ∧ text.head? ≠ some '!' := by
      intro hnil
      obtain ⟨rfl, rfl⟩ := append_eq_nil_iff.mp hnil
      exact hfirst rfl
    obtain ⟨index', start', hparse⟩ := ih (fun c hc => hprint c (mem_append_right _ hc))
      (by rw [← trailing_append hfragment, heven]) (logical ++ fragment) hnext (index + 1)
      (if logical = [] then index + 1 else start)
    refine ⟨index', start', ?_⟩
    rw [cons_append, parseLines]
    simp only [htrim, if_neg hentry, hodd]
    rw [hparse, append_assoc]

/-- The lines of a file are read as its entries, and blank lines and comments as none. -/
theorem parseLines_layout {pairs : List (List Char × List Char)} {lines : List (List Char)}
    (h : Layout pairs lines) (hkeys : ∀ pair ∈ pairs, pair.1 ≠ []) (index start : ℕ) :
    (parseLines index [] start lines).map (fun entry => (entry.key.toList, entry.value.toList)) =
      pairs.map readBack := by
  induction h generalizing index start with
  | nil => rfl
  | @ignored pairs line lines hline hlines ih =>
    obtain ⟨-, -, blanks, rest, rfl, hblanks, hrest⟩ := hline
    have htrim : Text.trimStart (blanks ++ rest) = rest := by
      refine trimStart_append hblanks fun c hc => ?_
      rcases hrest with rfl | hhead | hhead
      · cases hc
      · rw [hhead] at hc
        cases hc
        rfl
      · rw [hhead] at hc
        cases hc
        rfl
    rw [parseLines]
    simp only [htrim, true_and, if_pos hrest]
    exact ih hkeys _ _
  | @entry pair pairs wrapped lines hwrapped hlines ih =>
    have hfirst : storeEntry pair ≠ [] ∧ (storeEntry pair).head? ≠ some '#' ∧
        (storeEntry pair).head? ≠ some '!' := by
      obtain ⟨c, key, hkey⟩ := exists_cons_of_ne_nil (hkeys pair mem_cons_self)
      obtain ⟨d, rest, hesc, -, -, -, -, hhash, hbang⟩ := head_escapeChar c
      rw [storeEntry, hkey, escapeKey, flatMap_cons, hesc]
      exact ⟨cons_ne_nil _ _, fun e => hhash (Option.some.inj e),
        fun e => hbang (Option.some.inj e)⟩
    obtain ⟨index', start', hparse⟩ := parseLines_wrapped hwrapped (fun c => mem_storeEntry)
      (trailing_storeEntry pair) [] (fun _ => hfirst) index start lines
    rw [hparse, nil_append, splitEntry_storeEntry (hkeys pair mem_cons_self),
      Option.toList_some, singleton_append, map_cons, map_cons,
      ih fun p hp => hkeys p (mem_cons_of_mem _ hp)]
    simp only [String.toList_ofList, readBack]

/-! ### The text -/

/-- No line of a file holds the end of a line. -/
theorem Wrapped.mem {text : List Char} {lines : List (List Char)} (h : Wrapped text lines)
    (hprint : ∀ c ∈ text, IsPrintable c) : ∀ line ∈ lines, '\n' ∉ line ∧ '\r' ∉ line := by
  have hclean : ∀ {blanks fragment : List Char}, (∀ c ∈ blanks, IsBlank c) →
      (∀ c ∈ fragment, IsPrintable c) →
      '\n' ∉ blanks ++ fragment ∧ '\r' ∉ blanks ++ fragment := by
    intro blanks fragment hblanks hfragment
    refine ⟨fun hmem => ?_, fun hmem => ?_⟩
    all_goals
      rcases mem_append.mp hmem with hmem | hmem
      · exact absurd (hblanks _ hmem) (by decide)
      · exact absurd (hfragment _ hmem) (by decide)
  induction h with
  | @last blanks fragment hblanks hstart =>
    intro line hline
    rw [mem_singleton.mp hline]
    exact hclean hblanks hprint
  | @broken blanks fragment text lines hblanks hstart hfragment hrest ih =>
    intro line hline
    rcases mem_cons.mp hline with rfl | hline
    · rw [append_assoc]
      refine hclean hblanks fun c hc => ?_
      rcases mem_append.mp hc with hc | hc
      · exact hprint c (mem_append_left _ hc)
      · rw [mem_singleton.mp hc]
        decide
    · exact ih (fun c hc => hprint c (mem_append_right _ hc)) line hline

theorem Layout.mem {pairs : List (List Char × List Char)} {lines : List (List Char)}
    (h : Layout pairs lines) : ∀ line ∈ lines, '\n' ∉ line ∧ '\r' ∉ line := by
  induction h with
  | nil => exact fun _ h => absurd h not_mem_nil
  | ignored hline hlines ih =>
    intro line hmem
    rcases mem_cons.mp hmem with rfl | hmem
    · exact ⟨hline.1, hline.2.1⟩
    · exact ih line hmem
  | entry hwrapped hlines ih =>
    intro line hmem
    rcases mem_append.mp hmem with hmem | hmem
    · exact hwrapped.mem (fun c => mem_storeEntry) line hmem
    · exact ih line hmem

/-- The text of a file: each line, and what ends a line. -/
def fileText (ending : List Char) (lines : List (List Char)) : String :=
  String.ofList (lines.flatMap (· ++ ending))

theorem lines_fileText {ending : List Char} (hending : ending = ['\n'] ∨ ending = ['\r', '\n'])
    {lines : List (List Char)} (h : ∀ line ∈ lines, '\n' ∉ line ∧ '\r' ∉ line) :
    Text.lines (fileText ending lines).toList = lines := by
  rw [fileText, String.toList_ofList]
  induction lines with
  | nil => rfl
  | cons line lines ih =>
    obtain ⟨hline, hreturn⟩ := h line mem_cons_self
    have hrest := ih fun l hl => h l (mem_cons_of_mem _ hl)
    rw [flatMap_cons]
    rcases hending with rfl | rfl
    · have hlast : line.getLast? ≠ some '\r' := fun e => hreturn (mem_of_getLast? e)
      rw [append_assoc, singleton_append, Text.lines_append_newline hline, if_neg hlast,
        hrest]
    · have hclean : '\n' ∉ line ++ ['\r'] := by
        intro hmem
        rcases mem_append.mp hmem with hmem | hmem
        · exact hline hmem
        · exact absurd hmem (by decide)
      have hsplit : line ++ ['\r', '\n'] ++ lines.flatMap (· ++ ['\r', '\n']) =
          line ++ ['\r'] ++ '\n' :: lines.flatMap (· ++ ['\r', '\n']) := by simp
      rw [hsplit, Text.lines_append_newline hclean, if_pos getLast?_concat, dropLast_concat,
        hrest]

/-- The pairs that a text is parsed to. -/
def parsePairs (text : String) : List (List Char × List Char) :=
  (parse text).map fun entry => (entry.key.toList, entry.value.toList)

theorem parsePairs_layout {pairs : List (List Char × List Char)} {lines : List (List Char)}
    (h : Layout pairs lines) (hkeys : ∀ pair ∈ pairs, pair.1 ≠ []) {ending : List Char}
    (hending : ending = ['\n'] ∨ ending = ['\r', '\n']) :
    parsePairs (fileText ending lines) = pairs.map readBack := by
  rw [parsePairs, parse, lines_fileText hending h.mem]
  exact parseLines_layout h hkeys 0 0

/-! ### What survives -/

/-- The entries that come back as they were written. -/
structure IsKept (pair : List Char × List Char) : Prop where
  key : ∀ c ∈ pair.1, IsPrintable c
  basic : ∀ c ∈ pair.2, c.toNat < 0x10000
  last : pair.2.getLast? ≠ some ' '

theorem readBackKey_eq_iff (key : List Char) :
    readBackKey key = key ↔ ∀ c ∈ key, IsPrintable c := by
  constructor
  · intro hback c hc
    rw [← hback] at hc
    obtain ⟨d, -, hd⟩ := mem_flatMap.mp hc
    rcases escapeChar_cases d with ⟨-, hkey, hprint, -⟩ | ⟨letter, -, hkey, hprint, -⟩ |
      ⟨-, -, hkey⟩
    · rw [hkey, mem_singleton] at hd
      exact hd ▸ hprint
    · rw [hkey, mem_singleton] at hd
      exact hd ▸ hprint
    · rw [hkey, mem_flatMap] at hd
      obtain ⟨unit, -, hunit⟩ := hd
      exact (mem_unicodeEscape (mem_cons_of_mem _ hunit)).1
  · intro hprint
    rw [readBackKey]
    conv_rhs => rw [← flatMap_singleton' key]
    refine flatMap_congr fun c hc => ?_
    rcases escapeChar_cases c with ⟨-, hkey, -⟩ | ⟨letter, -, hkey, -, hsame, -⟩ | ⟨hnot, -⟩
    · exact hkey
    · rw [hkey, hsame (hprint c hc)]
    · exact absurd (hprint c hc) hnot

theorem mem_readBackChar {c d : Char} (h : d ∈ readBackChar c) :
    d.toNat < 0x10000 ∧ (c ≠ ' ' → d ≠ ' ') := by
  unfold readBackChar at h
  split_ifs at h with hbasic
  · rw [mem_singleton] at h
    subst h
    exact ⟨hbasic, id⟩
  · obtain ⟨unit, -, hd⟩ := mem_flatMap.mp h
    obtain ⟨⟨-, hascii⟩, hblank⟩ := mem_unicodeEscape hd
    exact ⟨by omega, fun _ => hblank⟩

theorem readBackValue_eq_iff (value : List Char) :
    readBackValue value = value ↔
      (∀ c ∈ value, c.toNat < 0x10000) ∧ value.getLast? ≠ some ' ' := by
  obtain ⟨blanks, hsplit, hblanks⟩ := exists_dropBlanks_append value
  have hkept := getLast?_dropBlanks value
  rw [readBackValue]
  generalize dropBlanks value = kept at hsplit hkept ⊢
  constructor
  · intro hback
    split_ifs at hback with hnil
    · -- a value of blanks only is read as a backslash
      obtain ⟨rfl, -⟩ := hnil
      rw [nil_append] at hsplit
      have hslash := hblanks '\\' (by rw [hsplit, ← hback]; exact mem_cons_self)
      exact absurd hslash (by decide)
    · rw [← hback]
      refine ⟨fun c hc => ?_, fun hend => ?_⟩
      · obtain ⟨d, -, hd⟩ := mem_flatMap.mp hc
        exact (mem_readBackChar hd).1
      · rcases eq_nil_or_concat kept with rfl | ⟨init, c, rfl⟩
        · cases hend
        rw [concat_eq_append] at hkept hend
        have hc : c ≠ ' ' := by
          rintro rfl
          exact hkept getLast?_concat
        have hne : readBackChar c ≠ [] := by
          unfold readBackChar Utf16.encodeChar
          split_ifs <;> exact cons_ne_nil _ _
        rw [flatMap_append, flatMap_singleton,
          getLast?_append_of_ne_nil _ hne] at hend
        exact (mem_readBackChar (mem_of_getLast? hend)).2 hc rfl
  · rintro ⟨hbasic, hlast⟩
    have hblank : blanks = [] := by
      rcases eq_nil_or_concat blanks with rfl | ⟨init, c, rfl⟩
      · rfl
      · rw [concat_eq_append] at hsplit hblanks
        have hc := hblanks c (mem_append_right _ mem_cons_self)
        rw [← hsplit, hc, ← append_assoc, getLast?_concat] at hlast
        exact absurd rfl hlast
    rw [hblank, append_nil] at hsplit
    subst hsplit
    rw [if_neg fun h => h.2 h.1]
    conv_rhs => rw [← flatMap_singleton' kept]
    exact flatMap_congr fun c hc => if_pos (hbasic c hc)

/-- However a file is laid out, and whatever stands between its entries, it is read alike.  It is
read as the entries that were written exactly when these are kept. -/
theorem parsePairs_layout_iff {pairs : List (List Char × List Char)}
    (hkeys : ∀ pair ∈ pairs, pair.1 ≠ []) {lines : List (List Char)} (h : Layout pairs lines)
    {ending : List Char} (hending : ending = ['\n'] ∨ ending = ['\r', '\n']) :
    (parsePairs (fileText ending lines) = pairs ↔ ∀ pair ∈ pairs, IsKept pair) ∧
      ∀ lines', Layout pairs lines' →
        parsePairs (fileText ending lines') = parsePairs (fileText ending lines) := by
  have hread := parsePairs_layout h hkeys hending
  refine ⟨?_, fun lines' h' => by rw [hread, parsePairs_layout h' hkeys hending]⟩
  rw [hread]
  conv_lhs => rhs; rw [← map_id pairs]
  rw [map_inj_left]
  refine forall₂_congr fun pair _ => ?_
  rw [id, readBack, Prod.ext_iff, readBackKey_eq_iff, readBackValue_eq_iff]
  exact ⟨fun ⟨hkey, hbasic, hlast⟩ => ⟨hkey, hbasic, hlast⟩,
    fun ⟨hkey, hbasic, hlast⟩ => ⟨hkey, hbasic, hlast⟩⟩

/-- An entry with a comment before it and a line that is broken in its value. -/
theorem parsePairs_layout_iff_broken :
    parsePairs (fileText ['\r', '\n'] ["# =".toList, "  a\\:b=c \\".toList, "\td".toList]) =
      [("a:b".toList, "c d".toList)] := by
  have hcomment : IsIgnored "# =".toList :=
    ⟨by decide, by decide, [], "# =".toList, rfl, forall_mem_nil _, .inr (.inl rfl)⟩
  have htab : ∀ c ∈ ['\t'], IsBlank c := forall_mem_singleton.2 (by decide)
  have hlast : Wrapped ['d'] [['\t'] ++ ['d']] := .last htab (by decide)
  have hblanks : ∀ c ∈ [' ', ' '], IsBlank c := all_iff_forall_prop.1 (by decide)
  have hbroken : Wrapped ("a\\:b=c ".toList ++ ['d'])
      [[' ', ' '] ++ "a\\:b=c ".toList ++ ['\\'], ['\t'] ++ ['d']] :=
    .broken hblanks (by decide) (by decide) hlast
  have hentry : Wrapped (storeEntry ("a:b".toList, "c d".toList))
      ["  a\\:b=c \\".toList, "\td".toList] := hbroken
  have hlayout : Layout [("a:b".toList, "c d".toList)]
      ["# =".toList, "  a\\:b=c \\".toList, "\td".toList] := .ignored hcomment (.entry hentry .nil)
  have hkeys : ∀ pair ∈ [("a:b".toList, "c d".toList)], pair.1 ≠ [] := by decide
  have hiff := (parsePairs_layout_iff hkeys hlayout (.inr rfl)).1
  refine hiff.mpr fun pair hpair => ?_
  rw [mem_singleton.mp hpair]
  exact ⟨all_iff_forall_prop.1 (by decide), all_iff_forall_prop.1 (by decide), by decide⟩

/-- The blank at the end of a value is lost. -/
theorem not_parsePairs_layout :
    ¬ ∀ pairs : List (List Char × List Char), (∀ pair ∈ pairs, pair.1 ≠ []) →
      ∀ lines, Layout pairs lines → parsePairs (fileText ['\n'] lines) = pairs := by
  intro h
  have hkeys : ∀ pair ∈ [("k".toList, "p ".toList)], pair.1 ≠ [] := by decide
  have hline : Wrapped "k=p ".toList [[] ++ "k=p ".toList] :=
    .last (forall_mem_nil _) (by decide)
  have hentry : Wrapped (storeEntry ("k".toList, "p ".toList)) ["k=p ".toList] := hline
  have hlayout : Layout [("k".toList, "p ".toList)] ["k=p ".toList] := .entry hentry .nil
  have hread := h _ hkeys _ hlayout
  rw [parsePairs_layout hlayout hkeys (.inl rfl)] at hread
  exact absurd hread (by decide)

end Properties

end Cdm
