import Mathlib.Algebra.Group.Int.Defs
import Mathlib.Algebra.Group.Nat.Defs
import Mathlib.Algebra.GroupWithZero.Nat
import Mathlib.Data.Int.Notation
import Mathlib.Data.List.Basic
import Mathlib.Data.List.TakeWhile
import Mathlib.Data.Nat.Notation

/-!
# Text as lists of characters

The string functions of the Rust standard library that a program uses to take a line of text
apart, over `List Char`: splitting at a character, trimming, and reading an integer.
-/

namespace Text

open List

/-- `char::is_whitespace`: the Unicode `White_Space` property. -/
def isWhitespace (c : Char) : Bool :=
  let n := c.toNat
  (9 ≤ n && n ≤ 13) || n == 0x20 || n == 0x85 || n == 0xA0 || n == 0x1680 ||
    (0x2000 ≤ n && n ≤ 0x200A) || n == 0x2028 || n == 0x2029 || n == 0x202F || n == 0x205F ||
    n == 0x3000

/-- `str::trim`. -/
def trim (s : List Char) : List Char :=
  ((s.dropWhile isWhitespace).reverse.dropWhile isWhitespace).reverse

/-- `str::trim_start`. -/
def trimStart (s : List Char) : List Char := s.dropWhile isWhitespace

/-- `str::trim_end`. -/
def trimEnd (s : List Char) : List Char := (s.reverse.dropWhile isWhitespace).reverse

/-- `str::split` at a character: never empty, and with an empty piece between two separators. -/
def splitOn (sep : Char) : List Char → List (List Char)
  | [] => [[]]
  | c :: cs =>
    if c = sep then
      [] :: splitOn sep cs
    else
      match splitOn sep cs with
      | [] => [[c]]
      | p :: ps => (c :: p) :: ps

/-- `str::lines`: the last line need not be ended, and a carriage return goes with the line feed that
follows it. -/
def lines (s : List Char) : List (List Char) :=
  let pieces := splitOn '\n' s
  pieces.dropLast.map (fun line => if line.getLast? = some '\r' then line.dropLast else line) ++
    pieces.getLast?.toList.filter (· ≠ [])

/-- `str::strip_prefix`. -/
def stripPrefix : List Char → List Char → Option (List Char)
  | [], s => some s
  | _ :: _, [] => none
  | p :: ps, c :: cs => if p = c then stripPrefix ps cs else none

/-- `str::len`: the length of a text in bytes. -/
def utf8Len (s : List Char) : ℕ := (s.map Char.utf8Size).sum

/-- `str::to_ascii_lowercase`. -/
def toLower (s : List Char) : List Char := s.map Char.toLower

/-- `str::ends_with`, for a character. -/
def endsWith (c : Char) (s : List Char) : Bool := s.getLast? = some c

/-- The apostrophe. -/
def singleQuote : Char := Char.ofNat 39

/-- The quotation mark. -/
def doubleQuote : Char := Char.ofNat 34

/-- `str::rsplit_once` at a character: what stands before and after its last occurrence. -/
def rsplitOnce (sep : Char) (s : List Char) : Option (List Char × List Char) :=
  match s.reverse.dropWhile (· ≠ sep) with
  | [] => none
  | _ :: before => some (before.reverse, (s.reverse.takeWhile (· ≠ sep)).reverse)

/-- The magnitude of a non-empty run of ASCII digits. -/
def parseDigits (s : List Char) : Option ℕ :=
  if s ≠ [] ∧ s.all Char.isDigit then some (Nat.ofDigitChars 10 s 0) else none

/-- Whether a number is negative, and its text without the sign. -/
def splitSign : List Char → Bool × List Char
  | '-' :: rest => (true, rest)
  | '+' :: rest => (false, rest)
  | s => (false, s)

/-- `str::parse::<i64>`: an optional sign and digits, within the range of the type. -/
def parseI64 (s : List Char) : Option ℤ :=
  match parseDigits (splitSign s).2 with
  | none => none
  | some n =>
    let value : ℤ := if (splitSign s).1 then -(n : ℤ) else n
    if -2 ^ 63 ≤ value ∧ value < 2 ^ 63 then some value else none

/-- `str::parse::<i128>`. -/
def parseI128 (s : List Char) : Option ℤ :=
  match parseDigits (splitSign s).2 with
  | none => none
  | some n =>
    let value : ℤ := if (splitSign s).1 then -(n : ℤ) else n
    if -2 ^ 127 ≤ value ∧ value < 2 ^ 127 then some value else none

/-- A lower-case hexadecimal digit. -/
def hexDigit (n : ℕ) : Char := if n < 10 then Char.ofNat (48 + n) else Char.ofNat (87 + n)

/-- `str::replace`, passing over the characters that are left of an occurrence. -/
def replaceFrom (pat new : List Char) : ℕ → List Char → List Char
  | _, [] => []
  | k + 1, _ :: cs => replaceFrom pat new k cs
  | 0, c :: cs =>
    if (stripPrefix pat (c :: cs)).isSome then new ++ replaceFrom pat new (pat.length - 1) cs
    else c :: replaceFrom pat new 0 cs

/-- `str::replace`: every occurrence of a text that is not empty, from the left. -/
def replace (pat new s : List Char) : List Char := replaceFrom pat new 0 s

/-! ### Splitting -/

theorem splitOn_sep (sep : Char) (s : List Char) : splitOn sep (sep :: s) = [] :: splitOn sep s :=
  if_pos rfl

theorem splitOn_ne_nil (sep : Char) (s : List Char) : splitOn sep s ≠ [] := by
  cases s with
  | nil => exact cons_ne_nil _ _
  | cons c cs =>
    rw [splitOn]
    split_ifs
    · simp
    · split <;> simp

/-- Another character goes with the piece that follows it. -/
theorem splitOn_cons {sep c : Char} (h : c ≠ sep) {s p : List Char} {ps : List (List Char)}
    (hs : splitOn sep s = p :: ps) : splitOn sep (c :: s) = (c :: p) :: ps := by
  rw [splitOn, if_neg h, hs]

theorem splitOn_of_not_mem {sep : Char} {s : List Char} (h : sep ∉ s) : splitOn sep s = [s] := by
  induction s with
  | nil => rfl
  | cons c cs ih =>
    have hc : c ≠ sep := fun e => h (e ▸ mem_cons_self)
    exact splitOn_cons hc (ih fun hm => h (mem_cons_of_mem _ hm))

/-- What follows the last separator is one of the pieces, and not the first. -/
theorem mem_tail_splitOn {sep : Char} {b : List Char} (hb : sep ∉ b) (a : List Char) :
    b ∈ (splitOn sep (a ++ sep :: b)).tail := by
  induction a with
  | nil => simp [splitOn_sep, splitOn_of_not_mem hb]
  | cons c cs ih =>
    rw [cons_append]
    by_cases hc : c = sep
    · subst hc
      rw [splitOn_sep]
      exact mem_of_mem_tail ih
    · obtain ⟨p, ps, hs⟩ := exists_cons_of_ne_nil (splitOn_ne_nil sep (cs ++ sep :: b))
      rw [splitOn_cons hc hs]
      rw [hs] at ih
      exact ih

/-- Splitting at a separator that stands in the text. -/
theorem splitOn_append_sep (sep : Char) (a b : List Char) :
    splitOn sep (a ++ sep :: b) = splitOn sep a ++ splitOn sep b := by
  induction a with
  | nil => exact splitOn_sep sep b
  | cons c cs ih =>
    rw [cons_append]
    by_cases hc : c = sep
    · subst hc
      rw [splitOn_sep, splitOn_sep, ih, cons_append]
    · obtain ⟨p, ps, hs⟩ := exists_cons_of_ne_nil (splitOn_ne_nil sep cs)
      rw [hs, cons_append] at ih
      rw [splitOn_cons hc hs, splitOn_cons hc ih, cons_append]

/-- A line, with a carriage return that goes with its end or without one. -/
theorem lines_append_newline {line : List Char} (h : '\n' ∉ line) (rest : List Char) :
    lines (line ++ '\n' :: rest) =
      (if line.getLast? = some '\r' then line.dropLast else line) :: lines rest := by
  have hne := splitOn_ne_nil '\n' rest
  rw [lines, lines, splitOn_append_sep, splitOn_of_not_mem h, singleton_append,
    dropLast_cons_of_ne_nil hne, map_cons, cons_append,
    getLast?_cons_of_ne_nil hne]

theorem lines_of_not_mem {text : List Char} (h : '\n' ∉ text) (hne : text ≠ []) :
    lines text = [text] := by
  rw [lines, splitOn_of_not_mem h]
  simp [hne]

theorem lines_ne_nil {text : List Char} (hne : text ≠ []) : lines text ≠ [] := by
  by_cases hmem : '\n' ∈ text
  · obtain ⟨line, rest, rfl, hline⟩ := eq_append_cons_of_mem hmem
    rw [lines_append_newline hline]
    exact cons_ne_nil _ _
  · rw [lines_of_not_mem hmem hne]
    exact cons_ne_nil _ _

/-! ### Trimming -/

theorem dropWhile_isWhitespace_of_head {s : List Char}
    (h : ∀ c ∈ s.head?, isWhitespace c = false) : s.dropWhile isWhitespace = s := by
  cases s with
  | nil => rfl
  | cons c cs => exact dropWhile_cons_of_neg (by simp [h c rfl])

/-- Leading white space goes; a text that starts and ends with other characters stays. -/
theorem trim_append {w s : List Char} (hw : ∀ c ∈ w, isWhitespace c = true)
    (hhead : ∀ c ∈ s.head?, isWhitespace c = false)
    (hlast : ∀ c ∈ s.getLast?, isWhitespace c = false) : trim (w ++ s) = s := by
  have hrev : ∀ c ∈ s.reverse.head?, isWhitespace c = false := by
    rwa [head?_reverse]
  rw [trim, dropWhile_append_of_pos hw, dropWhile_isWhitespace_of_head hhead,
    dropWhile_isWhitespace_of_head hrev, reverse_reverse]

theorem isWhitespace_of_isDigit {c : Char} (h : c.isDigit = true) : isWhitespace c = false := by
  simp only [Char.isDigit, Bool.and_eq_true, decide_eq_true_eq, ge_iff_le] at h
  have h₁ : 48 ≤ c.toNat := h.1
  have h₂ : c.toNat ≤ 57 := h.2
  simp only [isWhitespace, Bool.or_eq_false_iff, Bool.and_eq_false_iff, decide_eq_false_iff_not,
    beq_eq_false_iff_ne]
  omega

theorem stripPrefix_append (p s : List Char) : stripPrefix p (p ++ s) = some s := by
  induction p with
  | nil => rfl
  | cons c cs ih => simp [stripPrefix, ih]

theorem eq_append_of_stripPrefix {p s rest : List Char} (h : stripPrefix p s = some rest) :
    s = p ++ rest := by
  induction p generalizing s with
  | nil => exact Option.some.inj h
  | cons c p ih =>
    cases s with
    | nil => cases h
    | cons d s =>
      rw [stripPrefix] at h
      split_ifs at h with hcd
      rw [hcd, ih h, cons_append]

/-! ### Reading integers -/

theorem parseDigits_toDigits (n : ℕ) : parseDigits (Nat.toDigits 10 n) = some n := by
  have hall : (Nat.toDigits 10 n).all Char.isDigit = true :=
    all_eq_true.2 fun c hc => Nat.isDigit_of_mem_toDigits (by decide) (by decide) hc
  rw [parseDigits, if_pos ⟨Nat.toDigits_ne_nil, hall⟩, Nat.ofDigitChars_ten_toDigits]

theorem repr_inj {m n : ℕ} (h : Nat.repr m = Nat.repr n) : m = n := by
  have hlist := congrArg String.toList h
  rw [Nat.toList_repr, Nat.toList_repr] at hlist
  have hparse := parseDigits_toDigits m
  rw [hlist, parseDigits_toDigits] at hparse
  exact (Option.some.inj hparse).symm

theorem isDigit_head_toDigits {n : ℕ} {c : Char} {cs : List Char}
    (h : Nat.toDigits 10 n = c :: cs) : c.isDigit = true :=
  Nat.isDigit_of_mem_toDigits (by decide) (by decide) (h ▸ mem_cons_self)

theorem splitSign_toDigits (n : ℕ) :
    splitSign (Nat.toDigits 10 n) = (false, Nat.toDigits 10 n) := by
  unfold splitSign
  split
  · have := isDigit_head_toDigits ‹_›
    simp at this
  · have := isDigit_head_toDigits ‹_›
    simp at this
  · rfl

/-- The decimal digits of a number read back as the number, or fail when it is out of range. -/
theorem parseI64_toDigits (n : ℕ) :
    parseI64 (Nat.toDigits 10 n) = if (n : ℤ) < 2 ^ 63 then some (n : ℤ) else none := by
  rw [parseI64, splitSign_toDigits]
  simp only [parseDigits_toDigits, Bool.false_eq_true, if_false]
  have : (-2 ^ 63 : ℤ) ≤ n := by omega
  simp only [this, true_and]

/-- Trimming cuts white space, and nothing else, off both ends. -/
theorem exists_trim_padding (s : List Char) :
    ∃ before after, s = before ++ (trim s ++ after) ∧ (∀ c ∈ before, isWhitespace c = true) ∧
      ∀ c ∈ after, isWhitespace c = true := by
  have hback := takeWhile_append_dropWhile (p := isWhitespace)
    (l := (s.dropWhile isWhitespace).reverse)
  refine ⟨s.takeWhile isWhitespace, ((s.dropWhile isWhitespace).reverse.takeWhile isWhitespace).reverse,
    ?_, fun c => mem_takeWhile_imp, fun c hc => ?_⟩
  · have hrev := congrArg List.reverse hback
    rw [reverse_append, reverse_reverse] at hrev
    rw [trim, hrev, takeWhile_append_dropWhile]
  · exact mem_takeWhile_imp (mem_reverse.1 hc)

theorem head_trim {s : List Char} : ∀ c ∈ (trim s).head?, isWhitespace c = false := by
  intro c hc
  have hprefix : trim s <+: s.dropWhile isWhitespace := by
    rw [trim, ← reverse_suffix, reverse_reverse]
    exact dropWhile_suffix _
  obtain ⟨rest, hrest⟩ := hprefix
  have hhead : c ∈ (s.dropWhile isWhitespace).head? := by
    rw [← hrest, head?_append, Option.mem_def.1 hc]
    rfl
  have hnot := head?_dropWhile_not isWhitespace s
  rw [Option.mem_def.1 hhead] at hnot
  exact hnot

theorem last_trim {s : List Char} : ∀ c ∈ (trim s).getLast?, isWhitespace c = false := by
  intro c hc
  rw [trim, getLast?_reverse] at hc
  have hnot := head?_dropWhile_not isWhitespace (s.dropWhile isWhitespace).reverse
  rw [Option.mem_def.1 hc] at hnot
  exact hnot

/-- Trimming twice is trimming once. -/
@[simp] theorem trim_trim (s : List Char) : trim (trim s) = trim s :=
  trim_append (w := []) (by simp) head_trim last_trim

/-! ### Letters -/

theorem isAlpha_eq (c : Char) : c.isAlpha = (c.isUpper || c.isLower) := rfl

/-- Lower case changes capital letters only. -/
theorem toLower_eq_self {c : Char} (h : c.isAlpha = false) : c.toLower = c := by
  rw [isAlpha_eq, Bool.or_eq_false_iff] at h
  have hupper : ¬(c.val ≥ 'A'.val ∧ c.val ≤ 'Z'.val) := by
    have hc : c.isUpper = false := h.1
    delta Char.isUpper at hc
    simpa using hc
  exact dif_neg hupper

/-- What is no letter in lower case has not been changed. -/
theorem eq_of_toLower {c d : Char} (h : c.toLower = d) (hd : d.isAlpha = false) : c = d := by
  delta Char.toLower at h
  split at h
  · rename_i hupper
    subst h
    have hlo : 65 ≤ c.val.toNat := UInt32.le_iff_toNat_le.1 hupper.1
    have hhi : c.val.toNat ≤ 90 := UInt32.le_iff_toNat_le.1 hupper.2
    have hval : (c.val + ('a'.val - 'A'.val)).toNat = c.val.toNat + 32 := by
      rw [UInt32.toNat_add]
      show (c.val.toNat + 32) % 2 ^ 32 = _
      omega
    rw [isAlpha_eq] at hd
    delta Char.isUpper Char.isLower at hd
    simp only [Bool.or_eq_false_iff, Bool.and_eq_false_iff, decide_eq_false_iff_not, ge_iff_le, UInt32.le_iff_toNat_le, hval] at hd
    have ha : 'a'.val.toNat = 97 := rfl
    have hz : 'z'.val.toNat = 122 := rfl
    omega
  · exact h

/-- The letters of a word are letters in any case. -/
theorem isAlpha_of_toLower {word lower : List Char} (h : toLower word = lower)
    (hlower : ∀ c ∈ lower, c.isAlpha = true) : ∀ c ∈ word, c.isAlpha = true := by
  intro c hc
  by_contra hnot
  have hsame := toLower_eq_self (Bool.eq_false_iff.2 hnot)
  refine hnot (hlower c ?_)
  rw [← h, toLower, ← hsame]
  exact mem_map_of_mem hc

theorem toNat_of_isAlpha {c : Char} (h : c.isAlpha = true) :
    65 ≤ c.toNat ∧ c.toNat ≤ 90 ∨ 97 ≤ c.toNat ∧ c.toNat ≤ 122 := by
  rw [isAlpha_eq] at h
  delta Char.isUpper Char.isLower at h
  simp only [Bool.or_eq_true, Bool.and_eq_true, decide_eq_true_eq, ge_iff_le] at h
  exact h

theorem isWhitespace_of_isAlpha {c : Char} (h : c.isAlpha = true) : isWhitespace c = false := by
  have hn := toNat_of_isAlpha h
  simp only [isWhitespace, Bool.or_eq_false_iff, Bool.and_eq_false_iff, decide_eq_false_iff_not,
    beq_eq_false_iff_ne]
  omega

end Text
