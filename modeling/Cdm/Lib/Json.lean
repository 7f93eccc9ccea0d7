import Cdm.Lib.Utf16
import Cdm.Lib.Quoted

/-!
# JSON texts

A value is printed with a layout: what stands at the start of a line, depending on how deep it is
nested, and what stands behind a colon.  The reader passes over white space, so that it reads a
value back whatever the layout.

The content of a string is a sequence of UTF-16 units, which must be well formed.  A number is kept
as it is written; that it is a number of the grammar is part of it.
-/

namespace Json

open Text
open List

/-! ### Values -/

/-- The text behind the integral part of a number is an exponent. -/
def isExponent : List Char → Bool
  | [] => true
  | e :: rest =>
    let digits := match rest with
      | '+' :: digits | '-' :: digits => digits
      | _ => rest
    (e = 'e' || e = 'E') && !digits.isEmpty && digits.all Char.isDigit

/-- The text behind the integral part of a number is a fraction, or an exponent, or both. -/
def isFraction : List Char → Bool
  | '.' :: rest =>
    !(rest.takeWhile Char.isDigit).isEmpty && isExponent (rest.dropWhile Char.isDigit)
  | rest => isExponent rest

/-- A number of the grammar. -/
def isNumber (text : List Char) : Bool :=
  let unsigned := match text with
    | '-' :: rest => rest
    | _ => text
  let integral := unsigned.takeWhile Char.isDigit
  !integral.isEmpty && (integral.head? ≠ some '0' || integral.length = 1) &&
    isFraction (unsigned.dropWhile Char.isDigit)

/-- A number, as it is written. -/
def Number : Type := { text : List Char // isNumber text = true }

deriving instance DecidableEq for Number

mutual

inductive Value where
  | null
  | bool (value : Bool)
  | number (value : Number)
  | string (text : List Char)
  | array (elements : Values)
  | object (fields : Fields)

inductive Values where
  | nil
  | cons (value : Value) (rest : Values)

inductive Fields where
  | nil
  | cons (name : List Char) (value : Value) (rest : Fields)

end

def Values.ofList : List Value → Values
  | [] => .nil
  | value :: values => .cons value (ofList values)

def Values.toList : Values → List Value
  | .nil => []
  | .cons value rest => value :: rest.toList

def Fields.ofList : List (List Char × Value) → Fields
  | [] => .nil
  | (name, value) :: fields => .cons name value (ofList fields)

/-- The value of the first field of a name. -/
def Fields.lookup (name : List Char) : Fields → Option Value
  | .nil => none
  | .cons other value rest => if other = name then some value else rest.lookup name

@[simp] theorem Values.toList_ofList (values : List Value) :
    (Values.ofList values).toList = values := by
  induction values with
  | nil => rfl
  | cons value values ih => rw [ofList, toList, ih]

/-! ### Integers -/

theorem toList_toString (i : ℤ) :
    (toString i).toList =
      if i < 0 then '-' :: Nat.toDigits 10 i.natAbs else Nat.toDigits 10 i.natAbs := by
  rw [Int.toString_eq_repr]
  cases i with
  | ofNat n =>
    rw [Int.repr, Nat.toList_repr, if_neg (by simp)]
    rfl
  | negSucc n =>
    rw [Int.repr, String.toList_append, Nat.toList_repr, if_pos (Int.negSucc_lt_zero n)]
    rfl

/-- The digits of a number do not start with a zero, unless it is zero. -/
theorem head?_toDigits {n : ℕ} (h : n ≠ 0) : (Nat.toDigits 10 n).head? ≠ some '0' := by
  induction n using Nat.strongRecOn with
  | ind n ih =>
    rcases lt_or_ge n 10 with hlt | hge
    · have hall : ∀ d : Fin 10, d ≠ 0 → Nat.digitChar d ≠ '0' := by decide
      rw [Nat.toDigits_of_lt_base hlt, head?_cons, ne_eq, Option.some_inj]
      exact hall ⟨n, hlt⟩ fun e => h (congrArg Fin.val e)
    · have hdiv : n / 10 ≠ 0 := by omega
      rw [Nat.toDigits_of_base_le (by decide) hge,
        head?_append_of_ne_nil _ Nat.toDigits_ne_nil]
      exact ih (n / 10) (by omega) hdiv

theorem isDigit_toDigits (n : ℕ) : ∀ c ∈ Nat.toDigits 10 n, c.isDigit = true :=
  fun _ hc => Nat.isDigit_of_mem_toDigits (by decide) (by decide) hc

theorem isNumber_toString (i : ℤ) : isNumber (toString i).toList = true := by
  have hdigits : ∀ n : ℕ, (!(Nat.toDigits 10 n).isEmpty &&
      ((Nat.toDigits 10 n).head? ≠ some '0' || (Nat.toDigits 10 n).length = 1)) = true := by
    intro n
    rcases eq_or_ne n 0 with rfl | hn
    · decide
    · simp [head?_toDigits hn, Nat.toDigits_ne_nil]
  have hspan : ∀ n : ℕ, (Nat.toDigits 10 n).takeWhile Char.isDigit = Nat.toDigits 10 n ∧
      (Nat.toDigits 10 n).dropWhile Char.isDigit = [] := fun n =>
    ⟨takeWhile_eq_self_iff.2 (isDigit_toDigits n),
      dropWhile_eq_nil_iff.2 (isDigit_toDigits n)⟩
  rw [toList_toString]
  split_ifs
  · rw [isNumber, (hspan _).1, (hspan _).2, hdigits]
    rfl
  · unfold isNumber
    dsimp only
    split
    · have := isDigit_head_toDigits ‹_›
      exact absurd this (by decide)
    · rw [(hspan _).1, (hspan _).2, hdigits]
      rfl

/-- An integer as a number. -/
def Number.ofInt (i : ℤ) : Number := ⟨(toString i).toList, isNumber_toString i⟩

/-- An `i64` is read back from its digits. -/
theorem Number.parseI64_ofInt (value : Int64) :
    parseI64 (Number.ofInt value.toInt).1 = some value.toInt := by
  have hlo := Int64.le_toInt value
  have hhi := Int64.toInt_lt value
  have hsign : splitSign (toString value.toInt).toList =
      (decide (value.toInt < 0), Nat.toDigits 10 value.toInt.natAbs) := by
    rw [toList_toString]
    split_ifs with hneg
    · rw [splitSign, decide_eq_true hneg]
    · rw [splitSign_toDigits, decide_eq_false hneg]
  show parseI64 (toString value.toInt).toList = _
  rw [parseI64, hsign, parseDigits_toDigits]
  have habs : (if decide (value.toInt < 0) = true then -(value.toInt.natAbs : ℤ)
      else value.toInt.natAbs) = value.toInt := by
    simp only [decide_eq_true_eq]
    split_ifs <;> omega
  dsimp only
  rw [habs, if_pos ⟨hlo, hhi⟩]

/-! ### Printing -/

/-- A character of a string: quotation marks, backslashes and control characters are escaped. -/
def escape (c : Char) : List Char :=
  if c = '\x22' then ['\\', '\x22']
  else if c = '\\' then ['\\', '\\']
  else if c = Char.ofNat 8 then ['\\', 'b']
  else if c = Char.ofNat 12 then ['\\', 'f']
  else if c = '\n' then ['\\', 'n']
  else if c = '\r' then ['\\', 'r']
  else if c = '\t' then ['\\', 't']
  else if c.toNat < 0x20 then
    ['\\', 'u', '0', '0', hexDigit (c.toNat / 16), hexDigit (c.toNat % 16)]
  else [c]

def quoted (text : List Char) : List Char := '\x22' :: (text.flatMap escape ++ ['\x22'])

/-- The white space of a printed value. -/
structure Layout where
  /-- The start of a line at some depth. -/
  line : ℕ → List Char
  colon : List Char

/-- Everything on one line. -/
def Layout.compact : Layout := ⟨fun _ => [], []⟩

/-- One element a line, two blanks more for each depth. -/
def Layout.pretty : Layout := ⟨fun depth => '\n' :: List.replicate (2 * depth) ' ', [' ']⟩

mutual

/-- A value as text. -/
def print (layout : Layout) (depth : ℕ) : Value → List Char
  | .null => ['n', 'u', 'l', 'l']
  | .bool true => ['t', 'r', 'u', 'e']
  | .bool false => ['f', 'a', 'l', 's', 'e']
  | .number value => value.1
  | .string text => quoted text
  | .array .nil => ['[', ']']
  | .array elements =>
    '[' :: (layout.line (depth + 1) ++ printElements layout (depth + 1) elements ++
      layout.line depth ++ [']'])
  | .object .nil => ['{', '}']
  | .object fields =>
    '{' :: (layout.line (depth + 1) ++ printFields layout (depth + 1) fields ++
      layout.line depth ++ ['}'])

def printElements (layout : Layout) (depth : ℕ) : Values → List Char
  | .nil => []
  | .cons value .nil => print layout depth value
  | .cons value rest =>
    print layout depth value ++ ',' :: (layout.line depth ++ printElements layout depth rest)

def printFields (layout : Layout) (depth : ℕ) : Fields → List Char
  | .nil => []
  | .cons name value .nil => quoted name ++ ':' :: (layout.colon ++ print layout depth value)
  | .cons name value rest =>
    quoted name ++ ':' :: (layout.colon ++ print layout depth value ++
      ',' :: (layout.line depth ++ printFields layout depth rest))

end

/-! ### Reading -/

def isSpace (c : Char) : Bool := c = ' ' || c = '\n' || c = '\r' || c = '\t'

def skip (text : List Char) : List Char := text.dropWhile isSpace

/-- The characters of numbers and of the three names. -/
def isWordChar (c : Char) : Bool := c.isAlphanum || c = '+' || c = '-' || c = '.'

def hexValue (c : Char) : Option ℕ :=
  if c.isDigit then some (c.toNat - 48)
  else if 'a' ≤ c && c ≤ 'f' then some (c.toNat - 87)
  else if 'A' ≤ c && c ≤ 'F' then some (c.toNat - 55)
  else none

/-- The unit of four hexadecimal digits. -/
def readHex (a b c d : Char) : Option UInt16 := do
  let a ← hexValue a
  let b ← hexValue b
  let c ← hexValue c
  let d ← hexValue d
  return UInt16.ofNat (4096 * a + 256 * b + 16 * c + d)

/-- The character of an escape of two characters. -/
def unescape (letter : Char) : Option Char :=
  if letter = '\x22' || letter = '\\' || letter = '/' then some letter
  else if letter = 'b' then some (Char.ofNat 8)
  else if letter = 'f' then some (Char.ofNat 12)
  else if letter = 'n' then some '\n'
  else if letter = 'r' then some '\r'
  else if letter = 't' then some '\t'
  else none

/-- The units of a string whose opening quotation mark has been read, and what follows it. -/
def readUnits : List Char → Option (List UInt16 × List Char)
  | [] => none
  | c :: rest =>
    if c = '\x22' then some ([], rest)
    else if c = '\\' then
      match rest with
      | 'u' :: a :: b :: c :: d :: rest => do
        let unit ← readHex a b c d
        let (units, rest) ← readUnits rest
        return (unit :: units, rest)
      | letter :: rest => do
        let c ← unescape letter
        let (units, rest) ← readUnits rest
        return (Utf16.encodeChar c ++ units, rest)
      | [] => none
    else if c.toNat < 0x20 then none
    else do
      let (units, rest) ← readUnits rest
      return (Utf16.encodeChar c ++ units, rest)

/-- A string whose opening quotation mark has been read. -/
def readString (text : List Char) : Option (List Char × List Char) := do
  let (units, rest) ← readUnits text
  let content ← Utf16.decode units
  return (content, rest)

/-- The value of a word. -/
def ofWord (word : List Char) : Option Value :=
  if word = ['n', 'u', 'l', 'l'] then some .null
  else if word = ['t', 'r', 'u', 'e'] then some (.bool true)
  else if word = ['f', 'a', 'l', 's', 'e'] then some (.bool false)
  else if h : isNumber word = true then some (.number ⟨word, h⟩)
  else none

mutual

/-- A value at the start of a text, and what follows it; values are nested less deep than the
bound. -/
def readValue : ℕ → List Char → Option (Value × List Char)
  | 0, _ => none
  | bound + 1, text =>
    match skip text with
    | '\x22' :: rest => (readString rest).map fun (content, rest) => (.string content, rest)
    | '[' :: rest =>
      match skip rest with
      | ']' :: rest => some (.array .nil, rest)
      | _ => (readElements bound rest).map fun (elements, rest) => (.array elements, rest)
    | '{' :: rest =>
      match skip rest with
      | '}' :: rest => some (.object .nil, rest)
      | _ => (readFields bound rest).map fun (fields, rest) => (.object fields, rest)
    | text => (ofWord (text.takeWhile isWordChar)).map fun value =>
        (value, text.dropWhile isWordChar)

/-- The elements of an array, at least one, and its end. -/
def readElements : ℕ → List Char → Option (Values × List Char)
  | 0, _ => none
  | bound + 1, text => do
    let (value, rest) ← readValue bound text
    match skip rest with
    | ']' :: rest => return (.cons value .nil, rest)
    | ',' :: rest => do
      let (elements, rest) ← readElements bound rest
      return (.cons value elements, rest)
    | _ => none

/-- The fields of an object, at least one, and its end. -/
def readFields : ℕ → List Char → Option (Fields × List Char)
  | 0, _ => none
  | bound + 1, text =>
    match skip text with
    | '\x22' :: rest => do
      let (name, rest) ← readString rest
      match skip rest with
      | ':' :: rest => do
        let (value, rest) ← readValue bound rest
        match skip rest with
        | '}' :: rest => return (.cons name value .nil, rest)
        | ',' :: rest => do
          let (fields, rest) ← readFields bound rest
          return (.cons name value fields, rest)
        | _ => none
      | _ => none
    | _ => none

end

/-- The value of a text. -/
def parse (text : List Char) : Option Value := do
  let (value, rest) ← readValue (text.length + 1) text
  if skip rest = [] then return value else none

/-! ### Equations of the printer -/

section Print

variable (layout : Layout) (depth : ℕ)

theorem print_array {elements : Values} (h : elements ≠ .nil) :
    print layout depth (.array elements) =
      '[' :: (layout.line (depth + 1) ++ printElements layout (depth + 1) elements ++
        layout.line depth ++ [']']) := by
  cases elements with
  | nil => exact absurd rfl h
  | cons value rest => rfl

theorem print_object {fields : Fields} (h : fields ≠ .nil) :
    print layout depth (.object fields) =
      '{' :: (layout.line (depth + 1) ++ printFields layout (depth + 1) fields ++
        layout.line depth ++ ['}']) := by
  cases fields with
  | nil => exact absurd rfl h
  | cons name value rest => rfl

theorem printElements_cons (value : Value) {rest : Values} (h : rest ≠ .nil) :
    printElements layout depth (.cons value rest) =
      print layout depth value ++
        ',' :: (layout.line depth ++ printElements layout depth rest) := by
  rw [printElements]
  exact h

theorem printFields_cons (name : List Char) (value : Value) {rest : Fields} (h : rest ≠ .nil) :
    printFields layout depth (.cons name value rest) =
      quoted name ++ ':' :: (layout.colon ++ print layout depth value ++
        ',' :: (layout.line depth ++ printFields layout depth rest)) := by
  rw [printFields]
  exact h

end Print

/-! ### Strings -/

theorem readHex_control : ∀ n : Fin 32,
    readHex '0' '0' (hexDigit (n.val / 16)) (hexDigit (n.val % 16)) =
      some (UInt16.ofNat n.val) := by
  decide

theorem readUnits_of_letter {letter c : Char} (hletter : letter ≠ 'u')
    (h : unescape letter = some c) (rest : List Char) :
    readUnits ('\\' :: letter :: rest) =
      (readUnits rest).map fun read => (Utf16.encodeChar c ++ read.1, read.2) := by
  rw [readUnits.eq_def]
  dsimp only
  rw [if_neg (by decide), if_pos rfl]
  split
  · rename_i heq
    exact absurd (List.cons.inj heq).1 hletter
  · rename_i heq
    obtain ⟨rfl, rfl⟩ := List.cons.inj heq
    rw [h]
    cases readUnits rest <;> rfl
  · rename_i heq
    cases heq

/-- A character is read back, escaped or not. -/
theorem readUnits_escape (c : Char) (rest : List Char) :
    readUnits (escape c ++ rest) =
      (readUnits rest).map fun read => (Utf16.encodeChar c ++ read.1, read.2) := by
  unfold escape
  split_ifs with hquote hslash hback hfeed hline hreturn htab hcontrol
  · subst hquote
    exact readUnits_of_letter (by decide) rfl rest
  · subst hslash
    exact readUnits_of_letter (by decide) rfl rest
  · subst hback
    exact readUnits_of_letter (by decide) rfl rest
  · subst hfeed
    exact readUnits_of_letter (by decide) rfl rest
  · subst hline
    exact readUnits_of_letter (by decide) rfl rest
  · subst hreturn
    exact readUnits_of_letter (by decide) rfl rest
  · subst htab
    exact readUnits_of_letter (by decide) rfl rest
  · have hhex := readHex_control ⟨c.toNat, hcontrol⟩
    dsimp only at hhex
    have hunit : Utf16.encodeChar c = [UInt16.ofNat c.toNat] := by
      rw [Utf16.encodeChar, if_pos (by omega)]
    rw [readUnits.eq_def]
    dsimp only [cons_append, nil_append]
    rw [if_neg (by decide), if_pos rfl]
    show ((readHex _ _ _ _).bind fun unit =>
      (readUnits rest).bind fun read => some (unit :: read.1, read.2)) = _
    rw [hhex, hunit]
    cases readUnits rest <;> rfl
  · rw [singleton_append, readUnits.eq_def]
    dsimp only
    rw [if_neg hquote, if_neg hslash, if_neg hcontrol]
    cases readUnits rest <;> rfl

theorem readUnits_quoted (text rest : List Char) :
    readUnits (text.flatMap escape ++ '\x22' :: rest) = some (Utf16.encode text, rest) := by
  induction text with
  | nil =>
    rw [readUnits.eq_def]
    exact if_pos rfl
  | cons c text ih =>
    rw [flatMap_cons, append_assoc, readUnits_escape, ih]
    rfl

theorem readString_quoted (text rest : List Char) :
    readString (text.flatMap escape ++ '\x22' :: rest) = some (text, rest) := by
  rw [readString, readUnits_quoted]
  show (Utf16.decode (Utf16.encode text)).bind (fun content => some (content, rest)) = _
  rw [Utf16.decode_encode]
  rfl

/-! ### Words -/

theorem isWordChar_of_isDigit {c : Char} (h : c.isDigit = true) : isWordChar c = true := by
  simp [isWordChar, Char.isAlphanum, h]

theorem mem_of_takeWhile {p : Char → Bool} {s : List Char} {c : Char} (h : c ∈ s) :
    p c = true ∨ c ∈ s.dropWhile p := by
  rw [← takeWhile_append_dropWhile (p := p) (l := s), mem_append] at h
  exact h.imp_left mem_takeWhile_imp

theorem isWordChar_of_isExponent {s : List Char} (h : isExponent s = true) :
    ∀ c ∈ s, isWordChar c = true := by
  intro c hc
  unfold isExponent at h
  split at h
  · cases hc
  · rename_i e rest
    dsimp only at h
    rw [Bool.and_eq_true, Bool.and_eq_true, Bool.or_eq_true, decide_eq_true_eq,
      decide_eq_true_eq, all_eq_true] at h
    obtain ⟨⟨he, -⟩, hdigits⟩ := h
    rcases mem_cons.1 hc with rfl | hc
    · rcases he with rfl | rfl
      all_goals decide
    · split at hdigits
      · rcases mem_cons.1 hc with rfl | hc
        · decide
        · exact isWordChar_of_isDigit (hdigits c hc)
      · rcases mem_cons.1 hc with rfl | hc
        · decide
        · exact isWordChar_of_isDigit (hdigits c hc)
      · exact isWordChar_of_isDigit (hdigits c hc)

theorem isWordChar_of_isFraction {s : List Char} (h : isFraction s = true) :
    ∀ c ∈ s, isWordChar c = true := by
  intro c hc
  unfold isFraction at h
  split at h
  · rw [Bool.and_eq_true] at h
    rcases mem_cons.1 hc with rfl | hc
    · decide
    rcases mem_of_takeWhile (p := Char.isDigit) hc with hdigit | hc
    · exact isWordChar_of_isDigit hdigit
    · exact isWordChar_of_isExponent h.2 c hc
  · exact isWordChar_of_isExponent h c hc

theorem isWordChar_of_fraction {text : List Char}
    (h : isFraction (text.dropWhile Char.isDigit) = true) : ∀ c ∈ text, isWordChar c = true := by
  intro c hc
  rcases mem_of_takeWhile (p := Char.isDigit) hc with hdigit | hc
  · exact isWordChar_of_isDigit hdigit
  · exact isWordChar_of_isFraction h c hc

/-- A number is a word. -/
theorem Number.isWordChar_of_mem (value : Number) :
    value.1 ≠ [] ∧ ∀ c ∈ value.1, isWordChar c = true := by
  obtain ⟨text, h⟩ := value
  refine ⟨?_, ?_⟩
  · rintro rfl
    cases h
  unfold isNumber at h
  dsimp only at h ⊢
  rw [Bool.and_eq_true] at h
  have hfraction := h.2
  split at hfraction
  · intro c hc
    rcases mem_cons.1 hc with rfl | hc
    · decide
    · exact isWordChar_of_fraction hfraction c hc
  · exact isWordChar_of_fraction hfraction

theorem Number.ofWord_eq (value : Number) : ofWord value.1 = some (.number value) := by
  obtain ⟨text, h⟩ := value
  have hne : ∀ name : List Char, isNumber name = false → text ≠ name := by
    rintro name hname rfl
    rw [h] at hname
    cases hname
  rw [ofWord, if_neg (hne _ (by decide)), if_neg (hne _ (by decide)), if_neg (hne _ (by decide)),
    dif_pos h]

/-! ### Reading what is printed -/

/-- What follows a value does not prolong its last word. -/
def EndsWord (rest : List Char) : Prop := ∀ c ∈ rest.head?, isWordChar c = false

theorem endsWord_cons {c : Char} (h : isWordChar c = false) (rest : List Char) :
    EndsWord (c :: rest) := by
  intro d hd
  rw [head?_cons, Option.mem_some_iff] at hd
  exact hd ▸ h

theorem isWordChar_of_isSpace {c : Char} (h : isSpace c = true) : isWordChar c = false := by
  rw [isSpace] at h
  simp only [Bool.or_eq_true, decide_eq_true_eq] at h
  rcases h with ((rfl | rfl) | rfl) | rfl
  all_goals decide

/-- White space ends a word, and so does what follows it when there is none. -/
theorem endsWord_spaces {spaces : List Char} (hspaces : ∀ c ∈ spaces, isSpace c = true) {c : Char}
    (h : isWordChar c = false) (rest : List Char) : EndsWord (spaces ++ c :: rest) := by
  cases spaces with
  | nil => exact endsWord_cons h rest
  | cons d spaces => exact endsWord_cons (isWordChar_of_isSpace (hspaces d mem_cons_self)) _

/-- A layout of white space. -/
structure Layout.IsSpace (layout : Layout) : Prop where
  line : ∀ depth, ∀ c ∈ layout.line depth, isSpace c = true
  colon : ∀ c ∈ layout.colon, isSpace c = true

theorem Layout.isSpace_compact : compact.IsSpace :=
  ⟨fun _ _ h => absurd h not_mem_nil, fun _ h => absurd h not_mem_nil⟩

theorem Layout.isSpace_pretty : pretty.IsSpace := by
  refine ⟨fun depth c hc => ?_, fun c hc => ?_⟩
  · rcases mem_cons.1 hc with rfl | hc
    · decide
    · rw [eq_of_mem_replicate hc]
      decide
  · rw [mem_singleton.1 hc]
    decide

theorem skip_append {spaces : List Char} (h : ∀ c ∈ spaces, isSpace c = true) (rest : List Char) :
    skip (spaces ++ rest) = skip rest :=
  dropWhile_append_of_pos h

theorem skip_cons {c : Char} (h : isSpace c = false) (rest : List Char) :
    skip (c :: rest) = c :: rest :=
  dropWhile_cons_of_neg (by simp [h])

theorem readValue_append {spaces : List Char} (h : ∀ c ∈ spaces, isSpace c = true) (bound : ℕ)
    (rest : List Char) : readValue bound (spaces ++ rest) = readValue bound rest := by
  cases bound with
  | zero => rfl
  | succ bound => rw [readValue, readValue, skip_append h]

/-- The first element, and what follows it. -/
theorem readElements_succ (bound : ℕ) (text : List Char) :
    readElements (bound + 1) text = (readValue bound text).bind fun read =>
      match skip read.2 with
      | ']' :: rest => some (Values.cons read.1 .nil, rest)
      | ',' :: rest =>
        (readElements bound rest).bind fun others => some (.cons read.1 others.1, others.2)
      | _ => none := rfl

theorem readElements_append {spaces : List Char} (h : ∀ c ∈ spaces, isSpace c = true) (bound : ℕ)
    (rest : List Char) : readElements bound (spaces ++ rest) = readElements bound rest := by
  cases bound with
  | zero => rfl
  | succ bound => rw [readElements_succ, readElements_succ, readValue_append h]

theorem readFields_append {spaces : List Char} (h : ∀ c ∈ spaces, isSpace c = true) (bound : ℕ)
    (rest : List Char) : readFields bound (spaces ++ rest) = readFields bound rest := by
  cases bound with
  | zero => rfl
  | succ bound => rw [readFields, readFields, skip_append h]

theorem readValue_string (bound : ℕ) (rest : List Char) :
    readValue (bound + 1) ('\x22' :: rest) =
      (readString rest).map fun read => (.string read.1, read.2) := rfl

theorem readValue_array {rest : List Char} (h : (skip rest).head? ≠ some ']') (bound : ℕ) :
    readValue (bound + 1) ('[' :: rest) =
      (readElements bound rest).map fun read => (.array read.1, read.2) := by
  show (match skip rest with
    | ']' :: rest => some (Value.array .nil, rest)
    | _ => (readElements bound rest).map fun (elements, rest) => (Value.array elements, rest)) = _
  split
  · rename_i heq
    rw [heq] at h
    exact absurd rfl h
  · rfl

theorem readValue_object {rest : List Char} (h : (skip rest).head? ≠ some '}') (bound : ℕ) :
    readValue (bound + 1) ('{' :: rest) =
      (readFields bound rest).map fun read => (.object read.1, read.2) := by
  show (match skip rest with
    | '}' :: rest => some (Value.object .nil, rest)
    | _ => (readFields bound rest).map fun (fields, rest) => (Value.object fields, rest)) = _
  split
  · rename_i heq
    rw [heq] at h
    exact absurd rfl h
  · rfl

theorem readValue_word {word rest : List Char} (hne : word ≠ [])
    (hword : ∀ c ∈ word, isWordChar c = true) (hrest : EndsWord rest) (bound : ℕ) :
    readValue (bound + 1) (word ++ rest) = (ofWord word).map fun value => (value, rest) := by
  obtain ⟨c, cs, rfl⟩ := exists_cons_of_ne_nil hne
  have hc := hword c mem_cons_self
  have hplain : ∀ d, isWordChar d = false → c ≠ d := by
    rintro d hd rfl
    rw [hc] at hd
    cases hd
  have hspace : isSpace c = false := by
    rw [isSpace]
    simp [hplain ' ' (by decide), hplain '\n' (by decide), hplain '\r' (by decide),
      hplain '\t' (by decide)]
  have htake := takeWhile_exact hword hrest
  have hdrop := dropWhile_exact hword hrest
  rw [cons_append] at htake hdrop ⊢
  rw [readValue, skip_cons hspace]
  split
  · rename_i heq
    exact absurd (List.cons.inj heq).1 (hplain _ (by decide))
  · rename_i heq
    exact absurd (List.cons.inj heq).1 (hplain _ (by decide))
  · rename_i heq
    exact absurd (List.cons.inj heq).1 (hplain _ (by decide))
  · rw [htake, hdrop]

theorem readElements_last {bound : ℕ} {text rest tail : List Char} {value : Value}
    (h : readValue bound text = some (value, rest)) (hrest : skip rest = ']' :: tail) :
    readElements (bound + 1) text = some (.cons value .nil, tail) := by
  rw [readElements_succ, h, Option.bind_some, hrest]
  rfl

theorem readElements_cons {bound : ℕ} {text rest tail : List Char} {value : Value}
    (h : readValue bound text = some (value, rest)) (hrest : skip rest = ',' :: tail) :
    readElements (bound + 1) text =
      (readElements bound tail).map fun read => (.cons value read.1, read.2) := by
  rw [readElements_succ, h, Option.bind_some, hrest]
  show ((readElements bound tail).bind fun others =>
    some (Values.cons value others.1, others.2)) = _
  cases readElements bound tail <;> rfl

/-- What follows the value of a field. -/
theorem readFields_name {bound : ℕ} (name : List Char) {rest : List Char} :
    readFields (bound + 1) (quoted name ++ ':' :: rest) =
      (readValue bound rest).bind fun read =>
        match skip read.2 with
        | '}' :: rest => some (Fields.cons name read.1 .nil, rest)
        | ',' :: rest =>
          (readFields bound rest).bind fun fields => some (.cons name read.1 fields.1, fields.2)
        | _ => none := by
  rw [readFields, quoted, cons_append, append_assoc, skip_cons (by decide)]
  show ((readString (name.flatMap escape ++ '\x22' :: ':' :: rest)).bind fun read =>
    match skip read.2 with
    | ':' :: rest => (readValue bound rest).bind fun value =>
      match skip value.2 with
      | '}' :: rest => some (Fields.cons read.1 value.1 .nil, rest)
      | ',' :: rest =>
        (readFields bound rest).bind fun fields => some (.cons read.1 value.1 fields.1, fields.2)
      | _ => none
    | _ => none) = _
  rw [readString_quoted, Option.bind_some, skip_cons (by decide)]
  rfl

mutual

/-- A bound under which a value is read. -/
def rank : Value → ℕ
  | .array elements => rankElements elements + 1
  | .object fields => rankFields fields + 1
  | _ => 1

def rankElements : Values → ℕ
  | .nil => 0
  | .cons value rest => rank value + rankElements rest + 1

def rankFields : Fields → ℕ
  | .nil => 0
  | .cons _ value rest => rank value + rankFields rest + 1

end

/-- A value starts with a character that neither is white space nor ends an array. -/
theorem exists_print_eq_cons (layout : Layout) (depth : ℕ) (value : Value) :
    ∃ c tail, print layout depth value = c :: tail ∧ isSpace c = false ∧ c ≠ ']' := by
  have hword : ∀ {c}, isWordChar c = true → isSpace c = false ∧ c ≠ ']' := by
    intro c hc
    refine ⟨?_, ?_⟩
    · by_contra hspace
      rw [Bool.not_eq_false, isSpace] at hspace
      simp only [Bool.or_eq_true, decide_eq_true_eq] at hspace
      rcases hspace with ((rfl | rfl) | rfl) | rfl
      all_goals exact absurd hc (by decide)
    · rintro rfl
      exact absurd hc (by decide)
  cases value with
  | null => exact ⟨_, _, by rw [print], by decide, by decide⟩
  | bool value => cases value <;> exact ⟨_, _, by rw [print], by decide, by decide⟩
  | number value =>
    obtain ⟨hne, hmem⟩ := value.isWordChar_of_mem
    obtain ⟨c, tail, h⟩ := exists_cons_of_ne_nil hne
    exact ⟨c, tail, by rw [print, h], hword (hmem c (h ▸ mem_cons_self))⟩
  | string text => exact ⟨_, _, by rw [print, quoted], by decide, by decide⟩
  | array elements =>
    by_cases h : elements = .nil
    · exact ⟨_, _, by rw [h, print], by decide, by decide⟩
    · exact ⟨_, _, print_array layout depth h, by decide, by decide⟩
  | object fields =>
    by_cases h : fields = .nil
    · exact ⟨_, _, by rw [h, print], by decide, by decide⟩
    · exact ⟨_, _, print_object layout depth h, by decide, by decide⟩

theorem exists_printElements_eq_cons (layout : Layout) (depth : ℕ) {elements : Values}
    (h : elements ≠ .nil) :
    ∃ c tail, printElements layout depth elements = c :: tail ∧ isSpace c = false ∧ c ≠ ']' := by
  cases elements with
  | nil => exact absurd rfl h
  | cons value rest =>
    obtain ⟨c, tail, hc, hplain⟩ := exists_print_eq_cons layout depth value
    by_cases hrest : rest = .nil
    · exact ⟨c, tail, by rw [hrest, printElements, hc], hplain⟩
    · exact ⟨c, _, by rw [printElements_cons layout depth value hrest, hc, cons_append],
        hplain⟩

theorem exists_printFields_eq_cons (layout : Layout) (depth : ℕ) {fields : Fields}
    (h : fields ≠ .nil) : ∃ tail, printFields layout depth fields = '\x22' :: tail := by
  cases fields with
  | nil => exact absurd rfl h
  | cons name value rest =>
    by_cases hrest : rest = .nil
    · exact ⟨_, by rw [hrest, printFields, quoted, cons_append]⟩
    · exact ⟨_, by rw [printFields_cons layout depth name value hrest, quoted, cons_append]⟩

section Layout

variable {layout : Layout} (hlayout : layout.IsSpace)

include hlayout

mutual

/-- A printed value is read back, whatever stands behind it, unless it prolongs a word. -/
theorem readValue_print (depth : ℕ) : ∀ (value : Value) {bound : ℕ} {rest : List Char},
    rank value ≤ bound → EndsWord rest →
    readValue bound (print layout depth value ++ rest) = some (value, rest)
  | .null, bound + 1, rest, _, hrest => by
    rw [print, readValue_word (cons_ne_nil _ _) (all_eq_true.1 rfl) hrest]
    rfl
  | .bool true, bound + 1, rest, _, hrest => by
    rw [print, readValue_word (cons_ne_nil _ _) (all_eq_true.1 rfl) hrest]
    rfl
  | .bool false, bound + 1, rest, _, hrest => by
    rw [print, readValue_word (cons_ne_nil _ _) (all_eq_true.1 rfl) hrest]
    rfl
  | .number value, bound + 1, rest, _, hrest => by
    obtain ⟨hne, hmem⟩ := value.isWordChar_of_mem
    rw [print, readValue_word hne hmem hrest, value.ofWord_eq]
    rfl
  | .string text, bound + 1, rest, _, _ => by
    rw [print, quoted, cons_append, append_assoc, readValue_string]
    rw [singleton_append, readString_quoted]
    rfl
  | .array .nil, bound + 1, rest, _, _ => by
    rw [print, cons_append, readValue, skip_cons (by decide)]
    rfl
  | .object .nil, bound + 1, rest, _, _ => by
    rw [print, cons_append, readValue, skip_cons (by decide)]
    rfl
  | .array (.cons value elements), bound + 1, rest, hbound, _ => by
    have hne : Values.cons value elements ≠ .nil := nofun
    have hlines := hlayout.line depth
    rw [rank] at hbound
    rw [print_array layout depth hne, cons_append, append_assoc, append_assoc,
      append_assoc, singleton_append, readValue_array,
      readElements_append (hlayout.line _),
      readElements_print (depth + 1) (.cons value elements) hne (by omega) hlines]
    · rfl
    · obtain ⟨c, tail, hc, hspace, hplain⟩ :=
        exists_printElements_eq_cons layout (depth + 1) hne
      rw [skip_append (hlayout.line _), hc, cons_append, skip_cons hspace]
      simpa using hplain
  | .object (.cons name value fields), bound + 1, rest, hbound, _ => by
    have hne : Fields.cons name value fields ≠ .nil := nofun
    have hlines := hlayout.line depth
    rw [rank] at hbound
    rw [print_object layout depth hne, cons_append, append_assoc, append_assoc,
      append_assoc, singleton_append, readValue_object,
      readFields_append (hlayout.line _),
      readFields_print (depth + 1) (.cons name value fields) hne (by omega) hlines]
    · rfl
    · obtain ⟨tail, hc⟩ := exists_printFields_eq_cons layout (depth + 1) hne
      rw [skip_append (hlayout.line _), hc, cons_append, skip_cons (by decide)]
      simp

theorem readElements_print (depth : ℕ) : ∀ (elements : Values) {bound : ℕ}
    {spaces rest : List Char}, elements ≠ .nil → rankElements elements ≤ bound →
    (∀ c ∈ spaces, isSpace c = true) →
    readElements bound (printElements layout depth elements ++ (spaces ++ ']' :: rest)) =
      some (elements, rest)
  | .cons value .nil, bound + 1, spaces, rest, _, hbound, hspaces => by
    rw [rankElements, rankElements] at hbound
    rw [printElements]
    exact readElements_last (readValue_print depth value (by omega) (endsWord_spaces hspaces rfl _))
      (by rw [skip_append hspaces, skip_cons rfl])
  | .cons value (.cons next elements), bound + 1, spaces, rest, _, hbound, hspaces => by
    have hne : Values.cons next elements ≠ .nil := nofun
    rw [rankElements] at hbound
    rw [printElements_cons layout depth value hne, append_assoc, cons_append,
      readElements_cons (readValue_print depth value (by omega) (endsWord_cons rfl _))
        (skip_cons rfl _), append_assoc, readElements_append (hlayout.line _),
      readElements_print depth (.cons next elements) hne (by omega) hspaces]
    rfl

theorem readFields_print (depth : ℕ) : ∀ (fields : Fields) {bound : ℕ}
    {spaces rest : List Char}, fields ≠ .nil → rankFields fields ≤ bound →
    (∀ c ∈ spaces, isSpace c = true) →
    readFields bound (printFields layout depth fields ++ (spaces ++ '}' :: rest)) =
      some (fields, rest)
  | .cons name value .nil, bound + 1, spaces, rest, _, hbound, hspaces => by
    rw [rankFields, rankFields] at hbound
    rw [printFields, append_assoc, cons_append, readFields_name, append_assoc,
      readValue_append hlayout.colon,
      readValue_print depth value (by omega) (endsWord_spaces hspaces rfl _), Option.bind_some,
      skip_append hspaces, skip_cons rfl]
    rfl
  | .cons name value (.cons next other fields), bound + 1, spaces, rest, _, hbound, hspaces => by
    have hne : Fields.cons next other fields ≠ .nil := nofun
    rw [rankFields] at hbound
    rw [printFields_cons layout depth name value hne, append_assoc, cons_append,
      readFields_name, append_assoc, append_assoc, readValue_append hlayout.colon,
      cons_append,
      readValue_print depth value (by omega) (endsWord_cons rfl _), Option.bind_some,
      skip_cons rfl]
    show ((readFields bound _).bind fun read => some (Fields.cons name value read.1, read.2)) = _
    rw [append_assoc, readFields_append (hlayout.line _),
      readFields_print depth (.cons next other fields) hne (by omega) hspaces]
    rfl

end

end Layout

mutual

theorem rank_le_length (layout : Layout) (depth : ℕ) : ∀ value : Value,
    rank value ≤ (print layout depth value).length
  | .null => by simp [rank, print]
  | .bool true => by simp [rank, print]
  | .bool false => by simp [rank, print]
  | .number value => by
    rw [rank, print]
    · exact length_pos_iff.2 value.isWordChar_of_mem.1
    all_goals nofun
  | .string text => by simp [rank, print, quoted]
  | .array elements => by
    rw [rank]
    by_cases h : elements = .nil
    · rw [h, rankElements, print]
      decide
    · have hle := rankElements_le_length layout (depth + 1) elements h
      rw [print_array layout depth h]
      simp only [length_cons, length_append]
      omega
  | .object fields => by
    rw [rank]
    by_cases h : fields = .nil
    · rw [h, rankFields, print]
      decide
    · have hle := rankFields_le_length layout (depth + 1) fields h
      rw [print_object layout depth h]
      simp only [length_cons, length_append]
      omega

theorem rankElements_le_length (layout : Layout) (depth : ℕ) : ∀ elements : Values,
    elements ≠ .nil → rankElements elements ≤ (printElements layout depth elements).length + 1
  | .cons value rest, _ => by
    have hvalue := rank_le_length layout depth value
    rw [rankElements]
    by_cases h : rest = .nil
    · rw [h, rankElements, printElements]
      omega
    · have hle := rankElements_le_length layout depth rest h
      rw [printElements_cons layout depth value h]
      simp only [length_append, length_cons]
      omega

theorem rankFields_le_length (layout : Layout) (depth : ℕ) : ∀ fields : Fields,
    fields ≠ .nil → rankFields fields ≤ (printFields layout depth fields).length + 1
  | .cons name value rest, _ => by
    have hvalue := rank_le_length layout depth value
    rw [rankFields]
    by_cases h : rest = .nil
    · rw [h, rankFields, printFields]
      simp only [length_append, length_cons]
      omega
    · have hle := rankFields_le_length layout depth rest h
      rw [printFields_cons layout depth name value h]
      simp only [length_append, length_cons]
      omega

end

/-- **A printed value is read back**, whatever the layout of white space, and with white space
behind it. -/
theorem parse_print {layout : Layout} (hlayout : layout.IsSpace) (depth : ℕ) (value : Value)
    {spaces : List Char} (hspaces : ∀ c ∈ spaces, isSpace c = true) :
    parse (print layout depth value ++ spaces) = some value := by
  have hrank : rank value ≤ (print layout depth value ++ spaces).length + 1 := by
    have hle := rank_le_length layout depth value
    rw [length_append]
    omega
  have hends : EndsWord spaces := fun c hc =>
    isWordChar_of_isSpace (hspaces c (mem_of_mem_head? hc))
  have hskip : skip spaces = [] := dropWhile_eq_nil_iff.2 hspaces
  rw [parse, readValue_print hlayout depth value hrank hends]
  show (if skip spaces = [] then some value else none) = _
  rw [if_pos hskip]

/-! ### The characters of a printed value -/

theorem le_toNat_of_isWordChar {c : Char} (h : isWordChar c = true) : 0x20 ≤ c.toNat := by
  by_contra hlt
  have hcontrol : ∀ n : Fin 32, isWordChar (Char.ofNat n) = false := by decide
  have hc := hcontrol ⟨c.toNat, not_le.1 hlt⟩
  rw [Char.ofNat_toNat, h] at hc
  cases hc

theorem le_toNat_hexDigit {n : ℕ} (h : n < 16) : 0x20 ≤ (hexDigit n).toNat := by
  have hall : ∀ n : Fin 16, 0x20 ≤ (hexDigit n).toNat := by decide
  exact hall ⟨n, h⟩

theorem le_toNat_of_mem_escape {c d : Char} (h : d ∈ escape c) : 0x20 ≤ d.toNat := by
  have hpair : ∀ letter : Char, 0x20 ≤ letter.toNat → d ∈ ['\\', letter] → 0x20 ≤ d.toNat := by
    intro letter hletter hd
    rcases mem_pair.1 hd with rfl | rfl
    · decide
    · exact hletter
  unfold escape at h
  split_ifs at h with hquote hslash hback hfeed hline hreturn htab hcontrol
  · exact hpair _ (by decide) h
  · exact hpair _ (by decide) h
  · exact hpair _ (by decide) h
  · exact hpair _ (by decide) h
  · exact hpair _ (by decide) h
  · exact hpair _ (by decide) h
  · exact hpair _ (by decide) h
  · have hhigh := le_toNat_hexDigit (show c.toNat / 16 < 16 by omega)
    have hlow := le_toNat_hexDigit (Nat.mod_lt c.toNat (show 0 < 16 by decide))
    simp only [mem_cons, not_mem_nil, or_false] at h
    rcases h with rfl | rfl | rfl | rfl | rfl | rfl
    · decide
    · decide
    · decide
    · decide
    · exact hhigh
    · exact hlow
  · rw [mem_singleton.1 h]
    omega

theorem le_toNat_of_mem_quoted {text : List Char} {c : Char} (h : c ∈ quoted text) :
    0x20 ≤ c.toNat := by
  rw [quoted, mem_cons, mem_append, mem_singleton, mem_flatMap] at h
  rcases h with rfl | ⟨d, -, hd⟩ | rfl
  · decide
  · exact le_toNat_of_mem_escape hd
  · decide

/-! ### Another layout -/

section Relayout

variable {layout other : Layout} {g : Char → List Char}

theorem flatMap_eq_self {text : List Char} (h : ∀ c ∈ text, g c = [c]) :
    text.flatMap g = text := by
  induction text with
  | nil => rfl
  | cons c text ih =>
    rw [flatMap_cons, h c mem_cons_self, ih fun d hd => h d (mem_cons_of_mem _ hd)]
    rfl

/-- What is put for a character makes one layout the other, and leaves alone what is no control
character. -/
structure Relayout (layout other : Layout) (g : Char → List Char) (shift : ℕ) : Prop where
  plain : ∀ c : Char, 0x20 ≤ c.toNat → g c = [c]
  line : ∀ depth, (layout.line depth).flatMap g = other.line (depth + shift)
  colon : layout.colon.flatMap g = other.colon

variable {shift : ℕ} (h : Relayout layout other g shift)

include h

theorem Relayout.cons {c : Char} (hc : 0x20 ≤ c.toNat) (text : List Char) :
    (c :: text).flatMap g = c :: text.flatMap g := by
  rw [flatMap_cons, h.plain c hc, singleton_append]

theorem Relayout.flatMap_quoted (text : List Char) : (quoted text).flatMap g = quoted text :=
  flatMap_eq_self fun c hc => h.plain c (le_toNat_of_mem_quoted hc)

mutual

/-- Replacing the characters of a layout is printing with the other one. -/
theorem Relayout.flatMap_print (depth : ℕ) : ∀ value : Value,
    (print layout depth value).flatMap g = print other (depth + shift) value
  | .null => by
    rw [print, print]
    exact flatMap_eq_self fun c hc =>
      h.plain c (le_toNat_of_isWordChar (all_eq_true.1 rfl c hc))
  | .bool true => by
    rw [print, print]
    exact flatMap_eq_self fun c hc =>
      h.plain c (le_toNat_of_isWordChar (all_eq_true.1 rfl c hc))
  | .bool false => by
    rw [print, print]
    exact flatMap_eq_self fun c hc =>
      h.plain c (le_toNat_of_isWordChar (all_eq_true.1 rfl c hc))
  | .number value => by
    rw [print, print]
    exact flatMap_eq_self fun c hc =>
      h.plain c (le_toNat_of_isWordChar (value.isWordChar_of_mem.2 c hc))
  | .string text => by
    rw [print, print, h.flatMap_quoted]
  | .array elements => by
    by_cases hne : elements = .nil
    · rw [hne, print, print, h.cons (by decide), h.cons (by decide)]
      rfl
    · have helements := Relayout.flatMap_printElements (depth + 1) elements hne
      rw [print_array layout depth hne, print_array other (depth + shift) hne, h.cons (by decide),
        flatMap_append, flatMap_append, flatMap_append, h.line, h.line, helements,
        h.cons (by decide), Nat.add_right_comm]
      rfl
  | .object fields => by
    by_cases hne : fields = .nil
    · rw [hne, print, print, h.cons (by decide), h.cons (by decide)]
      rfl
    · have hfields := Relayout.flatMap_printFields (depth + 1) fields hne
      rw [print_object layout depth hne, print_object other (depth + shift) hne, h.cons (by decide),
        flatMap_append, flatMap_append, flatMap_append, h.line, h.line, hfields,
        h.cons (by decide), Nat.add_right_comm]
      rfl

theorem Relayout.flatMap_printElements (depth : ℕ) : ∀ elements : Values, elements ≠ .nil →
    (printElements layout depth elements).flatMap g = printElements other (depth + shift) elements
  | .cons value rest, _ => by
    have hvalue := Relayout.flatMap_print depth value
    by_cases hne : rest = .nil
    · rw [hne, printElements, printElements, hvalue]
    · have hrest := Relayout.flatMap_printElements depth rest hne
      rw [printElements_cons layout depth value hne,
        printElements_cons other (depth + shift) value hne, flatMap_append, hvalue,
        h.cons (by decide), flatMap_append, h.line, hrest]

theorem Relayout.flatMap_printFields (depth : ℕ) : ∀ fields : Fields, fields ≠ .nil →
    (printFields layout depth fields).flatMap g = printFields other (depth + shift) fields
  | .cons name value rest, _ => by
    have hvalue := Relayout.flatMap_print depth value
    by_cases hne : rest = .nil
    · rw [hne, printFields, printFields, flatMap_append, h.flatMap_quoted, h.cons (by decide),
        flatMap_append, h.colon, hvalue]
    · have hrest := Relayout.flatMap_printFields depth rest hne
      rw [printFields_cons layout depth name value hne,
        printFields_cons other (depth + shift) name value hne, flatMap_append,
        h.flatMap_quoted, h.cons (by decide), flatMap_append, flatMap_append, h.colon,
        hvalue, h.cons (by decide), flatMap_append, h.line, hrest]

end

end Relayout

/-- The characters of a printed value are no control characters, those of its layout apart: what
erases the others would leave it as it is. -/
theorem mem_print {layout : Layout} {p : Char → Bool} (hplain : ∀ c : Char, 0x20 ≤ c.toNat → p c)
    (hline : ∀ depth, ∀ c ∈ layout.line depth, p c) (hcolon : ∀ c ∈ layout.colon, p c) {depth : ℕ}
    {value : Value} {c : Char} (hc : c ∈ print layout depth value) : p c := by
  have hkeep : ∀ {c : Char}, p c → (if p c then [c] else []) = [c] := fun h => if_pos h
  have hrelayout : Relayout layout layout (fun c => if p c then [c] else []) 0 :=
    ⟨fun c hc => hkeep (hplain c hc),
      fun depth => flatMap_eq_self fun c hc => hkeep (hline depth c hc),
      flatMap_eq_self fun c hc => hkeep (hcolon c hc)⟩
  have hself := hrelayout.flatMap_print depth value
  rw [Nat.add_zero] at hself
  rw [← hself, mem_flatMap] at hc
  obtain ⟨d, -, hd⟩ := hc
  split_ifs at hd with hp
  · rwa [mem_singleton.1 hd]
  · exact absurd hd not_mem_nil

/-! ### Indenting -/

/-- Two blanks behind every line feed. -/
def indent (text : List Char) : List Char :=
  text.flatMap fun c => if c = '\n' then ['\n', ' ', ' '] else [c]

theorem indent_print (depth : ℕ) (value : Value) :
    indent (print .pretty depth value) = print .pretty (depth + 1) value := by
  refine Relayout.flatMap_print ⟨fun c hc => if_neg ?_, fun depth => ?_, rfl⟩ depth value
  · rintro rfl
    exact absurd hc (by decide)
  · have hblanks : ∀ c ∈ List.replicate (2 * depth) ' ',
        (if c = '\n' then ['\n', ' ', ' '] else [c]) = [c] := by
      intro c hc
      rw [eq_of_mem_replicate hc]
      rfl
    show (['\n', ' ', ' '] ++ List.flatMap _ _) = '\n' :: List.replicate (2 * (depth + 1)) ' '
    rw [flatMap_eq_self hblanks, Nat.mul_succ, Nat.add_comm, replicate_add]
    rfl

theorem indent_of_not_mem {text : List Char} (h : '\n' ∉ text) : indent text = text :=
  flatMap_eq_self fun c hc => if_neg fun hline : c = '\n' => h (hline ▸ hc)

theorem indent_append_newline (line rest : List Char) :
    indent (line ++ '\n' :: rest) = indent line ++ (['\n', ' ', ' '] ++ indent rest) :=
  flatMap_append

/-- Indenting is putting the blanks between the lines. -/
theorem intercalate_lines {text : List Char} (hreturn : '\r' ∉ text)
    (hend : text.getLast? ≠ some '\n') :
    List.intercalate ['\n', ' ', ' '] (lines text) = indent text := by
  induction hlen : text.length using Nat.strongRecOn generalizing text with
  | ind n ih =>
    subst hlen
    by_cases hmem : '\n' ∈ text
    · obtain ⟨line, rest, rfl, hline⟩ := eq_append_cons_of_mem hmem
      have hreturn' : line.getLast? ≠ some '\r' := fun e =>
        hreturn (mem_append_left _ (mem_of_getLast? e))
      have hrest : rest ≠ [] := by
        rintro rfl
        exact hend getLast?_concat
      have hlast : (line ++ '\n' :: rest).getLast? = rest.getLast? := by
        rw [getLast?_append_of_ne_nil _ (cons_ne_nil _ _),
          getLast?_cons_of_ne_nil hrest]
      have hlines := ih rest.length (by simp; omega)
        (fun h => hreturn (mem_append_right _ (mem_cons_of_mem _ h)))
        (fun h => hend (hlast.trans h)) rfl
      rw [lines_append_newline hline, if_neg hreturn',
        intercalate_cons_of_ne_nil (lines_ne_nil hrest), hlines, indent_append_newline,
        indent_of_not_mem hline, append_assoc]
    · rcases eq_or_ne text [] with rfl | hne
      · rfl
      · rw [lines_of_not_mem hmem hne, intercalate_singleton, indent_of_not_mem hmem]

end Json
