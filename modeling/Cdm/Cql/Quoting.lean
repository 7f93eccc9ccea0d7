import Cdm.Cql.Schema
import Cdm.Lib.CqlTokens

/-!
# Names in statements

Every name of a statement goes through `Identifier.format`, which first guesses whether its input is
already CQL: a name in quotation marks, or a function of a name.  Any other name is read back from
its text as what it is.  Of a function of a name the argument is formatted as the name is, unless it
starts and ends with quotation marks: then it is taken to be formatted already.
-/

namespace Cdm

open Text

namespace Identifier

/-! ### Reading a name -/

/-- The name of a token to a parser that reserves some words: what stands in quotation marks, or a
word in lower case, if it starts with a letter and is not reserved. -/
def readToken (reserves : List Char → Bool) : Cql.Token → Option (List Char)
  | .name text => if text.isEmpty then none else some text
  | .word text =>
    if text.head?.any Char.isAlpha && !reserves text then some (toLower text) else none
  | _ => none

/-- The name that a CQL parser reads from a text that is one identifier. -/
def read (reserves : List Char → Bool) (text : String) : Option String :=
  match Cql.lex text.toList with
  | some [token] => (readToken reserves token).map String.ofList
  | _ => none

/-- A name of neither of the shapes that are passed through: in quotation marks and without white
space, or a function of something. -/
structure Ordinary (name : String) : Prop where
  ne_empty : name ≠ ""
  not_quoted : isQuoted name.toList = false
  not_function : splitFunctionForm name.toList = none

/-- A plain name after an underscore. -/
def isUnderscored (name : List Char) : Bool := name.head? = some '_' && name.all isPlainChar

/-! ### Writing a name -/

theorem quote_eq (name : List Char) : quote name = quoted doubleQuote name := by
  simp [quote, quoted, doubled]

theorem formatWithin_of_ordinary {name : String} (h : Ordinary name) (fuel : ℕ) :
    formatWithin (fuel + 1) name.toList =
      if needsQuoting name.toList then quoted doubleQuote name.toList else name.toList := by
  have hne : name.toList.isEmpty = false := by
    rw [List.isEmpty_eq_false_iff]
    intro hnil
    exact h.ne_empty (String.toList_eq_nil_iff.1 hnil)
  rw [formatWithin, hne, h.not_quoted, h.not_function, quote_eq]
  rfl

theorem format_of_ordinary {name : String} (h : Ordinary name) :
    (format name).toList =
      if needsQuoting name.toList then quoted doubleQuote name.toList else name.toList := by
  rw [format, String.toList_ofList, formatWithin_of_ordinary h]

/-- What needs no quoting is plain, or a plain name after an underscore, and not reserved. -/
theorem needsQuoting_eq_false_iff {name : List Char} : needsQuoting name = false ↔
    (isPlain name = true ∨ isUnderscored name = true) ∧ isReserved name = false := by
  cases name with
  | nil => simp [needsQuoting, isPlain, isUnderscored]
  | cons c cs =>
    have hall : (cs.all fun c => c.isLower || c.isDigit || c == '_') = cs.all isPlainChar := rfl
    rw [needsQuoting, hall, isPlain, isUnderscored]
    simp only [List.head?_cons, List.all_cons, Bool.or_eq_false_iff, Bool.not_eq_false',
      Bool.and_eq_true, Bool.or_eq_true, beq_iff_eq, decide_eq_true_eq, Option.some_inj]
    refine and_congr_left fun _ => ?_
    constructor
    · rintro ⟨hc | rfl, hcs⟩
      · exact .inl ⟨hc, hcs⟩
      · exact .inr ⟨rfl, by decide, hcs⟩
    · rintro (⟨hc, hcs⟩ | ⟨rfl, -, hcs⟩)
      · exact ⟨.inl hc, hcs⟩
      · exact ⟨.inr rfl, hcs⟩

theorem isPlainChar_of_needsQuoting {name : List Char} (h : needsQuoting name = false) :
    name ≠ [] ∧ ∀ c ∈ name, isPlainChar c = true := by
  rcases (needsQuoting_eq_false_iff.1 h).1 with hplain | hunder
  · exact isPlainChar_of_isPlain hplain
  · rw [isUnderscored, Bool.and_eq_true, List.all_eq_true] at hunder
    refine ⟨?_, hunder.2⟩
    rintro rfl
    exact absurd hunder.1 (by decide)

theorem isWordChar_of_isPlainChar {c : Char} (h : isPlainChar c = true) :
    Cql.isWordChar c = true := by
  rw [isPlainChar, Bool.or_eq_true, Bool.or_eq_true] at h
  rw [Cql.isWordChar, Char.isAlphanum, isAlpha_eq]
  rcases h with (h | h) | h
  · simp [h]
  · simp [h]
  · simp [h]

/-- The token of a name in a statement. -/
def nameToken (name : String) : Cql.Token :=
  if needsQuoting name.toList then .name name.toList else .word name.toList

/-- A name is one token of the statement. -/
theorem lex_format {name : String} (h : Ordinary name) :
    Cql.lex (format name).toList = some [nameToken name] := by
  rw [format_of_ordinary h, nameToken]
  split_ifs with hquoting
  · exact Cql.lex_quoted (.inl rfl) name.toList
  · obtain ⟨hne, hchars⟩ := isPlainChar_of_needsQuoting (Bool.eq_false_iff.2 hquoting)
    exact Cql.lex_word hne fun c hc => isWordChar_of_isPlainChar (hchars c hc)

/-- The token is read as the name, unless it is a word that does not start with a letter. -/
theorem readToken_nameToken {reserves : List Char → Bool}
    (hreserves : ∀ word, reserves word = true → isReserved word = true) {name : String}
    (hne : name ≠ "") (hunder : isUnderscored name.toList = false) :
    readToken reserves (nameToken name) = some name.toList := by
  rw [nameToken]
  split_ifs with hquoting
  · have hempty : name.toList.isEmpty = false := by
      rw [List.isEmpty_eq_false_iff]
      intro hnil
      exact hne (String.toList_eq_nil_iff.1 hnil)
    rw [readToken, hempty]
    rfl
  · obtain ⟨hforms, hreserved⟩ := needsQuoting_eq_false_iff.1 (Bool.eq_false_iff.2 hquoting)
    have hplain : isPlain name.toList = true := by
      rcases hforms with hplain | hword
      · exact hplain
      · rw [hunder] at hword
        cases hword
    have hhead : name.toList.head?.any Char.isAlpha = true := by
      cases hchars : name.toList with
      | nil => rw [hchars] at hplain; cases hplain
      | cons c cs =>
        rw [hchars, isPlain, Bool.and_eq_true] at hplain
        show c.isAlpha = true
        rw [isAlpha_eq, hplain.1, Bool.or_true]
    have hword : reserves name.toList = false := by
      by_contra hword
      rw [hreserves _ (by simpa using hword)] at hreserved
      cases hreserved
    rw [readToken, hhead, hword, toLower_of_isPlain hplain]
    rfl

/-! ### Reading back -/

theorem undouble_cons_of_ne {c : Char} (h : c ≠ doubleQuote) (s : List Char) :
    undouble (c :: s) = c :: undouble s := by
  cases s with
  | nil => rfl
  | cons d s => rw [undouble, if_neg (by simp [h])]

theorem undouble_doubled (s : List Char) : undouble (doubled doubleQuote s) = s := by
  induction s with
  | nil => rfl
  | cons c s ih =>
    by_cases hc : c = doubleQuote
    · subst hc
      rw [doubled_cons_self, undouble, if_pos ⟨rfl, rfl⟩, ih]
    · rw [doubled_cons_of_ne hc, undouble_cons_of_ne hc, ih]

theorem alreadyQuoted_quoted (s : List Char) :
    alreadyQuoted (quoted doubleQuote s) = true := by
  have hend : endsWith doubleQuote (quoted doubleQuote s) = true :=
    endsWith_append (doubleQuote :: doubled doubleQuote s) _
  rw [alreadyQuoted, hend]
  simp [quoted]

theorem trim_quoted (s : List Char) :
    trim (quoted doubleQuote s) = quoted doubleQuote s := by
  have hspace : isWhitespace doubleQuote = false := by decide
  have hfront : (quoted doubleQuote s).dropWhile isWhitespace =
      quoted doubleQuote s := List.dropWhile_cons_of_neg (by simp [hspace])
  have hback : (quoted doubleQuote s).reverse.dropWhile isWhitespace =
      (quoted doubleQuote s).reverse := by
    simp [quoted, hspace]
  rw [trim, hfront, hback, List.reverse_reverse]

/-- A name in quotation marks is read back, with white space and without. -/
theorem unformat_quoted (s : List Char) :
    unformat (String.ofList (quoted doubleQuote s)) = String.ofList s := by
  have hinner : undouble (quoted doubleQuote s).tail.dropLast = s := by
    simp [quoted, undouble_doubled]
  have hcontains : (quoted doubleQuote s).contains doubleQuote = true := by
    simp [quoted]
  simp only [unformat, String.toList_ofList, hcontains, Bool.true_or, trim_quoted,
    alreadyQuoted_quoted, hinner, ↓reduceIte, ite_self]

/-- A plain name is read back as it is. -/
theorem unformat_of_isPlainChar {name : String} (h : ∀ c ∈ name.toList, isPlainChar c = true) :
    unformat name = name := by
  have hquote : name.toList.contains doubleQuote = false := by
    rw [List.contains_eq_mem, decide_eq_false_iff_not]
    intro hmem
    exact absurd (h _ hmem) (by decide)
  have hspace : name.toList.any isWhitespace = false := by
    rw [List.any_eq_false]
    intro c hc
    rw [isWhitespace_of_isPlainChar (h c hc)]
    exact Bool.false_ne_true
  have hquoted : isQuoted name.toList = false := by
    rw [isQuoted, alreadyQuoted]
    cases hchars : name.toList with
    | nil => rfl
    | cons c cs =>
      have hc : c ≠ doubleQuote := by
        rintro rfl
        exact absurd (h _ (by rw [hchars]; exact List.mem_cons_self)) (by decide)
      simp [hc]
  simp only [unformat, hquoted, hquote, hspace, Bool.or_self, Bool.false_eq_true, ↓reduceIte]

theorem unformat_format {name : String} (h : Ordinary name) : unformat (format name) = name := by
  have hformat := format_of_ordinary h
  split_ifs at hformat with hquoting
  · rw [← String.ofList_toList (s := format name), hformat, unformat_quoted, String.ofList_toList]
  · rw [String.toList_inj.1 hformat]
    exact unformat_of_isPlainChar (isPlainChar_of_needsQuoting (Bool.eq_false_iff.2 hquoting)).2

/-! ### A function of a name -/

theorem splitFunctionForm_ttl (argument : List Char) :
    splitFunctionForm ("TTL(".toList ++ (argument ++ [')'])) = some ("TTL".toList, argument) := by
  have hhead : ("TTL(".toList ++ (argument ++ [')'])).takeWhile (· ≠ '(') = "TTL".toList := rfl
  have htail : ("TTL(".toList ++ (argument ++ [')'])).dropWhile (· ≠ '(') =
      '(' :: (argument ++ [')']) := rfl
  have hend : endsWith ')' ("TTL(".toList ++ (argument ++ [')'])) = true := by
    rw [← List.append_assoc]
    exact endsWith_append _ _
  simp only [splitFunctionForm, hhead, htail, hend]
  simp

theorem format_ttl {name : String} (h : Ordinary name) :
    format ("TTL(" ++ name ++ ")") =
      "TTL(" ++ (if alreadyQuoted name.toList then name else format name) ++ ")" := by
  have hchars : ("TTL(" ++ name ++ ")").toList = "TTL(".toList ++ (name.toList ++ [')']) := by simp
  have hlen : ("TTL(".toList ++ (name.toList ++ [')'])).length = (name.toList.length + 4) + 1 := by
    simp
  have hquoted : isQuoted ("TTL(".toList ++ (name.toList ++ [')'])) = false := rfl
  have hempty : ("TTL(".toList ++ (name.toList ++ [')'])).isEmpty = false := rfl
  have hargument : (if alreadyQuoted name.toList then name else format name).toList =
      if alreadyQuoted name.toList then name.toList
      else formatWithin (name.toList.length + 5) name.toList := by
    split_ifs
    · rfl
    · rw [format_of_ordinary h, formatWithin_of_ordinary h]
  rw [← String.toList_inj, format, String.toList_ofList, hchars, hlen, formatWithin, hempty, hquoted,
    splitFunctionForm_ttl, String.toList_append, String.toList_append, hargument]
  simp

/-- A name is left unquoted where it is plain and not reserved. -/
theorem format_eq {name : String} (h : Ordinary name) (hunder : isUnderscored name.toList = false) :
    format name = if isPlain name.toList && !isReserved name.toList then name
      else String.ofList (quote name.toList) := by
  have hneeds : needsQuoting name.toList =
      !(isPlain name.toList && !isReserved name.toList) := by
    have hiff : needsQuoting name.toList = false ↔ _ := needsQuoting_eq_false_iff
    rw [hunder] at hiff
    cases hneeds : needsQuoting name.toList with
    | false =>
      obtain ⟨hplain | hfalse, hreserved⟩ := hiff.1 hneeds
      · rw [hplain, hreserved]
        rfl
      · cases hfalse
    | true =>
      rw [hneeds] at hiff
      cases hplain : isPlain name.toList with
      | false => rfl
      | true =>
        cases hreserved : isReserved name.toList with
        | true => rfl
        | false => exact absurd (hiff.2 ⟨.inl hplain, hreserved⟩) (by simp)
  rw [← String.toList_inj, format_of_ordinary h, hneeds, quote_eq]
  cases isPlain name.toList && !isReserved name.toList with
  | true => rfl
  | false => simp

/-- How an ordinary name is written, and read back by a parser whose reserved words are in the
table. -/
theorem format_faithful {reserves : List Char → Bool}
    (hreserves : ∀ word, reserves word = true → isReserved word = true) {name : String}
    (h : Ordinary name) :
    (isUnderscored name.toList = false →
      read reserves (format name) = some name ∧
        format name = if isPlain name.toList && !isReserved name.toList then name
          else String.ofList (quote name.toList)) ∧
      unformat (format name) = name ∧
      (∀ other, Ordinary other → format other = format name → other = name) ∧
      format ("TTL(" ++ name ++ ")") =
        "TTL(" ++ (if alreadyQuoted name.toList then name else format name) ++ ")" := by
  refine ⟨fun hunder => ⟨?_, ?_⟩, unformat_format h, ?_, format_ttl h⟩
  · rw [read, lex_format h]
    show (readToken reserves (nameToken name)).map String.ofList = some name
    rw [readToken_nameToken hreserves h.ne_empty hunder, Option.map_some, String.ofList_toList]
  · exact format_eq h hunder
  · intro other hother heq
    rw [← unformat_format hother, heq, unformat_format h]

/-! ### Names -/

/-- A name in quotation marks with a space in it is quoted again, but not as the argument of a
function.  And a name that starts with an underscore is not quoted, where a word starts with a
letter. -/
theorem format_not_faithful :
    (Ordinary "\"a b\"" ∧
      format ("TTL(" ++ "\"a b\"" ++ ")") ≠ "TTL(" ++ format "\"a b\"" ++ ")") ∧
      Ordinary "_hidden" ∧ format "_hidden" = "_hidden" ∧
      read isReserved (format "_hidden") = none :=
  ⟨⟨⟨by decide, by decide, by decide⟩, by decide⟩, ⟨by decide, by decide, by decide⟩, by decide,
    by decide⟩

/-- A parser that reserves a single word reads it back. -/
theorem format_faithful_order :
    (isUnderscored "order".toList = false →
      read (· = "order".toList) (format "order") = some "order" ∧
        format "order" = if isPlain "order".toList && !isReserved "order".toList then "order"
          else String.ofList (quote "order".toList)) ∧
      unformat (format "order") = "order" ∧
      (∀ other, Ordinary other → format other = format "order" → other = "order") ∧
      format ("TTL(" ++ "order" ++ ")") =
        "TTL(" ++ (if alreadyQuoted "order".toList then "order" else format "order") ++ ")" :=
  format_faithful (fun word h => by rw [of_decide_eq_true h]; decide)
    ⟨by decide, by decide, by decide⟩

end Identifier

end Cdm
