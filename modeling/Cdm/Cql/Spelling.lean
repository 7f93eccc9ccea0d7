import Cdm.Cql.Quoting

/-!
# Names and their spellings

`Identifier.format` leaves some names as they are, and `Identifier.unformat` reads some names back
as something else.  A reader of a name that is written with `format` either takes the text as it is,
or reads it back with `unformat`, or reads it back twice; each of them finds the name under a
condition on the name alone.
-/

namespace Cdm

open List Text

namespace Identifier

/-- A name that is written as it is: one in quotation marks without white space, one that needs no
quoting, or a function of an argument in quotation marks or of such a name. -/
inductive Verbatim : List Char → Prop
  | nil : Verbatim []
  | quoted {name : List Char} (h : isQuoted name = true) : Verbatim name
  | plain {name : List Char} (h : needsQuoting name = false) : Verbatim name
  | ofQuoted {name function argument : List Char}
      (hform : splitFunctionForm name = some (function, argument))
      (h : alreadyQuoted argument = true) : Verbatim name
  | ofVerbatim {name function argument : List Char}
      (hform : splitFunctionForm name = some (function, argument))
      (h : Verbatim argument) : Verbatim name

/-! ### Functions of a name -/

theorem splitFunctionForm_eq_some {name function argument : List Char}
    (h : splitFunctionForm name = some (function, argument)) :
    name = function ++ '(' :: (argument ++ [')']) ∧ function ≠ [] ∧
      ∀ c ∈ function, c.isAlphanum = true ∨ c = '_' := by
  have hname := takeWhile_append_dropWhile (p := fun c => decide (c ≠ '(')) (l := name)
  unfold splitFunctionForm at h
  dsimp only at h
  split at h
  · cases h
  · rename_i c rest hrest
    split_ifs at h with hend hhead
    obtain ⟨rfl, rfl⟩ := Prod.mk.inj (Option.some.inj h)
    have hopen : c = '(' := by
      have hnot := head?_dropWhile_not (fun c => decide (c ≠ '(')) name
      rw [hrest] at hnot
      simpa using hnot
    rw [hrest, hopen] at hname
    rw [Bool.not_eq_true, Bool.not_eq_false', endsWith, decide_eq_true_eq, ← hname] at hend
    rw [Bool.or_eq_true, not_or, Bool.not_eq_true, List.isEmpty_eq_false_iff, Bool.not_eq_true,
      Bool.not_eq_false', all_eq_true] at hhead
    have hlast : rest.dropLast ++ [')'] = rest := by
      rcases eq_nil_or_concat rest with rfl | ⟨init, d, rfl⟩
      · rw [getLast?_append_of_ne_nil _ (cons_ne_nil _ _)] at hend
        exact absurd hend (by decide)
      · rw [concat_eq_append, ← cons_append, ← append_assoc,
          getLast?_concat] at hend
        rw [concat_eq_append, dropLast_concat, Option.some.inj hend]
    refine ⟨by rw [hlast, hname], hhead.1, fun d hd => ?_⟩
    simpa using hhead.2 d hd

theorem isWhitespace_of_isAlphanum {c : Char} (h : c.isAlphanum = true ∨ c = '_') :
    isWhitespace c = false ∧ c ≠ doubleQuote := by
  rcases h with h | rfl
  · rw [Char.isAlphanum, Bool.or_eq_true] at h
    rcases h with h | h
    · refine ⟨isWhitespace_of_isAlpha h, ?_⟩
      rintro rfl
      exact absurd h (by decide)
    · refine ⟨isWhitespace_of_isDigit h, ?_⟩
      rintro rfl
      exact absurd h (by decide)
  · decide

/-- A function of something has no white space around it, and starts with no quotation mark. -/
theorem trim_function {function argument : List Char} (hne : function ≠ [])
    (hchars : ∀ c ∈ function, c.isAlphanum = true ∨ c = '_') :
    trim (function ++ '(' :: (argument ++ [')'])) = function ++ '(' :: (argument ++ [')']) ∧
      alreadyQuoted (function ++ '(' :: (argument ++ [')'])) = false := by
  obtain ⟨c, rest, rfl⟩ := exists_cons_of_ne_nil hne
  obtain ⟨hspace, hquote⟩ := isWhitespace_of_isAlphanum (hchars c mem_cons_self)
  constructor
  · have htrim := trim_append (w := []) (s := c :: rest ++ '(' :: (argument ++ [')']))
      (by simp) (by simp [hspace]) (by
        rw [← cons_append, ← append_assoc, getLast?_concat]
        intro d hd
        cases hd
        rfl)
    exact htrim
  · simp [alreadyQuoted, hquote]

/-! ### Names that are written as they are -/

theorem splitFunctionForm_eq_none {name : List Char} (h : needsQuoting name = false) :
    splitFunctionForm name = none := by
  cases hform : splitFunctionForm name with
  | none => rfl
  | some form =>
    obtain ⟨rfl, -, -⟩ := splitFunctionForm_eq_some hform
    have hparen := (isPlainChar_of_needsQuoting h).2 '(' (by simp)
    exact absurd hparen (by decide)

theorem quote_ne_self (name : List Char) : quote name ≠ name := by
  intro h
  have hlength := congrArg List.length h
  have hle : ∀ s : List Char, s.length ≤ (s.flatMap fun c =>
      if c = doubleQuote then [doubleQuote, doubleQuote] else [c]).length := by
    intro s
    induction s with
    | nil => exact Nat.le_refl _
    | cons c s ih =>
      rw [flatMap_cons, length_append, length_cons]
      split_ifs
      · rw [length_cons, length_singleton]
        omega
      · rw [length_singleton]
        omega
  have hname := hle name
  simp only [quote, length_append, length_singleton] at hlength
  omega

theorem formatWithin_eq_self_iff {name : List Char} {fuel : ℕ} (h : name.length < fuel) :
    formatWithin fuel name = name ↔ Verbatim name := by
  induction fuel generalizing name with
  | zero => omega
  | succ fuel ih =>
    rw [formatWithin]
    by_cases hempty : name = []
    · subst hempty
      exact iff_of_true rfl .nil
    by_cases hquoted : isQuoted name = true
    · rw [hquoted, Bool.or_true, if_pos rfl]
      exact iff_of_true rfl (.quoted hquoted)
    have hpass : (name.isEmpty || isQuoted name) = false := by
      rw [Bool.or_eq_false_iff, List.isEmpty_eq_false_iff]
      exact ⟨hempty, Bool.eq_false_iff.2 hquoted⟩
    rw [hpass, if_neg Bool.false_ne_true]
    cases hform : splitFunctionForm name with
    | none =>
      dsimp only
      split_ifs with hquoting
      · refine iff_of_false (quote_ne_self name) fun hverbatim => ?_
        cases hverbatim with
        | nil => exact hempty rfl
        | quoted h => exact hquoted h
        | plain h => exact absurd hquoting (by rw [h]; exact Bool.false_ne_true)
        | ofQuoted h => rw [hform] at h; cases h
        | ofVerbatim h => rw [hform] at h; cases h
      · exact iff_of_true rfl (.plain (Bool.eq_false_iff.2 hquoting))
    | some form =>
      obtain ⟨function, argument⟩ := form
      obtain ⟨hname, -, -⟩ := splitFunctionForm_eq_some hform
      have hlength : argument.length < fuel := by
        have := congrArg List.length hname
        simp only [length_append, length_cons, length_nil] at this
        omega
      have hself : ∀ formatted : List Char,
          function ++ ['('] ++ formatted ++ [')'] = name ↔ formatted = argument := by
        intro formatted
        rw [hname]
        simp
      dsimp only
      rw [hself]
      split_ifs with hargument
      · exact iff_of_true rfl (.ofQuoted hform hargument)
      · rw [ih hlength]
        refine ⟨.ofVerbatim hform, fun hverbatim => ?_⟩
        cases hverbatim with
        | nil => exact absurd rfl hempty
        | quoted h => exact absurd h hquoted
        | plain h => rw [splitFunctionForm_eq_none h] at hform; cases hform
        | ofQuoted hform' h =>
          rw [hform] at hform'
          cases hform'
          exact absurd h hargument
        | ofVerbatim hform' h =>
          rw [hform] at hform'
          cases hform'
          exact h

theorem format_eq_self_iff (name : String) : format name = name ↔ Verbatim name.toList := by
  rw [← formatWithin_eq_self_iff (Nat.lt_succ_self _), ← String.toList_inj, format,
    String.toList_ofList]

instance (name : List Char) : Decidable (Verbatim name) :=
  decidable_of_iff _ (formatWithin_eq_self_iff (Nat.lt_succ_self name.length))

/-! ### What is written -/

/-- A name and what is written for it: nothing, itself, a function of something, itself in quotation
marks, or itself if it is plain. -/
theorem format_cases (name : String) :
    (name = "" ∧ format name = "") ∨
    (isQuoted name.toList = true ∧ format name = name) ∨
    (∃ function argument formatted : List Char,
      splitFunctionForm name.toList = some (function, argument) ∧ isQuoted name.toList = false ∧
      (format name).toList = function ++ '(' :: (formatted ++ [')']) ∧ function ≠ [] ∧
      ∀ c ∈ function, c.isAlphanum = true ∨ c = '_') ∨
    (Ordinary name ∧ ((format name).toList = quoted doubleQuote name.toList ∨
      (∀ c ∈ name.toList, isPlainChar c = true) ∧ format name = name)) := by
  by_cases hempty : name = ""
  · subst hempty
    exact .inl ⟨rfl, rfl⟩
  by_cases hquoted : isQuoted name.toList = true
  · exact .inr (.inl ⟨hquoted, (format_eq_self_iff name).2 (.quoted hquoted)⟩)
  have hquoted' := Bool.eq_false_iff.2 hquoted
  have hchars : name.toList.isEmpty = false := by
    rw [List.isEmpty_eq_false_iff]
    exact fun hnil => hempty (String.toList_eq_nil_iff.1 hnil)
  cases hform : splitFunctionForm name.toList with
  | some form =>
    obtain ⟨function, argument⟩ := form
    obtain ⟨-, hne, hfunction⟩ := splitFunctionForm_eq_some hform
    refine .inr (.inr (.inl ⟨function, argument, if alreadyQuoted argument then argument
      else formatWithin name.toList.length argument, rfl, hquoted', ?_, hne, hfunction⟩))
    rw [format, String.toList_ofList, formatWithin, hchars, hquoted', hform]
    simp
  | none =>
    have hordinary : Ordinary name := ⟨hempty, hquoted', hform⟩
    refine .inr (.inr (.inr ⟨hordinary, ?_⟩))
    have hformat := format_of_ordinary hordinary
    split_ifs at hformat with hquoting
    · exact .inl hformat
    · exact .inr ⟨(isPlainChar_of_needsQuoting (Bool.eq_false_iff.2 hquoting)).2,
        String.toList_inj.1 hformat⟩

theorem trim_of_isWhitespace {s : List Char} (h : ∀ c ∈ s, isWhitespace c = false) :
    trim s = s :=
  trim_append (w := []) (by simp) (fun c hc => h c (mem_of_head? hc))
    fun c hc => h c (mem_of_getLast? hc)

theorem isWhitespace_of_isQuoted {s : List Char} (h : isQuoted s = true) :
    alreadyQuoted s = true ∧ ∀ c ∈ s, isWhitespace c = false := by
  rw [isQuoted, Bool.and_eq_true, Bool.not_eq_true', any_eq_false] at h
  exact ⟨h.1, fun c hc => Bool.eq_false_iff.2 (h.2 c hc)⟩

/-- Nothing that is written has white space around it. -/
theorem trim_format (name : String) : trim (format name).toList = (format name).toList := by
  rcases format_cases name with ⟨-, hformat⟩ | ⟨hquoted, hformat⟩ |
    ⟨function, argument, formatted, -, -, hformat, hne, hchars⟩ | ⟨-, hformat | ⟨hplain, hformat⟩⟩
  · rw [hformat]
    rfl
  · rw [hformat]
    exact trim_of_isWhitespace (isWhitespace_of_isQuoted hquoted).2
  · rw [hformat]
    exact (trim_function hne hchars).1
  · rw [hformat]
    exact trim_quoted name.toList
  · rw [hformat]
    exact trim_of_isWhitespace fun c hc => isWhitespace_of_isPlainChar (hplain c hc)

/-- Apart from quotation marks, only characters of the name are written. -/
theorem mem_formatWithin {c : Char} (hc : c ≠ doubleQuote) {fuel : ℕ} {name : List Char}
    (h : c ∈ formatWithin fuel name) : c ∈ name := by
  induction fuel generalizing name with
  | zero => exact h
  | succ fuel ih =>
    rw [formatWithin] at h
    by_cases hpass : (name.isEmpty || isQuoted name) = true
    · rw [if_pos hpass] at h
      exact h
    rw [if_neg hpass] at h
    cases hform : splitFunctionForm name with
    | none =>
      rw [hform] at h
      dsimp only at h
      split_ifs at h
      · rw [quote_eq, quoted, mem_cons, mem_append, mem_singleton,
          doubled, mem_flatMap] at h
        rcases h with h | ⟨d, hd, h⟩ | h
        · exact absurd h hc
        · split_ifs at h with hquote
          · rw [mem_cons, mem_singleton] at h
            exact absurd (h.elim id id) hc
          · rw [mem_singleton] at h
            exact h ▸ hd
        · exact absurd h hc
      · exact h
    | some form =>
      obtain ⟨function, argument⟩ := form
      obtain ⟨hname, -, -⟩ := splitFunctionForm_eq_some hform
      have hargument : c ∈ argument → c ∈ name := fun hmem => by
        rw [hname]
        exact mem_append_right _ (mem_cons_of_mem _ (mem_append_left _ hmem))
      rw [hform] at h
      dsimp only at h
      rw [mem_append, mem_append, mem_append] at h
      rcases h with ((h | h) | h) | h
      · rw [hname]
        exact mem_append_left _ h
      · rw [hname, mem_singleton.1 h]
        simp
      · split_ifs at h
        · exact hargument h
        · exact hargument (ih h)
      · rw [hname, mem_singleton.1 h]
        simp

theorem mem_format {c : Char} (hc : c ≠ doubleQuote) {name : String}
    (h : c ∈ (format name).toList) : c ∈ name.toList := by
  rw [format, String.toList_ofList] at h
  exact mem_formatWithin hc h

theorem format_eq_empty_iff (name : String) : format name = "" ↔ name = "" := by
  rcases format_cases name with ⟨hempty, hformat⟩ | ⟨-, hformat⟩ |
    ⟨function, argument, formatted, hform, -, hformat, -⟩ | ⟨hordinary, hformat | ⟨-, hformat⟩⟩
  · exact iff_of_true hformat hempty
  · rw [hformat]
  · refine iff_of_false (fun h => ?_) fun h => ?_
    · rw [h] at hformat
      exact absurd (congrArg List.length hformat) (by simp)
    · subst h
      cases hform
  · refine iff_of_false (fun h => ?_) hordinary.ne_empty
    rw [h] at hformat
    cases hformat
  · rw [hformat]

/-! ### What is read back -/

theorem length_undouble_le (s : List Char) : (undouble s).length ≤ s.length := by
  induction s using undouble.induct with
  | case1 => exact Nat.le_refl _
  | case2 c => exact Nat.le_refl _
  | case3 c d cs hquotes ih =>
    rw [undouble, if_pos hquotes, length_cons, length_cons, length_cons]
    omega
  | case4 c d cs hquotes ih =>
    rw [undouble, if_neg hquotes, length_cons, length_cons]
    omega

/-- What stands in quotation marks is shorter than the name. -/
theorem undouble_ne {name : List Char} (h : alreadyQuoted (trim name) = true) :
    undouble (trim name).tail.dropLast ≠ name := by
  intro heq
  have hle := length_undouble_le (trim name).tail.dropLast
  have htrim : (trim name).length ≤ name.length := by
    rw [trim, length_reverse]
    refine ((dropWhile_suffix _).length_le).trans ?_
    rw [length_reverse]
    exact (dropWhile_suffix _).length_le
  rw [alreadyQuoted, Bool.and_eq_true, Bool.and_eq_true, decide_eq_true_eq] at h
  rw [heq, length_dropLast, length_tail] at hle
  omega

/-- A name is its own spelling for the reader unless it stands in quotation marks. -/
theorem unformat_eq_self_iff (name : String) :
    unformat name = name ↔ alreadyQuoted (trim name.toList) = false := by
  cases halready : alreadyQuoted (trim name.toList) with
  | false =>
    have hquoted : isQuoted name.toList = false := by
      refine Bool.eq_false_iff.2 fun h => ?_
      obtain ⟨hmarks, hspace⟩ := isWhitespace_of_isQuoted h
      rw [trim_of_isWhitespace hspace, hmarks] at halready
      cases halready
    simp [unformat, hquoted, halready]
  | true =>
    refine iff_of_false (fun heq => ?_) (by simp)
    rw [← String.toList_inj, unformat] at heq
    split_ifs at heq with hquoted hmarks
    · rw [String.toList_ofList,
        ← trim_of_isWhitespace (isWhitespace_of_isQuoted hquoted).2] at heq
      refine undouble_ne halready ?_
      rw [heq, trim_of_isWhitespace (isWhitespace_of_isQuoted hquoted).2]
    · rw [String.toList_ofList] at heq
      exact undouble_ne halready heq
    · -- a name that starts with a quotation mark, or with a blank and one, contains one of them
      refine hmarks ?_
      rw [Bool.or_eq_true, contains_iff_mem]
      refine .inl ?_
      rw [alreadyQuoted, Bool.and_eq_true, Bool.and_eq_true, decide_eq_true_eq,
        decide_eq_true_eq] at halready
      have hmem := mem_of_head? halready.1.2
      rw [trim, mem_reverse] at hmem
      have hmem' := (dropWhile_suffix _).subset hmem
      exact (dropWhile_suffix _).subset (mem_reverse.1 hmem')

/-- A name that is read back from what is written for it: one that does not stand in quotation
marks, and is written as it is if it is a function of something. -/
structure Recovered (name : List Char) : Prop where
  not_quoted : isQuoted name = false
  verbatim : (splitFunctionForm name).isSome = true → Verbatim name

instance (name : List Char) : Decidable (Recovered name) :=
  decidable_of_iff
    (isQuoted name = false ∧ ((splitFunctionForm name).isSome = true → Verbatim name))
    ⟨fun h => ⟨h.1, h.2⟩, fun h => ⟨h.not_quoted, h.verbatim⟩⟩

theorem unformat_format_iff (name : String) :
    unformat (format name) = name ↔ Recovered name.toList := by
  rcases format_cases name with ⟨rfl, -⟩ | ⟨hquoted, hformat⟩ |
    ⟨function, argument, formatted, hform, hquoted, hformat, hne, hchars⟩ | ⟨hordinary, -⟩
  · exact iff_of_true rfl ⟨rfl, fun h => absurd h (by decide)⟩
  · obtain ⟨hmarks, hspace⟩ := isWhitespace_of_isQuoted hquoted
    rw [hformat, unformat_eq_self_iff, trim_of_isWhitespace hspace, hmarks]
    refine iff_of_false (by simp) fun h => ?_
    rw [h.not_quoted] at hquoted
    cases hquoted
  · have hself : unformat (format name) = format name := by
      obtain ⟨htrim, halready⟩ := trim_function hne hchars
      rw [unformat_eq_self_iff, hformat, htrim, halready]
    rw [hself, format_eq_self_iff]
    exact ⟨fun h => ⟨hquoted, fun _ => h⟩, fun h => h.verbatim (by rw [hform]; rfl)⟩
  · refine iff_of_true (unformat_format hordinary) ⟨hordinary.not_quoted, fun h => ?_⟩
    rw [hordinary.not_function] at h
    cases h

/-- A name that is written as it is, and does not stand in quotation marks, is its own spelling. -/
theorem Verbatim.unformat_eq_self_iff {name : String} (h : Verbatim name.toList) :
    unformat name = name ↔ isQuoted name.toList = false := by
  have hrecovered := unformat_format_iff name
  rw [(format_eq_self_iff name).2 h] at hrecovered
  rw [hrecovered]
  exact ⟨fun hname => hname.not_quoted, fun hquoted => ⟨hquoted, fun _ => h⟩⟩

end Identifier

end Cdm
