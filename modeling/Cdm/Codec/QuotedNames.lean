import Cdm.Codec.TypeText

/-!
# Quoted type names

A name in quotation marks is a name to CQL, whatever it says.  The parser forgets that a name was
quoted: it takes a quoted keyword for the keyword, a quoted primitive for the primitive and a quoted
dot for the end of a keyspace.  And where a quoted name goes on behind a quotation mark, because
that is doubled or because it ends a keyspace, the parser stops.
-/

namespace Cdm

open Text

namespace CqlTypeInfo

/-- A keyspace as CQL writes it, in quotation marks unless it is a plain identifier. -/
def keyspaceText (keyspace : String) : List Char :=
  if isPlain keyspace.toList then keyspace.toList
  else quoted doubleQuote keyspace.toList

/-- A name in quotation marks, behind its keyspace. -/
def quotedWord (keyspace : Option String) (name : String) : List Char :=
  (keyspace.elim [] fun ks => keyspaceText ks ++ ['.']) ++ quoted doubleQuote name.toList

/-- The text of a type with the names of UDTs in quotation marks. -/
def quotedText (t : CqlTypeInfo) : String := String.ofList (spelled quotedWord t)

/-- A name that is read as itself from between quotation marks: there is no keyspace before it, no
quotation mark and no dot in it, and it is no word of types in lower case. -/
def ReadAsName (keyspace : Option String) (name : String) : Prop :=
  keyspace = none ∧ doubleQuote ∉ name.toList ∧ '.' ∉ name.toList ∧
    isTypeWord (String.ofList (toLower name.toList)) = false

/-- What a quoted name is read as, if the parser does not get stuck. -/
def quotedOut (keyspace : Option String) (name : String) : Option (Bool → CqlTypeInfo) :=
  if keyspace = none ∧ doubleQuote ∉ name.toList ∧
      String.ofList (toLower name.toList) ∉ keywords then
    some (leaf (fun _ _ => none) name.toList (String.ofList (toLower name.toList)))
  else none

theorem quotedOut_iff (keyspace : Option String) (name : String) (frozen : Bool) :
    (quotedOut keyspace name).map (fun make => make frozen) = some (udt keyspace name [] frozen) ↔
      ReadAsName keyspace name := by
  rw [quotedOut, ReadAsName, isTypeWord_eq_false]
  split_ifs with h
  · obtain ⟨rfl, hquote, hkeyword⟩ := h
    have hleaf := leaf_eq_udt_iff name.toList frozen
    rw [String.ofList_toList] at hleaf
    rw [Option.map_some, Option.some_inj, hleaf]
    tauto
  · rw [Option.map_none]
    refine iff_of_false (Option.some_ne_none _).symm ?_
    rintro ⟨hkeyspace, hquote, -, hkeyword, -⟩
    exact h ⟨hkeyspace, hquote, hkeyword⟩

section Quoted

variable [AlphanumericTable] (text : List Char)

/-- A name that goes on where the parser stops reading it. -/
theorem reads_goesOn {resolver : UdtResolver} {name behind rest : List Char}
    (hname : identifier text rest = .ok (name, behind)) (hbehind : GoesOn behind) (fuel : ℕ)
    (frozen : Bool) (after : List Char) :
    Reads (parseTypeInner resolver text (fuel + 1) frozen rest) after none := by
  by_cases hkeyword : String.ofList (toLower name) ∈ keywords
  · obtain ⟨e, he⟩ := parseTypeInner_keyword resolver fuel frozen hname hkeyword
      (eat_of_goesOn text hbehind '<' (by decide) (by decide))
    rw [he]
    exact reads_error
  · rw [parseTypeInner_leaf hname hkeyword]
    rintro t left ⟨⟩
    exact hbehind

/-- A quotation mark in a quoted name ends what is read of it. -/
theorem identifier_doubled {name : List Char} (h : doubleQuote ∈ name) (rest : List Char) :
    ∃ before behind, identifier text (quoted doubleQuote name ++ rest) =
      .ok (before, behind) ∧ GoesOn behind := by
  obtain ⟨before, behind, hbefore, -, hdoubled⟩ := exists_doubled_of_mem h
  refine ⟨before, doubleQuote :: (doubled doubleQuote behind ++
    doubleQuote :: rest), ?_, _, _, rfl, .inr rfl⟩
  have htext : quoted doubleQuote name ++ rest = doubleQuote :: (before ++
      doubleQuote :: (doubleQuote :: (doubled doubleQuote behind ++
        doubleQuote :: rest))) := by
    simp [quoted, hdoubled]
  rw [htext]
  exact identifier_quoted hbefore

theorem identifier_undoubled {name : List Char} (h : doubleQuote ∉ name) (rest : List Char) :
    identifier text (quoted doubleQuote name ++ rest) = .ok (name, rest) := by
  have htext : quoted doubleQuote name ++ rest =
      doubleQuote :: (name ++ doubleQuote :: rest) := by
    simp [quoted, doubled_of_not_mem h]
  rw [htext]
  exact identifier_quoted h

/-- What a keyspace is read as, in front of the dot. -/
theorem identifier_keyspaceText (keyspace : String) (rest : List Char) :
    ∃ before behind, identifier text (keyspaceText keyspace ++ '.' :: doubleQuote :: rest) =
      .ok (before, behind) ∧ GoesOn behind := by
  rw [keyspaceText]
  split_ifs with hplain
  · refine ⟨keyspace.toList ++ ['.'], doubleQuote :: rest, ?_, _, _, rfl, .inr rfl⟩
    have hchars := (isPlainChar_of_isPlain hplain).2
    have hword : ∀ c ∈ keyspace.toList ++ ['.'], isWordChar c = true := by
      intro c hc
      rcases List.mem_append.1 hc with hc | hc
      · exact isWordChar_of_isPlainChar (hchars c hc)
      · rw [List.mem_singleton.1 hc]
        decide
    have htext : keyspace.toList ++ '.' :: doubleQuote :: rest =
        keyspace.toList ++ ['.'] ++ doubleQuote :: rest := by simp
    rw [htext]
    refine identifier_exact (by simp) hword ?_
    rintro c ⟨⟩
    exact isNameChar_eq_false (by decide) (by decide) (by decide)
  · by_cases hquote : doubleQuote ∈ keyspace.toList
    · exact identifier_doubled text hquote _
    · exact ⟨_, _, identifier_undoubled text hquote _, _, _, rfl, .inl rfl⟩

/-- What a name in quotation marks is read as. -/
theorem reads_quotedWord (keyspace : Option String) (name : String) (fuel : ℕ) (frozen : Bool)
    (rest : List Char) (hrest : Delimited rest) :
    Reads (parseTypeInner (fun _ _ => none) text (fuel + 1) frozen (quotedWord keyspace name ++ rest))
      rest ((quotedOut keyspace name).map fun make => make frozen) := by
  cases keyspace with
  | some ks =>
    have htext : quotedWord (some ks) name ++ rest = keyspaceText ks ++ '.' :: doubleQuote ::
        (doubled doubleQuote name.toList ++ doubleQuote :: rest) := by
      simp [quotedWord, quoted]
    obtain ⟨before, behind, hread, hbehind⟩ := identifier_keyspaceText text ks
      (doubled doubleQuote name.toList ++ doubleQuote :: rest)
    rw [htext, quotedOut, if_neg (by simp)]
    exact reads_goesOn text hread hbehind fuel frozen rest
  | none =>
    show Reads (parseTypeInner _ text (fuel + 1) frozen (quoted _ name.toList ++ rest)) _ _
    by_cases hquote : doubleQuote ∈ name.toList
    · obtain ⟨before, behind, hread, hbehind⟩ := identifier_doubled text hquote rest
      rw [quotedOut, if_neg (by simp [hquote])]
      exact reads_goesOn text hread hbehind fuel frozen rest
    · have hread := identifier_undoubled text hquote rest
      by_cases hkeyword : String.ofList (toLower name.toList) ∈ keywords
      · obtain ⟨e, he⟩ := parseTypeInner_keyword (fun _ _ => none) fuel frozen hread hkeyword
          (eat_of_delimited hrest)
        rw [he, quotedOut, if_neg (by simp [hkeyword])]
        exact reads_error
      · rw [parseTypeInner_leaf hread hkeyword, quotedOut, if_pos ⟨rfl, hquote, hkeyword⟩]
        rfl

/-- A type with quoted names is read back exactly when each of the names is one that is read as
itself. -/
theorem parse_quotedText_iff {t : CqlTypeInfo} (h : Spellable (fun _ _ => True) t) :
    parse (quotedText t) = .ok t ↔ Spellable ReadAsName t := by
  rw [parse, quotedText, parseWith_spelled
    (fun text keyspace name _ => reads_quotedWord text keyspace name) h]
  exact readBack_eq_self_iff quotedOut_iff h

end Quoted

/-! ### Names in quotation marks -/

section Sample

local instance : AlphanumericTable := AlphanumericTable.ascii

/-- A UDT named `Text` is a text to the parser. -/
theorem parse_quotedText_text :
    quotedText (.udt none "Text" [] false) = "\"Text\"" ∧
      parse (quotedText (.udt none "Text" [] false)) = .ok (.primitive .text) ∧
      parse (quotedText (.udt none "Text" [] false)) ≠ .ok (.udt none "Text" [] false) := by
  decide

/-- A UDT named `Address` in a list is one. -/
theorem parse_quotedText_address :
    parse (quotedText (.list (.udt none "Address" [] true) false)) =
      .ok (.list (.udt none "Address" [] true) false) := by
  refine (parse_quotedText_iff (.list false (.udt true True.intro))).2 (.list false (.udt true ?_))
  exact ⟨rfl, by decide, by decide, by decide⟩

end Sample

end CqlTypeInfo

end Cdm
