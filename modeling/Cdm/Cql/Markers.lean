import Cdm.Cql.Bound
import Cdm.Cql.Quoting
import Cdm.Lib.CqlMarkers

/-!
# Which column a bind marker stands for

The text of a statement and the list of its slots come from separate loops over the columns.  Read
as a CQL parser reads it, the text has one marker for each slot, in the order of the slots, and what
the marker stands for is what the slot names.  The columns that are constants have no marker.

That holds where the names of the table are no CQL already, which is put into the statement as it
is, and where the literals of the constants are terms.
-/

namespace Cdm

open Fallible
open Cql

/-- What a slot is the value of. -/
def BindSlot.target (mapping : ColumnMapping) : BindSlot → Option Cql.Target
  | column index | keyColumn index =>
    (mapping.targetColumns[index]?).map fun column => .column column.name.toList
  | ttl => some .ttl
  | writetime => some .timestamp

/-- The names of the target table are no CQL already, and the literals of the constants are terms
without bind markers. -/
structure ColumnMapping.Writable (mapping : ColumnMapping) : Prop where
  keyspace : Identifier.Ordinary mapping.targetTable.keyspace
  table : Identifier.Ordinary mapping.targetTable.table
  column : ∀ column ∈ mapping.targetColumns, Identifier.Ordinary column.name
  constant : ∀ literal, .constant literal ∈ mapping.sources → isTerm literal.toList = true

/-- A text whose markers stand for `targets`, one by one, and that has no others. -/
def Aligned (text : String) (targets : List (Option Cql.Target)) : Prop :=
  ∃ ts found, lex text.toList = some ts ∧ readMarkers ts = some found ∧
    targets = found.map some ∧ ts.count .marker = targets.length

/-! ### Values -/

/-- The tokens of a text. -/
def tokensOf (text : String) : List Token := (lex text.toList).getD []

/-- A text that can stand for a value in a statement. -/
structure IsValue (value : String) : Prop where
  lexes : lex value.toList = some (tokensOf value)
  ne_nil : tokensOf value ≠ []
  closed : Cql.Closed isSeparator 0 (tokensOf value) = true

theorem tokensOf_eq {text : String} {ts : List Token} (h : lex text.toList = some ts) :
    tokensOf text = ts := by
  rw [tokensOf, h]
  rfl

theorem isValue_marker : IsValue "?" := ⟨by decide, by decide, by decide⟩

theorem isValue_of_isTerm {literal : String} (h : isTerm literal.toList = true) :
    IsValue literal ∧ (tokensOf literal).count .marker = 0 := by
  rw [isTerm] at h
  split at h
  · rename_i ts hlex
    simp only [Bool.and_eq_true, Bool.not_eq_true', List.isEmpty_eq_false_iff, decide_eq_true_eq] at h
    have htokens := tokensOf_eq hlex
    exact ⟨⟨by rw [hlex, htokens], by rw [htokens]; exact h.1.1, by rw [htokens]; exact h.1.2⟩,
      by rw [htokens]; exact h.2⟩
  · cases h

namespace Identifier

variable {name : String}

/-- A bare word of a statement is not reserved. -/
theorem nameToken_cases (name : String) : nameToken name = .name name.toList ∨
    nameToken name = .word name.toList ∧ needsQuoting name.toList = false := by
  rw [nameToken]
  split_ifs with h
  · exact .inl rfl
  · exact .inr ⟨rfl, Bool.eq_false_iff.2 h⟩

theorem isKeyword_nameToken (name : String) {keyword : List Char}
    (h : String.ofList (Text.toLower keyword) ∈ reservedKeywords) :
    (nameToken name).isKeyword keyword = false := by
  rcases nameToken_cases name with heq | ⟨heq, hquoting⟩
  · rw [heq]
    rfl
  · rw [heq, Token.isKeyword, decide_eq_false_iff_not]
    intro hsame
    have hreserved := (needsQuoting_eq_false_iff.1 hquoting).2
    rw [isReserved, hsame, decide_eq_false_iff_not] at hreserved
    exact hreserved h

theorem isSeparator_nameToken (name : String) : isSeparator (nameToken name) = false := by
  have hcomma : isComma (nameToken name) = false := by
    rcases nameToken_cases name with heq | ⟨heq, -⟩
    · rw [heq]
      rfl
    · rw [heq]
      rfl
  have hsemicolon : decide (nameToken name = .symbol ';') = false := by
    rcases nameToken_cases name with heq | ⟨heq, -⟩
    · rw [heq]
      rfl
    · rw [heq]
      rfl
  rw [isSeparator, hcomma, hsemicolon, isAnd, isWhere, isSet, isFrom, isUsing,
    isKeyword_nameToken name (by decide), isKeyword_nameToken name (by decide),
    isKeyword_nameToken name (by decide), isKeyword_nameToken name (by decide),
    isKeyword_nameToken name (by decide)]
  rfl

theorem closed_nameToken (name : String) : Cql.Closed isSeparator 0 [nameToken name] = true := by
  refine closed_singleton (isSeparator_nameToken name) ?_ ?_
  · rcases nameToken_cases name with heq | ⟨heq, -⟩
    · rw [heq]
      rfl
    · rw [heq]
      rfl
  · rcases nameToken_cases name with heq | ⟨heq, -⟩
    · rw [heq]
      rfl
    · rw [heq]
      rfl

theorem asName_nameToken (name : String) : (nameToken name).asName = some name.toList := by
  rcases nameToken_cases name with heq | ⟨heq, hquoting⟩
  · rw [heq]
    rfl
  · have hchars := (isPlainChar_of_needsQuoting hquoting).2
    rw [heq, Token.asName, Text.toLower, List.map_congr_left fun c hc =>
      Text.toLower_of_isPlainChar (hchars c hc), List.map_id']

end Identifier

open Identifier (nameToken Ordinary)

theorem isValue_counter {name : String} (h : Ordinary name) :
    IsValue (Identifier.format name ++ "+?") ∧
      tokensOf (Identifier.format name ++ "+?") = [nameToken name, .symbol '+', .marker] := by
  have hlex : lex (Identifier.format name ++ "+?").toList =
      some [nameToken name, .symbol '+', .marker] := by
    rw [String.toList_append]
    exact lex_append_eq (Identifier.lex_format h) (separates_cons (by decide) _) rfl
  have htokens := tokensOf_eq hlex
  refine ⟨⟨by rw [hlex, htokens], by rw [htokens]; exact List.cons_ne_nil _ _, ?_⟩, htokens⟩
  rw [htokens]
  exact Cql.Closed.append (Identifier.closed_nameToken name) (by decide)

/-! ### Assignments and relations -/

/-- The tokens of a name and its value. -/
def entryTokens (entry : String × String) : List Token :=
  nameToken entry.1 :: .symbol '=' :: tokensOf entry.2

/-- What is written for a name and its value. -/
def entryText (entry : String × String) : String := Identifier.format entry.1 ++ "=" ++ entry.2

theorem entryText_marker (name : String) :
    entryText (name, "?") = Identifier.format name ++ "=?" := by
  rw [entryText, String.append_assoc]
  rfl

theorem entryText_counter (name : String) : entryText (name, Identifier.format name ++ "+?") =
    Identifier.format name ++ "=" ++ Identifier.format name ++ "+?" := by
  rw [entryText, ← String.append_assoc]

variable {entry : String × String}

theorem lex_entryText (hname : Ordinary entry.1) (hvalue : IsValue entry.2) :
    lex (entryText entry).toList = some (entryTokens entry) := by
  have hsymbol : lex ('=' :: entry.2.toList) = some (.symbol '=' :: tokensOf entry.2) := by
    rw [lex_symbol (by decide), hvalue.lexes]
    rfl
  rw [entryText, String.append_assoc, String.toList_append, String.toList_append]
  exact lex_append_eq (Identifier.lex_format hname) (separates_cons (by decide) _) hsymbol

theorem closed_entryTokens (hvalue : IsValue entry.2) :
    Cql.Closed isSeparator 0 (entryTokens entry) = true := by
  have hname : Cql.Closed isSeparator 0 ([nameToken entry.1] ++ [Token.symbol '=']) = true :=
    Cql.Closed.append (Identifier.closed_nameToken entry.1) (by decide)
  exact Cql.Closed.append hname hvalue.closed

theorem readAssigned_entryTokens (entry : String × String) : readAssigned (entryTokens entry) =
    some (markersIn (.column entry.1.toList) (tokensOf entry.2)) := by
  rw [entryTokens, readAssigned, Identifier.asName_nameToken]
  rfl

/-- Names and values that can be written. -/
def Entries (entries : List (String × String)) : Prop :=
  ∀ entry ∈ entries, Ordinary entry.1 ∧ IsValue entry.2

/-- What the markers of the values stand for. -/
def targetsOf (entries : List (String × String)) : List (List Cql.Target) :=
  entries.map fun entry => markersIn (.column entry.1.toList) (tokensOf entry.2)

section Entries

variable {entries : List (String × String)}

theorem lex_assignments (h : Entries entries) :
    lex (",".intercalate (entries.map entryText)).toList =
      some ([Token.symbol ','].intercalate (entries.map entryTokens)) := by
  rw [String.toList_intercalate, List.map_map]
  exact lex_intercalate separates_comma fun entry hentry =>
    lex_entryText (h entry hentry).1 (h entry hentry).2

theorem lex_relations (h : Entries entries) :
    lex (" AND ".intercalate (entries.map entryText)).toList =
      some ([Token.word andWord].intercalate (entries.map entryTokens)) := by
  rw [String.toList_intercalate, List.map_map]
  exact lex_intercalate separates_and fun entry hentry =>
    lex_entryText (h entry hentry).1 (h entry hentry).2

/-- The names and values of an `UPDATE` or of a `WHERE` clause are read one by one. -/
theorem mapM_readAssigned (h : Entries entries) {p : Token → Bool}
    (hp : ∀ t, p t = true → isSeparator t = true) {sep : Token} (hsep : p sep = true) :
    (items p ([sep].intercalate (entries.map entryTokens))).mapM readAssigned =
      some (targetsOf entries) := by
  rw [items_join entryTokens hp (fun _ _ => List.cons_ne_nil _ _)
    (fun entry hentry => closed_entryTokens (h entry hentry).2) hsep]
  exact mapM_map_eq_some fun entry _ => readAssigned_entryTokens entry

/-- Only the separator between them separates names and values. -/
theorem closed_entries (h : Entries entries) {p : Token → Bool}
    (hp : ∀ t, p t = true → isSeparator t = true) {sep : Token}
    (hsep : Cql.Closed p 0 [sep] = true) :
    Cql.Closed p 0 ([sep].intercalate (entries.map entryTokens)) = true :=
  closed_intercalate hp (fun entry hentry => closed_entryTokens (h entry hentry).2) hsep

end Entries

/-! ### The other pieces of a statement -/

def tableTokens (table : TableSchema) : List Token :=
  [nameToken table.keyspace, .symbol '.', nameToken table.table]

theorem lex_quotedName {table : TableSchema} (hkeyspace : Ordinary table.keyspace)
    (htable : Ordinary table.table) :
    lex table.quotedName.toList = some (tableTokens table) := by
  have hdot : lex ('.' :: (Identifier.format table.table).toList) =
      some [.symbol '.', nameToken table.table] := by
    rw [lex_symbol (by decide), Identifier.lex_format htable]
    rfl
  rw [TableSchema.quotedName, Identifier.qualified, String.append_assoc, String.toList_append,
    String.toList_append]
  exact lex_append_eq (Identifier.lex_format hkeyspace) (separates_cons (by decide) _) hdot

theorem readTable_tableTokens (table : TableSchema) (rest : List Token) :
    readTable (tableTokens table ++ rest) = some rest := by
  show readTable (nameToken table.keyspace :: .symbol '.' :: nameToken table.table :: rest) = _
  rw [readTable, Identifier.asName_nameToken, Identifier.asName_nameToken]
  rfl

theorem closed_tableTokens (table : TableSchema) :
    Cql.Closed isSeparator 0 (tableTokens table) = true := by
  have hkeyspace : Cql.Closed isSeparator 0 ([nameToken table.keyspace] ++ [Token.symbol '.']) = true :=
    Cql.Closed.append (Identifier.closed_nameToken table.keyspace) (by decide)
  exact Cql.Closed.append hkeyspace (Identifier.closed_nameToken table.table)

/-- The tokens of a `USING` clause. -/
def UsingClause.tokens (u : UsingClause) : List Token := tokensOf u.render

/-- What the markers of a `USING` clause stand for. -/
def UsingClause.targets (u : UsingClause) : List Cql.Target :=
  (if u.ttl then [Target.ttl] else []) ++ (if u.timestamp then [Target.timestamp] else [])

theorem UsingClause.lex_render (u : UsingClause) : lex u.render.toList = some u.tokens := by
  obtain ⟨ttl, timestamp⟩ := u
  cases ttl <;> cases timestamp <;> decide

theorem UsingClause.readUsing_tokens (u : UsingClause) :
    readUsing u.tokens = some u.targets := by
  obtain ⟨ttl, timestamp⟩ := u
  cases ttl <;> cases timestamp <;> decide

theorem UsingClause.closed_tokens (u : UsingClause) : Cql.Closed isSet 0 u.tokens = true := by
  obtain ⟨ttl, timestamp⟩ := u
  cases ttl <;> cases timestamp <;> decide

/-- A clause is set off by a space. -/
theorem UsingClause.separates_render (u : UsingClause) {rest : List Char} (h : Cql.Separates rest) :
    Cql.Separates (u.render.toList ++ rest) := by
  obtain ⟨ttl, timestamp⟩ := u
  cases ttl <;> cases timestamp
  · exact h
  · exact separates_cons (by decide) _
  · exact separates_cons (by decide) _
  · exact separates_cons (by decide) _

/-! ### Lists of names and of values -/

theorem join_eq_intercalate {parts : List String} (h : ∀ part ∈ parts, part ≠ "") :
    join parts = ",".intercalate parts := by
  have hfold (parts : List String) : ∀ out : String, out ≠ "" →
      parts.foldl (fun out part => (if out.isEmpty then out else out ++ ",") ++ part) out =
        ",".intercalate (out :: parts) := by
    induction parts with
    | nil => intro out _; rw [List.foldl_nil, String.intercalate_singleton]
    | cons part parts ih =>
      intro out hout
      have hempty : out.isEmpty = false := by simpa using hout
      have hne : out ++ "," ++ part ≠ "" := by
        intro heq
        have hchars := congrArg String.toList heq
        simp at hchars
      rw [List.foldl_cons, hempty]
      show List.foldl _ (out ++ "," ++ part) parts = _
      rw [ih _ hne, String.intercalate_cons_append, String.intercalate_cons_cons,
        String.append_assoc]
  cases parts with
  | nil => rfl
  | cons part parts =>
    rw [List.forall_mem_cons] at h
    rw [join, List.foldl_cons]
    show List.foldl _ ("" ++ part) parts = _
    rw [String.empty_append]
    exact hfold parts part h.1

theorem appendList_eq_intercalate {left right : List String} (hleft : ∀ part ∈ left, part ≠ "")
    (hright : ∀ part ∈ right, part ≠ "") :
    TargetUpsert.appendList (",".intercalate left) right = ",".intercalate (left ++ right) := by
  rw [TargetUpsert.appendList]
  cases right with
  | nil => simp
  | cons part right =>
    cases left with
    | nil =>
      rw [join_eq_intercalate hright]
      rfl
    | cons first left =>
      have hempty : (",".intercalate (first :: left)).isEmpty = false := by
        have hne : ",".intercalate (first :: left) ≠ "" := by
          rw [List.forall_mem_cons] at hleft
          cases left with
          | nil =>
            rw [String.intercalate_singleton]
            exact hleft.1
          | cons second left =>
            intro heq
            have hchars := congrArg String.toList heq
            simp [String.intercalate_cons_cons] at hchars
        simpa using hne
      rw [join_eq_intercalate hright, hempty,
        String.intercalate_append_of_ne_nil (List.cons_ne_nil first left) (List.cons_ne_nil part right)]
      rfl

/-- A formatted name is not empty. -/
theorem format_ne_empty {name : String} (h : Ordinary name) : Identifier.format name ≠ "" := by
  intro heq
  have hlex := Identifier.lex_format h
  rw [heq] at hlex
  cases hlex

theorem IsValue.ne_empty {value : String} (h : IsValue value) : value ≠ "" := by
  rintro rfl
  exact h.ne_nil rfl

section Lists

variable {entries : List (String × String)}

theorem lex_names (h : ∀ entry ∈ entries, Ordinary entry.1) :
    lex (",".intercalate (entries.map fun entry => Identifier.format entry.1)).toList =
      some ([Token.symbol ','].intercalate (entries.map fun entry => [nameToken entry.1])) := by
  rw [String.toList_intercalate, List.map_map]
  exact lex_intercalate separates_comma fun entry hentry =>
    Identifier.lex_format (h entry hentry)

theorem lex_values (h : ∀ entry ∈ entries, IsValue entry.2) :
    lex (",".intercalate (entries.map Prod.snd)).toList =
      some ([Token.symbol ','].intercalate (entries.map fun entry => tokensOf entry.2)) := by
  rw [String.toList_intercalate, List.map_map]
  exact lex_intercalate separates_comma fun entry hentry => (h entry hentry).lexes

theorem items_names (entries : List (String × String)) :
    items isComma ([Token.symbol ','].intercalate (entries.map fun e => [nameToken e.1])) =
      entries.map fun e => [nameToken e.1] := by
  refine items_join _ isSeparator_of_isComma ?_ ?_ rfl
  · exact fun _ _ => List.cons_ne_nil _ _
  · exact fun entry _ => Identifier.closed_nameToken entry.1

/-- The names and the values of an `INSERT` are read in pairs. -/
theorem mapM_readValue (entries : List (String × String)) :
    ((entries.map fun e => [nameToken e.1]).zip (entries.map fun e => tokensOf e.2)).mapM
      readValue = some (targetsOf entries) := by
  have hzip : (entries.map fun e => [nameToken e.1]).zip (entries.map fun e => tokensOf e.2) =
      entries.map fun e => ([nameToken e.1], tokensOf e.2) := by
    induction entries with
    | nil => rfl
    | cons entry entries ih => rw [List.map_cons, List.map_cons, List.map_cons, List.zip_cons_cons, ih]
  rw [hzip]
  refine mapM_map_eq_some fun entry _ => ?_
  rw [readValue, readName, Identifier.asName_nameToken]
  rfl

end Lists

/-! ### The statements -/

section Statements

variable {table : TableSchema} {entries keys : List (String × String)}

/-- A text that is read has the markers that are read. -/
theorem aligned_of_read {text : String} {ts : List Token} {found : List Cql.Target}
    (hlex : lex text.toList = some ts) (hread : readMarkers ts = some found) :
    Aligned text (found.map some) :=
  ⟨ts, found, hlex, hread, rfl, by rw [List.length_map, length_readMarkers hread]⟩

/-- The markers of an `INSERT`. -/
theorem aligned_insert (hkeyspace : Ordinary table.keyspace) (htable : Ordinary table.table)
    (h : Entries entries) (u : UsingClause) :
    Aligned ("INSERT INTO " ++ table.quotedName ++ " (" ++
        ",".intercalate (entries.map fun entry => Identifier.format entry.1) ++ ") VALUES (" ++
        ",".intercalate (entries.map Prod.snd) ++ ")" ++ u.render)
      (((targetsOf entries).flatten ++ u.targets).map some) := by
  have hvalues : ∀ entry ∈ entries, IsValue entry.2 := fun entry hentry => (h entry hentry).2
  have hnames := lex_names fun entry hentry => (h entry hentry).1
  have hterms := lex_values hvalues
  have hnone : ∀ t : Token, (fun _ => false) t = true → isSeparator t = true := by
    rintro t ⟨⟩
  have hclosedNames : Cql.Closed _ 0 ([.symbol ','].intercalate (entries.map _)) = true :=
    closed_intercalate hnone (fun e _ => Identifier.closed_nameToken e.1) (by decide)
  have hclosedValues : Cql.Closed _ 0 ([.symbol ','].intercalate (entries.map _)) = true :=
    closed_intercalate hnone (fun e he => (hvalues e he).closed) (by decide)
  have hnameItems := items_names entries
  have hvalueItems : items isComma ([.symbol ','].intercalate (entries.map _)) = _ :=
    items_join (fun e : String × String => tokensOf e.2) isSeparator_of_isComma (fun e he => (hvalues e he).ne_nil)
      (fun e he => (hvalues e he).closed) rfl
  generalize ",".intercalate (entries.map fun entry => Identifier.format entry.1) = names at *
  generalize ",".intercalate (entries.map Prod.snd) = values at *
  generalize [Token.symbol ','].intercalate (entries.map fun e => [nameToken e.1]) = ns at *
  generalize [Token.symbol ','].intercalate (entries.map fun e => tokensOf e.2) = vs at *
  have hend : lex (')' :: u.render.toList) = some (.symbol ')' :: u.tokens) := by
    rw [lex_symbol (by decide), u.lex_render]
    rfl
  have hvalueList := lex_append_eq hterms (separates_cons (by decide) _) hend
  have hmiddle : lex (')' :: ' ' :: (valuesWord ++ ' ' :: '(' ::
      (values.toList ++ ')' :: u.render.toList))) = some (.symbol ')' :: .word valuesWord ::
        .symbol '(' :: (vs ++ .symbol ')' :: u.tokens)) := by
    rw [lex_symbol (by decide), lex_space, lex_keyword (by decide) (by decide),
      lex_symbol (by decide), hvalueList]
    rfl
  have hnameList := lex_append_eq hnames (separates_cons (by decide) _) hmiddle
  have hopen : lex (' ' :: '(' :: (names.toList ++ ')' :: ' ' :: (valuesWord ++ ' ' :: '(' ::
      (values.toList ++ ')' :: u.render.toList)))) = some (.symbol '(' :: (ns ++ .symbol ')' ::
        .word valuesWord :: .symbol '(' :: (vs ++ .symbol ')' :: u.tokens))) := by
    rw [lex_space, lex_symbol (by decide), hnameList]
    rfl
  have hbody := lex_append_eq (lex_quotedName hkeyspace htable) (separates_cons (by decide) _)
    hopen
  apply aligned_of_read
  · have htext : ("INSERT INTO " ++ table.quotedName ++ " (" ++ names ++ ") VALUES (" ++ values ++
        ")" ++ u.render).toList = insertWord ++ ' ' :: (intoWord ++ ' ' ::
          (table.quotedName.toList ++ ' ' :: '(' :: (names.toList ++ ')' :: ' ' ::
            (valuesWord ++ ' ' :: '(' :: (values.toList ++ ')' :: u.render.toList))))) := by
      simp [insertWord, intoWord, valuesWord]
    rw [htext, lex_keyword (by decide) (by decide), lex_keyword (by decide) (by decide), hbody]
    rfl
  · have hread := mapM_readValue entries
    rw [← hnameItems, ← hvalueItems] at hread
    have hlen : (items isComma ns).length = (items isComma vs).length := by
      rw [hnameItems, hvalueItems, List.length_map, List.length_map]
    rw [readMarkers_insert]
    exact readInsert_eq (readTable_tableTokens table _) hclosedNames hclosedValues hlen hread
      u.readUsing_tokens

/-- The markers of an `UPDATE`. -/
theorem aligned_update (hkeyspace : Ordinary table.keyspace) (htable : Ordinary table.table)
    (h : Entries entries) (hkeys : Entries keys) (u : UsingClause) :
    Aligned ("UPDATE " ++ table.quotedName ++ u.render ++ " SET " ++
        ",".intercalate (entries.map entryText) ++ " WHERE " ++
        " AND ".intercalate (keys.map entryText))
      ((u.targets ++ (targetsOf entries).flatten ++ (targetsOf keys).flatten).map some) := by
  have hsets := lex_assignments h
  have hrelations := lex_relations hkeys
  have hreadSets : (items isComma ([.symbol ','].intercalate _)).mapM _ = _ :=
    mapM_readAssigned h isSeparator_of_isComma rfl
  have hreadRelations : (items isAnd ([.word andWord].intercalate _)).mapM _ = _ :=
    mapM_readAssigned hkeys isSeparator_of_isAnd rfl
  have hsetsSet : Cql.Closed isSet 0 ([.symbol ','].intercalate _) = true :=
    closed_entries h isSeparator_of_isSet rfl
  have hsetsWhere : Cql.Closed isWhere 0 ([.symbol ','].intercalate _) = true :=
    closed_entries h isSeparator_of_isWhere rfl
  have hrelationsSet : Cql.Closed isSet 0 ([.word andWord].intercalate _) = true :=
    closed_entries hkeys isSeparator_of_isSet rfl
  have hrelationsWhere : Cql.Closed isWhere 0 ([.word andWord].intercalate _) = true :=
    closed_entries hkeys isSeparator_of_isWhere rfl
  generalize ",".intercalate (entries.map entryText) = sets at *
  generalize " AND ".intercalate (keys.map entryText) = relations at *
  generalize [Token.symbol ','].intercalate (entries.map entryTokens) = ss at *
  generalize [Token.word andWord].intercalate (keys.map entryTokens) = rs at *
  have hwhere : lex _ = some (.word whereWord :: _) := lex_clause (by decide) (by decide) hrelations
  have hset : lex _ = some (.word setWord :: _) := lex_clause (by decide) (by decide)
    (lex_append_eq hsets (separates_cons (by decide) _) hwhere)
  have husing := lex_append_eq u.lex_render (separates_cons (by decide) _) hset
  have hbody := lex_append_eq (lex_quotedName hkeyspace htable)
    (u.separates_render (separates_cons (by decide) _)) husing
  apply aligned_of_read
  · have htext : ("UPDATE " ++ table.quotedName ++ u.render ++ " SET " ++ sets ++ " WHERE " ++
        relations).toList = updateWord ++ ' ' :: (table.quotedName.toList ++ (u.render.toList ++
          ' ' :: (setWord ++ ' ' :: (sets.toList ++
            ' ' :: (whereWord ++ ' ' :: relations.toList))))) := by
      simp [updateWord, setWord, whereWord]
    rw [htext, lex_keyword (by decide) (by decide), hbody]
    rfl
  · refine (readMarkers_update (List.cons_ne_nil _ _)).trans ?_
    exact readUpdate_eq (readTable_tableTokens table _) u.closed_tokens hsetsSet hrelationsSet
      hsetsWhere hrelationsWhere u.readUsing_tokens hreadSets hreadRelations

/-- The markers of a `SELECT`. -/
theorem aligned_select (hkeyspace : Ordinary table.keyspace) (htable : Ordinary table.table)
    (hnames : ∀ entry ∈ entries, Ordinary entry.1) (hkeys : Entries keys) :
    Aligned ("SELECT " ++ ",".intercalate (entries.map fun entry => Identifier.format entry.1) ++
        " FROM " ++ table.quotedName ++ " WHERE " ++ " AND ".intercalate (keys.map entryText))
      ((targetsOf keys).flatten.map some) := by
  have hcolumns := lex_names hnames
  have hcolumnItems := items_names entries
  have hclosed : Cql.Closed isFrom 0 ([.symbol ','].intercalate (entries.map _)) = true :=
    closed_intercalate isSeparator_of_isFrom (fun e _ => Identifier.closed_nameToken e.1) rfl
  have hrelations := lex_relations hkeys
  have hreadRelations : (items isAnd ([.word andWord].intercalate _)).mapM _ = _ :=
    mapM_readAssigned hkeys isSeparator_of_isAnd rfl
  have hrelationsFrom : Cql.Closed isFrom 0 ([.word andWord].intercalate _) = true :=
    closed_entries hkeys isSeparator_of_isFrom rfl
  have hrelationsWhere : Cql.Closed isWhere 0 ([.word andWord].intercalate _) = true :=
    closed_entries hkeys isSeparator_of_isWhere rfl
  generalize ",".intercalate (entries.map fun entry => Identifier.format entry.1) = columns at *
  generalize " AND ".intercalate (keys.map entryText) = relations at *
  generalize [Token.symbol ','].intercalate (entries.map fun e => [nameToken e.1]) = cs at *
  generalize [Token.word andWord].intercalate (keys.map entryTokens) = rs at *
  have hwhere : lex _ = some (.word whereWord :: _) := lex_clause (by decide) (by decide) hrelations
  have hfrom : lex _ = some (.word fromWord :: _) := lex_clause (by decide) (by decide)
    (lex_append_eq (lex_quotedName hkeyspace htable) (separates_cons (by decide) _) hwhere)
  have hbody := lex_append_eq hcolumns (separates_cons (by decide) _) hfrom
  apply aligned_of_read
  · have htext : ("SELECT " ++ columns ++ " FROM " ++ table.quotedName ++ " WHERE " ++
        relations).toList = selectWord ++ ' ' :: (columns.toList ++ ' ' :: (fromWord ++ ' ' ::
          (table.quotedName.toList ++ ' ' :: (whereWord ++ ' ' :: relations.toList)))) := by
      simp [selectWord, fromWord, whereWord]
    rw [htext, lex_keyword (by decide) (by decide), hbody]
    rfl
  · have hreadNames : (items isComma cs).mapM readName =
        some (entries.map fun entry => entry.1.toList) := by
      rw [hcolumnItems]
      exact mapM_map_eq_some fun entry _ => Identifier.asName_nameToken entry.1
    refine (readMarkers_select (by simp)).trans ?_
    exact readSelect_eq hclosed
      (Cql.Closed.mono isSeparator_of_isFrom (closed_tableTokens table)) hrelationsFrom
      (Cql.Closed.mono isSeparator_of_isWhere (closed_tableTokens table)) hrelationsWhere hreadNames
      (readTable_tableTokens table []) hreadRelations

end Statements

/-! ### What the statements of a mapping consist of -/

theorem targetsOf_append (a b : List (String × String)) :
    targetsOf (a ++ b) = targetsOf a ++ targetsOf b := List.map_append

/-- The bound values have one marker each, and the others none. -/
theorem flatten_targetsOf {α : Type} {xs : List α} {f : α → String × String} (bound : α → Bool)
    (h : ∀ x ∈ xs, (tokensOf (f x).2).count .marker = if bound x then 1 else 0) :
    (targetsOf (xs.map f)).flatten = (xs.filter bound).map fun x => .column (f x).1.toList := by
  induction xs with
  | nil => rfl
  | cons x xs ih =>
    rw [List.forall_mem_cons] at h
    have hcons : (targetsOf ((x :: xs).map f)).flatten =
        markersIn (.column (f x).1.toList) (tokensOf (f x).2) ++ (targetsOf (xs.map f)).flatten :=
      rfl
    rw [hcons, ih h.2, markersIn, h.1]
    cases hbound : bound x with
    | false => rw [List.filter_cons_of_neg (by simp [hbound])]; rfl
    | true => rw [List.filter_cons_of_pos hbound]; rfl

theorem count_tokensOf_marker : (tokensOf "?").count .marker = 1 := by decide

namespace TargetUpsert

variable {mapping : ColumnMapping} {u : UsingClause}

/-- The names and values of an `INSERT`: the bound columns, then the constants. -/
def insertEntries (mapping : ColumnMapping) : List (String × String) :=
  (boundColumns mapping mapping.targetColumns.zipIdx).map (fun column => (column.1.name, "?")) ++
    (constants mapping mapping.targetColumns.zipIdx).map fun column => (column.1.name, column.2)

theorem mem_constants {columns : List (ColumnMeta × ℕ)} {column : ColumnMeta} {literal : String}
    (h : (column, literal) ∈ constants mapping columns) :
    ∃ index, (column, index) ∈ columns ∧ mapping.source index = some (.constant literal) := by
  obtain ⟨⟨found, index⟩, hmem, heq⟩ := List.mem_filterMap.1 h
  dsimp only at heq
  split at heq
  · rename_i hsource
    cases heq
    exact ⟨index, hmem, hsource⟩
  · cases heq

/-- The literal of a constant column is a value, without a marker. -/
theorem isValue_constant (hmapping : mapping.Writable) {index : ℕ} {literal : String}
    (h : mapping.source index = some (.constant literal)) :
    IsValue literal ∧ (tokensOf literal).count .marker = 0 :=
  isValue_of_isTerm (hmapping.constant literal (List.mem_of_getElem? h))

theorem entries_insertEntries (hmapping : mapping.Writable) : Entries (insertEntries mapping) := by
  intro entry hentry
  rcases List.mem_append.1 hentry with hentry | hentry
  · obtain ⟨⟨column, index⟩, hmem, rfl⟩ := List.mem_map.1 hentry
    have hcolumn := List.mem_of_getElem?
      (List.mem_zipIdx_iff_getElem?.1 (List.mem_of_mem_filter hmem))
    exact ⟨hmapping.column column hcolumn, isValue_marker⟩
  · obtain ⟨⟨column, literal⟩, hmem, rfl⟩ := List.mem_map.1 hentry
    obtain ⟨index, hmem, hsource⟩ := mem_constants hmem
    have hcolumn := List.mem_of_getElem? (List.mem_zipIdx_iff_getElem?.1 hmem)
    exact ⟨hmapping.column column hcolumn, (isValue_constant hmapping hsource).1⟩

theorem quotedName_ne_empty (hmapping : mapping.Writable) {column : ColumnMeta}
    (h : column ∈ mapping.targetColumns) : column.quotedName ≠ "" :=
  format_ne_empty (hmapping.column column h)

theorem cql_insert (hmapping : mapping.Writable) (u : UsingClause) : (insert mapping u).cql =
    "INSERT INTO " ++ mapping.targetTable.quotedName ++ " (" ++
      ",".intercalate ((insertEntries mapping).map fun entry => Identifier.format entry.1) ++
      ") VALUES (" ++ ",".intercalate ((insertEntries mapping).map Prod.snd) ++ ")" ++ u.render := by
  have hentries := entries_insertEntries hmapping
  have hbound : ∀ name ∈ (boundColumns mapping mapping.targetColumns.zipIdx).map (·.1.quotedName),
      name ≠ "" := by
    intro name hname
    obtain ⟨⟨column, index⟩, hmem, rfl⟩ := List.mem_map.1 hname
    exact quotedName_ne_empty hmapping (List.mem_of_getElem?
      (List.mem_zipIdx_iff_getElem?.1 (List.mem_of_mem_filter hmem)))
  have hconstant : ∀ name ∈ (constants mapping mapping.targetColumns.zipIdx).map (·.1.quotedName),
      name ≠ "" := by
    intro name hname
    obtain ⟨⟨column, literal⟩, hmem, rfl⟩ := List.mem_map.1 hname
    obtain ⟨index, hmem, -⟩ := mem_constants hmem
    exact quotedName_ne_empty hmapping (List.mem_of_getElem? (List.mem_zipIdx_iff_getElem?.1 hmem))
  have hmarkers : ∀ value ∈ (boundColumns mapping mapping.targetColumns.zipIdx).map fun _ => "?",
      value ≠ "" := by
    intro value hvalue
    obtain ⟨_, -, rfl⟩ := List.mem_map.1 hvalue
    decide
  have hliterals : ∀ value ∈ (constants mapping mapping.targetColumns.zipIdx).map Prod.snd,
      value ≠ "" := by
    intro value hvalue
    obtain ⟨⟨column, literal⟩, hmem, rfl⟩ := List.mem_map.1 hvalue
    obtain ⟨index, -, hsource⟩ := mem_constants hmem
    exact (isValue_constant hmapping hsource).1.ne_empty
  have hnames : (insertEntries mapping).map (fun entry => Identifier.format entry.1) =
      (boundColumns mapping mapping.targetColumns.zipIdx).map (·.1.quotedName) ++
        (constants mapping mapping.targetColumns.zipIdx).map (·.1.quotedName) := by
    rw [insertEntries, List.map_append, List.map_map, List.map_map]
    rfl
  have hvalues : (insertEntries mapping).map Prod.snd =
      ((boundColumns mapping mapping.targetColumns.zipIdx).map fun _ => "?") ++
        (constants mapping mapping.targetColumns.zipIdx).map Prod.snd := by
    rw [insertEntries, List.map_append, List.map_map, List.map_map]
    rfl
  rw [hnames, hvalues, ← appendList_eq_intercalate hbound hconstant,
    ← appendList_eq_intercalate hmarkers hliterals, ← join_eq_intercalate hbound]
  rfl

/-- A column that is not a constant stands where its slot says. -/
theorem target_column {columns : List (ColumnMeta × ℕ)} (hcolumns : ∀ column ∈ columns,
    mapping.targetColumns[column.2]? = some column.1) :
    columns.map (fun column => (BindSlot.column column.2).target mapping) =
      columns.map fun column => some (.column column.1.name.toList) := by
  refine List.map_congr_left fun column hcolumn => ?_
  rw [BindSlot.target, hcolumns column hcolumn]
  rfl

theorem target_usingSlots (u : UsingClause) :
    (usingSlots u).map (BindSlot.target mapping) = u.targets.map some := by
  obtain ⟨ttl, timestamp⟩ := u
  cases ttl <;> cases timestamp <;> rfl

theorem targets_insert (hmapping : mapping.Writable) (u : UsingClause) :
    (insert mapping u).slots.map (BindSlot.target mapping) =
      ((targetsOf (insertEntries mapping)).flatten ++ u.targets).map some := by
  have hbound : (targetsOf ((boundColumns mapping mapping.targetColumns.zipIdx).map
      fun column => (column.1.name, "?"))).flatten =
      (boundColumns mapping mapping.targetColumns.zipIdx).map
        fun column => .column column.1.name.toList := by
    rw [flatten_targetsOf (fun _ => true), List.filter_true]
    exact fun column _ => count_tokensOf_marker
  have hconstant : (targetsOf ((constants mapping mapping.targetColumns.zipIdx).map
      fun column => (column.1.name, column.2))).flatten = [] := by
    rw [flatten_targetsOf (fun _ => false), List.filter_false]
    · rfl
    · rintro ⟨column, literal⟩ hmem
      obtain ⟨index, -, hsource⟩ := mem_constants hmem
      exact (isValue_constant hmapping hsource).2
  have hslots : (insert mapping u).slots =
      (boundColumns mapping mapping.targetColumns.zipIdx).map (fun column => BindSlot.column column.2) ++
        usingSlots u := rfl
  rw [insertEntries, targetsOf_append, List.flatten_append, hbound, hconstant, List.append_nil, hslots,
    List.map_append, List.map_append, target_usingSlots, List.map_map, List.map_map]
  refine congrArg (· ++ _) (target_column fun column hcolumn => ?_)
  exact List.mem_zipIdx_iff_getElem?.1 (List.mem_of_mem_filter hcolumn)

/-- The markers of an `INSERT` are its slots. -/
theorem aligned_insert_mapping (hmapping : mapping.Writable) (u : UsingClause) :
    Aligned (insert mapping u).cql ((insert mapping u).slots.map (BindSlot.target mapping)) := by
  rw [cql_insert hmapping, targets_insert hmapping]
  exact aligned_insert hmapping.keyspace hmapping.table (entries_insertEntries hmapping) u

/-! ### The `UPDATE` -/

/-- The name and the value of one entry of the `SET` list. -/
def setEntry (mapping : ColumnMapping) (column : ColumnMeta × ℕ) : String × String :=
  (column.1.name, match mapping.source column.2 with
    | some (.constant literal) => literal
    | _ => if column.1.isCounter then column.1.quotedName ++ "+?" else "?")

theorem setEntry_constant {column : ColumnMeta × ℕ} {literal : String}
    (h : mapping.source column.2 = some (.constant literal)) :
    setEntry mapping column = (column.1.name, literal) := by
  rw [setEntry, h]

theorem setEntry_bound {column : ColumnMeta × ℕ} (h : isConstant mapping column.2 = false) :
    setEntry mapping column =
      (column.1.name, if column.1.isCounter then column.1.quotedName ++ "+?" else "?") := by
  rw [setEntry]
  rw [isConstant] at h
  split
  · rename_i hsource
    rw [hsource] at h
    cases h
  · rfl

/-- A column is a constant, or it is bound. -/
theorem constant_or_bound (mapping : ColumnMapping) (index : ℕ) :
    (∃ literal, mapping.source index = some (.constant literal) ∧ isConstant mapping index = true) ∨
      isConstant mapping index = false := by
  rw [isConstant]
  cases mapping.source index with
  | none => exact .inr rfl
  | some source =>
    cases source with
    | constant literal => exact .inl ⟨literal, rfl, rfl⟩
    | _ => exact .inr rfl

theorem assignment_eq (column : ColumnMeta × ℕ) :
    assignment mapping column = entryText (setEntry mapping column) := by
  rcases constant_or_bound mapping column.2 with ⟨literal, hsource, -⟩ | hbound
  · rw [setEntry_constant hsource, assignment, hsource]
    rfl
  · rw [setEntry_bound hbound, assignment]
    rw [isConstant] at hbound
    split
    · rename_i hsource
      rw [hsource] at hbound
      cases hbound
    · split_ifs
      · exact (entryText_counter column.1.name).symm
      · exact (entryText_marker column.1.name).symm

/-- The value of an entry has one marker, unless it is a constant. -/
theorem isValue_setEntry (hmapping : mapping.Writable) {column : ColumnMeta × ℕ}
    (hcolumn : column.1 ∈ mapping.targetColumns) :
    IsValue (setEntry mapping column).2 ∧ (tokensOf (setEntry mapping column).2).count .marker =
      if !isConstant mapping column.2 then 1 else 0 := by
  rcases constant_or_bound mapping column.2 with ⟨literal, hsource, hconstant⟩ | hbound
  · rw [setEntry_constant hsource, hconstant]
    exact isValue_constant hmapping hsource
  · rw [setEntry_bound hbound, hbound]
    dsimp only
    rw [Bool.not_false, if_pos rfl]
    split_ifs
    · obtain ⟨hvalue, htokens⟩ := isValue_counter (hmapping.column column.1 hcolumn)
      refine ⟨hvalue, ?_⟩
      rw [ColumnMeta.quotedName, htokens]
      rcases Identifier.nameToken_cases column.1.name with heq | ⟨heq, -⟩
      · rw [heq]
        rfl
      · rw [heq]
        rfl
    · exact ⟨isValue_marker, count_tokensOf_marker⟩

/-! ### The `WHERE` clause -/

/-- The name and the value of one term of the `WHERE` clause. -/
def keyEntry (mapping : ColumnMapping) (column : ColumnMeta) : String × String :=
  (column.name, match mapping.sourceOf column.name with
    | some (.constant literal) => literal
    | _ => "?")

/-- Whether a term of the `WHERE` clause takes a marker. -/
def isBoundKey (mapping : ColumnMapping) (column : ColumnMeta) : Bool :=
  !(mapping.sourceOf column.name).any TargetSource.isConstant

theorem whereTerm_eq_ok {column : ColumnMeta} {term : String × Option String}
    (h : whereTerm mapping column = .ok term) : term = (entryText (keyEntry mapping column),
      if isBoundKey mapping column then some column.name else none) := by
  rw [whereTerm] at h
  rw [keyEntry, isBoundKey]
  split at h
  · rename_i hsource
    cases h
    rw [hsource]
    rfl
  · cases h
  · cases h
  · rename_i source hconstant habsent hsource
    cases h
    rw [hsource]
    cases source with
    | constant literal => exact absurd rfl (hconstant literal)
    | _ => exact Prod.ext (entryText_marker column.name).symm rfl

/-- The `WHERE` clause, and the columns that it binds. -/
theorem whereClause_eq_ok {predicate : String} {bound : List String}
    (h : whereClause mapping = .ok (predicate, bound)) :
    predicate = " AND ".intercalate (mapping.targetTable.primaryKey.map fun column =>
        entryText (keyEntry mapping column)) ∧
      bound = (mapping.targetTable.primaryKey.filter (isBoundKey mapping)).map ColumnMeta.name := by
  obtain ⟨terms, hterms, h⟩ := bind_eq_ok.1 h
  cases h
  have hall := mapM_eq_ok hterms
  clear h
  generalize mapping.targetTable.primaryKey = keys at hall
  have hmap : terms = keys.map fun column => (entryText (keyEntry mapping column),
      if isBoundKey mapping column then some column.name else none) := by
    clear hterms
    induction hall with
    | nil => rfl
    | cons hterm _ ih => rw [List.map_cons, whereTerm_eq_ok hterm, ih]
  refine ⟨by rw [hmap, List.map_map]; rfl, ?_⟩
  rw [hmap, List.map_map]
  clear hterms hall hmap
  induction keys with
  | nil => rfl
  | cons key keys ih =>
    cases hbound : isBoundKey mapping key with
    | false =>
      rw [List.filter_cons_of_neg (by simp [hbound]), List.map_cons, ← ih]
      simp [hbound, List.reduceOption]
    | true =>
      rw [List.filter_cons_of_pos hbound, List.map_cons, List.map_cons, ← ih]
      simp [hbound, List.reduceOption]

/-- A key column is found where it stands. -/
theorem exists_key_index {column : ColumnMeta} (h : column ∈ mapping.targetTable.primaryKey) :
    ∃ index, mapping.targetColumns[index]? = some column ∧
      mapping.targetColumns.findIdx? (·.name = column.name) = some index ∧
      isBoundKey mapping column = !isConstant mapping index := by
  obtain ⟨index, hindex⟩ := List.mem_iff_getElem?.1 (mapping.targetTable.mem_primaryKey.1 h).1
  refine ⟨index, hindex, ColumnMapping.findIdx?_name hindex, ?_⟩
  rw [isBoundKey, ColumnMapping.sourceOf_name hindex, isConstant]

theorem target_keys {keys : List ColumnMeta}
    (hkeys : ∀ column ∈ keys, column ∈ mapping.targetTable.primaryKey) :
    (((keys.filterMap fun column => mapping.targetColumns.findIdx? (·.name = column.name)).filter
      fun index => !isConstant mapping index).map BindSlot.keyColumn).map (BindSlot.target mapping) =
      (keys.filter (isBoundKey mapping)).map fun column => some (.column column.name.toList) := by
  induction keys with
  | nil => rfl
  | cons key keys ih =>
    rw [List.forall_mem_cons] at hkeys
    obtain ⟨index, hindex, hfind, hbound⟩ := exists_key_index hkeys.1
    have hrest := ih hkeys.2
    have hcons : ((key :: keys).filterMap fun column =>
        mapping.targetColumns.findIdx? (·.name = column.name)) =
        index :: keys.filterMap fun column =>
          mapping.targetColumns.findIdx? (·.name = column.name) := by
      rw [List.filterMap_cons, hfind]
    rw [hcons]
    cases hconstant : isConstant mapping index with
    | true =>
      rw [List.filter_cons_of_neg (by simp [hconstant]),
        List.filter_cons_of_neg (by simp [hbound, hconstant])]
      exact hrest
    | false =>
      rw [List.filter_cons_of_pos (by simp [hconstant]),
        List.filter_cons_of_pos (by simp [hbound, hconstant]), List.map_cons, List.map_cons,
        List.map_cons, hrest, BindSlot.target, hindex]
      rfl

theorem entries_keys (hmapping : mapping.Writable) :
    Entries (mapping.targetTable.primaryKey.map (keyEntry mapping)) ∧
      ∀ column ∈ mapping.targetTable.primaryKey,
        (tokensOf (keyEntry mapping column).2).count .marker =
          if isBoundKey mapping column then 1 else 0 := by
  have hvalue : ∀ column ∈ mapping.targetTable.primaryKey, IsValue (keyEntry mapping column).2 ∧
      (tokensOf (keyEntry mapping column).2).count .marker =
        if isBoundKey mapping column then 1 else 0 := by
    intro column hcolumn
    obtain ⟨index, hindex, -, hbound⟩ := exists_key_index hcolumn
    have hsource := ColumnMapping.sourceOf_name hindex
    rw [hbound, keyEntry, hsource]
    rcases constant_or_bound mapping index with ⟨literal, hliteral, hconstant⟩ | hfree
    · rw [hliteral, hconstant]
      exact isValue_constant hmapping hliteral
    · rw [hfree]
      rw [isConstant] at hfree
      split
      · rename_i hliteral
        rw [hliteral] at hfree
        cases hfree
      · exact ⟨isValue_marker, count_tokensOf_marker⟩
  refine ⟨?_, fun column hcolumn => (hvalue column hcolumn).2⟩
  intro entry hentry
  obtain ⟨column, hcolumn, rfl⟩ := List.mem_map.1 hentry
  exact ⟨hmapping.column column (mapping.targetTable.mem_primaryKey.1 hcolumn).1,
    (hvalue column hcolumn).1⟩

/-- What the markers of the `WHERE` clause stand for. -/
theorem targets_keys (hmapping : mapping.Writable) :
    (targetsOf (mapping.targetTable.primaryKey.map (keyEntry mapping))).flatten =
      (mapping.targetTable.primaryKey.filter (isBoundKey mapping)).map
        fun column => .column column.name.toList :=
  flatten_targetsOf (isBoundKey mapping) (entries_keys hmapping).2

/-- The columns of the `SET` list. -/
def setColumns (mapping : ColumnMapping) : List (ColumnMeta × ℕ) :=
  mapping.targetColumns.zipIdx.filter fun column => !column.1.kind.isKey

theorem getElem?_of_mem_setColumns {column : ColumnMeta × ℕ} (h : column ∈ setColumns mapping) :
    mapping.targetColumns[column.2]? = some column.1 :=
  List.mem_zipIdx_iff_getElem?.1 (List.mem_of_mem_filter h)

theorem entries_set (hmapping : mapping.Writable) :
    Entries ((setColumns mapping).map (setEntry mapping)) := by
  intro entry hentry
  obtain ⟨column, hcolumn, rfl⟩ := List.mem_map.1 hentry
  have hmem := List.mem_of_getElem? (getElem?_of_mem_setColumns hcolumn)
  refine ⟨?_, (isValue_setEntry hmapping hmem).1⟩
  have hname : (setEntry mapping column).1 = column.1.name := rfl
  rw [hname]
  exact hmapping.column column.1 hmem

/-- What the markers of the `SET` list stand for. -/
theorem targets_set (hmapping : mapping.Writable) :
    (targetsOf ((setColumns mapping).map (setEntry mapping))).flatten =
      (boundColumns mapping (setColumns mapping)).map fun column => .column column.1.name.toList :=
  flatten_targetsOf (fun column => !isConstant mapping column.2) fun _ hcolumn =>
    (isValue_setEntry hmapping (List.mem_of_getElem? (getElem?_of_mem_setColumns hcolumn))).2

/-- What an `UPDATE` consists of. -/
theorem update_eq_ok {u : UsingClause} {statement : TargetUpsert}
    (h : update mapping u = .ok statement) :
    statement.cql = "UPDATE " ++ mapping.targetTable.quotedName ++ u.render ++ " SET " ++
        ",".intercalate (((setColumns mapping).map (setEntry mapping)).map entryText) ++ " WHERE " ++
        " AND ".intercalate ((mapping.targetTable.primaryKey.map (keyEntry mapping)).map entryText) ∧
      statement.slots = usingSlots u ++ (boundColumns mapping (setColumns mapping)).map
        (fun column => BindSlot.column column.2) ++ keySlots mapping := by
  rw [update] at h
  dsimp only at h
  split at h
  · cases h
  obtain ⟨⟨predicate, bound⟩, hwhere, h⟩ := bind_eq_ok.1 h
  cases h
  obtain ⟨hpredicate, -⟩ := whereClause_eq_ok hwhere
  have hassignments : ((setColumns mapping).map (setEntry mapping)).map entryText =
      (setColumns mapping).map (assignment mapping) := by
    rw [List.map_map]
    exact List.map_congr_left fun column _ => (assignment_eq column).symm
  have hrelations : (mapping.targetTable.primaryKey.map (keyEntry mapping)).map entryText =
      mapping.targetTable.primaryKey.map fun column => entryText (keyEntry mapping column) := by
    rw [List.map_map]
    rfl
  rw [hassignments, hrelations, ← hpredicate]
  exact ⟨rfl, rfl⟩

/-- The markers of an `UPDATE` are its slots. -/
theorem aligned_update_mapping (hmapping : mapping.Writable) {u : UsingClause}
    {statement : TargetUpsert} (h : update mapping u = .ok statement) :
    Aligned statement.cql (statement.slots.map (BindSlot.target mapping)) := by
  obtain ⟨hcql, hslots⟩ := update_eq_ok h
  have haligned := aligned_update hmapping.keyspace hmapping.table (entries_set hmapping)
    (entries_keys hmapping).1 u
  rw [← hcql, targets_set hmapping, targets_keys hmapping, List.map_append, List.map_append,
    List.map_map, List.map_map] at haligned
  rw [hslots, List.map_append, List.map_append, target_usingSlots, List.map_map, keySlots,
    target_keys fun _ => id]
  have hset : (boundColumns mapping (setColumns mapping)).map
      (BindSlot.target mapping ∘ fun column => BindSlot.column column.2) =
      (boundColumns mapping (setColumns mapping)).map
        fun column => some (.column column.1.name.toList) :=
    target_column fun column hcolumn => getElem?_of_mem_setColumns (List.mem_of_mem_filter hcolumn)
  rw [hset]
  exact haligned

/-- Only columns that are no constants take a bind marker. -/
theorem isConstant_of_mem_slots {u : UsingClause} {statement : TargetUpsert}
    (h : new mapping u = .ok statement) {slot : BindSlot} (hslot : slot ∈ statement.slots) {index : ℕ}
    (hindex : slot.columnIndex = some index) : isConstant mapping index = false := by
  have husing : slot ∉ usingSlots u := by
    intro hmem
    rw [usingSlots, List.mem_append] at hmem
    rcases hmem with hmem | hmem
    · split_ifs at hmem
      · cases List.mem_singleton.1 hmem
        cases hindex
      · cases hmem
    · split_ifs at hmem
      · cases List.mem_singleton.1 hmem
        cases hindex
      · cases hmem
  have hbound {columns : List (ColumnMeta × ℕ)}
      (hmem : slot ∈ (boundColumns mapping columns).map fun column => .column column.2) :
      isConstant mapping index = false := by
    obtain ⟨column, hcolumn, rfl⟩ := List.mem_map.1 hmem
    cases hindex
    simpa using (List.mem_filter.1 hcolumn).2
  rw [new] at h
  split at h
  · rw [(update_eq_ok h).2, List.mem_append, List.mem_append] at hslot
    rcases hslot with (hmem | hmem) | hmem
    · exact absurd hmem husing
    · exact hbound hmem
    · obtain ⟨i, hi, rfl⟩ := List.mem_map.1 hmem
      cases hindex
      simpa using (List.mem_filter.1 hi).2
  · cases h
    rcases List.mem_append.1 hslot with hmem | hmem
    · exact hbound hmem
    · exact absurd hmem husing

end TargetUpsert

/-- The markers of a lookup are the key columns that are bound. -/
theorem TargetSelectByPk.aligned_mapping {mapping : ColumnMapping} (hmapping : mapping.Writable)
    {select : TargetSelectByPk} (h : TargetSelectByPk.new mapping = .ok select) :
    Aligned select.cql (select.boundKeyColumns.map fun name => some (.column name.toList)) ∧
      select.boundKeyColumns = (mapping.targetTable.primaryKey.filter
        (TargetUpsert.isBoundKey mapping)).map ColumnMeta.name := by
  obtain ⟨⟨predicate, bound⟩, hwhere, h⟩ := bind_eq_ok.1 h
  cases h
  obtain ⟨hpredicate, hbound⟩ := TargetUpsert.whereClause_eq_ok hwhere
  refine ⟨?_, hbound⟩
  have hnames : ∀ entry ∈ mapping.targetTable.columns.map (fun column => (column.name, "?")),
      Ordinary entry.1 := by
    intro entry hentry
    obtain ⟨column, hcolumn, rfl⟩ := List.mem_map.1 hentry
    exact hmapping.column column hcolumn
  have hcolumns : join (mapping.targetTable.columns.map ColumnMeta.quotedName) =
      ",".intercalate ((mapping.targetTable.columns.map fun column => (column.name, "?")).map
        fun entry => Identifier.format entry.1) := by
    rw [join_eq_intercalate, List.map_map]
    · rfl
    · intro name hname
      obtain ⟨column, hcolumn, rfl⟩ := List.mem_map.1 hname
      exact TargetUpsert.quotedName_ne_empty hmapping hcolumn
  have haligned := aligned_select hmapping.keyspace hmapping.table hnames
    (TargetUpsert.entries_keys hmapping).1
  rw [TargetUpsert.targets_keys hmapping, ← hcolumns, List.map_map, List.map_map] at haligned
  show Aligned ("SELECT " ++ _ ++ " FROM " ++ _ ++ " WHERE " ++ predicate) (bound.map _)
  rw [hpredicate, hbound, List.map_map]
  exact haligned

/-- The markers of the statements of a mapping: each stands for what its slot names, there is one
for each slot, and the constants have none. -/
theorem ColumnMapping.markers_line_up {mapping : ColumnMapping} (hmapping : mapping.Writable) :
    (∀ u statement, TargetUpsert.new mapping u = .ok statement →
      Aligned statement.cql (statement.slots.map (BindSlot.target mapping)) ∧
      ∀ slot ∈ statement.slots, ∀ index, slot.columnIndex = some index →
        TargetUpsert.isConstant mapping index = false) ∧
    ∀ select, TargetSelectByPk.new mapping = .ok select →
      Aligned select.cql (select.boundKeyColumns.map fun name => some (.column name.toList)) ∧
      ∀ name ∈ select.boundKeyColumns,
        (mapping.sourceOf name).any TargetSource.isConstant = false := by
  refine ⟨fun u statement hstatement => ⟨?_, ?_⟩, fun select hselect => ?_⟩
  · rw [TargetUpsert.new] at hstatement
    split at hstatement
    · exact TargetUpsert.aligned_update_mapping hmapping hstatement
    · cases hstatement
      exact TargetUpsert.aligned_insert_mapping hmapping u
  · intro slot hslot index hindex
    exact TargetUpsert.isConstant_of_mem_slots hstatement hslot hindex
  · obtain ⟨haligned, hbound⟩ := TargetSelectByPk.aligned_mapping hmapping hselect
    refine ⟨haligned, fun name hname => ?_⟩
    rw [hbound] at hname
    obtain ⟨column, hcolumn, rfl⟩ := List.mem_map.1 hname
    simpa [TargetUpsert.isBoundKey] using (List.mem_filter.1 hcolumn).2

/-! ### A counter table -/

namespace MarkerSample

def dayColumn : ColumnMeta := ⟨"day", "text", .clustering, 0⟩

def hitsColumn : ColumnMeta := ⟨"hits", "counter", .regular, -1⟩

def idColumn : ColumnMeta := ⟨"id", "int", .partitionKey, 0⟩

def table : TableSchema where
  keyspace := "ks"
  table := "t"
  columns := [dayColumn, hitsColumn, idColumn]
  nodup := by decide

/-- The clustering key is a constant. -/
def mapping : ColumnMapping where
  originColumns := [hitsColumn, idColumn]
  sources := [.constant "'?'", .origin 0, .origin 1]
  originTable := table
  targetTable := table
  length_sources := rfl
  originIndex_lt := by decide
  key_derivable := by decide

theorem writable_mapping : mapping.Writable where
  keyspace := ⟨by decide, by decide, by decide⟩
  table := ⟨by decide, by decide, by decide⟩
  column := by
    intro column hcolumn
    rcases List.mem_cons.1 hcolumn with rfl | hcolumn
    · exact ⟨by decide, by decide, by decide⟩
    rcases List.mem_cons.1 hcolumn with rfl | hcolumn
    · exact ⟨by decide, by decide, by decide⟩
    cases List.mem_singleton.1 hcolumn
    exact ⟨by decide, by decide, by decide⟩
  constant := by
    intro literal hliteral
    rcases List.mem_cons.1 hliteral with heq | hliteral
    · cases heq
      decide
    · simp at hliteral

/-- Two markers, and the question mark in the literal is none. -/
theorem markers_line_up_counter :
    ∃ statement select, TargetUpsert.new mapping ⟨false, false⟩ = .ok statement ∧
      statement.cql = "UPDATE ks.t SET hits=hits+? WHERE id=? AND day='?'" ∧
      statement.slots = [.column 1, .keyColumn 2] ∧
      Aligned statement.cql (statement.slots.map (BindSlot.target mapping)) ∧
      TargetSelectByPk.new mapping = .ok select ∧
      select.cql = "SELECT day,hits,id FROM ks.t WHERE id=? AND day='?'" ∧
      Aligned select.cql (select.boundKeyColumns.map fun name => some (.column name.toList)) := by
  refine ⟨_, _, rfl, by decide, by decide, ?_, rfl, by decide, ?_⟩
  · exact ((ColumnMapping.markers_line_up writable_mapping).1 ⟨false, false⟩ _ rfl).1
  · exact ((ColumnMapping.markers_line_up writable_mapping).2 _ rfl).1

/-- A name that has the shape of two names in quotation marks. -/
def odd : ColumnMeta := ⟨"\"a\"?\"b\"", "int", .partitionKey, 0⟩

def oddTable : TableSchema where
  keyspace := "ks"
  table := "t"
  columns := [odd]
  nodup := by decide

def oddMapping : ColumnMapping where
  originColumns := [odd]
  sources := [.origin 0]
  originTable := oddTable
  targetTable := oddTable
  length_sources := rfl
  originIndex_lt := by decide
  key_derivable := by decide

/-- Such a name is put into the statement as it is, with the question mark. -/
theorem markers_not_aligned :
    ∃ statement, TargetUpsert.new oddMapping ⟨false, false⟩ = .ok statement ∧
      statement.slots.length = 1 ∧
      (lex statement.cql.toList).map (fun ts => ts.count .marker) = some 2 ∧
      ¬Aligned statement.cql (statement.slots.map (BindSlot.target oddMapping)) := by
  refine ⟨_, rfl, by decide, by decide, ?_⟩
  rintro ⟨ts, found, hlex, -, -, hcount⟩
  have hmarkers : (lex (TargetUpsert.insert oddMapping ⟨false, false⟩).cql.toList).map
      (fun ts => ts.count .marker) = some 2 := by decide
  rw [hlex, Option.map_some, hcount] at hmarkers
  cases hmarkers

end MarkerSample

end Cdm
