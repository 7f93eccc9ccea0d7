import Cdm.Lib.CqlTokens

/-!
# The bind markers of a statement

What each bind marker of an `INSERT`, an `UPDATE` or a `SELECT … WHERE` stands for is read from the
tokens of the statement alone: the column that it is the value of, or the TTL or the timestamp.  The
reader goes through the statement as the grammar does, so every marker of a statement that is read
has been accounted for (`Cql.length_readMarkers`).

A term is any text in balanced brackets that nothing on the outside separates.
-/

namespace Cql

open List Option

/-! ### Brackets -/

namespace Token

/-- How deep in brackets the next token stands. -/
def depth (d : ℕ) : Token → ℕ
  | symbol c =>
    if c ∈ ['(', '[', '\x7b'] then d + 1 else if c ∈ [')', ']', '\x7d'] then d - 1 else d
  | _ => d

/-- Whether the token closes a bracket. -/
def closes : Token → Bool
  | symbol c => c ∈ [')', ']', '\x7d']
  | _ => false

def isKeyword (keyword : List Char) : Token → Bool
  | word text => Text.toLower text = Text.toLower keyword
  | _ => false

/-- The name that a token is. -/
def asName : Token → Option (List Char)
  | word text => some (Text.toLower text)
  | name text => some text
  | _ => none

end Token

variable {p q : Token → Bool}

/-- Tokens in balanced brackets, counted from depth `d`, none of which is a separator outside them.
-/
def Closed (p : Token → Bool) : ℕ → List Token → Bool
  | d, [] => d = 0
  | d, t :: ts =>
    if d = 0 then !p t && !t.closes && Closed p (t.depth 0) ts else Closed p (t.depth d) ts

theorem Closed.mono (hpq : ∀ t, q t = true → p t = true) {d : ℕ} {ts : List Token}
    (h : Closed p d ts = true) : Closed q d ts = true := by
  induction ts generalizing d with
  | nil => exact h
  | cons t ts ih =>
    rw [Closed] at h ⊢
    split_ifs at h ⊢
    · simp only [Bool.and_eq_true, Bool.not_eq_true'] at h ⊢
      exact ⟨⟨Bool.eq_false_iff.2 fun hq => by rw [hpq t hq] at h; exact absurd h.1.1 (by simp), h.1.2⟩,
        ih h.2⟩
    · exact ih h

theorem Closed.append {d : ℕ} {ts us : List Token} (hts : Closed p d ts = true)
    (hus : Closed p 0 us = true) : Closed p d (ts ++ us) = true := by
  induction ts generalizing d with
  | nil =>
    have hd : d = 0 := of_decide_eq_true hts
    rw [hd]
    exact hus
  | cons t ts ih =>
    rw [cons_append]
    rw [Closed] at hts ⊢
    split_ifs at hts ⊢
    · simp only [Bool.and_eq_true] at hts ⊢
      exact ⟨hts.1, ih hts.2⟩
    · exact ih hts

/-- A token that is neither a bracket nor a separator. -/
theorem closed_singleton {t : Token} (hp : p t = false) (hdepth : t.depth 0 = 0)
    (hcloses : t.closes = false) : Closed p 0 [t] = true := by
  rw [Closed, if_pos rfl, hp, hcloses, hdepth]
  rfl

/-- A word that is no separator changes nothing. -/
theorem closed_word {word : List Char} (hp : p (.word word) = false) {ts : List Token}
    (h : Closed p 0 ts = true) : Closed p 0 (.word word :: ts) = true := by
  rw [Closed, if_pos rfl, hp]
  exact h

/-- The pieces between the separators that stand outside brackets. -/
def splitTop (p : Token → Bool) : ℕ → List Token → List (List Token)
  | _, [] => [[]]
  | d, t :: ts =>
    if d = 0 ∧ p t = true then [] :: splitTop p 0 ts
    else
      match splitTop p (t.depth d) ts with
      | [] => [[t]]
      | piece :: pieces => (t :: piece) :: pieces

theorem splitTop_closed {d : ℕ} {piece : List Token} (h : Closed p d piece = true) :
    splitTop p d piece = [piece] := by
  induction piece generalizing d with
  | nil => rfl
  | cons t ts ih =>
    rw [Closed] at h
    rw [splitTop]
    split_ifs at h with hd
    · simp only [Bool.and_eq_true, Bool.not_eq_true'] at h
      rw [if_neg (by simp [h.1.1]), hd, ih h.2]
    · rw [if_neg (by simp [hd]), ih h]

theorem splitTop_append {d : ℕ} {piece : List Token} (h : Closed p d piece = true) {sep : Token}
    (hsep : p sep = true) (rest : List Token) :
    splitTop p d (piece ++ sep :: rest) = piece :: splitTop p 0 rest := by
  induction piece generalizing d with
  | nil =>
    have hd : d = 0 := of_decide_eq_true h
    rw [nil_append, splitTop, if_pos ⟨hd, hsep⟩]
  | cons t ts ih =>
    rw [Closed] at h
    rw [cons_append, splitTop]
    split_ifs at h with hd
    · simp only [Bool.and_eq_true, Bool.not_eq_true'] at h
      rw [if_neg (by simp [h.1.1]), hd, ih h.2]
    · rw [if_neg (by simp [hd]), ih h]

/-- Pieces that are joined by a separator are split again. -/
theorem splitTop_join {pieces : List (List Token)} (hne : pieces ≠ [])
    (h : ∀ piece ∈ pieces, Closed p 0 piece = true) {sep : Token} (hsep : p sep = true) :
    splitTop p 0 ([sep].intercalate pieces) = pieces := by
  induction pieces with
  | nil => exact absurd rfl hne
  | cons piece pieces ih =>
    rw [forall_mem_cons] at h
    cases pieces with
    | nil => rw [intercalate_singleton, splitTop_closed h.1]
    | cons other others =>
      rw [intercalate_cons_cons, append_assoc, singleton_append,
        splitTop_append h.1 hsep, ih (cons_ne_nil other others) h.2]

/-- What stands before the bracket that closes, and what stands behind it. -/
def untilClose : ℕ → List Token → Option (List Token × List Token)
  | _, [] => none
  | d, t :: ts =>
    if d = 0 ∧ t = .symbol ')' then some ([], ts)
    else (untilClose (t.depth d) ts).map fun found => (t :: found.1, found.2)

theorem untilClose_closed {d : ℕ} {content : List Token} (h : Closed p d content = true)
    (rest : List Token) : untilClose d (content ++ .symbol ')' :: rest) = some (content, rest) := by
  induction content generalizing d with
  | nil =>
    have hd : d = 0 := of_decide_eq_true h
    rw [nil_append, untilClose, if_pos ⟨hd, rfl⟩]
  | cons t ts ih =>
    rw [Closed] at h
    rw [cons_append, untilClose]
    split_ifs at h with hd
    · simp only [Bool.and_eq_true, Bool.not_eq_true'] at h
      have hne : t ≠ .symbol ')' := by
        rintro rfl
        exact absurd h.1.2 (by decide)
      rw [if_neg (by simp [hne]), hd, ih h.2]
      rfl
    · rw [if_neg (by simp [hd]), ih h]
      rfl

/-- Only the separator between them separates pieces. -/
theorem closed_intercalate {α : Type} {xs : List α} {piece : α → List Token}
    (hpq : ∀ t, q t = true → p t = true) (h : ∀ x ∈ xs, Closed p 0 (piece x) = true) {sep : Token}
    (hsep : Closed q 0 [sep] = true) : Closed q 0 ([sep].intercalate (xs.map piece)) = true := by
  induction xs with
  | nil => rfl
  | cons x xs ih =>
    rw [forall_mem_cons] at h
    cases xs with
    | nil =>
      rw [map_singleton, intercalate_singleton]
      exact Closed.mono hpq h.1
    | cons other others =>
      rw [map_cons, map_cons, intercalate_cons_cons]
      exact Closed.append (Closed.append (Closed.mono hpq h.1) hsep) (ih h.2)

/-! ### Reading a statement -/

/-- What a bind marker stands for. -/
inductive Target
  | column (name : List Char)
  | ttl
  | timestamp
  deriving DecidableEq, Repr

def isComma (t : Token) : Bool := t = .symbol ','

def isAnd : Token → Bool := Token.isKeyword andWord

def isWhere : Token → Bool := Token.isKeyword whereWord

def isSet : Token → Bool := Token.isKeyword setWord

def isFrom : Token → Bool := Token.isKeyword fromWord

def isUsing : Token → Bool := Token.isKeyword usingWord

/-- What separates the terms of a statement, and its clauses. -/
def isSeparator (t : Token) : Bool :=
  isComma t || isAnd t || isWhere t || isSet t || isFrom t || isUsing t || t = .symbol ';'

theorem isSeparator_of_isComma (t : Token) (h : isComma t = true) : isSeparator t = true := by
  simp [isSeparator, h]

theorem isSeparator_of_isAnd (t : Token) (h : isAnd t = true) : isSeparator t = true := by
  simp [isSeparator, h]

theorem isSeparator_of_isWhere (t : Token) (h : isWhere t = true) : isSeparator t = true := by
  simp [isSeparator, h]

theorem isSeparator_of_isSet (t : Token) (h : isSet t = true) : isSeparator t = true := by
  simp [isSeparator, h]

theorem isSeparator_of_isFrom (t : Token) (h : isFrom t = true) : isSeparator t = true := by
  simp [isSeparator, h]

/-- Whether a text is a term without a bind marker. -/
def isTerm (text : List Char) : Bool :=
  match lex text with
  | some ts => !ts.isEmpty && Closed isSeparator 0 ts && ts.count .marker = 0
  | none => false

/-- The markers of a term. -/
def markersIn (target : Target) (term : List Token) : List Target :=
  List.replicate (term.count .marker) target

/-- The pieces between separators, if there is anything. -/
def items (p : Token → Bool) (ts : List Token) : List (List Token) :=
  if ts = [] then [] else splitTop p 0 ts

def readName : List Token → Option (List Char)
  | [t] => t.asName
  | _ => none

/-- What follows the name of a table behind its keyspace. -/
def readTable : List Token → Option (List Token)
  | keyspace :: .symbol '.' :: table :: rest =>
    if keyspace.asName.isSome && table.asName.isSome then some rest else none
  | _ => none

/-- `column = term` -/
def readAssigned : List Token → Option (List Target)
  | name :: .symbol '=' :: term => name.asName.map fun column => markersIn (.column column) term
  | _ => none

/-- One option of a `USING` clause. -/
def readOption : List Token → Option (List Target)
  | t :: term =>
    if t.isKeyword ttlWord then some (markersIn .ttl term)
    else if t.isKeyword timestampWord then
      some (markersIn .timestamp term)
    else none
  | [] => none

/-- A `USING` clause, or nothing. -/
def readUsing : List Token → Option (List Target)
  | [] => some []
  | t :: ts =>
    if isUsing t then ((splitTop isAnd 0 ts).mapM readOption).map List.flatten else none

/-- A value of an `INSERT`, with the name in the list of columns. -/
def readValue (value : List Token × List Token) : Option (List Target) :=
  (readName value.1).map fun column => markersIn (.column column) value.2

/-- `INSERT INTO ks.table (columns) VALUES (terms) [USING …]`, behind the keywords. -/
def readInsert (ts : List Token) : Option (List Target) := do
  let rest ← readTable ts
  match rest with
  | .symbol '(' :: rest =>
    let (names, rest) ← untilClose 0 rest
    match rest with
    | values :: .symbol '(' :: rest =>
      let (terms, rest) ← untilClose 0 rest
      if values.isKeyword valuesWord &&
          (items isComma names).length = (items isComma terms).length then
        let columns ← ((items isComma names).zip (items isComma terms)).mapM readValue
        let options ← readUsing rest
        some (columns.flatten ++ options)
      else none
    | _ => none
  | _ => none

/-- `UPDATE ks.table [USING …] SET assignments WHERE relations`, behind the keyword. -/
def readUpdate (ts : List Token) : Option (List Target) := do
  let rest ← readTable ts
  match splitTop isSet 0 rest with
  | [options, rest] =>
    match splitTop isWhere 0 rest with
    | [assignments, relations] =>
      let options ← readUsing options
      let assigned ← (items isComma assignments).mapM readAssigned
      let related ← (items isAnd relations).mapM readAssigned
      some (options ++ assigned.flatten ++ related.flatten)
    | _ => none
  | _ => none

/-- `SELECT columns FROM ks.table WHERE relations`, behind the keyword. -/
def readSelect (ts : List Token) : Option (List Target) := do
  match splitTop isFrom 0 ts with
  | [columns, rest] =>
    match splitTop isWhere 0 rest with
    | [table, relations] =>
      let _ ← (items isComma columns).mapM readName
      let related ← (items isAnd relations).mapM readAssigned
      if readTable table = some [] then some related.flatten else none
    | _ => none
  | _ => none

/-- What the markers of a statement stand for, in the order of the text. -/
def readMarkers : List Token → Option (List Target)
  | first :: second :: rest =>
    if first.isKeyword insertWord then
      if second.isKeyword intoWord then readInsert rest else none
    else if first.isKeyword updateWord then readUpdate (second :: rest)
    else if first.isKeyword selectWord then readSelect (second :: rest)
    else none
  | _ => none

/-! ### What is read of the parts of a statement -/

theorem readInsert_eq {ts names terms rest : List Token} (htable : readTable ts =
      some (.symbol '(' :: (names ++ .symbol ')' :: .word valuesWord :: .symbol '(' ::
        (terms ++ .symbol ')' :: rest))))
    (hnames : Closed (fun _ => false) 0 names = true)
    (hterms : Closed (fun _ => false) 0 terms = true)
    (hlen : (items isComma names).length = (items isComma terms).length)
    {columns : List (List Target)} {options : List Target}
    (hcolumns : ((items isComma names).zip (items isComma terms)).mapM readValue = some columns)
    (hoptions : readUsing rest = some options) :
    readInsert ts = some (columns.flatten ++ options) := by
  refine bind_eq_some_iff.2 ⟨_, htable, ?_⟩
  refine bind_eq_some_iff.2 ⟨_, untilClose_closed hnames _, ?_⟩
  refine bind_eq_some_iff.2 ⟨_, untilClose_closed hterms _, ?_⟩
  have hvalues : ((Token.word valuesWord).isKeyword valuesWord &&
      decide ((items isComma names).length = (items isComma terms).length)) = true := by
    rw [hlen, decide_eq_true rfl]
    rfl
  dsimp only
  rw [if_pos hvalues]
  refine bind_eq_some_iff.2 ⟨_, hcolumns, ?_⟩
  exact bind_eq_some_iff.2 ⟨_, hoptions, rfl⟩

theorem readUpdate_eq {ts using' sets relations : List Token}
    (htable : readTable ts = some (using' ++ .word setWord :: (sets ++ .word whereWord :: relations)))
    (husing : Closed isSet 0 using' = true) (hsets : Closed isSet 0 sets = true)
    (hrelations : Closed isSet 0 relations = true) (hsetsWhere : Closed isWhere 0 sets = true)
    (hrelationsWhere : Closed isWhere 0 relations = true) {options : List Target}
    {assigned related : List (List Target)} (hoptions : readUsing using' = some options)
    (hassigned : (items isComma sets).mapM readAssigned = some assigned)
    (hrelated : (items isAnd relations).mapM readAssigned = some related) :
    readUpdate ts = some (options ++ assigned.flatten ++ related.flatten) := by
  have htail : Closed isSet 0 (sets ++ .word whereWord :: relations) = true :=
    Closed.append hsets (closed_word (by decide) hrelations)
  have hset : splitTop isSet 0 (using' ++ .word setWord :: (sets ++ .word whereWord :: relations)) =
      [using', sets ++ .word whereWord :: relations] := by
    rw [splitTop_append husing (by decide), splitTop_closed htail]
  have hwhere : splitTop isWhere 0 (sets ++ .word whereWord :: relations) = [sets, relations] := by
    rw [splitTop_append hsetsWhere (by decide), splitTop_closed hrelationsWhere]
  refine bind_eq_some_iff.2 ⟨_, htable, ?_⟩
  rw [hset]
  dsimp only
  rw [hwhere]
  refine bind_eq_some_iff.2 ⟨_, hoptions, ?_⟩
  refine bind_eq_some_iff.2 ⟨_, hassigned, ?_⟩
  exact bind_eq_some_iff.2 ⟨_, hrelated, rfl⟩

theorem readSelect_eq {columns table relations : List Token}
    (hcolumns : Closed isFrom 0 columns = true) (htableFrom : Closed isFrom 0 table = true)
    (hrelationsFrom : Closed isFrom 0 relations = true) (htableWhere : Closed isWhere 0 table = true)
    (hrelationsWhere : Closed isWhere 0 relations = true) {names : List (List Char)}
    {related : List (List Target)} (hnames : (items isComma columns).mapM readName = some names)
    (htable : readTable table = some [])
    (hrelated : (items isAnd relations).mapM readAssigned = some related) :
    readSelect (columns ++ .word fromWord :: (table ++ .word whereWord :: relations)) =
      some related.flatten := by
  have htail : Closed isFrom 0 (table ++ .word whereWord :: relations) = true :=
    Closed.append htableFrom (closed_word (by decide) hrelationsFrom)
  have hfrom : splitTop isFrom 0
      (columns ++ .word fromWord :: (table ++ .word whereWord :: relations)) =
        [columns, table ++ .word whereWord :: relations] := by
    rw [splitTop_append hcolumns (by decide), splitTop_closed htail]
  have hwhere : splitTop isWhere 0 (table ++ .word whereWord :: relations) = [table, relations] := by
    rw [splitTop_append htableWhere (by decide), splitTop_closed hrelationsWhere]
  rw [readSelect, hfrom]
  dsimp only
  rw [hwhere]
  refine bind_eq_some_iff.2 ⟨_, hnames, ?_⟩
  exact bind_eq_some_iff.2 ⟨_, hrelated, if_pos htable⟩

theorem readMarkers_insert (rest : List Token) : readMarkers (.word insertWord ::
    .word intoWord :: rest) = readInsert rest := rfl

theorem readMarkers_update {rest : List Token} (h : rest ≠ []) :
    readMarkers (.word updateWord :: rest) = readUpdate rest := by
  obtain ⟨t, ts, rfl⟩ := exists_cons_of_ne_nil h
  rfl

theorem readMarkers_select {rest : List Token} (h : rest ≠ []) :
    readMarkers (.word selectWord :: rest) = readSelect rest := by
  obtain ⟨t, ts, rfl⟩ := exists_cons_of_ne_nil h
  rfl

/-- The items of a list are those that were joined. -/
theorem items_join {α : Type} {xs : List α} (piece : α → List Token)
    (hpq : ∀ t, q t = true → p t = true) (hne : ∀ x ∈ xs, piece x ≠ [])
    (h : ∀ x ∈ xs, Closed p 0 (piece x) = true) {sep : Token} (hsep : q sep = true) :
    items q ([sep].intercalate (xs.map piece)) = xs.map piece := by
  cases xs with
  | nil => rfl
  | cons x xs =>
    have hclosed : ∀ ts ∈ (x :: xs).map piece, Closed q 0 ts = true :=
      forall_mem_map.2 fun y hy => Closed.mono hpq (h y hy)
    have hjoin := splitTop_join (cons_ne_nil (piece x) (xs.map piece)) hclosed hsep
    rw [items, map_cons, hjoin]
    refine if_neg fun hnil => hne x mem_cons_self ?_
    rw [hnil] at hjoin
    exact (List.cons.inj hjoin).1.symm

/-- Pieces that are read one by one. -/
theorem mapM_map_eq_some {α β γ : Type} {f : α → β} {read : β → Option γ} {g : α → γ} {xs : List α}
    (h : ∀ x ∈ xs, read (f x) = some (g x)) : (xs.map f).mapM read = some (xs.map g) := by
  induction xs with
  | nil => rfl
  | cons x xs ih =>
    rw [forall_mem_cons] at h
    rw [map_cons, mapM_cons, h.1, ih h.2]
    rfl

/-! ### Every marker is read -/

/-- The markers of several pieces. -/
def countMarkers (pieces : List (List Token)) : ℕ := (pieces.map (List.count .marker)).sum

@[simp] theorem countMarkers_nil : countMarkers [] = 0 := rfl

@[simp] theorem countMarkers_cons (piece : List Token) (pieces : List (List Token)) :
    countMarkers (piece :: pieces) = piece.count .marker + countMarkers pieces := rfl

theorem count_cons_of_ne {t : Token} (h : t ≠ .marker) (ts : List Token) :
    (t :: ts).count .marker = ts.count .marker := List.count_cons_of_ne h

theorem Token.ne_marker_of_isKeyword {t : Token} {keyword : List Char}
    (h : t.isKeyword keyword = true) : t ≠ .marker := by
  rintro rfl
  cases h

theorem Token.ne_marker_of_asName {t : Token} {name : List Char} (h : t.asName = some name) :
    t ≠ .marker := by
  rintro rfl
  cases h

/-- Separators are no markers, so splitting loses none. -/
theorem countMarkers_splitTop (hp : ∀ t, p t = true → t ≠ .marker) (d : ℕ) (ts : List Token) :
    countMarkers (splitTop p d ts) = ts.count .marker := by
  induction ts generalizing d with
  | nil => rfl
  | cons t ts ih =>
    rw [splitTop]
    split_ifs with h
    · rw [countMarkers_cons, ih, count_cons_of_ne (hp t h.2), count_nil, Nat.zero_add]
    · have hrest := ih (t.depth d)
      split
      · rename_i heq
        rw [heq, countMarkers_nil] at hrest
        rw [countMarkers_cons, countMarkers_nil, count_cons, count_cons, count_nil,
          ← hrest, Nat.add_zero]
      · rename_i piece pieces heq
        rw [heq, countMarkers_cons] at hrest
        rw [countMarkers_cons, count_cons, count_cons, ← hrest]
        omega

theorem isComma_ne_marker {t : Token} (h : isComma t = true) : t ≠ .marker := by
  rintro rfl
  exact absurd h (by decide)

theorem countMarkers_items (hp : ∀ t, p t = true → t ≠ .marker) (ts : List Token) :
    countMarkers (items p ts) = ts.count .marker := by
  rw [items]
  split_ifs with h
  · rw [h]
    rfl
  · exact countMarkers_splitTop hp 0 ts

theorem count_untilClose {d : ℕ} {ts content rest : List Token}
    (h : untilClose d ts = some (content, rest)) :
    ts.count .marker = content.count .marker + rest.count .marker := by
  induction ts generalizing d content with
  | nil => cases h
  | cons t ts ih =>
    rw [untilClose] at h
    split_ifs at h with hclose
    · cases h
      rw [hclose.2, count_cons_of_ne (by simp), count_nil, Nat.zero_add]
    · obtain ⟨⟨inner, rest'⟩, hinner, heq⟩ := map_eq_some_iff.1 h
      cases heq
      have hcount : ts.count .marker = inner.count .marker + rest'.count .marker := ih hinner
      dsimp only
      rw [count_cons, count_cons, hcount]
      omega

/-- What is read of the pieces one by one. -/
theorem length_flatten_mapM {α : Type} {read : α → Option (List Target)} {count : α → ℕ}
    (hread : ∀ x targets, read x = some targets → targets.length = count x) {xs : List α}
    {found : List (List Target)} (h : xs.mapM read = some found) :
    found.flatten.length = (xs.map count).sum := by
  induction xs generalizing found with
  | nil =>
    cases h
    rfl
  | cons x xs ih =>
    rw [mapM_cons] at h
    obtain ⟨targets, htargets, h⟩ := bind_eq_some_iff.1 h
    obtain ⟨others, hothers, h⟩ := bind_eq_some_iff.1 h
    cases h
    rw [flatten_cons, length_append, hread x targets htargets, ih hothers, map_cons,
      sum_cons]

theorem length_markersIn (target : Target) (term : List Token) :
    (markersIn target term).length = term.count .marker := length_replicate

theorem count_readName {ts : List Token} {name : List Char} (h : readName ts = some name) :
    ts.count .marker = 0 := by
  rw [readName.eq_def] at h
  split at h
  · rw [count_cons_of_ne (Token.ne_marker_of_asName h), count_nil]
  · cases h

theorem count_readTable {ts rest : List Token} (h : readTable ts = some rest) :
    ts.count .marker = rest.count .marker := by
  rw [readTable.eq_def] at h
  split at h
  · split_ifs at h with hnames
    cases h
    rw [Bool.and_eq_true, isSome_iff_exists, isSome_iff_exists] at hnames
    obtain ⟨⟨_, hkeyspace⟩, ⟨_, htable⟩⟩ := hnames
    rw [count_cons_of_ne (Token.ne_marker_of_asName hkeyspace), count_cons_of_ne (by simp),
      count_cons_of_ne (Token.ne_marker_of_asName htable)]
  · cases h

theorem length_readAssigned {ts : List Token} {targets : List Target}
    (h : readAssigned ts = some targets) : targets.length = ts.count .marker := by
  rw [readAssigned.eq_def] at h
  split at h
  · obtain ⟨column, hcolumn, rfl⟩ := map_eq_some_iff.1 h
    rw [length_markersIn, count_cons_of_ne (Token.ne_marker_of_asName hcolumn),
      count_cons_of_ne (by simp)]
  · cases h

theorem length_readOption {ts : List Token} {targets : List Target}
    (h : readOption ts = some targets) : targets.length = ts.count .marker := by
  rw [readOption.eq_def] at h
  split at h
  · split_ifs at h with httl htimestamp
    · cases h
      rw [length_markersIn, count_cons_of_ne (Token.ne_marker_of_isKeyword httl)]
    · cases h
      rw [length_markersIn, count_cons_of_ne (Token.ne_marker_of_isKeyword htimestamp)]
  · cases h

theorem length_readUsing {ts : List Token} {targets : List Target}
    (h : readUsing ts = some targets) : targets.length = ts.count .marker := by
  rw [readUsing.eq_def] at h
  split at h
  · cases h
    rfl
  · split_ifs at h with husing
    obtain ⟨found, hfound, rfl⟩ := map_eq_some_iff.1 h
    rw [length_flatten_mapM (fun _ _ => length_readOption) hfound,
      count_cons_of_ne (Token.ne_marker_of_isKeyword husing)]
    exact countMarkers_splitTop (fun t => Token.ne_marker_of_isKeyword) 0 _

/-- The relations of a `WHERE` clause, or the assignments of a `SET`. -/
theorem length_readAll (hp : ∀ t, p t = true → t ≠ .marker) {ts : List Token}
    {found : List (List Target)} (h : (items p ts).mapM readAssigned = some found) :
    found.flatten.length = ts.count .marker := by
  rw [length_flatten_mapM (fun _ _ => length_readAssigned) h]
  exact countMarkers_items hp ts

theorem length_readValue {value : List Token × List Token} {targets : List Target}
    (h : readValue value = some targets) :
    targets.length = value.1.count .marker + value.2.count .marker := by
  obtain ⟨column, hcolumn, rfl⟩ := map_eq_some_iff.1 h
  rw [length_markersIn, count_readName hcolumn, Nat.zero_add]

theorem sum_zip_count {xs ys : List (List Token)} (hlen : xs.length = ys.length) :
    ((xs.zip ys).map fun value => value.1.count .marker + value.2.count .marker).sum =
      countMarkers xs + countMarkers ys := by
  induction xs generalizing ys with
  | nil =>
    cases ys with
    | nil => rfl
    | cons y ys => cases hlen
  | cons x xs ih =>
    cases ys with
    | nil => cases hlen
    | cons y ys =>
      rw [zip_cons_cons, map_cons, sum_cons, ih (Nat.succ.inj hlen), countMarkers_cons,
        countMarkers_cons]
      dsimp only
      omega

theorem length_readInsert {ts : List Token} {targets : List Target}
    (h : readInsert ts = some targets) : targets.length = ts.count .marker := by
  obtain ⟨rest, htable, h⟩ := bind_eq_some_iff.1 h
  split at h
  · obtain ⟨⟨names, rest⟩, hnames, h⟩ := bind_eq_some_iff.1 h
    dsimp only at h
    split at h
    · obtain ⟨⟨terms, rest⟩, hterms, h⟩ := bind_eq_some_iff.1 h
      dsimp only at h
      split_ifs at h with hvalues
      rw [Bool.and_eq_true, decide_eq_true_eq] at hvalues
      obtain ⟨columns, hcolumns, h⟩ := bind_eq_some_iff.1 h
      obtain ⟨options, hoptions, h⟩ := bind_eq_some_iff.1 h
      cases h
      rw [length_append, length_flatten_mapM (fun _ _ => length_readValue) hcolumns,
        length_readUsing hoptions, sum_zip_count hvalues.2,
        countMarkers_items fun t => isComma_ne_marker, countMarkers_items fun t => isComma_ne_marker,
        count_readTable htable, count_cons_of_ne (by simp), count_untilClose hnames,
        count_cons_of_ne (Token.ne_marker_of_isKeyword hvalues.1), count_cons_of_ne (by simp),
        count_untilClose hterms]
      omega
    · cases h
  · cases h

/-- The two halves of a text. -/
theorem count_splitTop_pair (hp : ∀ t, p t = true → t ≠ .marker) {ts a b : List Token}
    (h : splitTop p 0 ts = [a, b]) : ts.count .marker = a.count .marker + b.count .marker := by
  rw [← countMarkers_splitTop hp 0 ts, h]
  rfl

theorem length_readUpdate {ts : List Token} {targets : List Target}
    (h : readUpdate ts = some targets) : targets.length = ts.count .marker := by
  obtain ⟨rest, htable, h⟩ := bind_eq_some_iff.1 h
  split at h
  · rename_i hset
    split at h
    · rename_i hwhere
      obtain ⟨options, hoptions, h⟩ := bind_eq_some_iff.1 h
      obtain ⟨assigned, hassigned, h⟩ := bind_eq_some_iff.1 h
      obtain ⟨related, hrelated, h⟩ := bind_eq_some_iff.1 h
      cases h
      rw [length_append, length_append, length_readUsing hoptions,
        length_readAll (fun t => isComma_ne_marker) hassigned,
        length_readAll (fun t => Token.ne_marker_of_isKeyword) hrelated, count_readTable htable,
        count_splitTop_pair (fun t => Token.ne_marker_of_isKeyword) hset,
        count_splitTop_pair (fun t => Token.ne_marker_of_isKeyword) hwhere]
      omega
    · cases h
  · cases h

theorem count_readNames {ts : List Token} {found : List (List Char)}
    (h : (items isComma ts).mapM readName = some found) : ts.count .marker = 0 := by
  rw [← countMarkers_items fun t => isComma_ne_marker]
  generalize items isComma ts = pieces at h
  induction pieces generalizing found with
  | nil => rfl
  | cons piece pieces ih =>
    rw [mapM_cons] at h
    obtain ⟨name, hname, h⟩ := bind_eq_some_iff.1 h
    obtain ⟨others, hothers, h⟩ := bind_eq_some_iff.1 h
    rw [countMarkers_cons, count_readName hname, ih hothers]

theorem length_readSelect {ts : List Token} {targets : List Target}
    (h : readSelect ts = some targets) : targets.length = ts.count .marker := by
  rw [readSelect] at h
  split at h
  · rename_i hfrom
    split at h
    · rename_i hwhere
      obtain ⟨names, hnames, h⟩ := bind_eq_some_iff.1 h
      obtain ⟨related, hrelated, h⟩ := bind_eq_some_iff.1 h
      split_ifs at h with htable
      cases h
      rw [length_readAll (fun t => Token.ne_marker_of_isKeyword) hrelated,
        count_splitTop_pair (fun t => Token.ne_marker_of_isKeyword) hfrom,
        count_splitTop_pair (fun t => Token.ne_marker_of_isKeyword) hwhere, count_readNames hnames,
        count_readTable htable, count_nil, Nat.zero_add, Nat.zero_add]
    · cases h
  · cases h

/-- Every marker of a statement that is read stands for something. -/
theorem length_readMarkers {ts : List Token} {targets : List Target}
    (h : readMarkers ts = some targets) : targets.length = ts.count .marker := by
  rw [readMarkers.eq_def] at h
  split at h
  · split_ifs at h with hinsert hinto hupdate hselect
    · rw [length_readInsert h, count_cons_of_ne (Token.ne_marker_of_isKeyword hinsert),
        count_cons_of_ne (Token.ne_marker_of_isKeyword hinto)]
    · rw [length_readUpdate h, count_cons_of_ne (Token.ne_marker_of_isKeyword hupdate)]
    · rw [length_readSelect h, count_cons_of_ne (Token.ne_marker_of_isKeyword hselect)]
  · cases h

end Cql
