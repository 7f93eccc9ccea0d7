import Cdm.Feature.LiteralGrammar
import Cdm.Feature.Splitting
import Cdm.Feature.StringLiteral

/-!
# Collection literals

The literals of lists, sets and maps of scalars and of further collections, as a grammar: texts
built from the literals of the elements, commas and brackets.  The parser takes the text apart
again, with two exceptions.  It has no empty map, because an empty text is split into one empty
piece, which only lists and sets pass over.  For the same reason lists and sets put up with missing
elements; a blob may be an empty text; and a text may have unpaired quotes in it.
-/

namespace Cdm

open List

/-- Lists, sets and maps of scalars and of such collections, and the scalars themselves. -/
def CqlTypeInfo.Nests : CqlTypeInfo → Prop
  | .primitive _ => True
  | .list element _ | .set element _ => element.Nests
  | .map key value _ => key.Nests ∧ value.Nests
  | .tuple _ | .udt _ _ _ _ | .vector _ _ | .custom _ => False

namespace Literal

open Text
open Fallible

/-! ### Literals -/

/-- The text consists of the pieces with commas in between, or of nothing. -/
def Enumerates (pieces : List (List Char)) (text : List Char) : Prop :=
  if pieces = [] then trim text = [] else Joined ',' pieces text

/-- How a scalar is spelled: in quotes, or bare where the type allows it. -/
def Spells (kind : Primitive) (value text : List Char) : Prop :=
  text = quoted singleQuote value ∨
    ¬(kind = .text ∨ kind = .ascii ∨ kind = .inet) ∧ text = value ∧ text ≠ []

/-- A scalar has the separator in quotes only.  In a collection it is inside brackets. -/
def FreeOf (separator : Char) : CqlTypeInfo → List Char → Prop
  | .primitive _, text => isQuoted text = true ∨ separator ∉ text
  | _, _ => True

/-- A list or a set of these elements. -/
def IsSequence (opening closing : Char) (R : List Char → RawCell → Prop) (text : List Char)
    (cell : RawCell) : Prop :=
  ∃ inner pieces out, text = opening :: (inner ++ [closing]) ∧ Enumerates pieces inner ∧
    Framed R pieces out ∧ pieces.length < 2 ^ 31 ∧ cell = countedCell pieces.length out

variable [LiteralParsers]

/-- The literals of a type, without white space around them, and the cells they denote.  The null
literal is one of every type. -/
def IsLiteral : CqlTypeInfo → List Char → RawCell → Prop
  | .list element _, text, cell =>
    Nullable text cell (IsSequence '[' ']' (IsLiteral element) text cell)
  | .set element _, text, cell =>
    Nullable text cell (IsSequence '\x7b' '\x7d' (IsLiteral element) text cell)
  | .map key value _, text, cell => Nullable text cell (∃ inner pieces out,
      text = '\x7b' :: (inner ++ ['\x7d']) ∧ Enumerates pieces inner ∧
      FramedEntries (fun piece k v => Joined ':' [k, v] piece)
        (fun k cell => IsLiteral key k cell ∧ FreeOf ':' key k)
        (fun v cell => IsLiteral value v cell ∧ FreeOf ':' value v) pieces out ∧
      pieces.length < 2 ^ 31 ∧ cell = countedCell pieces.length out)
  | .primitive kind, text, cell => Nullable text cell (∃ value bytes, Spells kind value text ∧
      encodePrimitiveChecked (String.ofList value) kind = some (.ok bytes) ∧ cell = some bytes)
  | .tuple _, _, _ | .udt _ _ _ _, _, _ | .vector _ _, _, _ | .custom _, _, _ => False

omit [LiteralParsers]

/-! ### Where the parser and the grammar differ -/

/-- One of the elements of a list or a set has the property. -/
def InSequence (opening closing : Char) (Q : List Char → Prop) (text : List Char) : Prop :=
  ∃ inner, text = opening :: (inner ++ [closing]) ∧
    ∃ piece ∈ filled (splitTopLevel inner ','), Q piece

/-- The property holds of the text, or of one of those it is made of. -/
def Within (P : CqlTypeInfo → List Char → Prop) : CqlTypeInfo → List Char → Prop
  | .list element frozen, text => P (.list element frozen) text ∨
      InSequence '[' ']' (Within P element) text
  | .set element frozen, text => P (.set element frozen) text ∨
      InSequence '\x7b' '\x7d' (Within P element) text
  | .map key value frozen, text => P (.map key value frozen) text ∨
      ∃ inner, text = '\x7b' :: (inner ++ ['\x7d']) ∧
        ∃ piece ∈ splitTopLevel inner ',', ∃ k v, splitTopLevel piece ':' = [k, v] ∧
          (Within P key k ∨ Within P value v)
  | .primitive kind, text => P (.primitive kind) text
  | .tuple types, text => P (.tuple types) text
  | .udt keyspace name fields frozen, text => P (.udt keyspace name fields frozen) text
  | .vector element dimensions, text => P (.vector element dimensions) text
  | .custom name, text => P (.custom name) text

/-- The empty map. -/
def EmptyMap : CqlTypeInfo → List Char → Prop
  | .map _ _ _, text => ∃ inner, text = '\x7b' :: (inner ++ ['\x7d']) ∧ trim inner = []
  | _, _ => False

/-- A missing element among others. -/
def MissingElement (opening closing : Char) (text : List Char) : Prop :=
  ∃ inner, text = opening :: (inner ++ [closing]) ∧ [] ∈ splitTopLevel inner ',' ∧
    trim inner ≠ []

/-- A missing element or scalar, or a text with unpaired quotes. -/
def Sloppy : CqlTypeInfo → List Char → Prop
  | .list _ _, text => MissingElement '[' ']' text
  | .set _ _, text => MissingElement '\x7b' '\x7d' text
  | .primitive kind, text => text = [] ∨ (kind = .text ∨ kind = .ascii) ∧ isQuoted text = true ∧
      paired singleQuote text.tail.dropLast = false
  | _, _ => False

/-- A text that is no string literal and has no separators: without quotes, commas and brackets,
unless it is in braces as a whole. -/
def Plain (text : List Char) : Prop :=
  (∀ c ∈ text, IsOrdinary c ∧ c ≠ ',') ∨
    ∃ inside, text = '\x7b' :: (inside ++ ['\x7d']) ∧ ∀ c ∈ inside, IsOrdinary c ∧ c ≠ ',' ∧ c ≠ ':'

/-! ### Elements one by one -/

section Elements

variable {R R' S S' : List Char → RawCell → Prop} {pieces : List (List Char)} {out : Bytes}
  {split split' : List Char → List Char → List Char → Prop}

theorem Framed.imp (h : Framed R pieces out)
    (hR : ∀ piece ∈ pieces, ∀ cell, R piece cell → R' piece cell) : Framed R' pieces out := by
  induction pieces generalizing out with
  | nil => exact h
  | cons piece pieces ih =>
    rw [forall_mem_cons] at hR
    obtain ⟨cell, first, rest, hcell, hwrite, hrest, hout⟩ := h
    exact ⟨cell, first, rest, hR.1 cell hcell, hwrite, ih hrest hR.2, hout⟩

theorem Framed.exists_cell (h : Framed R pieces out) : ∀ piece ∈ pieces, ∃ cell, R piece cell := by
  induction pieces generalizing out with
  | nil => exact fun _ hmem => absurd hmem not_mem_nil
  | cons piece pieces ih =>
    obtain ⟨cell, first, rest, hcell, -, hrest, -⟩ := h
    exact forall_mem_cons.2 ⟨⟨cell, hcell⟩, ih hrest⟩

theorem FramedEntries.imp (h : FramedEntries split R S pieces out)
    (hsplit : ∀ piece ∈ pieces, ∀ key value k v, split piece key value → R key k → S value v →
      split' piece key value ∧ R' key k ∧ S' value v) : FramedEntries split' R' S' pieces out := by
  induction pieces generalizing out with
  | nil => exact h
  | cons piece pieces ih =>
    rw [forall_mem_cons] at hsplit
    obtain ⟨key, value, entry, rest, hpiece, ⟨k, first, hk, hfirst, v, second, hv, hsecond, hentry⟩,
      hrest, hout⟩ := h
    obtain ⟨hpiece', hk', hv'⟩ := hsplit.1 key value k v hpiece hk hv
    exact ⟨key, value, entry, rest, hpiece', ⟨k, first, hk', hfirst, v, second, hv', hsecond, hentry⟩,
      ih hrest hsplit.2, hout⟩

theorem FramedEntries.exists_cells (h : FramedEntries split R S pieces out) :
    ∀ piece ∈ pieces, ∃ key value k v, split piece key value ∧ R key k ∧ S value v := by
  induction pieces generalizing out with
  | nil => exact fun _ hmem => absurd hmem not_mem_nil
  | cons piece pieces ih =>
    obtain ⟨key, value, entry, rest, hpiece, ⟨k, first, hk, -, v, second, hv, -, -⟩, hrest, -⟩ := h
    exact forall_mem_cons.2 ⟨⟨key, value, k, v, hpiece, hk, hv⟩, ih hrest⟩

end Elements

theorem Nullable.imp {text : List Char} {cell : RawCell} {P Q : Prop} (h : Nullable text cell P)
    (hPQ : P → Q) : Nullable text cell Q := by
  unfold Nullable at h ⊢
  split_ifs at h ⊢
  · exact h
  · exact hPQ h

theorem Nullable.resolve {text : List Char} {cell : RawCell} {P : Prop} (h : Nullable text cell P)
    (hnull : ¬IsNull text) : P := by
  rwa [Nullable, if_neg hnull] at h

/-- The null literal is a word. -/
theorem isAlpha_of_isNull {text : List Char} (h : IsNull text) : ∀ c ∈ text, c.isAlpha = true :=
  isAlpha_of_toLower h (all_eq_true.1 (by decide))

/-- A text that starts with a bracket or a quote is not the null literal. -/
theorem not_isNull_of_special {c : Char} (hc : c ∈ specials) (rest : List Char) :
    ¬IsNull (c :: rest) :=
  fun h => isOrdinary_iff.1 (isOrdinary_of (by decide) (isAlpha_of_isNull h c mem_cons_self)) hc

theorem inertFrom_null {least : ℕ} {separator : Char} (hseparator : separator.isAlpha = false)
    {text : List Char} (h : IsNull text) : InertFrom least separator text := by
  have halpha := isAlpha_of_isNull h
  exact inertFrom_of_ordinary (fun c hc => isOrdinary_of (by decide) (halpha c hc))
    (.inl fun hmem => Bool.false_ne_true (hseparator.symm.trans (halpha _ hmem)))

theorem eq_of_bracketed {opening closing : Char} {inner inner' : List Char}
    (h : opening :: (inner ++ [closing]) = opening :: (inner' ++ [closing])) : inner = inner' :=
  append_cancel_right (List.cons.inj h).2

theorem ordinary_separator {separator : Char} (h : separator = ',' ∨ separator = ':') :
    IsOrdinary separator ∧ isWhitespace separator = false ∧ separator.isAlpha = false := by
  rcases h with rfl | rfl <;> exact ⟨isOrdinary_iff.2 (by decide), by decide, by decide⟩

/-! ### Scalars -/

/-- A text without quotes is not between quotes. -/
theorem isQuoted_eq_false {text : List Char} (h : singleQuote ∉ text) : isQuoted text = false := by
  by_contra hquoted
  rw [Bool.not_eq_false] at hquoted
  obtain ⟨inside, rfl⟩ := isQuoted_iff.1 hquoted
  exact h mem_cons_self

theorem isQuoted_quoted (value : List Char) : isQuoted (quoted singleQuote value) = true :=
  isQuoted_iff.2 ⟨_, rfl⟩

theorem Plain.not_mem {text : List Char} (h : Plain text) : singleQuote ∉ text ∧ ',' ∉ text := by
  rcases h with h | ⟨inside, rfl, h⟩
  · exact ⟨fun hmem => (h _ hmem).1.1 rfl, fun hmem => (h _ hmem).2 rfl⟩
  · simp only [mem_cons, mem_append, not_mem_nil, or_false, not_or]
    exact ⟨⟨by decide, fun hmem => (h _ hmem).1.1 rfl, by decide⟩,
      by decide, fun hmem => (h _ hmem).2.1 rfl, by decide⟩

theorem Plain.inertFrom {least : ℕ} {separator : Char} {text : List Char} (h : Plain text)
    (hseparator : separator ∉ text ∨ 1 ≤ least) : InertFrom least separator text := by
  rcases h with h | ⟨inside, rfl, h⟩
  · exact inertFrom_of_ordinary (fun c hc => (h c hc).1) hseparator
  · exact inertFrom_bracketed (by decide) (by decide) (by decide) (by decide) (by decide)
      (inertFrom_of_ordinary (fun c hc => (h c hc).1) (.inr le_rfl))

theorem numeral_plain (s : List Char) (h : s.all isNumeral = true) : Plain s :=
  .inl fun c hc => by
    have hc := all_eq_true.1 h c hc
    refine ⟨isOrdinary_of (by decide) hc, ?_⟩
    rintro rfl
    exact absurd hc (by decide)

/-- A scalar that is spelled correctly is not a sloppy one. -/
theorem not_sloppy_of_spells {kind : Primitive} {value text : List Char}
    (h : Spells kind value text) : ¬Sloppy (.primitive kind) text := by
  rcases h with rfl | ⟨hkind, rfl, hne⟩
  · rintro (hnil | ⟨-, -, hodd⟩)
    · exact cons_ne_nil _ _ hnil
    · rw [quoted, tail_cons, dropLast_concat, paired_iff.2 ⟨value, rfl⟩] at hodd
      cases hodd
  · rintro (hnil | ⟨hstring, -, -⟩)
    · exact hne hnil
    · exact hkind (hstring.imp_right .inl)

/-! ### Collections -/

theorem inertFrom_of_joined {c separator : Char} (hc : IsOrdinary c)
    (hspace : isWhitespace separator = false) {pieces : List (List Char)} {text : List Char}
    (h : Joined c pieces text) (hpieces : ∀ piece ∈ pieces, InertFrom 1 separator piece) :
    InertFrom 1 separator text := by
  obtain ⟨padded, rfl, rfl⟩ := h
  rw [forall_mem_map] at hpieces
  exact inertFrom_intercalate hc fun piece hpiece => (hpieces piece hpiece).of_trim hspace

/-- What stands between the brackets of a collection is not split by the separators of another. -/
theorem inertFrom_of_enumerates {separator : Char} (hspace : isWhitespace separator = false)
    {pieces : List (List Char)} {text : List Char} (h : Enumerates pieces text)
    (hpieces : ∀ piece ∈ pieces, InertFrom 1 separator piece) : InertFrom 1 separator text := by
  rw [Enumerates] at h
  split_ifs at h
  · refine InertFrom.of_trim ?_ hspace
    rw [h]
    exact inertFrom_nil
  · exact inertFrom_of_joined (isOrdinary_iff.2 (by decide)) hspace h hpieces

theorem IsSequence.inertFrom {opening closing : Char} (hopening : isOpening opening = true)
    (hclosing : isClosing closing = true ∧ isOpening closing = false)
    (hquote : opening ≠ singleQuote ∧ closing ≠ singleQuote) {separator : Char}
    (hspace : isWhitespace separator = false) {R : List Char → RawCell → Prop}
    {text : List Char} {cell : RawCell} (h : IsSequence opening closing R text cell)
    (hR : ∀ piece cell, R piece cell → InertFrom 1 separator piece) {least : ℕ} :
    InertFrom least separator text := by
  obtain ⟨inner, pieces, out, rfl, hinner, hframed, -⟩ := h
  refine inertFrom_bracketed hopening hquote.1 hclosing.1 hquote.2 hclosing.2
    (inertFrom_of_enumerates hspace hinner fun piece hpiece => ?_)
  obtain ⟨cell, hcell⟩ := hframed.exists_cell piece hpiece
  exact hR piece cell hcell

/-- The pieces between the commas are found again; of none, there is an empty one. -/
theorem splitTopLevel_of_enumerates {pieces : List (List Char)} {text : List Char}
    (h : Enumerates pieces text) (hpieces : ∀ piece ∈ pieces, InertFrom 0 ',' piece) :
    (pieces = [] ∧ trim text = [] ∧ splitTopLevel text ',' = [[]]) ∨
      pieces ≠ [] ∧ splitTopLevel text ',' = pieces := by
  obtain ⟨hordinary, hspace, -⟩ := ordinary_separator (.inl rfl)
  rw [Enumerates] at h
  split_ifs at h with hnil
  · exact .inl ⟨hnil, h, splitTopLevel_blank hordinary hspace h⟩
  · exact .inr ⟨hnil, splitTopLevel_of_joined hordinary hspace h hnil hpieces⟩

theorem enumerates_splitTopLevel (text : List Char) : Enumerates (splitTopLevel text ',') text := by
  rw [Enumerates, if_neg (splitTopLevel_ne_nil text ',')]
  exact joined_splitTopLevel text ','

theorem filled_eq_self {pieces : List (List Char)} (h : [] ∉ pieces) : filled pieces = pieces := by
  refine filter_eq_self.2 fun piece hpiece => ?_
  cases piece with
  | nil => exact absurd hpiece h
  | cons c cs => rfl

/-- The pieces of a list or a set, unless one is missing. -/
theorem enumerates_filled {text : List Char}
    (h : ¬([] ∈ splitTopLevel text ',' ∧ trim text ≠ [])) :
    Enumerates (filled (splitTopLevel text ',')) text := by
  by_cases hmem : [] ∈ splitTopLevel text ','
  · have hblank : trim text = [] := by
      by_contra hne
      exact h ⟨hmem, hne⟩
    obtain ⟨hordinary, hspace, -⟩ := ordinary_separator (.inl rfl)
    rw [splitTopLevel_blank hordinary hspace hblank]
    exact hblank
  · rw [filled_eq_self hmem]
    exact enumerates_splitTopLevel text

section Grammar

variable [LiteralParsers] (hparsers : LiteralParsers.AcceptOnly Plain)

include hparsers

/-- A bare scalar is a plain text. -/
theorem plain_of_bare {kind : Primitive} {value : List Char} {bytes : Bytes}
    (hkind : ¬(kind = .text ∨ kind = .ascii ∨ kind = .inet))
    (h : encodePrimitiveChecked (String.ofList value) kind = some (.ok bytes)) : Plain value := by
  rcases accepted_of_encodePrimitiveChecked hparsers numeral_plain h with hplain | rfl | rfl
  · rwa [String.toList_ofList] at hplain
  · exact absurd (.inl rfl) hkind
  · exact absurd (.inr (.inl rfl)) hkind

/-- A scalar that is spelled correctly stands for its value. -/
theorem scalarValue_of_spells {kind : Primitive} {value text : List Char} {bytes : Bytes}
    (h : Spells kind value text)
    (hbytes : encodePrimitiveChecked (String.ofList value) kind = some (.ok bytes)) :
    scalarValue kind text = some value := by
  rcases h with rfl | ⟨hkind, rfl, -⟩
  · rw [scalarValue, quoted, unquote_eq, undoubled_doubled, Option.getD_some, ite_self]
  · have hplain := plain_of_bare hparsers hkind hbytes
    rw [scalarValue, if_neg hkind, unquote, isQuoted_eq_false hplain.not_mem.1]
    rfl

/-- The value of an accepted scalar is spelled correctly, but for a missing scalar and unpaired
quotes. -/
theorem spells_of_scalarValue {kind : Primitive} {value text : List Char} {bytes : Bytes}
    (h : scalarValue kind text = some value)
    (hbytes : encodePrimitiveChecked (String.ofList value) kind = some (.ok bytes))
    (hsloppy : ¬Sloppy (.primitive kind) text) : Spells kind value text := by
  obtain ⟨hne, hpaired⟩ := not_or.1 hsloppy
  by_cases hquoted : isQuoted text = true
  · obtain ⟨inside, rfl⟩ := isQuoted_iff.1 hquoted
    rw [scalarValue, unquote_eq, Option.getD_some, ite_self, Option.some.injEq] at h
    subst h
    rw [tail_cons, dropLast_concat] at hpaired
    have hinside : paired singleQuote inside = true := by
      by_contra hodd
      rw [Bool.not_eq_true] at hodd
      rcases accepted_of_encodePrimitiveChecked hparsers numeral_plain hbytes with hplain | hkind | hkind
      · have hnot := hplain.not_mem.1
        rw [String.toList_ofList, mem_undoubled] at hnot
        exact Bool.false_ne_true (hodd.symm.trans (paired_of_not_mem hnot))
      · exact hpaired ⟨.inl hkind, hquoted, hodd⟩
      · exact hpaired ⟨.inr hkind, hquoted, hodd⟩
    obtain ⟨value, rfl⟩ := paired_iff.1 hinside
    rw [undoubled_doubled]
    exact .inl rfl
  · have hbare : unquote text = none := if_neg hquoted
    rw [scalarValue, hbare] at h
    split_ifs at h with hkind
    exact .inr ⟨hkind, Option.some.inj h, hne⟩

/-! ### Literals are not split -/

omit hparsers in
theorem IsLiteral.ne_nil {cell : RawCell} {t : CqlTypeInfo} {text : List Char}
    (h : IsLiteral t text cell) : text ≠ [] := by
  rintro rfl
  have hnull : ¬IsNull [] := nofun
  cases t with
  | list element frozen =>
    obtain ⟨inner, pieces, out, ⟨⟩, -⟩ := h.resolve hnull
  | set element frozen =>
    obtain ⟨inner, pieces, out, ⟨⟩, -⟩ := h.resolve hnull
  | map key value frozen =>
    obtain ⟨inner, pieces, out, ⟨⟩, -⟩ := h.resolve hnull
  | primitive kind =>
    obtain ⟨value, bytes, hspells, -, -⟩ := h.resolve hnull
    exact not_sloppy_of_spells hspells (.inl rfl)
  | tuple types => exact h
  | udt keyspace name fields frozen => exact h
  | vector element dimensions => exact h
  | custom name => exact h

/-- The splitter goes through a literal, unless a separator is in it. -/
theorem IsLiteral.inertFrom {separator : Char} (hseparator : separator = ',' ∨ separator = ':') :
    {t : CqlTypeInfo} → {least : ℕ} → {text : List Char} → {cell : RawCell} →
      IsLiteral t text cell → FreeOf separator t text ∨ 1 ≤ least → InertFrom least separator text
  | .list element frozen, least, text, cell, h, hfree => by
    obtain ⟨hordinary, hspace, halpha⟩ := ordinary_separator hseparator
    by_cases hnull : IsNull text
    · exact inertFrom_null halpha hnull
    · exact (h.resolve hnull).inertFrom (by decide) (by decide) (by decide) hspace
        fun piece cell hcell => hcell.inertFrom hseparator (.inr le_rfl)
  | .set element frozen, least, text, cell, h, hfree => by
    obtain ⟨hordinary, hspace, halpha⟩ := ordinary_separator hseparator
    by_cases hnull : IsNull text
    · exact inertFrom_null halpha hnull
    · exact (h.resolve hnull).inertFrom (by decide) (by decide) (by decide) hspace
        fun piece cell hcell => hcell.inertFrom hseparator (.inr le_rfl)
  | .map key value frozen, least, text, cell, h, hfree => by
    obtain ⟨hordinary, hspace, halpha⟩ := ordinary_separator hseparator
    by_cases hnull : IsNull text
    · exact inertFrom_null halpha hnull
    · obtain ⟨inner, pieces, out, rfl, hinner, hframed, -⟩ := h.resolve hnull
      refine inertFrom_bracketed (by decide) (by decide) (by decide) (by decide) (by decide)
        (inertFrom_of_enumerates hspace hinner fun piece hpiece => ?_)
      obtain ⟨k, v, kcell, vcell, hjoined, ⟨hk, -⟩, ⟨hv, -⟩⟩ := hframed.exists_cells piece hpiece
      refine inertFrom_of_joined (ordinary_separator (.inr rfl)).1 hspace hjoined ?_
      rw [forall_mem_cons, forall_mem_singleton]
      exact ⟨hk.inertFrom hseparator (.inr le_rfl), hv.inertFrom hseparator (.inr le_rfl)⟩
  | .primitive kind, least, text, cell, h, hfree => by
    obtain ⟨hordinary, hspace, halpha⟩ := ordinary_separator hseparator
    by_cases hnull : IsNull text
    · exact inertFrom_null halpha hnull
    · obtain ⟨value, bytes, hspells, hbytes, -⟩ := h.resolve hnull
      rcases hspells with rfl | ⟨hkind, rfl, -⟩
      · exact inertFrom_quoted value
      · have hplain := plain_of_bare hparsers hkind hbytes
        refine hplain.inertFrom (hfree.imp_left fun hfree => hfree.resolve_left ?_)
        rw [isQuoted_eq_false hplain.not_mem.1]
        exact Bool.false_ne_true

/-- A literal has no comma outside of brackets and quotes. -/
theorem IsLiteral.freeOf_comma {t : CqlTypeInfo} {text : List Char} {cell : RawCell}
    (h : IsLiteral t text cell) : FreeOf ',' t text := by
  cases t with
  | primitive kind =>
    by_cases hnull : IsNull text
    · exact .inr fun hmem => absurd (isAlpha_of_isNull hnull _ hmem) (by decide)
    · obtain ⟨value, bytes, hspells, hbytes, -⟩ := h.resolve hnull
      rcases hspells with rfl | ⟨hkind, rfl, -⟩
      · exact .inl (isQuoted_quoted value)
      · exact .inr (plain_of_bare hparsers hkind hbytes).not_mem.2
  | list element frozen => trivial
  | set element frozen => trivial
  | map key value frozen => trivial
  | tuple types => trivial
  | udt keyspace name fields frozen => trivial
  | vector element dimensions => trivial
  | custom name => trivial

/-- A literal between two colons has no colon outside of brackets and quotes. -/
theorem IsLiteral.freeOf_colon {t : CqlTypeInfo} {text entry : List Char} {cell : RawCell}
    (h : IsLiteral t text cell) (hentry : text ∈ splitTopLevel entry ':') : FreeOf ':' t text := by
  cases t with
  | primitive kind =>
    by_cases hnull : IsNull text
    · exact .inr fun hmem => absurd (isAlpha_of_isNull hnull _ hmem) (by decide)
    · obtain ⟨value, bytes, hspells, hbytes, -⟩ := h.resolve hnull
      rcases hspells with rfl | ⟨hkind, rfl, -⟩
      · exact .inl (isQuoted_quoted value)
      · rcases plain_of_bare hparsers hkind hbytes with hplain | ⟨inside, rfl, hinside⟩
        · exact .inr (not_mem_of_mem_splitTopLevel hentry fun c hc => (hplain c hc).1)
        · refine .inr ?_
          simp only [mem_cons, mem_append, not_mem_nil, or_false, not_or]
          exact ⟨by decide, fun hmem => (hinside _ hmem).2.2 rfl, by decide⟩
  | list element frozen => trivial
  | set element frozen => trivial
  | map key value frozen => trivial
  | tuple types => trivial
  | udt keyspace name fields frozen => trivial
  | vector element dimensions => trivial
  | custom name => trivial

/-- The elements of a list or a set are found again, and so are the entries of a map that is not
empty. -/
theorem splitTopLevel_of_framed {t : CqlTypeInfo} {pieces : List (List Char)} {inner : List Char}
    {out : Bytes} (hinner : Enumerates pieces inner) (h : Framed (IsLiteral t) pieces out) :
    filled (splitTopLevel inner ',') = pieces ∧
      ¬([] ∈ splitTopLevel inner ',' ∧ trim inner ≠ []) := by
  have hinert : ∀ piece ∈ pieces, InertFrom 0 ',' piece := by
    intro piece hpiece
    obtain ⟨cell, hcell⟩ := h.exists_cell piece hpiece
    exact hcell.inertFrom hparsers (.inl rfl) (.inl (hcell.freeOf_comma hparsers))
  have hne : [] ∉ pieces := by
    intro hmem
    obtain ⟨cell, hcell⟩ := h.exists_cell [] hmem
    exact hcell.ne_nil rfl
  rcases splitTopLevel_of_enumerates hinner hinert with ⟨rfl, hblank, hsplit⟩ | ⟨-, hsplit⟩
  · rw [hsplit]
    exact ⟨rfl, fun hmissing => hmissing.2 hblank⟩
  · rw [hsplit]
    exact ⟨filled_eq_self hne, fun hmissing => hne hmissing.1⟩

/-- The key and the value of an entry are found again. -/
theorem splitTopLevel_of_entry {key value : CqlTypeInfo} {k v piece : List Char}
    {kcell vcell : RawCell} (hk : IsLiteral key k kcell ∧ FreeOf ':' key k)
    (hv : IsLiteral value v vcell ∧ FreeOf ':' value v) (h : Joined ':' [k, v] piece) :
    splitTopLevel piece ':' = [k, v] := by
  obtain ⟨hordinary, hspace, -⟩ := ordinary_separator (.inr rfl)
  refine splitTopLevel_of_joined hordinary hspace h (cons_ne_nil _ _) ?_
  rw [forall_mem_cons, forall_mem_singleton]
  exact ⟨hk.1.inertFrom hparsers (.inr rfl) (.inl hk.2),
    hv.1.inertFrom hparsers (.inr rfl) (.inl hv.2)⟩

/-- The entries of a map are found again; of none, there is an empty one. -/
theorem splitTopLevel_of_framedEntries {key value : CqlTypeInfo} {pieces : List (List Char)}
    {inner : List Char} {out : Bytes} (hinner : Enumerates pieces inner)
    (h : FramedEntries (fun piece k v => Joined ':' [k, v] piece)
      (fun k cell => IsLiteral key k cell ∧ FreeOf ':' key k)
      (fun v cell => IsLiteral value v cell ∧ FreeOf ':' value v) pieces out) :
    (pieces = [] ∧ trim inner = [] ∧ splitTopLevel inner ',' = [[]]) ∨
      pieces ≠ [] ∧ splitTopLevel inner ',' = pieces := by
  refine splitTopLevel_of_enumerates hinner fun piece hpiece => ?_
  obtain ⟨k, v, kcell, vcell, ⟨padded, hpadded, rfl⟩, ⟨hk, -⟩, ⟨hv, -⟩⟩ := h.exists_cells piece hpiece
  obtain ⟨hordinary, hspace, -⟩ := ordinary_separator (.inl rfl)
  obtain ⟨first, rest, rfl⟩ := exists_cons_of_ne_nil (l := padded)
    (by rintro rfl; cases hpadded)
  obtain ⟨second, rfl⟩ : ∃ second, rest = [second] := by
    rw [map_cons, List.cons.injEq] at hpadded
    exact ⟨_, (map_eq_singleton_iff.1 hpadded.2).choose_spec.1⟩
  simp only [map_cons, map_nil, List.cons.injEq, and_true] at hpadded
  obtain ⟨rfl, rfl⟩ := hpadded
  rw [intercalate_cons_cons, intercalate_singleton]
  have hfirst : InertFrom 0 ',' (trim first) :=
    hk.inertFrom hparsers (.inl rfl) (.inl (hk.freeOf_comma hparsers))
  have hsecond : InertFrom 0 ',' (trim second) :=
    hv.inertFrom hparsers (.inl rfl) (.inl (hv.freeOf_comma hparsers))
  have hcolon : InertFrom 0 ',' [':'] :=
    inertFrom_ordinary (isOrdinary_iff.2 (by decide)) (.inl (by decide))
  exact ((hfirst.of_trim hspace).append hcolon).append (hsecond.of_trim hspace)

/-! ### The parser and the grammar -/

/-- The elements of a list or a set that lack the property are accepted. -/
theorem accepts_of_isSequence {opening closing : Char} {element : CqlTypeInfo} {text : List Char}
    {cell : RawCell} {Q : List Char → Prop}
    (h : IsSequence opening closing (IsLiteral element) text cell)
    (hnot : ¬InSequence opening closing Q text)
    (haccepts : ∀ piece cell, IsLiteral element piece cell → ¬Q piece → Accepts element piece cell) :
    ∃ inner out, text = opening :: (inner ++ [closing]) ∧
      Framed (Accepts element) (filled (splitTopLevel inner ',')) out ∧
      (filled (splitTopLevel inner ',')).length < 2 ^ 31 ∧
      cell = countedCell (filled (splitTopLevel inner ',')).length out := by
  obtain ⟨inner, pieces, out, rfl, hinner, hframed, hlength, rfl⟩ := h
  have hpieces := (splitTopLevel_of_framed hparsers hinner hframed).1
  refine ⟨inner, out, rfl, ?_⟩
  rw [hpieces]
  refine ⟨hframed.imp fun piece hpiece cell hcell => ?_, hlength, rfl⟩
  rw [← hpieces] at hpiece
  exact haccepts piece cell hcell fun hQ => hnot ⟨inner, rfl, piece, hpiece, hQ⟩

/-- A literal is accepted, unless an empty map is in it. -/
theorem accepts_of_isLiteral : {t : CqlTypeInfo} → {text : List Char} → {cell : RawCell} →
    IsLiteral t text cell → ¬Within EmptyMap t text → Accepts t text cell
  | .list element frozen, text, cell, h, hmap => by
    rw [Accepts]
    exact h.imp fun h => accepts_of_isSequence hparsers h (fun hin => hmap (.inr hin))
      fun piece cell hcell hwithin => accepts_of_isLiteral hcell hwithin
  | .set element frozen, text, cell, h, hmap => by
    rw [Accepts]
    exact h.imp fun h => accepts_of_isSequence hparsers h (fun hin => hmap (.inr hin))
      fun piece cell hcell hwithin => accepts_of_isLiteral hcell hwithin
  | .map key value frozen, text, cell, h, hmap => by
    rw [Accepts]
    refine h.imp ?_
    rintro ⟨inner, pieces, out, rfl, hinner, hframed, hlength, rfl⟩
    rcases splitTopLevel_of_framedEntries hparsers hinner hframed with ⟨-, hblank, -⟩ | ⟨-, hpieces⟩
    · exact absurd (.inl ⟨inner, rfl, hblank⟩) hmap
    · refine ⟨inner, out, rfl, ?_⟩
      rw [hpieces]
      refine ⟨hframed.imp fun piece hpiece k v kcell vcell hjoined hk hv => ?_, hlength, rfl⟩
      have hentry := splitTopLevel_of_entry hparsers hk hv hjoined
      rw [← hpieces] at hpiece
      refine ⟨hentry, accepts_of_isLiteral hk.1 fun hwithin => ?_,
        accepts_of_isLiteral hv.1 fun hwithin => ?_⟩
      · exact hmap (.inr ⟨inner, rfl, piece, hpiece, k, v, hentry, .inl hwithin⟩)
      · exact hmap (.inr ⟨inner, rfl, piece, hpiece, k, v, hentry, .inr hwithin⟩)
  | .primitive kind, text, cell, h, hmap => by
    rw [Accepts]
    refine h.imp ?_
    rintro ⟨value, bytes, hspells, hbytes, rfl⟩
    exact ⟨value, bytes, scalarValue_of_spells hparsers hspells hbytes, hbytes, rfl⟩

omit hparsers in
theorem not_inSequence_of_accepts {opening closing : Char} {element : CqlTypeInfo}
    {text : List Char} {cell : RawCell} {Q : List Char → Prop}
    (h : Nullable text cell (∃ inner out, text = opening :: (inner ++ [closing]) ∧
      Framed (Accepts element) (filled (splitTopLevel inner ',')) out ∧
      (filled (splitTopLevel inner ',')).length < 2 ^ 31 ∧
      cell = countedCell (filled (splitTopLevel inner ',')).length out))
    (hopening : opening ∈ specials) (hQ : ∀ piece cell, Accepts element piece cell → ¬Q piece) :
    ¬InSequence opening closing Q text := by
  rintro ⟨inner, rfl, piece, hpiece, hpieceQ⟩
  obtain ⟨inner', out, htext, hframed, -⟩ := h.resolve (not_isNull_of_special hopening _)
  obtain rfl := eq_of_bracketed htext
  obtain ⟨cell, hcell⟩ := hframed.exists_cell piece hpiece
  exact hQ piece cell hcell hpieceQ

omit hparsers in
/-- What is accepted has no empty map in it. -/
theorem not_emptyMap_of_accepts : {t : CqlTypeInfo} → {text : List Char} → {cell : RawCell} →
    Accepts t text cell → ¬Within EmptyMap t text
  | .list element frozen, text, cell, h => by
    rw [Accepts] at h
    rintro (hmap | hin)
    · exact hmap
    · exact not_inSequence_of_accepts h (by decide)
        (fun piece cell hcell => not_emptyMap_of_accepts hcell) hin
  | .set element frozen, text, cell, h => by
    rw [Accepts] at h
    rintro (hmap | hin)
    · exact hmap
    · exact not_inSequence_of_accepts h (by decide)
        (fun piece cell hcell => not_emptyMap_of_accepts hcell) hin
  | .map key value frozen, text, cell, h => by
    rintro (⟨inner, rfl, hblank⟩ | ⟨inner, rfl, piece, hpiece, k, v, hentry, hwithin⟩)
    · rw [Accepts] at h
      obtain ⟨inner', out, htext, hframed, -⟩ := h.resolve (not_isNull_of_special (by decide) _)
      obtain rfl := eq_of_bracketed htext
      -- the one entry of an empty map is an empty text, which has no key
      obtain ⟨hordinary, hspace, -⟩ := ordinary_separator (.inl rfl)
      rw [splitTopLevel_blank hordinary hspace hblank] at hframed
      obtain ⟨k, v, -, -, ⟨⟩, -, -⟩ := hframed.exists_cells [] mem_cons_self
    · rw [Accepts] at h
      obtain ⟨inner', out, htext, hframed, -⟩ := h.resolve (not_isNull_of_special (by decide) _)
      obtain rfl := eq_of_bracketed htext
      obtain ⟨k', v', kcell, vcell, hentry', hk, hv⟩ := hframed.exists_cells piece hpiece
      rw [hentry', List.cons.injEq, List.cons.injEq] at hentry
      obtain ⟨rfl, rfl, -⟩ := hentry
      exact hwithin.elim (not_emptyMap_of_accepts hk) (not_emptyMap_of_accepts hv)
  | .primitive kind, text, cell, h => id
  | .tuple types, text, cell, h => id
  | .udt keyspace name fields frozen, text, cell, h => id
  | .vector element dimensions, text, cell, h => id
  | .custom name, text, cell, h => id

omit hparsers in
/-- An accepted list or set without missing elements is a literal when its elements are. -/
theorem isSequence_of_accepts {opening closing : Char} {element : CqlTypeInfo} {text : List Char}
    {cell : RawCell} {Q : List Char → Prop}
    (h : ∃ inner out, text = opening :: (inner ++ [closing]) ∧
      Framed (Accepts element) (filled (splitTopLevel inner ',')) out ∧
      (filled (splitTopLevel inner ',')).length < 2 ^ 31 ∧
      cell = countedCell (filled (splitTopLevel inner ',')).length out)
    (hnot : ¬MissingElement opening closing text ∧ ¬InSequence opening closing Q text)
    (hliteral : ∀ piece cell, Accepts element piece cell → ¬Q piece → IsLiteral element piece cell) :
    IsSequence opening closing (IsLiteral element) text cell := by
  obtain ⟨inner, out, rfl, hframed, hlength, rfl⟩ := h
  refine ⟨inner, _, out, rfl, enumerates_filled fun hmissing => ?_,
    hframed.imp fun piece hpiece cell hcell => ?_, hlength, rfl⟩
  · exact hnot.1 ⟨inner, rfl, hmissing⟩
  · exact hliteral piece cell hcell fun hQ => hnot.2 ⟨inner, rfl, piece, hpiece, hQ⟩

/-- What is accepted is a literal, unless there is something sloppy in it. -/
theorem isLiteral_of_accepts : {t : CqlTypeInfo} → t.Nests → {text : List Char} →
    {cell : RawCell} → Accepts t text cell → ¬Within Sloppy t text → IsLiteral t text cell
  | .list element frozen, ht, text, cell, h, hsloppy => by
    have helement : element.Nests := ht
    rw [Accepts] at h
    exact h.imp fun h => isSequence_of_accepts h (not_or.1 hsloppy)
      fun piece cell hcell hwithin => isLiteral_of_accepts helement hcell hwithin
  | .set element frozen, ht, text, cell, h, hsloppy => by
    have helement : element.Nests := ht
    rw [Accepts] at h
    exact h.imp fun h => isSequence_of_accepts h (not_or.1 hsloppy)
      fun piece cell hcell hwithin => isLiteral_of_accepts helement hcell hwithin
  | .map key value frozen, ht, text, cell, h, hsloppy => by
    rw [Accepts] at h
    refine h.imp ?_
    rintro ⟨inner, out, rfl, hframed, hlength, rfl⟩
    refine ⟨inner, _, out, rfl, enumerates_splitTopLevel inner,
      hframed.imp fun piece hpiece k v kcell vcell hentry hk hv => ?_, hlength, rfl⟩
    have hjoined := joined_splitTopLevel piece ':'
    have hk := isLiteral_of_accepts ht.1 hk fun hwithin =>
      hsloppy (.inr ⟨inner, rfl, piece, hpiece, k, v, hentry, .inl hwithin⟩)
    have hv := isLiteral_of_accepts ht.2 hv fun hwithin =>
      hsloppy (.inr ⟨inner, rfl, piece, hpiece, k, v, hentry, .inr hwithin⟩)
    have hmem : k ∈ splitTopLevel piece ':' ∧ v ∈ splitTopLevel piece ':' := by
      rw [hentry]
      exact ⟨mem_cons_self, mem_cons_of_mem _ mem_cons_self⟩
    rw [hentry] at hjoined
    exact ⟨hjoined, ⟨hk, hk.freeOf_colon hparsers hmem.1⟩, hv, hv.freeOf_colon hparsers hmem.2⟩
  | .primitive kind, ht, text, cell, h, hsloppy => by
    rw [Accepts] at h
    refine h.imp ?_
    rintro ⟨value, bytes, hvalue, hbytes, rfl⟩
    exact ⟨value, bytes, spells_of_scalarValue hparsers hvalue hbytes hsloppy, hbytes, rfl⟩

/-- In a list or a set no element is missing, and none has a property that literals lack. -/
theorem not_sloppy_of_isSequence {opening closing : Char} {element : CqlTypeInfo}
    {text : List Char} {cell : RawCell} {Q : List Char → Prop}
    (h : Nullable text cell (IsSequence opening closing (IsLiteral element) text cell))
    (hopening : opening ∈ specials) (hQ : ∀ piece cell, IsLiteral element piece cell → ¬Q piece) :
    ¬MissingElement opening closing text ∧ ¬InSequence opening closing Q text := by
  have hpieces {inner : List Char} (htext : text = opening :: (inner ++ [closing])) :
      ∃ pieces out, Framed (IsLiteral element) pieces out ∧
        filled (splitTopLevel inner ',') = pieces ∧
        ¬([] ∈ splitTopLevel inner ',' ∧ trim inner ≠ []) := by
    subst htext
    obtain ⟨inner', pieces, out, htext, hinner, hframed, -⟩ :=
      h.resolve (not_isNull_of_special hopening _)
    obtain rfl := eq_of_bracketed htext
    exact ⟨pieces, out, hframed, splitTopLevel_of_framed hparsers hinner hframed⟩
  constructor
  · rintro ⟨inner, htext, hmissing⟩
    obtain ⟨-, -, -, -, hnot⟩ := hpieces htext
    exact hnot hmissing
  · rintro ⟨inner, htext, piece, hpiece, hpieceQ⟩
    obtain ⟨pieces, out, hframed, hfilled, -⟩ := hpieces htext
    rw [hfilled] at hpiece
    obtain ⟨cell, hcell⟩ := hframed.exists_cell piece hpiece
    exact hQ piece cell hcell hpieceQ

/-- There is nothing sloppy in a literal. -/
theorem IsLiteral.not_sloppy : {t : CqlTypeInfo} → {text : List Char} → {cell : RawCell} →
    IsLiteral t text cell → ¬Within Sloppy t text
  | .list element frozen, text, cell, h => not_or.2 (not_sloppy_of_isSequence hparsers h (by decide)
      fun piece cell hcell => hcell.not_sloppy)
  | .set element frozen, text, cell, h => not_or.2 (not_sloppy_of_isSequence hparsers h (by decide)
      fun piece cell hcell => hcell.not_sloppy)
  | .map key value frozen, text, cell, h => by
    rintro (hsloppy | ⟨inner, rfl, piece, hpiece, k, v, hentry, hwithin⟩)
    · exact hsloppy
    · obtain ⟨inner', pieces, out, htext, hinner, hframed, -⟩ :=
        h.resolve (not_isNull_of_special (by decide) _)
      obtain rfl := eq_of_bracketed htext
      rcases splitTopLevel_of_framedEntries hparsers hinner hframed with ⟨-, -, hsplit⟩ | ⟨-, hsplit⟩
      · rw [hsplit, mem_singleton] at hpiece
        subst hpiece
        cases hentry
      · rw [hsplit] at hpiece
        obtain ⟨k', v', kcell, vcell, hjoined, hk, hv⟩ := hframed.exists_cells piece hpiece
        rw [splitTopLevel_of_entry hparsers hk hv hjoined, List.cons.injEq, List.cons.injEq] at hentry
        obtain ⟨rfl, rfl, -⟩ := hentry
        exact hwithin.elim hk.1.not_sloppy hv.1.not_sloppy
  | .primitive kind, text, cell, h => by
    by_cases hnull : IsNull text
    · have halpha := isAlpha_of_isNull hnull
      rintro (rfl | ⟨-, hquoted, -⟩)
      · cases hnull
      · obtain ⟨inside, rfl⟩ := isQuoted_iff.1 hquoted
        exact absurd (halpha _ mem_cons_self) (by decide)
    · obtain ⟨value, bytes, hspells, -, -⟩ := h.resolve hnull
      exact not_sloppy_of_spells hspells

/-- A literal is parsed to the cell it denotes, unless an empty map is in it; and what is parsed is
a literal, unless a missing element or unpaired quotes are in it. -/
theorem collection_exact_iff (t : CqlTypeInfo) (ht : t.Nests) (literal : List Char) (cell : RawCell) :
    (IsLiteral t (trim literal) cell →
      (parseLiteral t literal = .ok cell ↔ ¬Within EmptyMap t (trim literal))) ∧
    (parseLiteral t literal = .ok cell →
      (IsLiteral t (trim literal) cell ↔ ¬Within Sloppy t (trim literal))) := by
  rw [parseLiteral_eq_ok]
  exact ⟨fun h => ⟨not_emptyMap_of_accepts, accepts_of_isLiteral hparsers h⟩,
    fun h => ⟨fun hliteral => hliteral.not_sloppy hparsers, isLiteral_of_accepts hparsers ht h⟩⟩

end Grammar

/-- The literal of a list of two integers. -/
theorem collection_exact_two :
    @IsLiteral .rejecting (.list (.primitive .int) false) "[1, 2]".toList
      (some [0, 0, 0, 2, 0, 0, 0, 4, 0, 0, 0, 1, 0, 0, 0, 4, 0, 0, 0, 2]) := by
  let _ : LiteralParsers := .rejecting
  refine ((collection_exact_iff (rejecting_acceptOnly _) (.list (.primitive .int) false) trivial
    "[1, 2]".toList _).2 (by decide)).2 ?_
  rintro (⟨inner, htext, hmissing, -⟩ | ⟨inner, htext, piece, hpiece, hsloppy⟩)
  · obtain rfl : "1, 2".toList = inner := eq_of_bracketed htext
    exact absurd hmissing (by decide)
  · obtain rfl : "1, 2".toList = inner := eq_of_bracketed htext
    have hpieces : piece ∈ ["1".toList, "2".toList] := hpiece
    rw [mem_pair] at hpieces
    rcases hpieces with rfl | rfl
    · rcases hsloppy with hnil | ⟨hkind, -⟩
      · cases hnil
      · exact absurd hkind (by decide)
    · rcases hsloppy with hnil | ⟨hkind, -⟩
      · cases hnil
      · exact absurd hkind (by decide)

/-- The empty map is rejected, and a missing element is accepted. -/
theorem not_collection_exact :
    (@IsLiteral .rejecting (.map (.primitive .int) (.primitive .int) false) ['\x7b', '\x7d']
        (countedCell 0 []) ∧
      ∀ cell, @parseLiteral .rejecting (.map (.primitive .int) (.primitive .int) false)
        ['\x7b', '\x7d'] ≠ .ok cell) ∧
    ∃ cell, @parseLiteral .rejecting (.list (.primitive .int) false) "[1,,2]".toList = .ok cell ∧
      ¬@IsLiteral .rejecting (.list (.primitive .int) false) "[1,,2]".toList cell := by
  let _ : LiteralParsers := .rejecting
  refine ⟨⟨⟨[], [], [], rfl, rfl, rfl, by decide, rfl⟩, fun cell => nofun⟩, _, rfl, fun h => ?_⟩
  refine h.not_sloppy (rejecting_acceptOnly _) (.inl ⟨"1,,2".toList, rfl, ?_, ?_⟩)
  · decide
  · decide

end Literal

end Cdm
