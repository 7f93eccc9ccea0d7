import Cdm.Codec.WellKnownBinary

/-!
# Well-known text

The texts of geometries, as a grammar, and how the reader takes a text apart.  It finds the points
of a list by splitting at commas, and the coordinates of a point as the first two words; the rings
of a polygon are what stands in parentheses, whatever stands around them.
-/

namespace Cdm

open List

namespace Geometry

open Fallible
open Text

/-- Point, line string, polygon. -/
inductive Shape
  | point
  | lineString
  | polygon
  deriving DecidableEq

def Shape.keyword : Shape → List Char
  | point => "POINT".toList
  | lineString => "LINESTRING".toList
  | polygon => "POLYGON".toList

def shape {F : Type} : Geometry F → Shape
  | .point _ _ => .point
  | .lineString _ => .lineString
  | .polygon _ => .polygon

/-! ### The grammar -/

/-- The texts of the rings, each with what stands before its parenthesis, and what stands behind the
last one. -/
def enclosed : List (List Char × List Char) → List Char → List Char
  | [], last => last
  | (gap, ring) :: others, last => gap ++ '(' :: (ring ++ ')' :: enclosed others last)

/-- Between the rings there are commas, and otherwise only white space around them. -/
def Separated : List (List Char × List Char) → List Char → Prop
  | [], _ => False
  | (gap, _) :: others, last =>
    Blank gap ∧ (∀ ring ∈ others, trim ring.1 = [',']) ∧ Blank last

section Grammar

variable {F : Type} [F64 F]

/-- Two numbers with white space between them, and perhaps around them. -/
def IsPairText (pair : F × F) (text : List Char) : Prop :=
  ∃ before x between y after, text = before ++ (x ++ (between ++ (y ++ after))) ∧ between ≠ [] ∧
    Blank (before ++ (between ++ after)) ∧ F64.parse x = some pair.1 ∧ F64.parse y = some pair.2

/-- Points with commas between them. -/
def IsPointsText (points : List (F × F)) (text : List Char) : Prop :=
  ∃ pieces, pieces ≠ [] ∧ List.Forall₂ IsPairText points pieces ∧ text = [','].intercalate pieces

def IsBodyText : Geometry F → List Char → Prop
  | point x y, text => IsPairText (x, y) text
  | lineString points, text => IsPointsText points text
  | polygon rings, text => ∃ parts last, text = enclosed parts last ∧ Separated parts last ∧
      List.Forall₂ (fun ring part => IsPointsText ring part.2) rings parts

/-- The text is the well-known text of the geometry: its keyword, and its coordinates in
parentheses. -/
def IsWkt (text : List Char) (geometry : Geometry F) : Prop :=
  ∃ keyword space body, unwrap text = keyword ++ (space ++ '(' :: (body ++ [')'])) ∧
    toUpper keyword = geometry.shape.keyword ∧ Blank space ∧ IsBodyText geometry body

/-! ### Points -/

theorem not_special_of_isDoubleChar {c : Char} (h : isDoubleChar c = true) :
    isWhitespace c = false ∧ c ≠ ',' ∧ c ≠ '(' ∧ c ≠ ')' ∧ c ≠ singleQuote := by
  refine ⟨?_, ?_, ?_, ?_, ?_⟩
  · simp only [isDoubleChar, Char.isAlphanum, Bool.or_eq_true, beq_iff_eq] at h
    rcases h with (((h | h) | rfl) | rfl) | rfl
    · exact isWhitespace_of_isAlpha h
    · exact isWhitespace_of_isDigit h
    · decide
    · decide
    · decide
  all_goals
    rintro rfl
    exact absurd h (by decide)

variable [LawfulF64 F]

/-- A number is a word. -/
theorem word_of_parse {s : List Char} {x : F} (h : F64.parse s = some x) :
    s ≠ [] ∧ (∀ c ∈ s, isWhitespace c = false) ∧ ',' ∉ s ∧ '(' ∉ s ∧ ')' ∉ s := by
  obtain ⟨hne, hall⟩ := LawfulF64.parse_accepts h
  have hchars (c : Char) (hc : c ∈ s) := not_special_of_isDoubleChar (all_eq_true.1 hall c hc)
  exact ⟨hne, fun c hc => (hchars c hc).1, fun hmem => (hchars _ hmem).2.1 rfl,
    fun hmem => (hchars _ hmem).2.2.1 rfl, fun hmem => (hchars _ hmem).2.2.2.1 rfl⟩

/-- The two numbers are the words of the text. -/
theorem words_of_isPairText {pair : F × F} {text : List Char} (h : IsPairText pair text) :
    ∃ x y, words text = [x, y] ∧ F64.parse x = some pair.1 ∧ F64.parse y = some pair.2 := by
  obtain ⟨before, x, between, y, after, rfl, hne, hblank, hx, hy⟩ := h
  rw [blank_append, blank_append] at hblank
  obtain ⟨hbefore, hbetween, hafter⟩ := hblank
  obtain ⟨hxne, hxword, -⟩ := word_of_parse hx
  obtain ⟨hyne, hyword, -⟩ := word_of_parse hy
  have hhead (space rest : List Char) (hspace : Blank space) (hnil : space = [] → rest = []) :
      ∀ c ∈ (space ++ rest).head?, isWhitespace c = true := by
    cases space with
    | nil =>
      rw [hnil rfl]
      simp
    | cons c cs =>
      rintro d ⟨⟩
      exact (blank_cons.1 hspace).1
  refine ⟨x, y, ?_, hx, hy⟩
  rw [words_space_append hbefore,
    words_word_append hxword hxne (hhead between _ hbetween fun hnil => absurd hnil hne),
    words_space_append hbetween, words_word_append hyword hyne ?_,
    words_eq_nil.2 hafter]
  have hend := hhead after [] hafter fun _ => rfl
  rwa [append_nil] at hend

theorem not_mem_of_isPairText {c : Char} (hspace : isWhitespace c = false)
    (hdouble : isDoubleChar c = false) {pair : F × F} {text : List Char}
    (h : IsPairText pair text) : c ∉ text := by
  obtain ⟨before, x, between, y, after, rfl, -, hblank, hx, hy⟩ := h
  have hnumber {s : List Char} {x : F} (h : F64.parse s = some x) : c ∉ s := by
    intro hmem
    rw [all_eq_true.1 (LawfulF64.parse_accepts h).2 c hmem] at hdouble
    cases hdouble
  have hblank : c ∉ before ++ (between ++ after) := by
    intro hmem
    rw [hblank c hmem] at hspace
    cases hspace
  simp only [mem_append, not_or] at hblank ⊢
  exact ⟨hblank.1, hnumber hx, hblank.2.1, hnumber hy, hblank.2.2⟩

omit [LawfulF64 F] in
theorem parseCoordinate_eq_ok {text : List Char} {x : F} :
    parseCoordinate text = .ok x ↔ F64.parse text = some x := by
  rw [parseCoordinate]
  cases (F64.parse text : Option F) with
  | none => simp
  | some value => simp

omit [LawfulF64 F] in
/-- The first two words are the coordinates. -/
theorem parsePair_eq_ok {text : List Char} {pair : F × F} :
    parsePair text = .ok pair ↔ ∃ x y others, words text = x :: y :: others ∧
      F64.parse x = some pair.1 ∧ F64.parse y = some pair.2 := by
  rw [parsePair]
  constructor
  · intro h
    split at h
    · cases h
    · cases h
    · rename_i x y others hwords
      obtain ⟨a, ha, h⟩ := bind_eq_ok.1 h
      obtain ⟨b, hb, h⟩ := bind_eq_ok.1 h
      cases h
      exact ⟨x, y, others, hwords, parseCoordinate_eq_ok.1 ha, parseCoordinate_eq_ok.1 hb⟩
  · rintro ⟨x, y, others, hwords, hx, hy⟩
    rw [hwords]
    exact bind_eq_ok.2 ⟨_, parseCoordinate_eq_ok.2 hx, bind_eq_ok.2
      ⟨_, parseCoordinate_eq_ok.2 hy, rfl⟩⟩

omit [LawfulF64 F] in
/-- Two words that are numbers are a point. -/
theorem isPairText_of_parsePair {text : List Char} {pair : F × F} (h : parsePair text = .ok pair)
    (hwords : (words text).length = 2) : IsPairText pair text := by
  obtain ⟨x, y, others, heq, hx, hy⟩ := parsePair_eq_ok.1 h
  obtain rfl : others = [] := by
    rw [heq] at hwords
    exact length_eq_zero_iff.1 (Nat.succ.inj (Nat.succ.inj hwords))
  obtain ⟨before, rest, rfl, hbefore, -, -, hhead, hrest⟩ := exists_of_words_eq_cons heq
  obtain ⟨between, after, rfl, hbetween, hyword, hyne, -, hafter⟩ :=
    exists_of_words_eq_cons hrest
  refine ⟨before, x, between, y, after, rfl, ?_, ?_, hx, hy⟩
  · rintro rfl
    obtain ⟨c, cs, rfl⟩ := exists_cons_of_ne_nil hyne
    exact Bool.false_ne_true ((hyword c mem_cons_self).symm.trans (hhead c rfl))
  · rw [blank_append, blank_append]
    exact ⟨hbefore, hbetween, words_eq_nil.1 hafter⟩

/-! ### Lists of points -/

omit [F64 F] [LawfulF64 F] in
theorem exists_left_of_mem {α β : Type} {R : α → β → Prop} {xs : List α} {ys : List β}
    (h : List.Forall₂ R xs ys) : ∀ y ∈ ys, ∃ x, R x y := by
  induction h with
  | nil => exact fun _ hmem => absurd hmem not_mem_nil
  | cons hxy _ ih => exact forall_mem_cons.2 ⟨⟨_, hxy⟩, ih⟩

/-- The texts of the points are found again. -/
theorem splitOn_of_isPointsText {points : List (F × F)} {text : List Char}
    (h : IsPointsText points text) : List.Forall₂ IsPairText points (Text.splitOn ',' text) := by
  obtain ⟨pieces, hne, hpieces, rfl⟩ := h
  rw [splitOn_intercalate hne fun piece hpiece => ?_]
  · exact hpieces
  · obtain ⟨pair, hpair⟩ := exists_left_of_mem hpieces piece hpiece
    exact not_mem_of_isPairText (by decide) (by decide) hpair

theorem parsePoints_of_isPointsText {points : List (F × F)} {text : List Char}
    (h : IsPointsText points text) : parsePoints text = .ok points := by
  refine mapM_eq_ok_iff.2 ((splitOn_of_isPointsText h).flip.imp fun piece pair hpair => ?_)
  obtain ⟨x, y, hwords, hx, hy⟩ := words_of_isPairText hpair
  exact parsePair_eq_ok.2 ⟨x, y, [], hwords, hx, hy⟩

omit [LawfulF64 F] in
/-- A list is read as points when each of its pieces has two words. -/
theorem isPointsText_of_parsePoints {points : List (F × F)} {text : List Char}
    (h : parsePoints text = .ok points)
    (hwords : ∀ piece ∈ Text.splitOn ',' text, (words piece).length = 2) :
    IsPointsText points text := by
  refine ⟨Text.splitOn ',' text, splitOn_ne_nil ',' text, ?_,
    (intercalate_splitOn ',' text).symm⟩
  exact (((forall₂_and_left _ _).2 ⟨hwords, mapM_eq_ok h⟩).imp fun piece pair hboth =>
    isPairText_of_parsePair hboth.2 hboth.1).flip

/-- A point is two words. -/
theorem length_words_of_isPointsText {points : List (F × F)} {text : List Char}
    (h : IsPointsText points text) :
    ∀ piece ∈ Text.splitOn ',' text, (words piece).length = 2 := by
  intro piece hpiece
  obtain ⟨pair, hpair⟩ := exists_left_of_mem (splitOn_of_isPointsText h) piece hpiece
  obtain ⟨x, y, hwords, -⟩ := words_of_isPairText hpair
  rw [hwords]
  rfl

theorem not_mem_of_isPointsText {c : Char} (hspace : isWhitespace c = false)
    (hdouble : isDoubleChar c = false) (hcomma : c ≠ ',') {points : List (F × F)} {text : List Char}
    (h : IsPointsText points text) : c ∉ text := by
  obtain ⟨pieces, -, hpieces, rfl⟩ := h
  refine not_mem_intercalate (fun hmem => hcomma (mem_singleton.1 hmem)) ?_
  intro piece hpiece
  obtain ⟨pair, hpair⟩ := exists_left_of_mem hpieces piece hpiece
  exact not_mem_of_isPairText hspace hdouble hpair

/-! ### Rings -/

/-- Each ring starts at the first parenthesis and ends at the next closing one. -/
def WellEnclosed (parts : List (List Char × List Char)) (last : List Char) : Prop :=
  (∀ part ∈ parts, '(' ∉ part.1 ∧ ')' ∉ part.2) ∧ '(' ∉ last

omit [LawfulF64 F] in
theorem parseRings_gap (text : List Char) {gap : List Char} (h : '(' ∉ gap) (rest : List Char) :
    (parseRings text none (gap ++ rest) : Except CdmError (List (List (F × F)))) =
      parseRings text none rest := by
  induction gap with
  | nil => rfl
  | cons c cs ih =>
    have hc : c ≠ '(' := fun heq => h (heq ▸ mem_cons_self)
    rw [cons_append, parseRings, if_neg hc, ih fun hmem => h (mem_cons_of_mem _ hmem)]

omit [LawfulF64 F] in
theorem parseRings_ring (text : List Char) {ring : List Char} (h : ')' ∉ ring)
    (before rest : List Char) :
    (parseRings text (some before) (ring ++ ')' :: rest) :
        Except CdmError (List (List (F × F)))) = do
      let first ← parsePoints (before.reverse ++ ring)
      let others ← parseRings text none rest
      return first :: others := by
  induction ring generalizing before with
  | nil => rw [nil_append, parseRings, if_pos rfl, append_nil]
  | cons c cs ih =>
    have hc : c ≠ ')' := fun heq => h (heq ▸ mem_cons_self)
    rw [cons_append, parseRings, if_neg hc, ih fun hmem => h (mem_cons_of_mem _ hmem),
      reverse_cons, append_assoc, singleton_append]

omit [LawfulF64 F] in
theorem parseRings_unclosed (text before : List Char) {rest : List Char} (h : ')' ∉ rest) :
    (parseRings text (some before) rest : Except CdmError (List (List (F × F)))) =
      parseRings text (some []) [] := by
  induction rest generalizing before with
  | nil => rfl
  | cons c cs ih =>
    have hc : c ≠ ')' := fun heq => h (heq ▸ mem_cons_self)
    calc parseRings text (some before) (c :: cs) = parseRings text (some (c :: before)) cs := by
          rw [parseRings, if_neg hc]
      _ = parseRings text (some []) [] := ih _ fun hmem => h (mem_cons_of_mem _ hmem)

omit [LawfulF64 F] in
/-- The rings of a polygon are read one after the other. -/
theorem parseRings_enclosed (text : List Char) {parts : List (List Char × List Char)}
    {last : List Char} (h : WellEnclosed parts last) :
    (parseRings text none (enclosed parts last) : Except CdmError (List (List (F × F)))) =
      parts.mapM fun part => parsePoints part.2 := by
  obtain ⟨hparts, hlast⟩ := h
  induction parts with
  | nil =>
    rw [enclosed, ← append_nil last, parseRings_gap text hlast]
    rfl
  | cons part parts ih =>
    obtain ⟨gap, ring⟩ := part
    rw [forall_mem_cons] at hparts
    rw [enclosed, parseRings_gap text hparts.1.1, parseRings, if_pos rfl,
      parseRings_ring text hparts.1.2, ih hparts.2, mapM_cons, reverse_nil,
      nil_append]

omit [LawfulF64 F] in
/-- White space around the rings does not matter. -/
theorem parseRings_trim (text body : List Char) :
    (parseRings text none (trim body) : Except CdmError (List (List (F × F)))) =
      parseRings text none body := by
  obtain ⟨before, after, hbody, hbefore, hafter⟩ := exists_trim_padding body
  have hnot {c : Char} (hc : isWhitespace c = false) {space : List Char}
      (hspace : Blank space) : c ∉ space :=
    fun hmem => Bool.false_ne_true (hc.symm.trans (hspace c hmem))
  have hopen := hnot (c := '(') (by decide) hafter
  have hclose := hnot (c := ')') (by decide) hafter
  have happend (s : List Char) (state : Option (List Char)) :
      (parseRings text state (s ++ after) : Except CdmError (List (List (F × F)))) =
        parseRings text state s := by
    induction s generalizing state with
    | nil =>
      cases state with
      | none => rw [nil_append, ← append_nil after, parseRings_gap text hopen]
      | some ring => rw [nil_append, parseRings_unclosed text ring hclose]; rfl
    | cons c cs ih =>
      cases state with
      | none => rw [cons_append, parseRings, parseRings, ih, ih]
      | some ring => rw [cons_append, parseRings, parseRings, ih, ih]
  rw [← happend (trim body), ← parseRings_gap text (hnot (by decide) hbefore), ← hbody]

/-! ### Reading -/

omit [F64 F] [LawfulF64 F] in
theorem keyword_unique {s t : Shape} {text : List Char} (hs : s.keyword <+: text)
    (ht : t.keyword <+: text) : s = t := by
  rcases prefix_or_prefix_of_prefix hs ht with h | h
  all_goals
    cases s <;> cases t <;> first | rfl | exact absurd h (by decide)

omit [F64 F] [LawfulF64 F] in
theorem prefix_left_of_not_mem {word before after : List Char} {c : Char} (hc : c ∉ word) :
    word <+: before ++ c :: after ↔ word <+: before := by
  refine ⟨fun h => ?_, fun h => h.trans (prefix_append _ _)⟩
  rcases prefix_or_prefix_of_prefix h (prefix_append before (c :: after)) with h' | ⟨t, rfl⟩
  · exact h'
  · cases t with
    | nil => rw [append_nil]
    | cons d ds =>
      rw [prefix_append_right_inj, cons_prefix_cons] at h
      rw [h.1] at hc
      exact absurd (mem_append_right _ mem_cons_self) hc

/-- What the reader makes of the text in the parentheses. -/
def ReadsBody (text body : List Char) : Geometry F → Prop
  | point x y => ∃ others, parsePoints body = .ok ((x, y) :: others)
  | lineString points => parsePoints body = .ok points
  | polygon rings => rings ≠ [] ∧ parseRings text none body = .ok rings

omit [LawfulF64 F] in
theorem parseBody_eq_ok {text body : List Char} :
    parseBody text = .ok body ↔
      ∃ keyword, unwrap text = keyword ++ '(' :: (body ++ [')']) ∧ '(' ∉ keyword := by
  rw [parseBody]
  constructor
  · intro h
    split at h
    · cases h
    · rename_i keyword rest hsplit
      obtain ⟨heq, hnot⟩ := splitOnce_eq_some.1 hsplit
      split_ifs at h with hends
      cases h
      obtain ⟨inner, rfl⟩ := endsWith_iff.1 hends
      rw [dropLast_concat]
      exact ⟨keyword, heq, hnot⟩
  · rintro ⟨keyword, heq, hnot⟩
    rw [heq, splitOnce_append hnot]
    simp only [endsWith_iff.2 ⟨body, rfl⟩, if_true, dropLast_concat]

omit [LawfulF64 F] in
/-- Which texts are read as which geometry: what comes before the keyword ends, and points behind
the first one of a point, do not matter. -/
theorem fromWkt_eq_ok {text : List Char} {geometry : Geometry F} :
    fromWkt text = .ok geometry ↔
      ∃ keyword body, unwrap text = keyword ++ '(' :: (body ++ [')']) ∧ '(' ∉ keyword ∧
        geometry.shape.keyword <+: toUpper keyword ∧ ReadsBody text body geometry := by
  have hupper (shape : Shape) {keyword body : List Char}
      (htext : unwrap text = keyword ++ '(' :: (body ++ [')'])) :
      shape.keyword <+: toUpper (unwrap text) ↔ shape.keyword <+: toUpper keyword := by
    rw [htext, toUpper, map_append, map_cons]
    exact prefix_left_of_not_mem (by cases shape <;> decide)
  rw [fromWkt, bind_eq_ok]
  constructor
  · rintro ⟨body, hbody, h⟩
    obtain ⟨keyword, htext, hnot⟩ := parseBody_eq_ok.1 hbody
    refine ⟨keyword, body, htext, hnot, ?_⟩
    split_ifs at h with hpoint hline hpolygon
    · obtain ⟨coords, hcoords, h⟩ := bind_eq_ok.1 h
      cases coords with
      | nil => cases h
      | cons first others =>
        cases h
        exact ⟨(hupper .point htext).1 hpoint, others, hcoords⟩
    · obtain ⟨points, hpoints, h⟩ := bind_eq_ok.1 h
      cases h
      exact ⟨(hupper .lineString htext).1 hline, hpoints⟩
    · obtain ⟨rings, hrings, h⟩ := bind_eq_ok.1 h
      cases rings with
      | nil => cases h
      | cons ring rings =>
        cases h
        rw [parseRings_trim] at hrings
        exact ⟨(hupper .polygon htext).1 hpolygon, cons_ne_nil _ _, hrings⟩
  · rintro ⟨keyword, body, htext, hnot, hkeyword, hreads⟩
    refine ⟨body, parseBody_eq_ok.2 ⟨keyword, htext, hnot⟩, ?_⟩
    have hprefix := (hupper geometry.shape htext).2 hkeyword
    have hother (shape : Shape) (hne : geometry.shape ≠ shape) :
        ¬shape.keyword <+: toUpper (unwrap text) :=
      fun h => hne (keyword_unique hprefix h)
    cases geometry with
    | point x y =>
      obtain ⟨others, hpoints⟩ := hreads
      have hpoint : "POINT".toList <+: toUpper (unwrap text) := hprefix
      rw [if_pos hpoint]
      exact bind_eq_ok.2 ⟨_, hpoints, rfl⟩
    | lineString points =>
      have hpoint : ¬"POINT".toList <+: toUpper (unwrap text) := hother .point nofun
      have hline : "LINESTRING".toList <+: toUpper (unwrap text) := hprefix
      rw [if_neg hpoint, if_pos hline]
      exact bind_eq_ok.2 ⟨_, hreads, rfl⟩
    | polygon rings =>
      obtain ⟨hne, hrings⟩ := hreads
      have hpoint : ¬"POINT".toList <+: toUpper (unwrap text) := hother .point nofun
      have hline : ¬"LINESTRING".toList <+: toUpper (unwrap text) := hother .lineString nofun
      have hpolygon : "POLYGON".toList <+: toUpper (unwrap text) := hprefix
      rw [if_neg hpoint, if_neg hline, if_pos hpolygon, parseRings_trim]
      refine bind_eq_ok.2 ⟨_, hrings, ?_⟩
      cases rings with
      | nil => exact absurd rfl hne
      | cons ring rings => rfl

omit [F64 F] [LawfulF64 F] in
theorem not_mem_of_toUpper {shape : Shape} {keyword : List Char}
    (h : toUpper keyword = shape.keyword) : '(' ∉ keyword := by
  intro hmem
  have hupper : '(' ∈ shape.keyword := h ▸ mem_map_of_mem hmem
  cases shape <;> exact absurd hupper (by decide)

omit [F64 F] [LawfulF64 F] in
theorem not_mem_of_blank {space : List Char} (h : Blank space) : '(' ∉ space :=
  fun hmem => absurd (h _ hmem) (by decide)

omit [F64 F] [LawfulF64 F] in
/-- Commas and white space are no parentheses. -/
theorem wellEnclosed_of_separated {parts : List (List Char × List Char)} {last : List Char}
    (h : Separated parts last) (hparts : ∀ part ∈ parts, ')' ∉ part.2) :
    WellEnclosed parts last := by
  cases parts with
  | nil => cases h
  | cons part parts =>
    obtain ⟨hgap, hothers, hlast⟩ := h
    rw [forall_mem_cons] at hparts
    refine ⟨forall_mem_cons.2 ⟨⟨not_mem_of_blank hgap, hparts.1⟩, fun part hpart => ?_⟩,
      not_mem_of_blank hlast⟩
    refine ⟨?_, hparts.2 part hpart⟩
    obtain ⟨before, after, heq, hbefore, hafter⟩ := exists_trim_padding part.1
    rw [heq, hothers part hpart, mem_append, mem_append, mem_singleton, not_or, not_or]
    exact ⟨not_mem_of_blank hbefore, by decide, not_mem_of_blank hafter⟩

theorem readsBody_of_isBodyText (text : List Char) {body : List Char} {geometry : Geometry F}
    (h : IsBodyText geometry body) : ReadsBody text body geometry := by
  cases geometry with
  | point x y =>
    have hcomma := not_mem_of_isPairText (c := ',') (by decide) (by decide) h
    have hpoints : IsPointsText [(x, y)] body :=
      ⟨[body], cons_ne_nil _ _, .cons h .nil, (intercalate_singleton ..).symm⟩
    exact ⟨[], parsePoints_of_isPointsText hpoints⟩
  | lineString points => exact parsePoints_of_isPointsText h
  | polygon rings =>
    obtain ⟨parts, last, rfl, hseparated, hrings⟩ := h
    have hclose : ∀ part ∈ parts, ')' ∉ part.2 := by
      intro part hpart
      obtain ⟨ring, hring⟩ := exists_left_of_mem hrings part hpart
      exact not_mem_of_isPointsText (by decide) (by decide) (by decide) hring
    refine ⟨?_, ?_⟩
    · rintro rfl
      cases hrings
      cases hseparated
    · rw [parseRings_enclosed text (wellEnclosed_of_separated hseparated hclose)]
      exact mapM_eq_ok_iff.2 (hrings.flip.imp fun part ring hring => parsePoints_of_isPointsText hring)

/-- A text is read as the geometry it denotes. -/
theorem fromWkt_of_isWkt {text : List Char} {geometry : Geometry F} (h : IsWkt text geometry) :
    fromWkt text = .ok geometry := by
  obtain ⟨keyword, space, body, htext, hkeyword, hspace, hbody⟩ := h
  refine fromWkt_eq_ok.2 ⟨keyword ++ space, body, ?_, ?_, ?_, readsBody_of_isBodyText text hbody⟩
  · rw [htext, append_assoc]
  · rw [mem_append, not_or]
    exact ⟨not_mem_of_toUpper hkeyword, not_mem_of_blank hspace⟩
  · rw [toUpper, map_append, ← hkeyword]
    exact prefix_append _ _

end Grammar

end Geometry

end Cdm
