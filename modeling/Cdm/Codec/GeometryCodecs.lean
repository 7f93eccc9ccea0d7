import Cdm.Codec.WellKnownText

/-!
# Codecs of geometries

From well-known binary to text and back, a geometry survives when its text has coordinates in all
places where the grammar wants some; the buffer it was read from may have been longer than it.  In
the other direction, one converter serves points, line strings and polygons alike.
-/

namespace Cdm

open List

namespace Geometry

open Fallible
open Text (Blank singleQuote)

/-- A geometry that can be written as text: every list of coordinates in it has an element. -/
def HasText {F : Type} : Geometry F → Prop
  | point _ _ => True
  | lineString points => points ≠ []
  | polygon rings => rings ≠ [] ∧ [] ∉ rings

theorem blank_space : Blank [' '] := Text.blank_cons.2 ⟨by decide, Text.blank_nil⟩

section RoundTrip

variable {F : Type} [F64 F] [LawfulF64 F]

/-! ### Rendered texts -/

omit [F64 F] [LawfulF64 F] in
theorem intercalate_comma_space (first : List Char) (others : List (List Char)) :
    [',', ' '].intercalate (first :: others) =
      [','].intercalate (first :: others.map (' ' :: ·)) := by
  induction others generalizing first with
  | nil => rw [map_nil, intercalate_singleton, intercalate_singleton]
  | cons next others ih =>
    rw [intercalate_cons_cons, ih, map_cons, intercalate_cons_cons]
    cases others with
    | nil => simp
    | cons last others => simp [intercalate_cons_cons]

theorem isPairText_pairText {before : List Char} (hbefore : Blank before) (pair : F × F) :
    IsPairText pair (before ++ pairText pair) := by
  refine ⟨before, F64.display pair.1, [' '], F64.display pair.2, [], ?_, cons_ne_nil _ _, ?_,
    LawfulF64.parse_display _, LawfulF64.parse_display _⟩
  · simp [pairText]
  · rw [append_nil, Text.blank_append]
    exact ⟨hbefore, blank_space⟩

theorem isPointsText_points {ring : List (F × F)} (h : ring ≠ []) :
    IsPointsText ring (points ring) := by
  obtain ⟨first, others, rfl⟩ := exists_cons_of_ne_nil h
  refine ⟨pairText first :: (others.map pairText).map (' ' :: ·), cons_ne_nil _ _, ?_,
    intercalate_comma_space _ _⟩
  refine .cons (isPairText_pairText Text.blank_nil first) ?_
  rw [map_map, forall₂_map_right_iff, forall₂_same]
  exact fun pair _ => isPairText_pairText blank_space pair

/-- The rings of a polygon, as they are rendered. -/
def renderedParts : List (List (F × F)) → List (List Char × List Char)
  | [] => []
  | ring :: rings => ([], points ring) :: rings.map fun ring => ([',', ' '], points ring)

omit [LawfulF64 F] in
theorem map_snd_renderedParts (rings : List (List (F × F))) :
    (renderedParts rings).map Prod.snd = rings.map points := by
  cases rings with
  | nil => rfl
  | cons ring rings => simp [renderedParts]

omit [LawfulF64 F] in
theorem enclosed_renderedParts (rings : List (List (F × F))) :
    [',', ' '].intercalate (rings.map fun ring => '(' :: (points ring ++ [')'])) =
      enclosed (renderedParts rings) [] := by
  cases rings with
  | nil => rfl
  | cons ring rings =>
    simp only [map_cons, renderedParts, enclosed, nil_append]
    induction rings generalizing ring with
    | nil => simp [enclosed]
    | cons next rings ih =>
      rw [map_cons, intercalate_cons_cons, ih, map_cons, enclosed]
      simp

theorem isBodyText_polygon {rings : List (List (F × F))} (hne : rings ≠ []) (hrings : [] ∉ rings) :
    IsBodyText (polygon rings)
      ([',', ' '].intercalate (rings.map fun ring => '(' :: (points ring ++ [')']))) := by
  have hpoints : ∀ ring ∈ rings, IsPointsText ring (points ring) :=
    fun ring hring => isPointsText_points fun hnil => hrings (hnil ▸ hring)
  refine ⟨renderedParts rings, [], enclosed_renderedParts rings, ?_⟩
  obtain ⟨ring, rings, rfl⟩ := exists_cons_of_ne_nil hne
  rw [forall_mem_cons] at hpoints
  refine ⟨⟨Text.blank_nil, ?_, Text.blank_nil⟩, .cons hpoints.1 ?_⟩
  · rw [forall_mem_map]
    exact fun _ _ => (by decide : Text.trim [',', ' '] = [','])
  · rw [forall₂_map_right_iff, forall₂_same]
    exact hpoints.2

/-- Neither white space nor quotes are around a text that starts with a letter and ends with a
parenthesis. -/
theorem unwrap_eq_self {c : Char} (hc : c.isAlpha = true) (inner : List Char) :
    unwrap (c :: (inner ++ [')'])) = c :: (inner ++ [')']) := by
  have htrim : Text.trim (c :: (inner ++ [')'])) = c :: (inner ++ [')']) := by
    refine Text.trim_append (w := []) (by simp) ?_ ?_
    · rintro d ⟨⟩
      exact Text.isWhitespace_of_isAlpha hc
    · rw [← cons_append, getLast?_concat]
      rintro d ⟨⟩
      decide
  have hquote : c ≠ singleQuote := by
    rintro rfl
    exact absurd hc (by decide)
  have hmatches : Text.trimMatches singleQuote (c :: (inner ++ [')'])) = c :: (inner ++ [')']) := by
    rw [Text.trimMatches, dropWhile_cons_of_neg (by simpa using hquote), ← cons_append,
      reverse_append, reverse_singleton, singleton_append,
      dropWhile_cons_of_neg (by decide), reverse_cons, reverse_reverse]
  rw [unwrap, htrim, hmatches, htrim]

/-- A geometry that has a text is rendered as one. -/
theorem isWkt_toWkt {geometry : Geometry F} (h : geometry.HasText) :
    IsWkt geometry.toWkt geometry := by
  cases geometry with
  | point x y =>
    refine ⟨"POINT".toList, [' '], pairText (x, y), ?_, rfl, blank_space,
      isPairText_pairText Text.blank_nil (x, y)⟩
    exact unwrap_eq_self (c := 'P') (by decide) ("OINT (".toList ++ pairText (x, y))
  | lineString ring =>
    refine ⟨"LINESTRING".toList, [' '], points ring, ?_, rfl, blank_space,
      isPointsText_points h⟩
    exact unwrap_eq_self (c := 'L') (by decide) ("INESTRING (".toList ++ points ring)
  | polygon rings =>
    refine ⟨"POLYGON".toList, [' '], _, ?_, rfl, blank_space, isBodyText_polygon h.1 h.2⟩
    exact unwrap_eq_self (c := 'P') (by decide) ("OLYGON (".toList ++ _)

/-! ### Back from text -/

omit [LawfulF64 F] in
/-- A text with nothing in its parentheses is not read. -/
theorem not_readsBody_nil (text : List Char) (geometry : Geometry F) :
    ¬ReadsBody text [] geometry := by
  intro h
  cases geometry with
  | point x y =>
    obtain ⟨others, hpoints⟩ := h
    cases hpoints
  | lineString points => cases h
  | polygon rings =>
    obtain ⟨hne, hrings⟩ := h
    cases hrings
    exact hne rfl

/-- What stands between the parentheses of a text. -/
theorem body_unique {keyword keyword' body body' : List Char} (h : '(' ∉ keyword)
    (h' : '(' ∉ keyword')
    (heq : keyword ++ '(' :: (body ++ [')']) = keyword' ++ '(' :: (body' ++ [')'])) :
    keyword = keyword' ∧ body = body' := by
  have hsplit := Text.splitOnce_append h (body ++ [')'])
  rw [heq, Text.splitOnce_append h', Option.some.injEq, Prod.mk.injEq] at hsplit
  exact ⟨hsplit.1.symm, (append_cancel_right hsplit.2).symm⟩

theorem wellEnclosed_renderedParts (rings : List (List (F × F))) :
    WellEnclosed (renderedParts rings) [] := by
  have hclose (ring : List (F × F)) : ')' ∉ points ring := by
    by_cases hne : ring = []
    · subst hne
      exact not_mem_nil
    · exact not_mem_of_isPointsText (by decide) (by decide) (by decide) (isPointsText_points hne)
  cases rings with
  | nil => exact ⟨fun _ hmem => absurd hmem not_mem_nil, not_mem_nil⟩
  | cons ring rings =>
    refine ⟨forall_mem_cons.2 ⟨⟨not_mem_nil, hclose ring⟩, ?_⟩, not_mem_nil⟩
    rw [forall_mem_map]
    exact fun ring _ => ⟨(by decide : '(' ∉ [',', ' ']), hclose ring⟩

/-- Only a geometry that has a text is read back. -/
theorem hasText_of_fromWkt {geometry geometry' : Geometry F}
    (h : fromWkt geometry.toWkt = .ok geometry') : geometry.HasText := by
  obtain ⟨keyword, body, htext, hkeyword, hprefix, hreads⟩ := fromWkt_eq_ok.1 h
  cases geometry with
  | point x y => trivial
  | lineString ring =>
    rintro rfl
    have hsame : "LINESTRING ".toList ++ '(' :: ([] ++ [')']) = keyword ++ '(' :: (body ++ [')']) :=
      (unwrap_eq_self (c := 'L') (by decide) "INESTRING (".toList).symm.trans htext
    obtain ⟨-, rfl⟩ := body_unique (by decide) hkeyword hsame
    exact not_readsBody_nil _ _ hreads
  | polygon rings =>
    have hsame : "POLYGON ".toList ++ '(' :: (enclosed (renderedParts rings) [] ++ [')']) =
        keyword ++ '(' :: (body ++ [')']) := by
      rw [← enclosed_renderedParts]
      exact (unwrap_eq_self (c := 'P') (by decide) ("OLYGON (".toList ++ _)).symm.trans htext
    obtain ⟨rfl, rfl⟩ := body_unique (by decide) hkeyword hsame
    have hpolygon : Shape.polygon.keyword <+: Text.toUpper "POLYGON ".toList := ⟨[' '], rfl⟩
    have hshape := keyword_unique hprefix hpolygon
    cases geometry' with
    | point x y => cases hshape
    | lineString points => cases hshape
    | polygon rings' =>
      obtain ⟨hne, hrings⟩ := hreads
      rw [parseRings_enclosed _ (wellEnclosed_renderedParts rings), mapM_eq_ok_iff] at hrings
      have hread : List.Forall₂ (fun text points' => parsePoints text = .ok points')
          ((renderedParts rings).map Prod.snd) rings' := forall₂_map_left_iff.2 hrings
      rw [map_snd_renderedParts, forall₂_map_left_iff] at hread
      refine ⟨?_, fun hmem => ?_⟩
      · rintro rfl
        cases hread
        exact hne rfl
      · obtain ⟨points', hpoints⟩ := exists_left_of_mem hread.flip [] hmem
        cases hpoints

/-! ### There and back -/

/-- A buffer that is read as a geometry comes back from text as the same geometry, and there are no
bytes left over in it, exactly when it is the well-known binary of a geometry that has a text. -/
theorem roundTrip_iff (bytes : Bytes) :
    ((∀ geometry : Geometry F, fromWkb bytes = .ok geometry →
        ∃ bytes', (fromWkt geometry.toWkt >>= toWkb (F := F)) = .ok bytes' ∧
          IsWkb bytes' geometry) ∧
      ∀ (encoded trailing : Bytes) (geometry : Geometry F), fromWkb bytes = .ok geometry →
        bytes = encoded ++ trailing → IsWkb encoded geometry → trailing = []) ↔
    ∀ (encoded trailing : Bytes) (geometry : Geometry F), bytes = encoded ++ trailing →
      IsWkb encoded geometry → trailing = [] ∧ geometry.HasText := by
  constructor
  · rintro ⟨hback, hall⟩ encoded trailing geometry hbytes hwkb
    have hread := fromWkb_eq_ok.2 ⟨encoded, trailing, hbytes, hwkb⟩
    obtain ⟨bytes', hbytes', -⟩ := hback geometry hread
    obtain ⟨geometry', hparse, -⟩ := bind_eq_ok.1 hbytes'
    exact ⟨hall encoded trailing geometry hread hbytes hwkb, hasText_of_fromWkt hparse⟩
  · intro h
    refine ⟨fun geometry hread => ?_, fun encoded trailing geometry _ hbytes hwkb =>
      (h encoded trailing geometry hbytes hwkb).1⟩
    obtain ⟨encoded, trailing, hbytes, hwkb⟩ := fromWkb_eq_ok.1 hread
    obtain ⟨-, htext⟩ := h encoded trailing geometry hbytes hwkb
    obtain ⟨bytes', hbytes'⟩ := exists_toWkb hwkb.countable
    exact ⟨bytes', bind_eq_ok.2 ⟨geometry, fromWkt_of_isWkt (isWkt_toWkt htext), hbytes'⟩,
      isWkb_of_toWkb hbytes'⟩

end RoundTrip

/-! ### Two doubles -/

/-- 10 and 30, which are enough for some geometries. -/
inductive Sample
  | ten
  | thirty
  deriving DecidableEq

instance : F64 Sample where
  fromBeBytes bytes := if bytes = [0x40, 0x3E, 0, 0, 0, 0, 0, 0] then .thirty else .ten
  toBeBytes
    | .ten => [0x40, 0x24, 0, 0, 0, 0, 0, 0]
    | .thirty => [0x40, 0x3E, 0, 0, 0, 0, 0, 0]
  display
    | .ten => ['1', '0']
    | .thirty => ['3', '0']
  parse text :=
    if text = ['1', '0'] then some .ten else if text = ['3', '0'] then some .thirty else none

instance : LawfulF64 Sample where
  length_toBeBytes x := by cases x <;> rfl
  fromBeBytes_toBeBytes x := by cases x <;> decide
  parse_display x := by cases x <;> decide
  parse_accepts := by
    intro s x h
    simp only [F64.parse] at h
    split_ifs at h with hten hthirty
    · subst hten
      decide
    · subst hthirty
      decide

/-- The point 30 10, least significant bytes first. -/
def pointBytes : Bytes :=
  [1, 1, 0, 0, 0, 0, 0, 0, 0, 0, 0, 0x3E, 0x40, 0, 0, 0, 0, 0, 0, 0x24, 0x40]

theorem fromWkb_pointBytes :
    fromWkb pointBytes = .ok (point Sample.thirty Sample.ten) := by decide

/-- The point 30 10 comes back from text. -/
theorem roundTrip_point :
    ∃ bytes', (fromWkt (point Sample.thirty Sample.ten).toWkt >>= toWkb (F := Sample)) =
      .ok bytes' ∧ IsWkb bytes' (point Sample.thirty Sample.ten) := by
  refine ((roundTrip_iff pointBytes).2 ?_).1 _ fromWkb_pointBytes
  intro encoded trailing geometry hbytes hwkb
  have hread := fromWkb_eq_ok.2 ⟨encoded, trailing, hbytes, hwkb⟩
  rw [fromWkb_pointBytes, Except.ok.injEq] at hread
  subst hread
  refine ⟨?_, trivial⟩
  obtain ⟨flag, kind, body, rfl, ⟨hkind, -⟩, x, y, rfl, ⟨hx, -⟩, hy, -⟩ := hwkb
  have hlength := congrArg List.length hbytes
  simp only [length_cons, length_append, hkind, hx, hy] at hlength
  have hpoint : pointBytes.length = 21 := rfl
  exact eq_nil_of_length_eq_zero (by omega)

/-- A byte behind a point is accepted, and an empty line string does not come back. -/
theorem not_roundTrip :
    (fromWkb (pointBytes ++ [0]) = .ok (point Sample.thirty Sample.ten) ∧
      IsWkb pointBytes (point Sample.thirty Sample.ten)) ∧
    fromWkb [1, 2, 0, 0, 0, 0, 0, 0, 0] = .ok (lineString ([] : List (Sample × Sample))) ∧
    ∀ bytes', (fromWkt (lineString ([] : List (Sample × Sample))).toWkt >>= toWkb (F := Sample)) ≠
      .ok bytes' := by
  refine ⟨⟨by decide, ?_⟩, by decide, fun bytes' h => ?_⟩
  · exact ⟨1, [1, 0, 0, 0], pointBytes.drop 5, rfl, ⟨rfl, rfl⟩, [0, 0, 0, 0, 0, 0, 0x3E, 0x40],
      [0, 0, 0, 0, 0, 0, 0x24, 0x40], rfl, ⟨rfl, by decide⟩, rfl, by decide⟩
  · obtain ⟨geometry, hgeometry, -⟩ := bind_eq_ok.1 h
    exact hasText_of_fromWkt hgeometry rfl

/-! ### One converter for three shapes -/


/-- The converter from text to a column of a shape. -/
def textTo (F : Type) [F64 F] : Shape → Converter
  | .point => Builtin.textToPoint F
  | .lineString => Builtin.textToLineString F
  | .polygon => Builtin.textToPolygon F

/-- Every list of points is made of pairs of words: of one for a point, and for a polygon there are
commas, and nothing else, between the lists. -/
def ProperBody : Shape → List Char → Prop
  | .point, body => ',' ∉ body ∧ (Text.words body).length = 2
  | .lineString, body => ∀ piece ∈ Text.splitOn ',' body, (Text.words piece).length = 2
  | .polygon, body => ∃ parts last, body = enclosed parts last ∧ WellEnclosed parts last ∧
      Separated parts last ∧
      ∀ part ∈ parts, ∀ piece ∈ Text.splitOn ',' part.2, (Text.words piece).length = 2

/-- The text is the keyword of the shape and a proper text in parentheses. -/
def Proper (shape : Shape) (text : List Char) : Prop :=
  ∃ keyword space body, unwrap text = keyword ++ (space ++ '(' :: (body ++ [')'])) ∧
    Text.toUpper keyword = shape.keyword ∧ Blank space ∧ ProperBody shape body

section Converted

variable {F : Type} [F64 F] [LawfulF64 F]

theorem properBody_of_isBodyText {geometry : Geometry F} {body : List Char}
    (h : IsBodyText geometry body) : ProperBody geometry.shape body := by
  cases geometry with
  | point x y =>
    obtain ⟨a, b, hwords, -⟩ := words_of_isPairText h
    exact ⟨not_mem_of_isPairText (by decide) (by decide) h, by rw [hwords]; rfl⟩
  | lineString points => exact length_words_of_isPointsText h
  | polygon rings =>
    obtain ⟨parts, last, rfl, hseparated, hrings⟩ := h
    have hring : ∀ part ∈ parts, ∃ ring, IsPointsText ring part.2 := exists_left_of_mem hrings
    refine ⟨parts, last, rfl, wellEnclosed_of_separated hseparated fun part hpart => ?_, hseparated,
      fun part hpart => ?_⟩
    · obtain ⟨ring, hring⟩ := hring part hpart
      exact not_mem_of_isPointsText (by decide) (by decide) (by decide) hring
    · obtain ⟨ring, hring⟩ := hring part hpart
      exact length_words_of_isPointsText hring

omit [LawfulF64 F] in
theorem isBodyText_of_properBody {text body : List Char} {geometry : Geometry F}
    (hreads : ReadsBody text body geometry) (h : ProperBody geometry.shape body) :
    IsBodyText geometry body := by
  cases geometry with
  | point x y =>
    obtain ⟨others, hpoints⟩ := hreads
    rw [parsePoints, Text.splitOn_of_not_mem h.1, mapM_eq_ok_iff, forall₂_cons] at hpoints
    exact isPairText_of_parsePair hpoints.1 h.2
  | lineString points => exact isPointsText_of_parsePoints hreads h
  | polygon rings =>
    obtain ⟨parts, last, rfl, henclosed, hseparated, hwords⟩ := h
    have hrings := hreads.2
    rw [parseRings_enclosed text henclosed, mapM_eq_ok_iff] at hrings
    refine ⟨parts, last, rfl, hseparated, ?_⟩
    exact (((forall₂_and_left _ _).2 ⟨hwords, hrings⟩).imp fun part ring hboth =>
      isPointsText_of_parsePoints hboth.2 hboth.1).flip

/-- A text that is read denotes what it is read as when it is a proper one. -/
theorem isWkt_iff {text : List Char} {geometry : Geometry F} (h : fromWkt text = .ok geometry)
    (shape : Shape) : (geometry.shape = shape ∧ IsWkt text geometry) ↔ Proper shape text := by
  constructor
  · rintro ⟨rfl, keyword, space, body, htext, hkeyword, hspace, hbody⟩
    exact ⟨keyword, space, body, htext, hkeyword, hspace, properBody_of_isBodyText hbody⟩
  · rintro ⟨keyword, space, body, htext, hkeyword, hspace, hbody⟩
    obtain ⟨keyword', body', htext', hkeyword', hprefix, hreads⟩ := fromWkt_eq_ok.1 h
    have hnot : '(' ∉ keyword ++ space := by
      rw [mem_append, not_or]
      exact ⟨not_mem_of_toUpper hkeyword, not_mem_of_blank hspace⟩
    rw [← append_assoc] at htext
    obtain ⟨rfl, rfl⟩ := body_unique hnot hkeyword' (htext.symm.trans htext')
    have hshape : shape.keyword <+: Text.toUpper (keyword ++ space) := by
      rw [Text.toUpper, map_append, ← hkeyword]
      exact prefix_append _ _
    obtain rfl := keyword_unique hprefix hshape
    rw [append_assoc] at htext
    exact ⟨rfl, keyword, space, body, htext, hkeyword, hspace, isBodyText_of_properBody hreads hbody⟩

omit [F64 F] [LawfulF64 F] in
theorem readText_toUTF8 (text : String) : Builtin.readText text.toUTF8.data.toList = .ok text := by
  have hbytes : (⟨text.toUTF8.data.toList.toArray⟩ : ByteArray) = text.toUTF8 := by
    rw [Array.toArray_toList]
  have hvalid : text.toUTF8.IsValidUTF8 := text.isValidUTF8
  rw [Builtin.readText, hbytes, String.fromUTF8?, dif_pos hvalid]
  rfl

/-- A text that is converted for a column of a shape denotes a geometry of that shape, and the bytes
are those of this geometry, exactly when it is a proper text of the shape. -/
theorem converted_iff (shape : Shape) (text : String) (bytes : Bytes)
    (h : textTo F shape (some text.toUTF8.data.toList) = .ok (some bytes)) :
    (∃ geometry : Geometry F, geometry.shape = shape ∧ IsWkt text.toList geometry ∧
      IsWkb bytes geometry) ↔ Proper shape text.toList := by
  have hconvert : Builtin.wktToWkb F text.toUTF8.data.toList = .ok bytes := by
    cases shape
    all_goals
      obtain ⟨bytes', hbytes', heq⟩ := map_eq_ok.1 h
      rwa [Option.some.inj heq] at hbytes'
  obtain ⟨read, hread, hparse⟩ := bind_eq_ok.1 hconvert
  rw [readText_toUTF8, Except.ok.injEq] at hread
  subst hread
  obtain ⟨geometry, hgeometry, hbytes⟩ := bind_eq_ok.1 hparse
  rw [← isWkt_iff hgeometry]
  constructor
  · rintro ⟨geometry', hshape, hwkt, -⟩
    have hsame := (fromWkt_of_isWkt hwkt).symm.trans hgeometry
    rw [Except.ok.injEq] at hsame
    subst hsame
    exact ⟨hshape, hwkt⟩
  · rintro ⟨hshape, hwkt⟩
    exact ⟨geometry, hshape, hwkt, isWkb_of_toWkb hbytes⟩

end Converted

/-- The text of a point is converted to the bytes of the point. -/
theorem converted_point :
    ∃ geometry : Geometry Sample, geometry.shape = .point ∧
      IsWkt "POINT (30 10)".toList geometry ∧ IsWkb pointBytes geometry := by
  refine (converted_iff .point "POINT (30 10)" pointBytes (by decide)).2 ?_
  exact ⟨"POINT".toList, [' '], "30 10".toList, by decide, rfl, blank_space, by decide, by decide⟩

/-- A line string is converted for a point, and of two points the first is. -/
theorem not_converted :
    (∃ bytes, textTo Sample .point (some "LINESTRING (30 10, 10 30)".toUTF8.data.toList) =
        .ok (some bytes)) ∧
    (¬∃ geometry : Geometry Sample, geometry.shape = .point ∧
      IsWkt "LINESTRING (30 10, 10 30)".toList geometry) ∧
    textTo Sample .point (some "POINT (30 10, 10 30)".toUTF8.data.toList) =
      .ok (some pointBytes) ∧
    ¬∃ geometry : Geometry Sample, geometry.shape = .point ∧
      IsWkt "POINT (30 10, 10 30)".toList geometry := by
  refine ⟨⟨_, rfl⟩, ?_, by decide, ?_⟩
  · rintro ⟨geometry, hshape, hwkt⟩
    have hread : fromWkt "LINESTRING (30 10, 10 30)".toList =
        .ok (lineString [(Sample.thirty, Sample.ten), (Sample.ten, Sample.thirty)]) := by decide
    rw [fromWkt_of_isWkt hwkt, Except.ok.injEq] at hread
    subst hread
    cases hshape
  · rintro ⟨geometry, hshape, keyword, space, body, htext, hkeyword, hspace, hbody⟩
    cases geometry with
    | point x y =>
      have hnot : '(' ∉ keyword ++ space := by
        rw [mem_append, not_or]
        exact ⟨not_mem_of_toUpper hkeyword, not_mem_of_blank hspace⟩
      have hsame : "POINT ".toList ++ '(' :: ("30 10, 10 30".toList ++ [')']) =
          (keyword ++ space) ++ '(' :: (body ++ [')']) := by
        rw [append_assoc, ← htext]
        decide
      obtain ⟨-, rfl⟩ := body_unique (by decide) hnot hsame
      exact not_mem_of_isPairText (c := ',') (by decide) (by decide) hbody (by decide)
    | lineString points => cases hshape
    | polygon rings => cases hshape

end Geometry

end Cdm
