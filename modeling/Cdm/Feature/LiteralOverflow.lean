import Cdm.Feature.LiteralGrammar

/-!
# Where the parser of literals overflows

Parsing a literal ends with a cell or an error, but for one sum: an integer is a date, and the bias
is added to it in an `i64`.
-/

namespace Cdm

namespace Literal

open Fallible

/-- The first element that is not passed is a bad one. -/
def Reaches {α : Type} (passed bad : α → Prop) : List α → Prop
  | [] => False
  | x :: xs => bad x ∨ passed x ∧ Reaches passed bad xs

/-- The text denotes a cell that can be framed. -/
def Fits (R : List Char → RawCell → Prop) (piece : List Char) : Prop :=
  ∃ cell bytes, R piece cell ∧ Wire.writeElement cell = .ok bytes

/-- The same for components of a type each. -/
def ReachesEach : List ((List Char → Prop) × (List Char → Prop)) → List (List Char) → Prop
  | (passed, bad) :: tests, piece :: pieces =>
    bad piece ∨ passed piece ∧ ReachesEach tests pieces
  | _, _ => False

theorem reaches_congr {α : Type} {passed passed' bad bad' : α → Prop} {xs : List α}
    (h : ∀ x ∈ xs, (passed x ↔ passed' x) ∧ (bad x ↔ bad' x)) :
    Reaches passed bad xs ↔ Reaches passed' bad' xs := by
  induction xs with
  | nil => rfl
  | cons x xs ih =>
    rw [List.forall_mem_cons] at h
    rw [Reaches, Reaches, h.1.1, h.1.2, ih h.2]

variable [LiteralParsers]

/-- The days of a date are so many that adding the bias overflows. -/
def DateOverflows (value : String) : Prop :=
  ∃ days, parseDays value = .ok days ∧ ¬(-2 ^ 63 ≤ days + 2 ^ 31 ∧ days + 2 ^ 31 < 2 ^ 63)

mutual

/-- Reading a text from the left, the parser meets a date that is too large before it meets an
error. -/
def Overflows : CqlTypeInfo → List Char → Prop
  | .list element _, text => ¬IsNull text ∧ ∃ inner, text = '[' :: (inner ++ [']']) ∧
      (filled (splitTopLevel inner ',')).length < 2 ^ 31 ∧
      Reaches (Fits (Accepts element)) (Overflows element) (filled (splitTopLevel inner ','))
  | .set element _, text => ¬IsNull text ∧ ∃ inner, text = '\x7b' :: (inner ++ ['\x7d']) ∧
      (filled (splitTopLevel inner ',')).length < 2 ^ 31 ∧
      Reaches (Fits (Accepts element)) (Overflows element) (filled (splitTopLevel inner ','))
  | .map key value _, text => ¬IsNull text ∧ ∃ inner, text = '\x7b' :: (inner ++ ['\x7d']) ∧
      (splitTopLevel inner ',').length < 2 ^ 31 ∧
      Reaches
        (fun piece => ∃ k v, splitTopLevel piece ':' = [k, v] ∧ Fits (Accepts key) k ∧
          Fits (Accepts value) v)
        (fun piece => ∃ k v, splitTopLevel piece ':' = [k, v] ∧
          (Overflows key k ∨ Fits (Accepts key) k ∧ Overflows value v))
        (splitTopLevel inner ',')
  | .tuple types, text => ¬IsNull text ∧ ∃ inner, text = '(' :: (inner ++ [')']) ∧
      (splitTopLevel inner ',').length = types.length ∧
      ReachesEach (testsOf types) (splitTopLevel inner ',')
  | .primitive kind, text => ¬IsNull text ∧ kind = .date ∧
      DateOverflows (String.ofList ((unquote text).getD text))
  | .udt _ _ _ _, _ | .vector _ _, _ | .custom _, _ => False

/-- The texts of a component that are passed, and those that overflow. -/
def testsOf : List CqlTypeInfo → List ((List Char → Prop) × (List Char → Prop))
  | [] => []
  | t :: types => (Fits (Accepts t), Overflows t) :: testsOf types

end

/-! ### Scalars -/

omit [LiteralParsers] in
theorem halt_mapError_eq_overflow {ε ε' α : Type} {x : Except (Halt ε) α} {f : ε → ε'} :
    x.mapError (Halt.map f) = .error .overflow ↔ x = .error .overflow := by
  cases x with
  | ok a => simp [Except.mapError]
  | error e => cases e <;> simp [Except.mapError, Halt.map]

omit [LiteralParsers] in
/-- Steps that fail with an error do not overflow. -/
theorem mapError_ne_overflow {ε ε' α : Type} (x : Except ε α) {f : ε → Halt ε'}
    (hf : ∀ e, f e ≠ .overflow) : x.mapError f ≠ .error .overflow := by
  cases x with
  | ok a => simp [Except.mapError]
  | error e => simpa [Except.mapError] using hf e

theorem parseDateChecked_eq_overflow {value : String} :
    parseDateChecked value = .error .overflow ↔ DateOverflows value := by
  have hread : (parseDays value).mapError Halt.error ≠ .error .overflow :=
    mapError_ne_overflow _ fun _ => nofun
  rw [parseDateChecked, bind_eq_error, or_iff_right hread]
  simp only [mapError_eq_ok]
  constructor
  · rintro ⟨days, hdays, h⟩
    refine ⟨days, hdays, fun hfits => ?_⟩
    rw [addI64, if_pos hfits, ok_bind] at h
    split_ifs at h
    cases h
  · rintro ⟨days, hdays, hnot⟩
    refine ⟨days, hdays, ?_⟩
    rw [addI64, if_neg hnot]
    rfl

theorem encodeScalarChecked_eq_overflow {value literal : String} {t : CqlTypeInfo} :
    encodeScalarChecked value t literal = .error .overflow ↔
      t = .primitive .date ∧ DateOverflows value := by
  cases t with
  | primitive kind =>
    by_cases hdate : kind = .date
    · subst hdate
      rw [encodeScalarChecked, and_iff_right rfl, ← parseDateChecked_eq_overflow]
      simp only [encodePrimitiveChecked, if_true]
      rw [map_eq_error, halt_mapError_eq_overflow, map_eq_error]
    · have hne : ¬(CqlTypeInfo.primitive kind = .primitive .date ∧ DateOverflows value) := by
        rintro ⟨heq, -⟩
        exact hdate (CqlTypeInfo.primitive.inj heq)
      rw [encodeScalarChecked, iff_false_right hne]
      simp only [encodePrimitiveChecked, if_neg hdate]
      cases encodePrimitive value kind with
      | none => simp
      | some result =>
        simp only [Option.map_some]
        rw [map_eq_error, halt_mapError_eq_overflow]
        exact mapError_ne_overflow result (by rintro _ ⟨⟩)
  | list _ _ | set _ _ | map _ _ _ | tuple _ | udt _ _ _ _ | vector _ _ | custom _ =>
    simp [encodeScalarChecked]

theorem parseScalar_eq_overflow {literal text : List Char} {t : CqlTypeInfo} :
    parseScalar t literal text = .error .overflow ↔
      t = .primitive .date ∧ DateOverflows (String.ofList ((unquote text).getD text)) := by
  rw [parseScalar]
  split_ifs with hquoted
  · have hne : t ≠ .primitive .date := by
      rcases hquoted with rfl | rfl | rfl <;> simp
    rw [iff_false_right fun h => hne h.1]
    cases unquote text with
    | none => simp
    | some value =>
      rw [encodeScalarChecked_eq_overflow]
      exact fun h => hne h.1
  · rw [encodeScalarChecked_eq_overflow]

/-! ### Collections -/

omit [LiteralParsers] in
theorem orNull_eq_overflow {literal : List Char} {parse : List Char → Parsed} :
    orNull literal parse = .error .overflow ↔
      ¬IsNull (Text.trim literal) ∧ parse (Text.trim literal) = .error .overflow := by
  rw [orNull]
  split_ifs with hnull <;> simp [hnull]

omit [LiteralParsers] in
theorem bracketed_ne_overflow (opening closing : Char) (t : CqlTypeInfo)
    (literal text : List Char) : bracketed opening closing t literal text ≠ .error .overflow := by
  rw [bracketed]
  cases Text.stripPrefix [opening] text with
  | none => simp
  | some rest =>
    simp only
    split_ifs <;> simp

omit [LiteralParsers] in
theorem writeCount_ne_overflow (count : ℕ) (t : CqlTypeInfo) (literal : List Char) :
    writeCount count t literal ≠ .error .overflow := by
  rw [writeCount]
  split_ifs <;> simp

omit [LiteralParsers] in
theorem parseElement_eq_overflow {parse : List Char → Parsed} {element : List Char} :
    parseElement parse element = .error .overflow ↔ parse element = .error .overflow := by
  rw [parseElement, bind_eq_error, or_iff_left]
  rintro ⟨cell, -, h⟩
  refine absurd h (mapError_ne_overflow _ ?_)
  rintro _ ⟨⟩

omit [LiteralParsers] in
theorem exists_parseElement_eq_ok {parse : List Char → Parsed} {element : List Char} :
    (∃ bytes, parseElement parse element = .ok bytes) ↔
      Fits (fun piece cell => parse piece = .ok cell) element := by
  simp only [parseElement_eq_ok]
  exact exists_comm

omit [LiteralParsers] in
/-- Two pieces are put together unless one of them overflows. -/
theorem append_eq_overflow {first rest : Except (Halt CdmError) Bytes} :
    (first >>= fun a => rest >>= fun b => .ok (a ++ b)) = .error .overflow ↔
      first = .error .overflow ∨ (∃ a, first = .ok a) ∧ rest = .error .overflow := by
  simp [bind_eq_error]

omit [LiteralParsers] in
theorem parseElements_eq_overflow {parse : List Char → Parsed} {pieces : List (List Char)} :
    parseElements parse pieces = .error .overflow ↔
      Reaches (Fits fun piece cell => parse piece = .ok cell)
        (fun piece => parse piece = .error .overflow) pieces := by
  induction pieces with
  | nil => simp [parseElements, Reaches]
  | cons piece pieces ih =>
    rw [Reaches, ← ih, ← exists_parseElement_eq_ok, ← parseElement_eq_overflow]
    exact append_eq_overflow

omit [LiteralParsers] in
theorem parseEntries_eq_overflow {parseKey parseValue : List Char → Parsed} {t : CqlTypeInfo}
    {literal : List Char} {pieces : List (List Char)} :
    parseEntries parseKey parseValue t literal pieces = .error .overflow ↔
      Reaches
        (fun piece => ∃ k v, splitTopLevel piece ':' = [k, v] ∧
          Fits (fun piece cell => parseKey piece = .ok cell) k ∧
          Fits (fun piece cell => parseValue piece = .ok cell) v)
        (fun piece => ∃ k v, splitTopLevel piece ':' = [k, v] ∧
          (parseKey k = .error .overflow ∨ Fits (fun piece cell => parseKey piece = .ok cell) k ∧
            parseValue v = .error .overflow)) pieces := by
  induction pieces with
  | nil => simp [parseEntries, Reaches]
  | cons piece pieces ih =>
    rw [parseEntries, Reaches, ← ih]
    split
    · rename_i key value hsplit
      simp only [hsplit, List.cons.injEq, and_true]
      rw [bind_eq_error, parseElement_eq_overflow]
      simp only [← exists_parseElement_eq_ok, bind_eq_error, parseElement_eq_overflow]
      constructor
      · rintro (h | ⟨first, hfirst, h | ⟨second, hsecond, h | ⟨rest, -, h⟩⟩⟩)
        · exact .inl ⟨key, value, ⟨rfl, rfl⟩, .inl h⟩
        · exact .inl ⟨key, value, ⟨rfl, rfl⟩, .inr ⟨⟨first, hfirst⟩, h⟩⟩
        · exact .inr ⟨⟨key, value, ⟨rfl, rfl⟩, ⟨first, hfirst⟩, second, hsecond⟩, h⟩
        · cases h
      · rintro (⟨k, v, ⟨rfl, rfl⟩, h | ⟨⟨first, hfirst⟩, h⟩⟩ |
          ⟨⟨k, v, ⟨rfl, rfl⟩, ⟨first, hfirst⟩, second, hsecond⟩, h⟩)
        · exact .inl h
        · exact .inr ⟨first, hfirst, .inl h⟩
        · exact .inr ⟨first, hfirst, .inr ⟨second, hsecond, .inl h⟩⟩
    · rename_i hnot
      simp only [reduceCtorEq, Except.error.injEq, false_iff, not_or, not_and]
      constructor
      · rintro ⟨k, v, hsplit, -⟩
        exact hnot k v hsplit
      · rintro ⟨k, v, hsplit, -⟩
        exact absurd hsplit (hnot k v)

/-- An element that is parsed is one that is accepted. -/
theorem fits_parseLiteral {t : CqlTypeInfo} {piece : List Char} (h : Text.trim piece = piece) :
    Fits (fun piece cell => parseLiteral t piece = .ok cell) piece ↔ Fits (Accepts t) piece := by
  simp only [Fits, parseLiteral_eq_ok t, h]

omit [LiteralParsers] in
theorem trim_of_mem_splitTopLevel {text piece : List Char} {separator : Char}
    (h : piece ∈ splitTopLevel text separator) : Text.trim piece = piece := by
  obtain ⟨raw, -, rfl⟩ := List.mem_map.1 h
  exact Text.trim_trim raw

/-- A list or a set overflows in one of its elements. -/
theorem parseSequence_eq_overflow {element t : CqlTypeInfo} {opening closing : Char}
    {literal text : List Char} (h : ∀ literal, parseLiteral element literal = .error .overflow ↔
      Overflows element (Text.trim literal)) :
    parseSequence (parseLiteral element) opening closing t literal text = .error .overflow ↔
      ∃ inner, text = opening :: (inner ++ [closing]) ∧
        (filled (splitTopLevel inner ',')).length < 2 ^ 31 ∧
        Reaches (Fits (Accepts element)) (Overflows element) (filled (splitTopLevel inner ',')) := by
  have hpieces (inner : List Char) :
      parseElements (parseLiteral element) (filled (splitTopLevel inner ',')) =
        .error .overflow ↔
      Reaches (Fits (Accepts element)) (Overflows element) (filled (splitTopLevel inner ',')) := by
    rw [parseElements_eq_overflow]
    refine reaches_congr fun piece hpiece => ?_
    have htrim := trim_of_mem_splitTopLevel (List.mem_filter.1 hpiece).1
    exact ⟨fits_parseLiteral htrim, by rw [h, htrim]⟩
  rw [parseSequence, bind_eq_error, or_iff_right (bracketed_ne_overflow _ _ _ _ _)]
  refine exists_congr fun inner => ?_
  rw [bracketed_eq_ok]
  refine and_congr_right fun _ => ?_
  rw [bind_eq_error, or_iff_right (writeCount_ne_overflow _ _ _), ← hpieces]
  simp only [writeCount_eq_ok, bind_eq_error]
  constructor
  · rintro ⟨count, ⟨hlength, -⟩, hout | ⟨out, -, hout⟩⟩
    · exact ⟨hlength, hout⟩
    · cases hout
  · rintro ⟨hlength, hout⟩
    exact ⟨_, ⟨hlength, rfl⟩, .inl hout⟩

/-! ### Literals -/

mutual

/-- The parser overflows where it meets a date that is too large before it meets an error. -/
theorem parseLiteral_eq_overflow {literal : List Char} : (t : CqlTypeInfo) →
    (parseLiteral t literal = .error .overflow ↔ Overflows t (Text.trim literal))
  | .list element frozen => by
    rw [parseLiteral, Overflows, orNull_eq_overflow,
      parseSequence_eq_overflow fun _ => parseLiteral_eq_overflow element]
  | .set element frozen => by
    rw [parseLiteral, Overflows, orNull_eq_overflow,
      parseSequence_eq_overflow fun _ => parseLiteral_eq_overflow element]
  | .map key value frozen => by
    rw [parseLiteral, Overflows, orNull_eq_overflow]
    refine and_congr_right fun _ => ?_
    rw [bind_eq_error, or_iff_right (bracketed_ne_overflow _ _ _ _ _)]
    refine exists_congr fun inner => ?_
    rw [bracketed_eq_ok]
    refine and_congr_right fun _ => ?_
    have hpieces : parseEntries (parseLiteral key) (parseLiteral value) (.map key value frozen)
        literal (splitTopLevel inner ',') = .error .overflow ↔ _ := parseEntries_eq_overflow
    rw [bind_eq_error, or_iff_right (writeCount_ne_overflow _ _ _)]
    simp only [writeCount_eq_ok, bind_eq_error, hpieces]
    have hentries : ∀ piece ∈ splitTopLevel inner ',', ∀ k v, splitTopLevel piece ':' = [k, v] →
        Text.trim k = k ∧ Text.trim v = v := by
      intro piece _ k v hsplit
      constructor
      · exact trim_of_mem_splitTopLevel (hsplit ▸ List.mem_cons_self)
      · exact trim_of_mem_splitTopLevel (hsplit ▸ List.mem_cons_of_mem _ List.mem_cons_self)
    rw [reaches_congr fun piece hpiece => ?_]
    · constructor
      · rintro ⟨count, ⟨hlength, -⟩, hout | ⟨out, -, hout⟩⟩
        · exact ⟨hlength, hout⟩
        · cases hout
      · rintro ⟨hlength, hout⟩
        exact ⟨_, ⟨hlength, rfl⟩, .inl hout⟩
    · constructor
      · refine exists₂_congr fun k v => and_congr_right fun hsplit => ?_
        obtain ⟨hk, hv⟩ := hentries piece hpiece k v hsplit
        rw [fits_parseLiteral hk, fits_parseLiteral hv]
      · refine exists₂_congr fun k v => and_congr_right fun hsplit => ?_
        obtain ⟨hk, hv⟩ := hentries piece hpiece k v hsplit
        rw [fits_parseLiteral hk, parseLiteral_eq_overflow key, parseLiteral_eq_overflow value, hk,
          hv]
  | .tuple types => by
    rw [parseLiteral, Overflows, orNull_eq_overflow]
    refine and_congr_right fun _ => ?_
    rw [bind_eq_error, or_iff_right (bracketed_ne_overflow _ _ _ _ _)]
    refine exists_congr fun inner => ?_
    rw [bracketed_eq_ok]
    refine and_congr_right fun _ => ?_
    simp only
    split_ifs with hlength
    · rw [map_eq_error, and_iff_right hlength]
      exact parseComponents_eq_overflow types fun piece => trim_of_mem_splitTopLevel
    · simp [hlength]
  | .primitive kind => by
    rw [parseLiteral, Overflows, orNull_eq_overflow, parseScalar_eq_overflow,
      CqlTypeInfo.primitive.injEq]
  | .udt _ _ _ _ => by
    rw [parseLiteral, Overflows, orNull_eq_overflow, parseScalar_eq_overflow]
    simp
  | .vector _ _ => by
    rw [parseLiteral, Overflows, orNull_eq_overflow, parseScalar_eq_overflow]
    simp
  | .custom _ => by
    rw [parseLiteral, Overflows, orNull_eq_overflow, parseScalar_eq_overflow]
    simp

theorem parseComponents_eq_overflow : (types : List CqlTypeInfo) → {pieces : List (List Char)} →
    (∀ piece ∈ pieces, Text.trim piece = piece) →
    (parseComponents (parseLiterals types) pieces = .error .overflow ↔
      ReachesEach (testsOf types) pieces)
  | [], _, _ => by
    rw [parseLiterals, testsOf]
    simp [parseComponents, ReachesEach]
  | _ :: _, [], _ => by
    rw [parseLiterals, testsOf]
    simp [parseComponents, ReachesEach]
  | t :: types, piece :: pieces, htrim => by
    rw [List.forall_mem_cons] at htrim
    have hpiece : parseLiteral t piece = .error .overflow ↔ _ := parseLiteral_eq_overflow t
    rw [htrim.1, ← parseElement_eq_overflow] at hpiece
    rw [parseLiterals, testsOf, ReachesEach, ← parseComponents_eq_overflow types htrim.2,
      ← fits_parseLiteral htrim.1, ← exists_parseElement_eq_ok, ← hpiece]
    exact append_eq_overflow

end

end Literal

namespace JsonValue

/-- The scalar a JSON value is rendered as; none for an object or an array. -/
def scalarText : JsonValue → Option String
  | string text | number text => some text
  | bool flag => some (if flag then "true" else "false")
  | null | array _ | object _ => none

theorem encodeChecked_eq_overflow [LiteralParsers] [SerdeJson] {value : JsonValue}
    {t : CqlTypeInfo} : encodeChecked value t = .error .overflow ↔
      t = .primitive .date ∧ ∃ text, value.scalarText = some text ∧
        Literal.DateOverflows text := by
  have hcompound (value : JsonValue) : encodeCompoundChecked value t ≠ .error .overflow := by
    rw [encodeCompoundChecked]
    split_ifs with htext
    · rw [Ne, Literal.encodeScalarChecked_eq_overflow]
      rintro ⟨rfl, -⟩
      simp at htext
    · simp
  cases value with
  | null => simp [encodeChecked, scalarText]
  | string text =>
    rw [encodeChecked, Literal.encodeScalarChecked_eq_overflow]
    simp [scalarText]
  | number text =>
    rw [encodeChecked, Literal.encodeScalarChecked_eq_overflow]
    simp [scalarText]
  | bool flag =>
    rw [encodeChecked, Literal.encodeScalarChecked_eq_overflow]
    simp [scalarText]
  | array elements => simpa [encodeChecked, scalarText] using hcompound (array elements)
  | object fields => simpa [encodeChecked, scalarText] using hcompound (object fields)

end JsonValue

namespace Literal

variable [LiteralParsers] [SerdeJson]

omit [LiteralParsers] [SerdeJson] in
/-- What does not overflow ends with a cell or an error. -/
theorem ok_or_error_iff {x : Except (Halt CdmError) RawCell} :
    ((∃ cell, x = .ok cell) ∨ ∃ e, x = .error (.error e)) ↔ ¬x = .error .overflow := by
  cases x with
  | ok cell => simp
  | error e => cases e <;> simp

/-- Parsing a literal, and encoding a JSON value, end with a cell or an error exactly where no date
is met that is too large. -/
theorem parse_or_error_iff :
    (∀ (t : CqlTypeInfo) (literal : List Char),
      ((∃ cell, parseLiteral t literal = .ok cell) ∨
        ∃ e, parseLiteral t literal = .error (.error e)) ↔ ¬Overflows t (Text.trim literal)) ∧
    ∀ (t : CqlTypeInfo) (value : JsonValue),
      ((∃ cell, value.encodeChecked t = .ok cell) ∨
        ∃ e, value.encodeChecked t = .error (.error e)) ↔
      ¬(t = .primitive .date ∧ ∃ text, value.scalarText = some text ∧ DateOverflows text) := by
  refine ⟨fun t literal => ?_, fun t value => ?_⟩
  · rw [ok_or_error_iff, parseLiteral_eq_overflow]
  · rw [ok_or_error_iff, JsonValue.encodeChecked_eq_overflow]

omit [LiteralParsers] [SerdeJson] in
/-- The greatest `i64`, as a date. -/
theorem not_parse_or_error_greatest :
    ¬((∃ cell, @parseLiteral .rejecting (.primitive .date)
        (Nat.toDigits 10 9223372036854775807) = .ok cell) ∨
      ∃ e, @parseLiteral .rejecting (.primitive .date)
        (Nat.toDigits 10 9223372036854775807) = .error (.error e)) := by
  rw [ok_or_error_iff, not_not]
  decide

end Literal

end Cdm
