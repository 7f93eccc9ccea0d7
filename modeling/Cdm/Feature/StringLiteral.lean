import Cdm.Feature.ParseLiteral
import Cdm.Lib.Quoted

/-!
# Quoted literals

Every string can be written as a literal: quoting it and parsing the quoted text gives the string
back.  The other way round, a text column accepts every text that starts and ends with a quote,
whatever quotes it has in between; no other type does.
-/

namespace Cdm

open List

/-- What the parsers of numbers, addresses and dates accept has the property. -/
structure LiteralParsers.AcceptOnly [LiteralParsers] (p : List Char → Prop) : Prop where
  f32 : ∀ text value, f32 text = .ok value → p text.toList
  f64 : ∀ text value, f64 text = .ok value → p text.toList
  bigInt : ∀ text value, bigInt text = .ok value → p text.toList
  bigDecimal : ∀ text value, bigDecimal text = .ok value → p text.toList
  uuid : ∀ text value, uuid text = .ok value → p text.toList
  ipAddr : ∀ text value, ipAddr text = .ok value → p text.toList
  rfc3339 : ∀ text value, rfc3339 text = some value → p text.toList
  naiveDateTime : ∀ text value, ∀ pattern ∈ ["%Y-%m-%d %H:%M:%S%.f", "%Y-%m-%dT%H:%M:%S%.f",
    "%Y-%m-%d %H:%M", "%Y-%m-%dT%H:%M"], naiveDateTime text pattern = some value → p text.toList
  naiveDate : ∀ text value, naiveDate text = .ok value → p text.toList
  naiveTime : ∀ text value, ∀ pattern ∈ ["%H:%M:%S%.f", "%H:%M"],
    naiveTime text pattern = some value → p text.toList

namespace Literal

open Text
open Fallible

/-! ### Texts between quotes -/

theorem isQuoted_iff {text : List Char} :
    isQuoted text = true ↔ ∃ inside, text = singleQuote :: (inside ++ [singleQuote]) := by
  rw [isQuoted, Bool.and_eq_true, Bool.and_eq_true, decide_eq_true_eq]
  constructor
  · rintro ⟨⟨hlength, hprefix⟩, hsuffix⟩
    cases text with
    | nil => cases hprefix
    | cons c rest =>
      have hc : singleQuote = c := by
        by_contra hne
        simp [stripPrefix, hne] at hprefix
      subst hc
      rcases eq_nil_or_concat rest with rfl | ⟨inside, last, rfl⟩
      · exact absurd hlength (by decide)
      · rw [concat_eq_append, ← cons_append, endsWith, getLast?_concat,
          decide_eq_true_eq, Option.some.injEq] at hsuffix
        exact ⟨inside, by rw [hsuffix, concat_eq_append]⟩
  · rintro ⟨inside, rfl⟩
    refine ⟨⟨?_, by simp [stripPrefix]⟩, ?_⟩
    · have hquote : singleQuote.utf8Size = 1 := by decide
      simp only [utf8Len, map_cons, map_append, map_nil, sum_cons,
        sum_append, sum_nil, hquote]
      omega
    · rw [← cons_append]
      exact endsWith_append _ _

theorem unquote_eq (inside : List Char) :
    unquote (singleQuote :: (inside ++ [singleQuote])) =
      some (undoubled singleQuote inside) := by
  rw [unquote, if_pos (isQuoted_iff.2 ⟨inside, rfl⟩), tail_cons, dropLast_concat,
    replace_eq_undoubled]

theorem trim_quoted (inside : List Char) :
    trim (singleQuote :: (inside ++ [singleQuote])) =
      singleQuote :: (inside ++ [singleQuote]) := by
  refine trim_append (w := []) (by simp) ?_ ?_
  · rintro c ⟨⟩
    decide
  · rw [← cons_append, getLast?_concat]
    rintro c ⟨⟩
    decide

/-- A text between quotes is not the null literal. -/
theorem orNull_quoted {literal inside : List Char}
    (h : trim literal = singleQuote :: (inside ++ [singleQuote]))
    (parse : List Char → Parsed) :
    orNull literal parse = parse (singleQuote :: (inside ++ [singleQuote])) := by
  have hnull : ¬IsNull (singleQuote :: (inside ++ [singleQuote])) := by
    intro heq
    have hhead : singleQuote.toLower = 'n' := (List.cons.inj heq).1
    exact absurd hhead (by decide)
  rw [orNull, h, if_neg hnull]

/-! ### Accepted scalars -/

/-- A character of a number, a truth value or a blob. -/
def isNumeral (c : Char) : Bool := c.isAlphanum || c == '+' || c == '-'

theorem isNumeral_of_isDigit {c : Char} (h : c.isDigit = true) : isNumeral c = true := by
  rw [isNumeral, Char.isAlphanum, h, Bool.or_true, Bool.true_or, Bool.true_or]

theorem isNumeral_of_isAlpha {c : Char} (h : c.isAlpha = true) : isNumeral c = true := by
  rw [isNumeral, Char.isAlphanum, h, Bool.true_or, Bool.true_or, Bool.true_or]

theorem numeral_of_digits {s : List Char} (h : s.all Char.isDigit = true) :
    s.all isNumeral = true :=
  all_eq_true.2 fun c hc => isNumeral_of_isDigit (all_eq_true.1 h c hc)

theorem numeral_of_parseI64 {s : List Char} {value : ℤ} (h : parseI64 s = some value) :
    s.all isNumeral = true := by
  rw [parseI64] at h
  split at h
  · cases h
  · rename_i n hdigits
    have hrest : (splitSign s).2.all isNumeral = true := by
      rw [parseDigits] at hdigits
      split_ifs at hdigits with hdigit
      exact numeral_of_digits hdigit.2
    unfold splitSign at hrest
    split at hrest
    · rw [all_cons, hrest]
      rfl
    · rw [all_cons, hrest]
      rfl
    · exact hrest

theorem all_isDigit_of_parseIntDigits {low high value result : ℤ} {negative : Bool}
    {s : List Char} (h : parseIntDigits low high negative value s = .ok result) :
    s.all Char.isDigit = true := by
  induction s generalizing value with
  | nil => rfl
  | cons c s ih =>
    rw [parseIntDigits] at h
    split_ifs at h with hdigit
    · rw [all_cons, ih h, Bool.and_true]
      simpa using hdigit
    · rw [all_cons, ih h, Bool.and_true]
      simpa using hdigit

theorem numeral_of_parseInt {low high value : ℤ} {s : List Char}
    (h : parseInt low high s = .ok value) : s.all isNumeral = true := by
  unfold parseInt at h
  split at h
  · cases h
  · cases h
  · cases h
  · rw [all_cons, numeral_of_digits (all_isDigit_of_parseIntDigits h)]
    rfl
  · rw [all_cons, numeral_of_digits (all_isDigit_of_parseIntDigits h)]
    rfl
  · exact numeral_of_digits (all_isDigit_of_parseIntDigits h)

theorem isNumeral_of_hexValue {c : Char} {n : ℕ} (h : hexValue c = some n) :
    isNumeral c = true := by
  rw [hexValue] at h
  split_ifs at h with hdigit hlower hupper
  · exact isNumeral_of_isDigit hdigit
  · have hlo : 97 ≤ c.val.toNat := UInt32.le_iff_toNat_le.1 hlower.1
    have hhi : c.val.toNat ≤ 102 := UInt32.le_iff_toNat_le.1 hlower.2
    refine isNumeral_of_isAlpha ?_
    rw [isAlpha_eq]
    delta Char.isLower
    simp only [Bool.or_eq_true, Bool.and_eq_true, decide_eq_true_eq, ge_iff_le,
      UInt32.le_iff_toNat_le]
    exact .inr ⟨hlo, show c.val.toNat ≤ 122 by omega⟩
  · have hlo : 65 ≤ c.val.toNat := UInt32.le_iff_toNat_le.1 hupper.1
    have hhi : c.val.toNat ≤ 70 := UInt32.le_iff_toNat_le.1 hupper.2
    refine isNumeral_of_isAlpha ?_
    rw [isAlpha_eq]
    delta Char.isUpper
    simp only [Bool.or_eq_true, decide_eq_true_eq, ge_iff_le, UInt32.le_iff_toNat_le]
    exact .inl ⟨hlo, show c.val.toNat ≤ 90 by omega⟩

theorem isNumeral_of_hexPair {high low : Char} {byte : UInt8} (h : hexPair high low = .ok byte) :
    isNumeral high = true ∧ isNumeral low = true := by
  unfold hexPair at h
  simp only at h
  split at h
  · rename_i hhigh hlow
    refine ⟨?_, isNumeral_of_hexValue hlow⟩
    split_ifs at hhigh with hplus
    · rw [hplus]
      rfl
    · exact isNumeral_of_hexValue hhigh
  · cases h

theorem numeral_of_hexPairs {s : List Char} {bytes : Bytes} (h : hexPairs s = .ok bytes) :
    s.all isNumeral = true := by
  fun_induction hexPairs s generalizing bytes with
  | case1 => rfl
  | case2 => cases h
  | case3 high low rest ih =>
    obtain ⟨byte, hbyte, h⟩ := bind_eq_ok.1 h
    obtain ⟨others, hothers, -⟩ := bind_eq_ok.1 h
    obtain ⟨hhigh, hlow⟩ := isNumeral_of_hexPair hbyte
    rw [all_cons, all_cons, hhigh, hlow, ih hothers]
    rfl

theorem numeral_of_parseBlob {value : String} {bytes : Bytes} (h : parseBlob value = .ok bytes) :
    value.toList.all isNumeral = true := by
  rw [parseBlob] at h
  split_ifs at h
  have hhex := numeral_of_hexPairs h
  cases hlower : stripPrefix ['0', 'x'] value.toList with
  | some rest =>
    rw [hlower] at hhex
    rw [eq_append_of_stripPrefix hlower, all_append]
    exact hhex
  | none =>
    cases hupper : stripPrefix ['0', 'X'] value.toList with
    | some rest =>
      rw [hlower, hupper] at hhex
      rw [eq_append_of_stripPrefix hupper, all_append]
      exact hhex
    | none =>
      rw [hlower, hupper] at hhex
      exact hhex

theorem numeral_not_quote (s : List Char) (h : s.all isNumeral = true) : singleQuote ∉ s :=
  fun hmem => absurd (all_eq_true.1 h _ hmem) (by decide)

/-- A text that is a word in lower case is made of letters. -/
theorem numeral_of_toLower {s word : List Char} (h : toLower s = word)
    (hword : word.all Char.isAlpha = true) : s.all isNumeral = true := by
  have hall := isAlpha_of_toLower h (all_eq_true.1 hword)
  exact all_eq_true.2 fun c hc => isNumeral_of_isAlpha (hall c hc)

section Parsers

variable [LiteralParsers]

/-- The literal of a string is parsed to the string. -/
theorem parseLiteral_quoted (s : String) :
    parseLiteral (.primitive .text) (quoted singleQuote s.toList) =
      .ok (some s.toUTF8.data.toList) := by
  rw [parseLiteral, quoted, orNull_quoted (trim_quoted _), parseScalar, if_pos (.inl rfl),
    unquote_eq, undoubled_doubled]
  simp only [String.ofList_toList]
  rfl

/-! ### Accepted texts -/

section Scalars

variable {p : List Char → Prop} (hparsers : LiteralParsers.AcceptOnly p) {value : String}
  (hnumeral : ∀ s : List Char, s.all isNumeral = true → p s)

include hparsers hnumeral

theorem accepted_of_parseDays {days : ℤ} (h : parseDays value = .ok days) : p value.toList := by
  unfold parseDays at h
  split at h
  · exact hnumeral _ (numeral_of_parseI64 ‹_›)
  · exact hparsers.naiveDate _ _ h

theorem accepted_of_parseTimestamp {millis : ℤ} (h : parseTimestamp value = .ok millis) :
    p value.toList := by
  unfold parseTimestamp at h
  simp only at h
  split at h
  · exact hnumeral _ (numeral_of_parseI64 ‹_›)
  · split at h
    · exact hparsers.rfc3339 _ _ ‹_›
    · split at h
      · rename_i hfound
        obtain ⟨pattern, hmem, hpattern⟩ := exists_of_findSome?_eq_some hfound
        exact hparsers.naiveDateTime _ _ pattern hmem hpattern
      · split at h
        · exact hparsers.naiveDate _ _ ‹_›
        · cases h

theorem accepted_of_parseTime {nanos : ℤ} (h : parseTime value = .ok nanos) : p value.toList := by
  unfold parseTime at h
  split at h
  · exact hnumeral _ (numeral_of_parseI64 ‹_›)
  · split at h
    · rename_i hfound
      obtain ⟨pattern, hmem, hpattern⟩ := exists_of_findSome?_eq_some hfound
      exact hparsers.naiveTime _ _ pattern hmem hpattern
    · cases h

/-- What is accepted as a scalar has the property, but for a text. -/
theorem accepted_of_encodePrimitiveChecked {kind : Primitive} {bytes : Bytes}
    (h : encodePrimitiveChecked value kind = some (.ok bytes)) :
    p value.toList ∨ kind = .text ∨ kind = .ascii := by
  by_cases hdate : kind = .date
  · rw [encodePrimitiveChecked, if_pos hdate, Option.some.injEq, map_eq_ok] at h
    obtain ⟨days, hdays, -⟩ := h
    obtain ⟨read, hread, -⟩ := bind_eq_ok.1 hdays
    exact .inl (accepted_of_parseDays hparsers hnumeral (mapError_eq_ok.1 hread))
  · rw [encodePrimitiveChecked, if_neg hdate, Option.map_eq_some_iff] at h
    obtain ⟨result, hresult, h⟩ := h
    rw [mapError_eq_ok] at h
    subst h
    have hint (width : ℕ) (h : encodeInt width value = .ok bytes) : p value.toList := by
      obtain ⟨read, hread, -⟩ := map_eq_ok.1 h
      exact hnumeral _ (numeral_of_parseInt hread)
    cases kind with
    | text => exact .inr (.inl rfl)
    | ascii => exact .inr (.inr rfl)
    | tinyInt => exact .inl (hint 1 (Option.some.inj hresult))
    | smallInt => exact .inl (hint 2 (Option.some.inj hresult))
    | int => exact .inl (hint 4 (Option.some.inj hresult))
    | bigInt => exact .inl (hint 8 (Option.some.inj hresult))
    | counter => exact .inl (hint 8 (Option.some.inj hresult))
    | float => exact .inl (hparsers.f32 _ _ (Option.some.inj hresult))
    | double => exact .inl (hparsers.f64 _ _ (Option.some.inj hresult))
    | uuid => exact .inl (hparsers.uuid _ _ (Option.some.inj hresult))
    | timeUuid => exact .inl (hparsers.uuid _ _ (Option.some.inj hresult))
    | inet => exact .inl (hparsers.ipAddr _ _ (Option.some.inj hresult))
    | varInt =>
      obtain ⟨read, hread, -⟩ := map_eq_ok.1 (Option.some.inj hresult)
      exact .inl (hparsers.bigInt _ _ hread)
    | decimal =>
      obtain ⟨read, hread, -⟩ := bind_eq_ok.1 (Option.some.inj hresult)
      exact .inl (hparsers.bigDecimal _ _ hread)
    | blob => exact .inl (hnumeral _ (numeral_of_parseBlob (Option.some.inj hresult)))
    | timestamp =>
      obtain ⟨read, hread, -⟩ := map_eq_ok.1 (Option.some.inj hresult)
      exact .inl (accepted_of_parseTimestamp hparsers hnumeral hread)
    | time =>
      obtain ⟨read, hread, -⟩ := map_eq_ok.1 (Option.some.inj hresult)
      exact .inl (accepted_of_parseTime hparsers hnumeral hread)
    | boolean =>
      have hresult := Option.some.inj hresult
      split_ifs at hresult with htrue hfalse
      · exact .inl (hnumeral _ (numeral_of_toLower htrue (by decide)))
      · exact .inl (hnumeral _ (numeral_of_toLower hfalse (by decide)))
    | date => exact absurd rfl hdate
    | duration => cases hresult
    | point => cases hresult
    | lineString => cases hresult
    | polygon => cases hresult
    | dateRange => cases hresult

end Scalars

/-- Only a scalar of a primitive type is accepted between quotes. -/
theorem exists_parseLiteral_quoted_iff {literal inside : List Char} {cqlType : CqlTypeInfo}
    (h : trim literal = singleQuote :: (inside ++ [singleQuote])) :
    (∃ cell, parseLiteral cqlType literal = .ok cell) ↔ ∃ kind bytes, cqlType = .primitive kind ∧
      encodePrimitiveChecked (String.ofList (undoubled singleQuote inside)) kind =
        some (.ok bytes) := by
  -- no bracket opens a text between quotes, and only primitive types have scalars
  have hcollection (opening closing : Char) (hopening : opening ≠ singleQuote) (t : CqlTypeInfo)
      (rest : List Char → Parsed) (cell : RawCell) :
      orNull literal (fun text => do
        let inner ← bracketed opening closing t literal text
        rest inner) ≠ .ok cell := by
    rw [orNull_quoted h]
    intro heq
    obtain ⟨inner, hinner, -⟩ := bind_eq_ok.1 heq
    rw [bracketed, stripPrefix, if_neg hopening] at hinner
    cases hinner
  have hscalar (t : CqlTypeInfo) : orNull literal (parseScalar t literal) =
      encodeScalarChecked (String.ofList (undoubled singleQuote inside)) t
        (String.ofList literal) := by
    rw [orNull_quoted h, parseScalar, unquote_eq]
    split_ifs <;> rfl
  constructor
  · rintro ⟨cell, hcell⟩
    cases cqlType with
    | list element frozen =>
      rw [parseLiteral] at hcell
      exact absurd hcell (hcollection '[' ']' (by decide) _ _ cell)
    | set element frozen =>
      rw [parseLiteral] at hcell
      exact absurd hcell (hcollection '\x7b' '\x7d' (by decide) _ _ cell)
    | map key value frozen =>
      exact absurd hcell (hcollection '\x7b' '\x7d' (by decide) _ _ cell)
    | tuple types =>
      exact absurd hcell (hcollection '(' ')' (by decide) _ _ cell)
    | primitive kind =>
      rw [parseLiteral, hscalar] at hcell
      cases hencoded : encodePrimitiveChecked (String.ofList (undoubled singleQuote inside)) kind
        with
      | none =>
        simp only [encodeScalarChecked, hencoded] at hcell
        cases hcell
      | some result =>
        simp only [encodeScalarChecked, hencoded] at hcell
        obtain ⟨bytes, hbytes, -⟩ := map_eq_ok.1 hcell
        exact ⟨kind, bytes, rfl, by rw [hencoded, mapError_eq_ok.1 hbytes]⟩
    | udt keyspace name fields frozen =>
      rw [parseLiteral, hscalar] at hcell
      cases hcell
    | vector element dimensions =>
      rw [parseLiteral, hscalar] at hcell
      cases hcell
    | custom name =>
      rw [parseLiteral, hscalar] at hcell
      cases hcell
  · rintro ⟨kind, bytes, rfl, hbytes⟩
    refine ⟨some bytes, ?_⟩
    rw [parseLiteral, hscalar]
    simp only [encodeScalarChecked, hbytes]
    rfl

omit [LiteralParsers] in
theorem ascii_undoubled_iff (inside : List Char) (p : Char → Bool) :
    (String.ofList (undoubled singleQuote inside)).toList.all p = true ↔
      inside.all p = true := by
  simp only [String.toList_ofList, all_eq_true, mem_undoubled]

/-- Every string has a literal that is parsed to it.  What is accepted between quotes is one string
literal, unless a text column is given quotes that do not come in pairs. -/
theorem quoted_iff (hparsers : LiteralParsers.AcceptOnly (singleQuote ∉ ·)) :
    (∀ s : String, parseLiteral (.primitive .text) (quoted singleQuote s.toList) =
      .ok (some s.toUTF8.data.toList)) ∧
    ∀ (cqlType : CqlTypeInfo) (literal : List Char),
      ((∃ cell, parseLiteral cqlType literal = .ok cell) → isQuoted (trim literal) = true →
        ∃ s, trim literal = quoted singleQuote s) ↔
      ¬(isQuoted (trim literal) = true ∧
        paired singleQuote (trim literal).tail.dropLast = false ∧
        (cqlType = .primitive .text ∨ cqlType = .primitive .ascii ∧
          (trim literal).tail.dropLast.all (fun c => c.toNat < 128) = true)) := by
  refine ⟨parseLiteral_quoted, fun cqlType literal => ?_⟩
  by_cases hquoted : isQuoted (trim literal) = true
  · obtain ⟨inside, htrim⟩ := isQuoted_iff.1 hquoted
    have hinside : (trim literal).tail.dropLast = inside := by
      rw [htrim, tail_cons, dropLast_concat]
    have hliteral : (∃ s, trim literal = quoted singleQuote s) ↔
        paired singleQuote inside = true := by
      rw [paired_iff, htrim]
      simp only [quoted, List.cons.injEq, true_and, append_cancel_right_eq]
    rw [hliteral, hinside, exists_parseLiteral_quoted_iff htrim]
    constructor
    · rintro h ⟨-, hodd, htype⟩
      refine Bool.false_ne_true (hodd.symm.trans (h ?_ hquoted))
      rcases htype with rfl | ⟨rfl, hascii⟩
      · exact ⟨.text, _, rfl, rfl⟩
      · refine ⟨.ascii, (String.ofList (undoubled singleQuote inside)).toUTF8.data.toList, rfl, ?_⟩
        rw [encodePrimitiveChecked, if_neg (by decide), encodePrimitive,
          if_pos ((ascii_undoubled_iff inside _).2 hascii)]
        rfl
    · rintro hnot ⟨kind, bytes, rfl, hbytes⟩ -
      by_contra hodd
      rw [Bool.not_eq_true] at hodd
      rcases accepted_of_encodePrimitiveChecked hparsers numeral_not_quote hbytes with hmem | rfl | rfl
      · rw [String.toList_ofList, mem_undoubled] at hmem
        rw [paired_of_not_mem hmem] at hodd
        cases hodd
      · exact hnot ⟨hquoted, hodd, .inl rfl⟩
      · refine hnot ⟨hquoted, hodd, .inr ⟨rfl, ?_⟩⟩
        by_contra hascii
        rw [← ascii_undoubled_iff] at hascii
        rw [encodePrimitiveChecked, if_neg (by decide), encodePrimitive, if_neg hascii] at hbytes
        cases hbytes
  · exact iff_of_true (fun _ h => absurd h hquoted) fun h => hquoted h.1

end Parsers

theorem rejecting_acceptOnly (p : List Char → Prop) : @LiteralParsers.AcceptOnly .rejecting p := by
  let _ : LiteralParsers := .rejecting
  constructor
  all_goals intros; contradiction

/-- The literal of `it's` is one string literal. -/
theorem quoted_iff_its :
    ∃ s, trim (quoted singleQuote ['i', 't', singleQuote, 's']) =
      quoted singleQuote s := by
  let _ : LiteralParsers := .rejecting
  exact ((quoted_iff (rejecting_acceptOnly _)).2 (.primitive .text)
    (quoted singleQuote ['i', 't', singleQuote, 's'])).2 (by decide) ⟨_, rfl⟩ (by decide)

/-- Two literals with a comma between them are accepted as one. -/
theorem not_quoted :
    (∃ cell, @parseLiteral .rejecting (.primitive .text)
      (quoted singleQuote ['a'] ++ [','] ++ quoted singleQuote ['b']) = .ok cell) ∧
    isQuoted (trim (quoted singleQuote ['a'] ++ [','] ++ quoted singleQuote ['b'])) =
      true ∧
    ¬∃ s, trim (quoted singleQuote ['a'] ++ [','] ++ quoted singleQuote ['b']) =
      quoted singleQuote s := by
  let _ : LiteralParsers := .rejecting
  refine ⟨⟨_, rfl⟩, by decide, ?_⟩
  rintro ⟨s, hs⟩
  have hodd := congrArg (fun text => paired singleQuote text.tail.dropLast) hs
  simp only [quoted, tail_cons, dropLast_concat, paired_iff.2 ⟨s, rfl⟩] at hodd
  exact absurd hodd (by decide)

end Literal

end Cdm
