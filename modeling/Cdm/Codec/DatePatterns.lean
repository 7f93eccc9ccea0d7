import Cdm.Codec.DateFormat

/-!
# Writing and reading the fields of a date

What is written with a pattern is read field by field.  A field is read as it was written when its
text ends where the reader stops.
-/

namespace Cdm

open List

namespace DateFormat

/-! ### Patterns -/

/-- What is written for the fields does not start with a digit. -/
def StartsPlain : List Field → Prop
  | [] => True
  | .literal text :: _ => ∃ c cs, text = c :: cs ∧ c.isDigit = false
  | .number _ _ :: _ => False
  | .amPm :: _ => True

/-- After a number that is not of a fixed width comes something else than a digit. -/
def Delimited (fixed : Letter → ℕ → Prop) : List Field → Prop
  | [] => True
  | .number letter width :: fields =>
    (fixed letter width ∨ StartsPlain fields) ∧ Delimited fixed fields
  | _ :: fields => Delimited fixed fields

/-- The width is pinned by the pattern. -/
def Pinned (_ : Letter) (width : ℕ) : Prop := 2 ≤ width

/-- The number is written with as many digits as the width, in the years of four digits. -/
def FixedWidth (letter : Letter) (width : ℕ) : Prop :=
  2 ≤ width ∧ (letter = .year → width ≠ 3)

theorem Delimited.mono {fixed fixed' : Letter → ℕ → Prop} {fields : List Field}
    (h : Delimited fixed fields) (himp : ∀ letter width, fixed letter width → fixed' letter width) :
    Delimited fixed' fields := by
  induction fields with
  | nil => trivial
  | cons field fields ih =>
    cases field with
    | literal text => exact ih h
    | number letter width => exact ⟨h.1.imp_left (himp letter width), ih h.2⟩
    | amPm => exact ih h

/-! ### Numbers -/

section Numbers

variable [Chrono]

/-- The nine digits of the fraction that are written: a leap second has ten of them. -/
def writtenNanos (value : NaiveDateTime) : ℕ :=
  if value.nanosecond < 10 ^ 9 then value.nanosecond else value.nanosecond / 10

/-- The number that is written for a run of a letter. -/
def writtenNumber (value : NaiveDateTime) (letter : Letter) (width : ℕ) : ℕ :=
  match letter with
  | .year => if width = 2 then (value.year % 100).toNat else value.year.toNat
  | .month => value.month
  | .day => value.day
  | .hour24 => value.hour
  | .hour12 => clockHour value.hour
  | .minute => value.minute
  | .second => value.second
  | .fraction => writtenNanos value / 10 ^ (9 - min width 9) * 10 ^ (width - 9)

/-- A number that is read as it was written. -/
def Fits (value : NaiveDateTime) (letter : Letter) (width : ℕ) : Prop :=
  match letter with
  | .year => width < 2 ^ 16 ∧ (width = 1 → value.year ≤ 99) ∧ (width = 3 → value.year ≤ 999)
  | .fraction => writtenNumber value .fraction width < 2 ^ 63
  | _ => width < 2 ^ 16

/-- Dates in the years of at most four digits. -/
def InDomain (value : NaiveDateTime) : Prop := 1 ≤ value.year ∧ value.year ≤ 9999

/-- A number other than a fraction is padded. -/
theorem formatNumber_eq_padded {value : NaiveDateTime} (hyear : InDomain value) {letter : Letter}
    (hletter : letter ≠ .fraction) (width : ℕ) :
    formatNumber value letter width = Decimal.padded width (writtenNumber value letter width) := by
  cases letter with
  | year =>
    have hpos := hyear.1
    have hshort : ¬ value.year % 100 < 0 := by omega
    have hlong : ¬ value.year < 0 := by omega
    simp only [formatNumber, writtenNumber, paddedYear, if_neg hshort, if_neg hlong]
    by_cases hwidth : width = 2
    · rw [if_pos hwidth, if_pos hwidth, hwidth]
    · rw [if_neg hwidth, if_neg hwidth]
  | fraction => exact absurd rfl hletter
  | _ => rfl

end Numbers

section Written

variable [Chrono] [LawfulChrono] {value : NaiveDateTime}

theorem writtenNanos_lt (value : NaiveDateTime) : writtenNanos value < 10 ^ 9 := by
  have hbounds := value.bounds
  unfold writtenNanos
  split_ifs <;> omega

/-- The first nine digits of the nanoseconds. -/
theorem take_padded_nanosecond (value : NaiveDateTime) {width : ℕ} (hwidth : width ≤ 9) :
    (Decimal.padded 9 value.nanosecond).take width =
      Decimal.digits width (writtenNanos value / 10 ^ (9 - width)) := by
  have hbounds := value.bounds
  obtain ⟨others, hothers⟩ : ∃ others, 9 = width + others := ⟨9 - width, by omega⟩
  have htake := Decimal.take_digits width others (writtenNanos value)
  rw [← hothers] at htake
  have hsub : 9 - width = others := by omega
  rw [hsub, ← htake, writtenNanos]
  split_ifs with hfits
  · rw [Decimal.padded_eq_digits (by decide) hfits]
  · -- A leap second has ten digits.
    have hten : Decimal.padded 9 value.nanosecond = Decimal.digits 10 value.nanosecond := by
      rw [Decimal.padded_of_le (not_lt.1 hfits), ← Decimal.padded_eq_digits (by decide)
        (by omega), Decimal.padded, Nat.sub_eq_zero_of_le]
      · rfl
      · have hmore := mt (Nat.length_toDigits_le_iff (b := 10) (k := 9) (by decide)
          (by decide)).1 hfits
        omega
    have hnine := Decimal.take_digits 9 1 value.nanosecond
    rw [Nat.pow_one] at hnine
    rw [hten, ← hnine, take_take, Nat.min_eq_left hwidth]

theorem formatFraction_eq (value : NaiveDateTime) (width : ℕ) :
    formatFraction width value.nanosecond =
      Decimal.digits width (writtenNumber value .fraction width) := by
  have hsum : width = min width 9 + (width - 9) := by omega
  rw [formatFraction, take_padded_nanosecond value (Nat.min_le_right width 9),
    ← Decimal.digits_mul_pow, ← hsum]
  rfl

theorem writtenNumber_fraction_lt (value : NaiveDateTime) (width : ℕ) :
    writtenNumber value .fraction width < 10 ^ width := by
  have hsum : width = min width 9 + (width - 9) := by omega
  have hfirst : writtenNanos value / 10 ^ (9 - min width 9) < 10 ^ min width 9 := by
    rw [Nat.div_lt_iff_lt_mul (by positivity), ← pow_add]
    have hnine : min width 9 + (9 - min width 9) = 9 := by omega
    rw [hnine]
    exact writtenNanos_lt value
  calc writtenNumber value .fraction width
      < 10 ^ min width 9 * 10 ^ (width - 9) :=
        Nat.mul_lt_mul_of_pos_right hfirst (by positivity)
    _ = 10 ^ width := by rw [← pow_add, ← hsum]

/-- A number other than a fraction has at most two digits, or four of a year. -/
theorem writtenNumber_lt {letter : Letter} (hletter : letter ≠ .fraction) (width : ℕ) :
    writtenNumber value letter width < 10 ^ 2 ∨
      letter = .year ∧ width ≠ 2 ∧ writtenNumber value letter width = value.year.toNat := by
  have hbounds := value.bounds
  cases letter with
  | year =>
    by_cases hwidth : width = 2
    · left
      simp only [writtenNumber, if_pos hwidth]
      omega
    · exact .inr ⟨rfl, hwidth, if_neg hwidth⟩
  | fraction => exact absurd rfl hletter
  | hour12 =>
    left
    simp only [writtenNumber, clockHour]
    split_ifs <;> omega
  | _ =>
    left
    simp only [writtenNumber]
    omega

theorem isDigit_of_mem_formatNumber (hyear : InDomain value) {letter : Letter} {width : ℕ} {c : Char}
    (h : c ∈ formatNumber value letter width) : c.isDigit = true := by
  by_cases hletter : letter = .fraction
  · subst hletter
    rw [formatNumber, formatFraction_eq] at h
    exact Decimal.isDigit_of_mem_digits h
  · rw [formatNumber_eq_padded hyear hletter] at h
    exact Decimal.isDigit_of_mem_padded h

theorem ofDigitChars_formatNumber (hyear : InDomain value) (letter : Letter) (width : ℕ) :
    Nat.ofDigitChars 10 (formatNumber value letter width) 0 = writtenNumber value letter width := by
  by_cases hletter : letter = .fraction
  · subst hletter
    rw [formatNumber, formatFraction_eq, Decimal.ofDigitChars_digits,
      Nat.mod_eq_of_lt (writtenNumber_fraction_lt value width)]
  · rw [formatNumber_eq_padded hyear hletter, Decimal.ofDigitChars_padded]

theorem formatNumber_ne_nil (hyear : InDomain value) (letter : Letter) {width : ℕ}
    (hwidth : 1 ≤ width) : formatNumber value letter width ≠ [] := by
  by_cases hletter : letter = .fraction
  · subst hletter
    rw [formatNumber, formatFraction_eq, ← length_pos_iff, Decimal.length_digits]
    exact hwidth
  · rw [formatNumber_eq_padded hyear hletter]
    exact Decimal.padded_ne_nil _ _

/-- A number is written with as many digits as the width, but for a year in three. -/
theorem length_formatNumber (hyear : InDomain value) {letter : Letter} {width : ℕ}
    (hwidth : 2 ≤ width) (hthree : letter = .year → width = 3 → value.year ≤ 999) :
    (formatNumber value letter width).length = width := by
  by_cases hletter : letter = .fraction
  · subst hletter
    rw [formatNumber, formatFraction_eq, Decimal.length_digits]
  · rw [formatNumber_eq_padded hyear hletter]
    refine Decimal.length_padded (by omega) ?_
    have hpow : 10 ^ 2 ≤ 10 ^ width := Nat.pow_le_pow_right (by decide) hwidth
    have hwritten : writtenNumber value _ width < _ ∨ _ := writtenNumber_lt hletter width
    rcases hwritten with hlt | ⟨hletter', htwo, hnumber⟩
    · exact hlt.trans_le hpow
    · have hmax := hyear.2
      rw [hnumber]
      rcases Nat.lt_or_ge width 4 with hlt | hge
      · obtain rfl : width = 3 := by omega
        have hsmall := hthree hletter' rfl
        omega
      · have hpow' : 10 ^ 4 ≤ 10 ^ width := Nat.pow_le_pow_right (by decide) hge
        omega

/-- A number is written with one digit or two where the width is one, but for a year. -/
theorem length_formatNumber_one (hyear : InDomain value) {letter : Letter}
    (hyear' : letter = .year → value.year ≤ 99) : (formatNumber value letter 1).length ≤ 2 := by
  by_cases hletter : letter = .fraction
  · subst hletter
    rw [formatNumber, formatFraction_eq, Decimal.length_digits]
    decide
  · rw [formatNumber_eq_padded hyear hletter]
    refine Decimal.length_padded_le (by decide) (by decide) ?_
    have hwritten : writtenNumber value _ 1 < _ ∨ _ := writtenNumber_lt hletter 1
    rcases hwritten with hlt | ⟨hletter', -, hnumber⟩
    · exact hlt
    · have hsmall := hyear' hletter'
      rw [hnumber]
      omega

end Written

/-! ### Reading a number -/

/-- A text that does not start with a digit. -/
def PlainText (s : List Char) : Prop := ∀ c ∈ s.head?, c.isDigit = false

theorem readDigits_eq {chars digits : List Char} {width : ℕ}
    (h : (chars.take (wantedDigits width)).takeWhile Char.isDigit = digits) :
    readDigits chars width = if digits = [] ∨ 1 < width ∧ digits.length ≠ width then none
      else some (digits, chars.drop digits.length) := by
  subst h
  rfl

theorem PlainText.takeWhile_eq_nil {s : List Char} (h : PlainText s) :
    s.takeWhile Char.isDigit = [] := by
  cases s with
  | nil => rfl
  | cons c cs =>
    have hc : c.isDigit = false := h c rfl
    rw [takeWhile_cons_of_neg (by simp [hc])]

section Digits

variable {digits rest : List Char} (hdigits : ∀ c ∈ digits, c.isDigit = true)

include hdigits

/-- As many digits as the width are read. -/
theorem readDigits_of_length {width : ℕ} (hwidth : 2 ≤ width) (hlength : digits.length = width) :
    readDigits (digits ++ rest) width = some (digits, rest) := by
  have hwanted : wantedDigits width = width := if_neg (by omega)
  have hne : digits ≠ [] := length_pos_iff.1 (by omega)
  have hread : ((digits ++ rest).take (wantedDigits width)).takeWhile Char.isDigit = digits := by
    rw [hwanted, take_left' hlength, takeWhile_eq_self_iff.2 hdigits]
  rw [readDigits_eq hread, if_neg (by simp [hne, hlength]), drop_left]

/-- One digit or two are read where the width is one. -/
theorem readDigits_one (hne : digits ≠ []) (hlength : digits.length ≤ 2) (hrest : PlainText rest) :
    readDigits (digits ++ rest) 1 = some (digits, rest) := by
  have htail (n : ℕ) : (rest.take n).takeWhile Char.isDigit = [] := by
    cases rest with
    | nil => rw [take_nil, takeWhile_nil]
    | cons c cs =>
      have hc : c.isDigit = false := hrest c rfl
      cases n with
      | zero => rw [take_zero, takeWhile_nil]
      | succ n => rw [take_succ_cons, takeWhile_cons_of_neg (by simp [hc])]
  have hread : ((digits ++ rest).take (wantedDigits 1)).takeWhile Char.isDigit = digits := by
    have hwanted : wantedDigits 1 = 2 := rfl
    rw [hwanted, List.take_append, take_of_length_le hlength,
      takeWhile_append_of_pos hdigits, htail, append_nil]
  rw [readDigits_eq hread, if_neg (by simp [hne]), drop_left]

/-- A digit is left where there are more than are read. -/
theorem readDigits_of_long {width : ℕ} {read : List Char × List Char}
    (hlong : wantedDigits width < digits.length)
    (h : readDigits (digits ++ rest) width = some read) : ¬ PlainText read.2 := by
  have hread : ((digits ++ rest).take (wantedDigits width)).takeWhile Char.isDigit =
      digits.take (wantedDigits width) := by
    rw [take_append_of_le_length hlong.le]
    exact takeWhile_eq_self_iff.2 fun c hc => hdigits c (mem_of_mem_take hc)
  rw [readDigits_eq hread] at h
  split_ifs at h
  cases h
  intro hplain
  have hhead := hplain digits[wantedDigits width] (by
    rw [length_take, Nat.min_eq_left hlong.le, drop_append_of_le_length hlong.le,
      drop_eq_getElem_cons hlong]
    rfl)
  rw [hdigits _ (getElem_mem hlong)] at hhead
  cases hhead

end Digits

/-! ### Reading the fields -/

section Fields

variable [Chrono]

/-- A field that is read as it was written. -/
def FieldFits (value : NaiveDateTime) : Field → Prop
  | .number letter width => Fits value letter width
  | _ => True

/-- What is recorded for a field that was written. -/
def recordField (value : NaiveDateTime) (parts : Parts) : Field → Parts
  | .literal _ => parts
  | .number letter width => parts.record letter width (writtenNumber value letter width)
  | .amPm => { parts with pm := some (decide (12 ≤ value.hour)) }

/-- What is recorded for fields that were written. -/
def recorded (value : NaiveDateTime) (fields : List Field) (parts : Parts) : Parts :=
  fields.foldl (recordField value) parts

/-- Every number has a digit at least. -/
def HasWidths (fields : List Field) : Prop :=
  ∀ letter width, .number letter width ∈ fields → 1 ≤ width

@[simp] theorem formatFields_cons (value : NaiveDateTime) (field : Field) (fields : List Field) :
    formatFields value (field :: fields) = formatField value field ++ formatFields value fields :=
  flatMap_cons

theorem StartsPlain.plainText {fields : List Field} (h : StartsPlain fields)
    (value : NaiveDateTime) : PlainText (formatFields value fields) := by
  intro c hc
  cases fields with
  | nil => cases hc
  | cons field fields =>
    rw [formatFields_cons] at hc
    cases field with
    | literal text =>
      obtain ⟨d, cs, rfl, hd⟩ := h
      cases hc
      exact hd
    | number letter width => exact h.elim
    | amPm =>
      rw [formatField] at hc
      split_ifs at hc <;> · cases hc; rfl

omit [Chrono] in
theorem toUpper_of_isDigit {c : Char} (h : c.isDigit = true) : c.toUpper = c := by
  rw [Char.isDigit, Bool.and_eq_true, decide_eq_true_eq, decide_eq_true_eq] at h
  refine dif_neg fun hlower => ?_
  exact absurd (UInt32.le_trans hlower.1 h.2) (by decide)

omit [Chrono] in
/-- A digit is not read by fields that start with something else. -/
theorem StartsPlain.readFields_ne {fields : List Field} (h : StartsPlain fields)
    {chars : List Char} (hchars : ¬ PlainText chars) (parts parts' : Parts) :
    readFields fields chars parts ≠ some ([], parts') := by
  obtain ⟨c, cs, rfl, hc⟩ : ∃ c cs, chars = c :: cs ∧ c.isDigit = true := by
    cases chars with
    | nil => exact absurd (fun c hc => by cases hc) hchars
    | cons c cs =>
      refine ⟨c, cs, rfl, ?_⟩
      by_contra hdigit
      exact hchars fun d hd => by cases hd; exact eq_false_of_ne_true hdigit
  intro hread
  cases fields with
  | nil => cases hread
  | cons field fields =>
    obtain ⟨⟨rest, parts''⟩, hfield, -⟩ := Option.bind_eq_some_iff.1 hread
    cases field with
    | literal text =>
      obtain ⟨d, ds, rfl, hd⟩ := h
      obtain ⟨rest', hrest, -⟩ := Option.map_eq_some_iff.1 hfield
      rw [Text.stripPrefix] at hrest
      split_ifs at hrest with heq
      rw [heq, hc] at hd
      cases hd
    | number letter width => exact h.elim
    | amPm =>
      cases cs with
      | nil => cases hfield
      | cons d ds =>
        simp only [readField, List.cons.injEq, toUpper_of_isDigit hc] at hfield
        split_ifs at hfield with ham hpm
        · rw [ham.1] at hc
          cases hc
        · rw [hpm.1] at hc
          cases hc

end Fields

section Reading

variable [Chrono] [LawfulChrono] {value : NaiveDateTime}

theorem Fits.writtenNumber_lt {letter : Letter} {width : ℕ} (hyear : InDomain value)
    (h : Fits value letter width) : writtenNumber value letter width < 2 ^ 63 := by
  by_cases hletter : letter = .fraction
  · subst hletter
    exact h
  · have hmax := hyear.2
    rcases (DateFormat.writtenNumber_lt hletter width :
        DateFormat.writtenNumber value _ width < _ ∨ _) with hlt | ⟨-, -, hnumber⟩ <;>
      omega

theorem readField_formatField (hyear : InDomain value) {field : Field}
    (hwidth : ∀ letter width, field = .number letter width → 1 ≤ width)
    (hfits : FieldFits value field) {rest : List Char}
    (hends : ∀ letter width, field = .number letter width → 2 ≤ width ∨ PlainText rest)
    (parts : Parts) : readField field (formatField value field ++ rest) parts =
      some (rest, recordField value parts field) := by
  cases field with
  | literal text =>
    rw [readField, formatField, Text.stripPrefix_append]
    rfl
  | number letter width =>
    have hpos := hwidth letter width rfl
    have hread : readDigits (formatNumber value letter width ++ rest) width =
        some (formatNumber value letter width, rest) := by
      have hdigits (c) (hc : c ∈ formatNumber value letter width) : c.isDigit = true :=
        isDigit_of_mem_formatNumber hyear hc
      rcases Nat.lt_or_ge width 2 with hone | htwo
      · obtain rfl : width = 1 := by omega
        refine readDigits_one hdigits (formatNumber_ne_nil hyear letter hpos) ?_
          ((hends letter 1 rfl).resolve_left (by decide))
        exact length_formatNumber_one hyear fun hletter => by subst hletter; exact hfits.2.1 rfl
      · refine readDigits_of_length hdigits htwo (length_formatNumber hyear htwo fun hletter => ?_)
        subst hletter
        exact hfits.2.2
    have hvalue : Text.parseI64 (formatNumber value letter width) =
        some (writtenNumber value letter width : ℤ) := by
      rw [Decimal.parseI64_of_digits (formatNumber_ne_nil hyear letter hpos) fun c hc =>
        isDigit_of_mem_formatNumber hyear hc, ofDigitChars_formatNumber hyear,
        if_pos (Fits.writtenNumber_lt hyear hfits)]
    rw [formatField, readField, hread]
    simp only [Option.bind_eq_bind, Option.bind_some, hvalue]
    rfl
  | amPm =>
    rw [formatField]
    by_cases hhour : value.hour < 12
    · rw [if_pos hhour, recordField, decide_eq_false (not_le.2 hhour)]
      rfl
    · rw [if_neg hhour, recordField, decide_eq_true (not_lt.1 hhour)]
      rfl

/-- A text that was written is read, when all numbers fit. -/
theorem readFields_formatFields (hyear : InDomain value) {fields : List Field}
    (hwidths : HasWidths fields) (hends : Delimited Pinned fields)
    (hfits : ∀ field ∈ fields, FieldFits value field) (parts : Parts) :
    readFields fields (formatFields value fields) parts =
      some ([], recorded value fields parts) := by
  induction fields generalizing parts with
  | nil => rfl
  | cons field fields ih =>
    rw [forall_mem_cons] at hfits
    have htail : HasWidths fields := fun letter width h => hwidths letter width (.tail _ h)
    have hends' : Delimited Pinned fields ∧
        ∀ letter width, field = .number letter width →
          2 ≤ width ∨ PlainText (formatFields value fields) := by
      cases field with
      | literal text => exact ⟨hends, fun _ _ h => by cases h⟩
      | number letter width =>
        refine ⟨hends.2, fun _ _ h => ?_⟩
        cases h
        exact hends.1.imp_right fun h => h.plainText value
      | amPm => exact ⟨hends, fun _ _ h => by cases h⟩
    rw [readFields, formatFields_cons, readField_formatField hyear
      (fun letter width h => hwidths letter width (h ▸ .head _)) hfits.1 hends'.2]
    exact ih htail hends'.1 hfits.2 _

/-- A number that does not fit is not read, or leaves a digit. -/
theorem readField_of_not_fits (hyear : InDomain value) {letter : Letter} {width : ℕ}
    (hwritable : Field.isWritable (.number letter width) = true)
    (hfits : ¬ Fits value letter width) {rest : List Char} {parts : Parts}
    {read : List Char × Parts}
    (h : readField (.number letter width) (formatNumber value letter width ++ rest) parts =
      some read) : ¬ FixedWidth letter width ∧ ¬ PlainText read.1 := by
  have hdigits (c) (hc : c ∈ formatNumber value letter width) : c.isDigit = true :=
    isDigit_of_mem_formatNumber hyear hc
  obtain ⟨⟨digits, rest'⟩, hread, hrecord⟩ := Option.bind_eq_some_iff.1 h
  obtain ⟨number, hnumber, hresult⟩ := Option.bind_eq_some_iff.1 hrecord
  cases hresult
  cases letter with
  | year =>
    have hwidth : width < 2 ^ 16 := of_decide_eq_true hwritable
    have hlong : wantedDigits width < (formatNumber value .year width).length ∧
        (width = 1 ∨ width = 3) := by
      rw [formatNumber_eq_padded hyear (by decide)]
      have hnot : width = 1 ∧ 99 < value.year ∨ width = 3 ∧ 999 < value.year := by
        rw [Fits] at hfits
        omega
      rcases hnot with ⟨rfl, hyear'⟩ | ⟨rfl, hyear'⟩
      · have hnumber : writtenNumber value .year 1 = value.year.toNat := rfl
        have hlarge : 10 ^ 2 ≤ writtenNumber value .year 1 := by omega
        exact ⟨Decimal.lt_length_padded (by decide) hlarge 1, .inl rfl⟩
      · have hnumber : writtenNumber value .year 3 = value.year.toNat := rfl
        have hlarge : 10 ^ 3 ≤ writtenNumber value .year 3 := by omega
        exact ⟨Decimal.lt_length_padded (by decide) hlarge 3, .inr rfl⟩
    refine ⟨fun hfixed => ?_, readDigits_of_long hdigits hlong.1 hread⟩
    have htwo := hfixed.1
    have hthree := hfixed.2 rfl
    omega
  | fraction =>
    -- All the digits are read, and their number is too great.
    exfalso
    have hlarge : 2 ^ 63 ≤ writtenNumber value .fraction width := not_lt.1 hfits
    have htwo : 2 ≤ width := by
      by_contra hsmall
      have hlt := writtenNumber_fraction_lt value width
      have hpow : 10 ^ width ≤ 10 ^ 1 := Nat.pow_le_pow_right (by decide) (by omega)
      omega
    rw [readDigits_of_length hdigits htwo (length_formatNumber hyear htwo fun hyear => by
      cases hyear)] at hread
    cases hread
    rw [Decimal.parseI64_of_digits (formatNumber_ne_nil hyear .fraction (by omega)) hdigits,
      ofDigitChars_formatNumber hyear, if_neg (not_lt.2 hlarge)] at hnumber
    cases hnumber
  | _ => exact absurd (of_decide_eq_true hwritable) hfits

/-- A text with a number that does not fit is not read to its end. -/
theorem readFields_ne (hyear : InDomain value) {fields : List Field}
    (hwidths : HasWidths fields) (hends : Delimited FixedWidth fields)
    (hwritable : fields.all Field.isWritable = true)
    (hfits : ¬ ∀ field ∈ fields, FieldFits value field) (parts parts' : Parts) :
    readFields fields (formatFields value fields) parts ≠ some ([], parts') := by
  induction fields generalizing parts with
  | nil => exact absurd (fun _ h => by cases h) hfits
  | cons field fields ih =>
    rw [all_cons, Bool.and_eq_true] at hwritable
    have htail : HasWidths fields := fun letter width h => hwidths letter width (.tail _ h)
    have hends' : Delimited FixedWidth fields ∧ ∀ letter width, field = .number letter width →
        FixedWidth letter width ∨ StartsPlain fields := by
      cases field with
      | literal text => exact ⟨hends, fun _ _ h => by cases h⟩
      | number letter width => exact ⟨hends.2, fun _ _ h => by cases h; exact hends.1⟩
      | amPm => exact ⟨hends, fun _ _ h => by cases h⟩
    rw [readFields, formatFields_cons]
    by_cases hfield : FieldFits value field
    · rw [readField_formatField hyear (fun letter width h => hwidths letter width (h ▸ .head _))
        hfield fun letter width h => (hends'.2 letter width h).imp And.left
          fun h => h.plainText value]
      exact ih htail hends'.1 hwritable.2
        (fun hfits' => hfits (forall_mem_cons.2 ⟨hfield, hfits'⟩)) _
    · intro hread
      obtain ⟨⟨rest, parts''⟩, hread, hrest⟩ := Option.bind_eq_some_iff.1 hread
      cases field with
      | literal text => exact hfield trivial
      | number letter width =>
        obtain ⟨hfixed, hplain⟩ := readField_of_not_fits hyear hwritable.1 hfield hread
        exact ((hends'.2 letter width rfl).resolve_left hfixed).readFields_ne hplain _ _ hrest
      | amPm => exact hfield trivial

end Reading

end DateFormat

end Cdm
