import Cdm.Codec.DateRangeText

/-!
# Which date ranges are exact

A range is read back from its text when its bounds are not before the year 0, and its upper bound is
not at the end of the calendar and, as a millisecond, is the last one of its second.  The bounds of
a text that is accepted are the first and the last milliseconds that are written so when the text
is one that is written at all, and again an upper millisecond is the last one of its second.
-/

namespace Cdm

open List Text

namespace DateRange

open Decimal (padded)
open Fallible (bind_eq_ok)

/-! ### Bounds of a range -/

/-- The bound that is read as a lower one. -/
def lower : DateRange → Option DateRangeBound
  | single bound | closed bound _ | openUpper bound => some bound
  | _ => none

/-- The bound that is read as an upper one. -/
def upper : DateRange → Option DateRangeBound
  | closed _ bound | openLower bound => some bound
  | _ => none

/-- Where the year 0 begins. -/
def yearZero : ℤ := Gregorian.yearStart 0 * 86400000

/-! ### Texts that denote nothing -/

/-- A year has no sign before it. -/
theorem not_denotes_of_dash {text : List Char} (h : IsBoundText ('-' :: text))
    (fields : BoundFields) : ¬ Denotes (boundText ('-' :: text)) fields := by
  have htrim : trim ('-' :: text) = '-' :: text :=
    trim_of_forall fun c hc => h.isWhitespace hc
  obtain ⟨rest, hrest⟩ := trimEndMatches_cons (show '-' ≠ 'Z' by decide) text
  obtain ⟨date, hdate⟩ : ∃ date, (dateAndTime ('-' :: rest)).1 = '-' :: date := by
    rw [dateAndTime, splitOnce, if_neg (by decide)]
    cases splitOnce 'T' rest with
    | none => exact ⟨_, rfl⟩
    | some parts => exact ⟨_, rfl⟩
  intro hdenotes
  have hyear := hdenotes.year
  rw [boundText, htrim, hrest, dateFields, hdate, Text.splitOn, if_pos rfl] at hyear
  cases hyear

theorem IsInstant.small {fields : BoundFields} (h : IsInstant fields) : Small fields := by
  obtain ⟨hyear, ⟨-, hmonth, -, hday⟩, hhour, hminute, hsecond⟩ := h
  have hlength := Gregorian.daysInMonth_le fields.year fields.month
  exact ⟨by omega, by omega, by omega, by omega, by omega, by omega⟩

theorem BoundFields.normal_normal (fields : BoundFields) :
    fields.normal.normal = fields.normal := by
  obtain ⟨year, month, day, hour, minute, second, millis, precision⟩ := fields
  cases precision <;> rfl

section Bounds

variable [ChronoUtc] [LawfulChronoUtc] {value value' : NaiveDateTime}

omit [LawfulChronoUtc] in
theorem millis_unitFields_lt (precision : Precision) (h : value.IsWhole) :
    (unitFields precision value).millis < 1000 := by
  have hnano := h.1
  cases precision <;> simp only [unitFields, fieldsOf, BoundFields.normal] <;> omega

/-- The text of an instant from the year 0 on denotes the numbers of its unit. -/
theorem denotes_formatInstant (precision : Precision) (h : value.IsWhole) (hyear : 0 ≤ value.year)
    {fields : BoundFields} : Denotes (boundText (formatInstant precision value)) fields ↔
      fields = unitFields precision value := by
  have hsmall : Small (unitFields precision value) :=
    (isInstant_fieldsOf precision hyear).normal.small
  have hnormal : (unitFields precision value).normal = unitFields precision value :=
    BoundFields.normal_normal _
  rw [formatInstant_eq precision hyear, denotes_formatFields (millis_unitFields_lt precision h),
    hnormal, and_iff_left hsmall]

theorem year_nonneg_iff (h : value.IsWhole) : 0 ≤ value.year ↔ yearZero ≤ value.millis := by
  have hday := value.isDay.yearStart_bounds
  have htime := h.millisOfDay_lt
  rw [yearZero, NaiveDateTime.millis]
  constructor
  · intro hyear
    have hmono := Gregorian.yearStart_mono hyear
    omega
  · intro hmillis
    by_contra hyear
    have hmono := Gregorian.yearStart_mono (show value.year + 1 ≤ 0 by omega)
    omega

/-- A bound whose text is that of an instant. -/
theorem parseBound_formatInstant {precision : Precision} (h : value.IsWhole) (upper : Bool)
    {bound : DateRangeBound} : parseBound (formatInstant precision value) upper = .ok bound ↔
      0 ≤ value.year ∧ (upper = true → unitEnd (unitFields precision value) < limit) ∧
        bound = ⟨if upper then unitEnd (unitFields precision value) - 1
          else unitStart precision value, precision⟩ := by
  rw [parseBound_eq_ok]
  rcases lt_or_ge value.year 0 with hneg | hyear
  · obtain ⟨rest, hrest⟩ := exists_formatInstant_eq precision hneg
    have htext := isBoundText_formatInstant precision value
    rw [hrest] at htext ⊢
    refine iff_of_false ?_ fun hpos => absurd hpos.1 (not_le.2 hneg)
    rintro ⟨fields, hfields, -⟩
    exact not_denotes_of_dash htext fields hfields
  · simp only [denotes_formatInstant precision h hyear, exists_eq_left, and_iff_right hyear,
      precision_unitFields, instantMillis_unitFields precision hyear]
    exact and_iff_right (isInstant_fieldsOf precision hyear).normal

/-- The value of a bound that is an instant. -/
theorem isWhole_of_fromTimestampMillis {millis : ℤ}
    (h : ChronoUtc.fromTimestampMillis millis = some value) :
    value.IsWhole ∧ value.millis = millis := by
  rw [ChronoUtc.fromTimestampMillis_eq] at h
  exact NaiveDateTime.ofMillis_eq_some.1 h

omit [LawfulChronoUtc] in
theorem formatBound_eq {bound : DateRangeBound}
    (h : ChronoUtc.fromTimestampMillis bound.millis = some value) :
    formatBound bound = formatInstant bound.precision value := by
  rw [formatBound, h]

/-- A lower bound that starts its unit is read back from the year 0 on. -/
theorem lower_readBack_iff {bound : DateRangeBound}
    (h : ChronoUtc.fromTimestampMillis bound.millis = some value)
    (hleast : IsLeast (unit bound.precision value) bound.millis) :
    parseBound (formatBound bound) false = .ok bound ↔ yearZero ≤ bound.millis := by
  obtain ⟨hwhole, hmillis⟩ := isWhole_of_fromTimestampMillis h
  have hstart := (isLeast_unit_iff bound.precision hwhole).1 hleast
  rw [formatBound_eq h, parseBound_formatInstant hwhole, year_nonneg_iff hwhole, hmillis]
  refine and_iff_left ⟨by rintro ⟨⟩, ?_⟩
  rw [if_neg Bool.false_ne_true, ← hstart]

omit [LawfulChronoUtc] in
/-- The end of the second that a millisecond is in. -/
theorem unitStop_second (h : value.IsWhole) : unitStop .second value = value.millis + 1 ↔
    value.millis % 1000 = 999 := by
  have hnano := h.1
  simp only [unitStop, unitStart, dayStart, NaiveDateTime.millis, NaiveDateTime.millisOfDay]
  omega

/-- An upper bound that ends its unit is read back from the year 0 on, before the end of the
calendar, if it is the last one of its second where the unit is a millisecond. -/
theorem upper_readBack_iff {bound : DateRangeBound}
    (h : ChronoUtc.fromTimestampMillis bound.millis = some value)
    (hgreatest : IsGreatest (unit bound.precision value) bound.millis) :
    parseBound (formatBound bound) true = .ok bound ↔ yearZero ≤ bound.millis ∧
      bound.millis + 1 < limit ∧
        (bound.precision = .millisecond → bound.millis % 1000 = 999) := by
  obtain ⟨hwhole, hmillis⟩ := isWhole_of_fromTimestampMillis h
  have hstop := (isGreatest_unit_iff bound.precision hwhole).1 hgreatest
  rw [formatBound_eq h, parseBound_formatInstant hwhole, year_nonneg_iff hwhole, hmillis]
  refine and_congr_right fun hyear => ?_
  have hbound (millis : ℤ) : bound = ⟨millis - 1, bound.precision⟩ ↔ bound.millis + 1 = millis := by
    constructor
    · intro heq
      have hmillis := congrArg DateRangeBound.millis heq
      dsimp only at hmillis
      omega
    · intro heq
      rw [← heq, add_sub_cancel_right]
  rw [if_pos rfl, hbound, forall_prop_of_true rfl,
    unitEnd_unitFields _ ((year_nonneg_iff hwhole).2 (hmillis ▸ hyear))]
  split_ifs with hprecision
  · have hsecond := unitStop_second hwhole
    rw [hmillis] at hsecond
    rw [← hsecond, forall_prop_of_true hprecision]
    constructor
    · rintro ⟨hlt, heq⟩
      exact ⟨heq ▸ hlt, heq.symm⟩
    · rintro ⟨hlt, heq⟩
      exact ⟨heq ▸ hlt, heq.symm⟩
  · rw [← hstop]
    exact and_congr_right fun _ => iff_of_true rfl fun h => absurd h hprecision

/-! ### What is written in the same way -/

/-- What is not an instant is written as a number that is no year. -/
theorem not_denotes_signed {millis : ℤ} (h : ChronoUtc.fromTimestampMillis millis = none)
    (htext : IsBoundText (Decimal.signed millis)) (fields : BoundFields) :
    ¬ Denotes (boundText (Decimal.signed millis)) fields := by
  rw [Decimal.signed] at htext ⊢
  split_ifs at htext ⊢ with hneg
  · exact not_denotes_of_dash htext fields
  · have hlimit : limit = 8210266876800000 := by norm_num [limit, Gregorian.yearStart]
    have hfirst : Gregorian.yearStart (-262143) = -96465292 := by norm_num [Gregorian.yearStart]
    have hlarge : limit ≤ millis := by
      rw [ChronoUtc.fromTimestampMillis_eq, ← Option.not_isSome_iff_eq_none,
        NaiveDateTime.ofMillis_isSome] at h
      rw [limit]
      omega
    have hyear : 10 ^ 4 ≤ millis.natAbs := by omega
    have hformat : Nat.toDigits 10 millis.natAbs =
        formatFields ⟨millis.natAbs, 1, 1, 0, 0, 0, 0, .year⟩ := by
      rw [← Decimal.padded_of_le hyear]
      simp [formatFields, joined, closing, dateTexts, timeTexts]
    rw [hformat, denotes_formatFields (by norm_num)]
    rintro ⟨-, hsmall⟩
    have hsmall := hsmall.year
    simp only [BoundFields.normal] at hsmall
    omega

/-- The milliseconds that are written as a text. -/
def renderings (precision : Precision) (text : List Char) : Set ℤ :=
  {millis | formatBound ⟨millis, precision⟩ = text}

/-- What is written like an instant is its unit. -/
theorem renderings_eq {precision : Precision} (h : value.IsWhole) (hyear : 0 ≤ value.year) :
    renderings precision (formatInstant precision value) = unit precision value := by
  ext millis
  rw [renderings, unit, Set.mem_ofPred_eq, Set.mem_ofPred_eq]
  have hself := (denotes_formatInstant precision h hyear).2 rfl
  cases hvalue : ChronoUtc.fromTimestampMillis millis with
  | none =>
    refine iff_of_false (fun hsigned => ?_) (by rintro ⟨_, ⟨⟩, _⟩)
    rw [formatBound, hvalue] at hsigned
    dsimp only at hsigned
    have htext := isBoundText_formatInstant precision value
    rw [← hsigned] at htext hself
    exact not_denotes_signed hvalue htext _ hself
  | some other =>
    obtain ⟨hwhole, -⟩ := isWhole_of_fromTimestampMillis hvalue
    rw [formatBound, hvalue]
    dsimp only
    simp only [Option.some.injEq, exists_eq_left']
    constructor
    · intro hsame
      rcases lt_or_ge other.year 0 with hneg | hother
      · obtain ⟨rest, hrest⟩ := exists_formatInstant_eq precision hneg
        have htext := isBoundText_formatInstant precision other
        rw [← hsame] at hself
        rw [hrest] at htext hself
        exact absurd hself (not_denotes_of_dash htext _)
      · rw [sameUnit_iff_unitFields precision hyear hother]
        rw [← hsame] at hself
        exact (denotes_formatInstant precision hwhole hother).1 hself
    · intro hsame
      have hother : 0 ≤ other.year := by
        have heq : value.year = other.year := by
          cases precision <;> simp only [SameUnit, SameDay] at hsame <;> tauto
        omega
      rw [formatInstant_eq precision hyear, formatInstant_eq precision hother,
        (sameUnit_iff_unitFields precision hyear hother).1 hsame]

/-! ### The texts that are written -/

omit [ChronoUtc] [LawfulChronoUtc] in
/-- A fraction of a bound has three digits at most. -/
theorem IsFraction.lt {fraction : Option (List Char)} {millis : ℕ}
    (h : IsFraction fraction millis) : millis < 1000 := by
  cases fraction with
  | none =>
    rw [show millis = 0 from h]
    norm_num
  | some text =>
    obtain ⟨first, hfirst, hnumber⟩ := h
    have hle := utf8Len_of_truncate hfirst
    have hlength : utf8Len (first ++ List.replicate (3 - utf8Len first) '0') = 3 := by
      rw [utf8Len_append, utf8Len_of_isDigit (s := List.replicate _ '0')
        fun c hc => by rw [eq_of_mem_replicate hc]; rfl, length_replicate]
      omega
    have hlt := Decimal.lt_of_parseU32 hnumber
    rw [hlength] at hlt
    exact hlt

omit [ChronoUtc] [LawfulChronoUtc] in
theorem formatFields_normal (fields : BoundFields) :
    formatFields fields.normal = formatFields fields := by
  obtain ⟨year, month, day, hour, minute, second, millis, precision⟩ := fields
  cases precision <;> rfl

/-- The texts that bounds are written as. -/
def IsWritten (text : List Char) : Prop :=
  ∃ fields : BoundFields, fields.millis < 1000 ∧ text = formatFields fields

/-- A fraction is the last one of its second. -/
def FullSecond (text : List Char) : Prop :=
  ∀ fraction, fractionText (timeFields (boundText text)) = some fraction → fraction = "999".toList

/-- A text that denotes numbers and that a millisecond is written as. -/
theorem isWritten_of_mem_renderings {precision : Precision} {text : List Char} {millis : ℤ}
    {fields : BoundFields} (h : millis ∈ renderings precision text)
    (hfields : Denotes (boundText text) fields) : IsWritten text := by
  have htext : formatBound ⟨millis, precision⟩ = text := h
  cases hvalue : ChronoUtc.fromTimestampMillis millis with
  | none =>
    have hchars := isBoundText_signed millis
    rw [formatBound, hvalue] at htext
    dsimp only at htext
    rw [← htext] at hfields
    exact absurd hfields (not_denotes_signed hvalue hchars fields)
  | some value =>
    rw [formatBound_eq hvalue] at htext
    rcases lt_or_ge value.year 0 with hneg | hyear
    · obtain ⟨rest, hrest⟩ := exists_formatInstant_eq precision hneg
      have hchars := isBoundText_formatInstant precision value
      rw [hrest] at hchars htext
      rw [← htext] at hfields
      exact absurd hfields (not_denotes_of_dash hchars fields)
    · rw [formatInstant_eq precision hyear] at htext
      exact ⟨_, millis_unitFields_lt _ (isWhole_of_fromTimestampMillis hvalue).1, htext.symm⟩

/-- The instant of a text, and how it is written. -/
theorem exists_value {text : List Char} {fields : BoundFields}
    (hfields : Denotes (boundText text) fields) (hinstant : IsInstant fields) :
    ∃ value : NaiveDateTime, value.IsWhole ∧ 0 ≤ value.year ∧
      fieldsOf fields.precision value = fields ∧
        (IsWritten text ↔ text = formatInstant fields.precision value) := by
  obtain ⟨value, hwhole, hyear, hvalue⟩ := exists_fieldsOf hinstant hfields.millis.lt
  refine ⟨value, hwhole, hyear, hvalue, ?_⟩
  rw [formatInstant_eq _ hyear]
  constructor
  · rintro ⟨written, hmillis, rfl⟩
    obtain ⟨rfl, -⟩ := (denotes_formatFields hmillis).1 hfields
    rw [unitFields, hvalue, BoundFields.normal_normal, formatFields_normal]
  · intro htext
    exact ⟨_, millis_unitFields_lt _ hwhole, htext⟩

/-- A lower bound is the first millisecond that is written so when its text is a written one. -/
theorem lower_exact_iff {text : List Char} {bound : DateRangeBound}
    (h : parseBound text false = .ok bound) :
    IsLeast (renderings bound.precision text) bound.millis ↔ IsWritten text := by
  obtain ⟨fields, hfields, hinstant, -, rfl⟩ := parseBound_eq_ok.1 h
  obtain ⟨value, hwhole, hyear, hvalue, hwritten⟩ := exists_value hfields hinstant
  refine ⟨fun hleast => isWritten_of_mem_renderings hleast.1 hfields, fun htext => ?_⟩
  replace htext := hwritten.1 htext
  dsimp only
  rw [if_neg Bool.false_ne_true]
  rw [htext] at hfields
  have hunit := (denotes_formatInstant fields.precision hwhole hyear).1 hfields
  rw [htext, renderings_eq hwhole hyear, isLeast_unit_iff _ hwhole]
  exact (congrArg instantMillis hunit).trans (instantMillis_unitFields _ hyear)

omit [LawfulChronoUtc] in
/-- The fraction of an instant that is written with one. -/
theorem fullSecond_formatInstant {precision : Precision} (hyear : 0 ≤ value.year) :
    FullSecond (formatInstant precision value) ↔
      (precision = .millisecond → value.nanosecond / 10 ^ 6 = 999) := by
  have hfull : padded 3 999 = "999".toList := by decide
  rw [FullSecond, formatInstant_eq precision hyear, timeFields_formatFields,
    fractionText_timeTexts, precision_unitFields]
  split_ifs with hprecision
  · subst hprecision
    simp only [Option.some.injEq, forall_eq', forall_const, ← hfull, Decimal.padded_inj]
    rfl
  · exact iff_of_true nofun fun h => absurd h hprecision

/-- An upper bound is the last millisecond that is written so when its text is a written one, and is
the last one of its second where it has a fraction. -/
theorem upper_exact_iff {text : List Char} {bound : DateRangeBound}
    (h : parseBound text true = .ok bound) :
    IsGreatest (renderings bound.precision text) bound.millis ↔
      IsWritten text ∧ FullSecond text := by
  obtain ⟨fields, hfields, hinstant, hlimit, rfl⟩ := parseBound_eq_ok.1 h
  obtain ⟨value, hwhole, hyear, hvalue, hwritten⟩ := exists_value hfields hinstant
  rw [hwritten]
  dsimp only
  rw [if_pos rfl]
  have hiff (htext : text = formatInstant fields.precision value) :
      IsGreatest (renderings fields.precision text) (unitEnd fields - 1) ↔ FullSecond text := by
    rw [htext] at hfields
    have hunit := (denotes_formatInstant fields.precision hwhole hyear).1 hfields
    rw [htext, renderings_eq hwhole hyear, isGreatest_unit_iff _ hwhole,
      fullSecond_formatInstant hyear, sub_add_cancel,
      (congrArg unitEnd hunit).trans (unitEnd_unitFields _ hyear)]
    split_ifs with hprecision
    · rw [hprecision, forall_prop_of_true rfl]
      have hnano := hwhole.1
      simp only [unitStop, unitStart, dayStart, NaiveDateTime.millis, NaiveDateTime.millisOfDay]
      omega
    · exact iff_of_true rfl fun h => absurd h hprecision
  constructor
  · intro hgreatest
    have htext := hwritten.1 (isWritten_of_mem_renderings hgreatest.1 hfields)
    exact ⟨htext, (hiff htext).1 hgreatest⟩
  · rintro ⟨htext, hfull⟩
    exact (hiff htext).2 hfull

end Bounds

/-! ### The ends of a range -/

/-- A range between two ends that may be open. -/
def between : Option DateRangeBound → Option DateRangeBound → DateRange
  | some lower, some upper => closed lower upper
  | some lower, none => openUpper lower
  | none, some upper => openLower upper
  | none, none => bothOpen

theorem between_inj {lower lower' upper upper' : Option DateRangeBound} :
    between lower upper = between lower' upper' ↔ lower = lower' ∧ upper = upper' := by
  cases lower <;> cases lower' <;> cases upper <;> cases upper' <;> simp [between]

/-- The pieces of a text that its bounds are read from. -/
def ends (text : List Char) : List Char × List Char :=
  match bracketed (unquoted text) with
  | none => (unquoted text, "*".toList)
  | some inner =>
    match splitOnceAt " TO ".toList inner with
    | none => ("*".toList, "*".toList)
    | some (lower, upper) => (trim lower, trim upper)

theorem IsBoundText.trim_eq {text : List Char} (h : IsBoundText text) : trim text = text :=
  trim_of_forall fun _ hc => h.isWhitespace hc

theorem IsBoundText.ne_star {text : List Char} (h : IsBoundText text) : text ≠ "*".toList := by
  rintro rfl
  exact h.not_mem (c := '*') (by decide) (by decide) (by decide)

theorem IsBoundText.unquoted_eq {text : List Char} (h : IsBoundText text) :
    unquoted text = text := by
  have hquote : singleQuote ∉ text := h.not_mem (by decide) (by decide)
  rw [unquoted, h.trim_eq, trimMatches_of_not_mem hquote, h.trim_eq]

theorem IsBoundText.bracketed_eq {text : List Char} (h : IsBoundText text) :
    bracketed text = none := by
  have hbracket : '[' ∉ text := h.not_mem (by decide) (by decide)
  unfold bracketed
  split
  · exact absurd mem_cons_self hbracket
  · rfl

theorem trim_brackets (inner : List Char) :
    trim ('[' :: (inner ++ [']'])) = '[' :: (inner ++ [']']) := by
  have hhead : ∀ c ∈ ('[' :: (inner ++ [']'])).head?, isWhitespace c = false := by
    rintro c ⟨⟩
    decide
  have hlast : ∀ c ∈ ('[' :: (inner ++ [']'])).getLast?, isWhitespace c = false := by
    intro c hc
    rw [← cons_append, getLast?_concat] at hc
    cases hc
    decide
  exact trim_append (w := []) nofun hhead hlast

theorem unquoted_brackets (inner : List Char) :
    unquoted ('[' :: (inner ++ [']'])) = '[' :: (inner ++ [']']) := by
  have hquotes : trimMatches singleQuote ('[' :: (inner ++ [']'])) =
      '[' :: (inner ++ [']']) := by
    rw [trimMatches, dropWhile_cons_of_neg (by decide), ← cons_append,
      reverse_append, reverse_singleton, singleton_append,
      dropWhile_cons_of_neg (by decide), reverse_cons, reverse_reverse]
  rw [unquoted, trim_brackets, hquotes, trim_brackets]

theorem bracketed_brackets (inner : List Char) :
    bracketed ('[' :: (inner ++ [']'])) = some inner := by
  rw [bracketed, if_pos (endsWith_iff.2 ⟨inner, rfl⟩), dropLast_concat]

section Ranges

variable [ChronoUtc]

/-- One end between the brackets. -/
def readEnd (text : List Char) (upper : Bool) : Except Failure (Option DateRangeBound) :=
  if text = "*".toList then .ok none else (parseBound text upper).map some

/-- The text of one end. -/
def endText (bound : Option DateRangeBound) : List Char := bound.elim "*".toList formatBound

theorem isBoundText_formatBound (bound : DateRangeBound) : IsBoundText (formatBound bound) := by
  rw [formatBound]
  cases ChronoUtc.fromTimestampMillis bound.millis with
  | none => exact isBoundText_signed _
  | some value => exact isBoundText_formatInstant _ _

theorem toText_between (lower upper : Option DateRangeBound) : toText (between lower upper) =
    '[' :: (endText lower ++ (" TO ".toList ++ endText upper) ++ [']']) := by
  have hend : " TO *]".toList = " TO ".toList ++ ("*".toList ++ [']']) := rfl
  have hstart : "[* TO ".toList = '[' :: ("*".toList ++ " TO ".toList) := rfl
  have hboth : "[* TO *]".toList =
      '[' :: ("*".toList ++ (" TO ".toList ++ "*".toList) ++ [']']) := rfl
  cases lower <;> cases upper <;> dsimp only [between, toText, endText, Option.elim]
  · exact hboth
  · simp only [hstart, cons_append, append_assoc]
  · simp only [hend, cons_append, append_assoc]
  · simp only [cons_append, append_assoc]

theorem trim_endText (bound : Option DateRangeBound) :
    trim (endText bound) = endText bound := by
  cases bound with
  | none => rfl
  | some bound => exact (isBoundText_formatBound bound).trim_eq

theorem readEnd_endText {bound : Option DateRangeBound} {upper : Bool} :
    readEnd (endText bound) upper = .ok bound ↔
      ∀ b ∈ bound, parseBound (formatBound b) upper = .ok b := by
  cases bound with
  | none => exact iff_of_true (if_pos rfl) nofun
  | some bound =>
    have htext : endText (some bound) = formatBound bound := rfl
    rw [htext, readEnd, if_neg (isBoundText_formatBound bound).ne_star]
    simp only [Option.mem_def, Option.some.injEq, forall_eq']
    cases parseBound (formatBound bound) upper <;> simp [Except.map]

/-- Between brackets both ends are read, the lower one first. -/
theorem parse_brackets {text inner lower upper : List Char}
    (hinner : bracketed (unquoted text) = some inner)
    (hsplit : splitOnceAt " TO ".toList inner = some (lower, upper)) :
    parse text = do
      let lower ← readEnd (trim lower) false
      let upper ← readEnd (trim upper) true
      return between lower upper := by
  have hstar : unquoted text ≠ "*".toList := by
    intro h
    rw [h] at hinner
    cases hinner
  rw [parse, if_neg hstar, hinner]
  simp only [hsplit]
  rw [readEnd, readEnd]
  split_ifs
  · rfl
  · cases parseBound (trim upper) true <;> rfl
  · cases parseBound (trim lower) false <;> rfl
  · cases parseBound (trim lower) false with
    | error failure => rfl
    | ok lower => cases parseBound (trim upper) true <;> rfl

theorem parse_toText_between (lower upper : Option DateRangeBound) :
    parse (toText (between lower upper)) = do
      let lower ← readEnd (endText lower) false
      let upper ← readEnd (endText upper) true
      return between lower upper := by
  have hspace : ' ' ∉ endText lower := by
    cases lower with
    | none => exact (by decide : ' ' ∉ "*".toList)
    | some bound => exact (isBoundText_formatBound bound).not_mem (by decide) (by decide)
  have hinner : bracketed (unquoted (toText (between lower upper))) =
      some (endText lower ++ (" TO ".toList ++ endText upper)) := by
    rw [toText_between, unquoted_brackets, bracketed_brackets]
  rw [parse_brackets hinner (splitOnceAt_append hspace "TO ".toList (endText upper)),
    trim_endText, trim_endText]

theorem parse_toText_between_iff (lower upper : Option DateRangeBound) :
    parse (toText (between lower upper)) = .ok (between lower upper) ↔
      (∀ bound ∈ lower, parseBound (formatBound bound) false = .ok bound) ∧
        ∀ bound ∈ upper, parseBound (formatBound bound) true = .ok bound := by
  rw [← readEnd_endText, ← readEnd_endText, parse_toText_between]
  constructor
  · intro h
    obtain ⟨lower, hlower, h⟩ := bind_eq_ok.1 h
    obtain ⟨upper, hupper, h⟩ := bind_eq_ok.1 h
    obtain ⟨rfl, rfl⟩ := between_inj.1 (Except.ok.inj h)
    exact ⟨hlower, hupper⟩
  · rintro ⟨hlower, hupper⟩
    rw [hlower, hupper]
    rfl

theorem parse_formatBound_iff (bound : DateRangeBound) :
    parse (formatBound bound) = .ok (single bound) ↔
      parseBound (formatBound bound) false = .ok bound := by
  have htext := isBoundText_formatBound bound
  rw [parse, htext.unquoted_eq, if_neg htext.ne_star, htext.bracketed_eq]
  cases parseBound (formatBound bound) false with
  | ok bound' => simp [bind, Except.bind, pure, Except.pure]
  | error failure => simp [bind, Except.bind]

theorem parse_star : parse "*".toList = .ok singleOpen := by
  have hstar : unquoted "*".toList = "*".toList := by decide
  rw [parse, if_pos hstar]

/-- A range is read back when its bounds are. -/
theorem parse_toText_iff (range : DateRange) : parse (toText range) = .ok range ↔
    (∀ bound ∈ range.lower, parseBound (formatBound bound) false = .ok bound) ∧
      ∀ bound ∈ range.upper, parseBound (formatBound bound) true = .ok bound := by
  cases range with
  | single bound =>
    have hlower : (single bound).lower = some bound := rfl
    rw [hlower, and_iff_left nofun]
    simp only [Option.mem_def, Option.some.injEq, forall_eq']
    exact parse_formatBound_iff bound
  | singleOpen => exact iff_of_true parse_star ⟨nofun, nofun⟩
  | closed lower upper => exact parse_toText_between_iff (some lower) (some upper)
  | openUpper lower => exact parse_toText_between_iff (some lower) none
  | openLower upper => exact parse_toText_between_iff none (some upper)
  | bothOpen => exact parse_toText_between_iff none none

/-- Both ends of an accepted text are read from its pieces. -/
theorem readEnd_ends {text : List Char} {range : DateRange} (h : parse text = .ok range) :
    readEnd (ends text).1 false = .ok range.lower ∧
      readEnd (ends text).2 true = .ok range.upper := by
  by_cases hstar : unquoted text = "*".toList
  · rw [parse, if_pos hstar] at h
    cases h
    have hnone : bracketed "*".toList = none := rfl
    rw [ends, hstar, hnone]
    exact ⟨if_pos rfl, if_pos rfl⟩
  cases hinner : bracketed (unquoted text) with
  | none =>
    rw [parse, if_neg hstar, hinner] at h
    obtain ⟨bound, hbound, h⟩ := bind_eq_ok.1 h
    cases h
    rw [ends, hinner]
    refine ⟨?_, if_pos rfl⟩
    rw [readEnd, if_neg hstar, hbound]
    rfl
  | some inner =>
    cases hsplit : splitOnceAt " TO ".toList inner with
    | none =>
      rw [parse, if_neg hstar, hinner] at h
      simp only [hsplit] at h
      cases h
    | some pieces =>
      obtain ⟨lower, upper⟩ := pieces
      rw [parse_brackets hinner hsplit] at h
      obtain ⟨lower, hlower, h⟩ := bind_eq_ok.1 h
      obtain ⟨upper, hupper, h⟩ := bind_eq_ok.1 h
      obtain rfl := Except.ok.inj h
      rw [ends, hinner]
      simp only [hsplit]
      rw [hlower, hupper]
      cases lower <;> cases upper <;> exact ⟨rfl, rfl⟩

/-- The bounds of a range are instants, the first and the last ones of their units. -/
structure IsRounded (range : DateRange) : Prop where
  lower : ∀ bound ∈ range.lower, ∃ value,
    ChronoUtc.fromTimestampMillis bound.millis = some value ∧
      IsLeast (unit bound.precision value) bound.millis
  upper : ∀ bound ∈ range.upper, ∃ value,
    ChronoUtc.fromTimestampMillis bound.millis = some value ∧
      IsGreatest (unit bound.precision value) bound.millis

/-- The bounds of a range are the first and the last milliseconds that are written like its text. -/
structure IsExact (text : List Char) (range : DateRange) : Prop where
  lower : ∀ bound ∈ range.lower,
    IsLeast (renderings bound.precision (ends text).1) bound.millis
  upper : ∀ bound ∈ range.upper,
    IsGreatest (renderings bound.precision (ends text).2) bound.millis

/-- A range lies from the year 0 on and before the end of the calendar, and its upper bound is the
last millisecond of its second where it is a millisecond. -/
structure IsReadable (range : DateRange) : Prop where
  lower : ∀ bound ∈ range.lower, yearZero ≤ bound.millis
  upper : ∀ bound ∈ range.upper, yearZero ≤ bound.millis ∧ bound.millis + 1 < limit ∧
    (bound.precision = .millisecond → bound.millis % 1000 = 999)

/-- The ends of a text are written as bounds are, and the upper one is a full second where it has a
fraction. -/
structure IsFormatted (text : List Char) : Prop where
  lower : (ends text).1 = "*".toList ∨ IsWritten (ends text).1
  upper : (ends text).2 = "*".toList ∨ IsWritten (ends text).2 ∧ FullSecond (ends text).2

theorem readEnd_eq_ok {text : List Char} {upper : Bool} {bound : Option DateRangeBound}
    (h : readEnd text upper = .ok bound) :
    (text = "*".toList ∧ bound = none) ∨
      ∃ b, bound = some b ∧ text ≠ "*".toList ∧ parseBound text upper = .ok b := by
  rw [readEnd] at h
  split_ifs at h with hstar
  · cases h
    exact .inl ⟨hstar, rfl⟩
  · cases hread : parseBound text upper with
    | error failure =>
      rw [hread] at h
      cases h
    | ok b =>
      rw [hread] at h
      cases h
      exact .inr ⟨b, rfl, hstar, rfl⟩

variable [LawfulChronoUtc]

/-- A rounded range is read back when it is readable, and the bounds that are read are exact when
the text is a formatted one. -/
theorem text_exact_iff : (∀ range : DateRange, range.IsRounded →
      (parse (toText range) = .ok range ↔ range.IsReadable)) ∧
    ∀ (text : List Char) (range : DateRange), parse text = .ok range →
      (IsExact text range ↔ IsFormatted text) := by
  constructor
  · rintro range ⟨hlower, hupper⟩
    rw [parse_toText_iff]
    have hleast : ∀ bound ∈ range.lower,
        parseBound (formatBound bound) false = .ok bound ↔ yearZero ≤ bound.millis := by
      intro bound hbound
      obtain ⟨value, hvalue, hleast⟩ := hlower bound hbound
      exact lower_readBack_iff hvalue hleast
    have hgreatest : ∀ bound ∈ range.upper,
        parseBound (formatBound bound) true = .ok bound ↔ yearZero ≤ bound.millis ∧
          bound.millis + 1 < limit ∧
            (bound.precision = .millisecond → bound.millis % 1000 = 999) := by
      intro bound hbound
      obtain ⟨value, hvalue, hgreatest⟩ := hupper bound hbound
      exact upper_readBack_iff hvalue hgreatest
    rw [forall₂_congr hleast, forall₂_congr hgreatest]
    exact ⟨fun ⟨hlower, hupper⟩ => ⟨hlower, hupper⟩, fun h => ⟨h.lower, h.upper⟩⟩
  · intro text range h
    obtain ⟨hlower, hupper⟩ := readEnd_ends h
    have hleast : (∀ bound ∈ range.lower,
        IsLeast (renderings bound.precision (ends text).1) bound.millis) ↔
        (ends text).1 = "*".toList ∨ IsWritten (ends text).1 := by
      rcases readEnd_eq_ok hlower with ⟨hstar, hnone⟩ | ⟨bound, hbound, hstar, hread⟩
      · rw [hnone]
        exact iff_of_true nofun (.inl hstar)
      · rw [hbound, or_iff_right hstar, ← lower_exact_iff hread]
        simp only [Option.mem_def, Option.some.injEq, forall_eq']
    have hgreatest : (∀ bound ∈ range.upper,
        IsGreatest (renderings bound.precision (ends text).2) bound.millis) ↔
        (ends text).2 = "*".toList ∨ IsWritten (ends text).2 ∧ FullSecond (ends text).2 := by
      rcases readEnd_eq_ok hupper with ⟨hstar, hnone⟩ | ⟨bound, hbound, hstar, hread⟩
      · rw [hnone]
        exact iff_of_true nofun (.inl hstar)
      · rw [hbound, or_iff_right hstar, ← upper_exact_iff hread]
        simp only [Option.mem_def, Option.some.injEq, forall_eq']
    exact ⟨fun h => ⟨hleast.1 h.lower, hgreatest.1 h.upper⟩,
      fun h => ⟨hleast.2 h.lower, hgreatest.2 h.upper⟩⟩

end Ranges

section Sample

local instance : ChronoUtc := ChronoUtc.gregorian

/-- From the start of the year 2001 to the end of its last month. -/
theorem exact_lastMonth :
    parse (toText (closed ⟨978307200000, .year⟩ ⟨1009843199999, .month⟩)) =
      .ok (closed ⟨978307200000, .year⟩ ⟨1009843199999, .month⟩) := by
  let start : NaiveDateTime := ⟨2001, 1, 1, 0, 0, 0, 0, by decide, by decide⟩
  let stop : NaiveDateTime := ⟨2001, 12, 31, 23, 59, 59, 999000000, by decide, by decide⟩
  have hstart : start.IsWhole := ⟨by decide, by decide⟩
  have hstop : stop.IsWhole := ⟨by decide, by decide⟩
  refine (text_exact_iff.1 _ ⟨?_, ?_⟩).2 ⟨?_, ?_⟩
  · rintro bound ⟨⟩
    exact ⟨start, NaiveDateTime.ofMillis_eq_some.2 ⟨hstart, by decide⟩,
      (isLeast_unit_iff _ hstart).2 (by decide)⟩
  · rintro bound ⟨⟩
    exact ⟨stop, NaiveDateTime.ofMillis_eq_some.2 ⟨hstop, by decide⟩,
      (isGreatest_unit_iff _ hstop).2 (by decide)⟩
  · rintro bound ⟨⟩
    decide
  · rintro bound ⟨⟩
    exact ⟨by decide, by decide, nofun⟩

/-- The upper bound is its own millisecond, and is read as the last one of its second. -/
theorem not_exact_millisecond :
    IsRounded (openLower ⟨978344130123, .millisecond⟩) ∧
      toText (openLower ⟨978344130123, .millisecond⟩) = "[* TO 2001-01-01T10:15:30.123Z]".toList ∧
      parse "[* TO 2001-01-01T10:15:30.123Z]".toList =
        .ok (openLower ⟨978344130999, .millisecond⟩) := by
  let value : NaiveDateTime := ⟨2001, 1, 1, 10, 15, 30, 123000000, by decide, by decide⟩
  have hvalue : value.IsWhole := ⟨by decide, by decide⟩
  have hread : (parse "[* TO 2001-01-01T10:15:30.123Z]".toList).toOption =
      some (openLower ⟨978344130999, .millisecond⟩) := by decide
  refine ⟨⟨nofun, ?_⟩, by decide, Fallible.toOption_eq_some.1 hread⟩
  rintro bound ⟨⟩
  exact ⟨value, NaiveDateTime.ofMillis_eq_some.2 ⟨hvalue, by decide⟩,
    (isGreatest_unit_iff _ hvalue).2 (by decide)⟩

end Sample

end DateRange

end Cdm
