import Cdm.Feature.Filter

/-!
# The CQL condition of the origin

An operator may restrict the origin scan by a condition.  It is one more conjunct of the `WHERE`
clause, and the conjunction is supplied unless the condition starts with it.
-/

namespace Cdm

open Text

/-- Whether a condition already opens with the `AND` keyword rather than merely with those
letters. -/
def startsWithAnd (condition : List Char) : Bool :=
  let rest := trimStart condition
  if toLower (rest.take 3) = "and".toList then
    match rest.drop 3 with
    | [] => true
    | c :: _ => isWhitespace c || c == '('
  else false

/-- The user's CQL predicate, appended to the origin range select. -/
structure CqlWhereFilter where
  condition : String
  deriving DecidableEq, Repr

namespace CqlWhereFilter

/-- Reads `filter.cql_where`. -/
def load (cqlWhere : Option String) : CqlWhereFilter := ⟨(trimmedProperty cqlWhere).getD ""⟩

/-- Whether a condition is configured. -/
def isEnabled (filter : CqlWhereFilter) : Bool := !filter.condition.isEmpty

/-- The fragment to append to the `WHERE` clause, `AND` included. -/
def fragment (filter : CqlWhereFilter) : String :=
  if filter.condition.isEmpty then ""
  else if startsWithAnd filter.condition.toList then " " ++ filter.condition
  else " AND " ++ filter.condition

/-- A blank and one conjunction, which is that of the condition or in front of it. -/
def IsConjunct (condition fragment : List Char) : Prop :=
  ∃ keyword rest, fragment = ' ' :: (keyword ++ rest) ∧ toLower keyword = "and".toList ∧
    (∀ c ∈ rest.head?, isWhitespace c = true ∨ c = '(') ∧
    (condition = keyword ++ rest ∨ startsWithAnd condition = false ∧ rest = ' ' :: condition)

theorem condition_load (raw : String) :
    (load (some raw)).condition.toList = trim raw.toList := by
  unfold load trimmedProperty
  simp only [Option.map_some, Option.filter]
  split
  · rw [Option.getD_some, String.toList_ofList]
  · rename_i hempty
    have hnil : trim raw.toList = [] := by
      simpa using hempty
    rw [hnil]
    rfl

theorem isEnabled_load (raw : String) :
    (load (some raw)).isEnabled = true ↔ trim raw.toList ≠ [] := by
  rw [← condition_load, isEnabled]
  simp

theorem isEmpty_iff_toList {text : String} : text.isEmpty = true ↔ text.toList = [] := by
  rw [String.isEmpty_iff, String.toList_eq_nil_iff]

/-- What the fragment of a condition is. -/
theorem toList_fragment_load (raw : String) : (load (some raw)).fragment.toList =
    if trim raw.toList = [] then []
    else if startsWithAnd (trim raw.toList) = true then ' ' :: trim raw.toList
    else ' ' :: 'A' :: 'N' :: 'D' :: ' ' :: trim raw.toList := by
  have hblank : " ".toList = [' '] := rfl
  have hand : " AND ".toList = [' ', 'A', 'N', 'D', ' '] := rfl
  rw [fragment, condition_load]
  by_cases hempty : trim raw.toList = []
  · have hcondition : (load (some raw)).condition.isEmpty = true :=
      isEmpty_iff_toList.2 ((condition_load raw).trans hempty)
    rw [if_pos hcondition, if_pos hempty]
    rfl
  · have hcondition : ¬ (load (some raw)).condition.isEmpty = true := fun h =>
      hempty ((condition_load raw).symm.trans (isEmpty_iff_toList.1 h))
    rw [if_neg hcondition, if_neg hempty]
    split_ifs
    · rw [String.toList_append, hblank, condition_load]
      rfl
    · rw [String.toList_append, hand, condition_load]
      rfl

/-- A condition that opens with the conjunction is the conjunction and what may follow a word. -/
theorem startsWithAnd_iff {condition : List Char} (h : trimStart condition = condition) :
    startsWithAnd condition = true ↔ toLower (condition.take 3) = "and".toList ∧
      ∀ c ∈ (condition.drop 3).head?, isWhitespace c = true ∨ c = '(' := by
  rw [startsWithAnd, h]
  by_cases hkeyword : toLower (condition.take 3) = "and".toList
  · rw [if_pos hkeyword]
    cases condition.drop 3 with
    | nil => simp [hkeyword]
    | cons c rest => simp [hkeyword]
  · rw [if_neg hkeyword]
    exact ⟨fun h => absurd h Bool.false_ne_true, fun h => absurd h.1 hkeyword⟩

/-- **One conjunction** stands in front of a condition that is not blank. -/
theorem conjunct_fragment {raw : String} (h : trim raw.toList ≠ []) :
    IsConjunct (trim raw.toList) (load (some raw)).fragment.toList := by
  rw [toList_fragment_load, if_neg h]
  have hstart : trimStart (trim raw.toList) = trim raw.toList :=
    dropWhile_isWhitespace_of_head head_trim
  generalize trim raw.toList = condition at *
  split_ifs with hand
  · obtain ⟨hkeyword, hrest⟩ := (startsWithAnd_iff hstart).1 hand
    have hsplit : condition = condition.take 3 ++ condition.drop 3 :=
      (List.take_append_drop 3 condition).symm
    exact ⟨condition.take 3, condition.drop 3, congrArg _ hsplit, hkeyword, hrest, .inl hsplit⟩
  · refine ⟨['A', 'N', 'D'], ' ' :: condition, rfl, rfl, ?_,
      .inr ⟨Bool.eq_false_of_not_eq_true hand, rfl⟩⟩
    rintro c ⟨⟩
    exact .inl rfl

/-- A conjunction that is supplied is no white space. -/
theorem trim_and_append {condition : List Char}
    (hne : condition ≠ []) (hlast : ∀ c ∈ condition.getLast?, isWhitespace c = false) :
    trim (' ' :: 'A' :: 'N' :: 'D' :: ' ' :: condition) =
      'A' :: 'N' :: 'D' :: ' ' :: condition := by
  refine trim_append (w := [' ']) (s := 'A' :: 'N' :: 'D' :: ' ' :: condition) ?_ ?_ ?_
  · intro c hc
    obtain rfl := List.mem_singleton.1 hc
    rfl
  · rintro c ⟨⟩
    rfl
  · intro c hc
    refine hlast c ?_
    obtain ⟨d, rest, rfl⟩ := List.exists_cons_of_ne_nil hne
    simpa using hc

/-- **A condition is its own fragment up to white space** if it is blank, or starts with the
conjunction. -/
theorem trim_eq_trim_fragment_iff {raw : String} :
    trim (load (some raw)).fragment.toList = trim raw.toList ↔
      trim raw.toList = [] ∨ startsWithAnd (trim raw.toList) = true := by
  have hhead : ∀ c ∈ (trim raw.toList).head?, isWhitespace c = false := head_trim
  have hlast : ∀ c ∈ (trim raw.toList).getLast?, isWhitespace c = false := last_trim
  rw [toList_fragment_load]
  generalize trim raw.toList = condition at *
  by_cases hempty : condition = []
  · rw [if_pos hempty, hempty]
    exact ⟨fun _ => .inl rfl, fun _ => rfl⟩
  rw [if_neg hempty]
  split_ifs with hand
  · refine ⟨fun _ => .inr hand, fun _ => trim_append (w := [' ']) ?_ hhead hlast⟩
    intro c hc
    obtain rfl := List.mem_singleton.1 hc
    rfl
  · -- the conjunction that is supplied makes the fragment longer
    rw [trim_and_append hempty hlast]
    refine ⟨fun h => ?_, fun h => absurd (h.resolve_left hempty) hand⟩
    have hlength := congrArg List.length h
    simp only [List.length_cons] at hlength
    omega

/-- **A condition is its own fragment** if it is empty, or if it starts with a blank, and then with
the conjunction, and does not end with white space. -/
theorem eq_fragment_iff {raw : String} : raw = (load (some raw)).fragment ↔
    raw = "" ∨ startsWithAnd (trim raw.toList) = true ∧
      raw.toList = ' ' :: trim raw.toList := by
  have htrim := (@trim_eq_trim_fragment_iff raw).1
  rw [← String.toList_inj, toList_fragment_load] at *
  have hnil : raw = "" ↔ raw.toList = [] := String.toList_eq_nil_iff.symm
  rw [hnil]
  by_cases hempty : trim raw.toList = []
  · rw [if_pos hempty, hempty]
    have hnot : ¬ startsWithAnd [] = true := by decide
    exact ⟨.inl, fun h => h.resolve_right fun h => hnot h.1⟩
  rw [if_neg hempty] at *
  have hne : raw.toList ≠ [] := by
    intro h
    rw [h] at hempty
    exact hempty rfl
  constructor
  · intro h
    have hand := (htrim (congrArg trim h).symm).resolve_left hempty
    rw [if_pos hand] at h
    exact .inr ⟨hand, h⟩
  · intro h
    obtain ⟨hand, h⟩ := h.resolve_left hne
    rwa [if_pos hand]

end CqlWhereFilter

end Cdm
