import Cdm.Feature.ExtractJson

/-!
# What the settings of the extraction ask for

`overwrite` says whether a populated column is replaced: a helper that a writer may consult.
-/

namespace Cdm

/-- A JSON value goes into a column of a primitive type, as bytes unless it is null. -/
theorem JsonValue.encode_eq_ok [LiteralParsers] [SerdeJson] {value : JsonValue}
    {cqlType : CqlTypeInfo} {cell : RawCell} (h : value.encode cqlType = .ok cell)
    (hnull : value ≠ .null) :
    ∃ bytes kind, cell = some bytes ∧ cqlType = .primitive kind := by
  have hscalar {text literal : String} {bytes : Bytes}
      (h : Literal.encodeScalar text cqlType literal = .ok bytes) :
      ∃ kind, cqlType = .primitive kind := by
    cases cqlType with
    | primitive kind => exact ⟨kind, rfl⟩
    | _ => cases h
  have hsome {text literal : String}
      (h : (Literal.encodeScalar text cqlType literal).map some = .ok cell) :
      ∃ bytes kind, cell = some bytes ∧ cqlType = .primitive kind := by
    obtain ⟨bytes, hbytes, rfl⟩ := Fallible.map_eq_ok.1 h
    obtain ⟨kind, hkind⟩ := hscalar hbytes
    exact ⟨bytes, kind, rfl, hkind⟩
  have hcompound (h : value.encodeCompound cqlType = .ok cell) :
      ∃ bytes kind, cell = some bytes ∧ cqlType = .primitive kind := by
    rw [encodeCompound] at h
    split_ifs at h
    exact hsome h
  cases value with
  | null => exact absurd rfl hnull
  | bool flag => exact hsome h
  | number text => exact hsome h
  | string text => exact hsome h
  | array elements => exact hcompound h
  | object fields => exact hcompound h

namespace ExtractJsonPlan

variable (plan : ExtractJsonPlan)

/-- Whether the extracted value should replace what the target already holds. -/
def writesOver (current : Option RawCell) : Bool :=
  if plan.overwrite then true
  else
    match current with
    | none => true
    | some cell => cell.isNone

variable [LiteralParsers] [SerdeJson]

/-- The value that the path addresses in a document cell: none in a null or blank cell, and in one
that is no document. -/
def addressed : RawCell → Option JsonValue
  | none => none
  | some bytes =>
    match String.fromUTF8? ⟨bytes.toArray⟩ with
    | none => none
    | some text =>
      if Text.trim text.toList = [] then none
      else
        match SerdeJson.fromStr text with
        | .error _ => none
        | .ok document => plan.path.resolve document

/-- What an extraction shows: the old cell where the path addresses nothing, null for a JSON null,
and otherwise the property, encoded for the type of the column. -/
def Shows (old : RawCell) : Option JsonValue → RawCell → Prop
  | none, after => after = old
  | some .null, after => after = none
  | some value, after => value.encode plan.targetType = .ok after

/-- **What the cell of the extract column is to be**: what the extraction shows, unless it is
populated and not to be overwritten. -/
def Says (old : RawCell) (value : Option JsonValue) (after : RawCell) : Prop :=
  if plan.writesOver (some old) then plan.Shows old value after else after = old

/-- Nothing is lost when the encoded property is written, whatever the column holds, and nothing is
written otherwise. -/
def Harmless (old : RawCell) : Option JsonValue → Prop
  | none => True
  | some .null => plan.overwrite = false ∨ old = none
  | some value => plan.overwrite = true ∨ old = none ∨ value.encode plan.targetType = .ok old

variable {plan}

omit [LiteralParsers] [SerdeJson] in
theorem writesOver_some {old : RawCell} :
    plan.writesOver (some old) = true ↔ plan.overwrite = true ∨ old = none := by
  rw [writesOver]
  cases plan.overwrite with
  | false => simp
  | true => simp

/-- What is extracted is the value that is addressed, encoded. -/
theorem extract_eq {cell : RawCell} {extracted : Option RawCell}
    (h : plan.extract cell = .ok extracted) :
    (plan.addressed cell = none ∧ extracted = none) ∨
      ∃ value out, plan.addressed cell = some value ∧ value.encode plan.targetType = .ok out ∧
        extracted = some out := by
  cases cell with
  | none =>
    cases h
    exact .inl ⟨rfl, rfl⟩
  | some bytes =>
    rw [extract] at h
    rw [addressed]
    cases htext : String.fromUTF8? ⟨bytes.toArray⟩ with
    | none =>
      rw [htext] at h
      cases h
    | some text =>
      rw [htext] at h
      dsimp only at h ⊢
      split_ifs at h ⊢
      · cases h
        exact .inl ⟨rfl, rfl⟩
      cases hdocument : SerdeJson.fromStr text with
      | error e =>
        rw [hdocument] at h
        cases h
      | ok document =>
        rw [hdocument] at h
        dsimp only at h ⊢
        rw [extractProperty] at h
        cases hvalue : plan.path.resolve document with
        | none =>
          rw [hvalue] at h
          cases h
          exact .inl ⟨rfl, rfl⟩
        | some value =>
          rw [hvalue] at h
          obtain ⟨out, hout, heq⟩ := Fallible.map_eq_ok.1 h
          exact .inr ⟨value, out, rfl, hout, heq.symm⟩

/-- A property is shown as what it encodes to. -/
theorem shows_some_iff {value : JsonValue} {old after : RawCell} :
    plan.Shows old (some value) after ↔ value.encode plan.targetType = .ok after := by
  cases value with
  | null => exact ⟨fun h => h ▸ rfl, fun h => (Except.ok.inj h).symm⟩
  | _ => rfl

/-- The cell is kept where nothing is addressed or a populated column is not to be overwritten, and
is otherwise the encoded property. -/
theorem says_iff_kept {value : Option JsonValue} {old after : RawCell} :
    plan.Says old value after ↔
      (value = none ∨ plan.overwrite = false ∧ old ≠ none → after = old) ∧
        ∀ property, value = some property → plan.overwrite = true ∨ old = none →
          property.encode plan.targetType = .ok after := by
  rw [Says]
  split_ifs with hwrites
  · rw [writesOver_some] at hwrites
    have hnot : ¬(plan.overwrite = false ∧ old ≠ none) := by
      rintro ⟨hkeeps, hne⟩
      exact hwrites.elim (by simp [hkeeps]) hne
    cases value with
    | none =>
      refine ⟨fun h => ⟨fun _ => h, fun property h => by cases h⟩, fun h => h.1 (.inl rfl)⟩
    | some value =>
      rw [shows_some_iff]
      refine ⟨fun h => ⟨?_, ?_⟩, fun h => h.2 value rfl hwrites⟩
      · rintro (hnone | hkeeps)
        · cases hnone
        · exact absurd hkeeps hnot
      · rintro property ⟨⟩ -
        exact h
  · rw [writesOver_some, not_or, Bool.not_eq_true] at hwrites
    refine ⟨fun h => ⟨fun _ => h, fun property _ h' => ?_⟩, fun h => h.1 (.inr hwrites)⟩
    exact absurd h' (not_or.2 ⟨by simp [hwrites.1], hwrites.2⟩)

/-- A property that is not null does no harm where it may be written, or is there already. -/
theorem harmless_iff {value : JsonValue} {bytes : Bytes} {old : RawCell}
    (h : value.encode plan.targetType = .ok (some bytes)) :
    plan.Harmless old (some value) ↔
      plan.writesOver (some old) = true ∨ old = some bytes := by
  rw [writesOver_some, or_assoc]
  cases value with
  | null => cases h
  | _ =>
    rw [Harmless, h, Except.ok.injEq, eq_comm (a := some bytes)]
    exact fun hnull => by cases hnull

/-- A write that sets the cell of the extract column to the bytes that were extracted, and leaves it
where there are none, does what the settings ask for exactly when it is harmless. -/
theorem says_iff {cell old : RawCell} {extracted : Option RawCell}
    (h : plan.extract cell = .ok extracted) :
    plan.Says old (plan.addressed cell) (extracted.join.or old) ↔
      plan.Harmless old (plan.addressed cell) := by
  rw [Says]
  rcases extract_eq h with ⟨haddressed, rfl⟩ | ⟨value, out, haddressed, hencode, rfl⟩
  · rw [haddressed]
    have hshows : plan.Shows old none old := rfl
    exact ⟨fun _ => trivial, fun _ => by split_ifs; exacts [hshows, rfl]⟩
  have hshows (after : RawCell) : plan.Shows old (some value) after ↔ after = out := by
    rw [shows_some_iff, hencode, Except.ok.injEq, eq_comm]
  rw [haddressed, Option.join_some, hshows]
  cases out with
  | none =>
    have hnull : value = .null := by
      by_contra hne
      obtain ⟨bytes, kind, hsome, -⟩ := JsonValue.encode_eq_ok hencode hne
      cases hsome
    subst hnull
    rw [Option.none_or, Harmless]
    split_ifs with hwrites
    · rw [writesOver_some] at hwrites
      constructor
      · exact .inr
      · rintro (hkeeps | hnone)
        · exact hwrites.resolve_left (by simp [hkeeps])
        · exact hnone
    · rw [writesOver_some, not_or] at hwrites
      exact ⟨fun _ => .inl (Bool.eq_false_of_not_eq_true hwrites.1), fun _ => rfl⟩
  | some bytes =>
    rw [Option.some_or, harmless_iff hencode]
    split_ifs with hwrites
    · exact ⟨fun _ => .inl hwrites, fun _ => rfl⟩
    · exact ⟨fun hsame => .inr hsame.symm, fun h => (h.resolve_left hwrites).symm⟩

end ExtractJsonPlan

end Cdm
