import Cdm.Cql.Bound

/-!
# Counter columns

A counter column is declared `counter`, in any case and possibly inside `frozen<…>`.  Whatever the
planner makes of the pair of types, such a column is neither converted nor mistaken for a collection,
as long as no codec converts into a counter: what is bound for it is the cell of the origin column
it reads.
-/

namespace Cdm

open List Text
open Fallible

namespace CqlTypeInfo

/-! ### The type of a counter column -/

section Parse

variable [AlphanumericTable]

theorem isNameChar_of_isAlpha {c : Char} (h : c.isAlpha = true) : isNameChar c = true := by
  have hn := toNat_of_isAlpha h
  have hascii : AlphanumericTable.isAlphanumeric c = true := by
    rw [AlphanumericTable.of_ascii c (by omega), Char.isAlphanum, h, Bool.true_or]
  rw [isNameChar, hascii]
  rfl

/-- A word of letters is read to its end, and on through the characters that could continue it. -/
theorem identifier_word {text before word after : List Char}
    (hbefore : ∀ c ∈ before, isWhitespace c = true) (hne : word ≠ [])
    (hword : ∀ c ∈ word, c.isAlpha = true) :
    identifier text (before ++ (word ++ after)) =
      .ok (word ++ after.takeWhile isNameChar, after.dropWhile isNameChar) := by
  obtain ⟨c, cs, rfl⟩ := exists_cons_of_ne_nil hne
  have hc := hword c mem_cons_self
  have hn := toNat_of_isAlpha hc
  have hskip : skipWhitespace (before ++ (c :: cs ++ after)) = c :: cs ++ after := by
    rw [skipWhitespace, dropWhile_append_of_pos hbefore]
    exact dropWhile_cons_of_neg (by simp [isWhitespace_of_isAlpha hc])
  have hsingle : c ≠ singleQuote := by
    rintro rfl
    exact absurd hn (by decide)
  have hdouble : c ≠ doubleQuote := by
    rintro rfl
    exact absurd hn (by decide)
  have hname : ∀ d ∈ c :: cs, isNameChar d = true := fun d hd => isNameChar_of_isAlpha (hword d hd)
  simp only [identifier, hskip]
  rw [if_neg (by simpa using hsingle), if_neg (by simpa using hdouble),
    takeWhile_append_of_pos hname, dropWhile_append_of_pos hname,
    if_neg (by simp)]

/-- What a counter column is planned as: a counter, or a UDT of unknown fields where the character
table takes trailing white space for a part of the name. -/
def PlannedAsCounter (cqlType : CqlTypeInfo) : Prop :=
  cqlType = primitive .counter ∨ ∃ keyspace name frozen, cqlType = udt keyspace name [] frozen

omit [AlphanumericTable] in
theorem head?_toLower_counter {word : List Char} (hword : toLower word = "counter".toList)
    (suffix : List Char) :
    (String.ofList (toLower (word ++ suffix))).toList.head? = some 'c' := by
  rw [String.toList_ofList, toLower, map_append, ← toLower, hword]
  rfl

omit [AlphanumericTable] in
/-- Of the names that start as `counter` does, only `counter` is one of a primitive. -/
theorem primitiveNamed_counter {lower : String} {kind : Primitive}
    (h : primitiveNamed lower = some kind) (hlower : lower.toList.head? = some 'c') :
    kind = .counter := by
  obtain ⟨names, others, hnames, -⟩ := lookup_eq_some_iff.1 h
  have hmem : (lower, kind) ∈ names ++ (lower, kind) :: others := by simp
  rw [← hnames] at hmem
  simp only [mem_cons, Prod.mk.injEq, not_mem_nil, or_false] at hmem
  rcases hmem with h | h | h | h | h | h | h | h | h | h | h | h | h | h | h | h | h | h | h | h | h
  all_goals first
    | exact h.2
    | rw [h.1] at hlower
      exact absurd hlower (by decide)

omit [AlphanumericTable] in
/-- A name that starts as `counter` does is no DSE type, nor is a UDT known by it. -/
theorem leaf_counter {word suffix : List Char} (hword : toLower word = "counter".toList)
    (frozen : Bool) :
    PlannedAsCounter (leaf (fun _ _ => none) (word ++ suffix)
      (String.ofList (toLower (word ++ suffix))) frozen) := by
  have hlower := head?_toLower_counter hword suffix
  rw [leaf]
  split
  · rename_i kind hkind
    exact .inl (by rw [primitiveNamed_counter hkind hlower])
  · have hdse : dseTypes.find? (fun entry => entry.1 = String.ofList (word ++ suffix) ||
        entry.1 = String.ofList (toLower (word ++ suffix))) = none := by
      have hnames : ∀ entry ∈ dseTypes, entry.1.toList.head?.map Char.toLower ≠ some 'c' := by
        decide
      rw [find?_eq_none]
      intro entry hentry
      rw [Bool.or_eq_true, decide_eq_true_eq, decide_eq_true_eq]
      rintro (heq | heq)
      · refine hnames entry hentry ?_
        rw [heq, String.toList_ofList, ← head?_map]
        rwa [String.toList_ofList] at hlower
      · refine hnames entry hentry ?_
        rw [heq, hlower]
        rfl
    rw [hdse]
    exact .inr ⟨_, _, _, rfl⟩

/-- A counter is planned as one, whatever stands around its name. -/
theorem parseTypeInner_counter (resolver : UdtResolver) (text : List Char)
    {before word : List Char} (hbefore : ∀ c ∈ before, isWhitespace c = true)
    (hword : toLower word = "counter".toList) (after : List Char) (fuel : ℕ) (frozen : Bool) :
    ∃ suffix rest, parseTypeInner resolver text (fuel + 1) frozen (before ++ (word ++ after)) =
      .ok (leaf resolver (word ++ suffix) (String.ofList (toLower (word ++ suffix))) frozen,
        rest) := by
  have halpha := isAlpha_of_toLower hword (by simp)
  have hne : word ≠ [] := by
    rintro rfl
    cases hword
  refine ⟨after.takeWhile isNameChar, after.dropWhile isNameChar, ?_⟩
  rw [parseTypeInner, identifier_word hbefore hne halpha]
  have hlower := head?_toLower_counter hword (after.takeWhile isNameChar)
  simp only [bind, Except.bind]
  -- the name starts with a `c`, so it is none of the keywords
  split
  all_goals first
    | rfl
    | rename_i hkeyword
      rw [hkeyword] at hlower
      exact absurd hlower (by decide)

theorem isNameChar_lt : isNameChar '<' = false := by
  rw [isNameChar, AlphanumericTable.of_ascii _ (by decide)]
  decide

/-- The type in the brackets of `frozen<…>`. -/
theorem parseTypeInner_frozen {resolver : UdtResolver} {text before keyword inner rest : List Char}
    (hbefore : ∀ c ∈ before, isWhitespace c = true)
    (hkeyword : toLower keyword = "frozen".toList) {fuel : ℕ} {frozen : Bool}
    {parsed : CqlTypeInfo}
    (h : parseTypeInner resolver text (fuel + 1) frozen (before ++ (keyword ++ '<' :: inner)) =
      .ok (parsed, rest)) :
    ∃ rest, parseTypeInner resolver text fuel true inner = .ok (parsed, rest) := by
  have halpha := isAlpha_of_toLower hkeyword (by simp)
  have hne : keyword ≠ [] := by
    rintro rfl
    cases hkeyword
  rw [parseTypeInner, identifier_word hbefore hne halpha,
    takeWhile_cons_of_neg (by simp [isNameChar_lt]),
    dropWhile_cons_of_neg (by simp [isNameChar_lt]), append_nil] at h
  have hfrozen : String.ofList (toLower keyword) = "frozen" := by
    rw [hkeyword]
    rfl
  simp only [bind, Except.bind, hfrozen] at h
  -- the bracket is eaten, so the inner type is what is left of the computation
  have hbind : (parseTypeInner resolver text fuel true inner >>= fun found =>
      eat text '>' found.2 >>= fun rest => .ok (found.1, rest)) = .ok (parsed, rest) := h
  obtain ⟨⟨found, closing⟩, hfound, hbind⟩ := bind_eq_ok.1 hbind
  obtain ⟨closed, -, hbind⟩ := bind_eq_ok.1 hbind
  cases hbind
  exact ⟨closing, hfound⟩

omit [AlphanumericTable] in
/-- How the type of a counter column is spelled: the word, possibly in the brackets of `frozen<…>`,
and with white space before it. -/
theorem spelling_of_isCounter {column : ColumnMeta} (h : column.isCounter = true) :
    ∃ before word after, (∀ c ∈ before, isWhitespace c = true) ∧
      toLower word = "counter".toList ∧
      (column.cqlType.toList = before ++ (word ++ after) ∨
        ∃ lead keyword, (∀ c ∈ lead, isWhitespace c = true) ∧
          toLower keyword = "frozen".toList ∧
          column.cqlType.toList = lead ++ (keyword ++ '<' :: (before ++ (word ++ after)))) := by
  obtain ⟨lead, after, htext, hlead, -⟩ := exists_trim_padding column.cqlType.toList
  rw [ColumnMeta.isCounter, decide_eq_true_eq, ColumnMeta.unfrozen] at h
  generalize trim column.cqlType.toList = ty at htext h
  split at h
  · rename_i hfrozen
    simp only [Bool.and_eq_true, decide_eq_true_eq] at hfrozen
    obtain ⟨⟨-, hkeyword⟩, -⟩ := hfrozen
    rw [toLower, ← map_take] at hkeyword
    have hsplit : (ty.take 7).map Char.toLower = "frozen".toList ++ ['<'] := hkeyword
    obtain ⟨keyword, bracket, htake, hword, hbracket⟩ := map_eq_append_iff.1 hsplit
    obtain ⟨c, rfl, hc⟩ := map_eq_singleton_iff.1 hbracket
    obtain rfl := eq_of_toLower hc (by decide)
    -- what stands in the brackets is the trimmed word and its surroundings
    obtain ⟨inside, behind, hinside, hspace, -⟩ :=
      exists_trim_padding (ty.drop 7).dropLast
    generalize trim (ty.drop 7).dropLast = word at hinside h
    have hne : ty.drop 7 ≠ [] := by
      intro hnil
      rw [hnil, dropLast_nil] at hinside
      have hnil := (append_eq_nil_iff.1 (append_eq_nil_iff.1 hinside.symm).2).1
      rw [hnil] at h
      cases h
    have hty : ty = keyword ++ '<' :: (inside ++ (word ++ (behind ++ [(ty.drop 7).getLast hne]))) := by
      calc ty = ty.take 7 ++ ((ty.drop 7).dropLast ++ [(ty.drop 7).getLast hne]) := by
            rw [dropLast_append_getLast, take_append_drop]
        _ = _ := by
            rw [htake, hinside]
            simp only [append_assoc, cons_append, nil_append]
    refine ⟨inside, word, behind ++ [(ty.drop 7).getLast hne] ++ after, hspace, h,
      .inr ⟨lead, keyword, hlead, hword, ?_⟩⟩
    rw [htext]
    nth_rewrite 1 [hty]
    simp only [append_assoc, cons_append]
  · exact ⟨lead, ty, after, hlead, h, .inl htext⟩

/-- The type of a counter column. -/
theorem parse_counter {column : ColumnMeta} {cqlType : CqlTypeInfo}
    (hcounter : column.isCounter = true) (hparse : parse column.cqlType = .ok cqlType) :
    PlannedAsCounter cqlType := by
  obtain ⟨⟨parsed, rest⟩, hinner, hparse⟩ := bind_eq_ok.1 hparse
  obtain rfl : parsed = cqlType := by
    dsimp only at hparse
    split at hparse
    · exact Except.ok.inj hparse
    · cases hparse
  clear hparse
  obtain ⟨before, word, after, hbefore, hword, htext⟩ := spelling_of_isCounter hcounter
  rcases htext with htext | ⟨lead, keyword, hlead, hkeyword, htext⟩
  · obtain ⟨suffix, rest', heq⟩ := parseTypeInner_counter (fun _ _ => none)
      column.cqlType.toList hbefore hword after column.cqlType.toList.length false
    rw [← htext, hinner] at heq
    cases heq
    exact leaf_counter hword false
  · obtain ⟨fuel, hfuel⟩ : ∃ fuel, column.cqlType.toList.length = fuel + 1 := by
      refine Nat.exists_eq_succ_of_ne_zero ?_
      rw [htext]
      simp
    rw [hfuel] at hinner
    nth_rewrite 2 [htext] at hinner
    obtain ⟨closing, hfrozen⟩ := parseTypeInner_frozen hlead hkeyword hinner
    obtain ⟨suffix, rest', heq⟩ := parseTypeInner_counter (fun _ _ => none)
      column.cqlType.toList hbefore hword after fuel true
    rw [hfrozen] at heq
    cases heq
    exact leaf_counter hword true

end Parse

end CqlTypeInfo

/-- Without a codec into counters, a counter column is not converted. -/
theorem CqlTypeInfo.PlannedAsCounter.isIdentity {cqlType : CqlTypeInfo} (h : cqlType.PlannedAsCounter)
    {planner : Planner}
    (hcodec : ∀ origin, planner.registry.converter origin (.primitive .counter) = none)
    (origin : CqlTypeInfo) : (planner.planTypes origin cqlType).isIdentity = true := by
  rw [Planner.planTypes.eq_def]
  split_ifs
  · rfl
  · rcases h with rfl | ⟨keyspace, name, frozen, rfl⟩
    · cases origin with
      | primitive kind =>
        simp only [hcodec]
        rfl
      | _ => rfl
    · cases origin with
      | udt keyspace' name' fields frozen' =>
        -- the fields of the target are unknown, so the planner gives up
        dsimp only
        rw [if_pos (by cases fields <;> simp)]
        rfl
      | _ => rfl

theorem CqlTypeInfo.PlannedAsCounter.not_collection {cqlType : CqlTypeInfo}
    (h : cqlType.PlannedAsCounter) :
    isMap cqlType = false ∧ isJavaCollection cqlType = false := by
  rcases h with rfl | ⟨keyspace, name, frozen, rfl⟩
  · exact ⟨rfl, rfl⟩
  · exact ⟨rfl, rfl⟩

/-! ### What is bound for a counter -/

namespace Binder

variable {binder : Binder}

section Counter

variable [AlphanumericTable] {mapping : ColumnMapping} {u : UsingClause} {statement : TargetUpsert}
  {planner : Planner} {missingKey : MissingKeyPolicy} {mapRemoveNullValue : Bool}

/-- A counter column binds the cell of the origin column it reads. -/
theorem bindColumn_counter {index : ℕ} {target : ColumnMeta} {column : ColumnBind}
    (hres : Resolves mapping planner target index column)
    (hcodec : ∀ origin, planner.registry.converter origin (.primitive .counter) = none)
    (hcounter : target.isCounter = true) {i : ℕ} (hsource : mapping.source index = some (.origin i))
    {row : Row} {bytes : Bytes} (hcell : row.cells[i]? = some (some bytes)) (inputs : BindInputs) :
    binder.bindColumn column row inputs = .ok (.value bytes) := by
  have hcolumnSource : column.source = .origin i := by
    rw [hres.source, hsource]
    rfl
  have hplanned : column.cqlType.PlannedAsCounter :=
    CqlTypeInfo.parse_counter hcounter (mapError_eq_ok.1 hres.cqlType)
  obtain ⟨originColumn, originType, -, -, hplan⟩ := hres.plan_origin hcolumnSource
  have hconvert : convert column bytes = .ok bytes := by
    rw [convert, hplan, hplanned.isIdentity hcodec]
    rfl
  have hraw : rawValue column row inputs = .ok (some bytes) :=
    (rawValue_origin_eq_ok hcolumnSource).2 (.inr ⟨bytes, bytes, hcell, hconvert, rfl⟩)
  have hpresent : binder.presentValue column bytes = .ok (.value bytes) := by
    obtain ⟨hmap, hjava⟩ := hplanned.not_collection
    simp only [presentValue, stripped, hmap, hjava, Bool.and_false, Bool.false_and]
    rfl
  rw [bindColumn, hraw]
  show (binder.presentValue column bytes).mapError some = .ok (.value bytes)
  rw [hpresent]
  rfl

/-- What is bound for a counter column is the cell of the origin column it reads. -/
theorem valueOf_counter (hstatement : TargetUpsert.new mapping u = .ok statement)
    (hbinder : new mapping statement planner missingKey mapRemoveNullValue = .ok binder)
    (hcodec : ∀ origin, planner.registry.converter origin (.primitive .counter) = none)
    {row : Row} {inputs : BindInputs} {values : BoundWrite}
    (hbind : binder.bind row inputs = .ok values) {index : ℕ} {target : ColumnMeta}
    (htarget : mapping.targetColumns[index]? = some target) (hcounter : target.isCounter = true)
    {i : ℕ} (hsource : mapping.source index = some (.origin i)) {bytes : Bytes}
    (hcell : row.cells[i]? = some (some bytes)) :
    binder.valueOf values index = some (.value bytes) := by
  have hconstant : TargetUpsert.isConstant mapping index = false := by
    rw [TargetUpsert.isConstant, hsource]
    rfl
  obtain ⟨column, value, hres, hvalue, heq⟩ :=
    valueOf_resolved hstatement hbinder hbind htarget hconstant
  rw [bindColumn_counter hres hcodec hcounter hsource hcell] at hvalue
  rw [heq, Except.ok.inj hvalue]

end Counter

end Binder

end Cdm
