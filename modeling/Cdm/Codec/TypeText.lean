import Cdm.Codec.TypeGrammar

/-!
# The text of a type

The text of a column's type in the schema is all that is known of the type.  A text is spelled from
a tree by `spelled`, which leaves open how the name of a UDT is spelled, and the parser is followed
over it: each nested type is read exactly to its end, which is where the text goes on with a comma
or a bracket.
-/

namespace Cdm

open List Text

namespace CqlTypeInfo

/-! ### Spelling -/

/-- A body, and `frozen<…>` around it if need be. -/
def frozenText (frozen : Bool) (body : List Char) : List Char :=
  if frozen then ['f', 'r', 'o', 'z', 'e', 'n', '<'] ++ (body ++ ['>']) else body

/-- Further arguments of a type, each behind a comma. -/
def furtherText (args : List (List Char)) : List Char := args.flatMap fun arg => ',' :: ' ' :: arg

mutual

/-- The text of a type, with the names of UDTs spelled by `word`. -/
def spelled (word : Option String → String → List Char) : CqlTypeInfo → List Char
  | primitive kind => kind.asStr.toList
  | list element frozen =>
    frozenText frozen (['l', 'i', 's', 't', '<'] ++ (spelled word element ++ ['>']))
  | set element frozen =>
    frozenText frozen (['s', 'e', 't', '<'] ++ (spelled word element ++ ['>']))
  | map key value frozen =>
    frozenText frozen (['m', 'a', 'p', '<'] ++
      (spelled word key ++ (furtherText [spelled word value] ++ ['>'])))
  | tuple elements =>
    ['t', 'u', 'p', 'l', 'e', '<'] ++ (((spelledAll word elements).headD [] ++
      furtherText (spelledAll word elements).tail) ++ ['>'])
  | udt keyspace name _ frozen => frozenText frozen (word keyspace name)
  | vector element dimensions =>
    ['v', 'e', 'c', 't', 'o', 'r', '<'] ++ (spelled word element ++
      (furtherText [Nat.toDigits 10 dimensions] ++ ['>']))
  | custom name => name.toList

def spelledAll (word : Option String → String → List Char) : List CqlTypeInfo → List (List Char)
  | [] => []
  | element :: elements => spelled word element :: spelledAll word elements

end

/-- A name as it is, behind its keyspace. -/
def plainWord (keyspace : Option String) (name : String) : List Char :=
  (keyspace.elim [] fun ks => ks.toList ++ ['.']) ++ name.toList

theorem toList_intercalate_cons (arg : String) (args : List String) :
    (", ".intercalate (arg :: args)).toList = arg.toList ++ furtherText (args.map String.toList) := by
  induction args generalizing arg with
  | nil => simp [furtherText]
  | cons other args ih =>
    rw [String.intercalate_cons_cons, String.toList_append, String.toList_append, ih]
    simp [furtherText]

theorem toList_wrapped (frozen : Bool) (keyword : String) (args : List String) :
    (wrapped frozen keyword args).toList =
      frozenText frozen (keyword.toList ++ ('<' :: ((", ".intercalate args).toList ++ ['>']))) := by
  rw [wrapped, frozenText]
  split_ifs with h
  · simp
  · simp

mutual

/-- What a type is displayed as is its text with the names as they are. -/
theorem toList_render : ∀ t : CqlTypeInfo, (render t).toList = spelled plainWord t
  | primitive kind => by rw [render, spelled]
  | list element frozen => by
    rw [render, toList_wrapped, toList_intercalate_cons, toList_render element, spelled]
    simp [furtherText]
  | set element frozen => by
    rw [render, toList_wrapped, toList_intercalate_cons, toList_render element, spelled]
    simp [furtherText]
  | map key value frozen => by
    rw [render, toList_wrapped, toList_intercalate_cons, toList_render key, spelled, map_cons,
      toList_render value]
    simp
  | tuple elements => by
    rw [render, toList_wrapped, spelled, ← toList_renderAll elements]
    cases renderAll elements with
    | nil => simp [frozenText, furtherText]
    | cons arg args =>
      rw [toList_intercalate_cons]
      simp [frozenText]
  | udt keyspace name _ frozen => by
    cases keyspace with
    | none => cases frozen <;> simp [render, spelled, frozenText, plainWord]
    | some ks => cases frozen <;> simp [render, spelled, frozenText, plainWord]
  | vector element dimensions => by
    rw [render, spelled, ← toList_render element]
    simp [furtherText, toString, Nat.repr]
  | custom name => by rw [render, spelled]

theorem toList_renderAll : ∀ elements : List CqlTypeInfo,
    (renderAll elements).map String.toList = spelledAll plainWord elements
  | [] => rfl
  | element :: elements => by
    rw [renderAll, map_cons, toList_render element, toList_renderAll elements, spelledAll]

end

/-! ### The tree of a text -/

/-- The trees that have a text to be read back from, with the UDTs that are `named`: no custom
types, no tuples without components, a number of dimensions that is a `usize`, and no fields of
UDTs, which the text does not tell. -/
inductive Spellable (named : Option String → String → Prop) : CqlTypeInfo → Prop
  | primitive (kind : Primitive) : Spellable named (primitive kind)
  | list {element : CqlTypeInfo} (frozen : Bool) (h : Spellable named element) :
    Spellable named (list element frozen)
  | set {element : CqlTypeInfo} (frozen : Bool) (h : Spellable named element) :
    Spellable named (set element frozen)
  | map {key value : CqlTypeInfo} (frozen : Bool) (hkey : Spellable named key)
    (hvalue : Spellable named value) : Spellable named (map key value frozen)
  | tuple {elements : List CqlTypeInfo} (hne : elements ≠ [])
    (h : ∀ element ∈ elements, Spellable named element) : Spellable named (tuple elements)
  | udt {keyspace : Option String} {name : String} (frozen : Bool) (h : named keyspace name) :
    Spellable named (udt keyspace name [] frozen)
  | vector {element : CqlTypeInfo} {dimensions : ℕ} (h : Spellable named element)
    (hdim : dimensions < 2 ^ 64) : Spellable named (vector element dimensions)

mutual

/-- The tree that is read from the text of a type, if a UDT is read as `out` says. -/
def readBack (out : Option String → String → Option (Bool → CqlTypeInfo)) :
    CqlTypeInfo → Option CqlTypeInfo
  | primitive kind => some (primitive kind)
  | list element frozen => (readBack out element).map fun e => list e frozen
  | set element frozen => (readBack out element).map fun e => set e frozen
  | map key value frozen =>
    (readBack out key).bind fun k => (readBack out value).map fun v => map k v frozen
  | tuple elements => (readBackAll out elements).map tuple
  | udt keyspace name _ frozen => (out keyspace name).map fun make => make frozen
  | vector element dimensions => (readBack out element).map fun e => vector e dimensions
  | custom _ => none

def readBackAll (out : Option String → String → Option (Bool → CqlTypeInfo)) :
    List CqlTypeInfo → Option (List CqlTypeInfo)
  | [] => some []
  | element :: elements =>
    (readBack out element).bind fun e => (readBackAll out elements).map fun es => e :: es

end

section Tree

variable [AlphanumericTable] {resolver : UdtResolver} {text : List Char}
  {word : Option String → String → List Char}
  {out : Option String → String → Option (Bool → CqlTypeInfo)}
  {named : Option String → String → Prop}

/-- The frozen flag of the body is whether it is wrapped. -/
theorem reads_frozenText {body rest : List Char} {o : Bool → Option CqlTypeInfo}
    (hbody : ∀ fuel rest frozen, body.length < fuel → Delimited rest →
      Reads (parseTypeInner resolver text fuel frozen (body ++ rest)) rest (o frozen))
    {fuel : ℕ} {frozen : Bool} (hfuel : (frozenText frozen body).length < fuel)
    (hrest : Delimited rest) :
    Reads (parseTypeInner resolver text fuel false (frozenText frozen body ++ rest)) rest
      (o frozen) := by
  cases frozen with
  | false => exact hbody fuel rest false hfuel hrest
  | true =>
    obtain ⟨fuel, rfl⟩ : ∃ n, fuel = n + 1 := ⟨fuel - 1, by omega⟩
    simp only [frozenText, ↓reduceIte, length_append, length_cons, length_nil] at hfuel
    have htext : frozenText true body ++ rest =
        ['f', 'r', 'o', 'z', 'e', 'n', '<'] ++ (body ++ '>' :: rest) := by
      simp [frozenText]
    rw [htext, parseTypeInner_open_frozen]
    have hinner := hbody fuel ('>' :: rest) true (by omega) (delimited_close rest)
    have hclose := hinner.close text id
    rwa [Option.map_id] at hclose

/-- An argument after a comma. -/
theorem parseTypeInner_further {fuel : ℕ} (hfuel : 0 < fuel) (frozen : Bool) (rest : List Char) :
    parseTypeInner resolver text fuel frozen (' ' :: rest) =
      parseTypeInner resolver text fuel frozen rest := by
  obtain ⟨fuel, rfl⟩ : ∃ n, fuel = n + 1 := ⟨fuel - 1, by omega⟩
  exact parseTypeInner_space fuel frozen rest

omit [AlphanumericTable] in
theorem delimited_further (args : List (List Char)) (rest : List Char) :
    Delimited (furtherText args ++ '>' :: rest) := by
  cases args with
  | nil => exact delimited_close rest
  | cons arg args => exact delimited_comma _

/-- The components of a tuple after the first. -/
theorem reads_further {elements : List CqlTypeInfo}
    (h : ∀ element ∈ elements, ∀ fuel rest, (spelled word element).length < fuel → Delimited rest →
      Reads (parseTypeInner resolver text fuel false (spelled word element ++ rest)) rest
        (readBack out element))
    (rest : List Char) : ∀ fuel, (furtherText (spelledAll word elements)).length < fuel →
      Reads (parseTupleRest resolver text fuel (furtherText (spelledAll word elements) ++ '>' :: rest))
        ('>' :: rest) (readBackAll out elements) := by
  induction elements with
  | nil =>
    intro fuel hfuel
    obtain ⟨fuel, rfl⟩ : ∃ n, fuel = n + 1 := ⟨fuel - 1, by omega⟩
    exact parseTupleRest_end fuel (by decide) (by decide) rest
  | cons element elements ih =>
    intro fuel hfuel
    rw [forall_mem_cons] at h
    obtain ⟨fuel, rfl⟩ : ∃ n, fuel = n + 1 := ⟨fuel - 1, by omega⟩
    have htext : furtherText (spelledAll word (element :: elements)) ++ '>' :: rest =
        ',' :: ' ' :: (spelled word element ++
          (furtherText (spelledAll word elements) ++ '>' :: rest)) := by
      simp [spelledAll, furtherText]
    have hlen : (furtherText (spelledAll word (element :: elements))).length =
        (spelled word element).length + (furtherText (spelledAll word elements)).length + 2 := by
      simp [spelledAll, furtherText]
    rw [htext, parseTupleRest_comma, parseTypeInner_further (by omega), readBackAll]
    refine (h.1 fuel _ (by omega) (delimited_further _ rest)).bind (fun e he => ?_) ?_
    · exact (ih h.2 fuel (by omega)).map fun es => e :: es
    · intro e left hleft
      dsimp only
      rw [parseTupleRest_goesOn (by omega) hleft]
      rintro es behind ⟨⟩
      exact hleft

omit [AlphanumericTable] in
/-- The number of elements of a vector is read back. -/
theorem dimensions_toDigits {n : ℕ} (hn : n < 2 ^ 64) (rest : List Char) :
    dimensions text (' ' :: (Nat.toDigits 10 n ++ '>' :: rest)) = .ok (n, '>' :: rest) := by
  have hdigits : ∀ c ∈ Nat.toDigits 10 n, c.isDigit = true := fun c hc =>
    Nat.isDigit_of_mem_toDigits (by decide) (by decide) hc
  have hrest : ∀ c ∈ ('>' :: rest).head?, c.isDigit = false := by
    rintro c ⟨⟩
    decide
  have hskip : skipWhitespace (' ' :: (Nat.toDigits 10 n ++ '>' :: rest)) =
      Nat.toDigits 10 n ++ '>' :: rest := by
    obtain ⟨d, ds, hd⟩ := exists_cons_of_ne_nil (Nat.toDigits_ne_nil (n := n) (b := 10))
    have hspace : isWhitespace d = false :=
      isWhitespace_of_isDigit (hdigits d (by rw [hd]; exact mem_cons_self))
    rw [hd]
    show List.dropWhile _ (d :: (ds ++ '>' :: rest)) = _
    exact dropWhile_cons_of_neg (by simp [hspace])
  rw [dimensions, hskip, takeWhile_exact hdigits hrest, dropWhile_exact hdigits hrest,
    parseDigits_toDigits]
  exact if_pos hn

/-- The text of a type is read exactly to its end, whatever encloses it.  The induction is on the
tree; the length of the text bounds how deep the parser goes. -/
theorem reads_spelled
    (hword : ∀ keyspace name, named keyspace name → ∀ fuel frozen rest, Delimited rest →
      Reads (parseTypeInner resolver text (fuel + 1) frozen (word keyspace name ++ rest)) rest
        ((out keyspace name).map fun make => make frozen))
    {t : CqlTypeInfo} (h : Spellable named t) : ∀ fuel rest, (spelled word t).length < fuel →
      Delimited rest →
      Reads (parseTypeInner resolver text fuel false (spelled word t ++ rest)) rest
        (readBack out t) := by
  induction h with
  | primitive kind =>
    intro fuel rest hfuel hrest
    obtain ⟨fuel, rfl⟩ : ∃ n, fuel = n + 1 := ⟨fuel - 1, by omega⟩
    obtain ⟨hne, hchars, hkeyword, hleaf⟩ := asStr_facts resolver kind
    rw [spelled, parseTypeInner_leaf (identifier_exact hne hchars hrest.isNameChar) hkeyword, hleaf]
    rfl
  | @list element frozen _ ih =>
    intro fuel rest hfuel hrest
    rw [spelled] at hfuel ⊢
    refine reads_frozenText (o := fun f => (readBack out element).map fun e => list e f) ?_ hfuel hrest
    intro fuel rest frozen hfuel _
    obtain ⟨fuel, rfl⟩ : ∃ n, fuel = n + 1 := ⟨fuel - 1, by omega⟩
    simp only [length_append, length_cons, length_nil] at hfuel
    rw [append_assoc, append_assoc, parseTypeInner_open_list]
    exact (ih fuel _ (by omega) (delimited_close rest)).close text _
  | @set element frozen _ ih =>
    intro fuel rest hfuel hrest
    rw [spelled] at hfuel ⊢
    refine reads_frozenText (o := fun f => (readBack out element).map fun e => set e f) ?_ hfuel hrest
    intro fuel rest frozen hfuel _
    obtain ⟨fuel, rfl⟩ : ∃ n, fuel = n + 1 := ⟨fuel - 1, by omega⟩
    simp only [length_append, length_cons, length_nil] at hfuel
    rw [append_assoc, append_assoc, parseTypeInner_open_set]
    exact (ih fuel _ (by omega) (delimited_close rest)).close text _
  | @map key value frozen _ _ ihKey ihValue =>
    intro fuel rest hfuel hrest
    rw [spelled] at hfuel ⊢
    refine reads_frozenText (o := fun f => (readBack out key).bind fun k =>
      (readBack out value).map fun v => map k v f) ?_ hfuel hrest
    intro fuel rest frozen hfuel _
    obtain ⟨fuel, rfl⟩ : ∃ n, fuel = n + 1 := ⟨fuel - 1, by omega⟩
    simp only [furtherText, length_append, length_cons, length_nil, flatMap_cons,
      flatMap_nil, append_nil] at hfuel
    have htext : ['m', 'a', 'p', '<'] ++ (spelled word key ++ (furtherText [spelled word value] ++
        ['>'])) ++ rest = ['m', 'a', 'p', '<'] ++ (spelled word key ++
          (',' :: ' ' :: (spelled word value ++ '>' :: rest))) := by
      simp [furtherText]
    rw [htext, parseTypeInner_open_map]
    refine (ihKey fuel _ (by omega) (delimited_comma _)).bind (fun k hk => ?_) ?_
    · show Reads (parseTypeInner resolver text fuel false _ >>= _) _ _
      rw [parseTypeInner_further (by omega)]
      exact (ihValue fuel _ (by omega) (delimited_close rest)).close text _
    · intro k left hleft
      obtain ⟨e, he⟩ := eat_of_goesOn text hleft ',' (by decide) (by decide)
      dsimp only
      rw [he]
      exact reads_error
  | @tuple elements hne _ ih =>
    intro fuel rest hfuel _
    obtain ⟨fuel, rfl⟩ : ∃ n, fuel = n + 1 := ⟨fuel - 1, by omega⟩
    obtain ⟨first, others, rfl⟩ := exists_cons_of_ne_nil hne
    rw [forall_mem_cons] at ih
    rw [spelled, spelledAll, headD_cons, tail_cons] at hfuel ⊢
    simp only [length_append, length_cons, length_nil] at hfuel
    rw [append_assoc, append_assoc, append_assoc, parseTypeInner_open_tuple, readBack,
      readBackAll, Option.map_bind]
    refine (ih.1 fuel _ (by omega) (delimited_further _ rest)).bind (fun e he => ?_) ?_
    · have hothers : Reads (parseTupleRest resolver text fuel _) _ _ :=
        reads_further ih.2 rest fuel (by omega)
      have hclose := hothers.close text fun es => tuple (e :: es)
      rw [Function.comp_apply, Option.map_map]
      exact hclose
    · intro e left hleft
      obtain ⟨err, herr⟩ := eat_of_goesOn text hleft '>' (by decide) (by decide)
      dsimp only
      rw [parseTupleRest_goesOn (by omega) hleft, Fallible.ok_bind, herr]
      exact reads_error
  | @udt keyspace name frozen hnamed =>
    intro fuel rest hfuel hrest
    rw [spelled] at hfuel ⊢
    refine reads_frozenText (o := fun f => (out keyspace name).map fun make => make f) ?_ hfuel hrest
    intro fuel rest frozen hfuel hrest
    obtain ⟨fuel, rfl⟩ : ∃ n, fuel = n + 1 := ⟨fuel - 1, by omega⟩
    exact hword keyspace name hnamed fuel frozen rest hrest
  | @vector element dims _ hdim ih =>
    intro fuel rest hfuel _
    obtain ⟨fuel, rfl⟩ : ∃ n, fuel = n + 1 := ⟨fuel - 1, by omega⟩
    rw [spelled] at hfuel ⊢
    simp only [length_append, length_cons, length_nil] at hfuel
    have htext : ['v', 'e', 'c', 't', 'o', 'r', '<'] ++ (spelled word element ++
        (furtherText [Nat.toDigits 10 dims] ++ ['>'])) ++ rest = ['v', 'e', 'c', 't', 'o', 'r', '<'] ++
          (spelled word element ++ (',' :: ' ' :: (Nat.toDigits 10 dims ++ '>' :: rest))) := by
      simp [furtherText]
    rw [htext, parseTypeInner_open_vector, readBack, Option.map_eq_bind]
    refine (ih fuel _ (by omega) (delimited_comma _)).bind (fun e he => ?_) ?_
    · show Reads (dimensions text _ >>= _) _ _
      rw [dimensions_toDigits hdim]
      rfl
    · intro e left hleft
      obtain ⟨err, herr⟩ := eat_of_goesOn text hleft ',' (by decide) (by decide)
      dsimp only
      rw [herr]
      exact reads_error

omit [AlphanumericTable] in
theorem skipWhitespace_ne_nil {rest : List Char} (h : GoesOn rest) : skipWhitespace rest ≠ [] := by
  obtain ⟨c, cs, rfl, hc⟩ := h
  have hspace : isWhitespace c = false := by
    rcases hc with rfl | rfl
    · decide
    · decide
  rw [skipWhitespace, dropWhile_cons_of_neg (by simp [hspace])]
  exact cons_ne_nil c cs

/-- What the text of a type is parsed to. -/
theorem parseWith_spelled
    (hword : ∀ text keyspace name, named keyspace name → ∀ fuel frozen rest, Delimited rest →
      Reads (parseTypeInner resolver text (fuel + 1) frozen (word keyspace name ++ rest)) rest
        ((out keyspace name).map fun make => make frozen))
    {t t' : CqlTypeInfo} (h : Spellable named t) :
    parseWith resolver (String.ofList (spelled word t)) = .ok t' ↔ readBack out t = some t' := by
  have hreads := reads_spelled (hword (spelled word t)) h ((spelled word t).length + 1) []
    (Nat.lt_succ_self _) delimited_nil
  rw [append_nil] at hreads
  rw [parseWith, String.toList_ofList]
  constructor
  · intro hparse
    obtain ⟨⟨parsed, rest⟩, hfound, hparse⟩ := Fallible.bind_eq_ok.1 hparse
    cases hout : readBack out t with
    | some u =>
      rw [hout] at hreads
      cases hfound.symm.trans hreads
      cases hparse
      rfl
    | none =>
      rw [hout] at hreads
      have hrest := skipWhitespace_ne_nil (hreads parsed rest hfound)
      dsimp only at hparse
      split at hparse
      · contradiction
      · cases hparse
  · intro hout
    rw [hout] at hreads
    exact Fallible.bind_eq_ok.2 ⟨_, hreads, rfl⟩

end Tree

/-! ### Trees that are read back -/

section ReadBack

variable {out : Option String → String → Option (Bool → CqlTypeInfo)}
  {named good : Option String → String → Prop}

theorem Spellable.mono (hgood : ∀ keyspace name, named keyspace name → good keyspace name)
    {t : CqlTypeInfo} (h : Spellable named t) : Spellable good t := by
  induction h with
  | primitive kind => exact .primitive kind
  | list frozen _ ih => exact .list frozen ih
  | set frozen _ ih => exact .set frozen ih
  | map frozen _ _ ihKey ihValue => exact .map frozen ihKey ihValue
  | tuple hne _ ih => exact .tuple hne ih
  | udt frozen hnamed => exact .udt frozen (hgood _ _ hnamed)
  | vector _ hdim ih => exact .vector ih hdim

theorem readBackAll_eq_some {elements found : List CqlTypeInfo} :
    readBackAll out elements = some found ↔
      List.Forall₂ (fun t t' => readBack out t = some t') elements found := by
  induction elements generalizing found with
  | nil => simp [readBackAll, eq_comm]
  | cons element elements ih =>
    rw [readBackAll, Option.bind_eq_some_iff]
    constructor
    · rintro ⟨e, he, h⟩
      obtain ⟨es, hes, rfl⟩ := Option.map_eq_some_iff.1 h
      exact .cons he (ih.1 hes)
    · rintro (_ | ⟨he, hes⟩)
      exact ⟨_, he, Option.map_eq_some_iff.2 ⟨_, ih.2 hes, rfl⟩⟩

theorem readBackAll_eq_self_iff {elements : List CqlTypeInfo} :
    readBackAll out elements = some elements ↔ ∀ t ∈ elements, readBack out t = some t := by
  rw [readBackAll_eq_some, forall₂_same]

/-- A tree is read back if each of its UDTs is, and only then. -/
theorem readBack_eq_self_iff (hgood : ∀ keyspace name frozen,
    (out keyspace name).map (fun make => make frozen) = some (udt keyspace name [] frozen) ↔
      good keyspace name) {t : CqlTypeInfo} (h : Spellable named t) :
    readBack out t = some t ↔ Spellable good t := by
  induction h with
  | primitive kind => exact iff_of_true rfl (.primitive kind)
  | @list element frozen _ ih =>
    rw [readBack, Option.map_eq_some_iff]
    constructor
    · rintro ⟨e, he, ⟨⟩⟩
      exact .list frozen (ih.1 he)
    · intro h
      cases h with
      | list _ h => exact ⟨_, ih.2 h, rfl⟩
  | @set element frozen _ ih =>
    rw [readBack, Option.map_eq_some_iff]
    constructor
    · rintro ⟨e, he, ⟨⟩⟩
      exact .set frozen (ih.1 he)
    · intro h
      cases h with
      | set _ h => exact ⟨_, ih.2 h, rfl⟩
  | @map key value frozen _ _ ihKey ihValue =>
    rw [readBack, Option.bind_eq_some_iff]
    constructor
    · rintro ⟨k, hk, h⟩
      obtain ⟨v, hv, ⟨⟩⟩ := Option.map_eq_some_iff.1 h
      exact .map frozen (ihKey.1 hk) (ihValue.1 hv)
    · intro h
      cases h with
      | map _ hkey hvalue =>
        exact ⟨_, ihKey.2 hkey, Option.map_eq_some_iff.2 ⟨_, ihValue.2 hvalue, rfl⟩⟩
  | @tuple elements hne _ ih =>
    rw [readBack, Option.map_eq_some_iff]
    constructor
    · rintro ⟨es, hes, ⟨⟩⟩
      exact .tuple hne fun t ht => (ih t ht).1 (readBackAll_eq_self_iff.1 hes t ht)
    · intro h
      cases h with
      | tuple _ h =>
        exact ⟨_, readBackAll_eq_self_iff.2 fun t ht => (ih t ht).2 (h t ht), rfl⟩
  | @udt keyspace name frozen _ =>
    rw [readBack, hgood]
    constructor
    · exact .udt frozen
    · intro h
      cases h with
      | udt _ h => exact h
  | @vector element dims _ hdim ih =>
    rw [readBack, Option.map_eq_some_iff]
    constructor
    · rintro ⟨e, he, ⟨⟩⟩
      exact .vector (ih.1 he) hdim
    · intro h
      cases h with
      | vector h _ => exact ⟨_, ih.2 h, rfl⟩

end ReadBack

/-! ### Plain names -/

/-- The words that the parser takes for a type, or for the start of one. -/
def isTypeWord (lower : String) : Bool :=
  lower ∈ keywords || (primitiveNamed lower).isSome || lower ∈ dseTypes.map Prod.fst

theorem isTypeWord_eq_false {lower : String} : isTypeWord lower = false ↔
    lower ∉ keywords ∧ primitiveNamed lower = none ∧ lower ∉ dseTypes.map Prod.fst := by
  rw [isTypeWord, Bool.or_eq_false_iff, Bool.or_eq_false_iff, decide_eq_false_iff_not,
    decide_eq_false_iff_not, Option.isSome_eq_false_iff, Option.isNone_iff_eq_none, and_assoc]

/-- A UDT whose name and keyspace are plain lower-case identifiers that are no words of types. -/
def PlainNamed (keyspace : Option String) (name : String) : Prop :=
  ∀ part ∈ name :: keyspace.toList, isPlain part.toList = true ∧ isTypeWord part = false

theorem isWordChar_of_isPlainChar {c : Char} (h : isPlainChar c = true) :
    isWordChar c = true := by
  rw [isPlainChar, Bool.or_eq_true, Bool.or_eq_true] at h
  rw [isWordChar, Char.isAlphanum, isAlpha_eq]
  rcases h with (h | h) | h
  · simp [h]
  · simp [h]
  · simp [h]

theorem not_mem_of_isPlainChar {s : List Char} (h : ∀ c ∈ s, isPlainChar c = true) : '.' ∉ s :=
  fun hmem => absurd (h _ hmem) (by decide)

/-- When a name is taken for a UDT of that name, and of no keyspace. -/
theorem leaf_eq_udt_iff (name : List Char) (frozen : Bool) :
    leaf (fun _ _ => none) name (String.ofList (toLower name)) frozen =
        udt none (String.ofList name) [] frozen ↔
      '.' ∉ name ∧ primitiveNamed (String.ofList (toLower name)) = none ∧
        String.ofList (toLower name) ∉ dseTypes.map Prod.fst := by
  generalize hlower : String.ofList (toLower name) = lower
  rw [leaf]
  constructor
  · intro h
    split at h
    · cases h
    · rename_i hprimitive
      split at h
      · cases h
      · rename_i hdse
        cases hsplit : rsplitOnce '.' name with
        | some parts =>
          rw [hsplit] at h
          cases h
        | none =>
          refine ⟨rsplitOnce_eq_none_iff.1 hsplit, hprimitive, ?_⟩
          rintro hmem
          obtain ⟨entry, hentry, rfl⟩ := mem_map.1 hmem
          exact find?_eq_none.1 hdse entry hentry (by simp)
  · rintro ⟨hdot, hprimitive, hdse⟩
    have hfind : dseTypes.find? (fun entry => entry.1 = String.ofList name || entry.1 = lower) =
        none := by
      rw [find?_eq_none]
      intro entry hentry
      have hnot : entry.1 ≠ lower := fun heq => hdse (heq ▸ mem_map_of_mem hentry)
      rw [Bool.or_eq_true, decide_eq_true_eq, decide_eq_true_eq, not_or]
      refine ⟨fun heq => ?_, hnot⟩
      -- the full names have dots, and the short ones are in lower case
      have hforms : ∀ entry ∈ dseTypes, '.' ∈ entry.1.toList ∨
          toLower entry.1.toList = entry.1.toList := by decide
      rcases hforms entry hentry with hmem | hsame
      · rw [heq, String.toList_ofList] at hmem
        exact hdot hmem
      · rw [heq, String.toList_ofList] at hsame
        exact hnot (by rw [heq, ← hlower, hsame])
    rw [hprimitive]
    simp only [hfind, rsplitOnce_eq_none_iff.2 hdot]
    rfl

/-- No primitive has a dot in its name. -/
theorem primitiveNamed_of_dot {lower : String} (h : '.' ∈ lower.toList) :
    primitiveNamed lower = none := by
  rw [primitiveNamed, lookup_eq_none_iff]
  intro entry hentry
  rw [bne_iff_ne]
  rintro rfl
  revert h
  simp only [mem_cons, not_mem_nil, or_false] at hentry
  rcases hentry with h | h | h | h | h | h | h | h | h | h | h | h | h | h | h | h | h | h | h | h | h
  all_goals
    rw [h]
    decide

/-- The type of a name behind its keyspace. -/
theorem leaf_qualified {keyspace name : String} (hkeyspace : isPlain keyspace.toList = true)
    (hname : isPlain name.toList = true) (frozen : Bool) :
    leaf (fun _ _ => none) (keyspace.toList ++ '.' :: name.toList)
      (String.ofList (keyspace.toList ++ '.' :: name.toList)) frozen =
      udt (some keyspace) name [] frozen := by
  have hchars : ∀ c ∈ keyspace.toList ++ '.' :: name.toList, isPlainChar c = true ∨ c = '.' := by
    intro c hc
    rcases mem_append.1 hc with hc | hc
    · exact .inl ((isPlainChar_of_isPlain hkeyspace).2 c hc)
    · rcases mem_cons.1 hc with rfl | hc
      · exact .inr rfl
      · exact .inl ((isPlainChar_of_isPlain hname).2 c hc)
  have hdot : '.' ∈ keyspace.toList ++ '.' :: name.toList := by simp
  have hprimitive : primitiveNamed (String.ofList (keyspace.toList ++ '.' :: name.toList)) = none :=
    primitiveNamed_of_dot (by rwa [String.toList_ofList])
  have hfind : dseTypes.find? (fun entry =>
      entry.1 = String.ofList (keyspace.toList ++ '.' :: name.toList) ||
        entry.1 = String.ofList (keyspace.toList ++ '.' :: name.toList)) = none := by
    rw [find?_eq_none]
    intro entry hentry
    rw [Bool.or_self, decide_eq_true_eq]
    intro heq
    -- the full names have capital letters, and the short ones have no dots
    have hforms : ∀ entry ∈ dseTypes, '.' ∉ entry.1.toList ∨
        entry.1.toList.all (fun c => isPlainChar c || c == '.') = false := by decide
    rcases hforms entry hentry with hnot | hnot
    · rw [heq, String.toList_ofList] at hnot
      exact hnot hdot
    · rw [heq, String.toList_ofList, ← Bool.not_eq_true, all_eq_true] at hnot
      exact hnot fun c hc => by simpa using hchars c hc
  have hsplit : rsplitOnce '.' (keyspace.toList ++ '.' :: name.toList) =
      some (keyspace.toList, name.toList) :=
    rsplitOnce_append (not_mem_of_isPlainChar (isPlainChar_of_isPlain hname).2) _
  rw [leaf, hprimitive]
  simp only [hfind, hsplit, String.ofList_toList]
  rfl

/-- A name is read as the UDT of that name. -/
def plainOut (keyspace : Option String) (name : String) : Option (Bool → CqlTypeInfo) :=
  some (udt keyspace name [])

section Plain

variable [AlphanumericTable] {text : List Char}

/-- A plain name is read as the name of a UDT. -/
theorem reads_plainWord {keyspace : Option String} {name : String} (h : PlainNamed keyspace name)
    (fuel : ℕ) (frozen : Bool) (rest : List Char) (hrest : Delimited rest) :
    Reads (parseTypeInner (fun _ _ => none) text (fuel + 1) frozen (plainWord keyspace name ++ rest))
      rest ((plainOut keyspace name).map fun make => make frozen) := by
  obtain ⟨hname, hword⟩ := h name mem_cons_self
  obtain ⟨hne, hchars⟩ := isPlainChar_of_isPlain hname
  obtain ⟨hkeyword, hprimitive, hdse⟩ := isTypeWord_eq_false.1 hword
  cases keyspace with
  | none =>
    have hlower : String.ofList (toLower name.toList) = name := by
      rw [toLower_of_isPlain hname, String.ofList_toList]
    have hread : identifier text (name.toList ++ rest) = .ok (name.toList, rest) :=
      identifier_exact hne (fun c hc => isWordChar_of_isPlainChar (hchars c hc)) hrest.isNameChar
    have hleaf := (leaf_eq_udt_iff name.toList frozen).2
      ⟨not_mem_of_isPlainChar hchars, by rwa [hlower], by rwa [hlower]⟩
    show parseTypeInner _ text (fuel + 1) frozen (name.toList ++ rest) = _
    rw [parseTypeInner_leaf hread (by rwa [hlower]), hleaf, String.ofList_toList]
  | some ks =>
    obtain ⟨hks, -⟩ := h ks (by simp)
    have hksChars := (isPlainChar_of_isPlain hks).2
    have htext : plainWord (some ks) name = ks.toList ++ '.' :: name.toList := by simp [plainWord]
    have hlower : toLower (ks.toList ++ '.' :: name.toList) = ks.toList ++ '.' :: name.toList := by
      have hsplit : toLower (ks.toList ++ '.' :: name.toList) =
          toLower ks.toList ++ '.' :: toLower name.toList := map_append
      rw [hsplit, toLower_of_isPlain hks, toLower_of_isPlain hname]
    have hword : ∀ c ∈ ks.toList ++ '.' :: name.toList, isWordChar c = true := by
      intro c hc
      rcases mem_append.1 hc with hc | hc
      · exact isWordChar_of_isPlainChar (hksChars c hc)
      · rcases mem_cons.1 hc with rfl | hc
        · decide
        · exact isWordChar_of_isPlainChar (hchars c hc)
    have hread : identifier text (ks.toList ++ '.' :: name.toList ++ rest) =
        .ok (ks.toList ++ '.' :: name.toList, rest) :=
      identifier_exact (by simp) hword hrest.isNameChar
    have hkeyword' : String.ofList (ks.toList ++ '.' :: name.toList) ∉ keywords := by
      have hforms : ∀ keyword ∈ keywords, '.' ∉ keyword.toList := by decide
      intro hmem
      have hnot := hforms _ hmem
      rw [String.toList_ofList] at hnot
      exact hnot (by simp)
    rw [htext]
    show parseTypeInner _ text (fuel + 1) frozen _ = _
    rw [parseTypeInner_leaf hread (by rwa [hlower]), hlower, leaf_qualified hks hname]

/-- The display text of a type is parsed to the type. -/
theorem parse_render {t : CqlTypeInfo} (h : Spellable PlainNamed t) : parse (render t) = .ok t := by
  have htext : render t = String.ofList (spelled plainWord t) := by
    rw [← toList_render, String.ofList_toList]
  rw [parse, htext]
  have hgood : ∀ keyspace name frozen, (plainOut keyspace name).map (fun make => make frozen) =
      some (udt keyspace name [] frozen) ↔ True := fun _ _ _ => iff_of_true rfl True.intro
  refine (parseWith_spelled (fun text keyspace name hnamed => reads_plainWord hnamed) h).2 ?_
  exact (readBack_eq_self_iff hgood h).2 (h.mono fun _ _ _ => True.intro)

end Plain

/-! ### A type in the text of a schema -/

section Sample

local instance : AlphanumericTable := AlphanumericTable.ascii

/-- `frozen<map<text, frozen<list<tuple<int, frozen<ks.address>, vector<float, 3>>>>>>` -/
def nested : CqlTypeInfo :=
  .map (.primitive .text) (.list (.tuple [.primitive .int, .udt (some "ks") "address" [] true,
    .vector (.primitive .float) 3]) true) true

theorem parse_render_nested : parse (render nested) = .ok nested := by
  have haddress : PlainNamed (some "ks") "address" := by
    rw [PlainNamed]
    decide
  refine parse_render (.map true (.primitive .text) (.list true (.tuple (by simp) ?_)))
  simp only [forall_mem_cons]
  exact ⟨.primitive .int, .udt true haddress, .vector (.primitive .float) (by decide), by simp⟩

end Sample

end CqlTypeInfo

end Cdm
