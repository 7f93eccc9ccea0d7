import Cdm.Codec.Types
import Cdm.Lib.Fallible
import Cdm.Lib.Quoted

/-!
# The grammar of types

The parser of types, followed over a text: how far a name is read, what is parsed behind the keyword
of a type, and what becomes of a text that the parser stops in.
-/

namespace Cdm

open Text

namespace CqlTypeInfo

/-! ### Names -/

section Names

variable [AlphanumericTable] {resolver : UdtResolver} {text : List Char}

/-- An ASCII character of a name without quotation marks. -/
def isWordChar (c : Char) : Bool := c.isAlphanum || c == '_' || c == '.'

omit [AlphanumericTable] in
theorem toNat_of_isWordChar {c : Char} (h : isWordChar c = true) :
    45 < c.toNat ∧ c.toNat < 128 := by
  rw [isWordChar, Bool.or_eq_true, Bool.or_eq_true, beq_iff_eq, beq_iff_eq] at h
  rcases h with (h | rfl) | rfl
  · rw [Char.isAlphanum, Bool.or_eq_true] at h
    rcases h with h | h
    · have := toNat_of_isAlpha h
      omega
    · simp only [Char.isDigit, Bool.and_eq_true, decide_eq_true_eq, UInt32.le_iff_toNat_le] at h
      have hlow : (48 : ℕ) ≤ c.toNat := h.1
      have hhigh : c.toNat ≤ 57 := h.2
      omega
  · decide
  · decide

theorem isNameChar_of_isWordChar {c : Char} (h : isWordChar c = true) : isNameChar c = true := by
  rw [isNameChar, AlphanumericTable.of_ascii c (toNat_of_isWordChar h).2]
  rw [isWordChar] at h
  rw [h, Bool.true_or]

theorem isNameChar_eq_false {c : Char} (hascii : c.toNat < 128) (h : isWordChar c = false)
    (hdollar : c ≠ '$') : isNameChar c = false := by
  rw [isNameChar, AlphanumericTable.of_ascii c hascii]
  rw [isWordChar] at h
  rw [h, Bool.false_or, beq_eq_false_iff_ne]
  exact hdollar

/-- A name is read to its end. -/
theorem identifier_exact {word rest : List Char} (hne : word ≠ [])
    (hword : ∀ c ∈ word, isWordChar c = true) (hrest : ∀ c ∈ rest.head?, isNameChar c = false) :
    identifier text (word ++ rest) = .ok (word, rest) := by
  obtain ⟨c, cs, rfl⟩ := List.exists_cons_of_ne_nil hne
  have hc := toNat_of_isWordChar (hword c List.mem_cons_self)
  have hspace : isWhitespace c = false := by
    have hwhite : isWordChar c = true → isWhitespace c = true → False := by
      intro _ h
      simp only [isWhitespace, Bool.or_eq_true, Bool.and_eq_true, decide_eq_true_eq,
        beq_iff_eq] at h
      omega
    exact Bool.eq_false_iff.2 (hwhite (hword c List.mem_cons_self))
  have hskip : skipWhitespace (c :: cs ++ rest) = c :: cs ++ rest :=
    List.dropWhile_cons_of_neg (by simp [hspace])
  have hsingle : c ≠ singleQuote := by
    rintro rfl
    exact absurd hc (by decide)
  have hdouble : c ≠ doubleQuote := by
    rintro rfl
    exact absurd hc (by decide)
  have hname : ∀ d ∈ c :: cs, isNameChar d = true := fun d hd => isNameChar_of_isWordChar (hword d hd)
  simp only [identifier, hskip]
  rw [if_neg (by simpa using hsingle), if_neg (by simpa using hdouble),
    takeWhile_exact hname hrest, dropWhile_exact hname hrest, if_neg (by simp)]

/-- What stands between quotation marks is read as it is. -/
theorem identifier_quoted {name rest : List Char} (h : doubleQuote ∉ name) :
    identifier text (doubleQuote :: (name ++ doubleQuote :: rest)) = .ok (name, rest) := by
  have hname : ∀ c ∈ name, decide (c ≠ doubleQuote) = true := by
    intro c hc
    rw [decide_eq_true_eq]
    rintro rfl
    exact h hc
  have hquote : ∀ c ∈ (doubleQuote :: rest).head?, decide (c ≠ doubleQuote) = false := by
    simp
  have hskip : skipWhitespace (doubleQuote :: (name ++ doubleQuote :: rest)) =
      doubleQuote :: (name ++ doubleQuote :: rest) := List.dropWhile_cons_of_neg (by decide)
  have hsingle : some doubleQuote ≠ some singleQuote := by decide
  simp only [identifier, hskip, List.head?_cons, if_neg hsingle, ↓reduceIte, List.tail_cons, quotedName,
    takeWhile_exact hname hquote, dropWhile_exact hname hquote]

/-- What may follow a type: nothing, or the punctuation of the type around it. -/
def Delimited (rest : List Char) : Prop := ∀ c ∈ rest.head?, c = ',' ∨ c = '>'

theorem Delimited.isNameChar {rest : List Char} (h : Delimited rest) :
    ∀ c ∈ rest.head?, isNameChar c = false := by
  intro c hc
  rcases h c hc with rfl | rfl
  · exact isNameChar_eq_false (by decide) (by decide) (by decide)
  · exact isNameChar_eq_false (by decide) (by decide) (by decide)

omit [AlphanumericTable] in
theorem delimited_nil : Delimited [] := by
  rintro c ⟨⟩

omit [AlphanumericTable] in
theorem delimited_close (rest : List Char) : Delimited ('>' :: rest) := by
  rintro c ⟨⟩
  exact .inr rfl

omit [AlphanumericTable] in
theorem delimited_comma (rest : List Char) : Delimited (',' :: rest) := by
  rintro c ⟨⟩
  exact .inl rfl

end Names

/-! ### Reading a type -/

/-- A quoted name that goes on behind what has been read of it. -/
def GoesOn (rest : List Char) : Prop := ∃ c cs, rest = c :: cs ∧ (c = '.' ∨ c = doubleQuote)

/-- What has been read of a text when the next thing to read is `behind`: something, or nothing, and
then the parser fails or is left in the middle of a name. -/
def Reads {α : Type} (found : Except CdmError (α × List Char)) (behind : List Char) :
    Option α → Prop
  | some a => found = .ok (a, behind)
  | none => ∀ a rest, found = .ok (a, rest) → GoesOn rest

section Reads

variable {α β : Type} {found : Except CdmError (α × List Char)} {behind behind' : List Char}

theorem reads_error {e : CdmError} :
    Reads (.error e : Except CdmError (α × List Char)) behind none := by
  intro a rest h
  cases h

/-- Reading on.  A parser that is stuck must not get out of it. -/
theorem Reads.bind {o : Option α} (h : Reads found behind o)
    {next : α × List Char → Except CdmError (β × List Char)} {g : α → Option β}
    (hnext : ∀ a, o = some a → Reads (next (a, behind)) behind' (g a))
    (hstuck : ∀ a rest, GoesOn rest → Reads (next (a, rest)) behind' none) :
    Reads (found >>= next) behind' (o.bind g) := by
  cases o with
  | some a =>
    have hfound : found = .ok (a, behind) := h
    rw [hfound]
    exact hnext a rfl
  | none =>
    intro b rest hb
    obtain ⟨⟨a, rest'⟩, hfound, hb⟩ := Fallible.bind_eq_ok.1 hb
    exact hstuck a rest' (h a rest' hfound) b rest hb

theorem eat_of_goesOn (text : List Char) {rest : List Char} (hrest : GoesOn rest) (expected : Char)
    (hdot : expected ≠ '.') (hquote : expected ≠ doubleQuote) :
    ∃ e, eat text expected rest = .error e := by
  obtain ⟨c, cs, rfl, hc⟩ := hrest
  have hspace : isWhitespace c = false := by
    rcases hc with rfl | rfl
    · decide
    · decide
  have hne : c ≠ expected := by
    rcases hc with rfl | rfl
    · exact hdot.symm
    · exact hquote.symm
  have hskip : skipWhitespace (c :: cs) = c :: cs := List.dropWhile_cons_of_neg (by simp [hspace])
  rw [eat, hskip]
  exact ⟨_, if_neg hne⟩

/-- No arguments follow where the text of the type ends. -/
theorem eat_of_delimited {text rest : List Char} (hrest : Delimited rest) :
    ∃ e, eat text '<' rest = .error e := by
  cases rest with
  | nil => exact ⟨_, rfl⟩
  | cons c cs =>
    rcases hrest c rfl with rfl | rfl
    · exact ⟨_, rfl⟩
    · exact ⟨_, rfl⟩

/-- The last argument of a type, and the bracket that closes it. -/
theorem Reads.close {o : Option α} (h : Reads found ('>' :: behind) o) (text : List Char)
    (make : α → β) :
    Reads (found >>= fun p => eat text '>' p.2 >>= fun rest => .ok (make p.1, rest)) behind
      (o.map make) := by
  rw [Option.map_eq_bind]
  refine h.bind (fun a ha => rfl) ?_
  intro a rest hrest
  obtain ⟨e, he⟩ := eat_of_goesOn text hrest '>' (by decide) (by decide)
  dsimp only
  rw [he]
  exact reads_error

theorem Reads.map {o : Option α} (h : Reads found behind o) (make : α → β) :
    Reads (found >>= fun p => .ok (make p.1, p.2)) behind (o.map make) := by
  rw [Option.map_eq_bind]
  refine h.bind (fun a ha => rfl) ?_
  rintro a rest hrest b rest' ⟨⟩
  exact hrest

end Reads

/-! ### The productions of the grammar -/

section Productions

variable [AlphanumericTable] {resolver : UdtResolver} {text : List Char}

/-- The keyword of a type, in front of its bracket. -/
theorem identifier_open (keyword : List Char) (hne : keyword ≠ [])
    (hword : keyword.all isWordChar = true) (rest : List Char) :
    identifier text (keyword ++ '<' :: rest) = .ok (keyword, '<' :: rest) := by
  refine identifier_exact hne (List.all_eq_true.1 hword) ?_
  rintro c ⟨⟩
  exact isNameChar_eq_false (by decide) (by decide) (by decide)

variable (fuel : ℕ) (frozen : Bool) (rest : List Char)

theorem parseTypeInner_space :
    parseTypeInner resolver text (fuel + 1) frozen (' ' :: rest) =
      parseTypeInner resolver text (fuel + 1) frozen rest := by
  have hname : identifier text (' ' :: rest) = identifier text rest := rfl
  exact congrArg (· >>= _) hname

theorem parseTypeInner_open_frozen :
    parseTypeInner resolver text (fuel + 1) frozen (['f', 'r', 'o', 'z', 'e', 'n', '<'] ++ rest) =
      parseTypeInner resolver text fuel true rest >>= fun p =>
        eat text '>' p.2 >>= fun rest => .ok (p.1, rest) := by
  exact congrArg (· >>= _) (identifier_open ['f', 'r', 'o', 'z', 'e', 'n'] (by simp) (by decide) rest)

theorem parseTypeInner_open_list :
    parseTypeInner resolver text (fuel + 1) frozen (['l', 'i', 's', 't', '<'] ++ rest) =
      parseTypeInner resolver text fuel false rest >>= fun p =>
        eat text '>' p.2 >>= fun rest => .ok (list p.1 frozen, rest) := by
  exact congrArg (· >>= _) (identifier_open ['l', 'i', 's', 't'] (by simp) (by decide) rest)

theorem parseTypeInner_open_set :
    parseTypeInner resolver text (fuel + 1) frozen (['s', 'e', 't', '<'] ++ rest) =
      parseTypeInner resolver text fuel false rest >>= fun p =>
        eat text '>' p.2 >>= fun rest => .ok (set p.1 frozen, rest) := by
  exact congrArg (· >>= _) (identifier_open ['s', 'e', 't'] (by simp) (by decide) rest)

theorem parseTypeInner_open_map :
    parseTypeInner resolver text (fuel + 1) frozen (['m', 'a', 'p', '<'] ++ rest) =
      parseTypeInner resolver text fuel false rest >>= fun p =>
        eat text ',' p.2 >>= fun rest => parseTypeInner resolver text fuel false rest >>= fun q =>
          eat text '>' q.2 >>= fun rest => .ok (map p.1 q.1 frozen, rest) := by
  exact congrArg (· >>= _) (identifier_open ['m', 'a', 'p'] (by simp) (by decide) rest)

theorem parseTypeInner_open_tuple :
    parseTypeInner resolver text (fuel + 1) frozen (['t', 'u', 'p', 'l', 'e', '<'] ++ rest) =
      parseTypeInner resolver text fuel false rest >>= fun p =>
        parseTupleRest resolver text fuel p.2 >>= fun q =>
          eat text '>' q.2 >>= fun rest => .ok (tuple (p.1 :: q.1), rest) := by
  exact congrArg (· >>= _) (identifier_open ['t', 'u', 'p', 'l', 'e'] (by simp) (by decide) rest)

theorem parseTypeInner_open_vector :
    parseTypeInner resolver text (fuel + 1) frozen (['v', 'e', 'c', 't', 'o', 'r', '<'] ++ rest) =
      parseTypeInner resolver text fuel false rest >>= fun p =>
        eat text ',' p.2 >>= fun rest => dimensions text rest >>= fun q =>
          eat text '>' q.2 >>= fun rest => .ok (vector p.1 q.1, rest) := by
  exact congrArg (· >>= _) (identifier_open ['v', 'e', 'c', 't', 'o', 'r'] (by simp) (by decide) rest)

/-- The words that start a type with arguments. -/
def keywords : List String := ["frozen", "list", "set", "map", "tuple", "vector"]

/-- A name that is no keyword is a type without arguments. -/
theorem parseTypeInner_leaf {fuel : ℕ} {frozen : Bool} {rest name behind : List Char}
    (hname : identifier text rest = .ok (name, behind))
    (hkeyword : String.ofList (toLower name) ∉ keywords) :
    parseTypeInner resolver text (fuel + 1) frozen rest =
      .ok (leaf resolver name (String.ofList (toLower name)) frozen, behind) := by
  rw [parseTypeInner, hname]
  simp only [bind, Except.bind]
  split
  all_goals first
    | rfl
    | rename_i heq
      rw [heq] at hkeyword
      exact absurd (by decide) hkeyword

/-- A keyword needs its bracket. -/
theorem parseTypeInner_keyword (resolver : UdtResolver) (fuel : ℕ) (frozen : Bool)
    {rest name behind : List Char} (hname : identifier text rest = .ok (name, behind))
    (hkeyword : String.ofList (toLower name) ∈ keywords)
    (hopen : ∃ e, eat text '<' behind = .error e) :
    ∃ e, parseTypeInner resolver text (fuel + 1) frozen rest = .error e := by
  obtain ⟨e, he⟩ := hopen
  rw [parseTypeInner, hname]
  simp only [bind, Except.bind, he]
  split
  all_goals first
    | exact ⟨e, rfl⟩
    | simp_all [keywords]

theorem parseTupleRest_comma (fuel : ℕ) (rest : List Char) :
    parseTupleRest resolver text (fuel + 1) (',' :: rest) =
      parseTypeInner resolver text fuel false rest >>= fun p =>
        parseTupleRest resolver text fuel p.2 >>= fun q => .ok (p.1 :: q.1, q.2) := by
  rw [parseTupleRest]
  rfl

/-- Where no further component follows, there is none. -/
theorem parseTupleRest_end (fuel : ℕ) {c : Char} (hspace : isWhitespace c = false)
    (hcomma : c ≠ ',') (rest : List Char) :
    parseTupleRest resolver text (fuel + 1) (c :: rest) = .ok ([], c :: rest) := by
  have hskip : skipWhitespace (c :: rest) = c :: rest :=
    List.dropWhile_cons_of_neg (by simp [hspace])
  rw [parseTupleRest, hskip]
  split
  · rename_i heq
    cases heq
    exact absurd rfl hcomma
  · rfl

theorem parseTupleRest_goesOn {fuel : ℕ} (hfuel : 0 < fuel) {rest : List Char} (hrest : GoesOn rest) :
    parseTupleRest resolver text fuel rest = .ok ([], rest) := by
  obtain ⟨fuel, rfl⟩ : ∃ n, fuel = n + 1 := ⟨fuel - 1, by omega⟩
  obtain ⟨c, cs, rfl, hc⟩ := hrest
  rcases hc with rfl | rfl
  · exact parseTupleRest_end fuel (by decide) (by decide) cs
  · exact parseTupleRest_end fuel (by decide) (by decide) cs

omit [AlphanumericTable] in
/-- The names of the primitives are read as the primitives. -/
theorem asStr_facts (resolver : UdtResolver) (kind : Primitive) :
    kind.asStr.toList ≠ [] ∧ (∀ c ∈ kind.asStr.toList, isWordChar c = true) ∧
      String.ofList (toLower kind.asStr.toList) ∉ keywords ∧
      ∀ frozen, leaf resolver kind.asStr.toList (String.ofList (toLower kind.asStr.toList))
        frozen = primitive kind := by
  cases kind
  all_goals exact ⟨by decide, List.all_eq_true.1 (by decide), by decide, fun _ => rfl⟩

end Productions

end CqlTypeInfo

end Cdm
