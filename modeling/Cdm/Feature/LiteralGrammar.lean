import Cdm.Feature.ParseLiteral
import Cdm.Lib.Quoted

/-!
# The accepted literals

Which texts are accepted for a type, and what they denote, as a relation: by recursion on the type,
with the texts of the elements found by splitting.  The parser accepts these and no others.
-/

namespace Cdm

open Text
open List

namespace Literal

open Fallible

/-- The scalar that a text stands for: string-like types require quotes. -/
def scalarValue (kind : Primitive) (text : List Char) : Option (List Char) :=
  if kind = .text ∨ kind = .ascii ∨ kind = .inet then unquote text
  else some ((unquote text).getD text)

/-- The null literal, or another one. -/
def Nullable (text : List Char) (cell : RawCell) (P : Prop) : Prop :=
  if IsNull text then cell = none else P

/-- The texts denote elements, framed one after the other. -/
def Framed (R : List Char → RawCell → Prop) : List (List Char) → Bytes → Prop
  | [], out => out = []
  | piece :: pieces, out => ∃ cell first rest, R piece cell ∧ Wire.writeElement cell = .ok first ∧
      Framed R pieces rest ∧ out = first ++ rest

/-- The texts denote entries, framed one after the other; `split` says how a text is taken apart. -/
def FramedEntries (split : List Char → List Char → List Char → Prop)
    (R S : List Char → RawCell → Prop) : List (List Char) → Bytes → Prop
  | [], out => out = []
  | piece :: pieces, out => ∃ key value entry rest, split piece key value ∧
      (∃ k first, R key k ∧ Wire.writeElement k = .ok first ∧
        ∃ v second, S value v ∧ Wire.writeElement v = .ok second ∧ entry = first ++ second) ∧
      FramedEntries split R S pieces rest ∧ out = entry ++ rest

/-- The texts denote components, each of its own type, framed one after the other. -/
def FramedEach : List (List Char → RawCell → Prop) → List (List Char) → Bytes → Prop
  | [], [], out => out = []
  | R :: Rs, piece :: pieces, out => ∃ cell first rest, R piece cell ∧
      Wire.writeElement cell = .ok first ∧ FramedEach Rs pieces rest ∧ out = first ++ rest
  | _, _, _ => False

/-- An element and its framing. -/
def countedCell (count : ℕ) (out : Bytes) : RawCell := some (Wire.writeI32 count ++ out)

section Accepted

variable [LiteralParsers]

mutual

/-- The texts, without white space around them, that are accepted for a type, and the cells they
denote. -/
def Accepts : CqlTypeInfo → List Char → RawCell → Prop
  | .list element _, text, cell => Nullable text cell (∃ inner out,
      text = '[' :: (inner ++ [']']) ∧
      Framed (Accepts element) (filled (splitTopLevel inner ',')) out ∧
      (filled (splitTopLevel inner ',')).length < 2 ^ 31 ∧
      cell = countedCell (filled (splitTopLevel inner ',')).length out)
  | .set element _, text, cell => Nullable text cell (∃ inner out,
      text = '\x7b' :: (inner ++ ['\x7d']) ∧
      Framed (Accepts element) (filled (splitTopLevel inner ',')) out ∧
      (filled (splitTopLevel inner ',')).length < 2 ^ 31 ∧
      cell = countedCell (filled (splitTopLevel inner ',')).length out)
  | .map key value _, text, cell => Nullable text cell (∃ inner out,
      text = '\x7b' :: (inner ++ ['\x7d']) ∧
      FramedEntries (fun piece key value => splitTopLevel piece ':' = [key, value])
        (Accepts key) (Accepts value) (splitTopLevel inner ',') out ∧
      (splitTopLevel inner ',').length < 2 ^ 31 ∧
      cell = countedCell (splitTopLevel inner ',').length out)
  | .tuple types, text, cell => Nullable text cell (∃ inner out,
      text = '(' :: (inner ++ [')']) ∧
      FramedEach (AcceptsEach types) (splitTopLevel inner ',') out ∧ cell = some out)
  | .primitive kind, text, cell => Nullable text cell (∃ value bytes,
      scalarValue kind text = some value ∧
      encodePrimitiveChecked (String.ofList value) kind = some (.ok bytes) ∧ cell = some bytes)
  | .udt _ _ _ _, text, cell => Nullable text cell False
  | .vector _ _, text, cell => Nullable text cell False
  | .custom _, text, cell => Nullable text cell False

/-- The relations of the components of a tuple. -/
def AcceptsEach : List CqlTypeInfo → List (List Char → RawCell → Prop)
  | [] => []
  | cqlType :: types => Accepts cqlType :: AcceptsEach types

end

end Accepted

/-! ### The parts of the parser -/

theorem orNull_eq_ok {literal : List Char} {parse : List Char → Parsed} {cell : RawCell}
    {P : Prop} (h : parse (trim literal) = .ok cell ↔ P) :
    orNull literal parse = .ok cell ↔ Nullable (trim literal) cell P := by
  rw [orNull, Nullable]
  split_ifs with hnull
  · constructor
    · rintro ⟨⟩
      rfl
    · rintro rfl
      rfl
  · exact h

theorem bracketed_eq_ok {opening closing : Char} {cqlType : CqlTypeInfo}
    {literal text inner : List Char} :
    bracketed opening closing cqlType literal text = .ok inner ↔
      text = opening :: (inner ++ [closing]) := by
  rw [bracketed]
  constructor
  · intro h
    split at h
    · rename_i rest hstrip
      split_ifs at h with hends
      cases h
      rw [eq_append_of_stripPrefix hstrip]
      rcases eq_nil_or_concat rest with rfl | ⟨inner, last, rfl⟩
      · cases hends
      · rw [endsWith, concat_eq_append, getLast?_concat, decide_eq_true_eq,
          Option.some.injEq] at hends
        rw [concat_eq_append, dropLast_concat, hends]
        rfl
    · cases h
  · rintro rfl
    have hstrip : stripPrefix [opening] (opening :: (inner ++ [closing])) =
        some (inner ++ [closing]) := stripPrefix_append [opening] _
    rw [hstrip]
    simp only [endsWith_append, if_true, dropLast_concat]

theorem writeCount_eq_ok {count : ℕ} {cqlType : CqlTypeInfo} {literal : List Char}
    {bytes : Bytes} :
    writeCount count cqlType literal = .ok bytes ↔
      count < 2 ^ 31 ∧ bytes = Wire.writeI32 count := by
  rw [writeCount]
  split_ifs with h
  · rw [Except.ok.injEq, eq_comm, and_iff_right h]
  · simp only [h, false_and]

theorem writeElement_eq_ok {cell : RawCell} {bytes : Bytes} :
    writeElement cell = .ok bytes ↔ Wire.writeElement cell = .ok bytes := mapError_eq_ok

theorem parseElement_eq_ok {parse : List Char → Parsed} {element : List Char} {bytes : Bytes} :
    parseElement parse element = .ok bytes ↔
      ∃ cell, parse element = .ok cell ∧ Wire.writeElement cell = .ok bytes := by
  rw [parseElement, bind_eq_ok]
  simp only [writeElement_eq_ok]

section Elements

variable {parse : List Char → Parsed} {R : List Char → RawCell → Prop}

/-- The elements are framed when each of them is parsed. -/
theorem parseElements_eq_ok {pieces : List (List Char)} {out : Bytes}
    (h : ∀ piece ∈ pieces, ∀ cell, parse piece = .ok cell ↔ R piece cell) :
    parseElements parse pieces = .ok out ↔ Framed R pieces out := by
  induction pieces generalizing out with
  | nil =>
    rw [parseElements, Framed]
    constructor
    · rintro ⟨⟩
      rfl
    · rintro rfl
      rfl
  | cons piece pieces ih =>
    rw [forall_mem_cons] at h
    rw [parseElements, Framed, bind_eq_ok]
    constructor
    · rintro ⟨first, hfirst, hothers⟩
      obtain ⟨cell, hcell, hwrite⟩ := parseElement_eq_ok.1 hfirst
      obtain ⟨rest, hrest, hout⟩ := bind_eq_ok.1 hothers
      cases hout
      exact ⟨cell, first, rest, (h.1 cell).1 hcell, hwrite, (ih h.2).1 hrest, rfl⟩
    · rintro ⟨cell, first, rest, hcell, hwrite, hrest, rfl⟩
      exact ⟨first, parseElement_eq_ok.2 ⟨cell, (h.1 cell).2 hcell, hwrite⟩,
        bind_eq_ok.2 ⟨rest, (ih h.2).2 hrest, rfl⟩⟩

/-- The entries are framed when each key and each value is parsed. -/
theorem parseEntries_eq_ok {parseValue : List Char → Parsed} {S : List Char → RawCell → Prop}
    (hR : ∀ piece cell, parse (trim piece) = .ok cell ↔ R (trim piece) cell)
    (hS : ∀ piece cell, parseValue (trim piece) = .ok cell ↔ S (trim piece) cell)
    {cqlType : CqlTypeInfo} {literal : List Char} {pieces : List (List Char)} {out : Bytes} :
    parseEntries parse parseValue cqlType literal pieces = .ok out ↔
      FramedEntries (fun piece key value => splitTopLevel piece ':' = [key, value]) R S pieces
        out := by
  induction pieces generalizing out with
  | nil =>
    rw [parseEntries, FramedEntries]
    constructor
    · rintro ⟨⟩
      rfl
    · rintro rfl
      rfl
  | cons piece pieces ih =>
    rw [parseEntries, FramedEntries]
    have htrim {key value : List Char} (hsplit : splitTopLevel piece ':' = [key, value]) :
        trim key = key ∧ trim value = value := by
      have hall : ∀ part ∈ splitTopLevel piece ':', trim part = part := by
        intro part hpart
        obtain ⟨raw, -, rfl⟩ := mem_map.1 hpart
        exact trim_trim raw
      rw [hsplit, forall_mem_cons, forall_mem_cons] at hall
      exact ⟨hall.1, hall.2.1⟩
    constructor
    · intro h
      split at h
      · rename_i key value hsplit
        obtain ⟨hkey, hvalue⟩ := htrim hsplit
        obtain ⟨first, hfirst, h⟩ := bind_eq_ok.1 h
        obtain ⟨second, hsecond, h⟩ := bind_eq_ok.1 h
        obtain ⟨rest, hrest, hout⟩ := bind_eq_ok.1 h
        cases hout
        obtain ⟨k, hk, hwritek⟩ := parseElement_eq_ok.1 hfirst
        obtain ⟨v, hv, hwritev⟩ := parseElement_eq_ok.1 hsecond
        refine ⟨key, value, first ++ second, rest, hsplit, ⟨k, first, ?_, hwritek, v, second, ?_,
          hwritev, rfl⟩, ih.1 hrest, rfl⟩
        · rw [← hkey] at hk ⊢
          exact (hR _ _).1 hk
        · rw [← hvalue] at hv ⊢
          exact (hS _ _).1 hv
      · cases h
    · rintro ⟨key, value, entry, rest, hsplit,
        ⟨k, first, hk, hwritek, v, second, hv, hwritev, rfl⟩, hrest, rfl⟩
      obtain ⟨hkey, hvalue⟩ := htrim hsplit
      rw [hsplit]
      refine bind_eq_ok.2 ⟨first, parseElement_eq_ok.2 ⟨k, ?_, hwritek⟩, bind_eq_ok.2
        ⟨second, parseElement_eq_ok.2 ⟨v, ?_, hwritev⟩, bind_eq_ok.2 ⟨rest, ih.2 hrest, rfl⟩⟩⟩
      · rw [← hkey] at hk ⊢
        exact (hR _ _).2 hk
      · rw [← hvalue] at hv ⊢
        exact (hS _ _).2 hv

end Elements

theorem FramedEach.length {Rs : List (List Char → RawCell → Prop)} {pieces : List (List Char)}
    {out : Bytes} (h : FramedEach Rs pieces out) : pieces.length = Rs.length := by
  induction Rs generalizing pieces out with
  | nil =>
    cases pieces with
    | nil => rfl
    | cons piece pieces => cases h
  | cons R Rs ih =>
    cases pieces with
    | nil => cases h
    | cons piece pieces =>
      obtain ⟨-, -, rest, -, -, hrest, -⟩ := h
      rw [length_cons, ih hrest, length_cons]

section Parser

variable [LiteralParsers]

/-- A scalar is encoded as the value its text stands for. -/
theorem parseScalar_eq_ok {kind : Primitive} {literal text : List Char} {cell : RawCell} :
    parseScalar (.primitive kind) literal text = .ok cell ↔ ∃ value bytes,
      scalarValue kind text = some value ∧
      encodePrimitiveChecked (String.ofList value) kind = some (.ok bytes) ∧ cell = some bytes := by
  have hencode (value : List Char) : encodeScalarChecked (String.ofList value) (.primitive kind)
      (String.ofList literal) = .ok cell ↔ ∃ bytes,
        encodePrimitiveChecked (String.ofList value) kind = some (.ok bytes) ∧
        cell = some bytes := by
    rw [encodeScalarChecked]
    cases encodePrimitiveChecked (String.ofList value) kind with
    | none => simp
    | some result =>
      rw [map_eq_ok]
      simp only [mapError_eq_ok, Option.some.injEq]
      exact ⟨fun ⟨bytes, h, heq⟩ => ⟨bytes, h, heq.symm⟩, fun ⟨bytes, h, heq⟩ => ⟨bytes, h, heq.symm⟩⟩
  rw [parseScalar, scalarValue]
  simp only [CqlTypeInfo.primitive.injEq]
  split_ifs with hkind
  · cases unquote text with
    | none => simp
    | some value =>
      rw [hencode]
      simp
  · rw [hencode]
    simp

/-- The elements of a list or a set are those that are not empty. -/
theorem parseSequence_eq_ok {element t : CqlTypeInfo} {opening closing : Char}
    {literal : List Char} {cell : RawCell}
    (h : ∀ literal cell, parseLiteral element literal = .ok cell ↔
      Accepts element (trim literal) cell) :
    parseSequence (parseLiteral element) opening closing t literal (trim literal) = .ok cell ↔
    ∃ inner out, trim literal = opening :: (inner ++ [closing]) ∧
      Framed (Accepts element) (filled (splitTopLevel inner ',')) out ∧
      (filled (splitTopLevel inner ',')).length < 2 ^ 31 ∧
      cell = countedCell (filled (splitTopLevel inner ',')).length out := by
  have hpieces (inner : List Char) : ∀ piece ∈ filled (splitTopLevel inner ','),
      ∀ cell, parseLiteral element piece = .ok cell ↔ Accepts element piece cell := by
    intro piece hpiece cell
    obtain ⟨raw, -, rfl⟩ := mem_map.1 (mem_filter.1 hpiece).1
    rw [h, trim_trim]
  constructor
  · intro hparse
    obtain ⟨inner, hinner, hparse⟩ := bind_eq_ok.1 hparse
    obtain ⟨count, hcount, hparse⟩ := bind_eq_ok.1 hparse
    obtain ⟨out, hout, hparse⟩ := bind_eq_ok.1 hparse
    cases hparse
    obtain ⟨hlength, rfl⟩ := writeCount_eq_ok.1 hcount
    exact ⟨inner, out, bracketed_eq_ok.1 hinner, (parseElements_eq_ok (hpieces inner)).1 hout,
      hlength, rfl⟩
  · rintro ⟨inner, out, htext, hframed, hlength, rfl⟩
    exact bind_eq_ok.2 ⟨inner, bracketed_eq_ok.2 htext, bind_eq_ok.2
      ⟨_, writeCount_eq_ok.2 ⟨hlength, rfl⟩, bind_eq_ok.2
        ⟨out, (parseElements_eq_ok (hpieces inner)).2 hframed, rfl⟩⟩⟩

theorem length_acceptsEach (types : List CqlTypeInfo) :
    (AcceptsEach types).length = types.length := by
  induction types with
  | nil => rfl
  | cons t types ih => rw [AcceptsEach, length_cons, ih, length_cons]

mutual

/-- A literal is parsed to the cell it denotes. -/
theorem parseLiteral_eq_ok {literal : List Char} {cell : RawCell} : (t : CqlTypeInfo) →
    (parseLiteral t literal = .ok cell ↔ Accepts t (trim literal) cell)
  | .list element frozen => by
    rw [parseLiteral, Accepts]
    exact orNull_eq_ok (parseSequence_eq_ok fun _ _ => parseLiteral_eq_ok element)
  | .set element frozen => by
    rw [parseLiteral, Accepts]
    exact orNull_eq_ok (parseSequence_eq_ok fun _ _ => parseLiteral_eq_ok element)
  | .map key value frozen => by
    rw [parseLiteral, Accepts]
    refine orNull_eq_ok ?_
    have hkey (piece : List Char) (cell : RawCell) :
        parseLiteral key (trim piece) = .ok cell ↔ Accepts key (trim piece) cell := by
      rw [parseLiteral_eq_ok key, trim_trim]
    have hvalue (piece : List Char) (cell : RawCell) :
        parseLiteral value (trim piece) = .ok cell ↔
          Accepts value (trim piece) cell := by
      rw [parseLiteral_eq_ok value, trim_trim]
    constructor
    · intro hparse
      obtain ⟨inner, hinner, hparse⟩ := bind_eq_ok.1 hparse
      obtain ⟨count, hcount, hparse⟩ := bind_eq_ok.1 hparse
      obtain ⟨out, hout, hparse⟩ := bind_eq_ok.1 hparse
      cases hparse
      obtain ⟨hlength, rfl⟩ := writeCount_eq_ok.1 hcount
      exact ⟨inner, out, bracketed_eq_ok.1 hinner, (parseEntries_eq_ok hkey hvalue).1 hout,
        hlength, rfl⟩
    · rintro ⟨inner, out, htext, hframed, hlength, rfl⟩
      exact bind_eq_ok.2 ⟨inner, bracketed_eq_ok.2 htext, bind_eq_ok.2
        ⟨_, writeCount_eq_ok.2 ⟨hlength, rfl⟩, bind_eq_ok.2
          ⟨out, (parseEntries_eq_ok hkey hvalue).2 hframed, rfl⟩⟩⟩
  | .tuple types => by
    rw [parseLiteral, Accepts]
    refine orNull_eq_ok ?_
    have hpieces (inner : List Char) : ∀ piece ∈ splitTopLevel inner ',', trim piece = piece := by
      intro piece hpiece
      obtain ⟨raw, -, rfl⟩ := mem_map.1 hpiece
      exact trim_trim raw
    constructor
    · intro hparse
      obtain ⟨inner, hinner, hparse⟩ := bind_eq_ok.1 hparse
      simp only at hparse
      split_ifs at hparse with hlength
      obtain ⟨out, hout, rfl⟩ := map_eq_ok.1 hparse
      exact ⟨inner, out, bracketed_eq_ok.1 hinner,
        (parseComponents_eq_ok types (hpieces inner) hlength).1 hout, rfl⟩
    · rintro ⟨inner, out, htext, hframed, rfl⟩
      have hlength : (splitTopLevel inner ',').length = types.length := by
        rw [hframed.length, length_acceptsEach]
      refine bind_eq_ok.2 ⟨inner, bracketed_eq_ok.2 htext, ?_⟩
      simp only [hlength, if_true]
      exact map_eq_ok.2 ⟨out, (parseComponents_eq_ok types (hpieces inner) hlength).2 hframed, rfl⟩
  | .primitive kind => by
    rw [parseLiteral, Accepts]
    exact orNull_eq_ok parseScalar_eq_ok
  | .udt _ _ _ _ => by
    rw [parseLiteral, Accepts]
    exact orNull_eq_ok (by simp [parseScalar, encodeScalarChecked])
  | .vector _ _ => by
    rw [parseLiteral, Accepts]
    exact orNull_eq_ok (by simp [parseScalar, encodeScalarChecked])
  | .custom _ => by
    rw [parseLiteral, Accepts]
    exact orNull_eq_ok (by simp [parseScalar, encodeScalarChecked])

/-- As many components as types are framed when each of them is parsed. -/
theorem parseComponents_eq_ok : (types : List CqlTypeInfo) → {pieces : List (List Char)} →
    {out : Bytes} → (∀ piece ∈ pieces, trim piece = piece) → pieces.length = types.length →
    (parseComponents (parseLiterals types) pieces = .ok out ↔
      FramedEach (AcceptsEach types) pieces out)
  | [], [], out, _, _ => by
    rw [parseLiterals, parseComponents, AcceptsEach, FramedEach]
    · constructor
      · rintro ⟨⟩
        rfl
      · rintro rfl
        rfl
    · simp
  | t :: types, piece :: pieces, out, htrim, hlength => by
    rw [forall_mem_cons] at htrim
    rw [parseLiterals, parseComponents, AcceptsEach, FramedEach, bind_eq_ok]
    have hpiece (cell : RawCell) : parseLiteral t piece = .ok cell ↔ Accepts t piece cell := by
      rw [parseLiteral_eq_ok t, htrim.1]
    have hrest {out : Bytes} : parseComponents (parseLiterals types) pieces = .ok out ↔
        FramedEach (AcceptsEach types) pieces out :=
      parseComponents_eq_ok types htrim.2 (Nat.succ.inj hlength)
    constructor
    · rintro ⟨first, hfirst, h⟩
      obtain ⟨cell, hcell, hwrite⟩ := parseElement_eq_ok.1 hfirst
      obtain ⟨rest, hparse, hout⟩ := bind_eq_ok.1 h
      cases hout
      exact ⟨cell, first, rest, (hpiece cell).1 hcell, hwrite, hrest.1 hparse, rfl⟩
    · rintro ⟨cell, first, rest, hcell, hwrite, hframed, rfl⟩
      exact ⟨first, parseElement_eq_ok.2 ⟨cell, (hpiece cell).2 hcell, hwrite⟩,
        bind_eq_ok.2 ⟨rest, hrest.2 hframed, rfl⟩⟩

end

end Parser

end Literal

end Cdm
