import Cdm.Feature.Literal
import Cdm.Lib.Json

/-!
# JSON text

`serde_json::to_string` writes a document without white space: the elements of an array and the
fields of an object one after the other, with a comma in front of each but the first.  What it writes
of a value ends where the value ends, so that the text of a document determines the document.

A number is the text it is written as, which holds none of the characters that may come behind it.
-/

namespace Cdm

open List

namespace JsonValue

/-! ### Strings -/

/-- A string, in quotation marks. -/
def quote (text : String) : List Char := Json.quoted text.toList

/-- **A string ends at its closing quotation mark.** -/
theorem quote_append_inj {text text' : String} {s t : List Char}
    (h : quote text ++ s = quote text' ++ t) : text = text' ∧ s = t := by
  have hsplit (text : String) (s : List Char) :
      quote text ++ s = '\x22' :: (text.toList.flatMap Json.escape ++ '\x22' :: s) := by
    simp [quote, Json.quoted]
  rw [hsplit, hsplit] at h
  have hread := congrArg Json.readString (List.cons.inj h).2
  rw [Json.readString_quoted, Json.readString_quoted] at hread
  obtain ⟨htext, hrest⟩ := Prod.mk.inj (Option.some.inj hread)
  exact ⟨String.toList_inj.1 htext, hrest⟩

/-! ### Documents -/

mutual

/-- The text of a document. -/
def render : JsonValue → List Char
  | null => ['n', 'u', 'l', 'l']
  | bool true => ['t', 'r', 'u', 'e']
  | bool false => ['f', 'a', 'l', 's', 'e']
  | number text => text.toList
  | string text => quote text
  | array elements => '[' :: renderElements true elements
  | object fields => '\x7b' :: renderFields true fields

/-- The elements of an array, from the first or from a later one, and the closing bracket. -/
def renderElements (first : Bool) : List JsonValue → List Char
  | [] => [']']
  | element :: rest => (if first then [] else [',']) ++ (render element ++ renderElements false rest)

/-- The fields of an object, from the first or from a later one, and the closing brace. -/
def renderFields (first : Bool) : List (String × JsonValue) → List Char
  | [] => ['\x7d']
  | (key, value) :: rest =>
    (if first then [] else [',']) ++ (quote key ++ ':' :: (render value ++ renderFields false rest))

end

/-- A character of a number. -/
def isNumberChar (c : Char) : Bool := c.isDigit || c ∈ ['-', '+', '.', 'e', 'E']

/-- A text that can be written as a number. -/
def IsNumber (text : String) : Prop :=
  text.toList ≠ [] ∧ ∀ c ∈ text.toList, isNumberChar c = true

instance (text : String) : Decidable (IsNumber text) :=
  decidable_of_iff (text.toList ≠ [] ∧ text.toList.all isNumberChar = true) (by simp [IsNumber])

theorem isNumber_toString (n : ℤ) : IsNumber (toString n) := by
  have hdigits {m : ℕ} {c : Char} (hc : c ∈ Nat.toDigits 10 m) : isNumberChar c = true := by
    rw [isNumberChar, Nat.isDigit_of_mem_toDigits (by decide) (by decide) hc]
    rfl
  rw [IsNumber, Int.toString_eq_repr]
  cases n with
  | ofNat m =>
    rw [Int.repr, Nat.toList_repr]
    exact ⟨Nat.toDigits_ne_nil, fun c hc => hdigits hc⟩
  | negSucc m =>
    rw [Int.repr, String.toList_append, Nat.toList_repr]
    refine ⟨by simp, fun c hc => ?_⟩
    rcases mem_append.1 hc with hc | hc
    · obtain rfl : c = '-' := by simpa using hc
      rfl
    · exact hdigits hc

mutual

/-- The numbers of a document are written as numbers. -/
def Plain : JsonValue → Prop
  | number text => IsNumber text
  | array elements => PlainElements elements
  | object fields => PlainFields fields
  | _ => True

def PlainElements : List JsonValue → Prop
  | [] => True
  | element :: rest => element.Plain ∧ PlainElements rest

def PlainFields : List (String × JsonValue) → Prop
  | [] => True
  | (_, value) :: rest => value.Plain ∧ PlainFields rest

end

theorem plainElements_map_string (items : List String) :
    PlainElements (items.map string) := by
  induction items with
  | nil => trivial
  | cons item items ih => exact ⟨trivial, ih⟩

/-- What comes behind a value: no character of a number. -/
def Stops (rest : List Char) : Prop := ∀ c ∈ rest.head?, isNumberChar c = false

theorem number_append_inj {text text' : String} (h : IsNumber text) (h' : IsNumber text')
    {s t : List Char} (hs : Stops s) (ht : Stops t) (heq : text.toList ++ s = text'.toList ++ t) :
    text = text' ∧ s = t := by
  -- a number is all that can be read of one, up to where it stops
  have htake {text : String} (h : IsNumber text) {s : List Char} (hs : Stops s) :
      (text.toList ++ s).takeWhile isNumberChar = text.toList := by
    rw [takeWhile_append_of_pos h.2]
    cases s with
    | nil => simp
    | cons c s => simp [hs c rfl]
  have htext : text = text' := String.toList_inj.1 (by rw [← htake h hs, heq, htake h' ht])
  subst htext
  exact ⟨rfl, append_cancel_left heq⟩

/-- The kinds of values. -/
def kind : JsonValue → ℕ
  | null => 0
  | bool _ => 1
  | number _ => 2
  | string _ => 3
  | array _ => 4
  | object _ => 5

/-- The kind of a value that starts with a character. -/
def kindOf (c : Char) : ℕ :=
  if c = 'n' then 0
  else if c = 't' ∨ c = 'f' then 1
  else if c = '\x22' then 3
  else if c = '[' then 4
  else if c = '\x7b' then 5
  else 2

theorem kindOf_of_isNumberChar {c : Char} (h : isNumberChar c = true) : kindOf c = 2 := by
  unfold kindOf
  split_ifs with hn hb hs ha ho
  · rw [hn] at h; cases h
  · rcases hb with rfl | rfl <;> cases h
  · rw [hs] at h; cases h
  · rw [ha] at h; cases h
  · rw [ho] at h; cases h
  · rfl

/-- A value starts with a character of its kind. -/
theorem exists_render_cons {j : JsonValue} (h : j.Plain) :
    ∃ c rest, render j = c :: rest ∧ kindOf c = j.kind ∧ c ≠ ']' := by
  cases j with
  | null => exact ⟨_, _, rfl, by decide, by decide⟩
  | bool value => cases value <;> exact ⟨_, _, rfl, by decide, by decide⟩
  | number text =>
    obtain ⟨hne, hchars⟩ : IsNumber text := h
    obtain ⟨c, rest, htext⟩ := exists_cons_of_ne_nil hne
    have hc : isNumberChar c = true := hchars c (by rw [htext]; exact mem_cons_self)
    refine ⟨c, rest, htext, kindOf_of_isNumberChar hc, ?_⟩
    rintro rfl
    cases hc
  | string text => exact ⟨_, _, rfl, rfl, by decide⟩
  | array elements => exact ⟨_, _, rfl, rfl, by decide⟩
  | object fields => exact ⟨_, _, rfl, rfl, by decide⟩

theorem kind_eq_of_render {j j' : JsonValue} (h : j.Plain) (h' : j'.Plain) {s t : List Char}
    (heq : render j ++ s = render j' ++ t) : j.kind = j'.kind := by
  obtain ⟨c, rest, hrender, hkind, -⟩ := exists_render_cons h
  obtain ⟨c', rest', hrender', hkind', -⟩ := exists_render_cons h'
  rw [hrender, hrender'] at heq
  rw [← hkind, ← hkind', (List.cons.inj heq).1]

theorem stops_renderElements (elements : List JsonValue) (s : List Char) :
    Stops (renderElements false elements ++ s) := by
  cases elements <;> simp [Stops, renderElements, isNumberChar]

theorem stops_renderFields (fields : List (String × JsonValue)) (s : List Char) :
    Stops (renderFields false fields ++ s) := by
  cases fields <;> simp [Stops, renderFields, isNumberChar]

/-- The bracket that closes an array starts no element. -/
theorem renderElements_cons_ne {first : Bool} {element : JsonValue} {rest : List JsonValue}
    (h : element.Plain) (s t : List Char) :
    ']' :: s ≠ renderElements first (element :: rest) ++ t := by
  intro heq
  cases first with
  | false => cases heq
  | true =>
    obtain ⟨c, tail, hrender, -, hne⟩ := exists_render_cons h
    rw [renderElements, if_pos rfl, nil_append, hrender] at heq
    exact hne (List.cons.inj heq).1.symm

/-- The brace that closes an object starts no field. -/
theorem renderFields_cons_ne {first : Bool} {field : String × JsonValue}
    {rest : List (String × JsonValue)} (s t : List Char) :
    '\x7d' :: s ≠ renderFields first (field :: rest) ++ t := by
  cases first <;> exact fun heq => nomatch heq

mutual

/-- **A value ends where it ends**: the text of a value, and of what comes behind it, determines
both. -/
theorem render_append_inj : ∀ (j : JsonValue) {j' : JsonValue} {s t : List Char}, j.Plain →
    j'.Plain → Stops s → Stops t → render j ++ s = render j' ++ t → j = j' ∧ s = t
  | null, j', s, t, h, h', hs, ht, heq => by
    have hkind := kind_eq_of_render h h' heq
    cases j' with
    | null => exact ⟨rfl, append_cancel_left heq⟩
    | _ => exact absurd hkind (by simp [kind])
  | bool value, j', s, t, h, h', hs, ht, heq => by
    have hkind := kind_eq_of_render h h' heq
    cases j' with
    | bool value' =>
      cases value <;> cases value'
      · exact ⟨rfl, append_cancel_left heq⟩
      · cases heq
      · cases heq
      · exact ⟨rfl, append_cancel_left heq⟩
    | _ => exact absurd hkind (by simp [kind])
  | number text, j', s, t, h, h', hs, ht, heq => by
    have hkind := kind_eq_of_render h h' heq
    cases j' with
    | number text' =>
      obtain ⟨rfl, rfl⟩ := number_append_inj h h' hs ht heq
      exact ⟨rfl, rfl⟩
    | _ => exact absurd hkind (by simp [kind])
  | string text, j', s, t, h, h', hs, ht, heq => by
    have hkind := kind_eq_of_render h h' heq
    cases j' with
    | string text' =>
      obtain ⟨rfl, rfl⟩ := quote_append_inj heq
      exact ⟨rfl, rfl⟩
    | _ => exact absurd hkind (by simp [kind])
  | array elements, j', s, t, h, h', hs, ht, heq => by
    have hkind := kind_eq_of_render h h' heq
    cases j' with
    | array elements' =>
      obtain ⟨rfl, rfl⟩ := renderElements_append_inj elements h h' (List.cons.inj heq).2
      exact ⟨rfl, rfl⟩
    | _ => exact absurd hkind (by simp [kind])
  | object fields, j', s, t, h, h', hs, ht, heq => by
    have hkind := kind_eq_of_render h h' heq
    cases j' with
    | object fields' =>
      obtain ⟨rfl, rfl⟩ := renderFields_append_inj fields h h' (List.cons.inj heq).2
      exact ⟨rfl, rfl⟩
    | _ => exact absurd hkind (by simp [kind])

theorem renderElements_append_inj : ∀ (elements : List JsonValue) {first : Bool}
    {elements' : List JsonValue} {s t : List Char}, PlainElements elements →
    PlainElements elements' →
    renderElements first elements ++ s = renderElements first elements' ++ t →
      elements = elements' ∧ s = t
  | [], first, elements', s, t, h, h', heq => by
    cases elements' with
    | nil => exact ⟨rfl, (List.cons.inj heq).2⟩
    | cons element' rest' => exact absurd heq (renderElements_cons_ne h'.1 _ _)
  | element :: rest, first, elements', s, t, h, h', heq => by
    cases elements' with
    | nil => exact absurd heq.symm (renderElements_cons_ne h.1 _ _)
    | cons element' rest' =>
      simp only [renderElements, append_assoc] at heq
      -- an element stops at the comma or the bracket behind it
      obtain ⟨rfl, hrest⟩ := render_append_inj element h.1 h'.1 (stops_renderElements _ _)
        (stops_renderElements _ _) (append_cancel_left heq)
      obtain ⟨rfl, rfl⟩ := renderElements_append_inj rest h.2 h'.2 hrest
      exact ⟨rfl, rfl⟩

theorem renderFields_append_inj : ∀ (fields : List (String × JsonValue)) {first : Bool}
    {fields' : List (String × JsonValue)} {s t : List Char}, PlainFields fields →
    PlainFields fields' → renderFields first fields ++ s = renderFields first fields' ++ t →
      fields = fields' ∧ s = t
  | [], first, fields', s, t, h, h', heq => by
    cases fields' with
    | nil => exact ⟨rfl, (List.cons.inj heq).2⟩
    | cons field' rest' => exact absurd heq (renderFields_cons_ne _ _)
  | (key, value) :: rest, first, fields', s, t, h, h', heq => by
    cases fields' with
    | nil => exact absurd heq.symm (renderFields_cons_ne _ _)
    | cons field' rest' =>
      obtain ⟨key', value'⟩ := field'
      simp only [renderFields, append_assoc, cons_append] at heq
      obtain ⟨rfl, hvalue⟩ := quote_append_inj (append_cancel_left heq)
      -- a value stops at the comma or the brace behind it
      obtain ⟨rfl, hrest⟩ := render_append_inj value h.1 h'.1 (stops_renderFields _ _)
        (stops_renderFields _ _) (List.cons.inj hvalue).2
      obtain ⟨rfl, rfl⟩ := renderFields_append_inj rest h.2 h'.2 hrest
      exact ⟨rfl, rfl⟩

end

/-- **Documents with one text are one document.** -/
theorem render_injective {j j' : JsonValue} (h : j.Plain) (h' : j'.Plain)
    (heq : render j = render j') : j = j' :=
  (render_append_inj j h h' (s := []) (t := []) (by simp [Stops]) (by simp [Stops])
    (by rw [heq])).1

end JsonValue

end Cdm
