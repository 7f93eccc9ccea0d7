import Cdm.Codec.Plan
import Cdm.Lib.Encoded

/-!
# Converting framed values there and back

What the conversion of a sequence, a map, a tuple or a vector does, in terms of the elements it
reads, and on which values the conversion the other way undoes it: those that are framed as the
conversion frames its own results.  A sequence or a map with bytes behind its last element, a tuple
with fewer components than its type, a null marker other than `-1`, and a set with an element twice
are all read, and come back in another form.
-/

namespace Cdm

open Fallible List

namespace Wire

/-! ### Sequences of elements -/

/-- `n` elements, and what remains. -/
def takeElements : ℕ → Bytes → Except CdmError (List RawCell × Bytes)
  | 0, bytes => .ok ([], bytes)
  | n + 1, bytes => do
    let (element, rest) ← takeElement bytes
    let (elements, rest) ← takeElements n rest
    return (element :: elements, rest)

theorem writeElements_cons_eq_ok {element : RawCell} {elements : List RawCell} {out : Bytes} :
    writeElements (element :: elements) = .ok out ↔
      ∃ first others, writeElement element = .ok first ∧ writeElements elements = .ok others ∧
        out = first ++ others := by
  rw [writeElements, bind_eq_ok]
  constructor
  · rintro ⟨first, hfirst, h⟩
    obtain ⟨others, hothers, h⟩ := bind_eq_ok.1 h
    cases h
    exact ⟨first, others, hfirst, hothers, rfl⟩
  · rintro ⟨first, others, hfirst, hothers, rfl⟩
    exact ⟨first, hfirst, bind_eq_ok.2 ⟨others, hothers, rfl⟩⟩

theorem takeElements_cons_eq_ok {n : ℕ} {bytes rest : Bytes} {elements : List RawCell} :
    takeElements (n + 1) bytes = .ok (elements, rest) ↔
      ∃ element between others, takeElement bytes = .ok (element, between) ∧
        takeElements n between = .ok (others, rest) ∧ elements = element :: others := by
  rw [takeElements, bind_eq_ok]
  constructor
  · rintro ⟨⟨element, between⟩, helement, h⟩
    obtain ⟨⟨others, rest'⟩, hothers, h⟩ := bind_eq_ok.1 h
    cases h
    exact ⟨element, between, others, helement, hothers, rfl⟩
  · rintro ⟨element, between, others, helement, hothers, rfl⟩
    exact ⟨(element, between), helement, bind_eq_ok.2 ⟨(others, rest), hothers, rfl⟩⟩

/-- Elements read back as they were written. -/
theorem takeElements_append {elements : List RawCell} {out : Bytes}
    (h : writeElements elements = .ok out) (rest : Bytes) :
    takeElements elements.length (out ++ rest) = .ok (elements, rest) := by
  induction elements generalizing out with
  | nil =>
    cases h
    rfl
  | cons element elements ih =>
    obtain ⟨first, others, hfirst, hothers, rfl⟩ := writeElements_cons_eq_ok.1 h
    refine takeElements_cons_eq_ok.2 ⟨element, others ++ rest, elements, ?_, ih hothers, rfl⟩
    rw [append_assoc]
    exact takeElement_append hfirst _

/-- The bytes are a count and the elements, as they are written. -/
def IsSequence (elements : List RawCell) (bytes : Bytes) : Prop :=
  elements.length < 2 ^ 31 ∧
    ∃ out, writeElements elements = .ok out ∧ bytes = writeI32 elements.length ++ out

/-- A sequence reads back as it was written. -/
theorem IsSequence.read {elements : List RawCell} {bytes : Bytes} (h : IsSequence elements bytes) :
    ∃ rest, takeI32 bytes = .ok ((elements.length : ℤ), rest) ∧
      takeElements elements.length rest = .ok (elements, []) := by
  obtain ⟨hlt, out, hwrite, rfl⟩ := h
  refine ⟨out, takeI32_eq_ok.2 ⟨rfl, by omega, by omega⟩, ?_⟩
  have hread := takeElements_append hwrite []
  rwa [append_nil] at hread

/-! ### Map entries -/

/-- The keys and values of map entries, in turn. -/
def flatten (entries : List (RawCell × RawCell)) : List RawCell :=
  entries.flatMap fun entry => [entry.1, entry.2]

theorem takeEntries_cons_eq_ok {n : ℕ} {bytes rest : Bytes} {entries : List (RawCell × RawCell)} :
    takeEntries (n + 1) bytes = .ok (entries, rest) ↔
      ∃ key between value behind others, takeElement bytes = .ok (key, between) ∧
        takeElement between = .ok (value, behind) ∧ takeEntries n behind = .ok (others, rest) ∧
        entries = (key, value) :: others := by
  rw [takeEntries, bind_eq_ok]
  constructor
  · rintro ⟨⟨key, between⟩, hkey, h⟩
    obtain ⟨⟨value, behind⟩, hvalue, h⟩ := bind_eq_ok.1 h
    obtain ⟨⟨others, rest'⟩, hothers, h⟩ := bind_eq_ok.1 h
    cases h
    exact ⟨key, between, value, behind, others, hkey, hvalue, hothers, rfl⟩
  · rintro ⟨key, between, value, behind, others, hkey, hvalue, hothers, rfl⟩
    exact ⟨(key, between), hkey, bind_eq_ok.2 ⟨(value, behind), hvalue,
      bind_eq_ok.2 ⟨(others, rest), hothers, rfl⟩⟩⟩

theorem writeElements_flatten_cons_eq_ok {entry : RawCell × RawCell}
    {entries : List (RawCell × RawCell)} {out : Bytes} :
    writeElements (flatten (entry :: entries)) = .ok out ↔
      ∃ key value others, writeElement entry.1 = .ok key ∧ writeElement entry.2 = .ok value ∧
        writeElements (flatten entries) = .ok others ∧ out = key ++ value ++ others := by
  have hcons : flatten (entry :: entries) = entry.1 :: entry.2 :: flatten entries := rfl
  rw [hcons, writeElements_cons_eq_ok]
  constructor
  · rintro ⟨key, rest, hkey, h, rfl⟩
    obtain ⟨value, others, hvalue, hothers, rfl⟩ := writeElements_cons_eq_ok.1 h
    exact ⟨key, value, others, hkey, hvalue, hothers, (append_assoc ..).symm⟩
  · rintro ⟨key, value, others, hkey, hvalue, hothers, rfl⟩
    exact ⟨key, value ++ others, hkey, writeElements_cons_eq_ok.2
      ⟨value, others, hvalue, hothers, rfl⟩, append_assoc ..⟩

/-- Entries read back as they were written. -/
theorem takeEntries_append {entries : List (RawCell × RawCell)} {out : Bytes}
    (h : writeElements (flatten entries) = .ok out) (rest : Bytes) :
    takeEntries entries.length (out ++ rest) = .ok (entries, rest) := by
  induction entries generalizing out with
  | nil =>
    cases h
    rfl
  | cons entry entries ih =>
    obtain ⟨key, value, others, hkey, hvalue, hothers, rfl⟩ := writeElements_flatten_cons_eq_ok.1 h
    refine takeEntries_cons_eq_ok.2 ⟨entry.1, value ++ (others ++ rest), entry.2, others ++ rest,
      entries, ?_, takeElement_append hvalue _, ih hothers, rfl⟩
    rw [append_assoc, append_assoc]
    exact takeElement_append hkey _

theorem length_takeEntries {n : ℕ} {bytes rest : Bytes} {entries : List (RawCell × RawCell)}
    (h : takeEntries n bytes = .ok (entries, rest)) : entries.length = n := by
  induction n generalizing bytes entries with
  | zero =>
    cases h
    rfl
  | succ n ih =>
    obtain ⟨key, between, value, behind, others, -, -, hothers, rfl⟩ := takeEntries_cons_eq_ok.1 h
    rw [length_cons, ih hothers]

/-- The bytes are a count and as many entries, as they are written.  A negative count stands for no
entries. -/
def IsMap (count : ℤ) (entries : List (RawCell × RawCell)) (bytes : Bytes) : Prop :=
  (-2 ^ 31 ≤ count ∧ count < 2 ^ 31) ∧ entries.length = count.toNat ∧
    ∃ out, writeElements (flatten entries) = .ok out ∧ bytes = writeI32 count ++ out

/-- A map reads back as it was written. -/
theorem IsMap.read {count : ℤ} {entries : List (RawCell × RawCell)} {bytes : Bytes}
    (h : IsMap count entries bytes) :
    ∃ rest, takeI32 bytes = .ok (count, rest) ∧
      takeEntries count.toNat rest = .ok (entries, []) := by
  obtain ⟨hrange, hlen, out, hwrite, rfl⟩ := h
  refine ⟨out, takeI32_eq_ok.2 ⟨rfl, hrange⟩, ?_⟩
  have hread := takeEntries_append hwrite []
  rwa [append_nil, hlen] at hread

/-! ### Components -/

/-- Components read back as they were written. -/
theorem readFields_write {elements : List RawCell} {out : Bytes}
    (h : writeElements elements = .ok out) :
    ConversionPlan.readFields elements.length out = .ok elements := by
  induction elements generalizing out with
  | nil => rfl
  | cons element elements ih =>
    obtain ⟨first, others, hfirst, hothers, rfl⟩ := writeElements_cons_eq_ok.1 h
    have hread := takeElement_append hfirst others
    -- something is written for every element, so there is something to read
    obtain ⟨b, bs, hbytes⟩ : ∃ b bs, first ++ others = b :: bs := by
      refine exists_cons_of_ne_nil ?_
      intro hnil
      rw [hnil] at hread
      cases hread
    rw [hbytes] at hread
    rw [length_cons, hbytes, ConversionPlan.readFields]
    exact bind_eq_ok.2 ⟨(element, others), hread,
      bind_eq_ok.2 ⟨elements, ih hothers, rfl⟩⟩

end Wire

namespace ConversionPlan

open Wire Fallible

/-! ### Lists and sets -/

/-- What a conversion has read, when it has converted `n` elements. -/
theorem convertElements_eq_ok {f : Converter} {dedupe : Bool} {n : ℕ} {bytes : Bytes}
    {kept out : List RawCell} :
    convertElements f dedupe n bytes kept = .ok out ↔
      ∃ elements rest converted, takeElements n bytes = .ok (elements, rest) ∧
        elements.mapM (applyElement f) = .ok converted ∧
        out = if dedupe then keepFirst kept converted else kept ++ converted := by
  induction n generalizing bytes kept with
  | zero =>
    rw [convertElements]
    constructor
    · intro h
      cases h
      exact ⟨[], bytes, [], rfl, rfl, by simp [keepFirst_nil]⟩
    · rintro ⟨elements, rest, converted, htake, hmap, rfl⟩
      cases htake
      cases hmap
      simp [keepFirst_nil]
  | succ n ih =>
    -- the first element is read and converted, and then either dropped or kept
    have hstep (between : Bytes) (first : RawCell) :
        (if dedupe && kept.contains first then convertElements f dedupe n between kept
          else convertElements f dedupe n between (kept ++ [first])) = .ok out ↔
        ∃ elements rest converted, takeElements n between = .ok (elements, rest) ∧
          elements.mapM (applyElement f) = .ok converted ∧
          out = if dedupe then keepFirst kept (first :: converted) else
            kept ++ first :: converted := by
      split_ifs with hdrop hd hd
      · rw [ih]
        simp only [Bool.and_eq_true] at hdrop
        simp only [if_pos hd, keepFirst_cons, if_pos (contains_iff_mem.1 hdrop.2)]
      · simp [hd] at hdrop
      · rw [ih]
        have hnot : first ∉ kept := by simpa [hd] using hdrop
        simp only [if_pos hd, keepFirst_cons, if_neg hnot]
      · rw [ih]
        simp [hd]
    rw [convertElements, bind_eq_ok]
    constructor
    · rintro ⟨⟨element, between⟩, helement, h⟩
      obtain ⟨first, hfirst, h⟩ := bind_eq_ok.1 h
      obtain ⟨elements, rest, converted, htake, hmap, rfl⟩ := (hstep between first).1 h
      refine ⟨element :: elements, rest, first :: converted,
        takeElements_cons_eq_ok.2 ⟨element, between, elements, helement, htake, rfl⟩, ?_, rfl⟩
      rw [mapM_cons, hfirst, hmap]
      rfl
    · rintro ⟨elements, rest, converted, htake, hmap, hout⟩
      obtain ⟨element, between, others, helement, hothers, rfl⟩ := takeElements_cons_eq_ok.1 htake
      rw [mapM_cons, bind_eq_ok] at hmap
      obtain ⟨first, hfirst, hmap⟩ := hmap
      obtain ⟨converted, hothers', hmap⟩ := bind_eq_ok.1 hmap
      cases hmap
      refine ⟨(element, between), helement, bind_eq_ok.2 ⟨first, hfirst, ?_⟩⟩
      exact (hstep between first).2 ⟨others, rest, converted, hothers, hothers', hout⟩

/-- What a conversion of a sequence has read and written. -/
theorem applySequence_eq_ok {f : Converter} {dedupe : Bool} {bytes out : Bytes} :
    applySequence f bytes dedupe = .ok out ↔
      ∃ count rest elements behind converted, takeI32 bytes = .ok (count, rest) ∧
        takeElements count.toNat rest = .ok (elements, behind) ∧
        elements.mapM (applyElement f) = .ok converted ∧
        IsSequence (if dedupe then keepFirst [] converted else converted) out := by
  rw [applySequence, bind_eq_ok]
  constructor
  · rintro ⟨⟨count, rest⟩, hcount, h⟩
    obtain ⟨all, hall, h⟩ := bind_eq_ok.1 h
    obtain ⟨elements, behind, converted, htake, hmap, hout⟩ := convertElements_eq_ok.1 hall
    split_ifs at h with hlt
    obtain ⟨written, hwrite, h⟩ := bind_eq_ok.1 h
    cases h
    refine ⟨count, rest, elements, behind, converted, hcount, htake, hmap, ?_⟩
    rw [nil_append] at hout
    rw [← hout]
    exact ⟨hlt, written, hwrite, rfl⟩
  · rintro ⟨count, rest, elements, behind, converted, hcount, htake, hmap, hlt, written, hwrite, rfl⟩
    refine ⟨(count, rest), hcount, bind_eq_ok.2 ⟨_, convertElements_eq_ok.2
      ⟨elements, behind, converted, htake, hmap, rfl⟩, ?_⟩⟩
    rw [nil_append, if_pos hlt]
    exact bind_eq_ok.2 ⟨written, hwrite, rfl⟩

/-- The conversion of a sequence that is framed as it is written. -/
theorem applySequence_of_isSequence {f : Converter} {dedupe : Bool} {elements : List RawCell}
    {bytes out : Bytes} (h : IsSequence elements bytes) :
    applySequence f bytes dedupe = .ok out ↔
      ∃ converted, elements.mapM (applyElement f) = .ok converted ∧
        IsSequence (if dedupe then keepFirst [] converted else converted) out := by
  obtain ⟨rest, hcount, htake⟩ := h.read
  rw [applySequence_eq_ok]
  constructor
  · rintro ⟨count, rest', elements', behind, converted, hcount', htake', hmap, hseq⟩
    cases hcount.symm.trans hcount'
    cases htake.symm.trans htake'
    exact ⟨converted, hmap, hseq⟩
  · rintro ⟨converted, hmap, hseq⟩
    exact ⟨_, rest, elements, [], converted, hcount, htake, hmap, hseq⟩

section Undone

variable {f g : Converter} {C : RawCell → Prop}

/-- A list is undone when it is framed as it is written and each element is undone. -/
theorem undone_list (h : UndoneOn (applyElement f) (applyElement g) C) :
    UndoneOn (fun bytes => applySequence f bytes false) (fun bytes => applySequence g bytes false)
      (fun bytes => ∃ elements, IsSequence elements bytes ∧ ∀ e ∈ elements, C e) := by
  intro bytes out hf
  obtain ⟨count, rest, elements, behind, converted, hcount, htake, hmap, hseq⟩ :=
    applySequence_eq_ok.1 hf
  rw [applySequence_of_isSequence hseq]
  simp only [Bool.false_eq_true, if_false]
  constructor
  · rintro ⟨back, hback, hframed⟩
    obtain ⟨rest', hcount', htake'⟩ := hframed.read
    cases hcount.symm.trans hcount'
    cases htake.symm.trans htake'
    exact ⟨elements, hframed, (h.mapM hmap).1 hback⟩
  · rintro ⟨elements', hframed, hC⟩
    obtain ⟨rest', hcount', htake'⟩ := hframed.read
    cases hcount.symm.trans hcount'
    cases htake.symm.trans htake'
    exact ⟨elements, (h.mapM hmap).2 hC, hframed⟩

/-- A set is undone when, besides, no element is in it twice. -/
theorem undone_set (h : UndoneOn (applyElement f) (applyElement g) C) :
    UndoneOn (fun bytes => applySequence f bytes true) (fun bytes => applySequence g bytes true)
      (fun bytes => ∃ elements, IsSequence elements bytes ∧ elements.Nodup ∧ ∀ e ∈ elements, C e) := by
  intro bytes out hf
  obtain ⟨count, rest, elements, behind, converted, hcount, htake, hmap, hseq⟩ :=
    applySequence_eq_ok.1 hf
  rw [applySequence_of_isSequence hseq]
  simp only [if_true]
  constructor
  · rintro ⟨back, hback, hframed⟩
    obtain ⟨rest', hcount', htake'⟩ := hframed.read
    cases hcount.symm.trans hcount'
    cases htake.symm.trans htake'
    -- as many elements have come back as were read, so none has been dropped on either way
    have hlen := length_mapM hmap
    have hlen' := length_mapM hback
    have hle := length_keepFirst_le [] converted
    have hle' := length_keepFirst_le [] back
    simp only [length_nil, Nat.zero_add] at hle hle'
    have hconverted : converted.Nodup := nodup_of_length_keepFirst nodup_nil
      (by simp only [length_nil]; omega)
    have hnodup : back.Nodup := nodup_of_length_keepFirst nodup_nil
      (by simp only [length_nil]; omega)
    rw [keepFirst_eq_self hconverted] at hback
    rw [keepFirst_eq_self hnodup] at hframed hmap
    exact ⟨back, hframed, hnodup, (h.mapM hmap).1 hback⟩
  · rintro ⟨elements', hframed, hnodup, hC⟩
    obtain ⟨rest', hcount', htake'⟩ := hframed.read
    cases hcount.symm.trans hcount'
    cases htake.symm.trans htake'
    have hback := (h.mapM hmap).2 hC
    have hconverted := nodup_of_mapM hback hnodup
    refine ⟨elements, ?_, ?_⟩
    · rw [keepFirst_eq_self hconverted]
      exact hback
    · rw [keepFirst_eq_self hnodup]
      exact hframed

end Undone

/-! ### Maps -/

/-- Converts one map entry. -/
def convertEntry (fk fv : Converter) (entry : RawCell × RawCell) :
    Except CdmError (RawCell × RawCell) := do
  let key ← applyElement fk entry.1
  let value ← applyElement fv entry.2
  return (key, value)

theorem convertEntry_eq_ok {fk fv : Converter} {entry out : RawCell × RawCell} :
    convertEntry fk fv entry = .ok out ↔
      applyElement fk entry.1 = .ok out.1 ∧ applyElement fv entry.2 = .ok out.2 := by
  rw [convertEntry, bind_eq_ok]
  constructor
  · rintro ⟨key, hkey, h⟩
    obtain ⟨value, hvalue, h⟩ := bind_eq_ok.1 h
    cases h
    exact ⟨hkey, hvalue⟩
  · rintro ⟨hkey, hvalue⟩
    exact ⟨out.1, hkey, bind_eq_ok.2 ⟨out.2, hvalue, rfl⟩⟩

/-- What a conversion has read and written, when it has converted `n` entries. -/
theorem convertEntries_eq_ok {fk fv : Converter} {n : ℕ} {bytes out : Bytes} :
    convertEntries fk fv n bytes = .ok out ↔
      ∃ entries rest converted, takeEntries n bytes = .ok (entries, rest) ∧
        entries.mapM (convertEntry fk fv) = .ok converted ∧
        writeElements (flatten converted) = .ok out := by
  induction n generalizing bytes out with
  | zero =>
    rw [convertEntries]
    constructor
    · intro h
      cases h
      exact ⟨[], bytes, [], rfl, rfl, rfl⟩
    · rintro ⟨entries, rest, converted, htake, hmap, hwrite⟩
      cases htake
      cases hmap
      exact hwrite
  | succ n ih =>
    rw [convertEntries, bind_eq_ok]
    constructor
    · rintro ⟨⟨key, between⟩, hkey, h⟩
      obtain ⟨key', hkey', h⟩ := bind_eq_ok.1 h
      obtain ⟨⟨value, behind⟩, hvalue, h⟩ := bind_eq_ok.1 h
      obtain ⟨value', hvalue', h⟩ := bind_eq_ok.1 h
      obtain ⟨keyOut, hkeyOut, h⟩ := bind_eq_ok.1 h
      obtain ⟨valueOut, hvalueOut, h⟩ := bind_eq_ok.1 h
      obtain ⟨others, hothers, h⟩ := bind_eq_ok.1 h
      cases h
      obtain ⟨entries, rest, converted, htake, hmap, hwrite⟩ := ih.1 hothers
      refine ⟨(key, value) :: entries, rest, (key', value') :: converted,
        takeEntries_cons_eq_ok.2 ⟨key, between, value, behind, entries, hkey, hvalue, htake, rfl⟩, ?_,
        writeElements_flatten_cons_eq_ok.2
          ⟨keyOut, valueOut, others, hkeyOut, hvalueOut, hwrite, rfl⟩⟩
      have hentry : convertEntry fk fv (key, value) = .ok (key', value') :=
        convertEntry_eq_ok.2 ⟨hkey', hvalue'⟩
      rw [mapM_cons, hentry, hmap]
      rfl
    · rintro ⟨entries, rest, converted, htake, hmap, hwrite⟩
      obtain ⟨key, between, value, behind, others, hkey, hvalue, hothers, rfl⟩ :=
        takeEntries_cons_eq_ok.1 htake
      rw [mapM_cons, bind_eq_ok] at hmap
      obtain ⟨⟨key', value'⟩, hentry, hmap⟩ := hmap
      obtain ⟨converted', hmap', hmap⟩ := bind_eq_ok.1 hmap
      cases hmap
      obtain ⟨hkey', hvalue'⟩ := convertEntry_eq_ok.1 hentry
      obtain ⟨keyOut, valueOut, written, hkeyOut, hvalueOut, hwritten, rfl⟩ :=
        writeElements_flatten_cons_eq_ok.1 hwrite
      exact ⟨(key, between), hkey, bind_eq_ok.2 ⟨key', hkey', bind_eq_ok.2 ⟨(value, behind), hvalue,
        bind_eq_ok.2 ⟨value', hvalue', bind_eq_ok.2 ⟨keyOut, hkeyOut, bind_eq_ok.2 ⟨valueOut, hvalueOut,
        bind_eq_ok.2 ⟨written, ih.2 ⟨others, rest, converted', hothers, hmap', hwritten⟩, rfl⟩⟩⟩⟩⟩⟩⟩

/-- What a conversion of a map has read and written. -/
theorem applyMap_eq_ok {fk fv : Converter} {bytes out : Bytes} :
    applyMap fk fv bytes = .ok out ↔
      ∃ count rest entries behind converted, takeI32 bytes = .ok (count, rest) ∧
        takeEntries count.toNat rest = .ok (entries, behind) ∧
        entries.mapM (convertEntry fk fv) = .ok converted ∧ IsMap count converted out := by
  rw [applyMap, bind_eq_ok]
  constructor
  · rintro ⟨⟨count, rest⟩, hcount, h⟩
    obtain ⟨written, hwritten, h⟩ := bind_eq_ok.1 h
    cases h
    obtain ⟨entries, behind, converted, htake, hmap, hwrite⟩ := convertEntries_eq_ok.1 hwritten
    refine ⟨count, rest, entries, behind, converted, hcount, htake, hmap, (takeI32_eq_ok.1 hcount).2,
      ?_, written, hwrite, rfl⟩
    rw [length_mapM hmap, length_takeEntries htake]
  · rintro ⟨count, rest, entries, behind, converted, hcount, htake, hmap, -, -, written, hwrite, rfl⟩
    exact ⟨(count, rest), hcount, bind_eq_ok.2 ⟨written, convertEntries_eq_ok.2
      ⟨entries, behind, converted, htake, hmap, hwrite⟩, rfl⟩⟩

/-- The conversion of a map that is framed as it is written. -/
theorem applyMap_of_isMap {fk fv : Converter} {count : ℤ} {entries : List (RawCell × RawCell)}
    {bytes out : Bytes} (h : IsMap count entries bytes) :
    applyMap fk fv bytes = .ok out ↔
      ∃ converted, entries.mapM (convertEntry fk fv) = .ok converted ∧ IsMap count converted out := by
  obtain ⟨rest, hcount, htake⟩ := h.read
  rw [applyMap_eq_ok]
  constructor
  · rintro ⟨count', rest', entries', behind, converted, hcount', htake', hmap, hframed⟩
    cases hcount.symm.trans hcount'
    cases htake.symm.trans htake'
    exact ⟨converted, hmap, hframed⟩
  · rintro ⟨converted, hmap, hframed⟩
    exact ⟨count, rest, entries, [], converted, hcount, htake, hmap, hframed⟩

/-- A map is undone when it is framed as it is written, and each key and value is undone. -/
theorem undone_map {fk fv gk gv : Converter} {Ck Cv : RawCell → Prop}
    (hk : UndoneOn (applyElement fk) (applyElement gk) Ck)
    (hv : UndoneOn (applyElement fv) (applyElement gv) Cv) :
    UndoneOn (applyMap fk fv) (applyMap gk gv)
      (fun bytes => ∃ count entries, IsMap count entries bytes ∧
        ∀ entry ∈ entries, Ck entry.1 ∧ Cv entry.2) := by
  have hentry : UndoneOn (convertEntry fk fv) (convertEntry gk gv)
      (fun entry => Ck entry.1 ∧ Cv entry.2) := by
    intro entry converted hf
    obtain ⟨hkey, hvalue⟩ := convertEntry_eq_ok.1 hf
    rw [convertEntry_eq_ok, hk hkey, hv hvalue]
  intro bytes out hf
  obtain ⟨count, rest, entries, behind, converted, hcount, htake, hmap, hframed⟩ :=
    applyMap_eq_ok.1 hf
  rw [applyMap_of_isMap hframed]
  constructor
  · rintro ⟨back, hback, hback'⟩
    obtain ⟨rest', hcount', htake'⟩ := hback'.read
    cases hcount.symm.trans hcount'
    cases htake.symm.trans htake'
    exact ⟨count, entries, hback', (hentry.mapM hmap).1 hback⟩
  · rintro ⟨count', entries', hback', hC⟩
    obtain ⟨rest', hcount', htake'⟩ := hback'.read
    cases hcount.symm.trans hcount'
    cases htake.symm.trans htake'
    exact ⟨entries, (hentry.mapM hmap).2 hC, hback'⟩

/-! ### Tuples -/

/-- Converts each component with its own conversion. -/
def convertEach : List Converter → List RawCell → Except CdmError (List RawCell)
  | f :: fs, element :: elements => do
    let converted ← applyElement f element
    let others ← convertEach fs elements
    return converted :: others
  | _, _ => .ok []

theorem convertEach_cons_eq_ok {f : Converter} {fs : List Converter} {element : RawCell}
    {elements out : List RawCell} :
    convertEach (f :: fs) (element :: elements) = .ok out ↔
      ∃ converted others, applyElement f element = .ok converted ∧
        convertEach fs elements = .ok others ∧ out = converted :: others := by
  rw [convertEach, bind_eq_ok]
  constructor
  · rintro ⟨converted, hconverted, h⟩
    obtain ⟨others, hothers, h⟩ := bind_eq_ok.1 h
    cases h
    exact ⟨converted, others, hconverted, hothers, rfl⟩
  · rintro ⟨converted, others, hconverted, hothers, rfl⟩
    exact ⟨converted, hconverted, bind_eq_ok.2 ⟨others, hothers, rfl⟩⟩

theorem length_convertEach {fs : List Converter} {elements out : List RawCell}
    (hlen : elements.length = fs.length) (h : convertEach fs elements = .ok out) :
    out.length = fs.length := by
  induction fs generalizing elements out with
  | nil =>
    cases h
    rfl
  | cons f fs ih =>
    cases elements with
    | nil => cases hlen
    | cons element elements =>
      obtain ⟨converted, others, -, hothers, rfl⟩ := convertEach_cons_eq_ok.1 h
      rw [length_cons, length_cons, ih (by simpa using hlen) hothers]

theorem readFields_cons_eq_ok {n : ℕ} {b : UInt8} {bs : Bytes} {elements : List RawCell} :
    readFields (n + 1) (b :: bs) = .ok elements ↔
      ∃ element rest others, takeElement (b :: bs) = .ok (element, rest) ∧
        readFields n rest = .ok others ∧ elements = element :: others := by
  rw [readFields, bind_eq_ok]
  constructor
  · rintro ⟨⟨element, rest⟩, helement, h⟩
    obtain ⟨others, hothers, h⟩ := bind_eq_ok.1 h
    cases h
    exact ⟨element, rest, others, helement, hothers, rfl⟩
  · rintro ⟨element, rest, others, helement, hothers, rfl⟩
    exact ⟨(element, rest), helement, bind_eq_ok.2 ⟨others, hothers, rfl⟩⟩

theorem readFields_nil (n : ℕ) : readFields n [] = .ok (List.replicate n none) := by
  induction n with
  | zero => rfl
  | succ n ih =>
    rw [readFields, ih]
    rfl

theorem length_readFields {n : ℕ} {bytes : Bytes} {elements : List RawCell}
    (h : readFields n bytes = .ok elements) : elements.length = n := by
  induction n generalizing bytes elements with
  | zero =>
    cases h
    rfl
  | succ n ih =>
    cases bytes with
    | nil =>
      rw [readFields_nil] at h
      cases h
      simp
    | cons b bs =>
      obtain ⟨element, rest, others, -, hothers, rfl⟩ := readFields_cons_eq_ok.1 h
      rw [length_cons, ih hothers]

/-- What a conversion of a tuple has read and written. -/
theorem applyTuple_eq_ok {fs : List Converter} {bytes out : Bytes} :
    applyTuple fs bytes = .ok out ↔
      ∃ elements converted, readFields fs.length bytes = .ok elements ∧
        convertEach fs elements = .ok converted ∧ writeElements converted = .ok out := by
  induction fs generalizing bytes out with
  | nil =>
    constructor
    · intro h
      cases h
      exact ⟨[], [], rfl, rfl, rfl⟩
    · rintro ⟨elements, converted, hread, hconvert, hwrite⟩
      cases hconvert
      exact hwrite
  | cons f fs ih =>
    cases bytes with
    | nil =>
      rw [applyTuple, bind_eq_ok, length_cons]
      constructor
      · rintro ⟨first, hfirst, h⟩
        obtain ⟨others, hothers, h⟩ := bind_eq_ok.1 h
        cases h
        obtain ⟨elements, converted, hread, hconvert, hwrite⟩ := ih.1 hothers
        refine ⟨none :: elements, none :: converted, ?_,
          convertEach_cons_eq_ok.2 ⟨none, converted, rfl, hconvert, rfl⟩,
          writeElements_cons_eq_ok.2 ⟨first, others, hfirst, hwrite, rfl⟩⟩
        rw [readFields, hread]
        rfl
      · rintro ⟨elements, converted, hread, hconvert, hwrite⟩
        obtain ⟨others, hothers, h⟩ := bind_eq_ok.1 hread
        cases h
        obtain ⟨first, converted', hfirst, hconvert', rfl⟩ := convertEach_cons_eq_ok.1 hconvert
        cases hfirst
        obtain ⟨firstOut, othersOut, hfirstOut, hothersOut, rfl⟩ := writeElements_cons_eq_ok.1 hwrite
        exact ⟨firstOut, hfirstOut, bind_eq_ok.2 ⟨othersOut,
          ih.2 ⟨others, converted', hothers, hconvert', hothersOut⟩, rfl⟩⟩
    | cons b bs =>
      rw [applyTuple, bind_eq_ok, length_cons]
      constructor
      · rintro ⟨⟨element, rest⟩, helement, h⟩
        obtain ⟨first, hfirst, h⟩ := bind_eq_ok.1 h
        obtain ⟨firstOut, hfirstOut, h⟩ := bind_eq_ok.1 h
        obtain ⟨othersOut, hothersOut, h⟩ := bind_eq_ok.1 h
        cases h
        obtain ⟨elements, converted, hread, hconvert, hwrite⟩ := ih.1 hothersOut
        exact ⟨element :: elements, first :: converted,
          readFields_cons_eq_ok.2 ⟨element, rest, elements, helement, hread, rfl⟩,
          convertEach_cons_eq_ok.2 ⟨first, converted, hfirst, hconvert, rfl⟩,
          writeElements_cons_eq_ok.2 ⟨firstOut, othersOut, hfirstOut, hwrite, rfl⟩⟩
      · rintro ⟨elements, converted, hread, hconvert, hwrite⟩
        obtain ⟨element, rest, others, helement, hothers, rfl⟩ := readFields_cons_eq_ok.1 hread
        obtain ⟨first, converted', hfirst, hconvert', rfl⟩ := convertEach_cons_eq_ok.1 hconvert
        obtain ⟨firstOut, othersOut, hfirstOut, hothersOut, rfl⟩ := writeElements_cons_eq_ok.1 hwrite
        exact ⟨(element, rest), helement, bind_eq_ok.2 ⟨first, hfirst, bind_eq_ok.2
          ⟨firstOut, hfirstOut, bind_eq_ok.2 ⟨othersOut,
            ih.2 ⟨others, converted', hothers, hconvert', hothersOut⟩, rfl⟩⟩⟩⟩

/-- A tuple is undone when all its components are there, written as they are written, and each is
undone. -/
theorem undone_tuple {fs gs : List Converter} {C : List RawCell → Prop}
    (hlen : fs.length = gs.length)
    (h : ∀ elements converted, elements.length = fs.length → convertEach fs elements = .ok converted →
      (convertEach gs converted = .ok elements ↔ C elements)) :
    UndoneOn (applyTuple fs) (applyTuple gs)
      (fun bytes => ∃ elements, elements.length = fs.length ∧ writeElements elements = .ok bytes ∧
        C elements) := by
  intro bytes out hf
  obtain ⟨elements, converted, hread, hconvert, hwrite⟩ := applyTuple_eq_ok.1 hf
  have hcount := length_readFields hread
  have hcount' := length_convertEach hcount hconvert
  have hread' : readFields gs.length out = .ok converted := by
    rw [← hlen, ← hcount']
    exact readFields_write hwrite
  rw [applyTuple_eq_ok]
  constructor
  · rintro ⟨converted', back, hsame, hback, hframed⟩
    cases hread'.symm.trans hsame
    have hback' := length_convertEach (hcount'.trans hlen) hback
    have hsame' := readFields_write hframed
    rw [hback', ← hlen, hread] at hsame'
    cases hsame'
    exact ⟨elements, hcount, hframed, (h _ _ hcount hconvert).1 hback⟩
  · rintro ⟨elements', hcount'', hframed, hC⟩
    have hsame' := readFields_write hframed
    rw [hcount'', hread] at hsame'
    cases hsame'
    exact ⟨converted, elements, hread', (h _ _ hcount hconvert).2 hC, hframed⟩

/-! ### Vectors -/

theorem convertVector_succ_eq_ok {f : Converter} {width n : ℕ} {bytes out : Bytes} :
    convertVector f width (n + 1) bytes = .ok out ↔
      ∃ element rest converted others, element.length = width ∧ bytes = element ++ rest ∧
        f (some element) = .ok (some converted) ∧ convertVector f width n rest = .ok others ∧
        out = converted ++ others := by
  rw [convertVector, bind_eq_ok]
  constructor
  · rintro ⟨⟨element, rest⟩, htake, h⟩
    obtain ⟨converted, hconverted, h⟩ := bind_eq_ok.1 h
    cases converted with
    | none => cases h
    | some converted =>
      obtain ⟨others, hothers, h⟩ := bind_eq_ok.1 h
      cases h
      obtain ⟨hlen, rfl⟩ := take_eq_ok.1 htake
      exact ⟨element, rest, converted, others, hlen, rfl, hconverted, hothers, rfl⟩
  · rintro ⟨element, rest, converted, others, hlen, rfl, hconverted, hothers, rfl⟩
    exact ⟨(element, rest), take_eq_ok.2 ⟨hlen, rfl⟩, bind_eq_ok.2 ⟨some converted, hconverted,
      bind_eq_ok.2 ⟨others, hothers, rfl⟩⟩⟩

theorem applyVector_eq_ok {f : Converter} {dimensions width : ℕ} {bytes out : Bytes} :
    applyVector f dimensions width bytes = .ok out ↔
      bytes.length = dimensions * width ∧ convertVector f width dimensions bytes = .ok out := by
  rw [applyVector]
  split_ifs with h
  · simp [h]
  · simp [not_not.1 h]

section Vector

variable {f g : Converter} {width width' : ℕ}

theorem convertVector_undone
    (h : ∀ x y, f (some x) = .ok y → ∃ converted, y = some converted ∧ converted.length = width' ∧
      g (some converted) = .ok (some x)) {n : ℕ} {bytes out : Bytes}
    (hlen : bytes.length = n * width) (hf : convertVector f width n bytes = .ok out) :
    out.length = n * width' ∧ convertVector g width' n out = .ok bytes := by
  induction n generalizing bytes out with
  | zero =>
    cases hf
    rw [Nat.zero_mul, length_eq_zero_iff] at hlen
    subst hlen
    exact ⟨by simp, rfl⟩
  | succ n ih =>
    obtain ⟨element, rest, converted, others, helement, rfl, hconverted, hothers, rfl⟩ :=
      convertVector_succ_eq_ok.1 hf
    obtain ⟨_, heq, hwidth, hback⟩ := h _ _ hconverted
    cases heq
    have hrest : rest.length = n * width := by
      rw [length_append, Nat.succ_mul] at hlen
      omega
    obtain ⟨hothersLen, hothersBack⟩ := ih hrest hothers
    refine ⟨?_, convertVector_succ_eq_ok.2
      ⟨converted, others, element, rest, hwidth, rfl, hback, hothersBack, rfl⟩⟩
    rw [length_append, Nat.succ_mul]
    omega

/-- A vector is undone when the elements of either side have one width. -/
theorem undone_vector
    (h : ∀ x y, f (some x) = .ok y → ∃ converted, y = some converted ∧ converted.length = width' ∧
      g (some converted) = .ok (some x)) (dimensions : ℕ) :
    UndoneOn (applyVector f dimensions width) (applyVector g dimensions width') (fun _ => True) := by
  intro bytes out hf
  obtain ⟨hlen, hconvert⟩ := applyVector_eq_ok.1 hf
  rw [applyVector_eq_ok, iff_true]
  exact convertVector_undone h hlen hconvert

/-- Elements that are not converted leave the vector as it is. -/
theorem convertVector_id (h : ∀ x, f (some x) = .ok (some x)) {n : ℕ} {bytes : Bytes}
    (hlen : bytes.length = n * width) : convertVector f width n bytes = .ok bytes := by
  induction n generalizing bytes with
  | zero =>
    rw [Nat.zero_mul, length_eq_zero_iff] at hlen
    rw [hlen]
    rfl
  | succ n ih =>
    rw [Nat.succ_mul] at hlen
    have hrest : (bytes.drop width).length = n * width := by
      rw [length_drop]
      omega
    refine convertVector_succ_eq_ok.2 ⟨bytes.take width, bytes.drop width, bytes.take width,
      bytes.drop width, ?_, (take_append_drop ..).symm, h _, ih hrest,
      (take_append_drop ..).symm⟩
    rw [length_take]
    omega

/-- A vector whose elements are not converted is undone when they have one width, or there are
none. -/
theorem undone_vector_id (hf : ∀ x, f (some x) = .ok (some x)) (hg : ∀ x, g (some x) = .ok (some x))
    (dimensions : ℕ) :
    UndoneOn (applyVector f dimensions width) (applyVector g dimensions width')
      (fun _ => dimensions = 0 ∨ width = width') := by
  intro bytes out happly
  obtain ⟨hlen, hconvert⟩ := applyVector_eq_ok.1 happly
  rw [convertVector_id hf hlen] at hconvert
  cases hconvert
  rw [applyVector_eq_ok, hlen]
  constructor
  · rintro ⟨hsame, -⟩
    rcases Nat.eq_zero_or_pos dimensions with h | h
    · exact .inl h
    · exact .inr (Nat.eq_of_mul_eq_mul_left h hsame)
  · intro h
    have hsame : dimensions * width = dimensions * width' := by
      rcases h with rfl | rfl
      · simp
      · rfl
    exact ⟨hsame, convertVector_id hg (hlen.trans hsame)⟩

end Vector

end ConversionPlan

end Cdm
