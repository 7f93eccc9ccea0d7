import Cdm.Cql.Bind

/-!
# Maps without their null values

A serialized map is a count and so many entries, each a key and a value behind their lengths; a
negative length is a null, and a negative count is a map without entries.  `stripNullMapValues`
walks over the bytes.  It fails on the proper prefixes of such maps, and from every other buffer it
removes the entries whose value is null.

Bytes behind the last entry stay where nothing is removed, and go with the first entry that is.
-/

namespace Cdm

open BigEndian List
open Fallible

namespace MapBytes

/-- The serialized forms of an element. -/
inductive IsElement : Bytes → RawCell → Prop
  | null {len : Bytes} (hlen : len.length = 4) (hneg : toInt len < 0) : IsElement len none
  | value {len value : Bytes} (hlen : len.length = 4)
      (hwidth : toInt len = value.length) : IsElement (len ++ value) (some value)

/-- The serialized forms of the entries of a map. -/
inductive IsEntries : Bytes → List (RawCell × RawCell) → Prop
  | nil : IsEntries [] []
  | cons {key value others : Bytes} {entry : RawCell × RawCell}
      {entries : List (RawCell × RawCell)} (hkey : IsElement key entry.1)
      (hvalue : IsElement value entry.2) (hothers : IsEntries others entries) :
      IsEntries (key ++ value ++ others) (entry :: entries)

/-- The buffer is a count, so many entries, and what is behind them. -/
def IsMap (bytes : Bytes) (entries : List (RawCell × RawCell)) (behind : Bytes) : Prop :=
  ∃ count body, bytes = count ++ body ++ behind ∧ count.length = 4 ∧
    (toInt count).toNat = entries.length ∧ IsEntries body entries

/-- The buffer ends inside a map: there are bytes that complete it. -/
def IsTruncated (bytes : Bytes) : Prop :=
  ∃ missing entries, missing ≠ [] ∧ IsMap (bytes ++ missing) entries []

/-! ### Elements -/

/-- The cell a slice holds. -/
def cellOf (slice : Bytes) : RawCell :=
  if toInt (slice.take 4) < 0 then none else some (slice.drop 4)

theorem IsElement.cell_eq {slice : Bytes} {cell : RawCell} (h : IsElement slice cell) :
    cell = cellOf slice := by
  cases h with
  | null hlen hneg => rw [cellOf, take_of_length_le hlen.le, if_pos hneg]
  | value hlen hwidth => rw [cellOf, take_left' hlen, if_neg (by omega), drop_left' hlen]

/-- Skipping an element, by its length. -/
theorem skipElement_append {len : Bytes} (hlen : len.length = 4) (rest : Bytes) :
    skipElement (len ++ rest) =
      if toInt len < 0 then .ok (len, toInt len, rest)
      else if (toInt len).toNat ≤ rest.length then
        .ok (len ++ rest.take (toInt len).toNat, toInt len,
          rest.drop (toInt len).toNat)
      else .error truncated := by
  have hlong : 4 ≤ (len ++ rest).length := by
    rw [length_append]
    omega
  have htake : (len ++ rest).take (4 + (toInt len).toNat) =
      len ++ rest.take (toInt len).toNat := by
    rw [List.take_append, hlen, Nat.add_sub_cancel_left, take_of_length_le (by omega)]
  rw [skipElement, readI32, if_pos hlong, take_left' hlen, drop_left' hlen,
    ok_bind]
  dsimp only
  rw [htake]
  rfl

theorem IsElement.skip {slice : Bytes} {cell : RawCell} (h : IsElement slice cell) (rest : Bytes) :
    skipElement (slice ++ rest) = .ok (slice, toInt (slice.take 4), rest) := by
  cases h with
  | null hlen hneg =>
    rw [skipElement_append hlen, if_pos hneg, take_of_length_le hlen.le]
  | @value len value hlen hwidth =>
    rw [append_assoc, skipElement_append hlen, if_neg (by omega), hwidth, Int.toNat_natCast,
      if_pos (by simp), take_left, drop_left, take_left' hlen, hwidth]

/-- The sign of the length tells the nulls. -/
theorem IsElement.neg_iff {slice : Bytes} {cell : RawCell} (h : IsElement slice cell) :
    toInt (slice.take 4) < 0 ↔ cell = none := by
  rw [h.cell_eq, cellOf]
  split_ifs with hneg <;> simp [hneg]

theorem IsElement.unique {slice slice' rest rest' : Bytes} {cell cell' : RawCell}
    (h : IsElement slice cell) (h' : IsElement slice' cell')
    (heq : slice ++ rest = slice' ++ rest') : cell = cell' ∧ rest = rest' := by
  have hskip := h.skip rest
  rw [heq, h'.skip] at hskip
  cases hskip
  exact ⟨h.cell_eq.trans h'.cell_eq.symm, rfl⟩

theorem exists_length_eq_four {bytes : Bytes} (h : 4 ≤ bytes.length) :
    ∃ len rest, len.length = 4 ∧ bytes = len ++ rest :=
  ⟨bytes.take 4, bytes.drop 4, by simpa using h, (take_append_drop 4 bytes).symm⟩

/-- A length that is cut off is completed with zeros. -/
theorem exists_fill {bytes : Bytes} (h : ¬ 4 ≤ bytes.length) :
    ∃ fill : Bytes, fill ≠ [] ∧ (bytes ++ fill).length = 4 := by
  refine ⟨List.replicate (4 - bytes.length) 0, ?_, ?_⟩
  · rw [ne_eq, replicate_eq_nil_iff]
    omega
  · rw [length_append, length_replicate]
    omega

/-- A buffer starts with an element, or ends inside one. -/
theorem element_or_truncated (bytes : Bytes) :
    (∃ slice cell rest, bytes = slice ++ rest ∧ IsElement slice cell) ∨
      skipElement bytes = .error truncated ∧
        ∃ missing cell, missing ≠ [] ∧ IsElement (bytes ++ missing) cell := by
  by_cases hlong : 4 ≤ bytes.length
  · obtain ⟨len, rest, hlen, rfl⟩ := exists_length_eq_four hlong
    by_cases hneg : toInt len < 0
    · exact .inl ⟨len, none, rest, rfl, .null hlen hneg⟩
    by_cases hfits : (toInt len).toNat ≤ rest.length
    · refine .inl ⟨len ++ rest.take (toInt len).toNat, _,
        rest.drop (toInt len).toNat, ?_, .value hlen ?_⟩
      · rw [append_assoc, take_append_drop]
      · rw [length_take]
        omega
    · refine .inr ⟨?_, List.replicate ((toInt len).toNat - rest.length) 0,
        some (rest ++ List.replicate ((toInt len).toNat - rest.length) 0), ?_, ?_⟩
      · rw [skipElement_append hlen, if_neg hneg, if_neg hfits]
      · rw [ne_eq, replicate_eq_nil_iff]
        omega
      · rw [append_assoc]
        refine .value hlen ?_
        rw [length_append, length_replicate]
        omega
  · -- the length is completed with zeros, and a value of that width with zeros too
    have hread : skipElement bytes = .error truncated := by
      rw [skipElement, readI32, if_neg hlong]
      rfl
    obtain ⟨fill, hne, hlen⟩ := exists_fill hlong
    by_cases hneg : toInt (bytes ++ fill) < 0
    · exact .inr ⟨hread, fill, none, hne, .null hlen hneg⟩
    · refine .inr ⟨hread, fill ++ List.replicate (toInt (bytes ++ fill)).toNat 0,
        some (List.replicate (toInt (bytes ++ fill)).toNat 0),
        fun h => hne (append_eq_nil_iff.1 h).1, ?_⟩
      rw [← append_assoc]
      refine .value hlen ?_
      rw [length_replicate]
      omega

/-! ### Entries -/

/-- The entries that stay. -/
def nonNull (entries : List (RawCell × RawCell)) : List (RawCell × RawCell) :=
  entries.filter fun entry => entry.2 ≠ none

theorem IsEntries.of_pair {key value others : Bytes} {keyCell cell : RawCell}
    {entries : List (RawCell × RawCell)} (hkey : IsElement key keyCell)
    (hvalue : IsElement value cell) (hothers : IsEntries others entries) :
    IsEntries (key ++ value ++ others) ((keyCell, cell) :: entries) :=
  .cons hkey hvalue hothers

/-- The bytes of entries without the null values are those of the entries that stay. -/
theorem IsEntries.strip {body : Bytes} {entries : List (RawCell × RawCell)}
    (h : IsEntries body entries) (rest : Bytes) : ∃ kept, IsEntries kept (nonNull entries) ∧
      stripEntries entries.length (body ++ rest) =
        .ok (kept, entries.length - (nonNull entries).length) := by
  induction h with
  | nil => exact ⟨[], .nil, rfl⟩
  | @cons key value others entry entries hkey hvalue hothers ih =>
    obtain ⟨kept, hkept, hstrip⟩ := ih
    have hread : stripEntries (entry :: entries).length (key ++ value ++ others ++ rest) =
        .ok (if toInt (value.take 4) < 0
          then (kept, entries.length - (nonNull entries).length + 1)
          else (key ++ value ++ kept, entries.length - (nonNull entries).length)) := by
      rw [length_cons, stripEntries, append_assoc, append_assoc, hkey.skip,
        ok_bind]
      dsimp only
      rw [hvalue.skip, ok_bind]
      dsimp only
      rw [hstrip, ok_bind]
      rfl
    have hle : (nonNull entries).length ≤ entries.length := length_filter_le ..
    rw [hread]
    by_cases hnull : entry.2 = none
    · have hskip : nonNull (entry :: entries) = nonNull entries := by simp [nonNull, hnull]
      refine ⟨kept, hskip ▸ hkept, ?_⟩
      rw [if_pos (hvalue.neg_iff.2 hnull), hskip, length_cons, Nat.sub_add_comm hle]
    · have hkeep : nonNull (entry :: entries) = entry :: nonNull entries := by
        simp [nonNull, hnull]
      refine ⟨key ++ value ++ kept, hkeep ▸ .cons hkey hvalue hkept, ?_⟩
      rw [if_neg (fun h => hnull (hvalue.neg_iff.1 h)), hkeep, length_cons,
        length_cons, Nat.add_sub_add_right]

/-- There are so many entries, for those that are missing. -/
theorem exists_isEntries (n : ℕ) :
    ∃ body entries, IsEntries body entries ∧ entries.length = n := by
  induction n with
  | zero => exact ⟨[], [], .nil, rfl⟩
  | succ n ih =>
    obtain ⟨body, entries, hbody, rfl⟩ := ih
    have hnull : IsElement [255, 255, 255, 255] none := .null rfl (by decide)
    exact ⟨_, (none, none) :: entries, .cons hnull hnull hbody, rfl⟩

/-- A buffer starts with so many entries, or ends inside them. -/
theorem entries_or_truncated (n : ℕ) (bytes : Bytes) :
    (∃ body entries rest, bytes = body ++ rest ∧ IsEntries body entries ∧ entries.length = n) ∨
      stripEntries n bytes = .error truncated ∧ ∃ missing entries,
        missing ≠ [] ∧ IsEntries (bytes ++ missing) entries ∧ entries.length = n := by
  induction n generalizing bytes with
  | zero => exact .inl ⟨[], [], bytes, rfl, .nil, rfl⟩
  | succ n ih =>
    obtain ⟨others, entries, hothers, hlen⟩ := exists_isEntries n
    have hnull : IsElement [255, 255, 255, 255] none := .null rfl (by decide)
    rcases element_or_truncated bytes with
      ⟨key, keyCell, rest, rfl, hkey⟩ | ⟨herror, missing, cell, hne, hkey⟩
    · rcases element_or_truncated rest with
        ⟨value, cell, rest, rfl, hvalue⟩ | ⟨herror, missing, cell, hne, hvalue⟩
      · rcases ih rest with
          ⟨body, entries, rest, rfl, hbody, rfl⟩ | ⟨herror, missing, entries, hne, hbody, rfl⟩
        · refine .inl ⟨key ++ value ++ body, (keyCell, cell) :: entries, rest, ?_,
            .cons hkey hvalue hbody, rfl⟩
          simp only [append_assoc]
        · refine .inr ⟨?_, missing, (keyCell, cell) :: entries, hne, ?_, rfl⟩
          · rw [stripEntries, hkey.skip, ok_bind]
            dsimp only
            rw [hvalue.skip, ok_bind]
            dsimp only
            rw [herror]
            rfl
          · simpa only [append_assoc] using IsEntries.of_pair hkey hvalue hbody
      · refine .inr ⟨?_, missing ++ others, (keyCell, cell) :: entries,
          fun h => hne (append_eq_nil_iff.1 h).1, ?_, by rw [length_cons, hlen]⟩
        · rw [stripEntries, hkey.skip, ok_bind]
          dsimp only
          rw [herror]
          rfl
        · simpa only [append_assoc] using IsEntries.of_pair hkey hvalue hothers
    · refine .inr ⟨?_, missing ++ [255, 255, 255, 255] ++ others, (cell, none) :: entries,
        fun h => hne (append_eq_nil_iff.1 (append_eq_nil_iff.1 h).1).1, ?_,
        by rw [length_cons, hlen]⟩
      · rw [stripEntries, herror]
        rfl
      · simpa only [append_assoc] using IsEntries.of_pair hkey hnull hothers

/-- The entries of a buffer, and where they end, are determined by their number. -/
theorem IsEntries.unique {body body' rest rest' : Bytes}
    {entries entries' : List (RawCell × RawCell)} (h : IsEntries body entries)
    (h' : IsEntries body' entries') (hlen : entries.length = entries'.length)
    (heq : body ++ rest = body' ++ rest') : entries = entries' ∧ rest = rest' := by
  induction h generalizing body' entries' with
  | nil =>
    cases h' with
    | nil => exact ⟨rfl, heq⟩
    | cons => cases hlen
  | @cons key value others entry entries hkey hvalue hothers ih =>
    cases h' with
    | nil => cases hlen
    | @cons key' value' others' entry' entries' hkey' hvalue' hothers' =>
      simp only [append_assoc] at heq
      obtain ⟨hkeys, heq⟩ := hkey.unique hkey' heq
      obtain ⟨hvalues, heq⟩ := hvalue.unique hvalue' heq
      obtain ⟨rfl, rfl⟩ := ih hothers' (Nat.succ.inj hlen) heq
      rw [Prod.ext hkeys hvalues]
      exact ⟨rfl, rfl⟩

/-! ### Maps -/

/-- A buffer is a map with bytes behind it, or ends inside one. -/
theorem map_or_truncated (bytes : Bytes) : (∃ entries behind, IsMap bytes entries behind) ∨
    stripNullMapValues bytes = .error truncated ∧ IsTruncated bytes := by
  by_cases hlong : 4 ≤ bytes.length
  · obtain ⟨count, rest, hcount, rfl⟩ := exists_length_eq_four hlong
    rcases entries_or_truncated (toInt count).toNat rest with
      ⟨body, entries, behind, rfl, hbody, hlen⟩ | ⟨herror, missing, entries, hne, hbody, hlen⟩
    · exact .inl ⟨entries, behind, count, body, (append_assoc ..).symm, hcount, hlen.symm,
        hbody⟩
    · refine .inr ⟨?_, missing, entries, hne, count, rest ++ missing, ?_, hcount, hlen.symm,
        hbody⟩
      · rw [stripNullMapValues, readI32, if_pos hlong, take_left' hcount,
          drop_left' hcount, ok_bind]
        dsimp only
        rw [herror]
        rfl
      · rw [append_nil, append_assoc]
  · obtain ⟨fill, hne, hcount⟩ := exists_fill hlong
    obtain ⟨body, entries, hbody, hlen⟩ :=
      exists_isEntries (toInt (bytes ++ fill)).toNat
    refine .inr ⟨?_, fill ++ body, entries, fun h => hne (append_eq_nil_iff.1 h).1,
      bytes ++ fill, body, ?_, hcount, hlen.symm, hbody⟩
    · rw [stripNullMapValues, readI32, if_neg hlong]
      rfl
    · rw [append_nil, append_assoc]

/-- A buffer is a map in one way. -/
theorem IsMap.unique {bytes behind behind' : Bytes} {entries entries' : List (RawCell × RawCell)}
    (h : IsMap bytes entries behind) (h' : IsMap bytes entries' behind') :
    entries = entries' ∧ behind = behind' := by
  obtain ⟨count, body, rfl, hcount, hlen, hbody⟩ := h
  obtain ⟨count', body', heq, hcount', hlen', hbody'⟩ := h'
  rw [append_assoc, append_assoc] at heq
  obtain ⟨rfl, hrest⟩ := append_inj heq (hcount.trans hcount'.symm)
  exact hbody.unique hbody' (hlen.symm.trans hlen') hrest

/-- What is a map already is not cut off. -/
theorem IsMap.not_isTruncated {bytes behind : Bytes} {entries : List (RawCell × RawCell)}
    (h : IsMap bytes entries behind) : ¬ IsTruncated bytes := by
  rintro ⟨missing, entries', hne, hmap⟩
  obtain ⟨count, body, rfl, hcount, hlen, hbody⟩ := h
  have hlonger : IsMap (count ++ body ++ behind ++ missing) entries (behind ++ missing) :=
    ⟨count, body, (append_assoc ..), hcount, hlen, hbody⟩
  exact hne (append_eq_nil_iff.1 (hlonger.unique hmap).2).2

theorem nonNull_eq_self {entries : List (RawCell × RawCell)} :
    nonNull entries = entries ↔ ∀ entry ∈ entries, entry.2 ≠ none := by
  simp [nonNull, filter_eq_self]

theorem length_nonNull_eq {entries : List (RawCell × RawCell)} :
    (nonNull entries).length = entries.length ↔ nonNull entries = entries :=
  filter_sublist.length_eq

/-- A map without null values is left alone, and from every other the null values go, with the
bytes behind it. -/
theorem IsMap.strip {bytes behind : Bytes} {entries : List (RawCell × RawCell)}
    (h : IsMap bytes entries behind) : ∃ out, stripNullMapValues bytes = .ok out ∧
      (nonNull entries = entries → out = bytes) ∧
      (nonNull entries ≠ entries → IsMap out (nonNull entries) []) := by
  obtain ⟨count, body, rfl, hcount, hlen, hbody⟩ := h
  obtain ⟨kept, hkept, hstrip⟩ := hbody.strip behind
  have hle : (nonNull entries).length ≤ entries.length := length_filter_le ..
  have hread : stripNullMapValues (count ++ body ++ behind) =
      .ok (if entries.length - (nonNull entries).length = 0 then count ++ body ++ behind
        else Wire.writeI32 (toInt count -
          (entries.length - (nonNull entries).length : ℕ)) ++ kept) := by
    rw [stripNullMapValues, readI32, append_assoc, if_pos (by simp [hcount]),
      take_left' hcount, drop_left' hcount, ok_bind]
    dsimp only
    rw [hlen, hstrip]
    rfl
  refine ⟨_, hread, fun hall => ?_, fun hsome => ?_⟩
  · rw [hall, Nat.sub_self, if_pos rfl]
  · have hlt : (nonNull entries).length < entries.length :=
      lt_of_le_of_ne hle fun heq => hsome (length_nonNull_eq.1 heq)
    have hbound := (toInt_bounds count).2
    rw [hcount] at hbound
    have hless : toInt count - (entries.length - (nonNull entries).length : ℕ) =
        (nonNull entries).length := by omega
    rw [if_neg (by omega), hless]
    refine ⟨_, kept, (append_nil _).symm, Wire.length_writeI32 _, ?_, hkept⟩
    rw [Wire.writeI32, toInt_ofInt (by omega) (by norm_num at hbound ⊢; omega),
      Int.toNat_natCast]

end MapBytes

open MapBytes

/-- **Removing the null values of a map.** For every buffer it is an error exactly when the buffer
ends inside a map.  Every other buffer has its entries, and the result has those whose value is not
null, in their order and under their number; the result comes back as it is, and is the buffer
exactly when no value is null. -/
theorem stripNullMapValues_exact (bytes : Bytes) :
    ((∃ e, stripNullMapValues bytes = .error e) ↔ IsTruncated bytes) ∧
      ∀ out, stripNullMapValues bytes = .ok out → ∃ entries behind,
        (∀ entries' behind', IsMap bytes entries' behind' ↔
          entries' = entries ∧ behind' = behind) ∧
        (∀ entries' behind', IsMap out entries' behind' ↔ entries' = nonNull entries ∧
          behind' = if nonNull entries = entries then behind else []) ∧
        stripNullMapValues out = .ok out ∧ (out = bytes ↔ ∀ entry ∈ entries, entry.2 ≠ none) := by
  rcases map_or_truncated bytes with ⟨entries, behind, hmap⟩ | ⟨herror, htruncated⟩
  · obtain ⟨out, hout, hsame, hless⟩ := hmap.strip
    rw [hout]
    refine ⟨iff_of_false (fun ⟨e, he⟩ => by cases he) hmap.not_isTruncated, ?_⟩
    rintro _ ⟨⟩
    have hresult : IsMap out (nonNull entries)
        (if nonNull entries = entries then behind else []) := by
      by_cases hall : nonNull entries = entries
      · rw [if_pos hall, hall, hsame hall]
        exact hmap
      · rw [if_neg hall]
        exact hless hall
    have hagain : nonNull (nonNull entries) = nonNull entries := by
      simp [nonNull]
    refine ⟨entries, behind, fun entries' behind' => ⟨fun h => ?_, ?_⟩,
      fun entries' behind' => ⟨fun h => ?_, ?_⟩, ?_, ?_⟩
    · obtain ⟨rfl, rfl⟩ := hmap.unique h
      exact ⟨rfl, rfl⟩
    · rintro ⟨rfl, rfl⟩
      exact hmap
    · obtain ⟨rfl, rfl⟩ := hresult.unique h
      exact ⟨rfl, rfl⟩
    · rintro ⟨rfl, rfl⟩
      exact hresult
    · obtain ⟨again, hstrip, heq, -⟩ := hresult.strip
      rw [hstrip, heq hagain]
    · rw [← nonNull_eq_self]
      refine ⟨fun h => ?_, hsame⟩
      rw [h] at hresult
      exact (hresult.unique hmap).1
  · rw [herror]
    refine ⟨iff_of_true ⟨_, rfl⟩ htruncated, ?_⟩
    rintro _ ⟨⟩

/-- A map with one entry, whose value is null, and a byte behind it. -/
theorem stripNullMapValues_one :
    let bytes : Bytes := [0, 0, 0, 1, 0, 0, 0, 1, 97, 255, 255, 255, 255, 7]
    ∃ entries behind, (∀ entries' behind', IsMap bytes entries' behind' ↔
        entries' = entries ∧ behind' = behind) ∧
      (∀ entries' behind', IsMap [0, 0, 0, 0] entries' behind' ↔ entries' = nonNull entries ∧
        behind' = if nonNull entries = entries then behind else []) ∧
      stripNullMapValues [0, 0, 0, 0] = .ok [0, 0, 0, 0] ∧
      ([0, 0, 0, 0] = bytes ↔ ∀ entry ∈ entries, entry.2 ≠ none) :=
  (stripNullMapValues_exact _).2 _ (by decide +kernel)

end Cdm
