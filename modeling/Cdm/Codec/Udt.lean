import Cdm.Codec.Framing
import Cdm.Codec.Resolution

/-!
# What a UDT value means

A UDT is serialized as its fields one after the other, in the order its definition declares them, and
the bytes do not say which field is which.  Two clusters that declare the fields of a type in
different orders read the same bytes as different values.

Here is what a client reads from a cell under a definition (`decode`), what it should read on the
target, where each field is to hold the converted value the origin has under its name (`expected`),
and on which values it does when the bytes are not touched.
-/

namespace Cdm

open Fallible List Option
open Wire

/-! ### Cells that take no more room -/

/-- A cell that takes no more room than another. -/
def NoLonger (new old : RawCell) : Prop :=
  ∀ bytes, new = some bytes → ∃ bytes', old = some bytes' ∧ bytes.length ≤ bytes'.length

theorem takeElement_noLonger {bytes rest rest' : Bytes} {old new : RawCell}
    (h : takeElement bytes = .ok (old, rest)) (hnew : NoLonger new old)
    (hrest : rest'.length ≤ rest.length) :
    ∃ b bs, takeElement (b :: bs) = .ok (new, rest') ∧ (b :: bs).length ≤ bytes.length := by
  obtain ⟨out, hout, hlen⟩ : ∃ out, writeElement new = .ok out ∧
      out.length + rest.length ≤ bytes.length := by
    cases new with
    | none =>
      refine ⟨_, rfl, ?_⟩
      rcases takeElement_eq_ok.1 h with ⟨i, -, rfl, -, -⟩ | ⟨b, -, -, rfl⟩
      · simp
      · simp
    | some new =>
      obtain ⟨old', rfl, hle⟩ := hnew new rfl
      rcases takeElement_eq_ok.1 h with ⟨i, hnull, -⟩ | ⟨b, hb, hwrite, rfl⟩
      · cases hnull
      · cases hb
        rw [writeElement] at hwrite
        split_ifs at hwrite with hfits
        exact ⟨_, if_pos (by omega), by simp; omega⟩
  have hread := takeElement_append hout rest'
  obtain ⟨b, bs, hbytes⟩ : ∃ b bs, out ++ rest' = b :: bs := by
    refine exists_cons_of_ne_nil ?_
    intro hnil
    rw [hnil] at hread
    cases hread
  refine ⟨b, bs, by rw [← hbytes, hread], ?_⟩
  rw [← hbytes, length_append]
  omega

theorem takeElements_noLonger {n : ℕ} {bytes rest : Bytes} {olds news : List RawCell}
    (h : takeElements n bytes = .ok (olds, rest)) (hnews : List.Forall₂ NoLonger news olds) :
    ∃ bytes', takeElements n bytes' = .ok (news, rest) ∧ bytes'.length ≤ bytes.length := by
  induction n generalizing bytes olds news with
  | zero =>
    cases h
    cases hnews
    exact ⟨_, rfl, le_rfl⟩
  | succ n ih =>
    obtain ⟨old, between, olds, hold, holds, rfl⟩ := takeElements_cons_eq_ok.1 h
    obtain ⟨new, others, hnew, hothers, rfl⟩ := forall₂_cons_right_iff.1 hnews
    obtain ⟨between', hbetween, hle⟩ := ih holds hothers
    obtain ⟨b, bs, hread, hlen⟩ := takeElement_noLonger hold hnew hle
    exact ⟨b :: bs, takeElements_cons_eq_ok.2 ⟨new, between', others, hread, hbetween, rfl⟩, hlen⟩

theorem readFields_noLonger {n : ℕ} {bytes : Bytes} {olds news : List RawCell}
    (h : ConversionPlan.readFields n bytes = .ok olds) (hnews : List.Forall₂ NoLonger news olds) :
    ∃ bytes', ConversionPlan.readFields n bytes' = .ok news ∧ bytes'.length ≤ bytes.length := by
  induction n generalizing bytes olds news with
  | zero =>
    cases h
    cases hnews
    exact ⟨_, rfl, le_rfl⟩
  | succ n ih =>
    cases bytes with
    | nil =>
      obtain ⟨olds, holds, h⟩ := bind_eq_ok.1 h
      cases h
      obtain ⟨new, others, hnew, hothers, rfl⟩ := forall₂_cons_right_iff.1 hnews
      obtain ⟨bytes', hread, hlen⟩ := ih holds hothers
      obtain rfl : bytes' = [] := eq_nil_of_length_eq_zero (by simpa using hlen)
      obtain rfl : new = none := by
        cases new with
        | none => rfl
        | some new =>
          obtain ⟨_, hnone, -⟩ := hnew new rfl
          cases hnone
      exact ⟨[], bind_eq_ok.2 ⟨others, hread, rfl⟩, le_rfl⟩
    | cons b bs =>
      obtain ⟨old, between, olds, hold, holds, rfl⟩ := ConversionPlan.readFields_cons_eq_ok.1 h
      obtain ⟨new, others, hnew, hothers, rfl⟩ := forall₂_cons_right_iff.1 hnews
      obtain ⟨between', hbetween, hle⟩ := ih holds hothers
      obtain ⟨b', bs', hread, hlen⟩ := takeElement_noLonger hold hnew hle
      exact ⟨b' :: bs', ConversionPlan.readFields_cons_eq_ok.2
        ⟨new, between', others, hread, hbetween, rfl⟩, hlen⟩

theorem forall₂_noLonger_set {olds : List RawCell} {i : ℕ} {old new : Bytes}
    (hold : olds[i]? = some (some old)) (hle : new.length ≤ old.length) :
    List.Forall₂ NoLonger (olds.set i (some new)) olds := by
  rw [forall₂_iff_get]
  refine ⟨length_set, ?_⟩
  intro j hj hj' bytes hbytes
  simp only [get_eq_getElem, getElem_set] at hbytes ⊢
  split_ifs at hbytes with hij
  · subst hij
    cases hbytes
    rw [getElem?_eq_getElem hj', some_inj] at hold
    exact ⟨old, hold, hle⟩
  · exact ⟨bytes, hbytes, le_rfl⟩

/-! ### Fields by name -/

section Fields

variable {as bs : List (String × CqlTypeInfo)}

/-- A name of the one list has a position in the other. -/
theorem exists_getElem?_of_perm (hperm : (as.map Prod.fst).Perm (bs.map Prod.fst)) {i : ℕ}
    {field : String × CqlTypeInfo} (h : bs[i]? = some field) :
    ∃ (j : ℕ) (a : CqlTypeInfo), as[j]? = some (field.1, a) := by
  have hmem : field.1 ∈ as.map Prod.fst :=
    hperm.mem_iff.2 (mem_map.2 ⟨field, mem_of_getElem? h, rfl⟩)
  obtain ⟨⟨_, a⟩, hmem, rfl⟩ := mem_map.1 hmem
  obtain ⟨j, hj⟩ := mem_iff_getElem?.1 hmem
  exact ⟨j, a, hj⟩

/-- Two fields of one name are at one position. -/
theorem position_unique (hnodup : (as.map Prod.fst).Nodup) {i j : ℕ} {n : String}
    {a b : CqlTypeInfo} (hi : as[i]? = some (n, a)) (hj : as[j]? = some (n, b)) : i = j := by
  have hi' : (as.map Prod.fst)[i]? = some n := by rw [getElem?_map, hi]; rfl
  have hj' : (as.map Prod.fst)[j]? = some n := by rw [getElem?_map, hj]; rfl
  obtain ⟨hlt, -⟩ := List.getElem?_eq_some_iff.1 hi'
  exact (getElem?_inj hlt hnodup).1 (hi'.trans hj'.symm)

end Fields

/-! ### What a client reads -/

/-- What a client makes of bytes this program passes on without looking at them: the values of types
with no element types, and the elements of vectors that have no fixed width. -/
class ClientReader where
  Value : Type
  read : CqlTypeInfo → Bytes → Except CdmError Value
  splitVector : ℕ → Bytes → Except CdmError (List Bytes)
  /-- An element can be exchanged for one that is no longer. -/
  exists_splitVector_set : ∀ {n i : ℕ} {bytes old new : Bytes} {elements : List Bytes},
    splitVector n bytes = .ok elements → elements[i]? = some old → new.length ≤ old.length →
    ∃ bytes', splitVector n bytes' = .ok (elements.set i new) ∧ bytes'.length ≤ bytes.length

/-- A value as a client reads it. -/
inductive Decoded (V : Type)
  | null
  | scalar (value : V)
  /-- The elements of a list, a set, a vector or a tuple; the keys and values of a map, in turn. -/
  | collection (elements : List (Decoded V))
  | udt (fields : List (String × Decoded V))

/-- Reads each cell with the reader of its position. -/
def eachAt {β : Type} (readers : ℕ → Option (RawCell → Except CdmError β)) (cells : List RawCell) :
    Except CdmError (List β) :=
  cells.zipIdx.mapM fun cell =>
    match readers cell.2 with
    | some read => read cell.1
    | none => .error (conversionError "more components than the type declares")

theorem eachAt_eq_ok {β : Type} {readers : ℕ → Option (RawCell → Except CdmError β)}
    {cells : List RawCell} {values : List β} :
    eachAt readers cells = .ok values ↔
      values.length = cells.length ∧ ∀ i cell, cells[i]? = some cell →
        ∃ read value, readers i = some read ∧ read cell = .ok value ∧ values[i]? = some value := by
  rw [eachAt, mapM_eq_ok_iff, forall₂_iff_get]
  constructor
  · rintro ⟨hlen, h⟩
    rw [length_zipIdx] at hlen
    refine ⟨hlen.symm, ?_⟩
    intro i cell hcell
    obtain ⟨hi, rfl⟩ := List.getElem?_eq_some_iff.1 hcell
    have hread := h i (by rwa [length_zipIdx]) (by omega)
    simp only [get_eq_getElem, getElem_zipIdx, Nat.zero_add] at hread
    split at hread
    · rename_i read hreader
      exact ⟨read, _, hreader, hread, getElem?_eq_getElem _⟩
    · cases hread
  · rintro ⟨hlen, h⟩
    refine ⟨by rw [length_zipIdx, hlen], ?_⟩
    intro i hi hi'
    rw [length_zipIdx] at hi
    obtain ⟨read, value, hreader, hread, hvalue⟩ := h i _ (getElem?_eq_getElem hi)
    rw [getElem?_eq_getElem hi', some_inj] at hvalue
    simp only [get_eq_getElem, getElem_zipIdx, Nat.zero_add, hreader, hread, hvalue]

/-- Each cell can be read when each one can. -/
theorem exists_eachAt_eq_ok {β : Type} {readers : ℕ → Option (RawCell → Except CdmError β)}
    {cells : List RawCell}
    (h : ∀ i cell, cells[i]? = some cell →
      ∃ read value, readers i = some read ∧ read cell = .ok value) :
    ∃ values, eachAt readers cells = .ok values := by
  rw [eachAt, exists_mapM_eq_ok]
  rintro ⟨cell, i⟩ hmem
  rw [mem_zipIdx_iff_getElem?] at hmem
  obtain ⟨read, value, hreader, hread⟩ := h i cell hmem
  exact ⟨value, by simp only [hreader, hread]⟩

namespace CqlTypeInfo

/-! ### The components of a value -/

/-- The elements of a list or a set, or with two cells an entry the keys and values of a map.  None
of them is null. -/
def sequenceCells (perEntry : ℕ) (bytes : Bytes) : Except CdmError (List RawCell) := do
  let (count, rest) ← takeI32 bytes
  let (cells, _) ← takeElements (perEntry * count.toNat) rest
  if none ∈ cells then throw (conversionError "a collection element cannot be null")
  else return cells

/-- `n` elements of the given width. -/
def chunks (width : ℕ) : ℕ → Bytes → Except CdmError (List Bytes)
  | 0, _ => .ok []
  | n + 1, bytes => do
    let (element, rest) ← take width bytes
    let others ← chunks width n rest
    return element :: others

variable [ClientReader]

def vectorCells (width : Option ℕ) (dimensions : ℕ) (bytes : Bytes) :
    Except CdmError (List RawCell) :=
  (match width with
  | some width => chunks width dimensions bytes
  | none => ClientReader.splitVector dimensions bytes).map (List.map some ·)

/-- The components of a value, which for a UDT are its fields. -/
def cells : CqlTypeInfo → Bytes → Except CdmError (List RawCell)
  | list _ _, bytes | set _ _, bytes => sequenceCells 1 bytes
  | map _ _ _, bytes => sequenceCells 2 bytes
  | tuple elements, bytes => ConversionPlan.readFields elements.length bytes
  | udt _ _ fields _, bytes => ConversionPlan.readFields fields.length bytes
  | vector element dimensions, bytes => vectorCells element.fixedWidth dimensions bytes
  | primitive _, _ | custom _, _ => .error (conversionError "a value without components")

/-! ### Reading a cell -/

mutual

/-- What is read from a cell of the type. -/
def decode : CqlTypeInfo → RawCell → Except CdmError (Decoded ClientReader.Value)
  | _, none => .ok .null
  | primitive kind, some bytes => (ClientReader.read (primitive kind) bytes).map .scalar
  | custom name, some bytes => (ClientReader.read (custom name) bytes).map .scalar
  | list element frozen, some bytes =>
    (cells (list element frozen) bytes >>= eachAt fun _ => some (decode element)).map .collection
  | set element frozen, some bytes =>
    (cells (set element frozen) bytes >>= eachAt fun _ => some (decode element)).map .collection
  | map key value frozen, some bytes =>
    (cells (map key value frozen) bytes >>= eachAt fun i =>
      some (if i % 2 = 0 then decode key else decode value)).map .collection
  | tuple elements, some bytes =>
    (cells (tuple elements) bytes >>= eachAt fun i => (decodeAll elements)[i]?).map .collection
  | vector element dimensions, some bytes =>
    (cells (vector element dimensions) bytes >>= eachAt fun _ => some (decode element)).map
      .collection
  | udt keyspace name fields frozen, some bytes =>
    (cells (udt keyspace name fields frozen) bytes >>= eachAt fun i =>
      (decodeFields fields)[i]?).map fun values => .udt ((fields.map Prod.fst).zip values)

/-- The readers of a tuple's components. -/
def decodeAll : List CqlTypeInfo → List (RawCell → Except CdmError (Decoded ClientReader.Value))
  | [] => []
  | element :: elements => decode element :: decodeAll elements

/-- The readers of a UDT's fields. -/
def decodeFields : List (String × CqlTypeInfo) →
    List (RawCell → Except CdmError (Decoded ClientReader.Value))
  | [] => []
  | (_, field) :: fields => decode field :: decodeFields fields

end

/-- The cell is well formed: it can be read. -/
def WellFormed (t : CqlTypeInfo) (cell : RawCell) : Prop := ∃ value, decode t cell = .ok value

theorem decode_none (t : CqlTypeInfo) : decode t none = .ok .null := by
  cases t <;> rfl

theorem decodeAll_getElem? (elements : List CqlTypeInfo) (i : ℕ) :
    (decodeAll elements)[i]? = elements[i]?.map decode := by
  induction elements generalizing i with
  | nil => rfl
  | cons element elements ih =>
    cases i with
    | zero => rfl
    | succ i => exact ih i

theorem decodeFields_getElem? (fields : List (String × CqlTypeInfo)) (i : ℕ) :
    (decodeFields fields)[i]? = fields[i]?.map fun field => decode field.2 := by
  induction fields generalizing i with
  | nil => rfl
  | cons field fields ih =>
    cases i with
    | zero => rfl
    | succ i => exact ih i

/-- A collection is read component by component. -/
theorem decode_collection {t : CqlTypeInfo} (h : t.hasCells = true) (bytes : Bytes) :
    decode t (some bytes) =
      (t.cells bytes >>= eachAt fun i => (t.cellType i).map decode).map .collection := by
  cases t with
  | primitive | custom | udt => cases h
  | list | set | vector => rfl
  | map key value frozen =>
    have hreaders : (fun i => ((map key value frozen).cellType i).map decode) =
        fun i => some (if i % 2 = 0 then decode key else decode value) := by
      funext i
      rw [cellType, map_some, apply_ite decode]
    rw [hreaders]
    rfl
  | tuple elements =>
    have hreaders : (fun i => ((tuple elements).cellType i).map decode) =
        fun i => (decodeAll elements)[i]? := by
      funext i
      rw [cellType, decodeAll_getElem?]
    rw [hreaders]
    rfl

theorem decode_udt (keyspace : Option String) (name : String) (fields : List (String × CqlTypeInfo))
    (frozen : Bool) (bytes : Bytes) :
    decode (udt keyspace name fields frozen) (some bytes) =
      (ConversionPlan.readFields fields.length bytes >>= eachAt fun i =>
        fields[i]?.map fun field => decode field.2).map
          fun values => .udt ((fields.map Prod.fst).zip values) := by
  have hreaders : (fun i : ℕ => fields[i]?.map fun field => decode field.2) =
      fun i => (decodeFields fields)[i]? := by
    funext i
    exact (decodeFields_getElem? fields i).symm
  rw [hreaders]
  rfl

/-- What is not null is not read as null. -/
theorem decode_some_ne_null (t : CqlTypeInfo) (bytes : Bytes) :
    decode t (some bytes) ≠ .ok .null := by
  intro h
  by_cases hc : t.hasCells = true
  · rw [decode_collection hc, map_eq_ok] at h
    obtain ⟨_, -, hnull⟩ := h
    cases hnull
  · cases t with
    | list | set | map | tuple | vector => exact hc rfl
    | primitive | custom | udt =>
      obtain ⟨_, -, hnull⟩ := map_eq_ok.1 h
      cases hnull

/-! ### Exchanging a component -/

/-- A component can be exchanged for one that is no longer, where it has no fixed width. -/
theorem exists_cells_set {t : CqlTypeInfo} {bytes old new : Bytes} {olds : List RawCell} {i : ℕ}
    (h : t.cells bytes = .ok olds) (hold : olds[i]? = some (some old))
    (hle : new.length ≤ old.length)
    (hwidth : ∀ element dimensions, t = vector element dimensions → element.fixedWidth = none) :
    ∃ bytes', t.cells bytes' = .ok (olds.set i (some new)) ∧ bytes'.length ≤ bytes.length := by
  have hnews := forall₂_noLonger_set hold hle
  have sequence (perEntry : ℕ) (h : sequenceCells perEntry bytes = .ok olds) :
      ∃ bytes', sequenceCells perEntry bytes' = .ok (olds.set i (some new)) ∧
        bytes'.length ≤ bytes.length := by
    obtain ⟨⟨count, rest⟩, hcount, h⟩ := bind_eq_ok.1 h
    obtain ⟨⟨elements, behind⟩, helements, h⟩ := bind_eq_ok.1 h
    dsimp only at h
    split_ifs at h with hnull
    cases h
    obtain ⟨rest', hrest, hlen⟩ := takeElements_noLonger helements hnews
    obtain ⟨rfl, hlo, hhi⟩ := takeI32_eq_ok.1 hcount
    refine ⟨writeI32 count ++ rest', ?_, by simpa using hlen⟩
    refine bind_eq_ok.2 ⟨_, takeI32_eq_ok.2 ⟨rfl, hlo, hhi⟩, ?_⟩
    refine bind_eq_ok.2 ⟨_, hrest, ?_⟩
    dsimp only
    rw [if_neg]
    · rfl
    · intro hmem
      rcases mem_or_eq_of_mem_set hmem with hmem | hmem
      · exact hnull hmem
      · cases hmem
  cases t with
  | primitive | custom => cases h
  | list | set => exact sequence 1 h
  | map => exact sequence 2 h
  | tuple | udt => exact readFields_noLonger h hnews
  | vector element dimensions =>
    rw [cells, hwidth element dimensions rfl, vectorCells, map_eq_ok] at h
    obtain ⟨elements, hsplit, rfl⟩ := h
    rw [getElem?_map, map_eq_some_iff] at hold
    obtain ⟨old', hold, heq⟩ := hold
    cases heq
    obtain ⟨bytes', hsplit', hlen⟩ := ClientReader.exists_splitVector_set hsplit hold hle
    refine ⟨bytes', ?_, hlen⟩
    rw [cells, hwidth element dimensions rfl, vectorCells, map_eq_ok]
    exact ⟨_, hsplit', map_set⟩

/-! ### Types that correspond -/

/-- Types with the same shape divide a value in the same way. -/
theorem Corresponds.cells_eq {a b : CqlTypeInfo} (h : Corresponds a b) (bytes : Bytes) :
    a.cells bytes = b.cells bytes := by
  cases h with
  | primitive | custom | list | set | map => rfl
  | tuple hlen h => rw [cells, cells, hlen]
  | vector dimensions h => rw [cells, cells, h.fixedWidth_eq]
  | udt ka kb name fa fb hnodup hperm =>
    have hlen := hperm.length_eq
    rw [length_map, length_map] at hlen
    rw [cells, cells, hlen]

theorem WellFormed.exists_cells {t : CqlTypeInfo} {bytes : Bytes} (h : WellFormed t (some bytes))
    (ht : t.hasCells = true) : ∃ cells, t.cells bytes = .ok cells := by
  obtain ⟨_, hread⟩ := h
  rw [decode_collection ht, map_eq_ok] at hread
  obtain ⟨_, hread, -⟩ := hread
  obtain ⟨cells, hcells, -⟩ := bind_eq_ok.1 hread
  exact ⟨cells, hcells⟩

/-- A collection is well formed when its components are. -/
theorem wellFormed_collection_iff {t : CqlTypeInfo} (ht : t.hasCells = true) {bytes : Bytes}
    {cells : List RawCell} (hcells : t.cells bytes = .ok cells) :
    WellFormed t (some bytes) ↔ ∀ i cell, cells[i]? = some cell →
      ∃ c, t.cellType i = some c ∧ WellFormed c cell := by
  rw [WellFormed, decode_collection ht, hcells, ok_bind]
  constructor
  · rintro ⟨_, hread⟩ i cell hcell
    obtain ⟨values, hvalues, -⟩ := map_eq_ok.1 hread
    obtain ⟨read, value, hreader, hvalue, -⟩ := (eachAt_eq_ok.1 hvalues).2 i cell hcell
    obtain ⟨c, hc, rfl⟩ := map_eq_some_iff.1 hreader
    exact ⟨c, hc, value, hvalue⟩
  · intro h
    obtain ⟨values, hvalues⟩ : ∃ values, eachAt (fun i => (t.cellType i).map decode) cells =
        .ok values := by
      apply exists_eachAt_eq_ok
      intro i cell hcell
      obtain ⟨c, hc, value, hvalue⟩ := h i cell hcell
      exact ⟨decode c, value, by rw [hc]; rfl, hvalue⟩
    exact ⟨_, map_eq_ok.2 ⟨values, hvalues, rfl⟩⟩

/-- A UDT is well formed when its fields are. -/
theorem wellFormed_udt_iff {keyspace : Option String} {name : String}
    {fields : List (String × CqlTypeInfo)} {frozen : Bool} {bytes : Bytes} {cells : List RawCell}
    (hcells : ConversionPlan.readFields fields.length bytes = .ok cells) :
    WellFormed (udt keyspace name fields frozen) (some bytes) ↔
      ∀ (i : ℕ) field cell, fields[i]? = some field → cells[i]? = some cell →
        WellFormed field.2 cell := by
  have hcount := ConversionPlan.length_readFields hcells
  rw [WellFormed, decode_udt, hcells, ok_bind]
  constructor
  · rintro ⟨_, hread⟩ i field cell hfield hcell
    obtain ⟨values, hvalues, -⟩ := map_eq_ok.1 hread
    obtain ⟨read, value, hreader, hvalue, -⟩ := (eachAt_eq_ok.1 hvalues).2 i cell hcell
    rw [hfield] at hreader
    cases hreader
    exact ⟨value, hvalue⟩
  · intro h
    obtain ⟨values, hvalues⟩ : ∃ values,
        eachAt (fun i : ℕ => fields[i]?.map fun field => decode field.2) cells = .ok values := by
      apply exists_eachAt_eq_ok
      intro i cell hcell
      obtain ⟨hi, -⟩ := List.getElem?_eq_some_iff.1 hcell
      have hfield : fields[i]? = some fields[i] := getElem?_eq_getElem (by omega)
      obtain ⟨value, hvalue⟩ := h i _ cell hfield hcell
      exact ⟨decode fields[i].2, value, by rw [hfield]; rfl, hvalue⟩
    exact ⟨_, map_eq_ok.2 ⟨values, hvalues, rfl⟩⟩

end CqlTypeInfo

namespace Planner

open CqlTypeInfo

variable [ClientReader] (planner : Planner)

/-! ### What should be read on the target -/

/-- The converted value of a cell, as a client of the target reads it. -/
def converted (origin target : CqlTypeInfo) (cell : RawCell) :
    Except CdmError (Decoded ClientReader.Value) := do
  let cell ← (planner.planTypes origin target).apply cell
  decode target cell

/-- The converted value of the origin field with the name of a target field. -/
def namedField (origin : List (String × CqlTypeInfo)) (cells : List RawCell)
    (field : String × CqlTypeInfo) : Except CdmError (Decoded ClientReader.Value) :=
  match (origin.zip cells).find? fun entry => entry.1.1 = field.1 with
  | some entry => planner.converted entry.1.2 field.2 entry.2
  | none => .error (conversionError "the origin has no field of this name")

mutual

/-- What should be read on the target from a value of the origin.  In a UDT, wherever it stands in
the value, every field is to hold the converted value the origin has under its name. -/
def expected : CqlTypeInfo → CqlTypeInfo → RawCell → Except CdmError (Decoded ClientReader.Value)
  | _, _, none => .ok .null
  | .list a fa, .list b _, some bytes =>
    (cells (.list a fa) bytes >>= eachAt fun _ => some (expected a b)).map .collection
  | .set a fa, .set b _, some bytes =>
    (cells (.set a fa) bytes >>= eachAt fun _ => some (expected a b)).map .collection
  | .map ka va fa, .map kb vb _, some bytes =>
    (cells (.map ka va fa) bytes >>= eachAt fun i =>
      some (if i % 2 = 0 then expected ka kb else expected va vb)).map .collection
  | .tuple as, .tuple bs, some bytes =>
    (cells (.tuple as) bytes >>= eachAt fun i =>
      (expectedAll as)[i]?.bind fun read => bs[i]?.map read).map .collection
  | .vector a dimensions, .vector b _, some bytes =>
    (cells (.vector a dimensions) bytes >>= eachAt fun _ => some (expected a b)).map .collection
  | .udt _ _ as _, .udt _ _ bs _, some bytes => do
    let cells ← ConversionPlan.readFields as.length bytes
    let values ← bs.mapM (planner.namedField as cells)
    return .udt ((bs.map Prod.fst).zip values)
  | a, b, some bytes => planner.converted a b (some bytes)

/-- The readers of a tuple's components, for any target. -/
def expectedAll : List CqlTypeInfo →
    List (CqlTypeInfo → RawCell → Except CdmError (Decoded ClientReader.Value))
  | [] => []
  | a :: as => expected a :: expectedAll as

end

/-- The value bound on the target is read there as it should be. -/
def Kept (origin target : CqlTypeInfo) (value bound : RawCell) : Prop :=
  ∃ read, planner.expected origin target value = .ok read ∧ decode target bound = .ok read

/-! ### Fields in place -/

/-- The UDT value `value`, of a type with these definitions on the two sides, occurs in a cell. -/
inductive HasUdt : CqlTypeInfo → CqlTypeInfo → RawCell → List (String × CqlTypeInfo) →
    List (String × CqlTypeInfo) → Bytes → Prop
  | here (ka kb : Option String) (na nb : String) (as bs : List (String × CqlTypeInfo))
    (fa fb : Bool) (value : Bytes) :
    HasUdt (.udt ka na as fa) (.udt kb nb bs fb) (some value) as bs value
  | component {a b c d : CqlTypeInfo} {bytes value : Bytes} {cells : List RawCell} {i : ℕ}
    {cell : RawCell} {as bs : List (String × CqlTypeInfo)} (ha : a.hasCells = true)
    (hcells : a.cells bytes = .ok cells) (hcell : cells[i]? = some cell)
    (hc : a.cellType i = some c) (hd : b.cellType i = some d)
    (h : HasUdt c d cell as bs value) : HasUdt a b (some bytes) as bs value

/-- The target declares the field at the position where the origin declares it, and the conversion
between its types does not change what is read. -/
def FieldInPlace (as bs : List (String × CqlTypeInfo)) (i : ℕ) (bytes : Bytes) : Prop :=
  ∃ name a b, as[i]? = some (name, a) ∧ bs[i]? = some (name, b) ∧
    ∃ read, planner.converted a b (some bytes) = .ok read ∧ decode b (some bytes) = .ok read

/-- Every field that is not null is in place. -/
def UdtInPlace (as bs : List (String × CqlTypeInfo)) (value : Bytes) : Prop :=
  ∀ cells, ConversionPlan.readFields as.length value = .ok cells →
    ∀ i bytes, cells[i]? = some (some bytes) → planner.FieldInPlace as bs i bytes

/-- In every UDT of the cell, every field that is not null is in place. -/
def InPlace (origin target : CqlTypeInfo) (cell : RawCell) : Prop :=
  ∀ as bs value, HasUdt origin target cell as bs value → planner.UdtInPlace as bs value

variable {planner}

theorem expectedAll_getElem? (as : List CqlTypeInfo) (i : ℕ) :
    (planner.expectedAll as)[i]? = as[i]?.map planner.expected := by
  induction as generalizing i with
  | nil => rfl
  | cons a as ih =>
    cases i with
    | zero => rfl
    | succ i => exact ih i

theorem expected_none (origin target : CqlTypeInfo) :
    planner.expected origin target none = .ok .null := by
  unfold expected
  rfl

/-- What should be read from a collection, component by component. -/
theorem expected_collection {a b : CqlTypeInfo} (h : Corresponds a b) (ha : a.hasCells = true)
    (bytes : Bytes) :
    planner.expected a b (some bytes) =
      (a.cells bytes >>= eachAt fun i =>
        (a.cellType i).bind fun c => (b.cellType i).map (planner.expected c)).map .collection := by
  cases h with
  | primitive | custom | udt => cases ha
  | list | set | vector => rfl
  | @map ka va kb vb fa fb =>
    have hreaders : (fun i => ((CqlTypeInfo.map ka va fa).cellType i).bind fun c =>
        ((CqlTypeInfo.map kb vb fb).cellType i).map (planner.expected c)) =
        fun i => some (if i % 2 = 0 then planner.expected ka kb else planner.expected va vb) := by
      funext i
      simp only [cellType, bind_some, map_some]
      split_ifs <;> rfl
    rw [hreaders]
    rfl
  | @tuple as bs =>
    have hreaders : (fun i => ((CqlTypeInfo.tuple as).cellType i).bind fun c =>
        ((CqlTypeInfo.tuple bs).cellType i).map (planner.expected c)) =
        fun i => (planner.expectedAll as)[i]?.bind fun read => bs[i]?.map read := by
      funext i
      rw [expectedAll_getElem?, cellType, cellType, bind_map]
      rfl
    rw [hreaders]
    rfl

/-! ### Values that keep their meaning -/

theorem converted_none (origin target : CqlTypeInfo) :
    planner.converted origin target none = .ok .null := by
  rw [converted, ConversionPlan.apply_none]
  exact decode_none target

/-- A value that is not converted is read as it is. -/
theorem converted_of_sameType {origin target : CqlTypeInfo}
    (h : origin.sameType target = true) (cell : RawCell) :
    planner.converted origin target cell = decode target cell := by
  have hplan : planner.planTypes origin target = .passthrough := by
    rw [planTypes.eq_def, h, Bool.true_or, if_pos rfl]
  rw [converted, hplan]
  cases cell <;> rfl

/-- The field of a name, when no two fields have one name. -/
theorem namedField_eq {as : List (String × CqlTypeInfo)} {cells : List RawCell} {j : ℕ}
    {name : String} {a b : CqlTypeInfo} {cell : RawCell} (hnodup : (as.map Prod.fst).Nodup)
    (ha : as[j]? = some (name, a)) (hcell : cells[j]? = some cell) :
    planner.namedField as cells (name, b) = planner.converted a b cell := by
  induction as generalizing cells j with
  | nil => cases ha
  | cons first as ih =>
    obtain ⟨hnot, hnodup⟩ := nodup_cons.1 hnodup
    cases cells with
    | nil => cases hcell
    | cons c cells =>
      cases j with
      | zero =>
        cases ha
        cases hcell
        simp [namedField]
      | succ j =>
        have hmem : name ∈ as.map Prod.fst :=
          mem_map.2 ⟨_, mem_of_getElem? ha, rfl⟩
        have hne : ¬first.1 = name := by
          rintro rfl
          exact hnot hmem
        rw [← ih hnodup ha hcell, namedField, namedField, zip_cons_cons, find?_cons]
        simp only [hne, decide_false]

/-- A collection keeps its meaning when its components do. -/
theorem kept_collection_iff {a b : CqlTypeInfo} (h : Corresponds a b) (ha : a.hasCells = true)
    {bytes : Bytes} {cells : List RawCell} (hcells : a.cells bytes = .ok cells) :
    planner.Kept a b (some bytes) (some bytes) ↔
      ∀ i cell, cells[i]? = some cell → ∃ c d, a.cellType i = some c ∧ b.cellType i = some d ∧
        planner.Kept c d cell cell := by
  rw [Kept, expected_collection h ha, decode_collection (h.hasCells_eq ▸ ha), ← h.cells_eq,
    hcells, ok_bind, ok_bind]
  constructor
  · rintro ⟨_, hexpected, hdecode⟩ i cell hcell
    obtain ⟨values, hvalues, rfl⟩ := map_eq_ok.1 hexpected
    obtain ⟨values', hvalues', heq⟩ := map_eq_ok.1 hdecode
    cases heq
    obtain ⟨read, value, hreader, hvalue, hget⟩ := (eachAt_eq_ok.1 hvalues).2 i cell hcell
    obtain ⟨read', value', hreader', hvalue', hget'⟩ := (eachAt_eq_ok.1 hvalues').2 i cell hcell
    obtain ⟨c, hc, hmap⟩ := bind_eq_some_iff.1 hreader
    obtain ⟨d, hd, rfl⟩ := map_eq_some_iff.1 hmap
    rw [hd] at hreader'
    cases hreader'
    cases hget.symm.trans hget'
    exact ⟨c, d, hc, hd, value, hvalue, hvalue'⟩
  · intro hkept
    obtain ⟨values, hvalues⟩ : ∃ values, eachAt (fun i => (a.cellType i).bind fun c =>
        (b.cellType i).map (planner.expected c)) cells = .ok values := by
      apply exists_eachAt_eq_ok
      intro i cell hcell
      obtain ⟨c, d, hc, hd, value, hvalue, -⟩ := hkept i cell hcell
      exact ⟨planner.expected c d, value, by rw [hc, hd]; rfl, hvalue⟩
    obtain ⟨hlen, hat⟩ := eachAt_eq_ok.1 hvalues
    have hvalues' : eachAt (fun i => (b.cellType i).map decode) cells = .ok values := by
      refine eachAt_eq_ok.2 ⟨hlen, ?_⟩
      intro i cell hcell
      obtain ⟨read, value, hreader, hvalue, hget⟩ := hat i cell hcell
      obtain ⟨c, d, hc, hd, value', hvalue', hdecode⟩ := hkept i cell hcell
      rw [hc, hd] at hreader
      cases hreader
      cases hvalue.symm.trans hvalue'
      exact ⟨decode d, value, by rw [hd]; rfl, hdecode, hget⟩
    exact ⟨.collection values, map_eq_ok.2 ⟨values, hvalues, rfl⟩,
      map_eq_ok.2 ⟨values, hvalues', rfl⟩⟩

section Udt

variable {ka kb : Option String} {name : String} {as bs : List (String × CqlTypeInfo)}
  {fa fb : Bool}

/-- A UDT keeps its meaning when each of its fields does. -/
theorem kept_udt_iff (hlen : as.length = bs.length) {bytes : Bytes} {cells : List RawCell}
    (hcells : ConversionPlan.readFields as.length bytes = .ok cells) :
    planner.Kept (.udt ka name as fa) (.udt kb name bs fb) (some bytes) (some bytes) ↔
      ∀ (i : ℕ) field cell, bs[i]? = some field → cells[i]? = some cell → ∃ value,
        planner.namedField as cells field = .ok value ∧ decode field.2 cell = .ok value := by
  have hcount := ConversionPlan.length_readFields hcells
  have hexpected : planner.expected (.udt ka name as fa) (.udt kb name bs fb) (some bytes) =
      (bs.mapM (planner.namedField as cells)).map
        fun values => .udt ((bs.map Prod.fst).zip values) := by
    rw [expected, hcells, ok_bind]
    cases bs.mapM (planner.namedField as cells) <;> rfl
  have hdecode : decode (.udt kb name bs fb) (some bytes) =
      (eachAt (fun i : ℕ => bs[i]?.map fun field => decode field.2) cells).map
        fun values => .udt ((bs.map Prod.fst).zip values) := by
    rw [decode_udt, ← hlen, hcells, ok_bind]
  rw [Kept, hexpected, hdecode]
  constructor
  · rintro ⟨_, hexpected, hdecode⟩ i field cell hfield hcell
    obtain ⟨values, hvalues, h⟩ := map_eq_ok.1 hexpected
    obtain ⟨values', hvalues', h'⟩ := map_eq_ok.1 hdecode
    obtain ⟨hlen', hat⟩ := eachAt_eq_ok.1 hvalues'
    have hvalueCount := length_mapM hvalues
    -- the values of the fields are what is read, so they are the same on both sides
    obtain rfl : values' = values := by
      have hzip := congrArg (List.map Prod.snd) (Decoded.udt.inj (h'.trans h.symm))
      rwa [map_snd_zip (by simp; omega), map_snd_zip (by simp; omega)] at hzip
    obtain ⟨read, value, hreader, hread, hget⟩ := hat i cell hcell
    obtain ⟨field', hfield', hvalue⟩ := mapM_getElem? hvalues i hget
    rw [hfield] at hreader hfield'
    cases hreader
    cases hfield'
    exact ⟨value, hvalue, hread⟩
  · intro h
    have hread : ∀ (i : ℕ) cell, cells[i]? = some cell → ∃ read value,
        bs[i]?.map (fun field : String × CqlTypeInfo => decode field.2) = some read ∧
          read cell = .ok value := by
      intro i cell hcell
      obtain ⟨hi, -⟩ := List.getElem?_eq_some_iff.1 hcell
      have hfield : bs[i]? = some bs[i] := getElem?_eq_getElem (by omega)
      obtain ⟨value, -, hdecode⟩ := h i _ cell hfield hcell
      exact ⟨_, value, by rw [hfield]; rfl, hdecode⟩
    obtain ⟨values, hvalues⟩ := exists_eachAt_eq_ok hread
    obtain ⟨hvalueCount, hat⟩ := eachAt_eq_ok.1 hvalues
    have hnamed : bs.mapM (planner.namedField as cells) = .ok values := by
      rw [mapM_eq_ok_iff, forall₂_iff_get]
      refine ⟨by omega, ?_⟩
      intro i hi hi'
      have hcell : cells[i]? = some cells[i] := getElem?_eq_getElem (by omega)
      have hfield : bs[i]? = some bs[i] := getElem?_eq_getElem hi
      obtain ⟨read, value, hreader, hread, hget⟩ := hat i _ hcell
      obtain ⟨value', hvalue', hdecode⟩ := h i _ _ hfield hcell
      rw [hfield] at hreader
      cases hreader
      cases hread.symm.trans hdecode
      rw [getElem?_eq_getElem hi', some_inj] at hget
      rw [get_eq_getElem, get_eq_getElem, hget, hvalue']
    exact ⟨.udt ((bs.map Prod.fst).zip values), map_eq_ok.2 ⟨values, hnamed, rfl⟩,
      map_eq_ok.2 ⟨values, hvalues, rfl⟩⟩

/-- A UDT whose fields are in place keeps its meaning. -/
theorem kept_udt (hnodup : (as.map Prod.fst).Nodup)
    (hperm : (as.map Prod.fst).Perm (bs.map Prod.fst)) {bytes : Bytes}
    (hwf : WellFormed (.udt ka name as fa) (some bytes)) (hin : planner.UdtInPlace as bs bytes) :
    planner.Kept (.udt ka name as fa) (.udt kb name bs fb) (some bytes) (some bytes) := by
  have hlen : as.length = bs.length := by simpa using hperm.length_eq
  obtain ⟨_, hread⟩ := hwf
  rw [decode_udt, map_eq_ok] at hread
  obtain ⟨_, hread, -⟩ := hread
  obtain ⟨cells, hcells, -⟩ := bind_eq_ok.1 hread
  have hcount := ConversionPlan.length_readFields hcells
  rw [kept_udt_iff hlen hcells]
  rintro i ⟨n, b⟩ cell hfield hcell
  obtain ⟨j, a, hj⟩ := exists_getElem?_of_perm hperm hfield
  cases cell with
  | some value =>
    obtain ⟨n', a', b', ha, hb, read, hconverted, hdecode⟩ := hin cells hcells i value hcell
    rw [hfield] at hb
    cases hb
    exact ⟨read, by rw [namedField_eq hnodup ha hcell, hconverted], hdecode⟩
  | none =>
    -- the origin's field of this name is null too: a value there would be out of place
    obtain ⟨hjlt, -⟩ := List.getElem?_eq_some_iff.1 hj
    have horigin : cells[j]? = some cells[j] := getElem?_eq_getElem (by omega)
    cases hvalue : cells[j] with
    | none =>
      rw [hvalue] at horigin
      exact ⟨.null, by rw [namedField_eq hnodup hj horigin, converted_none], decode_none b⟩
    | some value =>
      rw [hvalue] at horigin
      obtain ⟨n', a', b', ha, hb, -⟩ := hin cells hcells j value horigin
      rw [hj] at ha
      cases ha
      obtain rfl := position_unique (hperm.nodup_iff.1 hnodup) hfield hb
      rw [hcell] at horigin
      cases horigin

/-- Next to a UDT value with a field out of place there is one that does not keep its meaning: the
one that has no other field. -/
theorem exists_not_kept_udt (hnodup : (as.map Prod.fst).Nodup)
    (hperm : (as.map Prod.fst).Perm (bs.map Prod.fst)) {bytes : Bytes}
    (hwf : WellFormed (.udt ka name as fa) (some bytes))
    (hnot : ¬planner.UdtInPlace as bs bytes) :
    ∃ bytes', WellFormed (.udt ka name as fa) (some bytes') ∧ bytes'.length ≤ bytes.length ∧
      ¬planner.Kept (.udt ka name as fa) (.udt kb name bs fb) (some bytes') (some bytes') := by
  have hlen : as.length = bs.length := by simpa using hperm.length_eq
  simp only [UdtInPlace, not_forall] at hnot
  obtain ⟨cells, hcells, i, value, hcell, hnot⟩ := hnot
  have hcount := ConversionPlan.length_readFields hcells
  obtain ⟨hi, hcell'⟩ := List.getElem?_eq_some_iff.1 hcell
  have hnews : List.Forall₂ NoLonger ((List.replicate cells.length none).set i (some value))
      cells := by
    rw [forall₂_iff_get]
    refine ⟨by simp, ?_⟩
    intro j hj hj' new hnew
    simp only [get_eq_getElem, getElem_set, getElem_replicate] at hnew ⊢
    split_ifs at hnew with hij
    · subst hij
      cases hnew
      exact ⟨value, hcell', le_rfl⟩
  obtain ⟨bytes', hread, hle⟩ := readFields_noLonger hcells hnews
  have hat (j : ℕ) (hj : j < cells.length) :
      ((List.replicate cells.length none).set i (some value))[j]? =
        some (if i = j then some value else none) := by
    rw [getElem?_eq_getElem (by simpa using hj), getElem_set, getElem_replicate]
  refine ⟨bytes', ?_, hle, ?_⟩
  · rw [wellFormed_udt_iff hcells] at hwf
    rw [wellFormed_udt_iff hread]
    intro j field cell hfield hj
    obtain ⟨hjlt, -⟩ := List.getElem?_eq_some_iff.1 hfield
    rw [hat j (by omega), some_inj] at hj
    split_ifs at hj with hij
    · subst hij hj
      exact hwf i field _ hfield hcell
    · subst hj
      exact ⟨.null, decode_none field.2⟩
  · rw [kept_udt_iff hlen hread]
    intro hkept
    have hfield : bs[i]? = some bs[i] := getElem?_eq_getElem (by omega)
    obtain ⟨read, hnamed, hdecode⟩ := hkept i _ _ hfield (hat i hi)
    rw [if_pos rfl] at hdecode
    obtain ⟨j, a, hj⟩ := exists_getElem?_of_perm hperm hfield
    obtain ⟨hjlt, -⟩ := List.getElem?_eq_some_iff.1 hj
    have horigin := hat j (by omega)
    rw [← Prod.mk.eta (p := bs[i]), namedField_eq hnodup hj horigin] at hnamed
    by_cases hij : i = j
    · subst hij
      rw [if_pos rfl] at hnamed
      exact hnot ⟨bs[i].1, a, bs[i].2, hj, hfield, read, hnamed, hdecode⟩
    · -- the field of this name is null on the origin, and the target reads a value
      rw [if_neg hij, converted_none] at hnamed
      cases hnamed
      exact decode_some_ne_null _ _ hdecode

end Udt

/-! ### Values in a collection -/

theorem kept_none (origin target : CqlTypeInfo) : planner.Kept origin target none none :=
  ⟨.null, expected_none origin target, decode_none target⟩

/-- Where nothing is converted, a value is expected as it is. -/
theorem kept_of_expected {t : CqlTypeInfo} {cell : RawCell} (hwf : WellFormed t cell)
    (h : planner.expected t t cell = planner.converted t t cell) (hsame : t.sameType t = true) :
    planner.Kept t t cell cell := by
  obtain ⟨read, hread⟩ := hwf
  exact ⟨read, by rw [h, converted_of_sameType hsame, hread], hread⟩

/-- A value with every field in place keeps its meaning. -/
theorem kept_of_inPlace {a b : CqlTypeInfo} (h : Corresponds a b) :
    ∀ cell, WellFormed a cell → planner.InPlace a b cell → planner.Kept a b cell cell := by
  refine Corresponds.cell_induction ?scalar ?unmodelled ?udt ?collection h
  case scalar =>
    intro kind cell hwf _
    cases cell with
    | none => exact kept_none _ _
    | some bytes => exact kept_of_expected hwf rfl (by simp [sameType])
  case unmodelled =>
    intro name cell hwf _
    cases cell with
    | none => exact kept_none _ _
    | some bytes => exact kept_of_expected hwf rfl (by simp [sameType])
  case udt =>
    intro ka kb name as bs fa fb hnodup hperm cell hwf hin
    cases cell with
    | none => exact kept_none _ _
    | some bytes => exact kept_udt hnodup hperm hwf (hin as bs bytes (.here ..))
  case collection =>
    intro a b h ha ih cell hwf hin
    cases cell with
    | none => exact kept_none _ _
    | some bytes =>
      obtain ⟨cells, hcells⟩ := hwf.exists_cells ha
      rw [kept_collection_iff h ha hcells]
      rw [wellFormed_collection_iff ha hcells] at hwf
      intro i cell hcell
      obtain ⟨c, hc, hcwf⟩ := hwf i cell hcell
      obtain ⟨d, hd⟩ := h.exists_cellType hc
      refine ⟨c, d, hc, hd, ih i c d hc hd cell hcwf ?_⟩
      intro as bs value hudt
      exact hin as bs value (.component ha hcells hcell hc hd hudt)

/-- What a UDT occurs in has no fixed width. -/
theorem HasUdt.fixedWidth_eq_none {a b : CqlTypeInfo} {cell : RawCell}
    {as bs : List (String × CqlTypeInfo)} {value : Bytes} (h : HasUdt a b cell as bs value) :
    a.fixedWidth = none := by
  cases h with
  | here => rfl
  | component ha => cases a <;> first | rfl | cases ha

/-- Next to a value with a field out of place there is one that does not keep its meaning. -/
theorem HasUdt.exists_not_kept {a b : CqlTypeInfo} {cell : RawCell}
    {as bs : List (String × CqlTypeInfo)} {value : Bytes} (hudt : HasUdt a b cell as bs value)
    (h : Corresponds a b) (hwf : WellFormed a cell) (hnot : ¬planner.UdtInPlace as bs value) :
    ∃ bytes bytes', cell = some bytes ∧ bytes'.length ≤ bytes.length ∧
      WellFormed a (some bytes') ∧ ¬planner.Kept a b (some bytes') (some bytes') := by
  induction hudt with
  | here ka kb na nb as bs fa fb value =>
    cases h with
    | udt _ _ _ _ _ hnodup hperm =>
      obtain ⟨bytes', hwf', hle, hkept⟩ := exists_not_kept_udt hnodup hperm hwf hnot
      exact ⟨value, bytes', rfl, hle, hwf', hkept⟩
  | @component a b c d bytes value cells i cell as bs ha hcells hcell hc hd hudt ih =>
    rw [wellFormed_collection_iff ha hcells] at hwf
    obtain ⟨c', hc', hcwf⟩ := hwf i cell hcell
    cases hc.symm.trans hc'
    obtain ⟨old, new, rfl, hle, hnew, hkept⟩ := ih (h.cellType hc hd) hcwf hnot
    have hwidth : ∀ element dimensions, a = .vector element dimensions →
        element.fixedWidth = none := by
      rintro element dimensions rfl
      cases hc
      exact hudt.fixedWidth_eq_none
    obtain ⟨bytes', hcells', hle'⟩ := exists_cells_set hcells hcell hle hwidth
    obtain ⟨hi, -⟩ := List.getElem?_eq_some_iff.1 hcell
    have hset : (cells.set i (some new))[i]? = some (some new) := by simp [hi]
    refine ⟨bytes, bytes', rfl, hle', ?_, ?_⟩
    · rw [wellFormed_collection_iff ha hcells']
      intro j cell hj
      by_cases hij : i = j
      · subst hij
        cases hset.symm.trans hj
        exact ⟨c, hc, hnew⟩
      · rw [getElem?_set_ne hij] at hj
        exact hwf j cell hj
    · rw [kept_collection_iff h ha hcells']
      intro hall
      obtain ⟨c', d', hc', hd', hnewKept⟩ := hall i _ hset
      cases hc.symm.trans hc'
      cases hd.symm.trans hd'
      exact hkept hnewKept

/-- Values of corresponding types keep their meaning, all of them, when all their fields are in
place. -/
theorem forall_kept_iff {a b : CqlTypeInfo} (h : Corresponds a b) :
    (∀ bytes, WellFormed a (some bytes) → planner.Kept a b (some bytes) (some bytes)) ↔
      ∀ bytes, WellFormed a (some bytes) → planner.InPlace a b (some bytes) := by
  constructor
  · intro hall bytes hwf as bs value hudt
    by_contra hnot
    obtain ⟨_, bytes', -, -, hwf', hkept⟩ := hudt.exists_not_kept h hwf hnot
    exact hkept (hall bytes' hwf')
  · exact fun hin bytes hwf => kept_of_inPlace h _ hwf (hin bytes hwf)

end Planner

end Cdm
