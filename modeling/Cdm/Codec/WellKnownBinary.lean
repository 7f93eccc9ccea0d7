import Cdm.Codec.Geometry

/-!
# Well-known binary

Which bytes denote a geometry, as a relation: a flag for the byte order, the type, and numbers of
points and rings before them.  A buffer is decoded when it starts with such bytes, whatever follows
them, and what is encoded is such bytes.
-/

namespace Cdm

open List

/-- A character of a number: a letter, a digit, a sign or a point. -/
def isDoubleChar (c : Char) : Bool := c.isAlphanum || c == '+' || c == '-' || c == '.'

/-- What the code relies on of doubles.  A double stands for all the `NaN`s when it is one. -/
class LawfulF64 (F : Type) [F64 F] : Prop where
  length_toBeBytes : ∀ x : F, (F64.toBeBytes x).length = 8
  fromBeBytes_toBeBytes : ∀ x : F, F64.fromBeBytes (F64.toBeBytes x) = x
  parse_display : ∀ x : F, F64.parse (F64.display x) = some x
  parse_accepts : ∀ {s : List Char} {x : F}, F64.parse s = some x →
    s ≠ [] ∧ s.all isDoubleChar = true

namespace Geometry

open Fallible

/-! ### The bytes of a geometry -/

/-- Bytes in the given order, the most significant one first. -/
def inOrder (littleEndian : Bool) (bytes : Bytes) : Bytes :=
  if littleEndian then bytes.reverse else bytes

/-- The bytes denote the elements one after the other. -/
def IsMany {α : Type} (R : α → Bytes → Prop) : List α → Bytes → Prop
  | [], bytes => bytes = []
  | x :: xs, bytes => ∃ first others, bytes = first ++ others ∧ R x first ∧ IsMany R xs others

def IsWord (littleEndian : Bool) (value : ℕ) (bytes : Bytes) : Prop :=
  bytes.length = 4 ∧ BigEndian.toNat (inOrder littleEndian bytes) = value

section Shapes

variable {F : Type} [F64 F]

def IsDouble (littleEndian : Bool) (value : F) (bytes : Bytes) : Prop :=
  bytes.length = 8 ∧ F64.fromBeBytes (inOrder littleEndian bytes) = value

def IsPoint (littleEndian : Bool) (point : F × F) (bytes : Bytes) : Prop :=
  ∃ x y, bytes = x ++ y ∧ IsDouble littleEndian point.1 x ∧ IsDouble littleEndian point.2 y

/-- A number of points and the points. -/
def IsRing (littleEndian : Bool) (ring : List (F × F)) (bytes : Bytes) : Prop :=
  ∃ count points, bytes = count ++ points ∧ IsWord littleEndian ring.length count ∧
    IsMany (IsPoint littleEndian) ring points

def IsRings (littleEndian : Bool) (rings : List (List (F × F))) (bytes : Bytes) : Prop :=
  ∃ count out, bytes = count ++ out ∧ IsWord littleEndian rings.length count ∧
    IsMany (IsRing littleEndian) rings out

/-- The type of a geometry, and what follows it. -/
def IsShape (littleEndian : Bool) : Geometry F → ℕ × (Bytes → Prop)
  | point x y => (wkbPoint, IsPoint littleEndian (x, y))
  | lineString points => (wkbLineString, IsRing littleEndian points)
  | polygon rings => (wkbPolygon, IsRings littleEndian rings)

/-- The bytes are the well-known binary of the geometry. -/
def IsWkb (bytes : Bytes) (geometry : Geometry F) : Prop :=
  ∃ flag kind body, bytes = flag :: (kind ++ body) ∧
    IsWord (flag = wkbLittleEndian) (IsShape (flag = wkbLittleEndian) geometry).1 kind ∧
    (IsShape (flag = wkbLittleEndian) geometry).2 body

end Shapes

/-! ### Decoding -/

/-- The reader consumes bytes that denote its result, and no others are consumed. -/
def Cursor.Reads {α : Type} (read : Cursor → Except CdmError (α × Cursor))
    (R : Bool → α → Bytes → Prop) : Prop :=
  ∀ (littleEndian : Bool) (bytes : Bytes) (a : α) (cursor : Cursor),
    read ⟨bytes, littleEndian⟩ = .ok (a, cursor) ↔
      ∃ consumed, bytes = consumed ++ cursor.rest ∧ cursor.littleEndian = littleEndian ∧
        R littleEndian a consumed

namespace Cursor

theorem ordered_reads (count : ℕ) : Reads (ordered count) fun littleEndian raw consumed =>
    consumed.length = count ∧ inOrder littleEndian consumed = raw := by
  intro littleEndian bytes raw cursor
  rw [ordered, bind_eq_ok]
  constructor
  · rintro ⟨⟨taken, after⟩, htake, hraw⟩
    rw [take] at htake
    split_ifs at htake with hcount
    cases htake
    cases hraw
    exact ⟨bytes.take count, (take_append_drop count bytes).symm, rfl,
      length_take_of_le hcount, rfl⟩
  · rintro ⟨consumed, rfl, rfl, rfl, rfl⟩
    refine ⟨(consumed, cursor), ?_, rfl⟩
    rw [take, if_pos (by simp)]
    simp only [take_left, drop_left]

/-- Reading in two steps. -/
theorem Reads.bind {α β γ : Type} {read : Cursor → Except CdmError (α × Cursor)}
    {next : α → Cursor → Except CdmError (β × Cursor)} {f : α → β → γ} {R : Bool → α → Bytes → Prop}
    {S : α → Bool → β → Bytes → Prop} (hread : Reads read R) (hnext : ∀ a, Reads (next a) (S a)) :
    Reads (fun cursor => read cursor >>= fun result => next result.1 result.2 >>= fun result' =>
        .ok (f result.1 result'.1, result'.2))
      fun littleEndian c consumed => ∃ a b first others, c = f a b ∧ consumed = first ++ others ∧
        R littleEndian a first ∧ S a littleEndian b others := by
  intro littleEndian bytes c cursor
  rw [bind_eq_ok]
  constructor
  · rintro ⟨⟨a, middle⟩, ha, h⟩
    obtain ⟨⟨b, after⟩, hb, h⟩ := bind_eq_ok.1 h
    cases h
    obtain ⟨first, rfl, hmiddle, hfirst⟩ := (hread littleEndian bytes a middle).1 ha
    obtain ⟨rest, order⟩ := middle
    obtain rfl : order = littleEndian := hmiddle
    obtain ⟨others, hrest, hcursor, hothers⟩ := (hnext a order rest b after).1 hb
    refine ⟨first ++ others, ?_, hcursor, a, b, first, others, rfl, rfl, hfirst, hothers⟩
    rw [append_assoc, ← hrest]
  · rintro ⟨consumed, rfl, hcursor, a, b, first, others, rfl, rfl, hfirst, hothers⟩
    refine ⟨(a, ⟨others ++ cursor.rest, littleEndian⟩),
      (hread _ _ _ _).2 ⟨first, append_assoc _ _ _, rfl, hfirst⟩, ?_⟩
    exact bind_eq_ok.2 ⟨(b, cursor), (hnext a _ _ _ _).2 ⟨others, rfl, hcursor, hothers⟩, rfl⟩

/-- What so many bytes stand for. -/
theorem ordered_map_reads {α : Type} (count : ℕ) (decode : Bytes → α) :
    Reads (fun cursor => cursor.ordered count >>= fun result => .ok (decode result.1, result.2))
      fun littleEndian value consumed =>
        consumed.length = count ∧ decode (inOrder littleEndian consumed) = value := by
  intro littleEndian bytes value cursor
  rw [bind_eq_ok]
  constructor
  · rintro ⟨⟨raw, after⟩, hraw, h⟩
    cases h
    obtain ⟨consumed, hbytes, hcursor, hlength, rfl⟩ := (ordered_reads count _ _ _ _).1 hraw
    exact ⟨consumed, hbytes, hcursor, hlength, rfl⟩
  · rintro ⟨consumed, hbytes, hcursor, hlength, rfl⟩
    exact ⟨(_, cursor), (ordered_reads count _ _ _ _).2 ⟨consumed, hbytes, hcursor, hlength, rfl⟩,
      rfl⟩

theorem u32_reads : Reads u32 IsWord := ordered_map_reads 4 BigEndian.toNat

/-- A number of things is read one after the other. -/
theorem many_reads {α : Type} {read : Cursor → Except CdmError (α × Cursor)}
    {R : Bool → α → Bytes → Prop} (hread : Reads read R) (count : ℕ) :
    Reads (many read count) fun littleEndian xs consumed =>
      xs.length = count ∧ IsMany (R littleEndian) xs consumed := by
  induction count with
  | zero =>
    intro littleEndian bytes xs cursor
    constructor
    · intro h
      cases h
      exact ⟨[], rfl, rfl, rfl, rfl⟩
    · rintro ⟨consumed, hbytes, hcursor, hlength, hmany⟩
      obtain rfl := eq_nil_of_length_eq_zero hlength
      obtain rfl : consumed = [] := hmany
      rw [many, hbytes, ← hcursor]
      rfl
  | succ count ih =>
    intro littleEndian bytes xs cursor
    have hboth := hread.bind (f := fun a as => a :: as) (fun _ => ih) littleEndian bytes xs cursor
    refine hboth.trans ⟨?_, ?_⟩
    · rintro ⟨consumed, hbytes, hcursor, a, as, first, others, rfl, rfl, hfirst, rfl, hothers⟩
      exact ⟨_, hbytes, hcursor, rfl, first, others, rfl, hfirst, hothers⟩
    · rintro ⟨consumed, hbytes, hcursor, hlength, hmany⟩
      cases xs with
      | nil => cases hlength
      | cons a as =>
        obtain ⟨first, others, rfl, hfirst, hothers⟩ := hmany
        exact ⟨_, hbytes, hcursor, a, as, first, others, rfl, rfl, hfirst, Nat.succ.inj hlength,
          hothers⟩

variable {F : Type} [F64 F]

theorem f64_reads : Reads (f64 (F := F)) IsDouble := ordered_map_reads 8 F64.fromBeBytes

theorem point_reads : Reads (point (F := F)) IsPoint := by
  intro littleEndian bytes value cursor
  refine (f64_reads.bind (f := fun x y => (x, y)) (fun _ => f64_reads) littleEndian bytes value
    cursor).trans ⟨?_, ?_⟩
  · rintro ⟨consumed, hbytes, hcursor, x, y, first, others, rfl, rfl, hfirst, hothers⟩
    exact ⟨_, hbytes, hcursor, first, others, rfl, hfirst, hothers⟩
  · rintro ⟨consumed, hbytes, hcursor, first, others, rfl, hfirst, hothers⟩
    exact ⟨_, hbytes, hcursor, value.1, value.2, first, others, rfl, rfl, hfirst, hothers⟩

/-- A number, and as many things as it says. -/
theorem counted_reads {α : Type} {read : Cursor → Except CdmError (α × Cursor)}
    {R : Bool → α → Bytes → Prop} (hread : Reads read R) :
    Reads (fun cursor => cursor.u32 >>= fun result => result.2.many read result.1)
      fun littleEndian xs consumed => ∃ count out, consumed = count ++ out ∧
        IsWord littleEndian xs.length count ∧ IsMany (R littleEndian) xs out := by
  intro littleEndian bytes xs cursor
  have hboth := u32_reads.bind (f := fun _ xs => xs) (fun count => many_reads hread count)
    littleEndian bytes xs cursor
  have hpure (x : Except CdmError (List α × Cursor)) :
      (x >>= fun result => .ok (result.1, result.2)) = x := by cases x <;> rfl
  simp only [hpure] at hboth
  refine hboth.trans ⟨?_, ?_⟩
  · rintro ⟨consumed, hbytes, hcursor, count, xs, first, others, rfl, rfl, hfirst, rfl, hothers⟩
    exact ⟨_, hbytes, hcursor, first, others, rfl, hfirst, hothers⟩
  · rintro ⟨consumed, hbytes, hcursor, first, others, rfl, hfirst, hothers⟩
    exact ⟨_, hbytes, hcursor, xs.length, xs, first, others, rfl, rfl, hfirst, rfl, hothers⟩

theorem ring_reads : Reads (ring (F := F)) IsRing := counted_reads point_reads

end Cursor

section Codec

variable {F : Type} [F64 F]

theorem kinds_ne : wkbLineString ≠ wkbPoint ∧ wkbPolygon ≠ wkbPoint ∧ wkbPolygon ≠ wkbLineString := by
  decide

/-- The decoded buffers are those that start with the well-known binary of a geometry. -/
theorem fromWkb_eq_ok {bytes : Bytes} {geometry : Geometry F} :
    fromWkb bytes = .ok geometry ↔
      ∃ encoded trailing, bytes = encoded ++ trailing ∧ IsWkb encoded geometry := by
  obtain ⟨hline, hpolygon, hpolygonLine⟩ := kinds_ne
  rw [fromWkb, bind_eq_ok]
  constructor
  · rintro ⟨cursor, hcursor, hdecode⟩
    cases bytes with
    | nil => cases hcursor
    | cons flag bytes =>
      cases hcursor
      obtain ⟨⟨kind, after⟩, hkind, h⟩ := bind_eq_ok.1 hdecode
      clear hdecode
      obtain ⟨kindBytes, rfl, horder, hword⟩ := (Cursor.u32_reads _ _ _ _).1 hkind
      obtain ⟨rest, order⟩ := after
      obtain rfl : order = _ := horder
      simp only at h
      split_ifs at h with hpoint hlineString hpolygon'
      · subst hpoint
        obtain ⟨⟨⟨x, y⟩, cursor⟩, hread, h⟩ := bind_eq_ok.1 h
        cases h
        obtain ⟨body, rfl, -, hbody⟩ := (Cursor.point_reads _ _ _ _).1 hread
        exact ⟨flag :: (kindBytes ++ body), cursor.rest, by simp, flag, kindBytes, body, rfl,
          hword, hbody⟩
      · subst hlineString
        obtain ⟨⟨points, cursor⟩, hread, h⟩ := bind_eq_ok.1 h
        cases h
        obtain ⟨body, rfl, -, hbody⟩ := (Cursor.ring_reads _ _ _ _).1 hread
        exact ⟨flag :: (kindBytes ++ body), cursor.rest, by simp, flag, kindBytes, body, rfl,
          hword, hbody⟩
      · subst hpolygon'
        obtain ⟨⟨count, middle⟩, hcount, h⟩ := bind_eq_ok.1 h
        obtain ⟨⟨rings, cursor⟩, hread, h⟩ := bind_eq_ok.1 h
        cases h
        obtain ⟨body, rfl, -, hbody⟩ := (Cursor.counted_reads Cursor.ring_reads _ _ _ _).1
          (bind_eq_ok.2 ⟨(count, middle), hcount, hread⟩)
        exact ⟨flag :: (kindBytes ++ body), cursor.rest, by simp, flag, kindBytes, body, rfl,
          hword, hbody⟩
  · rintro ⟨-, trailing, rfl, flag, kindBytes, body, rfl, hkind, hbody⟩
    refine ⟨⟨kindBytes ++ body ++ trailing, flag = wkbLittleEndian⟩, by simp [Cursor.new], ?_⟩
    refine bind_eq_ok.2 ⟨(_, ⟨body ++ trailing, flag = wkbLittleEndian⟩),
      (Cursor.u32_reads _ _ _ _).2 ⟨kindBytes, append_assoc _ _ _, rfl, hkind⟩, ?_⟩
    cases geometry with
    | point x y =>
      simp only [IsShape, if_true]
      exact bind_eq_ok.2 ⟨((x, y), ⟨trailing, flag = wkbLittleEndian⟩),
        (Cursor.point_reads _ _ _ _).2 ⟨body, rfl, rfl, hbody⟩, rfl⟩
    | lineString points =>
      simp only [IsShape, if_neg hline, if_true]
      exact bind_eq_ok.2 ⟨(points, ⟨trailing, flag = wkbLittleEndian⟩),
        (Cursor.ring_reads _ _ _ _).2 ⟨body, rfl, rfl, hbody⟩, rfl⟩
    | polygon rings =>
      simp only [IsShape, if_neg hpolygon, if_neg hpolygonLine, if_true]
      obtain ⟨⟨count, middle⟩, hcount, hread⟩ := bind_eq_ok.1
        ((Cursor.counted_reads Cursor.ring_reads _ _ rings ⟨trailing, flag = wkbLittleEndian⟩).2
          ⟨body, rfl, rfl, hbody⟩)
      exact bind_eq_ok.2 ⟨(count, middle), hcount, bind_eq_ok.2 ⟨_, hread, rfl⟩⟩

/-! ### Encoding -/

theorem isShape_lt (littleEndian : Bool) (geometry : Geometry F) :
    (IsShape littleEndian geometry).1 < 2 ^ 32 := by
  cases geometry with
  | point x y => exact (by decide : wkbPoint < 2 ^ 32)
  | lineString points => exact (by decide : wkbLineString < 2 ^ 32)
  | polygon rings => exact (by decide : wkbPolygon < 2 ^ 32)

/-- The numbers of points and of rings fit in four bytes. -/
def Countable : Geometry F → Prop
  | point _ _ => True
  | lineString points => points.length < 2 ^ 32
  | polygon rings => rings.length < 2 ^ 32 ∧ ∀ ring ∈ rings, ring.length < 2 ^ 32

theorem IsWord.lt {littleEndian : Bool} {value : ℕ} {bytes : Bytes}
    (h : IsWord littleEndian value bytes) : value < 2 ^ 32 := by
  have hbound := BigEndian.toNat_lt (inOrder littleEndian bytes)
  have hlength : (inOrder littleEndian bytes).length = 4 := by
    rw [inOrder]
    split_ifs
    · rw [length_reverse, h.1]
    · exact h.1
  rw [h.2, hlength] at hbound
  exact hbound.trans_le (by norm_num)

theorem IsMany.exists_of_mem {α : Type} {R : α → Bytes → Prop} {xs : List α} {bytes : Bytes}
    (h : IsMany R xs bytes) : ∀ x ∈ xs, ∃ part, R x part := by
  induction xs generalizing bytes with
  | nil => exact fun _ hmem => absurd hmem not_mem_nil
  | cons x xs ih =>
    obtain ⟨first, others, -, hfirst, hothers⟩ := h
    exact forall_mem_cons.2 ⟨⟨first, hfirst⟩, ih hothers⟩

/-- What is stored has numbers that fit. -/
theorem IsWkb.countable {bytes : Bytes} {geometry : Geometry F} (h : IsWkb bytes geometry) :
    geometry.Countable := by
  obtain ⟨flag, kind, body, -, -, hbody⟩ := h
  cases geometry with
  | point x y => trivial
  | lineString points =>
    obtain ⟨count, out, -, hcount, -⟩ := hbody
    exact hcount.lt
  | polygon rings =>
    obtain ⟨count, out, -, hcount, hrings⟩ := hbody
    refine ⟨hcount.lt, fun ring hring => ?_⟩
    obtain ⟨part, count, points, -, hcount, -⟩ := hrings.exists_of_mem ring hring
    exact hcount.lt

theorem isWord_pushU32 {value : ℕ} (h : value < 2 ^ 32) : IsWord true value (pushU32 value) := by
  have hlength (width n : ℕ) : (BigEndian.ofNat width n).length = width := by
    induction width generalizing n with
    | zero => rfl
    | succ width ih => simp [BigEndian.ofNat, ih]
  refine ⟨by rw [pushU32, length_reverse, hlength], ?_⟩
  rw [inOrder, if_pos rfl, pushU32, reverse_reverse, BigEndian.toNat_ofNat,
    Nat.mod_eq_of_lt (h.trans_le (by norm_num))]

theorem pushCount_eq_ok {count : ℕ} {message : String} {bytes : Bytes} :
    pushCount count message = .ok bytes ↔ count < 2 ^ 32 ∧ bytes = pushU32 count := by
  rw [pushCount]
  split_ifs with h
  · rw [Except.ok.injEq, eq_comm, and_iff_right h]
  · simp only [h, false_and]

variable [LawfulF64 F]

theorem isPoint_pushPoint (p : F × F) : IsPoint true p (pushPoint p) := by
  have hdouble (x : F) : IsDouble true x (F64.toBeBytes x).reverse := by
    refine ⟨by rw [length_reverse, LawfulF64.length_toBeBytes], ?_⟩
    rw [inOrder, if_pos rfl, reverse_reverse, LawfulF64.fromBeBytes_toBeBytes]
  exact ⟨_, _, rfl, hdouble p.1, hdouble p.2⟩

theorem isMany_flatMap {α : Type} {R : α → Bytes → Prop} {f : α → Bytes} (h : ∀ x, R x (f x))
    (xs : List α) : IsMany R xs (xs.flatMap f) := by
  induction xs with
  | nil => rfl
  | cons x xs ih => exact ⟨f x, xs.flatMap f, flatMap_cons, h x, ih⟩

theorem isRing_of_pushRing {ring : List (F × F)} {bytes : Bytes} (h : pushRing ring = .ok bytes) :
    IsRing true ring bytes := by
  obtain ⟨count, hcount, h⟩ := bind_eq_ok.1 h
  cases h
  obtain ⟨hlength, rfl⟩ := pushCount_eq_ok.1 hcount
  exact ⟨_, _, rfl, isWord_pushU32 hlength, isMany_flatMap isPoint_pushPoint ring⟩

theorem isMany_of_mapM {α : Type} {R : α → Bytes → Prop} {f : α → Except CdmError Bytes}
    (h : ∀ x bytes, f x = .ok bytes → R x bytes) {xs : List α} {parts : List Bytes}
    (hparts : xs.mapM f = .ok parts) : IsMany R xs parts.flatten := by
  have hall := mapM_eq_ok hparts
  clear hparts
  induction hall with
  | nil => rfl
  | cons hfirst _ ih => exact ⟨_, _, flatten_cons, h _ _ hfirst, ih⟩

/-- A geometry is encoded as bytes that denote it. -/
theorem isWkb_of_toWkb {geometry : Geometry F} {bytes : Bytes} (h : geometry.toWkb = .ok bytes) :
    IsWkb bytes geometry := by
  cases geometry with
  | point x y =>
    cases h
    exact ⟨_, _, _, rfl, isWord_pushU32 (isShape_lt _ _), isPoint_pushPoint (x, y)⟩
  | lineString points =>
    obtain ⟨ring, hring, h⟩ := bind_eq_ok.1 h
    cases h
    exact ⟨_, _, _, rfl, isWord_pushU32 (isShape_lt _ _), isRing_of_pushRing hring⟩
  | polygon rings =>
    obtain ⟨count, hcount, h⟩ := bind_eq_ok.1 h
    obtain ⟨out, hout, h⟩ := bind_eq_ok.1 h
    cases h
    obtain ⟨hlength, rfl⟩ := pushCount_eq_ok.1 hcount
    exact ⟨_, _, _, rfl, isWord_pushU32 (isShape_lt _ _), _, _, rfl, isWord_pushU32 hlength,
      isMany_of_mapM (fun _ _ => isRing_of_pushRing) hout⟩

omit [LawfulF64 F] in
/-- Every geometry whose numbers fit is encoded. -/
theorem exists_toWkb {geometry : Geometry F} (h : geometry.Countable) :
    ∃ bytes, geometry.toWkb = .ok bytes := by
  have hring {ring : List (F × F)} (h : ring.length < 2 ^ 32) :
      pushRing ring = .ok (pushU32 ring.length ++ ring.flatMap pushPoint) :=
    bind_eq_ok.2 ⟨_, pushCount_eq_ok.2 ⟨h, rfl⟩, rfl⟩
  cases geometry with
  | point x y => exact ⟨_, rfl⟩
  | lineString points => exact ⟨_, bind_eq_ok.2 ⟨_, hring h, rfl⟩⟩
  | polygon rings =>
    have hrings : rings.mapM pushRing =
        .ok (rings.map fun ring => pushU32 ring.length ++ ring.flatMap pushPoint) := by
      rw [mapM_eq_ok_iff, forall₂_map_right_iff, forall₂_same]
      exact fun ring hmem => hring (h.2 ring hmem)
    exact ⟨_, bind_eq_ok.2 ⟨_, pushCount_eq_ok.2 ⟨h.1, rfl⟩, bind_eq_ok.2 ⟨_, hrings, rfl⟩⟩⟩

end Codec

end Geometry

end Cdm
