import Mathlib.Tactic.SplitIfs
import Cdm.Lib.Fallible
import Cdm.Tls.JavaKeyStore

/-!
# Keystores are read as they were written

The serialisation of a list of entries, as Java writes it, exists if every length fits in the field
it is written in.  Reading it back gives the entries, and one changed byte is noticed: if it is one
of the digest, the digest is another one than that of the file, and otherwise it is still that of
the file before, which SHA-1 does not give to two different files.
-/

namespace Cdm

open BigEndian List
open Fallible

namespace JavaKeyStore

/-! ### Modified UTF-8 -/

/-- The one to three bytes of a unit; zero has two. -/
def modifiedUnit (unit : UInt16) : Bytes :=
  let n := unit.toNat
  if 0 < n ∧ n < 0x80 then [UInt8.ofNat n]
  else if n < 0x800 then [UInt8.ofNat (0xc0 + n / 64), UInt8.ofNat (0x80 + n % 64)]
  else [UInt8.ofNat (0xe0 + n / 4096), UInt8.ofNat (0x80 + n / 64 % 64),
    UInt8.ofNat (0x80 + n % 64)]

/-- A string in modified UTF-8. -/
def modified (text : String) : Bytes := (Utf16.encode text.toList).flatMap modifiedUnit

/-- The low bits of a byte. -/
theorem toNat_and_mask (b mask : UInt8) {w : ℕ} (hmask : mask.toNat = 2 ^ w - 1) :
    (b &&& mask).toUInt16.toNat = b.toNat % 2 ^ w := by
  rw [UInt8.toNat_toUInt16, UInt8.toNat_and, hmask]
  exact Nat.and_two_pow_sub_one_eq_mod b.toNat w

theorem toNat_shiftLeft {a : UInt16} {w : UInt16} (hw : w.toNat < 16)
    (h : a.toNat * 2 ^ w.toNat < 65536) : (a <<< w).toNat = a.toNat * 2 ^ w.toNat := by
  rw [UInt16.toNat_shiftLeft, Nat.mod_eq_of_lt hw, Nat.shiftLeft_eq, Nat.mod_eq_of_lt h]

/-- Or adds what is below the lowest bit. -/
theorem mul_or (a : ℕ) {b w : ℕ} (hb : b < 2 ^ w) : a * 2 ^ w ||| b = a * 2 ^ w + b := by
  rw [← Nat.shiftLeft_eq, Nat.shiftLeft_add_eq_or_of_lt hb]

/-- Six bits behind a few more. -/
theorem toNat_join {a b : UInt16} (ha : a.toNat < 1024) (hb : b.toNat < 64) :
    (a <<< 6 ||| b).toNat = a.toNat * 64 + b.toNat := by
  have hshift : (a <<< 6).toNat = a.toNat * 2 ^ 6 := toNat_shiftLeft (by decide) (by
    show a.toNat * 2 ^ 6 < 65536
    omega)
  rw [UInt16.toNat_or, hshift, mul_or _ (by omega)]
  rfl

/-- Twice six bits behind a few more. -/
theorem toNat_join₃ {a b c : UInt16} (ha : a.toNat < 16) (hb : b.toNat < 64) (hc : c.toNat < 64) :
    (a <<< 12 ||| b <<< 6 ||| c).toNat = (a.toNat * 64 + b.toNat) * 64 + c.toNat := by
  have hhigh : (a <<< 12).toNat = a.toNat * 2 ^ 12 := toNat_shiftLeft (by decide) (by
    show a.toNat * 2 ^ 12 < 65536
    omega)
  have hmiddle : (b <<< 6).toNat = b.toNat * 2 ^ 6 := toNat_shiftLeft (by decide) (by
    show b.toNat * 2 ^ 6 < 65536
    omega)
  have hsum : a.toNat * 2 ^ 12 + b.toNat * 2 ^ 6 = (a.toNat * 64 + b.toNat) * 2 ^ 6 := by omega
  rw [UInt16.toNat_or, UInt16.toNat_or, hhigh, hmiddle, mul_or _ (by omega), hsum,
    mul_or _ (by omega)]
  rfl

theorem le_iff_toNat (b : UInt8) {n : ℕ} (hn : n < 256) : b ≤ UInt8.ofNat n ↔ b.toNat ≤ n := by
  rw [UInt8.le_iff_toNat_le, UInt8.toNat_ofNat_of_lt' hn]

theorem ge_iff_toNat (b : UInt8) {n : ℕ} (hn : n < 256) : UInt8.ofNat n ≤ b ↔ n ≤ b.toNat := by
  rw [UInt8.le_iff_toNat_le, UInt8.toNat_ofNat_of_lt' hn]

/-- A unit of two bytes. -/
theorem modifiedUnits_two {first second : UInt8} (h : 0xc0 ≤ first.toNat ∧ first.toNat ≤ 0xdf)
    (rest : Bytes) : modifiedUnits (first :: second :: rest) = (modifiedUnits rest).map
      (((first &&& 0x1f).toUInt16 <<< 6 ||| (second &&& 0x3f).toUInt16) :: ·) := by
  have hascii : ¬ first ≤ 0x7f := by
    rw [show (0x7f : UInt8) = UInt8.ofNat 0x7f from rfl, le_iff_toNat _ (by decide)]
    omega
  have htwo : 0xc0 ≤ first ∧ first ≤ 0xdf :=
    ⟨(ge_iff_toNat _ (by decide)).2 h.1, (le_iff_toNat _ (by decide)).2 h.2⟩
  rw [modifiedUnits.eq_def]
  simp only [if_neg hascii, if_pos htwo]

/-- A unit of three bytes. -/
theorem modifiedUnits_three {first second third : UInt8}
    (h : 0xe0 ≤ first.toNat ∧ first.toNat ≤ 0xef) (rest : Bytes) :
    modifiedUnits (first :: second :: third :: rest) = (modifiedUnits rest).map
      (((first &&& 0x0f).toUInt16 <<< 12 ||| (second &&& 0x3f).toUInt16 <<< 6 |||
        (third &&& 0x3f).toUInt16) :: ·) := by
  have hascii : ¬ first ≤ 0x7f := by
    rw [show (0x7f : UInt8) = UInt8.ofNat 0x7f from rfl, le_iff_toNat _ (by decide)]
    omega
  have htwo : ¬ (0xc0 ≤ first ∧ first ≤ 0xdf) := by
    rintro ⟨-, hle⟩
    have hle := (le_iff_toNat first (n := 0xdf) (by decide)).1 hle
    omega
  have hthree : 0xe0 ≤ first ∧ first ≤ 0xef :=
    ⟨(ge_iff_toNat _ (by decide)).2 h.1, (le_iff_toNat _ (by decide)).2 h.2⟩
  rw [modifiedUnits.eq_def]
  simp only [if_neg hascii, if_neg htwo, if_pos hthree]

theorem modifiedUnits_modifiedUnit (unit : UInt16) (rest : Bytes) :
    modifiedUnits (modifiedUnit unit ++ rest) = (modifiedUnits rest).map (unit :: ·) := by
  have hunit : unit.toNat < 65536 := unit.toNat_lt
  simp only [modifiedUnit]
  split_ifs with hone htwo
  · -- one byte, which is the unit itself
    have hfirst := UInt8.toNat_ofNat_of_lt' (n := unit.toNat) (by rw [UInt8.size]; omega)
    have hle : UInt8.ofNat unit.toNat ≤ 0x7f :=
      (le_iff_toNat _ (by decide)).2 (hfirst.trans_le (Nat.le_of_lt_succ hone.2))
    have hself : (UInt8.ofNat unit.toNat).toUInt16 = unit :=
      UInt16.toNat_inj.1 ((UInt8.toNat_toUInt16 _).trans hfirst)
    rw [singleton_append, modifiedUnits.eq_def]
    simp only [if_pos hle, hself]
  · -- two bytes, of five and of six bits
    have hfirst := UInt8.toNat_ofNat_of_lt' (n := 0xc0 + unit.toNat / 64)
      (by rw [UInt8.size]; omega)
    have hsecond := UInt8.toNat_ofNat_of_lt' (n := 0x80 + unit.toNat % 64)
      (by rw [UInt8.size]; omega)
    have hhigh := toNat_and_mask (UInt8.ofNat (0xc0 + unit.toNat / 64)) 0x1f (w := 5) rfl
    have hlow := toNat_and_mask (UInt8.ofNat (0x80 + unit.toNat % 64)) 0x3f (w := 6) rfl
    rw [hfirst] at hhigh
    rw [hsecond] at hlow
    have hjoin := toNat_join (by rw [hhigh]; omega) (by rw [hlow]; omega)
    rw [hhigh, hlow] at hjoin
    have hsum : (0xc0 + unit.toNat / 64) % 2 ^ 5 * 64 + (0x80 + unit.toNat % 64) % 2 ^ 6 =
        unit.toNat := by omega
    have hself := UInt16.toNat_inj.1 (hjoin.trans hsum)
    rw [cons_append, singleton_append, modifiedUnits_two (by rw [hfirst]; omega), hself]
  · -- three bytes, of four and twice of six bits
    have hfirst := UInt8.toNat_ofNat_of_lt' (n := 0xe0 + unit.toNat / 4096)
      (by rw [UInt8.size]; omega)
    have hsecond := UInt8.toNat_ofNat_of_lt' (n := 0x80 + unit.toNat / 64 % 64)
      (by rw [UInt8.size]; omega)
    have hthird := UInt8.toNat_ofNat_of_lt' (n := 0x80 + unit.toNat % 64)
      (by rw [UInt8.size]; omega)
    have hhigh := toNat_and_mask (UInt8.ofNat (0xe0 + unit.toNat / 4096)) 0x0f (w := 4) rfl
    have hmiddle := toNat_and_mask (UInt8.ofNat (0x80 + unit.toNat / 64 % 64)) 0x3f (w := 6) rfl
    have hlow := toNat_and_mask (UInt8.ofNat (0x80 + unit.toNat % 64)) 0x3f (w := 6) rfl
    rw [hfirst] at hhigh
    rw [hsecond] at hmiddle
    rw [hthird] at hlow
    have hjoin := toNat_join₃ (by rw [hhigh]; omega) (by rw [hmiddle]; omega) (by rw [hlow]; omega)
    rw [hhigh, hmiddle, hlow] at hjoin
    have hsum : ((0xe0 + unit.toNat / 4096) % 2 ^ 4 * 64 + (0x80 + unit.toNat / 64 % 64) % 2 ^ 6) *
        64 + (0x80 + unit.toNat % 64) % 2 ^ 6 = unit.toNat := by omega
    have hself := UInt16.toNat_inj.1 (hjoin.trans hsum)
    rw [cons_append, cons_append, singleton_append,
      modifiedUnits_three (by rw [hfirst]; omega), hself]

theorem modifiedUtf8_modified (side : Side) (text what : String) :
    modifiedUtf8 side (modified text) what = .ok text := by
  have hunits (units : List UInt16) : modifiedUnits (units.flatMap modifiedUnit) = some units := by
    induction units with
    | nil => rfl
    | cons unit units ih =>
      rw [flatMap_cons, modifiedUnits_modifiedUnit, ih, Option.map_some]
  rw [modifiedUtf8, modified, hunits, Option.bind_some, Utf16.decode_encode]
  exact congrArg Except.ok String.ofList_toList

/-! ### The file of a list of entries -/

/-- A string behind its length. -/
def writeUtf (text : String) : Bytes := ofNat 2 (modified text).length ++ modified text

/-- Bytes behind their length. -/
def sized (data : Bytes) : Bytes := ofNat 4 data.length ++ data

/-- The versions of the format. -/
inductive Version
  | one
  | two
  deriving DecidableEq, Repr

def Version.number : Version → ℕ
  | one => 1
  | two => 2

/-- A certificate, with its type in stores of version 2. -/
def writeCertificate (version : Version) (der : Bytes) : Bytes :=
  (match version with
    | .one => []
    | .two => writeUtf "X.509") ++ sized der

/-- The tag, the alias and the time of an entry, and what belongs to it. -/
def writeEntry (version : Version) (created : UInt64) : KeyStoreEntry → Bytes
  | .privateKey aliasName protectedKey chain =>
    ofNat 4 1 ++ (writeUtf aliasName ++ (ofNat 8 created.toNat ++
      (sized protectedKey ++ (ofNat 4 chain.length ++
        chain.flatMap (writeCertificate version)))))
  | .trustedCertificate aliasName der =>
    ofNat 4 2 ++ (writeUtf aliasName ++ (ofNat 8 created.toNat ++
      writeCertificate version der))

/-- The lengths of an entry fit in the fields they are written in. -/
def EntryFits : KeyStoreEntry → Prop
  | .privateKey aliasName protectedKey chain =>
    (modified aliasName).length < 2 ^ 16 ∧ protectedKey.length < 2 ^ 32 ∧ chain.length < 2 ^ 32 ∧
      ∀ der ∈ chain, der.length < 2 ^ 32
  | .trustedCertificate aliasName der =>
    (modified aliasName).length < 2 ^ 16 ∧ der.length < 2 ^ 32

instance decidableEntryFits : DecidablePred EntryFits
  | .privateKey _ _ _ => inferInstanceAs (Decidable (_ ∧ _ ∧ _ ∧ _))
  | .trustedCertificate _ _ => inferInstanceAs (Decidable (_ ∧ _))

/-- A store without its digest. -/
def writeBody (jceks : Bool) (version : Version) (entries : List (UInt64 × KeyStoreEntry)) :
    Bytes :=
  ofNat 4 (if jceks then magicJceks else magicJks) ++ (ofNat 4 version.number ++
    (ofNat 4 entries.length ++ entries.flatMap fun e => writeEntry version e.1 e.2))

/-- The file of a list of entries, each with the time it was created at, if it has one. -/
def serialise (sha1 : Sha1) (jceks : Bool) (version : Version) (password : String)
    (entries : List (UInt64 × KeyStoreEntry)) : Option Bytes :=
  if entries.length < 2 ^ 32 ∧ ∀ e ∈ entries, EntryFits e.2 then
    let body := writeBody jceks version entries
    some (body ++ keyedDigest sha1 password body)
  else none

/-! ### Reading what was written -/

section Reading

variable (side : Side)

theorem bytes_append {data : Bytes} {len : ℕ} (hlen : data.length = len) (what : String)
    (rest : Bytes) : bytes side len what (data ++ rest) = .ok (data, rest) := by
  have hle : len ≤ (data ++ rest).length := by
    rw [length_append]
    omega
  rw [bytes, if_pos hle, take_left' hlen, drop_left' hlen]

theorem uint_append {w n : ℕ} (hn : n < 256 ^ w) (what : String) (rest : Bytes) :
    uint side w what (ofNat w n ++ rest) = .ok (n, rest) := by
  rw [uint, bytes_append side (length_ofNat w n), ok_bind]
  simp only [toNat_ofNat, Nat.mod_eq_of_lt hn]

theorem u32_append {n : ℕ} (hn : n < 2 ^ 32) (what : String) (rest : Bytes) :
    u32 side what (ofNat 4 n ++ rest) = .ok (n, rest) :=
  uint_append side (w := 4) hn what rest

theorem sized_append {data : Bytes} (hdata : data.length < 2 ^ 32) (whatLen what : String)
    (rest : Bytes) : (do
      let (len, rest) ← u32 side whatLen (sized data ++ rest)
      bytes side len what rest) = .ok (data, rest) := by
  rw [sized, append_assoc, u32_append side hdata, ok_bind]
  exact bytes_append side rfl what rest

theorem utf_append {text : String} (htext : (modified text).length < 2 ^ 16) (what : String)
    (rest : Bytes) : utf side what (writeUtf text ++ rest) = .ok (text, rest) := by
  rw [utf, writeUtf, append_assoc, u16, uint_append side htext, ok_bind]
  simp only [bytes_append side rfl, ok_bind, modifiedUtf8_modified]

theorem certificate_append (version : Version) {der : Bytes} (hder : der.length < 2 ^ 32)
    (rest : Bytes) : certificate side version.number (writeCertificate version der ++ rest) =
      .ok (der, rest) := by
  have htype : certificateType side version.number (writeCertificate version der ++ rest) =
      .ok (sized der ++ rest) := by
    cases version with
    | one => rfl
    | two =>
      have hkind : (modified "X.509").length < 2 ^ 16 := by decide
      rw [writeCertificate, append_assoc, Version.number, certificateType, if_pos rfl,
        utf_append side hkind, ok_bind]
      rfl
  rw [certificate, htype, ok_bind]
  exact sized_append side hder _ _ rest

theorem chain_append (version : Version) {ders : List Bytes}
    (hders : ∀ der ∈ ders, der.length < 2 ^ 32) (rest : Bytes) :
    chain side version.number ders.length (ders.flatMap (writeCertificate version) ++ rest) =
      .ok (ders, rest) := by
  induction ders with
  | nil => rfl
  | cons der ders ih =>
    have hder := certificate_append side version (hders der (mem_cons_self ..))
      (ders.flatMap (writeCertificate version) ++ rest)
    have hrest := ih fun d hd => hders d (mem_cons_of_mem _ hd)
    rw [length_cons, chain, flatMap_cons, append_assoc, hder, ok_bind]
    simp only [hrest, ok_bind]

theorem entry_append (version : Version) (created : UInt64) {e : KeyStoreEntry} (he : EntryFits e)
    (index : ℕ) (rest : Bytes) :
    entry side version.number index (writeEntry version created e ++ rest) =
      .ok (some e, rest) := by
  have hcreated : created.toNat < 256 ^ 8 := created.toNat_lt
  cases e with
  | privateKey aliasName protectedKey ders =>
    obtain ⟨halias, hkey, hcount, hders⟩ := he
    simp only [entry, writeEntry, append_assoc, u32_append side (n := 1) (by decide),
      ok_bind, utf_append side halias, u64, uint_append side hcreated, payload, sized,
      u32_append side hkey, bytes_append side rfl, u32_append side hcount,
      chain_append side version hders]
  | trustedCertificate aliasName der =>
    obtain ⟨halias, hder⟩ := he
    simp only [entry, writeEntry, append_assoc, u32_append side (n := 2) (by decide),
      ok_bind, utf_append side halias, u64, uint_append side hcreated, payload,
      certificate_append side version hder]

theorem readEntries_append (version : Version) {entries : List (UInt64 × KeyStoreEntry)}
    (hentries : ∀ e ∈ entries, EntryFits e.2) (index : ℕ) (rest : Bytes) :
    readEntries side version.number entries.length index
        ((entries.flatMap fun e => writeEntry version e.1 e.2) ++ rest) =
      .ok (entries.map Prod.snd) := by
  induction entries generalizing index with
  | nil => rfl
  | cons e entries ih =>
    have hfirst := entry_append side version e.1 (hentries e (mem_cons_self ..)) index
      ((entries.flatMap fun e => writeEntry version e.1 e.2) ++ rest)
    have hothers := ih (fun e he => hentries e (mem_cons_of_mem _ he)) (index + 1)
    rw [length_cons, readEntries, flatMap_cons, append_assoc, hfirst,
      ok_bind]
    simp only [hothers, ok_bind, Option.toList_some, singleton_append, map_cons]

/-! ### The digest of the file -/

variable {sha1 : Sha1} {jceks : Bool} {version : Version} {password : String}
  {entries : List (UInt64 × KeyStoreEntry)} {file : Bytes}

theorem serialise_eq_some (h : serialise sha1 jceks version password entries = some file) :
    (entries.length < 2 ^ 32 ∧ ∀ e ∈ entries, EntryFits e.2) ∧
      file = writeBody jceks version entries ++
        keyedDigest sha1 password (writeBody jceks version entries) := by
  unfold serialise at h
  split_ifs at h with hfits
  exact ⟨hfits, (Option.some.inj h).symm⟩

/-- The error of the integrity check. -/
def integrityError : CdmError :=
  tlsError side <| "the Java keystore integrity check failed; the store password is " ++
    "wrong or the file has been altered"

/-- A body and twenty bytes pass the check if the bytes are the digest of the body. -/
theorem verifyDigest_append {digest : Bytes} (hdigest : digest.length = sha1Len) (body : Bytes) :
    verifyDigest sha1 side (body ++ digest) password =
      if keyedDigest sha1 password body ≠ digest then .error (integrityError side)
      else .ok () := by
  have hlength : ¬ (body ++ digest).length < sha1Len := by
    rw [length_append]
    omega
  have hsplit : (body ++ digest).length - sha1Len = body.length := by
    rw [length_append]
    omega
  rw [verifyDigest, if_neg hlength]
  simp only [hsplit, take_left, drop_left, integrityError]

theorem length_keyedDigest (data : Bytes) : (keyedDigest sha1 password data).length = sha1Len :=
  length_sha1 sha1 _

/-- The header of a store. -/
def writeHeader (jceks : Bool) (version : Version) : Bytes :=
  ofNat 4 (if jceks then magicJceks else magicJks) ++ ofNat 4 version.number

theorem writeBody_append (rest : Bytes) : writeBody jceks version entries ++ rest =
    writeHeader jceks version ++ (ofNat 4 entries.length ++
      ((entries.flatMap fun e => writeEntry version e.1 e.2) ++ rest)) := by
  simp only [writeBody, writeHeader, append_assoc]

/-- A file that starts with a header is read once its digest is verified. -/
theorem parse_header (rest : Bytes) :
    parse sha1 side (writeHeader jceks version ++ rest) (some password) = (do
      verifyDigest sha1 side (writeHeader jceks version ++ rest) password
      let (count, rest) ← u32 side "entry count" rest
      let entries ← readEntries side version.number count 0 rest
      .ok ⟨entries, jceks⟩) := by
  have hmagic : (if jceks then magicJceks else magicJks) < 2 ^ 32 := by
    cases jceks <;> decide
  have hread : readMagic side (if jceks then magicJceks else magicJks) = .ok jceks := by
    cases jceks <;> rfl
  have hversion : version.number < 2 ^ 32 := by
    cases version <;> decide
  have hchecked : checkVersion side version.number = .ok () := by
    cases version <;> rfl
  have hfirst : u32 side "magic" (writeHeader jceks version ++ rest) =
      .ok (if jceks then magicJceks else magicJks, ofNat 4 version.number ++ rest) := by
    rw [writeHeader, append_assoc]
    exact u32_append side hmagic _ _
  rw [parse, hfirst, ok_bind]
  simp only [hread, u32_append side hversion, hchecked, verifyPassword, ok_bind]

/-- **Reading a written store.** -/
theorem parse_serialise (h : serialise sha1 jceks version password entries = some file) :
    parse sha1 side file (some password) = .ok ⟨entries.map Prod.snd, jceks⟩ := by
  obtain ⟨⟨hcount, hfits⟩, rfl⟩ := serialise_eq_some h
  have hverify : verifyDigest sha1 side (writeBody jceks version entries ++
      keyedDigest sha1 password (writeBody jceks version entries)) password = .ok () := by
    rw [verifyDigest_append side (length_keyedDigest _), if_neg (not_not_intro rfl)]
  -- the parser reads the file from the front, and the digest is at its end
  rw [writeBody_append] at hverify ⊢
  rw [parse_header, hverify, ok_bind, u32_append side hcount, ok_bind]
  simp only [readEntries_append side version hfits, ok_bind]

/-! ### A changed byte -/

/-- `sha1` has different digests for `x` and `y`, unless they are the same. -/
def Distinguishes (sha1 : Sha1) (x y : Bytes) : Prop := sha1 x = sha1 y → x = y

/-- A file without its digest. -/
def bodyOf (file : Bytes) : Bytes := file.take (file.length - sha1Len)

/-- A store that is parsed has passed the integrity check. -/
theorem verifyDigest_of_parse {store : JavaKeyStore}
    (h : parse sha1 side file (some password) = .ok store) :
    verifyDigest sha1 side file password = .ok () := by
  obtain ⟨_, -, h⟩ := bind_eq_ok.1 h
  obtain ⟨_, -, h⟩ := bind_eq_ok.1 h
  obtain ⟨_, -, h⟩ := bind_eq_ok.1 h
  obtain ⟨_, -, h⟩ := bind_eq_ok.1 h
  obtain ⟨_, hverify, -⟩ := bind_eq_ok.1 h
  exact hverify

theorem set_ne {α : Type*} {xs : List α} {i : ℕ} (hi : i < xs.length) {a : α} (ha : a ≠ xs[i]) :
    xs.set i a ≠ xs := by
  intro heq
  have hget : (xs.set i a)[i]? = xs[i]? := by rw [heq]
  rw [getElem?_set_self hi, getElem?_eq_getElem hi] at hget
  exact ha (Option.some.inj hget)

/-- **A changed byte** fails the integrity check, whether it is one of the digest or not. -/
theorem verifyDigest_set (h : serialise sha1 jceks version password entries = some file) {i : ℕ}
    (hi : i < file.length) {b : UInt8} (hb : b ≠ file[i])
    (hsha1 : Distinguishes sha1 (keyed password (bodyOf (file.set i b)))
      (keyed password (bodyOf file))) :
    verifyDigest sha1 side (file.set i b) password = .error (integrityError side) := by
  have hset := set_ne hi hb
  obtain ⟨-, rfl⟩ := serialise_eq_some h
  generalize writeBody jceks version entries = body at *
  have hbodyOf (body' digest : Bytes) (hdigest : digest.length = sha1Len) :
      bodyOf (body' ++ digest) = body' := by
    rw [bodyOf, length_append, hdigest, Nat.add_sub_cancel]
    exact take_left
  have hdigest : (keyedDigest sha1 password body).length = sha1Len := length_keyedDigest body
  rw [set_append] at hset hsha1 ⊢
  split_ifs at hset hsha1 ⊢ with hinside
  · -- the digest is that of the body before
    have hne : body.set i b ≠ body := fun heq => hset (by rw [heq])
    rw [hbodyOf _ _ hdigest, hbodyOf _ _ hdigest] at hsha1
    have hother : keyedDigest sha1 password (body.set i b) ≠ keyedDigest sha1 password body := by
      intro heq
      exact hne (append_cancel_left (hsha1 (Vector.toList_inj.1 heq)))
    rw [verifyDigest_append side hdigest, if_pos hother]
  · -- the body has no other digest than before
    have hne : (keyedDigest sha1 password body).set (i - body.length) b ≠
        keyedDigest sha1 password body := fun heq => hset (by rw [heq])
    rw [verifyDigest_append side (by rw [length_set, hdigest]), if_pos hne.symm]

/-- No changed byte goes unnoticed; behind the magic number and the version it is the integrity
check that notices it. -/
theorem parse_set (h : serialise sha1 jceks version password entries = some file) {i : ℕ}
    (hi : i < file.length) {b : UInt8} (hb : b ≠ file[i])
    (hsha1 : Distinguishes sha1 (keyed password (bodyOf (file.set i b)))
      (keyed password (bodyOf file))) :
    (∃ e, parse sha1 side (file.set i b) (some password) = .error e) ∧
      (8 ≤ i → parse sha1 side (file.set i b) (some password) = .error (integrityError side)) := by
  have hverify := verifyDigest_set side h hi hb hsha1
  constructor
  · cases hparse : parse sha1 side (file.set i b) (some password) with
    | error e => exact ⟨e, rfl⟩
    | ok store =>
      have hok := verifyDigest_of_parse side hparse
      rw [hverify] at hok
      cases hok
  · intro hbehind
    obtain ⟨-, hfile⟩ := serialise_eq_some h
    have hheader : (writeHeader jceks version).length = 8 := by
      rw [writeHeader, length_append, length_ofNat, length_ofNat]
    rw [writeBody_append] at hfile
    rw [hfile, set_append, if_neg (by omega)] at hverify ⊢
    rw [parse_header, hverify]
    rfl

end Reading

end JavaKeyStore

end Cdm
