import Mathlib.Tactic.SplitIfs
import Cdm.Lib.Fallible
import Cdm.Lib.Keystream
import Cdm.Tls.KeyStoreRoundTrip

/-!
# The protection of keys in a Java keystore

A key is masked with a keystream of SHA-1 digests, each computed from the password and the digest
before it; the salt is the first.  The salt, the masked key and a digest of the key are the
encrypted data of a DER structure that names the algorithm.
-/

namespace Cdm

open Fallible

namespace JavaKeyStore

/-! ### DER -/

/-- The big-endian length in the next `count` bytes, behind what was read of it. -/
def derLength : ℕ → ℕ → Bytes → Option (ℕ × Bytes)
  | 0, length, rest => some (length, rest)
  | count + 1, length, byte :: rest => derLength count (256 * length + byte.toNat) rest
  | _ + 1, _, [] => none

/-- The length behind the tag: one byte, or at most four behind their number. -/
def derHeader : Bytes → Option (ℕ × Bytes)
  | [] => none
  | lengthByte :: rest =>
    if lengthByte < 0x80 then some (lengthByte.toNat, rest)
    else
      let count := (lengthByte &&& 0x7f).toNat
      if count = 0 ∨ 4 < count then none else derLength count 0 rest

/-- Reads the next value, requiring the given tag, and returns its contents. -/
def expect (side : Side) (tag : UInt8) (what : String) (der : Bytes) :
    Except CdmError (Bytes × Bytes) :=
  let err := tlsError side s!"malformed DER while reading {what}"
  match der with
  | [] => .error err
  | actual :: rest =>
    if actual ≠ tag then
      .error (tlsError side <| s!"expected DER tag 0x{hexByte tag} for {what}, found " ++
        s!"0x{hexByte actual}")
    else
      match derHeader rest with
      | none => .error err
      | some (length, rest) =>
        if length ≤ rest.length then .ok (rest.take length, rest.drop length) else .error err

/-! ### The protection -/

/-- `1.3.6.1.4.1.42.2.17.1.1`, Sun's key protection algorithm. -/
def jksKeyProtectorOid : Bytes := [0x2b, 0x06, 0x01, 0x04, 0x01, 0x2a, 0x02, 0x11, 0x01, 0x01]

/-- The encrypted data, if the algorithm is Sun's. -/
def encryptedPrivateKeyData (side : Side) (der : Bytes) : Except CdmError Bytes := do
  let (sequence, _) ← expect side 0x30 "EncryptedPrivateKeyInfo" der
  let (algorithm, sequence) ← expect side 0x30 "AlgorithmIdentifier" sequence
  let (oid, _) ← expect side 0x06 "algorithm OID" algorithm
  if oid ≠ jksKeyProtectorOid then
    .error (tlsError side <| "the JKS private key uses an unsupported protection algorithm; " ++
      "only Sun's 1.3.6.1.4.1.42.2.17.1.1 is written by keytool")
  else do
    let (encrypted, _) ← expect side 0x04 "encryptedData" sequence
    .ok encrypted

instance : NeZero sha1Len := ⟨by decide⟩

/-- Masks `data` with the keystream of the password and the salt. -/
def keystreamXor (sha1 : Sha1) (password : String) (salt data : Bytes) : Bytes :=
  Keystream.mask (fun previous => (sha1 (utf16be password ++ previous)).toList) sha1Len salt data

/-- Removes the Sun key protection, yielding PKCS#8. -/
def unprotectKey (sha1 : Sha1) (side : Side) (protectedKey : Bytes) (password : String) :
    Except CdmError Bytes := do
  let encrypted ← encryptedPrivateKeyData side protectedKey
  if encrypted.length ≤ sha1Len * 2 then
    .error (tlsError side
      "the JKS protected key is too short to contain salt, ciphertext and digest")
  else
    let salt := encrypted.take sha1Len
    let rest := encrypted.drop sha1Len
    let ciphertext := rest.take (rest.length - sha1Len)
    let expectedDigest := rest.drop (rest.length - sha1Len)
    let plaintext := keystreamXor sha1 password salt ciphertext
    if (sha1 (utf16be password ++ plaintext)).toList ≠ expectedDigest then
      .error (tlsError side
        "the JKS private key could not be decrypted; the key password is wrong")
    else .ok plaintext

/-! ### The protection of a key, as Java writes it -/

/-- The bytes of a length, without leading zeros. -/
def significant (length : ℕ) : Bytes := (BigEndian.ofNat 8 length).dropWhile (· == 0)

/-- A DER tag, length and value. -/
def der (tag : UInt8) (contents : Bytes) : Bytes :=
  if contents.length < 0x80 then tag :: UInt8.ofNat contents.length :: contents
  else tag :: (0x80 ||| UInt8.ofNat (significant contents.length).length) ::
    (significant contents.length ++ contents)

/-- The salt, the masked key and the digest of the key. -/
def encryptedData (sha1 : Sha1) (salt : Vector UInt8 sha1Len) (key : Bytes) (password : String) :
    Bytes :=
  salt.toList ++ (keystreamXor sha1 password salt.toList key ++
    (sha1 (utf16be password ++ key)).toList)

/-- The `EncryptedPrivateKeyInfo` of a key. -/
def protect (sha1 : Sha1) (salt : Vector UInt8 sha1Len) (key : Bytes) (password : String) : Bytes :=
  der 0x30 (der 0x30 (der 0x06 jksKeyProtectorOid ++ [0x05, 0x00]) ++
    der 0x04 (encryptedData sha1 salt key password))

/-! ### Lengths are read as they were written -/

theorem derLength_append (bs rest : Bytes) (length : ℕ) :
    derLength bs.length length (bs ++ rest) =
      some (bs.foldl (fun n b => 256 * n + b.toNat) length, rest) := by
  induction bs generalizing length with
  | nil => rfl
  | cons b bs ih => exact ih _

/-- Leading zeros do not count. -/
theorem toNat_dropWhile (bs : Bytes) :
    BigEndian.toNat (bs.dropWhile (· == 0)) = BigEndian.toNat bs := by
  induction bs with
  | nil => rfl
  | cons b bs ih =>
    by_cases hb : b = 0
    · subst hb
      have hhead : (0 : UInt8).toNat = 0 := rfl
      rw [List.dropWhile_cons_of_pos (by rfl), ih, BigEndian.toNat_cons, hhead, Nat.zero_mul,
        Nat.zero_add]
    · rw [List.dropWhile_cons_of_neg (by simpa using hb)]

theorem toNat_significant {length : ℕ} (h : length < 2 ^ 64) :
    BigEndian.toNat (significant length) = length := by
  rw [significant, toNat_dropWhile, BigEndian.toNat_ofNat]
  exact Nat.mod_eq_of_lt h

theorem length_significant {length : ℕ} (h : length < 2 ^ 32) :
    (significant length).length ≤ 4 := by
  have hvalue := toNat_significant (h.trans (by decide))
  cases hbytes : significant length with
  | nil => exact Nat.zero_le 4
  | cons b bs =>
    have hhead := List.head?_dropWhile_not (· == 0) (BigEndian.ofNat 8 length)
    rw [← significant.eq_1, hbytes] at hhead
    rw [hbytes] at hvalue
    have hpos : 0 < b.toNat := by
      rw [Nat.pos_iff_ne_zero]
      intro hzero
      have hb : b = 0 := UInt8.toNat_inj.1 hzero
      simp [hb] at hhead
    rw [BigEndian.toNat_cons] at hvalue
    have hle : 256 ^ bs.length ≤ b.toNat * 256 ^ bs.length := Nat.le_mul_of_pos_left _ hpos
    have hlt : 256 ^ bs.length < 256 ^ 4 := by omega
    have hfour := (Nat.pow_lt_pow_iff_right (by decide)).1 hlt
    exact hfour

theorem significant_ne_nil {length : ℕ} (hpos : 0 < length) (h : length < 2 ^ 64) :
    significant length ≠ [] := by
  intro hnil
  have hvalue := toNat_significant h
  rw [hnil] at hvalue
  exact hpos.ne hvalue

/-- The first byte of a long length tells how many follow. -/
theorem longForm {count : ℕ} (hpos : 0 < count) (hle : count ≤ 4) :
    ¬ 0x80 ||| UInt8.ofNat count < 0x80 ∧
      ((0x80 ||| UInt8.ofNat count) &&& 0x7f).toNat = count := by
  have hall : ∀ count < 5, 0 < count → ¬ 0x80 ||| UInt8.ofNat count < 0x80 ∧
      ((0x80 ||| UInt8.ofNat count) &&& 0x7f).toNat = count := by decide
  exact hall count (Nat.lt_succ_of_le hle) hpos

/-- Reading a value that was written gives its contents. -/
theorem expect_der (side : Side) (tag : UInt8) (what : String) {contents : Bytes}
    (h : contents.length < 2 ^ 32) (rest : Bytes) :
    expect side tag what (der tag contents ++ rest) = .ok (contents, rest) := by
  have hcontents : contents.length ≤ (contents ++ rest).length := by
    rw [List.length_append]
    omega
  have hheader : ∃ header, der tag contents = tag :: (header ++ contents) ∧
      derHeader (header ++ (contents ++ rest)) = some (contents.length, contents ++ rest) := by
    unfold der
    split_ifs with hshort
    · -- a length of one byte
      have hbyte : (UInt8.ofNat contents.length).toNat = contents.length :=
        Nat.mod_eq_of_lt (by omega)
      have hlt : UInt8.ofNat contents.length < 0x80 := by
        rw [UInt8.lt_iff_toNat_lt, hbyte]
        exact hshort
      refine ⟨[UInt8.ofNat contents.length], rfl, ?_⟩
      rw [List.singleton_append, derHeader, if_pos hlt, hbyte]
    · -- the number of the bytes of the length, and then these
      have hpos : significant contents.length ≠ [] :=
        significant_ne_nil (by omega) (h.trans (by decide))
      obtain ⟨hlong, hcount⟩ := longForm (List.length_pos_iff.2 hpos) (length_significant h)
      have hvalid : ¬ ((significant contents.length).length = 0 ∨
          4 < (significant contents.length).length) := by
        have hfour := length_significant h
        have hlength := List.length_pos_iff.2 hpos
        omega
      refine ⟨(0x80 ||| UInt8.ofNat (significant contents.length).length) ::
        significant contents.length, rfl, ?_⟩
      rw [List.cons_append, derHeader, if_neg hlong]
      simp only [hcount, if_neg hvalid, derLength_append]
      exact congrArg some (Prod.ext (toNat_significant (h.trans (by decide))) rfl)
  obtain ⟨header, hder, hread⟩ := hheader
  rw [hder, List.cons_append, List.append_assoc, expect]
  simp only [ne_eq, not_true_eq_false, if_false, hread, if_pos hcontents, List.take_left,
    List.drop_left]

theorem length_le_der (tag : UInt8) (contents : Bytes) :
    contents.length ≤ (der tag contents).length := by
  unfold der
  split_ifs
  · rw [List.length_cons, List.length_cons]
    omega
  · rw [List.length_cons, List.length_cons, List.length_append]
    omega

theorem length_der {contents : Bytes} {n : ℕ} (h : contents.length = n) (hshort : n < 0x80)
    (tag : UInt8) : (der tag contents).length = n + 2 := by
  rw [der, if_pos (h ▸ hshort), List.length_cons, List.length_cons, h]

/-! ### A protected key is got back -/

section Protection

variable {sha1 : Sha1} {salt : Vector UInt8 sha1Len} {key : Bytes} {password : String}

theorem length_keystreamXor (p data : Bytes) :
    (keystreamXor sha1 password p data).length = data.length :=
  Keystream.length_mask (fun _ => length_sha1 sha1 _) p data

theorem keystreamXor_keystreamXor (p data : Bytes) :
    keystreamXor sha1 password p (keystreamXor sha1 password p data) = data :=
  Keystream.mask_mask (fun _ => length_sha1 sha1 _) p data

theorem length_encryptedData :
    (encryptedData sha1 salt key password).length = key.length + sha1Len * 2 := by
  have hsalt : salt.toList.length = sha1Len := Vector.length_toList
  rw [encryptedData, List.length_append, List.length_append, length_keystreamXor, hsalt,
    length_sha1]
  omega

theorem encryptedPrivateKeyData_protect (side : Side)
    (h : (protect sha1 salt key password).length < 2 ^ 32) :
    encryptedPrivateKeyData side (protect sha1 salt key password) =
      .ok (encryptedData sha1 salt key password) := by
  have hinner := (length_le_der _ _).trans_lt h
  -- a value is no longer than the structure around it
  have hdata : (encryptedData sha1 salt key password).length < 2 ^ 32 := by
    refine (length_le_der 0x04 _).trans_lt (lt_of_le_of_lt ?_ hinner)
    rw [List.length_append]
    exact Nat.le_add_left _ _
  have houter := expect_der side 0x30 "EncryptedPrivateKeyInfo" hinner []
  have halgorithm : expect side 0x30 "AlgorithmIdentifier"
      (der 0x30 (der 0x06 jksKeyProtectorOid ++ [0x05, 0x00]) ++
        der 0x04 (encryptedData sha1 salt key password)) = _ :=
    expect_der side 0x30 _ (by decide) _
  have hoid : expect side 0x06 "algorithm OID" (der 0x06 jksKeyProtectorOid ++ [0x05, 0x00]) = _ :=
    expect_der side 0x06 _ (by decide) _
  have hencrypted := expect_der side 0x04 "encryptedData" hdata []
  rw [List.append_nil] at houter hencrypted
  rw [encryptedPrivateKeyData, protect, houter, ok_bind]
  simp only [halgorithm, hoid, hencrypted, ok_bind, ne_eq, not_true_eq_false, if_false]

/-- **Key protection is undone**, whatever the length of the key, except for a key without bytes. -/
theorem unprotectKey_protect (side : Side) (hkey : key ≠ [])
    (h : (protect sha1 salt key password).length < 2 ^ 32) :
    unprotectKey sha1 side (protect sha1 salt key password) password = .ok key := by
  have hsalt : salt.toList.length = sha1Len := Vector.length_toList
  have hdigest := length_sha1 sha1 (utf16be password ++ key)
  have hpos := List.length_pos_iff.2 hkey
  have hlong : ¬ (encryptedData sha1 salt key password).length ≤ sha1Len * 2 := by
    rw [length_encryptedData]
    omega
  have hrest : (keystreamXor sha1 password salt.toList key ++
      (sha1 (utf16be password ++ key)).toList).length - sha1Len =
        (keystreamXor sha1 password salt.toList key).length := by
    rw [List.length_append, hdigest, Nat.add_sub_cancel]
  rw [unprotectKey, encryptedPrivateKeyData_protect side h, ok_bind, if_neg hlong]
  simp only [encryptedData, List.take_left' hsalt, List.drop_left' hsalt, hrest, List.take_left,
    List.drop_left, keystreamXor_keystreamXor, ne_eq, not_true_eq_false, if_false]

/-- The overhead of a short key. -/
theorem length_protect (h : key.length < 70) :
    (protect sha1 salt key password).length = key.length + 60 := by
  have hdata : (encryptedData sha1 salt key password).length = _ := length_encryptedData
  have hlen : sha1Len = 20 := rfl
  have hinner : (der 0x30 (der 0x06 jksKeyProtectorOid ++ [0x05, 0x00]) ++
      der 0x04 (encryptedData sha1 salt key password)).length = key.length + 58 := by
    rw [List.length_append, length_der hdata (by omega)]
    have halgorithm : (der 0x30 (der 0x06 jksKeyProtectorOid ++ [0x05, 0x00])).length = 16 := rfl
    omega
  exact length_der hinner (by omega) 0x30

/-- The empty key is refused: its encrypted data are a salt and a digest only. -/
theorem unprotectKey_protect_nil (side : Side) :
    unprotectKey sha1 side (protect sha1 salt [] password) password =
      .error (tlsError side
        "the JKS protected key is too short to contain salt, ciphertext and digest") := by
  have hlength : (encryptedData sha1 salt [] password).length ≤ sha1Len * 2 :=
    (length_encryptedData.trans (Nat.zero_add _)).le
  have hprotected : (protect sha1 salt [] password).length < 2 ^ 32 :=
    (length_protect (by decide)).trans_lt (by decide)
  rw [unprotectKey, encryptedPrivateKeyData_protect side hprotected, ok_bind,
    if_pos hlength]

end Protection

/-! ### The keystore -/

/-- **Keystores.** A written store is read as it was, a changed byte fails its integrity check, and
a protected key that is not empty is got back. -/
theorem keystore_faithful (sha1 : Sha1) (side : Side) (jceks : Bool) (version : Version)
    (password : String) :
    (∀ entries file, serialise sha1 jceks version password entries = some file →
      parse sha1 side file (some password) = .ok ⟨entries.map Prod.snd, jceks⟩ ∧
      ∀ i (hi : i < file.length) b, b ≠ file[i] →
        Distinguishes sha1 (keyed password (bodyOf (file.set i b)))
          (keyed password (bodyOf file)) →
        verifyDigest sha1 side (file.set i b) password = .error (integrityError side) ∧
        (∃ e, parse sha1 side (file.set i b) (some password) = .error e) ∧
        (8 ≤ i →
          parse sha1 side (file.set i b) (some password) = .error (integrityError side))) ∧
    ∀ salt key keyPassword, key ≠ [] → (protect sha1 salt key keyPassword).length < 2 ^ 32 →
      unprotectKey sha1 side (protect sha1 salt key keyPassword) keyPassword = .ok key := by
  constructor
  · intro entries file h
    refine ⟨parse_serialise side h, fun i hi b hb hsha1 => ?_⟩
    exact ⟨verifyDigest_set side h hi hb hsha1, parse_set side h hi hb hsha1⟩
  · intro salt key keyPassword hkey hlength
    exact unprotectKey_protect side hkey hlength

/-- What SHA-1 makes of the five inputs of the example. -/
def exampleSha1 : Sha1 := fun data =>
  match data.length, data.getLast? with
  | 69, some 0xad => #v[0x30, 0xa5, 0x90, 0x18, 0x40, 0x72, 0x25, 0x14, 0xa0, 0x1f, 0x28, 0x59,
      0xa8, 0x11, 0x56, 0xcf, 0xc7, 0xa7, 0xb7, 0x2a]
  | 69, some 0x00 => #v[0x3c, 0x39, 0x87, 0x9c, 0xd1, 0x5f, 0x10, 0x59, 0x5f, 0xdd, 0x28, 0x3a,
      0x18, 0x6d, 0x4d, 0x52, 0x2c, 0x87, 0x31, 0xf2]
  | 24, some 0x07 => #v[0x0e, 0xea, 0x18, 0x1a, 0xff, 0xaf, 0xd4, 0xb2, 0xc2, 0x50, 0x3d, 0x39,
      0x19, 0x52, 0x1b, 0xf5, 0x49, 0x4e, 0xa6, 0x30]
  | 24, some 0x30 => #v[0xce, 0x5b, 0x7b, 0xb3, 0xa0, 0x30, 0xfc, 0x23, 0x66, 0x5e, 0x40, 0x61,
      0x6f, 0xc4, 0x75, 0x26, 0x5b, 0xe9, 0x5f, 0x91]
  | _, _ => #v[0xb0, 0xef, 0xf8, 0x37, 0x67, 0x05, 0x74, 0x1c, 0x1a, 0xc7, 0x8d, 0x14, 0x32, 0xcb,
      0xab, 0x33, 0x9b, 0x45, 0x2e, 0x13]

/-- A store with one certificate; its alias has characters of two, two and six bytes. -/
def exampleEntries : List (UInt64 × KeyStoreEntry) :=
  [(0, .trustedCertificate (String.ofList ['\x00', 'é', '𝄞']) [0xde, 0xad])]

def exampleFile : Bytes :=
  [0xfe, 0xed, 0xfe, 0xed, 0, 0, 0, 2, 0, 0, 0, 1, 0, 0, 0, 2, 0, 10, 0xc0, 0x80, 0xc3, 0xa9,
    0xed, 0xa0, 0xb4, 0xed, 0xb4, 0x9e, 0, 0, 0, 0, 0, 0, 0, 0, 0, 5, 0x58, 0x2e, 0x35, 0x30, 0x39,
    0, 0, 0, 2, 0xde, 0xad, 0x30, 0xa5, 0x90, 0x18, 0x40, 0x72, 0x25, 0x14, 0xa0, 0x1f, 0x28, 0x59,
    0xa8, 0x11, 0x56, 0xcf, 0xc7, 0xa7, 0xb7, 0x2a]

theorem keystore_faithful_example :
    parse exampleSha1 .origin exampleFile (some "pw") = .ok ⟨exampleEntries.map Prod.snd, false⟩ ∧
      parse exampleSha1 .origin (exampleFile.set 48 0) (some "pw") =
        .error (integrityError .origin) ∧
      unprotectKey exampleSha1 .origin
        (protect exampleSha1 (Vector.replicate _ 7) ((List.range 21).map UInt8.ofNat) "pw") "pw" =
        .ok ((List.range 21).map UInt8.ofNat) := by
  obtain ⟨hstore, hkeys⟩ := keystore_faithful exampleSha1 .origin false .two "pw"
  have hfile : serialise exampleSha1 false .two "pw" exampleEntries = some exampleFile := by
    decide
  obtain ⟨hparse, hchanged⟩ := hstore exampleEntries exampleFile hfile
  obtain ⟨-, -, hbehind⟩ := hchanged 48 (by decide) 0 (by decide) fun h => absurd h (by decide)
  exact ⟨hparse, hbehind (by decide),
    hkeys _ _ _ (by decide) ((length_protect (by decide)).trans_lt (by decide))⟩

/-- A key without bytes is not got back. -/
theorem not_keystore_faithful :
    ¬ ∀ key, (protect exampleSha1 (Vector.replicate _ 7) key "pw").length < 2 ^ 32 →
      unprotectKey exampleSha1 .origin (protect exampleSha1 (Vector.replicate _ 7) key "pw") "pw" =
        .ok key := by
  intro h
  have hnil := h [] ((length_protect (by decide)).trans_lt (by decide))
  rw [unprotectKey_protect_nil] at hnil
  cases hnil

end JavaKeyStore

end Cdm
