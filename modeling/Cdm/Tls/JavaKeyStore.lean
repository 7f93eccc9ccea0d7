import Cdm.Core.Error
import Cdm.Lib.BigEndian
import Cdm.Lib.Utf16

/-!
# Java keystores

`parse` reads a JKS or JCEKS store: a header, the entries one behind the other, and a SHA-1 digest
that is keyed with the store password.  The digest is verified before any entry is read, provided
that there is a password.

A reader is the part of the file that is still to be read.  The lengths are at most 32 bits wide, so
that the sum of an offset and a length always fits in a `usize`.  SHA-1 itself is a parameter.
-/

namespace Cdm

/-- A TLS material failure. -/
def tlsError (side : Side) (message : String) : CdmError :=
  (⟨.tls, message, {}⟩ : CdmError).withSide side

/-- Length of a SHA-1 digest. -/
def sha1Len : ℕ := 20

/-- A hash function with the digests of SHA-1. -/
abbrev Sha1 := Bytes → Vector UInt8 sha1Len

theorem length_sha1 (sha1 : Sha1) (data : Bytes) : (sha1 data).toList.length = sha1Len :=
  Vector.length_toList

namespace JavaKeyStore

/-- The JKS magic number. -/
def magicJks : ℕ := 0xfeedfeed

/-- The JCEKS magic number. -/
def magicJceks : ℕ := 0xcececece

/-- The salt of the store digest. -/
def digestSalt : Bytes := "Mighty Aphrodite".toList.map fun c => UInt8.ofNat c.toNat

end JavaKeyStore

/-- One entry of a Java keystore. -/
inductive KeyStoreEntry
  | trustedCertificate (aliasName : String) (certificate : Bytes)
  /-- A key, still protected, with its certificate chain, end-entity first. -/
  | privateKey (aliasName : String) (protectedKey : Bytes) (chain : List Bytes)
  deriving DecidableEq, Repr

/-- A parsed Java keystore. -/
structure JavaKeyStore where
  entries : List KeyStoreEntry
  jceks : Bool
  deriving DecidableEq, Repr

namespace JavaKeyStore

/-! ### Text -/

/-- A 32-bit integer as eight hexadecimal digits. -/
def hexU32 (n : ℕ) : String := "0x" ++ String.join ((BigEndian.ofNat 4 n).map hexByte)

/-- A password as Java encodes it: UTF-16, big-endian, without a byte order mark. -/
def utf16be (password : String) : Bytes :=
  (Utf16.encode password.toList).flatMap fun unit => BigEndian.ofNat 2 unit.toNat

/-- The UTF-16 units of a modified UTF-8 string. -/
def modifiedUnits : Bytes → Option (List UInt16)
  | [] => some []
  | first :: rest =>
    if first ≤ 0x7f then (modifiedUnits rest).map (first.toUInt16 :: ·)
    else if 0xc0 ≤ first ∧ first ≤ 0xdf then
      match rest with
      | second :: rest =>
        let unit := (first &&& 0x1f).toUInt16 <<< 6 ||| (second &&& 0x3f).toUInt16
        (modifiedUnits rest).map (unit :: ·)
      | [] => none
    else if 0xe0 ≤ first ∧ first ≤ 0xef then
      match rest with
      | second :: third :: rest =>
        let unit := (first &&& 0x0f).toUInt16 <<< 12 ||| (second &&& 0x3f).toUInt16 <<< 6 |||
          (third &&& 0x3f).toUInt16
        (modifiedUnits rest).map (unit :: ·)
      | _ => none
    else none

/-- Decodes modified UTF-8: the character zero has two bytes, and a character outside of the basic
plane is a surrogate pair. -/
def modifiedUtf8 (side : Side) (bytes : Bytes) (what : String) : Except CdmError String :=
  match (modifiedUnits bytes).bind Utf16.decode with
  | some text => .ok (String.ofList text)
  | none => .error (tlsError side s!"malformed modified UTF-8 in the {what}")

/-! ### The reader -/

/-- The next `len` bytes. -/
def bytes (side : Side) (len : ℕ) (what : String) (rest : Bytes) :
    Except CdmError (Bytes × Bytes) :=
  if len ≤ rest.length then .ok (rest.take len, rest.drop len)
  else .error (tlsError side s!"the Java keystore ends in the middle of {what}")

/-- A big-endian integer of `width` bytes, as `u16`, `u32` and `u64` read it. -/
def uint (side : Side) (width : ℕ) (what : String) (rest : Bytes) :
    Except CdmError (ℕ × Bytes) := do
  let (array, rest) ← bytes side width what rest
  .ok (BigEndian.toNat array, rest)

def u16 (side : Side) (what : String) (rest : Bytes) : Except CdmError (ℕ × Bytes) :=
  uint side 2 what rest

def u32 (side : Side) (what : String) (rest : Bytes) : Except CdmError (ℕ × Bytes) :=
  uint side 4 what rest

def u64 (side : Side) (what : String) (rest : Bytes) : Except CdmError (ℕ × Bytes) :=
  uint side 8 what rest

/-- A modified UTF-8 string behind its length. -/
def utf (side : Side) (what : String) (rest : Bytes) : Except CdmError (String × Bytes) := do
  let (len, rest) ← u16 side what rest
  let (text, rest) ← bytes side len what rest
  let text ← modifiedUtf8 side text what
  .ok (text, rest)

/-- The name of the certificate's type, in stores of version 2. -/
def certificateType (side : Side) (version : ℕ) (rest : Bytes) : Except CdmError Bytes :=
  if version = 2 then do
    let (kind, rest) ← utf side "certificate type" rest
    if kind ≠ "X.509" ∧ kind ≠ "X509" then
      .error (tlsError side s!"unsupported certificate type {kind} in the Java keystore")
    else .ok rest
  else .ok rest

/-- A certificate: its type, then its length and the DER. -/
def certificate (side : Side) (version : ℕ) (rest : Bytes) : Except CdmError (Bytes × Bytes) := do
  let rest ← certificateType side version rest
  let (len, rest) ← u32 side "certificate length" rest
  bytes side len "certificate" rest

/-- The certificates of a chain. -/
def chain (side : Side) (version : ℕ) : ℕ → Bytes → Except CdmError (List Bytes × Bytes)
  | 0, rest => .ok ([], rest)
  | count + 1, rest => do
    let (der, rest) ← certificate side version rest
    let (ders, rest) ← chain side version count rest
    .ok (der :: ders, rest)

/-- What stands behind the tag, the alias and the time of an entry; a secret key is skipped. -/
def payload (side : Side) (version tag : ℕ) (aliasName : String) (rest : Bytes) :
    Except CdmError (Option KeyStoreEntry × Bytes) :=
  match tag with
  | 1 => do
    let (keyLen, rest) ← u32 side "protected key length" rest
    let (protectedKey, rest) ← bytes side keyLen "protected key" rest
    let (chainLen, rest) ← u32 side "certificate chain length" rest
    let (ders, rest) ← chain side version chainLen rest
    .ok (some (.privateKey aliasName protectedKey ders), rest)
  | 2 => do
    let (der, rest) ← certificate side version rest
    .ok (some (.trustedCertificate aliasName der), rest)
  | 3 => do
    let (len, rest) ← u32 side "secret key length" rest
    let (_, rest) ← bytes side len "secret key" rest
    -- a JCEKS secret key is nothing a connection can use
    .ok (none, rest)
  | other =>
    .error (tlsError side s!"unknown Java keystore entry tag {other} for alias {aliasName}")

/-- One entry. -/
def entry (side : Side) (version index : ℕ) (rest : Bytes) :
    Except CdmError (Option KeyStoreEntry × Bytes) := do
  let (tag, rest) ← u32 side "entry tag" rest
  let (aliasName, rest) ← utf side s!"alias of entry {index}" rest
  let (_, rest) ← u64 side "creation timestamp" rest
  payload side version tag aliasName rest

/-- The entries from `index` on; what stands behind them is not read. -/
def readEntries (side : Side) (version : ℕ) : ℕ → ℕ → Bytes → Except CdmError (List KeyStoreEntry)
  | 0, _, _ => .ok []
  | count + 1, index, rest => do
    let (first, rest) ← entry side version index rest
    let others ← readEntries side version count (index + 1) rest
    .ok (first.toList ++ others)

/-! ### The parser -/

/-- What the store digest is computed of. -/
def keyed (password : String) (data : Bytes) : Bytes := utf16be password ++ digestSalt ++ data

/-- The store digest. -/
def keyedDigest (sha1 : Sha1) (password : String) (data : Bytes) : Bytes :=
  (sha1 (keyed password data)).toList

/-- Verifies the digest at the end of the file. -/
def verifyDigest (sha1 : Sha1) (side : Side) (file : Bytes) (password : String) :
    Except CdmError Unit :=
  if file.length < sha1Len then .error (tlsError side "the Java keystore is truncated")
  else
    let split := file.length - sha1Len
    if keyedDigest sha1 password (file.take split) ≠ file.drop split then
      .error (tlsError side <| "the Java keystore integrity check failed; the store password is " ++
        "wrong or the file has been altered")
    else .ok ()

/-- A store is opened without a password, too; then there is nothing to verify. -/
def verifyPassword (sha1 : Sha1) (side : Side) (file : Bytes) : Option String → Except CdmError Unit
  | some password => verifyDigest sha1 side file password
  | none => .ok ()

/-- Whether the magic number is that of a JCEKS store. -/
def readMagic (side : Side) (magic : ℕ) : Except CdmError Bool :=
  if magic = magicJks then .ok false
  else if magic = magicJceks then .ok true
  else .error (tlsError side <| "not a Java keystore: expected magic 0xfeedfeed or 0xcececece, " ++
    s!"found {hexU32 magic}")

def checkVersion (side : Side) (version : ℕ) : Except CdmError Unit :=
  if version ≠ 1 ∧ version ≠ 2 then
    .error (tlsError side s!"unsupported Java keystore version {version}; only 1 and 2 exist")
  else .ok ()

/-- Parses a JKS or JCEKS store, verifying the keyed digest when a password is supplied. -/
def parse (sha1 : Sha1) (side : Side) (file : Bytes) (password : Option String) :
    Except CdmError JavaKeyStore := do
  let (magic, rest) ← u32 side "magic" file
  let jceks ← readMagic side magic
  let (version, rest) ← u32 side "version" rest
  checkVersion side version
  -- the digest is looked at before any entry is, so that a wrong password is told as such
  verifyPassword sha1 side file password
  let (count, rest) ← u32 side "entry count" rest
  let entries ← readEntries side version count 0 rest
  .ok ⟨entries, jceks⟩

end JavaKeyStore

end Cdm
