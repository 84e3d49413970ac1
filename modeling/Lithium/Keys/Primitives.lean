import Lithium.Storage.FileSystem

/-! Byte strings, errors and the cryptographic primitives that all layers use. The
primitives come from other crates, so they are parameters; what is relied on is stated
as laws. -/
namespace Lithium.Keys
open Storage

abbrev Bytes := List UInt8

/-- `[u8; N]` and the secret types that hold one. -/
abbrev Fixed (n : Nat) := { bytes : Bytes // bytes.length = n }

def Fixed.get {n : Nat} (bytes : Fixed n) (i : Fin n) : UInt8 :=
  bytes.1.get (i.cast bytes.2.symm)

abbrev Key := Fixed 32
abbrev Nonce := Fixed 12

/-- The error kinds the modelled functions can report. -/
inductive LithiumError where
  | invalidLength (expected got : Nat)
  | invalidHexLength (expected got : Nat)
  | invalidHex
  | hexDisallowedPrefix
  | hexMustBeLowercase
  | jsonNotObject
  | jsonMissingField (key : String)
  | jsonTypeMismatch (key expected : String)
  | aeadFailed
  | kemInvalidCiphertext
  | invalidPublicKey (key reason : String)
  | keyImportFailed (reason : String)
  | invalidContext (reason : String)
  | randomFailed
  | invalidPermissions (msg : String)
  | malformedKeyfile
  | malformedInput (reason : String)
  | keystoreLocked
  | ttlTooLarge
  | io (kind : IoErrorKind)
  | internal (reason : String)
  deriving DecidableEq, Repr

def LithiumError.isNotFound : LithiumError → Bool
  | .io .notFound => true
  | _ => false

def LithiumError.isAlreadyExists : LithiumError → Bool
  | .io .alreadyExists => true
  | _ => false

/-- `SecretFixedBytes::from_slice`. -/
def Fixed.fromSlice (n : Nat) (slice : Bytes) : Except LithiumError (Fixed n) :=
  if fits : slice.length = n then .ok ⟨slice, fits⟩
  else .error (.invalidLength n slice.length)

theorem Fixed.fromSlice_eq_ok {n : Nat} {slice : Bytes} {fixed : Fixed n} :
    Fixed.fromSlice n slice = .ok fixed ↔ slice = fixed.1 := by
  rw [Fixed.fromSlice]
  constructor
  · intro parsed
    split at parsed
    · cases parsed
      rfl
    · cases parsed
  · rintro rfl
    rw [dif_pos fixed.2]

theorem Fixed.fromSlice_of_length {n : Nat} {slice : Bytes} (fits : slice.length = n) :
    Fixed.fromSlice n slice = .ok ⟨slice, fits⟩ := dif_pos fits

theorem Fixed.fromSlice_val {n : Nat} (fixed : Fixed n) : Fixed.fromSlice n fixed.1 = .ok fixed :=
  Fixed.fromSlice_eq_ok.mpr rfl

def hexDigit (n : Nat) : Char := "0123456789abcdef".toList.getD n '0'

/-- `hex::encode`. -/
def hexEncode (bytes : Bytes) : String :=
  String.ofList (bytes.flatMap fun b => [hexDigit (b.toNat / 16), hexDigit (b.toNat % 16)])

/-- AES-256-GCM-SIV and HKDF-SHA256. -/
structure Symmetric where
  encryptRaw : Key → Nonce → (aad plaintext : Bytes) → Option Bytes
  decryptRaw : Key → Nonce → (aad ciphertext : Bytes) → Option Bytes
  hkdf : (salt : Option Bytes) → (ikm info : Bytes) → (len : Nat) → Fixed len

/-- Decryption inverts encryption, which adds a tag of 16 bytes. -/
structure Symmetric.AeadCorrect (X : Symmetric) : Prop where
  decrypt_encrypt : ∀ {key nonce aad plaintext ciphertext},
    X.encryptRaw key nonce aad plaintext = some ciphertext →
    X.decryptRaw key nonce aad ciphertext = some plaintext
  length_encrypt : ∀ {key nonce aad plaintext ciphertext},
    X.encryptRaw key nonce aad plaintext = some ciphertext →
    ciphertext.length = plaintext.length + 16

/-- The primitives of the key store: with them the public keys of the two signature schemes. -/
structure Crypto extends Symmetric where
  ed25519PubFromSeed : Fixed 32 → Bytes
  mldsa87PubFromSeed : Fixed 32 → Bytes

namespace Crypto

/-- The largest plaintext and associated data AES-GCM-SIV takes (2^36 bytes). -/
def limit : Nat := 2 ^ 36

/-- The cipher is correct and takes exactly the messages within its length limits. -/
structure Lawful (X : Crypto) : Prop extends X.AeadCorrect where
  encrypt_within : ∀ key nonce {aad plaintext : Bytes},
    aad.length ≤ limit → plaintext.length ≤ limit →
    (X.encryptRaw key nonce aad plaintext).isSome
  decrypt_within : ∀ {key nonce aad ciphertext plaintext},
    X.decryptRaw key nonce aad ciphertext = some plaintext → aad.length ≤ limit

end Crypto
end Lithium.Keys
