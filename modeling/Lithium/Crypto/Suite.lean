import Lithium.Crypto.Context

/-! The primitives the message layers are built from, and the thin wrappers the crate
puts around them: framed AEAD (`crypto/aead.rs`), HKDF (`crypto/kdf.rs`) and key pairs
from seeds (`crypto/keys.rs`). The primitives come from other crates, so they are
parameters; what is assumed of them is stated as laws. Random values are arguments. -/
namespace Lithium.Crypto
open Keys (Bytes Fixed Key Nonce LithiumError)

/-- With AES-256-GCM-SIV and HKDF-SHA256: SHA-256, X25519 and ML-KEM-1024 as the crate calls
them. Encapsulation fails on bytes that are no encapsulation key; decapsulation rejects
implicitly, so it always yields a secret. -/
structure Suite extends Keys.Symmetric where
  sha256 : Bytes → Fixed 32
  x25519Pub : (secret : Fixed 32) → Fixed 32
  x25519 : (secret peer : Fixed 32) → Fixed 32
  mlkemPub : (seed : Fixed 64) → Fixed 1568
  encapsulate : (encapsulationKey : Bytes) → (coins : Fixed 32) → Option (Fixed 1568 × Fixed 32)
  decapsulate : (seed : Fixed 64) → (ciphertext : Fixed 1568) → Fixed 32

/-- The answer of the random number generator to a request for `n` bytes. -/
abbrev Draw (n : Nat) := Except LithiumError (Fixed n)

namespace Suite

/-- Both sides of an X25519 agreement compute the same value. -/
def DhSymmetric (X : Suite) : Prop :=
  ∀ one other, X.x25519 one (X.x25519Pub other) = X.x25519 other (X.x25519Pub one)

/-- Decapsulation with a seed of the encapsulation key gives back the encapsulated
secret. -/
def KemCorrect (X : Suite) : Prop :=
  ∀ {seed coins ciphertext secret},
    X.encapsulate (X.mlkemPub seed).1 coins = some (ciphertext, secret) →
    X.decapsulate seed ciphertext = secret

end Suite

section
variable (X : Suite)

def aeadBlobVersion : UInt8 := 1

def rawOutcome : Option Bytes → Except LithiumError Bytes
  | some bytes => .ok bytes
  | none => .error .aeadFailed

/-- `aead::encrypt_raw`. -/
def encryptRaw (plaintext : Bytes) (key : Key) (nonce : Nonce) (aad : Bytes) :
    Except LithiumError Bytes := rawOutcome (X.encryptRaw key nonce aad plaintext)

/-- `aead::decrypt_raw`. -/
def decryptRaw (ciphertext : Bytes) (key : Key) (nonce : Nonce) (aad : Bytes) :
    Except LithiumError Bytes := rawOutcome (X.decryptRaw key nonce aad ciphertext)

def encryptFramed (plaintext : Bytes) (key : Key) (nonce : Nonce) (ctx : Context) (aad : Bytes) :
    Except LithiumError Bytes := do
  let ct ← encryptRaw X plaintext key nonce (ctx.bindAad aad)
  return aeadBlobVersion :: (nonce.1 ++ ct)

/-- `aead::encrypt`, with the answer to its `random_12`. -/
def encrypt (nonce : Draw 12) (plaintext : Bytes) (key : Key) (ctx : Context) (aad : Bytes) :
    Except LithiumError Bytes := do
  encryptFramed X plaintext key (← nonce) ctx aad

/-- `aead::decrypt`. -/
def decrypt (blob : Bytes) (key : Key) (ctx : Context) (aad : Bytes) :
    Except LithiumError Bytes :=
  if blob.length < 1 + 12 + 16 then .error .aeadFailed
  else if blob.head? ≠ some aeadBlobVersion then .error .aeadFailed
  else do
    let nonce ← Fixed.fromSlice 12 ((blob.drop 1).take 12)
    decryptRaw X (blob.drop 13) key nonce (ctx.bindAad aad)

def hkdfSha256MaxOutput : Nat := 255 * 32

/-- `kdf::derive_bytes_raw`: HKDF expands at most 255 blocks. -/
def deriveBytesRaw (input : Bytes) (salt : Option Bytes) (info : Bytes) (len : Nat) :
    Except LithiumError (Fixed len) :=
  if len > hkdfSha256MaxOutput then .error (.invalidLength hkdfSha256MaxOutput len)
  else .ok (X.hkdf salt input info len)

/-- `kdf::derive32_raw`. -/
def derive32Raw (input : Bytes) (salt : Option Bytes) (info : Bytes) :
    Except LithiumError (Fixed 32) := deriveBytesRaw X input salt info 32

/-- `keys::ephemeral_x25519_keypair`. -/
def ephemeralX25519Keypair (seed : Draw 32) : Except LithiumError (Fixed 32 × Fixed 32) := do
  let seed ← seed
  return (seed, X.x25519Pub seed)

/-- `keys::ephemeral_kyber_mlkem1024_keypair`. -/
def ephemeralMlkemKeypair (seed : Draw 64) : Except LithiumError (Fixed 64 × Bytes) := do
  let seed ← seed
  return (seed, (X.mlkemPub seed).1)

end

section
variable {X : Suite}

theorem bind_eq_ok {α β : Type} {first : Except LithiumError α}
    {next : α → Except LithiumError β} {result : β}
    (done : (first >>= next) = .ok result) : ∃ value, first = .ok value ∧ next value = .ok result := by
  cases first with
  | error error => cases done
  | ok value => exact ⟨value, rfl, done⟩

theorem ok_bind {α β : Type} (value : α) (next : α → Except LithiumError β) :
    (Except.ok value >>= next) = next value := rfl

theorem rawOutcome_eq_ok {outcome : Option Bytes} {bytes : Bytes} :
    rawOutcome outcome = .ok bytes ↔ outcome = some bytes := by
  cases outcome <;> simp [rawOutcome]

theorem derive32Raw_eq (input : Bytes) (salt : Option Bytes) (info : Bytes) :
    derive32Raw X input salt info = .ok (X.hkdf salt input info 32) := by
  rw [derive32Raw, deriveBytesRaw, if_neg (by decide)]

theorem encryptFramed_eq_ok {plaintext aad blob : Bytes} {key : Key} {nonce : Nonce} {ctx : Context}
    (sealed : encryptFramed X plaintext key nonce ctx aad = .ok blob) :
    ∃ ct, X.encryptRaw key nonce (ctx.bindAad aad) plaintext = some ct ∧
      blob = aeadBlobVersion :: (nonce.1 ++ ct) := by
  obtain ⟨ct, raw, rest⟩ := bind_eq_ok sealed
  cases rest
  exact ⟨ct, rawOutcome_eq_ok.mp raw, rfl⟩

/-- A blob of the right length and version is decrypted with the nonce it carries. -/
theorem decrypt_blob {ct aad : Bytes} {key : Key} (nonce : Nonce) {ctx : Context}
    (tagged : 16 ≤ ct.length) :
    decrypt X (aeadBlobVersion :: (nonce.1 ++ ct)) key ctx aad =
      rawOutcome (X.decryptRaw key nonce (ctx.bindAad aad) ct) := by
  have long : ¬ (aeadBlobVersion :: (nonce.1 ++ ct)).length < 1 + 12 + 16 := by
    simp only [List.length_cons, List.length_append, nonce.2]
    omega
  have carried : (nonce.1 ++ ct).take 12 = nonce.1 := List.take_left' nonce.2
  have rest : (nonce.1 ++ ct).drop 12 = ct := List.drop_left' nonce.2
  rw [decrypt, if_neg long, if_neg (by simp)]
  simp only [List.drop_succ_cons, List.drop_zero, carried, rest, Fixed.fromSlice, dif_pos nonce.2]
  rfl

theorem decrypt_encryptFramed (correct : X.AeadCorrect) {plaintext aad blob : Bytes} {key : Key}
    {nonce : Nonce} {ctx : Context}
    (sealed : encryptFramed X plaintext key nonce ctx aad = .ok blob) :
    decrypt X blob key ctx aad = .ok plaintext := by
  obtain ⟨ct, raw, rfl⟩ := encryptFramed_eq_ok sealed
  have length := correct.length_encrypt raw
  rw [decrypt_blob nonce (by omega), correct.decrypt_encrypt raw]
  rfl

theorem decrypt_encrypt (correct : X.AeadCorrect) {nonce : Draw 12} {plaintext aad blob : Bytes}
    {key : Key} {ctx : Context} (sealed : encrypt X nonce plaintext key ctx aad = .ok blob) :
    decrypt X blob key ctx aad = .ok plaintext := by
  obtain ⟨drawn, -, framed⟩ := bind_eq_ok sealed
  exact decrypt_encryptFramed correct framed

end
end Lithium.Crypto
