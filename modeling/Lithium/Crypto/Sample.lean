import Lithium.Crypto.Suite

/-! A small suite of primitives that obeys the laws, for concrete runs: hashing by a
polynomial, an AEAD that appends a hash as its tag, an agreement that adds its operands,
and encapsulation that carries its secret in the open next to the key it is for. -/
namespace Lithium.Crypto
open Keys (Bytes Fixed Key Nonce LithiumError)

/-- The first `n` bytes, padded with zeros. -/
def fit (n : Nat) (bytes : Bytes) : Fixed n :=
  ⟨(bytes ++ List.replicate n 0).take n, by simp⟩

/-- A number as `n` bytes, the low ones first. -/
def digits (n value : Nat) : Fixed n :=
  ⟨(List.range n).map fun i => UInt8.ofNat (value / 256 ^ i), by simp⟩

def polynomial (bytes : Bytes) : Nat := bytes.foldl (fun sum byte => 257 * sum + byte.toNat + 1) 0

def sampleTag (key : Key) (nonce : Nonce) (aad plaintext : Bytes) : Fixed 16 :=
  digits 16 (polynomial (key.1 ++ nonce.1 ++ aad ++ plaintext))

def addBytes (one other : Fixed 32) : Fixed 32 :=
  ⟨List.zipWith (· + ·) one.1 other.1, by simp [one.2, other.2]⟩

def sampleSuite : Suite where
  encryptRaw key nonce aad plaintext := some (plaintext ++ (sampleTag key nonce aad plaintext).1)
  decryptRaw key nonce aad ciphertext :=
    let plaintext := ciphertext.take (ciphertext.length - 16)
    if ciphertext.drop (ciphertext.length - 16) = (sampleTag key nonce aad plaintext).1 then
      some plaintext
    else none
  hkdf salt ikm info len := digits len (polynomial (salt.getD [] ++ ikm ++ info))
  sha256 bytes := digits 32 (polynomial bytes)
  x25519Pub secret := secret
  x25519 := addBytes
  mlkemPub seed := fit 1568 seed.1
  encapsulate key coins := some (fit 1568 (coins.1 ++ key.take 64), coins)
  decapsulate seed ciphertext :=
    if (ciphertext.1.drop 32).take 64 = seed.1 then fit 32 ciphertext.1
    else fit 32 (seed.1 ++ ciphertext.1)

theorem fit_val (n : Nat) (bytes : Bytes) :
    (fit n bytes).1 = (bytes ++ List.replicate n 0).take n := rfl

theorem fit_long {n : Nat} {bytes : Bytes} (long : n ≤ bytes.length) :
    (fit n bytes).1 = bytes.take n := by
  rw [fit_val, List.take_append_of_le_length long]

theorem sampleSuite_aead : sampleSuite.AeadCorrect where
  decrypt_encrypt := by
    rintro key nonce aad plaintext ciphertext ⟨⟩
    have length : (plaintext ++ (sampleTag key nonce aad plaintext).1).length - 16 =
        plaintext.length := by
      rw [List.length_append, (sampleTag key nonce aad plaintext).2, Nat.add_sub_cancel]
    simp only [sampleSuite, length, List.drop_left, List.take_left, if_true]
  length_encrypt := by
    rintro key nonce aad plaintext ciphertext ⟨⟩
    rw [List.length_append, (sampleTag key nonce aad plaintext).2]

theorem sampleSuite_dh : sampleSuite.DhSymmetric := by
  intro one other
  apply Subtype.ext
  show List.zipWith (· + ·) one.1 other.1 = List.zipWith (· + ·) other.1 one.1
  rw [List.zipWith_comm_of_comm]
  exact UInt8.add_comm

theorem fit_short {n : Nat} {bytes : Bytes} (short : bytes.length ≤ n) :
    ∃ padding, (fit n bytes).1 = bytes ++ padding := by
  rw [fit_val, List.take_append, List.take_of_length_le short]
  exact ⟨_, rfl⟩

theorem sampleSuite_kem : sampleSuite.KemCorrect := by
  rintro seed coins ciphertext secret ⟨⟩
  have start : (fit 1568 seed.1).1.take 64 = seed.1 := by
    have short : seed.1.length ≤ 1568 := by rw [seed.2]; decide
    obtain ⟨padding, padded⟩ := fit_short short
    rw [padded, List.take_left' seed.2]
  have short : (coins.1 ++ seed.1).length ≤ 1568 := by
    rw [List.length_append, coins.2, seed.2]
    decide
  obtain ⟨padding, carried⟩ := fit_short short
  show (if ((fit 1568 (coins.1 ++ (fit 1568 seed.1).1.take 64)).1.drop 32).take 64 = seed.1
    then fit 32 (fit 1568 (coins.1 ++ (fit 1568 seed.1).1.take 64)).1 else _) = coins
  rw [start, carried, List.append_assoc, List.drop_left' coins.2, List.take_left' seed.2,
    if_pos rfl]
  apply Subtype.ext
  have long : 32 ≤ (coins.1 ++ (seed.1 ++ padding)).length := by
    rw [List.length_append, coins.2]
    omega
  rw [fit_long long, List.take_left' coins.2]

def sampleContext : Context := ⟨ascii "app", by decide, by decide⟩

end Lithium.Crypto
