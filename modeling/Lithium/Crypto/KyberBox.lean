import Lithium.Crypto.Suite

/-! Hybrid encryption (`crypto/kyberbox.rs`): X25519 and ML-KEM-1024 combined into one
base key, boxes sealed under it, and dual encryption, whose messages carry the public key
to reply to. The random values of a call are its arguments. -/
namespace Lithium.Crypto
open Keys (Bytes Fixed Key Nonce LithiumError)

def kyberBoxVersion : UInt8 := 1
def kyberKemId : UInt8 := 1
def x25519PubLen : Nat := 32
def mlkem1024PubLen : Nat := 1568
def kemCtLen : Nat := 1568 + 2
def dualEncPubLen : Nat := x25519PubLen + mlkem1024PubLen
def dualEncPrivLen : Nat := 32 + 64

structure KyberBoxSealed where
  senderXPub : Fixed 32
  kemCt : Bytes
  ciphertext : Bytes
  deriving DecidableEq

namespace KyberBoxSealed

def toWire (box : KyberBoxSealed) : Bytes := box.senderXPub.1 ++ box.kemCt ++ box.ciphertext

def fromWire (bytes : Bytes) : Except LithiumError KyberBoxSealed :=
  if bytes.length < x25519PubLen + kemCtLen then
    .error (.invalidLength (x25519PubLen + kemCtLen) bytes.length)
  else do
    let senderXPub ← Fixed.fromSlice 32 (bytes.take x25519PubLen)
    return { senderXPub
             kemCt := (bytes.take (x25519PubLen + kemCtLen)).drop x25519PubLen
             ciphertext := bytes.drop (x25519PubLen + kemCtLen) }

end KyberBoxSealed

/-- `SharedSecret::was_contributory`: the agreement is not the identity. -/
def contributory (shared : Fixed 32) : Bool := shared.1 != List.replicate 32 0

section
variable (X : Suite)

def ecdhKdf (mySecret peerPubX : Fixed 32) (ecdhLabel : Bytes) : Except LithiumError (Fixed 32) :=
  if contributory (X.x25519 mySecret peerPubX) then
    derive32Raw X (X.x25519 mySecret peerPubX).1 none ecdhLabel
  else .error (.invalidPublicKey "x25519" "low_order")

def deriveBaseKey (ssKem ecdhKey ctT ekT ctPqHash : Fixed 32) (baseLabel : Bytes) :
    Except LithiumError (Fixed 32) :=
  derive32Raw X ecdhKey.1 (some ssKem.1) (baseLabel ++ ctT.1 ++ ekT.1 ++ ctPqHash.1)

/-- The shared secret, the hash of the ciphertext, and the ciphertext behind its header. -/
def encapsulateKem (peerKyberPub : Bytes) (coins : Fixed 32) :
    Except LithiumError (Fixed 32 × Fixed 32 × Bytes) :=
  match X.encapsulate peerKyberPub coins with
  | none => .error (.invalidPublicKey "kyber-mlkem1024" "encapsulation_key")
  | some (ct, ss) => .ok (ss, X.sha256 ct.1, kyberBoxVersion :: kyberKemId :: ct.1)

def decapsulateKem (kyberPriv : Bytes) : Bytes → Except LithiumError (Fixed 32 × Fixed 32)
  | version :: kemId :: ctSlice =>
    if version ≠ kyberBoxVersion ∨ kemId ≠ kyberKemId then .error .kemInvalidCiphertext
    else if seed : kyberPriv.length = 64 then
      if full : ctSlice.length = 1568 then
        .ok (X.decapsulate ⟨kyberPriv, seed⟩ ⟨ctSlice, full⟩, X.sha256 ctSlice)
      else .error .kemInvalidCiphertext
    else .error (.invalidLength 64 kyberPriv.length)
  | _ => .error .kemInvalidCiphertext

def prepBaseKeyForEncryption (coins : Fixed 32) (ctx : Context) (privX : Bytes)
    (peerPubX : Fixed 32) (peerKPub : Bytes) :
    Except LithiumError (Fixed 32 × Bytes × Fixed 32) := do
  let mySecret ← Fixed.fromSlice 32 privX
  let ctT := X.x25519Pub mySecret
  let ecdhKey ← ecdhKdf X mySecret peerPubX (← ctx.add (ascii "ecdh-key")).label
  let (ssKem, ctHash, kemCt) ← encapsulateKem X peerKPub coins
  let baseKey ← deriveBaseKey X ssKem ecdhKey ctT peerPubX ctHash
    (← ctx.add (ascii "base-key")).label
  return (baseKey, kemCt, ctT)

def prepBaseKeyForDecryption (ctx : Context) (privX : Bytes) (peerPubX : Fixed 32)
    (kyberPriv kemCt : Bytes) : Except LithiumError (Fixed 32) := do
  let mySecret ← Fixed.fromSlice 32 privX
  let ecdhKey ← ecdhKdf X mySecret peerPubX (← ctx.add (ascii "ecdh-key")).label
  let ekT := X.x25519Pub mySecret
  let (ssKem, ctHash) ← decapsulateKem X kyberPriv kemCt
  deriveBaseKey X ssKem ecdhKey peerPubX ekT ctHash (← ctx.add (ascii "base-key")).label

/-- The random values of a `seal`: the sender's X25519 seed, the coins of the
encapsulation and the nonce. -/
structure SealDraws where
  senderX : Draw 32
  coins : Fixed 32
  nonce : Draw 12

/-- `kyberbox::seal`. -/
def sealBox (draws : SealDraws) (ctx : Context) (peerPubX : Fixed 32) (peerKPub : Bytes)
    (aad data : Bytes) : Except LithiumError (KyberBoxSealed × Fixed 32) := do
  let (senderPrivX, _) ← ephemeralX25519Keypair X draws.senderX
  let (baseKey, kemCt, senderXPub) ←
    prepBaseKeyForEncryption X draws.coins ctx senderPrivX.1 peerPubX peerKPub
  let dataCtx ← ctx.add (ascii "data")
  let ciphertext ← encrypt X draws.nonce data baseKey dataCtx aad
  return ({ senderXPub, kemCt, ciphertext }, senderPrivX)

/-- `kyberbox::open`. -/
def openBox (ctx : Context) (privX kyberPriv aad : Bytes) (sealed : KyberBoxSealed) :
    Except LithiumError Bytes := do
  let baseKey ← prepBaseKeyForDecryption X ctx privX sealed.senderXPub kyberPriv sealed.kemCt
  let dataCtx ← ctx.add (ascii "data")
  decrypt X sealed.ciphertext baseKey dataCtx aad

end

/-- Every constructor checks or fixes the length of the encapsulation key. -/
structure DualEncryptionPublicKey where
  x25519 : Fixed 32
  mlkem1024 : Fixed 1568
  deriving DecidableEq

namespace DualEncryptionPublicKey

def new (x25519 : Fixed 32) (mlkem1024 : Bytes) : Except LithiumError DualEncryptionPublicKey := do
  let mlkem1024 ← Fixed.fromSlice mlkem1024PubLen mlkem1024
  return ⟨x25519, mlkem1024⟩

def toWire (key : DualEncryptionPublicKey) : Bytes := key.x25519.1 ++ key.mlkem1024.1

def fromWire (bytes : Bytes) : Except LithiumError DualEncryptionPublicKey :=
  if full : bytes.length = dualEncPubLen then do
    let x25519 ← Fixed.fromSlice 32 (bytes.take x25519PubLen)
    return ⟨x25519, ⟨bytes.drop x25519PubLen, by
      rw [List.length_drop, full, dualEncPubLen, Nat.add_sub_cancel_left, mlkem1024PubLen]⟩⟩
  else .error (.invalidLength dualEncPubLen bytes.length)

end DualEncryptionPublicKey

structure DualEncryptionPrivateKey where
  x25519 : Fixed 32
  mlkem1024 : Fixed 64

namespace DualEncryptionPrivateKey

def toWire (key : DualEncryptionPrivateKey) : Bytes := key.x25519.1 ++ key.mlkem1024.1

def fromWire (bytes : Bytes) : Except LithiumError DualEncryptionPrivateKey :=
  if bytes.length ≠ dualEncPrivLen then .error (.invalidLength dualEncPrivLen bytes.length)
  else do
    let x25519 ← Fixed.fromSlice 32 (bytes.take 32)
    let mlkem1024 ← Fixed.fromSlice 64 (bytes.drop 32)
    return { x25519, mlkem1024 }

def publicKey (X : Suite) (key : DualEncryptionPrivateKey) : DualEncryptionPublicKey :=
  ⟨X.x25519Pub key.x25519, X.mlkemPub key.mlkem1024⟩

def ephemeral (X : Suite) (xSeed : Draw 32) (kSeed : Draw 64) :
    Except LithiumError (DualEncryptionPrivateKey × DualEncryptionPublicKey) := do
  let (xPriv, xPub) ← ephemeralX25519Keypair X xSeed
  let (kPriv, _) ← ephemeralMlkemKeypair X kSeed
  return ({ x25519 := xPriv, mlkem1024 := kPriv },
    { x25519 := xPub, mlkem1024 := X.mlkemPub kPriv })

end DualEncryptionPrivateKey

structure DualSealed where
  replyPub : DualEncryptionPublicKey
  inner : KyberBoxSealed
  deriving DecidableEq

namespace DualSealed

def toWire (message : DualSealed) : Bytes := message.replyPub.toWire ++ message.inner.toWire

def fromWire (bytes : Bytes) : Except LithiumError DualSealed :=
  if bytes.length < dualEncPubLen then .error (.invalidLength dualEncPubLen bytes.length)
  else do
    let replyPub ← DualEncryptionPublicKey.fromWire (bytes.take dualEncPubLen)
    let inner ← KyberBoxSealed.fromWire (bytes.drop dualEncPubLen)
    return { replyPub, inner }

end DualSealed

/-- The random values of a dual `seal`: the seeds of the reply key pair, then those of the
box. -/
structure DualDraws where
  replyX : Draw 32
  replyK : Draw 64
  box : SealDraws

/-- `DualEncryptionPublicKey::seal`. -/
def DualEncryptionPublicKey.seal (X : Suite) (key : DualEncryptionPublicKey) (draws : DualDraws)
    (ctx : Context) (aad data : Bytes) :
    Except LithiumError (DualSealed × DualEncryptionPrivateKey) := do
  let (replyPriv, replyPub) ← DualEncryptionPrivateKey.ephemeral X draws.replyX draws.replyK
  let (inner, _) ←
    sealBox X draws.box ctx key.x25519 key.mlkem1024.1 (replyPub.toWire ++ aad) data
  return ({ replyPub, inner }, replyPriv)

/-- `DualEncryptionPrivateKey::open`. -/
def DualEncryptionPrivateKey.open (X : Suite) (key : DualEncryptionPrivateKey) (ctx : Context)
    (aad : Bytes) (sealed : DualSealed) : Except LithiumError (Bytes × DualEncryptionPublicKey) := do
  let plaintext ←
    openBox X ctx key.x25519.1 key.mlkem1024.1 (sealed.replyPub.toWire ++ aad) sealed.inner
  return (plaintext, sealed.replyPub)

end Lithium.Crypto
