import Lithium.Crypto.KyberBox
import Lithium.Keys.Record

/-! HPKE (`hpke/`): key pairs, encapsulation, the key schedule, single messages, exported
secrets and message streams. The random values of a call are its arguments. -/
namespace Lithium.Hpke
open Keys (Bytes Fixed Key Nonce LithiumError u32be)
open Crypto

def mlkem1024SeedLen : Nat := 64
def x25519PrivLen : Nat := 32

structure HpkeEnc where
  xPub : Fixed 32
  kemCt : Bytes
  deriving DecidableEq

structure HpkeContext where
  key : Key
  baseNonce : Nonce
  exporterSecret : Fixed 32
  deriving DecidableEq

structure HpkeSealed where
  enc : HpkeEnc
  ciphertext : Bytes
  deriving DecidableEq

structure HpkePublicKey where
  xPub : Fixed 32
  kPub : Bytes
  deriving DecidableEq

structure HpkePrivateKey where
  xPriv : Fixed 32
  kPriv : Bytes
  deriving DecidableEq

namespace HpkeEnc

def toWire (enc : HpkeEnc) : Bytes := enc.xPub.1 ++ enc.kemCt

def fromWire (bytes : Bytes) : Except LithiumError HpkeEnc :=
  if bytes.length ≠ x25519PubLen + kemCtLen then
    .error (.invalidLength (x25519PubLen + kemCtLen) bytes.length)
  else do
    let xPub ← Fixed.fromSlice 32 (bytes.take x25519PubLen)
    return { xPub, kemCt := bytes.drop x25519PubLen }

end HpkeEnc

namespace HpkeSealed

def toWire (message : HpkeSealed) : Bytes :=
  u32be message.enc.toWire.length ++ message.enc.toWire ++ message.ciphertext

/-- `u32::from_be_bytes` of the first four bytes. -/
def encLen (bytes : Bytes) : Nat :=
  (bytes.take 4).foldl (fun value byte => value * 256 + byte.toNat) 0

def fromWire (bytes : Bytes) : Except LithiumError HpkeSealed :=
  if bytes.length < 4 then .error (.invalidLength 4 bytes.length)
  else
    let rest := bytes.drop 4
    if rest.length < encLen bytes then .error (.invalidLength (encLen bytes) rest.length)
    else do
      let enc ← HpkeEnc.fromWire (rest.take (encLen bytes))
      return { enc, ciphertext := rest.drop (encLen bytes) }

end HpkeSealed

namespace HpkePublicKey

def toWire (key : HpkePublicKey) : Bytes := key.xPub.1 ++ key.kPub

def fromWire (bytes : Bytes) : Except LithiumError HpkePublicKey :=
  if bytes.length ≠ x25519PubLen + mlkem1024PubLen then
    .error (.invalidLength (x25519PubLen + mlkem1024PubLen) bytes.length)
  else do
    let xPub ← Fixed.fromSlice 32 (bytes.take x25519PubLen)
    return { xPub, kPub := bytes.drop x25519PubLen }

end HpkePublicKey

namespace HpkePrivateKey

def toWire (key : HpkePrivateKey) : Bytes := key.xPriv.1 ++ key.kPriv

def fromWire (bytes : Bytes) : Except LithiumError HpkePrivateKey :=
  if bytes.length ≠ x25519PrivLen + mlkem1024SeedLen then
    .error (.invalidLength (x25519PrivLen + mlkem1024SeedLen) bytes.length)
  else do
    let xPriv ← Fixed.fromSlice 32 (bytes.take x25519PrivLen)
    return { xPriv, kPriv := bytes.drop x25519PrivLen }

end HpkePrivateKey

structure EncapDraws where
  ephX : Draw 32
  coins : Fixed 32

section
variable (X : Suite)

def minIkmLen : Nat := 32

/-- `derive_keypair_from_high_entropy_ikm`. -/
def deriveKeypair (ctx : Context) (ikm : Bytes) :
    Except LithiumError (HpkePrivateKey × HpkePublicKey) :=
  if ikm.length < minIkmLen then .error (.malformedInput "hpke_ikm_too_short")
  else do
    let kp ← (← ctx.add (ascii "hpke")).add (ascii "derive-keypair")
    let xPriv ← derive32Raw X ikm none (← kp.add (ascii "x25519-priv")).label
    let kSeed ← deriveBytesRaw X ikm none (← kp.add (ascii "mlkem1024-seed")).label 64
    return ({ xPriv, kPriv := kSeed.1 },
      { xPub := X.x25519Pub xPriv, kPub := (X.mlkemPub kSeed).1 })

def kemEncap (draws : EncapDraws) (ctx : Context) (recipientXPub : Fixed 32)
    (recipientKPub : Bytes) : Except LithiumError (Fixed 32 × HpkeEnc) := do
  let ephX ← draws.ephX
  let kemCtx ← (← ctx.add (ascii "hpke")).add (ascii "kem")
  let (sharedSecret, kemCt, xPub) ←
    prepBaseKeyForEncryption X draws.coins kemCtx ephX.1 recipientXPub recipientKPub
  return (sharedSecret, { xPub, kemCt })

def kemDecap (ctx : Context) (recipientXPriv recipientKPriv : Bytes) (enc : HpkeEnc) :
    Except LithiumError (Fixed 32) := do
  let kemCtx ← (← ctx.add (ascii "hpke")).add (ascii "kem")
  prepBaseKeyForDecryption X kemCtx recipientXPriv enc.xPub recipientKPriv enc.kemCt

def keySchedule (ctx : Context) (sharedSecret : Fixed 32) (info : Bytes) :
    Except LithiumError HpkeContext := do
  let sched ← (← ctx.add (ascii "hpke")).add (ascii "schedule")
  let key ← derive32Raw X sharedSecret.1 none ((← sched.add (ascii "key")).bindAad info)
  let nonceMaterial ←
    derive32Raw X sharedSecret.1 none ((← sched.add (ascii "base-nonce")).bindAad info)
  let exporterSecret ←
    derive32Raw X sharedSecret.1 none ((← sched.add (ascii "exporter-secret")).bindAad info)
  let baseNonce ← Fixed.fromSlice 12 (nonceMaterial.1.take 12)
  return { key, baseNonce, exporterSecret }

def exportSecret (ctx : Context) (hpkeCtx : HpkeContext) (exporterContext : Bytes) (len : Nat) :
    Except LithiumError (Fixed len) := do
  let label := (← (← ctx.add (ascii "hpke")).add (ascii "export")).bindAad exporterContext
  deriveBytesRaw X hpkeCtx.exporterSecret.1 none label len

def sealBase (draws : EncapDraws) (ctx : Context) (recipientPk : HpkePublicKey)
    (info aad plaintext : Bytes) : Except LithiumError HpkeSealed := do
  let (sharedSecret, enc) ← kemEncap X draws ctx recipientPk.xPub recipientPk.kPub
  let hpkeCtx ← keySchedule X ctx sharedSecret info
  let ciphertext ← encryptRaw X plaintext hpkeCtx.key hpkeCtx.baseNonce aad
  return { enc, ciphertext }

def openBase (ctx : Context) (recipientSk : HpkePrivateKey) (info aad : Bytes)
    (sealed : HpkeSealed) : Except LithiumError Bytes := do
  let sharedSecret ← kemDecap X ctx recipientSk.xPriv.1 recipientSk.kPriv sealed.enc
  let hpkeCtx ← keySchedule X ctx sharedSecret info
  decryptRaw X sealed.ciphertext hpkeCtx.key hpkeCtx.baseNonce aad

def setupSenderAndExport (draws : EncapDraws) (ctx : Context) (recipientPk : HpkePublicKey)
    (info exporterContext : Bytes) (exporterLength : Nat) :
    Except LithiumError (HpkeEnc × Fixed exporterLength) := do
  let (sharedSecret, enc) ← kemEncap X draws ctx recipientPk.xPub recipientPk.kPub
  let hpkeCtx ← keySchedule X ctx sharedSecret info
  let exported ← exportSecret X ctx hpkeCtx exporterContext exporterLength
  return (enc, exported)

def setupReceiverAndExport (ctx : Context) (recipientSk : HpkePrivateKey) (enc : HpkeEnc)
    (info exporterContext : Bytes) (exporterLength : Nat) :
    Except LithiumError (Fixed exporterLength) := do
  let sharedSecret ← kemDecap X ctx recipientSk.xPriv.1 recipientSk.kPriv enc
  let hpkeCtx ← keySchedule X ctx sharedSecret info
  exportSecret X ctx hpkeCtx exporterContext exporterLength

end

def maxSeq : Nat := 2 ^ 64 - 1

/-- `u64::to_be_bytes`. -/
def u64be (n : Nat) : Bytes :=
  [(n / 2 ^ 56).toUInt8, (n / 2 ^ 48).toUInt8, (n / 2 ^ 40).toUInt8, (n / 2 ^ 32).toUInt8,
    (n / 2 ^ 24).toUInt8, (n / 2 ^ 16).toUInt8, (n / 2 ^ 8).toUInt8, n.toUInt8]

/-- The last eight bytes of the base nonce, combined with the sequence number. -/
def seqNonce (base : Nonce) (seq : Nat) : Except LithiumError Nonce :=
  Fixed.fromSlice 12 (base.1.take 4 ++ List.zipWith (· ^^^ ·) (base.1.drop 4) (u64be seq))

structure HpkeSenderContext where
  ctx : HpkeContext
  seq : Nat
  deriving DecidableEq

structure HpkeReceiverContext where
  ctx : HpkeContext
  seq : Nat
  poisoned : Bool
  deriving DecidableEq

section
variable (X : Suite)

def setupSender (draws : EncapDraws) (ctx : Context) (recipientPk : HpkePublicKey) (info : Bytes) :
    Except LithiumError (HpkeEnc × HpkeSenderContext) := do
  let (sharedSecret, enc) ← kemEncap X draws ctx recipientPk.xPub recipientPk.kPub
  let hpkeCtx ← keySchedule X ctx sharedSecret info
  return (enc, { ctx := hpkeCtx, seq := 0 })

def setupReceiver (ctx : Context) (recipientSk : HpkePrivateKey) (enc : HpkeEnc) (info : Bytes) :
    Except LithiumError HpkeReceiverContext := do
  let sharedSecret ← kemDecap X ctx recipientSk.xPriv.1 recipientSk.kPriv enc
  let hpkeCtx ← keySchedule X ctx sharedSecret info
  return { ctx := hpkeCtx, seq := 0, poisoned := false }

/-- `HpkeSenderContext::seal`: the reply and the context after it. -/
def HpkeSenderContext.seal (self : HpkeSenderContext) (aad plaintext : Bytes) :
    Except LithiumError Bytes × HpkeSenderContext :=
  if self.seq = maxSeq then (.error (.internal "hpke_seq_overflow"), self)
  else
    match seqNonce self.ctx.baseNonce self.seq with
    | .error error => (.error error, self)
    | .ok nonce =>
      match encryptRaw X plaintext self.ctx.key nonce aad with
      | .error error => (.error error, self)
      | .ok ct => (.ok ct, { self with seq := self.seq + 1 })

/-- `HpkeReceiverContext::open`: the reply and the context after it. -/
def HpkeReceiverContext.open (self : HpkeReceiverContext) (aad ciphertext : Bytes) :
    Except LithiumError Bytes × HpkeReceiverContext :=
  if self.poisoned then (.error (.internal "hpke_session_poisoned"), self)
  else if self.seq = maxSeq then
    (.error (.internal "hpke_seq_overflow"), { self with poisoned := true })
  else
    match seqNonce self.ctx.baseNonce self.seq with
    | .error error => (.error error, self)
    | .ok nonce =>
      match decryptRaw X ciphertext self.ctx.key nonce aad with
      | .error error => (.error error, { self with poisoned := true })
      | .ok pt => (.ok pt, { self with seq := self.seq + 1 })

end
end Lithium.Hpke
