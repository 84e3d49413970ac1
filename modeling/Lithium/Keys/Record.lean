import Lithium.Keys.Primitives

/-! The `.keyf` record: its byte layout, its parser, and sealing, opening and
rewrapping of records as functions of the random values drawn for them. -/
namespace Lithium.Keys

def keyfileMagic : Bytes := [0x4b, 0x45, 0x59, 0x46]
def keyfileVersion : UInt8 := 1
def algIdAes256GcmSiv : UInt8 := 1
def dekLen : UInt16 := 32
def keyfileKekInfo : Bytes := [0x6b, 0x65, 0x6b, 0x2f, 0x76, 0x31]
def maxKeyfileSize : Nat := 64 * 1024
def ctWrapLen : Nat := 48
def usizeLimit : Nat := 2 ^ 64

structure Record where
  version : UInt8
  algId : UInt8
  dekLen : UInt16
  salt : Fixed 32
  nonceWrap : Nonce
  ctWrap : Bytes
  noncePayload : Nonce
  ctPayload : Bytes
  deriving DecidableEq

/-- `(n as u16).to_be_bytes()`. -/
def u16be (n : Nat) : Bytes := [(n / 256).toUInt8, n.toUInt8]

/-- `(n as u32).to_be_bytes()`. -/
def u32be (n : Nat) : Bytes :=
  [(n / 16777216).toUInt8, (n / 65536).toUInt8, (n / 256).toUInt8, n.toUInt8]

def buildRecord (r : Record) : Bytes :=
  keyfileMagic ++ [r.version] ++ [r.algId] ++ u16be r.dekLen.toNat ++
  u16be r.salt.1.length ++ r.salt.1 ++
  u16be r.nonceWrap.1.length ++ r.nonceWrap.1 ++
  u16be r.ctWrap.length ++ r.ctWrap ++
  u16be r.noncePayload.1.length ++ r.noncePayload.1 ++
  u32be r.ctPayload.length ++ r.ctPayload

/-- The next `len` bytes and the index behind them. -/
def take (buf : Bytes) (idx len : Nat) : Except LithiumError (Fixed len × Nat) :=
  if idx + len < usizeLimit then
    if fits : idx + len ≤ buf.length then
      .ok (⟨(buf.drop idx).take len, by simp; omega⟩, idx + len)
    else .error .malformedKeyfile
  else .error .malformedKeyfile

def readU16 (buf : Bytes) (idx : Nat) : Except LithiumError (UInt16 × Nat) := do
  let (b, idx) ← take buf idx 2
  return (UInt16.ofNat ((b.get 0).toNat * 256 + (b.get 1).toNat), idx)

def readU32 (buf : Bytes) (idx : Nat) : Except LithiumError (UInt32 × Nat) := do
  let (b, idx) ← take buf idx 4
  return (UInt32.ofNat ((((b.get 0).toNat * 256 + (b.get 1).toNat) * 256 +
    (b.get 2).toNat) * 256 + (b.get 3).toNat), idx)

/-- A length-prefixed field whose length is fixed: the prefix must say `len`. -/
def readField (buf : Bytes) (idx len : Nat) : Except LithiumError (Fixed len × Nat) := do
  let (declared, idx) ← readU16 buf idx
  if declared.toNat ≠ len then throw .malformedKeyfile
  take buf idx len

def parseKeyfile (buf : Bytes) : Except LithiumError Record :=
  if short : buf.length < 8 then .error (.invalidLength 8 buf.length)
  else if buf.take 4 ≠ keyfileMagic then .error .malformedKeyfile
  else do
    let version := buf.get ⟨4, by omega⟩
    let algId := buf.get ⟨5, by omega⟩
    let (dekLen, idx) ← readU16 buf 6
    let (salt, idx) ← readField buf idx 32
    let (nonceWrap, idx) ← readField buf idx 12
    let (ctWrap, idx) ← readField buf idx ctWrapLen
    let (noncePayload, idx) ← readField buf idx 12
    let (lenCtPayload, idx) ← readU32 buf idx
    let (ctPayload, idx) ← take buf idx lenCtPayload.toNat
    if idx ≠ buf.length then throw .malformedKeyfile
    return ⟨version, algId, dekLen, salt, nonceWrap, ctWrap.1, noncePayload, ctPayload.1⟩

/-- `keyfile:v{version}|{key_type}` as bytes. -/
def aadFor (version : UInt8) (keyType : String) : Bytes :=
  ("keyfile:v" ++ toString version.toNat ++ "|" ++ keyType).toByteArray.data.toList

variable (X : Crypto)

def deriveKek (mk : Key) (salt : Fixed 32) : Key := X.hkdf (some salt.1) mk.1 keyfileKekInfo 32

def unwrapDek (mk : Key) (salt : Fixed 32) (nonceWrap : Nonce) (ctWrap aad : Bytes) :
    Except LithiumError Key :=
  match X.decryptRaw (deriveKek X mk salt) nonceWrap aad ctWrap with
  | none => .error .aeadFailed
  | some dek => Fixed.fromSlice 32 dek

def decryptPayloadBytes (dek : Key) (noncePayload : Nonce) (ctPayload aad : Bytes) :
    Except LithiumError Bytes :=
  match X.decryptRaw dek noncePayload aad ctPayload with
  | none => .error .aeadFailed
  | some payload => .ok payload

/-- The version, algorithm and key length every reader of a record insists on. -/
def checkHeader (r : Record) : Except LithiumError Unit :=
  if r.version ≠ keyfileVersion ∨ r.algId ≠ algIdAes256GcmSiv ∨ r.dekLen ≠ dekLen then
    .error .malformedKeyfile
  else .ok ()

/-- The first half of every reader: parse the record, check its header and unwrap
its data key. -/
def unwrapRecord (buf : Bytes) (mk : Key) (keyType : String) :
    Except LithiumError (Record × Key) := do
  let r ← parseKeyfile buf
  checkHeader r
  let dek ← unwrapDek X mk r.salt r.nonceWrap r.ctWrap (aadFor r.version keyType)
  return (r, dek)

/-- What `load_bytes_decrypted` does with the bytes it has read. -/
def openRecord (buf : Bytes) (mk : Key) (keyType : String) : Except LithiumError Bytes := do
  let (r, dek) ← unwrapRecord X buf mk keyType
  decryptPayloadBytes X dek r.noncePayload r.ctPayload (aadFor r.version keyType)

structure SealDraws where
  dek : Key
  salt : Fixed 32
  nonceWrap : Nonce
  noncePayload : Nonce
  deriving DecidableEq

/-- What `encode_encrypted` makes of its random values. -/
def sealRecord (mk : Key) (payload : Bytes) (keyType : String) (draws : SealDraws) :
    Except LithiumError Bytes :=
  let kek := deriveKek X mk draws.salt
  let aad := aadFor keyfileVersion keyType
  match X.encryptRaw kek draws.nonceWrap aad draws.dek.1,
    X.encryptRaw draws.dek draws.noncePayload aad payload with
  | some ctWrap, some ctPayload => .ok (buildRecord ⟨keyfileVersion, algIdAes256GcmSiv, dekLen,
      draws.salt, draws.nonceWrap, ctWrap, draws.noncePayload, ctPayload⟩)
  | _, _ => .error .aeadFailed

/-- What `rewrap_keyfile_dek_to_bytes` makes of the bytes it has read and its
random values. -/
def rewrapRecord (buf : Bytes) (oldMk newMk : Key) (keyType : String) (saltNew : Fixed 32)
    (nonceWrapNew : Nonce) : Except LithiumError Bytes := do
  let (r, dek) ← unwrapRecord X buf oldMk keyType
  match X.encryptRaw (deriveKek X newMk saltNew) nonceWrapNew (aadFor r.version keyType) dek.1 with
  | none => .error .aeadFailed
  | some ctWrapNew =>
    .ok (buildRecord { r with salt := saltNew, nonceWrap := nonceWrapNew, ctWrap := ctWrapNew })

/-- A key wrapped under one of these master keys does not unwrap under another. -/
def Separated (keys : Key → Prop) : Prop :=
  ∀ mk mk', keys mk → keys mk' → mk ≠ mk' → ∀ salt nonce aad dek wrapped,
    X.encryptRaw (deriveKek X mk salt) nonce aad dek = some wrapped →
    X.decryptRaw (deriveKek X mk' salt) nonce aad wrapped = none

end Lithium.Keys
