import Lithium.Keys.System

/-! The keyfile layer: private directories, temp files, the three ways of putting
a file in place, and saving, loading and rewrapping of sealed records. -/
namespace Lithium.Keys
open Effects Storage

def call (op : Op) : Prog (Reply op) := Program.perform (S := Calls) op

/-- `.map_err(LithiumError::io)?`. -/
def io {α : Type} : Io α → Prog α
  | .ok value => return value
  | .error kind => throw (.io kind)

def randomFixed (use : Draw) : Prog (Fixed use.len) := do
  match ← call (.random use) with
  | some value => return value
  | none => throw .randomFailed

def checkKeyfileMetadata (metadata : Metadata) : Except LithiumError Unit :=
  if metadata.ftype = .symlink then .error (.invalidPermissions "keyfile_is_symlink")
  else if metadata.ftype ≠ .regular then .error (.invalidPermissions "keyfile_not_regular_file")
  else if metadata.len > maxKeyfileSize then
    .error (.invalidLength maxKeyfileSize metadata.len)
  else if metadata.mode &&& 0o077 ≠ 0 then
    .error (.invalidPermissions "keyfile_group_or_world_accessible")
  else .ok ()

def readKeyfileBytes (path : Path) : Prog Bytes := do
  let (metadata, contents) ← io (← call (.openRead path))
  .done (checkKeyfileMetadata metadata)
  return contents.take maxKeyfileSize

def isDir (path : Path) : Prog Bool := do
  return (← call (.stat path)).any fun metadata => metadata.ftype = .directory

/-- `DirBuilder` with `recursive(true)` and mode `0o700`. The base directory of
the store is there. -/
def createDirAll : Path → Prog Unit
  | [] => return ()
  | name :: dir => do
    match ← call (.mkdir (name :: dir)) with
    | .ok _ => return ()
    | .error .notFound =>
      createDirAll dir
      match ← call (.mkdir (name :: dir)) with
      | .ok _ => return ()
      | .error kind => if ← isDir (name :: dir) then return () else throw (.io kind)
    | .error kind => if ← isDir (name :: dir) then return () else throw (.io kind)

def ensurePrivateDir (path : Path) : Prog Unit := do
  match ← call (.symlinkMetadata path) with
  | .ok metadata =>
    if metadata.ftype ≠ .directory then
      throw (.invalidPermissions "keystore_dir_not_directory")
    else if metadata.mode &&& 0o077 ≠ 0 then
      throw (.invalidPermissions "keystore_dir_group_or_world_accessible")
    else return ()
  | .error .notFound => createDirAll path
  | .error kind => throw (.io kind)

def createPrivateTmpWithin (path : Path) : Nat → Prog Path
  | 0 => throw (.io .alreadyExists)
  | tries + 1 => do
    let suffix ← randomFixed .suffix
    let (pid, seq) ← call .tmpStamp
    let tmp := withExtension path (.tmp pid seq suffix)
    match ← call (.createNew tmp) with
    | .ok _ => return tmp
    | .error .alreadyExists => createPrivateTmpWithin path tries
    | .error kind => throw (.io kind)

def createPrivateTmp (path : Path) : Prog Path := createPrivateTmpWithin path 8

/-- Write and sync a temp file; on failure try to remove it. -/
def writeTmp (tmp : Path) (data : Bytes) : Prog Unit := do
  try
    io (← call (.writeAll tmp data))
    io (← call (.syncFile tmp))
  catch e =>
    let _ ← call (.removeFile tmp)
    throw e

def ensureParent : Path → Prog Unit
  | [] => return ()
  | _ :: dir => ensurePrivateDir dir

/-- The directory sync whose errors the source ignores. -/
def trySyncParent : Path → Prog Unit
  | [] => return ()
  | _ :: dir => do
    let _ ← call (.syncDir dir)
    return ()

def writeSecure (path : Path) (data : Bytes) : Prog Unit := do
  ensureParent path
  let tmp ← createPrivateTmp path
  writeTmp tmp data
  io (← call (.rename tmp path))
  trySyncParent path

def writeSecureNew (path : Path) (data : Bytes) : Prog Unit := do
  ensureParent path
  let tmp ← createPrivateTmp path
  writeTmp tmp data
  let linked ← call (.hardLink tmp path)
  let _ ← call (.removeFile tmp)
  io linked
  trySyncParent path

def writeSecureNewBestEffort (path : Path) (data : Bytes) : Prog Unit := do
  ensureParent path
  if ← io (← call (.tryExists path)) then throw (.io .alreadyExists)
  else
    let tmp ← createPrivateTmp path
    writeTmp tmp data
    match ← call (.rename tmp path) with
    | .ok _ => trySyncParent path
    | .error kind =>
      let _ ← call (.removeFile tmp)
      throw (.io kind)

variable (X : Crypto)

/-- `aead::encrypt_raw` with a fresh nonce, as `wrap_dek` and `encrypt_payload` use it. -/
def encryptFresh (key : Key) (plaintext aad : Bytes) : Prog (Bytes × Nonce) := do
  let nonce ← randomFixed .nonce
  match X.encryptRaw key nonce aad plaintext with
  | none => throw .aeadFailed
  | some ct => return (ct, nonce)

def wrapDek (kek dek : Key) (aad : Bytes) : Prog (Bytes × Nonce) := encryptFresh X kek dek.1 aad

def encryptPayload (dek : Key) (payload aad : Bytes) : Prog (Bytes × Nonce) :=
  encryptFresh X dek payload aad

def encodeEncrypted (mk : Key) (payload : Bytes) (keyType : String) : Prog Bytes := do
  let dek ← randomFixed .dek
  let salt ← randomFixed .salt
  let kek := deriveKek X mk salt
  let aad := aadFor keyfileVersion keyType
  let (ctWrap, nonceWrap) ← wrapDek X kek dek aad
  let (ctPayload, noncePayload) ← encryptPayload X dek payload aad
  return buildRecord ⟨keyfileVersion, algIdAes256GcmSiv, dekLen, salt, nonceWrap, ctWrap,
    noncePayload, ctPayload⟩

def saveBytesEncrypted (path : Path) (mk : Key) (payload : Bytes) (keyType : String) :
    Prog Unit := do
  writeSecure path (← encodeEncrypted X mk payload keyType)

def saveSecret32Encrypted (path : Path) (mk : Key) (payload : Fixed 32) (keyType : String) :
    Prog Unit := saveBytesEncrypted X path mk payload.1 keyType

def saveBytesEncryptedNew (path : Path) (mk : Key) (payload : Bytes) (keyType : String) :
    Prog Unit := do
  writeSecureNew path (← encodeEncrypted X mk payload keyType)

def saveSecret32EncryptedNew (path : Path) (mk : Key) (payload : Fixed 32) (keyType : String) :
    Prog Unit := saveBytesEncryptedNew X path mk payload.1 keyType

def saveBytesEncryptedNewBestEffort (path : Path) (mk : Key) (payload : Bytes)
    (keyType : String) : Prog Unit := do
  writeSecureNewBestEffort path (← encodeEncrypted X mk payload keyType)

def saveSecret32EncryptedNewBestEffort (path : Path) (mk : Key) (payload : Fixed 32)
    (keyType : String) : Prog Unit := saveBytesEncryptedNewBestEffort X path mk payload.1 keyType

def loadBytesDecrypted (path : Path) (mk : Key) (keyType : String) : Prog Bytes := do
  let buf ← readKeyfileBytes path
  .done (openRecord X buf mk keyType)

def loadSecret32Decrypted (path : Path) (mk : Key) (keyType : String) : Prog (Fixed 32) := do
  let payload ← loadBytesDecrypted X path mk keyType
  .done (Fixed.fromSlice 32 payload)

def rewrapKeyfileDekToBytes (path : Path) (oldMk newMk : Key) (keyType : String) :
    Prog Bytes := do
  let buf ← readKeyfileBytes path
  let (r, dek) ← Program.done (unwrapRecord X buf oldMk keyType)
  let aad := aadFor r.version keyType
  let saltNew ← randomFixed .salt
  let kekNew := deriveKek X newMk saltNew
  let (ctWrapNew, nonceWrapNew) ← wrapDek X kekNew dek aad
  return buildRecord { r with salt := saltNew, nonceWrap := nonceWrapNew, ctWrap := ctWrapNew }

def rewrapKeyfileDek (path : Path) (oldMk newMk : Key) (keyType : String) : Prog Unit := do
  let out ← rewrapKeyfileDekToBytes X path oldMk newMk keyType
  writeSecure path out

end Lithium.Keys
