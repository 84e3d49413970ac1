import Lithium.Keys.Keyfile
import Mathlib.Data.List.Sort

/-! The key manager: the public-key cache, labelled secrets, master-key rotation
with its recovery, the gate every client passes, and start. -/
namespace Lithium.Keys
open Effects Storage

inductive PublicCachePolicy where
  | strict
  | repairMissingOnly
  deriving DecidableEq, Repr

inductive CreateNewMode where
  | linkNoReplace
  | renameBestEffort
  deriving DecidableEq, Repr

inductive MemoryLocking where
  | require
  | bestEffort
  deriving DecidableEq, Repr

inductive FileLockPolicy where
  | require
  | bestEffort
  deriving DecidableEq, Repr

/-- Durations and instants are counted in nanoseconds. -/
structure KeyManagerConfig where
  locking : MemoryLocking
  fileLock : FileLockPolicy
  publicCachePolicy : PublicCachePolicy
  rotateEvery : Nat
  rotationEnabled : Bool
  arenaCapacity : Nat
  createNewMode : CreateNewMode
  deriving DecidableEq, Repr

def minRotateEvery : Nat := 1000000

def instantLimit : Nat := 2 ^ 63 * 1000000000

structure PublicKeys where
  ed25519 : Bytes
  dilithium : Bytes
  deriving DecidableEq, Repr

structure RewrapTarget where
  livePath : Path
  relativePath : Path
  keyType : String
  deriving DecidableEq

/-- `Path::exists`. -/
def pathExists (path : Path) : Prog Bool := do
  return (← call (.stat path)).isSome

def syncDir (path : Path) : Prog Unit := do
  if ← pathExists path then io (← call (.syncDir path)) else return ()

def syncParent : Path → Prog Unit
  | [] => return ()
  | _ :: dir => syncDir dir

def writeMarker (path : Path) (data : Bytes) : Prog Unit := do
  writeSecure path data
  syncParent path

def acquireExclusiveLock (policy : FileLockPolicy) : Prog Unit := do
  io (← call (.openLock lockPath))
  match ← call .lockStore with
  | .locked => return ()
  | .wouldBlock => throw .keystoreLocked
  | .error kind =>
    match policy with
    | .require => throw (.io kind)
    | .bestEffort => return ()

/-- `write_secure` and a sync of the parent, as both writers of public keys do it. -/
def writePublicKey (pubPath : Path) (publicKey : Bytes) : Prog Unit := do
  writeSecure pubPath publicKey
  syncParent pubPath

def reconcilePublicCache (pubPath : Path) (authoritative : Bytes) (policy : PublicCachePolicy)
    (keyType : String) : Prog Unit := do
  match ← (readKeyfileBytes pubPath).attempt with
  | .ok onDisk =>
    if onDisk ≠ authoritative then throw (.invalidPublicKey keyType "public_key_mismatch")
    else return ()
  | .error e =>
    if e.isNotFound then
      match policy with
      | .strict => throw (.invalidPublicKey keyType "public_key_missing")
      | .repairMissingOnly => writePublicKey pubPath authoritative
    else throw e

def maxSecretLabelLen : Nat := 64

def validateSecretLabel (label : Bytes) : Except LithiumError Unit :=
  if label.isEmpty ∨ label.length > maxSecretLabelLen then
    .error (.malformedInput "secret_label_len")
  else .ok ()

def labelHex (label : Bytes) : String := hexEncode label

def labelKeyTypeFromHex (hexLabel : String) : String := "secret32:" ++ hexLabel

def labelKeyType (label : Bytes) : String := "secret32:" ++ labelHex label

def labelSecretPath (label : Bytes) : Path := keyf (labelHex label) :: secretsDir

section
variable (X : Crypto)

/-- Both identity seeds have 32 bytes. -/
def ensureSeedKeypair (privPath pubPath : Path) (mk : Key) (keyType : String)
    (policy : PublicCachePolicy) (pubFromSeed : Fixed 32 → Bytes) : Prog Bytes := do
  if ← pathExists privPath then
    let payload ← loadBytesDecrypted X privPath mk keyType
    let seed ← Program.done (Fixed.fromSlice 32 payload)
    Program.done (← call (.arenaClaim 32))
    let pk := pubFromSeed seed
    reconcilePublicCache pubPath pk policy keyType
    return pk
  else
    match ← (readKeyfileBytes pubPath).attempt with
    | .ok _ => throw (.invalidPublicKey keyType "public_key_without_secret")
    | .error e =>
      if e.isNotFound then
        Program.done (← call (.arenaClaim 32))
        let seed ← randomFixed .seed
        let pk := pubFromSeed seed
        saveBytesEncrypted X privPath mk seed.1 keyType
        writePublicKey pubPath pk
        return pk
      else throw e

def loadOrCreateLabelSecret32 (mk : Key) (label : Bytes) (mode : CreateNewMode) :
    Prog (Fixed 32) := do
  Program.done (validateSecretLabel label)
  let path := labelSecretPath label
  let keyType := labelKeyType label
  if ← pathExists path then loadSecret32Decrypted X path mk keyType
  else
    let v ← randomFixed .secret32
    let saved ← (match mode with
      | .linkNoReplace => saveSecret32EncryptedNew X path mk v keyType
      | .renameBestEffort => saveSecret32EncryptedNewBestEffort X path mk v keyType).attempt
    match saved with
    | .ok _ => return v
    | .error e =>
      if e.isAlreadyExists then loadSecret32Decrypted X path mk keyType else throw e

/-- `generate` is the outcome of the caller's closure, which runs at most once. -/
def loadOrCreateLabelBytes (mk : Key) (label : Bytes) (generate : Except LithiumError Bytes)
    (mode : CreateNewMode) : Prog Bytes := do
  Program.done (validateSecretLabel label)
  let path := labelSecretPath label
  let keyType := labelKeyType label
  if ← pathExists path then loadBytesDecrypted X path mk keyType
  else
    let v ← Program.done generate
    let saved ← (match mode with
      | .linkNoReplace => saveBytesEncryptedNew X path mk v keyType
      | .renameBestEffort => saveBytesEncryptedNewBestEffort X path mk v keyType).attempt
    match saved with
    | .ok _ => return v
    | .error e =>
      if e.isAlreadyExists then loadBytesDecrypted X path mk keyType else throw e

def ensureAsymmetricMaterial (mk : Key) (policy : PublicCachePolicy) : Prog PublicKeys := do
  ensurePrivateDir pubDir
  ensurePrivateDir privDir
  let ed25519 ← ensureSeedKeypair X edPriv edPub mk ktEdSeed policy X.ed25519PubFromSeed
  let dilithium ← ensureSeedKeypair X diliPriv diliPub mk ktDiliSeed policy X.mldsa87PubFromSeed
  return { ed25519, dilithium }
end

def hasKeyfExtension : Path → Bool
  | ⟨_, .text ext⟩ :: _ => ext = "keyf"
  | _ => false

/-- The regular files with extension `keyf` among the entries of a directory. -/
def keyfilesAmong : List Path → Prog (List Path)
  | [] => return []
  | path :: rest => do
    let isFile := (← call (.stat path)).any fun metadata => metadata.ftype = .regular
    let others ← keyfilesAmong rest
    return if isFile ∧ hasKeyfExtension path then path :: others else others

def listDirKeyfiles (dir : Path) : Prog (List Path) := do
  if ← pathExists dir then
    let entries ← io (← call (.readDir dir))
    return (← keyfilesAmong entries).insertionSort fun a b => pathLe a b
  else return []

def stripPrefix (root path : Path) : Option Path :=
  if root <:+ path then some (path.take (path.length - root.length)) else none

def rewrapTarget (path : Path) (keyType : String) : Except LithiumError RewrapTarget :=
  match stripPrefix rootDir path with
  | some relativePath => .ok ⟨path, relativePath, keyType⟩
  | none => .error (.internal "path_not_under_root")

def fixedTarget (path : Path) (keyType : String) : Prog (List RewrapTarget) := do
  if ← pathExists path then return [← Program.done (rewrapTarget path keyType)] else return []

def fileStem : Path → String
  | [] => ""
  | name :: _ => name.stem

def labelTargets (paths : List Path) : Except LithiumError (List RewrapTarget) :=
  paths.mapM fun path => rewrapTarget path (labelKeyTypeFromHex (fileStem path))

def collectRewrapTargets : Prog (List RewrapTarget) := do
  let ed ← fixedTarget edPriv ktEdSeed
  let dili ← fixedTarget diliPriv ktDiliSeed
  let labels ← Program.done (labelTargets (← listDirKeyfiles secretsDir))
  return (ed ++ dili ++ labels).insertionSort fun a b => pathLe a.relativePath b.relativePath

def stageTargetPath (relativePath : Path) : Path := relativePath ++ stagedDir

def removeEntries (root : Path) : Nat → Prog Unit
  | 0 => return ()
  | n + 1 => do
    io (← call (.removeEntry root))
    removeEntries root n

/-- `fs::remove_dir_all`. -/
def removeDirAll (root : Path) : Prog Unit := do
  let count ← io (← call (.openTree root))
  removeEntries root count

def cleanupRotationDir : Prog Unit := do
  if ← pathExists rotateDir then
    removeDirAll rotateDir
    syncParent rotateDir
  else return ()

def applyStagedFiles : List RewrapTarget → Prog Unit
  | [] => return ()
  | target :: rest => do
    let staged ← readKeyfileBytes (stageTargetPath target.relativePath)
    writeSecure target.livePath staged
    syncParent target.livePath
    applyStagedFiles rest

section
variable (X : Crypto)

def stageFiles (oldMk newMk : Key) : List RewrapTarget → Prog Unit
  | [] => return ()
  | target :: rest => do
    let out ← rewrapKeyfileDekToBytes X target.livePath oldMk newMk target.keyType
    let stagedPath := stageTargetPath target.relativePath
    ensureParent stagedPath
    writeSecure stagedPath out
    syncParent stagedPath
    stageFiles oldMk newMk rest

def prepareStagedFiles (oldMk newMk : Key) (targets : List RewrapTarget) : Prog Unit := do
  ensurePrivateDir stagedDir
  stageFiles X oldMk newMk targets
  syncDir stagedDir

def loadMk : Prog Key := do Program.done (← call .loadMk)

def storeMk (mk : Key) : Prog Unit := do Program.done (← call (.storeMk mk))

/-- The next master key and whether the provider has it already. -/
def nextMk (currentMk : Key) : Prog (Key × Bool) := do
  let fromOld : Prog (Key × Bool) := do
    return (← loadSecret32Decrypted X nextOldPath currentMk ktRotateNextOld, false)
  if ← pathExists nextNewPath then
    match ← (loadSecret32Decrypted X nextNewPath currentMk ktRotateNextNew).attempt with
    | .ok candidate => return (candidate, true)
    | .error _ => fromOld
  else fromOld

/-- What recovery does once it has seen the marker. -/
def finishPendingRotation : Prog Unit := do
  let targets ← collectRewrapTargets
  let currentMk ← loadMk
  let (newMk, providerAlreadySwitched) ← nextMk X currentMk
  applyStagedFiles targets
  if providerAlreadySwitched then pure () else storeMk newMk
  cleanupRotationDir

def recoverPendingRotationIfAny : Prog Unit := do
  if ← pathExists rotateDir then
    if ← pathExists readyPath then finishPendingRotation X else cleanupRotationDir
  else return ()

def readyBytes : Bytes := [0x72, 0x65, 0x61, 0x64, 0x79]

/-- Overwrite the live files, switch the provider, and clean up. -/
def commitAttempt (targets : List RewrapTarget) (newMk : Key) : Prog Unit := do
  applyStagedFiles targets
  storeMk newMk
  cleanupRotationDir

def setPoisoned : Prog Unit := do
  let _ ← call .setPoisoned
  return ()

def commitRotation (targets : List RewrapTarget) (newMk : Key) : Prog Unit := do
  match ← (commitAttempt targets newMk).attempt with
  | .ok _ => return ()
  | .error e =>
    match ← (recoverPendingRotationIfAny X).attempt with
    | .ok _ => return ()
    | .error _ =>
      setPoisoned
      throw e

def refreshCurrentMk : Prog Unit := do
  let mk ← loadMk
  Program.done (← call (.arenaClaim 32))
  let _ ← call (.setCachedMk mk)
  return ()

/-- The next master key, sealed under the old one and under itself. -/
def saveNextMk (oldMk newMk : Key) : Prog Unit := do
  saveSecret32Encrypted X nextOldPath oldMk newMk ktRotateNextOld
  saveSecret32Encrypted X nextNewPath newMk newMk ktRotateNextNew

/-- The files of a rotation, the marker last. -/
def fillRotationDir : Prog (List RewrapTarget × Key) := do
  syncDir rotateDir
  let oldMk ← loadMk
  let newMk ← randomFixed .masterKey
  let targets ← collectRewrapTargets
  saveNextMk X oldMk newMk
  syncDir rotateDir
  prepareStagedFiles X oldMk newMk targets
  writeMarker readyPath readyBytes
  return (targets, newMk)

/-- Everything a rotation does before its marker is complete. -/
def prepareRotation : Prog (List RewrapTarget × Key) := do
  cleanupRotationDir
  ensurePrivateDir rotateDir
  fillRotationDir X

/-- The body of `rotate_now` under its write guard; `cached` is the `cached-mk` build. -/
def rotateLocked (cached : Bool) : Prog Unit := do
  recoverPendingRotationIfAny X
  let (targets, newMk) ← prepareRotation X
  commitRotation X targets newMk
  if cached then
    match ← refreshCurrentMk.attempt with
    | .ok _ => return ()
    | .error e =>
      setPoisoned
      throw e
  else return ()

def rotateNow (cached : Bool) : Prog Unit := do
  let _ ← call .lockWrite
  Program.guarded (rotateLocked X cached) (do let _ ← call .unlockWrite; return ())
end

def checkLive : Prog Unit := do
  let poisoned : Bool ← call .isPoisoned
  if poisoned then throw (.internal "keymanager_rotation_disabled") else return ()

/-- Run `body` between `read_gate` and the drop of its guard. -/
def withReadGate {α : Type} (body : Prog α) : Prog α := do
  checkLive
  let _ ← call .lockRead
  Program.guarded body (do let _ ← call .unlockRead; return ())

/-- The key clients seal and open with: the provider's, or the cached copy. -/
def currentMk (cached : Bool) : Prog Key := do
  if cached then
    match ← call .cachedMk with
    | some mk => return mk
    | none => throw (.internal "keymanager_mk_cache_poisoned")
  else loadMk

section
variable (X : Crypto)

def getOrCreateSecret32 (cached : Bool) (mode : CreateNewMode) (label : Bytes) :
    Prog (Fixed 32) :=
  withReadGate do
    let mk ← currentMk cached
    loadOrCreateLabelSecret32 X mk label mode

def loadOrCreateSealedBlob (cached : Bool) (mode : CreateNewMode) (label : Bytes)
    (generate : Except LithiumError Bytes) : Prog Bytes :=
  withReadGate do
    let mk ← currentMk cached
    loadOrCreateLabelBytes X mk label generate mode

/-- The two seeds `sign_double` signs with. -/
def signingSeeds (cached : Bool) : Prog (Fixed 32 × Fixed 32) :=
  withReadGate do
    let mk ← currentMk cached
    let edSeed ← loadSecret32Decrypted X edPriv mk ktEdSeed
    let diliSeed ← loadBytesDecrypted X diliPriv mk ktDiliSeed
    Program.done (← call (.arenaClaim 32))
    let diliSeed ← Program.done (Fixed.fromSlice 32 diliSeed)
    Program.done (← call (.arenaClaim 32))
    return (edSeed, diliSeed)

def ensureMk : Prog Unit := do
  match ← loadMk.attempt with
  | .ok _ => return ()
  | .error e =>
    if e.isNotFound then
      let newMk ← randomFixed .masterKey
      storeMk newMk
    else throw e

/-- Keep a copy of the master key in the arena, in the `cached-mk` build. -/
def cacheMk (cached : Bool) (mk : Key) : Prog Unit := do
  if cached then
    Program.done (← call (.arenaClaim 32))
    let _ ← call (.setCachedMk mk)
    return ()
  else return ()

/-- Fix the time of the first rotation and start the rotation thread. -/
def scheduleRotation (config : KeyManagerConfig) : Prog Unit := do
  let now : Nat ← call .now
  if now + config.rotateEvery < instantLimit then
    if config.rotationEnabled then io (← call .spawn) else return ()
  else throw .ttlTooLarge

def startWithConfig (cached : Bool) (config : KeyManagerConfig) : Prog PublicKeys := do
  if config.rotationEnabled ∧ config.rotateEvery < minRotateEvery then
    throw (.malformedInput "rotate_every_too_small")
  else
    ensurePrivateDir rootDir
    ensurePrivateDir pubDir
    ensurePrivateDir privDir
    ensurePrivateDir secretsDir
    acquireExclusiveLock config.fileLock
    ensureMk
    recoverPendingRotationIfAny X
    let rootMk ← loadMk
    Program.done (← call (.arenaMap config.arenaCapacity))
    let publicKeys ← ensureAsymmetricMaterial X rootMk config.publicCachePolicy
    cacheMk cached rootMk
    scheduleRotation config
    return publicKeys

/-- `keys` is what the manager holds behind its lock; what it holds afterwards comes with
the reply. -/
def reloadPublicKeys (policy : PublicCachePolicy) (keys : PublicKeys) :
    Prog (Except LithiumError Unit × PublicKeys) := do
  let reloaded : Prog PublicKeys := do
    checkLive
    let mk ← loadMk
    ensureAsymmetricMaterial X mk policy
  match ← reloaded.attempt with
  | .ok fresh => return (.ok (), fresh)
  | .error e => return (.error e, keys)
end

end Lithium.Keys
