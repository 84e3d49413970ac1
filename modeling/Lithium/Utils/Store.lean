import Lithium.Crypto.Suite
import Lithium.Wire.Text
import Mathlib.Data.List.AList

/-! The store of short-lived secrets (`utils/store.rs`). A call hashes its key, reads the
clock and seals its value before it takes the lock, so its clock reading may be old by the
time its lock section runs. Threads, their lock sections and the background sweeps are a
step relation; instants and durations are numbers. -/
namespace Lithium.Utils
open Keys (Bytes Fixed Key LithiumError)
open Crypto

structure StoreEntry where
  ciphertext : Bytes
  expiresAt : Nat
  version : Nat

structure HeapEntry where
  expiresAt : Nat
  version : Nat
  key : Bytes
  deriving DecidableEq

/-- `Ord for HeapEntry`: the entry that expires first is the greatest. -/
def HeapEntry.cmp (self other : HeapEntry) : Ordering :=
  (compare other.expiresAt self.expiresAt).then
    ((compare other.version self.version).then (compare other.key self.key))

/-- `BinaryHeap::push`, on a heap kept as a list with its greatest entry first. -/
def heapPush (entry : HeapEntry) : List HeapEntry → List HeapEntry
  | [] => [entry]
  | top :: rest => if entry.cmp top = .gt then entry :: top :: rest else top :: heapPush entry rest

structure StoreInner where
  map : AList fun _ : Bytes => StoreEntry
  heap : List HeapEntry
  nextVersion : Nat
  stop : Bool

/-- `StoreInner` behind its mutex, with the key of the store. -/
structure Shared where
  inner : StoreInner
  poisoned : Bool
  key : Key

def Shared.new (key : Key) : Shared :=
  { inner := { map := ∅, heap := [], nextVersion := 0, stop := false }, poisoned := false, key }

/-- The loop of `sweep_expired` over the heap, the greatest entry first. -/
def sweepHeap (now : Nat) : List HeapEntry → (AList fun _ : Bytes => StoreEntry) →
    List HeapEntry × (AList fun _ : Bytes => StoreEntry)
  | [], map => ([], map)
  | top :: rest, map =>
    if top.expiresAt > now then (top :: rest, map)
    else
      match map.lookup top.key with
      | some cur =>
        if cur.version = top.version ∧ cur.expiresAt ≤ now then
          sweepHeap now rest (map.erase top.key)
        else sweepHeap now rest map
      | none => sweepHeap now rest map

def sweepExpired (now : Nat) (inner : StoreInner) : StoreInner :=
  { inner with heap := (sweepHeap now inner.heap inner.map).1,
               map := (sweepHeap now inner.heap inner.map).2 }

/-- One pass of `cleanup_loop`, which holds the lock while it reads the clock. -/
def cleanupPass (now : Nat) (inner : StoreInner) : StoreInner :=
  if inner.stop then inner else sweepExpired now inner

def nextVersion (inner : StoreInner) : Except LithiumError (Nat × StoreInner) :=
  if inner.nextVersion + 1 < 2 ^ 64 then
    .ok (inner.nextVersion, { inner with nextVersion := inner.nextVersion + 1 })
  else .error (.internal "store_version_overflow")

def storeCtx : Except LithiumError Context := do
  (← Context.base (ascii "lithium")).add (ascii "ephemeral-store")

inductive Call where
  | set (key value : Bytes) (ttl : Nat)
  | setIfAbsent (key value : Bytes) (ttl : Nat)
  | peek (key : Bytes)
  | take (key : Bytes)
  | del (key : Bytes)

def Call.key : Call → Bytes
  | .set key _ _ | .setIfAbsent key _ _ | .peek key | .take key | .del key => key

inductive Reply where
  | done
  | stored (fresh : Bool)
  | value (found : Option Bytes)
  | failed (error : LithiumError)
  deriving DecidableEq

/-- What a call has computed when it asks for the lock. -/
inductive Prepared where
  | set (now : Nat) (hkey ciphertext : Bytes) (expiresAt : Nat)
  | setIfAbsent (now : Nat) (hkey ciphertext : Bytes) (expiresAt : Nat)
  | peek (now : Nat) (hkey : Bytes)
  | take (now : Nat) (hkey : Bytes)
  | del (hkey : Bytes)

section
variable (X : Suite)

def hashSha256Hex (data : Bytes) : Bytes := Wire.utf8 (Keys.hexEncode (X.sha256 data).1)

/-- `EphemeralStoreManager::seal`. -/
def sealValue (key : Key) (nonce : Draw 12) (hkey value : Bytes) : Except LithiumError Bytes := do
  encrypt X nonce value key (← storeCtx) hkey

/-- `EphemeralStoreManager::unseal`. -/
def unsealValue (key : Key) (hkey blob : Bytes) : Except LithiumError Bytes := do
  decrypt X blob key (← storeCtx) hkey

theorem unseal_seal (correct : X.AeadCorrect) {key : Key} {nonce : Draw 12} {hkey value blob : Bytes}
    (sealed : sealValue X key nonce hkey value = .ok blob) : unsealValue X key hkey blob = .ok value := by
  obtain ⟨ctx, context, encrypted⟩ := bind_eq_ok sealed
  rw [unsealValue, context]
  exact decrypt_encrypt correct encrypted

/-- What `set` and `set_if_absent` do before they lock, for a non-zero `ttl`. `latest` is
the last instant the clock can represent. -/
def prepareWrite (latest now : Nat) (storeKey : Key) (nonce : Draw 12) (key value : Bytes)
    (ttl : Nat) : Except LithiumError (Bytes × Bytes × Nat) := do
  if now + ttl > latest then throw .ttlTooLarge
  else
    let hkey := hashSha256Hex X key
    let ciphertext ← sealValue X storeKey nonce hkey value
    return (hkey, ciphertext, now + ttl)

theorem prepareWrite_eq_ok {latest now ttl expiresAt : Nat} {storeKey : Key} {nonce : Draw 12}
    {key value hkey ciphertext : Bytes}
    (ready : prepareWrite X latest now storeKey nonce key value ttl =
      .ok (hkey, ciphertext, expiresAt)) :
    hkey = hashSha256Hex X key ∧ expiresAt = now + ttl ∧
      sealValue X storeKey nonce hkey value = .ok ciphertext := by
  rw [prepareWrite] at ready
  split at ready
  · cases ready
  · obtain ⟨blob, sealed, rest⟩ := bind_eq_ok ready
    cases rest
    exact ⟨rfl, rfl, sealed⟩

/-- A call up to its request for the lock, or the reply it gives without it. -/
def prepare (latest now : Nat) (storeKey : Key) (nonce : Draw 12) : Call → Except Reply Prepared
  | .set key value ttl =>
    if ttl = 0 then .error .done
    else
      match prepareWrite X latest now storeKey nonce key value ttl with
      | .error error => .error (.failed error)
      | .ok (hkey, ciphertext, expiresAt) => .ok (.set now hkey ciphertext expiresAt)
  | .setIfAbsent key value ttl =>
    if ttl = 0 then .error (.stored false)
    else
      match prepareWrite X latest now storeKey nonce key value ttl with
      | .error error => .error (.failed error)
      | .ok (hkey, ciphertext, expiresAt) => .ok (.setIfAbsent now hkey ciphertext expiresAt)
  | .peek key => .ok (.peek now (hashSha256Hex X key))
  | .take key => .ok (.take now (hashSha256Hex X key))
  | .del key => .ok (.del (hashSha256Hex X key))

/-- The end of `set` and `set_if_absent`: the entry goes in under a new version. -/
def insertEntry (hkey ciphertext : Bytes) (expiresAt : Nat) (success : Reply) (inner : StoreInner) :
    Reply × StoreInner :=
  match nextVersion inner with
  | .error error => (.failed error, inner)
  | .ok (version, inner) =>
    (success, { inner with
      map := inner.map.insert hkey { ciphertext, expiresAt, version }
      heap := heapPush { expiresAt, version, key := hkey } inner.heap })

def unsealed (storeKey : Key) (hkey blob : Bytes) : Reply :=
  match unsealValue X storeKey hkey blob with
  | .ok value => .value (some value)
  | .error error => .failed error

/-- The lock section of a call, and its reply. -/
def Prepared.section (storeKey : Key) (inner : StoreInner) : Prepared → Reply × StoreInner
  | .set now hkey ciphertext expiresAt =>
    insertEntry hkey ciphertext expiresAt .done (sweepExpired now inner)
  | .setIfAbsent now hkey ciphertext expiresAt =>
    let inner := sweepExpired now inner
    match inner.map.lookup hkey with
    | some entry =>
      if entry.expiresAt > now then (.stored false, inner)
      else insertEntry hkey ciphertext expiresAt (.stored true) inner
    | none => insertEntry hkey ciphertext expiresAt (.stored true) inner
  | .peek now hkey =>
    match inner.map.lookup hkey with
    | some entry =>
      if entry.expiresAt > now then (unsealed X storeKey hkey entry.ciphertext, inner)
      else (.value none, { inner with map := inner.map.erase hkey })
    | none => (.value none, inner)
  | .take now hkey =>
    match inner.map.lookup hkey with
    | none => (.value none, inner)
    | some entry =>
      (if entry.expiresAt ≤ now then .value none
       else unsealed X storeKey hkey entry.ciphertext,
       { inner with map := inner.map.erase hkey })
  | .del hkey => (.done, { inner with map := inner.map.erase hkey })

/-- A call from its request for the lock on. -/
def Prepared.run (shared : Shared) (prepared : Prepared) : Reply × Shared :=
  if shared.poisoned then (.failed (.internal "store_lock_poisoned"), shared)
  else
    ((prepared.section X shared.key shared.inner).1,
      { shared with inner := (prepared.section X shared.key shared.inner).2 })

/-- A lock section that has run: the clock reading `clock` of its call, and the time
`locked` at which it ran. -/
structure Section where
  call : Call
  clock : Nat
  locked : Nat
  reply : Reply

/-- A call that has read the clock and waits for the lock. -/
structure Waiting where
  call : Call
  clock : Nat
  prepared : Prepared

/-- A store in use: the time, the calls under way, and the lock sections that have run,
the latest first. -/
structure Config (Tid : Type) where
  now : Nat
  shared : Shared
  waiting : Tid → Option Waiting
  history : List Section

variable {Tid : Type} [DecidableEq Tid]

/-- What can happen next. Calls are made for keys in `used` only. -/
inductive Step (latest : Nat) (used : Bytes → Prop) : Config Tid → Config Tid → Prop
  | tick {config : Config Tid} (later : Nat) (forward : config.now ≤ later) :
    Step latest used config { config with now := later }
  | begin {config : Config Tid} (tid : Tid) (call : Call) (nonce : Draw 12) {prepared : Prepared}
      (idle : config.waiting tid = none) (known : used call.key)
      (ready : prepare X latest config.now config.shared.key nonce call = .ok prepared) :
    Step latest used config
      { config with
        waiting := Function.update config.waiting tid (some ⟨call, config.now, prepared⟩) }
  | lock {config : Config Tid} (tid : Tid) {waiting : Waiting}
      (next : config.waiting tid = some waiting) :
    Step latest used config
      { config with
        shared := (waiting.prepared.run X config.shared).2
        waiting := Function.update config.waiting tid none
        history := ⟨waiting.call, waiting.clock, config.now,
          (waiting.prepared.run X config.shared).1⟩ :: config.history }
  | sweep {config : Config Tid} :
    Step latest used config
      { config with
        shared := { config.shared with inner := cleanupPass config.now config.shared.inner } }
  | stop {config : Config Tid} :
    Step latest used config
      { config with
        shared := { config.shared with inner := { config.shared.inner with stop := true } } }

/-- The configurations of a run that starts with a new store at time `start`. -/
inductive Reached (latest : Nat) (used : Bytes → Prop) (storeKey : Key) (start : Nat) :
    Config Tid → Prop
  | start : Reached latest used storeKey start ⟨start, .new storeKey, fun _ => none, []⟩
  | next {config config' : Config Tid} (reached : Reached latest used storeKey start config)
      (step : Step X latest used config config') : Reached latest used storeKey start config'

end
end Lithium.Utils
