import Lithium.Keys.Primitives
import Lithium.Memory.Blocks
import Mathlib.Data.List.AList

/-! The arena that holds secrets in locked memory (`secrets/arena.rs`): a bump
pointer with one free list per slot length, the regions handed out, and the
constructors that fill them. Sizes and addresses are machine words of `bits`
bits; an addition the source leaves unchecked stops the run when it overflows. -/
namespace Lithium.Secrets
open Keys Memory

/-- How an arena operation can stop short: an unchecked addition overflowed, or the
operation returned an error. -/
inductive Stop where
  | overflow
  | failed (error : LithiumError)
  deriving DecidableEq, Repr

/-- `free` keeps, for each slot length, the offsets freed with that length, the last
one first. -/
structure ArenaInner where
  base : Nat
  size : Nat
  offset : Nat
  free : AList fun _ : Nat => List Nat

/-- `ArenaInner` behind its mutex, with the memory its pointers lead to. -/
structure Arena where
  inner : ArenaInner
  poisoned : Bool
  memory : Contents

structure Region where
  ptr : Nat
  off : Nat
  len : Nat
  alignedLen : Nat
  deriving DecidableEq, Repr

abbrev ArenaM := EStateM Stop Arena

def align : Nat := 16

section
variable (bits : Nat)

/-- An addition of two words that the source does not check. -/
def addUsize {σ : Type} (a b : Nat) : EStateM Stop σ Nat :=
  if a + b < 2 ^ bits then pure (a + b) else throw .overflow

def checkedAdd (a b : Nat) : Option Nat :=
  if a + b < 2 ^ bits then some (a + b) else none

def checkedMul (a b : Nat) : Option Nat :=
  if a * b < 2 ^ bits then some (a * b) else none

/-- `usize::div_ceil`. -/
def divCeil {σ : Type} (v unit : Nat) : EStateM Stop σ Nat :=
  if v % unit > 0 then addUsize bits (v / unit) 1 else pure (v / unit)

def roundUp {σ : Type} (v unit : Nat) : EStateM Stop σ (Option Nat) := do
  let blocks ← divCeil bits v unit
  return checkedMul bits blocks unit

/-- The end of `ArenaInner::alloc`: a slot is taken at the bump pointer. -/
def bump (len : Nat) : ArenaM (Nat × Nat) := do
  let arena ← get
  match checkedAdd bits arena.inner.offset len with
  | none => throw (.failed (.internal "arena_size_overflow"))
  | some stop =>
    if stop > arena.inner.size then throw (.failed (.internal "arena_exhausted"))
    else
      set { arena with inner := { arena.inner with offset := stop } }
      return (arena.inner.offset, len)

/-- `ArenaInner::alloc`. -/
def alloc (len : Nat) : ArenaM (Nat × Nat) := do
  match ← roundUp bits (max len 1) align with
  | none => throw (.failed (.internal "arena_size_overflow"))
  | some len =>
    let arena ← get
    match arena.inner.free.lookup len with
    | some (off :: slots) =>
      set { arena with inner := { arena.inner with free := arena.inner.free.insert len slots } }
      return (off, len)
    -- no list for this length, or an empty one
    | _ => bump bits len

/-- `ArenaInner::dealloc`: the slot is wiped over its whole aligned length. -/
def dealloc (off alignedLen : Nat) : ArenaM Unit := do
  let arena ← get
  let start ← addUsize bits arena.inner.base off
  set { arena with
    memory := arena.memory.write start (List.replicate alignedLen 0)
    inner := { arena.inner with
      free := arena.inner.free.insert alignedLen
        (off :: (arena.inner.free.lookup alignedLen).getD []) } }

/-- `SecretArena::claim`. -/
def claim (len : Nat) : ArenaM Region := do
  let arena ← get
  if arena.poisoned then throw (.failed (.internal "arena_lock_poisoned"))
  else
    let (off, alignedLen) ← alloc bits len
    let ptr ← addUsize bits arena.inner.base off
    return { ptr, off, len, alignedLen }

/-- The bytes a region's handle exposes. -/
def Region.block (region : Region) : Block := ⟨region.ptr, region.len⟩

/-- `Region::as_slice`. -/
def Region.asSlice (region : Region) (arena : Arena) : Bytes := arena.memory.read region.block

/-- `region.as_mut_slice()` overwritten with `bytes`. -/
def Region.copyFromSlice (region : Region) (bytes : Bytes) : ArenaM Unit :=
  modify fun arena => { arena with memory := arena.memory.write region.ptr bytes }

/-- `Region::drop`, which takes the lock even when it is poisoned. -/
def Region.drop (region : Region) : ArenaM Unit := dealloc bits region.off region.alignedLen

/-- `SecretArena::random_fixed`. The generator leaves `filled` in the region, and may
then report a failure; the region is dropped on the way out. -/
def randomFixed (n : Nat) (filled : Fixed n) (failed : Bool) : ArenaM Region := do
  let region ← claim bits n
  region.copyFromSlice filled.1
  if failed then
    region.drop bits
    throw (.failed .randomFailed)
  else return region

/-- `SecretArena::store_fixed`. -/
def storeFixed (n : Nat) (secret : Fixed n) : ArenaM Region := do
  let region ← claim bits n
  region.copyFromSlice secret.1
  return region

/-- `SecretArena::store_slice_fixed`. -/
def storeSliceFixed (n : Nat) (slice : Bytes) : ArenaM Region :=
  if slice.length ≠ n then throw (.failed (.invalidLength n slice.length))
  else do
    let region ← claim bits n
    region.copyFromSlice slice
    return region

/-- `SecretArena::store_fixed_wiped`, with the contents it leaves in the source buffer, which is
borrowed. Its one caller passes the contents of a `Zeroizing` of its own, whose drop wipes them
whatever is left. -/
def storeFixedWiped (n : Nat) (src : Bytes) (arena : Arena) :
    EStateM.Result Stop Arena Region × Bytes :=
  if src.length ≠ n then
    (.error (.failed (.invalidLength n src.length)) arena, List.replicate src.length 0)
  else
    match claim bits n arena with
    | .error stop arena => (.error stop arena, src)
    | .ok region arena =>
      (((region.copyFromSlice src).bind fun _ => pure region) arena, List.replicate src.length 0)

/-- What `os::map` gives: a mapping that neither starts at the null address nor wraps
around the address space, filled with zeros. -/
structure Mapping where
  base : Nat
  size : Nat
  memory : Contents
  nonnull : 0 < base
  fits : base + size < 2 ^ bits
  zeroed : ∀ x ∈ (⟨base, size⟩ : Block), memory x = 0

/-- The arena `SecretArena::build` makes of a mapping. -/
def Mapping.arena {bits : Nat} (mapping : Mapping bits) : Arena where
  inner := { base := mapping.base, size := mapping.size, offset := 0, free := ∅ }
  poisoned := false
  memory := mapping.memory

/-- `SecretArena::build`, with the page size and the answers of `os::map`. -/
def build (pageSize : Nat)
    (map : (size : Nat) → (requireLock : Bool) → Except LithiumError (Mapping bits × Bool))
    (bytes : Nat) (requireLock : Bool) : EStateM Stop Unit (Arena × Bool) := do
  match ← roundUp bits (max bytes 1) pageSize with
  | none => throw (.failed (.internal "arena_size_overflow"))
  | some size =>
    match map size requireLock with
    | .error error => throw (.failed error)
    | .ok (mapping, locked) => return (mapping.arena, locked)

/-- One thing the holders of an arena and its handles can do. A handle is named by the
number of handles made before it. -/
inductive Action where
  | claim (len : Fin (2 ^ bits))
  | randomFixed (n : Fin (2 ^ bits)) (filled : Fixed n) (failed : Bool)
  | storeFixed (n : Fin (2 ^ bits)) (secret : Fixed n)
  | storeSliceFixed (n : Fin (2 ^ bits)) (slice : Bytes)
  | storeFixedWiped (n : Fin (2 ^ bits)) (src : Bytes)
  | write (handle : Nat) (bytes : Bytes)
  | drop (handle : Nat)

inductive Event where
  | put (handle : Nat) (bytes : Bytes)
  | dropped (handle : Nat)
  deriving DecidableEq, Repr

/-- An arena in use: its live handles and what happened to them, the latest event
first. -/
structure Run where
  arena : Arena
  live : AList fun _ : Nat => Region
  next : Nat
  history : List Event

def Run.regions (run : Run) : List Region := run.live.entries.map (·.2)

/-- The run after a constructor ended with `result`; a new handle holds `bytes`. -/
def Run.opened (run : Run) (bytes : Bytes) : EStateM.Result Stop Arena Region → Run
  | .ok region arena =>
    { arena, live := run.live.insert run.next region, next := run.next + 1,
      history := .put run.next bytes :: run.history }
  | .error _ arena => { run with arena }

def Run.perform (run : Run) : Action bits → Run
  | .claim len => run.opened (List.replicate len 0) (Secrets.claim bits len run.arena)
  | .randomFixed n filled failed =>
    run.opened filled.1 (Secrets.randomFixed bits n filled failed run.arena)
  | .storeFixed n secret => run.opened secret.1 (Secrets.storeFixed bits n secret run.arena)
  | .storeSliceFixed n slice => run.opened slice (Secrets.storeSliceFixed bits n slice run.arena)
  | .storeFixedWiped n src => run.opened src (Secrets.storeFixedWiped bits n src run.arena).1
  | .write handle bytes =>
    match run.live.lookup handle with
    | none => run
    | some region =>
      -- a handle exposes a slice of its own length
      if bytes.length = region.len then
        match region.copyFromSlice bytes run.arena with
        | .ok _ arena | .error _ arena =>
          { run with arena, history := .put handle bytes :: run.history }
      else run
  | .drop handle =>
    match run.live.lookup handle with
    | none => run
    | some region =>
      match region.drop bits run.arena with
      | .ok _ arena | .error _ arena =>
        { run with arena, live := run.live.erase handle,
                   history := .dropped handle :: run.history }

def Run.performAll (run : Run) (actions : List (Action bits)) : Run :=
  actions.foldl (Run.perform bits) run

def Mapping.fresh {bits : Nat} (mapping : Mapping bits) : Run :=
  { arena := mapping.arena, live := ∅, next := 0, history := [] }

end
end Lithium.Secrets
