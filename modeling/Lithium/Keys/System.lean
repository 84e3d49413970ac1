import Lithium.Effects.Execution
import Lithium.Keys.Record

/-! The world a key manager runs in: the file names it uses, the calls it makes
to the file system, to its master-key provider and to the state its threads
share, and an executable meaning for each call. Paths are relative to the base
directory of the store. -/
namespace Lithium.Keys
open Effects Storage

/-- What follows the last dot of a file name. Temp files have the form
`tmp-{pid:x}-{seq:x}-{suffix}`, kept apart from every other extension. -/
inductive Extension where
  | none
  | text (ext : String)
  | tmp (pid seq : Nat) (suffix : Fixed 8)
  deriving DecidableEq

structure FileName where
  stem : String
  extension : Extension
  deriving DecidableEq

abbrev Path := List FileName

def hexNat (n : Nat) : String := String.ofList (Nat.toDigits 16 n)

def FileName.render : FileName → String
  | ⟨stem, .none⟩ => stem
  | ⟨stem, .text ext⟩ => stem ++ "." ++ ext
  | ⟨stem, .tmp pid seq suffix⟩ =>
    stem ++ ".tmp-" ++ hexNat pid ++ "-" ++ hexNat seq ++ "-" ++ hexEncode suffix.1

def lexLe : List String → List String → Bool
  | [], _ => true
  | _ :: _, [] => false
  | a :: as, b :: bs => decide (a < b) || (a == b && lexLe as bs)

/-- The order of `PathBuf`: component by component, from the base directory. -/
def pathLe (a b : Path) : Bool :=
  lexLe (a.map FileName.render).reverse (b.map FileName.render).reverse

/-- `Path::with_extension`. -/
def withExtension (path : Path) (extension : Extension) : Path :=
  match path with
  | [] => []
  | name :: dir => { name with extension } :: dir

def stampOf : Path → Option (Nat × Nat)
  | ⟨_, .tmp pid seq _⟩ :: _ => some (pid, seq)
  | _ => none

def isTmp (path : Path) : Bool := (stampOf path).isSome

def plain (name : String) : FileName := ⟨name, .none⟩
def keyf (stem : String) : FileName := ⟨stem, .text "keyf"⟩

def rootDir : Path := [plain "KeyManager"]
def pubDir : Path := plain "pub" :: rootDir
def privDir : Path := plain "priv" :: rootDir
def secretsDir : Path := plain "secrets" :: rootDir
def rotateDir : Path := plain ".rotate" :: rootDir
def stagedDir : Path := plain "staged" :: rotateDir
def lockPath : Path := plain ".lock" :: rootDir
def readyPath : Path := plain "ready" :: rotateDir
def nextOldPath : Path := keyf "next-mk-old" :: rotateDir
def nextNewPath : Path := keyf "next-mk-new" :: rotateDir
def edPub : Path := ⟨"ed25519", .text "pub"⟩ :: pubDir
def diliPub : Path := ⟨"dilithium-mldsa87", .text "pub"⟩ :: pubDir
def edPriv : Path := keyf "ed25519" :: privDir
def diliPriv : Path := keyf "dilithium-mldsa87" :: privDir

def ktEdSeed : String := "ed25519-seed-v1"
def ktDiliSeed : String := "dilithium-mldsa87-seed-v1"
def ktRotateNextOld : String := "rotate-next-mk-old-v1"
def ktRotateNextNew : String := "rotate-next-mk-new-v1"

abbrev Tid := Nat

inductive Draw where
  | masterKey
  | secret32
  | seed
  | dek
  | salt
  | nonce
  | suffix
  deriving DecidableEq, Repr

def Draw.len : Draw → Nat
  | .nonce => 12
  | .suffix => 8
  | _ => 32

/-- The outcomes of `File::try_lock`. -/
inductive TryLock where
  | locked
  | wouldBlock
  | error (kind : IoErrorKind)
  deriving DecidableEq, Repr

inductive Op where
  -- `Path::exists`, `is_file` and `is_dir`, which report no errors
  | stat (path : Path)
  | symlinkMetadata (path : Path)
  | tryExists (path : Path)
  | mkdir (path : Path)
  | readDir (dir : Path)
  -- open, metadata and contents of one file; a file is never changed in place
  -- once it has its final name, so all three are read from the same file
  | openRead (path : Path)
  | openLock (path : Path)
  | createNew (path : Path)
  | writeAll (path : Path) (data : Bytes)
  | syncFile (path : Path)
  | rename (source target : Path)
  | hardLink (source target : Path)
  | removeFile (path : Path)
  -- `remove_dir_all` opens the tree and then removes its entries one by one
  | openTree (root : Path)
  | removeEntry (root : Path)
  | syncDir (dir : Path)
  | lockStore
  | random (use : Draw)
  -- `std::process::id()` and `TMP_SEQ.fetch_add(1)`
  | tmpStamp
  | arenaMap (capacity : Nat)
  | arenaClaim (len : Nat)
  | now
  | spawn
  | loadMk
  | storeMk (mk : Key)
  | isPoisoned
  | setPoisoned
  | cachedMk
  | setCachedMk (mk : Key)
  | lockRead
  | unlockRead
  | lockWrite
  | unlockWrite
  deriving DecidableEq

def Reply : Op → Type
  | .stat _ => Option Metadata
  | .symlinkMetadata _ => Io Metadata
  | .tryExists _ => Io Bool
  | .readDir _ => Io (List Path)
  | .openRead _ => Io (Metadata × Bytes)
  | .mkdir _ | .openLock _ | .createNew _ | .writeAll .. | .syncFile _ | .rename .. | .hardLink ..
  | .removeFile _ | .removeEntry _ | .syncDir _ | .spawn => Io Unit
  | .openTree _ => Io Nat
  | .lockStore => TryLock
  | .random use => Option (Fixed use.len)
  | .tmpStamp => Nat × Nat
  | .loadMk => Except LithiumError Key
  | .arenaMap _ | .arenaClaim _ | .storeMk _ => Except LithiumError Unit
  | .now => Nat
  | .isPoisoned => Bool
  | .cachedMk => Option Key
  | .setPoisoned | .setCachedMk _ | .lockRead | .unlockRead | .lockWrite | .unlockWrite => Unit

abbrev Calls : Signature := ⟨Op, Reply⟩

abbrev Prog (α : Type) := Program Calls LithiumError α

/-- What the threads of a manager share, and the provider's master key. -/
structure Control where
  providerMk : Option Key
  cachedMk : Option Key
  poisoned : Bool
  readers : List Tid
  writer : Option Tid
  storeLocked : Bool
  deriving DecidableEq

/-- `stamps` is the counter `TMP_SEQ`, kept as the threads that took its values. -/
structure World where
  fs : FileSystem FileName
  pid : Nat
  stamps : List Tid
  control : Control

/-- A new process over what the old one left on disk and in the provider. -/
def World.restart (w : World) (pid : Nat) : World where
  fs := w.fs
  pid := pid
  stamps := []
  control := ⟨w.control.providerMk, none, false, [], none, false⟩

/-- What the environment of one thread may do: whether it lets calls fail and which failures
of which calls it then has, which master keys it may draw while the provider holds a given one,
and how far its clock goes. -/
structure Env where
  faults : Bool
  may : Op → LithiumError → Bool
  masterKey : Option Key → Key → Bool
  clock : Nat

/-- How the environment settles one call. -/
structure Choice where
  fault : Option LithiumError
  bytes : Bytes
  pick : Path
  time : Nat

def ioFailure {α : Type} : LithiumError → Option (Io α)
  | .io kind => some (.error kind)
  | _ => none

/-- The reply of a call that fails with `e`; some calls cannot fail, and calls on
files fail with an I/O error only. -/
def failure (e : LithiumError) : (op : Op) → Option (Reply op)
  | .symlinkMetadata _ | .tryExists _ | .readDir _ | .openRead _ | .mkdir _ | .openLock _
  | .createNew _ | .writeAll .. | .syncFile _ | .rename .. | .hardLink .. | .removeFile _
  | .removeEntry _ | .syncDir _ | .spawn | .openTree _ => ioFailure e
  | .lockStore =>
    match e with
    | .io kind => some (.error kind)
    | _ => none
  -- `Path::exists` and its like answer `false` on any error
  | .stat _ => some none
  | .random _ => some none
  | .loadMk | .arenaMap _ | .arenaClaim _ | .storeMk _ => some (.error e)
  | .tmpStamp | .now | .isPoisoned | .setPoisoned | .cachedMk | .setCachedMk _
  | .lockRead | .unlockRead | .lockWrite | .unlockWrite => none

def pageSize : Nat := 4096

def arenaSize (capacity : Nat) : Option Nat :=
  let size := (max capacity 1 + pageSize - 1) / pageSize * pageSize
  if size < usizeLimit then some size else none

def Env.admits (env : Env) (mk : Option Key) : (use : Draw) → Fixed use.len → Bool
  | .masterKey, drawn => env.masterKey mk drawn
  | _, _ => true

def World.onFs {α : Type} (w : World) (result : Io α × FileSystem FileName) : Io α × World :=
  (result.1, { w with fs := result.2 })

def openLock (fs : FileSystem FileName) (path : Path) : Io Unit × FileSystem FileName :=
  match fs.get path with
  | none => fs.create ⟨.regular, 0o644, []⟩ path
  | some node => if node.ftype = .regular then (.ok (), fs) else (.error .isADirectory, fs)

/-- What a call does when it does not fail for outside reasons. A lock that is
taken is no possible step. -/
def effect (env : Env) (tid : Tid) (choice : Choice) :
    (op : Op) → World → Option (Reply op × World)
  | .stat path, w => some (w.fs.stat path, w)
  | .symlinkMetadata path, w => some (w.fs.symlinkMetadata path, w)
  | .tryExists path, w => some (.ok (w.fs.stat path).isSome, w)
  | .mkdir path, w => some (w.onFs (w.fs.mkdir path))
  | .readDir dir, w => some (w.fs.readDir dir, w)
  | .openRead path, w => some (w.fs.openRead path, w)
  | .openLock path, w => some (w.onFs (openLock w.fs path))
  | .createNew path, w => some (w.onFs (w.fs.createNew path))
  | .writeAll path data, w => some (w.onFs (w.fs.write data path))
  | .syncFile _, w => some (.ok (), w)
  | .rename source target, w => some (w.onFs (w.fs.rename source target))
  | .hardLink source target, w => some (w.onFs (w.fs.hardLink source target))
  | .removeFile path, w => some (w.onFs (w.fs.removeFile path))
  | .openTree root, w =>
    if w.fs.isDir root then some (.ok (w.fs.below root).length, w)
    else some (.error .notADirectory, w)
  | .removeEntry root, w =>
    if (w.fs.below root).isEmpty then some (.ok (), w)
    else (w.fs.removeEntry root choice.pick).map fun fs => (.ok (), { w with fs })
  | .syncDir dir, w => some (w.onFs (w.fs.syncDir dir))
  | .lockStore, w =>
    if w.control.storeLocked then some (.wouldBlock, w)
    else some (.locked, { w with control := { w.control with storeLocked := true } })
  | .random use, w =>
    if fits : choice.bytes.length = use.len then
      if env.admits w.control.providerMk use ⟨choice.bytes, fits⟩ then
        some (some ⟨choice.bytes, fits⟩, w)
      else none
    else none
  | .tmpStamp, w => some ((w.pid, w.stamps.length), { w with stamps := w.stamps ++ [tid] })
  | .arenaMap capacity, w =>
    match arenaSize capacity with
    | some _ => some (.ok (), w)
    | none => some (.error (.internal "arena_size_overflow"), w)
  | .arenaClaim _, w => some (.ok (), w)
  | .now, w => if choice.time ≤ env.clock then some (choice.time, w) else none
  | .spawn, w => some (.ok (), w)
  | .loadMk, w =>
    match w.control.providerMk with
    | some mk => some (.ok mk, w)
    | none => some (.error (.io .notFound), w)
  | .storeMk mk, w => some (.ok (), { w with control := { w.control with providerMk := some mk } })
  | .isPoisoned, w => some (w.control.poisoned, w)
  | .setPoisoned, w => some ((), { w with control := { w.control with poisoned := true } })
  | .cachedMk, w => some (w.control.cachedMk, w)
  | .setCachedMk mk, w =>
    some ((), { w with control := { w.control with cachedMk := some mk } })
  | .lockRead, w =>
    if w.control.writer.isNone then
      some ((), { w with control := { w.control with readers := tid :: w.control.readers } })
    else none
  | .unlockRead, w =>
    some ((), { w with control := { w.control with readers := w.control.readers.erase tid } })
  | .lockWrite, w =>
    if w.control.writer.isNone ∧ w.control.readers.isEmpty then
      some ((), { w with control := { w.control with writer := some tid } })
    else none
  | .unlockWrite, w =>
    some ((), { w with control := { w.control with writer := none } })

/-- One call: a failure where the environment may let it fail so, else its effect. -/
def exec (env : Env) (tid : Tid) : Executor Calls World Choice := fun choice op w =>
  match choice.fault with
  | some e =>
    if env.faults ∧ env.may op e then (failure e op).map fun reply => (reply, w) else none
  | none => effect env tid choice op w

def sem (env : Env) (tid : Tid) : Semantics Calls World := (exec env tid).sem

/-- An existence check of the path does not fail. -/
def Env.Sees (env : Env) (path : Path) : Prop :=
  env.faults = false ∨ ∀ e, env.may (.stat path) e = false

/-- The call may report falsely that nothing is there. -/
def Env.Denies (env : Env) (op : Op) : Prop :=
  env.faults = true ∧ ∃ e, e.isNotFound = true ∧ env.may op e = true

theorem Env.not_denies {env : Env} (faultless : env.faults = false) (op : Op) : ¬ env.Denies op := by
  rintro ⟨faults, -⟩
  rw [faultless] at faults
  cases faults

/-- No existence check fails. -/
class Env.Sighted (env : Env) : Prop where
  sees : ∀ path, env.Sees path

theorem Env.Sighted.of_faultless {env : Env} (faultless : env.faults = false) : env.Sighted :=
  ⟨fun _ => .inl faultless⟩

theorem ioFailure_eq {α : Type} {e : LithiumError} {reply : Io α}
    (failed : ioFailure e = some reply) : ∃ kind, reply = .error kind := by
  cases e <;> cases failed
  exact ⟨_, rfl⟩

/-- A call fails as the environment may let it, and changes nothing, or it has its effect. -/
theorem sem_outcomes {env : Env} {tid : Tid} {op : Op} {w w' : World} {reply : Reply op}
    (step : sem env tid op w reply w') :
    (env.faults = true ∧ w' = w ∧ ∃ e, env.may op e = true ∧ failure e op = some reply) ∨
      ∃ choice, effect env tid choice op w = some (reply, w') := by
  obtain ⟨choice, stepped⟩ := step
  unfold exec at stepped
  split at stepped
  · next e _ =>
    split at stepped
    · next allowed =>
      obtain ⟨r, failed, same⟩ := Option.map_eq_some_iff.mp stepped
      cases same
      exact .inl ⟨allowed.1, rfl, e, allowed.2, failed⟩
    · cases stepped
  · exact .inr ⟨choice, stepped⟩

theorem sem_cases {env : Env} {tid : Tid} {op : Op} {w w' : World} {reply : Reply op}
    (step : sem env tid op w reply w') :
    (env.faults = true ∧ w' = w ∧ ∃ e, failure e op = some reply) ∨
      ∃ choice, effect env tid choice op w = some (reply, w') := by
  refine (sem_outcomes step).imp_left ?_
  rintro ⟨faults, same, e, _, failed⟩
  exact ⟨faults, same, e, failed⟩

/-- A call whose effect is not up to the environment does it or fails. -/
theorem sem_natural {env : Env} {tid : Tid} {op : Op} {w w' : World} {reply : Reply op}
    {natural : Reply op × World} (effected : ∀ choice, effect env tid choice op w = some natural)
    (step : sem env tid op w reply w') :
    (reply, w') = natural ∨ env.faults = true ∧ w' = w ∧ ∃ e, failure e op = some reply := by
  obtain ⟨faults, same, failed⟩ | ⟨choice, done⟩ := sem_cases step
  · exact .inr ⟨faults, same, failed⟩
  · exact .inl (Option.some.inj (done.symm.trans (effected choice)))

end Lithium.Keys
