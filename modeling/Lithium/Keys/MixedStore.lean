import Lithium.Keys.Abandoned
import Lithium.Keys.Concurrency

/-! Clients and failing rotations on one store, in the build that asks the provider for the
master key each time. As long as no rotation starts over a marker that an earlier one left,
and every payload fits a keyfile, a live manager has all its keyfiles under the provider's
key. -/
namespace Lithium.Keys
open Effects Storage

/-- Every live keyfile opens under `mk`. -/
def OpensUnder (X : Crypto) (mk : Key) (v : View) : Prop :=
  ∀ path keyType, keyTypeOf path = some keyType →
    v path = none ∨ ∃ payload, loadNode X (v path) mk keyType = .ok payload

/-- Every live keyfile opens under the key the provider holds. -/
def Uniformly (X : Crypto) (w : World) : Prop :=
  ∃ mk, w.control.providerMk = some mk ∧ OpensUnder X mk w.view

/-- No rotation starts with a marker in place. -/
def unmarkedStart : Op → World → Bool
  | .lockWrite, w => (w.fs.get readyPath).isNone
  | _, _ => true

def orderly (env : Tid → Env) (i : Tid) : Executor Calls World Choice :=
  (exec (env i) i).allowing unmarkedStart

theorem LiveUnder.opensUnder {X : Crypto} {payloads : Payloads} {mk : Key} {v : View}
    (live : LiveUnder X payloads mk v) : OpensUnder X mk v := by
  intro path keyType known
  have held := live path keyType known
  cases payload : payloads path with
  | none =>
    rw [payload] at held
    exact .inl held
  | some payload' =>
    rw [payload] at held
    exact .inr ⟨payload', held⟩

theorem Settled.uniformly {X : Crypto} {payloads : Payloads} {w : World}
    (settled : Settled X payloads w) : Uniformly X w := by
  obtain ⟨mk, provided, _, live⟩ := settled
  exact ⟨mk, provided, live.opensUnder⟩

/-- A keyfile that does not open gives a mixed store away. -/
theorem not_uniformly {X : Crypto} {w : World} {mk : Key} {path : Path} {keyType : String}
    (provided : w.control.providerMk = some mk) (known : keyTypeOf path = some keyType)
    (there : (w.view path).isSome = true)
    (sealed : (loadNode X (w.view path) mk keyType).toOption = none) : ¬ Uniformly X w := by
  rintro ⟨mk', provided', opens⟩
  rw [provided] at provided'
  cases provided'
  rcases opens path keyType known with none | ⟨payload, opened⟩
  · rw [none] at there
    cases there
  · rw [opened] at sealed
    cases sealed

theorem OpensUnder.put {X : Crypto} {mk : Key} {v : View} (opens : OpensUnder X mk v)
    (lawful : X.Lawful) {label payload data : Bytes} {draws : SealDraws}
    (fits : payload.length ≤ maxKeyfileSize - 140)
    (sealed : sealRecord X mk payload (labelKeyType label) draws = .ok data) :
    OpensUnder X mk (Function.update v (labelSecretPath label) (some (privateFile data))) := by
  intro path keyType known
  by_cases same : path = labelSecretPath label
  · subst same
    rw [keyTypeOf_labelPath] at known
    cases known
    rw [Function.update_self]
    exact .inr ⟨payload, loadNode_sealed lawful fits sealed⟩
  · rw [Function.update_of_ne same]
    exact opens path keyType known

section
variable {X : Crypto} {keys : Key → Prop} {env : Tid → Env} {ops : Tid → Operation}
  {mode : CreateNewMode}

/-- The manager is poisoned, or its store is not mixed. -/
def Unmixed (X : Crypto) (keys : Key → Prop) (w : World) : Prop :=
  w.control.poisoned = true ∨
    ∃ mk, (w.control.providerMk = some mk ∧ keys mk) ∧ OpensUnder X mk w.view

theorem Unmixed.congr {w w' : World} (unmixed : Unmixed X keys w) (alike : Alike w w')
    (view : w'.view = w.view) : Unmixed X keys w' := by
  rw [Unmixed, alike.poisoned, alike.provider, view]
  exact unmixed

def unmixedRegime (X : Crypto) (keys : Key → Prop) (env : Tid → Env) (ops : Tid → Operation) :
    Regime Unit where
  sem i := (orderly env i).sem
  env := env
  client i := (ops i).isClient = true
  gated := False
  holds := Unmixed X keys
  value _ := ()
  le _ _ := True
  stays := Alike
  meaning step := (Executor.allowing_sem.mp step).1
  gate := False.elim
  le_refl _ := trivial
  le_trans _ _ := trivial
  stays_trans := .trans
  stays_relock := .relock
  holds_relock unmixed readers writer := unmixed.congr (.relock _ readers writer) rfl
  value_relock _ _ _ := rfl
  grows _ _ := trivial
  quiet unmixed step := ⟨unmixed.congr (.of_control step.control) step.view, .of_control step.control⟩

theorem unmixed_serves (lawful : X.Lawful) :
    (unmixedRegime X keys env ops).Serves X false mode (fun payload =>
      payload.length ≤ maxKeyfileSize - 140) fun _ _ _ => True where
  sealing alike := alike.clientMk false
  fresh secret := by
    rw [secret.2]
    decide
  stable _ _ := trivial
  loads _ _ _ := trivial
  puts := by
    intro i label payload mk draws data w w' _ _ fits sealed provided reading _ step
    have alike : Alike w w' := .of_control step.control
    refine ⟨?_, alike, trivial⟩
    rcases reading.holds with poisoned | ⟨mk', ⟨provided', known⟩, opens⟩
    · exact .inl (alike.poisoned.trans poisoned)
    · have provided : w.control.providerMk = some mk := provided
      rw [provided'] at provided
      cases provided
      refine .inr ⟨mk, ⟨alike.provider.trans provided', known⟩, ?_⟩
      rw [step.view]
      exact opens.put lawful fits sealed

theorem rotateLocked_poisoned {fewer : Semantics Calls World} {env : Env} {i : Tid} {cached : Bool}
    {w : World} (within : ∀ {op w reply w'}, fewer op w reply w' → sem env i op w reply w')
    (poisoned : w.control.poisoned = true) :
    Meets (.alone fewer fun w => w.control.poisoned = true) (fun _ w => w.control.poisoned = true)
      (rotateLocked X cached) w :=
  Meets.invariant (rotateLocked_calls (fun _ _ => trivial) (fun _ => trivial) (fun _ => trivial) X
    (trivial : True) trivial cached) (fun _ _ _ _ _ poisoned step => sem_poisoned poisoned (within step)) poisoned

/-- A rotation that finds no marker leaves the store unmixed or the manager poisoned. -/
theorem rotateLocked_unmixed (lawful : X.Lawful) (separated : Separated X keys) {env : Env}
    [env.Sighted] (fresh : FreshDraws env keys) {i : Tid} {w : World} {mk : Key}
    (provided : w.control.providerMk = some mk ∧ keys mk) (opens : OpensUnder X mk w.view)
    (unmarked : w.view readyPath = none) :
    ∃ strong, strong w ∧ Meets (.alone (sem env i) strong) (fun _ last => Unmixed X keys last.unlocked)
      (rotateLocked X false) w := by
  have live : LiveIn X (.plain keys) (payloadsOf X mk w.view) mk w.view :=
    ⟨liveUnder_payloadsOf opens, fun _ _ _ _ _ => trivial⟩
  have finished : FinishedAt X (.plain keys) (payloadsOf X mk w.view) mk w :=
    ⟨provided, .inl ⟨unmarked, live⟩⟩
  have frame : Frame w True w := ⟨rfl, .refl w, .inl trivial⟩
  refine ⟨_, frame.sound (.inr ⟨mk, finished⟩), (rotateLocked_settled lawful
    (Custody.plain_upheld separated fresh) (fun _ => trivial) excused
    false w ⟨⟨finished, frame⟩, unmarked⟩).mono ?_⟩
  rintro (e | _) last ⟨_, ended⟩
  · rcases ended.2 with poisoned | kept
    · exact .inl poisoned
    · exact .inr ⟨mk, kept.provided, kept.live.under.opensUnder⟩
  · obtain ⟨mk', ⟨here, _⟩, _⟩ := ended
    exact .inr ⟨mk', here.1, here.live.under.opensUnder⟩

theorem unmixed_manages (lawful : X.Lawful) (separated : Separated X keys)
    (seeing : ∀ i, ops i = .rotate → (env i).Sighted) (fresh : ∀ i, FreshDraws (env i) keys)
    (small : ∀ i, (ops i).Fits fun payload => payload.length ≤ maxKeyfileSize - 140) :
    (unmixedRegime X keys env ops).Manages X false mode ops fun _ _ _ => True where
  roles _ := .rfl
  clients := ⟨_, _, unmixed_serves lawful, small, fun _ _ => trivial⟩
  rotations := by
    intro i w w' other unmixed step
    have sighted : (env i).Sighted := by
      refine seeing i ?_
      cases op : ops i with
      | rotate => rfl
      | _ => exact absurd (by rw [op]; rfl : (ops i).isClient = true) other
    obtain ⟨called, unmarked⟩ := Executor.allowing_sem.mp step
    obtain rfl : w' = w.lockedBy i := (sem_lockWrite called).2
    have within : ∀ {op w reply w'}, (orderly env i).sem op w reply w' → sem (env i) i op w reply w' :=
      fun step => (Executor.allowing_sem.mp step).1
    have unmarked : (w.lockedBy i).view readyPath = none := Option.isNone_iff_eq_none.mp unmarked
    rcases unmixed with poisoned | ⟨mk, provided, opens⟩
    · have poisoned : (w.lockedBy i).control.poisoned = true := poisoned
      refine ⟨_, poisoned, (rotateLocked_poisoned within poisoned).mono fun _ _ ended => ?_⟩
      exact ⟨.inl ended, trivial⟩
    · have provided : (w.lockedBy i).control.providerMk = some mk ∧ keys mk := provided
      obtain ⟨strong, start, meets⟩ :=
        rotateLocked_unmixed lawful separated (fresh i) (i := i) provided opens unmarked
      exact ⟨strong, start, (meets.fewer within).mono fun _ _ ended => ⟨ended, trivial⟩⟩
  lasting _ _ := trivial

/-- In every run of clients and rotations, any calls of which may fail, the store of a live
manager is not mixed whenever no rotation is at work: provided that every rotation finds no
marker when it gets its lock and none of its existence checks fails, and that every payload
fits a keyfile. -/
theorem never_mixed (lawful : X.Lawful) (separated : Separated X keys)
    (seeing : ∀ i, ops i = .rotate → (env i).Sighted) (fresh : ∀ i, FreshDraws (env i) keys)
    (small : ∀ i, (ops i).Fits fun payload => payload.length ≤ maxKeyfileSize - 140) {w : World}
    (uniformly : Uniformly X w) (known : ∀ mk, w.control.providerMk = some mk → keys mk)
    (unlocked : w.control.writer = none ∧ w.control.readers = [])
    {s : System Calls World LithiumError Bytes Tid}
    (run : Interleaves (fun i => (orderly env i).sem) ⟨fun i => (ops i).program X false mode, w⟩ s)
    (idle : s.world.control.writer = none) (live : s.world.control.poisoned = false) :
    Uniformly X s.world := by
  obtain ⟨mk, provided, opens⟩ := uniformly
  have unmixed : Unmixed X keys w := .inr ⟨mk, ⟨provided, known mk provided⟩, opens⟩
  rcases (unmixed_manages lawful separated seeing fresh small).holds unmixed unlocked run idle with
    poisoned | ⟨mk', ⟨provided', _⟩, opens'⟩
  · rw [live] at poisoned
    cases poisoned
  · exact ⟨mk', provided', opens'⟩

end

/-- A manager on a store whose keyfiles are sealed with `tagged`. -/
def taggedManager (cached : Bool) (mode : CreateNewMode) (ops : Tid → Operation) (w : World) :
    System Calls World LithiumError Bytes Tid := ⟨fun i => (ops i).program tagged cached mode, w⟩

def twoRotations : Tid → Operation
  | 0 | 1 => .rotate
  | _ => .sign

/-- The first rotation fails at the sync after its marker, which leaves the store on the old
key. The second finishes the first one's work on the files, fails to give the provider the
new key, and leaves the manager live. -/
theorem mixed_store :
    Uniformly tagged sample ∧ ∃ s, Interleaves (sem (sampleEnv true))
      (taggedManager false .linkNoReplace twoRotations sample) s ∧
      s.world.control.writer = none ∧ s.world.control.poisoned = false ∧
      ¬ Uniformly tagged s.world := by
  have checked : let w := (((taggedManager false .linkNoReplace twoRotations sample).advance
      (exec (sampleEnv true)) 0 (failingAt 68) 100).advance (exec (sampleEnv true)) 1 (failingAt 23) 100).world
      w.control.writer = none ∧ w.control.poisoned = false ∧ w.control.providerMk = some (uniform 0) ∧
        (w.view (labelSecretPath sampleLabel)).isSome = true ∧ (loadNode tagged
          (w.view (labelSecretPath sampleLabel)) (uniform 0) (labelKeyType sampleLabel)).toOption = none := by
    decide +kernel
  obtain ⟨idle, live, provided, there, sealed⟩ := checked
  exact ⟨sample_settled.uniformly, _, (System.advance_interleaves _ 0 _ 100 _).trans
    (System.advance_interleaves _ 1 _ 100 _), idle, live,
    not_uniformly provided (keyTypeOf_labelPath sampleLabel) there sealed⟩

/-- A rotation that does not see the directory of the secrets rewraps none of them, and reports
success. -/
theorem unseen_secrets_mixed :
    Uniformly tagged sample ∧ ∃ w, Returns (sem (sampleEnv true) 0) (rotateNow tagged false) sample
      (.ok ()) w ∧ w.control.poisoned = false ∧ ¬ Uniformly tagged w := by
  have checked : let w := (follow (exec (sampleEnv true) 0) (blindTo secretsDir) 200 0
        (rotateNow tagged false) sample).2
      w.control.poisoned = false ∧ w.control.providerMk = some (uniform 2) ∧
        (w.view (labelSecretPath sampleLabel)).isSome = true ∧ (loadNode tagged
          (w.view (labelSecretPath sampleLabel)) (uniform 2) (labelKeyType sampleLabel)).toOption = none := by
    decide +kernel
  obtain ⟨live, provided, there, sealed⟩ := checked
  exact ⟨sample_settled.uniformly, _, follow_returns (exec (sampleEnv true) 0) (blindTo secretsDir) 200 0
    (by decide +kernel), live, not_uniformly provided (keyTypeOf_labelPath sampleLabel) there sealed⟩

def rotationAndClient : Tid → Operation
  | 0 => .rotate
  | 1 => .secret32 [0xcd]
  | _ => .sign

/-- A client looks at the flag, a rotation fails at the sync after its marker, and the client
goes on to create its secret. -/
theorem never_mixed_sample :
    ∃ s, Interleaves (fun i => (orderly (fun _ => sightedEnv) i).sem)
        (taggedManager false .linkNoReplace rotationAndClient sample) s ∧
      ((s.world.fs.get readyPath).isSome = true ∧
        (s.world.fs.get (labelSecretPath [0xcd])).isSome = true) ∧ Uniformly tagged s.world := by
  have checked : let w := ((((taggedManager false .linkNoReplace rotationAndClient sample).advance
      (orderly fun _ => sightedEnv) 1 (plainly 2 someLeaf) 1).advance
      (orderly fun _ => sightedEnv) 0 (failingAt 68) 100).advance
      (orderly fun _ => sightedEnv) 1 (plainly 2 someLeaf) 100).world
      (w.control.writer = none ∧ w.control.poisoned = false) ∧ (w.fs.get readyPath).isSome = true ∧
        (w.fs.get (labelSecretPath [0xcd])).isSome = true := by
    decide +kernel
  obtain ⟨⟨idle, live⟩, files⟩ := checked
  have run := ((System.advance_interleaves (orderly fun _ => sightedEnv) 1 (plainly 2 someLeaf) 1
    (taggedManager false .linkNoReplace rotationAndClient sample)).trans
    (System.advance_interleaves _ 0 (failingAt 68) 100 _)).trans
    (System.advance_interleaves _ 1 (plainly 2 someLeaf) 100 _)
  refine ⟨_, run, files, never_mixed tagged_lawful tagged_separated (fun _ _ => sightedEnv_sighted)
    (fun _ => sampleEnv_fresh true)
    (fun i => ?_) sample_settled.uniformly sample_known ⟨rfl, rfl⟩ run idle live⟩
  match i with
  | 0 | 1 | _ + 2 => trivial

end Lithium.Keys
