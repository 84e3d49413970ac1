import Lithium.Keys.MixedStore

/-! The build that keeps a copy of the master key. As long as no rotation starts over a
marker that an earlier one left, the copy of a live manager is the provider's key; and as long
as no client gets in once the manager is poisoned, no file is sealed under any other key. -/
namespace Lithium.Keys
open Effects Storage

def Coherent (w : World) : Prop := ∃ mk, w.control.providerMk = some mk ∧ w.control.cachedMk = some mk

/-- The entry is a record fresh from sealing under `mk`. -/
def SealedUnder (X : Crypto) (mk : Key) (node : Option Node) : Prop :=
  ∃ payload keyType draws data, sealRecord X mk payload keyType draws = .ok data ∧
    node = some (privateFile data)

/-- No rotation starts with a marker in place and, where clients are `gated`, none takes the
read lock of a poisoned manager. -/
def gatedStart (gated : Bool) : Op → World → Bool
  | .lockRead, w => !gated || !w.control.poisoned
  | op, w => unmarkedStart op w

def supervised (gated : Bool) (env : Tid → Env) (i : Tid) : Executor Calls World Choice :=
  (exec (env i) i).allowing (gatedStart gated)

/-- In a live manager every file that changes is sealed under the provider's key. -/
structure SealsCurrent (X : Crypto) (w w' : World) : Prop where
  alike : Alike w w'
  files : w.control.poisoned = false → ∀ path, w'.view path = w.view path ∨
    ∃ mk, w'.control.providerMk = some mk ∧ SealedUnder X mk (w'.view path)

section
variable {X : Crypto} {env : Env} {tid : Tid} {w w' w'' : World}

theorem SealsCurrent.same (alike : Alike w w') (view : w'.view = w.view) : SealsCurrent X w w' :=
  ⟨alike, fun _ path => .inl (congrFun view path)⟩

theorem SealsCurrent.trans (first : SealsCurrent X w w') (second : SealsCurrent X w' w'') :
    SealsCurrent X w w'' := by
  refine ⟨first.alike.trans second.alike, fun live path => ?_⟩
  rcases second.files (first.alike.poisoned.trans live) path with same | sealed
  · rw [same, second.alike.provider]
    exact first.files live path
  · exact .inr sealed

/-- A rotation that gives up this way leaves the manager poisoned. -/
theorem setPoisoned_poisons (e : LithiumError) :
    Triple (Free env tid) (fun _ => True) (setPoisoned.bind fun _ => (throw e : Prog Unit))
      fun result w => result = .error e ∧ w.control.poisoned = true := by
  exact control_spec (fun w => w.control.poisoned = true) (fun c => { c with poisoned := true })
    (fun _ _ _ => sem_setPoisoned) (fun _ => id) (fun _ _ => rfl)
    fun _ => Triple.done fun w here => ⟨rfl, here⟩

/-- A commit that fails leaves the manager poisoned, whatever the store was like. -/
theorem commitRotation_poisons (targets : List RewrapTarget) (newMk : Key) :
    Triple (Free env tid) (fun _ => True) (commitRotation X targets newMk) fun result w =>
      ∀ e, result = .error e → w.control.poisoned = true := by
  refine Triple.attempt_bind (fun w _ => Meets.free (fun _ _ => trivial) _ w) fun result => ?_
  cases result with
  | ok _ => exact Triple.done fun w _ => nofun
  | error e =>
    refine Triple.attempt_bind (fun w _ => Meets.free (fun _ _ => trivial) _ w) fun result => ?_
    cases result with
    | ok _ => exact Triple.done fun w _ => nofun
    | error _ => exact (setPoisoned_poisons e).weaken fun _ w ended _ _ => ended.2

theorem refreshCurrentMk_coherent :
    Triple (Free env tid) (fun _ => True) refreshCurrentMk fun result w =>
      result = .ok () → Coherent w := by
  refine Triple.bind (currentMk_reads (party_solo env tid _) still_solo false) (fun mk => ?_)
    fun e w _ => nofun
  refine Triple.mono (arenaClaim_spec (fun w => w.control.providerMk = some mk) ?_
    fun e w _ _ => nofun) (fun w here => here.2 mk rfl) fun _ _ ended => ended
  exact control_spec Coherent (fun c => { c with cachedMk := some mk }) (fun _ _ _ => sem_setCachedMk)
    (fun _ => id) (fun w provided => ⟨mk, provided, rfl⟩) fun _ => Triple.done fun w here _ => here

/-- A rotation that finds no marker leaves the copy coherent or the manager poisoned. -/
theorem rotateLocked_coherent (lawful : X.Lawful) (coherent : Coherent w)
    (unmarked : w.view readyPath = none) :
    Meets (Free env tid) (fun _ last => last.control.poisoned = true ∨ Coherent last)
      (rotateLocked X true) w := by
  have kept : ∀ last, Intact w last → Coherent last := fun last intact => by
    rw [Coherent, intact.control]
    exact coherent
  suffices rotates : Triple (Free env tid) (fun last => Intact w last ∧ last.view readyPath = none)
      (rotateLocked X true) fun _ last => last.control.poisoned = true ∨ Coherent last from
    rotates w ⟨.refl w, unmarked⟩
  refine Triple.bind recover_intact (fun _ => ?_) fun e last intact => .inr (kept last intact)
  refine Triple.bind (prepareRotation_intact lawful) (fun value => ?_)
    fun e last ended => .inr (kept last ended.1)
  refine Triple.mono (Triple.bind (commitRotation_poisons value.1 value.2) (fun _ => ?_)
    fun e last ended => .inl (ended e rfl)) (fun _ _ => trivial) fun _ _ ended => ended
  refine Triple.mono (Triple.attempt_bind refreshCurrentMk_coherent fun result => ?_)
    (fun _ _ => trivial) fun _ _ ended => ended
  cases result with
  | ok _ => exact Triple.done fun last ended => .inr (ended rfl)
  | error e => exact (setPoisoned_poisons e).mono (fun _ _ => trivial) fun _ last ended => .inl ended.2

def coherentRegime (X : Crypto) (gated : Bool) (env : Tid → Env) (ops : Tid → Operation) :
    Regime Unit where
  sem i := (supervised gated env i).sem
  env := env
  client i := (ops i).isClient = true
  gated := gated = true
  holds w := w.control.poisoned = true ∨ Coherent w
  value _ := ()
  le _ _ := True
  stays := SealsCurrent X
  meaning step := (Executor.allowing_sem.mp step).1
  gate := by
    rintro rfl i w reply w' step
    simpa [gatedStart] using (Executor.allowing_sem.mp step).2
  le_refl _ := trivial
  le_trans _ _ := trivial
  stays_trans := .trans
  stays_relock w readers writer := .same (.relock w readers writer) rfl
  holds_relock here _ _ := here
  value_relock _ _ _ := rfl
  grows _ _ := trivial
  quiet here step := by
    refine ⟨?_, .same (.of_control step.control) step.view⟩
    rw [Coherent, step.control]
    exact here

variable {gated cached : Bool} {envs : Tid → Env} {ops : Tid → Operation} {mode : CreateNewMode}

theorem coherent_serves :
    (coherentRegime X gated envs ops).Serves X true mode (fun _ => True) fun _ _ _ => True where
  sealing stays := stays.alike.clientMk true
  fresh _ := trivial
  stable _ _ := trivial
  loads _ _ _ := trivial
  puts := by
    intro i label payload mk draws data w w' _ _ _ sealed kept reading _ step
    have alike : Alike w w' := .of_control step.control
    refine ⟨?_, ⟨alike, fun live path => ?_⟩, trivial⟩
    · rcases reading.holds with poisoned | ⟨mk', provided, copied⟩
      · exact .inl (alike.poisoned.trans poisoned)
      · exact .inr ⟨mk', alike.provider.trans provided, alike.cached.trans copied⟩
    · rcases reading.holds with poisoned | ⟨mk', provided, copied⟩
      · rw [live] at poisoned
        cases poisoned
      · have kept : w.control.cachedMk = some mk := kept
        rw [copied] at kept
        cases kept
        rw [step.view]
        by_cases same : path = labelSecretPath label
        · subst same
          rw [Function.update_self]
          exact .inr ⟨mk, alike.provider.trans provided, payload, _, draws, data, sealed, rfl⟩
        · exact .inl (Function.update_of_ne same _ _)

theorem coherent_manages (lawful : X.Lawful) :
    (coherentRegime X gated envs ops).Manages X true mode ops fun _ _ _ => True where
  roles _ := .rfl
  clients := ⟨_, _, coherent_serves, fun i => (ops i).fits_any, fun _ _ => trivial⟩
  rotations := by
    intro i w w' _ here step
    obtain ⟨called, granted⟩ := Executor.allowing_sem.mp step
    obtain rfl : w' = w.lockedBy i := (sem_lockWrite called).2
    have within : ∀ {op w reply w'}, (supervised gated envs i).sem op w reply w' →
        sem (envs i) i op w reply w' := fun step => (Executor.allowing_sem.mp step).1
    have unmarked : (w.lockedBy i).view readyPath = none := Option.isNone_iff_eq_none.mp granted
    rcases here with poisoned | coherent
    · have poisoned : (w.lockedBy i).control.poisoned = true := poisoned
      refine ⟨_, poisoned, (rotateLocked_poisoned within poisoned).mono fun _ _ ended => ?_⟩
      exact ⟨.inl ended, trivial⟩
    · have coherent : Coherent (w.lockedBy i) := coherent
      refine ⟨_, trivial, ((rotateLocked_coherent lawful coherent unmarked).fewer within).mono ?_⟩
      exact fun _ _ ended => ⟨ended, trivial⟩
  lasting _ _ := trivial

/-- In every run of clients and rotations, any calls of which may fail, the copy of the master
key of a live manager is the provider's key whenever no rotation is at work, provided that
every rotation finds no marker when it gets its lock. If besides no client is let in once the
manager is poisoned, then every file a client's step puts in place is sealed under the key the
provider holds at that moment. -/
theorem cache_coherent (lawful : X.Lawful) (coherent : Coherent w)
    (unlocked : w.control.writer = none ∧ w.control.readers = [])
    {s : System Calls World LithiumError Bytes Tid}
    (run : Interleaves (fun i => (supervised gated envs i).sem)
      ⟨fun i => (ops i).program X true mode, w⟩ s) :
    (s.world.control.writer = none → s.world.control.poisoned = false → Coherent s.world) ∧
      (gated = true → ∀ i s', (ops i).isClient = true →
        Moves (fun i => (supervised gated envs i).sem) i s s' → ∀ path,
        s'.world.view path = s.world.view path ∨ ∃ mk, s'.world.control.providerMk = some mk ∧
          SealedUnder X mk (s'.world.view path)) := by
  have manages : (coherentRegime X gated envs ops).Manages X true mode ops fun _ _ _ => True :=
    coherent_manages lawful
  constructor
  · intro idle live
    rcases manages.holds (.inr coherent) unlocked run idle with poisoned | coherent'
    · rw [live] at poisoned
      cases poisoned
    · exact coherent'
  · intro closed i s' client moves path
    obtain ⟨stays, locks, outside⟩ := manages.step (.inr coherent) unlocked run client moves
    by_cases inside : i ∈ s.world.control.readers
    · exact stays.files (locks.2 closed (List.ne_nil_of_mem inside)) path
    · exact .inl (congrFun (outside inside) path)

end
def cachedSample : World :=
  { sample with control := { sample.control with cachedMk := some (uniform 0) } }

/-- The first rotation fails at the sync after its marker. The second gives the provider the
first one's key, fails to remove what is left of that rotation, and leaves the manager live
with the old key for a copy. -/
theorem cache_stale :
    Coherent cachedSample ∧ ∃ s, Interleaves (sem (sampleEnv true))
        (taggedManager true .linkNoReplace twoRotations cachedSample) s ∧
      s.world.control.writer = none ∧ s.world.control.poisoned = false ∧
      s.world.control.providerMk = some (uniform 1) ∧ s.world.control.cachedMk = some (uniform 0) := by
  have checked : let w := (((taggedManager true .linkNoReplace twoRotations cachedSample).advance
      (exec (sampleEnv true)) 0 (failingAt 68) 100).advance (exec (sampleEnv true)) 1
      (failingAt 26) 100).world
      w.control.writer = none ∧ w.control.poisoned = false ∧ w.control.providerMk = some (uniform 1) ∧
        w.control.cachedMk = some (uniform 0) := by
    decide +kernel
  exact ⟨⟨uniform 0, rfl, rfl⟩, _, (System.advance_interleaves _ 0 _ 100 _).trans
    (System.advance_interleaves _ 1 _ 100 _), checked⟩

/-- A client looks at the flag, a rotation goes through, and the client comes to the link that
puts its new secret in place. -/
def beforeLink : System Calls World LithiumError Bytes Tid :=
  (((taggedManager true .linkNoReplace rotationAndClient cachedSample).advance
    (supervised true fun _ => sampleEnv true) 1 (plainly 2 someLeaf) 1).advance
    (supervised true fun _ => sampleEnv true) 0 (plainly 1 someLeaf) 100).advance
    (supervised true fun _ => sampleEnv true) 1 (plainly 2 someLeaf) 14

/-- The copy is the new key, and the secret is sealed under it. -/
theorem cache_coherent_sample :
    Interleaves (fun i => (supervised true (fun _ => sampleEnv true) i).sem)
        (taggedManager true .linkNoReplace rotationAndClient cachedSample) beforeLink ∧
      Coherent beforeLink.world ∧ beforeLink.world.control.providerMk = some (uniform 1) ∧
      ∃ s', Moves (fun i => (supervised true (fun _ => sampleEnv true) i).sem) 1 beforeLink s' ∧
        ∃ mk, s'.world.control.providerMk = some mk ∧
          SealedUnder tagged mk (s'.world.view (labelSecretPath [0xcd])) := by
  have checked : beforeLink.world.control.writer = none ∧ beforeLink.world.control.poisoned = false ∧
      beforeLink.world.control.providerMk = some (uniform 1) ∧
      beforeLink.world.view (labelSecretPath [0xcd]) = none ∧
      ((beforeLink.advance (supervised true fun _ => sampleEnv true) 1 (plainly 2 someLeaf) 1).world.view
        (labelSecretPath [0xcd])).isSome = true := by
    decide +kernel
  obtain ⟨idle, live, provided, absent, placed⟩ := checked
  have run : Interleaves (fun i => (supervised true (fun _ => sampleEnv true) i).sem)
      (taggedManager true .linkNoReplace rotationAndClient cachedSample) beforeLink :=
    ((System.advance_interleaves _ 1 _ 1 _).trans (System.advance_interleaves _ 0 _ 100 _)).trans
      (System.advance_interleaves _ 1 _ 14 _)
  obtain ⟨coherent, sealed⟩ := cache_coherent tagged_lawful ⟨uniform 0, rfl, rfl⟩ ⟨rfl, rfl⟩ run
  obtain same | moves := System.advance_one (supervised true fun _ => sampleEnv true) 1
    (plainly 2 someLeaf) beforeLink
  · rw [same, absent] at placed
    cases placed
  · rcases sealed rfl 1 _ rfl moves (labelSecretPath [0xcd]) with same | sealed
    · rw [same, absent] at placed
      cases placed
    · exact ⟨run, coherent idle live, provided, _, moves, sealed⟩

end Lithium.Keys
