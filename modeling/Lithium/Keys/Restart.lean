import Lithium.Keys.Crash
import Lithium.Keys.Start
import Lithium.Keys.Usage

/-! A start on what a crash left of a store that had served before: a pending rotation is
finished first, and then the identity keys are derived from the seeds that are sealed. Nothing
is lost wherever the start is cut off in its turn. -/
namespace Lithium.Keys
open Effects Storage

section
variable {X : Crypto} {custody : Custody} {payloads : Payloads} {loose : Prop} {w w' : World}

/-- Files that are no business of a rotation do not matter to what can be recovered. -/
theorem Recoverable.aside (here : Recoverable X custody payloads w)
    (provider : w'.control.providerMk = w.control.providerMk)
    (same : ∀ path, ¬ Aside path → w'.view path = w.view path) : Recoverable X custody payloads w' := by
  have below : ∀ path, rotateDir <:+ path → w'.view path = w.view path := fun path inside =>
    same path fun aside => aside.1 inside
  have live : ∀ path keyType, keyTypeOf path = some keyType → w'.view path = w.view path :=
    fun path keyType known => same path (not_aside_of_live known)
  have staged : ∀ path keyType, keyTypeOf path = some keyType →
      w'.view (stagePath path) = w.view (stagePath path) := fun path keyType known =>
    below _ (below_rotate_of_staged known)
  obtain ⟨ready, nextOld, nextNew⟩ := rotate_files_below
  obtain ⟨old, new, provided, marked, prepared⟩ | ⟨mk, provided, finished⟩ := here
  · refine .inl ⟨old, new, by rwa [provider], (below _ ready).trans marked, ⟨?_, ?_, ?_, ?_⟩, ?_, ?_⟩
    · rw [below _ nextOld]
      exact prepared.nextOld
    · rw [below _ nextOld]
      exact prepared.nextOldApart
    · rw [below _ nextNew]
      exact prepared.nextNew
    · rw [below _ nextNew]
      exact prepared.nextNewApart
    · intro path keyType known
      rw [live path keyType known]
      exact prepared.live path keyType known
    · intro path keyType payload known held
      rw [staged path keyType known]
      exact prepared.staged path keyType payload known held
  · refine .inr ⟨mk, by rwa [provider], ?_⟩
    obtain ⟨unmarked, lives⟩ | ⟨marked, switched⟩ := finished
    · exact .inl ⟨(below _ ready).trans unmarked, lives.congr live⟩
    · refine .inr ⟨(below _ ready).trans marked, switched.live.congr live, ?_, ?_, ?_⟩
      · intro path keyType payload known held
        rw [staged path keyType known]
        exact switched.staged path keyType payload known held
      · rw [below _ nextOld]
        exact switched.nextOldApart
      · rw [below _ nextNew]
        exact switched.nextNew

theorem Sound.put {tid : Tid} {path : Path} {node : Node} (here : Sound X custody payloads loose w)
    (aside : Aside path) (step : Step tid (Function.update w.view path (some node)) w w') :
    Sound X custody payloads loose w' := by
  refine ⟨here.1.aside (by rw [step.control]) fun other business => ?_, here.2.imp_right step.tidy⟩
  rw [step.view, Function.update_of_ne]
  rintro rfl
  exact business aside

theorem Recoverable.provider (here : Recoverable X custody payloads w) :
    ∃ mk, w.control.providerMk = some mk := by
  obtain ⟨old, _, ⟨provided, _⟩, _⟩ | ⟨mk, ⟨provided, _⟩, _⟩ := here
  · exact ⟨old, provided⟩
  · exact ⟨mk, provided⟩

end

/-- A start before it has recovered a pending rotation. -/
def Waking (X : Crypto) (custody : Custody) (payloads : Payloads) (w : World) : Prop :=
  Sound X custody payloads False w ∧ Idle w.control

/-- A start that has recovered: the labelled secrets are those that were held. -/
structure Awake (X : Crypto) (custody : Custody) (payloads : Payloads) (mk : Key) (w : World) :
    Prop where
  provided : w.control.providerMk = some mk ∧ custody.known mk
  unmarked : w.view readyPath = none
  tidy : Tidy w
  idle : Idle w.control
  labels : ∀ path keyType, keyTypeOf path = some keyType → path ∉ identityFiles →
    Holds X mk keyType (payloads path) (w.view path)

def SeedHeld (payloads : Payloads) (key : SeedKey) (stage : Stage) : Prop :=
  ∃ seed, stage.seed = some seed ∧ payloads key.priv = some seed.1

section
variable {X : Crypto} {keys : Key → Prop} {payloads : Payloads} {env : Env} {tid : Tid} {mk : Key}
  {w w' : World}

theorem waking_steady : Steady tid (Waking X (.plain keys) payloads) :=
  (sound_steady X _ payloads False).and (steady_view fun _ c => Idle c)

theorem keeps_waking : Keeps (Solo env tid (Sound X (.plain keys) payloads False)) tid
    (Waking X (.plain keys) payloads) := keeps_solo (sound_steady X _ payloads False) waking_steady

theorem acquireExclusiveLock_waking (faultless : env.faults = false) (policy : FileLockPolicy) :
    Triple (Solo env tid (Sound X (.plain keys) payloads False)) (Waking X (.plain keys) payloads)
      (acquireExclusiveLock policy) fun result w =>
        result = .ok () → Waking X (.plain keys) payloads w := by
  have refused : ∀ {e : LithiumError} {held : World → Prop} (w : World), held w →
      (.error e : Except LithiumError Unit) = .ok () → Waking X (.plain keys) payloads w :=
    fun _ _ impossible => by cases impossible
  refine Triple.call (fun _ => Waking X (.plain keys) payloads) (alone_stable _ _ _) ?_ fun reply => ?_
  · intro w here inv reply w' step
    obtain ⟨_, rfl | put⟩ | ⟨_, _, rfl, _⟩ := sem_openLock step
    · exact ⟨inv, trivial, here⟩
    · have sound := here.1.put (by exact ⟨by decide, by decide⟩) put
      exact ⟨sound, trivial, sound, by rw [put.control]; exact here.2⟩
    · exact ⟨inv, trivial, here⟩
  · cases reply with
    | error kind => exact Triple.done refused
    | ok _ =>
      refine Triple.call (fun _ => Waking X (.plain keys) payloads) (alone_stable _ _ _) ?_ fun reply => ?_
      · intro w here inv reply w' step
        obtain ⟨faults, _⟩ | ⟨choice, effected⟩ := sem_cases step
        · rw [faultless] at faults
          cases faults
        · simp only [effect] at effected
          split at effected
          · cases effected
            exact ⟨inv, trivial, here⟩
          · cases effected
            exact ⟨sound_control rfl here.1, trivial, sound_control rfl here.1, here.2⟩
      · cases reply with
        | locked => exact Triple.done fun w here _ => here
        | wouldBlock => exact Triple.done refused
        | error kind =>
          cases policy with
          | require => exact Triple.done refused
          | bestEffort => exact Triple.done fun w here _ => here

theorem ensureMk_waking (faultless : env.faults = false) :
    Triple (Solo env tid (Sound X (.plain keys) payloads False)) (Waking X (.plain keys) payloads) ensureMk
      fun _ => Waking X (.plain keys) payloads := by
  intro w here
  obtain ⟨mk, provided⟩ := here.1.1.provider
  have loads : Triple (Solo env tid (Sound X (.plain keys) payloads False))
      (fun w => Waking X (.plain keys) payloads w ∧ w.control.providerMk = some mk) loadMk _ :=
    loadMk_spec fun w here => here.2
  refine Triple.attempt_bind loads (fun result => ?_) w ⟨here, provided⟩
  rintro w ⟨⟨here, _⟩, answers⟩
  cases answers.calm faultless
  exact here

theorem recover_waking [env.Sighted] :
    Triple (Solo env tid (Sound X (.plain keys) payloads False)) (Waking X (.plain keys) payloads)
      (recoverPendingRotationIfAny X) fun result w => result = .ok () →
        ∃ mk, (w.control.providerMk = some mk ∧ keys mk) ∧ w.view readyPath = none ∧
          LiveUnder X payloads mk w.view ∧ Tidy w ∧ Idle w.control := by
  rintro w ⟨here, idle⟩
  have frame : Frame w False w := ⟨rfl, .refl w, here.2⟩
  refine (recover_spec trivial excused w ⟨⟨here.1, frame⟩, rfl⟩).mono ?_
  rintro _ last ⟨⟨_, frame⟩, done, _⟩ rfl
  obtain ⟨_, mk, finished, cleared⟩ := done rfl
  refine ⟨mk, finished.1, cleared.unmarked, finished.live.under, frame.tidy.resolve_left id, ?_⟩
  rw [frame.control]
  exact idle

theorem awake_steady : Steady tid (Awake X (.plain keys) payloads mk) := fun w w' awake step => {
  provided := by rw [step.control]; exact awake.provided
  unmarked := by rw [step.view]; exact awake.unmarked
  tidy := step.tidy awake.tidy
  idle := by rw [step.control]; exact awake.idle
  labels := by rw [step.view]; exact awake.labels }

theorem live_of_identity : ∀ path ∈ identityFiles, ∀ keyType, keyTypeOf path = some keyType →
    path = edPriv ∧ keyType = ktEdSeed ∨ path = diliPriv ∧ keyType = ktDiliSeed := by
  have known : ∀ path ∈ identityFiles, keyTypeOf path = none ∨ (path = edPriv ∧
      keyTypeOf path = some ktEdSeed) ∨ path = diliPriv ∧ keyTypeOf path = some ktDiliSeed := by decide
  intro path member keyType typed
  obtain none | ⟨rfl, same⟩ | ⟨rfl, same⟩ := known path member
  · rw [none] at typed
    cases typed
  · exact .inl ⟨rfl, Option.some.inj (typed.symm.trans same)⟩
  · exact .inr ⟨rfl, Option.some.inj (typed.symm.trans same)⟩

/-- With both seeds in place every keyfile holds what was held. -/
theorem Awake.live {ed dili : Stage} (awake : Awake X (.plain keys) payloads mk w)
    (edHeld : SeedHeld payloads (edKey X) ed) (diliHeld : SeedHeld payloads (diliKey X) dili)
    (edAt : (edKey X).At X mk w.view ed) (diliAt : (diliKey X).At X mk w.view dili) :
    LiveUnder X payloads mk w.view := by
  intro path keyType known
  by_cases member : path ∈ identityFiles
  · obtain ⟨rfl, rfl⟩ | ⟨rfl, rfl⟩ := live_of_identity path member keyType known
    · obtain ⟨seed, sealed, held⟩ := edHeld
      have held : payloads edPriv = some seed.1 := held
      rw [held]
      exact edAt.loads seed sealed
    · obtain ⟨seed, sealed, held⟩ := diliHeld
      have held : payloads diliPriv = some seed.1 := held
      rw [held]
      exact diliAt.loads seed sealed
  · exact awake.labels path keyType known member

theorem founding_awake : FoundingBoth X mk True (SeedHeld payloads) tid
    (Sound X (.plain keys) payloads False) (Awake X (.plain keys) payloads mk) where
  invSteady := sound_steady X _ payloads False
  steady := awake_steady
  aside := fun w w' path data member awake step => {
    provided := by rw [step.control]; exact awake.provided
    unmarked := by
      rw [step.view, Function.update_of_ne]
      · exact awake.unmarked
      · rintro rfl
        exact absurd member (by decide)
    tidy := step.tidy awake.tidy
    idle := by rw [step.control]; exact awake.idle
    labels := fun other keyType known label => by
      rw [step.view, Function.update_of_ne]
      · exact awake.labels other keyType known label
      · rintro rfl
        exact label member }
  sound := fun w ed dili awake edHeld diliHeld edAt diliAt => ⟨.inr ⟨mk, awake.provided,
    .inl ⟨awake.unmarked, awake.live edHeld diliHeld edAt diliAt, fun _ _ _ _ _ => trivial⟩⟩,
    .inr awake.tidy⟩
  closed := fun key stage next ⟨seed, sealed, held⟩ becomes => ⟨seed, becomes.seed seed sealed, held⟩

/-- A start has the master key and the identity keys, which belong to these seeds. -/
structure Identity (X : Crypto) (keys : Key → Prop) (payloads : Payloads) (mk : Key)
    (edSeed diliSeed : Fixed 32) (published : PublicKeys) (w : World) : Prop where
  awake : Awake X (.plain keys) payloads mk w
  live : LiveUnder X payloads mk w.view
  ed : published.ed25519 = X.ed25519PubFromSeed edSeed
  dili : published.dilithium = X.mldsa87PubFromSeed diliSeed

theorem Identity.cache {edSeed diliSeed : Fixed 32} {published : PublicKeys}
    (here : Identity X keys payloads mk edSeed diliSeed published w) (copy : Option Key) :
    Identity X keys payloads mk edSeed diliSeed published
      { w with control := { w.control with cachedMk := copy } } :=
  ⟨⟨here.awake.provided, here.awake.unmarked, here.awake.tidy.control _, here.awake.idle,
    here.awake.labels⟩, here.live, here.ed, here.dili⟩

theorem cacheMk_waking {cached : Bool} (held : World → Prop)
    (recached : ∀ w, held w → held { w with control := { w.control with cachedMk := some mk } }) :
    Triple (Solo env tid (Sound X (.plain keys) payloads False)) held (cacheMk cached mk) fun result w =>
      result = .ok () → held w ∧ (cached = true → w.control.cachedMk = some mk) := by
  cases cached with
  | false => exact Triple.done fun w here _ => ⟨here, nofun⟩
  | true =>
    refine arenaClaim_spec held ?_ fun e w _ _ impossible => by cases impossible
    exact control_spec (fun w => held w ∧ w.control.cachedMk = some mk)
      (fun c => { c with cachedMk := some mk }) (fun _ _ _ => sem_setCachedMk)
      (fun w => sound_control rfl) (fun w here => ⟨recached w here, rfl⟩) fun _ =>
        Triple.done fun w here _ => ⟨here.1, fun _ => here.2⟩

/-- The identity keys of a store that has been recovered. -/
theorem ensureAsymmetricMaterial_awake {policy : PublicCachePolicy} {edSeed diliSeed : Fixed 32}
    (lawful : X.Lawful) (short : ShortKeys X) (candid : env.Candid True)
    (ed : payloads edPriv = some edSeed.1) (dili : payloads diliPriv = some diliSeed.1) :
    Triple (Solo env tid (Sound X (.plain keys) payloads False))
      (fun w => Awake X (.plain keys) payloads mk w ∧ LiveUnder X payloads mk w.view)
      (ensureAsymmetricMaterial X mk policy) fun result w => ∀ published, result = .ok published →
        Identity X keys payloads mk edSeed diliSeed published w := by
  rintro w ⟨awake, live⟩
  have loads : ∀ (key : SeedKey) (seed : Fixed 32), keyTypeOf key.priv = some key.keyType →
      payloads key.priv = some seed.1 → key.At X mk w.view ⟨some seed, w.view key.pub⟩ := by
    intro key seed known held
    have here := live key.priv key.keyType known
    rw [held] at here
    refine ⟨nofun, ?_, rfl⟩
    rintro _ ⟨⟩
    exact here
  have edFit : SeedHeld payloads (edKey X) ⟨some edSeed, w.view edPub⟩ := ⟨edSeed, rfl, ed⟩
  have diliFit : SeedHeld payloads (diliKey X) ⟨some diliSeed, w.view diliPub⟩ := ⟨diliSeed, rfl, dili⟩
  refine (ensureAsymmetricMaterial_spec lawful short founding_awake excused candid edFit diliFit w
    ⟨awake, loads (edKey X) edSeed (by decide : keyTypeOf edPriv = some ktEdSeed) ed, loads (diliKey X)
      diliSeed (by decide : keyTypeOf diliPriv = some ktDiliSeed) dili⟩).mono ?_
  rintro _ last ⟨awake', identified⟩ published rfl
  obtain ⟨⟨edNext, edSeed', edBecomes, edAt, edKnown, edDerived, _⟩,
    diliNext, diliSeed', diliBecomes, diliAt, diliKnown, diliDerived, _⟩ := identified
  have edSame := edBecomes.seed edSeed rfl
  have diliSame := diliBecomes.seed diliSeed rfl
  refine ⟨awake', awake'.live ⟨edSeed, edSame, ed⟩ ⟨diliSeed, diliSame, dili⟩ edAt diliAt, ?_, ?_⟩
  · rw [edKnown] at edSame
    rw [edDerived, Option.some.inj edSame]
    rfl
  · rw [diliKnown] at diliSame
    rw [diliDerived, Option.some.inj diliSame]
    rfl

theorem ensurePrivateDir_waking (path : Path) (member : path ∈ scaffold) :
    Triple (Solo env tid (Sound X (.plain keys) payloads False)) (Waking X (.plain keys) payloads)
      (ensurePrivateDir path) fun _ => Waking X (.plain keys) payloads :=
  (ensurePrivateDir_spec (party_solo env tid _) keeps_waking path member excused).weaken
    fun _ _ ended => ended.1

theorem startRecovered_spec {cached : Bool} {config : KeyManagerConfig} {edSeed diliSeed : Fixed 32}
    (lawful : X.Lawful) (short : ShortKeys X) (candid : env.Candid True)
    (ed : payloads edPriv = some edSeed.1) (dili : payloads diliPriv = some diliSeed.1) :
    Triple (Solo env tid (Sound X (.plain keys) payloads False))
      (fun w => Awake X (.plain keys) payloads mk w ∧ LiveUnder X payloads mk w.view)
      (do
        let rootMk ← loadMk
        Program.done (← call (.arenaMap config.arenaCapacity))
        let publicKeys ← ensureAsymmetricMaterial X rootMk config.publicCachePolicy
        cacheMk cached rootMk
        scheduleRotation config
        return publicKeys : Prog PublicKeys)
      fun result w => ∀ published, result = .ok published → ∃ mk, InService X cached mk w ∧ keys mk ∧
        Identity X keys payloads mk edSeed diliSeed published w := by
  have failed : ∀ (e : LithiumError) (w : World) published,
      (.error e : Except LithiumError PublicKeys) = .ok published → ∃ mk, InService X cached mk w ∧
        keys mk ∧ Identity X keys payloads mk edSeed diliSeed published w :=
    fun _ _ _ impossible => by cases impossible
  refine Triple.bind (loadMk_spec fun w here => here.1.provided.1) (fun rootMk => ?_) fun e w _ => failed e w
  rintro w ⟨here, answers⟩
  cases answers.ok
  refine arenaMap_spec (fun w => Awake X (.plain keys) payloads mk w ∧ LiveUnder X payloads mk w.view)
    excused ?_ (fun e w _ _ => failed e w) w here
  refine Triple.bind (ensureAsymmetricMaterial_awake lawful short candid ed dili) (fun published => ?_)
    fun e w _ => failed e w
  refine Triple.mono (Triple.bind (cacheMk_waking (Identity X keys payloads mk edSeed diliSeed published)
    fun w here => here.cache _) (fun _ => ?_)
    fun e w _ => failed e w) (fun w here => here published rfl) fun _ _ => id
  refine Triple.mono (Triple.bind (scheduleRotation_spec _ excused) (fun _ => ?_) fun e w _ => failed e w)
    (fun w here => here rfl) fun _ _ => id
  rintro w ⟨⟨here, copied⟩, _⟩ _ ⟨⟩
  have sealing : w.control.clientMk cached = some mk := by
    cases cached with
    | false => exact here.awake.provided.1
    | true => exact copied rfl
  exact ⟨mk, ⟨here.awake.provided.1, sealing, here.awake.unmarked, here.live.opensUnder, here.awake.tidy,
    here.awake.idle.1⟩, here.awake.provided.2, here⟩

/-- A fault-free start on what a crash left. If it succeeds the manager is in service with
everything that was held, and publishes the keys that belong to the sealed seeds. -/
theorem startWithConfig_waking {cached : Bool} {config : KeyManagerConfig} {edSeed diliSeed : Fixed 32}
    (lawful : X.Lawful) (short : ShortKeys X) (faultless : env.faults = false)
    (ed : payloads edPriv = some edSeed.1) (dili : payloads diliPriv = some diliSeed.1) :
    Triple (Solo env tid (Sound X (.plain keys) payloads False)) (Waking X (.plain keys) payloads)
      (startWithConfig X cached config) fun result w => ∀ published, result = .ok published →
        ∃ mk, InService X cached mk w ∧ keys mk ∧
          Identity X keys payloads mk edSeed diliSeed published w := by
  have failed : ∀ (e : LithiumError) (w : World) published,
      (.error e : Except LithiumError PublicKeys) = .ok published → ∃ mk, InService X cached mk w ∧
        keys mk ∧ Identity X keys payloads mk edSeed diliSeed published w :=
    fun _ _ _ impossible => by cases impossible
  have sighted : env.Sighted := .of_faultless faultless
  unfold startWithConfig
  split
  · exact Triple.done fun w _ => failed _ w
  refine Triple.bind (ensurePrivateDir_waking rootDir (by decide)) (fun _ => ?_) fun e w _ => failed e w
  refine Triple.bind (ensurePrivateDir_waking pubDir (by decide)) (fun _ => ?_) fun e w _ => failed e w
  refine Triple.bind (ensurePrivateDir_waking privDir (by decide)) (fun _ => ?_) fun e w _ => failed e w
  refine Triple.bind (ensurePrivateDir_waking secretsDir (by decide)) (fun _ => ?_) fun e w _ => failed e w
  refine Triple.bind (acquireExclusiveLock_waking faultless _) (fun _ => ?_) fun e w _ => failed e w
  refine Triple.mono (Triple.bind (ensureMk_waking faultless) (fun _ => ?_) fun e w _ => failed e w)
    (fun w here => here rfl) fun _ _ => id
  refine Triple.bind recover_waking (fun _ => ?_) fun e w _ => failed e w
  refine Triple.mono (Triple.exists_pre fun mk => ?_) (fun w here => here rfl) fun _ _ => id
  rintro w ⟨provided, unmarked, live, tidy, idle⟩
  have awake : Awake X (.plain keys) payloads mk w :=
    ⟨provided, unmarked, tidy, idle, fun path keyType known _ => live path keyType known⟩
  exact startRecovered_spec lawful short (.of_faultless faultless) ed dili w ⟨awake, live⟩

end
end Lithium.Keys
