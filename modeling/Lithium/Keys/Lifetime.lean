import Lithium.Keys.FirstStart
import Lithium.Keys.Restart

/-! The life of a store over many processes. A session is a start that succeeds and whatever
callers then do side by side, fault-free rotations among them, up to a crash at any moment; a
start may be cut off as well. What callers were given in one session is what they are given in
every other: the secrets of labels, what was encrypted under them, and the keys that
signatures verify under. -/
namespace Lithium.Keys
open Effects Storage
open Lithium.Crypto (Suite SignatureSuite Context DoubleSig DualVerifyingKey)

/-- What is remembered of a session: the keys that were published at its start, what callers
asked, and where each of them was at its end. -/
structure Session where
  published : PublicKeys
  tasks : Tid → Task
  threads : Tid → Prog Bytes

def Session.Gave (session : Session) (task : Task) (answer : Bytes) : Prop :=
  ∃ i, session.tasks i = task ∧ session.threads i = .done (.ok answer)

/-- A start of a new process that meets no fault. -/
structure Restarts (w : World) (pid : Nat) (env : Env) : Prop where
  faultless : env.faults = false
  unclaimed : Unclaimed w pid

/-- What a store can become since `first`, with its sessions, the latest in front. -/
inductive Lifetime (A : Suite) (S : SignatureSuite) (cached : Bool) (keys : Key → Prop) (first : World) :
    World → List Session → Prop where
  | new : Lifetime A S cached keys first first []
  | cut {w w' log pid env tid config} : Lifetime A S cached keys first w log → Restarts w pid env →
      Stops (sem env tid) (startWithConfig (storeCrypto A S) cached config) (w.restart pid) w' →
      Lifetime A S cached keys first w' log
  | session {w w' log pid quiet tid config published env tasks s} :
      Lifetime A S cached keys first w log → Restarts w pid quiet →
      config.createNewMode = .linkNoReplace →
      Returns (sem quiet tid) (startWithConfig (storeCrypto A S) cached config) (w.restart pid)
        (.ok published) w' →
      Callers env tasks keys →
      Interleaves (fun i => sem (env i) i)
        ⟨fun i => (tasks i).program A S cached config.createNewMode, w'⟩ s →
      Lifetime A S cached keys first s.world (⟨published, tasks, s.threads⟩ :: log)

/-- A store at rest, with both identity seeds sealed in it. -/
structure Resting (X : Crypto) (keys : Key → Prop) (edSeed diliSeed : Fixed 32) (mk : Key) (w : World) :
    Prop where
  provided : w.control.providerMk = some mk ∧ keys mk
  unmarked : w.view readyPath = none
  opens : OpensUnder X mk w.view
  tidy : Tidy w
  ed : loadNode X (w.view edPriv) mk ktEdSeed = .ok edSeed.1
  dili : loadNode X (w.view diliPriv) mk ktDiliSeed = .ok diliSeed.1

/-- All of a session follows from what the keyfiles hold. -/
structure Session.Follows (A : Suite) (S : SignatureSuite) (edSeed diliSeed : Fixed 32) (held : Payloads)
    (session : Session) : Prop where
  published : session.published = ⟨(S.ed25519Pub edSeed).1, (S.mldsa87Pub diliSeed).1⟩
  answers : ∀ task answer, session.Gave task answer → task.Answered A S held answer

/-- What a store holds after its sessions, if it is recovered. -/
structure Retains (A : Suite) (S : SignatureSuite) (keys : Key → Prop) (edSeed diliSeed : Fixed 32)
    (held : Payloads) (w : World) (log : List Session) : Prop where
  sound : Sound (storeCrypto A S) (.plain keys) held False w
  seeds : SeedsHeld held (edSeed, diliSeed)
  sessions : ∀ session ∈ log, session.Follows A S edSeed diliSeed held

section
variable {A : Suite} {S : SignatureSuite} {cached : Bool} {keys : Key → Prop} {edSeed diliSeed : Fixed 32}
  {mk : Key} {held : Payloads} {first w w' : World} {log : List Session}

theorem storeCrypto_short (A : Suite) (S : SignatureSuite) : ShortKeys (storeCrypto A S) := fun seed => by
  have ed := (S.ed25519Pub seed).2
  have dili := (S.mldsa87Pub seed).2
  constructor
  · show (S.ed25519Pub seed).1.length ≤ maxKeyfileSize
    rw [ed]
    decide
  · show (S.mldsa87Pub seed).1.length ≤ maxKeyfileSize
    rw [dili]
    decide

theorem Resting.retains (resting : Resting (storeCrypto A S) keys edSeed diliSeed mk first) :
    Retains A S keys edSeed diliSeed (payloadsOf (storeCrypto A S) mk first.view) first [] where
  sound := ⟨.inr ⟨mk, resting.provided, .inl ⟨resting.unmarked, liveUnder_payloadsOf resting.opens,
    fun _ _ _ _ _ => trivial⟩⟩, .inr resting.tidy⟩
  seeds := ⟨payloadsOf_eq_some.mpr ⟨_, rfl, resting.ed⟩, payloadsOf_eq_some.mpr ⟨_, rfl, resting.dili⟩⟩
  sessions := fun _ member => nomatch member

theorem Session.Follows.mono {session : Session} {held' : Payloads} (grows : held.Grows held')
    (follows : session.Follows A S edSeed diliSeed held) : session.Follows A S edSeed diliSeed held' :=
  ⟨follows.published, fun task answer gave => grows.answered (follows.answers task answer gave)⟩

/-- A new process finds what was held. -/
theorem Retains.waking {pid : Nat} {env : Env} (retains : Retains A S keys edSeed diliSeed held w log)
    (restarts : Restarts w pid env) : Waking (storeCrypto A S) (.plain keys) held (w.restart pid) :=
  ⟨retains.sound.restart (.inr restarts.unclaimed), rfl, rfl, rfl⟩

theorem Retains.starts {pid : Nat} {env : Env} {tid : Tid} {config : KeyManagerConfig}
    (lawful : (storeCrypto A S).Lawful) (retains : Retains A S keys edSeed diliSeed held w log)
    (restarts : Restarts w pid env) :
    Meets (Solo env tid (Sound (storeCrypto A S) (.plain keys) held False)) (fun result w =>
      ∀ published, result = .ok published → ∃ mk, InService (storeCrypto A S) cached mk w ∧ keys mk ∧
        Identity (storeCrypto A S) keys held mk edSeed diliSeed published w)
      (startWithConfig (storeCrypto A S) cached config) (w.restart pid) :=
  startWithConfig_waking lawful (storeCrypto_short A S) restarts.faultless retains.seeds.1
    retains.seeds.2 _ (retains.waking restarts)

/-- What a manager in service holds is what was held when it started. -/
theorem Identity.grows {X : Crypto} {published : PublicKeys}
    (identity : Identity X keys held mk edSeed diliSeed published w) :
    held.Grows (payloadsOf X mk w.view) := by
  intro path payload live here
  obtain ⟨keyType, known⟩ := Option.isSome_iff_exists.mp live
  exact (identity.live.payloadsOf known).trans here

/-- Over its whole life a store keeps what it held. -/
theorem Lifetime.retains (lawful : (storeCrypto A S).Lawful) (separated : Separated (storeCrypto A S) keys)
    (resting : Resting (storeCrypto A S) keys edSeed diliSeed mk first)
    (life : Lifetime A S cached keys first w log) :
    ∃ held, (payloadsOf (storeCrypto A S) mk first.view).Grows held ∧
      Retains A S keys edSeed diliSeed held w log := by
  induction life with
  | new => exact ⟨_, .refl _, resting.retains⟩
  | cut _ restarts stopped ih =>
    obtain ⟨held, grows, retains⟩ := ih
    have sound := (retains.starts lawful restarts).stops (retains.waking restarts).1 stopped
    exact ⟨held, grows, sound, retains.seeds, retains.sessions⟩
  | @session w w' log pid quiet tid config published env tasks s _ restarts mode returned callers run ih =>
    obtain ⟨held, grows, retains⟩ := ih
    obtain ⟨mk', service, known, identity⟩ :=
      (retains.starts lawful restarts).returns (retains.waking restarts).1 returned published rfl
    rw [mode] at run
    obtain ⟨held', grows', sound, _, answered⟩ := usage_run lawful separated callers service known
      ⟨identity.awake.idle.2.2, identity.awake.idle.2.1⟩ run
    have more : held.Grows held' := identity.grows.trans grows'
    refine ⟨held', grows.trans more, sound, ⟨more _ _ rfl retains.seeds.1, more _ _ rfl retains.seeds.2⟩,
      List.forall_mem_cons.mpr ⟨⟨?_, ?_⟩, fun session member => (retains.sessions session member).mono more⟩⟩
    · exact congrArg₂ PublicKeys.mk identity.ed identity.dili
    · rintro _ answer ⟨i, rfl, finished⟩
      exact answered i answer finished

/-- After a start that succeeds, what is held for a label is what a call returns that meets no
fault. -/
theorem Retains.delivers {pid : Nat} {env quiet : Env} {tid tid' : Tid} {config : KeyManagerConfig}
    {published : PublicKeys} {label : Bytes} {secret : Key} (lawful : (storeCrypto A S).Lawful)
    (retains : Retains A S keys edSeed diliSeed held w log) (restarts : Restarts w pid env)
    (returned : Returns (sem env tid) (startWithConfig (storeCrypto A S) cached config) (w.restart pid)
      (.ok published) w') (has : held.Has label secret.1) (faultless : quiet.faults = false) :
    Delivers (sem quiet tid') (getOrCreateSecret32 (storeCrypto A S) cached .linkNoReplace label) w'
      fun result _ => result = .ok secret := by
  obtain ⟨mk, service, known, identity⟩ :=
    (retains.starts lawful restarts).returns (retains.waking restarts).1 returned published rfl
  have there := identity.grows.has has
  obtain ⟨keyType, typed, loads⟩ := payloadsOf_eq_some.mp there.2
  rw [keyTypeOf_labelPath] at typed
  cases typed
  exact service.delivers identity.awake.idle.2.2 (secretAt_eq_some.mpr ⟨mk, service.sealing, loads⟩)
    secret.2 there.1 faultless tid'

end

/-- The primitives of the small store, with signatures that repeat what they sign. -/
def taggedSuite : Suite := { Crypto.sampleSuite with
  encryptRaw := tagged.encryptRaw
  decryptRaw := tagged.decryptRaw
  hkdf := fun _ ikm _ len => Crypto.fit len ikm }

def repeating : SignatureSuite := { Crypto.listedSuite with
  ed25519Verify := fun _ bytes sig => decide (sig = Crypto.fit 64 bytes)
  mldsa87Verify := fun _ bytes sig => decide (sig = (Crypto.fit 4627 bytes).1) }

theorem taggedSuite_tagging :
    Tagging (storeCrypto taggedSuite repeating) fun key _ _ => tag key :=
  ⟨fun key _ _ => length_tag key, fun _ _ _ _ => rfl, fun _ _ _ _ => rfl⟩

theorem taggedSuite_separated : Separated (storeCrypto taggedSuite repeating) Uniform := by
  intro mk mk' here there apart salt nonce aad dek wrapped encrypted
  have kek : ∀ mk : Key, deriveKek (storeCrypto taggedSuite repeating) mk salt = mk := fun mk =>
    Subtype.ext ((Crypto.fit_long (Nat.le_of_eq mk.2.symm)).trans (List.take_of_length_le mk.2.le))
  have encrypted' : tagged.encryptRaw mk nonce aad dek = some wrapped := kek mk ▸ encrypted
  rw [kek]
  have same : ∀ mk : Key, deriveKek tagged mk salt = mk := fun mk => by simp [deriveKek, tagged, mk.2]
  have refused := tagged_separated mk mk' here there apart salt nonce aad dek wrapped
  rw [same, same] at refused
  exact refused encrypted'

def restingStore : World := sampleWorld
  [(edPriv, sampleRecord (uniform 5).1 ktEdSeed), (diliPriv, sampleRecord (uniform 6).1 ktDiliSeed)]

theorem restingStore_resting : Resting (storeCrypto taggedSuite repeating) Uniform (uniform 5)
    (uniform 6) (uniform 0) restingStore := by
  have opens : opensAll (storeCrypto taggedSuite repeating) (uniform 0) restingStore = true := by
    decide +kernel
  obtain ⟨mk, provided, unmarked, live⟩ := settled_of_opensAll opens rfl (by decide +kernel)
  cases provided
  exact ⟨⟨rfl, uniform_uniform 0⟩, unmarked, live.opensUnder,
    tidy_of_check (by decide +kernel) (.inl (by decide +kernel)), by decide +kernel, by decide +kernel⟩

def samplePublished : PublicKeys := ⟨(uniform 5).1, (Crypto.fit 2592 (uniform 6).1).1⟩

def startOn (w : World) (pid : Nat) : Prog PublicKeys × World :=
  follow (exec (sampleEnv false) 9) (plainly 1 someLeaf) 300 0
    (startWithConfig (storeCrypto taggedSuite repeating) false (sampleConfig .repairMissingOnly))
    (w.restart pid)

/-- A start with this process number meets no trace of an earlier one, and succeeds. -/
def startsOn (w : World) (pid : Nat) : Bool :=
  unclaimedBy w pid && decide ((startOn w pid).1.outcome = some (.ok samplePublished))

def samplesFrom (tasks : Tid → Task) (w : World) : System Calls World LithiumError Bytes Tid :=
  ⟨fun i => (tasks i).program taggedSuite repeating false .linkNoReplace, w⟩

theorem Lifetime.sample {w : World} {log : List Session} {pid : Nat} {tasks : Tid → Task}
    (life : Lifetime taggedSuite repeating false Uniform restingStore w log) (starts : startsOn w pid = true)
    (fits : ∀ i, (tasks i).Fits) {s : System Calls World LithiumError Bytes Tid}
    (run : Interleaves (fun i => sem (sampleEnv false) i) (samplesFrom tasks (startOn w pid).2) s) :
    Lifetime taggedSuite repeating false Uniform restingStore s.world
      (⟨samplePublished, tasks, s.threads⟩ :: log) := by
  obtain ⟨unclaimed, started⟩ := Bool.and_eq_true_iff.mp starts
  have restarts : Restarts w pid (sampleEnv false) := ⟨rfl, fun _ _ => unclaimed_of_check unclaimed⟩
  have callers : Callers (fun _ => sampleEnv false) tasks Uniform :=
    ⟨fits, fun _ _ => rfl, fun _ => sampleEnv_fresh false⟩
  have mode : (sampleConfig .repairMissingOnly).createNewMode = .linkNoReplace := rfl
  exact life.session restarts mode (follow_returns _ _ _ _ (of_decide_eq_true started)) callers run

def firstTasks : Tid → Task
  | 0 => .rotate
  | 1 => .secret32 [0xcd]
  | 2 => .encrypt [0xcd] [7, 8] [1]
  | _ => .sign [9] Crypto.rootA

def sampleCiphertext : Bytes := 1 :: List.replicate 12 3 ++ [7, 8] ++ List.replicate 16 2

def secondTasks : Tid → Task
  | 1 => .secret32 [0xcd]
  | _ => .decrypt [0xcd] sampleCiphertext [1]

/-- Three callers are served, and a rotation is cut off with its marker written and the provider
not yet switched. -/
def firstRun : System Calls World LithiumError Bytes Tid :=
  ((((samplesFrom firstTasks (startOn restingStore 2).2).advance (exec (sampleEnv false)) 1
    (plainly 2 someLeaf) 100).advance (exec (sampleEnv false)) 2 (plainly 3 someLeaf) 100).advance
    (exec (sampleEnv false)) 3 (plainly 3 someLeaf) 100).advance (exec (sampleEnv false)) 0
    (plainly 1 someLeaf) 120

/-- The next process brings the rotation to its end as it starts, and serves two callers. -/
def secondRun : System Calls World LithiumError Bytes Tid :=
  ((samplesFrom secondTasks (startOn firstRun.world 3).2).advance (exec (sampleEnv false)) 1
    (plainly 4 someLeaf) 100).advance (exec (sampleEnv false)) 2 (plainly 4 someLeaf) 100

def firstSession : Session := ⟨samplePublished, firstTasks, firstRun.threads⟩
def secondSession : Session := ⟨samplePublished, secondTasks, secondRun.threads⟩

def Session.served (session : Session) (i : Tid) : Bool := (session.threads i).outcome.any Except.isOk

theorem Session.served_gave {session : Session} {i : Tid} (served : session.served i = true) :
    ∃ answer, session.Gave (session.tasks i) answer := by
  unfold Session.served at served
  cases finished : (session.threads i).outcome with
  | none => rw [finished] at served; cases served
  | some result =>
    cases result with
    | error e => rw [finished] at served; cases served
    | ok answer => exact ⟨answer, i, rfl, Program.eq_done finished⟩

/-- Both starts succeed; the first session ends within the rotation; all other callers have
their answers. -/
theorem sessions_checked : startsOn restingStore 2 = true ∧ startsOn firstRun.world 3 = true ∧
    (firstRun.world.control.writer = some 0 ∧ (firstRun.world.view readyPath).isSome = true ∧
      firstRun.world.control.providerMk = some (uniform 0)) ∧
    (firstSession.threads 1).outcome = some (.ok (uniform 2).1) ∧
    (firstSession.threads 2).outcome = some (.ok sampleCiphertext) ∧
    firstSession.served 3 = true ∧ secondSession.served 1 = true ∧ secondSession.served 2 = true := by
  decide +kernel

theorem two_sessions :
    Lifetime taggedSuite repeating false Uniform restingStore secondRun.world [secondSession, firstSession] := by
  obtain ⟨starts, again, _⟩ := sessions_checked
  have fits : ∀ i, (firstTasks i).Fits := fun i => by
    unfold firstTasks
    split <;> trivial
  have fits' : ∀ i, (secondTasks i).Fits := fun i => by
    unfold secondTasks
    split <;> trivial
  have first : Lifetime taggedSuite repeating false Uniform restingStore firstRun.world [firstSession] :=
    Lifetime.new.sample starts fits
      ((((System.advance_interleaves _ 1 _ _ _).trans (System.advance_interleaves _ 2 _ _ _)).trans
        (System.advance_interleaves _ 3 _ _ _)).trans (System.advance_interleaves _ 0 _ _ _))
  exact first.sample again fits'
    ((System.advance_interleaves _ 1 _ _ _).trans (System.advance_interleaves _ 2 _ _ _))

section
variable {A : Suite} {S : SignatureSuite} {cached : Bool} {keys : Key → Prop} {edSeed diliSeed : Fixed 32}
  {mk : Key} {held : Payloads} {first w w' : World} {log : List Session}

/-- The task asks for what is held for a label. -/
def Task.Asks (label : Bytes) (task : Task) : Prop :=
  task = .secret32 label ∨ ∃ generate, task = .blob label generate

theorem Task.Asks.has {label answer : Bytes} {task : Task} (asks : task.Asks label)
    (answered : task.Answered A S held answer) : held.Has label answer := by
  obtain rfl | ⟨generate, rfl⟩ := asks
  · exact answered.1
  · exact answered

/-- Any two callers that asked for what is held for a label, in whatever sessions, were given
the same; it is what the label held at first, if it held anything; and a call after the next
successful start returns it. -/
theorem secrets_survive (lawful : (storeCrypto A S).Lawful) (separated : Separated (storeCrypto A S) keys)
    (resting : Resting (storeCrypto A S) keys edSeed diliSeed mk first)
    (life : Lifetime A S cached keys first w log) {one : Session} (member : one ∈ log) {label answer : Bytes}
    {task : Task} (asks : task.Asks label) (gave : one.Gave task answer) :
    (∀ other ∈ log, ∀ task' answer', task'.Asks label → other.Gave task' answer' → answer' = answer) ∧
      (∀ payload, loadNode (storeCrypto A S) (first.view (labelSecretPath label)) mk (labelKeyType label) =
        .ok payload → payload = answer) ∧
      ∀ (fits : answer.length = 32) {pid env tid config published w'}, Restarts w pid env →
        Returns (sem env tid) (startWithConfig (storeCrypto A S) cached config) (w.restart pid)
          (.ok published) w' → ∀ quiet : Env, quiet.faults = false → ∀ tid',
        Delivers (sem quiet tid') (getOrCreateSecret32 (storeCrypto A S) cached .linkNoReplace label) w'
          fun result _ => result = .ok ⟨answer, fits⟩ := by
  obtain ⟨held, grows, retains⟩ := life.retains lawful separated resting
  have has : held.Has label answer := asks.has ((retains.sessions one member).answers _ _ gave)
  refine ⟨fun other member' task' answer' asks' gave' => ?_, fun payload loads => ?_, ?_⟩
  · have has' : held.Has label answer' :=
      asks'.has ((retains.sessions other member').answers _ _ gave')
    exact Option.some.inj (has'.2.symm.trans has.2)
  · have kept := grows (labelSecretPath label) payload (by rw [keyTypeOf_labelPath]; rfl)
      (payloadsOf_eq_some.mpr ⟨_, keyTypeOf_labelPath label, loads⟩)
    exact Option.some.inj (kept.symm.trans has.2)
  · intro fits pid env tid config published w' restarts returned quiet faultless tid'
    have has : held.Has label (⟨answer, fits⟩ : Key).1 := has
    exact retains.delivers lawful restarts returned has faultless

/-- What the second session is given for the label is what the first was, whose rotation was cut
off. -/
theorem secrets_survive_sample : firstRun.world.control.writer = some 0 ∧
    ∃ answer, secondSession.Gave (.secret32 [0xcd]) answer ∧ answer = (uniform 2).1 := by
  obtain ⟨_, _, ⟨rotating, _⟩, first, _, _, served, _⟩ := sessions_checked
  obtain ⟨answer, gave⟩ := Session.served_gave served
  have before : firstSession.Gave (.secret32 [0xcd]) (uniform 2).1 := ⟨1, rfl, Program.eq_done first⟩
  refine ⟨rotating, answer, gave, ?_⟩
  exact (secrets_survive taggedSuite_tagging.lawful taggedSuite_separated restingStore_resting
    two_sessions (.tail _ (.head _)) (.inl rfl) before).1 secondSession (.head _) _ answer (.inl rfl) gave

/-- What is returned is returned by what follows as well. -/
theorem Delivers.bind_pure {α β : Type} {program : Prog α} {quiet : Env} {tid : Tid} {value : α}
    {rest : α → Prog β} {outcome : Except LithiumError β} (delivers : Delivers (sem quiet tid) program w
      fun result _ => result = .ok value) (follows : rest value = .done outcome) :
    Delivers (sem quiet tid) (program.bind rest) w fun result _ => result = outcome := by
  obtain ⟨⟨result, last, returned⟩, ends⟩ := delivers
  refine ⟨⟨outcome, last, ?_⟩, fun result' last' returned' => ?_⟩
  · cases ends result last returned
    exact returned.followed (follows ▸ .refl _)
  · obtain ⟨value', w₁, before, after⟩ | ⟨e, _, failed⟩ := returned'.of_bind
    · cases ends _ _ before
      rw [follows] at after
      obtain ⟨ops, path⟩ := after
      cases path
      rfl
    · cases ends _ _ failed

/-- What was encrypted under a label in one session decrypts to the same in every session, and
after the next successful start. -/
theorem ciphertexts_survive (lawful : (storeCrypto A S).Lawful)
    (separated : Separated (storeCrypto A S) keys)
    (resting : Resting (storeCrypto A S) keys edSeed diliSeed mk first)
    (life : Lifetime A S cached keys first w log) {one : Session} (member : one ∈ log)
    {label plaintext aad ciphertext : Bytes} (gave : one.Gave (.encrypt label plaintext aad) ciphertext) :
    (∀ other ∈ log, ∀ answer, other.Gave (.decrypt label ciphertext aad) answer → answer = plaintext) ∧
      ∀ {pid env tid config published w'}, Restarts w pid env →
        Returns (sem env tid) (startWithConfig (storeCrypto A S) cached config) (w.restart pid)
          (.ok published) w' → ∀ quiet : Env, quiet.faults = false → ∀ tid',
        Delivers (sem quiet tid') (decryptWithLabel A S cached .linkNoReplace label ciphertext aad) w'
          fun result _ => result = .ok plaintext := by
  obtain ⟨held, _, retains⟩ := life.retains lawful separated resting
  obtain ⟨dek, ctx, nonce, has, made, sealed⟩ := (retains.sessions one member).answers _ _ gave
  have opened := Crypto.decrypt_encryptFramed lawful.toAeadCorrect sealed
  refine ⟨fun other member' answer gave' => ?_, fun restarts returned quiet faultless tid' => ?_⟩
  · obtain ⟨dek', ctx', has', made', opened'⟩ := (retains.sessions other member').answers _ _ gave'
    obtain rfl : dek' = dek := Subtype.ext (Option.some.inj (has'.2.symm.trans has.2))
    obtain rfl : ctx' = ctx := Except.ok.inj (made'.symm.trans made)
    exact Except.ok.inj (opened'.symm.trans opened)
  · refine Delivers.bind_pure (retains.delivers lawful restarts returned has faultless) ?_
    rw [made]
    exact congrArg Program.done opened

theorem ciphertexts_survive_sample : firstRun.world.control.writer = some 0 ∧
    ∃ answer, secondSession.Gave (.decrypt [0xcd] sampleCiphertext [1]) answer ∧ answer = [7, 8] := by
  obtain ⟨_, _, ⟨rotating, _⟩, _, first, _, _, served⟩ := sessions_checked
  obtain ⟨answer, gave⟩ := Session.served_gave served
  have before : firstSession.Gave (.encrypt [0xcd] [7, 8] [1]) sampleCiphertext :=
    ⟨2, rfl, Program.eq_done first⟩
  refine ⟨rotating, answer, gave, ?_⟩
  exact (ciphertexts_survive taggedSuite_tagging.lawful taggedSuite_separated
    restingStore_resting two_sessions (.tail _ (.head _)) before).1 secondSession (.head _) answer gave

/-- Both signature schemes verify what they signed. -/
structure SignsVerifiably (S : SignatureSuite) : Prop where
  ed : ∀ seed bytes, S.ed25519Key (S.ed25519Pub seed) = true ∧
    S.ed25519Verify (S.ed25519Pub seed) bytes (S.ed25519Sign seed bytes) = true
  dili : ∀ seed bytes, S.mldsa87Key (S.mldsa87Pub seed).1 = true ∧
    S.mldsa87Signature (S.mldsa87Sign seed bytes).1 = true ∧
    S.mldsa87Verify (S.mldsa87Pub seed).1 bytes (S.mldsa87Sign seed bytes).1 = true

theorem repeating_verifiably : SignsVerifiably repeating where
  ed _ _ := ⟨rfl, decide_eq_true rfl⟩
  dili _ bytes := ⟨rfl, decide_eq_true (Crypto.fit 4627 bytes).2, decide_eq_true rfl⟩

theorem SignsVerifiably.verify (verifiably : SignsVerifiably S) {message : Bytes} {ctx : Context}
    {sig : DoubleSig} (signed : Crypto.signDouble S message edSeed.1 diliSeed.1 ctx = .ok sig) :
    DoubleSig.fromBytes sig.toBytes = .ok sig ∧
      (DualVerifyingKey.ofSeeds S edSeed diliSeed).verify S message sig ctx = true := by
  rw [Crypto.signDouble_eq] at signed
  cases signed
  refine ⟨DoubleSig.codec.decode_encode _ (S.mldsa87Sign diliSeed (ctx.bindAad message)).2, ?_⟩
  obtain ⟨edKey, edVerify⟩ := verifiably.ed edSeed (ctx.bindAad message)
  obtain ⟨diliKey, diliSig, diliVerify⟩ := verifiably.dili diliSeed (ctx.bindAad message)
  simp only [DualVerifyingKey.verify, Crypto.verifyDouble, DualVerifyingKey.ofSeeds, Bool.and_eq_true]
  rw [Crypto.verifySignature_eq_true, Crypto.verifySignatureDili_eq_true]
  simp [edKey, edVerify, diliKey, diliSig, diliVerify]

theorem dualVerifyingKey_published (S : SignatureSuite) (edSeed diliSeed : Fixed 32) :
    dualVerifyingKey ⟨(S.ed25519Pub edSeed).1, (S.mldsa87Pub diliSeed).1⟩ =
      .ok (DualVerifyingKey.ofSeeds S edSeed diliSeed) := by
  rw [dualVerifyingKey, Fixed.fromSlice_val]
  rfl

/-- A double signature that a caller was given in one session verifies under the key that any
session publishes, which is one and the same, and under that of the next successful start. -/
theorem signatures_survive (verifiably : SignsVerifiably S) (lawful : (storeCrypto A S).Lawful)
    (separated : Separated (storeCrypto A S) keys)
    (resting : Resting (storeCrypto A S) keys edSeed diliSeed mk first)
    (life : Lifetime A S cached keys first w log) {one : Session} (member : one ∈ log) {message : Bytes}
    {ctx : Context} {answer : Bytes} (gave : one.Gave (.sign message ctx) answer) :
    ∃ sig, DoubleSig.fromBytes answer = .ok sig ∧ ∃ key : DualVerifyingKey,
      key.verify S message sig ctx = true ∧
      (∀ other ∈ log, dualVerifyingKey other.published = .ok key) ∧
      ∀ {pid env tid config published w'}, Restarts w pid env →
        Returns (sem env tid) (startWithConfig (storeCrypto A S) cached config) (w.restart pid)
          (.ok published) w' → dualVerifyingKey published = .ok key := by
  obtain ⟨held, _, retains⟩ := life.retains lawful separated resting
  obtain ⟨edSeed', diliSeed', sig, ed, dili, signed, rfl⟩ :=
    (retains.sessions one member).answers _ _ gave
  obtain rfl : edSeed' = edSeed := Subtype.ext (Option.some.inj (ed.symm.trans retains.seeds.1))
  obtain rfl : diliSeed' = diliSeed := Subtype.ext (Option.some.inj (dili.symm.trans retains.seeds.2))
  obtain ⟨parsed, verified⟩ := verifiably.verify signed
  refine ⟨sig, parsed, DualVerifyingKey.ofSeeds S edSeed' diliSeed', verified, fun other member' => ?_, ?_⟩
  · rw [(retains.sessions other member').published]
    exact dualVerifyingKey_published S edSeed' diliSeed'
  · intro pid env tid config published w' restarts returned
    obtain ⟨_, _, _, identity⟩ :=
      (retains.starts lawful restarts).returns (retains.waking restarts).1 returned published rfl
    have same : published = ⟨(S.ed25519Pub edSeed').1, (S.mldsa87Pub diliSeed').1⟩ :=
      congrArg₂ PublicKeys.mk identity.ed identity.dili
    rw [same]
    exact dualVerifyingKey_published S edSeed' diliSeed'

theorem signatures_survive_sample : ∃ answer, firstSession.Gave (.sign [9] Crypto.rootA) answer ∧
    ∃ sig key, DoubleSig.fromBytes answer = .ok sig ∧ dualVerifyingKey secondSession.published = .ok key ∧
      key.verify repeating [9] sig Crypto.rootA = true := by
  obtain ⟨_, _, _, _, _, served, _⟩ := sessions_checked
  obtain ⟨answer, gave⟩ := Session.served_gave served
  obtain ⟨sig, parsed, key, verified, published, _⟩ := signatures_survive repeating_verifiably
    taggedSuite_tagging.lawful taggedSuite_separated restingStore_resting two_sessions
    (.tail _ (.head _)) gave
  exact ⟨answer, gave, sig, key, parsed, published secondSession (.head _), verified⟩

end

end Lithium.Keys
