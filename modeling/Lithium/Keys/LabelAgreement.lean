import Lithium.Keys.MixedStore

/-! Callers that ask for the secret of one label at the same time. What a caller finds in the
label's file, or puts where no file was, is what every other caller is given, as long as no
caller puts its file in the place of another's. A link never does that; a rename can. -/
namespace Lithium.Keys
open Effects Storage

/-- A live manager whose store is in order: the key clients have is the provider's, no
rotation is pending, and every keyfile opens. -/
structure InService (X : Crypto) (cached : Bool) (mk : Key) (w : World) : Prop where
  provided : w.control.providerMk = some mk
  sealing : w.control.clientMk cached = some mk
  unmarked : w.view readyPath = none
  opens : OpensUnder X mk w.view
  tidy : Tidy w
  live : w.control.poisoned = false

/-- The files that are there stay as they are. -/
structure Lasts (w w' : World) : Prop where
  alike : Alike w w'
  files : ∀ path node, w.view path = some node → w'.view path = some node

/-- What the file of a label holds, if it opens. -/
def secretAt (X : Crypto) (cached : Bool) (label : Bytes) (w : World) : Option Bytes :=
  (w.control.clientMk cached).bind fun mk =>
    (loadNode X (w.view (labelSecretPath label)) mk (labelKeyType label)).toOption

def FoundAt (X : Crypto) (cached : Bool) (label payload : Bytes) (w : World) : Prop :=
  validateSecretLabel label = .ok () ∧ ∃ mk, w.control.clientMk cached = some mk ∧
    loadNode X (w.view (labelSecretPath label)) mk (labelKeyType label) = .ok payload

section
variable {X : Crypto} {cached : Bool} {mk : Key} {label payload : Bytes} {w w' w'' : World} {tid : Tid}

theorem InService.congr (service : InService X cached mk w) (alike : Alike w w')
    (view : w'.view = w.view) (tidy : Tidy w') : InService X cached mk w' where
  provided := alike.provider.trans service.provided
  sealing := (alike.clientMk cached).trans service.sealing
  unmarked := view ▸ service.unmarked
  opens := view ▸ service.opens
  tidy := tidy
  live := alike.poisoned.trans service.live

theorem Lasts.same (alike : Alike w w') (view : w'.view = w.view) : Lasts w w' :=
  ⟨alike, fun path node there => by rw [view, there]⟩

theorem Lasts.trans (first : Lasts w w') (second : Lasts w' w'') : Lasts w w'' :=
  ⟨first.alike.trans second.alike, fun path node there =>
    second.files path node (first.files path node there)⟩

theorem secretAt_eq_some : secretAt X cached label w = some payload ↔
    ∃ mk, w.control.clientMk cached = some mk ∧
      loadNode X (w.view (labelSecretPath label)) mk (labelKeyType label) = .ok payload := by
  rw [secretAt, Option.bind_eq_some_iff]
  refine exists_congr fun mk => and_congr_right fun _ => ?_
  cases loadNode X (w.view (labelSecretPath label)) mk (labelKeyType label) with
  | error e => exact ⟨nofun, nofun⟩
  | ok opened => exact ⟨fun same => congrArg _ (Option.some.inj same), fun same => by cases same; rfl⟩

/-- It is sealed under the provider's key. -/
theorem InService.loads (service : InService X cached mk w)
    (found : secretAt X cached label w = some payload) :
    loadNode X (w.fs.get (labelSecretPath label)) mk (labelKeyType label) = .ok payload := by
  obtain ⟨mk', sealing, loads⟩ := secretAt_eq_some.mp found
  rw [service.sealing] at sealing
  cases sealing
  rw [← view_of_visible (labelPath_storable label).1]
  exact loads

theorem Lasts.secretAt (lasts : Lasts w w') (found : secretAt X cached label w = some payload) :
    secretAt X cached label w' = some payload := by
  obtain ⟨mk, sealing, loads⟩ := secretAt_eq_some.mp found
  obtain ⟨node, _, there, _⟩ := loadNode_ok loads
  refine secretAt_eq_some.mpr ⟨mk, (lasts.alike.clientMk cached).trans sealing, ?_⟩
  rw [lasts.files _ node there, ← there]
  exact loads

theorem InService.put (service : InService X cached mk w) (lawful : X.Lawful) {data : Bytes}
    {draws : SealDraws} (fits : payload.length ≤ maxKeyfileSize - 140)
    (sealed : sealRecord X mk payload (labelKeyType label) draws = .ok data)
    (absent : w.view (labelSecretPath label) = none)
    (step : Step tid (Function.update w.view (labelSecretPath label) (some (privateFile data))) w w') :
    InService X cached mk w' ∧ Lasts w w' ∧ secretAt X cached label w' = some payload := by
  have alike : Alike w w' := .of_control step.control
  have sealing := (alike.clientMk cached).trans service.sealing
  refine ⟨⟨alike.provider.trans service.provided, sealing, ?_, ?_, step.tidy service.tidy,
    alike.poisoned.trans service.live⟩, ⟨alike, fun path node there => ?_⟩,
    secretAt_eq_some.mpr ⟨mk, sealing, ?_⟩⟩
  · rw [step.view, Function.update_of_ne (apart_of_live (keyTypeOf_labelPath label) rotate_files_below.1)]
    exact service.unmarked
  · rw [step.view]
    exact service.opens.put lawful fits sealed
  · rw [step.view, Function.update_of_ne fun same => ?_, there]
    rw [same, absent] at there
    cases there
  · rw [step.view, Function.update_self]
    exact loadNode_sealed lawful fits sealed

/-- A fault-free rotation succeeds and keeps what every label holds. -/
theorem rotateLocked_inService (lawful : X.Lawful) {env : Env} (faultless : env.faults = false)
    (tid : Tid) (service : InService X cached mk w) :
    ∃ strong, strong w ∧ Meets (.alone (sem env tid) strong) (fun _ last =>
      (∃ mk, InService X cached mk last.unlocked) ∧ ∀ label payload,
        secretAt X cached label w = some payload →
        secretAt X cached label last.unlocked = some payload) (rotateLocked X cached) w := by
  have finished : FinishedAt X .any (payloadsOf X mk w.view) mk w :=
    ⟨⟨service.provided, trivial⟩, .inl ⟨service.unmarked, liveUnder_payloadsOf service.opens,
      fun _ _ _ _ _ => trivial⟩⟩
  have frame : Frame w False w := ⟨rfl, .refl w, .inr service.tidy⟩
  have sighted : env.Sighted := .of_faultless faultless
  refine ⟨_, frame.sound (.inr ⟨mk, finished⟩), (rotateLocked_settled lawful (Custody.any_upheld X env)
    (fun none : False => none.elim) (fun _ => ⟨faultless, id⟩) cached w
    ⟨⟨finished, frame⟩, service.unmarked⟩).mono ?_⟩
  rintro (e | _) last ⟨sound, ended⟩
  · exact ended.1.elim
  · obtain ⟨mk', ⟨here, cleared⟩, control, _⟩ := ended
    have sealing : last.control.clientMk cached = some mk' := by
      rw [control]
      cases cached <;> rfl
    have live : last.control.poisoned = false := by
      rw [control]
      exact service.live
    refine ⟨⟨mk', here.1.1, sealing, cleared.unmarked, here.live.under.opensUnder,
      (sound.2.resolve_left id).control _, live⟩, fun label payload found => ?_⟩
    have loads := service.loads found
    have held := here.live.under (labelSecretPath label) _ (keyTypeOf_labelPath label)
    have known : payloadsOf X mk w.view (labelSecretPath label) = some payload := by
      rw [payloadsOf, keyTypeOf_labelPath, Option.bind_some,
        view_of_visible (labelPath_storable label).1, loads]
      rfl
    rw [known] at held
    exact secretAt_eq_some.mpr ⟨mk', sealing, held⟩

end

section
variable {X : Crypto} {cached : Bool} {env : Tid → Env} {ops : Tid → Operation}
  {mode : CreateNewMode} {allowed : Tid → Op → World → Bool} {label : Bytes}

def agreementRegime (X : Crypto) (cached : Bool) (env : Tid → Env) (ops : Tid → Operation)
    (allowed : Tid → Op → World → Bool) (label : Bytes) : Regime (Option Bytes) where
  sem i := ((exec (env i) i).allowing (allowed i)).sem
  env := env
  client i := (ops i).isClient = true
  gated := False
  holds w := ∃ mk, InService X cached mk w
  value := secretAt X cached label
  le g g' := ∀ payload, g = some payload → g' = some payload
  stays := Lasts
  meaning step := (Executor.allowing_sem.mp step).1
  gate := False.elim
  le_refl _ _ := id
  le_trans first second payload found := second payload (first payload found)
  stays_trans := .trans
  stays_relock w readers writer := .same (.relock w readers writer) rfl
  holds_relock := fun ⟨mk, service⟩ readers writer =>
    ⟨mk, service.congr (.relock _ readers writer) rfl (service.tidy.control _)⟩
  value_relock _ _ _ := rfl
  grows _ lasts _ := lasts.secretAt
  quiet := fun ⟨mk, service⟩ step =>
    ⟨⟨mk, service.congr (.of_control step.control) step.view (step.tidy service.tidy)⟩,
      .same (.of_control step.control) step.view⟩

/-- A client puts its file where none was. -/
def CreatesOnly (ops : Tid → Operation) (mode : CreateNewMode) (allowed : Tid → Op → World → Bool) :
    Prop :=
  mode = .renameBestEffort → ∀ i tmp target w, (ops i).isClient = true →
    allowed i (.rename tmp target) w = true → w.fs.get target = none

theorem agreement_serves (lawful : X.Lawful) (creates : CreatesOnly ops mode allowed) :
    (agreementRegime X cached env ops allowed label).Serves X cached mode
      (fun payload => payload.length ≤ maxKeyfileSize - 140) (FoundAt X cached) where
  sealing lasts := lasts.alike.clientMk cached
  fresh secret := by
    rw [secret.2]
    decide
  stable found lasts := ⟨found.1, secretAt_eq_some.mp (lasts.secretAt (secretAt_eq_some.mpr found.2))⟩
  loads valid sealing loads := ⟨valid, _, sealing, loads⟩
  puts := by
    intro i label payload mk draws data w w' client valid fits sealed sealing reading room step
    obtain ⟨mk', service⟩ := reading.holds
    rw [service.sealing] at sealing
    cases sealing
    have absent : w.view (labelSecretPath label) = none := by
      cases mode with
      | linkNoReplace => exact room
      | renameBestEffort =>
        obtain ⟨tmp, reply, w₁, step⟩ := room
        rw [view_of_visible (labelPath_storable label).1]
        exact creates rfl i tmp _ w client (Executor.allowing_sem.mp step).2
    obtain ⟨service', lasts, found⟩ := service.put lawful fits sealed absent step
    exact ⟨⟨mk, service'⟩, lasts, valid, secretAt_eq_some.mp found⟩

theorem agreement_manages (lawful : X.Lawful) (creates : CreatesOnly ops mode allowed)
    (small : ∀ i, (ops i).Fits fun payload => payload.length ≤ maxKeyfileSize - 140)
    (faultless : ∀ i, ops i = .rotate → (env i).faults = false) :
    (agreementRegime X cached env ops allowed label).Manages X cached mode ops fun asked payload g =>
      asked = label → validateSecretLabel label = .ok () ∧ g = some payload where
  roles _ := .rfl
  clients := by
    refine ⟨_, _, agreement_serves lawful creates, small, ?_⟩
    rintro _ payload w found _ rfl
    exact ⟨found.1, secretAt_eq_some.mpr found.2⟩
  rotations := by
    rintro i w w' other ⟨mk, service⟩ step
    have called := (Executor.allowing_sem.mp step).1
    obtain rfl : w' = w.lockedBy i := (sem_lockWrite called).2
    have locked : InService X cached mk (w.lockedBy i) :=
      service.congr (.relock w w.control.readers (some i)) rfl (service.tidy.control _)
    obtain ⟨strong, start, meets⟩ := rotateLocked_inService lawful
      (faultless i (Operation.rotate_of_not_client other)) i locked
    refine ⟨strong, start, (meets.fewer fun step => (Executor.allowing_sem.mp step).1).mono ?_⟩
    exact fun _ last ended => ⟨ended.1, ended.2 label⟩
  lasting here grown same := ⟨(here same).1, grown _ (here same).2⟩

/-- Whatever was returned for a label is agreed upon, and is what its file holds whenever no
rotation is at work. -/
theorem agreement (lawful : X.Lawful) (creates : CreatesOnly ops mode allowed)
    (small : ∀ i, (ops i).Fits fun payload => payload.length ≤ maxKeyfileSize - 140)
    (faultless : ∀ i, ops i = .rotate → (env i).faults = false) {mk : Key} {w : World}
    (service : InService X cached mk w) (unlocked : w.control.writer = none ∧ w.control.readers = [])
    {s : System Calls World LithiumError Bytes Tid}
    (run : Interleaves (fun i => ((exec (env i) i).allowing (allowed i)).sem)
      ⟨fun i => (ops i).program X cached mode, w⟩ s) (label : Bytes) :
    ∃ agreed : Option Bytes, (s.world.control.writer = none → agreed = secretAt X cached label s.world ∧
        ∃ mk, InService X cached mk s.world) ∧
      ∀ i secret, ops i = .secret32 label → s.threads i = .done (.ok secret) →
        (secret.length = 32 ∧ validateSecretLabel label = .ok ()) ∧ agreed = some secret := by
  have manages : (agreementRegime X cached env ops allowed label).Manages X cached mode ops _ :=
    agreement_manages lawful creates small faultless
  obtain ⟨agreed, idle, returned⟩ := manages.returned ⟨mk, service⟩ unlocked run
  refine ⟨agreed, fun free => ⟨idle free, manages.holds ⟨mk, service⟩ unlocked run free⟩, ?_⟩
  intro i secret asked finished
  have here := returned i _ finished
  rw [asked] at here
  obtain ⟨length, answered⟩ := here
  exact ⟨⟨length, (answered rfl).1⟩, (answered rfl).2⟩

theorem InService.delivers {mk : Key} {w : World} {secret : Bytes} (service : InService X cached mk w)
    (free : w.control.writer = none) (found : secretAt X cached label w = some secret)
    (length : secret.length = 32) (valid : validateSecretLabel label = .ok ()) {quiet : Env}
    (faultless : quiet.faults = false) (tid : Tid) :
    Delivers (sem quiet tid) (getOrCreateSecret32 X cached mode label) w fun result _ =>
      result = .ok ⟨secret, length⟩ := by
  obtain ⟨mk', sealing, loads⟩ := secretAt_eq_some.mp found
  obtain ⟨node, _, there, regular, _⟩ := loadNode_ok loads
  have seen : ¬ Unseen w.view (labelSecretPath label) := fun unseen => by
    have symlink := unseen node there
    rw [regular] at symlink
    cases symlink
  refine (getOrCreateSecret32_loads faultless service.live free valid sealing seen).mono ?_
  rintro result _ rfl
  rw [loads]
  exact Fixed.fromSlice_val ⟨secret, length⟩

/-- Callers of `get_or_create_secret32` in the mode that links, in any interleaving of their
steps with each other, with other clients and with fault-free rotations: all that return a
secret for one label return the same, which is what the label's file holds whenever no
rotation is at work, and what any call then returns that meets no fault. -/
theorem secrets_agree (lawful : X.Lawful)
    (small : ∀ i, (ops i).Fits fun payload => payload.length ≤ maxKeyfileSize - 140)
    (faultless : ∀ i, ops i = .rotate → (env i).faults = false) {mk : Key} {w : World}
    (service : InService X cached mk w) (unlocked : w.control.writer = none ∧ w.control.readers = [])
    {s : System Calls World LithiumError Bytes Tid}
    (run : Interleaves (fun i => sem (env i) i)
      ⟨fun i => (ops i).program X cached .linkNoReplace, w⟩ s) {i : Tid} {secret : Bytes}
    (asked : ops i = .secret32 label) (returned : s.threads i = .done (.ok secret)) :
    (∀ j other, ops j = .secret32 label → s.threads j = .done (.ok other) → other = secret) ∧
      (s.world.control.writer = none →
        (∃ mk, s.world.control.providerMk = some mk ∧ loadNode X
          (s.world.fs.get (labelSecretPath label)) mk (labelKeyType label) = .ok secret) ∧
        ∀ quiet : Env, quiet.faults = false → ∀ tid,
          Delivers (sem quiet tid) (getOrCreateSecret32 X cached .linkNoReplace label) s.world
            fun result _ => ∃ value, result = .ok value ∧ value.1 = secret) := by
  have links : CreatesOnly ops .linkNoReplace fun _ _ _ => true := fun renames => by cases renames
  have all : Interleaves (fun i => ((exec (env i) i).allowing fun _ _ => true).sem) _ s := run
  obtain ⟨agreed, idle, answers⟩ := agreement lawful links small faultless service unlocked all label
  obtain ⟨⟨length, valid⟩, rfl⟩ := answers i secret asked returned
  refine ⟨fun j other asked' returned' => ?_, fun free => ?_⟩
  · exact (Option.some.inj (answers j other asked' returned').2).symm
  · obtain ⟨found, mk', service'⟩ := idle free
    refine ⟨⟨mk', service'.provided, service'.loads found.symm⟩, fun quiet none tid => ?_⟩
    exact (service'.delivers free found.symm length valid none tid).mono fun _ _ same => ⟨_, same, rfl⟩

/-- No client renames its file onto one that is there. -/
def creatingOnly (ops : Tid → Operation) (i : Tid) : Op → World → Bool
  | .rename _ target, w => !(ops i).isClient || (w.fs.get target).isNone
  | _, _ => true

def creating (env : Tid → Env) (ops : Tid → Operation) (i : Tid) : Executor Calls World Choice :=
  (exec (env i) i).allowing (creatingOnly ops i)

/-- In the mode that renames the same is so in every run in which no client's rename finds a
file at its target. -/
theorem secrets_agree_renaming (lawful : X.Lawful)
    (small : ∀ i, (ops i).Fits fun payload => payload.length ≤ maxKeyfileSize - 140)
    (faultless : ∀ i, ops i = .rotate → (env i).faults = false) {mk : Key} {w : World}
    (service : InService X cached mk w) (unlocked : w.control.writer = none ∧ w.control.readers = [])
    {s : System Calls World LithiumError Bytes Tid}
    (run : Interleaves (fun i => (creating env ops i).sem)
      ⟨fun i => (ops i).program X cached .renameBestEffort, w⟩ s) {i : Tid} {secret : Bytes}
    (asked : ops i = .secret32 label) (returned : s.threads i = .done (.ok secret)) :
    (∀ j other, ops j = .secret32 label → s.threads j = .done (.ok other) → other = secret) ∧
      (s.world.control.writer = none → ∃ mk, s.world.control.providerMk = some mk ∧
        loadNode X (s.world.fs.get (labelSecretPath label)) mk (labelKeyType label) = .ok secret) := by
  have creates : CreatesOnly ops .renameBestEffort (creatingOnly ops) := by
    intro _ i tmp target w client granted
    simpa [creatingOnly, client] using granted
  obtain ⟨agreed, idle, answers⟩ := agreement lawful creates small faultless service unlocked run label
  obtain ⟨_, rfl⟩ := answers i secret asked returned
  refine ⟨fun j other asked' returned' => ?_, fun free => ?_⟩
  · exact (Option.some.inj (answers j other asked' returned').2).symm
  · obtain ⟨found, mk', service'⟩ := idle free
    exact ⟨mk', service'.provided, service'.loads found.symm⟩

end
def twoCallers : Tid → Operation
  | 0 => .rotate
  | 1 | 2 => .secret32 [0xcd]
  | _ => .sign

theorem twoCallers_fits (i : Tid) :
    (twoCallers i).Fits fun payload => payload.length ≤ maxKeyfileSize - 140 := by
  match i with
  | 0 | 1 | 2 | _ + 3 => trivial

theorem sample_inService : InService tagged false (uniform 0) sample := by
  obtain ⟨mk, provided, unmarked, live⟩ := sample_settled
  cases provided
  exact ⟨rfl, rfl, unmarked, live.opensUnder, sample_tidy, rfl⟩

/-- A caller stops before its `nth` call, another creates the secret, and the first goes on. -/
def race (exec : Tid → Executor Calls World Choice) (mode : CreateNewMode) (nth : Nat) :
    System Calls World LithiumError Bytes Tid :=
  (((taggedManager false mode twoCallers sample).advance exec 1 (plainly 2 someLeaf) nth).advance
    exec 2 (plainly 3 someLeaf) 100).advance exec 1 (plainly 2 someLeaf) 100

theorem race_interleaves (exec : Tid → Executor Calls World Choice) (mode : CreateNewMode) (nth : Nat) :
    Interleaves (fun i => (exec i).sem) (taggedManager false mode twoCallers sample)
      (race exec mode nth) :=
  ((System.advance_interleaves _ 1 _ nth _).trans (System.advance_interleaves _ 2 _ 100 _)).trans
    (System.advance_interleaves _ 1 _ 100 _)

/-- The first caller is about to link its file when the second links its own, and both return
the second one's secret; it is what the file holds after a rotation. -/
theorem secrets_agree_sample :
    ∃ s, Interleaves (sem (sampleEnv false)) (taggedManager false .linkNoReplace twoCallers sample) s ∧
      ((s.threads 1).outcome = some (.ok (uniform 3).1) ∧
        s.world.control.providerMk = some (uniform 1)) ∧
      ∃ mk, s.world.control.providerMk = some mk ∧ loadNode tagged
        (s.world.fs.get (labelSecretPath [0xcd])) mk (labelKeyType [0xcd]) = .ok (uniform 3).1 := by
  have checked : let s := ((race (exec (sampleEnv false)) .linkNoReplace 15).advance
        (exec (sampleEnv false)) 0 (plainly 1 someLeaf) 200)
      ((s.threads 1).outcome = some (.ok (uniform 3).1) ∧
        s.world.control.providerMk = some (uniform 1)) ∧ s.world.control.writer = none := by
    decide +kernel
  obtain ⟨reached, free⟩ := checked
  have run : Interleaves (fun i => sem (sampleEnv false) i) _ _ :=
    (race_interleaves (exec (sampleEnv false)) .linkNoReplace 15).trans
      (System.advance_interleaves _ 0 (plainly 1 someLeaf) 200 _)
  have agreed := secrets_agree tagged_lawful twoCallers_fits (fun _ _ => rfl) sample_inService
    ⟨rfl, rfl⟩ run rfl (Program.eq_done reached.1)
  exact ⟨_, run, reached, (agreed.2 free).1⟩

/-- In the mode that renames the first caller replaces the second one's file: each returns
its own secret, and the second one's is lost. -/
theorem secrets_disagree :
    InService tagged false (uniform 0) sample ∧ ∃ s,
      Interleaves (sem (sampleEnv false)) (taggedManager false .renameBestEffort twoCallers sample) s ∧
      (s.threads 1).outcome = some (.ok (uniform 2).1) ∧
      (s.threads 2).outcome = some (.ok (uniform 3).1) ∧
      s.world.control.providerMk = some (uniform 0) ∧
      (loadNode tagged (s.world.fs.get (labelSecretPath [0xcd])) (uniform 0)
        (labelKeyType [0xcd])).toOption = some (uniform 2).1 := by
  have checked : let s := race (exec (sampleEnv false)) .renameBestEffort 16
      (s.threads 1).outcome = some (.ok (uniform 2).1) ∧
        (s.threads 2).outcome = some (.ok (uniform 3).1) ∧
        s.world.control.providerMk = some (uniform 0) ∧
        (loadNode tagged (s.world.fs.get (labelSecretPath [0xcd])) (uniform 0)
          (labelKeyType [0xcd])).toOption = some (uniform 2).1 := by
    decide +kernel
  exact ⟨sample_inService, _, race_interleaves (exec (sampleEnv false)) .renameBestEffort 16, checked⟩

/-- A caller that has yet to look whether the file is there loses nothing. -/
theorem secrets_agree_renaming_sample :
    ∃ s, Interleaves (fun i => (creating (fun _ => sampleEnv false) twoCallers i).sem)
        (taggedManager false .renameBestEffort twoCallers sample) s ∧
      ((s.threads 1).outcome = some (.ok (uniform 3).1) ∧
        (s.threads 2).outcome = some (.ok (uniform 3).1)) ∧
      ∃ mk, s.world.control.providerMk = some mk ∧ loadNode tagged
        (s.world.fs.get (labelSecretPath [0xcd])) mk (labelKeyType [0xcd]) = .ok (uniform 3).1 := by
  have checked : let s := race (creating (fun _ => sampleEnv false) twoCallers) .renameBestEffort 2
      ((s.threads 1).outcome = some (.ok (uniform 3).1) ∧
        (s.threads 2).outcome = some (.ok (uniform 3).1)) ∧ s.world.control.writer = none := by
    decide +kernel
  obtain ⟨returned, free⟩ := checked
  have run := race_interleaves (creating (fun _ => sampleEnv false) twoCallers) .renameBestEffort 2
  have agreed := secrets_agree_renaming tagged_lawful twoCallers_fits (fun _ _ => rfl) sample_inService
    ⟨rfl, rfl⟩ run rfl (Program.eq_done returned.1)
  exact ⟨_, run, returned, agreed.2 free⟩

end Lithium.Keys
