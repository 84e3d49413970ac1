import Lithium.Keys.FileNames
import Lithium.Keys.FirstStart
import Lithium.Keys.Gate

/-! What a rotation will rewrap. Starts and calls on labels, each of which may fail or be cut
short at any call, put nothing into a store but its own files, every keyfile sealed under the
key type that a rotation reads off its name. -/
namespace Lithium.Keys
open Effects Storage

/-- The files below the root are as `allowed`, and those of `kept` are there. -/
structure Stock (allowed : Path → Node → Prop) (kept : Path → Prop) (w : World) : Prop where
  files : ∀ path node, rootDir <:+ path → w.view path = some node → allowed path node
  kept : ∀ path, kept path → w.view path ≠ none
  secrets : w.fs.get secretsDir = none ∨ PrivateDir w secretsDir

section
variable {allowed : Path → Node → Prop} {base kept : Path → Prop} {tid : Tid} {w w' : World}
  {path : Path}

theorem Stock.less {fewer : Path → Prop} (stock : Stock allowed kept w)
    (less : ∀ path, fewer path → kept path) : Stock allowed fewer w :=
  ⟨stock.files, fun path member => stock.kept path (less path member), stock.secrets⟩

theorem Stock.wider {wider : Path → Node → Prop} (stock : Stock allowed kept w)
    (more : ∀ path node, allowed path node → wider path node) : Stock wider kept w :=
  ⟨fun path node inside found => more path node (stock.files path node inside found), stock.kept,
    stock.secrets⟩

theorem Stock.congr (stock : Stock allowed kept w) (same : w'.fs = w.fs) : Stock allowed kept w' := by
  have view : w'.view = w.view := by
    unfold World.view
    rw [same]
  constructor
  · rw [view]
    exact stock.files
  · rw [view]
    exact stock.kept
  · rw [same]
    rcases stock.secrets with missing | ⟨node, found⟩
    · exact .inl missing
    · exact .inr ⟨node, by rw [same]; exact found.1, found.2⟩

theorem Stock.keep (stock : Stock allowed kept w) (there : w.view path ≠ none) :
    Stock allowed (fun p => kept p ∨ p = path) w := by
  refine ⟨stock.files, ?_, stock.secrets⟩
  rintro p (member | rfl)
  · exact stock.kept p member
  · exact there

theorem secretsDir_step {view : View} (step : Step tid view w w')
    (secrets : w.fs.get secretsDir = none ∨ PrivateDir w secretsDir) :
    w'.fs.get secretsDir = none ∨ PrivateDir w' secretsDir := by
  rcases secrets with missing | there
  · exact step.missing secretsDir (by decide) missing
  · exact .inr (step.privateDir there)

theorem stock_steady : Steady tid (Stock allowed kept) := by
  intro w w' stock step
  constructor
  · rw [step.view]
    exact stock.files
  · rw [step.view]
    exact stock.kept
  · exact secretsDir_step step stock.secrets

theorem Stock.put {node : Node} (stock : Stock allowed kept w) (fits : allowed path node)
    (step : Step tid (Function.update w.view path (some node)) w w') :
    Stock allowed (fun p => kept p ∨ p = path) w' := by
  constructor
  · intro p found inside there
    rw [step.view] at there
    by_cases same : p = path
    · subst same
      rw [Function.update_self] at there
      cases there
      exact fits
    · rw [Function.update_of_ne same] at there
      exact stock.files p found inside there
  · intro p member
    rw [step.view]
    by_cases same : p = path
    · rw [same, Function.update_self]
      exact Option.some_ne_none node
    · rw [Function.update_of_ne same]
      exact stock.kept p (member.resolve_right same)
  · exact secretsDir_step step stock.secrets

theorem stock_prunable (outside : ∀ path, kept path → ¬ rotateDir <:+ path) :
    Prunable (Stock allowed kept) := by
  intro w w' stock pruned
  constructor
  · intro path node inside found
    rcases pruned.view.gone path with same | gone
    · exact stock.files path node inside (same.symm.trans found)
    · rw [gone] at found
      cases found
  · intro path member
    rw [pruned.view.outside path (outside path member)]
    exact stock.kept path member
  · rcases stock.secrets with missing | there
    · exact .inl ((pruned.outside secretsDir (by decide)).trans missing)
    · exact .inr (pruned.privateDir (by decide) there)

end

section
variable {X : Crypto} {env : Env} {tid : Tid} {allowed : Path → Node → Prop} {base kept : Path → Prop}
  {α : Type} (more : ∀ path, base path → kept path)

theorem keeps_stock : Keeps (Solo env tid (Stock allowed base)) tid (Stock allowed kept) :=
  keeps_solo stock_steady stock_steady

include more

theorem passing (op : Op) (leaves : leavesFiles op = true) {next : Reply op → Prog α}
    {post : Except LithiumError α → World → Prop}
    (rest : ∀ reply, Triple (Solo env tid (Stock allowed base)) (Stock allowed kept) (next reply) post) :
    Triple (Solo env tid (Stock allowed base)) (Stock allowed kept) ((call op).bind next) post := by
  apply Triple.call (fun _ w => Stock allowed kept w) (alone_stable _ _ _)
  · intro w stock _ reply w' step
    have after := stock.congr (sem_leavesFiles leaves step)
    exact ⟨after.less more, trivial, after⟩
  · exact rest

theorem stock_publishes {path : Path} {data : Bytes} (fits : allowed path (privateFile data)) :
    Publishes (Solo env tid (Stock allowed base)) tid path data (fun _ => True) (Stock allowed kept)
      (Stock allowed fun p => kept p ∨ p = path) where
  before := keeps_stock
  behind := keeps_stock
  put := by
    intro w w' stock _ _ step
    have after := stock.put fits step
    exact ⟨after.less fun p member => .inl (more p member), trivial, after⟩

theorem writeSecure_stocks {path : Path} {data : Bytes} (storable : Storable path)
    (fits : allowed path (privateFile data)) :
    Triple (Solo env tid (Stock allowed base)) (Stock allowed kept) (writeSecure path data)
      fun result w => match result with
        | .ok _ => Stock allowed (fun p => kept p ∨ p = path) w
        | .error _ => Stock allowed kept w := by
  refine (writeSecure_spec (party_solo env tid _) (stock_publishes more fits) storable
    excused).weaken ?_
  intro result w ended
  cases result with
  | ok _ => exact ended
  | error e => exact ended.1

theorem saveBytesEncrypted_stocks {path : Path} {mk : Key} {payload : Bytes} {keyType : String}
    (storable : Storable path) (fits : ∀ draws data,
      sealRecord X mk payload keyType draws = .ok data → allowed path (privateFile data)) :
    Triple (Solo env tid (Stock allowed base)) (Stock allowed kept)
      (saveBytesEncrypted X path mk payload keyType) fun result w => match result with
        | .ok _ => Stock allowed (fun p => kept p ∨ p = path) w
        | .error _ => Stock allowed kept w := by
  apply Triple.bind (encodeEncrypted_spec X (party_solo env tid _) still_solo mk payload keyType)
  · rintro data w ⟨here, draws, answers⟩
    exact writeSecure_stocks more storable (fits draws data answers.ok) w here
  · rintro e w ⟨here, _⟩
    exact here

omit more in
theorem syncParent_stocks {path : Path} (storable : Storable path) :
    Triple (Solo env tid (Stock allowed base)) (Stock allowed kept) (syncParent path)
      fun _ w => Stock allowed kept w :=
  (syncParent_spec True stock_steady stock_steady storable excused).weaken
    fun _ _ ended => ended.1

theorem writePublicKey_stocks {path : Path} {publicKey : Bytes} (storable : Storable path)
    (fits : allowed path (privateFile publicKey)) :
    Triple (Solo env tid (Stock allowed base)) (Stock allowed kept) (writePublicKey path publicKey)
      fun _ w => Stock allowed kept w := by
  apply Triple.bind (writeSecure_stocks more storable fits)
  · intro _
    exact (syncParent_stocks storable).weaken
      fun _ _ here => here.less fun p member => .inl member
  · intro e w here
    exact here

theorem reconcilePublicCache_stocks {path : Path} {publicKey : Bytes} (storable : Storable path)
    (fits : allowed path (privateFile publicKey)) (policy : PublicCachePolicy) (keyType : String) :
    Triple (Solo env tid (Stock allowed base)) (Stock allowed kept)
      (reconcilePublicCache path publicKey policy keyType) fun _ w => Stock allowed kept w := by
  apply Triple.attempt_bind (readKeyfileBytes_spec (party_solo env tid _) still_solo path)
  rintro (e | onDisk) w ⟨here, _⟩
  · dsimp only
    split
    · cases policy with
      | strict => exact here
      | repairMissingOnly => exact writePublicKey_stocks more storable fits w here
    · exact here
  · dsimp only
    split <;> exact here

theorem openSeedKeypair_stocks {privPath pubPath : Path} {mk : Key} {keyType : String}
    (pub : Storable pubPath) (policy : PublicCachePolicy) (pubFromSeed : Fixed 32 → Bytes)
    (published : ∀ publicKey, allowed pubPath (privateFile publicKey)) :
    Triple (Solo env tid (Stock allowed base)) (Stock allowed kept)
      (do
        let payload ← loadBytesDecrypted X privPath mk keyType
        let seed ← Program.done (Fixed.fromSlice 32 payload)
        Program.done (← call (.arenaClaim 32))
        reconcilePublicCache pubPath (pubFromSeed seed) policy keyType
        return pubFromSeed seed : Prog Bytes)
      fun _ w => Stock allowed kept w := by
  apply Triple.bind (loadBytesDecrypted_spec X (party_solo env tid _) still_solo privPath mk keyType)
  · rintro payload w ⟨here, _⟩
    cases Fixed.fromSlice 32 payload with
    | error e => exact here
    | ok seed =>
      refine passing more (.arenaClaim 32) rfl (fun claimed => ?_) w here
      match claimed with
      | .error e => exact Triple.done fun w here => here
      | .ok () =>
        apply Triple.bind (reconcilePublicCache_stocks more pub (published _) policy keyType)
        · intro _
          exact Triple.done fun w here => here
        · intro e w here
          exact here
  · rintro e w ⟨here, _⟩
    exact here

theorem createSeedKeypair_stocks {privPath pubPath : Path} {mk : Key} {keyType : String}
    (priv : Storable privPath) (pub : Storable pubPath) (pubFromSeed : Fixed 32 → Bytes)
    (sealed : ∀ payload draws data, sealRecord X mk payload keyType draws = .ok data →
      allowed privPath (privateFile data))
    (published : ∀ publicKey, allowed pubPath (privateFile publicKey)) :
    Triple (Solo env tid (Stock allowed base)) (Stock allowed kept)
      (do
        Program.done (← call (.arenaClaim 32))
        let seed ← randomFixed .seed
        saveBytesEncrypted X privPath mk seed.1 keyType
        writePublicKey pubPath (pubFromSeed seed)
        return pubFromSeed seed : Prog Bytes) fun result w => match result with
        | .ok _ => Stock allowed (fun p => kept p ∨ p = privPath) w
        | .error _ => Stock allowed kept w := by
  apply passing more (.arenaClaim 32) rfl
  intro claimed
  match claimed with
  | .error e => exact Triple.done fun w here => here
  | .ok () =>
    apply Triple.bind (randomFixed_spec (party_solo env tid _) still_solo .seed)
    · rintro seed w ⟨here, _⟩
      refine Triple.bind (saveBytesEncrypted_stocks more priv (sealed seed.1)) ?_ ?_ w here
      · intro _
        apply Triple.bind (writePublicKey_stocks (fun p member => .inl (more p member)) pub
          (published _))
        · intro _
          exact Triple.done fun w here => here
        · intro e w here
          exact here.less fun p member => .inl member
      · intro e w here
        exact here
    · rintro e w ⟨here, _⟩
      exact here

theorem ensureSeedKeypair_stocks {privPath pubPath : Path} {mk : Key} {keyType : String}
    (priv : Storable privPath) (pub : Storable pubPath) (policy : PublicCachePolicy)
    (pubFromSeed : Fixed 32 → Bytes)
    (sealed : ∀ payload draws data, sealRecord X mk payload keyType draws = .ok data →
      allowed privPath (privateFile data))
    (published : ∀ publicKey, allowed pubPath (privateFile publicKey)) :
    Triple (Solo env tid (Stock allowed base)) (Stock allowed kept)
      (ensureSeedKeypair X privPath pubPath mk keyType policy pubFromSeed) fun result w =>
        match result with
        | .ok _ => Stock allowed (fun p => kept p ∨ p = privPath) w
        | .error _ => Stock allowed kept w := by
  have party := party_solo env tid (Stock allowed base)
  apply Triple.bind (pathExists_spec party still_solo privPath)
  · rintro there w ⟨here, seen⟩
    cases there with
    | true =>
      have present : w.view privPath ≠ none := by
        have seen := seen.resolve_right (by simp)
        rw [view_of_visible priv.1]
        exact Option.isSome_iff_ne_none.mp (get_isSome_of_stat (Except.ok.inj seen).symm)
      refine ((openSeedKeypair_stocks (fun p member => .inl (more p member)) pub policy pubFromSeed
        published).weaken fun result w here => ?_) w (here.keep present)
      cases result with
      | ok _ => exact here
      | error e => exact here.less fun p member => .inl member
    | false =>
      refine Triple.attempt_bind (readKeyfileBytes_spec party still_solo pubPath) ?_ w here
      rintro (e | onDisk) w ⟨here, _⟩
      · dsimp only
        split
        · exact createSeedKeypair_stocks more priv pub pubFromSeed sealed published w here
        · exact here
      · exact here
  · rintro e w ⟨here, _⟩
    exact here

omit more in
theorem ensurePrivateDir_stocks {dir : Path} (member : dir ∈ scaffold) :
    Triple (Solo env tid (Stock allowed base)) (Stock allowed kept) (ensurePrivateDir dir)
      fun _ w => Stock allowed kept w :=
  (ensurePrivateDir_spec (party_solo env tid _) keeps_stock dir member excused).weaken
    fun _ _ ended => ended.1

theorem acquireExclusiveLock_stocks (fits : allowed lockPath ⟨.regular, 0o644, []⟩)
    (policy : FileLockPolicy) :
    Triple (Solo env tid (Stock allowed base)) (Stock allowed kept) (acquireExclusiveLock policy)
      fun _ w => Stock allowed kept w := by
  apply Triple.call (fun _ w => Stock allowed kept w) (alone_stable _ _ _)
  · intro w stock _ reply w' step
    have after : Stock allowed kept w' := by
      obtain ⟨_, rfl | made⟩ | ⟨_, _, rfl, _⟩ := sem_openLock step
      · exact stock
      · exact (stock.put fits made).less fun p member => .inl member
      · exact stock
    exact ⟨after.less more, trivial, after⟩
  · intro reply
    match reply with
    | .error kind => exact Triple.done fun w here => here
    | .ok () =>
      apply passing more .lockStore rfl
      intro taken
      match taken with
      | .locked => exact Triple.done fun w here => here
      | .wouldBlock => exact Triple.done fun w here => here
      | .error kind => cases policy <;> exact Triple.done fun w here => here

theorem loadMk_stocks :
    Triple (Solo env tid (Stock allowed base)) (Stock allowed kept) loadMk
      fun _ w => Stock allowed kept w := by
  apply passing more .loadMk rfl
  intro reply
  exact Triple.done fun w here => here

theorem ensureMk_stocks :
    Triple (Solo env tid (Stock allowed base)) (Stock allowed kept) ensureMk
      fun _ w => Stock allowed kept w := by
  apply Triple.attempt_bind (loadMk_stocks more)
  rintro (e | mk) w here
  · dsimp only
    split
    · refine Triple.bind (randomFixed_spec (party_solo env tid _) still_solo .masterKey) ?_ ?_ w here
      · rintro newMk w ⟨here, _⟩
        refine passing more (.storeMk newMk) rfl (fun reply => ?_) w here
        exact Triple.done fun w here => here
      · rintro e w ⟨here, _⟩
        exact here
    · exact here
  · exact here

/-- No rotation is pending, so that nothing is recovered. -/
theorem recoverPendingRotation_stocks (unmarked : ∀ node, ¬ allowed readyPath node)
    (outside : ∀ path, kept path → ¬ rotateDir <:+ path) :
    Triple (Solo env tid (Stock allowed base)) (Stock allowed kept) (recoverPendingRotationIfAny X)
      fun _ w => Stock allowed kept w := by
  have party := party_solo env tid (Stock allowed base)
  have cleans : Triple (Solo env tid (Stock allowed base)) (Stock allowed kept) cleanupRotationDir
      fun _ w => Stock allowed kept w :=
    (cleanupRotationDir_spec stock_steady
      (stock_prunable fun path member => outside path (more path member)) stock_steady
      (stock_prunable outside) excused).weaken fun _ _ ended => ended.1
  apply Triple.bind (pathExists_spec party still_solo rotateDir)
  · rintro rotating w ⟨here, _⟩
    cases rotating with
    | false => exact here
    | true =>
      refine Triple.bind (pathExists_spec party still_solo readyPath) ?_ ?_ w here
      · rintro ready w ⟨here, seen⟩
        cases ready with
        | false => exact cleans w here
        | true =>
          have seen := seen.resolve_right (by simp)
          obtain ⟨node, found⟩ := Option.isSome_iff_exists.mp
            (get_isSome_of_stat (Except.ok.inj seen).symm)
          rw [← view_of_visible rotate_files_storable.1.1] at found
          exact absurd (here.files readyPath node (by decide) found) (unmarked node)
      · rintro e w ⟨here, _⟩
        exact here
  · rintro e w ⟨here, _⟩
    exact here

theorem cacheMk_stocks (cached : Bool) (mk : Key) :
    Triple (Solo env tid (Stock allowed base)) (Stock allowed kept) (cacheMk cached mk)
      fun _ w => Stock allowed kept w := by
  cases cached with
  | false => exact Triple.done fun w here => here
  | true =>
    apply passing more (.arenaClaim 32) rfl
    intro claimed
    match claimed with
    | .error e => exact Triple.done fun w here => here
    | .ok () =>
      apply passing more (.setCachedMk mk) rfl
      intro _
      exact Triple.done fun w here => here

end

/-- What a store must allow for a manager to start on it. No marker of a rotation is among it. -/
structure Welcomes (X : Crypto) (allowed : Path → Node → Prop) : Prop where
  lock : allowed lockPath ⟨.regular, 0o644, []⟩
  edPub : ∀ publicKey, allowed edPub (privateFile publicKey)
  diliPub : ∀ publicKey, allowed diliPub (privateFile publicKey)
  edPriv : ∀ mk payload draws data, sealRecord X mk payload ktEdSeed draws = .ok data →
    allowed edPriv (privateFile data)
  diliPriv : ∀ mk payload draws data, sealRecord X mk payload ktDiliSeed draws = .ok data →
    allowed diliPriv (privateFile data)
  unmarked : ∀ node, ¬ allowed readyPath node

section
variable {X : Crypto} {env : Env} {tid : Tid} {allowed : Path → Node → Prop} {base : Path → Prop}

theorem ensureAsymmetricMaterial_stocks (welcomes : Welcomes X allowed) (mk : Key)
    (policy : PublicCachePolicy) :
    Triple (Solo env tid (Stock allowed base)) (Stock allowed base)
      (ensureAsymmetricMaterial X mk policy) fun result w => match result with
        | .ok _ => Stock allowed (fun p => (base p ∨ p = edPriv) ∨ p = diliPriv) w
        | .error _ => Stock allowed base w := by
  have failed : ∀ (e : LithiumError) w, Stock allowed base w → Stock allowed base w :=
    fun _ _ here => here
  have more : ∀ p, base p → base p ∨ p = edPriv := fun _ member => .inl member
  apply Triple.bind (ensurePrivateDir_stocks (by decide)) (fun _ => ?_) failed
  apply Triple.bind (ensurePrivateDir_stocks (by decide)) (fun _ => ?_) failed
  apply Triple.bind (ensureSeedKeypair_stocks (fun _ member => member) identity_storable.1.1
    identity_storable.1.2 policy _ (welcomes.edPriv mk) welcomes.edPub) (fun _ => ?_) failed
  apply Triple.bind (ensureSeedKeypair_stocks more identity_storable.2.1 identity_storable.2.2 policy _
    (welcomes.diliPriv mk) welcomes.diliPub)
  · intro _
    exact Triple.done fun w here => here
  · intro e w here
    exact here.less more

/-- A successful start leaves both identity keys sealed. -/
theorem startWithConfig_stocks (welcomes : Welcomes X allowed)
    (outside : ∀ path, base path → ¬ rotateDir <:+ path) (cached : Bool) (config : KeyManagerConfig) :
    Triple (Solo env tid (Stock allowed base)) (Stock allowed base) (startWithConfig X cached config)
      fun result w => match result with
        | .ok _ => Stock allowed (fun p => (base p ∨ p = edPriv) ∨ p = diliPriv) w
        | .error _ => Stock allowed base w := by
  have same : ∀ path, base path → base path := fun _ member => member
  have failed : ∀ (e : LithiumError) w, Stock allowed base w → Stock allowed base w :=
    fun _ _ here => here
  unfold startWithConfig
  split
  · exact Triple.done fun w here => here
  · apply Triple.bind (ensurePrivateDir_stocks (by decide)) (fun _ => ?_) failed
    apply Triple.bind (ensurePrivateDir_stocks (by decide)) (fun _ => ?_) failed
    apply Triple.bind (ensurePrivateDir_stocks (by decide)) (fun _ => ?_) failed
    apply Triple.bind (ensurePrivateDir_stocks (by decide)) (fun _ => ?_) failed
    apply Triple.bind (acquireExclusiveLock_stocks same welcomes.lock config.fileLock) (fun _ => ?_) failed
    apply Triple.bind (ensureMk_stocks same) (fun _ => ?_) failed
    apply Triple.bind (recoverPendingRotation_stocks same welcomes.unmarked outside) (fun _ => ?_) failed
    apply Triple.bind (loadMk_stocks same) (fun rootMk => ?_) failed
    apply passing same (.arenaMap config.arenaCapacity) rfl
    intro mapped
    match mapped with
    | .error e => exact Triple.done fun w here => here
    | .ok () =>
      apply Triple.bind (ensureAsymmetricMaterial_stocks welcomes rootMk config.publicCachePolicy)
        (fun publicKeys => ?_) failed
      have more : ∀ p, base p → (base p ∨ p = edPriv) ∨ p = diliPriv :=
        fun _ member => .inl (.inl member)
      apply Triple.bind (cacheMk_stocks more cached rootMk)
      · intro _
        apply Triple.bind (scheduleRotation_spec _ excused)
        · intro _
          exact Triple.done fun w here => here.1
        · intro e w here
          exact here.1.less more
      · intro e w here
        exact here.less more

end

section
variable {X : Crypto} {env : Env} {tid : Tid} {allowed : Path → Node → Prop} {base : Path → Prop}
  {label : Bytes} {mk : Key} {α : Type}

/-- With success the file of the label is there. -/
def LabelStocked (allowed : Path → Node → Prop) (base : Path → Prop) (label : Bytes)
    (result : Except LithiumError α) (w : World) : Prop :=
  Stock allowed base w ∧ ∀ value, result = .ok value → w.view (labelSecretPath label) ≠ none

theorem load_stocks {load : Prog α} {read : Bytes → Except LithiumError α}
    (loads : Triple (Solo env tid (Stock allowed base)) (Stock allowed base) load fun result w =>
      Stock allowed base w ∧ Answers env ((loadNode X (w.fs.get (labelSecretPath label)) mk
        (labelKeyType label)).bind read) result) :
    Triple (Solo env tid (Stock allowed base)) (Stock allowed base) load
      (LabelStocked allowed base label) := by
  refine loads.weaken ?_
  rintro result w ⟨here, answers⟩
  refine ⟨here, ?_⟩
  rintro value rfl
  rw [view_of_visible (labelPath_storable label).1]
  intro missing
  have natural := answers.ok
  rw [missing] at natural
  cases natural

theorem saveNew_stocks {mode : CreateNewMode} {payload : Bytes}
    (fits : ∀ draws data, sealRecord X mk payload (labelKeyType label) draws = .ok data →
      allowed (labelSecretPath label) (privateFile data)) :
    Triple (Solo env tid (Stock allowed base)) (Stock allowed base)
      (saveNew X mode (labelSecretPath label) mk payload (labelKeyType label)) fun result w =>
        match result with
        | .ok _ => Stock allowed base w ∧ w.view (labelSecretPath label) ≠ none
        | .error _ => Stock allowed base w := by
  refine (saveNew_spec X (party_solo env tid _) keeps_stock (labelPath_storable label)
    (fun draws data sealed => (stock_publishes (fun _ member => member)
      (fits draws data sealed)).creates) excused excused).weaken ?_
  intro result w ended
  cases result with
  | ok _ => exact ⟨ended.less fun _ member => .inl member, ended.kept _ (.inr rfl)⟩
  | error e => exact ended.1

theorem loadOrCreate_stocks {mode : CreateNewMode} {load draw : Prog α} {save : α → Prog Unit}
    {bytes : α → Bytes} (fits : validateSecretLabel label = .ok () → ∀ payload draws data,
      sealRecord X mk payload (labelKeyType label) draws = .ok data →
      allowed (labelSecretPath label) (privateFile data))
    (loads : Triple (Solo env tid (Stock allowed base)) (Stock allowed base) load
      (LabelStocked allowed base label))
    (draws : Triple (Solo env tid (Stock allowed base)) (Stock allowed base) draw
      fun _ w => Stock allowed base w)
    (saves : ∀ value, save value =
      saveNew X mode (labelSecretPath label) mk (bytes value) (labelKeyType label)) :
    Triple (Solo env tid (Stock allowed base)) (Stock allowed base) (loadOrCreate label load draw save)
      (LabelStocked allowed base label) := by
  cases valid : validateSecretLabel label with
  | error e =>
    unfold loadOrCreate
    rw [valid]
    exact Triple.done fun w here => ⟨here, nofun⟩
  | ok _ =>
    have drawn : Triple (Solo env tid (Stock allowed base)) (Stock allowed base) draw
        fun result w => Stock allowed base w ∧ ∀ v, result = .ok v → True :=
      draws.weaken fun _ _ here => ⟨here, fun _ _ => trivial⟩
    have made : ∀ v, True →
        Triple (Solo env tid (Stock allowed base)) (Stock allowed base) (save v) fun result w =>
          match result with
          | .ok _ => (fun _ w => Stock allowed base w ∧ w.view (labelSecretPath label) ≠ none) v w
          | .error _ => Stock allowed base w := by
      intro v _
      rw [saves v]
      exact saveNew_stocks (fits valid (bytes v))
    refine (loadOrCreate_spec (party_solo env tid _) still_solo loads drawn made).weaken ?_
    rintro result w (loaded | ⟨here, e, rfl⟩ | ⟨v, _, rfl, here, there⟩)
    · exact loaded
    · exact ⟨here, nofun⟩
    · exact ⟨here, fun _ _ => there⟩

theorem withReadGate_stocks {body : Prog α}
    (works : Triple (Solo env tid (Stock allowed base)) (Stock allowed base) body
      (LabelStocked allowed base label)) :
    Triple (Solo env tid (Stock allowed base)) (Stock allowed base) (withReadGate body)
      (LabelStocked allowed base label) := by
  have same : ∀ path, base path → base path := fun _ member => member
  have live : Triple (Solo env tid (Stock allowed base)) (Stock allowed base) checkLive
      fun _ w => Stock allowed base w := by
    apply passing same .isPoisoned rfl
    rintro (_ | _)
    · exact Triple.done fun w here => here
    · exact Triple.done fun w here => here
  apply Triple.bind live
  · intro _
    apply passing same .lockRead rfl
    intro _
    apply Triple.attempt_bind works
    intro result
    -- giving the lock back leaves the files alone
    apply Triple.call (fun _ w => LabelStocked allowed base label result w) (alone_stable _ _ _)
    · rintro w ⟨here, there⟩ _ reply w' step
      have files := sem_leavesFiles rfl step
      have after := here.congr files
      refine ⟨after, trivial, after, fun value returned => ?_⟩
      have visible := (labelPath_storable label).1
      rw [view_of_visible visible, files, ← view_of_visible visible]
      exact there value returned
    · intro _
      exact Triple.done fun w here => here
  · intro e w here
    exact ⟨here, nofun⟩

theorem currentMk_stocks (cached : Bool) :
    Triple (Solo env tid (Stock allowed base)) (Stock allowed base) (currentMk cached)
      fun _ w => Stock allowed base w := by
  cases cached with
  | false => exact loadMk_stocks fun _ member => member
  | true =>
    apply passing (fun _ member => member) .cachedMk rfl
    rintro (_ | mk)
    · exact Triple.done fun w here => here
    · exact Triple.done fun w here => here

end

def Operation.label : Operation → Option Bytes
  | .secret32 label => some label
  | .blob label _ => some label
  | .sign | .rotate => none

theorem operation_stocks {X : Crypto} {env : Env} {tid : Tid} {allowed : Path → Node → Prop}
    {base : Path → Prop} {op : Operation} {label : Bytes} (asks : op.label = some label)
    (fits : validateSecretLabel label = .ok () → ∀ mk payload draws data,
      sealRecord X mk payload (labelKeyType label) draws = .ok data →
      allowed (labelSecretPath label) (privateFile data)) (cached : Bool) (mode : CreateNewMode) :
    Triple (Solo env tid (Stock allowed base)) (Stock allowed base) (op.program X cached mode)
      (LabelStocked allowed base label) := by
  have party := party_solo env tid (Stock allowed base)
  cases op with
  | secret32 asked =>
    cases asks
    have works : Triple (Solo env tid (Stock allowed base)) (Stock allowed base) (do
        let mk ← currentMk cached
        loadOrCreateLabelSecret32 X mk label mode) (LabelStocked allowed base label) := by
      apply Triple.bind (currentMk_stocks cached)
      · intro mk
        rw [loadOrCreateLabelSecret32_eq]
        apply loadOrCreate_stocks fun valid payload => fits valid mk payload
        · exact load_stocks (loadSecret32Decrypted_spec X party still_solo _ mk _)
        · exact (randomFixed_spec party still_solo .secret32).weaken fun _ _ ended => ended.1
        · intro value
          rfl
      · intro e w here
        exact ⟨here, nofun⟩
    apply Triple.bind (withReadGate_stocks works)
    · intro value
      exact Triple.done fun w here => ⟨here.1, fun _ _ => here.2 value rfl⟩
    · intro e w here
      exact ⟨here.1, nofun⟩
  | blob asked generate =>
    cases asks
    apply withReadGate_stocks
    apply Triple.bind (currentMk_stocks cached)
    · intro mk
      rw [loadOrCreateLabelBytes_eq]
      apply loadOrCreate_stocks fun valid payload => fits valid mk payload
      · exact load_stocks (loadBytesDecrypted_whole X party still_solo _ mk _)
      · exact Triple.done fun w here => here
      · intro value
        rfl
    · intro e w here
      exact ⟨here, nofun⟩
  | sign => cases asks
  | rotate => cases asks

/-- What has been done to a store: whether a start has succeeded, which labels were asked for,
and for which of them a call has returned a value. -/
structure Course where
  begun : Bool
  asked : List Bytes
  answered : List Bytes

/-- The stores that starts and calls on labels produce where there was no store. Every start
is by a new process; a start or a call may fail, or be cut short between any two of its calls. -/
inductive Produced (X : Crypto) (cached : Bool) : Course → World → Prop where
  | blank {w} : (∀ path, rootDir <:+ path → w.fs.get path = none) → Produced X cached ⟨false, [], []⟩ w
  | cutShort {course env tid config pid w w'} : Produced X cached course w →
      Stops (sem env tid) (startWithConfig X cached config) (w.restart pid) w' →
      Produced X cached course w'
  | started {course env tid config pid keys w w'} : Produced X cached course w →
      Returns (sem env tid) (startWithConfig X cached config) (w.restart pid) (.ok keys) w' →
      Produced X cached { course with begun := true } w'
  | asked {course env tid mode op label w w'} : Produced X cached course w →
      Operation.label op = some label → Stops (sem env tid) (op.program X cached mode) w w' →
      Produced X cached { course with asked := label :: course.asked } w'
  | answered {course env tid mode op label value w w'} : Produced X cached course w →
      Operation.label op = some label → Returns (sem env tid) (op.program X cached mode) w (.ok value) w' →
      Produced X cached
        { course with asked := label :: course.asked, answered := label :: course.answered } w'

/-- The bytes are a record sealed under this key type. -/
def SealedAs (X : Crypto) (keyType : String) (data : Bytes) : Prop :=
  ∃ mk payload draws, sealRecord X mk payload keyType draws = .ok data

/-- The places of keyfiles with their key types: the identity seeds, and the labels asked for. -/
def KeyfileOf (asked : List Bytes) (path : Path) (keyType : String) : Prop :=
  path = edPriv ∧ keyType = ktEdSeed ∨ path = diliPriv ∧ keyType = ktDiliSeed ∨
    ∃ label ∈ asked, (1 ≤ label.length ∧ label.length ≤ 64) ∧ path = labelSecretPath label ∧
      keyType = labelKeyType label

/-- What may lie below the root: the lock file, the public keys and keyfiles. -/
def Belongs (X : Crypto) (asked : List Bytes) (path : Path) (node : Node) : Prop :=
  path ∈ [lockPath, edPub, diliPub] ∨ ∃ keyType data, KeyfileOf asked path keyType ∧
    node = privateFile data ∧ SealedAs X keyType data

/-- The files that are there to stay. -/
def Course.Kept (course : Course) (path : Path) : Prop :=
  course.begun = true ∧ (path = edPriv ∨ path = diliPriv) ∨
    ∃ label ∈ course.answered, path = labelSecretPath label

theorem validateSecretLabel_ok {label : Bytes} (valid : validateSecretLabel label = .ok ()) :
    1 ≤ label.length ∧ label.length ≤ 64 := by
  unfold validateSecretLabel at valid
  split at valid
  · cases valid
  · next within =>
    simp only [maxSecretLabelLen, List.isEmpty_iff, not_or, not_lt] at within
    exact ⟨List.length_pos_iff.mpr within.1, within.2⟩

section
variable {X : Crypto} {cached : Bool} {course : Course} {asked : List Bytes} {path : Path}
  {keyType : String} {node : Node} {w : World}

theorem KeyfileOf.more {label : Bytes} (keyfile : KeyfileOf asked path keyType) :
    KeyfileOf (label :: asked) path keyType := by
  rcases keyfile with ed | dili | ⟨other, member, rest⟩
  · exact .inl ed
  · exact .inr (.inl dili)
  · exact .inr (.inr ⟨other, List.mem_cons_of_mem _ member, rest⟩)

theorem KeyfileOf.keyTypeOf (keyfile : KeyfileOf asked path keyType) :
    keyTypeOf path = some keyType := by
  rcases keyfile with ⟨rfl, rfl⟩ | ⟨rfl, rfl⟩ | ⟨label, _, _, rfl, rfl⟩
  · rfl
  · rfl
  · exact keyTypeOf_labelPath label

theorem Belongs.more {label : Bytes} (belongs : Belongs X asked path node) :
    Belongs X (label :: asked) path node := by
  rcases belongs with listed | ⟨keyType, data, keyfile, rest⟩
  · exact .inl listed
  · exact .inr ⟨keyType, data, keyfile.more, rest⟩

theorem belongs_welcomes (X : Crypto) (asked : List Bytes) : Welcomes X (Belongs X asked) where
  lock := .inl (by simp)
  edPub _ := .inl (by simp)
  diliPub _ := .inl (by simp)
  edPriv mk payload draws data sealed :=
    .inr ⟨ktEdSeed, data, .inl ⟨rfl, rfl⟩, rfl, mk, payload, draws, sealed⟩
  diliPriv mk payload draws data sealed :=
    .inr ⟨ktDiliSeed, data, .inr (.inl ⟨rfl, rfl⟩), rfl, mk, payload, draws, sealed⟩
  unmarked node belongs := by
    rcases belongs with listed | ⟨keyType, _, keyfile, _⟩
    · exact absurd listed (by decide)
    · exact not_below_rotate_of_live keyfile.keyTypeOf rotate_files_below.1

theorem Course.Kept.outside (kept : course.Kept path) : ¬ rotateDir <:+ path := by
  rcases kept with ⟨_, rfl | rfl⟩ | ⟨label, _, rfl⟩
  · exact outside_of_identity _ (by decide)
  · exact outside_of_identity _ (by decide)
  · exact not_below_rotate_of_live (keyTypeOf_labelPath label)

theorem belongs_label {label : Bytes} (valid : validateSecretLabel label = .ok ()) (mk : Key)
    (payload : Bytes) (draws : SealDraws) (data : Bytes)
    (sealed : sealRecord X mk payload (labelKeyType label) draws = .ok data) :
    Belongs X (label :: asked) (labelSecretPath label) (privateFile data) :=
  .inr ⟨labelKeyType label, data, .inr (.inr ⟨label, List.mem_cons_self, validateSecretLabel_ok valid,
    rfl, rfl⟩), rfl, mk, payload, draws, sealed⟩

/-- Only its own files lie in a store, and none of them gets lost. -/
theorem Produced.stock (produced : Produced X cached course w) :
    Stock (Belongs X course.asked) course.Kept w := by
  induction produced with
  | @blank w empty =>
    constructor
    · intro path node inside found
      unfold World.view at found
      split at found
      · cases found
      · rw [empty path inside] at found
        cases found
    · rintro path (⟨never, _⟩ | ⟨label, member, _⟩)
      · cases never
      · cases member
    · exact .inl (empty secretsDir (by decide))
  | @cutShort course env tid config pid w w' _ stopped ih =>
    have begins : Stock (Belongs X course.asked) course.Kept (w.restart pid) := ih.congr rfl
    exact (startWithConfig_stocks (belongs_welcomes X course.asked) (fun _ => Course.Kept.outside)
      cached config _ begins).stops begins stopped
  | @started course env tid config pid keys w w' _ returned ih =>
    have begins : Stock (Belongs X course.asked) course.Kept (w.restart pid) := ih.congr rfl
    have ended := (startWithConfig_stocks (belongs_welcomes X course.asked)
      (fun _ => Course.Kept.outside) cached config _ begins).returns begins returned
    refine ended.less ?_
    rintro path (⟨_, rfl | rfl⟩ | answered)
    · exact .inl (.inr rfl)
    · exact .inr rfl
    · exact .inl (.inl (.inr answered))
  | @asked course env tid mode op label w w' _ asks stopped ih =>
    have begins : Stock (Belongs X (label :: course.asked)) course.Kept w :=
      ih.wider fun _ _ => Belongs.more
    exact (operation_stocks asks (fun valid => belongs_label valid) cached mode w begins).stops begins
      stopped
  | @answered course env tid mode op label value w w' _ asks returned ih =>
    have begins : Stock (Belongs X (label :: course.asked)) course.Kept w :=
      ih.wider fun _ _ => Belongs.more
    obtain ⟨after, there⟩ := (operation_stocks asks (fun valid => belongs_label valid) cached mode w
      begins).returns begins returned
    refine (after.keep (there value rfl)).less ?_
    rintro path (identity | ⟨other, member, rfl⟩)
    · exact .inl (.inl identity)
    · rcases List.mem_cons.mp member with rfl | earlier
      · exact .inr rfl
      · exact .inl (.inr ⟨other, earlier, rfl⟩)

end

/-- The targets are the keyfiles that are there, each once, with the key types they are
sealed under. -/
structure Exactly (X : Crypto) (asked : List Bytes) (w : World) (targets : List RewrapTarget) : Prop where
  once : (targets.map RewrapTarget.livePath).Nodup
  all : ∀ path keyType, (∃ target ∈ targets, target.livePath = path ∧ target.keyType = keyType) ↔
    KeyfileOf asked path keyType ∧ (w.fs.get path).isSome = true
  sealed : ∀ target ∈ targets, ∃ node, w.fs.get target.livePath = some node ∧
    SealedAs X target.keyType node.data

/-- How the names of label files are told apart. -/
structure NamesApart : Prop where
  names : ∀ one other, one ≠ other → (labelFileName one).toLower ≠ (labelFileName other).toLower
  parts : ∀ label, label ≠ [] → nameParts (labelFileName label) = (labelHex label, some "keyf") ∧
    ∀ pid seq suffix,
      (nameParts (FileName.render ⟨labelHex label, .tmp pid seq suffix⟩)).2 ≠ some "keyf"
  types : ∀ label, labelKeyType label ∉ fixedKeyTypes

theorem namesApart : NamesApart where
  names one other apart same := apart (labelFileName_injective same)
  parts label named := by
    refine ⟨nameParts_label named, fun pid seq suffix same => ?_⟩
    obtain ⟨parts, apart⟩ := nameParts_tmp named pid seq suffix
    rw [parts] at same
    exact apart (Option.some.inj same)
  types := labelKeyType_not_fixed

section
variable {X : Crypto} {cached : Bool} {course : Course} {w : World}

/-- A keyfile in a store is sealed, under the key type that its name says. -/
theorem Produced.keyfile (produced : Produced X cached course w) {path : Path} {keyType : String}
    {node : Node} (live : keyTypeOf path = some keyType) (found : w.fs.get path = some node) :
    KeyfileOf course.asked path keyType ∧ node.ftype = .regular ∧ SealedAs X keyType node.data := by
  have visible := (live_storable live).1
  have inside : rootDir <:+ path := by
    obtain ⟨stem, dir, rfl, _⟩ := live_shape live
    exact (List.suffix_cons _ _).trans (List.suffix_cons _ _)
  rcases produced.stock.files path node inside ((view_of_visible visible).trans found) with
    listed | ⟨other, data, keyfile, rfl, sealed⟩
  · have none : ∀ path ∈ [lockPath, edPub, diliPub], keyTypeOf path = none := by decide
    rw [none path listed] at live
    cases live
  · cases Option.some.inj (live.symm.trans keyfile.keyTypeOf)
    exact ⟨keyfile, rfl, sealed⟩

theorem Produced.listed_iff (produced : Produced X cached course w) {path : Path} {keyType : String}
    (live : keyTypeOf path = some keyType) :
    ListedIn (fun path => (w.fs.stat path).isSome)
      (fun path => (w.fs.stat path).any fun metadata => metadata.ftype = .regular) path ↔
      (w.fs.get path).isSome = true := by
  cases found : w.fs.get path with
  | none => simp [ListedIn, FileSystem.stat, found]
  | some node =>
    have regular := (produced.keyfile live found).2.1
    simp [ListedIn, FileSystem.stat, found, regular, Node.metadata]

theorem Produced.exactly (produced : Produced X cached course w) (env : Env) [env.Sighted] (tid : Tid) :
    Delivers (sem env tid) collectRewrapTargets w fun result _ => match result with
      | .ok targets => Exactly X course.asked w targets
      | .error _ => env.faults = true := by
  constructor
  · exact calls_return tid w (collectRewrapTargets_calls waits_of_special)
  · intro result w' returned
    have stats : ∀ v, v = w → Stats (fun path => (w.fs.stat path).isSome)
        (fun path => (w.fs.stat path).any fun metadata => metadata.ftype = .regular) v := by
      rintro v rfl path keyType _
      exact ⟨rfl, rfl⟩
    have calm : ¬ env.faults = true → env.faults = false ∧
        ∀ v, v = w → v.fs.get secretsDir = none ∨ v.fs.isDir secretsDir = true := by
      intro faultless
      refine ⟨by simpa using faultless, ?_⟩
      rintro v rfl
      exact produced.stock.secrets.imp_right PrivateDir.isDir
    have meets : Meets (Solo env tid fun _ => True) _ collectRewrapTargets w :=
      collectRewrapTargets_lists stats calm w rfl
    obtain ⟨_, ended⟩ := meets.returns trivial returned
    cases result with
    | error e => exact ended
    | ok targets =>
      obtain ⟨once, members⟩ := ended
      refine ⟨once, fun path keyType => ?_, fun target member => ?_⟩
      · constructor
        · rintro ⟨target, member, rfl, rfl⟩
          obtain ⟨path, keyType, live, listed, rfl⟩ := (members target).mp member
          have present := (produced.listed_iff live).mp listed
          obtain ⟨node, found⟩ := Option.isSome_iff_exists.mp present
          exact ⟨(produced.keyfile live found).1, present⟩
        · rintro ⟨keyfile, present⟩
          have live := keyfile.keyTypeOf
          exact ⟨_, (members _).mpr ⟨path, keyType, live, (produced.listed_iff live).mpr present, rfl⟩,
            rfl, rfl⟩
      · obtain ⟨path, keyType, live, listed, rfl⟩ := (members target).mp member
        obtain ⟨node, found⟩ := Option.isSome_iff_exists.mp ((produced.listed_iff live).mp listed)
        exact ⟨node, found, (produced.keyfile live found).2.2⟩

end

/-- The targets of a rotation match what was sealed, in every store that starts and calls on
labels produce, where the keyfiles are seen. -/
theorem rewrap_targets_match {X : Crypto} {cached : Bool} {course : Course} {w : World}
    (produced : Produced X cached course w) (begun : course.begun = true) (env : Env)
    (sighted : env.Sighted) (tid : Tid) :
    (Delivers (sem env tid) collectRewrapTargets w fun result _ => match result with
      | .ok targets => Exactly X course.asked w targets
      | .error _ => env.faults = true) ∧
    (w.fs.get edPriv).isSome = true ∧ (w.fs.get diliPriv).isSome = true ∧
    (∀ label ∈ course.answered, (w.fs.get (labelSecretPath label)).isSome = true) ∧ NamesApart := by
  have there : ∀ path, Storable path → course.Kept path → (w.fs.get path).isSome = true := by
    intro path storable kept
    rw [← view_of_visible storable.1]
    exact Option.isSome_iff_ne_none.mpr (produced.stock.kept path kept)
  refine ⟨produced.exactly env tid, ?_, ?_, ?_, namesApart⟩
  · exact there edPriv identity_storable.1.1 (.inl ⟨begun, .inl rfl⟩)
  · exact there diliPriv identity_storable.2.1 (.inl ⟨begun, .inr rfl⟩)
  · intro label member
    exact there _ (labelPath_storable label) (.inr ⟨label, member, rfl⟩)

def startedStore : World :=
  (follow (exec (sampleEnv false) 0) (plainly 1 someLeaf) 100 0
    (startWithConfig tagged false (sampleConfig .strict)) (blankWorld.restart 1)).2

def interruptedStore : World :=
  (follow (exec (sampleEnv false) 0) (plainly 1 someLeaf) 14 0
    (Operation.program tagged false .linkNoReplace (.secret32 sampleLabel)) startedStore).2

def labelledStore : World :=
  (follow (exec (sampleEnv false) 0) (plainly 1 someLeaf) 100 0
    (Operation.program tagged false .linkNoReplace (.secret32 [0xcd])) interruptedStore).2

theorem labelledStore_produced :
    Produced tagged false ⟨true, [[0xcd], sampleLabel], [[0xcd]]⟩ labelledStore := by
  have started : Returns (sem (sampleEnv false) 0)
      (startWithConfig tagged false (sampleConfig .strict)) (blankWorld.restart 1)
      (.ok ⟨(uniform 1).1, (uniform 1).1 ++ (uniform 1).1⟩) startedStore :=
    follow_returns (exec (sampleEnv false) 0) (plainly 1 someLeaf) 100 0 (by decide +kernel)
  have stopped : Stops (sem (sampleEnv false) 0)
      (Operation.program tagged false .linkNoReplace (.secret32 sampleLabel)) startedStore
      interruptedStore :=
    follow_stops (exec (sampleEnv false) 0) (plainly 1 someLeaf) 14 0 _ _
  have returned : Returns (sem (sampleEnv false) 0)
      (Operation.program tagged false .linkNoReplace (.secret32 [0xcd])) interruptedStore
      (.ok (uniform 1).1) labelledStore :=
    follow_returns (exec (sampleEnv false) 0) (plainly 1 someLeaf) 100 0 (by decide +kernel)
  have begun := Produced.started (.blank blankWorld_blank.2) started
  exact .answered (.asked begun rfl stopped) rfl returned

theorem rewrap_targets_match_sample :
    (labelledStore.fs.entries.keys.any isTmp) = true ∧
    labelledStore.fs.get (labelSecretPath sampleLabel) = none ∧
    Delivers (sem (sampleEnv false) 0) collectRewrapTargets labelledStore fun result _ =>
      match result with
      | .ok targets => Exactly tagged [[0xcd], sampleLabel] labelledStore targets
      | .error _ => (sampleEnv false).faults = true := by
  refine ⟨by decide +kernel, by decide +kernel, ?_⟩
  exact (rewrap_targets_match labelledStore_produced rfl (sampleEnv false) (.of_faultless rfl) 0).1

end Lithium.Keys
