import Lithium.Keys.Commit

/-! The two identity keys: a seed sealed in `priv` and the public key derived from
it in `pub`. The seed is written first, so between the two writes a crash leaves a
sealed seed without its public file. -/
namespace Lithium.Keys
open Effects Storage

structure SeedKey where
  priv : Path
  pub : Path
  keyType : String
  pubFromSeed : Fixed 32 → Bytes

def edKey (X : Crypto) : SeedKey := ⟨edPriv, edPub, ktEdSeed, X.ed25519PubFromSeed⟩
def diliKey (X : Crypto) : SeedKey := ⟨diliPriv, diliPub, ktDiliSeed, X.mldsa87PubFromSeed⟩

/-- What the two files of a key hold: the sealed seed, if there is one, and whatever
is in the place of the public file. -/
structure Stage where
  seed : Option (Fixed 32)
  pub : Option Node

/-- The files of the key are at this stage. -/
structure SeedKey.At (X : Crypto) (mk : Key) (key : SeedKey) (v : View) (stage : Stage) : Prop where
  absent : stage.seed = none → v key.priv = none
  loads : ∀ seed, stage.seed = some seed → loadNode X (v key.priv) mk key.keyType = .ok seed.1
  pub : v key.pub = stage.pub

/-- How the manager may change the files of a key: it keeps a sealed seed, and puts
nothing but the derived key in the place of the public file, where there is none unless the
manager is `misled`. -/
structure Stage.Becomes (key : SeedKey) (misled : Prop) (stage next : Stage) : Prop where
  seed : ∀ seed, stage.seed = some seed → next.seed = some seed
  pub : next.pub = stage.pub ∨ (misled ∨ stage.pub = none) ∧
    ∃ seed, next.seed = some seed ∧ next.pub = some (privateFile (key.pubFromSeed seed))

/-- The public file, if there is one, is the manager's own. -/
def Stage.Honest (key : SeedKey) (stage : Stage) : Prop :=
  stage.pub = none ∨
    ∃ seed, stage.seed = some seed ∧ stage.pub = some (privateFile (key.pubFromSeed seed))

def Stage.Unpublished (stage : Stage) : Prop := stage.seed ≠ none ∧ stage.pub = none

def Stage.Foreign (key : SeedKey) (stage : Stage) : Prop :=
  stage.pub ≠ none ∧ ∀ seed, stage.seed = some seed → readNode stage.pub ≠ .ok (key.pubFromSeed seed)

/-- The files of the key are files of the store, apart from each other, and no
larger than what is read back. -/
structure SeedKey.Regular (key : SeedKey) : Prop where
  priv : Storable key.priv
  pub : Storable key.pub
  apart : key.priv ≠ key.pub
  aad : (aadFor keyfileVersion key.keyType).length ≤ Crypto.limit
  short : ∀ seed, (key.pubFromSeed seed).length ≤ maxKeyfileSize

/-- Public keys are no larger than what is read back. -/
def ShortKeys (X : Crypto) : Prop := ∀ seed,
  (X.ed25519PubFromSeed seed).length ≤ maxKeyfileSize ∧
    (X.mldsa87PubFromSeed seed).length ≤ maxKeyfileSize

theorem identity_storable :
    (Storable edPriv ∧ Storable edPub) ∧ Storable diliPriv ∧ Storable diliPub := by
  refine ⟨⟨⟨?_, ?_⟩, ⟨?_, ?_⟩⟩, ⟨?_, ?_⟩, ⟨?_, ?_⟩⟩ <;> decide

theorem identity_aad : (aadFor keyfileVersion ktEdSeed).length ≤ Crypto.limit ∧
    (aadFor keyfileVersion ktDiliSeed).length ≤ Crypto.limit := by decide +kernel

theorem edKey_regular {X : Crypto} (short : ShortKeys X) : (edKey X).Regular where
  priv := identity_storable.1.1
  pub := identity_storable.1.2
  apart := (by decide : edPriv ≠ edPub)
  aad := identity_aad.1
  short := fun seed => (short seed).1

theorem diliKey_regular {X : Crypto} (short : ShortKeys X) : (diliKey X).Regular where
  priv := identity_storable.2.1
  pub := identity_storable.2.2
  apart := (by decide : diliPriv ≠ diliPub)
  aad := identity_aad.2
  short := fun seed => (short seed).2

section
variable {key : SeedKey} {misled : Prop} {stage next last : Stage} {seed : Fixed 32}

theorem Stage.Becomes.refl (key : SeedKey) (misled : Prop) (stage : Stage) :
    stage.Becomes key misled stage := ⟨fun _ => id, .inl rfl⟩

theorem Stage.Becomes.trans (first : stage.Becomes key misled next) (second : next.Becomes key misled last) :
    stage.Becomes key misled last := by
  refine ⟨fun seed known => second.seed seed (first.seed seed known), ?_⟩
  obtain same | ⟨absent, written⟩ := second.pub
  · obtain same' | ⟨absent, seed, known, written⟩ := first.pub
    · exact .inl (same.trans same')
    · exact .inr ⟨absent, seed, second.seed seed known, same.trans written⟩
  · refine .inr ⟨absent.imp_right fun absent => ?_, written⟩
    -- what the first change wrote would still be there
    obtain same | ⟨_, seed, _, written⟩ := first.pub
    · exact same.symm.trans absent
    · rw [absent] at written
      cases written

theorem Stage.Becomes.fill (unsealed : stage.seed = none) (seed : Fixed 32) :
    stage.Becomes key misled ⟨some seed, stage.pub⟩ := by
  refine ⟨fun other known => ?_, .inl rfl⟩
  rw [unsealed] at known
  cases known

theorem Stage.Becomes.publish (known : stage.seed = some seed) (absent : misled ∨ stage.pub = none) :
    stage.Becomes key misled ⟨some seed, some (privateFile (key.pubFromSeed seed))⟩ :=
  ⟨fun _ same => known.symm.trans same, .inr ⟨absent, seed, rfl, rfl⟩⟩

theorem Stage.foreign_of_unsealed (unsealed : stage.seed = none) (present : stage.pub ≠ none) :
    stage.Foreign key := by
  refine ⟨present, fun other known => ?_⟩
  rw [unsealed] at known
  cases known

theorem Stage.Honest.becomes (honest : stage.Honest key) (becomes : stage.Becomes key misled next) :
    next.Honest key := by
  obtain same | ⟨-, written⟩ := becomes.pub
  · exact honest.imp same.trans fun ⟨seed, known, there⟩ =>
      ⟨seed, becomes.seed seed known, same.trans there⟩
  · exact .inr written

theorem Stage.Honest.not_foreign (regular : key.Regular) (honest : stage.Honest key) :
    ¬ stage.Foreign key := by
  rintro ⟨present, differs⟩
  obtain absent | ⟨seed, known, there⟩ := honest
  · exact present absent
  · apply differs seed known
    rw [there]
    exact readNode_private (regular.short seed)

end

section
variable {X : Crypto} {mk : Key} {key : SeedKey} {v : View} {stage : Stage} {seed : Fixed 32}
  {data : Bytes}

theorem SeedKey.At.congr {v' : View} (here : key.At X mk v stage) (priv : v' key.priv = v key.priv)
    (pub : v' key.pub = v key.pub) : key.At X mk v' stage where
  absent := fun none => priv.trans (here.absent none)
  loads := fun seed known => by rw [priv]; exact here.loads seed known
  pub := pub.trans here.pub

theorem SeedKey.At.publish (regular : key.Regular) (here : key.At X mk v stage)
    (known : stage.seed = some seed) :
    key.At X mk (Function.update v key.pub (some (privateFile (key.pubFromSeed seed))))
      ⟨some seed, some (privateFile (key.pubFromSeed seed))⟩ where
  absent := fun none => by cases none
  loads := fun other same => by
    rw [Function.update_of_ne regular.apart]
    exact here.loads other (known.trans same)
  pub := Function.update_self ..

theorem SeedKey.At.save (lawful : X.Lawful) (regular : key.Regular) (here : key.At X mk v stage)
    {draws : SealDraws} (sealed : sealRecord X mk seed.1 key.keyType draws = .ok data) :
    key.At X mk (Function.update v key.priv (some (privateFile data))) ⟨some seed, stage.pub⟩ where
  absent := fun none => by cases none
  loads := fun other same => by
    cases same
    rw [Function.update_self]
    apply loadNode_sealed lawful _ sealed
    rw [seed.2]
    decide
  pub := by
    rw [Function.update_of_ne (Ne.symm regular.apart)]
    exact here.pub

theorem SeedKey.At.file (here : key.At X mk v stage) :
    ∀ node, v key.priv = some node → node.ftype ≠ .directory := by
  intro node found
  cases known : stage.seed with
  | none =>
    rw [here.absent known] at found
    cases found
  | some seed =>
    obtain ⟨_, _, there, regular, _⟩ := loadNode_ok (here.loads seed known)
    rw [← Option.some.inj (there.symm.trans found), regular]
    decide

theorem SeedKey.At.seed_isSome {w : World} (regular : key.Regular)
    (here : key.At X mk w.view stage) : stage.seed.isSome = (w.fs.stat key.priv).isSome := by
  cases known : stage.seed with
  | none =>
    have absent := here.absent known
    rw [view_of_visible regular.priv.1] at absent
    simp [FileSystem.stat, absent]
  | some seed =>
    obtain ⟨found, _, entry, file, _⟩ := loadNode_ok (here.loads seed known)
    rw [view_of_visible regular.priv.1] at entry
    simp [FileSystem.stat, entry, file]

end

/-- What the creation of an identity key rests on: `held` says what else is known, and
is not affected by the files of the key; `fits` says which stages may occur. -/
structure Founding (X : Crypto) (mk : Key) (key : SeedKey) (misled : Prop) (fits : Stage → Prop) (tid : Tid)
    (inv held : World → Prop) : Prop where
  invSteady : Steady tid inv
  steady : Steady tid held
  aside : ∀ w w' path data, path = key.priv ∨ path = key.pub → held w →
    Step tid (Function.update w.view path (some (privateFile data))) w w' → held w'
  sound : ∀ w stage, held w → fits stage → key.At X mk w.view stage → inv w
  closed : ∀ stage next, fits stage → stage.Becomes key misled next → fits next

def Furnished (key : SeedKey) (w : World) : Prop :=
  PrivateDir w key.priv.tail ∧ PrivateDir w key.pub.tail ∧ StampsFree w

def missingPublicKey (key : SeedKey) : LithiumError :=
  .invalidPublicKey key.keyType "public_key_missing"

/-- Why a key is refused although no call fails: under the strict policy its public file
is missing, or something else is in its place. -/
def SeedKey.Refuses (key : SeedKey) (policy : PublicCachePolicy) (stage : Stage) (e : LithiumError) : Prop :=
  (policy = .strict ∧ stage.Unpublished) ∧ e = missingPublicKey key ∨ stage.Foreign key

/-- What `ensure_seed_keypair` makes of a key. With success its seed is sealed and the public
file holds the derived key, which is the result; under the strict policy it was there before. -/
def Seeded (X : Crypto) (mk : Key) (key : SeedKey) (misled : Prop) (policy : PublicCachePolicy)
    (excuse : Prop) (stage : Stage) (v : View) : Except LithiumError Bytes → Prop
  | .ok publicKey => ∃ next seed, stage.Becomes key misled next ∧ key.At X mk v next ∧
      next.seed = some seed ∧ publicKey = key.pubFromSeed seed ∧ readNode next.pub = .ok publicKey ∧
      (policy = .strict → ¬ stage.Unpublished)
  | .error e => ∃ next, stage.Becomes key misled next ∧ key.At X mk v next ∧
      (excuse ∨ next = stage ∧ key.Refuses policy stage e)

section
variable {X : Crypto} {mk : Key} {key : SeedKey} {misled : Prop} {fits : Stage → Prop} {env : Env} {tid : Tid}
  {inv held : World → Prop} {excuse : Prop} {stage : Stage} {seed : Fixed 32} {policy : PublicCachePolicy}

theorem Founding.keeps (founding : Founding X mk key misled fits tid inv held) (env : Env) (stage : Stage) :
    Keeps (Solo env tid inv) tid fun w => held w ∧ key.At X mk w.view stage :=
  keeps_solo founding.invSteady (founding.steady.and (steady_view fun v _ => key.At X mk v stage))

theorem Founding.publishes (founding : Founding X mk key misled fits tid inv held) (env : Env) (stage : Stage)
    {path : Path} {data : Bytes} {next : Stage} (own : path = key.priv ∨ path = key.pub) (fit : fits next)
    (put : ∀ v, key.At X mk v stage →
      key.At X mk (Function.update v path (some (privateFile data))) next) :
    Publishes (Solo env tid inv) tid path data (fun _ => True)
      (fun w => held w ∧ key.At X mk w.view stage) (fun w => held w ∧ key.At X mk w.view next) := by
  refine ⟨founding.keeps env stage, founding.keeps env next, fun {w w'} here _ _ step => ?_⟩
  have there := founding.aside w w' path data own here.1 step
  have reached : key.At X mk w'.view next := by
    rw [step.view]
    exact put _ here.2
  exact ⟨founding.sound w' next there fit reached, trivial, there, reached⟩

/-- Where a seed is sealed, its public key can be written over anything but a directory. -/
theorem Furnished.ready {w : World} (furnished : Furnished key w) (regular : key.Regular)
    (here : key.At X mk w.view stage) :
    Ready key.priv w ∧ (stage.pub = none → Ready key.pub w) := by
  obtain ⟨priv, pub, fresh⟩ := furnished
  refine ⟨⟨.inl priv, fresh, fun old found => here.file old ?_⟩,
    fun absent => ⟨.inl pub, fresh, fun old found => ?_⟩⟩
  · rwa [view_of_visible regular.priv.1]
  · rw [← view_of_visible regular.pub.1, here.pub, absent] at found
    cases found

theorem writePublicKey_spec (regular : key.Regular) (founding : Founding X mk key misled fits tid inv held)
    (calm : ¬ excuse → env.faults = false ∧ stage.pub = none ∧ ∀ w, held w → Furnished key w)
    (fit : fits stage) (known : stage.seed = some seed) (absent : misled ∨ stage.pub = none) :
    Triple (Solo env tid inv) (fun w => held w ∧ key.At X mk w.view stage)
      (writePublicKey key.pub (key.pubFromSeed seed)) fun result w => held w ∧ match result with
        | .ok _ => key.At X mk w.view ⟨some seed, some (privateFile (key.pubFromSeed seed))⟩
        | .error _ => (∃ next, stage.Becomes key misled next ∧ key.At X mk w.view next) ∧ excuse := by
  have becomes : stage.Becomes key misled ⟨some seed, some (privateFile (key.pubFromSeed seed))⟩ :=
    .publish known absent
  have publishes := founding.publishes env stage (.inr rfl) (founding.closed _ _ fit becomes)
    fun v here => here.publish regular known
  refine Triple.bind (writeSecure_spec (party_solo env tid inv) publishes regular.pub fun none =>
    ⟨calm_solo (calm none).1, fun w here =>
      (((calm none).2.2 w here.1).ready regular here.2).2 (calm none).2.1⟩)
    (fun _ => ?_) fun e w ended => ⟨ended.1.1, ⟨stage, .refl key misled stage, ended.1.2⟩, ended.2⟩
  refine (syncParent_spec excuse founding.invSteady (founding.steady.and (steady_view fun v _ =>
    key.At X mk v ⟨some seed, some (privateFile (key.pubFromSeed seed))⟩)) regular.pub fun none =>
      ⟨(calm none).1, fun w here => .inr ((calm none).2.2 w here.1).2.1.isDir⟩).weaken
    fun result w ended => ⟨ended.1.1, ?_⟩
  cases result with
  | ok _ => exact ended.1.2
  | error e => exact ⟨⟨_, becomes, ended.1.2⟩, ended.2.resolve_right (by simp)⟩

/-- Reading an entry reports that nothing is found only where nothing is. -/
theorem readNode_notFound {node : Option Node} {e : LithiumError} (read : readNode node = .error e)
    (missing : e.isNotFound = true) : node = none := by
  match node with
  | none => rfl
  | some node =>
    simp only [readNode] at read
    split at read
    · cases read
      cases missing
    · cases checked : checkKeyfileMetadata node.metadata with
      | ok _ =>
        rw [checked] at read
        cases read
      | error other =>
        rw [checked] at read
        cases read
        unfold checkKeyfileMetadata at checked
        split_ifs at checked <;> cases checked <;> cases missing

/-- Reconciling never changes the seed, nor a public file that was there. -/
theorem reconcilePublicCache_spec (regular : key.Regular)
    (founding : Founding X mk key misled fits tid inv held)
    (calm : ¬ excuse → env.faults = false ∧ ∀ w, held w → Furnished key w)
    (candid : env.Denies (.openRead key.pub) → misled) (fit : fits stage)
    (known : stage.seed = some seed) :
    Triple (Solo env tid inv) (fun w => held w ∧ key.At X mk w.view stage)
      (reconcilePublicCache key.pub (key.pubFromSeed seed) policy key.keyType)
      fun result w => held w ∧
        Seeded X mk key misled policy excuse stage w.view (result.map fun _ => key.pubFromSeed seed) := by
  have refl := Stage.Becomes.refl key misled stage
  refine Triple.attempt_bind (readKeyfileBytes_denies (party_solo env tid inv) still_solo key.pub)
    fun result => ?_
  rintro w ⟨⟨here, there⟩, answers, denied⟩
  rw [← view_of_visible regular.pub.1, there.pub] at answers denied
  cases result with
  | ok onDisk =>
    have read := answers.ok
    have present : stage.pub ≠ none := by
      obtain ⟨found, entry, _⟩ := readNode_ok read
      simp [entry]
    dsimp only
    split
    · next differs =>
      refine ⟨here, stage, refl, there, .inr ⟨rfl, .inr ⟨present, fun other same => ?_⟩⟩⟩
      rw [known] at same
      cases same
      rw [read]
      exact fun equal => differs (Except.ok.inj equal)
    · next equal =>
      rw [not_not] at equal
      subst equal
      exact ⟨here, stage, seed, refl, there, known, rfl, read,
        fun _ unpublished => present unpublished.2⟩
  | error e =>
    have reason : excuse ∨ readNode stage.pub = .error e :=
      (answers.excused_or fun none => (calm none).1).imp_right Eq.symm
    dsimp only
    split
    · next missing =>
      have natural : excuse ∨ stage.pub = none := reason.imp_right fun read => readNode_notFound read missing
      have absent : misled ∨ stage.pub = none := (denied e rfl missing).symm.imp candid
        fun read => readNode_notFound read missing
      cases policy with
      | strict =>
        refine ⟨here, stage, refl, there, natural.imp_right fun absent => ⟨rfl, .inl ⟨⟨rfl, ?_, absent⟩, rfl⟩⟩⟩
        simp [known]
      | repairMissingOnly =>
        refine (writePublicKey_spec regular founding (fun none => ⟨(calm none).1,
          natural.resolve_left none, (calm none).2⟩) fit known absent w ⟨here, there⟩).mono
          fun result w ended => ⟨ended.1, ?_⟩
        cases result with
        | ok _ =>
          exact ⟨_, seed, .publish known absent, ended.2, rfl, rfl, readNode_private (regular.short seed),
            by rintro ⟨⟩⟩
        | error e =>
          obtain ⟨⟨next, becomes, reached⟩, excused⟩ := ended.2
          exact ⟨next, becomes, reached, .inl excused⟩
    · next other =>
      refine ⟨here, stage, refl, there, reason.imp_right fun read => ⟨rfl, .inr ⟨fun absent => ?_, ?_⟩⟩⟩
      · rw [absent] at read
        cases read
        exact other rfl
      · intro _ _
        rw [read]
        rintro ⟨⟩

/-- A seed that is sealed is opened, and its public file reconciled. -/
theorem openSeedKeypair_spec (regular : key.Regular)
    (founding : Founding X mk key misled fits tid inv held)
    (calm : ¬ excuse → env.faults = false ∧ ∀ w, held w → Furnished key w)
    (candid : env.Denies (.openRead key.pub) → misled) (fit : fits stage)
    (known : stage.seed = some seed) :
    Triple (Solo env tid inv) (fun w => held w ∧ key.At X mk w.view stage)
      (do
        let payload ← loadBytesDecrypted X key.priv mk key.keyType
        let seed ← Program.done (Fixed.fromSlice 32 payload)
        Program.done (← call (.arenaClaim 32))
        reconcilePublicCache key.pub (key.pubFromSeed seed) policy key.keyType
        return key.pubFromSeed seed : Prog Bytes)
      fun result w => held w ∧ Seeded X mk key misled policy excuse stage w.view result := by
  have failed : ∀ e w, held w ∧ key.At X mk w.view stage → excuse →
      held w ∧ Seeded X mk key misled policy excuse stage w.view (.error e) := fun e w here excused =>
    ⟨here.1, stage, .refl key misled stage, here.2, .inl excused⟩
  refine Triple.bind (loadBytesDecrypted_spec X (party_solo env tid inv) still_solo key.priv mk
    key.keyType) ?_ ?_
  · rintro payload w ⟨here, answers⟩
    rw [← view_of_visible regular.priv.1, here.2.loads seed known] at answers
    cases answers.ok
    have sliced : Fixed.fromSlice 32 seed.1 = .ok seed := dif_pos seed.2
    rw [sliced]
    refine arenaClaim_spec (fun w => held w ∧ key.At X mk w.view stage) ?_
      (fun e w here faults => failed e w here (excused_of_faults (fun none => (calm none).1) faults))
      w here
    exact Triple.bind (reconcilePublicCache_spec regular founding calm candid fit known)
      (fun _ => Triple.done fun w ended => ended) fun e w ended => ended
  · rintro e w ⟨here, answers⟩
    rw [← view_of_visible regular.priv.1, here.2.loads seed known] at answers
    obtain excused | natural := answers.excused_or fun none => (calm none).1
    · exact failed e w here excused
    · cases natural

/-- A new seed is sealed before its public key is written, so that no crash leaves a public
key without a secret. -/
theorem createSeedKeypair_spec (lawful : X.Lawful) (regular : key.Regular)
    (founding : Founding X mk key misled fits tid inv held)
    (calm : ¬ excuse → env.faults = false ∧ ∀ w, held w → Furnished key w) (fit : fits stage)
    (unsealed : stage.seed = none) (natural : excuse ∨ stage.pub = none)
    (absent : misled ∨ stage.pub = none) :
    Triple (Solo env tid inv) (fun w => held w ∧ key.At X mk w.view stage)
      (do
        Program.done (← call (.arenaClaim 32))
        let seed ← randomFixed .seed
        saveBytesEncrypted X key.priv mk seed.1 key.keyType
        writePublicKey key.pub (key.pubFromSeed seed)
        return key.pubFromSeed seed : Prog Bytes)
      fun result w => held w ∧ Seeded X mk key misled policy excuse stage w.view result := by
  have party := party_solo env tid inv
  have faulty : env.faults = true → excuse := excused_of_faults fun none => (calm none).1
  have failed : ∀ e w, held w ∧ key.At X mk w.view stage → excuse →
      held w ∧ Seeded X mk key misled policy excuse stage w.view (.error e) := fun e w here excused =>
    ⟨here.1, stage, .refl key misled stage, here.2, .inl excused⟩
  refine arenaClaim_spec (fun w => held w ∧ key.At X mk w.view stage) ?_
    fun e w here faults => failed e w here (faulty faults)
  refine Triple.bind (randomFixed_spec party still_solo .seed) (fun seed => ?_)
    fun e w drawn => failed e w drawn.1 (faulty drawn.2)
  have becomes : stage.Becomes key misled ⟨some seed, stage.pub⟩ := .fill unsealed seed
  have fit' := founding.closed _ _ fit becomes
  have save : Triple (Solo env tid inv) (fun w => held w ∧ key.At X mk w.view stage)
      (saveBytesEncrypted X key.priv mk seed.1 key.keyType) fun result w => match result with
        | .ok _ => held w ∧ key.At X mk w.view ⟨some seed, stage.pub⟩
        | .error _ => (held w ∧ key.At X mk w.view stage) ∧ excuse :=
    saveBytesEncrypted_spec X party (fun draws data sealed =>
      founding.publishes env stage (.inl rfl) fit' fun v there => there.save lawful regular sealed)
      (founding.keeps env stage)
      (fun draws => sealRecord_within lawful draws regular.aad (by rw [seed.2]; decide))
      regular.priv fun none => ⟨calm_solo (calm none).1, fun w here =>
        (((calm none).2 w here.1).ready regular here.2).1⟩
  refine (Triple.bind save (fun _ => ?_) fun e w ended => failed e w ended.1 ended.2).mono
    (fun _ drawn => drawn.1) fun _ _ ended => ended
  refine Triple.bind (writePublicKey_spec regular founding (fun none => ⟨(calm none).1,
    natural.resolve_left none, (calm none).2⟩) fit' rfl absent) (fun _ => ?_) ?_
  · rintro w ⟨here, complete⟩
    exact ⟨here, _, seed, becomes.trans (.publish rfl absent), complete, rfl, rfl,
      readNode_private (regular.short seed), fun _ unpublished => unpublished.1 unsealed⟩
  · rintro e w ⟨here, ⟨next, further, there⟩, excused⟩
    exact ⟨here, next, becomes.trans further, there, .inl excused⟩

theorem ensureSeedKeypair_spec (lawful : X.Lawful) (regular : key.Regular)
    (founding : Founding X mk key misled fits tid inv held)
    (calm : ¬ excuse → env.faults = false ∧ ∀ w, held w → Furnished key w) (sees : env.Sees key.priv)
    (candid : env.Denies (.openRead key.pub) → misled) (fit : fits stage) :
    Triple (Solo env tid inv) (fun w => held w ∧ key.At X mk w.view stage)
      (ensureSeedKeypair X key.priv key.pub mk key.keyType policy key.pubFromSeed)
      fun result w => held w ∧ Seeded X mk key misled policy excuse stage w.view result := by
  have party := party_solo env tid inv
  have still : Still (Solo env tid inv) fun w => held w ∧ key.At X mk w.view stage := still_solo
  have refl := Stage.Becomes.refl key misled stage
  refine Triple.bind (pathExists_sees party still sees) (fun there => ?_)
    fun e w seen => absurd seen.2 (by simp)
  rintro w ⟨here, seen⟩
  have sealed : stage.seed.isSome = there :=
    (here.2.seed_isSome regular).trans (Except.ok.inj seen).symm
  cases there with
  | true =>
    obtain ⟨seed, known⟩ := Option.isSome_iff_exists.mp sealed
    exact openSeedKeypair_spec regular founding calm candid fit known w here
  | false =>
    have unsealed : stage.seed = none := by simpa using sealed
    refine Triple.attempt_bind (readKeyfileBytes_denies party still key.pub) (fun result => ?_) w here
    rintro w ⟨here, answers, denied⟩
    rw [← view_of_visible regular.pub.1, here.2.pub] at answers denied
    cases result with
    | ok onDisk =>
      obtain ⟨found, entry, _⟩ := readNode_ok answers.ok
      have present : stage.pub ≠ none := by simp [entry]
      exact ⟨here.1, stage, refl, here.2, .inr ⟨rfl, .inr (stage.foreign_of_unsealed unsealed present)⟩⟩
    | error e =>
      have reason : excuse ∨ readNode stage.pub = .error e :=
        (answers.excused_or fun none => (calm none).1).imp_right Eq.symm
      dsimp only
      split
      · next missing =>
        exact createSeedKeypair_spec lawful regular founding calm fit unsealed
          (reason.imp_right fun read => readNode_notFound read missing)
          ((denied e rfl missing).symm.imp candid fun read => readNode_notFound read missing) w here
      · next other =>
        refine ⟨here.1, stage, refl, here.2, reason.imp_right fun read => ⟨rfl, .inr ?_⟩⟩
        refine stage.foreign_of_unsealed unsealed fun absent => ?_
        rw [absent] at read
        cases read
        exact other rfl

end

def identityFiles : List Path := [edPriv, edPub, diliPriv, diliPub]

/-- How ensuring both keys ends, given how far each had come. -/
def Identified (X : Crypto) (mk : Key) (misled : Prop) (policy : PublicCachePolicy) (excuse : Prop)
    (ed dili : Stage) (v : View) : Except LithiumError PublicKeys → Prop
  | .ok keys => Seeded X mk (edKey X) misled policy excuse ed v (.ok keys.ed25519) ∧
      Seeded X mk (diliKey X) misled policy excuse dili v (.ok keys.dilithium)
  | .error e => ∃ ed' dili', (ed.Becomes (edKey X) misled ed' ∧ dili.Becomes (diliKey X) misled dili') ∧
      ((edKey X).At X mk v ed' ∧ (diliKey X).At X mk v dili') ∧
      (excuse ∨ dili' = dili ∧ ((edKey X).Refuses policy ed e ∨ (diliKey X).Refuses policy dili e))

/-- What the identity keys rest on where calls may fail: the sealed seeds are seen, and a public
file that is reported missing is missing, unless the manager may be `misled`. -/
structure Env.Candid (env : Env) (misled : Prop) : Prop where
  edSeen : env.Sees edPriv
  diliSeen : env.Sees diliPriv
  edRead : env.Denies (.openRead edPub) → misled
  diliRead : env.Denies (.openRead diliPub) → misled

theorem Env.Candid.of_faultless {env : Env} {misled : Prop} (faultless : env.faults = false) :
    env.Candid misled where
  edSeen := .inl faultless
  diliSeen := .inl faultless
  edRead denies := absurd denies (Env.not_denies faultless _)
  diliRead denies := absurd denies (Env.not_denies faultless _)

section
variable {X : Crypto} {mk : Key} {misled : Prop} {fits : SeedKey → Stage → Prop} {env : Env} {tid : Tid}
  {inv held : World → Prop} {excuse : Prop} {ed dili : Stage} {policy : PublicCachePolicy}

structure FoundingBoth (X : Crypto) (mk : Key) (misled : Prop) (fits : SeedKey → Stage → Prop) (tid : Tid)
    (inv held : World → Prop) : Prop where
  invSteady : Steady tid inv
  steady : Steady tid held
  aside : ∀ w w' path data, path ∈ identityFiles → held w →
    Step tid (Function.update w.view path (some (privateFile data))) w w' → held w'
  sound : ∀ w ed dili, held w → fits (edKey X) ed → fits (diliKey X) dili →
    (edKey X).At X mk w.view ed → (diliKey X).At X mk w.view dili → inv w
  closed : ∀ key stage next, fits key stage → stage.Becomes key misled next → fits key next

/-- The files of one key do not matter to the other. -/
theorem FoundingBoth.beside (both : FoundingBoth X mk misled fits tid inv held) {key other : SeedKey} {stage : Stage}
    (apart : ∀ path, path = key.priv ∨ path = key.pub →
      path ∈ identityFiles ∧ other.priv ≠ path ∧ other.pub ≠ path)
    (sound : ∀ w next, held w → fits key next → other.At X mk w.view stage → key.At X mk w.view next → inv w) :
    Founding X mk key misled (fits key) tid inv fun w => held w ∧ other.At X mk w.view stage where
  invSteady := both.invSteady
  steady := both.steady.and (steady_view fun v _ => other.At X mk v stage)
  sound := fun w next here fit there => sound w next here.1 fit here.2 there
  closed := both.closed key
  aside := fun w w' path data own here step => by
    obtain ⟨member, priv, pub⟩ := apart path own
    refine ⟨both.aside w w' path data member here.1 step, here.2.congr ?_ ?_⟩ <;> rw [step.view]
    · exact Function.update_of_ne priv _ _
    · exact Function.update_of_ne pub _ _

theorem FoundingBoth.forEd (both : FoundingBoth X mk misled fits tid inv held) (fit : fits (diliKey X) dili) :
    Founding X mk (edKey X) misled (fits (edKey X)) tid inv fun w => held w ∧ (diliKey X).At X mk w.view dili := by
  refine both.beside ?_ fun w ed here edFit diliAt edAt => both.sound w ed dili here edFit fit edAt diliAt
  rintro _ (rfl | rfl)
  · exact (by decide : edPriv ∈ identityFiles ∧ diliPriv ≠ edPriv ∧ diliPub ≠ edPriv)
  · exact (by decide : edPub ∈ identityFiles ∧ diliPriv ≠ edPub ∧ diliPub ≠ edPub)

theorem FoundingBoth.forDili (both : FoundingBoth X mk misled fits tid inv held) (fit : fits (edKey X) ed) :
    Founding X mk (diliKey X) misled (fits (diliKey X)) tid inv fun w => held w ∧ (edKey X).At X mk w.view ed := by
  refine both.beside ?_ fun w dili here diliFit edAt diliAt => both.sound w ed dili here fit diliFit edAt diliAt
  rintro _ (rfl | rfl)
  · exact (by decide : diliPriv ∈ identityFiles ∧ edPriv ≠ diliPriv ∧ edPub ≠ diliPriv)
  · exact (by decide : diliPub ∈ identityFiles ∧ edPriv ≠ diliPub ∧ edPub ≠ diliPub)

theorem ensureAsymmetricMaterial_spec (lawful : X.Lawful) (short : ShortKeys X)
    (both : FoundingBoth X mk misled fits tid inv held)
    (calm : ¬ excuse → env.faults = false ∧
      ∀ w, held w → PrivateDir w pubDir ∧ PrivateDir w privDir ∧ StampsFree w)
    (candid : env.Candid misled) (edFit : fits (edKey X) ed) (diliFit : fits (diliKey X) dili) :
    Triple (Solo env tid inv)
      (fun w => held w ∧ (edKey X).At X mk w.view ed ∧ (diliKey X).At X mk w.view dili)
      (ensureAsymmetricMaterial X mk policy)
      fun result w => held w ∧ Identified X mk misled policy excuse ed dili w.view result := by
  have party := party_solo env tid inv
  have edRefl := Stage.Becomes.refl (edKey X) misled ed
  have diliRefl := Stage.Becomes.refl (diliKey X) misled dili
  have keeps : Keeps (Solo env tid inv) tid fun w =>
      held w ∧ (edKey X).At X mk w.view ed ∧ (diliKey X).At X mk w.view dili :=
    keeps_solo both.invSteady (both.steady.and (steady_view fun v _ =>
      (edKey X).At X mk v ed ∧ (diliKey X).At X mk v dili))
  have failed : ∀ e w, held w ∧ (edKey X).At X mk w.view ed ∧ (diliKey X).At X mk w.view dili →
      excuse → held w ∧ Identified X mk misled policy excuse ed dili w.view (.error e) :=
    fun e w here excused => ⟨here.1, ed, dili, ⟨edRefl, diliRefl⟩, here.2, .inl excused⟩
  have furnished : ∀ key, key = edKey X ∨ key = diliKey X → ¬ excuse →
      env.faults = false ∧ ∀ w, held w → Furnished key w := fun key own none => by
    refine ⟨(calm none).1, fun w here => ?_⟩
    obtain ⟨pub, priv, fresh⟩ := (calm none).2 w here
    obtain rfl | rfl := own <;> exact ⟨priv, pub, fresh⟩
  refine Triple.bind (ensurePrivateDir_spec party keeps pubDir (by decide) fun none =>
    ⟨calm_solo (calm none).1, fun w here => .inl ((calm none).2 w here.1).1⟩) (fun _ => ?_)
    fun e w ended => failed e w ended.1 (ended.2.resolve_right (by simp))
  refine (Triple.bind (ensurePrivateDir_spec party keeps privDir (by decide) fun none =>
    ⟨calm_solo (calm none).1, fun w here => .inl ((calm none).2 w here.1).2.1⟩) (fun _ => ?_)
    fun e w ended => failed e w ended.1 (ended.2.resolve_right (by simp))).mono (fun w here => here.1)
    fun _ _ ended => ended
  refine (Triple.bind (ensureSeedKeypair_spec lawful (edKey_regular short) (both.forEd diliFit)
    (fun none => ⟨(calm none).1, fun w here => (furnished _ (.inl rfl) none).2 w here.1⟩)
    candid.edSeen candid.edRead edFit)
    (fun edPk => ?_) ?_).mono (fun w here => ⟨⟨here.1.1, here.1.2.2⟩, here.1.2.1⟩) fun _ _ ended => ended
  · rintro w ⟨⟨here, diliAt⟩, ed', edSeed, edBecomes, edAt, edKnown, edDerived, edRead, edWhy⟩
    refine Triple.bind (ensureSeedKeypair_spec lawful (diliKey_regular short)
      (both.forDili (both.closed _ _ _ edFit edBecomes)) (fun none => ⟨(calm none).1, fun w here =>
        (furnished _ (.inr rfl) none).2 w here.1⟩) candid.diliSeen candid.diliRead diliFit) (fun diliPk => ?_) ?_ w ⟨⟨here, edAt⟩, diliAt⟩
    · rintro w ⟨⟨here, edAt⟩, seeded⟩
      exact ⟨here, ⟨ed', edSeed, edBecomes, edAt, edKnown, edDerived, edRead, edWhy⟩, seeded⟩
    · rintro e w ⟨⟨here, edAt⟩, dili', diliBecomes, diliAt, reason⟩
      exact ⟨here, ed', dili', ⟨edBecomes, diliBecomes⟩, ⟨edAt, diliAt⟩,
        reason.imp_right fun natural => ⟨natural.1, .inr natural.2⟩⟩
  · rintro e w ⟨⟨here, diliAt⟩, ed', edBecomes, edAt, reason⟩
    exact ⟨here, ed', dili, ⟨edBecomes, diliRefl⟩, ⟨edAt, diliAt⟩, reason.imp_right fun natural =>
      ⟨rfl, .inl natural.2⟩⟩

end

end Lithium.Keys
