import Lithium.Keys.FirstStart
import Lithium.Keys.Solitary

/-! The identity a manager publishes, over runs of starts, reloads and rotations in which
somebody else replaces the public files in between. The two seeds sealed in `priv` decide;
a public file is compared with them and never trusted. -/
namespace Lithium.Keys
open Effects Storage

/-- Any stage may occur where the public files are not the manager's alone. -/
abbrev AnyStage (_ : SeedKey) (_ : Stage) : Prop := True

/-- Every labelled secret opens. Before there is a master key there is none. -/
def LabelsOpen (X : Crypto) (provided : Option Key) (v : View) : Prop :=
  ∀ mk, provided = none ∨ provided = some mk → ∀ path keyType, keyTypeOf path = some keyType →
    path ∉ identityFiles → v path = none ∨ ∃ payload, loadNode X (v path) mk keyType = .ok payload

/-- A store between two operations, with whatever in the place of the public files. -/
structure Stored (X : Crypto) (w : World) : Prop where
  founded : Founded X AnyStage w
  labels : LabelsOpen X w.control.providerMk w.view

/-- Under these circumstances a manager serves the store: it has made the directories and
has a master key. -/
def Serving (w : World) : Prop := ∃ mk, Opening (some mk) w.view False storeDirs w

/-- The public files are replaced or removed, and nothing else changes. -/
structure Tampered (w w' : World) : Prop where
  rest : ∀ path, path ≠ edPub → path ≠ diliPub → w'.fs.get path = w.fs.get path
  control : w'.control = w.control
  pid : w'.pid = w.pid
  stamps : w'.stamps = w.stamps

/-- A store and what `public_keys()` returns, if a manager serves it. -/
structure Service where
  world : World
  keys : Option PublicKeys

/-- What the published identity rests on where calls may fail: the sealed seeds are seen, and
neither a public file nor the provider's key is reported missing that is there. -/
structure Env.Faithful (env : Env) : Prop where
  files : env.Candid False
  provider : ¬ env.Denies .loadMk

theorem Env.Faithful.of_faultless {env : Env} (faultless : env.faults = false) : env.Faithful :=
  ⟨.of_faultless faultless, Env.not_denies faultless _⟩

/-- What can happen to a store. The calls of starts and reloads may fail. -/
inductive Happens (X : Crypto) (cached : Bool) : Service → Service → Prop where
  | tampered {w w' keys} : Tampered w w' → Happens X cached ⟨w, keys⟩ ⟨w', keys⟩
  | started {env tid pid config result w w' keys} : env.Faithful → Unclaimed w pid →
      Returns (sem env tid) (startWithConfig X cached config) (w.restart pid) result w' →
      Happens X cached ⟨w, keys⟩ ⟨w', result.toOption⟩
  | reloaded {env tid policy reply w w' keys keys'} : env.Faithful →
      Returns (sem env tid) (reloadPublicKeys X policy keys) w (.ok (reply, keys')) w' →
      Happens X cached ⟨w, some keys⟩ ⟨w', some keys'⟩
  | rotated {env tid result w w' keys} : env.faults = false →
      Returns (sem env tid) (rotateNow X cached) w result w' →
      Happens X cached ⟨w, some keys⟩ ⟨w', some keys⟩

def SeedKey.Sealed (X : Crypto) (key : SeedKey) (w : World) (seed : Fixed 32) : Prop :=
  ∃ mk, w.control.providerMk = some mk ∧ loadNode X (w.view key.priv) mk key.keyType = .ok seed.1

def identityKeys (X : Crypto) : List SeedKey := [edKey X, diliKey X]

theorem mem_identityKeys {X : Crypto} {key : SeedKey} :
    key ∈ identityKeys X ↔ key = edKey X ∨ key = diliKey X := by simp [identityKeys]

def SeedsKept (X : Crypto) (w w' : World) : Prop :=
  ∀ key ∈ identityKeys X, ∀ seed, key.Sealed X w seed → key.Sealed X w' seed

/-- What an operation made of one key: its seed stays, so does a public file that was
there, and a key is returned only if it belongs to the seed and to that file. -/
def Handled (X : Crypto) (mk : Key) (key : SeedKey) (before after : View)
    (published : Except LithiumError Bytes) : Prop :=
  ∃ stage next, key.At X mk before stage ∧ key.At X mk after next ∧ stage.Becomes key False next ∧
    ∀ publicKey, published = .ok publicKey → ∃ seed, next.seed = some seed ∧
      publicKey = key.pubFromSeed seed ∧ readNode next.pub = .ok publicKey

/-- What a start or a reload made of a store. -/
structure Renewed (X : Crypto) (before after : World) (published : Except LithiumError PublicKeys) :
    Prop where
  stored : Stored X after
  serving : ∀ keys, published = .ok keys → Serving after
  keys : ∃ mk, (before.control.providerMk = none ∨ before.control.providerMk = some mk) ∧
    (after.control.providerMk = some mk ∨
      after.control.providerMk = before.control.providerMk ∧ ∃ e, published = .error e) ∧
    Handled X mk (edKey X) before.view after.view (published.map PublicKeys.ed25519) ∧
    Handled X mk (diliKey X) before.view after.view (published.map PublicKeys.dilithium)

theorem readNode_data {node : Node} {data : Bytes} (read : readNode (some node) = .ok data) :
    node.data = data := by
  simp only [readNode] at read
  split at read
  · cases read
  · simp only [checkKeyfileMetadata] at read
    repeat' split at read
    all_goals cases read
    next small _ =>
    refine (List.take_of_length_le ?_).symm
    exact Nat.le_of_not_lt small

section
variable {X : Crypto} {mk : Key} {key : SeedKey} {before after : View}

theorem Seeded.handled {stage : Stage} {policy : PublicCachePolicy} {excuse : Prop} {publicKey : Bytes}
    (here : key.At X mk before stage)
    (seeded : Seeded X mk key False policy excuse stage after (.ok publicKey)) :
    Handled X mk key before after (.ok publicKey) := by
  obtain ⟨next, seed, becomes, there, known, derived, read, _⟩ := seeded
  refine ⟨stage, next, here, there, becomes, ?_⟩
  rintro _ ⟨⟩
  exact ⟨seed, known, derived, read⟩

theorem Identified.handled {ed dili : Stage} {policy : PublicCachePolicy} {excuse : Prop}
    {published : Except LithiumError PublicKeys}
    (here : (edKey X).At X mk before ed ∧ (diliKey X).At X mk before dili)
    (identified : Identified X mk False policy excuse ed dili after published) :
    Handled X mk (edKey X) before after (published.map PublicKeys.ed25519) ∧
      Handled X mk (diliKey X) before after (published.map PublicKeys.dilithium) := by
  match published, identified with
  | .ok keys, ⟨edSeeded, diliSeeded⟩ => exact ⟨edSeeded.handled here.1, diliSeeded.handled here.2⟩
  | .error e, ⟨ed', dili', becomes, there, _⟩ =>
    exact ⟨⟨ed, ed', here.1, there.1, becomes.1, by rintro _ ⟨⟩⟩,
      ⟨dili, dili', here.2, there.2, becomes.2, by rintro _ ⟨⟩⟩⟩

theorem Handled.loads {published : Except LithiumError Bytes} {seed : Fixed 32}
    (handled : Handled X mk key before after published)
    (loads : loadNode X (before key.priv) mk key.keyType = .ok seed.1) :
    loadNode X (after key.priv) mk key.keyType = .ok seed.1 := by
  obtain ⟨stage, next, here, there, becomes, _⟩ := handled
  exact there.loads seed (becomes.seed seed (here.seed_of_loads loads))

/-- A public file with other contents was not passed, and is still there. -/
theorem Handled.foreign {published : Except LithiumError Bytes} {seed : Fixed 32} {node : Node}
    (handled : Handled X mk key before after published)
    (loads : loadNode X (before key.priv) mk key.keyType = .ok seed.1)
    (there : before key.pub = some node) (other : node.data ≠ key.pubFromSeed seed) :
    (∀ publicKey, published ≠ .ok publicKey) ∧ after key.pub = some node := by
  obtain ⟨stage, next, here, last, becomes, derived⟩ := handled
  have present : stage.pub = some node := here.pub.symm.trans there
  have same : next.pub = some node := by
    obtain same | ⟨absent, _⟩ := becomes.pub
    · exact same.trans present
    · rw [absent.resolve_left id] at present
      cases present
  refine ⟨fun publicKey succeeded => ?_, last.pub.trans same⟩
  obtain ⟨seed', known, rfl, read⟩ := derived publicKey succeeded
  rw [becomes.seed seed (here.seed_of_loads loads)] at known
  cases known
  rw [same] at read
  exact other (readNode_data read)

end

section
variable {X : Crypto} {w w' first : World} {published : Except LithiumError PublicKeys}

theorem not_lock_of_live {path : Path} {keyType : String} (live : keyTypeOf path = some keyType) :
    path ≠ lockPath := by
  rintro rfl
  have none : keyTypeOf lockPath = none := by decide
  rw [none] at live
  cases live

theorem Stored.of_opening {before : World} (stored : Stored X before) {mk : Key} {ed dili : Stage}
    (known : before.control.providerMk = none ∨ before.control.providerMk = some mk)
    (opening : Opening (some mk) before.view False storeDirs w)
    (there : (edKey X).At X mk w.view ed ∧ (diliKey X).At X mk w.view dili) : Stored X w where
  founded := ⟨opening.layout, ed, dili, ⟨trivial, trivial⟩, fun other provided => by
    rw [opening.provided] at provided
    obtain absent | same := provided
    · cases absent
    · cases same
      exact there⟩
  labels := fun other provided path keyType live label => by
    rw [opening.provided] at provided
    obtain absent | same := provided
    · cases absent
    · cases same
      rw [opening.rest path label (not_lock_of_live live) (not_below_rotate_of_live live)]
      exact stored.labels mk known path keyType live label

theorem Handled.there {mk : Key} {key : SeedKey} {before after : View}
    {published : Except LithiumError Bytes} (handled : Handled X mk key before after published) :
    ∃ next, key.At X mk after next := by
  obtain ⟨_, next, _, there, _⟩ := handled
  exact ⟨next, there⟩

theorem Opening.serving {mk : Key} {v : View} (opening : Opening (some mk) v False storeDirs w) :
    Serving w := ⟨mk, { opening with rest := fun _ _ _ _ => rfl }⟩

/-- The identity keys were handled in a store that is otherwise as it was. -/
theorem Opening.renewed {mk : Key} (stored : Stored X w)
    (known : w.control.providerMk = none ∨ w.control.providerMk = some mk)
    (opening : Opening (some mk) w.view False storeDirs w')
    (handled : Handled X mk (edKey X) w.view w'.view (published.map PublicKeys.ed25519) ∧
      Handled X mk (diliKey X) w.view w'.view (published.map PublicKeys.dilithium)) :
    Renewed X w w' published := by
  obtain ⟨ed, edAt⟩ := handled.1.there
  obtain ⟨dili, diliAt⟩ := handled.2.there
  exact ⟨stored.of_opening known opening ⟨edAt, diliAt⟩, fun _ _ => opening.serving, mk, known,
    .inl opening.provided, handled⟩

theorem exists_provided (provided : Option Key) : ∃ mk, provided = none ∨ provided = some mk := by
  cases provided with
  | none => exact ⟨⟨List.replicate 32 0, rfl⟩, .inl rfl⟩
  | some mk => exact ⟨mk, .inr rfl⟩

/-- The key's files have come to this stage from what they were in the view `v`. -/
def Descends (X : Crypto) (provided : Option Key) (v : View) (key : SeedKey) (stage : Stage) : Prop :=
  ∃ first, (∀ mk, provided = none ∨ provided = some mk → key.At X mk v first) ∧
    first.Becomes key False stage

theorem descends_closed {provided : Option Key} {v : View} : Closed False (Descends X provided v) :=
  fun _ _ _ ⟨first, there, becomes⟩ onward => ⟨first, there, becomes.trans onward⟩

theorem IdentityAt.descends {provided : Option Key} {v : View} {ed dili : Stage}
    (identity : IdentityAt X provided v ed dili) :
    Descends X provided v (edKey X) ed ∧ Descends X provided v (diliKey X) dili :=
  ⟨⟨ed, fun mk known => (identity mk known).1, .refl _ _ _⟩,
    ⟨dili, fun mk known => (identity mk known).2, .refl _ _ _⟩⟩

theorem start_ended {env : Env} {tid : Tid} {cached : Bool} {config : KeyManagerConfig} {pid : Nat}
    {ed dili : Stage} (lawful : X.Lawful) (short : ShortKeys X) (stored : Stored X w)
    (identity : IdentityAt X w.control.providerMk w.view ed dili) (faithful : env.Faithful)
    (unclaimed : Unclaimed w pid)
    (returned : Returns (sem env tid) (startWithConfig X cached config) (w.restart pid) published w') :
    Begun X (Descends X w.control.providerMk w.view) w.control.providerMk w.view w' ∧
      Started X cached config.publicCachePolicy False False True w.control.providerMk w.view ed dili w'
        published := by
  have entering : Entering _ _ False [] (w.restart pid) :=
    entering_restart stored.founded.1 (.inr unclaimed)
  have meets : Meets (Solo env tid (Begun X (Descends X w.control.providerMk w.view) _ _)) _
      (startWithConfig X cached config) (w.restart pid) :=
    startWithConfig_spec lawful short descends_closed identity.descends identity False.elim excused
      (fun denies => absurd denies faithful.provider) faithful.files _ entering
  have began := entering.1.1.begun entering.1.2 identity.descends identity
  exact ⟨meets.stops began returned.stops, meets.returns began returned⟩

theorem Begun.renewed {e : LithiumError} (stored : Stored X w)
    (begun : Begun X (Descends X w.control.providerMk w.view) w.control.providerMk w.view w') :
    Renewed X w w' (.error e) := by
  obtain ⟨⟨layout, ed, dili, fit, identity⟩, provided, rest⟩ := begun
  have before : ∀ mk, w'.control.providerMk = none ∨ w'.control.providerMk = some mk →
      w.control.providerMk = none ∨ w.control.providerMk = some mk := fun mk known =>
    provided.elim (fun same => same ▸ known) .inl
  obtain ⟨mk, known⟩ := exists_provided w'.control.providerMk
  obtain ⟨⟨edFirst, edThere, edBecomes⟩, diliFirst, diliThere, diliBecomes⟩ := fit
  refine ⟨⟨⟨layout, ed, dili, ⟨trivial, trivial⟩, identity⟩, ?_⟩, nofun, mk, before mk known, ?_,
    ⟨edFirst, ed, edThere mk (before mk known), (identity mk known).1, edBecomes, nofun⟩,
    ⟨diliFirst, dili, diliThere mk (before mk known), (identity mk known).2, diliBecomes, nofun⟩⟩
  · intro other known path keyType live label
    rw [rest path label (not_lock_of_live live) (not_below_rotate_of_live live)]
    exact stored.labels other (before other known) path keyType live label
  · obtain none | some := known
    · exact .inr ⟨provided.elim id fun absent => none.trans absent.symm, e, rfl⟩
    · exact .inl some

theorem start_renewed {env : Env} {tid : Tid} {cached : Bool} {config : KeyManagerConfig} {pid : Nat}
    (lawful : X.Lawful) (short : ShortKeys X) (stored : Stored X w) (faithful : env.Faithful)
    (unclaimed : Unclaimed w pid)
    (returned : Returns (sem env tid) (startWithConfig X cached config) (w.restart pid) published w') :
    Renewed X w w' published := by
  obtain ⟨layout, ed, dili, fit, identity⟩ := stored.founded
  obtain ⟨begun, started⟩ := start_ended lawful short stored identity faithful unclaimed returned
  match published, started with
  | .ok keys, ⟨mk, known, opening, _, identified⟩ =>
    exact opening.renewed stored known (identified.handled (identity mk known))
  | .error e, _ => exact begun.renewed stored

theorem checkLive_spec {env : Env} {tid : Tid} {inv held : World → Prop}
    (live : ∀ w, held w → w.control.poisoned = false) :
    Triple (Solo env tid inv) held checkLive fun result w => held w ∧ result = .ok () := by
  refine observe (party_solo env tid inv) still_solo rfl fun (poisoned : Bool) => ?_
  rintro w ⟨here, seen⟩
  rw [(sem_isPoisoned seen).1, live w here]
  exact ⟨here, rfl⟩

theorem reloadPublicKeys_spec {env : Env} {tid : Tid} {mk : Key} {v : View} {ed dili : Stage}
    {policy : PublicCachePolicy} {keys : PublicKeys} (lawful : X.Lawful) (short : ShortKeys X)
    (candid : env.Candid False) :
    Triple (Solo env tid (Begun X AnyStage (some mk) v)) (fun w => Opening (some mk) v False storeDirs w ∧
        (edKey X).At X mk w.view ed ∧ (diliKey X).At X mk w.view dili)
      (reloadPublicKeys X policy keys) fun result w => ∃ published,
        result = .ok (published.map fun _ => (), published.toOption.getD keys) ∧
        Opening (some mk) v False storeDirs w ∧
          Identified X mk False policy True ed dili w.view published := by
  have material : Triple (Solo env tid (Begun X AnyStage (some mk) v))
      (fun w => Opening (some mk) v False storeDirs w ∧
        (edKey X).At X mk w.view ed ∧ (diliKey X).At X mk w.view dili)
      (ensureAsymmetricMaterial X mk policy) fun result w =>
        Opening (some mk) v False storeDirs w ∧ Identified X mk False policy True ed dili w.view result :=
    ensureAsymmetricMaterial_spec lawful short (founding_opening (fun _ _ _ _ _ => trivial) (.inr rfl))
      excused candid trivial trivial
  have reloaded : Triple (Solo env tid (Begun X AnyStage (some mk) v))
      (fun w => Opening (some mk) v False storeDirs w ∧
        (edKey X).At X mk w.view ed ∧ (diliKey X).At X mk w.view dili)
      (do checkLive; let mk ← loadMk; ensureAsymmetricMaterial X mk policy) fun result w =>
        Opening (some mk) v False storeDirs w ∧
          Identified X mk False policy True ed dili w.view result := by
    refine Triple.bind (checkLive_spec fun w here => here.1.idle.1) (fun _ => ?_)
      fun e w ended => (by cases ended.2)
    refine (Triple.bind (loadMk_spec fun w here => here.1.provided) (fun found => ?_)
      fun e w ended => ?_).mono (fun w here => here.1) fun _ _ ended => ended
    · rintro w ⟨here, answers⟩
      cases answers.ok
      exact material w here
    · obtain ⟨⟨opening, there⟩, _⟩ := ended
      exact ⟨opening, ed, dili, ⟨.refl _ _ _, .refl _ _ _⟩, there, .inl trivial⟩
  refine Triple.attempt_bind reloaded fun published => ?_
  cases published with
  | ok fresh => exact Triple.done fun w here => ⟨.ok fresh, rfl, here⟩
  | error e => exact Triple.done fun w here => ⟨.error e, rfl, here⟩

theorem reload_renewed {env : Env} {tid : Tid} {policy : PublicCachePolicy} {keys : PublicKeys}
    {result : Except LithiumError (Except LithiumError Unit × PublicKeys)}
    (lawful : X.Lawful) (short : ShortKeys X) (stored : Stored X w) (serving : Serving w)
    (faithful : env.Faithful)
    (returned : Returns (sem env tid) (reloadPublicKeys X policy keys) w result w') :
    ∃ published, result = .ok (published.map fun _ => (), published.toOption.getD keys) ∧
      Renewed X w w' published ∧ Serving w' := by
  obtain ⟨mk, opening⟩ := serving
  obtain ⟨_, ed, dili, fit, identity⟩ := stored.founded
  have known : w.control.providerMk = none ∨ w.control.providerMk = some mk := .inr opening.provided
  have meets : Meets (Solo env tid (Begun X AnyStage (some mk) w.view)) _ (reloadPublicKeys X policy keys) w :=
    reloadPublicKeys_spec lawful short faithful.files w ⟨opening, identity mk known⟩
  obtain ⟨published, same, opened, identified⟩ :=
    meets.returns ⟨stored.founded, .inl opening.provided, opening.rest⟩ returned
  exact ⟨published, same, opened.renewed stored known (identified.handled (identity mk known)),
    opened.serving⟩

theorem SeedKey.At.opens {mk : Key} {key : SeedKey} {v : View} {stage : Stage}
    (here : key.At X mk v stage) :
    v key.priv = none ∨ ∃ payload, loadNode X (v key.priv) mk key.keyType = .ok payload := by
  cases known : stage.seed with
  | none => exact .inl (here.absent known)
  | some seed => exact .inr ⟨seed.1, here.loads seed known⟩

theorem Stored.opens {mk : Key} (stored : Stored X w)
    (known : w.control.providerMk = none ∨ w.control.providerMk = some mk) (path : Path)
    (keyType : String) (live : keyTypeOf path = some keyType) :
    w.view path = none ∨ ∃ payload, loadNode X (w.view path) mk keyType = .ok payload := by
  obtain ⟨_, ed, dili, _, identity⟩ := stored.founded
  by_cases own : path ∈ identityFiles
  · have private_ : path = edPriv ∧ keyType = ktEdSeed ∨ path = diliPriv ∧ keyType = ktDiliSeed := by
      have kinds : ∀ path ∈ identityFiles, path = edPriv ∧ keyTypeOf path = some ktEdSeed ∨
          path = diliPriv ∧ keyTypeOf path = some ktDiliSeed ∨ keyTypeOf path = none := by decide
      have := kinds path own
      grind
    obtain ⟨rfl, rfl⟩ | ⟨rfl, rfl⟩ := private_
    · exact (identity mk known).1.opens
    · exact (identity mk known).2.opens
  · exact stored.labels mk known path keyType live own

theorem identity_live : keyTypeOf edPriv = some ktEdSeed ∧ keyTypeOf diliPriv = some ktDiliSeed := by
  decide

theorem LiveUnder.opens {payloads : Payloads} {mk : Key} {v : View} {path : Path} {keyType : String}
    (under : LiveUnder X payloads mk v) (live : keyTypeOf path = some keyType) :
    v path = none ∨ ∃ payload, loadNode X (v path) mk keyType = .ok payload := by
  have holds := under path keyType live
  cases held : payloads path with
  | none =>
    rw [held] at holds
    exact .inl holds
  | some payload =>
    rw [held] at holds
    exact .inr ⟨payload, holds⟩

/-- The files of a key whose seed is opened with another master key. -/
theorem SeedKey.At.rewrapped {mk mk' : Key} {key : SeedKey} {v v' : View} {stage : Stage}
    {payloads : Payloads} (here : key.At X mk v stage) (live : keyTypeOf key.priv = some key.keyType)
    (before : LiveUnder X payloads mk v) (after : LiveUnder X payloads mk' v')
    (pub : v' key.pub = v key.pub) : key.At X mk' v' stage := by
  have old := before key.priv key.keyType live
  have new := after key.priv key.keyType live
  refine ⟨fun absent => ?_, fun seed known => ?_, pub.trans here.pub⟩
  · rw [here.absent absent] at old
    cases held : payloads key.priv with
    | none =>
      rw [held] at new
      exact new
    | some payload =>
      rw [held] at old
      cases old
  · have loads := here.loads seed known
    cases held : payloads key.priv with
    | none =>
      rw [held] at old
      rw [show v key.priv = none from old] at loads
      cases loads
    | some payload =>
      rw [held] at old new
      rw [show loadNode X (v key.priv) mk key.keyType = _ from old] at loads
      cases loads
      exact new

theorem Opening.atRest {mk : Key} (stored : Stored X w)
    (opening : Opening (some mk) w.view False storeDirs w) :
    AtRest X .any (payloadsOf X mk w.view) mk w := by
  have dirs := opening.dirs
  exact {
    provided := ⟨opening.provided, trivial⟩
    unmarked := opening.layout.unmarked
    live := ⟨liveUnder_payloadsOf (stored.opens (.inr opening.provided)), fun _ _ _ _ _ => trivial⟩
    tidy := ⟨dirs _ (by decide), dirs _ (by decide), dirs _ (by decide), opening.layout.rotate,
      opening.fresh.resolve_left id⟩
    unlocked := ⟨opening.idle.2.2, opening.idle.2.1⟩ }

/-- A store at rest is served as before, whatever key its rotation has brought. -/
theorem Opening.rotated {mk mk' : Key} {custody : Custody} {payloads : Payloads} {cached : Bool}
    (opening : Opening (some mk) w.view False storeDirs w)
    (rest : AtRest X custody payloads mk' w') (untouched : Untouched w w')
    (control : w'.control = rotatedControl cached w.control mk') :
    Opening (some mk') w'.view False storeDirs w' := by
  have dirs : ∀ dir ∈ storeDirs, PrivateDir w' dir := fun dir member =>
    untouched.dirs dir (storeDirs_scaffold dir member).2 (opening.dirs dir member)
  have lock : w'.view lockPath = w.view lockPath := untouched.view lockPath ⟨by decide, by decide⟩
  exact {
    layout := {
      dirs := fun dir member => .inr (dirs dir member)
      rotate := rest.tidy.rotate
      lock := fun node found => opening.layout.lock node (lock ▸ found)
      unmarked := rest.unmarked }
    provided := rest.provided.1
    idle := by
      rw [control]
      exact opening.idle
    rest := fun _ _ _ _ => rfl
    fresh := .inr rest.tidy.fresh
    dirs := dirs }

theorem IdentityAt.seedsKept {mk mk' : Key} {ed dili : Stage} (old : w.control.providerMk = some mk)
    (new : w'.control.providerMk = some mk') (before : IdentityAt X (some mk) w.view ed dili)
    (after : IdentityAt X (some mk') w'.view ed dili) : SeedsKept X w w' := by
  obtain ⟨edBefore, diliBefore⟩ := before mk (.inr rfl)
  obtain ⟨edAfter, diliAfter⟩ := after mk' (.inr rfl)
  rintro key member seed ⟨held, provided, loads⟩
  obtain rfl : mk = held := Option.some.inj (old.symm.trans provided)
  refine ⟨mk', new, ?_⟩
  obtain rfl | rfl := mem_identityKeys.mp member
  · exact edAfter.loads seed (edBefore.seed_of_loads loads)
  · exact diliAfter.loads seed (diliBefore.seed_of_loads loads)

/-- A rotation of a store that is being served keeps it so, with the same public files and
seeds. -/
theorem rotation_keeps {env : Env} {tid : Tid} {cached : Bool} {result : Except LithiumError Unit}
    (lawful : X.Lawful) (stored : Stored X w) (serving : Serving w) (faultless : env.faults = false)
    (returned : Returns (sem env tid) (rotateNow X cached) w result w') :
    (Stored X w' ∧ Serving w') ∧ SeedsKept X w w' ∧
      ∀ key ∈ identityKeys X, w'.view key.pub = w.view key.pub := by
  obtain ⟨mk, opening⟩ := serving
  obtain ⟨_, ed, dili, fit, identity⟩ := stored.founded
  rw [opening.provided] at identity
  have rest := opening.atRest stored
  obtain ⟨_, mk', rest', untouched, control⟩ :=
    rest.rotated lawful (Custody.any_upheld X env) faultless returned
  have opening' := opening.rotated rest' untouched control
  have edSame : w'.view edPub = w.view edPub := untouched.view edPub ⟨by decide, by decide⟩
  have diliSame : w'.view diliPub = w.view diliPub := untouched.view diliPub ⟨by decide, by decide⟩
  have identity' : IdentityAt X (some mk') w'.view ed dili := by
    rintro other (absent | same)
    · cases absent
    · cases same
      obtain ⟨edHere, diliHere⟩ := identity mk (.inr rfl)
      exact ⟨edHere.rewrapped identity_live.1 rest.live.under rest'.live.under edSame,
        diliHere.rewrapped identity_live.2 rest.live.under rest'.live.under diliSame⟩
  refine ⟨⟨⟨⟨opening'.layout, ed, dili, fit, ?_⟩, ?_⟩, mk', opening'⟩,
    identity.seedsKept opening.provided opening'.provided identity', ?_⟩
  · rw [opening'.provided]
    exact identity'
  · intro other provided path keyType live label
    rw [opening'.provided] at provided
    obtain absent | same := provided
    · cases absent
    · cases same
      exact rest'.live.under.opens live
  · intro key member
    obtain rfl | rfl := mem_identityKeys.mp member
    · exact edSame
    · exact diliSame

theorem SeedKey.At.tampered {mk : Key} {key : SeedKey} {v v' : View} {stage : Stage}
    (here : key.At X mk v stage) (priv : v' key.priv = v key.priv) :
    key.At X mk v' ⟨stage.seed, v' key.pub⟩ :=
  ⟨fun none => priv.trans (here.absent none), fun seed known => by
    rw [priv]
    exact here.loads seed known, rfl⟩

theorem Tampered.view (tampered : Tampered w w') {path : Path} (first : path ≠ edPub)
    (second : path ≠ diliPub) : w'.view path = w.view path := by
  simp only [World.view, tampered.rest path first second]

theorem Tampered.dir (tampered : Tampered w w') {dir : Path} (member : dir ∈ rotateDir :: storeDirs) :
    w'.fs.get dir = w.fs.get dir :=
  tampered.rest dir (by rintro rfl; revert member; decide) (by rintro rfl; revert member; decide)

theorem Tampered.privateDir (tampered : Tampered w w') {dir : Path} (member : dir ∈ storeDirs) :
    PrivateDir w' dir ↔ PrivateDir w dir := by
  rw [PrivateDir, tampered.dir (List.mem_cons_of_mem _ member), PrivateDir]

theorem Tampered.layout (tampered : Tampered w w') (layout : Layout w) : Layout w' where
  dirs := fun dir member => by
    rw [tampered.dir (List.mem_cons_of_mem _ member), tampered.privateDir member]
    exact layout.dirs dir member
  rotate := by
    have get := tampered.dir List.mem_cons_self
    have same : w'.fs.isDir rotateDir = w.fs.isDir rotateDir := by
      show (w'.fs.get rotateDir).any _ = (w.fs.get rotateDir).any _
      rw [get]
    rw [RotateDirOk, get, same]
    exact layout.rotate
  lock := by
    rw [tampered.view (by decide) (by decide)]
    exact layout.lock
  unmarked := by
    rw [tampered.view (by decide) (by decide)]
    exact layout.unmarked

theorem Tampered.priv (tampered : Tampered w w') :
    w'.view edPriv = w.view edPriv ∧ w'.view diliPriv = w.view diliPriv :=
  ⟨tampered.view (by decide) (by decide), tampered.view (by decide) (by decide)⟩

theorem Tampered.seeds (tampered : Tampered w w') : SeedsKept X w w' := by
  rintro key member seed ⟨mk, provided, loads⟩
  refine ⟨mk, tampered.control ▸ provided, ?_⟩
  obtain rfl | rfl := mem_identityKeys.mp member
  · rw [show w'.view (edKey X).priv = w.view (edKey X).priv from tampered.priv.1]
    exact loads
  · rw [show w'.view (diliKey X).priv = w.view (diliKey X).priv from tampered.priv.2]
    exact loads

theorem Tampered.keeps (tampered : Tampered w w') (stored : Stored X w) :
    Stored X w' ∧ (Serving w → Serving w') ∧ SeedsKept X w w' := by
  obtain ⟨layout, ed, dili, _, identity⟩ := stored.founded
  have layout' := tampered.layout layout
  refine ⟨⟨⟨layout', ⟨ed.seed, w'.view edPub⟩, ⟨dili.seed, w'.view diliPub⟩, ⟨trivial, trivial⟩, ?_⟩, ?_⟩,
    ?_, tampered.seeds⟩
  · intro mk known
    rw [tampered.control] at known
    exact ⟨(identity mk known).1.tampered tampered.priv.1, (identity mk known).2.tampered tampered.priv.2⟩
  · intro mk known path keyType live label
    rw [tampered.control] at known
    rw [tampered.view (by rintro rfl; exact label (by decide)) (by rintro rfl; exact label (by decide))]
    exact stored.labels mk known path keyType live label
  · rintro ⟨mk, opening⟩
    refine ⟨mk, layout', tampered.control ▸ opening.provided, tampered.control ▸ opening.idle,
      fun _ _ _ _ => rfl, .inr fun path seq stamp present => ?_, fun dir member => ?_⟩
    · rw [tampered.pid] at stamp
      rw [tampered.rest path (by rintro rfl; cases stamp) (by rintro rfl; cases stamp)] at present
      rw [tampered.stamps]
      exact opening.fresh.resolve_left id path seq stamp present
    · rw [tampered.privateDir member]
      exact opening.dirs dir member

/-- What holds of a store and its manager between two events. -/
def Service.Kept (X : Crypto) (s : Service) : Prop :=
  Stored X s.world ∧ (s.keys ≠ none → Serving s.world)

theorem SeedsKept.refl (X : Crypto) (w : World) : SeedsKept X w w := fun _ _ _ => id

theorem SeedsKept.trans {w'' : World} (left : SeedsKept X w w') (right : SeedsKept X w' w'') :
    SeedsKept X w w'' := fun key member seed sealed => right key member seed (left key member seed sealed)

theorem Renewed.seedsKept (renewed : Renewed X w w' published) : SeedsKept X w w' := by
  obtain ⟨_, _, mk, known, provided, edHandled, diliHandled⟩ := renewed
  rintro key member seed ⟨old, held, loads⟩
  rw [held] at known provided
  obtain rfl : old = mk := by simpa using known
  have provided' : w'.control.providerMk = some old := provided.elim id fun same => same.1
  refine ⟨old, provided', ?_⟩
  obtain rfl | rfl := mem_identityKeys.mp member
  · exact edHandled.loads loads
  · exact diliHandled.loads loads

theorem Happens.kept {cached : Bool} {s s' : Service} (lawful : X.Lawful) (short : ShortKeys X)
    (kept : s.Kept X) (happens : Happens X cached s s') :
    s'.Kept X ∧ SeedsKept X s.world s'.world := by
  obtain ⟨stored, serving⟩ := kept
  cases happens with
  | tampered tampered =>
    obtain ⟨stored', serving', seeds⟩ := tampered.keeps stored
    exact ⟨⟨stored', fun some => serving' (serving some)⟩, seeds⟩
  | @started _ _ _ _ result _ _ _ faithful unclaimed returned =>
    have renewed := start_renewed lawful short stored faithful unclaimed returned
    refine ⟨⟨renewed.stored, fun some => ?_⟩, renewed.seedsKept⟩
    cases result with
    | ok keys => exact renewed.serving keys rfl
    | error e => exact absurd rfl some
  | reloaded faithful returned =>
    obtain ⟨_, _, renewed, serving'⟩ :=
      reload_renewed lawful short stored (serving (by simp)) faithful returned
    exact ⟨⟨renewed.stored, fun _ => serving'⟩, renewed.seedsKept⟩
  | rotated faultless returned =>
    obtain ⟨⟨stored', serving'⟩, seeds, _⟩ :=
      rotation_keeps lawful stored (serving (by simp)) faultless returned
    exact ⟨⟨stored', fun _ => serving'⟩, seeds⟩

theorem run_kept {cached : Bool} {s s' : Service} (lawful : X.Lawful) (short : ShortKeys X)
    (kept : s.Kept X) (run : Relation.ReflTransGen (Happens X cached) s s') :
    s'.Kept X ∧ SeedsKept X s.world s'.world := by
  induction run with
  | refl => exact ⟨kept, .refl X s.world⟩
  | tail _ happens ih =>
    obtain ⟨kept', seeds⟩ := happens.kept lawful short ih.1
    exact ⟨kept', ih.2.trans seeds⟩

end

/-- The keys belong to the two seeds sealed in `w`, and these are the seeds that were
sealed at an earlier time, as far as any were. -/
def PublicKeys.From (X : Crypto) (earlier w : World) (keys : PublicKeys) : Prop :=
  ∃ ed dili, (edKey X).Sealed X w ed ∧ (diliKey X).Sealed X w dili ∧
    keys = ⟨X.ed25519PubFromSeed ed, X.mldsa87PubFromSeed dili⟩ ∧
    (∀ seed, (edKey X).Sealed X earlier seed → seed = ed) ∧
    ∀ seed, (diliKey X).Sealed X earlier seed → seed = dili

/-- The public file of the key has other contents than the key derived from its seed. -/
def SeedKey.Differs (X : Crypto) (key : SeedKey) (w : World) : Prop :=
  ∃ seed node, key.Sealed X w seed ∧ w.view key.pub = some node ∧ node.data ≠ key.pubFromSeed seed

/-- What a start or a reload publishes comes from the seeds, and one that finds a public
file with other contents fails and leaves it. -/
def Vouched (X : Crypto) (earlier before : World) (published : Except LithiumError PublicKeys)
    (after : World) : Prop :=
  (∀ keys, published = .ok keys → keys.From X earlier after) ∧
    ∀ key ∈ identityKeys X, key.Differs X before →
      (∃ e, published = .error e) ∧ after.view key.pub = before.view key.pub

section
variable {X : Crypto} {earlier w w' : World} {published : Except LithiumError PublicKeys}

theorem SeedKey.Sealed.unique {key : SeedKey} {seed seed' : Fixed 32} (first : key.Sealed X w seed)
    (second : key.Sealed X w seed') : seed = seed' := by
  obtain ⟨mk, provided, loads⟩ := first
  obtain ⟨mk', provided', loads'⟩ := second
  rw [provided] at provided'
  cases provided'
  rw [loads] at loads'
  exact Subtype.ext (Except.ok.inj loads')

theorem Handled.sealed {mk : Key} {key : SeedKey} {before : View} {publicKey : Bytes}
    (handled : Handled X mk key before w.view (.ok publicKey))
    (provided : w.control.providerMk = some mk) :
    ∃ seed, key.Sealed X w seed ∧ publicKey = key.pubFromSeed seed := by
  obtain ⟨_, next, _, there, _, derived⟩ := handled
  obtain ⟨seed, known, rfl, _⟩ := derived publicKey rfl
  exact ⟨seed, ⟨mk, provided, there.loads seed known⟩, rfl⟩

theorem Renewed.vouched (renewed : Renewed X w w' published) (since : SeedsKept X earlier w) :
    Vouched X earlier w published w' := by
  have kept := since.trans renewed.seedsKept
  obtain ⟨_, _, mk, known, provided, edHandled, diliHandled⟩ := renewed
  refine ⟨?_, ?_⟩
  · rintro keys rfl
    have provided' : w'.control.providerMk = some mk := provided.resolve_right (by simp)
    obtain ⟨ed, edSealed, edDerived⟩ := edHandled.sealed provided'
    obtain ⟨dili, diliSealed, diliDerived⟩ := diliHandled.sealed provided'
    refine ⟨ed, dili, edSealed, diliSealed, ?_, fun seed sealed => ?_, fun seed sealed => ?_⟩
    · cases keys
      cases edDerived
      cases diliDerived
      rfl
    · exact (kept (edKey X) (by simp [identityKeys]) seed sealed).unique edSealed
    · exact (kept (diliKey X) (by simp [identityKeys]) seed sealed).unique diliSealed
  · rintro key member ⟨seed, node, ⟨old, held, loads⟩, there, other⟩
    rw [held] at known
    obtain rfl : old = mk := by simpa using known
    have foreign : (∀ keys, published ≠ .ok keys) ∧ w'.view key.pub = some node := by
      obtain rfl | rfl := mem_identityKeys.mp member
      · obtain ⟨never, same⟩ := edHandled.foreign loads there other
        exact ⟨fun keys succeeded => never keys.ed25519 (by rw [succeeded]; rfl), same⟩
      · obtain ⟨never, same⟩ := diliHandled.foreign loads there other
        exact ⟨fun keys succeeded => never keys.dilithium (by rw [succeeded]; rfl), same⟩
    refine ⟨?_, foreign.2.trans there.symm⟩
    cases published with
    | ok keys => exact absurd rfl (foreign.1 keys)
    | error e => exact ⟨e, rfl⟩

end

/-- In every run of starts, reloads and fault-free rotations with the public files replaced at
will in between, a start or reload that succeeds publishes the keys derived from the sealed
seeds, which are the ones sealed first. One that finds a public file with other contents fails
and does not touch it, nor does a rotation, and a failed reload leaves the keys in memory. -/
theorem published_from_seeds {X : Crypto} {cached : Bool} (lawful : X.Lawful) (short : ShortKeys X)
    {start : World} (stored : Stored X start) {earlier now : Service}
    (before : Relation.ReflTransGen (Happens X cached) ⟨start, none⟩ earlier)
    (since : Relation.ReflTransGen (Happens X cached) earlier now)
    {env : Env} (faithful : env.Faithful) (draws : ∀ mk, ∃ new, env.masterKey mk new = true)
    (tid : Tid) :
    (∀ pid config, Unclaimed now.world pid → Delivers (sem env tid) (startWithConfig X cached config)
      (now.world.restart pid) fun published w => Vouched X earlier.world now.world published w) ∧
    ∀ keys, now.keys = some keys →
      (∀ policy, Delivers (sem env tid) (reloadPublicKeys X policy keys) now.world fun result w =>
        ∃ reply keys', result = .ok (reply, keys') ∧ (∀ e, reply = .error e → keys' = keys) ∧
          Vouched X earlier.world now.world (reply.map fun _ => keys') w) ∧
      (env.faults = false → Delivers (sem env tid) (rotateNow X cached) now.world fun _ w =>
        ∀ key ∈ identityKeys X, w.view key.pub = now.world.view key.pub) := by
  have began := run_kept lawful short (⟨stored, fun some => absurd rfl some⟩ : Service.Kept X ⟨start, none⟩)
    before
  obtain ⟨⟨stored', serving⟩, seeds⟩ := run_kept lawful short began.1 since
  refine ⟨fun pid config unclaimed => ⟨?_, fun published w returned => ?_⟩, fun keys some => ⟨fun policy =>
    ⟨?_, fun result w returned => ?_⟩, fun faultless => ⟨?_, fun result w returned => ?_⟩⟩⟩
  · exact calls_return_drawing tid _ draws (startWithConfig_calls
      (fun op free => .inl (waits_of_special op free)) (fun _ => .inl rfl) (fun _ => .inl rfl) X (.inr rfl)
      (.inl rfl) cached config)
  · exact (start_renewed lawful short stored' faithful unclaimed returned).vouched seeds
  · exact calls_return tid _ (reloadPublicKeys_calls waits_of_special (fun _ => rfl) X rfl policy keys)
  · obtain ⟨published, rfl, renewed, _⟩ :=
      reload_renewed lawful short stored' (serving (by simp [some])) faithful returned
    refine ⟨_, _, rfl, fun e failed => ?_, ?_⟩
    · cases published with
      | ok _ => cases failed
      | error _ => rfl
    · rw [show ((published.map fun _ => ()).map fun _ => published.toOption.getD keys) = published by
        cases published <;> rfl]
      exact renewed.vouched seeds
  · obtain ⟨mk, opening⟩ := serving (by simp [some])
    exact rotateNow_returns tid cached draws ⟨opening.idle.2.2, opening.idle.2.1⟩
  · exact (rotation_keeps lawful stored' (serving (by simp [some])) faultless returned).2.2

theorem Blank.stored {X : Crypto} {w : World} (blank : Blank w) : Stored X w := by
  have founded : Founded X Stage.Honest w := blank.founded
  obtain ⟨layout, ed, dili, _, identity⟩ := founded
  refine ⟨⟨layout, ed, dili, ⟨trivial, trivial⟩, identity⟩, fun mk _ path keyType live _ => .inl ?_⟩
  obtain ⟨stem, dir, rfl, _⟩ := live_shape live
  rw [view_of_visible (live_storable live).1]
  exact blank.2 _ ⟨[keyf stem, plain dir], rfl⟩

def servedKeys : PublicKeys := ⟨(uniform 1).1, (uniform 1).1 ++ (uniform 1).1⟩

def firstStarted : World := cutStart .strict 200

theorem firstStarted_returned :
    Returns (sem (sampleEnv false) 0) (startWithConfig tagged false (sampleConfig .strict))
      (blankWorld.restart 1) (.ok servedKeys) firstStarted :=
  follow_returns (exec (sampleEnv false) 0) (plainly 1 someLeaf) 200 0 (by decide +kernel)

theorem firstStarted_happens : Happens tagged false ⟨blankWorld, none⟩ ⟨firstStarted, some servedKeys⟩ :=
  Happens.started (.of_faultless rfl) (fun _ _ stamp => unclaimed_of_check (by decide +kernel) stamp)
    firstStarted_returned

def World.scribble (w : World) (data : Bytes) : World := { w with fs := (w.fs.write data edPub).2 }

theorem scribble_tampered (w : World) (data : Bytes) : Tampered w (w.scribble data) where
  rest := fun path first _ => by
    obtain ⟨_, fs, _, _, written, _, get⟩ | ⟨_, _, refused⟩ :=
      w.fs.write_spec data ⟨"ed25519", .text "pub"⟩ pubDir
    · rw [show (w.scribble data).fs = fs from congrArg Prod.snd written, get]
      exact Function.update_of_ne first _ _
    · rw [show (w.scribble data).fs = w.fs from congrArg Prod.snd refused]
  control := rfl
  pid := rfl
  stamps := rfl

def forged : World := firstStarted.scribble [7]

/-- Every call may fail but for the existence checks, and none denies that anything is there. -/
def faithfulEnv : Env := { sampleEnv true with
  may := fun op e => match op with
    | .stat _ => false
    | _ => !e.isNotFound }

theorem faithfulEnv_faithful : faithfulEnv.Faithful := by
  have never : ∀ op, ¬ faithfulEnv.Denies op := by
    rintro op ⟨_, e, missing, may⟩
    cases op <;> simp [faithfulEnv, missing] at may
  exact ⟨⟨.inr fun _ => rfl, .inr fun _ => rfl, fun denies => never _ denies, fun denies => never _ denies⟩,
    never _⟩

/-- After a first start, a reload under the repairing policy refuses the forged file, whatever
fails in it. -/
theorem forged_reload_refused :
    Delivers (sem faithfulEnv 0) (reloadPublicKeys tagged .repairMissingOnly servedKeys) forged
      fun result w => ∃ e, result = .ok (.error e, servedKeys) ∧ w.view edPub = forged.view edPub := by
  have short : ShortKeys tagged := fun seed => by simp [tagged, seed.2, maxKeyfileSize]
  have operations := published_from_seeds tagged_lawful short blankWorld_blank.stored
    (.single firstStarted_happens) (.single (.tampered (scribble_tampered _ [7]))) faithfulEnv_faithful
    (sampleEnv_draws true) 0
  refine ((operations.2 servedKeys rfl).1 .repairMissingOnly).mono ?_
  rintro _ w ⟨reply, keys, rfl, kept, vouched⟩
  have differs : (edKey tagged).Differs tagged forged :=
    ⟨uniform 1, privateFile [7], ⟨uniform 1, by decide +kernel, by decide +kernel⟩, by decide +kernel,
      by decide +kernel⟩
  obtain ⟨⟨e, failed⟩, same⟩ := vouched.2 (edKey tagged) (by simp [identityKeys]) differs
  cases reply with
  | ok _ => cases failed
  | error e' =>
    cases failed
    exact ⟨e, by rw [kept e rfl], same⟩

/-- The store after its first start, with the public file of one key removed. -/
def unpublished : World := { firstStarted with fs := (firstStarted.fs.removeFile edPub).2 }

theorem unpublished_tampered : Tampered firstStarted unpublished where
  rest := fun _ first _ => FileSystem.get_removeFile_of_ne _ first
  control := rfl
  pid := rfl
  stamps := rfl

/-- A reload that does not see the sealed seed draws another one, seals it in its place and
publishes its key. -/
theorem unseen_seed_replaced :
    Happens tagged false ⟨blankWorld, none⟩ ⟨firstStarted, some servedKeys⟩ ∧
      Tampered firstStarted unpublished ∧
      ∃ keys w, Returns (sem (sampleEnv true) 0) (reloadPublicKeys tagged .strict servedKeys) unpublished
          (.ok (.ok (), keys)) w ∧
        ¬ keys.From tagged firstStarted w := by
  refine ⟨firstStarted_happens, unpublished_tampered, ⟨(uniform 2).1, servedKeys.dilithium⟩, _,
    follow_returns (exec (sampleEnv true) 0) (blindTo edPriv) 100 0 (by decide +kernel), ?_⟩
  rintro ⟨ed, dili, _, _, derived, first, _⟩
  have sealed : (edKey tagged).Sealed tagged firstStarted (uniform 1) :=
    ⟨uniform 1, by decide +kernel, by decide +kernel⟩
  cases first (uniform 1) sealed
  have same : (uniform 2).1 = tagged.ed25519PubFromSeed (uniform 1) :=
    congrArg PublicKeys.ed25519 derived
  exact absurd same (by decide +kernel)

end Lithium.Keys
