import Lithium.Keys.Identity

/-! Starting a manager: the directories, the lock file, the master key, recovery, and
the identity keys, in this order. What a first start leaves when it is cut short is
again something a start can begin with. -/
namespace Lithium.Keys
open Effects Storage

def storeDirs : List Path := [rootDir, pubDir, privDir, secretsDir]

theorem storeDirs_scaffold : ∀ dir ∈ storeDirs, dir ∈ scaffold ∧ ¬ rotateDir <:+ dir := by decide

/-- The directories of a store as far as they have been made, with no rotation pending. -/
structure Layout (w : World) : Prop where
  dirs : ∀ dir ∈ storeDirs, w.fs.get dir = none ∨ PrivateDir w dir
  rotate : RotateDirOk w
  lock : ∀ node, w.view lockPath = some node → node.ftype = .regular
  unmarked : w.view readyPath = none

/-- How far the creation of the identity keys has come. Before there is a master key
nothing can have been sealed. -/
def IdentityAt (X : Crypto) (provided : Option Key) (v : View) (ed dili : Stage) : Prop :=
  ∀ mk, provided = none ∨ provided = some mk →
    (edKey X).At X mk v ed ∧ (diliKey X).At X mk v dili

/-- A store whose first start may have been cut short. Both identity keys are at stages
that may occur. -/
def Founded (X : Crypto) (fits : SeedKey → Stage → Prop) (w : World) : Prop :=
  Layout w ∧ ∃ ed dili, (fits (edKey X) ed ∧ fits (diliKey X) dili) ∧
    IdentityAt X w.control.providerMk w.view ed dili

/-- The stages that may occur stay so, whatever the manager does. -/
def Closed (misled : Prop) (fits : SeedKey → Stage → Prop) : Prop :=
  ∀ key stage next, fits key stage → stage.Becomes key misled next → fits key next

/-- Nothing but the identity files, the lock file and the rotation directory differs from `v`. -/
def RestKept (v : View) (w : World) : Prop :=
  ∀ path, path ∉ identityFiles → path ≠ lockPath → ¬ rotateDir <:+ path → w.view path = v path

/-- What every step of a start leaves that begins with the view `v`, also of one that fails. -/
structure Begun (X : Crypto) (fits : SeedKey → Stage → Prop) (provided : Option Key) (v : View)
    (w : World) : Prop where
  founded : Founded X fits w
  provided : w.control.providerMk = provided ∨ provided = none
  rest : RestKept v w

/-- No thread of the manager holds a lock, and it is not poisoned. -/
def Idle (c : Control) : Prop := c.poisoned = false ∧ c.readers = [] ∧ c.writer = none

/-- A start on a store with view `v` is under way and has made these directories. -/
structure Opening (provided : Option Key) (v : View) (loose : Prop) (made : List Path) (w : World) :
    Prop where
  layout : Layout w
  provided : w.control.providerMk = provided
  idle : Idle w.control
  rest : RestKept v w
  fresh : loose ∨ StampsFree w
  dirs : ∀ dir ∈ made, PrivateDir w dir

section
variable {tid : Tid} {view : View} {w w' : World}

theorem Layout.step (layout : Layout w) (step : Step tid view w w')
    (lock : ∀ node, view lockPath = some node → node.ftype = .regular)
    (unmarked : view readyPath = none) : Layout w' where
  dirs := fun dir member => by
    obtain absent | there := layout.dirs dir member
    · exact step.missing dir (storeDirs_scaffold dir member).1 absent
    · exact .inr (step.privateDir there)
  rotate := step.rotateDirOk layout.rotate
  lock := by rw [step.view]; exact lock
  unmarked := by rw [step.view]; exact unmarked

theorem Layout.pruned (layout : Layout w) (pruned : Pruned w w') : Layout w' where
  dirs := fun dir member => by
    have outside := (storeDirs_scaffold dir member).2
    obtain absent | there := layout.dirs dir member
    · exact .inl ((pruned.outside dir outside).trans absent)
    · exact .inr (pruned.privateDir outside there)
  rotate := pruned.rotateDirOk layout.rotate
  lock := by
    rw [pruned.view.outside lockPath (by decide)]
    exact layout.lock
  unmarked := (pruned.view.gone readyPath).elim (·.trans layout.unmarked) id

end

/-- The identity files are as in `v`. -/
def Agrees (v : View) (w : World) : Prop := ∀ path ∈ identityFiles, w.view path = v path

section
variable {X : Crypto} {fits : SeedKey → Stage → Prop} {tid : Tid} {provided : Option Key} {v : View} {loose : Prop} {made : List Path}
  {w w' : World} {ed dili : Stage}

theorem IdentityAt.congr {v' : View} (identity : IdentityAt X provided v ed dili)
    (same : ∀ path ∈ identityFiles, v' path = v path) : IdentityAt X provided v' ed dili :=
  fun mk known => ⟨(identity mk known).1.congr (same edPriv (by decide)) (same edPub (by decide)),
    (identity mk known).2.congr (same diliPriv (by decide)) (same diliPub (by decide))⟩

theorem Opening.founded (opening : Opening provided v loose made w) (agrees : Agrees v w)
    (fit : fits (edKey X) ed ∧ fits (diliKey X) dili) (identity : IdentityAt X provided v ed dili) :
    Founded X fits w :=
  ⟨opening.layout, ed, dili, fit, by rw [opening.provided]; exact identity.congr agrees⟩

theorem Opening.put {path : Path} {node : Node} (opening : Opening provided v loose made w)
    (own : path ∈ identityFiles ∨ path = lockPath ∧ node.ftype = .regular)
    (step : Step tid (Function.update w.view path (some node)) w w') :
    Opening provided v loose made w' where
  layout := by
    have apart : readyPath ≠ path := by
      obtain member | ⟨rfl, _⟩ := own
      · rintro rfl
        exact absurd member (by decide)
      · decide
    refine opening.layout.step step (fun other found => ?_) ?_
    · obtain member | ⟨rfl, regular⟩ := own
      · rw [Function.update_of_ne] at found
        · exact opening.layout.lock other found
        · rintro rfl
          exact absurd member (by decide)
      · rw [Function.update_self] at found
        exact Option.some.inj found ▸ regular
    · rw [Function.update_of_ne apart]
      exact opening.layout.unmarked
  provided := by rw [step.control]; exact opening.provided
  idle := by rw [step.control]; exact opening.idle
  rest := fun other aside apart outside => by
    rw [step.view, Function.update_of_ne]
    · exact opening.rest other aside apart outside
    · rintro rfl
      exact own.elim aside fun same => apart same.1
  fresh := opening.fresh.imp_right step.fresh
  dirs := fun dir member => step.privateDir (opening.dirs dir member)

theorem opening_steady : Steady tid (Opening provided v loose made) := fun w w' opening step => {
  layout := opening.layout.step step opening.layout.lock opening.layout.unmarked
  provided := by rw [step.control]; exact opening.provided
  idle := by rw [step.control]; exact opening.idle
  rest := by rw [RestKept, step.view]; exact opening.rest
  fresh := opening.fresh.imp_right step.fresh
  dirs := fun dir member => step.privateDir (opening.dirs dir member) }

theorem agrees_steady : Steady tid (Agrees v) := steady_view fun view _ =>
  ∀ path ∈ identityFiles, view path = v path

theorem founded_steady : Steady tid (Founded X fits) := by
  rintro w w' ⟨layout, ed, dili, fit, identity⟩ step
  refine ⟨layout.step step layout.lock layout.unmarked, ed, dili, fit, ?_⟩
  rw [step.control, step.view]
  exact identity

theorem outside_of_identity : ∀ path ∈ identityFiles, ¬ rotateDir <:+ path := by decide

theorem founded_prunable : Prunable (Founded X fits) := by
  rintro w w' ⟨layout, ed, dili, fit, identity⟩ pruned
  refine ⟨layout.pruned pruned, ed, dili, fit, ?_⟩
  rw [pruned.control]
  exact identity.congr fun path member => pruned.view.outside path (outside_of_identity path member)

theorem begun_steady : Steady tid (Begun X fits provided v) := fun w w' begun step =>
  ⟨founded_steady w w' begun.founded step, by rw [step.control]; exact begun.provided,
    by rw [RestKept, step.view]; exact begun.rest⟩

theorem begun_prunable : Prunable (Begun X fits provided v) := fun w w' begun pruned =>
  ⟨founded_prunable w w' begun.founded pruned, by rw [pruned.control]; exact begun.provided,
    fun path aside apart outside => (pruned.view.outside path outside).trans
      (begun.rest path aside apart outside)⟩

theorem Opening.begun (opening : Opening provided v loose made w) (agrees : Agrees v w)
    (fit : fits (edKey X) ed ∧ fits (diliKey X) dili) (identity : IdentityAt X provided v ed dili) :
    Begun X fits provided v w :=
  ⟨opening.founded agrees fit identity, .inl opening.provided, opening.rest⟩

theorem opening_prunable (inside : ∀ dir ∈ made, dir ∈ storeDirs) :
    Prunable fun w => Opening provided v loose made w ∧ Agrees v w := by
  rintro w w' ⟨opening, agrees⟩ pruned
  refine ⟨⟨opening.layout.pruned pruned, ?_, ?_, fun path aside apart outside => ?_,
    opening.fresh.imp_right pruned.stampsFree, fun dir member => ?_⟩,
    fun path member => ?_⟩
  · rw [pruned.control]
    exact opening.provided
  · rw [pruned.control]
    exact opening.idle
  · rw [pruned.view.outside path outside]
    exact opening.rest path aside apart outside
  · exact pruned.privateDir (storeDirs_scaffold dir (inside dir member)).2 (opening.dirs dir member)
  · rw [pruned.view.outside path (outside_of_identity path member)]
    exact agrees path member

theorem Opening.control {next : Option Key} (opening : Opening provided v loose made w)
    {control : Control} (provided : control.providerMk = next) (idle : Idle control) :
    Opening next v loose made { w with control := control } :=
  ⟨⟨opening.layout.dirs, opening.layout.rotate, opening.layout.lock, opening.layout.unmarked⟩, provided,
    idle, opening.rest, opening.fresh, opening.dirs⟩

theorem Opening.subset {made' : List Path} (opening : Opening provided v loose made w)
    (fewer : ∀ dir ∈ made', dir ∈ made) : Opening provided v loose made' w :=
  ⟨opening.layout, opening.provided, opening.idle, opening.rest, opening.fresh,
    fun dir member => opening.dirs dir (fewer dir member)⟩

theorem Opening.make {dir : Path} (opening : Opening provided v loose made w)
    (there : PrivateDir w dir) : Opening provided v loose (dir :: made) w :=
  ⟨opening.layout, opening.provided, opening.idle, opening.rest, opening.fresh,
    List.forall_mem_cons.mpr ⟨there, opening.dirs⟩⟩

end

/-- The configuration and the clock are such that a start can succeed. -/
structure Accepted (env : Env) (config : KeyManagerConfig) : Prop where
  faultless : env.faults = false
  interval : config.rotationEnabled = true → minRotateEvery ≤ config.rotateEvery
  clock : env.clock + config.rotateEvery < instantLimit
  arena : (arenaSize config.arenaCapacity).isSome = true

def Entering (provided : Option Key) (v : View) (loose : Prop) (made : List Path) (w : World) : Prop :=
  (Opening provided v loose made w ∧ Agrees v w) ∧ w.control.storeLocked = false

/-- A directory that is reported made is there. -/
def Reported (dir : Path) (result : Except LithiumError Unit) (w : World) : Prop :=
  result = .ok () → w.fs.get dir ≠ none

theorem Reported.of_error {dir : Path} {e : LithiumError} {w : World} : Reported dir (.error e) w := by
  intro ok
  cases ok

/-- What the attempt to take the file lock leaves. -/
def LockTried (provided : Option Key) (v : View) (loose excuse : Prop) (made : List Path) :
    TryLock → World → Prop
  | .locked, w => Opening provided v loose made w ∧ Agrees v w
  | .wouldBlock, _ => False
  | .error _, w => excuse ∧ Opening provided v loose made w ∧ Agrees v w

section
variable {X : Crypto} {fits : SeedKey → Stage → Prop} {env : Env} {tid : Tid} {provided : Option Key} {v : View} {loose excuse : Prop}
  {made : List Path} {ed dili : Stage}

theorem entering_steady : Steady tid (Entering provided v loose made) :=
  (opening_steady.and agrees_steady).and (steady_view fun _ c => c.storeLocked = false)

theorem isDir_reported (dir : Path) (kind : IoErrorKind) :
    Triple (Solo env tid fun _ => True) (fun _ => True) ((isDir dir).bind fun there =>
      if there then (pure () : Prog Unit) else throw (.io kind)) (Reported dir) := by
  refine Triple.bind (isDir_spec (party_solo env tid _) still_solo dir) (fun there => ?_)
    fun _ _ _ => .of_error
  rintro w ⟨_, seen⟩
  cases there with
  | false => exact .of_error
  | true =>
    intro _ absent
    simp [FileSystem.stat, absent] at seen

theorem mkdir_reported {name : FileName} {parent : Path} (member : name :: parent ∈ scaffold) {w w' : World}
    {reply : Io Unit} (step : sem env tid (.mkdir (name :: parent)) w reply w') :
    Step tid w.view w w' ∧ (reply = .ok () → w'.fs.get (name :: parent) ≠ none) := by
  obtain ⟨quiet, ⟨_, node, found, _⟩ | ⟨kind, rfl, _⟩⟩ := sem_mkdir member step
  · exact ⟨quiet, fun _ => by simp [found]⟩
  · exact ⟨quiet, fun ok => by cases ok⟩

/-- This is so whatever fails on the way. -/
theorem createDirAll_there {dir : Path} (member : dir ∈ scaffold) :
    Triple (Solo env tid fun _ => True) (fun _ => True) (createDirAll dir) (Reported dir) := by
  have party := party_solo env tid fun _ => True
  have keeps : Keeps (Solo env tid fun _ => True) tid fun _ => True :=
    keeps_solo (fun _ _ _ _ => trivial) fun _ _ _ _ => trivial
  obtain ⟨name, parent, rfl⟩ := exists_cons_of_scaffold member
  refine stepping (.mkdir (name :: parent)) _ party keeps (fun _ _ _ _ => mkdir_reported member) fun reply => ?_
  cases reply with
  | ok _ => exact Triple.done fun w here _ => here.2 rfl
  | error kind =>
    cases kind with
    | notFound =>
      refine Triple.bind ((createDirAll_holds party keeps parent (scaffold_parent _ member)).mono
        (fun _ _ => trivial) fun _ _ => id) (fun _ => ?_) fun _ _ _ => .of_error
      refine stepping (.mkdir (name :: parent)) _ party keeps (fun _ _ _ _ => mkdir_reported member)
        fun reply => ?_
      cases reply with
      | ok _ => exact Triple.done fun w here _ => here.2 rfl
      | error kind => exact (isDir_reported _ kind).mono (fun _ _ => trivial) fun _ _ => id
    | _ => exact (isDir_reported _ _).mono (fun _ _ => trivial) fun _ _ => id

theorem ensurePrivateDir_there {dir : Path} (member : dir ∈ scaffold) :
    Triple (Solo env tid fun _ => True) (fun _ => True) (ensurePrivateDir dir) (Reported dir) := by
  refine observe (party_solo env tid _) still_solo rfl fun reply => ?_
  rintro w ⟨_, seen⟩
  cases reply with
  | ok metadata =>
    have present : w.fs.get dir ≠ none := by
      intro absent
      obtain done | ⟨_, _, e, failed⟩ := sem_natural (fun _ => rfl) seen
      · simp only [FileSystem.symlinkMetadata, absent] at done
        cases done
      · obtain ⟨kind, impossible⟩ := ioFailure_eq failed
        cases impossible
    dsimp only
    split
    · exact .of_error
    · split
      · exact .of_error
      · exact fun _ => present
  | error kind =>
    cases kind with
    | notFound => exact createDirAll_there member w trivial
    | _ => exact .of_error

theorem openDir_spec (calm : ¬ excuse → env.faults = false) {dir : Path} (member : dir ∈ storeDirs)
    (parent : dir.tail = [] ∨ dir.tail ∈ made) :
    Triple (Solo env tid (Begun X fits provided v)) (Entering provided v loose made) (ensurePrivateDir dir)
      fun result w => match result with
        | .ok _ => Entering provided v loose (dir :: made) w
        | .error _ => excuse := by
  have scaffolded := (storeDirs_scaffold dir member).1
  refine (Triple.both (ensurePrivateDir_spec (party_solo env tid _) (keeps_solo begun_steady entering_steady)
    dir scaffolded fun none => ⟨calm_solo (calm none), ?_⟩) ((ensurePrivateDir_there scaffolded).mono
      (fun _ _ => trivial) fun _ _ => id)).weaken ?_
  · rintro w ⟨⟨opening, _⟩, _⟩
    obtain absent | there := opening.layout.dirs dir member
    · refine .inr ⟨absent, ?_⟩
      obtain base | made := parent
      · rw [base]
        rfl
      · exact (opening.dirs _ made).isDir
    · exact .inl there
  · rintro (e | _) w ⟨⟨⟨⟨opening, agrees⟩, unlocked⟩, reason⟩, present⟩
    · exact reason.resolve_right (by simp)
    · have there := (opening.layout.dirs dir member).resolve_left (present rfl)
      exact ⟨⟨opening.make there, agrees⟩, unlocked⟩

theorem sem_openLock {w w' : World} {reply : Io Unit}
    (step : sem env tid (.openLock lockPath) w reply w') :
    (reply = .ok () ∧ (w' = w ∨
        Step tid (Function.update w.view lockPath (some ⟨.regular, 0o644, []⟩)) w w')) ∨
      ∃ kind, reply = .error kind ∧ w' = w ∧ (env.faults = true ∨ w.fs.isDir rootDir = false ∨
        ∃ node, w.view lockPath = some node ∧ node.ftype ≠ .regular) := by
  have visible : hidden lockPath = false := by decide
  obtain done | ⟨faults, rfl, e, failed⟩ := sem_natural (fun _ => rfl) step
  · cases found : w.fs.get lockPath with
    | none =>
      have opened : openLock w.fs lockPath = w.fs.create ⟨.regular, 0o644, []⟩ lockPath := by
        simp only [openLock, found]
      rw [opened] at done
      obtain ⟨_, _, fs, made, _, get⟩ | ⟨present, _⟩ | ⟨orphan, failed⟩ :=
        w.fs.create_spec ⟨.regular, 0o644, []⟩ (plain ".lock") rootDir
      · rw [lockPath, made] at done
        cases done
        exact .inl ⟨rfl, .inr (step_put visible get (by simp [found]))⟩
      · exact absurd found present
      · rw [lockPath, failed] at done
        cases done
        exact .inr ⟨_, rfl, rfl, .inr (.inl orphan)⟩
    | some node =>
      simp only [openLock, found, World.onFs] at done
      split at done
      · cases done
        exact .inl ⟨rfl, .inl rfl⟩
      · next irregular =>
        cases done
        exact .inr ⟨_, rfl, rfl, .inr (.inr ⟨node, (view_of_visible visible).trans found, irregular⟩)⟩
  · obtain ⟨kind, rfl⟩ := ioFailure_eq failed
    exact .inr ⟨kind, rfl, rfl, .inl faults⟩

theorem Entering.openLock {w w' : World} {reply : Io Unit}
    (fit : fits (edKey X) ed ∧ fits (diliKey X) dili) (identity : IdentityAt X provided v ed dili)
    (calm : ¬ excuse → env.faults = false) (rooted : rootDir ∈ made) (inv : Begun X fits provided v w)
    (entering : Entering provided v loose made w)
    (step : sem env tid (.openLock lockPath) w reply w') : Begun X fits provided v w' ∧
      (reply = .ok () ∧ Entering provided v loose made w' ∨ (∃ kind, reply = .error kind) ∧ excuse) := by
  obtain ⟨⟨opening, agrees⟩, unlocked⟩ := entering
  obtain ⟨rfl, rfl | put⟩ | ⟨kind, rfl, rfl, reason⟩ := sem_openLock step
  · exact ⟨inv, .inl ⟨rfl, ⟨opening, agrees⟩, unlocked⟩⟩
  · have opening' := opening.put (.inr ⟨rfl, rfl⟩) put
    have agrees' : Agrees v w' := fun path member => by
      rw [put.view, Function.update_of_ne]
      · exact agrees path member
      · rintro rfl
        exact absurd member (by decide)
    exact ⟨opening'.begun agrees' fit identity,
      .inl ⟨rfl, ⟨opening', agrees'⟩, by rwa [put.control]⟩⟩
  · refine ⟨inv, .inr ⟨⟨kind, rfl⟩, ?_⟩⟩
    obtain faults | orphan | ⟨node, found, irregular⟩ := reason
    · exact excused_of_faults calm faults
    · rw [(opening.dirs rootDir rooted).isDir] at orphan
      cases orphan
    · exact absurd (opening.layout.lock node found) irregular

theorem Entering.lockStore {w w' : World} {reply : TryLock}
    (fit : fits (edKey X) ed ∧ fits (diliKey X) dili) (identity : IdentityAt X provided v ed dili)
    (calm : ¬ excuse → env.faults = false) (inv : Begun X fits provided v w)
    (entering : Entering provided v loose made w) (step : sem env tid .lockStore w reply w') :
    Begun X fits provided v w' ∧ LockTried provided v loose excuse made reply w' := by
  obtain ⟨⟨opening, agrees⟩, unlocked⟩ := entering
  obtain ⟨faults, rfl, e, failed⟩ | ⟨choice, effected⟩ := sem_cases step
  · obtain ⟨kind, rfl⟩ : ∃ kind, reply = .error kind := by
      cases e <;> cases failed
      exact ⟨_, rfl⟩
    exact ⟨inv, excused_of_faults calm faults, opening, agrees⟩
  · simp only [effect] at effected
    split at effected
    · next locked =>
      cases effected
      exact absurd (unlocked.symm.trans locked) (by simp)
    · cases effected
      have opening' : Opening provided v loose made
          { w with control := { w.control with storeLocked := true } } :=
        opening.control opening.provided opening.idle
      exact ⟨opening'.begun agrees fit identity, opening', agrees⟩

theorem acquireExclusiveLock_spec (fit : fits (edKey X) ed ∧ fits (diliKey X) dili)
    (identity : IdentityAt X provided v ed dili)
    (calm : ¬ excuse → env.faults = false) (rooted : rootDir ∈ made) (policy : FileLockPolicy) :
    Triple (Solo env tid (Begun X fits provided v)) (Entering provided v loose made) (acquireExclusiveLock policy)
      fun result w => match result with
        | .ok _ => Opening provided v loose made w ∧ Agrees v w
        | .error _ => excuse := by
  refine Triple.call (fun (reply : Io Unit) w => match reply with
    | .ok _ => Entering provided v loose made w
    | .error _ => excuse) (alone_stable _ _ _) ?_ fun reply => ?_
  · intro w entering inv reply w' step
    obtain ⟨inv', ⟨rfl, entering'⟩ | ⟨⟨kind, rfl⟩, excused⟩⟩ :=
      entering.openLock fit identity calm rooted inv step
    · exact ⟨inv', trivial, entering'⟩
    · exact ⟨inv', trivial, excused⟩
  · cases reply with
    | error kind => exact Triple.done fun w excused => excused
    | ok _ =>
      refine Triple.call (LockTried provided v loose excuse made) (alone_stable _ _ _) ?_
        fun reply => ?_
      · intro w entering inv reply w' step
        obtain ⟨inv', tried⟩ := entering.lockStore fit identity calm inv step
        exact ⟨inv', trivial, tried⟩
      · cases reply with
        | locked => exact Triple.done fun w here => here
        | wouldBlock => exact Triple.done fun w impossible => impossible.elim
        | error kind =>
          cases policy with
          | require => exact Triple.done fun w here => here.1
          | bestEffort => exact Triple.done fun w here => here.2

theorem loadMk_opening (calm : ¬ excuse → env.faults = false)
    (honest : env.Denies .loadMk → provided = none) :
    Triple (Solo env tid (Begun X fits provided v)) (fun w => Opening provided v loose made w ∧ Agrees v w)
      loadMk fun result w => (Opening provided v loose made w ∧ Agrees v w) ∧ match result with
        | .ok mk => provided = some mk
        | .error e => (e.isNotFound = true → provided = none) ∧ (excuse ∨ e.isNotFound = true) := by
  refine observe (party_solo env tid _) still_solo rfl fun reply => ?_
  rintro w ⟨here, seen⟩
  obtain ⟨faults, _, e, may, failed⟩ | ⟨choice, effected⟩ := sem_outcomes seen
  · cases failed
    exact ⟨here, fun missing => honest ⟨faults, e, missing, may⟩, .inl (excused_of_faults calm faults)⟩
  · simp only [effect, here.1.provided] at effected
    cases provided with
    | none =>
      cases effected
      exact ⟨here, fun _ => rfl, .inr rfl⟩
    | some mk =>
      cases effected
      exact ⟨here, rfl⟩

/-- The provider is asked for the master key and given one if it has none. A failing
provider that claims to have none would lose its key. -/
theorem ensureMk_spec (fit : fits (edKey X) ed ∧ fits (diliKey X) dili)
    (identity : IdentityAt X provided v ed dili)
    (calm : ¬ excuse → env.faults = false) (honest : env.Denies .loadMk → provided = none) :
    Triple (Solo env tid (Begun X fits provided v)) (fun w => Opening provided v loose made w ∧ Agrees v w) ensureMk
      fun result w => match result with
        | .ok _ => ∃ mk, (provided = none ∨ provided = some mk) ∧
            Opening (some mk) v loose made w ∧ Agrees v w
        | .error _ => excuse := by
  have faulty : env.faults = true → excuse := excused_of_faults calm
  refine Triple.attempt_bind (loadMk_opening calm honest) fun result => ?_
  cases result with
  | ok mk => exact Triple.done fun w here => ⟨mk, .inr here.2, here.2 ▸ here.1⟩
  | error e =>
    dsimp only
    rintro w ⟨here, absent, reason⟩
    split
    · next missing =>
      obtain rfl := absent missing
      have still : Still (Solo env tid (Begun X fits none v)) fun w =>
        Opening none v loose made w ∧ Agrees v w := still_solo
      refine Triple.bind (randomFixed_spec (party_solo env tid _) still .masterKey) (fun new => ?_)
        (fun e w drawn => faulty drawn.2) w here
      refine (storeMk_spec (fun w => Opening (some new) v loose made w ∧ Agrees v w) new
        fun w here _ => ?_).mono (fun w drawn => drawn.1) fun result w ended => ?_
      · have opening : Opening (some new) v loose made (w.provide new) :=
          here.1.control rfl here.1.idle
        have known : IdentityAt X (some new) v ed dili := fun mk _ => identity mk (.inl rfl)
        exact ⟨⟨opening.founded here.2 fit known, .inr rfl, opening.rest⟩, opening, here.2⟩
      · cases result with
        | ok _ => exact ⟨new, .inl rfl, ended⟩
        | error e => exact faulty ended.2
    · next other => exact reason.resolve_right other

theorem arenaMap_spec {α : Type} {inv : World → Prop} (held : World → Prop) {capacity : Nat}
    {rest : Prog α} {post : Except LithiumError α → World → Prop}
    (calm : ¬ excuse → env.faults = false ∧ (arenaSize capacity).isSome = true)
    (succeed : Triple (Solo env tid inv) held rest post)
    (failed : ∀ e w, held w → excuse → post (.error e) w) :
    Triple (Solo env tid inv) held ((call (.arenaMap capacity)).bind fun mapped =>
      (Program.done mapped : Prog Unit).bind fun _ => rest) post := by
  refine observe (party_solo env tid inv) still_solo rfl fun reply => ?_
  rintro w ⟨here, seen⟩
  obtain ⟨faults, _, e, failure⟩ | ⟨choice, effected⟩ := sem_cases seen
  · cases failure
    refine failed e w here ?_
    exact excused_of_faults (fun none => (calm none).1) faults
  · simp only [effect] at effected
    split at effected
    · cases effected
      exact succeed w here
    · next overflow =>
      cases effected
      refine failed _ w here ?_
      by_contra none
      have mapped := (calm none).2
      rw [overflow] at mapped
      cases mapped

theorem scheduleRotation_spec {inv : World → Prop} (held : World → Prop) {config : KeyManagerConfig}
    (calm : ¬ excuse → Accepted env config) :
    Triple (Solo env tid inv) held (scheduleRotation config) fun result w =>
      held w ∧ (excuse ∨ result = .ok ()) := by
  have party := party_solo env tid inv
  refine observe party still_solo rfl fun (now : Nat) => ?_
  rintro w ⟨here, seen⟩
  have bound : now ≤ env.clock := by
    obtain ⟨_, _, e, failure⟩ | ⟨choice, effected⟩ := sem_cases seen
    · cases failure
    · simp only [effect] at effected
      split at effected
      · next early =>
        cases effected
        exact early
      · cases effected
  split
  · split
    · refine observe party still_solo rfl (fun reply => ?_) w here
      rintro w ⟨here, seen⟩
      obtain done | ⟨faults, _, e, failed⟩ := sem_natural (fun _ => rfl) seen
      · cases done
        exact ⟨here, .inr rfl⟩
      · obtain ⟨kind, rfl⟩ := ioFailure_eq failed
        refine ⟨here, .inl ?_⟩
        exact excused_of_faults (fun none => (calm none).faultless) faults
    · exact ⟨here, .inr rfl⟩
  · next late =>
    refine ⟨here, .inl ?_⟩
    by_contra none
    have early := (calm none).clock
    omega

end

def Started (X : Crypto) (cached : Bool) (policy : PublicCachePolicy) (misled loose excuse : Prop)
    (provided : Option Key) (v : View) (ed dili : Stage) (w : World) : Except LithiumError PublicKeys → Prop
  | .ok keys => ∃ mk, (provided = none ∨ provided = some mk) ∧ Opening (some mk) v loose storeDirs w ∧
      (cached = true → w.control.cachedMk = some mk) ∧
      Identified X mk misled policy excuse ed dili w.view (.ok keys)
  | .error e => excuse ∨ ∃ mk, (provided = none ∨ provided = some mk) ∧
      Opening (some mk) v loose storeDirs w ∧ Identified X mk misled policy excuse ed dili w.view (.error e)

section
variable {X : Crypto} {misled : Prop} {fits : SeedKey → Stage → Prop} {env : Env} {tid : Tid}
  {provided : Option Key} {v : View} {loose excuse : Prop} {ed dili : Stage} {cached : Bool}
  {config : KeyManagerConfig} {mk : Key}

theorem founding_opening (closed : Closed misled fits) (known : provided = none ∨ provided = some mk) :
    FoundingBoth X mk misled fits tid (Begun X fits provided v) (Opening (some mk) v loose storeDirs) where
  invSteady := begun_steady
  steady := opening_steady
  aside := fun w w' path data member opening step => opening.put (.inl member) step
  closed := closed
  sound := fun w ed dili opening edFit diliFit edAt diliAt => {
    founded := ⟨opening.layout, ed, dili, ⟨edFit, diliFit⟩, fun other known => by
      rw [opening.provided] at known
      obtain absent | same := known
      · cases absent
      · cases same
        exact ⟨edAt, diliAt⟩⟩
    provided := known.symm.imp_left fun known => opening.provided.trans known.symm
    rest := opening.rest }

theorem begun_control {w : World} {control : Control}
    (same : control.providerMk = w.control.providerMk) (begun : Begun X fits provided v w) :
    Begun X fits provided v { w with control := control } := by
  obtain ⟨⟨layout, ed, dili, fit, identity⟩, provided, rest⟩ := begun
  exact ⟨⟨⟨layout.dirs, layout.rotate, layout.lock, layout.unmarked⟩, ed, dili, fit,
    fun mk known => identity mk (same ▸ known)⟩, provided.imp_left same.trans, rest⟩

theorem cacheMk_spec (held : World → Prop) (calm : ¬ excuse → env.faults = false)
    (recached : ∀ w, held w → held { w with control := { w.control with cachedMk := some mk } }) :
    Triple (Solo env tid (Begun X fits provided v)) held (cacheMk cached mk) fun result w => match result with
      | .ok _ => held w ∧ (cached = true → w.control.cachedMk = some mk)
      | .error _ => excuse := by
  cases cached with
  | false => exact Triple.done fun w here => ⟨here, by simp⟩
  | true =>
    refine arenaClaim_spec held ?_ fun e w here faults => ?_
    · refine control_spec (fun w => held w ∧ w.control.cachedMk = some mk)
        (fun c => { c with cachedMk := some mk }) (fun w reply w' step => ?_)
        (fun w => begun_control rfl) (fun w here => ⟨recached w here, rfl⟩) fun _ =>
          Triple.done fun w here => ⟨here.1, fun _ => here.2⟩
      obtain done | ⟨_, _, e, failed⟩ := sem_natural (fun _ => rfl) step
      · cases done
        rfl
      · cases failed
    · exact excused_of_faults calm faults

/-- The second half of a start, with the master key at hand: the identity keys, the cache and
the schedule. -/
theorem startKeyed_spec (lawful : X.Lawful) (short : ShortKeys X) (closed : Closed misled fits)
    (fit : fits (edKey X) ed ∧ fits (diliKey X) dili) (identity : IdentityAt X provided v ed dili)
    (loosely : loose → excuse) (calm : ¬ excuse → Accepted env config) (candid : env.Candid misled)
    (known : provided = none ∨ provided = some mk) :
    Triple (Solo env tid (Begun X fits provided v))
      (fun w => Opening (some mk) v loose storeDirs w ∧ Agrees v w)
      (do
        Program.done (← call (.arenaMap config.arenaCapacity))
        let publicKeys ← ensureAsymmetricMaterial X mk config.publicCachePolicy
        cacheMk cached mk
        scheduleRotation config
        return publicKeys : Prog PublicKeys)
      fun result w =>
        Started X cached config.publicCachePolicy misled loose excuse provided v ed dili w result := by
  refine arenaMap_spec (fun w => Opening (some mk) v loose storeDirs w ∧ Agrees v w)
    (fun none => ⟨(calm none).faultless, (calm none).arena⟩) ?_ fun e w here excused => .inl excused
  have material : Triple (Solo env tid (Begun X fits provided v))
      (fun w => Opening (some mk) v loose storeDirs w ∧
        (edKey X).At X mk w.view ed ∧ (diliKey X).At X mk w.view dili)
      (ensureAsymmetricMaterial X mk config.publicCachePolicy) fun result w =>
        Opening (some mk) v loose storeDirs w ∧
          Identified X mk misled config.publicCachePolicy excuse ed dili w.view result :=
    ensureAsymmetricMaterial_spec lawful short (founding_opening closed known)
      (fun none => ⟨(calm none).faultless, fun w here => ⟨here.dirs pubDir (by decide),
        here.dirs privDir (by decide), here.fresh.resolve_left fun loose => none (loosely loose)⟩⟩)
      candid fit.1 fit.2
  refine (Triple.bind material (fun keys => ?_) ?_).mono (fun w here => ⟨here.1,
    (identity mk known).1.congr (here.2 edPriv (by decide)) (here.2 edPub (by decide)),
    (identity mk known).2.congr (here.2 diliPriv (by decide)) (here.2 diliPub (by decide))⟩)
    fun _ _ ended => ended
  · refine Triple.bind (cacheMk_spec (fun w => Opening (some mk) v loose storeDirs w ∧
      Identified X mk misled config.publicCachePolicy excuse ed dili w.view (.ok keys))
      (fun none => (calm none).faultless)
      fun w here => ⟨here.1.control here.1.provided here.1.idle, here.2⟩) (fun _ => ?_)
      fun e w failed => .inl failed
    refine Triple.bind (scheduleRotation_spec _ calm) (fun _ => ?_) fun e w ended => ?_
    · exact Triple.done fun w here => ⟨mk, known, here.1.1.1, here.1.2, here.1.1.2⟩
    · exact .inl (ended.2.resolve_right (by simp))
  · exact fun e w ended => .inr ⟨mk, known, ended⟩

/-- How a start ends. What is known where it fails is in the invariant. -/
theorem startWithConfig_spec (lawful : X.Lawful) (short : ShortKeys X) (closed : Closed misled fits)
    (fit : fits (edKey X) ed ∧ fits (diliKey X) dili) (identity : IdentityAt X provided v ed dili)
    (loosely : loose → excuse) (calm : ¬ excuse → Accepted env config)
    (honest : env.Denies .loadMk → provided = none) (candid : env.Candid misled) :
    Triple (Solo env tid (Begun X fits provided v)) (Entering provided v loose [])
      (startWithConfig X cached config) fun result w =>
        Started X cached config.publicCachePolicy misled loose excuse provided v ed dili w result := by
  have faultless : ¬ excuse → env.faults = false := fun none => (calm none).faultless
  unfold startWithConfig
  split
  · next small =>
    refine Triple.done fun w here => .inl ?_
    by_contra none
    have interval := (calm none).interval small.1
    omega
  refine Triple.bind (openDir_spec faultless (by decide) (.inl rfl)) (fun _ => ?_) fun e w failed =>
    .inl failed
  refine Triple.bind (openDir_spec faultless (by decide) (.inr (by decide))) (fun _ => ?_)
    fun e w failed => .inl failed
  refine Triple.bind (openDir_spec faultless (by decide) (.inr (by decide))) (fun _ => ?_)
    fun e w failed => .inl failed
  refine Triple.bind (openDir_spec faultless (by decide) (.inr (by decide))) (fun _ => ?_)
    fun e w failed => .inl failed
  refine Triple.bind (acquireExclusiveLock_spec fit identity faultless (by decide) _) (fun _ => ?_)
    fun e w failed => .inl failed
  refine Triple.bind (ensureMk_spec fit identity faultless honest) (fun _ => ?_)
    fun e w failed => .inl failed
  refine Triple.exists_pre fun mk => Triple.pure fun known => ?_
  have steady : Steady tid fun w => Opening (some mk) v loose storeDirs w ∧ Agrees v w :=
    opening_steady.and agrees_steady
  have provider : ∀ w, Opening (some mk) v loose storeDirs w ∧ Agrees v w →
      w.control.providerMk = some mk := fun w here => here.1.provided
  refine (Triple.bind (recover_clean X begun_steady begun_prunable steady
    (opening_prunable fun dir member => member) (fun w here => here.1.layout.unmarked) fun none =>
      ⟨faultless none, fun w here => ⟨here.1.layout.rotate,
        (here.1.dirs rootDir (by decide)).isDir⟩⟩) (fun _ => ?_)
    fun e w ended => .inl (ended.2.2.resolve_right (by simp))).mono
    (fun w here => ⟨here.1.subset (by decide), here.2⟩) fun _ _ ended => ended
  refine (Triple.bind (loadMk_spec provider) (fun rootMk => ?_) ?_).mono (fun w here => here.1)
    fun _ _ ended => ended
  · rintro w ⟨here, answers⟩
    cases answers.ok
    exact startKeyed_spec lawful short closed fit identity loosely calm candid known w here
  · rintro e w ⟨_, answers⟩
    obtain excused | natural := answers.excused_or faultless
    · exact .inl excused
    · cases natural

end

end Lithium.Keys
