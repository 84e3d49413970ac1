import Lithium.Keys.Store

/-! What rotation and its recovery do when nobody interferes, as triples whose
invariant is that a crash loses nothing. An `excuse` is what it takes for a step
to fail; without one the environment is fault-free and the store tidy. -/
namespace Lithium.Keys
open Effects Storage

abbrev Solo (env : Env) (tid : Tid) (inv : World → Prop) : Protocol Calls World :=
  .alone (sem env tid) inv

/-- The thread's own quiet steps keep the assertion. -/
def Steady (tid : Tid) (held : World → Prop) : Prop :=
  ∀ w w', held w → Step tid w.view w w' → held w'

section
variable {env : Env} {tid : Tid} {inv held fact : World → Prop}

theorem party_solo (env : Env) (tid : Tid) (inv : World → Prop) :
    Party (Solo env tid inv) env tid where
  meaning := id
  owned := fun same _ owns => same ▸ ⟨owns, rfl⟩

theorem still_solo : Still (Solo env tid inv) held := ⟨alone_stable _ _ _, fun _ _ => trivial⟩

theorem keeps_solo (invSteady : Steady tid inv) (heldSteady : Steady tid held) :
    Keeps (Solo env tid inv) tid held where
  stable := alone_stable _ _ _
  quiet := fun here inv step => ⟨invSteady _ _ inv step, trivial, heldSteady _ _ here step⟩

theorem calm_solo (faultless : env.faults = false) : Calm (Solo env tid inv) env :=
  ⟨faultless, fun same => same.symm⟩

theorem Steady.and (left : Steady tid held) (right : Steady tid fact) :
    Steady tid fun w => held w ∧ fact w :=
  fun w w' here step => ⟨left w w' here.1 step, right w w' here.2 step⟩

theorem Steady.or_const {excuse : Prop} (steady : Steady tid held) :
    Steady tid fun w => excuse ∨ held w := fun w w' here step => here.imp_right (steady w w' · step)

/-- Assertions about the view and the shared state only. -/
theorem steady_view (about : View → Control → Prop) :
    Steady tid fun w => about w.view w.control := fun w w' here step => by
  show about w'.view w'.control
  rw [step.view, step.control]
  exact here

theorem preparedAt_steady (X : Crypto) (custody : Custody) (payloads : Payloads) (old new : Key) :
    Steady tid (PreparedAt X custody payloads old new) :=
  steady_view fun v c => (c.providerMk = some old ∧ custody.known old ∧ custody.known new) ∧
    v readyPath = some marker ∧ Prepared X custody payloads old new v

theorem finishedAt_steady (X : Crypto) (custody : Custody) (payloads : Payloads) (mk : Key) :
    Steady tid (FinishedAt X custody payloads mk) :=
  steady_view fun v c => (c.providerMk = some mk ∧ custody.known mk) ∧
    (v readyPath = none ∧ LiveIn X custody payloads mk v ∨
      v readyPath = some marker ∧ Switched X custody payloads mk v)

theorem recoverable_steady (X : Crypto) (custody : Custody) (payloads : Payloads) :
    Steady tid (Recoverable X custody payloads) := by
  rintro w w' (⟨old, new, here⟩ | ⟨mk, here⟩) step
  · exact .inl ⟨old, new, preparedAt_steady X custody payloads old new w w' here step⟩
  · exact .inr ⟨mk, finishedAt_steady X custody payloads mk w w' here step⟩
end

def RotateDirOk (w : World) : Prop := w.fs.get rotateDir = none ∨ w.fs.isDir rotateDir = true

/-- The directories of a started store are in place and its temp names free. -/
structure Tidy (w : World) : Prop where
  root : PrivateDir w rootDir
  priv : PrivateDir w privDir
  secrets : PrivateDir w secretsDir
  rotate : RotateDirOk w
  fresh : StampsFree w

theorem Step.rotateDirOk {tid : Tid} {view : View} {w w' : World} (step : Step tid view w w')
    (ok : RotateDirOk w) : RotateDirOk w' := by
  obtain absent | directory := ok
  · exact (step.missing rotateDir (by decide) absent).imp_right PrivateDir.isDir
  · exact .inr (step.isDir directory)

theorem Step.tidy {tid : Tid} {view : View} {w w' : World} (step : Step tid view w w')
    (tidy : Tidy w) : Tidy w' where
  root := step.privateDir tidy.root
  priv := step.privateDir tidy.priv
  secrets := step.privateDir tidy.secrets
  rotate := step.rotateDirOk tidy.rotate
  fresh := step.fresh tidy.fresh

theorem Tidy.control {w : World} (tidy : Tidy w) (control : Control) :
    Tidy { w with control := control } :=
  ⟨tidy.root, tidy.priv, tidy.secrets, tidy.rotate, tidy.fresh⟩

/-- Entries of the rotation directory may have gone, nothing else has. -/
structure Pruned (w w' : World) : Prop where
  control : w'.control = w.control
  pid : w'.pid = w.pid
  stamps : w'.stamps = w.stamps
  outside : ∀ path, ¬ rotateDir <:+ path → w'.fs.get path = w.fs.get path
  gone : ∀ path, w'.fs.get path = w.fs.get path ∨ w'.fs.get path = none

theorem Pruned.view {w w' : World} (pruned : Pruned w w') : PrunedView w.view w'.view := by
  constructor
  · intro path outside
    simp [World.view, pruned.outside path outside]
  · intro path
    unfold World.view
    split
    · exact .inl rfl
    · exact pruned.gone path

theorem Pruned.privateDir {w w' : World} (pruned : Pruned w w') {dir : Path}
    (outside : ¬ rotateDir <:+ dir) (private_ : PrivateDir w dir) : PrivateDir w' dir := by
  obtain ⟨node, found, rest⟩ := private_
  exact ⟨node, by rw [pruned.outside dir outside, found], rest⟩

theorem Pruned.rotateDirOk {w w' : World} (pruned : Pruned w w') (ok : RotateDirOk w) :
    RotateDirOk w' := by
  obtain same | gone := pruned.gone rotateDir
  · refine ok.imp same.trans fun directory => ?_
    obtain ⟨node, found, ftype⟩ := (w.fs.isDir_cons _ _).mp directory
    exact (w'.fs.isDir_cons _ _).mpr ⟨node, same.trans found, ftype⟩
  · exact .inl gone

theorem Pruned.stampsFree {w w' : World} (pruned : Pruned w w') (free : StampsFree w) :
    StampsFree w' := fun path seq stamp present => by
  rw [pruned.stamps]
  rw [pruned.pid] at stamp
  refine free path seq stamp ?_
  obtain same | gone := pruned.gone path
  · rwa [← same]
  · rw [gone] at present
    cases present

theorem Pruned.tidy {w w' : World} (pruned : Pruned w w') (tidy : Tidy w) : Tidy w' where
  root := pruned.privateDir (by decide) tidy.root
  priv := pruned.privateDir (by decide) tidy.priv
  secrets := pruned.privateDir (by decide) tidy.secrets
  rotate := pruned.rotateDirOk tidy.rotate
  fresh := pruned.stampsFree tidy.fresh

/-- The assertion survives removals from the rotation directory. -/
def Prunable (held : World → Prop) : Prop := ∀ w w', held w → Pruned w w' → held w'

theorem sem_removeEntry {env : Env} {tid : Tid} {w w' : World} {reply : Io Unit}
    (step : sem env tid (.removeEntry rotateDir) w reply w') :
    Pruned w w' ∧ (reply = .ok () ∧
        ((w'.fs.below rotateDir).length + 1 = (w.fs.below rotateDir).length ∨
          w'.fs.below rotateDir = []) ∨
      env.faults = true ∧ ∃ kind, reply = .error kind) := by
  have refl : Pruned w w := ⟨rfl, rfl, rfl, fun _ _ => rfl, fun _ => .inl rfl⟩
  obtain ⟨faults, rfl, e, failed⟩ | ⟨choice, effected⟩ := sem_cases step
  · exact ⟨refl, .inr ⟨faults, ioFailure_eq failed⟩⟩
  · simp only [effect] at effected
    split at effected
    · next empty =>
      cases effected
      exact ⟨refl, .inl ⟨rfl, .inr (List.isEmpty_iff.mp empty)⟩⟩
    · obtain ⟨fs, removed, same⟩ := Option.map_eq_some_iff.mp effected
      cases same
      obtain ⟨inside, _, get, _⟩ := FileSystem.removeEntry_spec removed
      refine ⟨⟨rfl, rfl, rfl, fun path outside => ?_, fun path => ?_⟩,
        .inl ⟨rfl, .inl (FileSystem.length_below_removeEntry removed)⟩⟩
      · rw [get, Function.update_of_ne]
        rintro rfl
        exact outside inside
      · rw [get]
        by_cases same : path = choice.pick
        · exact .inr (by rw [same, Function.update_self])
        · exact .inl (Function.update_of_ne same _ _)

section
variable {env : Env} {tid : Tid} {inv held : World → Prop}

theorem removeEntries_spec (invPrunable : Prunable inv) (prunable : Prunable held) (n : Nat) :
    Triple (Solo env tid inv) (fun w => held w ∧ (w.fs.below rotateDir).length ≤ n)
      (removeEntries rotateDir n) fun result w => held w ∧ match result with
        | .ok _ => w.fs.below rotateDir = []
        | .error _ => env.faults = true := by
  induction n with
  | zero =>
    refine Triple.done fun w here => ⟨here.1, ?_⟩
    exact List.length_eq_zero_iff.mp (Nat.le_zero.mp here.2)
  | succ n ih =>
    refine Triple.call (fun (reply : Io Unit) w => held w ∧ match reply with
      | .ok _ => (w.fs.below rotateDir).length ≤ n
      | .error _ => env.faults = true) (alone_stable _ _ _) ?_ fun reply => ?_
    · rintro w ⟨here, bound⟩ inv reply w' step
      obtain ⟨pruned, ⟨rfl, less | empty⟩ | ⟨faults, kind, rfl⟩⟩ := sem_removeEntry step
      · exact ⟨invPrunable _ _ inv pruned, trivial, prunable _ _ here pruned, by dsimp only; omega⟩
      · exact ⟨invPrunable _ _ inv pruned, trivial, prunable _ _ here pruned, by simp [empty]⟩
      · exact ⟨invPrunable _ _ inv pruned, trivial, prunable _ _ here pruned, faults⟩
    · match reply with
      | .ok () => exact ih
      | .error kind => exact Triple.done fun w here => here

end

section
variable {env : Env} {tid : Tid} {inv held : World → Prop} {excuse : Prop}

/-- `sync_dir` changes no entry and fails only where there is something other than
a directory. -/
theorem syncDir_spec (excuse : Prop) (invSteady : Steady tid inv) (steady : Steady tid held)
    (path : Path) (about : View → Prop) (calm : ¬ excuse → env.faults = false ∧
      ∀ w, held w → w.fs.get path = none ∨ w.fs.isDir path = true) :
    Triple (Solo env tid inv) (fun w => held w ∧ about w.fs.get) (syncDir path) fun result w =>
      held w ∧ about w.fs.get ∧ (excuse ∨ result = .ok ()) := by
  refine Triple.bind (pathExists_spec (party_solo env tid inv) still_solo path) (fun there => ?_)
    fun e w seen => absurd seen.2 (by simp)
  rintro w ⟨⟨here, known⟩, seen⟩
  cases there with
  | false => exact ⟨here, known, .inr rfl⟩
  | true =>
    have found : (w.fs.get path).isSome = true := by
      cases entry : w.fs.get path with
      | none => simp [FileSystem.stat, entry] at seen
      | some node => rfl
    refine stepping_from (.syncDir path) (fun w => (w.fs.get path).isSome = true ∧ about w.fs.get)
      (fun reply w => about w.fs.get ∧ (excuse ∨ reply = .ok ())) (party_solo env tid inv)
      (keeps_solo invSteady steady) (fun there same => same ▸ there) ?_ (fun reply => ?_) w
      ⟨here, found, known⟩
    · rintro w reply w' here ⟨there, known⟩ step
      obtain ⟨quiet, same, done | ⟨kind, _, failed⟩⟩ := sem_syncDir step
      · exact ⟨quiet, same ▸ known, .inr done⟩
      · refine ⟨quiet, same ▸ known, .inl ?_⟩
        by_contra none
        obtain ⟨faultless, known⟩ := calm none
        obtain faults | stray := failed
        · rw [faultless] at faults
          cases faults
        · obtain absent | directory := known w here
          · rw [absent] at there
            cases there
          · rw [directory] at stray
            cases stray
    · rintro w ⟨here, known, excused | rfl⟩
      · cases reply <;> exact ⟨here, known, .inl excused⟩
      · exact ⟨here, known, .inr rfl⟩

def Cleared (w : World) : Prop :=
  ∀ path, rotateDir <:+ path → path ≠ rotateDir → w.fs.get path = none

theorem cleared_of_below {w : World} (empty : w.fs.below rotateDir = []) :
    Cleared w ∧ w.fs.get rotateDir = none := by
  have none_ : ∀ path, rotateDir <:+ path → w.fs.get path = none := fun path inside => by
    by_contra present
    have member := (w.fs.mem_below rotateDir path).mpr
      ⟨inside, Option.isSome_iff_ne_none.mpr present⟩
    rw [empty] at member
    cases member
  exact ⟨fun path inside _ => none_ path inside, none_ rotateDir List.suffix_rfl⟩

/-- Where `exists()` sees no rotation directory, nothing lies in it. -/
theorem cleared_of_stat {w : World} (unseen : (w.fs.stat rotateDir).isSome = false) : Cleared w := by
  intro path inside apart
  by_contra present
  obtain ⟨node, found, directory⟩ := (w.fs.isDir_cons _ _).mp
    (w.fs.isDir_of_below inside apart (Option.isSome_iff_ne_none.mpr present))
  have seen : w.fs.stat rotateDir = some node.metadata := by
    simp [FileSystem.stat, rotateDir, found, directory]
  rw [seen] at unseen
  cases unseen

theorem openTree_spec {w w' : World} {reply : Io Nat}
    (step : sem env tid (.openTree rotateDir) w reply w') :
    reply = .ok (w.fs.below rotateDir).length ∨
      ∃ kind, reply = .error kind ∧ (env.faults = true ∨ w.fs.isDir rotateDir = false) := by
  obtain ⟨faults, rfl, e, failed⟩ | ⟨choice, effected⟩ := sem_cases step
  · obtain ⟨kind, rfl⟩ := ioFailure_eq failed
    exact .inr ⟨kind, rfl, .inl faults⟩
  · simp only [effect] at effected
    split at effected
    · cases effected
      exact .inl rfl
    · next stray =>
      cases effected
      exact .inr ⟨_, rfl, .inr (by simpa using stray)⟩

/-- `remove_dir_all` on the rotation directory. -/
theorem removeDirAll_spec (invPrunable : Prunable inv) (prunable : Prunable held)
    (calm : ¬ excuse → env.faults = false ∧
      ∀ w, held w → RotateDirOk w ∧ w.fs.isDir rootDir = true) :
    Triple (Solo env tid inv) (fun w => held w ∧ (w.fs.get rotateDir).isSome = true)
      (removeDirAll rotateDir) fun result w => held w ∧ match result with
        | .ok _ => w.fs.below rotateDir = []
        | .error _ => excuse := by
  have faulty : env.faults = true → excuse := excused_of_faults fun none => (calm none).1
  refine observe (party_solo env tid inv) still_solo rfl fun reply => ?_
  rintro w ⟨⟨here, there⟩, opened⟩
  obtain rfl | ⟨kind, rfl, failed⟩ := openTree_spec opened
  · refine ((removeEntries_spec invPrunable prunable _).weaken fun result w removed => ?_) w
      ⟨here, le_rfl⟩
    cases result with
    | ok _ => exact removed
    | error e => exact ⟨removed.1, faulty removed.2⟩
  · refine ⟨here, ?_⟩
    by_contra none
    obtain faults | stray := failed
    · exact none (faulty faults)
    · obtain absent | directory := ((calm none).2 w here).1
      · rw [absent] at there
        cases there
      · rw [directory] at stray
        cases stray

/-- Success means that nothing is left in the rotation directory, if that directory can be
seen; only an excuse keeps the cleanup from succeeding. -/
theorem cleanupRotationDir_spec (invSteady : Steady tid inv) (invPrunable : Prunable inv)
    (steady : Steady tid held) (prunable : Prunable held)
    (calm : ¬ excuse → env.faults = false ∧
      ∀ w, held w → RotateDirOk w ∧ w.fs.isDir rootDir = true) :
    Triple (Solo env tid inv) held cleanupRotationDir fun result w =>
      held w ∧ (env.Sees rotateDir → result = .ok () → Cleared w) ∧
        (excuse ∨ result = .ok () ∧ w.fs.get rotateDir = none) := by
  refine Triple.bind (pathExists_spec (party_solo env tid inv) still_solo rotateDir)
    (fun there => ?_) fun e w seen => absurd seen.2 (by simp)
  rintro w ⟨here, seen⟩
  cases there with
  | false =>
    have unseen : env.Sees rotateDir → (w.fs.stat rotateDir).isSome = false := fun sees =>
      (Except.ok.inj (seen.resolve_right fun failed => failed.2 sees)).symm
    refine ⟨here, fun sees _ => cleared_of_stat (unseen sees), ?_⟩
    by_cases excused : excuse
    · exact .inl excused
    · have unseen := unseen (.inl (calm excused).1)
      refine .inr ⟨rfl, ?_⟩
      obtain absent | directory := ((calm excused).2 w here).1
      · exact absent
      · obtain ⟨node, found, ftype⟩ := (w.fs.isDir_cons _ _).mp directory
        simp [FileSystem.stat, rotateDir, found, ftype] at unseen
  | true =>
    have found : (w.fs.get rotateDir).isSome = true := by
      cases entry : w.fs.get rotateDir with
      | none => simp [FileSystem.stat, entry] at seen
      | some node => rfl
    have removal : Triple (Solo env tid inv)
        (fun w => held w ∧ (w.fs.get rotateDir).isSome = true) (removeDirAll rotateDir) _ :=
      removeDirAll_spec invPrunable prunable calm
    refine Triple.bind removal (fun _ => ?_) ?_ w ⟨here, found⟩
    · refine (syncDir_spec excuse invSteady steady rootDir (fun get =>
        (∀ path, rotateDir <:+ path → path ≠ rotateDir → get path = none) ∧ get rotateDir = none)
        (fun none => ⟨(calm none).1, fun w here => .inr ((calm none).2 w here).2⟩)).mono
        (fun w removed => ⟨removed.1, cleared_of_below removed.2⟩) ?_
      rintro result w ⟨here, ⟨cleared, gone⟩, done⟩
      exact ⟨here, fun _ _ => cleared, done.imp_right fun done => ⟨done, gone⟩⟩
    · rintro e w ⟨here, excused⟩
      exact ⟨here, by simp, .inl excused⟩

end

/-- The targets are the live keyfiles, each with its key type and staged copy. -/
structure Covers (payloads : Payloads) (targets : List RewrapTarget) : Prop where
  live : ∀ target ∈ targets, keyTypeOf target.livePath = some target.keyType ∧
    stageTargetPath target.relativePath = stagePath target.livePath ∧
    (payloads target.livePath).isSome = true
  all : ∀ path keyType, keyTypeOf path = some keyType → (payloads path).isSome = true →
    ∃ target ∈ targets, target.livePath = path

theorem keyTypeOf_label {path : Path} (extension : hasKeyfExtension path = true)
    (parent : path.tail = secretsDir) :
    keyTypeOf path = some (labelKeyTypeFromHex (fileStem path)) := by
  have notEd : path ≠ edPriv := by
    rintro rfl
    exact absurd parent (by decide)
  have notDili : path ≠ diliPriv := by
    rintro rfl
    exact absurd parent (by decide)
  rw [keyTypeOf, if_neg notEd, if_neg notDili, if_pos ⟨extension, parent⟩]

theorem rewrapTarget_live {path : Path} {keyType : String} (known : keyTypeOf path = some keyType)
    (declared : String) :
    rewrapTarget path declared =
      .ok ⟨path, path.take (path.length - rootDir.length), declared⟩ := by
  obtain ⟨stem, dir, rfl, _⟩ := live_shape known
  have inside : rootDir <:+ keyf stem :: plain dir :: rootDir := ⟨[keyf stem, plain dir], rfl⟩
  simp only [rewrapTarget, stripPrefix, if_pos inside]

theorem get_live {payloads : Payloads} {w : World} (present : Present payloads w.view) {path : Path}
    {keyType : String} (known : keyTypeOf path = some keyType) :
    (w.fs.get path).isSome = true ↔ (payloads path).isSome = true := by
  rw [← view_of_visible (live_storable known).1]
  exact (present path keyType known).1

theorem stat_isSome_of_isDir {fs : FileSystem FileName} {name : FileName} {dir : Path}
    (directory : fs.isDir (name :: dir) = true) : (fs.stat (name :: dir)).isSome = true := by
  obtain ⟨node, found, ftype⟩ := (fs.isDir_cons name dir).mp directory
  simp [FileSystem.stat, found, ftype]

theorem get_isSome_of_stat {fs : FileSystem FileName} {path : Path}
    (seen : (fs.stat path).isSome = true) : (fs.get path).isSome = true := by
  cases found : fs.get path with
  | none => simp [FileSystem.stat, found] at seen
  | some node => rfl

theorem stat_live {payloads : Payloads} {w : World} (present : Present payloads w.view) {path : Path}
    {keyType : String} (known : keyTypeOf path = some keyType) :
    (w.fs.stat path).isSome = (payloads path).isSome ∧
      (w.fs.stat path).any (fun metadata => metadata.ftype = .regular) = (payloads path).isSome := by
  obtain ⟨there, regular⟩ := present path keyType known
  rw [view_of_visible (live_storable known).1] at there regular
  cases found : w.fs.get path with
  | none =>
    have absent : (payloads path).isSome = false := by
      rw [found] at there
      simpa using there
    simp [FileSystem.stat, found, absent]
  | some node =>
    have held : (payloads path).isSome = true := there.mp (by rw [found]; rfl)
    simp [FileSystem.stat, found, regular node found, held, Node.metadata]

/-- What `stat` says of the places of live keyfiles: where something is, and where it is
a regular file. -/
def Stats (there file : Path → Bool) (w : World) : Prop :=
  ∀ path keyType, keyTypeOf path = some keyType → (w.fs.stat path).isSome = there path ∧
    (w.fs.stat path).any (fun metadata => metadata.ftype = .regular) = file path

theorem Stats.found {there file : Path → Bool} {w : World} (stats : Stats there file w) {path : Path}
    {keyType : String} (known : keyTypeOf path = some keyType) (regular : file path = true) :
    (w.fs.get path).isSome = true := by
  apply get_isSome_of_stat
  rw [← (stats path keyType known).2] at regular
  obtain ⟨metadata, seen, _⟩ := (Option.any_eq_true _ _).mp regular
  rw [seen]
  rfl

section
variable {env : Env} {tid : Tid} {inv held : World → Prop} {excuse : Prop} {payloads : Payloads}
  {there file : Path → Bool} [env.Sighted]

theorem fixedTarget_spec (stats : ∀ w, held w → Stats there file w) {path : Path}
    {keyType : String} (known : keyTypeOf path = some keyType) :
    Triple (Solo env tid inv) held (fixedTarget path keyType) fun result w => held w ∧
      result = .ok (if there path then
        [⟨path, path.take (path.length - rootDir.length), keyType⟩] else []) := by
  refine Triple.bind (pathExists_sees (party_solo env tid inv) still_solo (Env.Sighted.sees path)) ?_
    fun e w seen => absurd seen.2 (by simp)
  rintro _ w ⟨here, seen⟩
  rw [(stats w here path keyType known).1] at seen
  cases seen
  cases there path with
  | false => exact ⟨here, rfl⟩
  | true =>
    simp only [rewrapTarget_live known, if_true]
    exact ⟨here, rfl⟩

theorem keyfilesAmong_spec (stats : ∀ w, held w → Stats there file w) (entries : List Path)
    (children : ∀ path ∈ entries, path.tail = secretsDir) :
    Triple (Solo env tid inv) held (keyfilesAmong entries) fun result w => held w ∧
      result = .ok (entries.filter fun path => hasKeyfExtension path && file path) := by
  induction entries with
  | nil => exact Triple.done fun w here => ⟨here, rfl⟩
  | cons path rest ih =>
    refine observe (party_solo env tid inv) still_solo rfl fun reply => ?_
    rintro w ⟨here, seen⟩
    refine Triple.bind (ih fun other member => children other (List.mem_cons_of_mem _ member))
      (fun others => ?_) (fun e w ended => absurd ended.2 (by simp)) w here
    rintro w' ⟨here', listed⟩
    refine ⟨here', ?_⟩
    cases listed
    rw [sem_stat_sees (Env.Sighted.sees path) seen]
    cases extension : hasKeyfExtension path with
    | false => simp [extension]
    | true =>
      have known := keyTypeOf_label extension (children path List.mem_cons_self)
      rw [(stats w here path _ known).2]
      cases regular : file path <;> simp [extension, regular]

/-- The sorted listing of the secrets directory has the keyfiles in it, each once. -/
theorem mem_sorted_keyfiles {w : World} {entries : List Path} (stats : Stats there file w)
    (listed : w.fs.readDir secretsDir = .ok entries) :
    ((entries.filter fun path => hasKeyfExtension path && file path).insertionSort
        fun a b => pathLe a b).Nodup ∧
      ∀ path, path ∈ (entries.filter fun path => hasKeyfExtension path && file path).insertionSort
          (fun a b => pathLe a b) ↔
        path.tail = secretsDir ∧ hasKeyfExtension path = true ∧ file path = true := by
  refine ⟨(List.perm_insertionSort _ _).nodup_iff.mpr
    ((FileSystem.readDir_nodup listed).filter _), fun path => ?_⟩
  rw [List.mem_insertionSort, List.mem_filter, FileSystem.mem_readDir listed]
  constructor
  · rintro ⟨⟨_, name, rfl⟩, kept⟩
    exact ⟨rfl, by simpa using kept⟩
  · rintro ⟨parent, extension, regular⟩
    refine ⟨⟨stats.found (keyTypeOf_label extension parent) regular, ?_⟩,
      by simp [extension, regular]⟩
    cases path with
    | nil => cases extension
    | cons name dir => exact ⟨name, by rw [← parent]; rfl⟩

theorem listDirKeyfiles_spec (stats : ∀ w, held w → Stats there file w)
    (calm : ¬ excuse → env.faults = false ∧
      ∀ w, held w → w.fs.get secretsDir = none ∨ w.fs.isDir secretsDir = true) :
    Triple (Solo env tid inv) held (listDirKeyfiles secretsDir) fun result w => held w ∧
      match result with
      | .ok paths => paths.Nodup ∧ ∀ path, path ∈ paths ↔ path.tail = secretsDir ∧
          hasKeyfExtension path = true ∧ file path = true
      | .error _ => excuse := by
  refine Triple.bind (pathExists_sees (party_solo env tid inv) still_solo (Env.Sighted.sees secretsDir))
    ?_ fun e w seen => absurd seen.2 (by simp)
  rintro listed w ⟨here, seen⟩
  cases listed with
  | false =>
    refine ⟨here, List.nodup_nil, fun path => ⟨fun member => absurd member (by simp), ?_⟩⟩
    rintro ⟨parent, extension, regular⟩
    have entry := (stats w here).found (keyTypeOf_label extension parent) regular
    cases path with
    | nil => cases extension
    | cons name dir =>
      obtain rfl : dir = secretsDir := parent
      have unseen := (Except.ok.inj seen).trans (stat_isSome_of_isDir (w.fs.get_parent entry))
      cases unseen
  | true =>
    have found := get_isSome_of_stat (Except.ok.inj seen).symm
    have still : Still (Solo env tid inv) fun w =>
        held w ∧ (w.fs.get secretsDir).isSome = true := still_solo
    refine observe (party_solo env tid inv) still rfl (fun reply => ?_) w ⟨here, found⟩
    rintro w ⟨⟨here, there⟩, seen⟩
    obtain done | ⟨faults, _, e, failed⟩ := sem_natural (fun _ => rfl) seen
    · obtain rfl : reply = w.fs.readDir secretsDir := congrArg Prod.fst done
      cases listed : w.fs.readDir secretsDir with
      | error kind =>
        refine ⟨here, ?_⟩
        by_contra none
        obtain absent | directory := (calm none).2 w here
        · rw [absent] at there
          cases there
        · rw [FileSystem.readDir, if_pos directory] at listed
          cases listed
      | ok entries =>
        refine Triple.bind (keyfilesAmong_spec stats entries ?_) ?_
          (fun e w ended => absurd ended.2 (by simp)) w here
        · intro path member
          obtain ⟨_, name, rfl⟩ := (FileSystem.mem_readDir listed path).mp member
          rfl
        · rintro paths w' ⟨here', filtered⟩
          cases filtered
          exact ⟨here', mem_sorted_keyfiles (stats w here) listed⟩
    · obtain ⟨kind, rfl⟩ := ioFailure_eq failed
      refine ⟨here, ?_⟩
      exact excused_of_faults (fun none => (calm none).1) faults

theorem labelTargets_spec (paths : List Path)
    (labels : ∀ path ∈ paths, hasKeyfExtension path = true ∧ path.tail = secretsDir) :
    labelTargets paths = .ok (paths.map fun path =>
      ⟨path, path.take (path.length - rootDir.length), labelKeyTypeFromHex (fileStem path)⟩) := by
  induction paths with
  | nil => rfl
  | cons path rest ih =>
    obtain ⟨extension, parent⟩ := labels path List.mem_cons_self
    have rest := ih fun other member => labels other (List.mem_cons_of_mem _ member)
    simp only [labelTargets] at rest
    simp only [labelTargets, List.mapM_cons, rewrapTarget_live (keyTypeOf_label extension parent),
      rest, bind, Except.bind, pure, Except.pure, List.map_cons]

theorem covers_of_mem {targets : List RewrapTarget}
    (members : ∀ target, target ∈ targets ↔ ∃ path keyType, keyTypeOf path = some keyType ∧
      (payloads path).isSome = true ∧
      target = ⟨path, path.take (path.length - rootDir.length), keyType⟩) :
    Covers payloads targets where
  live := fun target member => by
    obtain ⟨path, keyType, known, sealed, rfl⟩ := (members target).mp member
    exact ⟨known, rfl, sealed⟩
  all := fun path keyType known sealed =>
    ⟨_, (members _).mpr ⟨path, keyType, known, sealed, rfl⟩, rfl⟩

theorem live_cases {path : Path} {keyType : String} : keyTypeOf path = some keyType ↔
    path = edPriv ∧ keyType = ktEdSeed ∨ path = diliPriv ∧ keyType = ktDiliSeed ∨
      hasKeyfExtension path = true ∧ path.tail = secretsDir ∧
        keyType = labelKeyTypeFromHex (fileStem path) := by
  constructor
  · intro known
    unfold keyTypeOf at known
    split at known
    · next same => exact .inl ⟨same, (Option.some.inj known).symm⟩
    · split at known
      · next same => exact .inr (.inl ⟨same, (Option.some.inj known).symm⟩)
      · split at known
        · next label => exact .inr (.inr ⟨label.1, label.2, (Option.some.inj known).symm⟩)
        · cases known
  · rintro (⟨rfl, rfl⟩ | ⟨rfl, rfl⟩ | ⟨extension, parent, rfl⟩)
    · rfl
    · rfl
    · exact keyTypeOf_label extension parent

/-- The targets are made from these places: the identity seeds where anything is, and
labels where regular files are. -/
def ListedIn (there file : Path → Bool) (path : Path) : Prop :=
  if path = edPriv ∨ path = diliPriv then there path = true else file path = true

theorem nodup_livePaths {ed dili : Bool} {paths : List Path} (once : paths.Nodup)
    (labels : ∀ path ∈ paths, ¬ (path = edPriv ∨ path = diliPriv))
    (target : Path → String → RewrapTarget) (own : ∀ path keyType, (target path keyType).livePath = path)
    (keyType : Path → String) :
    (((if ed then [target edPriv ktEdSeed] else []) ++
      (if dili then [target diliPriv ktDiliSeed] else []) ++
      paths.map fun path => target path (keyType path)).map RewrapTarget.livePath).Nodup := by
  have edApart : edPriv ∉ paths := fun member => labels _ member (.inl rfl)
  have diliApart : diliPriv ∉ paths := fun member => labels _ member (.inr rfl)
  have apart : edPriv ≠ diliPriv := by decide
  have same : (paths.map fun path => target path (keyType path)).map RewrapTarget.livePath = paths := by
    simp [Function.comp_def, own]
  rw [List.map_append, same]
  cases ed <;> cases dili <;> simp [own, once, edApart, diliApart, apart]

theorem collectRewrapTargets_lists (stats : ∀ w, held w → Stats there file w)
    (calm : ¬ excuse → env.faults = false ∧
      ∀ w, held w → w.fs.get secretsDir = none ∨ w.fs.isDir secretsDir = true) :
    Triple (Solo env tid inv) held collectRewrapTargets fun result w => held w ∧ match result with
      | .ok targets => (targets.map RewrapTarget.livePath).Nodup ∧
          ∀ target, target ∈ targets ↔ ∃ path keyType, keyTypeOf path = some keyType ∧
            ListedIn there file path ∧
            target = ⟨path, path.take (path.length - rootDir.length), keyType⟩
      | .error _ => excuse := by
  refine Triple.bind (fixedTarget_spec stats (live_cases.mpr (.inl ⟨rfl, rfl⟩))) (fun ed => ?_)
    fun e w ended => absurd ended.2 (by simp)
  rintro w ⟨here, edFound⟩
  refine Triple.bind (fixedTarget_spec stats (live_cases.mpr (.inr (.inl ⟨rfl, rfl⟩)))) (fun dili => ?_)
    (fun e w ended => absurd ended.2 (by simp)) w here
  rintro w ⟨here, diliFound⟩
  refine Triple.bind (listDirKeyfiles_spec stats calm) (fun paths => ?_)
    (fun e w ended => ended) w here
  rintro w ⟨here, once, listed⟩
  rw [labelTargets_spec paths fun path member => ⟨((listed path).mp member).2.1,
    ((listed path).mp member).1⟩]
  cases edFound
  cases diliFound
  have label : ∀ path, path.tail = secretsDir → ¬ (path = edPriv ∨ path = diliPriv) := by
    rintro path parent (rfl | rfl) <;> exact absurd parent (by decide)
  refine ⟨here, ?_, fun target => ?_⟩
  · rw [((List.perm_insertionSort _ _).map _).nodup_iff]
    exact nodup_livePaths once (fun path member => label path ((listed path).mp member).1)
      (fun path keyType => ⟨path, path.take (path.length - rootDir.length), keyType⟩)
      (fun _ _ => rfl) fun path => labelKeyTypeFromHex (fileStem path)
  simp only [List.mem_insertionSort, List.mem_append, List.mem_map, listed]
  constructor
  · rintro ((member | member) | ⟨path, ⟨parent, extension, regular⟩, rfl⟩)
    · split at member
      · next present =>
        exact ⟨edPriv, ktEdSeed, rfl, (if_pos (.inl rfl)).mpr present, List.mem_singleton.mp member⟩
      · cases member
    · split at member
      · next present =>
        exact ⟨diliPriv, ktDiliSeed, rfl, (if_pos (.inr rfl)).mpr present, List.mem_singleton.mp member⟩
      · cases member
    · exact ⟨path, _, keyTypeOf_label extension parent, (if_neg (label path parent)).mpr regular, rfl⟩
  · rintro ⟨path, keyType, known, place, rfl⟩
    obtain ⟨rfl, rfl⟩ | ⟨rfl, rfl⟩ | ⟨extension, parent, rfl⟩ := live_cases.mp known
    · have present := (if_pos (.inl rfl)).mp place
      exact .inl (.inl (by rw [if_pos present]; exact List.mem_singleton_self _))
    · have present := (if_pos (.inr rfl)).mp place
      exact .inl (.inr (by rw [if_pos present]; exact List.mem_singleton_self _))
    · exact .inr ⟨path, ⟨parent, extension, (if_neg (label path parent)).mp place⟩, rfl⟩

theorem collectRewrapTargets_spec (present : ∀ w, held w → Present payloads w.view)
    (calm : ¬ excuse → env.faults = false ∧
      ∀ w, held w → w.fs.get secretsDir = none ∨ w.fs.isDir secretsDir = true) :
    Triple (Solo env tid inv) held collectRewrapTargets fun result w => held w ∧ match result with
      | .ok targets => Covers payloads targets
      | .error _ => excuse := by
  have stats : ∀ w, held w →
      Stats (fun path => (payloads path).isSome) (fun path => (payloads path).isSome) w :=
    fun w here path keyType known => stat_live (present w here) known
  refine (collectRewrapTargets_lists stats calm).weaken fun result w ended => ⟨ended.1, ?_⟩
  cases result with
  | error e => exact ended.2
  | ok targets =>
    refine covers_of_mem fun target => ?_
    rw [ended.2.2 target]
    simp only [ListedIn, ite_self]

end

section
variable {env : Env} {tid : Tid} {inv held : World → Prop}

theorem fixedTarget_live {path : Path} {keyType : String} (known : keyTypeOf path = some keyType) :
    Triple (Solo env tid inv) held (fixedTarget path keyType) fun result w => held w ∧
      ∀ targets, result = .ok targets →
        ∀ target ∈ targets, target = ⟨path, path.take (path.length - rootDir.length), keyType⟩ := by
  refine Triple.bind (pathExists_spec (party_solo env tid inv) still_solo path) (fun there => ?_)
    fun e w seen => absurd seen.2 (by simp)
  rintro w ⟨here, -⟩
  cases there with
  | false => exact ⟨here, by rintro _ ⟨⟩ target ⟨⟩⟩
  | true =>
    simp only [rewrapTarget_live known, if_true]
    exact ⟨here, by rintro _ ⟨⟩ target member; exact List.mem_singleton.mp member⟩

theorem keyfilesAmong_live (entries : List Path) :
    Triple (Solo env tid inv) held (keyfilesAmong entries) fun result w => held w ∧
      ∀ paths, result = .ok paths → ∀ path ∈ paths, path ∈ entries ∧ hasKeyfExtension path = true := by
  induction entries with
  | nil => exact Triple.done fun w here => ⟨here, by rintro _ ⟨⟩ path ⟨⟩⟩
  | cons first rest ih =>
    refine observe (party_solo env tid inv) still_solo rfl fun reply => ?_
    refine Triple.mono (Triple.bind ih (fun others => ?_) fun e w ended => ⟨ended.1, by rintro _ ⟨⟩⟩)
      (fun w here => here.1) fun _ _ ended => ended
    rintro w ⟨here, listed⟩
    refine ⟨here, ?_⟩
    rintro _ ⟨⟩ path member
    split at member
    · next kept =>
      rcases List.mem_cons.mp member with rfl | member
      · exact ⟨List.mem_cons_self, kept.2⟩
      · exact ⟨List.mem_cons_of_mem _ (listed _ rfl path member).1, (listed _ rfl path member).2⟩
    · exact ⟨List.mem_cons_of_mem _ (listed _ rfl path member).1, (listed _ rfl path member).2⟩

theorem listDirKeyfiles_live :
    Triple (Solo env tid inv) held (listDirKeyfiles secretsDir) fun result w => held w ∧
      ∀ paths, result = .ok paths →
        ∀ path ∈ paths, hasKeyfExtension path = true ∧ path.tail = secretsDir := by
  refine Triple.bind (pathExists_spec (party_solo env tid inv) still_solo secretsDir) (fun there => ?_)
    fun e w seen => absurd seen.2 (by simp)
  rintro w ⟨here, -⟩
  cases there with
  | false => exact ⟨here, by rintro _ ⟨⟩ path ⟨⟩⟩
  | true =>
    refine observe (party_solo env tid inv) still_solo rfl (fun reply => ?_) w here
    rintro w ⟨here, seen⟩
    obtain done | ⟨faults, _, e, failed⟩ := sem_natural (fun _ => rfl) seen
    · obtain rfl : reply = w.fs.readDir secretsDir := congrArg Prod.fst done
      cases listed : w.fs.readDir secretsDir with
      | error kind => exact ⟨here, by rintro _ ⟨⟩⟩
      | ok entries =>
        refine Triple.bind (keyfilesAmong_live entries) (fun paths => ?_)
          (fun e w ended => ⟨ended.1, by rintro _ ⟨⟩⟩) w here
        rintro w' ⟨here', among⟩
        refine ⟨here', ?_⟩
        rintro _ ⟨⟩ path member
        obtain ⟨entry, extension⟩ := among _ rfl path ((List.mem_insertionSort _).mp member)
        obtain ⟨_, name, rfl⟩ := (FileSystem.mem_readDir listed path).mp entry
        exact ⟨extension, rfl⟩
    · obtain ⟨kind, rfl⟩ := ioFailure_eq failed
      exact ⟨here, by rintro _ ⟨⟩⟩

/-- Whatever can be seen, the targets are places of live keyfiles. -/
theorem collectRewrapTargets_live :
    Triple (Solo env tid inv) held collectRewrapTargets fun result w => held w ∧
      ∀ targets, result = .ok targets → ∀ target ∈ targets,
        keyTypeOf target.livePath = some target.keyType ∧
          stageTargetPath target.relativePath = stagePath target.livePath := by
  have edKnown : keyTypeOf edPriv = some ktEdSeed := rfl
  have diliKnown : keyTypeOf diliPriv = some ktDiliSeed := rfl
  refine Triple.bind (fixedTarget_live edKnown) (fun ed => ?_) fun e w ended => ⟨ended.1, by rintro _ ⟨⟩⟩
  rintro w ⟨here, edFound⟩
  refine Triple.bind (fixedTarget_live diliKnown) (fun dili => ?_)
    (fun e w ended => ⟨ended.1, by rintro _ ⟨⟩⟩) w here
  rintro w ⟨here, diliFound⟩
  refine Triple.bind listDirKeyfiles_live (fun paths => ?_)
    (fun e w ended => ⟨ended.1, by rintro _ ⟨⟩⟩) w here
  rintro w ⟨here, listed⟩
  rw [labelTargets_spec paths (listed _ rfl)]
  refine ⟨here, ?_⟩
  rintro _ ⟨⟩ target member
  simp only [List.mem_insertionSort, List.mem_append, List.mem_map] at member
  obtain (member | member) | ⟨path, member, rfl⟩ := member
  · rw [edFound _ rfl target member]
    exact ⟨edKnown, rfl⟩
  · rw [diliFound _ rfl target member]
    exact ⟨diliKnown, rfl⟩
  · exact ⟨keyTypeOf_label (listed _ rfl path member).1 (listed _ rfl path member).2, rfl⟩

end

/-- What the overwriting of live files with their staged copies rests on. -/
structure Applying (X : Crypto) (custody : Custody) (payloads : Payloads) (new : Key) (tid : Tid)
    (inv held : World → Prop) : Prop where
  invSteady : Steady tid inv
  steady : Steady tid held
  staged : ∀ w path keyType payload data, held w → keyTypeOf path = some keyType →
    payloads path = some payload → readNode (w.view (stagePath path)) = .ok data →
    Opens X custody new keyType payload (some (privateFile data))
  put : ∀ w w' path keyType payload data, held w → inv w → keyTypeOf path = some keyType →
    payloads path = some payload →
    Opens X custody new keyType payload (some (privateFile data)) →
    Step tid (Function.update w.view path (some (privateFile data))) w w' → inv w' ∧ held w'

/-- These targets have been brought under the new key from their staged copies. -/
def Applied (X : Crypto) (custody : Custody) (payloads : Payloads) (new : Key) (targets : List RewrapTarget)
    (v : View) : Prop :=
  ∀ target ∈ targets, ∀ payload, payloads target.livePath = some payload →
    Opens X custody new target.keyType payload (v target.livePath) ∧
      v (stagePath target.livePath) ≠ none

/-- Nothing but a failing call keeps a staged file from being applied. -/
def Appliable (payloads : Payloads) (w : World) : Prop :=
  ∀ path keyType, keyTypeOf path = some keyType → (payloads path).isSome = true →
    Ready path w ∧ PrivateDir w path.tail ∧ ∃ data, readNode (w.view (stagePath path)) = .ok data

section
variable {X : Crypto} {custody : Custody} {payloads : Payloads} {new : Key} {env : Env} {tid : Tid}
  {inv held : World → Prop} {excuse : Prop}

theorem syncParent_spec (excuse : Prop) (invSteady : Steady tid inv) (steady : Steady tid held)
    {path : Path} (storable : Storable path) (calm : ¬ excuse → env.faults = false ∧
      ∀ w, held w → w.fs.get path.tail = none ∨ w.fs.isDir path.tail = true) :
    Triple (Solo env tid inv) held (syncParent path) fun result w =>
      held w ∧ (excuse ∨ result = .ok ()) := by
  obtain ⟨name, dir, rfl⟩ := storable.exists_cons
  exact (syncDir_spec excuse invSteady steady dir (fun _ => True) calm).mono
    (fun _ here => ⟨here, trivial⟩) fun _ _ ended => ⟨ended.1, ended.2.2⟩

theorem Applied.put {targets : List RewrapTarget} {target : RewrapTarget} {v : View}
    {payload data : Bytes} (applied : Applied X custody payloads new targets v)
    (known : keyTypeOf target.livePath = some target.keyType)
    (others : ∀ other ∈ targets, keyTypeOf other.livePath = some other.keyType)
    (sealed : payloads target.livePath = some payload)
    (loads : Opens X custody new target.keyType payload (some (privateFile data)))
    (staged : v (stagePath target.livePath) ≠ none) :
    Applied X custody payloads new (target :: targets)
      (Function.update v target.livePath (some (privateFile data))) := by
  intro other member bytes otherSealed
  have otherKnown : keyTypeOf other.livePath = some other.keyType := by
    obtain rfl | member := List.mem_cons.mp member
    · exact known
    · exact others other member
  rw [Function.update_of_ne (apart_of_live known (below_rotate_of_staged otherKnown))]
  by_cases same : other.livePath = target.livePath
  · rw [same, known] at otherKnown
    rw [same, sealed] at otherSealed
    cases otherSealed
    rw [same, Function.update_self, ← Option.some.inj otherKnown]
    exact ⟨loads, staged⟩
  · rw [Function.update_of_ne same]
    obtain rfl | member := List.mem_cons.mp member
    · exact absurd rfl same
    · exact applied other member bytes otherSealed

theorem applyStagedFile_spec (applying : Applying X custody payloads new tid inv held)
    (calm : ¬ excuse → env.faults = false ∧ ∀ w, held w → Appliable payloads w)
    {target : RewrapTarget} {finished : List RewrapTarget}
    (known : keyTypeOf target.livePath = some target.keyType)
    (location : stageTargetPath target.relativePath = stagePath target.livePath)
    (sealed : (payloads target.livePath).isSome = true)
    (before : ∀ target ∈ finished, keyTypeOf target.livePath = some target.keyType)
    {rest : Prog Unit} {post : Except LithiumError Unit → World → Prop}
    (continues : Triple (Solo env tid inv)
      (fun w => held w ∧ Applied X custody payloads new (target :: finished) w.view) rest post)
    (fails : ∀ e w, held w → excuse → post (.error e) w) :
    Triple (Solo env tid inv) (fun w => held w ∧ Applied X custody payloads new finished w.view)
      (do
        let staged ← readKeyfileBytes (stageTargetPath target.relativePath)
        writeSecure target.livePath staged
        syncParent target.livePath
        rest) post := by
  have appliable : ¬ excuse → ∀ w, held w → _ := fun none w here =>
    (calm none).2 w here _ _ known sealed
  obtain ⟨payload, sealed⟩ := Option.isSome_iff_exists.mp sealed
  have appliedSteady : ∀ done, Steady tid fun w => held w ∧ Applied X custody payloads new done w.view :=
    fun done => applying.steady.and (steady_view fun v _ => Applied X custody payloads new done v)
  rw [location]
  refine Triple.bind (readKeyfileBytes_spec (party_solo env tid inv) still_solo
    (stagePath target.livePath)) (fun data => ?_) ?_
  · rintro w ⟨⟨here, applied⟩, answers⟩
    rw [← view_of_visible (staged_storable known).1] at answers
    have loads := applying.staged w _ _ _ data here known sealed answers.ok
    have there : w.view (stagePath target.livePath) ≠ none := by
      obtain ⟨found, entry, _⟩ := readNode_ok answers.ok
      simp [entry]
    have publishes : Publishes (Solo env tid inv) tid target.livePath data (fun _ => True)
        (fun w => (held w ∧ Applied X custody payloads new finished w.view) ∧
          w.view (stagePath target.livePath) ≠ none)
        (fun w => held w ∧ Applied X custody payloads new (target :: finished) w.view) :=
      ⟨keeps_solo applying.invSteady ((appliedSteady _).and
          (steady_view fun v _ => v (stagePath target.livePath) ≠ none)),
        keeps_solo applying.invSteady (appliedSteady _), fun here inv _ step => by
          obtain ⟨kept, there⟩ := applying.put _ _ _ _ _ _ here.1.1 inv known sealed loads step
          exact ⟨kept, trivial, there,
            step.view ▸ here.1.2.put known before sealed loads here.2⟩⟩
    refine Triple.bind (writeSecure_spec (party_solo env tid inv) publishes (live_storable known)
      fun none => ⟨calm_solo (calm none).1, fun w here => (appliable none w here.1.1).1⟩) (fun _ => ?_)
      (fun e w ended => fails e w ended.1.1.1 ended.2) w ⟨⟨here, applied⟩, there⟩
    refine Triple.bind (syncParent_spec excuse applying.invSteady (appliedSteady _)
      (live_storable known) fun none => ⟨(calm none).1, fun w here =>
        .inr (appliable none w here.1).2.1.isDir⟩) (fun _ => ?_) ?_
    · exact continues.mono (fun w here => here.1) fun _ _ ended => ended
    · rintro e w ⟨here, outcome⟩
      exact fails e w here.1 (excused_of_error outcome)
  · rintro e w ⟨⟨here, _⟩, answers⟩
    refine fails e w here ?_
    by_contra none
    obtain ⟨data, read⟩ := (appliable none w here).2.2
    rw [← view_of_visible (staged_storable known).1, read] at answers
    cases answers.calm (calm none).1

theorem applyStagedFiles_spec (applying : Applying X custody payloads new tid inv held)
    (calm : ¬ excuse → env.faults = false ∧ ∀ w, held w → Appliable payloads w)
    (targets finished : List RewrapTarget)
    (live : ∀ target ∈ targets, keyTypeOf target.livePath = some target.keyType ∧
      stageTargetPath target.relativePath = stagePath target.livePath ∧
      (payloads target.livePath).isSome = true)
    (before : ∀ target ∈ finished, keyTypeOf target.livePath = some target.keyType) :
    Triple (Solo env tid inv) (fun w => held w ∧ Applied X custody payloads new finished w.view)
      (applyStagedFiles targets) fun result w => held w ∧ match result with
        | .ok _ => Applied X custody payloads new (targets.reverse ++ finished) w.view
        | .error _ => excuse := by
  induction targets generalizing finished with
  | nil => exact Triple.done fun w here => here
  | cons target rest ih =>
    obtain ⟨known, location, sealed⟩ := live target List.mem_cons_self
    refine applyStagedFile_spec applying calm known location sealed before
      ((ih (target :: finished) (fun other member => live other (List.mem_cons_of_mem _ member))
        (List.forall_mem_cons.mpr ⟨known, before⟩)).weaken fun result w ended => ?_)
      fun e w here excused => ⟨here, excused⟩
    cases result with
    | error e => exact ended
    | ok _ => simpa using ended

end

end Lithium.Keys
