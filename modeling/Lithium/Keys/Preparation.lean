import Lithium.Keys.Recovery

/-! How a rotation is prepared: the two copies of the next key, the staged copies
of the live keyfiles, and last the marker. Until the marker is there the store
stays settled; with it, the rotation is prepared. -/
namespace Lithium.Keys
open Effects Storage

def stageDirs : List Path := [stagedDir, stagedPrivDir, stagedSecretsDir]

theorem stagePath_parents {path : Path} {keyType : String} (live : keyTypeOf path = some keyType) :
    (stagePath path).tail ∈ stageDirs ∧ (stagePath path).tail.tail = stagedDir := by
  obtain ⟨stem, dir, rfl, rfl | rfl⟩ := live_shape live <;> rw [stagePath_shape]
  · exact ⟨(by decide : stagedPrivDir ∈ stageDirs), rfl⟩
  · exact ⟨(by decide : stagedSecretsDir ∈ stageDirs), rfl⟩

/-- The rotation directory can be worked in: what is not there can be made, and
no file's place is taken by a directory. -/
structure Workspace (w : World) : Prop where
  rotate : Makeable w rotateDir
  stages : ∀ dir ∈ stageDirs, w.fs.get dir = none ∨ PrivateDir w dir
  files : ∀ path, rotateDir <:+ path → ∀ node, w.view path = some node → node.ftype ≠ .directory

theorem stageDirs_scaffold : ∀ dir ∈ stageDirs, dir ∈ scaffold := by decide

theorem Workspace.step {tid : Tid} {view : View} {w w' : World} (space : Workspace w)
    (step : Step tid view w w') (files : ∀ path, rotateDir <:+ path → ∀ node,
      view path = some node → node.ftype ≠ .directory) : Workspace w' where
  rotate := step.makeable (by decide) space.rotate
  stages := fun dir member => by
    obtain absent | made := space.stages dir member
    · exact step.missing dir (stageDirs_scaffold dir member) absent
    · exact .inr (step.privateDir made)
  files := by rw [step.view]; exact files

theorem Cleared.workspace {w : World} (cleared : Cleared w) (gone : w.fs.get rotateDir = none)
    (root : w.fs.isDir rootDir = true) : Workspace w where
  rotate := .inr ⟨gone, root⟩
  stages := by
    have inside : ∀ dir ∈ stageDirs, rotateDir <:+ dir ∧ dir ≠ rotateDir := by decide
    exact fun dir member => .inl (cleared dir (inside dir member).1 (inside dir member).2)
  files := fun path inside node found => by
    have visible : hidden path = false := by
      by_contra masked
      simp [World.view, masked] at found
    rw [view_of_visible visible, cleared path inside] at found
    · cases found
    · rintro rfl
      exact absurd visible (by decide)

/-- The master keys a rotation may draw: among the given ones, and never the current. -/
def FreshDraws (env : Env) (keys : Key → Prop) : Prop :=
  ∀ mk new, keys mk → env.masterKey (some mk) new = true → keys new ∧ mk ≠ new

/-- The assumptions on encryption and on the keys drawn that custody stands for. -/
structure Custody.Upheld (X : Crypto) (env : Env) (custody : Custody) : Prop where
  separated : custody.apart → Separated X custody.known
  fresh : ∀ mk new, custody.known mk → env.masterKey (some mk) new = true →
    custody.known new ∧ (custody.apart → mk ≠ new)
  rewrapped : ∀ buf old new keyType salt nonce out,
    rewrapRecord X buf old new keyType salt nonce = .ok out → custody.genuine new keyType out

theorem Custody.plain_upheld {X : Crypto} {env : Env} {keys : Key → Prop} (separated : Separated X keys)
    (fresh : FreshDraws env keys) : (Custody.plain keys).Upheld X env where
  separated := fun _ => separated
  fresh := fun mk new known drawn => ⟨(fresh mk new known drawn).1, fun _ => (fresh mk new known drawn).2⟩
  rewrapped := fun _ _ _ _ _ _ _ _ => trivial

theorem Custody.any_upheld (X : Crypto) (env : Env) : Custody.any.Upheld X env where
  separated := False.elim
  fresh := fun _ _ _ _ => ⟨trivial, False.elim⟩
  rewrapped := fun _ _ _ _ _ _ _ _ => trivial

/-- A store on which a rotation away from `mk` is being prepared: still settled,
with these directories made. -/
structure Building (X : Crypto) (custody : Custody) (payloads : Payloads) (mk : Key) (origin : World)
    (loose excuse : Prop) (made : List Path) (w : World) : Prop where
  provided : w.control.providerMk = some mk ∧ custody.known mk
  unmarked : w.view readyPath = none
  live : LiveIn X custody payloads mk w.view
  frame : Frame origin loose w
  space : excuse ∨ Workspace w
  dirs : excuse ∨ ∀ dir ∈ made, PrivateDir w dir

section
variable {X : Crypto} {custody : Custody} {payloads : Payloads} {mk new : Key} {env : Env}
  {tid : Tid} {origin : World} {loose excuse : Prop} {made : List Path} {w w' : World}

theorem Building.finished (here : Building X custody payloads mk origin loose excuse made w) :
    FinishedAt X custody payloads mk w := ⟨here.provided, .inl ⟨here.unmarked, here.live⟩⟩

theorem building_steady : Steady tid (Building X custody payloads mk origin loose excuse made) :=
  fun w w' here step => {
    provided := by rw [step.control]; exact here.provided
    unmarked := by rw [step.view]; exact here.unmarked
    live := by rw [step.view]; exact here.live
    frame := here.frame.step step fun _ _ => rfl
    space := here.space.imp_right fun space => space.step step space.files
    dirs := here.dirs.imp_right fun dirs dir member => step.privateDir (dirs dir member) }

theorem Building.make {dir : Path} (here : Building X custody payloads mk origin loose excuse made w)
    (there : excuse ∨ PrivateDir w dir) : Building X custody payloads mk origin loose excuse (dir :: made) w := by
  refine ⟨here.provided, here.unmarked, here.live, here.frame, here.space, ?_⟩
  obtain excused | there := there
  · exact .inl excused
  · refine here.dirs.imp_right fun dirs other member => ?_
    obtain rfl | member := List.mem_cons.mp member
    · exact there
    · exact dirs other member

theorem Building.forget {dir : Path} (here : Building X custody payloads mk origin loose excuse (dir :: made) w) :
    Building X custody payloads mk origin loose excuse made w :=
  ⟨here.provided, here.unmarked, here.live, here.frame, here.space,
    here.dirs.imp_right fun dirs other member => dirs other (List.mem_cons_of_mem _ member)⟩

theorem Building.put {path : Path} {data : Bytes}
    (here : Building X custody payloads mk origin loose excuse made w) (inside : rotateDir <:+ path)
    (apart : readyPath ≠ path)
    (step : Step tid (Function.update w.view path (some (privateFile data))) w w') :
    Building X custody payloads mk origin loose excuse made w' where
  provided := by rw [step.control]; exact here.provided
  unmarked := by rw [step.view, Function.update_of_ne apart]; exact here.unmarked
  live := by rw [step.view]; exact here.live.put_rotate inside _
  frame := here.frame.put step fun aside => aside.1 inside
  space := here.space.imp_right fun space => space.step step fun other below node found => by
    by_cases same : other = path
    · rw [same, Function.update_self] at found
      cases found
      simp [privateFile]
    · rw [Function.update_of_ne same] at found
      exact space.files other below node found
  dirs := here.dirs.imp_right fun dirs dir member => step.privateDir (dirs dir member)

theorem Building.ready {path : Path} (here : Building X custody payloads mk origin loose excuse made w)
    (none : ¬ excuse) (quiet : Quiet env loose) (storable : Storable path) (inside : rotateDir <:+ path)
    (parent : path.tail ∈ made ∨ path.tail ∈ stageDirs ∧ path.tail.tail ∈ made) : Ready path w := by
  have space := here.space.resolve_left none
  have dirs := here.dirs.resolve_left none
  refine ⟨?_, (here.frame.tidy.resolve_left quiet.strict).fresh, fun old found => ?_⟩
  · obtain made | ⟨stage, made⟩ := parent
    · exact .inl (dirs _ made)
    · obtain absent | there := space.stages _ stage
      · exact .inr ⟨absent, (dirs _ made).isDir⟩
      · exact .inl there
  · rw [← view_of_visible storable.1] at found
    exact space.files path inside old found

theorem publishes_inside (env : Env) (made : List Path) {path : Path} {data : Bytes}
    (inside : rotateDir <:+ path) (apart : readyPath ≠ path) {fact after : View → Prop}
    (put : ∀ v, fact v → after (Function.update v path (some (privateFile data)))) :
    Publishes (Solo env tid (Sound X custody payloads loose)) tid path data (fun _ => True)
      (fun w => Building X custody payloads mk origin loose excuse made w ∧ fact w.view)
      (fun w => Building X custody payloads mk origin loose excuse made w ∧ after w.view) := by
  have invSteady : Steady tid _ := sound_steady X custody payloads loose
  refine ⟨keeps_solo invSteady (building_steady.and (steady_view fun v _ => fact v)),
    keeps_solo invSteady (building_steady.and (steady_view fun v _ => after v)), ?_⟩
  intro w w' here _ _ step
  have there := here.1.put inside apart step
  exact ⟨there.frame.sound (.inr ⟨mk, there.finished⟩), trivial, there,
    by rw [step.view]; exact put _ here.2⟩

theorem writeInside_spec (made : List Path) (calm : ¬ excuse → Quiet env loose) {path : Path} {data : Bytes}
    (storable : Storable path) (inside : rotateDir <:+ path) (apart : readyPath ≠ path)
    (parent : path.tail ∈ made ∨ path.tail ∈ stageDirs ∧ path.tail.tail ∈ made)
    (fact after : View → Prop)
    (put : ∀ v, fact v → after (Function.update v path (some (privateFile data)))) :
    Triple (Solo env tid (Sound X custody payloads loose))
      (fun w => Building X custody payloads mk origin loose excuse made w ∧ fact w.view) (writeSecure path data)
      fun result w => match result with
        | .ok _ => Building X custody payloads mk origin loose excuse made w ∧ after w.view
        | .error _ => (Building X custody payloads mk origin loose excuse made w ∧ fact w.view) ∧ excuse :=
  writeSecure_spec (party_solo env tid _) (publishes_inside env made inside apart put) storable
    fun none => ⟨calm_solo (calm none).faultless, fun _ here =>
      here.1.ready none (calm none) storable inside parent⟩

end

section
variable {X : Crypto} {custody : Custody} {payloads : Payloads} {mk new : Key} {env : Env}
  {tid : Tid} {origin : World} {loose excuse : Prop} {made : List Path}

/-- A short record that was just sealed opens under its own key. -/
theorem loadNode_sealed (lawful : X.Lawful) {sealer : Key} {payload data : Bytes} {keyType : String}
    {draws : SealDraws} (short : payload.length ≤ maxKeyfileSize - 140)
    (sealed : sealRecord X sealer payload keyType draws = .ok data) :
    loadNode X (some (privateFile data)) sealer keyType = .ok payload := by
  have size := sealRecord_length lawful sealed
  have limit : maxKeyfileSize = 65536 := rfl
  rw [loadNode_private (by omega)]
  exact openRecord_seal lawful sealed (by omega)

theorem loadNode_sealed_apart {keys : Key → Prop} (lawful : X.Lawful) (separated : Separated X keys) {sealer other : Key}
    {payload data out : Bytes} {keyType : String} {draws : SealDraws}
    (short : payload.length ≤ maxKeyfileSize - 140)
    (sealed : sealRecord X sealer payload keyType draws = .ok data) (known : keys sealer)
    (otherKnown : keys other) (apart : sealer ≠ other) :
    loadNode X (some (privateFile data)) other keyType ≠ .ok out := by
  have size := sealRecord_length lawful sealed
  have limit : maxKeyfileSize = 65536 := rfl
  rw [loadNode_private (by omega)]
  exact openRecord_seal_apart separated lawful known otherKnown apart sealed (by omega)

theorem saveInside_spec (made : List Path) (lawful : X.Lawful)
    (calm : ¬ excuse → Quiet env loose) {path : Path} {keyType : String} {sealer secret : Key}
    (aad : (aadFor keyfileVersion keyType).length ≤ Crypto.limit)
    (storable : Storable path) (inside : rotateDir <:+ path) (apart : readyPath ≠ path)
    (parent : path.tail ∈ made ∨ path.tail ∈ stageDirs ∧ path.tail.tail ∈ made)
    (fact after : View → Prop)
    (put : ∀ v draws data, sealRecord X sealer secret.1 keyType draws = .ok data → fact v →
      after (Function.update v path (some (privateFile data)))) :
    Triple (Solo env tid (Sound X custody payloads loose))
      (fun w => Building X custody payloads mk origin loose excuse made w ∧ fact w.view)
      (saveSecret32Encrypted X path sealer secret keyType)
      fun result w => match result with
        | .ok _ => Building X custody payloads mk origin loose excuse made w ∧ after w.view
        | .error _ => (Building X custody payloads mk origin loose excuse made w ∧ fact w.view) ∧ excuse := by
  refine saveBytesEncrypted_spec X (party_solo env tid _)
    (fun draws data sealed => publishes_inside env made inside apart fun v => put v draws data sealed)
    (keeps_solo (sound_steady X custody payloads loose) (building_steady.and (steady_view fun v _ => fact v)))
    (fun draws => sealRecord_within lawful draws aad (by rw [secret.2]; decide)) storable
    fun none => ⟨calm_solo (calm none).faultless, fun w here =>
      here.1.ready none (calm none) storable inside parent⟩

/-- These targets have a staged copy under the new key. -/
def StagedFor (X : Crypto) (custody : Custody) (payloads : Payloads) (new : Key) (targets : List RewrapTarget)
    (v : View) : Prop :=
  ∀ target ∈ targets, ∀ payload, payloads target.livePath = some payload →
    Opens X custody new target.keyType payload (v (stagePath target.livePath))

theorem StagedFor.put {targets : List RewrapTarget} {target : RewrapTarget} {v : View}
    {payload data : Bytes} (staged : StagedFor X custody payloads new targets v)
    (known : keyTypeOf target.livePath = some target.keyType)
    (others : ∀ other ∈ targets, keyTypeOf other.livePath = some other.keyType)
    (sealed : payloads target.livePath = some payload)
    (loads : Opens X custody new target.keyType payload (some (privateFile data))) :
    StagedFor X custody payloads new (target :: targets)
      (Function.update v (stagePath target.livePath) (some (privateFile data))) := by
  intro other member bytes otherSealed
  have otherKnown : keyTypeOf other.livePath = some other.keyType := by
    obtain rfl | member := List.mem_cons.mp member
    · exact known
    · exact others other member
  by_cases same : other.livePath = target.livePath
  · rw [same, known] at otherKnown
    rw [same, sealed] at otherSealed
    cases otherSealed
    rw [same, Function.update_self, ← Option.some.inj otherKnown]
    exact loads
  · rw [Function.update_of_ne fun equal => same (stagePath_injective otherKnown known equal)]
    obtain rfl | member := List.mem_cons.mp member
    · exact absurd rfl same
    · exact staged other member bytes otherSealed

/-- What rewrapping a live keyfile yields opens under the new key, and it never fails by itself. -/
theorem rewrapNode_live (lawful : X.Lawful) (upheld : custody.Upheld X env) {v : View}
    (live : LiveIn X custody payloads mk v) {path : Path} {keyType : String} {payload : Bytes}
    (known : keyTypeOf path = some keyType) (sealed : payloads path = some payload) (salt : Fixed 32)
    (nonce : Nonce) :
    ∃ out, rewrapNode X (v path) mk new keyType salt nonce = .ok out ∧
      Opens X custody new keyType payload (some (privateFile out)) := by
  have holds := live.under path keyType known
  rw [sealed] at holds
  obtain ⟨_, data, _, _, read, size, opened⟩ := loadNode_ok holds
  obtain ⟨out, rewrapped⟩ := rewrapRecord_within lawful salt nonce opened
  obtain ⟨reopened, length⟩ := openRecord_rewrap lawful opened rewrapped
  refine ⟨out, ?_, ?_, fun bytes reread => ?_⟩
  · rw [rewrapNode, read]
    exact rewrapped
  · rw [loadNode_private (by omega), reopened]
  · rw [readNode_private (by omega)] at reread
    cases reread
    exact upheld.rewrapped _ _ _ _ _ _ _ rewrapped

theorem stageFile_spec (made : List Path) (lawful : X.Lawful) (upheld : custody.Upheld X env)
    (calm : ¬ excuse → Quiet env loose) (stagedMade : stagedDir ∈ made) (fact : View → Prop)
    (aside : ∀ v path keyType node, keyTypeOf path = some keyType → fact v →
      fact (Function.update v (stagePath path) node))
    {target : RewrapTarget} {finished : List RewrapTarget}
    (known : keyTypeOf target.livePath = some target.keyType)
    (location : stageTargetPath target.relativePath = stagePath target.livePath)
    (sealed : (payloads target.livePath).isSome = true)
    (before : ∀ target ∈ finished, keyTypeOf target.livePath = some target.keyType)
    {rest : Prog Unit} {post : Except LithiumError Unit → World → Prop}
    (continues : Triple (Solo env tid (Sound X custody payloads loose))
      (fun w => Building X custody payloads mk origin loose excuse made w ∧ fact w.view ∧
        StagedFor X custody payloads new (target :: finished) w.view) rest post)
    (fails : ∀ e w, Building X custody payloads mk origin loose excuse made w → excuse →
      post (.error e) w) :
    Triple (Solo env tid (Sound X custody payloads loose))
      (fun w => Building X custody payloads mk origin loose excuse made w ∧ fact w.view ∧
        StagedFor X custody payloads new finished w.view)
      (do
        let out ← rewrapKeyfileDekToBytes X target.livePath mk new target.keyType
        ensureParent (stageTargetPath target.relativePath)
        writeSecure (stageTargetPath target.relativePath) out
        syncParent (stageTargetPath target.relativePath)
        rest) post := by
  obtain ⟨payload, sealed⟩ := Option.isSome_iff_exists.mp sealed
  have storable := staged_storable known
  have inside := below_rotate_of_staged known
  obtain ⟨stages, above⟩ := stagePath_parents known
  have parent : (stagePath target.livePath).tail ∈ stageDirs ∧
      (stagePath target.livePath).tail.tail ∈ made := ⟨stages, above ▸ stagedMade⟩
  have steady : ∀ done, Steady tid fun w => Building X custody payloads mk origin loose excuse made w ∧
      fact w.view ∧ StagedFor X custody payloads new done w.view := fun done =>
    building_steady.and (steady_view fun v _ => fact v ∧ StagedFor X custody payloads new done v)
  have party := party_solo env tid (Sound X custody payloads loose)
  have invSteady : Steady tid _ := sound_steady X custody payloads loose
  rw [location]
  refine Triple.bind (rewrapKeyfileDekToBytes_spec X party still_solo target.livePath mk new
    target.keyType) (fun out => ?_) ?_
  · rintro w ⟨here, w₀, salt, nonce, there, answers⟩
    have loads : Opens X custody new target.keyType payload (some (privateFile out)) := by
      obtain ⟨bytes, rewrapped, loads⟩ := rewrapNode_live lawful upheld there.1.live known sealed salt nonce
      rw [← view_of_visible (live_storable known).1, rewrapped] at answers
      cases answers.ok
      exact loads
    refine Triple.bind (ensureParent_spec party (keeps_solo invSteady (steady finished)) storable
      fun none => ⟨calm_solo (calm none).faultless, fun w here =>
        here.1.ready none (calm none) storable inside (.inr parent)⟩) (fun _ => ?_) ?_ w here
    · refine (Triple.bind (writeInside_spec made calm storable inside (stagePath_ne_ready known)
        (.inr parent) (fun v => fact v ∧ StagedFor X custody payloads new finished v)
        (fun v => fact v ∧ StagedFor X custody payloads new (target :: finished) v) fun v here =>
          ⟨aside v _ _ _ known here.1, here.2.put known before sealed loads⟩) (fun _ => ?_)
        fun e w ended => fails e w ended.1.1 ended.2).mono (fun w here => here.1) fun _ _ ended => ended
      refine Triple.bind (syncParent_spec excuse invSteady (steady _) storable fun none =>
        ⟨(calm none).faultless, fun w here =>
          ((here.1.space.resolve_left none).stages _ parent.1).imp_right PrivateDir.isDir⟩) (fun _ => ?_) ?_
      · exact continues.mono (fun w here => here.1) fun _ _ ended => ended
      · rintro e w ⟨here, outcome⟩
        exact fails e w here.1 (excused_of_error outcome)
    · rintro e w ⟨here, outcome⟩
      exact fails e w here.1 (excused_of_error (outcome.imp_right And.left))
  · rintro e w ⟨here, w₀, salt, nonce, there, answers⟩
    obtain ⟨out, rewrapped, _⟩ := rewrapNode_live lawful upheld there.1.live known sealed salt nonce
    rw [← view_of_visible (live_storable known).1, rewrapped] at answers
    exact fails e w here.1 (faulty calm answers.faulted)

theorem stageFiles_spec (made : List Path) (lawful : X.Lawful) (upheld : custody.Upheld X env) (calm : ¬ excuse → Quiet env loose)
    (stagedMade : stagedDir ∈ made) (fact : View → Prop)
    (aside : ∀ v path keyType node, keyTypeOf path = some keyType → fact v →
      fact (Function.update v (stagePath path) node))
    (targets finished : List RewrapTarget)
    (live : ∀ target ∈ targets, keyTypeOf target.livePath = some target.keyType ∧
      stageTargetPath target.relativePath = stagePath target.livePath ∧
      (payloads target.livePath).isSome = true)
    (before : ∀ target ∈ finished, keyTypeOf target.livePath = some target.keyType) :
    Triple (Solo env tid (Sound X custody payloads loose))
      (fun w => Building X custody payloads mk origin loose excuse made w ∧ fact w.view ∧
        StagedFor X custody payloads new finished w.view) (stageFiles X mk new targets)
      fun result w => Building X custody payloads mk origin loose excuse made w ∧ match result with
        | .ok _ => fact w.view ∧ StagedFor X custody payloads new (targets.reverse ++ finished) w.view
        | .error _ => excuse := by
  induction targets generalizing finished with
  | nil => exact Triple.done fun w here => here
  | cons target rest ih =>
    obtain ⟨known, location, sealed⟩ := live target List.mem_cons_self
    refine stageFile_spec made lawful upheld calm stagedMade fact aside known location sealed before
      ((ih (target :: finished) (fun other member => live other (List.mem_cons_of_mem _ member))
        (List.forall_mem_cons.mpr ⟨known, before⟩)).weaken fun result w ended => ?_)
      fun e w here excused => ⟨here, excused⟩
    cases result with
    | error e => exact ended
    | ok _ => simpa using ended

end

section
variable {X : Crypto} {custody : Custody} {payloads : Payloads} {mk new : Key} {env : Env}
  {tid : Tid} {origin : World} {loose excuse : Prop}

theorem aad_next : (aadFor keyfileVersion ktRotateNextOld).length ≤ Crypto.limit ∧
    (aadFor keyfileVersion ktRotateNextNew).length ≤ Crypto.limit := by decide +kernel

/-- A staged copy is no other file of the rotation. -/
theorem apart_of_staged {path : Path} {keyType : String} (known : keyTypeOf path = some keyType) :
    readyPath ≠ stagePath path ∧ nextOldPath ≠ stagePath path ∧ nextNewPath ≠ stagePath path := by
  obtain ⟨stem, dir, rfl, _⟩ := live_shape known
  rw [stagePath_shape]
  refine ⟨?_, ?_, ?_⟩ <;> simp [readyPath, nextOldPath, nextNewPath, stagedDir, rotateDir, rootDir]

/-- A copy of the next key that was just sealed opens under its own key only. -/
theorem loads_only_under (lawful : X.Lawful) (upheld : custody.Upheld X env) {sealer other : Key}
    (known : custody.known sealer) (otherKnown : custody.known other)
    (apart : custody.apart → sealer ≠ other) {keyType : String} {draws : SealDraws} {data : Bytes}
    (sealed : sealRecord X sealer new.1 keyType draws = .ok data) :
    loadNode X (some (privateFile data)) sealer keyType = .ok new.1 ∧
      (custody.apart → ∀ out, loadNode X (some (privateFile data)) other keyType ≠ .ok out) := by
  have short : new.1.length ≤ maxKeyfileSize - 140 := by
    rw [new.2]
    decide
  exact ⟨loadNode_sealed lawful short sealed, fun told out =>
    loadNode_sealed_apart lawful (upheld.separated told) short sealed known otherKnown (apart told)⟩

def NextOld (X : Crypto) (custody : Custody) (old new : Key) (v : View) : Prop :=
  loadNode X (v nextOldPath) old ktRotateNextOld = .ok new.1 ∧
    (custody.apart → ∀ out, loadNode X (v nextOldPath) new ktRotateNextOld ≠ .ok out)

theorem saveNextMk_spec (lawful : X.Lawful) (upheld : custody.Upheld X env)
    (calm : ¬ excuse → Quiet env loose) (known : custody.known mk) (newKnown : custody.known new)
    (apart : custody.apart → mk ≠ new) :
    Triple (Solo env tid (Sound X custody payloads loose))
      (Building X custody payloads mk origin loose excuse [rotateDir])
      (saveNextMk X mk new)
      fun result w => Building X custody payloads mk origin loose excuse [rotateDir] w ∧ match result with
        | .ok _ => NextKeys X custody mk new w.view
        | .error _ => excuse := by
  obtain ⟨_, oldStorable, newStorable⟩ := rotate_files_storable
  obtain ⟨_, oldInside, newInside⟩ := rotate_files_below
  refine (Triple.bind (saveInside_spec [rotateDir] lawful calm aad_next.1 oldStorable oldInside (by decide)
    (.inl (by decide)) (fun _ => True) (NextOld X custody mk new) ?_) (fun _ => ?_)
    fun e w ended => ⟨ended.1.1, ended.2⟩).mono (fun w here => ⟨here, trivial⟩)
    fun _ _ ended => ended
  · intro v draws data sealed _
    rw [NextOld, Function.update_self]
    exact loads_only_under lawful upheld known newKnown apart sealed
  · refine (saveInside_spec [rotateDir] lawful calm aad_next.2 newStorable newInside (by decide)
      (.inl (by decide)) (NextOld X custody mk new) (NextKeys X custody mk new) ?_).weaken fun result w ended => ?_
    · intro v draws data sealed before
      obtain ⟨loads, others⟩ :=
        loads_only_under lawful upheld newKnown known (fun told => Ne.symm (apart told)) sealed
      have aside : nextOldPath ≠ nextNewPath := by decide
      refine ⟨?_, ?_, ?_, ?_⟩
      · rw [Function.update_of_ne aside]
        exact before.1
      · rw [Function.update_of_ne aside]
        exact before.2
      · rw [Function.update_self]
        exact loads
      · rw [Function.update_self]
        exact others
    · cases result with
      | ok _ => exact ended
      | error e => exact ⟨ended.1.1, ended.2⟩

theorem prepareStagedFiles_spec (lawful : X.Lawful) (upheld : custody.Upheld X env) (calm : ¬ excuse → Quiet env loose)
    {targets : List RewrapTarget} (covers : Covers payloads targets) :
    Triple (Solo env tid (Sound X custody payloads loose))
      (fun w => Building X custody payloads mk origin loose excuse [rotateDir] w ∧ NextKeys X custody mk new w.view)
      (prepareStagedFiles X mk new targets)
      fun result w => Building X custody payloads mk origin loose excuse [rotateDir] w ∧ match result with
        | .ok _ => NextKeys X custody mk new w.view ∧ StagedFor X custody payloads new targets w.view
        | .error _ => excuse := by
  have invSteady : Steady tid _ := sound_steady X custody payloads loose
  have party := party_solo env tid (Sound X custody payloads loose)
  have makeable : ∀ w, Building X custody payloads mk origin loose excuse [rotateDir] w →
      ¬ excuse → Makeable w stagedDir := fun w here none => by
    obtain absent | there := (here.space.resolve_left none).stages stagedDir (by decide)
    · exact .inr ⟨absent, (here.dirs.resolve_left none rotateDir (by decide)).isDir⟩
    · exact .inl there
  have steady : Steady tid fun w => Building X custody payloads mk origin loose excuse [rotateDir] w ∧
      NextKeys X custody mk new w.view ∧ StagedFor X custody payloads new targets w.view :=
    building_steady.and (steady_view fun v _ => NextKeys X custody mk new v ∧ StagedFor X custody payloads new targets v)
  refine Triple.bind (ensurePrivateDir_spec party (keeps_solo invSteady (building_steady.and
    (steady_view fun v _ => NextKeys X custody mk new v))) stagedDir (by decide)
    fun none => ⟨calm_solo (calm none).faultless, fun w here => makeable w here.1 none⟩) (fun _ => ?_) ?_
  · have stage : Triple (Solo env tid (Sound X custody payloads loose)) (fun w =>
        Building X custody payloads mk origin loose excuse [stagedDir, rotateDir] w ∧ NextKeys X custody mk new w.view ∧
          StagedFor X custody payloads new [] w.view) (stageFiles X mk new targets) _ :=
      stageFiles_spec [stagedDir, rotateDir] lawful upheld calm (by decide) (NextKeys X custody mk new)
        (fun v path keyType node known next =>
          next.put (apart_of_staged known).2.1 (apart_of_staged known).2.2 node)
        targets [] covers.live (by simp)
    rintro w ⟨⟨here, next⟩, made⟩
    refine Triple.bind stage (fun _ => ?_) (fun e w ended => ⟨ended.1.forget, ended.2⟩) w
      ⟨here.make (made.imp_right And.right), next, by simp [StagedFor]⟩
    refine (syncDir_spec excuse invSteady steady stagedDir (fun _ => True) fun none =>
      ⟨(calm none).faultless, fun w here => ((here.1.space.resolve_left none).stages _
        (by decide)).imp_right PrivateDir.isDir⟩).mono ?_ ?_
    · rintro w ⟨here, next, staged⟩
      exact ⟨⟨here.forget, next, fun target member => staged target (by simpa using member)⟩,
        trivial⟩
    · rintro result w ⟨⟨here, staged⟩, _, ended⟩
      refine ⟨here, ?_⟩
      cases result with
      | ok _ => exact staged
      | error e => exact ended.resolve_right (by simp)
  · rintro e w ⟨here, outcome⟩
    exact ⟨here.1, excused_of_error (outcome.imp_right And.left)⟩

end

/-- The provider and every live keyfile are still on `mk`, whatever was prepared. -/
structure Kept (X : Crypto) (custody : Custody) (payloads : Payloads) (mk : Key) (origin : World)
    (loose : Prop) (w : World) : Prop where
  provided : w.control.providerMk = some mk ∧ custody.known mk
  live : LiveIn X custody payloads mk w.view
  recoverable : Recoverable X custody payloads w
  frame : Frame origin loose w

section
variable {X : Crypto} {custody : Custody} {payloads : Payloads} {mk new : Key} {env : Env}
  {tid : Tid} {origin : World} {loose excuse : Prop} {made : List Path} {w w' : World}

theorem Building.kept (here : Building X custody payloads mk origin loose excuse made w) :
    Kept X custody payloads mk origin loose w :=
  ⟨here.provided, here.live, .inr ⟨mk, here.finished⟩, here.frame⟩

theorem kept_steady : Steady tid (Kept X custody payloads mk origin loose) := fun w w' here step =>
  ⟨by rw [step.control]; exact here.provided, by rw [step.view]; exact here.live,
    recoverable_steady X custody payloads w w' here.recoverable step,
    here.frame.step step fun _ _ => rfl⟩

/-- The marker goes in last and makes the rotation a prepared one. -/
theorem Building.mark {targets : List RewrapTarget} (covers : Covers payloads targets)
    (here : Building X custody payloads mk origin loose excuse made w) (newKnown : custody.known new)
    (next : NextKeys X custody mk new w.view) (staged : StagedFor X custody payloads new targets w.view)
    (step : Step tid (Function.update w.view readyPath (some marker)) w w') :
    PreparedAt X custody payloads mk new w' ∧ Kept X custody payloads mk origin loose w' := by
  have live : LiveIn X custody payloads mk w'.view := by
    rw [step.view]
    exact here.live.put_rotate rotate_files_below.1 _
  have prepared : PreparedAt X custody payloads mk new w' := by
    refine ⟨⟨by rw [step.control]; exact here.provided.1, here.provided.2, newKnown⟩, ?_, ?_⟩
    · rw [step.view, Function.update_self]
    · refine ⟨by rw [step.view]; exact next.put (by decide) (by decide) _, live.under.present,
        fun path keyType payload known sealed => ?_⟩
      rw [step.view, Function.update_of_ne (Ne.symm (apart_of_staged known).1)]
      obtain ⟨target, member, rfl⟩ := covers.all path keyType known (by rw [sealed]; rfl)
      have loads := staged target member payload sealed
      rwa [Option.some.inj ((covers.live target member).1.symm.trans known)] at loads
  exact ⟨prepared, ⟨by rw [step.control]; exact here.provided, live, .inl ⟨mk, new, prepared⟩,
    here.frame.put step fun aside => aside.1 rotate_files_below.1⟩⟩

/-- A marker that is in place but not synced fails the call all the same. -/
theorem writeMarker_spec (calm : ¬ excuse → Quiet env loose) {targets : List RewrapTarget}
    (covers : Covers payloads targets) (newKnown : custody.known new) :
    Triple (Solo env tid (Sound X custody payloads loose))
      (fun w => Building X custody payloads mk origin loose excuse [rotateDir] w ∧ NextKeys X custody mk new w.view ∧
        StagedFor X custody payloads new targets w.view) (writeMarker readyPath readyBytes)
      fun result w => Kept X custody payloads mk origin loose w ∧ match result with
        | .ok _ => PreparedAt X custody payloads mk new w
        | .error _ => excuse := by
  have invSteady : Steady tid _ := sound_steady X custody payloads loose
  have storable := rotate_files_storable.1
  have steady : Steady tid fun w => (PreparedAt X custody payloads mk new w ∧
      Kept X custody payloads mk origin loose w) ∧ (excuse ∨ PrivateDir w rotateDir) :=
    ((preparedAt_steady X custody payloads mk new).and kept_steady).and
      (Steady.or_const fun w w' made step => step.privateDir made)
  have publishes : Publishes (Solo env tid (Sound X custody payloads loose)) tid readyPath readyBytes
      (fun _ => True) (fun w => Building X custody payloads mk origin loose excuse [rotateDir] w ∧
        NextKeys X custody mk new w.view ∧ StagedFor X custody payloads new targets w.view)
      (fun w => (PreparedAt X custody payloads mk new w ∧ Kept X custody payloads mk origin loose w) ∧
        (excuse ∨ PrivateDir w rotateDir)) := by
    refine ⟨keeps_solo invSteady (building_steady.and (steady_view fun v _ =>
      NextKeys X custody mk new v ∧ StagedFor X custody payloads new targets v)), keeps_solo invSteady steady, ?_⟩
    rintro w w' ⟨here, next, staged⟩ _ _ step
    have marked := here.mark covers newKnown next staged step
    exact ⟨marked.2.frame.sound marked.2.recoverable, trivial, marked, here.dirs.imp_right fun dirs =>
      step.privateDir (dirs rotateDir (by decide))⟩
  refine Triple.bind (writeSecure_spec (party_solo env tid _) publishes storable fun none =>
    ⟨calm_solo (calm none).faultless, fun w here => here.1.ready none (calm none) storable
      rotate_files_below.1 (.inl (by decide))⟩) (fun _ => ?_) fun e w ended => ⟨ended.1.1.kept, ended.2⟩
  refine (syncParent_spec excuse invSteady steady storable fun none => ⟨(calm none).faultless, fun w here =>
    .inr (here.2.resolve_left none).isDir⟩).weaken fun result w ended => ?_
  obtain ⟨⟨⟨prepared, kept⟩, _⟩, done⟩ := ended
  refine ⟨kept, ?_⟩
  cases result with
  | ok _ => exact prepared
  | error e => exact done.resolve_right (by simp)

end

section
variable {X : Crypto} {custody : Custody} {payloads : Payloads} {mk : Key} {env : Env}
  {tid : Tid} {origin : World} {loose excuse : Prop}

/-- What preparing leaves: the store still on `mk`, and after success a prepared rotation. -/
def Prepares (X : Crypto) (custody : Custody) (payloads : Payloads) (mk : Key) (origin : World)
    (loose excuse : Prop) (result : Except LithiumError (List RewrapTarget × Key)) (w : World) : Prop :=
  Kept X custody payloads mk origin loose w ∧ match result with
    | .ok (targets, new) => PreparedAt X custody payloads mk new w ∧ Covers payloads targets
    | .error _ => excuse

theorem syncRotateDir_spec (calm : ¬ excuse → Quiet env loose) (fact : View → Prop) :
    Triple (Solo env tid (Sound X custody payloads loose))
      (fun w => Building X custody payloads mk origin loose excuse [rotateDir] w ∧ fact w.view)
      (syncDir rotateDir) fun result w =>
        (Building X custody payloads mk origin loose excuse [rotateDir] w ∧ fact w.view) ∧
          (excuse ∨ result = .ok ()) :=
  (syncDir_spec excuse (sound_steady X custody payloads loose)
    (building_steady.and (steady_view fun v _ => fact v)) rotateDir (fun _ => True) fun none =>
      ⟨(calm none).faultless, fun w here =>
        .inr (here.1.dirs.resolve_left none rotateDir (by decide)).isDir⟩).mono
    (fun _ here => ⟨here, trivial⟩) fun _ _ ended => ⟨ended.1, ended.2.2⟩

theorem fillRotationDir_spec [env.Sighted] (lawful : X.Lawful) (upheld : custody.Upheld X env)
    (calm : ¬ excuse → Quiet env loose) :
    Triple (Solo env tid (Sound X custody payloads loose))
      (Building X custody payloads mk origin loose excuse [rotateDir]) (fillRotationDir X)
      (Prepares X custody payloads mk origin loose excuse) := by
  have party := party_solo env tid (Sound X custody payloads loose)
  have still : Still (Solo env tid (Sound X custody payloads loose))
    (Building X custody payloads mk origin loose excuse [rotateDir]) := still_solo
  have provider : ∀ w, Building X custody payloads mk origin loose excuse [rotateDir] w →
      w.control.providerMk = some mk := fun w here => here.provided.1
  refine (Triple.bind (syncRotateDir_spec calm fun _ => True) (fun _ => ?_) ?_).mono
    (fun w here => ⟨here, trivial⟩) fun _ _ ended => ended
  · rintro w ⟨⟨here, _⟩, _⟩
    refine Triple.bind (loadMk_spec provider) (fun cur => ?_) ?_ w here
    · rintro w ⟨here, answers⟩
      cases answers.ok
      refine Triple.bind (randomFixed_spec party still .masterKey) (fun new => ?_) ?_ w here
      · rintro w ⟨here, admitted⟩
        rw [here.provided.1] at admitted
        obtain ⟨newKnown, apart⟩ := upheld.fresh mk new here.provided.2 admitted
        have present : ∀ w, Building X custody payloads mk origin loose excuse [rotateDir] w →
            Present payloads w.view := fun w here => here.live.under.present
        refine Triple.bind (collectRewrapTargets_spec present fun none =>
          ⟨(calm none).faultless, fun w here => secretsDir_of_frame here.frame (calm none)⟩) (fun targets => ?_)
          (fun e w ended => ⟨ended.1.kept, ended.2⟩) w here
        rintro w ⟨here, covers⟩
        refine Triple.bind (saveNextMk_spec lawful upheld calm here.provided.2 newKnown apart)
          (fun _ => ?_) (fun e w ended => ⟨ended.1.kept, ended.2⟩) w here
        refine Triple.bind (syncRotateDir_spec calm (NextKeys X custody mk new)) (fun _ => ?_) ?_
        · refine (Triple.bind (prepareStagedFiles_spec lawful upheld calm covers) (fun _ => ?_)
            fun e w ended => ⟨ended.1.kept, ended.2⟩).mono (fun w here => here.1)
            fun _ _ ended => ended
          refine Triple.bind (writeMarker_spec calm covers newKnown) (fun _ => ?_)
            fun e w ended => ended
          exact Triple.done fun w here => ⟨here.1, here.2, covers⟩
        · rintro e w ⟨⟨here, _⟩, outcome⟩
          exact ⟨here.kept, excused_of_error outcome⟩
      · exact fun e w ended => ⟨ended.1.kept, faulty calm ended.2⟩
    · rintro e w ⟨here, answers⟩
      exact ⟨here.kept, faulty calm answers.faulted⟩
  · rintro e w ⟨⟨here, _⟩, outcome⟩
    exact ⟨here.kept, excused_of_error outcome⟩

theorem prepareRotation_spec [env.Sighted] (lawful : X.Lawful) (upheld : custody.Upheld X env)
    (calm : ¬ excuse → Quiet env loose) :
    Triple (Solo env tid (Sound X custody payloads loose))
      (fun w => FinishedAt X custody payloads mk w ∧ Frame origin loose w) (prepareRotation X)
      (Prepares X custody payloads mk origin loose excuse) := by
  refine Triple.bind (cleanup_finished calm) (fun _ => ?_) ?_
  · rintro w ⟨⟨finished, frame⟩, cleared, done⟩
    have cleared := cleared (Env.Sighted.sees _) rfl
    have start : Building X custody payloads mk origin loose excuse [] w := by
      refine ⟨finished.1, cleared.unmarked, finished.live, frame, ?_, .inr (by simp)⟩
      by_cases excused : excuse
      · exact .inl excused
      · have tidy := frame.tidy.resolve_left (calm excused).strict
        exact .inr (cleared.workspace (done.resolve_left excused).2 tidy.root.isDir)
    refine Triple.bind (ensurePrivateDir_spec (party_solo env tid _)
      (keeps_solo (sound_steady X custody payloads loose) building_steady) rotateDir (by decide)
      fun none => ⟨calm_solo (calm none).faultless, fun w here =>
        (here.space.resolve_left none).rotate⟩)
      (fun _ => ?_) ?_ w start
    · exact (fillRotationDir_spec lawful upheld calm).mono
        (fun w here => here.1.make (here.2.imp_right And.right)) fun _ _ ended => ended
    · rintro e w ⟨here, outcome⟩
      exact ⟨here.kept, excused_of_error (outcome.imp_right And.left)⟩
  · rintro e w ⟨⟨finished, frame⟩, _, done⟩
    exact ⟨⟨finished.1, finished.live, .inr ⟨mk, finished⟩, frame⟩, done.resolve_right (by simp)⟩

end

end Lithium.Keys
