import Lithium.Keys.Rotation

/-! Recovery of a pending rotation, from each phase a crash can leave behind. -/
namespace Lithium.Keys
open Effects Storage

def World.provide (w : World) (mk : Key) : World :=
  { w with control := { w.control with providerMk := some mk } }

/-- The files no rotation works on: no live keyfiles, and outside the rotation directory. -/
def Aside (path : Path) : Prop := ¬ rotateDir <:+ path ∧ keyTypeOf path = none

/-- What a rotation leaves alone. -/
structure Untouched (w w' : World) : Prop where
  view : ∀ path, Aside path → w'.view path = w.view path
  dirs : ∀ dir, ¬ rotateDir <:+ dir → PrivateDir w dir → PrivateDir w' dir

/-- Since `origin` nothing has changed that is no business of a rotation: not what the
threads share, whatever the provider holds, and not the other files. The store is tidy,
unless it may be `loose`. -/
structure Frame (origin : World) (loose : Prop) (w : World) : Prop where
  control : w.control = { origin.control with providerMk := w.control.providerMk }
  rest : Untouched origin w
  tidy : loose ∨ Tidy w

/-- Calls do not fail and the store is tidy. -/
structure Quiet (env : Env) (loose : Prop) : Prop where
  faultless : env.faults = false
  strict : ¬ loose

/-- What holds at every crash. -/
def Sound (X : Crypto) (custody : Custody) (payloads : Payloads) (loose : Prop) (w : World) : Prop :=
  Recoverable X custody payloads w ∧ (loose ∨ Tidy w)

section
variable {origin : World} {loose : Prop} {tid : Tid} {view : View} {w w' : World}

theorem Untouched.refl (w : World) : Untouched w w := ⟨fun _ _ => rfl, fun _ _ => id⟩

theorem Untouched.step (rest : Untouched origin w) (step : Step tid view w w')
    (same : ∀ path, Aside path → view path = w.view path) : Untouched origin w' where
  view := fun path aside => by rw [step.view, same path aside, rest.view path aside]
  dirs := fun dir outside there => step.privateDir (rest.dirs dir outside there)

theorem Frame.step (frame : Frame origin loose w) (step : Step tid view w w')
    (same : ∀ path, Aside path → view path = w.view path) : Frame origin loose w' :=
  ⟨by rw [step.control]; exact frame.control, frame.rest.step step same, frame.tidy.imp_right step.tidy⟩

theorem Frame.put {path : Path} {node : Option Node} (frame : Frame origin loose w)
    (step : Step tid (Function.update w.view path node) w w') (own : ¬ Aside path) :
    Frame origin loose w' := by
  refine frame.step step fun other aside => Function.update_of_ne ?_ _ _
  rintro rfl
  exact own aside

theorem Frame.pruned (frame : Frame origin loose w) (pruned : Pruned w w') : Frame origin loose w' where
  control := by rw [pruned.control]; exact frame.control
  rest := ⟨fun path aside => (pruned.view.outside path aside.1).trans (frame.rest.view path aside),
    fun dir outside there => pruned.privateDir outside (frame.rest.dirs dir outside there)⟩
  tidy := frame.tidy.imp_right pruned.tidy

theorem Frame.provide (frame : Frame origin loose w) (mk : Key) : Frame origin loose (w.provide mk) := by
  refine ⟨?_, ⟨frame.rest.view, frame.rest.dirs⟩, frame.tidy.imp_right (·.control _)⟩
  rw [World.provide, frame.control]

theorem frame_steady (origin : World) (loose : Prop) (tid : Tid) : Steady tid (Frame origin loose) :=
  fun _ _ frame step => frame.step step fun _ _ => rfl

theorem not_aside_of_live {path : Path} {keyType : String} (known : keyTypeOf path = some keyType) :
    ¬ Aside path := fun aside => by
  rw [aside.2] at known
  cases known

theorem sound_steady (X : Crypto) (custody : Custody) (payloads : Payloads) (loose : Prop) :
    Steady tid (Sound X custody payloads loose) :=
  (recoverable_steady X custody payloads).and (Steady.or_const fun _ _ tidy step => step.tidy tidy)

theorem Frame.sound {X : Crypto} {custody : Custody} {payloads : Payloads} (frame : Frame origin loose w)
    (here : Recoverable X custody payloads w) : Sound X custody payloads loose w := ⟨here, frame.tidy⟩
end

theorem loadNode_of_fromSlice {load : Except LithiumError Bytes} {next : Key}
    (loaded : load.bind (Fixed.fromSlice 32) = .ok next) : load = .ok next.1 := by
  obtain ⟨bytes, rfl, sliced⟩ := bind_ok loaded
  rw [Fixed.fromSlice_eq_ok.mp sliced]

section
variable {env : Env} {tid : Tid} {inv held : World → Prop}

/-- A key that is not read was not there to be read, or a call failed. -/
theorem unopened_of_fromSlice {load : Except LithiumError Bytes} {e : LithiumError}
    (answers : Answers env (load.bind (Fixed.fromSlice 32)) (.error e)) :
    env.faults = true ∨ ∀ next : Key, load ≠ .ok next.1 := by
  obtain failed | ⟨faults, _⟩ := answers
  · refine .inr fun next opened => ?_
    rw [opened] at failed
    simp [Except.bind, Fixed.fromSlice, next.2] at failed
  · exact .inl faults

theorem loadMk_spec {mk : Key} (provided : ∀ w, held w → w.control.providerMk = some mk) :
    Triple (Solo env tid inv) held loadMk fun result w => held w ∧ Answers env (.ok mk) result := by
  refine observe (party_solo env tid inv) still_solo rfl fun reply => ?_
  rintro w ⟨here, seen⟩
  obtain ⟨faults, _, e, failed⟩ | ⟨choice, effected⟩ := sem_cases seen
  · cases failed
    exact ⟨here, .inr ⟨faults, e, rfl⟩⟩
  · simp only [effect, provided w here] at effected
    cases effected
    exact ⟨here, .inl rfl⟩

theorem storeMk_spec (after : World → Prop) (mk : Key)
    (put : ∀ w, held w → inv w → inv (w.provide mk) ∧ after (w.provide mk)) :
    Triple (Solo env tid inv) held (storeMk mk) fun result w => match result with
      | .ok _ => after w
      | .error _ => held w ∧ env.faults = true := by
  refine Triple.call (fun (reply : Except LithiumError Unit) w => match reply with
    | .ok _ => after w
    | .error _ => held w ∧ env.faults = true) (alone_stable _ _ _) ?_ fun reply => ?_
  · intro w here inv reply w' step
    obtain ⟨faults, rfl, e, failed⟩ | ⟨choice, effected⟩ := sem_cases step
    · cases failed
      exact ⟨inv, trivial, here, faults⟩
    · cases effected
      exact ⟨(put w here inv).1, trivial, (put w here inv).2⟩
  · match reply with
    | .ok () => exact Triple.done fun w here => here
    | .error e => exact Triple.done fun w here => here

/-- Which of its two files the next key was found in; in neither only where neither
opens or a call failed. -/
def NextFound (X : Crypto) (env : Env) (cur : Key) (v : View) :
    Except LithiumError (Key × Bool) → Prop
  | .ok (next, true) => loadNode X (v nextNewPath) cur ktRotateNextNew = .ok next.1
  | .ok (next, false) => loadNode X (v nextOldPath) cur ktRotateNextOld = .ok next.1
  | .error _ => env.faults = true ∨ ∀ next : Key,
      loadNode X (v nextNewPath) cur ktRotateNextNew ≠ .ok next.1 ∧
      loadNode X (v nextOldPath) cur ktRotateNextOld ≠ .ok next.1

theorem nextMk_spec (held : World → Prop) (X : Crypto) (cur : Key) :
    Triple (Solo env tid inv) held (nextMk X cur) fun result w =>
      held w ∧ NextFound X env cur w.view result := by
  have party := party_solo env tid inv
  obtain ⟨_, oldStorable, newStorable⟩ := rotate_files_storable
  have fromOld : Triple (Solo env tid inv) (fun w => held w ∧ (env.faults = true ∨ ∀ next : Key,
      loadNode X (w.view nextNewPath) cur ktRotateNextNew ≠ .ok next.1))
      ((loadSecret32Decrypted X nextOldPath cur ktRotateNextOld).bind fun candidate =>
        (.done (.ok (candidate, false)) : Prog (Key × Bool))) fun result w =>
      held w ∧ NextFound X env cur w.view result := by
    refine Triple.bind (loadSecret32Decrypted_spec X party still_solo nextOldPath cur
      ktRotateNextOld) (fun next => ?_) ?_
    · rintro w ⟨⟨here, _⟩, answers⟩
      rw [← view_of_visible oldStorable.1] at answers
      exact ⟨here, loadNode_of_fromSlice answers.ok⟩
    · rintro e w ⟨⟨here, newUnopened⟩, answers⟩
      rw [← view_of_visible oldStorable.1] at answers
      obtain faults | oldUnopened := unopened_of_fromSlice answers
      · exact ⟨here, .inl faults⟩
      · exact ⟨here, newUnopened.imp_right fun unopened next => ⟨unopened next, oldUnopened next⟩⟩
  refine Triple.bind (pathExists_spec party still_solo nextNewPath) (fun there => ?_)
    fun e w seen => absurd seen.2 (by simp)
  rintro w ⟨here, seen⟩
  cases there with
  | false =>
    obtain seen | ⟨_, unseen⟩ := seen
    swap
    · exact fromOld w ⟨here, .inl (faults_of_unseen unseen)⟩
    refine fromOld w ⟨here, .inr fun next opened => ?_⟩
    obtain ⟨found, _, entry, regular, _⟩ := loadNode_ok opened
    rw [view_of_visible newStorable.1] at entry
    simp [FileSystem.stat, entry, regular] at seen
  | true =>
    refine Triple.attempt_bind (loadSecret32Decrypted_spec X party still_solo nextNewPath cur
      ktRotateNextNew) (fun result => ?_) w here
    cases result with
    | ok next =>
      rintro w ⟨here, answers⟩
      rw [← view_of_visible newStorable.1] at answers
      exact ⟨here, loadNode_of_fromSlice answers.ok⟩
    | error e =>
      refine fromOld.mono ?_ fun _ _ ended => ended
      rintro w ⟨here, answers⟩
      rw [← view_of_visible newStorable.1] at answers
      exact ⟨here, unopened_of_fromSlice answers⟩
end

section
variable {X : Crypto} {custody : Custody} {payloads : Payloads} {mk : Key}

theorem finishedAt_prunable : Prunable (FinishedAt X custody payloads mk) := by
  rintro w w' ⟨provided, phase⟩ pruned
  refine ⟨by rw [pruned.control]; exact provided, ?_⟩
  have gone := pruned.view.gone readyPath
  obtain ⟨unmarked, live⟩ | ⟨marked, switched⟩ := phase
  · exact .inl ⟨gone.elim (·.trans unmarked) id, live.pruned pruned.view⟩
  · have left := switched.pruned pruned.view
    exact gone.symm.imp (⟨·, left.live⟩) fun same => ⟨same.trans marked, left⟩

theorem Cleared.unmarked {w : World} (cleared : Cleared w) : w.view readyPath = none := by
  rw [view_of_visible rotate_files_storable.1.1]
  exact cleared readyPath rotate_files_below.1 (by decide)
end

section
variable {X : Crypto} {custody : Custody} {payloads : Payloads} {old new mk : Key} {env : Env}
  {tid : Tid} {origin : World} {loose excuse : Prop}

theorem cleanup_finished (calm : ¬ excuse → Quiet env loose) :
    Triple (Solo env tid (Sound X custody payloads loose))
      (fun w => FinishedAt X custody payloads mk w ∧ Frame origin loose w) cleanupRotationDir
      fun result w => (FinishedAt X custody payloads mk w ∧ Frame origin loose w) ∧
        (env.Sees rotateDir → result = .ok () → Cleared w) ∧
        (excuse ∨ result = .ok () ∧ w.fs.get rotateDir = none) := by
  have steady : Steady tid fun w => FinishedAt X custody payloads mk w ∧ Frame origin loose w :=
    (finishedAt_steady X custody payloads mk).and (frame_steady origin loose tid)
  have prunable : Prunable fun w => FinishedAt X custody payloads mk w ∧ Frame origin loose w :=
    fun w w' here pruned => ⟨finishedAt_prunable w w' here.1 pruned, here.2.pruned pruned⟩
  refine Triple.within (cleanupRotationDir_spec steady prunable steady prunable
    fun none => ⟨(calm none).faultless, fun w here => ?_⟩) (fun w here => here)
    fun w here => here.2.sound (.inr ⟨mk, here.1⟩)
  have tidy := here.2.tidy.resolve_left (calm none).strict
  exact ⟨tidy.rotate, tidy.root.isDir⟩

/-- A staged copy of a live keyfile can be put in its place, in a tidy store. -/
theorem appliable_of_tidy {w : World} (tidy : Tidy w) (present : Present payloads w.view)
    (staged : ∀ path keyType payload, keyTypeOf path = some keyType →
      payloads path = some payload → ∃ data, readNode (w.view (stagePath path)) = .ok data) :
    Appliable payloads w := by
  intro path keyType known sealed
  obtain ⟨payload, sealed⟩ := Option.isSome_iff_exists.mp sealed
  have parent : PrivateDir w path.tail := by
    obtain ⟨stem, dir, rfl, rfl | rfl⟩ := live_shape known
    · exact tidy.priv
    · exact tidy.secrets
  refine ⟨⟨.inl parent, tidy.fresh, fun old found => ?_⟩, parent, staged path keyType payload known sealed⟩
  rw [← view_of_visible (live_storable known).1] at found
  simp [(present path keyType known).2 old found]

theorem applying_prepared :
    Applying X custody payloads new tid (Sound X custody payloads loose)
      fun w => PreparedAt X custody payloads old new w ∧ Frame origin loose w where
  invSteady := sound_steady X custody payloads loose
  steady := (preparedAt_steady X custody payloads old new).and (frame_steady origin loose tid)
  staged := fun w path keyType payload data here known sealed read =>
    (here.1.2.2.staged path keyType payload known sealed).copy read
  put := fun w w' path keyType payload data here _ known sealed loads step => by
    have after : PreparedAt X custody payloads old new w' := by
      rw [PreparedAt, step.control, step.view,
        Function.update_of_ne (apart_of_live known rotate_files_below.1)]
      exact ⟨here.1.1, here.1.2.1, here.1.2.2.put_live known sealed⟩
    have frame := here.2.put step (not_aside_of_live known)
    exact ⟨frame.sound (.inl ⟨old, new, after⟩), after, frame⟩

theorem apply_prepared (calm : ¬ excuse → Quiet env loose) {targets : List RewrapTarget}
    (covers : Covers payloads targets) :
    Triple (Solo env tid (Sound X custody payloads loose))
      (fun w => PreparedAt X custody payloads old new w ∧ Frame origin loose w)
      (applyStagedFiles targets)
      fun result w => (PreparedAt X custody payloads old new w ∧ Frame origin loose w) ∧ match result with
        | .ok _ => Switched X custody payloads new w.view
        | .error _ => excuse := by
  refine (applyStagedFiles_spec applying_prepared
    (fun none => ⟨(calm none).faultless, fun w here => ?_⟩)
    targets [] covers.live (by simp)).mono (fun w here => ⟨here, by simp [Applied]⟩) ?_
  · refine appliable_of_tidy (here.2.tidy.resolve_left (calm none).strict) here.1.2.2.live
      fun path keyType payload known sealed => ?_
    obtain ⟨_, data, _, _, read, _⟩ :=
      loadNode_ok (here.1.2.2.staged path keyType payload known sealed).loads
    exact ⟨data, read⟩
  · rintro (e | _) w ⟨here, ended⟩
    · exact ⟨here, ended⟩
    · refine ⟨here, here.1.2.2.switched fun path keyType payload known sealed => ?_⟩
      obtain ⟨target, member, rfl⟩ := covers.all path keyType known (by rw [sealed]; rfl)
      have loads := (ended target (by simpa using member) payload sealed).1
      rwa [Option.some.inj ((covers.live target member).1.symm.trans known)] at loads

end

/-- The provider has the new key and the marker is still there; the rotation
directory is as in `v`. -/
structure SwitchedAt (X : Crypto) (custody : Custody) (payloads : Payloads) (mk : Key) (v : View)
    (w : World) : Prop where
  provided : w.control.providerMk = some mk ∧ custody.known mk
  marked : w.view readyPath = some marker
  switched : Switched X custody payloads mk w.view
  same : ∀ path, rotateDir <:+ path → w.view path = v path

section
variable {X : Crypto} {custody : Custody} {payloads : Payloads} {mk : Key} {v : View} {env : Env}
  {tid : Tid} {origin : World} {loose excuse : Prop}

theorem SwitchedAt.finished {w : World} (here : SwitchedAt X custody payloads mk v w) :
    FinishedAt X custody payloads mk w := ⟨here.provided, .inr ⟨here.marked, here.switched⟩⟩

theorem switchedAt_steady : Steady tid (SwitchedAt X custody payloads mk v) := by
  intro w w' here step
  refine ⟨by rw [step.control]; exact here.provided, ?_, ?_, ?_⟩ <;> rw [step.view]
  · exact here.marked
  · exact here.switched
  · exact here.same

theorem applying_switched :
    Applying X custody payloads mk tid (Sound X custody payloads loose)
      fun w => SwitchedAt X custody payloads mk v w ∧ Frame origin loose w where
  invSteady := sound_steady X custody payloads loose
  steady := switchedAt_steady.and (frame_steady origin loose tid)
  staged := fun w path keyType payload data here known sealed read => by
    obtain absent | loads := here.1.switched.staged path keyType payload known sealed
    · rw [absent] at read
      cases read
    · exact loads.copy read
  put := fun w w' path keyType payload data here _ known sealed loads step => by
    have after : SwitchedAt X custody payloads mk v w' := by
      refine ⟨by rw [step.control]; exact here.1.provided, ?_, ?_, ?_⟩ <;> rw [step.view]
      · rw [Function.update_of_ne (apart_of_live known rotate_files_below.1)]
        exact here.1.marked
      · exact here.1.switched.put_live known sealed loads
      · intro other inside
        rw [Function.update_of_ne (apart_of_live known inside)]
        exact here.1.same other inside
    have frame := here.2.put step (not_aside_of_live known)
    exact ⟨frame.sound (.inr ⟨mk, after.finished⟩), after, frame⟩

theorem apply_switched (calm : ¬ excuse → Quiet env loose ∧ Complete payloads v)
    {targets : List RewrapTarget} (covers : Covers payloads targets) :
    Triple (Solo env tid (Sound X custody payloads loose))
      (fun w => SwitchedAt X custody payloads mk v w ∧ Frame origin loose w) (applyStagedFiles targets)
      fun result w => (SwitchedAt X custody payloads mk v w ∧ Frame origin loose w) ∧ match result with
        | .ok _ => ∀ path keyType, keyTypeOf path = some keyType →
            (payloads path).isSome = true → v (stagePath path) ≠ none
        | .error _ => excuse := by
  refine (applyStagedFiles_spec applying_switched
    (fun none => ⟨(calm none).1.faultless, fun w here => ?_⟩)
    targets [] covers.live (by simp)).mono (fun w here => ⟨here, by simp [Applied]⟩) ?_
  · refine appliable_of_tidy (here.2.tidy.resolve_left (calm none).1.strict)
      here.1.switched.live.under.present
      fun path keyType payload known sealed => ?_
    have there := (calm none).2.2 path keyType known (by rw [sealed]; rfl)
    rw [← here.1.same _ (below_rotate_of_staged known)] at there
    obtain ⟨_, data, _, _, read, _⟩ := loadNode_ok
      ((here.1.switched.staged path keyType payload known sealed).resolve_left there).loads
    exact ⟨data, read⟩
  · rintro (e | _) w ⟨here, ended⟩
    · exact ⟨here, ended⟩
    · refine ⟨here, fun path keyType known sealed => ?_⟩
      obtain ⟨payload, sealed⟩ := Option.isSome_iff_exists.mp sealed
      obtain ⟨target, member, rfl⟩ := covers.all path keyType known (by rw [sealed]; rfl)
      rw [← here.1.same _ (below_rotate_of_staged known)]
      exact (ended target (by simpa using member) payload sealed).2

end

/-- How recovery from a store with view `v` ends: nothing is lost; success takes all
that recovery needs and leaves a settled store without leftovers; and only an
excuse keeps it from success. -/
def Recovered (X : Crypto) (custody : Custody) (payloads : Payloads) (origin : World)
    (loose excuse : Prop) (v : View) (result : Except LithiumError Unit) (w : World) : Prop :=
  (Recoverable X custody payloads w ∧ Frame origin loose w) ∧
    (result = .ok () → Finishable payloads v ∧
      ∃ mk, FinishedAt X custody payloads mk w ∧ Cleared w) ∧
    (excuse ∨ result = .ok () ∧ w.fs.get rotateDir = none)

section
variable {X : Crypto} {custody : Custody} {payloads : Payloads} {old new mk : Key} {v : View}
  {env : Env} {tid : Tid} {origin : World} {loose excuse : Prop}

/-- A failed step of recovery from which nothing was lost. -/
theorem recovered_error {e : LithiumError} {w : World} (here : Recoverable X custody payloads w)
    (frame : Frame origin loose w) (excused : excuse) :
    Recovered X custody payloads origin loose excuse v (.error e) w :=
  ⟨⟨here, frame⟩, by simp, .inl excused⟩

theorem faulty (calm : ¬ excuse → Quiet env loose) (faults : env.faults = true) : excuse :=
  excused_of_faults (fun none => (calm none).faultless) faults

theorem secretsDir_of_frame {w : World} (frame : Frame origin loose w) (quiet : Quiet env loose) :
    w.fs.get secretsDir = none ∨ w.fs.isDir secretsDir = true :=
  .inr (frame.tidy.resolve_left quiet.strict).secrets.isDir

theorem recover_clean (X : Crypto) {inv held : World → Prop} (invSteady : Steady tid inv)
    (invPrunable : Prunable inv) (steady : Steady tid held) (prunable : Prunable held)
    (unmarked : ∀ w, held w → w.view readyPath = none)
    (calm : ¬ excuse → env.faults = false ∧
      ∀ w, held w → RotateDirOk w ∧ w.fs.isDir rootDir = true) :
    Triple (Solo env tid inv) held (recoverPendingRotationIfAny X) fun result w =>
      held w ∧ (env.Sees rotateDir → result = .ok () → Cleared w) ∧
        (excuse ∨ result = .ok () ∧ w.fs.get rotateDir = none) := by
  have party := party_solo env tid inv
  refine Triple.bind (pathExists_spec party still_solo rotateDir) (fun there => ?_)
    fun e w seen => absurd seen.2 (by simp)
  rintro w ⟨here, seen⟩
  cases there with
  | false =>
    have seen : env.Sees rotateDir → _ := fun sees => seen.resolve_right fun failed => failed.2 sees
    refine ⟨here, fun sees _ => cleared_of_stat (Except.ok.inj (seen sees)).symm, ?_⟩
    by_cases excused : excuse
    · exact .inl excused
    · refine .inr ⟨rfl, ((calm excused).2 w here).1.resolve_right fun directory => ?_⟩
      have seen := seen (.inl (calm excused).1)
      have there : (w.fs.stat rotateDir).isSome = true := stat_isSome_of_isDir directory
      rw [there] at seen
      cases seen
  | true =>
    refine Triple.bind (pathExists_spec party still_solo readyPath) (fun there => ?_)
      (fun e w seen => absurd seen.2 (by simp)) w here
    rintro w ⟨here, seen⟩
    have unmarked := unmarked w here
    rw [view_of_visible rotate_files_storable.1.1] at unmarked
    simp only [FileSystem.stat, unmarked, Option.bind_none] at seen
    obtain rfl : there = false := by
      obtain natural | ⟨failed, _⟩ := seen
      · exact Except.ok.inj natural
      · exact Except.ok.inj failed
    exact cleanupRotationDir_spec invSteady invPrunable steady prunable calm w here

variable [env.Sighted]

theorem cleanup_recovers (calm : ¬ excuse → Quiet env loose)
    (finishable : Finishable payloads v) :
    Triple (Solo env tid (Sound X custody payloads loose))
      (fun w => FinishedAt X custody payloads mk w ∧ Frame origin loose w) cleanupRotationDir
      (Recovered X custody payloads origin loose excuse v) := by
  refine (cleanup_finished calm).weaken fun result w ended => ?_
  obtain ⟨⟨here, frame⟩, cleared, done⟩ := ended
  exact ⟨⟨.inr ⟨mk, here⟩, frame⟩, fun ok => ⟨finishable, mk, here, cleared (Env.Sighted.sees _) ok⟩, done⟩

/-- Recovery up to the point where it knows the next key and which of its two files
gave it: a failure so far is excused, unless neither file opens. -/
theorem finishPendingRotation_spec {held : World → Prop} {cur : Key}
    {post : Except LithiumError Unit → World → Prop} (calm : ¬ excuse → Quiet env loose)
    (provider : ∀ w, held w → w.control.providerMk = some cur)
    (present : ∀ w, held w → Present payloads w.view) (framed : ∀ w, held w → Frame origin loose w)
    (unopened : ∀ w, held w → (∀ next : Key,
      loadNode X (w.view nextNewPath) cur ktRotateNextNew ≠ .ok next.1 ∧
      loadNode X (w.view nextOldPath) cur ktRotateNextOld ≠ .ok next.1) → excuse)
    (failed : ∀ e w, held w → excuse → post (.error e) w)
    (resumes : ∀ targets, Covers payloads targets → ∀ next providerAlreadySwitched,
      Triple (Solo env tid (Sound X custody payloads loose))
        (fun w => held w ∧ NextFound X env cur w.view (.ok (next, providerAlreadySwitched)))
        (do
          applyStagedFiles targets
          if providerAlreadySwitched then pure () else storeMk next
          cleanupRotationDir) post) :
    Triple (Solo env tid (Sound X custody payloads loose)) held (finishPendingRotation X) post := by
  refine Triple.bind (collectRewrapTargets_spec present fun none =>
    ⟨(calm none).faultless, fun w here => secretsDir_of_frame (framed w here) (calm none)⟩)
    (fun targets => ?_) fun e w ended => failed e w ended.1 ended.2
  rintro w ⟨here, covers⟩
  refine Triple.bind (loadMk_spec provider) (fun found => ?_) ?_ w here
  · rintro w ⟨here, answers⟩
    cases answers.ok
    refine Triple.bind (nextMk_spec held X cur) (fun next => resumes targets covers next.1 next.2)
      ?_ w here
    rintro e w ⟨here, faults | neither⟩
    · exact failed e w here (faulty calm faults)
    · exact failed e w here (unopened w here neither)
  · rintro e w ⟨here, answers⟩
    exact failed e w here (faulty calm answers.faulted)

theorem finish_prepared (told : custody.apart) (calm : ¬ excuse → Quiet env loose)
    (finishable : Finishable payloads v) :
    Triple (Solo env tid (Sound X custody payloads loose))
      (fun w => PreparedAt X custody payloads old new w ∧ Frame origin loose w) (finishPendingRotation X)
      (Recovered X custody payloads origin loose excuse v) := by
  have failed : ∀ e w, PreparedAt X custody payloads old new w ∧ Frame origin loose w → excuse →
      Recovered X custody payloads origin loose excuse v (.error e) w := fun e w here excused =>
    recovered_error (.inl ⟨old, new, here.1⟩) here.2 excused
  refine finishPendingRotation_spec calm (fun w here => here.1.1.1) (fun w here => here.1.2.2.live)
    (fun w here => here.2) (fun w here neither => absurd here.1.2.2.nextOld (neither new).2) failed
    fun targets covers next switched => ?_
  rintro w ⟨here, found⟩
  cases switched with
  | true => exact absurd found (here.1.2.2.nextNewApart told _)
  | false =>
    obtain rfl : new = next :=
      Subtype.ext (Except.ok.inj (here.1.2.2.nextOld.symm.trans found))
    refine Triple.bind (apply_prepared calm covers) (fun _ => ?_)
      (fun e w ended => failed e w ended.1 ended.2) w here
    refine Triple.bind (storeMk_spec (fun w =>
      FinishedAt X custody payloads new w ∧ Frame origin loose w) new ?_) (fun _ => ?_) ?_
    · rintro w ⟨⟨here, frame⟩, switched⟩ _
      have after : FinishedAt X custody payloads new (w.provide new) :=
        ⟨⟨rfl, here.1.2.2⟩, .inr ⟨here.2.1, switched⟩⟩
      have frame := frame.provide new
      exact ⟨frame.sound (.inr ⟨new, after⟩), after, frame⟩
    · exact cleanup_recovers calm finishable
    · rintro e w ⟨⟨here, _⟩, faults⟩
      exact failed e w here (faulty calm faults)

theorem finish_switched (told : custody.apart)
    (calm : ¬ excuse → Quiet env loose ∧ Complete payloads v) :
    Triple (Solo env tid (Sound X custody payloads loose))
      (fun w => SwitchedAt X custody payloads mk v w ∧ Frame origin loose w)
      (finishPendingRotation X) (Recovered X custody payloads origin loose excuse v) := by
  have quiet : ¬ excuse → Quiet env loose := fun none => (calm none).1
  have failed : ∀ e w, SwitchedAt X custody payloads mk v w ∧ Frame origin loose w → excuse →
      Recovered X custody payloads origin loose excuse v (.error e) w := fun e w here excused =>
    recovered_error (.inr ⟨mk, here.1.finished⟩) here.2 excused
  have nextNew := rotate_files_below.2.2
  refine finishPendingRotation_spec quiet (fun w here => here.1.provided.1)
    (fun w here => here.1.switched.live.under.present) (fun w here => here.2) ?_ failed
    fun targets covers next switched => ?_
  · rintro w ⟨here, _⟩ neither
    by_contra none
    have there := (calm none).2.1
    rw [← here.same _ nextNew] at there
    exact (neither mk).1 (here.switched.nextNew.resolve_left there)
  · rintro w ⟨here, found⟩
    cases switched with
    | false => exact absurd found (here.1.switched.nextOldApart told _)
    | true =>
      have there : v nextNewPath ≠ none := by
        obtain ⟨node, _, entry, _⟩ := loadNode_ok found
        simp [← here.1.same _ nextNew, entry]
      refine Triple.bind (apply_switched calm covers) (fun _ => ?_)
        (fun e w ended => failed e w ended.1 ended.2) w here
      rintro w ⟨⟨here, frame⟩, staged⟩
      exact cleanup_recovers quiet (.inr ⟨there, staged⟩) w ⟨here.finished, frame⟩

/-- Where the marker is seen, recovery is what it does with a marked rotation. -/
theorem recover_of_marked {inv held : World → Prop}
    {post : Except LithiumError Unit → World → Prop}
    (marked : ∀ w, held w → w.view readyPath = some marker)
    (finish : Triple (Solo env tid inv) held (finishPendingRotation X) post) :
    Triple (Solo env tid inv) held (recoverPendingRotationIfAny X) post := by
  have there : ∀ w, held w → w.fs.get readyPath = some marker := fun w here => by
    rw [← view_of_visible rotate_files_storable.1.1]
    exact marked w here
  refine Triple.bind (pathExists_sees (party_solo env tid inv) still_solo (Env.Sighted.sees rotateDir))
    (fun seen => ?_) fun e w seen => absurd seen.2 (by simp)
  rintro w ⟨here, answer⟩
  have entry : (w.fs.get readyPath).isSome = true := by
    rw [there w here]
    rfl
  have directory : (w.fs.stat rotateDir).isSome = true :=
    stat_isSome_of_isDir (w.fs.get_parent entry)
  rw [directory] at answer
  cases answer
  refine Triple.bind (pathExists_sees (party_solo env tid inv) still_solo (Env.Sighted.sees readyPath))
    (fun seen => ?_) (fun e w seen => absurd seen.2 (by simp)) w here
  rintro w ⟨here, answer⟩
  simp only [FileSystem.stat, there w here, marker, privateFile, Option.bind_some] at answer
  cases answer
  exact finish w here

theorem recover_unmarked (calm : ¬ excuse → Quiet env loose) :
    Triple (Solo env tid (Sound X custody payloads loose))
      (fun w => (FinishedAt X custody payloads mk w ∧ Frame origin loose w) ∧ w.view readyPath = none)
      (recoverPendingRotationIfAny X)
      fun result w => (FinishedAt X custody payloads mk w ∧ Frame origin loose w) ∧
        (result = .ok () → Cleared w) ∧
        (excuse ∨ result = .ok () ∧ w.fs.get rotateDir = none) := by
  have steady : Steady tid fun w =>
      (FinishedAt X custody payloads mk w ∧ Frame origin loose w) ∧ w.view readyPath = none :=
    ((finishedAt_steady X custody payloads mk).and (frame_steady origin loose tid)).and
      (steady_view fun v _ => v readyPath = none)
  have prunable : Prunable fun w =>
      (FinishedAt X custody payloads mk w ∧ Frame origin loose w) ∧ w.view readyPath = none :=
    fun w w' here pruned => ⟨⟨finishedAt_prunable w w' here.1.1 pruned, here.1.2.pruned pruned⟩,
      (pruned.view.gone readyPath).elim (·.trans here.2) id⟩
  refine (Triple.within (recover_clean X steady prunable steady prunable (fun w here => here.2)
    fun none => ⟨(calm none).faultless, fun w here => ?_⟩) (fun w here => here)
    fun w here => here.1.2.sound (.inr ⟨mk, here.1.1⟩)).weaken
    fun result w ended => ⟨ended.1.1, ended.2.1 (Env.Sighted.sees _), ended.2.2⟩
  have tidy := here.1.2.tidy.resolve_left (calm none).strict
  exact ⟨tidy.rotate, tidy.root.isDir⟩

/-- Recovery from any world a crash can leave. -/
theorem recover_spec (told : custody.apart) (calm : ¬ excuse → Quiet env loose ∧ Finishable payloads v) :
    Triple (Solo env tid (Sound X custody payloads loose))
      (fun w => (Recoverable X custody payloads w ∧ Frame origin loose w) ∧ w.view = v)
      (recoverPendingRotationIfAny X) (Recovered X custody payloads origin loose excuse v) := by
  have quiet : ¬ excuse → Quiet env loose := fun none => (calm none).1
  rintro w ⟨⟨⟨old, new, prepared⟩ | ⟨mk, provided, ⟨unmarked, live⟩ | ⟨marked, switched⟩⟩, frame⟩, rfl⟩
  · exact recover_of_marked (fun w here => here.1.2.1)
      (finish_prepared told quiet (.inr prepared.2.2.complete)) w ⟨prepared, frame⟩
  · refine (recover_unmarked quiet w
      ⟨⟨⟨provided, .inl ⟨unmarked, live⟩⟩, frame⟩, unmarked⟩).mono fun result w' ended => ?_
    obtain ⟨⟨here, frame⟩, cleared, done⟩ := ended
    exact ⟨⟨.inr ⟨mk, here⟩, frame⟩, fun ok => ⟨.inl unmarked, mk, here, cleared ok⟩, done⟩
  · refine recover_of_marked (fun w here => here.1.marked) (finish_switched told fun none =>
      ⟨quiet none, (calm none).2.resolve_left (by simp [marked])⟩) w
      ⟨⟨provided, marked, switched, fun _ _ => rfl⟩, frame⟩

end

end Lithium.Keys
