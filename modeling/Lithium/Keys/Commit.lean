import Lithium.Keys.Preparation

/-! A whole rotation: it starts with the recovery of an earlier one, prepares its
own, and commits it. Where a commit fails the rotation recovers at once or
poisons the manager. -/
namespace Lithium.Keys
open Effects Storage

section
variable {X : Crypto} {custody : Custody} {payloads : Payloads} {old new mk : Key} {env : Env}
  {tid : Tid} {origin : World} {loose excuse : Prop} {targets : List RewrapTarget}

theorem commitAttempt_spec [env.Sighted] (calm : ¬ excuse → Quiet env loose) (covers : Covers payloads targets) :
    Triple (Solo env tid (Sound X custody payloads loose))
      (fun w => PreparedAt X custody payloads old new w ∧ Frame origin loose w) (commitAttempt targets new)
      fun result w => (Recoverable X custody payloads w ∧ Frame origin loose w) ∧ match result with
        | .ok _ => FinishedAt X custody payloads new w ∧ Cleared w
        | .error _ => excuse := by
  refine Triple.bind (apply_prepared calm covers) (fun _ => ?_)
    fun e w ended => ⟨⟨.inl ⟨old, new, ended.1.1⟩, ended.1.2⟩, ended.2⟩
  refine Triple.bind (storeMk_spec (fun w => FinishedAt X custody payloads new w ∧ Frame origin loose w)
    new ?_) (fun _ => ?_) ?_
  · rintro w ⟨⟨here, frame⟩, switched⟩ _
    have after : FinishedAt X custody payloads new (w.provide new) :=
      ⟨⟨rfl, here.1.2.2⟩, .inr ⟨here.2.1, switched⟩⟩
    have frame := frame.provide new
    exact ⟨frame.sound (.inr ⟨new, after⟩), after, frame⟩
  · refine (cleanup_finished calm).weaken fun result w ended => ?_
    obtain ⟨⟨here, frame⟩, cleared, done⟩ := ended
    refine ⟨⟨.inr ⟨new, here⟩, frame⟩, ?_⟩
    cases result with
    | ok _ => exact ⟨here, cleared (Env.Sighted.sees _) rfl⟩
    | error e => exact done.resolve_right (by simp)
  · rintro e w ⟨⟨⟨here, frame⟩, _⟩, faults⟩
    exact ⟨⟨.inl ⟨old, new, here⟩, frame⟩, faulty calm faults⟩

/-- A call that does nothing but change the shared state. -/
theorem control_spec {held inv : World → Prop} (after : World → Prop) {op : Op}
    {next : Reply op → Prog Unit} {post : Except LithiumError Unit → World → Prop}
    (change : Control → Control)
    (meaning : ∀ w reply w', sem env tid op w reply w' → w' = { w with control := change w.control })
    (kept : ∀ w, inv w → inv { w with control := change w.control })
    (reached : ∀ w, held w → after { w with control := change w.control })
    (rest : ∀ reply, Triple (Solo env tid inv) after (next reply) post) :
    Triple (Solo env tid inv) held ((call op).bind next) post := by
  refine Triple.call (fun _ => after) (alone_stable _ _ _) ?_ rest
  intro w here inv reply w' step
  obtain rfl := meaning w reply w' step
  exact ⟨kept w inv, trivial, reached w here⟩

theorem sem_setPoisoned {w w' : World} {reply : Reply .setPoisoned}
    (step : sem env tid .setPoisoned w reply w') :
    w' = { w with control := { w.control with poisoned := true } } := by
  obtain done | ⟨_, _, e, failed⟩ := sem_natural (fun _ => rfl) step
  · cases done
    rfl
  · cases failed

theorem sem_setCachedMk {mk : Key} {w w' : World} {reply : Reply (.setCachedMk mk)}
    (step : sem env tid (.setCachedMk mk) w reply w') :
    w' = { w with control := { w.control with cachedMk := some mk } } := by
  obtain done | ⟨_, _, e, failed⟩ := sem_natural (fun _ => rfl) step
  · cases done
    rfl
  · cases failed

theorem sound_control {w : World} {control : Control}
    (provider : control.providerMk = w.control.providerMk) (here : Sound X custody payloads loose w) :
    Sound X custody payloads loose { w with control := control } := by
  refine ⟨?_, here.2.imp_right (·.control _)⟩
  obtain ⟨old, new, ⟨provided, known⟩, rest⟩ | ⟨mk, ⟨provided, known⟩, rest⟩ := here.1
  · exact .inl ⟨old, new, ⟨provider.trans provided, known⟩, rest⟩
  · exact .inr ⟨mk, ⟨provider.trans provided, known⟩, rest⟩

theorem setPoisoned_spec {e : LithiumError} :
    Triple (Solo env tid (Sound X custody payloads loose)) (Sound X custody payloads loose)
      (setPoisoned.bind fun _ => (throw e : Prog Unit)) fun result w =>
        Sound X custody payloads loose w ∧ result = .error e ∧ w.control.poisoned = true := by
  exact control_spec (fun w => Sound X custody payloads loose w ∧ w.control.poisoned = true)
    (fun c => { c with poisoned := true }) (fun _ _ _ => sem_setPoisoned) (fun w => sound_control rfl)
    (fun w here => ⟨sound_control rfl here, rfl⟩) fun _ =>
    Triple.done fun w here => ⟨here.1, rfl, here.2⟩

/-- A failed commit is recovered from at once, or poisons the manager. -/
theorem commitRotation_spec [env.Sighted] (told : excuse → custody.apart) (calm : ¬ excuse → Quiet env loose)
    (covers : Covers payloads targets) :
    Triple (Solo env tid (Sound X custody payloads loose))
      (fun w => PreparedAt X custody payloads old new w ∧ Frame origin loose w)
      (commitRotation X targets new)
      fun result w => Sound X custody payloads loose w ∧ match result with
        | .ok _ => ∃ mk, (FinishedAt X custody payloads mk w ∧ Cleared w) ∧ Frame origin loose w
        | .error _ => excuse ∧ w.control.poisoned = true := by
  refine Triple.attempt_bind (commitAttempt_spec calm covers) fun result => ?_
  match result with
  | .ok () =>
    exact Triple.done fun w here => ⟨here.1.2.sound here.1.1, new, here.2, here.1.2⟩
  | .error e =>
    rintro w ⟨⟨here, frame⟩, excused⟩
    refine Triple.attempt_bind (recover_spec (told excused) fun none => absurd excused none) (fun result => ?_) w
      ⟨⟨here, frame⟩, rfl⟩
    match result with
    | .ok () =>
      rintro w ⟨⟨here, frame⟩, done, _⟩
      obtain ⟨_, mk, finished⟩ := done rfl
      exact ⟨frame.sound here, mk, finished, frame⟩
    | .error _ =>
      refine setPoisoned_spec.mono (fun w ended => ended.1.2.sound ended.1.1) fun result w ended => ?_
      obtain ⟨here, rfl, poisoned⟩ := ended
      exact ⟨here, excused, poisoned⟩

/-- The shared state after a rotation to `mk` that began with it as `c`. -/
def rotatedControl (cached : Bool) (c : Control) (mk : Key) : Control :=
  { c with providerMk := some mk, cachedMk := if cached then some mk else c.cachedMk }

/-- What a rotation leaves. After success it is settled on some key, the cached copy
included. It fails only with an excuse, and then poisoned or `early`. -/
def Rotated (X : Crypto) (custody : Custody) (payloads : Payloads) (cached : Bool) (origin : World)
    (loose excuse : Prop) (early : World → Prop) (result : Except LithiumError Unit) (w : World) : Prop :=
  Sound X custody payloads loose w ∧ match result with
    | .ok _ => ∃ mk, (FinishedAt X custody payloads mk w ∧ Cleared w) ∧
        w.control = rotatedControl cached origin.control mk ∧ Untouched origin w
    | .error _ => excuse ∧ (w.control.poisoned = true ∨ early w)

theorem Frame.rotated {w : World} (frame : Frame origin loose w)
    (here : FinishedAt X custody payloads mk w) : w.control = rotatedControl false origin.control mk := by
  rw [frame.control, here.1.1]
  rfl

theorem arenaClaim_spec {α : Type} {inv : World → Prop} (held : World → Prop) {len : Nat} {rest : Prog α}
    {post : Except LithiumError α → World → Prop}
    (succeed : Triple (Solo env tid inv) held rest post)
    (failed : ∀ e w, held w → env.faults = true → post (.error e) w) :
    Triple (Solo env tid inv) held ((call (.arenaClaim len)).bind fun claimed =>
      (Program.done claimed : Prog Unit).bind fun _ => rest) post := by
  refine observe (party_solo env tid inv) still_solo rfl fun reply => ?_
  rintro w ⟨here, seen⟩
  obtain done | ⟨faults, _, e, failure⟩ := sem_natural (fun _ => rfl) seen
  · cases done
    exact succeed w here
  · cases failure
    exact failed e w here faults

theorem refreshCurrentMk_spec (calm : ¬ excuse → Quiet env loose) (early : World → Prop) :
    Triple (Solo env tid (Sound X custody payloads loose))
      (fun w => (FinishedAt X custody payloads mk w ∧ Cleared w) ∧ Frame origin loose w)
      refreshCurrentMk fun result w => match result with
        | .ok _ => Rotated X custody payloads true origin loose excuse early (.ok ()) w
        | .error _ => Sound X custody payloads loose w ∧ excuse := by
  have provider : ∀ w, (FinishedAt X custody payloads mk w ∧ Cleared w) ∧ Frame origin loose w →
      w.control.providerMk = some mk := fun w here => here.1.1.1.1
  refine Triple.bind (loadMk_spec provider) (fun cur => ?_) ?_
  · rintro w ⟨here, answers⟩
    cases answers.ok
    refine arenaClaim_spec (fun w => (FinishedAt X custody payloads mk w ∧ Cleared w) ∧
      Frame origin loose w) ?_ (fun e w here faults =>
        ⟨here.2.sound (.inr ⟨mk, here.1.1⟩), faulty calm faults⟩) w here
    · refine control_spec (Rotated X custody payloads true origin loose excuse early (.ok ()))
        (fun c => { c with cachedMk := some mk }) (fun _ _ _ => sem_setCachedMk)
        (fun w => sound_control rfl) ?_ fun _ => Triple.done fun w here => here
      rintro w ⟨⟨here, cleared⟩, frame⟩
      refine ⟨sound_control rfl (frame.sound (.inr ⟨mk, here⟩)), mk,
        ⟨⟨here.1, here.2⟩, cleared⟩, ?_, ⟨frame.rest.view, frame.rest.dirs⟩⟩
      rw [frame.rotated here]
      rfl
  · rintro e w ⟨here, answers⟩
    exact ⟨here.2.sound (.inr ⟨mk, here.1.1⟩), faulty calm answers.faulted⟩

/-- A rotation, given what its recovery does first. -/
theorem rotateLocked_spec [env.Sighted] (lawful : X.Lawful) (upheld : custody.Upheld X env)
    (told : excuse → custody.apart) (calm : ¬ excuse → Quiet env loose) (cached : Bool)
    {held early : World → Prop}
    (recovers : Triple (Solo env tid (Sound X custody payloads loose)) held
      (recoverPendingRotationIfAny X) fun result w => Sound X custody payloads loose w ∧
        match result with
        | .ok _ => ∃ mk, (FinishedAt X custody payloads mk w ∧ Frame origin loose w) ∧
            ∀ w, Kept X custody payloads mk origin loose w → early w
        | .error _ => excuse ∧ early w) :
    Triple (Solo env tid (Sound X custody payloads loose)) held (rotateLocked X cached)
      (Rotated X custody payloads cached origin loose excuse early) := by
  refine Triple.bind recovers (fun _ => ?_) fun e w ended => ⟨ended.1, ended.2.1, .inr ended.2.2⟩
  rintro w ⟨_, mk, start, keeping⟩
  refine Triple.bind (prepareRotation_spec lawful upheld calm) ?_ ?_ w start
  · rintro ⟨targets, new⟩ w ⟨kept, prepared, covers⟩
    refine Triple.bind (commitRotation_spec told calm covers) (fun _ => ?_)
      (fun e w ended => ⟨ended.1, ended.2.1, .inl ended.2.2⟩) w ⟨prepared, kept.frame⟩
    rintro w ⟨_, mk, finished, frame⟩
    cases cached with
    | false =>
      exact ⟨frame.sound (.inr ⟨mk, finished.1⟩), mk, finished, frame.rotated finished.1, frame.rest⟩
    | true =>
      refine Triple.attempt_bind (refreshCurrentMk_spec calm early) (fun result => ?_) w
        ⟨finished, frame⟩
      match result with
      | .ok () => exact Triple.done fun w here => here
      | .error e =>
        rintro w ⟨here, excused⟩
        refine (setPoisoned_spec w here).mono fun result w ended => ?_
        obtain ⟨here, rfl, poisoned⟩ := ended
        exact ⟨here, excused, .inl poisoned⟩
  · rintro e w ⟨kept, excused⟩
    exact ⟨kept.frame.sound kept.recoverable, excused, .inr (keeping w kept)⟩

end

section
variable {X : Crypto} {custody : Custody} {payloads : Payloads} {env : Env} {tid : Tid}
  {origin : World} {loose excuse : Prop} {v : View} {mk : Key}

/-- A rotation from any world a crash can leave. -/
theorem rotateLocked_recovers [env.Sighted] (lawful : X.Lawful) (upheld : custody.Upheld X env)
    (told : custody.apart) (calm : ¬ excuse → Quiet env loose ∧ Finishable payloads v)
    (cached : Bool) :
    Triple (Solo env tid (Sound X custody payloads loose))
      (fun w => (Recoverable X custody payloads w ∧ Frame origin loose w) ∧ w.view = v)
      (rotateLocked X cached) (Rotated X custody payloads cached origin loose excuse fun _ => True) := by
  refine rotateLocked_spec lawful upheld (fun _ => told) (fun none => (calm none).1) cached
    ((recover_spec told calm).weaken fun result w ended => ?_)
  obtain ⟨⟨here, frame⟩, done, success⟩ := ended
  refine ⟨frame.sound here, ?_⟩
  match result with
  | .ok () =>
    obtain ⟨_, mk, finished, _⟩ := done rfl
    exact ⟨mk, ⟨finished, frame⟩, fun _ _ => trivial⟩
  | .error e => exact ⟨success.resolve_right (by simp), trivial⟩

/-- A rotation from a store with none pending. Where it fails before its commit, the
provider and every live keyfile are still on the key it began with. -/
theorem rotateLocked_settled [env.Sighted] (lawful : X.Lawful) (upheld : custody.Upheld X env)
    (told : excuse → custody.apart) (calm : ¬ excuse → Quiet env loose) (cached : Bool) :
    Triple (Solo env tid (Sound X custody payloads loose))
      (fun w => (FinishedAt X custody payloads mk w ∧ Frame origin loose w) ∧ w.view readyPath = none)
      (rotateLocked X cached)
      (Rotated X custody payloads cached origin loose excuse (Kept X custody payloads mk origin loose)) := by
  refine rotateLocked_spec lawful upheld told calm cached
    ((recover_unmarked calm).weaken fun result w ended => ?_)
  obtain ⟨⟨here, frame⟩, _, success⟩ := ended
  refine ⟨frame.sound (.inr ⟨mk, here⟩), ?_⟩
  match result with
  | .ok () => exact ⟨mk, ⟨here, frame⟩, fun _ kept => kept⟩
  | .error e =>
    exact ⟨success.resolve_right (by simp), here.1, here.live, .inr ⟨mk, here⟩, frame⟩

theorem sem_lockWrite {w w' : World} {reply : Reply .lockWrite}
    (step : sem env tid .lockWrite w reply w') :
    (w.control.writer = none ∧ w.control.readers = []) ∧
      w' = { w with control := { w.control with writer := some tid } } := by
  obtain ⟨_, _, e, failed⟩ | ⟨choice, effected⟩ := sem_cases step
  · cases failed
  · simp only [effect] at effected
    split at effected
    · next free =>
      cases effected
      exact ⟨⟨Option.isNone_iff_eq_none.mp free.1, List.isEmpty_iff.mp free.2⟩, rfl⟩
    · cases effected

theorem sem_unlockWrite {w w' : World} {reply : Reply .unlockWrite}
    (step : sem env tid .unlockWrite w reply w') :
    w' = { w with control := { w.control with writer := none } } := by
  obtain done | ⟨_, _, e, failed⟩ := sem_natural (fun _ => rfl) step
  · cases done
    rfl
  · cases failed

def World.lockedBy (w : World) (tid : Tid) : World :=
  { w with control := { w.control with writer := some tid } }

def World.unlocked (w : World) : World := { w with control := { w.control with writer := none } }

theorem Frame.lock {w : World} (frame : Frame origin loose w) (tid : Tid) :
    Frame (origin.lockedBy tid) loose (w.lockedBy tid) := by
  refine ⟨?_, ⟨frame.rest.view, frame.rest.dirs⟩, frame.tidy.imp_right (·.control _)⟩
  rw [World.lockedBy, frame.control]
  rfl

theorem Kept.unlock {w : World} (kept : Kept X custody payloads mk (origin.lockedBy tid) loose w) :
    Kept X custody payloads mk origin.unlocked loose w.unlocked := by
  have frame := kept.frame
  refine ⟨kept.provided, kept.live, (sound_control rfl (frame.sound kept.recoverable)).1, ?_,
    ⟨frame.rest.view, frame.rest.dirs⟩, frame.tidy.imp_right (·.control _)⟩
  rw [World.unlocked, frame.control]
  rfl

/-- What `rotate_now` leaves when nobody else runs. -/
def Completed (X : Crypto) (custody : Custody) (payloads : Payloads) (cached : Bool) (origin : World)
    (loose excuse : Prop) (early : World → Prop) (result : Except LithiumError Unit) (w : World) : Prop :=
  Sound X custody payloads loose w ∧ match result with
    | .ok _ => ∃ mk, (FinishedAt X custody payloads mk w ∧ Cleared w) ∧
        w.control = rotatedControl cached origin.unlocked.control mk ∧ Untouched origin w
    | .error _ => excuse ∧ (w.control.poisoned = true ∨ early w)

/-- `rotate_now` takes the lock, does its work, and gives the lock back whatever came of it.
The calls may be any part of what calls can do. -/
theorem rotateNow_guards {cached : Bool} {fewer : Semantics Calls World} {inv pre held : World → Prop}
    {mid post : Except LithiumError Unit → World → Prop}
    (within : ∀ {op w reply w'}, fewer op w reply w' → sem env tid op w reply w')
    (kept : ∀ w writer, inv w → inv { w with control := { w.control with writer := writer } })
    (lock : ∀ w, w.control.writer = none ∧ w.control.readers = [] → pre w → held (w.lockedBy tid))
    (rotates : Triple (.alone fewer inv) held (rotateLocked X cached) mid)
    (unlock : ∀ result w, mid result w → post result w.unlocked) :
    Triple (.alone fewer inv) pre (rotateNow X cached) post := by
  refine Triple.call (fun _ => held) (alone_stable _ _ _) ?_ fun _ => ?_
  · intro w start here reply w' step
    obtain ⟨free, rfl⟩ := sem_lockWrite (within step)
    exact ⟨kept w _ here, trivial, lock w free start⟩
  · refine Triple.attempt_bind rotates fun result => ?_
    refine Triple.call (fun _ => post result) (alone_stable _ _ _) ?_ fun _ =>
      Triple.done fun w here => here
    intro w ended here reply w' step
    obtain rfl := sem_unlockWrite (within step)
    exact ⟨kept w _ here, trivial, unlock result w ended⟩

/-- `rotate_now`, given what it does under its lock. -/
theorem rotateNow_of_locked {cached : Bool} {pre held early late : World → Prop}
    (lock : ∀ w, pre w → held (w.lockedBy tid))
    (rotates : Triple (Solo env tid (Sound X custody payloads loose)) held (rotateLocked X cached)
      (Rotated X custody payloads cached (origin.lockedBy tid) loose excuse early))
    (unlock : ∀ w, early w → late w.unlocked) :
    Triple (Solo env tid (Sound X custody payloads loose)) pre (rotateNow X cached)
      (Completed X custody payloads cached origin loose excuse late) := by
  refine rotateNow_guards id (fun w _ => sound_control rfl) (fun w _ => lock w) rotates ?_
  rintro result w ⟨here, ended⟩
  refine ⟨sound_control rfl here, ?_⟩
  match result with
  | .error e => exact ⟨ended.1, ended.2.imp_right (unlock w)⟩
  | .ok () =>
    obtain ⟨mk, ⟨finished, cleared⟩, control, rest⟩ := ended
    refine ⟨mk, ⟨finished, cleared⟩, ?_, ⟨rest.view, rest.dirs⟩⟩
    rw [World.unlocked, control]
    rfl

/-- `rotate_now` from any world a crash can leave. -/
theorem rotateNow_spec [env.Sighted] (lawful : X.Lawful) (upheld : custody.Upheld X env)
    (told : custody.apart) (calm : ¬ excuse → Quiet env loose ∧ Finishable payloads v)
    (cached : Bool) :
    Triple (Solo env tid (Sound X custody payloads loose))
      (fun w => (Recoverable X custody payloads w ∧ Frame origin loose w) ∧ w.view = v)
      (rotateNow X cached) (Completed X custody payloads cached origin loose excuse fun _ => True) := by
  refine rotateNow_of_locked (fun w here => ?_)
    (rotateLocked_recovers lawful upheld told calm cached) fun _ _ => trivial
  obtain ⟨⟨here, frame⟩, viewed⟩ := here
  exact ⟨⟨(sound_control rfl (frame.sound here)).1, frame.lock tid⟩, viewed⟩

/-- `rotate_now` on a store with no rotation pending. -/
theorem rotateNow_settled [env.Sighted] (lawful : X.Lawful) (upheld : custody.Upheld X env)
    (told : excuse → custody.apart) (calm : ¬ excuse → Quiet env loose) (cached : Bool) :
    Triple (Solo env tid (Sound X custody payloads loose))
      (fun w => (FinishedAt X custody payloads mk w ∧ Frame origin loose w) ∧ w.view readyPath = none)
      (rotateNow X cached) (Completed X custody payloads cached origin loose excuse
        (Kept X custody payloads mk origin.unlocked loose)) := by
  refine rotateNow_of_locked (fun w here => ?_)
    (rotateLocked_settled lawful upheld told calm cached) fun _ => Kept.unlock
  obtain ⟨⟨here, frame⟩, unmarked⟩ := here
  exact ⟨⟨here, frame.lock tid⟩, unmarked⟩

end

end Lithium.Keys
