import Lithium.Keys.Manager
import Mathlib.Logic.Relation

/-! The rotation thread (`rotate_loop`) and the calls that change its interval
(`set_rotate_interval`). Both write `next_rotation_at` under the control lock, but the thread
lets go of the lock while it rotates and a call reads the clock before it takes the lock. A
run is a sequence of events; instants and durations are numbers of nanoseconds. -/
namespace Lithium.Keys

structure WorkerCtl where
  stop : Bool
  rotateEvery : Nat
  nextRotationAt : Nat
  deriving DecidableEq, Repr

inductive RotationErrorPolicy where
  | strict
  | callback
  deriving DecidableEq, Repr

/-- `handle_rotation_error`, as far as the loop sees it. -/
def handleRotationError : RotationErrorPolicy → Bool
  | .strict => true
  | .callback => false

/-- Whether the thread ends after a rotation with this result. -/
def rotationStops (policy : RotationErrorPolicy) : Except LithiumError Unit → Bool
  | .ok () => false
  | .error _ => handleRotationError policy

/-- `Instant::checked_add`. -/
def checkedAdd (now interval : Nat) : Option Nat :=
  if now + interval < instantLimit then some (now + interval) else none

/-- Where the rotation thread is. Only in `locked` does it hold the control lock. -/
inductive Worker where
  | spawned
  | locked
  | rotating (every : Nat)
  | waiting (timeout : Nat)
  | ended
  deriving DecidableEq, Repr

def loopHead (now : Nat) (ctl : WorkerCtl) : Worker :=
  if ctl.stop then .ended
  else if now ≥ ctl.nextRotationAt then .rotating ctl.rotateEvery
  else .waiting (ctl.nextRotationAt - now)

/-- What follows a rotation, once the lock is taken again; `none` ends the thread. -/
def reschedule (now every : Nat) (ctl : WorkerCtl) : Option WorkerCtl :=
  if ctl.stop then none
  else (checkedAdd now every).map fun next => { ctl with nextRotationAt := next }

/-- What `set_rotate_interval` does before it takes the lock. -/
def planInterval (now interval : Nat) : Except LithiumError Nat :=
  if interval < minRotateEvery then throw (.malformedInput "rotate_every_too_small")
  else match checkedAdd now interval with
    | some next => return next
    | none => throw .ttlTooLarge

/-- A call of `set_rotate_interval` that has read the clock and is yet to take the lock. -/
structure IntervalCall where
  interval : Nat
  readAt : Nat
  next : Nat
  deriving DecidableEq, Repr

/-- What `set_rotate_interval` does under the lock. -/
def IntervalCall.apply (call : IntervalCall) (ctl : WorkerCtl) : WorkerCtl :=
  { ctl with rotateEvery := call.interval, nextRotationAt := call.next }

/-- What has happened so far: the interval last set and when, the end of the last rotation,
and the interval from which `next_rotation_at` was computed. The interval given at start
counts as set there. A rotation ends when the thread has the lock back and reads the clock. -/
structure CallHistory where
  interval : Nat
  setAt : Nat
  rotatedAt : Nat
  planned : Nat
  deriving DecidableEq, Repr

structure Loop where
  now : Nat
  ctl : WorkerCtl
  worker : Worker
  calls : List IntervalCall
  history : CallHistory
  deriving DecidableEq, Repr

inductive LoopEvent where
  | tick (elapsed : Nat)
  -- a call passes its checks and reads the clock
  | plan (interval : Nat)
  -- one of the calls under way takes the lock, writes and returns
  | set (index : Nat)
  -- `RotationGuard::drop`
  | drop
  -- the thread takes the lock: at first, on a notification, a timeout or for no reason
  | wake
  | head
  -- `rotate_now` has returned
  | rotated (result : Except LithiumError Unit)

namespace Loop

/-- `start_with_config` at time `now`. -/
def start (now rotateEvery : Nat) : Option Loop :=
  if rotateEvery < minRotateEvery then none
  else (checkedAdd now rotateEvery).map fun next =>
    ⟨now, ⟨false, rotateEvery, next⟩, .spawned, [], ⟨rotateEvery, now, now, rotateEvery⟩⟩

/-- A call takes effect; the lock is free. -/
def applyCall (loop : Loop) (index : Nat) (call : IntervalCall) : Loop :=
  { loop with
    ctl := call.apply loop.ctl
    calls := loop.calls.eraseIdx index
    history := { loop.history with
      interval := call.interval, setAt := call.readAt, planned := call.interval } }

/-- The rotation begun with the interval `every` is over. -/
def finishRotation (policy : RotationErrorPolicy) (loop : Loop) (every : Nat)
    (result : Except LithiumError Unit) : Loop :=
  if rotationStops policy result then { loop with worker := .ended }
  else match reschedule loop.now every loop.ctl with
    | none => { loop with worker := .ended }
    | some ctl =>
      { loop with
        ctl, worker := .locked
        history := { loop.history with rotatedAt := loop.now, planned := every } }

def step (policy : RotationErrorPolicy) (loop : Loop) : LoopEvent → Option Loop
  | .tick elapsed => some { loop with now := loop.now + elapsed }
  | .plan interval =>
    match planInterval loop.now interval with
    | .ok next => some { loop with calls := ⟨interval, loop.now, next⟩ :: loop.calls }
    | .error _ => none
  | .set index =>
    if loop.worker = .locked then none
    else loop.calls[index]?.map (loop.applyCall index)
  | .drop =>
    if loop.worker = .locked then none else some { loop with ctl := { loop.ctl with stop := true } }
  | .wake =>
    match loop.worker with
    | .spawned | .waiting _ => some { loop with worker := .locked }
    | _ => none
  | .head =>
    if loop.worker = .locked then some { loop with worker := loopHead loop.now loop.ctl } else none
  | .rotated result =>
    match loop.worker with
    | .rotating every => some (loop.finishRotation policy every result)
    | _ => none

def run (policy : RotationErrorPolicy) (loop : Loop) : List LoopEvent → Option Loop
  | [] => some loop
  | event :: events => (loop.step policy event).bind fun next => next.run policy events

/-- The next rotation comes no later than one interval, as last set, after the last rotation
or the setting of the interval. -/
def Prompt (loop : Loop) : Prop :=
  loop.ctl.nextRotationAt ≤
    max loop.history.rotatedAt loop.history.setAt + loop.history.interval

instance (loop : Loop) : Decidable loop.Prompt := inferInstanceAs (Decidable (_ ≤ _))

/-- An interval that takes effect during a rotation is no shorter than the one the rotation
began with. -/
def harmless (loop : Loop) : LoopEvent → Bool
  | .set index =>
    match loop.worker, loop.calls[index]? with
    | .rotating every, some call => every ≤ call.interval
    | _, _ => true
  | _ => true

/-- Every event of the run is harmless. -/
def undisturbed (policy : RotationErrorPolicy) (loop : Loop) : List LoopEvent → Bool
  | [] => true
  | event :: events => loop.harmless event &&
    (loop.step policy event).all fun next => next.undisturbed policy events

/-- What the history says about the control state. The last to write `next_rotation_at` was
the thread, after a rotation, or the call that set the interval. -/
structure Tracked (loop : Loop) : Prop where
  set_past : loop.history.setAt ≤ loop.now
  calls : ∀ call ∈ loop.calls, call.readAt ≤ loop.now ∧ call.next = call.readAt + call.interval
  current : loop.ctl.rotateEvery = loop.history.interval
  written :
    loop.ctl.nextRotationAt = loop.history.rotatedAt + loop.history.planned ∧
      loop.history.setAt ≤ loop.history.rotatedAt ∨
    loop.ctl.nextRotationAt = loop.history.setAt + loop.history.interval ∧
      loop.history.planned = loop.history.interval

/-- The thread plans with no longer interval than the one last set. -/
structure Steady (loop : Loop) : Prop where
  planned : loop.history.planned ≤ loop.history.interval
  rotating : ∀ every, loop.worker = .rotating every → every ≤ loop.history.interval

end Loop

theorem checkedAdd_eq_some {now interval next : Nat} (added : checkedAdd now interval = some next) :
    next = now + interval := by
  unfold checkedAdd at added
  split at added
  · exact (Option.some.inj added).symm
  · cases added

theorem planInterval_eq_ok {now interval next : Nat} (planned : planInterval now interval = .ok next) :
    next = now + interval := by
  unfold planInterval at planned
  split at planned
  · cases planned
  · split at planned
    · next added =>
      cases planned
      exact checkedAdd_eq_some added
    · cases planned

theorem reschedule_eq_some {now every : Nat} {ctl ctl' : WorkerCtl}
    (rescheduled : reschedule now every ctl = some ctl') :
    ctl' = { ctl with nextRotationAt := now + every } := by
  unfold reschedule at rescheduled
  split at rescheduled
  · cases rescheduled
  · obtain ⟨next, added, rfl⟩ := Option.map_eq_some_iff.mp rescheduled
    rw [checkedAdd_eq_some added]

theorem loopHead_rotating {now every : Nat} {ctl : WorkerCtl}
    (due : loopHead now ctl = .rotating every) : every = ctl.rotateEvery := by
  unfold loopHead at due
  split at due
  · cases due
  · split at due
    · cases due
      rfl
    · cases due

namespace Loop
variable {policy : RotationErrorPolicy} {loop next : Loop} {event : LoopEvent}

/-- After a rotation the thread has ended, or it has planned the next one. -/
theorem finishRotation_cases (policy : RotationErrorPolicy) (loop : Loop) (every : Nat)
    (result : Except LithiumError Unit) :
    loop.finishRotation policy every result = { loop with worker := .ended } ∨
    loop.finishRotation policy every result =
      { loop with
        ctl := { loop.ctl with nextRotationAt := loop.now + every }
        worker := .locked
        history := { loop.history with rotatedAt := loop.now, planned := every } } := by
  simp only [finishRotation]
  split
  · exact .inl rfl
  · split
    · exact .inl rfl
    · next rescheduled =>
      rw [reschedule_eq_some rescheduled]
      exact .inr rfl

/-- Everything an event can do. -/
theorem step_cases (stepped : loop.step policy event = some next) :
    (∃ elapsed, event = .tick elapsed ∧ next = { loop with now := loop.now + elapsed }) ∨
    (∃ interval, event = .plan interval ∧ next =
      { loop with calls := ⟨interval, loop.now, loop.now + interval⟩ :: loop.calls }) ∨
    (∃ index call, event = .set index ∧ loop.calls[index]? = some call ∧
      next = loop.applyCall index call) ∨
    (∃ stop, next = { loop with ctl := { loop.ctl with stop } }) ∨
    (∃ worker, (∀ every, worker = .rotating every → every = loop.ctl.rotateEvery) ∧
      next = { loop with worker }) ∨
    (∃ every, loop.worker = .rotating every ∧ next =
      { loop with
        ctl := { loop.ctl with nextRotationAt := loop.now + every }
        worker := .locked
        history := { loop.history with rotatedAt := loop.now, planned := every } }) := by
  cases event with
  | tick elapsed =>
    cases stepped
    exact .inl ⟨elapsed, rfl, rfl⟩
  | plan interval =>
    simp only [step] at stepped
    split at stepped
    · next planned =>
      cases stepped
      rw [planInterval_eq_ok planned]
      exact .inr (.inl ⟨interval, rfl, rfl⟩)
    · cases stepped
  | set index =>
    simp only [step] at stepped
    split at stepped
    · cases stepped
    · obtain ⟨call, found, rfl⟩ := Option.map_eq_some_iff.mp stepped
      exact .inr (.inr (.inl ⟨index, call, rfl, found, rfl⟩))
  | drop =>
    simp only [step] at stepped
    split at stepped
    · cases stepped
    · cases stepped
      exact .inr (.inr (.inr (.inl ⟨true, rfl⟩)))
  | wake =>
    simp only [step] at stepped
    split at stepped
    · cases stepped
      exact .inr (.inr (.inr (.inr (.inl ⟨.locked, nofun, rfl⟩))))
    · cases stepped
      exact .inr (.inr (.inr (.inr (.inl ⟨.locked, nofun, rfl⟩))))
    · cases stepped
  | head =>
    simp only [step] at stepped
    split at stepped
    · cases stepped
      exact .inr (.inr (.inr (.inr (.inl ⟨_, fun every due => loopHead_rotating due, rfl⟩))))
    · cases stepped
  | rotated result =>
    simp only [step] at stepped
    split at stepped
    · next every rotating =>
      cases stepped
      obtain ended | planned := loop.finishRotation_cases policy every result
      · exact .inr (.inr (.inr (.inr (.inl ⟨.ended, nofun, ended⟩))))
      · exact .inr (.inr (.inr (.inr (.inr ⟨every, rotating, planned⟩))))
    · cases stepped

theorem Tracked.step (tracked : loop.Tracked) (stepped : loop.step policy event = some next) :
    next.Tracked := by
  obtain ⟨elapsed, _, rfl⟩ | ⟨interval, _, rfl⟩ | ⟨index, call, _, found, rfl⟩ | ⟨stop, rfl⟩ |
    ⟨worker, _, rfl⟩ | ⟨every, _, rfl⟩ := step_cases stepped
  · constructor
    · exact Nat.le_add_right_of_le tracked.set_past
    · intro call under
      obtain ⟨past, planned⟩ := tracked.calls call under
      exact ⟨Nat.le_add_right_of_le past, planned⟩
    · exact tracked.current
    · exact tracked.written
  · constructor
    · exact tracked.set_past
    · intro call under
      rcases List.mem_cons.mp under with rfl | under
      · exact ⟨le_rfl, rfl⟩
      · exact tracked.calls call under
    · exact tracked.current
    · exact tracked.written
  · -- the call writes both fields, so it is the last writer whatever the thread is doing
    obtain ⟨past, planned⟩ := tracked.calls call (List.mem_of_getElem? found)
    constructor
    · exact past
    · intro other under
      exact tracked.calls other (List.mem_of_mem_eraseIdx under)
    · rfl
    · exact .inr ⟨planned, rfl⟩
  · exact ⟨tracked.set_past, tracked.calls, tracked.current, tracked.written⟩
  · exact ⟨tracked.set_past, tracked.calls, tracked.current, tracked.written⟩
  · exact ⟨tracked.set_past, tracked.calls, tracked.current, .inl ⟨rfl, tracked.set_past⟩⟩

theorem Steady.step (steady : loop.Steady) (tracked : loop.Tracked) (harmless : loop.harmless event = true)
    (stepped : loop.step policy event = some next) : next.Steady := by
  obtain ⟨elapsed, _, rfl⟩ | ⟨interval, _, rfl⟩ | ⟨index, call, rfl, found, rfl⟩ | ⟨stop, rfl⟩ |
    ⟨worker, read, rfl⟩ | ⟨every, rotating, rfl⟩ := step_cases stepped
  · exact ⟨steady.planned, steady.rotating⟩
  · exact ⟨steady.planned, steady.rotating⟩
  · refine ⟨le_rfl, fun every (rotating : loop.worker = .rotating every) => ?_⟩
    simp only [Loop.harmless, rotating, found, decide_eq_true_eq] at harmless
    exact harmless
  · exact ⟨steady.planned, steady.rotating⟩
  · -- a rotation that begins now begins with the interval last set
    refine ⟨steady.planned, fun every rotating => ?_⟩
    rw [read every rotating, tracked.current]
  · exact ⟨steady.rotating every rotating, nofun⟩

theorem tracked_start {now rotateEvery : Nat} (begun : start now rotateEvery = some loop) :
    loop.Tracked ∧ loop.Steady := by
  unfold start at begun
  split at begun
  · cases begun
  · obtain ⟨next, added, rfl⟩ := Option.map_eq_some_iff.mp begun
    constructor
    · exact ⟨le_rfl, nofun, rfl, .inr ⟨checkedAdd_eq_some added, rfl⟩⟩
    · exact ⟨le_rfl, nofun⟩

theorem run_cons {events : List LoopEvent} (ran : loop.run policy (event :: events) = some next) :
    ∃ middle, loop.step policy event = some middle ∧ middle.run policy events = some next :=
  Option.bind_eq_some_iff.mp ran

theorem Tracked.run {events : List LoopEvent} (tracked : loop.Tracked)
    (ran : loop.run policy events = some next) : next.Tracked := by
  induction events generalizing loop with
  | nil =>
    cases ran
    exact tracked
  | cons event events ih =>
    obtain ⟨middle, stepped, rest⟩ := run_cons ran
    exact ih (tracked.step stepped) rest

theorem Steady.run {events : List LoopEvent} (steady : loop.Steady) (tracked : loop.Tracked)
    (undisturbed : loop.undisturbed policy events = true) (ran : loop.run policy events = some next) :
    next.Steady := by
  induction events generalizing loop with
  | nil =>
    cases ran
    exact steady
  | cons event events ih =>
    obtain ⟨middle, stepped, rest⟩ := run_cons ran
    simp only [Loop.undisturbed, stepped, Option.all_some, Bool.and_eq_true] at undisturbed
    exact ih (steady.step tracked undisturbed.1 stepped) (tracked.step stepped) undisturbed.2 rest

theorem Tracked.prompt_iff (tracked : loop.Tracked) :
    loop.Prompt ↔ loop.history.planned ≤ loop.history.interval := by
  unfold Prompt
  rcases tracked.written with ⟨written, later⟩ | ⟨written, same⟩
  · rw [written, max_eq_left later]
    exact Nat.add_le_add_iff_left
  · rw [written, same]
    constructor
    · intro _
      exact le_rfl
    · intro _
      exact Nat.add_le_add_right (le_max_right ..) _

end Loop

/-- In a run in which no interval shorter than the thread's own takes effect while the thread
rotates, the next rotation is promptly due at every moment, as the interval last set would have it.
In any run, a rotation that ends leaves it so exactly if it began with no longer interval than the
one in force. -/
theorem prompt_undisturbed {policy : RotationErrorPolicy} {now rotateEvery : Nat} {begun loop : Loop}
    {events : List LoopEvent} (started : Loop.start now rotateEvery = some begun)
    (ran : begun.run policy events = some loop) :
    (begun.undisturbed policy events = true → loop.Prompt) ∧
      ∀ every result next, loop.worker = .rotating every →
        loop.step policy (.rotated result) = some next → next.worker = .locked →
        (next.Prompt ↔ every ≤ loop.ctl.rotateEvery) := by
  obtain ⟨tracked, steady⟩ := Loop.tracked_start started
  have tracked' := tracked.run ran
  constructor
  · intro undisturbed
    exact tracked'.prompt_iff.mpr (steady.run tracked undisturbed ran).planned
  · intro every result next rotating stepped locked
    have after := tracked'.step stepped
    simp only [Loop.step, rotating, Option.some.injEq] at stepped
    subst stepped
    obtain ended | planned := loop.finishRotation_cases policy every result
    · rw [ended] at locked
      cases locked
    · rw [after.prompt_iff, planned, tracked'.current]

def hour : Nat := 3600000000000

def second : Nat := 1000000000

/-- A rotation that is due after an hour, during which the interval becomes `interval`. -/
def setDuringRotation (interval : Nat) : List LoopEvent :=
  [.tick hour, .wake, .head, .plan interval, .set 0, .tick second, .rotated (.ok ()), .head]

def hourly : Loop := ⟨0, ⟨false, hour, hour⟩, .spawned, [], ⟨hour, 0, 0, hour⟩⟩

/-- The thread is back to waiting; the interval was set an hour after the start. -/
def afterRotation (interval : Nat) : Loop where
  now := hour + second
  ctl := ⟨false, interval, hour + second + hour⟩
  worker := .waiting hour
  calls := []
  history := ⟨interval, hour, hour + second, hour⟩

/-- A longer interval set during a rotation does no harm. -/
theorem prompt_longer_interval :
    Loop.start 0 hour = some hourly ∧
      hourly.run .strict (setDuringRotation (2 * hour)) = some (afterRotation (2 * hour)) ∧
      (afterRotation (2 * hour)).Prompt := by
  have started : Loop.start 0 hour = some hourly := by decide +kernel
  have ran : hourly.run .strict (setDuringRotation (2 * hour)) = some (afterRotation (2 * hour)) := by
    decide +kernel
  exact ⟨started, ran, (prompt_undisturbed started ran).1 (by decide +kernel)⟩

/-- An interval of one second set during a rotation that began with one hour: the thread goes
back to waiting for another hour. -/
theorem shorter_interval_lost :
    Loop.start 0 hour = some hourly ∧
      hourly.run .strict (setDuringRotation second) = some (afterRotation second) ∧
      (afterRotation second).worker = .waiting hour ∧ ¬ (afterRotation second).Prompt := by
  refine ⟨?_, ?_, rfl, ?_⟩ <;> decide +kernel

end Lithium.Keys
