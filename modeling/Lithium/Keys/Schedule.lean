import Lithium.Effects.Monitor
import Lithium.Keys.Worker

/-! The rotation thread alongside calls of `set_rotate_interval` and the drop of its guard, with the
mutex and the condition variable they share. Both the calls and the drop notify after they let
go of the mutex. The thread lets go of it while it rotates. Seen without the condition
variable, this is the loop of `Worker`. -/
namespace Lithium.Keys
open Effects

/-- What is behind the mutex, with what has happened so far and the time at which the guard was
dropped. -/
structure Planned where
  ctl : WorkerCtl
  history : CallHistory
  stoppedAt : Option Nat

/-- Where the thread is in its loop: at its head, or behind a rotation that began with this
interval. -/
inductive RotationPlace where
  | head
  | rescheduling (every : Nat)
  deriving DecidableEq

inductive ControlCall where
  | setRotateInterval (interval : Nat)
  | drop

inductive ControlRequest where
  | set (call : IntervalCall)
  | drop
  deriving DecidableEq

/-- One stretch of the loop of `rotate_loop`. -/
def rotationTurn (now : Nat) (data : Planned) : RotationPlace → Planned × StretchEnd RotationPlace Nat
  | .head =>
    match loopHead now data.ctl with
    | .rotating every => (data, .leave every)
    | .waiting timeout => (data, .park (some timeout))
    | _ => (data, .finish)
  | .rescheduling every =>
    match reschedule now every data.ctl with
    | some ctl =>
      ({ data with ctl, history := { data.history with rotatedAt := now, planned := every } }, .stay .head)
    | none => (data, .finish)

def askControl (now : Nat) : ControlCall → Option ControlRequest
  | .setRotateInterval interval =>
    match planInterval now interval with
    | .ok next => some (.set ⟨interval, now, next⟩)
    | .error _ => none
  | .drop => some .drop

def serveControl (now : Nat) (data : Planned) : ControlRequest → Planned × Notice
  | .set call =>
    ({ data with
       ctl := call.apply data.ctl
       history := { data.history with
         interval := call.interval, setAt := call.readAt, planned := call.interval } }, .after)
  | .drop =>
    ({ data with
       ctl := { data.ctl with stop := true }
       stoppedAt := if data.ctl.stop then data.stoppedAt else some now }, .after)

def rotationMonitor (policy : RotationErrorPolicy) : Monitor Planned RotationPlace Nat
    (Except LithiumError Unit) ControlCall ControlRequest where
  home := .head
  turn := rotationTurn
  back every result := if rotationStops policy result then none else some (.rescheduling every)
  ask now _ := askControl now
  serve now request data := serveControl now data request

def spawned (ι : Type) (loop : Loop) : Monitored ι Planned RotationPlace Nat ControlRequest where
  now := loop.now
  data := ⟨loop.ctl, loop.history, none⟩
  phase := .entering .head
  since := loop.now
  requests _ := none
  owed := []

/-- The next rotation, as long as the guard is there. -/
def rotationDeadline (delay : Nat) : Monitor.Deadline Planned RotationPlace where
  due data := if data.ctl.stop then none else some data.ctl.nextRotationAt
  allowance
    | .head => some (3 * delay)
    | .rescheduling _ => none
  early := 0
  fits _ _ := True

/-- The end of the thread, once the guard is dropped. -/
def dropDeadline (delay : Nat) : Monitor.Deadline Planned RotationPlace where
  due data := if data.ctl.stop then data.stoppedAt else none
  allowance
    | .head => some (3 * delay)
    | .rescheduling _ => none
  early := 0
  fits _ _ := True

theorem rotationDeadline_due {delay d : Nat} {data : Planned} :
    d ∈ (rotationDeadline delay).due data ↔ data.ctl.stop = false ∧ d = data.ctl.nextRotationAt := by
  cases stop : data.ctl.stop with
  | true => simp [rotationDeadline, stop]
  | false =>
    simp only [rotationDeadline, stop, Bool.false_eq_true, if_false, Option.mem_some_iff, true_and]
    exact eq_comm

theorem dropDeadline_due {delay d : Nat} {data : Planned} :
    d ∈ (dropDeadline delay).due data ↔ data.ctl.stop = true ∧ d ∈ data.stoppedAt := by
  cases stop : data.ctl.stop <;> simp [dropDeadline, stop]

section
variable {policy : RotationErrorPolicy} {delay : Nat}

/-- The thread waits only if the guard is there and the rotation is not due. -/
theorem rotationTurn_head (now : Nat) (data : Planned) :
    (data.ctl.stop = true ∧ rotationTurn now data .head = (data, .finish)) ∨
    (data.ctl.stop = false ∧ data.ctl.nextRotationAt ≤ now ∧
      rotationTurn now data .head = (data, .leave data.ctl.rotateEvery)) ∨
    (data.ctl.stop = false ∧ now < data.ctl.nextRotationAt ∧
      rotationTurn now data .head = (data, .park (some (data.ctl.nextRotationAt - now)))) := by
  by_cases stop : data.ctl.stop = true
  · exact .inl ⟨stop, by simp [rotationTurn, loopHead, stop]⟩
  · have running := Bool.eq_false_iff.mpr stop
    by_cases due : data.ctl.nextRotationAt ≤ now
    · exact .inr (.inl ⟨running, due, by simp [rotationTurn, loopHead, running, due]⟩)
    · exact .inr (.inr ⟨running, Nat.lt_of_not_le due, by simp [rotationTurn, loopHead, running, due]⟩)

theorem rotationTurn_rescheduling (now every : Nat) (data : Planned) :
    rotationTurn now data (.rescheduling every) = (data, .finish) ∨
    (data.ctl.stop = false ∧ rotationTurn now data (.rescheduling every) =
      ({ data with
         ctl := { data.ctl with nextRotationAt := now + every }
         history := { data.history with rotatedAt := now, planned := every } }, .stay .head)) := by
  simp only [rotationTurn]
  split
  · next ctl planned =>
    have running : data.ctl.stop = false := by
      by_contra stop
      simp [reschedule, stop] at planned
    rw [reschedule_eq_some planned]
    exact .inr ⟨running, rfl⟩
  · exact .inl rfl

theorem askControl_set {now interval : Nat} {request : ControlRequest}
    (made : askControl now (.setRotateInterval interval) = some request) :
    planInterval now interval = .ok (now + interval) ∧ request = .set ⟨interval, now, now + interval⟩ := by
  simp only [askControl] at made
  split at made
  · next next planned =>
    cases made
    obtain rfl := planInterval_eq_ok planned
    exact ⟨planned, rfl⟩
  · cases made

theorem back_rescheduling {every : Nat} {result : Except LithiumError Unit} {place : RotationPlace}
    (returned : (rotationMonitor policy).back every result = some place) :
    place = .rescheduling every := by
  simp only [rotationMonitor] at returned
  split at returned
  · cases returned
  · cases returned
    rfl

theorem rotation_heeds : (rotationMonitor policy).Heeds (rotationDeadline delay) delay where
  home := ⟨fun _ => trivial, 3 * delay, rfl, by show 0 + 3 * delay ≤ 3 * delay; omega⟩
  back every result place returned := by
    obtain rfl := back_rescheduling returned
    exact ⟨fun _ => trivial, rfl⟩
  turn now data place _ late := by
    show Monitor.Deadline.Kept _ now (rotationTurn now data place).1 (rotationTurn now data place).2
    cases place with
    | head =>
      obtain ⟨_, turned⟩ | ⟨_, _, turned⟩ | ⟨running, before, turned⟩ := rotationTurn_head now data
      · rw [turned]; trivial
      · rw [turned]; trivial
      · rw [turned]
        intro d due
        obtain ⟨_, rfl⟩ := rotationDeadline_due.mp due
        exact ⟨Nat.le_add_right_of_le before.le, _, rfl, le_rfl⟩
    | rescheduling every =>
      obtain turned | ⟨running, turned⟩ := rotationTurn_rescheduling now every data
      · rw [turned]; trivial
      · rw [turned]
        refine ⟨trivial, ?_⟩
        rintro allowed ⟨⟩ d due
        obtain ⟨_, rfl⟩ := rotationDeadline_due.mp due
        show now ≤ now + every + 3 * delay
        omega
  serve asked now before call request data made past late := by
    intro d due
    cases call with
    | drop =>
      cases made
      cases due
    | setRotateInterval interval =>
      obtain ⟨_, rfl⟩ := askControl_set made
      obtain ⟨_, rfl⟩ := rotationDeadline_due.mp due
      refine .inr ⟨by simp [rotationMonitor, serveControl], ?_⟩
      show now ≤ asked + interval + delay
      omega

theorem drop_heeds : (rotationMonitor policy).Heeds (dropDeadline delay) delay where
  home := ⟨fun _ => trivial, 3 * delay, rfl, by show 0 + 3 * delay ≤ 3 * delay; omega⟩
  back every result place returned := by
    obtain rfl := back_rescheduling returned
    exact ⟨fun _ => trivial, rfl⟩
  turn now data place _ late := by
    show Monitor.Deadline.Kept _ now (rotationTurn now data place).1 (rotationTurn now data place).2
    cases place with
    | head =>
      obtain ⟨_, turned⟩ | ⟨_, _, turned⟩ | ⟨running, _, turned⟩ := rotationTurn_head now data
      · rw [turned]; trivial
      · rw [turned]; trivial
      · rw [turned]
        intro d due
        cases running.symm.trans (dropDeadline_due.mp due).1
    | rescheduling every =>
      obtain turned | ⟨running, turned⟩ := rotationTurn_rescheduling now every data
      · rw [turned]; trivial
      · rw [turned]
        refine ⟨trivial, fun allowed _ d due => ?_⟩
        cases running.symm.trans (dropDeadline_due.mp due).1
  serve asked now before call request data made past late := by
    intro d due
    cases call with
    | drop =>
      cases made
      have since := (dropDeadline_due.mp due).2
      simp only [rotationMonitor, serveControl] at since ⊢
      split at since
      · next stopped => exact .inl ⟨d, dropDeadline_due.mpr ⟨stopped, since⟩, le_rfl⟩
      · cases since
        exact .inr ⟨by decide, Nat.le_add_right ..⟩
    | setRotateInterval interval =>
      obtain ⟨_, rfl⟩ := askControl_set made
      have same : d ∈ (dropDeadline delay).due data := due
      exact .inl ⟨d, same, le_rfl⟩

end

/-- Where the thread of the loop is. It takes note of the lock only to look at what is behind it,
and of the end of a rotation only when it has the lock back. -/
def Alongside : Phase RotationPlace Nat → Worker → Prop
  | .entering .head, worker => worker = .spawned ∨ ∃ timeout, worker = .waiting timeout
  | .inside .head, worker => worker = .locked
  | .parking _, worker | .waiting _, worker => ∃ timeout, worker = .waiting timeout
  | .away every, worker | .entering (.rescheduling every), worker
  | .inside (.rescheduling every), worker => worker = .rotating every
  | .ended, worker => worker = .ended

/-- The calls of the loop are the requests for an interval. -/
def Pending {ι : Type} (requests : ι → Option (Nat × ControlRequest)) (calls : List IntervalCall) : Prop :=
  ∃ pending : List (ι × IntervalCall), (pending.map Prod.fst).Nodup ∧ calls = pending.map Prod.snd ∧
    ∀ i call, (i, call) ∈ pending ↔ ∃ asked, requests i = some (asked, .set call)

structure Matches {ι : Type} (s : Monitored ι Planned RotationPlace Nat ControlRequest) (loop : Loop) :
    Prop where
  now : loop.now = s.now
  ctl : loop.ctl = s.data.ctl
  history : loop.history = s.data.history
  calls : Pending s.requests loop.calls
  worker : Alongside s.phase loop.worker

section
variable {ι : Type} [DecidableEq ι] {policy : RotationErrorPolicy}
  {requests : ι → Option (Nat × ControlRequest)} {calls : List IntervalCall} {i : ι}

theorem Pending.ask (pending : Pending requests calls) (idle : requests i = none) (asked : Nat)
    (call : IntervalCall) :
    Pending (Function.update requests i (some (asked, .set call))) (call :: calls) := by
  obtain ⟨pending, distinct, rfl, made⟩ := pending
  have fresh : ∀ call, (i, call) ∉ pending := by
    intro call member
    obtain ⟨asked, there⟩ := (made i call).mp member
    cases idle.symm.trans there
  refine ⟨(i, call) :: pending, ?_, rfl, fun j other => ?_⟩
  · refine List.nodup_cons.mpr ⟨fun member => ?_, distinct⟩
    obtain ⟨⟨_, earlier⟩, there, rfl⟩ := List.mem_map.mp member
    exact fresh earlier there
  · by_cases same : j = i
    · subst same
      simp only [List.mem_cons, Prod.mk.injEq, true_and, Function.update_self, Option.some.injEq,
        ControlRequest.set.injEq, exists_eq_left']
      constructor
      · rintro (rfl | member)
        · rfl
        · exact absurd member (fresh other)
      · exact fun eq => .inl eq.symm
    · simp only [List.mem_cons, Prod.mk.injEq, same, false_and, false_or, Function.update_of_ne, ne_eq,
        not_false_eq_true]
      exact made j other

theorem Pending.drop (pending : Pending requests calls) (request : Option (Nat × ControlRequest))
    (before : ∀ asked call, requests i ≠ some (asked, .set call))
    (after : ∀ asked call, request ≠ some (asked, .set call)) :
    Pending (Function.update requests i request) calls := by
  obtain ⟨pending, distinct, rfl, made⟩ := pending
  refine ⟨pending, distinct, rfl, fun j call => ?_⟩
  by_cases same : j = i
  · subst same
    rw [made, Function.update_self]
    constructor
    · rintro ⟨asked, there⟩
      exact absurd there (before asked call)
    · rintro ⟨asked, there⟩
      exact absurd there (after asked call)
  · rw [made, Function.update_of_ne same]

theorem Pending.serve (pending : Pending requests calls) {asked : Nat} {call : IntervalCall}
    (next : requests i = some (asked, .set call)) :
    ∃ index, calls[index]? = some call ∧
      Pending (Function.update requests i none) (calls.eraseIdx index) := by
  obtain ⟨pending, distinct, rfl, made⟩ := pending
  obtain ⟨front, rest, rfl⟩ := List.append_of_mem ((made i call).mpr ⟨asked, next⟩)
  have erased : ((front ++ (i, call) :: rest).map Prod.snd).eraseIdx front.length =
      (front ++ rest).map Prod.snd := by
    rw [List.eraseIdx_map, List.eraseIdx_append_of_length_le (le_refl _), Nat.sub_self, List.eraseIdx_cons_zero]
  rw [List.map_append, List.map_cons, List.nodup_middle, List.nodup_cons, ← List.map_append] at distinct
  refine ⟨front.length, by simp, front ++ rest, distinct.2, erased, fun j other => ?_⟩
  by_cases same : j = i
  · subst same
    rw [Function.update_self]
    constructor
    · intro member
      exact absurd (List.mem_map_of_mem (f := Prod.fst) member) distinct.1
    · rintro ⟨_, none⟩
      cases none
  · rw [Function.update_of_ne same, ← made]
    simp [same]

theorem Loop.run_append {loop middle last : Loop} {events more : List LoopEvent}
    (ran : loop.run policy events = some middle) (rest : middle.run policy more = some last) :
    loop.run policy (events ++ more) = some last := by
  induction events generalizing loop with
  | nil =>
    cases ran
    exact rest
  | cons event events ih =>
    obtain ⟨next, stepped, after⟩ := Loop.run_cons ran
    exact Option.bind_eq_some_iff.mpr ⟨next, stepped, ih after⟩

theorem Alongside.unlocked {phase : Phase RotationPlace Nat} {worker : Worker} (alongside : Alongside phase worker)
    (free : phase.holds = false) : worker ≠ .locked := by
  rintro rfl
  cases phase with
  | entering place =>
    cases place with
    | head =>
      obtain spawned | ⟨_, waiting⟩ := alongside
      · cases spawned
      · cases waiting
    | rescheduling every => cases alongside
  | inside place => cases free
  | parking timeout => cases free
  | waiting alarm =>
    obtain ⟨_, waiting⟩ := alongside
    cases waiting
  | away every => cases alongside
  | ended => cases alongside

variable {s s' : Monitored ι Planned RotationPlace Nat ControlRequest} {loop : Loop}

omit [DecidableEq ι] in
theorem Matches.notified (same : Matches s loop) : Matches (s.notified .head) loop := by
  unfold Monitored.notified
  split
  · next alarm waiting =>
    have worker := same.worker
    rw [waiting] at worker
    exact ⟨same.now, same.ctl, same.history, same.calls, .inr worker⟩
  · exact same

theorem Matches.serve (same : Matches s loop) (free : s.phase.holds = false) {asked : Nat}
    {request : ControlRequest} (next : s.requests i = some (asked, request)) :
    ∃ event loop', loop.step policy event = some loop' ∧
      Matches ((rotationMonitor policy).served s i (serveControl s.now s.data request).1
        (serveControl s.now s.data request).2) loop' := by
  have unlocked := same.worker.unlocked free
  cases request with
  | set call =>
    obtain ⟨index, found, calls⟩ := same.calls.serve next
    refine ⟨.set index, loop.applyCall index call, ?_, same.now, ?_, ?_, calls, same.worker⟩
    · simp [Loop.step, unlocked, found]
    · show call.apply loop.ctl = call.apply s.data.ctl
      rw [same.ctl]
    · show { loop.history with interval := call.interval, setAt := call.readAt, planned := call.interval } =
        { s.data.history with interval := call.interval, setAt := call.readAt, planned := call.interval }
      rw [same.history]
  | drop =>
    have calls := same.calls.drop (i := i) none (fun _ _ there => by cases next.symm.trans there)
      fun _ _ none => by cases none
    refine ⟨.drop, { loop with ctl := { loop.ctl with stop := true } }, ?_, same.now, ?_, same.history,
      calls, same.worker⟩
    · simp [Loop.step, unlocked]
    · show { loop.ctl with stop := true } = { s.data.ctl with stop := true }
      rw [same.ctl]

omit [DecidableEq ι] in
theorem Matches.turn (same : Matches s loop) {place : RotationPlace} (inside : s.phase = .inside place) :
    ∃ event loop', loop.step policy event = some loop' ∧
      Matches (s.turned (rotationTurn s.now s.data place).1 (rotationTurn s.now s.data place).2) loop' := by
  have worker := same.worker
  rw [inside] at worker
  cases place with
  | head =>
    have worker : loop.worker = .locked := worker
    refine ⟨.head, { loop with worker := loopHead loop.now loop.ctl }, by simp [Loop.step, worker], ?_⟩
    have moved : ∀ phase, Alongside phase (loopHead s.now s.data.ctl) →
        Matches (s.move phase) { loop with worker := loopHead loop.now loop.ctl } := by
      intro phase alongside
      refine ⟨same.now, same.ctl, same.history, same.calls, ?_⟩
      show Alongside phase (loopHead loop.now loop.ctl)
      rw [same.now, same.ctl]
      exact alongside
    obtain ⟨stop, turned⟩ | ⟨running, due, turned⟩ | ⟨running, before, turned⟩ :=
      rotationTurn_head s.now s.data
    · rw [turned]
      exact moved .ended (by simp [loopHead, stop, Alongside])
    · rw [turned]
      exact moved (.away _) (by simp [loopHead, running, due, Alongside])
    · rw [turned]
      exact moved (.parking _) (by simp [loopHead, running, Nat.not_le_of_lt before, Alongside])
  | rescheduling every =>
    have worker : loop.worker = .rotating every := worker
    refine ⟨.rotated (.ok ()), loop.finishRotation policy every (.ok ()), by simp [Loop.step, worker], ?_⟩
    cases planned : reschedule s.now every s.data.ctl with
    | none =>
      have stops : loop.finishRotation policy every (.ok ()) = { loop with worker := .ended } := by
        simp [Loop.finishRotation, rotationStops, same.now, same.ctl, planned]
      rw [stops]
      simp only [rotationTurn, planned]
      exact ⟨same.now, same.ctl, same.history, same.calls, rfl⟩
    | some ctl =>
      have on : loop.finishRotation policy every (.ok ()) = { loop with
          ctl := ctl, worker := .locked
          history := { loop.history with rotatedAt := loop.now, planned := every } } := by
        simp [Loop.finishRotation, rotationStops, same.now, same.ctl, planned]
      rw [on]
      simp only [rotationTurn, planned]
      refine ⟨same.now, rfl, ?_, same.calls, rfl⟩
      show { loop.history with rotatedAt := loop.now, planned := every } =
        { s.data.history with rotatedAt := s.now, planned := every }
      rw [same.history, same.now]

/-- Every event of the thread and of those that talk to it is none or one of the loop. -/
theorem Matches.step {event : MonitorEvent ι (Except LithiumError Unit) ControlCall}
    (same : Matches s loop) (happens : (rotationMonitor policy).Happens s event s') :
    ∃ events loop', loop.run policy events = some loop' ∧ Matches s' loop' := by
  -- one event of the loop, or none at all
  have once : ∀ {s' : Monitored ι Planned RotationPlace Nat ControlRequest},
      (∃ event loop', loop.step policy event = some loop' ∧ Matches s' loop') →
      ∃ events loop', loop.run policy events = some loop' ∧ Matches s' loop' := by
    rintro s' ⟨event, loop', stepped, matched⟩
    exact ⟨[event], loop', Option.bind_eq_some_iff.mpr ⟨loop', stepped, rfl⟩, matched⟩
  have still : ∀ {s' : Monitored ι Planned RotationPlace Nat ControlRequest}, Matches s' loop →
      ∃ events loop', loop.run policy events = some loop' ∧ Matches s' loop' :=
    fun matched => ⟨[], loop, rfl, matched⟩
  have worker := same.worker
  cases happens with
  | tick elapsed =>
    refine once ⟨.tick elapsed, _, rfl, ?_, same.ctl, same.history, same.calls, same.worker⟩
    show loop.now + elapsed = s.now + elapsed
    rw [same.now]
  | @ask i call request idle made =>
    cases call with
    | drop =>
      cases made
      have calls := same.calls.drop (i := i) (some (s.now, .drop))
        (fun _ _ there => by cases idle.symm.trans there) fun _ _ there => by cases there
      exact still ⟨same.now, same.ctl, same.history, calls, same.worker⟩
    | setRotateInterval interval =>
      obtain ⟨planned, rfl⟩ := askControl_set made
      refine once ⟨.plan interval,
        { loop with calls := ⟨interval, s.now, s.now + interval⟩ :: loop.calls }, ?_, same.now, same.ctl,
        same.history, same.calls.ask idle s.now ⟨interval, s.now, s.now + interval⟩, same.worker⟩
      rw [← same.now] at planned ⊢
      simp [Loop.step, planned]
  | @serve i asked request free next => exact once (same.serve free next)
  | notify => exact still (Matches.notified ⟨same.now, same.ctl, same.history, same.calls, same.worker⟩)
  | @enter place entering =>
    rw [entering] at worker
    cases place with
    | head =>
      refine once ⟨.wake, { loop with worker := .locked }, ?_, same.now, same.ctl, same.history, same.calls, rfl⟩
      obtain spawned | ⟨timeout, waiting⟩ := worker
      · simp [Loop.step, spawned]
      · simp [Loop.step, waiting]
    | rescheduling every => exact still ⟨same.now, same.ctl, same.history, same.calls, worker⟩
  | turn inside => exact once (same.turn inside)
  | sleep parking =>
    rw [parking] at worker
    exact still ⟨same.now, same.ctl, same.history, same.calls, worker⟩
  | wake waiting =>
    rw [waiting] at worker
    exact still ⟨same.now, same.ctl, same.history, same.calls, .inr worker⟩
  | @back every result away =>
    rw [away] at worker
    have worker : loop.worker = .rotating every := worker
    by_cases stops : rotationStops policy result = true
    · refine once ⟨.rotated result, { loop with worker := .ended }, ?_, ?_⟩
      · simp [Loop.step, worker, Loop.finishRotation, stops]
      · simp only [rotationMonitor, stops, if_true]
        exact ⟨same.now, same.ctl, same.history, same.calls, rfl⟩
    · simp only [rotationMonitor, stops]
      exact still ⟨same.now, same.ctl, same.history, same.calls, worker⟩

variable {delay now every : Nat} {begun : Loop}

/-- The drop of the guard is noted where `stop` is set. -/
def DropNoted (data : Planned) : Prop := data.ctl.stop = data.stoppedAt.isSome

theorem DropNoted.step {event : MonitorEvent ι (Except LithiumError Unit) ControlCall}
    (noted : DropNoted s.data) (happens : (rotationMonitor policy).Happens s event s') :
    DropNoted s'.data := by
  cases happens with
  | tick | ask | enter | sleep | wake | back => exact noted
  | notify =>
    rw [Monitored.notified_data]
    exact noted
  | @serve i asked request _ _ =>
    rw [Monitor.served_data]
    cases request with
    | set call => exact noted
    | drop =>
      simp only [rotationMonitor, serveControl, DropNoted]
      split
      · next stopped => rw [← noted, stopped]
      · rfl
  | @turn place _ =>
    show DropNoted (s.turned (rotationTurn s.now s.data place).1 (rotationTurn s.now s.data place).2).data
    cases place with
    | head =>
      obtain ⟨_, turned⟩ | ⟨_, _, turned⟩ | ⟨_, _, turned⟩ := rotationTurn_head s.now s.data <;>
        rw [turned] <;> exact noted
    | rescheduling every =>
      obtain turned | ⟨_, turned⟩ := rotationTurn_rescheduling s.now every s.data <;>
        rw [turned] <;> exact noted

theorem Loop.start_fresh (started : Loop.start now every = some begun) :
    begun.ctl.stop = false ∧ begun.worker = .spawned ∧ begun.calls = [] ∧
      begun.now ≤ begun.ctl.nextRotationAt := by
  unfold Loop.start at started
  split at started
  · cases started
  · obtain ⟨next, added, rfl⟩ := Option.map_eq_some_iff.mp started
    refine ⟨rfl, rfl, rfl, ?_⟩
    rw [checkedAdd_eq_some added]
    exact Nat.le_add_right ..

/-- Every run is one of the loop, and both deadlines are attended to. -/
theorem spawned_reached (started : Loop.start now every = some begun)
    (reached : (rotationMonitor policy).Reached delay (spawned ι begun) s) :
    s.Punctual delay ∧ (∃ events loop, begun.run policy events = some loop ∧ Matches s loop) ∧
      DropNoted s.data ∧ (rotationDeadline delay).Timely delay s ∧ (dropDeadline delay).Timely delay s := by
  obtain ⟨running, worker, empty, ahead⟩ := Loop.start_fresh started
  have orderly : (rotationMonitor policy).Orderly (spawned ι begun) :=
    ⟨le_rfl, fun _ request none => by cases none⟩
  have punctual : (spawned ι begun).Punctual delay :=
    ⟨by rintro t ⟨⟩; exact Nat.le_add_right .., fun _ request none => (by cases none),
      fun t none => by cases none⟩
  have same : Matches (spawned ι begun) begun := by
    refine ⟨rfl, rfl, rfl, ⟨[], List.nodup_nil, empty, fun i call => ?_⟩, .inl worker⟩
    constructor
    · rintro ⟨⟩
    · rintro ⟨_, ⟨⟩⟩
  have rotation : (rotationDeadline delay).Timely delay (spawned ι begun) := by
    refine ⟨fun _ => trivial, ?_⟩
    rintro allowed ⟨⟩
    refine ⟨by show 0 + 3 * delay ≤ 3 * delay; omega, fun d due => ?_⟩
    obtain ⟨_, rfl⟩ := rotationDeadline_due.mp due
    show begun.now + delay ≤ begun.ctl.nextRotationAt + 3 * delay
    omega
  have drop : (dropDeadline delay).Timely delay (spawned ι begun) := by
    refine ⟨fun _ => trivial, ?_⟩
    rintro allowed ⟨⟩
    refine ⟨by show 0 + 3 * delay ≤ 3 * delay; omega, fun d due => ?_⟩
    cases (dropDeadline_due.mp due).2
  refine (Monitor.Reached.keeps (fun s =>
    (∃ events loop, begun.run policy events = some loop ∧ Matches s loop) ∧ DropNoted s.data ∧
      (rotationDeadline delay).Timely delay s ∧ (dropDeadline delay).Timely delay s) orderly punctual
    ⟨⟨[], begun, rfl, same⟩, running, rotation, drop⟩ ?_ reached).2
  rintro s event s' orderly punctual ⟨⟨events, loop, ran, same⟩, noted, rotation, drop⟩ happens
  obtain ⟨more, loop', on, same'⟩ := same.step happens
  exact ⟨⟨events ++ more, loop', Loop.run_append ran on, same'⟩, noted.step happens,
    rotation_heeds.step orderly rotation punctual happens, drop_heeds.step orderly drop punctual happens⟩

/-- The thread rotates, or it has and is about to plan the next rotation. -/
def Rotating : Phase RotationPlace Nat → Prop
  | .away _ | .entering (.rescheduling _) | .inside (.rescheduling _) => True
  | _ => False

omit [DecidableEq ι] in
/-- Nothing but a rotation keeps the thread from a deadline. -/
theorem prompt_or_rotating {D : Monitor.Deadline Planned RotationPlace} (early : D.early = 0)
    (head : D.allowance .head = some (3 * delay)) (others : ∀ every, D.allowance (.rescheduling every) = none)
    (timely : D.Timely delay s) (punctual : s.Punctual delay) {d : Nat} (due : d ∈ D.due s.data) :
    Rotating s.phase ∨ s.phase = .ended ∨ s.now ≤ d + 4 * delay := by
  have allowances : ∀ place, ∀ allowed ∈ D.allowance place, allowed + delay ≤ 4 * delay := by
    intro place allowed allows
    cases place with
    | head =>
      cases head.symm.trans allows
      omega
    | rescheduling every => cases (others every).symm.trans allows
  obtain suspended | prompt := timely.prompt (4 * delay) punctual (by omega) allowances due
  · cases here : s.phase with
    | entering place =>
      rw [here] at suspended
      cases place with
      | head => cases head.symm.trans suspended
      | rescheduling every => exact .inl trivial
    | inside place =>
      rw [here] at suspended
      cases place with
      | head => cases head.symm.trans suspended
      | rescheduling every => exact .inl trivial
    | parking | waiting => rw [here] at suspended; exact suspended.elim
    | away every => exact .inl trivial
    | ended => exact .inr (.inl rfl)
  · exact .inr (.inr prompt)

theorem Loop.Tracked.next_le {loop : Loop} (tracked : loop.Tracked) :
    loop.ctl.nextRotationAt ≤ max loop.history.rotatedAt loop.history.setAt +
      max loop.history.planned loop.history.interval := by
  obtain ⟨written, _⟩ | ⟨written, _⟩ := tracked.written
  · rw [written]
    exact Nat.add_le_add (le_max_left ..) (le_max_left ..)
  · rw [written]
    exact Nat.add_le_add (le_max_right ..) (le_max_right ..)

/-- If no thread is held up for longer than `delay`, then as long as the guard is there the
thread rotates, has ended by itself, or at most four times as long has passed since the next
rotation was due; it is due one interval after the end of the last rotation or the last change
of the interval, where the interval is the one last set or the one the last rotation began
with. Four times as long after the drop of the guard the thread has ended or is rotating. -/
theorem rotation_in_time (started : Loop.start now every = some begun)
    (reached : (rotationMonitor policy).Reached delay (spawned ι begun) s) :
    (s.data.ctl.stop = false → Rotating s.phase ∨ s.phase = .ended ∨
      s.now ≤ max s.data.history.rotatedAt s.data.history.setAt +
        max s.data.history.planned s.data.history.interval + 4 * delay) ∧
    ∀ stopped, s.data.stoppedAt = some stopped →
      Rotating s.phase ∨ s.phase = .ended ∨ s.now ≤ stopped + 4 * delay := by
  obtain ⟨punctual, ⟨events, loop, ran, same⟩, noted, rotation, drop⟩ := spawned_reached started reached
  constructor
  · intro running
    have due : s.data.ctl.nextRotationAt ∈ (rotationDeadline delay).due s.data :=
      rotationDeadline_due.mpr ⟨running, rfl⟩
    have planned := ((Loop.tracked_start started).1.run ran).next_le
    rw [same.ctl, same.history] at planned
    obtain rotating | ended | prompt :=
      prompt_or_rotating rfl rfl (fun _ => rfl) rotation punctual due
    · exact .inl rotating
    · exact .inr (.inl ended)
    · exact .inr (.inr (by omega))
  · intro stopped since
    have flagged : s.data.ctl.stop = true := by
      rw [show s.data.ctl.stop = s.data.stoppedAt.isSome from noted, since]
      rfl
    exact prompt_or_rotating rfl rfl (fun _ => rfl) drop punctual (dropDeadline_due.mpr ⟨flagged, since⟩)

end

/-- With an hour between rotations the interval becomes a second. The thread is told while it
waits, rotates a second later and waits again. -/
def soonerRotation : List (MonitorEvent (Fin 1) (Except LithiumError Unit) ControlCall) :=
  [.enter, .turn, .sleep, .tick 5, .ask 0 (.setRotateInterval second), .serve 0, .tick 1, .notify 0,
    .enter, .turn, .sleep, .tick second, .wake, .enter, .turn, .tick (3 * second), .back (.ok ()), .enter,
    .turn, .tick 1, .turn, .sleep]

theorem rotation_in_time_sooner :
    ∃ s : Monitored (Fin 1) Planned RotationPlace Nat ControlRequest,
      (rotationMonitor .strict).replay 1 (spawned (Fin 1) hourly) soonerRotation = some s ∧
      s.now = 4 * second + 7 ∧ s.data.history = ⟨second, 5, 4 * second + 6, second⟩ ∧
      (Rotating s.phase ∨ s.phase = .ended ∨
        s.now ≤ max s.data.history.rotatedAt s.data.history.setAt +
          max s.data.history.planned s.data.history.interval + 4 * 1) := by
  have started : Loop.start 0 hour = some hourly := by decide +kernel
  have checked : ((rotationMonitor .strict).replay 1 (spawned (Fin 1) hourly) soonerRotation).map
      (fun s => (s.now, s.data.history, s.data.ctl.stop)) =
      some (4 * second + 7, ⟨second, 5, 4 * second + 6, second⟩, false) := by
    decide +kernel
  obtain ⟨s, ran, same⟩ := Option.map_eq_some_iff.mp checked
  simp only [Prod.mk.injEq] at same
  obtain ⟨now, history, running⟩ := same
  exact ⟨s, ran, now, history, (rotation_in_time started (Monitor.reached_of_replay _ .start ran)).1 running⟩

end Lithium.Keys
