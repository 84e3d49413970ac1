import Mathlib.Data.Fintype.Basic
import Mathlib.Order.Basic

/-! A thread that works under a mutex and waits on a condition variable, and other threads that
come to the same mutex. Time is a number. The thread may wake for no reason; a notification
that is made while it does not wait is lost. Nothing bounds how long a step is held up: the
runs in which no thread is held up for longer than a given time are a condition on the states
of a run. In those a deadline kept under the mutex is attended to in bounded time. -/
namespace Lithium.Effects

/-- How a stretch of work under the mutex ends. -/
inductive StretchEnd (Place Work : Type) where
  | stay (place : Place)
  | park (timeout : Option Nat)
  | leave (work : Work)
  | finish

/-- Where the thread is. It holds the mutex in `inside` and `parking`. -/
inductive Phase (Place Work : Type) where
  | entering (place : Place)
  | inside (place : Place)
  | parking (timeout : Option Nat)
  | waiting (alarm : Option Nat)
  | away (work : Work)
  | ended
  deriving DecidableEq

/-- When a thread notifies after its section: never, before or after it lets go of the mutex. -/
inductive Notice where
  | none
  | within
  | after
  deriving DecidableEq

structure Monitor (Data Place Work Result Call Request : Type) where
  /-- Where the thread goes on when it has waited. -/
  home : Place
  /-- What the thread does under the mutex, from one reading of the clock. -/
  turn : Nat → Data → Place → Data × StretchEnd Place Work
  /-- Where the thread comes back to the mutex after work with this result, if it does. -/
  back : Work → Result → Option Place
  /-- What another thread does before it asks for the mutex. -/
  ask : Nat → Data → Call → Option Request
  /-- What it does under the mutex. -/
  serve : Nat → Request → Data → Data × Notice

/-- The requests of the other threads carry the time they were made. `owed` has the times at
which sections ended whose notification is yet to come. -/
structure Monitored (ι Data Place Work Request : Type) where
  now : Nat
  data : Data
  phase : Phase Place Work
  since : Nat
  requests : ι → Option (Nat × Request)
  owed : List Nat

inductive MonitorEvent (ι Result Call : Type) where
  | tick (elapsed : Nat)
  | ask (i : ι) (call : Call)
  | serve (i : ι)
  | notify (index : Nat)
  | enter
  | turn
  | sleep
  | wake
  | back (result : Result)

def Phase.holds {Place Work : Type} : Phase Place Work → Bool
  | .inside _ | .parking _ => true
  | _ => false

def Phase.until {Place Work : Type} (since : Nat) : Phase Place Work → Option Nat
  | .entering _ | .inside _ | .parking _ => some since
  | .waiting alarm => alarm
  | .away _ | .ended => none

namespace Monitored
variable {ι Data Place Work Request : Type}

def move (s : Monitored ι Data Place Work Request) (phase : Phase Place Work) :
    Monitored ι Data Place Work Request :=
  { s with phase, since := s.now }

/-- A notification reaches the thread if it waits. -/
def notified (home : Place) (s : Monitored ι Data Place Work Request) :
    Monitored ι Data Place Work Request :=
  match s.phase with
  | .waiting _ => s.move (.entering home)
  | _ => s

@[simp] theorem notified_data (home : Place) (s : Monitored ι Data Place Work Request) :
    (s.notified home).data = s.data := by
  unfold notified
  split <;> rfl

theorem of_notified_phase {home : Place} {s : Monitored ι Data Place Work Request}
    {phase : Phase Place Work} (there : (s.notified home).phase = phase)
    (other : phase ≠ .entering home) : s.phase = phase := by
  unfold notified at there
  split at there
  · exact absurd there.symm other
  · exact there

def turned (s : Monitored ι Data Place Work Request) (data : Data) : StretchEnd Place Work →
    Monitored ι Data Place Work Request
  | .stay place => { s with data }.move (.inside place)
  | .park timeout => { s with data }.move (.parking timeout)
  | .leave work => { s with data }.move (.away work)
  | .finish => { s with data }.move .ended

/-- No thread is held up for longer than `delay`. -/
structure Punctual (delay : Nat) (s : Monitored ι Data Place Work Request) : Prop where
  thread : ∀ t ∈ s.phase.until s.since, s.now ≤ t + delay
  requests : ∀ i, ∀ request ∈ s.requests i, s.now ≤ request.1 + delay
  owed : ∀ t ∈ s.owed, s.now ≤ t + delay

instance [Fintype ι] (delay : Nat) (s : Monitored ι Data Place Work Request) :
    Decidable (s.Punctual delay) :=
  decidable_of_iff ((∀ t ∈ s.phase.until s.since, s.now ≤ t + delay) ∧
      (∀ i, ∀ request ∈ s.requests i, s.now ≤ request.1 + delay) ∧ ∀ t ∈ s.owed, s.now ≤ t + delay)
    ⟨fun all => ⟨all.1, all.2.1, all.2.2⟩, fun all => ⟨all.thread, all.requests, all.owed⟩⟩

end Monitored

namespace Monitor
variable {ι Data Place Work Result Call Request : Type}
  (M : Monitor Data Place Work Result Call Request)

section
variable [DecidableEq ι]

def served (s : Monitored ι Data Place Work Request) (i : ι) (data : Data) : Notice →
    Monitored ι Data Place Work Request
  | .none => { s with data, requests := Function.update s.requests i none }
  | .within => { s with data, requests := Function.update s.requests i none }.notified M.home
  | .after => { s with data, requests := Function.update s.requests i none, owed := s.now :: s.owed }

@[simp] theorem served_data (s : Monitored ι Data Place Work Request) (i : ι) (data : Data)
    (notice : Notice) : (M.served s i data notice).data = data := by
  cases notice with
  | none | after => rfl
  | within => exact Monitored.notified_data ..

theorem of_served_phase {s : Monitored ι Data Place Work Request} {i : ι} {data : Data} {notice : Notice}
    {phase : Phase Place Work} (there : (M.served s i data notice).phase = phase)
    (other : phase ≠ .entering M.home) : s.phase = phase := by
  cases notice with
  | none | after => exact there
  | within =>
    have there : ({ s with data, requests := Function.update s.requests i none }.notified
      M.home).phase = phase := there
    have before := Monitored.of_notified_phase there other
    exact before

def step (s : Monitored ι Data Place Work Request) : MonitorEvent ι Result Call →
    Option (Monitored ι Data Place Work Request)
  | .tick elapsed => some { s with now := s.now + elapsed }
  | .ask i call =>
    if (s.requests i).isSome then none
    else (M.ask s.now s.data call).map fun request =>
      { s with requests := Function.update s.requests i (some (s.now, request)) }
  | .serve i =>
    if s.phase.holds then none
    else (s.requests i).map fun request =>
      M.served s i (M.serve s.now request.2 s.data).1 (M.serve s.now request.2 s.data).2
  | .notify index =>
    if index < s.owed.length then some ({ s with owed := s.owed.eraseIdx index }.notified M.home)
    else none
  | .enter =>
    match s.phase with
    | .entering place => some (s.move (.inside place))
    | _ => none
  | .turn =>
    match s.phase with
    | .inside place => some (s.turned (M.turn s.now s.data place).1 (M.turn s.now s.data place).2)
    | _ => none
  | .sleep =>
    match s.phase with
    | .parking timeout => some (s.move (.waiting (timeout.map (s.now + ·))))
    | _ => none
  | .wake =>
    match s.phase with
    | .waiting _ => some (s.move (.entering M.home))
    | _ => none
  | .back result =>
    match s.phase with
    | .away work =>
      some (s.move ((M.back work result).elim .ended .entering))
    | _ => none

/-- The states of the runs in which no thread is held up for longer than `delay`. -/
inductive Reached (delay : Nat) (start : Monitored ι Data Place Work Request) :
    Monitored ι Data Place Work Request → Prop
  | start : Reached delay start start
  | next {s s' : Monitored ι Data Place Work Request} {event : MonitorEvent ι Result Call} :
    Reached delay start s → M.step s event = some s' → s'.Punctual delay → Reached delay start s'

def replay [Fintype ι] (delay : Nat) (s : Monitored ι Data Place Work Request) :
    List (MonitorEvent ι Result Call) → Option (Monitored ι Data Place Work Request)
  | [] => some s
  | event :: events => (M.step s event).bind fun s' =>
    if s'.Punctual delay then replay delay s' events else none

theorem reached_of_replay [Fintype ι] {delay : Nat} {start s s' : Monitored ι Data Place Work Request}
    {events : List (MonitorEvent ι Result Call)} (reached : M.Reached delay start s)
    (ran : M.replay delay s events = some s') : M.Reached delay start s' := by
  induction events generalizing s with
  | nil =>
    cases ran
    exact reached
  | cons event events ih =>
    obtain ⟨middle, stepped, rest⟩ := Option.bind_eq_some_iff.mp ran
    split at rest
    · next punctual => exact ih (reached.next stepped punctual) rest
    · cases rest

inductive Happens (s : Monitored ι Data Place Work Request) :
    MonitorEvent ι Result Call → Monitored ι Data Place Work Request → Prop
  | tick (elapsed : Nat) : Happens s (.tick elapsed) { s with now := s.now + elapsed }
  | ask {i : ι} {call : Call} {request : Request} (idle : s.requests i = none)
      (made : M.ask s.now s.data call = some request) :
    Happens s (.ask i call) { s with requests := Function.update s.requests i (some (s.now, request)) }
  | serve {i : ι} {asked : Nat} {request : Request} (free : s.phase.holds = false)
      (next : s.requests i = some (asked, request)) :
    Happens s (.serve i) (M.served s i (M.serve s.now request s.data).1 (M.serve s.now request s.data).2)
  | notify {index : Nat} :
    Happens s (.notify index) ({ s with owed := s.owed.eraseIdx index }.notified M.home)
  | enter {place : Place} (entering : s.phase = .entering place) : Happens s .enter (s.move (.inside place))
  | turn {place : Place} (inside : s.phase = .inside place) :
    Happens s .turn (s.turned (M.turn s.now s.data place).1 (M.turn s.now s.data place).2)
  | sleep {timeout : Option Nat} (parking : s.phase = .parking timeout) :
    Happens s .sleep (s.move (.waiting (timeout.map (s.now + ·))))
  | wake {alarm : Option Nat} (waiting : s.phase = .waiting alarm) :
    Happens s .wake (s.move (.entering M.home))
  | back {work : Work} {result : Result} (away : s.phase = .away work) :
    Happens s (.back result) (s.move ((M.back work result).elim .ended .entering))

variable {M} in
theorem happens_of_step {s s' : Monitored ι Data Place Work Request} {event : MonitorEvent ι Result Call}
    (stepped : M.step s event = some s') : M.Happens s event s' := by
  cases event with
  | tick elapsed =>
    cases stepped
    exact .tick elapsed
  | ask i call =>
    simp only [step] at stepped
    split at stepped
    · cases stepped
    · next idle =>
      obtain ⟨request, made, rfl⟩ := Option.map_eq_some_iff.mp stepped
      exact .ask (Option.not_isSome_iff_eq_none.mp idle) made
  | serve i =>
    simp only [step] at stepped
    split at stepped
    · cases stepped
    · next free =>
      obtain ⟨request, next, rfl⟩ := Option.map_eq_some_iff.mp stepped
      exact .serve (Bool.eq_false_iff.mpr free) next
  | notify index =>
    simp only [step] at stepped
    split at stepped
    · cases stepped
      exact .notify
    · cases stepped
  | enter =>
    simp only [step] at stepped
    split at stepped
    · next entering =>
      cases stepped
      exact .enter entering
    · cases stepped
  | turn =>
    simp only [step] at stepped
    split at stepped
    · next inside =>
      cases stepped
      exact .turn inside
    · cases stepped
  | sleep =>
    simp only [step] at stepped
    split at stepped
    · next parking =>
      cases stepped
      exact .sleep parking
    · cases stepped
  | wake =>
    simp only [step] at stepped
    split at stepped
    · next waiting =>
      cases stepped
      exact .wake waiting
    · cases stepped
  | back result =>
    simp only [step] at stepped
    split at stepped
    · next away =>
      cases stepped
      exact .back away
    · cases stepped

end

/-- A deadline that is kept with the data, and how a thread attends to it. At a place with an
allowance the thread arrives no later than so long after the deadline; at other places the
deadline does not matter. It goes to wait no later than `early` after the deadline. -/
structure Deadline (Data Place : Type) where
  due : Data → Option Nat
  allowance : Place → Option Nat
  early : Nat
  /-- What is so of the data where the thread is at a place under the mutex. -/
  fits : Place → Data → Prop

variable (D : Deadline Data Place) (delay : Nat)

/-- What a turn leaves behind. It goes to wait until the deadline at most. -/
def Deadline.Kept (now : Nat) (data : Data) : StretchEnd Place Work → Prop
  | .stay place => D.fits place data ∧
    ∀ allowed ∈ D.allowance place, ∀ d ∈ D.due data, now ≤ d + allowed
  | .park timeout => ∀ d ∈ D.due data, now ≤ d + D.early ∧ ∃ t, timeout = some t ∧ t ≤ d - now
  | .leave _ | .finish => True

/-- A section of another thread puts the deadline off; or it brings it forward, though not to
long ago, and notifies. -/
def Deadline.Moved (now : Nat) (before after : Data) (notice : Notice) : Prop :=
  ∀ d ∈ D.due after, (∃ d' ∈ D.due before, d' ≤ d) ∨ notice ≠ .none ∧ now ≤ d + delay

/-- The thread attends to the deadline, and whoever brings it forward notifies. -/
structure Heeds : Prop where
  home : (∀ data, D.fits M.home data) ∧
    ∃ allowed, D.allowance M.home = some allowed ∧ D.early + 3 * delay ≤ allowed
  back : ∀ work result place, M.back work result = some place →
    (∀ data, D.fits place data) ∧ D.allowance place = none
  turn : ∀ now data place, D.fits place data →
    (∀ allowed ∈ D.allowance place, ∀ d ∈ D.due data, now ≤ d + allowed + delay) →
    D.Kept now (M.turn now data place).1 (M.turn now data place).2
  serve : ∀ asked now before call request data, M.ask asked before call = some request →
    asked ≤ now → now ≤ asked + delay →
    D.Moved delay now data (M.serve now request data).1 (M.serve now request data).2

/-- What the thread has in hand, by where it is. -/
def Deadline.InTime (since : Nat) (data : Data) (owed : List Nat) : Phase Place Work → Prop
  | .entering place => (∀ data, D.fits place data) ∧ ∀ allowed ∈ D.allowance place,
    D.early + 3 * delay ≤ allowed ∧ ∀ d ∈ D.due data, since + delay ≤ d + allowed
  | .inside place => D.Kept since data (.stay place : StretchEnd Place Work)
  | .parking timeout => D.Kept since data (.park timeout : StretchEnd Place Work)
  | .waiting alarm => ∀ d ∈ D.due data, (∃ a, alarm = some a ∧ a ≤ d + D.early + delay) ∨
    ∃ o ∈ owed, o ≤ d + D.early + delay
  | .away _ | .ended => True

/-- The thread came where it is, and the requests were made, in the past. -/
structure Orderly (s : Monitored ι Data Place Work Request) : Prop where
  since : s.since ≤ s.now
  requests : ∀ i, ∀ request ∈ s.requests i, request.1 ≤ s.now ∧
    ∃ data call, M.ask request.1 data call = some request.2

/-- The thread will be in time for the deadline, and so far it has been. -/
def Deadline.Timely (s : Monitored ι Data Place Work Request) : Prop :=
  D.InTime delay s.since s.data s.owed s.phase

variable {M D delay} {s s' : Monitored ι Data Place Work Request}

theorem Orderly.move (orderly : M.Orderly s) (phase : Phase Place Work) : M.Orderly (s.move phase) :=
  ⟨le_rfl, orderly.requests⟩

theorem Orderly.notified (orderly : M.Orderly s) : M.Orderly (s.notified M.home) := by
  unfold Monitored.notified
  split
  · exact orderly.move _
  · exact orderly

theorem Orderly.turned (orderly : M.Orderly s) (data : Data) (turn : StretchEnd Place Work) :
    M.Orderly (s.turned data turn) := by
  cases turn <;> exact ⟨le_rfl, orderly.requests⟩

theorem Orderly.served [DecidableEq ι] (orderly : M.Orderly s) (i : ι) (data : Data) (notice : Notice) :
    M.Orderly (M.served s i data notice) := by
  have requests : ∀ j, ∀ request ∈ Function.update s.requests i none j, request.1 ≤ s.now ∧
      ∃ data call, M.ask request.1 data call = some request.2 := by
    intro j request asked
    by_cases same : j = i
    · subst same
      simp at asked
    · exact orderly.requests j request (by simpa [same] using asked)
  cases notice with
  | none => exact ⟨orderly.since, requests⟩
  | within =>
    have put : M.Orderly { s with data, requests := Function.update s.requests i none } :=
      ⟨orderly.since, requests⟩
    exact put.notified
  | after => exact ⟨orderly.since, requests⟩

theorem Orderly.step [DecidableEq ι] {event : MonitorEvent ι Result Call} (orderly : M.Orderly s)
    (happens : M.Happens s event s') : M.Orderly s' := by
  cases happens with
  | tick elapsed =>
    refine ⟨Nat.le_add_right_of_le orderly.since, fun i request asked => ?_⟩
    obtain ⟨past, made⟩ := orderly.requests i request asked
    exact ⟨Nat.le_add_right_of_le past, made⟩
  | @ask i call request _ made =>
    refine ⟨orderly.since, fun j other asked => ?_⟩
    by_cases same : j = i
    · subst same
      simp only [Function.update_self, Option.mem_some_iff] at asked
      cases asked
      exact ⟨le_rfl, s.data, call, made⟩
    · exact orderly.requests j other (by simpa [same] using asked)
  | @serve i => exact orderly.served i _ _
  | @notify index =>
    have fewer : M.Orderly { s with owed := s.owed.eraseIdx index } := ⟨orderly.since, orderly.requests⟩
    exact fewer.notified
  | turn => exact orderly.turned _ _
  | enter | sleep | wake | back => exact orderly.move _

/-- A thread that waits is at most so late. -/
theorem Deadline.Timely.waiting {alarm : Option Nat} (timely : D.Timely delay s)
    (punctual : s.Punctual delay) (waiting : s.phase = .waiting alarm) :
    ∀ d ∈ D.due s.data, s.now ≤ d + D.early + 2 * delay := by
  intro d here
  rw [Timely, waiting] at timely
  obtain ⟨a, rfl, bound⟩ | ⟨o, member, bound⟩ := timely d here
  · have late := punctual.thread a (by rw [waiting]; rfl)
    omega
  · have late := punctual.owed o member
    omega

theorem Heeds.entering (heeds : M.Heeds D delay) {now : Nat} {data : Data} {owed : List Nat}
    (bound : ∀ d ∈ D.due data, now ≤ d + D.early + 2 * delay) :
    D.InTime delay now data owed (.entering M.home : Phase Place Work) := by
  obtain ⟨fits, allowed, allows, room⟩ := heeds.home
  refine ⟨fits, fun allowed' same => ?_⟩
  cases allows.symm.trans same
  refine ⟨room, fun d here => ?_⟩
  have late := bound d here
  omega

theorem Heeds.notified (heeds : M.Heeds D delay)
    (bound : ∀ alarm, s.phase = .waiting alarm → ∀ d ∈ D.due s.data, s.now ≤ d + D.early + 2 * delay)
    (timely : (∀ alarm, s.phase ≠ .waiting alarm) → D.Timely delay s) :
    D.Timely delay (s.notified M.home) := by
  unfold Monitored.notified
  split
  · next alarm waiting => exact heeds.entering (bound alarm waiting)
  · next awake => exact timely awake

/-- A thread that does not wait has time enough whether or not it is told. -/
theorem Deadline.Timely.awake (timely : D.Timely delay s) (since : s.since ≤ s.now)
    (free : s.phase.holds = false) (awake : ∀ alarm, s.phase ≠ .waiting alarm) {data : Data}
    {notice : Notice} (moved : D.Moved delay s.now s.data data notice) (owed : List Nat) :
    D.InTime delay s.since data owed s.phase := by
  unfold Timely at timely
  cases here : s.phase with
  | entering place =>
    rw [here] at timely
    refine ⟨timely.1, fun allowed allows => ⟨(timely.2 allowed allows).1, fun d due => ?_⟩⟩
    obtain ⟨room, before⟩ := timely.2 allowed allows
    obtain ⟨d', due', le⟩ | ⟨_, late⟩ := moved d due
    · have := before d' due'
      omega
    · omega
  | inside place => rw [here] at free; cases free
  | parking timeout => rw [here] at free; cases free
  | waiting alarm => exact absurd here (awake alarm)
  | away work => trivial
  | ended => trivial

/-- Where nobody is told the deadline has only been put off. -/
theorem Deadline.Timely.putOff {alarm : Option Nat} (timely : D.Timely delay s)
    (waiting : s.phase = .waiting alarm) {data : Data} {owed : List Nat}
    (moved : ∀ d ∈ D.due data, (∃ d' ∈ D.due s.data, d' ≤ d) ∨ ∃ o ∈ owed, o ≤ d + D.early + delay)
    (kept : ∀ o ∈ s.owed, o ∈ owed) : D.InTime delay s.since data owed s.phase := by
  rw [Timely, waiting] at timely
  rw [waiting]
  intro d due
  obtain ⟨d', due', le⟩ | told := moved d due
  · obtain ⟨a, set, bound⟩ | ⟨o, member, bound⟩ := timely d' due'
    · exact .inl ⟨a, set, by omega⟩
    · exact .inr ⟨o, kept o member, by omega⟩
  · exact .inr told

theorem Heeds.served [DecidableEq ι] (heeds : M.Heeds D delay) (timely : D.Timely delay s)
    (since : s.since ≤ s.now) (punctual : s.Punctual delay) (free : s.phase.holds = false) {data : Data}
    {notice : Notice} (moved : D.Moved delay s.now s.data data notice) (i : ι) :
    D.Timely delay (M.served s i data notice) := by
  by_cases awake : ∀ alarm, s.phase ≠ .waiting alarm
  · have inTime := timely.awake since free awake moved
    cases notice with
    | none => exact inTime s.owed
    | after => exact inTime (s.now :: s.owed)
    | within => exact heeds.notified (fun alarm waiting => absurd waiting (awake alarm)) fun _ => inTime s.owed
  · obtain ⟨alarm, waiting⟩ : ∃ alarm, s.phase = .waiting alarm := by simpa using awake
    cases notice with
    | none =>
      refine timely.putOff waiting (fun d due => ?_) fun _ member => member
      obtain putOff | ⟨told, _⟩ := moved d due
      · exact .inl putOff
      · exact absurd rfl told
    | after =>
      refine timely.putOff waiting (fun d due => ?_) fun _ member => List.mem_cons_of_mem _ member
      obtain putOff | ⟨_, late⟩ := moved d due
      · exact .inl putOff
      · exact .inr ⟨s.now, List.mem_cons_self, by omega⟩
    | within =>
      refine heeds.notified (fun _ _ d due => ?_) fun awake => absurd waiting (awake alarm)
      obtain ⟨d', due', le⟩ | ⟨_, late⟩ := moved d due
      · have := timely.waiting punctual waiting d' due'
        show s.now ≤ _
        omega
      · show s.now ≤ _
        omega

theorem Deadline.InTime.owed {since : Nat} {data : Data} {owed : List Nat} {phase : Phase Place Work}
    (inTime : D.InTime delay since data owed phase) (awake : ∀ alarm, phase ≠ .waiting alarm)
    (owed' : List Nat) : D.InTime delay since data owed' phase := by
  cases phase with
  | waiting alarm => exact absurd rfl (awake alarm)
  | entering | inside | parking | away | ended => exact inTime

theorem Deadline.InTime.turned {now : Nat} {data : Data} {turn : StretchEnd Place Work}
    (kept : D.Kept now data turn) (here : s.now = now) : D.Timely delay (s.turned data turn) := by
  subst here
  cases turn with
  | stay | park => exact kept
  | leave | finish => trivial

theorem Heeds.step [DecidableEq ι] {event : MonitorEvent ι Result Call} (heeds : M.Heeds D delay)
    (orderly : M.Orderly s) (timely : D.Timely delay s) (punctual : s.Punctual delay)
    (happens : M.Happens s event s') : D.Timely delay s' := by
  have inTime : D.InTime delay s.since s.data s.owed s.phase := timely
  have late := punctual.thread
  cases happens with
  | tick => exact inTime
  | ask => exact inTime
  | @serve i asked request free next =>
    obtain ⟨past, data, call, made⟩ := orderly.requests i _ next
    exact heeds.served timely orderly.since punctual free
      (heeds.serve asked s.now data call request s.data made past (punctual.requests i _ next)) i
  | notify =>
    exact heeds.notified (fun _ waiting => timely.waiting punctual waiting)
      fun awake => inTime.owed awake _
  | enter entering =>
    rw [entering] at inTime late
    obtain ⟨fits, early⟩ := inTime
    refine ⟨fits _, fun allowed allows d due => ?_⟩
    have within := (early allowed allows).2 d due
    have now := late s.since rfl
    show s.now ≤ d + allowed
    omega
  | @turn place inside =>
    rw [inside] at inTime late
    refine Deadline.InTime.turned (heeds.turn s.now s.data place inTime.1 fun allowed allows d due => ?_) rfl
    have arrived := inTime.2 allowed allows d due
    have now := late s.since rfl
    omega
  | sleep parking =>
    rw [parking] at inTime late
    intro d due
    obtain ⟨arrived, t, rfl, short⟩ := inTime d due
    refine .inl ⟨s.now + t, rfl, ?_⟩
    have now := late s.since rfl
    omega
  | wake waiting => exact heeds.entering (timely.waiting punctual waiting)
  | @back work result away =>
    cases returned : M.back work result with
    | none => trivial
    | some place =>
      obtain ⟨fits, free⟩ := heeds.back work result place returned
      refine ⟨fits, fun allowed allows => ?_⟩
      cases free.symm.trans allows

/-- What every event keeps is so in every state of a punctual run. -/
theorem Reached.keeps [DecidableEq ι] {start : Monitored ι Data Place Work Request}
    (kept : Monitored ι Data Place Work Request → Prop) (orderly : M.Orderly start)
    (punctual : start.Punctual delay) (begins : kept start)
    (step : ∀ {s event s'}, M.Orderly s → s.Punctual delay → kept s → M.Happens s event s' → kept s')
    (reached : M.Reached delay start s) : M.Orderly s ∧ s.Punctual delay ∧ kept s := by
  induction reached with
  | start => exact ⟨orderly, punctual, begins⟩
  | next _ stepped on ih =>
    obtain ⟨orderly, punctual, keeps⟩ := ih
    have happens := happens_of_step stepped
    exact ⟨orderly.step happens, on, step orderly punctual keeps happens⟩

def Deadline.Suspended : Phase Place Work → Prop
  | .entering place | .inside place => D.allowance place = none
  | .parking _ | .waiting _ => False
  | .away _ | .ended => True

theorem Deadline.Timely.prompt (limit : Nat) (timely : D.Timely delay s) (punctual : s.Punctual delay)
    (enough : D.early + 2 * delay ≤ limit)
    (allowances : ∀ place, ∀ allowed ∈ D.allowance place, allowed + delay ≤ limit) {d : Nat}
    (due : d ∈ D.due s.data) : D.Suspended s.phase ∨ s.now ≤ d + limit := by
  have late := punctual.thread
  cases here : s.phase with
  | entering place =>
    rw [here] at late
    rw [Timely, here] at timely
    cases allows : D.allowance place with
    | none => exact .inl allows
    | some allowed =>
      have arrived := (timely.2 allowed allows).2 d due
      have room := allowances place allowed allows
      have now := late s.since rfl
      exact .inr (by omega)
  | inside place =>
    rw [here] at late
    rw [Timely, here] at timely
    cases allows : D.allowance place with
    | none => exact .inl allows
    | some allowed =>
      have arrived := timely.2 allowed allows d due
      have room := allowances place allowed allows
      have now := late s.since rfl
      exact .inr (by omega)
  | parking timeout =>
    rw [here] at late
    rw [Timely, here] at timely
    have arrived := (timely d due).1
    have now := late s.since rfl
    exact .inr (by omega)
  | waiting alarm =>
    have now := timely.waiting punctual here d due
    exact .inr (by omega)
  | away work => exact .inl trivial
  | ended => exact .inl trivial

end Monitor
end Lithium.Effects
