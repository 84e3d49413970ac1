import Lithium.Effects.Program

/-! Labelled execution of programs and a logic for them. `Meets` bounds what a
program does at every call and what it returns, while other parties act between
its calls. With no other party it is a logic for runs that may be cut short: the
invariant holds at every point between two calls, so at every crash. -/
namespace Lithium.Effects

/-- What one call may reply and leave behind. It is a relation: the environment
chooses among failures, random values and orders. -/
abbrev Semantics (S : Signature) (W : Type) := (op : S.Op) → W → S.Reply op → W → Prop

variable {S : Signature} {W ε α β : Type}

/-- The calls made from one point of an execution to a later one. -/
inductive Reaches (sem : Semantics S W) :
    Program S ε α × W → List S.Op → Program S ε α × W → Prop where
  | refl (state) : Reaches sem state [] state
  | next {op reply next w w' ops state} : sem op w reply w' →
      Reaches sem (next reply, w') ops state → Reaches sem (.call op next, w) (op :: ops) state

def Leads (sem : Semantics S W) (first last : Program S ε α × W) : Prop :=
  ∃ ops, Reaches sem first ops last

def Returns (sem : Semantics S W) (program : Program S ε α) (w : W) (result : Except ε α)
    (w' : W) : Prop := Leads sem (program, w) (.done result, w')

/-- The world left behind when an execution stops between two of its calls. A
complete execution is one of these stops. -/
def Stops (sem : Semantics S W) (program : Program S ε α) (w w' : W) : Prop :=
  ∃ rest, Leads sem (program, w) (rest, w')

/-- An execution comes to the call `op` in the world `w'`. -/
def ComesTo (sem : Semantics S W) (program : Program S ε α) (w : W) (op : S.Op) (w' : W) : Prop :=
  ∃ next, Leads sem (program, w) (.call op next, w')

/-- Every complete execution ends in `post`, and there is one. -/
structure Delivers (sem : Semantics S W) (program : Program S ε α) (w : W)
    (post : Except ε α → W → Prop) : Prop where
  runs : ∃ result w', Returns sem program w result w'
  ends : ∀ result w', Returns sem program w result w' → post result w'

theorem Delivers.mono {sem : Semantics S W} {program : Program S ε α} {w : W}
    {post post' : Except ε α → W → Prop} (delivers : Delivers sem program w post)
    (ended : ∀ result w, post result w → post' result w) : Delivers sem program w post' :=
  ⟨delivers.runs, fun result w' returned => ended result w' (delivers.ends result w' returned)⟩

theorem Reaches.trans {sem : Semantics S W} {first middle last : Program S ε α × W}
    {ops more : List S.Op} (left : Reaches sem first ops middle)
    (right : Reaches sem middle more last) : Reaches sem first (ops ++ more) last := by
  induction left with
  | refl => exact right
  | next step _ ih => exact .next step (ih right)

theorem Reaches.bind {sem : Semantics S W} {program last : Program S ε α} {w w' : W}
    {ops : List S.Op} (rest : α → Program S ε β)
    (path : Reaches sem (program, w) ops (last, w')) :
    Reaches sem (program.bind rest, w) ops (last.bind rest, w') := by
  generalize first : (program, w) = state at path
  generalize ended : (last, w') = state' at path
  induction path generalizing program w with
  | refl =>
    cases first
    cases ended
    exact .refl _
  | next step _ ih =>
    cases first
    exact .next step (ih rfl ended)

theorem Reaches.attempt {sem : Semantics S W} {program last : Program S ε α} {w w' : W}
    {ops : List S.Op} (path : Reaches sem (program, w) ops (last, w')) :
    Reaches sem (program.attempt, w) ops (last.attempt, w') := by
  generalize first : (program, w) = state at path
  generalize ended : (last, w') = state' at path
  induction path generalizing program w with
  | refl =>
    cases first
    cases ended
    exact .refl _
  | next step _ ih =>
    cases first
    exact .next step (ih rfl ended)

namespace Leads
variable {sem : Semantics S W} {program last : Program S ε α} {w w' : W}

theorem refl (state : Program S ε α × W) : Leads sem state state := ⟨[], .refl state⟩

theorem trans {first middle last : Program S ε α × W} (left : Leads sem first middle)
    (right : Leads sem middle last) : Leads sem first last := by
  obtain ⟨ops, left⟩ := left
  obtain ⟨more, right⟩ := right
  exact ⟨ops ++ more, left.trans right⟩

theorem next {op : S.Op} {reply : S.Reply op} {next : S.Reply op → Program S ε α}
    {state : Program S ε α × W} (step : sem op w reply w')
    (rest : Leads sem (next reply, w') state) : Leads sem (.call op next, w) state := by
  obtain ⟨ops, path⟩ := rest
  exact ⟨op :: ops, .next step path⟩

theorem bind (rest : α → Program S ε β) (path : Leads sem (program, w) (last, w')) :
    Leads sem (program.bind rest, w) (last.bind rest, w') := by
  obtain ⟨ops, path⟩ := path
  exact ⟨ops, path.bind rest⟩

theorem attempt (path : Leads sem (program, w) (last, w')) :
    Leads sem (program.attempt, w) (last.attempt, w') := by
  obtain ⟨ops, path⟩ := path
  exact ⟨ops, path.attempt⟩

end Leads

theorem Returns.stops {sem : Semantics S W} {program : Program S ε α} {w w' : W}
    {result : Except ε α} (returned : Returns sem program w result w') :
    Stops sem program w w' := ⟨_, returned⟩

theorem Returns.followed {sem : Semantics S W} {program : Program S ε α}
    {rest : α → Program S ε β} {w w' : W} {value : α} {state : Program S ε β × W}
    (returned : Returns sem program w (.ok value) w') (more : Leads sem (rest value, w') state) :
    Leads sem (program.bind rest, w) state := (Leads.bind rest returned).trans more

theorem Returns.of_bind {sem : Semantics S W} {program : Program S ε α} {rest : α → Program S ε β}
    {w w' : W} {result : Except ε β} (returned : Returns sem (program.bind rest) w result w') :
    (∃ value w₁, Returns sem program w (.ok value) w₁ ∧ Returns sem (rest value) w₁ result w') ∨
      ∃ e, result = .error e ∧ Returns sem program w (.error e) w' := by
  induction program generalizing w with
  | done outcome =>
    cases outcome with
    | ok value => exact .inl ⟨value, w, .refl _, returned⟩
    | error e =>
      obtain ⟨ops, path⟩ := returned
      cases path
      exact .inr ⟨e, rfl, .refl _⟩
  | call op next ih =>
    obtain ⟨ops, path⟩ := returned
    cases path with
    | next step later =>
      obtain ⟨value, w₁, first, second⟩ | ⟨e, failed, first⟩ := ih _ ⟨_, later⟩
      · exact .inl ⟨value, w₁, .next step first, second⟩
      · exact .inr ⟨e, failed, .next step first⟩

theorem Reaches.among {sem other : Semantics S W} {first last : Program S ε α × W} {ops : List S.Op}
    (more : ∀ {op w reply w'}, sem op w reply w' → other op w reply w')
    (path : Reaches sem first ops last) : Reaches other first ops last := by
  induction path with
  | refl state => exact .refl state
  | next step _ ih => exact .next (more step) ih

theorem Reaches.calls {sem : Semantics S W} {allowed : S.Op → Prop} {first last : Program S ε α × W}
    {ops : List S.Op} (path : Reaches sem first ops last) (calls : first.1.Calls allowed) :
    last.1.Calls allowed := by
  induction path with
  | refl => exact calls
  | next _ _ ih => exact ih (calls.2 _)

/-- What no call puts an end to lasts. -/
theorem Reaches.preserves {sem : Semantics S W} (held : W → Prop) {first last : Program S ε α × W}
    {ops : List S.Op} (path : Reaches sem first ops last)
    (kept : ∀ {op w reply w'}, held w → sem op w reply w' → held w') (here : held first.2) :
    held last.2 := by
  induction path with
  | refl => exact here
  | next step _ ih => exact ih (kept here step)

theorem Returns.among {sem other : Semantics S W} {program : Program S ε α} {w w' : W}
    {result : Except ε α} (more : ∀ {op w reply w'}, sem op w reply w' → other op w reply w')
    (returned : Returns sem program w result w') : Returns other program w result w' := by
  obtain ⟨ops, path⟩ := returned
  exact ⟨ops, path.among more⟩

namespace ComesTo
variable {sem : Semantics S W} {program : Program S ε α} {rest : α → Program S ε β} {w w' w₁ : W}
  {op : S.Op}

theorem bind (comes : ComesTo sem program w op w') : ComesTo sem (program.bind rest) w op w' := by
  obtain ⟨next, path⟩ := comes
  exact ⟨_, path.bind rest⟩

theorem attempt (comes : ComesTo sem program w op w') : ComesTo sem program.attempt w op w' := by
  obtain ⟨next, path⟩ := comes
  exact ⟨_, path.attempt⟩

theorem after {value : α} (returned : Returns sem program w (.ok value) w₁)
    (comes : ComesTo sem (rest value) w₁ op w') : ComesTo sem (program.bind rest) w op w' := by
  obtain ⟨next, path⟩ := comes
  exact ⟨next, returned.followed path⟩

theorem next {first : S.Op} {reply : S.Reply first} {next : S.Reply first → Program S ε α}
    (step : sem first w reply w₁) (comes : ComesTo sem (next reply) w₁ op w') :
    ComesTo sem (.call first next) w op w' := by
  obtain ⟨more, path⟩ := comes
  exact ⟨more, .next step path⟩

end ComesTo

/-- How one party takes part in a run: the meaning of its calls, what holds
between any two calls of the run, what others may do between its calls, and what
each of its own calls may change. -/
structure Protocol (S : Signature) (W : Type) where
  sem : Semantics S W
  inv : W → Prop
  rely : W → W → Prop
  guar : W → W → Prop
  refl : ∀ w, rely w w
  trans : ∀ {w₁ w₂ w₃}, rely w₁ w₂ → rely w₂ w₃ → rely w₁ w₃

/-- A party that runs by itself. -/
def Protocol.alone (sem : Semantics S W) (inv : W → Prop) : Protocol S W where
  sem := sem
  inv := inv
  rely := Eq
  guar := fun _ _ => True
  refl := fun _ => rfl
  trans := Eq.trans

/-- Every call keeps the invariant and the guarantee, whatever the others did
before it, and `post` holds when the program returns. -/
def Meets (P : Protocol S W) (post : Except ε α → W → Prop) : Program S ε α → W → Prop
  | .done result, w => post result w
  | .call op next, w => ∀ w₁, P.rely w w₁ → P.inv w₁ → ∀ reply w₂, P.sem op w₁ reply w₂ →
      P.inv w₂ ∧ P.guar w₁ w₂ ∧ Meets P post (next reply) w₂

/-- The program meets `post` from every world that satisfies `pre`. -/
def Triple (P : Protocol S W) (pre : W → Prop) (program : Program S ε α)
    (post : Except ε α → W → Prop) : Prop := ∀ w, pre w → Meets P post program w

/-- What the others do cannot falsify `held`. -/
def Protocol.Stable (P : Protocol S W) (held : W → Prop) : Prop :=
  ∀ w w', held w → P.rely w w' → P.inv w' → held w'

@[simp] theorem alone_stable (sem : Semantics S W) (inv held : W → Prop) :
    (Protocol.alone sem inv).Stable held := by
  rintro w _ here rfl _
  exact here

variable {P : Protocol S W} {post : Except ε α → W → Prop}

namespace Meets

theorem mono {post' : Except ε α → W → Prop} {program : Program S ε α} {w : W}
    (meets : Meets P post program w) (ended : ∀ result w, post result w → post' result w) :
    Meets P post' program w := by
  induction program generalizing w with
  | done result => exact ended _ _ meets
  | call op next ih =>
    intro w₁ moved inv reply w₂ step
    obtain ⟨kept, change, rest⟩ := meets w₁ moved inv reply w₂ step
    exact ⟨kept, change, ih reply rest⟩

/-- Sequencing: the first program must hand over to the second at every success
and end in the overall postcondition at every error. -/
theorem bind {post : Except ε β → W → Prop} {program : Program S ε α}
    {rest : α → Program S ε β} {w : W}
    (meets : Meets P (fun result w => match result with
      | .ok value => Meets P post (rest value) w
      | .error e => post (.error e) w) program w) :
    Meets P post (program.bind rest) w := by
  induction program generalizing w with
  | done result =>
    cases result with
    | ok value => exact meets
    | error e => exact meets
  | call op next ih =>
    intro w₁ moved inv reply w₂ step
    obtain ⟨kept, change, rest⟩ := meets w₁ moved inv reply w₂ step
    exact ⟨kept, change, ih reply rest⟩

theorem attempt {post : Except ε (Except ε α) → W → Prop} {program : Program S ε α} {w : W}
    (meets : Meets P (fun result w => post (.ok result) w) program w) :
    Meets P post program.attempt w := by
  induction program generalizing w with
  | done result => exact meets
  | call op next ih =>
    intro w₁ moved inv reply w₂ step
    obtain ⟨kept, change, rest⟩ := meets w₁ moved inv reply w₂ step
    exact ⟨kept, change, ih reply rest⟩

/-- The judgement survives every call of an execution that nobody disturbs. -/
theorem reaches {first last : Program S ε α × W} {ops : List S.Op}
    (meets : Meets P post first.1 first.2) (initial : P.inv first.2)
    (path : Reaches P.sem first ops last) :
    P.inv last.2 ∧ Meets P post last.1 last.2 := by
  induction path with
  | refl => exact ⟨initial, meets⟩
  | next step _ ih =>
    obtain ⟨kept, _, rest⟩ := meets _ (P.refl _) initial _ _ step
    exact ih rest kept

theorem leads {program last : Program S ε α} {w w' : W} (meets : Meets P post program w)
    (initial : P.inv w) (path : Leads P.sem (program, w) (last, w')) :
    P.inv w' ∧ Meets P post last w' := by
  obtain ⟨ops, path⟩ := path
  exact Meets.reaches meets initial path

/-- A crash between any two calls leaves a world that satisfies the invariant. -/
theorem stops {program : Program S ε α} {w w' : W} (meets : Meets P post program w)
    (initial : P.inv w) (stopped : Stops P.sem program w w') : P.inv w' := by
  obtain ⟨rest, path⟩ := stopped
  exact (meets.leads initial path).1

theorem returns {program : Program S ε α} {w w' : W} {result : Except ε α}
    (meets : Meets P post program w) (initial : P.inv w)
    (returned : Returns P.sem program w result w') : post result w' :=
  (meets.leads initial returned).2

/-- A judgement carries over to another protocol whose worlds can be looked at as worlds of
the first, as long as the thread is `here`. -/
theorem lift {V : Type} {Q : Protocol S V} (look : V → W) {here : V → Prop}
    (rely : ∀ {v v'}, here v → Q.rely v v' → Q.inv v' →
      P.rely (look v) (look v') ∧ P.inv (look v') ∧ here v')
    (step : ∀ {op v reply v'}, here v → Q.inv v → Q.sem op v reply v' →
      P.sem op (look v) reply (look v') ∧ (P.inv (look v') → P.guar (look v) (look v') →
        Q.inv v' ∧ Q.guar v v' ∧ here v'))
    {program : Program S ε α} {v : V} (start : here v) (meets : Meets P post program (look v)) :
    Meets Q (fun result v => post result (look v) ∧ here v) program v := by
  induction program generalizing v with
  | done result => exact ⟨meets, start⟩
  | call op next ih =>
    intro v₁ moved inv reply v₂ called
    obtain ⟨moved', inv', here₁⟩ := rely start moved inv
    obtain ⟨called', back⟩ := step here₁ inv called
    obtain ⟨kept, change, rest⟩ := meets _ moved' inv' reply _ called'
    obtain ⟨kept', change', here₂⟩ := back kept change
    exact ⟨kept', change', ih reply here₂ rest⟩

/-- A program that returns at all returns as it should. -/
theorem runs {program : Program S ε α} {w : W} (meets : Meets P post program w)
    (initial : P.inv w) (returns : ∃ result w', Returns P.sem program w result w') :
    ∃ result w', Returns P.sem program w result w' ∧ P.inv w' ∧ post result w' := by
  obtain ⟨result, w', returned⟩ := returns
  exact ⟨result, w', returned, meets.leads initial returned⟩

end Meets

namespace Triple
variable {pre held : W → Prop}

theorem mono {pre' : W → Prop} {post' : Except ε α → W → Prop} {program : Program S ε α}
    (triple : Triple P pre program post) (stronger : ∀ w, pre' w → pre w)
    (ended : ∀ result w, post result w → post' result w) : Triple P pre' program post' :=
  fun w start => (triple w (stronger w start)).mono ended

theorem weaken {post' : Except ε α → W → Prop} {program : Program S ε α}
    (triple : Triple P pre program post) (ended : ∀ result w, post result w → post' result w) :
    Triple P pre program post' := triple.mono (fun _ start => start) ended

theorem done {result : Except ε α} (ended : ∀ w, pre w → post result w) :
    Triple P pre (.done result) post := ended

theorem bind {mid : Except ε α → W → Prop} {post : Except ε β → W → Prop}
    {program : Program S ε α} {rest : α → Program S ε β} (first : Triple P pre program mid)
    (second : ∀ value, Triple P (mid (.ok value)) (rest value) post)
    (failed : ∀ e w, mid (.error e) w → post (.error e) w) :
    Triple P pre (program.bind rest) post := by
  intro w start
  refine Meets.bind ((first w start).mono ?_)
  rintro (e | value) w' reached
  · exact failed e w' reached
  · exact second value w' reached

theorem attempt_bind {mid : Except ε α → W → Prop} {post : Except ε β → W → Prop}
    {program : Program S ε α} {rest : Except ε α → Program S ε β}
    (first : Triple P pre program mid)
    (second : ∀ result, Triple P (mid result) (rest result) post) :
    Triple P pre (program.attempt.bind rest) post := fun w start =>
  Meets.bind (Meets.attempt ((first w start).mono fun result w' reached => second result w' reached))

theorem call {op : S.Op} {next : S.Reply op → Program S ε α} (mid : S.Reply op → W → Prop)
    (stable : P.Stable held)
    (step : ∀ w, held w → P.inv w → ∀ reply w', P.sem op w reply w' →
      P.inv w' ∧ P.guar w w' ∧ mid reply w')
    (rest : ∀ reply, Triple P (mid reply) (next reply) post) :
    Triple P held (.call op next) post := by
  intro w start w₁ moved inv reply w₂ called
  obtain ⟨kept, change, reached⟩ := step w₁ (stable _ _ start moved inv) inv reply w₂ called
  exact ⟨kept, change, rest reply w₂ reached⟩

theorem alone_call {sem : Semantics S W} {op : S.Op} {next : S.Reply op → Program S ε α}
    (mid : S.Reply op → W → Prop)
    (step : ∀ {w reply w'}, held w → sem op w reply w' → mid reply w')
    (rest : ∀ reply, Triple (.alone sem fun _ => True) (mid reply) (next reply) post) :
    Triple (.alone sem fun _ => True) held (.call op next) post := by
  apply call mid
  · exact alone_stable _ _ held
  · intro w here _ reply w' stepped
    exact ⟨trivial, trivial, step here stepped⟩
  · exact rest

/-- Facts that do not depend on the world can be taken out of a precondition. -/
theorem pure {fact : Prop} {program : Program S ε α}
    (triple : fact → Triple P pre program post) :
    Triple P (fun w => fact ∧ pre w) program post := fun w start => triple start.1 w start.2

theorem exists_pre {ι : Type} {pre : ι → W → Prop} {program : Program S ε α}
    (triple : ∀ i, Triple P (pre i) program post) :
    Triple P (fun w => ∃ i, pre i w) program post := fun w ⟨i, start⟩ => triple i w start

/-- A stronger invariant may be kept for the length of a program. -/
theorem within {sem : Semantics S W} {inv strong : W → Prop} {program : Program S ε α}
    (triple : Triple (.alone sem strong) pre program post) (initial : ∀ w, pre w → strong w)
    (implies : ∀ w, strong w → inv w) : Triple (.alone sem inv) pre program post := by
  intro w start
  have lifted : Meets (.alone sem inv) (fun result w => post result w ∧ strong w) program w := by
    refine Meets.lift id ?_ ?_ (initial w start) (triple w start)
    · rintro v v' here rfl _
      exact ⟨rfl, here, here⟩
    · exact fun _ _ called => ⟨called, fun kept _ => ⟨implies _ kept, trivial, kept⟩⟩
  exact lifted.mono fun _ _ ended => ended.1

/-- What holds whatever the calls do holds where they do less; what every remaining call
makes true holds throughout. -/
theorem restrict {sem fewer : Semantics S W} {inv fact : W → Prop} {program : Program S ε α}
    (within : ∀ {op w reply w'}, fewer op w reply w' → sem op w reply w' ∧ fact w')
    (triple : Triple (.alone sem inv) pre program post) :
    Triple (.alone fewer inv) (fun w => pre w ∧ fact w) program fun result w =>
      post result w ∧ fact w := by
  have meets : ∀ (program : Program S ε α) w, fact w → Meets (.alone sem inv) post program w →
      Meets (.alone fewer inv) (fun result w => post result w ∧ fact w) program w := by
    intro program
    induction program with
    | done result => exact fun w here ended => ⟨ended, here⟩
    | call op next ih =>
      rintro w here meets w₁ rfl kept reply w₂ step
      obtain ⟨step, there⟩ := within step
      obtain ⟨kept, change, rest⟩ := meets w rfl kept reply w₂ step
      exact ⟨kept, change, ih reply w₂ there rest⟩
  exact fun w start => meets program w start.2 (triple w start.1)

end Triple

/-- What holds whatever the calls do holds where they do less. -/
theorem Meets.fewer {sem fewer : Semantics S W} {inv : W → Prop} {program : Program S ε α} {w : W}
    (meets : Meets (.alone sem inv) post program w)
    (within : ∀ {op w reply w'}, fewer op w reply w' → sem op w reply w') :
    Meets (.alone fewer inv) post program w :=
  (Triple.restrict (fun step => ⟨within step, trivial⟩) (fun _ start => start ▸ meets) w
    ⟨rfl, trivial⟩).mono fun _ _ ended => ended.1

/-- What holds where the program's own calls do more holds where they do less. -/
theorem Meets.calling {sem other : Semantics S W} {inv : W → Prop} {allowed : S.Op → Prop}
    {post : Except ε α → W → Prop} {program : Program S ε α} {w : W}
    (calls : program.Calls allowed)
    (within : ∀ {op w reply w'}, allowed op → other op w reply w' → sem op w reply w')
    (meets : Meets (.alone sem inv) post program w) : Meets (.alone other inv) post program w := by
  induction program generalizing w with
  | done result => exact meets
  | call op next ih =>
    intro w₁ moved here reply w₂ step
    obtain ⟨kept, _, rest⟩ := meets w₁ moved here reply w₂ (within calls.1 step)
    exact ⟨kept, trivial, ih reply (calls.2 reply) rest⟩

theorem Meets.both {sem : Semantics S W} {inv inv' : W → Prop} {post post' : Except ε α → W → Prop}
    {program : Program S ε α} {w : W} (left : Meets (.alone sem inv) post program w)
    (right : Meets (.alone sem inv') post' program w) :
    Meets (.alone sem fun w => inv w ∧ inv' w) (fun result w => post result w ∧ post' result w)
      program w := by
  induction program generalizing w with
  | done result => exact ⟨left, right⟩
  | call op next ih =>
    rintro w₁ rfl ⟨here, here'⟩ reply w₂ step
    obtain ⟨kept, _, rest⟩ := left w rfl here reply w₂ step
    obtain ⟨kept', _, rest'⟩ := right w rfl here' reply w₂ step
    exact ⟨⟨kept, kept'⟩, trivial, ih reply rest rest'⟩

theorem Triple.both {sem : Semantics S W} {inv pre : W → Prop} {post post' : Except ε α → W → Prop}
    {program : Program S ε α} (left : Triple (.alone sem inv) pre program post)
    (right : Triple (.alone sem fun _ => True) pre program post') :
    Triple (.alone sem inv) pre program fun result w => post result w ∧ post' result w := by
  intro w start
  have meets := (left w start).both (right w start)
  rwa [show (fun w => inv w ∧ True) = inv from funext fun w => and_true _] at meets

/-- Nothing is asked of the calls, and the postcondition is no condition. -/
theorem Meets.free {sem : Semantics S W} {post : Except ε α → W → Prop}
    (ended : ∀ result w, post result w) (program : Program S ε α) (w : W) :
    Meets (.alone sem fun _ => True) post program w := by
  induction program generalizing w with
  | done result => exact ended result w
  | call op next ih => exact fun w₁ _ _ reply w₂ _ => ⟨trivial, trivial, ih reply w₂⟩

theorem Meets.invariant {sem : Semantics S W} {allowed : S.Op → Prop} {inv : W → Prop}
    {program : Program S ε α} {w : W} (calls : program.Calls allowed)
    (preserved : ∀ op w reply w', allowed op → inv w → sem op w reply w' → inv w')
    (initial : inv w) : Meets (.alone sem inv) (fun _ => inv) program w := by
  induction program generalizing w with
  | done result => exact initial
  | call op next ih =>
    rintro w₁ rfl _ reply w₂ step
    have kept := preserved op w reply w₂ calls.1 initial step
    exact ⟨kept, trivial, ih reply (calls.2 reply) kept⟩

/-- Programs are finite trees, so a run exists as soon as every call the program
can make has some reply. -/
theorem exists_returns {sem : Semantics S W} {allowed : S.Op → Prop} {program : Program S ε α}
    (w : W) (calls : program.Calls allowed)
    (serial : ∀ op w, allowed op → ∃ reply w', sem op w reply w') :
    ∃ result w', Returns sem program w result w' := by
  induction program generalizing w with
  | done result => exact ⟨result, w, [], .refl _⟩
  | call op next ih =>
    obtain ⟨reply, w', step⟩ := serial op w calls.1
    obtain ⟨result, last, ops, path⟩ := ih reply w' (calls.2 reply)
    exact ⟨result, last, op :: ops, .next step path⟩

/-- An executable meaning of the calls, driven by one choice a call. -/
abbrev Executor (S : Signature) (W C : Type) :=
  C → (op : S.Op) → W → Option (S.Reply op × W)

def Executor.sem {C : Type} (exec : Executor S W C) : Semantics S W :=
  fun op w reply w' => ∃ choice, exec choice op w = some (reply, w')

def Executor.keeping {C : Type} (exec : Executor S W C) (property : W → Bool) : Executor S W C :=
  fun choice op w => (exec choice op w).filter fun outcome => property outcome.2

/-- The calls that are allowed where they are made. -/
def Executor.allowing {C : Type} (exec : Executor S W C) (allowed : S.Op → W → Bool) :
    Executor S W C := fun choice op w => if allowed op w then exec choice op w else none

theorem Executor.allowing_sem {C : Type} {exec : Executor S W C} {allowed : S.Op → W → Bool}
    {op : S.Op} {w w' : W} {reply : S.Reply op} :
    (exec.allowing allowed).sem op w reply w' ↔ exec.sem op w reply w' ∧ allowed op w = true := by
  cases granted : allowed op w with
  | true => simp [Executor.sem, Executor.allowing, granted]
  | false => simp [Executor.sem, Executor.allowing, granted]

/-- Run up to `fuel` calls, with choices made by the number of the call, the call and
the state; stop early where the choice is none the call allows. -/
def follow {C : Type} (exec : Executor S W C) (choose : Nat → S.Op → W → C) :
    (fuel : Nat) → (count : Nat) → Program S ε α → W → Program S ε α × W
  | 0, _, program, w => (program, w)
  | _ + 1, _, .done result, w => (.done result, w)
  | fuel + 1, count, .call op next, w =>
    match exec (choose count op w) op w with
    | some (reply, w') => follow exec choose fuel (count + 1) (next reply) w'
    | none => (.call op next, w)

theorem follow_leads {C : Type} (exec : Executor S W C) (choose : Nat → S.Op → W → C)
    (fuel count : Nat) (program : Program S ε α) (w : W) :
    Leads exec.sem (program, w) (follow exec choose fuel count program w) := by
  induction fuel generalizing count program w with
  | zero => exact .refl _
  | succ fuel ih =>
    cases program with
    | done result => exact .refl _
    | call op next =>
      unfold follow
      split
      · next reply w' stepped => exact .next ⟨_, stepped⟩ (ih (count + 1) (next reply) w')
      · exact .refl _

theorem follow_stops {C : Type} (exec : Executor S W C) (choose : Nat → S.Op → W → C)
    (fuel count : Nat) (program : Program S ε α) (w : W) :
    Stops exec.sem program w (follow exec choose fuel count program w).2 :=
  ⟨_, follow_leads exec choose fuel count program w⟩

def Program.outcome : Program S ε α → Option (Except ε α)
  | .done result => some result
  | .call _ _ => none

theorem Program.eq_done {program : Program S ε α} {result : Except ε α}
    (finished : program.outcome = some result) : program = .done result := by
  cases program with
  | done final =>
    cases finished
    rfl
  | call op next => cases finished

theorem follow_returns {C : Type} (exec : Executor S W C) (choose : Nat → S.Op → W → C)
    (fuel count : Nat) {program : Program S ε α} {w : W} {result : Except ε α}
    (finished : (follow exec choose fuel count program w).1.outcome = some result) :
    Returns exec.sem program w result (follow exec choose fuel count program w).2 := by
  rw [Returns, ← Program.eq_done finished]
  exact follow_leads exec choose fuel count program w

def Program.nextCall : Program S ε α → Option S.Op
  | .done _ => none
  | .call op _ => some op

theorem follow_comesTo {C : Type} (exec : Executor S W C) (choose : Nat → S.Op → W → C)
    (fuel count : Nat) {program : Program S ε α} {w : W} {op : S.Op}
    (pending : (follow exec choose fuel count program w).1.nextCall = some op) :
    ComesTo exec.sem program w op (follow exec choose fuel count program w).2 := by
  have path := follow_leads exec choose fuel count program w
  generalize follow exec choose fuel count program w = last at pending path
  obtain ⟨last, w'⟩ := last
  cases last with
  | done _ => cases pending
  | call op next =>
    cases pending
    exact ⟨next, path⟩

end Lithium.Effects
