import Lithium.Keys.MixedStore

/-! The gate of a poisoned manager. A client looks at the flag and then waits for the read
lock, and nobody looks again; so a client that waits while a rotation poisons the manager gets
in afterwards. As long as none waits at that moment, no client ever does. -/
namespace Lithium.Keys
open Effects Storage

/-- The error of `check_live`. -/
def rotationDisabled : LithiumError := .internal "keymanager_rotation_disabled"

/-- A client that has looked at the flag and waits for the read lock. -/
def Waiting (program : Prog Bytes) : Prop := program.nextCall = some .lockRead

def PastGate {α : Type} (program : Prog α) : Prop := program.Calls fun op : Op => op ≠ .lockRead

/-- A client that has yet to look at the flag, and goes on `inside` the gate. -/
def atGate {α : Type} (inside : Prog α) : Prog α :=
  .call .isPoisoned fun poisoned : Bool =>
    if poisoned then .done (.error rotationDisabled) else .call .lockRead fun _ => inside

section
variable {X : Crypto} {cached : Bool} {mode : CreateNewMode} {α β : Type}

theorem atGate_bind (inside : Prog α) (rest : α → Prog β) :
    (atGate inside).bind rest = atGate (inside.bind rest) := by
  refine congrArg (Program.call (S := Calls) Op.isPoisoned) (funext fun poisoned : Bool => ?_)
  cases poisoned <;> rfl

/-- A client looks at the flag once, and then takes the lock once. -/
theorem withReadGate_shape {body : Prog α} (calls : PastGate body) :
    ∃ inside, PastGate inside ∧ withReadGate body = atGate inside := by
  refine ⟨body.guarded do let _ ← call .unlockRead; return (), ?_, ?_⟩
  · have release : PastGate (do let _ ← call .unlockRead; return () : Prog Unit) :=
      .bind (.perform nofun) fun _ => trivial
    exact .bind (.attempt calls) fun _ => .bind release fun _ => trivial
  · refine congrArg (Program.call (S := Calls) Op.isPoisoned) (funext fun poisoned : Bool => ?_)
    cases poisoned <;> rfl

theorem withReadGate_bind_shape {body : Prog α} {rest : α → Prog β} (calls : PastGate body)
    (ends : ∀ value, PastGate (rest value)) :
    ∃ inside, PastGate inside ∧ (withReadGate body).bind rest = atGate inside := by
  obtain ⟨inside, past, same⟩ := withReadGate_shape calls
  exact ⟨inside.bind rest, .bind past ends, by rw [same, atGate_bind]⟩

theorem client_shape {op : Operation} (client : op.isClient = true) :
    ∃ inside, PastGate inside ∧ op.program X cached mode = atGate inside := by
  have free : ∀ op, special op = false → op ≠ .lockRead := by
    rintro _ other rfl
    cases other
  have current : PastGate (currentMk cached) := currentMk_calls free cached
  cases op with
  | secret32 label =>
    exact withReadGate_bind_shape (.bind current fun mk =>
      loadOrCreateLabelSecret32_calls free (fun _ => nofun) X mk label mode) fun _ => trivial
  | blob label generate =>
    exact withReadGate_shape (.bind current fun mk =>
      loadOrCreateLabelBytes_calls free (fun _ => nofun) X mk label generate mode)
  | sign =>
    refine withReadGate_bind_shape (.bind current fun mk => ?_) fun _ => trivial
    refine .bind (loadSecret32Decrypted_calls free X _ _ _) fun edSeed =>
      .bind (loadBytesDecrypted_calls free X _ _ _) fun diliSeed => ?_
    refine .bind (.perform nofun) fun _ => .bind (.done _) fun _ => .bind (.done _) fun _ => ?_
    exact .bind (.perform nofun) fun _ => .bind (.done _) fun _ => trivial
  | rotate => cases client

end

/-- How far a thread has got with the read lock: it has yet to look at the flag, waits for
the lock, or will not ask for it any more. -/
inductive GateStage (program : Prog Bytes) : Prop where
  | first (inside : Prog Bytes) : PastGate inside → program = atGate inside → GateStage program
  | waiting (inside : Prog Bytes) : PastGate inside →
      (program = .call .lockRead fun _ => inside) → GateStage program
  | past : PastGate program → GateStage program

/-- A step of a run in which no thread waits for the read lock when the manager is poisoned. -/
def Watched (env : Tid → Env) (s s' : System Calls World LithiumError Bytes Tid) : Prop :=
  ∃ i, Moves (fun i => sem (env i) i) i s s' ∧
    ((s.threads i).nextCall = some .setPoisoned → ∀ j, ¬ Waiting (s.threads j))

theorem PastGate.not_waiting {program : Prog Bytes} (past : PastGate program) : ¬ Waiting program := by
  intro waiting
  cases program with
  | done result => cases waiting
  | call op next => exact past.1 (Option.some.inj waiting)

/-- A thread's step. It comes to wait for the lock only if the manager is live. -/
theorem GateStage.step {env : Env} {tid : Tid} {op : Op} {w w' : World} {reply : Reply op}
    {next : Reply op → Prog Bytes} (stage : GateStage (.call op next)) (called : sem env tid op w reply w') :
    GateStage (next reply) ∧ (Waiting (next reply) → op ≠ .setPoisoned ∧ w.control.poisoned = false) := by
  cases stage with
  | first inside past same =>
    cases same
    obtain ⟨rfl, same⟩ := sem_isPoisoned called
    cases poisoned : w.control.poisoned with
    | true => exact ⟨.past trivial, nofun⟩
    | false => exact ⟨.waiting inside past rfl, fun _ => ⟨nofun, rfl⟩⟩
  | waiting inside past same =>
    cases same
    exact ⟨.past past, fun waiting => absurd waiting past.not_waiting⟩
  | past past =>
    have past' : PastGate (next reply) := past.2 reply
    exact ⟨.past past', fun waiting => absurd waiting past'.not_waiting⟩

/-- Where every thread stands, and that nobody waits for the read lock of a poisoned manager. -/
structure Guarded (s : System Calls World LithiumError Bytes Tid) : Prop where
  stages : ∀ i, GateStage (s.threads i)
  closed : s.world.control.poisoned = true → ∀ i, ¬ Waiting (s.threads i)

/-- Nobody takes the read lock of a poisoned manager. -/
def gateOpen : Op → World → Bool
  | .lockRead, w => !w.control.poisoned
  | _, _ => true

def gatedExec (env : Tid → Env) (i : Tid) : Executor Calls World Choice :=
  (exec (env i) i).allowing gateOpen

section
variable {X : Crypto} {cached : Bool} {mode : CreateNewMode} {env : Tid → Env}
  {ops : Tid → Operation} {s s' : System Calls World LithiumError Bytes Tid} {w : World}

theorem rotateNow_pastGate : PastGate (rotateNow X cached) := by
  have free : ∀ op, special op = false → op ≠ .lockRead := by
    rintro _ other rfl
    cases other
  exact rotateNow_calls free (fun _ => nofun) (fun _ => nofun) X nofun nofun nofun nofun cached

theorem Guarded.start (w : World) : Guarded ⟨fun i => (ops i).program X cached mode, w⟩ := by
  have thread : ∀ i, GateStage ((ops i).program X cached mode) ∧ ¬ Waiting ((ops i).program X cached mode) := by
    intro i
    by_cases client : (ops i).isClient = true
    · obtain ⟨inside, past, same⟩ := client_shape (X := X) client
      rw [same]
      exact ⟨.first inside past rfl, nofun⟩
    · rw [Operation.rotate_of_not_client client]
      have past : PastGate (Operation.rotate.program X cached mode) :=
        .bind rotateNow_pastGate fun _ => trivial
      exact ⟨.past past, past.not_waiting⟩
  exact ⟨fun i => (thread i).1, fun _ i => (thread i).2⟩

theorem Guarded.step (guarded : Guarded s) (watched : Watched env s s') :
    (∃ i, Moves (fun i => (gatedExec env i).sem) i s s') ∧ Guarded s' := by
  obtain ⟨i, moves, calm⟩ := watched
  cases moves with
  | @call threads w w' op next reply known called =>
    have stage : GateStage (.call op next) := known ▸ guarded.stages i
    have asks : (threads i).nextCall = some op := by rw [known, Program.nextCall]
    obtain ⟨stage', waits⟩ := stage.step called
    have granted : gateOpen op w = true := by
      cases op with
      | lockRead =>
        cases poisoned : w.control.poisoned with
        | true => exact absurd asks (guarded.closed poisoned i)
        | false => simp [gateOpen, poisoned]
      | _ => rfl
    refine ⟨⟨i, .call known (Executor.allowing_sem.mpr ⟨called, granted⟩)⟩, fun j => ?_, fun poisoned j => ?_⟩
    · by_cases same : j = i
      · subst same
        dsimp only
        rw [Function.update_self]
        exact stage'
      · dsimp only
        rw [Function.update_of_ne same]
        exact guarded.stages j
    · by_cases same : j = i
      · subst same
        dsimp only
        rw [Function.update_self]
        intro waiting
        obtain ⟨other, live⟩ := waits waiting
        rw [sem_live other called, live] at poisoned
        cases poisoned
      · dsimp only
        rw [Function.update_of_ne same]
        by_cases poisons : op = .setPoisoned
        · subst poisons
          exact calm asks j
        · exact guarded.closed ((sem_live poisons called).symm.trans poisoned) j

theorem Guarded.run (guarded : Guarded s) (run : Relation.ReflTransGen (Watched env) s s') :
    Interleaves (fun i => (gatedExec env i).sem) s s' ∧ Guarded s' := by
  induction run with
  | refl => exact ⟨.refl, guarded⟩
  | tail _ watched ih =>
    obtain ⟨moves, guarded'⟩ := ih.2.step watched
    exact ⟨ih.1.tail moves, guarded'⟩

def gatedRegime (env : Tid → Env) (ops : Tid → Operation) : Regime Unit where
  sem i := (gatedExec env i).sem
  env := env
  client i := (ops i).isClient = true
  gated := True
  holds _ := True
  value _ := ()
  le _ _ := True
  stays := Alike
  meaning step := (Executor.allowing_sem.mp step).1
  gate := by
    intro _ i w reply w' step
    simpa [gateOpen] using (Executor.allowing_sem.mp step).2
  le_refl _ := trivial
  le_trans _ _ := trivial
  stays_trans := .trans
  stays_relock := .relock
  holds_relock _ _ _ := trivial
  value_relock _ _ _ := rfl
  grows _ _ := trivial
  quiet _ step := ⟨trivial, .of_control step.control⟩

theorem gated_manages : (gatedRegime env ops).Manages X cached mode ops fun _ _ _ => True where
  roles _ := .rfl
  clients := by
    refine ⟨fun _ => True, fun _ _ _ => True, ?_, fun i => (ops i).fits_any, fun _ _ => trivial⟩
    exact {
      sealing := fun alike => alike.clientMk cached
      fresh := fun _ => trivial
      stable := fun _ _ => trivial
      loads := fun _ _ _ => trivial
      puts := fun _ _ _ _ _ _ _ step => ⟨trivial, .of_control step.control, trivial⟩ }
  rotations _ _ _ := ⟨_, trivial, Meets.free (fun _ _ => ⟨trivial, trivial⟩) _ _⟩
  lasting _ _ := trivial

theorem gated_locks (unlocked : w.control.writer = none ∧ w.control.readers = [])
    (run : Interleaves (fun i => (gatedExec env i).sem) ⟨fun i => (ops i).program X cached mode, w⟩ s)
    (poisoned : s.world.control.poisoned = true) : s.world.control.readers = [] := by
  have manages : (gatedRegime env ops).Manages X cached mode ops _ := gated_manages
  obtain ⟨_, inv, _⟩ := manages.reachable trivial unlocked run
  by_contra some
  have live : s.world.control.poisoned = false := inv.locks.2 trivial some
  rw [poisoned] at live
  cases live

theorem turned_away {i : Tid} {inside : Prog Bytes} (poisoned : s.world.control.poisoned = true)
    (start : s.threads i = atGate inside) (moves : Moves (fun i => sem (env i) i) i s s') :
    s'.world = s.world ∧ s'.threads i = .done (.error rotationDisabled) := by
  cases moves with
  | @call threads w w' op next reply known called =>
    have first : Program.call op next = atGate inside := known.symm.trans start
    cases first
    obtain ⟨rfl, same⟩ := sem_isPoisoned called
    refine ⟨same, ?_⟩
    dsimp only
    rw [Function.update_self]
    exact if_pos poisoned

theorem poisoned_moves {i : Tid} (poisoned : s.world.control.poisoned = true)
    (moves : Moves (fun i => sem (env i) i) i s s') : s'.world.control.poisoned = true := by
  cases moves with
  | call known called => exact sem_poisoned poisoned called

theorem turned_away_run {i : Tid} {inside : Prog Bytes} (poisoned : s.world.control.poisoned = true)
    (start : s.threads i = atGate inside) (run : Interleaves (fun i => sem (env i) i) s s') :
    s'.world.control.poisoned = true ∧
      (s'.threads i = atGate inside ∨ s'.threads i = .done (.error rotationDisabled)) := by
  induction run with
  | refl => exact ⟨poisoned, .inl start⟩
  | @tail s₁ s₂ _ moved ih =>
    obtain ⟨poisoned₁, reached⟩ := ih
    obtain ⟨j, moves⟩ := moved
    refine ⟨poisoned_moves poisoned₁ moves, ?_⟩
    by_cases same : j = i
    · subst same
      rcases reached with first | done
      · exact .inr (turned_away poisoned₁ first moves).2
      · exact absurd done moves.not_done
    · rw [moves.others (Ne.symm same)]
      exact reached

/-- In every interleaving of clients and rotations, any calls of which may fail, such that no
thread waits for the read lock at the moment a rotation poisons the manager: once it is
poisoned nobody has the read lock or is about to take it, and every client that has yet to
look at the flag is turned away with the error of `check_live`, having changed nothing. -/
theorem fail_closed (unlocked : w.control.writer = none ∧ w.control.readers = [])
    (run : Relation.ReflTransGen (Watched env) ⟨fun i => (ops i).program X cached mode, w⟩ s)
    (poisoned : s.world.control.poisoned = true) :
    s.world.control.readers = [] ∧ (∀ i, (s.threads i).nextCall ≠ some .lockRead) ∧
      ∀ i, (ops i).isClient = true → s.threads i = (ops i).program X cached mode →
        ∀ s', Interleaves (fun i => sem (env i) i) s s' →
          (s'.threads i = (ops i).program X cached mode ∨
            s'.threads i = .done (.error rotationDisabled)) ∧
          ∀ s'', Moves (fun i => sem (env i) i) i s' s'' →
            s''.world = s'.world ∧ s''.threads i = .done (.error rotationDisabled) := by
  obtain ⟨gated, guarded⟩ := (Guarded.start w).run run
  refine ⟨gated_locks unlocked gated poisoned, guarded.closed poisoned, fun i client start s' more => ?_⟩
  obtain ⟨inside, _, same⟩ := client_shape (X := X) client
  rw [same] at start ⊢
  obtain ⟨poisoned', reached⟩ := turned_away_run poisoned start more
  refine ⟨reached, fun s'' moves => ?_⟩
  rcases reached with first | done
  · exact turned_away poisoned' first moves
  · exact absurd done moves.not_done

/-- A thread that runs by itself while no other waits for the read lock. -/
theorem watched_alone {i : Tid} (others : ∀ j, j ≠ i → ¬ Waiting (s.threads j))
    (choose : Nat → Op → World → Choice) (fuel : Nat) :
    Relation.ReflTransGen (Watched env) s (s.advance (fun i => exec (env i) i) i choose fuel) := by
  have alone : Relation.ReflTransGen (fun now next => Moves (fun i => sem (env i) i) i now next ∧
      ∀ j, j ≠ i → now.threads j = s.threads j) s (s.advance (fun i => exec (env i) i) i choose fuel) :=
    Leads.moves (follow_leads (exec (env i) i) choose fuel 0 (s.threads i) s.world)
  refine alone.lift id fun now next ⟨moves, same⟩ => ⟨i, moves, fun poisons j => ?_⟩
  by_cases self : j = i
  · subst self
    intro waiting
    cases waiting.symm.trans poisons
  · rw [id, same j self]
    exact others j self

end

/-- The choices of a run all of whose calls from number `n` on fail that can fail, but for the
existence checks. -/
def failingFrom (n : Nat) : Nat → Op → World → Choice := fun count op w =>
  { plainly 1 someLeaf count op w with fault := match op with
      | .stat _ => none
      | op => if n ≤ count ∧ (failure (.io .storageFull) op).isSome then some (.io .storageFull) else none }

/-- A client looks at the flag of a live manager; a rotation then fails to commit and to
recover, poisons the manager and gives its lock back. -/
def lookedFirst : System Calls World LithiumError Bytes Tid :=
  ((taggedManager false .linkNoReplace rotationAndClient sample).advance (exec (sampleEnv true)) 1
    (plainly 2 someLeaf) 1).advance (exec (sampleEnv true)) 0 (failingFrom 80) 200

/-- The client takes the lock of the poisoned manager, creates its secret and returns it. -/
theorem late_client :
    (Interleaves (sem (sampleEnv true)) (taggedManager false .linkNoReplace rotationAndClient sample)
        lookedFirst ∧ lookedFirst.world.control.poisoned = true ∧
      lookedFirst.world.control.readers = [] ∧
      (lookedFirst.world.fs.get (labelSecretPath [0xcd])).isSome = false) ∧
    ∃ s, Interleaves (sem (sampleEnv true)) lookedFirst s ∧
      (s.threads 1).outcome = some (.ok (uniform 2).1) ∧
      (s.world.fs.get (labelSecretPath [0xcd])).isSome = true := by
  have before : lookedFirst.world.control.poisoned = true ∧ lookedFirst.world.control.readers = [] ∧
      (lookedFirst.world.fs.get (labelSecretPath [0xcd])).isSome = false := by
    decide +kernel
  have after : let s := lookedFirst.advance (exec (sampleEnv true)) 1 (plainly 2 someLeaf) 100
      (s.threads 1).outcome = some (.ok (uniform 2).1) ∧
        (s.world.fs.get (labelSecretPath [0xcd])).isSome = true := by
    decide +kernel
  exact ⟨⟨(System.advance_interleaves _ 1 _ 1 _).trans (System.advance_interleaves _ 0 _ 200 _), before⟩,
    _, System.advance_interleaves _ 1 _ 100 _, after⟩

def poisonedFirst : System Calls World LithiumError Bytes Tid :=
  (taggedManager false .linkNoReplace rotationAndClient sample).advance
    (exec (sampleEnv true)) 0 (failingFrom 80) 200

/-- Then the client is turned away. -/
theorem fail_closed_sample :
    Relation.ReflTransGen (Watched fun _ => sampleEnv true)
        (taggedManager false .linkNoReplace rotationAndClient sample) poisonedFirst ∧
      poisonedFirst.world.control.poisoned = true ∧ poisonedFirst.world.control.readers = [] ∧
      ∀ s, Moves (sem (sampleEnv true)) 1 poisonedFirst s →
        s.world = poisonedFirst.world ∧ s.threads 1 = .done (.error rotationDisabled) := by
  have poisoned : poisonedFirst.world.control.poisoned = true := by decide +kernel
  have run : Relation.ReflTransGen (Watched fun _ => sampleEnv true)
      (taggedManager false .linkNoReplace rotationAndClient sample) poisonedFirst := by
    refine watched_alone (fun j apart => ?_) (failingFrom 80) 200
    match j with
    | 0 => exact absurd rfl apart
    | 1 | _ + 2 => nofun
  have start : poisonedFirst.threads 1 = (rotationAndClient 1).program tagged false .linkNoReplace :=
    System.advance_others _ (by decide) _ _ _
  have closed := fail_closed ⟨rfl, rfl⟩ run poisoned
  exact ⟨run, poisoned, closed.1, (closed.2.2 1 rfl start _ .refl).2⟩

end Lithium.Keys
