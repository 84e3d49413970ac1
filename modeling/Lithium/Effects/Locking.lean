import Lithium.Effects.Threads
import Mathlib.Logic.Hydra

/-! Threads that share a readers-writer lock. A thread is disciplined if it asks for the lock
only while it has nothing of it and gives it back before it returns. Disciplined threads do not
block each other, however the lock chooses whom to let in beside its readers: every run comes
to an end, and where a run cannot go on every thread has returned. -/
namespace Lithium.Effects

variable {S : Signature} {W ε α β ι : Type}

/-- The calls of a readers-writer lock. -/
inductive LockCall where
  | acquireRead
  | releaseRead
  | acquireWrite
  | releaseWrite

/-- What a thread has of the lock. -/
inductive Hold where
  | nothing
  | reading
  | writing

/-- What a thread has of the lock after a call that is its to make. -/
def Hold.after : Hold → LockCall → Option Hold
  | .nothing, .acquireRead => some .reading
  | .reading, .releaseRead => some .nothing
  | .nothing, .acquireWrite => some .writing
  | .writing, .releaseWrite => some .nothing
  | _, _ => none

structure RwLock (ι : Type) where
  readers : List ι
  writer : Option ι

namespace RwLock

def Free (lock : RwLock ι) : Prop := lock.readers = [] ∧ lock.writer = none

/-- A writer is alone, and a reader is there once. -/
structure Proper (lock : RwLock ι) : Prop where
  once : lock.readers.Nodup
  alone : ∀ i, lock.writer = some i → lock.readers = []

theorem Free.proper {lock : RwLock ι} (free : lock.Free) : lock.Proper :=
  ⟨by rw [free.1]; exact List.nodup_nil, fun _ _ => free.1⟩

variable [DecidableEq ι]

def step (lock : RwLock ι) (i : ι) : LockCall → Option (RwLock ι)
  | .acquireRead =>
    if lock.writer.isNone then some { lock with readers := i :: lock.readers } else none
  | .releaseRead => some { lock with readers := lock.readers.erase i }
  | .acquireWrite =>
    if lock.writer.isNone ∧ lock.readers.isEmpty then some { lock with writer := some i } else none
  | .releaseWrite => some { lock with writer := none }

def hold (lock : RwLock ι) (i : ι) : Hold :=
  if lock.writer = some i then .writing else if i ∈ lock.readers then .reading else .nothing

theorem hold_eq_writing {lock : RwLock ι} {i : ι} : lock.hold i = .writing ↔ lock.writer = some i := by
  unfold hold
  split
  · next writes => simp [writes]
  · next other => split <;> simp [other]

theorem hold_eq_reading {lock : RwLock ι} {i : ι} :
    lock.hold i = .reading ↔ lock.writer ≠ some i ∧ i ∈ lock.readers := by
  unfold hold
  split
  · next writes => simp [writes]
  · next other => split <;> simp_all

theorem hold_eq_nothing {lock : RwLock ι} {i : ι} :
    lock.hold i = .nothing ↔ lock.writer ≠ some i ∧ i ∉ lock.readers := by
  unfold hold
  split
  · next writes => simp [writes]
  · next other => split <;> simp_all

theorem Free.hold {lock : RwLock ι} (free : lock.Free) (i : ι) : lock.hold i = .nothing :=
  hold_eq_nothing.mpr ⟨by simp [free.2], by simp [free.1]⟩

theorem free_of_hold {lock : RwLock ι} (nobody : ∀ i, lock.hold i = .nothing) : lock.Free := by
  constructor
  · refine List.eq_nil_iff_forall_not_mem.mpr fun i => (hold_eq_nothing.mp (nobody i)).2
  · cases writer : lock.writer with
    | none => rfl
    | some i => exact absurd writer (hold_eq_nothing.mp (nobody i)).1

theorem hold_congr {lock lock' : RwLock ι} {j : ι}
    (writer : lock'.writer = some j ↔ lock.writer = some j)
    (reader : j ∈ lock'.readers ↔ j ∈ lock.readers) : lock'.hold j = lock.hold j := by
  unfold hold
  simp only [writer, reader]

/-- A call changes what its thread has of the lock as it should, and nothing of the others'. -/
theorem Proper.step {lock lock' : RwLock ι} {i : ι} {call : LockCall} {after : Hold}
    (proper : lock.Proper) (mine : (lock.hold i).after call = some after)
    (stepped : lock.step i call = some lock') :
    lock'.Proper ∧ lock'.hold i = after ∧ ∀ j, j ≠ i → lock'.hold j = lock.hold j := by
  cases call with
  | acquireRead =>
    simp only [RwLock.step] at stepped
    split at stepped
    · next idle =>
      cases stepped
      rw [Option.isNone_iff_eq_none] at idle
      cases had : lock.hold i with
      | nothing =>
        rw [had] at mine
        cases mine
        obtain ⟨-, outside⟩ := hold_eq_nothing.mp had
        refine ⟨⟨List.nodup_cons.mpr ⟨outside, proper.once⟩, fun j writes => ?_⟩, ?_, fun j other => ?_⟩
        · cases idle.symm.trans writes
        · exact hold_eq_reading.mpr ⟨by simp [idle], List.mem_cons_self⟩
        · exact hold_congr Iff.rfl (by simp [other])
      | _ => rw [had] at mine; cases mine
    · cases stepped
  | releaseRead =>
    cases stepped
    cases had : lock.hold i with
    | reading =>
      rw [had] at mine
      cases mine
      obtain ⟨other, inside⟩ := hold_eq_reading.mp had
      refine ⟨⟨proper.once.erase i, fun j writes => ?_⟩, ?_, fun j other => ?_⟩
      · rw [proper.alone j writes] at inside
        cases inside
      · exact hold_eq_nothing.mpr ⟨other, proper.once.not_mem_erase⟩
      · exact hold_congr Iff.rfl (List.mem_erase_of_ne other)
    | _ => rw [had] at mine; cases mine
  | acquireWrite =>
    simp only [RwLock.step] at stepped
    split at stepped
    · next idle =>
      cases stepped
      rw [Option.isNone_iff_eq_none, List.isEmpty_iff] at idle
      obtain ⟨idle, empty⟩ := idle
      cases had : lock.hold i with
      | nothing =>
        rw [had] at mine
        cases mine
        refine ⟨⟨proper.once, fun _ _ => empty⟩, hold_eq_writing.mpr rfl, fun j other => ?_⟩
        exact hold_congr (by simp [idle, other.symm]) Iff.rfl
      | _ => rw [had] at mine; cases mine
    · cases stepped
  | releaseWrite =>
    cases stepped
    cases had : lock.hold i with
    | writing =>
      rw [had] at mine
      cases mine
      have writes := hold_eq_writing.mp had
      have empty := proper.alone i writes
      refine ⟨⟨proper.once, fun _ _ => empty⟩, ?_, fun j other => ?_⟩
      · exact hold_eq_nothing.mpr ⟨by simp, by simp [empty]⟩
      · exact hold_congr (by simp [writes, other.symm]) Iff.rfl
    | _ => rw [had] at mine; cases mine

end RwLock

namespace Program
section
variable {use : S.Op → Option LockCall} {hold : Hold}

/-- With this of the lock to begin with, the program makes the calls of the lock in their order
and has nothing of it when it returns. -/
def Disciplined (use : S.Op → Option LockCall) :
    Program S ε α → Hold → Prop
  | .done _, hold => hold = .nothing
  | .call op next, hold =>
    match use op with
    | none => ∀ reply, (next reply).Disciplined use hold
    | some asked => ∃ after, hold.after asked = some after ∧
        ∀ reply, (next reply).Disciplined use after

theorem Disciplined.call_apart {op : S.Op} {next : S.Reply op → Program S ε α} (apart : use op = none) :
    (Program.call op next).Disciplined use hold ↔
      ∀ reply, (next reply).Disciplined use hold := by
  simp only [Disciplined, apart]

theorem Disciplined.call_lock {op : S.Op} {next : S.Reply op → Program S ε α} {asked : LockCall}
    (uses : use op = some asked) :
    (Program.call op next).Disciplined use hold ↔
      ∃ after, hold.after asked = some after ∧ ∀ reply, (next reply).Disciplined use after := by
  simp only [Disciplined, uses]

theorem Disciplined.bind {program : Program S ε α} {rest : α → Program S ε β}
    (first : program.Disciplined use hold)
    (later : ∀ value, (rest value).Disciplined use .nothing) :
    (program.bind rest).Disciplined use hold := by
  induction program generalizing hold with
  | done result =>
    have first : hold = .nothing := first
    subst first
    cases result with
    | ok value => exact later value
    | error e => exact rfl
  | call op next ih =>
    cases uses : use op with
    | none =>
      have first := (call_apart uses).mp first
      exact (call_apart uses).mpr fun reply => ih reply (first reply)
    | some asked =>
      obtain ⟨after, mine, first⟩ := (call_lock uses).mp first
      exact (call_lock uses).mpr ⟨after, mine, fun reply => ih reply (first reply)⟩

theorem Disciplined.attempt {program : Program S ε α} (first : program.Disciplined use hold) :
    program.attempt.Disciplined use hold := by
  induction program generalizing hold with
  | done result => exact first
  | call op next ih =>
    cases uses : use op with
    | none =>
      have first := (call_apart uses).mp first
      exact (call_apart uses).mpr fun reply => ih reply (first reply)
    | some asked =>
      obtain ⟨after, mine, first⟩ := (call_lock uses).mp first
      exact (call_lock uses).mpr ⟨after, mine, fun reply => ih reply (first reply)⟩

/-- A program that leaves the lock alone keeps what there is of it for what comes next. -/
theorem Calls.disciplined_attempt {program : Program S ε α} {rest : Except ε α → Program S ε β}
    (calls : program.Calls fun op => use op = none)
    (later : ∀ result, (rest result).Disciplined use hold) :
    (program.attempt.bind rest).Disciplined use hold := by
  induction program with
  | done result => exact later result
  | call op next ih =>
    exact (Disciplined.call_apart calls.1).mpr fun reply => ih reply (calls.2 reply)

theorem Calls.disciplined {program : Program S ε α}
    (calls : program.Calls fun op => use op = none) :
    program.Disciplined use .nothing := by
  induction program with
  | done result => exact rfl
  | call op next ih =>
    exact (Disciplined.call_apart calls.1).mpr fun reply => ih reply (calls.2 reply)

/-- A guard that is taken for a body and dropped at its end. -/
theorem Calls.disciplined_guarded {body : Program S ε α} {acquire release : S.Op}
    {acquired released : LockCall} (calls : body.Calls fun op => use op = none)
    (acquires : use acquire = some acquired) (taken : Hold.nothing.after acquired = some hold)
    (releases : use release = some released) (dropped : hold.after released = some .nothing) :
    ((Program.perform acquire).bind fun _ =>
      body.guarded ((Program.perform release).bind fun _ => .done (.ok ()))).Disciplined use
        .nothing := by
  refine (Disciplined.call_lock acquires).mpr ⟨hold, taken, fun _ => ?_⟩
  refine calls.disciplined_attempt fun result => ?_
  exact (Disciplined.call_lock releases).mpr ⟨.nothing, dropped, fun _ => rfl⟩

end

/-- However the program returns, it is like this. -/
def Ends (post : Except ε α → Prop) : Program S ε α → Prop
  | .done result => post result
  | .call _ next => ∀ reply, (next reply).Ends post

theorem Ends.attempt_bind {post : Except ε β → Prop} {rest : Except ε α → Program S ε β}
    (later : ∀ result, (rest result).Ends post) (program : Program S ε α) :
    (program.attempt.bind rest).Ends post := by
  induction program with
  | done result => exact later result
  | call op next ih => exact ih

theorem Ends.bind {post : Except ε α → Prop} {after : Except ε β → Prop} {program : Program S ε α}
    {rest : α → Program S ε β} (first : program.Ends post)
    (later : ∀ value, post (.ok value) → (rest value).Ends after)
    (failed : ∀ e, post (.error e) → after (.error e)) : (program.bind rest).Ends after := by
  induction program with
  | done result =>
    cases result with
    | ok value => exact later value first
    | error e => exact failed e first
  | call op next ih => exact fun reply => ih reply (first reply)

def Child (child program : Program S ε α) : Prop :=
  ∃ (op : S.Op) (next : S.Reply op → Program S ε α) (reply : S.Reply op),
    program = .call op next ∧ child = next reply

theorem child_wellFounded : WellFounded (Child : Program S ε α → Program S ε α → Prop) := by
  refine ⟨fun program => ?_⟩
  induction program with
  | done result =>
    refine ⟨_, ?_⟩
    rintro child ⟨op, next, reply, impossible, -⟩
    cases impossible
  | call op next ih =>
    refine ⟨_, ?_⟩
    rintro child ⟨_, _, reply, same, rfl⟩
    cases same
    exact ih reply

end Program

variable [DecidableEq ι]

/-- Threads whose lock is part of the world. Its calls are let through as the lock says, and every
other call has an outcome in every world. -/
structure Locking (sem : ι → Semantics S W) (use : S.Op → Option LockCall)
    (lock : W → RwLock ι) : Prop where
  apart : ∀ {i op w reply w'}, use op = none → sem i op w reply w' → lock w' = lock w
  passes : ∀ {i op call w reply w'}, use op = some call → sem i op w reply w' →
    (lock w).step i call = some (lock w')
  serial : ∀ {op} i w, use op = none → ∃ reply w', sem i op w reply w'
  admits : ∀ {i op call w lock'}, use op = some call → (lock w).step i call = some lock' →
    ∃ reply w', sem i op w reply w'

section
variable {sem : ι → Semantics S W} {use : S.Op → Option LockCall}
  {lock : W → RwLock ι} {s s' : System S W ε α ι} {i : ι}
  {policy : System S W ε α ι → ι → Prop}

/-- A thread makes its next call. To read while others do it needs the leave of the policy, which
may look at everything, such as at who waits to write. -/
def Proceeds (sem : ι → Semantics S W) (use : S.Op → Option LockCall) (lock : W → RwLock ι)
    (policy : System S W ε α ι → ι → Prop) (s s' : System S W ε α ι) : Prop :=
  ∃ i, Moves sem i s s' ∧ ∀ op, (s.threads i).nextCall = some op → use op = some .acquireRead →
    (lock s.world).readers = [] ∨ policy s i

/-- Every thread keeps to the lock, with what it has of it. -/
structure Abiding (use : S.Op → Option LockCall) (lock : W → RwLock ι)
    (s : System S W ε α ι) : Prop where
  proper : (lock s.world).Proper
  threads : ∀ i, (s.threads i).Disciplined use ((lock s.world).hold i)

theorem Abiding.moves (locking : Locking sem use lock) (abiding : Abiding use lock s)
    (moves : Moves sem i s s') : Abiding use lock s' := by
  cases moves with
  | @call threads w w' op next reply known called =>
    have disciplined := abiding.threads i
    simp only [known] at disciplined
    cases uses : use op with
    | none =>
      have same := locking.apart uses called
      have rest := (Program.Disciplined.call_apart uses).mp disciplined
      refine ⟨by rw [same]; exact abiding.proper, fun j => ?_⟩
      simp only [same]
      by_cases mine : j = i
      · subst mine
        rw [Function.update_self]
        exact rest reply
      · rw [Function.update_of_ne mine]
        exact abiding.threads j
    | some call =>
      obtain ⟨after, changed, rest⟩ := (Program.Disciplined.call_lock uses).mp disciplined
      obtain ⟨proper, held, others⟩ := abiding.proper.step changed (locking.passes uses called)
      refine ⟨proper, fun j => ?_⟩
      by_cases mine : j = i
      · subst mine
        simp only [Function.update_self, held]
        exact rest reply
      · simp only [Function.update_of_ne mine, others j mine]
        exact abiding.threads j

theorem proceeds_of_call {op : S.Op} {next : S.Reply op → Program S ε α}
    (known : s.threads i = .call op next) (outcome : ∃ reply w', sem i op s.world reply w')
    (leave : use op = some .acquireRead → (lock s.world).readers = []) :
    ∃ s', Proceeds sem use lock policy s s' := by
  obtain ⟨reply, w', called⟩ := outcome
  refine ⟨_, i, .call known called, fun op' asked acquires => .inl ?_⟩
  rw [known] at asked
  cases asked
  exact leave acquires

/-- A thread that has something of the lock can go on. -/
theorem Abiding.holder_proceeds (locking : Locking sem use lock)
    (abiding : Abiding use lock s) (holds : (lock s.world).hold i ≠ .nothing) :
    ∃ s', Proceeds sem use lock policy s s' := by
  have disciplined := abiding.threads i
  cases known : s.threads i with
  | done result =>
    rw [known] at disciplined
    exact absurd disciplined holds
  | call op next =>
    rw [known] at disciplined
    cases uses : use op with
    | none =>
      refine proceeds_of_call known (locking.serial i _ uses) fun acquires => ?_
      cases uses.symm.trans acquires
    | some call =>
      obtain ⟨after, mine, -⟩ := (Program.Disciplined.call_lock uses).mp disciplined
      -- what it has of the lock it can only give back
      have gives : ∃ lock', (lock s.world).step i call = some lock' ∧ call ≠ .acquireRead := by
        cases had : (lock s.world).hold i with
        | nothing => exact absurd had holds
        | reading =>
          rw [had] at mine
          cases call with
          | releaseRead => exact ⟨_, rfl, by simp⟩
          | _ => cases mine
        | writing =>
          rw [had] at mine
          cases call with
          | releaseWrite => exact ⟨_, rfl, by simp⟩
          | _ => cases mine
      obtain ⟨lock', stepped, gives⟩ := gives
      refine proceeds_of_call known (locking.admits uses stepped) fun acquires => ?_
      cases uses.symm.trans acquires
      exact absurd rfl gives

/-- Where the lock is free every thread that has not returned can go on. -/
theorem Abiding.proceeds_of_free (locking : Locking sem use lock)
    (abiding : Abiding use lock s) (free : (lock s.world).Free) {op : S.Op}
    {next : S.Reply op → Program S ε α} (known : s.threads i = .call op next) :
    ∃ s', Proceeds sem use lock policy s s' := by
  have disciplined := abiding.threads i
  rw [known, free.hold i] at disciplined
  refine proceeds_of_call known ?_ fun _ => free.1
  cases uses : use op with
  | none => exact locking.serial i _ uses
  | some call =>
    obtain ⟨after, mine, -⟩ := (Program.Disciplined.call_lock uses).mp disciplined
    cases call with
    | acquireRead =>
      exact locking.admits uses (if_pos (by rw [free.2]; rfl))
    | acquireWrite =>
      exact locking.admits uses (if_pos (by rw [free.1, free.2]; exact ⟨rfl, rfl⟩))
    | _ => cases mine

/-- A run that cannot go on is over: nobody has anything of the lock, and all have returned. -/
theorem Abiding.returned_of_stuck (locking : Locking sem use lock)
    (abiding : Abiding use lock s) (stuck : ∀ s', ¬ Proceeds sem use lock policy s s') :
    (lock s.world).Free ∧ ∀ i, ∃ result, s.threads i = .done result := by
  have free : (lock s.world).Free := by
    refine RwLock.free_of_hold fun i => ?_
    by_contra holds
    obtain ⟨s', goes⟩ := abiding.holder_proceeds locking holds
    exact stuck s' goes
  refine ⟨free, fun i => ?_⟩
  cases known : s.threads i with
  | done result => exact ⟨result, rfl⟩
  | call op next =>
    obtain ⟨s', goes⟩ := abiding.proceeds_of_free locking free known
    exact absurd goes (stuck s')

theorem Abiding.run (locking : Locking sem use lock) (abiding : Abiding use lock s)
    (run : Relation.ReflTransGen (Proceeds sem use lock policy) s s') : Abiding use lock s' := by
  induction run with
  | refl => exact abiding
  | tail _ step ih =>
    obtain ⟨i, moves, -⟩ := step
    exact ih.moves locking moves

theorem Moves.ends {post : ι → Except ε α → Prop} (moves : Moves sem i s s')
    (ends : ∀ j, (s.threads j).Ends (post j)) (j : ι) : (s'.threads j).Ends (post j) := by
  cases moves with
  | @call threads w w' op next reply known called =>
    by_cases mine : j = i
    · subst mine
      have whole := ends j
      simp only [known] at whole
      simp only [Function.update_self]
      exact whole reply
    · simp only [Function.update_of_ne mine]
      exact ends j

theorem ends_of_run {post : ι → Except ε α → Prop} (ends : ∀ j, (s.threads j).Ends (post j))
    (run : Relation.ReflTransGen (Proceeds sem use lock policy) s s') :
    ∀ j, (s'.threads j).Ends (post j) := by
  induction run with
  | refl => exact ends
  | tail _ step ih =>
    obtain ⟨i, moves, -⟩ := step
    exact moves.ends ih

/-- Finitely many threads make finitely many calls. -/
theorem moves_acc (crew : Finset ι) (idle : ∀ i, i ∉ crew → ∃ result, s.threads i = .done result) :
    Acc (fun s' s => ∃ i, Moves sem i s s') s := by
  -- each call replaces one of the programs by what is left of it
  have whole := Program.child_wellFounded.cutExpand.apply (crew.val.map s.threads)
  generalize same : crew.val.map s.threads = programs at whole
  induction whole generalizing s with
  | intro programs _ ih =>
    subst same
    refine ⟨_, ?_⟩
    rintro s' ⟨i, moves⟩
    have member : i ∈ crew := by
      by_contra outside
      obtain ⟨result, finished⟩ := idle i outside
      exact moves.not_done finished
    have others : (crew.erase i).val.map s'.threads = (crew.erase i).val.map s.threads :=
      Multiset.map_congr rfl fun j there => moves.others (Finset.ne_of_mem_erase there)
    have split : ∀ threads : ι → Program S ε α,
        crew.val.map threads = {threads i} + (crew.erase i).val.map threads := by
      intro threads
      rw [Multiset.singleton_add, ← Multiset.map_cons, Finset.erase_val, Multiset.cons_erase member]
    refine ih _ ?_ (fun j outside => ?_) rfl
    · rw [split s'.threads, split s.threads, others]
      refine Relation.cutExpand_single_add ?_ _
      cases moves with
      | @call threads w w' op next reply known called =>
        exact ⟨op, next, reply, known, Function.update_self ..⟩
    · have apart : j ≠ i := by
        rintro rfl
        exact outside member
      rw [moves.others apart]
      exact idle j outside

theorem proceeds_acc (crew : Finset ι) (idle : ∀ i, i ∉ crew → ∃ result, s.threads i = .done result) :
    Acc (fun s' s => Proceeds sem use lock policy s s') s := by
  have finite : Acc (fun s' s => ∃ i, Moves sem i s s') s := moves_acc crew idle
  refine Subrelation.accessible ?_ finite
  rintro s' s ⟨i, moves, -⟩
  exact ⟨i, moves⟩

end

/-- A run that comes to an end can be brought there. -/
theorem exists_last {σ : Type} {step : σ → σ → Prop} {s : σ} (ends : Acc (fun s' s => step s s') s) :
    ∃ s', Relation.ReflTransGen step s s' ∧ ∀ s'', ¬ step s' s'' := by
  induction ends with
  | intro s _ ih =>
    by_cases more : ∃ s', step s s'
    · obtain ⟨s', first⟩ := more
      obtain ⟨last, rest, stuck⟩ := ih s' first
      exact ⟨last, .head first rest, stuck⟩
    · exact ⟨s, .refl, fun s' first => more ⟨s', first⟩⟩

end Lithium.Effects
