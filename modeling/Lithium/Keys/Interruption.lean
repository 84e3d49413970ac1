import Lithium.Keys.Concurrency

/-! A run that is cut off while a rotation is at work. Nobody else changes anything then, so
what is left is what the rotation by itself leaves when it is cut off, from a store as it is
when no rotation is at work. -/
namespace Lithium.Keys
open Effects Storage

def rotating (X : Crypto) (cached : Bool) : Prog Bytes := do
  rotateNow X cached
  return []

def rotatingRest (rest : Prog Unit) : Prog Bytes := do
  Program.guarded rest (do let _ ← call .unlockWrite; return ())
  return []

theorem sem_writer {env : Env} {tid : Tid} {op : Op} {w w' : World} {reply : Reply op}
    (other : op ≠ .lockWrite) (step : sem env tid op w reply w') :
    w'.control.writer = w.control.writer ∨ w'.control.writer = none := by
  by_cases free : locking op = false
  · exact .inl (sem_locks free step).2
  · cases op with
    | lockRead =>
      rw [(sem_lockRead step).2]
      exact .inl rfl
    | unlockRead =>
      rw [sem_unlockRead step]
      exact .inl rfl
    | lockWrite => exact absurd rfl other
    | unlockWrite =>
      rw [sem_unlockWrite step]
      exact .inr rfl
    | _ => exact absurd rfl free

namespace Regime
variable {G : Type}

/-- Thread `i` has come this far with a rotation of a store in order. -/
structure AtWork (R : Regime G) (X : Crypto) (cached : Bool) (i : Tid) (rest : Prog Unit)
    (v : World × G) : Prop where
  writer : v.1.control.writer = some i
  calls : rest.Calls fun op => locking op = false
  since : ∃ w, R.holds w ∧ v.2 = R.value w ∧
    Leads (R.sem i) (rotateLocked X cached, w.lockedBy i) (rest, v.1)

/-- Where a thread is that does not hold the write lock: a rotation has yet to take it or has
returned, a client never takes it. -/
structure Unlocked (X : Crypto) (cached : Bool) (rotates : Tid → Prop) (i : Tid)
    (thread : Prog Bytes) (w : World) : Prop where
  writer : w.control.writer ≠ some i
  rotation : rotates i → thread = rotating X cached ∨ ∃ result, thread = .done result
  client : ¬ rotates i → thread.Calls fun op => op ≠ Op.lockWrite

/-- A rotation is at work, or the thread does not hold the write lock. -/
def Placed (R : Regime G) (X : Crypto) (cached : Bool) (rotates : Tid → Prop) (i : Tid)
    (thread : Prog Bytes) (v : World × G) : Prop :=
  (rotates i ∧ ∃ rest, thread = rotatingRest rest ∧ R.AtWork X cached i rest v) ∨
    Unlocked X cached rotates i thread v.1

section
variable {R : Regime G} {X : Crypto} {cached : Bool} {rotates : Tid → Prop} {i : Tid}
  {thread : Prog Bytes} {v v' : World × G}

theorem Placed.unmoved (placed : R.Placed X cached rotates i thread v) (moved : R.Unmoved i v v') :
    R.Placed X cached rotates i thread v' := by
  obtain ⟨rotation, rest, left, work⟩ | free := placed
  · rw [moved.alone work.writer]
    exact .inl ⟨rotation, rest, left, work⟩
  · exact .inr ⟨fun writes => free.writer (moved.writes.mp writes), free.rotation, free.client⟩

theorem Unlocked.call {op : Op} {next : Reply op → Prog Bytes} {reply : Reply op} {w w' : World}
    (other : ¬ rotates i) (free : Unlocked X cached rotates i (.call op next) w)
    (step : R.sem i op w reply w') : Unlocked X cached rotates i (next reply) w' := by
  obtain ⟨allowed, rest⟩ := free.client other
  refine ⟨?_, fun rotation => absurd rotation other, fun _ => rest reply⟩
  obtain same | none := sem_writer allowed (R.meaning step)
  · rw [same]
    exact free.writer
  · rw [none]
    nofun

theorem Inv.begins {reply : Reply .lockWrite} (inv : R.Inv v)
    (step : tracking R.track (R.sem i) .lockWrite v reply v') :
    R.AtWork X cached i (rotateLocked X cached) v' := by
  obtain ⟨called, tracked⟩ := step
  obtain ⟨⟨idle, _⟩, same⟩ := sem_lockWrite (R.meaning called)
  have locked : v'.1 = v.1.lockedBy i := same
  have writer : v'.1.control.writer = some i := by rw [locked]; rfl
  obtain ⟨holds, valued⟩ := inv.rest idle
  refine ⟨writer, rotateLocked_calls not_locking_of_special (fun _ => rfl) (fun _ => rfl) X rfl rfl cached,
    v.1, holds, ?_, ?_⟩
  · rw [tracked, track_locked writer, valued]
  · rw [locked]
    exact .refl _

theorem AtWork.next {op : Op} {next : Reply op → Prog Unit} {reply : Reply op}
    (work : R.AtWork X cached i (.call op next) v)
    (step : tracking R.track (R.sem i) op v reply v') : R.AtWork X cached i (next reply) v' := by
  obtain ⟨called, tracked⟩ := step
  obtain ⟨allowed, rest⟩ := work.calls
  have writer : v'.1.control.writer = some i :=
    (sem_locks allowed (R.meaning called)).2.trans work.writer
  obtain ⟨w, holds, valued, path⟩ := work.since
  refine ⟨writer, rest reply, w, holds, ?_, path.trans (.next called (.refl _))⟩
  rw [tracked, track_locked writer, valued]

theorem Placed.call {op : Op} {next : Reply op → Prog Bytes} {reply : Reply op} (inv : R.Inv v)
    (placed : R.Placed X cached rotates i (.call op next) v)
    (step : tracking R.track (R.sem i) op v reply v') :
    R.Placed X cached rotates i (next reply) v' := by
  obtain ⟨rotation, rest, left, work⟩ | free := placed
  · cases rest with
    | call op' next' =>
      cases left
      exact .inl ⟨rotation, next' reply, rfl, work.next step⟩
    | done result =>
      -- the lock is all that is left to give back
      cases left
      refine .inr ⟨?_, fun _ => .inr ?_, fun other => absurd rotation other⟩
      · rw [sem_unlockWrite (R.meaning step.1)]
        nofun
      · cases result with
        | ok _ => exact ⟨_, rfl⟩
        | error e => exact ⟨_, rfl⟩
  · by_cases rotation : rotates i
    · obtain waiting | ⟨result, finished⟩ := free.rotation rotation
      · cases waiting
        exact .inl ⟨rotation, rotateLocked X cached, rfl, inv.begins step⟩
      · cases finished
    · exact .inr (free.call rotation step.1)

/-- Wherever a run is cut off: what is so at every moment, that the value has not become less,
and what a rotation at work has left. -/
theorem reachable {threads : Tid → Prog Bytes} (post : Tid → Except LithiumError Bytes → G → Prop)
    {w : World} {s : System Calls World LithiumError Bytes Tid}
    (specs : ∀ i, Triple (R.thread i) (fun v => Outside i v.1) (threads i) fun result v =>
      Outside i v.1 ∧ post i result v.2)
    (rotations : ∀ i, rotates i → threads i = rotating X cached)
    (clients : ∀ i, ¬ rotates i → (threads i).Calls fun op => op ≠ Op.lockWrite)
    (holds : R.holds w) (unlocked : w.control.writer = none ∧ w.control.readers = [])
    (run : Interleaves R.sem ⟨threads, w⟩ s) :
    ∃ g, (R.Inv (s.world, g) ∧ R.le (R.value w) g) ∧ Underway R.thread (fun i result v =>
        Outside i v.1 ∧ post i result v.2) ⟨s.threads, s.world, g⟩ ∧
      ∀ i, s.world.control.writer = some i → rotates i ∧ ∃ w, R.holds w ∧ g = R.value w ∧
        Stops (R.sem i) (rotateLocked X cached) (w.lockedBy i) s.world := by
  obtain ⟨g, tracked⟩ := run.tracked R.track (R.value w)
  have start : R.Inv (w, R.value w) := ⟨⟨fun _ _ => unlocked.2, fun _ some => absurd unlocked.2 some⟩,
    fun _ => ⟨holds, rfl⟩⟩
  have free : ∀ i, w.control.writer ≠ some i := fun i => by
    rw [unlocked.1]
    nofun
  have outside : ∀ i, Outside i w := fun i => ⟨by rw [unlocked.2]; rfl, free i⟩
  have every : ∀ s', Interleaves (fun i => tracking R.track (R.sem i)) ⟨threads, w, R.value w⟩ s' →
      (R.Inv s'.world ∧ R.le (R.value w) s'.world.2) ∧
        Underway R.thread (fun i result v => Outside i v.1 ∧ post i result v.2) s' ∧
        ∀ i, R.Placed X cached rotates i (s'.threads i) s'.world := by
    intro s' run
    induction run with
    | refl => exact ⟨⟨start, R.le_refl _⟩, fun i => ⟨_, .refl R i _, specs i _ (outside i)⟩, fun i =>
        .inr ⟨free i, fun rotation => .inl (rotations i rotation), clients i⟩⟩
    | tail _ moved ih =>
      obtain ⟨⟨inv, grown⟩, underway, placed⟩ := ih
      obtain ⟨i, moves⟩ := moved
      obtain ⟨inv', guar, underway'⟩ := R.crew.moves inv underway moves
      -- any other thread can tell that the value has grown
      have grown' := (guar.1 (i + 1) (Nat.succ_ne_self i)).grown
      refine ⟨⟨inv', R.le_trans grown grown'⟩, underway', fun j => ?_⟩
      obtain @⟨threads, v, v', op, next, reply, known, called⟩ := moves
      dsimp only
      by_cases same : j = i
      · subst same
        rw [Function.update_self]
        exact Placed.call inv (known ▸ placed j) called
      · rw [Function.update_of_ne same]
        exact (placed j).unmoved (guar.1 j same)
  obtain ⟨inv, underway, placed⟩ := every _ tracked
  refine ⟨g, inv, underway, fun i writes => ?_⟩
  obtain ⟨rotation, rest, _, work⟩ | free := placed i
  · obtain ⟨w', holds', valued, path⟩ := work.since
    exact ⟨rotation, w', holds', valued, rest, path⟩
  · exact absurd writes free.writer

end
end Regime
end Lithium.Keys
