import Lithium.Effects.Threads
import Lithium.Keys.Progress
import Lithium.Keys.Solitary

/-! The threads of a manager and its read-write lock. Clients work side by side under the
read lock, a rotation has the store to itself. A `Regime` says what the store is like
whenever no rotation is at work; it holds in every interleaving if one client among others
keeps it and one rotation by itself restores it. -/
namespace Lithium.Keys
open Effects Storage

inductive Operation where
  | secret32 (label : Bytes)
  | blob (label : Bytes) (generate : Except LithiumError Bytes)
  | sign
  | rotate

def Operation.isClient : Operation → Bool
  | .rotate => false
  | _ => true

theorem Operation.rotate_of_not_client {op : Operation} (other : ¬ op.isClient = true) : op = .rotate := by
  cases op <;> first | rfl | exact absurd rfl other

def Operation.program (X : Crypto) (cached : Bool) (mode : CreateNewMode) : Operation → Prog Bytes
  | .secret32 label => do return (← getOrCreateSecret32 X cached mode label).1
  | .blob label generate => loadOrCreateSealedBlob X cached mode label generate
  | .sign => do
    let (edSeed, diliSeed) ← signingSeeds X cached
    return edSeed.1 ++ diliSeed.1
  | .rotate => do
    rotateNow X cached
    return []

def World.relock (w : World) (readers : List Tid) (writer : Option Tid) : World :=
  { w with control := { w.control with readers := readers, writer := writer } }

def Temps (i : Tid) (w w' : World) : Prop :=
  ∀ path, Owns i w path → Owns i w' path ∧ w'.fs.get path = w.fs.get path

/-- Thread `i` holds neither lock. -/
def Outside (i : Tid) (w : World) : Prop :=
  w.control.readers.count i = 0 ∧ w.control.writer ≠ some i

/-- Thread `i` rotates the store, whose value was `g` before. -/
structure Writing {G : Type} (i : Tid) (held : World → Prop) (g : G) (v : World × G) : Prop where
  strong : held v.1
  writer : v.1.control.writer = some i
  readers : v.1.control.readers = []
  value : v.2 = g

/-- What the threads of a manager agree on. The calls are those of the system, or some of
them. Whenever no rotation is at work the store `holds`; a client's step changes it only as
`stays` says; and the `value` of the store never gets less. In a `gated` regime nobody takes
the read lock once the manager is poisoned. -/
structure Regime (G : Type) where
  sem : Tid → Semantics Calls World
  env : Tid → Env
  client : Tid → Prop
  gated : Prop
  holds : World → Prop
  value : World → G
  le : G → G → Prop
  stays : World → World → Prop
  meaning : ∀ {i op w reply w'}, sem i op w reply w' → Keys.sem (env i) i op w reply w'
  gate : gated → ∀ {i w reply w'}, sem i .lockRead w reply w' → w.control.poisoned = false
  le_refl : ∀ g, le g g
  le_trans : ∀ {g g' g''}, le g g' → le g' g'' → le g g''
  stays_trans : ∀ {w w' w''}, stays w w' → stays w' w'' → stays w w''
  stays_relock : ∀ w readers writer, stays w (w.relock readers writer)
  holds_relock : ∀ {w}, holds w → ∀ readers writer, holds (w.relock readers writer)
  value_relock : ∀ w readers writer, value (w.relock readers writer) = value w
  grows : ∀ {w w'}, holds w → stays w w' → le (value w) (value w')
  quiet : ∀ {i w w'}, holds w → Step i w.view w w' → holds w' ∧ stays w w'

def locking : Op → Bool
  | .lockRead | .unlockRead | .lockWrite | .unlockWrite => true
  | _ => false

def changesControl : Op → Bool
  | .lockStore | .storeMk _ | .setPoisoned | .setCachedMk _ => true
  | op => locking op

section
variable {env : Env} {tid : Tid} {op : Op} {w w' : World} {reply : Reply op}

theorem sem_control (aside : changesControl op = false) (step : sem env tid op w reply w') :
    w'.control = w.control := by
  obtain ⟨_, rfl, _⟩ | ⟨choice, effected⟩ := sem_cases step
  · rfl
  · cases op with
    | removeEntry root =>
      simp only [effect] at effected
      split at effected
      · cases effected
        rfl
      · obtain ⟨fs, _, same⟩ := Option.map_eq_some_iff.mp effected
        cases same
        rfl
    | _ =>
      simp only [changesControl, locking, Bool.true_eq_false] at aside <;>
        simp only [effect] at effected <;> (try split at effected) <;> (try split at effected) <;>
        cases effected <;> rfl

theorem sem_locks (other : locking op = false) (step : sem env tid op w reply w') :
    w'.control.readers = w.control.readers ∧ w'.control.writer = w.control.writer := by
  by_cases aside : changesControl op = false
  · rw [sem_control aside step]
    exact ⟨rfl, rfl⟩
  · obtain ⟨_, rfl, _⟩ | ⟨choice, effected⟩ := sem_cases step
    · exact ⟨rfl, rfl⟩
    · cases op <;> first | exact absurd other aside | skip
      all_goals
        simp only [effect] at effected
        (try split at effected) <;> cases effected <;> exact ⟨rfl, rfl⟩

theorem sem_live (other : op ≠ .setPoisoned) (step : sem env tid op w reply w') :
    w'.control.poisoned = w.control.poisoned := by
  by_cases aside : changesControl op = false
  · rw [sem_control aside step]
  · obtain ⟨_, rfl, _⟩ | ⟨choice, effected⟩ := sem_cases step
    · rfl
    · cases op <;> first | exact absurd rfl aside | exact absurd rfl other | skip
      all_goals
        simp only [effect] at effected
        (try split at effected) <;> cases effected <;> rfl

theorem sem_poisoned (poisoned : w.control.poisoned = true) (step : sem env tid op w reply w') :
    w'.control.poisoned = true := by
  by_cases other : op = .setPoisoned
  · subst other
    rw [sem_setPoisoned step]
  · exact (sem_live other step).trans poisoned

end

theorem Temps.refl (i : Tid) (w : World) : Temps i w w := fun _ owns => ⟨owns, rfl⟩

theorem Temps.trans {i : Tid} {w w' w'' : World} (first : Temps i w w') (second : Temps i w' w'') :
    Temps i w w'' := fun path owns =>
  have here := first path owns
  have there := second path here.1
  ⟨there.1, there.2.trans here.2⟩

theorem Temps.of_step {i j : Tid} {view : View} {w w' : World} (step : Step i view w w') (apart : j ≠ i) :
    Temps j w w' := fun _ owns => ⟨step.owns owns, step.others apart owns⟩

namespace Regime
variable {G : Type} (R : Regime G) {i : Tid} {w w' : World} {v v' : World × G} {α : Type}

theorem stays_refl (w : World) : R.stays w w := R.stays_relock w w.control.readers w.control.writer

/-- A rotation excludes all clients. -/
def Locks (c : Control) : Prop :=
  (∀ i, c.writer = some i → c.readers = []) ∧ (R.gated → c.readers ≠ [] → c.poisoned = false)

/-- Thread `i` holds the read lock. -/
structure Reading (i : Tid) (w : World) : Prop where
  locks : R.Locks w.control
  once : w.control.readers.count i = 1
  holds : R.holds w

def reader (i : Tid) : Protocol Calls World where
  sem := R.sem i
  inv := R.Reading i
  rely w w' := Temps i w w' ∧ R.stays w w'
  guar w w' := w'.control = w.control ∧ R.stays w w' ∧ ∀ j, j ≠ i → Temps j w w'
  refl w := ⟨.refl i w, R.stays_refl w⟩
  trans first second := ⟨first.1.trans second.1, R.stays_trans first.2 second.2⟩

theorem reader_party (i : Tid) : Party (R.reader i) (R.env i) i where
  meaning := R.meaning
  owned := fun moved _ owns => moved.1 _ owns

variable {R} in
theorem Reading.kept (reading : R.Reading i w) (control : w'.control = w.control) (holds : R.holds w') :
    R.Reading i w' := ⟨control ▸ reading.locks, control ▸ reading.once, holds⟩

theorem reader_keeps {held : World → Prop} (stable : ∀ {w w'}, held w → R.stays w w' → held w') :
    Keeps (R.reader i) i held where
  stable := fun w w' here moved _ => stable here moved.2
  quiet := fun {w w'} here reading step => by
    obtain ⟨holds', stays⟩ := R.quiet reading.holds step
    exact ⟨reading.kept step.control holds', ⟨step.control, stays, fun j apart => .of_step step apart⟩,
      stable here stays⟩

theorem reader_publishes {path : Path} {data : Bytes} {free held after : World → Prop}
    (before : ∀ {w w'}, held w → R.stays w w' → held w')
    (behind : ∀ {w w'}, after w → R.stays w w' → after w')
    (put : ∀ {w w'}, held w → R.Reading i w → free w →
      Step i (Function.update w.view path (some (privateFile data))) w w' →
      R.holds w' ∧ R.stays w w' ∧ after w') :
    Publishes (R.reader i) i path data free held after where
  before := R.reader_keeps before
  behind := R.reader_keeps behind
  put := fun {w w'} here reading absent step => by
    obtain ⟨holds', stays, ended⟩ := put here reading absent step
    exact ⟨reading.kept step.control holds', ⟨step.control, stays, fun j apart => .of_step step apart⟩,
      ended⟩

/-- The value of the store when last nobody was rotating it. -/
def track (w : World) (g : G) : G :=
  match w.control.writer with
  | none => R.value w
  | some _ => g

structure Inv (v : World × G) : Prop where
  locks : R.Locks v.1.control
  rest : v.1.control.writer = none → R.holds v.1 ∧ v.2 = R.value v.1

/-- What the other threads do, as far as thread `i` is concerned. -/
structure Unmoved (i : Tid) (v v' : World × G) : Prop where
  reads : v'.1.control.readers.count i = v.1.control.readers.count i
  writes : v'.1.control.writer = some i ↔ v.1.control.writer = some i
  beside : i ∈ v.1.control.readers → Temps i v.1 v'.1 ∧ R.stays v.1 v'.1
  alone : v.1.control.writer = some i → v' = v
  grown : R.le v.2 v'.2

theorem Unmoved.refl (i : Tid) (v : World × G) : R.Unmoved i v v :=
  ⟨rfl, .rfl, fun _ => ⟨.refl i v.1, R.stays_refl v.1⟩, fun _ => rfl, R.le_refl v.2⟩

variable {R} in
theorem Unmoved.trans {v'' : World × G} (first : R.Unmoved i v v') (second : R.Unmoved i v' v'') :
    R.Unmoved i v v'' where
  reads := second.reads.trans first.reads
  writes := second.writes.trans first.writes
  beside := fun member => by
    have member' : i ∈ v'.1.control.readers := by
      rw [← List.count_pos_iff] at member ⊢
      rwa [first.reads]
    obtain ⟨temps, stays⟩ := first.beside member
    obtain ⟨temps', stays'⟩ := second.beside member'
    exact ⟨temps.trans temps', R.stays_trans stays stays'⟩
  alone := fun writes => (second.alone (first.writes.mpr writes)).trans (first.alone writes)
  grown := R.le_trans first.grown second.grown

/-- Any thread of the manager. Of a client's own steps, those without the read lock change
no file. -/
def thread (i : Tid) : Protocol Calls (World × G) where
  sem := tracking R.track (R.sem i)
  inv := R.Inv
  rely := R.Unmoved i
  guar v v' := (∀ j, j ≠ i → R.Unmoved j v v') ∧ (R.client i →
    R.stays v.1 v'.1 ∧ (i ∉ v.1.control.readers → v'.1.view = v.1.view))
  refl := .refl R i
  trans := .trans

theorem crew : Crew (fun i => tracking R.track (R.sem i)) R.Inv R.thread where
  meaning := id
  common := fun _ _ => .rfl
  compatible := fun apart guar => guar.1 _ (Ne.symm apart)

variable {R}

theorem Unmoved.outside (moved : R.Unmoved i v v') (outside : Outside i v.1) : Outside i v'.1 :=
  ⟨moved.reads.trans outside.1, fun writes => outside.2 (moved.writes.mp writes)⟩

theorem track_idle (idle : w.control.writer = none) (g : G) : R.track w g = R.value w := by
  simp only [track, idle]

theorem track_locked (locked : w.control.writer = some i) (g : G) : R.track w g = g := by
  simp only [track, locked]

theorem Locks.idle (locks : R.Locks w.control) (member : i ∈ w.control.readers) :
    w.control.writer = none := by
  cases writer : w.control.writer with
  | none => rfl
  | some j =>
    rw [locks.1 j writer] at member
    cases member

/-- A judgement about a client under the read lock is one about it among all threads. -/
theorem reading {program : Prog α} {post : Except LithiumError α → World → Prop}
    (once : v.1.control.readers.count i = 1) (meets : Meets (R.reader i) post program v.1) :
    Meets (R.thread i) (fun result v => post result v.1 ∧ v.1.control.readers.count i = 1) program v := by
  have member : ∀ {v : World × G}, v.1.control.readers.count i = 1 → i ∈ v.1.control.readers :=
    fun once => List.count_pos_iff.mp (by omega)
  refine Meets.lift Prod.fst ?_ ?_ once meets
  · intro v v' once moved inv
    have once' := moved.reads.trans once
    have idle := inv.locks.idle (member once')
    exact ⟨moved.beside (member once), ⟨inv.locks, once', (inv.rest idle).1⟩, once'⟩
  · rintro op v reply v' once inv ⟨called, tracked⟩
    refine ⟨called, fun reading ⟨control, stays, temps⟩ => ?_⟩
    have idle := inv.locks.idle (member once)
    have idle' : v'.1.control.writer = none := control ▸ idle
    rw [track_idle idle'] at tracked
    obtain ⟨holds, valued⟩ := inv.rest idle
    have grown : R.le v.2 v'.2 := by
      rw [tracked, valued]
      exact R.grows holds stays
    refine ⟨⟨reading.locks, fun _ => ⟨reading.holds, tracked⟩⟩, ⟨fun j apart => ?_, fun _ =>
      ⟨stays, fun absent => absurd (member once) absent⟩⟩, reading.once⟩
    refine ⟨by rw [control], by rw [control], fun _ => ⟨temps j apart, stays⟩, fun writes => ?_, grown⟩
    rw [idle] at writes
    cases writes

theorem Inv.same (inv : R.Inv v) (same : v'.1 = v.1) (tracked : v'.2 = R.track v'.1 v.2) : v' = v := by
  refine Prod.ext same ?_
  rw [tracked, same]
  cases writer : v.1.control.writer with
  | none => rw [track_idle writer, (inv.rest writer).2]
  | some j => rw [track_locked writer]

/-- A thread's step that changes only what the thread itself holds of the lock. -/
theorem guar_relock {readers : List Tid} {writer : Option Tid} (same : v'.1 = v.1.relock readers writer)
    (others : ∀ j, j ≠ i → readers.count j = v.1.control.readers.count j)
    (writers : ∀ j, j ≠ i → writer ≠ some j ∧ v.1.control.writer ≠ some j) (grown : R.le v.2 v'.2) :
    (R.thread i).guar v v' := by
  obtain ⟨w', g'⟩ := v'
  subst same
  refine ⟨fun j apart => ⟨others j apart, iff_of_false (writers j apart).1 (writers j apart).2,
    fun _ => ⟨fun path owns => ⟨owns, rfl⟩, R.stays_relock _ _ _⟩,
    fun writes => absurd writes (writers j apart).2, grown⟩, fun _ => ⟨R.stays_relock _ _ _, fun _ => rfl⟩⟩

theorem lockRead_step (outside : Outside i v.1) (inv : R.Inv v) {reply : Reply .lockRead}
    (step : tracking R.track (R.sem i) .lockRead v reply v') :
    R.Inv v' ∧ (R.thread i).guar v v' ∧ R.Reading i v'.1 := by
  obtain ⟨called, tracked⟩ := step
  obtain ⟨idle, same⟩ := sem_lockRead (R.meaning called)
  obtain ⟨holds, valued⟩ := inv.rest idle
  have relocked : v'.1 = v.1.relock (i :: v.1.control.readers) v.1.control.writer := same
  have idle' : v'.1.control.writer = none := by
    rw [relocked]
    exact idle
  have locks : R.Locks v'.1.control := by
    refine ⟨fun j writes => ?_, fun gated _ => ?_⟩
    · rw [idle'] at writes
      cases writes
    · have calm := R.gate gated called
      rw [relocked]
      exact calm
  have holds' : R.holds v'.1 := relocked ▸ R.holds_relock holds _ _
  have value : v'.2 = R.value v'.1 := tracked.trans (track_idle idle' _)
  refine ⟨⟨locks, fun _ => ⟨holds', value⟩⟩, guar_relock relocked (fun j apart => ?_)
    (fun j _ => ?_) ?_, locks, ?_, holds'⟩
  · exact List.count_cons_of_ne (Ne.symm apart)
  · simp [idle]
  · rw [value, relocked, R.value_relock, valued]
    exact R.le_refl _
  · rw [relocked]
    exact (List.count_cons_self).trans (congrArg (· + 1) outside.1)

theorem unlockRead_step (once : v.1.control.readers.count i = 1) (inv : R.Inv v)
    {reply : Reply .unlockRead} (step : tracking R.track (R.sem i) .unlockRead v reply v') :
    R.Inv v' ∧ (R.thread i).guar v v' ∧ Outside i v'.1 ∧ R.Reading i v.1 ∧ v'.2 = R.value v.1 := by
  obtain ⟨called, tracked⟩ := step
  have idle := inv.locks.idle (List.count_pos_iff.mp (by omega) : i ∈ v.1.control.readers)
  obtain ⟨holds, valued⟩ := inv.rest idle
  have relocked : v'.1 = v.1.relock (v.1.control.readers.erase i) v.1.control.writer :=
    sem_unlockRead (R.meaning called)
  have idle' : v'.1.control.writer = none := by
    rw [relocked]
    exact idle
  have locks : R.Locks v'.1.control := by
    refine ⟨fun j writes => ?_, fun gated some => ?_⟩
    · rw [idle'] at writes
      cases writes
    · rw [relocked] at some ⊢
      refine inv.locks.2 gated fun none => some ?_
      show v.1.control.readers.erase i = []
      rw [none]
      rfl
  have value : v'.2 = R.value v.1 := by
    rw [tracked, track_idle idle', relocked, R.value_relock]
  refine ⟨⟨locks, fun _ => ⟨relocked ▸ R.holds_relock holds _ _, ?_⟩⟩, guar_relock relocked
    (fun j apart => ?_) (fun j _ => ?_) ?_, ⟨?_, ?_⟩, ⟨inv.locks, once, holds⟩, value⟩
  · rw [value, relocked, R.value_relock]
  · exact List.count_erase_of_ne apart
  · simp [idle]
  · rw [value, valued]
    exact R.le_refl _
  · rw [relocked]
    exact (List.count_erase_self).trans (by rw [once])
  · simp [idle']

/-- A client: it looks at the flag, takes the read lock, does its work among other clients,
and gives the lock back whatever came of it. It is refused only where it finds the flag set. -/
theorem withReadGate_settles {body : Prog α} {post : Except LithiumError α → World → Prop}
    (final : Except LithiumError α → G → Prop)
    (works : ∀ w, R.Reading i w → Meets (R.reader i) post body w)
    (stable : ∀ {result w w'}, post result w → R.stays w w' → post result w')
    (refused : ∀ {w w'}, R.sem i .isPoisoned w true w' →
      ∀ g, final (.error (.internal "keymanager_rotation_disabled")) g)
    (ended : ∀ {result w}, post result w → R.Reading i w → final result (R.value w)) :
    Triple (R.thread i) (fun v => Outside i v.1) (withReadGate body) fun result v =>
      Outside i v.1 ∧ final result v.2 := by
  have outsideStable : (R.thread i).Stable fun v => Outside i v.1 :=
    fun v v' outside moved _ => moved.outside outside
  refine Triple.call (fun (poisoned : Bool) v => (∃ w w', R.sem i .isPoisoned w poisoned w') ∧
    Outside i v.1) outsideStable ?_ fun poisoned => ?_
  · rintro v outside inv reply v' ⟨called, tracked⟩
    obtain rfl := inv.same (sem_isPoisoned (R.meaning called)).2 tracked
    exact ⟨inv, ⟨fun j _ => .refl R j v', fun _ => ⟨R.stays_refl _, fun _ => rfl⟩⟩,
      ⟨_, _, called⟩, outside⟩
  · cases poisoned with
    | true => exact Triple.done fun v ⟨⟨w, w', seen⟩, outside⟩ => ⟨outside, refused seen _⟩
    | false =>
      refine Triple.mono (Triple.call (fun _ v => R.Reading i v.1) outsideStable
        (fun v outside inv reply v' step => lockRead_step outside inv step) fun _ => ?_)
        (fun v here => here.2) fun _ _ => id
      have worked : Triple (R.thread i) (fun v => R.Reading i v.1) body fun result v =>
          post result v.1 ∧ v.1.control.readers.count i = 1 :=
        fun v reading => Regime.reading reading.once (works v.1 reading)
      refine Triple.attempt_bind worked fun result => ?_
      refine Triple.call (fun _ v => Outside i v.1 ∧ final result v.2) ?_ ?_ fun _ =>
        Triple.done fun v here => here
      · rintro v v' ⟨here, once⟩ moved _
        have member : i ∈ v.1.control.readers := List.count_pos_iff.mp (by omega)
        exact ⟨stable here (moved.beside member).2, moved.reads.trans once⟩
      · rintro v ⟨here, once⟩ inv reply v' step
        obtain ⟨inv', guar, outside, reading, value⟩ := unlockRead_step once inv step
        exact ⟨inv', guar, outside, value ▸ ended here reading⟩

theorem withReadGate_spec {body : Prog α} {post : Except LithiumError α → World → Prop}
    (final : Except LithiumError α → G → Prop)
    (works : ∀ w, R.Reading i w → Meets (R.reader i) post body w)
    (stable : ∀ {result w w'}, post result w → R.stays w w' → post result w')
    (refused : ∀ e g, final (.error e) g)
    (ended : ∀ {result w}, post result w → R.Reading i w → final result (R.value w)) :
    Triple (R.thread i) (fun v => Outside i v.1) (withReadGate body) fun result v =>
      Outside i v.1 ∧ final result v.2 :=
  withReadGate_settles final works stable (fun _ => refused _) ended

/-- A judgement about a rotation by itself is one about it among all threads, once it has the
write lock. -/
theorem writing (other : ¬ R.client i) {g : G} {strong : World → Prop} {program : Prog α}
    {post : Except LithiumError α → World → Prop} (calls : program.Calls fun op => locking op = false)
    (writing : Writing i strong g v) (meets : Meets (.alone (R.sem i) strong) post program v.1) :
    Meets (R.thread i) (fun result v => post result v.1 ∧ Writing i strong g v) program v := by
  have locked : Meets (.alone (R.sem i) fun w => w.control.writer = some i ∧ w.control.readers = []) _
      program v.1 :=
    Meets.invariant calls (fun op w reply w' free locked called => by
      obtain ⟨readers, writer⟩ := sem_locks free (R.meaning called)
      rwa [readers, writer]) ⟨writing.writer, writing.readers⟩
  have lifted := Meets.lift (Q := R.thread i) Prod.fst (fun {v v'} here moved _ => ?_)
    (fun {op v reply v'} here inv step => ?_) writing (meets.both locked)
  · exact lifted.mono fun result v ended => ⟨ended.1.1, ended.2⟩
  · obtain rfl : v' = v := moved.alone here.writer
    exact ⟨rfl, ⟨here.strong, here.writer, here.readers⟩, here⟩
  · obtain ⟨called, tracked⟩ := step
    refine ⟨called, fun ⟨strong', writer, readers⟩ _ => ?_⟩
    rw [track_locked writer] at tracked
    refine ⟨⟨⟨fun _ _ => readers, fun _ some => absurd readers some⟩, fun idle => ?_⟩,
      ⟨fun j apart => ?_, fun client => absurd client other⟩, strong', writer, readers,
      tracked.trans here.value⟩
    · rw [idle] at writer
      cases writer
    · have absent : ∀ w : World, w.control.readers = [] → j ∉ w.control.readers := fun w none => by
        rw [none]
        exact List.not_mem_nil
      have apart' : ∀ w : World, w.control.writer = some i → w.control.writer ≠ some j :=
        fun w writer same => apart (Option.some.inj (same.symm.trans writer))
      exact ⟨by rw [readers, here.readers], iff_of_false (apart' _ writer) (apart' _ here.writer),
        fun member => absurd member (absent _ here.readers),
        fun writes => absurd writes (apart' _ here.writer), tracked ▸ R.le_refl _⟩

theorem not_locking_of_special (op : Op) (free : special op = false) : locking op = false := by
  cases op <;> first | rfl | cases free

theorem lockWrite_step {strong : World → Prop} (inv : R.Inv v)
    {reply : Reply .lockWrite} (step : tracking R.track (R.sem i) .lockWrite v reply v')
    (start : strong v'.1) :
    R.Inv v' ∧ (R.thread i).guar v v' ∧ Writing i strong (R.value v.1) v' := by
  obtain ⟨called, tracked⟩ := step
  obtain ⟨⟨idle, none⟩, same⟩ := sem_lockWrite (R.meaning called)
  obtain ⟨_, valued⟩ := inv.rest idle
  have relocked : v'.1 = v.1.relock v.1.control.readers (some i) := same
  have writer : v'.1.control.writer = some i := by rw [relocked]; rfl
  have readers : v'.1.control.readers = [] := by rw [relocked]; exact none
  rw [track_locked writer] at tracked
  refine ⟨⟨⟨fun _ _ => readers, fun _ some => absurd readers some⟩, fun idle' => ?_⟩,
    guar_relock relocked (fun _ _ => rfl) (fun j apart => ?_) ?_, start, writer, readers,
    tracked.trans valued⟩
  · rw [writer] at idle'
    cases idle'
  · exact ⟨fun same => apart (Option.some.inj same).symm, by simp [idle]⟩
  · rw [tracked]
    exact R.le_refl _

theorem unlockWrite_step {strong : World → Prop} {g : G}
    (writing : Writing i strong g v) (holds : R.holds v.1.unlocked) (grown : R.le g (R.value v.1.unlocked))
    {reply : Reply .unlockWrite} (step : tracking R.track (R.sem i) .unlockWrite v reply v') :
    R.Inv v' ∧ (R.thread i).guar v v' ∧ Outside i v'.1 := by
  obtain ⟨called, tracked⟩ := step
  have unlocked : v'.1 = v.1.unlocked := sem_unlockWrite (R.meaning called)
  have relocked : v'.1 = v.1.relock v.1.control.readers none := unlocked
  have idle : v'.1.control.writer = none := by rw [unlocked]; rfl
  have readers : v'.1.control.readers = [] := by rw [unlocked]; exact writing.readers
  rw [track_idle idle, unlocked] at tracked
  refine ⟨⟨⟨fun _ _ => readers, fun _ some => absurd readers some⟩, fun _ => ?_⟩,
    guar_relock relocked (fun _ _ => rfl) (fun j apart => ?_) ?_, ?_, ?_⟩
  · rw [unlocked]
    exact ⟨holds, tracked⟩
  · rw [writing.writer]
    exact ⟨nofun, fun same => apart (Option.some.inj same).symm⟩
  · rw [tracked, writing.value]
    exact grown
  · rw [readers]
    rfl
  · rw [idle]
    nofun

/-- A rotation: it waits for the write lock, does its work alone, and gives the lock back
whatever came of it. -/
theorem rotateNow_settles {X : Crypto} {cached : Bool} (final : Except LithiumError Unit → Prop)
    (other : ¬ R.client i)
    (works : ∀ w w', R.holds w → R.sem i .lockWrite w () w' → ∃ strong, strong w' ∧
      Meets (.alone (R.sem i) strong) (fun result last => (R.holds last.unlocked ∧
        R.le (R.value w) (R.value last.unlocked)) ∧ final result) (rotateLocked X cached) w') :
    Triple (R.thread i) (fun v => Outside i v.1) (rotateNow X cached) fun result v =>
      Outside i v.1 ∧ final result := by
  refine Triple.call (fun _ v => ∃ w strong, Writing i strong (R.value w) v ∧
      Meets (.alone (R.sem i) strong) (fun result last => (R.holds last.unlocked ∧
        R.le (R.value w) (R.value last.unlocked)) ∧ final result) (rotateLocked X cached) v.1)
    (fun v v' outside moved _ => moved.outside outside) ?_ fun _ => ?_
  · intro v _ inv reply v' step
    obtain ⟨idle, _⟩ := (sem_lockWrite (R.meaning step.1)).1
    obtain ⟨strong, start, meets⟩ := works v.1 v'.1 (inv.rest idle).1 step.1
    obtain ⟨inv', guar, writing⟩ := lockWrite_step inv step start
    exact ⟨inv', guar, v.1, strong, writing, meets⟩
  · rintro v ⟨w, strong, here, meets⟩
    have calls : (rotateLocked X cached).Calls fun op => locking op = false :=
      rotateLocked_calls not_locking_of_special (fun _ => rfl) (fun _ => rfl) X rfl rfl cached
    show Meets _ _ ((rotateLocked X cached).attempt.bind _) v
    refine Meets.bind (Meets.attempt ((Regime.writing other calls here meets).mono fun result => ?_))
    refine Triple.call (fun _ v => Outside i v.1 ∧ final result) ?_ ?_ fun _ =>
      Triple.done fun v here => here
    · rintro v v' ⟨ended, writing⟩ moved _
      obtain rfl : v' = v := moved.alone writing.writer
      exact ⟨ended, writing⟩
    · rintro v ⟨⟨⟨holds, grown⟩, settled⟩, writing⟩ _ reply v' step
      obtain ⟨inv', guar, outside⟩ := unlockWrite_step writing holds grown step
      exact ⟨inv', guar, outside, settled⟩

theorem rotateNow_spec {X : Crypto} {cached : Bool} (other : ¬ R.client i)
    (works : ∀ w w', R.holds w → R.sem i .lockWrite w () w' → ∃ strong, strong w' ∧
      Meets (.alone (R.sem i) strong) (fun _ last => R.holds last.unlocked ∧
        R.le (R.value w) (R.value last.unlocked)) (rotateLocked X cached) w') :
    Triple (R.thread i) (fun v => Outside i v.1) (rotateNow X cached) fun _ v => Outside i v.1 := by
  refine (rotateNow_settles (fun _ => True) other fun w w' holds step => ?_).weaken
    fun _ _ ended => ended.1
  obtain ⟨strong, start, meets⟩ := works w w' holds step
  exact ⟨strong, start, meets.mono fun _ _ ended => ⟨ended, trivial⟩⟩

end Regime
end Lithium.Keys
