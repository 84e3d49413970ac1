import Lithium.Effects.Monitor
import Lithium.Utils.Versions

/-! The cleanup thread of the store (`cleanup_loop`) beside the calls of the store and the drop
of its guard. The thread sweeps and then waits until the first entry of the heap expires; a
call that writes notifies it before it lets go of the mutex, the drop afterwards. No section
panics, so the mutex is never poisoned. -/
namespace Lithium.Utils
open Effects
open Keys (Bytes Key)
open Crypto

/-- What is behind the mutex, with the time at which the guard was dropped. -/
structure Swept where
  inner : StoreInner
  stoppedAt : Option Nat

/-- Where the thread is in its loop: at the check of `stop`, or between the sweep and the second
reading of the clock. -/
inductive CleanupPlace where
  | head
  | swept
  deriving DecidableEq

inductive StoreCall where
  | call (call : Call) (nonce : Draw 12)
  | drop

inductive StoreRequest where
  | call (prepared : Prepared)
  | drop

/-- One stretch of the loop of `cleanup_loop`. -/
def cleanupTurn (now : Nat) (data : Swept) : CleanupPlace → Swept × StretchEnd CleanupPlace Empty
  | .head =>
    if data.inner.stop then (data, .finish)
    else ({ data with inner := sweepExpired now data.inner }, .stay .swept)
  | .swept => (data, .park (data.inner.heap.head?.map fun top => top.expiresAt - now))

section
variable (X : Suite) (latest : Nat) (storeKey : Key)

def askStore (now : Nat) : StoreCall → Option StoreRequest
  | .call call nonce =>
    match prepare X latest now storeKey nonce call with
    | .ok prepared => some (.call prepared)
    | .error _ => none
  | .drop => some .drop

/-- The lock section of a call, which notifies if it has put an entry in, or the drop of the
guard. -/
def serveStore (now : Nat) (data : Swept) : StoreRequest → Swept × Notice
  | .call prepared =>
    ({ data with inner := (prepared.section X storeKey data.inner).2 },
      if (prepared.stored (prepared.section X storeKey data.inner).1).isSome then .within else .none)
  | .drop =>
    ({ inner := { data.inner with stop := true }
       stoppedAt := if data.inner.stop then data.stoppedAt else some now }, .after)

def storeMonitor : Monitor Swept CleanupPlace Empty Unit StoreCall StoreRequest where
  home := .head
  turn := cleanupTurn
  back work _ := work.elim
  ask now _ := askStore X latest storeKey now
  serve now request data := serveStore X storeKey now data request

end

def newStore (ι : Type) (now : Nat) : Monitored ι Swept CleanupPlace Empty StoreRequest where
  now := now
  data := ⟨⟨∅, [], 0, false⟩, none⟩
  phase := .entering .head
  since := now
  requests _ := none
  owed := []

def firstExpiry (heap : List HeapEntry) : Option Nat := heap.head?.map (·.expiresAt)

/-- What a sweep leaves on the heap has not expired. -/
theorem firstExpiry_sweep (now : Nat) (heap : List HeapEntry) (map : AList fun _ : Bytes => StoreEntry) :
    ∀ d ∈ firstExpiry (sweepHeap now heap map).1, now < d := by
  induction heap generalizing map with
  | nil => rintro d ⟨⟩
  | cons top rest ih =>
    rw [sweepHeap_cons]
    split
    next alive =>
      rintro d ⟨⟩
      exact alive
    next expired => exact ih _

/-- A sweep puts the first expiry off. -/
theorem firstExpiry_sweep_le (now : Nat) (heap : List HeapEntry)
    (map : AList fun _ : Bytes => StoreEntry) :
    ∀ d ∈ firstExpiry (sweepHeap now heap map).1, ∃ d' ∈ firstExpiry heap, d' ≤ d := by
  intro d first
  cases heap with
  | nil => exact ⟨d, first, le_rfl⟩
  | cons top rest =>
    rw [sweepHeap_cons] at first
    split at first
    next alive => exact ⟨d, first, le_rfl⟩
    next expired =>
      have later := firstExpiry_sweep now rest _ d first
      exact ⟨top.expiresAt, rfl, by omega⟩

theorem firstExpiry_push (entry : HeapEntry) (heap : List HeapEntry) :
    ∀ d ∈ firstExpiry (heapPush entry heap), d ∈ firstExpiry heap ∨ d = entry.expiresAt := by
  intro d first
  cases heap with
  | nil =>
    cases first
    exact .inr rfl
  | cons top rest =>
    rw [heapPush] at first
    split at first
    · cases first
      exact .inr rfl
    · exact .inl first

theorem Heaped.first {heap : List HeapEntry} (heaped : Heaped heap) {entry : HeapEntry}
    (member : entry ∈ heap) : ∃ d ∈ firstExpiry heap, d ≤ entry.expiresAt := by
  cases heap with
  | nil => cases member
  | cons top rest =>
    refine ⟨top.expiresAt, rfl, ?_⟩
    rcases List.mem_cons.mp member with rfl | behind
    · exact le_rfl
    · exact HeapEntry.expires_le ((List.pairwise_cons.mp heaped).1 entry behind)

def Prepared.expiry : Prepared → Option Nat
  | .set _ _ _ expiresAt | .setIfAbsent _ _ _ expiresAt => some expiresAt
  | .peek _ _ | .take _ _ | .del _ => none

theorem prepare_expiry {X : Suite} {latest now : Nat} {storeKey : Key} {nonce : Draw 12} {call : Call}
    {prepared : Prepared} (ready : prepare X latest now storeKey nonce call = .ok prepared) :
    ∀ d ∈ prepared.expiry, now ≤ d := by
  have written : ∀ {key value hkey ciphertext : Bytes} {ttl expiresAt : Nat},
      prepareWrite X latest now storeKey nonce key value ttl = .ok (hkey, ciphertext, expiresAt) →
      now ≤ expiresAt := by
    intro key value hkey ciphertext ttl expiresAt ready
    rw [(prepareWrite_eq_ok X ready).2.1]
    exact Nat.le_add_right ..
  cases call with
  | set key value ttl =>
    simp only [prepare] at ready
    split at ready
    · cases ready
    · split at ready
      · cases ready
      · next ready' =>
        cases ready
        rintro d ⟨⟩
        exact written ready'
  | setIfAbsent key value ttl =>
    simp only [prepare] at ready
    split at ready
    · cases ready
    · split at ready
      · cases ready
      · next ready' =>
        cases ready
        rintro d ⟨⟩
        exact written ready'
  | peek key | take key | del key =>
    cases ready
    rintro d ⟨⟩

/-- A section puts the first expiry off, or it has put in the entry that now expires first. -/
def Sooner (inner inner' : StoreInner) (wrote : Prop) (expiry : Option Nat) : Prop :=
  ∀ d ∈ firstExpiry inner'.heap, (∃ d' ∈ firstExpiry inner.heap, d' ≤ d) ∨ wrote ∧ d ∈ expiry

theorem sooner_of_heap {inner inner' : StoreInner} {wrote : Prop} {expiry : Option Nat}
    (same : inner'.heap = inner.heap) : Sooner inner inner' wrote expiry :=
  fun d first => .inl ⟨d, same ▸ first, le_rfl⟩

theorem insertEntry_sooner (inner : StoreInner) (now : Nat) (hkey ciphertext : Bytes) (expiresAt : Nat)
    (success : Reply) :
    Sooner inner (insertEntry hkey ciphertext expiresAt success (sweepExpired now inner)).2
      ((insertEntry hkey ciphertext expiresAt success (sweepExpired now inner)).1 = success)
      (some expiresAt) := by
  intro d first
  by_cases room : (sweepExpired now inner).nextVersion + 1 < 2 ^ 64
  · simp only [insertEntry, nextVersion, if_pos room] at first ⊢
    obtain old | rfl := firstExpiry_push _ _ d first
    · exact .inl (firstExpiry_sweep_le now inner.heap inner.map d old)
    · exact .inr ⟨trivial, rfl⟩
  · simp only [insertEntry, nextVersion, if_neg room] at first
    exact .inl (firstExpiry_sweep_le now inner.heap inner.map d first)

theorem section_sooner (X : Suite) (storeKey : Key) (inner : StoreInner) (prepared : Prepared) :
    Sooner inner (prepared.section X storeKey inner).2
      ((prepared.stored (prepared.section X storeKey inner).1).isSome = true) prepared.expiry := by
  cases prepared with
  | set now hkey ciphertext expiresAt =>
    intro d first
    refine (insertEntry_sooner inner now hkey ciphertext expiresAt .done d first).imp_right ?_
    rintro ⟨replied, put⟩
    rw [Prepared.section, replied]
    exact ⟨rfl, put⟩
  | setIfAbsent now hkey ciphertext expiresAt =>
    have inserted : Sooner inner
        (insertEntry hkey ciphertext expiresAt (.stored true) (sweepExpired now inner)).2
        (((Prepared.setIfAbsent now hkey ciphertext expiresAt).stored
          (insertEntry hkey ciphertext expiresAt (.stored true) (sweepExpired now inner)).1).isSome = true)
        (some expiresAt) := by
      intro d first
      refine (insertEntry_sooner inner now hkey ciphertext expiresAt _ d first).imp_right ?_
      rintro ⟨replied, put⟩
      rw [replied]
      exact ⟨rfl, put⟩
    cases found : (sweepExpired now inner).map.lookup hkey with
    | none =>
      simp only [Prepared.section, found]
      exact inserted
    | some entry =>
      by_cases alive : entry.expiresAt > now
      · simp only [Prepared.section, found, if_pos alive]
        exact fun d first => .inl (firstExpiry_sweep_le now inner.heap inner.map d first)
      · simp only [Prepared.section, found, if_neg alive]
        exact inserted
  | peek now hkey =>
    apply sooner_of_heap
    dsimp only [Prepared.section]
    split
    · split <;> rfl
    · rfl
  | take now hkey =>
    apply sooner_of_heap
    dsimp only [Prepared.section]
    split <;> rfl
  | del hkey => exact sooner_of_heap rfl

/-- The first expiry, as long as the guard is there. -/
def expiryDeadline (delay : Nat) : Monitor.Deadline Swept CleanupPlace where
  due data := if data.inner.stop then none else firstExpiry data.inner.heap
  allowance
    | .head => some (4 * delay)
    | .swept => some 0
  early := delay
  fits _ _ := True

/-- The end of the thread, once the guard is dropped. -/
def stopDeadline (delay : Nat) : Monitor.Deadline Swept CleanupPlace where
  due data := if data.inner.stop then data.stoppedAt else none
  allowance
    | .head => some (3 * delay)
    | .swept => none
  early := 0
  fits
    | .head, _ => True
    | .swept, data => data.inner.stop = false

theorem expiryDeadline_due {delay d : Nat} {data : Swept} :
    d ∈ (expiryDeadline delay).due data ↔ data.inner.stop = false ∧ d ∈ firstExpiry data.inner.heap := by
  cases stop : data.inner.stop <;> simp [expiryDeadline, stop]

theorem stopDeadline_due {delay d : Nat} {data : Swept} :
    d ∈ (stopDeadline delay).due data ↔ data.inner.stop = true ∧ d ∈ data.stoppedAt := by
  cases stop : data.inner.stop <;> simp [stopDeadline, stop]

section
variable {X : Suite} {latest : Nat} {storeKey : Key} {delay : Nat}

theorem section_stop (X : Suite) (storeKey : Key) (inner : StoreInner) (prepared : Prepared) :
    (prepared.section X storeKey inner).2.stop = inner.stop := by
  have kept : ∀ {inner' put}, Change inner inner' put → inner'.stop = inner.stop := by
    intro inner' put change
    cases change <;> rfl
  exact kept (section_change X storeKey inner prepared)

theorem askStore_call {now : Nat} {call : Call} {nonce : Draw 12} {request : StoreRequest}
    (made : askStore X latest storeKey now (.call call nonce) = some request) :
    ∃ prepared, prepare X latest now storeKey nonce call = .ok prepared ∧ request = .call prepared := by
  simp only [askStore] at made
  split at made
  · next prepared ready =>
    cases made
    exact ⟨prepared, ready, rfl⟩
  · cases made

theorem expiry_heeds : (storeMonitor X latest storeKey).Heeds (expiryDeadline delay) delay where
  home := ⟨fun _ => trivial, 4 * delay, rfl, by show delay + 3 * delay ≤ 4 * delay; omega⟩
  back work := work.elim
  turn now data place _ late := by
    cases place with
    | head =>
      simp only [storeMonitor, cleanupTurn]
      split
      · trivial
      · refine ⟨trivial, ?_⟩
        rintro allowed ⟨⟩ d due
        have first := (expiryDeadline_due.mp due).2
        exact (firstExpiry_sweep now data.inner.heap data.inner.map d first).le
    | swept =>
      intro d due
      have due : d ∈ (expiryDeadline delay).due data := due
      have arrived : now ≤ d + 0 + delay := late 0 rfl d due
      obtain ⟨top, first, rfl⟩ := Option.map_eq_some_iff.mp (expiryDeadline_due.mp due).2
      refine ⟨arrived, top.expiresAt - now, ?_, le_rfl⟩
      show data.inner.heap.head?.map _ = _
      rw [first]
      rfl
  serve asked now before call request data made past late := by
    intro d due
    cases call with
    | drop =>
      cases made
      cases due
    | call call nonce =>
      obtain ⟨prepared, ready, rfl⟩ := askStore_call made
      obtain ⟨running, first⟩ := expiryDeadline_due.mp due
      have running : (prepared.section X storeKey data.inner).2.stop = false := running
      rw [section_stop] at running
      obtain ⟨d', first', le⟩ | ⟨wrote, put⟩ := section_sooner X storeKey data.inner prepared d first
      · exact .inl ⟨d', expiryDeadline_due.mpr ⟨running, first'⟩, le⟩
      · have soonest := prepare_expiry ready d put
        refine .inr ⟨?_, by omega⟩
        simp [storeMonitor, serveStore, wrote]

theorem stop_heeds : (storeMonitor X latest storeKey).Heeds (stopDeadline delay) delay where
  home := ⟨fun _ => trivial, 3 * delay, rfl, by show 0 + 3 * delay ≤ 3 * delay; omega⟩
  back work := work.elim
  turn now data place fits late := by
    cases place with
    | head =>
      simp only [storeMonitor, cleanupTurn]
      split
      · trivial
      · next running =>
        refine ⟨Bool.eq_false_iff.mpr running, ?_⟩
        rintro allowed ⟨⟩
    | swept =>
      intro d due
      have stopped : data.inner.stop = true := (stopDeadline_due.mp due).1
      rw [show data.inner.stop = false from fits] at stopped
      cases stopped
  serve asked now before call request data made past late := by
    intro d due
    cases call with
    | drop =>
      cases made
      have since := (stopDeadline_due.mp due).2
      simp only [storeMonitor, serveStore] at since ⊢
      split at since
      · next stopped => exact .inl ⟨d, stopDeadline_due.mpr ⟨stopped, since⟩, le_rfl⟩
      · cases since
        exact .inr ⟨by decide, Nat.le_add_right ..⟩
    | call call nonce =>
      obtain ⟨prepared, _, rfl⟩ := askStore_call made
      obtain ⟨stopped, since⟩ := stopDeadline_due.mp due
      have stopped : (prepared.section X storeKey data.inner).2.stop = true := stopped
      rw [section_stop] at stopped
      exact .inl ⟨d, stopDeadline_due.mpr ⟨stopped, since⟩, le_rfl⟩

variable {ι : Type} [DecidableEq ι] {s s' : Monitored ι Swept CleanupPlace Empty StoreRequest}

/-- The store behind the mutex is that of a run of calls, drops and sweeps one after the other,
and the thread has ended only if the guard was dropped. -/
structure Tended (X : Suite) (latest : Nat) (storeKey : Key)
    (s : Monitored ι Swept CleanupPlace Empty StoreRequest) : Prop where
  runs : ∃ log, Runs X latest storeKey s.data.inner log
  stopped : s.data.inner.stop = s.data.stoppedAt.isSome
  ended : s.phase = .ended → s.data.inner.stop = true

theorem serveStore_runs (now : Nat) {asked : Nat} {call : StoreCall} {request : StoreRequest} {data : Swept}
    {log : List Returned} (made : askStore X latest storeKey asked call = some request)
    (runs : Runs X latest storeKey data.inner log) :
    (∃ log, Runs X latest storeKey (serveStore X storeKey now data request).1.inner log) ∧
      (data.inner.stop = true → (serveStore X storeKey now data request).1.inner.stop = true) := by
  cases call with
  | drop =>
    cases made
    exact ⟨⟨log, runs.stop⟩, fun _ => rfl⟩
  | call call nonce =>
    obtain ⟨prepared, ready, rfl⟩ := askStore_call made
    have ran := runs.call asked nonce call
    simp only [perform, ready] at ran
    exact ⟨⟨_, ran⟩, fun stopped => (section_stop X storeKey data.inner prepared).trans stopped⟩

theorem serveStore_stopped {now : Nat} {request : StoreRequest} {data : Swept}
    (stopped : data.inner.stop = data.stoppedAt.isSome) :
    (serveStore X storeKey now data request).1.inner.stop =
      (serveStore X storeKey now data request).1.stoppedAt.isSome := by
  cases request with
  | call prepared => exact (section_stop X storeKey data.inner prepared).trans stopped
  | drop =>
    simp only [serveStore]
    split
    · next already => rw [← stopped, already]
    · rfl

theorem Tended.step {event : MonitorEvent ι Unit StoreCall} (tended : Tended X latest storeKey s)
    (orderly : (storeMonitor X latest storeKey).Orderly s)
    (happens : (storeMonitor X latest storeKey).Happens s event s') : Tended X latest storeKey s' := by
  obtain ⟨⟨log, runs⟩, stopped, ended⟩ := tended
  cases happens with
  | tick | ask => exact ⟨⟨log, runs⟩, stopped, ended⟩
  | @serve i asked request free next =>
    obtain ⟨_, _, call, made⟩ := orderly.requests i _ next
    obtain ⟨runs', kept⟩ := serveStore_runs s.now made runs
    constructor
    · rw [Monitor.served_data]
      exact runs'
    · rw [Monitor.served_data]
      exact serveStore_stopped stopped
    · intro finished
      rw [Monitor.served_data]
      exact kept (ended (Monitor.of_served_phase _ finished (by simp)))
  | notify =>
    constructor
    · rw [Monitored.notified_data]
      exact ⟨log, runs⟩
    · rw [Monitored.notified_data]
      exact stopped
    · intro finished
      have before := Monitored.of_notified_phase finished (by simp)
      rw [Monitored.notified_data]
      exact ended before
  | enter | sleep | wake => exact ⟨⟨log, runs⟩, stopped, fun finished => (by cases finished)⟩
  | @turn place inside =>
    cases place with
    | head =>
      simp only [storeMonitor, cleanupTurn]
      split
      · next stop => exact ⟨⟨log, runs⟩, stopped, fun _ => stop⟩
      · exact ⟨⟨log, runs.sweep s.now⟩, stopped, fun finished => (by cases finished)⟩
    | swept => exact ⟨⟨log, runs⟩, stopped, fun finished => (by cases finished)⟩
  | @back work => exact work.elim

theorem newStore_reached {start : Nat}
    (reached : (storeMonitor X latest storeKey).Reached delay (newStore ι start) s) :
    s.Punctual delay ∧ Tended X latest storeKey s ∧ (expiryDeadline delay).Timely delay s ∧
      (stopDeadline delay).Timely delay s := by
  have orderly : (storeMonitor X latest storeKey).Orderly (newStore ι start) :=
    ⟨le_rfl, fun _ request none => by cases none⟩
  have punctual : (newStore ι start).Punctual delay :=
    ⟨by rintro t ⟨⟩; exact Nat.le_add_right .., fun _ request none => (by cases none),
      fun t none => by cases none⟩
  have tended : Tended X latest storeKey (newStore ι start) :=
    ⟨⟨[], .empty⟩, rfl, fun finished => (by cases finished)⟩
  have expiry : (expiryDeadline delay).Timely delay (newStore ι start) := by
    refine ⟨fun _ => trivial, ?_⟩
    rintro allowed ⟨⟩
    refine ⟨by show delay + 3 * delay ≤ 4 * delay; omega, ?_⟩
    rintro d ⟨⟩
  have stop : (stopDeadline delay).Timely delay (newStore ι start) := by
    refine ⟨fun _ => trivial, ?_⟩
    rintro allowed ⟨⟩
    refine ⟨by show 0 + 3 * delay ≤ 3 * delay; omega, ?_⟩
    rintro d ⟨⟩
  refine (Monitor.Reached.keeps (fun s => Tended X latest storeKey s ∧
    (expiryDeadline delay).Timely delay s ∧ (stopDeadline delay).Timely delay s) orderly punctual
    ⟨tended, expiry, stop⟩ ?_ reached).2
  rintro s event s' orderly punctual ⟨tended, expiry, stop⟩ happens
  exact ⟨tended.step orderly happens, expiry_heeds.step orderly expiry punctual happens,
    stop_heeds.step orderly stop punctual happens⟩

omit [DecidableEq ι] in
/-- The thread sees to the first expiry in time. -/
theorem Tended.expiry (tended : Tended X latest storeKey s) (timely : (expiryDeadline delay).Timely delay s)
    (punctual : s.Punctual delay) (running : s.data.inner.stop = false) {d : Nat}
    (first : d ∈ firstExpiry s.data.inner.heap) : s.now ≤ d + 5 * delay := by
  have due : d ∈ (expiryDeadline delay).due s.data := expiryDeadline_due.mpr ⟨running, first⟩
  have waits : (expiryDeadline delay).early + 2 * delay ≤ 5 * delay := by
    show delay + 2 * delay ≤ 5 * delay
    omega
  have allowances : ∀ place, ∀ allowed ∈ (expiryDeadline delay).allowance place,
      allowed + delay ≤ 5 * delay := by
    rintro (_ | _) allowed ⟨⟩
    · omega
    · omega
  obtain suspended | prompt := timely.prompt (5 * delay) punctual waits allowances due
  · -- the thread attends to the heap at both places of its loop
    cases here : s.phase with
    | entering place => rw [here] at suspended; cases place <;> cases suspended
    | inside place => rw [here] at suspended; cases place <;> cases suspended
    | parking | waiting => rw [here] at suspended; exact suspended.elim
    | away work => exact work.elim
    | ended => exact absurd (tended.ended here) (by simp [running])
  · exact prompt

omit [DecidableEq ι] in
theorem stop_prompt (timely : (stopDeadline delay).Timely delay s) (punctual : s.Punctual delay)
    (flagged : s.data.inner.stop = true) {stopped : Nat} (since : s.data.stoppedAt = some stopped) :
    s.phase = .ended ∨ s.now ≤ stopped + 4 * delay := by
  have waits : (stopDeadline delay).early + 2 * delay ≤ 4 * delay := by
    show 0 + 2 * delay ≤ 4 * delay
    omega
  have allowances : ∀ place, ∀ allowed ∈ (stopDeadline delay).allowance place,
      allowed + delay ≤ 4 * delay := by
    rintro (_ | _) allowed ⟨⟩
    omega
  -- between the sweep and the wait the thread holds the mutex, and `stop` was not set
  have running : ∀ {data : Swept}, (stopDeadline delay).fits .swept data → data.inner.stop = false := id
  have due : stopped ∈ (stopDeadline delay).due s.data := stopDeadline_due.mpr ⟨flagged, since⟩
  obtain suspended | prompt := timely.prompt (4 * delay) punctual waits allowances due
  · rw [Monitor.Deadline.Timely] at timely
    cases here : s.phase with
    | entering place =>
      rw [here] at suspended timely
      cases place with
      | head => cases suspended
      | swept => exact absurd (running (timely.1 s.data)) (by simp [flagged])
    | inside place =>
      rw [here] at suspended timely
      cases place with
      | head => cases suspended
      | swept => exact absurd (running timely.1) (by simp [flagged])
    | parking | waiting => rw [here] at suspended; exact suspended.elim
    | away work => exact work.elim
    | ended => exact .inl rfl
  · exact .inr prompt

/-- If no thread is held up for longer than `delay`, then an entry is gone from the map and from
the heap at most five times as long after it has expired, without any call for it; and four
times as long after the drop of the guard the thread has ended. -/
theorem cleanup_in_time {start : Nat}
    (reached : (storeMonitor X latest storeKey).Reached delay (newStore ι start) s) :
    (s.data.inner.stop = false →
      (∀ hkey entry, s.data.inner.map.lookup hkey = some entry → s.now ≤ entry.expiresAt + 5 * delay) ∧
      ∀ entry ∈ s.data.inner.heap, s.now ≤ entry.expiresAt + 5 * delay) ∧
    ∀ stopped, s.data.stoppedAt = some stopped → s.phase = .ended ∨ s.now ≤ stopped + 4 * delay := by
  obtain ⟨punctual, tended, expiry, stop⟩ := newStore_reached reached
  obtain ⟨log, runs⟩ := tended.runs
  have versioned := runs.versioned
  constructor
  · intro running
    have heap : ∀ entry ∈ s.data.inner.heap, s.now ≤ entry.expiresAt + 5 * delay := by
      intro entry member
      obtain ⟨d, first, le⟩ := versioned.heaped.first member
      have attended := tended.expiry expiry punctual running first
      omega
    exact ⟨fun hkey entry found => heap _ (versioned.twins hkey entry found), heap⟩
  · intro stopped since
    have flagged : s.data.inner.stop = true := by rw [tended.stopped, since]; rfl
    exact stop_prompt stop punctual flagged since

end

/-- A secret for ten ticks is stored while the thread waits; the thread wakes when it has expired
and is held up twice on its way to the sweep. -/
def lateSweep : List (MonitorEvent Unit Unit StoreCall) :=
  [.enter, .turn, .turn, .sleep, .ask () (.call (.set [1] [7] 10) (.ok (fit 12 []))), .tick 1, .serve (),
    .enter, .turn, .turn, .sleep, .tick 10, .wake, .tick 1, .enter, .tick 1]

theorem cleanup_in_time_late : ∃ s : Monitored Unit Swept CleanupPlace Empty StoreRequest,
    (storeMonitor sampleSuite 100 (fit 32 [])).replay 1 (newStore Unit 0) lateSweep = some s ∧
      s.now = 13 ∧ s.data.inner.heap.map (·.expiresAt) = [10] ∧
      ∀ entry ∈ s.data.inner.heap, s.now ≤ entry.expiresAt + 5 * 1 := by
  have checked : ((storeMonitor sampleSuite 100 (fit 32 [])).replay 1 (newStore Unit 0)
      lateSweep).map (fun s => (s.now, s.data.inner.heap.map (·.expiresAt), s.data.inner.stop)) =
      some (13, [10], false) := by
    decide +kernel
  obtain ⟨s, ran, same⟩ := Option.map_eq_some_iff.mp checked
  simp only [Prod.mk.injEq] at same
  obtain ⟨now, heap, running⟩ := same
  exact ⟨s, ran, now, heap, ((cleanup_in_time (Monitor.reached_of_replay _ .start ran)).1 running).2⟩

end Lithium.Utils
