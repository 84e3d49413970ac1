import Lithium.Crypto.Sample
import Lithium.Utils.Store
import Mathlib.Data.Multiset.AddSub

/-! Versions tie the map of the store to its heap. Every entry of the map has a twin in the
heap, which a sweep finds when the entry has expired, and a new entry has a greater version
than everything before it, so what is read can be traced to the call that wrote it. Calls
take place in lock order, with any clock readings. -/
namespace Lithium.Utils
open Keys (Bytes Fixed Key LithiumError)
open Crypto

namespace HeapEntry

theorem cmp_eq : HeapEntry.cmp = fun self other =>
    compareLex (compareOn (·.expiresAt)) (compareLex (compareOn (·.version)) (compareOn (·.key)))
      other self := rfl

instance : Std.TransCmp HeapEntry.cmp := by
  rw [cmp_eq]
  exact Std.TransCmp.opposite

instance : Std.LawfulEqCmp HeapEntry.cmp where
  compare_self {entry} := by simp [cmp]
  eq_of_compare {one other} same := by
    simp only [cmp, Ordering.then_eq_eq, compare_eq_iff_eq] at same
    obtain ⟨expires, versions, keys⟩ := same
    cases one
    cases other
    simp_all

theorem expires_le {one other : HeapEntry} (before : (one.cmp other).isGE) :
    one.expiresAt ≤ other.expiresAt := by
  rw [cmp] at before
  by_contra later
  rw [Nat.compare_eq_lt.mpr (Nat.not_le.mp later)] at before
  cases before

end HeapEntry

def Heaped (heap : List HeapEntry) : Prop := heap.Pairwise fun one other => (one.cmp other).isGE

theorem mem_heapPush {entry found : HeapEntry} {heap : List HeapEntry} :
    found ∈ heapPush entry heap ↔ found = entry ∨ found ∈ heap := by
  induction heap with
  | nil => simp [heapPush]
  | cons top rest ih =>
    rw [heapPush]
    split
    · rw [List.mem_cons]
    · rw [List.mem_cons, ih, List.mem_cons]
      tauto

theorem heapPush_perm (entry : HeapEntry) (heap : List HeapEntry) :
    (heapPush entry heap).Perm (entry :: heap) := by
  induction heap with
  | nil => exact .refl _
  | cons top rest ih =>
    rw [heapPush]
    split
    · exact .refl _
    · exact (ih.cons top).trans (.swap entry top rest)

theorem diff_of_sublist {heap before : List HeapEntry} (less : heap.Sublist before) :
    heap.diff before = [] := by
  have none : (heap.diff before : Multiset HeapEntry) = 0 := by
    rw [← Multiset.coe_sub, ← Multiset.le_zero, Multiset.sub_le_iff_le_add, Multiset.zero_add]
    exact less.subperm
  exact (Multiset.coe_eq_zero _).mp none

theorem Heaped.push {heap : List HeapEntry} (heaped : Heaped heap) (entry : HeapEntry) :
    Heaped (heapPush entry heap) := by
  induction heap with
  | nil => exact List.pairwise_singleton _ entry
  | cons top rest ih =>
    obtain ⟨greatest, ordered⟩ := List.pairwise_cons.mp heaped
    rw [heapPush]
    split
    next greater =>
      have first : (entry.cmp top).isGE := by rw [greater]; rfl
      refine List.pairwise_cons.mpr ⟨?_, heaped⟩
      intro other member
      rcases List.mem_cons.mp member with rfl | behind
      · exact first
      · exact Std.TransCmp.isGE_trans first (greatest other behind)
    next smaller =>
      refine List.pairwise_cons.mpr ⟨?_, ih ordered⟩
      intro other member
      rcases mem_heapPush.mp member with rfl | behind
      · rw [Std.OrientedCmp.isGE_iff_isLE, Ordering.isLE_iff_ne_gt]
        exact smaller
      · exact greatest other behind

/-- The heap entry that belongs to an entry of the map. -/
def StoreEntry.twin (entry : StoreEntry) (hkey : Bytes) : HeapEntry :=
  ⟨entry.expiresAt, entry.version, hkey⟩

/-- What a sweep makes of the map when it has taken an entry off the heap. -/
def dropExpired (now : Nat) (top : HeapEntry) (map : AList fun _ : Bytes => StoreEntry) :
    AList fun _ : Bytes => StoreEntry :=
  match map.lookup top.key with
  | some cur =>
    if cur.version = top.version ∧ cur.expiresAt ≤ now then map.erase top.key else map
  | none => map

theorem sweepHeap_cons (now : Nat) (top : HeapEntry) (rest : List HeapEntry)
    (map : AList fun _ : Bytes => StoreEntry) : sweepHeap now (top :: rest) map =
      if top.expiresAt > now then (top :: rest, map)
      else sweepHeap now rest (dropExpired now top map) := by
  rw [sweepHeap, dropExpired]
  split
  · rfl
  · cases map.lookup top.key with
    | none => rfl
    | some cur =>
      dsimp only
      split <;> rfl

/-- Only the twin of the heap entry is removed, and only if it has expired. -/
theorem lookup_dropExpired {now : Nat} {top : HeapEntry}
    {map : AList fun _ : Bytes => StoreEntry} {hkey : Bytes} {entry : StoreEntry} :
    (dropExpired now top map).lookup hkey = some entry ↔
      map.lookup hkey = some entry ∧
        ¬ (hkey = top.key ∧ entry.version = top.version ∧ entry.expiresAt ≤ now) := by
  rw [dropExpired]
  cases found : map.lookup top.key with
  | none =>
    dsimp only
    constructor
    · intro held
      refine ⟨held, ?_⟩
      rintro ⟨rfl, -⟩
      rw [found] at held
      cases held
    · exact fun held => held.1
  | some cur =>
    dsimp only
    by_cases same : hkey = top.key
    · subst same
      split
      next expired =>
        rw [AList.lookup_erase, found]
        constructor
        · intro held
          cases held
        · rintro ⟨held, kept⟩
          cases held
          exact absurd ⟨rfl, expired⟩ kept
      next alive =>
        rw [found, Option.some.injEq]
        constructor
        · rintro rfl
          exact ⟨rfl, fun expired => alive expired.2⟩
        · exact fun held => held.1
    · split
      · rw [AList.lookup_erase_ne same]
        tauto
      · tauto

/-- The loop of a sweep removes what has expired, provided the twins of those entries are
still in the heap, and stops at the first heap entry that is alive. -/
theorem sweepHeap_exact {now : Nat} {heap : List HeapEntry} (heaped : Heaped heap)
    {map : AList fun _ : Bytes => StoreEntry}
    (twins : ∀ hkey entry, map.lookup hkey = some entry → entry.expiresAt ≤ now →
      entry.twin hkey ∈ heap) :
    (∀ hkey entry, (sweepHeap now heap map).2.lookup hkey = some entry ↔
      map.lookup hkey = some entry ∧ now < entry.expiresAt) ∧
    (sweepHeap now heap map).1 = heap.filter fun entry => now < entry.expiresAt := by
  induction heap generalizing map with
  | nil =>
    refine ⟨?_, rfl⟩
    intro hkey entry
    refine ⟨fun found => ⟨found, ?_⟩, fun found => found.1⟩
    by_contra expired
    exact absurd (twins hkey entry found (Nat.not_lt.mp expired)) List.not_mem_nil
  | cons top rest ih =>
    obtain ⟨greatest, ordered⟩ := List.pairwise_cons.mp heaped
    rw [sweepHeap_cons]
    split
    next alive =>
      -- Everything behind the top expires no earlier, so nothing has expired.
      have all : ∀ entry ∈ top :: rest, now < entry.expiresAt := by
        intro entry member
        rcases List.mem_cons.mp member with rfl | behind
        · exact alive
        · exact Nat.lt_of_lt_of_le alive (HeapEntry.expires_le (greatest entry behind))
      refine ⟨?_, ?_⟩
      · intro hkey entry
        refine ⟨fun found => ⟨found, ?_⟩, fun found => found.1⟩
        by_contra expired
        have twin := all _ (twins hkey entry found (Nat.not_lt.mp expired))
        exact expired twin
      · exact (List.filter_eq_self.mpr fun entry member => decide_eq_true (all entry member)).symm
    next expired =>
      have later : ∀ hkey entry, (dropExpired now top map).lookup hkey = some entry →
          entry.expiresAt ≤ now → entry.twin hkey ∈ rest := by
        intro hkey entry found past
        obtain ⟨held, other⟩ := lookup_dropExpired.mp found
        rcases List.mem_cons.mp (twins hkey entry held past) with same | behind
        · exact absurd ⟨congrArg HeapEntry.key same, congrArg HeapEntry.version same, past⟩ other
        · exact behind
      obtain ⟨swept, left⟩ := ih ordered later
      refine ⟨?_, ?_⟩
      · intro hkey entry
        rw [swept, lookup_dropExpired]
        constructor
        · rintro ⟨⟨held, -⟩, alive⟩
          exact ⟨held, alive⟩
        · rintro ⟨held, alive⟩
          exact ⟨⟨held, fun dropped => absurd dropped.2.2 (Nat.not_le.mpr alive)⟩, alive⟩
      · rw [left, List.filter_cons_of_neg]
        simpa using expired

/-- A call that has returned, with the store before and after its lock section. -/
structure Returned where
  call : Call
  reply : Reply
  before : StoreInner
  after : StoreInner

/-- The versions a call has pushed onto the heap. -/
def Returned.pushed (returned : Returned) : List Nat :=
  (returned.after.heap.diff returned.before.heap).map (·.version)

def Returned.stored (returned : Returned) : Option Bytes :=
  match returned.call, returned.reply with
  | .set _ value _, .done | .setIfAbsent _ value _, .stored true => some value
  | _, _ => none

/-- The versions that have been pushed, the latest first. -/
def versions (log : List Returned) : List Nat := log.flatMap (·.pushed)

section
variable (X : Suite) (latest : Nat) (storeKey : Key)

/-- A whole call, with the clock reading and the nonce it gets. -/
def perform (now : Nat) (nonce : Draw 12) (call : Call) (inner : StoreInner) : Returned :=
  match prepare X latest now storeKey nonce call with
  | .error reply => ⟨call, reply, inner, inner⟩
  | .ok prepared =>
    ⟨call, (prepared.section X storeKey inner).1, inner, (prepared.section X storeKey inner).2⟩

/-- The states of a store that was empty at first, with the calls that have returned, the
latest first. The clock readings are arbitrary. -/
inductive Runs : StoreInner → List Returned → Prop
  | empty : Runs ⟨∅, [], 0, false⟩ []
  | call {inner : StoreInner} {log : List Returned} (runs : Runs inner log) (now : Nat)
      (nonce : Draw 12) (call : Call) :
    Runs (perform X latest storeKey now nonce call inner).after
      (perform X latest storeKey now nonce call inner :: log)
  | sweep {inner : StoreInner} {log : List Returned} (runs : Runs inner log) (now : Nat) :
    Runs (sweepExpired now inner) log
  | stop {inner : StoreInner} {log : List Returned} (runs : Runs inner log) :
    Runs { inner with stop := true } log

end

/-- The hashed key and the ciphertext a lock section has put in, which its reply tells. -/
def Prepared.stored : Prepared → Reply → Option (Bytes × Bytes)
  | .set _ hkey ciphertext _, .done => some (hkey, ciphertext)
  | .setIfAbsent _ hkey ciphertext _, .stored true => some (hkey, ciphertext)
  | _, _ => none

/-- The changes a lock section can make, with the hashed key and ciphertext it puts in. -/
inductive Change (inner : StoreInner) : StoreInner → Option (Bytes × Bytes) → Prop
  | kept : Change inner inner none
  | swept (now : Nat) : Change inner (sweepExpired now inner) none
  | erased (hkey : Bytes) : Change inner { inner with map := inner.map.erase hkey } none
  | inserted (now : Nat) (hkey ciphertext : Bytes) (expiresAt : Nat) :
    Change inner
      { map := (sweepExpired now inner).map.insert hkey ⟨ciphertext, expiresAt, inner.nextVersion⟩
        heap := heapPush ⟨expiresAt, inner.nextVersion, hkey⟩ (sweepExpired now inner).heap
        nextVersion := inner.nextVersion + 1
        stop := inner.stop }
      (some (hkey, ciphertext))

/-- An entry goes in, with the reply for success, or its version would be too large. -/
theorem insertEntry_change (inner : StoreInner) (now : Nat) (hkey ciphertext : Bytes)
    (expiresAt : Nat) (success : Reply) :
    ∃ put, Change inner (insertEntry hkey ciphertext expiresAt success (sweepExpired now inner)).2 put ∧
      ((insertEntry hkey ciphertext expiresAt success (sweepExpired now inner)).1 = success ∧
          put = some (hkey, ciphertext) ∨
        (∃ error, (insertEntry hkey ciphertext expiresAt success (sweepExpired now inner)).1 =
          .failed error) ∧ put = none) := by
  by_cases room : (sweepExpired now inner).nextVersion + 1 < 2 ^ 64
  · simp only [insertEntry, nextVersion, if_pos room]
    exact ⟨_, .inserted now hkey ciphertext expiresAt, .inl ⟨trivial, rfl⟩⟩
  · simp only [insertEntry, nextVersion, if_neg room]
    exact ⟨_, .swept now, .inr ⟨⟨_, rfl⟩, rfl⟩⟩

theorem section_change (X : Suite) (storeKey : Key) (inner : StoreInner) (prepared : Prepared) :
    Change inner (prepared.section X storeKey inner).2
      (prepared.stored (prepared.section X storeKey inner).1) := by
  cases prepared with
  | set now hkey ciphertext expiresAt =>
    obtain ⟨put, changed, ⟨replied, rfl⟩ | ⟨⟨error, replied⟩, rfl⟩⟩ :=
      insertEntry_change inner now hkey ciphertext expiresAt .done
    all_goals
      rw [Prepared.section, replied]
      exact changed
  | setIfAbsent now hkey ciphertext expiresAt =>
    obtain ⟨put, changed, replied⟩ :=
      insertEntry_change inner now hkey ciphertext expiresAt (.stored true)
    have inserted : Change inner
        (insertEntry hkey ciphertext expiresAt (.stored true) (sweepExpired now inner)).2
        ((Prepared.setIfAbsent now hkey ciphertext expiresAt).stored
          (insertEntry hkey ciphertext expiresAt (.stored true) (sweepExpired now inner)).1) := by
      obtain ⟨replied, rfl⟩ | ⟨⟨error, replied⟩, rfl⟩ := replied
      all_goals
        rw [replied]
        exact changed
    cases found : (sweepExpired now inner).map.lookup hkey with
    | none =>
      simp only [Prepared.section, found]
      exact inserted
    | some entry =>
      by_cases alive : entry.expiresAt > now
      · simp only [Prepared.section, found, if_pos alive]
        exact .swept now
      · simp only [Prepared.section, found, if_neg alive]
        exact inserted
  | peek now hkey =>
    dsimp only [Prepared.section, Prepared.stored]
    split
    · split
      · exact .kept
      · exact .erased hkey
    · exact .kept
  | take now hkey =>
    dsimp only [Prepared.section, Prepared.stored]
    split
    · exact .kept
    · exact .erased hkey
  | del hkey => exact .erased hkey

/-- The heap is ordered, every entry of the map has its twin in it, and every heap entry
has a version that was pushed; no version was pushed twice, and the next one is new. -/
structure Versioned (inner : StoreInner) (log : List Returned) : Prop where
  heaped : Heaped inner.heap
  twins : ∀ hkey entry, inner.map.lookup hkey = some entry → entry.twin hkey ∈ inner.heap
  pushed : ∀ entry ∈ inner.heap, entry.version ∈ versions log
  distinct : (versions log).Nodup
  below : ∀ version ∈ versions log, version < inner.nextVersion

namespace Versioned
variable {inner : StoreInner} {log : List Returned}

theorem swept (versioned : Versioned inner log) (now : Nat) :
    (∀ hkey entry, (sweepExpired now inner).map.lookup hkey = some entry ↔
      inner.map.lookup hkey = some entry ∧ now < entry.expiresAt) ∧
    (sweepExpired now inner).heap = inner.heap.filter fun entry => now < entry.expiresAt :=
  sweepHeap_exact versioned.heaped fun hkey entry found _ => versioned.twins hkey entry found

theorem sweep (versioned : Versioned inner log) (now : Nat) :
    Versioned (sweepExpired now inner) log := by
  obtain ⟨lookups, heap⟩ := versioned.swept now
  constructor
  · rw [heap]
    exact versioned.heaped.filter _
  · intro hkey entry found
    obtain ⟨held, alive⟩ := (lookups hkey entry).mp found
    rw [heap]
    exact List.mem_filter.mpr ⟨versioned.twins hkey entry held, decide_eq_true alive⟩
  · intro entry member
    rw [heap] at member
    exact versioned.pushed entry (List.mem_of_mem_filter member)
  · exact versioned.distinct
  · exact versioned.below

theorem erase (versioned : Versioned inner log) (hkey : Bytes) :
    Versioned { inner with map := inner.map.erase hkey } log where
  heaped := versioned.heaped
  twins other entry found := by
    by_cases same : other = hkey
    · subst same
      rw [AList.lookup_erase] at found
      cases found
    · rw [AList.lookup_erase_ne same] at found
      exact versioned.twins other entry found
  pushed := versioned.pushed
  distinct := versioned.distinct
  below := versioned.below

theorem silent (versioned : Versioned inner log) {returned : Returned}
    (pushed : returned.pushed = []) : Versioned inner (returned :: log) := by
  have same : versions (returned :: log) = versions log := by
    rw [versions, List.flatMap_cons, pushed]
    rfl
  exact { versioned with
    pushed := same ▸ versioned.pushed, distinct := same ▸ versioned.distinct
    below := same ▸ versioned.below }

theorem insert (versioned : Versioned inner log) {returned : Returned} (hkey ciphertext : Bytes)
    (expiresAt : Nat) (pushed : returned.pushed = [inner.nextVersion]) :
    Versioned
      { map := inner.map.insert hkey ⟨ciphertext, expiresAt, inner.nextVersion⟩
        heap := heapPush ⟨expiresAt, inner.nextVersion, hkey⟩ inner.heap
        nextVersion := inner.nextVersion + 1
        stop := inner.stop } (returned :: log) := by
  have grown : versions (returned :: log) = inner.nextVersion :: versions log := by
    rw [versions, List.flatMap_cons, pushed]
    rfl
  constructor
  · exact versioned.heaped.push _
  · intro other entry found
    rw [mem_heapPush]
    by_cases same : other = hkey
    · subst same
      rw [AList.lookup_insert] at found
      cases found
      exact .inl rfl
    · rw [AList.lookup_insert_ne same] at found
      exact .inr (versioned.twins other entry found)
  · intro entry member
    rw [grown, List.mem_cons]
    rcases mem_heapPush.mp member with rfl | old
    · exact .inl rfl
    · exact .inr (versioned.pushed entry old)
  · rw [grown, List.nodup_cons]
    exact ⟨fun old => Nat.lt_irrefl _ (versioned.below _ old), versioned.distinct⟩
  · intro version member
    rw [grown, List.mem_cons] at member
    rcases member with rfl | old
    · exact Nat.lt_succ_self _
    · exact Nat.lt_succ_of_lt (versioned.below version old)

/-- A section pushes the next version if it puts something in, and nothing otherwise. -/
theorem changed_pushed (versioned : Versioned inner log) {after : StoreInner}
    {put : Option (Bytes × Bytes)} (changed : Change inner after put) :
    (after.heap.diff inner.heap).map (·.version) = (put.map fun _ => inner.nextVersion).toList := by
  have swept : ∀ now, (sweepExpired now inner).heap.diff inner.heap = [] := by
    intro now
    rw [(versioned.swept now).2]
    exact diff_of_sublist List.filter_sublist
  cases changed with
  | kept | erased => rw [diff_of_sublist (List.Sublist.refl _)]; rfl
  | swept now => rw [swept now]; rfl
  | inserted now hkey ciphertext expiresAt =>
    -- The entry is new, since its version is, and the rest of the heap was there before.
    have new : (⟨expiresAt, inner.nextVersion, hkey⟩ : HeapEntry) ∉ inner.heap := fun member =>
      Nat.lt_irrefl _ (versioned.below _ (versioned.pushed _ member))
    have order := (heapPush_perm ⟨expiresAt, inner.nextVersion, hkey⟩ (sweepExpired now inner).heap).diff_right
      inner.heap
    rw [List.cons_diff_of_not_mem new, swept now, List.perm_singleton] at order
    rw [order]
    rfl

theorem change (versioned : Versioned inner log) {returned : Returned}
    {put : Option (Bytes × Bytes)} (before : returned.before = inner)
    (changed : Change inner returned.after put) : Versioned returned.after (returned :: log) := by
  have pushed : returned.pushed = (put.map fun _ => inner.nextVersion).toList := by
    rw [Returned.pushed, before]
    exact versioned.changed_pushed changed
  generalize returned.after = after at changed ⊢
  cases changed with
  | kept => exact versioned.silent pushed
  | swept now => exact (versioned.sweep now).silent pushed
  | erased hkey => exact (versioned.erase hkey).silent pushed
  | inserted now hkey ciphertext expiresAt =>
    exact (versioned.sweep now).insert hkey ciphertext expiresAt pushed

/-- What the map holds after a section was there before, or it is what the section put in. -/
theorem changed_lookup (versioned : Versioned inner log) {after : StoreInner}
    {put : Option (Bytes × Bytes)} (changed : Change inner after put) {hkey : Bytes}
    {entry : StoreEntry} (found : after.map.lookup hkey = some entry) :
    inner.map.lookup hkey = some entry ∨
      put = some (hkey, entry.ciphertext) ∧ entry.version = inner.nextVersion := by
  cases changed with
  | kept => exact .inl found
  | swept now => exact .inl (((versioned.swept now).1 hkey entry).mp found).1
  | erased other =>
    by_cases same : hkey = other
    · subst same
      rw [AList.lookup_erase] at found
      cases found
    · rw [AList.lookup_erase_ne same] at found
      exact .inl found
  | inserted now other ciphertext expiresAt =>
    by_cases same : hkey = other
    · subst same
      rw [AList.lookup_insert] at found
      cases found
      exact .inr ⟨rfl, rfl⟩
    · rw [AList.lookup_insert_ne same] at found
      exact .inl (((versioned.swept now).1 hkey entry).mp found).1

end Versioned

section
variable {X : Suite} {latest : Nat} {storeKey : Key} {inner : StoreInner} {log : List Returned}

theorem perform_call (now : Nat) (nonce : Draw 12) (call : Call) (inner : StoreInner) :
    (perform X latest storeKey now nonce call inner).call = call := by
  rw [perform]
  split <;> rfl

theorem perform_before (now : Nat) (nonce : Draw 12) (call : Call) (inner : StoreInner) :
    (perform X latest storeKey now nonce call inner).before = inner := by
  rw [perform]
  split <;> rfl

/-- A call changes the store by its lock section, if it gets that far. -/
theorem perform_change (now : Nat) (nonce : Draw 12) (call : Call) (inner : StoreInner) :
    ∃ put, Change inner (perform X latest storeKey now nonce call inner).after put ∧
      ∀ parts, put = some parts → ∃ prepared, prepare X latest now storeKey nonce call = .ok prepared ∧
        prepared.stored (perform X latest storeKey now nonce call inner).reply = some parts := by
  cases ready : prepare X latest now storeKey nonce call with
  | error reply =>
    simp only [perform, ready]
    exact ⟨none, .kept, fun parts put => nomatch put⟩
  | ok prepared =>
    simp only [perform, ready]
    exact ⟨_, section_change X storeKey inner prepared, fun parts put => ⟨prepared, rfl, put⟩⟩

theorem Runs.versioned (runs : Runs X latest storeKey inner log) : Versioned inner log := by
  induction runs with
  | empty =>
    refine ⟨List.Pairwise.nil, ?_, ?_, List.nodup_nil, ?_⟩
    · intro hkey entry found
      cases found
    · intro entry member
      cases member
    · intro version member
      cases member
  | call runs now nonce call ih =>
    obtain ⟨put, changed, -⟩ := perform_change now nonce call _
    exact ih.change (perform_before now nonce call _) changed
  | sweep runs now ih => exact ih.sweep now
  | stop runs ih => exact { ih with }

/-- In every run the map and the heap are tied together by versions, and a sweep at any
time leaves exactly the entries that are alive then, and a heap of which the same holds. -/
theorem sweep_exact (runs : Runs X latest storeKey inner log) :
    (∀ hkey entry, inner.map.lookup hkey = some entry → entry.twin hkey ∈ inner.heap) ∧
    (versions log).Nodup ∧ (∀ version ∈ versions log, version < inner.nextVersion) ∧
    (∀ entry ∈ inner.heap, entry.version ∈ versions log) ∧
    ∀ now, (∀ hkey entry, (sweepExpired now inner).map.lookup hkey = some entry ↔
        inner.map.lookup hkey = some entry ∧ now < entry.expiresAt) ∧
      (∀ entry ∈ (sweepExpired now inner).heap, now < entry.expiresAt) := by
  have versioned := runs.versioned
  refine ⟨versioned.twins, versioned.distinct, versioned.below, versioned.pushed, ?_⟩
  intro now
  obtain ⟨lookups, heap⟩ := versioned.swept now
  refine ⟨lookups, ?_⟩
  intro entry member
  rw [heap] at member
  exact of_decide_eq_true (List.mem_filter.mp member).2

/-- A write of the log pushed the version of the entry, under the hashed key of the write, and
what was sealed is the value that was written. -/
structure Source (X : Suite) (storeKey : Key) (hkey : Bytes) (entry : StoreEntry) (write : Returned) :
    Prop where
  pushed : entry.version ∈ write.pushed
  hashed : hashSha256Hex X write.call.key = hkey
  opens : ∃ value, write.stored = some value ∧ unsealValue X storeKey hkey entry.ciphertext = .ok value

theorem prepare_stored (correct : X.AeadCorrect) {now : Nat} {nonce : Draw 12} {returned : Returned}
    {prepared : Prepared} (ready : prepare X latest now storeKey nonce returned.call = .ok prepared)
    {hkey ciphertext : Bytes} (stored : prepared.stored returned.reply = some (hkey, ciphertext)) :
    hashSha256Hex X returned.call.key = hkey ∧
      ∃ value, returned.stored = some value ∧ unsealValue X storeKey hkey ciphertext = .ok value := by
  obtain ⟨call, reply, before, after⟩ := returned
  cases call with
  | set key value ttl =>
    simp only [prepare] at ready
    split at ready
    · cases ready
    · split at ready
      · cases ready
      · next written =>
        cases ready
        obtain ⟨rfl, -, sealed⟩ := prepareWrite_eq_ok X written
        cases reply <;> cases stored
        exact ⟨rfl, value, rfl, unseal_seal X correct sealed⟩
  | setIfAbsent key value ttl =>
    simp only [prepare] at ready
    split at ready
    · cases ready
    · split at ready
      · cases ready
      · next written =>
        cases ready
        obtain ⟨rfl, -, sealed⟩ := prepareWrite_eq_ok X written
        cases reply with
        | stored fresh =>
          cases fresh <;> cases stored
          exact ⟨rfl, value, rfl, unseal_seal X correct sealed⟩
        | done | value | failed => cases stored
  | peek key | take key | del key =>
    cases ready
    cases stored

/-- Every entry of the map was put in by a write of the log. -/
theorem Runs.sourced (correct : X.AeadCorrect) (runs : Runs X latest storeKey inner log)
    {hkey : Bytes} {entry : StoreEntry} (found : inner.map.lookup hkey = some entry) :
    ∃ write ∈ log, Source X storeKey hkey entry write := by
  induction runs with
  | empty => cases found
  | @call inner log runs now nonce call ih =>
    obtain ⟨put, changed, stored⟩ := perform_change now nonce call inner
    have same : (perform X latest storeKey now nonce call inner).call = call := perform_call ..
    rcases runs.versioned.changed_lookup changed found with held | ⟨rfl, version⟩
    · obtain ⟨write, member, source⟩ := ih held
      exact ⟨write, List.mem_cons_of_mem _ member, source⟩
    · obtain ⟨prepared, ready, stored⟩ := stored _ rfl
      obtain ⟨hashed, opens⟩ := prepare_stored correct (same.symm ▸ ready) stored
      refine ⟨_, List.mem_cons_self, ?_, hashed, opens⟩
      rw [Returned.pushed, perform_before, runs.versioned.changed_pushed changed, version]
      exact List.mem_singleton_self _
  | @sweep inner log runs now ih => exact ih (((runs.versioned.swept now).1 hkey entry).mp found).1
  | stop runs ih => exact ih found

theorem read_held {now : Nat} {nonce : Draw 12} {call : Call} {key value : Bytes}
    (reads : call = .peek key ∨ call = .take key)
    (replied : (perform X latest storeKey now nonce call inner).reply = .value (some value)) :
    ∃ entry, inner.map.lookup (hashSha256Hex X key) = some entry ∧
      unsealValue X storeKey (hashSha256Hex X key) entry.ciphertext = .ok value := by
  have opened : ∀ {blob : Bytes}, unsealed X storeKey (hashSha256Hex X key) blob = .value (some value) →
      unsealValue X storeKey (hashSha256Hex X key) blob = .ok value := by
    intro blob replied
    rw [unsealed] at replied
    split at replied
    · next opens =>
      cases replied
      exact opens
    · cases replied
  rcases reads with rfl | rfl
  · simp only [perform, prepare, Prepared.section] at replied
    split at replied
    · next entry found =>
      split at replied
      · exact ⟨entry, found, opened replied⟩
      · cases replied
    · cases replied
  · simp only [perform, prepare, Prepared.section] at replied
    split at replied
    · cases replied
    · next entry found =>
      split at replied
      · cases replied
      · exact ⟨entry, found, opened replied⟩

/-- An accepted `set` with a positive lifetime puts its entry in under a new version. -/
theorem set_inserted {now : Nat} {nonce : Draw 12} {key value : Bytes} {ttl : Nat} (lives : ttl ≠ 0)
    (replied : (perform X latest storeKey now nonce (.set key value ttl) inner).reply = .done) :
    ∃ entry, (perform X latest storeKey now nonce (.set key value ttl) inner).after.map.lookup
      (hashSha256Hex X key) = some entry ∧ entry.version = inner.nextVersion := by
  cases written : prepareWrite X latest now storeKey nonce key value ttl with
  | error error => simp [perform, prepare, lives, written] at replied
  | ok parts =>
    obtain ⟨hkey, ciphertext, expiresAt⟩ := parts
    obtain ⟨rfl, -, -⟩ := prepareWrite_eq_ok X written
    simp only [perform, prepare, if_neg lives, written, Prepared.section] at replied ⊢
    by_cases room : (sweepExpired now inner).nextVersion + 1 < 2 ^ 64
    · simp only [insertEntry, nextVersion, if_pos room]
      exact ⟨_, AList.lookup_insert _, rfl⟩
    · simp only [insertEntry, nextVersion, if_neg room] at replied
      cases replied

theorem Change.nextVersion_le {after : StoreInner} {put : Option (Bytes × Bytes)}
    (changed : Change inner after put) : inner.nextVersion ≤ after.nextVersion := by
  cases changed with
  | inserted now hkey ciphertext expiresAt => exact Nat.le_succ _
  | _ => exact Nat.le_refl _

/-- From an accepted `set` with a positive lifetime on, its key has no older entry. -/
theorem Runs.no_older (runs : Runs X latest storeKey inner log) {between earlier : List Returned}
    {set : Returned} {key value : Bytes} {ttl : Nat} (ordered : log = between ++ set :: earlier)
    (accepted : set.call = .set key value ttl) (done : set.reply = .done) (lives : ttl ≠ 0) :
    ∃ version, (∀ older ∈ versions earlier, older < version) ∧ version ≤ inner.nextVersion ∧
      ∀ entry, inner.map.lookup (hashSha256Hex X key) = some entry → version ≤ entry.version := by
  induction runs generalizing between with
  | empty => simp at ordered
  | @call inner log runs now nonce call ih =>
    obtain ⟨put, changed, -⟩ := perform_change now nonce call inner
    cases between with
    | nil =>
      -- The call is the accepted `set` itself.
      obtain ⟨rfl, rfl⟩ := List.cons.inj ordered
      rw [perform_call] at accepted
      subst accepted
      obtain ⟨entry, held, version⟩ := set_inserted lives done
      refine ⟨inner.nextVersion, runs.versioned.below, changed.nextVersion_le, ?_⟩
      intro other found
      rw [held] at found
      cases found
      exact version.ge
    | cons newest between =>
      obtain ⟨-, rest⟩ := List.cons.inj ordered
      obtain ⟨version, older, bound, least⟩ := ih rest
      refine ⟨version, older, bound.trans changed.nextVersion_le, ?_⟩
      intro entry found
      rcases runs.versioned.changed_lookup changed found with held | ⟨-, new⟩
      · exact least entry held
      · exact new ▸ bound
  | @sweep inner log runs now ih =>
    obtain ⟨version, older, bound, least⟩ := ih ordered
    refine ⟨version, older, bound, ?_⟩
    intro entry found
    exact least entry (((runs.versioned.swept now).1 _ entry).mp found).1
  | stop runs ih => exact ih ordered

/-- Once a `set` with a positive lifetime is accepted, whatever is read under its key is the
value of a write from then on: the entry that is read has a version which that write pushed, and
no call before the `set` did. -/
theorem set_supersedes (correct : X.AeadCorrect) (runs : Runs X latest storeKey inner log)
    {later between earlier : List Returned} {read set : Returned} {key value found : Bytes} {ttl : Nat}
    (ordered : log = later ++ read :: (between ++ set :: earlier))
    (accepted : set.call = .set key value ttl) (done : set.reply = .done) (lives : ttl ≠ 0)
    (reads : read.call = .peek key ∨ read.call = .take key)
    (replied : read.reply = .value (some found)) :
    ∃ entry, read.before.map.lookup (hashSha256Hex X key) = some entry ∧
      unsealValue X storeKey (hashSha256Hex X key) entry.ciphertext = .ok found ∧
      entry.version ∉ versions earlier ∧
      ∃ write ∈ between ++ [set], entry.version ∈ write.pushed ∧ write.stored = some found ∧
        hashSha256Hex X write.call.key = hashSha256Hex X key := by
  induction runs generalizing later with
  | empty => simp at ordered
  | @call inner log runs now nonce call ih =>
    cases later with
    | nil =>
      -- The call is the read: the entry it finds is not older than the `set`.
      obtain ⟨rfl, rfl⟩ := List.cons.inj ordered
      rw [perform_call] at reads
      obtain ⟨entry, held, opens⟩ := read_held reads replied
      obtain ⟨least, older, -, bound⟩ := runs.no_older rfl accepted done lives
      have recent : entry.version ∉ versions earlier := by
        intro member
        exact absurd (bound entry held) (Nat.not_le.mpr (older _ member))
      obtain ⟨write, member, pushed, hashed, value', stored, opens'⟩ := runs.sourced correct held
      rw [opens] at opens'
      cases opens'
      refine ⟨entry, (perform_before now nonce call inner).symm ▸ held, opens, recent, write, ?_,
        pushed, stored, hashed⟩
      rw [← List.singleton_append, ← List.append_assoc] at member
      rcases List.mem_append.mp member with new | old
      · exact new
      · exact absurd (List.mem_flatMap.mpr ⟨write, old, pushed⟩) recent
    | cons newest later =>
      obtain ⟨-, rest⟩ := List.cons.inj ordered
      exact ih rest
  | sweep runs now ih => exact ih ordered
  | stop runs ih => exact ih ordered

end

def zeroKey : Key := fit 32 []

/-- One more call of a run, at the given time, with the nonce zero. -/
def performNext (state : List Returned × StoreInner) (next : Nat × Call) :
    List Returned × StoreInner :=
  let returned := perform sampleSuite 100 zeroKey next.1 (.ok (fit 12 [])) next.2 state.2
  (returned :: state.1, returned.after)

def performAll (calls : List (Nat × Call)) : List Returned × StoreInner :=
  calls.foldl performNext ([], ⟨∅, [], 0, false⟩)

theorem performAll_runs (calls : List (Nat × Call)) :
    Runs sampleSuite 100 zeroKey (performAll calls).2 (performAll calls).1 := by
  have all : ∀ state : List Returned × StoreInner, Runs sampleSuite 100 zeroKey state.2 state.1 →
      Runs sampleSuite 100 zeroKey (calls.foldl performNext state).2
        (calls.foldl performNext state).1 := by
    induction calls with
    | nil => exact fun state runs => runs
    | cons first rest ih => exact fun state runs => ih _ (runs.call first.1 _ first.2)
  exact all _ .empty

/-- Two secrets with lifetimes of 10 and 20, swept at time 15. -/
theorem sweep_exact_sample :
    versions (performAll [(0, .set [1] [7] 10), (0, .set [2] [8] 20)]).1 = [1, 0] ∧
    (sweepExpired 15 (performAll [(0, .set [1] [7] 10), (0, .set [2] [8] 20)]).2).heap.length = 1 ∧
    ∀ entry ∈ (sweepExpired 15 (performAll [(0, .set [1] [7] 10), (0, .set [2] [8] 20)]).2).heap,
      15 < entry.expiresAt :=
  ⟨by decide +kernel, by decide +kernel, ((sweep_exact (performAll_runs _)).2.2.2.2 15).2⟩

def setAgain : List (Nat × Call) := [(0, .set [1] [7] 10), (1, .set [1] [8] 10), (2, .peek [1])]

theorem set_supersedes_sample : ∃ read set older : Returned,
    (performAll setAgain).1 = [read, set, older] ∧ read.reply = .value (some [8]) ∧
      older.pushed = [0] ∧ ∃ entry,
        read.before.map.lookup (hashSha256Hex sampleSuite [1]) = some entry ∧
        unsealValue sampleSuite zeroKey (hashSha256Hex sampleSuite [1]) entry.ciphertext = .ok [8] ∧
        entry.version ∉ versions [older] ∧
        ∃ write ∈ [] ++ [set], entry.version ∈ write.pushed ∧ write.stored = some [8] ∧
          hashSha256Hex sampleSuite write.call.key = hashSha256Hex sampleSuite [1] := by
  have runs := performAll_runs setAgain
  have calls : (performAll setAgain).1.map (·.call) = [.peek [1], .set [1] [8] 10, .set [1] [7] 10] := rfl
  have replies : (performAll setAgain).1.map (·.reply) = [.value (some [8]), .done, .done] := by
    decide +kernel
  have pushed : (performAll setAgain).1.map (·.pushed) = [[], [1], [0]] := by decide +kernel
  obtain ⟨read, set, older, listed⟩ : ∃ read set older, (performAll setAgain).1 = [read, set, older] :=
    ⟨_, _, _, rfl⟩
  rw [listed] at calls replies pushed
  simp only [List.map_cons, List.cons.injEq] at calls replies pushed
  have ordered : (performAll setAgain).1 = [] ++ read :: ([] ++ set :: [older]) := listed
  exact ⟨read, set, older, listed, replies.1, pushed.2.2.1, set_supersedes sampleSuite_aead runs ordered
    calls.2.1 replies.2.1 (by decide) (.inl calls.1) replies.1⟩

/-- A secret that is set again with a lifetime of zero: the call is accepted and pushes nothing,
and the old value is read afterwards. -/
theorem zero_ttl_ignored :
    Runs sampleSuite 100 zeroKey
      (performAll [(0, .set [1] [7] 10), (1, .set [1] [8] 0), (2, .peek [1])]).2
      (performAll [(0, .set [1] [7] 10), (1, .set [1] [8] 0), (2, .peek [1])]).1 ∧
    (performAll [(0, .set [1] [7] 10), (1, .set [1] [8] 0), (2, .peek [1])]).1.map
        (fun returned => (returned.reply, returned.pushed)) =
      [(.value (some [7]), []), (.done, []), (.done, [0])] :=
  ⟨performAll_runs _, by decide +kernel⟩

end Lithium.Utils
