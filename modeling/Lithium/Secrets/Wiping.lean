import Lithium.Secrets.ArenaRuns

/-! The constructors that take a secret over from a buffer and wipe the buffer
(`secrets/bytes.rs`, `secrets/arena.rs`). The one that stores into the arena leaves its
source as it is when the arena cannot give it a region. -/
namespace Lithium.Secrets
open Keys Memory

/-- `Zeroize::zeroize` on a slice. -/
def zeroize (buffer : Bytes) : Bytes := List.replicate buffer.length 0

/-- `SecretFixedBytes::from_wiped`, with the contents it leaves in its source. -/
def fixedFromWiped (n : Nat) (src : Bytes) : Except LithiumError (Fixed n) × Bytes :=
  if fits : src.length = n then (.ok ⟨src, fits⟩, zeroize src)
  else (.error (.invalidLength n src.length), zeroize src)

/-- `SecretFixedBytes::from_wiped_array`, with the contents it leaves in its source. -/
def fixedFromWipedArray {n : Nat} (src : Fixed n) : Fixed n × Bytes := (src, zeroize src.1)

/-- `SecretBytes::from_wiped`, with the contents it leaves in its source. -/
def secretBytesFromWiped (src : Bytes) : Bytes × Bytes := (src, zeroize src)

section
variable {bits : Nat}

/-- Arenas in use, among them those whose lock a panic has poisoned. -/
inductive Reachable (mapping : Mapping bits) : Run → Prop
  | fresh : Reachable mapping mapping.fresh
  | performed {run : Run} (reached : Reachable mapping run) (action : Action bits) :
    Reachable mapping (run.perform bits action)
  | poisoned {run : Run} (reached : Reachable mapping run) :
    Reachable mapping { run with arena := { run.arena with poisoned := true } }

theorem claim_poisoned {arena : Arena} (poisoned : arena.poisoned = true) (n : Nat) :
    claim bits n arena = .error (.failed (.internal "arena_lock_poisoned")) arena := by
  rw [claim, get_bind, if_pos poisoned]
  rfl

theorem drop_poisoned (arena : Arena) (region : Region) :
    (∃ after, region.drop bits arena = .ok () after ∧ after.poisoned = arena.poisoned) ∨
    ∃ stop, region.drop bits arena = .error stop arena := by
  rw [Region.drop, dealloc, get_bind]
  by_cases word : arena.inner.base + region.off < 2 ^ bits
  · left
    rw [bind_ok (addUsize_ok word arena)]
    exact ⟨_, rfl, rfl⟩
  · right
    have overflow : addUsize bits arena.inner.base region.off arena = .error .overflow arena := by
      rw [addUsize, if_neg word]
      rfl
    rw [bind_error overflow]
    exact ⟨_, rfl⟩

/-- Nothing makes a poisoned lock usable again. -/
theorem perform_poisoned {run : Run} (poisoned : run.arena.poisoned = true)
    (action : Action bits) : (run.perform bits action).arena.poisoned = true := by
  cases action with
  | claim len =>
    rw [Run.perform, claim_poisoned poisoned]
    exact poisoned
  | randomFixed n filled failed =>
    rw [Run.perform, randomFixed, bind_error (claim_poisoned poisoned n)]
    exact poisoned
  | storeFixed n secret =>
    rw [Run.perform, storeFixed, bind_error (claim_poisoned poisoned n)]
    exact poisoned
  | storeSliceFixed n slice =>
    rw [Run.perform, storeSliceFixed]
    split
    · exact poisoned
    · rw [bind_error (claim_poisoned poisoned n)]
      exact poisoned
  | storeFixedWiped n src =>
    rw [Run.perform, storeFixedWiped]
    split
    · exact poisoned
    · rw [claim_poisoned poisoned]
      exact poisoned
  | write handle bytes =>
    rw [Run.perform]
    split
    · exact poisoned
    · split
      · exact poisoned
      · exact poisoned
  | drop handle =>
    rw [Run.perform]
    split
    · exact poisoned
    · rename_i region found
      have outcome : (∃ after, region.drop bits run.arena = .ok () after ∧
          after.poisoned = run.arena.poisoned) ∨
          ∃ stop, region.drop bits run.arena = .error stop run.arena :=
        drop_poisoned run.arena region
      rcases outcome with ⟨after, dropped, same⟩ | ⟨stop, stopped⟩
      · rw [dropped]
        exact same.trans poisoned
      · rw [stopped]
        exact poisoned

/-- A run is sound as long as the lock is usable. -/
theorem Reachable.sound {mapping : Mapping bits} {run : Run} (reached : Reachable mapping run) :
    run.arena.poisoned = true ∨ Sound mapping run := by
  induction reached with
  | fresh => exact .inr (.fresh mapping)
  | performed _ action ih =>
    rcases ih with poisoned | sound
    · exact .inl (perform_poisoned poisoned action)
    · exact .inr (sound.perform action)
  | poisoned => exact .inl rfl

/-- The lock is usable, and a freed slot of the length or the rest of the mapping can be
handed out. -/
def HasRoom (arena : Arena) (n : Nat) : Prop :=
  arena.poisoned = false ∧ (Stocked arena (sizeClass n) ∨
    arena.inner.offset + sizeClass n ≤ arena.inner.size)

section
variable {mapping : Mapping bits} {arena : Arena} {regions : List Region} {n : Nat}

theorem bump_room (layout : Layout mapping arena regions)
    (room : arena.inner.offset + n ≤ arena.inner.size) :
    ∃ slot after, bump bits n arena = .ok slot after := by
  have word : arena.inner.offset + n < 2 ^ bits := by
    have inside := layout.size
    have fits := mapping.fits
    omega
  rw [bump, get_bind, checkedAdd, if_pos word]
  dsimp only
  rw [if_neg (Nat.not_lt.mpr room)]
  exact ⟨_, _, rfl⟩

theorem alloc_room (layout : Layout mapping arena regions) (word : n < 2 ^ bits)
    (room : Stocked arena (sizeClass n) ∨
      arena.inner.offset + sizeClass n ≤ arena.inner.size) :
    ∃ slot after, alloc bits n arena = .ok slot after := by
  have fits : sizeClass n < 2 ^ bits := by
    rcases room with stocked | room
    · exact Nat.lt_of_not_le fun huge => stocked (layout.offsetsOf_huge huge)
    · have inside := layout.size
      have fits := mapping.fits
      omega
  rw [alloc, bind_ok (roundUp_align mapping.one_lt word arena), if_pos fits]
  dsimp only
  rw [get_bind]
  rw [Stocked, offsetsOf] at room
  cases found : arena.inner.free.lookup (sizeClass n) with
  | none =>
    rw [found] at room
    exact bump_room layout (room.resolve_left fun stocked => stocked rfl)
  | some slots =>
    cases slots with
    | nil =>
      rw [found] at room
      exact bump_room layout (room.resolve_left fun stocked => stocked rfl)
    | cons off slots => exact ⟨_, _, rfl⟩

/-- A claim succeeds exactly if there is room for it. -/
theorem claim_iff_room (layout : Layout mapping arena regions) (word : n < 2 ^ bits) :
    (∃ region after, claim bits n arena = .ok region after) ↔ HasRoom arena n := by
  have outcome : Allocated bits arena (sizeClass n) (alloc bits n arena) :=
    alloc_cases mapping.one_lt word
  constructor
  · rintro ⟨region, after, claimed⟩
    refine ⟨layout.unpoisoned, ?_⟩
    rw [claim, get_bind, if_neg (by simp [layout.unpoisoned])] at claimed
    cases allocated : alloc bits n arena with
    | error stop stopped =>
      rw [bind_error allocated] at claimed
      cases claimed
    | ok slot allocatedArena =>
      rw [allocated] at outcome
      cases outcome with
      | reused found =>
        left
        simp [Stocked, offsetsOf, found]
      | bumped room => exact .inr room
  · rintro ⟨-, room⟩
    obtain ⟨slot, after, allocated⟩ := alloc_room layout word room
    rw [allocated] at outcome
    cases outcome with
    | reused found => exact ⟨_, _, claim_of_alloc layout allocated (layout.reuse found)⟩
    | bumped room =>
      exact ⟨_, _, claim_of_alloc layout allocated (layout.bumped (layout.size ▸ room))⟩

end

theorem Reachable.claim_iff {mapping : Mapping bits} {run : Run} (reached : Reachable mapping run)
    {n : Nat} (word : n < 2 ^ bits) :
    (∃ region after, claim bits n run.arena = .ok region after) ↔ HasRoom run.arena n := by
  rcases reached.sound with poisoned | sound
  · constructor
    · rintro ⟨region, after, claimed⟩
      rw [claim_poisoned poisoned] at claimed
      cases claimed
    · rintro ⟨usable, -⟩
      rw [poisoned] at usable
      cases usable
  · exact claim_iff_room sound.holds.layout word

def Wiped (buffer : Bytes) : Prop := ∀ byte ∈ buffer, byte = 0

theorem zeroize_wiped (buffer : Bytes) : Wiped (zeroize buffer) :=
  fun _ member => List.eq_of_mem_replicate member

/-- Whatever the constructors return, their source is wiped, and a secret they return holds
what the source held. -/
structure WipesSource (bits n : Nat) (src : Bytes) (arena : Arena) : Prop where
  fixed : Wiped (fixedFromWiped n src).2 ∧
    ∀ secret, (fixedFromWiped n src).1 = .ok secret → secret.1 = src
  array : ∀ array : Fixed n, array.1 = src → Wiped (fixedFromWipedArray array).2 ∧
    (fixedFromWipedArray array).1.1 = src
  bytes : Wiped (secretBytesFromWiped src).2 ∧ (secretBytesFromWiped src).1 = src
  stored : Wiped (storeFixedWiped bits n src arena).2 ∧
    ∀ region after, (storeFixedWiped bits n src arena).1 = .ok region after →
      region.asSlice after = src

theorem fixedFromWiped_wipes (n : Nat) (src : Bytes) : Wiped (fixedFromWiped n src).2 ∧
    ∀ secret, (fixedFromWiped n src).1 = .ok secret → secret.1 = src := by
  rw [fixedFromWiped]
  split
  · refine ⟨zeroize_wiped src, ?_⟩
    intro secret made
    cases made
    rfl
  · refine ⟨zeroize_wiped src, ?_⟩
    intro secret made
    cases made

section
variable {mapping : Mapping bits} {run : Run}

/-- The arena's constructor wipes its source if it refuses its length, if it gets a region
for it, or if there was nothing to wipe. -/
theorem storeFixedWiped_wiped_iff (reached : Reachable mapping run) {n : Nat}
    (word : n < 2 ^ bits) (src : Bytes) :
    Wiped (storeFixedWiped bits n src run.arena).2 ↔
      src.length ≠ n ∨ HasRoom run.arena n ∨ Wiped src := by
  rw [storeFixedWiped]
  by_cases length : src.length = n
  · rw [if_neg (not_not.mpr length), ← reached.claim_iff word]
    cases claimed : claim bits n run.arena with
    | error stop after => simp [length]
    | ok region after =>
      constructor
      · intro _
        exact .inr (.inl ⟨region, after, rfl⟩)
      · intro _
        exact zeroize_wiped src
  · rw [if_pos length]
    constructor
    · intro _
      exact .inl length
    · intro _
      exact zeroize_wiped src

theorem storeFixedWiped_stores (reached : Reachable mapping run) {n : Nat} (word : n < 2 ^ bits)
    {src : Bytes} {region : Region} {after : Arena}
    (stored : (storeFixedWiped bits n src run.arena).1 = .ok region after) :
    region.asSlice after = src := by
  rcases reached.sound with poisoned | sound
  · rw [storeFixedWiped, claim_poisoned poisoned] at stored
    split at stored
    · cases stored
    · cases stored
  · have outcome := storeFixedWiped_opened sound.holds word src
    rw [stored] at outcome
    cases outcome with
    | made _ holds _ _ => exact holds

/-- Of a reachable arena, the constructors wipe their source exactly if the length is
refused, the arena has room for a region, or the source is zero from the start. -/
theorem wipes_source_iff (reached : Reachable mapping run) (n : Fin (2 ^ bits)) (src : Bytes) :
    WipesSource bits n src run.arena ↔
      src.length ≠ n ∨ HasRoom run.arena n ∨ Wiped src := by
  rw [← storeFixedWiped_wiped_iff reached n.2]
  constructor
  · intro wipes
    exact wipes.stored.1
  · intro wiped
    constructor
    · exact fixedFromWiped_wipes n src
    · rintro array rfl
      exact ⟨zeroize_wiped array.1, rfl⟩
    · exact ⟨zeroize_wiped src, rfl⟩
    · refine ⟨wiped, ?_⟩
      intro region after stored
      exact storeFixedWiped_stores reached n.2 stored

end
end

def page : Mapping 64 where
  base := 4096
  size := 4096
  memory := fun _ => 0
  nonnull := by decide
  fits := by decide
  zeroed := fun _ _ => rfl

def sampleKey : Bytes := List.replicate 32 7

def fullPage : Run := page.fresh.perform 64 (.claim ⟨4096, by decide⟩)

def poisonedPage : Run :=
  { page.fresh with arena := { page.fresh.arena with poisoned := true } }

theorem wipes_source_page : WipesSource 64 32 sampleKey page.fresh.arena := by
  apply (wipes_source_iff .fresh (⟨32, by decide⟩ : Fin (2 ^ 64)) sampleKey).mpr
  exact .inr (.inl ⟨rfl, .inr (by decide)⟩)

/-- With the arena full, or its lock poisoned, the call fails and the key stays in its
buffer. -/
theorem source_left : Reachable page fullPage ∧ Reachable page poisonedPage ∧
    (storeFixedWiped 64 32 sampleKey fullPage.arena).2 = sampleKey ∧
    (storeFixedWiped 64 32 sampleKey poisonedPage.arena).2 = sampleKey ∧
    ¬ WipesSource 64 32 sampleKey fullPage.arena ∧
    ¬ WipesSource 64 32 sampleKey poisonedPage.arena := by
  have full : (storeFixedWiped 64 32 sampleKey fullPage.arena).2 = sampleKey := by decide +kernel
  have poisoned : (storeFixedWiped 64 32 sampleKey poisonedPage.arena).2 = sampleKey := by
    decide +kernel
  have secret : ¬ Wiped sampleKey := by
    intro wiped
    exact absurd (wiped 7 (by decide)) (by decide)
  refine ⟨.performed .fresh _, .poisoned .fresh, full, poisoned, ?_, ?_⟩
  · intro wipes
    exact secret (full ▸ wipes.stored.1)
  · intro wipes
    exact secret (poisoned ▸ wipes.stored.1)

end Lithium.Secrets
