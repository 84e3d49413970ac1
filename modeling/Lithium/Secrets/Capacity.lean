import Lithium.Secrets.ArenaRuns
import Mathlib.Algebra.Order.BigOperators.Ring.Finset

/-! How much of its mapping an arena uses up. A slot is never split or joined and goes back to
the list of its length. So the bump pointer stands at the sum, over all slot lengths, of the
most slots that were in use at once, however long the arena has been in use, and that tells
exactly which claims are refused. -/
namespace Lithium.Secrets
open Keys Memory

def Arena.freeLengths (arena : Arena) : List Nat := arena.inner.slots.map Block.len

def Run.usedLengths (run : Run) : List Nat := run.regions.map Region.alignedLen

def Run.inUse (run : Run) (len : Nat) : Nat := run.usedLengths.count len

section
variable (bits : Nat)

/-- The length of the slot an action is given, if it asks for one and gets it. -/
def Run.granted (run : Run) (action : Action bits) : Option Nat :=
  action.claims.bind fun n =>
    match claim bits n run.arena with
    | .ok region _ => some region.alignedLen
    | .error _ _ => none

/-- The most slots of a length that are in use at once, a slot that an action takes and gives
back before it ends with them. -/
def Run.peak (run : Run) : List (Action bits) → Nat → Nat
  | [], len => run.inUse len
  | action :: rest, len =>
    max (run.inUse len + if run.granted bits action = some len then 1 else 0)
      ((run.perform bits action).peak rest len)

end

theorem slotsOf_erase_len {free : AList fun _ : Nat => List Nat} {len : Nat} {slot : Block}
    (member : slot ∈ slotsOf (free.erase len)) : slot.len ≠ len := by
  obtain ⟨entry, listed, offered⟩ := List.mem_flatMap.mp member
  obtain ⟨off, _, rfl⟩ := List.mem_map.mp offered
  have key : entry.1 ∈ free.erase len := List.mem_keys_of_mem listed
  exact (AList.mem_erase.mp key).1

theorem offsetsOf_eq_nil_iff {arena : Arena} {len : Nat} :
    offsetsOf arena.inner.free len = [] ↔ len ∉ arena.freeLengths := by
  have split := slotsOf_perm arena.inner.free len
  constructor
  · intro empty member
    obtain ⟨slot, listed, same⟩ := List.mem_map.mp member
    rw [empty] at split
    exact slotsOf_erase_len (split.mem_iff.mp listed) same
  · intro absent
    cases offsets : offsetsOf arena.inner.free len with
    | nil => rfl
    | cons off rest =>
      have listed : (⟨off, len⟩ : Block) ∈ arena.inner.slots := split.mem_iff.mpr (by simp [offsets])
      exact absurd (List.mem_map.mpr ⟨_, listed, rfl⟩) absent

section
variable {bits : Nat} {mapping : Mapping bits} {arena : Arena} {regions : List Region}

/-- What `claim` does to the lengths of the free slots and to the bump pointer. -/
inductive Drawn (mapping : Mapping bits) (arena : Arena) (len : Nat) :
    EStateM.Result Stop Arena Region → Prop
  | reused {region : Region} {after : Arena} (length : region.alignedLen = len)
      (popped : arena.freeLengths.Perm (len :: after.freeLengths))
      (top : after.inner.offset = arena.inner.offset) :
    Drawn mapping arena len (.ok region after)
  | bumped {region : Region} {after : Arena} (length : region.alignedLen = len)
      (absent : len ∉ arena.freeLengths) (same : after.freeLengths = arena.freeLengths)
      (room : arena.inner.offset + len ≤ mapping.size)
      (top : after.inner.offset = arena.inner.offset + len) :
    Drawn mapping arena len (.ok region after)
  | refused (stop : Stop) (absent : len ∉ arena.freeLengths)
      (full : mapping.size < arena.inner.offset + len) :
    Drawn mapping arena len (.error stop arena)

theorem alloc_eq (arena : Arena) {len : Nat} (one : 1 < 2 ^ bits) (word : len < 2 ^ bits) :
    alloc bits len arena =
      if sizeClass len < 2 ^ bits then
        match arena.inner.free.lookup (sizeClass len) with
        | some (off :: slots) => .ok (off, sizeClass len)
            { arena with
              inner := { arena.inner with free := arena.inner.free.insert (sizeClass len) slots } }
        | _ => bump bits (sizeClass len) arena
      else .error (.failed (.internal "arena_size_overflow")) arena := by
  rw [alloc, bind_ok (roundUp_align one word arena)]
  by_cases fits : sizeClass len < 2 ^ bits
  · rw [if_pos fits, if_pos fits]
    dsimp only
    rw [get_bind]
    cases arena.inner.free.lookup (sizeClass len) with
    | none => rfl
    | some slots => cases slots <;> rfl
  · rw [if_neg fits, if_neg fits]
    rfl

/-- A refusal of `alloc` is one of `claim`. -/
theorem claim_refused {len : Nat} {stop : Stop} (layout : Layout mapping arena regions)
    (allocated : alloc bits len arena = .error stop arena) :
    claim bits len arena = .error stop arena := by
  rw [claim, get_bind, if_neg (by simp [layout.unpoisoned]), bind_error allocated]

/-- Where no slot of the length is free the bump pointer decides. -/
theorem bump_eq (layout : Layout mapping arena regions) (len : Nat) :
    if arena.inner.offset + len ≤ mapping.size then
      bump bits len arena = .ok (arena.inner.offset, len)
        { arena with inner := { arena.inner with offset := arena.inner.offset + len } }
    else ∃ stop, bump bits len arena = .error stop arena := by
  have fits := mapping.fits
  have size := layout.size
  split
  · next room =>
    have word : arena.inner.offset + len < 2 ^ bits := by omega
    have within : ¬ arena.inner.offset + len > arena.inner.size := by omega
    rw [bump, get_bind, checkedAdd, if_pos word]
    dsimp only
    rw [if_neg within]
    rfl
  · next full =>
    rw [bump, get_bind, checkedAdd]
    by_cases word : arena.inner.offset + len < 2 ^ bits
    · have beyond : arena.inner.offset + len > arena.inner.size := by omega
      rw [if_pos word]
      dsimp only
      rw [if_pos beyond]
      exact ⟨_, rfl⟩
    · rw [if_neg word]
      exact ⟨_, rfl⟩

theorem claim_drawn {len : Nat} (layout : Layout mapping arena regions) (word : len < 2 ^ bits) :
    Drawn mapping arena (sizeClass len) (claim bits len arena) := by
  have allocated := alloc_eq arena mapping.one_lt word
  have fits := mapping.fits
  by_cases wide : sizeClass len < 2 ^ bits
  · rw [if_pos wide] at allocated
    by_cases absent : sizeClass len ∉ arena.freeLengths
    · have bumps : alloc bits len arena = bump bits (sizeClass len) arena := by
        have empty := offsetsOf_eq_nil_iff.mpr absent
        rw [allocated]
        cases found : arena.inner.free.lookup (sizeClass len) with
        | none => rfl
        | some slots =>
          rw [offsetsOf, found] at empty
          cases empty
          rfl
      have bumped := bump_eq layout (sizeClass len)
      split at bumped
      · next room =>
        rw [claim_of_alloc layout (bumps.trans bumped) (layout.bumped room)]
        exact .bumped rfl absent rfl room rfl
      · next full =>
        obtain ⟨stop, refused⟩ := bumped
        rw [claim_refused layout (bumps.trans refused)]
        exact .refused stop absent (Nat.lt_of_not_le full)
    · cases found : arena.inner.free.lookup (sizeClass len) with
      | none => exact absurd (offsetsOf_eq_nil_iff.mp (by rw [offsetsOf, found]; rfl)) absent
      | some slots =>
        cases slots with
        | nil => exact absurd (offsetsOf_eq_nil_iff.mp (by rw [offsetsOf, found]; rfl)) absent
        | cons off slots =>
          rw [found] at allocated
          rw [claim_of_alloc layout allocated (layout.reuse found)]
          exact .reused rfl ((slotsOf_pop found).map Block.len) rfl
  · rw [if_neg wide] at allocated
    rw [claim_refused layout allocated]
    refine .refused _ ?_ (by omega)
    exact offsetsOf_eq_nil_iff.mp (layout.offsetsOf_huge (Nat.le_of_not_lt wide))

theorem drop_freeLengths {region : Region} {after : Arena}
    (layout : Layout mapping arena (region :: regions))
    (dropped : region.drop bits arena = .ok () after) :
    after.freeLengths.Perm (region.alignedLen :: arena.freeLengths) ∧
      after.inner.offset = arena.inner.offset := by
  rw [drop_eq layout] at dropped
  cases dropped
  exact ⟨(slotsOf_push arena.inner.free region.alignedLen region.off).map Block.len, rfl⟩

/-- How a constructor that asks for `n` bytes ends, seen from its claim: it keeps the region and
writes to it, it gives the region back, or its claim was refused. -/
inductive Draws (bits : Nat) (arena : Arena) (n : Nat) : EStateM.Result Stop Arena Region → Prop
  | kept {region : Region} {drawn : Arena} (claimed : claim bits n arena = .ok region drawn)
      (memory : Contents) : Draws bits arena n (.ok region { drawn with memory })
  | released {region : Region} {drawn after : Arena} {memory : Contents} (stop : Stop)
      (claimed : claim bits n arena = .ok region drawn)
      (dropped : region.drop bits { drawn with memory } = .ok () after) :
    Draws bits arena n (.error stop after)
  | refused {stop : Stop} {after : Arena} (claimed : claim bits n arena = .error stop after) :
    Draws bits arena n (.error stop after)

theorem filled_draws {n : Nat} {bytes : Bytes} :
    Draws bits arena n ((claim bits n >>= fun region => region.copyFromSlice bytes >>= fun _ =>
      pure region) arena) := by
  cases claimed : claim bits n arena with
  | error stop after =>
    rw [bind_error claimed]
    exact .refused claimed
  | ok region drawn =>
    rw [bind_ok claimed, copyFromSlice_bind]
    exact .kept claimed _

inductive Performed (run : Run) (action : Action bits) : Run → Prop
  | drew {n : Nat} {bytes : Bytes} {result : EStateM.Result Stop Arena Region}
      (asks : action.claims = some n) (word : n < 2 ^ bits) (draws : Draws bits run.arena n result) :
    Performed run action (run.opened bytes result)
  | still {after : Run} (asks : action.claims = none) (inner : after.arena.inner = run.arena.inner)
      (live : after.live = run.live) : Performed run action after
  | gave {handle : Nat} {region : Region} {arena : Arena} {history : List Event}
      (asks : action.claims = none) (found : run.live.lookup handle = some region)
      (dropped : region.drop bits run.arena = .ok () arena) :
    Performed run action { run with arena, live := run.live.erase handle, history }

theorem randomFixed_draws {n : Nat} (holds : Holds mapping arena regions) (word : n < 2 ^ bits)
    (filled : Fixed n) (failed : Bool) :
    Draws bits arena n (randomFixed bits n filled failed arena) := by
  cases claimed : claim bits n arena with
  | error stop after =>
    rw [randomFixed, bind_error claimed]
    exact .refused claimed
  | ok region drawn =>
    rw [randomFixed, bind_ok claimed, copyFromSlice_bind]
    cases failed with
    | false => exact .kept claimed _
    | true =>
      have outcome := claim_filled holds word filled.2
      rw [bind_ok claimed, copyFromSlice_bind] at outcome
      rw [if_pos rfl]
      cases outcome with
      | made ready _ _ _ =>
        obtain ⟨after, ends, _⟩ := ready.dropped
        rw [bind_ok ends]
        exact .released _ claimed ends

theorem perform_cases {run : Run} (sound : Sound mapping run) (action : Action bits) :
    Performed run action (run.perform bits action) := by
  cases action with
  | claim len =>
    refine .drew (n := len) rfl len.2 ?_
    cases claimed : claim bits len run.arena with
    | ok region drawn => exact .kept claimed drawn.memory
    | error stop after => exact .refused claimed
  | randomFixed n filled failed =>
    exact .drew (n := n) rfl n.2 (randomFixed_draws sound.holds n.2 filled failed)
  | storeFixed n secret => exact .drew (n := n) rfl n.2 filled_draws
  | storeSliceFixed n slice =>
    by_cases length : slice.length = n
    · refine .drew (n := n) (if_pos length) n.2 ?_
      rw [storeSliceFixed, if_neg (not_not.mpr length)]
      exact filled_draws
    · rw [Run.perform, storeSliceFixed, if_pos length]
      exact .still (if_neg length) rfl rfl
  | storeFixedWiped n src =>
    by_cases length : src.length = n
    · refine .drew (n := n) (if_pos length) n.2 ?_
      rw [storeFixedWiped, if_neg (not_not.mpr length)]
      cases claimed : claim bits n run.arena with
      | ok region drawn => exact .kept claimed _
      | error stop after => exact .refused claimed
    · rw [Run.perform, storeFixedWiped, if_pos length]
      exact .still (if_neg length) rfl rfl
  | write handle bytes =>
    rw [Run.perform]
    split
    · exact .still rfl rfl rfl
    · split <;> exact .still rfl rfl rfl
  | drop handle =>
    cases found : run.live.lookup handle with
    | none =>
      rw [Run.perform, found]
      exact .still rfl rfl rfl
    | some region =>
      obtain ⟨after, ends, _⟩ := (sound.holds.perm (regions_perm found)).dropped
      rw [perform_drop found ends]
      exact .gave rfl found ends

/-- Every slot of a length was in use when the most of them were, and the bump pointer is the
length of all slots together. -/
structure Counted (run : Run) (peak : Nat → Nat) : Prop where
  counts : ∀ len, run.usedLengths.count len + run.arena.freeLengths.count len = peak len
  top : run.arena.inner.offset = run.usedLengths.sum + run.arena.freeLengths.sum

theorem usedLengths_insert {run : Run} {region : Region} (sound : Sound mapping run)
    {arena : Arena} {history : List Event} {next : Nat} :
    ({ arena, live := run.live.insert run.next region, next, history } : Run).usedLengths =
      region.alignedLen :: run.usedLengths := by
  have new : run.next ∉ run.live := fun old => Nat.lt_irrefl _ (sound.numbered _ old)
  rw [Run.usedLengths, Run.regions, AList.entries_insert_of_notMem new]
  rfl

theorem usedLengths_erase {run : Run} {handle : Nat} {region : Region} {arena : Arena}
    {history : List Event} (found : run.live.lookup handle = some region) :
    run.usedLengths.Perm (region.alignedLen ::
      ({ run with arena, live := run.live.erase handle, history } : Run).usedLengths) :=
  (regions_perm found).map Region.alignedLen

theorem granted_of_ok {run : Run} {action : Action bits} {n : Nat} {region : Region} {after : Arena}
    (asks : action.claims = some n) (claimed : claim bits n run.arena = .ok region after) :
    run.granted bits action = some region.alignedLen := by
  rw [Run.granted, asks]
  simp only [Option.bind_some, claimed]

theorem granted_of_error {run : Run} {action : Action bits} {n : Nat} {stop : Stop} {after : Arena}
    (asks : action.claims = some n) (claimed : claim bits n run.arena = .error stop after) :
    run.granted bits action = none := by
  rw [Run.granted, asks]
  simp only [Option.bind_some, claimed]

/-- The peaks once an action has been given a slot, if it has. -/
def raised (run : Run) (peak : Nat → Nat) (slot : Option Nat) (len : Nat) : Nat :=
  max (peak len) (run.inUse len + if slot = some len then 1 else 0)

theorem Counted.draw {run : Run} {peak : Nat → Nat} {len : Nat} {region : Region} {drawn : Arena}
    (counted : Counted run peak) (outcome : Drawn mapping run.arena len (.ok region drawn)) :
    (∀ c, (region.alignedLen :: run.usedLengths).count c + drawn.freeLengths.count c =
        raised run peak (some region.alignedLen) c) ∧
      drawn.inner.offset = (region.alignedLen :: run.usedLengths).sum + drawn.freeLengths.sum := by
  have top := counted.top
  cases outcome with
  | reused length popped same =>
    subst length
    refine ⟨fun c => ?_, ?_⟩
    · have before := counted.counts c
      rw [popped.count_eq, List.count_cons] at before
      simp only [raised, Run.inUse, List.count_cons, Option.some.injEq, beq_iff_eq] at before ⊢
      by_cases here : region.alignedLen = c
      · simp only [here, if_true] at before ⊢
        omega
      · simp only [here, if_false] at before ⊢
        omega
    · rw [popped.sum_eq, List.sum_cons] at top
      rw [same, List.sum_cons]
      omega
  | bumped length absent same room top' =>
    subst length
    refine ⟨fun c => ?_, ?_⟩
    · have before := counted.counts c
      rw [same]
      simp only [raised, Run.inUse, List.count_cons, Option.some.injEq, beq_iff_eq]
      split
      · next here =>
        subst here
        rw [List.count_eq_zero.mpr absent] at before ⊢
        omega
      · omega
    · rw [same, top', List.sum_cons]
      omega

theorem Counted.perform {run : Run} {peak : Nat → Nat} (sound : Sound mapping run)
    (counted : Counted run peak) (action : Action bits) :
    Counted (run.perform bits action) (raised run peak (run.granted bits action)) := by
  have unraised : ∀ c, peak c = raised run peak none c := fun c => by
    have := counted.counts c
    simp only [raised, Run.inUse, reduceCtorEq, if_false]
    omega
  have performed := perform_cases sound action
  generalize run.perform bits action = after at performed
  cases performed with
  | @drew n bytes result asks word draws =>
    have outcome := claim_drawn sound.holds.layout word
    have placed := claim_cases sound.holds.layout word
    cases draws with
    | @kept region drawn claimed memory =>
      rw [claimed] at outcome
      obtain ⟨counts, top⟩ := counted.draw outcome
      rw [granted_of_ok asks claimed]
      constructor
      · intro c
        rw [Run.opened, usedLengths_insert sound]
        exact counts c
      · rw [Run.opened, usedLengths_insert sound]
        exact top
    | @released region drawn freed memory stop claimed dropped =>
      rw [claimed] at outcome placed
      obtain ⟨counts, top⟩ := counted.draw outcome
      rw [granted_of_ok asks claimed]
      have layout : Layout mapping drawn (region :: run.regions) := by
        cases placed with
        | made _ layout _ => exact layout
      obtain ⟨pushed, same⟩ := drop_freeLengths (layout.memory memory) dropped
      have pushed : freed.freeLengths.Perm (region.alignedLen :: drawn.freeLengths) := pushed
      have same : freed.inner.offset = drawn.inner.offset := same
      have count : ∀ c, run.usedLengths.count c + freed.freeLengths.count c =
          raised run peak (some region.alignedLen) c := by
        intro c
        rw [← counts c, pushed.count_eq, List.count_cons, List.count_cons]
        omega
      have sum : freed.inner.offset = run.usedLengths.sum + freed.freeLengths.sum := by
        rw [same, top, pushed.sum_eq, List.sum_cons, List.sum_cons]
        omega
      exact ⟨count, sum⟩
    | @refused stop after claimed =>
      rw [claimed] at outcome
      rw [granted_of_error asks claimed]
      cases outcome with
      | refused _ absent full =>
        exact ⟨fun c => (counted.counts c).trans (unraised c), counted.top⟩
  | still asks inner live =>
    have granted : run.granted bits action = none := by rw [Run.granted, asks]; rfl
    have used : after.usedLengths = run.usedLengths := by
      rw [Run.usedLengths, Run.regions, live]
      rfl
    have free : after.arena.freeLengths = run.arena.freeLengths := by
      rw [Arena.freeLengths, inner]
      rfl
    rw [granted]
    refine ⟨fun c => ?_, ?_⟩
    · rw [used, free, counted.counts, unraised]
    · rw [used, free, inner, counted.top]
  | @gave handle region arena history asks found dropped =>
    have granted : run.granted bits action = none := by rw [Run.granted, asks]; rfl
    have layout := (sound.holds.perm (regions_perm found)).layout
    obtain ⟨pushed, same⟩ := drop_freeLengths layout dropped
    have used : run.usedLengths.Perm (region.alignedLen ::
      ({ run with arena, live := run.live.erase handle, history } : Run).usedLengths) :=
      usedLengths_erase found
    have top := counted.top
    rw [granted]
    refine ⟨fun c => ?_, ?_⟩
    · have before := counted.counts c
      rw [used.count_eq, List.count_cons] at before
      rw [pushed.count_eq, List.count_cons, ← unraised, ← before]
      omega
    · rw [used.sum_eq, List.sum_cons] at top
      rw [same, pushed.sum_eq, List.sum_cons, top]
      omega

theorem Counted.performAll {run : Run} {peak : Nat → Nat} (sound : Sound mapping run)
    (counted : Counted run peak) (actions : List (Action bits)) :
    Counted (run.performAll bits actions) fun len => max (peak len) (run.peak bits actions len) := by
  induction actions generalizing run peak with
  | nil =>
    refine ⟨fun len => ?_, counted.top⟩
    have count := counted.counts len
    show run.usedLengths.count len + run.arena.freeLengths.count len = max (peak len) (run.usedLengths.count len)
    omega
  | cons action rest ih =>
    obtain ⟨counts, top⟩ := ih (sound.perform action) (counted.perform sound action)
    refine ⟨fun len => ?_, top⟩
    rw [Run.performAll, List.foldl_cons, ← Run.performAll, counts, raised, max_assoc]
    rfl

end

section
variable {bits : Nat} {mapping : Mapping bits} {arena : Arena} {regions : List Region} {len : Nat}

/-- An arena whose slots, in use or free, all have one length. -/
structure Even (mapping : Mapping bits) (len : Nat) (arena : Arena) (regions : List Region) :
    Prop where
  layout : Layout mapping arena regions
  used : ∀ region ∈ regions, region.alignedLen = len
  free : ∀ slot ∈ arena.freeLengths, slot = len
  top : arena.inner.offset = len * (regions.length + arena.freeLengths.length)

namespace Even

theorem fresh (mapping : Mapping bits) (len : Nat) : Even mapping len mapping.arena [] where
  layout := .fresh mapping
  used := by simp
  free := by rintro _ ⟨⟩
  top := rfl

theorem perm {reordered : List Region} (even : Even mapping len arena regions)
    (same : regions.Perm reordered) : Even mapping len arena reordered where
  layout := even.layout.perm same
  used := fun region member => even.used region (same.mem_iff.mpr member)
  free := even.free
  top := by rw [even.top, same.length_eq]

/-- No slot is wasted: a claim is refused only where the regions in use leave no room. -/
theorem claim (even : Even mapping (sizeClass len) arena regions) (word : len < 2 ^ bits)
    (room : sizeClass len * (regions.length + 1) ≤ mapping.size) :
    ∃ region after, Secrets.claim bits len arena = .ok region after ∧
      Even mapping (sizeClass len) after (region :: regions) := by
  have placed := claim_cases even.layout word
  have drawn := claim_drawn even.layout word
  have top := even.top
  generalize Secrets.claim bits len arena = result at placed drawn
  cases placed with
  | @made region inner _ layout _ =>
    cases drawn with
    | reused length popped same =>
      refine ⟨region, _, rfl, layout, List.forall_mem_cons.mpr ⟨length, even.used⟩, ?_, ?_⟩
      · exact fun slot member => even.free slot (popped.mem_iff.mpr (List.mem_cons_of_mem _ member))
      · rw [same, top, popped.length_eq, List.length_cons, List.length_cons]
        congr 1
        omega
    | bumped length absent kept _ raised =>
      refine ⟨region, _, rfl, layout, List.forall_mem_cons.mpr ⟨length, even.used⟩, ?_, ?_⟩
      · exact fun slot member => even.free slot (kept ▸ member)
      · rw [raised, top, kept, List.length_cons, ← Nat.mul_succ]
        congr 1
        omega
  | refused error _ =>
    cases drawn with
    | refused _ absent full =>
      have none : arena.freeLengths = [] :=
        List.eq_nil_iff_forall_not_mem.mpr fun slot member => absent (even.free slot member ▸ member)
      rw [none] at top
      rw [top, List.length_nil, Nat.add_zero, ← Nat.mul_succ] at full
      exact absurd room (Nat.not_le_of_lt full)

theorem drop {region : Region} (even : Even mapping len arena (region :: regions)) :
    ∃ after, region.drop bits arena = .ok () after ∧ Even mapping len after regions := by
  have dropped := drop_eq even.layout
  obtain ⟨pushed, same⟩ := drop_freeLengths even.layout dropped
  refine ⟨_, dropped, even.layout.freed.memory _, ?_, ?_, ?_⟩
  · exact fun other member => even.used other (List.mem_cons_of_mem _ member)
  · intro slot member
    obtain rfl | listed := List.mem_cons.mp (pushed.mem_iff.mp member)
    · exact even.used region List.mem_cons_self
    · exact even.free slot listed
  · rw [same, even.top, pushed.length_eq, List.length_cons, List.length_cons]
    congr 1
    omega

end Even
end

section
variable {bits : Nat}

/-- After any run of claims and drops the bump pointer stands at the sum of the most slots of each
length that were ever in use at once. A claim succeeds exactly if fewer slots of its length are in
use than there once were, or if there is room for one more behind all of them. -/
theorem arena_capacity (mapping : Mapping bits) (actions : List (Action bits)) :
    (mapping.after actions).arena.inner.offset =
        ∑ len ∈ Finset.range (mapping.size + 1), len * mapping.fresh.peak bits actions len ∧
      ∀ len : Fin (2 ^ bits),
        (∃ region arena, claim bits len (mapping.after actions).arena = .ok region arena) ↔
          (mapping.after actions).inUse (sizeClass len) <
              mapping.fresh.peak bits actions (sizeClass len) ∨
            ∑ c ∈ Finset.range (mapping.size + 1), c * mapping.fresh.peak bits actions c +
              sizeClass len ≤ mapping.size := by
  have sound := mapping.sound_after actions
  have layout := sound.holds.layout
  have empty : Counted mapping.fresh fun _ => 0 := ⟨fun _ => rfl, rfl⟩
  have counted : Counted (mapping.after actions) fun len =>
    max 0 (mapping.fresh.peak bits actions len) := empty.performAll (Sound.fresh mapping) actions
  obtain ⟨counts, top⟩ := counted
  simp only [Nat.zero_max] at counts
  have whole : (mapping.after actions).arena.inner.offset =
      ∑ len ∈ Finset.range (mapping.size + 1), len * mapping.fresh.peak bits actions len := by
    have sum : (mapping.after actions).arena.inner.offset =
        ((mapping.after actions).usedLengths ++ (mapping.after actions).arena.freeLengths).sum := by
      rw [List.sum_append]
      exact top
    have within : ((mapping.after actions).usedLengths ++
        (mapping.after actions).arena.freeLengths).toFinset ⊆ Finset.range (mapping.size + 1) := by
      intro len member
      have small := List.single_le_sum (fun _ _ => Nat.zero_le _) _ (List.mem_toFinset.mp member)
      rw [← sum] at small
      exact Finset.mem_range.mpr (Nat.lt_succ_of_le (small.trans layout.top_le))
    rw [sum, Finset.sum_list_count_of_subset _ _ within]
    refine Finset.sum_congr rfl fun len _ => ?_
    rw [List.count_append, Nat.nsmul_eq_mul, Nat.mul_comm]
    exact congrArg (len * ·) (counts len)
  refine ⟨whole, fun len => ?_⟩
  have outcome := claim_drawn layout len.2
  have count := counts (sizeClass len)
  rw [← whole]
  generalize claim bits len (mapping.after actions).arena = result at outcome
  cases outcome with
  | reused length popped same =>
    have free : 0 < (mapping.after actions).arena.freeLengths.count (sizeClass len) :=
      List.count_pos_iff.mpr (popped.mem_iff.mpr List.mem_cons_self)
    have fewer : (mapping.after actions).inUse (sizeClass len) <
        mapping.fresh.peak bits actions (sizeClass len) :=
      Nat.lt_of_lt_of_eq (Nat.lt_add_of_pos_right free) count
    exact iff_of_true ⟨_, _, rfl⟩ (.inl fewer)
  | bumped length absent same room top => exact iff_of_true ⟨_, _, rfl⟩ (.inr room)
  | refused stop absent full =>
    refine iff_of_false (by rintro ⟨_, _, impossible⟩; cases impossible) ?_
    have all : (mapping.after actions).inUse (sizeClass len) =
        mapping.fresh.peak bits actions (sizeClass len) := by
      rw [← count, List.count_eq_zero.mpr absent]
      rfl
    omega

end
end Lithium.Secrets
