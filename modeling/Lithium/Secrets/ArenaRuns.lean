import Lithium.Secrets.ArenaProofs

/-! Whole runs of the arena. Handles behave as independent byte arrays: the layout and
the contents are kept by every action, and a live handle reads back what the last event
on it left there. -/
namespace Lithium.Secrets
open Keys Memory

def Event.handle : Event → Nat
  | .put handle _ => handle
  | .dropped handle => handle

/-- What an event leaves in the handle it is about. -/
def Event.left : Event → Option Bytes
  | .put _ bytes => some bytes
  | .dropped _ => none

/-- What a handle holds if every handle is a byte array of its own: whatever the last
event on it left. The latest event comes first. -/
def contents (history : List Event) (handle : Nat) : Option Bytes :=
  (history.find? fun event => event.handle = handle).bind Event.left

theorem contents_cons (event : Event) (history : List Event) (handle : Nat) :
    contents (event :: history) handle =
      if event.handle = handle then event.left else contents history handle := by
  rw [contents, List.find?_cons]
  by_cases same : event.handle = handle
  · simp [same]
  · simp [same, contents]

section
variable {bits : Nat} {mapping : Mapping bits} {arena : Arena} {regions : List Region}

/-- A slot of this length is free. -/
def Stocked (arena : Arena) (len : Nat) : Prop := offsetsOf arena.inner.free len ≠ []

/-- How a constructor of a handle of length `n` can end: with a region that holds `bytes`,
or with an error. Either way the other handles read as before, and the free lists of other
lengths keep a slot if they had one. -/
inductive Opened (mapping : Mapping bits) (arena : Arena) (regions : List Region) (n : Nat)
    (bytes : Bytes) : EStateM.Result Stop Arena Region → Prop
  | made {region : Region} {after : Arena} (holds : Holds mapping after (region :: regions))
      (stored : region.asSlice after = bytes)
      (same : ∀ other ∈ regions, other.asSlice after = other.asSlice arena)
      (stock : ∀ len, len ≠ sizeClass n → Stocked arena len → Stocked after len) :
    Opened mapping arena regions n bytes (.ok region after)
  | refused {after : Arena} (error : LithiumError) (holds : Holds mapping after regions)
      (same : ∀ other ∈ regions, other.asSlice after = other.asSlice arena)
      (stock : ∀ len, len ≠ sizeClass n → Stocked arena len → Stocked after len) :
    Opened mapping arena regions n bytes (.error (.failed error) after)

theorem claim_opened {n : Nat} (holds : Holds mapping arena regions) (word : n < 2 ^ bits) :
    Opened mapping arena regions n (List.replicate n 0) (claim bits n arena) := by
  have outcome := claim_cases holds.layout word
  generalize claim bits n arena = result at outcome
  cases outcome with
  | made length layout others =>
    refine .made ⟨layout, fun x inside outside => ?_⟩ ?_ (fun _ _ => rfl) ?_
    · exact holds.clean x inside fun region member => outside region (.tail _ member)
    · rw [holds.claimed layout, length]
    · intro len different stocked
      rw [Stocked, others len different]
      exact stocked
  | refused error empty => exact .refused error holds (fun _ _ => rfl) fun _ _ stocked => stocked

theorem copyFromSlice_bind {β : Type} {region : Region} {bytes : Bytes} {next : Unit → ArenaM β} :
    (region.copyFromSlice bytes >>= next) arena =
      next () { arena with memory := arena.memory.write region.ptr bytes } := rfl

/-- A claimed region filled with `bytes`. -/
theorem claim_filled {n : Nat} {bytes : Bytes} (holds : Holds mapping arena regions)
    (word : n < 2 ^ bits) (length : bytes.length = n) :
    Opened mapping arena regions n bytes
      ((claim bits n >>= fun region => region.copyFromSlice bytes >>= fun _ => pure region)
        arena) := by
  have outcome := claim_opened holds word
  have lengths := claim_cases holds.layout word
  generalize claimed : claim bits n arena = result at outcome lengths
  cases outcome with
  | @made region after filled _ same stock =>
    have fits : bytes.length = region.len := by
      cases lengths with
      | made exact_len _ _ => rw [length, exact_len]
    rw [bind_ok claimed, copyFromSlice_bind]
    refine .made (filled.written fits) ?_ ?_ stock
    · rw [Region.asSlice, Region.block, ← fits]
      exact Contents.read_write _ _ _
    · intro other member
      rw [filled.written_others fits other member, same other member]
  | refused error holds same stock =>
    rw [bind_error claimed]
    exact .refused error holds same stock

/-- `random_fixed`: on a failure of the generator the claimed region is dropped again. -/
theorem randomFixed_opened {n : Nat} (holds : Holds mapping arena regions) (word : n < 2 ^ bits)
    (filled : Fixed n) (failed : Bool) :
    Opened mapping arena regions n filled.1 (randomFixed bits n filled failed arena) := by
  have outcome := claim_filled holds word filled.2
  cases claimed : claim bits n arena with
  | error stop after =>
    rw [bind_error claimed] at outcome
    rw [randomFixed, bind_error claimed]
    exact outcome
  | ok region after =>
    rw [bind_ok claimed, copyFromSlice_bind] at outcome
    rw [randomFixed, bind_ok claimed, copyFromSlice_bind]
    cases failed with
    | false => exact outcome
    | true =>
      rw [if_pos rfl]
      cases outcome with
      | made ready _ same stock =>
        obtain ⟨dropped, ends, holds, kept, lists⟩ := ready.dropped
        rw [bind_ok ends]
        refine .refused _ holds (fun other member => ?_) fun len different stocked => ?_
        · rw [kept other member, same other member]
        · rw [Stocked, lists len]
          split
          · simp
          · exact stock len different stocked

theorem storeSliceFixed_opened {n : Nat} (holds : Holds mapping arena regions)
    (word : n < 2 ^ bits) (slice : Bytes) :
    Opened mapping arena regions n slice (storeSliceFixed bits n slice arena) := by
  rw [storeSliceFixed]
  split
  · exact .refused _ holds (fun _ _ => rfl) fun _ _ stocked => stocked
  · rename_i length
    exact claim_filled holds word (Decidable.not_not.mp length)

theorem storeFixedWiped_opened {n : Nat} (holds : Holds mapping arena regions)
    (word : n < 2 ^ bits) (src : Bytes) :
    Opened mapping arena regions n src (storeFixedWiped bits n src arena).1 := by
  rw [storeFixedWiped]
  split
  · exact .refused _ holds (fun _ _ => rfl) fun _ _ stocked => stocked
  · rename_i length
    have outcome := claim_filled holds word (Decidable.not_not.mp length)
    cases claimed : claim bits n arena with
    | error stop after =>
      rw [bind_error claimed] at outcome
      exact outcome
    | ok region after =>
      rw [bind_ok claimed] at outcome
      exact outcome

/-- What every run keeps: the arena's layout and contents, handles numbered in order, and
each handle, live or not, as its own byte array would have it. -/
structure Sound (mapping : Mapping bits) (run : Run) : Prop where
  holds : Holds mapping run.arena run.regions
  numbered : ∀ handle ∈ run.live, handle < run.next
  recorded : ∀ event ∈ run.history, event.handle < run.next
  reads : ∀ handle,
    (run.live.lookup handle).map (·.asSlice run.arena) = contents run.history handle

theorem Sound.fresh (mapping : Mapping bits) : Sound mapping mapping.fresh where
  holds := .fresh mapping
  numbered := by simp [Mapping.fresh]
  recorded := by simp [Mapping.fresh]
  reads := by simp [Mapping.fresh, contents]

theorem mem_regions {run : Run} {handle : Nat} {region : Region}
    (found : run.live.lookup handle = some region) : region ∈ run.regions :=
  List.mem_map.mpr ⟨⟨handle, region⟩, AList.mem_lookup_iff.mp found, rfl⟩

theorem Sound.made {run : Run} {handle : Nat} {region : Region} (sound : Sound mapping run)
    (found : run.live.lookup handle = some region) : handle < run.next :=
  sound.numbered handle (AList.lookup_isSome.mp (by simp [found]))

theorem regions_perm {run : Run} {handle : Nat} {region : Region}
    (found : run.live.lookup handle = some region) :
    run.regions.Perm (region :: (run.live.erase handle).entries.map (·.2)) :=
  (entries_perm_of_lookup found).map _

theorem lookup_erased {run : Run} {handle other : Nat} {region : Region}
    (found : (run.live.erase handle).lookup other = some region) :
    region ∈ (run.live.erase handle).entries.map (·.2) :=
  List.mem_map.mpr ⟨⟨other, region⟩, AList.mem_lookup_iff.mp found, rfl⟩

theorem Sound.opened {run : Run} {n : Nat} {bytes : Bytes}
    {result : EStateM.Result Stop Arena Region} (sound : Sound mapping run)
    (outcome : Opened mapping run.arena run.regions n bytes result) :
    Sound mapping (run.opened bytes result) := by
  cases outcome with
  | @made region after holds stored same stock =>
    have new : run.next ∉ run.live := fun old => Nat.lt_irrefl _ (sound.numbered _ old)
    refine ⟨?_, ?_, ?_, ?_⟩
    · rw [Run.opened, Run.regions, AList.entries_insert_of_notMem new]
      exact holds
    · intro handle member
      cases AList.mem_insert _ |>.mp member with
      | inl latest => exact latest ▸ Nat.lt_succ_self _
      | inr old => exact Nat.lt_succ_of_lt (sound.numbered handle old)
    · refine List.forall_mem_cons.mpr ⟨Nat.lt_succ_self _, fun event member => ?_⟩
      exact Nat.lt_succ_of_lt (sound.recorded event member)
    · intro handle
      rw [Run.opened, contents_cons, Event.handle, Event.left, ← sound.reads handle]
      by_cases latest : run.next = handle
      · subst latest
        simp [stored]
      · rw [if_neg latest, AList.lookup_insert_ne (Ne.symm latest)]
        cases found : run.live.lookup handle with
        | none => rfl
        | some region => rw [Option.map_some, Option.map_some, same region (mem_regions found)]
  | @refused after error holds same stock =>
    refine ⟨holds, sound.numbered, sound.recorded, fun handle => ?_⟩
    rw [Run.opened, ← sound.reads handle]
    cases found : run.live.lookup handle with
    | none => rfl
    | some region => rw [Option.map_some, Option.map_some, same region (mem_regions found)]

theorem perform_write {run : Run} {handle : Nat} {bytes : Bytes} {region : Region}
    (found : run.live.lookup handle = some region) (length : bytes.length = region.len) :
    run.perform bits (.write handle bytes) =
      { run with
        arena := { run.arena with memory := run.arena.memory.write region.ptr bytes }
        history := .put handle bytes :: run.history } := by
  rw [Run.perform, found]
  exact if_pos length

theorem perform_drop {run : Run} {handle : Nat} {region : Region} {after : Arena}
    (found : run.live.lookup handle = some region)
    (ends : region.drop bits run.arena = .ok () after) :
    run.perform bits (.drop handle) =
      { run with arena := after, live := run.live.erase handle,
                 history := .dropped handle :: run.history } := by
  rw [Run.perform, found]
  dsimp only
  rw [ends]

/-- Reading every handle but one is not affected by what happens to that one. -/
theorem reads_others {run : Run} {handle other : Nat} {after : Arena} (different : handle ≠ other)
    (same : ∀ region ∈ (run.live.erase handle).entries.map (·.2),
      region.asSlice after = region.asSlice run.arena) :
    (run.live.lookup other).map (·.asSlice after) =
      (run.live.lookup other).map (·.asSlice run.arena) := by
  rw [← AList.lookup_erase_ne (Ne.symm different)]
  cases held : (run.live.erase handle).lookup other with
  | none => rfl
  | some region => exact congrArg some (same region (lookup_erased held))

theorem Sound.write {run : Run} (sound : Sound mapping run) (handle : Nat) (bytes : Bytes) :
    Sound mapping (run.perform bits (.write handle bytes)) := by
  cases found : run.live.lookup handle with
  | none =>
    rw [Run.perform, found]
    exact sound
  | some region =>
    by_cases length : bytes.length = region.len
    · have aside := sound.holds.perm (regions_perm found)
      rw [perform_write found length]
      refine ⟨(aside.written length).perm (regions_perm found).symm, sound.numbered,
        List.forall_mem_cons.mpr ⟨sound.made found, sound.recorded⟩, ?_⟩
      intro other
      rw [contents_cons, Event.handle, Event.left, ← sound.reads other]
      split
      · rename_i same
        rw [← same, found, Option.map_some, Region.asSlice, Region.block, ← length]
        exact congrArg some (Contents.read_write _ _ _)
      · rename_i different
        exact reads_others different (aside.written_others length)
    · rw [Run.perform, found]
      dsimp only
      rw [if_neg length]
      exact sound

theorem Sound.drop {run : Run} (sound : Sound mapping run) (handle : Nat) :
    Sound mapping (run.perform bits (.drop handle)) := by
  cases found : run.live.lookup handle with
  | none =>
    rw [Run.perform, found]
    exact sound
  | some region =>
    obtain ⟨after, ends, holds, kept, -⟩ := (sound.holds.perm (regions_perm found)).dropped
    rw [perform_drop found ends]
    refine ⟨holds, fun other member => sound.numbered other (AList.mem_erase.mp member).2,
      List.forall_mem_cons.mpr ⟨sound.made found, sound.recorded⟩, ?_⟩
    intro other
    rw [contents_cons, Event.handle, Event.left, ← sound.reads other]
    split
    · rename_i same
      rw [← same, AList.lookup_erase, Option.map_none]
    · rename_i different
      rw [AList.lookup_erase_ne (Ne.symm different)]
      exact reads_others different kept

theorem Sound.perform {run : Run} (sound : Sound mapping run) (action : Action bits) :
    Sound mapping (run.perform bits action) := by
  cases action with
  | claim len => exact sound.opened (claim_opened sound.holds len.2)
  | randomFixed n filled failed =>
    exact sound.opened (randomFixed_opened sound.holds n.2 filled failed)
  | storeFixed n secret => exact sound.opened (claim_filled sound.holds n.2 secret.2)
  | storeSliceFixed n slice => exact sound.opened (storeSliceFixed_opened sound.holds n.2 slice)
  | storeFixedWiped n src => exact sound.opened (storeFixedWiped_opened sound.holds n.2 src)
  | write handle bytes => exact sound.write handle bytes
  | drop handle => exact sound.drop handle

theorem Sound.performAll {run : Run} (sound : Sound mapping run) (actions : List (Action bits)) :
    Sound mapping (run.performAll bits actions) := by
  induction actions generalizing run with
  | nil => exact sound
  | cons action actions ih => exact ih (sound.perform action)

theorem perform_history (run : Run) (action : Action bits) :
    ∃ events, (run.perform bits action).history = events ++ run.history := by
  have opened : ∀ bytes result, ∃ events, (run.opened bytes result).history =
      events ++ run.history := by
    intro bytes result
    cases result with
    | ok region after => exact ⟨[_], rfl⟩
    | error stop after => exact ⟨[], rfl⟩
  cases action with
  | write handle bytes =>
    rw [Run.perform]
    split
    · exact ⟨[], rfl⟩
    · split
      · exact ⟨[_], rfl⟩
      · exact ⟨[], rfl⟩
  | drop handle =>
    rw [Run.perform]
    split
    · exact ⟨[], rfl⟩
    · split <;> exact ⟨[_], rfl⟩
  | _ => exact opened _ _

theorem performAll_history (run : Run) (actions : List (Action bits)) :
    ∃ events, (run.performAll bits actions).history = events ++ run.history := by
  induction actions generalizing run with
  | nil => exact ⟨[], rfl⟩
  | cons action actions ih =>
    obtain ⟨first, step⟩ := perform_history run action
    obtain ⟨events, rest⟩ := ih (run.perform bits action)
    exact ⟨events ++ first, by rw [List.append_assoc, ← step]; exact rest⟩

/-- The length an action hands to `claim`, if it gets that far. -/
def Action.claims : Action bits → Option Nat
  | .claim len => some len
  | .randomFixed n _ _ | .storeFixed n _ => some n
  | .storeSliceFixed n bytes | .storeFixedWiped n bytes =>
    if bytes.length = n then some n else none
  | .write _ _ | .drop _ => none

theorem Opened.stocked {run : Run} {n len : Nat} {bytes : Bytes}
    {result : EStateM.Result Stop Arena Region}
    (outcome : Opened mapping run.arena run.regions n bytes result)
    (other : len ≠ sizeClass n) (stocked : Stocked run.arena len) :
    Stocked (run.opened bytes result).arena len := by
  cases outcome with
  | made _ _ _ stock => exact stock len other stocked
  | refused _ _ _ stock => exact stock len other stocked

/-- A free slot stays free until a claim of its length. -/
theorem Sound.stocked {run : Run} {len : Nat} (sound : Sound mapping run) (action : Action bits)
    (others : ∀ n, action.claims = some n → sizeClass n ≠ len)
    (stocked : Stocked run.arena len) : Stocked (run.perform bits action).arena len := by
  cases action with
  | claim n => exact (claim_opened sound.holds n.2).stocked (others n rfl).symm stocked
  | randomFixed n filled failed =>
    exact (randomFixed_opened sound.holds n.2 filled failed).stocked (others n rfl).symm stocked
  | storeFixed n secret =>
    exact (claim_filled sound.holds n.2 secret.2).stocked (others n rfl).symm stocked
  | storeSliceFixed n slice =>
    by_cases length : slice.length = n
    · exact (storeSliceFixed_opened sound.holds n.2 slice).stocked
        (others n (if_pos length)).symm stocked
    · rw [Run.perform, storeSliceFixed, if_pos length]
      exact stocked
  | storeFixedWiped n src =>
    by_cases length : src.length = n
    · exact (storeFixedWiped_opened sound.holds n.2 src).stocked
        (others n (if_pos length)).symm stocked
    · rw [Run.perform, storeFixedWiped, if_pos length]
      exact stocked
  | write handle bytes =>
    rw [Run.perform]
    split
    · exact stocked
    · split <;> exact stocked
  | drop handle =>
    cases found : run.live.lookup handle with
    | none =>
      rw [Run.perform, found]
      exact stocked
    | some region =>
      obtain ⟨after, ends, -, -, lists⟩ := (sound.holds.perm (regions_perm found)).dropped
      rw [perform_drop found ends, Stocked, lists len]
      split
      · simp
      · exact stocked

theorem Sound.stocked_all {run : Run} {len : Nat} (sound : Sound mapping run)
    {actions : List (Action bits)}
    (others : ∀ action ∈ actions, ∀ n, action.claims = some n → sizeClass n ≠ len)
    (stocked : Stocked run.arena len) : Stocked (run.performAll bits actions).arena len := by
  induction actions generalizing run with
  | nil => exact stocked
  | cons action actions ih =>
    exact ih (sound.perform action) (fun later member => others later (.tail _ member))
      (sound.stocked action (others action (.head _)) stocked)

/-- A freed slot serves the next claim of its length. -/
theorem Sound.claims {run : Run} (sound : Sound mapping run) {len : Nat} (word : len < 2 ^ bits)
    (stocked : Stocked run.arena (sizeClass len)) :
    ∃ region after, claim bits len run.arena = .ok region after := by
  have outcome := claim_cases sound.holds.layout word
  generalize claim bits len run.arena = result at outcome
  cases outcome with
  | made _ _ _ => exact ⟨_, _, rfl⟩
  | refused error empty => exact absurd empty stocked

theorem Sound.drop_stocks {run : Run} (sound : Sound mapping run) {handle : Nat} {region : Region}
    (found : run.live.lookup handle = some region) :
    Stocked (run.perform bits (.drop handle)).arena region.alignedLen := by
  obtain ⟨after, ends, -, -, lists⟩ := (sound.holds.perm (regions_perm found)).dropped
  rw [perform_drop found ends, Stocked, lists, if_pos rfl]
  simp

def Mapping.after (mapping : Mapping bits) (actions : List (Action bits)) : Run :=
  mapping.fresh.performAll bits actions

theorem Mapping.sound_after (mapping : Mapping bits) (actions : List (Action bits)) :
    Sound mapping (mapping.after actions) := (Sound.fresh mapping).performAll actions

/-- In every run the live regions and the free slots tile the mapping up to the bump
pointer, no arithmetic overflows, a failed claim changes nothing, and a claim whose slot
length was freed since the last claim of that length succeeds. -/
theorem arena_invariant (mapping : Mapping bits) (actions : List (Action bits)) :
    Layout mapping (mapping.after actions).arena (mapping.after actions).regions ∧
    (∀ region ∈ (mapping.after actions).regions,
      region.off + region.alignedLen ≤ (mapping.after actions).arena.inner.offset ∧
      ∃ after, region.drop bits (mapping.after actions).arena = .ok () after) ∧
    (∀ len : Fin (2 ^ bits),
      (∃ region after, claim bits len (mapping.after actions).arena = .ok region after) ∨
      ∃ error, claim bits len (mapping.after actions).arena =
        .error (.failed error) (mapping.after actions).arena) ∧
    ∀ before after handle region, actions = before ++ .drop handle :: after →
      (mapping.after before).live.lookup handle = some region →
      (∀ action ∈ after, ∀ n, action.claims = some n → sizeClass n ≠ region.alignedLen) →
      ∀ len : Fin (2 ^ bits), sizeClass len = region.alignedLen →
        ∃ region after, claim bits len (mapping.after actions).arena = .ok region after := by
  have sound := mapping.sound_after actions
  refine ⟨sound.holds.layout, ?_, ?_, ?_⟩
  · intro region member
    have alone := sound.holds.perm (List.perm_cons_erase member)
    obtain ⟨after, ends, -⟩ := alone.dropped
    exact ⟨sound.holds.layout.slot_end member, after, ends⟩
  · intro len
    have outcome := claim_cases sound.holds.layout len.2
    generalize claim bits len (mapping.after actions).arena = result at outcome
    cases outcome with
    | made _ _ _ => exact .inl ⟨_, _, rfl⟩
    | refused error _ => exact .inr ⟨error, rfl⟩
  · rintro before after handle region rfl found others len same
    have earlier := mapping.sound_after before
    have split : mapping.after (before ++ .drop handle :: after) =
        ((mapping.after before).perform bits (.drop handle)).performAll bits after :=
      List.foldl_append
    have stocked := (earlier.perform (.drop handle)).stocked_all others
      (earlier.drop_stocks found)
    rw [← split, ← same] at stocked
    exact sound.claims len.2 stocked

/-- Events before a handle was made say nothing about it. -/
theorem contents_append {events earlier : List Event} {handle : Nat}
    (unknown : ∀ event ∈ earlier, event.handle ≠ handle) :
    contents (events ++ earlier) handle = contents events handle := by
  have silent : earlier.find? (fun event => event.handle = handle) = none :=
    List.find?_eq_none.mpr (by simpa using unknown)
  rw [contents, List.find?_append, silent, Option.or_none, contents]

/-- In every run each handle reads as a byte array of its own, everything outside the bytes
the live handles expose is zero, and so is a region just claimed. A handle made later than
some point of the run shows only what was put in it after that point. -/
theorem handles_independent (mapping : Mapping bits) (actions : List (Action bits)) :
    (∀ handle,
      ((mapping.after actions).live.lookup handle).map (·.asSlice (mapping.after actions).arena) =
        contents (mapping.after actions).history handle) ∧
    (∀ x ∈ mapping.block,
      (∀ region ∈ (mapping.after actions).regions, x ∉ region.block) →
      (mapping.after actions).arena.memory x = 0) ∧
    (∀ (len : Fin (2 ^ bits)) region after,
      claim bits len (mapping.after actions).arena = .ok region after →
      region.asSlice after = List.replicate len 0) ∧
    ∀ before after, actions = before ++ after → ∃ events,
      (mapping.after actions).history = events ++ (mapping.after before).history ∧
      ∀ handle, (mapping.after before).next ≤ handle →
        ((mapping.after actions).live.lookup handle).map
          (·.asSlice (mapping.after actions).arena) = contents events handle := by
  have sound := mapping.sound_after actions
  refine ⟨sound.reads, sound.holds.clean, ?_, ?_⟩
  · intro len region after claimed
    have outcome := claim_opened sound.holds len.2
    rw [claimed] at outcome
    cases outcome with
    | made _ stored _ _ => exact stored
  · rintro before after rfl
    obtain ⟨events, history⟩ := performAll_history (mapping.after before) after
    have split : mapping.after (before ++ after) =
        (mapping.after before).performAll bits after := List.foldl_append
    refine ⟨events, by rw [split, history], fun handle later => ?_⟩
    rw [sound.reads handle, split, history]
    apply contents_append
    intro event member same
    have made := (mapping.sound_after before).recorded event member
    omega

end
end Lithium.Secrets
