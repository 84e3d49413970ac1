import Lithium.Secrets.Arena

/-! The layout of the arena. Live regions and free slots tile the part of the mapping
below the bump pointer, and everything outside the exposed bytes of the live regions
is zero. Each arena operation is described once, by what it does to this layout. -/
namespace Lithium.Secrets
open Keys Memory

theorem entries_perm_of_lookup {β : Type} {map : AList fun _ : Nat => β} {key : Nat} {value : β}
    (found : map.lookup key = some value) :
    map.entries.Perm (⟨key, value⟩ :: (map.erase key).entries) := by
  have member : key ∈ map.entries.keys :=
    AList.mem_keys.mp (AList.lookup_isSome.mp (by simp [found]))
  obtain ⟨other, before, after, fresh, split, erased⟩ := List.exists_of_kerase member
  have same : other = value := by
    have lookup : map.entries.dlookup key = some value := found
    rw [split, List.dlookup_append, List.dlookup_eq_none.mpr fresh, Option.none_or,
      List.dlookup_cons_eq] at lookup
    exact Option.some.inj lookup
  subst same
  calc map.entries
      _ = before ++ ⟨key, other⟩ :: after := split
      _ |>.Perm (⟨key, other⟩ :: (before ++ after)) := List.perm_middle
      _ = ⟨key, other⟩ :: (map.erase key).entries := by rw [← erased]; rfl

/-- The slots a free list offers, each with the length it was freed with. -/
def slotsOf (free : AList fun _ : Nat => List Nat) : List Block :=
  free.entries.flatMap fun entry => entry.2.map fun off => ⟨off, entry.1⟩

def ArenaInner.slots (inner : ArenaInner) : List Block := slotsOf inner.free

def offsetsOf (free : AList fun _ : Nat => List Nat) (len : Nat) : List Nat :=
  (free.lookup len).getD []

theorem slotsOf_insert (free : AList fun _ : Nat => List Nat) (len : Nat) (offs : List Nat) :
    slotsOf (free.insert len offs) =
      offs.map (fun off => ⟨off, len⟩) ++ slotsOf (free.erase len) := by
  rw [slotsOf, AList.entries_insert]
  rfl

theorem slotsOf_perm (free : AList fun _ : Nat => List Nat) (len : Nat) :
    (slotsOf free).Perm
      ((offsetsOf free len).map (fun off => ⟨off, len⟩) ++ slotsOf (free.erase len)) := by
  cases found : free.lookup len with
  | none =>
    have same : (free.erase len).entries = free.entries :=
      List.kerase_of_notMem_keys (AList.lookup_eq_none.mp found)
    simp [offsetsOf, found, slotsOf, same]
  | some offs =>
    simpa [offsetsOf, found, slotsOf] using
      (entries_perm_of_lookup found).flatMap_right
        (fun entry => entry.2.map fun off => (⟨off, entry.1⟩ : Block))

theorem slotsOf_pop {free : AList fun _ : Nat => List Nat} {len off : Nat} {slots : List Nat}
    (found : free.lookup len = some (off :: slots)) :
    (slotsOf free).Perm (⟨off, len⟩ :: slotsOf (free.insert len slots)) := by
  have split := slotsOf_perm free len
  rw [offsetsOf, found] at split
  simpa [slotsOf_insert] using split

theorem slotsOf_push (free : AList fun _ : Nat => List Nat) (len off : Nat) :
    (slotsOf (free.insert len (off :: offsetsOf free len))).Perm (⟨off, len⟩ :: slotsOf free) := by
  rw [slotsOf_insert, List.map_cons, List.cons_append]
  exact (slotsOf_perm free len).symm.cons _

/-- The slot length a request is rounded up to. -/
def sizeClass (len : Nat) : Nat := (max len 1 + 15) / 16 * 16

theorem align_dvd_sizeClass (len : Nat) : align ∣ sizeClass len := ⟨(max len 1 + 15) / 16, by
  rw [sizeClass, align, Nat.mul_comm]⟩

theorem le_sizeClass (len : Nat) : max len 1 ≤ sizeClass len := by
  rw [sizeClass]
  omega

theorem sizeClass_lt (len : Nat) : sizeClass len < max len 1 + align := by
  rw [sizeClass, align]
  omega

section
variable {bits : Nat}

theorem addUsize_ok {σ : Type} {a b : Nat} (word : a + b < 2 ^ bits) (s : σ) :
    addUsize bits a b s = .ok (a + b) s := by
  rw [addUsize, if_pos word]
  rfl

/-- Rounding a quotient up never overflows: the quotient rounded down and the one added
stay within the operand. -/
theorem divCeil_eq {σ : Type} {v unit : Nat} (positive : 0 < v) (unital : 0 < unit)
    (word : v < 2 ^ bits) (s : σ) :
    divCeil bits v unit s = .ok ((v + unit - 1) / unit) s := by
  have split := Nat.div_add_mod v unit
  have below := Nat.mod_lt v unital
  rw [divCeil]
  by_cases rest : v % unit > 0
  · have rounded : v / unit + 1 = (v + unit - 1) / unit := by
      symm
      apply Nat.div_eq_of_lt_le
      · rw [Nat.add_mul, Nat.mul_comm]
        omega
      · rw [Nat.add_mul, Nat.add_mul, Nat.mul_comm]
        omega
    have within : v / unit + 1 ≤ v := by
      by_cases one : unit = 1
      · simp [one, Nat.mod_one] at rest
      · have := Nat.div_lt_self positive (show 1 < unit by omega)
        omega
    rw [if_pos rest, addUsize_ok (by omega), rounded]
  · have rounded : v / unit = (v + unit - 1) / unit := by
      symm
      apply Nat.div_eq_of_lt_le
      · rw [Nat.mul_comm]
        omega
      · rw [Nat.add_mul, Nat.mul_comm]
        omega
    rw [if_neg rest, rounded]
    rfl

theorem roundUp_eq {σ : Type} {v unit : Nat} (positive : 0 < v) (unital : 0 < unit)
    (word : v < 2 ^ bits) (s : σ) :
    roundUp bits v unit s =
      .ok (checkedMul bits ((v + unit - 1) / unit) unit) s := by
  simp only [roundUp, bind, EStateM.bind, divCeil_eq positive unital word s]
  rfl

theorem roundUp_align {σ : Type} {len : Nat} (one : 1 < 2 ^ bits) (word : len < 2 ^ bits) (s : σ) :
    roundUp bits (max len 1) align s =
      .ok (if sizeClass len < 2 ^ bits then some (sizeClass len) else none) s :=
  roundUp_eq (by omega) (by decide) (by omega) s

/-- What `alloc` can do for a slot length: reuse a freed slot, move the bump pointer, or
refuse because the length is no word or because there is no room and no freed slot. -/
inductive Allocated (bits : Nat) (arena : Arena) (len : Nat) :
    EStateM.Result Stop Arena (Nat × Nat) → Prop
  | reused {off : Nat} {slots : List Nat} (found : arena.inner.free.lookup len = some (off :: slots)) :
    Allocated bits arena len (.ok (off, len)
      { arena with inner := { arena.inner with free := arena.inner.free.insert len slots } })
  | bumped (room : arena.inner.offset + len ≤ arena.inner.size) :
    Allocated bits arena len (.ok (arena.inner.offset, len)
      { arena with inner := { arena.inner with offset := arena.inner.offset + len } })
  | tooLarge (huge : 2 ^ bits ≤ len) (error : LithiumError) :
    Allocated bits arena len (.error (.failed error) arena)
  | exhausted (empty : offsetsOf arena.inner.free len = []) (error : LithiumError) :
    Allocated bits arena len (.error (.failed error) arena)

theorem bind_ok {α β σ : Type} {first : EStateM Stop σ α} {next : α → EStateM Stop σ β} {s s' : σ}
    {value : α} (done : first s = .ok value s') : (first >>= next) s = next value s' := by
  simp only [bind, EStateM.bind, done]

theorem bind_error {α β σ : Type} {first : EStateM Stop σ α} {next : α → EStateM Stop σ β}
    {s s' : σ} {stop : Stop} (stopped : first s = .error stop s') :
    (first >>= next) s = .error stop s' := by
  simp only [bind, EStateM.bind, stopped]

theorem get_bind {β σ : Type} {next : σ → EStateM Stop σ β} (s : σ) :
    ((get : EStateM Stop σ σ) >>= next) s = next s s := rfl

theorem bump_cases {arena : Arena} {len : Nat}
    (empty : offsetsOf arena.inner.free len = []) :
    Allocated bits arena len (bump bits len arena) := by
  rw [bump, get_bind, checkedAdd]
  by_cases word : arena.inner.offset + len < 2 ^ bits
  · rw [if_pos word]
    dsimp only
    by_cases beyond : arena.inner.offset + len > arena.inner.size
    · rw [if_pos beyond]
      exact .exhausted empty _
    · rw [if_neg beyond]
      exact .bumped (Nat.le_of_not_lt beyond)
  · rw [if_neg word]
    exact .exhausted empty _

theorem alloc_cases {arena : Arena} {len : Nat} (one : 1 < 2 ^ bits) (word : len < 2 ^ bits) :
    Allocated bits arena (sizeClass len) (alloc bits len arena) := by
  rw [alloc, bind_ok (roundUp_align one word arena)]
  by_cases fits : sizeClass len < 2 ^ bits
  · rw [if_pos fits]
    dsimp only
    rw [get_bind]
    cases found : arena.inner.free.lookup (sizeClass len) with
    | none => exact bump_cases (by simp [offsetsOf, found])
    | some slots =>
      cases slots with
      | nil => exact bump_cases (by simp [offsetsOf, found])
      | cons off slots => exact .reused found
  · rw [if_neg fits]
    exact .tooLarge (Nat.le_of_not_lt fits) _

def Region.slot (region : Region) : Block := ⟨region.off, region.alignedLen⟩

def Mapping.block (mapping : Mapping bits) : Block := ⟨mapping.base, mapping.size⟩

theorem Mapping.one_lt (mapping : Mapping bits) : 1 < 2 ^ bits := by
  have := mapping.nonnull
  have := mapping.fits
  omega

/-- A region as `claim` makes them: aligned, rounded up by less than one unit, and
pointing at its slot. -/
structure Region.Shaped (base : Nat) (region : Region) : Prop where
  off_aligned : align ∣ region.off
  len_aligned : align ∣ region.alignedLen
  enough : max region.len 1 ≤ region.alignedLen
  tight : region.alignedLen < max region.len 1 + align
  placed : region.ptr = base + region.off

/-- The live regions and the free slots tile the mapping up to the bump pointer. -/
structure Layout (mapping : Mapping bits) (arena : Arena) (regions : List Region) : Prop where
  base : arena.inner.base = mapping.base
  size : arena.inner.size = mapping.size
  unpoisoned : arena.poisoned = false
  top_le : arena.inner.offset ≤ mapping.size
  top_aligned : align ∣ arena.inner.offset
  shaped : ∀ region ∈ regions, region.Shaped mapping.base
  slots : ∀ slot ∈ arena.inner.slots, align ∣ slot.off ∧ align ∣ slot.len ∧ 0 < slot.len
  tiles : Tiles (regions.map Region.slot ++ arena.inner.slots) arena.inner.offset

/-- `os::map` returns a mapping of exactly the size asked for. -/
def Exact (map : Nat → Bool → Except LithiumError (Mapping bits × Bool)) : Prop :=
  ∀ size requireLock mapping locked, map size requireLock = .ok (mapping, locked) → mapping.size = size

/-- A built arena is fresh, on a mapping that holds the request. -/
theorem build_eq {pageSize requested : Nat} {requireLock locked : Bool}
    {map : Nat → Bool → Except LithiumError (Mapping bits × Bool)} {arena : Arena} (exact : Exact map)
    (paged : 0 < pageSize) (word : max requested 1 < 2 ^ bits)
    (built : build bits pageSize map requested requireLock () = .ok (arena, locked) ()) :
    ∃ mapping : Mapping bits, arena = mapping.arena ∧ requested ≤ mapping.size := by
  rw [build, bind_ok (roundUp_eq (by omega) paged word ()), checkedMul] at built
  by_cases fits : (max requested 1 + pageSize - 1) / pageSize * pageSize < 2 ^ bits
  · rw [if_pos fits] at built
    dsimp only at built
    cases mapped : map ((max requested 1 + pageSize - 1) / pageSize * pageSize) requireLock with
    | error error =>
      rw [mapped] at built
      cases built
    | ok answer =>
      rw [mapped] at built
      cases built
      refine ⟨answer.1, rfl, ?_⟩
      rw [exact _ _ _ _ mapped]
      have rounded := Nat.lt_div_mul_add (a := max requested 1 + pageSize - 1) paged
      omega
  · rw [if_neg fits] at built
    cases built

namespace Layout
variable {mapping : Mapping bits} {arena : Arena} {regions : List Region} {region : Region}

theorem fresh (mapping : Mapping bits) : Layout mapping mapping.arena [] where
  base := rfl
  size := rfl
  unpoisoned := rfl
  top_le := Nat.zero_le _
  top_aligned := ⟨0, rfl⟩
  shaped := by simp
  slots := by simp [Mapping.arena, ArenaInner.slots, slotsOf]
  tiles := Tiles.nil

theorem perm {reordered : List Region} (layout : Layout mapping arena regions)
    (same : regions.Perm reordered) : Layout mapping arena reordered where
  __ := layout
  shaped := fun region member => layout.shaped region (same.mem_iff.mpr member)
  tiles := layout.tiles.perm ((same.map _).append_right _)

/-- Nothing but the arena's bookkeeping matters for its layout. -/
theorem memory (layout : Layout mapping arena regions) (contents : Contents) :
    Layout mapping { arena with memory := contents } regions where
  __ := layout

theorem slot_end (layout : Layout mapping arena regions) (member : region ∈ regions) :
    region.off + region.alignedLen ≤ arena.inner.offset :=
  layout.tiles.end_le (List.mem_append_left _ (List.mem_map_of_mem member)) (by
    have := (layout.shaped region member).enough
    simp only [Region.slot]
    omega)

theorem block_sub (layout : Layout mapping arena regions) (member : region ∈ regions) {x : Nat}
    (inside : x ∈ region.block) : x ∈ region.slot.shift mapping.base := by
  have shaped := layout.shaped region member
  have := shaped.enough
  simp only [Region.block, Region.slot, Block.shift, Block.mem_iff, shaped.placed] at inside ⊢
  omega

theorem block_sub_mapping (layout : Layout mapping arena regions) (member : region ∈ regions)
    {x : Nat} (inside : x ∈ region.slot.shift mapping.base) : x ∈ mapping.block := by
  have := layout.slot_end member
  have := layout.top_le
  simp only [Region.slot, Block.shift, Mapping.block, Block.mem_iff] at inside ⊢
  omega

/-- No other handle exposes a byte of a region's slot. -/
theorem apart (layout : Layout mapping arena (region :: regions)) :
    ∀ other ∈ regions, other.block.Apart (region.slot.shift mapping.base) := by
  intro other member x inOther inRegion
  have pairwise := List.pairwise_append.mp layout.tiles.apart
  have slots := (List.pairwise_cons.mp pairwise.1).1 other.slot (List.mem_map_of_mem member)
  exact (slots.shift mapping.base) x inRegion (layout.block_sub (.tail _ member) inOther)

theorem reuse {len off : Nat} {slots : List Nat} (layout : Layout mapping arena regions)
    (found : arena.inner.free.lookup (sizeClass len) = some (off :: slots)) :
    Layout mapping
      { arena with
        inner := { arena.inner with free := arena.inner.free.insert (sizeClass len) slots } }
      (⟨mapping.base + off, off, len, sizeClass len⟩ :: regions) where
  __ := layout
  shaped := by
    have popped := slotsOf_pop found
    obtain ⟨off_aligned, len_aligned, -⟩ :=
      layout.slots ⟨off, sizeClass len⟩ (popped.mem_iff.mpr (.head _))
    refine List.forall_mem_cons.mpr ⟨?_, layout.shaped⟩
    exact ⟨off_aligned, len_aligned, le_sizeClass len, sizeClass_lt len, rfl⟩
  slots := fun slot member =>
    layout.slots slot ((slotsOf_pop found).mem_iff.mpr (.tail _ member))
  tiles := layout.tiles.perm
    (((slotsOf_pop found).append_left _).trans List.perm_middle)

theorem bumped {len : Nat} (layout : Layout mapping arena regions)
    (room : arena.inner.offset + sizeClass len ≤ mapping.size) :
    Layout mapping
      { arena with
        inner := { arena.inner with offset := arena.inner.offset + sizeClass len } }
      (⟨mapping.base + arena.inner.offset, arena.inner.offset, len, sizeClass len⟩ :: regions) where
  __ := layout
  top_le := room
  top_aligned := Nat.dvd_add layout.top_aligned (align_dvd_sizeClass len)
  shaped := by
    refine List.forall_mem_cons.mpr ⟨?_, layout.shaped⟩
    exact ⟨layout.top_aligned, align_dvd_sizeClass len, le_sizeClass len, sizeClass_lt len, rfl⟩
  tiles := layout.tiles.extend (sizeClass len)

theorem freed (layout : Layout mapping arena (region :: regions)) :
    Layout mapping
      { arena with
        inner := { arena.inner with
          free := arena.inner.free.insert region.alignedLen
            (region.off :: offsetsOf arena.inner.free region.alignedLen) } }
      regions where
  __ := layout
  shaped := (List.forall_mem_cons.mp layout.shaped).2
  slots := by
    have shaped := layout.shaped region (.head _)
    intro slot member
    have pushed := (slotsOf_push arena.inner.free region.alignedLen region.off).mem_iff.mp member
    cases pushed with
    | head =>
      have := shaped.enough
      exact ⟨shaped.off_aligned, shaped.len_aligned, by dsimp only; omega⟩
    | tail _ member => exact layout.slots slot member
  tiles := layout.tiles.perm (List.perm_middle.symm.trans
    ((slotsOf_push arena.inner.free region.alignedLen region.off).symm.append_left _))

/-- Lengths that are no word have no free slots. -/
theorem offsetsOf_huge (layout : Layout mapping arena regions) {len : Nat}
    (huge : 2 ^ bits ≤ len) : offsetsOf arena.inner.free len = [] := by
  cases offsets : offsetsOf arena.inner.free len with
  | nil => rfl
  | cons off rest =>
    have listed : (⟨off, len⟩ : Block) ∈ arena.inner.slots :=
      (slotsOf_perm arena.inner.free len).mem_iff.mpr (by simp [offsets])
    have ends := layout.tiles.end_le (List.mem_append_right _ listed)
      (layout.slots _ listed).2.2
    have := layout.top_le
    have := mapping.fits
    dsimp only at ends
    omega

end Layout

section
variable {mapping : Mapping bits} {arena : Arena} {regions : List Region} {region : Region}

/-- What `claim` can do: make a region of the rounded length, touching no byte and no
free list of another length, or fail with the arena as it was and no slot of that length
free. -/
inductive Claimed (mapping : Mapping bits) (arena : Arena) (regions : List Region) (len : Nat) :
    EStateM.Result Stop Arena Region → Prop
  | made {region : Region} {inner : ArenaInner} (length : region.len = len)
      (layout : Layout mapping { arena with inner } (region :: regions))
      (others : ∀ other, other ≠ sizeClass len →
        offsetsOf inner.free other = offsetsOf arena.inner.free other) :
    Claimed mapping arena regions len (.ok region { arena with inner })
  | refused (error : LithiumError) (empty : offsetsOf arena.inner.free (sizeClass len) = []) :
    Claimed mapping arena regions len (.error (.failed error) arena)

theorem offsetsOf_insert_ne {free : AList fun _ : Nat => List Nat} {len other : Nat}
    {offs : List Nat} (different : other ≠ len) :
    offsetsOf (free.insert len offs) other = offsetsOf free other := by
  rw [offsetsOf, AList.lookup_insert_ne different, offsetsOf]

/-- `claim` after `alloc`: the pointer addition stays inside the mapping, because the slot
does. -/
theorem claim_of_alloc {len off : Nat} {after : Arena} (layout : Layout mapping arena regions)
    (allocated : alloc bits len arena = .ok (off, sizeClass len) after)
    (placed : Layout mapping after
      (⟨mapping.base + off, off, len, sizeClass len⟩ :: regions)) :
    claim bits len arena = .ok ⟨mapping.base + off, off, len, sizeClass len⟩ after := by
  have unlocked : ¬ arena.poisoned = true := by simp [layout.unpoisoned]
  have word : arena.inner.base + off < 2 ^ bits := by
    have ends := placed.slot_end (.head _)
    have := placed.top_le
    have := mapping.fits
    rw [layout.base]
    dsimp only at ends
    omega
  rw [claim, get_bind, if_neg unlocked, bind_ok allocated]
  dsimp only
  rw [bind_ok (addUsize_ok word after), layout.base]
  rfl

theorem claim_cases {len : Nat} (layout : Layout mapping arena regions) (word : len < 2 ^ bits) :
    Claimed mapping arena regions len (claim bits len arena) := by
  have outcome : Allocated bits arena (sizeClass len) (alloc bits len arena) :=
    alloc_cases mapping.one_lt word
  generalize allocated : alloc bits len arena = result at outcome
  have refuse : ∀ error, result = .error (.failed error) arena →
      claim bits len arena = .error (.failed error) arena := by
    rintro error rfl
    rw [claim, get_bind, if_neg (by simp [layout.unpoisoned]), bind_error allocated]
  cases outcome with
  | reused found =>
    have placed := layout.reuse found
    rw [claim_of_alloc layout allocated placed]
    exact .made rfl placed fun other different => offsetsOf_insert_ne different
  | bumped room =>
    have placed := layout.bumped (layout.size ▸ room)
    rw [claim_of_alloc layout allocated placed]
    exact .made rfl placed fun other _ => rfl
  | tooLarge huge error =>
    rw [refuse error rfl]
    exact .refused error (layout.offsetsOf_huge huge)
  | exhausted empty error =>
    rw [refuse error rfl]
    exact .refused error empty

/-- Dropping a live region wipes its slot and puts it back. -/
theorem drop_eq (layout : Layout mapping arena (region :: regions)) :
    region.drop bits arena = .ok ()
      { arena with
        memory := arena.memory.write (mapping.base + region.off)
          (List.replicate region.alignedLen 0)
        inner := { arena.inner with
          free := arena.inner.free.insert region.alignedLen
            (region.off :: offsetsOf arena.inner.free region.alignedLen) } } := by
  have word : arena.inner.base + region.off < 2 ^ bits := by
    have ends := layout.slot_end (.head _)
    have := layout.top_le
    have := mapping.fits
    rw [layout.base]
    omega
  rw [Region.drop, dealloc, get_bind, bind_ok (addUsize_ok word arena), layout.base]
  rfl

/-- The layout, with every byte that no live handle exposes zero. -/
structure Holds (mapping : Mapping bits) (arena : Arena) (regions : List Region) : Prop where
  layout : Layout mapping arena regions
  clean : ∀ x ∈ mapping.block, (∀ region ∈ regions, x ∉ region.block) → arena.memory x = 0

namespace Holds

theorem fresh (mapping : Mapping bits) : Holds mapping mapping.arena [] :=
  ⟨.fresh mapping, fun x inside _ => mapping.zeroed x inside⟩

theorem perm {reordered : List Region} (holds : Holds mapping arena regions)
    (same : regions.Perm reordered) : Holds mapping arena reordered :=
  ⟨holds.layout.perm same, fun x inside outside =>
    holds.clean x inside fun region member => outside region (same.mem_iff.mp member)⟩

theorem claimed {inner : ArenaInner} (holds : Holds mapping arena regions)
    (placed : Layout mapping { arena with inner } (region :: regions)) :
    region.asSlice { arena with inner } = List.replicate region.len 0 := by
  apply Contents.read_eq_zeros
  intro x inside
  have inSlot := placed.block_sub (.head _) inside
  apply holds.clean x (placed.block_sub_mapping (.head _) inSlot)
  intro other member inOther
  exact placed.apart other member x inOther inSlot

theorem written {bytes : Bytes} (holds : Holds mapping arena (region :: regions))
    (length : bytes.length = region.len) :
    Holds mapping { arena with memory := arena.memory.write region.ptr bytes }
      (region :: regions) := by
  refine ⟨holds.layout.memory _, fun x inside outside => ?_⟩
  have elsewhere : x ∉ (⟨region.ptr, bytes.length⟩ : Block) := by
    rw [length]
    exact outside region (.head _)
  exact (Contents.write_outside elsewhere).trans (holds.clean x inside outside)

/-- A write through one handle is invisible through the others. -/
theorem written_others {bytes : Bytes} (holds : Holds mapping arena (region :: regions))
    (length : bytes.length = region.len) : ∀ other ∈ regions,
      other.asSlice { arena with memory := arena.memory.write region.ptr bytes } =
        other.asSlice arena := by
  intro other member
  apply Contents.read_write_apart
  intro x inOther inRegion
  rw [length] at inRegion
  exact holds.layout.apart other member x inOther (holds.layout.block_sub (.head _) inRegion)

/-- A dropped region leaves only zeros behind, and the other handles as they were. -/
theorem dropped (holds : Holds mapping arena (region :: regions)) : ∃ after,
    region.drop bits arena = .ok () after ∧ Holds mapping after regions ∧
    (∀ other ∈ regions, other.asSlice after = other.asSlice arena) ∧
    (∀ len, offsetsOf after.inner.free len =
      if len = region.alignedLen then region.off :: offsetsOf arena.inner.free len
      else offsetsOf arena.inner.free len) := by
  refine ⟨_, drop_eq holds.layout, ⟨holds.layout.freed.memory _, ?_⟩, ?_, ?_⟩
  · intro x inside outside
    by_cases inSlot : x ∈ region.slot.shift mapping.base
    · exact Contents.write_zeros inSlot
    · refine (Contents.write_outside ?_).trans (holds.clean x inside ?_)
      · rw [List.length_replicate]
        exact inSlot
      · refine List.forall_mem_cons.mpr ⟨fun inBlock => ?_, outside⟩
        exact inSlot (holds.layout.block_sub (.head _) inBlock)
  · intro other member
    apply Contents.read_write_apart
    rw [List.length_replicate]
    exact holds.layout.apart other member
  · intro len
    split
    · rename_i same
      rw [same, offsetsOf, AList.lookup_insert, Option.getD_some]
    · rename_i different
      exact offsetsOf_insert_ne different

end Holds
end

end
end Lithium.Secrets
