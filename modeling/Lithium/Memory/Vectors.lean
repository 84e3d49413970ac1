import Mathlib.Data.List.Basic
import Mathlib.Tactic.Common

/-! Growable vectors over an allocator that may hand out more than it is asked for, or
nothing. A vector owns its whole buffer, the spare part included. A log tells what was
written into which room, which buffers were wiped, and what stood in a buffer when it was
given back. -/
namespace Lithium.Memory

variable {α β γ : Type}

inductive HeapEvent (α : Type) where
  | extended (required capacity : Nat)
  | reallocated (buffer : Nat)
  | wiped (buffer : Nat)
  | released (buffer : Nat) (memory : List α)
  deriving DecidableEq, Repr

/-- Buffers are numbered as they are allocated; `next` is the first number not in use. -/
structure Heap (α : Type) where
  next : Nat
  log : List (HeapEvent α)
  deriving DecidableEq, Repr

def Heap.empty : Heap α := ⟨0, []⟩

inductive HeapStop where
  | capacity (requested : Nat)
  deriving DecidableEq, Repr

abbrev HeapM (α : Type) := EStateM HeapStop (Heap α)

/-- What is handed out for a buffer number and a requested capacity: memory with unknown
contents, at least as long as requested. -/
abbrev Allocator (α : Type) := Nat → (n : Nat) → Option { memory : List α // n ≤ memory.length }

/-- Requests up to the limit are met. -/
def Allocator.Answers (allocator : Allocator α) (limit : Nat) : Prop :=
  ∀ buffer n, n ≤ limit → (allocator buffer n).isSome

/-- A run stopped since a request up to the limit was turned down. -/
def Allocator.Refuses (allocator : Allocator α) (limit : Nat) (stop : HeapStop) : Prop :=
  ∃ buffer n, n ≤ limit ∧ allocator buffer n = none ∧ stop = .capacity n

theorem Allocator.Refuses.mono {allocator : Allocator α} {limit higher : Nat} {stop : HeapStop}
    (refuses : allocator.Refuses limit stop) (more : limit ≤ higher) :
    allocator.Refuses higher stop := by
  obtain ⟨buffer, n, small, refused, stopped⟩ := refuses
  exact ⟨buffer, n, Nat.le_trans small more, refused, stopped⟩

theorem Allocator.Answers.not_refuses {allocator : Allocator α} {limit : Nat} {stop : HeapStop}
    (answers : allocator.Answers limit) : ¬ allocator.Refuses limit stop := by
  rintro ⟨buffer, n, small, refused, _⟩
  have answered := answers buffer n small
  rw [refused] at answered
  cases answered

def record (event : HeapEvent α) : HeapM α Unit :=
  modify fun heap => { heap with log := heap.log ++ [event] }

/-- A `Vec`: `memory` is its whole buffer, `len` how much of it is in use. -/
structure Vec (α : Type) where
  buffer : Nat
  memory : List α
  len : Nat
  within : len ≤ memory.length

namespace Vec

/-- `Vec::new`, which does not allocate. -/
def new : Vec α := ⟨0, [], 0, Nat.le_refl 0⟩

def capacity (self : Vec α) : Nat := self.memory.length

def asSlice (self : Vec α) : List α := self.memory.take self.len

/-- `data` is written behind what is in use. -/
def put (self : Vec α) (data : List α) (_fits : self.len + data.length ≤ self.capacity) : Vec α where
  buffer := self.buffer
  memory := self.asSlice ++ data ++ self.memory.drop (self.len + data.length)
  len := self.len + data.length
  within := by
    rw [List.length_append, List.length_append, asSlice, List.length_take_of_le self.within]
    exact Nat.le_add_right _ _

def drop (self : Vec α) : HeapM α Unit :=
  if self.capacity = 0 then return () else record (.released self.buffer self.memory)

/-- `Zeroize for Vec`: the whole capacity is overwritten, and nothing is in use any more. -/
def zeroize [OfNat α 0] (self : Vec α) : HeapM α (Vec α) := do
  if self.capacity ≠ 0 then record (.wiped self.buffer)
  return ⟨self.buffer, List.replicate self.capacity 0, 0, Nat.zero_le _⟩

section
variable (allocator : Allocator α)

/-- `Vec::with_capacity`. -/
def withCapacity (n : Nat) : HeapM α { vec : Vec α // vec.len = 0 ∧ n ≤ vec.capacity } := do
  if nothing : n = 0 then return ⟨.new, rfl, Nat.le_of_eq nothing⟩
  else
    let heap ← get
    match allocator heap.next n with
    | none => throw (.capacity n)
    | some memory =>
      set { heap with next := heap.next + 1 }
      return ⟨⟨heap.next, memory.1, 0, Nat.zero_le _⟩, rfl, memory.2⟩

/-- `Vec::extend_from_slice`. Within the capacity it writes in place; beyond it the contents
move to another buffer, and the old one is given back as it is. -/
def extendFromSlice (self : Vec α) (data : List α) : HeapM α (Vec α) := do
  record (.extended (self.len + data.length) self.capacity)
  if fits : self.len + data.length ≤ self.capacity then return self.put data fits
  else
    let moved ← withCapacity allocator (self.len + data.length)
    record (.reallocated self.buffer)
    self.drop
    return moved.1.put (self.asSlice ++ data) (by
      rw [moved.2.1, Nat.zero_add, List.length_append, asSlice, List.length_take_of_le self.within]
      exact moved.2.2)

/-- `<[T]>::to_vec`. -/
def ofSlice (data : List α) : HeapM α (Vec α) := do
  let vec ← withCapacity allocator data.length
  vec.1.extendFromSlice allocator data

end

@[simp] theorem length_asSlice (self : Vec α) : self.asSlice.length = self.len :=
  List.length_take_of_le self.within

@[simp] theorem asSlice_put (self : Vec α) (data : List α)
    (fits : self.len + data.length ≤ self.capacity) :
    (self.put data fits).asSlice = self.asSlice ++ data := by
  have length : (self.asSlice ++ data).length = self.len + data.length := by simp
  exact List.take_left' length

@[simp] theorem capacity_put (self : Vec α) (data : List α)
    (fits : self.len + data.length ≤ self.capacity) :
    (self.put data fits).capacity = self.capacity := by
  simp only [capacity] at fits
  simp only [capacity, put, List.length_append, length_asSlice, List.length_drop]
  omega

theorem asSlice_of_len_eq_zero {self : Vec α} (unused : self.len = 0) : self.asSlice = [] := by
  rw [asSlice, unused, List.take_zero]

end Vec

/-- The run returns with `post`, or stops with `stop`. -/
def Yields (program : HeapM α β) (heap : Heap α) (post : β → Heap α → Prop)
    (stop : HeapStop → Heap α → Prop) : Prop :=
  match program heap with
  | .ok value after => post value after
  | .error reason after => stop reason after

namespace Yields
variable {program : HeapM α β} {heap : Heap α} {post : β → Heap α → Prop}
  {stop : HeapStop → Heap α → Prop}

theorem done {value : β} (holds : post value heap) : Yields (pure value) heap post stop := holds

theorem look : Yields get heap (fun now after => now = heap ∧ after = heap) stop := ⟨rfl, rfl⟩

theorem bind {next : β → HeapM α γ} {mid : β → Heap α → Prop} {last : γ → Heap α → Prop}
    (first : Yields program heap mid stop)
    (rest : ∀ value after, mid value after → Yields (next value) after last stop) :
    Yields (program >>= next) heap last stop := by
  simp only [Yields, Bind.bind, EStateM.bind] at first ⊢
  cases ran : program heap with
  | ok value after =>
    rw [ran] at first
    exact rest value after first
  | error reason after =>
    rw [ran] at first
    exact first

theorem mono {weaker : β → Heap α → Prop} {looser : HeapStop → Heap α → Prop}
    (yields : Yields program heap post stop) (returns : ∀ value after, post value after → weaker value after)
    (stops : ∀ reason after, stop reason after → looser reason after) :
    Yields program heap weaker looser := by
  simp only [Yields] at yields ⊢
  cases ran : program heap with
  | ok value after =>
    rw [ran] at yields
    exact returns value after yields
  | error reason after =>
    rw [ran] at yields
    exact stops reason after yields

theorem returns (yields : Yields program heap post stop) (never : ∀ reason after, ¬ stop reason after) :
    ∃ value after, program heap = .ok value after ∧ post value after := by
  simp only [Yields] at yields
  cases ran : program heap with
  | ok value after =>
    rw [ran] at yields
    exact ⟨value, after, rfl, yields⟩
  | error reason after =>
    rw [ran] at yields
    exact absurd yields (never reason after)

end Yields

section
variable [OfNat α 0]

/-- What may happen after `before`: nothing is written beyond the room there is, no vector
moves by itself, and a buffer that is given back has been wiped and is blank. -/
def HeapEvent.Proper (before : List (HeapEvent α)) : HeapEvent α → Prop
  | .extended required capacity => required ≤ capacity
  | .reallocated _ => False
  | .wiped _ => True
  | .released buffer memory => (∀ x ∈ memory, x = 0) ∧ .wiped buffer ∈ before

def Tidy (log : List (HeapEvent α)) : Prop :=
  ∀ before event after, log = before ++ event :: after → event.Proper before

theorem Tidy.nil : Tidy ([] : List (HeapEvent α)) := by
  intro before event after split
  simp at split

theorem Tidy.snoc {log : List (HeapEvent α)} {event : HeapEvent α} (tidy : Tidy log)
    (proper : event.Proper log) : Tidy (log ++ [event]) := by
  intro before other after split
  rcases List.eq_nil_or_concat after with rfl | ⟨rest, last, rfl⟩
  · obtain ⟨rfl, same⟩ := List.append_inj' split rfl
    cases same
    exact proper
  · rw [List.concat_eq_append, ← List.cons_append, ← List.append_assoc] at split
    obtain ⟨earlier, _⟩ := List.append_inj' split rfl
    exact tidy before other rest earlier

/-- Every buffer that was handed out is that of a live vector, or was given back. -/
def Heap.Accounted (heap : Heap α) (live : List (Vec α)) : Prop :=
  ∀ buffer, buffer < heap.next →
    (∃ vec ∈ live, vec.buffer = buffer ∧ 0 < vec.capacity) ∨
      ∃ memory, .released buffer memory ∈ heap.log

structure Heap.Sound (heap : Heap α) (live : List (Vec α)) : Prop where
  tidy : Tidy heap.log
  accounted : heap.Accounted live

theorem Heap.Sound.empty : (Heap.empty : Heap α).Sound [] :=
  ⟨.nil, fun _ used => absurd used (Nat.not_lt_zero _)⟩

namespace Heap.Sound
variable {heap : Heap α} {live : List (Vec α)} {self : Vec α}

theorem mono {more : List (Vec α)} (sound : heap.Sound live) (subset : live ⊆ more) :
    heap.Sound more := by
  refine ⟨sound.tidy, fun buffer used => ?_⟩
  obtain ⟨vec, member, held⟩ | released := sound.accounted buffer used
  · exact .inl ⟨vec, subset member, held⟩
  · exact .inr released

theorem replace {vec : Vec α} (sound : heap.Sound (self :: live)) (buffer : vec.buffer = self.buffer)
    (capacity : vec.capacity = self.capacity) : heap.Sound (vec :: live) := by
  refine ⟨sound.tidy, fun other used => ?_⟩
  obtain ⟨found, member, held⟩ | released := sound.accounted other used
  · rcases List.mem_cons.mp member with rfl | member
    · exact .inl ⟨vec, List.mem_cons_self, buffer.trans held.1, capacity ▸ held.2⟩
    · exact .inl ⟨found, List.mem_cons_of_mem _ member, held⟩
  · exact .inr released

theorem record {event : HeapEvent α} (sound : heap.Sound live) (proper : event.Proper heap.log) :
    Heap.Sound { heap with log := heap.log ++ [event] } live := by
  refine ⟨sound.tidy.snoc proper, fun buffer used => ?_⟩
  obtain held | ⟨memory, released⟩ := sound.accounted buffer used
  · exact .inl held
  · exact .inr ⟨memory, List.mem_append_left _ released⟩

end Heap.Sound

namespace Vec
variable {allocator : Allocator α} {heap : Heap α} {live : List (Vec α)} {self : Vec α}
  {stop : HeapStop → Heap α → Prop}

/-- A request is met with a vector of its own, or nothing happens. -/
theorem withCapacity_yields (sound : heap.Sound live) (n : Nat) :
    Yields (withCapacity allocator n) heap (fun vec after => after.Sound (vec.1 :: live))
      fun reason after => after = heap ∧ allocator.Refuses n reason := by
  unfold withCapacity
  split
  · exact .done (sound.mono (List.subset_cons_self _ _))
  · rename_i positive
    refine Yields.bind Yields.look fun now after => ?_
    rintro ⟨rfl, rfl⟩
    cases found : allocator after.next n with
    | none => exact ⟨rfl, after.next, n, Nat.le_refl n, found, rfl⟩
    | some memory =>
      refine ⟨sound.tidy, fun buffer used => ?_⟩
      rcases Nat.lt_succ_iff_lt_or_eq.mp used with earlier | rfl
      · obtain ⟨vec, member, held⟩ | released := sound.accounted buffer earlier
        · exact .inl ⟨vec, List.mem_cons_of_mem _ member, held⟩
        · exact .inr released
      · have room : 0 < memory.1.length := by
          have := memory.2
          omega
        exact .inl ⟨_, List.mem_cons_self, rfl, room⟩

/-- Within the capacity the contents grow in place. -/
theorem extendFromSlice_yields {data : List α} (sound : heap.Sound (self :: live))
    (fits : self.len + data.length ≤ self.capacity) :
    Yields (self.extendFromSlice allocator data) heap
      (fun vec after => vec = self.put data fits ∧ after.Sound (vec :: live)) stop := by
  unfold extendFromSlice
  rw [dif_pos fits]
  have proper : HeapEvent.Proper heap.log (.extended (self.len + data.length) self.capacity) := fits
  exact ⟨rfl, (sound.record proper).replace rfl (capacity_put self data fits)⟩

/-- Nothing is left in the vector, and its buffer has been wiped if it has one. -/
structure Blank (vec : Vec α) (heap : Heap α) : Prop where
  zero : ∀ x ∈ vec.memory, x = 0
  wiped : 0 < vec.capacity → .wiped vec.buffer ∈ heap.log

theorem zeroize_yields (sound : heap.Sound (self :: live)) :
    Yields self.zeroize heap (fun vec after => vec.Blank after ∧ after.Sound (vec :: live)) stop := by
  have zero : ∀ x ∈ List.replicate self.capacity (0 : α), x = 0 := fun x member =>
    (List.mem_replicate.mp member).2
  have length : (List.replicate self.capacity (0 : α)).length = self.capacity := List.length_replicate
  unfold zeroize
  split
  · have proper : HeapEvent.Proper heap.log (.wiped self.buffer) := trivial
    exact ⟨⟨zero, fun _ => List.mem_append_right _ List.mem_cons_self⟩,
      (sound.record proper).replace rfl length⟩
  · rename_i bare
    refine ⟨⟨zero, fun room => ?_⟩, sound.replace rfl length⟩
    rw [capacity, length] at room
    omega

theorem drop_yields (sound : heap.Sound (self :: live)) (blank : self.Blank heap) :
    Yields self.drop heap (fun _ after => after.Sound live) stop := by
  have others : ∀ buffer, buffer < heap.next → buffer ≠ self.buffer ∨ self.capacity = 0 →
      (∃ vec ∈ live, vec.buffer = buffer ∧ 0 < vec.capacity) ∨
        ∃ memory, .released buffer memory ∈ heap.log := by
    intro buffer used aside
    obtain ⟨vec, member, held⟩ | released := sound.accounted buffer used
    · rcases List.mem_cons.mp member with rfl | member
      · obtain ⟨same, room⟩ := held
        rcases aside with other | bare
        · exact absurd same.symm other
        · omega
      · exact .inl ⟨vec, member, held⟩
    · exact .inr released
  unfold drop
  split
  · rename_i bare
    exact .done ⟨sound.tidy, fun buffer used => others buffer used (.inr bare)⟩
  · rename_i room
    refine ⟨sound.tidy.snoc ⟨blank.zero, blank.wiped (Nat.pos_of_ne_zero room)⟩, fun buffer used => ?_⟩
    by_cases own : buffer = self.buffer
    · subst own
      exact .inr ⟨self.memory, List.mem_append_right _ List.mem_cons_self⟩
    · obtain held | ⟨memory, released⟩ := others buffer used (.inl own)
      · exact .inl held
      · exact .inr ⟨memory, List.mem_append_left _ released⟩

theorem discard_yields {all : List (Vec α)} {rest : HeapM α β} {post : β → Heap α → Prop}
    (sound : heap.Sound all) (listed : all ⊆ self :: live)
    (continues : ∀ after, after.Sound live → Yields rest after post stop) :
    Yields (do let old ← self.zeroize; old.drop; rest) heap post stop := by
  refine Yields.bind (zeroize_yields (sound.mono listed)) fun old after wiped => ?_
  exact Yields.bind (drop_yields wiped.2 wiped.1) fun _ after sound => continues after sound

theorem ofSlice_yields (sound : heap.Sound live) (data : List α) :
    Yields (ofSlice allocator data) heap
      (fun vec after => vec.asSlice = data ∧ after.Sound (vec :: live))
      fun reason after => after = heap ∧ allocator.Refuses data.length reason := by
  refine Yields.bind (withCapacity_yields sound data.length) fun vec after sound => ?_
  obtain ⟨vec, unused, room⟩ := vec
  have fits : vec.len + data.length ≤ vec.capacity := by omega
  refine (extendFromSlice_yields sound fits).mono ?_ fun _ _ stopped => stopped
  rintro _ after ⟨rfl, sound⟩
  refine ⟨?_, sound⟩
  rw [asSlice_put, asSlice_of_len_eq_zero unused, List.nil_append]

end Vec

end

end Lithium.Memory
