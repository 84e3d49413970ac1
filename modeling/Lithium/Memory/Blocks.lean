import Mathlib.Data.List.Basic
import Mathlib.Data.List.Pairwise
import Mathlib.Tactic.Common

/-! Blocks of consecutive addresses, lists of blocks that tile an initial segment
of the addresses, and byte memories that are read and written in blocks. -/
namespace Lithium.Memory

/-- The addresses `off, …, off + len - 1`. -/
structure Block where
  off : Nat
  len : Nat
  deriving DecidableEq, Repr

namespace Block

instance : Membership Nat Block := ⟨fun block x => block.off ≤ x ∧ x < block.off + block.len⟩

theorem mem_iff {block : Block} {x : Nat} :
    x ∈ block ↔ block.off ≤ x ∧ x < block.off + block.len := Iff.rfl

instance (block : Block) (x : Nat) : Decidable (x ∈ block) :=
  decidable_of_iff (block.off ≤ x ∧ x < block.off + block.len) Iff.rfl

def Apart (one other : Block) : Prop := ∀ x ∈ one, x ∉ other

theorem Apart.symm {one other : Block} (apart : one.Apart other) : other.Apart one :=
  fun x inOther inOne => apart x inOne inOther

def shift (base : Nat) (block : Block) : Block := ⟨base + block.off, block.len⟩

theorem mem_shift {base x : Nat} {block : Block} :
    x ∈ block.shift base ↔ base ≤ x ∧ x - base ∈ block := by
  simp only [mem_iff, shift]
  omega

theorem Apart.shift {one other : Block} (apart : one.Apart other) (base : Nat) :
    (one.shift base).Apart (other.shift base) := by
  intro x inOne inOther
  exact apart _ (mem_shift.mp inOne).2 (mem_shift.mp inOther).2

end Block

/-- The blocks are pairwise apart and together cover exactly `[0, top)`. -/
structure Tiles (blocks : List Block) (top : Nat) : Prop where
  apart : blocks.Pairwise Block.Apart
  covers : ∀ x, (∃ block ∈ blocks, x ∈ block) ↔ x < top

namespace Tiles

theorem nil : Tiles [] 0 := ⟨.nil, by simp⟩

theorem perm {blocks reordered : List Block} {top : Nat} (tiles : Tiles blocks top)
    (same : blocks.Perm reordered) : Tiles reordered top where
  apart := same.pairwise tiles.apart Block.Apart.symm
  covers x := by simp only [← tiles.covers x, same.mem_iff]

theorem lt_top {blocks : List Block} {top x : Nat} {block : Block} (tiles : Tiles blocks top)
    (member : block ∈ blocks) (inside : x ∈ block) : x < top :=
  (tiles.covers x).mp ⟨block, member, inside⟩

theorem end_le {blocks : List Block} {top : Nat} {block : Block} (tiles : Tiles blocks top)
    (member : block ∈ blocks) (nonempty : 0 < block.len) : block.off + block.len ≤ top := by
  have last : block.off + block.len - 1 < top :=
    tiles.lt_top member (Block.mem_iff.mpr (by omega))
  omega

/-- A new block laid down at the top keeps the tiling. -/
theorem extend {blocks : List Block} {top : Nat} (tiles : Tiles blocks top) (len : Nat) :
    Tiles (⟨top, len⟩ :: blocks) (top + len) where
  apart := by
    refine List.pairwise_cons.mpr ⟨?_, tiles.apart⟩
    intro block member x inNew inOld
    have below := tiles.lt_top member inOld
    have above := (Block.mem_iff.mp inNew).1
    dsimp only at above
    omega
  covers x := by
    constructor
    · rintro ⟨block, member, inside⟩
      cases member with
      | head => exact (Block.mem_iff.mp inside).2
      | tail _ member => exact Nat.lt_of_lt_of_le (tiles.lt_top member inside) (by omega)
    · intro below
      by_cases old : x < top
      · obtain ⟨block, member, inside⟩ := (tiles.covers x).mpr old
        exact ⟨block, .tail _ member, inside⟩
      · exact ⟨⟨top, len⟩, .head _, by simp only [Block.mem_iff]; omega⟩

end Tiles

abbrev Contents := Nat → UInt8

namespace Contents

def read (memory : Contents) (block : Block) : List UInt8 :=
  (List.range block.len).map fun i => memory (block.off + i)

/-- The memory after `bytes` were copied to the addresses from `start` on. -/
def write (memory : Contents) (start : Nat) (bytes : List UInt8) : Contents := fun x =>
  if start ≤ x then (bytes[x - start]?).getD (memory x) else memory x

@[simp]
theorem length_read (memory : Contents) (block : Block) : (memory.read block).length = block.len := by
  simp [read]

theorem read_congr {memory other : Contents} {block : Block}
    (same : ∀ x ∈ block, memory x = other x) : memory.read block = other.read block := by
  apply List.map_congr_left
  intro i below
  exact same _ (Block.mem_iff.mpr ⟨by omega, by have := List.mem_range.mp below; omega⟩)

theorem read_eq_zeros {memory : Contents} {block : Block} (zero : ∀ x ∈ block, memory x = 0) :
    memory.read block = List.replicate block.len 0 := by
  calc memory.read block
      _ = Contents.read (fun _ => 0) block := read_congr zero
      _ = List.replicate block.len 0 := by simp [read]

theorem write_outside {memory : Contents} {start x : Nat} {bytes : List UInt8}
    (outside : x ∉ (⟨start, bytes.length⟩ : Block)) : memory.write start bytes x = memory x := by
  rw [write]
  split
  · rename_i above
    rw [List.getElem?_eq_none (by simp only [Block.mem_iff] at outside; omega), Option.getD_none]
  · rfl

theorem write_inside (memory : Contents) (start : Nat) {i : Nat} {bytes : List UInt8}
    (inside : i < bytes.length) : memory.write start bytes (start + i) = bytes[i] := by
  rw [write, if_pos (by omega), Nat.add_sub_cancel_left, List.getElem?_eq_getElem inside,
    Option.getD_some]

theorem read_write (memory : Contents) (start : Nat) (bytes : List UInt8) :
    (memory.write start bytes).read ⟨start, bytes.length⟩ = bytes := by
  apply List.ext_getElem
  · simp
  · intro i _ inside
    simp only [read, List.getElem_map, List.getElem_range]
    exact write_inside memory start inside

theorem read_write_apart {memory : Contents} {start : Nat} {bytes : List UInt8} {block : Block}
    (apart : block.Apart ⟨start, bytes.length⟩) :
    (memory.write start bytes).read block = memory.read block := by
  apply read_congr
  intro x inside
  exact write_outside (apart x inside)

theorem write_zeros {memory : Contents} {start len x : Nat} (inside : x ∈ (⟨start, len⟩ : Block)) :
    memory.write start (List.replicate len 0) x = 0 := by
  have bounds := Block.mem_iff.mp inside
  dsimp only at bounds
  have within : x - start < (List.replicate len (0 : UInt8)).length := by
    rw [List.length_replicate]
    omega
  rw [← Nat.add_sub_cancel' bounds.1, write_inside memory start within, List.getElem_replicate]

end Contents
end Lithium.Memory
