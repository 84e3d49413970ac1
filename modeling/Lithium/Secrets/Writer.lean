import Lithium.Memory.Vectors
import Lithium.Secrets.Arena

/-! The writer that secrets are serialized into (`ZeroizingWriter` in `secrets/bytes.rs`). It
grows by hand, so that the vector in it never moves by itself and every buffer it outgrows is
wiped before it is given back. -/
namespace Lithium.Secrets
open Keys Memory

/-- `SecretBytes`, a boxed vector. -/
structure SecretBytes where
  vec : Vec UInt8

def SecretBytes.exposeAsSlice (self : SecretBytes) : Bytes := self.vec.asSlice

section
variable (allocator : Allocator UInt8)

/-- A vector with room to spare is copied into an exact one and wiped. -/
def SecretBytes.new (v : Vec UInt8) : HeapM UInt8 SecretBytes := do
  if v.capacity = v.len then return ⟨v⟩
  else
    let exact ← Vec.ofSlice allocator v.asSlice
    let v ← v.zeroize
    v.drop
    return ⟨exact⟩

def SecretBytes.fromSlice (v : Bytes) : HeapM UInt8 SecretBytes := do
  SecretBytes.new allocator (← Vec.ofSlice allocator v)

end

/-- `io::Error::other` with its message. -/
inductive WriteError where
  | other (message : String)
  deriving DecidableEq, Repr

structure ZeroizingWriter where
  buf : Vec UInt8

/-- `usize::saturating_mul`. -/
def saturatingMul (bits a b : Nat) : Nat := min (a * b) (2 ^ bits - 1)

namespace ZeroizingWriter

def new : ZeroizingWriter := ⟨.new⟩

section
variable (allocator : Allocator UInt8) (bits : Nat)

def newCap (self : ZeroizingWriter) (needed : Nat) : Nat :=
  max (max (saturatingMul bits self.buf.capacity 2) needed) 64

/-- The buffer that `write` appends to: a larger one where `needed` is beyond the capacity. -/
def makeRoom (self : ZeroizingWriter) (needed : Nat) : HeapM UInt8 (Vec UInt8) := do
  if needed > self.buf.capacity then
    let next ← Vec.withCapacity allocator (self.newCap bits needed)
    let next ← next.1.extendFromSlice allocator self.buf.asSlice
    let old ← self.buf.zeroize
    -- the assignment drops the vector that was there
    old.drop
    return next
  else return self.buf

/-- `io::Write::write`, with the writer it leaves. -/
def write (self : ZeroizingWriter) (data : Bytes) :
    HeapM UInt8 (Except WriteError Nat × ZeroizingWriter) :=
  match checkedAdd bits self.buf.len data.length with
  | none => return (.error (.other "zeroizing writer length overflow"), self)
  | some needed => do
    let buf ← self.makeRoom allocator bits needed
    let buf ← buf.extendFromSlice allocator data
    return (.ok data.length, ⟨buf⟩)

def writes (self : ZeroizingWriter) :
    List Bytes → HeapM UInt8 (List (Except WriteError Nat) × ZeroizingWriter)
  | [] => return ([], self)
  | data :: chunks => do
    let wrote ← self.write allocator bits data
    let rest ← wrote.2.writes chunks
    return (wrote.1 :: rest.1, rest.2)

/-- `into_secret`, at whose end `Zeroizing` wipes the buffer and drops it. -/
def intoSecret (self : ZeroizingWriter) : HeapM UInt8 SecretBytes := do
  let secret ← SecretBytes.fromSlice allocator self.buf.asSlice
  let buf ← self.buf.zeroize
  buf.drop
  return secret

end

/-- What was written grows by the data, if the length stays a machine word. -/
def accept (bits : Nat) (written data : Bytes) : Except WriteError Nat × Bytes :=
  if written.length + data.length < 2 ^ bits then (.ok data.length, written ++ data)
  else (.error (.other "zeroizing writer length overflow"), written)

def acceptAll (bits : Nat) (written : Bytes) : List Bytes → List (Except WriteError Nat) × Bytes
  | [] => ([], written)
  | data :: chunks =>
    let accepted := accept bits written data
    let rest := acceptAll bits accepted.2 chunks
    (accepted.1 :: rest.1, rest.2)

theorem acceptAll_within {bits : Nat} {written : Bytes} {chunks : List Bytes}
    (within : written.length + chunks.flatten.length < 2 ^ bits) :
    acceptAll bits written chunks =
      (chunks.map fun data => .ok data.length, written ++ chunks.flatten) := by
  induction chunks generalizing written with
  | nil => simp [acceptAll]
  | cons data chunks ih =>
    rw [List.flatten_cons, List.length_append] at within
    have first : accept bits written data = (.ok data.length, written ++ data) :=
      if_pos (by omega)
    have rest : (written ++ data).length + chunks.flatten.length < 2 ^ bits := by
      rw [List.length_append]
      omega
    simp only [acceptAll, first, ih rest, List.map_cons, List.flatten_cons, List.append_assoc]

theorem length_accept_le (bits : Nat) (written data : Bytes) :
    (accept bits written data).2.length ≤ written.length + data.length := by
  rw [accept]
  split
  · exact Nat.le_of_eq List.length_append
  · exact Nat.le_add_right _ _

section
variable {allocator : Allocator UInt8} {bits : Nat} {self : ZeroizingWriter} {heap : Heap UInt8}

theorem le_newCap (self : ZeroizingWriter) (bits needed : Nat) :
    needed ≤ self.newCap bits needed := by
  simp only [newCap]
  omega

/-- Where the buffer is too small, its doubled capacity is below twice what is needed. -/
theorem newCap_le {needed : Nat} (short : self.buf.capacity < needed) :
    self.newCap bits needed ≤ max 64 (2 * needed) := by
  have saturated : saturatingMul bits self.buf.capacity 2 ≤ self.buf.capacity * 2 :=
    Nat.min_le_left _ _
  simp only [newCap]
  omega

/-- The contents stay where they are, or move into a buffer with room while the old one is
wiped and given back. -/
theorem makeRoom_yields (sound : heap.Sound [self.buf]) (needed : Nat) :
    Yields (self.makeRoom allocator bits needed) heap
      (fun buf after => buf.asSlice = self.buf.asSlice ∧ needed ≤ buf.capacity ∧ after.Sound [buf])
      fun reason after => after = heap ∧ allocator.Refuses (max 64 (2 * needed)) reason := by
  unfold makeRoom
  split
  · rename_i short
    refine Yields.bind ((Vec.withCapacity_yields sound (self.newCap bits needed)).mono
      (fun _ _ returned => returned) fun _ _ stopped =>
        ⟨stopped.1, stopped.2.mono (newCap_le short)⟩) fun next after sound => ?_
    obtain ⟨next, unused, room⟩ := next
    have enough := Nat.le_trans (le_newCap self bits needed) room
    have fits : next.len + self.buf.asSlice.length ≤ next.capacity := by
      have within : self.buf.len ≤ self.buf.capacity := self.buf.within
      rw [Vec.length_asSlice]
      omega
    refine Yields.bind (Vec.extendFromSlice_yields sound fits) fun copied after => ?_
    rintro ⟨rfl, sound⟩
    refine Vec.discard_yields sound (List.Perm.swap _ _ _).subset fun after sound => ?_
    refine .done ⟨?_, ?_, sound⟩
    · rw [Vec.asSlice_put, Vec.asSlice_of_len_eq_zero unused, List.nil_append]
    · rw [Vec.capacity_put]
      exact enough
  · rename_i room
    exact .done ⟨rfl, Nat.le_of_not_lt room, sound⟩

/-- A write does what it is for, or stops at a request for memory with nothing changed. -/
theorem write_yields (sound : heap.Sound [self.buf]) (data : Bytes) :
    Yields (self.write allocator bits data) heap
      (fun wrote after =>
        wrote.1 = (accept bits self.buf.asSlice data).1 ∧
          wrote.2.buf.asSlice = (accept bits self.buf.asSlice data).2 ∧ after.Sound [wrote.2.buf])
      fun reason after => after = heap ∧
        allocator.Refuses (max 64 (2 * (self.buf.len + data.length))) reason := by
  rw [write, checkedAdd, accept, Vec.length_asSlice]
  by_cases small : self.buf.len + data.length < 2 ^ bits
  · rw [if_pos small, if_pos small]
    refine Yields.bind (makeRoom_yields sound (self.buf.len + data.length)) fun buf after => ?_
    rintro ⟨contents, room, sound⟩
    -- the contents have kept their length, so that the data fits
    have fits : buf.len + data.length ≤ buf.capacity := by
      rw [← Vec.length_asSlice, contents, Vec.length_asSlice]
      exact room
    refine Yields.bind (Vec.extendFromSlice_yields sound fits) fun extended after => ?_
    rintro ⟨rfl, sound⟩
    refine .done ⟨rfl, ?_, sound⟩
    rw [Vec.asSlice_put, contents]
  · rw [if_neg small, if_neg small]
    exact .done ⟨rfl, rfl, sound⟩

variable (allocator bits) in
theorem writes_yields (sound : heap.Sound [self.buf]) (chunks : List Bytes) :
    Yields (self.writes allocator bits chunks) heap
      (fun wrote after =>
        wrote.1 = (acceptAll bits self.buf.asSlice chunks).1 ∧
          wrote.2.buf.asSlice = (acceptAll bits self.buf.asSlice chunks).2 ∧
            after.Sound [wrote.2.buf])
      fun reason after => Tidy after.log ∧
        allocator.Refuses (max 64 (2 * (self.buf.len + chunks.flatten.length))) reason := by
  induction chunks generalizing self heap with
  | nil => exact .done ⟨rfl, rfl, sound⟩
  | cons data chunks ih =>
    have length : (data :: chunks).flatten.length = data.length + chunks.flatten.length := by
      rw [List.flatten_cons, List.length_append]
    refine Yields.bind ((write_yields sound data).mono (fun _ _ returned => returned) ?_)
      fun wrote after => ?_
    · rintro reason _ ⟨rfl, refused⟩
      exact ⟨sound.tidy, refused.mono (by omega)⟩
    rintro ⟨reply, contents, sound⟩
    have longer : wrote.2.buf.len ≤ self.buf.len + data.length := by
      rw [← Vec.length_asSlice, contents, ← Vec.length_asSlice self.buf]
      exact length_accept_le bits self.buf.asSlice data
    refine Yields.bind ((ih sound).mono (fun _ _ returned => returned) ?_) fun others after => ?_
    · rintro reason after ⟨tidy, refused⟩
      exact ⟨tidy, refused.mono (by omega)⟩
    rintro ⟨replies, last, sound⟩
    rw [contents] at replies last
    refine .done ⟨?_, last, sound⟩
    rw [acceptAll, reply, replies]

theorem secretBytes_new_yields {v : Vec UInt8} {live : List (Vec UInt8)}
    (sound : heap.Sound (v :: live)) :
    Yields (SecretBytes.new allocator v) heap
      (fun secret after => secret.exposeAsSlice = v.asSlice ∧ after.Sound (secret.vec :: live))
      fun reason _ => allocator.Refuses v.len reason := by
  unfold SecretBytes.new
  split
  · exact .done ⟨rfl, sound⟩
  · refine Yields.bind ((Vec.ofSlice_yields sound v.asSlice).mono (fun _ _ returned => returned)
      fun _ _ stopped => v.length_asSlice ▸ stopped.2) fun exact after => ?_
    rintro ⟨contents, sound⟩
    refine Vec.discard_yields sound (List.Perm.swap _ _ _).subset fun after sound => ?_
    exact .done ⟨contents, sound⟩

/-- The secret has the contents of the writer, whose buffer is wiped and given back. -/
theorem intoSecret_yields (sound : heap.Sound [self.buf]) :
    Yields (self.intoSecret allocator) heap
      (fun secret after => secret.exposeAsSlice = self.buf.asSlice ∧ after.Sound [secret.vec])
      fun reason _ => allocator.Refuses self.buf.len reason := by
  have copied : Yields (SecretBytes.fromSlice allocator self.buf.asSlice) heap
      (fun secret after => secret.exposeAsSlice = self.buf.asSlice ∧
        after.Sound [secret.vec, self.buf])
      fun reason _ => allocator.Refuses self.buf.len reason := by
    refine Yields.bind ((Vec.ofSlice_yields sound self.buf.asSlice).mono
      (fun _ _ returned => returned) fun _ _ stopped => self.buf.length_asSlice ▸ stopped.2)
      fun v after => ?_
    rintro ⟨contents, sound⟩
    have length : v.len = self.buf.len := by
      rw [← Vec.length_asSlice, contents, Vec.length_asSlice]
    rw [← contents, ← length]
    exact secretBytes_new_yields sound
  refine Yields.bind copied fun secret after => ?_
  rintro ⟨contents, sound⟩
  refine Vec.discard_yields sound (List.Perm.swap _ _ _).subset fun after sound => ?_
  exact .done ⟨contents, sound⟩

end

/-- Chunks whose total length is a machine word are written one after the other to a new
writer. If requests for memory are met, up to twice the total, every write returns the length
of its chunk and the secret is the concatenation. Whether they are met or not, every vector is
extended within its capacity and none moves by itself, and a buffer is given back only after it
was wiped; in the end only the buffer of the writer, or that of the secret, is left. -/
theorem zeroizing_writer_leaves_no_copies (allocator : Allocator UInt8) {bits : Nat}
    {chunks : List Bytes} (within : chunks.flatten.length < 2 ^ bits) :
    (allocator.Answers (max 64 (2 * chunks.flatten.length)) →
      ∃ writer after secret last,
        new.writes allocator bits chunks .empty =
          .ok (chunks.map fun data => .ok data.length, writer) after ∧
        (Tidy after.log ∧ after.Accounted [writer.buf]) ∧
        writer.intoSecret allocator after = .ok secret last ∧
        secret.exposeAsSlice = chunks.flatten ∧
        Tidy last.log ∧ last.Accounted [secret.vec]) ∧
    Yields (new.writes allocator bits chunks) .empty
      (fun wrote after => wrote.1 = (chunks.map fun data => .ok data.length) ∧
        wrote.2.buf.asSlice = chunks.flatten ∧ Tidy after.log ∧ after.Accounted [wrote.2.buf])
      fun reason after => Tidy after.log ∧
        allocator.Refuses (max 64 (2 * chunks.flatten.length)) reason := by
  have start : Heap.empty.Sound [new.buf] := Heap.Sound.empty.mono (List.nil_subset _)
  have accepted : acceptAll bits new.buf.asSlice chunks =
      (chunks.map fun data => .ok data.length, chunks.flatten) :=
    acceptAll_within (by rwa [Vec.length_asSlice, new, Vec.new, Nat.zero_add])
  have wrote := writes_yields allocator bits start chunks
  rw [accepted, show new.buf.len = 0 from rfl, Nat.zero_add] at wrote
  refine ⟨fun answers => ?_, wrote.mono ?_ fun _ _ stopped => stopped⟩
  · obtain ⟨⟨replies, writer⟩, after, ran, same, contents, sound⟩ :=
      wrote.returns fun _ _ stopped => answers.not_refuses stopped.2
    dsimp only at same contents sound
    subst same
    have length : writer.buf.len = chunks.flatten.length := by
      rw [← Vec.length_asSlice, contents]
    obtain ⟨secret, last, took, exposed, kept⟩ := (intoSecret_yields sound).returns
      fun _ _ refused => answers.not_refuses (refused.mono (by omega))
    exact ⟨writer, after, secret, last, ran, ⟨sound.tidy, sound.accounted⟩, took,
      exposed.trans contents, kept.tidy, kept.accounted⟩
  · rintro wrote after ⟨replies, contents, sound⟩
    exact ⟨replies, contents, sound.tidy, sound.accounted⟩

/-- `Vec` meets requests of at most `isize::MAX` bytes, here with exactly what is asked for. -/
def exactAllocator : Allocator UInt8 := fun _ n =>
  if n < 2 ^ 63 then some ⟨List.replicate n 0xa5, Nat.le_of_eq List.length_replicate.symm⟩ else none

def growingChunks : List Bytes :=
  [List.replicate 40 1, [], List.replicate 40 2, List.replicate 100 3]

theorem zeroizing_writer_leaves_no_copies_growing :
    growingChunks.flatten.length < 2 ^ 64 ∧ exactAllocator.Answers 360 ∧
    ∃ writer after secret last,
      new.writes exactAllocator 64 growingChunks .empty =
        .ok ([.ok 40, .ok 0, .ok 40, .ok 100], writer) after ∧
      (Tidy after.log ∧ after.Accounted [writer.buf]) ∧
      writer.intoSecret exactAllocator after = .ok secret last ∧
      secret.exposeAsSlice = growingChunks.flatten ∧ Tidy last.log ∧ last.Accounted [secret.vec] := by
  have length : growingChunks.flatten.length = 180 := by
    simp only [growingChunks, List.flatten_cons, List.flatten_nil, List.length_append,
      List.length_replicate, List.length_nil]
  have replies : growingChunks.map (fun data => (.ok data.length : Except WriteError Nat)) =
      [.ok 40, .ok 0, .ok 40, .ok 100] := by
    simp only [growingChunks, List.map_cons, List.map_nil, List.length_replicate, List.length_nil]
  have within : growingChunks.flatten.length < 2 ^ 64 := by rw [length]; decide
  have answers : exactAllocator.Answers 360 := by
    intro buffer n small
    rw [exactAllocator, if_pos (Nat.lt_of_le_of_lt small (by decide))]
    rfl
  have result := (zeroizing_writer_leaves_no_copies exactAllocator within).1
  rw [length, replies] at result
  exact ⟨within, answers, result answers⟩

end ZeroizingWriter
end Lithium.Secrets
