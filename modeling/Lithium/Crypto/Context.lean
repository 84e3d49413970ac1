import Lithium.Keys.Primitives

/-! Contexts (`crypto/context.rs`): slash-separated labels that separate the uses of a
key, and the associated data they are bound to. -/
namespace Lithium.Crypto
open Keys (Bytes Fixed LithiumError)

def ascii (text : String) : Bytes := text.toList.map fun c => UInt8.ofNat c.toNat

def slash : UInt8 := 0x2f
def contextVersion : Bytes := ascii "v1"
def maxContextLen : Nat := 255

/-- The bytes a segment may hold, the separator apart. -/
def Printable (byte : UInt8) : Prop := 0x21 ≤ byte ∧ byte ≤ 0x7e

instance (byte : UInt8) : Decidable (Printable byte) :=
  inferInstanceAs (Decidable (0x21 ≤ byte ∧ byte ≤ 0x7e))

/-- Whether a text holds only bytes of some kind is decided along the text. -/
instance (priority := 2000) (text : Bytes) (kind : UInt8 → Prop) [DecidablePred kind] :
    Decidable (∀ byte ∈ text, kind byte) := List.decidableBAll kind text

abbrev Segment := { bytes : Bytes // ∀ byte ∈ bytes, Printable byte ∧ byte ≠ slash }

def validateSegment (seg : Bytes) : Except LithiumError Segment :=
  if seg = [] then .error (.invalidContext "empty_segment")
  else if charset : ∀ byte ∈ seg, Printable byte ∧ byte ≠ slash then .ok ⟨seg, charset⟩
  else .error (.invalidContext "segment_charset")

/-- A context is a printable text of bounded length; `base` and `add` are its only
constructors. -/
structure Context where
  text : Bytes
  printable : ∀ byte ∈ text, Printable byte
  short : text.length ≤ maxContextLen

namespace Context

def base (root : Bytes) : Except LithiumError Context := do
  let root ← validateSegment root
  if short : root.1.length ≤ maxContextLen then
    return ⟨root.1, fun byte member => (root.2 byte member).1, short⟩
  else throw (.invalidContext "too_long")

theorem printable_join {text segment : Bytes} (printable : ∀ byte ∈ text, Printable byte)
    (charset : ∀ byte ∈ segment, Printable byte ∧ byte ≠ slash) :
    ∀ byte ∈ text ++ slash :: segment, Printable byte := by
  intro byte member
  rcases List.mem_append.mp member with inText | inRest
  · exact printable byte inText
  · cases inRest with
    | head => decide
    | tail _ inSegment => exact (charset byte inSegment).1

def add (ctx : Context) (segment : Bytes) : Except LithiumError Context := do
  let segment ← validateSegment segment
  if short : (ctx.text ++ slash :: segment.1).length ≤ maxContextLen then
    return ⟨ctx.text ++ slash :: segment.1, printable_join ctx.printable segment.2, short⟩
  else throw (.invalidContext "too_long")

def label (ctx : Context) : Bytes := ctx.text ++ slash :: contextVersion

def bindAad (ctx : Context) (aad : Bytes) : Bytes :=
  ctx.label ++ if aad.isEmpty then [] else 0 :: aad

@[ext]
theorem ext {one other : Context} (same : one.text = other.text) : one = other := by
  cases one
  cases other
  cases same
  rfl

/-- A context that `add` returns holds the old text, a slash and the segment. -/
theorem text_add {ctx extended : Context} {segment : Bytes}
    (added : ctx.add segment = .ok extended) : extended.text = ctx.text ++ slash :: segment := by
  rw [add, validateSegment] at added
  split at added
  · cases added
  · split at added
    · dsimp only [bind, Except.bind] at added
      split at added
      · cases added
        rfl
      · cases added
    · cases added

theorem label_inj {one other : Context} (same : one.label = other.label) : one = other :=
  Context.ext (List.append_cancel_right same)

/-- Labels are printable, so a zero byte ends them. -/
theorem label_nonzero (ctx : Context) : ∀ byte ∈ ctx.label, byte ≠ 0 := by
  have printable : ∀ byte ∈ ctx.label, Printable byte :=
    printable_join ctx.printable (by decide)
  intro byte member zero
  have low := (printable byte member).1
  rw [zero] at low
  exact absurd low (by decide)

theorem takeWhile_bindAad (ctx : Context) (aad : Bytes) :
    (ctx.bindAad aad).takeWhile (· ≠ 0) = ctx.label := by
  have nonzero : ∀ byte ∈ ctx.label, decide (byte ≠ 0) = true := fun byte member =>
    decide_eq_true (ctx.label_nonzero byte member)
  rw [bindAad, List.takeWhile_append_of_pos nonzero]
  split <;> simp

/-- The label and the associated data can be read off a bound string. -/
theorem bindAad_inj {one other : Context} {aad aad' : Bytes}
    (same : one.bindAad aad = other.bindAad aad') : one = other ∧ aad = aad' := by
  have labels : one.label = other.label := by
    rw [← takeWhile_bindAad one aad, same, takeWhile_bindAad]
  refine ⟨label_inj labels, ?_⟩
  rw [bindAad, bindAad, labels] at same
  have rest := List.append_cancel_left same
  cases aad with
  | nil =>
    cases aad' with
    | nil => rfl
    | cons byte aad' => simp at rest
  | cons byte aad =>
    cases aad' with
    | nil => simp at rest
    | cons byte' aad' => simpa using rest

end Context
end Lithium.Crypto
