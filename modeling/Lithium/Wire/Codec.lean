import Mathlib.Data.List.Basic
import Mathlib.Logic.Equiv.Defs

/-! Wire codecs over arbitrary values, symbols and errors. A codec is exact if its decoder
yields exactly the well-formed values that encode to what it is given and accepts exactly
the inputs it is said to accept. Exactness is kept when the values get another form. -/
namespace Lithium.Wire

variable {α γ β ε : Type}

/-- Decoding inverts encoding on well-formed values, encoding inverts decoding, what is
decoded is well formed, and the accepted inputs are known. -/
structure Exact (encode : α → List β) (decode : List β → Except ε α) (valid : α → Prop)
    (accepted : List β → Prop) : Prop where
  decode_encode : ∀ value, valid value → decode (encode value) = .ok value
  encode_decode : ∀ input value, decode input = .ok value → encode value = input
  valid_decode : ∀ input value, decode input = .ok value → valid value
  accepts : ∀ input, (∃ value, decode input = .ok value) ↔ accepted input

section
variable {encode : α → List β} {decode : List β → Except ε α} {valid : α → Prop}
  {accepted : List β → Prop}

theorem Exact.map (exact : Exact encode decode valid accepted) (form : α ≃ γ) :
    Exact (fun value => encode (form.symm value)) (fun input => (decode input).map form)
      (fun value => valid (form.symm value)) accepted := by
  have mapped : ∀ input value, (decode input).map form = .ok value ↔
      decode input = .ok (form.symm value) := by
    intro input value
    cases decode input with
    | error error => simp [Except.map]
    | ok decoded =>
      rw [Except.map, Except.ok.injEq, Except.ok.injEq]
      exact form.eq_symm_apply.symm
  constructor
  · intro value good
    exact (mapped _ value).mpr (exact.decode_encode _ good)
  · intro input value decoded
    exact exact.encode_decode input _ ((mapped input value).mp decoded)
  · intro input value decoded
    exact exact.valid_decode input _ ((mapped input value).mp decoded)
  · intro input
    rw [← exact.accepts]
    constructor
    · rintro ⟨value, decoded⟩
      exact ⟨form.symm value, (mapped input value).mp decoded⟩
    · rintro ⟨value, decoded⟩
      refine ⟨form value, (mapped input _).mpr ?_⟩
      rw [form.symm_apply_apply, decoded]

end

theorem Exact.whole : Exact (fun input : List β => input) (fun input => (.ok input : Except ε _))
    (fun _ => True) (fun _ => True) where
  decode_encode _ _ := rfl
  encode_decode _ _ decoded := (Except.ok.inj decoded).symm
  valid_decode _ _ _ := trivial
  accepts input := ⟨fun _ => trivial, fun _ => ⟨input, rfl⟩⟩

/-- A decoder for a part of fixed length, and another one for what is behind it. -/
def decodeBoth (n : Nat) (decode : List β → Except ε α) (decode' : List β → Except ε γ)
    (input : List β) : Except ε (α × γ) := do
  let value ← decode (input.take n)
  let value' ← decode' (input.drop n)
  return (value, value')

theorem decodeBoth_eq_ok {n : Nat} {decode : List β → Except ε α} {decode' : List β → Except ε γ}
    {input : List β} {value : α} {value' : γ} :
    decodeBoth n decode decode' input = .ok (value, value') ↔
      decode (input.take n) = .ok value ∧ decode' (input.drop n) = .ok value' := by
  rw [decodeBoth]
  cases decode (input.take n) with
  | error error => simp [bind, Except.bind]
  | ok first =>
    cases decode' (input.drop n) with
    | error error => simp [bind, Except.bind]
    | ok second => simp [bind, Except.bind, pure, Except.pure]

/-- Codecs can be put behind one another if the first one is of fixed length. -/
theorem Exact.append {encode : α → List β} {decode : List β → Except ε α} {valid : α → Prop}
    {n : Nat} {encode' : γ → List β} {decode' : List β → Except ε γ} {valid' : γ → Prop}
    {accepted' : List β → Prop}
    (first : Exact encode decode valid (fun input => input.length = n))
    (second : Exact encode' decode' valid' accepted') :
    Exact (fun value => encode value.1 ++ encode' value.2) (decodeBoth n decode decode')
      (fun value => valid value.1 ∧ valid' value.2)
      (fun input => n ≤ input.length ∧ accepted' (input.drop n)) := by
  constructor
  · rintro ⟨value, value'⟩ ⟨good, good'⟩
    have decoded := first.decode_encode value good
    have fixed : (encode value).length = n := (first.accepts _).mp ⟨value, decoded⟩
    rw [decodeBoth_eq_ok, List.take_left' fixed, List.drop_left' fixed]
    exact ⟨decoded, second.decode_encode value' good'⟩
  · rintro input ⟨value, value'⟩ decoded
    obtain ⟨start, rest⟩ := decodeBoth_eq_ok.mp decoded
    show encode value ++ encode' value' = input
    rw [first.encode_decode _ _ start, second.encode_decode _ _ rest, List.take_append_drop]
  · rintro input ⟨value, value'⟩ decoded
    obtain ⟨start, rest⟩ := decodeBoth_eq_ok.mp decoded
    exact ⟨first.valid_decode _ _ start, second.valid_decode _ _ rest⟩
  · intro input
    have enough : (input.take n).length = n ↔ n ≤ input.length := by
      rw [List.length_take]
      omega
    rw [← enough, ← first.accepts, ← second.accepts]
    constructor
    · rintro ⟨⟨value, value'⟩, decoded⟩
      obtain ⟨start, rest⟩ := decodeBoth_eq_ok.mp decoded
      exact ⟨⟨value, start⟩, value', rest⟩
    · rintro ⟨⟨value, start⟩, value', rest⟩
      exact ⟨(value, value'), decodeBoth_eq_ok.mpr ⟨start, rest⟩⟩

end Lithium.Wire
