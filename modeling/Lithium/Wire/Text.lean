import Mathlib.Data.List.Basic

/-! Texts as their UTF-8 bytes. -/
namespace Lithium.Wire

def utf8 (text : String) : List UInt8 := text.toByteArray.data.toList

theorem utf8_inj {one other : String} : utf8 one = utf8 other ↔ one = other := by
  rw [utf8, utf8, Array.toList_inj, ← ByteArray.ext_iff, String.toByteArray_inj]

theorem utf8_eq_nil {text : String} : utf8 text = [] ↔ text = "" := by
  rw [← utf8_inj]
  rfl

/-- A character below 128 is its own byte. -/
theorem utf8_ofList {chars : List Char} (plain : ∀ char ∈ chars, char.toNat < 128) :
    utf8 (String.ofList chars) = chars.map fun char => UInt8.ofNat char.toNat := by
  rw [utf8, String.toByteArray_ofList, List.utf8Encode, List.toList_data_toByteArray]
  induction chars with
  | nil => rfl
  | cons char chars ih =>
    have small : char.val.toNat ≤ 127 := Nat.le_of_lt_succ (plain char List.mem_cons_self)
    have rest := ih fun other member => plain other (List.mem_cons_of_mem _ member)
    rw [List.flatMap_cons, List.map_cons, rest, String.utf8EncodeChar, if_pos small]
    rfl

end Lithium.Wire
