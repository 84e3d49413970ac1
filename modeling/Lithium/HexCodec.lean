import Lithium.Keys.Primitives
import Lithium.Wire.Text

/-! Hexadecimal texts (`hexcodec.rs`). Both decoders check a text before they hand it to the
`hex` crate, whose `decode_to_slice` is a parameter; with it they accept exactly the texts
that `hex::encode` writes. -/
namespace Lithium.HexCodec
open Keys (Bytes Fixed LithiumError)
open Wire (utf8 utf8_inj utf8_ofList)

/-- `hex::decode_to_slice`: whether it succeeded, and the destination after it. -/
abbrev DecodeToSlice := (data : Bytes) → {n : Nat} → (dst : Fixed n) → Bool × Fixed n

/-- `decode_to_slice` inverts `encode`. -/
def Inverts (decodeToSlice : DecodeToSlice) : Prop :=
  ∀ (bytes : Bytes) {n : Nat} (fits : bytes.length = n) (dst : Fixed n),
    decodeToSlice (utf8 (Keys.hexEncode bytes)) dst = (true, ⟨bytes, fits⟩)

def rejectPrefix (s : String) : Except LithiumError Unit :=
  -- "0x" and "0X"
  if [0x30, 0x78].isPrefixOf (utf8 s) || [0x30, 0x58].isPrefixOf (utf8 s) then
    .error .hexDisallowedPrefix
  else .ok ()

/-- The bytes of `0` to `9` and `a` to `f`. -/
def LowerHex (byte : UInt8) : Prop := 0x30 ≤ byte ∧ byte ≤ 0x39 ∨ 0x61 ≤ byte ∧ byte ≤ 0x66

instance (byte : UInt8) : Decidable (LowerHex byte) :=
  inferInstanceAs (Decidable (_ ∧ _ ∨ _ ∧ _))

def validateByte (byte : UInt8) : Except LithiumError Unit :=
  if LowerHex byte then .ok ()
  else if 0x41 ≤ byte ∧ byte ≤ 0x46 then .error .hexMustBeLowercase
  else .error .invalidHex

def validateCharset (s : String) : Except LithiumError Unit := forM (utf8 s) validateByte

section
variable (decodeToSlice : DecodeToSlice)

/-- `decode_into`, with the destination as its state. -/
def decodeInto {n : Nat} (s : String) : EStateM LithiumError (Fixed n) Unit := do
  ofExcept (rejectPrefix s)
  if (utf8 s).length ≠ 2 * n then throw (.invalidHexLength (2 * n) (utf8 s).length)
  ofExcept (validateCharset s)
  let result := decodeToSlice (utf8 s) (← get)
  set result.2
  if !result.1 then throw .invalidHex

def decodeVec (s : String) : Except LithiumError Bytes := do
  rejectPrefix s
  if (utf8 s).length % 2 ≠ 0 then
    throw (.invalidHexLength ((utf8 s).length + 1) (utf8 s).length)
  validateCharset s
  let zeroed : Fixed ((utf8 s).length / 2) :=
    ⟨List.replicate ((utf8 s).length / 2) 0, List.length_replicate⟩
  let result := decodeToSlice (utf8 s) zeroed
  if result.1 then return result.2.1 else throw .invalidHex

/-- `SecretFixedBytes::from_hex`. -/
def fixedFromHex (n : Nat) (s : String) : Except LithiumError (Fixed n) :=
  match decodeInto decodeToSlice s ⟨List.replicate n 0, List.length_replicate⟩ with
  | .ok _ out => .ok out
  | .error error _ => .error error

/-- `PublicBytes::from_hex`. -/
def publicFromHex (s : String) : Except LithiumError Bytes := decodeVec decodeToSlice s

end

def digitByte (n : Nat) : UInt8 := UInt8.ofNat (Keys.hexDigit n).toNat

def digitBytes (bytes : Bytes) : Bytes :=
  bytes.flatMap fun byte => [digitByte (byte.toNat / 16), digitByte (byte.toNat % 16)]

theorem digitByte_eq {n : Nat} (small : n < 16) :
    digitByte n = UInt8.ofNat (if n < 10 then 0x30 + n else 0x57 + n) := by
  have table : ∀ n : Fin 16, digitByte n = UInt8.ofNat (if n.val < 10 then 0x30 + n else 0x57 + n) := by
    decide
  exact table ⟨n, small⟩

theorem hexDigit_lower {n : Nat} (small : n < 16) : LowerHex (digitByte n) := by
  have table : ∀ n : Fin 16, LowerHex (digitByte n) := by decide
  exact table ⟨n, small⟩

theorem exists_hexDigit {byte : UInt8} (lower : LowerHex byte) :
    ∃ n < 16, digitByte n = byte := by
  rcases lower with ⟨low, high⟩ | ⟨low, high⟩
  · rw [UInt8.le_iff_toNat_le] at low high
    simp only [UInt8.reduceToNat] at low high
    refine ⟨byte.toNat - 0x30, by omega, ?_⟩
    rw [digitByte_eq (by omega), if_pos (by omega), Nat.add_sub_cancel' low, UInt8.ofNat_toNat]
  · rw [UInt8.le_iff_toNat_le] at low high
    simp only [UInt8.reduceToNat] at low high
    refine ⟨byte.toNat - 0x57, by omega, ?_⟩
    rw [digitByte_eq (by omega), if_neg (by omega), Nat.add_sub_cancel' (by omega), UInt8.ofNat_toNat]

theorem hexDigit_plain {n : Nat} (small : n < 16) : (Keys.hexDigit n).toNat < 128 := by
  have table : ∀ n : Fin 16, (Keys.hexDigit n).toNat < 128 := by decide
  exact table ⟨n, small⟩

theorem halves_small (byte : UInt8) : byte.toNat / 16 < 16 ∧ byte.toNat % 16 < 16 := by
  have bound := byte.toNat_lt
  omega

/-- The text of `hex::encode` and its bytes. -/
theorem utf8_hexEncode (bytes : Bytes) : utf8 (Keys.hexEncode bytes) = digitBytes bytes := by
  rw [Keys.hexEncode, utf8_ofList]
  · rw [List.map_flatMap]
    rfl
  · intro char member
    obtain ⟨byte, -, digit⟩ := List.mem_flatMap.mp member
    obtain ⟨high, low⟩ := halves_small byte
    rcases List.mem_pair.mp digit with rfl | rfl
    · exact hexDigit_plain high
    · exact hexDigit_plain low

theorem length_hexEncode (bytes : Bytes) : (digitBytes bytes).length = 2 * bytes.length := by
  induction bytes with
  | nil => rfl
  | cons byte bytes ih =>
    simp only [digitBytes, List.flatMap_cons, List.length_append, List.length_cons,
      List.length_nil] at ih ⊢
    omega

theorem hexEncode_lower (bytes : Bytes) : ∀ byte ∈ digitBytes bytes, LowerHex byte := by
  intro digit member
  obtain ⟨byte, -, digit⟩ := List.mem_flatMap.mp member
  obtain ⟨high, low⟩ := halves_small byte
  rcases List.mem_pair.mp digit with rfl | rfl
  · exact hexDigit_lower high
  · exact hexDigit_lower low

theorem hexEncode_pair {high low : Nat} (highSmall : high < 16) (lowSmall : low < 16)
    (bytes : Bytes) :
    digitBytes (UInt8.ofNat (16 * high + low) :: bytes) =
      digitByte high :: digitByte low :: digitBytes bytes := by
  have value : (UInt8.ofNat (16 * high + low)).toNat = 16 * high + low :=
    Nat.mod_eq_of_lt (by omega)
  have upper : (16 * high + low) / 16 = high := by omega
  have lower : (16 * high + low) % 16 = low := by omega
  rw [digitBytes, List.flatMap_cons, value, upper, lower]
  rfl

theorem exists_hexEncode (count : Nat) : ∀ digits : Bytes, digits.length = 2 * count →
    (∀ byte ∈ digits, LowerHex byte) → ∃ bytes, digitBytes bytes = digits := by
  induction count with
  | zero =>
    intro digits even _
    exact ⟨[], (List.length_eq_zero_iff.mp even).symm⟩
  | succ count ih =>
    intro digits even lower
    obtain ⟨first, digits, rfl⟩ := List.exists_cons_of_length_eq_add_one even
    obtain ⟨second, digits, rfl⟩ :=
      List.exists_cons_of_length_eq_add_one (n := 2 * count) (Nat.succ.inj even)
    simp only [List.forall_mem_cons] at lower
    obtain ⟨high, highSmall, rfl⟩ := exists_hexDigit lower.1
    obtain ⟨low, lowSmall, rfl⟩ := exists_hexDigit lower.2.1
    obtain ⟨bytes, rfl⟩ := ih digits (by simp only [List.length_cons] at even; omega) lower.2.2
    exact ⟨_, hexEncode_pair highSmall lowSmall bytes⟩

theorem validateByte_eq_ok {byte : UInt8} : validateByte byte = .ok () ↔ LowerHex byte := by
  rw [validateByte]
  split
  · simp [*]
  · split <;> simp [*]

theorem validateCharset_eq_ok {s : String} :
    validateCharset s = .ok () ↔ ∀ byte ∈ utf8 s, LowerHex byte := by
  rw [validateCharset]
  induction utf8 s with
  | nil => simp [pure, Except.pure]
  | cons byte bytes ih =>
    rw [List.forM_cons, List.forall_mem_cons, ← ih, ← validateByte_eq_ok]
    cases validateByte byte with
    | error error => simp [bind, Except.bind]
    | ok done => simp [bind, Except.bind]

/-- A text without prefix, of even length and over the lower-case digits is the text of some
bytes. -/
theorem passes_iff {s : String} :
    (rejectPrefix s = .ok () ∧ (utf8 s).length % 2 = 0 ∧ validateCharset s = .ok ()) ↔
      ∃ bytes, s = Keys.hexEncode bytes := by
  rw [validateCharset_eq_ok]
  constructor
  · rintro ⟨-, even, lower⟩
    obtain ⟨bytes, encoded⟩ := exists_hexEncode ((utf8 s).length / 2) (utf8 s) (by omega) lower
    refine ⟨bytes, utf8_inj.mp ?_⟩
    rw [utf8_hexEncode, encoded]
  · rintro ⟨bytes, rfl⟩
    rw [rejectPrefix, utf8_hexEncode, length_hexEncode]
    refine ⟨?_, by omega, hexEncode_lower bytes⟩
    -- neither `x` nor `X` is a digit
    cases bytes with
    | nil => rfl
    | cons byte bytes =>
      have second := hexDigit_lower (halves_small byte).2
      have noX : digitByte (byte.toNat % 16) ≠ 0x78 := by
        intro same
        rw [same] at second
        exact absurd second (by decide)
      have noBigX : digitByte (byte.toNat % 16) ≠ 0x58 := by
        intro same
        rw [same] at second
        exact absurd second (by decide)
      simp [digitBytes, noX.symm, noBigX.symm]

theorem decodeVec_passes {decodeToSlice : DecodeToSlice} {s : String} {bytes : Bytes}
    (decoded : decodeVec decodeToSlice s = .ok bytes) : ∃ bytes, s = Keys.hexEncode bytes := by
  rw [decodeVec] at decoded
  apply passes_iff.mp
  cases unprefixed : rejectPrefix s with
  | error error => rw [unprefixed] at decoded; cases decoded
  | ok done =>
    rw [unprefixed] at decoded
    by_cases even : (utf8 s).length % 2 = 0
    · rw [if_neg (not_not.mpr even)] at decoded
      cases lower : validateCharset s with
      | error error => rw [lower] at decoded; cases decoded
      | ok done => exact ⟨rfl, even, rfl⟩
    · rw [if_pos even] at decoded
      cases decoded

theorem decodeInto_passes {decodeToSlice : DecodeToSlice} {n : Nat} {s : String}
    {dst after : Fixed n} (decoded : decodeInto decodeToSlice s dst = .ok () after) :
    ∃ bytes, bytes.length = n ∧ s = Keys.hexEncode bytes := by
  rw [decodeInto] at decoded
  cases unprefixed : rejectPrefix s with
  | error error => rw [unprefixed] at decoded; cases decoded
  | ok done =>
    rw [unprefixed] at decoded
    by_cases long : (utf8 s).length = 2 * n
    · rw [if_neg (not_not.mpr long)] at decoded
      cases lower : validateCharset s with
      | error error => rw [lower] at decoded; cases decoded
      | ok done =>
        obtain ⟨bytes, rfl⟩ := passes_iff.mp ⟨unprefixed, by omega, lower⟩
        rw [utf8_hexEncode, length_hexEncode] at long
        exact ⟨bytes, by omega, rfl⟩
    · rw [if_pos long] at decoded
      cases decoded

section
variable {decodeToSlice : DecodeToSlice} (inverts : Inverts decodeToSlice)
include inverts

theorem decodeVec_hexEncode (bytes : Bytes) :
    decodeVec decodeToSlice (Keys.hexEncode bytes) = .ok bytes := by
  obtain ⟨unprefixed, even, lower⟩ := passes_iff.mpr ⟨bytes, rfl⟩
  have half : bytes.length = (utf8 (Keys.hexEncode bytes)).length / 2 := by
    rw [utf8_hexEncode, length_hexEncode]
    omega
  rw [decodeVec, unprefixed, lower, if_neg (not_not.mpr even)]
  simp only [inverts bytes half]
  rfl

theorem decodeVec_eq_ok {s : String} {bytes : Bytes} :
    decodeVec decodeToSlice s = .ok bytes ↔ s = Keys.hexEncode bytes := by
  constructor
  · intro decoded
    obtain ⟨written, rfl⟩ := decodeVec_passes decoded
    rw [decodeVec_hexEncode inverts] at decoded
    rw [Except.ok.inj decoded]
  · rintro rfl
    exact decodeVec_hexEncode inverts bytes

theorem decodeInto_hexEncode {n : Nat} {bytes : Bytes} (fits : bytes.length = n) (dst : Fixed n) :
    decodeInto decodeToSlice (Keys.hexEncode bytes) dst = .ok () ⟨bytes, fits⟩ := by
  obtain ⟨unprefixed, -, lower⟩ := passes_iff.mpr ⟨bytes, rfl⟩
  have long : (utf8 (Keys.hexEncode bytes)).length = 2 * n := by
    rw [utf8_hexEncode, length_hexEncode, fits]
  rw [decodeInto, unprefixed, lower, if_neg (not_not.mpr long)]
  change (if !(decodeToSlice (utf8 (Keys.hexEncode bytes)) dst).1 then
      (throw LithiumError.invalidHex : EStateM LithiumError (Fixed n) Unit) else pure ())
    (decodeToSlice (utf8 (Keys.hexEncode bytes)) dst).2 = _
  rw [inverts bytes fits dst]
  rfl

theorem decodeInto_eq_ok {n : Nat} {s : String} {dst after : Fixed n} :
    decodeInto decodeToSlice s dst = .ok () after ↔ s = Keys.hexEncode after.1 := by
  constructor
  · intro decoded
    obtain ⟨bytes, fits, rfl⟩ := decodeInto_passes decoded
    rw [decodeInto_hexEncode inverts fits] at decoded
    cases decoded
    rfl
  · rintro rfl
    exact decodeInto_hexEncode inverts after.2 dst

end

/-- `decode_vec` accepts exactly the lower-case texts that `hex::encode` writes and returns
their bytes; `decode_into` accepts those whose bytes fill the destination, and writes them. So do
the two `from_hex` that call them. -/
theorem hex_codec {decodeToSlice : DecodeToSlice} (inverts : Inverts decodeToSlice) (s : String) :
    (∀ bytes, decodeVec decodeToSlice s = .ok bytes ↔ s = Keys.hexEncode bytes) ∧
    (∀ (n : Nat) (dst after : Fixed n), decodeInto decodeToSlice s dst = .ok () after ↔
      decodeVec decodeToSlice s = .ok after.1) ∧
    (∀ (n : Nat) (value : Fixed n), fixedFromHex decodeToSlice n s = .ok value ↔
      s = Keys.hexEncode value.1) ∧
    ∀ bytes, publicFromHex decodeToSlice s = .ok bytes ↔ s = Keys.hexEncode bytes := by
  refine ⟨fun bytes => decodeVec_eq_ok inverts, fun n dst after => ?_, fun n value => ?_,
    fun bytes => decodeVec_eq_ok inverts⟩
  · rw [decodeVec_eq_ok inverts]
    exact decodeInto_eq_ok inverts
  · rw [fixedFromHex, ← decodeInto_eq_ok inverts]
    cases decodeInto decodeToSlice s (⟨List.replicate n 0, List.length_replicate⟩ : Fixed n) with
    | ok done after => simp
    | error error after => simp

def digitValue (digit : UInt8) : Option Nat :=
  if 0x41 ≤ digit ∧ digit ≤ 0x46 then some (digit.toNat - 0x37)
  else if 0x61 ≤ digit ∧ digit ≤ 0x66 then some (digit.toNat - 0x57)
  else if 0x30 ≤ digit ∧ digit ≤ 0x39 then some (digit.toNat - 0x30)
  else none

def decodePairs : Bytes → Option Bytes
  | [] => some []
  | [_] => none
  | high :: low :: digits => do
    let byte := UInt8.ofNat (16 * (← digitValue high) + (← digitValue low))
    return byte :: (← decodePairs digits)

/-- A decoder as the crate has it, up to what a failure leaves in the destination. -/
def decodeDigits : DecodeToSlice := fun data n dst =>
  match decodePairs data with
  | none => (false, dst)
  | some bytes => if fits : bytes.length = n then (true, ⟨bytes, fits⟩) else (false, dst)

theorem digitValue_hexDigit {n : Nat} (small : n < 16) :
    digitValue (digitByte n) = some n := by
  have table : ∀ n : Fin 16, digitValue (digitByte n) = some n.val := by decide
  exact table ⟨n, small⟩

theorem decodePairs_hexEncode (bytes : Bytes) :
    decodePairs (digitBytes bytes) = some bytes := by
  induction bytes with
  | nil => rfl
  | cons byte bytes ih =>
    obtain ⟨high, low⟩ := halves_small byte
    have whole : 16 * (byte.toNat / 16) + byte.toNat % 16 = byte.toNat := by omega
    have pair : digitBytes (byte :: bytes) = digitByte (byte.toNat / 16) ::
        digitByte (byte.toNat % 16) :: digitBytes bytes := rfl
    rw [pair, decodePairs, digitValue_hexDigit high, digitValue_hexDigit low, ih]
    change some (UInt8.ofNat (16 * (byte.toNat / 16) + byte.toNat % 16) :: bytes) = _
    rw [whole, UInt8.ofNat_toNat]

theorem hexEncode_inj {one other : Bytes} (same : Keys.hexEncode one = Keys.hexEncode other) :
    one = other := by
  have texts : digitBytes one = digitBytes other := by rw [← utf8_hexEncode, same, utf8_hexEncode]
  exact Option.some.inj (by rw [← decodePairs_hexEncode, texts, decodePairs_hexEncode])

theorem decodeDigits_inverts : Inverts decodeDigits := by
  intro bytes n fits dst
  rw [decodeDigits, utf8_hexEncode, decodePairs_hexEncode]
  exact dif_pos fits

theorem hex_codec_sample :
    decodeVec decodeDigits "00ff" = .ok [0, 255] ∧
    decodeInto decodeDigits "00ff" (⟨[7, 7], rfl⟩ : Fixed 2) = .ok () ⟨[0, 255], rfl⟩ := by
  have accepted : decodeVec decodeDigits "00ff" = .ok [0, 255] :=
    ((hex_codec decodeDigits_inverts "00ff").1 [0, 255]).mpr (by decide +kernel)
  exact ⟨accepted, ((hex_codec decodeDigits_inverts "00ff").2.1 2 _ _).mpr accepted⟩

end Lithium.HexCodec
