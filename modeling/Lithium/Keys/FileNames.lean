import Lithium.Keys.Manager

/-! The names of the keyfiles as the file system has them. A label is recovered from the name
of its file by undoing what the source does: taking the stem off the extension and reading
the hexadecimal digits. -/
namespace Lithium.Keys

def hexAlphabet : List Char := "0123456789abcdef".toList

theorem hexDigit_mem (n : Nat) : hexDigit n ∈ hexAlphabet := by
  unfold hexDigit
  rw [List.getD_eq_getElem?_getD]
  cases found : "0123456789abcdef".toList[n]? with
  | none => decide
  | some c => exact List.mem_of_getElem? found

theorem hexDigit_inj {m n : Nat} (left : m < 16) (right : n < 16)
    (same : hexDigit m = hexDigit n) : m = n := by
  have all : ∀ a b : Fin 16, hexDigit a = hexDigit b → a = b := by decide +kernel
  exact congrArg Fin.val (all ⟨m, left⟩ ⟨n, right⟩ same)

theorem hexAlphabet_plain : ∀ c ∈ hexAlphabet, c ≠ '.' ∧ c.toLower = c := by
  have checked : hexAlphabet.all (fun c => c ≠ '.' && c.toLower = c) = true := by decide +kernel
  simpa [List.all_eq_true] using checked

theorem toList_hexEncode (bytes : Bytes) : (hexEncode bytes).toList =
    bytes.flatMap fun b => [hexDigit (b.toNat / 16), hexDigit (b.toNat % 16)] := by
  simp [hexEncode]

theorem mem_hexEncode {bytes : Bytes} {c : Char} (member : c ∈ (hexEncode bytes).toList) :
    c ∈ hexAlphabet := by
  rw [toList_hexEncode, List.mem_flatMap] at member
  obtain ⟨b, _, digit⟩ := member
  rcases List.mem_pair.mp digit with rfl | rfl
  · exact hexDigit_mem _
  · exact hexDigit_mem _

theorem hexEncode_injective {one other : Bytes} (same : hexEncode one = hexEncode other) :
    one = other := by
  have digits := congrArg String.toList same
  rw [toList_hexEncode, toList_hexEncode] at digits
  clear same
  induction one generalizing other with
  | nil =>
    cases other with
    | nil => rfl
    | cons b rest => cases digits
  | cons a one ih =>
    cases other with
    | nil => cases digits
    | cons b other =>
      simp only [List.flatMap_cons, List.cons_append, List.nil_append, List.cons.injEq] at digits
      obtain ⟨high, low, rest⟩ := digits
      have small := a.toNat_lt
      have small' := b.toNat_lt
      have highs := hexDigit_inj (by omega) (by omega) high
      have lows := hexDigit_inj (by omega) (by omega) low
      have value : a.toNat = b.toNat := by omega
      rw [UInt8.toNat_inj.mp value, ih rest]

theorem digitChar_plain {n : Nat} (small : n < 16) : Nat.digitChar n ≠ '.' := by
  have all : ∀ a : Fin 16, Nat.digitChar a ≠ '.' := by decide
  exact all ⟨n, small⟩

theorem not_mem_hexNat (n : Nat) : '.' ∉ (hexNat n).toList := by
  simp only [hexNat, String.toList_ofList]
  induction n using Nat.strongRecOn with
  | ind n ih =>
    by_cases small : n < 16
    · rw [Nat.toDigits_of_lt_base small, List.mem_singleton]
      exact (digitChar_plain small).symm
    · rw [Nat.toDigits_of_base_le (by decide) (Nat.not_lt.mp small), List.mem_append, List.mem_singleton]
      rintro (earlier | last)
      · exact ih (n / 16) (by omega) earlier
      · exact digitChar_plain (Nat.mod_lt n (by decide)) last.symm

def fixedKeyTypes : List String := [ktEdSeed, ktDiliSeed, ktRotateNextOld, ktRotateNextNew]

theorem labelKeyType_injective {one other : Bytes} (same : labelKeyType one = labelKeyType other) :
    one = other := by
  have digits := congrArg String.toList same
  simp only [labelKeyType, labelHex, String.toList_append, List.append_cancel_left_eq] at digits
  exact hexEncode_injective (String.toList_inj.mp digits)

theorem labelKeyType_not_fixed (label : Bytes) : labelKeyType label ∉ fixedKeyTypes := by
  intro member
  have start : (labelKeyType label).toList.head? = some 's' := by
    rw [labelKeyType, String.toList_append]
    rfl
  have others : ∀ keyType ∈ fixedKeyTypes, keyType.toList.head? ≠ some 's' := by decide +kernel
  exact others _ member start

def labelFileName (label : Bytes) : String := (keyf (labelHex label)).render

theorem labelFileName_eq (label : Bytes) : labelFileName label = labelHex label ++ "." ++ "keyf" := rfl

/-- The name is its own lower case, so that names differ on any file system. -/
theorem toLower_labelFileName (label : Bytes) : (labelFileName label).toLower = labelFileName label := by
  apply String.toList_inj.mp
  change ((labelFileName label).map Char.toLower).toList = _
  rw [String.toList_map, labelFileName_eq, String.toList_append, String.toList_append,
    List.map_append, List.map_append]
  have digits : (labelHex label).toList.map Char.toLower = (labelHex label).toList := by
    unfold labelHex
    rw [List.map_congr_left fun c member => (hexAlphabet_plain c (mem_hexEncode member)).2]
    exact List.map_id' _
  rw [digits]
  rfl

theorem labelFileName_injective {one other : Bytes}
    (same : (labelFileName one).toLower = (labelFileName other).toLower) : one = other := by
  rw [toLower_labelFileName, toLower_labelFileName] at same
  have digits := congrArg String.toList same
  simp only [labelFileName_eq, labelHex, String.toList_append, List.append_cancel_right_eq] at digits
  exact hexEncode_injective (String.toList_inj.mp digits)

/-- `Path::file_stem` and `Path::extension` of a name: the parts around its last dot. A name
without a dot, or whose only dot comes first, is all stem. -/
def nameParts (name : String) : String × Option String :=
  let after := (name.toList.reverse.takeWhile (· ≠ '.')).reverse
  let before := ((name.toList.reverse.dropWhile (· ≠ '.')).drop 1).reverse
  if before = [] then (name, none) else (String.ofList before, some (String.ofList after))

theorem nameParts_joined {stem ext : String} (named : stem ≠ "") (plain : '.' ∉ ext.toList) :
    nameParts (stem ++ "." ++ ext) = (stem, some ext) := by
  have reversed : (stem ++ "." ++ ext).toList.reverse =
      ext.toList.reverse ++ '.' :: stem.toList.reverse := by
    simp
  have all : ∀ c ∈ ext.toList.reverse, decide (c ≠ '.') = true := by
    intro c member
    rw [decide_eq_true_eq]
    rintro rfl
    exact plain (List.mem_reverse.mp member)
  have nonempty : stem.toList ≠ [] := by
    intro empty
    exact named (String.toList_eq_nil_iff.mp empty)
  simp only [nameParts, reversed, List.takeWhile_append_of_pos all, List.dropWhile_append_of_pos all]
  simp [nonempty]

def tmpExtension (pid seq : Nat) (suffix : Fixed 8) : String :=
  "tmp-" ++ hexNat pid ++ "-" ++ hexNat seq ++ "-" ++ hexEncode suffix.1

theorem labelHex_ne_empty {label : Bytes} (named : label ≠ []) : labelHex label ≠ "" := by
  intro empty
  exact named (hexEncode_injective (empty.trans (by rfl : "" = hexEncode [])))

theorem not_mem_tmpExtension (pid seq : Nat) (suffix : Fixed 8) :
    '.' ∉ (tmpExtension pid seq suffix).toList := by
  have digits : '.' ∉ (hexEncode suffix.1).toList := by
    intro member
    exact (hexAlphabet_plain _ (mem_hexEncode member)).1 rfl
  simp [tmpExtension, not_mem_hexNat, digits]

theorem nameParts_label {label : Bytes} (named : label ≠ []) :
    nameParts (labelFileName label) = (labelHex label, some "keyf") :=
  nameParts_joined (labelHex_ne_empty named) (by decide)

/-- The temp files of a label's file are told from it by their extension. -/
theorem nameParts_tmp {label : Bytes} (named : label ≠ []) (pid seq : Nat) (suffix : Fixed 8) :
    nameParts (FileName.render ⟨labelHex label, .tmp pid seq suffix⟩) =
      (labelHex label, some (tmpExtension pid seq suffix)) ∧ tmpExtension pid seq suffix ≠ "keyf" := by
  constructor
  · have joined : FileName.render ⟨labelHex label, .tmp pid seq suffix⟩ =
        labelHex label ++ "." ++ tmpExtension pid seq suffix := by
      apply String.toList_inj.mp
      simp [FileName.render, tmpExtension]
    rw [joined]
    exact nameParts_joined (labelHex_ne_empty named) (not_mem_tmpExtension pid seq suffix)
  · intro same
    have first := congrArg (fun name => name.toList.head?) same
    simp [tmpExtension] at first

end Lithium.Keys
