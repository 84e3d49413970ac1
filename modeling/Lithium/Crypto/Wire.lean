import Lithium.Crypto.KyberBox
import Lithium.Wire.Codec

/-! The wire forms of keys and messages. Most are an array of fixed length with the rest
behind it, which may be of fixed length too. -/
namespace Lithium.Crypto
open Keys (Bytes Fixed Key Nonce LithiumError)
open Wire (Exact)

/-- An array of `n` bytes and `m` bytes behind it, for a string of exactly that length. -/
def splitFixed (n m : Nat) (bytes : Bytes) : Except LithiumError (Fixed n × Bytes) :=
  if bytes.length ≠ n + m then .error (.invalidLength (n + m) bytes.length)
  else do
    let head ← Fixed.fromSlice n (bytes.take n)
    return (head, bytes.drop n)

theorem length_take_left {bytes : Bytes} {n m : Nat} (full : bytes.length = n + m) :
    (bytes.take n).length = n := by
  rw [List.length_take, full, Nat.min_eq_left (Nat.le_add_right n m)]

theorem length_drop_left {bytes : Bytes} {n m : Nat} (full : bytes.length = n + m) :
    (bytes.drop n).length = m := by
  rw [List.length_drop, full, Nat.add_sub_cancel_left]

theorem splitFixed_full {bytes : Bytes} {n m : Nat} (full : bytes.length = n + m) :
    splitFixed n m bytes = .ok (⟨bytes.take n, length_take_left full⟩, bytes.drop n) := by
  rw [splitFixed, if_neg (not_not.mpr full), Fixed.fromSlice_of_length (length_take_left full)]
  rfl

theorem splitFixed_wrong {bytes : Bytes} {n m : Nat} (wrong : bytes.length ≠ n + m) :
    splitFixed n m bytes = .error (.invalidLength (n + m) bytes.length) := if_pos wrong

theorem splitFixed_exact (n m : Nat) :
    Exact (fun value : Fixed n × Bytes => value.1.1 ++ value.2) (splitFixed n m)
      (fun value => value.2.length = m) (fun bytes => bytes.length = n + m) := by
  constructor
  · rintro ⟨head, rest⟩ long
    have full : (head.1 ++ rest).length = n + m := by rw [List.length_append, head.2, long]
    simp only [splitFixed_full full, List.take_left' head.2, List.drop_left' head.2]
  · intro bytes value decoded
    by_cases full : bytes.length = n + m
    · rw [splitFixed_full full] at decoded
      cases decoded
      exact List.take_append_drop n bytes
    · rw [splitFixed_wrong full] at decoded
      cases decoded
  · intro bytes value decoded
    by_cases full : bytes.length = n + m
    · rw [splitFixed_full full] at decoded
      cases decoded
      exact length_drop_left full
    · rw [splitFixed_wrong full] at decoded
      cases decoded
  · intro bytes
    by_cases full : bytes.length = n + m
    · exact ⟨fun _ => full, fun _ => ⟨_, splitFixed_full full⟩⟩
    · rw [splitFixed_wrong full]
      exact ⟨fun ⟨_, decoded⟩ => (nomatch decoded), fun right => absurd right full⟩

/-- A decoder that checks the length and takes the array off is this split, in another
form. -/
theorem splitFixed_map {α : Type} (n m : Nat) (form : Fixed n × Bytes → α) (bytes : Bytes) :
    (if bytes.length ≠ n + m then .error (.invalidLength (n + m) bytes.length)
      else do return form (← Fixed.fromSlice n (bytes.take n), bytes.drop n)) =
    (splitFixed n m bytes).map form := by
  by_cases full : bytes.length = n + m
  · rw [if_neg (not_not.mpr full), Fixed.fromSlice_of_length (length_take_left full),
      splitFixed_full full]
    rfl
  · rw [if_pos full, splitFixed_wrong full]
    rfl

def splitArrays (n m : Nat) (bytes : Bytes) : Except LithiumError (Fixed n × Fixed m) :=
  if full : bytes.length = n + m then
    .ok (⟨bytes.take n, length_take_left full⟩, ⟨bytes.drop n, length_drop_left full⟩)
  else .error (.invalidLength (n + m) bytes.length)

theorem splitArrays_full {bytes : Bytes} {n m : Nat} (full : bytes.length = n + m) :
    splitArrays n m bytes =
      .ok (⟨bytes.take n, length_take_left full⟩, ⟨bytes.drop n, length_drop_left full⟩) :=
  dif_pos full

theorem splitArrays_wrong {bytes : Bytes} {n m : Nat} (wrong : bytes.length ≠ n + m) :
    splitArrays n m bytes = .error (.invalidLength (n + m) bytes.length) := dif_neg wrong

theorem splitArrays_exact (n m : Nat) :
    Exact (fun value : Fixed n × Fixed m => value.1.1 ++ value.2.1) (splitArrays n m)
      (fun _ => True) (fun bytes => bytes.length = n + m) := by
  constructor
  · rintro ⟨head, rest⟩ -
    have full : (head.1 ++ rest.1).length = n + m := by rw [List.length_append, head.2, rest.2]
    simp only [splitArrays_full full, List.take_left' head.2, List.drop_left' head.2]
  · intro bytes value decoded
    by_cases full : bytes.length = n + m
    · rw [splitArrays_full full] at decoded
      cases decoded
      exact List.take_append_drop n bytes
    · rw [splitArrays_wrong full] at decoded
      cases decoded
  · intro bytes value decoded
    trivial
  · intro bytes
    by_cases full : bytes.length = n + m
    · exact ⟨fun _ => full, fun _ => ⟨_, splitArrays_full full⟩⟩
    · rw [splitArrays_wrong full]
      exact ⟨fun ⟨_, decoded⟩ => (nomatch decoded), fun right => absurd right full⟩

def KyberBoxSealed.form : (Fixed 32 × Bytes) × Bytes ≃ KyberBoxSealed where
  toFun parts := ⟨parts.1.1, parts.1.2, parts.2⟩
  invFun box := ((box.senderXPub, box.kemCt), box.ciphertext)
  left_inv _ := rfl
  right_inv _ := rfl

theorem KyberBoxSealed.fromWire_eq : KyberBoxSealed.fromWire = fun bytes =>
    (Wire.decodeBoth (x25519PubLen + kemCtLen) (splitFixed x25519PubLen kemCtLen) .ok bytes).map
      form := by
  funext bytes
  rw [fromWire, Wire.decodeBoth]
  by_cases short : bytes.length < x25519PubLen + kemCtLen
  · have cut : bytes.take (x25519PubLen + kemCtLen) = bytes :=
      List.take_of_length_le (Nat.le_of_lt short)
    rw [if_pos short, cut, splitFixed_wrong (Nat.ne_of_lt short)]
    rfl
  · have full : (bytes.take (x25519PubLen + kemCtLen)).length = x25519PubLen + kemCtLen :=
      List.length_take_of_le (Nat.not_lt.mp short)
    have start : (bytes.take x25519PubLen).length = 32 :=
      List.length_take_of_le ((Nat.le_add_right _ _).trans (Nat.not_lt.mp short))
    have cut : (bytes.take (x25519PubLen + kemCtLen)).take x25519PubLen = bytes.take x25519PubLen := by
      rw [List.take_take, Nat.min_eq_left (Nat.le_add_right _ _)]
    simp only [if_neg short, splitFixed_full full, Fixed.fromSlice_of_length start, cut]
    rfl

theorem KyberBoxSealed.codec : Exact KyberBoxSealed.toWire KyberBoxSealed.fromWire
    (fun box => box.kemCt.length = kemCtLen)
    (fun bytes => x25519PubLen + kemCtLen ≤ bytes.length) := by
  have exact := ((splitFixed_exact x25519PubLen kemCtLen).append .whole).map KyberBoxSealed.form
  simp only [and_true] at exact
  rw [KyberBoxSealed.fromWire_eq]
  exact exact

def DualEncryptionPublicKey.form : Fixed 32 × Fixed 1568 ≃ DualEncryptionPublicKey where
  toFun parts := ⟨parts.1, parts.2⟩
  invFun key := (key.x25519, key.mlkem1024)
  left_inv _ := rfl
  right_inv _ := rfl

theorem DualEncryptionPublicKey.fromWire_eq : DualEncryptionPublicKey.fromWire = fun bytes =>
    (splitArrays 32 1568 bytes).map form := by
  funext bytes
  by_cases full : bytes.length = dualEncPubLen
  · have parts : bytes.length = 32 + 1568 := full
    have start : (bytes.take x25519PubLen).length = 32 := length_take_left parts
    rw [fromWire, dif_pos full, Fixed.fromSlice_of_length start, splitArrays_full parts]
    rfl
  · have wrong : bytes.length ≠ 32 + 1568 := full
    rw [fromWire, dif_neg full, splitArrays_wrong wrong]
    rfl

theorem DualEncryptionPublicKey.codec : Exact DualEncryptionPublicKey.toWire
    DualEncryptionPublicKey.fromWire (fun _ => True) (fun bytes => bytes.length = dualEncPubLen) := by
  rw [DualEncryptionPublicKey.fromWire_eq]
  exact (splitArrays_exact 32 1568).map DualEncryptionPublicKey.form

def DualEncryptionPrivateKey.form : Fixed 32 × Fixed 64 ≃ DualEncryptionPrivateKey where
  toFun parts := ⟨parts.1, parts.2⟩
  invFun key := (key.x25519, key.mlkem1024)
  left_inv _ := rfl
  right_inv _ := rfl

theorem DualEncryptionPrivateKey.fromWire_eq : DualEncryptionPrivateKey.fromWire = fun bytes =>
    (splitArrays 32 64 bytes).map form := by
  funext bytes
  by_cases full : bytes.length = dualEncPrivLen
  · have parts : bytes.length = 32 + 64 := full
    rw [fromWire, if_neg (not_not.mpr full), Fixed.fromSlice_of_length (length_take_left parts),
      Fixed.fromSlice_of_length (length_drop_left parts), splitArrays_full parts]
    rfl
  · have wrong : bytes.length ≠ 32 + 64 := full
    rw [fromWire, if_pos full, splitArrays_wrong wrong]
    rfl

theorem DualEncryptionPrivateKey.codec : Exact DualEncryptionPrivateKey.toWire
    DualEncryptionPrivateKey.fromWire (fun _ => True) (fun bytes => bytes.length = dualEncPrivLen) := by
  rw [DualEncryptionPrivateKey.fromWire_eq]
  exact (splitArrays_exact 32 64).map DualEncryptionPrivateKey.form

def DualSealed.form : DualEncryptionPublicKey × KyberBoxSealed ≃ DualSealed where
  toFun parts := ⟨parts.1, parts.2⟩
  invFun message := (message.replyPub, message.inner)
  left_inv _ := rfl
  right_inv _ := rfl

theorem DualSealed.fromWire_eq : DualSealed.fromWire = fun bytes =>
    (Wire.decodeBoth dualEncPubLen DualEncryptionPublicKey.fromWire KyberBoxSealed.fromWire
      bytes).map form := by
  funext bytes
  rw [fromWire, Wire.decodeBoth]
  by_cases short : bytes.length < dualEncPubLen
  · have cut : bytes.take dualEncPubLen = bytes := List.take_of_length_le (Nat.le_of_lt short)
    rw [if_pos short, cut, DualEncryptionPublicKey.fromWire, dif_neg (Nat.ne_of_lt short)]
    rfl
  · rw [if_neg short]
    cases DualEncryptionPublicKey.fromWire (bytes.take dualEncPubLen) with
    | error error => rfl
    | ok replyPub => cases KyberBoxSealed.fromWire (bytes.drop dualEncPubLen) <;> rfl

theorem DualSealed.codec : Exact DualSealed.toWire DualSealed.fromWire
    (fun message => message.inner.kemCt.length = kemCtLen)
    (fun bytes => dualEncPubLen + (x25519PubLen + kemCtLen) ≤ bytes.length) := by
  have exact := (DualEncryptionPublicKey.codec.append KyberBoxSealed.codec).map DualSealed.form
  have reach : ∀ bytes : Bytes, dualEncPubLen ≤ bytes.length ∧
      x25519PubLen + kemCtLen ≤ (bytes.drop dualEncPubLen).length ↔
      dualEncPubLen + (x25519PubLen + kemCtLen) ≤ bytes.length := by
    intro bytes
    rw [List.length_drop]
    omega
  simp only [true_and, reach] at exact
  rw [DualSealed.fromWire_eq]
  exact exact

theorem DualEncryptionPublicKey.length_toWire (key : DualEncryptionPublicKey) :
    key.toWire.length = dualEncPubLen :=
  (codec.accepts _).mp ⟨key, codec.decode_encode key trivial⟩

theorem DualEncryptionPublicKey.toWire_inj {one other : DualEncryptionPublicKey}
    (same : one.toWire = other.toWire) : one = other := by
  have decoded := codec.decode_encode one trivial
  rw [same, codec.decode_encode other trivial] at decoded
  exact (Except.ok.inj decoded).symm

end Lithium.Crypto
