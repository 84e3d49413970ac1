import Lithium.Crypto.Sign
import Lithium.Hpke.Protocol
import Lithium.Keys.RecordProofs

/-! The wire forms of HPKE, and all wire forms together: each decoder inverts its encoder
and accepts exactly the strings of the right shape. -/
namespace Lithium.Hpke
open Keys (Bytes Fixed Key Nonce LithiumError u32be)
open Crypto Wire

def HpkeEnc.form : Fixed 32 × Bytes ≃ HpkeEnc where
  toFun parts := ⟨parts.1, parts.2⟩
  invFun enc := (enc.xPub, enc.kemCt)
  left_inv _ := rfl
  right_inv _ := rfl

theorem HpkeEnc.codec : Exact HpkeEnc.toWire HpkeEnc.fromWire (fun enc => enc.kemCt.length = kemCtLen)
    (fun bytes => bytes.length = x25519PubLen + kemCtLen) := by
  have split : HpkeEnc.fromWire = fun bytes => (splitFixed x25519PubLen kemCtLen bytes).map form :=
    funext (splitFixed_map x25519PubLen kemCtLen form)
  rw [split]
  exact (splitFixed_exact x25519PubLen kemCtLen).map form

def HpkePublicKey.form : Fixed 32 × Bytes ≃ HpkePublicKey where
  toFun parts := ⟨parts.1, parts.2⟩
  invFun key := (key.xPub, key.kPub)
  left_inv _ := rfl
  right_inv _ := rfl

theorem HpkePublicKey.codec : Exact HpkePublicKey.toWire HpkePublicKey.fromWire
    (fun key => key.kPub.length = mlkem1024PubLen)
    (fun bytes => bytes.length = x25519PubLen + mlkem1024PubLen) := by
  have split : HpkePublicKey.fromWire = fun bytes => (splitFixed x25519PubLen mlkem1024PubLen bytes).map form :=
    funext (splitFixed_map x25519PubLen mlkem1024PubLen form)
  rw [split]
  exact (splitFixed_exact x25519PubLen mlkem1024PubLen).map form

def HpkePrivateKey.form : Fixed 32 × Bytes ≃ HpkePrivateKey where
  toFun parts := ⟨parts.1, parts.2⟩
  invFun key := (key.xPriv, key.kPriv)
  left_inv _ := rfl
  right_inv _ := rfl

theorem HpkePrivateKey.codec : Exact HpkePrivateKey.toWire HpkePrivateKey.fromWire
    (fun key => key.kPriv.length = mlkem1024SeedLen)
    (fun bytes => bytes.length = x25519PrivLen + mlkem1024SeedLen) := by
  have split : HpkePrivateKey.fromWire = fun bytes => (splitFixed x25519PrivLen mlkem1024SeedLen bytes).map form :=
    funext (splitFixed_map x25519PrivLen mlkem1024SeedLen form)
  rw [split]
  exact (splitFixed_exact x25519PrivLen mlkem1024SeedLen).map form

namespace HpkeSealed

def fromParts (enc ciphertext : Bytes) : Except LithiumError HpkeSealed := do
  let enc ← HpkeEnc.fromWire enc
  return { enc, ciphertext }

theorem encLen_u32be {n : Nat} (small : n < 2 ^ 32) (rest : Bytes) :
    encLen (u32be n ++ rest) = n := by
  have head : (u32be n ++ rest).take 4 = u32be n := rfl
  rw [encLen, head]
  simp only [u32be, List.foldl_cons, List.foldl_nil, Nat.zero_mul, Nat.zero_add]
  exact Keys.join_u32be small

theorem u32be_encLen {bytes : Bytes} (long : 4 ≤ bytes.length) :
    u32be (encLen bytes) = bytes.take 4 := by
  match bytes, long with
  | a :: b :: c :: d :: rest, _ =>
    have sum : encLen (a :: b :: c :: d :: rest) =
        ((a.toNat * 256 + b.toNat) * 256 + c.toNat) * 256 + d.toNat := by
      simp [encLen]
    rw [sum, Keys.u32be_join]
    rfl

theorem fromWire_frame (enc : Bytes) (small : enc.length < 2 ^ 32) (ciphertext : Bytes) :
    fromWire (u32be enc.length ++ enc ++ ciphertext) = fromParts enc ciphertext := by
  have announced : encLen (u32be enc.length ++ enc ++ ciphertext) = enc.length := by
    rw [List.append_assoc, encLen_u32be small]
  have long : ¬ (u32be enc.length ++ enc ++ ciphertext).length < 4 := by
    simp only [u32be, List.length_append, List.length_cons, List.length_nil]
    omega
  have body : (u32be enc.length ++ enc ++ ciphertext).drop 4 = enc ++ ciphertext := rfl
  have enough : ¬ (enc ++ ciphertext).length < enc.length := by
    rw [List.length_append]
    omega
  rw [fromWire, if_neg long]
  simp only [body, announced, if_neg enough, List.take_left, List.drop_left]
  rfl

/-- What is accepted is a frame around an encapsulation. -/
theorem fromWire_eq_ok {bytes : Bytes} {message : HpkeSealed} (parsed : fromWire bytes = .ok message) :
    message.enc.kemCt.length = kemCtLen ∧ message.toWire = bytes := by
  rw [fromWire] at parsed
  split at parsed
  · cases parsed
  next long =>
    dsimp only at parsed
    split at parsed
    · cases parsed
    next enough =>
      obtain ⟨enc, read, done⟩ := bind_eq_ok parsed
      cases done
      have wire := HpkeEnc.codec.encode_decode _ _ read
      refine ⟨HpkeEnc.codec.valid_decode _ _ read, ?_⟩
      have announced : enc.toWire.length = encLen bytes := by
        rw [wire, List.length_take_of_le (Nat.not_lt.mp enough)]
      rw [toWire, announced, wire, u32be_encLen (Nat.not_lt.mp long), List.append_assoc,
        List.take_append_drop, List.take_append_drop]

theorem codec : Exact toWire fromWire (fun message => message.enc.kemCt.length = kemCtLen)
    (fun bytes => ∃ rest, bytes = u32be (x25519PubLen + kemCtLen) ++ rest ∧
      x25519PubLen + kemCtLen ≤ rest.length) := by
  have length {enc : HpkeEnc} (full : enc.kemCt.length = kemCtLen) :
      enc.toWire.length = x25519PubLen + kemCtLen :=
    (HpkeEnc.codec.accepts _).mp ⟨enc, HpkeEnc.codec.decode_encode enc full⟩
  constructor
  · intro message full
    rw [toWire, fromWire_frame _ (by rw [length full]; decide), fromParts,
      HpkeEnc.codec.decode_encode _ full]
    rfl
  · intro bytes message parsed
    exact (fromWire_eq_ok parsed).2
  · intro bytes message parsed
    exact (fromWire_eq_ok parsed).1
  · intro bytes
    constructor
    · rintro ⟨message, parsed⟩
      obtain ⟨full, rfl⟩ := fromWire_eq_ok parsed
      refine ⟨message.enc.toWire ++ message.ciphertext, ?_, ?_⟩
      · rw [toWire, length full, List.append_assoc]
      · rw [List.length_append, length full]
        exact Nat.le_add_right _ _
    · rintro ⟨rest, rfl, enough⟩
      have taken := List.length_take_of_le enough
      obtain ⟨enc, read⟩ := (HpkeEnc.codec.accepts _).mpr taken
      refine ⟨⟨enc, rest.drop (x25519PubLen + kemCtLen)⟩, ?_⟩
      have frame := fromWire_frame (rest.take (x25519PubLen + kemCtLen))
        (by rw [taken]; decide) (rest.drop (x25519PubLen + kemCtLen))
      rw [taken, List.append_assoc, List.take_append_drop] at frame
      rw [frame, fromParts, read]
      rfl

end HpkeSealed

/-- The wire codecs are bijections onto exactly the strings of the right shape, and a
message put together from its parts is the one its frame is parsed to. -/
theorem wire_codecs :
    Exact HpkeEnc.toWire HpkeEnc.fromWire (fun enc => enc.kemCt.length = 1570)
      (fun bytes => bytes.length = 32 + 1570) ∧
    Exact HpkeSealed.toWire HpkeSealed.fromWire (fun message => message.enc.kemCt.length = 1570)
      (fun bytes => ∃ rest, bytes = u32be 1602 ++ rest ∧ 1602 ≤ rest.length) ∧
    Exact HpkePublicKey.toWire HpkePublicKey.fromWire (fun key => key.kPub.length = 1568)
      (fun bytes => bytes.length = 32 + 1568) ∧
    Exact HpkePrivateKey.toWire HpkePrivateKey.fromWire (fun key => key.kPriv.length = 64)
      (fun bytes => bytes.length = 32 + 64) ∧
    Exact KyberBoxSealed.toWire KyberBoxSealed.fromWire (fun box => box.kemCt.length = 1570)
      (fun bytes => 32 + 1570 ≤ bytes.length) ∧
    Exact DualEncryptionPublicKey.toWire DualEncryptionPublicKey.fromWire (fun _ => True)
      (fun bytes => bytes.length = 32 + 1568) ∧
    Exact DualEncryptionPrivateKey.toWire DualEncryptionPrivateKey.fromWire (fun _ => True)
      (fun bytes => bytes.length = 32 + 64) ∧
    Exact DualSealed.toWire DualSealed.fromWire (fun message => message.inner.kemCt.length = 1570)
      (fun bytes => 32 + 1568 + (32 + 1570) ≤ bytes.length) ∧
    Exact DualVerifyingKey.toWire DualVerifyingKey.fromWire (fun key => key.mldsa87.length = 2592)
      (fun bytes => bytes.length = 32 + 2592) ∧
    Exact DoubleSig.toBytes DoubleSig.fromBytes (fun sig => sig.dili.length = 4627)
      (fun bytes => bytes.length = 64 + 4627) ∧
    ∀ enc ciphertext : Bytes, enc.length < 2 ^ 32 →
      HpkeSealed.fromParts enc ciphertext =
        HpkeSealed.fromWire (u32be enc.length ++ enc ++ ciphertext) :=
  ⟨HpkeEnc.codec, HpkeSealed.codec, HpkePublicKey.codec, HpkePrivateKey.codec, KyberBoxSealed.codec,
    DualEncryptionPublicKey.codec, DualEncryptionPrivateKey.codec, DualSealed.codec,
    DualVerifyingKey.codec, DoubleSig.codec,
    fun enc ciphertext small => (HpkeSealed.fromWire_frame enc small ciphertext).symm⟩

end Lithium.Hpke
