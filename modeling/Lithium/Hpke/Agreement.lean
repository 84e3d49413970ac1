import Lithium.Crypto.Boxes
import Lithium.Crypto.Sample
import Lithium.Hpke.Wire

/-! The two sides of HPKE agree: the receiver decapsulates the sender's shared secret, so
everything scheduled from it is the same on both sides, in each of the three modes and
after the keys and messages went through their wire forms. -/
namespace Lithium.Hpke
open Keys (Bytes Fixed Key Nonce LithiumError u32be)
open Crypto

section
variable {X : Suite} {ctx : Context} {sk : HpkePrivateKey} {pk : HpkePublicKey}

def Paired (X : Suite) (sk : HpkePrivateKey) (pk : HpkePublicKey) : Prop :=
  ∃ seed : Fixed 64, sk.kPriv = seed.1 ∧ pk.xPub = X.x25519Pub sk.xPriv ∧
    pk.kPub = (X.mlkemPub seed).1

theorem deriveKeypair_paired {ikm : Bytes} (derived : deriveKeypair X ctx ikm = .ok (sk, pk)) :
    Paired X sk pk := by
  rw [deriveKeypair] at derived
  split at derived
  · cases derived
  · obtain ⟨hpke, -, derived⟩ := bind_eq_ok derived
    obtain ⟨kp, -, derived⟩ := bind_eq_ok derived
    obtain ⟨xCtx, -, derived⟩ := bind_eq_ok derived
    obtain ⟨xPriv, -, derived⟩ := bind_eq_ok derived
    obtain ⟨kCtx, -, derived⟩ := bind_eq_ok derived
    obtain ⟨seed, -, derived⟩ := bind_eq_ok derived
    cases derived
    exact ⟨seed, rfl, rfl, rfl⟩

/-- The receiver decapsulates what the sender encapsulated, which has the length the wire
form expects. -/
theorem kemEncap_agrees (dh : X.DhSymmetric) (kem : X.KemCorrect) (paired : Paired X sk pk)
    {draws : EncapDraws} {sharedSecret : Fixed 32} {enc : HpkeEnc}
    (done : kemEncap X draws ctx pk.xPub pk.kPub = .ok (sharedSecret, enc)) :
    kemDecap X ctx sk.xPriv.1 sk.kPriv enc = .ok sharedSecret ∧ enc.kemCt.length = kemCtLen := by
  obtain ⟨seed, kPriv, xPub, kPub⟩ := paired
  obtain ⟨ephX, -, done⟩ := bind_eq_ok done
  obtain ⟨hpke, first, done⟩ := bind_eq_ok done
  obtain ⟨kemCtx, second, done⟩ := bind_eq_ok done
  obtain ⟨⟨baseKey, kemCt, ephXPub⟩, prepared, done⟩ := bind_eq_ok done
  cases done
  obtain ⟨secret, ct, ss, -, rfl, rfl, encrypts⟩ := prepBaseKeyForEncryption_eq_ok prepared
  rw [xPub, kPub] at encrypts
  have opened := (encrypts.agree dh kem rfl rfl).prepare
  constructor
  · simp only [kemDecap, first, second, kPriv, opened, bind, Except.bind]
  · simp only [kemBlob, List.length_cons, ct.2]
    rfl

end

/-- For a derived key pair, whatever the sender does in any mode succeeds on the receiver's
side, with the keys and the message read back from their wire forms, and gives the
same plaintext, the same context and the same exported bytes. -/
theorem modes_agree {X : Suite} (aead : X.AeadCorrect) (dh : X.DhSymmetric) (kem : X.KemCorrect)
    {keyCtx : Context} {ikm : Bytes} {sk : HpkePrivateKey} {pk : HpkePublicKey}
    (derived : deriveKeypair X keyCtx ikm = .ok (sk, pk)) :
    HpkePublicKey.fromWire pk.toWire = .ok pk ∧
    (∀ draws ctx info aad plaintext message,
      sealBase X draws ctx pk info aad plaintext = .ok message →
      (do openBase X ctx (← HpkePrivateKey.fromWire sk.toWire) info aad
            (← HpkeSealed.fromWire message.toWire)) = .ok plaintext) ∧
    (∀ draws ctx info enc sender,
      setupSender X draws ctx pk info = .ok (enc, sender) →
      (do setupReceiver X ctx (← HpkePrivateKey.fromWire sk.toWire)
            (← HpkeEnc.fromWire enc.toWire) info) =
        .ok { ctx := sender.ctx, seq := 0, poisoned := false }) ∧
    (∀ draws ctx info exporterContext exporterLength enc exported,
      setupSenderAndExport X draws ctx pk info exporterContext exporterLength =
        .ok (enc, exported) →
      (do setupReceiverAndExport X ctx (← HpkePrivateKey.fromWire sk.toWire)
            (← HpkeEnc.fromWire enc.toWire) info exporterContext exporterLength) = .ok exported ∧
        exported.1.length = exporterLength) := by
  have paired := deriveKeypair_paired derived
  have stored : HpkePrivateKey.fromWire sk.toWire = .ok sk := by
    obtain ⟨seed, kPriv, -, -⟩ := paired
    apply HpkePrivateKey.codec.decode_encode
    rw [kPriv, seed.2]
    rfl
  have published : HpkePublicKey.fromWire pk.toWire = .ok pk := by
    obtain ⟨seed, -, -, kPub⟩ := paired
    apply HpkePublicKey.codec.decode_encode
    rw [kPub, (X.mlkemPub seed).2]
    rfl
  refine ⟨published, ?_, ?_, ?_⟩
  · intro draws ctx info aad plaintext message done
    obtain ⟨⟨sharedSecret, enc⟩, encapsulated, done⟩ := bind_eq_ok done
    obtain ⟨hpkeCtx, scheduled, done⟩ := bind_eq_ok done
    obtain ⟨ciphertext, encrypted, done⟩ := bind_eq_ok done
    cases done
    obtain ⟨decapsulated, full⟩ := kemEncap_agrees dh kem paired encapsulated
    have decrypted := aead.decrypt_encrypt (rawOutcome_eq_ok.mp encrypted)
    have read : HpkeSealed.fromWire (HpkeSealed.toWire ⟨enc, ciphertext⟩) = .ok ⟨enc, ciphertext⟩ :=
      HpkeSealed.codec.decode_encode _ full
    simp only [stored, read, openBase, decapsulated, scheduled, decryptRaw, decrypted, bind,
      Except.bind]
    rfl
  · intro draws ctx info enc sender done
    obtain ⟨⟨sharedSecret, enc⟩, encapsulated, done⟩ := bind_eq_ok done
    obtain ⟨hpkeCtx, scheduled, done⟩ := bind_eq_ok done
    cases done
    obtain ⟨decapsulated, full⟩ := kemEncap_agrees dh kem paired encapsulated
    simp only [stored, HpkeEnc.codec.decode_encode _ full, setupReceiver, decapsulated, scheduled, bind,
      Except.bind]
    rfl
  · intro draws ctx info exporterContext exporterLength enc exported done
    obtain ⟨⟨sharedSecret, enc⟩, encapsulated, done⟩ := bind_eq_ok done
    obtain ⟨hpkeCtx, scheduled, done⟩ := bind_eq_ok done
    obtain ⟨bytes, derivedBytes, done⟩ := bind_eq_ok done
    cases done
    obtain ⟨decapsulated, full⟩ := kemEncap_agrees dh kem paired encapsulated
    refine ⟨?_, exported.2⟩
    simp only [stored, HpkeEnc.codec.decode_encode _ full, setupReceiverAndExport, decapsulated,
      scheduled, derivedBytes, bind, Except.bind]

def sampleKeys : HpkePrivateKey × HpkePublicKey :=
  match deriveKeypair sampleSuite sampleContext (List.replicate 32 7) with
  | .ok keys => keys
  | .error _ => (⟨fit 32 [], []⟩, ⟨fit 32 [], []⟩)

def sampleEncap : EncapDraws := ⟨.ok (fit 32 [4]), fit 32 [9, 9]⟩

theorem sampleKeys_derived :
    deriveKeypair sampleSuite sampleContext (List.replicate 32 7) = .ok sampleKeys := by
  have decided : (deriveKeypair sampleSuite sampleContext (List.replicate 32 7)).isOk = true := by
    decide +kernel
  unfold sampleKeys
  split
  · assumption
  · rename_i error failed
    rw [failed] at decided
    cases decided

def sampleMessage : HpkeSealed :=
  match sealBase sampleSuite sampleEncap sampleContext sampleKeys.2 [1] [2] [3, 4] with
  | .ok message => message
  | .error _ => ⟨⟨fit 32 [], []⟩, []⟩

theorem modes_agree_sample :
    (do openBase sampleSuite sampleContext (← HpkePrivateKey.fromWire sampleKeys.1.toWire) [1] [2]
          (← HpkeSealed.fromWire sampleMessage.toWire)) = .ok [3, 4] := by
  have agreed := modes_agree sampleSuite_aead sampleSuite_dh sampleSuite_kem sampleKeys_derived
  apply agreed.2.1 sampleEncap
  decide +kernel

end Lithium.Hpke
