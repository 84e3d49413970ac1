import Lithium.Crypto.BaseKey
import Lithium.Crypto.Wire

/-! Boxes and dual messages: what a successful `seal` and `open` did, and that opening
inverts sealing. -/
namespace Lithium.Crypto
open Keys (Bytes Fixed Key Nonce LithiumError)

section
variable {X : Suite} {ctx : Context}

structure Boxed (X : Suite) (draws : SealDraws) (ctx : Context) (peerPubX : Fixed 32)
    (peerKPub aad data : Bytes) (box : KyberBoxSealed) (secret : Fixed 32) (nonce : Nonce)
    (ct : Fixed 1568) (ss baseKey : Fixed 32) (dataCtx : Context) (raw : Bytes) : Prop where
  drawn : draws.senderX = .ok secret
  encrypts : Encrypts X draws.coins ctx secret peerPubX peerKPub baseKey ct ss
  drawnNonce : draws.nonce = .ok nonce
  context : ctx.add (ascii "data") = .ok dataCtx
  encrypted : X.encryptRaw baseKey nonce (dataCtx.bindAad aad) data = some raw
  sealed : box = ⟨X.x25519Pub secret, kemBlob ct, aeadBlobVersion :: (nonce.1 ++ raw)⟩

theorem sealBox_eq_ok {draws : SealDraws} {peerPubX priv : Fixed 32} {peerKPub aad data : Bytes}
    {box : KyberBoxSealed}
    (done : sealBox X draws ctx peerPubX peerKPub aad data = .ok (box, priv)) :
    ∃ nonce ct ss baseKey dataCtx raw,
      Boxed X draws ctx peerPubX peerKPub aad data box priv nonce ct ss baseKey dataCtx raw := by
  obtain ⟨⟨secret, xPub⟩, paired, done⟩ := bind_eq_ok done
  obtain ⟨⟨baseKey, kemCt, senderXPub⟩, prepared, done⟩ := bind_eq_ok done
  obtain ⟨dataCtx, context, done⟩ := bind_eq_ok done
  obtain ⟨blob, boxed, done⟩ := bind_eq_ok done
  cases done
  obtain ⟨drawn, seed, paired⟩ := bind_eq_ok paired
  cases paired
  obtain ⟨nonce, nonceDrawn, framed⟩ := bind_eq_ok boxed
  obtain ⟨raw, encrypted, rfl⟩ := encryptFramed_eq_ok framed
  obtain ⟨secret, ct, ss, same, rfl, rfl, encrypts⟩ := prepBaseKeyForEncryption_eq_ok prepared
  obtain rfl := Subtype.ext same
  exact ⟨nonce, ct, ss, baseKey, dataCtx, raw, seed, encrypts, nonceDrawn, context, encrypted, rfl⟩

theorem openBox_eq_ok {privX kyberPriv aad plaintext : Bytes} {box : KyberBoxSealed}
    (done : openBox X ctx privX kyberPriv aad box = .ok plaintext) :
    ∃ (secret : Fixed 32) (seed : Fixed 64) (ct : Fixed 1568) (baseKey : Fixed 32)
      (dataCtx : Context), privX = secret.1 ∧ kyberPriv = seed.1 ∧ box.kemCt = kemBlob ct ∧
      Decrypts X ctx secret box.senderXPub seed ct baseKey ∧
      ctx.add (ascii "data") = .ok dataCtx ∧
      decrypt X box.ciphertext baseKey dataCtx aad = .ok plaintext := by
  obtain ⟨baseKey, prepared, done⟩ := bind_eq_ok done
  obtain ⟨dataCtx, context, decrypted⟩ := bind_eq_ok done
  obtain ⟨secret, seed, ct, privX, kyberPriv, kemCt, decrypts⟩ :=
    prepBaseKeyForDecryption_eq_ok prepared
  exact ⟨secret, seed, ct, baseKey, dataCtx, privX, kyberPriv, kemCt, decrypts, context, decrypted⟩

/-- A box opens with any private keys that have the public keys it was sealed to. -/
theorem openBox_sealBox (aead : X.AeadCorrect) (dh : X.DhSymmetric) (kem : X.KemCorrect)
    {draws : SealDraws} {x priv : Fixed 32} {k : Fixed 64} {aad data : Bytes} {box : KyberBoxSealed}
    (done : sealBox X draws ctx (X.x25519Pub x) (X.mlkemPub k).1 aad data = .ok (box, priv))
    {x' : Fixed 32} {k' : Fixed 64} (sameX : X.x25519Pub x' = X.x25519Pub x)
    (sameK : X.mlkemPub k' = X.mlkemPub k) : openBox X ctx x'.1 k'.1 aad box = .ok data := by
  obtain ⟨nonce, ct, ss, baseKey, dataCtx, raw, boxed⟩ := sealBox_eq_ok done
  have prepared := (boxed.encrypts.agree dh kem sameX sameK).prepare
  have length := aead.length_encrypt boxed.encrypted
  have opened := aead.decrypt_encrypt boxed.encrypted
  simp only [openBox, boxed.sealed, prepared, boxed.context, bind, Except.bind]
  rw [decrypt_blob nonce (by omega), opened]
  rfl

end

section
variable {X : Suite}

theorem ephemeral_eq_ok {xSeed : Draw 32} {kSeed : Draw 64} {priv : DualEncryptionPrivateKey}
    {pub : DualEncryptionPublicKey}
    (done : DualEncryptionPrivateKey.ephemeral X xSeed kSeed = .ok (priv, pub)) :
    xSeed = .ok priv.x25519 ∧ kSeed = .ok priv.mlkem1024 ∧ pub = priv.publicKey X := by
  obtain ⟨⟨xPriv, xPub⟩, xPaired, done⟩ := bind_eq_ok done
  obtain ⟨⟨kPriv, kPub⟩, kPaired, done⟩ := bind_eq_ok done
  obtain ⟨x, xDrawn, xPaired⟩ := bind_eq_ok xPaired
  obtain ⟨k, kDrawn, kPaired⟩ := bind_eq_ok kPaired
  cases xPaired
  cases kPaired
  cases done
  exact ⟨xDrawn, kDrawn, rfl⟩

/-- A dual message is a box whose associated data begins with the public key to reply to. -/
theorem dualSeal_eq_ok {key : DualEncryptionPublicKey} {draws : DualDraws} {ctx : Context}
    {aad data : Bytes} {message : DualSealed} {replyPriv : DualEncryptionPrivateKey}
    (done : key.seal X draws ctx aad data = .ok (message, replyPriv)) :
    message.replyPub = replyPriv.publicKey X ∧ ∃ priv,
      sealBox X draws.box ctx key.x25519 key.mlkem1024.1 (message.replyPub.toWire ++ aad) data =
        .ok (message.inner, priv) := by
  obtain ⟨⟨reply, replyPub⟩, paired, done⟩ := bind_eq_ok done
  obtain ⟨⟨inner, priv⟩, boxed, done⟩ := bind_eq_ok done
  cases done
  exact ⟨(ephemeral_eq_ok paired).2.2, priv, boxed⟩

end
end Lithium.Crypto
