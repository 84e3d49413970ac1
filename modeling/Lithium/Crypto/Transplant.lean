import Lithium.Crypto.Boxes
import Lithium.Crypto.Sample

/-! Boxes cannot be transplanted. A ciphertext opens only in the context, with the
associated data, the recipient keys and the other components it was made with, provided
the primitives do not collide on what they are given while it is made and opened. -/
namespace Lithium.Crypto
open Keys (Bytes Fixed Key Nonce LithiumError)

structure CipherCall where
  key : Key
  nonce : Nonce
  aad : Bytes
  message : Bytes

structure Inputs where
  derived : List (Option Bytes × Bytes × Bytes) := []
  hashed : List Bytes := []
  encapsulated : List (Bytes × Fixed 32) := []
  decapsulated : List (Fixed 64 × Fixed 1568) := []
  encrypted : List CipherCall := []
  decrypted : List CipherCall := []

namespace Inputs

def append (one other : Inputs) : Inputs where
  derived := one.derived ++ other.derived
  hashed := one.hashed ++ other.hashed
  encapsulated := one.encapsulated ++ other.encapsulated
  decapsulated := one.decapsulated ++ other.decapsulated
  encrypted := one.encrypted ++ other.encrypted
  decrypted := one.decrypted ++ other.decrypted

instance : Append Inputs := ⟨append⟩

/-- The primitives do not collide on these inputs: HKDF and SHA-256 are injective on them,
a secret is decapsulated only from the ciphertext it was encapsulated in and with a seed of
the key it was encapsulated to, and a ciphertext decrypts only under the key and the
associated data it was encrypted with. -/
structure CollisionFree (X : Suite) (run : Inputs) : Prop where
  hkdf : ∀ one ∈ run.derived, ∀ other ∈ run.derived,
    X.hkdf one.1 one.2.1 one.2.2 32 = X.hkdf other.1 other.2.1 other.2.2 32 → one = other
  sha256 : ∀ one ∈ run.hashed, ∀ other ∈ run.hashed, X.sha256 one = X.sha256 other → one = other
  kem : ∀ sent ∈ run.encapsulated, ∀ got ∈ run.decapsulated, ∀ ct,
    X.encapsulate sent.1 sent.2 = some (ct, X.decapsulate got.1 got.2) →
    (X.mlkemPub got.1).1 = sent.1 ∧ got.2 = ct
  aead : ∀ sent ∈ run.encrypted, ∀ got ∈ run.decrypted, ∀ plaintext,
    X.encryptRaw sent.key sent.nonce sent.aad sent.message = some got.message →
    X.decryptRaw got.key got.nonce got.aad got.message = some plaintext →
    got.key = sent.key ∧ got.aad = sent.aad

def check (X : Suite) (run : Inputs) : Bool :=
  (run.derived.all fun one => run.derived.all fun other =>
    X.hkdf one.1 one.2.1 one.2.2 32 = X.hkdf other.1 other.2.1 other.2.2 32 → one = other) &&
  (run.hashed.all fun one => run.hashed.all fun other =>
    X.sha256 one = X.sha256 other → one = other) &&
  (run.encapsulated.all fun sent => run.decapsulated.all fun got =>
    match X.encapsulate sent.1 sent.2 with
    | none => true
    | some (ct, ss) =>
      ss = X.decapsulate got.1 got.2 → (X.mlkemPub got.1).1 = sent.1 ∧ got.2 = ct) &&
  (run.encrypted.all fun sent => run.decrypted.all fun got =>
    X.encryptRaw sent.key sent.nonce sent.aad sent.message = some got.message →
    (X.decryptRaw got.key got.nonce got.aad got.message).isSome →
    got.key = sent.key ∧ got.aad = sent.aad)

theorem collisionFree_of_check {X : Suite} {run : Inputs} (checked : run.check X = true) :
    run.CollisionFree X := by
  simp only [check, Bool.and_eq_true, List.all_eq_true, decide_eq_true_eq] at checked
  obtain ⟨⟨⟨hkdf, sha256⟩, kem⟩, aead⟩ := checked
  refine ⟨hkdf, sha256, fun sent sending got getting ct encapsulated => ?_,
    fun sent sending got getting plaintext encrypted decrypted => ?_⟩
  · have single := kem sent sending got getting
    rw [encapsulated] at single
    exact (decide_eq_true_eq.mp single) rfl
  · exact aead sent sending got getting encrypted (by rw [decrypted]; rfl)

end Inputs

section
variable (X : Suite)

def boxAad (ctx : Context) (aad : Bytes) : Bytes :=
  subLabel ctx (ascii "data") ++ if aad.isEmpty then [] else 0 :: aad

/-- What a sender gives the primitives once its random values are drawn. -/
def senderInputs (ctx : Context) (secret : Fixed 32) (nonce : Nonce) (coins : Fixed 32)
    (ct : Fixed 1568) (ss peerPubX : Fixed 32) (peerKPub aad data : Bytes) : Inputs :=
  let ecdhKey := ecdhKeyOf X ctx secret peerPubX
  let ctHash := X.sha256 ct.1
  { derived := [(none, (X.x25519 secret peerPubX).1, subLabel ctx (ascii "ecdh-key")),
      (some ss.1, ecdhKey.1, baseInfo ctx (X.x25519Pub secret) peerPubX ctHash)]
    hashed := [ct.1]
    encapsulated := [(peerKPub, coins)]
    encrypted := [⟨baseKeyOf X ctx ss ecdhKey (X.x25519Pub secret) peerPubX ctHash, nonce,
      boxAad ctx aad, data⟩] }

/-- What the primitives are given by `seal`. -/
def sealInputs (draws : SealDraws) (ctx : Context) (peerPubX : Fixed 32)
    (peerKPub aad data : Bytes) : Inputs :=
  match draws.senderX, X.encapsulate peerKPub draws.coins, draws.nonce with
  | .ok secret, some (ct, ss), .ok nonce =>
    senderInputs X ctx secret nonce draws.coins ct ss peerPubX peerKPub aad data
  | _, _, _ => {}

/-- What a receiver gives the primitives once the keys and the box are taken apart. -/
def receiverInputs (ctx : Context) (secret : Fixed 32) (seed : Fixed 64) (ct : Fixed 1568)
    (nonce : Nonce) (sender : Fixed 32) (aad raw : Bytes) : Inputs :=
  let ss := X.decapsulate seed ct
  let ecdhKey := ecdhKeyOf X ctx secret sender
  let ctHash := X.sha256 ct.1
  { derived := [(none, (X.x25519 secret sender).1, subLabel ctx (ascii "ecdh-key")),
      (some ss.1, ecdhKey.1, baseInfo ctx sender (X.x25519Pub secret) ctHash)]
    hashed := [ct.1]
    decapsulated := [(seed, ct)]
    decrypted := [⟨baseKeyOf X ctx ss ecdhKey sender (X.x25519Pub secret) ctHash, nonce,
      boxAad ctx aad, raw⟩] }

/-- What the primitives are given by `open`. -/
def openInputs (ctx : Context) (privX kyberPriv aad : Bytes) (box : KyberBoxSealed) : Inputs :=
  match Fixed.fromSlice 32 privX, Fixed.fromSlice 64 kyberPriv,
    Fixed.fromSlice 1568 (box.kemCt.drop 2),
    Fixed.fromSlice 12 ((box.ciphertext.drop 1).take 12) with
  | .ok secret, .ok seed, .ok ct, .ok nonce =>
    receiverInputs X ctx secret seed ct nonce box.senderXPub aad (box.ciphertext.drop 13)
  | _, _, _, _ => {}

end

theorem boxAad_eq {ctx dataCtx : Context} (added : ctx.add (ascii "data") = .ok dataCtx)
    (aad : Bytes) : dataCtx.bindAad aad = boxAad ctx aad := by
  rw [Context.bindAad, label_add added, boxAad]

def HasPublicKeys (X : Suite) (privX kyberPriv : Bytes) (key : DualEncryptionPublicKey) : Prop :=
  ∃ priv : DualEncryptionPrivateKey, privX = priv.x25519.1 ∧ kyberPriv = priv.mlkem1024.1 ∧
    priv.publicKey X = key

section
variable {X : Suite}

theorem Boxed.sealInputs_eq {draws : SealDraws} {ctx dataCtx : Context}
    {peerPubX secret ss baseKey : Fixed 32} {peerKPub aad data raw : Bytes} {box : KyberBoxSealed}
    {nonce : Nonce} {ct : Fixed 1568}
    (boxed : Boxed X draws ctx peerPubX peerKPub aad data box secret nonce ct ss baseKey dataCtx raw) :
    sealInputs X draws ctx peerPubX peerKPub aad data =
      senderInputs X ctx secret nonce draws.coins ct ss peerPubX peerKPub aad data := by
  simp only [sealInputs, boxed.drawn, boxed.encrypts.encapsulated, boxed.drawnNonce]

theorem openInputs_eq {ctx : Context} {x sender : Fixed 32} {k : Fixed 64} {ct : Fixed 1568}
    {nonce : Nonce} {aad raw : Bytes} :
    openInputs X ctx x.1 k.1 aad ⟨sender, kemBlob ct, aeadBlobVersion :: (nonce.1 ++ raw)⟩ =
      receiverInputs X ctx x k ct nonce sender aad raw := by
  have ctSlice : (kemBlob ct).drop 2 = ct.1 := rfl
  have carried : (nonce.1 ++ raw).take 12 = nonce.1 := List.take_left' nonce.2
  have rest : (nonce.1 ++ raw).drop 12 = raw := List.drop_left' nonce.2
  simp only [openInputs, Fixed.fromSlice_val, ctSlice, List.drop_succ_cons, List.drop_zero, carried, rest]

/-- A ciphertext that opens tells everything it was made with. -/
theorem openBox_binds {draws : SealDraws} {ctx ctx' : Context} {peerPubX sender : Fixed 32}
    {peerKPub aad data privX kyberPriv aad' kemCt plaintext : Bytes} {box : KyberBoxSealed}
    {priv : Fixed 32} (aead : X.AeadCorrect)
    (sealed : sealBox X draws ctx peerPubX peerKPub aad data = .ok (box, priv))
    (free : (sealInputs X draws ctx peerPubX peerKPub aad data ++
      openInputs X ctx' privX kyberPriv aad' ⟨sender, kemCt, box.ciphertext⟩).CollisionFree X)
    (opened : openBox X ctx' privX kyberPriv aad' ⟨sender, kemCt, box.ciphertext⟩ = .ok plaintext) :
    ctx' = ctx ∧ aad' = aad ∧ sender = box.senderXPub ∧ kemCt = box.kemCt ∧
      ∃ (x : Fixed 32) (k : Fixed 64), privX = x.1 ∧ kyberPriv = k.1 ∧ X.x25519Pub x = peerPubX ∧
        (X.mlkemPub k).1 = peerKPub := by
  obtain ⟨nonce, ct, ss, baseKey, dataCtx, raw, boxed⟩ := sealBox_eq_ok sealed
  obtain ⟨x, k, ct', baseKey', dataCtx', rfl, rfl, blob, decrypts, context, decrypted⟩ :=
    openBox_eq_ok opened
  dsimp only at blob decrypts decrypted
  subst blob
  have tagged := aead.length_encrypt boxed.encrypted
  rw [boxed.sealed] at decrypted free ⊢
  dsimp only at decrypted free ⊢
  rw [decrypt_blob nonce (by omega)] at decrypted
  have raw_decrypted := rawOutcome_eq_ok.mp decrypted
  -- the inputs of the two sides, now that both are known to have got that far
  rw [boxed.sealInputs_eq, openInputs_eq] at free
  -- the cipher pins down the key and the associated data
  obtain ⟨sameKey, sameAad⟩ := free.aead _ (.head _) _ (.head _) plaintext
    (by rw [← boxed.encrypts.key, ← boxAad_eq boxed.context]; exact boxed.encrypted)
    (by rw [← decrypts.key, ← boxAad_eq context]; exact raw_decrypted)
  dsimp only at sameKey sameAad
  rw [← boxAad_eq boxed.context, ← boxAad_eq context] at sameAad
  obtain ⟨sameDataCtx, sameAad⟩ := Context.bindAad_inj sameAad
  -- the derivation pins down what went into the key
  have sameInput := free.hkdf _ (.tail _ (.tail _ (.tail _ (.head _)))) _ (.tail _ (.head _)) sameKey
  simp only [Prod.mk.injEq, Option.some.injEq] at sameInput
  obtain ⟨sameSecret, -, sameInfo⟩ := sameInput
  obtain ⟨sameCtx, rfl, sameX, sameHash⟩ := baseInfo_inj sameInfo
  have sameCt := free.sha256 _ (.tail _ (.head _)) _ (.head _) sameHash
  obtain rfl := Subtype.ext sameCt
  have encapsulated := boxed.encrypts.encapsulated
  rw [← Subtype.ext sameSecret] at encapsulated
  obtain ⟨sameK, -⟩ := free.kem _ (.head _) _ (.head _) ct' encapsulated
  exact ⟨sameCtx, sameAad, rfl, rfl, x, k, rfl, rfl, sameX, sameK⟩

/-- A box opens exactly with everything it was made with, and then to what was sealed. -/
theorem openBox_iff (aead : X.AeadCorrect) (dh : X.DhSymmetric) (kem : X.KemCorrect)
    {draws : SealDraws} {ctx ctx' : Context} {recipient : DualEncryptionPrivateKey}
    {aad data privX kyberPriv aad' kemCt : Bytes} {sender priv : Fixed 32} {box : KyberBoxSealed}
    (sealed : sealBox X draws ctx (X.x25519Pub recipient.x25519) (X.mlkemPub recipient.mlkem1024).1
      aad data = .ok (box, priv))
    (free : (sealInputs X draws ctx (X.x25519Pub recipient.x25519)
        (X.mlkemPub recipient.mlkem1024).1 aad data ++
      openInputs X ctx' privX kyberPriv aad' ⟨sender, kemCt, box.ciphertext⟩).CollisionFree X)
    (plaintext : Bytes) :
    openBox X ctx' privX kyberPriv aad' ⟨sender, kemCt, box.ciphertext⟩ = .ok plaintext ↔
      plaintext = data ∧ ctx' = ctx ∧ aad' = aad ∧
        HasPublicKeys X privX kyberPriv (recipient.publicKey X) ∧
        sender = box.senderXPub ∧ kemCt = box.kemCt := by
  have opens : ∀ (x : Fixed 32) (k : Fixed 64), X.x25519Pub x = X.x25519Pub recipient.x25519 →
      X.mlkemPub k = X.mlkemPub recipient.mlkem1024 → openBox X ctx x.1 k.1 aad box = .ok data :=
    fun x k sameX sameK => openBox_sealBox aead dh kem sealed sameX sameK
  constructor
  · intro opened
    obtain ⟨rfl, rfl, rfl, rfl, x, k, rfl, rfl, sameX, sameK⟩ :=
      openBox_binds aead sealed free opened
    have sameK := Subtype.ext sameK
    have original := opens x k sameX sameK
    rw [opened] at original
    refine ⟨Except.ok.inj original, rfl, rfl, ⟨⟨x, k⟩, rfl, rfl, ?_⟩, rfl, rfl⟩
    rw [DualEncryptionPrivateKey.publicKey, sameX, sameK]
    rfl
  · rintro ⟨rfl, rfl, rfl, ⟨keys, rfl, rfl, same⟩, rfl, rfl⟩
    simp only [DualEncryptionPrivateKey.publicKey, DualEncryptionPublicKey.mk.injEq] at same
    exact opens _ _ same.1 same.2

/-- A dual message, parsed from whatever bytes carry its inner ciphertext, opens exactly if
nothing about it has changed. -/
theorem dualOpen_iff (aead : X.AeadCorrect) (dh : X.DhSymmetric) (kem : X.KemCorrect)
    {draws : DualDraws} {ctx ctx' : Context} {recipient keys replyPriv : DualEncryptionPrivateKey}
    {aad data aad' wire : Bytes} {message received : DualSealed}
    (sealed : (recipient.publicKey X).seal X draws ctx aad data = .ok (message, replyPriv))
    (parsed : DualSealed.fromWire wire = .ok received)
    (carried : received.inner.ciphertext = message.inner.ciphertext)
    (free : (sealInputs X draws.box ctx (X.x25519Pub recipient.x25519)
        (X.mlkemPub recipient.mlkem1024).1 (message.replyPub.toWire ++ aad) data ++
      openInputs X ctx' keys.x25519.1 keys.mlkem1024.1 (received.replyPub.toWire ++ aad')
        received.inner).CollisionFree X)
    (outcome : Bytes × DualEncryptionPublicKey) :
    keys.open X ctx' aad' received = .ok outcome ↔
      outcome = (data, message.replyPub) ∧ ctx' = ctx ∧ aad' = aad ∧
        keys.publicKey X = recipient.publicKey X ∧ wire = message.toWire := by
  obtain ⟨-, priv, boxed⟩ := dualSeal_eq_ok sealed
  obtain ⟨replyPub, ⟨sender, kemCt, ciphertext⟩⟩ := received
  dsimp only at carried free
  subst carried
  have inner := openBox_iff aead dh kem boxed free
  have wired := DualSealed.codec.encode_decode wire _ parsed
  constructor
  · intro opened
    obtain ⟨plaintext, box, done⟩ := bind_eq_ok opened
    cases done
    obtain ⟨rfl, rfl, sameAad, ⟨held, sameX, sameK, same⟩, rfl, rfl⟩ := (inner plaintext).mp box
    -- the reply key in front of the associated data has a fixed length
    obtain ⟨sameReply, rfl⟩ := List.append_inj sameAad
      (replyPub.length_toWire.trans message.replyPub.length_toWire.symm)
    obtain rfl := DualEncryptionPublicKey.toWire_inj sameReply
    have sameKeys : keys.publicKey X = recipient.publicKey X := by
      rw [← same, DualEncryptionPrivateKey.publicKey, Subtype.ext sameX, Subtype.ext sameK]
      rfl
    exact ⟨rfl, rfl, rfl, sameKeys, wired.symm⟩
  · rintro ⟨rfl, rfl, rfl, same, rfl⟩
    have reparsed : DualSealed.toWire ⟨replyPub, sender, kemCt, message.inner.ciphertext⟩ =
        message.toWire := wired
    obtain ⟨sameReply, sameInner⟩ := List.append_inj reparsed
      (replyPub.length_toWire.trans message.replyPub.length_toWire.symm)
    obtain rfl := DualEncryptionPublicKey.toWire_inj sameReply
    have sameHeader := List.append_cancel_right sameInner
    obtain ⟨sameSender, sameKemCt⟩ := List.append_inj sameHeader
      (sender.2.trans message.inner.senderXPub.2.symm)
    obtain rfl := Subtype.ext sameSender
    have box := (inner data).mpr
      ⟨rfl, rfl, rfl, ⟨keys, rfl, rfl, same⟩, rfl, sameKemCt⟩
    rw [DualEncryptionPrivateKey.open]
    dsimp only
    rw [box]
    rfl

/-- Neither boxes nor dual messages can be transplanted: whoever changes the context, the
associated data, the recipient or any other component of a message gets an error, and
unchanged it opens to what was sealed. -/
theorem sealed_not_transplantable (aead : X.AeadCorrect) (dh : X.DhSymmetric) (kem : X.KemCorrect)
    (recipient : DualEncryptionPrivateKey) :
    (∀ draws ctx aad data box priv,
      sealBox X draws ctx (X.x25519Pub recipient.x25519) (X.mlkemPub recipient.mlkem1024).1 aad data =
        .ok (box, priv) →
      ∀ ctx' privX kyberPriv aad' sender kemCt,
      (sealInputs X draws ctx (X.x25519Pub recipient.x25519)
          (X.mlkemPub recipient.mlkem1024).1 aad data ++
        openInputs X ctx' privX kyberPriv aad' ⟨sender, kemCt, box.ciphertext⟩).CollisionFree X →
      ∀ plaintext,
      openBox X ctx' privX kyberPriv aad' ⟨sender, kemCt, box.ciphertext⟩ = .ok plaintext ↔
        plaintext = data ∧ ctx' = ctx ∧ aad' = aad ∧
          HasPublicKeys X privX kyberPriv (recipient.publicKey X) ∧
          sender = box.senderXPub ∧ kemCt = box.kemCt) ∧
    ∀ draws ctx aad data message replyPriv,
      (recipient.publicKey X).seal X draws ctx aad data = .ok (message, replyPriv) →
      ∀ ctx' keys aad' wire received, DualSealed.fromWire wire = .ok received →
      received.inner.ciphertext = message.inner.ciphertext →
      (sealInputs X draws.box ctx (X.x25519Pub recipient.x25519)
          (X.mlkemPub recipient.mlkem1024).1 (message.replyPub.toWire ++ aad) data ++
        openInputs X ctx' keys.x25519.1 keys.mlkem1024.1 (received.replyPub.toWire ++ aad')
          received.inner).CollisionFree X →
      ∀ outcome, DualEncryptionPrivateKey.open X keys ctx' aad' received = .ok outcome ↔
        outcome = (data, message.replyPub) ∧ ctx' = ctx ∧ aad' = aad ∧
          keys.publicKey X = recipient.publicKey X ∧ wire = message.toWire := by
  constructor
  · intro draws ctx aad data box priv sealed ctx' privX kyberPriv aad' sender kemCt free
    exact openBox_iff aead dh kem sealed free
  · intro draws ctx aad data message replyPriv sealed ctx' keys aad' wire received parsed carried free
    exact dualOpen_iff aead dh kem sealed parsed carried free

end

def sampleKeys : DualEncryptionPrivateKey := ⟨fit 32 [1], fit 64 [2]⟩

def sampleDraws : SealDraws := ⟨.ok (fit 32 [7]), fit 32 [8], .ok (fit 12 [])⟩

def otherContext : Context := ⟨ascii "apq", by decide, by decide⟩

def sampleBox : KyberBoxSealed :=
  match sealBox sampleSuite sampleDraws sampleContext (sampleSuite.x25519Pub sampleKeys.x25519)
    (sampleSuite.mlkemPub sampleKeys.mlkem1024).1 [9] [42] with
  | .ok (box, _) => box
  | .error _ => ⟨fit 32 [], [], []⟩

/-- A box sealed in one context does not open in another, with the right keys and
associated data. -/
theorem transplant_sample : ¬ ∃ plaintext,
    openBox sampleSuite otherContext sampleKeys.x25519.1 sampleKeys.mlkem1024.1 [9] sampleBox =
      .ok plaintext := by
  have sealed : sealBox sampleSuite sampleDraws sampleContext
      (sampleSuite.x25519Pub sampleKeys.x25519) (sampleSuite.mlkemPub sampleKeys.mlkem1024).1 [9]
      [42] = .ok (sampleBox, fit 32 [7]) := by decide +kernel
  have free : (sealInputs sampleSuite sampleDraws sampleContext
        (sampleSuite.x25519Pub sampleKeys.x25519) (sampleSuite.mlkemPub sampleKeys.mlkem1024).1 [9]
        [42] ++
      openInputs sampleSuite otherContext sampleKeys.x25519.1 sampleKeys.mlkem1024.1 [9]
        sampleBox).CollisionFree sampleSuite :=
    Inputs.collisionFree_of_check (by decide +kernel)
  rintro ⟨plaintext, opened⟩
  have bound := (sealed_not_transplantable sampleSuite_aead sampleSuite_dh sampleSuite_kem
    sampleKeys).1 _ _ _ _ _ _ sealed otherContext _ _ [9] sampleBox.senderXPub sampleBox.kemCt free
    plaintext
  have texts : otherContext.text ≠ sampleContext.text := by decide
  exact texts (congrArg Context.text (bound.mp opened).2.1)

end Lithium.Crypto
