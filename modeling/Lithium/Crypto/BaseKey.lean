import Lithium.Crypto.KyberBox

/-! The base key of a box, as each side derives it, and the agreement of the two sides.
A successful preparation is described once for the sender and once for the receiver. -/
namespace Lithium.Crypto
open Keys (Bytes Fixed Key Nonce LithiumError)

def subLabel (ctx : Context) (segment : Bytes) : Bytes :=
  ctx.text ++ slash :: segment ++ slash :: contextVersion

theorem label_add {ctx extended : Context} {segment : Bytes}
    (added : ctx.add segment = .ok extended) : extended.label = subLabel ctx segment := by
  rw [Context.label, Context.text_add added, subLabel]

theorem subLabel_inj {ctx ctx' : Context} {segment : Bytes}
    (same : subLabel ctx segment = subLabel ctx' segment) : ctx = ctx' := by
  simp only [subLabel, List.append_assoc] at same
  exact Context.ext (List.append_cancel_right same)

def Admits (ctx : Context) (segment : Bytes) : Prop := ∃ extended, ctx.add segment = .ok extended

section
variable (X : Suite)

/-- The key both sides derive from their agreement. -/
def ecdhKeyOf (ctx : Context) (secret peer : Fixed 32) : Fixed 32 :=
  X.hkdf none (X.x25519 secret peer).1 (subLabel ctx (ascii "ecdh-key")) 32

/-- What a base key is derived with: the hashed ciphertext and both X25519 public keys
behind the label. -/
def baseInfo (ctx : Context) (ctT ekT ctHash : Fixed 32) : Bytes :=
  subLabel ctx (ascii "base-key") ++ ctT.1 ++ ekT.1 ++ ctHash.1

def baseKeyOf (ctx : Context) (ssKem ecdhKey ctT ekT ctHash : Fixed 32) : Fixed 32 :=
  X.hkdf (some ssKem.1) ecdhKey.1 (baseInfo ctx ctT ekT ctHash) 32

def kemBlob (ct : Fixed 1568) : Bytes := kyberBoxVersion :: kyberKemId :: ct.1

end

theorem kemBlob_inj {one other : Fixed 1568} (same : kemBlob one = kemBlob other) : one = other := by
  cases List.cons.inj same with
  | intro _ tail => exact Subtype.ext (List.cons.inj tail).2

/-- The three fields at the end of the derivation input have fixed lengths, so the whole
can be taken apart from its end. -/
theorem baseInfo_inj {ctx ctx' : Context} {ctT ctT' ekT ekT' ctHash ctHash' : Fixed 32}
    (same : baseInfo ctx ctT ekT ctHash = baseInfo ctx' ctT' ekT' ctHash') :
    ctx = ctx' ∧ ctT = ctT' ∧ ekT = ekT' ∧ ctHash = ctHash' := by
  have lengths : ∀ one other : Fixed 32, one.1.length = other.1.length :=
    fun one other => one.2.trans other.2.symm
  obtain ⟨same, hash⟩ := List.append_inj' same (lengths _ _)
  obtain ⟨same, ek⟩ := List.append_inj' same (lengths _ _)
  obtain ⟨label, ct⟩ := List.append_inj' same (lengths _ _)
  exact ⟨subLabel_inj label, Subtype.ext ct, Subtype.ext ek, Subtype.ext hash⟩

section
variable {X : Suite} {ctx : Context}

theorem ecdhKdf_eq_ok {secret peer key : Fixed 32} {label : Bytes} :
    ecdhKdf X secret peer label = .ok key ↔
      contributory (X.x25519 secret peer) = true ∧
        key = X.hkdf none (X.x25519 secret peer).1 label 32 := by
  rw [ecdhKdf, derive32Raw_eq]
  split
  · rename_i fair
    simp [fair, eq_comm]
  · rename_i fair
    simp [fair]

theorem encapsulateKem_eq_ok {peerKPub kemCt : Bytes} {coins ss ctHash : Fixed 32}
    (done : encapsulateKem X peerKPub coins = .ok (ss, ctHash, kemCt)) :
    ∃ ct, X.encapsulate peerKPub coins = some (ct, ss) ∧ ctHash = X.sha256 ct.1 ∧
      kemCt = kemBlob ct := by
  rw [encapsulateKem] at done
  split at done
  · cases done
  · rename_i ct ss encapsulated
    cases done
    exact ⟨ct, encapsulated, rfl, rfl⟩

theorem decapsulateKem_blob (seed : Fixed 64) (ct : Fixed 1568) :
    decapsulateKem X seed.1 (kemBlob ct) = .ok (X.decapsulate seed ct, X.sha256 ct.1) := by
  rw [kemBlob, decapsulateKem, if_neg (by simp), dif_pos seed.2, dif_pos ct.2]

theorem decapsulateKem_eq_ok {kyberPriv kemCt : Bytes} {ss ctHash : Fixed 32}
    (done : decapsulateKem X kyberPriv kemCt = .ok (ss, ctHash)) :
    ∃ (seed : Fixed 64) (ct : Fixed 1568), kyberPriv = seed.1 ∧ kemCt = kemBlob ct ∧
      ss = X.decapsulate seed ct ∧ ctHash = X.sha256 ct.1 := by
  rw [decapsulateKem.eq_def] at done
  split at done
  · rename_i version kemId ctSlice
    split at done
    · cases done
    · rename_i header
      rw [not_or, not_not, not_not] at header
      split at done
      · rename_i seed
        split at done
        · rename_i full
          cases done
          exact ⟨⟨kyberPriv, seed⟩, ⟨ctSlice, full⟩, rfl, by rw [header.1, header.2]; rfl, rfl, rfl⟩
        · cases done
      · cases done
  · cases done

/-- A sender's base key: what was encapsulated, and how the key came about. -/
structure Encrypts (X : Suite) (coins : Fixed 32) (ctx : Context) (secret peerPubX : Fixed 32)
    (peerKPub : Bytes) (baseKey : Fixed 32) (ct : Fixed 1568) (ss : Fixed 32) : Prop where
  ecdh : Admits ctx (ascii "ecdh-key")
  base : Admits ctx (ascii "base-key")
  fair : contributory (X.x25519 secret peerPubX) = true
  encapsulated : X.encapsulate peerKPub coins = some (ct, ss)
  key : baseKey = baseKeyOf X ctx ss (ecdhKeyOf X ctx secret peerPubX) (X.x25519Pub secret) peerPubX
    (X.sha256 ct.1)

theorem prepBaseKeyForEncryption_eq_ok {coins peerPubX baseKey xPub : Fixed 32}
    {privX peerKPub kemCt : Bytes}
    (done : prepBaseKeyForEncryption X coins ctx privX peerPubX peerKPub =
      .ok (baseKey, kemCt, xPub)) :
    ∃ secret ct ss, privX = secret.1 ∧ xPub = X.x25519Pub secret ∧ kemCt = kemBlob ct ∧
      Encrypts X coins ctx secret peerPubX peerKPub baseKey ct ss := by
  obtain ⟨secret, parsed, done⟩ := bind_eq_ok done
  obtain ⟨ecdhCtx, ecdhAdded, done⟩ := bind_eq_ok done
  obtain ⟨ecdhKey, agreed, done⟩ := bind_eq_ok done
  obtain ⟨⟨ss, ctHash, blob⟩, wrapped, done⟩ := bind_eq_ok done
  obtain ⟨baseCtx, baseAdded, done⟩ := bind_eq_ok done
  obtain ⟨key, derived, done⟩ := bind_eq_ok done
  cases done
  obtain ⟨fair, rfl⟩ := ecdhKdf_eq_ok.mp agreed
  obtain ⟨ct, encapsulated, rfl, rfl⟩ := encapsulateKem_eq_ok wrapped
  rw [deriveBaseKey, derive32Raw_eq, label_add baseAdded, label_add ecdhAdded] at derived
  cases derived
  exact ⟨secret, ct, ss, Fixed.fromSlice_eq_ok.mp parsed, rfl, rfl,
    ⟨ecdhCtx, ecdhAdded⟩, ⟨baseCtx, baseAdded⟩, fair, encapsulated, rfl⟩

structure Decrypts (X : Suite) (ctx : Context) (secret peerPubX : Fixed 32) (seed : Fixed 64)
    (ct : Fixed 1568) (baseKey : Fixed 32) : Prop where
  ecdh : Admits ctx (ascii "ecdh-key")
  base : Admits ctx (ascii "base-key")
  fair : contributory (X.x25519 secret peerPubX) = true
  key : baseKey = baseKeyOf X ctx (X.decapsulate seed ct) (ecdhKeyOf X ctx secret peerPubX) peerPubX
    (X.x25519Pub secret) (X.sha256 ct.1)

theorem prepBaseKeyForDecryption_eq_ok {peerPubX baseKey : Fixed 32}
    {privX kyberPriv kemCt : Bytes}
    (done : prepBaseKeyForDecryption X ctx privX peerPubX kyberPriv kemCt = .ok baseKey) :
    ∃ (secret : Fixed 32) (seed : Fixed 64) (ct : Fixed 1568), privX = secret.1 ∧
      kyberPriv = seed.1 ∧ kemCt = kemBlob ct ∧ Decrypts X ctx secret peerPubX seed ct baseKey := by
  obtain ⟨secret, parsed, done⟩ := bind_eq_ok done
  obtain ⟨ecdhCtx, ecdhAdded, done⟩ := bind_eq_ok done
  obtain ⟨ecdhKey, agreed, done⟩ := bind_eq_ok done
  obtain ⟨⟨ss, ctHash⟩, unwrapped, done⟩ := bind_eq_ok done
  obtain ⟨baseCtx, baseAdded, derived⟩ := bind_eq_ok done
  obtain ⟨fair, rfl⟩ := ecdhKdf_eq_ok.mp agreed
  obtain ⟨seed, ct, rfl, rfl, rfl, rfl⟩ := decapsulateKem_eq_ok unwrapped
  rw [deriveBaseKey, derive32Raw_eq, label_add baseAdded, label_add ecdhAdded] at derived
  cases derived
  exact ⟨secret, seed, ct, Fixed.fromSlice_eq_ok.mp parsed, rfl, rfl,
    ⟨ecdhCtx, ecdhAdded⟩, ⟨baseCtx, baseAdded⟩, fair, rfl⟩

theorem Decrypts.prepare {secret peerPubX baseKey : Fixed 32} {seed : Fixed 64} {ct : Fixed 1568}
    (decrypts : Decrypts X ctx secret peerPubX seed ct baseKey) :
    prepBaseKeyForDecryption X ctx secret.1 peerPubX seed.1 (kemBlob ct) = .ok baseKey := by
  obtain ⟨ecdhCtx, ecdhAdded⟩ := decrypts.ecdh
  obtain ⟨baseCtx, baseAdded⟩ := decrypts.base
  have agreed : ecdhKdf X secret peerPubX ecdhCtx.label = .ok (ecdhKeyOf X ctx secret peerPubX) :=
    ecdhKdf_eq_ok.mpr ⟨decrypts.fair, by rw [label_add ecdhAdded, ecdhKeyOf]⟩
  simp only [prepBaseKeyForDecryption, Fixed.fromSlice_val, ecdhAdded, agreed, decapsulateKem_blob,
    baseAdded, bind, Except.bind]
  rw [deriveBaseKey, derive32Raw_eq, label_add baseAdded, decrypts.key]
  rfl

/-- The receiver derives the sender's base key, with any private keys that have the public
keys the box was sealed to. -/
theorem Encrypts.agree (dh : X.DhSymmetric) (kem : X.KemCorrect) {coins secret baseKey ss : Fixed 32}
    {ct : Fixed 1568} {x : Fixed 32} {k : Fixed 64}
    (encrypts : Encrypts X coins ctx secret (X.x25519Pub x) (X.mlkemPub k).1 baseKey ct ss)
    {x' : Fixed 32} {k' : Fixed 64} (sameX : X.x25519Pub x' = X.x25519Pub x)
    (sameK : X.mlkemPub k' = X.mlkemPub k) :
    Decrypts X ctx x' (X.x25519Pub secret) k' ct baseKey := by
  have shared : X.x25519 x' (X.x25519Pub secret) = X.x25519 secret (X.x25519Pub x) := by
    rw [dh x' secret, sameX]
  have opened : X.decapsulate k' ct = ss := by
    apply kem
    rw [sameK]
    exact encrypts.encapsulated
  refine ⟨encrypts.ecdh, encrypts.base, by rw [shared]; exact encrypts.fair, ?_⟩
  rw [encrypts.key, opened, ecdhKeyOf, ecdhKeyOf, shared, sameX]

end
end Lithium.Crypto
