import Lithium.Keys.FileNames
import Lithium.Keys.PublicCache
import Lithium.Keys.Rollback

/-! Keyfiles cannot be relabelled or put together from parts of others. Records are sealed, or
rewrapped from files whose fields may have been exchanged in the meantime. What loads
afterwards has its wrapped key from one of these records, and its payload from the sealing
that drew the key. -/
namespace Lithium.Keys
open Effects Storage

/-- A call of `encode_encrypted` with the values it draws. -/
structure Sealing where
  masterKey : Key
  keyType : String
  payload : Bytes
  draws : SealDraws

/-- A call of `rewrap_keyfile_dek_to_bytes` on a file that holds `input`. -/
structure Rewrapping where
  input : Record
  within : (buildRecord input).length ≤ maxKeyfileSize
  oldMk : Key
  newMk : Key
  keyType : String
  salt : Fixed 32
  nonceWrap : Nonce

def Sealing.record (X : Crypto) (s : Sealing) : Except LithiumError Record :=
  match X.encryptRaw (deriveKek X s.masterKey s.draws.salt) s.draws.nonceWrap
      (aadFor keyfileVersion s.keyType) s.draws.dek.1,
    X.encryptRaw s.draws.dek s.draws.noncePayload (aadFor keyfileVersion s.keyType) s.payload with
  | some ctWrap, some ctPayload => .ok ⟨keyfileVersion, algIdAes256GcmSiv, dekLen, s.draws.salt,
      s.draws.nonceWrap, ctWrap, s.draws.noncePayload, ctPayload⟩
  | _, _ => .error .aeadFailed

def Rewrapping.record (X : Crypto) (a : Rewrapping) : Except LithiumError Record := do
  let (r, dek) ← unwrapRecord X (buildRecord a.input) a.oldMk a.keyType
  match X.encryptRaw (deriveKek X a.newMk a.salt) a.nonceWrap (aadFor r.version a.keyType)
      dek.1 with
  | none => .error .aeadFailed
  | some ctWrap => .ok { r with salt := a.salt, nonceWrap := a.nonceWrap, ctWrap }

theorem sealRecord_eq (X : Crypto) (s : Sealing) :
    sealRecord X s.masterKey s.payload s.keyType s.draws = (s.record X).map buildRecord := by
  simp only [sealRecord, Sealing.record]
  cases X.encryptRaw (deriveKek X s.masterKey s.draws.salt) s.draws.nonceWrap
      (aadFor keyfileVersion s.keyType) s.draws.dek.1 with
  | none => rfl
  | some ctWrap =>
    cases X.encryptRaw s.draws.dek s.draws.noncePayload (aadFor keyfileVersion s.keyType)
        s.payload with
    | none => rfl
    | some ctPayload => rfl

theorem rewrapRecord_eq (X : Crypto) (a : Rewrapping) :
    rewrapRecord X (buildRecord a.input) a.oldMk a.newMk a.keyType a.salt a.nonceWrap =
      (a.record X).map buildRecord := by
  unfold rewrapRecord Rewrapping.record
  cases unwrapRecord X (buildRecord a.input) a.oldMk a.keyType with
  | error e => rfl
  | ok parts =>
    simp only [bind, Except.bind]
    cases X.encryptRaw (deriveKek X a.newMk a.salt) a.nonceWrap
        (aadFor parts.1.version a.keyType) parts.2.1 with
    | none => rfl
    | some ctWrap => rfl

inductive Slot where
  | salt
  | nonceWrap
  | ctWrap
  | noncePayload
  | ctPayload
  deriving DecidableEq, Repr

def Record.field (r : Record) : Slot → Bytes
  | .salt => r.salt.1
  | .nonceWrap => r.nonceWrap.1
  | .ctWrap => r.ctWrap
  | .noncePayload => r.noncePayload.1
  | .ctPayload => r.ctPayload

/-- The calls that are made. Fields of the same kind can always be exchanged between files;
`exchanged` says whether a field can also take the place of one of another kind. -/
structure KeyfileRun where
  sealings : Set Sealing
  rewrappings : Set Rewrapping
  exchanged : Bool

namespace KeyfileRun
variable (run : KeyfileRun) (X : Crypto)

/-- The records that are sealed, and those rewrapped from fields of earlier ones. -/
inductive Made : Record → Prop
  | sealed {s : Sealing} {r : Record} (member : s ∈ run.sealings) (done : s.record X = .ok r) :
      Made r
  | rewrapped {a : Rewrapping} {out : Record} (sources : Slot → Record) (places : Slot → Slot)
      (made : ∀ slot, Made (sources slot))
      (taken : ∀ slot, a.input.field slot = (sources slot).field (places slot))
      (inPlace : run.exchanged = false → ∀ slot, places slot = slot)
      (member : a ∈ run.rewrappings) (done : a.record X = .ok out) : Made out

/-- A record put together from fields of the run's records. -/
def Spliced (r : Record) : Prop :=
  ∀ slot, ∃ source place, run.Made X source ∧ r.field slot = source.field place ∧
    (run.exchanged = false → place = slot)

end KeyfileRun

def SameWrap (r other : Record) : Prop :=
  r.salt = other.salt ∧ r.nonceWrap = other.nonceWrap ∧ r.ctWrap = other.ctWrap

def SamePayload (r other : Record) : Prop :=
  r.noncePayload = other.noncePayload ∧ r.ctPayload = other.ctPayload

namespace KeyfileRun
variable (run : KeyfileRun) (X : Crypto)

/-- The record holds the data key of the sealing `s`, wrapped under `mk` for `keyType`: by the
sealing itself, or by a rewrapping of such a record's wrap. -/
inductive Issued (s : Sealing) : Key → String → Record → Prop
  | sealed {r : Record} (member : s ∈ run.sealings) (done : s.record X = .ok r) :
      Issued s s.masterKey s.keyType r
  | rewrapped {a : Rewrapping} {r out : Record} (before : Issued s a.oldMk a.keyType r)
      (wrap : SameWrap a.input r) (member : a ∈ run.rewrappings) (done : a.record X = .ok out) :
      Issued s a.newMk a.keyType out

/-- What it takes to load: the wrap of one record issued under exactly `mk` and `keyType`, and
the payload fields of the sealing whose data key that is. -/
structure Genuine (mk : Key) (keyType : String) (r : Record) (payload : Bytes) (s : Sealing)
    (wrapped first : Record) : Prop where
  made : run.Made X wrapped
  issued : run.Issued X s mk keyType wrapped
  wrap : SameWrap r wrapped
  member : s ∈ run.sealings
  sealed : s.record X = .ok first
  fields : SamePayload r first
  keyType : s.keyType = keyType
  payload : payload = s.payload

/-- The calls of `encrypt_raw`, with the key, nonce and AAD of each ciphertext. -/
inductive Encrypts : Key → Nonce → (aad ciphertext : Bytes) → Prop
  | wrap {s : Sealing} {ct : Bytes} (member : s ∈ run.sealings)
      (done : X.encryptRaw (deriveKek X s.masterKey s.draws.salt) s.draws.nonceWrap
        (aadFor keyfileVersion s.keyType) s.draws.dek.1 = some ct) :
      Encrypts (deriveKek X s.masterKey s.draws.salt) s.draws.nonceWrap
        (aadFor keyfileVersion s.keyType) ct
  | payload {s : Sealing} {ct : Bytes} (member : s ∈ run.sealings)
      (done : X.encryptRaw s.draws.dek s.draws.noncePayload (aadFor keyfileVersion s.keyType)
        s.payload = some ct) :
      Encrypts s.draws.dek s.draws.noncePayload (aadFor keyfileVersion s.keyType) ct
  | rewrap {a : Rewrapping} {r : Record} {dek : Key} {ct : Bytes} (member : a ∈ run.rewrappings)
      (opened : unwrapRecord X (buildRecord a.input) a.oldMk a.keyType = .ok (r, dek))
      (done : X.encryptRaw (deriveKek X a.newMk a.salt) a.nonceWrap (aadFor r.version a.keyType)
        dek.1 = some ct) :
      Encrypts (deriveKek X a.newMk a.salt) a.nonceWrap (aadFor r.version a.keyType) ct

def inputs : Set (Key × Fixed 32) :=
  { input | (∃ s ∈ run.sealings, input = (s.masterKey, s.draws.salt)) ∨
      ∃ a ∈ run.rewrappings, input = (a.newMk, a.salt) ∨ input = (a.oldMk, a.input.salt) }

def drawn : Set Bytes :=
  { bytes | (∃ s ∈ run.sealings, bytes = s.draws.salt.1 ∨ bytes = s.draws.nonceWrap.1 ∨
        bytes = s.draws.noncePayload.1) ∨
      ∃ a ∈ run.rewrappings, bytes = a.salt.1 ∨ bytes = a.nonceWrap.1 }

/-- What is assumed of the primitives in a run that ends with a load under the master key and
salt `load`. Only where fields take the place of others does it also matter that a drawn key
is no derived one, and that a salt or nonce is no ciphertext. -/
structure Symbolic (load : Key × Fixed 32) : Prop where
  only : ∀ {key key' : Key} {nonce nonce' : Nonce} {aad aad' ct plaintext : Bytes},
    run.Encrypts X key nonce aad ct → X.decryptRaw key' nonce' aad' ct = some plaintext →
    key' = key ∧ nonce' = nonce ∧ aad' = aad
  collisionFree : Set.InjOn (fun input : Key × Fixed 32 => deriveKek X input.1 input.2)
    (insert load run.inputs)
  distinct : Set.InjOn (fun s : Sealing => s.draws.dek) run.sealings
  keysApart : run.exchanged = true → ∀ s ∈ run.sealings, ∀ input ∈ insert load run.inputs,
    s.draws.dek ≠ deriveKek X input.1 input.2
  noCiphertext : run.exchanged = true → ∀ bytes ∈ run.drawn, ∀ key nonce aad,
    X.decryptRaw key nonce aad bytes = none

end KeyfileRun

section
variable {X : Crypto}

theorem Sealing.record_ok {s : Sealing} {r : Record} (done : s.record X = .ok r) :
    X.encryptRaw (deriveKek X s.masterKey s.draws.salt) s.draws.nonceWrap
      (aadFor keyfileVersion s.keyType) s.draws.dek.1 = some r.ctWrap ∧
    X.encryptRaw s.draws.dek s.draws.noncePayload (aadFor keyfileVersion s.keyType) s.payload =
      some r.ctPayload ∧
    r.salt = s.draws.salt ∧ r.nonceWrap = s.draws.nonceWrap ∧
      r.noncePayload = s.draws.noncePayload := by
  unfold Sealing.record at done
  split at done
  · next wrapped boxed =>
    cases done
    exact ⟨wrapped, boxed, rfl, rfl, rfl⟩
  · cases done

theorem aadFor_injective {version : UInt8} {keyType other : String}
    (same : aadFor version keyType = aadFor version other) : keyType = other := by
  have whole := String.toByteArray_inj.mp (ByteArray.ext (Array.ext' same))
  exact (String.append_right_inj _).mp whole

/-- A file within the size limit parses as the record it was built from, if at all: the length
of the wrapped key is not cut off. -/
theorem parseKeyfile_built {r parsed : Record} (within : (buildRecord r).length ≤ maxKeyfileSize)
    (parses : parseKeyfile (buildRecord r) = .ok parsed) : parsed = r := by
  obtain ⟨same, wrap, _⟩ := parseKeyfile_ok parses
  have bound : 76 + r.ctWrap.length + r.ctPayload.length ≤ 65536 := by
    rw [buildRecord_length] at within
    exact within
  have place : ∀ r : Record, ((buildRecord r).drop 56).take 2 = u16be r.ctWrap.length := by
    intro r
    have salt : r.salt.1.drop 46 = [] := List.drop_eq_nil_of_le (by rw [r.salt.2]; omega)
    rw [buildRecord_eq]
    simp [keyfileMagic, u16be, List.drop_append, r.salt.2, r.nonceWrap.2, salt]
  have length : r.ctWrap.length = ctWrapLen := by
    have bytes : u16be parsed.ctWrap.length = u16be r.ctWrap.length := by
      rw [← place, ← place, same]
    simp only [u16be, List.cons.injEq, and_true] at bytes
    rw [← join_u16be (show r.ctWrap.length < 65536 by omega), ← bytes.1, ← bytes.2, wrap]
    rfl
  have whole := parseKeyfile_build length (show r.ctPayload.length < 4294967296 by omega)
  exact Except.ok.inj (parses.symm.trans whole)

theorem unwrap_built {r parsed : Record} {mk dek : Key} {keyType : String}
    (within : (buildRecord r).length ≤ maxKeyfileSize)
    (opened : unwrapRecord X (buildRecord r) mk keyType = .ok (parsed, dek)) :
    parsed = r ∧ r.version = keyfileVersion ∧
      X.decryptRaw (deriveKek X mk r.salt) r.nonceWrap (aadFor keyfileVersion keyType) r.ctWrap =
        some dek.1 := by
  obtain ⟨parses, header, unwrapped⟩ := unwrapRecord_ok_iff.mp opened
  have same := parseKeyfile_built within parses
  subst same
  have version : parsed.version = keyfileVersion := by
    unfold checkHeader at header
    split at header
    · cases header
    · next good =>
      simp only [ne_eq, not_or, not_not] at good
      exact good.1
  rw [version] at unwrapped
  exact ⟨rfl, version, unwrapDek_ok_iff.mp unwrapped⟩

theorem decryptPayloadBytes_ok_iff {dek : Key} {nonce : Nonce} {ct aad payload : Bytes} :
    decryptPayloadBytes X dek nonce ct aad = .ok payload ↔
      X.decryptRaw dek nonce aad ct = some payload := by
  unfold decryptPayloadBytes
  cases X.decryptRaw dek nonce aad ct with
  | none => simp
  | some found => simp

theorem Rewrapping.record_ok {a : Rewrapping} {out : Record} (done : a.record X = .ok out) :
    ∃ dek : Key, unwrapRecord X (buildRecord a.input) a.oldMk a.keyType = .ok (a.input, dek) ∧
      a.input.version = keyfileVersion ∧
      X.decryptRaw (deriveKek X a.oldMk a.input.salt) a.input.nonceWrap
        (aadFor keyfileVersion a.keyType) a.input.ctWrap = some dek.1 ∧
      X.encryptRaw (deriveKek X a.newMk a.salt) a.nonceWrap (aadFor keyfileVersion a.keyType)
        dek.1 = some out.ctWrap ∧
      out.salt = a.salt ∧ out.nonceWrap = a.nonceWrap ∧ SamePayload out a.input := by
  obtain ⟨⟨r, dek⟩, opened, rest⟩ := bind_ok done
  obtain ⟨rfl, version, decrypted⟩ := unwrap_built a.within opened
  simp only [version] at rest
  split at rest
  · cases rest
  · next ctWrap wrapped =>
    cases rest
    exact ⟨dek, opened, version, decrypted, wrapped, rfl, rfl, rfl, rfl⟩

end

namespace KeyfileRun

section
variable {run : KeyfileRun} {X : Crypto} {s : Sealing} {mk : Key} {keyType : String} {r : Record}

theorem Issued.member (issued : run.Issued X s mk keyType r) : s ∈ run.sealings := by
  induction issued with
  | sealed member _ => exact member
  | rewrapped _ _ _ _ ih => exact ih

theorem Issued.sameKeyType (issued : run.Issued X s mk keyType r) : s.keyType = keyType := by
  induction issued with
  | sealed => rfl
  | rewrapped _ _ _ _ ih => exact ih

theorem Issued.input (issued : run.Issued X s mk keyType r) : (mk, r.salt) ∈ run.inputs := by
  cases issued with
  | sealed member done =>
    obtain ⟨_, _, salt, _⟩ := Sealing.record_ok done
    exact .inl ⟨s, member, by rw [salt]⟩
  | rewrapped _ _ member done =>
    obtain ⟨_, _, _, _, _, salt, _⟩ := Rewrapping.record_ok done
    exact .inr ⟨_, member, .inl (by rw [salt])⟩

theorem Issued.encrypts (issued : run.Issued X s mk keyType r) :
    run.Encrypts X (deriveKek X mk r.salt) r.nonceWrap (aadFor keyfileVersion keyType)
      r.ctWrap := by
  cases issued with
  | sealed member done =>
    obtain ⟨wrapped, _, salt, nonce, _⟩ := Sealing.record_ok done
    rw [salt, nonce]
    exact .wrap member wrapped
  | rewrapped _ _ member done =>
    obtain ⟨dek, opened, version, _, wrapped, salt, nonce, _⟩ := Rewrapping.record_ok done
    rw [salt, nonce, ← version]
    rw [← version] at wrapped
    exact .rewrap member opened wrapped

/-- The wrap holds the data key of the original sealing, through any number of rewrappings. -/
theorem Issued.wraps (lawful : X.Lawful) (issued : run.Issued X s mk keyType r) :
    X.encryptRaw (deriveKek X mk r.salt) r.nonceWrap (aadFor keyfileVersion keyType)
      s.draws.dek.1 = some r.ctWrap := by
  induction issued with
  | sealed _ done =>
    obtain ⟨wrapped, _, salt, nonce, _⟩ := Sealing.record_ok done
    rw [salt, nonce]
    exact wrapped
  | rewrapped _ wrap _ done ih =>
    obtain ⟨dek, _, _, decrypted, wrapped, salt, nonce, _⟩ := Rewrapping.record_ok done
    obtain ⟨fromSalt, fromNonce, fromWrap⟩ := wrap
    rw [fromSalt, fromNonce, fromWrap, lawful.decrypt_encrypt ih] at decrypted
    rw [salt, nonce, Option.some.inj decrypted]
    exact wrapped

end

variable (run : KeyfileRun) (X : Crypto)

/-- What a field was made as. -/
inductive Piece : Slot → Bytes → Prop
  | drawn {slot : Slot} {bytes : Bytes} (random : bytes ∈ run.drawn)
      (kind : slot ≠ .ctWrap ∧ slot ≠ .ctPayload) : Piece slot bytes
  | wrapped {s : Sealing} {mk : Key} {keyType : String} {r : Record} (made : run.Made X r)
      (issued : run.Issued X s mk keyType r) : Piece .ctWrap r.ctWrap
  | boxed {s : Sealing} {r : Record} (member : s ∈ run.sealings) (done : s.record X = .ok r) :
      Piece .ctPayload r.ctPayload

/-- What a field may hold that stands in the place `slot`. -/
def Traced (slot : Slot) (bytes : Bytes) : Prop :=
  ∃ kind, run.Piece X kind bytes ∧ (run.exchanged = false → kind = slot)

variable {run X} {load : Key × Fixed 32} (symbolic : run.Symbolic X load) (lawful : X.Lawful)
include symbolic

/-- A random value does not pass for a ciphertext. -/
theorem Symbolic.not_drawn {slot kind : Slot} {bytes plaintext aad : Bytes} {key : Key}
    {nonce : Nonce} (cipher : slot = .ctWrap ∨ slot = .ctPayload) (random : bytes ∈ run.drawn)
    (plain : kind ≠ .ctWrap ∧ kind ≠ .ctPayload) (place : run.exchanged = false → kind = slot)
    (decrypted : X.decryptRaw key nonce aad bytes = some plaintext) : False := by
  cases moved : run.exchanged with
  | false =>
    cases place moved
    exact cipher.elim plain.1 plain.2
  | true =>
    rw [symbolic.noCiphertext moved bytes random] at decrypted
    cases decrypted

include lawful

/-- A wrap that decrypts under a derived key is that of a record issued under exactly this
master key, salt, nonce and key type. -/
theorem Symbolic.unwraps {r : Record} {mk : Key} {keyType : String} {dek : Bytes}
    (traced : run.Traced X .ctWrap r.ctWrap) (input : (mk, r.salt) ∈ insert load run.inputs)
    (decrypted : X.decryptRaw (deriveKek X mk r.salt) r.nonceWrap
      (aadFor keyfileVersion keyType) r.ctWrap = some dek) :
    ∃ s wrapped, run.Made X wrapped ∧ run.Issued X s mk keyType wrapped ∧ SameWrap r wrapped ∧
      dek = s.draws.dek.1 := by
  obtain ⟨kind, piece, place⟩ := traced
  generalize bytes : r.ctWrap = ct at piece decrypted
  cases piece with
  | drawn random plain =>
    exact (symbolic.not_drawn (.inl rfl) random plain place decrypted).elim
  | @wrapped s mk' keyType' wrapped made issued =>
    obtain ⟨key, nonce, aad⟩ := symbolic.only issued.encrypts decrypted
    have same := symbolic.collisionFree input (.inr issued.input) key
    obtain ⟨rfl, salt⟩ := Prod.mk.inj same
    cases aadFor_injective aad
    have opened := lawful.decrypt_encrypt (issued.wraps lawful)
    rw [← salt, ← nonce, decrypted] at opened
    exact ⟨s, wrapped, made, issued, ⟨salt, nonce, bytes⟩, Option.some.inj opened⟩
  | boxed member done =>
    -- a payload in the place of a wrap would have the derived key for its data key
    cases moved : run.exchanged with
    | false => cases place moved
    | true =>
      obtain ⟨_, boxed, _⟩ := Sealing.record_ok done
      obtain ⟨key, _⟩ := symbolic.only (.payload member boxed) decrypted
      exact (symbolic.keysApart moved _ member _ input key.symm).elim

/-- A payload that decrypts under a drawn data key is the one sealed with it. -/
theorem Symbolic.unboxes {r : Record} {s : Sealing} {aad payload : Bytes}
    (traced : run.Traced X .ctPayload r.ctPayload) (member : s ∈ run.sealings)
    (decrypted : X.decryptRaw s.draws.dek r.noncePayload aad r.ctPayload = some payload) :
    ∃ first, s.record X = .ok first ∧ SamePayload r first ∧ payload = s.payload := by
  obtain ⟨kind, piece, place⟩ := traced
  generalize bytes : r.ctPayload = ct at piece decrypted
  cases piece with
  | drawn random plain =>
    exact (symbolic.not_drawn (.inr rfl) random plain place decrypted).elim
  | wrapped _ issued =>
    cases moved : run.exchanged with
    | false => cases place moved
    | true =>
      obtain ⟨key, _⟩ := symbolic.only issued.encrypts decrypted
      exact (symbolic.keysApart moved _ member _ (.inr issued.input) key).elim
  | @boxed other first found done =>
    obtain ⟨_, boxed, _, _, drawnNonce⟩ := Sealing.record_ok done
    obtain ⟨key, nonce, sameAad⟩ := symbolic.only (.payload found boxed) decrypted
    cases symbolic.distinct member found key
    have opened := lawful.decrypt_encrypt boxed
    rw [← nonce, ← sameAad, decrypted] at opened
    exact ⟨first, done, ⟨nonce.trans drawnNonce.symm, bytes⟩, Option.some.inj opened⟩

/-- A rewrapping that succeeds has found the wrap of one record. -/
theorem Symbolic.reissues {a : Rewrapping} {out : Record} (member : a ∈ run.rewrappings)
    (traced : run.Traced X .ctWrap a.input.ctWrap) (done : a.record X = .ok out) :
    ∃ s, run.Issued X s a.newMk a.keyType out := by
  obtain ⟨_, _, _, decrypted, _⟩ := Rewrapping.record_ok done
  have input : (a.oldMk, a.input.salt) ∈ insert load run.inputs :=
    .inr (.inr ⟨a, member, .inr rfl⟩)
  obtain ⟨s, _, _, issued, wrap, _⟩ := symbolic.unwraps lawful traced input decrypted
  exact ⟨s, .rewrapped issued wrap member done⟩

omit symbolic lawful in
/-- Putting a field elsewhere does not change what it was made as. -/
theorem Traced.moved {slot place : Slot} {bytes : Bytes} (traced : run.Traced X place bytes)
    (inPlace : run.exchanged = false → place = slot) : run.Traced X slot bytes := by
  obtain ⟨kind, piece, same⟩ := traced
  exact ⟨kind, piece, fun fixed => (same fixed).trans (inPlace fixed)⟩

theorem Made.traced {r : Record} (made : run.Made X r) (slot : Slot) :
    run.Traced X slot (r.field slot) := by
  -- along the run; a rewrapped record has its payload fields from before
  induction made generalizing slot with
  | @sealed s r member done =>
    obtain ⟨_, _, salt, nonceWrap, noncePayload⟩ := Sealing.record_ok done
    refine ⟨slot, ?_, fun _ => rfl⟩
    cases slot with
    | salt => exact .drawn (.inl ⟨s, member, .inl (by rw [Record.field, salt])⟩) (by decide)
    | nonceWrap =>
      exact .drawn (.inl ⟨s, member, .inr (.inl (by rw [Record.field, nonceWrap]))⟩) (by decide)
    | ctWrap => exact .wrapped (.sealed member done) (.sealed member done)
    | noncePayload =>
      exact .drawn (.inl ⟨s, member, .inr (.inr (by rw [Record.field, noncePayload]))⟩)
        (by decide)
    | ctPayload => exact .boxed member done
  | @rewrapped a out sources places made taken inPlace member done ih =>
    obtain ⟨_, _, _, _, _, salt, nonceWrap, noncePayload, ctPayload⟩ := Rewrapping.record_ok done
    have input : ∀ slot, run.Traced X slot (a.input.field slot) := fun slot => by
      rw [taken]
      exact (ih slot (places slot)).moved fun fixed => inPlace fixed slot
    cases slot with
    | salt =>
      exact ⟨.salt, .drawn (.inr ⟨a, member, .inl (by rw [Record.field, salt])⟩) (by decide),
        fun _ => rfl⟩
    | nonceWrap =>
      exact ⟨.nonceWrap, .drawn (.inr ⟨a, member, .inr (by rw [Record.field, nonceWrap])⟩)
        (by decide), fun _ => rfl⟩
    | ctWrap =>
      obtain ⟨s, issued⟩ := symbolic.reissues lawful member (input .ctWrap) done
      exact ⟨.ctWrap, .wrapped (.rewrapped sources places made taken inPlace member done) issued,
        fun _ => rfl⟩
    | noncePayload =>
      have same : out.field .noncePayload = a.input.field .noncePayload := by
        rw [Record.field, Record.field, noncePayload]
      rw [same]
      exact input .noncePayload
    | ctPayload =>
      have same : out.field .ctPayload = a.input.field .ctPayload := ctPayload
      rw [same]
      exact input .ctPayload

theorem Spliced.traced {r : Record} (spliced : run.Spliced X r) (slot : Slot) :
    run.Traced X slot (r.field slot) := by
  obtain ⟨source, place, made, taken, inPlace⟩ := spliced slot
  rw [taken]
  exact (made.traced symbolic lawful place).moved inPlace

/-- Whatever opens is the payload of the sealing that its wrapped key comes from. -/
theorem Spliced.genuine {r : Record} {payload : Bytes} {mk : Key} {keyType : String}
    (spliced : run.Spliced X r) (loads : load = (mk, r.salt))
    (within : (buildRecord r).length ≤ maxKeyfileSize)
    (opened : openRecord X (buildRecord r) mk keyType = .ok payload) :
    ∃ s wrapped first, run.Genuine X mk keyType r payload s wrapped first := by
  obtain ⟨parsed, dek, unwrapped, decrypted⟩ := openRecord_ok_iff.mp opened
  obtain ⟨rfl, version, wrap⟩ := unwrap_built within unwrapped
  have input : (mk, parsed.salt) ∈ insert load run.inputs := .inl loads.symm
  obtain ⟨s, wrapped, made, issued, same, key⟩ :=
    symbolic.unwraps lawful (spliced.traced symbolic lawful .ctWrap) input wrap
  obtain rfl : dek = s.draws.dek := Subtype.ext key
  have unboxed := decryptPayloadBytes_ok_iff.mp decrypted
  obtain ⟨first, sealed, fields, same'⟩ :=
    symbolic.unboxes lawful (spliced.traced symbolic lawful .ctPayload) issued.member unboxed
  exact ⟨s, wrapped, first, made, issued, same, issued.member, sealed, fields, issued.sameKeyType,
    same'⟩

end KeyfileRun

inductive Place where
  | edSeed
  | diliSeed
  | label (name : Bytes)
  deriving DecidableEq

def Place.path : Place → Path
  | .edSeed => edPriv
  | .diliSeed => diliPriv
  | .label name => labelSecretPath name

def Place.keyType : Place → String
  | .edSeed => ktEdSeed
  | .diliSeed => ktDiliSeed
  | .label name => labelKeyType name

theorem Place.keyType_injective : Function.Injective Place.keyType := by
  have fixed : ∀ label, labelKeyType label ≠ ktEdSeed ∧ labelKeyType label ≠ ktDiliSeed := by
    intro label
    have none := labelKeyType_not_fixed label
    simp only [fixedKeyTypes, List.mem_cons, not_or] at none
    exact ⟨none.1, none.2.1⟩
  have seeds : ktEdSeed ≠ ktDiliSeed := by decide
  intro home place same
  cases home with
  | edSeed =>
    cases place with
    | edSeed => rfl
    | diliSeed => exact absurd same seeds
    | label label => exact absurd same.symm (fixed label).1
  | diliSeed =>
    cases place with
    | edSeed => exact absurd same.symm seeds
    | diliSeed => rfl
    | label label => exact absurd same.symm (fixed label).2
  | label label =>
    cases place with
    | edSeed => exact absurd same (fixed label).1
    | diliSeed => exact absurd same (fixed label).2
    | label other => rw [labelKeyType_injective same]

namespace KeyfileRun
variable (run : KeyfileRun) (X : Crypto)

/-- The record is one that `encode_encrypted` or a rewrapping has given for `keyType`. -/
def Wrote (keyType : String) (r : Record) : Prop :=
  (∃ s ∈ run.sealings, s.keyType = keyType ∧ s.record X = .ok r) ∨
    ∃ a ∈ run.rewrappings, a.keyType = keyType ∧ run.Spliced X a.input ∧ a.record X = .ok r

variable {run X} {load : Key × Fixed 32} (symbolic : run.Symbolic X load) (lawful : X.Lawful)
include symbolic lawful

theorem Wrote.issued {keyType : String} {r : Record} (wrote : run.Wrote X keyType r) :
    ∃ s mk, run.Issued X s mk keyType r := by
  obtain ⟨s, member, rfl, done⟩ | ⟨a, member, rfl, spliced, done⟩ := wrote
  · exact ⟨s, s.masterKey, .sealed member done⟩
  · obtain ⟨s, issued⟩ :=
      symbolic.reissues lawful member (spliced.traced symbolic lawful .ctWrap) done
    exact ⟨s, a.newMk, issued⟩

theorem Wrote.refused {keyType other : String} {r : Record} {mk : Key} {payload : Bytes}
    (wrote : run.Wrote X keyType r) (apart : keyType ≠ other)
    (within : (buildRecord r).length ≤ maxKeyfileSize) :
    openRecord X (buildRecord r) mk other ≠ .ok payload := by
  intro opened
  obtain ⟨parsed, dek, unwrapped, _⟩ := openRecord_ok_iff.mp opened
  obtain ⟨_, _, decrypted⟩ := unwrap_built within unwrapped
  obtain ⟨s, _, issued⟩ := wrote.issued symbolic lawful
  obtain ⟨_, _, aad⟩ := symbolic.only issued.encrypts decrypted
  exact apart (aadFor_injective aad).symm

end KeyfileRun

theorem loadNode_opens {X : Crypto} {node : Node} {mk : Key} {keyType : String} {payload : Bytes}
    (loaded : loadNode X (some node) mk keyType = .ok payload) :
    node.data.length ≤ maxKeyfileSize ∧ openRecord X node.data mk keyType = .ok payload := by
  obtain ⟨_, data, _, _, read, within, opened⟩ := loadNode_ok loaded
  cases readNode_data read
  exact ⟨within, opened⟩

/-- In the symbolic model of the primitives, a file put together from fields of sealed and
rewrapped records loads only if its wrapped key is that of one record issued under exactly
the master key and key type asked for, and its payload that of the sealing this key was drawn
for, which is then what is returned. A keyfile in the place of another one does not load, by
either loader and under whatever master key. The records are those whose bytes the two calls
return. -/
theorem keyfiles_not_spliced {X : Crypto} (lawful : X.Lawful) (run : KeyfileRun) (env : Env)
    (tid : Tid) :
    ((∀ s : Sealing, sealRecord X s.masterKey s.payload s.keyType s.draws =
        (s.record X).map buildRecord) ∧
      ∀ a : Rewrapping, rewrapRecord X (buildRecord a.input) a.oldMk a.newMk a.keyType a.salt
        a.nonceWrap = (a.record X).map buildRecord) ∧
    (∀ mk keyType r w w' path node payload, run.Symbolic X (mk, r.salt) → run.Spliced X r →
      w.fs.get path = some node → node.data = buildRecord r →
      Returns (sem env tid) (loadBytesDecrypted X path mk keyType) w (.ok payload) w' →
      ∃ s wrapped first, run.Genuine X mk keyType r payload s wrapped first) ∧
    ∀ (home place : Place) mk r w node, home ≠ place → run.Symbolic X (mk, r.salt) →
      run.Wrote X home.keyType r → w.fs.get place.path = some node → node.data = buildRecord r →
      (Delivers (sem env tid) (loadBytesDecrypted X place.path mk place.keyType) w
          fun result _ => ∃ e, result = .error e) ∧
        Delivers (sem env tid) (loadSecret32Decrypted X place.path mk place.keyType) w
          fun result _ => ∃ e, result = .error e := by
  refine ⟨⟨sealRecord_eq X, rewrapRecord_eq X⟩, ?_, ?_⟩
  · intro mk keyType r w w' path node payload symbolic spliced found data returned
    have answers := (loadBytesDecrypted_delivers X env mk path keyType tid w).2 _ _ returned
    rw [found] at answers
    obtain ⟨within, opened⟩ := loadNode_opens answers.ok
    rw [data] at within opened
    exact spliced.genuine symbolic lawful rfl within opened
  · intro home place mk r w node apart symbolic wrote found data
    have refused : ∀ payload, loadNode X (w.fs.get place.path) mk place.keyType ≠ .ok payload := by
      intro payload loaded
      rw [found] at loaded
      obtain ⟨within, opened⟩ := loadNode_opens loaded
      rw [data] at within opened
      have keyTypes : home.keyType ≠ place.keyType := Place.keyType_injective.ne apart
      exact wrote.refused symbolic lawful keyTypes within opened
    exact loads_refused refused env tid

/-- The tag says which of the listed encryptions it is, if any. -/
def entryTag (table : List (Key × Nonce × Bytes)) (key : Key) (nonce : Nonce) (aad : Bytes) :
    Bytes := List.replicate 16 (UInt8.ofNat (table.idxOf (key, nonce, aad)))

def ledger (table : List (Key × Nonce × Bytes)) : Crypto where
  encryptRaw key nonce aad plaintext :=
    if aad.length ≤ Crypto.limit ∧ plaintext.length ≤ Crypto.limit then
      some (plaintext ++ entryTag table key nonce aad)
    else none
  decryptRaw key nonce aad ciphertext :=
    if aad.length ≤ Crypto.limit ∧ 16 ≤ ciphertext.length ∧
        ciphertext.drop (ciphertext.length - 16) = entryTag table key nonce aad then
      some (ciphertext.take (ciphertext.length - 16))
    else none
  hkdf salt ikm _ len := ⟨List.replicate len ((salt.getD []).headD 0 + ikm.headD 0), by simp⟩
  ed25519PubFromSeed seed := seed.1
  mldsa87PubFromSeed seed := seed.1 ++ seed.1

section
variable {table : List (Key × Nonce × Bytes)} {key : Key} {nonce : Nonce}
  {aad plaintext ciphertext : Bytes}

theorem ledger_tagging : Tagging (ledger table) (entryTag table) :=
  ⟨fun _ _ _ => List.length_replicate, fun _ _ _ _ => rfl, fun _ _ _ _ => rfl⟩

/-- What was encrypted as an entry of the table decrypts as this entry only. -/
theorem ledger_only {key' : Key} {nonce' : Nonce} {aad' opened : Bytes}
    (short : table.length < 256) (entry : (key, nonce, aad) ∈ table)
    (encrypted : (ledger table).encryptRaw key nonce aad plaintext = some ciphertext)
    (decrypted : (ledger table).decryptRaw key' nonce' aad' ciphertext = some opened) :
    key' = key ∧ nonce' = nonce ∧ aad' = aad := by
  obtain ⟨_, rfl⟩ := ledger_tagging.encrypt encrypted
  obtain ⟨_, _, tag⟩ := ledger_tagging.decrypt decrypted
  rw [ledger_tagging.drop] at tag
  have byte := (List.replicate_inj.mp tag).2.resolve_left (by decide)
  have index : table.idxOf (key, nonce, aad) = table.idxOf (key', nonce', aad') := by
    have first : table.idxOf (key, nonce, aad) < 256 :=
      (List.idxOf_lt_length_of_mem entry).trans short
    have second : table.idxOf (key', nonce', aad') < 256 := List.idxOf_le_length.trans_lt short
    have same := congrArg UInt8.toNat byte
    rwa [UInt8.toNat_ofNat_of_lt' first, UInt8.toNat_ofNat_of_lt' second] at same
  have entries := (List.idxOf_inj entry).mp index
  simp only [Prod.mk.injEq] at entries
  exact ⟨entries.1.symm, entries.2.1.symm, entries.2.2.symm⟩

/-- Bytes that count past the table are no tag. -/
theorem ledger_refuses {n : Nat} {b : UInt8} (past : table.length < b.toNat) :
    (ledger table).decryptRaw key nonce aad (List.replicate n b) = none := by
  cases decrypted : (ledger table).decryptRaw key nonce aad (List.replicate n b) with
  | none => rfl
  | some plaintext =>
    obtain ⟨_, long, tag⟩ := ledger_tagging.decrypt decrypted
    rw [List.length_replicate] at long tag
    have whole : n - (n - 16) = 16 := by omega
    rw [List.drop_replicate, whole] at tag
    have byte := (List.replicate_inj.mp tag).2.resolve_left (by decide)
    have index : table.idxOf (key, nonce, aad) ≤ table.length := List.idxOf_le_length
    have small : table.idxOf (key, nonce, aad) < 256 := by
      have := b.toNat_lt
      omega
    rw [byte, UInt8.toNat_ofNat_of_lt' small] at past
    omega

end

def uniformNonce (b : UInt8) : Nonce := ⟨List.replicate 12 b, by simp⟩

def otherLabel : Bytes := [0xcd]

def sampleSealing (label : Bytes) (b : UInt8) : Sealing :=
  ⟨uniform 1, labelKeyType label, [b],
    ⟨uniform (b + 0x80), uniform (b + 0x40), uniformNonce b, uniformNonce (b + 8)⟩⟩

/-- The encryptions of a sealing, in the table's terms. -/
def Sealing.entries (s : Sealing) : List (Key × Nonce × Bytes) :=
  [(deriveKek (ledger []) s.masterKey s.draws.salt, s.draws.nonceWrap,
      aadFor keyfileVersion s.keyType),
    (s.draws.dek, s.draws.noncePayload, aadFor keyfileVersion s.keyType)]

def sampleTable : List (Key × Nonce × Bytes) :=
  (sampleSealing sampleLabel 0x10).entries ++ (sampleSealing otherLabel 0x11).entries ++
    [(deriveKek (ledger []) (uniform 2) (uniform 0x60), uniformNonce 0x20,
      aadFor keyfileVersion (labelKeyType sampleLabel))]

def beforeRewrap : Record :=
  ⟨keyfileVersion, algIdAes256GcmSiv, dekLen, uniform 0x50, uniformNonce 0x10,
    (uniform 0x90).1 ++ List.replicate 16 0, uniformNonce 0x18, [0x10] ++ List.replicate 16 1⟩

def sampleRewrapping : Rewrapping :=
  ⟨beforeRewrap, by decide +kernel, uniform 1, uniform 2, labelKeyType sampleLabel, uniform 0x60,
    uniformNonce 0x20⟩

def afterRewrap : Record :=
  { beforeRewrap with
    salt := uniform 0x60
    nonceWrap := uniformNonce 0x20
    ctWrap := (uniform 0x90).1 ++ List.replicate 16 4 }

/-- Two labels' secrets are sealed, then the first is rewrapped; any field can end up in the
place of any other. -/
def sampleRun : KeyfileRun :=
  ⟨{sampleSealing sampleLabel 0x10, sampleSealing otherLabel 0x11}, {sampleRewrapping}, true⟩

def sampleInputs : List (Key × Fixed 32) :=
  [(uniform 1, uniform 0x50), (uniform 1, uniform 0x51), (uniform 2, uniform 0x60)]

theorem sampleRun_inputs :
    ∀ input ∈ insert (uniform 2, afterRewrap.salt) sampleRun.inputs, input ∈ sampleInputs := by
  rintro input (rfl | ⟨s, rfl | rfl, rfl⟩ | ⟨a, rfl, rfl | rfl⟩) <;> decide

theorem sampleRun_symbolic :
    sampleRun.Symbolic (ledger sampleTable) (uniform 2, afterRewrap.salt) where
  only := by
    intro key key' nonce nonce' aad aad' ct plaintext encrypts decrypted
    cases encrypts with
    | wrap member done =>
      refine ledger_only (by decide +kernel) ?_ done decrypted
      obtain rfl | rfl := member <;> decide +kernel
    | payload member done =>
      refine ledger_only (by decide +kernel) ?_ done decrypted
      obtain rfl | rfl := member <;> decide +kernel
    | rewrap member opened done =>
      refine ledger_only (by decide +kernel) ?_ done decrypted
      obtain rfl := member
      obtain ⟨rfl, _, _⟩ := unwrap_built sampleRewrapping.within opened
      decide +kernel
  collisionFree := by
    have apart : ∀ one ∈ sampleInputs, ∀ other ∈ sampleInputs,
        deriveKek (ledger sampleTable) one.1 one.2 = deriveKek (ledger sampleTable) other.1 other.2 →
          one = other := by decide +kernel
    intro one here other there same
    exact apart one (sampleRun_inputs one here) other (sampleRun_inputs other there) same
  distinct := by
    rintro s (rfl | rfl) s' (rfl | rfl) same
    · rfl
    · exact absurd same (by decide)
    · exact absurd same (by decide)
    · rfl
  keysApart := by
    have apart : ∀ input ∈ sampleInputs,
        uniform 0x90 ≠ deriveKek (ledger sampleTable) input.1 input.2 ∧
          uniform 0x91 ≠ deriveKek (ledger sampleTable) input.1 input.2 := by decide +kernel
    rintro _ s (rfl | rfl) input here
    · exact (apart input (sampleRun_inputs input here)).1
    · exact (apart input (sampleRun_inputs input here)).2
  noCiphertext := by
    rintro _ bytes (⟨s, rfl | rfl, rfl | rfl | rfl⟩ | ⟨a, rfl, rfl | rfl⟩) key nonce aad <;>
      exact ledger_refuses (by decide +kernel)

theorem afterRewrap_made : sampleRun.Made (ledger sampleTable) afterRewrap := by
  have first : sampleRun.Made (ledger sampleTable) beforeRewrap :=
    .sealed (.inl rfl) (by decide +kernel)
  exact .rewrapped (fun _ => beforeRewrap) id (fun _ => first) (fun _ => rfl) (fun _ _ => rfl)
    rfl (by decide +kernel)

/-- The rewrapped record loads to what was sealed, and not in the place of the other label. -/
theorem keyfiles_not_spliced_sample :
    (∃ s wrapped first, sampleRun.Genuine (ledger sampleTable) (uniform 2)
      (labelKeyType sampleLabel) afterRewrap [0x10] s wrapped first) ∧
    Delivers (sem (sampleEnv false) 0) (loadBytesDecrypted (ledger sampleTable)
        (labelSecretPath otherLabel) (uniform 2) (labelKeyType otherLabel))
      (sampleWorld [(labelSecretPath otherLabel, buildRecord afterRewrap)])
      fun result _ => ∃ e, result = .error e := by
  obtain ⟨_, loads, moved⟩ := keyfiles_not_spliced (@ledger_tagging sampleTable).lawful sampleRun
    (sampleEnv false) 0
  constructor
  · refine loads _ _ _ _ _ _ (privateFile (buildRecord afterRewrap)) _ sampleRun_symbolic
      (fun slot => ⟨afterRewrap, slot, afterRewrap_made, rfl, fun _ => rfl⟩)
      (show (sampleWorld [(labelSecretPath sampleLabel, buildRecord afterRewrap)]).fs.get
        (labelSecretPath sampleLabel) = _ by decide +kernel) rfl
      (follow_returns (exec (sampleEnv false) 0) (plainly 1 someLeaf) 20 0 (by decide +kernel))
  · refine (moved (.label sampleLabel) (.label otherLabel) (uniform 2) afterRewrap _
      (privateFile (buildRecord afterRewrap)) (by decide) sampleRun_symbolic ?_
      (by decide +kernel) rfl).1
    refine .inr ⟨sampleRewrapping, rfl, rfl, fun slot => ?_, by decide +kernel⟩
    exact ⟨beforeRewrap, slot, .sealed (.inl rfl) (by decide +kernel), rfl, fun _ => rfl⟩

end Lithium.Keys
