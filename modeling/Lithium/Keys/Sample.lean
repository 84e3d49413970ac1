import Lithium.Keys.Preparation

/-! An instance of the primitives that can be evaluated, which shows that their laws
are consistent, and a small store to run the programs on. Encryption appends a tag
made of the key. -/
namespace Lithium.Keys
open Effects Storage

def tag (key : Key) : Bytes := key.1.take 16

def tagged : Crypto where
  encryptRaw key _ aad plaintext :=
    if aad.length ≤ Crypto.limit ∧ plaintext.length ≤ Crypto.limit then some (plaintext ++ tag key)
    else none
  decryptRaw key _ aad ciphertext :=
    if aad.length ≤ Crypto.limit ∧ 16 ≤ ciphertext.length ∧
        ciphertext.drop (ciphertext.length - 16) = tag key then
      some (ciphertext.take (ciphertext.length - 16))
    else none
  hkdf _ ikm _ len := if fits : ikm.length = len then ⟨ikm, fits⟩ else ⟨List.replicate len 0xff, by simp⟩
  ed25519PubFromSeed seed := seed.1
  mldsa87PubFromSeed seed := seed.1 ++ seed.1

theorem length_tag (key : Key) : (tag key).length = 16 := by simp [tag, key.2]

/-- Encryption appends a tag of 16 bytes, and decryption checks it. -/
structure Tagging (X : Crypto) (tagOf : Key → Nonce → Bytes → Bytes) : Prop where
  length : ∀ key nonce aad, (tagOf key nonce aad).length = 16
  encrypts : ∀ key nonce aad plaintext, X.encryptRaw key nonce aad plaintext =
    if aad.length ≤ Crypto.limit ∧ plaintext.length ≤ Crypto.limit then
      some (plaintext ++ tagOf key nonce aad)
    else none
  decrypts : ∀ key nonce aad ciphertext, X.decryptRaw key nonce aad ciphertext =
    if aad.length ≤ Crypto.limit ∧ 16 ≤ ciphertext.length ∧
        ciphertext.drop (ciphertext.length - 16) = tagOf key nonce aad then
      some (ciphertext.take (ciphertext.length - 16))
    else none

section
variable {X : Crypto} {tagOf : Key → Nonce → Bytes → Bytes} (tagging : Tagging X tagOf) {key : Key}
  {nonce : Nonce} {aad plaintext ciphertext : Bytes}
include tagging

theorem Tagging.encrypt (encrypted : X.encryptRaw key nonce aad plaintext = some ciphertext) :
    (aad.length ≤ Crypto.limit ∧ plaintext.length ≤ Crypto.limit) ∧
      ciphertext = plaintext ++ tagOf key nonce aad := by
  rw [tagging.encrypts] at encrypted
  split at encrypted
  · next within => exact ⟨within, (Option.some.inj encrypted).symm⟩
  · cases encrypted

theorem Tagging.decrypt (decrypted : X.decryptRaw key nonce aad ciphertext = some plaintext) :
    aad.length ≤ Crypto.limit ∧ 16 ≤ ciphertext.length ∧
      ciphertext.drop (ciphertext.length - 16) = tagOf key nonce aad := by
  rw [tagging.decrypts] at decrypted
  split at decrypted
  · assumption
  · cases decrypted

theorem Tagging.drop (key : Key) (nonce : Nonce) (aad plaintext : Bytes) :
    (plaintext ++ tagOf key nonce aad).drop ((plaintext ++ tagOf key nonce aad).length - 16) =
      tagOf key nonce aad := by
  have cut : (plaintext ++ tagOf key nonce aad).length - 16 = plaintext.length := by
    simp [tagging.length]
  rw [cut, List.drop_left]

theorem Tagging.refuses {other : Key} {otherAad : Bytes}
    (encrypted : X.encryptRaw key nonce aad plaintext = some ciphertext)
    (apart : tagOf key nonce aad ≠ tagOf other nonce otherAad) :
    X.decryptRaw other nonce otherAad ciphertext = none := by
  obtain ⟨_, rfl⟩ := tagging.encrypt encrypted
  rw [tagging.decrypts, tagging.drop, if_neg]
  rintro ⟨_, _, same⟩
  exact apart same

theorem Tagging.lawful : X.Lawful where
  decrypt_encrypt := fun encrypted => by
    obtain ⟨within, rfl⟩ := tagging.encrypt encrypted
    simp [tagging.decrypts, within.1, tagging.length]
  length_encrypt := fun encrypted => by
    obtain ⟨_, rfl⟩ := tagging.encrypt encrypted
    simp [tagging.length]
  encrypt_within := fun key nonce _ _ aad plaintext => by
    simp [tagging.encrypts, aad, plaintext]
  decrypt_within := fun decrypted => (tagging.decrypt decrypted).1

end

theorem tagged_tagging : Tagging tagged fun key _ _ => tag key :=
  ⟨fun key _ _ => length_tag key, fun _ _ _ _ => rfl, fun _ _ _ _ => rfl⟩

theorem tagged_lawful : tagged.Lawful := tagged_tagging.lawful

def uniform (b : UInt8) : Key := ⟨List.replicate 32 b, by simp⟩

def Uniform (key : Key) : Prop := key = uniform (key.1.headD 0)

instance (key : Key) : Decidable (Uniform key) := inferInstanceAs (Decidable (_ = _))

theorem uniform_uniform (b : UInt8) : Uniform (uniform b) := rfl

theorem tagged_separated : Separated tagged Uniform := by
  intro mk mk' here there apart salt nonce aad dek wrapped encrypted
  have kek : ∀ mk : Key, deriveKek tagged mk salt = mk := fun mk => by
    simp [deriveKek, tagged, mk.2]
  refine tagged_tagging.refuses encrypted ?_
  intro same
  rw [kek, kek, here, there] at same
  simp only [tag, uniform, List.take_replicate, List.replicate_inj] at same
  obtain ⟨_, same | same⟩ := same
  · cases same
  · exact apart (here.trans ((congrArg uniform same).trans there.symm))

/-- Master keys are uniform and never the current one. -/
def sampleEnv (faults : Bool) : Env where
  faults := faults
  may _ _ := true
  masterKey cur new := decide (Uniform new) && decide (cur ≠ some new)
  clock := 0

/-- Every call may fail but for the existence checks. -/
def sightedEnv : Env := { sampleEnv true with
  may := fun op _ => match op with
    | .stat _ => false
    | _ => true }

theorem sightedEnv_sighted : sightedEnv.Sighted := ⟨fun _ => .inr fun _ => rfl⟩

theorem sampleEnv_fresh (faults : Bool) : FreshDraws (sampleEnv faults) Uniform := by
  intro mk new _ admitted
  simp only [sampleEnv, Bool.and_eq_true, decide_eq_true_eq] at admitted
  exact ⟨admitted.1, fun same => admitted.2 (congrArg some same)⟩

theorem sampleEnv_draws (faults : Bool) (mk : Option Key) :
    ∃ new, (sampleEnv faults).masterKey mk new = true := by
  by_cases same : mk = some (uniform 0)
  · subst same
    exact ⟨uniform 1, rfl⟩
  · exact ⟨uniform 0, by simp [sampleEnv, uniform_uniform, same]⟩

/-- The choices of a run in which nothing fails, every draw consists of the byte `b`,
and `pick` says what is removed next. -/
def plainly (b : UInt8) (pick : World → Path) : Nat → Op → World → Choice := fun _ op w =>
  { fault := none
    bytes := match op with
      | .random use => List.replicate use.len b
      | _ => []
    pick := pick w
    time := 0 }

/-- The first entry of the rotation directory with nothing in it. -/
def someLeaf (w : World) : Path :=
  ((w.fs.below rotateDir).find? fun path => w.fs.childless path).getD []

/-- The choices of a run in which every existence check of this path fails. -/
def blindTo (path : Path) : Nat → Op → World → Choice := fun count op w =>
  { plainly 2 someLeaf count op w with fault := match op with
      | .stat checked => if checked = path then some (.io .other) else none
      | _ => none }

theorem mem_keys_of_get {fs : FileSystem FileName} {path : Path} (present : fs.get path ≠ none) :
    path ∈ fs.entries.keys := by
  rw [← AList.mem_keys, ← AList.lookup_isSome]
  exact Option.isSome_iff_ne_none.mpr present

def opensAll (X : Crypto) (mk : Key) (w : World) : Bool :=
  w.fs.entries.keys.all fun path => (keyTypeOf path).all fun keyType =>
    (loadNode X (w.fs.get path) mk keyType).toOption.isSome

theorem settled_of_opensAll {X : Crypto} {mk : Key} {w : World} (opens : opensAll X mk w = true)
    (provided : w.control.providerMk = some mk) (unmarked : w.fs.get readyPath = none) :
    Settled X (payloadsOf X mk w.view) w := by
  refine ⟨mk, provided, (view_of_visible rotate_files_storable.1.1).trans unmarked,
    liveUnder_payloadsOf fun path keyType known => ?_⟩
  rw [view_of_visible (live_storable known).1]
  by_cases present : w.fs.get path = none
  · exact .inl present
  · have opened := List.all_eq_true.mp opens path (mem_keys_of_get present)
    rw [known, Option.all_some] at opened
    cases loaded : loadNode X (w.fs.get path) mk keyType with
    | ok payload => exact .inr ⟨payload, rfl⟩
    | error e =>
      rw [loaded] at opened
      cases opened

def privateDirAt (w : World) (dir : Path) : Bool :=
  (w.fs.get dir).any fun node => node.ftype = .directory && node.mode &&& 0o077 = 0

theorem privateDir_of_check {w : World} {dir : Path} (checked : privateDirAt w dir = true) :
    PrivateDir w dir := by
  obtain ⟨node, found, checked⟩ := (Option.any_eq_true _ _).mp checked
  simp only [Bool.and_eq_true, decide_eq_true_eq] at checked
  exact ⟨node, found, checked.1, checked.2⟩

/-- No temp file of process `pid` among the entries. -/
def unclaimedBy (w : World) (pid : Nat) : Bool :=
  w.fs.entries.keys.all fun path => (stampOf path).all fun stamp => stamp.1 ≠ pid

theorem unclaimed_of_check {w : World} {pid : Nat} (checked : unclaimedBy w pid = true) {path : Path}
    {seq : Nat} (stamp : stampOf path = some (pid, seq)) : w.fs.get path = none := by
  by_contra present
  have other := List.all_eq_true.mp checked path (mem_keys_of_get present)
  simp [stamp] at other

theorem tidy_of_check {w : World}
    (checked : (privateDirAt w rootDir && privateDirAt w privDir && privateDirAt w secretsDir &&
      unclaimedBy w w.pid) = true) (rotate : RotateDirOk w) : Tidy w := by
  simp only [Bool.and_eq_true] at checked
  obtain ⟨⟨⟨root, priv⟩, secrets⟩, unclaimed⟩ := checked
  refine ⟨privateDir_of_check root, privateDir_of_check priv, privateDir_of_check secrets, rotate,
    fun path seq stamp present => ?_⟩
  rw [unclaimed_of_check unclaimed stamp] at present
  cases present

def sampleLabel : Bytes := [0xab]

/-- A record that `tagged` seals under the key of zeros. -/
def sampleRecord (payload : Bytes) (keyType : String) : Bytes :=
  ((sealRecord tagged (uniform 0) payload keyType
    ⟨uniform 7, uniform 8, zeroNonce, zeroNonce⟩).toOption).getD []

def sampleFs (files : List (Path × Bytes)) : FileSystem FileName :=
  files.foldl (fun fs file => ((fs.createNew file.1).2.write file.2 file.1).2)
    ([rootDir, pubDir, privDir, secretsDir].foldl (fun fs dir => (fs.mkdir dir).2) FileSystem.empty)

/-- A running manager on such a store, all of it durable. -/
def sampleWorld (files : List (Path × Bytes)) : World :=
  ⟨{ sampleFs files with unsynced := [] }, 1, [], ⟨some (uniform 0), none, false, [], none, true⟩⟩

def sample : World :=
  sampleWorld [(labelSecretPath sampleLabel, sampleRecord [1, 2, 3] (labelKeyType sampleLabel))]

theorem sample_settled : Settled tagged (payloadsOf tagged (uniform 0) sample.view) sample :=
  settled_of_opensAll (by decide +kernel) rfl (by decide +kernel)

theorem sample_tidy : Tidy sample :=
  tidy_of_check (by decide +kernel) (.inl (by decide +kernel))

theorem sample_known : ∀ mk, sample.control.providerMk = some mk → Uniform mk := by
  rintro mk ⟨⟩
  exact uniform_uniform 0

end Lithium.Keys
