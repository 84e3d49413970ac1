import Lithium.Crypto.BaseKey
import Lithium.Crypto.Sample
import Lithium.Hpke.Protocol

/-! Domain separation. Every derivation extends the caller's context by a path of its own
and uses the result as the HKDF label, with a byte string bound to it or not. A label can
be read from its end in one way only, so two derivations share a label only if the path of
one ends in the path of the other and the callers' contexts make up the difference. -/
namespace Lithium.Crypto
open Keys (Bytes Fixed Key Nonce LithiumError)

namespace Context

theorem slash_free {ctx extended : Context} {segment : Bytes}
    (added : ctx.add segment = .ok extended) : slash ∉ segment := by
  rw [add, validateSegment] at added
  split at added
  · cases added
  · split at added
    next charset => exact fun member => (charset slash member).2 rfl
    · cases added

theorem join_inj {text text' segment segment' : Bytes} (free : slash ∉ segment)
    (free' : slash ∉ segment') (same : text ++ slash :: segment = text' ++ slash :: segment') :
    text = text' ∧ segment = segment' := by
  have upTo : ∀ text segment : Bytes, slash ∉ segment →
      (text ++ slash :: segment).reverse.takeWhile (· ≠ slash) = segment.reverse := by
    intro text segment free
    have all : ∀ byte ∈ segment.reverse, decide (byte ≠ slash) = true := by
      intro byte member
      apply decide_eq_true
      rintro rfl
      exact free (List.mem_reverse.mp member)
    rw [List.reverse_append, List.reverse_cons, List.append_assoc,
      List.takeWhile_append_of_pos all]
    simp
  have segments : segment = segment' := by
    rw [← List.reverse_inj, ← upTo text segment free, same, upTo text' segment' free']
  subst segments
  exact ⟨List.append_cancel_right same, rfl⟩

/-- An extended context tells what it was extended from and by. -/
theorem add_injective {one other extended : Context} {segment segment' : Bytes}
    (added : one.add segment = .ok extended) (added' : other.add segment' = .ok extended) :
    one = other ∧ segment = segment' := by
  have same := (text_add added).symm.trans (text_add added')
  obtain ⟨texts, segments⟩ := join_inj (slash_free added) (slash_free added') same
  exact ⟨Context.ext texts, segments⟩

def extend (ctx : Context) (path : List Bytes) : Except LithiumError Context :=
  path.foldlM add ctx

theorem extend_concat {ctx extended : Context} {path : List Bytes} {segment : Bytes}
    (done : ctx.extend (path ++ [segment]) = .ok extended) :
    ∃ before, ctx.extend path = .ok before ∧ before.add segment = .ok extended := by
  rw [extend, List.foldlM_append] at done
  obtain ⟨before, first, last⟩ := bind_eq_ok done
  obtain ⟨reached, added, rest⟩ := bind_eq_ok last
  cases rest
  exact ⟨before, first, added⟩

/-- Two paths that lead to one context overlap: the longer one ends in the shorter one,
and its caller reaches the other caller's context on the way. -/
theorem extend_overlap {one other extended : Context} {path path' : List Bytes}
    (first : one.extend path = .ok extended) (second : other.extend path' = .ok extended) :
    (∃ between, path = between ++ path' ∧ one.extend between = .ok other) ∨
      ∃ between, path' = between ++ path ∧ other.extend between = .ok one := by
  -- Both paths are read from their ends, one segment at a time.
  induction path' using List.reverseRecOn generalizing path extended with
  | nil =>
    cases second
    exact .inl ⟨path, (List.append_nil path).symm, first⟩
  | append_singleton init last ih =>
    rcases List.eq_nil_or_concat path with rfl | ⟨init', last', rfl⟩
    · cases first
      exact .inr ⟨init ++ [last], (List.append_nil _).symm, second⟩
    · rw [List.concat_eq_append] at first ⊢
      obtain ⟨before, started, added⟩ := extend_concat first
      obtain ⟨before', started', added'⟩ := extend_concat second
      obtain ⟨rfl, rfl⟩ := add_injective added added'
      rcases ih started started' with ⟨between, rfl, reached⟩ | ⟨between, rfl, reached⟩
      · exact .inl ⟨between, List.append_assoc _ _ _, reached⟩
      · exact .inr ⟨between, List.append_assoc _ _ _, reached⟩

theorem bindAad_nil (ctx : Context) : ctx.bindAad [] = ctx.label := List.append_nil _

/-- The labels a construction uses under a context, for the paths it extends it by. A path
that makes the context too long has none. -/
def labels (ctx : Context) (paths : List (List Bytes)) : List Bytes :=
  paths.filterMap fun path => (ctx.extend path).toOption.map label

theorem mem_labels {ctx : Context} {paths : List (List Bytes)} {found : Bytes} :
    found ∈ ctx.labels paths ↔
      ∃ path ∈ paths, ∃ extended, ctx.extend path = .ok extended ∧ extended.label = found := by
  rw [labels, List.mem_filterMap]
  constructor
  · rintro ⟨path, member, mapped⟩
    obtain ⟨extended, reached, rfl⟩ := Option.map_eq_some_iff.mp mapped
    cases done : ctx.extend path with
    | error error =>
      rw [done] at reached
      cases reached
    | ok _ =>
      rw [done] at reached
      cases reached
      exact ⟨path, member, extended, done, rfl⟩
  · rintro ⟨path, member, extended, reached, rfl⟩
    refine ⟨path, member, ?_⟩
    rw [reached]
    rfl

end Context

/-- The paths `kyberbox::seal` and `open` derive keys under. -/
def boxPaths : List (List Bytes) := [[ascii "ecdh-key"], [ascii "base-key"]]

end Lithium.Crypto

namespace Lithium.Hpke
open Keys (Bytes Fixed Key Nonce LithiumError)
open Crypto

/-- The derivations whose HKDF info is a label, with a byte string bound to it or not. -/
inductive Derivation where
  | key
  | baseNonce
  | exporterSecret
  | exported
  | ecdhKey
  | x25519Priv
  | mlkem1024Seed
  deriving DecidableEq

def kemPath : List Bytes := [ascii "hpke", ascii "kem"]

namespace Derivation

def all : List Derivation :=
  [key, baseNonce, exporterSecret, exported, ecdhKey, x25519Priv, mlkem1024Seed]

theorem mem_all (derivation : Derivation) : derivation ∈ all := by
  cases derivation <;> decide

def path : Derivation → List Bytes
  | key => [ascii "hpke", ascii "schedule", ascii "key"]
  | baseNonce => [ascii "hpke", ascii "schedule", ascii "base-nonce"]
  | exporterSecret => [ascii "hpke", ascii "schedule", ascii "exporter-secret"]
  | exported => [ascii "hpke", ascii "export"]
  | ecdhKey => kemPath ++ [ascii "ecdh-key"]
  | x25519Priv => [ascii "hpke", ascii "derive-keypair", ascii "x25519-priv"]
  | mlkem1024Seed => [ascii "hpke", ascii "derive-keypair", ascii "mlkem1024-seed"]

/-- The HKDF info under a caller's context, with the byte string bound to it. The last three
derivations bind none, which is the empty one. -/
def info (derivation : Derivation) (ctx : Context) (bound : Bytes) : Except LithiumError Bytes := do
  return (← ctx.extend derivation.path).bindAad bound

end Derivation

/-- The paths HPKE derives keys under. The info of the base key is its label with three
fixed-length fields behind it, so it is no `Derivation`. -/
def hpkePaths : List (List Bytes) :=
  (kemPath ++ [ascii "base-key"]) :: Derivation.all.map Derivation.path

section
variable (X : Suite) (ctx : Context)

theorem keySchedule_eq (sharedSecret : Fixed 32) (info : Bytes) :
    keySchedule X ctx sharedSecret info = (do
      let key ← derive32Raw X sharedSecret.1 none (← Derivation.key.info ctx info)
      let nonceMaterial ←
        derive32Raw X sharedSecret.1 none (← Derivation.baseNonce.info ctx info)
      let exporterSecret ←
        derive32Raw X sharedSecret.1 none (← Derivation.exporterSecret.info ctx info)
      let baseNonce ← Fixed.fromSlice 12 (nonceMaterial.1.take 12)
      return { key, baseNonce, exporterSecret }) := by
  simp only [keySchedule, Derivation.info, Derivation.path, Context.extend,
    List.foldlM_cons, List.foldlM_nil]
  -- The context of the schedule is computed once in the source and three times here.
  cases ctx.add (ascii "hpke") with
  | error error => rfl
  | ok hpke =>
    simp only [ok_bind]
    cases hpke.add (ascii "schedule") with
    | error error => rfl
    | ok sched => simp only [ok_bind, bind_assoc, pure_bind]

theorem exportSecret_eq (hpkeCtx : HpkeContext) (exporterContext : Bytes) (len : Nat) :
    exportSecret X ctx hpkeCtx exporterContext len = (do
      deriveBytesRaw X hpkeCtx.exporterSecret.1 none
        (← Derivation.exported.info ctx exporterContext) len) := by
  simp only [exportSecret, Derivation.info, Derivation.path, Context.extend,
    List.foldlM_cons, List.foldlM_nil, bind_assoc, pure_bind]

theorem deriveKeypair_eq (ikm : Bytes) :
    deriveKeypair X ctx ikm =
      if ikm.length < minIkmLen then .error (.malformedInput "hpke_ikm_too_short")
      else do
        let xPriv ← derive32Raw X ikm none (← Derivation.x25519Priv.info ctx [])
        let kSeed ← deriveBytesRaw X ikm none (← Derivation.mlkem1024Seed.info ctx []) 64
        return ({ xPriv, kPriv := kSeed.1 },
          { xPub := X.x25519Pub xPriv, kPub := (X.mlkemPub kSeed).1 }) := by
  simp only [deriveKeypair, Derivation.info, Derivation.path, Context.extend, Context.bindAad_nil,
    List.foldlM_cons, List.foldlM_nil]
  refine if_congr Iff.rfl rfl ?_
  cases ctx.add (ascii "hpke") with
  | error error => rfl
  | ok hpke =>
    simp only [ok_bind]
    cases hpke.add (ascii "derive-keypair") with
    | error error => rfl
    | ok kp => simp only [ok_bind, bind_assoc, pure_bind]

theorem kemEncap_eq (draws : EncapDraws) (recipientXPub : Fixed 32) (recipientKPub : Bytes) :
    kemEncap X draws ctx recipientXPub recipientKPub = (do
      let ephX ← draws.ephX
      let kemCtx ← ctx.extend kemPath
      let (sharedSecret, kemCt, xPub) ←
        prepBaseKeyForEncryption X draws.coins kemCtx ephX.1 recipientXPub recipientKPub
      return (sharedSecret, { xPub, kemCt })) := by
  simp only [kemEncap, Context.extend, kemPath, List.foldlM_cons, List.foldlM_nil, bind_assoc,
    pure_bind]

theorem kemDecap_eq (recipientXPriv recipientKPriv : Bytes) (enc : HpkeEnc) :
    kemDecap X ctx recipientXPriv recipientKPriv enc = (do
      prepBaseKeyForDecryption X (← ctx.extend kemPath) recipientXPriv enc.xPub recipientKPriv
        enc.kemCt) := by
  simp only [kemDecap, Context.extend, kemPath, List.foldlM_cons, List.foldlM_nil, bind_assoc,
    pure_bind]

theorem ecdhKey_info : Derivation.ecdhKey.info ctx [] = (do
    return (← (← ctx.extend kemPath).add (ascii "ecdh-key")).label) := by
  simp only [Derivation.info, Derivation.path, Context.extend, List.foldlM_append,
    List.foldlM_cons, List.foldlM_nil, Context.bindAad_nil, bind_assoc, pure_bind]

/-- The functions of HPKE give HKDF the infos of their derivations. The KEM runs `kyberbox` under
the caller's context, extended, and `kyberbox` extends that for its ECDH key. -/
structure DerivesUnder : Prop where
  schedule : ∀ (sharedSecret : Fixed 32) (info : Bytes), keySchedule X ctx sharedSecret info = (do
    let key ← derive32Raw X sharedSecret.1 none (← Derivation.key.info ctx info)
    let nonceMaterial ← derive32Raw X sharedSecret.1 none (← Derivation.baseNonce.info ctx info)
    let exporterSecret ←
      derive32Raw X sharedSecret.1 none (← Derivation.exporterSecret.info ctx info)
    let baseNonce ← Fixed.fromSlice 12 (nonceMaterial.1.take 12)
    return { key, baseNonce, exporterSecret })
  exported : ∀ (hpkeCtx : HpkeContext) (exporterContext : Bytes) (len : Nat),
    exportSecret X ctx hpkeCtx exporterContext len = (do
      deriveBytesRaw X hpkeCtx.exporterSecret.1 none
        (← Derivation.exported.info ctx exporterContext) len)
  keypair : ∀ ikm : Bytes, deriveKeypair X ctx ikm =
    if ikm.length < minIkmLen then .error (.malformedInput "hpke_ikm_too_short")
    else do
      let xPriv ← derive32Raw X ikm none (← Derivation.x25519Priv.info ctx [])
      let kSeed ← deriveBytesRaw X ikm none (← Derivation.mlkem1024Seed.info ctx []) 64
      return ({ xPriv, kPriv := kSeed.1 },
        { xPub := X.x25519Pub xPriv, kPub := (X.mlkemPub kSeed).1 })
  encap : ∀ (draws : EncapDraws) (recipientXPub : Fixed 32) (recipientKPub : Bytes),
    kemEncap X draws ctx recipientXPub recipientKPub = (do
      let ephX ← draws.ephX
      let kemCtx ← ctx.extend kemPath
      let (sharedSecret, kemCt, xPub) ←
        prepBaseKeyForEncryption X draws.coins kemCtx ephX.1 recipientXPub recipientKPub
      return (sharedSecret, { xPub, kemCt }))
  decap : ∀ (recipientXPriv recipientKPriv : Bytes) (enc : HpkeEnc),
    kemDecap X ctx recipientXPriv recipientKPriv enc = (do
      prepBaseKeyForDecryption X (← ctx.extend kemPath) recipientXPriv enc.xPub recipientKPriv
        enc.kemCt)
  ecdh : Derivation.ecdhKey.info ctx [] = (do
    return (← (← ctx.extend kemPath).add (ascii "ecdh-key")).label)

theorem derivesUnder : DerivesUnder X ctx where
  schedule := keySchedule_eq X ctx
  exported := exportSecret_eq X ctx
  keypair := deriveKeypair_eq X ctx
  encap := kemEncap_eq X ctx
  decap := kemDecap_eq X ctx
  ecdh := ecdhKey_info ctx

end

theorem Derivation.eq_of_suffix {one other : Derivation} (ends : one.path <:+ other.path) :
    one = other := by
  have apart : ∀ one ∈ all, ∀ other ∈ all, one.path <:+ other.path → one = other := by
    decide +kernel
  exact apart one one.mem_all other other.mem_all ends

theorem Derivation.info_inj {one other : Derivation} {ctx ctx' : Context} {bound bound' info : Bytes}
    (first : one.info ctx bound = .ok info) (second : other.info ctx' bound' = .ok info) :
    one = other ∧ ctx = ctx' ∧ bound = bound' := by
  obtain ⟨extended, reached, same⟩ := bind_eq_ok first
  obtain ⟨extended', reached', same'⟩ := bind_eq_ok second
  cases same
  obtain ⟨rfl, rfl⟩ := Context.bindAad_inj (Except.ok.inj same')
  have kinds : one = other := by
    rcases Context.extend_overlap reached reached' with ⟨_, ends, -⟩ | ⟨_, ends, -⟩
    · exact (Derivation.eq_of_suffix ⟨_, ends.symm⟩).symm
    · exact Derivation.eq_of_suffix ⟨_, ends.symm⟩
  subst kinds
  refine ⟨rfl, ?_, rfl⟩
  -- The paths are the same, so the callers' contexts differ by nothing.
  rcases Context.extend_overlap reached reached' with ⟨between, ends, nothing⟩ | ⟨between, ends, nothing⟩
  · cases List.self_eq_append_left.mp ends
    cases nothing
    rfl
  · cases List.self_eq_append_left.mp ends
    cases nothing
    rfl

/-- The derivations of HPKE are pairwise separated: the infos its functions give HKDF determine the
derivation, the caller's context and the byte string bound to it. -/
theorem info_determines (X : Suite) :
    (∀ ctx, DerivesUnder X ctx) ∧
      ∀ {one other : Derivation} {ctx ctx' : Context} {bound bound' info : Bytes},
        one.info ctx bound = .ok info → other.info ctx' bound' = .ok info →
        one = other ∧ ctx = ctx' ∧ bound = bound' :=
  ⟨derivesUnder X, Derivation.info_inj⟩

/-- Two ways to one context. -/
theorem info_determines_sample :
    ∃ one other : Context, sampleContext.extend [ascii "hpke", ascii "export"] = .ok one ∧
      (sampleContext.add (ascii "hpke")).bind (·.add (ascii "export")) = .ok other ∧
      Derivation.exported.info one (ascii "/v1") =
        .ok (ascii "app/hpke/export/hpke/export/v1" ++ 0 :: ascii "/v1") ∧
      Derivation.exported.info other (ascii "/v1") =
        .ok (ascii "app/hpke/export/hpke/export/v1" ++ 0 :: ascii "/v1") ∧ one = other := by
  obtain ⟨one, reached⟩ : ∃ one, sampleContext.extend [ascii "hpke", ascii "export"] = .ok one := ⟨_, rfl⟩
  obtain ⟨other, added⟩ : ∃ other,
    (sampleContext.add (ascii "hpke")).bind (·.add (ascii "export")) = .ok other := ⟨_, rfl⟩
  have first : Derivation.exported.info one (ascii "/v1") =
      .ok (ascii "app/hpke/export/hpke/export/v1" ++ 0 :: ascii "/v1") := by
    cases reached
    rfl
  have second : Derivation.exported.info other (ascii "/v1") =
      .ok (ascii "app/hpke/export/hpke/export/v1" ++ 0 :: ascii "/v1") := by
    cases added
    rfl
  exact ⟨one, other, reached, added, first, second, ((info_determines sampleSuite).2 first second).2.1⟩

abbrev HkdfCall := Option Bytes × Bytes × Bytes

def HkdfSeparates (X : Suite) (one other : HkdfCall) : Prop :=
  X.hkdf one.1 one.2.1 one.2.2 32 = X.hkdf other.1 other.2.1 other.2.2 32 → one = other

section
variable (X : Suite)

/-- The last call of HKDF while a base key is prepared, which yields it. -/
def baseCall (ctx : Context) (secret peer ss ctT ekT : Fixed 32) (ct : Fixed 1568) : HkdfCall :=
  (some ss.1, (ecdhKeyOf X ctx secret peer).1, baseInfo ctx ctT ekT (X.sha256 ct.1))

/-- The key of a message that `kyberbox` seals or opens for a recipient, and the call that
yields it. -/
inductive MessageKey (ctx : Context) (xPub : Fixed 32) (kPub : Bytes) : Fixed 32 → HkdfCall → Prop
  | sealed {coins secret key : Fixed 32} {kemCt : Bytes} {senderXPub ss : Fixed 32} {ct : Fixed 1568}
      (prepared : prepBaseKeyForEncryption X coins ctx secret.1 xPub kPub =
        .ok (key, kemCt, senderXPub))
      (encapsulated : X.encapsulate kPub coins = some (ct, ss)) :
      MessageKey ctx xPub kPub key (baseCall X ctx secret xPub ss (X.x25519Pub secret) xPub ct)
  | opened {secret senderXPub key : Fixed 32} {seed : Fixed 64} {ct : Fixed 1568}
      (ownX : X.x25519Pub secret = xPub) (ownK : (X.mlkemPub seed).1 = kPub)
      (prepared : prepBaseKeyForDecryption X ctx secret.1 senderXPub seed.1 (kemBlob ct) = .ok key) :
      MessageKey ctx xPub kPub key
        (baseCall X ctx secret senderXPub (X.decapsulate seed ct) senderXPub xPub ct)

/-- The shared secret of an HPKE encapsulation to a recipient, and the call that yields
it. -/
inductive SharedSecret (ctx : Context) (xPub : Fixed 32) (kPub : Bytes) : Fixed 32 → HkdfCall → Prop
  | encapsulated {draws : EncapDraws} {kemCtx : Context} {ephX sharedSecret ss : Fixed 32}
      {ct : Fixed 1568} {enc : HpkeEnc}
      (done : kemEncap X draws ctx xPub kPub = .ok (sharedSecret, enc))
      (drawn : draws.ephX = .ok ephX) (reached : ctx.extend kemPath = .ok kemCtx)
      (encapsulated : X.encapsulate kPub draws.coins = some (ct, ss)) :
      SharedSecret ctx xPub kPub sharedSecret
        (baseCall X kemCtx ephX xPub ss (X.x25519Pub ephX) xPub ct)

end

/-- The keys a box is sealed with under one context and those HPKE derives under another
are apart: no label is shared, and unless HKDF collides no message key is a shared secret
of an encapsulation to the same keys. -/
structure Separated (boxCtx hpkeCtx : Context) : Prop where
  labels : ∀ label ∈ boxCtx.labels boxPaths, label ∉ hpkeCtx.labels hpkePaths
  keys : ∀ {X xPub kPub key call sharedSecret call'}, MessageKey X boxCtx xPub kPub key call →
    SharedSecret X hpkeCtx xPub kPub sharedSecret call' → HkdfSeparates X call call' →
    key ≠ sharedSecret

/-- Boxes are sealed under the very context the KEM of HPKE extends its caller's to. -/
def Mirrors (boxCtx hpkeCtx : Context) : Prop :=
  hpkeCtx.extend kemPath = .ok boxCtx ∧ boxCtx.labels boxPaths ≠ []

section
variable {X : Suite} {ctx : Context} {xPub key : Fixed 32} {kPub : Bytes} {call : HkdfCall}

theorem MessageKey.of_call (sealed : MessageKey X ctx xPub kPub key call) :
    key = X.hkdf call.1 call.2.1 call.2.2 32 ∧ Admits ctx (ascii "base-key") ∧
      ∃ ctT ekT ctHash, call.2.2 = baseInfo ctx ctT ekT ctHash := by
  cases sealed with
  | sealed prepared encapsulated =>
    obtain ⟨secret, ct, ss, same, -, -, encrypts⟩ := prepBaseKeyForEncryption_eq_ok prepared
    cases Subtype.ext same
    cases Option.some.inj (encapsulated.symm.trans encrypts.encapsulated)
    exact ⟨encrypts.key, encrypts.base, _, _, _, rfl⟩
  | opened ownX ownK prepared =>
    obtain ⟨secret, seed, ct, same, sameSeed, sameCt, decrypts⟩ :=
      prepBaseKeyForDecryption_eq_ok prepared
    cases Subtype.ext same
    cases Subtype.ext sameSeed
    cases kemBlob_inj sameCt
    rw [← ownX]
    exact ⟨decrypts.key, decrypts.base, _, _, _, rfl⟩

theorem SharedSecret.of_call (shared : SharedSecret X ctx xPub kPub key call) :
    key = X.hkdf call.1 call.2.1 call.2.2 32 ∧ ∃ kemCtx, ctx.extend kemPath = .ok kemCtx ∧
      ∃ ctT ekT ctHash, call.2.2 = baseInfo kemCtx ctT ekT ctHash := by
  cases shared with
  | encapsulated done drawn reached encapsulated =>
    rw [kemEncap_eq, drawn, reached, ok_bind, ok_bind] at done
    obtain ⟨⟨sharedSecret, kemCt, eph⟩, prepared, rest⟩ := bind_eq_ok done
    cases rest
    obtain ⟨secret, ct, ss, same, -, -, encrypts⟩ := prepBaseKeyForEncryption_eq_ok prepared
    cases Subtype.ext same
    cases Option.some.inj (encapsulated.symm.trans encrypts.encapsulated)
    exact ⟨encrypts.key, _, reached, _, _, _, rfl⟩

end

/-- A box path is the end of a path of HPKE only behind the path of the KEM. -/
theorem boxPaths_suffix {path path' : List Bytes} (box : path ∈ boxPaths) (hpke : path' ∈ hpkePaths) :
    ¬ path' <:+ path ∧ (path <:+ path' → path' = kemPath ++ path) := by
  have all : ∀ path ∈ boxPaths, ∀ path' ∈ hpkePaths,
      ¬ path' <:+ path ∧ (path <:+ path' → path' = kemPath ++ path) := by
    decide +kernel
  exact all path box path' hpke

theorem mem_hpkePaths {path : List Bytes} (box : path ∈ boxPaths) : kemPath ++ path ∈ hpkePaths := by
  have all : ∀ path ∈ boxPaths, kemPath ++ path ∈ hpkePaths := by decide +kernel
  exact all path box

theorem extend_append {ctx between extended : Context} {path path' : List Bytes}
    (first : ctx.extend path = .ok between) (second : between.extend path' = .ok extended) :
    ctx.extend (path ++ path') = .ok extended := by
  rw [Context.extend, List.foldlM_append, ← Context.extend, first, ok_bind]
  exact second

/-- Boxes and HPKE are separated unless the boxes are sealed under a context that ends in
the segments of the KEM. -/
theorem separated_iff (boxCtx hpkeCtx : Context) :
    Separated boxCtx hpkeCtx ↔ ¬ Mirrors boxCtx hpkeCtx := by
  constructor
  · rintro separated ⟨reached, used⟩
    obtain ⟨label, member⟩ := List.exists_mem_of_ne_nil _ used
    obtain ⟨path, box, extended, added, rfl⟩ := Context.mem_labels.mp member
    apply separated.labels _ member
    exact Context.mem_labels.mpr
      ⟨kemPath ++ path, mem_hpkePaths box, extended, extend_append reached added, rfl⟩
  · intro unmirrored
    constructor
    · intro label box hpke
      obtain ⟨path, isBox, extended, reached, rfl⟩ := Context.mem_labels.mp box
      obtain ⟨path', isHpke, extended', reached', same⟩ := Context.mem_labels.mp hpke
      cases Context.label_inj same
      obtain ⟨never, behind⟩ := boxPaths_suffix isBox isHpke
      rcases Context.extend_overlap reached reached' with ⟨_, ends, -⟩ | ⟨between, ends, mirrored⟩
      · exact never ⟨_, ends.symm⟩
      · cases List.append_cancel_right (ends.symm.trans (behind ⟨_, ends.symm⟩))
        exact unmirrored ⟨mirrored, List.ne_nil_of_mem box⟩
    · intro X xPub kPub key call sharedSecret call' sealed shared separates same
      obtain ⟨keyEq, ⟨extended, added⟩, _, _, _, info⟩ := sealed.of_call
      obtain ⟨sharedEq, kemCtx, reached, _, _, _, info'⟩ := shared.of_call
      cases separates (keyEq.symm.trans (same.trans sharedEq))
      obtain ⟨rfl, -⟩ := baseInfo_inj (info.symm.trans info')
      have member : extended.label ∈ boxCtx.labels boxPaths := by
        apply Context.mem_labels.mpr
        refine ⟨[ascii "base-key"], by decide, extended, ?_, rfl⟩
        rw [Context.extend, List.foldlM_cons, added]
        rfl
      exact unmirrored ⟨reached, List.ne_nil_of_mem member⟩

def mirrorContext : Context := ⟨ascii "app/hpke/kem", by decide, by decide⟩

/-- Under `app/hpke/kem` a box is sealed with the shared secret that HPKE encapsulates under
`app` to the same keys, if the same values are drawn. -/
theorem box_key_shared :
    Context.base (ascii "app") = .ok sampleContext ∧
    (do (← sampleContext.add (ascii "hpke")).add (ascii "kem")) = .ok mirrorContext ∧
    ascii "app/hpke/kem/base-key/v1" ∈ mirrorContext.labels boxPaths ∧
    ascii "app/hpke/kem/base-key/v1" ∈ sampleContext.labels hpkePaths ∧
    (∃ key kemCt xPub,
      prepBaseKeyForEncryption sampleSuite (fit 32 [9]) mirrorContext (fit 32 [4]).1 (fit 32 [1])
        (fit 1568 [2]).1 = .ok (key, kemCt, xPub) ∧
      kemEncap sampleSuite ⟨.ok (fit 32 [4]), fit 32 [9]⟩ sampleContext (fit 32 [1])
        (fit 1568 [2]).1 = .ok (key, ⟨xPub, kemCt⟩)) ∧
    ¬ Separated mirrorContext sampleContext := by
  have reached : sampleContext.extend kemPath = .ok mirrorContext := rfl
  have works : (prepBaseKeyForEncryption sampleSuite (fit 32 [9]) mirrorContext (fit 32 [4]).1
      (fit 32 [1]) (fit 1568 [2]).1).isOk = true := by decide +kernel
  refine ⟨rfl, rfl, by decide +kernel, by decide +kernel, ?_, ?_⟩
  · cases prepared : prepBaseKeyForEncryption sampleSuite (fit 32 [9]) mirrorContext (fit 32 [4]).1
        (fit 32 [1]) (fit 1568 [2]).1 with
    | error error =>
      rw [prepared] at works
      cases works
    | ok result =>
      refine ⟨result.1, result.2.1, result.2.2, rfl, ?_⟩
      rw [kemEncap_eq, ok_bind, reached, ok_bind, prepared]
      rfl
  · rw [separated_iff]
    exact fun unmirrored => unmirrored ⟨reached, by decide⟩

end Lithium.Hpke
