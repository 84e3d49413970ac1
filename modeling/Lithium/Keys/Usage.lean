import Lithium.Crypto.Signing
import Lithium.Keys.Interruption
import Lithium.Keys.LabelAgreement

/-! What the callers of a manager do: they ask for secrets, encrypt and decrypt under a label,
sign, and rotate. All they are given follows from what the keyfiles hold, which only grows, in
any interleaving of their calls with fault-free rotations, and which is not lost where such a
run is cut off. -/
namespace Lithium.Keys
open Effects Storage
open Lithium.Crypto (Suite SignatureSuite Context DoubleSig DualVerifyingKey ascii)

/-- The key store uses the primitives of the message layers. -/
def storeCrypto (A : Suite) (S : SignatureSuite) : Crypto where
  toSymmetric := A.toSymmetric
  ed25519PubFromSeed seed := (S.ed25519Pub seed).1
  mldsa87PubFromSeed seed := (S.mldsa87Pub seed).1

/-- The context of `encrypt_with_label` and `decrypt_with_label`. -/
def labelAeadContext : Except LithiumError Context := do
  let base ← Context.base (ascii "lithium")
  let ctx ← base.add (ascii "keymanager")
  ctx.add (ascii "label-aead")

section
variable (A : Suite) (S : SignatureSuite) (cached : Bool) (mode : CreateNewMode)

def encryptWithLabel (label plaintext aad : Bytes) : Prog Bytes := do
  let dek ← getOrCreateSecret32 (storeCrypto A S) cached mode label
  let ctx ← Program.done labelAeadContext
  let nonce ← (randomFixed .nonce).attempt
  Program.done (Crypto.encrypt A nonce plaintext dek ctx aad)

def decryptWithLabel (label ciphertext aad : Bytes) : Prog Bytes := do
  let dek ← getOrCreateSecret32 (storeCrypto A S) cached mode label
  let ctx ← Program.done labelAeadContext
  Program.done (Crypto.decrypt A ciphertext dek ctx aad)

/-- `KeyManager::sign_double`, which signs after it has given the read lock back. -/
def signDouble (message : Bytes) (ctx : Context) : Prog DoubleSig := do
  let (edSeed, diliSeed) ← signingSeeds (storeCrypto A S) cached
  Program.done (Crypto.signDouble S message edSeed.1 diliSeed.1 ctx)

inductive Task where
  | secret32 (label : Bytes)
  | blob (label : Bytes) (generate : Except LithiumError Bytes)
  | encrypt (label plaintext aad : Bytes)
  | decrypt (label ciphertext aad : Bytes)
  | sign (message : Bytes) (ctx : Context)
  | rotate

def Task.program : Task → Prog Bytes
  | .secret32 label => do return (← getOrCreateSecret32 (storeCrypto A S) cached mode label).1
  | .blob label generate => loadOrCreateSealedBlob (storeCrypto A S) cached mode label generate
  | .encrypt label plaintext aad => encryptWithLabel A S cached mode label plaintext aad
  | .decrypt label ciphertext aad => decryptWithLabel A S cached mode label ciphertext aad
  | .sign message ctx => do return (← signDouble A S cached message ctx).toBytes
  | .rotate => rotating (storeCrypto A S) cached

end

/-- `KeyManager::dual_verifying_key`; the source keeps the Ed25519 key as an array. -/
def dualVerifyingKey (keys : PublicKeys) : Except LithiumError DualVerifyingKey := do
  return { ed25519 := ← Fixed.fromSlice 32 keys.ed25519, mldsa87 := keys.dilithium }

/-- A payload that a caller brings along fits a keyfile. -/
def Task.Fits : Task → Prop
  | .blob _ (.ok payload) => payload.length ≤ maxKeyfileSize - 140
  | _ => True

/-- What the keyfiles hold, for a client with the key that clients have. -/
def holdings (X : Crypto) (cached : Bool) (w : World) : Payloads := fun path =>
  (w.control.clientMk cached).bind fun mk => payloadsOf X mk w.view path

/-- What is held in a live keyfile stays. -/
def Payloads.Grows (held held' : Payloads) : Prop :=
  ∀ path payload, (keyTypeOf path).isSome = true → held path = some payload →
    held' path = some payload

def Payloads.Has (held : Payloads) (label payload : Bytes) : Prop :=
  validateSecretLabel label = .ok () ∧ held (labelSecretPath label) = some payload

/-- A task was given this, with what the keyfiles hold. -/
def Task.Answered (A : Suite) (S : SignatureSuite) (held : Payloads) : Task → Bytes → Prop
  | .secret32 label, answer => held.Has label answer ∧ answer.length = 32
  | .blob label _, answer => held.Has label answer
  | .encrypt label plaintext aad, answer => ∃ (dek : Key) (ctx : Context) (nonce : Nonce),
      held.Has label dek.1 ∧ labelAeadContext = .ok ctx ∧
        Crypto.encryptFramed A plaintext dek nonce ctx aad = .ok answer
  | .decrypt label ciphertext aad, answer => ∃ (dek : Key) (ctx : Context),
      held.Has label dek.1 ∧ labelAeadContext = .ok ctx ∧
        Crypto.decrypt A ciphertext dek ctx aad = .ok answer
  | .sign message ctx, answer => ∃ (edSeed diliSeed : Fixed 32) (sig : DoubleSig),
      held edPriv = some edSeed.1 ∧ held diliPriv = some diliSeed.1 ∧
        Crypto.signDouble S message edSeed.1 diliSeed.1 ctx = .ok sig ∧ answer = sig.toBytes
  | .rotate, _ => True

namespace Payloads.Grows
variable {first second third : Payloads}

theorem refl (held : Payloads) : held.Grows held := fun _ _ _ => id

theorem trans (one : first.Grows second) (other : second.Grows third) : first.Grows third :=
  fun path payload live here => other path payload live (one path payload live here)

theorem has {label payload : Bytes} (grows : first.Grows second) (here : first.Has label payload) :
    second.Has label payload :=
  ⟨here.1, grows _ _ (by rw [keyTypeOf_labelPath]; rfl) here.2⟩

theorem answered {A : Suite} {S : SignatureSuite} {task : Task} {answer : Bytes}
    (grows : first.Grows second) (here : task.Answered A S first answer) :
    task.Answered A S second answer := by
  cases task with
  | secret32 label => exact ⟨grows.has here.1, here.2⟩
  | blob label generate => exact grows.has here
  | encrypt label plaintext aad =>
    obtain ⟨dek, ctx, nonce, found, made, sealed⟩ := here
    exact ⟨dek, ctx, nonce, grows.has found, made, sealed⟩
  | decrypt label ciphertext aad =>
    obtain ⟨dek, ctx, found, made, opened⟩ := here
    exact ⟨dek, ctx, grows.has found, made, opened⟩
  | sign message ctx =>
    obtain ⟨edSeed, diliSeed, sig, ed, dili, signed⟩ := here
    exact ⟨edSeed, diliSeed, sig, grows _ _ rfl ed, grows _ _ rfl dili, signed⟩
  | rotate => trivial

end Payloads.Grows

section
variable {X : Crypto} {cached : Bool} {mk : Key} {path : Path} {keyType : String} {payload : Bytes}
  {w w' : World}

theorem payloadsOf_eq_some {v : View} : payloadsOf X mk v path = some payload ↔
    ∃ keyType, keyTypeOf path = some keyType ∧ loadNode X (v path) mk keyType = .ok payload := by
  rw [payloadsOf, Option.bind_eq_some_iff]
  refine exists_congr fun keyType => and_congr_right fun _ => ?_
  cases loadNode X (v path) mk keyType with
  | error e => exact ⟨fun same => (by cases same), fun same => (by cases same)⟩
  | ok opened => exact ⟨fun same => congrArg _ (Option.some.inj same), fun same => by cases same; rfl⟩

theorem holdings_eq_some : holdings X cached w path = some payload ↔
    ∃ mk keyType, w.control.clientMk cached = some mk ∧ keyTypeOf path = some keyType ∧
      loadNode X (w.view path) mk keyType = .ok payload := by
  rw [holdings, Option.bind_eq_some_iff]
  refine exists_congr fun mk => ?_
  rw [payloadsOf_eq_some]
  exact ⟨fun ⟨sealing, keyType, rest⟩ => ⟨keyType, sealing, rest⟩,
    fun ⟨keyType, sealing, rest⟩ => ⟨sealing, keyType, rest⟩⟩

theorem InService.holdings (service : InService X cached mk w) :
    Keys.holdings X cached w = payloadsOf X mk w.view := by
  funext path
  rw [Keys.holdings, service.sealing, Option.bind_some]

theorem LiveUnder.payloadsOf {payloads : Payloads} {v : View} (live : LiveUnder X payloads mk v)
    (known : keyTypeOf path = some keyType) : Keys.payloadsOf X mk v path = payloads path := by
  have here := live path keyType known
  cases held : payloads path with
  | some payload =>
    rw [held] at here
    exact payloadsOf_eq_some.mpr ⟨keyType, known, here⟩
  | none =>
    rw [held] at here
    have absent : v path = none := here
    rw [Keys.payloadsOf, known, Option.bind_some, absent]
    rfl

theorem Lasts.holdings (lasts : Lasts w w') :
    (Keys.holdings X cached w).Grows (Keys.holdings X cached w') := by
  intro path payload _ found
  obtain ⟨mk, keyType, sealing, known, loads⟩ := holdings_eq_some.mp found
  obtain ⟨node, _, there, _⟩ := loadNode_ok loads
  refine holdings_eq_some.mpr ⟨mk, keyType, (lasts.alike.clientMk cached).trans sealing, known, ?_⟩
  rw [lasts.files _ node there, ← there]
  exact loads

end

section
variable {X : Crypto} {cached : Bool} {mk : Key} {keys : Key → Prop} {w : World}

theorem InService.finished (service : InService X cached mk w) (known : keys mk) :
    FinishedAt X (.plain keys) (payloadsOf X mk w.view) mk w :=
  ⟨⟨service.provided, known⟩, .inl ⟨service.unmarked, liveUnder_payloadsOf service.opens,
    fun _ _ _ _ _ => trivial⟩⟩

theorem InService.locked (service : InService X cached mk w) (i : Tid) :
    InService X cached mk (w.lockedBy i) :=
  service.congr (.relock w w.control.readers (some i)) rfl (service.tidy.control _)

/-- What is so wherever a store in service is cut off. -/
theorem InService.sound (service : InService X cached mk w) (known : keys mk) :
    Sound X (.plain keys) (payloadsOf X mk w.view) False w :=
  ⟨.inr ⟨mk, service.finished known⟩, .inr service.tidy⟩

/-- A fault-free rotation can be recovered from wherever it is cut off. It succeeds, and then the
store is in service and holds what it held. -/
theorem rotateLocked_usage (lawful : X.Lawful) {env : Env}
    (upheld : (Custody.plain keys).Upheld X env) (faultless : env.faults = false) (tid : Tid)
    (service : InService X cached mk w) (known : keys mk) :
    Meets (Solo env tid (Sound X (.plain keys) (payloadsOf X mk w.view) False)) (fun result last =>
      ((∃ mk', InService X cached mk' last.unlocked ∧ keys mk') ∧
        (holdings X cached w).Grows (holdings X cached last.unlocked)) ∧ result = .ok ())
      (rotateLocked X cached) w := by
  have frame : Frame w False w := ⟨rfl, .refl w, .inr service.tidy⟩
  have sighted : env.Sighted := .of_faultless faultless
  refine (rotateLocked_settled lawful upheld (fun none : False => none.elim)
    (fun _ => ⟨faultless, id⟩) cached w ⟨⟨service.finished known, frame⟩, service.unmarked⟩).mono ?_
  rintro (e | _) last ⟨sound, ended⟩
  · exact ended.1.elim
  · obtain ⟨mk', ⟨here, cleared⟩, control, _⟩ := ended
    have sealing : last.control.clientMk cached = some mk' := by
      rw [control]
      cases cached <;> rfl
    have live : last.control.poisoned = false := by
      rw [control]
      exact service.live
    have after : InService X cached mk' last.unlocked := ⟨here.1.1, sealing, cleared.unmarked,
      here.live.under.opensUnder, (sound.2.resolve_left id).control _, live⟩
    refine ⟨⟨⟨mk', after, here.1.2⟩, fun path payload _ found => ?_⟩, rfl⟩
    rw [service.holdings] at found
    obtain ⟨keyType, typed, _⟩ := payloadsOf_eq_some.mp found
    have same : payloadsOf X mk' last.view path = payloadsOf X mk w.view path :=
      here.live.under.payloadsOf typed
    rw [after.holdings]
    exact same.trans found

end

theorem Lasts.relock (w : World) (readers : List Tid) (writer : Option Tid) :
    Lasts w (w.relock readers writer) := .same (.relock w readers writer) rfl

/-- The threads of a manager that serves, with rotations among the given master keys. -/
def usageRegime (X : Crypto) (cached : Bool) (env : Tid → Env) (client : Tid → Prop)
    (keys : Key → Prop) : Regime Payloads where
  sem i := sem (env i) i
  env := env
  client := client
  gated := False
  holds w := ∃ mk, InService X cached mk w ∧ keys mk
  value := holdings X cached
  le := Payloads.Grows
  stays := Lasts
  meaning := id
  gate := False.elim
  le_refl := .refl
  le_trans := .trans
  stays_trans := .trans
  stays_relock := .relock
  holds_relock := by
    rintro w ⟨mk, service, known⟩ readers writer
    exact ⟨mk, service.congr (.relock _ readers writer) rfl (service.tidy.control _), known⟩
  value_relock _ _ _ := rfl
  grows _ lasts := lasts.holdings
  quiet := by
    rintro _ _ _ ⟨mk, service, known⟩ step
    exact ⟨⟨mk, service.congr (.of_control step.control) step.view (step.tidy service.tidy), known⟩,
      .same (.of_control step.control) step.view⟩

section
variable {X : Crypto} {cached : Bool} {env : Tid → Env} {client : Tid → Prop} {keys : Key → Prop}
  {i : Tid}

theorem usage_serves (lawful : X.Lawful) :
    (usageRegime X cached env client keys).Serves X cached .linkNoReplace
      (fun payload => payload.length ≤ maxKeyfileSize - 140)
      (fun label payload w => (holdings X cached w).Has label payload) where
  sealing lasts := lasts.alike.clientMk cached
  fresh secret := by
    rw [secret.2]
    decide
  stable found lasts := lasts.holdings.has found
  loads {label} _ _ _ valid sealing loads :=
    ⟨valid, holdings_eq_some.mpr ⟨_, _, sealing, keyTypeOf_labelPath label, loads⟩⟩
  puts := by
    intro i label payload mk draws data w w' _ valid fits sealed sealing reading room step
    obtain ⟨mk', service, known⟩ := reading.holds
    rw [service.sealing] at sealing
    cases sealing
    obtain ⟨service', lasts, found⟩ := service.put lawful fits sealed room step
    obtain ⟨mk', sealing, loads⟩ := secretAt_eq_some.mp found
    exact ⟨⟨mk, service', known⟩, lasts, valid,
      holdings_eq_some.mpr ⟨mk', _, sealing, keyTypeOf_labelPath label, loads⟩⟩

/-- What a load of a live keyfile tells a client. -/
theorem held_of_answers {α : Type} {mk : Key} {path : Path} {keyType : String} {w : World}
    {read : Bytes → Except LithiumError α} {value : α} {bytes : Bytes} {e : Env}
    (sealing : w.control.clientMk cached = some mk) (known : keyTypeOf path = some keyType)
    (reads : ∀ data, read data = .ok value → data = bytes)
    (answers : Answers e ((loadNode X (w.fs.get path) mk keyType).bind read) (.ok value)) :
    holdings X cached w path = some bytes := by
  have natural := answers.ok
  rw [← view_of_visible (live_storable known).1] at natural
  obtain ⟨data, loads, made⟩ := bind_ok natural
  rw [reads data made] at loads
  exact holdings_eq_some.mpr ⟨mk, keyType, sealing, known, loads⟩

def SeedsHeld (held : Payloads) (seeds : Fixed 32 × Fixed 32) : Prop :=
  held edPriv = some seeds.1.1 ∧ held diliPriv = some seeds.2.1

theorem arenaClaim_reads {α : Type} {P : Protocol Calls World} {e : Env} {tid : Tid} {len : Nat}
    {held : World → Prop} {rest : Prog α} {post : Except LithiumError α → World → Prop}
    (party : Party P e tid) (still : Still P held) (works : Triple P held rest post)
    (failed : ∀ e w, post (.error e) w) :
    Triple P held ((call (.arenaClaim len)).bind fun claimed =>
      (Program.done claimed : Prog Unit).bind fun _ => rest) post := by
  refine observe party still rfl fun claimed => ?_
  cases claimed with
  | error e => exact Triple.done fun w _ => failed e w
  | ok _ => exact works.mono (fun _ here => here.1) fun _ _ => id

theorem signingSeeds_reads :
    Triple ((usageRegime X cached env client keys).reader i) (fun _ => True) (do
      let mk ← currentMk cached
      let edSeed ← loadSecret32Decrypted X edPriv mk ktEdSeed
      let diliSeed ← loadBytesDecrypted X diliPriv mk ktDiliSeed
      Program.done (← call (.arenaClaim 32))
      let diliSeed ← Program.done (Fixed.fromSlice 32 diliSeed)
      Program.done (← call (.arenaClaim 32))
      return (edSeed, diliSeed)) fun result w => ∀ seeds, result = .ok seeds →
        SeedsHeld (holdings X cached w) seeds := by
  have party := (usageRegime X cached env client keys).reader_party i
  have keeps : ∀ held : World → Prop, (∀ {w w'}, held w → Lasts w w' → held w') →
      Still ((usageRegime X cached env client keys).reader i) held := fun held stable =>
    ((usageRegime X cached env client keys).reader_keeps stable).still
  have failed : ∀ (e : LithiumError) w, ∀ seeds, (.error e : Except LithiumError _) = .ok seeds →
      SeedsHeld (holdings X cached w) seeds := fun _ _ _ impossible => by cases impossible
  refine Triple.bind (currentMk_reads party (keeps _ fun _ _ => trivial) cached) (fun mk => ?_)
    fun e w _ => failed e w
  have sealing : ∀ {w w'}, w.control.clientMk cached = some mk → Lasts w w' →
      w'.control.clientMk cached = some mk := fun here lasts => (lasts.alike.clientMk cached).trans here
  refine Triple.mono (Triple.bind (loadSecret32Decrypted_spec X party (keeps _ sealing) edPriv mk
    ktEdSeed) (fun edSeed => ?_) fun e w _ => failed e w) (fun w here => here.2 mk rfl) fun _ _ => id
  have edHeld : ∀ {w w'}, w.control.clientMk cached = some mk ∧
      holdings X cached w edPriv = some edSeed.1 → Lasts w w' → w'.control.clientMk cached = some mk ∧
      holdings X cached w' edPriv = some edSeed.1 := fun here lasts =>
    ⟨sealing here.1 lasts, lasts.holdings _ _ rfl here.2⟩
  refine Triple.mono (Triple.bind (loadBytesDecrypted_whole X party (keeps _ edHeld) diliPriv mk
    ktDiliSeed) (fun payload => ?_) fun e w _ => failed e w) (fun w here => ⟨here.1,
      held_of_answers here.1 (by decide) (fun data => Fixed.fromSlice_eq_ok.mp) here.2⟩) fun _ _ => id
  have both : ∀ {w w'}, holdings X cached w edPriv = some edSeed.1 ∧
      holdings X cached w diliPriv = some payload → Lasts w w' →
      holdings X cached w' edPriv = some edSeed.1 ∧ holdings X cached w' diliPriv = some payload :=
    fun here lasts => ⟨lasts.holdings _ _ rfl here.1, lasts.holdings _ _ rfl here.2⟩
  refine Triple.mono (arenaClaim_reads party (keeps _ both) ?_ failed) (fun w here => ⟨here.1.2,
      held_of_answers here.1.1 (by decide) (fun data => Except.ok.inj) here.2⟩) fun _ _ => id
  cases sliced : Fixed.fromSlice 32 payload with
  | error e => exact Triple.done fun w _ => failed e w
  | ok diliSeed =>
    rw [Fixed.fromSlice_eq_ok.mp sliced] at both ⊢
    refine arenaClaim_reads party (keeps _ both) (Triple.done ?_) failed
    rintro w here _ ⟨⟩
    exact here

end

theorem Regime.looks {G α : Type} {R : Regime G} {i : Tid} {op : Op} {next : Reply op → Prog α}
    (fact : G → Prop) {post : Except LithiumError α → World × G → Prop} (looking : observes op = true)
    (lasting : ∀ {g g'}, fact g → R.le g g' → fact g')
    (rest : ∀ reply, (∃ w w', R.sem i op w reply w') →
      Triple (R.thread i) (fun v => Outside i v.1 ∧ fact v.2) (next reply) post) :
    Triple (R.thread i) (fun v => Outside i v.1 ∧ fact v.2) ((call op).bind next) post := by
  refine Triple.call (fun reply v => (∃ w w', R.sem i op w reply w') ∧ Outside i v.1 ∧ fact v.2) ?_ ?_
    fun reply => .pure (rest reply)
  · exact fun v v' here moved _ => ⟨moved.outside here.1, lasting here.2 moved.grown⟩
  · rintro v here inv reply v' ⟨called, tracked⟩
    obtain rfl := inv.same (observes_same looking (R.meaning called)) tracked
    exact ⟨inv, ⟨fun j _ => .refl R j v', fun _ => ⟨R.stays_refl _, fun _ => rfl⟩⟩, ⟨_, _, called⟩, here⟩

section
variable {A : Suite} {S : SignatureSuite} {cached : Bool} {env : Tid → Env} {client : Tid → Prop}
  {keys : Key → Prop} {i : Tid}

theorem getOrCreateSecret32_usage {X : Crypto} (lawful : X.Lawful) (member : client i) (label : Bytes) :
    Triple ((usageRegime X cached env client keys).thread i) (fun v => Outside i v.1)
      (getOrCreateSecret32 X cached .linkNoReplace label) fun result v => Outside i v.1 ∧
        ∀ secret, result = .ok secret → v.2.Has label secret.1 := by
  have serves : (usageRegime X cached env client keys).Serves X cached .linkNoReplace _ _ :=
    usage_serves lawful
  exact Regime.withReadGate_spec (fun result (g : Payloads) => ∀ secret : Fixed 32,
    result = .ok secret → g.Has label secret.1)
    (fun w _ => serves.secret32_spec member w trivial)
    (fun here stays secret same => serves.stable (here secret same) stays) (fun _ _ => nofun)
    fun here _ => here

theorem label_usage {X : Crypto} {label : Bytes} {rest : Key → Prog Bytes}
    (post : Payloads → Bytes → Prop) (lawful : X.Lawful) (member : client i)
    (follows : ∀ dek : Key, Triple ((usageRegime X cached env client keys).thread i)
      (fun v => Outside i v.1 ∧ v.2.Has label dek.1) (rest dek) fun result v =>
        Outside i v.1 ∧ ∀ answer, result = .ok answer → post v.2 answer) :
    Triple ((usageRegime X cached env client keys).thread i) (fun v => Outside i v.1)
      ((getOrCreateSecret32 X cached .linkNoReplace label).bind rest) fun result v =>
        Outside i v.1 ∧ ∀ answer, result = .ok answer → post v.2 answer := by
  refine Triple.bind (getOrCreateSecret32_usage lawful member label) (fun dek => ?_) ?_
  · exact (follows dek).mono (fun v here => ⟨here.1, here.2 dek rfl⟩) fun _ _ => id
  · exact fun e v here => ⟨here.1, fun answer impossible => by cases impossible⟩

theorem encrypt_usage (lawful : (storeCrypto A S).Lawful) (member : client i)
    (label plaintext aad : Bytes) :
    Triple ((usageRegime (storeCrypto A S) cached env client keys).thread i) (fun v => Outside i v.1)
      (encryptWithLabel A S cached .linkNoReplace label plaintext aad) fun result v =>
        Outside i v.1 ∧ ∀ answer, result = .ok answer →
          (Task.encrypt label plaintext aad).Answered A S v.2 answer := by
  refine label_usage (fun held => (Task.encrypt label plaintext aad).Answered A S held) lawful member
    fun dek => ?_
  cases made : labelAeadContext with
  | error e => exact Triple.done fun v here => ⟨here.1, fun answer impossible => by cases impossible⟩
  | ok ctx =>
    have drawn : Triple ((usageRegime (storeCrypto A S) cached env client keys).thread i)
        (fun v => Outside i v.1 ∧ v.2.Has label dek.1) (randomFixed .nonce)
        fun _ v => Outside i v.1 ∧ v.2.Has label dek.1 := by
      refine Regime.looks (fun held : Payloads => held.Has label dek.1) rfl
        (fun here grows => grows.has here) fun reply _ => ?_
      cases reply with
      | none => exact Triple.done fun v here => here
      | some nonce => exact Triple.done fun v here => here
    refine Triple.attempt_bind drawn fun nonce => Triple.done fun v here => ⟨here.1, fun answer done => ?_⟩
    obtain ⟨nonce', rfl, sealed⟩ := Crypto.bind_eq_ok done
    exact ⟨dek, ctx, nonce', here.2, made, sealed⟩

theorem decrypt_usage (lawful : (storeCrypto A S).Lawful) (member : client i)
    (label ciphertext aad : Bytes) :
    Triple ((usageRegime (storeCrypto A S) cached env client keys).thread i) (fun v => Outside i v.1)
      (decryptWithLabel A S cached .linkNoReplace label ciphertext aad) fun result v =>
        Outside i v.1 ∧ ∀ answer, result = .ok answer →
          (Task.decrypt label ciphertext aad).Answered A S v.2 answer := by
  refine label_usage (fun held => (Task.decrypt label ciphertext aad).Answered A S held) lawful member
    fun dek => ?_
  cases made : labelAeadContext with
  | error e => exact Triple.done fun v here => ⟨here.1, fun answer impossible => by cases impossible⟩
  | ok ctx => exact Triple.done fun v here => ⟨here.1, fun answer opened => ⟨dek, ctx, here.2, made, opened⟩⟩

theorem sign_usage (message : Bytes) (ctx : Context) :
    Triple ((usageRegime (storeCrypto A S) cached env client keys).thread i) (fun v => Outside i v.1)
      (signDouble A S cached message ctx) fun result v => Outside i v.1 ∧
        ∀ sig, result = .ok sig → (Task.sign message ctx).Answered A S v.2 sig.toBytes := by
  have seeds : Triple ((usageRegime (storeCrypto A S) cached env client keys).thread i)
      (fun v => Outside i v.1) (signingSeeds (storeCrypto A S) cached) fun result v => Outside i v.1 ∧
        ∀ seeds, result = .ok seeds → SeedsHeld v.2 seeds :=
    Regime.withReadGate_spec (fun result held => ∀ seeds, result = .ok seeds → SeedsHeld held seeds)
      (fun w _ => signingSeeds_reads w trivial) (fun here lasts seeds same =>
        ⟨lasts.holdings _ _ rfl (here seeds same).1, lasts.holdings _ _ rfl (here seeds same).2⟩)
      (fun _ _ => nofun) fun here _ => here
  refine Triple.bind seeds (fun seeds => Triple.done fun v here => ⟨here.1, fun sig signed => ?_⟩)
    fun e v here => ⟨here.1, fun sig impossible => by cases impossible⟩
  obtain ⟨ed, dili⟩ := here.2 seeds rfl
  exact ⟨seeds.1, seeds.2, sig, ed, dili, signed, rfl⟩

theorem Task.client_usage (lawful : (storeCrypto A S).Lawful) (member : client i) {task : Task}
    (fits : task.Fits) (other : task ≠ .rotate) :
    Triple ((usageRegime (storeCrypto A S) cached env client keys).thread i) (fun v => Outside i v.1)
      (task.program A S cached .linkNoReplace) fun result v => Outside i v.1 ∧
        ∀ answer, result = .ok answer → task.Answered A S v.2 answer := by
  have failed : ∀ {task : Task} (e : LithiumError) (v : World × Payloads), Outside i v.1 →
      Outside i v.1 ∧ ∀ answer, (.error e : Except LithiumError Bytes) = .ok answer →
        task.Answered A S v.2 answer := fun _ _ here => ⟨here, fun answer impossible => by cases impossible⟩
  cases task with
  | secret32 label =>
    refine Triple.bind (getOrCreateSecret32_usage lawful member label) (fun secret => ?_)
      fun e v here => failed e v here.1
    exact Triple.done fun v here => ⟨here.1, by rintro _ ⟨⟩; exact ⟨here.2 secret rfl, secret.2⟩⟩
  | blob label generate =>
    have serves : (usageRegime (storeCrypto A S) cached env client keys).Serves _ cached
        .linkNoReplace _ _ := usage_serves lawful
    have fit : ∀ payload, generate = .ok payload → payload.length ≤ maxKeyfileSize - 140 := by
      rintro payload rfl
      exact fits
    exact Regime.withReadGate_spec (fun result (g : Payloads) => ∀ payload,
      result = .ok payload → g.Has label payload)
      (fun w _ => serves.blob_spec member fit w trivial)
      (fun here stays payload same => serves.stable (here payload same) stays) (fun _ _ => nofun)
      fun here _ => here
  | encrypt label plaintext aad => exact encrypt_usage lawful member label plaintext aad
  | decrypt label ciphertext aad => exact decrypt_usage lawful member label ciphertext aad
  | sign message ctx =>
    refine Triple.bind (sign_usage message ctx) (fun sig => ?_) fun e v here => failed e v here.1
    exact Triple.done fun v here => ⟨here.1, by rintro _ ⟨⟩; exact here.2 sig rfl⟩
  | rotate => exact absurd rfl other

section
variable {allowed : Op → Prop} (free : ∀ op, special op = false → allowed op)
  (ask : allowed .lockRead) (release : allowed .unlockRead) (sync : ∀ dir, allowed (.syncDir dir))
include free ask release

theorem withReadGate_calls {α : Type} {body : Prog α} (calls : body.Calls allowed) :
    (withReadGate body).Calls allowed := by
  refine .bind (checkLive_calls free) fun _ => .bind (.perform ask) fun _ => ?_
  exact .bind (.attempt calls) fun _ => .bind (.bind (.perform release) fun _ => trivial) fun _ => trivial

theorem signingSeeds_calls (claim : allowed (.arenaClaim 32)) (X : Crypto) (cached : Bool) :
    (signingSeeds X cached).Calls allowed := by
  refine withReadGate_calls free ask release (.bind (currentMk_calls free cached) fun mk => ?_)
  refine .bind (loadSecret32Decrypted_calls free X _ _ _) fun _ => ?_
  refine .bind (loadBytesDecrypted_calls free X _ _ _) fun _ => ?_
  refine .bind (.perform claim) fun _ => .bind (.done _) fun _ => .bind (.done _) fun _ => ?_
  exact .bind (.perform claim) fun _ => .bind (.done _) fun _ => trivial

include sync

theorem getOrCreateSecret32_calls (X : Crypto) (cached : Bool) (mode : CreateNewMode) (label : Bytes) :
    (getOrCreateSecret32 X cached mode label).Calls allowed :=
  withReadGate_calls free ask release (.bind (currentMk_calls free cached) fun mk =>
    loadOrCreateLabelSecret32_calls free sync X mk label mode)

/-- Only signing claims room in the arena. -/
theorem Task.client_calls {task : Task} (other : task ≠ .rotate)
    (claim : (∃ message ctx, task = .sign message ctx) → allowed (.arenaClaim 32))
    (mode : CreateNewMode) : (task.program A S cached mode).Calls allowed := by
  have secret := getOrCreateSecret32_calls free ask release sync (storeCrypto A S) cached mode
  cases task with
  | secret32 label => exact .bind (secret label) fun _ => trivial
  | blob label generate =>
    exact withReadGate_calls free ask release (.bind (currentMk_calls free cached) fun mk =>
      loadOrCreateLabelBytes_calls free sync _ mk label generate mode)
  | encrypt label plaintext aad =>
    refine .bind (secret label) fun dek => .bind (.done _) fun ctx => ?_
    exact .bind (.attempt (randomFixed_calls (free _ rfl))) fun nonce => .done _
  | decrypt label ciphertext aad =>
    exact .bind (secret label) fun dek => .bind (.done _) fun ctx => .done _
  | sign message ctx =>
    refine .bind (.bind ?_ fun seeds => .done _) fun sig => trivial
    exact signingSeeds_calls free ask release (claim ⟨message, ctx, rfl⟩) _ cached
  | rotate => exact absurd rfl other

end

/-- A client never asks for the write lock. -/
theorem Task.client_reads {task : Task} (other : task ≠ .rotate) (mode : CreateNewMode) :
    (task.program A S cached mode).Calls fun op => op ≠ Op.lockWrite := by
  have free : ∀ op, special op = false → op ≠ Op.lockWrite := by
    rintro _ free rfl
    cases free
  exact Task.client_calls free nofun nofun (fun _ => nofun) other (fun _ => nofun) mode

/-- The callers of a manager: what they bring along fits a keyfile, rotations meet no fault and
draw fresh master keys. -/
structure Callers (env : Tid → Env) (tasks : Tid → Task) (keys : Key → Prop) : Prop where
  fits : ∀ i, (tasks i).Fits
  faultless : ∀ i, tasks i = .rotate → (env i).faults = false
  fresh : ∀ i, FreshDraws (env i) keys

theorem Callers.spec (lawful : (storeCrypto A S).Lawful) (separated : Separated (storeCrypto A S) keys)
    {tasks : Tid → Task} (callers : Callers env tasks keys) (i : Tid) :
    Triple ((usageRegime (storeCrypto A S) cached env (fun i => tasks i ≠ .rotate) keys).thread i)
      (fun v => Outside i v.1) ((tasks i).program A S cached .linkNoReplace) fun result v =>
        Outside i v.1 ∧ ∀ answer, result = .ok answer → (tasks i).Answered A S v.2 answer := by
  by_cases rotation : tasks i = .rotate
  · rw [rotation]
    refine Triple.bind (Regime.rotateNow_spec (fun client => client rotation) ?_)
      (fun _ => Triple.done fun v here => ⟨here, fun _ _ => trivial⟩)
      fun e v here => ⟨here, fun _ _ => trivial⟩
    rintro w w' ⟨mk, service, known⟩ step
    obtain rfl : w' = w.lockedBy i := (sem_lockWrite step).2
    exact ⟨_, (service.locked i).sound known, (rotateLocked_usage lawful
      (Custody.plain_upheld separated (callers.fresh i)) (callers.faultless i rotation) i
      (service.locked i) known).mono fun _ _ ended => ended.1⟩
  · exact Task.client_usage lawful rotation (callers.fits i) rotation

/-- Wherever a run of callers is cut off: the store is in service, or a rotation that began where
it was in service is at work. -/
theorem Callers.reached (lawful : (storeCrypto A S).Lawful) (separated : Separated (storeCrypto A S) keys)
    {tasks : Tid → Task} (callers : Callers env tasks keys) {mk : Key} {w : World}
    (service : InService (storeCrypto A S) cached mk w) (known : keys mk)
    (unlocked : w.control.writer = none ∧ w.control.readers = [])
    {s : System Calls World LithiumError Bytes Tid}
    (run : Interleaves (fun i => sem (env i) i)
      ⟨fun i => (tasks i).program A S cached .linkNoReplace, w⟩ s) :
    ∃ held : Payloads, (payloadsOf (storeCrypto A S) mk w.view).Grows held ∧
      (s.world.control.writer = none → held = holdings (storeCrypto A S) cached s.world ∧
        ∃ mk, InService (storeCrypto A S) cached mk s.world ∧ keys mk) ∧
      (∀ i answer, s.threads i = .done (.ok answer) → (tasks i).Answered A S held answer) ∧
      ∀ i, s.world.control.writer = some i → tasks i = .rotate ∧ ∃ (w : World) (mk : Key),
        (InService (storeCrypto A S) cached mk (w.lockedBy i) ∧ keys mk) ∧
        held = payloadsOf (storeCrypto A S) mk (w.lockedBy i).view ∧
        Stops (sem (env i) i) (rotateLocked (storeCrypto A S) cached) (w.lockedBy i) s.world := by
  have rotations : ∀ i, tasks i = .rotate → (tasks i).program A S cached .linkNoReplace =
      rotating (storeCrypto A S) cached := fun i rotation => by rw [rotation]; rfl
  have start : (usageRegime (storeCrypto A S) cached env (fun i => tasks i ≠ .rotate) keys).holds w :=
    ⟨mk, service, known⟩
  obtain ⟨held, ⟨inv, grown⟩, underway, atWork⟩ := Regime.reachable (fun i result held =>
    ∀ answer, result = .ok answer → (tasks i).Answered A S held answer)
    (callers.spec lawful separated) rotations (fun i other => Task.client_reads other _) start unlocked run
  refine ⟨held, service.holdings ▸ grown, fun idle => ?_, fun i answer finished => ?_, fun i writer => ?_⟩
  · obtain ⟨⟨mk', service', known'⟩, valued⟩ := inv.rest idle
    exact ⟨valued, mk', service', known'⟩
  · exact (underway.returned finished fun v v' here moved => ⟨moved.outside here.1,
      fun answer same => Payloads.Grows.answered moved.grown (here.2 answer same)⟩).2 answer rfl
  · obtain ⟨rotation, w', ⟨mk', service', known'⟩, valued, stopped⟩ := atWork i writer
    have valued : held = holdings (storeCrypto A S) cached w' := valued
    exact ⟨rotation, w', mk', ⟨service'.locked i, known'⟩, valued.trans service'.holdings, stopped⟩

/-- Such a store can be recovered and holds what it held. -/
theorem Callers.sound (lawful : (storeCrypto A S).Lawful) (separated : Separated (storeCrypto A S) keys)
    {tasks : Tid → Task} (callers : Callers env tasks keys) {held : Payloads} {w : World}
    (idle : w.control.writer = none → held = holdings (storeCrypto A S) cached w ∧
      ∃ mk, InService (storeCrypto A S) cached mk w ∧ keys mk)
    (atWork : ∀ i, w.control.writer = some i → tasks i = .rotate ∧ ∃ (w₀ : World) (mk : Key),
      (InService (storeCrypto A S) cached mk (w₀.lockedBy i) ∧ keys mk) ∧
      held = payloadsOf (storeCrypto A S) mk (w₀.lockedBy i).view ∧
      Stops (sem (env i) i) (rotateLocked (storeCrypto A S) cached) (w₀.lockedBy i) w) :
    Sound (storeCrypto A S) (.plain keys) held False w := by
  cases writer : w.control.writer with
  | none =>
    obtain ⟨rfl, mk, service, known⟩ := idle writer
    rw [service.holdings]
    exact service.sound known
  | some i =>
    obtain ⟨rotation, w₀, mk, ⟨service, known⟩, rfl, stopped⟩ := atWork i writer
    exact (rotateLocked_usage lawful (Custody.plain_upheld separated (callers.fresh i))
      (callers.faultless i rotation) i service known).stops (service.sound known) stopped

/-- Wherever a run of callers is cut off: the store can be recovered and holds what it held
before, and every answer that was given follows from what it holds. -/
theorem usage_run (lawful : (storeCrypto A S).Lawful) (separated : Separated (storeCrypto A S) keys)
    {tasks : Tid → Task} (callers : Callers env tasks keys) {mk : Key} {w : World}
    (service : InService (storeCrypto A S) cached mk w) (known : keys mk)
    (unlocked : w.control.writer = none ∧ w.control.readers = [])
    {s : System Calls World LithiumError Bytes Tid}
    (run : Interleaves (fun i => sem (env i) i)
      ⟨fun i => (tasks i).program A S cached .linkNoReplace, w⟩ s) :
    ∃ held : Payloads, (payloadsOf (storeCrypto A S) mk w.view).Grows held ∧
      Sound (storeCrypto A S) (.plain keys) held False s.world ∧
      (s.world.control.writer = none → held = holdings (storeCrypto A S) cached s.world ∧
        ∃ mk, InService (storeCrypto A S) cached mk s.world) ∧
      ∀ i answer, s.threads i = .done (.ok answer) → (tasks i).Answered A S held answer := by
  obtain ⟨held, grown, idle, answers, atWork⟩ :=
    callers.reached lawful separated service known unlocked run
  refine ⟨held, grown, callers.sound lawful separated idle atWork, fun free => ?_, answers⟩
  obtain ⟨valued, mk', service', _⟩ := idle free
  exact ⟨valued, mk', service'⟩

end
end Lithium.Keys
