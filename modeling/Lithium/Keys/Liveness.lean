import Lithium.Effects.Locking
import Lithium.Keys.Sample
import Lithium.Keys.Usage

/-! Callers of a manager do not block each other for ever. Each of its operations takes the gate
once, makes no call under it that waits, and gives it back on every path, errors included. So
whatever faults the calls meet, whatever the store holds and whichever reader the gate favours, a
run of finitely many callers ends, and it ends with an answer to every request. -/
namespace Lithium.Keys
open Effects Storage
open Lithium.Crypto (Suite SignatureSuite)

/-- `KeyManager::reload_public_keys`; the keys it puts into the gate are its answer here. -/
def reloadUnderGate (X : Crypto) (policy : PublicCachePolicy) : Prog PublicKeys := do
  checkLive
  let _ ← call .lockWrite
  Program.guarded (do let mk ← loadMk; ensureAsymmetricMaterial X mk policy)
    (do let _ ← call .unlockWrite; return ())

/-- `KeyManager::public_keys` takes the gate whether the manager is poisoned or not. -/
def publicKeysUnderGate (keys : PublicKeys) : Prog PublicKeys := do
  let _ ← call .lockRead
  Program.guarded (return keys) (do let _ ← call .unlockRead; return ())

inductive Request where
  | ask (task : Task)
  | reload (policy : PublicCachePolicy)
  | publicKeys (keys : PublicKeys)

inductive Answer where
  | bytes (bytes : Bytes)
  | keys (keys : PublicKeys)

section
variable (A : Suite) (S : SignatureSuite) (cached : Bool) (mode : CreateNewMode)

def Request.program : Request → Prog Answer
  | .ask task => do return .bytes (← task.program A S cached mode)
  | .reload policy => do return .keys (← reloadUnderGate (storeCrypto A S) policy)
  | .publicKeys keys => do return .keys (← publicKeysUnderGate keys)

/-- A thread that makes one request after the other, whether they fail or not. -/
def session : List Request → Prog (List (Except LithiumError Answer))
  | [] => return []
  | request :: rest => do
    let answer ← (request.program A S cached mode).attempt
    let answers ← session rest
    return answer :: answers

end

/-- What a call does to the gate. -/
def gateUse : Op → Option LockCall
  | .lockRead => some .acquireRead
  | .unlockRead => some .releaseRead
  | .lockWrite => some .acquireWrite
  | .unlockWrite => some .releaseWrite
  | _ => none

def World.gate (w : World) : RwLock Tid := ⟨w.control.readers, w.control.writer⟩

theorem locking_of_gateUse {op : Op} (apart : gateUse op = none) : locking op = false := by
  cases op <;> first | rfl | cases apart

/-- The calls that do not take the gate find an outcome, the draw of a master key with them if
there is one to draw. -/
theorem gate_locking {env : Tid → Env} (draws : ∀ i mk, ∃ new, (env i).masterKey mk new = true) :
    Locking (fun i => sem (env i) i) gateUse World.gate where
  apart := by
    intro i op w reply w' apart step
    obtain ⟨readers, writer⟩ := sem_locks (locking_of_gateUse apart) step
    rw [World.gate, World.gate, readers, writer]
  passes := by
    intro i op call w reply w' uses step
    cases op with
    | lockRead =>
      cases uses
      obtain ⟨idle, rfl⟩ := sem_lockRead step
      exact if_pos (Option.isNone_iff_eq_none.mpr idle)
    | unlockRead =>
      cases uses
      rw [sem_unlockRead step]
      rfl
    | lockWrite =>
      cases uses
      obtain ⟨⟨idle, empty⟩, rfl⟩ := sem_lockWrite step
      exact if_pos ⟨Option.isNone_iff_eq_none.mpr idle, List.isEmpty_iff.mpr empty⟩
    | unlockWrite =>
      cases uses
      rw [sem_unlockWrite step]
      rfl
    | _ => cases uses
  serial := by
    intro op i w apart
    refine sem_serial i op w ?_
    cases op with
    | random use =>
      cases use with
      | masterKey => exact .inr ⟨rfl, draws i⟩
      | _ => exact .inl rfl
    | _ => first | exact .inl rfl | cases apart
  admits := by
    intro i op call w lock' uses stepped
    cases op with
    | lockRead =>
      cases uses
      simp only [RwLock.step] at stepped
      split at stepped
      · next idle => exact ⟨(), _, ⟨none, [], [], 0⟩, if_pos idle⟩
      · cases stepped
    | unlockRead => exact sem_serial i _ w (.inl rfl)
    | lockWrite =>
      cases uses
      simp only [RwLock.step] at stepped
      split at stepped
      · next idle => exact ⟨(), _, ⟨none, [], [], 0⟩, if_pos idle⟩
      · cases stepped
    | unlockWrite => exact sem_serial i _ w (.inl rfl)
    | _ => cases uses

theorem gateless_of_special (op : Op) (free : special op = false) : gateUse op = none := by
  cases op <;> first | rfl | cases free

section
variable {α : Type}

theorem checkLive_disciplined : checkLive.Disciplined gateUse .nothing :=
  (checkLive_calls gateless_of_special).disciplined

theorem withReadGate_disciplined {body : Prog α} (calls : body.Calls fun op => gateUse op = none) :
    (withReadGate body).Disciplined gateUse .nothing :=
  checkLive_disciplined.bind fun _ => calls.disciplined_guarded rfl rfl rfl rfl

theorem getOrCreateSecret32_disciplined (X : Crypto) (cached : Bool) (mode : CreateNewMode)
    (label : Bytes) :
    (getOrCreateSecret32 X cached mode label).Disciplined gateUse .nothing :=
  withReadGate_disciplined (.bind (currentMk_calls gateless_of_special cached) fun mk =>
    loadOrCreateLabelSecret32_calls gateless_of_special (fun _ => rfl) X mk label mode)

theorem loadOrCreateSealedBlob_disciplined (X : Crypto) (cached : Bool) (mode : CreateNewMode)
    (label : Bytes) (generate : Except LithiumError Bytes) :
    (loadOrCreateSealedBlob X cached mode label generate).Disciplined gateUse
      .nothing :=
  withReadGate_disciplined (.bind (currentMk_calls gateless_of_special cached) fun mk =>
    loadOrCreateLabelBytes_calls gateless_of_special (fun _ => rfl) X mk label generate mode)

theorem signingSeeds_disciplined (X : Crypto) (cached : Bool) :
    (signingSeeds X cached).Disciplined gateUse .nothing := by
  have apart : gateUse (.arenaClaim 32) = none := rfl
  refine withReadGate_disciplined (.bind (currentMk_calls gateless_of_special cached) fun mk => ?_)
  refine .bind (loadSecret32Decrypted_calls gateless_of_special X _ _ _) fun _ => ?_
  refine .bind (loadBytesDecrypted_calls gateless_of_special X _ _ _) fun _ => ?_
  refine .bind (.perform apart) fun _ => .bind (.done _) fun _ => .bind (.done _) fun _ => ?_
  exact .bind (.perform apart) fun _ => .bind (.done _) fun _ => trivial

theorem rotateNow_disciplined (X : Crypto) (cached : Bool) :
    (rotateNow X cached).Disciplined gateUse .nothing :=
  (rotateLocked_calls gateless_of_special (fun _ => rfl) (fun _ => rfl) X
    rfl rfl cached).disciplined_guarded rfl rfl rfl rfl

end

section
variable {A : Suite} {S : SignatureSuite} {cached : Bool} {mode : CreateNewMode}

theorem Task.disciplined (task : Task) :
    (task.program A S cached mode).Disciplined gateUse .nothing := by
  have secret := getOrCreateSecret32_disciplined (storeCrypto A S) cached mode
  cases task with
  | secret32 label => exact (secret label).bind fun _ => rfl
  | blob label generate => exact loadOrCreateSealedBlob_disciplined _ cached mode label generate
  | encrypt label plaintext aad =>
    refine (secret label).bind fun dek => Program.Calls.disciplined ?_
    exact .bind (.done _) fun ctx =>
      .bind (.attempt (randomFixed_calls rfl)) fun nonce => .done _
  | decrypt label ciphertext aad =>
    exact (secret label).bind fun dek => Program.Calls.disciplined (.bind (.done _) fun ctx => .done _)
  | sign message ctx =>
    refine ((signingSeeds_disciplined _ cached).bind fun seeds => ?_).bind fun sig => rfl
    exact Program.Calls.disciplined (.done _)
  | rotate => exact (rotateNow_disciplined _ cached).bind fun _ => rfl

theorem Request.disciplined (request : Request) :
    (request.program A S cached mode).Disciplined gateUse .nothing := by
  cases request with
  | ask task => exact task.disciplined.bind fun _ => rfl
  | reload policy =>
    have calls : (do let mk ← loadMk; ensureAsymmetricMaterial (storeCrypto A S) mk policy : Prog PublicKeys).Calls
        fun op => gateUse op = none :=
      .bind (loadMk_calls gateless_of_special) fun mk =>
        ensureAsymmetricMaterial_calls gateless_of_special (fun _ => rfl) _ rfl _ _
    exact (checkLive_disciplined.bind fun _ => calls.disciplined_guarded rfl rfl rfl rfl).bind fun _ => rfl
  | publicKeys keys =>
    have calls : (return keys : Prog PublicKeys).Calls fun op => gateUse op = none := trivial
    exact (calls.disciplined_guarded rfl rfl rfl rfl).bind fun _ => rfl

theorem session_disciplined (requests : List Request) :
    (session A S cached mode requests).Disciplined gateUse .nothing := by
  induction requests with
  | nil => exact rfl
  | cons request rest ih =>
    exact request.disciplined.attempt.bind fun answer => ih.bind fun answers => rfl

theorem session_ends (requests : List Request) : (session A S cached mode requests).Ends fun result =>
    ∃ answers, result = .ok answers ∧ answers.length = requests.length := by
  induction requests with
  | nil => exact ⟨[], rfl, rfl⟩
  | cons request rest ih =>
    refine Program.Ends.attempt_bind (fun answer => ?_) (request.program A S cached mode)
    refine ih.bind ?_ fun e ⟨answers, impossible, _⟩ => by cases impossible
    rintro answers ⟨_, same, length⟩
    cases same
    exact ⟨answer :: answers, rfl, congrArg Nat.succ length⟩

end

/-- Finitely many callers at the start of their sessions. -/
def callersOf (A : Suite) (S : SignatureSuite) (cached : Bool) (mode : CreateNewMode)
    (callers : Finset Tid) (requests : Tid → List Request) (w : World) :
    System Calls World LithiumError (List (Except LithiumError Answer)) Tid :=
  ⟨fun i => session A S cached mode (if i ∈ callers then requests i else []), w⟩

/-- Whom the gate lets in beside its readers, in view of what every thread is about to do. -/
abbrev GatePolicy := System Calls World LithiumError (List (Except LithiumError Answer)) Tid → Tid → Prop

abbrev CallerStep (env : Tid → Env) (policy : GatePolicy) :
    System Calls World LithiumError (List (Except LithiumError Answer)) Tid →
      System Calls World LithiumError (List (Except LithiumError Answer)) Tid → Prop :=
  Proceeds (fun i => sem (env i) i) gateUse World.gate policy

section
variable {A : Suite} {S : SignatureSuite} {cached : Bool} {mode : CreateNewMode} {env : Tid → Env}
  {w : World}

theorem callersOf_abiding (unlocked : w.gate.Free) (callers : Finset Tid)
    (requests : Tid → List Request) :
    Abiding gateUse World.gate (callersOf A S cached mode callers requests w) := by
  refine ⟨unlocked.proper, fun i => ?_⟩
  have outside : w.gate.hold i = .nothing := unlocked.hold i
  show (session A S cached mode _).Disciplined gateUse (w.gate.hold i)
  rw [outside]
  exact session_disciplined _

/-- Whatever the store holds, whatever faults the calls meet and whomever the gate prefers while it
is held for reading: a run of finitely many callers comes to an end. Where it cannot go on, the
gate is free and every request of every caller has been answered. -/
theorem every_request_answered (draws : ∀ i mk, ∃ new, (env i).masterKey mk new = true)
    (unlocked : w.gate.Free) (callers : Finset Tid) (requests : Tid → List Request)
    (policy : GatePolicy) :
    Acc (fun s' s => CallerStep env policy s s') (callersOf A S cached mode callers requests w) ∧
      ∀ s, Relation.ReflTransGen (CallerStep env policy)
          (callersOf A S cached mode callers requests w) s →
        (∀ s', ¬ CallerStep env policy s s') → s.world.gate.Free ∧ ∀ i ∈ callers, ∃ answers, s.threads i = .done (.ok answers) ∧
          answers.length = (requests i).length := by
  have locking := gate_locking draws
  constructor
  · refine proceeds_acc callers fun i outside => ⟨.ok [], ?_⟩
    show session A S cached mode (if i ∈ callers then requests i else []) = _
    rw [if_neg outside]
    rfl
  · intro s run stuck
    have abiding := (callersOf_abiding unlocked callers requests).run locking run
    obtain ⟨free, returned⟩ := abiding.returned_of_stuck locking stuck
    refine ⟨free, fun i member => ?_⟩
    obtain ⟨result, finished⟩ := returned i
    have ends := ends_of_run (fun j => session_ends (if j ∈ callers then requests j else [])) run i
    rw [finished, if_pos member] at ends
    obtain ⟨answers, rfl, length⟩ := ends
    exact ⟨answers, finished, length⟩

end

/-- A gate that lets no reader in beside others while somebody waits to write. -/
def writersFirst : GatePolicy := fun s _ => ∀ j, (s.threads j).nextCall ≠ some .lockWrite

/-- An environment in which calls fail and any master key may be drawn. -/
def faultyEnv : Env := ⟨true, fun _ _ => true, fun _ _ => true, 0⟩

def mixedRequests : Tid → List Request
  | 0 => [.ask (.secret32 [97]), .reload .strict]
  | 1 => [.ask (.blob [98] (.ok [7])), .ask (.secret32 [97])]
  | _ => [.ask .rotate]

theorem every_request_answered_writersFirst :
    ∃ s answers, Relation.ReflTransGen (CallerStep (fun _ => faultyEnv) writersFirst)
        (callersOf Crypto.sampleSuite Crypto.listedSuite true .linkNoReplace {0, 1, 2} mixedRequests
          (sampleWorld [])) s ∧
      (∀ s', ¬ CallerStep (fun _ => faultyEnv) writersFirst s s') ∧
      s.threads 1 = .done (.ok answers) ∧ answers.length = 2 := by
  have draws : ∀ (_ : Tid) (mk : Option Key), ∃ new, faultyEnv.masterKey mk new = true :=
    fun _ _ => ⟨⟨List.replicate 32 0, rfl⟩, rfl⟩
  have unlocked : (sampleWorld []).gate.Free := ⟨rfl, rfl⟩
  obtain ⟨ends, answered⟩ := every_request_answered draws unlocked {0, 1, 2} mixedRequests writersFirst
  obtain ⟨s, run, stuck⟩ := exists_last ends
  obtain ⟨answers, finished, length⟩ := (answered s run stuck).2 1 (by decide)
  exact ⟨s, answers, run, stuck, finished, length⟩

end Lithium.Keys
