import Lithium.Hpke.Stream

/-! The sender's counter, seen from the AEAD: which encryptions a run of `seal` calls asks
for and under which nonces. A single message is the first message of a stream. -/
namespace Lithium.Hpke
open Keys (Bytes Fixed Key Nonce LithiumError)
open Crypto

/-- `u64::checked_add(1)`. -/
def checkedSucc (seq : Nat) : Option Nat := if seq + 1 < 2 ^ 64 then some (seq + 1) else none

/-- `HpkeSenderContext::seal`, whatever else the call of the AEAD does. -/
def HpkeSenderContext.sealWith {m : Type → Type} [Monad m]
    (encrypt : Bytes → Key → Nonce → Bytes → m (Except LithiumError Bytes))
    (self : HpkeSenderContext) (aad plaintext : Bytes) :
    m (Except LithiumError Bytes × HpkeSenderContext) :=
  if self.seq = maxSeq then pure (.error (.internal "hpke_seq_overflow"), self)
  else
    match seqNonce self.ctx.baseNonce self.seq with
    | .error error => pure (.error error, self)
    | .ok nonce => do
      match ← encrypt plaintext self.ctx.key nonce aad with
      | .error error => pure (.error error, self)
      | .ok ct =>
        match checkedSucc self.seq with
        | none => pure (.error (.internal "hpke_seq_overflow"), self)
        | some next => pure (.ok ct, { self with seq := next })

/-- A call of `aead::encrypt_raw`. -/
structure Encryption where
  plaintext : Bytes
  key : Key
  nonce : Nonce
  aad : Bytes

/-- One call of `seal`: the context before it, the encryptions it asked for, its reply and
the context after it. -/
structure SealCall where
  before : HpkeSenderContext
  encryptions : List Encryption
  reply : Except LithiumError Bytes
  after : HpkeSenderContext

section
variable (X : Suite)

/-- `aead::encrypt_raw`, writing down what it is asked for. -/
def encryptLogged (plaintext : Bytes) (key : Key) (nonce : Nonce) (aad : Bytes) :
    StateM (List Encryption) (Except LithiumError Bytes) := do
  modify (· ++ [{ plaintext, key, nonce, aad }])
  return encryptRaw X plaintext key nonce aad

def sealCall (sender : HpkeSenderContext) (aad plaintext : Bytes) : SealCall :=
  let ((reply, after), encryptions) := (sender.sealWith (encryptLogged X) aad plaintext).run []
  { before := sender, encryptions, reply, after }

def sealCalls : HpkeSenderContext → List (Bytes × Bytes) → List SealCall
  | _, [] => []
  | sender, (aad, plaintext) :: messages =>
    sealCall X sender aad plaintext :: sealCalls (sealCall X sender aad plaintext).after messages

end

/-- The nonces that successful calls encrypted under. -/
def usedNonces (calls : List SealCall) : List Nonce :=
  (calls.filter (·.reply.isOk)).flatMap fun call => call.encryptions.map Encryption.nonce

section
variable {X : Suite}

theorem checkedSucc_eq {seq : Nat} (small : seq < maxSeq) : checkedSucc seq = some (seq + 1) := by
  have limit : maxSeq + 1 = 2 ^ 64 := by decide
  rw [checkedSucc, if_pos (by omega)]

theorem le_maxSeq {seq : Nat} (counter : seq < 2 ^ 64) : seq ≤ maxSeq := by
  have limit : maxSeq + 1 = 2 ^ 64 := by decide
  omega

/-- `seal` as the stream model has it is `sealWith` without further effects. -/
theorem sealWith_id {sender : HpkeSenderContext} (counter : sender.seq < 2 ^ 64)
    (aad plaintext : Bytes) :
    sender.sealWith (m := Id) (encryptRaw X) aad plaintext = sender.seal X aad plaintext := by
  rw [HpkeSenderContext.sealWith, HpkeSenderContext.seal]
  split
  · rfl
  · rename_i more
    rw [seqNonce_eq, checkedSucc_eq (Nat.lt_of_le_of_ne (le_maxSeq counter) more)]
    rfl

/-- Writing the encryptions down changes nothing else. -/
theorem sealCall_seal {sender : HpkeSenderContext} (counter : sender.seq < 2 ^ 64)
    (aad plaintext : Bytes) : sender.seal X aad plaintext =
      ((sealCall X sender aad plaintext).reply, (sealCall X sender aad plaintext).after) := by
  rw [← sealWith_id counter, sealCall, HpkeSenderContext.sealWith, HpkeSenderContext.sealWith]
  split
  · rfl
  · cases seqNonce sender.ctx.baseNonce sender.seq with
    | error error => rfl
    | ok nonce =>
      cases encrypted : encryptRaw X plaintext sender.ctx.key nonce aad with
      | error error =>
        simp only [encryptLogged, encrypted]
        rfl
      | ok ct =>
        simp only [encryptLogged, encrypted]
        cases checkedSucc sender.seq <;> rfl

/-- What a call can do: nothing at the limit; a failed encryption, which leaves the
counter; a successful one, which moves it on. -/
theorem sealCall_cases {sender : HpkeSenderContext} (counter : sender.seq < 2 ^ 64)
    (aad plaintext : Bytes) :
    (sender.seq = maxSeq ∧ sealCall X sender aad plaintext =
      ⟨sender, [], .error (.internal "hpke_seq_overflow"), sender⟩) ∨
    sender.seq < maxSeq ∧ ∃ reply, sealCall X sender aad plaintext =
      ⟨sender, [⟨plaintext, sender.ctx.key, nonceAt sender.ctx.baseNonce sender.seq, aad⟩], reply,
        if reply.isOk then { sender with seq := sender.seq + 1 } else sender⟩ := by
  by_cases full : sender.seq = maxSeq
  · left
    refine ⟨full, ?_⟩
    rw [sealCall, HpkeSenderContext.sealWith, if_pos full]
    rfl
  · have small : sender.seq < maxSeq := Nat.lt_of_le_of_ne (le_maxSeq counter) full
    right
    refine ⟨small, encryptRaw X plaintext sender.ctx.key
      (nonceAt sender.ctx.baseNonce sender.seq) aad, ?_⟩
    rw [sealCall, HpkeSenderContext.sealWith, if_neg full, seqNonce_eq, checkedSucc_eq small]
    cases encrypted : encryptRaw X plaintext sender.ctx.key
      (nonceAt sender.ctx.baseNonce sender.seq) aad with
    | error error =>
      simp only [encryptLogged, encrypted]
      rfl
    | ok ct =>
      simp only [encryptLogged, encrypted]
      rfl

structure SealCall.Counted (call : SealCall) : Prop where
  counts : call.after.seq = call.before.seq + if call.reply.isOk then 1 else 0
  fits : call.after.seq < 2 ^ 64
  once : call.reply.isOk = true → ∃ encryption, call.encryptions = [encryption] ∧
    seqNonce call.before.ctx.baseNonce call.before.seq = .ok encryption.nonce
  stops : call.before.seq = maxSeq →
    call.reply.isOk = false ∧ call.encryptions = [] ∧ call.after = call.before

theorem sealCall_counted {sender : HpkeSenderContext} (counter : sender.seq < 2 ^ 64)
    (aad plaintext : Bytes) : (sealCall X sender aad plaintext).Counted := by
  rcases sealCall_cases (X := X) counter aad plaintext with ⟨full, idle⟩ | ⟨small, reply, asked⟩
  · rw [idle]
    constructor
    · rfl
    · exact counter
    · intro succeeded
      cases succeeded
    · intro _
      exact ⟨rfl, rfl, rfl⟩
  · rw [asked]
    constructor
    · cases reply <;> rfl
    · cases reply with
      | error error => exact counter
      | ok ct => exact Nat.lt_of_le_of_lt small (by decide)
    · intro _
      exact ⟨_, rfl, seqNonce_eq _ _⟩
    · intro full
      exact absurd full (Nat.ne_of_lt small)

/-- The calls of a run are calls of `seal`, each on the context the one before left. -/
theorem sealCalls_seal (messages : List (Bytes × Bytes)) {sender : HpkeSenderContext}
    (counter : sender.seq < 2 ^ 64) : ∀ call ∈ sealCalls X sender messages, ∃ message ∈ messages,
      call.before.seal X message.1 message.2 = (call.reply, call.after) := by
  induction messages generalizing sender with
  | nil => simp [sealCalls]
  | cons message messages ih =>
    intro call member
    rcases List.mem_cons.mp member with rfl | later
    · exact ⟨message, List.mem_cons_self, sealCall_seal counter message.1 message.2⟩
    · obtain ⟨other, listed, sealed⟩ :=
        ih (sealCall_counted (X := X) counter message.1 message.2).fits call later
      exact ⟨other, List.mem_cons_of_mem _ listed, sealed⟩

theorem sealCalls_counted (messages : List (Bytes × Bytes)) {sender : HpkeSenderContext}
    (counter : sender.seq < 2 ^ 64) : ∀ call ∈ sealCalls X sender messages, call.Counted := by
  induction messages generalizing sender with
  | nil => simp [sealCalls]
  | cons message messages ih =>
    have first := sealCall_counted (X := X) counter message.1 message.2
    intro call member
    rcases List.mem_cons.mp member with rfl | later
    · exact first
    · exact ih first.fits call later

theorem sealCalls_full (messages : List (Bytes × Bytes)) {sender : HpkeSenderContext}
    (full : sender.seq = maxSeq) : ∀ call ∈ sealCalls X sender messages,
      call.reply.isOk = false ∧ call.encryptions = [] := by
  have counter : sender.seq < 2 ^ 64 := by
    rw [full]
    decide
  induction messages with
  | nil => simp [sealCalls]
  | cons message messages ih =>
    obtain ⟨failed, asked, stays⟩ :=
      (sealCall_counted (X := X) counter message.1 message.2).stops full
    rw [sealCalls, stays]
    intro call member
    rcases List.mem_cons.mp member with rfl | later
    · exact ⟨failed, asked⟩
    · exact ih call later

theorem sealCalls_stops (messages : List (Bytes × Bytes)) (sender : HpkeSenderContext) :
    (sealCalls X sender messages).Pairwise fun earlier later =>
      earlier.after.seq = maxSeq → later.reply.isOk = false ∧ later.encryptions = [] := by
  induction messages generalizing sender with
  | nil => exact .nil
  | cons message messages ih =>
    constructor
    · intro later member full
      exact sealCalls_full messages full later member
    · exact ih _

/-- The nonces in use are those of successive sequence numbers below the limit. -/
theorem usedNonces_sealCalls (messages : List (Bytes × Bytes)) {sender : HpkeSenderContext}
    (counter : sender.seq < 2 ^ 64) :
    ∃ count, sender.seq + count ≤ maxSeq ∧ usedNonces (sealCalls X sender messages) =
      (List.range' sender.seq count).map (nonceAt sender.ctx.baseNonce) := by
  induction messages generalizing sender with
  | nil => exact ⟨0, le_maxSeq counter, rfl⟩
  | cons message messages ih =>
    rw [sealCalls]
    rcases sealCall_cases (X := X) counter message.1 message.2 with
      ⟨full, idle⟩ | ⟨small, reply, asked⟩
    · rw [idle]
      exact ih counter
    · rw [asked]
      cases reply with
      | error error => exact ih counter
      | ok ct =>
        have counted : ({ sender with seq := sender.seq + 1 } : HpkeSenderContext).seq < 2 ^ 64 :=
          Nat.lt_of_le_of_lt small (by decide)
        obtain ⟨count, bound, used⟩ := ih counted
        refine ⟨count + 1, by simp only at bound; omega, ?_⟩
        exact congrArg (nonceAt sender.ctx.baseNonce sender.seq :: ·) used

theorem range_nonces_nodup (base : Nonce) {first count : Nat} (bound : first + count ≤ maxSeq) :
    ((List.range' first count).map (nonceAt base)).Nodup := by
  apply List.pairwise_map.mpr
  apply List.Pairwise.imp_of_mem _ List.nodup_range'
  intro one other oneMember otherMember different same
  have oneBound := (List.mem_range'_1.mp oneMember).2
  have otherBound := (List.mem_range'_1.mp otherMember).2
  exact different (nonceAt_inj (lt_of_lt_maxSeq (by omega)) (lt_of_lt_maxSeq (by omega)) same)

end

/-- Over any run of `seal` calls no two successful ones encrypt under the same nonce, the
counter moves by the successful calls and stays a `u64`, and from the limit on nothing is
encrypted. The nonce of a base determines its sequence number. Every call of the run does what
`seal` does. -/
theorem sender_nonces_unique (X : Suite) {sender : HpkeSenderContext}
    (counter : sender.seq < 2 ^ 64) (messages : List (Bytes × Bytes)) :
    (usedNonces (sealCalls X sender messages)).Nodup ∧
    (∀ call ∈ sealCalls X sender messages, call.Counted ∧ ∃ message ∈ messages,
      call.before.seal X message.1 message.2 = (call.reply, call.after)) ∧
    ((sealCalls X sender messages).Pairwise fun earlier later =>
      earlier.after.seq = maxSeq → later.reply.isOk = false ∧ later.encryptions = []) ∧
    ∀ (base : Nonce) (one other : Nat), one < 2 ^ 64 → other < 2 ^ 64 →
      seqNonce base one = seqNonce base other → one = other := by
  refine ⟨?_, fun call member => ⟨sealCalls_counted messages counter call member,
    sealCalls_seal messages counter call member⟩, sealCalls_stops messages sender, ?_⟩
  · obtain ⟨count, bound, used⟩ := usedNonces_sealCalls (X := X) messages counter
    rw [used]
    exact range_nonces_nodup _ bound
  · intro base one other oneSmall otherSmall same
    rw [seqNonce_eq, seqNonce_eq] at same
    exact nonceAt_inj oneSmall otherSmall (Except.ok.inj same)

def lastSender : HpkeSenderContext :=
  { ctx := ⟨⟨List.replicate 32 0, rfl⟩, ⟨List.replicate 12 255, rfl⟩, ⟨List.replicate 32 0, rfl⟩⟩
    seq := maxSeq - 1 }

theorem sender_nonces_unique_last :
    (sealCalls stampSuite lastSender [([], [1]), ([], [1])]).map (fun call =>
      (call.reply.isOk, call.encryptions.length, call.after.seq)) =
        [(true, 1, maxSeq), (false, 0, maxSeq)] ∧
    (usedNonces (sealCalls stampSuite lastSender [([], [1]), ([], [1])])).Nodup :=
  ⟨by decide +kernel, (sender_nonces_unique stampSuite (by decide) _).1⟩

section
variable (X : Suite)

/-- `setup_receiver` and one `open`. -/
def openFirst (ctx : Context) (recipientSk : HpkePrivateKey) (info aad : Bytes) (enc : HpkeEnc)
    (ciphertext : Bytes) : Except LithiumError Bytes := do
  let receiver ← setupReceiver X ctx recipientSk enc info
  (receiver.open X aad ciphertext).1

/-- `setup_sender` and one `seal`. -/
def sealFirst (draws : EncapDraws) (ctx : Context) (recipientPk : HpkePublicKey)
    (info aad plaintext : Bytes) : Except LithiumError HpkeSealed := do
  let (enc, sender) ← setupSender X draws ctx recipientPk info
  let ciphertext ← (sender.seal X aad plaintext).1
  return { enc, ciphertext }

end

theorem nonceAt_zero (base : Nonce) : nonceAt base 0 = base := by
  obtain ⟨bytes, long⟩ := base
  apply Subtype.ext
  have zeros : u64be 0 = List.replicate (bytes.drop 4).length 0 := by
    rw [List.length_drop, long]
    rfl
  have unmasked : ∀ rest : Bytes, List.zipWith (· ^^^ ·) rest (List.replicate rest.length 0) = rest := by
    intro rest
    induction rest with
    | nil => rfl
    | cons byte rest ih => simp [List.replicate_succ, ih]
  change bytes.take 4 ++ List.zipWith (· ^^^ ·) (bytes.drop 4) (u64be 0) = bytes
  rw [zeros, unmasked, List.take_append_drop]

theorem seal_first (X : Suite) (ctx : HpkeContext) (aad plaintext : Bytes) :
    (({ ctx, seq := 0 } : HpkeSenderContext).seal X aad plaintext).1 =
      encryptRaw X plaintext ctx.key ctx.baseNonce aad := by
  rw [HpkeSenderContext.seal, if_neg (by decide : ¬ 0 = maxSeq), seqNonce_eq, nonceAt_zero]
  simp only
  split <;> simp_all

theorem open_first (X : Suite) (ctx : HpkeContext) (aad ciphertext : Bytes) :
    (({ ctx, seq := 0, poisoned := false } : HpkeReceiverContext).open X aad ciphertext).1 =
      decryptRaw X ciphertext ctx.key ctx.baseNonce aad := by
  rw [HpkeReceiverContext.open, if_neg Bool.false_ne_true,
    if_neg (by decide : ¬ 0 = maxSeq), seqNonce_eq, nonceAt_zero]
  simp only
  split <;> simp_all

/-- Opening and sealing a single message give what the first call on a new stream gives,
errors included. -/
theorem single_shot_first (X : Suite) (ctx : Context) (info aad : Bytes) :
    (∀ recipientSk enc ciphertext,
      openBase X ctx recipientSk info aad { enc, ciphertext } =
        openFirst X ctx recipientSk info aad enc ciphertext) ∧
    ∀ draws recipientPk plaintext,
      sealBase X draws ctx recipientPk info aad plaintext =
        sealFirst X draws ctx recipientPk info aad plaintext := by
  constructor
  · intro recipientSk enc ciphertext
    simp only [openBase, openFirst, setupReceiver, bind_assoc, pure_bind, open_first]
  · intro draws recipientPk plaintext
    simp only [sealBase, sealFirst, setupSender, bind_assoc, pure_bind, seal_first]

end Lithium.Hpke
