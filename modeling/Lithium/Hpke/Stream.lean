import Lithium.Hpke.Agreement

/-! HPKE message streams. The sender numbers its letters and the receiver counts the ones
it opened; each number has its own nonce, so a receiver that opens anything opens the
letter it is waiting for, and after a failure it opens nothing. -/
namespace Lithium.Hpke
open Keys (Bytes Fixed Key Nonce LithiumError)
open Crypto

def nonceAt (base : Nonce) (seq : Nat) : Nonce :=
  ⟨base.1.take 4 ++ List.zipWith (· ^^^ ·) (base.1.drop 4) (u64be seq), by
    simp [u64be, base.2]⟩

theorem seqNonce_eq (base : Nonce) (seq : Nat) : seqNonce base seq = .ok (nonceAt base seq) :=
  Fixed.fromSlice_val (nonceAt base seq)

theorem u64be_inj {one other : Nat} (oneSmall : one < 2 ^ 64) (otherSmall : other < 2 ^ 64)
    (same : u64be one = u64be other) : one = other := by
  simp only [u64be, List.cons.injEq, ← UInt8.toNat_inj, Nat.toUInt8_eq, UInt8.toNat_ofNat',
    and_true] at same
  omega

theorem zipWith_xor_inj {mask one other : Bytes} (oneLong : one.length = mask.length)
    (otherLong : other.length = mask.length)
    (same : List.zipWith (· ^^^ ·) mask one = List.zipWith (· ^^^ ·) mask other) : one = other := by
  induction mask generalizing one other with
  | nil => rw [List.length_eq_zero_iff.mp oneLong, List.length_eq_zero_iff.mp otherLong]
  | cons byte mask ih =>
    cases one with
    | nil => cases oneLong
    | cons first one =>
      cases other with
      | nil => cases otherLong
      | cons second other =>
        obtain ⟨head, tail⟩ := List.cons.inj same
        rw [(UInt8.xor_right_inj byte).mp head,
          ih (Nat.succ.inj oneLong) (Nat.succ.inj otherLong) tail]

theorem nonceAt_inj {base : Nonce} {one other : Nat} (oneSmall : one < 2 ^ 64)
    (otherSmall : other < 2 ^ 64) (same : nonceAt base one = nonceAt base other) : one = other := by
  have tail := List.append_cancel_left (congrArg Subtype.val same)
  have long : ∀ seq, (u64be seq).length = (base.1.drop 4).length := by
    intro seq
    rw [List.length_drop, base.2]
    rfl
  apply u64be_inj oneSmall otherSmall
  exact zipWith_xor_inj (long one) (long other) tail

theorem lt_of_lt_maxSeq {seq : Nat} (small : seq < maxSeq) : seq < 2 ^ 64 :=
  Nat.lt_trans small (by decide)

/-- A sealed message of a stream, with the sequence number it was sealed at. -/
structure Letter where
  seq : Nat
  aad : Bytes
  plaintext : Bytes
  ciphertext : Bytes

def Letter.pair (letter : Letter) : Bytes × Bytes := (letter.aad, letter.ciphertext)

section
variable (X : Suite)

def sealAll : HpkeSenderContext → List (Bytes × Bytes) → List Letter
  | _, [] => []
  | sender, (aad, plaintext) :: messages =>
    match sender.seal X aad plaintext with
    | (.ok ciphertext, next) => ⟨sender.seq, aad, plaintext, ciphertext⟩ :: sealAll next messages
    | (.error _, next) => sealAll next messages

/-- The replies to a sequence of opening calls, each with the context after it. -/
def openAll : HpkeReceiverContext → List (Bytes × Bytes) →
    List (Except LithiumError Bytes × HpkeReceiverContext)
  | _, [] => []
  | receiver, (aad, ciphertext) :: deliveries =>
    let step := receiver.open X aad ciphertext
    step :: openAll step.2 deliveries

def replies (receiver : HpkeReceiverContext) (deliveries : List (Bytes × Bytes)) :
    List (Except LithiumError Bytes) := (openAll X receiver deliveries).map Prod.fst

/-- The assumption on the AEAD: under the key of the stream, decryption of what is delivered
succeeds only on the output of an encryption under the same nonce and associated data,
and returns its plaintext. -/
def Unforged (ctx : HpkeContext) (letters : List Letter) (deliveries : List (Bytes × Bytes)) :
    Prop :=
  ∀ aad ciphertext, (aad, ciphertext) ∈ deliveries → ∀ nonce plaintext,
    X.decryptRaw ctx.key nonce aad ciphertext = some plaintext →
    ∃ letter ∈ letters, seqNonce ctx.baseNonce letter.seq = .ok nonce ∧
      letter.pair = (aad, ciphertext) ∧ letter.plaintext = plaintext

end

section
variable {X : Suite}

def Letter.Genuine (X : Suite) (ctx : HpkeContext) (letter : Letter) : Prop :=
  letter.seq < maxSeq ∧
    X.encryptRaw ctx.key (nonceAt ctx.baseNonce letter.seq) letter.aad letter.plaintext =
      some letter.ciphertext

def Numbered (X : Suite) (ctx : HpkeContext) (first : Nat) (letters : List Letter) : Prop :=
  ∀ (i : Nat) (letter : Letter), letters[i]? = some letter →
    letter.seq = first + i ∧ letter.Genuine X ctx

theorem Numbered.tail {ctx : HpkeContext} {first : Nat} {letter : Letter} {letters : List Letter}
    (numbered : Numbered X ctx first (letter :: letters)) :
    Numbered X ctx (first + 1) letters := by
  intro i later found
  obtain ⟨number, genuine⟩ := numbered (i + 1) later found
  refine ⟨?_, genuine⟩
  rw [number, Nat.add_right_comm, Nat.add_assoc]

theorem Numbered.cons {ctx : HpkeContext} {letter : Letter} {letters : List Letter}
    (genuine : letter.Genuine X ctx) (numbered : Numbered X ctx (letter.seq + 1) letters) :
    Numbered X ctx letter.seq (letter :: letters) := by
  intro i later found
  cases i with
  | zero =>
    cases found
    exact ⟨rfl, genuine⟩
  | succ i =>
    obtain ⟨number, laterGenuine⟩ := numbered i later found
    refine ⟨?_, laterGenuine⟩
    rw [number, Nat.add_right_comm, Nat.add_assoc]

theorem seal_cases (sender : HpkeSenderContext) (aad plaintext : Bytes) :
    (∃ ciphertext, sender.seq ≠ maxSeq ∧
      X.encryptRaw sender.ctx.key (nonceAt sender.ctx.baseNonce sender.seq) aad plaintext =
        some ciphertext ∧
      sender.seal X aad plaintext = (.ok ciphertext, { sender with seq := sender.seq + 1 })) ∨
    ∃ error, sender.seal X aad plaintext = (.error error, sender) := by
  by_cases full : sender.seq = maxSeq
  · exact .inr ⟨_, if_pos full⟩
  · rw [HpkeSenderContext.seal, if_neg full, seqNonce_eq]
    cases raw : X.encryptRaw sender.ctx.key (nonceAt sender.ctx.baseNonce sender.seq) aad
      plaintext with
    | none =>
      right
      simp only [encryptRaw, raw, rawOutcome]
      exact ⟨_, rfl⟩
    | some ciphertext =>
      left
      simp only [encryptRaw, raw, rawOutcome]
      exact ⟨ciphertext, full, rfl, rfl⟩

theorem sealAll_numbered (messages : List (Bytes × Bytes)) {sender : HpkeSenderContext}
    (bound : sender.seq ≤ maxSeq) :
    Numbered X sender.ctx sender.seq (sealAll X sender messages) := by
  induction messages generalizing sender with
  | nil =>
    intro i letter found
    cases found
  | cons message messages ih =>
    obtain ⟨aad, plaintext⟩ := message
    rw [sealAll]
    rcases seal_cases (X := X) sender aad plaintext with
      ⟨ciphertext, more, encrypted, sealed⟩ | ⟨error, failed⟩
    · have small : sender.seq < maxSeq := Nat.lt_of_le_of_ne bound more
      rw [sealed]
      exact .cons ⟨small, encrypted⟩
        (ih (show ({ sender with seq := sender.seq + 1 } : HpkeSenderContext).seq ≤ maxSeq from small))
    · rw [failed]
      exact ih bound

theorem open_cases (receiver : HpkeReceiverContext) (aad ciphertext : Bytes) :
    (∃ plaintext, receiver.poisoned = false ∧ receiver.seq ≠ maxSeq ∧
      X.decryptRaw receiver.ctx.key (nonceAt receiver.ctx.baseNonce receiver.seq) aad ciphertext =
        some plaintext ∧
      receiver.open X aad ciphertext = (.ok plaintext, { receiver with seq := receiver.seq + 1 })) ∨
    ∃ error, receiver.open X aad ciphertext = (.error error, { receiver with poisoned := true }) := by
  by_cases poisoned : receiver.poisoned = true
  · right
    rw [HpkeReceiverContext.open, if_pos poisoned]
    exact ⟨_, by rw [← poisoned]⟩
  · rw [HpkeReceiverContext.open, if_neg poisoned]
    by_cases full : receiver.seq = maxSeq
    · exact .inr ⟨_, if_pos full⟩
    · rw [if_neg full, seqNonce_eq]
      cases raw : X.decryptRaw receiver.ctx.key (nonceAt receiver.ctx.baseNonce receiver.seq) aad
        ciphertext with
      | none =>
        right
        simp only [decryptRaw, raw, rawOutcome]
        exact ⟨_, rfl⟩
      | some plaintext =>
        left
        simp only [decryptRaw, raw, rawOutcome]
        exact ⟨plaintext, Bool.eq_false_iff.mpr poisoned, full, rfl, rfl⟩

theorem open_next {receiver : HpkeReceiverContext} {aad ciphertext plaintext : Bytes}
    (clean : receiver.poisoned = false) (more : receiver.seq ≠ maxSeq)
    (decrypted : X.decryptRaw receiver.ctx.key (nonceAt receiver.ctx.baseNonce receiver.seq) aad
      ciphertext = some plaintext) :
    receiver.open X aad ciphertext = (.ok plaintext, { receiver with seq := receiver.seq + 1 }) := by
  rw [HpkeReceiverContext.open, if_neg (by simp [clean]), if_neg more, seqNonce_eq]
  simp only [decryptRaw, decrypted, rawOutcome]

/-- A poisoned receiver opens nothing and stays as it is. -/
theorem openAll_poisoned {receiver : HpkeReceiverContext} (poisoned : receiver.poisoned = true)
    (deliveries : List (Bytes × Bytes)) :
    ∀ step ∈ openAll X receiver deliveries, step.1.isOk = false ∧ step.2 = receiver := by
  induction deliveries with
  | nil => simp [openAll]
  | cons delivery deliveries ih =>
    have refused : receiver.open X delivery.1 delivery.2 =
        (.error (.internal "hpke_session_poisoned"), receiver) := by
      rw [HpkeReceiverContext.open, if_pos poisoned]
    rw [openAll, refused]
    intro step member
    rcases List.mem_cons.mp member with rfl | later
    · exact ⟨rfl, rfl⟩
    · exact ih step later

/-- Once a call has failed, every later one fails and changes nothing. -/
theorem openAll_stuck (receiver : HpkeReceiverContext) (deliveries : List (Bytes × Bytes)) :
    (openAll X receiver deliveries).Pairwise fun earlier later =>
      earlier.1.isOk = false → later.1.isOk = false ∧ later.2 = earlier.2 := by
  induction deliveries generalizing receiver with
  | nil => exact .nil
  | cons delivery deliveries ih =>
    rw [openAll]
    refine .cons ?_ (ih _)
    intro later member failed
    rcases open_cases (X := X) receiver delivery.1 delivery.2 with
      ⟨plaintext, -, -, -, opened⟩ | ⟨error, refused⟩
    · rw [opened] at failed
      cases failed
    · rw [refused] at member ⊢
      exact openAll_poisoned rfl deliveries later member

/-- A receiver that waits for letter `n` opens the letters from there on, one after the
other, up to the first delivery that is not the one it waits for. -/
theorem replies_prefix {letters : List Letter} {ctx : HpkeContext}
    (numbered : Numbered X ctx 0 letters) (deliveries : List (Bytes × Bytes))
    {receiver : HpkeReceiverContext} {n : Nat}
    (same : receiver.ctx = ctx) (waits : receiver.seq = n)
    (unforged : Unforged X ctx letters deliveries) (bound : n ≤ maxSeq) :
    ∃ k, k ≤ (letters.drop n).length ∧
      deliveries.take k = ((letters.drop n).take k).map Letter.pair ∧
      (replies X receiver deliveries).take k =
        ((letters.drop n).take k).map (fun letter => .ok letter.plaintext) ∧
      ∀ reply ∈ (replies X receiver deliveries).drop k, reply.isOk = false := by
  induction deliveries generalizing receiver n with
  | nil => exact ⟨0, Nat.zero_le _, rfl, rfl, by simp [replies, openAll]⟩
  | cons delivery deliveries ih =>
    obtain ⟨aad, ciphertext⟩ := delivery
    rw [replies, openAll]
    rcases open_cases (X := X) receiver aad ciphertext with
      ⟨plaintext, -, more, decrypted, opened⟩ | ⟨error, refused⟩
    · -- only a letter with the nonce of `n` decrypts, and that is the letter `n`
      rw [same, waits] at decrypted
      obtain ⟨letter, member, nonce, pair, plain⟩ :=
        unforged aad ciphertext List.mem_cons_self _ _ decrypted
      obtain ⟨i, found⟩ := List.mem_iff_getElem?.mp member
      obtain ⟨number, genuine⟩ := numbered i letter found
      rw [waits] at more
      have small : n < maxSeq := Nat.lt_of_le_of_ne bound more
      rw [seqNonce_eq] at nonce
      have here : letter.seq = n :=
        nonceAt_inj (lt_of_lt_maxSeq genuine.1) (lt_of_lt_maxSeq small) (Except.ok.inj nonce)
      obtain rfl : i = n := by rw [← here, number, Nat.zero_add]
      obtain ⟨short, current⟩ := List.getElem?_eq_some_iff.mp found
      have rest : letters.drop i = letter :: letters.drop (i + 1) := by
        rw [← current, List.drop_eq_getElem_cons short]
      have later : Unforged X ctx letters deliveries :=
        fun aad ciphertext member => unforged aad ciphertext (List.mem_cons_of_mem _ member)
      obtain ⟨k, few, taken, plaintexts, failures⟩ :=
        ih (show ({ receiver with seq := receiver.seq + 1 } : HpkeReceiverContext).ctx = ctx from same)
          (congrArg (· + 1) waits) later small
      refine ⟨k + 1, ?_, ?_, ?_, ?_⟩
      · rw [rest]
        exact Nat.succ_le_succ few
      · rw [rest, List.take_succ_cons, List.take_succ_cons, List.map_cons, taken, pair]
      · rw [opened, rest, List.map_cons, List.take_succ_cons, List.take_succ_cons, List.map_cons,
          plain]
        exact congrArg _ plaintexts
      · rw [opened]
        exact failures
    · refine ⟨0, Nat.zero_le _, rfl, rfl, ?_⟩
      rw [refused]
      intro reply member
      rcases List.mem_cons.mp member with rfl | later
      · rfl
      · obtain ⟨step, stepped, rfl⟩ := List.mem_map.mp later
        exact (openAll_poisoned rfl deliveries step stepped).1

theorem replies_in_order (aead : X.AeadCorrect) {ctx : HpkeContext} (letters : List Letter)
    {receiver : HpkeReceiverContext} (same : receiver.ctx = ctx) (clean : receiver.poisoned = false)
    (numbered : Numbered X ctx receiver.seq letters) :
    replies X receiver (letters.map Letter.pair) =
      letters.map (fun letter => .ok letter.plaintext) := by
  induction letters generalizing receiver with
  | nil => rfl
  | cons letter letters ih =>
    obtain ⟨number, small, encrypted⟩ := numbered 0 letter rfl
    rw [number, Nat.add_zero] at small encrypted
    have decrypted := aead.decrypt_encrypt encrypted
    rw [← same] at decrypted
    have opened := open_next clean (Nat.ne_of_lt small) decrypted
    have rest := ih
      (show ({ receiver with seq := receiver.seq + 1 } : HpkeReceiverContext).ctx = ctx from same)
      clean numbered.tail
    rw [List.map_cons, List.map_cons, Letter.pair, replies, openAll, opened, List.map_cons]
    exact congrArg _ rest

end

/-- A receiver set up from what the sender's set-up returned opens, of anything that is
delivered, exactly the first letters in order; after a failure nothing opens or changes;
and the letters delivered as they were sealed all open. -/
theorem stream_integrity {X : Suite} (aead : X.AeadCorrect) (dh : X.DhSymmetric)
    (kem : X.KemCorrect) {sk : HpkePrivateKey} {pk : HpkePublicKey} (paired : Paired X sk pk)
    {draws : EncapDraws} {ctx : Context} {info : Bytes} {enc : HpkeEnc} {sender : HpkeSenderContext}
    (sent : setupSender X draws ctx pk info = .ok (enc, sender))
    {receiver : HpkeReceiverContext} (received : setupReceiver X ctx sk enc info = .ok receiver)
    (messages : List (Bytes × Bytes)) :
    (∀ deliveries, Unforged X sender.ctx (sealAll X sender messages) deliveries →
      (∃ k ≤ (sealAll X sender messages).length,
        deliveries.take k = ((sealAll X sender messages).take k).map Letter.pair ∧
        (replies X receiver deliveries).take k =
          ((sealAll X sender messages).take k).map (fun letter => .ok letter.plaintext) ∧
        ∀ reply ∈ (replies X receiver deliveries).drop k, reply.isOk = false) ∧
      (openAll X receiver deliveries).Pairwise fun earlier later =>
        earlier.1.isOk = false → later.1.isOk = false ∧ later.2 = earlier.2) ∧
    replies X receiver ((sealAll X sender messages).map Letter.pair) =
      (sealAll X sender messages).map (fun letter => .ok letter.plaintext) := by
  obtain ⟨⟨sharedSecret, enc⟩, encapsulated, sent⟩ := bind_eq_ok sent
  obtain ⟨hpkeCtx, scheduled, sent⟩ := bind_eq_ok sent
  cases sent
  obtain ⟨decapsulated, -⟩ := kemEncap_agrees dh kem paired encapsulated
  simp only [setupReceiver, decapsulated, scheduled, bind, Except.bind] at received
  cases received
  have numbered : Numbered X hpkeCtx 0 (sealAll X { ctx := hpkeCtx, seq := 0 } messages) :=
    sealAll_numbered messages (Nat.zero_le _)
  refine ⟨?_, replies_in_order aead _ rfl rfl numbered⟩
  intro deliveries unforged
  refine ⟨?_, openAll_stuck _ deliveries⟩
  exact replies_prefix (n := 0) numbered deliveries rfl rfl unforged (Nat.zero_le _)

/-- An AEAD whose tag is the nonce and a part of the key: what it sealed opens under no
other nonce. -/
def stampSuite : Suite :=
  { sampleSuite with
    encryptRaw := fun key nonce _ plaintext => some (plaintext ++ (nonce.1 ++ key.1.take 4))
    decryptRaw := fun key nonce _ ciphertext =>
      if ciphertext.drop (ciphertext.length - 16) = nonce.1 ++ key.1.take 4 then
        some (ciphertext.take (ciphertext.length - 16))
      else none }

theorem stamp_length (key : Key) (nonce : Nonce) (plaintext : Bytes) :
    (plaintext ++ (nonce.1 ++ key.1.take 4)).length = plaintext.length + 16 := by
  simp [nonce.2, key.2]

theorem stampSuite_decrypt (key : Key) (sealed nonce : Nonce) (aad plaintext : Bytes) :
    stampSuite.decryptRaw key nonce aad (plaintext ++ (sealed.1 ++ key.1.take 4)) =
      if sealed = nonce then some plaintext else none := by
  have stamp : sealed.1 ++ key.1.take 4 = nonce.1 ++ key.1.take 4 ↔ sealed = nonce := by
    rw [List.append_left_inj, Subtype.ext_iff]
  simp only [stampSuite, stamp_length, Nat.add_sub_cancel, List.drop_left, List.take_left, stamp]

theorem stampSuite_aead : stampSuite.AeadCorrect where
  decrypt_encrypt := by
    rintro key nonce aad plaintext ciphertext ⟨⟩
    rw [stampSuite_decrypt, if_pos rfl]
  length_encrypt := by
    rintro key nonce aad plaintext ciphertext ⟨⟩
    exact stamp_length key nonce plaintext

/-- Letters are no forgeries, in whatever order and however often they come. -/
theorem stampSuite_unforged {sender : HpkeSenderContext} (fresh : sender.seq = 0)
    (messages : List (Bytes × Bytes)) {deliveries : List (Bytes × Bytes)}
    (copies : deliveries ⊆ (sealAll stampSuite sender messages).map Letter.pair) :
    Unforged stampSuite sender.ctx (sealAll stampSuite sender messages) deliveries := by
  intro aad ciphertext delivered nonce plaintext decrypted
  obtain ⟨letter, member, pair⟩ := List.mem_map.mp (copies delivered)
  obtain ⟨i, found⟩ := List.mem_iff_getElem?.mp member
  have bound : sender.seq ≤ maxSeq := by
    rw [fresh]
    exact Nat.zero_le _
  obtain ⟨-, -, encrypted⟩ := sealAll_numbered messages bound i letter found
  cases pair
  rw [← Option.some.inj encrypted, stampSuite_decrypt] at decrypted
  split at decrypted
  · rename_i same
    exact ⟨letter, member, by rw [seqNonce_eq, same], rfl, Option.some.inj decrypted⟩
  · cases decrypted

theorem stream_sample :
    ∃ enc sender receiver,
      setupSender stampSuite sampleEncap sampleContext sampleKeys.2 [1] = .ok (enc, sender) ∧
      setupReceiver stampSuite sampleContext sampleKeys.1 enc [1] = .ok receiver ∧
      replies stampSuite receiver
          ((sealAll stampSuite sender [([], [1]), ([7], [2, 3])]).map Letter.pair) =
        (sealAll stampSuite sender [([], [1]), ([7], [2, 3])]).map
          (fun letter => .ok letter.plaintext) ∧
      (openAll stampSuite receiver
        ((sealAll stampSuite sender [([], [1]), ([7], [2, 3])]).reverse.map
          Letter.pair)).Pairwise fun earlier later =>
        earlier.1.isOk = false → later.1.isOk = false ∧ later.2 = earlier.2 := by
  have runs : (do
      let (enc, _) ← setupSender stampSuite sampleEncap sampleContext sampleKeys.2 [1]
      setupReceiver stampSuite sampleContext sampleKeys.1 enc [1]).isOk = true := by
    decide +kernel
  cases sent : setupSender stampSuite sampleEncap sampleContext sampleKeys.2 [1] with
  | error error =>
    rw [sent] at runs
    cases runs
  | ok setup =>
    rw [sent] at runs
    obtain ⟨enc, sender⟩ := setup
    cases received : setupReceiver stampSuite sampleContext sampleKeys.1 enc [1] with
    | error error =>
      simp only [bind, Except.bind, received] at runs
      cases runs
    | ok receiver =>
      have fresh : sender.seq = 0 := by
        obtain ⟨encapsulated, -, rest⟩ := bind_eq_ok sent
        obtain ⟨scheduled, -, rest⟩ := bind_eq_ok rest
        cases rest
        rfl
      have integrity := stream_integrity stampSuite_aead sampleSuite_dh sampleSuite_kem
        (deriveKeypair_paired sampleKeys_derived) sent received [([], [1]), ([7], [2, 3])]
      have reversed : (sealAll stampSuite sender [([], [1]), ([7], [2, 3])]).reverse.map
          Letter.pair ⊆ (sealAll stampSuite sender [([], [1]), ([7], [2, 3])]).map Letter.pair := by
        rw [List.map_reverse]
        exact List.reverse_subset.mpr (List.Subset.refl _)
      exact ⟨enc, sender, receiver, rfl, received, integrity.2,
        (integrity.1 _ (stampSuite_unforged fresh _ reversed)).2⟩

end Lithium.Hpke
