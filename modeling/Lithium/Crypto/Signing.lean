import Lithium.Crypto.Framing
import Lithium.Crypto.Sign

/-! Double signatures bind both halves to one context and one message, if each of the two
schemes is ideal. -/
namespace Lithium.Crypto
open Keys (Bytes Fixed LithiumError)
open HexCodec (DecodeToSlice Inverts)

/-- An ideal scheme, for one key and the strings signed with it: exactly the signatures made
over a string verify over it, and a signature is made over one string only. -/
structure IdealScheme {σ : Type} (sign : Bytes → σ) (verify : Bytes → σ → Bool)
    (signed : Bytes → Prop) : Prop where
  verifies : ∀ bytes sig, verify bytes sig = true ↔ signed bytes ∧ sig = sign bytes
  once : ∀ bytes bytes', signed bytes → signed bytes' → sign bytes = sign bytes' → bytes = bytes'

/-- The strings signed for some contexts and messages. -/
def Framed (signed : Context → Bytes → Prop) (bytes : Bytes) : Prop :=
  ∃ ctx message, signed ctx message ∧ bytes = ctx.bindAad message

theorem framed_bindAad {signed : Context → Bytes → Prop} {ctx : Context} {message : Bytes} :
    Framed signed (ctx.bindAad message) ↔ signed ctx message := by
  constructor
  · rintro ⟨ctx', message', member, same⟩
    obtain ⟨rfl, rfl⟩ := Context.bindAad_inj same
    exact member
  · intro member
    exact ⟨ctx, message, member, rfl⟩

section
variable (S : SignatureSuite) (edSeed diliSeed : Fixed 32) (signed : Context → Bytes → Prop)

/-- Both schemes are ideal for what was signed with the two seeds. -/
structure IdealPair : Prop where
  ed : IdealScheme (S.ed25519Sign edSeed)
    (fun bytes sig => S.ed25519Key (S.ed25519Pub edSeed) &&
      S.ed25519Verify (S.ed25519Pub edSeed) bytes sig) (Framed signed)
  dili : IdealScheme (fun bytes => (S.mldsa87Sign diliSeed bytes).1)
    (fun bytes sig => S.mldsa87Key (S.mldsa87Pub diliSeed).1 && S.mldsa87Signature sig &&
      S.mldsa87Verify (S.mldsa87Pub diliSeed).1 bytes sig) (Framed signed)

/-- A double signature of a signing that took place. -/
def Produced (ctx : Context) (message : Bytes) (whole : DoubleSig) : Prop :=
  signed ctx message ∧ signDouble S message edSeed.1 diliSeed.1 ctx = .ok whole

end

section
variable {S : SignatureSuite} {edSeed diliSeed : Fixed 32} {signed : Context → Bytes → Prop}

theorem signDouble_eq (S : SignatureSuite) (edSeed diliSeed : Fixed 32) (ctx : Context)
    (message : Bytes) :
    signDouble S message edSeed.1 diliSeed.1 ctx =
      .ok { ed := S.ed25519Sign edSeed (ctx.bindAad message)
            dili := (S.mldsa87Sign diliSeed (ctx.bindAad message)).1 } := by
  rw [signDouble, signMessage, signMessageDili, Fixed.fromSlice_val, Fixed.fromSlice_val, ok_bind]
  dsimp only [pure, Except.pure]
  rw [ok_bind, Fixed.fromSlice_val]
  rfl

theorem verifySignature_eq_true {message : Bytes} {signature : Fixed 64} {pubKey : Fixed 32}
    {ctx : Context} : verifySignature S message signature.1 pubKey ctx = true ↔
      (S.ed25519Key pubKey && S.ed25519Verify pubKey (ctx.bindAad message) signature) = true := by
  rw [verifySignature, dif_pos signature.2]
  cases S.ed25519Key pubKey <;> simp

theorem verifySignatureDili_eq_true {message signature diliPkBytes : Bytes} {ctx : Context} :
    verifySignatureDili S message signature diliPkBytes ctx = true ↔
      (S.mldsa87Key diliPkBytes && S.mldsa87Signature signature &&
        S.mldsa87Verify diliPkBytes (ctx.bindAad message) signature) = true := by
  rw [verifySignatureDili]
  cases S.mldsa87Key diliPkBytes <;> cases S.mldsa87Signature signature <;> simp

theorem verify_eq_true (ideal : IdealPair S edSeed diliSeed signed) {message : Bytes}
    {sig : DoubleSig} {ctx : Context} :
    (DualVerifyingKey.ofSeeds S edSeed diliSeed).verify S message sig ctx = true ↔
      signed ctx message ∧ sig.ed = S.ed25519Sign edSeed (ctx.bindAad message) ∧
        sig.dili = (S.mldsa87Sign diliSeed (ctx.bindAad message)).1 := by
  simp only [DualVerifyingKey.verify, verifyDouble, DualVerifyingKey.ofSeeds]
  rw [Bool.and_eq_true, verifySignature_eq_true, verifySignatureDili_eq_true, ideal.ed.verifies,
    ideal.dili.verifies, framed_bindAad]
  constructor
  · rintro ⟨⟨member, ed⟩, -, dili⟩
    exact ⟨member, ed, dili⟩
  · rintro ⟨member, ed, dili⟩
    exact ⟨⟨member, ed⟩, member, dili⟩

theorem ofSeeds_wire (S : SignatureSuite) (edSeed diliSeed : Fixed 32) :
    DualVerifyingKey.fromWire (DualVerifyingKey.ofSeeds S edSeed diliSeed).toWire =
      .ok (DualVerifyingKey.ofSeeds S edSeed diliSeed) :=
  DualVerifyingKey.codec.decode_encode _ (S.mldsa87Pub diliSeed).2

theorem fromHex_toHex {decodeToSlice : DecodeToSlice} (inverts : Inverts decodeToSlice)
    {sig : DoubleSig} (good : sig.dili.length = mldsa87SigLen) :
    DoubleSig.fromHex decodeToSlice sig.toHex = .ok sig := by
  rw [DoubleSig.fromHex, DoubleSig.toHex, HexCodec.decodeVec_hexEncode inverts, ok_bind]
  exact DoubleSig.codec.decode_encode sig good

end

/-- Under the key that matches the seeds a double signature verifies for a context and a
message exactly if both halves come from signings of just these; halves of different
signings never verify together; what was signed verifies after its round trips. -/
theorem double_signatures_bind {S : SignatureSuite} {edSeed diliSeed : Fixed 32}
    {signed : Context → Bytes → Prop} (ideal : IdealPair S edSeed diliSeed signed)
    {decodeToSlice : DecodeToSlice} (inverts : Inverts decodeToSlice) :
    ∃ key, DualVerifyingKey.fromWire (DualVerifyingKey.ofSeeds S edSeed diliSeed).toWire = .ok key ∧
      (∀ bytes sig, DoubleSig.fromBytes bytes = .ok sig → ∀ ctx message,
        key.verify S message sig ctx = true ↔
          (∃ whole, Produced S edSeed diliSeed signed ctx message whole ∧ sig.ed = whole.ed) ∧
          ∃ whole, Produced S edSeed diliSeed signed ctx message whole ∧ sig.dili = whole.dili) ∧
      (∀ ctx message whole ctx' message' whole',
        Produced S edSeed diliSeed signed ctx message whole →
        Produced S edSeed diliSeed signed ctx' message' whole' →
        ¬ (ctx = ctx' ∧ message = message') → ∀ ctx'' message'',
          key.verify S message'' { ed := whole.ed, dili := whole'.dili } ctx'' = false) ∧
      ∀ ctx message, signed ctx message → ∃ whole,
        signDouble S message edSeed.1 diliSeed.1 ctx = .ok whole ∧
        DoubleSig.fromBytes whole.toBytes = .ok whole ∧
        DoubleSig.fromHex decodeToSlice whole.toHex = .ok whole ∧
        key.verify S message whole ctx = true := by
  refine ⟨_, ofSeeds_wire S edSeed diliSeed, ?_, ?_, ?_⟩
  · intro bytes sig _ ctx message
    rw [verify_eq_true ideal]
    constructor
    · rintro ⟨member, ed, dili⟩
      have made : Produced S edSeed diliSeed signed ctx message _ :=
        ⟨member, signDouble_eq S edSeed diliSeed ctx message⟩
      exact ⟨⟨_, made, ed⟩, _, made, dili⟩
    · rintro ⟨⟨whole, ⟨member, made⟩, ed⟩, whole', ⟨-, made'⟩, dili⟩
      rw [signDouble_eq] at made made'
      cases made
      cases made'
      exact ⟨member, ed, dili⟩
  · rintro ctx message whole ctx' message' whole' ⟨member, made⟩ ⟨member', made'⟩ different ctx''
      message''
    rw [signDouble_eq] at made made'
    cases made
    cases made'
    apply Bool.eq_false_iff.mpr
    intro verified
    obtain ⟨both, ed, dili⟩ := (verify_eq_true ideal).mp verified
    -- each half is made over one string, so both signings are the one that is verified
    have first := ideal.ed.once _ _ (framed_bindAad.mpr member) (framed_bindAad.mpr both) ed
    have second := ideal.dili.once _ _ (framed_bindAad.mpr member') (framed_bindAad.mpr both) dili
    exact different (Context.bindAad_inj (first.trans second.symm))
  · intro ctx message member
    have length := (S.mldsa87Sign diliSeed (ctx.bindAad message)).2
    refine ⟨_, signDouble_eq S edSeed diliSeed ctx message, ?_, ?_, ?_⟩
    · exact DoubleSig.codec.decode_encode _ length
    · exact fromHex_toHex inverts length
    · exact (verify_eq_true ideal).mpr ⟨member, rfl, rfl⟩

/-- A scheme that signs a string with its first bytes and keeps a list of what it signed. -/
theorem listed_ideal {n : Nat} {strings : List Bytes} {signed : Bytes → Prop}
    (listed : ∀ bytes, signed bytes ↔ bytes ∈ strings)
    (apart : ∀ bytes ∈ strings, ∀ bytes' ∈ strings, fit n bytes = fit n bytes' → bytes = bytes') :
    IdealScheme (fit n) (fun bytes sig => decide (bytes ∈ strings) && decide (sig = fit n bytes))
      signed where
  verifies bytes sig := by rw [listed, Bool.and_eq_true, decide_eq_true_eq, decide_eq_true_eq]
  once bytes bytes' member member' :=
    apart bytes ((listed bytes).mp member) bytes' ((listed bytes').mp member')

def signedPairs : List (Context × Bytes) := [(rootA, [1]), (rootA, [2]), (rootB, [])]

def signedStrings : List Bytes := signedPairs.map fun pair => pair.1.bindAad pair.2

def listedSuite : SignatureSuite where
  ed25519Pub seed := seed
  ed25519Sign _ bytes := fit 64 bytes
  ed25519Key _ := true
  ed25519Verify _ bytes sig := decide (bytes ∈ signedStrings) && decide (sig = fit 64 bytes)
  mldsa87Pub seed := fit 2592 seed.1
  mldsa87Sign _ bytes := fit 4627 bytes
  mldsa87Key _ := true
  mldsa87Signature sig := decide (sig.length = 4627)
  mldsa87Verify _ bytes sig := decide (bytes ∈ signedStrings) && decide (sig = (fit 4627 bytes).1)

theorem framed_signedPairs (bytes : Bytes) :
    Framed (fun ctx message => (ctx, message) ∈ signedPairs) bytes ↔ bytes ∈ signedStrings := by
  rw [signedStrings, List.mem_map, Framed]
  constructor
  · rintro ⟨ctx, message, member, rfl⟩
    exact ⟨(ctx, message), member, rfl⟩
  · rintro ⟨⟨ctx, message⟩, member, rfl⟩
    exact ⟨ctx, message, member, rfl⟩

theorem fit_take {m n : Nat} (less : m ≤ n) (bytes : Bytes) :
    (fit n bytes).1.take m = (fit m bytes).1 := by
  have padding : min (m - bytes.length) n = min (m - bytes.length) m := by omega
  rw [fit_val, fit_val, List.take_take, Nat.min_eq_left less, List.take_append, List.take_append,
    List.take_replicate, List.take_replicate, padding]

theorem signedStrings_apart {n : Nat} (long : 64 ≤ n) : ∀ bytes ∈ signedStrings,
    ∀ bytes' ∈ signedStrings, fit n bytes = fit n bytes' → bytes = bytes' := by
  have short : ∀ bytes ∈ signedStrings, ∀ bytes' ∈ signedStrings,
      fit 64 bytes = fit 64 bytes' → bytes = bytes' := by decide +kernel
  intro bytes member bytes' member' same
  apply short bytes member bytes' member'
  apply Subtype.ext
  rw [← fit_take long, ← fit_take long, same]

theorem listedSuite_ideal (edSeed diliSeed : Fixed 32) :
    IdealPair listedSuite edSeed diliSeed (fun ctx message => (ctx, message) ∈ signedPairs) where
  ed := listed_ideal framed_signedPairs (signedStrings_apart (Nat.le_refl 64))
  dili := by
    have ideal := listed_ideal framed_signedPairs (signedStrings_apart (by decide : 64 ≤ 4627))
    constructor
    · intro bytes sig
      rw [framed_signedPairs]
      simp only [listedSuite, Bool.true_and, Bool.and_eq_true, decide_eq_true_eq]
      constructor
      · rintro ⟨-, made⟩
        exact made
      · rintro ⟨member, rfl⟩
        exact ⟨(fit 4627 bytes).2, member, rfl⟩
    · intro bytes bytes' member member' same
      exact ideal.once bytes bytes' member member' (Subtype.ext same)

/-- Halves of the signings of two messages do not verify, the whole signature does. -/
theorem double_signatures_bind_sample :
    ∃ key, DualVerifyingKey.fromWire
        (DualVerifyingKey.ofSeeds listedSuite (fit 32 [1]) (fit 32 [2])).toWire = .ok key ∧
      (∃ whole, signDouble listedSuite [1] (fit 32 [1]).1 (fit 32 [2]).1 rootA = .ok whole ∧
        key.verify listedSuite [1] whole rootA = true) ∧
      ∀ one other, signDouble listedSuite [1] (fit 32 [1]).1 (fit 32 [2]).1 rootA = .ok one →
        signDouble listedSuite [2] (fit 32 [1]).1 (fit 32 [2]).1 rootA = .ok other →
        key.verify listedSuite [1] { ed := one.ed, dili := other.dili } rootA = false := by
  obtain ⟨key, parsed, -, mixed, honest⟩ :=
    double_signatures_bind (listedSuite_ideal (fit 32 [1]) (fit 32 [2]))
      HexCodec.decodeDigits_inverts
  have first : (rootA, [1]) ∈ signedPairs := List.mem_cons_self
  have second : (rootA, [2]) ∈ signedPairs := List.mem_cons_of_mem _ List.mem_cons_self
  refine ⟨key, parsed, ?_, ?_⟩
  · obtain ⟨whole, made, -, -, verified⟩ := honest rootA [1] first
    exact ⟨whole, made, verified⟩
  · intro one other made made'
    exact mixed rootA [1] one rootA [2] other ⟨first, made⟩ ⟨second, made'⟩ (by simp) rootA [1]

end Lithium.Crypto
