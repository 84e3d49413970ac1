import Lithium.Crypto.Boxes
import Lithium.Crypto.Sample

/-! Conversations over dual encryption. Each message is sealed to the public key that came
with the previous one and opened with the private key kept from one's own last message; it
travels over the wire, and the private key may be stored and restored in between. -/
namespace Lithium.Crypto
open Keys (Bytes Fixed Key Nonce LithiumError)

/-- One message of a conversation; `restored` says whether its receiver had stored the
private key and restored it. -/
structure Turn where
  ctx : Context
  aad : Bytes
  payload : Bytes
  draws : DualDraws
  restored : Bool

/-- What the parties hold between two messages: the next sender the public key, the next
receiver the private key. -/
structure Line where
  pub : DualEncryptionPublicKey
  priv : DualEncryptionPrivateKey

/-- The receiver's private key, as kept or as restored from its wire form. -/
def Line.keptKey (line : Line) (restored : Bool) : Except LithiumError DualEncryptionPrivateKey :=
  if restored then DualEncryptionPrivateKey.fromWire line.priv.toWire else .ok line.priv

inductive Outcome where
  | sealFailed (error : LithiumError)
  | openFailed (error : LithiumError)
  | opened (payloads : List Bytes)
  deriving DecidableEq

def Outcome.opens : Outcome → Bool
  | .opened _ => true
  | _ => false

section
variable (X : Suite)

def receive (line : Line) (turn : Turn) (wire : Bytes) :
    Except LithiumError (Bytes × DualEncryptionPublicKey) := do
  let message ← DualSealed.fromWire wire
  let priv ← line.keptKey turn.restored
  priv.open X turn.ctx turn.aad message

/-- The messages of a conversation in order, up to the first failure. -/
def converse : Line → List Turn → Outcome
  | _, [] => .opened []
  | line, turn :: turns =>
    match line.pub.seal X turn.draws turn.ctx turn.aad turn.payload with
    | .error error => .sealFailed error
    | .ok (message, replyPriv) =>
      match receive X line turn message.toWire with
      | .error error => .openFailed error
      | .ok (payload, replyPub) =>
        match converse ⟨replyPub, replyPriv⟩ turns with
        | .opened payloads => .opened (payload :: payloads)
        | stopped => stopped

end

section
variable {X : Suite}

def Line.Paired (X : Suite) (line : Line) : Prop := line.pub = line.priv.publicKey X

theorem Line.keptKey_eq (line : Line) (restored : Bool) : line.keptKey restored = .ok line.priv := by
  cases restored with
  | false => rfl
  | true => exact DualEncryptionPrivateKey.codec.decode_encode line.priv trivial

theorem receive_seal (aead : X.AeadCorrect) (dh : X.DhSymmetric) (kem : X.KemCorrect) {line : Line}
    {turn : Turn} {message : DualSealed} {replyPriv : DualEncryptionPrivateKey}
    (paired : line.Paired X)
    (sealed : line.pub.seal X turn.draws turn.ctx turn.aad turn.payload = .ok (message, replyPriv)) :
    receive X line turn message.toWire = .ok (turn.payload, message.replyPub) ∧
      Line.Paired X ⟨message.replyPub, replyPriv⟩ := by
  obtain ⟨reply, priv, boxed⟩ := dualSeal_eq_ok sealed
  refine ⟨?_, reply⟩
  rw [paired] at boxed
  have opened := openBox_sealBox aead dh kem boxed rfl rfl
  obtain ⟨nonce, ct, ss, baseKey, dataCtx, raw, box⟩ := sealBox_eq_ok boxed
  have full : message.inner.kemCt.length = kemCtLen := by
    rw [box.sealed, kemBlob, List.length_cons, List.length_cons, ct.2]
    rfl
  simp only [receive, DualSealed.codec.decode_encode message full, line.keptKey_eq,
    DualEncryptionPrivateKey.open, opened, bind, Except.bind]
  rfl

theorem converse_opens (aead : X.AeadCorrect) (dh : X.DhSymmetric) (kem : X.KemCorrect)
    (turns : List Turn) {line : Line} (paired : line.Paired X) :
    converse X line turns = .opened (turns.map (·.payload)) ∨
      ∃ error, converse X line turns = .sealFailed error := by
  induction turns generalizing line with
  | nil => exact .inl rfl
  | cons turn turns ih =>
    rw [converse]
    cases sealed : line.pub.seal X turn.draws turn.ctx turn.aad turn.payload with
    | error error => exact .inr ⟨error, rfl⟩
    | ok answer =>
      obtain ⟨received, next⟩ := receive_seal aead dh kem paired sealed
      dsimp only
      rw [received]
      dsimp only
      rcases ih next with rest | ⟨error, rest⟩
      · exact .inl (by rw [rest, List.map_cons])
      · exact .inr ⟨error, by rw [rest]⟩

/-- A conversation that starts from an ephemeral key pair delivers every message, however
long it is. -/
theorem conversation_delivers (aead : X.AeadCorrect) (dh : X.DhSymmetric) (kem : X.KemCorrect)
    {xSeed : Draw 32} {kSeed : Draw 64} {priv : DualEncryptionPrivateKey}
    {pub : DualEncryptionPublicKey}
    (started : DualEncryptionPrivateKey.ephemeral X xSeed kSeed = .ok (priv, pub))
    (turns : List Turn) :
    converse X ⟨pub, priv⟩ turns = .opened (turns.map (·.payload)) ∨
      ∃ error, converse X ⟨pub, priv⟩ turns = .sealFailed error :=
  converse_opens aead dh kem turns (ephemeral_eq_ok started).2.2

end

def sampleTurn (payload : Bytes) (restored : Bool) : Turn where
  ctx := sampleContext
  aad := [9]
  payload := payload
  draws := ⟨.ok (fit 32 [5]), .ok (fit 64 [6]), .ok (fit 32 [7]), fit 32 [8], .ok (fit 12 [])⟩
  restored := restored

def sampleLine : Line := ⟨⟨fit 32 [1], fit 1568 [2]⟩, ⟨fit 32 [1], fit 64 [2]⟩⟩

/-- A question and its answer. -/
theorem conversation_sample :
    converse sampleSuite sampleLine [sampleTurn [1, 2] false, sampleTurn [3] true] =
      .opened [[1, 2], [3]] := by
  have started : DualEncryptionPrivateKey.ephemeral sampleSuite (.ok (fit 32 [1]))
      (.ok (fit 64 [2])) = .ok (sampleLine.priv, sampleLine.pub) := by
    have padded : sampleSuite.mlkemPub (fit 64 [2]) = fit 1568 [2] := by decide +kernel
    simp only [DualEncryptionPrivateKey.ephemeral, ephemeralX25519Keypair, ephemeralMlkemKeypair,
      bind, Except.bind, pure, Except.pure, padded]
    rfl
  have counted : (converse sampleSuite sampleLine
      [sampleTurn [1, 2] false, sampleTurn [3] true]).opens = true := by decide +kernel
  rcases conversation_delivers sampleSuite_aead sampleSuite_dh sampleSuite_kem started
    [sampleTurn [1, 2] false, sampleTurn [3] true] with opened | ⟨error, failed⟩
  · exact opened
  · have line : sampleLine = ⟨sampleLine.pub, sampleLine.priv⟩ := rfl
    rw [line, failed] at counted
    cases counted

end Lithium.Crypto
