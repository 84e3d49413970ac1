import Lithium.Crypto.Wire
import Lithium.HexCodec

/-! Double signatures and the keys that verify them (`crypto/sign.rs`): each is an Ed25519
part and an ML-DSA-87 part, one behind the other. A signature verifies if both parts do. -/
namespace Lithium.Crypto
open Keys (Bytes Fixed LithiumError)
open Wire (Exact)

def ed25519SigLen : Nat := 64
def mldsa87SigLen : Nat := 4627
def ed25519PubLen : Nat := 32
def mldsa87PubLen : Nat := 2592

structure DoubleSig where
  ed : Fixed 64
  dili : Bytes
  deriving DecidableEq

namespace DoubleSig

def form : Fixed 64 × Bytes ≃ DoubleSig where
  toFun parts := ⟨parts.1, parts.2⟩
  invFun sig := (sig.ed, sig.dili)
  left_inv _ := rfl
  right_inv _ := rfl

def toBytes (sig : DoubleSig) : Bytes := sig.ed.1 ++ sig.dili

def fromBytes (bytes : Bytes) : Except LithiumError DoubleSig :=
  (splitFixed ed25519SigLen mldsa87SigLen bytes).map form

theorem codec : Exact toBytes fromBytes (fun sig => sig.dili.length = mldsa87SigLen)
    (fun bytes => bytes.length = ed25519SigLen + mldsa87SigLen) :=
  (splitFixed_exact ed25519SigLen mldsa87SigLen).map form

def toHex (sig : DoubleSig) : String := Keys.hexEncode sig.toBytes

def fromHex (decodeToSlice : HexCodec.DecodeToSlice) (s : String) : Except LithiumError DoubleSig := do
  fromBytes (← HexCodec.decodeVec decodeToSlice s)

end DoubleSig

structure DualVerifyingKey where
  ed25519 : Fixed 32
  mldsa87 : Bytes
  deriving DecidableEq

namespace DualVerifyingKey

def form : Fixed 32 × Bytes ≃ DualVerifyingKey where
  toFun parts := ⟨parts.1, parts.2⟩
  invFun key := (key.ed25519, key.mldsa87)
  left_inv _ := rfl
  right_inv _ := rfl

def toWire (key : DualVerifyingKey) : Bytes := key.ed25519.1 ++ key.mldsa87

def fromWire (bytes : Bytes) : Except LithiumError DualVerifyingKey :=
  (splitFixed ed25519PubLen mldsa87PubLen bytes).map form

theorem codec : Exact toWire fromWire (fun key => key.mldsa87.length = mldsa87PubLen)
    (fun bytes => bytes.length = ed25519PubLen + mldsa87PubLen) :=
  (splitFixed_exact ed25519PubLen mldsa87PubLen).map form

end DualVerifyingKey

/-- Ed25519 and ML-DSA-87 as the crate calls them. Keys and signatures are their bytes, and
the parsers of the two crates say which bytes are one. -/
structure SignatureSuite where
  ed25519Pub : (seed : Fixed 32) → Fixed 32
  ed25519Sign : (seed : Fixed 32) → (message : Bytes) → Fixed 64
  ed25519Key : (key : Fixed 32) → Bool
  ed25519Verify : (key : Fixed 32) → (message : Bytes) → (signature : Fixed 64) → Bool
  mldsa87Pub : (seed : Fixed 32) → Fixed 2592
  mldsa87Sign : (seed : Fixed 32) → (message : Bytes) → Fixed 4627
  mldsa87Key : (key : Bytes) → Bool
  mldsa87Signature : (signature : Bytes) → Bool
  mldsa87Verify : (key message signature : Bytes) → Bool

section
variable (S : SignatureSuite)

def signMessage (message privEdSeed : Bytes) (ctx : Context) : Except LithiumError Bytes := do
  let seed ← Fixed.fromSlice 32 privEdSeed
  return (S.ed25519Sign seed (ctx.bindAad message)).1

def verifySignature (message signature : Bytes) (pubKey : Fixed 32) (ctx : Context) : Bool :=
  -- the parser of signatures only checks the length again
  if fits : signature.length = 64 then
    if S.ed25519Key pubKey then S.ed25519Verify pubKey (ctx.bindAad message) ⟨signature, fits⟩
    else false
  else false

def signMessageDili (message diliSkBytes : Bytes) (ctx : Context) : Except LithiumError Bytes :=
  match Fixed.fromSlice 32 diliSkBytes with
  | .error _ => .error (.keyImportFailed "mldsa_signing_key")
  | .ok seed => .ok (S.mldsa87Sign seed (ctx.bindAad message)).1

def verifySignatureDili (message signature diliPkBytes : Bytes) (ctx : Context) : Bool :=
  if S.mldsa87Key diliPkBytes then
    if S.mldsa87Signature signature then
      S.mldsa87Verify diliPkBytes (ctx.bindAad message) signature
    else false
  else false

def signDouble (message edSeed diliSk : Bytes) (ctx : Context) : Except LithiumError DoubleSig := do
  let bytes ← signMessage S message edSeed ctx
  let ed ← (Fixed.fromSlice 64 bytes).mapError fun _ => .internal "ed25519_sig_len"
  let dili ← signMessageDili S message diliSk ctx
  return { ed, dili }

def verifyDouble (message : Bytes) (sig : DoubleSig) (edPub : Fixed 32) (diliPub : Bytes)
    (ctx : Context) : Bool :=
  let sigEd := verifySignature S message sig.ed.1 edPub ctx
  let sigDili := verifySignatureDili S message sig.dili diliPub ctx
  sigEd && sigDili

def DualVerifyingKey.verify (key : DualVerifyingKey) (message : Bytes) (sig : DoubleSig)
    (ctx : Context) : Bool :=
  verifyDouble S message sig key.ed25519 key.mldsa87 ctx

def DualVerifyingKey.ofSeeds (edSeed diliSeed : Fixed 32) : DualVerifyingKey :=
  { ed25519 := S.ed25519Pub edSeed, mldsa87 := (S.mldsa87Pub diliSeed).1 }

end
end Lithium.Crypto
