import Lithium.Crypto.Framing
import Lithium.HexCodec
import Mathlib.Data.List.TakeWhile

/-! Data keys wrapped under the export key of a password login (`opaque/dek.rs`). The wrapped
key is stored as a text; what is read back may have white space around it. Unwrapping accepts
exactly the texts that wrapping writes for the same export key and associated data. -/
namespace Lithium.Opaque
open Keys (Bytes Fixed Key Nonce LithiumError)
open Crypto (Suite Context Draw ascii)
open HexCodec (DecodeToSlice Inverts)

/-- `char::is_whitespace`, the Unicode property `White_Space`. -/
def isWhitespace (c : Char) : Bool :=
  (0x09 ≤ c.toNat && c.toNat ≤ 0x0d) || c.toNat = 0x20 || c.toNat = 0x85 || c.toNat = 0xa0 ||
    c.toNat = 0x1680 || (0x2000 ≤ c.toNat && c.toNat ≤ 0x200a) || c.toNat = 0x2028 ||
    c.toNat = 0x2029 || c.toNat = 0x202f || c.toNat = 0x205f || c.toNat = 0x3000

/-- `str::trim`. -/
def trim (s : String) : String :=
  String.ofList (((s.toList.dropWhile isWhitespace).reverse.dropWhile isWhitespace).reverse)

def Blank (s : String) : Prop := ∀ c ∈ s.toList, isWhitespace c = true

instance (s : String) : Decidable (Blank s) :=
  decidable_of_iff (s.toList.all isWhitespace = true) List.all_eq_true

/-- The errors of this layer, and those of the layers below. -/
inductive DekError where
  | invalidCredentials (reason : String)
  | other (error : LithiumError)
  deriving DecidableEq, Repr

/-- The `?` on a result of a layer below. -/
def below {α : Type} : Except LithiumError α → Except DekError α
  | .ok value => .ok value
  | .error error => .error (.other error)

section
variable (X : Suite) (decodeToSlice : DecodeToSlice)

def dekWrapVer : UInt8 := 1

def dekCtx : Except LithiumError Context := do
  let base ← Context.base (ascii "lithium")
  let ctx ← base.add (ascii "opaque")
  ctx.add (ascii "dek-wrap")

def wrapKey (exportKey : Fixed 64) (aad : Bytes) : Except LithiumError Key := do
  let ctx ← dekCtx
  Crypto.derive32Raw X exportKey.1 none (ctx.bindAad aad)

/-- `wrap_dek_under_export_key`, with the nonce that is drawn. -/
def wrapDekUnderExportKey (nonce : Draw 12) (dek : Key) (exportKey : Fixed 64) (aad : Bytes) :
    Except LithiumError String := do
  let key ← wrapKey X exportKey aad
  let ctx ← dekCtx
  let blob ← Crypto.encrypt X nonce dek.1 key ctx aad
  return Keys.hexEncode (dekWrapVer :: blob)

def unwrapDekUnderExportKey (blobHex : String) (exportKey : Fixed 64) (aad : Bytes) :
    Except DekError Key := do
  let blob ← below (HexCodec.decodeVec decodeToSlice (trim blobHex))
  if blob.length < 1 + 1 + 12 + 16 then .error (.invalidCredentials "bad_dek_blob")
  else if blob.head? ≠ some dekWrapVer then .error (.invalidCredentials "bad_dek_blob")
  else do
    let key ← below (wrapKey X exportKey aad)
    let ctx ← below dekCtx
    let pt ← below (Crypto.decrypt X (blob.drop 1) key ctx aad)
    below (Fixed.fromSlice 32 pt)

end

theorem dropWhile_blank {blank : List Char} (rest : List Char)
    (white : ∀ c ∈ blank, isWhitespace c = true) :
    (blank ++ rest).dropWhile isWhitespace = rest.dropWhile isWhitespace := by
  rw [List.dropWhile_append, List.dropWhile_eq_nil_iff.mpr white]
  rfl

theorem trim_ends {before after : String} (s : String) (first : Blank before) (last : Blank after) :
    trim (before ++ s ++ after) = trim s := by
  have front : (before ++ s ++ after).toList.dropWhile isWhitespace =
      (s.toList ++ after.toList).dropWhile isWhitespace := by
    rw [String.toList_append, String.toList_append, List.append_assoc]
    exact dropWhile_blank _ first
  have back : ∀ c ∈ after.toList.reverse, isWhitespace c = true := fun c member =>
    last c (List.mem_reverse.mp member)
  rw [trim, trim, front, List.dropWhile_append]
  split
  · next none =>
    rw [List.isEmpty_iff.mp none, List.dropWhile_eq_nil_iff.mpr last]
  · rw [List.reverse_append, dropWhile_blank _ back]

theorem hexDigit_not_whitespace {n : Nat} (small : n < 16) : isWhitespace (Keys.hexDigit n) = false := by
  have table : ∀ n : Fin 16, isWhitespace (Keys.hexDigit n) = false := by decide
  exact table ⟨n, small⟩

theorem dropWhile_solid {chars : List Char} (solid : ∀ c ∈ chars, isWhitespace c = false) :
    chars.dropWhile isWhitespace = chars := by
  cases chars with
  | nil => rfl
  | cons c chars =>
    refine List.dropWhile_cons_of_neg ?_
    rw [solid c List.mem_cons_self]
    exact Bool.false_ne_true

theorem trim_hexEncode (bytes : Bytes) : trim (Keys.hexEncode bytes) = Keys.hexEncode bytes := by
  have solid : ∀ c ∈ (Keys.hexEncode bytes).toList, isWhitespace c = false := by
    intro c member
    rw [Keys.hexEncode, String.toList_ofList] at member
    obtain ⟨byte, -, digit⟩ := List.mem_flatMap.mp member
    obtain ⟨high, low⟩ := HexCodec.halves_small byte
    rcases List.mem_pair.mp digit with rfl | rfl
    · exact hexDigit_not_whitespace high
    · exact hexDigit_not_whitespace low
  have backwards : ∀ c ∈ (Keys.hexEncode bytes).toList.reverse, isWhitespace c = false :=
    fun c member => solid c (List.mem_reverse.mp member)
  rw [trim, dropWhile_solid solid, dropWhile_solid backwards, List.reverse_reverse, String.ofList_toList]

section
variable {X : Suite} {decodeToSlice : DecodeToSlice} {dek : Key} {exportKey : Fixed 64} {aad : Bytes}

theorem below_eq_ok {α : Type} {result : Except LithiumError α} {value : α} :
    below result = .ok value ↔ result = .ok value := by
  cases result with
  | ok other => simp [below]
  | error error => simp [below]

theorem below_bind {α β : Type} {result : Except LithiumError α} {next : α → Except DekError β}
    {value : β} (done : (below result >>= next) = .ok value) :
    ∃ first, result = .ok first ∧ next first = .ok value := by
  cases result with
  | ok first => exact ⟨first, rfl, done⟩
  | error error => cases done

theorem exists_dekCtx : ∃ ctx, dekCtx = .ok ctx := ⟨_, rfl⟩

theorem wrapKey_eq {ctx : Context} (made : dekCtx = .ok ctx) (exportKey : Fixed 64) (aad : Bytes) :
    wrapKey X exportKey aad = .ok (X.hkdf none exportKey.1 (ctx.bindAad aad) 32) := by
  rw [wrapKey, made]
  exact Crypto.derive32Raw_eq _ _ _

/-- A wrapped key is two versions, a nonce and the raw encryption. -/
theorem wrapDek_eq_ok {ctx : Context} (made : dekCtx = .ok ctx) {nonce : Nonce} {text : String} :
    wrapDekUnderExportKey X (.ok nonce) dek exportKey aad = .ok text ↔
      ∃ ct, X.encryptRaw (X.hkdf none exportKey.1 (ctx.bindAad aad) 32) nonce (ctx.bindAad aad)
          dek.1 = some ct ∧
        text = Keys.hexEncode (dekWrapVer :: Crypto.aeadBlobVersion :: (nonce.1 ++ ct)) := by
  rw [wrapDekUnderExportKey, wrapKey_eq made, made, Crypto.ok_bind, Crypto.ok_bind]
  constructor
  · intro wrapped
    obtain ⟨blob, sealed, written⟩ := Crypto.bind_eq_ok wrapped
    obtain ⟨ct, encrypted, rfl⟩ := Crypto.encryptFramed_eq_ok sealed
    cases written
    exact ⟨ct, encrypted, rfl⟩
  · rintro ⟨ct, encrypted, rfl⟩
    rw [Crypto.encrypt, Crypto.ok_bind, Crypto.encryptFramed, Crypto.encryptRaw,
      Crypto.rawOutcome_eq_ok.mpr encrypted]
    rfl

theorem unwrapDek_eq_ok (exact : X.AeadExact) (inverts : Inverts decodeToSlice) {s : String} :
    unwrapDekUnderExportKey X decodeToSlice s exportKey aad = .ok dek ↔
      ∃ nonce : Nonce, wrapDekUnderExportKey X (.ok nonce) dek exportKey aad = .ok (trim s) := by
  obtain ⟨ctx, made⟩ := exists_dekCtx
  simp only [wrapDek_eq_ok made]
  constructor
  · intro unwrapped
    obtain ⟨blob, decoded, rest⟩ := below_bind unwrapped
    rw [HexCodec.decodeVec_eq_ok inverts] at decoded
    split at rest
    · cases rest
    · split at rest
      · cases rest
      · next long version =>
        rw [wrapKey_eq made, made] at rest
        have rest : (below (Crypto.decrypt X (blob.drop 1)
            (X.hkdf none exportKey.1 (ctx.bindAad aad) 32) ctx aad) >>= fun pt =>
              below (Fixed.fromSlice 32 pt)) = .ok dek := rest
        obtain ⟨pt, opened, fits⟩ := below_bind rest
        obtain ⟨nonce, ct, -, framed, decrypted⟩ := Crypto.decrypt_eq_ok.mp opened
        rw [Fixed.fromSlice_eq_ok.mp (below_eq_ok.mp fits)] at decrypted
        refine ⟨nonce, ct, exact.decrypts.mp decrypted, ?_⟩
        cases blob with
        | nil => simp at long
        | cons byte bytes =>
          have first : byte = dekWrapVer := by simpa using version
          have others : bytes = Crypto.aeadBlobVersion :: (nonce.1 ++ ct) := framed
          rw [decoded, first, others]
  · rintro ⟨nonce, ct, encrypted, written⟩
    have length := exact.length_encrypt encrypted
    have decoded : HexCodec.decodeVec decodeToSlice (trim s) =
        .ok (dekWrapVer :: Crypto.aeadBlobVersion :: (nonce.1 ++ ct)) :=
      (HexCodec.decodeVec_eq_ok inverts).mpr written
    have long : ¬ (dekWrapVer :: Crypto.aeadBlobVersion :: (nonce.1 ++ ct)).length < 1 + 1 + 12 + 16 := by
      simp only [List.length_cons, List.length_append, nonce.2]
      omega
    have opened : Crypto.decrypt X (Crypto.aeadBlobVersion :: (nonce.1 ++ ct))
        (X.hkdf none exportKey.1 (ctx.bindAad aad) 32) ctx aad = .ok dek.1 :=
      Crypto.decrypt_eq_ok.mpr ⟨nonce, ct, by omega, rfl, exact.decrypts.mpr encrypted⟩
    have kept : Fixed.fromSlice 32 dek.1 = .ok dek := Fixed.fromSlice_eq_ok.mpr rfl
    rw [unwrapDekUnderExportKey, decoded, below, wrapKey_eq made, made]
    show (if _ then _ else _) = _
    rw [if_neg long, if_neg (by simp)]
    show (below (Crypto.decrypt X (Crypto.aeadBlobVersion :: (nonce.1 ++ ct)) _ ctx aad) >>= _) = _
    rw [opened]
    exact below_eq_ok.mpr kept

end

/-- What unwraps to a key is, apart from white space around it, a text that wrapping this key
under the same export key and associated data writes; and each such text unwraps to the key, with
any white space around it. -/
theorem wrapped_deks_exact {X : Suite} {decodeToSlice : DecodeToSlice} (exact : X.AeadExact)
    (inverts : Inverts decodeToSlice) (exportKey : Fixed 64) (aad : Bytes) :
    (∀ s dek, unwrapDekUnderExportKey X decodeToSlice s exportKey aad = .ok dek ↔
      ∃ nonce : Nonce, wrapDekUnderExportKey X (.ok nonce) dek exportKey aad = .ok (trim s)) ∧
    ∀ nonce dek text before after,
      wrapDekUnderExportKey X (.ok nonce) dek exportKey aad = .ok text → Blank before → Blank after →
        unwrapDekUnderExportKey X decodeToSlice (before ++ text ++ after) exportKey aad = .ok dek := by
  refine ⟨fun s dek => unwrapDek_eq_ok exact inverts, ?_⟩
  intro nonce dek text before after wrapped first last
  refine (unwrapDek_eq_ok exact inverts).mpr ⟨nonce, ?_⟩
  obtain ⟨ctx, made⟩ := exists_dekCtx
  obtain ⟨ct, -, rfl⟩ := (wrapDek_eq_ok made).mp wrapped
  rw [trim_ends _ first last, trim_hexEncode]
  exact wrapped

theorem wrapped_deks_exact_sample : ∃ text,
    wrapDekUnderExportKey Crypto.aadSuite (.ok (Crypto.fit 12 [])) (Crypto.fit 32 [7]) (Crypto.fit 64 [])
        [1] = .ok text ∧
      unwrapDekUnderExportKey Crypto.aadSuite HexCodec.decodeDigits (" " ++ text ++ "\n")
        (Crypto.fit 64 []) [1] = .ok (Crypto.fit 32 [7]) := by
  have first : Blank " " := by decide +kernel
  have last : Blank "\n" := by decide +kernel
  have exactly := wrapped_deks_exact Crypto.aadSuite_exact HexCodec.decodeDigits_inverts
    (Crypto.fit 64 []) [1]
  exact ⟨_, rfl, exactly.2 _ _ _ _ _ rfl first last⟩

end Lithium.Opaque
