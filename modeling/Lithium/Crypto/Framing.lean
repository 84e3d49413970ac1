import Lithium.Crypto.Sample
import Lithium.Wire.Text

/-! What contexts, associated data and AEAD blobs look like: which chains of segments make a
context, that the segments can be read off it, and which blobs `decrypt` opens. -/
namespace Lithium.Crypto
open Keys (Bytes Fixed Key Nonce LithiumError)
open Wire (utf8 utf8_inj utf8_eq_nil)

namespace Context

/-- `ctx.add(s_1)?…add(s_n)?`. -/
def addAll (ctx : Context) (segments : List String) : Except LithiumError Context :=
  segments.foldlM (fun ctx segment => ctx.add (utf8 segment)) ctx

/-- `Context::base(s_0)?.add(s_1)?…add(s_n)?`. -/
def chain (root : String) (segments : List String) : Except LithiumError Context := do
  (← base (utf8 root)).addAll segments

end Context

def slashJoined (texts : List Bytes) : Bytes := [slash].intercalate texts

/-- Neither empty nor with a byte outside `!` to `~` or a slash. -/
def InGrammar (segment : Bytes) : Prop :=
  segment ≠ [] ∧ ∀ byte ∈ segment, Printable byte ∧ byte ≠ slash

theorem validateSegment_eq_ok {seg : Bytes} {segment : Segment} :
    validateSegment seg = .ok segment ↔ InGrammar seg ∧ segment.1 = seg := by
  rw [validateSegment, InGrammar]
  by_cases empty : seg = []
  · simp [empty]
  · by_cases charset : ∀ byte ∈ seg, Printable byte ∧ byte ≠ slash
    · rw [if_neg empty, dif_pos charset, Except.ok.injEq, Subtype.ext_iff]
      constructor
      · intro same
        exact ⟨⟨empty, charset⟩, same.symm⟩
      · rintro ⟨-, same⟩
        exact same.symm
    · rw [if_neg empty, dif_neg charset]
      constructor
      · intro done
        cases done
      · rintro ⟨⟨-, good⟩, -⟩
        exact absurd good charset

namespace Context

theorem base_eq_ok {root : Bytes} {ctx : Context} :
    base root = .ok ctx ↔ InGrammar root ∧ ctx.text = root := by
  rw [base]
  constructor
  · intro made
    obtain ⟨segment, valid, bounded⟩ := bind_eq_ok made
    obtain ⟨good, rfl⟩ := validateSegment_eq_ok.mp valid
    split at bounded
    · cases bounded
      exact ⟨good, rfl⟩
    · cases bounded
  · rintro ⟨good, rfl⟩
    have valid : validateSegment ctx.text = .ok ⟨ctx.text, good.2⟩ :=
      validateSegment_eq_ok.mpr ⟨good, rfl⟩
    rw [valid]
    exact dif_pos ctx.short

theorem add_eq_ok {ctx extended : Context} {segment : Bytes} :
    ctx.add segment = .ok extended ↔
      InGrammar segment ∧ extended.text = ctx.text ++ slash :: segment := by
  rw [add]
  constructor
  · intro made
    obtain ⟨valid, validated, bounded⟩ := bind_eq_ok made
    obtain ⟨good, rfl⟩ := validateSegment_eq_ok.mp validated
    split at bounded
    · cases bounded
      exact ⟨good, rfl⟩
    · cases bounded
  · rintro ⟨good, joined⟩
    have valid : validateSegment segment = .ok ⟨segment, good.2⟩ :=
      validateSegment_eq_ok.mpr ⟨good, rfl⟩
    have short := extended.short
    rw [joined] at short
    rw [valid]
    exact (dif_pos short).trans (congrArg Except.ok (Context.ext joined.symm))

/-- Every partial path of an accepted path is a context, since it is no longer. -/
theorem exists_partial {extended : Context} {text rest : Bytes} (joined : extended.text = text ++ rest) :
    ∃ ctx : Context, ctx.text = text := by
  have printable := extended.printable
  have short := extended.short
  rw [joined] at printable short
  rw [List.length_append] at short
  exact ⟨⟨text, fun byte member => printable byte (List.mem_append_left _ member),
    Nat.le_trans (Nat.le_add_right _ _) short⟩, rfl⟩

theorem addAll_cons (ctx : Context) (segment : String) (segments : List String) :
    ctx.addAll (segment :: segments) = ctx.add (utf8 segment) >>= fun next => next.addAll segments :=
  List.foldlM_cons

theorem addAll_eq_ok {segments : List String} {ctx extended : Context} :
    ctx.addAll segments = .ok extended ↔ (∀ segment ∈ segments, InGrammar (utf8 segment)) ∧
      extended.text = ctx.text ++ segments.flatMap (fun segment => slash :: utf8 segment) := by
  induction segments generalizing ctx with
  | nil =>
    simp only [List.flatMap_nil, List.append_nil, List.not_mem_nil, false_implies, implies_true,
      true_and]
    constructor
    · intro done
      cases done
      rfl
    · intro same
      rw [Context.ext same]
      rfl
  | cons segment segments ih =>
    rw [addAll_cons, List.forall_mem_cons, List.flatMap_cons]
    constructor
    · intro done
      obtain ⟨next, added, rest⟩ := bind_eq_ok done
      obtain ⟨good, text⟩ := add_eq_ok.mp added
      obtain ⟨goods, path⟩ := ih.mp rest
      rw [path, text, List.append_assoc]
      exact ⟨⟨good, goods⟩, rfl⟩
    · rintro ⟨⟨good, goods⟩, joined⟩
      rw [← List.append_assoc] at joined
      obtain ⟨next, text⟩ := exists_partial joined
      rw [add_eq_ok.mpr ⟨good, text⟩]
      rw [← text] at joined
      exact ih.mpr ⟨goods, joined⟩

end Context

theorem slashJoined_cons (text : Bytes) (texts : List Bytes) :
    slashJoined (text :: texts) = text ++ texts.flatMap (slash :: ·) := by
  rw [slashJoined]
  induction texts generalizing text with
  | nil => simp
  | cons next texts ih => rw [List.intercalate_cons_cons, ih, List.flatMap_cons]; simp

/-- Segments hold no slash, so joining them can be undone. -/
theorem slashJoined_inj {texts others : List Bytes} (nonempty : texts ≠ []) (nonempty' : others ≠ [])
    (good : ∀ text ∈ texts, InGrammar text) (good' : ∀ text ∈ others, InGrammar text)
    (same : slashJoined texts = slashJoined others) : texts = others := by
  have noSlash : ∀ {texts : List Bytes}, (∀ text ∈ texts, InGrammar text) →
      ∀ text ∈ texts, slash ∉ text := by
    intro texts good text member inside
    exact ((good text member).2 slash inside).2 rfl
  rw [← List.splitOn_intercalate slash (noSlash good) nonempty,
    ← List.splitOn_intercalate slash (noSlash good') nonempty']
  exact congrArg _ same

theorem slashJoined_printable {texts : List Bytes} (good : ∀ text ∈ texts, InGrammar text) :
    ∀ byte ∈ slashJoined texts, Printable byte := by
  cases texts with
  | nil => simp [slashJoined]
  | cons text texts =>
    rw [slashJoined_cons]
    intro byte member
    rcases List.mem_append.mp member with first | later
    · exact ((good text List.mem_cons_self).2 byte first).1
    · obtain ⟨other, among, inside⟩ := List.mem_flatMap.mp later
      rcases List.mem_cons.mp inside with rfl | within
      · decide
      · exact ((good other (List.mem_cons_of_mem _ among)).2 byte within).1

namespace Context

theorem chain_eq_ok {root : String} {segments : List String} {ctx : Context} :
    chain root segments = .ok ctx ↔ (∀ text ∈ (root :: segments).map utf8, InGrammar text) ∧
      ctx.text = slashJoined ((root :: segments).map utf8) := by
  rw [List.map_cons, slashJoined_cons, List.forall_mem_cons, List.forall_mem_map, List.flatMap_map]
  constructor
  · intro done
    obtain ⟨first, based, added⟩ := bind_eq_ok done
    obtain ⟨good, text⟩ := base_eq_ok.mp based
    obtain ⟨goods, path⟩ := addAll_eq_ok.mp added
    rw [path, text]
    exact ⟨⟨good, goods⟩, rfl⟩
  · rintro ⟨⟨good, goods⟩, joined⟩
    obtain ⟨first, text⟩ := exists_partial joined
    rw [chain, base_eq_ok.mpr ⟨good, text⟩]
    rw [← text] at joined
    exact addAll_eq_ok.mpr ⟨goods, joined⟩

/-- A chain of texts is accepted exactly if each one is in the grammar and the joined path
is short enough; the texts can be read off the context and off its label. -/
theorem chain_exact :
    (∀ (root : String) (segments : List String), (∃ ctx, chain root segments = .ok ctx) ↔
      (∀ text ∈ root :: segments, text ≠ "" ∧
        ∀ byte ∈ utf8 text, 0x21 ≤ byte ∧ byte ≤ 0x7e ∧ byte ≠ 0x2f) ∧
      (slashJoined ((root :: segments).map utf8)).length ≤ 255) ∧
    ∀ (root root' : String) (segments segments' : List String) (ctx ctx' : Context),
      chain root segments = .ok ctx → chain root' segments' = .ok ctx' →
      ctx = ctx' ∨ ctx.label = ctx'.label → root :: segments = root' :: segments' := by
  constructor
  · intro root segments
    have grammar : (∀ text ∈ (root :: segments).map utf8, InGrammar text) ↔
        ∀ text ∈ root :: segments, text ≠ "" ∧
          ∀ byte ∈ utf8 text, 0x21 ≤ byte ∧ byte ≤ 0x7e ∧ byte ≠ 0x2f := by
      simp only [List.forall_mem_map, InGrammar, ne_eq, utf8_eq_nil, Printable, slash, and_assoc]
    rw [← grammar]
    constructor
    · rintro ⟨ctx, chained⟩
      obtain ⟨good, joined⟩ := chain_eq_ok.mp chained
      exact ⟨good, joined ▸ ctx.short⟩
    · rintro ⟨good, short⟩
      exact ⟨⟨_, slashJoined_printable good, short⟩, chain_eq_ok.mpr ⟨good, rfl⟩⟩
  · intro root root' segments segments' ctx ctx' chained chained' same
    obtain ⟨good, joined⟩ := chain_eq_ok.mp chained
    obtain ⟨good', joined'⟩ := chain_eq_ok.mp chained'
    have contexts : ctx = ctx' := by
      rcases same with same | same
      · exact same
      · exact label_inj same
    rw [contexts, joined'] at joined
    have texts := slashJoined_inj (by simp) (by simp) good' good joined
    exact (List.map_inj_right fun _ _ => utf8_inj.mp).mp texts.symm

theorem chain_exact_sample : ∃ ctx, chain "svc" ["key"] = .ok ctx ∧
    ∀ root segments, chain root segments = .ok ctx → root :: segments = ["svc", "key"] := by
  have good : (∀ text ∈ ["svc", "key"], text ≠ "" ∧
      ∀ byte ∈ utf8 text, 0x21 ≤ byte ∧ byte ≤ 0x7e ∧ byte ≠ 0x2f) ∧
      (slashJoined (["svc", "key"].map utf8)).length ≤ 255 := by
    decide +kernel
  obtain ⟨ctx, chained⟩ := (chain_exact.1 "svc" ["key"]).mpr good
  refine ⟨ctx, chained, ?_⟩
  intro root segments other
  exact chain_exact.2 _ _ _ _ _ _ other chained (.inl rfl)

end Context

namespace Suite

/-- Decryption succeeds exactly on outputs of encryption under the same key, nonce and
associated data, which are 16 bytes longer than what they encrypt. -/
structure AeadExact (X : Suite) : Prop where
  decrypts : ∀ {key nonce aad ciphertext plaintext},
    X.decryptRaw key nonce aad ciphertext = some plaintext ↔
      X.encryptRaw key nonce aad plaintext = some ciphertext
  length_encrypt : ∀ {key nonce aad plaintext ciphertext},
    X.encryptRaw key nonce aad plaintext = some ciphertext →
    ciphertext.length = plaintext.length + 16

/-- An output of encryption under one associated data is no output under the other. -/
def AadBound (X : Suite) (key : Key) (aad aad' : Bytes) : Prop :=
  ∀ nonce plaintext plaintext' ciphertext,
    X.encryptRaw key nonce aad plaintext = some ciphertext →
    X.encryptRaw key nonce aad' plaintext' = some ciphertext → aad = aad'

end Suite

/-- What is long enough and has the version is a version, a nonce and a ciphertext. -/
theorem decrypt_eq_ok {X : Suite} {blob aad plaintext : Bytes} {key : Key} {ctx : Context} :
    decrypt X blob key ctx aad = .ok plaintext ↔ ∃ (nonce : Nonce) (ct : Bytes), 16 ≤ ct.length ∧
      blob = aeadBlobVersion :: (nonce.1 ++ ct) ∧
      X.decryptRaw key nonce (ctx.bindAad aad) ct = some plaintext := by
  constructor
  · intro opened
    rw [decrypt] at opened
    split at opened
    · cases opened
    · rename_i long
      split at opened
      · cases opened
      · rename_i version
        obtain ⟨nonce, carried, raw⟩ := bind_eq_ok opened
        cases blob with
        | nil => simp at long
        | cons first rest =>
          have first : first = aeadBlobVersion := by simpa using version
          have front : rest.take 12 = nonce.1 := Fixed.fromSlice_eq_ok.mp carried
          refine ⟨nonce, rest.drop 12, ?_, ?_, rawOutcome_eq_ok.mp raw⟩
          · simp only [List.length_drop, List.length_cons] at long ⊢
            omega
          · rw [first, ← front, List.take_append_drop]
  · rintro ⟨nonce, ct, tagged, rfl, decrypted⟩
    rw [decrypt_blob nonce tagged]
    exact rawOutcome_eq_ok.mpr decrypted

/-- The bound string determines context and associated data; `decrypt` opens exactly the
version byte, a nonce and the raw encryption under it; so what was encrypted under other
bound strings does not open. -/
theorem blobs_canonical {X : Suite} (exact : X.AeadExact) :
    (∀ (ctx ctx' : Context) (aad aad' : Bytes), ctx.bindAad aad = ctx'.bindAad aad' →
      ctx = ctx' ∧ aad = aad') ∧
    (∀ (blob plaintext : Bytes) (key : Key) (ctx : Context) (aad : Bytes),
      decrypt X blob key ctx aad = .ok plaintext ↔ ∃ (nonce : Nonce) (ct : Bytes),
        X.encryptRaw key nonce (ctx.bindAad aad) plaintext = some ct ∧
        blob = 0x01 :: (nonce.1 ++ ct)) ∧
    ∀ (key : Key) (ctx ctx' : Context) (aad aad' : Bytes),
      X.AadBound key (ctx.bindAad aad) (ctx'.bindAad aad') →
      ∀ (nonce : Draw 12) (plaintext blob : Bytes),
        encrypt X nonce plaintext key ctx' aad' = .ok blob →
        (decrypt X blob key ctx aad).isOk = true → ctx = ctx' ∧ aad = aad' := by
  have opens : ∀ (blob plaintext : Bytes) (key : Key) (ctx : Context) (aad : Bytes),
      decrypt X blob key ctx aad = .ok plaintext ↔ ∃ (nonce : Nonce) (ct : Bytes),
        X.encryptRaw key nonce (ctx.bindAad aad) plaintext = some ct ∧
        blob = 0x01 :: (nonce.1 ++ ct) := by
    intro blob plaintext key ctx aad
    rw [decrypt_eq_ok]
    constructor
    · rintro ⟨nonce, ct, -, framed, decrypted⟩
      exact ⟨nonce, ct, exact.decrypts.mp decrypted, framed⟩
    · rintro ⟨nonce, ct, encrypted, framed⟩
      have length := exact.length_encrypt encrypted
      exact ⟨nonce, ct, by omega, framed, exact.decrypts.mpr encrypted⟩
  refine ⟨fun ctx ctx' aad aad' => Context.bindAad_inj, opens, ?_⟩
  intro key ctx ctx' aad aad' bound nonce plaintext blob sealed opened
  obtain ⟨drawn, -, framed⟩ := bind_eq_ok sealed
  obtain ⟨ct, encrypted, rfl⟩ := encryptFramed_eq_ok framed
  cases decrypted : decrypt X (aeadBlobVersion :: (drawn.1 ++ ct)) key ctx aad with
  | error error =>
    rw [decrypted] at opened
    cases opened
  | ok other =>
    obtain ⟨nonce', ct', encrypted', same⟩ := (opens _ _ _ _ _).mp decrypted
    -- the nonce is read off the blob, so both encryptions gave the same ciphertext
    obtain ⟨nonces, cts⟩ := List.append_inj (List.cons.inj same).2 (by rw [drawn.2, nonce'.2])
    rw [← cts, ← Subtype.ext nonces] at encrypted'
    exact Context.bindAad_inj (bound _ _ _ _ encrypted' encrypted)

def aadSuite : Suite :=
  { sampleSuite with
    encryptRaw := fun _ _ aad plaintext => some (plaintext ++ (fit 16 aad).1)
    decryptRaw := fun _ _ aad ciphertext =>
      if ciphertext.drop (ciphertext.length - 16) = (fit 16 aad).1 then
        some (ciphertext.take (ciphertext.length - 16))
      else none }

theorem aadSuite_exact : aadSuite.AeadExact where
  decrypts := by
    intro key nonce aad ciphertext plaintext
    simp only [aadSuite, Option.some.injEq]
    constructor
    · intro decrypted
      split at decrypted
      · rename_i tagged
        cases decrypted
        rw [← tagged, List.take_append_drop]
      · cases decrypted
    · rintro rfl
      have body : (plaintext ++ (fit 16 aad).1).length - 16 = plaintext.length := by
        rw [List.length_append, (fit 16 aad).2, Nat.add_sub_cancel]
      rw [body, List.drop_left, List.take_left, if_pos rfl]
  length_encrypt := by
    rintro key nonce aad plaintext ciphertext ⟨⟩
    rw [List.length_append, (fit 16 aad).2]

def rootA : Context := ⟨ascii "a", by decide, by decide⟩
def rootB : Context := ⟨ascii "b", by decide, by decide⟩

theorem aadSuite_bound (key : Key) :
    aadSuite.AadBound key (rootA.bindAad []) (rootB.bindAad []) := by
  rintro nonce plaintext plaintext' ciphertext ⟨⟩ encrypted
  have tags := (List.append_inj' (Option.some.inj encrypted) (by rw [(fit 16 _).2, (fit 16 _).2])).2
  exact absurd tags (by decide)

theorem blobs_canonical_sample :
    (encrypt aadSuite (.ok (fit 12 [])) [1, 2] (fit 32 []) rootB []).isOk = true ∧
    ∀ blob, encrypt aadSuite (.ok (fit 12 [])) [1, 2] (fit 32 []) rootB [] = .ok blob →
      (decrypt aadSuite blob (fit 32 []) rootA []).isOk = false := by
  refine ⟨rfl, ?_⟩
  intro blob sealed
  apply Bool.eq_false_iff.mpr
  intro opened
  have same := (blobs_canonical aadSuite_exact).2.2 _ rootA rootB [] [] (aadSuite_bound _) _ _ _
    sealed opened
  exact absurd (congrArg Context.text same.1) (by decide)

end Lithium.Crypto
