import Lithium.Keys.Record

/-! The record codec is exact: a parser position and the bytes left at it
determine each other, so parsing inverts building and building inverts parsing. -/
namespace Lithium.Keys

/-- The parser stands at `idx` with `rest` still to read. -/
def At (buf : Bytes) (idx : Nat) (rest : Bytes) : Prop :=
  idx ≤ buf.length ∧ buf.drop idx = rest

theorem At.length {buf rest : Bytes} {idx : Nat} (here : At buf idx rest) :
    buf.length = idx + rest.length := by
  have := congrArg List.length here.2
  have := here.1
  simp only [List.length_drop] at *
  omega

theorem At.advance {buf rest more : Bytes} {idx : Nat} (here : At buf idx (rest ++ more)) :
    At buf (idx + rest.length) more := by
  have total := here.length
  simp only [List.length_append] at total
  refine ⟨by omega, ?_⟩
  rw [← List.drop_drop, here.2, List.drop_left]

theorem take_at {buf more : Bytes} {idx len : Nat} (field : Fixed len)
    (here : At buf idx (field.1 ++ more)) (bound : idx + len < usizeLimit) :
    take buf idx len = .ok (field, idx + len) ∧ At buf (idx + len) more := by
  have total := here.length
  have size := field.2
  simp only [List.length_append] at total
  have next := here.advance
  rw [size] at next
  refine ⟨?_, next⟩
  have fits : idx + len ≤ buf.length := by omega
  have same : (buf.drop idx).take len = field.1 := by
    rw [here.2]
    exact List.take_left' size
  simp only [take, if_pos bound, dif_pos fits, same]

theorem take_ok {buf : Bytes} {idx len idx' : Nat} {field : Fixed len}
    (taken : take buf idx len = .ok (field, idx')) :
    idx' = idx + len ∧ idx + len ≤ buf.length ∧ At buf idx (field.1 ++ buf.drop idx') := by
  unfold take at taken
  split at taken
  · split at taken
    · next fits =>
      cases taken
      refine ⟨rfl, fits, by omega, ?_⟩
      rw [← List.drop_drop, List.take_append_drop]
    · cases taken
  · cases taken

theorem bytes_two (b : Fixed 2) : b.1 = [b.get 0, b.get 1] := by
  obtain ⟨bytes, size⟩ := b
  match bytes, size with
  | [x, y], _ => rfl

theorem bytes_four (b : Fixed 4) : b.1 = [b.get 0, b.get 1, b.get 2, b.get 3] := by
  obtain ⟨bytes, size⟩ := b
  match bytes, size with
  | [x, y, z, t], _ => rfl

theorem u16be_join (high low : UInt8) : u16be (high.toNat * 256 + low.toNat) = [high, low] := by
  have := high.toNat_lt
  have := low.toNat_lt
  simp only [u16be, List.cons.injEq, ← UInt8.toNat_inj, Nat.toUInt8_eq, UInt8.toNat_ofNat',
    and_true]
  omega

theorem u32be_join (a b c d : UInt8) :
    u32be (((a.toNat * 256 + b.toNat) * 256 + c.toNat) * 256 + d.toNat) = [a, b, c, d] := by
  have := a.toNat_lt
  have := b.toNat_lt
  have := c.toNat_lt
  have := d.toNat_lt
  simp only [u32be, List.cons.injEq, ← UInt8.toNat_inj, Nat.toUInt8_eq, UInt8.toNat_ofNat',
    and_true]
  omega

theorem join_u16be {n : Nat} (bound : n < 65536) :
    (n / 256).toUInt8.toNat * 256 + n.toUInt8.toNat = n := by
  simp only [Nat.toUInt8_eq, UInt8.toNat_ofNat']
  omega

theorem join_u32be {n : Nat} (bound : n < 4294967296) :
    (((n / 16777216).toUInt8.toNat * 256 + (n / 65536).toUInt8.toNat) * 256 +
      (n / 256).toUInt8.toNat) * 256 + n.toUInt8.toNat = n := by
  simp only [Nat.toUInt8_eq, UInt8.toNat_ofNat']
  omega

theorem readU16_at {buf more : Bytes} {idx n : Nat} (here : At buf idx (u16be n ++ more))
    (small : n < 65536) (bound : idx + 2 < usizeLimit) :
    readU16 buf idx = .ok (UInt16.ofNat n, idx + 2) ∧ At buf (idx + 2) more := by
  obtain ⟨taken, next⟩ := take_at (⟨u16be n, rfl⟩ : Fixed 2) here bound
  refine ⟨?_, next⟩
  rw [readU16, taken]
  exact congrArg (fun m => Except.ok (UInt16.ofNat m, idx + 2)) (join_u16be small)

theorem readU32_at {buf more : Bytes} {idx n : Nat} (here : At buf idx (u32be n ++ more))
    (small : n < 4294967296) (bound : idx + 4 < usizeLimit) :
    readU32 buf idx = .ok (UInt32.ofNat n, idx + 4) ∧ At buf (idx + 4) more := by
  obtain ⟨taken, next⟩ := take_at (⟨u32be n, rfl⟩ : Fixed 4) here bound
  refine ⟨?_, next⟩
  rw [readU32, taken]
  exact congrArg (fun m => Except.ok (UInt32.ofNat m, idx + 4)) (join_u32be small)

theorem readField_at {buf more : Bytes} {idx len : Nat} (field : Fixed len)
    (here : At buf idx (u16be len ++ (field.1 ++ more))) (small : len < 65536)
    (bound : idx + 2 + len < usizeLimit) :
    readField buf idx len = .ok (field, idx + 2 + len) ∧ At buf (idx + 2 + len) more := by
  obtain ⟨read, next⟩ := readU16_at here small (by omega)
  obtain ⟨taken, last⟩ := take_at field next bound
  refine ⟨?_, last⟩
  have declared : (UInt16.ofNat len).toNat = len := UInt16.toNat_ofNat_of_lt' small
  simp [readField, read, bind, Except.bind, declared, taken]

theorem buildRecord_eq (r : Record) : buildRecord r =
    keyfileMagic ++ ([r.version, r.algId] ++ (u16be r.dekLen.toNat ++
      (u16be 32 ++ (r.salt.1 ++ (u16be 12 ++ (r.nonceWrap.1 ++
      (u16be r.ctWrap.length ++ (r.ctWrap ++ (u16be 12 ++ (r.noncePayload.1 ++
      (u32be r.ctPayload.length ++ r.ctPayload))))))))))) := by
  simp only [buildRecord, r.salt.2, r.nonceWrap.2, r.noncePayload.2, List.append_assoc,
    List.cons_append, List.nil_append]

theorem buildRecord_length (r : Record) :
    (buildRecord r).length = 76 + r.ctWrap.length + r.ctPayload.length := by
  have := r.salt.2
  have := r.nonceWrap.2
  have := r.noncePayload.2
  simp only [buildRecord_eq, keyfileMagic, u16be, u32be, List.length_append, List.length_cons,
    List.length_nil]
  omega

theorem parseKeyfile_build {r : Record} (wrap : r.ctWrap.length = ctWrapLen)
    (small : r.ctPayload.length < 4294967296) : parseKeyfile (buildRecord r) = .ok r := by
  have total := buildRecord_length r
  have start : At (buildRecord r) 0 _ := ⟨Nat.zero_le _, buildRecord_eq r⟩
  have limit : usizeLimit = 18446744073709551616 := rfl
  have wrapLen : ctWrapLen = 48 := rfl
  have magic : (buildRecord r).take 4 = keyfileMagic := by
    rw [buildRecord_eq]
    rfl
  have version (h) : (buildRecord r).get ⟨4, h⟩ = r.version := by simp [buildRecord_eq, keyfileMagic]
  have algId (h) : (buildRecord r).get ⟨5, h⟩ = r.algId := by simp [buildRecord_eq, keyfileMagic]
  generalize buildRecord r = buf at *
  have header : At buf 6 _ := start.advance.advance
  obtain ⟨readDek, at8⟩ := readU16_at header (UInt16.toNat_lt _) (by omega)
  obtain ⟨readSalt, at42⟩ := readField_at r.salt at8 (by omega) (by omega)
  obtain ⟨readNonceWrap, at56⟩ := readField_at r.nonceWrap at42 (by omega) (by omega)
  rw [wrap] at at56
  obtain ⟨readCtWrap, at106⟩ := readField_at ⟨r.ctWrap, wrap⟩ at56 (by omega) (by omega)
  obtain ⟨readNoncePayload, at120⟩ := readField_at r.noncePayload at106 (by omega) (by omega)
  obtain ⟨readLen, at124⟩ := readU32_at at120 small (by omega)
  have lenEq : (UInt32.ofNat r.ctPayload.length).toNat = r.ctPayload.length :=
    UInt32.toNat_ofNat_of_lt' small
  rw [← List.append_nil r.ctPayload] at at124
  obtain ⟨readCtPayload, ended⟩ := take_at
    (⟨r.ctPayload, lenEq.symm⟩ : Fixed (UInt32.ofNat r.ctPayload.length).toNat) at124 (by omega)
  have done := ended.length
  simp only [List.length_nil, Nat.add_zero] at done
  unfold parseKeyfile
  rw [dif_neg (by omega), if_neg (by simpa using magic)]
  simp only [readDek, readSalt, readNonceWrap, readCtWrap, readNoncePayload, readLen,
    readCtPayload, bind, Except.bind, version, algId, UInt16.ofNat_toNat]
  rw [if_neg (by simpa using done.symm)]
  rfl

theorem readU16_ok {buf : Bytes} {idx idx' : Nat} {n : UInt16}
    (read : readU16 buf idx = .ok (n, idx')) :
    idx' = idx + 2 ∧ At buf idx (u16be n.toNat ++ buf.drop idx') := by
  cases taken : take buf idx 2 with
  | error e => simp [readU16, taken, bind, Except.bind] at read
  | ok pair =>
    obtain ⟨b, next⟩ := pair
    simp only [readU16, taken, bind, Except.bind, pure, Except.pure, Except.ok.injEq,
      Prod.mk.injEq] at read
    obtain ⟨rfl, rfl⟩ := read
    obtain ⟨moved, _, here⟩ := take_ok taken
    refine ⟨moved, ?_⟩
    have := (b.get 0).toNat_lt
    have := (b.get 1).toNat_lt
    rw [UInt16.toNat_ofNat_of_lt' (by simp only [UInt16.size]; omega), u16be_join, ← bytes_two]
    exact here

theorem readU32_ok {buf : Bytes} {idx idx' : Nat} {n : UInt32}
    (read : readU32 buf idx = .ok (n, idx')) :
    idx' = idx + 4 ∧ At buf idx (u32be n.toNat ++ buf.drop idx') := by
  cases taken : take buf idx 4 with
  | error e => simp [readU32, taken, bind, Except.bind] at read
  | ok pair =>
    obtain ⟨b, next⟩ := pair
    simp only [readU32, taken, bind, Except.bind, pure, Except.pure, Except.ok.injEq,
      Prod.mk.injEq] at read
    obtain ⟨rfl, rfl⟩ := read
    obtain ⟨moved, _, here⟩ := take_ok taken
    refine ⟨moved, ?_⟩
    have := (b.get 0).toNat_lt
    have := (b.get 1).toNat_lt
    have := (b.get 2).toNat_lt
    have := (b.get 3).toNat_lt
    rw [UInt32.toNat_ofNat_of_lt' (by simp only [UInt32.size]; omega), u32be_join, ← bytes_four]
    exact here

theorem readField_ok {buf : Bytes} {idx len idx' : Nat} {field : Fixed len}
    (read : readField buf idx len = .ok (field, idx')) :
    idx' = idx + 2 + len ∧ At buf idx (u16be len ++ (field.1 ++ buf.drop idx')) := by
  cases prefixed : readU16 buf idx with
  | error e => simp [readField, prefixed, bind, Except.bind] at read
  | ok pair =>
    obtain ⟨declared, next⟩ := pair
    simp only [readField, prefixed, bind, Except.bind] at read
    split at read
    · simp [throw, throwThe, MonadExceptOf.throw] at read
    · next same =>
      simp only [ne_eq, not_not] at same
      obtain ⟨moved, here⟩ := readU16_ok prefixed
      obtain ⟨moved', _, inside⟩ := take_ok read
      subst moved moved'
      refine ⟨rfl, here.1, ?_⟩
      rw [here.2, same, inside.2]

theorem bind_ok {ε α β : Type} {first : Except ε α} {rest : α → Except ε β} {result : β}
    (succeeded : first >>= rest = .ok result) :
    ∃ value, first = .ok value ∧ rest value = .ok result := by
  cases first with
  | error e => cases succeeded
  | ok value => exact ⟨value, rfl, succeeded⟩

theorem header_of_magic {buf : Bytes} (long : 8 ≤ buf.length)
    (magic : buf.take 4 = keyfileMagic) :
    buf = keyfileMagic ++ ([buf.get ⟨4, by omega⟩, buf.get ⟨5, by omega⟩] ++ buf.drop 6) := by
  match buf, long with
  | b0 :: b1 :: b2 :: b3 :: b4 :: b5 :: rest, _ =>
    rw [← magic]
    rfl

/-- Parsing accepts only what building produces, with the wrap of its fixed length. -/
theorem parseKeyfile_ok {buf : Bytes} {r : Record} (parsed : parseKeyfile buf = .ok r) :
    buildRecord r = buf ∧ r.ctWrap.length = ctWrapLen ∧ r.ctPayload.length < 4294967296 := by
  unfold parseKeyfile at parsed
  split at parsed
  · cases parsed
  · next long =>
    split at parsed
    · cases parsed
    · next magic =>
      simp only [ne_eq, not_not] at magic
      obtain ⟨⟨dek, i₁⟩, readDek, parsed⟩ := bind_ok parsed
      obtain ⟨⟨salt, i₂⟩, readSalt, parsed⟩ := bind_ok parsed
      obtain ⟨⟨nonceWrap, i₃⟩, readNonceWrap, parsed⟩ := bind_ok parsed
      obtain ⟨⟨ctWrap, i₄⟩, readCtWrap, parsed⟩ := bind_ok parsed
      obtain ⟨⟨noncePayload, i₅⟩, readNoncePayload, parsed⟩ := bind_ok parsed
      obtain ⟨⟨len, i₆⟩, readLen, parsed⟩ := bind_ok parsed
      obtain ⟨⟨ctPayload, i₇⟩, readCtPayload, parsed⟩ := bind_ok parsed
      dsimp only at parsed
      split at parsed
      · simp [throw, throwThe, MonadExceptOf.throw, bind, Except.bind] at parsed
      · next ended =>
        simp only [ne_eq, not_not] at ended
        cases parsed
        refine ⟨?_, ctWrap.2, by simpa [ctPayload.2] using len.toNat_lt⟩
        conv_rhs => rw [header_of_magic (by omega) magic]
        rw [buildRecord_eq, (readU16_ok readDek).2.2, (readField_ok readSalt).2.2,
          (readField_ok readNonceWrap).2.2, (readField_ok readCtWrap).2.2,
          (readField_ok readNoncePayload).2.2, (readU32_ok readLen).2.2,
          (take_ok readCtPayload).2.2.2]
        simp only [ctWrap.2, ctPayload.2, ended, List.drop_length, List.append_nil]

section
variable {X : Crypto} {mk mk' newMk : Key} {keyType : String} {payload bytes buf out : Bytes}

theorem unwrapRecord_ok_iff {r : Record} {dek : Key} :
    unwrapRecord X buf mk keyType = .ok (r, dek) ↔
      parseKeyfile buf = .ok r ∧ checkHeader r = .ok () ∧
        unwrapDek X mk r.salt r.nonceWrap r.ctWrap (aadFor r.version keyType) = .ok dek := by
  constructor
  · intro opened
    obtain ⟨r, parsed, opened⟩ := bind_ok opened
    obtain ⟨_, header, opened⟩ := bind_ok opened
    obtain ⟨dek, unwrapped, opened⟩ := bind_ok opened
    cases opened
    exact ⟨parsed, header, unwrapped⟩
  · rintro ⟨parsed, header, unwrapped⟩
    simp only [unwrapRecord, parsed, header, unwrapped, bind, Except.bind, pure, Except.pure]

theorem openRecord_ok_iff : openRecord X buf mk keyType = .ok payload ↔
    ∃ r dek, unwrapRecord X buf mk keyType = .ok (r, dek) ∧
      decryptPayloadBytes X dek r.noncePayload r.ctPayload (aadFor r.version keyType) =
        .ok payload := by
  constructor
  · intro opened
    obtain ⟨⟨r, dek⟩, unwrapped, opened⟩ := bind_ok opened
    exact ⟨r, dek, unwrapped, opened⟩
  · rintro ⟨r, dek, unwrapped, opened⟩
    simp only [openRecord, unwrapped, opened, bind, Except.bind]

theorem unwrapDek_ok_iff {salt : Fixed 32} {nonce : Nonce} {wrapped aad : Bytes} {dek : Key} :
    unwrapDek X mk salt nonce wrapped aad = .ok dek ↔
      X.decryptRaw (deriveKek X mk salt) nonce aad wrapped = some dek.1 := by
  unfold unwrapDek
  cases X.decryptRaw (deriveKek X mk salt) nonce aad wrapped with
  | none => simp
  | some plain =>
    simp only [Fixed.fromSlice, Option.some.injEq]
    split
    · simp [Subtype.ext_iff]
    · next long =>
      simp only [reduceCtorEq, false_iff]
      rintro rfl
      exact long dek.2

theorem sealRecord_ok {draws : SealDraws}
    (sealed : sealRecord X mk payload keyType draws = .ok bytes) :
    ∃ ctWrap ctPayload,
      X.encryptRaw (deriveKek X mk draws.salt) draws.nonceWrap (aadFor keyfileVersion keyType)
        draws.dek.1 = some ctWrap ∧
      X.encryptRaw draws.dek draws.noncePayload (aadFor keyfileVersion keyType) payload =
        some ctPayload ∧
      bytes = buildRecord ⟨keyfileVersion, algIdAes256GcmSiv, dekLen, draws.salt, draws.nonceWrap,
        ctWrap, draws.noncePayload, ctPayload⟩ := by
  unfold sealRecord at sealed
  dsimp only at sealed
  split at sealed
  · next ctWrap ctPayload wrapped encrypted =>
    cases sealed
    exact ⟨ctWrap, ctPayload, wrapped, encrypted, rfl⟩
  · cases sealed

theorem sealRecord_length (lawful : X.Lawful) {draws : SealDraws}
    (sealed : sealRecord X mk payload keyType draws = .ok bytes) :
    bytes.length = payload.length + 140 := by
  obtain ⟨ctWrap, ctPayload, wrapped, encrypted, rfl⟩ := sealRecord_ok sealed
  rw [buildRecord_length, lawful.length_encrypt wrapped, lawful.length_encrypt encrypted,
    draws.dek.2]
  omega

theorem openRecord_seal (lawful : X.Lawful) {draws : SealDraws}
    (sealed : sealRecord X mk payload keyType draws = .ok bytes)
    (fits : payload.length + 16 < 4294967296) : openRecord X bytes mk keyType = .ok payload := by
  obtain ⟨ctWrap, ctPayload, wrapped, encrypted, rfl⟩ := sealRecord_ok sealed
  refine openRecord_ok_iff.mpr ⟨_, draws.dek, unwrapRecord_ok_iff.mpr ⟨parseKeyfile_build ?_ ?_,
    rfl, unwrapDek_ok_iff.mpr (lawful.decrypt_encrypt wrapped)⟩, ?_⟩
  · rw [lawful.length_encrypt wrapped, draws.dek.2]
    rfl
  · simpa only [lawful.length_encrypt encrypted] using fits
  · simp only [decryptPayloadBytes, lawful.decrypt_encrypt encrypted]

theorem sealRecord_within (lawful : X.Lawful) (draws : SealDraws)
    (aad : (aadFor keyfileVersion keyType).length ≤ Crypto.limit)
    (fits : payload.length ≤ Crypto.limit) :
    ∃ bytes, sealRecord X mk payload keyType draws = .ok bytes := by
  have short : draws.dek.1.length ≤ Crypto.limit := by
    rw [draws.dek.2]
    decide
  obtain ⟨ctWrap, wrapped⟩ := Option.isSome_iff_exists.mp
    (lawful.encrypt_within (deriveKek X mk draws.salt) draws.nonceWrap aad short)
  obtain ⟨ctPayload, encrypted⟩ := Option.isSome_iff_exists.mp
    (lawful.encrypt_within draws.dek draws.noncePayload aad fits)
  simp only [sealRecord, wrapped, encrypted]
  exact ⟨_, rfl⟩

theorem openRecord_seal_apart {keys : Key → Prop} (separated : Separated X keys) (lawful : X.Lawful)
    (here : keys mk) (there : keys mk') (apart : mk ≠ mk') {draws : SealDraws}
    (sealed : sealRecord X mk payload keyType draws = .ok bytes)
    (fits : payload.length + 16 < 4294967296) : openRecord X bytes mk' keyType ≠ .ok out := by
  obtain ⟨ctWrap, ctPayload, wrapped, encrypted, rfl⟩ := sealRecord_ok sealed
  intro opened
  obtain ⟨r, dek, unwrapped, _⟩ := openRecord_ok_iff.mp opened
  obtain ⟨parsed, _, unwrapped⟩ := unwrapRecord_ok_iff.mp unwrapped
  rw [parseKeyfile_build (by rw [lawful.length_encrypt wrapped, draws.dek.2]; rfl)
    (by simpa only [lawful.length_encrypt encrypted] using fits)] at parsed
  cases parsed
  rw [unwrapDek_ok_iff, separated mk mk' here there apart _ _ _ _ _ wrapped] at unwrapped
  cases unwrapped

theorem rewrapRecord_ok {saltNew : Fixed 32} {nonceWrapNew : Nonce}
    (rewrapped : rewrapRecord X buf mk newMk keyType saltNew nonceWrapNew = .ok out) :
    ∃ r dek ctWrapNew, unwrapRecord X buf mk keyType = .ok (r, dek) ∧
      X.encryptRaw (deriveKek X newMk saltNew) nonceWrapNew (aadFor r.version keyType) dek.1 =
        some ctWrapNew ∧
      out = buildRecord { r with salt := saltNew, nonceWrap := nonceWrapNew, ctWrap := ctWrapNew } := by
  obtain ⟨⟨r, dek⟩, unwrapped, rewrapped⟩ := bind_ok rewrapped
  dsimp only at rewrapped
  split at rewrapped
  · cases rewrapped
  · next ctWrapNew wrapped =>
    cases rewrapped
    exact ⟨r, dek, ctWrapNew, unwrapped, wrapped, rfl⟩

/-- Rewrapping keeps the payload and the size and moves the record to the new key. -/
theorem openRecord_rewrap (lawful : X.Lawful) {saltNew : Fixed 32} {nonceWrapNew : Nonce}
    (opened : openRecord X buf mk keyType = .ok payload)
    (rewrapped : rewrapRecord X buf mk newMk keyType saltNew nonceWrapNew = .ok out) :
    openRecord X out newMk keyType = .ok payload ∧ out.length = buf.length := by
  obtain ⟨r, dek, ctWrapNew, unwrapped, wrapped, rfl⟩ := rewrapRecord_ok rewrapped
  obtain ⟨r', dek', unwrapped', decrypted⟩ := openRecord_ok_iff.mp opened
  cases unwrapped.symm.trans unwrapped'
  obtain ⟨parsed, header, _⟩ := unwrapRecord_ok_iff.mp unwrapped
  obtain ⟨rfl, wrapLen, small⟩ := parseKeyfile_ok parsed
  have newLen : ctWrapNew.length = ctWrapLen := by
    rw [lawful.length_encrypt wrapped, dek.2]
    rfl
  refine ⟨openRecord_ok_iff.mpr ⟨_, dek, unwrapRecord_ok_iff.mpr ⟨parseKeyfile_build newLen small,
    header, unwrapDek_ok_iff.mpr (lawful.decrypt_encrypt wrapped)⟩, decrypted⟩, ?_⟩
  rw [buildRecord_length, buildRecord_length, newLen, wrapLen]

theorem rewrapRecord_within (lawful : X.Lawful) (saltNew : Fixed 32) (nonceWrapNew : Nonce)
    (opened : openRecord X buf mk keyType = .ok payload) :
    ∃ out, rewrapRecord X buf mk newMk keyType saltNew nonceWrapNew = .ok out := by
  obtain ⟨r, dek, unwrapped, decrypted⟩ := openRecord_ok_iff.mp opened
  have short : dek.1.length ≤ Crypto.limit := by
    rw [dek.2]
    decide
  have aad := lawful.decrypt_within (unwrapDek_ok_iff.mp (unwrapRecord_ok_iff.mp unwrapped).2.2)
  obtain ⟨ctWrapNew, wrapped⟩ := Option.isSome_iff_exists.mp
    (lawful.encrypt_within (deriveKek X newMk saltNew) nonceWrapNew aad short)
  simp only [rewrapRecord, unwrapped, wrapped, bind, Except.bind]
  exact ⟨_, rfl⟩

end

end Lithium.Keys
