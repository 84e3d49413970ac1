import Lithium.Keys.RecordProofs

/-! The record codec as a bijection, and the parser with its raw indexing. In the parser
below, an index or a slice out of bounds is a panic; it never panics, and what it returns
is what `parseKeyfile` returns. -/
namespace Lithium.Keys

/-- A computation that returns a value or an error, or panics (`none`). -/
abbrev Panicking := ExceptT LithiumError Option

/-- `buf[i]`. -/
def indexAt (buf : Bytes) (i : Nat) : Panicking UInt8 := ExceptT.mk (buf[i]?.map .ok)

/-- `&buf[from..to]`. -/
def sliceAt (buf : Bytes) (first last : Nat) : Panicking Bytes :=
  ExceptT.mk <|
    if first ≤ last ∧ last ≤ buf.length then some (.ok ((buf.drop first).take (last - first)))
    else none

/-- `copy_from_slice` into an array of `n` bytes. -/
def copyFromSlice (n : Nat) (source : Bytes) : Panicking (Fixed n) :=
  ExceptT.mk (if fits : source.length = n then some (.ok ⟨source, fits⟩) else none)

def takeSlice (buf : Bytes) (idx len : Nat) : Panicking (Bytes × Nat) :=
  if idx + len < usizeLimit then
    if idx + len ≤ buf.length then return ((buf.drop idx).take len, idx + len)
    else throw .malformedKeyfile
  else throw .malformedKeyfile

def indexU16 (buf : Bytes) (idx : Nat) : Panicking (UInt16 × Nat) := do
  let (b, idx) ← takeSlice buf idx 2
  return (UInt16.ofNat ((← indexAt b 0).toNat * 256 + (← indexAt b 1).toNat), idx)

def indexU32 (buf : Bytes) (idx : Nat) : Panicking (UInt32 × Nat) := do
  let (b, idx) ← takeSlice buf idx 4
  return (UInt32.ofNat ((((← indexAt b 0).toNat * 256 + (← indexAt b 1).toNat) * 256 +
    (← indexAt b 2).toNat) * 256 + (← indexAt b 3).toNat), idx)

/-- A length-prefixed field that is copied into an array. -/
def copyField (buf : Bytes) (idx len : Nat) : Panicking (Fixed len × Nat) := do
  let (declared, idx) ← indexU16 buf idx
  if declared.toNat ≠ len then throw .malformedKeyfile
  let (slice, idx) ← takeSlice buf idx len
  return (← copyFromSlice len slice, idx)

/-- A length-prefixed field that is kept as a slice. -/
def sliceField (buf : Bytes) (idx len : Nat) : Panicking (Bytes × Nat) := do
  let (declared, idx) ← indexU16 buf idx
  if declared.toNat ≠ len then throw .malformedKeyfile
  takeSlice buf idx declared.toNat

/-- `parse_keyfile` with its raw indexing. -/
def parseIndexing (buf : Bytes) : Panicking Record := do
  if buf.length < 8 then throw (.invalidLength 8 buf.length)
  if (← sliceAt buf 0 4) ≠ keyfileMagic then throw .malformedKeyfile
  let version ← indexAt buf 4
  let algId ← indexAt buf 5
  let (dekLen, idx) ← indexU16 buf 6
  let (salt, idx) ← copyField buf idx 32
  let (nonceWrap, idx) ← copyField buf idx 12
  let (ctWrap, idx) ← sliceField buf idx ctWrapLen
  let (noncePayload, idx) ← copyField buf idx 12
  let (lenCtPayload, idx) ← indexU32 buf idx
  let (ctPayload, idx) ← takeSlice buf idx lenCtPayload.toNat
  if idx ≠ buf.length then throw .malformedKeyfile
  return ⟨version, algId, dekLen, salt, nonceWrap, ctWrap, noncePayload, ctPayload⟩

section
variable {α α' β : Type}

/-- The computation does not panic, and what it returns is seen in the other one through
`view`. -/
def NoPanic (view : α' → α) (run : Panicking α) (total : Except LithiumError α') : Prop :=
  run.run = some (total.map view)

theorem NoPanic.bind {view : α' → α} {first : Panicking α} {total : Except LithiumError α'}
    (returns : NoPanic view first total) {β' : Type} {view' : β' → β} {next : α → Panicking β}
    {next' : α' → Except LithiumError β'}
    (steps : ∀ value, total = .ok value → NoPanic view' (next (view value)) (next' value)) :
    NoPanic view' (first >>= next) (total >>= next') := by
  rw [NoPanic, ExceptT.run_bind, returns]
  cases total with
  | error error => rfl
  | ok value => exact steps value rfl

end

theorem takeSlice_returns (buf : Bytes) (idx len : Nat) :
    NoPanic (fun taken : Fixed len × Nat => (taken.1.1, taken.2)) (takeSlice buf idx len)
      (take buf idx len) := by
  rw [takeSlice, take]
  split
  · split <;> rfl
  · rfl

theorem indexAt_fixed {n : Nat} (bytes : Fixed n) (i : Fin n) :
    indexAt bytes.1 i = pure (bytes.get i) := by
  have inside : i.1 < bytes.1.length := bytes.2.symm ▸ i.2
  rw [indexAt, List.getElem?_eq_getElem inside]
  rfl

theorem indexU16_returns (buf : Bytes) (idx : Nat) :
    NoPanic id (indexU16 buf idx) (readU16 buf idx) := by
  apply (takeSlice_returns buf idx 2).bind
  rintro ⟨b, idx⟩ -
  have at0 : indexAt b.1 0 = pure (b.get 0) := indexAt_fixed b 0
  have at1 : indexAt b.1 1 = pure (b.get 1) := indexAt_fixed b 1
  simp only [at0, at1, pure_bind]
  rfl

theorem indexU32_returns (buf : Bytes) (idx : Nat) :
    NoPanic id (indexU32 buf idx) (readU32 buf idx) := by
  apply (takeSlice_returns buf idx 4).bind
  rintro ⟨b, idx⟩ -
  have at0 : indexAt b.1 0 = pure (b.get 0) := indexAt_fixed b 0
  have at1 : indexAt b.1 1 = pure (b.get 1) := indexAt_fixed b 1
  have at2 : indexAt b.1 2 = pure (b.get 2) := indexAt_fixed b 2
  have at3 : indexAt b.1 3 = pure (b.get 3) := indexAt_fixed b 3
  simp only [at0, at1, at2, at3, pure_bind]
  rfl

theorem copyField_returns (buf : Bytes) (idx len : Nat) :
    NoPanic id (copyField buf idx len) (readField buf idx len) := by
  apply (indexU16_returns buf idx).bind
  rintro ⟨declared, idx⟩ -
  dsimp only [id]
  split
  · rfl
  · show NoPanic id (takeSlice buf idx len >>= fun taken => do
        return (← copyFromSlice len taken.1, taken.2)) (take buf idx len)
    rw [← bind_pure (take buf idx len)]
    apply (takeSlice_returns buf idx len).bind
    rintro ⟨field, idx⟩ -
    rw [copyFromSlice, dif_pos field.2]
    rfl

theorem sliceField_returns (buf : Bytes) (idx len : Nat) :
    NoPanic (fun taken : Fixed len × Nat => (taken.1.1, taken.2)) (sliceField buf idx len)
      (readField buf idx len) := by
  apply (indexU16_returns buf idx).bind
  rintro ⟨declared, idx⟩ -
  dsimp only [id]
  split
  · rfl
  next same =>
    have declared_eq : declared.toNat = len := not_not.mp same
    rw [declared_eq]
    exact takeSlice_returns buf idx len

/-- The parser with its raw indexing never panics, and returns what `parseKeyfile` does. -/
theorem parseIndexing_returns (buf : Bytes) : (parseIndexing buf).run = some (parseKeyfile buf) := by
  have returns : NoPanic id (parseIndexing buf) (parseKeyfile buf) := by
    rw [parseIndexing, parseKeyfile]
    split
    · rfl
    next long =>
      have magic : sliceAt buf 0 4 = pure (buf.take 4) := by
        rw [sliceAt, if_pos ⟨Nat.zero_le 4, by omega⟩]
        rfl
      have version : indexAt buf 4 = pure (buf.get ⟨4, by omega⟩) := by
        rw [indexAt, List.getElem?_eq_getElem (by omega)]
        rfl
      have algId : indexAt buf 5 = pure (buf.get ⟨5, by omega⟩) := by
        rw [indexAt, List.getElem?_eq_getElem (by omega)]
        rfl
      simp only [magic, version, algId, pure_bind]
      split
      · rfl
      · apply (indexU16_returns buf 6).bind
        rintro ⟨dekLen, idx⟩ -
        apply (copyField_returns buf idx 32).bind
        rintro ⟨salt, idx⟩ -
        apply (copyField_returns buf idx 12).bind
        rintro ⟨nonceWrap, idx⟩ -
        apply (sliceField_returns buf idx ctWrapLen).bind
        rintro ⟨ctWrap, idx⟩ -
        apply (copyField_returns buf idx 12).bind
        rintro ⟨noncePayload, idx⟩ -
        apply (indexU32_returns buf idx).bind
        rintro ⟨lenCtPayload, idx⟩ -
        apply (takeSlice_returns buf idx _).bind
        rintro ⟨ctPayload, idx⟩ -
        dsimp only
        split <;> rfl
  rw [returns]
  cases parseKeyfile buf <;> rfl

theorem u32be_inj {n n' : Nat} (small : n < 4294967296) (small' : n' < 4294967296)
    (same : u32be n = u32be n') : n = n' := by
  simp only [u32be, List.cons.injEq] at same
  obtain ⟨a, b, c, d, -⟩ := same
  rw [← join_u32be small, ← join_u32be small', a, b, c, d]

/-- The length of the payload stands at a fixed place, right before it. -/
theorem buildRecord_tail {r : Record} (wrap : r.ctWrap.length = ctWrapLen) :
    ∃ front : Bytes, front.length = 120 ∧
      buildRecord r = front ++ (u32be r.ctPayload.length ++ r.ctPayload) := by
  have salt := r.salt.2
  have nonceWrap := r.nonceWrap.2
  have noncePayload := r.noncePayload.2
  rw [ctWrapLen] at wrap
  rw [buildRecord]
  refine ⟨_, ?_, List.append_assoc _ _ _⟩
  simp only [keyfileMagic, u16be, List.length_append, List.length_cons, List.length_nil]
  omega

/-- No record is a proper prefix of another. -/
theorem buildRecord_prefix {r r' : Record} (wrap : r.ctWrap.length = ctWrapLen)
    (wrap' : r'.ctWrap.length = ctWrapLen) (small : r.ctPayload.length < 4294967296)
    (small' : r'.ctPayload.length < 4294967296) (starts : buildRecord r <+: buildRecord r') :
    buildRecord r = buildRecord r' := by
  obtain ⟨front, long, split⟩ := buildRecord_tail wrap
  obtain ⟨front', long', split'⟩ := buildRecord_tail wrap'
  have ⟨more, whole⟩ := starts
  rw [split, split', List.append_assoc, List.append_assoc] at whole
  obtain ⟨-, rest⟩ := List.append_inj whole (long.trans long'.symm)
  obtain ⟨lengths, -⟩ := List.append_inj rest rfl
  apply starts.eq_of_length
  rw [buildRecord_length, buildRecord_length, wrap, wrap', u32be_inj small small' lengths]

/-- The keyfile codec is a bijection: parsing inverts building, building inverts parsing,
what is accepted encodes exactly one record, nothing accepted is a proper prefix of
something accepted, and the parser stays within bounds on every input. -/
theorem keyfile_codec :
    (∀ r : Record, r.ctWrap.length = ctWrapLen → r.ctPayload.length < 2 ^ 32 →
      parseKeyfile (buildRecord r) = .ok r) ∧
    (∀ buf r, parseKeyfile buf = .ok r → buildRecord r = buf) ∧
    (∀ buf r, parseKeyfile buf = .ok r → ∃! r' : Record, r'.ctWrap.length = ctWrapLen ∧
      r'.ctPayload.length < 2 ^ 32 ∧ buildRecord r' = buf) ∧
    (∀ buf buf' r r', parseKeyfile buf = .ok r → parseKeyfile buf' = .ok r' → buf <+: buf' →
      buf = buf') ∧
    (∀ buf, (parseIndexing buf).run = some (parseKeyfile buf)) := by
  refine ⟨?_, ?_, ?_, ?_, parseIndexing_returns⟩
  · intro r wrap small
    exact parseKeyfile_build wrap small
  · intro buf r parsed
    exact (parseKeyfile_ok parsed).1
  · intro buf r parsed
    obtain ⟨built, wrap, small⟩ := parseKeyfile_ok parsed
    refine ⟨r, ⟨wrap, small, built⟩, ?_⟩
    rintro r' ⟨wrap', small', rfl⟩
    rw [parseKeyfile_build wrap' small'] at parsed
    exact Except.ok.inj parsed
  · intro buf buf' r r' parsed parsed' starts
    obtain ⟨rfl, wrap, small⟩ := parseKeyfile_ok parsed
    obtain ⟨rfl, wrap', small'⟩ := parseKeyfile_ok parsed'
    exact buildRecord_prefix wrap wrap' small small' starts

def pinnedRecord : Record where
  version := keyfileVersion
  algId := algIdAes256GcmSiv
  dekLen := dekLen
  salt := ⟨List.replicate 32 0x33, rfl⟩
  nonceWrap := ⟨List.replicate 12 0x44, rfl⟩
  ctWrap := List.replicate 48 0x55
  noncePayload := ⟨List.replicate 12 0x66, rfl⟩
  ctPayload := List.replicate 40 0x77

theorem keyfile_codec_pinned : parseKeyfile (buildRecord pinnedRecord) = .ok pinnedRecord :=
  keyfile_codec.1 pinnedRecord rfl (by decide)

end Lithium.Keys
