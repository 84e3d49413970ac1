import Lithium.Keys.KeyfileProofs
import Lithium.Keys.RecordProofs

/-! The store a rotation works on: which files are live keyfiles and under which
key type, where their staged copies lie, and the phases a rotation passes
through, told by the view and the provider's key alone. -/
namespace Lithium.Keys
open Effects Storage

/-- The key type a live keyfile is sealed under. The identity seeds have their
own; a file `stem.keyf` in the secrets directory belongs to the label `stem`. -/
def keyTypeOf (path : Path) : Option String :=
  if path = edPriv then some ktEdSeed
  else if path = diliPriv then some ktDiliSeed
  else if hasKeyfExtension path ∧ path.tail = secretsDir then
    some (labelKeyTypeFromHex (fileStem path))
  else none

/-- Where the staged copy of a live keyfile lies. -/
def stagePath (path : Path) : Path :=
  stageTargetPath (path.take (path.length - rootDir.length))

/-- A live keyfile lies two levels below the root, in `priv` or `secrets`. -/
theorem live_shape {path : Path} {keyType : String} (live : keyTypeOf path = some keyType) :
    ∃ stem dir, path = keyf stem :: plain dir :: rootDir ∧ (dir = "priv" ∨ dir = "secrets") := by
  unfold keyTypeOf at live
  split at live
  · next same => exact ⟨_, _, same, .inl rfl⟩
  · split at live
    · next same => exact ⟨_, _, same, .inl rfl⟩
    · split at live
      · next label =>
        obtain ⟨extension, parent⟩ := label
        match path, extension, parent with
        | ⟨stem, .text ext⟩ :: _, extension, rfl =>
          simp only [hasKeyfExtension, decide_eq_true_eq] at extension
          exact ⟨stem, "secrets", by rw [extension]; rfl, .inr rfl⟩
      · cases live

theorem stagePath_shape (name dir : FileName) :
    stagePath (name :: dir :: rootDir) = name :: dir :: stagedDir := rfl

theorem scaffold_plain : ∀ dir ∈ scaffold, dir.head?.map FileName.extension = some .none := by
  decide

/-- The store keeps files with an ordinary extension in its directories. -/
theorem storable_of_text (stem ext : String) {dir : Path} (member : dir ∈ scaffold) :
    Storable (⟨stem, .text ext⟩ :: dir) := by
  refine ⟨?_, member⟩
  have outside : (⟨stem, .text ext⟩ : FileName) :: dir ∉ scaffold := fun inside => by
    simpa using scaffold_plain _ inside
  simp [hidden, isTmp, stampOf, outside]

theorem live_storable {path : Path} {keyType : String} (live : keyTypeOf path = some keyType) :
    Storable path := by
  obtain ⟨stem, dir, rfl, rfl | rfl⟩ := live_shape live <;>
    exact storable_of_text stem "keyf" (by decide)

theorem staged_storable {path : Path} {keyType : String} (live : keyTypeOf path = some keyType) :
    Storable (stagePath path) := by
  obtain ⟨stem, dir, rfl, rfl | rfl⟩ := live_shape live <;>
    exact storable_of_text stem "keyf" (by decide)

theorem not_below_rotate_of_live {path : Path} {keyType : String}
    (live : keyTypeOf path = some keyType) : ¬ rotateDir <:+ path := by
  obtain ⟨stem, dir, rfl, rfl | rfl⟩ := live_shape live <;>
    simp [List.suffix_cons_iff, rotateDir, rootDir, plain, keyf]

theorem below_rotate_of_staged {path : Path} {keyType : String}
    (live : keyTypeOf path = some keyType) : rotateDir <:+ stagePath path := by
  obtain ⟨stem, dir, rfl, _⟩ := live_shape live
  rw [stagePath_shape]
  exact ⟨[keyf stem, plain dir, plain "staged"], rfl⟩

theorem stagePath_ne_ready {path : Path} {keyType : String} (live : keyTypeOf path = some keyType) :
    readyPath ≠ stagePath path := by
  obtain ⟨stem, dir, rfl, _⟩ := live_shape live
  rw [stagePath_shape]
  simp [readyPath, stagedDir, rotateDir, rootDir]

theorem stagePath_injective {path other : Path} {keyType otherType : String}
    (live : keyTypeOf path = some keyType) (otherLive : keyTypeOf other = some otherType)
    (same : stagePath path = stagePath other) : path = other := by
  obtain ⟨stem, dir, rfl, _⟩ := live_shape live
  obtain ⟨stem', dir', rfl, _⟩ := live_shape otherLive
  rw [stagePath_shape, stagePath_shape] at same
  simp only [List.cons.injEq, and_true] at same ⊢
  exact same

theorem rotate_files_storable :
    Storable readyPath ∧ Storable nextOldPath ∧ Storable nextNewPath := by
  refine ⟨⟨?_, ?_⟩, ⟨?_, ?_⟩, ⟨?_, ?_⟩⟩ <;> decide

/-- The payloads of the live keyfiles; `none` where there is no file. -/
abbrev Payloads := Path → Option Bytes

def marker : Node := privateFile readyBytes

/-- The entry is a keyfile that opens to the payload, or is missing as it should be. -/
def Holds (X : Crypto) (mk : Key) (keyType : String) : Option Bytes → Option Node → Prop
  | none, node => node = none
  | some payload, node => loadNode X node mk keyType = .ok payload

/-- What rotations rest on: the master keys that may occur, whether they tell wrapped
keys apart, and what besides opening is asked of the bytes of keyfiles under a key. -/
structure Custody where
  known : Key → Prop
  apart : Prop
  genuine : Key → String → Bytes → Prop

/-- The master keys are told apart, and keyfiles only have to open. -/
def Custody.plain (keys : Key → Prop) : Custody := ⟨keys, True, fun _ _ _ => True⟩

def Custody.any : Custody := ⟨fun _ => True, False, fun _ _ _ => True⟩

/-- The entry is a keyfile that opens to the payload and is as asked. -/
structure Opens (X : Crypto) (custody : Custody) (mk : Key) (keyType : String) (payload : Bytes)
    (node : Option Node) : Prop where
  loads : loadNode X node mk keyType = .ok payload
  genuine : ∀ data, readNode node = .ok data → custody.genuine mk keyType data

def LiveUnder (X : Crypto) (payloads : Payloads) (mk : Key) (v : View) : Prop :=
  ∀ path keyType, keyTypeOf path = some keyType → Holds X mk keyType (payloads path) (v path)

/-- Live under `mk`, with every keyfile as asked. -/
structure LiveIn (X : Crypto) (custody : Custody) (payloads : Payloads) (mk : Key) (v : View) : Prop where
  under : LiveUnder X payloads mk v
  genuine : ∀ path keyType data, keyTypeOf path = some keyType → readNode (v path) = .ok data →
    custody.genuine mk keyType data

/-- The payloads of a store, as far as its live keyfiles open under `mk`. -/
def payloadsOf (X : Crypto) (mk : Key) (v : View) : Payloads := fun path =>
  (keyTypeOf path).bind fun keyType => (loadNode X (v path) mk keyType).toOption

/-- The live keyfiles are there, under whatever key. -/
def Present (payloads : Payloads) (v : View) : Prop :=
  ∀ path keyType, keyTypeOf path = some keyType →
    ((v path).isSome = true ↔ (payloads path).isSome = true) ∧
    ∀ node, v path = some node → node.ftype = .regular

/-- The next key lies sealed under the old one and under itself, each copy for its
own key only. -/
structure NextKeys (X : Crypto) (custody : Custody) (old new : Key) (v : View) : Prop where
  nextOld : loadNode X (v nextOldPath) old ktRotateNextOld = .ok new.1
  nextOldApart : custody.apart → ∀ out, loadNode X (v nextOldPath) new ktRotateNextOld ≠ .ok out
  nextNew : loadNode X (v nextNewPath) new ktRotateNextNew = .ok new.1
  nextNewApart : custody.apart → ∀ out, loadNode X (v nextNewPath) old ktRotateNextNew ≠ .ok out

/-- All a rotation from `old` to `new` needs to be finished. -/
structure Prepared (X : Crypto) (custody : Custody) (payloads : Payloads) (old new : Key) (v : View) :
    Prop extends NextKeys X custody old new v where
  live : Present payloads v
  staged : ∀ path keyType payload, keyTypeOf path = some keyType → payloads path = some payload →
    Opens X custody new keyType payload (v (stagePath path))

/-- The provider has the new key; what is left of the rotation is to be removed. -/
structure Switched (X : Crypto) (custody : Custody) (payloads : Payloads) (new : Key) (v : View) :
    Prop where
  live : LiveIn X custody payloads new v
  staged : ∀ path keyType payload, keyTypeOf path = some keyType → payloads path = some payload →
    v (stagePath path) = none ∨ Opens X custody new keyType payload (v (stagePath path))
  nextOldApart : custody.apart → ∀ out, loadNode X (v nextOldPath) new ktRotateNextOld ≠ .ok out
  nextNew : v nextNewPath = none ∨ loadNode X (v nextNewPath) new ktRotateNextNew = .ok new.1

section
variable (X : Crypto) (custody : Custody) (payloads : Payloads)

/-- Ready to be finished: the provider holds `old`, and all that leads to `new` is there. -/
def PreparedAt (old new : Key) (w : World) : Prop :=
  (w.control.providerMk = some old ∧ custody.known old ∧ custody.known new) ∧
    w.view readyPath = some marker ∧ Prepared X custody payloads old new w.view

/-- The provider and the live keyfiles agree on `mk`; a rotation may have to be cleaned up. -/
def FinishedAt (mk : Key) (w : World) : Prop :=
  (w.control.providerMk = some mk ∧ custody.known mk) ∧
    (w.view readyPath = none ∧ LiveIn X custody payloads mk w.view ∨
      w.view readyPath = some marker ∧ Switched X custody payloads mk w.view)

/-- A crash here loses nothing, as long as rotations stay among the given master keys. -/
def Recoverable (w : World) : Prop :=
  (∃ old new, PreparedAt X custody payloads old new w) ∨ ∃ mk, FinishedAt X custody payloads mk w
end

/-- No rotation is pending and every live keyfile opens under the provider's key. -/
def Settled (X : Crypto) (payloads : Payloads) (w : World) : Prop :=
  ∃ mk, w.control.providerMk = some mk ∧ w.view readyPath = none ∧
    LiveUnder X payloads mk w.view

/-- The files recovery needs once the provider has the new key: the copy of the new
key under itself, and the staged copy of every live keyfile. -/
def Complete (payloads : Payloads) (v : View) : Prop :=
  v nextNewPath ≠ none ∧ ∀ path keyType, keyTypeOf path = some keyType →
    (payloads path).isSome = true → v (stagePath path) ≠ none

/-- No marker is there, or all that recovery may need. -/
def Finishable (payloads : Payloads) (v : View) : Prop :=
  v readyPath = none ∨ Complete payloads v

section
variable {X : Crypto} {custody : Custody} {payloads : Payloads} {mk old new : Key}
  {keyType : String} {payload data : Bytes} {path : Path} {v v' : View}

theorem Settled.recoverable {keys : Key → Prop} {w : World} (settled : Settled X payloads w)
    (known : ∀ mk, w.control.providerMk = some mk → keys mk) :
    Recoverable X (.plain keys) payloads w := by
  obtain ⟨mk, held, unmarked, live⟩ := settled
  exact .inr ⟨mk, ⟨held, known mk held⟩, .inl ⟨unmarked, live, fun _ _ _ _ _ => trivial⟩⟩

theorem FinishedAt.live {w : World} (here : FinishedAt X custody payloads mk w) :
    LiveIn X custody payloads mk w.view := by
  obtain ⟨_, ⟨_, live⟩ | ⟨_, switched⟩⟩ := here
  · exact live
  · exact switched.live

theorem FinishedAt.settled {w : World} (here : FinishedAt X custody payloads mk w)
    (unmarked : w.view readyPath = none) : Settled X payloads w :=
  ⟨mk, here.1.1, unmarked, here.live.under⟩

theorem readNode_ok {node : Option Node} (read : readNode node = .ok data) :
    ∃ found, node = some found ∧ found.ftype = .regular ∧ data.length ≤ maxKeyfileSize := by
  match node with
  | none => cases read
  | some found =>
    simp only [readNode] at read
    split at read
    · cases read
    · cases checked : checkKeyfileMetadata found.metadata with
      | error e =>
        rw [checked] at read
        cases read
      | ok _ =>
        rw [checked] at read
        cases read
        refine ⟨found, rfl, ?_, by simp⟩
        by_contra irregular
        have kind : found.metadata.ftype = found.ftype := rfl
        simp only [checkKeyfileMetadata, kind] at checked
        split at checked <;> simp at checked

theorem loadNode_ok {node : Option Node} (loaded : loadNode X node mk keyType = .ok payload) :
    ∃ found data, node = some found ∧ found.ftype = .regular ∧ readNode node = .ok data ∧
      data.length ≤ maxKeyfileSize ∧ openRecord X data mk keyType = .ok payload := by
  obtain ⟨data, read, opened⟩ := bind_ok loaded
  obtain ⟨found, rfl, regular, size⟩ := readNode_ok read
  exact ⟨found, data, rfl, regular, read, size, opened⟩

/-- A store whose live keyfiles all open under `mk` is live under it. -/
theorem liveUnder_payloadsOf (opens : ∀ path keyType, keyTypeOf path = some keyType →
    v path = none ∨ ∃ payload, loadNode X (v path) mk keyType = .ok payload) :
    LiveUnder X (payloadsOf X mk v) mk v := by
  intro path keyType known
  obtain absent | ⟨payload, loaded⟩ := opens path keyType known
  · have unread : payloadsOf X mk v path = none := by
      rw [payloadsOf, known, absent]
      rfl
    rw [unread]
    exact absent
  · have read : payloadsOf X mk v path = some payload := by
      rw [payloadsOf, known, Option.bind_some, loaded]
      rfl
    rw [read]
    exact loaded

/-- A private file is read as it was written, up to the size limit. -/
theorem readNode_private (fits : data.length ≤ maxKeyfileSize) :
    readNode (some (privateFile data)) = .ok data := by
  have checked : checkKeyfileMetadata (privateFile data).metadata = .ok () := by
    have small : ¬ (privateFile data).metadata.len > maxKeyfileSize := by
      simpa [privateFile, Node.metadata] using fits
    simp only [checkKeyfileMetadata, if_neg small]
    simp [privateFile, Node.metadata]
  have whole : (privateFile data).data.take maxKeyfileSize = data := List.take_of_length_le fits
  simp only [readNode, checked, Except.map, whole]
  rfl

theorem loadNode_private (fits : data.length ≤ maxKeyfileSize) :
    loadNode X (some (privateFile data)) mk keyType = openRecord X data mk keyType := by
  rw [loadNode, readNode_private fits]
  rfl

theorem loadNode_copy {node : Option Node} (read : readNode node = .ok data) :
    loadNode X (some (privateFile data)) mk keyType = loadNode X node mk keyType := by
  obtain ⟨_, _, _, size⟩ := readNode_ok read
  rw [loadNode_private size, loadNode, read]
  rfl

theorem Opens.copy {node : Option Node} (opens : Opens X custody mk keyType payload node)
    (read : readNode node = .ok data) :
    Opens X custody mk keyType payload (some (privateFile data)) := by
  obtain ⟨_, _, _, size⟩ := readNode_ok read
  refine ⟨(loadNode_copy read).trans opens.loads, fun copied same => ?_⟩
  rw [readNode_private size] at same
  cases same
  exact opens.genuine data read

theorem LiveUnder.present (live : LiveUnder X payloads mk v) : Present payloads v := by
  intro path keyType known
  have holds := live path keyType known
  cases payload : payloads path with
  | none =>
    rw [payload] at holds
    simp [show v path = none from holds]
  | some bytes =>
    rw [payload] at holds
    obtain ⟨found, data, entry, regular, _⟩ := loadNode_ok holds
    rw [entry]
    exact ⟨by simp, fun node same => Option.some.inj same ▸ regular⟩

theorem LiveUnder.congr (live : LiveUnder X payloads mk v)
    (same : ∀ path keyType, keyTypeOf path = some keyType → v' path = v path) :
    LiveUnder X payloads mk v' := by
  intro path keyType known
  rw [same path keyType known]
  exact live path keyType known

theorem LiveIn.congr (live : LiveIn X custody payloads mk v)
    (same : ∀ path keyType, keyTypeOf path = some keyType → v' path = v path) :
    LiveIn X custody payloads mk v' := by
  refine ⟨live.under.congr same, fun path keyType data known read => ?_⟩
  rw [same path keyType known] at read
  exact live.genuine path keyType data known read

theorem LiveIn.put_rotate (live : LiveIn X custody payloads mk v) (inside : rotateDir <:+ path)
    (node : Option Node) : LiveIn X custody payloads mk (Function.update v path node) :=
  live.congr fun other keyType known => Function.update_of_ne (by
    rintro rfl
    exact not_below_rotate_of_live known inside) _ _

theorem LiveIn.put_live {node : Option Node} (live : LiveIn X custody payloads mk v)
    (known : keyTypeOf path = some keyType) (held : payloads path = some payload)
    (opens : Opens X custody mk keyType payload node) :
    LiveIn X custody payloads mk (Function.update v path node) := by
  constructor
  · intro other otherType otherKnown
    by_cases same : other = path
    · subst same
      cases known.symm.trans otherKnown
      rw [held, Function.update_self]
      exact opens.loads
    · rw [Function.update_of_ne same]
      exact live.under other otherType otherKnown
  · intro other otherType bytes otherKnown read
    by_cases same : other = path
    · subst same
      cases known.symm.trans otherKnown
      rw [Function.update_self] at read
      exact opens.genuine bytes read
    · rw [Function.update_of_ne same] at read
      exact live.genuine other otherType bytes otherKnown read

theorem Present.put_live (present : Present payloads v) (known : keyTypeOf path = some keyType)
    (held : payloads path = some payload) :
    Present payloads (Function.update v path (some (privateFile data))) := by
  intro other otherType otherKnown
  by_cases same : other = path
  · subst same
    simp [held, privateFile]
  · rw [Function.update_of_ne same]
    exact present other otherType otherKnown

theorem apart_of_live (known : keyTypeOf path = some keyType) {other : Path}
    (inside : rotateDir <:+ other) : other ≠ path := by
  rintro rfl
  exact not_below_rotate_of_live known inside

theorem rotate_files_below :
    rotateDir <:+ readyPath ∧ rotateDir <:+ nextOldPath ∧ rotateDir <:+ nextNewPath := by
  refine ⟨⟨[plain "ready"], rfl⟩, ⟨[keyf "next-mk-old"], rfl⟩, ⟨[keyf "next-mk-new"], rfl⟩⟩

theorem NextKeys.put (next : NextKeys X custody old new v) (apartOld : nextOldPath ≠ path)
    (apartNew : nextNewPath ≠ path) (node : Option Node) :
    NextKeys X custody old new (Function.update v path node) := by
  constructor
  · rw [Function.update_of_ne apartOld]
    exact next.nextOld
  · rw [Function.update_of_ne apartOld]
    exact next.nextOldApart
  · rw [Function.update_of_ne apartNew]
    exact next.nextNew
  · rw [Function.update_of_ne apartNew]
    exact next.nextNewApart

theorem Prepared.put_live (prepared : Prepared X custody payloads old new v)
    (known : keyTypeOf path = some keyType) (held : payloads path = some payload) :
    Prepared X custody payloads old new (Function.update v path (some (privateFile data))) := by
  obtain ⟨_, nextOld, nextNew⟩ := rotate_files_below
  refine ⟨prepared.toNextKeys.put (apart_of_live known nextOld) (apart_of_live known nextNew) _,
    prepared.live.put_live known held, fun other otherType otherPayload otherKnown => ?_⟩
  rw [Function.update_of_ne (apart_of_live known (below_rotate_of_staged otherKnown))]
  exact prepared.staged other otherType otherPayload otherKnown

theorem Switched.put_live (switched : Switched X custody payloads new v)
    (known : keyTypeOf path = some keyType) (held : payloads path = some payload)
    (opens : Opens X custody new keyType payload (some (privateFile data))) :
    Switched X custody payloads new (Function.update v path (some (privateFile data))) := by
  obtain ⟨_, nextOld, nextNew⟩ := rotate_files_below
  refine ⟨switched.live.put_live known held opens,
    fun other otherType otherPayload otherKnown => ?_, ?_, ?_⟩
  · rw [Function.update_of_ne (apart_of_live known (below_rotate_of_staged otherKnown))]
    exact switched.staged other otherType otherPayload otherKnown
  · rw [Function.update_of_ne (apart_of_live known nextOld)]
    exact switched.nextOldApart
  · rw [Function.update_of_ne (apart_of_live known nextNew)]
    exact switched.nextNew

/-- Once everything staged is live, switching the provider completes the rotation. -/
theorem Prepared.switched (prepared : Prepared X custody payloads old new v)
    (applied : ∀ path keyType payload, keyTypeOf path = some keyType →
      payloads path = some payload → Opens X custody new keyType payload (v path)) :
    Switched X custody payloads new v := by
  have absent : ∀ path keyType, keyTypeOf path = some keyType → payloads path = none →
      v path = none := fun path keyType known unsealed => by
    simpa [unsealed] using (prepared.live path keyType known).1
  refine ⟨⟨fun path keyType known => ?_, fun path keyType data known read => ?_⟩,
    fun path keyType payload known held => .inr (prepared.staged path keyType payload known held),
    prepared.nextOldApart, .inr prepared.nextNew⟩
  · cases held : payloads path with
    | none => exact absent path keyType known held
    | some payload => exact (applied path keyType payload known held).loads
  · cases held : payloads path with
    | none =>
      rw [absent path keyType known held] at read
      cases read
    | some payload => exact (applied path keyType payload known held).genuine data read

theorem Prepared.complete (prepared : Prepared X custody payloads old new v) : Complete payloads v := by
  refine ⟨fun absent => ?_, fun path keyType known sealed absent => ?_⟩
  · obtain ⟨found, _, there, _⟩ := loadNode_ok prepared.nextNew
    rw [absent] at there
    cases there
  · obtain ⟨payload, sealed⟩ := Option.isSome_iff_exists.mp sealed
    obtain ⟨found, _, there, _⟩ := loadNode_ok (prepared.staged path keyType payload known sealed).loads
    rw [absent] at there
    cases there

/-- Files of the rotation directory may have gone, nothing else has. -/
structure PrunedView (v v' : View) : Prop where
  outside : ∀ path, ¬ rotateDir <:+ path → v' path = v path
  gone : ∀ path, v' path = v path ∨ v' path = none

theorem LiveIn.pruned (live : LiveIn X custody payloads mk v) (pruned : PrunedView v v') :
    LiveIn X custody payloads mk v' :=
  live.congr fun _ _ known => pruned.outside _ (not_below_rotate_of_live known)

theorem Switched.pruned (switched : Switched X custody payloads new v) (pruned : PrunedView v v') :
    Switched X custody payloads new v' := by
  refine ⟨switched.live.pruned pruned, fun path keyType payload known held => ?_,
    fun told out => ?_, ?_⟩
  · obtain same | gone := pruned.gone (stagePath path)
    · rw [same]
      exact switched.staged path keyType payload known held
    · exact .inl gone
  · obtain same | gone := pruned.gone nextOldPath
    · rw [same]
      exact switched.nextOldApart told out
    · simp [gone, loadNode, readNode, Except.bind]
  · obtain same | gone := pruned.gone nextNewPath
    · rw [same]
      exact switched.nextNew
    · exact .inl gone
end

end Lithium.Keys
