import Lithium.Keys.Abandoned
import Lithium.Keys.Solitary

/-! Old versions of a keyfile. A rotation wraps the data key of every keyfile under its new
master key, so bytes saved before it do not open afterwards. A label whose payload is too
large to be read back stands in the way of every later rotation. -/
namespace Lithium.Keys
open Effects Storage

/-- The bytes are a record whose data key is wrapped under this master key. -/
def WrappedUnder (X : Crypto) (mk : Key) (keyType : String) (data : Bytes) : Prop :=
  ∃ r dek, parseKeyfile data = .ok r ∧
    X.encryptRaw (deriveKek X mk r.salt) r.nonceWrap (aadFor r.version keyType) dek = some r.ctWrap

/-- Master keys are told apart, and every keyfile is wrapped under the one it is read with. -/
def Custody.wrapped (X : Crypto) (keys : Key → Prop) : Custody := ⟨keys, True, WrappedUnder X⟩

section
variable {X : Crypto} {keys : Key → Prop} {mk mk' : Key} {keyType : String} {data payload : Bytes}

theorem sealRecord_wrapped (lawful : X.Lawful) {draws : SealDraws}
    (sealed : sealRecord X mk payload keyType draws = .ok data)
    (fits : payload.length + 16 < 4294967296) : WrappedUnder X mk keyType data := by
  obtain ⟨ctWrap, ctPayload, wrapped, encrypted, rfl⟩ := sealRecord_ok sealed
  refine ⟨_, draws.dek.1, parseKeyfile_build ?_ ?_, wrapped⟩
  · rw [lawful.length_encrypt wrapped, draws.dek.2]
    rfl
  · rw [lawful.length_encrypt encrypted]
    exact fits

theorem rewrapRecord_wrapped (lawful : X.Lawful) {buf out : Bytes} {salt : Fixed 32} {nonce : Nonce}
    (rewrapped : rewrapRecord X buf mk mk' keyType salt nonce = .ok out) :
    WrappedUnder X mk' keyType out := by
  obtain ⟨r, dek, ctWrap, unwrapped, wrapped, rfl⟩ := rewrapRecord_ok rewrapped
  obtain ⟨parsed, -, -⟩ := unwrapRecord_ok_iff.mp unwrapped
  obtain ⟨-, -, small⟩ := parseKeyfile_ok parsed
  refine ⟨_, dek.1, parseKeyfile_build ?_ small, wrapped⟩
  rw [lawful.length_encrypt wrapped, dek.2]
  rfl

theorem WrappedUnder.refused (separated : Separated X keys) (known : keys mk) (other : keys mk')
    (apart : mk ≠ mk') (wrapped : WrappedUnder X mk keyType data) (out : Bytes) :
    openRecord X data mk' keyType ≠ .ok out := by
  obtain ⟨r, dek, parsed, encrypted⟩ := wrapped
  intro opened
  obtain ⟨r', dek', unwrapped, -⟩ := openRecord_ok_iff.mp opened
  obtain ⟨parsed', -, unwrapped⟩ := unwrapRecord_ok_iff.mp unwrapped
  cases parsed.symm.trans parsed'
  rw [unwrapDek_ok_iff, separated mk mk' known other apart _ _ _ _ _ encrypted] at unwrapped
  cases unwrapped

theorem Custody.wrapped_upheld (lawful : X.Lawful) {env : Env} (separated : Separated X keys)
    (fresh : FreshDraws env keys) : (Custody.wrapped X keys).Upheld X env where
  separated := fun _ => separated
  fresh := fun mk new known drawn => ⟨(fresh mk new known drawn).1, fun _ =>
    (fresh mk new known drawn).2⟩
  rewrapped := fun _ _ _ _ _ _ _ rewrapped => rewrapRecord_wrapped lawful rewrapped

end

/-- One turn of a run, with the master keys the provider has had, the current one first:
a label operation with any outcome, or a rotation that succeeds and brings a new key. -/
inductive Turn (X : Crypto) (env : Env) (cached : Bool) (mode : CreateNewMode) :
    List Key × World → List Key × World → Prop where
  | secret32 {tid label result mks w w'} :
      Returns (sem env tid) (getOrCreateSecret32 X cached mode label) w result w' →
      Turn X env cached mode (mks, w) (mks, w')
  | blob {tid label generate result mks w w'} :
      Returns (sem env tid) (loadOrCreateSealedBlob X cached mode label generate) w result w' →
      Turn X env cached mode (mks, w) (mks, w')
  | rotated {tid mks w w' mk} : Returns (sem env tid) (rotateNow X cached) w (.ok ()) w' →
      w'.control.providerMk = some mk → mk ∉ mks → Turn X env cached mode (mks, w) (mk :: mks, w')

def Large (node : Option Node) : Prop :=
  ∃ data, node = some (privateFile data) ∧ maxKeyfileSize < data.length

/-- A live keyfile as the manager keeps it, with its payload if it can be read back. -/
def FileKept (X : Crypto) (mk : Key) (keyType : String) (payload : Option Bytes) (node : Option Node) :
    Prop :=
  Holds X mk keyType payload node ∧
      (∀ data, readNode node = .ok data → WrappedUnder X mk keyType data) ∨
    payload = none ∧ Large node

/-- A store as the manager keeps it: each live keyfile is wrapped under the current master
key and opens to its payload, or is too large. -/
structure Tended (X : Crypto) (keys : Key → Prop) (cached : Bool) (payloads : Payloads) (mk : Key)
    (w : World) : Prop where
  provided : w.control.providerMk = some mk ∧ keys mk
  sealing : w.control.clientMk cached = some mk
  unmarked : w.view readyPath = none
  files : ∀ path keyType, keyTypeOf path = some keyType →
    FileKept X mk keyType (payloads path) (w.view path)

section
variable {X : Crypto} {keys : Key → Prop} {cached : Bool} {mode : CreateNewMode} {env : Env}
  {payloads : Payloads} {mk : Key} {w w' : World}

theorem Large.unreadable {node : Option Node} (large : Large node) (data : Bytes) :
    readNode node ≠ .ok data := by
  obtain ⟨bytes, rfl, long⟩ := large
  intro read
  simp [readNode, privateFile, Node.metadata, checkKeyfileMetadata, long, Except.map] at read

theorem Large.seen {v : View} {path : Path} (large : Large (v path)) : ¬ Unseen v path := by
  obtain ⟨data, found, -⟩ := large
  intro unseen
  cases unseen _ found

theorem Large.targeted {path : Path} {keyType : String} (known : keyTypeOf path = some keyType)
    (large : Large (w.view path)) : Targeted w path := by
  obtain ⟨data, found, -⟩ := large
  rw [view_of_visible (live_storable known).1] at found
  have regular : w.fs.stat path = some (privateFile data).metadata := by
    rw [FileSystem.stat, found]
    rfl
  unfold Targeted ListedIn
  dsimp only
  rw [regular]
  split <;> rfl

/-- Where nothing is seen at the place of a live keyfile, nothing is there. -/
theorem Tended.absent (tended : Tended X keys cached payloads mk w) {path : Path} {keyType : String}
    (known : keyTypeOf path = some keyType) (unseen : Unseen w.view path) :
    payloads path = none ∧ w.view path = none := by
  rcases tended.files path keyType known with ⟨holds, -⟩ | ⟨-, large⟩
  · cases sealed : payloads path with
    | none =>
      rw [sealed] at holds
      exact ⟨rfl, holds⟩
    | some payload =>
      rw [sealed] at holds
      obtain ⟨found, -, there, regular, -⟩ := loadNode_ok holds
      rw [unseen found there] at regular
      cases regular
  · exact absurd unseen large.seen

/-- A fresh record is read back, unless its payload makes it too large. -/
theorem sealed_node (lawful : X.Lawful) {payload data : Bytes} {keyType : String} {draws : SealDraws}
    (sealed : sealRecord X mk payload keyType draws = .ok data) :
    payload.length ≤ maxKeyfileSize - 140 ∧
        loadNode X (some (privateFile data)) mk keyType = .ok payload ∨
      maxKeyfileSize - 140 < payload.length ∧ Large (some (privateFile data)) := by
  have length := sealRecord_length lawful sealed
  by_cases short : payload.length ≤ maxKeyfileSize - 140
  · exact .inl ⟨short, loadNode_sealed lawful short sealed⟩
  · refine .inr ⟨by omega, data, rfl, ?_⟩
    rw [length]
    simp only [maxKeyfileSize] at short ⊢
    omega

theorem fileKept_sealed (lawful : X.Lawful) {payload data : Bytes} {keyType : String}
    {draws : SealDraws} (sealed : sealRecord X mk payload keyType draws = .ok data) :
    ∃ kept, FileKept X mk keyType kept (some (privateFile data)) := by
  obtain ⟨short, loads⟩ | ⟨_, large⟩ := sealed_node lawful sealed
  · refine ⟨some payload, .inl ⟨loads, fun read opened => ?_⟩⟩
    have fits : data.length ≤ maxKeyfileSize := by
      rw [sealRecord_length lawful sealed]
      simp only [maxKeyfileSize] at short ⊢
      omega
    rw [readNode_private fits] at opened
    cases opened
    refine sealRecord_wrapped lawful sealed ?_
    simp only [maxKeyfileSize] at short
    omega
  · exact ⟨none, .inr ⟨rfl, large⟩⟩

theorem Tended.add (tended : Tended X keys cached payloads mk w) {path : Path} {keyType : String}
    {node : Node} {kept : Option Bytes} (known : keyTypeOf path = some keyType)
    (file : FileKept X mk keyType kept (some node))
    (leaves : Leaves w (Function.update w.view path (some node)) w') :
    Tended X keys cached (Function.update payloads path kept) mk w' where
  provided := by
    rw [leaves.control]
    exact tended.provided
  sealing := by
    rw [leaves.control]
    exact tended.sealing
  unmarked := by
    rw [leaves.view, Function.update_of_ne (apart_of_live known rotate_files_below.1)]
    exact tended.unmarked
  files := by
    intro other otherType live
    rw [leaves.view]
    by_cases same : other = path
    · subst same
      cases known.symm.trans live
      rw [Function.update_self, Function.update_self]
      exact file
    · rw [Function.update_of_ne same, Function.update_of_ne same]
      exact tended.files other otherType live

/-- A label operation keeps the store as it is, or adds one file. -/
theorem Tended.served {α : Type} {bytes : α → Bytes} {label : Bytes}
    {result : Except LithiumError α} {v : View} (lawful : X.Lawful)
    (tended : Tended X keys cached payloads mk w) (leaves : Leaves w v w')
    (served : Served X mk label bytes w.view result v) :
    ∃ payloads', Tended X keys cached payloads' mk w' ∧
      (∀ path payload, payloads path = some payload → payloads' path = some payload) ∧
      ∀ path, Large (w.view path) → Large (w'.view path) := by
  have known := keyTypeOf_labelPath label
  rcases served with ⟨rfl, -⟩ | ⟨unseen, value, -, draws, data, sealed, rfl⟩
  · refine ⟨payloads, ⟨?_, ?_, ?_, ?_⟩, fun _ _ same => same, fun path large => ?_⟩
    · rw [leaves.control]
      exact tended.provided
    · rw [leaves.control]
      exact tended.sealing
    · rw [leaves.view]
      exact tended.unmarked
    · rw [leaves.view]
      exact tended.files
    · rw [leaves.view]
      exact large
  · obtain ⟨vacant, -⟩ := tended.absent known unseen
    obtain ⟨kept, file⟩ := fileKept_sealed lawful sealed
    refine ⟨_, tended.add known file leaves, fun path payload there => ?_, fun path large => ?_⟩
    · have other : path ≠ labelSecretPath label := by
        rintro rfl
        rw [vacant] at there
        cases there
      rw [Function.update_of_ne other]
      exact there
    · have other : path ≠ labelSecretPath label := by
        rintro rfl
        exact large.seen unseen
      rw [leaves.view, Function.update_of_ne other]
      exact large

/-- A file too large stands in the way of a rotation. -/
theorem Large.blocks [env.Sighted] {tid : Tid} {path : Path} {keyType : String} (lawful : X.Lawful)
    (known : keyTypeOf path = some keyType) (large : Large (w.view path))
    (unmarked : w.view readyPath = none) : ¬ Returns (sem env tid) (rotateNow X cached) w (.ok ()) w' := by
  intro done
  have gone : w.fs.get readyPath = none :=
    (view_of_visible rotate_files_storable.1.1).symm.trans unmarked
  obtain ⟨data, read⟩ := (rotateNow_readable lawful cached w ⟨rfl, gone⟩).returns trivial done rfl path
    keyType known (large.targeted known)
  rw [← view_of_visible (live_storable known).1] at read
  exact large.unreadable data read

/-- A rotation that succeeds found no file too large, and keeps all payloads. -/
theorem Tended.rotated [env.Sighted] {tid : Tid} (lawful : X.Lawful) (separated : Separated X keys)
    (fresh : FreshDraws env keys) (tended : Tended X keys cached payloads mk w)
    (done : Returns (sem env tid) (rotateNow X cached) w (.ok ()) w') :
    (∀ path keyType, keyTypeOf path = some keyType → ¬ Large (w.view path)) ∧
      ∃ mk', Tended X keys cached payloads mk' w' := by
  have small : ∀ path keyType, keyTypeOf path = some keyType → ¬ Large (w.view path) :=
    fun path keyType known large => large.blocks lawful known tended.unmarked done
  have live : LiveIn X (.wrapped X keys) payloads mk w.view := by
    refine ⟨fun path keyType known => ?_, fun path keyType data known read => ?_⟩
    · rcases tended.files path keyType known with ⟨holds, -⟩ | ⟨-, large⟩
      · exact holds
      · exact absurd large (small path keyType known)
    · rcases tended.files path keyType known with ⟨-, wrapped⟩ | ⟨-, large⟩
      · exact wrapped data read
      · exact absurd large (small path keyType known)
  have finished : FinishedAt X (.wrapped X keys) payloads mk w :=
    ⟨tended.provided, .inl ⟨tended.unmarked, live⟩⟩
  have frame : Frame w True w := ⟨rfl, .refl w, .inl trivial⟩
  have told : True → (Custody.wrapped X keys).apart := fun _ => trivial
  have meets : Meets (Solo env tid (Sound X (.wrapped X keys) payloads True)) _
      (rotateNow X cached) w :=
    rotateNow_settled lawful (Custody.wrapped_upheld lawful separated fresh) told excused cached w
      ⟨⟨finished, frame⟩, tended.unmarked⟩
  obtain ⟨-, mk', ⟨after, cleared⟩, control, -⟩ :=
    meets.returns (frame.sound (.inr ⟨mk, finished⟩)) done
  refine ⟨small, mk', after.1, ?_, cleared.unmarked, fun path keyType known =>
    .inl ⟨after.live.under path keyType known, fun data read =>
      after.live.genuine path keyType data known read⟩⟩
  rw [control]
  cases cached <;> rfl

/-- Where a run stands that began with the keys `mks` in a store `start` with these payloads. -/
structure Reached (X : Crypto) (keys : Key → Prop) (cached : Bool) (payloads : Payloads)
    (mks : List Key) (start : World) (state : List Key × World) : Prop where
  past : mks <:+ state.1
  apart : state.1.Nodup
  kept : ∃ payloads' mk, state.1.head? = some mk ∧ Tended X keys cached payloads' mk state.2 ∧
    ∀ path payload, payloads path = some payload → payloads' path = some payload
  small : (state.1 = mks ∧ ∀ path, Large (start.view path) → Large (state.2.view path)) ∨
    mks.length < state.1.length ∧ ∀ path keyType, keyTypeOf path = some keyType →
      ¬ Large (start.view path)

theorem Reached.served {α : Type} {bytes : α → Bytes} {label : Bytes}
    {result : Except LithiumError α} {mks now : List Key} {start : World} (lawful : X.Lawful)
    (reached : Reached X keys cached payloads mks start (now, w))
    (served : ∀ mk, w.control.clientMk cached = some mk →
      ∃ v, Leaves w v w' ∧ Served X mk label bytes w.view result v) :
    Reached X keys cached payloads mks start (now, w') := by
  obtain ⟨past, apart, ⟨before, mk, current, tended, kept⟩, small⟩ := reached
  obtain ⟨v, leaves, served⟩ := served mk tended.sealing
  obtain ⟨after, tended, more, large⟩ := tended.served lawful leaves served
  refine ⟨past, apart, ⟨after, mk, current, tended, ?_⟩, small.imp_left fun same => ⟨same.1, ?_⟩⟩
  · exact fun path payload there => more path payload (kept path payload there)
  · exact fun path here => large path (same.2 path here)

theorem Reached.turn [env.Sighted] {mks : List Key} {start : World} {state next : List Key × World}
    (lawful : X.Lawful) (separated : Separated X keys) (fresh : FreshDraws env keys)
    (reached : Reached X keys cached payloads mks start state)
    (turn : Turn X env cached mode state next) : Reached X keys cached payloads mks start next := by
  cases turn with
  | secret32 returned =>
    exact reached.served lawful fun mk sealing =>
      (getOrCreateSecret32_served sealing _ rfl).returns trivial returned
  | blob returned =>
    exact reached.served lawful fun mk sealing =>
      (loadOrCreateSealedBlob_served sealing _ rfl).returns trivial returned
  | rotated returned provided unused =>
    obtain ⟨past, apart, ⟨before, mk, current, tended, kept⟩, small⟩ := reached
    obtain ⟨none, mk', after⟩ := tended.rotated lawful separated fresh returned
    obtain rfl : mk' = _ := Option.some.inj (after.provided.1.symm.trans provided)
    refine ⟨past.trans (List.suffix_cons _ _), List.nodup_cons.mpr ⟨unused, apart⟩,
      ⟨before, mk', rfl, after, kept⟩, .inr ⟨?_, fun path keyType known large => ?_⟩⟩
    · exact Nat.lt_succ_of_le past.length_le
    · rcases small with ⟨-, grown⟩ | ⟨-, small⟩
      · exact none path keyType known (grown path large)
      · exact small path keyType known large

theorem Reached.run [env.Sighted] {mks : List Key} {start : World} {state next : List Key × World}
    (lawful : X.Lawful) (separated : Separated X keys) (fresh : FreshDraws env keys)
    (reached : Reached X keys cached payloads mks start state)
    (run : Relation.ReflTransGen (Turn X env cached mode) state next) :
    Reached X keys cached payloads mks start next := by
  induction run with
  | refl => exact reached
  | tail _ turn ih => exact ih.turn lawful separated fresh turn

variable (X) (env) (mk) in
theorem loadBytesDecrypted_delivers (path : Path) (keyType : String) (tid : Tid) (w : World) :
    Delivers (sem env tid) (loadBytesDecrypted X path mk keyType) w fun result _ =>
      Answers env (loadNode X (w.fs.get path) mk keyType) result := by
  refine ⟨calls_return tid w (loadBytesDecrypted_calls waits_of_special X path mk keyType),
    fun result w' returned => ?_⟩
  have still : Still (Free env tid) fun now => now = w := still_solo
  obtain ⟨rfl, answers⟩ := (loadBytesDecrypted_spec X (party_solo env tid _) still path mk keyType w
    rfl).returns trivial returned
  exact answers

variable (X) (env) (mk) in
theorem loadSecret32Decrypted_delivers (path : Path) (keyType : String) (tid : Tid) (w : World) :
    Delivers (sem env tid) (loadSecret32Decrypted X path mk keyType) w fun result _ =>
      Answers env ((loadNode X (w.fs.get path) mk keyType).bind (Fixed.fromSlice 32)) result := by
  refine ⟨calls_return tid w (loadSecret32Decrypted_calls waits_of_special X path mk keyType),
    fun result w' returned => ?_⟩
  have still : Still (Free env tid) fun now => now = w := still_solo
  obtain ⟨rfl, answers⟩ := (loadSecret32Decrypted_spec X (party_solo env tid _) still path mk
    keyType w rfl).returns trivial returned
  exact answers

/-- A file that does not open under the key is refused by both loaders. -/
theorem loads_refused {path : Path} {keyType : String} {w : World}
    (refused : ∀ out, loadNode X (w.fs.get path) mk keyType ≠ .ok out) (env : Env) (tid : Tid) :
    Delivers (sem env tid) (loadBytesDecrypted X path mk keyType) w
        (fun result _ => ∃ e, result = .error e) ∧
      Delivers (sem env tid) (loadSecret32Decrypted X path mk keyType) w
        fun result _ => ∃ e, result = .error e := by
  refine ⟨(loadBytesDecrypted_delivers X env mk path keyType tid w).mono ?_,
    (loadSecret32Decrypted_delivers X env mk path keyType tid w).mono ?_⟩
  · intro result _ answers
    exact answers.refused refused
  · intro result _ answers
    refine answers.refused fun secret made => ?_
    obtain ⟨out, loaded, -⟩ := bind_ok made
    exact refused out loaded

/-- A file that opens under the key is delivered by both loaders. -/
theorem loads_delivered {path : Path} {keyType : String} {w : World} {payload : Bytes}
    (loads : loadNode X (w.fs.get path) mk keyType = .ok payload) {env : Env}
    (faultless : env.faults = false) (tid : Tid) :
    Delivers (sem env tid) (loadBytesDecrypted X path mk keyType) w
        (fun result _ => result = .ok payload) ∧
      ∀ secret : Fixed 32, payload = secret.1 →
        Delivers (sem env tid) (loadSecret32Decrypted X path mk keyType) w
          fun result _ => result = .ok secret := by
  refine ⟨(loadBytesDecrypted_delivers X env mk path keyType tid w).mono ?_, ?_⟩
  · intro result _ answers
    rw [answers.calm faultless, loads]
  · rintro secret rfl
    refine (loadSecret32Decrypted_delivers X env mk path keyType tid w).mono ?_
    intro result _ answers
    rw [answers.calm faultless, loads]
    exact dif_pos secret.2

end

end Lithium.Keys
