import Lithium.HexCodec
import Lithium.Keys.Lifetime
import Lithium.Keys.Targets

/-! Callers that meet no fault. A request then fails for a reason of its own or not at all: the
name of a temp file is never taken, a caller that is beaten to the file of a label finds it there
and loads it, and a rotation neither fails nor keeps anybody from being served. -/
namespace Lithium.Keys
open Effects Storage
open Lithium.Crypto (Suite SignatureSuite Context DoubleSig)

/-- No secret of 32 bytes is to be had for the label. -/
def Payloads.Withholds (held : Payloads) (label : Bytes) (e : LithiumError) : Prop :=
  validateSecretLabel label = .error e ∨
    ∃ payload, held.Has label payload ∧ Fixed.fromSlice 32 payload = .error e

/-- What a task may be refused for. It is in what the caller brought along, in what another
caller had stored under the label, or in the ciphertext. -/
def Task.Refused (A : Suite) (held : Payloads) : Task → LithiumError → Prop
  | .secret32 label, e => held.Withholds label e
  | .blob label generate, e => validateSecretLabel label = .error e ∨ generate = .error e
  | .encrypt label plaintext aad, e => held.Withholds label e ∨ ∃ ctx, labelAeadContext = .ok ctx ∧
      e = .aeadFailed ∧ (Crypto.limit < plaintext.length ∨ Crypto.limit < (ctx.bindAad aad).length)
  | .decrypt label ciphertext aad, e => held.Withholds label e ∨ ∃ (dek : Key) (ctx : Context),
      held.Has label dek.1 ∧ labelAeadContext = .ok ctx ∧
        Crypto.decrypt A ciphertext dek ctx aad = .error e
  | .sign _ _, _ => False
  | .rotate, _ => False

/-- A task has come to its end, with what the keyfiles hold. -/
def Task.Settled (A : Suite) (S : SignatureSuite) (held : Payloads) (task : Task) :
    Except LithiumError Bytes → Prop
  | .ok answer => task.Answered A S held answer
  | .error e => task.Refused A held e

section
variable {P : Protocol Calls World} {env : Env} {tid : Tid} {path : Path} {data : Bytes}
  {held after : World → Prop}

theorem ensureParent_among (party : Party P env tid) (still : Still P held)
    (faultless : env.faults = false) (storable : Storable path)
    (parent : ∀ w, held w → PrivateDir w path.tail) :
    Triple P held (ensureParent path) fun result w => held w ∧ result = .ok () := by
  obtain ⟨name, dir, rfl⟩ := storable.exists_cons
  refine observe party still rfl fun reply => ?_
  rintro w ⟨here, seen⟩
  obtain done | ⟨faults, _⟩ := sem_natural (fun _ => rfl) seen
  · obtain rfl : reply = w.fs.symlinkMetadata dir := congrArg Prod.fst done
    obtain ⟨node, found, directory, mode⟩ := parent w here
    have found : w.fs.get dir = some node := found
    simp only [FileSystem.symlinkMetadata, found, Node.metadata, directory, mode]
    exact ⟨here, rfl⟩
  · rw [faultless] at faults
    cases faults

/-- A link that nothing outside prevents fails only where there is a file. -/
theorem sem_hardLink_among {tmp : Path} {w w' : World} {reply : Io Unit}
    (faultless : env.faults = false) (visible : hidden path = false)
    (parent : w.fs.isDir path.tail = true) (there : TmpAt tid tmp (some (privateFile data)) w)
    (step : sem env tid (.hardLink tmp path) w reply w') :
    reply = .ok () ∧ w.view path = none ∧ TmpAt tid tmp (some (privateFile data)) w' ∧
        Step tid (Function.update w.view path (some (privateFile data))) w w' ∨
      reply = .error .alreadyExists ∧ w' = w ∧ w.view path ≠ none := by
  obtain linked | ⟨kind, rfl, rfl, _⟩ := sem_hardLink visible there step
  · exact .inl linked
  · obtain done | ⟨faults, _⟩ := sem_natural (fun _ => rfl) step
    · cases path with
      | nil => cases visible
      | cons name dir =>
        have created : w'.fs.hardLink tmp (name :: dir) =
            w'.fs.create (privateFile data) (name :: dir) := by
          rw [FileSystem.hardLink, there.2]
          exact if_pos rfl
        rw [created] at done
        obtain ⟨_, _, fs, made, _⟩ | ⟨present, refused⟩ | ⟨orphan, _⟩ :=
          w'.fs.create_spec (privateFile data) name dir
        · rw [made] at done
          cases done
        · rw [refused] at done
          cases done
          exact .inr ⟨rfl, rfl, (view_of_visible visible).symm ▸ present⟩
        · exact absurd (parent.symm.trans orphan) (by decide)
    · rw [faultless] at faults
      cases faults

/-- `write_secure_new` puts the file where nothing was, or finds one there. -/
theorem writeSecureNew_among (party : Party P env tid) (faultless : env.faults = false)
    (storable : Storable path)
    (publishes : Publishes P tid path data (fun w => w.view path = none) held after)
    (occupied : Keeps P tid fun w => held w ∧ w.view path ≠ none)
    (room : ∀ w, held w → PrivateDir w path.tail ∧ StampsFree w) :
    Triple P held (writeSecureNew path data) fun result w => match result with
      | .ok _ => after w
      | .error e => e = .io .alreadyExists ∧ held w ∧ w.view path ≠ none := by
  have named : path ≠ [] := by
    rintro rfl
    cases storable.1
  have working : ¬ env.faults = true := by simp [faultless]
  refine Triple.bind (ensureParent_among party publishes.before.still faultless storable
    fun w here => (room w here).1) (fun _ => ?_) fun e w ended => nomatch ended.2
  refine Triple.mono (Triple.bind (createPrivateTmp_among party publishes.before named faultless
    fun w here => ⟨(room w here).1.isDir, (room w here).2⟩) (fun tmp => ?_) ?_) (fun w here => here.1)
    fun _ _ => id
  · refine Triple.mono (Triple.bind (writeTmp_spec party publishes.before tmp data) (fun _ => ?_)
      fun e w ended => absurd ended.2 working) ?_ fun _ _ => id
    · refine Triple.call (fun (reply : Io Unit) w => match reply with
        | .ok _ => after w ∧ TmpAt tid tmp (some (privateFile data)) w
        | .error kind => (held w ∧ w.view path ≠ none) ∧ kind = .alreadyExists ∧
            TmpAt tid tmp (some (privateFile data)) w) ?_ ?_ ?_
      · rintro w w' ⟨here, there⟩ moved inv
        exact ⟨publishes.before.stable _ _ here moved inv, party.tmpAt there moved⟩
      · rintro w ⟨here, there⟩ inv reply w' step
        obtain ⟨rfl, absent, there, put⟩ | ⟨rfl, rfl, present⟩ := sem_hardLink_among faultless
          storable.1 (room w here).1.isDir there (party.meaning step)
        · obtain ⟨kept, change, after⟩ := publishes.put here inv absent put
          exact ⟨kept, change, after, there⟩
        · exact ⟨inv, publishes.before.still.still here inv, ⟨here, present⟩, rfl, there⟩
      · intro reply
        match reply with
        | .ok () =>
          refine stepping_from (.removeFile tmp) _ (fun _ _ => True) party publishes.behind
            (fun there moved => party.tmpAt there moved)
            (fun w _ w' _ there step => ⟨sem_removeFile there step, trivial⟩) fun _ => ?_
          exact (trySyncParent_spec party publishes.behind path).mono (fun _ here => here.1)
            fun _ _ synced => synced.2 ▸ synced.1
        | .error kind =>
          refine stepping_from (.removeFile tmp) _ (fun _ _ => kind = .alreadyExists) party occupied
            (fun there moved => ⟨there.1, party.tmpAt there.2 moved⟩)
            (fun w _ w' _ there step => ⟨sem_removeFile there.2 step, there.1⟩) fun _ => ?_
          refine Triple.done ?_
          rintro w ⟨here, rfl⟩
          exact ⟨rfl, here⟩
    · rintro w ⟨here, tmp', same, made⟩
      cases same
      exact ⟨here, made⟩
  · rintro e w ⟨_, tmp, ⟨⟩, _⟩

end

theorem SeedsHeld.grows {held held' : Payloads} {seeds : Fixed 32 × Fixed 32}
    (here : SeedsHeld held seeds) (grows : held.Grows held') : SeedsHeld held' seeds :=
  ⟨grows _ _ rfl here.1, grows _ _ rfl here.2⟩

theorem holdings_relock (X : Crypto) (cached : Bool) (w : World) (readers : List Tid)
    (writer : Option Tid) : holdings X cached (w.relock readers writer) = holdings X cached w :=
  rfl

theorem live_relock {X : Crypto} {cached : Bool} {keys : Key → Prop} {seeds : Fixed 32 × Fixed 32}
    {w : World}
    (here : (∃ mk, InService X cached mk w ∧ keys mk) ∧ SeedsHeld (holdings X cached w) seeds)
    (readers : List Tid) (writer : Option Tid) :
    (∃ mk, InService X cached mk (w.relock readers writer) ∧ keys mk) ∧
      SeedsHeld (holdings X cached (w.relock readers writer)) seeds := by
  obtain ⟨⟨mk, service, known⟩, seeded⟩ := here
  exact ⟨⟨mk, service.congr (.relock w readers writer) rfl (service.tidy.control _), known⟩, seeded⟩

theorem live_quiet {X : Crypto} {cached : Bool} {keys : Key → Prop} {seeds : Fixed 32 × Fixed 32}
    {i : Tid} {w w' : World}
    (here : (∃ mk, InService X cached mk w ∧ keys mk) ∧ SeedsHeld (holdings X cached w) seeds)
    (step : Step i w.view w w') :
    ((∃ mk, InService X cached mk w' ∧ keys mk) ∧ SeedsHeld (holdings X cached w') seeds) ∧
      Lasts w w' := by
  obtain ⟨⟨mk, service, known⟩, seeded⟩ := here
  have lasts : Lasts w w' := .same (.of_control step.control) step.view
  exact ⟨⟨⟨mk, service.congr lasts.alike step.view (step.tidy service.tidy), known⟩,
    seeded.grows lasts.holdings⟩, lasts⟩

/-- The threads of a manager that no call finds poisoned, and whose store has both signing
seeds. -/
def liveRegime (X : Crypto) (cached : Bool) (env : Tid → Env) (client : Tid → Prop)
    (keys : Key → Prop) (seeds : Fixed 32 × Fixed 32) : Regime Payloads where
  sem i op w reply w' := sem (env i) i op w reply w' ∧ w.control.poisoned = false
  env := env
  client := client
  gated := False
  holds w := (∃ mk, InService X cached mk w ∧ keys mk) ∧ SeedsHeld (holdings X cached w) seeds
  value := holdings X cached
  le := Payloads.Grows
  stays := Lasts
  meaning := And.left
  gate := False.elim
  le_refl := .refl
  le_trans := .trans
  stays_trans := .trans
  stays_relock := .relock
  holds_relock := live_relock
  value_relock := holdings_relock X cached
  grows _ lasts := lasts.holdings
  quiet := live_quiet

/-- A label's file was loaded, or a fresh one was, or the request was refused. -/
def Payloads.Yields {α : Type} (held : Payloads) (label : Bytes) (read : Bytes → Except LithiumError α)
    (refused : LithiumError → Prop) (result : Except LithiumError α) : Prop :=
  (∃ payload, held.Has label payload ∧ result = read payload) ∨
    ∃ e, result = .error e ∧ (validateSecretLabel label = .error e ∨ refused e)

theorem Payloads.Grows.yields {α : Type} {first second : Payloads} {label : Bytes}
    {read : Bytes → Except LithiumError α} {refused : LithiumError → Prop}
    {result : Except LithiumError α} (grows : first.Grows second)
    (here : first.Yields label read refused result) : second.Yields label read refused result :=
  here.imp_left fun ⟨payload, found, same⟩ => ⟨payload, grows.has found, same⟩

theorem label_aad {label : Bytes} (valid : validateSecretLabel label = .ok ()) :
    (aadFor keyfileVersion (labelKeyType label)).length ≤ Crypto.limit := by
  have short := (validateSecretLabel_ok valid).2
  have hex : (Wire.utf8 (labelHex label)).length = 2 * label.length :=
    (congrArg List.length (HexCodec.utf8_hexEncode label)).trans (HexCodec.length_hexEncode label)
  have parts : ∀ one other : String,
      (Wire.utf8 (one ++ other)).length = (Wire.utf8 one).length + (Wire.utf8 other).length := by
    intro one other
    simp [Wire.utf8]
  have front : (Wire.utf8 ("keyfile:v" ++ toString keyfileVersion.toNat ++ "|")).length = 11 := by
    decide +kernel
  have kind : (Wire.utf8 "secret32:").length = 9 := by decide +kernel
  have room : 11 + (9 + 2 * 64) ≤ Crypto.limit := by decide
  calc (aadFor keyfileVersion (labelKeyType label)).length
      = 11 + (9 + 2 * label.length) := by rw [← hex, ← kind, ← parts, ← front, ← parts]; rfl
    _ ≤ Crypto.limit := by omega

section
variable {X : Crypto} {cached : Bool} {env : Tid → Env} {client : Tid → Prop} {keys : Key → Prop}
  {seeds : Fixed 32 × Fixed 32} {i : Tid} {mk : Key} {label : Bytes}

theorem InService.same {mk' : Key} {w : World} (service : InService X cached mk w)
    (other : InService X cached mk' w) : mk' = mk :=
  Option.some.inj (other.sealing.symm.trans service.sealing)

theorem service_keeps : Keeps ((liveRegime X cached env client keys seeds).reader i) i
    (InService X cached mk) where
  stable := by
    rintro w w' service ⟨_, lasts⟩ reading
    obtain ⟨⟨mk', service', _⟩, _⟩ := reading.holds
    have lasts : Lasts w w' := lasts
    have sealing : w'.control.clientMk cached = some mk :=
      (lasts.alike.clientMk cached).trans service.sealing
    rw [service'.sealing] at sealing
    cases sealing
    exact service'
  quiet := by
    intro w w' service reading step
    obtain ⟨holds', stays⟩ := (liveRegime X cached env client keys seeds).quiet reading.holds step
    exact ⟨reading.kept step.control holds', ⟨step.control, stays, fun j apart => .of_step step apart⟩,
      service.congr (.of_control step.control) step.view (step.tidy service.tidy)⟩

theorem service_keeps_and {fact : World → Prop}
    (lasting : ∀ {w w'}, fact w → Lasts w w' → fact w') :
    Keeps ((liveRegime X cached env client keys seeds).reader i) i
      fun w => InService X cached mk w ∧ fact w :=
  service_keeps.and (fun _ here moved _ => lasting here moved.2)
    fun _ here step => lasting here (.same (.of_control step.control) step.view)

theorem Lasts.occupied {path : Path} {w w' : World} (here : w.view path ≠ none) (lasts : Lasts w w') :
    w'.view path ≠ none := by
  obtain ⟨node, there⟩ := Option.ne_none_iff_exists'.mp here
  rw [lasts.files path node there]
  nofun

section
variable (faultless : (env i).faults = false)
include faultless

theorem currentMk_live {fact : World → Prop} (lasting : ∀ {w w'}, fact w → Lasts w w' → fact w') :
    Triple ((liveRegime X cached env client keys seeds).reader i)
      (fun w => InService X cached mk w ∧ fact w) (currentMk cached) fun result w =>
        (InService X cached mk w ∧ fact w) ∧ result = .ok mk := by
  have party : Party _ (env i) i := (liveRegime X cached env client keys seeds).reader_party i
  have calm : ∀ {fact : Prop}, (env i).faults = true → fact := fun faults => by
    rw [faultless] at faults
    cases faults
  cases cached with
  | false =>
    refine observe party (service_keeps_and lasting).still rfl fun reply => Triple.done ?_
    rintro w ⟨here, seen⟩
    obtain ⟨faults, _⟩ | ⟨choice, effected⟩ := sem_cases seen
    · exact calm faults
    · rw [effect, here.1.provided] at effected
      cases effected
      exact ⟨here, rfl⟩
  | true =>
    refine observe party (service_keeps_and lasting).still rfl fun reply => ?_
    rintro w ⟨here, seen⟩
    have cachedMk : w.control.cachedMk = some mk := here.1.sealing
    obtain ⟨faults, _⟩ | ⟨choice, effected⟩ := sem_cases seen
    · exact calm faults
    · rw [effect, cachedMk] at effected
      cases effected
      exact ⟨here, rfl⟩

theorem load_live {α : Type} {load : Prog α} {read : Bytes → Except LithiumError α} {path : Path}
    {keyType : String} {fact : World → Prop} (known : keyTypeOf path = some keyType)
    (lasting : ∀ {w w'}, fact w → Lasts w w' → fact w')
    (present : ∀ w, fact w → w.view path ≠ none)
    (loads : ∀ held, Still ((liveRegime X cached env client keys seeds).reader i) held →
      Triple ((liveRegime X cached env client keys seeds).reader i) held load fun result w =>
        held w ∧ Answers (env i) ((loadNode X (w.fs.get path) mk keyType).bind read) result) :
    Triple ((liveRegime X cached env client keys seeds).reader i)
      (fun w => InService X cached mk w ∧ fact w) load fun result w => (InService X cached mk w ∧ fact w) ∧
        ∃ payload, holdings X cached w path = some payload ∧ result = read payload := by
  refine (loads _ (service_keeps_and lasting).still).weaken ?_
  rintro result w ⟨⟨service, here⟩, answers⟩
  obtain ⟨payload, opens⟩ := (service.opens path keyType known).resolve_left (present w here)
  have natural := answers.calm faultless
  rw [← view_of_visible (live_storable known).1, opens] at natural
  exact ⟨⟨service, here⟩, payload,
    holdings_eq_some.mpr ⟨mk, keyType, service.sealing, known, opens⟩, natural⟩

/-- A fresh record is put in place, or there is a file already. -/
theorem saveNew_live (lawful : X.Lawful) (valid : validateSecretLabel label = .ok ()) {payload : Bytes}
    (fits : payload.length ≤ maxKeyfileSize - 140) :
    Triple ((liveRegime X cached env client keys seeds).reader i) (InService X cached mk)
      (saveNew X .linkNoReplace (labelSecretPath label) mk payload (labelKeyType label))
      fun result w => match result with
        | .ok _ => (holdings X cached w).Has label payload
        | .error e => e = .io .alreadyExists ∧ InService X cached mk w ∧
            w.view (labelSecretPath label) ≠ none := by
  have party : Party _ (env i) i := (liveRegime X cached env client keys seeds).reader_party i
  have within : payload.length ≤ Crypto.limit := fits.trans (by decide)
  refine Triple.bind (encodeEncrypted_spec X party service_keeps.still mk payload _) (fun data => ?_) ?_
  · rintro w ⟨service, draws, answers⟩
    have sealed := answers.ok
    have publishes : Publishes ((liveRegime X cached env client keys seeds).reader i) i (labelSecretPath label)
        data (fun w => w.view (labelSecretPath label) = none) (InService X cached mk)
        fun w => (holdings X cached w).Has label payload := {
      before := service_keeps
      behind := (liveRegime X cached env client keys seeds).reader_keeps fun here lasts =>
        lasts.holdings.has here
      put := by
        intro w w' service reading absent step
        obtain ⟨⟨mk', service', known⟩, seeded⟩ := reading.holds
        cases service.same service'
        obtain ⟨service', lasts, found⟩ := service.put lawful fits sealed absent step
        obtain ⟨mk', sealing, loads⟩ := secretAt_eq_some.mp found
        exact ⟨reading.kept step.control ⟨⟨mk, service', known⟩, seeded.grows lasts.holdings⟩,
          ⟨step.control, lasts, fun j apart => .of_step step apart⟩, valid,
          holdings_eq_some.mpr ⟨mk', _, sealing, keyTypeOf_labelPath label, loads⟩⟩ }
    exact writeSecureNew_among party faultless (labelPath_storable label) publishes
      (service_keeps_and Lasts.occupied) (fun w service => ⟨service.tidy.secrets, service.tidy.fresh⟩)
      w service
  · rintro e w ⟨_, draws, answers⟩
    obtain ⟨data, sealed⟩ : ∃ data, sealRecord X mk payload (labelKeyType label) draws = .ok data :=
      sealRecord_within lawful draws (label_aad valid) within
    rw [sealed] at answers
    exact absurd answers.faulted (by simp [faultless])

end

/-- Both label operations: the file is loaded if it is there, and otherwise created, unless
another thread is first, whose file is then loaded. -/
theorem loadOrCreate_live {α : Type} {load draw : Prog α} {save : α → Prog Unit}
    {read : Bytes → Except LithiumError α} (bytes : α → Bytes) (drawn : α → Prop)
    (refused : LithiumError → Prop)
    (loads : Triple ((liveRegime X cached env client keys seeds).reader i)
      (fun w => InService X cached mk w ∧ w.view (labelSecretPath label) ≠ none) load fun result w =>
        (InService X cached mk w ∧ w.view (labelSecretPath label) ≠ none) ∧
        ∃ payload, holdings X cached w (labelSecretPath label) = some payload ∧ result = read payload)
    (draws : Triple ((liveRegime X cached env client keys seeds).reader i) (InService X cached mk) draw
      fun result w => (∃ value, drawn value ∧ result = .ok value ∧ InService X cached mk w) ∨
        ∃ e, refused e ∧ result = .error e)
    (saves : validateSecretLabel label = .ok () → ∀ value, drawn value →
      Triple ((liveRegime X cached env client keys seeds).reader i) (InService X cached mk) (save value)
        fun result w => match result with
          | .ok _ => (holdings X cached w).Has label (bytes value)
          | .error e => e = .io .alreadyExists ∧ InService X cached mk w ∧
              w.view (labelSecretPath label) ≠ none)
    (reads : ∀ value, read (bytes value) = .ok value) :
    Triple ((liveRegime X cached env client keys seeds).reader i) (InService X cached mk)
      (loadOrCreate label load draw save) fun result w =>
        (holdings X cached w).Yields label read refused result := by
  have party : Party _ (env i) i := (liveRegime X cached env client keys seeds).reader_party i
  unfold loadOrCreate
  cases valid : validateSecretLabel label with
  | error e => exact Triple.done fun w _ => .inr ⟨e, rfl, .inl valid⟩
  | ok _ =>
    have loaded : Triple ((liveRegime X cached env client keys seeds).reader i)
        (fun w => InService X cached mk w ∧ w.view (labelSecretPath label) ≠ none) load fun result w =>
          (holdings X cached w).Yields label read refused result :=
      loads.weaken fun result w ⟨_, payload, found, same⟩ => .inl ⟨payload, ⟨valid, found⟩, same⟩
    rw [Program.bind_eq, Program.done_ok_bind]
    refine Triple.bind (pathExists_spec party service_keeps.still _) (fun there => ?_)
      fun e w ended => absurd ended.2 (by simp)
    cases there with
    | true =>
      refine loaded.mono (fun w here => ⟨here.1, ?_⟩) fun _ _ => id
      obtain ⟨service, seen⟩ := here
      have seen := seen.resolve_right (by simp)
      rw [view_of_visible (labelPath_storable label).1]
      intro absent
      rw [FileSystem.stat, absent] at seen
      cases seen
    | false =>
      refine Triple.mono (Triple.bind draws (fun value => ?_) ?_) (fun w here => here.1) fun _ _ => id
      · rintro w (⟨_, fresh, ⟨⟩, service⟩ | ⟨e, _, ⟨⟩⟩)
        refine Triple.attempt_bind (saves valid value fresh) (fun saved => ?_) w service
        cases saved with
        | ok _ => exact Triple.done fun w found => .inl ⟨bytes value, found, (reads value).symm⟩
        | error e =>
          rintro w ⟨rfl, here⟩
          exact loaded w here
      · rintro e w (⟨_, _, ⟨⟩, _⟩ | ⟨_, why, ⟨⟩⟩)
        exact .inr ⟨e, rfl, .inr why⟩

theorem secret32_live (faultless : (env i).faults = false) (lawful : X.Lawful) :
    Triple ((liveRegime X cached env client keys seeds).reader i) (InService X cached mk) (do
      let mk ← currentMk cached
      loadOrCreateLabelSecret32 X mk label .linkNoReplace) fun result w =>
        (holdings X cached w).Yields label (Fixed.fromSlice 32) (fun _ => False) result := by
  have party : Party _ (env i) i := (liveRegime X cached env client keys seeds).reader_party i
  have draws : Triple ((liveRegime X cached env client keys seeds).reader i) (InService X cached mk)
      (randomFixed .secret32) fun result w => (∃ secret, True ∧ result = .ok secret ∧
        InService X cached mk w) ∨ ∃ e, False ∧ result = .error e := by
    refine (randomFixed_spec party service_keeps.still .secret32).weaken ?_
    rintro (e | secret) w ⟨service, drawn⟩
    · exact absurd drawn (by simp [faultless])
    · exact .inl ⟨secret, trivial, rfl, service⟩
  refine Triple.mono (Triple.bind (currentMk_live faultless fun _ _ => trivial) (fun _ => ?_)
    fun e w ended => nomatch ended.2) (fun w service => ⟨service, trivial⟩) fun _ _ => id
  rintro w ⟨⟨service, _⟩, ⟨⟩⟩
  rw [loadOrCreateLabelSecret32_eq]
  refine loadOrCreate_live Subtype.val (fun _ => True) (fun _ => False) ?_ draws (fun valid secret _ => ?_) Fixed.fromSlice_val w service
  · exact load_live faultless (keyTypeOf_labelPath label) Lasts.occupied (fun _ => id) fun held still =>
      loadSecret32Decrypted_spec X party still _ mk _
  · refine saveNew_live faultless lawful valid ?_
    rw [secret.2]
    decide

theorem blob_live (faultless : (env i).faults = false) (lawful : X.Lawful)
    {generate : Except LithiumError Bytes}
    (fits : ∀ payload, generate = .ok payload → payload.length ≤ maxKeyfileSize - 140) :
    Triple ((liveRegime X cached env client keys seeds).reader i) (InService X cached mk) (do
      let mk ← currentMk cached
      loadOrCreateLabelBytes X mk label generate .linkNoReplace) fun result w =>
        (holdings X cached w).Yields label .ok (fun e => generate = .error e) result := by
  have party : Party _ (env i) i := (liveRegime X cached env client keys seeds).reader_party i
  have draws : Triple ((liveRegime X cached env client keys seeds).reader i) (InService X cached mk)
      (Program.done generate) fun result w => (∃ payload, generate = .ok payload ∧ result = .ok payload ∧
        InService X cached mk w) ∨ ∃ e, generate = .error e ∧ result = .error e := by
    cases generate with
    | ok payload => exact Triple.done fun w service => .inl ⟨payload, rfl, rfl, service⟩
    | error e => exact Triple.done fun w _ => .inr ⟨e, rfl, rfl⟩
  refine Triple.mono (Triple.bind (currentMk_live faultless fun _ _ => trivial) (fun _ => ?_)
    fun e w ended => nomatch ended.2) (fun w service => ⟨service, trivial⟩) fun _ _ => id
  rintro w ⟨⟨service, _⟩, ⟨⟩⟩
  rw [loadOrCreateLabelBytes_eq]
  refine loadOrCreate_live id (generate = .ok ·) (generate = .error ·) ?_ draws (fun valid payload generated => ?_) (fun _ => rfl) w service
  · exact load_live faultless (keyTypeOf_labelPath label) Lasts.occupied (fun _ => id) fun held still =>
      loadBytesDecrypted_whole X party still _ mk _
  · exact saveNew_live faultless lawful valid (fits payload generated)

theorem present_of_holdings {path : Path} {payload : Bytes} {w : World}
    (found : holdings X cached w path = some payload) : w.view path ≠ none := by
  obtain ⟨mk, keyType, _, _, loads⟩ := holdings_eq_some.mp found
  obtain ⟨node, _, there, _⟩ := loadNode_ok loads
  rw [there]
  nofun

theorem arenaClaim_live {α : Type} {len : Nat} {held : World → Prop} {rest : Prog α}
    {post : Except LithiumError α → World → Prop} (faultless : (env i).faults = false)
    (still : Still ((liveRegime X cached env client keys seeds).reader i) held)
    (works : Triple ((liveRegime X cached env client keys seeds).reader i) held rest post) :
    Triple ((liveRegime X cached env client keys seeds).reader i) held
      ((call (.arenaClaim len)).bind fun claimed =>
        (Program.done claimed : Prog Unit).bind fun _ => rest) post := by
  have party : Party _ (env i) i := (liveRegime X cached env client keys seeds).reader_party i
  refine observe party still rfl fun claimed => ?_
  rintro w ⟨here, seen⟩
  obtain done | ⟨faults, _⟩ := sem_natural (fun _ => rfl) seen
  · cases done
    exact works w here
  · rw [faultless] at faults
    cases faults

theorem signingSeeds_live (faultless : (env i).faults = false) :
    Triple ((liveRegime X cached env client keys seeds).reader i)
      (fun w => InService X cached mk w ∧ SeedsHeld (holdings X cached w) seeds) (do
      let mk ← currentMk cached
      let edSeed ← loadSecret32Decrypted X edPriv mk ktEdSeed
      let diliSeed ← loadBytesDecrypted X diliPriv mk ktDiliSeed
      Program.done (← call (.arenaClaim 32))
      let diliSeed ← Program.done (Fixed.fromSlice 32 diliSeed)
      Program.done (← call (.arenaClaim 32))
      return (edSeed, diliSeed)) fun result w =>
        SeedsHeld (holdings X cached w) seeds ∧ result = .ok seeds := by
  have party : Party _ (env i) i := (liveRegime X cached env client keys seeds).reader_party i
  have lasting : ∀ {w w'}, SeedsHeld (holdings X cached w) seeds → Lasts w w' →
      SeedsHeld (holdings X cached w') seeds := fun here lasts => here.grows lasts.holdings
  have keeps : Keeps ((liveRegime X cached env client keys seeds).reader i) i
      fun w => SeedsHeld (holdings X cached w) seeds :=
    (liveRegime X cached env client keys seeds).reader_keeps lasting
  refine Triple.bind (currentMk_live faultless lasting) (fun _ => ?_) fun e w ended => nomatch ended.2
  rintro w ⟨here, ⟨⟩⟩
  refine Triple.bind (load_live faultless (by decide) lasting (fun w seeded => present_of_holdings seeded.1)
    fun held still => loadSecret32Decrypted_spec X party still edPriv mk ktEdSeed) (fun edSeed => ?_) ?_ w here
  · rintro w ⟨⟨service, seeded⟩, payload, found, same⟩
    cases seeded.1.symm.trans found
    cases same.trans (Fixed.fromSlice_val seeds.1)
    refine Triple.bind (load_live faultless (by decide) lasting (fun w seeded => present_of_holdings seeded.2)
      fun held still => loadBytesDecrypted_whole X party still diliPriv mk ktDiliSeed) (fun diliSeed => ?_)
      ?_ w ⟨service, seeded⟩
    · rintro w ⟨⟨service, seeded⟩, payload, found, same⟩
      cases seeded.2.symm.trans found
      cases same
      refine arenaClaim_live faultless keeps.still ?_ w seeded
      rw [Fixed.fromSlice_val]
      refine arenaClaim_live faultless keeps.still (Triple.done fun w seeded => ⟨seeded, rfl⟩)
    · rintro e w ⟨_, payload, _, ⟨⟩⟩
  · rintro e w ⟨⟨_, seeded⟩, payload, found, same⟩
    cases seeded.1.symm.trans found
    cases same.trans (Fixed.fromSlice_val seeds.1)

end

namespace Payloads
variable {held held' : Payloads} {label : Bytes} {e : LithiumError}

theorem Yields.has {secret : Fixed 32}
    (here : held.Yields label (Fixed.fromSlice 32) (fun _ => False) (.ok secret)) :
    held.Has label secret.1 := by
  obtain ⟨payload, found, same⟩ | ⟨e, ⟨⟩, _⟩ := here
  rw [← Fixed.fromSlice_eq_ok.mp same.symm]
  exact found

theorem Yields.withholds
    (here : held.Yields label (Fixed.fromSlice 32) (fun _ => False) (.error e)) :
    held.Withholds label e := by
  obtain ⟨payload, found, same⟩ | ⟨e, ⟨⟩, invalid | none⟩ := here
  · exact .inr ⟨payload, found, same.symm⟩
  · exact .inl invalid
  · exact none.elim

theorem Grows.withholds (grows : held.Grows held') (here : held.Withholds label e) :
    held'.Withholds label e :=
  here.imp_right fun ⟨payload, found, failed⟩ => ⟨payload, grows.has found, failed⟩

theorem Grows.settled {A : Suite} {S : SignatureSuite} {task : Task} {result : Except LithiumError Bytes}
    (grows : held.Grows held') (here : task.Settled A S held result) :
    task.Settled A S held' result := by
  cases result with
  | ok answer => exact grows.answered here
  | error e =>
    cases task with
    | secret32 label => exact grows.withholds here
    | blob label generate => exact here
    | encrypt label plaintext aad => exact here.imp_left grows.withholds
    | decrypt label ciphertext aad =>
      exact here.imp grows.withholds fun ⟨dek, ctx, found, made, failed⟩ =>
        ⟨dek, ctx, grows.has found, made, failed⟩
    | sign message ctx => exact here
    | rotate => exact here

end Payloads

section
variable {X : Crypto} {cached : Bool} {env : Tid → Env} {client : Tid → Prop} {keys : Key → Prop}
  {seeds : Fixed 32 × Fixed 32} {i : Tid} {label : Bytes}

theorem withReadGate_live {α : Type} {body : Prog α} (final : Except LithiumError α → Payloads → Prop)
    (works : ∀ mk, Triple ((liveRegime X cached env client keys seeds).reader i)
      (fun w => InService X cached mk w ∧ SeedsHeld (holdings X cached w) seeds) body
      fun result w => final result (holdings X cached w))
    (lasting : ∀ {result held held'}, final result held → held.Grows held' → final result held') :
    Triple ((liveRegime X cached env client keys seeds).thread i) (fun v => Outside i v.1)
      (withReadGate body) fun result v => Outside i v.1 ∧ final result v.2 := by
  have worked : ∀ w, (liveRegime X cached env client keys seeds).Reading i w →
      Meets ((liveRegime X cached env client keys seeds).reader i)
        (fun result w => final result (holdings X cached w)) body w := by
    intro w reading
    obtain ⟨⟨mk, service, _⟩, seeded⟩ := reading.holds
    exact works mk w ⟨service, seeded⟩
  refine Regime.withReadGate_settles final worked (fun here lasts => lasting here lasts.holdings) ?_
    fun here _ => here
  rintro w w' ⟨seen, live⟩
  rw [← (sem_isPoisoned seen).1] at live
  cases live

theorem getOrCreateSecret32_live (faultless : (env i).faults = false) (lawful : X.Lawful) :
    Triple ((liveRegime X cached env client keys seeds).thread i) (fun v => Outside i v.1)
      (getOrCreateSecret32 X cached .linkNoReplace label) fun result v => Outside i v.1 ∧
        v.2.Yields label (Fixed.fromSlice 32) (fun _ => False) result :=
  withReadGate_live (fun result held => held.Yields label (Fixed.fromSlice 32) (fun _ => False) result)
    (fun _ => (secret32_live faultless lawful).mono (fun _ here => here.1) fun _ _ => id)
    fun here grows => grows.yields here

end

section
variable {A : Suite} {S : SignatureSuite} {cached : Bool} {env : Tid → Env} {client : Tid → Prop}
  {keys : Key → Prop} {seeds : Fixed 32 × Fixed 32} {i : Tid}

theorem labelAeadContext_ok : ∃ ctx, labelAeadContext = .ok ctx := ⟨_, rfl⟩

/-- What follows the secret of a label outside the lock. -/
theorem label_live {label : Bytes} {task : Task} {rest : Key → Prog Bytes}
    (faultless : (env i).faults = false) (lawful : (storeCrypto A S).Lawful)
    (withheld : ∀ held e, held.Withholds label e → task.Refused A held e)
    (follows : ∀ dek : Key, Triple ((liveRegime (storeCrypto A S) cached env client keys seeds).thread i)
      (fun v => Outside i v.1 ∧ v.2.Has label dek.1) (rest dek) fun result v =>
        Outside i v.1 ∧ task.Settled A S v.2 result) :
    Triple ((liveRegime (storeCrypto A S) cached env client keys seeds).thread i)
      (fun v => Outside i v.1)
      ((getOrCreateSecret32 (storeCrypto A S) cached .linkNoReplace label).bind rest) fun result v =>
        Outside i v.1 ∧ task.Settled A S v.2 result := by
  refine Triple.bind (getOrCreateSecret32_live faultless lawful) (fun dek => ?_) fun e v here =>
    ⟨here.1, withheld v.2 e here.2.withholds⟩
  exact (follows dek).mono (fun v here => ⟨here.1, here.2.has⟩) fun _ _ => id

/-- Only what is too long is not sealed. -/
theorem encryptFramed_failed (lawful : (storeCrypto A S).Lawful) {plaintext aad : Bytes} {dek : Key}
    {nonce : Nonce} {ctx : Context} {e : LithiumError}
    (failed : Crypto.encryptFramed A plaintext dek nonce ctx aad = .error e) :
    e = .aeadFailed ∧ (Crypto.limit < plaintext.length ∨ Crypto.limit < (ctx.bindAad aad).length) := by
  cases raw : A.encryptRaw dek nonce (ctx.bindAad aad) plaintext with
  | some ct =>
    rw [Crypto.encryptFramed, Lithium.Crypto.encryptRaw, raw] at failed
    cases failed
  | none =>
    rw [Crypto.encryptFramed, Lithium.Crypto.encryptRaw, raw] at failed
    cases failed
    refine ⟨rfl, ?_⟩
    by_contra short
    rw [not_or, not_lt, not_lt] at short
    have sealed : (A.encryptRaw dek nonce (ctx.bindAad aad) plaintext).isSome = true :=
      lawful.encrypt_within dek nonce short.2 short.1
    rw [raw] at sealed
    cases sealed

theorem encrypt_live (faultless : (env i).faults = false) (lawful : (storeCrypto A S).Lawful)
    (label plaintext aad : Bytes) :
    Triple ((liveRegime (storeCrypto A S) cached env client keys seeds).thread i)
      (fun v => Outside i v.1) (encryptWithLabel A S cached .linkNoReplace label plaintext aad)
      fun result v => Outside i v.1 ∧ (Task.encrypt label plaintext aad).Settled A S v.2 result := by
  refine label_live faultless lawful (fun _ _ => .inl) fun dek => ?_
  obtain ⟨ctx, made⟩ := labelAeadContext_ok
  rw [made]
  have drawn : Triple ((liveRegime (storeCrypto A S) cached env client keys seeds).thread i)
      (fun v => Outside i v.1 ∧ v.2.Has label dek.1) (randomFixed .nonce) fun result v =>
        (Outside i v.1 ∧ v.2.Has label dek.1) ∧ ∃ nonce, result = .ok nonce := by
    refine Regime.looks (fun held : Payloads => held.Has label dek.1) rfl
      (fun here grows => grows.has here) fun reply ⟨w, w', seen⟩ => ?_
    cases reply with
    | none => exact absurd (faults_of_undrawn seen.1) (by simp [faultless])
    | some nonce => exact Triple.done fun v here => ⟨here, nonce, rfl⟩
  refine Triple.attempt_bind drawn fun result => Triple.done ?_
  rintro v ⟨⟨outside, found⟩, nonce, rfl⟩
  refine ⟨outside, ?_⟩
  show Task.Settled A S v.2 _ (Crypto.encryptFramed A plaintext dek nonce ctx aad)
  cases sealed : Crypto.encryptFramed A plaintext dek nonce ctx aad with
  | ok answer => exact ⟨dek, ctx, nonce, found, made, sealed⟩
  | error e => exact .inr ⟨ctx, made, encryptFramed_failed lawful sealed⟩

theorem decrypt_live (faultless : (env i).faults = false) (lawful : (storeCrypto A S).Lawful)
    (label ciphertext aad : Bytes) :
    Triple ((liveRegime (storeCrypto A S) cached env client keys seeds).thread i)
      (fun v => Outside i v.1) (decryptWithLabel A S cached .linkNoReplace label ciphertext aad)
      fun result v => Outside i v.1 ∧ (Task.decrypt label ciphertext aad).Settled A S v.2 result := by
  refine label_live faultless lawful (fun _ _ => .inl) fun dek => ?_
  obtain ⟨ctx, made⟩ := labelAeadContext_ok
  rw [made]
  refine Triple.done fun v here => ⟨here.1, ?_⟩
  cases opened : Crypto.decrypt A ciphertext dek ctx aad with
  | ok answer => exact ⟨dek, ctx, here.2, made, opened⟩
  | error e => exact .inr ⟨dek, ctx, here.2, made, opened⟩

theorem sign_live (faultless : (env i).faults = false) (message : Bytes) (ctx : Context) :
    Triple ((liveRegime (storeCrypto A S) cached env client keys seeds).thread i)
      (fun v => Outside i v.1) ((Task.sign message ctx).program A S cached .linkNoReplace)
      fun result v => Outside i v.1 ∧ (Task.sign message ctx).Settled A S v.2 result := by
  have loaded : Triple ((liveRegime (storeCrypto A S) cached env client keys seeds).thread i)
      (fun v => Outside i v.1) (signingSeeds (storeCrypto A S) cached) fun result v =>
        Outside i v.1 ∧ SeedsHeld v.2 seeds ∧ result = .ok seeds :=
    withReadGate_live (fun result held => SeedsHeld held seeds ∧ result = .ok seeds)
      (fun _ => signingSeeds_live faultless) fun here grows => ⟨here.1.grows grows, here.2⟩
  have signed : Triple ((liveRegime (storeCrypto A S) cached env client keys seeds).thread i)
      (fun v => Outside i v.1) (signDouble A S cached message ctx) fun result v =>
        Outside i v.1 ∧ SeedsHeld v.2 seeds ∧ result = Crypto.signDouble S message seeds.1.1 seeds.2.1 ctx := by
    refine Triple.bind loaded (fun value => ?_) fun e v here => nomatch here.2.2
    rintro v ⟨outside, seeded, ⟨⟩⟩
    exact ⟨outside, seeded, rfl⟩
  refine Triple.bind signed (fun sig => Triple.done ?_) ?_
  · rintro v ⟨outside, seeded, same⟩
    exact ⟨outside, seeds.1, seeds.2, sig, seeded.1, seeded.2, same.symm, rfl⟩
  · rintro e v ⟨_, _, same⟩
    rw [Crypto.signDouble_eq] at same
    cases same

theorem Task.client_live (faultless : (env i).faults = false) (lawful : (storeCrypto A S).Lawful)
    {task : Task} (fits : task.Fits) (other : task ≠ .rotate) :
    Triple ((liveRegime (storeCrypto A S) cached env client keys seeds).thread i)
      (fun v => Outside i v.1) (task.program A S cached .linkNoReplace) fun result v =>
        Outside i v.1 ∧ task.Settled A S v.2 result := by
  cases task with
  | secret32 label =>
    exact label_live faultless lawful (fun _ _ => id) fun secret =>
      Triple.done fun v here => ⟨here.1, here.2, secret.2⟩
  | blob label generate =>
    have fit : ∀ payload, generate = .ok payload → payload.length ≤ maxKeyfileSize - 140 := by
      rintro payload rfl
      exact fits
    refine (withReadGate_live (fun result held => held.Yields label .ok (generate = .error ·) result)
      (fun _ => (blob_live faultless lawful fit).mono (fun _ here => here.1) fun _ _ => id)
      fun here grows => grows.yields here).weaken ?_
    rintro result v ⟨outside, ⟨payload, found, rfl⟩ | ⟨e, rfl, why⟩⟩
    · exact ⟨outside, found⟩
    · exact ⟨outside, why⟩
  | encrypt label plaintext aad => exact encrypt_live faultless lawful label plaintext aad
  | decrypt label ciphertext aad => exact decrypt_live faultless lawful label ciphertext aad
  | sign message ctx => exact sign_live faultless message ctx
  | rotate => exact absurd rfl other

end

def Env.widened (env : Env) : Env := { env with masterKey := fun _ _ => true }

theorem sem_widened {env : Env} {tid : Tid} {op : Op} {w w' : World} {reply : Reply op}
    (step : sem env tid op w reply w') : sem env.widened tid op w reply w' := by
  obtain ⟨choice, stepped⟩ := step
  refine ⟨choice, ?_⟩
  unfold exec at stepped ⊢
  split at stepped
  · exact stepped
  · cases op with
    | random use =>
      cases use with
      | masterKey =>
        simp only [effect] at stepped ⊢
        split at stepped
        · next fits =>
          split at stepped
          · rw [dif_pos fits, if_pos (by rfl)]
            exact stepped
          · cases stepped
        · cases stepped
      | _ => exact stepped
    | _ => exact stepped

section
variable {X : Crypto} {cached : Bool} {mk : Key} {env : Env} {tid : Tid} {w w' : World}

/-- A fault-free rotation never poisons the manager: what is poisoned stays so, and wherever the
rotation is, it could go on to an end at which the manager is not. -/
theorem InService.rotation_live (lawful : X.Lawful) (faultless : env.faults = false)
    (service : InService X cached mk w)
    (stopped : Stops (sem env tid) (rotateLocked X cached) w w') : w'.control.poisoned = false := by
  obtain ⟨rest, ops, path⟩ := stopped
  have calls : (rotateLocked X cached).Calls fun op => waits op = false ∨ op = Op.random .masterKey :=
    rotateLocked_calls (fun op free => .inl (waits_of_special op free)) (fun _ => .inl rfl)
      (fun _ => .inl rfl) X (.inr rfl) (.inl rfl) cached
  have quiet : env.widened.faults = false := faultless
  obtain ⟨result, last, more, returned⟩ : ∃ result last, Returns (sem env.widened tid) rest w' result last :=
    calls_return_drawing tid w' (fun _ => ⟨uniform 0, rfl⟩) (path.calls calls)
  obtain ⟨strong, start, meets⟩ := rotateLocked_inService lawful quiet tid service
  obtain ⟨⟨mk', service'⟩, _⟩ :=
    meets.returns start ⟨ops ++ more, (path.among sem_widened).trans returned⟩
  cases poisoned : w'.control.poisoned with
  | false => rfl
  | true =>
    have still : last.control.poisoned = true :=
      returned.preserves (fun w => w.control.poisoned = true) sem_poisoned poisoned
    exact still.symm.trans service'.live

end

section
variable {A : Suite} {S : SignatureSuite} {cached : Bool} {env : Tid → Env} {keys : Key → Prop}
  {seeds : Fixed 32 × Fixed 32} {tasks : Tid → Task} {mk : Key} {w : World}
  {s : System Calls World LithiumError Bytes Tid}

theorem rotating_live (lawful : (storeCrypto A S).Lawful) (separated : Separated (storeCrypto A S) keys)
    (callers : Callers env tasks keys) {i : Tid} (rotation : tasks i = .rotate) :
    Triple ((liveRegime (storeCrypto A S) cached env (fun i => tasks i ≠ .rotate) keys seeds).thread i)
      (fun v => Outside i v.1) (rotating (storeCrypto A S) cached) fun result v =>
        Outside i v.1 ∧ Task.Settled A S v.2 .rotate result := by
  have rotated : Triple
      ((liveRegime (storeCrypto A S) cached env (fun i => tasks i ≠ .rotate) keys seeds).thread i)
      (fun v => Outside i v.1) (rotateNow (storeCrypto A S) cached) fun result v =>
        Outside i v.1 ∧ result = .ok () := by
    refine Regime.rotateNow_settles (· = .ok ()) (fun client => client rotation) ?_
    rintro w w' ⟨⟨mk, service, known⟩, seeded⟩ ⟨step, _⟩
    obtain rfl : w' = w.lockedBy i := (sem_lockWrite step).2
    refine ⟨_, (service.locked i).sound known, ((rotateLocked_usage lawful
      (Custody.plain_upheld separated (callers.fresh i)) (callers.faultless i rotation) i
      (service.locked i) known).fewer And.left).mono ?_⟩
    rintro result last ⟨⟨serving, grows⟩, done⟩
    exact ⟨⟨⟨serving, seeded.grows grows⟩, grows⟩, done⟩
  refine Triple.bind rotated (fun _ => Triple.done fun v here => ⟨here.1, trivial⟩) ?_
  rintro e v ⟨_, ⟨⟩⟩

/-- No call of a run without faults finds the manager poisoned. -/
theorem Callers.live (lawful : (storeCrypto A S).Lawful) (separated : Separated (storeCrypto A S) keys)
    (callers : Callers env tasks keys) (service : InService (storeCrypto A S) cached mk w)
    (known : keys mk) (unlocked : w.control.writer = none ∧ w.control.readers = [])
    (run : Interleaves (fun i => sem (env i) i)
      ⟨fun i => (tasks i).program A S cached .linkNoReplace, w⟩ s) :
    s.world.control.poisoned = false := by
  obtain ⟨_, _, idle, _, atWork⟩ := callers.reached lawful separated service known unlocked run
  cases writer : s.world.control.writer with
  | none =>
    obtain ⟨_, mk', service', _⟩ := idle writer
    exact service'.live
  | some i =>
    obtain ⟨rotation, w', mk', ⟨service', _⟩, _, stopped⟩ := atWork i writer
    exact service'.rotation_live lawful (callers.faultless i rotation) stopped

theorem Callers.live_run (lawful : (storeCrypto A S).Lawful)
    (separated : Separated (storeCrypto A S) keys) (callers : Callers env tasks keys)
    (service : InService (storeCrypto A S) cached mk w) (known : keys mk)
    (unlocked : w.control.writer = none ∧ w.control.readers = [])
    (run : Interleaves (fun i => sem (env i) i)
      ⟨fun i => (tasks i).program A S cached .linkNoReplace, w⟩ s) (client : Tid → Prop) :
    Interleaves (liveRegime (storeCrypto A S) cached env client keys seeds).sem
      ⟨fun i => (tasks i).program A S cached .linkNoReplace, w⟩ s := by
  induction run with
  | refl => exact .refl
  | tail before moved ih =>
    have live := callers.live lawful separated service known unlocked before
    obtain ⟨i, @⟨threads, w, w', op, next, reply, pending, called⟩⟩ := moved
    exact ih.tail ⟨i, .call pending ⟨called, live⟩⟩

/-- Where no call fails and the arena has room for every claim, every request that has returned was
settled. -/
theorem Callers.settled (lawful : (storeCrypto A S).Lawful)
    (separated : Separated (storeCrypto A S) keys) (callers : Callers env tasks keys)
    (faultless : ∀ i, (env i).faults = false) (service : InService (storeCrypto A S) cached mk w)
    (known : keys mk) (seeded : SeedsHeld (holdings (storeCrypto A S) cached w) seeds)
    (unlocked : w.control.writer = none ∧ w.control.readers = [])
    (run : Interleaves (fun i => sem (env i) i)
      ⟨fun i => (tasks i).program A S cached .linkNoReplace, w⟩ s) :
    ∃ held : Payloads, (holdings (storeCrypto A S) cached w).Grows held ∧
      Sound (storeCrypto A S) (.plain keys) held False s.world ∧
      (s.world.control.writer = none → held = holdings (storeCrypto A S) cached s.world) ∧
      ∀ i result, s.threads i = .done result → (tasks i).Settled A S held result := by
  have specs : ∀ i, Triple
      ((liveRegime (storeCrypto A S) cached env (fun i => tasks i ≠ .rotate) keys seeds).thread i)
      (fun v => Outside i v.1) ((tasks i).program A S cached .linkNoReplace) fun result v =>
        Outside i v.1 ∧ (tasks i).Settled A S v.2 result := by
    intro i
    by_cases rotation : tasks i = .rotate
    · rw [rotation]
      exact rotating_live lawful separated callers rotation
    · exact Task.client_live (faultless i) lawful (callers.fits i) rotation
  have rotations : ∀ i, tasks i = .rotate → (tasks i).program A S cached .linkNoReplace =
      rotating (storeCrypto A S) cached := fun i rotation => by rw [rotation]; rfl
  have start : (liveRegime (storeCrypto A S) cached env (fun i => tasks i ≠ .rotate) keys seeds).holds w :=
    ⟨⟨mk, service, known⟩, seeded⟩
  obtain ⟨held, ⟨inv, grown⟩, underway, atWork⟩ := Regime.reachable
    (fun i result held => (tasks i).Settled A S held result) specs rotations
    (fun i other => Task.client_reads other _) start unlocked
    (callers.live_run lawful separated service known unlocked run _)
  have serving : s.world.control.writer = none → held = holdings (storeCrypto A S) cached s.world ∧
      ∃ mk, InService (storeCrypto A S) cached mk s.world ∧ keys mk := fun idle =>
    ⟨(inv.rest idle).2, (inv.rest idle).1.1⟩
  refine ⟨held, grown, callers.sound lawful separated serving fun i writer => ?_,
    fun idle => (serving idle).1, fun i result finished => ?_⟩
  · obtain ⟨rotation, w', ⟨⟨mk', service', known'⟩, _⟩, valued, rest, ops, path⟩ := atWork i writer
    have valued : held = holdings (storeCrypto A S) cached w' := valued
    exact ⟨rotation, w', mk', ⟨service'.locked i, known'⟩, valued.trans service'.holdings, rest, ops,
      path.among And.left⟩
  · exact (underway.returned finished fun v v' here moved =>
      ⟨moved.outside here.1, Payloads.Grows.settled moved.grown here.2⟩).2

end
end Lithium.Keys
