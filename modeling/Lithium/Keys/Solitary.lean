import Lithium.Keys.Client
import Lithium.Keys.Rounds

/-! Label operations of a thread that runs alone: a label's file is loaded as it is, or a
fresh record is put where nothing was, or nothing changes. -/
namespace Lithium.Keys
open Effects Storage

/-- Since `origin` the view has become `v`, and what the threads share is the same. -/
structure Leaves (origin : World) (v : View) (w : World) : Prop where
  view : w.view = v
  control : w.control = origin.control
  tidy : Tidy origin → Tidy w
  dirs : ∀ dir, PrivateDir origin dir → PrivateDir w dir

def Control.clientMk (control : Control) (cached : Bool) : Option Key :=
  if cached then control.cachedMk else control.providerMk

def World.readBy (w : World) (tid : Tid) : World :=
  { w with control := { w.control with readers := tid :: w.control.readers } }

/-- `exists()` sees nothing at this path. -/
def Unseen (v : View) (path : Path) : Prop := ∀ node, v path = some node → node.ftype = .symlink

/-- A fresh record for the label is put in place. -/
def Created (X : Crypto) (mk : Key) (label payload : Bytes) (before after : View) : Prop :=
  ∃ draws data, sealRecord X mk payload (labelKeyType label) draws = .ok data ∧
    after = Function.update before (labelSecretPath label) (some (privateFile data))

/-- How an operation on a label ends whose values have these bytes: what it returns is in
the label's file, or there was no file and one is made for it. -/
def Served {α : Type} (X : Crypto) (mk : Key) (label : Bytes) (bytes : α → Bytes) (before : View)
    (result : Except LithiumError α) (after : View) : Prop :=
  (after = before ∧ ∀ value, result = .ok value →
    loadNode X (before (labelSecretPath label)) mk (labelKeyType label) = .ok (bytes value)) ∨
  Unseen before (labelSecretPath label) ∧
    ∃ value, result = .ok value ∧ Created X mk label (bytes value) before after

section
variable {X : Crypto} {env : Env} {tid : Tid} {origin : World} {v : View} {cached : Bool} {mk : Key}
  {label : Bytes} {mode : CreateNewMode} {α : Type}

theorem leaves_steady : Steady tid (Leaves origin v) := by
  intro w w' here step
  exact ⟨step.view.trans here.view, step.control.trans here.control,
    fun tidy => step.tidy (here.tidy tidy), fun dir made => step.privateDir (here.dirs dir made)⟩

theorem keeps_leaves : Keeps (Solo env tid fun _ => True) tid (Leaves origin v) :=
  keeps_solo (fun _ _ _ _ => trivial) leaves_steady

theorem Leaves.put {path : Path} {data : Bytes} {w w' : World} (here : Leaves origin v w)
    (step : Step tid (Function.update w.view path (some (privateFile data))) w w') :
    Leaves origin (Function.update v path (some (privateFile data))) w' where
  view := by rw [step.view, here.view]
  control := step.control.trans here.control
  tidy := fun tidy => step.tidy (here.tidy tidy)
  dirs := fun dir made => step.privateDir (here.dirs dir made)

theorem Leaves.get {w : World} (here : Leaves origin origin.view w) {path : Path}
    (visible : hidden path = false) : w.fs.get path = origin.fs.get path := by
  rw [← view_of_visible visible, here.view, view_of_visible visible]

theorem Leaves.unseen {w : World} (here : Leaves origin origin.view w) {path : Path}
    (visible : hidden path = false) (absent : (w.fs.stat path).isSome = false) :
    Unseen origin.view path := by
  intro node found
  rw [FileSystem.stat, here.get visible, ← view_of_visible visible, found] at absent
  by_contra other
  simp [other] at absent

/-- Loading the file of a label, given how to make values of its bytes. -/
theorem load_served {load : Prog α} {read : Bytes → Except LithiumError α} {bytes : α → Bytes}
    (reads : ∀ data value, read data = .ok value → data = bytes value)
    (loads : Triple (Solo env tid fun _ => True) (Leaves origin origin.view) load fun result w =>
      Leaves origin origin.view w ∧ Answers env ((loadNode X (w.fs.get (labelSecretPath label)) mk
        (labelKeyType label)).bind read) result) :
    Triple (Solo env tid fun _ => True) (Leaves origin origin.view) load fun result w =>
      Leaves origin origin.view w ∧ ∀ value, result = .ok value →
        loadNode X (origin.view (labelSecretPath label)) mk (labelKeyType label) =
          .ok (bytes value) := by
  refine loads.weaken fun result w ended => ⟨ended.1, ?_⟩
  rintro value rfl
  have visible := (labelPath_storable label).1
  have loaded := ended.2.ok
  rw [ended.1.get visible, ← view_of_visible visible] at loaded
  obtain ⟨data, opened, made⟩ := bind_ok loaded
  rw [opened, reads data value made]

/-- A rename puts the record in place only after `try_exists()` has seen nothing there. -/
theorem writeSecureNewBestEffort_unseen {path : Path} (storable : Storable path) (data : Bytes) :
    Triple (Solo env tid fun _ => True) (Leaves origin origin.view) (writeSecureNewBestEffort path data)
      fun result _ => result = .ok () → Unseen origin.view path := by
  have party := party_solo env tid fun _ => True
  refine Triple.bind (ensureParent_spec party keeps_leaves storable excused) (fun _ => ?_)
    fun e w _ => nofun
  refine (observe party still_solo rfl fun reply => ?_).mono (fun w here => here.1) fun _ _ => id
  rintro w ⟨here, seen⟩
  obtain done | ⟨-, -, e, failed⟩ := sem_natural (fun _ => rfl) seen
  · cases done
    cases present : (w.fs.stat path).isSome with
    | true => exact nofun
    | false => exact Meets.free (fun _ _ _ => here.unseen storable.1 present) _ w
  · obtain ⟨kind, rfl⟩ := ioFailure_eq failed
    exact nofun

theorem saveNew_unseen (payload : Bytes) :
    Triple (Solo env tid fun _ => True) (Leaves origin origin.view)
      (saveNew X .renameBestEffort (labelSecretPath label) mk payload (labelKeyType label))
      fun result _ => result = .ok () → Unseen origin.view (labelSecretPath label) := by
  refine Triple.bind (encodeEncrypted_spec X (party_solo env tid _) still_solo mk payload
    (labelKeyType label)) (fun data => ?_) fun e w _ => nofun
  exact (writeSecureNewBestEffort_unseen (labelPath_storable label) data).mono (fun w here => here.1)
    fun _ _ => id

theorem saveNew_put (payload : Bytes) {excuse : Prop}
    (calm : ¬ excuse → env.faults = false ∧ Tidy origin ∧ origin.view (labelSecretPath label) = none ∧
      ∀ draws, ∃ data, sealRecord X mk payload (labelKeyType label) draws = .ok data) :
    Triple (Solo env tid fun _ => True) (Leaves origin origin.view)
      (saveNew X mode (labelSecretPath label) mk payload (labelKeyType label))
      fun result w => match result with
        | .ok _ => (mode = .linkNoReplace → origin.view (labelSecretPath label) = none) ∧
            ∃ v, Leaves origin v w ∧ Created X mk label payload origin.view v
        | .error _ => Leaves origin origin.view w ∧ excuse := by
  have steady : Steady tid fun w => (mode = .linkNoReplace → origin.view (labelSecretPath label) = none) ∧
      ∃ v, Leaves origin v w ∧ Created X mk label payload origin.view v := by
    rintro w w' ⟨free, v, here, created⟩ step
    exact ⟨free, v, leaves_steady w w' here step, created⟩
  refine saveNew_spec X (party_solo env tid _) keeps_leaves (labelPath_storable label) ?_
    (fun none => (calm none).2.2.2) fun none => ⟨calm_solo (calm none).1, fun w here => ?_⟩
  · intro draws data sealed
    have behind : Keeps (Solo env tid fun _ => True) tid _ := keeps_solo (fun _ _ _ _ => trivial) steady
    cases mode with
    | linkNoReplace =>
      refine ⟨keeps_leaves, behind, fun here _ free step => ⟨trivial, trivial, fun _ => ?_, _, here.put step,
        draws, data, sealed, rfl⟩⟩
      rw [← here.view]
      exact free
    | renameBestEffort =>
      apply Publishes.creates
      exact ⟨keeps_leaves, behind, fun here _ _ step => ⟨trivial, trivial, nofun, _, here.put step, draws,
        data, sealed, rfl⟩⟩
  · obtain ⟨_, tidy, absent, _⟩ := calm none
    have tidy' := here.tidy tidy
    have absent' : w.view (labelSecretPath label) = .none := (congrFun here.view _).trans absent
    refine ⟨⟨.inl tidy'.secrets, tidy'.fresh, fun old found => ?_⟩, absent'⟩
    rw [← view_of_visible (labelPath_storable label).1, absent'] at found
    cases found

/-- Whatever the caller has seen before, a record is made only where nothing is seen. -/
theorem saveNew_created (payload : Bytes) {excuse : Prop}
    (calm : ¬ excuse → env.faults = false ∧ Tidy origin ∧ origin.view (labelSecretPath label) = none ∧
      ∀ draws, ∃ data, sealRecord X mk payload (labelKeyType label) draws = .ok data) :
    Triple (Solo env tid fun _ => True) (Leaves origin origin.view)
      (saveNew X mode (labelSecretPath label) mk payload (labelKeyType label))
      fun result w => match result with
        | .ok _ => Unseen origin.view (labelSecretPath label) ∧
            ∃ v, Leaves origin v w ∧ Created X mk label payload origin.view v
        | .error _ => Leaves origin origin.view w ∧ excuse := by
  cases mode with
  | linkNoReplace =>
    refine (saveNew_put payload calm).weaken fun result w ended => ?_
    cases result with
    | ok _ =>
      refine ⟨fun node found => ?_, ended.2⟩
      rw [ended.1 rfl] at found
      cases found
    | error e => exact ended
  | renameBestEffort =>
    refine ((saveNew_put payload calm).both (saveNew_unseen payload)).weaken fun result w ended => ?_
    cases result with
    | ok _ => exact ⟨ended.2 rfl, ended.1.2⟩
    | error e => exact ended.1

/-- Both label operations, under the read lock. -/
theorem loadOrCreate_served {load draw : Prog α} {save : α → Prog Unit}
    {read : Bytes → Except LithiumError α} {bytes : α → Bytes}
    (reads : ∀ data value, read data = .ok value → data = bytes value)
    (loads : Triple (Solo env tid fun _ => True) (Leaves origin origin.view) load fun result w =>
      Leaves origin origin.view w ∧ Answers env ((loadNode X (w.fs.get (labelSecretPath label)) mk
        (labelKeyType label)).bind read) result)
    (draws : Triple (Solo env tid fun _ => True) (Leaves origin origin.view) draw
      fun _ => Leaves origin origin.view)
    (saves : ∀ value, save value =
      saveNew X mode (labelSecretPath label) mk (bytes value) (labelKeyType label)) :
    Triple (Solo env tid fun _ => True) (Leaves origin origin.view)
      (loadOrCreate label load draw save) fun result w =>
        ∃ v, Leaves origin v w ∧ Served X mk label bytes origin.view result v := by
  have visible := (labelPath_storable label).1
  have drawn : Triple (Solo env tid fun _ => True) (Leaves origin origin.view) draw fun result w =>
      Leaves origin origin.view w ∧ ∀ value, result = .ok value → True :=
    draws.weaken fun _ w here => ⟨here, fun _ _ => trivial⟩
  have saved : ∀ value : α, True → Triple (Solo env tid fun _ => True) (Leaves origin origin.view)
      (save value) fun result w => match result with
        | .ok _ => Unseen origin.view (labelSecretPath label) ∧
            ∃ v, Leaves origin v w ∧ Created X mk label (bytes value) origin.view v
        | .error _ => Leaves origin origin.view w := by
    intro value _
    rw [saves]
    refine (saveNew_created (bytes value) excused).weaken fun result w ended => ?_
    cases result with
    | ok _ => exact ended
    | error e => exact ended.1
  refine (loadOrCreate_spec (party_solo env tid _) still_solo (load_served reads loads) drawn
    saved).weaken ?_
  rintro result w (⟨here, loaded⟩ | ⟨here, e, rfl⟩ | ⟨value, -, rfl, unseen, v, here, created⟩)
  · exact ⟨_, here, .inl ⟨rfl, loaded⟩⟩
  · exact ⟨_, here, .inl ⟨rfl, by rintro _ ⟨⟩⟩⟩
  · exact ⟨v, here, .inr ⟨unseen, value, rfl, created⟩⟩

theorem currentMk_served (sealing : origin.control.clientMk cached = some mk) :
    Triple (Solo env tid fun _ => True) (Leaves origin v) (currentMk cached) fun result w =>
      Leaves origin v w ∧ Answers env (.ok mk) result := by
  have still : Still (Solo env tid fun _ => True) (Leaves origin v) := still_solo
  have party := party_solo env tid fun _ => True
  cases cached with
  | false =>
    refine observe party still rfl fun reply => Triple.done ?_
    rintro w ⟨here, seen⟩
    have provided : w.control.providerMk = some mk := by rw [here.control]; exact sealing
    have effected : ∀ choice, effect env tid choice .loadMk w = some (.ok mk, w) := fun choice => by
      simp only [effect, provided]
    obtain done | ⟨faults, -, e, failed⟩ := sem_natural effected seen
    · cases done
      exact ⟨here, .inl rfl⟩
    · cases failed
      exact ⟨here, .inr ⟨faults, e, rfl⟩⟩
  | true =>
    refine observe party still rfl fun reply => ?_
    rintro w ⟨here, seen⟩
    have kept : w.control.cachedMk = some mk := by rw [here.control]; exact sealing
    obtain done | ⟨-, -, e, failed⟩ := sem_natural (fun _ => rfl) seen
    · cases done
      rw [kept]
      exact ⟨here, .inl rfl⟩
    · cases failed

theorem sem_isPoisoned {w w' : World} {reply : Reply .isPoisoned}
    (step : sem env tid .isPoisoned w reply w') : reply = w.control.poisoned ∧ w' = w := by
  obtain done | ⟨-, -, e, failed⟩ := sem_natural (fun _ => rfl) step
  · cases done
    exact ⟨rfl, rfl⟩
  · cases failed

theorem sem_lockRead {w w' : World} {reply : Reply .lockRead}
    (step : sem env tid .lockRead w reply w') : w.control.writer = none ∧ w' = w.readBy tid := by
  obtain ⟨-, -, e, failed⟩ | ⟨choice, effected⟩ := sem_cases step
  · cases failed
  · simp only [effect] at effected
    split at effected
    · next free =>
      cases effected
      exact ⟨Option.isNone_iff_eq_none.mp free, rfl⟩
    · cases effected

theorem sem_unlockRead {w w' : World} {reply : Reply .unlockRead}
    (step : sem env tid .unlockRead w reply w') :
    w' = { w with control := { w.control with readers := w.control.readers.erase tid } } := by
  obtain done | ⟨-, -, e, failed⟩ := sem_natural (fun _ => rfl) step
  · cases done
    rfl
  · cases failed

/-- What is done between taking and giving back the read lock leaves what it leaves. -/
theorem withReadGate_leaves {body : Prog α} {after : Except LithiumError α → View → Prop}
    (refused : origin.control.poisoned = true → ∀ e, after (.error e) origin.view)
    (works : Triple (Solo env tid fun _ => True) (Leaves (origin.readBy tid) origin.view) body
      fun result w => ∃ v, Leaves (origin.readBy tid) v w ∧ after result v) :
    Triple (Solo env tid fun _ => True) (fun w => w = origin) (withReadGate body)
      fun result w => ∃ v, Leaves origin v w ∧ after result v := by
  have start : Leaves origin origin.view origin := ⟨rfl, rfl, id, fun _ => id⟩
  refine Triple.call (fun (reply : Bool) w => reply = origin.control.poisoned ∧ w = origin)
    (alone_stable _ _ _) ?_ fun reply => ?_
  · rintro w rfl - reply w' step
    exact ⟨trivial, trivial, sem_isPoisoned step⟩
  · cases reply with
    | true =>
      rintro w ⟨poisoned, rfl⟩
      exact ⟨w.view, start, refused poisoned.symm _⟩
    | false =>
      refine (Triple.call (fun _ => Leaves (origin.readBy tid) origin.view) (alone_stable _ _ _) ?_
        fun _ => ?_).mono (fun w here => here.2) fun _ _ ended => ended
      · rintro w rfl - reply w' step
        obtain ⟨-, rfl⟩ := sem_lockRead step
        exact ⟨trivial, trivial, rfl, rfl, id, fun _ => id⟩
      · refine Triple.attempt_bind works fun result => ?_
        refine Triple.call (fun _ w => ∃ v, Leaves origin v w ∧ after result v)
          (alone_stable _ _ _) ?_ fun _ => Triple.done fun w here => here
        rintro w ⟨v, here, ended⟩ - reply w' step
        obtain rfl := sem_unlockRead step
        refine ⟨trivial, trivial, v, ⟨here.view, ?_,
          fun tidy => (here.tidy (tidy.control _)).control _, here.dirs⟩, ended⟩
        rw [here.control]
        simp [World.readBy]

theorem getOrCreateSecret32_served (sealing : origin.control.clientMk cached = some mk) :
    Triple (Solo env tid fun _ => True) (fun w => w = origin)
      (getOrCreateSecret32 X cached mode label) fun result w =>
        ∃ v, Leaves origin v w ∧ Served X mk label Subtype.val origin.view result v := by
  refine withReadGate_leaves (fun _ e => .inl ⟨rfl, by rintro _ ⟨⟩⟩) ?_
  refine Triple.bind (currentMk_served sealing) (fun key => ?_)
    fun e w ended => ⟨_, ended.1, .inl ⟨rfl, by rintro _ ⟨⟩⟩⟩
  rintro w ⟨here, answers⟩
  cases answers.ok
  rw [loadOrCreateLabelSecret32_eq]
  exact loadOrCreate_served (fun data value => Fixed.fromSlice_eq_ok.mp)
    (loadSecret32Decrypted_spec X (party_solo env tid _) still_solo _ _ _)
    ((randomFixed_spec (party_solo env tid _) still_solo _).weaken fun _ _ ended => ended.1)
    (fun _ => rfl) w here

theorem loadOrCreateSealedBlob_served {generate : Except LithiumError Bytes}
    (sealing : origin.control.clientMk cached = some mk) :
    Triple (Solo env tid fun _ => True) (fun w => w = origin)
      (loadOrCreateSealedBlob X cached mode label generate) fun result w =>
        ∃ v, Leaves origin v w ∧ Served X mk label id origin.view result v := by
  refine withReadGate_leaves (fun _ e => .inl ⟨rfl, by rintro _ ⟨⟩⟩) ?_
  refine Triple.bind (currentMk_served sealing) (fun key => ?_)
    fun e w ended => ⟨_, ended.1, .inl ⟨rfl, by rintro _ ⟨⟩⟩⟩
  rintro w ⟨here, answers⟩
  cases answers.ok
  rw [loadOrCreateLabelBytes_eq]
  exact loadOrCreate_served (fun data value made => Except.ok.inj made)
    (loadBytesDecrypted_whole X (party_solo env tid _) still_solo _ _ _)
    (Triple.done fun w here => here) (fun _ => rfl) w here

/-- A client call that only waits for the read lock returns. -/
theorem withReadGate_returns {body : Prog α} {w : World}
    (free : w.control.writer = none)
    (calls : body.Calls fun op => waits op = false) :
    ∃ result w', Returns (sem env tid) (withReadGate body) w result w' := by
  have looked : sem env tid .isPoisoned w w.control.poisoned w := ⟨⟨none, [], [], 0⟩, rfl⟩
  have locked : sem env tid .lockRead w () (w.readBy tid) :=
    ⟨⟨none, [], [], 0⟩, if_pos (Option.isNone_iff_eq_none.mpr free)⟩
  have guarded : (body.guarded (do let _ ← call .unlockRead; return ())).Calls
      fun op => waits op = false :=
    .bind (.attempt calls) fun _ => .bind (.bind (.perform rfl) fun _ => trivial) fun _ => trivial
  cases poisoned : w.control.poisoned with
  | true =>
    rw [poisoned] at looked
    exact ⟨_, w, .next looked (.refl _)⟩
  | false =>
    rw [poisoned] at looked
    obtain ⟨result, w', path⟩ := calls_return tid (w.readBy tid) guarded
    exact ⟨result, w', .next looked (.next locked path)⟩

theorem getOrCreateSecret32_returns {w : World} (free : w.control.writer = none) :
    ∃ result w', Returns (sem env tid) (getOrCreateSecret32 X cached mode label) w result w' :=
  withReadGate_returns free (.bind (currentMk_calls waits_of_special cached) fun mk =>
    loadOrCreateLabelSecret32_calls waits_of_special (fun _ => rfl) X mk label mode)

theorem loadOrCreateSealedBlob_returns {generate : Except LithiumError Bytes} {w : World}
    (free : w.control.writer = none) :
    ∃ result w', Returns (sem env tid) (loadOrCreateSealedBlob X cached mode label generate) w
      result w' :=
  withReadGate_returns free (.bind (currentMk_calls waits_of_special cached) fun mk =>
    loadOrCreateLabelBytes_calls waits_of_special (fun _ => rfl) X mk label generate mode)

/-- A label's file that is seen is what a fault-free call returns. -/
theorem withReadGate_loads {operation : Key → Prog α} {load draw : Prog α} {save : α → Prog Unit}
    {read : Bytes → Except LithiumError α} {w w' : World} {result : Except LithiumError α}
    (faultless : env.faults = false) (live : w.control.poisoned = false)
    (valid : validateSecretLabel label = .ok ()) (sealing : w.control.clientMk cached = some mk)
    (seen : ¬ Unseen w.view (labelSecretPath label))
    (shape : operation mk = loadOrCreate label load draw save)
    (loads : Triple (Solo env tid fun _ => True) (Leaves (w.readBy tid) w.view) load fun result w' =>
      Leaves (w.readBy tid) w.view w' ∧ Answers env
        ((loadNode X (w'.fs.get (labelSecretPath label)) mk (labelKeyType label)).bind read) result)
    (returned : Returns (sem env tid) (withReadGate do let mk ← currentMk cached; operation mk) w
      result w') :
    result = (loadNode X (w.view (labelSecretPath label)) mk (labelKeyType label)).bind read := by
  have visible := (labelPath_storable label).1
  have body : Triple (Solo env tid fun _ => True) (Leaves (w.readBy tid) w.view)
      (do let mk ← currentMk cached; operation mk) fun result w' =>
        ∃ v, Leaves (w.readBy tid) v w' ∧
          result = (loadNode X (w.view (labelSecretPath label)) mk (labelKeyType label)).bind read := by
    refine Triple.bind (currentMk_served sealing) (fun key => ?_) ?_
    · rintro w' ⟨here, answers⟩
      cases answers.ok
      rw [shape]
      refine loadOrCreate_existing (party_solo env tid _) still_solo (.inl faultless) valid
        (fun w' (here : Leaves (w.readBy tid) (w.readBy tid).view w') => ?_)
        (loads.weaken ?_) w' here
      · by_contra absent
        exact seen (here.unseen visible (by simpa using absent))
      · rintro result w' ⟨here, answers⟩
        have here' : Leaves (w.readBy tid) (w.readBy tid).view w' := here
        rw [here'.get visible] at answers
        rw [view_of_visible visible]
        exact ⟨_, here, answers.calm faultless⟩
    · rintro e w' ⟨_, answers⟩
      cases answers.calm faultless
  have refused : w.control.poisoned = true → ∀ e, (.error e : Except LithiumError α) =
      (loadNode X (w.view (labelSecretPath label)) mk (labelKeyType label)).bind read := by
    rw [live]
    rintro ⟨⟩
  obtain ⟨_, _, same⟩ := (withReadGate_leaves refused body w rfl).returns trivial returned
  exact same

section
variable {w : World} (faultless : env.faults = false) (live : w.control.poisoned = false)
  (free : w.control.writer = none) (valid : validateSecretLabel label = .ok ())
  (sealing : w.control.clientMk cached = some mk) (seen : ¬ Unseen w.view (labelSecretPath label))
include faultless live free valid sealing seen

theorem getOrCreateSecret32_loads :
    Delivers (sem env tid) (getOrCreateSecret32 X cached mode label) w fun result _ =>
      result = (loadNode X (w.view (labelSecretPath label)) mk (labelKeyType label)).bind
        (Fixed.fromSlice 32) where
  runs := getOrCreateSecret32_returns free
  ends _ _ returned := withReadGate_loads faultless live valid sealing seen
    (loadOrCreateLabelSecret32_eq X mk label mode)
    (loadSecret32Decrypted_spec X (party_solo env tid _) still_solo _ _ _) returned

theorem loadOrCreateSealedBlob_loads {generate : Except LithiumError Bytes} :
    Delivers (sem env tid) (loadOrCreateSealedBlob X cached mode label generate) w fun result _ =>
      result = loadNode X (w.view (labelSecretPath label)) mk (labelKeyType label) where
  runs := loadOrCreateSealedBlob_returns free
  ends _ _ returned := (withReadGate_loads faultless live valid sealing seen
    (loadOrCreateLabelBytes_eq X mk label generate mode)
    (loadBytesDecrypted_whole X (party_solo env tid _) still_solo _ _ _) returned).trans
      (bind_ok_eq _)

end

end
end Lithium.Keys
