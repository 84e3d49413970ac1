import Lithium.Keys.Gate

/-! Client operations side by side, in any regime that lets them put their files in place,
and what follows for every interleaving of a manager's threads. -/
namespace Lithium.Keys
open Effects Storage

def Operation.Fits (fits : Bytes → Prop) : Operation → Prop
  | .blob _ (.ok payload) => fits payload
  | _ => True

theorem Operation.fits_any (op : Operation) : op.Fits fun _ => True := by
  cases op with
  | blob label generate => cases generate <;> trivial
  | _ => trivial

/-- What is known of the value of the store once an operation has returned. -/
def Operation.Answered {G : Type} (answered : Bytes → Bytes → G → Prop) :
    Operation → Except LithiumError Bytes → G → Prop
  | .secret32 label, .ok payload, g => payload.length = 32 ∧ answered label payload g
  | .blob label _, .ok payload, g => answered label payload g
  | _, _, _ => True

theorem Operation.Answered.mono {G : Type} {answered : Bytes → Bytes → G → Prop} {g g' : G}
    {op : Operation} {result : Except LithiumError Bytes}
    (lasting : ∀ label payload, answered label payload g → answered label payload g')
    (here : op.Answered answered result g) : op.Answered answered result g' := by
  cases op <;> cases result <;>
    first | trivial | exact lasting _ _ here | exact ⟨here.1, lasting _ _ here.2⟩

theorem currentMk_reads {P : Protocol Calls World} {env : Env} {tid : Tid} {held : World → Prop}
    (party : Party P env tid) (still : Still P held) (cached : Bool) :
    Triple P held (currentMk cached) fun result w =>
      held w ∧ ∀ mk, result = .ok mk → w.control.clientMk cached = some mk := by
  cases cached with
  | false =>
    refine observe party still rfl fun reply => Triple.done ?_
    rintro w ⟨here, seen⟩
    refine ⟨here, fun mk replied => ?_⟩
    obtain ⟨_, _, e, failed⟩ | ⟨choice, effected⟩ := sem_cases seen
    · cases failed
      cases replied
    · simp only [effect] at effected
      split at effected
      · next found =>
        cases effected
        cases replied
        exact found
      · cases effected
        cases replied
  | true =>
    refine observe party still rfl fun reply => ?_
    rintro w ⟨here, seen⟩
    obtain ⟨_, _, e, failed⟩ | ⟨choice, effected⟩ := sem_cases seen
    · cases failed
    · simp only [effect] at effected
      cases effected
      cases found : w.control.cachedMk with
      | none => exact ⟨here, fun mk' replied => by cases replied⟩
      | some mk =>
        refine ⟨here, fun mk' replied => ?_⟩
        cases replied
        exact found

/-- Apart from who holds the lock, what the threads share is the same. -/
structure Alike (w w' : World) : Prop where
  provider : w'.control.providerMk = w.control.providerMk
  cached : w'.control.cachedMk = w.control.cachedMk
  poisoned : w'.control.poisoned = w.control.poisoned

namespace Alike
variable {w w' w'' : World}

theorem trans (first : Alike w w') (second : Alike w' w'') : Alike w w'' :=
  ⟨second.provider.trans first.provider, second.cached.trans first.cached,
    second.poisoned.trans first.poisoned⟩

theorem relock (w : World) (readers : List Tid) (writer : Option Tid) :
    Alike w (w.relock readers writer) := ⟨rfl, rfl, rfl⟩

theorem of_control (same : w'.control = w.control) : Alike w w' := by
  constructor <;> rw [same]

theorem clientMk (alike : Alike w w') (cached : Bool) :
    w'.control.clientMk cached = w.control.clientMk cached := by
  rw [Control.clientMk, Control.clientMk, alike.provider, alike.cached]

end Alike

namespace Regime
variable {G : Type}

/-- There is room for a file at this path: a link finds nothing there, a rename is one the
regime knows. -/
def Room (R : Regime G) (mode : CreateNewMode) (i : Tid) (path : Path) (w : World) : Prop :=
  match mode with
  | .linkNoReplace => w.view path = none
  | .renameBestEffort => ∃ tmp reply w', R.sem i (.rename tmp path) w reply w'

/-- A regime lets clients do their work: none takes the key from another, and each may put a
fresh record at a label's path. What a label was `found` to hold it keeps. -/
structure Serves (R : Regime G) (X : Crypto) (cached : Bool) (mode : CreateNewMode)
    (fits : Bytes → Prop) (found : Bytes → Bytes → World → Prop) : Prop where
  sealing : ∀ {w w'}, R.stays w w' → w'.control.clientMk cached = w.control.clientMk cached
  fresh : ∀ secret : Fixed 32, fits secret.1
  stable : ∀ {label payload w w'}, found label payload w → R.stays w w' → found label payload w'
  loads : ∀ {label payload mk w}, validateSecretLabel label = .ok () →
    w.control.clientMk cached = some mk →
    loadNode X (w.view (labelSecretPath label)) mk (labelKeyType label) = .ok payload →
    found label payload w
  puts : ∀ {i label payload mk draws data w w'}, R.client i → validateSecretLabel label = .ok () →
    fits payload → sealRecord X mk payload (labelKeyType label) draws = .ok data →
    w.control.clientMk cached = some mk → R.Reading i w → R.Room mode i (labelSecretPath label) w →
    Step i (Function.update w.view (labelSecretPath label) (some (privateFile data))) w w' →
    R.holds w' ∧ R.stays w w' ∧ found label payload w'

section
variable {R : Regime G} {X : Crypto} {cached : Bool} {mode : CreateNewMode} {fits : Bytes → Prop}
  {found : Bytes → Bytes → World → Prop} {i : Tid} {label : Bytes} {mk : Key} {α : Type}
  (serves : R.Serves X cached mode fits found) (client : R.client i)
include serves

theorem Serves.keeps (mk : Key) :
    Keeps (R.reader i) i fun w => w.control.clientMk cached = some mk :=
  R.reader_keeps fun here stays => (serves.sealing stays).trans here

include client

theorem Serves.creates {payload data : Bytes} {draws : SealDraws}
    (valid : validateSecretLabel label = .ok ()) (fit : fits payload)
    (sealed : sealRecord X mk payload (labelKeyType label) draws = .ok data) :
    Creates (R.reader i) i mode (labelSecretPath label) data
      (fun w => w.control.clientMk cached = some mk) (found label payload) := by
  have publishes : Publishes (R.reader i) i (labelSecretPath label) data
      (R.Room mode i (labelSecretPath label)) (fun w => w.control.clientMk cached = some mk)
      (found label payload) :=
    R.reader_publishes (fun here stays => (serves.sealing stays).trans here) serves.stable
      (serves.puts client valid fit sealed)
  cases mode with
  | linkNoReplace => exact publishes
  | renameBestEffort => exact ⟨_, publishes, fun called => ⟨_, _, _, called⟩⟩

theorem Serves.saveNew_serves {payload : Bytes} (valid : validateSecretLabel label = .ok ())
    (fit : fits payload) :
    Triple (R.reader i) (fun w => w.control.clientMk cached = some mk)
      (saveNew X mode (labelSecretPath label) mk payload (labelKeyType label)) fun result w =>
        match result with
        | .ok _ => found label payload w
        | .error _ => w.control.clientMk cached = some mk := by
  refine (saveNew_spec X (R.reader_party i) (serves.keeps (i := i) mk) (labelPath_storable label)
    (fun draws data sealed => serves.creates client valid fit sealed)
    excused excused).weaken fun result w ended => ?_
  cases result with
  | ok _ => exact ended
  | error e => exact ended.1

theorem Serves.loadOrCreate_spec {load draw : Prog α} {save : α → Prog Unit}
    {read : Bytes → Except LithiumError α} {bytes : α → Bytes}
    (reads : ∀ data value, read data = .ok value → data = bytes value)
    (loads : Triple (R.reader i) (fun w => w.control.clientMk cached = some mk) load fun result w =>
      w.control.clientMk cached = some mk ∧ Answers (R.env i)
        ((loadNode X (w.fs.get (labelSecretPath label)) mk (labelKeyType label)).bind read) result)
    (draws : Triple (R.reader i) (fun w => w.control.clientMk cached = some mk) draw fun result w =>
      w.control.clientMk cached = some mk ∧ ∀ value, result = .ok value → fits (bytes value))
    (saves : ∀ value, save value =
      saveNew X mode (labelSecretPath label) mk (bytes value) (labelKeyType label)) :
    Triple (R.reader i) (fun w => w.control.clientMk cached = some mk)
      (loadOrCreate label load draw save) fun result w =>
        ∀ value, result = .ok value → found label (bytes value) w := by
  cases valid : validateSecretLabel label with
  | error e =>
    unfold loadOrCreate
    rw [valid]
    exact Triple.done fun _ _ value replied => by cases replied
  | ok _ =>
    have party := R.reader_party i
    have keeps := serves.keeps (i := i) mk
    have loaded : Triple (R.reader i) (fun w => w.control.clientMk cached = some mk) load
        fun result w => ∀ value, result = .ok value → found label (bytes value) w := by
      refine loads.weaken ?_
      rintro result w ⟨here, answers⟩ value rfl
      have natural := answers.ok
      rw [← view_of_visible (labelPath_storable label).1] at natural
      cases opened : loadNode X (w.view (labelSecretPath label)) mk (labelKeyType label) with
      | error e =>
        rw [opened] at natural
        cases natural
      | ok payload =>
        rw [opened] at natural
        rw [← reads payload value natural]
        exact serves.loads valid here opened
    refine (Keys.loadOrCreate_spec party keeps.still loaded draws
      fun value fit => saves value ▸ serves.saveNew_serves client valid fit).weaken ?_
    rintro result w (found | ⟨_, e, rfl⟩ | ⟨value, _, rfl, made⟩)
    · exact found
    · rintro _ ⟨⟩
    · rintro _ ⟨⟩
      exact made

theorem Serves.secret32_spec :
    Triple (R.reader i) (fun _ => True) (do
      let mk ← currentMk cached
      loadOrCreateLabelSecret32 X mk label mode) fun result w =>
        ∀ value, result = .ok value → found label value.1 w := by
  have party := R.reader_party i
  have anywhere : Keeps (R.reader i) i fun _ => True := R.reader_keeps fun _ _ => trivial
  refine Triple.bind (currentMk_reads party anywhere.still cached) (fun mk => ?_) fun e w _ => nofun
  have still := (serves.keeps (i := i) mk).still
  refine Triple.mono ?_ (fun w here => here.2 mk rfl) fun _ _ ended => ended
  rw [loadOrCreateLabelSecret32_eq]
  exact serves.loadOrCreate_spec client (fun data value => Fixed.fromSlice_eq_ok.mp)
    (loadSecret32Decrypted_spec X party still _ _ _)
    ((randomFixed_spec party still _).weaken fun _ _ ended => ⟨ended.1, fun value _ => serves.fresh value⟩)
    fun _ => rfl

theorem Serves.blob_spec {generate : Except LithiumError Bytes}
    (fit : ∀ payload, generate = .ok payload → fits payload) :
    Triple (R.reader i) (fun _ => True) (do
      let mk ← currentMk cached
      loadOrCreateLabelBytes X mk label generate mode) fun result w =>
        ∀ value, result = .ok value → found label value w := by
  have party := R.reader_party i
  have anywhere : Keeps (R.reader i) i fun _ => True := R.reader_keeps fun _ _ => trivial
  refine Triple.bind (currentMk_reads party anywhere.still cached) (fun mk => ?_) fun e w _ => nofun
  have still := (serves.keeps (i := i) mk).still
  refine Triple.mono ?_ (fun w here => here.2 mk rfl) fun _ _ ended => ended
  rw [loadOrCreateLabelBytes_eq]
  have loads : Triple (R.reader i) (fun w => w.control.clientMk cached = some mk)
      (loadBytesDecrypted X (labelSecretPath label) mk (labelKeyType label)) _ :=
    loadBytesDecrypted_whole X party still _ _ _
  exact serves.loadOrCreate_spec client (fun data value made => Except.ok.inj made) loads
    (Triple.done fun w here => ⟨here, fit⟩) fun _ => rfl

end

theorem signingSeeds_spec {R : Regime G} {i : Tid} (X : Crypto) (cached : Bool) :
    Triple (R.reader i) (fun _ => True) (do
      let mk ← currentMk cached
      let edSeed ← loadSecret32Decrypted X edPriv mk ktEdSeed
      let diliSeed ← loadBytesDecrypted X diliPriv mk ktDiliSeed
      Program.done (← call (.arenaClaim 32))
      let diliSeed ← Program.done (Fixed.fromSlice 32 diliSeed)
      Program.done (← call (.arenaClaim 32))
      return (edSeed, diliSeed)) fun _ _ => True := by
  have party := R.reader_party i
  have still : Still (R.reader i) fun _ => True := (R.reader_keeps fun _ _ => trivial).still
  have anyway : ∀ {α : Type} {program : Prog α} {post : Except LithiumError α → World → Prop},
      Triple (R.reader i) (fun _ => True) program post → Triple (R.reader i) (fun _ => True) program
        fun _ _ => True := fun triple => triple.weaken fun _ _ _ => trivial
  have claims : ∀ {α : Type} {rest : Prog α}, Triple (R.reader i) (fun _ => True) rest (fun _ _ => True) →
      Triple (R.reader i) (fun _ => True) ((call (.arenaClaim 32)).bind fun claimed =>
        (Program.done claimed : Prog Unit).bind fun _ => rest) fun _ _ => True := by
    intro α rest works
    refine observe party still rfl fun claimed => ?_
    cases claimed with
    | error e => exact Triple.done fun _ _ => trivial
    | ok _ => exact works.mono (fun _ _ => trivial) fun _ _ => id
  refine Triple.bind (anyway (currentMk_reads party still cached)) (fun mk => ?_) fun _ _ => id
  refine Triple.bind (anyway (loadSecret32Decrypted_spec X party still _ _ _)) (fun edSeed => ?_)
    fun _ _ => id
  refine Triple.bind (anyway (loadBytesDecrypted_spec X party still _ _ _)) (fun diliSeed => ?_)
    fun _ _ => id
  refine claims ?_
  cases Fixed.fromSlice 32 diliSeed with
  | error e => exact Triple.done fun _ _ => trivial
  | ok diliSeed => exact claims (Triple.done fun _ _ => trivial)

section
variable {R : Regime G} {X : Crypto} {cached : Bool} {mode : CreateNewMode} {fits : Bytes → Prop}
  {found : Bytes → Bytes → World → Prop} {answered : Bytes → Bytes → G → Prop} {i : Tid}

theorem Serves.operation_spec (serves : R.Serves X cached mode fits found) (member : R.client i)
    (answers : ∀ {label payload w}, found label payload w → R.holds w →
      answered label payload (R.value w))
    {op : Operation} (client : op.isClient = true) (fit : op.Fits fits) :
    Triple (R.thread i) (fun v => Outside i v.1) (op.program X cached mode) fun result v =>
      Outside i v.1 ∧ op.Answered answered result v.2 := by
  cases op with
  | secret32 label =>
    have through := withReadGate_spec (fun result g => ∀ secret : Fixed 32, result = .ok secret →
      answered label secret.1 g) (fun w _ => serves.secret32_spec member w trivial)
      (fun here stays secret same => serves.stable (here secret same) stays) (fun _ _ => nofun)
      fun here reading secret same => answers (here secret same) reading.holds
    exact Triple.bind through (fun secret => Triple.done fun v here =>
      ⟨here.1, secret.2, here.2 secret rfl⟩)
      fun e v here => ⟨here.1, trivial⟩
  | blob label generate =>
    have fit' : ∀ payload, generate = .ok payload → fits payload := by
      rintro payload rfl
      exact fit
    have through := withReadGate_spec (fun result g => ∀ payload, result = .ok payload →
      answered label payload g) (fun w _ => serves.blob_spec member fit' w trivial)
      (fun here stays payload same => serves.stable (here payload same) stays) (fun _ _ => nofun)
      fun here reading payload same => answers (here payload same) reading.holds
    refine through.weaken fun result v here => ⟨here.1, ?_⟩
    cases result with
    | error e => trivial
    | ok payload => exact here.2 payload rfl
  | sign =>
    have through := withReadGate_spec (fun _ _ => True) (fun w _ =>
      signingSeeds_spec (R := R) (i := i) X cached w trivial) (fun _ _ => trivial) (fun _ _ => trivial)
      fun _ _ => trivial
    exact Triple.bind through (fun seeds => Triple.done fun v => id) fun e v => id
  | rotate => cases client

/-- The threads of a manager in a regime: each client does what the regime serves, and every
rotation by itself restores what holds. -/
structure Manages (R : Regime G) (X : Crypto) (cached : Bool) (mode : CreateNewMode)
    (ops : Tid → Operation) (answered : Bytes → Bytes → G → Prop) : Prop where
  roles : ∀ i, R.client i ↔ (ops i).isClient = true
  clients : ∃ fits found, R.Serves X cached mode fits found ∧ (∀ i, (ops i).Fits fits) ∧
    ∀ {label payload w}, found label payload w → R.holds w → answered label payload (R.value w)
  rotations : ∀ {i w w'}, ¬ R.client i → R.holds w → R.sem i .lockWrite w () w' → ∃ strong,
    strong w' ∧ Meets (.alone (R.sem i) strong) (fun _ last => R.holds last.unlocked ∧
      R.le (R.value w) (R.value last.unlocked)) (rotateLocked X cached) w'
  lasting : ∀ {label payload g g'}, answered label payload g → R.le g g' → answered label payload g'

variable {ops : Tid → Operation} {w : World} {s s' : System Calls World LithiumError Bytes Tid}

theorem Manages.thread_spec (manages : R.Manages X cached mode ops answered) (i : Tid) :
    Triple (R.thread i) (fun v => Outside i v.1) ((ops i).program X cached mode) fun result v =>
      Outside i v.1 ∧ (ops i).Answered answered result v.2 := by
  obtain ⟨fits, found, serves, fit, answers⟩ := manages.clients
  by_cases client : (ops i).isClient = true
  · exact serves.operation_spec ((manages.roles i).mpr client) answers client (fit i)
  · have other : ¬ R.client i := fun client' => client ((manages.roles i).mp client')
    cases op : ops i with
    | rotate =>
      exact Triple.bind (rotateNow_spec other fun w w' => manages.rotations other)
        (fun _ => Triple.done fun v here => ⟨here, trivial⟩) fun e v here => ⟨here, trivial⟩
    | _ =>
      rw [op] at client
      exact absurd rfl client

/-- What is so at every moment of every run. -/
theorem Manages.reachable (manages : R.Manages X cached mode ops answered) (holds : R.holds w)
    (unlocked : w.control.writer = none ∧ w.control.readers = [])
    (run : Interleaves R.sem ⟨fun i => (ops i).program X cached mode, w⟩ s) :
    ∃ g, R.Inv (s.world, g) ∧ Underway R.thread (fun i result v =>
      Outside i v.1 ∧ (ops i).Answered answered result v.2) ⟨s.threads, s.world, g⟩ := by
  obtain ⟨g, tracked⟩ := run.tracked R.track (R.value w)
  refine ⟨g, R.crew.interleaves ⟨⟨fun _ _ => unlocked.2, fun _ some => absurd unlocked.2 some⟩,
    fun _ => ⟨holds, rfl⟩⟩ (fun i => ⟨_, .refl R i _, manages.thread_spec i _ ⟨?_, ?_⟩⟩) tracked⟩
  · rw [unlocked.2]
    rfl
  · rw [unlocked.1]
    nofun

theorem Manages.holds (manages : R.Manages X cached mode ops answered) (holds : R.holds w)
    (unlocked : w.control.writer = none ∧ w.control.readers = [])
    (run : Interleaves R.sem ⟨fun i => (ops i).program X cached mode, w⟩ s)
    (idle : s.world.control.writer = none) : R.holds s.world := by
  obtain ⟨g, inv, _⟩ := manages.reachable holds unlocked run
  exact (inv.rest idle).1

theorem Manages.returned (manages : R.Manages X cached mode ops answered) (holds : R.holds w)
    (unlocked : w.control.writer = none ∧ w.control.readers = [])
    (run : Interleaves R.sem ⟨fun i => (ops i).program X cached mode, w⟩ s) :
    ∃ g, (s.world.control.writer = none → g = R.value s.world) ∧
      ∀ i result, s.threads i = .done result → (ops i).Answered answered result g := by
  obtain ⟨g, inv, underway⟩ := manages.reachable holds unlocked run
  refine ⟨g, fun idle => (inv.rest idle).2, fun i result finished => ?_⟩
  refine (underway.returned finished fun v v' here moved => ⟨moved.outside here.1, ?_⟩).2
  exact Operation.Answered.mono (fun _ _ here => manages.lasting here moved.grown) here.2

theorem Manages.step (manages : R.Manages X cached mode ops answered) (holds : R.holds w)
    (unlocked : w.control.writer = none ∧ w.control.readers = [])
    (run : Interleaves R.sem ⟨fun i => (ops i).program X cached mode, w⟩ s)
    (client : R.client i) (moves : Moves R.sem i s s') :
    R.stays s.world s'.world ∧ R.Locks s.world.control ∧
      (i ∉ s.world.control.readers → s'.world.view = s.world.view) := by
  obtain ⟨g, inv, underway⟩ := manages.reachable holds unlocked run
  obtain ⟨threads, w₁⟩ := s
  obtain @⟨_, _, w₂, op, next, reply, known, called⟩ := moves
  obtain ⟨_, guar, _⟩ := R.crew.moves inv underway
    (.call known (⟨called, rfl⟩ : tracking R.track (R.sem i) op (w₁, g) reply (w₂, R.track w₂ g)))
  obtain ⟨stays, outside⟩ := guar.2 client
  exact ⟨stays, inv.locks, outside⟩

end

end Regime
end Lithium.Keys
