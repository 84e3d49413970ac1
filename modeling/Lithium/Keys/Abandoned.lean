import Lithium.Keys.Rounds
import Lithium.Keys.Sample

/-! Rotations that fail before their marker is in place. Whatever the store looks like,
such a rotation has touched nothing outside its own directory; and on a settled store the
next rotation goes through, whatever lies in that directory. -/
namespace Lithium.Keys
open Effects Storage

/-- Outside the rotation directory every file is as in `origin`, and so is what the threads
share; the directories are fit for a rotation if they were. -/
structure Intact (origin w : World) : Prop where
  files : ∀ path, ¬ rotateDir <:+ path → w.view path = origin.view path
  control : w.control = origin.control
  tidy : Tidy origin → Tidy w

section
variable {X : Crypto} {env : Env} {tid : Tid} {origin w w' : World}

theorem Intact.refl (w : World) : Intact w w := ⟨fun _ _ => rfl, rfl, id⟩

theorem intact_steady : Steady tid (Intact origin) := by
  intro w w' here step
  refine ⟨fun path outside => ?_, step.control.trans here.control, fun tidy => step.tidy (here.tidy tidy)⟩
  rw [step.view, here.files path outside]

theorem intact_prunable : Prunable (Intact origin) := by
  intro w w' here pruned
  refine ⟨fun path outside => ?_, pruned.control.trans here.control,
    fun tidy => pruned.tidy (here.tidy tidy)⟩
  rw [pruned.view.outside path outside, here.files path outside]

theorem Intact.put {path : Path} {node : Option Node} (here : Intact origin w)
    (inside : rotateDir <:+ path) (step : Step tid (Function.update w.view path node) w w') :
    Intact origin w' := by
  refine ⟨fun other outside => ?_, step.control.trans here.control, fun tidy => step.tidy (here.tidy tidy)⟩
  have apart : other ≠ path := by
    rintro rfl
    exact outside inside
  rw [step.view, Function.update_of_ne apart, here.files other outside]

theorem Intact.get_live (here : Intact origin w) {path : Path} {keyType : String}
    (known : keyTypeOf path = some keyType) : w.fs.get path = origin.fs.get path := by
  have visible := (live_storable known).1
  rw [← view_of_visible visible, ← view_of_visible visible]
  exact here.files path (not_below_rotate_of_live known)

/-- A rotation takes this live keyfile for one of its targets. -/
def Targeted (origin : World) (path : Path) : Prop :=
  ListedIn (fun path => (origin.fs.stat path).isSome)
    (fun path => (origin.fs.stat path).any fun metadata => metadata.ftype = .regular) path

theorem Intact.stats (here : Intact origin w) :
    Stats (fun path => (origin.fs.stat path).isSome)
      (fun path => (origin.fs.stat path).any fun metadata => metadata.ftype = .regular) w := by
  intro path keyType known
  simp only [FileSystem.stat, here.get_live known, and_self]

/-- A thread by itself, with nothing asked of the worlds in between. -/
abbrev Free (env : Env) (tid : Tid) : Protocol Calls World := Solo env tid fun _ => True

theorem free_steady : Steady tid fun _ => True := fun _ _ _ _ => trivial

theorem keeps_intact : Keeps (Free env tid) tid (Intact origin) :=
  keeps_solo free_steady intact_steady

theorem publishes_intact {path : Path} {data : Bytes} (inside : rotateDir <:+ path) :
    Publishes (Free env tid) tid path data (fun _ => True) (Intact origin) (Intact origin) where
  before := keeps_intact
  behind := keeps_intact
  put := fun here _ _ step => ⟨trivial, trivial, here.put inside step⟩

theorem writeSecure_intact {path : Path} {data : Bytes} (storable : Storable path)
    (inside : rotateDir <:+ path) :
    Triple (Free env tid) (Intact origin) (writeSecure path data) fun _ => Intact origin := by
  refine (writeSecure_spec (party_solo env tid _) (publishes_intact inside) storable
    excused).weaken fun result w ended => ?_
  cases result with
  | ok _ => exact ended
  | error e => exact ended.1

theorem saveNextMk_intact (lawful : X.Lawful) (oldMk newMk : Key) :
    Triple (Free env tid) (Intact origin) (saveNextMk X oldMk newMk) fun _ => Intact origin := by
  have saves : ∀ (path : Path) (sealer : Key) (keyType : String), Storable path →
      rotateDir <:+ path → (aadFor keyfileVersion keyType).length ≤ Crypto.limit →
      Triple (Free env tid) (Intact origin) (saveSecret32Encrypted X path sealer newMk keyType)
        fun _ => Intact origin := by
    intro path sealer keyType storable inside aad
    have short : newMk.1.length ≤ Crypto.limit := by
      rw [newMk.2]
      decide
    refine (saveBytesEncrypted_spec X (party_solo env tid _) (fun _ _ _ => publishes_intact inside)
      keeps_intact (fun draws => sealRecord_within lawful draws aad short) storable
      excused).weaken fun result w ended => ?_
    cases result with
    | ok _ => exact ended
    | error e => exact ended.1
  obtain ⟨-, oldStorable, newStorable⟩ := rotate_files_storable
  obtain ⟨-, oldInside, newInside⟩ := rotate_files_below
  refine Triple.bind (saves nextOldPath oldMk ktRotateNextOld oldStorable oldInside aad_next.1)
    (fun _ => ?_) fun _ _ ended => ended
  exact saves nextNewPath newMk ktRotateNextNew newStorable newInside aad_next.2

theorem stageFiles_intact (oldMk newMk : Key) (targets : List RewrapTarget)
    (live : ∀ target ∈ targets, keyTypeOf target.livePath = some target.keyType ∧
      stageTargetPath target.relativePath = stagePath target.livePath) :
    Triple (Free env tid) (Intact origin) (stageFiles X oldMk newMk targets) fun result w =>
      Intact origin w ∧ (result = .ok () → ∀ target ∈ targets,
        ∃ data, readNode (origin.fs.get target.livePath) = .ok data) := by
  induction targets with
  | nil => exact Triple.done fun w here => ⟨here, fun _ target member => by cases member⟩
  | cons target rest ih =>
    obtain ⟨known, location⟩ := live target List.mem_cons_self
    have storable := staged_storable known
    have still : Still (Free env tid) (Intact origin) := still_solo
    have failed : ∀ (e : LithiumError) w, Intact origin w → Intact origin w ∧
        ((.error e : Except LithiumError Unit) = .ok () → ∀ other ∈ target :: rest,
          ∃ data, readNode (origin.fs.get other.livePath) = .ok data) :=
      fun e w here => ⟨here, by rintro ⟨⟩⟩
    refine Triple.bind (rewrapKeyfileDekToBytes_spec X (party_solo env tid _) still target.livePath
      oldMk newMk target.keyType) (fun out => ?_) fun e w ended => failed e w ended.1
    rintro w ⟨here, w₀, salt, nonce, there, answers⟩
    have readable : ∃ data, readNode (origin.fs.get target.livePath) = .ok data := by
      have rewrapped := answers.ok
      rw [there.get_live known, rewrapNode] at rewrapped
      obtain ⟨data, read, -⟩ := bind_ok rewrapped
      exact ⟨data, read⟩
    rw [location]
    refine Triple.bind (ensureParent_spec (party_solo env tid _) keeps_intact storable excused)
      (fun _ => ?_) (fun e w ended => failed e w ended.1) w here
    refine Triple.mono (Triple.bind (writeSecure_intact storable (below_rotate_of_staged known))
      (fun _ => ?_) failed) (fun w here => here.1) fun _ _ ended => ended
    refine Triple.bind (syncParent_spec True free_steady intact_steady storable excused)
      (fun _ => ?_) fun e w ended => failed e w ended.1
    refine (ih fun other member => live other (List.mem_cons_of_mem _ member)).mono
      (fun w here => here.1) fun result w ended => ⟨ended.1, fun done other member => ?_⟩
    rcases List.mem_cons.mp member with rfl | later
    · exact readable
    · exact ended.2 done other later

theorem prepareStagedFiles_intact (oldMk newMk : Key) (targets : List RewrapTarget)
    (live : ∀ target ∈ targets, keyTypeOf target.livePath = some target.keyType ∧
      stageTargetPath target.relativePath = stagePath target.livePath) :
    Triple (Free env tid) (Intact origin) (prepareStagedFiles X oldMk newMk targets) fun result w =>
      Intact origin w ∧ (result = .ok () → ∀ target ∈ targets,
        ∃ data, readNode (origin.fs.get target.livePath) = .ok data) := by
  refine Triple.bind (ensurePrivateDir_spec (party_solo env tid _) keeps_intact stagedDir (by decide)
    excused) (fun _ => ?_) fun e w ended => ⟨ended.1, by rintro ⟨⟩⟩
  refine Triple.mono (Triple.bind (stageFiles_intact oldMk newMk targets live) (fun _ => ?_)
    fun e w ended => ⟨ended.1, by rintro ⟨⟩⟩) (fun w here => here.1) fun _ _ ended => ended
  rintro w ⟨here, readable⟩
  refine ((syncDir_spec True free_steady intact_steady stagedDir (fun _ => True) excused).mono
    (fun w here => ⟨here, trivial⟩) fun result w ended => ⟨ended.1, fun _ => readable rfl⟩) w here

theorem writeMarker_intact :
    Triple (Free env tid) (Intact origin) (writeMarker readyPath readyBytes) fun result w =>
      Intact origin w ∧ (result = .ok () → w.fs.get readyPath ≠ none) := by
  have storable := rotate_files_storable.1
  have steady : Steady tid fun w => Intact origin w ∧ w.view readyPath ≠ none :=
    intact_steady.and (steady_view fun v _ => v readyPath ≠ none)
  have publishes : Publishes (Free env tid) tid readyPath readyBytes (fun _ => True) (Intact origin)
      fun w => Intact origin w ∧ w.view readyPath ≠ none := by
    refine ⟨keeps_intact, keeps_solo free_steady steady, fun here _ _ step => ⟨trivial, trivial,
      here.put rotate_files_below.1 step, ?_⟩⟩
    rw [step.view, Function.update_self]
    exact Option.some_ne_none _
  refine Triple.bind (writeSecure_spec (party_solo env tid _) publishes storable excused)
    (fun _ => ?_) fun e w ended => ⟨ended.1, by rintro ⟨⟩⟩
  refine (syncParent_spec True free_steady steady storable excused).weaken fun result w ended => ?_
  obtain ⟨⟨intact, marked⟩, -⟩ := ended
  rw [view_of_visible storable.1] at marked
  exact ⟨intact, fun _ => marked⟩

/-- The targets are live keyfiles; all of them, where they are seen. -/
theorem collectRewrapTargets_intact :
    Triple (Free env tid) (Intact origin) collectRewrapTargets fun result w => Intact origin w ∧
      ∀ targets, result = .ok targets →
        (∀ target ∈ targets, keyTypeOf target.livePath = some target.keyType ∧
          stageTargetPath target.relativePath = stagePath target.livePath) ∧
        (env.Sighted → ∀ path keyType, keyTypeOf path = some keyType → Targeted origin path →
          ⟨path, path.take (path.length - rootDir.length), keyType⟩ ∈ targets) := by
  by_cases sighted : env.Sighted
  · refine (collectRewrapTargets_lists (fun w here => here.stats) excused).weaken ?_
    rintro _ w ⟨here, listed⟩
    refine ⟨here, ?_⟩
    rintro targets rfl
    refine ⟨fun target member => ?_, fun _ path keyType known targeted =>
      (listed.2 _).mpr ⟨path, keyType, known, targeted, rfl⟩⟩
    obtain ⟨path, keyType, known, -, rfl⟩ := (listed.2 target).mp member
    exact ⟨known, rfl⟩
  · refine collectRewrapTargets_live.weaken fun result w ended => ⟨ended.1, fun targets done => ?_⟩
    exact ⟨ended.2 targets done, fun sees => absurd sees sighted⟩

/-- The marker is in place, and every target of the rotation could be read. -/
structure Primed (env : Env) (origin w : World) : Prop where
  marked : w.fs.get readyPath ≠ none
  readable : env.Sighted → ∀ path keyType, keyTypeOf path = some keyType → Targeted origin path →
    ∃ data, readNode (origin.fs.get path) = .ok data

theorem fillRotationDir_intact (lawful : X.Lawful) :
    Triple (Free env tid) (Intact origin) (fillRotationDir X) fun result w =>
      Intact origin w ∧ ∀ value, result = .ok value → Primed env origin w := by
  have party := party_solo env tid fun _ => True
  have still : Still (Free env tid) (Intact origin) := still_solo
  have failed : ∀ (e : LithiumError) w, Intact origin w → Intact origin w ∧
      ∀ value : List RewrapTarget × Key, Except.error e = .ok value → Primed env origin w :=
    fun e w here => ⟨here, by rintro _ ⟨⟩⟩
  have syncs : Triple (Free env tid) (Intact origin) (syncDir rotateDir) fun _ => Intact origin :=
    (syncDir_spec True free_steady intact_steady rotateDir (fun _ => True) excused).mono
      (fun w here => ⟨here, trivial⟩) fun _ _ ended => ended.1
  have loads : Triple (Free env tid) (Intact origin) loadMk fun _ => Intact origin :=
    observe party still rfl fun reply => Triple.done fun w here => here.1
  refine Triple.bind syncs (fun _ => ?_) failed
  refine Triple.bind loads (fun oldMk => ?_) failed
  refine Triple.bind (randomFixed_spec party still .masterKey) (fun newMk => ?_)
    fun e w ended => failed e w ended.1
  refine Triple.mono (Triple.bind collectRewrapTargets_intact
    (fun targets => ?_) fun e w ended => failed e w ended.1) (fun w here => here.1)
    fun _ _ ended => ended
  rintro w ⟨here, collected⟩
  obtain ⟨live, complete⟩ := collected targets rfl
  refine Triple.bind (saveNextMk_intact lawful oldMk newMk) (fun _ => ?_) failed w here
  refine Triple.bind syncs (fun _ => ?_) failed
  refine Triple.bind (prepareStagedFiles_intact oldMk newMk targets live) (fun _ => ?_)
    fun e w ended => failed e w ended.1
  rintro w ⟨here, readable⟩
  refine Triple.bind writeMarker_intact (fun _ => ?_) (fun e w ended => failed e w ended.1) w here
  refine Triple.done fun w ended => ⟨ended.1, fun _ _ => ⟨ended.2 rfl, ?_⟩⟩
  intro sighted path keyType known targeted
  exact readable rfl _ (complete sighted path keyType known targeted)

/-- Preparing a rotation changes nothing outside its directory, on any store. Where it
succeeds it leaves the marker, and could read all its targets. -/
theorem prepareRotation_intact (lawful : X.Lawful) :
    Triple (Free env tid) (Intact origin) (prepareRotation X) fun result w =>
      Intact origin w ∧ ∀ value, result = .ok value → Primed env origin w := by
  refine Triple.bind (cleanupRotationDir_spec free_steady (fun _ _ _ _ => trivial) intact_steady
    intact_prunable excused) (fun _ => ?_) fun e w ended => ⟨ended.1, by rintro _ ⟨⟩⟩
  refine Triple.mono (Triple.bind (ensurePrivateDir_spec (party_solo env tid _) keeps_intact
    rotateDir (by decide) excused) (fun _ => ?_) fun e w ended => ⟨ended.1, by rintro _ ⟨⟩⟩)
    (fun w here => here.1) fun _ _ ended => ended
  exact (fillRotationDir_intact lawful).mono (fun w here => here.1) fun _ _ ended => ended

/-- Where no marker is seen, recovery touches nothing outside the rotation directory. -/
theorem recover_intact :
    Triple (Free env tid) (fun w => Intact origin w ∧ w.view readyPath = none)
      (recoverPendingRotationIfAny X) fun _ => Intact origin := by
  have steady : Steady tid fun w => Intact origin w ∧ w.view readyPath = none :=
    intact_steady.and (steady_view fun v _ => v readyPath = none)
  have prunable : Prunable fun w => Intact origin w ∧ w.view readyPath = none := by
    rintro w w' ⟨here, unmarked⟩ pruned
    refine ⟨intact_prunable w w' here pruned, ?_⟩
    rcases pruned.view.gone readyPath with same | gone
    · exact same.trans unmarked
    · exact gone
  exact (recover_clean X free_steady (fun _ _ _ _ => trivial) steady prunable
    (fun w here => here.2) excused).weaken fun result w ended => ended.1.1

end

section
variable {X : Crypto} {env : Env} {tid : Tid} {start w : World}

/-- A rotation that succeeds could read every keyfile it is about. -/
theorem rotateNow_readable [env.Sighted] (lawful : X.Lawful) (cached : Bool) :
    Triple (Free env tid) (fun w => w = start ∧ w.fs.get readyPath = none) (rotateNow X cached)
      fun result _ => result = .ok () → ∀ path keyType, keyTypeOf path = some keyType →
        Targeted start path → ∃ data, readNode (start.fs.get path) = .ok data := by
  have rotates : Triple (Free env tid) (fun w => Intact (start.lockedBy tid) w ∧
      w.view readyPath = none) (rotateLocked X cached) fun result _ => result = .ok () →
        ∀ path keyType, keyTypeOf path = some keyType → Targeted start path →
          ∃ data, readNode (start.fs.get path) = .ok data := by
    refine Triple.bind recover_intact (fun _ => ?_) fun e w _ => by rintro ⟨⟩
    refine Triple.bind (prepareRotation_intact lawful) (fun value => ?_) fun e w _ => by rintro ⟨⟩
    rintro w ⟨-, primed⟩
    exact Meets.free (fun _ _ _ => (primed value rfl).readable inferInstance) _ w
  refine rotateNow_guards id (fun _ _ _ => trivial) ?_ rotates fun result w ended => ended
  rintro w - ⟨rfl, unmarked⟩
  exact ⟨.refl _, (view_of_visible rotate_files_storable.1.1).trans unmarked⟩

theorem AtRest.intact {payloads : Payloads} {mk : Key} (rest : AtRest X .any payloads mk start)
    (intact : Intact start w) (unmarked : w.fs.get readyPath = none) : AtRest X .any payloads mk w where
  provided := by
    rw [intact.control]
    exact rest.provided
  unmarked := (view_of_visible rotate_files_storable.1.1).trans unmarked
  live := rest.live.congr fun path _ known => intact.files path (not_below_rotate_of_live known)
  tidy := intact.tidy rest.tidy
  unlocked := by
    rw [intact.control]
    exact rest.unlocked

end

/-- The choices of a run whose call number `n` fails. -/
def failingAt (n : Nat) : Nat → Op → World → Choice := fun count op w =>
  { plainly 1 someLeaf count op w with fault := if count = n then some (.io .storageFull) else none }

end Lithium.Keys
