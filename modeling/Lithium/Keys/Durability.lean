import Lithium.Keys.Crash

/-! What is durable when a rotation overwrites its first live keyfile. The entry of
the rotation directory in the store root is not: the root is synced when an old
rotation directory has been removed, and not again after the new one was made. -/
namespace Lithium.Keys
open Effects Storage

/-- The entries recovery reaches the files of a rotation by. -/
def Needed (payloads : Payloads) (path : Path) : Prop :=
  path ∈ [rotateDir, readyPath, nextOldPath, nextNewPath, stagedDir] ∨
    ∃ live keyType, keyTypeOf live = some keyType ∧ (payloads live).isSome = true ∧
      (path = stagePath live ∨ path = (stagePath live).tail)

/-- In `w` a rotation that began in `start` is about to replace a live keyfile, and has
not replaced any: all of them are still under the key it began with. -/
def FirstOverwrite (X : Crypto) (env : Env) (tid : Tid) (cached : Bool) (payloads : Payloads)
    (start w : World) : Prop :=
  ∃ mk tmp path, start.control.providerMk = some mk ∧ LiveUnder X payloads mk w.view ∧
    (keyTypeOf path).isSome = true ∧
    ComesTo (sem env tid) (rotateNow X cached) start (.rename tmp path) w ∧
    ∃ w', sem env tid (.rename tmp path) w (.ok ()) w'

/-- Nothing that recovery needs can be lost once live keyfiles are replaced. -/
def DurableBeforeOverwrite (X : Crypto) (env : Env) (tid : Tid) (cached : Bool) (payloads : Payloads)
    (start : World) : Prop :=
  ∀ w, FirstOverwrite X env tid cached payloads start w →
    ∀ path, Needed payloads path → w.fs.Durable path

def changesFiles : Op → Bool
  | .mkdir _ | .openLock _ | .createNew _ | .writeAll .. | .rename .. | .hardLink ..
  | .removeFile _ | .removeEntry _ | .syncDir _ => true
  | _ => false

theorem sem_files {env : Env} {tid : Tid} {op : Op} {w w' : World} {reply : Reply op}
    (aside : changesFiles op = false) (step : sem env tid op w reply w') : w'.fs = w.fs := by
  have leaves : leavesFiles op = true := by
    cases op <;> first | rfl | cases aside
  exact sem_leavesFiles leaves step

/-- Only a sync of the store root and the removal of entries end that the rotation
directory is volatile. -/
theorem volatile_kept {env : Env} {tid : Tid} {op : Op} {w w' : World} {reply : Reply op}
    (sync : op ≠ .syncDir rootDir) (remove : ∀ root, op ≠ .removeEntry root)
    (volatile : w.fs.Volatile rotateDir) (step : sem env tid op w reply w') :
    w'.fs.Volatile rotateDir := by
  by_cases aside : changesFiles op = false
  · rw [sem_files aside step]
    exact volatile
  obtain ⟨_, rfl, _⟩ | ⟨choice, effected⟩ := sem_cases step
  · exact volatile
  cases op with
  | mkdir path | createNew path =>
    cases effected
    exact volatile.create _ path
  | openLock path =>
    cases effected
    show (openLock w.fs path).2.Volatile rotateDir
    unfold openLock
    split
    · exact volatile.create _ path
    · split <;> exact volatile
  | writeAll path data =>
    cases effected
    exact volatile.write data path
  | rename source target =>
    cases effected
    exact volatile.rename source target
  | hardLink source target =>
    cases effected
    exact volatile.hardLink source target
  | removeFile path =>
    cases effected
    exact volatile.removeFile path
  | syncDir dir =>
    cases effected
    exact volatile.syncDir fun same => sync (same ▸ rfl)
  | removeEntry root => exact absurd rfl (remove root)
  | _ => exact absurd rfl aside

section
variable {X : Crypto} {custody : Custody} {payloads : Payloads} {mk : Key} {env : Env} {tid : Tid}
  {origin w : World}

theorem sem_of_effect {op : Op} (choice : Choice) {reply : Reply op} {w' : World}
    (unforced : choice.fault = none) (effected : effect env tid choice op w = some (reply, w')) :
    sem env tid op w reply w' := ⟨choice, by simp only [exec, unforced, effected]⟩

theorem makeRotateDir_run (env : Env) (tid : Tid) (absent : w.fs.get rotateDir = none) (root : w.fs.isDir rootDir = true) :
    ∃ w', Returns (sem env tid) (ensurePrivateDir rotateDir) w (.ok ()) w' ∧
      w'.fs.Volatile rotateDir := by
  obtain ⟨_, _, fs, made, unsynced, get⟩ | ⟨present, _⟩ | ⟨orphan, _⟩ :=
    w.fs.create_spec ⟨.directory, 0o700, []⟩ (plain ".rotate") rootDir
  · refine ⟨{ w with fs := fs }, ?_, ⟨⟨_, by rw [get]; exact Function.update_self .., rfl⟩,
      by rw [unsynced]; exact List.mem_cons_self⟩⟩
    have looked : sem env tid (.symlinkMetadata rotateDir) w (.error .notFound) w :=
      sem_of_effect ⟨none, [], [], 0⟩ rfl (by simp only [effect, FileSystem.symlinkMetadata, absent])
    have created : sem env tid (.mkdir rotateDir) w (.ok ()) { w with fs := fs } :=
      sem_of_effect ⟨none, [], [], 0⟩ rfl (by
        simp only [effect, FileSystem.mkdir, World.onFs, rotateDir, made]
        rfl)
    exact Leads.next looked (Leads.next created (.refl _))
  · exact absurd absent present
  · rw [root] at orphan
    cases orphan

def LeavesVolatile (op : Op) : Prop := op ≠ .syncDir rootDir ∧ ∀ root, op ≠ .removeEntry root

theorem volatile_returns {α : Type} {program : Prog α} {result : Except LithiumError α} {w' : World}
    (calls : program.Calls LeavesVolatile) (run : Returns (sem env tid) program w result w')
    (volatile : w.fs.Volatile rotateDir) : w'.fs.Volatile rotateDir := by
  have meets : Meets (Solo env tid fun w => w.fs.Volatile rotateDir) _ program w :=
    Meets.invariant calls (fun _ _ _ _ allowed here step =>
      volatile_kept allowed.1 allowed.2 here step) volatile
  exact meets.returns volatile run

theorem leavesVolatile_of_special (op : Op) (free : special op = false) : LeavesVolatile op := by
  constructor
  · rintro rfl
    cases free
  · rintro root rfl
    cases free

theorem leavesVolatile_inside (dir : Path) (inside : rotateDir <:+ dir) :
    LeavesVolatile (.syncDir dir) := by
  refine ⟨fun same => ?_, fun root same => by cases same⟩
  cases same
  exact absurd inside (by decide)

theorem fillRotationDir_volatile : (fillRotationDir X).Calls LeavesVolatile :=
  fillRotationDir_calls leavesVolatile_of_special leavesVolatile_inside X
    ⟨by rintro ⟨⟩, by rintro root ⟨⟩⟩

/-- A rotation from a settled store completes its marker, with its directory volatile. -/
theorem prepare_run (tid : Tid) (lawful : X.Lawful) (upheld : custody.Upheld X env)
    (draws : ∀ mk, ∃ new, env.masterKey mk new = true) (faultless : env.faults = false)
    (here : FinishedAt X custody payloads mk w) (frame : Frame origin False w) :
    ∃ targets new w', Returns (sem env tid) (prepareRotation X) w (.ok (targets, new)) w' ∧
      Prepares X custody payloads mk origin False False (.ok (targets, new)) w' ∧
      w'.fs.Volatile rotateDir := by
  have sighted : env.Sighted := .of_faultless faultless
  have calm : ¬ False → Quiet env False := fun _ => ⟨faultless, id⟩
  have sound := frame.sound (.inr ⟨mk, here⟩)
  have prepares : Meets (Solo env tid (Sound X custody payloads False)) _ (prepareRotation X) w :=
    prepareRotation_spec lawful upheld calm w ⟨here, frame⟩
  obtain ⟨_, w₁, cleaned, _, ⟨_, frame₁⟩, _, impossible | ⟨rfl, gone⟩⟩ :=
    (cleanup_finished calm w ⟨here, frame⟩).runs sound (calls_return tid w
      (cleanupRotationDir_calls waits_of_special (fun _ => rfl) fun _ => rfl))
  · exact impossible.elim
  obtain ⟨w₂, made, volatile⟩ :=
    makeRotateDir_run env tid gone (frame₁.tidy.resolve_left id).root.isDir
  have path : Leads (sem env tid) (prepareRotation X, w) (fillRotationDir X, w₂) :=
    cleaned.followed (made.followed (.refl _))
  obtain ⟨sound₂, fills⟩ := prepares.leads sound path
  obtain ⟨result, w₃, filled, _, ended⟩ := fills.runs sound₂ (calls_return_drawing tid w₂ draws
    (fillRotationDir_calls (fun op free => .inl (waits_of_special op free)) (fun _ _ => .inl rfl) X
      (.inr rfl)))
  match result, ended with
  | .ok (targets, new), ended =>
    exact ⟨targets, new, w₃, path.trans filled, ended,
      volatile_returns fillRotationDir_volatile filled volatile⟩
  | .error e, ended => exact ended.2.elim

theorem ready_steady {path : Path} (storable : Storable path) : Steady tid (Ready path) := by
  intro w w' ready step
  refine ⟨step.makeable storable.2 ready.1, step.fresh ready.2.1, fun old found => ready.2.2 old ?_⟩
  rwa [← view_of_visible storable.1, step.view, view_of_visible storable.1] at found

/-- Up to its rename `write_secure` goes through, with the view as it was. -/
theorem writeSecure_run (faultless : env.faults = false) {path : Path} (storable : Storable path)
    (data : Bytes) (ready : Ready path w) (volatile : w.fs.Volatile rotateDir) :
    ∃ tmp w', ComesTo (sem env tid) (writeSecure path data) w (.rename tmp path) w' ∧
      (w'.view = w.view ∧ w'.fs.Volatile rotateDir) ∧
      ∃ w'', sem env tid (.rename tmp path) w' (.ok ()) w'' := by
  let v := w.view
  have party := party_solo env tid fun _ => True
  have steady : Steady tid fun w => w.view = v ∧ Ready path w :=
    (steady_view fun view _ => view = v).and (ready_steady storable)
  have keeps : Keeps (Solo env tid fun _ => True) tid fun w => w.view = v ∧ Ready path w :=
    keeps_solo (fun _ _ _ _ => trivial) steady
  have calm : ¬ False → Calm (Solo env tid fun _ => True) env ∧
      ∀ w, (w.view = v ∧ Ready path w) → Ready path w :=
    fun _ => ⟨calm_solo faultless, fun _ here => here.2⟩
  have parent := keeps_parent keeps path.tail calm
  have named : path ≠ [] := by
    rintro rfl
    cases storable.1
  obtain ⟨_, w₁, made, _, here₁, impossible | ⟨rfl, private_⟩⟩ :=
    (ensureParent_spec party keeps storable calm w ⟨rfl, ready⟩).runs trivial
      (calls_return tid w (ensureParent_calls waits_of_special path))
  · exact impossible.elim
  obtain ⟨_, w₂, created, _, here₂, tmp, rfl, empty⟩ :=
    (createPrivateTmp_makes party parent named (calm_solo faultless) (fun w here =>
      ⟨(here.2.resolve_left id).isDir, here.1.2.2.1⟩) w₁ ⟨here₁, .inr private_⟩).runs trivial
      (calls_return tid w₁ (createPrivateTmp_calls waits_of_special path))
  obtain ⟨result, w₃, wrote, _, here₃, ended⟩ :=
    (writeTmp_spec party parent tmp data w₂ ⟨here₂, empty⟩).runs trivial
      (calls_return tid w₂ (writeTmp_calls waits_of_special tmp data))
  match result, ended with
  | .error e, faults =>
    rw [faultless] at faults
    cases faults
  | .ok (), full =>
    have volatile := volatile_returns (ensureParent_calls leavesVolatile_of_special path) made volatile
    have volatile := volatile_returns (createPrivateTmp_calls leavesVolatile_of_special path) created
      volatile
    have volatile := volatile_returns (writeTmp_calls leavesVolatile_of_special tmp data) wrote volatile
    refine ⟨tmp, w₃, .after made (.after created (.after wrote ⟨_, .refl _⟩)),
      ⟨here₃.1.1, volatile⟩, ?_⟩
    have serial : ∃ reply w₄, sem env tid (.rename tmp path) w₃ reply w₄ :=
      sem_serial tid _ w₃ (.inl rfl)
    obtain ⟨reply, w₄, renamed⟩ := serial
    obtain ⟨rfl, _⟩ | ⟨_, _, _, faults | orphan | ⟨old, found, directory⟩⟩ :=
      sem_rename storable.1 full renamed
    · exact ⟨w₄, renamed⟩
    · rw [faultless] at faults
      cases faults
    · rw [(here₃.2.resolve_left id).isDir] at orphan
      cases orphan
    · exact absurd directory (here₃.1.2.2.2 old found)

/-- Committing a prepared rotation comes to the overwrite of a live keyfile. -/
theorem apply_run (faultless : env.faults = false) {new : Key} {target : RewrapTarget}
    {targets : List RewrapTarget} (covers : Covers payloads (target :: targets))
    (here : PreparedAt X custody payloads mk new w) (tidy : Tidy w)
    (volatile : w.fs.Volatile rotateDir) :
    ∃ tmp w', ComesTo (sem env tid) (applyStagedFiles (target :: targets)) w
        (.rename tmp target.livePath) w' ∧
      (w'.view = w.view ∧ w'.fs.Volatile rotateDir) ∧
      ∃ w'', sem env tid (.rename tmp target.livePath) w' (.ok ()) w'' := by
  obtain ⟨known, location, sealed⟩ := covers.live target List.mem_cons_self
  obtain ⟨ready, _, data, staged⟩ := appliable_of_tidy tidy here.2.2.live
    (fun path keyType payload known sealed => by
      obtain ⟨_, data, _, _, read, _⟩ :=
        loadNode_ok (here.2.2.staged path keyType payload known sealed).loads
      exact ⟨data, read⟩) _ _ known sealed
  have still : Still (Solo env tid fun _ => True) (· = w) := still_solo
  obtain ⟨result, w₁, read, _, rfl, answers⟩ :=
    (readKeyfileBytes_spec (party_solo env tid _) still (stageTargetPath target.relativePath) w
      rfl).runs trivial (calls_return tid w (readKeyfileBytes_calls waits_of_special _))
  rw [location, ← view_of_visible (staged_storable known).1, staged] at answers
  cases answers.calm faultless
  obtain ⟨tmp, w', wrote, after⟩ :=
    writeSecure_run faultless (live_storable known) data ready volatile
  exact ⟨tmp, w', .after read wrote.bind, after⟩

theorem sem_rename_present {source path : Path} {w' : World}
    (renamed : sem env tid (.rename source path) w (.ok ()) w') : (w'.fs.get path).isSome = true := by
  obtain done | ⟨_, _, e, failed⟩ := sem_natural (fun _ => rfl) renamed
  · obtain ⟨ok, rfl⟩ := Prod.mk.inj done
    exact FileSystem.rename_present ok.symm
  · obtain ⟨kind, failed⟩ := ioFailure_eq failed
    cases failed

theorem sem_rename_ok {source path : Path} (ok : (w.fs.rename source path).1 = .ok ()) :
    ∃ w', sem env tid (.rename source path) w (.ok ()) w' :=
  ⟨(w.onFs (w.fs.rename source path)).2, sem_of_effect ⟨none, [], [], 0⟩ rfl
    (congrArg some (Prod.ext ok rfl))⟩

/-- A rotation of a settled store with a live keyfile comes to its first overwrite
while the rotation directory is volatile. -/
theorem rotate_run {keys : Key → Prop} (tid : Tid) (lawful : X.Lawful)
    (upheld : (Custody.plain keys).Upheld X env)
    (draws : ∀ mk, ∃ new, env.masterKey mk new = true) (faultless : env.faults = false)
    (settled : Settled X payloads w) (tidy : Tidy w)
    (known : ∀ mk, w.control.providerMk = some mk → keys mk)
    (idle : w.control.writer = none ∧ w.control.readers = []) (cached : Bool) {path : Path}
    {keyType : String} (live : keyTypeOf path = some keyType) (sealed : payloads path ≠ none) :
    ∃ w', FirstOverwrite X env tid cached payloads w w' ∧ w'.fs.Volatile rotateDir := by
  have sighted : env.Sighted := .of_faultless faultless
  obtain ⟨mk, provided, unmarked, under⟩ := settled
  let w₀ : World := { w with control := { w.control with writer := some tid } }
  have locked : sem env tid .lockWrite w () w₀ :=
    sem_of_effect ⟨none, [], [], 0⟩ rfl (by simp [effect, idle, w₀])
  have finished : FinishedAt X (.plain keys) payloads mk w₀ :=
    ⟨⟨provided, known mk provided⟩, .inl ⟨unmarked, under, fun _ _ _ _ _ => trivial⟩⟩
  have frame : Frame w₀ False w₀ := ⟨rfl, .refl _, .inr (tidy.control _)⟩
  have calm : ¬ False → Quiet env False := fun _ => ⟨faultless, id⟩
  obtain ⟨_, w₁, recovered, _, ⟨finished₁, frame₁⟩, _, impossible | ⟨rfl, _⟩⟩ :=
    (recover_unmarked calm w₀ ⟨⟨finished, frame⟩, unmarked⟩).runs (frame.sound (.inr ⟨mk, finished⟩))
      (calls_return tid w₀ (recoverPendingRotationIfAny_calls waits_of_special (fun _ => rfl)
        (fun _ => rfl) X))
  · exact impossible.elim
  obtain ⟨targets, new, w₂, prepared, ⟨kept, here, covers⟩, volatile⟩ :=
    prepare_run tid lawful upheld draws faultless finished₁ frame₁
  obtain ⟨target, rest, rfl⟩ : ∃ target rest, targets = target :: rest := by
    obtain ⟨target, member, _⟩ := covers.all path keyType live (Option.isSome_iff_ne_none.mpr sealed)
    exact List.exists_cons_of_ne_nil (List.ne_nil_of_mem member)
  obtain ⟨tmp, w', applied, ⟨viewed, volatile⟩, renames⟩ :=
    apply_run faultless covers here (kept.frame.tidy.resolve_left id) volatile
  have commits : ComesTo (sem env tid) (commitRotation X (target :: rest) new) w₂ _ w' :=
    applied.bind.attempt.bind
  have rotates : ComesTo (sem env tid) (rotateLocked X cached) w₀ (.rename tmp target.livePath) w' :=
    .after recovered (.after prepared commits.bind)
  refine ⟨w', ⟨mk, tmp, target.livePath, provided, ?_, ?_, .next locked rotates.attempt.bind,
    renames⟩, volatile⟩
  · rw [viewed]
    exact kept.live.under
  · rw [(covers.live target List.mem_cons_self).1]
    rfl

end

/-- For a rotation that starts from a settled store with nothing else running, all that
recovery needs is durable before the first overwrite exactly if there is nothing to
overwrite. -/
theorem durableBeforeOverwrite_iff {X : Crypto} {keys : Key → Prop} {payloads : Payloads} {env : Env}
    {start : World} (lawful : X.Lawful) (separated : Separated X keys) (fresh : FreshDraws env keys)
    (draws : ∀ mk, ∃ new, env.masterKey mk new = true) (faultless : env.faults = false)
    (settled : Settled X payloads start) (tidy : Tidy start)
    (known : ∀ mk, start.control.providerMk = some mk → keys mk)
    (idle : start.control.writer = none ∧ start.control.readers = []) (tid : Tid) (cached : Bool) :
    DurableBeforeOverwrite X env tid cached payloads start ↔
      ∀ path keyType, keyTypeOf path = some keyType → payloads path = none := by
  have upheld := Custody.plain_upheld separated fresh
  have sighted : env.Sighted := .of_faultless faultless
  constructor
  · intro durable path keyType live
    by_contra sealed
    obtain ⟨w, overwrites, volatile⟩ := rotate_run tid lawful upheld draws faultless
      settled tidy known idle cached live sealed
    exact volatile.not_durable (durable w overwrites rotateDir (.inl List.mem_cons_self))
  · intro none w overwrites
    obtain ⟨mk, tmp, path, _, _, live, ⟨rest, comes⟩, w', renamed⟩ := overwrites
    obtain ⟨keyType, live⟩ := Option.isSome_iff_exists.mp live
    have sound : Sound X (.plain keys) payloads True start := ⟨settled.recoverable known, .inl trivial⟩
    have meets : Meets (Solo env tid (Sound X (.plain keys) payloads True)) _ (rotateNow X cached) start :=
      rotateNow_spec lawful upheld trivial excused cached start
        ⟨⟨sound.1, ⟨rfl, .refl _, .inl trivial⟩⟩, rfl⟩
    obtain ⟨here, step⟩ := meets.leads sound comes
    have after : Sound X (.plain keys) payloads True w' := (step w rfl here (.ok ()) w' renamed).1
    have present : Present payloads w'.view := by
      obtain ⟨⟨old, new, prepared⟩ | ⟨mk, finished⟩, _⟩ := after
      · exact prepared.2.2.live
      · exact finished.live.under.present
    have absent := (get_live present live).mp (sem_rename_present renamed)
    rw [none path keyType live] at absent
    cases absent

def sameLive (w w' : World) : Bool :=
  (w.fs.entries.keys ++ w'.fs.entries.keys).all fun path =>
    (keyTypeOf path).isNone || w.fs.get path = w'.fs.get path

theorem LiveUnder.same {X : Crypto} {payloads : Payloads} {mk : Key} {w w' : World}
    (live : LiveUnder X payloads mk w.view) (checked : sameLive w w' = true) :
    LiveUnder X payloads mk w'.view := by
  refine live.congr fun path keyType known => ?_
  have visible := (live_storable known).1
  rw [view_of_visible visible, view_of_visible visible]
  by_cases present : w.fs.get path = none ∧ w'.fs.get path = none
  · rw [present.1, present.2]
  · have member : path ∈ w.fs.entries.keys ++ w'.fs.entries.keys := by
      rw [List.mem_append]
      rw [not_and_or] at present
      exact present.imp mem_keys_of_get mem_keys_of_get
    have agree := List.all_eq_true.mp checked path member
    simp only [known, Option.isNone_some, Bool.false_or, decide_eq_true_eq] at agree
    exact agree.symm

/-- In a rotation of the sample store, all of which was durable, the entry of `.rotate`
can still be lost when the labelled secret is about to be overwritten. -/
theorem rotateDir_lost :
    ∃ w, FirstOverwrite tagged (sampleEnv false) 0 false (payloadsOf tagged (uniform 0) sample.view)
        sample w ∧ w.fs.unsynced.contains rotateDir = true ∧ ¬ w.fs.Durable rotateDir := by
  have unsynced : (cutRotation someLeaf 76).fs.unsynced.contains rotateDir = true := by decide +kernel
  refine ⟨cutRotation someLeaf 76, ⟨uniform 0,
    withExtension (labelSecretPath sampleLabel) (.tmp 1 4 ⟨List.replicate 8 1, rfl⟩),
    labelSecretPath sampleLabel, rfl, ?_, by decide +kernel,
    follow_comesTo (exec (sampleEnv false) 0) (plainly 1 someLeaf) 76 0 (by decide +kernel), ?_⟩,
    unsynced, fun durable => durable.2 (by simpa using unsynced)⟩
  · obtain ⟨_, ⟨⟩, _, live⟩ := sample_settled
    exact live.same (by decide +kernel)
  · exact sem_rename_ok (by decide +kernel)

/-- On the empty store the order holds, on the sample store it does not. -/
theorem durableBeforeOverwrite_sample :
    DurableBeforeOverwrite tagged (sampleEnv false) 0 false
        (payloadsOf tagged (uniform 0) (sampleWorld []).view) (sampleWorld []) ∧
      ¬ DurableBeforeOverwrite tagged (sampleEnv false) 0 false
        (payloadsOf tagged (uniform 0) sample.view) sample := by
  have empty : Settled tagged (payloadsOf tagged (uniform 0) (sampleWorld []).view) (sampleWorld []) :=
    settled_of_opensAll (by decide +kernel) rfl (by decide +kernel)
  have blank : (sampleWorld []).fs.entries.keys.all fun path => (keyTypeOf path).isNone := by
    decide +kernel
  constructor
  · refine (durableBeforeOverwrite_iff tagged_lawful tagged_separated (sampleEnv_fresh false)
      (sampleEnv_draws false) rfl empty (tidy_of_check (by decide +kernel) (.inl (by decide +kernel)))
      sample_known ⟨rfl, rfl⟩ 0 false).mpr fun path keyType known => ?_
    obtain ⟨_, _, _, live⟩ := empty
    cases sealed : payloadsOf tagged (uniform 0) (sampleWorld []).view path with
    | none => rfl
    | some payload =>
      have present := (get_live live.present known).mpr (by rw [sealed]; rfl)
      have unknown := List.all_eq_true.mp blank path (mem_keys_of_get (Option.isSome_iff_ne_none.mp present))
      rw [known] at unknown
      cases unknown
  · intro durable
    have unsealed := (durableBeforeOverwrite_iff tagged_lawful tagged_separated (sampleEnv_fresh false)
      (sampleEnv_draws false) rfl sample_settled sample_tidy sample_known ⟨rfl, rfl⟩ 0 false).mp durable
      (labelSecretPath sampleLabel) (labelKeyType sampleLabel) (by decide +kernel)
    exact absurd unsealed (by decide +kernel)

end Lithium.Keys
