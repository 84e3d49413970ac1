import Lithium.Keys.PublicCache
import Lithium.Keys.Rollback

/-! Sealed blobs over rotations and restarts. A record is written whatever its size and
read back up to a limit, so a blob lasts exactly if its record stays within the limit. -/
namespace Lithium.Keys
open Effects Storage

section
variable {X : Crypto} {env : Env} {tid : Tid} {w : World} {cached : Bool} {mode : CreateNewMode}
  {label : Bytes} {generate : Except LithiumError Bytes} {mk : Key}

theorem loadOrCreateLabelBytes_creates {payload : Bytes} (faultless : env.faults = false)
    (tidy : Tidy w) (valid : validateSecretLabel label = .ok ())
    (absent : w.view (labelSecretPath label) = none)
    (sealable : ∀ draws, ∃ data, sealRecord X mk payload (labelKeyType label) draws = .ok data) :
    Triple (Solo env tid fun _ => True) (Leaves w w.view)
      (loadOrCreateLabelBytes X mk label (.ok payload) mode) fun result w' =>
        ∃ v, Leaves w v w' ∧ result = .ok payload ∧ Created X mk label payload w.view v := by
  have visible := (labelPath_storable label).1
  have draws : Triple (Solo env tid fun _ => True) (Leaves w w.view)
      (Program.done (.ok payload) : Prog Bytes) fun result w' => Leaves w w.view w' ∧
        ∃ v, v = payload ∧ result = .ok v := Triple.done fun w' here => ⟨here, payload, rfl, rfl⟩
  have saves : ∀ v, v = payload → Triple (Solo env tid fun _ => True) (Leaves w w.view)
      (saveNew X mode (labelSecretPath label) mk v (labelKeyType label)) fun result w' =>
        result = .ok () ∧ ∃ v, Leaves w v w' ∧ Created X mk label payload w.view v := by
    intro v same
    rw [same]
    refine (saveNew_created payload fun _ : ¬ False =>
      ⟨faultless, tidy, absent, sealable⟩).weaken fun result w' ended => ?_
    cases result with
    | ok _ => exact ⟨rfl, ended.2⟩
    | error e => exact ended.2.elim
  have gone : ∀ w', Leaves w w.view w' → (w'.fs.stat (labelSecretPath label)).isSome = false := by
    intro w' here
    have missing : w'.fs.get (labelSecretPath label) = none := by
      rw [here.get visible, ← view_of_visible visible]
      exact absent
    simp [FileSystem.stat, missing]
  rw [loadOrCreateLabelBytes_eq]
  refine (loadOrCreate_missing (party_solo env tid _) still_solo valid gone draws saves).weaken ?_
  rintro result w' ⟨_, rfl, rfl, v, leaves, created⟩
  exact ⟨v, leaves, rfl, created⟩

/-- Where a label has no file, one is made with what the caller generates. -/
theorem loadOrCreateSealedBlob_creates {payload : Bytes} (faultless : env.faults = false)
    (idle : Idle w.control) (tidy : Tidy w) (valid : validateSecretLabel label = .ok ())
    (sealing : w.control.clientMk cached = some mk) (absent : w.view (labelSecretPath label) = none)
    (sealable : ∀ draws, ∃ data, sealRecord X mk payload (labelKeyType label) draws = .ok data) :
    Delivers (sem env tid) (loadOrCreateSealedBlob X cached mode label (.ok payload)) w
      fun result w' => ∃ v, Leaves w v w' ∧ result = .ok payload ∧ Created X mk label payload w.view v := by
  have body : Triple (Solo env tid fun _ => True) (Leaves (w.readBy tid) w.view)
      (do let mk ← currentMk cached; loadOrCreateLabelBytes X mk label (.ok payload) mode) fun result w' =>
        ∃ v, Leaves (w.readBy tid) v w' ∧ result = .ok payload ∧ Created X mk label payload w.view v := by
    refine Triple.bind (currentMk_served sealing) (fun key => ?_) ?_
    · rintro w' ⟨here, answers⟩
      cases answers.ok
      have tidy' : Tidy (w.readBy tid) := tidy.control _
      exact loadOrCreateLabelBytes_creates faultless tidy' valid absent sealable w' here
    · rintro e w' ⟨_, answers⟩
      cases answers.calm faultless
  have refused : w.control.poisoned = true → ∀ e, (.error e : Except LithiumError Bytes) =
      .ok payload ∧ Created X mk label payload w.view w.view := by
    rw [idle.1]
    rintro ⟨⟩
  have gated : Triple (Solo env tid fun _ => True) (fun w' => w' = w)
      (loadOrCreateSealedBlob X cached mode label (.ok payload)) fun result w' =>
        ∃ v, Leaves w v w' ∧ result = .ok payload ∧ Created X mk label payload w.view v :=
    withReadGate_leaves refused body
  have meets := gated w rfl
  exact ⟨loadOrCreateSealedBlob_returns idle.2.2, fun result w' returned =>
    meets.returns trivial returned⟩

end

/-- A manager serves a store whose keyfiles open, and clients use the provider's key. -/
structure Attended (X : Crypto) (cached : Bool) (w : World) : Prop where
  stored : Stored X w
  serving : Serving w
  sealing : w.control.clientMk cached = w.control.providerMk

/-- The store is rotated, or the manager started anew. No call fails. -/
inductive Onward (X : Crypto) (cached : Bool) : World → World → Prop where
  | rotated {env tid result w w'} : env.faults = false →
      Returns (sem env tid) (rotateNow X cached) w result w' → Onward X cached w w'
  | restarted {env tid pid config keys w w'} : env.faults = false → Unclaimed w pid →
      Returns (sem env tid) (startWithConfig X cached config) (w.restart pid) (.ok keys) w' →
      Onward X cached w w'

/-- The label's blob is in the store. -/
structure Holding (X : Crypto) (cached : Bool) (label payload : Bytes) (w : World) : Prop where
  attended : Attended X cached w
  loads : ∃ mk, w.control.providerMk = some mk ∧
    loadNode X (w.view (labelSecretPath label)) mk (labelKeyType label) = .ok payload

/-- Without faults, the operation returns the payload and a rotation succeeds. -/
def Retrievable (X : Crypto) (cached : Bool) (label payload : Bytes) (w : World) : Prop :=
  ∀ env : Env, env.faults = false → (∀ mk, ∃ new, env.masterKey mk new = true) → ∀ tid,
    (∀ mode generate, Delivers (sem env tid) (loadOrCreateSealedBlob X cached mode label generate) w
      fun result _ => result = .ok payload) ∧
    Delivers (sem env tid) (rotateNow X cached) w fun result _ => result = .ok ()

section
variable {X : Crypto} {cached : Bool} {label payload : Bytes} {w w' : World}

theorem label_not_identity (label : Bytes) : labelSecretPath label ∉ identityFiles := by
  have apart : ∀ path ∈ identityFiles, path.tail ≠ secretsDir := by decide
  exact fun member => apart _ member rfl

theorem not_unseen_of_loads {mk : Key} {keyType : String} {v : View} {path : Path}
    (loads : loadNode X (v path) mk keyType = .ok payload) : ¬ Unseen v path := by
  intro unseen
  obtain ⟨node, _, found, regular, _⟩ := loadNode_ok loads
  rw [unseen node found] at regular
  cases regular

theorem Holding.retrievable (lawful : X.Lawful) (valid : validateSecretLabel label = .ok ())
    (holding : Holding X cached label payload w) : Retrievable X cached label payload w := by
  intro env faultless draws tid
  obtain ⟨⟨stored, ⟨mk, opening⟩, sealing⟩, mk', provided, loads⟩ := holding
  refine ⟨fun mode generate => ?_, ?_⟩
  · exact (loadOrCreateSealedBlob_loads faultless opening.idle.1 opening.idle.2.2 valid (sealing.trans provided)
      (not_unseen_of_loads loads)).mono fun result w' same => same.trans loads
  · exact (rotateNow_delivers lawful (Custody.any_upheld X env) faultless draws tid cached
      (opening.atRest stored)).mono fun result w' ended => ended.1

theorem Holding.onward (lawful : X.Lawful) (short : ShortKeys X)
    (holding : Holding X cached label payload w) (onward : Onward X cached w w') :
    Holding X cached label payload w' := by
  obtain ⟨⟨stored, ⟨mk, opening⟩, sealing⟩, mk', provided, loads⟩ := holding
  have live := keyTypeOf_labelPath label
  cases onward with
  | @rotated env tid result _ _ faultless returned =>
    obtain ⟨⟨stored', serving'⟩, _⟩ := rotation_keeps lawful stored ⟨mk, opening⟩ faultless returned
    obtain ⟨_, next, rest, _, control⟩ :=
      (opening.atRest stored).rotated lawful (Custody.any_upheld X env) faultless returned
    refine ⟨⟨stored', serving', ?_⟩, next, rest.provided.1, ?_⟩
    · rw [control]
      cases cached <;> rfl
    · rw [opening.provided] at provided
      cases provided
      have holds := rest.live.under _ _ live
      rwa [show payloadsOf X mk w.view (labelSecretPath label) = some payload by
        simp [payloadsOf, live, loads]; rfl] at holds
  | restarted faultless unclaimed returned =>
    obtain ⟨_, ed, dili, _, identity⟩ := stored.founded
    have faithful := Env.Faithful.of_faultless faultless
    have renewed := start_renewed lawful short stored faithful unclaimed returned
    obtain ⟨_, next, known, opening', kept, _⟩ :=
      start_ended lawful short stored identity faithful unclaimed returned
    rw [provided] at known
    obtain rfl : mk' = next := by simpa using known
    refine ⟨⟨renewed.stored, renewed.serving _ rfl, ?_⟩, mk', opening'.provided, ?_⟩
    · cases cached with
      | false => rfl
      | true => exact (kept rfl).trans opening'.provided.symm
    · rw [opening'.rest _ (label_not_identity label) (not_lock_of_live live)
        (not_below_rotate_of_live live)]
      exact loads

theorem Holding.run (lawful : X.Lawful) (short : ShortKeys X)
    (holding : Holding X cached label payload w)
    (run : Relation.ReflTransGen (Onward X cached) w w') : Holding X cached label payload w' := by
  induction run with
  | refl => exact holding
  | tail _ onward ih => exact ih.onward lawful short onward

theorem Attended.leaves {mk : Key} {v : View} (attended : Attended X cached w) (leaves : Leaves w v w')
    (provided : w.control.providerMk = some mk)
    (same : ∀ path, path ≠ labelSecretPath label → v path = w.view path)
    (opens : loadNode X (v (labelSecretPath label)) mk (labelKeyType label) = .ok payload) :
    Attended X cached w' := by
  obtain ⟨stored, ⟨mk', opening⟩, sealing⟩ := attended
  obtain ⟨layout, ed, dili, fit, identity⟩ := stored.founded
  have outside : ∀ path, path ∈ identityFiles ∨ path = lockPath ∨ path = readyPath →
      w'.view path = w.view path := fun path named => by
    rw [leaves.view]
    refine same path ?_
    rintro rfl
    rcases named with identity | lock | ready
    · exact label_not_identity label identity
    · exact not_lock_of_live (keyTypeOf_labelPath label) lock
    · exact apart_of_live (keyTypeOf_labelPath label) rotate_files_below.1 ready.symm
  have dirs := opening.dirs
  have tidy := leaves.tidy (opening.atRest stored).tidy
  have layout' : Layout w' := {
    dirs := fun dir member => .inr (leaves.dirs dir (dirs dir member))
    rotate := tidy.rotate
    lock := by
      rw [outside lockPath (by simp)]
      exact layout.lock
    unmarked := (outside readyPath (by simp)).trans layout.unmarked }
  have founded : Founded X AnyStage w' := by
    refine ⟨layout', ed, dili, fit, ?_⟩
    rw [leaves.control]
    exact identity.congr fun path member => outside path (.inl member)
  refine ⟨⟨founded, ?_⟩, ⟨mk', layout', ?_, ?_, fun _ _ _ _ => rfl, .inr tidy.fresh,
    fun dir member => leaves.dirs dir (dirs dir member)⟩, ?_⟩
  · intro other known path keyType live secret
    rw [leaves.control] at known
    rw [leaves.view]
    by_cases own : path = labelSecretPath label
    · subst own
      rw [provided] at known
      obtain rfl : mk = other := by simpa using known
      rw [keyTypeOf_labelPath] at live
      cases live
      exact .inr ⟨payload, opens⟩
    · rw [same path own]
      exact stored.labels other known path keyType live secret
  · rw [leaves.control]
    exact opening.provided
  · rw [leaves.control]
    exact opening.idle
  · rw [leaves.control]
    exact sealing

/-- After a call that returned the payload the store holds the blob, unless it was made
by the call and is too large. -/
theorem Attended.created {env : Env} {tid : Tid} {mode : CreateNewMode}
    {generate : Except LithiumError Bytes} (lawful : X.Lawful) (attended : Attended X cached w)
    (returned : Returns (sem env tid) (loadOrCreateSealedBlob X cached mode label generate) w
      (.ok payload) w') :
    (w.view (labelSecretPath label) ≠ none ∨ payload.length ≤ maxKeyfileSize - 140) ∧
        Holding X cached label payload w' ∨
      (w.view (labelSecretPath label) = none ∧ maxKeyfileSize - 140 < payload.length) ∧
        Large (w'.view (labelSecretPath label)) ∧ w'.view readyPath = none ∧
        w'.control = w.control := by
  obtain ⟨mk, opening⟩ := attended.serving
  have sealing := attended.sealing.trans opening.provided
  have live := keyTypeOf_labelPath label
  have meets : Meets (Solo env tid fun _ => True) _
      (loadOrCreateSealedBlob X cached mode label generate) w := loadOrCreateSealedBlob_served sealing w rfl
  obtain ⟨v, leaves, ⟨rfl, loaded⟩ | ⟨unseen, _, ⟨⟩, draws, data, sealed, rfl⟩⟩ :=
    meets.returns trivial returned
  · have loads := loaded payload rfl
    obtain ⟨node, _, found, _⟩ := loadNode_ok loads
    refine .inl ⟨.inl (by simp [found]), attended.leaves leaves opening.provided (fun _ _ => rfl) loads,
      mk, ?_, ?_⟩
    · rw [leaves.control]
      exact opening.provided
    · rw [leaves.view]
      exact loads
  · have absent : w.view (labelSecretPath label) = none :=
      (attended.stored.opens (.inr opening.provided) _ _ live).resolve_right
        fun ⟨_, loads⟩ => not_unseen_of_loads loads unseen
    have there : w'.view (labelSecretPath label) = some (privateFile data) := by
      rw [leaves.view, Function.update_self]
    obtain ⟨fits, loads⟩ | ⟨beyond, large⟩ := sealed_node lawful sealed
    · have opens := loads
      rw [← Function.update_self (labelSecretPath label) (some (privateFile data)) w.view] at opens
      refine .inl ⟨.inr fits, attended.leaves leaves opening.provided
        (fun path other => Function.update_of_ne other _ _) opens, mk, ?_, there ▸ loads⟩
      rw [leaves.control]
      exact opening.provided
    · refine .inr ⟨⟨absent, beyond⟩, there ▸ large, ?_, leaves.control⟩
      rw [leaves.view, Function.update_of_ne (apart_of_live live rotate_files_below.1)]
      exact opening.layout.unmarked

end

/-- A blob that the operation has returned can be retrieved ever after exactly if it was
there before or its payload is within the limit for reading. -/
theorem blob_durable_iff {X : Crypto} {cached : Bool} {mode : CreateNewMode} {label payload : Bytes}
    {generate : Except LithiumError Bytes} {env : Env} {tid : Tid} {w w₁ : World} (lawful : X.Lawful)
    (short : ShortKeys X) (named : 1 ≤ label.length ∧ label.length ≤ 64) (attended : Attended X cached w)
    (returned : Returns (sem env tid) (loadOrCreateSealedBlob X cached mode label generate) w
      (.ok payload) w₁) :
    (∀ w₂, Relation.ReflTransGen (Onward X cached) w₁ w₂ → Retrievable X cached label payload w₂) ↔
      w.view (labelSecretPath label) ≠ none ∨ payload.length ≤ 65396 := by
  have valid : validateSecretLabel label = .ok () := by
    refine if_neg ?_
    rintro (empty | long)
    · rw [List.isEmpty_iff.mp empty] at named
      exact absurd named.1 (by decide)
    · exact absurd named.2 (Nat.not_le_of_gt long)
  have limit : maxKeyfileSize - 140 = 65396 := rfl
  obtain ⟨fits, holding⟩ | ⟨⟨absent, beyond⟩, large, _, control⟩ := attended.created lawful returned
  · exact iff_of_true (fun w₂ run => (holding.run lawful short run).retrievable lawful valid) fits
  · refine iff_of_false (fun durable => ?_) (by simp [absent]; omega)
    obtain ⟨mk, opening⟩ := attended.serving
    have quiet : (⟨false, fun _ _ => true, fun _ _ => true, 0⟩ : Env).faults = false := rfl
    obtain ⟨loads, _⟩ := durable w₁ .refl ⟨false, fun _ _ => true, fun _ _ => true, 0⟩ rfl (fun mk => ⟨mk.getD ⟨List.replicate 32 0, rfl⟩, rfl⟩) tid
    obtain ⟨result, w₂, run⟩ := (loads mode generate).runs
    have succeeded := (loads mode generate).ends result w₂ run
    have sealing : w₁.control.clientMk cached = some mk := by
      rw [control]
      exact attended.sealing.trans opening.provided
    have loaded := (loadOrCreateSealedBlob_loads quiet (control ▸ opening.idle.1)
      (control ▸ opening.idle.2.2) valid sealing
      large.seen).ends result w₂ run
    rw [succeeded] at loaded
    obtain ⟨_, data, _, _, read, _⟩ := loadNode_ok loaded.symm
    exact large.unreadable data read

theorem firstStarted_attended : Attended tagged false firstStarted := by
  have short : ShortKeys tagged := fun seed => by simp [tagged, seed.2, maxKeyfileSize]
  have renewed := start_renewed tagged_lawful short blankWorld_blank.stored (.of_faultless rfl)
    (fun _ _ stamp => unclaimed_of_check (by decide +kernel) stamp) firstStarted_returned
  exact ⟨renewed.stored, renewed.serving servedKeys rfl, rfl⟩

theorem firstStarted_absent : firstStarted.view (labelSecretPath sampleLabel) = none := by
  decide +kernel

/-- Any payload the cipher takes is sealed in the store after its first start. -/
theorem firstStarted_creates (payload : Bytes) (fits : payload.length ≤ Crypto.limit) :
    ∃ w₁, Returns (sem (sampleEnv false) 0)
      (loadOrCreateSealedBlob tagged false .linkNoReplace sampleLabel (.ok payload)) firstStarted
      (.ok payload) w₁ := by
  obtain ⟨mk, opening⟩ := firstStarted_attended.serving
  have faultless : (sampleEnv false).faults = false := rfl
  have sealing : firstStarted.control.clientMk false = some mk := opening.provided
  have aad : (aadFor keyfileVersion (labelKeyType sampleLabel)).length ≤ Crypto.limit := by
    decide +kernel
  obtain ⟨⟨result, w₁, returned⟩, ends⟩ := loadOrCreateSealedBlob_creates faultless opening.idle
    (opening.atRest firstStarted_attended.stored).tidy rfl sealing firstStarted_absent
    (fun draws => sealRecord_within tagged_lawful draws aad fits)
  obtain ⟨_, _, rfl, _⟩ := ends result w₁ returned
  exact ⟨w₁, returned⟩

def largePayload : Bytes := List.replicate 65397 0

/-- One byte too many: the blob is sealed, but neither it nor the store can be used again. -/
theorem large_blob_lost :
    ∃ w₁, Returns (sem (sampleEnv false) 0)
        (loadOrCreateSealedBlob tagged false .linkNoReplace sampleLabel (.ok largePayload)) firstStarted
        (.ok largePayload) w₁ ∧
      Delivers (sem (sampleEnv false) 0)
        (loadOrCreateSealedBlob tagged false .linkNoReplace sampleLabel (.ok largePayload)) w₁
        (fun result _ => ∃ e, result = .error e) ∧
      Delivers (sem (sampleEnv false) 0) (rotateNow tagged false) w₁ fun result _ =>
        ∃ e, result = .error e := by
  have size : largePayload.length = 65397 := List.length_replicate
  obtain ⟨w₁, returned⟩ := firstStarted_creates largePayload (by rw [size]; decide)
  have faultless : (sampleEnv false).faults = false := rfl
  have sighted : (sampleEnv false).Sighted := .of_faultless faultless
  obtain ⟨mk, opening⟩ := firstStarted_attended.serving
  obtain ⟨present | fits, _⟩ | ⟨_, large, unmarked, control⟩ := firstStarted_attended.created tagged_lawful returned
  · exact absurd firstStarted_absent present
  · rw [size] at fits
    exact absurd fits (by decide)
  · have idle : Idle w₁.control := control ▸ opening.idle
    have sealing : w₁.control.clientMk false = some mk := control ▸ opening.provided
    refine ⟨w₁, returned, (loadOrCreateSealedBlob_loads faultless idle.1 idle.2.2 rfl sealing large.seen).mono ?_,
      rotateNow_returns 0 false (sampleEnv_draws false) ⟨idle.2.2, idle.2.1⟩, fun result w₂ rotated => ?_⟩
    · intro result w₂ same
      cases result with
      | ok payload =>
        obtain ⟨_, data, _, _, read, _⟩ := loadNode_ok same.symm
        exact absurd read (large.unreadable data)
      | error e => exact ⟨e, rfl⟩
    · cases result with
      | ok _ => exact absurd rotated (large.blocks tagged_lawful (keyTypeOf_labelPath _) unmarked)
      | error e => exact ⟨e, rfl⟩

/-- A small blob stays. -/
theorem small_blob_kept :
    ∃ w₁, Returns (sem (sampleEnv false) 0)
        (loadOrCreateSealedBlob tagged false .linkNoReplace sampleLabel (.ok [1, 2, 3])) firstStarted
        (.ok [1, 2, 3]) w₁ ∧
      ∀ w₂, Relation.ReflTransGen (Onward tagged false) w₁ w₂ →
        Retrievable tagged false sampleLabel [1, 2, 3] w₂ := by
  have short : ShortKeys tagged := fun seed => by simp [tagged, seed.2, maxKeyfileSize]
  obtain ⟨w₁, returned⟩ := firstStarted_creates [1, 2, 3] (by decide)
  exact ⟨w₁, returned, (blob_durable_iff tagged_lawful short (by decide) firstStarted_attended
    returned).mpr (.inr (by decide))⟩

end Lithium.Keys
