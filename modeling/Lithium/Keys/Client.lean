import Lithium.Keys.Store

/-! The client operations on labelled secrets, for a thread among others: a label's file is
loaded if it is there and otherwise created, in one of the two ways a file can be put where
nothing was. -/
namespace Lithium.Keys
open Effects Storage

theorem labelPath_storable (label : Bytes) : Storable (labelSecretPath label) :=
  storable_of_text (labelHex label) "keyf" (by decide)

theorem keyTypeOf_labelPath (label : Bytes) :
    keyTypeOf (labelSecretPath label) = some (labelKeyType label) := by
  have parts : labelSecretPath label ≠ edPriv ∧ labelSecretPath label ≠ diliPriv := by
    constructor <;> simp [labelSecretPath, edPriv, diliPriv, secretsDir, privDir, plain]
  rw [keyTypeOf, if_neg parts.1, if_neg parts.2, if_pos ⟨rfl, rfl⟩]
  rfl

/-- Putting a fresh file at `path` leads from `held` to `after`. A link finds nothing in its
way; what a rename finds there is up to the protocol. -/
def Creates (P : Protocol Calls World) (tid : Tid) (mode : CreateNewMode) (path : Path)
    (data : Bytes) (held after : World → Prop) : Prop :=
  match mode with
  | .linkNoReplace => Publishes P tid path data (fun w => w.view path = none) held after
  | .renameBestEffort => ∃ free, Publishes P tid path data free held after ∧
      ∀ {tmp w reply w'}, P.sem (.rename tmp path) w reply w' → free w

section
variable {P : Protocol Calls World} {env : Env} {tid : Tid} {mode : CreateNewMode} {path : Path}
  {held : World → Prop}

theorem Publishes.creates {data : Bytes} {after : World → Prop}
    (publishes : Publishes P tid path data (fun _ => True) held after) :
    Creates P tid mode path data held after := by
  cases mode with
  | linkNoReplace =>
    exact ⟨publishes.before, publishes.behind, fun here inv _ => publishes.put here inv trivial⟩
  | renameBestEffort => exact ⟨fun _ => True, publishes, fun _ => trivial⟩

variable (X : Crypto) {mk : Key} {keyType : String}

theorem bind_ok_eq (load : Except LithiumError Bytes) : load.bind .ok = load := by
  cases load <;> rfl

theorem loadBytesDecrypted_whole (party : Party P env tid) (still : Still P held) (path : Path)
    (mk : Key) (keyType : String) :
    Triple P held (loadBytesDecrypted X path mk keyType) fun result w =>
      held w ∧ Answers env ((loadNode X (w.fs.get path) mk keyType).bind .ok) result := by
  simp only [bind_ok_eq]
  exact loadBytesDecrypted_spec X party still path mk keyType

/-- What `save_bytes_encrypted_new` and its best-effort sibling do. -/
def saveNew (mode : CreateNewMode) (path : Path) (mk : Key) (payload : Bytes) (keyType : String) :
    Prog Unit :=
  match mode with
  | .linkNoReplace => saveBytesEncryptedNew X path mk payload keyType
  | .renameBestEffort => saveBytesEncryptedNewBestEffort X path mk payload keyType

/-- A fresh record is put in place or the view stays as it is. Without an excuse it is put
in place. -/
theorem saveNew_spec {payload : Bytes} {after : World → Prop} (party : Party P env tid)
    (keeps : Keeps P tid held) (storable : Storable path)
    (creates : ∀ draws data, sealRecord X mk payload keyType draws = .ok data →
      Creates P tid mode path data held after) {excuse : Prop}
    (sealable : ¬ excuse → ∀ draws, ∃ data, sealRecord X mk payload keyType draws = .ok data)
    (calm : ¬ excuse → Calm P env ∧ ∀ w, held w → Ready path w ∧ w.view path = none) :
    Triple P held (saveNew X mode path mk payload keyType) fun result w => match result with
      | .ok _ => after w
      | .error _ => held w ∧ excuse := by
  have encoded := encodeEncrypted_spec X party keeps.still mk payload keyType
  have unsealed : ∀ (e : LithiumError) w, (held w ∧ ∃ draws,
      Answers env (sealRecord X mk payload keyType draws) (.error e)) → held w ∧ excuse := by
    rintro e w ⟨here, draws, answers⟩
    refine ⟨here, ?_⟩
    by_contra none
    obtain ⟨data, sealed⟩ := sealable none draws
    rw [sealed] at answers
    exact none (faulty_of_calm calm answers.faulted)
  cases mode with
  | linkNoReplace =>
    refine Triple.bind encoded (fun data => ?_) unsealed
    rintro w ⟨here, draws, answers⟩
    exact writeSecureNew_spec party (creates draws data answers.ok) storable calm w here
  | renameBestEffort =>
    refine Triple.bind encoded (fun data => ?_) unsealed
    rintro w ⟨here, draws, answers⟩
    obtain ⟨free, publishes, allowed⟩ := creates draws data answers.ok
    exact writeSecureNewBestEffort_spec party publishes storable allowed calm w here

/-- The shape of both label operations. -/
def loadOrCreate {α : Type} (label : Bytes) (load draw : Prog α) (save : α → Prog Unit) : Prog α := do
  Program.done (validateSecretLabel label)
  if ← pathExists (labelSecretPath label) then load
  else
    let v ← draw
    match ← (save v).attempt with
    | .ok _ => return v
    | .error e => if e.isAlreadyExists then load else throw e

theorem loadOrCreateLabelSecret32_eq (mk : Key) (label : Bytes) (mode : CreateNewMode) :
    loadOrCreateLabelSecret32 X mk label mode =
      loadOrCreate label (loadSecret32Decrypted X (labelSecretPath label) mk (labelKeyType label))
        (randomFixed .secret32)
        fun v => saveNew X mode (labelSecretPath label) mk v.1 (labelKeyType label) := by
  cases mode <;> rfl

theorem loadOrCreateLabelBytes_eq (mk : Key) (label : Bytes) (generate : Except LithiumError Bytes)
    (mode : CreateNewMode) :
    loadOrCreateLabelBytes X mk label generate mode =
      loadOrCreate label (loadBytesDecrypted X (labelSecretPath label) mk (labelKeyType label))
        (Program.done generate)
        fun v => saveNew X mode (labelSecretPath label) mk v (labelKeyType label) := by
  cases mode <;> rfl

end

section
variable {P : Protocol Calls World} {env : Env} {tid : Tid} {held : World → Prop} {α : Type}
  {label : Bytes} {load draw : Prog α} {save : α → Prog Unit}
  {loaded : Except LithiumError α → World → Prop}

/-- A label's file that is there is loaded. One that is not is created, unless another
thread is first, whose file is then loaded. -/
theorem loadOrCreate_spec {drawn : α → Prop} {made : α → World → Prop} (party : Party P env tid)
    (still : Still P held) (loads : Triple P held load loaded)
    (draws : Triple P held draw fun result w => held w ∧ ∀ v, result = .ok v → drawn v)
    (saves : ∀ v, drawn v → Triple P held (save v) fun result w => match result with
      | .ok _ => made v w
      | .error _ => held w) :
    Triple P held (loadOrCreate label load draw save) fun result w =>
      loaded result w ∨ (held w ∧ ∃ e, result = .error e) ∨
        ∃ v, drawn v ∧ result = .ok v ∧ made v w := by
  have failed : ∀ (e : LithiumError) w, held w → loaded (.error e) w ∨
      (held w ∧ ∃ e', (.error e : Except LithiumError α) = .error e') ∨
        ∃ v, drawn v ∧ (.error e : Except LithiumError α) = .ok v ∧ made v w :=
    fun e w here => .inr (.inl ⟨here, e, rfl⟩)
  unfold loadOrCreate
  cases validateSecretLabel label with
  | error e => exact Triple.done (failed e)
  | ok _ =>
    rw [Program.bind_eq, Program.done_ok_bind]
    refine Triple.bind (pathExists_spec party still (labelSecretPath label)) (fun there => ?_)
      fun e w ended => failed e w ended.1
    cases there with
    | true => exact loads.mono (fun w here => here.1) fun result w ended => .inl ended
    | false =>
      rintro w ⟨here, _⟩
      refine Triple.bind draws (fun v => ?_) (fun e w ended => failed e w ended.1) w here
      rintro w ⟨here, fresh⟩
      refine Triple.attempt_bind (saves v (fresh v rfl)) (fun saved => ?_) w here
      cases saved with
      | ok _ => exact Triple.done fun w created => .inr (.inr ⟨v, fresh v rfl, rfl, created⟩)
      | error e =>
        dsimp only
        split
        · exact loads.weaken fun result w ended => .inl ended
        · exact Triple.done (failed e)

/-- The operation on a label whose file is there and seen. -/
theorem loadOrCreate_existing (party : Party P env tid) (still : Still P held)
    (sees : env.Sees (labelSecretPath label)) (valid : validateSecretLabel label = .ok ())
    (there : ∀ w, held w → (w.fs.stat (labelSecretPath label)).isSome = true)
    (loads : Triple P held load loaded) :
    Triple P held (loadOrCreate label load draw save) loaded := by
  unfold loadOrCreate
  rw [valid, Program.bind_eq, Program.done_ok_bind]
  refine Triple.bind (pathExists_sees party still sees) (fun seen => ?_) ?_
  · rintro w ⟨here, same⟩
    rw [there w here] at same
    cases same
    exact loads w here
  · rintro e w ⟨-, ⟨⟩⟩

theorem loadOrCreate_missing {drawn : α → Prop} {made : α → World → Prop} (party : Party P env tid)
    (still : Still P held) (valid : validateSecretLabel label = .ok ())
    (missing : ∀ w, held w → (w.fs.stat (labelSecretPath label)).isSome = false)
    (draws : Triple P held draw fun result w => held w ∧ ∃ v, drawn v ∧ result = .ok v)
    (saves : ∀ v, drawn v → Triple P held (save v) fun result w => result = .ok () ∧ made v w) :
    Triple P held (loadOrCreate label load draw save) fun result w =>
      ∃ v, drawn v ∧ result = .ok v ∧ made v w := by
  unfold loadOrCreate
  rw [valid, Program.bind_eq, Program.done_ok_bind]
  refine Triple.bind (pathExists_spec party still (labelSecretPath label)) (fun seen => ?_) ?_
  · rintro w ⟨here, same⟩
    rw [missing w here] at same
    obtain rfl : seen = false := same.elim Except.ok.inj fun blind => Except.ok.inj blind.1
    refine Triple.bind draws (fun v => ?_) ?_ w here
    · rintro w ⟨here, v, fresh, ⟨⟩⟩
      refine Triple.attempt_bind (saves v fresh) (fun saved => ?_) w here
      cases saved with
      | ok _ => exact Triple.done fun w created => ⟨v, fresh, rfl, created.2⟩
      | error e =>
        rintro w ⟨⟨⟩, -⟩
    · rintro e w ⟨-, v, -, ⟨⟩⟩
  · rintro e w ⟨-, impossible | ⟨impossible, -⟩⟩ <;> cases impossible

end
end Lithium.Keys
