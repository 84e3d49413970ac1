import Lithium.Keys.View

/-! What the keyfile programs do, as triples over assertions that a thread's own
quiet steps and the other threads cannot falsify. A thread that runs alone under
a fault-free environment is `Calm`; an `excuse` is what it would take for a
program to fail. -/
namespace Lithium.Keys
open Effects Storage

variable {P : Protocol Calls World} {env : Env} {tid : Tid} {held : World → Prop} {α : Type}

/-- The protocol describes thread `tid`, whose temp files nobody else touches. -/
structure Party (P : Protocol Calls World) (env : Env) (tid : Tid) : Prop where
  meaning : ∀ {op w reply w'}, P.sem op w reply w' → sem env tid op w reply w'
  owned : ∀ {w w'}, P.rely w w' → ∀ {path}, Owns tid w path →
    Owns tid w' path ∧ w'.fs.get path = w.fs.get path

/-- An assertion that holds on while the thread looks around. -/
structure Still (P : Protocol Calls World) (held : World → Prop) : Prop where
  stable : P.Stable held
  still : ∀ {w}, held w → P.inv w → P.guar w w

/-- An assertion that also survives the thread's own quiet steps. -/
structure Keeps (P : Protocol Calls World) (tid : Tid) (held : World → Prop) : Prop where
  stable : P.Stable held
  quiet : ∀ {w w'}, held w → P.inv w → Step tid w.view w w' →
    P.inv w' ∧ P.guar w w' ∧ held w'

structure Calm (P : Protocol Calls World) (env : Env) : Prop where
  faultless : env.faults = false
  alone : ∀ {w w'}, P.rely w w' → w' = w

theorem Keeps.still (keeps : Keeps P tid held) : Still P held where
  stable := keeps.stable
  still := fun here inv => (keeps.quiet here inv (.refl tid _)).2.1

theorem Keeps.and {fact : World → Prop} (keeps : Keeps P tid held)
    (stable : ∀ {w w'}, held w → fact w → P.rely w w' → P.inv w' → fact w')
    (quiet : ∀ {w w'}, held w → fact w → Step tid w.view w w' → fact w') :
    Keeps P tid fun w => held w ∧ fact w where
  stable := fun w w' here moved inv =>
    ⟨keeps.stable w w' here.1 moved inv, stable here.1 here.2 moved inv⟩
  quiet := fun here inv step => by
    obtain ⟨kept, change, there⟩ := keeps.quiet here.1 inv step
    exact ⟨kept, change, there, quiet here.1 here.2 step⟩

/-- The result is what the world says, or the failure of some call. -/
def Answers (env : Env) (natural result : Except LithiumError α) : Prop :=
  result = natural ∨ env.faults = true ∧ ∃ e, result = .error e

/-- A failure is excused if calls do not fail without an excuse. -/
theorem excused_of_faults {excuse : Prop} (calm : ¬ excuse → env.faults = false)
    (faults : env.faults = true) : excuse := by
  by_contra none
  rw [calm none] at faults
  cases faults

/-- A call that succeeds without an excuse has one if it fails. -/
theorem excused_of_error {excuse : Prop} {value : α} {e : LithiumError}
    (outcome : excuse ∨ (.error e : Except LithiumError α) = .ok value) : excuse := by
  obtain excused | succeeded := outcome
  · exact excused
  · cases succeeded

theorem excused {rest : Prop} : ¬ True → rest := fun calm => absurd trivial calm

theorem Answers.calm {natural result : Except LithiumError α} (answers : Answers env natural result)
    (faultless : env.faults = false) : result = natural := by
  obtain same | ⟨faults, _⟩ := answers
  · exact same
  · rw [faultless] at faults
    cases faults

theorem Answers.excused_or {natural result : Except LithiumError α} {excuse : Prop}
    (answers : Answers env natural result) (calm : ¬ excuse → env.faults = false) :
    excuse ∨ result = natural := by
  obtain same | ⟨faults, _⟩ := answers
  · exact .inr same
  · exact .inl (excused_of_faults calm faults)

theorem Answers.ok {natural : Except LithiumError α} {value : α}
    (answers : Answers env natural (.ok value)) : natural = .ok value := by
  obtain same | ⟨_, e, failed⟩ := answers
  · exact same.symm
  · cases failed

theorem Answers.faulted {value : α} {e : LithiumError} (answers : Answers env (.ok value) (.error e)) :
    env.faults = true := by
  obtain same | ⟨faults, _⟩ := answers
  · cases same
  · exact faults

theorem Answers.refused {natural result : Except LithiumError α} (answers : Answers env natural result)
    (never : ∀ value, natural ≠ .ok value) : ∃ e, result = .error e := by
  cases result with
  | ok value => exact absurd answers.ok (never value)
  | error e => exact ⟨e, rfl⟩

/-! Calls that only look. -/

def observes : Op → Bool
  | .stat _ | .symlinkMetadata _ | .tryExists _ | .readDir _ | .openRead _ | .syncFile _
  | .openTree _ | .random _ | .arenaMap _ | .arenaClaim _ | .now | .spawn | .loadMk
  | .isPoisoned | .cachedMk => true
  | _ => false

theorem observes_same {op : Op} {w w' : World} {reply : Reply op} (looks : observes op = true)
    (step : sem env tid op w reply w') : w' = w := by
  obtain ⟨_, same, _⟩ | ⟨choice, effected⟩ := sem_cases step
  · exact same
  · cases op <;> simp only [observes, Bool.false_eq_true] at looks <;>
      simp only [effect] at effected <;> (try split at effected) <;> (try split at effected) <;>
      cases effected <;> rfl

def leavesFiles : Op → Bool
  | .lockStore | .tmpStamp | .storeMk _ | .setPoisoned | .setCachedMk _ | .lockRead | .unlockRead
  | .lockWrite | .unlockWrite => true
  | op => observes op

theorem sem_leavesFiles {op : Op} {w w' : World} {reply : Reply op}
    (leaves : leavesFiles op = true) (step : sem env tid op w reply w') : w'.fs = w.fs := by
  by_cases looks : observes op = true
  · rw [observes_same looks step]
  · obtain ⟨_, rfl, _⟩ | ⟨choice, effected⟩ := sem_cases step
    · rfl
    · cases op <;> simp only [leavesFiles, observes, not_true, Bool.false_eq_true] at leaves looks <;>
        simp only [effect] at effected <;> (try split at effected) <;> cases effected <;> rfl

/-- A call that only looks tells about the world it is made in. -/
theorem observe {op : Op} {next : Reply op → Prog α} {post : Except LithiumError α → World → Prop}
    (party : Party P env tid) (still : Still P held) (looks : observes op = true)
    (rest : ∀ reply, Triple P (fun w => held w ∧ sem env tid op w reply w) (next reply) post) :
    Triple P held ((call op).bind next) post := by
  refine Triple.call (fun reply w => held w ∧ sem env tid op w reply w) still.stable ?_ rest
  intro w here inv reply w' step
  have meaning := party.meaning step
  obtain rfl := observes_same looks meaning
  exact ⟨inv, still.still here inv, here, meaning⟩

/-- A call that changes nothing others can see, made where `fact` is known for now. -/
theorem stepping_from (op : Op) (fact : World → Prop) {next : Reply op → Prog α}
    (mid : Reply op → World → Prop) {post : Except LithiumError α → World → Prop}
    (party : Party P env tid) (keeps : Keeps P tid held)
    (stable : ∀ {w w'}, fact w → P.rely w w' → fact w')
    (quiet : ∀ w reply w', held w → fact w → sem env tid op w reply w' →
      Step tid w.view w w' ∧ mid reply w')
    (rest : ∀ reply, Triple P (fun w => held w ∧ mid reply w) (next reply) post) :
    Triple P (fun w => held w ∧ fact w) ((call op).bind next) post := by
  refine Triple.call (fun reply w => held w ∧ mid reply w) ?_ ?_ rest
  · exact fun w w' here moved inv => ⟨keeps.stable w w' here.1 moved inv, stable here.2 moved⟩
  · intro w here inv reply w' step
    obtain ⟨quiet, reached⟩ := quiet w reply w' here.1 here.2 (party.meaning step)
    obtain ⟨kept, change, there⟩ := keeps.quiet here.1 inv quiet
    exact ⟨kept, change, there, reached⟩

theorem stepping (op : Op) {next : Reply op → Prog α} (mid : Reply op → World → Prop)
    {post : Except LithiumError α → World → Prop} (party : Party P env tid)
    (keeps : Keeps P tid held)
    (quiet : ∀ w reply w', held w → sem env tid op w reply w' →
      Step tid w.view w w' ∧ mid reply w')
    (rest : ∀ reply, Triple P (fun w => held w ∧ mid reply w) (next reply) post) :
    Triple P held ((call op).bind next) post :=
  (stepping_from op (fun _ => True) mid party keeps (fun _ _ => trivial)
    (fun w reply w' here _ => quiet w reply w' here) rest).mono
    (fun _ here => ⟨here, trivial⟩) fun _ _ ended => ended

/-- A check that fails answers that there is nothing. -/
theorem sem_stat {path : Path} {w w' : World} {reply : Option Metadata}
    (step : sem env tid (.stat path) w reply w') :
    reply = w.fs.stat path ∨ reply = none ∧ ¬ env.Sees path := by
  obtain ⟨faults, _, e, may, failed⟩ | ⟨choice, effected⟩ := sem_outcomes step
  · cases failed
    refine .inr ⟨rfl, ?_⟩
    rintro (faultless | never)
    · rw [faultless] at faults
      cases faults
    · rw [never e] at may
      cases may
  · cases effected
    exact .inl rfl

theorem sem_stat_sees {path : Path} {w w' : World} {reply : Option Metadata} (sees : env.Sees path)
    (step : sem env tid (.stat path) w reply w') : reply = w.fs.stat path :=
  (sem_stat step).resolve_right fun failed => failed.2 sees

theorem faults_of_unseen {path : Path} (unseen : ¬ env.Sees path) : env.faults = true :=
  Bool.eq_true_of_not_eq_false fun faultless => unseen (.inl faultless)

theorem pathExists_spec (party : Party P env tid) (still : Still P held) (path : Path) :
    Triple P held (pathExists path) fun result w => held w ∧
      (result = .ok (w.fs.stat path).isSome ∨ result = .ok false ∧ ¬ env.Sees path) :=
  observe party still rfl fun _ => Triple.done fun w ⟨here, seen⟩ => by
    obtain rfl | ⟨rfl, unseen⟩ := sem_stat seen
    · exact ⟨here, .inl rfl⟩
    · exact ⟨here, .inr ⟨rfl, unseen⟩⟩

theorem pathExists_sees (party : Party P env tid) (still : Still P held) {path : Path}
    (sees : env.Sees path) :
    Triple P held (pathExists path) fun result w => held w ∧ result = .ok (w.fs.stat path).isSome :=
  (pathExists_spec party still path).weaken fun _ _ ended =>
    ⟨ended.1, ended.2.resolve_right fun failed => failed.2 sees⟩

theorem isDir_spec (party : Party P env tid) (still : Still P held) (path : Path) :
    Triple P held (isDir path) fun result w => held w ∧
      (result = .ok ((w.fs.stat path).any fun metadata => metadata.ftype = .directory) ∨
        result = .ok false ∧ ¬ env.Sees path) :=
  observe party still rfl fun _ => Triple.done fun w ⟨here, seen⟩ => by
    obtain rfl | ⟨rfl, unseen⟩ := sem_stat seen
    · exact ⟨here, .inl rfl⟩
    · exact ⟨here, .inr ⟨rfl, unseen⟩⟩

theorem faults_of_undrawn {use : Draw} {w w' : World}
    (drawn : sem env tid (.random use) w none w') : env.faults = true := by
  obtain ⟨faults, _⟩ | ⟨choice, effected⟩ := sem_cases drawn
  · exact faults
  · simp only [effect] at effected
    split at effected
    · split at effected <;> cases effected
    · cases effected

theorem randomFixed_spec (party : Party P env tid) (still : Still P held) (use : Draw) :
    Triple P held (randomFixed use) fun result w => held w ∧ match result with
      | .ok value => env.admits w.control.providerMk use value = true
      | .error _ => env.faults = true := by
  refine observe party still rfl fun reply => ?_
  cases reply with
  | none =>
    exact Triple.done fun w ⟨here, seen⟩ => ⟨here, faults_of_undrawn seen⟩
  | some value =>
    refine Triple.done fun w ⟨here, seen⟩ => ⟨here, ?_⟩
    obtain ⟨_, _, e, failed⟩ | ⟨choice, effected⟩ := sem_cases seen
    · cases failed
    · simp only [effect] at effected
      split at effected
      · split at effected
        · next admitted =>
          cases effected
          exact admitted
        · cases effected
      · cases effected

/-! Reading. -/

/-- What `read_keyfile_bytes` makes of an entry. -/
def readNode : Option Node → Except LithiumError Bytes
  | none => .error (.io .notFound)
  | some node =>
    if node.ftype = .symlink then .error (.io .other)
    else (checkKeyfileMetadata node.metadata).map fun _ => node.data.take maxKeyfileSize

theorem read_opened (fs : FileSystem FileName) (path : Path) :
    ((io (fs.openRead path)).bind fun (metadata, contents) =>
      (Program.done (checkKeyfileMetadata metadata)).bind fun _ =>
        (.done (.ok (contents.take maxKeyfileSize)) : Prog Bytes)) =
      .done (readNode (fs.get path)) := by
  cases found : fs.get path with
  | none =>
    simp only [FileSystem.openRead, found]
    rfl
  | some node =>
    by_cases link : node.ftype = .symlink
    · simp only [FileSystem.openRead, readNode, found, link, if_true]
      rfl
    · simp only [FileSystem.openRead, readNode, found, link, if_false, io, Program.pure_eq,
        Program.done_ok_bind]
      cases checkKeyfileMetadata node.metadata with
      | error e => rfl
      | ok checked => rfl

theorem readKeyfileBytes_denies (party : Party P env tid) (still : Still P held) (path : Path) :
    Triple P held (readKeyfileBytes path) fun result w =>
      held w ∧ Answers env (readNode (w.fs.get path)) result ∧
        ∀ e, result = .error e → e.isNotFound = true →
          readNode (w.fs.get path) = .error e ∨ env.Denies (.openRead path) := by
  refine observe party still rfl fun reply w ⟨here, seen⟩ => ?_
  obtain ⟨faults, _, e, may, failed⟩ | ⟨choice, effected⟩ := sem_outcomes seen
  · cases e <;> cases failed
    next kind =>
    refine ⟨here, .inr ⟨faults, _, rfl⟩, ?_⟩
    rintro _ ⟨⟩ missing
    exact .inr ⟨faults, _, missing, may⟩
  · obtain rfl : w.fs.openRead path = reply := congrArg Prod.fst (Option.some.inj effected)
    have opened := read_opened w.fs path
    simp only [Program.pure_eq, Program.bind_eq] at opened ⊢
    rw [opened]
    exact ⟨here, .inl rfl, fun e failed _ => .inl failed⟩

theorem readKeyfileBytes_spec (party : Party P env tid) (still : Still P held) (path : Path) :
    Triple P held (readKeyfileBytes path) fun result w =>
      held w ∧ Answers env (readNode (w.fs.get path)) result :=
  (readKeyfileBytes_denies party still path).weaken fun _ _ ended => ⟨ended.1, ended.2.1⟩

/-- What loading a sealed record from an entry yields. -/
def loadNode (X : Crypto) (node : Option Node) (mk : Key) (keyType : String) :
    Except LithiumError Bytes := (readNode node).bind fun buf => openRecord X buf mk keyType

theorem loadBytesDecrypted_spec (X : Crypto) (party : Party P env tid) (still : Still P held)
    (path : Path) (mk : Key) (keyType : String) :
    Triple P held (loadBytesDecrypted X path mk keyType) fun result w =>
      held w ∧ Answers env (loadNode X (w.fs.get path) mk keyType) result := by
  refine Triple.bind (readKeyfileBytes_spec party still path) ?_ ?_
  · rintro buf w ⟨here, answers⟩
    refine ⟨here, .inl ?_⟩
    simp only [loadNode, answers.ok, Except.bind]
  · rintro e w ⟨here, failed | faults⟩
    · exact ⟨here, .inl (by simp only [loadNode, ← failed, Except.bind])⟩
    · exact ⟨here, .inr faults⟩

theorem loadSecret32Decrypted_spec (X : Crypto) (party : Party P env tid) (still : Still P held)
    (path : Path) (mk : Key) (keyType : String) :
    Triple P held (loadSecret32Decrypted X path mk keyType) fun result w =>
      held w ∧ Answers env ((loadNode X (w.fs.get path) mk keyType).bind (Fixed.fromSlice 32))
        result := by
  refine Triple.bind (loadBytesDecrypted_spec X party still path mk keyType) ?_ ?_
  · rintro payload w ⟨here, answers⟩
    exact ⟨here, .inl (by simp only [answers.ok, Except.bind])⟩
  · rintro e w ⟨here, failed | faults⟩
    · exact ⟨here, .inl (by simp only [← failed, Except.bind])⟩
    · exact ⟨here, .inr ⟨faults.1, e, rfl⟩⟩

/-! Directories. -/

theorem scaffold_parent : ∀ dir ∈ scaffold, dir.tail = [] ∨ dir.tail ∈ scaffold := by decide

theorem exists_cons_of_scaffold {dir : Path} (member : dir ∈ scaffold) :
    ∃ name parent, dir = name :: parent := by
  cases dir with
  | nil => exact absurd member (by decide)
  | cons name parent => exact ⟨name, parent, rfl⟩

theorem sem_mkdir {dir : Path} (member : dir ∈ scaffold) {w w' : World} {reply : Io Unit}
    (step : sem env tid (.mkdir dir) w reply w') :
    Step tid w.view w w' ∧ (reply = .ok () ∧ PrivateDir w' dir ∨
      ∃ kind, reply = .error kind ∧ w' = w ∧ (env.faults = true ∨
        kind = .alreadyExists ∧ w.fs.get dir ≠ none ∨
        kind = .notFound ∧ w.fs.isDir dir.tail = false)) := by
  obtain ⟨name, parent, rfl⟩ := exists_cons_of_scaffold member
  obtain done | ⟨faults, rfl, e, failed⟩ := sem_natural (fun _ => rfl) step
  · obtain ⟨absent, _, fs, made, _, get⟩ | ⟨present, failed⟩ | ⟨orphan, failed⟩ :=
      w.fs.create_spec ⟨.directory, 0o700, []⟩ name parent
    · rw [FileSystem.mkdir, made] at done
      cases done
      exact ⟨step_mkdir member absent get, .inl ⟨rfl, ⟨.directory, 0o700, []⟩, by simp [get], rfl, rfl⟩⟩
    · rw [FileSystem.mkdir, failed] at done
      cases done
      exact ⟨.refl tid w, .inr ⟨_, rfl, rfl, .inr (.inl ⟨rfl, present⟩)⟩⟩
    · rw [FileSystem.mkdir, failed] at done
      cases done
      exact ⟨.refl tid w, .inr ⟨_, rfl, rfl, .inr (.inr ⟨rfl, orphan⟩)⟩⟩
  · obtain ⟨kind, rfl⟩ := ioFailure_eq failed
    exact ⟨.refl tid _, .inr ⟨kind, rfl, rfl, .inl faults⟩⟩

/-- The fallback of `create_dir_all`: an error is forgiven if the directory is there. -/
theorem orElseIsDir_holds (party : Party P env tid) (still : Still P held) (path : Path)
    (kind : IoErrorKind) :
    Triple P held ((isDir path).bind fun there =>
      if there then (pure () : Prog Unit) else throw (.io kind)) fun _ w => held w :=
  Triple.bind (isDir_spec party still path)
    (fun there w ⟨here, _⟩ => by cases there <;> exact here) (fun _ _ here => here.1)

theorem createDirAll_holds (party : Party P env tid) (keeps : Keeps P tid held) (path : Path)
    (member : path = [] ∨ path ∈ scaffold) :
    Triple P held (createDirAll path) fun _ w => held w := by
  induction path with
  | nil => exact Triple.done fun w here => here
  | cons name dir ih =>
    obtain missing | member := member
    · cases missing
    have fallback := orElseIsDir_holds party keeps.still (name :: dir)
    have mkdir : ∀ w (reply : Io Unit) w', held w → sem env tid (.mkdir (name :: dir)) w reply w' →
        Step tid w.view w w' ∧ True := fun w reply w' _ step => ⟨(sem_mkdir member step).1, trivial⟩
    refine stepping (.mkdir (name :: dir)) (fun _ _ => True) party keeps mkdir fun reply => ?_
    match reply with
    | .ok () => exact Triple.done fun w here => here.1
    | .error .notFound =>
      refine Triple.bind ((ih (scaffold_parent _ member)).mono (fun _ here => here.1)
        fun _ _ here => here) (fun _ => ?_) (fun _ _ here => here)
      refine stepping (.mkdir (name :: dir)) (fun _ _ => True) party keeps mkdir fun reply => ?_
      match reply with
      | .ok () => exact Triple.done fun w here => here.1
      | .error kind => exact (fallback kind).mono (fun _ here => here.1) fun _ _ here => here
    | .error .alreadyExists | .error .permissionDenied | .error .notADirectory
    | .error .isADirectory | .error .storageFull | .error .other =>
      exact (fallback _).mono (fun _ here => here.1) fun _ _ here => here

theorem PrivateDir.isDir {w : World} {dir : Path} (private_ : PrivateDir w dir) :
    w.fs.isDir dir = true := by
  obtain ⟨node, found, directory, _⟩ := private_
  cases dir with
  | nil => rfl
  | cons name dir => exact (w.fs.isDir_cons _ _).mpr ⟨node, found, directory⟩

theorem PrivateDir.stat {w : World} {dir : Path} (private_ : PrivateDir w dir) :
    ∃ metadata, w.fs.stat dir = some metadata ∧ metadata.ftype = .directory := by
  obtain ⟨node, found, directory, _⟩ := private_
  exact ⟨node.metadata, by simp [FileSystem.stat, found, directory], directory⟩

theorem createDirAll_makes (party : Party P env tid) (keeps : Keeps P tid held) (path : Path)
    (member : path ∈ scaffold) (calm : Calm P env) (makeable : ∀ w, held w → Makeable w path) :
    Triple P held (createDirAll path) fun result w =>
      held w ∧ result = .ok () ∧ PrivateDir w path := by
  obtain ⟨name, dir, rfl⟩ := exists_cons_of_scaffold member
  refine stepping (.mkdir (name :: dir)) (fun (reply : Io Unit) w => reply = .ok () ∧ PrivateDir w (name :: dir) ∨
    reply = .error .alreadyExists ∧ PrivateDir w (name :: dir)) party keeps ?_ fun reply => ?_
  · intro w reply w' here step
    obtain ⟨quiet, made | ⟨kind, rfl, rfl, faults | ⟨rfl, present⟩ | ⟨rfl, orphan⟩⟩⟩ :=
      sem_mkdir member step
    · exact ⟨quiet, .inl made⟩
    · rw [calm.faultless] at faults
      cases faults
    · obtain found | ⟨absent, _⟩ := makeable _ here
      · exact ⟨quiet, .inr ⟨rfl, found⟩⟩
      · exact absurd absent present
    · obtain ⟨node, found, _⟩ | ⟨_, parent⟩ := makeable _ here
      · have parent : w'.fs.isDir dir = true := w'.fs.get_parent (by rw [found]; rfl)
        rw [List.tail_cons, parent] at orphan
        cases orphan
      · rw [orphan] at parent
        cases parent
  · rintro w ⟨here, ⟨rfl, made⟩ | ⟨rfl, made⟩⟩
    · exact ⟨here, rfl, made⟩
    · have still : Still P fun w => held w ∧ PrivateDir w (name :: dir) :=
        ⟨fun w w' here moved inv => by rw [calm.alone moved]; exact here,
          fun here inv => keeps.still.still here.1 inv⟩
      refine Triple.bind (isDir_spec party still (name :: dir)) (fun there => ?_) ?_ w ⟨here, made⟩
      · rintro w ⟨⟨here, made⟩, seen⟩
        have seen := seen.resolve_right fun failed => failed.2 (.inl calm.faultless)
        obtain ⟨metadata, stat, directory⟩ := made.stat
        simp only [stat, Option.any_some, directory, decide_true, Except.ok.injEq] at seen
        subst seen
        exact ⟨here, rfl, made⟩
      · rintro e w ⟨_, seen | ⟨seen, _⟩⟩ <;> cases seen

/-- Where nothing excuses it, the directory is there and private afterwards. -/
theorem ensurePrivateDir_spec (party : Party P env tid) (keeps : Keeps P tid held) (path : Path)
    (member : path ∈ scaffold) {excuse : Prop}
    (calm : ¬ excuse → Calm P env ∧ ∀ w, held w → Makeable w path) :
    Triple P held (ensurePrivateDir path) fun result w =>
      held w ∧ (excuse ∨ result = .ok () ∧ PrivateDir w path) := by
  refine observe party keeps.still rfl fun reply => ?_
  by_cases excused : excuse
  · match reply with
    | .ok metadata =>
      intro w ⟨here, _⟩
      dsimp only
      split
      · exact ⟨here, .inl excused⟩
      · split <;> exact ⟨here, .inl excused⟩
    | .error .notFound =>
      exact (createDirAll_holds party keeps path (.inr member)).mono (fun _ here => here.1)
        fun _ _ here => ⟨here, .inl excused⟩
    | .error .alreadyExists | .error .permissionDenied | .error .notADirectory
    | .error .isADirectory | .error .storageFull | .error .other =>
      exact Triple.done fun w here => ⟨here.1, .inl excused⟩
  · obtain ⟨calm, makeable⟩ := calm excused
    rintro w ⟨here, seen⟩
    obtain done | ⟨faults, _⟩ := sem_natural (fun _ => rfl) seen
    · obtain rfl : reply = w.fs.symlinkMetadata path := congrArg Prod.fst done
      obtain ⟨node, found, directory, mode⟩ | ⟨absent, _⟩ := makeable w here
      · simp only [FileSystem.symlinkMetadata, found, Node.metadata, directory, mode]
        exact ⟨here, .inr ⟨rfl, node, found, directory, mode⟩⟩
      · simp only [FileSystem.symlinkMetadata, absent]
        exact ((createDirAll_makes party keeps path member calm makeable).weaken
          fun _ _ made => ⟨made.1, .inr made.2⟩) w here
    · rw [calm.faultless] at faults
      cases faults

/-! Temp files. -/

/-- The thread's temp file `tmp` is there as `node`, or not there. -/
def TmpAt (tid : Tid) (tmp : Path) (node : Option Node) (w : World) : Prop :=
  Owns tid w tmp ∧ w.fs.get tmp = node

def privateFile (data : Bytes) : Node := ⟨.regular, 0o600, data⟩

theorem Party.tmpAt (party : Party P env tid) {tmp : Path} {node : Option Node} {w w' : World}
    (there : TmpAt tid tmp node w) (moved : P.rely w w') : TmpAt tid tmp node w' := by
  obtain ⟨owns, get⟩ := party.owned moved there.1
  exact ⟨owns, get.trans there.2⟩

theorem exists_cons_of_owns {tmp : Path} {w : World} (owns : Owns tid w tmp) :
    ∃ name dir, tmp = name :: dir := by
  obtain ⟨seq, stamp, _⟩ := owns
  cases tmp with
  | nil => cases stamp
  | cons name dir => exact ⟨name, dir, rfl⟩

theorem file_of_private {tmp : Path} {data : Bytes} {w : World}
    (get : w.fs.get tmp = some (privateFile data)) (old : Node) (found : w.fs.get tmp = some old) :
    old.ftype ≠ .directory := by
  cases get.symm.trans found
  simp [privateFile]

theorem sem_createNew {tmp : Path} {node : Option Node} {w w' : World} {reply : Io Unit}
    (there : TmpAt tid tmp node w) (step : sem env tid (.createNew tmp) w reply w') :
    Step tid w.view w w' ∧ (reply = .ok () ∧ TmpAt tid tmp (some (privateFile [])) w' ∨
      ∃ kind, reply = .error kind ∧ w' = w ∧
        (env.faults = true ∨ node ≠ none ∨ w.fs.isDir tmp.tail = false)) := by
  obtain ⟨owns, get⟩ := there
  obtain ⟨name, dir, rfl⟩ := exists_cons_of_owns owns
  obtain done | ⟨faults, rfl, e, failed⟩ := sem_natural (fun _ => rfl) step
  · obtain ⟨absent, _, fs, made, _, put⟩ | ⟨present, failed⟩ | ⟨orphan, failed⟩ :=
      w.fs.create_spec ⟨.regular, 0o600, []⟩ name dir
    · rw [FileSystem.createNew, made] at done
      cases done
      exact ⟨step_tmp owns put (by simp [absent]), .inl ⟨rfl, owns, by simp [put, privateFile]⟩⟩
    · rw [FileSystem.createNew, failed] at done
      cases done
      exact ⟨.refl tid w, .inr ⟨_, rfl, rfl, .inr (.inl (get ▸ present))⟩⟩
    · rw [FileSystem.createNew, failed] at done
      cases done
      exact ⟨.refl tid w, .inr ⟨_, rfl, rfl, .inr (.inr orphan)⟩⟩
  · obtain ⟨kind, rfl⟩ := ioFailure_eq failed
    exact ⟨.refl tid _, .inr ⟨kind, rfl, rfl, .inl faults⟩⟩

theorem sem_writeAll {tmp : Path} {old data : Bytes} {w w' : World} {reply : Io Unit}
    (there : TmpAt tid tmp (some (privateFile old)) w)
    (step : sem env tid (.writeAll tmp data) w reply w') :
    Step tid w.view w w' ∧ (reply = .ok () ∧ TmpAt tid tmp (some (privateFile data)) w' ∨
      env.faults = true ∧ ∃ kind, reply = .error kind ∧ w' = w) := by
  obtain ⟨owns, get⟩ := there
  obtain ⟨name, dir, rfl⟩ := exists_cons_of_owns owns
  obtain done | ⟨faults, rfl, e, failed⟩ := sem_natural (fun _ => rfl) step
  · obtain ⟨node, fs, found, _, wrote, _, put⟩ | ⟨irregular, _⟩ := w.fs.write_spec data name dir
    · rw [wrote] at done
      cases done
      cases found.symm.trans get
      exact ⟨step_tmp owns put (file_of_private get), .inl ⟨rfl, owns, by simp [put, privateFile]⟩⟩
    · exact absurd rfl (irregular _ get)
  · obtain ⟨kind, rfl⟩ := ioFailure_eq failed
    exact ⟨.refl tid _, .inr ⟨faults, kind, rfl, rfl⟩⟩

theorem sem_removeFile {tmp : Path} {data : Bytes} {w w' : World} {reply : Io Unit}
    (there : TmpAt tid tmp (some (privateFile data)) w)
    (step : sem env tid (.removeFile tmp) w reply w') : Step tid w.view w w' := by
  obtain ⟨owns, get⟩ := there
  obtain ⟨name, dir, rfl⟩ := exists_cons_of_owns owns
  obtain done | ⟨faults, rfl, e, failed⟩ := sem_natural (fun _ => rfl) step
  · obtain ⟨node, fs, found, _, removed, _, put⟩ | ⟨irregular, _⟩ := w.fs.removeFile_spec name dir
    · rw [removed] at done
      cases done
      exact step_tmp owns put (file_of_private get)
    · exact absurd (irregular _ get) (file_of_private get _ get)
  · exact .refl tid _

theorem sem_syncDir {dir : Path} {w w' : World} {reply : Io Unit}
    (step : sem env tid (.syncDir dir) w reply w') :
    Step tid w.view w w' ∧ w'.fs.get = w.fs.get ∧ (reply = .ok () ∨
      ∃ kind, reply = .error kind ∧ (env.faults = true ∨ w.fs.isDir dir = false)) := by
  obtain done | ⟨faults, rfl, e, failed⟩ := sem_natural (fun _ => rfl) step
  · by_cases directory : w.fs.isDir dir = true
    · rw [FileSystem.syncDir, if_pos directory] at done
      cases done
      exact ⟨step_sync rfl, rfl, .inl rfl⟩
    · rw [FileSystem.syncDir, if_neg directory] at done
      cases done
      exact ⟨.refl tid w, rfl, .inr ⟨_, rfl, .inr (by simpa using directory)⟩⟩
  · obtain ⟨kind, rfl⟩ := ioFailure_eq failed
    exact ⟨.refl tid _, rfl, .inr ⟨kind, rfl, .inl faults⟩⟩

theorem sem_rename {tmp : Path} {data : Bytes} {path : Path} (visible : hidden path = false)
    {w w' : World} {reply : Io Unit} (there : TmpAt tid tmp (some (privateFile data)) w)
    (step : sem env tid (.rename tmp path) w reply w') :
    reply = .ok () ∧ Step tid (Function.update w.view path (some (privateFile data))) w w' ∨
      ∃ kind, reply = .error kind ∧ w' = w ∧ (env.faults = true ∨ w.fs.isDir path.tail = false ∨
        ∃ old, w.fs.get path = some old ∧ old.ftype = .directory) := by
  obtain ⟨owns, get⟩ := there
  obtain ⟨sourceName, sourceDir, rfl⟩ := exists_cons_of_owns owns
  have tmp : isTmp (sourceName :: sourceDir) = true := by
    obtain ⟨seq, stamp, _⟩ := owns
    simp [isTmp, stamp]
  have apart : sourceName :: sourceDir ≠ path := by
    rintro rfl
    rw [not_tmp_of_visible visible] at tmp
    cases tmp
  obtain ⟨name, dir, rfl⟩ : ∃ name dir, path = name :: dir := by
    cases path with
    | nil => cases visible
    | cons name dir => exact ⟨name, dir, rfl⟩
  obtain done | ⟨faults, rfl, e, failed⟩ := sem_natural (fun _ => rfl) step
  · obtain ⟨node, middle, fs, found, _, free, moved, _, put, gone⟩ | ⟨refused, kind, failed⟩ :=
      w.fs.rename_spec sourceName sourceDir name dir apart
    · rw [moved] at done
      cases done
      cases found.symm.trans get
      have published : Step tid _ w { w with fs := middle } := step_put visible put free
      have kept : middle.get (sourceName :: sourceDir) = some (privateFile data) := by
        rw [put, Function.update_of_ne apart, get]
      have dropped : Step tid _ _ { w with fs := fs } :=
        step_tmp (w := { w with fs := middle }) owns gone (file_of_private kept)
      exact .inl ⟨rfl, published.trans (published.view ▸ dropped)⟩
    · rw [failed] at done
      cases done
      refine .inr ⟨kind, rfl, rfl, .inr ?_⟩
      obtain irregular | refused := refused
      · exact absurd rfl (irregular _ get)
      · exact refused
  · obtain ⟨kind, rfl⟩ := ioFailure_eq failed
    exact .inr ⟨kind, rfl, rfl, .inl faults⟩

theorem sem_hardLink {tmp : Path} {data : Bytes} {path : Path} (visible : hidden path = false)
    {w w' : World} {reply : Io Unit} (there : TmpAt tid tmp (some (privateFile data)) w)
    (step : sem env tid (.hardLink tmp path) w reply w') :
    reply = .ok () ∧ w.view path = none ∧ TmpAt tid tmp (some (privateFile data)) w' ∧
        Step tid (Function.update w.view path (some (privateFile data))) w w' ∨
      ∃ kind, reply = .error kind ∧ w' = w ∧ (env.faults = true ∨ w.view path ≠ none ∨
        w.fs.isDir path.tail = false) := by
  obtain ⟨owns, get⟩ := there
  obtain ⟨name, dir, rfl⟩ : ∃ name dir, path = name :: dir := by
    cases path with
    | nil => cases visible
    | cons name dir => exact ⟨name, dir, rfl⟩
  obtain done | ⟨faults, rfl, e, failed⟩ := sem_natural (fun _ => rfl) step
  · obtain ⟨node, fs, found, _, absent, _, linked, _, put⟩ | ⟨kind, refused, failed⟩ :=
      w.fs.hardLink_spec tmp name dir
    · rw [linked] at done
      cases done
      cases found.symm.trans get
      refine .inl ⟨rfl, (view_of_visible visible).trans absent, ⟨owns, ?_⟩,
        step_put visible put (by simp [absent])⟩
      rw [put, Function.update_of_ne, get]
      rintro rfl
      rw [get] at absent
      cases absent
    · rw [failed] at done
      cases done
      exact .inr ⟨kind, rfl, rfl, .inr ((view_of_visible visible).symm ▸ refused ⟨_, get, rfl⟩)⟩
  · obtain ⟨kind, rfl⟩ := ioFailure_eq failed
    exact .inr ⟨kind, rfl, rfl, .inl faults⟩

/-- The next temp name for `path` is free as far as this process is concerned. -/
theorem sem_tmpStamp {w w' : World} {reply : Nat × Nat} (path : Path) (suffix : Fixed 8)
    (named : path ≠ []) (step : sem env tid .tmpStamp w reply w') :
    Step tid w.view w w' ∧ ∃ node,
      TmpAt tid (withExtension path (.tmp reply.1 reply.2 suffix)) node w' ∧
      (StampsFree w → node = none) := by
  obtain done | ⟨_, _, e, failed⟩ := sem_natural (fun _ => rfl) step
  · cases done
    cases path with
    | nil => exact absurd rfl named
    | cons name dir =>
      refine ⟨step_stamp tid w, _, ⟨⟨w.stamps.length, rfl, by simp⟩, rfl⟩, fun free => ?_⟩
      by_contra present
      have bound := free _ w.stamps.length rfl (Option.isSome_iff_ne_none.mpr present)
      omega
  · cases failed

theorem createPrivateTmpWithin_holds (party : Party P env tid) (keeps : Keeps P tid held)
    {path : Path} (named : path ≠ []) (tries : Nat) :
    Triple P held (createPrivateTmpWithin path tries) fun result w =>
      held w ∧ ∀ tmp, result = .ok tmp → TmpAt tid tmp (some (privateFile [])) w := by
  induction tries with
  | zero => exact Triple.done fun w here => ⟨here, by simp⟩
  | succ tries ih =>
    refine Triple.bind (randomFixed_spec party keeps.still .suffix) (fun suffix => ?_)
      fun _ _ here => ⟨here.1, by simp⟩
    refine (stepping .tmpStamp (fun reply w => ∃ node,
      TmpAt tid (withExtension path (.tmp reply.1 reply.2 suffix)) node w) party keeps ?_
      fun reply => ?_).mono (fun _ here => here.1) fun _ _ ended => ended
    · intro w reply w' _ step
      obtain ⟨quiet, node, there, _⟩ := sem_tmpStamp path suffix named step
      exact ⟨quiet, node, there⟩
    · obtain ⟨pid, seq⟩ := reply
      refine stepping_from (.createNew _)
        (fun w => ∃ node, TmpAt tid (withExtension path (.tmp pid seq suffix)) node w)
        (fun reply w => reply = .ok () →
          TmpAt tid (withExtension path (.tmp pid seq suffix)) (some (privateFile [])) w) party keeps
        (fun ⟨node, there⟩ moved => ⟨node, party.tmpAt there moved⟩) ?_ fun reply => ?_
      · rintro w reply w' _ ⟨node, there⟩ step
        obtain ⟨quiet, ⟨rfl, made⟩ | ⟨kind, rfl, _⟩⟩ := sem_createNew there step
        · exact ⟨quiet, fun _ => made⟩
        · exact ⟨quiet, by simp⟩
      · match reply with
        | .ok () =>
          refine Triple.done fun w here => ⟨here.1, fun tmp same => ?_⟩
          cases same
          exact here.2 rfl
        | .error .alreadyExists => exact ih.mono (fun _ here => here.1) fun _ _ ended => ended
        | .error .notFound | .error .permissionDenied | .error .notADirectory
        | .error .isADirectory | .error .storageFull | .error .other =>
          exact Triple.done fun w here => ⟨here.1, by simp⟩

theorem tail_withExtension (path : Path) (extension : Extension) :
    (withExtension path extension).tail = path.tail := by
  cases path <;> rfl

/-- Where no call fails the first name is free, whatever the other threads do. -/
theorem createPrivateTmp_among (party : Party P env tid) (keeps : Keeps P tid held) {path : Path}
    (named : path ≠ []) (faultless : env.faults = false)
    (ready : ∀ w, held w → w.fs.isDir path.tail = true ∧ StampsFree w) :
    Triple P held (createPrivateTmp path) fun result w =>
      held w ∧ ∃ tmp, result = .ok tmp ∧ TmpAt tid tmp (some (privateFile [])) w := by
  refine Triple.bind (randomFixed_spec party keeps.still .suffix) (fun suffix => ?_)
    fun _ _ here => absurd here.2 (by simp [faultless])
  refine (stepping .tmpStamp (fun reply w =>
    TmpAt tid (withExtension path (.tmp reply.1 reply.2 suffix)) none w) party keeps ?_
    fun reply => ?_).mono (fun _ here => here.1) fun _ _ ended => ended
  · intro w reply w' here step
    obtain ⟨quiet, node, there, free⟩ := sem_tmpStamp path suffix named step
    exact ⟨quiet, free (ready w here).2 ▸ there⟩
  · obtain ⟨pid, seq⟩ := reply
    refine stepping_from (.createNew _) (TmpAt tid (withExtension path (.tmp pid seq suffix)) none)
      (fun reply w => reply = .ok () ∧
        TmpAt tid (withExtension path (.tmp pid seq suffix)) (some (privateFile [])) w) party keeps
      (fun there moved => party.tmpAt there moved) ?_ fun reply => ?_
    · intro w reply w' here there step
      obtain ⟨quiet, made | ⟨kind, _, _, faults | present | orphan⟩⟩ := sem_createNew there step
      · exact ⟨quiet, made⟩
      · rw [faultless] at faults
        cases faults
      · exact absurd rfl present
      · rw [tail_withExtension, (ready w here).1] at orphan
        cases orphan
    · rintro w ⟨here, rfl, made⟩
      exact ⟨here, _, rfl, made⟩

theorem createPrivateTmp_makes (party : Party P env tid) (keeps : Keeps P tid held) {path : Path}
    (named : path ≠ []) (calm : Calm P env)
    (ready : ∀ w, held w → w.fs.isDir path.tail = true ∧ StampsFree w) :
    Triple P held (createPrivateTmp path) fun result w =>
      held w ∧ ∃ tmp, result = .ok tmp ∧ TmpAt tid tmp (some (privateFile [])) w :=
  createPrivateTmp_among party keeps named calm.faultless ready

theorem createPrivateTmp_spec (party : Party P env tid) (keeps : Keeps P tid held) {path : Path}
    (named : path ≠ []) {excuse : Prop}
    (calm : ¬ excuse → Calm P env ∧ ∀ w, held w → w.fs.isDir path.tail = true ∧ StampsFree w) :
    Triple P held (createPrivateTmp path) fun result w => held w ∧ match result with
      | .ok tmp => TmpAt tid tmp (some (privateFile [])) w
      | .error _ => excuse := by
  by_cases excused : excuse
  · refine (createPrivateTmpWithin_holds party keeps named 8).weaken fun result w made => ?_
    cases result with
    | ok tmp => exact ⟨made.1, made.2 tmp rfl⟩
    | error e => exact ⟨made.1, excused⟩
  · refine (createPrivateTmp_makes party keeps named (calm excused).1 (calm excused).2).weaken ?_
    rintro _ w ⟨here, tmp, rfl, made⟩
    exact ⟨here, made⟩

theorem writeTmp_spec (party : Party P env tid) (keeps : Keeps P tid held) (tmp : Path)
    (data : Bytes) :
    Triple P (fun w => held w ∧ TmpAt tid tmp (some (privateFile [])) w) (writeTmp tmp data)
      fun result w => held w ∧ match result with
        | .ok _ => TmpAt tid tmp (some (privateFile data)) w
        | .error _ => env.faults = true := by
  -- a failed write leaves the file empty, a failed sync leaves it written
  have body : Triple P (fun w => held w ∧ TmpAt tid tmp (some (privateFile [])) w)
      ((call (.writeAll tmp data)).bind fun reply => (io reply).bind fun _ =>
        (call (.syncFile tmp)).bind fun reply => io reply)
      fun result w => held w ∧ match result with
        | .ok _ => TmpAt tid tmp (some (privateFile data)) w
        | .error _ => env.faults = true ∧ ∃ old, TmpAt tid tmp (some (privateFile old)) w := by
    refine stepping_from (.writeAll tmp data) _ (fun reply w => match reply with
      | .ok _ => TmpAt tid tmp (some (privateFile data)) w
      | .error _ => env.faults = true ∧ TmpAt tid tmp (some (privateFile [])) w) party keeps
      (fun there moved => party.tmpAt there moved) ?_ fun reply => ?_
    · intro w reply w' here there step
      obtain ⟨quiet, ⟨rfl, wrote⟩ | ⟨faults, kind, rfl, rfl⟩⟩ := sem_writeAll there step
      · exact ⟨quiet, wrote⟩
      · exact ⟨quiet, faults, there⟩
    · match reply with
      | .error kind => exact Triple.done fun w here => ⟨here.1, here.2.1, [], here.2.2⟩
      | .ok () =>
        have still : Still P fun w => held w ∧ TmpAt tid tmp (some (privateFile data)) w :=
          ⟨fun w w' here moved inv => ⟨keeps.stable _ _ here.1 moved inv, party.tmpAt here.2 moved⟩,
            fun here inv => keeps.still.still here.1 inv⟩
        refine observe party still rfl fun reply => ?_
        rintro w ⟨⟨here, wrote⟩, seen⟩
        obtain done | ⟨faults, _, e, failed⟩ := sem_natural (fun _ => rfl) seen
        · cases done
          exact ⟨here, wrote⟩
        · obtain ⟨kind, rfl⟩ := ioFailure_eq failed
          exact ⟨here, faults, data, wrote⟩
  refine Triple.attempt_bind body fun result => ?_
  match result with
  | .ok () => exact Triple.done fun w here => here
  | .error e =>
    refine (stepping_from (.removeFile tmp) _ (fun _ _ => env.faults = true) party keeps
      (fun ⟨faults, old, there⟩ moved => ⟨faults, old, party.tmpAt there moved⟩) ?_ fun reply => ?_)
    · rintro w reply w' here ⟨faults, old, there⟩ step
      exact ⟨sem_removeFile there step, faults⟩
    · exact Triple.done fun w here => here

/-! Putting files in place. -/

/-- A path the store keeps files at: visible, and in one of its directories. -/
def Storable (path : Path) : Prop := hidden path = false ∧ path.tail ∈ scaffold

/-- Nothing but a failing call stands in the way of a file at `path`. -/
def Ready (path : Path) (w : World) : Prop :=
  Makeable w path.tail ∧ StampsFree w ∧ ∀ old, w.fs.get path = some old → old.ftype ≠ .directory

/-- Putting `data` at `path` leads from `held` to `after`, where `free` allows it. -/
structure Publishes (P : Protocol Calls World) (tid : Tid) (path : Path) (data : Bytes)
    (free held after : World → Prop) : Prop where
  before : Keeps P tid held
  behind : Keeps P tid after
  put : ∀ {w w'}, held w → P.inv w → free w →
    Step tid (Function.update w.view path (some (privateFile data))) w w' →
    P.inv w' ∧ P.guar w w' ∧ after w'

theorem faulty_of_calm {excuse rest : Prop} (calm : ¬ excuse → Calm P env ∧ rest)
    (faults : env.faults = true) : excuse :=
  excused_of_faults (fun none => (calm none).1.faultless) faults

theorem Storable.exists_cons {path : Path} (storable : Storable path) :
    ∃ name dir, path = name :: dir := by
  cases path with
  | nil => cases storable.1
  | cons name dir => exact ⟨name, dir, rfl⟩

theorem ensureParent_spec (party : Party P env tid) (keeps : Keeps P tid held) {path : Path}
    (storable : Storable path) {excuse : Prop}
    (calm : ¬ excuse → Calm P env ∧ ∀ w, held w → Ready path w) :
    Triple P held (ensureParent path) fun result w =>
      held w ∧ (excuse ∨ result = .ok () ∧ PrivateDir w path.tail) := by
  obtain ⟨name, dir, rfl⟩ := storable.exists_cons
  exact ensurePrivateDir_spec party keeps dir storable.2 fun none =>
    ⟨(calm none).1, fun w here => ((calm none).2 w here).1⟩

/-- The knowledge that the parent directory has been made. -/
theorem keeps_parent (keeps : Keeps P tid held) (dir : Path) {excuse rest : Prop}
    (calm : ¬ excuse → Calm P env ∧ rest) :
    Keeps P tid fun w => held w ∧ (excuse ∨ PrivateDir w dir) := by
  refine keeps.and (fun {w w'} _ made moved _ => ?_) fun _ made step => made.imp_right step.privateDir
  obtain excused | made := made
  · exact .inl excused
  · by_cases excused : excuse
    · exact .inl excused
    · exact .inr ((calm excused).1.alone moved ▸ made)

/-- The common part of the three ways to write a file: a temp file with the data. -/
theorem withTmp_spec (party : Party P env tid) (keeps : Keeps P tid held) {path : Path}
    (storable : Storable path) (data : Bytes) {excuse : Prop}
    (calm : ¬ excuse → Calm P env ∧ ∀ w, held w → Ready path w) {rest : Path → Prog α}
    {post : Except LithiumError α → World → Prop}
    (finish : ∀ tmp, Triple P (fun w => held w ∧ (excuse ∨ PrivateDir w path.tail) ∧
      TmpAt tid tmp (some (privateFile data)) w) (rest tmp) post)
    (failed : ∀ e w, held w → excuse → post (.error e) w) :
    Triple P (fun w => held w ∧ (excuse ∨ PrivateDir w path.tail))
      ((createPrivateTmp path).bind fun tmp => (writeTmp tmp data).bind fun _ => rest tmp) post := by
  have parent := keeps_parent keeps path.tail calm
  have named : path ≠ [] := by
    rintro rfl
    cases storable.1
  have ready : ¬ excuse → Calm P env ∧ ∀ w, held w ∧ (excuse ∨ PrivateDir w path.tail) →
      w.fs.isDir path.tail = true ∧ StampsFree w := fun none =>
    ⟨(calm none).1, fun w here =>
      ⟨(here.2.resolve_left none).isDir, ((calm none).2 w here.1).2.1⟩⟩
  refine Triple.bind (createPrivateTmp_spec party parent named ready) (fun tmp => ?_)
    fun e w here => failed e w here.1.1 here.2
  refine Triple.bind (writeTmp_spec party parent tmp data) (fun _ => ?_)
    fun e w here => failed e w here.1.1 (faulty_of_calm calm here.2)
  exact (finish tmp).mono (fun w here => ⟨here.1.1, here.1.2, here.2⟩) fun _ _ ended => ended

theorem trySyncParent_spec (party : Party P env tid) (keeps : Keeps P tid held) (path : Path) :
    Triple P held (trySyncParent path) fun result w => held w ∧ result = .ok () := by
  cases path with
  | nil => exact Triple.done fun w here => ⟨here, rfl⟩
  | cons name dir =>
    exact stepping (.syncDir dir) (fun _ _ => True) party keeps
      (fun w reply w' _ step => ⟨(sem_syncDir step).1, trivial⟩)
      fun _ => Triple.done fun w here => ⟨here.1, rfl⟩

section
variable {free after : World → Prop} {path : Path} {data : Bytes}

/-- What `write_secure` and its best-effort sibling know when they rename. -/
theorem rename_publishes (party : Party P env tid)
    (publishes : Publishes P tid path data free held after) (storable : Storable path)
    (allowed : ∀ {tmp w reply w'}, P.sem (.rename tmp path) w reply w' → free w)
    {excuse : Prop} {tmp : Path} (calm : ¬ excuse → Calm P env ∧ ∀ w, held w → Ready path w)
    {next : Io Unit → Prog α} {post : Except LithiumError α → World → Prop}
    (published : Triple P after (next (.ok ())) post)
    (refused : ∀ kind, Triple P (fun w => held w ∧ excuse ∧ TmpAt tid tmp (some (privateFile data)) w)
      (next (.error kind)) post) :
    Triple P (fun w => held w ∧ (excuse ∨ PrivateDir w path.tail) ∧
      TmpAt tid tmp (some (privateFile data)) w) ((call (.rename tmp path)).bind next) post := by
  refine Triple.call (fun (reply : Io Unit) w => match reply with
    | .ok _ => after w
    | .error _ => held w ∧ excuse ∧ TmpAt tid tmp (some (privateFile data)) w) ?_ ?_ ?_
  · rintro w w' ⟨here, made, there⟩ moved inv
    exact ⟨publishes.before.stable _ _ here moved inv,
      ((keeps_parent publishes.before path.tail calm).stable _ _ ⟨here, made⟩ moved inv).2,
      party.tmpAt there moved⟩
  · rintro w ⟨here, made, there⟩ inv reply w' step
    obtain ⟨rfl, put⟩ | ⟨kind, rfl, rfl, refusal⟩ :=
      sem_rename storable.1 there (party.meaning step)
    · exact publishes.put here inv (allowed step) put
    · refine ⟨inv, publishes.before.still.still here inv, here, ?_, there⟩
      by_contra none
      obtain ⟨calm, ready⟩ := calm none
      obtain faults | orphan | ⟨old, found, directory⟩ := refusal
      · rw [calm.faultless] at faults
        cases faults
      · rw [(made.resolve_left none).isDir] at orphan
        cases orphan
      · exact (ready _ here).2.2 old found directory
  · intro reply
    match reply with
    | .ok () => exact published
    | .error kind => exact refused kind

/-- `write_secure` either puts the file in place or leaves the view alone. -/
theorem writeSecure_spec (party : Party P env tid)
    (publishes : Publishes P tid path data (fun _ => True) held after) (storable : Storable path)
    {excuse : Prop} (calm : ¬ excuse → Calm P env ∧ ∀ w, held w → Ready path w) :
    Triple P held (writeSecure path data) fun result w => match result with
      | .ok _ => after w
      | .error _ => held w ∧ excuse := by
  refine Triple.bind (ensureParent_spec party publishes.before storable calm) (fun _ => ?_) ?_
  · refine (withTmp_spec party publishes.before storable data calm (fun tmp => ?_)
      fun e w here excused => ⟨here, excused⟩).mono
      (fun w here => ⟨here.1, here.2.imp_right And.right⟩) fun _ _ ended => ended
    refine rename_publishes party publishes storable (fun _ => trivial) calm ?_ fun kind =>
      Triple.done fun w here => ⟨here.1, here.2.1⟩
    exact (trySyncParent_spec party publishes.behind path).weaken
      fun _ _ synced => synced.2 ▸ synced.1
  · rintro e w ⟨here, outcome⟩
    exact ⟨here, excused_of_error (outcome.imp_right And.left)⟩

/-- `write_secure_new` puts the file where nothing was or leaves the view alone. -/
theorem writeSecureNew_spec (party : Party P env tid)
    (publishes : Publishes P tid path data (fun w => w.view path = none) held after)
    (storable : Storable path) {excuse : Prop}
    (calm : ¬ excuse → Calm P env ∧ ∀ w, held w → Ready path w ∧ w.view path = none) :
    Triple P held (writeSecureNew path data) fun result w => match result with
      | .ok _ => after w
      | .error _ => held w ∧ excuse := by
  have ready : ¬ excuse → Calm P env ∧ ∀ w, held w → Ready path w := fun none =>
    ⟨(calm none).1, fun w here => ((calm none).2 w here).1⟩
  refine Triple.bind (ensureParent_spec party publishes.before storable ready) (fun _ => ?_) ?_
  · refine (withTmp_spec party publishes.before storable data ready (fun tmp => ?_)
      fun e w here excused => ⟨here, excused⟩).mono
      (fun w here => ⟨here.1, here.2.imp_right And.right⟩) fun _ _ ended => ended
    refine Triple.call (fun (reply : Io Unit) w => match reply with
      | .ok _ => after w ∧ TmpAt tid tmp (some (privateFile data)) w
      | .error _ => held w ∧ excuse ∧ TmpAt tid tmp (some (privateFile data)) w) ?_ ?_ ?_
    · rintro w w' ⟨here, made, there⟩ moved inv
      exact ⟨publishes.before.stable _ _ here moved inv,
        ((keeps_parent publishes.before path.tail ready).stable _ _ ⟨here, made⟩ moved inv).2,
        party.tmpAt there moved⟩
    · rintro w ⟨here, made, there⟩ inv reply w' step
      obtain ⟨rfl, absent, there, put⟩ | ⟨kind, rfl, rfl, refusal⟩ :=
        sem_hardLink storable.1 there (party.meaning step)
      · obtain ⟨kept, change, after⟩ := publishes.put here inv absent put
        exact ⟨kept, change, after, there⟩
      · refine ⟨inv, publishes.before.still.still here inv, here, ?_, there⟩
        by_contra none
        obtain ⟨calm, ready⟩ := calm none
        obtain faults | present | orphan := refusal
        · rw [calm.faultless] at faults
          cases faults
        · exact present (ready _ here).2
        · rw [(made.resolve_left none).isDir] at orphan
          cases orphan
    · intro reply
      match reply with
      | .ok () =>
        refine stepping_from (.removeFile tmp) _ (fun _ _ => True) party publishes.behind
          (fun there moved => party.tmpAt there moved)
          (fun w _ w' _ there step => ⟨sem_removeFile there step, trivial⟩) fun _ => ?_
        exact (trySyncParent_spec party publishes.behind path).mono (fun _ here => here.1)
          fun _ _ synced => synced.2 ▸ synced.1
      | .error kind =>
        refine stepping_from (.removeFile tmp) _ (fun _ _ => excuse) party publishes.before
          (fun there moved => ⟨there.1, party.tmpAt there.2 moved⟩)
          (fun w _ w' _ there step => ⟨sem_removeFile there.2 step, there.1⟩) fun _ => ?_
        exact Triple.done fun w here => here
  · rintro e w ⟨here, outcome⟩
    exact ⟨here, excused_of_error (outcome.imp_right And.left)⟩

/-- `write_secure_new_best_effort` puts the file in place by a rename or leaves the
view alone. Whether something was there is up to the protocol. -/
theorem writeSecureNewBestEffort_spec (party : Party P env tid)
    (publishes : Publishes P tid path data free held after) (storable : Storable path)
    (allowed : ∀ {tmp w reply w'}, P.sem (.rename tmp path) w reply w' → free w) {excuse : Prop}
    (calm : ¬ excuse → Calm P env ∧ ∀ w, held w → Ready path w ∧ w.view path = none) :
    Triple P held (writeSecureNewBestEffort path data) fun result w => match result with
      | .ok _ => after w
      | .error _ => held w ∧ excuse := by
  have ready : ¬ excuse → Calm P env ∧ ∀ w, held w → Ready path w := fun none =>
    ⟨(calm none).1, fun w here => ((calm none).2 w here).1⟩
  have parent := keeps_parent publishes.before path.tail ready
  refine Triple.bind (ensureParent_spec party publishes.before storable ready) (fun _ => ?_) ?_
  · refine (observe party parent.still rfl fun reply => ?_).mono
      (fun w here => ⟨here.1, here.2.imp_right And.right⟩) fun _ _ ended => ended
    rintro w ⟨⟨here, made⟩, seen⟩
    obtain done | ⟨faults, _, e, failed⟩ := sem_natural (fun _ => rfl) seen
    · cases done
      cases present : (w.fs.stat path).isSome with
      | true =>
        refine ⟨here, ?_⟩
        by_contra none
        have absent := ((calm none).2 w here).2
        rw [view_of_visible storable.1] at absent
        simp [FileSystem.stat, absent] at present
      | false =>
        refine withTmp_spec party publishes.before storable data ready (fun tmp => ?_)
          (fun e w here excused => ⟨here, excused⟩) w ⟨here, made⟩
        refine rename_publishes party publishes storable allowed ready ?_ fun kind => ?_
        · exact (trySyncParent_spec party publishes.behind path).weaken
            fun _ _ synced => synced.2 ▸ synced.1
        · refine stepping_from (.removeFile tmp) _ (fun _ _ => excuse) party publishes.before
            (fun there moved => ⟨there.1, party.tmpAt there.2 moved⟩)
            (fun w _ w' _ there step => ⟨sem_removeFile there.2 step, there.1⟩) fun _ => ?_
          exact Triple.done fun w here => here
    · obtain ⟨kind, rfl⟩ := ioFailure_eq failed
      exact ⟨here, faulty_of_calm calm faults⟩
  · rintro e w ⟨here, outcome⟩
    exact ⟨here, excused_of_error (outcome.imp_right And.left)⟩

end

/-! Sealing and rewrapping. -/

section
variable (X : Crypto)

theorem encryptFresh_spec (party : Party P env tid) (still : Still P held) (key : Key)
    (plaintext aad : Bytes) :
    Triple P held (encryptFresh X key plaintext aad) fun result w => held w ∧ match result with
      | .ok (ct, nonce) => X.encryptRaw key nonce aad plaintext = some ct
      | .error e => env.faults = true ∨
          e = .aeadFailed ∧ ∃ nonce, X.encryptRaw key nonce aad plaintext = none := by
  refine Triple.bind (randomFixed_spec party still .nonce) (fun nonce w here => ?_)
    fun e w here => ⟨here.1, .inl here.2⟩
  split
  · next failed => exact ⟨here.1, .inr ⟨rfl, nonce, failed⟩⟩
  · next ct encrypted => exact ⟨here.1, encrypted⟩

def zeroNonce : Nonce := ⟨List.replicate 12 0, by simp⟩

theorem encodeEncrypted_spec (party : Party P env tid) (still : Still P held) (mk : Key)
    (payload : Bytes) (keyType : String) :
    Triple P held (encodeEncrypted X mk payload keyType) fun result w =>
      held w ∧ ∃ draws, Answers env (sealRecord X mk payload keyType draws) result := by
  have zeros : SealDraws :=
    ⟨⟨List.replicate 32 0, by simp⟩, ⟨List.replicate 32 0, by simp⟩, zeroNonce, zeroNonce⟩
  refine Triple.bind (randomFixed_spec party still .dek) (fun dek => ?_)
    fun e w here => ⟨here.1, zeros, .inr ⟨here.2, e, rfl⟩⟩
  refine Triple.bind ((randomFixed_spec party still .salt).mono (fun _ here => here.1)
    fun _ _ drawn => drawn) (fun salt => ?_) fun e w here => ⟨here.1, zeros, .inr ⟨here.2, e, rfl⟩⟩
  refine Triple.bind ((encryptFresh_spec X party still _ _ _).mono (fun _ here => here.1)
    fun _ _ made => made) ?_ ?_
  · rintro ⟨ctWrap, nonceWrap⟩ w ⟨here, wrapped⟩
    refine Triple.bind (encryptFresh_spec X party still dek payload _) ?_ ?_ w here
    · rintro ⟨ctPayload, noncePayload⟩ w ⟨here, encrypted⟩
      refine ⟨here, ⟨dek, salt, nonceWrap, noncePayload⟩, .inl ?_⟩
      simp only [sealRecord, wrapped, encrypted]
    · rintro e w ⟨here, faults | ⟨rfl, nonce, failed⟩⟩
      · exact ⟨here, zeros, .inr ⟨faults, e, rfl⟩⟩
      · refine ⟨here, ⟨dek, salt, nonceWrap, nonce⟩, .inl ?_⟩
        simp only [sealRecord, wrapped, failed]
  · rintro e w ⟨here, faults | ⟨rfl, nonce, failed⟩⟩
    · exact ⟨here, zeros, .inr ⟨faults, e, rfl⟩⟩
    · refine ⟨here, ⟨dek, salt, nonce, zeroNonce⟩, .inl ?_⟩
      simp only [sealRecord, failed]

/-- A fresh record is put in place or the view stays as it is. -/
theorem saveBytesEncrypted_spec {after : World → Prop} {path : Path} {mk : Key} {payload : Bytes}
    {keyType : String} (party : Party P env tid)
    (publishes : ∀ draws data, sealRecord X mk payload keyType draws = .ok data →
      Publishes P tid path data (fun _ => True) held after) (keeps : Keeps P tid held)
    (sealable : ∀ draws, ∃ data, sealRecord X mk payload keyType draws = .ok data)
    (storable : Storable path) {excuse : Prop}
    (calm : ¬ excuse → Calm P env ∧ ∀ w, held w → Ready path w) :
    Triple P held (saveBytesEncrypted X path mk payload keyType) fun result w => match result with
      | .ok _ => after w
      | .error _ => held w ∧ excuse := by
  refine Triple.bind (encodeEncrypted_spec X party keeps.still mk payload keyType) (fun data => ?_) ?_
  · rintro w ⟨here, draws, answers⟩
    exact writeSecure_spec party (publishes draws data answers.ok) storable calm w here
  · rintro e w ⟨here, draws, answers⟩
    obtain ⟨data, sealed⟩ := sealable draws
    rw [sealed] at answers
    exact ⟨here, faulty_of_calm calm answers.faulted⟩

/-- What rewrapping an entry yields, given its random values. -/
def rewrapNode (node : Option Node) (oldMk newMk : Key) (keyType : String) (saltNew : Fixed 32)
    (nonceWrapNew : Nonce) : Except LithiumError Bytes :=
  (readNode node).bind fun buf => rewrapRecord X buf oldMk newMk keyType saltNew nonceWrapNew

theorem rewrapKeyfileDekToBytes_spec (party : Party P env tid) (still : Still P held) (path : Path)
    (oldMk newMk : Key) (keyType : String) :
    Triple P held (rewrapKeyfileDekToBytes X path oldMk newMk keyType) fun result w =>
      held w ∧ ∃ w₀ saltNew nonceWrapNew, held w₀ ∧
        Answers env (rewrapNode X (w₀.fs.get path) oldMk newMk keyType saltNew nonceWrapNew)
          result := by
  have zeros : Fixed 32 := ⟨List.replicate 32 0, by simp⟩
  refine Triple.bind (readKeyfileBytes_spec party still path) ?_ ?_
  · rintro buf w ⟨here, answers⟩
    have read := answers.ok
    cases unwrapped : unwrapRecord X buf oldMk keyType with
    | error e =>
      exact ⟨here, w, zeros, zeroNonce, here, .inl (by
        simp only [rewrapNode, read, Except.bind, rewrapRecord, unwrapped, bind])⟩
    | ok found =>
      obtain ⟨r, dek⟩ := found
      refine Triple.bind (randomFixed_spec party still .salt) (fun saltNew => ?_)
        (fun e w' there => ⟨there.1, w, zeros, zeroNonce, here, .inr ⟨there.2, e, rfl⟩⟩) w here
      refine Triple.bind ((encryptFresh_spec X party still _ _ _).mono (fun _ here => here.1)
        fun _ _ made => made) ?_ ?_
      · rintro ⟨ctWrapNew, nonceWrapNew⟩ w' ⟨there, wrapped⟩
        exact ⟨there, w, saltNew, nonceWrapNew, here, .inl (by
          simp only [rewrapNode, read, Except.bind, rewrapRecord, unwrapped, wrapped, bind])⟩
      · rintro e w' ⟨there, faults | ⟨rfl, nonce, failed⟩⟩
        · exact ⟨there, w, zeros, zeroNonce, here, .inr ⟨faults, e, rfl⟩⟩
        · exact ⟨there, w, saltNew, nonce, here, .inl (by
            simp only [rewrapNode, read, Except.bind, rewrapRecord, unwrapped, failed, bind])⟩
  · rintro e w ⟨here, failed | faults⟩
    · exact ⟨here, w, zeros, zeroNonce, here, .inl (by
        simp only [rewrapNode, ← failed, Except.bind])⟩
    · exact ⟨here, w, zeros, zeroNonce, here, .inr faults⟩

end

end Lithium.Keys
