import Lithium.Keys.Splicing

/-! Chains of rewrappings. Any call may fail, and a write that fails may have put part of its
data into the file. Whatever fails, a keyfile keeps its bytes until the rename puts another
record in its place, and a rewrapping that is through has changed the wrap of the data key and
nothing else. So any number of them leaves the payload as it was sealed. -/
namespace Lithium.Keys
open Effects Storage

/-- Calls that may fail part-way: a write that fails may have put the first bytes of its data
into the file. -/
def lossy (env : Env) (tid : Tid) : Executor Calls World (Choice × Option Nat) :=
  fun (choice, torn) op w =>
    match op, torn with
    | .writeAll path data, some written =>
      if env.faults then (choice.fault.bind ioFailure).map fun reply =>
        (reply, (w.onFs (w.fs.write (data.take written) path)).2)
      else none
    | op, _ => exec env tid choice op w

section
variable {env : Env} {tid : Tid} {op : Op} {w w' : World}

theorem lossy_of_sem {reply : Reply op} (step : sem env tid op w reply w') :
    (lossy env tid).sem op w reply w' := by
  obtain ⟨choice, stepped⟩ := step
  refine ⟨(choice, none), ?_⟩
  cases op <;> exact stepped

theorem sem_of_lossy {reply : Reply op} (whole : ∀ path data, op ≠ .writeAll path data)
    (step : (lossy env tid).sem op w reply w') : sem env tid op w reply w' := by
  obtain ⟨⟨choice, torn⟩, stepped⟩ := step
  refine ⟨choice, ?_⟩
  cases op with
  | writeAll path data => exact absurd rfl (whole path data)
  | _ => exact stepped

theorem lossy_writeAll {path : Path} {data : Bytes} {reply : Io Unit}
    (step : (lossy env tid).sem (.writeAll path data) w reply w') :
    sem env tid (.writeAll path data) w reply w' ∨ env.faults = true ∧ (∃ kind, reply = .error kind) ∧
      ∃ written, w' = { w with fs := (w.fs.write (data.take written) path).2 } := by
  obtain ⟨⟨choice, torn⟩, stepped⟩ := step
  cases torn with
  | none => exact .inl ⟨choice, stepped⟩
  | some written =>
    simp only [lossy] at stepped
    split at stepped
    · next faults =>
      obtain ⟨_, failed, same⟩ := Option.map_eq_some_iff.mp stepped
      cases same
      obtain ⟨e, _, failed⟩ := Option.bind_eq_some_iff.mp failed
      exact .inr ⟨faults, ioFailure_eq failed, written, rfl⟩
    · cases stepped

end

/-! Writing a file. -/

/-- Nothing but a failing call keeps `write_secure` from putting a file at `path`. -/
structure Clear (path : Path) (w : World) : Prop where
  ordinary : isTmp path = false
  target : ∀ node, w.fs.get path = some node → node.ftype ≠ .directory
  parent : PrivateDir w path.tail
  names : StampsFree w

/-- The counter of the temp files has gone on since `start`. -/
def Later (start w : World) : Prop := w.pid = start.pid ∧ start.stamps.length ≤ w.stamps.length

/-- The files are those of `start`. -/
def SameFiles (start w : World) : Prop := w.fs.get = start.fs.get ∧ Later start w

/-- Besides the files of `start` there is a temp file. -/
structure Beside (start : World) (tmp : Path) (data : Bytes) (w : World) : Prop where
  named : tmp ≠ []
  absent : start.fs.get tmp = none
  get : w.fs.get = Function.update start.fs.get tmp (some (privateFile data))
  later : Later start w

/-- The files of `start`, but for the one that was put at `path`. -/
def InPlace (start : World) (path : Path) (data : Bytes) (w : World) : Prop :=
  w.fs.get = Function.update start.fs.get path (some (privateFile data)) ∧ Later start w

/-- What a write that failed leaves: a temp file at most. -/
def Leftover (start w : World) : Prop :=
  SameFiles start w ∨ ∃ tmp part, Beside start tmp part w

/-- What was found at `path` is still there. -/
def Standing (path : Path) (found : Option Node) (w : World) : Prop :=
  ∀ node, found = some node → w.fs.get path = some node

section
variable {path tmp : Path} {data : Bytes} {start w w' : World}

theorem Later.refl (w : World) : Later w w := ⟨rfl, le_rfl⟩

theorem Later.step {tid : Tid} {view : View} (later : Later start w) (step : Step tid view w w') :
    Later start w' := by
  obtain ⟨taken, stamps, _⟩ := step.stamps
  refine ⟨step.pid.trans later.1, later.2.trans ?_⟩
  rw [stamps, List.length_append]
  exact Nat.le_add_right _ _

/-- A path is no base directory if a file can be put there. -/
theorem Clear.named (clear : Clear path w) : path ≠ [] := by
  rintro rfl
  obtain ⟨node, found, directory, _⟩ := clear.parent
  exact clear.target node found directory

theorem Leftover.standing (left : Leftover start w) {found : Option Node}
    (standing : Standing path found start) : Standing path found w := by
  intro node same
  have found := standing node same
  obtain ⟨get, _⟩ | ⟨tmp, part, beside⟩ := left
  · rw [get, found]
  · have apart : path ≠ tmp := by
      rintro rfl
      rw [beside.absent] at found
      cases found
    rw [beside.get, Function.update_of_ne apart, found]

theorem Beside.parent (beside : Beside start tmp data w) {dir : Path} (private_ : PrivateDir start dir) :
    PrivateDir w dir := by
  refine private_.congr ?_
  obtain ⟨node, found, _⟩ := private_
  rw [beside.get, Function.update_of_ne]
  rintro rfl
  rw [beside.absent] at found
  cases found

theorem InPlace.clear (placed : InPlace start path data w) (clear : Clear path start) :
    Clear path w where
  ordinary := clear.ordinary
  target := by
    intro node found
    rw [placed.1, Function.update_self] at found
    cases found
    simp [privateFile]
  parent := by
    refine clear.parent.congr ?_
    rw [placed.1, Function.update_of_ne]
    obtain ⟨name, dir, rfl⟩ := List.exists_cons_of_ne_nil clear.named
    exact List.ne_cons_self
  names := by
    intro p seq stamp present
    have apart : p ≠ path := by
      rintro rfl
      have ordinary := clear.ordinary
      simp [isTmp, stamp] at ordinary
    rw [placed.1, Function.update_of_ne apart] at present
    rw [placed.2.1] at stamp
    exact lt_of_lt_of_le (clear.names p seq stamp present) placed.2.2

end

/-! The calls. -/

section
variable {env : Env} {tid : Tid} {path tmp : Path} {data : Bytes} {start w w' : World}
  {reply : Io Unit}

theorem createNew_beside (same : SameFiles start w) (step : sem env tid (.createNew tmp) w reply w') :
    reply = .ok () ∧ Beside start tmp [] w' ∨ (∃ kind, reply = .error kind) ∧ w' = w ∧
      (env.faults = true ∨ start.fs.get tmp ≠ none ∨ ¬ PrivateDir start tmp.tail) := by
  obtain natural | ⟨faults, rfl, e, failure⟩ := sem_natural (fun _ => rfl) step
  · cases tmp with
    | nil =>
      obtain ⟨replied, world⟩ := Prod.mk.inj natural
      refine .inr ⟨⟨_, replied⟩, world, ?_⟩
      by_cases absent : start.fs.get [] = none
      · refine .inr (.inr ?_)
        rintro ⟨node, found, _⟩
        exact absurd (absent.symm.trans found) (by simp)
      · exact .inr (.inl absent)
    | cons name dir =>
      obtain ⟨absent, _, fs, made, _, get⟩ | ⟨present, failed⟩ | ⟨orphan, failed⟩ :=
        w.fs.create_spec ⟨.regular, 0o600, []⟩ name dir
      · rw [FileSystem.createNew, made] at natural
        obtain ⟨replied, rfl⟩ := Prod.mk.inj natural
        rw [same.1] at absent get
        exact .inl ⟨replied, List.cons_ne_nil _ _, absent, get, same.2⟩
      · rw [FileSystem.createNew, failed] at natural
        obtain ⟨replied, world⟩ := Prod.mk.inj natural
        rw [same.1] at present
        exact .inr ⟨⟨_, replied⟩, world, .inr (.inl present)⟩
      · rw [FileSystem.createNew, failed] at natural
        obtain ⟨replied, world⟩ := Prod.mk.inj natural
        refine .inr ⟨⟨_, replied⟩, world, .inr (.inr fun parent => ?_)⟩
        have there : PrivateDir w dir := parent.congr (by rw [same.1])
        rw [there.isDir] at orphan
        cases orphan
  · exact .inr ⟨ioFailure_eq failure, rfl, .inl faults⟩

theorem writeAll_beside {old : Bytes} (beside : Beside start tmp old w)
    (step : (lossy env tid).sem (.writeAll tmp data) w reply w') :
    reply = .ok () ∧ Beside start tmp data w' ∨
      env.faults = true ∧ (∃ kind, reply = .error kind) ∧ ∃ part, Beside start tmp part w' := by
  have wrote : ∀ part, ∃ fs, w.fs.write part tmp = (.ok (), fs) ∧
      Beside start tmp part { w with fs } := by
    intro part
    obtain ⟨fs, wrote, get⟩ := w.fs.write_fresh beside.named beside.get rfl part
    exact ⟨fs, wrote, beside.named, beside.absent, get, beside.later⟩
  obtain whole | ⟨faults, failed, written, rfl⟩ := lossy_writeAll step
  · obtain natural | ⟨faults, rfl, e, failure⟩ := sem_natural (fun _ => rfl) whole
    · obtain ⟨fs, done, after⟩ := wrote data
      rw [done] at natural
      obtain ⟨replied, rfl⟩ := Prod.mk.inj natural
      exact .inl ⟨replied, after⟩
    · exact .inr ⟨faults, ioFailure_eq failure, old, beside⟩
  · obtain ⟨fs, done, after⟩ := wrote (data.take written)
    rw [done]
    exact .inr ⟨faults, failed, _, after⟩

theorem removeFile_leftover (beside : Beside start tmp data w)
    (step : sem env tid (.removeFile tmp) w reply w') : Leftover start w' := by
  obtain natural | ⟨_, rfl, _⟩ := sem_natural (fun _ => rfl) step
  · obtain ⟨fs, removed, get⟩ :=
      w.fs.removeFile_fresh beside.named beside.get beside.absent (by simp [privateFile])
    rw [removed] at natural
    obtain ⟨_, rfl⟩ := Prod.mk.inj natural
    exact .inl ⟨get, beside.later⟩
  · exact .inr ⟨tmp, data, beside⟩

theorem rename_inPlace (beside : Beside start tmp data w)
    (step : sem env tid (.rename tmp path) w reply w') :
    reply = .ok () ∧ InPlace start path data w' ∨
      (∃ kind, reply = .error kind) ∧ w' = w ∧ (env.faults = true ∨ ¬ Clear path start) := by
  obtain natural | ⟨faults, rfl, e, failure⟩ := sem_natural (fun _ => rfl) step
  · obtain ⟨fs, renamed, get⟩ | ⟨⟨kind, failed⟩, reason⟩ :=
      w.fs.rename_fresh beside.named beside.get beside.absent rfl path
    · rw [renamed] at natural
      obtain ⟨replied, rfl⟩ := Prod.mk.inj natural
      exact .inl ⟨replied, get, beside.later⟩
    · rw [failed] at natural
      obtain ⟨replied, world⟩ := Prod.mk.inj natural
      refine .inr ⟨⟨kind, replied⟩, world, .inr fun clear => ?_⟩
      obtain empty | orphan | ⟨old, found, directory⟩ := reason
      · exact clear.named empty
      · rw [(beside.parent clear.parent).isDir] at orphan
        cases orphan
      · exact clear.target old found directory
  · exact .inr ⟨ioFailure_eq failure, rfl, .inl faults⟩

end

/-! The programs, where `excuse` is what it takes for one to fail. -/

section
variable {env : Env} {tid : Tid} {path : Path} {start : World} {excuse : Prop} {α : Type}

/-- A thread that runs by itself while its calls may fail part-way. -/
abbrev Torn (env : Env) (tid : Tid) : Protocol Calls World :=
  .alone (lossy env tid).sem fun _ => True

variable {held : World → Prop} {post : Except LithiumError α → World → Prop}

theorem tearing (op : Op) {next : Reply op → Prog α} (middle : Reply op → World → Prop)
    (step : ∀ {w reply w'}, held w → (lossy env tid).sem op w reply w' → middle reply w')
    (rest : ∀ reply, Triple (Torn env tid) (middle reply) (next reply) post) :
    Triple (Torn env tid) held ((call op).bind next) post := Triple.alone_call middle step rest

theorem peeking (op : Op) {next : Reply op → Prog α} (looks : observes op = true)
    (rest : ∀ reply, Triple (Torn env tid) (fun w => held w ∧ sem env tid op w reply w)
      (next reply) post) :
    Triple (Torn env tid) held ((call op).bind next) post := by
  apply tearing op _ ?_ rest
  intro w reply w' here step
  have whole : ∀ path data, op ≠ .writeAll path data := by
    rintro _ _ rfl
    cases looks
  have seen := sem_of_lossy whole step
  cases observes_same looks seen
  exact ⟨here, seen⟩

/-- Entries that are there stay while directories are made. -/
theorem makesDirs_kept {op : Op} {w w' : World} {reply : Reply op} (makes : makesDirs op = true)
    {found : Option Node} (kept : Standing path found w) (step : (lossy env tid).sem op w reply w') :
    Standing path found w' := by
  have whole : ∀ path data, op ≠ .writeAll path data := by
    rintro _ _ rfl
    cases makes
  have done := sem_of_lossy whole step
  cases op with
  | mkdir dir =>
    intro node there
    have present := kept node there
    obtain natural | ⟨_, rfl, _⟩ := sem_natural (fun _ => rfl) done
    · cases dir with
      | nil =>
        obtain ⟨_, rfl⟩ := Prod.mk.inj natural
        exact present
      | cons name parent =>
        obtain ⟨absent, _, fs, made, _, get⟩ | ⟨_, failed⟩ | ⟨_, failed⟩ :=
          w.fs.create_spec ⟨.directory, 0o700, []⟩ name parent
        · rw [FileSystem.mkdir, made] at natural
          obtain ⟨_, rfl⟩ := Prod.mk.inj natural
          have apart : path ≠ name :: parent := by
            rintro rfl
            rw [absent] at present
            cases present
          exact (congrFun get path).trans ((Function.update_of_ne apart _ _).trans present)
        all_goals
          rw [FileSystem.mkdir, failed] at natural
          obtain ⟨_, rfl⟩ := Prod.mk.inj natural
          exact present
    · exact present
  | symlinkMetadata | stat =>
    cases observes_same rfl done
    exact kept
  | _ => cases makes

theorem ensureParent_standing (path : Path) (found : Option Node) :
    Triple (Torn env tid) (Standing path found) (ensureParent path)
      fun _ w => Standing path found w := by
  have kept : Triple (.alone (lossy env tid).sem (Standing path found)) (Standing path found)
      (ensureParent path) fun _ w => Standing path found w := fun w here =>
    Meets.invariant (ensureParent_makesDirs path) (fun _ _ _ _ makes kept step => makesDirs_kept makes kept step) here
  exact kept.within (fun _ here => here) fun _ _ => trivial

/-- A directory that is there and private is all that is asked for. -/
theorem ensureParent_clear (faultless : env.faults = false) (clear : Clear path start) :
    Triple (Torn env tid) (fun w => w = start) (ensureParent path)
      fun result w => result = .ok () ∧ w = start := by
  obtain ⟨name, dir, rfl⟩ := List.exists_cons_of_ne_nil clear.named
  obtain ⟨node, found, directory, mode⟩ := clear.parent
  have looked : start.fs.symlinkMetadata dir = .ok node.metadata := by
    rw [FileSystem.symlinkMetadata, show start.fs.get dir = some node from found]
  apply peeking (.symlinkMetadata dir) rfl
  rintro reply w ⟨rfl, seen⟩
  obtain natural | ⟨faults, _⟩ := sem_natural (fun _ => rfl) seen
  · obtain ⟨replied, _⟩ := Prod.mk.inj natural
    rw [looked] at replied
    subst replied
    simp only [Node.metadata, directory, mode, ne_eq, not_true_eq_false, if_false]
    exact ⟨rfl, rfl⟩
  · rw [faultless] at faults
    cases faults

/-- Where temp names are clear of what is there, a stamp names nothing that was there. -/
theorem tmpStamp_free (clear : ¬ excuse → Clear path start) (suffix : Fixed 8)
    (same : SameFiles start w) {stamp : Nat × Nat}
    (step : (lossy env tid).sem .tmpStamp w stamp w') :
    SameFiles start w' ∧
      (excuse ∨ start.fs.get (withExtension path (.tmp stamp.1 stamp.2 suffix)) = none) := by
  obtain natural | ⟨faults, _, e, failure⟩ :=
    sem_natural (fun _ => rfl) (sem_of_lossy (by simp) step)
  · obtain ⟨rfl, rfl⟩ := Prod.mk.inj natural
    have later : Later start { w with stamps := w.stamps ++ [tid] } :=
      ⟨same.2.1, same.2.2.trans (by simp)⟩
    refine ⟨⟨same.1, later⟩, ?_⟩
    by_cases excused : excuse
    · exact .inl excused
    · have clear := clear excused
      obtain ⟨name, dir, rfl⟩ := List.exists_cons_of_ne_nil clear.named
      refine .inr ?_
      by_contra present
      have old := clear.names _ w.stamps.length (by rw [← same.2.1]; rfl)
        (Option.isSome_iff_ne_none.mpr present)
      have := same.2.2
      omega
  · cases failure

/-- Nothing but a fault is in the way of a temp file with a free name. -/
theorem createTmp_beside (calm : ¬ excuse → env.faults = false ∧ Clear path start)
    {extension : Extension} (same : SameFiles start w)
    (free : excuse ∨ start.fs.get (withExtension path extension) = none) {reply : Io Unit}
    (step : (lossy env tid).sem (.createNew (withExtension path extension)) w reply w') :
    reply = .ok () ∧ Beside start (withExtension path extension) [] w' ∨
      (∃ kind, reply = .error kind) ∧ SameFiles start w' ∧ excuse := by
  obtain ⟨rfl, made⟩ | ⟨failed, rfl, reason⟩ :=
    createNew_beside same (sem_of_lossy (by simp) step)
  · exact .inl ⟨rfl, made⟩
  · refine .inr ⟨failed, same, ?_⟩
    by_contra none
    obtain ⟨faultless, clear⟩ := calm none
    obtain faults | present | orphan := reason
    · exact none (excused_of_faults (fun none => (calm none).1) faults)
    · exact present (free.resolve_left none)
    · rw [tail_withExtension] at orphan
      exact orphan clear.parent

/-- A temp file is made, unless something excuses the failure. -/
theorem createPrivateTmpWithin_beside
    (calm : ¬ excuse → env.faults = false ∧ Clear path start) (tries : Nat) :
    Triple (Torn env tid) (fun w => SameFiles start w ∧ (tries = 0 → excuse))
      (createPrivateTmpWithin path tries) fun result w => match result with
        | .ok tmp => Beside start tmp [] w
        | .error _ => SameFiles start w ∧ excuse := by
  induction tries with
  | zero => exact Triple.done fun w here => ⟨here.1, here.2 rfl⟩
  | succ tries ih =>
    apply peeking (.random .suffix) rfl
    intro suffix
    cases suffix with
    | none =>
      rintro w ⟨⟨same, _⟩, drawn⟩
      exact ⟨same, excused_of_faults (fun none => (calm none).1) (faults_of_undrawn drawn)⟩
    | some suffix =>
      apply tearing .tmpStamp fun (stamp : Nat × Nat) w => SameFiles start w ∧
        (excuse ∨ start.fs.get (withExtension path (.tmp stamp.1 stamp.2 suffix)) = none)
      · rintro w stamp w' ⟨⟨same, _⟩, _⟩ step
        exact tmpStamp_free (fun none => (calm none).2) suffix same step
      · rintro ⟨pid, seq⟩
        apply tearing (.createNew (withExtension path (.tmp pid seq suffix)))
          fun (reply : Io Unit) w => match reply with
            | .ok _ => Beside start (withExtension path (.tmp pid seq suffix)) [] w
            | .error _ => SameFiles start w ∧ excuse
        · rintro w reply w' ⟨same, free⟩ step
          obtain ⟨rfl, made⟩ | ⟨⟨kind, rfl⟩, kept⟩ := createTmp_beside calm same free step
          · exact made
          · exact kept
        · intro reply
          match reply with
          | .ok () => exact Triple.done fun w here => here
          | .error .alreadyExists =>
            exact ih.mono (fun w here => ⟨here.1, fun _ => here.2⟩) fun _ _ ended => ended
          | .error .notFound | .error .permissionDenied | .error .notADirectory
          | .error .isADirectory | .error .storageFull | .error .other =>
            exact Triple.done fun w here => here

theorem writeTmp_beside (tmp : Path) (data : Bytes) (excused : env.faults = true → excuse) :
    Triple (Torn env tid) (Beside start tmp []) (writeTmp tmp data)
      fun result w => match result with
        | .ok _ => Beside start tmp data w
        | .error _ => Leftover start w ∧ excuse := by
  have body : Triple (Torn env tid) (Beside start tmp [])
      ((call (.writeAll tmp data)).bind fun reply => (io reply).bind fun _ =>
        (call (.syncFile tmp)).bind fun reply => io reply)
      fun result w => match result with
        | .ok _ => Beside start tmp data w
        | .error _ => (∃ part, Beside start tmp part w) ∧ excuse := by
    apply tearing (.writeAll tmp data) fun (reply : Io Unit) w => match reply with
      | .ok _ => Beside start tmp data w
      | .error _ => (∃ part, Beside start tmp part w) ∧ excuse
    · intro w reply w' beside step
      obtain ⟨rfl, wrote⟩ | ⟨faults, ⟨kind, rfl⟩, torn⟩ := writeAll_beside beside step
      · exact wrote
      · exact ⟨torn, excused faults⟩
    · intro reply
      match reply with
      | .error kind => exact Triple.done fun w here => here
      | .ok () =>
        apply peeking (.syncFile tmp) rfl
        rintro reply w ⟨beside, seen⟩
        obtain natural | ⟨faults, _, e, failure⟩ := sem_natural (fun _ => rfl) seen
        · cases natural
          exact beside
        · obtain ⟨kind, rfl⟩ := ioFailure_eq failure
          exact ⟨⟨data, beside⟩, excused faults⟩
  apply Triple.attempt_bind body
  intro result
  match result with
  | .ok () => exact Triple.done fun w here => here
  | .error e =>
    apply tearing (.removeFile tmp) fun _ w => Leftover start w ∧ excuse
    · rintro w reply w' ⟨⟨part, beside⟩, why⟩ step
      exact ⟨removeFile_leftover beside (sem_of_lossy (by simp) step), why⟩
    · intro reply
      exact Triple.done fun w here => here

theorem trySyncParent_inPlace (data : Bytes) :
    Triple (Torn env tid) (InPlace start path data) (trySyncParent path)
      fun result w => result = .ok () ∧ InPlace start path data w := by
  cases path with
  | nil => exact Triple.done fun w here => ⟨rfl, here⟩
  | cons name dir =>
    apply tearing (.syncDir dir) fun _ w => InPlace start (name :: dir) data w
    · rintro w reply w' ⟨get, later⟩ step
      obtain ⟨quiet, same, _⟩ := sem_syncDir (sem_of_lossy (by simp) step)
      exact ⟨same.trans get, later.step quiet⟩
    · intro reply
      exact Triple.done fun w here => ⟨rfl, here⟩

/-- The file is put in place, or what was there stays. -/
theorem writeSecure_inPlace (path : Path) (data : Bytes)
    (calm : ¬ excuse → env.faults = false ∧ Clear path start) :
    Triple (Torn env tid) (fun w => w = start) (writeSecure path data)
      fun result w => match result with
        | .ok _ => w.fs.get path = some (privateFile data) ∧ (excuse ∨ Clear path w)
        | .error _ => Standing path (start.fs.get path) w ∧ excuse := by
  have excused : env.faults = true → excuse := excused_of_faults fun none => (calm none).1
  have parent : Triple (Torn env tid) (fun w => w = start) (ensureParent path) fun result w =>
      Standing path (start.fs.get path) w ∧ (excuse ∨ result = .ok () ∧ Clear path w) := by
    by_cases why : excuse
    · exact (ensureParent_standing path _).mono (fun w same node found => same ▸ found)
        fun _ _ kept => ⟨kept, .inl why⟩
    · obtain ⟨faultless, clear⟩ := calm why
      refine (ensureParent_clear faultless clear).weaken ?_
      rintro _ _ ⟨rfl, rfl⟩
      exact ⟨fun node found => found, .inr ⟨rfl, clear⟩⟩
  refine Triple.bind parent (fun _ now ⟨kept, made⟩ => ?_) ?_
  · -- from here on only the temp file and the target change
    have made := made.imp_right And.right
    have calm : ¬ excuse → env.faults = false ∧ Clear path now := fun none =>
      ⟨(calm none).1, made.resolve_left none⟩
    have left : ∀ {w}, Leftover now w ∧ excuse → Standing path (start.fs.get path) w ∧ excuse :=
      fun ended => ⟨ended.1.standing kept, ended.2⟩
    refine Triple.bind (createPrivateTmpWithin_beside calm 8) (fun tmp => ?_)
      (fun e w ended => left ⟨.inl ended.1, ended.2⟩) now ⟨⟨rfl, .refl now⟩, by simp⟩
    refine Triple.bind (writeTmp_beside tmp data excused) (fun _ => ?_) fun e w ended => left ended
    apply tearing (.rename tmp path) fun (reply : Io Unit) w => match reply with
      | .ok _ => InPlace now path data w
      | .error _ => Standing path (start.fs.get path) w ∧ excuse
    · intro w reply w' beside step
      obtain ⟨rfl, placed⟩ | ⟨⟨kind, rfl⟩, rfl, reason⟩ :=
        rename_inPlace beside (sem_of_lossy (by simp) step)
      · exact placed
      · refine left ⟨.inr ⟨tmp, data, beside⟩, ?_⟩
        by_contra none
        obtain faults | obstructed := reason
        · exact none (excused faults)
        · exact obstructed (calm none).2
    · intro reply
      match reply with
      | .ok () =>
        refine (trySyncParent_inPlace data).weaken ?_
        rintro _ w ⟨rfl, placed⟩
        exact ⟨by rw [placed.1, Function.update_self], made.imp_right placed.clear⟩
      | .error kind => exact Triple.done fun w here => here
  · rintro e w ⟨kept, why | ⟨failed, _⟩⟩
    · exact ⟨kept, why⟩
    · cases failed

/-! Sealing and rewrapping. -/

variable (X : Crypto)

theorem reading {program : Prog α} {w : World}
    (calls : program.Calls fun op : Op => reads op = true)
    (meets : Meets (Free env tid) post program w) : Meets (Torn env tid) post program w := by
  refine Meets.calling calls (fun {op w reply w'} looks step => ?_) meets
  refine sem_of_lossy ?_ step
  rintro _ _ rfl
  cases looks

theorem saveBytesEncrypted_inPlace (path : Path) (mk : Key) (payload : Bytes) (keyType : String)
    (calm : ¬ excuse → env.faults = false ∧ Clear path start) :
    Triple (Torn env tid) (fun w => w = start) (saveBytesEncrypted X path mk payload keyType)
      fun result w => match result with
        | .ok _ => (∃ draws data, sealRecord X mk payload keyType draws = .ok data ∧
            w.fs.get path = some (privateFile data)) ∧ (excuse ∨ Clear path w)
        | .error _ => excuse ∨ ∃ draws e, sealRecord X mk payload keyType draws = .error e := by
  have still : Still (Free env tid) fun w => w = start := still_solo
  have encoded : Triple (Torn env tid) (fun w => w = start) (encodeEncrypted X mk payload keyType)
      fun result w => w = start ∧ ∃ draws, Answers env (sealRecord X mk payload keyType draws) result :=
    fun w same => reading (encodeEncrypted_reads X mk payload keyType)
      (encodeEncrypted_spec X (party_solo env tid _) still mk payload keyType w same)
  refine Triple.bind encoded (fun data w ⟨same, draws, answers⟩ => ?_) ?_
  · refine ((writeSecure_inPlace path data calm).weaken fun result w ended => ?_) w same
    cases result with
    | ok _ => exact ⟨⟨draws, data, answers.ok, ended.1⟩, ended.2⟩
    | error e => exact .inl ended.2
  · rintro e w ⟨_, draws, failed | ⟨faults, _⟩⟩
    · exact .inr ⟨draws, e, failed.symm⟩
    · exact .inl (excused_of_faults (fun none => (calm none).1) faults)

/-- A keyfile is replaced by the record that was rewrapped from it, or it stays. -/
theorem rewrapKeyfileDek_inPlace (path : Path) (oldMk newMk : Key) (keyType : String)
    (calm : ¬ excuse → env.faults = false ∧ Clear path start) :
    Triple (Torn env tid) (fun w => w = start) (rewrapKeyfileDek X path oldMk newMk keyType)
      fun result w => match result with
        | .ok _ => (∃ salt nonce out,
            rewrapNode X (start.fs.get path) oldMk newMk keyType salt nonce = .ok out ∧
            w.fs.get path = some (privateFile out)) ∧ (excuse ∨ Clear path w)
        | .error _ => Standing path (start.fs.get path) w ∧ (excuse ∨ ∃ salt nonce e,
            rewrapNode X (start.fs.get path) oldMk newMk keyType salt nonce = .error e) := by
  have still : Still (Free env tid) fun w => w = start := still_solo
  have rewrapped : Triple (Torn env tid) (fun w => w = start)
      (rewrapKeyfileDekToBytes X path oldMk newMk keyType) fun result w => w = start ∧
        ∃ w₀ salt nonce, w₀ = start ∧
          Answers env (rewrapNode X (w₀.fs.get path) oldMk newMk keyType salt nonce) result :=
    fun w same => reading (rewrapKeyfileDekToBytes_reads X path oldMk newMk keyType)
      (rewrapKeyfileDekToBytes_spec X (party_solo env tid _) still path oldMk newMk keyType w same)
  refine Triple.bind rewrapped ?_ ?_
  · rintro out w ⟨same, _, salt, nonce, rfl, answers⟩
    refine ((writeSecure_inPlace path out calm).weaken fun result w ended => ?_) w same
    cases result with
    | ok _ => exact ⟨⟨salt, nonce, out, answers.ok, ended.1⟩, ended.2⟩
    | error e => exact ⟨ended.1, .inl ended.2⟩
  · rintro e w ⟨rfl, _, salt, nonce, rfl, failed | ⟨faults, _⟩⟩
    · exact ⟨fun node found => found, .inr ⟨salt, nonce, e, failed.symm⟩⟩
    · exact ⟨fun node found => found, .inl (excused_of_faults (fun none => (calm none).1) faults)⟩

end

/-! Chains of rewrappings. -/

/-- The file at `path` holds the record `r`. -/
def FileHolds (path : Path) (r : Record) (w : World) : Prop :=
  w.fs.get path = some (privateFile (buildRecord r)) ∧ parseKeyfile (buildRecord r) = .ok r

/-- The keyfile under `mk` is the one that was sealed first, but for the wrap of its key. -/
structure Carries (X : Crypto) (path : Path) (keyType : String) (payload : Bytes) (first : Record)
    (mk : Key) (r : Record) (w : World) : Prop where
  file : FileHolds path r w
  fields : SamePayload r first
  size : (buildRecord r).length = payload.length + 140
  opened : openRecord X (buildRecord r) mk keyType = .ok payload
  version : r.version = keyfileVersion
  wrapped : ∃ dek, X.encryptRaw (deriveKek X mk r.salt) r.nonceWrap
    (aadFor keyfileVersion keyType) dek = some r.ctWrap

/-- A call of `rewrap_keyfile_dek` on a keyfile under the master key of the state: the right
one that succeeds, or any one that fails. -/
inductive RewrapCall (X : Crypto) (path : Path) (keyType : String) : Key × World → Key × World → Prop
  | done {env tid mk newMk w w'} :
      Returns (lossy env tid).sem (rewrapKeyfileDek X path mk newMk keyType) w (.ok ()) w' →
      RewrapCall X path keyType (mk, w) (newMk, w')
  | failed {env tid mk oldMk newMk keyType' e w w'} :
      Returns (lossy env tid).sem (rewrapKeyfileDek X path oldMk newMk keyType') w (.error e) w' →
      RewrapCall X path keyType (mk, w) (mk, w')

/-- `rewrap_keyfile_dek` from one master key to the next. -/
def rewrapChain (X : Crypto) (path : Path) (keyType : String) : Key → List Key → Prog Unit
  | _, [] => return ()
  | mk, next :: mks => do
    rewrapKeyfileDek X path mk next keyType
    rewrapChain X path keyType next mks

/-- What is assumed of the primitives about the record `r`: two master keys derive two keys from
its salt, and a wrap made under one key and AAD is refused under another key or AAD. -/
structure ToldApart (X : Crypto) (r : Record) (mk : Key) (keyType : String) (other : Key)
    (otherType : String) : Prop where
  derived : other ≠ mk → deriveKek X other r.salt ≠ deriveKek X mk r.salt
  refused : ∀ dek, X.encryptRaw (deriveKek X mk r.salt) r.nonceWrap (aadFor keyfileVersion keyType)
      dek = some r.ctWrap →
    (deriveKek X other r.salt, aadFor keyfileVersion otherType) ≠
      (deriveKek X mk r.salt, aadFor keyfileVersion keyType) →
    X.decryptRaw (deriveKek X other r.salt) r.nonceWrap (aadFor keyfileVersion otherType) r.ctWrap =
      none

section
variable {X : Crypto} {path : Path} {keyType : String} {payload : Bytes} {first r : Record}
  {mk mk' : Key} {env : Env} {tid : Tid} {w w' : World}

theorem Carries.sealed (lawful : X.Lawful) {draws : SealDraws} {data : Bytes}
    (fits : payload.length + 140 ≤ maxKeyfileSize)
    (sealed : sealRecord X mk payload keyType draws = .ok data)
    (file : w.fs.get path = some (privateFile data)) :
    ∃ first, Carries X path keyType payload first mk first w := by
  have limit : maxKeyfileSize = 65536 := rfl
  obtain ⟨ctWrap, ctPayload, wrapped, encrypted, rfl⟩ := sealRecord_ok sealed
  refine ⟨_, ⟨file, parseKeyfile_build ?_ ?_⟩, ⟨rfl, rfl⟩, sealRecord_length lawful sealed,
    openRecord_seal lawful sealed (by omega), rfl, _, wrapped⟩
  · rw [lawful.length_encrypt wrapped, draws.dek.2]
    rfl
  · rw [lawful.length_encrypt encrypted]
    omega

/-- Rewrapping the record of a keyfile. -/
theorem Carries.rewrapNode_eq (carries : Carries X path keyType payload first mk r w)
    (fits : payload.length + 140 ≤ maxKeyfileSize) (oldMk newMk : Key) (keyType' : String)
    (salt : Fixed 32) (nonce : Nonce) :
    rewrapNode X (w.fs.get path) oldMk newMk keyType' salt nonce =
      rewrapRecord X (buildRecord r) oldMk newMk keyType' salt nonce := by
  rw [carries.file.1, rewrapNode, readNode_private (by rw [carries.size]; exact fits), Except.bind]

/-- A rewrapping that is through has put the rewrapped record into the place of the old one. -/
theorem Carries.written (fits : payload.length + 140 ≤ maxKeyfileSize)
    (carries : Carries X path keyType payload first mk r w) {oldMk newMk : Key} {keyType' : String}
    (returned : Returns (lossy env tid).sem (rewrapKeyfileDek X path oldMk newMk keyType') w
      (.ok ()) w') :
    ∃ salt nonce out,
      rewrapRecord X (buildRecord r) oldMk newMk keyType' salt nonce = .ok out ∧
      w'.fs.get path = some (privateFile out) := by
  obtain ⟨⟨salt, nonce, out, rewrapped, file⟩, _⟩ :=
    (rewrapKeyfileDek_inPlace X path oldMk newMk keyType' excused w rfl).returns trivial returned
  rw [carries.rewrapNode_eq fits] at rewrapped
  exact ⟨salt, nonce, out, rewrapped, file⟩

/-- A rewrapping that is through has changed nothing but the wrap. -/
theorem Carries.rewrapped (lawful : X.Lawful) (fits : payload.length + 140 ≤ maxKeyfileSize)
    (carries : Carries X path keyType payload first mk r w)
    (returned : Returns (lossy env tid).sem (rewrapKeyfileDek X path mk mk' keyType) w (.ok ()) w') :
    ∃ r', Carries X path keyType payload first mk' r' w' := by
  obtain ⟨salt, nonce, out, rewrapped, file⟩ := carries.written fits returned
  obtain ⟨opened, size⟩ := openRecord_rewrap lawful carries.opened rewrapped
  obtain ⟨found, dek, ctWrap, unwrapped, wrapped, rfl⟩ := rewrapRecord_ok rewrapped
  obtain ⟨parsed, _⟩ := unwrapRecord_ok_iff.mp unwrapped
  cases parsed.symm.trans carries.file.2
  refine ⟨_, ⟨file, parseKeyfile_build ?_ (parseKeyfile_ok parsed).2.2⟩, carries.fields,
    size.trans carries.size, opened, carries.version, dek.1, ?_⟩
  · rw [lawful.length_encrypt wrapped, dek.2]
    rfl
  · rw [← carries.version]
    exact wrapped

theorem Carries.unchanged (carries : Carries X path keyType payload first mk r w) {oldMk newMk : Key}
    {keyType' : String} {e : LithiumError}
    (returned : Returns (lossy env tid).sem (rewrapKeyfileDek X path oldMk newMk keyType') w
      (.error e) w') : w'.fs.get path = w.fs.get path := by
  obtain ⟨standing, _⟩ :=
    (rewrapKeyfileDek_inPlace X path oldMk newMk keyType' excused w rfl).returns trivial returned
  rw [standing _ carries.file.1, carries.file.1]

theorem Carries.call (lawful : X.Lawful) (fits : payload.length + 140 ≤ maxKeyfileSize)
    {state next : Key × World} (carries : Carries X path keyType payload first state.1 r state.2)
    (step : RewrapCall X path keyType state next) :
    ∃ r', Carries X path keyType payload first next.1 r' next.2 := by
  cases step with
  | done returned => exact carries.rewrapped lawful fits returned
  | failed returned =>
    exact ⟨r, ⟨(carries.unchanged returned).trans carries.file.1, carries.file.2⟩, carries.fields,
      carries.size, carries.opened, carries.version, carries.wrapped⟩

theorem Carries.chain (lawful : X.Lawful) (fits : payload.length + 140 ≤ maxKeyfileSize)
    {state last : Key × World} (carries : Carries X path keyType payload first state.1 r state.2)
    (chain : Relation.ReflTransGen (RewrapCall X path keyType) state last) :
    ∃ r', Carries X path keyType payload first last.1 r' last.2 := by
  induction chain with
  | refl => exact ⟨r, carries⟩
  | tail _ step ih =>
    obtain ⟨_, carries⟩ := ih
    exact carries.call lawful fits step

/-- A wrong master key or key type does not unwrap the data key. -/
theorem Carries.not_unwrapped (carries : Carries X path keyType payload first mk r w)
    {oldMk newMk : Key} {otherType : String} {salt : Fixed 32} {nonce : Nonce}
    (wrong : oldMk ≠ mk ∨ otherType ≠ keyType) (apart : ToldApart X r mk keyType oldMk otherType)
    (out : Bytes) : rewrapRecord X (buildRecord r) oldMk newMk otherType salt nonce ≠ .ok out := by
  intro rewrapped
  obtain ⟨_, _, _, unwrapped, _⟩ := rewrapRecord_ok rewrapped
  obtain ⟨parsed, _, opened⟩ := unwrapRecord_ok_iff.mp unwrapped
  cases parsed.symm.trans carries.file.2
  have differs : (deriveKek X oldMk r.salt, aadFor keyfileVersion otherType) ≠
      (deriveKek X mk r.salt, aadFor keyfileVersion keyType) := by
    intro same
    obtain ⟨key, aad⟩ := Prod.mk.inj same
    obtain other | other := wrong
    · exact apart.derived other key
    · exact other (aadFor_injective aad)
  obtain ⟨dek, wrapped⟩ := carries.wrapped
  rw [unwrapDek_ok_iff, carries.version, apart.refused dek wrapped differs] at opened
  cases opened

theorem rewrapChain_calls (X : Crypto) (path : Path) (keyType : String) (mk : Key) (mks : List Key) :
    (rewrapChain X path keyType mk mks).Calls fun op : Op => waits op = false := by
  induction mks generalizing mk with
  | nil => trivial
  | cons next mks ih =>
    exact .bind (rewrapKeyfileDek_calls waits_of_special X path rfl mk next keyType) fun _ => ih next

/-- Such a call is refused, whatever else fails. -/
theorem Carries.refused (fits : payload.length + 140 ≤ maxKeyfileSize)
    (carries : Carries X path keyType payload first mk r w) {oldMk newMk : Key} {otherType : String}
    (wrong : oldMk ≠ mk ∨ otherType ≠ keyType) (apart : ToldApart X r mk keyType oldMk otherType) :
    Delivers (lossy env tid).sem (rewrapKeyfileDek X path oldMk newMk otherType) w
      fun result w' => (∃ e, result = .error e) ∧ w'.fs.get path = w.fs.get path := by
  have calls := rewrapKeyfileDek_calls waits_of_special X path rfl oldMk newMk otherType
  refine ⟨exists_returns w calls fun op w free => ?_, fun result w' returned => ?_⟩
  · obtain ⟨reply, w', step⟩ := sem_serial tid op w (.inl free)
    exact ⟨reply, w', lossy_of_sem step⟩
  · cases result with
    | error e => exact ⟨⟨e, rfl⟩, carries.unchanged returned⟩
    | ok _ =>
      obtain ⟨salt, nonce, out, rewrapped, _⟩ := carries.written fits returned
      exact absurd rewrapped (carries.not_unwrapped wrong apart out)

theorem Carries.loads (fits : payload.length + 140 ≤ maxKeyfileSize)
    (carries : Carries X path keyType payload first mk r w) (faultless : env.faults = false) :
    Delivers (sem env tid) (loadBytesDecrypted X path mk keyType) w
      fun result _ => result = .ok payload := by
  have loads : loadNode X (w.fs.get path) mk keyType = .ok payload := by
    rw [carries.file.1, loadNode_private (by rw [carries.size]; exact fits), carries.opened]
  exact (loads_delivered loads faultless tid).1

/-! Where nothing fails. -/

theorem lossy_returns {α : Type} {program : Prog α} {result : Except LithiumError α}
    (returned : Returns (sem env tid) program w result w') :
    Returns (lossy env tid).sem program w result w' := returned.among lossy_of_sem

/-- The cipher takes the associated data of a key type. -/
theorem sealRecord_isOk_iff (lawful : X.Lawful) (fits : payload.length + 140 ≤ maxKeyfileSize)
    (draws : SealDraws) : (∃ data, sealRecord X mk payload keyType draws = .ok data) ↔
      (aadFor keyfileVersion keyType).length ≤ Crypto.limit := by
  constructor
  · rintro ⟨data, sealed⟩
    obtain ⟨_, _, wrapped, _⟩ := sealRecord_ok sealed
    exact lawful.decrypt_within (lawful.decrypt_encrypt wrapped)
  · intro within
    refine sealRecord_within lawful draws within (le_trans ?_ (show maxKeyfileSize ≤ Crypto.limit by decide))
    omega

/-- Sealing goes through for every key type that the cipher takes. -/
theorem saveBytesEncrypted_delivers (lawful : X.Lawful)
    (fits : payload.length + 140 ≤ maxKeyfileSize) (faultless : env.faults = false)
    (clear : Clear path w) :
    Delivers (sem env tid) (saveBytesEncrypted X path mk payload keyType) w fun result w' =>
      (result = .ok () ↔ (aadFor keyfileVersion keyType).length ≤ Crypto.limit) ∧
        (result = .ok () → Clear path w') := by
  refine ⟨calls_return tid w (saveBytesEncrypted_calls waits_of_special X path rfl mk payload keyType),
    fun result w' returned => ?_⟩
  have ended := (saveBytesEncrypted_inPlace X path mk payload keyType
    (fun _ : ¬ False => ⟨faultless, clear⟩) w rfl).returns trivial (lossy_returns returned)
  cases result with
  | ok _ =>
    obtain ⟨⟨draws, data, sealed, _⟩, after⟩ := ended
    have within := (sealRecord_isOk_iff lawful fits draws).mp ⟨data, sealed⟩
    exact ⟨⟨fun _ => within, fun _ => rfl⟩, fun _ => after.resolve_left id⟩
  | error e =>
    obtain ⟨draws, e, failed⟩ := ended.resolve_left id
    refine ⟨⟨by simp, fun within => ?_⟩, by simp⟩
    obtain ⟨data, sealed⟩ := (sealRecord_isOk_iff lawful fits draws).mpr within
    rw [sealed] at failed
    cases failed

theorem Carries.rewraps (lawful : X.Lawful) (fits : payload.length + 140 ≤ maxKeyfileSize)
    (carries : Carries X path keyType payload first mk r w) (faultless : env.faults = false)
    (clear : Clear path w) {result : Except LithiumError Unit}
    (returned : Returns (sem env tid) (rewrapKeyfileDek X path mk mk' keyType) w result w') :
    result = .ok () ∧ Clear path w' := by
  have ended := (rewrapKeyfileDek_inPlace X path mk mk' keyType
    (fun _ : ¬ False => ⟨faultless, clear⟩) w rfl).returns trivial (lossy_returns returned)
  cases result with
  | ok _ => exact ⟨rfl, ended.2.resolve_left id⟩
  | error e =>
    obtain ⟨salt, nonce, e, failed⟩ := ended.2.resolve_left id
    obtain ⟨out, rewrapped⟩ := rewrapRecord_within lawful salt nonce carries.opened
    rw [carries.rewrapNode_eq fits, rewrapped] at failed
    cases failed

theorem Carries.chain_delivers (lawful : X.Lawful) (fits : payload.length + 140 ≤ maxKeyfileSize)
    (carries : Carries X path keyType payload first mk r w) (faultless : env.faults = false)
    (clear : Clear path w) (mks : List Key) :
    Delivers (sem env tid) (rewrapChain X path keyType mk mks) w fun result w' =>
      result = .ok () ∧ Relation.ReflTransGen (RewrapCall X path keyType) (mk, w)
        (mks.getLastD mk, w') := by
  refine ⟨calls_return tid w (rewrapChain_calls X path keyType mk mks), fun result w' returned => ?_⟩
  induction mks generalizing mk r w with
  | nil =>
    obtain ⟨ops, path⟩ := returned
    cases path
    exact ⟨rfl, .refl⟩
  | cons next mks ih =>
    obtain ⟨_, w₁, first, rest⟩ | ⟨e, _, failed⟩ := Returns.of_bind returned
    · obtain ⟨_, after⟩ := carries.rewraps lawful fits faultless clear first
      obtain ⟨_, moved⟩ := carries.rewrapped lawful fits (lossy_returns first)
      obtain ⟨done, chain⟩ := ih moved after rest
      refine ⟨done, .head (.done (lossy_returns first)) ?_⟩
      rw [List.getLastD_cons]
      exact chain
    · cases (carries.rewraps lawful fits faultless clear failed).1

end

/-- Whatever calls of `rewrap_keyfile_dek` follow the sealing of a payload, the keyfile loads to
it under the master key of the last one that succeeded, with the payload fields and the size of
the first record; a call with another master key or key type fails, and one that fails leaves
the keyfile as it was. Where no call of the system fails the whole chain goes through. -/
theorem rewrapping_preserves_payload {X : Crypto} (lawful : X.Lawful) (path : Path)
    (keyType : String) (mk₀ : Key) {payload : Bytes}
    (fits : payload.length + 140 ≤ maxKeyfileSize) :
    (∀ env tid start w₁,
      Returns (lossy env tid).sem (saveBytesEncrypted X path mk₀ payload keyType) start (.ok ()) w₁ →
      ∃ first, FileHolds path first w₁ ∧ ∀ mk w,
        Relation.ReflTransGen (RewrapCall X path keyType) (mk₀, w₁) (mk, w) →
        ∃ r, FileHolds path r w ∧ SamePayload r first ∧
          (buildRecord r).length = (buildRecord first).length ∧
          (∀ quiet tid, quiet.faults = false →
            Delivers (sem quiet tid) (loadBytesDecrypted X path mk keyType) w
              fun result _ => result = .ok payload) ∧
          (∀ env tid oldMk newMk otherType, oldMk ≠ mk ∨ otherType ≠ keyType →
            ToldApart X r mk keyType oldMk otherType →
            Delivers (lossy env tid).sem (rewrapKeyfileDek X path oldMk newMk otherType) w
              fun result w' => (∃ e, result = .error e) ∧ w'.fs.get path = w.fs.get path) ∧
          ∀ env tid oldMk newMk otherType e w',
            Returns (lossy env tid).sem (rewrapKeyfileDek X path oldMk newMk otherType) w (.error e) w' →
            w'.fs.get path = w.fs.get path) ∧
    ∀ env tid start, env.faults = false → Clear path start →
      Delivers (sem env tid) (saveBytesEncrypted X path mk₀ payload keyType) start fun result w₁ =>
        (result = .ok () ↔ (aadFor keyfileVersion keyType).length ≤ Crypto.limit) ∧
        (result = .ok () → ∀ mks,
          Delivers (sem env tid) (rewrapChain X path keyType mk₀ mks) w₁ fun result w =>
            result = .ok () ∧ Relation.ReflTransGen (RewrapCall X path keyType) (mk₀, w₁)
              (mks.getLastD mk₀, w)) := by
  have saved : ∀ {env tid start w₁},
      Returns (lossy env tid).sem (saveBytesEncrypted X path mk₀ payload keyType) start (.ok ()) w₁ →
      ∃ first, Carries X path keyType payload first mk₀ first w₁ := by
    intro env tid start w₁ returned
    obtain ⟨⟨draws, data, sealed, file⟩, _⟩ := (saveBytesEncrypted_inPlace X path mk₀ payload keyType
      excused start rfl).returns trivial returned
    exact Carries.sealed lawful fits sealed file
  constructor
  · intro env tid start w₁ returned
    obtain ⟨first, sealed⟩ := saved returned
    refine ⟨first, sealed.file, fun mk w chain => ?_⟩
    obtain ⟨r, carries⟩ := sealed.chain lawful fits chain
    refine ⟨r, carries.file, carries.fields, carries.size.trans sealed.size.symm, ?_, ?_, ?_⟩
    · intro quiet tid faultless
      exact carries.loads fits faultless
    · intro env tid oldMk newMk otherType wrong apart
      exact carries.refused fits wrong apart
    · intro env tid oldMk newMk otherType e w' failed
      exact carries.unchanged failed
  · intro env tid start faultless clear
    obtain ⟨runs, ends⟩ := saveBytesEncrypted_delivers lawful fits faultless clear
    refine ⟨runs, fun result w₁ returned => ?_⟩
    obtain ⟨taken, after⟩ := ends result w₁ returned
    refine ⟨taken, fun done mks => ?_⟩
    obtain ⟨first, sealed⟩ := saved (lossy_returns (done ▸ returned))
    exact sealed.chain_delivers lawful fits faultless (after done) mks

/-! A chain to evaluate. -/

def shownTag (key : Key) (_ : Nonce) (aad : Bytes) : Bytes :=
  key.1.take 8 ++ (aad.reverse ++ List.replicate 8 0).take 8

def aadTagged : Crypto :=
  { tagged with
    encryptRaw := fun key nonce aad plaintext =>
      if aad.length ≤ Crypto.limit ∧ plaintext.length ≤ Crypto.limit then
        some (plaintext ++ shownTag key nonce aad)
      else none
    decryptRaw := fun key nonce aad ciphertext =>
      if aad.length ≤ Crypto.limit ∧ 16 ≤ ciphertext.length ∧
          ciphertext.drop (ciphertext.length - 16) = shownTag key nonce aad then
        some (ciphertext.take (ciphertext.length - 16))
      else none }

theorem aadTagged_tagging : Tagging aadTagged shownTag :=
  ⟨fun key nonce aad => by simp [shownTag, key.2], fun _ _ _ _ => rfl, fun _ _ _ _ => rfl⟩

theorem aadTagged_toldApart {mk other : Key} {keyType otherType : String} (r : Record)
    (apart : shownTag mk zeroNonce (aadFor keyfileVersion keyType) ≠
      shownTag other zeroNonce (aadFor keyfileVersion otherType)) :
    ToldApart aadTagged r mk keyType other otherType := by
  have kek : ∀ mk : Key, deriveKek aadTagged mk r.salt = mk := fun mk => by
    simp [deriveKek, aadTagged, tagged, mk.2]
  constructor
  · intro differ
    rwa [kek, kek]
  · intro dek encrypted _
    refine aadTagged_tagging.refuses encrypted ?_
    rw [kek, kek]
    exact apart

theorem sampleWorld_clear : Clear edPriv (sampleWorld []) where
  ordinary := rfl
  target := by
    have absent : (sampleWorld []).fs.get edPriv = none := by decide +kernel
    simp [absent]
  parent := privateDir_of_check (by decide +kernel)
  names := by
    intro path seq stamp present
    rw [unclaimed_of_check (by decide +kernel) stamp] at present
    cases present

/-- A payload is sealed and rewrapped twice: it loads under the last master key, and a rewrapping
from the one before or for another key type is refused. -/
theorem rewrapping_preserves_sample :
    ∃ w₁ w r,
      Returns (sem (sampleEnv false) 0)
        (saveBytesEncrypted aadTagged edPriv (uniform 0) [1, 2, 3] ktEdSeed) (sampleWorld [])
        (.ok ()) w₁ ∧
      Returns (sem (sampleEnv false) 0)
        (rewrapChain aadTagged edPriv ktEdSeed (uniform 0) [uniform 1, uniform 2]) w₁ (.ok ()) w ∧
      FileHolds edPriv r w ∧
      Delivers (sem (sampleEnv false) 0) (loadBytesDecrypted aadTagged edPriv (uniform 2) ktEdSeed) w
        (fun result _ => result = .ok [1, 2, 3]) ∧
      Delivers (lossy (sampleEnv true) 0).sem
        (rewrapKeyfileDek aadTagged edPriv (uniform 1) (uniform 3) ktEdSeed) w
        (fun result w' => (∃ e, result = .error e) ∧ w'.fs.get edPriv = w.fs.get edPriv) ∧
      Delivers (lossy (sampleEnv true) 0).sem
        (rewrapKeyfileDek aadTagged edPriv (uniform 2) (uniform 3) ktRotateNextOld) w
        fun result w' => (∃ e, result = .error e) ∧ w'.fs.get edPriv = w.fs.get edPriv := by
  have fits : ([1, 2, 3] : Bytes).length + 140 ≤ maxKeyfileSize := by decide
  obtain ⟨safe, total⟩ := rewrapping_preserves_payload aadTagged_tagging.lawful edPriv ktEdSeed
    (uniform 0) fits
  obtain ⟨⟨sealing, w₁, saved⟩, sealed⟩ := total (sampleEnv false) 0 _ rfl sampleWorld_clear
  obtain ⟨taken, chained⟩ := sealed sealing w₁ saved
  obtain rfl := taken.mpr (by decide +kernel)
  obtain ⟨⟨rewrapping, w, rewrapped⟩, ends⟩ := chained rfl [uniform 1, uniform 2]
  obtain ⟨rfl, chain⟩ := ends rewrapping w rewrapped
  obtain ⟨first, _, reached⟩ := safe (sampleEnv false) 0 _ w₁ (lossy_returns saved)
  obtain ⟨r, file, _, _, loads, refused, _⟩ := reached _ w chain
  refine ⟨w₁, w, r, saved, rewrapped, file, loads _ 0 rfl, ?_, ?_⟩
  · exact refused _ 0 _ _ _ (.inl (by decide)) (aadTagged_toldApart r (by decide +kernel))
  · exact refused _ 0 _ _ _ (.inr (by decide)) (aadTagged_toldApart r (by decide +kernel))

end Lithium.Keys
