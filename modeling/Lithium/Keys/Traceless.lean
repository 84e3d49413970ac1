import Lithium.Keys.FirstStart

/-! What the three ways of writing a keyfile leave behind, whichever of their calls fail. A
write may fail part-way; only the removal of a temp file is not made to fail. It is noted
whether a rename has failed, since `write_secure` does not clean up after that one. -/
namespace Lithium.Keys
open Effects Storage

structure WriterState where
  world : World
  renameFailed : Bool

/-- The calls of a writer, with a number of bytes that a failing write gets done. -/
def attempting (env : Env) (tid : Tid) : Executor Calls WriterState (Choice × Nat) :=
  fun (choice, written) op s =>
    match op with
    | .removeFile path =>
      let (reply, world) := s.world.onFs (s.world.fs.removeFile path)
      some (reply, { s with world })
    | .writeAll path data =>
      match choice.fault with
      | none =>
        let (reply, world) := s.world.onFs (s.world.fs.write data path)
        some (reply, { s with world })
      | some e =>
        if env.faults then (ioFailure e).map fun reply =>
          (reply, { s with world := (s.world.onFs (s.world.fs.write (data.take written) path)).2 })
        else none
    | .rename source target =>
      (exec env tid choice (.rename source target) s.world).map fun (reply, world) =>
        (reply, ⟨world, s.renameFailed || !Except.isOk reply⟩)
    | op => (exec env tid choice op s.world).map fun (reply, world) => (reply, { s with world })

/-- The three functions that put a file in place. -/
inductive WriteMode where
  | secure
  | secureNew
  | secureNewBestEffort
  deriving DecidableEq, Repr

def WriteMode.write : WriteMode → Path → Bytes → Prog Unit
  | .secure => writeSecure
  | .secureNew => writeSecureNew
  | .secureNewBestEffort => writeSecureNewBestEffort

/-- What a create-only write has found at its target: nothing that a link would run into, or
nothing that `try_exists` sees. -/
def WriteMode.Found (path : Path) (w : World) : WriteMode → Prop
  | .secure => True
  | .secureNew => w.fs.get path = none
  | .secureNewBestEffort => w.fs.stat path = none

/-- `dir` lies on the way to `path`. -/
def Above (path dir : Path) : Prop := dir <:+ path ∧ dir ≠ path

/-- The entry `p` is as it was, or a directory made on the way to `path`. -/
def Spared (path : Path) (before after : View) (p : Path) : Prop :=
  after p = before p ∨
    Above path p ∧ before p = none ∧ after p = some ⟨.directory, 0o700, []⟩

/-- An error leaves the target and everything else alone, a success puts exactly `data` in
place and nothing besides. -/
def Traceless (mode : WriteMode) (path : Path) (data : Bytes) (w w' : World) :
    Except LithiumError Unit → Prop
  | .error _ => w'.fs.get path = w.fs.get path ∧ ∀ p, Spared path w.fs.get w'.fs.get p
  | .ok _ => w'.fs.get path = some (privateFile data) ∧
      (∀ p, p ≠ path → Spared path w.fs.get w'.fs.get p) ∧ mode.Found path w

section
variable {env : Env} {tid : Tid} {op : Op} {s s' : WriterState} {reply : Reply op}

def usual : Op → Bool
  | .removeFile _ | .writeAll .. | .rename .. => false
  | _ => true

theorem sem_usual (plain : usual op = true) (step : (attempting env tid).sem op s reply s') :
    sem env tid op s.world reply s'.world ∧ s'.renameFailed = s.renameFailed := by
  obtain ⟨⟨choice, written⟩, stepped⟩ := step
  have mapped : (exec env tid choice op s.world).map
      (fun (reply, world) => (reply, { s with world })) = some (reply, s') := by
    cases op <;> first | exact stepped | cases plain
  obtain ⟨⟨_, _⟩, done, same⟩ := Option.map_eq_some_iff.mp mapped
  cases same
  exact ⟨⟨choice, done⟩, rfl⟩

theorem sem_noted {source target : Path} {reply : Io Unit}
    (step : (attempting env tid).sem (.rename source target) s reply s') :
    sem env tid (.rename source target) s.world reply s'.world ∧
      s'.renameFailed = (s.renameFailed || !reply.isOk) := by
  obtain ⟨⟨choice, written⟩, stepped⟩ := step
  obtain ⟨⟨_, _⟩, done, same⟩ := Option.map_eq_some_iff.mp stepped
  cases same
  exact ⟨⟨choice, done⟩, rfl⟩

theorem sem_observes (looks : observes op = true) (step : (attempting env tid).sem op s reply s') :
    s' = s ∧ sem env tid op s.world reply s.world := by
  have plain : usual op = true := by cases op <;> first | rfl | cases looks
  obtain ⟨done, same⟩ := sem_usual plain step
  have world := observes_same looks done
  obtain ⟨_, _⟩ := s'
  cases same
  cases world
  exact ⟨rfl, done⟩

end

/-- Only directories on the way to `path` have been made. -/
def Bare (path : Path) (w : World) (failed : Bool) (s : WriterState) : Prop :=
  (∀ p, Spared path w.fs.get s.world.fs.get p) ∧ s.renameFailed = failed

/-- Besides, there is a temp file next to `path`. -/
def TmpHeld (path : Path) (w : World) (failed : Bool) (tmp : Path) (data : Bytes) (s : WriterState) :
    Prop :=
  ∃ middle : View, (∀ p, Spared path w.fs.get middle p) ∧ middle tmp = none ∧ tmp.tail = path.tail ∧
    tmp ≠ [] ∧ s.world.fs.get = Function.update middle tmp (some (privateFile data)) ∧
    s.renameFailed = failed

/-- The file is in place, with nothing else but directories. -/
def Placed (path : Path) (w : World) (data : Bytes) (failed : Bool) (s : WriterState) : Prop :=
  s.world.fs.get path = some (privateFile data) ∧
    (∀ p, p ≠ path → Spared path w.fs.get s.world.fs.get p) ∧ s.renameFailed = failed

section
variable {path p : Path} {before after : View} {w : World} {failed : Bool} {s s' : WriterState}

theorem Spared.self (path : Path) (before : View) (p : Path) : Spared path before before p := .inl rfl

theorem Spared.absent (kept : Spared path before after p) (missing : after p = none) :
    before p = none := by
  rcases kept with same | ⟨_, none, _⟩
  · rw [← same, missing]
  · exact none

theorem Spared.target (kept : Spared path before after path) : after path = before path := by
  rcases kept with same | ⟨above, _, _⟩
  · exact same
  · exact absurd rfl above.2

theorem Above.tail {name : FileName} {dir : Path} (above : Above path (name :: dir)) :
    Above path dir := by
  constructor
  · exact (List.suffix_cons name dir).trans above.1
  · rintro rfl
    have longer := above.1.length_le
    rw [List.length_cons] at longer
    omega

/-- One entry changes that nothing was known to be at. -/
theorem Spared.update (kept : ∀ p, Spared path before after p) {dir : Path} (above : Above path dir)
    (missing : after dir = none) (p : Path) :
    Spared path before (Function.update after dir (some ⟨.directory, 0o700, []⟩)) p := by
  by_cases same : p = dir
  · subst same
    rw [Spared, Function.update_self]
    exact .inr ⟨above, (kept p).absent missing, rfl⟩
  · rw [Spared, Function.update_of_ne same]
    exact kept p

theorem Bare.start (path : Path) (w : World) (failed : Bool) : Bare path w failed ⟨w, failed⟩ :=
  ⟨Spared.self path w.fs.get, rfl⟩

theorem Bare.congr (bare : Bare path w failed s) (get : s'.world.fs.get = s.world.fs.get)
    (flag : s'.renameFailed = s.renameFailed) : Bare path w failed s' := by
  rw [Bare, get, flag]
  exact bare

end

section
variable {env : Env} {tid : Tid} {path : Path} {w : World} {failed : Bool} {α : Type}

abbrev Writer (env : Env) (tid : Tid) : Protocol Calls WriterState :=
  .alone (attempting env tid).sem fun _ => True

variable {held : WriterState → Prop} {post : Except LithiumError α → WriterState → Prop}

theorem making (op : Op) {next : Reply op → Prog α} (middle : Reply op → WriterState → Prop)
    (step : ∀ {s reply s'}, held s → (attempting env tid).sem op s reply s' → middle reply s')
    (rest : ∀ reply, Triple (Writer env tid) (middle reply) (next reply) post) :
    Triple (Writer env tid) held ((call op).bind next) post := Triple.alone_call middle step rest

theorem looking (op : Op) {next : Reply op → Prog α} (looks : observes op = true)
    (rest : ∀ reply, Triple (Writer env tid) (fun s => held s ∧ sem env tid op s.world reply s.world)
      (next reply) post) :
    Triple (Writer env tid) held ((call op).bind next) post := by
  apply making op _ ?_ rest
  intro s reply s' here step
  obtain ⟨rfl, seen⟩ := sem_observes looks step
  exact ⟨here, seen⟩

theorem mkdir_bare {dir : Path} {s s' : WriterState} {reply : Io Unit} (above : Above path dir)
    (bare : Bare path w failed s) (step : (attempting env tid).sem (.mkdir dir) s reply s') :
    Bare path w failed s' := by
  obtain ⟨done, flag⟩ := sem_usual rfl step
  obtain natural | ⟨_, same, _⟩ := sem_natural (fun _ => rfl) done
  · cases dir with
    | nil =>
      have same : s'.world = s.world := congrArg Prod.snd natural
      exact bare.congr (by rw [same]) flag
    | cons name parent =>
      obtain ⟨absent, _, fs, made, _, get⟩ | ⟨_, failed⟩ | ⟨_, failed⟩ :=
        s.world.fs.create_spec ⟨.directory, 0o700, []⟩ name parent
      · rw [FileSystem.mkdir, made] at natural
        have world : s'.world = { s.world with fs } := congrArg Prod.snd natural
        constructor
        · rw [world, get]
          exact Spared.update bare.1 above absent
        · rw [flag]
          exact bare.2
      all_goals
        rw [FileSystem.mkdir, failed] at natural
        have same : s'.world = s.world := congrArg Prod.snd natural
        exact bare.congr (by rw [same]) flag
  · exact bare.congr (by rw [same]) flag

theorem orElseIsDir_bare (dir : Path) (kind : IoErrorKind) :
    Triple (Writer env tid) (Bare path w failed) ((isDir dir).bind fun there =>
      if there then (pure () : Prog Unit) else throw (.io kind)) fun _ s => Bare path w failed s := by
  apply looking (.stat dir) rfl
  intro reply s here
  simp only [Program.pure_eq]
  split <;> exact here.1

theorem createDirAll_bare (dir : Path) (above : Above path dir) :
    Triple (Writer env tid) (Bare path w failed) (createDirAll dir)
      fun _ s => Bare path w failed s := by
  induction dir with
  | nil => exact Triple.done fun s here => here
  | cons name dir ih =>
    have fallback : ∀ kind, Triple (Writer env tid) (Bare path w failed)
        ((isDir (name :: dir)).bind fun there =>
          if there then (pure () : Prog Unit) else throw (.io kind))
        fun _ s => Bare path w failed s := orElseIsDir_bare (name :: dir)
    apply making (.mkdir (name :: dir)) (fun _ s => Bare path w failed s) (mkdir_bare above)
    intro reply
    match reply with
    | .ok () => exact Triple.done fun s here => here
    | .error .notFound =>
      refine Triple.bind (ih above.tail) (fun _ => ?_) fun _ _ here => here
      apply making (.mkdir (name :: dir)) (fun _ s => Bare path w failed s) (mkdir_bare above)
      intro reply
      match reply with
      | .ok () => exact Triple.done fun s here => here
      | .error kind => exact fallback kind
    | .error .alreadyExists | .error .permissionDenied | .error .notADirectory
    | .error .isADirectory | .error .storageFull | .error .other => exact fallback _

theorem ensureParent_bare (path : Path) (w : World) (failed : Bool) :
    Triple (Writer env tid) (Bare path w failed) (ensureParent path)
      fun _ s => Bare path w failed s := by
  cases path with
  | nil => exact Triple.done fun s here => here
  | cons name dir =>
    have above : Above (name :: dir) dir := ⟨List.suffix_cons name dir, List.ne_cons_self⟩
    apply looking (.symlinkMetadata dir) rfl
    intro reply
    match reply with
    | .ok metadata =>
      simp only
      split
      · exact Triple.done fun s here => here.1
      · split
        · exact Triple.done fun s here => here.1
        · exact Triple.done fun s here => here.1
    | .error .notFound =>
      exact (createDirAll_bare dir above).mono (fun _ here => here.1) fun _ _ here => here
    | .error .alreadyExists | .error .permissionDenied | .error .notADirectory
    | .error .isADirectory | .error .storageFull | .error .other =>
      exact Triple.done fun s here => here.1

theorem createNew_holding {tmp : Path} {s s' : WriterState} {reply : Io Unit}
    (beside : tmp.tail = path.tail) (bare : Bare path w failed s)
    (step : (attempting env tid).sem (.createNew tmp) s reply s') :
    reply = .ok () ∧ TmpHeld path w failed tmp [] s' ∨
      (∃ kind, reply = .error kind) ∧ Bare path w failed s' := by
  obtain ⟨done, flag⟩ := sem_usual rfl step
  obtain natural | ⟨_, same, e, failure⟩ := sem_natural (fun _ => rfl) done
  · cases tmp with
    | nil =>
      obtain ⟨replied, same⟩ := Prod.mk.inj natural
      exact .inr ⟨⟨_, replied⟩, bare.congr (by rw [same]; rfl) flag⟩
    | cons name dir =>
      obtain ⟨absent, _, fs, made, _, get⟩ | ⟨_, failed⟩ | ⟨_, failed⟩ :=
        s.world.fs.create_spec ⟨.regular, 0o600, []⟩ name dir
      · rw [FileSystem.createNew, made] at natural
        obtain ⟨replied, world⟩ := Prod.mk.inj natural
        exact .inl ⟨replied, s.world.fs.get, bare.1, absent, beside, List.cons_ne_nil _ _,
          by rw [world]; exact get, flag.trans bare.2⟩
      all_goals
        rw [FileSystem.createNew, failed] at natural
        obtain ⟨replied, same⟩ := Prod.mk.inj natural
        exact .inr ⟨⟨_, replied⟩, bare.congr (by rw [same]) flag⟩
  · exact .inr ⟨ioFailure_eq failure, bare.congr (by rw [same]) flag⟩

theorem createPrivateTmpWithin_holding (path : Path) (w : World) (failed : Bool) (tries : Nat) :
    Triple (Writer env tid) (Bare path w failed) (createPrivateTmpWithin path tries)
      fun result s => match result with
        | .ok tmp => TmpHeld path w failed tmp [] s
        | .error _ => Bare path w failed s := by
  induction tries with
  | zero => exact Triple.done fun s here => here
  | succ tries ih =>
    apply looking (.random .suffix) rfl
    intro suffix
    cases suffix with
    | none => exact Triple.done fun s here => here.1
    | some suffix =>
      apply making .tmpStamp (fun _ s => Bare path w failed s)
      · rintro s reply s' ⟨here, _⟩ step
        obtain ⟨done, flag⟩ := sem_usual rfl step
        obtain natural | ⟨_, same, _⟩ := sem_natural (fun _ => rfl) done
        · exact here.congr (by rw [(Prod.mk.inj natural).2]) flag
        · exact here.congr (by rw [same]) flag
      · rintro ⟨pid, seq⟩
        let tmp := withExtension path (.tmp pid seq suffix)
        apply making (.createNew tmp) fun (reply : Io Unit) s => match reply with
          | .ok _ => TmpHeld path w failed tmp [] s
          | .error _ => Bare path w failed s
        · intro s reply s' here step
          obtain ⟨rfl, made⟩ | ⟨⟨kind, rfl⟩, bare⟩ :=
            createNew_holding (tail_withExtension path _) here step
          · exact made
          · exact bare
        · intro reply
          match reply with
          | .ok () => exact Triple.done fun s here => here
          | .error .alreadyExists => exact ih
          | .error .notFound | .error .permissionDenied | .error .notADirectory
          | .error .isADirectory | .error .storageFull | .error .other =>
            exact Triple.done fun s here => here

section
variable {tmp : Path} {old data : Bytes} {s s' : WriterState} {reply : Io Unit}

theorem TmpHeld.write (here : TmpHeld path w failed tmp old s) (data : Bytes) :
    ∃ fs, s.world.fs.write data tmp = (.ok (), fs) ∧
      TmpHeld path w failed tmp data { s with world := { s.world with fs } } := by
  obtain ⟨middle, kept, absent, beside, named, get, flag⟩ := here
  obtain ⟨fs, wrote, changed⟩ := s.world.fs.write_fresh named get rfl data
  exact ⟨fs, wrote, middle, kept, absent, beside, named, changed, flag⟩

theorem writeAll_holding (here : TmpHeld path w failed tmp old s)
    (step : (attempting env tid).sem (.writeAll tmp data) s reply s') :
    reply = .ok () ∧ TmpHeld path w failed tmp data s' ∨
      (∃ kind, reply = .error kind) ∧ ∃ part, TmpHeld path w failed tmp part s' := by
  obtain ⟨⟨choice, written⟩, stepped⟩ := step
  simp only [attempting] at stepped
  split at stepped
  · obtain ⟨fs, wrote, held⟩ := here.write data
    rw [wrote] at stepped
    cases stepped
    exact .inl ⟨rfl, held⟩
  · obtain ⟨fs, wrote, held⟩ := here.write (data.take written)
    rw [wrote] at stepped
    split at stepped
    · obtain ⟨_, failure, same⟩ := Option.map_eq_some_iff.mp stepped
      cases same
      exact .inr ⟨ioFailure_eq failure, _, held⟩
    · cases stepped

theorem removeFile_bare (here : TmpHeld path w failed tmp data s)
    (step : (attempting env tid).sem (.removeFile tmp) s reply s') : Bare path w failed s' := by
  obtain ⟨middle, kept, absent, _, named, get, flag⟩ := here
  obtain ⟨_, stepped⟩ := step
  -- taking the file away brings the entries before it back
  obtain ⟨fs, removed, back⟩ :=
    s.world.fs.removeFile_fresh named get absent (by simp [privateFile])
  simp only [attempting, removed] at stepped
  cases stepped
  refine ⟨fun p => ?_, flag⟩
  show Spared path w.fs.get fs.get p
  rw [back]
  exact kept p

end

/-- The data is in the temp file, or there is no temp file. -/
theorem writeTmp_holding (tmp : Path) (data : Bytes) :
    Triple (Writer env tid) (TmpHeld path w failed tmp []) (writeTmp tmp data)
      fun result s => match result with
        | .ok _ => TmpHeld path w failed tmp data s
        | .error _ => Bare path w failed s := by
  have body : Triple (Writer env tid) (TmpHeld path w failed tmp [])
      ((call (.writeAll tmp data)).bind fun reply => (io reply).bind fun _ =>
        (call (.syncFile tmp)).bind fun reply => io reply)
      fun result s => match result with
        | .ok _ => TmpHeld path w failed tmp data s
        | .error _ => ∃ part, TmpHeld path w failed tmp part s := by
    apply making (.writeAll tmp data) fun (reply : Io Unit) s => match reply with
      | .ok _ => TmpHeld path w failed tmp data s
      | .error _ => ∃ part, TmpHeld path w failed tmp part s
    · intro s reply s' here step
      obtain ⟨rfl, wrote⟩ | ⟨⟨kind, rfl⟩, torn⟩ := writeAll_holding here step
      · exact wrote
      · exact torn
    · intro reply
      match reply with
      | .error kind => exact Triple.done fun s here => here
      | .ok () =>
        apply looking (.syncFile tmp) rfl
        intro reply
        match reply with
        | .ok () => exact Triple.done fun s here => here.1
        | .error kind => exact Triple.done fun s here => ⟨data, here.1⟩
  apply Triple.attempt_bind body
  intro result
  match result with
  | .ok () => exact Triple.done fun s here => here
  | .error e =>
    apply making (.removeFile tmp) fun _ s => Bare path w failed s
    · rintro s reply s' ⟨part, here⟩ step
      exact removeFile_bare here step
    · intro reply
      exact Triple.done fun s here => here

section
variable {tmp : Path} {data : Bytes} {s s' : WriterState} {reply : Io Unit}

theorem TmpHeld.there (here : TmpHeld path w failed tmp data s) :
    s.world.fs.get tmp = some (privateFile data) := by
  obtain ⟨middle, _, _, _, _, get, _⟩ := here
  rw [get, Function.update_self]

theorem TmpHeld.flag (here : TmpHeld path w failed tmp data s) : s.renameFailed = failed := by
  obtain ⟨_, _, _, _, _, _, flag⟩ := here
  exact flag

theorem placed_update {middle : View} (kept : ∀ p, Spared path w.fs.get middle p)
    (get : s'.world.fs.get = Function.update middle path (some (privateFile data)))
    (flag : s'.renameFailed = failed) : Placed path w data failed s' := by
  refine ⟨by rw [get, Function.update_self], fun p other => ?_, flag⟩
  rw [Spared, get, Function.update_of_ne other]
  exact kept p

theorem TmpHeld.congr (here : TmpHeld path w failed tmp data s) (same : s'.world = s.world)
    {noted : Bool} (flag : s'.renameFailed = noted) : TmpHeld path w noted tmp data s' := by
  obtain ⟨middle, kept, absent, beside, named, get, _⟩ := here
  exact ⟨middle, kept, absent, beside, named, by rw [same]; exact get, flag⟩

/-- A rename puts the file in place, or it leaves the temp file there. -/
theorem rename_placed (here : TmpHeld path w failed tmp data s)
    (step : (attempting env tid).sem (.rename tmp path) s reply s') :
    reply = .ok () ∧ Placed path w data failed s' ∨
      (∃ kind, reply = .error kind) ∧ TmpHeld path w true tmp data s' := by
  obtain ⟨done, noted⟩ := sem_noted step
  have refused : (∃ kind, reply = .error kind) → s'.world = s.world →
      (∃ kind, reply = .error kind) ∧ TmpHeld path w true tmp data s' := by
    rintro ⟨kind, rfl⟩ same
    exact ⟨⟨kind, rfl⟩, here.congr same (noted.trans (Bool.or_true _))⟩
  obtain ⟨middle, kept, absent, _, named, get, flag⟩ := id here
  obtain natural | ⟨_, same, e, failure⟩ := sem_natural (fun _ => rfl) done
  · obtain ⟨fs, renamed, moved⟩ | ⟨⟨kind, failure⟩, _⟩ :=
      s.world.fs.rename_fresh named get absent rfl path
    · rw [renamed] at natural
      obtain ⟨rfl, world⟩ := Prod.mk.inj natural
      refine .inl ⟨rfl, placed_update kept (by rw [world]; exact moved) ?_⟩
      exact noted.trans ((Bool.or_false _).trans flag)
    · rw [failure] at natural
      obtain ⟨replied, same⟩ := Prod.mk.inj natural
      exact .inr (refused ⟨_, replied⟩ same)
  · exact .inr (refused (ioFailure_eq failure) same)

/-- The file has a second name at the target, where nothing was. -/
def Linked (path : Path) (w : World) (failed : Bool) (tmp : Path) (data : Bytes) (s' : WriterState) :
    Prop :=
  w.fs.get path = none ∧ tmp ≠ path ∧ ∃ s, TmpHeld path w failed tmp data s ∧
    s'.world.fs.get = Function.update s.world.fs.get path (some (privateFile data)) ∧
    s'.renameFailed = s.renameFailed

theorem hardLink_linked (here : TmpHeld path w failed tmp data s)
    (step : (attempting env tid).sem (.hardLink tmp path) s reply s') :
    reply = .ok () ∧ Linked path w failed tmp data s' ∨
      (∃ kind, reply = .error kind) ∧ TmpHeld path w failed tmp data s' := by
  obtain ⟨done, flag⟩ := sem_usual rfl step
  have unlinked : s'.world = s.world → TmpHeld path w failed tmp data s' := by
    intro same
    exact here.congr same (flag.trans here.flag)
  obtain natural | ⟨_, same, e, failure⟩ := sem_natural (fun _ => rfl) done
  · cases path with
    | nil =>
      simp only [FileSystem.hardLink, here.there] at natural
      obtain ⟨replied, same⟩ := Prod.mk.inj natural
      exact .inr ⟨⟨_, replied⟩, unlinked same⟩
    | cons name dir =>
      obtain ⟨node, fs, found, _, free, _, linked, _, get⟩ | ⟨kind, _, failure⟩ :=
        s.world.fs.hardLink_spec tmp name dir
      · rw [linked] at natural
        obtain ⟨replied, world⟩ := Prod.mk.inj natural
        rw [here.there] at found
        cases found
        have apart : tmp ≠ name :: dir := by
          rintro rfl
          rw [here.there] at free
          cases free
        refine .inl ⟨replied, ?_, apart, s, here, by rw [world]; exact get, flag⟩
        obtain ⟨middle, kept, _, _, _, before, _⟩ := here
        rw [before, Function.update_of_ne (Ne.symm apart)] at free
        exact (kept _).absent free
      · rw [failure] at natural
        obtain ⟨replied, same⟩ := Prod.mk.inj natural
        exact .inr ⟨⟨kind, replied⟩, unlinked same⟩
  · exact .inr ⟨ioFailure_eq failure, unlinked same⟩

theorem removeFile_placed (linked : Linked path w failed tmp data s)
    (step : (attempting env tid).sem (.removeFile tmp) s reply s') :
    Placed path w data failed s' := by
  obtain ⟨_, apart, s₀, ⟨middle, kept, absent, _, named, before, unfailed⟩, get, flag⟩ := linked
  obtain ⟨_, stepped⟩ := step
  have linked : s.world.fs.get = Function.update
      (Function.update middle path (some (privateFile data))) tmp (some (privateFile data)) := by
    rw [get, before, Function.update_comm apart]
  have free : Function.update middle path (some (privateFile data)) tmp = none := by
    rw [Function.update_of_ne apart, absent]
  obtain ⟨fs, removed, back⟩ :=
    s.world.fs.removeFile_fresh named linked free (by simp [privateFile])
  simp only [attempting, removed] at stepped
  cases stepped
  exact placed_update kept back (flag.trans unfailed)

theorem syncDir_placed {dir : Path} (placed : Placed path w data failed s)
    (step : (attempting env tid).sem (.syncDir dir) s reply s') : Placed path w data failed s' := by
  obtain ⟨done, flag⟩ := sem_usual rfl step
  have same := (sem_syncDir done).2.1
  rw [Placed, same, flag]
  exact placed

end

theorem rename_then {tmp : Path} {data : Bytes} {next : Io Unit → Prog α}
    (placed : Triple (Writer env tid) (Placed path w data failed) (next (.ok ())) post)
    (left : ∀ kind, Triple (Writer env tid) (TmpHeld path w true tmp data) (next (.error kind)) post) :
    Triple (Writer env tid) (TmpHeld path w failed tmp data) ((call (.rename tmp path)).bind next)
      post := by
  apply making (.rename tmp path) fun (reply : Io Unit) s => match reply with
    | .ok _ => Placed path w data failed s
    | .error _ => TmpHeld path w true tmp data s
  · intro s reply s' here step
    obtain ⟨rfl, placed⟩ | ⟨⟨kind, rfl⟩, left⟩ := rename_placed here step
    · exact placed
    · exact left
  · intro reply
    match reply with
    | .ok () => exact placed
    | .error kind => exact left kind

theorem withTmp_holding {data : Bytes} {rest : Path → Prog α}
    (finish : ∀ tmp, Triple (Writer env tid) (TmpHeld path w failed tmp data) (rest tmp) post)
    (bare : ∀ e s, Bare path w failed s → post (.error e) s) :
    Triple (Writer env tid) (Bare path w failed)
      ((createPrivateTmp path).bind fun tmp => (writeTmp tmp data).bind fun _ => rest tmp) post := by
  apply Triple.bind (createPrivateTmpWithin_holding path w failed 8)
  · intro tmp
    apply Triple.bind (writeTmp_holding tmp data)
    · intro _
      exact finish tmp
    · exact bare
  · exact bare

theorem trySyncParent_placed (data : Bytes) :
    Triple (Writer env tid) (Placed path w data failed) (trySyncParent path)
      fun result s => result = .ok () ∧ Placed path w data failed s := by
  cases path with
  | nil => exact Triple.done fun s here => ⟨rfl, here⟩
  | cons name dir =>
    apply making (.syncDir dir) fun _ s => Placed (name :: dir) w data failed s
    · exact syncDir_placed
    · intro reply
      exact Triple.done fun s here => ⟨rfl, here⟩

theorem writeSecure_placed (path : Path) (w : World) (data : Bytes) :
    Triple (Writer env tid) (Bare path w false) (writeSecure path data)
      fun result s => match result with
        | .ok _ => Placed path w data false s
        | .error _ => Bare path w false s ∨ ∃ tmp, TmpHeld path w true tmp data s := by
  apply Triple.bind (ensureParent_bare path w false)
  · intro _
    apply withTmp_holding
    · intro tmp
      apply rename_then
      · refine (trySyncParent_placed data).weaken ?_
        rintro _ s ⟨rfl, placed⟩
        exact placed
      · intro kind
        exact Triple.done fun s here => .inr ⟨tmp, here⟩
    · intro e s bare
      exact .inl bare
  · intro e s bare
    exact .inl bare

theorem writeSecureNew_placed (path : Path) (w : World) (data : Bytes) :
    Triple (Writer env tid) (Bare path w failed) (writeSecureNew path data)
      fun result s => match result with
        | .ok _ => Placed path w data failed s ∧ w.fs.get path = none
        | .error _ => Bare path w failed s := by
  apply Triple.bind (ensureParent_bare path w failed)
  · intro _
    apply withTmp_holding
    · intro tmp
      apply making (.hardLink tmp path) fun (reply : Io Unit) s => match reply with
        | .ok _ => Linked path w failed tmp data s
        | .error _ => TmpHeld path w failed tmp data s
      · intro s reply s' here step
        obtain ⟨rfl, linked⟩ | ⟨⟨kind, rfl⟩, left⟩ := hardLink_linked here step
        · exact linked
        · exact left
      · intro linked
        match linked with
        | .ok () =>
          apply making (.removeFile tmp) fun _ s =>
            w.fs.get path = none ∧ Placed path w data failed s
          · intro s reply s' here step
            exact ⟨here.1, removeFile_placed here step⟩
          · intro _
            apply Triple.pure
            intro free
            refine (trySyncParent_placed data).weaken ?_
            rintro _ s ⟨rfl, placed⟩
            exact ⟨placed, free⟩
        | .error kind =>
          apply making (.removeFile tmp) fun _ s => Bare path w failed s
          · exact removeFile_bare
          · intro _
            exact Triple.done fun s here => here
    · intro e s bare
      exact bare
  · intro e s bare
    exact bare

/-- `try_exists` finds nothing only if there was nothing to find from the start. -/
theorem tryExists_absent {s : WriterState} (bare : Bare path w failed s)
    (seen : sem env tid (.tryExists path) s.world (.ok false) s.world) : w.fs.stat path = none := by
  obtain natural | ⟨_, _, e, failure⟩ := sem_natural (fun _ => rfl) seen
  · have nothing : (s.world.fs.stat path).isSome = false :=
      (Except.ok.inj (Prod.mk.inj natural).1).symm
    rw [Option.isSome_eq_false_iff, Option.isNone_iff_eq_none] at nothing
    have same := (bare.1 path).target
    rw [FileSystem.stat, same] at nothing
    exact nothing
  · obtain ⟨kind, refused⟩ := ioFailure_eq failure
    cases refused

/-- `write_secure_new_best_effort` once it has found nothing at its target. -/
theorem renameNew_placed {path : Path} {w : World} (data : Bytes) (free : w.fs.stat path = none) :
    Triple (Writer env tid) (Bare path w failed)
      ((createPrivateTmp path).bind fun tmp => (writeTmp tmp data).bind fun _ =>
        (call (.rename tmp path)).bind fun renamed => match renamed with
          | .ok _ => trySyncParent path
          | .error kind => (call (.removeFile tmp)).bind fun _ => throw (.io kind))
      fun result s => match result with
        | .ok _ => Placed path w data failed s ∧ w.fs.stat path = none
        | .error _ => ∃ noted, Bare path w noted s := by
  apply withTmp_holding
  · intro tmp
    apply rename_then
    · refine (trySyncParent_placed data).weaken ?_
      rintro _ s ⟨rfl, placed⟩
      exact ⟨placed, free⟩
    · intro kind
      apply making (.removeFile tmp) fun _ s => Bare path w true s
      · exact removeFile_bare
      · intro _
        exact Triple.done fun s here => ⟨true, here⟩
  · intro e s bare
    exact ⟨failed, bare⟩

theorem writeSecureNewBestEffort_placed (path : Path) (w : World) (data : Bytes) :
    Triple (Writer env tid) (Bare path w failed) (writeSecureNewBestEffort path data)
      fun result s => match result with
        | .ok _ => Placed path w data failed s ∧ w.fs.stat path = none
        | .error _ => ∃ noted, Bare path w noted s := by
  apply Triple.bind (ensureParent_bare path w failed)
  · intro _
    apply looking (.tryExists path) rfl
    intro reply
    cases reply with
    | error kind => exact Triple.done fun s here => ⟨failed, here.1⟩
    | ok there =>
      cases there with
      | true => exact Triple.done fun s here => ⟨failed, here.1⟩
      | false =>
        intro s here
        exact renameNew_placed data (tryExists_absent here.1 here.2) s here.1
  · intro e s bare
    exact ⟨failed, bare⟩

end

theorem Bare.traceless {path : Path} {w : World} {failed : Bool} {s : WriterState}
    (bare : Bare path w failed s) (mode : WriteMode) (data : Bytes) (e : LithiumError) :
    Traceless mode path data w s.world (.error e) := ⟨(bare.1 path).target, bare.1⟩

/-- A temp file that stays behind is a trace. -/
theorem TmpHeld.not_traceless {path tmp : Path} {w : World} {failed : Bool} {data : Bytes}
    {s : WriterState} (left : TmpHeld path w failed tmp data s) (mode : WriteMode) (e : LithiumError) :
    ¬ Traceless mode path data w s.world (.error e) := by
  rintro ⟨_, kept⟩
  have there := left.there
  obtain ⟨middle, before, absent, _⟩ := left
  rcases kept tmp with same | ⟨_, _, made⟩
  · rw [there, (before tmp).absent absent] at same
    cases same
  · rw [there] at made
    cases made

/-- A failed write leaves the target as it was and no file behind, a successful one puts
exactly the data in place: for the create-only functions always, for `write_secure` exactly
if its rename does not fail. -/
theorem traceless_iff {env : Env} {tid : Tid} (mode : WriteMode) (path : Path) (data : Bytes)
    {w : World} {result : Except LithiumError Unit} {s : WriterState}
    (returned : Returns (attempting env tid).sem (mode.write path data) ⟨w, false⟩ result s) :
    Traceless mode path data w s.world result ↔ (mode = .secure → s.renameFailed = false) := by
  have bare : Bare path w false ⟨w, false⟩ := Bare.start path w false
  cases mode with
  | secure =>
    have ended := Meets.returns (P := Writer env tid) (writeSecure_placed path w data _ bare) trivial
      returned
    cases result with
    | ok _ => exact ⟨fun _ _ => ended.2.2, fun _ => ⟨ended.1, ended.2.1, trivial⟩⟩
    | error e =>
      rcases ended with bare | ⟨tmp, left⟩
      · exact ⟨fun _ _ => bare.2, fun _ => bare.traceless _ data e⟩
      · constructor
        · intro traceless
          exact absurd traceless (left.not_traceless _ e)
        · intro unfailed
          have failed := left.flag
          rw [unfailed rfl] at failed
          cases failed
  | secureNew =>
    have ended := Meets.returns (P := Writer env tid) (writeSecureNew_placed path w data _ bare)
      trivial returned
    refine ⟨fun _ => nofun, fun _ => ?_⟩
    cases result with
    | ok _ => exact ⟨ended.1.1, ended.1.2.1, ended.2⟩
    | error e => exact ended.traceless _ data e
  | secureNewBestEffort =>
    have ended := Meets.returns (P := Writer env tid)
      (writeSecureNewBestEffort_placed path w data _ bare) trivial returned
    refine ⟨fun _ => nofun, fun _ => ?_⟩
    cases result with
    | ok _ => exact ⟨ended.1.1, ended.1.2.1, ended.2⟩
    | error e =>
      obtain ⟨noted, bare⟩ := ended
      exact bare.traceless _ data e

def mkPath : Path := [plain "mk"]

/-- Nothing fails but renames, if `fails`, and zeros are drawn. -/
def renameChoice (fails : Bool) : Nat → Op → WriterState → Choice × Nat := fun _ op _ =>
  ({ fault := match op with
      | .rename .. => if fails then some (.io .permissionDenied) else none
      | _ => none
     bytes := match op with
      | .random use => List.replicate use.len 0
      | _ => []
     pick := []
     time := 0 }, 0)

def oneByteWrite (fails : Bool) : Prog Unit × WriterState :=
  follow (attempting (sampleEnv true) 0) (renameChoice fails) 20 0 (writeSecure mkPath [7])
    ⟨blankWorld, false⟩

theorem traceless_sample :
    Returns (attempting (sampleEnv true) 0).sem (WriteMode.secure.write mkPath [7]) ⟨blankWorld, false⟩
      (.ok ()) (oneByteWrite false).2 ∧
    Traceless .secure mkPath [7] blankWorld (oneByteWrite false).2.world (.ok ()) := by
  have returned : Returns (attempting (sampleEnv true) 0).sem (WriteMode.secure.write mkPath [7])
      ⟨blankWorld, false⟩ (.ok ()) (oneByteWrite false).2 :=
    follow_returns (attempting (sampleEnv true) 0) (renameChoice false) 20 0 (by decide +kernel)
  exact ⟨returned, (traceless_iff .secure mkPath [7] returned).mpr fun _ => by decide +kernel⟩

/-- The temp file `write_secure` has made. -/
def leftoverPath : Path := [⟨"mk", .tmp 1 0 ⟨List.replicate 8 0, by simp⟩⟩]

/-- The rename fails: `write_secure` returns the error and leaves its temp file, with the data,
in the directory. -/
theorem leftover_tmp :
    Returns (attempting (sampleEnv true) 0).sem (WriteMode.secure.write mkPath [7]) ⟨blankWorld, false⟩
      (.error (.io .permissionDenied)) (oneByteWrite true).2 ∧
    blankWorld.fs.get leftoverPath = none ∧
    (oneByteWrite true).2.world.fs.get leftoverPath = some (privateFile [7]) ∧
    ¬ Traceless .secure mkPath [7] blankWorld (oneByteWrite true).2.world
      (.error (.io .permissionDenied)) := by
  have left : (oneByteWrite true).2.world.fs.get leftoverPath = some (privateFile [7]) := by
    decide +kernel
  refine ⟨follow_returns (attempting (sampleEnv true) 0) (renameChoice true) 20 0 (by decide +kernel),
    rfl, left, ?_⟩
  rintro ⟨_, kept⟩
  rcases kept leftoverPath with same | ⟨_, _, made⟩
  · rw [left] at same
    cases same
  · rw [left] at made
    cases made

end Lithium.Keys
