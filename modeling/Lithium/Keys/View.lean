import Lithium.Keys.Manager

/-! What a thread's file calls do to the store. The view leaves out temp files and
the directories of the store, so that making them changes nothing in it; `Step`
says that a call left a given view and disturbed no other thread's temp files. -/
namespace Lithium.Keys
open Effects Storage

abbrev View := Path → Option Node

def stagedPrivDir : Path := plain "priv" :: stagedDir
def stagedSecretsDir : Path := plain "secrets" :: stagedDir

def scaffold : List Path :=
  [rootDir, pubDir, privDir, secretsDir, rotateDir, stagedDir, stagedPrivDir, stagedSecretsDir]

def hidden (path : Path) : Bool :=
  path.isEmpty || isTmp path || decide (path ∈ scaffold)

def World.view (w : World) : View := fun path => if hidden path then none else w.fs.get path

theorem view_of_visible {w : World} {path : Path} (visible : hidden path = false) :
    w.view path = w.fs.get path := by simp [World.view, visible]

theorem hidden_of_tmp {path : Path} (tmp : isTmp path = true) : hidden path = true := by
  simp [hidden, tmp]

theorem hidden_of_scaffold {dir : Path} (member : dir ∈ scaffold) : hidden dir = true := by
  simp [hidden, member]

theorem not_tmp_of_visible {path : Path} (visible : hidden path = false) : isTmp path = false := by
  simp only [hidden, Bool.or_eq_false_iff] at visible
  exact visible.1.2

theorem not_tmp_of_scaffold : ∀ dir ∈ scaffold, isTmp dir = false := by decide

/-- A directory only its owner can use. -/
def PrivateDir (w : World) (dir : Path) : Prop :=
  ∃ node, w.fs.get dir = some node ∧ node.ftype = .directory ∧ node.mode &&& 0o077 = 0

theorem PrivateDir.congr {w w' : World} {dir : Path} (private_ : PrivateDir w dir)
    (same : w'.fs.get dir = w.fs.get dir) : PrivateDir w' dir := by
  rw [PrivateDir, same]
  exact private_

/-- `ensure_private_dir` can succeed here. -/
def Makeable (w : World) (dir : Path) : Prop :=
  PrivateDir w dir ∨ w.fs.get dir = none ∧ w.fs.isDir dir.tail = true

/-- The temp file was named by this thread of the running process. -/
def Owns (tid : Tid) (w : World) (path : Path) : Prop :=
  ∃ seq, stampOf path = some (w.pid, seq) ∧ w.stamps[seq]? = some tid

/-- No temp file on disk has a name the running process has yet to take. -/
def StampsFree (w : World) : Prop :=
  ∀ path seq, stampOf path = some (w.pid, seq) → (w.fs.get path).isSome → seq < w.stamps.length

/-- A call of thread `tid` that leaves `view`, and apart from that only temp files
of its own and missing directories made. -/
structure Step (tid : Tid) (view : View) (w w' : World) : Prop where
  view : w'.view = view
  control : w'.control = w.control
  pid : w'.pid = w.pid
  stamps : ∃ taken, w'.stamps = w.stamps ++ taken ∧ ∀ t ∈ taken, t = tid
  temps : ∀ path, isTmp path = true → ¬ Owns tid w' path → w'.fs.get path = w.fs.get path
  dirs : ∀ path node, w.fs.get path = some node → node.ftype = .directory →
    w'.fs.get path = some node
  missing : ∀ dir ∈ scaffold, w.fs.get dir = none → w'.fs.get dir = none ∨ PrivateDir w' dir
  fresh : StampsFree w → StampsFree w'

namespace Step
variable {tid : Tid} {w w' w'' : World} {view view' : View}

theorem refl (tid : Tid) (w : World) : Step tid w.view w w where
  view := rfl
  control := rfl
  pid := rfl
  stamps := ⟨[], by simp, by simp⟩
  temps := fun _ _ _ => rfl
  dirs := fun _ _ found _ => found
  missing := fun _ _ absent => .inl absent
  fresh := id

theorem privateDir (step : Step tid view w w') {dir : Path} (private_ : PrivateDir w dir) :
    PrivateDir w' dir := by
  obtain ⟨node, found, directory, mode⟩ := private_
  exact ⟨node, step.dirs _ _ found directory, directory, mode⟩

theorem isDir (step : Step tid view w w') {dir : Path} (directory : w.fs.isDir dir = true) :
    w'.fs.isDir dir = true := by
  cases dir with
  | nil => rfl
  | cons name dir =>
    obtain ⟨node, found, ftype⟩ := (w.fs.isDir_cons name dir).mp directory
    exact (w'.fs.isDir_cons name dir).mpr ⟨node, step.dirs _ _ found ftype, ftype⟩

theorem makeable (step : Step tid view w w') {dir : Path} (member : dir ∈ scaffold)
    (makeable : Makeable w dir) : Makeable w' dir := by
  obtain found | ⟨absent, parent⟩ := makeable
  · exact .inl (step.privateDir found)
  · obtain absent | made := step.missing dir member absent
    · exact .inr ⟨absent, step.isDir parent⟩
    · exact .inl made

theorem owns (step : Step tid view w w') {other : Tid} {path : Path} (owns : Owns other w path) :
    Owns other w' path := by
  obtain ⟨seq, stamp, taken⟩ := owns
  obtain ⟨more, stamps, _⟩ := step.stamps
  refine ⟨seq, by rw [step.pid, stamp], ?_⟩
  rw [stamps, List.getElem?_append_left (List.getElem?_eq_some_iff.mp taken).1, taken]

theorem trans (first : Step tid view w w') (second : Step tid view' w' w'') :
    Step tid view' w w'' where
  view := second.view
  control := second.control.trans first.control
  pid := second.pid.trans first.pid
  stamps := by
    obtain ⟨more, stamps, mine⟩ := first.stamps
    obtain ⟨more', stamps', mine'⟩ := second.stamps
    refine ⟨more ++ more', by rw [stamps', stamps, List.append_assoc], fun t member => ?_⟩
    obtain member | member := List.mem_append.mp member
    · exact mine t member
    · exact mine' t member
  temps := fun path tmp other => by
    rw [second.temps path tmp other, first.temps path tmp fun owned => other (second.owns owned)]
  dirs := fun path node found directory =>
    second.dirs _ _ (first.dirs _ _ found directory) directory
  missing := fun dir member absent => by
    obtain absent | made := first.missing dir member absent
    · exact second.missing dir member absent
    · exact .inr (second.privateDir made)
  fresh := second.fresh ∘ first.fresh

theorem others (step : Step tid view w w') {other : Tid} (apart : other ≠ tid) {path : Path}
    (owned : Owns other w path) : w'.fs.get path = w.fs.get path := by
  have kept := step.owns owned
  refine step.temps path ?_ ?_
  · obtain ⟨seq, stamp, _⟩ := owned
    simp [isTmp, stamp]
  · rintro ⟨seq, stamp, taken⟩
    obtain ⟨seq', stamp', taken'⟩ := kept
    cases stamp.symm.trans stamp'
    exact apart (Option.some.inj (taken'.symm.trans taken))

end Step

theorem step_tmp {tid : Tid} {w : World} {fs : FileSystem FileName} {path : Path}
    {node : Option Node} (owns : Owns tid w path) (get : fs.get = Function.update w.fs.get path node)
    (file : ∀ old, w.fs.get path = some old → old.ftype ≠ .directory) :
    Step tid w.view w { w with fs := fs } := by
  have tmp : isTmp path = true := by
    obtain ⟨seq, stamp, _⟩ := owns
    simp [isTmp, stamp]
  have elsewhere : ∀ other, other ≠ path → fs.get other = w.fs.get other := fun other apart => by
    rw [get, Function.update_of_ne apart]
  refine ⟨?_, rfl, rfl, ⟨[], by simp, by simp⟩, ?_, ?_, ?_, ?_⟩
  · funext other
    by_cases same : other = path
    · subst same
      simp [World.view, hidden_of_tmp tmp]
    · simp [World.view, elsewhere other same]
  · intro other _ foreign
    exact elsewhere other fun same => foreign (same ▸ owns)
  · intro other old found directory
    refine (elsewhere other ?_).trans found
    rintro rfl
    exact file old found directory
  · intro dir member absent
    refine .inl ((elsewhere dir ?_).trans absent)
    rintro rfl
    simp [not_tmp_of_scaffold _ member] at tmp
  · intro free other seq stamp present
    by_cases same : other = path
    · subst same
      obtain ⟨seq', stamp', taken⟩ := owns
      cases stamp.symm.trans stamp'
      exact (List.getElem?_eq_some_iff.mp taken).1
    · exact free other seq stamp (by rwa [← elsewhere other same])

theorem step_mkdir {tid : Tid} {w : World} {fs : FileSystem FileName} {dir : Path}
    (member : dir ∈ scaffold) (absent : w.fs.get dir = none)
    (get : fs.get = Function.update w.fs.get dir (some ⟨.directory, 0o700, []⟩)) :
    Step tid w.view w { w with fs := fs } := by
  have elsewhere : ∀ other, other ≠ dir → fs.get other = w.fs.get other := fun other apart => by
    rw [get, Function.update_of_ne apart]
  refine ⟨?_, rfl, rfl, ⟨[], by simp, by simp⟩, ?_, ?_, ?_, ?_⟩
  · funext other
    by_cases same : other = dir
    · subst same
      simp [World.view, hidden_of_scaffold member]
    · simp [World.view, elsewhere other same]
  · intro other tmp _
    refine elsewhere other ?_
    rintro rfl
    simp [not_tmp_of_scaffold _ member] at tmp
  · intro other old found directory
    refine (elsewhere other ?_).trans found
    rintro rfl
    rw [absent] at found
    cases found
  · intro other _ missing
    by_cases same : other = dir
    · subst same
      exact .inr ⟨⟨.directory, 0o700, []⟩, by simp [get], rfl, rfl⟩
    · exact .inl ((elsewhere other same).trans missing)
  · intro free other seq stamp present
    refine free other seq stamp ?_
    rwa [← elsewhere other]
    rintro rfl
    have := not_tmp_of_scaffold _ member
    simp [isTmp, stamp] at this

theorem step_sync {tid : Tid} {w : World} {fs : FileSystem FileName} (get : fs.get = w.fs.get) :
    Step tid w.view w { w with fs := fs } where
  view := by funext path; simp [World.view, get]
  control := rfl
  pid := rfl
  stamps := ⟨[], by simp, by simp⟩
  temps := fun _ _ _ => by rw [get]
  dirs := fun _ _ found _ => by rw [get, found]
  missing := fun _ _ absent => .inl (by rw [get, absent])
  fresh := fun free path seq stamp present => free path seq stamp (by rwa [get] at present)

theorem step_stamp (tid : Tid) (w : World) :
    Step tid w.view w { w with stamps := w.stamps ++ [tid] } where
  view := rfl
  control := rfl
  pid := rfl
  stamps := ⟨[tid], rfl, by simp⟩
  temps := fun _ _ _ => rfl
  dirs := fun _ _ found _ => found
  missing := fun _ _ absent => .inl absent
  fresh := fun free path seq stamp present => by
    have := free path seq stamp present
    simp only [List.length_append, List.length_singleton]
    omega

theorem step_put {tid : Tid} {w : World} {fs : FileSystem FileName} {path : Path} {node : Node}
    (visible : hidden path = false)
    (get : fs.get = Function.update w.fs.get path (some node))
    (file : ∀ old, w.fs.get path = some old → old.ftype ≠ .directory) :
    Step tid (Function.update w.view path (some node)) w { w with fs := fs } := by
  have elsewhere : ∀ other, other ≠ path → fs.get other = w.fs.get other := fun other apart => by
    rw [get, Function.update_of_ne apart]
  have apart : ∀ other, hidden other = true → other ≠ path := by
    rintro other masked rfl
    rw [visible] at masked
    cases masked
  refine ⟨?_, rfl, rfl, ⟨[], by simp, by simp⟩, ?_, ?_, ?_, ?_⟩
  · funext other
    by_cases same : other = path
    · subst same
      simp [World.view, visible, get]
    · rw [Function.update_of_ne same]
      simp [World.view, elsewhere other same]
  · exact fun other tmp _ => elsewhere other (apart other (hidden_of_tmp tmp))
  · intro other old found directory
    refine (elsewhere other ?_).trans found
    rintro rfl
    exact file old found directory
  · exact fun dir member absent =>
      .inl ((elsewhere dir (apart dir (hidden_of_scaffold member))).trans absent)
  · intro free other seq stamp present
    have tmp : isTmp other = true := by simp [isTmp, stamp]
    exact free other seq stamp (by rwa [← elsewhere other (apart other (hidden_of_tmp tmp))])

end Lithium.Keys
