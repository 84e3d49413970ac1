import Mathlib.Algebra.Group.Nat.Defs
import Mathlib.Data.List.AList
import Mathlib.Data.List.Infix
import Mathlib.Data.List.MinMax

/-! A directory tree with the calls a program makes on it. A path lists its
components from the entry up to the base directory, so the containing directory
is the tail. Each call either fails and changes nothing or takes effect at once.
Entries stay unsynced until their directory is synced after they appeared. -/
namespace Lithium.Storage

inductive FileType where
  | regular
  | directory
  | symlink
  deriving DecidableEq, Repr

structure Node where
  ftype : FileType
  mode : Nat
  data : List UInt8
  deriving DecidableEq, Repr

structure Metadata where
  ftype : FileType
  mode : Nat
  len : Nat
  deriving DecidableEq, Repr

inductive IoErrorKind where
  | notFound
  | alreadyExists
  | permissionDenied
  | notADirectory
  | isADirectory
  | storageFull
  | other
  deriving DecidableEq, Repr

abbrev Io (α : Type) := Except IoErrorKind α

def Node.metadata (node : Node) : Metadata := ⟨node.ftype, node.mode, node.data.length⟩

/-- Every entry lies in a directory; the base directory `[]` is always there. -/
def Rooted {N : Type} [DecidableEq N] (entries : AList fun _ : List N => Node) : Prop :=
  ∀ name dir, (entries.lookup (name :: dir)).isSome →
    dir = [] ∨ ∃ node, entries.lookup dir = some node ∧ node.ftype = .directory

structure FileSystem (N : Type) [DecidableEq N] where
  entries : AList fun _ : List N => Node
  unsynced : List (List N)
  rooted : Rooted entries

namespace FileSystem
variable {N : Type} [DecidableEq N]

def empty : FileSystem N := ⟨∅, [], fun _ _ present => by simp at present⟩

def get (fs : FileSystem N) (path : List N) : Option Node := fs.entries.lookup path

def isDir (fs : FileSystem N) : List N → Bool
  | [] => true
  | path => (fs.get path).any fun node => node.ftype = .directory

/-- Nothing lies in `path`. -/
def childless (fs : FileSystem N) (path : List N) : Bool :=
  fs.entries.keys.all fun
    | [] => true
    | _ :: dir => dir != path

theorem isDir_cons (fs : FileSystem N) (name : N) (dir : List N) :
    fs.isDir (name :: dir) = true ↔
      ∃ node, fs.get (name :: dir) = some node ∧ node.ftype = .directory := by
  simp [isDir, Option.any_eq_true]

theorem get_parent (fs : FileSystem N) {name : N} {dir : List N}
    (present : (fs.get (name :: dir)).isSome) : fs.isDir dir = true := by
  obtain rfl | ⟨node, found, ftype⟩ := fs.rooted name dir present
  · rfl
  · cases dir with
    | nil => rfl
    | cons => exact (fs.isDir_cons _ _).mpr ⟨node, found, ftype⟩

theorem childless_iff (fs : FileSystem N) (path : List N) :
    fs.childless path = true ↔ ∀ name, fs.get (name :: path) = none := by
  simp only [childless, List.all_eq_true]
  constructor
  · intro all name
    by_contra present
    have member : name :: path ∈ fs.entries.keys :=
      AList.mem_keys.mp (AList.lookup_isSome.mp (Option.isSome_iff_ne_none.mpr present))
    simpa using all _ member
  · rintro none (_ | ⟨name, dir⟩) member
    · rfl
    · simp only [bne_iff_ne, ne_eq]
      rintro rfl
      exact absurd (AList.lookup_isSome.mpr (AList.mem_keys.mpr member))
        (by simpa [get] using none name)

/-- Put an entry into a directory, over anything that is not a directory. -/
def put (fs : FileSystem N) (name : N) (dir : List N) (node : Node) (parent : fs.isDir dir = true)
    (replaces : ∀ old, fs.get (name :: dir) = some old → old.ftype ≠ .directory) :
    FileSystem N where
  entries := fs.entries.insert (name :: dir) node
  unsynced := (name :: dir) :: fs.unsynced
  rooted := by
    intro name' dir' present
    by_cases inside : dir' = name :: dir
    · subst inside
      have longer : name' :: name :: dir ≠ name :: dir := fun same => by simpa using congrArg List.length same
      rw [AList.lookup_insert_ne longer] at present
      obtain empty | ⟨old, found, ftype⟩ := fs.rooted _ _ present
      · cases empty
      · exact absurd ftype (replaces old found)
    · rw [AList.lookup_insert_ne inside]
      by_cases same : name' :: dir' = name :: dir
      · obtain ⟨rfl, rfl⟩ := List.cons.inj same
        cases dir' with
        | nil => exact .inl rfl
        | cons => exact .inr ((fs.isDir_cons _ _).mp parent)
      · rw [AList.lookup_insert_ne same] at present
        exact fs.rooted _ _ present

/-- Remove an entry that has nothing in it. -/
def drop (fs : FileSystem N) (path : List N) (leaf : ∀ name, fs.get (name :: path) = none) :
    FileSystem N where
  entries := fs.entries.erase path
  unsynced := fs.unsynced.filter (· ≠ path)
  rooted := by
    intro name dir present
    have kept : name :: dir ≠ path := by
      rintro rfl
      simp [AList.lookup_erase] at present
    rw [AList.lookup_erase_ne kept] at present
    have outside : dir ≠ path := by
      rintro rfl
      simp [get] at leaf
      simp [leaf name] at present
    rw [AList.lookup_erase_ne outside]
    exact fs.rooted _ _ present

@[simp] theorem get_put (fs : FileSystem N) (name : N) (dir : List N) (node : Node) (parent)
    (replaces) : (fs.put name dir node parent replaces).get =
      Function.update fs.get (name :: dir) (some node) := by
  funext path
  by_cases same : path = name :: dir
  · subst same; simp [get, put]
  · rw [Function.update_of_ne same]
    exact AList.lookup_insert_ne same

@[simp] theorem get_drop (fs : FileSystem N) (path : List N) (leaf) :
    (fs.drop path leaf).get = Function.update fs.get path none := by
  funext other
  by_cases same : other = path
  · subst same; simp [get, drop, AList.lookup_erase]
  · rw [Function.update_of_ne same]
    exact AList.lookup_erase_ne same

theorem leaf_of_file (fs : FileSystem N) {name : N} {dir : List N} {node : Node}
    (found : fs.get (name :: dir) = some node) (file : node.ftype ≠ .directory) (child : N) :
    fs.get (child :: name :: dir) = none := by
  by_contra present
  obtain ⟨other, located, ftype⟩ := (fs.isDir_cons _ _).mp
    (fs.get_parent (Option.isSome_iff_ne_none.mpr present))
  rw [found] at located
  exact file (Option.some.inj located ▸ ftype)

/-- Change a regular file in place; its entry is as durable as before. -/
def replace (fs : FileSystem N) (name : N) (dir : List N) (node : Node) {old : Node}
    (found : fs.get (name :: dir) = some old) (file : old.ftype = .regular) : FileSystem N :=
  { fs.put name dir node (fs.get_parent (by rw [found]; rfl))
      (fun other same => by rw [← Option.some.inj (found.symm.trans same), file]; decide) with
    unsynced := fs.unsynced }

@[simp] theorem get_replace (fs : FileSystem N) (name : N) (dir : List N) (node : Node) {old : Node}
    (found : fs.get (name :: dir) = some old) (file : old.ftype = .regular) :
    (fs.replace name dir node found file).get =
      Function.update fs.get (name :: dir) (some node) :=
  fs.get_put name dir node (fs.get_parent (by rw [found]; rfl))
    (fun other same => by rw [← Option.some.inj (found.symm.trans same), file]; decide)

def create (fs : FileSystem N) (node : Node) : List N → Io Unit × FileSystem N
  | [] => (.error .alreadyExists, fs)
  | name :: dir =>
    if absent : fs.get (name :: dir) = none then
      if parent : fs.isDir dir = true then
        (.ok (), fs.put name dir node parent (by simp [absent]))
      else (.error .notFound, fs)
    else (.error .alreadyExists, fs)

def mkdir (fs : FileSystem N) (path : List N) : Io Unit × FileSystem N :=
  fs.create ⟨.directory, 0o700, []⟩ path

/-- `open` with `O_CREAT | O_EXCL` and mode `0o600`. -/
def createNew (fs : FileSystem N) (path : List N) : Io Unit × FileSystem N :=
  fs.create ⟨.regular, 0o600, []⟩ path

/-- A second name for a regular file; refused when `target` exists. -/
def hardLink (fs : FileSystem N) (source target : List N) : Io Unit × FileSystem N :=
  match fs.get source with
  | none => (.error .notFound, fs)
  | some node =>
    if node.ftype = .regular then fs.create node target else (.error .permissionDenied, fs)

/-- Replace the contents of a regular file through its open descriptor. -/
def write (fs : FileSystem N) (data : List UInt8) : List N → Io Unit × FileSystem N
  | [] => (.error .isADirectory, fs)
  | name :: dir =>
    match found : fs.get (name :: dir) with
    | none => (.error .notFound, fs)
    | some node =>
      if file : node.ftype = .regular then
        (.ok (), fs.replace name dir { node with data } found file)
      else (.error .isADirectory, fs)

def removeFile (fs : FileSystem N) : List N → Io Unit × FileSystem N
  | [] => (.error .isADirectory, fs)
  | name :: dir =>
    match found : fs.get (name :: dir) with
    | none => (.error .notFound, fs)
    | some node =>
      if file : node.ftype = .directory then (.error .isADirectory, fs)
      else (.ok (), fs.drop (name :: dir) (fs.leaf_of_file found file))

/-- Move a regular file over `target`, which is missing or no directory. -/
def rename (fs : FileSystem N) (source target : List N) : Io Unit × FileSystem N :=
  match fs.get source, target with
  | none, _ => (.error .notFound, fs)
  | some _, [] => (.error .isADirectory, fs)
  | some node, name :: dir =>
    if node.ftype = .regular then
      if parent : fs.isDir dir = true then
        if free : ∀ old, fs.get (name :: dir) = some old → old.ftype ≠ .directory then
          if source = name :: dir then (.ok (), fs)
          else (.ok (), ((fs.put name dir node parent free).removeFile source).2)
        else (.error .isADirectory, fs)
      else (.error .notFound, fs)
    else (.error .isADirectory, fs)

/-- Remove one entry below `root`, a file or an emptied directory. The choice of
the entry is the caller's; an entry that cannot be removed now is no choice. -/
def removeEntry (fs : FileSystem N) (root path : List N) : Option (FileSystem N) :=
  if root <:+ path ∧ (fs.get path).isSome then
    if leaf : fs.childless path = true then
      some (fs.drop path ((fs.childless_iff path).mp leaf))
    else none
  else none

/-- The entries at and below `root`. -/
def below (fs : FileSystem N) (root : List N) : List (List N) :=
  fs.entries.keys.filter fun path => decide (root <:+ path)

def syncDir (fs : FileSystem N) (dir : List N) : Io Unit × FileSystem N :=
  if fs.isDir dir then
    (.ok (), { fs with unsynced := fs.unsynced.filter fun path => path.tail ≠ dir })
  else (.error .notFound, fs)

def readDir (fs : FileSystem N) (dir : List N) : Io (List (List N)) :=
  if fs.isDir dir then
    .ok (fs.entries.keys.filter fun
      | [] => false
      | _ :: parent => parent = dir)
  else .error .notFound

/-- `open` without following a final symbolic link, then metadata and contents. -/
def openRead (fs : FileSystem N) (path : List N) : Io (Metadata × List UInt8) :=
  match fs.get path with
  | none => .error .notFound
  | some node =>
    if node.ftype = .symlink then .error .other else .ok (node.metadata, node.data)

/-- `lstat`. -/
def symlinkMetadata (fs : FileSystem N) (path : List N) : Io Metadata :=
  match fs.get path with
  | none => .error .notFound
  | some node => .ok node.metadata

/-- `stat`, where symbolic links lead nowhere. -/
def stat (fs : FileSystem N) (path : List N) : Option Metadata :=
  (fs.get path).bind fun node =>
    if node.ftype = .symlink then none else some node.metadata

/-- An entry that a power loss cannot take away any more. -/
def Durable (fs : FileSystem N) (path : List N) : Prop :=
  (fs.get path).isSome ∧ path ∉ fs.unsynced

theorem create_spec (fs : FileSystem N) (node : Node) (name : N) (dir : List N) :
    (fs.get (name :: dir) = none ∧ fs.isDir dir = true ∧ ∃ fs',
      fs.create node (name :: dir) = (.ok (), fs') ∧
      fs'.unsynced = (name :: dir) :: fs.unsynced ∧
      fs'.get = Function.update fs.get (name :: dir) (some node)) ∨
    (fs.get (name :: dir) ≠ none ∧ fs.create node (name :: dir) = (.error .alreadyExists, fs)) ∨
    (fs.isDir dir = false ∧ fs.create node (name :: dir) = (.error .notFound, fs)) := by
  simp only [create]
  by_cases absent : fs.get (name :: dir) = none
  · by_cases parent : fs.isDir dir = true
    · exact .inl ⟨absent, parent, _, (dif_pos absent).trans (dif_pos parent), rfl, get_put ..⟩
    · exact .inr (.inr ⟨by simpa using parent, (dif_pos absent).trans (dif_neg parent)⟩)
  · exact .inr (.inl ⟨absent, dif_neg absent⟩)

theorem write_spec (fs : FileSystem N) (data : List UInt8) (name : N) (dir : List N) :
    (∃ node fs', fs.get (name :: dir) = some node ∧ node.ftype = .regular ∧
      fs.write data (name :: dir) = (.ok (), fs') ∧ fs'.unsynced = fs.unsynced ∧
      fs'.get = Function.update fs.get (name :: dir) (some { node with data })) ∨
    ((∀ node, fs.get (name :: dir) = some node → node.ftype ≠ .regular) ∧
      ∃ kind, fs.write data (name :: dir) = (.error kind, fs)) := by
  simp only [write]
  split
  · next missing => exact .inr ⟨by simp [missing], _, rfl⟩
  · next node found =>
    by_cases file : node.ftype = .regular
    · exact .inl ⟨node, _, found, file, dif_pos file, rfl, get_replace ..⟩
    · refine .inr ⟨?_, _, dif_neg file⟩
      rintro other located
      rwa [← Option.some.inj (found.symm.trans located)]

theorem removeFile_spec (fs : FileSystem N) (name : N) (dir : List N) :
    (∃ node fs', fs.get (name :: dir) = some node ∧ node.ftype ≠ .directory ∧
      fs.removeFile (name :: dir) = (.ok (), fs') ∧
      fs'.unsynced = fs.unsynced.filter (· ≠ name :: dir) ∧
      fs'.get = Function.update fs.get (name :: dir) none) ∨
    ((∀ node, fs.get (name :: dir) = some node → node.ftype = .directory) ∧
      ∃ kind, fs.removeFile (name :: dir) = (.error kind, fs)) := by
  simp only [removeFile]
  split
  · next missing => exact .inr ⟨by simp [missing], _, rfl⟩
  · next node found =>
    by_cases file : node.ftype = .directory
    · refine .inr ⟨?_, _, dif_pos file⟩
      rintro other located
      rwa [← Option.some.inj (found.symm.trans located)]
    · exact .inl ⟨node, _, found, file, dif_neg file, rfl, get_drop ..⟩

theorem hardLink_spec (fs : FileSystem N) (source : List N) (name : N) (dir : List N) :
    (∃ node fs', fs.get source = some node ∧ node.ftype = .regular ∧
      fs.get (name :: dir) = none ∧ fs.isDir dir = true ∧
      fs.hardLink source (name :: dir) = (.ok (), fs') ∧
      fs'.unsynced = (name :: dir) :: fs.unsynced ∧
      fs'.get = Function.update fs.get (name :: dir) (some node)) ∨
    (∃ kind, ((∃ node, fs.get source = some node ∧ node.ftype = .regular) →
        fs.get (name :: dir) ≠ none ∨ fs.isDir dir = false) ∧
      fs.hardLink source (name :: dir) = (.error kind, fs)) := by
  simp only [hardLink]
  split
  · next missing => exact .inr ⟨_, by simp [missing], rfl⟩
  · next node found =>
    by_cases file : node.ftype = .regular
    · rw [if_pos file]
      obtain ⟨absent, parent, fs', done, unsynced, get⟩ | ⟨present, failed⟩ | ⟨orphan, failed⟩ :=
        fs.create_spec node name dir
      · exact .inl ⟨node, fs', found, file, absent, parent, done, unsynced, get⟩
      · exact .inr ⟨_, fun _ => .inl present, failed⟩
      · exact .inr ⟨_, fun _ => .inr orphan, failed⟩
    · refine .inr ⟨_, ?_, if_neg file⟩
      rintro ⟨other, located, regular⟩
      exact absurd (Option.some.inj (found.symm.trans located) ▸ regular) file

/-- A rename between two different names of regular files puts the file at its
new name, over no directory, and takes the old name away. -/
theorem rename_spec (fs : FileSystem N) (sourceName : N) (sourceDir : List N) (name : N)
    (dir : List N) (apart : sourceName :: sourceDir ≠ name :: dir) :
    (∃ node middle fs', fs.get (sourceName :: sourceDir) = some node ∧ node.ftype = .regular ∧
      (∀ old, fs.get (name :: dir) = some old → old.ftype ≠ .directory) ∧
      fs.rename (sourceName :: sourceDir) (name :: dir) = (.ok (), fs') ∧
      fs'.unsynced = ((name :: dir) :: fs.unsynced).filter (· ≠ sourceName :: sourceDir) ∧
      FileSystem.get middle = Function.update fs.get (name :: dir) (some node) ∧
      fs'.get = Function.update middle.get (sourceName :: sourceDir) none) ∨
    (((∀ node, fs.get (sourceName :: sourceDir) = some node → node.ftype ≠ .regular) ∨
      fs.isDir dir = false ∨
      ∃ old, fs.get (name :: dir) = some old ∧ old.ftype = .directory) ∧
      ∃ kind, fs.rename (sourceName :: sourceDir) (name :: dir) = (.error kind, fs)) := by
  simp only [rename]
  split
  · next missing => exact .inr ⟨.inl (by simp [missing]), _, rfl⟩
  · next empty => cases empty
  · next node name' dir' found same =>
    obtain ⟨rfl, rfl⟩ := List.cons.inj same
    by_cases file : node.ftype = .regular
    · by_cases parent : fs.isDir dir = true
      · by_cases free : ∀ old, fs.get (name :: dir) = some old → old.ftype ≠ .directory
        · have moved : (fs.put name dir node parent free).get (sourceName :: sourceDir) =
              some node := by rw [get_put, Function.update_of_ne apart, found]
          obtain ⟨_, fs', _, _, removed, unsynced, get⟩ | ⟨directory, _⟩ :=
            (fs.put name dir node parent free).removeFile_spec sourceName sourceDir
          · refine .inl ⟨node, fs.put name dir node parent free, fs', found, file, free, ?_,
              unsynced, get_put .., get⟩
            rw [if_pos file, dif_pos parent, dif_pos free, if_neg apart, removed]
          · rw [directory node moved] at file
            cases file
        · refine .inr ⟨.inr (.inr ?_), .isADirectory, ?_⟩
          · push Not at free
            exact free
          · rw [if_pos file, dif_pos parent, dif_neg free]
      · refine .inr ⟨.inr (.inl (by simpa using parent)), .notFound, ?_⟩
        rw [if_pos file, dif_neg parent]
    · refine .inr ⟨.inl ?_, _, if_neg file⟩
      rintro other located
      rwa [← Option.some.inj (found.symm.trans located)]

theorem rename_self (fs : FileSystem N) {name : N} {dir : List N} {node : Node}
    (found : fs.get (name :: dir) = some node) (file : node.ftype = .regular) :
    fs.rename (name :: dir) (name :: dir) = (.ok (), fs) := by
  have parent : fs.isDir dir = true := fs.get_parent (by rw [found]; rfl)
  have free : ∀ old, fs.get (name :: dir) = some old → old.ftype ≠ .directory := by
    intro old there
    rw [← Option.some.inj (found.symm.trans there), file]
    decide
  simp only [rename, found]
  rw [if_pos file, dif_pos parent, dif_pos (found ▸ free), if_pos trivial]

theorem get_removeFile_of_ne (fs : FileSystem N) {path other : List N} (apart : other ≠ path) :
    (fs.removeFile path).2.get other = fs.get other := by
  cases path with
  | nil => rfl
  | cons name dir =>
    obtain ⟨_, fs', _, _, removed, _, get⟩ | ⟨_, kind, failed⟩ := fs.removeFile_spec name dir
    · rw [removed, get, Function.update_of_ne apart]
    · rw [failed]

section
variable {before : List N → Option Node} {tmp : List N} {node : Node} (fs : FileSystem N)
  (named : tmp ≠ []) (get : fs.get = Function.update before tmp (some node))
include named get

theorem write_fresh (file : node.ftype = .regular) (data : List UInt8) :
    ∃ fs', fs.write data tmp = (.ok (), fs') ∧
      fs'.get = Function.update before tmp (some { node with data }) := by
  obtain ⟨name, dir, rfl⟩ := List.exists_cons_of_ne_nil named
  have there : fs.get (name :: dir) = some node := by rw [get, Function.update_self]
  obtain ⟨found, fs', located, _, wrote, _, changed⟩ | ⟨irregular, _⟩ := fs.write_spec data name dir
  · cases located.symm.trans there
    exact ⟨fs', wrote, by rw [changed, get, Function.update_idem]⟩
  · exact absurd file (irregular node there)

theorem removeFile_fresh (absent : before tmp = none) (file : node.ftype ≠ .directory) :
    ∃ fs', fs.removeFile tmp = (.ok (), fs') ∧ fs'.get = before := by
  obtain ⟨name, dir, rfl⟩ := List.exists_cons_of_ne_nil named
  have there : fs.get (name :: dir) = some node := by rw [get, Function.update_self]
  obtain ⟨_, fs', _, _, removed, _, changed⟩ | ⟨directory, _⟩ := fs.removeFile_spec name dir
  · refine ⟨fs', removed, ?_⟩
    rw [changed, get, Function.update_idem, ← absent, Function.update_eq_self]
  · exact absurd (directory node there) file

theorem rename_fresh (absent : before tmp = none) (file : node.ftype = .regular) (target : List N) :
    (∃ fs', fs.rename tmp target = (.ok (), fs') ∧
      fs'.get = Function.update before target (some node)) ∨
    (∃ kind, fs.rename tmp target = (.error kind, fs)) ∧ (target = [] ∨
      fs.isDir target.tail = false ∨ ∃ old, before target = some old ∧ old.ftype = .directory) := by
  obtain ⟨name, dir, rfl⟩ := List.exists_cons_of_ne_nil named
  have there : fs.get (name :: dir) = some node := by rw [get, Function.update_self]
  by_cases same : name :: dir = target
  · subst same
    exact .inl ⟨fs, fs.rename_self there file, get⟩
  · cases target with
    | nil => exact .inr ⟨⟨.isADirectory, by simp only [rename, there]⟩, .inl rfl⟩
    | cons targetName targetDir =>
      obtain ⟨moved, middle, fs', located, _, _, renamed, _, put, gone⟩ | ⟨reason, failed⟩ :=
        fs.rename_spec name dir targetName targetDir same
      · refine .inl ⟨fs', renamed, ?_⟩
        cases located.symm.trans there
        rw [gone, put, get, Function.update_comm same, Function.update_idem,
          Function.update_comm (Ne.symm same), ← absent, Function.update_eq_self]
      · refine .inr ⟨failed, .inr ?_⟩
        obtain irregular | orphan | ⟨old, found, directory⟩ := reason
        · exact absurd file (irregular node there)
        · exact .inl orphan
        · rw [get, Function.update_of_ne (Ne.symm same)] at found
          exact .inr ⟨old, found, directory⟩

end

theorem rename_present {fs : FileSystem N} {source target : List N}
    (renamed : (fs.rename source target).1 = .ok ()) :
    ((fs.rename source target).2.get target).isSome = true := by
  cases found : fs.get source with
  | none => simp [rename, found] at renamed
  | some node =>
    cases target with
    | nil => simp [rename, found] at renamed
    | cons name dir =>
      simp only [rename, found] at renamed ⊢
      split_ifs at renamed ⊢ with regular parent free same
      · rw [← same, found]
        rfl
      · rw [get_removeFile_of_ne _ (Ne.symm same), get_put, Function.update_self]
        rfl

theorem removeEntry_spec {fs fs' : FileSystem N} {root path : List N}
    (removed : fs.removeEntry root path = some fs') :
    root <:+ path ∧ (fs.get path).isSome ∧ fs'.get = Function.update fs.get path none ∧
      fs'.unsynced = fs.unsynced.filter (· ≠ path) := by
  unfold removeEntry at removed
  split at removed
  · next inside =>
    split at removed
    · cases removed
      exact ⟨inside.1, inside.2, get_drop .., rfl⟩
    · cases removed
  · cases removed

theorem mem_below (fs : FileSystem N) (root path : List N) :
    path ∈ fs.below root ↔ root <:+ path ∧ (fs.get path).isSome := by
  simp only [below, List.mem_filter, decide_eq_true_eq, get, AList.lookup_isSome, AList.mem_keys]
  exact and_comm

theorem below_nodup (fs : FileSystem N) (root : List N) : (fs.below root).Nodup :=
  fs.entries.keys_nodup.filter _

theorem length_below_removeEntry {fs fs' : FileSystem N} {root path : List N}
    (removed : fs.removeEntry root path = some fs') :
    (fs'.below root).length + 1 = (fs.below root).length := by
  obtain ⟨inside, present, get, _⟩ := removeEntry_spec removed
  have gone : path ∉ fs'.below root := by simp [mem_below, get]
  have perm : (path :: fs'.below root).Perm (fs.below root) := by
    refine (List.perm_ext_iff_of_nodup (List.nodup_cons.mpr ⟨gone, fs'.below_nodup root⟩)
      (fs.below_nodup root)).mpr fun other => ?_
    simp only [List.mem_cons, mem_below, get]
    by_cases same : other = path
    · subst same
      simp [inside, present]
    · simp [same]
  simpa using perm.length_eq

/-- What has something below it is a directory. -/
theorem isDir_of_below (fs : FileSystem N) {root path : List N} (inside : root <:+ path)
    (apart : path ≠ root) (present : (fs.get path).isSome) : fs.isDir root = true := by
  obtain ⟨front, rfl⟩ := inside
  induction front with
  | nil => exact absurd rfl apart
  | cons name front ih =>
    have parent : fs.isDir (front ++ root) = true := fs.get_parent present
    cases front with
    | nil => exact parent
    | cons next front =>
      obtain ⟨node, found, _⟩ := (fs.isDir_cons next (front ++ root)).mp parent
      refine ih (fun same => ?_) (by rw [List.cons_append, found]; rfl)
      have longer := congrArg List.length same
      simp only [List.length_append, List.length_cons] at longer
      omega

/-- Something can always be removed below `root`: a longest path has nothing in it. -/
theorem exists_removeEntry (fs : FileSystem N) (root : List N) (left : fs.below root ≠ []) :
    ∃ path fs', fs.removeEntry root path = some fs' := by
  obtain ⟨path, longest⟩ : ∃ path, path ∈ (fs.below root).argmax List.length := by
    obtain ⟨first, rest, listed⟩ := List.exists_cons_of_ne_nil left
    rw [listed]
    exact Option.ne_none_iff_exists'.mp (by simp [List.argmax_eq_none])
  have inside := (fs.mem_below root path).mp (List.argmax_mem longest)
  have leaf : fs.childless path = true := by
    rw [childless_iff]
    intro name
    by_contra present
    have member : name :: path ∈ fs.below root := (fs.mem_below root _).mpr
      ⟨inside.1.trans (List.suffix_cons name path), Option.isSome_iff_ne_none.mpr present⟩
    have bound := List.le_of_mem_argmax member longest
    simp only [List.length_cons] at bound
    omega
  exact ⟨path, _, (if_pos inside).trans (dif_pos leaf)⟩

theorem mem_readDir {fs : FileSystem N} {dir : List N} {paths : List (List N)}
    (listed : fs.readDir dir = .ok paths) (path : List N) :
    path ∈ paths ↔ (fs.get path).isSome ∧ ∃ name, path = name :: dir := by
  unfold readDir at listed
  split at listed
  · cases listed
    simp only [List.mem_filter, get, AList.lookup_isSome, AList.mem_keys]
    cases path <;> simp
  · cases listed

theorem readDir_nodup {fs : FileSystem N} {dir : List N} {paths : List (List N)}
    (listed : fs.readDir dir = .ok paths) : paths.Nodup := by
  unfold readDir at listed
  split at listed
  · cases listed
    exact fs.entries.keys_nodup.filter _
  · cases listed

/-- A directory whose own directory has not been synced since it was made. -/
def Volatile (fs : FileSystem N) (dir : List N) : Prop :=
  (∃ node, fs.get dir = some node ∧ node.ftype = .directory) ∧ dir ∈ fs.unsynced

theorem Volatile.not_durable {fs : FileSystem N} {dir : List N} (volatile : fs.Volatile dir) :
    ¬ fs.Durable dir := fun durable => durable.2 volatile.2

/-- A change in one place that is no directory leaves it so. -/
theorem Volatile.update {fs fs' : FileSystem N} {dir path : List N} {node : Option Node}
    (volatile : fs.Volatile dir) (get : fs'.get = Function.update fs.get path node)
    (file : ∀ old, fs.get path = some old → old.ftype ≠ .directory)
    (kept : ∀ other ∈ fs.unsynced, other ≠ path → other ∈ fs'.unsynced) : fs'.Volatile dir := by
  obtain ⟨⟨found, there, directory⟩, unsynced⟩ := volatile
  have apart : dir ≠ path := by
    rintro rfl
    exact file found there directory
  exact ⟨⟨found, by rw [get, Function.update_of_ne apart, there], directory⟩, kept dir unsynced apart⟩

section
variable {fs : FileSystem N} {dir : List N} (volatile : fs.Volatile dir)
include volatile

theorem Volatile.create (node : Node) (path : List N) : (fs.create node path).2.Volatile dir := by
  cases path with
  | nil => exact volatile
  | cons name parent =>
    obtain ⟨absent, _, fs', made, unsynced, get⟩ | ⟨_, failed⟩ | ⟨_, failed⟩ :=
      fs.create_spec node name parent
    · rw [made]
      exact volatile.update get (by simp [absent]) fun other member _ => by simp [unsynced, member]
    all_goals rw [failed]; exact volatile

theorem Volatile.hardLink (source target : List N) : (fs.hardLink source target).2.Volatile dir := by
  unfold FileSystem.hardLink
  split
  · exact volatile
  · split
    · exact volatile.create _ _
    · exact volatile

theorem Volatile.write (data : List UInt8) (path : List N) : (fs.write data path).2.Volatile dir := by
  cases path with
  | nil => exact volatile
  | cons name parent =>
    obtain ⟨node, fs', found, regular, wrote, unsynced, get⟩ | ⟨_, kind, failed⟩ :=
      fs.write_spec data name parent
    · rw [wrote]
      refine volatile.update get (fun old there => ?_) fun other member _ => by rwa [unsynced]
      rw [← Option.some.inj (found.symm.trans there), regular]
      decide
    · rw [failed]
      exact volatile

theorem Volatile.removeFile (path : List N) : (fs.removeFile path).2.Volatile dir := by
  cases path with
  | nil => exact volatile
  | cons name parent =>
    obtain ⟨node, fs', found, file, removed, unsynced, get⟩ | ⟨_, kind, failed⟩ :=
      fs.removeFile_spec name parent
    · rw [removed]
      refine volatile.update get (fun old there => ?_) fun other member apart => ?_
      · rwa [← Option.some.inj (found.symm.trans there)]
      · simp [unsynced, member, apart]
    · rw [failed]
      exact volatile

theorem Volatile.rename (source target : List N) : (fs.rename source target).2.Volatile dir := by
  unfold FileSystem.rename
  split
  · exact volatile
  · exact volatile
  · next node name parent found =>
    split
    · split
      · next directory =>
        split
        · next free =>
          split
          · exact volatile
          · have put : (fs.put name parent node directory free).Volatile dir :=
              volatile.update (get_put ..) free fun other member _ => List.mem_cons_of_mem _ member
            exact put.removeFile source
        · exact volatile
      · exact volatile
    · exact volatile

theorem Volatile.syncDir {synced : List N} (apart : dir.tail ≠ synced) :
    (fs.syncDir synced).2.Volatile dir := by
  unfold FileSystem.syncDir
  split
  · exact ⟨volatile.1, List.mem_filter.mpr ⟨volatile.2, by simpa using apart⟩⟩
  · exact volatile

end

end FileSystem
end Lithium.Storage
