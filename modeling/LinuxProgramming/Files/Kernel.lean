import LinuxProgramming.Library.FileTree
import LinuxProgramming.Library.Pathname

/-!
Contract: the system calls the file-system programs make, and the kernel of a
process on a finite tree of files.

Owns:
- the interface `Kernel`, over any kernel state, with every call free to fail;
- `FileSystem`: a tree with valid names, an inode for every file and the order
  in which `readdir` delivers entries;
- pathname resolution and the kernel `treeKernel` of one process.

Does not own: the programs.
-/

namespace LinuxProgramming.Files

open LinuxProgramming.Library

/-- The bytes of a C string before its terminator. -/
abbrev CString := List UInt8

def slash : UInt8 := 47

/-- The name `"."`. -/
def dot : CString := [46]

/-- The name `".."`. -/
def dotDot : CString := [46, 46]

def NAME_MAX : Nat := 255

def PATH_MAX : Nat := 4096

inductive Errno where
  | enoent
  | enotdir
  | enametoolong
  | einval
  | erange
  | eloop
  | other (code : Nat)
deriving DecidableEq, Repr

structure Inode where
  st_dev : Nat
  st_ino : Nat
deriving DecidableEq, Repr

inductive FileType where
  | directory
  | symbolicLink
  | other
deriving DecidableEq, Repr

/-- What the programs read of a `struct stat`. -/
structure Stat where
  inode : Inode
  st_mode : FileType
deriving DecidableEq, Repr

/-- What `readdir` returns: an entry and the advanced stream, the end, or a
failure that sets `errno`. -/
inductive DirEntry (S : Type) where
  | entry (d_name : CString) (stream : S)
  | last
  | failed

/-- The system calls, over kernel states `W` and directory streams `S`. `stat` and
`lstat` return `errno` if they fail, and what the buffer holds afterwards. -/
structure Kernel (W S : Type) where
  stat : CString → W → (Option Errno × Stat) × W
  lstat : CString → W → (Option Errno × Stat) × W
  readlink : CString → W → Except Errno CString × W
  opendir : CString → W → Option S × W
  readdir : S → W → DirEntry S × W
  closedir : Option S → W → Bool × W
  getcwd : Nat → W → Option CString × W
  openFile : CString → W → Option Nat × W
  chdir : CString → W → Bool × W
  fchdir : Nat → W → Bool × W
  close : Nat → W → Bool × W

/-! ### Trees of files -/

/-- A file that is no directory; symbolic links have a target. -/
structure Leaf where
  inode : Inode
  target : Option CString
deriving DecidableEq, Repr

abbrev Tree := FileTree CString Inode Leaf

/-- What an entry may be called. -/
structure ValidName (name : CString) : Prop where
  notEmpty : name ≠ []
  noSlash : slash ∉ name
  noTerminator : (0 : UInt8) ∉ name
  notDot : name ≠ dot
  notDotDot : name ≠ dotDot
  fits : name.length ≤ NAME_MAX

structure FileSystem where
  tree : Tree
  rootIsDir : tree.IsDir
  distinct : ∀ position info entries, tree.at? position = some (.dir info entries) →
    (entries.map Prod.fst).Nodup
  valid : ∀ position info entries, tree.at? position = some (.dir info entries) →
    ∀ entry ∈ entries, ValidName entry.1
  /-- What `readdir` delivers: the entries of a directory in the order in which they
  stand in the tree, which is any order, with `.` and `..` anywhere among them. -/
  order : Position CString → List CString
  order_names : ∀ position info entries, tree.at? position = some (.dir info entries) →
    (order position).filter (fun name => name ≠ dot ∧ name ≠ dotDot) = entries.map Prod.fst

section Entries

variable (fs : FileSystem) {position : Position CString} {info : Inode}
  {entries : List (CString × Tree)} {name : CString}

theorem FileSystem.mem_names_iff (located : fs.tree.at? position = some (.dir info entries)) :
    name ∈ entries.map Prod.fst ↔ name ∈ fs.order position ∧ name ≠ dot ∧ name ≠ dotDot := by
  rw [← fs.order_names position info entries located, List.mem_filter, decide_eq_true_eq]

theorem FileSystem.validName (located : fs.tree.at? position = some (.dir info entries))
    (member : name ∈ entries.map Prod.fst) : ValidName name := by
  obtain ⟨entry, stored, rfl⟩ := List.mem_map.mp member
  exact fs.valid position info entries located entry stored

end Entries

instance (name : CString) : Decidable (ValidName name) :=
  decidable_of_iff
    (name ≠ [] ∧ slash ∉ name ∧ (0 : UInt8) ∉ name ∧ name ≠ dot ∧ name ≠ dotDot ∧
      name.length ≤ NAME_MAX)
    ⟨fun ⟨notEmpty, noSlash, noTerminator, notDot, notDotDot, fits⟩ =>
      ⟨notEmpty, noSlash, noTerminator, notDot, notDotDot, fits⟩,
    fun valid => ⟨valid.notEmpty, valid.noSlash, valid.noTerminator, valid.notDot,
      valid.notDotDot, valid.fits⟩⟩

mutual

/-- Every directory of the tree has distinct, valid names. -/
def wellNamed : Tree → Bool
  | .leaf _ => true
  | .dir _ entries =>
      decide (entries.map Prod.fst).Nodup &&
        decide (∀ name ∈ entries.map Prod.fst, ValidName name) && wellNamedEntries entries

def wellNamedEntries : List (CString × Tree) → Bool
  | [] => true
  | (_, child) :: rest => wellNamed child && wellNamedEntries rest

end

theorem wellNamed_of_mem {entries : List (CString × Tree)}
    (good : wellNamedEntries entries = true) {entry : CString × Tree} (member : entry ∈ entries) :
    wellNamed entry.2 = true := by
  induction entries with
  | nil => cases member
  | cons first rest inductionHypothesis =>
      simp only [wellNamedEntries, Bool.and_eq_true] at good
      rcases List.mem_cons.mp member with rfl | later
      · exact good.1
      · exact inductionHypothesis good.2 later

theorem wellNamed_at? {tree : Tree} (good : wellNamed tree = true)
    {position : Position CString} {found : Tree} (located : tree.at? position = some found) :
    wellNamed found = true := by
  induction position generalizing found with
  | nil =>
      cases located
      exact good
  | cons name parent inductionHypothesis =>
      obtain ⟨above, aboveAt, child, isDir⟩ := FileTree.exists_parent located
      cases above with
      | leaf content => cases isDir
      | dir info entries =>
          have aboveGood := inductionHypothesis aboveAt
          simp only [wellNamed, Bool.and_eq_true] at aboveGood
          obtain ⟨entry, foundEntry, rfl⟩ := Option.map_eq_some_iff.mp child
          exact wellNamed_of_mem aboveGood.2 (List.mem_of_find?_eq_some foundEntry)

/-- The file system of a well-named tree whose `readdir` delivers `.` and `..`
first. -/
def FileSystem.ofTree (tree : Tree) (rootIsDir : tree.IsDir) (good : wellNamed tree = true) :
    FileSystem where
  tree := tree
  rootIsDir := rootIsDir
  distinct := by
    intro position info entries located
    have here := wellNamed_at? good located
    simp only [wellNamed, Bool.and_eq_true, decide_eq_true_eq] at here
    exact here.1.1
  valid := by
    intro position info entries located entry member
    have here := wellNamed_at? good located
    simp only [wellNamed, Bool.and_eq_true, decide_eq_true_eq] at here
    exact here.1.2 entry.1 (List.mem_map.mpr ⟨entry, member, rfl⟩)
  order position :=
    dot :: dotDot :: ((tree.at? position).map FileTree.names).getD []
  order_names := by
    intro position info entries located
    have here := wellNamed_at? good located
    simp only [wellNamed, Bool.and_eq_true, decide_eq_true_eq] at here
    rw [located, List.filter_cons_of_neg (by decide), List.filter_cons_of_neg (by decide)]
    apply List.filter_eq_self.mpr
    intro name member
    have valid := here.1.2 name member
    exact decide_eq_true ⟨valid.notDot, valid.notDotDot⟩

def inodeOf : Tree → Inode
  | .leaf content => content.inode
  | .dir info _ => info

def statOf : Tree → Stat
  | .leaf content =>
      ⟨content.inode, if content.target.isSome then .symbolicLink else .other⟩
  | .dir info _ => ⟨info, .directory⟩

theorem statOf_inode (file : Tree) : (statOf file).inode = inodeOf file := by
  cases file <;> rfl

def targetOf : Tree → Option CString
  | .leaf content => content.target
  | .dir _ _ => none

/-! ### Pathname resolution -/

namespace FileSystem

variable (fs : FileSystem)

/-- Follow the names from a position. A link on the way is handed to `expand`
with its target; one at the end only if `follow` is set. -/
def resolveFrom (expand : Position CString → List CString → Except Errno (Position CString))
    (follow : Bool) : Position CString → List CString → Except Errno (Position CString)
  | position, [] => .ok position
  | position, name :: rest =>
      match fs.tree.at? position with
      | none => .error .enoent
      | some (.leaf _) => .error .enotdir
      | some (.dir _ _) =>
          if name = dot then resolveFrom expand follow position rest
          else if name = dotDot then resolveFrom expand follow position.tail rest
          else
            match fs.tree.at? (name :: position) with
            | none => .error .enoent
            | some found =>
                match targetOf found with
                | none => resolveFrom expand follow (name :: position) rest
                | some target =>
                    if rest = [] ∧ follow = false then .ok (name :: position)
                    else
                      expand (if target.head? = some slash then [] else position)
                        (Pathname.pieces slash target ++ rest)

/-- Resolution that follows at most `links` links. -/
def resolve (follow : Bool) :
    Nat → Position CString → List CString → Except Errno (Position CString)
  | 0 => fs.resolveFrom (fun _ _ => .error .eloop) follow
  | links + 1 => fs.resolveFrom (resolve follow links) follow

/-- Where a pathname leads a process. -/
def lookup (follow : Bool) (cwd : Position CString) (pathname : CString) :
    Except Errno (Position CString) :=
  if pathname = [] then .error .enoent
  else if PATH_MAX ≤ pathname.length then .error .enametoolong
  else if ∃ name ∈ Pathname.pieces slash pathname, NAME_MAX < name.length then
    .error .enametoolong
  else
    fs.resolve (follow || pathname.getLast? = some slash) 40
      (if pathname.head? = some slash then [] else cwd) (Pathname.pieces slash pathname)

/-- The file a pathname leads to. A pathname that ends in a slash only leads to
directories. -/
def find (follow : Bool) (cwd : Position CString) (pathname : CString) :
    Except Errno (Position CString × Tree) := do
  let position ← fs.lookup follow cwd pathname
  match fs.tree.at? position with
  | none => .error .enoent
  | some found =>
      if pathname.getLast? = some slash ∧ ¬ found.IsDir then .error .enotdir
      else .ok (position, found)

end FileSystem

/-- The canonical pathname of a position. -/
def canonical (position : Position CString) : CString :=
  if position = [] then [slash] else position.reverse.flatMap fun name => slash :: name

/-! ### The kernel of one process -/

/-- The working directory, what each descriptor was opened for, and the number of
open directory streams. -/
structure Process where
  cwd : Position CString
  descriptors : List (Option (Position CString))
  streams : Nat
deriving DecidableEq, Repr

/-- All calls on a tree that nobody else changes; `leftover` is what a failing
`stat` leaves in the buffer. -/
def treeKernel (fs : FileSystem) (leftover : Stat) : Kernel Process (List CString) where
  stat pathname process :=
    match fs.find true process.cwd pathname with
    | .error errno => ((some errno, leftover), process)
    | .ok found => ((none, statOf found.2), process)
  lstat pathname process :=
    match fs.find false process.cwd pathname with
    | .error errno => ((some errno, leftover), process)
    | .ok found => ((none, statOf found.2), process)
  readlink pathname process :=
    match fs.find false process.cwd pathname with
    | .error errno => (.error errno, process)
    | .ok found =>
        match targetOf found.2 with
        | none => (.error .einval, process)
        | some target => (.ok target, process)
  opendir pathname process :=
    match fs.find true process.cwd pathname with
    | .error _ => (none, process)
    | .ok found =>
        if found.2.IsDir then
          (some (fs.order found.1), { process with streams := process.streams + 1 })
        else (none, process)
  readdir stream process :=
    match stream with
    | [] => (.last, process)
    | name :: rest => (.entry name rest, process)
  closedir stream process :=
    if stream.isSome then (true, { process with streams := process.streams - 1 })
    else (false, process)
  getcwd size process :=
    if (canonical process.cwd).length + 1 ≤ size then (some (canonical process.cwd), process)
    else (none, process)
  openFile pathname process :=
    match fs.find true process.cwd pathname with
    | .error _ => (none, process)
    | .ok found =>
        (some process.descriptors.length,
          { process with descriptors := process.descriptors ++ [some found.1] })
  chdir pathname process :=
    match fs.find true process.cwd pathname with
    | .error _ => (false, process)
    | .ok found =>
        if found.2.IsDir then (true, { process with cwd := found.1 }) else (false, process)
  fchdir fd process :=
    match (process.descriptors[fd]?).join with
    | none => (false, process)
    | some position => (true, { process with cwd := position })
  close fd process :=
    match (process.descriptors[fd]?).join with
    | none => (false, process)
    | some _ => (true, { process with descriptors := process.descriptors.set fd none })

/-! ### Programs -/

/-- Why a program does not return to its caller. -/
inductive Stop where
  | outOfFuel
  | overflow
  | exited
deriving DecidableEq, Repr

/-- A program over the kernel state. -/
abbrev Prog (W : Type) := StateT W (Except Stop)

def stop {W α : Type} (reason : Stop) : Prog W α := fun _ => .error reason

/-- A system call. -/
def call {W α : Type} (syscall : W → α × W) : Prog W α := fun world => .ok (syscall world)

section Evaluation

variable {W α β : Type} {world world' : W}

theorem bind_ok {program : Prog W α} {next : α → Prog W β} {result : α}
    (ran : program world = .ok (result, world')) :
    (program >>= next) world = next result world' := by
  show (program world).bind _ = _
  rw [ran]
  rfl

theorem bind_error {program : Prog W α} {next : α → Prog W β} {reason : Stop}
    (stopped : program world = .error reason) : (program >>= next) world = .error reason := by
  show (program world).bind _ = _
  rw [stopped]
  rfl

theorem call_bind {syscall : W → α × W} {result : α} (next : α → Prog W β)
    (ran : syscall world = (result, world')) :
    (call syscall >>= next) world = next result world' :=
  bind_ok (congrArg Except.ok ran)

theorem call_step (syscall : W → α × W) (next : α → Prog W β) (world : W) :
    (call syscall >>= next) world = next (syscall world).1 (syscall world).2 := rfl

/-- What a run comes to, read off the part of its outcome that can be compared. -/
theorem exists_of_map_ok {ε α β : Type} (outcome : Except ε α) (part : α → β) (value : β)
    (mapped : outcome.map part = .ok value) :
    ∃ result, outcome = .ok result ∧ part result = value := by
  cases outcome with
  | error reason => cases mapped
  | ok result => exact ⟨result, rfl, Except.ok.inj mapped⟩

end Evaluation

end LinuxProgramming.Files
