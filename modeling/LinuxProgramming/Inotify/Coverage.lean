import LinuxProgramming.Library.FileTree

/-!
Contract: how `inotify_dirs` sets up its watches.

Owns:
- `nftw` with a callback that may stop it, and the callback `nftw_func`;
- the watches and the list of their pathnames after the walk in `main`;
- for which trees these cover all directories.

Does not own: the events that are read afterwards.
-/

namespace LinuxProgramming.Inotify

open LinuxProgramming.Library

abbrev CString := List UInt8

def slash : UInt8 := 47

def PATH_MAX : Nat := 4096

/-! ### The walk -/

/-- A name in a directory. -/
structure Name where
  bytes : CString
  notEmpty : bytes ≠ []
deriving DecidableEq, Repr

def join (dirpath : CString) (name : Name) : CString :=
  if dirpath.getLast? = some slash then dirpath ++ name.bytes
  else dirpath ++ slash :: name.bytes

/-- The pathname of a file below the start. -/
def pathnameOf (start : CString) : Position Name → CString
  | [] => start
  | name :: parent => join (pathnameOf start parent) name

/-- What the callback reads of its arguments: the pathname, and `S_ISDIR` of the status. -/
structure Visit where
  pathname : CString
  isDirectory : Bool
deriving DecidableEq, Repr

variable {δ ℓ : Type}

/-- The files of a tree in the order of a walk without flags, where a symbolic link is what
it leads to. -/
def visits (start : CString) (tree : FileTree Name δ ℓ) : List Visit :=
  (tree.preorder []).map fun listed => ⟨pathnameOf start listed.1, decide listed.2.IsDir⟩

/-- Why the program does not go on. -/
inductive Stop where
  | exit
  /-- A string that does not fit into `pathname`. -/
  | overflow
deriving DecidableEq, Repr

/-- `nftw`: a callback with a value other than zero ends the walk with that value. -/
def nftw {State : Type} (func : Visit → State → Except Stop (Int × State)) :
    List Visit → State → Except Stop (Int × State)
  | [], state => .ok (0, state)
  | visit :: rest, state =>
      match func visit state with
      | .error stop => .error stop
      | .ok (retval, state) => if retval ≠ 0 then .ok (retval, state) else nftw func rest state

/-- What every callback keeps, the walk keeps. -/
theorem nftw_invariant {State : Type} {func : Visit → State → Except Stop (Int × State)}
    {Invariant : State → Prop}
    (keeps : ∀ visit before retval after, Invariant before →
      func visit before = .ok (retval, after) → Invariant after)
    {visits : List Visit} {before after : State} {retval : Int} (invariant : Invariant before)
    (walked : nftw func visits before = .ok (retval, after)) : Invariant after := by
  induction visits generalizing before with
  | nil =>
      cases walked
      exact invariant
  | cons visit rest inductionHypothesis =>
      unfold nftw at walked
      split at walked
      · cases walked
      · rename_i value between called
        have kept := keeps visit before value between invariant called
        split at walked
        · cases walked
          exact kept
        · exact inductionHypothesis kept walked

/-! ### The monitor -/

/-- An entry of `pathname_wd_list`. -/
structure PathnameWd where
  pathname : CString
  wd : Int
  fits : pathname.length < PATH_MAX
deriving DecidableEq, Repr

/-- What surrounds the monitor, over any state `W`. -/
structure Kernel (W : Type) where
  /-- The watch descriptor, `none` for a failure. -/
  inotify_add_watch : CString → W → Option Int × W
  malloc : W → Bool × W
  /-- `ENAMETOOLONG`. -/
  nameTooLong : ∀ pathname world, PATH_MAX ≤ pathname.length →
    (inotify_add_watch pathname world).1 = none

/-- The calls of `inotify_add_watch` that succeeded, with their descriptors, and the list,
both with the last one first. -/
structure Monitor (W : Type) where
  world : W
  watches : List (CString × Int)
  pathname_wd_list : List PathnameWd

variable {W : Type}

def nftw_func (kernel : Kernel W) (visit : Visit) (monitor : Monitor W) :
    Except Stop (Int × Monitor W) :=
  if visit.isDirectory then
    match kernel.inotify_add_watch visit.pathname monitor.world with
    | (none, _) => .error .exit
    | (some wd, world) =>
        let (allocated, world) := kernel.malloc world
        if allocated then
          if fits : visit.pathname.length < PATH_MAX then
            .ok (wd,
              { world
                watches := (visit.pathname, wd) :: monitor.watches
                pathname_wd_list := ⟨visit.pathname, wd, fits⟩ :: monitor.pathname_wd_list })
          else .error .overflow
        else .error .exit
  else .ok (0, monitor)

/-- `main` up to the walk, which it checks for `-1`. -/
def watchTree (kernel : Kernel W) (start : CString) (tree : FileTree Name δ ℓ) (world : W) :
    Except Stop (Monitor W) :=
  match nftw (nftw_func kernel) (visits start tree) ⟨world, [], []⟩ with
  | .error stop => .error stop
  | .ok (retval, monitor) => if retval = -1 then .error .exit else .ok monitor

/-- Every entry stands for one watch. -/
def Paired (monitor : Monitor W) : Prop :=
  monitor.pathname_wd_list.map (fun entry => (entry.pathname, entry.wd)) = monitor.watches

theorem nftw_func_paired (kernel : Kernel W) (visit : Visit) (before : Monitor W) (retval : Int)
    (after : Monitor W) (paired : Paired before)
    (called : nftw_func kernel visit before = .ok (retval, after)) : Paired after := by
  unfold nftw_func at called
  split at called
  · split at called
    · cases called
    dsimp only at called
    split at called
    · split at called
      · cases called
        rw [Paired, List.map_cons, paired]
      · cases called
    · cases called
  · cases called
    exact paired

theorem watchTree_paired {kernel : Kernel W} {start : CString} {tree : FileTree Name δ ℓ}
    {world : W} {monitor : Monitor W} (ran : watchTree kernel start tree world = .ok monitor) :
    Paired monitor := by
  unfold watchTree at ran
  split at ran
  · cases ran
  · rename_i retval between walked
    split at ran
    · cases ran
    · cases ran
      have empty : Paired (⟨world, [], []⟩ : Monitor W) := rfl
      exact nftw_invariant (nftw_func_paired kernel) empty walked

/-! ### What is covered -/

theorem length_lt_join (dirpath : CString) (name : Name) :
    dirpath.length < (join dirpath name).length := by
  have nonempty := List.length_pos_of_ne_nil name.notEmpty
  unfold join
  split
  · rw [List.length_append]
    omega
  · rw [List.length_append, List.length_cons]
    omega

/-- A file below the start has another pathname. -/
theorem length_pathnameOf (start : CString) (position : Position Name) :
    start.length + position.length ≤ (pathnameOf start position).length := by
  induction position with
  | nil => exact Nat.le_refl _
  | cons name parent inductionHypothesis =>
      have longer := length_lt_join (pathnameOf start parent) name
      rw [pathnameOf, List.length_cons]
      omega

/-- Every directory is watched, and one entry of the list, with its descriptor, has its
pathname. -/
def Covered (start : CString) (tree : FileTree Name δ ℓ) (monitor : Monitor W) : Prop :=
  ∀ position found, (position, found) ∈ tree.preorder [] → found.IsDir →
    ∃ wd, (pathnameOf start position, wd) ∈ monitor.watches ∧
      ∃ entry, monitor.pathname_wd_list.filter
          (fun entry => entry.pathname = pathnameOf start position) = [entry] ∧
        entry.wd = wd

/-- No directory lies below the start. -/
def NoneBelow (tree : FileTree Name δ ℓ) : Prop :=
  ∀ position found, (position, found) ∈ tree.preorder [] → found.IsDir → position = []

/-- The start is watched, and the descriptor that the callback returns ends the walk. -/
theorem watchTree_dir {kernel : Kernel W} {start : CString} {info : δ}
    {entries : List (Name × FileTree Name δ ℓ)} {world : W} {wd : Int}
    (added : (kernel.inotify_add_watch start world).1 = some wd) (positive : 0 < wd)
    (fits : start.length < PATH_MAX) :
    watchTree kernel start (.dir info entries) world =
      let allocated := kernel.malloc (kernel.inotify_add_watch start world).2
      if allocated.1 then .ok ⟨allocated.2, [(start, wd)], [⟨start, wd, fits⟩]⟩
      else .error .exit := by
  have visited : visits start (.dir info entries) = ⟨start, true⟩ ::
      (FileTree.preorderEntries [] entries).map fun listed =>
        ⟨pathnameOf start listed.1, decide listed.2.IsDir⟩ := by
    rw [visits, FileTree.preorder, List.map_cons]
    rfl
  have stops : wd ≠ 0 := Int.ne_of_gt positive
  have noFailure : wd ≠ -1 := by omega
  rw [watchTree, visited, nftw, nftw_func, if_pos rfl]
  cases returned : kernel.inotify_add_watch start world with
  | mk result between =>
      rw [returned] at added
      subst added
      dsimp only
      cases allocated : (kernel.malloc between).1 with
      | false => rfl
      | true =>
          simp only [↓reduceIte, ↓reduceDIte, fits, stops, noFailure, ne_eq, not_false_eq_true]

theorem watchTree_leaf (kernel : Kernel W) (start : CString) (content : ℓ) (world : W) :
    watchTree kernel start (.leaf content : FileTree Name δ ℓ) world = .ok ⟨world, [], []⟩ :=
  rfl

theorem covered_iff_of_start {start : CString} {tree : FileTree Name δ ℓ} {world : W} {wd : Int}
    (fits : start.length < PATH_MAX) :
    Covered start tree (⟨world, [(start, wd)], [⟨start, wd, fits⟩]⟩ : Monitor W) ↔
      NoneBelow tree := by
  constructor
  · intro covered position found listed isDir
    obtain ⟨wd', watched, -⟩ := covered position found listed isDir
    have samePathname : pathnameOf start position = start :=
      congrArg Prod.fst (List.mem_singleton.mp watched)
    have length := length_pathnameOf start position
    rw [samePathname] at length
    exact List.eq_nil_of_length_eq_zero (by omega)
  · intro noneBelow position found listed isDir
    obtain rfl := noneBelow position found listed isDir
    exact ⟨wd, List.mem_singleton.mpr rfl, ⟨start, wd, fits⟩, by simp [pathnameOf], rfl⟩

/-- `inotify_add_watch` succeeds for every directory of the tree. -/
def Addable (kernel : Kernel W) (start : CString) (tree : FileTree Name δ ℓ) : Prop :=
  ∀ position found world, (position, found) ∈ tree.preorder [] → found.IsDir →
    ∃ wd, (kernel.inotify_add_watch (pathnameOf start position) world).1 = some wd ∧ 0 < wd

/-- `main` covers all directories just if the start has none below it. -/
theorem watchTree_covers (kernel : Kernel W) (start : CString) (tree : FileTree Name δ ℓ)
    (world : W) (addable : Addable kernel start tree) :
    (∀ monitor, watchTree kernel start tree world = .ok monitor →
      (Covered start tree monitor ↔ NoneBelow tree)) ∧
      ((∀ world, (kernel.malloc world).1 = true) →
        ∃ monitor, watchTree kernel start tree world = .ok monitor) := by
  cases tree with
  | leaf content =>
      refine ⟨fun monitor ran => iff_of_true ?_ ?_, fun _ => ⟨_, watchTree_leaf ..⟩⟩
      · intro position found listed isDir
        rw [FileTree.preorder, List.mem_singleton] at listed
        cases listed
        cases isDir
      · intro position found listed isDir
        rw [FileTree.preorder, List.mem_singleton] at listed
        cases listed
        rfl
  | dir info entries =>
      obtain ⟨wd, added, positive⟩ :=
        addable [] _ world (FileTree.self_mem_preorder _ _) trivial
      rw [pathnameOf] at added
      have fits : start.length < PATH_MAX := by
        refine Nat.lt_of_not_le fun long => ?_
        rw [kernel.nameTooLong start world long] at added
        cases added
      rw [watchTree_dir added positive fits]
      dsimp only
      constructor
      · intro monitor ran
        split at ran
        · cases ran
          exact covered_iff_of_start fits
        · cases ran
      · intro allocates
        exact ⟨_, if_pos (allocates _)⟩

/-- A kernel that numbers its watches. -/
def numbering : Kernel Nat where
  inotify_add_watch pathname watches :=
    if pathname.length < PATH_MAX then (some (watches + 1), watches + 1) else (none, watches)
  malloc watches := (true, watches)
  nameTooLong pathname watches long := by rw [if_neg (Nat.not_lt.mpr long)]

/-- A directory with one entry. -/
def oneEntry (entry : FileTree Name Unit Unit) : FileTree Name Unit Unit :=
  .dir () [(⟨[97], by decide⟩, entry)]

theorem preorder_oneEntry {entry : FileTree Name Unit Unit} (noEntries : entry.names = []) :
    (oneEntry entry).preorder [] =
      [([], oneEntry entry), ([⟨[97], by decide⟩], entry)] := by
  cases entry with
  | leaf content => rfl
  | dir info entries =>
      obtain rfl := List.map_eq_nil_iff.mp noEntries
      rfl

theorem addable_of_short {start : CString} {tree : FileTree Name δ ℓ}
    (short : ∀ listed ∈ tree.preorder [], (pathnameOf start listed.1).length < PATH_MAX) :
    Addable numbering start tree := by
  intro position found watches listed isDir
  refine ⟨watches + 1, ?_, by omega⟩
  simp only [numbering, short _ listed, ↓reduceIte]

/-- A directory with a file in it. -/
theorem watchTree_covers_oneFile :
    ∃ monitor, watchTree numbering [98] (oneEntry (.leaf ())) 0 = .ok monitor ∧
      Covered [98] (oneEntry (.leaf ())) monitor := by
  have short : ∀ listed ∈ (oneEntry (.leaf ())).preorder [],
      (pathnameOf [98] listed.1).length < PATH_MAX := by
    rw [preorder_oneEntry rfl]
    simp [pathnameOf, join, PATH_MAX, slash]
  obtain ⟨covers, runs⟩ := watchTree_covers numbering [98] _ 0 (addable_of_short short)
  obtain ⟨monitor, ran⟩ := runs fun _ => rfl
  refine ⟨monitor, ran, (covers monitor ran).mpr fun position found listed isDir => ?_⟩
  rw [preorder_oneEntry rfl] at listed
  rcases List.mem_cons.mp listed with here | below
  · cases here
    rfl
  · cases List.mem_singleton.mp below
    cases isDir

/-- A directory in a directory is not watched. -/
theorem watchTree_misses_directory :
    Addable numbering [98] (oneEntry (.dir () [])) ∧
      ∃ monitor, watchTree numbering [98] (oneEntry (.dir () [])) 0 = .ok monitor ∧
        ¬ Covered [98] (oneEntry (.dir () [])) monitor := by
  refine ⟨addable_of_short ?_, _, rfl, ?_⟩
  · rw [preorder_oneEntry rfl]
    simp [pathnameOf, join, PATH_MAX, slash]
  · intro covered
    obtain ⟨wd, watched, -⟩ := covered [⟨[97], by decide⟩] (.dir () [])
      (List.mem_cons_of_mem _ List.mem_cons_self) trivial
    have samePathname : pathnameOf [98] [⟨[97], by decide⟩] = [98] :=
      congrArg Prod.fst (List.mem_singleton.mp watched)
    exact absurd samePathname (by decide)

end LinuxProgramming.Inotify
