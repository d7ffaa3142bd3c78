import LinuxProgramming.Library.Lockstep
import LinuxProgramming.Files.NftwStop
import LinuxProgramming.Files.RealpathWalk
import LinuxProgramming.Files.Getcwd

/-!
Contract: what `FTW_CHDIR` changes about a walk of `my_nftw`.

Owns:
- the directories a walk enters, and when the pathnames it looks up in them lead to
  the same files as from the caller's working directory;
- the lockstep of the walks with and without `FTW_CHDIR` under this condition.

Does not own: what a walk visits on a given tree.
-/

namespace LinuxProgramming.Files

open LinuxProgramming.Library

/-! ### Looked up from two directories -/

def Flags.staying (flags : Flags) : Flags := { flags with FTW_CHDIR := false }

def Flags.moving (flags : Flags) : Flags := { flags with FTW_CHDIR := true }

/-- A directory of the tree stands there. -/
def FileSystem.HasDir (fs : FileSystem) (position : Position CString) : Prop :=
  ∃ info entries, fs.tree.at? position = some (.dir info entries)

/-- What the walk finds at a pathname, from a working directory. -/
def seen (fs : FileSystem) (flags : Flags) (cwd : Position CString) (pathname : CString) :
    Except Errno (Position CString × Tree) :=
  fs.find (!flags.FTW_PHYS) cwd pathname

/-- The pathname leads to the same from both directories. -/
def Alike (fs : FileSystem) (cwd here : Position CString) (pathname : CString) : Prop :=
  ∀ follow, fs.find follow here pathname = fs.find follow cwd pathname

/-- With `FTW_MOUNT`, the directory is on the device on which the walk starts. -/
def Stays (fs : FileSystem) (flags : Flags) (cwd : Position CString) (start : CString)
    (info : Inode) : Prop :=
  flags.FTW_MOUNT = true → ∀ position found, seen fs flags cwd start = .ok (position, found) →
    info.st_dev = (inodeOf found).st_dev

/-- The directories the walk comes to, by pathname, with the working directory it has
changed to: the directory itself below the start, the caller's own at the start. -/
inductive ComesTo (fs : FileSystem) (flags : Flags) (cwd : Position CString) (start : CString) :
    CString → Position CString → Prop where
  | start : ComesTo fs flags cwd start start cwd
  | entry {dirpath here position info entries name inside innerInfo innerEntries} :
      ComesTo fs flags cwd start dirpath here →
      seen fs flags cwd dirpath = .ok (position, .dir info entries) →
      Stays fs flags cwd start info → name ∈ entries.map Prod.fst →
      seen fs flags cwd (dirpath ++ slash :: name) =
        .ok (inside, .dir innerInfo innerEntries) →
      ComesTo fs flags cwd start (dirpath ++ slash :: name) inside

/-- The walk may change its working directory: every pathname it looks up leads to the
same from there as from the caller's, and `getcwd` can return every directory it
leaves. -/
structure MayMove (fs : FileSystem) (flags : Flags) (cwd : Position CString) (start : CString) :
    Prop where
  directories : ∀ dirpath here, ComesTo fs flags cwd start dirpath here → Alike fs cwd here dirpath
  entries : ∀ dirpath here position info entries name, ComesTo fs flags cwd start dirpath here →
    seen fs flags cwd dirpath = .ok (position, .dir info entries) →
    Stays fs flags cwd start info → name ∈ entries.map Prod.fst →
    Alike fs cwd here (dirpath ++ slash :: name)
  recorded : ∀ dirpath here position info entries name inside innerInfo innerEntries,
    ComesTo fs flags cwd start dirpath here →
    seen fs flags cwd dirpath = .ok (position, .dir info entries) →
    Stays fs flags cwd start info → name ∈ entries.map Prod.fst →
    seen fs flags cwd (dirpath ++ slash :: name) = .ok (inside, .dir innerInfo innerEntries) →
    (canonical here).length < PATH_MAX

/-! ### States of the two walks -/

/-- The walk that stays and the walk that moves, between two calls. -/
structure InStep (cwd here : Position CString) (plain moved : Walk Process) : Prop where
  level : moved.level = plain.level
  devno : moved.devno = plain.devno
  visits : moved.visits = plain.visits
  stays : plain.world.cwd = cwd
  moves : moved.world.cwd = here

/-- Both walks are back: in their directories, on their level, and with the
descriptors the moving walk had. -/
structure Back (cwd here : Position CString) (plain moved plain' moved' : Walk Process) :
    Prop where
  inStep : InStep cwd here plain' moved'
  level : plain'.level = plain.level
  devno : plain'.devno = plain.devno
  descriptors : moved.world.descriptors <+: moved'.world.descriptors

section Calls

variable {fs : FileSystem} {leftover : Stat} {flags : Flags} {cwd here : Position CString}
  {pathname dirpath : CString} {plain moved : Walk Process}

theorem Back.trans {plain₁ moved₁ plain₂ moved₂ : Walk Process}
    (first : Back cwd here plain moved plain₁ moved₁)
    (second : Back cwd here plain₁ moved₁ plain₂ moved₂) :
    Back cwd here plain moved plain₂ moved₂ where
  inStep := second.inStep
  level := second.level.trans first.level
  devno := second.devno.trans first.devno
  descriptors := first.descriptors.trans second.descriptors

theorem Back.refl (inStep : InStep cwd here plain moved) : Back cwd here plain moved plain moved :=
  ⟨inStep, rfl, rfl, List.prefix_rfl⟩

/-- What `stat` or, for `follow = false`, `lstat` returns. -/
def statusOf (fs : FileSystem) (leftover : Stat) (follow : Bool) (cwd : Position CString)
    (pathname : CString) : Option Errno × Stat :=
  match fs.find follow cwd pathname with
  | .error errno => (some errno, leftover)
  | .ok found => (none, statOf found.2)

theorem stat_eq (fs : FileSystem) (leftover : Stat) (pathname : CString) (process : Process) :
    (treeKernel fs leftover).stat pathname process =
      (statusOf fs leftover true process.cwd pathname, process) := by
  simp only [treeKernel, statusOf]
  cases fs.find true process.cwd pathname <;> rfl

theorem statEntry_eq (fs : FileSystem) (leftover : Stat) (flags : Flags) (pathname : CString)
    (process : Process) :
    statEntry (treeKernel fs leftover) flags pathname process =
      .ok (statusOf fs leftover (!flags.FTW_PHYS) process.cwd pathname, process) := by
  rw [statEntry]
  cases flags.FTW_PHYS with
  | false => exact congrArg Except.ok (stat_eq fs leftover pathname process)
  | true =>
      show Except.ok ((treeKernel fs leftover).lstat pathname process) = _
      simp only [treeKernel, statusOf, Bool.not_true]
      cases fs.find false process.cwd pathname <;> rfl

theorem onWorld_statEntry (fs : FileSystem) (leftover : Stat) (flags : Flags) (pathname : CString)
    (walk : Walk Process) :
    onWorld (statEntry (treeKernel fs leftover) flags pathname) walk =
      .ok (statusOf fs leftover (!flags.FTW_PHYS) walk.world.cwd pathname, walk) :=
  onWorld_ok walk (statEntry_eq fs leftover flags pathname walk.world)

theorem statusOf_alike (alike : Alike fs cwd here pathname) (follow : Bool) :
    statusOf fs leftover follow here pathname = statusOf fs leftover follow cwd pathname := by
  rw [statusOf, statusOf, alike]

/-- Both walks look up a pathname and find the same. -/
theorem InStep.looks (leftover : Stat) (inStep : InStep cwd here plain moved)
    (alike : Alike fs cwd here pathname) (flags : Flags) :
    onWorld (statEntry (treeKernel fs leftover) flags.staying pathname) plain =
        .ok (statusOf fs leftover (!flags.FTW_PHYS) cwd pathname, plain) ∧
      onWorld (statEntry (treeKernel fs leftover) flags.moving pathname) moved =
        .ok (statusOf fs leftover (!flags.FTW_PHYS) cwd pathname, moved) := by
  constructor
  · rw [onWorld_statEntry, inStep.stays]
    rfl
  · rw [onWorld_statEntry, inStep.moves, statusOf_alike alike]
    rfl

/-- Both walks go down one level. -/
theorem InStep.down (inStep : InStep cwd here plain moved) :
    InStep cwd here { plain with level := plain.level + 1 }
      { moved with level := moved.level + 1 } where
  level := congrArg (· + 1) inStep.level
  devno := inStep.devno
  visits := inStep.visits
  stays := inStep.stays
  moves := inStep.moves

/-- A file is found under its status. -/
theorem seen_of_status {status : Option Errno × Stat}
    (isStatus : statusOf fs leftover (!flags.FTW_PHYS) cwd pathname = status)
    (readable : status.1 = none) :
    ∃ position found, seen fs flags cwd pathname = .ok (position, found) ∧
      status.2 = statOf found := by
  rw [statusOf] at isStatus
  rw [seen]
  cases finds : fs.find (!flags.FTW_PHYS) cwd pathname with
  | error errno =>
      rw [finds] at isStatus
      rw [← isStatus] at readable
      cases readable
  | ok pair =>
      rw [finds] at isStatus
      exact ⟨pair.1, pair.2, rfl, isStatus ▸ rfl⟩

theorem status_of_seen {position : Position CString} {found : Tree}
    (sees : seen fs flags cwd pathname = .ok (position, found)) :
    statusOf fs leftover (!flags.FTW_PHYS) cwd pathname = (none, statOf found) := by
  rw [seen] at sees
  rw [statusOf, sees]

theorem dir_of_mode {found : Tree} (mode : (statOf found).st_mode = .directory) :
    ∃ info entries, found = .dir info entries := by
  cases found with
  | dir info entries => exact ⟨info, entries, rfl⟩
  | leaf content =>
      rw [statOf] at mode
      dsimp only at mode
      split at mode <;> cases mode

theorem enter_stays (flags : Flags) (pathname : CString) (status : Option Errno × Stat)
    (process : Process) :
    enter (treeKernel fs leftover) flags.staying pathname status process =
      .ok (.stayed, process) := by
  rw [enter, if_neg fun both => Bool.false_ne_true both.2.1]
  rfl

theorem enter_stays_at {status : Option Errno × Stat}
    (other : ¬ (status.1 = none ∧ status.2.st_mode = .directory)) (flags : Flags)
    (pathname : CString) (process : Process) :
    enter (treeKernel fs leftover) flags pathname status process = .ok (.stayed, process) := by
  rw [enter, if_neg fun both => other ⟨both.1, both.2.2⟩]
  rfl

/-- The working directory is recorded in a new descriptor and changed. -/
theorem enter_moves {process : Process} {info innerInfo : Inode}
    {entries innerEntries : List (CString × Tree)} {inside : Position CString}
    {status : Option Errno × Stat} (readable : status.1 = none)
    (isDirectory : status.2.st_mode = .directory)
    (hereAt : fs.tree.at? process.cwd = some (.dir info entries))
    (fits : (canonical process.cwd).length < PATH_MAX)
    (finds : fs.find true process.cwd pathname = .ok (inside, .dir innerInfo innerEntries)) :
    enter (treeKernel fs leftover) flags.moving pathname status process =
      .ok (.moved process.descriptors.length,
        { process with
          cwd := inside, descriptors := process.descriptors ++ [some process.cwd] }) := by
  have gets : (treeKernel fs leftover).getcwd PATH_MAX process =
      (some (canonical process.cwd), process) := if_pos fits
  have opens : (treeKernel fs leftover).openFile (canonical process.cwd) process =
      (some process.descriptors.length,
        { process with descriptors := process.descriptors ++ [some process.cwd] }) := by
    simp only [treeKernel, find_canonical hereAt fits true process.cwd]
  have changes : (treeKernel fs leftover).chdir pathname
      { process with descriptors := process.descriptors ++ [some process.cwd] } =
        (true, { process with
          cwd := inside, descriptors := process.descriptors ++ [some process.cwd] }) :=
    treeKernel_chdir finds
  rw [enter, if_pos ⟨readable, rfl, isDirectory⟩, call_bind _ gets]
  dsimp only
  rw [call_bind _ opens]
  dsimp only
  rw [call_bind _ changes]
  rfl

theorem leave_moves {process : Process} {fd : Nat}
    (recorded : process.descriptors[fd]? = some (some here)) :
    leave (treeKernel fs leftover) (.moved fd) process =
      .ok (true, { process with cwd := here, descriptors := process.descriptors.set fd none }) := by
  have returns : (treeKernel fs leftover).fchdir fd process =
      (true, { process with cwd := here }) := by
    simp only [treeKernel, recorded, Option.join_some]
  have closes : (treeKernel fs leftover).close fd { process with cwd := here } =
      (true, { process with cwd := here, descriptors := process.descriptors.set fd none }) := by
    simp only [treeKernel, recorded, Option.join_some]
  rw [leave, call_bind _ returns, if_pos rfl, call_bind _ closes]
  rfl

end Calls

/-! ### The loop over the entries -/

section Lockstep

variable {fs : FileSystem} {leftover : Stat} {flags : Flags} {cwd here : Position CString}
  {dirpath name : CString} {plain moved : Walk Process}

/-- Where the moving walk is during the call for a pathname that it has looked up. -/
def inside (fs : FileSystem) (flags : Flags) (cwd here : Position CString) (pathname : CString) :
    Position CString :=
  match seen fs flags cwd pathname with
  | .ok (inside, .dir _ _) => inside
  | _ => here

theorem inside_cases (fs : FileSystem) (flags : Flags) (cwd here : Position CString)
    (pathname : CString) :
    (∃ below info entries, seen fs flags cwd pathname = .ok (below, .dir info entries) ∧
      inside fs flags cwd here pathname = below) ∨
    inside fs flags cwd here pathname = here ∧ ∀ below info entries,
      seen fs flags cwd pathname ≠ .ok (below, .dir info entries) := by
  rw [inside]
  split
  case h_1 below info entries sees => exact .inl ⟨below, info, entries, sees, rfl⟩
  case h_2 other => exact .inr ⟨rfl, other⟩

/-- Both walks go down one level for the call `self` and come back. -/
def CallsInStep (cwd below : Position CString) (level devno : Nat)
    (self self' : Prog (Walk Process) Int) : Prop :=
  ∀ plain moved, plain.level = level → plain.devno = devno → InStep cwd below plain moved →
    Lockstep self self' plain moved fun _ => Back cwd below plain moved

/-- How the moving walk goes into a file: into a directory, or nowhere. -/
inductive GoesInto (here below : Position CString) (moved moved' : Walk Process) :
    Entering → Prop where
  | stays : below = here → moved' = moved → GoesInto here below moved moved' .stayed
  | moves : moved' = { moved with world := { moved.world with
        cwd := below, descriptors := moved.world.descriptors ++ [some here] } } →
      GoesInto here below moved moved' (.moved moved.world.descriptors.length)

theorem GoesInto.not_failed {below : Position CString} {moved' : Walk Process}
    {entering : Entering} (goesInto : GoesInto here below moved moved' entering) :
    entering ≠ .failed := by
  cases goesInto <;> nofun

variable (leftover moved) in
/-- The moving walk is where the call for the entry expects it. -/
theorem enter_goesInto {info : Inode} {entries : List (CString × Tree)}
    (hereAt : fs.tree.at? here = some (.dir info entries)) (isHere : moved.world.cwd = here)
    (alike : Alike fs cwd here dirpath)
    (recorded : ∀ below innerInfo innerEntries,
      seen fs flags cwd dirpath = .ok (below, .dir innerInfo innerEntries) →
      (canonical here).length < PATH_MAX) :
    ∃ entering moved', onWorld (enter (treeKernel fs leftover) flags.moving dirpath
        (statusOf fs leftover (!flags.FTW_PHYS) cwd dirpath)) moved = .ok (entering, moved') ∧
      GoesInto here (inside fs flags cwd here dirpath) moved moved' entering := by
  subst isHere
  rcases inside_cases fs flags cwd moved.world.cwd dirpath with
    ⟨below, innerInfo, innerEntries, sees, isInside⟩ | ⟨isInside, noDir⟩
  · have finds : fs.find true moved.world.cwd dirpath = .ok (below, .dir innerInfo innerEntries) :=
      (alike true).trans (FileSystem.find_follow sees rfl)
    rw [isInside, status_of_seen sees]
    exact ⟨_, _, onWorld_ok moved (enter_moves rfl rfl hereAt (recorded _ _ _ sees) finds),
      .moves rfl⟩
  · have other : ¬ ((statusOf fs leftover (!flags.FTW_PHYS) cwd dirpath).1 = none ∧
        (statusOf fs leftover (!flags.FTW_PHYS) cwd dirpath).2.st_mode = .directory) := by
      rintro ⟨readable, isDirectory⟩
      obtain ⟨below, found, sees, isStatus⟩ := seen_of_status rfl readable
      obtain ⟨innerInfo, innerEntries, rfl⟩ := dir_of_mode (isStatus ▸ isDirectory)
      exact noDir _ _ _ sees
    rw [isInside]
    exact ⟨_, _, onWorld_ok moved (enter_stays_at other flags.moving dirpath _), .stays rfl rfl⟩

variable (fs leftover) in
/-- It comes back to where it was. -/
theorem leave_goesBack (moved₂ : Walk Process) {below : Position CString}
    {moved' : Walk Process} {entering : Entering}
    (goesInto : GoesInto here below moved moved' entering)
    (isBelow : moved₂.world.cwd = below)
    (descriptors : moved'.world.descriptors <+: moved₂.world.descriptors) :
    ∃ world, onWorld (leave (treeKernel fs leftover) entering) moved₂ =
        .ok (true, { moved₂ with world := world }) ∧ world.cwd = here ∧
      moved.world.descriptors <+: world.descriptors := by
  cases goesInto with
  | stays same sameWalk =>
      subst sameWalk
      exact ⟨moved₂.world, rfl, isBelow.trans same, descriptors⟩
  | moves isMoved =>
      subst isMoved
      obtain ⟨more, isMore⟩ := descriptors
      have held : moved₂.world.descriptors[moved.world.descriptors.length]? = some (some here) := by
        rw [← isMore]
        simp
      refine ⟨_, onWorld_ok moved₂ (leave_moves held), rfl, ?_⟩
      dsimp only
      rw [← isMore, List.append_assoc, List.set_append_right _ _ (Nat.le_refl _)]
      exact List.prefix_append _ _

theorem closedir_lockstep (dir_p : Option (List CString)) (inStep : InStep cwd here plain moved) :
    Lockstep (onWorld (call ((treeKernel fs leftover).closedir dir_p)))
      (onWorld (call ((treeKernel fs leftover).closedir dir_p))) plain moved
      fun _ => Back cwd here plain moved := by
  cases dir_p with
  | none => exact .ended rfl rfl (.refl inStep)
  | some stream =>
      exact .ended rfl rfl ⟨⟨inStep.level, inStep.devno, inStep.visits, inStep.stays, inStep.moves⟩,
        rfl, rfl, List.prefix_rfl⟩

/-- The call for one entry, on the level below, and the way back. -/
theorem entry_lockstep {α : Type} {below : Position CString} {moved₁ : Walk Process}
    {entering : Entering} {self self' : Prog (Walk Process) Int}
    {next next' : Int → Bool → Prog (Walk Process) α}
    {post : α → Walk Process → Walk Process → Prop}
    (inStep : InStep cwd here plain moved)
    (goesInto : GoesInto here below { moved with level := moved.level + 1 } moved₁ entering)
    (calls : CallsInStep cwd below (plain.level + 1) plain.devno self self')
    (rest : ∀ retval plain' moved', Back cwd here plain moved plain' moved' →
      Lockstep (next retval true) (next' retval true) plain' moved' post) :
    Lockstep
      (do
        let retval ← self
        setLevel (· - 1)
        let left ← onWorld (leave (treeKernel fs leftover) .stayed)
        next retval left)
      (do
        let retval ← self'
        setLevel (· - 1)
        let left ← onWorld (leave (treeKernel fs leftover) entering)
        next' retval left)
      { plain with level := plain.level + 1 } moved₁ post := by
  have inside : InStep cwd below { plain with level := plain.level + 1 } moved₁ := by
    cases goesInto with
    | stays same sameWalk =>
        subst same sameWalk
        exact inStep.down
    | moves isMoved =>
        subst isMoved
        exact { inStep.down with moves := rfl }
  refine Lockstep.bind (calls _ _ rfl rfl inside) fun retval plain₂ moved₂ back => ?_
  obtain ⟨⟨level₂, devno₂, visits₂, stays₂, moves₂⟩, sameLevel, sameDevno, descriptors⟩ := back
  have up (walk : Walk Process) : (setLevel (· - 1) : Prog (Walk Process) Unit) walk =
      .ok ((), { walk with level := walk.level - 1 }) := rfl
  obtain ⟨world, leaves, isHere, descriptors'⟩ := leave_goesBack fs leftover
    { moved₂ with level := moved₂.level - 1 } goesInto moves₂ descriptors
  refine .of_eq (bind_ok (up plain₂)) (bind_ok (up moved₂)) ?_
  refine .of_eq (bind_ok (onWorld_ok _ rfl)) (bind_ok leaves) (rest retval _ _ ?_)
  exact ⟨⟨congrArg (· - 1) level₂, devno₂, visits₂, stays₂, isHere⟩,
    congrArg (· - 1) sameLevel, sameDevno, descriptors'⟩

variable (fs flags cwd here) in
/-- What the moving walk needs in a directory with these entries. -/
structure EntriesMayMove (dirpath : CString) (names : List CString) : Prop where
  located : fs.HasDir here
  alike : ∀ name ∈ names, Alike fs cwd here (dirpath ++ slash :: name)
  recorded : ∀ name ∈ names, ∀ below innerInfo innerEntries,
    seen fs flags cwd (dirpath ++ slash :: name) = .ok (below, .dir innerInfo innerEntries) →
    (canonical here).length < PATH_MAX

/-- The run lemma of the loop. The induction is on its fuel. -/
theorem readEntries_lockstep {names : List CString}
    (mayMove : EntriesMayMove fs flags cwd here dirpath names)
    {self self' : CString → Prog (Walk Process) Int} {level devno : Nat}
    (calls : ∀ name ∈ names, CallsInStep cwd
      (inside fs flags cwd here (dirpath ++ slash :: name)) (level + 1) devno
      (self (dirpath ++ slash :: name)) (self' (dirpath ++ slash :: name)))
    (fuel : Nat) {stream : List CString}
    (listed : ∀ name ∈ stream, name ≠ dotDot → name ≠ dot → name ∈ names)
    (atLevel : plain.level = level) (onDevice : plain.devno = devno)
    (inStep : InStep cwd here plain moved) :
    Lockstep (readEntries (treeKernel fs leftover) flags.staying self dirpath fuel stream)
      (readEntries (treeKernel fs leftover) flags.moving self' dirpath fuel stream) plain moved
      fun _ => Back cwd here plain moved := by
  induction fuel generalizing stream plain moved with
  | zero => exact .stopped rfl rfl
  | succ fuel inductionHypothesis =>
      cases stream with
      | nil => exact .ended rfl rfl (.refl inStep)
      | cons name stream =>
          have later : ∀ other ∈ stream, other ≠ dotDot → other ≠ dot → other ∈ names :=
            fun other member => listed other (List.mem_cons_of_mem _ member)
          have read (walk : Walk Process) :
              onWorld (call ((treeKernel fs leftover).readdir (name :: stream))) walk =
                .ok (.entry name stream, walk) := rfl
          rw [readEntries, readEntries]
          refine .of_eq (bind_ok (read plain)) (bind_ok (read moved)) ?_
          dsimp only
          refine .ite (fun _ => inductionHypothesis later atLevel onDevice inStep) fun isEntry => ?_
          rw [not_or] at isEntry
          have member := listed name List.mem_cons_self isEntry.1 isEntry.2
          refine .ite (fun _ => .stopped rfl rfl) fun _ => ?_
          have down (walk : Walk Process) : (setLevel (· + 1) : Prog (Walk Process) Unit) walk =
              .ok ((), { walk with level := walk.level + 1 }) := rfl
          refine .of_eq (bind_ok (down plain)) (bind_ok (down moved)) ?_
          obtain ⟨looks, looks'⟩ := inStep.down.looks leftover (mayMove.alike name member) flags
          refine .of_eq (bind_ok looks) (bind_ok looks') ?_
          obtain ⟨_, _, hereAt⟩ := mayMove.located
          obtain ⟨entering, moved₁, enters, goesInto⟩ := enter_goesInto leftover
            { moved with level := moved.level + 1 } hereAt inStep.moves
            (mayMove.alike name member) (mayMove.recorded name member)
          refine .of_eq (bind_ok (onWorld_ok _ (enter_stays _ _ _ _))) (bind_ok enters) ?_
          rw [if_neg (by simp), if_neg goesInto.not_failed]
          refine entry_lockstep inStep goesInto (atLevel ▸ onDevice ▸ calls name member)
            fun retval plain' moved' back => ?_
          refine .ite (fun impossible => by cases impossible) fun _ =>
            .ite (fun _ => ?_) fun _ => ?_
          · refine Lockstep.bind (closedir_lockstep (some stream) back.inStep) ?_
            exact fun _ _ _ closed => .pure (back.trans closed)
          · exact (inductionHypothesis later (back.level.trans atLevel)
              (back.devno.trans onDevice) back.inStep).mono fun _ _ _ => back.trans

/-! ### The call -/

theorem callFunc_lockstep (func : Func) (visit : Visit) (inStep : InStep cwd here plain moved) :
    Lockstep (callFunc func visit : Prog (Walk Process) Int) (callFunc func visit) plain moved
      fun _ => Back cwd here plain moved := by
  have calls : callFunc func visit moved = .ok (func (plain.visits ++ [visit]),
      { moved with visits := plain.visits ++ [visit] }) := by
    rw [← inStep.visits]
    rfl
  exact .ended rfl calls ⟨⟨inStep.level, inStep.devno, rfl, inStep.stays, inStep.moves⟩, rfl, rfl,
    List.prefix_rfl⟩

theorem callWhen_lockstep (func : Func) (now : Bool) (visit : Visit)
    (inStep : InStep cwd here plain moved) :
    Lockstep (callWhen func now visit : Prog (Walk Process) Int) (callWhen func now visit) plain
      moved fun _ => Back cwd here plain moved := by
  cases now with
  | false => exact .pure (.refl inStep)
  | true => exact callFunc_lockstep func visit inStep

theorem visitFile_lockstep (func : Func) (statbuf : Stat) (visit : TypeFlag → Visit)
    (alike : Alike fs cwd here dirpath) (inStep : InStep cwd here plain moved) :
    Lockstep (visitFile (treeKernel fs leftover) flags.staying func dirpath statbuf visit)
      (visitFile (treeKernel fs leftover) flags.moving func dirpath statbuf visit) plain moved
      fun _ => Back cwd here plain moved := by
  have reported (typeflag : TypeFlag) :
      Lockstep (do let _ ← callFunc func (visit typeflag); pure 0)
        (do let _ ← callFunc func (visit typeflag); pure 0) plain moved
        fun (_ : Int) => Back cwd here plain moved :=
    Lockstep.bind (callFunc_lockstep func (visit typeflag) inStep) fun _ _ _ back => .pure back
  rw [visitFile, visitFile]
  refine .ite (fun _ => ?_) fun _ => reported .FTW_F
  have looks : onWorld (call ((treeKernel fs leftover).stat dirpath)) plain =
      .ok (statusOf fs leftover true cwd dirpath, plain) :=
    onWorld_ok plain (by rw [call, stat_eq, inStep.stays])
  have looks' : onWorld (call ((treeKernel fs leftover).stat dirpath)) moved =
      .ok (statusOf fs leftover true cwd dirpath, moved) :=
    onWorld_ok moved (by rw [call, stat_eq, inStep.moves, statusOf_alike alike])
  refine .of_eq (bind_ok looks) (bind_ok looks') ?_
  cases (statusOf fs leftover true cwd dirpath).1 with
  | none => exact reported .FTW_SL
  | some errno =>
      exact .ite (fun _ => reported .FTW_SLN) fun _ => .pure (.refl inStep)

/-- Both walks open the same directory. -/
theorem opendir_lockstep {position : Position CString} {info : Inode}
    {entries : List (CString × Tree)}
    (sees : seen fs flags cwd dirpath = .ok (position, .dir info entries))
    (alike : Alike fs cwd here dirpath) (inStep : InStep cwd here plain moved) :
    Lockstep (onWorld (call ((treeKernel fs leftover).opendir dirpath)))
      (onWorld (call ((treeKernel fs leftover).opendir dirpath))) plain moved
      fun dir_p plain' moved' => dir_p = some (fs.order position) ∧
        Back cwd here plain moved plain' moved' := by
  have finds : fs.find true cwd dirpath = .ok (position, .dir info entries) :=
    FileSystem.find_follow sees rfl
  have opens : (treeKernel fs leftover).opendir dirpath plain.world = _ :=
    treeKernel_opendir (inStep.stays.symm ▸ finds)
  have opens' : (treeKernel fs leftover).opendir dirpath moved.world = _ :=
    treeKernel_opendir (inStep.moves.symm ▸ (alike true).trans finds)
  refine .ended (onWorld_ok plain (congrArg Except.ok opens))
    (onWorld_ok moved (congrArg Except.ok opens')) ⟨rfl, ?_⟩
  exact ⟨⟨inStep.level, inStep.devno, inStep.visits, inStep.stays, inStep.moves⟩, rfl, rfl,
    List.prefix_rfl⟩

theorem visitDirectory_lockstep (func : Func) {position : Position CString} {info : Inode}
    {entries : List (CString × Tree)}
    (sees : seen fs flags cwd dirpath = .ok (position, .dir info entries))
    (alike : Alike fs cwd here dirpath)
    (mayMove : EntriesMayMove fs flags cwd here dirpath (entries.map Prod.fst))
    {self self' : CString → Prog (Walk Process) Int}
    (calls : ∀ name ∈ entries.map Prod.fst, CallsInStep cwd
      (inside fs flags cwd here (dirpath ++ slash :: name)) (plain.level + 1) plain.devno
      (self (dirpath ++ slash :: name)) (self' (dirpath ++ slash :: name)))
    (fuel : Nat) (visit : TypeFlag → Visit) (inStep : InStep cwd here plain moved) :
    Lockstep
      (visitDirectory (treeKernel fs leftover) flags.staying func self fuel dirpath visit)
      (visitDirectory (treeKernel fs leftover) flags.moving func self' fuel dirpath visit)
      plain moved fun _ => Back cwd here plain moved := by
  have located : fs.tree.at? position = some (.dir info entries) := FileSystem.at?_of_find sees
  have listed : ∀ name ∈ fs.order position, name ≠ dotDot → name ≠ dot →
      name ∈ entries.map Prod.fst := fun name member notDotDot notDot =>
    (fs.mem_names_iff located).mpr ⟨member, notDot, notDotDot⟩
  -- closing the stream, whatever is returned then
  have closing (dir_p : Option (List CString)) (result : Bool → Int) {plain₁ moved₁ : Walk Process}
      (back : Back cwd here plain moved plain₁ moved₁) :
      Lockstep
        (onWorld (call ((treeKernel fs leftover).closedir dir_p)) >>= fun closed =>
          pure (result closed))
        (onWorld (call ((treeKernel fs leftover).closedir dir_p)) >>= fun closed =>
          pure (result closed)) plain₁ moved₁ fun _ => Back cwd here plain moved :=
    Lockstep.bind (closedir_lockstep dir_p back.inStep)
      fun _ _ _ closed => .pure (back.trans closed)
  rw [visitDirectory, visitDirectory]
  refine Lockstep.bind (opendir_lockstep sees alike inStep) ?_
  rintro _ plain₁ moved₁ ⟨rfl, opened⟩
  refine Lockstep.bind (callWhen_lockstep func _ _ opened.inStep)
    fun func_retval plain₂ moved₂ called => ?_
  have back := opened.trans called
  refine .ite (fun _ => closing _ (fun _ => func_retval) back) fun _ => ?_
  refine Lockstep.through (fun _ => Back cwd here plain moved) ?_ ?_
  · rw [readDirectory, readDirectory]
    exact Lockstep.bind (readEntries_lockstep mayMove calls fuel listed back.level back.devno
      back.inStep) fun _ _ _ read => .pure (back.trans read)
  · intro ended plain₃ moved₃ read
    cases ended with
    | returned retval => exact .pure read
    | finished dir_p =>
        refine Lockstep.bind (callWhen_lockstep func _ _ read.inStep)
          fun func_retval plain₄ moved₄ called => ?_
        refine .ite (fun _ => closing _ (fun _ => func_retval) (read.trans called)) fun _ => ?_
        exact closing _ (fun closed => if closed then 0 else -1) (read.trans called)

theorem recordDevice_lockstep (device : Nat) (inStep : InStep cwd here plain moved) :
    Lockstep (recordDevice flags.staying device) (recordDevice flags.moving device) plain moved
      fun devno plain' moved' =>
        devno = (if flags.FTW_MOUNT = true ∧ plain.level = 0 then device else plain.devno) ∧
        Back cwd here { plain with devno := devno } moved plain' moved' := by
  have records (flags : Flags) (walk : Walk Process) :
      recordDevice flags device walk =
        .ok (if flags.FTW_MOUNT = true ∧ walk.level = 0 then device else walk.devno,
          { walk with devno :=
            if flags.FTW_MOUNT = true ∧ walk.level = 0 then device else walk.devno }) := rfl
  have records' : recordDevice flags.moving device moved =
      .ok (if flags.FTW_MOUNT = true ∧ plain.level = 0 then device else plain.devno,
        { moved with devno :=
          if flags.FTW_MOUNT = true ∧ plain.level = 0 then device else plain.devno }) := by
    rw [records, inStep.level, inStep.devno]
    rfl
  exact .ended (records _ _) records' ⟨rfl, ⟨inStep.level, rfl, inStep.visits, inStep.stays,
    inStep.moves⟩, rfl, rfl, List.prefix_rfl⟩

/-- The call of `my_nftw` for a pathname, from two states that are in step. -/
structure Calling (fs : FileSystem) (flags : Flags) (cwd : Position CString) (start : CString)
    (dirpath : CString) (here : Position CString) (plain moved : Walk Process) : Prop where
  inStep : InStep cwd here plain moved
  alike : Alike fs cwd here dirpath
  located : fs.HasDir here
  comesTo : ∀ position info entries, seen fs flags cwd dirpath = .ok (position, .dir info entries) →
    ComesTo fs flags cwd start dirpath here
  isStart : plain.level = 0 → dirpath = start
  device : flags.FTW_MOUNT = true → 0 < plain.level → ∀ position found,
    seen fs flags cwd start = .ok (position, found) → plain.devno = (inodeOf found).st_dev

/-- The entries of a directory are called as they should. -/
theorem MayMove.calling {start : CString} (mayMove : MayMove fs flags cwd start)
    {position : Position CString} {info : Inode} {entries : List (CString × Tree)}
    (comes : ComesTo fs flags cwd start dirpath here)
    (sees : seen fs flags cwd dirpath = .ok (position, .dir info entries))
    (stays : Stays fs flags cwd start info) (member : name ∈ entries.map Prod.fst)
    (located : fs.HasDir here)
    (inStep : InStep cwd (inside fs flags cwd here (dirpath ++ slash :: name)) plain moved)
    (deep : 0 < plain.level)
    (device : flags.FTW_MOUNT = true → ∀ position found,
      seen fs flags cwd start = .ok (position, found) → plain.devno = (inodeOf found).st_dev) :
    Calling fs flags cwd start (dirpath ++ slash :: name)
      (inside fs flags cwd here (dirpath ++ slash :: name)) plain moved := by
  have alike := mayMove.entries _ _ _ _ _ name comes sees stays member
  rcases inside_cases fs flags cwd here (dirpath ++ slash :: name) with
    ⟨below, innerInfo, innerEntries, isInside, isBelow⟩ | ⟨isHere, noDir⟩
  · have comes' := ComesTo.entry comes sees stays member isInside
    rw [isBelow] at inStep ⊢
    exact ⟨inStep, mayMove.directories _ _ comes', ⟨_, _, FileSystem.at?_of_find isInside⟩,
      fun _ _ _ _ => comes', fun top => absurd top (Nat.ne_of_gt deep),
      fun mounted _ => device mounted⟩
  · rw [isHere] at inStep ⊢
    exact ⟨inStep, alike, located, fun _ _ _ isDir => absurd isDir (noDir _ _ _),
      fun top => absurd top (Nat.ne_of_gt deep), fun mounted _ => device mounted⟩

theorem myNftw_lockstep {start : CString} (mayMove : MayMove fs flags cwd start) (func : Func)
    (fuel : Nat) (calling : Calling fs flags cwd start dirpath here plain moved) :
    Lockstep (myNftw (treeKernel fs leftover) flags.staying func fuel dirpath)
      (myNftw (treeKernel fs leftover) flags.moving func fuel dirpath) plain moved
      fun _ plain' moved' => ∃ devno, (0 < plain.level → devno = plain.devno) ∧
        Back cwd here { plain with devno := devno } moved plain' moved' := by
  induction fuel generalizing dirpath here plain moved with
  | zero => exact .stopped rfl rfl
  | succ fuel inductionHypothesis =>
      have inStep := calling.inStep
      have levelled' : (getLevel : Prog (Walk Process) Nat) moved = .ok (plain.level, moved) := by
        rw [← inStep.level]
        rfl
      obtain ⟨looks, looks'⟩ := inStep.looks leftover calling.alike flags
      rw [myNftw, myNftw]
      refine .of_eq (bind_ok rfl) (bind_ok levelled') ?_
      refine .of_eq (bind_ok looks) (bind_ok looks') ?_
      generalize isStatus : statusOf fs leftover (!flags.FTW_PHYS) cwd dirpath = status
      refine Lockstep.bind (recordDevice_lockstep _ inStep) ?_
      rintro devno plain₁ moved₁ ⟨isDevno, back⟩
      have kept : 0 < plain.level → devno = plain.devno := fun deep =>
        isDevno.trans (if_neg fun both => Nat.ne_of_gt deep both.2)
      refine .ite (fun _ => .pure ⟨devno, kept, back⟩) fun onDevice => ?_
      refine .ite (fun readable => ?_) fun _ => ?_
      · refine .ite (fun isDirectory => ?_) fun _ => ?_
        · obtain ⟨position, found, sees, isStat⟩ := seen_of_status isStatus readable
          obtain ⟨info, entries, rfl⟩ := dir_of_mode (isStat ▸ isDirectory)
          have comes := calling.comesTo position info entries sees
          have sameDevice : flags.FTW_MOUNT = true → devno = info.st_dev := by
            intro mounted
            have same := not_not.mp fun different => onDevice ⟨mounted, different⟩
            rwa [isStat] at same
          have ofStart : flags.FTW_MOUNT = true → ∀ position found,
              seen fs flags cwd start = .ok (position, found) → devno = (inodeOf found).st_dev := by
            intro mounted position' found' seesStart
            rcases Nat.eq_zero_or_pos plain.level with top | deep
            · rw [← calling.isStart top, sees] at seesStart
              cases seesStart
              exact sameDevice mounted
            · rw [kept deep]
              exact calling.device mounted deep _ _ seesStart
          have stays : Stays fs flags cwd start info := fun mounted _ _ seesStart =>
            (sameDevice mounted).symm.trans (ofStart mounted _ _ seesStart)
          refine (visitDirectory_lockstep func sees calling.alike
            ⟨calling.located, fun name => mayMove.entries _ _ _ _ _ name comes sees stays,
              fun name member _ _ _ =>
                mayMove.recorded _ _ _ _ _ name _ _ _ comes sees stays member⟩
            (fun name member plain₂ moved₂ atLevel onDevno inStep₂ => ?_) fuel _ back.inStep).mono
              fun _ _ _ visited => ⟨devno, kept, back.trans visited⟩
          -- the call for an entry: the walk is on a lower level, and knows the device
          have deep : 0 < plain₂.level := atLevel ▸ Nat.succ_pos _
          have below := mayMove.calling comes sees stays member calling.located inStep₂ deep
            fun mounted position found seesStart =>
              onDevno.trans (back.devno.trans (ofStart mounted position found seesStart))
          refine (inductionHypothesis below).mono fun _ plain' moved' returned => ?_
          obtain ⟨devno', kept', back'⟩ := returned
          have same := kept' deep
          subst same
          exact back'
        · exact (visitFile_lockstep func _ _ calling.alike back.inStep).mono
            fun _ _ _ visited => ⟨devno, kept, back.trans visited⟩
      · exact Lockstep.bind (callFunc_lockstep func _ back.inStep)
          fun _ _ _ called => .pure ⟨devno, kept, back.trans called⟩

end Lockstep

/-! ### Absolute starts -/

theorem alike_of_absolute {fs : FileSystem} {pathname : CString}
    (absolute : pathname.head? = some slash) (cwd here : Position CString) :
    Alike fs cwd here pathname := by
  intro follow
  rw [FileSystem.find, FileSystem.find, FileSystem.lookup, FileSystem.lookup, if_pos absolute,
    if_pos absolute]

theorem ComesTo.absolute {fs : FileSystem} {flags : Flags} {cwd here : Position CString}
    {start dirpath : CString} (absolute : start.head? = some slash)
    (comes : ComesTo fs flags cwd start dirpath here) : dirpath.head? = some slash := by
  induction comes with
  | start => exact absolute
  | entry _ _ _ _ _ inductionHypothesis =>
      rw [List.head?_append, inductionHypothesis]
      rfl

theorem ComesTo.located {fs : FileSystem} {flags : Flags} {cwd here : Position CString}
    {start dirpath : CString} {found : Tree} (cwdAt : fs.tree.at? cwd = some found)
    (comes : ComesTo fs flags cwd start dirpath here) : ∃ file, fs.tree.at? here = some file := by
  cases comes with
  | start => exact ⟨found, cwdAt⟩
  | entry _ _ _ _ isInside => exact ⟨_, FileSystem.at?_of_find isInside⟩

/-- With an absolute start, it only matters that `getcwd` can return the directories. -/
theorem MayMove.of_absolute {fs : FileSystem} {flags : Flags} {cwd : Position CString}
    {start : CString} {found : Tree} (cwdAt : fs.tree.at? cwd = some found)
    (absolute : start.head? = some slash)
    (fits : ∀ position file, fs.tree.at? position = some file →
      (canonical position).length < PATH_MAX) : MayMove fs flags cwd start where
  directories dirpath here comes := alike_of_absolute (comes.absolute absolute) cwd here
  entries dirpath here position info entries name comes sees stays member := by
    refine alike_of_absolute ?_ cwd here
    rw [List.head?_append, comes.absolute absolute]
    rfl
  recorded _ here _ _ _ _ _ _ _ comes _ _ _ _ := by
    obtain ⟨file, hereAt⟩ := comes.located cwdAt
    exact fits here file hereAt

/-! ### What is visited -/

/-- The pathnames and types the callback is given. -/
def visited (outcome : Except Stop (Int × Walk Process)) :
    Except Stop (List (CString × TypeFlag)) :=
  outcome.map fun returned => returned.2.visits.map fun visit => (visit.pathname, visit.typeflag)

/-- Where the walk may change its working directory, it visits the same. -/
theorem MayMove.visits_same {fs : FileSystem} {leftover : Stat} {flags : Flags} {func : Func}
    {process : Process} {info : Inode} {entries : List (CString × Tree)}
    (cwdAt : fs.tree.at? process.cwd = some (.dir info entries)) {start : CString}
    (mayMove : MayMove fs flags process.cwd start) (devno fuel : Nat) :
    visited (myNftw (treeKernel fs leftover) flags.moving func fuel start
      ⟨process, 0, devno, []⟩) =
    visited (myNftw (treeKernel fs leftover) flags.staying func fuel start
      ⟨process, 0, devno, []⟩) := by
  have calling : Calling fs flags process.cwd start start process.cwd ⟨process, 0, devno, []⟩
      ⟨process, 0, devno, []⟩ := by
    refine ⟨⟨rfl, rfl, rfl, rfl, rfl⟩, fun _ => rfl, ⟨info, entries, cwdAt⟩,
      fun _ _ _ _ => .start, fun _ => rfl, fun _ deep => absurd deep (Nat.lt_irrefl 0)⟩
  rcases myNftw_lockstep mayMove func fuel calling with
    ⟨reason, stops, stops'⟩ | ⟨retval, plain, moved, returns, returns', _, _, back⟩
  · rw [stops, stops']
  · rw [returns, returns']
    exact congrArg (fun visits : List Visit => Except.ok
      (visits.map fun visit => (visit.pathname, visit.typeflag))) back.inStep.visits

end LinuxProgramming.Files
