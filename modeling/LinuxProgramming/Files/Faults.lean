import LinuxProgramming.Library.PartialCorrectness
import LinuxProgramming.Files.Resolution

/-!
Contract: a process on a tree of files in which any system call may fail.

Owns:
- `Faulty`, a process with the outcomes that await its calls and a record of the
  calls that failed, and `faultyKernel`;
- what a call can do to the process, as one case analysis for each call.

Does not own: the programs.
-/

namespace LinuxProgramming.Files

open LinuxProgramming.Library

inductive Syscall where
  | stat
  | lstat
  | readlink
  | opendir
  | readdir
  | closedir
  | getcwd
  | openFile
  | chdir
  | fchdir
  | close
deriving DecidableEq, Repr

/-- A process of which call number `made` fails with `faults made`, if that is an
error, whatever the tree holds. `failures` are the calls that have failed, for
this reason or because of the tree, the last one first. -/
structure Faulty where
  process : Process
  faults : Nat → Option Errno
  made : Nat
  failures : List Syscall

def Faulty.start (process : Process) (faults : Nat → Option Errno) : Faulty :=
  ⟨process, faults, 0, []⟩

/-- A call that does what `run` does, or what `refuse` does if it has to fail. -/
def faulty {α : Type} (syscall : Syscall) (failed : α → Bool)
    (refuse : Errno → Process → α × Process) (run : Process → α × Process) (world : Faulty) :
    α × Faulty :=
  let outcome :=
    match world.faults world.made with
    | some errno => refuse errno world.process
    | none => run world.process
  (outcome.1, {
    process := outcome.2
    faults := world.faults
    made := world.made + 1
    failures := if failed outcome.1 then syscall :: world.failures else world.failures })

/-- Calls on a tree that nobody else changes. A call that has to fail leaves the
process as it is; only `close` and `closedir` give their argument up all the
same. -/
def faultyKernel (fs : FileSystem) (leftover : Stat) : Kernel Faulty (List CString) where
  stat pathname := faulty .stat (·.1.isSome)
    (fun errno process => ((some errno, leftover), process))
    ((treeKernel fs leftover).stat pathname)
  lstat pathname := faulty .lstat (·.1.isSome)
    (fun errno process => ((some errno, leftover), process))
    ((treeKernel fs leftover).lstat pathname)
  readlink pathname := faulty .readlink (fun result => result.toOption.isNone)
    (fun errno process => (.error errno, process)) ((treeKernel fs leftover).readlink pathname)
  opendir pathname := faulty .opendir Option.isNone (fun _ process => (none, process))
    ((treeKernel fs leftover).opendir pathname)
  readdir stream := faulty .readdir (fun | .failed => true | _ => false)
    (fun _ process => (.failed, process)) ((treeKernel fs leftover).readdir stream)
  closedir stream := faulty .closedir not
    (fun _ process => (false, ((treeKernel fs leftover).closedir stream process).2))
    ((treeKernel fs leftover).closedir stream)
  getcwd size := faulty .getcwd Option.isNone (fun _ process => (none, process))
    ((treeKernel fs leftover).getcwd size)
  openFile pathname := faulty .openFile Option.isNone (fun _ process => (none, process))
    ((treeKernel fs leftover).openFile pathname)
  chdir pathname := faulty .chdir not (fun _ process => (false, process))
    ((treeKernel fs leftover).chdir pathname)
  fchdir fd := faulty .fchdir not (fun _ process => (false, process))
    ((treeKernel fs leftover).fchdir fd)
  close fd := faulty .close not
    (fun _ process => (false, ((treeKernel fs leftover).close fd process).2))
    ((treeKernel fs leftover).close fd)

/-- What a descriptor was opened for, if it is open. -/
def Process.opened? (process : Process) (fd : Nat) : Option (Position CString) :=
  (process.descriptors[fd]?).join

section Faulty

variable {α : Type} {syscall : Syscall} {failed : α → Bool}
  {refuse : Errno → Process → α × Process} {run : Process → α × Process} {world : Faulty}

/-- Any further call that failed is put before those that did. -/
def logged (failed : Bool) (syscall : Syscall) (failures : List Syscall) : List Syscall :=
  if failed then syscall :: failures else failures

/-- What holds however the call ends holds of what it does. -/
theorem returns_faulty (holds : α → Process → Prop)
    (refused : ∀ errno, holds (refuse errno world.process).1 (refuse errno world.process).2)
    (ran : holds (run world.process).1 (run world.process).2) :
    Returns (call (faulty syscall failed refuse run)) world fun result after =>
      holds result after.process ∧
        after.failures = logged (failed result) syscall world.failures := by
  refine Returns.of_ok rfl ⟨?_, rfl⟩
  dsimp only
  split
  · exact refused _
  · exact ran

end Faulty

/-! ### What a call does to the process -/

section Calls

variable {fs : FileSystem} {leftover : Stat}

theorem faulty_stat (pathname : CString) (world : Faulty) :
    Returns (call ((faultyKernel fs leftover).stat pathname)) world fun status after =>
      after.process = world.process ∧
        after.failures = logged status.1.isSome .stat world.failures := by
  dsimp only [faultyKernel]
  refine returns_faulty (fun _ after => after = world.process) (fun _ => rfl) ?_
  simp only [treeKernel]
  split <;> rfl

theorem faulty_lstat (pathname : CString) (world : Faulty) :
    Returns (call ((faultyKernel fs leftover).lstat pathname)) world fun status after =>
      after.process = world.process ∧
        after.failures = logged status.1.isSome .lstat world.failures := by
  dsimp only [faultyKernel]
  refine returns_faulty (fun _ after => after = world.process) (fun _ => rfl) ?_
  simp only [treeKernel]
  split <;> rfl

theorem faulty_readdir (stream : List CString) (world : Faulty) :
    Returns (call ((faultyKernel fs leftover).readdir stream)) world fun read after =>
      after.process = world.process ∧
        after.failures = logged (read matches .failed) .readdir world.failures := by
  dsimp only [faultyKernel]
  refine returns_faulty (fun _ after => after = world.process) (fun _ => rfl) ?_
  simp only [treeKernel]
  split <;> rfl

/-- The canonical pathname of the working directory, or nothing. -/
theorem faulty_getcwd (size : Nat) (world : Faulty) :
    Returns (call ((faultyKernel fs leftover).getcwd size)) world fun cwd after =>
      (after.process = world.process ∧ ∀ path, cwd = some path →
        path = canonical world.process.cwd ∧ path.length < size) ∧
      after.failures = logged cwd.isNone .getcwd world.failures := by
  dsimp only [faultyKernel]
  refine returns_faulty (fun cwd after => after = world.process ∧
    ∀ path, cwd = some path → path = canonical world.process.cwd ∧ path.length < size)
    (fun _ => ⟨rfl, nofun⟩) ?_
  simp only [treeKernel]
  split
  case isTrue fits => exact ⟨rfl, fun path same => by cases same; exact ⟨rfl, fits⟩⟩
  case isFalse => exact ⟨rfl, nofun⟩

/-- A stream is opened or nothing happens. -/
theorem faulty_opendir (pathname : CString) (world : Faulty) :
    Returns (call ((faultyKernel fs leftover).opendir pathname)) world fun stream after =>
      after.process = { world.process with
        streams := world.process.streams + if stream.isSome then 1 else 0 } ∧
      after.failures = logged stream.isNone .opendir world.failures := by
  dsimp only [faultyKernel]
  refine returns_faulty (fun (stream : Option (List CString)) after =>
    after = { world.process with
      streams := world.process.streams + if stream.isSome then 1 else 0 }) (fun _ => rfl) ?_
  show _ = _
  cases looked : fs.find true world.process.cwd pathname with
  | error errno => simp only [treeKernel, looked]; rfl
  | ok found =>
      simp only [treeKernel, looked]
      split <;> rfl

/-- Whatever `closedir` returns, the stream is closed. -/
theorem faulty_closedir (stream : Option (List CString)) (world : Faulty) :
    Returns (call ((faultyKernel fs leftover).closedir stream)) world fun closed after =>
      after.process = { world.process with
        streams := world.process.streams - if stream.isSome then 1 else 0 } ∧
      after.failures = logged (!closed) .closedir world.failures := by
  have closes : ((treeKernel fs leftover).closedir stream world.process).2 =
      { world.process with streams := world.process.streams -
          if stream.isSome then 1 else 0 } := by
    cases stream <;> rfl
  dsimp only [faultyKernel]
  exact returns_faulty (fun _ after => after = _) (fun _ => closes) closes

/-- A new descriptor for the file that the pathname leads to, or nothing. -/
theorem faulty_openFile (pathname : CString) (world : Faulty) :
    Returns (call ((faultyKernel fs leftover).openFile pathname)) world fun opened after =>
      (opened = none ∧ after.process = world.process ∨
        ∃ found, fs.find true world.process.cwd pathname = .ok found ∧
          opened = some world.process.descriptors.length ∧
          after.process = { world.process with
            descriptors := world.process.descriptors ++ [some found.1] }) ∧
      after.failures = logged opened.isNone .openFile world.failures := by
  dsimp only [faultyKernel]
  refine returns_faulty (fun opened after => opened = none ∧ after = world.process ∨
    ∃ found, fs.find true world.process.cwd pathname = .ok found ∧
      opened = some world.process.descriptors.length ∧ after = { world.process with
        descriptors := world.process.descriptors ++ [some found.1] }) (fun _ => .inl ⟨rfl, rfl⟩) ?_
  simp only [treeKernel]
  split
  case h_1 => exact .inl ⟨rfl, rfl⟩
  case h_2 found looked => exact .inr ⟨found, looked, rfl, rfl⟩

/-- The working directory becomes another directory, or nothing happens. -/
theorem faulty_chdir (pathname : CString) (world : Faulty) :
    Returns (call ((faultyKernel fs leftover).chdir pathname)) world fun changed after =>
      (changed = false ∧ after.process = world.process ∨
        ∃ position info entries, fs.tree.at? position = some (.dir info entries) ∧
          changed = true ∧ after.process = { world.process with cwd := position }) ∧
      after.failures = logged (!changed) .chdir world.failures := by
  dsimp only [faultyKernel]
  refine returns_faulty (fun changed after => changed = false ∧ after = world.process ∨
    ∃ position info entries, fs.tree.at? position = some (.dir info entries) ∧
      changed = true ∧ after = { world.process with cwd := position })
    (fun _ => .inl ⟨rfl, rfl⟩) ?_
  simp only [treeKernel]
  split
  case h_1 => exact .inl ⟨rfl, rfl⟩
  case h_2 found looked =>
    obtain ⟨position, file⟩ := found
    have located := FileSystem.at?_of_find looked
    cases file with
    | leaf content => exact .inl ⟨rfl, rfl⟩
    | dir info entries => exact .inr ⟨position, info, entries, located, rfl, rfl⟩

/-- The working directory becomes what the descriptor was opened for, or nothing
happens. -/
theorem faulty_fchdir (fd : Nat) (world : Faulty) :
    Returns (call ((faultyKernel fs leftover).fchdir fd)) world fun changed after =>
      (changed = false ∧ after.process = world.process ∨
        ∃ position, world.process.opened? fd = some position ∧
          changed = true ∧ after.process = { world.process with cwd := position }) ∧
      after.failures = logged (!changed) .fchdir world.failures := by
  dsimp only [faultyKernel]
  refine returns_faulty (fun changed after => changed = false ∧ after = world.process ∨
    ∃ position, world.process.opened? fd = some position ∧
      changed = true ∧ after = { world.process with cwd := position })
    (fun _ => .inl ⟨rfl, rfl⟩) ?_
  simp only [treeKernel]
  split
  case h_1 => exact .inl ⟨rfl, rfl⟩
  case h_2 position isOpen => exact .inr ⟨position, isOpen, rfl, rfl⟩

/-- Whatever `close` returns, the descriptor is closed, and no other. -/
theorem faulty_close (fd : Nat) (world : Faulty) :
    Returns (call ((faultyKernel fs leftover).close fd)) world fun closed after =>
      after.process = { world.process with
        descriptors := world.process.descriptors.set fd none } ∧
      after.failures = logged (!closed) .close world.failures := by
  have closes : ((treeKernel fs leftover).close fd world.process).2 =
      { world.process with descriptors := world.process.descriptors.set fd none } := by
    simp only [treeKernel]
    split
    case h_1 isClosed =>
      have unchanged : world.process.descriptors.set fd none = world.process.descriptors := by
        by_cases inside : fd < world.process.descriptors.length
        · rw [List.getElem?_eq_getElem inside] at isClosed
          exact isClosed ▸ List.set_getElem_self inside
        · exact List.set_eq_of_length_le (Nat.not_lt.mp inside)
      rw [unchanged]
    case h_2 => rfl
  dsimp only [faultyKernel]
  exact returns_faulty (fun _ after => after = _) (fun _ => closes) closes

end Calls

end LinuxProgramming.Files
