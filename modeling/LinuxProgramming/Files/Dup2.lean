import LinuxProgramming.Library.DescriptorTable

/-!
Contract: `mydup2` against `dup2`.

Owns:
- the descriptors and `errno` of a process, with `fcntl` and `close`;
- `mydup2`, and the law of `dup2`;
- for which pairs of descriptors `mydup2` keeps the law, and what it does with the others.

Does not own: the files the descriptors refer to.
-/

namespace LinuxProgramming.Files.Dup2

open LinuxProgramming.Library

universe u

/-- A value of `errno`. -/
abbrev Errno := Nat

def EBADF : Errno := 9

def EINVAL : Errno := 22

def EMFILE : Errno := 24

/-- The part of a process that the calls read and change. -/
structure Process (File : Type u) where
  table : DescriptorTable File
  errno : Errno

/-- What a call returns, and the process after it. -/
structure Returned (File : Type u) where
  value : Int
  process : Process File

variable {File : Type u}

/-- A call that fails. -/
def Process.fail (process : Process File) (errno : Errno) : Returned File :=
  ⟨-1, { process with errno }⟩

/-- `fcntl(fd, F_GETFL)`, which gives the flags of the open file. -/
def fcntlGetFlags (flags : File → Nat) (process : Process File) (fd : Int) : Returned File :=
  match process.table.lookup fd with
  | none => process.fail EBADF
  | some file => ⟨flags file, process⟩

/-- `close(fd)`. -/
def close (process : Process File) (fd : Int) : Returned File :=
  match process.table.lookup fd with
  | none => process.fail EBADF
  | some _ => ⟨0, { process with table := process.table.close fd.toNat }⟩

/-- `fcntl(oldfd, F_DUPFD, newfd)`, when descriptors are below `limit`. -/
def fcntlDupFd (limit : Nat) (process : Process File) (oldfd newfd : Int) : Returned File :=
  match process.table.lookup oldfd with
  | none => process.fail EBADF
  | some file =>
      if newfd < 0 ∨ (limit : Int) ≤ newfd then process.fail EINVAL
      else match process.table.lowestFree newfd.toNat limit with
        | none => process.fail EMFILE
        | some fd => ⟨fd, { process with table := process.table.assign fd file }⟩

/-- `mydup2`. -/
def mydup2 (flags : File → Nat) (limit : Nat) (process : Process File) (oldfd newfd : Int) :
    Returned File :=
  let checked := fcntlGetFlags flags process newfd
  let process :=
    if 0 ≤ checked.value then (close checked.process newfd).process else checked.process
  if oldfd = newfd then
    -- The second operand of `&&` is evaluated only here.
    let valid := fcntlGetFlags flags process oldfd
    if 0 ≤ valid.value then valid.process.fail EBADF
    else fcntlDupFd limit valid.process oldfd newfd
  else fcntlDupFd limit process oldfd newfd

/-! ### The law of `dup2` -/

/-- What a call `dup2(oldfd, newfd)` may do with a table. -/
structure Dup2Law (before : DescriptorTable File) (oldfd newfd : Int)
    (returned : Returned File) : Prop where
  notOpen : before.lookup oldfd = none →
    returned.value = -1 ∧ returned.process.table = before
  same : before.lookup oldfd ≠ none → oldfd = newfd →
    returned.value = newfd ∧ returned.process.table = before
  copied : before.lookup oldfd ≠ none → oldfd ≠ newfd →
    returned.value = newfd ∧
      returned.process.table.lookup newfd = before.lookup oldfd ∧
      ∀ other, other ≠ newfd → returned.process.table.lookup other = before.lookup other

/-! ### What the calls do -/

theorem fcntlDupFd_notOpen (limit : Nat) {process : Process File} {oldfd : Int} (newfd : Int)
    (notOpen : process.table.lookup oldfd = none) :
    fcntlDupFd limit process oldfd newfd = process.fail EBADF := by
  rw [fcntlDupFd, notOpen]

/-- A free descriptor below the limit is the one that is taken. -/
theorem fcntlDupFd_free {limit : Nat} {process : Process File} {oldfd newfd : Int} {file : File}
    (found : process.table.lookup oldfd = some file) (nonneg : 0 ≤ newfd)
    (below : newfd < limit) (free : process.table.lookup newfd = none) :
    fcntlDupFd limit process oldfd newfd =
      ⟨newfd, { process with table := process.table.assign newfd.toNat file }⟩ := by
  have inRange : ¬ (newfd < 0 ∨ (limit : Int) ≤ newfd) := by omega
  have firstFree : process.table newfd.toNat = none := by
    rwa [DescriptorTable.lookup, if_pos nonneg] at free
  have chosen : process.table.lowestFree newfd.toNat limit = some newfd.toNat :=
    DescriptorTable.lowestFree_first firstFree (by omega)
  have back : (newfd.toNat : Int) = newfd := Int.toNat_of_nonneg nonneg
  simp only [fcntlDupFd, found, inRange, chosen, back, ↓reduceIte]

/-! ### `mydup2` -/

/-- The table after the first test: without `newfd`. -/
def cleared (table : DescriptorTable File) (newfd : Int) : DescriptorTable File :=
  if table.lookup newfd = none then table else table.close newfd.toNat

theorem lookup_cleared (table : DescriptorTable File) (newfd other : Int) :
    (cleared table newfd).lookup other = if other = newfd then none else table.lookup other := by
  unfold cleared
  by_cases free : table.lookup newfd = none
  · rw [if_pos free]
    by_cases same : other = newfd
    · rw [if_pos same, same, free]
    · rw [if_neg same]
  · rw [if_neg free]
    exact DescriptorTable.lookup_close table (DescriptorTable.nonneg_of_lookup free) other

/-- `mydup2` is `F_DUPFD` after a `close` of `newfd`: the test for equal descriptors comes
after the close, and never finds them open. -/
theorem mydup2_eq (flags : File → Nat) (limit : Nat) (process : Process File)
    (oldfd newfd : Int) :
    ∃ errno, mydup2 flags limit process oldfd newfd =
      fcntlDupFd limit ⟨cleared process.table newfd, errno⟩ oldfd newfd := by
  have afterTest : ∃ errno,
      (if 0 ≤ (fcntlGetFlags flags process newfd).value
        then (close (fcntlGetFlags flags process newfd).process newfd).process
        else (fcntlGetFlags flags process newfd).process) =
        ⟨cleared process.table newfd, errno⟩ := by
    cases found : process.table.lookup newfd with
    | none => exact ⟨EBADF, by simp [fcntlGetFlags, found, Process.fail, cleared]⟩
    | some file => exact ⟨process.errno, by simp [fcntlGetFlags, found, close, cleared]⟩
  obtain ⟨errno, afterTestEq⟩ := afterTest
  unfold mydup2
  simp only [afterTestEq]
  by_cases same : oldfd = newfd
  · have gone : (cleared process.table newfd).lookup oldfd = none := by
      rw [lookup_cleared, if_pos same]
    refine ⟨EBADF, ?_⟩
    simp [same ▸ gone, fcntlGetFlags, Process.fail, same]
  · exact ⟨errno, if_neg same⟩

/-- Without a file to copy, `mydup2` fails, and `newfd` is closed. -/
theorem mydup2_fails (flags : File → Nat) (limit : Nat) {process : Process File}
    {oldfd newfd : Int} (nothing : process.table.lookup oldfd = none ∨ oldfd = newfd) :
    (mydup2 flags limit process oldfd newfd).value = -1 ∧
      (mydup2 flags limit process oldfd newfd).process.table = cleared process.table newfd := by
  obtain ⟨errno, duplicates⟩ := mydup2_eq flags limit process oldfd newfd
  have gone : (cleared process.table newfd).lookup oldfd = none := by
    rw [lookup_cleared]
    rcases nothing with notOpen | same
    · rw [notOpen, ite_self]
    · rw [if_pos same]
  rw [duplicates, fcntlDupFd_notOpen limit newfd gone]
  exact ⟨rfl, rfl⟩

/-- An open file is copied to any other descriptor. -/
theorem mydup2_copies (flags : File → Nat) {limit : Nat} {process : Process File}
    {oldfd newfd : Int} {file : File} (found : process.table.lookup oldfd = some file)
    (different : oldfd ≠ newfd) (nonneg : 0 ≤ newfd) (below : newfd < limit) :
    (mydup2 flags limit process oldfd newfd).value = newfd ∧
      (mydup2 flags limit process oldfd newfd).process.table =
        (cleared process.table newfd).assign newfd.toNat file := by
  obtain ⟨errno, duplicates⟩ := mydup2_eq flags limit process oldfd newfd
  have kept : (cleared process.table newfd).lookup oldfd = some file := by
    rw [lookup_cleared, if_neg different, found]
  have free : (cleared process.table newfd).lookup newfd = none := by
    rw [lookup_cleared, if_pos rfl]
  rw [duplicates, fcntlDupFd_free kept nonneg below free]
  exact ⟨rfl, rfl⟩

/-- The pairs for which the order of the tests does no harm. -/
def Harmless (table : DescriptorTable File) (oldfd newfd : Int) : Prop :=
  if table.lookup oldfd = none then table.lookup newfd = none else oldfd ≠ newfd

/-- `mydup2` behaves as `dup2` unless the two descriptors are one open descriptor, or only
`newfd` is open. -/
theorem mydup2_law_iff (flags : File → Nat) {limit : Nat} (process : Process File)
    {oldfd newfd : Int} (nonneg : 0 ≤ newfd) (below : newfd < limit) :
    Dup2Law process.table oldfd newfd (mydup2 flags limit process oldfd newfd) ↔
      Harmless process.table oldfd newfd := by
  unfold Harmless
  cases found : process.table.lookup oldfd with
  | none =>
      have fails := mydup2_fails flags limit (Or.inl found : _ ∨ oldfd = newfd)
      rw [if_pos rfl]
      constructor
      · intro law
        have unchanged := (law.notOpen found).2
        rw [fails.2] at unchanged
        rw [← unchanged, lookup_cleared, if_pos rfl]
      · intro free
        refine ⟨fun _ => ⟨fails.1, ?_⟩, fun isOpen => absurd found isOpen,
          fun isOpen => absurd found isOpen⟩
        rw [fails.2, cleared, if_pos free]
  | some file =>
      have isOpen : process.table.lookup oldfd ≠ none := by simp [found]
      rw [if_neg (Option.some_ne_none file)]
      constructor
      · intro law same
        have fails := mydup2_fails flags limit
          (Or.inr same : process.table.lookup oldfd = none ∨ _)
        have value := (law.same isOpen same).1
        rw [fails.1] at value
        omega
      · intro different
        have copies := mydup2_copies flags found different nonneg below
        refine ⟨fun notOpen => absurd notOpen isOpen, fun _ same => absurd same different,
          fun _ _ => ⟨copies.1, ?_, ?_⟩⟩
        · rw [copies.2, DescriptorTable.lookup_assign _ nonneg, if_pos rfl, found]
        · intro other another
          rw [copies.2, DescriptorTable.lookup_assign _ nonneg, if_neg another, lookup_cleared,
            if_neg another]

/-- Standard input and output, and descriptor 4. -/
def inputOutputFour : DescriptorTable Nat := fun fd =>
  if fd = 0 ∨ fd = 1 ∨ fd = 4 then some fd else none

theorem mydup2_law_input :
    (0 : Int) ≤ 4 ∧ (4 : Int) < (1024 : Nat) ∧
      (Dup2Law inputOutputFour 0 4 (mydup2 (fun _ => 2) 1024 ⟨inputOutputFour, 0⟩ 0 4) ↔
        Harmless inputOutputFour 0 4) :=
  ⟨by decide, by decide,
    mydup2_law_iff (fun _ => 2) ⟨inputOutputFour, 0⟩ (by decide) (by decide)⟩

/-- From descriptor 3, which is not open, `mydup2` fails to copy to 4, and 4 is lost. -/
theorem mydup2_loses_four :
    ¬ Dup2Law inputOutputFour 3 4 (mydup2 (fun _ => 2) 1024 ⟨inputOutputFour, 0⟩ 3 4) := by
  intro law
  have unchanged := (law.notOpen rfl).2
  have lost : (mydup2 (fun _ => 2) 1024 ⟨inputOutputFour, 0⟩ 3 4).process.table 4 = none := rfl
  rw [unchanged] at lost
  cases lost

end LinuxProgramming.Files.Dup2
