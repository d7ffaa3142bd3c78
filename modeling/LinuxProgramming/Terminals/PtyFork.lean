import Mathlib.Data.List.Basic
import LinuxProgramming.Library.CBuffer
import LinuxProgramming.Library.DescriptorTable

/-!
Contract: `ptyFork` and `ptyMasterOpen`.

Owns:
- the two functions in the caller and in the child, with every result of the calls they make;
- the descriptors of both processes, and `errno` in the caller.

Does not own: the attributes and the size of a terminal, and its session.
-/

namespace LinuxProgramming.Terminals.PtyFork

open LinuxProgramming.Library

universe u

abbrev Errno := Nat

def EMFILE : Errno := 24

def EOVERFLOW : Errno := 75

def STDIN_FILENO : Nat := 0

def STDOUT_FILENO : Nat := 1

def STDERR_FILENO : Nat := 2

def MAX_SNAME : Nat := 1000

/-- What a descriptor refers to: a file of the caller, the new master, or what was opened
under a name. -/
inductive File (Other : Type u) where
  | inherited (file : Other)
  | master
  | opened (name : List UInt8)

/-- The part of a process that the calls read and change. -/
structure Process (Other : Type u) where
  table : DescriptorTable (File Other)
  errno : Errno

/-- What `fork` gives the process that is looked at. -/
inductive Fork where
  | failed (errno : Errno)
  | parent (childPid : Int) (positive : 0 < childPid)
  | child

/-- The error of each call, if it fails. `close` releases its descriptor even then. -/
structure Outcomes where
  posix_openpt : Option Errno
  grantpt : Option Errno
  unlockpt : Option Errno
  /-- The memory that the result points to, or the error. -/
  ptsname : Except Errno (List UInt8)
  fork : Fork
  setsid : Option Errno
  openSlave : Option Errno
  ioctlTIOCSCTTY : Option Errno
  tcsetattr : Option Errno
  ioctlTIOCSWINSZ : Option Errno
  dup2 : Nat → Option Errno
  closeMaster : Option Errno
  closeSlave : Option Errno

variable {Other : Type u}

/-! ### The calls of the kernel -/

def Process.fail (process : Process Other) (errno : Errno) : Int × Process Other :=
  (-1, { process with errno })

/-- A call that changes neither descriptors nor, if it succeeds, `errno`. -/
def status (process : Process Other) : Option Errno → Int × Process Other
  | none => (0, process)
  | some errno => process.fail errno

/-- The descriptor that a call gets below `limit`, or its error. -/
def lowest (limit : Nat) (table : DescriptorTable (File Other)) (failure : Option Errno) :
    Except Errno Nat :=
  match failure, table.lowestFree 0 limit with
  | some errno, _ => .error errno
  | none, none => .error EMFILE
  | none, some fd => .ok fd

/-- `open` and `posix_openpt`, which give the lowest free descriptor. -/
def openFile (limit : Nat) (process : Process Other) (failure : Option Errno) (file : File Other) :
    Int × Process Other :=
  match lowest limit process.table failure with
  | .ok fd => (fd, { process with table := process.table.assign fd file })
  | .error errno => process.fail errno

def close (process : Process Other) (fd : Int) (failure : Option Errno) : Process Other where
  table := process.table.close fd.toNat
  errno := failure.getD process.errno

def dup2 (process : Process Other) (oldfd : Int) (newfd : Nat) :
    Option Errno → Int × Process Other
  | none => (newfd, { process with table := process.table.dup2 oldfd.toNat newfd })
  | some errno => process.fail errno

/-! ### `ptyMasterOpen` -/

/-- The string of a buffer. -/
def string (buffer : List UInt8) : List UInt8 := CBuffer.string 0 buffer

/-- `close`, with `errno` saved across it. -/
def closeKeepingErrno (process : Process Other) (fd : Int) (failure : Option Errno) :
    Process Other :=
  let savedErrno := process.errno
  { close process fd failure with errno := savedErrno }

/-- What `ptyMasterOpen` returns, and the buffer after it. -/
structure Opened (Other : Type u) where
  value : Int
  slaveName : List UInt8
  process : Process Other

def ptyMasterOpen (limit : Nat) (outcomes : Outcomes) (slaveName : List UInt8) (snLen : Nat)
    (process : Process Other) : Opened Other :=
  let opened := openFile limit process outcomes.posix_openpt .master
  let masterFd := opened.1
  if masterFd = -1 then ⟨-1, slaveName, opened.2⟩
  else
    let granted := status opened.2 outcomes.grantpt
    if granted.1 = -1 then
      ⟨-1, slaveName, closeKeepingErrno granted.2 masterFd outcomes.closeMaster⟩
    else
      let unlocked := status granted.2 outcomes.unlockpt
      if unlocked.1 = -1 then
        ⟨-1, slaveName, closeKeepingErrno unlocked.2 masterFd outcomes.closeMaster⟩
      else
        match outcomes.ptsname with
        | .error errno =>
            ⟨-1, slaveName,
              closeKeepingErrno { unlocked.2 with errno } masterFd outcomes.closeMaster⟩
        | .ok p =>
            if (string p).length < snLen then
              ⟨masterFd, CBuffer.strncpy 0 p snLen, unlocked.2⟩
            else
              ⟨-1, slaveName,
                { close unlocked.2 masterFd outcomes.closeMaster with errno := EOVERFLOW }⟩

/-! ### `ptyFork` -/

/-- `perror(message)` and `exit`, if a call failed. -/
def exitIf (failed : Bool) (message : String) : Except String PUnit :=
  if failed then .error message else .ok .unit

/-- The child, when the slave is open: what descriptors do not show. `slaveTermios` and
`slaveWs` say whether the pointers of these names are not `NULL`. -/
def configureSlave (outcomes : Outcomes) (slaveTermios slaveWs : Bool) (process : Process Other) :
    Except String (Process Other) := do
  let controlling := status process outcomes.ioctlTIOCSCTTY
  exitIf (controlling.1 = -1) "ptyFork:ioctl-TIOCSCTTY"
  let attributes :=
    if slaveTermios then status controlling.2 outcomes.tcsetattr else (0, controlling.2)
  exitIf (attributes.1 = -1) "ptyFork:tcsetattr"
  let size := if slaveWs then status attributes.2 outcomes.ioctlTIOCSWINSZ else (0, attributes.2)
  exitIf (size.1 = -1) "ptyFork:ioctl-TIOCSWINSZ"
  pure size.2

/-- The child from its first `dup2` on. -/
def redirect (outcomes : Outcomes) (slaveFd : Int) (process : Process Other) :
    Except String (Process Other) := do
  let input := dup2 process slaveFd STDIN_FILENO (outcomes.dup2 STDIN_FILENO)
  exitIf (input.1 ≠ STDIN_FILENO) "ptyFork:dup2-STDIN_FILENO"
  let output := dup2 input.2 slaveFd STDOUT_FILENO (outcomes.dup2 STDOUT_FILENO)
  exitIf (output.1 ≠ STDOUT_FILENO) "ptyFork:dup2-STDOUT_FILENO"
  let error := dup2 output.2 slaveFd STDERR_FILENO (outcomes.dup2 STDERR_FILENO)
  exitIf (error.1 ≠ STDERR_FILENO) "ptyFork:dup2-STDERR_FILENO"
  pure (if slaveFd > STDERR_FILENO then close error.2 slaveFd outcomes.closeSlave else error.2)

/-- The child behind `fork`, up to its return. -/
def childOfPtyFork (limit : Nat) (outcomes : Outcomes) (mfd : Int) (slname : List UInt8)
    (slaveTermios slaveWs : Bool) (process : Process Other) : Except String (Process Other) := do
  let session := status process outcomes.setsid
  exitIf (session.1 = -1) "ptyFork:setsid"
  let closed := close session.2 mfd outcomes.closeMaster
  let slave := openFile limit closed outcomes.openSlave (.opened (string slname))
  exitIf (slave.1 = -1) "ptyFork:open-slave"
  let configured ← configureSlave outcomes slaveTermios slaveWs slave.2
  redirect outcomes slave.1 configured

/-- What `ptyFork` returns, what it stores in `*masterFd` and behind `slaveName`, and the
process that it returns in; or how the child exits. -/
inductive Ended (Other : Type u) where
  | returned (value : Int) (masterFd : Option Int) (stored : Option (List UInt8))
      (process : Process Other)
  | exits (message : String)

/-- `ptyFork`, when `slname` is what its buffer holds at first. `slaveName` says whether the
pointer of this name is not `NULL`. -/
def ptyFork (limit : Nat) (outcomes : Outcomes) (slname : List UInt8) (slaveName : Bool)
    (snLen : Nat) (slaveTermios slaveWs : Bool) (process : Process Other) : Ended Other :=
  let opened := ptyMasterOpen limit outcomes slname MAX_SNAME process
  let mfd := opened.value
  if mfd = -1 then .returned (-1) none none opened.process
  else if slaveName ∧ ¬ (string opened.slaveName).length < snLen then
    .returned (-1) none none
      { close opened.process mfd outcomes.closeMaster with errno := EOVERFLOW }
  else
    let stored := if slaveName then some (CBuffer.strncpy 0 opened.slaveName snLen) else none
    match outcomes.fork with
    | .failed errno =>
        .returned (-1) none stored
          (closeKeepingErrno { opened.process with errno } mfd outcomes.closeMaster)
    | .parent childPid _ => .returned childPid (some mfd) stored opened.process
    | .child =>
        match childOfPtyFork limit outcomes mfd opened.slaveName slaveTermios slaveWs
          opened.process with
        | .error message => .exits message
        | .ok process => .returned 0 none stored process

/-! ### The law -/

/-- The caller has neither the new master nor the slave open. -/
def inherit (table : DescriptorTable Other) : DescriptorTable (File Other) :=
  fun fd => (table fd).map File.inherited

def errorOf {α : Type} : Except Errno α → Option Errno
  | .error errno => some errno
  | .ok _ => none

/-- The error for a name that does not fit into a buffer. -/
def nameError (outcomes : Outcomes) (size : Nat) : Option Errno :=
  match outcomes.ptsname with
  | .error _ => none
  | .ok p => if (string p).length < size then none else some EOVERFLOW

def Fork.error : Fork → Option Errno
  | .failed errno => some errno
  | _ => none

/-- The errors of the steps of `ptyMasterOpen`, in order. -/
def masterErrors (limit : Nat) (outcomes : Outcomes) (snLen : Nat)
    (table : DescriptorTable (File Other)) : List (Option Errno) :=
  [errorOf (lowest limit table outcomes.posix_openpt), outcomes.grantpt, outcomes.unlockpt,
    errorOf outcomes.ptsname, nameError outcomes snLen]

/-- The errors of the steps of `ptyFork` in the caller, in order. -/
def errors (limit : Nat) (outcomes : Outcomes) (slaveName : Bool) (snLen : Nat)
    (table : DescriptorTable (File Other)) : List (Option Errno) :=
  masterErrors limit outcomes MAX_SNAME table ++
    [if slaveName then nameError outcomes snLen else none, outcomes.fork.error]

/-- What holds when `ptyFork` returns: `failure` is the first error of its steps. -/
structure Returns (outcomes : Outcomes) (failure : Option Errno) (table : DescriptorTable Other)
    (value : Int) (masterFd : Option Int) (process : Process Other) : Prop where
  failed : value = -1 → process.table = inherit table ∧ failure = some process.errno
  parent : value ≠ -1 → value ≠ 0 →
    (∃ positive, outcomes.fork = .parent value positive) ∧
      ∃ fd : Nat, masterFd = some (fd : Int) ∧ table fd = none ∧
        process.table = (inherit table).assign fd .master
  child : value = 0 → outcomes.fork = .child ∧
    ∃ p, outcomes.ptsname = .ok p ∧
      (∀ fd, process.table fd = some (.opened (string p)) ↔ fd ≤ STDERR_FILENO) ∧
      (∀ fd, process.table fd ≠ some .master) ∧
      ∀ fd, STDERR_FILENO < fd → process.table fd = inherit table fd

/-- Only the child exits. -/
def Law (outcomes : Outcomes) (failure : Option Errno) (table : DescriptorTable Other) :
    Ended Other → Prop
  | .returned value masterFd _ process =>
      Returns outcomes failure table value masterFd process
  | .exits _ => outcomes.fork = .child

/-! ### The calls -/

theorem natCast_ne_neg_one (fd : Nat) : (fd : Int) ≠ -1 := by omega

@[simp] theorem status_table (process : Process Other) (failure : Option Errno) :
    (status process failure).2.table = process.table := by
  cases failure with
  | none => rfl
  | some errno => rfl

theorem lowest_free {limit fd : Nat} {table : DescriptorTable (File Other)}
    {failure : Option Errno} (granted : lowest limit table failure = .ok fd) :
    table fd = none := by
  unfold lowest at granted
  cases failure with
  | some errno => cases granted
  | none =>
      cases found : table.lowestFree 0 limit with
      | none =>
          rw [found] at granted
          cases granted
      | some first =>
          rw [found] at granted
          cases granted
          exact (DescriptorTable.lowestFree_eq_some.mp found).1

theorem openFile_opens {limit : Nat} {process : Process Other} {failure : Option Errno}
    {file : File Other} (opens : ¬ (openFile limit process failure file).1 = -1) :
    ∃ fd : Nat, process.table fd = none ∧ openFile limit process failure file =
      ((fd : Int), { process with table := process.table.assign fd file }) := by
  unfold openFile at opens ⊢
  cases granted : lowest limit process.table failure with
  | error errno =>
      rw [granted] at opens
      exact absurd rfl opens
  | ok fd => exact ⟨fd, lowest_free granted, rfl⟩

theorem dup2_table {process : Process Other} {oldfd : Int} {newfd : Nat} {failure : Option Errno}
    (copies : (dup2 process oldfd newfd failure).1 = newfd) :
    (dup2 process oldfd newfd failure).2.table = process.table.dup2 oldfd.toNat newfd := by
  cases failure with
  | none => rfl
  | some errno => exact absurd copies.symm (natCast_ne_neg_one newfd)

/-- A new descriptor that is closed leaves no trace in the table. -/
theorem close_new {table : DescriptorTable (File Other)} {fd : Nat} (free : table fd = none)
    (file : File Other) (errno : Errno) (failure : Option Errno) :
    close ⟨table.assign fd file, errno⟩ fd failure = ⟨table, failure.getD errno⟩ := by
  rw [close, Int.toNat_natCast, DescriptorTable.close_assign free]

theorem closeKeepingErrno_new {table : DescriptorTable (File Other)} {fd : Nat}
    (free : table fd = none) (file : File Other) (errno : Errno) (failure : Option Errno) :
    closeKeepingErrno ⟨table.assign fd file, errno⟩ fd failure = ⟨table, errno⟩ := by
  rw [closeKeepingErrno, close_new free]

/-! ### The caller -/

/-- How `ptyMasterOpen` ends: with the error of its first step that fails, or with a new
master, when none does. -/
inductive MasterEnds (limit : Nat) (outcomes : Outcomes) (snLen : Nat)
    (table : DescriptorTable (File Other)) : Opened Other → Prop
  | failed (slaveName : List UInt8) {errno : Errno}
      (error : (masterErrors limit outcomes snLen table).findSome? id = some errno) :
      MasterEnds limit outcomes snLen table ⟨-1, slaveName, ⟨table, errno⟩⟩
  | opened {fd : Nat} {p : List UInt8} (free : table fd = none)
      (named : outcomes.ptsname = .ok p) (fits : (string p).length < snLen) (errno : Errno)
      (succeed : (masterErrors limit outcomes snLen table).findSome? id = none) :
      MasterEnds limit outcomes snLen table
        ⟨fd, CBuffer.strncpy 0 p snLen, ⟨table.assign fd .master, errno⟩⟩

theorem ptyMasterOpen_ends (limit : Nat) (outcomes : Outcomes) (slaveName : List UInt8)
    (snLen : Nat) (table : DescriptorTable (File Other)) (errno : Errno) :
    MasterEnds limit outcomes snLen table
      (ptyMasterOpen limit outcomes slaveName snLen ⟨table, errno⟩) := by
  unfold ptyMasterOpen openFile
  cases granted : lowest limit table outcomes.posix_openpt with
  | error failure => exact .failed slaveName (by simp [masterErrors, granted, errorOf])
  | ok fd =>
      have free := lowest_free granted
      have kept := closeKeepingErrno_new free .master
      simp only [natCast_ne_neg_one, ↓reduceIte]
      cases grant : outcomes.grantpt with
      | some failure =>
          simp only [status, Process.fail, kept, ↓reduceIte]
          exact .failed slaveName (by simp [masterErrors, granted, grant, errorOf])
      | none =>
          simp only [status, Int.reduceNeg, reduceCtorEq, ↓reduceIte]
          cases unlock : outcomes.unlockpt with
          | some failure =>
              simp only [Process.fail, kept, ↓reduceIte]
              exact .failed slaveName (by simp [masterErrors, granted, grant, unlock, errorOf])
          | none =>
              simp only [Int.reduceNeg, reduceCtorEq, ↓reduceIte]
              cases named : outcomes.ptsname with
              | error failure =>
                  simp only [kept]
                  exact .failed slaveName
                    (by simp [masterErrors, granted, grant, unlock, named, errorOf])
              | ok p =>
                  by_cases fits : (string p).length < snLen
                  · simp only [fits, ↓reduceIte]
                    exact .opened free named fits errno (by simp [masterErrors, granted, grant,
                      unlock, named, errorOf, nameError, fits])
                  · simp only [fits, close_new free, ↓reduceIte]
                    exact .failed slaveName (by simp [masterErrors, granted, grant, unlock, named,
                      errorOf, nameError, fits])

/-! ### The child -/

theorem bind_eq_ok {α β : Type u} {program : Except String α} {next : α → Except String β}
    {result : β} (returns : (program >>= next) = .ok result) :
    ∃ value, program = .ok value ∧ next value = .ok result := by
  cases program with
  | error message => cases returns
  | ok value => exact ⟨value, rfl, returns⟩

theorem of_exitIf {failed : Bool} {message : String} {value : PUnit}
    (returns : exitIf failed message = .ok value) : failed = false := by
  cases failed with
  | true => cases returns
  | false => rfl

theorem configureSlave_table {outcomes : Outcomes} {slaveTermios slaveWs : Bool}
    {process configured : Process Other}
    (returns : configureSlave outcomes slaveTermios slaveWs process = .ok configured) :
    configured.table = process.table := by
  obtain ⟨_, _, returns⟩ := bind_eq_ok returns
  obtain ⟨_, _, returns⟩ := bind_eq_ok returns
  obtain ⟨_, _, returns⟩ := bind_eq_ok returns
  cases returns
  cases slaveTermios with
  | false => cases slaveWs with
    | false => simp
    | true => simp
  | true => cases slaveWs with
    | false => simp
    | true => simp

def standardDescriptors : List Nat := [STDIN_FILENO, STDOUT_FILENO, STDERR_FILENO]

theorem mem_standardDescriptors {fd : Nat} :
    fd ∈ standardDescriptors ↔ fd ≤ STDERR_FILENO := by
  simp only [standardDescriptors, STDIN_FILENO, STDOUT_FILENO, STDERR_FILENO, List.mem_cons,
    List.not_mem_nil, or_false]
  omega

/-- The slave, new at its descriptor, is in the end on the standard descriptors and on no
other. -/
theorem redirect_table {outcomes : Outcomes} {table : DescriptorTable (File Other)} {slaveFd : Nat}
    {slave : File Other} {process redirected : Process Other} (free : table slaveFd = none)
    (isOpen : process.table = table.assign slaveFd slave)
    (returns : redirect outcomes slaveFd process = .ok redirected) (fd : Nat) :
    redirected.table fd = if fd ≤ STDERR_FILENO then some slave else table fd := by
  obtain ⟨_, input, returns⟩ := bind_eq_ok returns
  obtain ⟨_, output, returns⟩ := bind_eq_ok returns
  obtain ⟨_, error, returns⟩ := bind_eq_ok returns
  have inputTable := dup2_table (not_not.mp (of_decide_eq_false (of_exitIf input)))
  have outputTable := dup2_table (not_not.mp (of_decide_eq_false (of_exitIf output)))
  have errorTable := dup2_table (not_not.mp (of_decide_eq_false (of_exitIf error)))
  rw [outputTable, inputTable, isOpen, Int.toNat_natCast] at errorTable
  have moved := DescriptorTable.moved free slave standardDescriptors fd
  simp only [mem_standardDescriptors] at moved
  rw [← moved]
  cases returns
  by_cases beyond : (slaveFd : Int) > STDERR_FILENO
  · have notStandard : ¬ slaveFd ≤ STDERR_FILENO := by omega
    rw [if_pos beyond, if_neg notStandard, close, errorTable, Int.toNat_natCast]
    rfl
  · have standard : slaveFd ≤ STDERR_FILENO := by omega
    rw [if_neg beyond, if_pos standard, errorTable]
    rfl

/-- When the child returns, the slave is on the standard descriptors and on no other. -/
theorem childOfPtyFork_table {limit : Nat} {outcomes : Outcomes} {slname : List UInt8}
    {slaveTermios slaveWs : Bool} {table : DescriptorTable (File Other)} {mfd : Nat}
    {errno : Errno} {process : Process Other} (free : table mfd = none)
    (returns : childOfPtyFork limit outcomes mfd slname slaveTermios slaveWs
      ⟨table.assign mfd .master, errno⟩ = .ok process) (fd : Nat) :
    process.table fd =
      if fd ≤ STDERR_FILENO then some (.opened (string slname)) else table fd := by
  obtain ⟨_, _, returns⟩ := bind_eq_ok returns
  obtain ⟨_, opens, returns⟩ := bind_eq_ok returns
  obtain ⟨configured, configures, redirects⟩ := bind_eq_ok returns
  obtain ⟨slaveFd, slaveFree, slaveIs⟩ :=
    openFile_opens (of_decide_eq_false (of_exitIf opens))
  have closedTable : (close (status ⟨table.assign mfd .master, errno⟩ outcomes.setsid).2 mfd
      outcomes.closeMaster).table = table := by
    rw [close, status_table, Int.toNat_natCast, DescriptorTable.close_assign free]
  rw [slaveIs] at configures redirects
  rw [closedTable] at slaveFree
  have configuredTable := configureSlave_table configures
  simp only [closedTable] at configuredTable
  exact redirect_table slaveFree configuredTable redirects fd

/-! ### `ptyFork` -/

theorem string_strncpy {p : List UInt8} {size : Nat} (fits : (string p).length < size) :
    string (CBuffer.strncpy 0 p size) = string p :=
  CBuffer.string_strncpy fits

theorem inherit_eq_none {table : DescriptorTable Other} {fd : Nat} :
    inherit table fd = none ↔ table fd = none :=
  Option.map_eq_none_iff

/-- A file of the caller is neither the new master nor the slave. -/
theorem inherit_ne {table : DescriptorTable Other} {fd : Nat} {file : File Other}
    (new : ∀ other, file ≠ .inherited other) : inherit table fd ≠ some file := by
  intro same
  obtain ⟨other, _, isFile⟩ := Option.map_eq_some_iff.mp same
  exact new other isFile.symm

/-- The errors of the caller behind `ptyMasterOpen`. -/
theorem errors_behind_master {limit : Nat} {outcomes : Outcomes}
    {table : DescriptorTable (File Other)} (slaveName : Bool) (snLen : Nat)
    (succeed : (masterErrors limit outcomes MAX_SNAME table).findSome? id = none) :
    (errors limit outcomes slaveName snLen table).findSome? id =
      (if slaveName then nameError outcomes snLen else none).or outcomes.fork.error := by
  rw [errors, List.findSome?_append, succeed, Option.none_or]
  cases slaveName with
  | false => cases outcomes.fork.error with
    | none => rfl
    | some errno => rfl
  | true => cases nameError outcomes snLen with
    | none => cases outcomes.fork.error with
      | none => rfl
      | some errno => rfl
    | some errno => rfl

theorem returns_failed (outcomes : Outcomes) {failure : Option Errno} {errno : Errno}
    (table : DescriptorTable Other) (failed : failure = some errno) :
    Returns outcomes failure table (-1) none ⟨inherit table, errno⟩ :=
  ⟨fun _ => ⟨rfl, failed⟩, fun returned => absurd rfl returned, fun returned => by cases returned⟩

theorem returns_child {outcomes : Outcomes} {failure : Option Errno} {table : DescriptorTable Other}
    {p : List UInt8} {process : Process Other} (forked : outcomes.fork = .child)
    (named : outcomes.ptsname = .ok p)
    (tableIs : ∀ fd, process.table fd =
      if fd ≤ STDERR_FILENO then some (.opened (string p)) else inherit table fd) :
    Returns outcomes failure table 0 none process := by
  refine ⟨fun failed => absurd failed (by decide), fun _ returned => absurd rfl returned,
    fun _ => ⟨forked, p, named, ?_, ?_, ?_⟩⟩
  · intro fd
    rw [tableIs fd]
    by_cases standard : fd ≤ STDERR_FILENO
    · simp [standard]
    · rw [if_neg standard]
      exact iff_of_false (inherit_ne fun other => by simp) standard
  · intro fd
    rw [tableIs fd]
    by_cases standard : fd ≤ STDERR_FILENO
    · simp [standard]
    · rw [if_neg standard]
      exact inherit_ne fun other => by simp
  · intro fd beyond
    rw [tableIs fd, if_neg (Nat.not_le_of_lt beyond)]

/-- Whatever the calls return, a failure leaves the caller as it was but for the error of the
step that failed, the parent has the new master only, and the child the slave on the
standard descriptors only. -/
theorem ptyFork_law (limit : Nat) (outcomes : Outcomes) (slname : List UInt8) (slaveName : Bool)
    (snLen : Nat) (slaveTermios slaveWs : Bool) (table : DescriptorTable Other) (errno : Errno) :
    Law outcomes ((errors limit outcomes slaveName snLen (inherit table)).findSome? id) table
      (ptyFork limit outcomes slname slaveName snLen slaveTermios slaveWs
        ⟨inherit table, errno⟩) := by
  have ends := ptyMasterOpen_ends limit outcomes slname MAX_SNAME (inherit table) errno
  unfold ptyFork
  generalize ptyMasterOpen limit outcomes slname MAX_SNAME ⟨inherit table, errno⟩ = opened
    at ends ⊢
  cases ends with
  | @failed buffer failure error =>
      have first : (errors limit outcomes slaveName snLen (inherit table)).findSome? id =
          some failure := by
        rw [errors, List.findSome?_append, error, Option.some_or]
      simp only [↓reduceIte]
      exact returns_failed outcomes table first
  | @opened fd p free named fits errno succeed =>
      rw [errors_behind_master slaveName snLen succeed]
      simp only [natCast_ne_neg_one, ↓reduceIte, string_strncpy fits]
      by_cases tooLong : slaveName ∧ ¬ (string p).length < snLen
      · have overflow : nameError outcomes snLen = some EOVERFLOW := by
          simp only [nameError, named, tooLong.2, ↓reduceIte]
        rw [if_pos tooLong, if_pos tooLong.1, overflow, close_new free]
        exact returns_failed outcomes table rfl
      · have fitsCaller : (if slaveName then nameError outcomes snLen else none) = none := by
          by_cases given : slaveName = true
          · have short : (string p).length < snLen := by
              by_contra long
              exact tooLong ⟨given, long⟩
            simp only [given, nameError, named, short, ↓reduceIte]
          · rw [if_neg given]
        rw [if_neg tooLong, fitsCaller, Option.none_or]
        cases forks : outcomes.fork with
        | failed failure =>
            simp only [closeKeepingErrno_new free]
            exact returns_failed outcomes table rfl
        | parent childPid positive =>
            refine ⟨fun failed => ?_, fun _ _ => ?_, fun returned => ?_⟩
            · omega
            · exact ⟨⟨positive, forks⟩, fd, rfl, inherit_eq_none.mp free, rfl⟩
            · omega
        | child =>
            simp only
            cases returns : childOfPtyFork limit outcomes fd (CBuffer.strncpy 0 p MAX_SNAME)
              slaveTermios slaveWs ⟨(inherit table).assign fd .master, errno⟩ with
            | error message => exact forks
            | ok process =>
                have tableIs := childOfPtyFork_table free returns
                rw [string_strncpy fits] at tableIs
                exact returns_child forks named tableIs

/-- All calls succeed, in the child. -/
def inChild : Outcomes where
  posix_openpt := none
  grantpt := none
  unlockpt := none
  ptsname := .ok [47, 52]
  fork := .child
  setsid := none
  openSlave := none
  ioctlTIOCSCTTY := none
  tcsetattr := none
  ioctlTIOCSWINSZ := none
  dup2 _ := none
  closeMaster := none
  closeSlave := none

-- Without standard input, the master and then the slave get descriptor 0.
example : ∃ process : Process Nat,
    ptyFork 16 inChild [] true 8 true false
      ⟨inherit fun fd => if fd = 1 then some 7 else none, 0⟩ =
        .returned 0 none (some [47, 52, 0, 0, 0, 0, 0, 0]) process ∧
      process.table 3 = none :=
  ⟨_, rfl, rfl⟩

end LinuxProgramming.Terminals.PtyFork
