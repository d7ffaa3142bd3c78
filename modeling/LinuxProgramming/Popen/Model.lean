import Mathlib.Logic.Function.Basic
import LinuxProgramming.Library.CInt
import LinuxProgramming.Library.TransitionSystem

/-!
Contract: `my_popen` and `my_pclose`.

Owns:
- descriptor tables, and the one with which a child executes its command;
- the two functions on the state of the calling process, with every outcome of the system
  calls they make;
- the calls a process can make, and its runs.

Does not own: what a command does, and other functions the process calls.
-/

namespace LinuxProgramming.Popen

open LinuxProgramming.Library

/-- The bytes of a C string before its terminator. -/
abbrev CString := List UInt8

/-- A value of `errno`. -/
abbrev Errno := Nat

def EINVAL : Errno := 22

def STDIN_FILENO : Nat := 0

def STDOUT_FILENO : Nat := 1

def STDERR_FILENO : Nat := 2

/-- The mode `"r"`. -/
def modeRead : CString := [114]

/-- The mode `"w"`. -/
def modeWrite : CString := [119]

/-- `"sh"` and `"-c"`, the first arguments of `execl`. -/
def shellArguments : List CString := [[115, 104], [45, 99]]

/-! ### Descriptors -/

/-- What a descriptor leads to. -/
inductive File where
  | readEnd (pipe : Nat)
  | writeEnd (pipe : Nat)
  | other (file : Nat)
deriving DecidableEq, Repr

/-- The descriptors of a process. -/
abbrev Descriptors := Nat → Option File

namespace Descriptors

def close (descriptors : Descriptors) (fd : Nat) : Descriptors :=
  Function.update descriptors fd none

/-- `dup2(old, new)`, which does nothing if the two are equal. -/
def dup2 (descriptors : Descriptors) (old new : Nat) : Descriptors :=
  Function.update descriptors new (descriptors old)

def addPipe (descriptors : Descriptors) (fd : Nat × Nat) (pipe : Nat) : Descriptors :=
  Function.update (Function.update descriptors fd.1 (some (.readEnd pipe))) fd.2
    (some (.writeEnd pipe))

end Descriptors

/-- How `close` or `fclose` ends: one that fails may have released the descriptor. -/
inductive Closing where
  | closed
  | failed (errno : Errno) (released : Bool)
deriving DecidableEq, Repr

def Descriptors.afterClose (descriptors : Descriptors) (fd : Nat) : Closing → Descriptors
  | .closed => descriptors.close fd
  | .failed _ released => if released then descriptors.close fd else descriptors

/-- `errno` after a call whose failure is ignored. -/
def Closing.errno (before : Errno) : Closing → Errno
  | .closed => before
  | .failed errno _ => errno

/-! ### The process -/

/-- A child: its pid, the arguments of its `execl`, and the descriptors it executes the
command with unless it exits first. -/
structure Child where
  pid : Int
  arguments : List CString
  descriptors : Option Descriptors

/-- An open stream that `my_popen` returned, with the number of its pipe and the pid of the
child which that call created. -/
structure Stream where
  file : Nat
  fd : Nat
  is_pw : Bool
  pipe : Nat
  pid : Int
deriving DecidableEq, Repr

/-- The calling process. `children` are those not waited for yet, and `pipes` is the number
of pipes it has opened. -/
structure State where
  descriptors : Descriptors
  fd_pid : Option (List Int)
  fd_pid_sum : Int
  streams : List Stream
  children : List Child
  pipes : Nat

/-- What has no defined behaviour. -/
inductive Fault where
  /-- An access to `fd_pid` when it is a null pointer. -/
  | noTable
  /-- An access behind the end of `fd_pid`. -/
  | outsideTable
  /-- A stream that is not open. -/
  | notOpen
deriving DecidableEq, Repr

/-- `fd_pid[fd]`. -/
def readTable (fd_pid : Option (List Int)) (fd : Nat) : Except Fault Int :=
  match fd_pid with
  | none => .error .noTable
  | some pids =>
      match pids[fd]? with
      | none => .error .outsideTable
      | some pid => .ok pid

/-- `fd_pid[fd] = pid`. -/
def writeTable (fd_pid : Option (List Int)) (fd : Nat) (pid : Int) :
    Except Fault (Option (List Int)) :=
  match fd_pid with
  | none => .error .noTable
  | some pids =>
      if fd < pids.length then .ok (some (pids.set fd pid)) else .error .outsideTable

/-! ### `my_popen` -/

/-- Which calls of the child succeed. -/
structure ChildCalls where
  closeUnused : Bool
  dup2First : Bool
  dup2Second : Bool
  closeUsed : Bool
deriving DecidableEq, Repr

/-- The outcomes of the calls in `my_popen`. `malloc` returns memory for
`sysconf(_SC_OPEN_MAX)` pids, with any contents; no path closes more than two descriptors. -/
structure PopenCalls where
  pipe : Except Errno (Nat × Nat)
  fork : Except Errno Int
  child : ChildCalls
  malloc : Except Errno (List Int)
  firstClose : Closing
  fdopen : Except Errno Nat
  secondClose : Closing

/-- A call of the child, which exits if it fails. -/
def orExit (succeeds : Bool) (descriptors : Descriptors) : Option Descriptors :=
  if succeeds then some descriptors else none

/-- `case 0`: the descriptors at `execl`. -/
def childDescriptors (is_pw : Bool) (fd : Nat × Nat) (calls : ChildCalls)
    (descriptors : Descriptors) : Option Descriptors :=
  if is_pw then do
    let descriptors ← orExit calls.closeUnused (descriptors.close fd.2)
    let descriptors ← orExit calls.dup2First (descriptors.dup2 fd.1 STDIN_FILENO)
    orExit calls.closeUsed (descriptors.close fd.1)
  else do
    let descriptors ← orExit calls.closeUnused (descriptors.close fd.1)
    let descriptors ← orExit calls.dup2First (descriptors.dup2 fd.2 STDOUT_FILENO)
    let descriptors ← orExit calls.dup2Second (descriptors.dup2 fd.2 STDERR_FILENO)
    orExit calls.closeUsed (descriptors.close fd.2)

/-- `fd_pid` where the pid is entered: a new table if none of the streams counts. -/
def registry (calls : PopenCalls) (state : State) : Except Errno (Option (List Int)) :=
  if state.fd_pid_sum = 0 then calls.malloc.map some else .ok state.fd_pid

/-- The end of the pipe that the caller keeps. -/
def parent_pipe_fd (is_pw : Bool) (fd : Nat × Nat) : Nat := if is_pw then fd.2 else fd.1

/-- The end that it closes. -/
def unusedFd (is_pw : Bool) (fd : Nat × Nat) : Nat := if is_pw then fd.1 else fd.2

/-- `default`: the caller, after the pipe with this number was opened. -/
def popenParent (is_pw : Bool) (fd : Nat × Nat) (pipe : Nat) (child_pid : Int)
    (calls : PopenCalls) (state : State) : Except Fault (Except Errno Nat × State) :=
  match registry calls state with
  | .error errno => .ok (.error errno, { state with fd_pid := none })
  | .ok fd_pid =>
      let fd_pid_sum := CInt.wrap (state.fd_pid_sum + 1)
      let parent_pipe_fd := parent_pipe_fd is_pw fd
      let descriptors := state.descriptors.afterClose (unusedFd is_pw fd) calls.firstClose
      match calls.firstClose, calls.fdopen with
      | .failed errno _, _ =>
          .ok (.error (calls.secondClose.errno errno),
            { state with
              fd_pid, fd_pid_sum
              descriptors := descriptors.afterClose parent_pipe_fd calls.secondClose })
      | .closed, .error errno =>
          .ok (.error (calls.secondClose.errno errno),
            { state with
              fd_pid, fd_pid_sum
              descriptors := descriptors.afterClose parent_pipe_fd calls.secondClose })
      | .closed, .ok file => do
          let fd_pid ← writeTable fd_pid parent_pipe_fd child_pid
          let stream := { file, fd := parent_pipe_fd, is_pw, pipe, pid := child_pid }
          .ok (.ok file,
            { state with
              fd_pid, fd_pid_sum, descriptors
              streams := stream :: state.streams })

def myPopen (command mode : CString) (calls : PopenCalls) (state : State) :
    Except Fault (Except Errno Nat × State) :=
  if mode ≠ modeWrite ∧ mode ≠ modeRead then .ok (.error EINVAL, state)
  else
    let is_pw := decide (mode ≠ modeRead)
    match calls.pipe with
    | .error errno => .ok (.error errno, state)
    | .ok fd =>
        let descriptors := state.descriptors.addPipe fd state.pipes
        match calls.fork with
        | .error errno =>
            .ok (.error (calls.secondClose.errno (calls.firstClose.errno errno)),
              { state with
                descriptors :=
                  (descriptors.afterClose fd.1 calls.firstClose).afterClose fd.2
                    calls.secondClose
                pipes := state.pipes + 1 })
        | .ok child_pid =>
            let child :=
              { pid := child_pid
                arguments := shellArguments ++ [command]
                descriptors := childDescriptors is_pw fd calls.child descriptors }
            popenParent is_pw fd state.pipes child_pid calls
              { state with
                descriptors
                children := child :: state.children
                pipes := state.pipes + 1 }

/-! ### `my_pclose` -/

/-- What `waitpid` reports with `WUNTRACED`: a child that is only stopped stays. -/
structure WaitStatus where
  value : Int
  terminated : Bool
deriving DecidableEq, Repr

structure PcloseCalls where
  fclose : Closing
  waitpid : Except Errno WaitStatus

/-- The result, where an error is `-1`, and the pid given to `waitpid`. -/
structure PcloseResult where
  retval : Except Errno Int
  waited : Option Int

def myPclose (file : Nat) (calls : PcloseCalls) (state : State) :
    Except Fault (PcloseResult × State) :=
  match state.streams.find? fun stream => stream.file = file with
  | none => .error .notOpen
  | some stream => do
      let child_pid ← readTable state.fd_pid stream.fd
      let fd_pid_sum := CInt.wrap (state.fd_pid_sum - 1)
      let closed : State :=
        { state with
          fd_pid := if fd_pid_sum = 0 then none else state.fd_pid
          fd_pid_sum
          descriptors := state.descriptors.afterClose stream.fd calls.fclose
          streams := state.streams.eraseP fun stream => stream.file = file }
      match calls.fclose, calls.waitpid with
      | .failed errno _, _ => .ok (⟨.error errno, none⟩, closed)
      | .closed, .error errno => .ok (⟨.error errno, some child_pid⟩, closed)
      | .closed, .ok status =>
          let remaining := closed.children.eraseP fun child => child.pid = child_pid
          .ok (⟨.ok status.value, some child_pid⟩,
            { closed with
              children := if status.terminated then remaining else closed.children })

/-! ### Runs -/

inductive Call where
  | popen (command mode : CString) (calls : PopenCalls)
  | pclose (file : Nat) (calls : PcloseCalls)

/-- The state after a call, `none` if its behaviour is not defined. -/
def step : Call → State → Option State
  | .popen command mode calls, state => (myPopen command mode calls state).toOption.map Prod.snd
  | .pclose file calls, state => (myPclose file calls state).toOption.map Prod.snd

/-- What the kernel and the library give `my_popen`: two free descriptors, a pid that no
child has, and a stream that is not open. -/
structure PopenCalls.Possible (calls : PopenCalls) (state : State) : Prop where
  pipe : ∀ fd, calls.pipe = .ok fd →
    fd.1 ≠ fd.2 ∧ state.descriptors fd.1 = none ∧ state.descriptors fd.2 = none
  /-- Descriptors are below the limit that the table was made for. -/
  limit : ∀ fd pids, calls.pipe = .ok fd → registry calls state = .ok (some pids) →
    fd.1 < pids.length ∧ fd.2 < pids.length
  fork : ∀ pid, calls.fork = .ok pid →
    0 < pid ∧ pid ≤ CInt.INT_MAX ∧ ∀ child ∈ state.children, child.pid ≠ pid
  fdopen : ∀ file, calls.fdopen = .ok file → ∀ stream ∈ state.streams, stream.file ≠ file

/-- `my_pclose` is only given open streams of `my_popen`. -/
def Call.Possible (state : State) : Call → Prop
  | .popen _ _ calls => calls.Possible state
  | .pclose file _ => ∃ stream ∈ state.streams, stream.file = file

/-- The start of the process, with files of its own. -/
structure Initial (state : State) : Prop where
  descriptors : ∀ fd file, state.descriptors fd = some file → ∃ number, file = .other number
  fd_pid : state.fd_pid = none
  fd_pid_sum : state.fd_pid_sum = 0
  streams : state.streams = []
  children : state.children = []

/-- One process that makes any sequence of calls. -/
def system : TransitionSystem State :=
  labelledWhen Initial step fun call state => call.Possible state

end LinuxProgramming.Popen
