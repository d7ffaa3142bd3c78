import LinuxProgramming.Signals.Posix

/-!
Contract: `my_system`.

Owns:
- the function in the caller and in the child, with every result of `fork` and `waitpid`;
- the mask, the dispositions and `errno` of the caller afterwards, and the mask and the
  dispositions with which the child executes the shell.

Does not own: the shell, and signals that arrive meanwhile.
-/

namespace LinuxProgramming.Signals.MySystem

open LinuxProgramming.Signals

abbrev Errno := Nat

def EINTR : Errno := 4

def SIGINT : Int := 2

def SIGQUIT : Int := 3

def SIGCHLD : Int := 17

def sigemptyset : Sigset := fun _ => false

/-- `":"`. -/
def colon : List UInt8 := [58]

/-- `"/bin/sh"`. -/
def binSh : List UInt8 := [47, 98, 105, 110, 47, 115, 104]

/-- `"sh"`. -/
def sh : List UInt8 := [115, 104]

/-- `"-c"`. -/
def dashC : List UInt8 := [45, 99]

/-- `sigaction(sig, act, oldact)`, whose result is not looked at. -/
def sigaction (process : Process) (sig : Int) (act : Sigaction) : Process × Sigaction :=
  ((process.setSigaction sig act).getD process, process.disposition sig)

/-- `sigprocmask(SIG_BLOCK, set, oldset)`. -/
def sigprocmaskBlock (process : Process) (set : Sigset) : Process × Sigset :=
  (process.setMask fun sig => process.mask sig || set sig, process.mask)

/-- What `fork` comes to: its error, or a child and what the calls of `waitpid` for it return,
one after the other. -/
inductive Fork where
  | failed (errno : Errno)
  | child (waits : List (Except Errno Int))

/-- What the calls behind `savedErrno = errno` leave in `errno`, though they succeed. -/
structure Restoring where
  sigprocmask : Errno → Errno
  sigactionInt : Errno → Errno
  sigactionQuit : Errno → Errno

/-- A call of `execl`. -/
structure Execl where
  path : List UInt8
  arguments : List (List UInt8)
  process : Process

/-- The caller behind `my_system`. -/
structure Returned where
  value : Int
  process : Process
  errno : Errno

/-- The child, and the caller where it does not wait for ever. -/
structure Run where
  child : Option Execl
  caller : Option Returned

/-! ### The function -/

/-- The loop around `waitpid`: `status` and `errno` behind it. -/
def waitLoop : List (Except Errno Int) → Errno → Option (Int × Errno)
  | [], _ => none
  | .ok status :: _, errno => some (status, errno)
  | .error errno :: rest, _ => if errno ≠ EINTR then some (-1, errno) else waitLoop rest errno

def saIgnore : Sigaction := ⟨.SIG_IGN, sigemptyset, 0⟩

def saDefault : Sigaction := ⟨.SIG_DFL, sigemptyset, 0⟩

/-- A signal that was not ignored gets its default. -/
def reset (process : Process) (sig : Int) (saOrig : Sigaction) : Process :=
  if saOrig.sa_handler ≠ .SIG_IGN then (sigaction process sig saDefault).1 else process

/-- The child, up to `execl`. -/
def childRun (process : Process) (origMask : Sigset) (saOrigInt saOrigQuit : Sigaction)
    (command : List UInt8) : Execl :=
  let process := reset process SIGINT saOrigInt
  let process := reset process SIGQUIT saOrigQuit
  let process := process.setMask origMask
  ⟨binSh, [sh, dashC, command], process⟩

/-- The caller, behind the `switch`. -/
def restore (origMask : Sigset) (saOrigInt saOrigQuit : Sigaction) (restoring : Restoring)
    (caller : Returned) : Returned :=
  let savedErrno := caller.errno
  let caller :=
    { caller with
      process := caller.process.setMask origMask
      errno := restoring.sigprocmask caller.errno }
  let caller :=
    { caller with
      process := (sigaction caller.process SIGINT saOrigInt).1
      errno := restoring.sigactionInt caller.errno }
  let caller :=
    { caller with
      process := (sigaction caller.process SIGQUIT saOrigQuit).1
      errno := restoring.sigactionQuit caller.errno }
  { caller with errno := savedErrno }

/-- `my_system` with a command. -/
def systemCommand (fork : Fork) (restoring : Restoring) (command : List UInt8)
    (process : Process) (errno : Errno) : Run :=
  let blockMask := (sigaddset sigemptyset SIGCHLD).getD sigemptyset
  let (process, origMask) := sigprocmaskBlock process blockMask
  let (process, saOrigInt) := sigaction process SIGINT saIgnore
  let (process, saOrigQuit) := sigaction process SIGQUIT saIgnore
  match fork with
  | .failed errno =>
      ⟨none, some (restore origMask saOrigInt saOrigQuit restoring ⟨-1, process, errno⟩)⟩
  | .child waits =>
      ⟨some (childRun process origMask saOrigInt saOrigQuit command),
        (waitLoop waits errno).map fun ended =>
          restore origMask saOrigInt saOrigQuit restoring ⟨ended.1, process, ended.2⟩⟩

/-- `my_system`; a null pointer is replaced by a command that does nothing. -/
def mySystem (fork : Fork) (restoring : Restoring) (command : Option (List UInt8))
    (process : Process) (errno : Errno) : Run :=
  systemCommand fork restoring (command.getD colon) process errno

/-! ### What it has to do -/

/-- What the calls of `waitpid` come to, after any number of interruptions. -/
inductive Reported : Fork → Int → Errno → Prop
  | forkFailed (errno : Errno) : Reported (.failed errno) (-1) errno
  | status (interruptions : Nat) (status : Int) (rest : List (Except Errno Int)) (errno : Errno) :
      Reported (.child (List.replicate interruptions (.error EINTR) ++ .ok status :: rest))
        status errno
  | waitFailed (interruptions : Nat) {errno : Errno} (other : errno ≠ EINTR)
      (rest : List (Except Errno Int)) :
      Reported (.child (List.replicate interruptions (.error EINTR) ++ .error errno :: rest))
        (-1) errno

/-- The shell is executed with the mask of the caller, and with the dispositions of the caller
but for `SIGINT` and `SIGQUIT`: these have their default unless the caller ignores them. -/
structure Executes (before : Process) (command : List UInt8) (execl : Execl) : Prop where
  path : execl.path = binSh
  arguments : execl.arguments = [sh, dashC, command]
  mask : execl.process.mask = before.mask
  handler : ∀ sig, sig = SIGINT ∨ sig = SIGQUIT → (execl.process.disposition sig).sa_handler =
    if (before.disposition sig).sa_handler = .SIG_IGN then .SIG_IGN else .SIG_DFL
  other : ∀ sig, sig ≠ SIGINT → sig ≠ SIGQUIT →
    execl.process.disposition sig = before.disposition sig

/-- The caller has the mask and the dispositions that it had, and is told how the child ended,
or what failed. It may wait for ever only if `waitpid` is interrupted again and again. -/
structure Law (fork : Fork) (command : List UInt8) (before : Process) (run : Run) : Prop where
  mask : ∀ returned, run.caller = some returned → returned.process.mask = before.mask
  disposition : ∀ returned, run.caller = some returned →
    returned.process.disposition = before.disposition
  reported : ∀ returned, run.caller = some returned →
    Reported fork returned.value returned.errno
  waits : run.caller = none → ∃ interruptions,
    fork = .child (List.replicate interruptions (.error EINTR))
  child : ∀ waits, fork = .child waits →
    ∃ execl, run.child = some execl ∧ Executes before command execl

/-! ### The calls -/

theorem sigaction_eq (process : Process) {sig : Int} (settable : IsSignal sig ∧ ¬Unblockable sig)
    (act : Sigaction) :
    (sigaction process sig act).1 =
      { process with disposition := Function.update process.disposition sig act } := by
  rw [sigaction, Process.setSigaction, if_pos settable, Option.getD_some]

/-- To set the mask that some process has gives exactly this mask. -/
theorem setMask_mask (process before : Process) :
    (process.setMask before.mask).mask = before.mask := by
  funext sig
  change (!decide (Unblockable sig) && before.mask sig) = before.mask sig
  by_cases unblockable : Unblockable sig
  · rw [before.unblockable sig unblockable, Bool.and_false]
  · rw [decide_eq_false unblockable]
    rfl

theorem settable_int : IsSignal SIGINT ∧ ¬Unblockable SIGINT := by decide

theorem settable_quit : IsSignal SIGQUIT ∧ ¬Unblockable SIGQUIT := by decide

/-- One more interruption in front. -/
theorem Reported.cons {waits : List (Except Errno Int)} {value : Int} {errno : Errno}
    (reported : Reported (.child waits) value errno) :
    Reported (.child (.error EINTR :: waits)) value errno := by
  cases reported with
  | status interruptions status rest => exact .status (interruptions + 1) value rest errno
  | waitFailed interruptions other rest => exact .waitFailed (interruptions + 1) other rest

/-- The loop ends at the first result that is not an interruption. -/
theorem waitLoop_reported (waits : List (Except Errno Int)) (errno : Errno) :
    (∀ ended, waitLoop waits errno = some ended → Reported (.child waits) ended.1 ended.2) ∧
      (waitLoop waits errno = none →
        ∃ interruptions, waits = List.replicate interruptions (.error EINTR)) := by
  induction waits generalizing errno with
  | nil => exact ⟨fun _ ended => absurd ended.symm (Option.some_ne_none _), fun _ => ⟨0, rfl⟩⟩
  | cons result rest inductionHypothesis =>
      cases result with
      | ok status =>
          refine ⟨fun ended same => ?_, fun waiting => absurd waiting (Option.some_ne_none _)⟩
          obtain rfl := Option.some.inj same
          exact .status 0 status rest errno
      | error failure =>
          rw [waitLoop]
          split
          case isTrue other =>
            refine ⟨fun ended same => ?_, fun waiting => absurd waiting (Option.some_ne_none _)⟩
            obtain rfl := Option.some.inj same
            exact .waitFailed 0 other rest
          case isFalse interrupted =>
            obtain rfl : failure = EINTR := not_not.mp interrupted
            obtain ⟨reported, waiting⟩ := inductionHypothesis EINTR
            refine ⟨fun ended same => (reported ended same).cons, fun none_ => ?_⟩
            obtain ⟨interruptions, rfl⟩ := waiting none_
            exact ⟨interruptions + 1, rfl⟩

/-! ### The caller and the child -/

/-- `SIGCHLD` is blocked, and `SIGINT` is ignored. -/
def ignoringInt (before : Process) : Process :=
  (sigaction (sigprocmaskBlock before ((sigaddset sigemptyset SIGCHLD).getD sigemptyset)).1 SIGINT
    saIgnore).1

/-- The process at `fork`. -/
def atFork (before : Process) : Process := (sigaction (ignoringInt before) SIGQUIT saIgnore).1

theorem ignoringInt_disposition (before : Process) :
    (ignoringInt before).disposition = Function.update before.disposition SIGINT saIgnore := by
  rw [ignoringInt, sigaction_eq _ settable_int]
  rfl

theorem atFork_disposition (before : Process) :
    (atFork before).disposition =
      Function.update (Function.update before.disposition SIGINT saIgnore) SIGQUIT saIgnore := by
  rw [atFork, sigaction_eq _ settable_quit, ← ignoringInt_disposition]

/-- The second of the saved dispositions is that of the caller too. -/
theorem saved_quit (before : Process) :
    (sigaction (ignoringInt before) SIGQUIT saIgnore).2 = before.disposition SIGQUIT := by
  change (ignoringInt before).disposition SIGQUIT = _
  rw [ignoringInt_disposition]
  exact Function.update_of_ne (by decide) ..

theorem systemCommand_failed (restoring : Restoring) (command : List UInt8) (before : Process)
    (failure errno : Errno) :
    systemCommand (.failed failure) restoring command before errno =
      ⟨none, some (restore before.mask (before.disposition SIGINT) (before.disposition SIGQUIT)
        restoring ⟨-1, atFork before, failure⟩)⟩ := by
  rw [← saved_quit before]
  rfl

theorem systemCommand_child (waits : List (Except Errno Int)) (restoring : Restoring)
    (command : List UInt8) (before : Process) (errno : Errno) :
    systemCommand (.child waits) restoring command before errno =
      ⟨some (childRun (atFork before) before.mask (before.disposition SIGINT)
          (before.disposition SIGQUIT) command),
        (waitLoop waits errno).map fun ended =>
          restore before.mask (before.disposition SIGINT) (before.disposition SIGQUIT) restoring
            ⟨ended.1, atFork before, ended.2⟩⟩ := by
  rw [← saved_quit before]
  rfl

theorem restore_mask (before : Process) (saOrigInt saOrigQuit : Sigaction)
    (restoring : Restoring) (caller : Returned) :
    (restore before.mask saOrigInt saOrigQuit restoring caller).process.mask = before.mask := by
  rw [restore]
  dsimp only
  rw [sigaction_eq _ settable_quit, sigaction_eq _ settable_int]
  exact setMask_mask caller.process before

theorem restore_disposition (before : Process) (restoring : Restoring) (value : Int)
    (errno : Errno) :
    (restore before.mask (before.disposition SIGINT) (before.disposition SIGQUIT) restoring
      ⟨value, atFork before, errno⟩).process.disposition = before.disposition := by
  rw [restore]
  dsimp only
  rw [sigaction_eq _ settable_quit, sigaction_eq _ settable_int]
  change Function.update (Function.update (atFork before).disposition SIGINT _) SIGQUIT _ = _
  rw [atFork_disposition]
  funext sig
  by_cases quit : sig = SIGQUIT
  · rw [quit, Function.update_self]
  · rw [Function.update_of_ne quit]
    by_cases int : sig = SIGINT
    · rw [int, Function.update_self]
    · rw [Function.update_of_ne int, Function.update_of_ne quit, Function.update_of_ne int]

theorem reset_disposition (process : Process) {sig : Int}
    (settable : IsSignal sig ∧ ¬Unblockable sig) (saOrig : Sigaction) (other : Int) :
    (reset process sig saOrig).disposition other =
      if other = sig ∧ saOrig.sa_handler ≠ .SIG_IGN then saDefault
      else process.disposition other := by
  rw [reset]
  split
  case isTrue set =>
    rw [sigaction_eq _ settable]
    change Function.update process.disposition sig saDefault other = _
    rw [Function.update_apply]
    exact if_congr (and_iff_left set).symm rfl rfl
  case isFalse ignored => rw [if_neg fun both => ignored both.2]

theorem atFork_ignores (before : Process) (sig : Int) (either : sig = SIGINT ∨ sig = SIGQUIT) :
    (atFork before).disposition sig = saIgnore := by
  rw [atFork_disposition]
  rcases either with rfl | rfl
  · rw [Function.update_of_ne (by decide), Function.update_self]
  · rw [Function.update_self]

theorem childRun_executes (before : Process) (command : List UInt8) :
    Executes before command
      (childRun (atFork before) before.mask (before.disposition SIGINT)
        (before.disposition SIGQUIT) command) where
  path := rfl
  arguments := rfl
  mask := setMask_mask _ before
  handler sig either := by
    change ((reset (reset (atFork before) SIGINT _) SIGQUIT _).disposition sig).sa_handler = _
    rw [reset_disposition _ settable_quit, reset_disposition _ settable_int,
      atFork_ignores before sig either]
    rcases either with rfl | rfl
    · rw [if_neg fun both => absurd both.1 (by decide)]
      by_cases ignored : (before.disposition SIGINT).sa_handler = .SIG_IGN
      · rw [if_neg fun both => both.2 ignored, if_pos ignored]
        rfl
      · rw [if_pos ⟨rfl, ignored⟩, if_neg ignored]
        rfl
    · by_cases ignored : (before.disposition SIGQUIT).sa_handler = .SIG_IGN
      · rw [if_neg fun both => both.2 ignored, if_neg fun both => absurd both.1 (by decide),
          if_pos ignored]
        rfl
      · rw [if_pos ⟨rfl, ignored⟩, if_neg ignored]
        rfl
  other sig notInt notQuit := by
    change (reset (reset (atFork before) SIGINT _) SIGQUIT _).disposition sig = _
    rw [reset_disposition _ settable_quit, reset_disposition _ settable_int,
      if_neg fun both => notQuit both.1, if_neg fun both => notInt both.1, atFork_disposition,
      Function.update_of_ne notQuit, Function.update_of_ne notInt]

/-- Whatever `fork` and `waitpid` come to. -/
theorem mySystem_law (fork : Fork) (restoring : Restoring) (command : List UInt8)
    (before : Process) (errno : Errno) :
    Law fork command before (mySystem fork restoring (some command) before errno) := by
  rw [mySystem, Option.getD_some]
  cases fork with
  | failed failure =>
      rw [systemCommand_failed]
      refine ⟨?_, ?_, ?_, fun waiting => absurd waiting (Option.some_ne_none _), ?_⟩
      · rintro returned ⟨⟩
        exact restore_mask before _ _ restoring _
      · rintro returned ⟨⟩
        exact restore_disposition before restoring _ _
      · rintro returned ⟨⟩
        exact .forkFailed failure
      · rintro waits ⟨⟩
  | child waits =>
      obtain ⟨reported, waiting⟩ := waitLoop_reported waits errno
      rw [systemCommand_child]
      refine ⟨?_, ?_, ?_, ?_, ?_⟩
      · intro returned same
        obtain ⟨ended, _, rfl⟩ := Option.map_eq_some_iff.mp same
        exact restore_mask before _ _ restoring _
      · intro returned same
        obtain ⟨ended, _, rfl⟩ := Option.map_eq_some_iff.mp same
        exact restore_disposition before restoring _ _
      · intro returned same
        obtain ⟨ended, finished, rfl⟩ := Option.map_eq_some_iff.mp same
        exact reported ended finished
      · intro nothing
        obtain ⟨interruptions, rfl⟩ := waiting (Option.map_eq_none_iff.mp nothing)
        exact ⟨interruptions, rfl⟩
      · rintro waits' ⟨⟩
        exact ⟨_, rfl, childRun_executes before command⟩

end LinuxProgramming.Signals.MySystem
