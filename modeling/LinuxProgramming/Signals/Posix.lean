import Mathlib.Logic.Function.Basic
import Mathlib.Data.Int.Basic

/-!
Contract: the signal mask and the dispositions of a process, and the POSIX calls that read
and set them.

Owns:
- `sigset_t`, `struct sigaction` and the state of a process;
- `sigaction`, `sigprocmask` and the functions on signal sets, with their errors.

Does not own: the delivery of signals.
-/

namespace LinuxProgramming.Signals

def SIGKILL : Int := 9

def SIGSTOP : Int := 19

/-- The signal numbers; 32 and 33 belong to the thread library. -/
def IsSignal (sig : Int) : Prop :=
  1 ≤ sig ∧ sig ≤ 64 ∧ sig ≠ 32 ∧ sig ≠ 33

instance (sig : Int) : Decidable (IsSignal sig) :=
  inferInstanceAs (Decidable (_ ∧ _))

/-- Neither blocked nor given another disposition. -/
def Unblockable (sig : Int) : Prop :=
  sig = SIGKILL ∨ sig = SIGSTOP

instance (sig : Int) : Decidable (Unblockable sig) :=
  inferInstanceAs (Decidable (_ ∨ _))

/-- A value of type `void (*)(int)`. -/
inductive Handler where
  | SIG_DFL
  | SIG_IGN
  | SIG_HOLD
  | SIG_ERR
  | function (address : Nat)
deriving DecidableEq, Repr

/-- `sigset_t`. -/
abbrev Sigset := Int → Bool

/-- `struct sigaction`. -/
structure Sigaction where
  sa_handler : Handler
  sa_mask : Sigset
  sa_flags : Int

/-- The signal mask and the dispositions of a process. -/
structure Process where
  mask : Sigset
  disposition : Int → Sigaction
  unblockable : ∀ sig, Unblockable sig → mask sig = false

/-! ### The calls -/

/-- `sigaddset`. -/
def sigaddset (set : Sigset) (sig : Int) : Option Sigset :=
  if IsSignal sig then some (Function.update set sig true) else none

/-- `sigdelset`. -/
def sigdelset (set : Sigset) (sig : Int) : Option Sigset :=
  if IsSignal sig then some (Function.update set sig false) else none

/-- `sigismember`. -/
def sigismember (set : Sigset) (sig : Int) : Int :=
  if IsSignal sig then if set sig then 1 else 0 else -1

namespace Process

/-- `sigaction(sig, NULL, oldact)`. -/
def getSigaction (process : Process) (sig : Int) : Option Sigaction :=
  if IsSignal sig then some (process.disposition sig) else none

/-- `sigaction(sig, act, NULL)`. -/
def setSigaction (process : Process) (sig : Int) (act : Sigaction) : Option Process :=
  if IsSignal sig ∧ ¬ Unblockable sig then
    some { process with disposition := Function.update process.disposition sig act }
  else none

/-- `sigprocmask(SIG_SETMASK, set, NULL)`. -/
def setMask (process : Process) (set : Sigset) : Process where
  mask sig := !decide (Unblockable sig) && set sig
  disposition := process.disposition
  unblockable sig unblockable := by simp [unblockable]

end Process

end LinuxProgramming.Signals
