import LinuxProgramming.Library.LastWrite
import LinuxProgramming.Signals.Posix

/-!
Contract: `my_sigset`, `my_sighold`, `my_sigrelse` and `my_sigignore` of `SystemVapi.c`.

Owns:
- the functions, with their error paths;
- what each of them does to the mask and the dispositions;
- the mask and the dispositions after any sequence of calls;
- when `my_sigset` returns what another `my_sigset` can restore.

Does not own: `my_sigpause`, or the delivery of signals between the calls.
-/

namespace LinuxProgramming.Signals

open LinuxProgramming.Library

/-! ### The functions -/

/-- `my_sigset`: what it returns, and the process afterwards. -/
def mySigset (sig : Int) (handler : Handler) (process : Process) : Handler × Process :=
  match process.getSigaction sig with
  | none => (.SIG_ERR, process)
  | some sigact =>
      let old_handler := sigact.sa_handler
      let block_set := process.mask
      if handler ≠ .SIG_HOLD then
        match process.setSigaction sig { sigact with sa_handler := handler } with
        | none => (.SIG_ERR, process)
        | some changed =>
            match sigdelset block_set sig with
            | none => (.SIG_ERR, changed)
            | some set => (old_handler, changed.setMask set)
      else if sigismember block_set sig ≠ 0 then (.SIG_HOLD, process)
      else
        match sigaddset block_set sig with
        | none => (.SIG_ERR, process)
        | some set => (sigact.sa_handler, process.setMask set)

/-- `my_sighold`. -/
def mySighold (sig : Int) (process : Process) : Int × Process :=
  match sigaddset process.mask sig with
  | none => (-1, process)
  | some set => (0, process.setMask set)

/-- `my_sigrelse`. -/
def mySigrelse (sig : Int) (process : Process) : Int × Process :=
  match sigdelset process.mask sig with
  | none => (-1, process)
  | some set => (0, process.setMask set)

/-- `my_sigignore`. -/
def mySigignore (sig : Int) (process : Process) : Int × Process :=
  match process.getSigaction sig with
  | none => (-1, process)
  | some sigact =>
      match process.setSigaction sig { sigact with sa_handler := .SIG_IGN } with
      | none => (-1, process)
      | some changed => (0, changed)

/-- A call of one of the four functions. -/
inductive Call where
  | sigset (sig : Int) (handler : Handler)
  | sighold (sig : Int)
  | sigrelse (sig : Int)
  | sigignore (sig : Int)
deriving DecidableEq, Repr

def Call.sig : Call → Int
  | .sigset sig _ | .sighold sig | .sigrelse sig | .sigignore sig => sig

def Call.run (process : Process) : Call → Process
  | .sigset sig handler => (mySigset sig handler process).2
  | .sighold sig => (mySighold sig process).2
  | .sigrelse sig => (mySigrelse sig process).2
  | .sigignore sig => (mySigignore sig process).2

/-! ### What they are for -/

/-- A signal for which no call fails. -/
def Settable (sig : Int) : Prop :=
  IsSignal sig ∧ ¬ Unblockable sig

instance (sig : Int) : Decidable (Settable sig) :=
  inferInstanceAs (Decidable (_ ∧ _))

/-- Whether a call blocks or unblocks `sig`, if it does either. -/
def Call.blocks? (sig : Int) : Call → Option Bool
  | .sigset sig' handler => if sig = sig' then some (handler = .SIG_HOLD) else none
  | .sighold sig' => if sig = sig' then some true else none
  | .sigrelse sig' => if sig = sig' then some false else none
  | .sigignore _ => none

/-- The disposition that a call gives to `sig`, if it gives one. -/
def Call.disposes? (sig : Int) : Call → Option Handler
  | .sigset sig' handler => if sig = sig' ∧ handler ≠ .SIG_HOLD then some handler else none
  | .sigignore sig' => if sig = sig' then some .SIG_IGN else none
  | .sighold _ | .sigrelse _ => none

/-! ### One call -/

section Calls

variable {process : Process} {sig : Int}

/-- Setting the mask to itself with one signal added or removed changes this signal only. -/
theorem setMask_update (settable : Settable sig) (value : Bool) (other : Int) :
    (process.setMask (Function.update process.mask sig value)).mask other =
      if other = sig then value else process.mask other := by
  show (!decide (Unblockable other) && Function.update process.mask sig value other) = _
  rw [Function.update_apply]
  by_cases same : other = sig
  · rw [if_pos same, decide_eq_false (same ▸ settable.2)]
    rfl
  · rw [if_neg same]
    by_cases unblockable : Unblockable other
    · rw [decide_eq_true unblockable, process.unblockable other unblockable]
      rfl
    · rw [decide_eq_false unblockable]
      rfl

theorem sigaddset_eq (settable : Settable sig) (set : Sigset) :
    sigaddset set sig = some (Function.update set sig true) :=
  if_pos settable.1

theorem sigdelset_eq (settable : Settable sig) (set : Sigset) :
    sigdelset set sig = some (Function.update set sig false) :=
  if_pos settable.1

theorem sigismember_ne_zero (settable : Settable sig) (set : Sigset) :
    sigismember set sig ≠ 0 ↔ set sig = true := by
  rw [sigismember, if_pos settable.1]
  split
  case isTrue member => simp [member]
  case isFalse absent => simp [absent]

theorem getSigaction_eq (settable : Settable sig) :
    process.getSigaction sig = some (process.disposition sig) :=
  if_pos settable.1

/-- The process with a new disposition of one signal. -/
def dispose (process : Process) (sig : Int) (handler : Handler) : Process :=
  { process with
    disposition := Function.update process.disposition sig
      { process.disposition sig with sa_handler := handler } }

theorem setSigaction_eq (settable : Settable sig) (handler : Handler) :
    process.setSigaction sig { process.disposition sig with sa_handler := handler } =
      some (dispose process sig handler) :=
  if_pos settable

theorem mySigset_dispose (settable : Settable sig) {handler : Handler}
    (disposes : handler ≠ .SIG_HOLD) :
    mySigset sig handler process = ((process.disposition sig).sa_handler,
      (dispose process sig handler).setMask (Function.update process.mask sig false)) := by
  rw [mySigset, getSigaction_eq settable]
  dsimp only
  rw [if_pos disposes, setSigaction_eq settable, sigdelset_eq settable]

theorem mySigset_hold (settable : Settable sig) :
    mySigset sig .SIG_HOLD process =
      if process.mask sig then (.SIG_HOLD, process)
      else ((process.disposition sig).sa_handler,
        process.setMask (Function.update process.mask sig true)) := by
  rw [mySigset, getSigaction_eq settable]
  dsimp only
  rw [if_neg (not_not.mpr rfl), sigaddset_eq settable]
  exact if_congr (sigismember_ne_zero settable _) rfl rfl

theorem mySighold_eq (settable : Settable sig) :
    mySighold sig process = (0, process.setMask (Function.update process.mask sig true)) := by
  rw [mySighold, sigaddset_eq settable]

theorem mySigrelse_eq (settable : Settable sig) :
    mySigrelse sig process = (0, process.setMask (Function.update process.mask sig false)) := by
  rw [mySigrelse, sigdelset_eq settable]

theorem mySigignore_eq (settable : Settable sig) :
    mySigignore sig process = (0, dispose process sig .SIG_IGN) := by
  rw [mySigignore, getSigaction_eq settable]
  dsimp only
  rw [setSigaction_eq settable]

/-- A call sets the mask bit that it is about, and keeps the others. -/
theorem Call.run_mask (process : Process) (call : Call) (settable : Settable call.sig)
    (other : Int) :
    (call.run process).mask other = (call.blocks? other).getD (process.mask other) := by
  cases call with
  | sigset sig handler =>
      change Settable sig at settable
      by_cases hold : handler = .SIG_HOLD
      · rw [Call.run, hold, mySigset_hold settable, Call.blocks?]
        by_cases blocked : process.mask sig = true
        · rw [if_pos blocked]
          split
          case isTrue same => simpa [same] using blocked
          case isFalse different => rfl
        · rw [if_neg blocked]
          show (process.setMask _).mask other = _
          rw [setMask_update settable]
          split <;> rfl
      · rw [Call.run, mySigset_dispose settable hold, Call.blocks?]
        show ((dispose process sig handler).setMask _).mask other = _
        rw [show process.mask = (dispose process sig handler).mask from rfl,
          setMask_update settable, decide_eq_false hold]
        split <;> rfl
  | sighold sig =>
      change Settable sig at settable
      rw [Call.run, mySighold_eq settable, setMask_update settable, Call.blocks?]
      split <;> rfl
  | sigrelse sig =>
      change Settable sig at settable
      rw [Call.run, mySigrelse_eq settable, setMask_update settable, Call.blocks?]
      split <;> rfl
  | sigignore sig =>
      change Settable sig at settable
      rw [Call.run, mySigignore_eq settable]
      rfl

theorem dispose_disposition (process : Process) (sig : Int) (handler : Handler) (other : Int) :
    (dispose process sig handler).disposition other =
      if other = sig then { process.disposition other with sa_handler := handler }
      else process.disposition other := by
  show Function.update process.disposition sig _ other = _
  rw [Function.update_apply]
  split
  case isTrue same => rw [same]
  case isFalse different => rfl

/-- A call sets the disposition that it is about, and keeps the others; the mask and the
flags of a handler stay what they were. -/
theorem Call.run_disposition (process : Process) (call : Call) (settable : Settable call.sig)
    (other : Int) :
    (call.run process).disposition other =
      { process.disposition other with
        sa_handler := (call.disposes? other).getD (process.disposition other).sa_handler } := by
  cases call with
  | sigset sig handler =>
      change Settable sig at settable
      rw [Call.disposes?]
      by_cases hold : handler = .SIG_HOLD
      · have kept : ¬ (other = sig ∧ handler ≠ .SIG_HOLD) := fun both => both.2 hold
        rw [if_neg kept, Call.run, hold, mySigset_hold settable]
        by_cases blocked : process.mask sig = true
        · rw [if_pos blocked]
          rfl
        · rw [if_neg blocked]
          rfl
      · rw [Call.run, mySigset_dispose settable hold]
        show (dispose process sig handler).disposition other = _
        rw [dispose_disposition]
        by_cases same : other = sig
        · rw [if_pos same, if_pos ⟨same, hold⟩]
          rfl
        · rw [if_neg same, if_neg fun both => same both.1]
          rfl
  | sighold sig =>
      change Settable sig at settable
      rw [Call.run, mySighold_eq settable]
      rfl
  | sigrelse sig =>
      change Settable sig at settable
      rw [Call.run, mySigrelse_eq settable]
      rfl
  | sigignore sig =>
      change Settable sig at settable
      rw [Call.run, mySigignore_eq settable, dispose_disposition, Call.disposes?]
      split <;> rfl

end Calls

/-! ### Sequences of calls -/

/-- What a sequence of calls leaves of the mask bit and the disposition of every signal. -/
structure Summarised (process : Process) (calls : List Call) (after : Process) : Prop where
  mask : ∀ sig, after.mask sig = lastWrite (Call.blocks? sig) (process.mask sig) calls
  handler : ∀ sig, (after.disposition sig).sa_handler =
    lastWrite (Call.disposes? sig) (process.disposition sig).sa_handler calls

/-- No call touches the mask bit or the disposition of another signal. -/
theorem Call.run_frame (process : Process) (call : Call) (settable : Settable call.sig)
    {other : Int} (different : other ≠ call.sig) :
    (call.run process).mask other = process.mask other ∧
      (call.run process).disposition other = process.disposition other := by
  rw [Call.run_mask process call settable, Call.run_disposition process call settable]
  cases call <;> simp_all [Call.blocks?, Call.disposes?, Call.sig]

/-- After any sequence of calls a signal is blocked, and disposed of, as the last call that
is about its mask bit, or its disposition, says; and no call touches those of another
signal. -/
theorem systemV_calls (process : Process) (calls : List Call)
    (settable : ∀ call ∈ calls, Settable call.sig) :
    Summarised process calls (calls.foldl Call.run process) ∧
      ∀ before, ∀ call ∈ calls, ∀ other ≠ call.sig,
        (call.run before).mask other = before.mask other ∧
          (call.run before).disposition other = before.disposition other := by
  refine ⟨⟨?_, ?_⟩, ?_⟩
  · intro sig
    exact observe_foldl (fun state : Process => state.mask sig)
      (fun state call allowed => Call.run_mask state call allowed sig) settable process
  · intro sig
    refine observe_foldl (fun state : Process => (state.disposition sig).sa_handler) ?_ settable
      process
    intro state call allowed
    exact congrArg Sigaction.sa_handler (Call.run_disposition state call allowed sig)
  · intro before call member other different
    exact Call.run_frame before call (settable call member) different

/-- A process with default dispositions and an empty mask. -/
def freshProcess : Process where
  mask _ := false
  disposition _ := ⟨.SIG_DFL, fun _ => false, 0⟩
  unblockable _ _ := rfl

/-- Signal 10 is held, ignored and then set to be held again; signal 12 is held and
released. -/
def mixedCalls : List Call :=
  [.sighold 10, .sighold 12, .sigignore 10, .sigset 10 (.function 1), .sigrelse 12,
    .sigset 10 .SIG_HOLD]

theorem systemV_calls_mixed :
    (mixedCalls.foldl Call.run freshProcess).mask 10 = true ∧
      (mixedCalls.foldl Call.run freshProcess).mask 12 = false ∧
      ((mixedCalls.foldl Call.run freshProcess).disposition 10).sa_handler = .function 1 := by
  have summarised := (systemV_calls freshProcess mixedCalls (by decide)).1
  rw [summarised.mask, summarised.mask, summarised.handler]
  decide

/-! ### Saved and restored -/

/-- `SIG_HOLD` is not a disposition, only an argument and a result of `my_sigset`. -/
def NoHold (process : Process) : Prop :=
  ∀ sig, (process.disposition sig).sa_handler ≠ .SIG_HOLD

/-- What `my_sigset` has to return. -/
def saved (sig : Int) (process : Process) : Handler :=
  if process.mask sig then .SIG_HOLD else (process.disposition sig).sa_handler

theorem Call.disposes?_ne_hold (sig : Int) (call : Call) :
    call.disposes? sig ≠ some .SIG_HOLD := by
  cases call with
  | sigset other handler =>
      rw [Call.disposes?]
      split
      case isTrue both => simpa using both.2
      case isFalse => simp
  | sighold other => simp [Call.disposes?]
  | sigrelse other => simp [Call.disposes?]
  | sigignore other =>
      rw [Call.disposes?]
      split <;> simp

/-- A call about a signal that cannot be set changes no disposition. -/
theorem Call.run_disposition_of_not_settable (process : Process) (call : Call)
    (fails : ¬ Settable call.sig) : (call.run process).disposition = process.disposition := by
  have rejected (act : Sigaction) : process.setSigaction call.sig act = none := if_neg fails
  cases call with
  | sigset sig handler =>
      change ∀ act, process.setSigaction sig act = none at rejected
      simp only [Call.run, mySigset, rejected]
      split
      · rfl
      split
      · rfl
      split
      · rfl
      · split <;> rfl
  | sighold sig =>
      simp only [Call.run, mySighold]
      split <;> rfl
  | sigrelse sig =>
      simp only [Call.run, mySigrelse]
      split <;> rfl
  | sigignore sig =>
      change ∀ act, process.setSigaction sig act = none at rejected
      simp only [Call.run, mySigignore, rejected]
      split <;> rfl

theorem Call.run_noHold {process : Process} (noHold : NoHold process) (call : Call) :
    NoHold (call.run process) := by
  intro sig
  by_cases settable : Settable call.sig
  · rw [Call.run_disposition process call settable]
    cases disposes : call.disposes? sig with
    | none => exact noHold sig
    | some handler =>
        intro hold
        exact Call.disposes?_ne_hold sig call (disposes.trans (congrArg some hold))
  · rw [Call.run_disposition_of_not_settable process call settable]
    exact noHold sig

theorem calls_noHold {start : Process} (noHold : NoHold start) (calls : List Call) :
    NoHold (calls.foldl Call.run start) := by
  induction calls generalizing start with
  | nil => exact noHold
  | cons call rest inductionHypothesis => exact inductionHypothesis (Call.run_noHold noHold call)

section Saved

variable {process : Process} {sig : Int}

theorem mySigset_saved_iff (noHold : NoHold process) (settable : Settable sig)
    (handler : Handler) :
    (mySigset sig handler process).1 = saved sig process ↔
      handler = .SIG_HOLD ∨ process.mask sig = false := by
  rw [saved]
  by_cases hold : handler = .SIG_HOLD
  · rw [hold, mySigset_hold settable]
    exact iff_of_true (by split <;> rfl) (.inl rfl)
  · rw [mySigset_dispose settable hold, or_iff_right hold]
    cases blocked : process.mask sig with
    | false => exact iff_of_true rfl rfl
    | true => exact iff_of_false (noHold sig) (by simp)

/-- `my_sigset` leaves the signal blocked exactly if it is to be held. -/
theorem mySigset_mask (settable : Settable sig) (handler : Handler) :
    (mySigset sig handler process).2.mask sig = decide (handler = .SIG_HOLD) := by
  have mask := Call.run_mask process (.sigset sig handler) settable sig
  rwa [Call.blocks?, if_pos rfl] at mask

theorem mySigset_restores_iff (noHold : NoHold process) (settable : Settable sig)
    (handler : Handler) :
    (mySigset sig (mySigset sig handler process).1 (mySigset sig handler process).2).2.mask sig =
        process.mask sig ↔
      handler = .SIG_HOLD ∨ process.mask sig = false := by
  rw [mySigset_mask settable]
  by_cases condition : handler = .SIG_HOLD ∨ process.mask sig = false
  · rw [(mySigset_saved_iff noHold settable handler).mpr condition, saved]
    refine iff_of_true ?_ condition
    cases blocked : process.mask sig with
    | false => simpa using noHold sig
    | true => rfl
  · obtain ⟨disposes, blocked⟩ := not_or.mp condition
    rw [mySigset_dispose settable disposes]
    refine iff_of_false (fun restored => ?_) condition
    rw [Bool.not_eq_false] at blocked
    rw [blocked, decide_eq_true_eq] at restored
    exact noHold sig restored

end Saved

/-- After any sequence of calls, `my_sigset` returns `SIG_HOLD` for a blocked signal and the
disposition of any other, and a second `my_sigset` with that value restores whether the
signal is blocked, exactly if the first one is to hold the signal or finds it unblocked. -/
theorem mySigset_saves_iff (start : Process) (noHold : NoHold start) (calls : List Call)
    (sig : Int) (settable : Settable sig) (handler : Handler) :
    let process := calls.foldl Call.run start
    let first := mySigset sig handler process
    (first.1 = saved sig process ↔ handler = .SIG_HOLD ∨ process.mask sig = false) ∧
      ((mySigset sig first.1 first.2).2.mask sig = process.mask sig ↔
        handler = .SIG_HOLD ∨ process.mask sig = false) :=
  ⟨mySigset_saved_iff (calls_noHold noHold calls) settable handler,
    mySigset_restores_iff (calls_noHold noHold calls) settable handler⟩

theorem freshProcess_noHold : NoHold freshProcess := by
  intro sig
  simp [freshProcess]

theorem mySigset_saves_held :
    ((mySigset 10 .SIG_HOLD ((mySighold 10 freshProcess).2)).1 =
        saved 10 (mySighold 10 freshProcess).2 ↔
      Handler.SIG_HOLD = .SIG_HOLD ∨ (mySighold 10 freshProcess).2.mask 10 = false) :=
  (mySigset_saves_iff freshProcess freshProcess_noHold [.sighold 10] 10 (by decide) .SIG_HOLD).1

/-- A held signal that gets a handler: the old disposition is returned, and with it the
signal does not become held again. -/
theorem mySigset_forgets_hold :
    (mySighold 10 freshProcess).2.mask 10 = true ∧
      (mySigset 10 (.function 1) (mySighold 10 freshProcess).2).1 = .SIG_DFL ∧
      (mySigset 10 .SIG_DFL
        (mySigset 10 (.function 1) (mySighold 10 freshProcess).2).2).2.mask 10 = false := by
  decide

end LinuxProgramming.Signals
