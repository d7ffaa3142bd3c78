import Mathlib.Tactic.SplitIfs
import LinuxProgramming.Library.TransitionSystem

/-!
Contract: the two processes of `sig_speed_sigsuspend`, which send each other a signal in
turn.

Owns:
- parent and child after the `fork`, one statement at a time, and the signal each of them
  may have pending;
- the alternation of the two, in every interleaving.

Does not own: other signals, or `sigwaitinfo` failing. The signal is blocked in both
processes, and at most one instance of it is pending for each.
-/

namespace LinuxProgramming.Signals.SigSpeed

open LinuxProgramming.Library

/-! ### The two processes -/

/-- Where a process is in its loop. -/
inductive Pc where
  /-- `scnt < numSigs`. -/
  | test
  /-- `kill`. -/
  | kill
  /-- `sigwaitinfo`. -/
  | wait
  /-- `scnt++`. -/
  | next
  | exited
deriving DecidableEq, Repr

/-- A process, and whether `TESTSIG` is pending for it. -/
structure Proc where
  pc : Pc
  scnt : Nat
  pending : Bool
deriving DecidableEq, Repr

/-- Both processes. `merged` counts the signals that met a pending one, `late` those sent to
a process that had exited. -/
structure State where
  parent : Proc
  child : Proc
  merged : Nat
  late : Nat
deriving DecidableEq, Repr

/-- A signal arrives: of two pending instances one is lost. -/
def Proc.signal (target : Proc) : Proc :=
  { target with pending := true }

def Proc.goTo (proc : Proc) (pc : Pc) : Proc :=
  { proc with pc := pc }

section Processes

variable (numSigs : Nat)

/-- One step of the parent. A failing `kill` ends it. -/
def parentStep (state : State) : Option State :=
  match state.parent.pc with
  | .test =>
      if state.parent.scnt < numSigs then
        some { state with parent := state.parent.goTo .wait }
      else some { state with parent := state.parent.goTo .exited }
  | .wait =>
      if state.parent.pending then
        some { state with parent := { state.parent.goTo .kill with pending := false } }
      else none
  | .kill =>
      if state.child.pc = .exited then
        some { state with parent := state.parent.goTo .exited, late := state.late + 1 }
      else
        some { state with
          parent := state.parent.goTo .next
          child := state.child.signal
          merged := state.merged + state.child.pending.toNat }
  | .next =>
      some { state with
        parent := { state.parent.goTo .test with scnt := state.parent.scnt + 1 } }
  | .exited => none

/-- One step of the child, which signals first. -/
def childStep (state : State) : Option State :=
  match state.child.pc with
  | .test =>
      if state.child.scnt < numSigs then
        some { state with child := state.child.goTo .kill }
      else some { state with child := state.child.goTo .exited }
  | .kill =>
      if state.parent.pc = .exited then
        some { state with child := state.child.goTo .exited, late := state.late + 1 }
      else
        some { state with
          child := state.child.goTo .wait
          parent := state.parent.signal
          merged := state.merged + state.parent.pending.toNat }
  | .wait =>
      if state.child.pending then
        some { state with child := { state.child.goTo .next with pending := false } }
      else none
  | .next =>
      some { state with
        child := { state.child.goTo .test with scnt := state.child.scnt + 1 } }
  | .exited => none

def stepOf : Side → State → Option State
  | .left => parentStep numSigs
  | .right => childStep numSigs

/-- Both processes right after the `fork`. -/
def initial : State where
  parent := ⟨.test, 0, false⟩
  child := ⟨.test, 0, false⟩
  merged := 0
  late := 0

/-- All interleavings of parent and child. -/
def sigSpeed : TransitionSystem State :=
  interleaving (· = initial) (stepOf numSigs)

end Processes

/-- Both processes have ended. -/
def State.Ended (state : State) : Prop :=
  state.parent.pc = .exited ∧ state.child.pc = .exited

/-! ### The alternation -/

/-- The signals that a process which first waits has received and sent. -/
def Proc.parentReceived (proc : Proc) : Nat :=
  proc.scnt + match proc.pc with
    | .kill | .next => 1
    | _ => 0

def Proc.parentSent (proc : Proc) : Nat :=
  proc.scnt + match proc.pc with
    | .next => 1
    | _ => 0

/-- The signals that a process which first signals has sent and received. -/
def Proc.childSent (proc : Proc) : Nat :=
  proc.scnt + match proc.pc with
    | .wait | .next => 1
    | _ => 0

def Proc.childReceived (proc : Proc) : Nat :=
  proc.scnt + match proc.pc with
    | .next => 1
    | _ => 0

/-- Within the loop a round is to be done, behind it none. -/
def Proc.InRounds (numSigs : Nat) (proc : Proc) : Prop :=
  match proc.pc with
  | .test => proc.scnt ≤ numSigs
  | .exited => proc.scnt = numSigs
  | _ => proc.scnt < numSigs

/-- What was sent has been received or is pending, and no signal was lost. -/
structure Invariant (numSigs : Nat) (state : State) : Prop where
  toParent : state.child.childSent = state.parent.parentReceived + state.parent.pending.toNat
  toChild : state.parent.parentSent = state.child.childReceived + state.child.pending.toNat
  parentRounds : state.parent.InRounds numSigs
  childRounds : state.child.InRounds numSigs
  merged : state.merged = 0
  late : state.late = 0

theorem initial_invariant (numSigs : Nat) : Invariant numSigs initial where
  toParent := rfl
  toChild := rfl
  parentRounds := Nat.zero_le _
  childRounds := Nat.zero_le _
  merged := rfl
  late := rfl

section Steps

variable {numSigs : Nat} {before after : State}

/-- A parent that is about to signal has received a signal that the child waits for the
answer to. -/
theorem Invariant.parentKill (invariant : Invariant numSigs before)
    (kills : before.parent.pc = .kill) :
    before.child.pc = .wait ∧ before.child.pending = false := by
  obtain ⟨toParent, toChild, parentRounds, childRounds, -, -⟩ := invariant
  simp only [Proc.parentReceived, Proc.parentSent, kills] at toParent toChild
  cases isPc : before.child.pc <;> cases pending : before.child.pending <;>
    simp only [Proc.childSent, Proc.childReceived, isPc, pending, Bool.toNat_true,
      Bool.toNat_false] at toParent toChild <;> first | omega | simp

/-- A child that is about to signal has not been answered yet, nor has the parent left. -/
theorem Invariant.childKill (invariant : Invariant numSigs before)
    (kills : before.child.pc = .kill) :
    before.parent.pc ≠ .exited ∧ before.parent.pending = false := by
  obtain ⟨toParent, toChild, parentRounds, childRounds, -, -⟩ := invariant
  simp only [Proc.childSent, Proc.childReceived, kills] at toParent toChild
  simp only [Proc.InRounds, kills] at childRounds
  cases isPc : before.parent.pc <;> cases pending : before.parent.pending <;>
    simp only [Proc.parentReceived, Proc.parentSent, Proc.InRounds, isPc, pending,
      Bool.toNat_true, Bool.toNat_false] at toParent toChild parentRounds <;> first | omega | simp

theorem Invariant.parentStep (invariant : Invariant numSigs before)
    (stepped : parentStep numSigs before = some after) : Invariant numSigs after := by
  have kill := invariant.parentKill
  obtain ⟨toParent, toChild, parentRounds, childRounds, merged, late⟩ := invariant
  unfold SigSpeed.parentStep at stepped
  cases isPc : before.parent.pc with
  | test =>
      simp only [Proc.parentReceived, Proc.parentSent, Proc.InRounds, isPc]
        at toParent toChild parentRounds stepped
      split_ifs at stepped with more
      · cases stepped
        exact ⟨toParent, toChild, more, childRounds, merged, late⟩
      · cases stepped
        exact ⟨toParent, toChild, Nat.le_antisymm parentRounds (Nat.le_of_not_lt more),
          childRounds, merged, late⟩
  | wait =>
      simp only [Proc.parentReceived, Proc.parentSent, Proc.InRounds, isPc]
        at toParent toChild parentRounds stepped
      split_ifs at stepped with pending
      cases stepped
      rw [pending] at toParent
      exact ⟨toParent, toChild, parentRounds, childRounds, merged, late⟩
  | kill =>
      simp only [Proc.parentReceived, Proc.parentSent, Proc.InRounds, isPc]
        at toParent toChild parentRounds stepped
      obtain ⟨waits, notPending⟩ := kill isPc
      rw [waits, if_neg (by decide)] at stepped
      cases stepped
      rw [notPending] at toChild ⊢
      refine ⟨toParent, ?_, parentRounds, childRounds, merged, late⟩
      exact congrArg (· + 1) toChild
  | next =>
      simp only [Proc.parentReceived, Proc.parentSent, Proc.InRounds, isPc]
        at toParent toChild parentRounds stepped
      cases stepped
      exact ⟨toParent, toChild, parentRounds, childRounds, merged, late⟩
  | exited =>
      rw [isPc] at stepped
      cases stepped

theorem Invariant.childStep (invariant : Invariant numSigs before)
    (stepped : childStep numSigs before = some after) : Invariant numSigs after := by
  have kill := invariant.childKill
  obtain ⟨toParent, toChild, parentRounds, childRounds, merged, late⟩ := invariant
  unfold SigSpeed.childStep at stepped
  cases isPc : before.child.pc with
  | test =>
      simp only [Proc.childSent, Proc.childReceived, Proc.InRounds, isPc]
        at toParent toChild childRounds stepped
      split_ifs at stepped with more
      · cases stepped
        exact ⟨toParent, toChild, parentRounds, more, merged, late⟩
      · cases stepped
        exact ⟨toParent, toChild, parentRounds,
          Nat.le_antisymm childRounds (Nat.le_of_not_lt more), merged, late⟩
  | kill =>
      simp only [Proc.childSent, Proc.childReceived, Proc.InRounds, isPc]
        at toParent toChild childRounds stepped
      obtain ⟨running, notPending⟩ := kill isPc
      rw [if_neg running] at stepped
      cases stepped
      rw [notPending] at toParent ⊢
      refine ⟨?_, toChild, parentRounds, childRounds, merged, late⟩
      exact congrArg (· + 1) toParent
  | wait =>
      simp only [Proc.childSent, Proc.childReceived, Proc.InRounds, isPc]
        at toParent toChild childRounds stepped
      split_ifs at stepped with pending
      cases stepped
      rw [pending] at toChild
      exact ⟨toParent, toChild, parentRounds, childRounds, merged, late⟩
  | next =>
      simp only [Proc.childSent, Proc.childReceived, Proc.InRounds, isPc]
        at toParent toChild childRounds stepped
      cases stepped
      exact ⟨toParent, toChild, parentRounds, childRounds, merged, late⟩
  | exited =>
      rw [isPc] at stepped
      cases stepped

theorem invariant_inductive (numSigs : Nat) :
    (sigSpeed numSigs).Inductive (Invariant numSigs) where
  init state isInitial := isInitial ▸ initial_invariant numSigs
  step before after invariant stepped := by
    obtain ⟨side, stepped⟩ := stepped
    cases side with
    | left => exact invariant.parentStep stepped
    | right => exact invariant.childStep stepped

/-! ### No deadlock, and an end -/

/-- A process is stuck only when it waits for a signal, or has exited. -/
theorem parentStep_none (stuck : parentStep numSigs before = none) :
    before.parent.pc = .wait ∧ before.parent.pending = false ∨ before.parent.pc = .exited := by
  unfold SigSpeed.parentStep at stuck
  cases isPc : before.parent.pc <;> rw [isPc] at stuck <;> grind

theorem childStep_none (stuck : childStep numSigs before = none) :
    before.child.pc = .wait ∧ before.child.pending = false ∨ before.child.pc = .exited := by
  unfold SigSpeed.childStep at stuck
  cases isPc : before.child.pc <;> rw [isPc] at stuck <;> grind

/-- A state in which neither process can move is the end. -/
theorem Invariant.ended (invariant : Invariant numSigs before)
    (parentStuck : SigSpeed.parentStep numSigs before = none)
    (childStuck : SigSpeed.childStep numSigs before = none) : before.Ended := by
  obtain ⟨toParent, toChild, parentRounds, childRounds, -, -⟩ := invariant
  rcases parentStep_none parentStuck with ⟨parentWaits, parentPending⟩ | parentExited <;>
    rcases childStep_none childStuck with ⟨childWaits, childPending⟩ | childExited
  · -- both wait: the child has sent what the parent has not received
    simp only [Proc.childSent, Proc.childReceived, Proc.parentReceived, Proc.parentSent,
      parentWaits, parentPending, childWaits, childPending, Bool.toNat_false] at toParent toChild
    omega
  · simp only [Proc.childSent, Proc.parentReceived, parentWaits, parentPending, childExited,
      Bool.toNat_false] at toParent
    simp only [Proc.InRounds, parentWaits, childExited] at parentRounds childRounds
    omega
  · simp only [Proc.parentSent, Proc.childReceived, parentExited, childWaits, childPending,
      Bool.toNat_false] at toChild
    simp only [Proc.InRounds, parentExited, childWaits] at parentRounds childRounds
    omega
  · exact ⟨parentExited, childExited⟩

/-- The steps the parent has still to take, if it does not fail. -/
def Proc.parentWork (numSigs : Nat) (proc : Proc) : Nat :=
  match proc.pc with
  | .test => 4 * (numSigs - proc.scnt) + 1
  | .wait => 4 * (numSigs - proc.scnt)
  | .kill => 4 * (numSigs - proc.scnt) - 1
  | .next => 4 * (numSigs - proc.scnt) - 2
  | .exited => 0

def Proc.childWork (numSigs : Nat) (proc : Proc) : Nat :=
  match proc.pc with
  | .test => 4 * (numSigs - proc.scnt) + 1
  | .kill => 4 * (numSigs - proc.scnt)
  | .wait => 4 * (numSigs - proc.scnt) - 1
  | .next => 4 * (numSigs - proc.scnt) - 2
  | .exited => 0

def State.work (numSigs : Nat) (state : State) : Nat :=
  state.parent.parentWork numSigs + state.child.childWork numSigs

/-- Every step is one of those that are left. -/
theorem parentStep_work (invariant : Invariant numSigs before)
    (stepped : SigSpeed.parentStep numSigs before = some after) :
    after.work numSigs < before.work numSigs := by
  have rounds := invariant.parentRounds
  suffices after.child.childWork numSigs = before.child.childWork numSigs ∧
      after.parent.parentWork numSigs < before.parent.parentWork numSigs by
    rw [State.work, State.work, this.1]
    omega
  unfold SigSpeed.parentStep at stepped
  cases isPc : before.parent.pc <;> simp only [isPc] at stepped
  case exited => cases stepped
  case next =>
    cases stepped
    refine ⟨rfl, ?_⟩
    simp only [Proc.InRounds, Proc.parentWork, Proc.goTo, isPc] at rounds ⊢
    omega
  all_goals
    split_ifs at stepped <;> cases stepped <;> refine ⟨rfl, ?_⟩ <;>
      simp only [Proc.InRounds, Proc.parentWork, Proc.goTo, isPc] at rounds ⊢ <;> omega

theorem childStep_work (invariant : Invariant numSigs before)
    (stepped : SigSpeed.childStep numSigs before = some after) :
    after.work numSigs < before.work numSigs := by
  have rounds := invariant.childRounds
  suffices after.parent.parentWork numSigs = before.parent.parentWork numSigs ∧
      after.child.childWork numSigs < before.child.childWork numSigs by
    rw [State.work, State.work, this.1]
    omega
  unfold SigSpeed.childStep at stepped
  cases isPc : before.child.pc <;> simp only [isPc] at stepped
  case exited => cases stepped
  case next =>
    cases stepped
    refine ⟨rfl, ?_⟩
    simp only [Proc.InRounds, Proc.childWork, Proc.goTo, isPc] at rounds ⊢
    omega
  all_goals
    split_ifs at stepped <;> cases stepped <;> refine ⟨rfl, ?_⟩ <;>
      simp only [Proc.InRounds, Proc.childWork, Proc.goTo, isPc] at rounds ⊢ <;> omega

end Steps

/-- What the alternation is to ensure of a state: no signal has been lost or sent to a
process that had exited, some process can move unless both have ended, they end with all
rounds done, and each step leaves fewer steps to the end. -/
structure Alternates (numSigs : Nat) (state : State) : Prop where
  merged : state.merged = 0
  late : state.late = 0
  progress : ¬ state.Ended → ∃ after, (sigSpeed numSigs).Step state after
  rounds : state.Ended → state.parent.scnt = numSigs ∧ state.child.scnt = numSigs
  ends : ∀ after, (sigSpeed numSigs).Step state after → after.work numSigs < state.work numSigs

theorem sigSpeed_alternates (numSigs : Nat) (state : State)
    (reachable : (sigSpeed numSigs).Reachable state) : Alternates numSigs state := by
  have invariant := (invariant_inductive numSigs).holds reachable
  refine ⟨invariant.merged, invariant.late, ?_, ?_, ?_⟩
  · intro notEnded
    refine Classical.byContradiction fun stuck => notEnded (invariant.ended ?_ ?_)
    · exact Option.eq_none_iff_forall_ne_some.mpr fun after stepped =>
        stuck ⟨after, .left, stepped⟩
    · exact Option.eq_none_iff_forall_ne_some.mpr fun after stepped =>
        stuck ⟨after, .right, stepped⟩
  · rintro ⟨parentExited, childExited⟩
    have parentRounds := invariant.parentRounds
    have childRounds := invariant.childRounds
    simp only [Proc.InRounds, parentExited, childExited] at parentRounds childRounds
    exact ⟨parentRounds, childRounds⟩
  · rintro after ⟨side, stepped⟩
    cases side with
    | left => exact parentStep_work invariant stepped
    | right => exact childStep_work invariant stepped

/-- One round, in which the parent has exited before the child takes its signal. -/
def oneRound : List Side :=
  List.replicate 2 Side.right ++ List.replicate 5 Side.left ++ List.replicate 3 Side.right

theorem sigSpeed_alternates_oneRound :
    ∃ state, replay (stepOf 1) oneRound initial = some state ∧ state.Ended ∧
      Alternates 1 state := by
  have ran : replay (stepOf 1) oneRound initial = some _ := rfl
  exact ⟨_, ran, ⟨rfl, rfl⟩, sigSpeed_alternates 1 _ (replay_reachable (.of_init rfl) ran)⟩

end LinuxProgramming.Signals.SigSpeed
