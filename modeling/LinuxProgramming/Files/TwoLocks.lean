import LinuxProgramming.Library.WaitGraph
import Mathlib.Algebra.BigOperators.Group.Finset.Basic
import Mathlib.Algebra.Order.BigOperators.Group.Finset
import Mathlib.Data.Fintype.EquivFin

/-!
Contract: any number of processes that run `flock_two_file_exclusive`, each on two files of
its own choice.

Owns:
- `main` as a step function of one process, with every call that may fail;
- the lock of each file, and who holds it in a reachable state;
- when a process can come to wait for ever.

Does not own: the texts that are printed, the sleeps, and signals.
-/

namespace LinuxProgramming.Files.TwoLocks

open LinuxProgramming.Library

/-- The two descriptors of a process, for two open files. -/
inductive Slot where
  | fd1
  | fd2
deriving DecidableEq, Repr

/-- Where `main` is: the call it makes next, or the status it exited with. -/
inductive Pc where
  | openingFile1
  | openingFile2
  | lockingFile1
  | lockingFile2
  | releasingFile1
  | releasingFile2
  | exited (status : Nat)
deriving DecidableEq, Repr

/-- The open files that are locked at this place. -/
def Pc.holds : Pc → Slot → Bool
  | .lockingFile2, .fd1 => true
  | .releasingFile1, _ => true
  | .releasingFile2, .fd2 => true
  | _, _ => false

/-- The calls that are left. -/
def Pc.left : Pc → Nat
  | .openingFile1 => 6
  | .openingFile2 => 5
  | .lockingFile1 => 4
  | .lockingFile2 => 3
  | .releasingFile1 => 2
  | .releasingFile2 => 1
  | .exited _ => 0

/-- The files that the two arguments of each process lead to. -/
structure Arguments (Process Inode : Type) where
  file1 : Process → Inode
  file2 : Process → Inode

structure State (Process Inode : Type) where
  pc : Process → Pc
  /-- The open file that has the lock. -/
  holder : Inode → Option (Process × Slot)

variable {Process Inode : Type} [DecidableEq Process] [DecidableEq Inode]

namespace Arguments

def file (arguments : Arguments Process Inode) (process : Process) : Slot → Inode
  | .fd1 => arguments.file1 process
  | .fd2 => arguments.file2 process

/-- Some process locks the one file first and then the other one. -/
def Chained (arguments : Arguments Process Inode) (first second : Inode) : Prop :=
  ∃ process, arguments.file1 process = first ∧ arguments.file2 process = second

end Arguments

namespace State

/-- The lock is taken by another open file, if only of the same process. -/
def Conflict (state : State Process Inode) (inode : Inode) (owner : Process × Slot) : Prop :=
  state.holder inode ≠ none ∧ state.holder inode ≠ some owner

instance (state : State Process Inode) (inode : Inode) (owner : Process × Slot) :
    Decidable (state.Conflict inode owner) :=
  inferInstanceAs (Decidable (_ ∧ _))

def goto (state : State Process Inode) (process : Process) (pc : Pc) : State Process Inode :=
  { state with pc := Function.update state.pc process pc }

/-- `flock(fd, LOCK_EX)` where no other open file has the lock. -/
def lock (state : State Process Inode) (inode : Inode) (owner : Process × Slot) :
    State Process Inode :=
  { state with holder := Function.update state.holder inode (some owner) }

/-- `flock(fd, LOCK_UN)`. -/
def unlock (state : State Process Inode) (inode : Inode) (owner : Process × Slot) :
    State Process Inode :=
  { state with
    holder := fun other =>
      if other = inode ∧ state.holder other = some owner then none else state.holder other }

/-- `exit` closes the descriptors, and their locks go. -/
def exit (state : State Process Inode) (process : Process) (status : Nat) :
    State Process Inode where
  pc := Function.update state.pc process (.exited status)
  holder inode :=
    if (state.holder inode).any (fun owner => owner.1 = process) then none
    else state.holder inode

end State

/-- What every call comes to: where it fails, `main` prints why and exits. -/
def State.proceed (state : State Process Inode) (process : Process) (succeeds : Bool)
    (next : State Process Inode) : State Process Inode :=
  if succeeds then next else state.exit process 1

section Runs

variable (arguments : Arguments Process Inode)

/-- `flock(fd, LOCK_EX)`, which waits as long as another open file has the lock. -/
def locking (process : Process) (slot : Slot) (succeeds : Bool) (next : Pc)
    (state : State Process Inode) : Option (State Process Inode) :=
  if state.Conflict (arguments.file process slot) (process, slot) then none
  else some (state.proceed process succeeds
    ((state.lock (arguments.file process slot) (process, slot)).goto process next))

/-- The next call of a process, which succeeds or fails; `none` where it waits or where the
process has ended. -/
def step : Process × Bool → State Process Inode → Option (State Process Inode)
  | (process, succeeds), state =>
      match state.pc process with
      | .openingFile1 =>
          some (state.proceed process succeeds (state.goto process .openingFile2))
      | .openingFile2 =>
          some (state.proceed process succeeds (state.goto process .lockingFile1))
      | .lockingFile1 => locking arguments process .fd1 succeeds .lockingFile2 state
      | .lockingFile2 => locking arguments process .fd2 succeeds .releasingFile1 state
      | .releasingFile1 =>
          some (state.proceed process succeeds
            ((state.unlock (arguments.file process .fd1) (process, .fd1)).goto process
              .releasingFile2))
      | .releasingFile2 =>
          some (state.proceed process succeeds
            ((state.unlock (arguments.file process .fd2) (process, .fd2)).exit process 0))
      | .exited _ => none

/-- All processes before their first call, no file locked. -/
def started : State Process Inode := ⟨fun _ => .openingFile1, fun _ => none⟩

/-- All runs, whichever process moves next and whichever calls fail. -/
def system : TransitionSystem (State Process Inode) :=
  labelled (fun state => state = started) (step arguments)

/-- The process has not ended and cannot move. -/
def Blocked (state : State Process Inode) (process : Process) : Prop :=
  (∀ status, state.pc process ≠ .exited status) ∧
    ∀ succeeds, step arguments (process, succeeds) state = none

/-- It is blocked in every state that can follow. -/
def WaitsForEver (state : State Process Inode) (process : Process) : Prop :=
  ∀ later, Relation.ReflTransGen (system arguments).Step state later →
    Blocked arguments later process

end Runs

/-! ### What a step does to the locks -/

/-- Of all processes, exactly the ones between taking and releasing it have a lock. -/
def Exact (arguments : Arguments Process Inode) (state : State Process Inode) : Prop :=
  ∀ inode process slot, state.holder inode = some (process, slot) ↔
    arguments.file process slot = inode ∧ (state.pc process).holds slot

/-- The locks of all processes but one are as before. -/
def KeepsOthers (process : Process) (before after : State Process Inode) : Prop :=
  ∀ other, other ≠ process → after.pc other = before.pc other ∧
    ∀ inode slot, after.holder inode = some (other, slot) ↔
      before.holder inode = some (other, slot)

section Steps

variable {arguments : Arguments Process Inode} {state before after : State Process Inode}
  {process : Process} {slot : Slot} {inode : Inode}

omit [DecidableEq Process] [DecidableEq Inode] in
theorem KeepsOthers.trans {middle : State Process Inode}
    (first : KeepsOthers process before middle) (second : KeepsOthers process middle after) :
    KeepsOthers process before after := by
  intro other different
  obtain ⟨samePc, sameLocks⟩ := first other different
  obtain ⟨samePc', sameLocks'⟩ := second other different
  exact ⟨samePc'.trans samePc,
    fun inode slot => (sameLocks' inode slot).trans (sameLocks inode slot)⟩

omit [DecidableEq Inode] in
theorem goto_keepsOthers (pc : Pc) : KeepsOthers process state (state.goto process pc) :=
  fun _ different => ⟨Function.update_of_ne different .., fun _ _ => Iff.rfl⟩

omit [DecidableEq Process] in
theorem lock_keepsOthers (free : ¬ state.Conflict inode (process, slot)) :
    KeepsOthers process state (state.lock inode (process, slot)) := by
  intro other different
  refine ⟨rfl, fun file place => ?_⟩
  by_cases same : file = inode
  · subst same
    have mine : ¬ some (process, slot) = some (other, place) := by
      rintro ⟨⟩
      exact different rfl
    simp only [State.lock, Function.update_self, mine, false_iff]
    intro held
    apply free
    rw [State.Conflict, held]
    exact ⟨Option.some_ne_none _, fun again => mine again.symm⟩
  · simp only [State.lock, Function.update_of_ne same]

theorem unlock_keepsOthers : KeepsOthers process state (state.unlock inode (process, slot)) := by
  intro other different
  refine ⟨rfl, fun file place => ?_⟩
  simp only [State.unlock]
  split_ifs with mine
  · rw [mine.2]
    simp [Ne.symm different]
  · rfl

omit [DecidableEq Inode] in
theorem exit_keepsOthers (status : Nat) :
    KeepsOthers process state (state.exit process status) := by
  intro other different
  refine ⟨Function.update_of_ne different .., fun file place => ?_⟩
  simp only [State.exit]
  split_ifs with mine
  · simp only [false_iff]
    intro held
    rw [held] at mine
    simp [different] at mine
  · rfl

omit [DecidableEq Inode] in
theorem proceed_keepsOthers {next : State Process Inode} (succeeds : Bool)
    (kept : KeepsOthers process state next) :
    KeepsOthers process state (state.proceed process succeeds next) := by
  cases succeeds with
  | true => exact kept
  | false => exact exit_keepsOthers 1

/-- A step of one process leaves the places and the locks of the others. -/
theorem step_keepsOthers {succeeds : Bool}
    (stepped : step arguments (process, succeeds) before = some after) :
    KeepsOthers process before after := by
  have locked : ∀ slot next, locking arguments process slot succeeds next before = some after →
      KeepsOthers process before after := by
    intro slot next ran
    rw [locking] at ran
    split_ifs at ran with conflict
    cases ran
    exact proceed_keepsOthers succeeds ((lock_keepsOthers conflict).trans (goto_keepsOthers _))
  rw [step] at stepped
  split at stepped
  case h_1 | h_2 =>
    cases stepped
    exact proceed_keepsOthers succeeds (goto_keepsOthers _)
  case h_3 | h_4 => exact locked _ _ stepped
  case h_5 =>
    cases stepped
    exact proceed_keepsOthers succeeds (unlock_keepsOthers.trans (goto_keepsOthers _))
  case h_6 =>
    cases stepped
    exact proceed_keepsOthers succeeds (unlock_keepsOthers.trans (exit_keepsOthers 0))
  case h_7 => cases stepped

/-! ### Exactly the processes between taking and releasing a lock have it -/

omit [DecidableEq Inode] in
/-- For the process that moved it is enough to look at its own locks. -/
theorem Exact.of_own (exact_ : Exact arguments before) (kept : KeepsOthers process before after)
    (own : ∀ inode slot, after.holder inode = some (process, slot) ↔
      arguments.file process slot = inode ∧ (after.pc process).holds slot) :
    Exact arguments after := by
  intro inode other slot
  by_cases same : other = process
  · subst same
    exact own inode slot
  · obtain ⟨samePc, sameLocks⟩ := kept other same
    rw [sameLocks, samePc]
    exact exact_ inode other slot

omit [DecidableEq Inode] in
theorem Exact.exit (exact_ : Exact arguments before)
    (kept : KeepsOthers process before state) (status : Nat) :
    Exact arguments (state.exit process status) := by
  apply exact_.of_own (kept.trans (exit_keepsOthers status))
  intro inode slot
  have nothing : (state.exit process status).holder inode ≠ some (process, slot) := by
    simp only [State.exit]
    split_ifs with mine
    · exact Option.some_ne_none _ ∘ Eq.symm
    · intro held
      rw [held] at mine
      simp at mine
  have ended : ((state.exit process status).pc process).holds slot = false := by
    simp only [State.exit, Function.update_self]
    rfl
  simp only [nothing, ended, Bool.false_eq_true, and_false]

omit [DecidableEq Inode] in
theorem Exact.goto (exact_ : Exact arguments state) {pc : Pc}
    (same : pc.holds = (state.pc process).holds) : Exact arguments (state.goto process pc) := by
  apply exact_.of_own (goto_keepsOthers pc)
  intro inode slot
  simp only [State.goto, Function.update_self, same]
  exact exact_ inode process slot

theorem Exact.lock (exact_ : Exact arguments state)
    (free : ¬ state.Conflict (arguments.file process slot) (process, slot)) {pc : Pc}
    (more : ∀ place, pc.holds place = (decide (place = slot) || (state.pc process).holds place)) :
    Exact arguments
      ((state.lock (arguments.file process slot) (process, slot)).goto process pc) := by
  apply exact_.of_own ((lock_keepsOthers free).trans (goto_keepsOthers pc))
  intro inode place
  simp only [State.goto, State.lock, Function.update_self, more, Bool.or_eq_true, decide_eq_true_eq]
  by_cases here : inode = arguments.file process slot
  · subst here
    rw [Function.update_self]
    constructor
    · intro taken
      cases taken
      exact ⟨rfl, .inl rfl⟩
    · rintro ⟨sameFile, rfl | held⟩
      · rfl
      · have holder := (exact_ _ process place).mpr ⟨sameFile, held⟩
        by_contra different
        exact free ⟨holder ▸ Option.some_ne_none _, holder ▸ Ne.symm different⟩
  · rw [Function.update_of_ne here, exact_]
    constructor
    · intro held
      exact ⟨held.1, .inr held.2⟩
    · rintro ⟨sameFile, rfl | held⟩
      · exact absurd sameFile.symm here
      · exact ⟨sameFile, held⟩

theorem Exact.unlock (exact_ : Exact arguments state) {pc : Pc}
    (fewer : ∀ place, pc.holds place = (!decide (place = slot) && (state.pc process).holds place)) :
    Exact arguments
      ((state.unlock (arguments.file process slot) (process, slot)).goto process pc) := by
  apply exact_.of_own (unlock_keepsOthers.trans (goto_keepsOthers pc))
  intro inode place
  simp only [State.goto, State.unlock, Function.update_self, fewer, Bool.and_eq_true,
    Bool.not_eq_true', decide_eq_false_iff_not]
  by_cases same : place = slot
  · subst same
    simp only [not_true_eq_false, false_and, and_false, iff_false]
    split_ifs with mine
    · exact not_false
    · intro held
      exact mine ⟨((exact_ inode process place).mp held).1.symm, held⟩
  · simp only [same, not_false_eq_true, true_and]
    rw [← exact_]
    split_ifs with mine
    · rw [mine.2]
      simp [Ne.symm same]
    · rfl

theorem step_exact (exact_ : Exact arguments before) {succeeds : Bool}
    (stepped : step arguments (process, succeeds) before = some after) :
    Exact arguments after := by
  have refl : KeepsOthers process before before := fun _ _ => ⟨rfl, fun _ _ => Iff.rfl⟩
  have proceeded : ∀ next, Exact arguments next →
      Exact arguments (before.proceed process succeeds next) := by
    intro next exact'
    cases succeeds with
    | true => exact exact'
    | false => exact exact_.exit refl 1
  have locked : ∀ slot next, (∀ place, next.holds place =
        (decide (place = slot) || (before.pc process).holds place)) →
      locking arguments process slot succeeds next before = some after →
      Exact arguments after := by
    intro slot next more ran
    rw [locking] at ran
    split_ifs at ran with conflict
    cases ran
    exact proceeded _ (exact_.lock conflict more)
  rw [step] at stepped
  split at stepped
  case h_1 at_ | h_2 at_ =>
    cases stepped
    exact proceeded _ (exact_.goto (by rw [at_]; rfl))
  case h_3 at_ | h_4 at_ =>
    apply locked _ _ _ stepped
    rw [at_]
    intro place
    cases place <;> rfl
  case h_5 at_ =>
    cases stepped
    apply proceeded _ (exact_.unlock _)
    rw [at_]
    intro place
    cases place <;> rfl
  case h_6 =>
    cases stepped
    exact proceeded _ (exact_.exit unlock_keepsOthers 0)
  case h_7 => cases stepped

/-- Every step is one call less. -/
theorem step_left {succeeds : Bool}
    (stepped : step arguments (process, succeeds) before = some after) :
    (after.pc process).left < (before.pc process).left := by
  have proceeded : ∀ next pc, next.pc process = pc → pc.left < (before.pc process).left →
      ((before.proceed process succeeds next).pc process).left < (before.pc process).left := by
    intro next pc there less
    cases succeeds with
    | true => exact there ▸ less
    | false =>
        simp only [State.proceed, State.exit, Function.update_self, Bool.false_eq_true, if_false]
        exact Nat.zero_lt_of_lt less
  have locked : ∀ slot next, next.left < (before.pc process).left →
      locking arguments process slot succeeds next before = some after →
      (after.pc process).left < (before.pc process).left := by
    intro slot next less ran
    rw [locking] at ran
    split_ifs at ran
    cases ran
    exact proceeded _ next (Function.update_self ..) less
  rw [step] at stepped
  split at stepped
  case h_1 at_ | h_2 at_ | h_5 at_ | h_6 at_ =>
    cases stepped
    exact proceeded _ _ (Function.update_self ..) (by rw [at_]; decide)
  case h_3 at_ | h_4 at_ => exact locked _ _ (by rw [at_]; decide) stepped
  case h_7 => cases stepped

end Steps

/-! ### Runs -/

section Runs

variable {arguments : Arguments Process Inode} {state before after : State Process Inode}
  {process : Process}

theorem system_inductive (arguments : Arguments Process Inode) :
    (system arguments).Inductive (Exact arguments) where
  init := by
    rintro state rfl inode process slot
    simp [started, Pc.holds]
  step := by
    rintro before after exact_ ⟨⟨process, succeeds⟩, -, stepped⟩
    exact step_exact exact_ stepped

/-- Two open files never have the lock of one file at the same time. -/
theorem exclusive (reachable : (system arguments).Reachable state) {other : Process}
    {slot slot' : Slot} (holds : (state.pc process).holds slot)
    (holds' : (state.pc other).holds slot')
    (sameFile : arguments.file process slot = arguments.file other slot') :
    process = other ∧ slot = slot' := by
  have exact_ := (system_inductive arguments).holds reachable
  have held := (exact_ _ process slot).mpr ⟨sameFile, holds⟩
  have held' := (exact_ _ other slot').mpr ⟨rfl, holds'⟩
  cases held.symm.trans held'
  exact ⟨rfl, rfl⟩

/-- All calls that are left. -/
def callsLeft [Fintype Process] (state : State Process Inode) : Nat :=
  ∑ process, (state.pc process).left

theorem callsLeft_lt [Fintype Process] (stepped : (system arguments).Step before after) :
    callsLeft after < callsLeft before := by
  obtain ⟨⟨process, succeeds⟩, -, ran⟩ := stepped
  apply Finset.sum_lt_sum
  · intro other _
    by_cases same : other = process
    · subst same
      exact (step_left ran).le
    · rw [(step_keepsOthers ran other same).1]
  · exact ⟨process, Finset.mem_univ process, step_left ran⟩

theorem locking_eq_none_iff {slot : Slot} {succeeds : Bool} {next : Pc} :
    locking arguments process slot succeeds next state = none ↔
      state.Conflict (arguments.file process slot) (process, slot) := by
  simp [locking]

/-- A process that has not ended and cannot move is at one of the two locks, and another
open file has it. -/
theorem blocked_iff : Blocked arguments state process ↔
    state.pc process = .lockingFile1 ∧
        state.Conflict (arguments.file1 process) (process, .fd1) ∨
      state.pc process = .lockingFile2 ∧
        state.Conflict (arguments.file2 process) (process, .fd2) := by
  cases place : state.pc process <;>
    simp [Blocked, step, locking_eq_none_iff, place, Arguments.file]

omit [DecidableEq Process] [DecidableEq Inode] in
theorem Exact.owner (exact_ : Exact arguments state) {inode : Inode} {owner : Process × Slot}
    (conflict : state.Conflict inode owner) : ∃ other slot, (other, slot) ≠ owner ∧
      arguments.file other slot = inode ∧ (state.pc other).holds slot := by
  obtain ⟨taken, different⟩ := conflict
  obtain ⟨⟨other, slot⟩, held⟩ := Option.ne_none_iff_exists'.mp taken
  refine ⟨other, slot, ?_, (exact_ inode other slot).mp held⟩
  rintro rfl
  exact different held

/-- Where nobody can move, the one who has the lock of a file waits for a second lock. -/
theorem owner_waits (exact_ : Exact arguments state) (stuck : (system arguments).Stuck state)
    {inode : Inode} {owner : Process × Slot} (conflict : state.Conflict inode owner) :
    ∃ other, arguments.file1 other = inode ∧ state.pc other = .lockingFile2 ∧
      state.Conflict (arguments.file2 other) (other, .fd2) := by
  obtain ⟨other, slot, -, sameFile, holds⟩ := exact_.owner conflict
  have blocked : Blocked arguments state other := by
    constructor
    · intro status ended
      rw [ended] at holds
      cases holds
    · intro succeeds
      by_contra moves
      obtain ⟨next, stepped⟩ := Option.ne_none_iff_exists'.mp moves
      exact stuck next ⟨(other, succeeds), trivial, stepped⟩
  rcases blocked_iff.mp blocked with ⟨place, -⟩ | ⟨place, waits⟩
  · rw [place] at holds
    cases holds
  · cases slot with
    | fd1 => exact ⟨other, sameFile, place, waits⟩
    | fd2 =>
        rw [place] at holds
        cases holds

/-- Where nobody can move but somebody has not ended, the order of the files is a circle. -/
theorem exists_cycle_of_stuck [Finite Process] (exact_ : Exact arguments state)
    (stuck : (system arguments).Stuck state) (blocked : Blocked arguments state process) :
    ∃ inode, Relation.TransGen arguments.Chained inode inode := by
  let waiting : Set Process := fun other => state.pc other = .lockingFile2 ∧
    state.Conflict (arguments.file2 other) (other, .fd2)
  have nonempty : waiting.Nonempty := by
    rcases blocked_iff.mp blocked with ⟨-, conflict⟩ | waits
    · obtain ⟨other, -, waits⟩ := owner_waits exact_ stuck conflict
      exact ⟨other, waits⟩
    · exact ⟨process, waits⟩
  have successor : ∀ earlier ∈ waiting, ∃ later ∈ waiting,
      arguments.file2 earlier = arguments.file1 later := by
    rintro earlier ⟨-, conflict⟩
    obtain ⟨later, sameFile, waits⟩ := owner_waits exact_ stuck conflict
    exact ⟨later, waits, sameFile.symm⟩
  obtain ⟨first, cycle⟩ := exists_cycle_of_successors nonempty successor
  exact ⟨arguments.file1 first, cycle.lift arguments.file1 fun earlier later same =>
    ⟨earlier, rfl, same⟩⟩

/-! ### Processes that lock each other out -/

/-- Each of these processes has its first lock and waits for the first lock of another one of
them. -/
structure Deadlocked (arguments : Arguments Process Inode) (circle : Process → Prop)
    (state : State Process Inode) : Prop where
  place : ∀ process, circle process → state.pc process = .lockingFile2
  held : ∀ process, circle process →
    state.holder (arguments.file1 process) = some (process, .fd1)
  chained : ∀ process, circle process →
    ∃ other, circle other ∧ arguments.file1 other = arguments.file2 process

variable {circle : Process → Prop}

theorem Deadlocked.blocked (deadlocked : Deadlocked arguments circle state)
    (member : circle process) : Blocked arguments state process := by
  obtain ⟨other, member', sameFile⟩ := deadlocked.chained process member
  apply blocked_iff.mpr
  refine .inr ⟨deadlocked.place process member, ?_⟩
  rw [State.Conflict, ← sameFile, deadlocked.held other member']
  simp

theorem Deadlocked.step (deadlocked : Deadlocked arguments circle before)
    (stepped : (system arguments).Step before after) : Deadlocked arguments circle after := by
  obtain ⟨⟨process, succeeds⟩, -, ran⟩ := stepped
  have outside : ∀ other, circle other → other ≠ process := by
    rintro other member rfl
    rw [(deadlocked.blocked member).2] at ran
    cases ran
  have kept := step_keepsOthers ran
  exact {
    place := fun other member =>
      (kept other (outside other member)).1.trans (deadlocked.place other member)
    held := fun other member =>
      ((kept other (outside other member)).2 _ _).mpr (deadlocked.held other member)
    chained := deadlocked.chained }

theorem Deadlocked.waitsForEver (deadlocked : Deadlocked arguments circle state)
    (member : circle process) : WaitsForEver arguments state process := by
  intro later run
  suffices Deadlocked arguments circle later from this.blocked member
  induction run with
  | refl => exact deadlocked
  | tail _ stepped inductionHypothesis => exact inductionHypothesis.step stepped

/-- Processes whose first files differ can all get their first lock before any of them asks
for the second one. -/
theorem exists_all_hold_first (chosen : Finset Process)
    (apart : ∀ process ∈ chosen, ∀ other ∈ chosen,
      arguments.file1 process = arguments.file1 other → process = other) :
    ∃ state, (system arguments).Reachable state ∧
      (∀ process ∈ chosen, state.pc process = .lockingFile2) ∧
      ∀ process ∉ chosen, state.pc process = .openingFile1 := by
  induction chosen using Finset.induction_on with
  | empty => exact ⟨started, .of_init rfl, by simp, fun _ _ => rfl⟩
  | insert process chosen fresh inductionHypothesis =>
      obtain ⟨state, reachable, inside, outside⟩ := inductionHypothesis
        (fun one member other member' => apart one (Finset.mem_insert_of_mem member) other
          (Finset.mem_insert_of_mem member'))
      have exact_ := (system_inductive arguments).holds reachable
      have free : ¬ state.Conflict (arguments.file process .fd1) (process, .fd1) := by
        intro conflict
        obtain ⟨other, slot, different, sameFile, holds⟩ := exact_.owner conflict
        by_cases member : other ∈ chosen
        · rw [inside other member] at holds
          cases slot with
          | fd2 => cases holds
          | fd1 =>
              have same := apart other (Finset.mem_insert_of_mem member) process
                (Finset.mem_insert_self ..) sameFile
              exact fresh (same ▸ member)
        · rw [outside other member] at holds
          cases holds
      have opens₁ : step arguments (process, true) state =
          some (state.goto process .openingFile2) := by
        simp [step, outside process fresh, State.proceed]
      have opens₂ : step arguments (process, true) (state.goto process .openingFile2) =
          some ((state.goto process .openingFile2).goto process .lockingFile1) := by
        simp [step, State.goto, State.proceed]
      have locks : step arguments (process, true)
          ((state.goto process .openingFile2).goto process .lockingFile1) =
          some ((((state.goto process .openingFile2).goto process .lockingFile1).lock
            (arguments.file process .fd1) (process, .fd1)).goto process .lockingFile2) := by
        have place : ((state.goto process .openingFile2).goto process .lockingFile1).pc process =
            .lockingFile1 := Function.update_self ..
        simp only [step, place]
        exact if_neg free
      refine ⟨_, ((reachable.tail ⟨_, trivial, opens₁⟩).tail ⟨_, trivial, opens₂⟩).tail
        ⟨_, trivial, locks⟩, ?_, ?_⟩
      · intro other member
        rcases Finset.mem_insert.mp member with rfl | member
        · exact Function.update_self ..
        · have different : other ≠ process := fun same => fresh (same ▸ member)
          simp [State.goto, State.lock, different, inside other member]
      · intro other absent
        rw [Finset.mem_insert, not_or] at absent
        simp [State.goto, State.lock, absent.1, outside other absent.2]

/-- Along a circle of files some processes can lock each other out. -/
theorem exists_deadlocked [Fintype Process] {inode : Inode}
    (cycle : Relation.TransGen arguments.Chained inode inode) :
    ∃ state circle process, (system arguments).Reachable state ∧ circle process ∧
      Deadlocked arguments circle state := by
  classical
  -- for every file on a circle one process that goes on on a circle
  have goesOn : ∀ file : { file // Relation.TransGen arguments.Chained file file },
      ∃ process, arguments.file1 process = file.1 ∧ Relation.TransGen arguments.Chained
        (arguments.file2 process) (arguments.file2 process) := by
    rintro ⟨file, onCircle⟩
    obtain ⟨next, ⟨process, first, second⟩, onCircle'⟩ := exists_next_on_cycle onCircle
    exact ⟨process, first, second ▸ onCircle'⟩
  choose choice first second using goesOn
  let chosen := Finset.univ.filter fun process => ∃ file, choice file = process
  have member : ∀ file, choice file ∈ chosen := by
    intro file
    exact Finset.mem_filter.mpr ⟨Finset.mem_univ _, file, rfl⟩
  have apart : ∀ process ∈ chosen, ∀ other ∈ chosen,
      arguments.file1 process = arguments.file1 other → process = other := by
    intro process isChosen other isChosen' same
    obtain ⟨file, rfl⟩ := (Finset.mem_filter.mp isChosen).2
    obtain ⟨file', rfl⟩ := (Finset.mem_filter.mp isChosen').2
    rw [first, first] at same
    rw [Subtype.ext same]
  obtain ⟨state, reachable, inside, -⟩ := exists_all_hold_first chosen apart
  refine ⟨state, (· ∈ chosen), choice ⟨inode, cycle⟩, reachable, member _, ?_⟩
  exact {
    place := inside
    held := fun process isChosen =>
      ((system_inductive arguments).holds reachable _ process .fd1).mpr
        ⟨rfl, by rw [inside process isChosen]; rfl⟩
    chained := by
      intro process isChosen
      obtain ⟨file, rfl⟩ := (Finset.mem_filter.mp isChosen).2
      exact ⟨choice ⟨_, second file⟩, member _, first _⟩ }

/-- Where nobody can move, either all have ended or the order of the files is a circle. -/
theorem ended_of_stuck [Finite Process] (exact_ : Exact arguments state)
    (stuck : (system arguments).Stuck state)
    (acyclic : ¬ ∃ inode, Relation.TransGen arguments.Chained inode inode) (process : Process) :
    ∃ status, state.pc process = .exited status := by
  by_contra! goesOn
  have blocked : Blocked arguments state process := by
    refine ⟨goesOn, fun succeeds => ?_⟩
    by_contra moves
    obtain ⟨next, stepped⟩ := Option.ne_none_iff_exists'.mp moves
    exact stuck next ⟨(process, succeeds), trivial, stepped⟩
  exact acyclic (exists_cycle_of_stuck exact_ stuck blocked)

omit [DecidableEq Process] [DecidableEq Inode] in
/-- Locks end with the processes that have them. -/
theorem Exact.unlocked (exact_ : Exact arguments state)
    (ended : ∀ process, ∃ status, state.pc process = .exited status) (inode : Inode) :
    state.holder inode = none := by
  by_contra taken
  obtain ⟨⟨process, slot⟩, held⟩ := Option.ne_none_iff_exists'.mp taken
  obtain ⟨status, place⟩ := ended process
  have holds := ((exact_ inode process slot).mp held).2
  rw [place] at holds
  cases holds

end Runs

/-- A process can come to wait for ever exactly if the files are locked in a circle. -/
theorem waitsForEver_iff_cycle [Fintype Process] (arguments : Arguments Process Inode) :
    (∃ state process, (system arguments).Reachable state ∧
        WaitsForEver arguments state process) ↔
      ∃ inode, Relation.TransGen arguments.Chained inode inode := by
  constructor
  · rintro ⟨state, process, reachable, waits⟩
    obtain ⟨last, run, stuck⟩ := (system arguments).reaches_stuck callsLeft
      (fun _ _ stepped => callsLeft_lt stepped) state
    obtain ⟨start, initial, toState⟩ := reachable
    exact exists_cycle_of_stuck
      ((system_inductive arguments).holds ⟨start, initial, toState.trans run⟩) stuck
      (waits last run)
  · rintro ⟨inode, cycle⟩
    obtain ⟨state, circle, process, reachable, member, deadlocked⟩ := exists_deadlocked cycle
    exact ⟨state, process, reachable, deadlocked.waitsForEver member⟩

/-- One process on two files. -/
def aloneOnTwo : Arguments Unit Bool := ⟨fun _ => false, fun _ => true⟩

theorem aloneOnTwo_acyclic :
    ¬ ∃ inode, Relation.TransGen aloneOnTwo.Chained inode inode := by
  have upwards : ∀ first last, Relation.TransGen aloneOnTwo.Chained first last →
      first = false ∧ last = true := by
    intro first last path
    induction path with
    | single edge =>
        obtain ⟨-, rfl, rfl⟩ := edge
        exact ⟨rfl, rfl⟩
    | tail _ edge inductionHypothesis =>
        obtain ⟨-, -, rfl⟩ := edge
        exact ⟨inductionHypothesis.1, rfl⟩
  rintro ⟨inode, cycle⟩
  obtain ⟨low, high⟩ := upwards inode inode cycle
  cases low.symm.trans high

end LinuxProgramming.Files.TwoLocks
