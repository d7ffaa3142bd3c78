import LinuxProgramming.Library.CInt
import LinuxProgramming.Library.TransitionSystem

/-!
Contract: `thread_incr`, in which two threads increment one global variable without a lock.

Owns:
- `thread_func`, with the read and the write of `glob` as steps of their own, and `main`;
- the values of `glob` that `main` can print.

Does not own: the lines that the threads print, or the reading of the argument.
-/

namespace LinuxProgramming.Threads.Increment

open LinuxProgramming.Library
open CInt

/-- Where a thread is in `thread_func`. -/
inductive Thread where
  /-- Not created yet. -/
  | absent
  /-- `j < t.loop`, and then `loc = glob`. -/
  | testing (j : Int)
  /-- `loc++` and `glob = loc`; `loc` is the value that was read. -/
  | adding (j loc : Int)
  | returned
deriving DecidableEq, Repr

/-- Where `main` is: the call it makes next, or the value it printed before it exited. -/
inductive Main where
  | creating1
  | creating2
  | joining1
  | joining2
  | exited (printed : Option Int)
deriving DecidableEq, Repr

structure State where
  glob : Int
  t1 : Thread
  t2 : Thread
  main : Main
deriving DecidableEq, Repr

def State.thread (state : State) : Side → Thread
  | .left => state.t1
  | .right => state.t2

/-- A thread goes on and leaves this value in `glob`. -/
def State.move (state : State) (thread : Thread) (glob : Int) : Side → State
  | .left => { state with t1 := thread, glob := glob }
  | .right => { state with t2 := thread, glob := glob }

section Program

variable (loops : Int)

/-- A step of `thread_func` with `t.loop = loops`. -/
def threadFunc (side : Side) (state : State) : Option State :=
  match state.thread side with
  | .absent | .returned => none
  | .testing j =>
      if j < loops then some (state.move (.adding j state.glob) state.glob side)
      else some (state.move .returned state.glob side)
  | .adding j loc => some (state.move (.testing (wrap (j + 1))) (wrap (loc + 1)) side)

/-- A step of `main`, whose call succeeds or fails. -/
def mainStep (succeeds : Bool) (state : State) : Option State :=
  match state.main with
  | .creating1 =>
      if succeeds then some { state with t1 := .testing 0, main := .creating2 }
      else some { state with main := .exited none }
  | .creating2 =>
      if succeeds then some { state with t2 := .testing 0, main := .joining1 }
      else some { state with main := .exited none }
  | .joining1 =>
      if succeeds then
        if state.t1 = .returned then some { state with main := .joining2 } else none
      else some { state with main := .exited none }
  | .joining2 =>
      if succeeds then
        if state.t2 = .returned then some { state with main := .exited (some state.glob) }
        else none
      else some { state with main := .exited none }
  | .exited _ => none

/-- Who moves. -/
inductive Mover where
  | main (succeeds : Bool)
  | thread (side : Side)
deriving DecidableEq, Repr

/-- `exit` ends the threads too. -/
def step : Mover → State → Option State
  | .main succeeds, state => mainStep succeeds state
  | .thread side, state =>
      match state.main with
      | .exited _ => none
      | _ => threadFunc loops side state

def initial : State := ⟨0, .absent, .absent, .creating1⟩

/-- All interleavings. -/
def threadIncr : TransitionSystem State :=
  labelled (fun state => state = initial) (step loops)

/-! ### What every run keeps -/

/-- The writes that a thread has made. -/
def Thread.writes : Thread → Int
  | .absent => 0
  | .testing j => j
  | .adding j _ => j
  | .returned => max loops 0

/-- A value that a thread has read is not above the writes made so far, and not 0 once the
thread itself has written. -/
def Thread.Fine (total : Int) : Thread → Prop
  | .absent => True
  | .testing j => 0 ≤ j ∧ j ≤ max loops 0
  | .adding j loc => 0 ≤ j ∧ j < loops ∧ 0 ≤ loc ∧ loc ≤ total ∧ (0 < j → 1 ≤ loc)
  | .returned => True

def State.total (state : State) : Int :=
  state.t1.writes loops + state.t2.writes loops

/-- What `main` has waited for. -/
def State.Joined (state : State) : Prop :=
  match state.main with
  | .creating1 | .creating2 | .joining1 | .exited none => True
  | .joining2 => state.t1 = .returned
  | .exited (some printed) => state.t1 = .returned ∧ state.t2 = .returned ∧ printed = state.glob

/-- `glob` against the writes of the threads. -/
structure Counts (state : State) : Prop where
  fine : ∀ side, (state.thread side).Fine loops (state.total loops)
  nonneg : 0 ≤ state.glob
  atMost : state.glob ≤ state.total loops
  written : ∀ side, 0 < (state.thread side).writes loops → 1 ≤ state.glob
  /-- The thread that wrote last had seen its own earlier writes. -/
  lastWriter : ∃ side, min 2 ((state.thread side).writes loops) ≤ state.glob

structure Invariant (state : State) : Prop where
  counts : Counts loops state
  joined : state.Joined
  uncreated : (state.main = .creating1 → state.t1 = .absent ∧ state.t2 = .absent) ∧
    (state.main = .creating2 → state.t2 = .absent)

end Program

section Steps

variable {loops glob : Int} {state after : State} {side : Side} {thread : Thread}

@[simp] theorem thread_move : (state.move thread glob side).thread side = thread := by
  cases side <;> rfl

theorem thread_move_of_ne {other : Side} (different : other ≠ side) :
    (state.move thread glob side).thread other = state.thread other := by
  cases side <;> cases other <;> first | rfl | exact absurd rfl different

@[simp] theorem main_move : (state.move thread glob side).main = state.main := by
  cases side <;> rfl

@[simp] theorem glob_move : (state.move thread glob side).glob = glob := by
  cases side <;> rfl

theorem total_move : (state.move thread glob side).total loops =
    state.total loops + thread.writes loops - (state.thread side).writes loops := by
  cases side <;> simp only [State.total, State.move, State.thread] <;> omega

theorem Thread.Fine.mono {total total' : Int} (fine : thread.Fine loops total)
    (le : total ≤ total') : thread.Fine loops total' := by
  cases thread with
  | adding j loc =>
      obtain ⟨low, high, nonneg, atMost, seen⟩ := fine
      exact ⟨low, high, nonneg, atMost.trans le, seen⟩
  | testing | absent | returned => exact fine

/-- A thread moves: what there is to show about it and about the value it leaves. -/
theorem Counts.move (counts : Counts loops state)
    (more : (state.thread side).writes loops ≤ thread.writes loops)
    (fine : thread.Fine loops (state.total loops + thread.writes loops -
      (state.thread side).writes loops))
    (nonneg : 0 ≤ glob)
    (atMost : glob ≤ state.total loops + thread.writes loops - (state.thread side).writes loops)
    (written : ∀ other, 0 < ((state.move thread glob side).thread other).writes loops → 1 ≤ glob)
    (lastWriter : ∃ other,
      min 2 (((state.move thread glob side).thread other).writes loops) ≤ glob) :
    Counts loops (state.move thread glob side) where
  fine other := by
    rw [total_move]
    by_cases same : other = side
    · subst same
      rw [thread_move]
      exact fine
    · rw [thread_move_of_ne same]
      exact (counts.fine other).mono (by omega)
  nonneg := by rwa [glob_move]
  atMost := by rwa [glob_move, total_move]
  written := by rwa [glob_move]
  lastWriter := by rwa [glob_move]

/-- A thread moves and writes nothing. -/
theorem Counts.keep (counts : Counts loops state)
    (same : thread.writes loops = (state.thread side).writes loops)
    (fine : thread.Fine loops (state.total loops)) :
    Counts loops (state.move thread state.glob side) := by
  have everyone : ∀ other, ((state.move thread state.glob side).thread other).writes loops =
      (state.thread other).writes loops := by
    intro other
    by_cases here : other = side
    · subst here
      rw [thread_move, same]
    · rw [thread_move_of_ne here]
  have atMost := counts.atMost
  apply counts.move same.ge _ counts.nonneg
  · omega
  · intro other
    rw [everyone]
    exact counts.written other
  · simpa only [everyone] using counts.lastWriter
  · exact fine.mono (by omega)

theorem Thread.Fine.writes_le {total : Int} (fine : thread.Fine loops total) :
    thread.writes loops ≤ max loops 0 := by
  cases thread with
  | absent => exact Int.le_max_right ..
  | testing j => exact fine.2
  | adding j loc => exact fine.2.1.le.trans (Int.le_max_left ..)
  | returned => exact Int.le_refl _

theorem Counts.total_le (counts : Counts loops state) (side : Side) :
    state.total loops ≤ (state.thread side).writes loops + max loops 0 := by
  have left := (counts.fine .left).writes_le
  have right := (counts.fine .right).writes_le
  simp only [State.thread] at left right
  cases side <;> simp only [State.total, State.thread] <;> omega

/-- Where a thread moves it has been created and has not returned. -/
theorem threadFunc_counts (fits : 2 * loops ≤ INT_MAX) (counts : Counts loops state)
    (ran : threadFunc loops side state = some after) :
    state.thread side ≠ .absent ∧ state.thread side ≠ .returned ∧
      ∃ thread glob, after = state.move thread glob side ∧ Counts loops after := by
  have own := counts.fine side
  rw [threadFunc] at ran
  cases place : state.thread side with
  | absent | returned =>
      rw [place] at ran
      cases ran
  | testing j =>
      refine ⟨by simp, by simp, ?_⟩
      rw [place] at ran own
      obtain ⟨low, high⟩ := own
      dsimp only at ran
      split_ifs at ran with more
      · cases ran
        refine ⟨_, _, rfl, counts.keep (by rw [place]; rfl) ?_⟩
        refine ⟨low, more, counts.nonneg, counts.atMost, fun positive => ?_⟩
        exact counts.written side (by rwa [place])
      · cases ran
        refine ⟨_, _, rfl, counts.keep ?_ trivial⟩
        rw [place]
        simp only [Thread.writes]
        omega
  | adding j loc =>
      refine ⟨by simp, by simp, ?_⟩
      rw [place] at ran own
      obtain ⟨low, more, read, below, seen⟩ := own
      have bound := counts.total_le side
      rw [place] at bound
      simp only [Thread.writes] at bound
      cases ran
      rw [wrap_of_nonneg (by omega) (by omega), wrap_of_nonneg (by omega) (by omega)]
      refine ⟨_, _, rfl, counts.move ?_ ⟨by omega, by omega⟩ (by omega) ?_ ?_ ⟨side, ?_⟩⟩
      · simp only [place, Thread.writes]
        omega
      · simp only [place, Thread.writes]
        omega
      · intro other _
        omega
      · simp only [thread_move, Thread.writes]
        omega

/-- What `main` has waited for stays so when a thread that has not returned moves. -/
theorem joined_move (joined : state.Joined) (runs : ∀ printed, state.main ≠ .exited printed)
    (unfinished : state.thread side ≠ .returned) : (state.move thread glob side).Joined := by
  unfold State.Joined at joined ⊢
  rw [main_move]
  cases place : state.main with
  | exited printed => exact absurd place (runs printed)
  | joining2 =>
      rw [place] at joined
      cases side with
      | left => exact absurd joined unfinished
      | right => exact joined
  | creating1 | creating2 | joining1 => trivial

theorem threadFunc_invariant (fits : 2 * loops ≤ INT_MAX) (invariant : Invariant loops state)
    (runs : ∀ printed, state.main ≠ .exited printed)
    (ran : threadFunc loops side state = some after) : Invariant loops after := by
  obtain ⟨created, unfinished, thread, glob, rfl, counts⟩ :=
    threadFunc_counts fits invariant.counts ran
  refine ⟨counts, joined_move invariant.joined runs unfinished, ?_⟩
  rw [main_move]
  constructor
  · intro place
    obtain ⟨absent, absent'⟩ := invariant.uncreated.1 place
    cases side with
    | left => exact absurd absent created
    | right => exact absurd absent' created
  · intro place
    have absent := invariant.uncreated.2 place
    cases side with
    | left => exact absent
    | right => exact absurd absent created

/-- `main` is no part of the count. -/
theorem Counts.setMain (counts : Counts loops state) (main : Main) :
    Counts loops { state with main := main } :=
  ⟨counts.fine, counts.nonneg, counts.atMost, counts.written, counts.lastWriter⟩

theorem Counts.create (counts : Counts loops state) (absent : state.thread side = .absent) :
    Counts loops (state.move (.testing 0) state.glob side) :=
  counts.keep (by rw [absent]; rfl) ⟨Int.le_refl 0, Int.le_max_right ..⟩

theorem mainStep_invariant {succeeds : Bool} (invariant : Invariant loops state)
    (ran : mainStep succeeds state = some after) : Invariant loops after := by
  obtain ⟨counts, joined, uncreated⟩ := invariant
  rw [mainStep] at ran
  unfold State.Joined at joined
  have exits : Invariant loops { state with main := .exited none } :=
    ⟨counts.setMain _, trivial, Main.noConfusion, Main.noConfusion⟩
  cases place : state.main with
  | creating1 =>
      obtain ⟨absent, absent'⟩ := uncreated.1 place
      rw [place] at ran
      dsimp only at ran
      split_ifs at ran
      · cases ran
        exact ⟨(@Counts.create loops state .left counts absent).setMain .creating2, trivial,
          Main.noConfusion, fun _ => absent'⟩
      · cases ran
        exact exits
  | creating2 =>
      have absent := uncreated.2 place
      rw [place] at ran
      dsimp only at ran
      split_ifs at ran
      · cases ran
        exact ⟨(@Counts.create loops state .right counts absent).setMain .joining1, trivial,
          Main.noConfusion, Main.noConfusion⟩
      · cases ran
        exact exits
  | joining1 =>
      rw [place] at ran
      dsimp only at ran
      split_ifs at ran with succeeds ended
      · cases ran
        exact ⟨counts.setMain .joining2, ended, Main.noConfusion, Main.noConfusion⟩
      · cases ran
        exact exits
  | joining2 =>
      rw [place] at ran joined
      dsimp only at ran
      split_ifs at ran with succeeds ended
      · cases ran
        exact ⟨counts.setMain _, ⟨joined, ended, rfl⟩, Main.noConfusion, Main.noConfusion⟩
      · cases ran
        exact exits
  | exited printed =>
      rw [place] at ran
      cases ran

theorem threadIncr_inductive (fits : 2 * loops ≤ INT_MAX) :
    (threadIncr loops).Inductive (Invariant loops) where
  init := by
    rintro state rfl
    refine ⟨?_, trivial, fun _ => ⟨rfl, rfl⟩, fun _ => rfl⟩
    exact {
      fine := fun side => by cases side <;> trivial
      nonneg := Int.le_refl 0
      atMost := Int.le_refl 0
      written := fun side positive => by cases side <;> cases positive
      lastWriter := ⟨.left, Int.le_refl 0⟩ }
  step := by
    rintro before after invariant ⟨mover, -, ran⟩
    cases mover with
    | main succeeds => exact mainStep_invariant invariant ran
    | thread side =>
        rw [step] at ran
        split at ran
        case h_1 => cases ran
        case h_2 running => exact threadFunc_invariant fits invariant running ran

end Steps

/-! ### Schedules -/

section Schedules

variable {loops : Int} {state : State} {side : Side} {j loc : Int}

theorem move_move {thread thread' : Thread} {glob glob' : Int} :
    (state.move thread glob side).move thread' glob' side = state.move thread' glob' side := by
  cases side <;> rfl

theorem step_thread {after : State} (runs : ∀ printed, state.main ≠ .exited printed)
    (ran : threadFunc loops side state = some after) :
    (threadIncr loops).Step state after := by
  refine ⟨.thread side, trivial, ?_⟩
  rw [step]
  split
  case h_1 printed ended => exact absurd ended (runs printed)
  case h_2 => exact ran

theorem step_load (runs : ∀ printed, state.main ≠ .exited printed)
    (place : state.thread side = .testing j) (more : j < loops) :
    (threadIncr loops).Step state (state.move (.adding j state.glob) state.glob side) := by
  apply step_thread runs
  rw [threadFunc, place]
  exact if_pos more

theorem step_store (runs : ∀ printed, state.main ≠ .exited printed)
    (place : state.thread side = .adding j loc) (low : 0 ≤ j) (high : j + 1 ≤ INT_MAX)
    (nonneg : 0 ≤ loc) (fits : loc + 1 ≤ INT_MAX) :
    (threadIncr loops).Step state (state.move (.testing (j + 1)) (loc + 1) side) := by
  apply step_thread runs
  rw [threadFunc, place]
  dsimp only
  rw [wrap_of_nonneg (by omega) high, wrap_of_nonneg (by omega) fits]

theorem step_return (runs : ∀ printed, state.main ≠ .exited printed)
    (place : state.thread side = .testing j) (done : loops ≤ j) :
    (threadIncr loops).Step state (state.move .returned state.glob side) := by
  apply step_thread runs
  rw [threadFunc, place]
  exact if_neg (Int.not_lt.mpr done)

/-- A thread that nobody disturbs adds one in every round. -/
theorem solo (rounds : Nat) (runs : ∀ printed, state.main ≠ .exited printed)
    (place : state.thread side = .testing j) (low : 0 ≤ j) (high : j + rounds ≤ loops)
    (nonneg : 0 ≤ state.glob) (fits : state.glob + rounds ≤ INT_MAX)
    (loopsFit : loops ≤ INT_MAX) :
    Relation.ReflTransGen (threadIncr loops).Step state
      (state.move (.testing (j + rounds)) (state.glob + rounds) side) := by
  induction rounds with
  | zero =>
      have same : state.move (.testing (j + (0 : Nat))) (state.glob + (0 : Nat)) side = state := by
        simp only [Int.natCast_zero, Int.add_zero, ← place]
        cases side <;> rfl
      rw [same]
  | succ rounds inductionHypothesis =>
      push_cast at high fits ⊢
      have runs' := inductionHypothesis (by omega) (by omega)
      have loads : (threadIncr loops).Step
          (state.move (.testing (j + rounds)) (state.glob + rounds) side) _ :=
        step_load (by rwa [main_move]) thread_move (by omega)
      rw [move_move, glob_move] at loads
      have stores : (threadIncr loops).Step (state.move (.adding (j + rounds)
          (state.glob + rounds)) (state.glob + rounds) side) _ :=
        step_store (by rwa [main_move]) thread_move (by omega) (by omega) (by omega) (by omega)
      rw [move_move] at stores
      simp only [← Int.add_assoc]
      exact (runs'.tail loads).tail stores

/-- After both threads have been created. -/
theorem created_reachable :
    (threadIncr loops).Reachable ⟨0, .testing 0, .testing 0, .joining1⟩ := by
  have first : (threadIncr loops).Step initial ⟨0, .testing 0, .absent, .creating2⟩ :=
    ⟨.main true, trivial, rfl⟩
  have second : (threadIncr loops).Step ⟨0, .testing 0, .absent, .creating2⟩
      ⟨0, .testing 0, .testing 0, .joining1⟩ := ⟨.main true, trivial, rfl⟩
  exact ((TransitionSystem.Reachable.of_init rfl).tail first).tail second

/-- When both threads are through, `main` prints what is in `glob`. -/
theorem printed_of_through {glob : Int} (done : loops ≤ j)
    (reachable : (threadIncr loops).Reachable ⟨glob, .testing j, .testing j, .joining1⟩) :
    ∃ state, (threadIncr loops).Reachable state ∧ state.main = .exited (some glob) := by
  have first : (threadIncr loops).Step ⟨glob, .testing j, .testing j, .joining1⟩
      ⟨glob, .returned, .testing j, .joining1⟩ :=
    @step_return _ ⟨glob, .testing j, .testing j, .joining1⟩ .left _ (fun _ => Main.noConfusion)
      rfl done
  have second : (threadIncr loops).Step ⟨glob, .returned, .testing j, .joining1⟩
      ⟨glob, .returned, .returned, .joining1⟩ :=
    @step_return _ ⟨glob, .returned, .testing j, .joining1⟩ .right _
      (fun _ => Main.noConfusion) rfl done
  have third : (threadIncr loops).Step ⟨glob, .returned, .returned, .joining1⟩
      ⟨glob, .returned, .returned, .joining2⟩ := ⟨.main true, trivial, rfl⟩
  have fourth : (threadIncr loops).Step ⟨glob, .returned, .returned, .joining2⟩
      ⟨glob, .returned, .returned, .exited (some glob)⟩ := ⟨.main true, trivial, rfl⟩
  exact ⟨_, (((reachable.tail first).tail second).tail third).tail fourth, rfl⟩

/-- One thread reads, the other one makes all its rounds but the last, and what it wrote is
overwritten; then the roles change. `first` rounds come before the first read, and `second`
rounds before the second one. -/
theorem overlapped (rounds first second : Nat) (firstLe : first ≤ rounds)
    (secondLe : second ≤ rounds) (fits : 2 * ((rounds : Int) + 1) ≤ INT_MAX) :
    (threadIncr (rounds + 1)).Reachable
      ⟨first + second + 2, .testing (rounds + 1), .testing (rounds + 1), .joining1⟩ := by
  have runs : ∀ printed, Main.joining1 ≠ .exited printed := fun _ => Main.noConfusion
  have begins : Relation.ReflTransGen (threadIncr (rounds + 1)).Step
      ⟨0, .testing 0, .testing 0, .joining1⟩ ⟨first, .testing 0, .testing first, .joining1⟩ := by
    have run := @solo (rounds + 1) ⟨0, .testing 0, .testing 0, .joining1⟩ .right 0 first runs rfl
      (by omega) (by omega) (by decide) (by dsimp only; omega) (by omega)
    simpa only [State.move, Int.zero_add] using run
  have leftLoads : (threadIncr (rounds + 1)).Step
      ⟨first, .testing 0, .testing first, .joining1⟩
      ⟨first, .adding 0 first, .testing first, .joining1⟩ :=
    @step_load _ ⟨first, .testing 0, .testing first, .joining1⟩ .left _ runs rfl (by omega)
  have rightGoesOn : Relation.ReflTransGen (threadIncr (rounds + 1)).Step
      ⟨first, .adding 0 first, .testing first, .joining1⟩
      ⟨rounds, .adding 0 first, .testing rounds, .joining1⟩ := by
    have run := @solo (rounds + 1) ⟨first, .adding 0 first, .testing first, .joining1⟩ .right first
      (rounds - first) runs rfl (by omega) (by omega) (by dsimp only; omega)
      (by dsimp only; omega) (by omega)
    have sum : (first : Int) + ((rounds - first : Nat) : Int) = rounds := by omega
    simpa only [State.move, sum] using run
  have leftStores : (threadIncr (rounds + 1)).Step
      ⟨rounds, .adding 0 first, .testing rounds, .joining1⟩
      ⟨first + 1, .testing (0 + 1), .testing rounds, .joining1⟩ :=
    @step_store _ ⟨rounds, .adding 0 first, .testing rounds, .joining1⟩ .left _ _ runs rfl
      (by omega) (by omega) (by omega) (by omega)
  have leftGoesOn : Relation.ReflTransGen (threadIncr (rounds + 1)).Step
      ⟨first + 1, .testing (0 + 1), .testing rounds, .joining1⟩
      ⟨first + 1 + second, .testing (0 + 1 + second), .testing rounds, .joining1⟩ :=
    @solo (rounds + 1) ⟨first + 1, .testing (0 + 1), .testing rounds, .joining1⟩ .left _ second
      runs rfl (by omega) (by omega) (by dsimp only; omega) (by dsimp only; omega) (by omega)
  have rightLoads : (threadIncr (rounds + 1)).Step
      ⟨first + 1 + second, .testing (0 + 1 + second), .testing rounds, .joining1⟩
      ⟨first + 1 + second, .testing (0 + 1 + second), .adding rounds (first + 1 + second),
        .joining1⟩ :=
    @step_load _ ⟨first + 1 + second, .testing (0 + 1 + second), .testing rounds, .joining1⟩
      .right _ runs rfl (by omega)
  have leftEnds : Relation.ReflTransGen (threadIncr (rounds + 1)).Step
      ⟨first + 1 + second, .testing (0 + 1 + second), .adding rounds (first + 1 + second),
        .joining1⟩
      ⟨first + 1 + rounds, .testing (rounds + 1), .adding rounds (first + 1 + second),
        .joining1⟩ := by
    have run := @solo (rounds + 1) ⟨first + 1 + second, .testing (0 + 1 + second),
      .adding rounds (first + 1 + second), .joining1⟩ .left _ (rounds - second) runs rfl
      (by omega) (by omega) (by dsimp only; omega) (by dsimp only; omega) (by omega)
    have sum : (0 : Int) + 1 + second + ((rounds - second : Nat) : Int) = rounds + 1 := by omega
    have sum' : (first : Int) + 1 + second + ((rounds - second : Nat) : Int) =
      first + 1 + rounds := by omega
    simpa only [State.move, sum, sum'] using run
  have rightStores : (threadIncr (rounds + 1)).Step
      ⟨first + 1 + rounds, .testing (rounds + 1), .adding rounds (first + 1 + second), .joining1⟩
      ⟨first + 1 + second + 1, .testing (rounds + 1), .testing (rounds + 1), .joining1⟩ :=
    @step_store _ ⟨first + 1 + rounds, .testing (rounds + 1), .adding rounds (first + 1 + second),
      .joining1⟩ .right _ _ runs rfl (by omega) (by omega) (by omega) (by omega)
  obtain ⟨start, initial, created⟩ := @created_reachable (rounds + 1)
  have total : (first : Int) + 1 + second + 1 = first + second + 2 := by omega
  rw [← total]
  exact ⟨start, initial, ((((((created.trans begins).tail leftLoads).trans rightGoesOn).tail
    leftStores).trans leftGoesOn).tail rightLoads).trans leftEnds |>.tail rightStores⟩

/-- With one round each, both threads can read 0. -/
theorem bothReadZero : (threadIncr 1).Reachable ⟨1, .testing 1, .testing 1, .joining1⟩ := by
  have loads : (threadIncr 1).Step ⟨0, .testing 0, .testing 0, .joining1⟩
      ⟨0, .adding 0 0, .testing 0, .joining1⟩ := ⟨.thread .left, trivial, rfl⟩
  have loads' : (threadIncr 1).Step ⟨0, .adding 0 0, .testing 0, .joining1⟩
      ⟨0, .adding 0 0, .adding 0 0, .joining1⟩ := ⟨.thread .right, trivial, rfl⟩
  have stores : (threadIncr 1).Step ⟨0, .adding 0 0, .adding 0 0, .joining1⟩
      ⟨1, .testing 1, .adding 0 0, .joining1⟩ := ⟨.thread .left, trivial, rfl⟩
  have stores' : (threadIncr 1).Step ⟨1, .testing 1, .adding 0 0, .joining1⟩
      ⟨1, .testing 1, .testing 1, .joining1⟩ := ⟨.thread .right, trivial, rfl⟩
  exact (((created_reachable.tail loads).tail loads').tail stores).tail stores'

end Schedules

/-- The values that `main` can print: with two rounds or more anything from 2 up to all
increments, whatever the number of rounds. -/
theorem printed_iff (loops : Int) (fits : 2 * loops ≤ INT_MAX) (printed : Int) :
    (∃ state, (threadIncr loops).Reachable state ∧ state.main = .exited (some printed)) ↔
      min 2 (max loops 0) ≤ printed ∧ printed ≤ 2 * max loops 0 := by
  constructor
  · rintro ⟨state, reachable, place⟩
    obtain ⟨counts, joined, -⟩ := (threadIncr_inductive fits).holds reachable
    rw [State.Joined, place] at joined
    obtain ⟨ended, ended', rfl⟩ := joined
    constructor
    · obtain ⟨writer, most⟩ := counts.lastWriter
      have all : (state.thread writer).writes loops = max loops 0 := by
        cases writer with
        | left => rw [State.thread, ended, Thread.writes]
        | right => rw [State.thread, ended', Thread.writes]
      rwa [all] at most
    · have atMost := counts.atMost
      rw [State.total, ended, ended', Thread.writes] at atMost
      omega
  · rintro ⟨low, high⟩
    rcases Int.lt_or_le 0 loops with positive | none
    · obtain ⟨rounds, rfl⟩ : ∃ rounds : Nat, loops = rounds + 1 := ⟨(loops - 1).toNat, by omega⟩
      by_cases single : rounds = 0 ∧ printed = 1
      · obtain ⟨rfl, rfl⟩ := single
        exact printed_of_through (Int.le_refl _) bothReadZero
      · -- the rounds before the two reads add up to what is printed, but for the last two
        have reached := overlapped rounds (min rounds (printed - 2).toNat)
          ((printed - 2).toNat - rounds) (by omega) (by omega) (by omega)
        have sum : ((min rounds (printed - 2).toNat : Nat) : Int) +
            (((printed - 2).toNat - rounds : Nat) : Int) + 2 = printed := by omega
        rw [sum] at reached
        exact printed_of_through (Int.le_refl _) reached
    · have zero : printed = 0 := by omega
      subst zero
      exact printed_of_through none created_reachable

/-- The default of ten million rounds can end with 2. -/
theorem printed_iff_default : ∃ state, (threadIncr 10000000).Reachable state ∧
    state.main = .exited (some 2) :=
  (printed_iff 10000000 (by decide) 2).mpr ⟨by decide, by decide⟩

end LinuxProgramming.Threads.Increment
