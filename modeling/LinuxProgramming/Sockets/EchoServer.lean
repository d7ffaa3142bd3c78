import Mathlib.Algebra.Group.Nat.Defs
import Mathlib.Tactic.SplitIfs
import LinuxProgramming.Library.TransitionSystem

/-!
Contract: the accept loop of `is_echo_sv` and its handler for `SIGCHLD`.

Owns:
- the loop, with the increment of `connect_num` as a load and a store, and the handler that
  interrupts it;
- children that exit at any time, and the signal that tells of one or more of them;
- how `connect_num` and the number of children differ, in every interleaving.

Does not own: what a child does with its connection. `accept` and `sigaction` succeed.
-/

namespace LinuxProgramming.Sockets.EchoServer

open LinuxProgramming.Library

def MAX_CONNECT_NUM : Nat := 2

/-- The values of `unsigned` are those below. -/
def UINT_RANGE : Nat := 2 ^ 32

theorem UINT_RANGE_pos : 0 < UINT_RANGE := by decide

/-! ### The server -/

/-- Where `main` is in its loop. -/
inductive MainPc where
  | accept
  /-- `if (connect_num >= MAX_CONNECT_NUM)`. -/
  | test
  | fork
  /-- `sigaddset(&sa.sa_mask, SIGCHLD)`. -/
  | addSet
  /-- The first `sigaction` of the loop. -/
  | install
  /-- `connect_num++`: the load, and the store after it. -/
  | load
  | store (value : Nat)
  /-- `sigemptyset(&sa.sa_mask)`. -/
  | emptySet
  /-- The second `sigaction`. -/
  | reinstall
  /-- `close(cfd)`. -/
  | close
deriving DecidableEq, Repr

/-- Where `grimReaper` is in its loop. -/
inductive HandlerPc where
  | waitpid
  /-- `connect_num--`. -/
  | decrement
deriving DecidableEq, Repr

/-- The server and its children. `sa_mask`, `installed` and `blocked` tell whether `SIGCHLD`
is in `sa.sa_mask`, in the mask of the installed action, and blocked; `lost` counts the
children reaped between the load and the store of an increment. -/
structure State where
  connect_num : Nat
  main : MainPc
  handler : Option HandlerPc
  sa_mask : Bool
  installed : Bool
  blocked : Bool
  pending : Bool
  live : Nat
  zombies : Nat
  lost : Nat
deriving DecidableEq, Repr

/-- Who moves, and whether a `fork` succeeds. -/
inductive Event where
  | main (forks : Bool)
  | handler
  | deliver
  | childExit
deriving DecidableEq, Repr

/-- Whether `sa.sa_flags` has `SA_NODEFER`: it is `SA_RESTART` only. -/
def SA_NODEFER : Bool := false

/-- `main` goes on where no handler runs. -/
def mainStep (forks : Bool) (state : State) : State :=
  match state.main with
  | .accept => { state with main := .test }
  | .test =>
      if state.connect_num ≥ MAX_CONNECT_NUM then { state with main := .close }
      else { state with main := .fork }
  | .fork =>
      if forks then { state with main := .addSet, live := state.live + 1 }
      else { state with main := .close }
  | .addSet => { state with main := .install, sa_mask := true }
  | .install => { state with main := .load, installed := state.sa_mask }
  | .load => { state with main := .store state.connect_num }
  | .store value => { state with main := .emptySet, connect_num := (value + 1) % UINT_RANGE }
  | .emptySet => { state with main := .reinstall, sa_mask := false }
  | .reinstall => { state with main := .close, installed := state.sa_mask }
  | .close => { state with main := .accept }

def MainPc.holdsCopy : MainPc → Bool
  | .store _ => true
  | _ => false

/-- `grimReaper`: it ends when no exited child is left, which also ends the blocking. -/
def handlerStep (state : State) : HandlerPc → State
  | .waitpid =>
      if 0 < state.zombies then
        { state with
          handler := some .decrement
          zombies := state.zombies - 1
          lost := state.lost + state.main.holdsCopy.toNat }
      else { state with handler := none, blocked := false }
  | .decrement =>
      { state with
        handler := some .waitpid
        connect_num := (state.connect_num + (UINT_RANGE - 1)) % UINT_RANGE }

def step : Event → State → Option State
  | .main forks, state => if state.handler = none then some (mainStep forks state) else none
  | .handler, state => state.handler.map (handlerStep state)
  | .deliver, state =>
      if state.pending ∧ ¬ state.blocked then
        some { state with
          handler := some .waitpid
          blocked := state.installed || !SA_NODEFER
          pending := false }
      else none
  | .childExit, state =>
      if 0 < state.live then
        some { state with live := state.live - 1, zombies := state.zombies + 1, pending := true }
      else none

/-- Before the first `accept`. -/
def initial : State where
  connect_num := 0
  main := .accept
  handler := none
  sa_mask := false
  installed := false
  blocked := false
  pending := false
  live := 0
  zombies := 0
  lost := 0

/-- All interleavings of the loop, the handler and the children. -/
def server : TransitionSystem State :=
  labelled (· = initial) step

/-! ### What the counter is for -/

/-- Where the next thing to happen in the server is `accept`. -/
def State.AboutToAccept (state : State) : Prop :=
  state.main = .accept ∧ state.handler = none

/-- No more children than allowed; and with all exited children reaped, the server is about
to accept with their number, so that it refuses connections only at the limit. -/
structure Accurate (state : State) : Prop where
  counted : state.AboutToAccept → state.zombies = 0 → state.connect_num = state.live
  bound : state.live ≤ MAX_CONNECT_NUM

/-- The handler reaps no child between the load and the store of an increment. -/
def Undisturbed (event : Event) (state : State) : Prop :=
  event = .handler → state.handler = some .waitpid → 0 < state.zombies →
    state.main.holdsCopy = false

instance (event : Event) (state : State) : Decidable (Undisturbed event state) :=
  inferInstanceAs (Decidable (_ → _))

/-- The runs in which every step meets this condition. -/
def undisturbed : TransitionSystem State :=
  labelledWhen (· = initial) step Undisturbed

/-! ### The children that are counted -/

/-- After the `fork`, a child that is not counted yet. -/
def MainPc.uncounted : MainPc → Nat
  | .addSet | .install | .load => 1
  | _ => 0

/-- In the handler, a child that is reaped and still counted. -/
def reaped : Option HandlerPc → Nat
  | some .decrement => 1
  | _ => 0

/-- How the counter stands to the children: a copy that waits to be stored knows nothing of
the children reaped since. -/
structure Counted (state : State) : Prop where
  small : state.connect_num < UINT_RANGE
  blocked : state.blocked = state.handler.isSome
  copy : ∀ value, state.main = .store value →
    (value + 1) % UINT_RANGE = (state.live + state.zombies + state.lost) % UINT_RANGE
  count : state.main.holdsCopy = false →
    (state.connect_num + state.main.uncounted) % UINT_RANGE =
      (state.live + state.zombies + reaped state.handler + state.lost) % UINT_RANGE

theorem initial_counted : Counted initial where
  small := by decide
  blocked := rfl
  copy := nofun
  count _ := rfl

section Steps

variable {before after : State}

theorem Counted.mainStep (counted : Counted before) (idle : before.handler = none)
    (forks : Bool) : Counted (mainStep forks before) := by
  obtain ⟨small, blocked, copy, count⟩ := counted
  rw [EchoServer.mainStep]
  cases isPc : before.main with
  | accept | addSet | install | emptySet | reinstall | close =>
      rw [isPc] at count
      exact ⟨small, blocked, nofun, count⟩
  | test =>
      rw [isPc] at count
      dsimp only
      split <;> exact ⟨small, blocked, nofun, count⟩
  | fork =>
      have counts := count (isPc ▸ rfl)
      simp only [isPc, MainPc.uncounted, idle, reaped] at counts
      cases forks with
      | false =>
          refine ⟨small, blocked, nofun, fun _ => ?_⟩
          simp only [MainPc.uncounted, idle, reaped]
          exact counts
      | true =>
          refine ⟨small, blocked, nofun, fun _ => ?_⟩
          simp only [UINT_RANGE, MainPc.uncounted, idle, reaped, if_true] at counts ⊢
          omega
  | load =>
      have counts := count (isPc ▸ rfl)
      simp only [isPc, MainPc.uncounted, idle, reaped] at counts
      refine ⟨small, blocked, ?_, nofun⟩
      rintro value ⟨⟩
      exact counts
  | store value =>
      have stored := copy value isPc
      refine ⟨Nat.mod_lt _ UINT_RANGE_pos, blocked, nofun, fun _ => ?_⟩
      simp only [MainPc.uncounted, idle, reaped, Nat.add_zero, Nat.mod_mod]
      exact stored

theorem Counted.handlerStep (counted : Counted before) {pc : HandlerPc}
    (runs : before.handler = some pc) : Counted (handlerStep before pc) := by
  obtain ⟨small, blocked, copy, count⟩ := counted
  cases pc with
  | waitpid =>
      rw [EchoServer.handlerStep]
      split
      case isTrue exited =>
        refine ⟨small, blocked.trans (by rw [runs]; rfl), ?_, ?_⟩
        · -- the copy does not notice that a child is reaped
          intro value (isPc : before.main = .store value)
          have stored := copy value isPc
          have same : before.live + (before.zombies - 1) +
              (before.lost + before.main.holdsCopy.toNat) =
                before.live + before.zombies + before.lost := by
            rw [isPc, MainPc.holdsCopy, Bool.toNat_true]
            omega
          exact stored.trans (by rw [same])
        · intro noCopy
          have counts := count noCopy
          simp only [noCopy, runs, reaped, Bool.toNat_false, UINT_RANGE] at counts ⊢
          omega
      case isFalse none =>
        refine ⟨small, rfl, copy, ?_⟩
        intro noCopy
        have counts := count noCopy
        rw [runs] at counts
        exact counts
  | decrement =>
      rw [runs] at blocked count
      rw [EchoServer.handlerStep]
      refine ⟨Nat.mod_lt _ UINT_RANGE_pos, blocked, copy, ?_⟩
      intro noCopy
      have counts := count noCopy
      simp only [reaped, UINT_RANGE] at counts ⊢
      omega

theorem Counted.step (counted : Counted before) {event : Event}
    (stepped : step event before = some after) : Counted after := by
  cases event with
  | main forks =>
      rw [EchoServer.step, Option.ite_none_right_eq_some] at stepped
      obtain ⟨idle, stepped⟩ := stepped
      cases stepped
      exact counted.mainStep idle forks
  | handler =>
      obtain ⟨pc, runs, rfl⟩ := Option.map_eq_some_iff.mp stepped
      exact counted.handlerStep runs
  | deliver =>
      rw [EchoServer.step, Option.ite_none_right_eq_some] at stepped
      obtain ⟨⟨-, free⟩, stepped⟩ := stepped
      cases stepped
      obtain ⟨small, blocked, copy, count⟩ := counted
      have idle : before.handler = none := by
        rw [blocked] at free
        simpa using free
      refine ⟨small, Bool.or_true _, copy, ?_⟩
      rw [idle] at count
      exact count
  | childExit =>
      rw [EchoServer.step, Option.ite_none_right_eq_some] at stepped
      obtain ⟨alive, stepped⟩ := stepped
      cases stepped
      obtain ⟨small, blocked, copy, count⟩ := counted
      have same : before.live - 1 + (before.zombies + 1) = before.live + before.zombies := by omega
      refine ⟨small, blocked, ?_, ?_⟩
      · intro value isPc
        exact (copy value isPc).trans (by rw [same])
      · intro noCopy
        exact (count noCopy).trans (by rw [same])

end Steps

theorem counted_inductive : server.Inductive Counted where
  init state isInitial := isInitial ▸ initial_counted
  step before after counted stepped := by
    obtain ⟨event, -, stepped⟩ := stepped
    exact counted.step stepped

/-! ### Undisturbed increments -/

/-- The children there are, with one that is reaped and still counted. -/
def State.children (state : State) : Nat :=
  state.live + state.zombies + reaped state.handler

/-- Nothing is lost, and the limit holds, with room for one more before a `fork`. -/
structure Limited (state : State) : Prop where
  counted : Counted state
  lost : state.lost = 0
  limit : state.children ≤ MAX_CONNECT_NUM
  room : state.main = .fork → state.children < MAX_CONNECT_NUM

theorem initial_limited : Limited initial where
  counted := initial_counted
  lost := rfl
  limit := by decide
  room := nofun

section Steps

variable {before after : State}

theorem Limited.mainStep (limited : Limited before) (idle : before.handler = none)
    (forks : Bool) : Limited (mainStep forks before) := by
  have counted := limited.counted.mainStep idle forks
  obtain ⟨⟨small, -, -, count⟩, lost, limit, room⟩ := limited
  rw [EchoServer.mainStep] at counted ⊢
  cases isPc : before.main with
  | test =>
      have counts := count (isPc ▸ rfl)
      simp only [isPc, MainPc.uncounted, idle, reaped, lost, Nat.add_zero] at counts
      simp only [State.children, idle, reaped] at limit
      rw [isPc] at counted
      dsimp only at counted ⊢
      split
      case isTrue full =>
        rw [if_pos full] at counted
        exact ⟨counted, lost, by simpa only [State.children, idle, reaped] using limit, nofun⟩
      case isFalse free =>
        rw [if_neg free] at counted
        refine ⟨counted, lost, by simpa only [State.children, idle, reaped] using limit, ?_⟩
        intro _
        simp only [State.children, idle, reaped, MAX_CONNECT_NUM, UINT_RANGE]
          at counts free limit small ⊢
        omega
  | fork =>
      have free := room isPc
      rw [isPc] at counted
      cases forks with
      | false => exact ⟨counted, lost, limit, nofun⟩
      | true =>
          refine ⟨counted, lost, ?_, nofun⟩
          simp only [State.children, if_true] at free ⊢
          omega
  | _ =>
      rw [isPc] at counted
      exact ⟨counted, lost, limit, nofun⟩

theorem Limited.step (limited : Limited before) {event : Event}
    (undisturbed : Undisturbed event before) (stepped : step event before = some after) :
    Limited after := by
  have counted := limited.counted.step stepped
  cases event with
  | main forks =>
      rw [EchoServer.step, Option.ite_none_right_eq_some] at stepped
      obtain ⟨idle, stepped⟩ := stepped
      cases stepped
      exact limited.mainStep idle forks
  | handler =>
      obtain ⟨pc, runs, rfl⟩ := Option.map_eq_some_iff.mp stepped
      obtain ⟨-, lost, limit, room⟩ := limited
      simp only [State.children, runs] at limit room
      cases pc with
      | waitpid =>
          rw [handlerStep] at counted ⊢
          split
          case isTrue exited =>
            rw [if_pos exited] at counted
            have noCopy := undisturbed rfl runs exited
            refine ⟨counted, ?_, ?_, ?_⟩
            · rw [noCopy]
              exact lost
            · simp only [State.children, reaped] at limit ⊢
              omega
            · intro isPc
              have free := room isPc
              simp only [State.children, reaped] at free ⊢
              omega
          case isFalse none =>
            rw [if_neg none] at counted
            exact ⟨counted, lost, limit, room⟩
      | decrement =>
          rw [handlerStep] at counted ⊢
          refine ⟨counted, lost, ?_, ?_⟩
          · simp only [State.children, reaped] at limit ⊢
            omega
          · intro isPc
            have free := room isPc
            simp only [State.children, reaped] at free ⊢
            omega
  | deliver =>
      rw [EchoServer.step, Option.ite_none_right_eq_some] at stepped
      obtain ⟨⟨-, free⟩, stepped⟩ := stepped
      cases stepped
      have idle : before.handler = none := by
        rw [limited.counted.blocked] at free
        simpa using free
      obtain ⟨-, lost, limit, room⟩ := limited
      simp only [State.children, idle] at limit room
      exact ⟨counted, lost, limit, room⟩
  | childExit =>
      rw [EchoServer.step, Option.ite_none_right_eq_some] at stepped
      obtain ⟨alive, stepped⟩ := stepped
      cases stepped
      obtain ⟨-, lost, limit, room⟩ := limited
      have same : before.live - 1 + (before.zombies + 1) = before.live + before.zombies := by omega
      refine ⟨counted, lost, ?_, ?_⟩
      · rw [State.children, same]
        exact limit
      · intro isPc
        rw [State.children, same]
        exact room isPc

end Steps

theorem limited_inductive : undisturbed.Inductive Limited where
  init state isInitial := isInitial ▸ initial_limited
  step before after limited stepped := by
    obtain ⟨event, allowed, stepped⟩ := stepped
    exact limited.step allowed stepped

theorem Counted.aboutToAccept {state : State} (counted : Counted state)
    (accepts : state.AboutToAccept) (noZombies : state.zombies = 0) :
    state.connect_num = (state.live + state.lost) % UINT_RANGE := by
  obtain ⟨atAccept, idle⟩ := accepts
  have counts := counted.count (atAccept ▸ rfl)
  simp only [atAccept, MainPc.uncounted, idle, reaped, noZombies, Nat.add_zero,
    Nat.mod_eq_of_lt counted.small] at counts
  exact counts

/-- If no child is reaped between the load and the store of an increment, the counter is
accurate; in general it exceeds the number of children by the children reaped there. -/
theorem echoServer_counts (state : State) :
    (undisturbed.Reachable state → Accurate state) ∧
      (server.Reachable state → state.AboutToAccept → state.zombies = 0 →
        state.connect_num = (state.live + state.lost) % UINT_RANGE) := by
  constructor
  · intro reachable
    have limited := limited_inductive.holds reachable
    have limit := limited.limit
    simp only [State.children, MAX_CONNECT_NUM] at limit
    refine ⟨?_, by simp only [MAX_CONNECT_NUM]; omega⟩
    intro accepts noZombies
    rw [limited.counted.aboutToAccept accepts noZombies, limited.lost, UINT_RANGE]
    omega
  · intro reachable
    exact (counted_inductive.holds reachable).aboutToAccept

/-- `main` from one `accept` to the next, for a connection that gets a child. -/
def served : List Event :=
  List.replicate 10 (.main true)

/-- A child exits and is reaped in one run of the handler. -/
def reaping : List Event :=
  [.childExit, .deliver, .handler, .handler, .handler]

/-- The first child is reaped before the second connection is accepted. -/
theorem echoServer_counts_two :
    (∃ state, runLabels (guarded step Undisturbed) (served ++ reaping ++ served) initial =
      some state ∧ state.live = 1 ∧ Accurate state) ∧
    ∃ state, runLabels step (served ++ reaping ++ served) initial = some state ∧
      state.connect_num = (state.live + state.lost) % UINT_RANGE := by
  have calm : runLabels (guarded step Undisturbed) (served ++ reaping ++ served) initial =
    some _ := rfl
  have ran : runLabels step (served ++ reaping ++ served) initial = some _ := rfl
  refine ⟨⟨_, calm, rfl, ?_⟩, ⟨_, ran, ?_⟩⟩
  · have reachable : undisturbed.Reachable _ :=
      runLabels_reachable (fun _ _ _ => guarded_step) (.of_init rfl) calm
    exact (echoServer_counts _).1 reachable
  · have reachable : server.Reachable _ :=
      runLabels_reachable labelled_step (.of_init rfl) ran
    exact (echoServer_counts _).2 reachable ⟨rfl, rfl⟩ rfl

/-- The first child exits when the second connection is about to be counted, between the
load and the store: with one child left the counter is at the limit. -/
theorem echoServer_loses_update :
    ¬ ∀ state, server.Reachable state → Accurate state := by
  intro accurate
  have ran : runLabels step (served ++ List.replicate 6 (.main true) ++ reaping ++
    List.replicate 4 (.main true)) initial = some _ := rfl
  have reachable : server.Reachable _ := runLabels_reachable labelled_step (.of_init rfl) ran
  have counted := (accurate _ reachable).counted ⟨rfl, rfl⟩ rfl
  exact absurd counted (by decide)

end LinuxProgramming.Sockets.EchoServer
