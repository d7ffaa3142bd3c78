import LinuxProgramming.Library.RelayStages
import LinuxProgramming.Terminals.Telnet

/-!
Contract: when a session of `my_telnet_client.c` with `my_telnet_server.c` can hang with
each program in a `write` to the other one.

Owns:
- that such a session hangs for good;
- a run to it for every two buffers of the connection, however large they are.

Does not own: the two loops, or the other ways in which a session ends.
-/

namespace LinuxProgramming.Terminals.Telnet

open LinuxProgramming.Library LinuxProgramming.Library.Relays

variable {capacities : Capacities}

/-! ### It is for good -/

section Stuck

variable {state after : State Program Stream UInt8}

/-- While each program is in a `write` without room, nothing moves between them. -/
theorem Deadlocked.step (deadlocked : Deadlocked capacities state)
    {action : Action Program Stream UInt8} (clean : Clean (network capacities) action state)
    (stepped : Relays.step (network capacities) action state = some after) :
    after.turn = state.turn ∧ ∀ program,
      after.queue (((network capacities).relay program).sink .first) =
        state.queue (((network capacities).relay program).sink .first) := by
  cases action with
  | call program count =>
      obtain ⟨⟨also, buf, isWriting⟩, full⟩ := deadlocked program
      rw [Relays.step, Relays.call, isWriting] at stepped
      obtain ⟨⟨positive, _, room⟩, _⟩ := Option.ite_none_right_eq_some.mp stepped
      exact absurd (fun capacity bounded => (Nat.add_le_add_left positive _).trans
        (room capacity bounded)) full
  | fail program => cases clean
  | kill program =>
      obtain ⟨_, _, _, reader, _, _, left⟩ := clean
      obtain ⟨⟨also, buf, isWriting⟩, _⟩ := deadlocked reader
      rw [isWriting] at left
      cases left
  | arrive stream symbols =>
      obtain ⟨⟨outside, _⟩, rfl⟩ :=
        Option.ite_none_right_eq_some.mp stepped |>.imp_right Option.some.inj
      refine ⟨rfl, fun program => ?_⟩
      rw [State.put_queue, if_neg]
      intro same
      rw [← same, (network capacities).writer_sink] at outside
      cases outside
  | finish stream =>
      obtain ⟨_, rfl⟩ := Option.ite_none_right_eq_some.mp stepped |>.imp_right Option.some.inj
      exact ⟨rfl, fun _ => rfl⟩
  | accept stream count =>
      obtain ⟨⟨outside, _⟩, rfl⟩ :=
        Option.ite_none_right_eq_some.mp stepped |>.imp_right Option.some.inj
      refine ⟨rfl, fun program => ?_⟩
      rw [State.take_queue, if_neg]
      intro same
      rw [← same, reader_sink_first] at outside
      cases outside
  | reset stream kept => cases clean

theorem Deadlocked.follows (deadlocked : Deadlocked capacities state)
    {later : State Program Stream UInt8}
    (run : Relation.ReflTransGen (cleanSystem (network capacities)).Step state later) :
    Deadlocked capacities later ∧ later.turn = state.turn := by
  induction run with
  | refl => exact ⟨deadlocked, rfl⟩
  | tail _ stepped inductionHypothesis =>
      obtain ⟨there, same⟩ := inductionHypothesis
      obtain ⟨action, clean, stepped⟩ := stepped
      obtain ⟨turns, queues⟩ := there.step clean stepped
      refine ⟨fun program => ?_, turns.trans same⟩
      have here := there program
      rw [turns, Room, queues]
      exact here

/-- Only a connection with two bounded buffers hangs. -/
theorem Deadlocked.bounded (deadlocked : Deadlocked capacities state) :
    capacities.up ≠ none ∧ capacities.down ≠ none := by
  constructor
  · intro unbounded
    refine (deadlocked .client).2 fun capacity bounded => ?_
    cases unbounded.symm.trans bounded
  · intro unbounded
    refine (deadlocked .server).2 fun capacity bounded => ?_
    cases unbounded.symm.trans bounded

end Stuck

/-! ### A run to it -/

def stagesOf (client server : Stage) : Program → Stage
  | .client => client
  | .server => server

/-- Nothing but the connection has bytes. -/
def loadOf (up down : Nat) : Stream → Nat
  | .up => up
  | .down => down
  | _ => 0

/-- Some clean run leads here. -/
def Standing (capacities : Capacities) (up down : Nat) (client server : Stage) : Prop :=
  CanReach UInt8 (network capacities) (stagesOf client server) (loadOf up down)

section Updates

variable (client server stage : Stage) (up down count : Nat)

@[simp] theorem update_client :
    Function.update (stagesOf client server) .client stage = stagesOf stage server := by
  funext program
  cases program <;> rfl

@[simp] theorem update_server :
    Function.update (stagesOf client server) .server stage = stagesOf client stage := by
  funext program
  cases program <;> rfl

@[simp] theorem update_up :
    Function.update (loadOf up down) .up count = loadOf count down := by
  funext stream
  cases stream <;> rfl

@[simp] theorem update_down :
    Function.update (loadOf up down) .down count = loadOf up count := by
  funext stream
  cases stream <;> rfl

end Updates

namespace Standing

variable {up down count left : Nat} {stage : Stage} {also : Bool}

theorem started (capacities : Capacities) : Standing capacities 0 0 .selecting .selecting := by
  have stages : stagesOf .selecting .selecting = fun _ => .selecting := by
    funext program
    cases program <;> rfl
  have load : loadOf 0 0 = fun _ => 0 := by
    funext stream
    cases stream <;> rfl
  rw [Standing, stages, load]
  exact CanReach.started UInt8 (network capacities)

/-- Two bytes are typed, which the client is about to send. -/
theorem client_fetch (standing : Standing capacities up down .selecting stage) :
    Standing capacities up down (.writing .first (decide (0 < down)) 2) stage := by
  have fetched := CanReach.fetch Program.client 2 standing rfl rfl rfl rfl Nat.two_pos
    (Nat.le_add_left 2 10238)
  rw [update_client] at fetched
  exact fetched

/-- The session writes one byte, which the server is about to send. -/
theorem server_fetch (standing : Standing capacities up down stage .selecting) :
    Standing capacities up down stage (.writing .first (decide (0 < up)) 1) := by
  have fetched := CanReach.fetch Program.server 1 standing rfl rfl rfl rfl Nat.one_pos
    (Nat.le_add_left 1 1023)
  rw [update_server] at fetched
  exact fetched

theorem client_write (standing : Standing capacities up down (.writing .first also left) stage)
    (positive : 0 < count) (fits : count ≤ left)
    (room : ∀ capacity, capacities.up = some capacity → up + count ≤ capacity) :
    Standing capacities (up + count) down
      (if count = left then .next also else .writing .first also (left - count)) stage := by
  have written := CanReach.write Program.client count standing rfl positive fits room
  change CanReach _ _ _ (Function.update (loadOf up down) .up (up + count)) at written
  rwa [update_client, update_up] at written

theorem server_write (standing : Standing capacities up down stage (.writing .first also 1))
    (room : ∀ capacity, capacities.down = some capacity → down + 1 ≤ capacity) :
    Standing capacities up (down + 1) stage (.next also) := by
  have written := CanReach.write Program.server 1 standing rfl Nat.one_pos (Nat.le_refl 1) room
  change CanReach _ _ _ (Function.update (loadOf up down) .down (down + 1)) at written
  rwa [update_server, update_down, if_pos rfl] at written

/-- One byte comes on the screen. -/
theorem client_deliver (standing : Standing capacities up (down + 1) (.reading .second false) stage)
    (room : ∀ capacity, capacities.screen = some capacity → 0 < capacity) :
    Standing capacities up down .selecting stage := by
  have delivered := CanReach.deliver Program.client standing rfl (Nat.succ_pos down) rfl rfl room
  change CanReach _ _ _ (Function.update (loadOf up (down + 1)) .down down) at delivered
  rwa [update_client, update_down] at delivered

/-- One byte comes into the session. -/
theorem server_deliver (standing : Standing capacities (up + 1) down stage (.reading .second false))
    (room : ∀ capacity, capacities.input = some capacity → 0 < capacity) :
    Standing capacities up down stage .selecting := by
  have delivered := CanReach.deliver Program.server standing rfl (Nat.succ_pos up) rfl rfl room
  change CanReach _ _ _ (Function.update (loadOf (up + 1) down) .up up) at delivered
  rwa [update_server, update_up] at delivered

end Standing

section Filling

variable {up down : Nat} (upBound : capacities.up = some up)
  (downBound : capacities.down = some down)
  (positive : ∀ stream capacity, capacities.of stream = some capacity → 0 < capacity)

include downBound in
/-- While the client is not scheduled, the server fills its buffer. -/
theorem fill_down (count : Nat) (fits : count ≤ down) :
    Standing capacities 0 count .selecting (.writing .first false 1) := by
  induction count with
  | zero => exact (Standing.started capacities).server_fetch
  | succ count inductionHypothesis =>
      have before := inductionHypothesis (Nat.le_of_succ_le fits)
      have written := before.server_write fun capacity bounded => by
        cases downBound.symm.trans bounded
        exact fits
      exact written.server_fetch

include upBound downBound positive in
/-- One round: the client sends two bytes and makes room for one, which the server fills
after it has taken at most one. -/
theorem round {sent : Nat} {also : Bool}
    (standing : Standing capacities sent down .selecting (.writing .first also 1))
    (fits : sent + 2 ≤ up) :
    ∃ sent' also', sent + 1 ≤ sent' ∧ sent' ≤ up ∧
      Standing capacities sent' down .selecting (.writing .first also' 1) := by
  obtain ⟨rest, rfl⟩ := Nat.exists_eq_add_of_lt (positive .down down downBound)
  rw [Nat.zero_add] at standing downBound ⊢
  have more := standing.client_fetch
  rw [decide_eq_true (Nat.succ_pos rest)] at more
  have sent_ := more.client_write Nat.two_pos (Nat.le_refl 2) fun capacity bounded => by
    cases upBound.symm.trans bounded
    exact fits
  have shown := Standing.client_deliver sent_ (positive .screen)
  have filled := shown.server_write fun capacity bounded => by
    cases downBound.symm.trans bounded
    exact Nat.le_refl _
  cases also with
  | false => exact ⟨sent + 2, _, Nat.le_succ _, fits, filled.server_fetch⟩
  | true =>
      have taken := Standing.server_deliver filled (positive .input)
      exact ⟨sent + 1, _, Nat.le_refl _, Nat.le_of_succ_le fits, taken.server_fetch⟩

include upBound downBound positive in
/-- Round by round the client's buffer fills but for one byte at most. -/
theorem fill_up (count : Nat) (fits : count + 1 ≤ up) :
    ∃ sent also, count ≤ sent ∧ sent ≤ up ∧
      Standing capacities sent down .selecting (.writing .first also 1) := by
  induction count with
  | zero =>
      have standing := fill_down downBound down (Nat.le_refl down)
      exact ⟨0, false, Nat.le_refl 0, Nat.zero_le up, standing⟩
  | succ count inductionHypothesis =>
      obtain ⟨sent, also, enough, bounded, standing⟩ := inductionHypothesis (Nat.le_of_succ_le fits)
      rcases Nat.eq_or_lt_of_le enough with same | more
      · subst same
        exact round upBound downBound positive standing fits
      · exact ⟨sent, also, more, bounded, standing⟩

include upBound downBound positive in
/-- The client is left with at least one of two bytes, the server with one. -/
theorem both_writing : ∃ also also' left, Standing capacities up down
    (.writing .first also left) (.writing .first also' 1) := by
  obtain ⟨rest, isUp⟩ := Nat.exists_eq_add_of_lt (positive .up up upBound)
  rw [Nat.zero_add] at isUp
  obtain ⟨sent, also, enough, bounded, standing⟩ := fill_up upBound downBound positive rest isUp.ge
  have more := standing.client_fetch
  rcases Nat.eq_or_lt_of_le bounded with full | less
  · rw [full] at more
    exact ⟨_, also, 2, more⟩
  · have sent_ := more.client_write Nat.one_pos (Nat.le_succ 1) fun capacity bounded => by
      cases upBound.symm.trans bounded
      exact less
    rw [if_neg (Nat.succ_ne_self 1).symm, show sent + 1 = up by omega] at sent_
    exact ⟨_, also, 2 - 1, sent_⟩

end Filling

theorem Standing.deadlocked {up down left left' : Nat} {also also' : Bool}
    (upBound : capacities.up = some up) (downBound : capacities.down = some down)
    (standing : Standing capacities up down (.writing .first also left)
      (.writing .first also' left')) :
    ∃ state : State Program Stream UInt8,
      (cleanSystem (network capacities)).Reachable state ∧ Deadlocked capacities state := by
  obtain ⟨state, reachable, staged, loaded, _⟩ := standing
  refine ⟨state, reachable, fun program => ⟨?_, fun room => ?_⟩⟩
  · have stage := staged program
    cases program <;> cases turn : state.turn _ <;> rw [turn] at stage <;> cases stage <;>
      exact ⟨_, _, rfl⟩
  · cases program with
    | client =>
        have fits := room up upBound
        rw [loaded] at fits
        exact absurd fits (Nat.not_succ_le_self up)
    | server =>
        have fits := room down downBound
        rw [loaded] at fits
        exact absurd fits (Nat.not_succ_le_self down)

/-- Although no call fails and the screen and the session take all they get, a session can
reach a state in which each program is in a `write` to the other one: exactly if both
buffers of the connection are bounded, however large they are. From there on, whatever is
typed or written, neither program moves again. -/
theorem deadlock_reachable_iff (capacities : Capacities)
    (positive : ∀ stream capacity, capacities.of stream = some capacity → 0 < capacity) :
    ((∃ state : State Program Stream UInt8, (cleanSystem (network capacities)).Reachable state ∧
        Deadlocked capacities state) ↔
      capacities.up ≠ none ∧ capacities.down ≠ none) ∧
    ∀ state later : State Program Stream UInt8, Deadlocked capacities state →
      Relation.ReflTransGen (cleanSystem (network capacities)).Step state later →
        Deadlocked capacities later ∧ later.turn = state.turn := by
  refine ⟨?_, fun _ _ deadlocked run => deadlocked.follows run⟩
  constructor
  · rintro ⟨state, _, deadlocked⟩
    exact deadlocked.bounded
  · rintro ⟨up, down⟩
    obtain ⟨upSize, upBound⟩ := Option.ne_none_iff_exists'.mp up
    obtain ⟨downSize, downBound⟩ := Option.ne_none_iff_exists'.mp down
    obtain ⟨also, also', left, standing⟩ := both_writing upBound downBound positive
    exact standing.deadlocked upBound downBound

/-- One byte of room everywhere. -/
theorem deadlock_reachable_bytes :
    let capacities : Capacities := ⟨some 1, some 1, some 1, some 1⟩
    (∀ stream capacity, capacities.of stream = some capacity → 0 < capacity) ∧
      (((∃ state : State Program Stream UInt8, (cleanSystem (network capacities)).Reachable state ∧
          Deadlocked capacities state) ↔
        capacities.up ≠ none ∧ capacities.down ≠ none) ∧
      ∀ state later : State Program Stream UInt8, Deadlocked capacities state →
        Relation.ReflTransGen (cleanSystem (network capacities)).Step state later →
          Deadlocked capacities later ∧ later.turn = state.turn) := by
  have positive : ∀ stream capacity,
      (⟨some 1, some 1, some 1, some 1⟩ : Capacities).of stream = some capacity → 0 < capacity := by
    intro stream capacity bounded
    cases stream <;> cases bounded <;> exact Nat.one_pos
  exact ⟨positive, deadlock_reachable_iff _ positive⟩

end LinuxProgramming.Terminals.Telnet
