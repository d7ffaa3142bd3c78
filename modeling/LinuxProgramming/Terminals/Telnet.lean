import LinuxProgramming.Library.RelayRuns

/-!
Contract: one session of `my_telnet_client.c` with `my_telnet_server.c`.

Owns:
- the loop of the client, between the terminal and the connection;
- the loop of `handle_request`, between the connection and the pseudoterminal;
- what arrives on the terminal of what the session writes, and in the session of what
  is typed;
- how a session ends, and how it can hang.

Does not own: the loop as such, how the pseudoterminal and the connection are set up, or
what the shell does with its input.
-/

namespace LinuxProgramming.Terminals.Telnet

open LinuxProgramming.Library LinuxProgramming.Library.Relays

/-! ### The two programs -/

inductive Program where
  | client
  | server
deriving DecidableEq, Repr

instance : Fintype Program :=
  ⟨{.client, .server}, fun program => by cases program <;> decide⟩

/-- The keyboard, the connection to the server, the input of the session; the output of
the session, the connection to the client, the screen. -/
inductive Stream where
  | keyboard
  | up
  | input
  | output
  | down
  | screen
deriving DecidableEq, Repr

instance : Fintype Stream :=
  ⟨{.keyboard, .up, .input, .output, .down, .screen}, fun stream => by cases stream <;> decide⟩

/-- The loop of the client: `STDIN_FILENO` before `cfd`. -/
def client : Relay Stream where
  source
    | .first => .keyboard
    | .second => .down
  sink
    | .first => .up
    | .second => .screen
  bufSize := 10240

/-- The loop of `handle_request`: `masterFd` before `cfd`. At the end of the session a read
of `masterFd` fails, which the loop takes as the end as well. -/
def handleRequest : Relay Stream where
  source
    | .first => .output
    | .second => .up
  sink
    | .first => .down
    | .second => .input
  bufSize := 1024

/-- How much is buffered; `none` if a write never blocks. -/
structure Capacities where
  up : Option Nat
  down : Option Nat
  input : Option Nat
  screen : Option Nat

def Capacities.of (capacities : Capacities) : Stream → Option Nat
  | .keyboard => none
  | .up => capacities.up
  | .input => capacities.input
  | .output => none
  | .down => capacities.down
  | .screen => capacities.screen

def relayOf : Program → Relay Stream
  | .client => client
  | .server => handleRequest

def readerOf : Stream → Option Program
  | .keyboard => some .client
  | .up => some .server
  | .input => none
  | .output => some .server
  | .down => some .client
  | .screen => none

def writerOf : Stream → Option Program
  | .keyboard => none
  | .up => some .client
  | .input => some .server
  | .output => none
  | .down => some .server
  | .screen => some .client

def network (capacities : Capacities) : Network Program Stream where
  relay := relayOf
  reader := readerOf
  writer := writerOf
  capacity := capacities.of
  connection stream := stream = .up ∨ stream = .down
  reader_source program port := by cases program <;> cases port <;> rfl
  writer_sink program port := by cases program <;> cases port <;> rfl
  source_injective program := by
    intro port port' same
    cases program <;> cases port <;> cases port' <;> first | rfl | cases same
  sink_injective program := by
    intro port port' same
    cases program <;> cases port <;> cases port' <;> first | rfl | cases same
  bufSize_pos program := by cases program <;> decide

variable {capacities : Capacities} {state : State Program Stream UInt8}

/-! ### What arrives -/

/-- In every run, whichever calls fail and whoever is killed: the screen shows nothing but
what the session has written, in that order, and the session gets nothing but what has
been typed, in that order. As long as no partial or failed write has been reported on the
way, nothing of it is left out. -/
theorem relays_inOrder (capacities : Capacities) (state : State Program Stream UInt8)
    (reachable : (system (network capacities)).Reachable state) :
    (state.written .screen).Sublist (state.written .output) ∧
    (state.written .input).Sublist (state.written .keyboard) ∧
    (state.short .down = false → state.short .screen = false →
      state.written .screen <+: state.written .output) ∧
    (state.short .up = false → state.short .input = false →
      state.written .input <+: state.written .keyboard) := by
  have sound := (sound_inductive (network capacities)).holds reachable
  exact ⟨(sound.hop .client .second).trans (sound.hop .server .first),
    (sound.hop .server .second).trans (sound.hop .client .first),
    fun down screen => (sound.hop_prefix .client .second screen).trans
      (sound.hop_prefix .server .first down),
    fun up input => (sound.hop_prefix .server .second input).trans
      (sound.hop_prefix .client .first up)⟩

/-- The session writes two bytes, of which the server gets only one through. -/
theorem relays_inOrder_short :
    ∃ state : State Program Stream UInt8,
      (system (network ⟨some 4, some 4, some 4, some 4⟩)).Reachable state ∧
      state.written .screen = [72] ∧ (state.written .screen).Sublist (state.written .output) := by
  have ran : runLabels (step (network ⟨some 4, some 4, some 4, some 4⟩))
      [.arrive .output [72, 105], .call .server 0, .call .server 2, .call .server 1,
        .fail .server, .call .client 0, .call .client 1, .call .client 1]
      (started : State Program Stream UInt8) = some _ := rfl
  have reachable : (system (network ⟨some 4, some 4, some 4, some 4⟩)).Reachable _ :=
    runLabels_reachable labelled_step (.of_init rfl) ran
  exact ⟨_, reachable, rfl, (relays_inOrder _ _ reachable).1⟩

/-! ### How a session ends -/

/-- Who ends because the other one has: nobody ends first because of the other. -/
structure Caused (state : State Program Stream UInt8) : Prop where
  client : state.turn .client = .exited (some .second) → state.turn .server = .exited (some .first)
  server : state.turn .server = .exited (some .second) → state.turn .client = .exited (some .first)

/-- The two programs are alike: each reads second what the other one writes first. -/
def other : Program → Program
  | .client => .server
  | .server => .client

theorem source_second (program : Program) :
    ((network capacities).relay program).source .second =
      ((network capacities).relay (other program)).sink .first := by
  cases program <;> rfl

variable (capacities) in
theorem reader_sink_first (program : Program) :
    (network capacities).reader (((network capacities).relay program).sink .first) =
      some (other program) := by
  cases program <;> rfl

/-- A program whose connection has ended while it is still there was left by the other one
at the end of the other one's own input. -/
theorem left_first (lossless : Lossless (network capacities) state) (caused : Caused state)
    {program : Program} {also : Bool}
    (reads : state.turn program = .reading .second also)
    (closed : state.ended (((network capacities).relay program).source .second) = true) :
    state.turn (other program) = .exited (some .first) := by
  rw [source_second] at closed
  have left := (lossless.sound.ended _ _ ((network capacities).writer_sink _ _)).symm.trans closed
  have here := lossless.settled (other program)
  rw [Settled] at here
  cases place : state.turn (other program) with
  | selecting => rw [place] at left; cases left
  | reading port also => rw [place] at left; cases left
  | writing port also buf => rw [place] at left; cases left
  | exited atEnd =>
      rw [place] at here
      rcases atEnd with _ | port
      · -- its reader would have gone before it
        obtain ⟨port, reader, isReader, gone⟩ := here
        cases program <;> cases port <;> cases isReader
        · rw [reads] at gone; cases gone
        · rw [reads] at gone; cases gone
      cases port with
      | first => rfl
      | second =>
          have backwards : state.turn program = .exited (some .first) := by
            cases program with
            | client => exact caused.server place
            | server => exact caused.client place
          rw [reads] at backwards
          cases backwards

theorem caused_inductive (capacities : Capacities) : (cleanSystem (network capacities)).Inductive
    fun state => Lossless (network capacities) state ∧ Caused state where
  init := by
    rintro state rfl
    exact ⟨(lossless_inductive (network capacities)).init _ rfl, nofun, nofun⟩
  step := by
    rintro before after ⟨lossless, caused⟩ ⟨action, clean, stepped⟩
    have onward {program : Program} {atEnd : Option Port}
        (left : before.turn program = .exited atEnd) : after.turn program = .exited atEnd :=
      exited_step lossless.sound clean stepped left
    refine ⟨(lossless_inductive (network capacities)).step _ _ lossless ⟨action, clean, stepped⟩,
      fun left => ?_, fun left => ?_⟩
    · rcases exited_cases lossless.sound clean stepped left with before_ | ⟨also, reads, closed⟩
      · exact onward (caused.client before_)
      · exact onward (left_first lossless caused reads closed)
    · rcases exited_cases lossless.sound clean stepped left with before_ | ⟨also, reads, closed⟩
      · exact onward (caused.server before_)
      · exact onward (left_first lossless caused reads closed)

/-- Both programs are in a `write` to the other one, and neither has room. -/
def Deadlocked (capacities : Capacities) (state : State Program Stream UInt8) : Prop :=
  ∀ program, (∃ also buf, state.turn program = .writing .first also buf) ∧
    ¬ Room (network capacities) state (((network capacities).relay program).sink .first) 1

/-- Neither program can go on, and none is about to be killed. -/
def Halted (capacities : Capacities) (state : State Program Stream UInt8) : Prop :=
  ∀ program, Blocked (network capacities) state program ∧
    ¬ Clean (network capacities) (.kill program) state

section Halts

variable (lossless : Lossless (network capacities) state)
  (positive : ∀ stream capacity, capacities.of stream = some capacity → 0 < capacity)
  (outside : ∀ program,
    Room (network capacities) state (((network capacities).relay program).sink .second) 1)
  (halted : Halted capacities state)

include lossless outside halted in
/-- Nobody halts in front of the outside. -/
theorem halted_cases (program : Program) :
    (state.turn program = .selecting ∧
      ∀ port, ¬ state.Readable (((network capacities).relay program).source port)) ∨
    ((∃ also buf, state.turn program = .writing .first also buf) ∧
      ¬ Room (network capacities) state (((network capacities).relay program).sink .first) 1) ∨
    ∃ atEnd, state.turn program = .exited atEnd := by
  rcases (lossless.blocked_iff program).mp (halted program).1 with
    waits | ⟨port, also, buf, isWriting, full⟩ | left
  · exact .inl waits
  · cases port with
    | first => exact .inr (.inl ⟨⟨also, buf, isWriting⟩, full⟩)
    | second => exact absurd (outside program) full
  · exact .inr (.inr left)

include positive in
/-- A full stream has something to read. -/
theorem readable_of_full {stream : Stream}
    (full : ¬ Room (network capacities) state stream 1) : state.Readable stream := by
  refine .inl fun empty => full fun capacity bounded => ?_
  rw [empty]
  exact positive stream capacity bounded

include lossless positive outside halted in
/-- The two programs halt alike. -/
theorem halted_alike (program : Program) :
    (state.turn program = .selecting → state.turn (other program) = .selecting) ∧
    ((∃ also buf, state.turn program = .writing .first also buf) →
      (∃ also buf, state.turn (other program) = .writing .first also buf) ∧
        ¬ Room (network capacities) state
          (((network capacities).relay (other program)).sink .first) 1) := by
  have back : other (other program) = program := by cases program <;> rfl
  constructor
  · intro waits
    have nothing : ¬ state.Readable (((network capacities).relay program).source .second) := by
      rcases halted_cases lossless outside halted program with
        ⟨_, empty⟩ | ⟨⟨also, buf, isWriting⟩, _⟩ | ⟨atEnd, left⟩
      · exact empty .second
      · rw [waits] at isWriting; cases isWriting
      · rw [waits] at left; cases left
    rw [source_second] at nothing
    rcases halted_cases lossless outside halted (other program) with
      ⟨waits', _⟩ | ⟨_, full⟩ | ⟨atEnd, left⟩
    · exact waits'
    · exact absurd (readable_of_full positive full) nothing
    · refine absurd (.inr ?_) nothing
      rw [lossless.sound.ended _ _ ((network capacities).writer_sink _ _), left]
      rfl
  · rintro ⟨also, buf, isWriting⟩
    rcases halted_cases lossless outside halted (other program) with
      ⟨_, empty⟩ | ⟨isWriting', full⟩ | ⟨atEnd, left⟩
    · -- the other one waits for what fills the stream
      have nothing := empty .second
      rw [source_second, back] at nothing
      rcases halted_cases lossless outside halted program with
        ⟨waits, _⟩ | ⟨_, full⟩ | ⟨atEnd, left⟩
      · rw [waits] at isWriting; cases isWriting
      · exact absurd (readable_of_full positive full) nothing
      · rw [left] at isWriting; cases isWriting
    · exact ⟨isWriting', full⟩
    · have reads := reader_sink_first capacities program
      refine absurd ⟨.first, also, buf, other program, isWriting, reads, ?_⟩ (halted program).2
      rw [left]
      rfl

end Halts

/-- How many programs a stream is away from the outside. -/
def rank : Stream → Nat
  | .keyboard => 2
  | .up => 1
  | .input => 0
  | .output => 2
  | .down => 1
  | .screen => 0

theorem rank_descends (program : Program) (port : Port) :
    rank (((network capacities).relay program).sink port) <
      rank (((network capacities).relay program).source port) := by
  cases program <;> cases port <;> exact Nat.lt_succ_self _

/-- In every run in which no call fails and no connection is reset. If the client ends
with the connection, the screen shows all that the session has written; if the server ends
with the connection, the session has got all that was typed. From any state on, the
programs make a bounded number of calls for what is there. Where they halt although the
screen and the session take more: both wait and everything has arrived, both have ended,
or each is in a `write` to the other one that has no room. -/
theorem session_halts (capacities : Capacities) (state : State Program Stream UInt8)
    (reachable : (cleanSystem (network capacities)).Reachable state) :
    (state.turn .client = .exited (some .second) →
      state.written .screen = state.written .output) ∧
    (state.turn .server = .exited (some .second) →
      state.written .input = state.written .keyboard) ∧
    (∃ bound, ∀ (calls : List (Program × Nat)) later,
      runLabels (fun made => call (network capacities) made.1 made.2) calls state = some later →
        calls.length ≤ bound) ∧
    ((∀ stream capacity, capacities.of stream = some capacity → 0 < capacity) →
      Room (network capacities) state .screen 1 → Room (network capacities) state .input 1 →
      Halted capacities state →
        (state.turn .client = .selecting ∧ state.turn .server = .selecting ∧
          state.written .screen = state.written .output ∧
          state.written .input = state.written .keyboard) ∨
        (∃ atEnd atEnd', state.turn .client = .exited atEnd ∧
          state.turn .server = .exited atEnd') ∨
        Deadlocked capacities state) := by
  obtain ⟨lossless, caused⟩ := (caused_inductive capacities).holds reachable
  refine ⟨fun left => ?_, fun left => ?_, ⟨callsLeft (network capacities) rank state, ?_⟩, ?_⟩
  · exact (lossless.hop_atEnd left).trans (lossless.hop_atEnd (caused.client left))
  · exact (lossless.hop_atEnd left).trans (lossless.hop_atEnd (caused.server left))
  · intro calls later ran
    exact length_le_measure (callsLeft (network capacities) rank)
      (fun _ _ _ called => callsLeft_lt rank_descends called) ran
  · intro positive screen input halted
    have outside (program : Program) : Room (network capacities) state
        (((network capacities).relay program).sink .second) 1 := by
      cases program
      · exact screen
      · exact input
    have alike := halted_alike lossless positive outside halted
    rcases halted_cases lossless outside halted .client with
      ⟨waits, empty⟩ | ⟨isWriting, full⟩ | ⟨atEnd, left⟩
    · left
      have waits' : state.turn .server = .selecting := (alike .client).1 waits
      rcases halted_cases lossless outside halted .server with
        ⟨_, empty'⟩ | ⟨⟨also, buf, isWriting⟩, _⟩ | ⟨atEnd, left⟩
      · have shown := lossless.hop_idle waits (empty .second)
        have sent := lossless.hop_idle waits' (empty' .first)
        have given := lossless.hop_idle waits' (empty' .second)
        have typed := lossless.hop_idle waits (empty .first)
        exact ⟨waits, waits', shown.trans sent, given.trans typed⟩
      · rw [waits'] at isWriting; cases isWriting
      · rw [waits'] at left; cases left
    · right; right
      intro program
      cases program with
      | client => exact ⟨isWriting, full⟩
      | server => exact (alike .client).2 isWriting
    · right; left
      rcases halted_cases lossless outside halted .server with
        ⟨waits', _⟩ | ⟨isWriting', _⟩ | ⟨atEnd', left'⟩
      · have waits : state.turn .client = .selecting := (alike .server).1 waits'
        rw [left] at waits
        cases waits
      · have back : ∃ also buf, state.turn .client = .writing .first also buf :=
          ((alike .server).2 isWriting').1
        obtain ⟨also, buf, isWriting⟩ := back
        rw [left] at isWriting
        cases isWriting
      · exact ⟨atEnd, atEnd', left, left'⟩

/-- The session writes a byte and ends; the client ends after the server. -/
theorem session_halts_shown :
    ∃ state : State Program Stream UInt8,
      (cleanSystem (network ⟨some 4, some 4, some 4, some 4⟩)).Reachable state ∧
      state.written .output = [72] ∧ state.turn .client = .exited (some .second) ∧
      state.written .screen = state.written .output := by
  let connection := network ⟨some 4, some 4, some 4, some 4⟩
  have calls (before after : State Program Stream UInt8)
      (reachable : (cleanSystem connection).Reachable before) (made : List (Program × Nat))
      (ran : runLabels (fun made => call connection made.1 made.2) made before = some after) :
      (cleanSystem connection).Reachable after := by
    have steps (made : Program × Nat) (before after : State Program Stream UInt8)
        (called : call connection made.1 made.2 before = some after) :
        (cleanSystem connection).Step before after :=
      ⟨.call made.1 made.2, trivial, called⟩
    exact runLabels_reachable steps reachable ran
  have wrote : (cleanSystem connection).Reachable
      ((started : State Program Stream UInt8).put .output [72]) :=
    (TransitionSystem.Reachable.of_init rfl).tail ⟨.arrive .output [72], trivial, rfl⟩
  have passed := calls _ _ wrote [(.server, 0), (.server, 1), (.server, 1)] rfl
  have finished : (cleanSystem connection).Reachable _ :=
    passed.tail ⟨.finish .output, trivial, rfl⟩
  have ended := calls _ _ finished [(.server, 0), (.server, 0), (.client, 0), (.client, 1),
    (.client, 1), (.client, 0), (.client, 0)] rfl
  exact ⟨_, ended, rfl, rfl, (session_halts _ _ ended).1 rfl⟩

end LinuxProgramming.Terminals.Telnet
