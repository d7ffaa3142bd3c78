import LinuxProgramming.Library.Rounds

/-!
Contract: `ud_ucase_sv` with any number of `ud_ucase_cl` processes, on datagram sockets.

Owns:
- both programs, one call at a time, and clients that fail at any time;
- what each client prints, in every run;
- runs in which no client fails: they come to an end, and every client has all its answers.

Does not own: the addresses, which differ, and the start of the server before its `bind`.
-/

namespace LinuxProgramming.Sockets.Ucase

open LinuxProgramming.Library

def BUF_SIZE : Nat := 10

/-- `toupper` in the C locale. -/
def toupper (byte : UInt8) : UInt8 :=
  if 97 ≤ byte ∧ byte ≤ 122 then byte - 32 else byte

/-- What the server makes of a datagram, of which it takes `BUF_SIZE` bytes. -/
def response (message : List UInt8) : List UInt8 :=
  (message.take BUF_SIZE).map toupper

/-- Where `main` of a client is; `j` counts the arguments from 0. -/
inductive Pc where
  | binding
  /-- `j < argc`, and then `sendto`. -/
  | sending (j : Nat)
  /-- `recvfrom`. -/
  | receiving (j : Nat)
  /-- It has removed its address and exited. -/
  | finished
  /-- A call has failed, or a signal has ended it. -/
  | failed
deriving DecidableEq, Repr

/-- The socket of the client is bound and open. -/
def Pc.isBound : Pc → Bool
  | .sending _ | .receiving _ => true
  | .binding | .finished | .failed => false

/-- Where the loop of the server is. -/
inductive ServerPc (Client : Type) where
  | receiving
  | replying (client : Client) (bytes : List UInt8)
  | exited
deriving DecidableEq

structure State (Client : Type) where
  pc : Client → Pc
  server : ServerPc Client
  /-- Datagrams at the socket of the server. -/
  queue : List (Client × List UInt8)
  /-- Datagrams at the socket of a client. -/
  inbox : Client → List (List UInt8)
  /-- The responses that a client has printed. -/
  printed : Client → List (List UInt8)

/-- Who moves. -/
inductive Mover (Client : Type) where
  | server
  | client (client : Client)
  | fail (client : Client)

variable {Client : Type} [DecidableEq Client]

def State.goto (state : State Client) (client : Client) (pc : Pc) : State Client :=
  { state with pc := Function.update state.pc client pc }

/-- `recvfrom` of the server, and the loop over the bytes; or `sendto`, which fails where the
client has gone. -/
def serverStep (state : State Client) : Option (State Client) :=
  match state.server with
  | .receiving =>
      match state.queue with
      | [] => none
      | (client, message) :: rest =>
          some { state with server := .replying client (response message), queue := rest }
  | .replying client bytes =>
      if (state.pc client).isBound then
        some { state with
          server := .receiving
          inbox := Function.update state.inbox client (state.inbox client ++ [bytes]) }
      else some { state with server := .exited }
  | .exited => none

section Runs

variable (backlog : Nat) (messages : Client → List (List UInt8))

/-- A client sends as soon as the queue of the server is not above the backlog. -/
def clientStep (client : Client) (state : State Client) : Option (State Client) :=
  match state.pc client with
  | .binding => some (state.goto client (.sending 0))
  | .sending j =>
      match (messages client)[j]? with
      | none => some (state.goto client .finished)
      | some message =>
          if state.server = .exited then some (state.goto client .failed)
          else if state.queue.length ≤ backlog then
            some { state.goto client (.receiving j) with
              queue := state.queue ++ [(client, message)] }
          else none
  | .receiving j =>
      match state.inbox client with
      | [] => none
      | bytes :: rest =>
          some { state.goto client (.sending (j + 1)) with
            inbox := Function.update state.inbox client rest
            printed := Function.update state.printed client
              (state.printed client ++ [bytes.take BUF_SIZE]) }
  | .finished | .failed => none

def step : Mover Client → State Client → Option (State Client)
  | .server, state => serverStep state
  | .client client, state => clientStep backlog messages client state
  | .fail client, state =>
      match state.pc client with
      | .finished | .failed => none
      | .binding | .sending _ | .receiving _ => some (state.goto client .failed)

def started : State Client where
  pc := fun _ => .binding
  server := .receiving
  queue := []
  inbox := fun _ => []
  printed := fun _ => []

/-- All runs. -/
def system : TransitionSystem (State Client) :=
  labelled (fun state => state = started) (step backlog messages)

end Runs

/-! ### What is on its way to a client -/

/-- The response that the server is about to send to the client. -/
def ServerPc.replies : ServerPc Client → Client → List (List UInt8)
  | .replying other bytes, client => if other = client then [bytes] else []
  | .receiving, _ => []
  | .exited, _ => []

/-- All responses that the client has still to print, the next one first. -/
def State.pending (state : State Client) (client : Client) : List (List UInt8) :=
  state.inbox client ++ state.server.replies client ++
    (state.queue.filter fun datagram => datagram.1 = client).map fun datagram =>
      response datagram.2

/-- A client has printed the responses to the messages before the one it is at, and waits for
one response at most. -/
def Expected (messages printed pending : List (List UInt8)) : Pc → Prop
  | .binding => printed = [] ∧ pending = []
  | .sending j => j ≤ messages.length ∧ printed = (messages.take j).map response ∧ pending = []
  | .receiving j => printed = (messages.take j).map response ∧
      ∃ message, messages[j]? = some message ∧ pending = [response message]
  | .finished => printed = messages.map response ∧ pending = []
  | .failed => ∃ j, printed = (messages.take j).map response

structure Invariant (messages : Client → List (List UInt8)) (state : State Client) : Prop where
  expected : ∀ client, Expected (messages client) (state.printed client) (state.pending client)
    (state.pc client)
  /-- The server goes on as long as no client fails. -/
  exited : state.server = .exited → ∃ client, state.pc client = .failed

section Steps

variable {backlog : Nat} {messages : Client → List (List UInt8)} {state after : State Client}
  {client : Client}

theorem take_response (message : List UInt8) :
    (response message).take BUF_SIZE = response message := by
  apply List.take_of_length_le
  rw [response, List.length_map, List.length_take]
  exact Nat.min_le_left ..

theorem Expected.failed {pending : List (List UInt8)} {printed : List (List UInt8)}
    {all : List (List UInt8)} {pc : Pc} (expected : Expected all printed pending pc) :
    ∃ j, printed = (all.take j).map response := by
  cases pc with
  | binding => exact ⟨0, expected.1⟩
  | sending j => exact ⟨j, expected.2.1⟩
  | receiving j => exact ⟨j, expected.1⟩
  | finished => exact ⟨all.length, by rw [List.take_length, expected.1]⟩
  | failed => exact expected

/-- A step changes nothing that a client has printed or waits for. -/
theorem Invariant.of_pending (invariant : Invariant messages state)
    (pc : after.pc = state.pc) (printed : after.printed = state.printed)
    (pending : ∀ client, state.pc client ≠ .failed → after.pending client = state.pending client)
    (exited : after.server = .exited → ∃ client, state.pc client = .failed) :
    Invariant messages after := by
  constructor
  · intro client
    rw [pc, printed]
    by_cases failed : state.pc client = .failed
    · have expected := (invariant.expected client).failed
      rw [failed]
      exact expected
    · rw [pending client failed]
      exact invariant.expected client
  · rw [pc]
    exact exited

theorem serverStep_invariant (invariant : Invariant messages state)
    (ran : serverStep state = some after) : Invariant messages after := by
  rw [serverStep] at ran
  split at ran
  case h_1 place =>
    split at ran
    case h_1 => cases ran
    case h_2 client message rest queued =>
      cases ran
      refine invariant.of_pending rfl rfl ?_ (fun exited => by cases exited)
      intro other _
      simp only [State.pending, ServerPc.replies, place, queued, List.append_nil,
        List.filter_cons]
      by_cases same : client = other <;> simp [same]
  case h_2 client bytes place =>
    split_ifs at ran with bound
    · cases ran
      refine invariant.of_pending rfl rfl ?_ (fun exited => by cases exited)
      intro other _
      by_cases same : other = client
      · subst same
        simp [State.pending, ServerPc.replies, place]
      · simp [State.pending, ServerPc.replies, place, same, Ne.symm same]
    · cases ran
      -- a client that the server replies to and that is not there has failed
      have failed : state.pc client = .failed := by
        have expected := invariant.expected client
        have waits : state.pending client ≠ [] := by
          simp [State.pending, ServerPc.replies, place]
        cases at_ : state.pc client with
        | failed => rfl
        | binding => exact absurd (at_ ▸ expected).2 waits
        | finished => exact absurd (at_ ▸ expected).2 waits
        | sending j =>
            rw [at_] at bound
            exact absurd rfl bound
        | receiving j =>
            rw [at_] at bound
            exact absurd rfl bound
      refine invariant.of_pending rfl rfl ?_ fun _ => ⟨client, failed⟩
      intro other alive
      have different : client ≠ other := by
        rintro rfl
        exact alive failed
      simp [State.pending, ServerPc.replies, place, different]
  case h_3 => cases ran

/-- A client goes on: what there is to show about it, where the others keep their part. -/
theorem Invariant.goto (invariant : Invariant messages state) {pc : Pc}
    (pcs : after.pc = Function.update state.pc client pc)
    (others : ∀ other, other ≠ client →
      after.printed other = state.printed other ∧ after.pending other = state.pending other)
    (own : Expected (messages client) (after.printed client) (after.pending client) pc)
    (exited : after.server = .exited → state.server = .exited)
    (alive : state.pc client = .failed → pc = .failed) : Invariant messages after := by
  constructor
  · intro other
    rw [pcs]
    by_cases same : other = client
    · subst same
      rw [Function.update_self]
      exact own
    · rw [Function.update_of_ne same, (others other same).1, (others other same).2]
      exact invariant.expected other
  · intro ended
    obtain ⟨failed, place⟩ := invariant.exited (exited ended)
    refine ⟨failed, ?_⟩
    rw [pcs]
    by_cases same : failed = client
    · subst same
      rw [Function.update_self]
      exact alive place
    · rw [Function.update_of_ne same, place]

theorem clientStep_invariant (invariant : Invariant messages state)
    (ran : clientStep backlog messages client state = some after) :
    Invariant messages after := by
  have expected := invariant.expected client
  have keeps : ∀ other, other ≠ client →
      state.printed other = state.printed other ∧ state.pending other = state.pending other :=
    fun _ _ => ⟨rfl, rfl⟩
  rw [clientStep] at ran
  cases place : state.pc client with
  | binding =>
      rw [place] at ran expected
      cases ran
      exact invariant.goto rfl keeps ⟨Nat.zero_le _, expected.1, expected.2⟩ id (by simp [place])
  | sending j =>
      rw [place] at ran expected
      obtain ⟨bound, printed, pending⟩ := expected
      dsimp only at ran
      split at ran
      case h_1 through =>
        cases ran
        have all : (messages client).take j = messages client :=
          List.take_of_length_le (List.getElem?_eq_none_iff.mp through)
        rw [all] at printed
        exact invariant.goto rfl keeps ⟨printed, pending⟩ id (by simp [place])
      case h_2 message current =>
        split_ifs at ran with gone room
        · cases ran
          exact invariant.goto rfl keeps ⟨j, printed⟩ id (by simp)
        · cases ran
          refine invariant.goto rfl ?_ ⟨printed, message, current, ?_⟩ id
            (by simp [place])
          · intro other different
            refine ⟨rfl, ?_⟩
            simp [State.pending, State.goto, Ne.symm different]
          · have sent : (({ state.goto client (.receiving j) with
                queue := state.queue ++ [(client, message)] } : State Client).pending client) =
                state.pending client ++ [response message] := by
              simp [State.pending, State.goto]
            rw [sent, pending, List.nil_append]
  | receiving j =>
      rw [place] at ran expected
      obtain ⟨printed, message, current, pending⟩ := expected
      dsimp only at ran
      split at ran
      case h_1 => cases ran
      case h_2 bytes rest received =>
        cases ran
        have split_ : state.pending client = bytes :: (rest ++ state.server.replies client ++
            (state.queue.filter fun datagram => datagram.1 = client).map fun datagram =>
              response datagram.2) := by
          simp [State.pending, received]
        rw [split_, List.cons.injEq] at pending
        obtain ⟨rfl, nothing⟩ := pending
        have next : (messages client).take (j + 1) = (messages client).take j ++ [message] := by
          rw [List.take_add_one, current]
          rfl
        refine invariant.goto rfl ?_ ⟨?_, ?_, ?_⟩ id
          (by simp [place])
        · intro other different
          simp [State.pending, State.goto, different]
        · exact (List.getElem?_eq_some_iff.mp current).1
        · simp only [Function.update_self]
          rw [next, List.map_append, printed, take_response]
          rfl
        · simpa [State.pending, State.goto] using nothing
  | finished | failed =>
      rw [place] at ran
      cases ran

theorem system_inductive (backlog : Nat) (messages : Client → List (List UInt8)) :
    (system backlog messages).Inductive (Invariant messages) where
  init := by
    rintro state rfl
    exact ⟨fun _ => ⟨rfl, rfl⟩, fun exited => by cases exited⟩
  step := by
    rintro before after invariant ⟨mover, -, ran⟩
    cases mover with
    | server => exact serverStep_invariant invariant ran
    | client client => exact clientStep_invariant invariant ran
    | fail client =>
        have fails : Invariant messages (before.goto client .failed) :=
          invariant.goto rfl (fun _ _ => ⟨rfl, rfl⟩) (invariant.expected client).failed id
            fun _ => rfl
        simp only [step] at ran
        split at ran <;> cases ran <;> exact fails

/-! ### Runs without failures -/

/-- No client has failed. -/
def State.Alive (state : State Client) : Prop :=
  ∀ client, state.pc client ≠ .failed

/-- What is left to do for a client with so many messages. -/
def Pc.left (count : Nat) : Pc → Nat
  | .binding => 4 * count + 2
  | .sending j => 4 * (count - j) + 1
  | .receiving j => 4 * (count - j) - 2
  | .finished => 0
  | .failed => 0

def ServerPc.left : ServerPc Client → Nat
  | .replying _ _ => 1
  | .receiving | .exited => 0

/-- What is left to do for all clients. -/
def clientsLeft [Fintype Client] (messages : Client → List (List UInt8)) (pc : Client → Pc) : Nat :=
  ∑ client, (pc client).left (messages client).length

def State.left [Fintype Client] (messages : Client → List (List UInt8)) (state : State Client) :
    Nat :=
  clientsLeft messages state.pc + (2 * state.queue.length + state.server.left)

theorem clientsLeft_update [Fintype Client] (messages : Client → List (List UInt8))
    (pcs : Client → Pc) (client : Client) (pc : Pc) :
    clientsLeft messages (Function.update pcs client pc) +
        (pcs client).left (messages client).length =
      clientsLeft messages pcs + pc.left (messages client).length := by
  have sum := sum_add_eq_sum_add client
    (fun other (different : other ≠ client) => show
      (Function.update pcs client pc other).left (messages other).length =
        (pcs other).left (messages other).length by
      rw [Function.update_of_ne different])
  rwa [Function.update_self] at sum

/-- Where neither the server nor a client can move and no client has failed, every client has
finished. -/
theorem finished_of_stuck (invariant : Invariant messages state) (alive : state.Alive)
    (stops : serverStep state = none) (stop : clientStep backlog messages client state = none) :
    state.pc client = .finished := by
  -- the server waits for a datagram
  have idle : state.server = .receiving ∧ state.queue = [] := by
    rw [serverStep] at stops
    split at stops
    case h_1 place =>
      split at stops
      case h_1 empty => exact ⟨place, empty⟩
      case h_2 => cases stops
    case h_2 => split_ifs at stops
    case h_3 place =>
      obtain ⟨failed, gone⟩ := invariant.exited place
      exact absurd gone (alive failed)
  obtain ⟨waits, empty⟩ := idle
  rw [clientStep] at stop
  cases place : state.pc client with
  | finished => rfl
  | failed => exact absurd place (alive client)
  | binding =>
      rw [place] at stop
      cases stop
  | sending j =>
      rw [place] at stop
      dsimp only at stop
      split at stop
      case h_1 => cases stop
      case h_2 =>
        rw [waits, empty, if_neg (by simp), if_pos (by simp)] at stop
        cases stop
  | receiving j =>
      have expected := invariant.expected client
      rw [place] at stop expected
      obtain ⟨-, message, -, pending⟩ := expected
      dsimp only at stop
      split at stop
      case h_1 nothing =>
        simp [State.pending, ServerPc.replies, nothing, waits, empty] at pending
      case h_2 => cases stop

/-- Every step that is no failure is one less to do. -/
theorem clientStep_left [Fintype Client] (invariant : Invariant messages state)
    (ran : clientStep backlog messages client state = some after) :
    after.left messages < state.left messages := by
  have expected := invariant.expected client
  have sums := clientsLeft_update messages state.pc client
  rw [clientStep] at ran
  cases place : state.pc client with
  | binding =>
      rw [place] at ran sums
      cases ran
      have sum := sums (.sending 0)
      simp only [Pc.left] at sum
      simp only [State.left, State.goto]
      omega
  | sending j =>
      rw [place] at ran sums expected
      have bound := expected.1
      dsimp only at ran
      split at ran
      case h_1 =>
        cases ran
        have sum := sums .finished
        simp only [Pc.left] at sum
        simp only [State.left, State.goto]
        omega
      case h_2 message current =>
        have inside := (List.getElem?_eq_some_iff.mp current).1
        split_ifs at ran
        · cases ran
          have sum := sums .failed
          simp only [Pc.left] at sum
          simp only [State.left, State.goto]
          omega
        · cases ran
          have sum := sums (.receiving j)
          simp only [Pc.left] at sum
          simp only [State.left, State.goto, List.length_append, List.length_singleton]
          omega
  | receiving j =>
      rw [place] at ran sums expected
      obtain ⟨-, message, current, -⟩ := expected
      have inside := (List.getElem?_eq_some_iff.mp current).1
      dsimp only at ran
      split at ran
      case h_1 => cases ran
      case h_2 =>
        cases ran
        have sum := sums (.sending (j + 1))
        simp only [Pc.left] at sum
        simp only [State.left, State.goto]
        omega
  | finished | failed =>
      rw [place] at ran
      cases ran

theorem serverStep_left [Fintype Client] (ran : serverStep state = some after) :
    after.left messages < state.left messages := by
  rw [serverStep] at ran
  split at ran
  case h_1 place =>
    split at ran
    case h_1 => cases ran
    case h_2 client message rest queued =>
      cases ran
      simp only [State.left, ServerPc.left, place, queued, List.length_cons]
      omega
  case h_2 client bytes place =>
    split_ifs at ran <;> cases ran <;> simp only [State.left, ServerPc.left, place] <;> omega
  case h_3 => cases ran

/-- A step that is no failure. -/
def Mover.works : Mover Client → Bool
  | .server | .client _ => true
  | .fail _ => false

theorem step_alive (invariant : Invariant messages state) (alive : state.Alive)
    {mover : Mover Client} (works : mover.works)
    (ran : step backlog messages mover state = some after) : after.Alive := by
  have running : state.server ≠ .exited := by
    intro exited
    obtain ⟨failed, gone⟩ := invariant.exited exited
    exact alive failed gone
  have moved : ∀ client pc, pc ≠ .failed → ∀ other, Function.update state.pc client pc other ≠
      .failed := by
    intro client pc different other
    by_cases same : other = client
    · subst same
      rwa [Function.update_self]
    · rw [Function.update_of_ne same]
      exact alive other
  cases mover with
  | fail client => cases works
  | server =>
      simp only [step, serverStep] at ran
      split at ran <;> (try split at ran) <;> cases ran <;> exact alive
  | client client =>
      simp only [step, clientStep] at ran
      split at ran
      case h_1 =>
        cases ran
        exact moved client _ Pc.noConfusion
      case h_2 =>
        split at ran
        case h_1 =>
          cases ran
          exact moved client _ Pc.noConfusion
        case h_2 =>
          rw [if_neg running] at ran
          split_ifs at ran
          cases ran
          exact moved client _ Pc.noConfusion
      case h_3 =>
        split at ran
        case h_1 => cases ran
        case h_2 =>
          cases ran
          exact moved client _ Pc.noConfusion
      case h_4 | h_5 => cases ran

theorem step_left [Fintype Client] (invariant : Invariant messages state)
    {mover : Mover Client} (works : mover.works)
    (ran : step backlog messages mover state = some after) :
    after.left messages < state.left messages := by
  cases mover with
  | server => exact serverStep_left ran
  | client client => exact clientStep_left invariant ran
  | fail client => cases works

/-- Along a run without failures all clients are there, and it has as many steps as there is
work at most. -/
theorem run_alive [Fintype Client] {movers : List (Mover Client)} {last : State Client}
    (invariant : Invariant messages state) (alive : state.Alive)
    (works : ∀ mover ∈ movers, mover.works)
    (ran : runLabels (step backlog messages) movers state = some last) :
    last.Alive ∧ movers.length ≤ state.left messages := by
  induction movers generalizing state with
  | nil =>
      cases ran
      exact ⟨alive, Nat.zero_le _⟩
  | cons mover rest inductionHypothesis =>
      obtain ⟨next, stepped, ran⟩ := Option.bind_eq_some_iff.mp ran
      have working := works mover List.mem_cons_self
      have less := step_left invariant working stepped
      obtain ⟨alive', bound⟩ := inductionHypothesis
        ((system_inductive backlog messages).step _ _ invariant ⟨mover, trivial, stepped⟩)
        (step_alive invariant alive working stepped)
        (fun other member => works other (List.mem_cons_of_mem _ member)) ran
      refine ⟨alive', ?_⟩
      rw [List.length_cons]
      omega

end Steps

/-- Where no client fails a run has four steps for each message and two for each client at
most, and it only ends when every client has printed all its responses and exited. -/
theorem run_complete [Fintype Client] (backlog : Nat) (messages : Client → List (List UInt8))
    (movers : List (Mover Client)) (works : ∀ mover ∈ movers, mover.works) (last : State Client)
    (ran : runLabels (step backlog messages) movers started = some last) :
    movers.length ≤ ∑ client, (4 * (messages client).length + 2) ∧
      ((∀ mover : Mover Client, mover.works → step backlog messages mover last = none) →
        ∀ client, last.pc client = .finished ∧
          last.printed client = (messages client).map response) := by
  have initial := (system_inductive backlog messages).init started rfl
  obtain ⟨alive, bound⟩ := run_alive initial (fun _ => Pc.noConfusion) works ran
  refine ⟨bound, ?_⟩
  intro stuck client
  have invariant := (system_inductive backlog messages).holds
    (runLabels_reachable labelled_step (.of_init rfl) ran)
  have place := finished_of_stuck invariant alive (stuck .server rfl) (stuck (.client client) rfl)
  have expected := invariant.expected client
  rw [place] at expected
  exact ⟨place, expected.1⟩

/-- One client with one message of twelve bytes. -/
theorem run_complete_one : ∃ last : State Unit,
    runLabels (step 10 fun _ => [[104, 101, 108, 108, 111, 32, 119, 111, 114, 108, 100, 33]])
        [.client (), .client (), .server, .server, .client (), .client ()] started = some last ∧
      last.printed () = [[72, 69, 76, 76, 79, 32, 87, 79, 82, 76]] := by
  refine ⟨_, rfl, ?_⟩
  exact ((run_complete 10 (fun _ => [[104, 101, 108, 108, 111, 32, 119, 111, 114, 108, 100, 33]])
    [.client (), .client (), .server, .server, .client (), .client ()]
    (by simp [Mover.works]) _ rfl).2 (by
      intro mover works
      cases mover with
      | server => rfl
      | client client => rfl
      | fail client => cases works) ()).2

end LinuxProgramming.Sockets.Ucase
