import LinuxProgramming.Library.TransitionSystem
import Mathlib.Algebra.GroupWithZero.Nat
import Mathlib.Data.List.Basic

/-!
Contract: the file transfer over System V message queues, the child of
`svmsg_file_server` against `svmsg_file_client`.

Owns:
- both programs from the client's request on, one `read` or message at a time,
  and the client's queue between them;
- the messages that arrive, in every interleaving;
- with which contents of the uninitialised `resp` the client does what it is for.

Does not own: the set-up of the queues and of the daemon. No system call of the
server fails while the client's queue exists.
-/

namespace LinuxProgramming.Messages.FileTransfer

open LinuxProgramming.Library

def RESP_MT_FAILURE : Int := 1

def RESP_MT_DATA : Int := 2

def RESP_MT_END : Int := 3

def PATH_MAX : Nat := 4096

def RESP_MSG_SIZE : Nat := 8192

/-- `clientId` and `pathname`: four bytes and `PATH_MAX`. -/
def REQ_MSG_SIZE : Nat := 4 + PATH_MAX

/-- A message in a queue: its type and its bytes. -/
structure Message where
  mtype : Int
  data : List UInt8
deriving DecidableEq, Repr

/-- `"Couldn't open"` with its terminator. -/
def couldntOpen : List UInt8 :=
  [67, 111, 117, 108, 100, 110, 39, 116, 32, 111, 112, 101, 110, 0]

/-! ### The two programs -/

/-- The child of the server, in `serverRequest`. -/
inductive Server where
  /-- Before `open`. -/
  | opening
  /-- In the loop, with the rest of the file before it. -/
  | reading (rest : List UInt8)
  | finished
deriving DecidableEq, Repr

/-- How the client ends. -/
inductive Exit where
  /-- `msgrcv` fails: the message does not fit. -/
  | msgrcvFailed
  /-- The failure branch, which prints `resp.data`. -/
  | failure
  /-- `"Recieved %ld bytes (%d messages)"`. -/
  | received (totBytes : Nat) (numMsgs : Nat)
deriving DecidableEq, Repr

inductive ClientPc where
  /-- The `msgrcv` after the request. -/
  | firstReply
  /-- The `msgrcv` of the loop. -/
  | nextReply
  | exited (how : Exit)
deriving DecidableEq, Repr

/-- The locals of the client. -/
structure Client where
  pc : ClientPc
  req : Message
  resp : Message
  totBytes : Nat
  numMsgs : Nat
deriving DecidableEq, Repr

/-- Both programs and the client's queue. `sent` and `arrived` record what the server
has sent and what the client has received. -/
structure State where
  server : Server
  queue : List Message
  client : Client
  sent : List Message
  arrived : List Message
deriving DecidableEq, Repr

/-- The client's queue lives until its `atexit` handler removes it. -/
def State.queueExists (state : State) : Bool :=
  match state.client.pc with
  | .exited _ => false
  | _ => true

section Programs

variable (qbytes : Nat) (file : Option (List UInt8))

/-- The bytes and the number of messages in a queue stay within `qbytes`. -/
def hasRoom (queue : List Message) (message : Message) : Bool :=
  (queue.map fun queued => queued.data.length).sum + message.data.length ≤ qbytes &&
    queue.length + 1 ≤ qbytes

/-- `msgsnd` on the client's queue: it waits for room, and fails once the queue is
removed. -/
def State.msgsnd (state : State) (message : Message) (sent failed : Server) : Option State :=
  if state.queueExists then
    if hasRoom qbytes state.queue message then
      some { state with
        server := sent
        queue := state.queue ++ [message]
        sent := state.sent ++ [message] }
    else none
  else some { state with server := failed }

/-- One step of the child; `file` is what `req->pathname` names, `none` if it cannot be
opened. A failing `msgsnd` ends the loop, and the one of the end message then fails,
too. -/
def serverStep (state : State) : Option State :=
  match state.server with
  | .opening =>
      match file with
      | none => state.msgsnd qbytes ⟨RESP_MT_FAILURE, couldntOpen⟩ .finished .finished
      | some bytes => some { state with server := .reading bytes }
  | .reading rest =>
      if rest.take RESP_MSG_SIZE = [] then
        state.msgsnd qbytes ⟨RESP_MT_END, []⟩ .finished .finished
      else
        state.msgsnd qbytes ⟨RESP_MT_DATA, rest.take RESP_MSG_SIZE⟩
          (.reading (rest.drop RESP_MSG_SIZE)) .finished
  | .finished => none

/-- The test of the loop. -/
def Client.loopTest (client : Client) : Client :=
  if client.resp.mtype = RESP_MT_DATA then { client with pc := .nextReply }
  else { client with pc := .exited (.received client.totBytes client.numMsgs) }

/-- What follows the first `msgrcv`, which has put the message into `req`. -/
def Client.first (client : Client) (message : Message) : Client :=
  let client := { client with req := message }
  if client.resp.mtype = RESP_MT_FAILURE then { client with pc := .exited .failure }
  else { client with totBytes := message.data.length, numMsgs := 1 }.loopTest

/-- What follows a `msgrcv` of the loop, which has put the message into `resp`. -/
def Client.next (client : Client) (message : Message) : Client :=
  { client with
    resp := ⟨message.mtype, message.data ++ client.resp.data.drop message.data.length⟩
    totBytes := client.totBytes + message.data.length
    numMsgs := client.numMsgs + 1 }.loopTest

/-- One step of the client. A message longer than asked for stays in the queue. -/
def clientStep (state : State) : Option State :=
  match state.client.pc, state.queue with
  | .exited _, _ => none
  | _, [] => none
  | .firstReply, message :: rest =>
      if REQ_MSG_SIZE < message.data.length then
        some { state with client := { state.client with pc := .exited .msgrcvFailed } }
      else
        some { state with
          queue := rest
          client := state.client.first message
          arrived := state.arrived ++ [message] }
  | .nextReply, message :: rest =>
      if RESP_MSG_SIZE < message.data.length then
        some { state with client := { state.client with pc := .exited .msgrcvFailed } }
      else
        some { state with
          queue := rest
          client := state.client.next message
          arrived := state.arrived ++ [message] }

def stepOf : Side → State → Option State
  | .left => serverStep qbytes file
  | .right => clientStep

/-- The child has the request, and the client waits for the first reply; `resp` and the
counters hold what the stack held. -/
def initial (req resp : Message) (totBytes numMsgs : Nat) : State :=
  ⟨.opening, [], ⟨.firstReply, req, resp, totBytes, numMsgs⟩, [], []⟩

/-- All interleavings of the two programs, with `mtype` in the uninitialised `resp`. -/
def transfer (mtype : Int) : TransitionSystem State :=
  interleaving (fun state => ∃ req data totBytes numMsgs,
      state = initial req ⟨mtype, data⟩ totBytes numMsgs)
    (stepOf qbytes file)

end Programs

/-! ### What the client is for -/

/-- The messages of a file: its bytes in pieces, then the end. -/
def replies (bytes : List UInt8) : List Message :=
  if bytes = [] then [⟨RESP_MT_END, []⟩]
  else ⟨RESP_MT_DATA, bytes.take RESP_MSG_SIZE⟩ :: replies (bytes.drop RESP_MSG_SIZE)
termination_by bytes.length
decreasing_by
  have := List.length_pos_of_ne_nil ‹bytes ≠ []›
  simp only [List.length_drop, RESP_MSG_SIZE]
  omega

/-- The messages for a request. -/
def answer : Option (List UInt8) → List Message
  | none => [⟨RESP_MT_FAILURE, couldntOpen⟩]
  | some bytes => replies bytes

/-- The client has received all messages and reports the length of the file; without a
file it has taken its failure branch. -/
def Served (file : Option (List UInt8)) (how : Exit) (arrived : List Message) : Prop :=
  match file with
  | none => how = .failure
  | some bytes => arrived = answer file ∧ ∃ numMsgs, how = .received bytes.length numMsgs

/-- In every interleaving the client is never stuck, and it is served when it ends. -/
structure Correct (qbytes : Nat) (file : Option (List UInt8)) (mtype : Int) : Prop where
  served : ∀ state, (transfer qbytes file mtype).Reachable state →
    ∀ how, state.client.pc = .exited how → Served file how state.arrived
  progress : ∀ state, (transfer qbytes file mtype).Reachable state → state.queueExists = true →
    ∃ after, (transfer qbytes file mtype).Step state after

/-! ### Messages are neither lost nor reordered -/

/-- The messages the child has still to send. -/
def toSend (file : Option (List UInt8)) : Server → List Message
  | .opening => answer file
  | .reading rest => replies rest
  | .finished => []

theorem replies_nil : replies [] = [⟨RESP_MT_END, []⟩] := by
  rw [replies, if_pos rfl]

theorem replies_cons {bytes : List UInt8} (nonempty : bytes ≠ []) :
    replies bytes =
      ⟨RESP_MT_DATA, bytes.take RESP_MSG_SIZE⟩ :: replies (bytes.drop RESP_MSG_SIZE) := by
  rw [replies, if_neg nonempty]

theorem replies_ne_nil (bytes : List UInt8) : replies bytes ≠ [] := by
  rw [replies]
  split <;> exact List.cons_ne_nil _ _

theorem take_eq_nil {bytes : List UInt8} : bytes.take RESP_MSG_SIZE = [] ↔ bytes = [] := by
  simp [RESP_MSG_SIZE]

/-- A file that fits into one message. -/
theorem replies_short {bytes : List UInt8} (nonempty : bytes ≠ [])
    (short : bytes.length ≤ RESP_MSG_SIZE) :
    replies bytes = [⟨RESP_MT_DATA, bytes⟩, ⟨RESP_MT_END, []⟩] := by
  rw [replies_cons nonempty, List.take_of_length_le short, List.drop_eq_nil_of_le short,
    replies_nil]

section Steps

variable {qbytes : Nat} {file : Option (List UInt8)} {before after : State}

/-- What a step of the child does while the queue exists: send the next message, or
open the file. -/
theorem serverStep_cases (step : serverStep qbytes file before = some after)
    (exists_ : before.queueExists = true) :
    ∃ message server, toSend file before.server = message ++ toSend file server ∧
      server ≠ .opening ∧ (message = [] → before.server = .opening) ∧
      after = { before with
        server := server
        queue := before.queue ++ message
        sent := before.sent ++ message } := by
  obtain ⟨server, queue, client, sent, arrived⟩ := before
  cases server with
  | opening =>
      cases file with
      | none =>
          simp only [serverStep, State.msgsnd, exists_, if_true, Option.ite_none_right_eq_some,
            Option.some.injEq] at step
          obtain ⟨-, rfl⟩ := step
          exact ⟨[⟨RESP_MT_FAILURE, couldntOpen⟩], .finished, rfl, nofun, nofun, rfl⟩
      | some bytes =>
          cases step
          exact ⟨[], .reading bytes, rfl, nofun, fun _ => rfl, by simp only [List.append_nil]⟩
  | reading rest =>
      simp only [serverStep, State.msgsnd, exists_, if_true, take_eq_nil] at step
      by_cases ended : rest = []
      · simp only [ended, if_true, Option.ite_none_right_eq_some, Option.some.injEq] at step
        obtain ⟨-, rfl⟩ := step
        exact ⟨[⟨RESP_MT_END, []⟩], .finished, by rw [toSend, ended, replies_nil]; rfl, nofun,
          nofun, rfl⟩
      · simp only [ended, if_false, Option.ite_none_right_eq_some, Option.some.injEq] at step
        obtain ⟨-, rfl⟩ := step
        exact ⟨[⟨RESP_MT_DATA, rest.take RESP_MSG_SIZE⟩], .reading (rest.drop RESP_MSG_SIZE),
          by rw [toSend, replies_cons ended]; rfl, nofun, nofun, rfl⟩
  | finished => cases step

/-- Twice the messages to be sent, and a step for `open`. -/
def Server.work (file : Option (List UInt8)) (server : Server) : Nat :=
  2 * (toSend file server).length + if server = .opening then 1 else 0

/-- Once the queue is removed, the child only ends. -/
theorem serverStep_removed (step : serverStep qbytes file before = some after)
    (removed : before.queueExists = false) :
    ∃ server, after = { before with server := server } ∧
      server.work file < before.server.work file := by
  obtain ⟨server, queue, client, sent, arrived⟩ := before
  cases server with
  | opening =>
      cases file with
      | none =>
          simp only [serverStep, State.msgsnd, removed, Bool.false_eq_true, if_false,
            Option.some.injEq] at step
          exact ⟨.finished, step.symm, Nat.zero_lt_succ _⟩
      | some bytes =>
          cases step
          exact ⟨.reading bytes, rfl, Nat.lt_succ_self _⟩
  | reading rest =>
      simp only [serverStep, State.msgsnd, removed, Bool.false_eq_true, if_false, ite_self,
        Option.some.injEq] at step
      refine ⟨.finished, step.symm, ?_⟩
      have more := List.length_pos_of_ne_nil (replies_ne_nil rest)
      simp only [Server.work, toSend, List.length_nil, reduceCtorEq, if_false]
      omega
  | finished => cases step

/-- Everything the child sends has arrived, is queued, or is still to be sent. -/
structure Conserved (file : Option (List UInt8)) (state : State) : Prop where
  answer : state.arrived ++ state.queue ++ toSend file state.server = answer file
  sent : state.sent = state.arrived ++ state.queue

theorem serverStep_conserved (step : serverStep qbytes file before = some after)
    (exists_ : before.queueExists = true) (conserved : Conserved file before) :
    Conserved file after := by
  obtain ⟨message, server, next, -, -, rfl⟩ := serverStep_cases step exists_
  refine ⟨?_, ?_⟩
  · rw [← conserved.answer, next]
    simp only [List.append_assoc]
  · rw [conserved.sent]
    simp only [List.append_assoc]

/-- A queue that is empty has room for every message of the child. -/
theorem hasRoom_nil (room : RESP_MSG_SIZE ≤ qbytes) (message : Message)
    (short : message.data.length ≤ RESP_MSG_SIZE) : hasRoom qbytes [] message = true := by
  have some_ : 1 ≤ qbytes := Nat.le_trans (by decide) room
  simp only [hasRoom, List.map_nil, List.sum_nil, List.length_nil, Nat.zero_add,
    Bool.and_eq_true, decide_eq_true_eq]
  exact ⟨Nat.le_trans short room, some_⟩

theorem serverStep_enabled (room : RESP_MSG_SIZE ≤ qbytes) (empty : before.queue = [])
    (unfinished : toSend file before.server ≠ []) :
    ∃ after, serverStep qbytes file before = some after := by
  have sends (message : Message) (short : message.data.length ≤ RESP_MSG_SIZE)
      (sent failed : Server) : ∃ after, before.msgsnd qbytes message sent failed = some after := by
    rw [State.msgsnd, empty, if_pos (hasRoom_nil room _ short)]
    split <;> exact ⟨_, rfl⟩
  cases server : before.server with
  | opening =>
      simp only [serverStep, server]
      cases file with
      | none => exact sends _ (by decide) _ _
      | some bytes => exact ⟨_, rfl⟩
  | reading rest =>
      simp only [serverStep, server]
      split
      · exact sends _ (by decide) _ _
      · exact sends _ (List.length_take_le _ _) _ _
  | finished =>
      rw [server] at unfinished
      exact absurd rfl unfinished

/-- A client that has not ended takes any message that is there. -/
theorem clientStep_enabled (exists_ : before.queueExists = true) (some_ : before.queue ≠ []) :
    ∃ after, clientStep before = some after := by
  obtain ⟨server, queue, ⟨pc, req, resp, totBytes, numMsgs⟩, sent, arrived⟩ := before
  cases queue with
  | nil => exact absurd rfl some_
  | cons message rest =>
      cases pc with
      | exited how => cases exists_
      | firstReply | nextReply =>
          simp only [clientStep]
          split <;> exact ⟨_, rfl⟩

/-! ### Every run ends -/

def Client.work (client : Client) : Nat :=
  match client.pc with
  | .exited _ => 0
  | _ => 1

/-- What the two programs have still to do. -/
def State.work (file : Option (List UInt8)) (state : State) : Nat :=
  state.server.work file + state.queue.length + state.client.work

theorem Client.work_le (client : Client) : client.work ≤ 1 := by
  rw [Client.work]
  split <;> decide

theorem toSend_eq_nil {server : Server} (ended : toSend file server = []) :
    server = .finished := by
  cases server with
  | opening =>
      cases file with
      | none => cases ended
      | some bytes => exact absurd ended (replies_ne_nil bytes)
  | reading rest => exact absurd ended (replies_ne_nil rest)
  | finished => rfl

theorem serverStep_work (step : serverStep qbytes file before = some after) :
    after.work file < before.work file := by
  cases exists_ : before.queueExists with
  | true =>
      obtain ⟨message, server, next, opened, only, rfl⟩ := serverStep_cases step exists_
      simp only [State.work, Server.work, next, if_neg opened, List.length_append]
      cases message with
      | nil =>
          rw [if_pos (only rfl), List.length_nil]
          omega
      | cons first others =>
          rw [List.length_cons]
          omega
  | false =>
      obtain ⟨server, rfl, less⟩ := serverStep_removed step exists_
      exact Nat.add_lt_add_right (Nat.add_lt_add_right less _) _

theorem clientStep_work (step : clientStep before = some after) :
    after.work file < before.work file := by
  obtain ⟨server, queue, ⟨pc, req, resp, totBytes, numMsgs⟩, sent, arrived⟩ := before
  cases queue with
  | nil => cases pc <;> cases step
  | cons message rest =>
      cases pc with
      | exited how => cases step
      | firstReply | nextReply =>
          simp only [clientStep] at step
          split at step
          · cases step
            exact Nat.lt_succ_self _
          · cases step
            exact Nat.add_lt_add_of_lt_of_le (Nat.lt_succ_self _) (Client.work_le _)

/-- No run goes on for ever. -/
theorem step_work {mtype : Int} (step : (transfer qbytes file mtype).Step before after) :
    after.work file < before.work file := by
  obtain ⟨side, step⟩ := step
  cases side with
  | left => exact serverStep_work step
  | right => exact clientStep_work step

end Steps

/-! ### Contents of `resp` with which the client is served -/

/-- The message type in the uninitialised `resp` happens to be what the first reply
calls for, and that reply fits into `req`. -/
def Lucky (file : Option (List UInt8)) (mtype : Int) : Prop :=
  match file with
  | none => mtype = RESP_MT_FAILURE
  | some bytes =>
      if bytes = [] then mtype ≠ RESP_MT_FAILURE ∧ mtype ≠ RESP_MT_DATA
      else mtype = RESP_MT_DATA ∧ bytes.length ≤ REQ_MSG_SIZE

/-- Where the client stands, in a run with such contents. -/
def Stands (file : Option (List UInt8)) (mtype : Int) (state : State) : Prop :=
  match state.client.pc with
  | .firstReply =>
      Conserved file state ∧ state.arrived = [] ∧ state.client.resp.mtype = mtype
  | .nextReply =>
      Conserved file state ∧ ∃ bytes, file = some bytes ∧ state.arrived ≠ answer file ∧
        state.arrived ++ [⟨RESP_MT_END, []⟩] = answer file ∧
        state.client.totBytes = bytes.length
  | .exited how => Served file how state.arrived

section Lucky

variable {qbytes : Nat} {file : Option (List UInt8)} {mtype : Int} {before after : State}

theorem serverStep_stands (step : serverStep qbytes file before = some after)
    (stands : Stands file mtype before) : Stands file mtype after := by
  cases exists_ : before.queueExists with
  | true =>
      obtain ⟨message, server, -, -, -, rfl⟩ := serverStep_cases step exists_
      obtain ⟨server', queue, ⟨pc, req, resp, totBytes, numMsgs⟩, sent, arrived⟩ := before
      cases pc with
      | firstReply => exact ⟨serverStep_conserved step exists_ stands.1, stands.2⟩
      | nextReply => exact ⟨serverStep_conserved step exists_ stands.1, stands.2⟩
      | exited how => cases exists_
  | false =>
      obtain ⟨server, rfl, -⟩ := serverStep_removed step exists_
      obtain ⟨server', queue, ⟨pc, req, resp, totBytes, numMsgs⟩, sent, arrived⟩ := before
      cases pc with
      | firstReply | nextReply => cases exists_
      | exited how => exact stands

/-- Taking a message from the queue conserves it. -/
theorem Conserved.receive {server : Server} {message : Message} {rest sent arrived : List Message}
    {client client' : Client}
    (conserved : Conserved file ⟨server, message :: rest, client, sent, arrived⟩) :
    Conserved file ⟨server, rest, client', sent, arrived ++ [message]⟩ := by
  obtain ⟨answer, sent_⟩ := conserved
  refine ⟨?_, ?_⟩
  · simpa only [List.append_assoc, List.singleton_append, List.cons_append, List.nil_append]
      using answer
  · simpa only [List.append_assoc, List.singleton_append] using sent_

/-- The first reply. -/
theorem first_stands (lucky : Lucky file mtype) {server : Server} {message : Message}
    {rest sent : List Message} {client : Client} (resp : client.resp.mtype = mtype)
    (conserved : Conserved file ⟨server, message :: rest, client, sent, []⟩) :
    message.data.length ≤ REQ_MSG_SIZE ∧
      Stands file mtype ⟨server, rest, client.first message, sent, [message]⟩ := by
  have head : message :: (rest ++ toSend file server) = answer file := conserved.answer
  have receive {client' : Client} :
      Conserved file ⟨server, rest, client', sent, [message]⟩ := conserved.receive
  cases file with
  | none =>
      rw [answer, List.cons.injEq] at head
      obtain ⟨rfl, -⟩ := head
      have failed : client.resp.mtype = RESP_MT_FAILURE := resp.trans lucky
      refine ⟨by decide, ?_⟩
      rw [Client.first, if_pos failed]
      rfl
  | some bytes =>
      by_cases empty : bytes = []
      · subst empty
        obtain ⟨notFailure, notData⟩ := lucky
        rw [answer, replies_nil, List.cons.injEq] at head
        obtain ⟨rfl, -⟩ := head
        refine ⟨by decide, ?_⟩
        rw [Client.first, if_neg (resp ▸ notFailure), Client.loopTest, if_neg (resp ▸ notData)]
        exact ⟨replies_nil.symm, 1, rfl⟩
      · rw [Lucky, if_neg empty] at lucky
        obtain ⟨isData, short⟩ := lucky
        have whole := replies_short empty (Nat.le_trans short (by decide))
        rw [answer, whole, List.cons.injEq] at head
        obtain ⟨rfl, -⟩ := head
        have data : client.resp.mtype = RESP_MT_DATA := resp.trans isData
        have notFailure : client.resp.mtype ≠ RESP_MT_FAILURE := by
          rw [data]
          decide
        refine ⟨short, ?_⟩
        rw [Client.first, if_neg notFailure, Client.loopTest, if_pos data]
        refine ⟨receive, bytes, rfl, ?_, ?_, rfl⟩
        · rw [answer, whole]
          simp
        · rw [answer, whole]
          rfl

/-- The end message, which is the second one. -/
theorem next_stands (mtype : Int) {bytes : List UInt8} {server : Server} {message : Message}
    {rest sent arrived : List Message} {client : Client}
    (conserved : Conserved (some bytes) ⟨server, message :: rest, client, sent, arrived⟩)
    (end_ : arrived ++ [⟨RESP_MT_END, []⟩] = answer (some bytes))
    (total : client.totBytes = bytes.length) :
    message.data.length ≤ RESP_MSG_SIZE ∧
      Stands (some bytes) mtype
        ⟨server, rest, client.next message, sent, arrived ++ [message]⟩ := by
  have split := conserved.answer
  rw [← end_, List.append_assoc, List.append_cancel_left_eq, List.cons_append,
    List.cons.injEq] at split
  obtain ⟨rfl, -⟩ := split
  have ended : RESP_MT_END ≠ RESP_MT_DATA := by decide
  refine ⟨by decide, ?_⟩
  rw [Client.next, Client.loopTest, if_neg ended]
  exact ⟨end_, client.numMsgs + 1, by rw [total]; rfl⟩

theorem clientStep_stands (lucky : Lucky file mtype) (step : clientStep before = some after)
    (stands : Stands file mtype before) : Stands file mtype after := by
  obtain ⟨server, queue, ⟨pc, req, resp, totBytes, numMsgs⟩, sent, arrived⟩ := before
  cases queue with
  | nil => cases pc <;> cases step
  | cons message rest =>
      cases pc with
      | firstReply =>
          obtain ⟨conserved, none_, isMtype⟩ := stands
          simp only at none_
          subst none_
          obtain ⟨short, next⟩ := first_stands lucky isMtype conserved
          simp only [clientStep, if_neg (Nat.not_lt.mpr short), Option.some.injEq] at step
          exact step ▸ next
      | nextReply =>
          obtain ⟨conserved, bytes, rfl, -, end_, total⟩ := stands
          obtain ⟨short, next⟩ := next_stands mtype conserved end_ total
          simp only [clientStep, if_neg (Nat.not_lt.mpr short), Option.some.injEq] at step
          exact step ▸ next
      | exited how => cases step

theorem stands_inductive (lucky : Lucky file mtype) :
    (transfer qbytes file mtype).Inductive (Stands file mtype) where
  init := by
    rintro _ ⟨req, data, totBytes, numMsgs, rfl⟩
    exact ⟨⟨rfl, rfl⟩, rfl, rfl⟩
  step := by
    rintro before after stands ⟨side, step⟩
    cases side with
    | left => exact serverStep_stands step stands
    | right => exact clientStep_stands lucky step stands

/-- With such contents the client is served, whatever the interleaving. -/
theorem Correct.of_lucky (room : RESP_MSG_SIZE ≤ qbytes) (lucky : Lucky file mtype) :
    Correct qbytes file mtype where
  served := by
    intro state reachable how exited
    have stands := (stands_inductive lucky).holds reachable
    rw [Stands, exited] at stands
    exact stands
  progress := by
    intro state reachable exists_
    have stands := (stands_inductive lucky).holds reachable
    by_cases empty : state.queue = []
    · have unfinished : toSend file state.server ≠ [] := by
        intro ended
        cases pc : state.client.pc with
        | firstReply =>
            rw [Stands, pc] at stands
            obtain ⟨conserved, none_, -⟩ := stands
            have nothing := conserved.answer
            rw [none_, empty, ended] at nothing
            cases file with
            | none => cases nothing
            | some bytes =>
                rw [answer, replies] at nothing
                split at nothing <;> cases nothing
        | nextReply =>
            rw [Stands, pc] at stands
            obtain ⟨conserved, bytes, -, more, -⟩ := stands
            have all := conserved.answer
            rw [empty, ended, List.append_nil, List.append_nil] at all
            exact more all
        | exited how =>
            rw [State.queueExists, pc] at exists_
            cases exists_
      obtain ⟨after, step⟩ := serverStep_enabled room empty unfinished
      exact ⟨after, .left, step⟩
    · obtain ⟨after, step⟩ := clientStep_enabled exists_ empty
      exact ⟨after, .right, step⟩

/-! ### Every other content fails the client -/

/-- A client whose uninitialised variables are empty but for one message type. -/
def blank (mtype : Int) : Client :=
  ⟨.firstReply, ⟨0, []⟩, ⟨mtype, []⟩, 0, 0⟩

/-- The first message can reach the queue before the client moves. -/
theorem reachable_first (room : RESP_MSG_SIZE ≤ qbytes) (file : Option (List UInt8))
    (mtype : Int) :
    ∃ message server, answer file = message :: toSend file server ∧
      (transfer qbytes file mtype).Reachable
        ⟨server, [message], blank mtype, [message], []⟩ := by
  have start : (transfer qbytes file mtype).Reachable
      (initial ⟨0, []⟩ ⟨mtype, []⟩ 0 0) := .of_init ⟨_, _, _, _, rfl⟩
  cases file with
  | none =>
      refine ⟨_, .finished, rfl, start.tail ⟨.left, ?_⟩⟩
      have fits := hasRoom_nil room ⟨RESP_MT_FAILURE, couldntOpen⟩ (by decide)
      simp only [stepOf, serverStep, initial, State.msgsnd, State.queueExists, fits, if_true]
      rfl
  | some bytes =>
      have opened : (transfer qbytes (some bytes) mtype).Reachable
          ⟨.reading bytes, [], blank mtype, [], []⟩ := start.tail ⟨.left, rfl⟩
      by_cases empty : bytes = []
      · refine ⟨⟨RESP_MT_END, []⟩, .finished, ?_, opened.tail ⟨.left, ?_⟩⟩
        · rw [answer, empty, replies_nil]
          rfl
        · have fits := hasRoom_nil room ⟨RESP_MT_END, []⟩ (by decide)
          simp only [stepOf, serverStep, State.msgsnd, State.queueExists, blank, empty,
            List.take_nil, fits, if_true]
          rfl
      · refine ⟨⟨RESP_MT_DATA, bytes.take RESP_MSG_SIZE⟩,
          .reading (bytes.drop RESP_MSG_SIZE), ?_, opened.tail ⟨.left, ?_⟩⟩
        · rw [answer, replies_cons empty]
          rfl
        · have fits := hasRoom_nil room ⟨RESP_MT_DATA, bytes.take RESP_MSG_SIZE⟩
            (List.length_take_le _ _)
          simp only [stepOf, serverStep, State.msgsnd, State.queueExists, blank, take_eq_nil,
            empty, fits, if_true, if_false]
          rfl

/-- A client that is served takes the first message. -/
theorem Correct.first (correct : Correct qbytes file mtype) (room : RESP_MSG_SIZE ≤ qbytes) :
    ∃ message server, answer file = message :: toSend file server ∧
      message.data.length ≤ REQ_MSG_SIZE ∧
      (transfer qbytes file mtype).Reachable
        ⟨server, [], (blank mtype).first message, [message], [message]⟩ := by
  obtain ⟨message, server, head, reachable⟩ := reachable_first room file mtype
  have short : message.data.length ≤ REQ_MSG_SIZE := by
    by_contra long
    have failed : (transfer qbytes file mtype).Reachable
        ⟨server, [message], { blank mtype with pc := .exited .msgrcvFailed }, [message], []⟩ :=
      reachable.tail ⟨.right, if_pos (Nat.not_le.mp long)⟩
    have served := correct.served _ failed _ rfl
    cases file with
    | none => cases served
    | some bytes =>
        obtain ⟨-, numMsgs, impossible⟩ := served
        cases impossible
  exact ⟨message, server, head, short,
    reachable.tail ⟨.right, if_neg (Nat.not_lt.mpr short)⟩⟩

/-- With a message type that makes the client go on, there has to be a second message. -/
theorem Correct.second (correct : Correct qbytes file RESP_MT_DATA) {message : Message}
    {server : Server}
    (reachable : (transfer qbytes file RESP_MT_DATA).Reachable
      ⟨server, [], (blank RESP_MT_DATA).first message, [message], [message]⟩) :
    toSend file server ≠ [] := by
  intro ended
  obtain ⟨after, side, step⟩ := correct.progress _ reachable rfl
  rw [toSend_eq_nil ended] at step
  cases side <;> cases step

theorem Lucky.of_correct (room : RESP_MSG_SIZE ≤ qbytes) (correct : Correct qbytes file mtype) :
    Lucky file mtype := by
  obtain ⟨message, server, head, short, reachable⟩ := correct.first room
  by_cases failure : mtype = RESP_MT_FAILURE
  · subst failure
    have served := correct.served _ reachable .failure rfl
    cases file with
    | none => rfl
    | some bytes =>
        obtain ⟨-, numMsgs, impossible⟩ := served
        cases impossible
  by_cases data : mtype = RESP_MT_DATA
  · subst data
    have more := correct.second reachable
    cases file with
    | none =>
        rw [answer, List.cons.injEq] at head
        exact absurd head.2.symm more
    | some bytes =>
        by_cases empty : bytes = []
        · rw [answer, empty, replies_nil, List.cons.injEq, ← empty] at head
          exact absurd head.2.symm more
        · rw [answer, replies_cons empty, List.cons.injEq] at head
          rw [← head.1, List.length_take] at short
          rw [Lucky, if_neg empty]
          refine ⟨rfl, ?_⟩
          simp only [REQ_MSG_SIZE, PATH_MAX, RESP_MSG_SIZE] at short ⊢
          omega
  · have exited : ((blank mtype).first message).pc =
        .exited (.received message.data.length 1) := by
      simp [Client.first, Client.loopTest, blank, failure, data]
    have served := correct.served _ reachable _ exited
    cases file with
    | none => cases served
    | some bytes =>
        obtain ⟨all, -⟩ := served
        by_cases empty : bytes = []
        · rw [Lucky, if_pos empty]
          exact ⟨failure, data⟩
        · rw [answer, replies_cons empty, List.cons.injEq] at all
          exact absurd all.2.symm (replies_ne_nil _)

end Lucky

/-- The client is served in every interleaving for exactly the contents of `resp` that
fit the first reply; so for no file, nor without one, is it served whatever they are. -/
theorem transfer_never_correct (qbytes : Nat) (room : RESP_MSG_SIZE ≤ qbytes)
    (file : Option (List UInt8)) :
    (∀ mtype, Correct qbytes file mtype ↔ Lucky file mtype) ∧
      ¬ ∀ mtype, Correct qbytes file mtype := by
  have iff (mtype : Int) : Correct qbytes file mtype ↔ Lucky file mtype :=
    ⟨.of_correct room, .of_lucky room⟩
  refine ⟨iff, fun always => ?_⟩
  cases file with
  | none =>
      have lucky : RESP_MT_END = RESP_MT_FAILURE := (iff RESP_MT_END).mp (always _)
      exact absurd lucky (by decide)
  | some bytes =>
      have lucky := (iff RESP_MT_FAILURE).mp (always _)
      rw [Lucky] at lucky
      split at lucky
      · exact lucky.1 rfl
      · exact absurd lucky.1 (by decide)

/-- The file of one byte is transferred only if `resp` happens to hold `RESP_MT_DATA`. -/
theorem transfer_never_correct_oneByte :
    (∀ mtype, Correct 16384 (some [65]) mtype ↔ Lucky (some [65]) mtype) ∧
      ¬ ∀ mtype, Correct 16384 (some [65]) mtype :=
  transfer_never_correct 16384 (by decide) (some [65])

/-- The first message of a file of 5000 bytes does not fit into `req`. -/
theorem transfer_fails_fiveThousand :
    ¬ Correct 16384 (some (List.replicate 5000 65)) RESP_MT_DATA := by
  intro correct
  have lucky := Lucky.of_correct (by decide) correct
  rw [Lucky, if_neg (by simp)] at lucky
  have short := lucky.2
  rw [List.length_replicate] at short
  exact absurd short (by decide)

end LinuxProgramming.Messages.FileTransfer
