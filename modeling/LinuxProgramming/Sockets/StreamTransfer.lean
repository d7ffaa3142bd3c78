import LinuxProgramming.Library.Rounds
import LinuxProgramming.Library.TransitionSystem
import LinuxProgramming.Library.WaitGraph

/-!
Contract: `us_xfr_sv` with any number of `us_xfr_cl` processes, on stream sockets.

Owns:
- both programs, one call at a time, with calls that fail at any time;
- what the server has written, in every run;
- runs in which no call fails: how long they go on, and what they wait for in the end.

Does not own: what is done before `connect` and before the first `accept`.
-/

namespace LinuxProgramming.Sockets.StreamTransfer

open LinuxProgramming.Library

def BUF_SIZE : Nat := 100

def BACKLOG : Nat := 5

/-! ### The two programs -/

/-- Where `main` of a client is. -/
inductive Pc where
  | connecting
  | reading
  | writing (buf : List UInt8)
  | exited (success : Bool)
deriving DecidableEq, Repr

/-- What a client has read and not yet written. -/
def Pc.carried : Pc → List UInt8
  | .writing buf => buf
  | _ => []

def Pc.isExited : Pc → Bool
  | .exited _ => true
  | _ => false

/-- A client with its standard input and its connection; all it has been given, all it has
written to the connection, and what the server has written of that. -/
structure Party where
  pc : Pc
  stdin : List UInt8
  eof : Bool
  queue : List UInt8
  typed : List UInt8
  sent : List UInt8
  passed : List UInt8
deriving DecidableEq, Repr

/-- Where the loop of the server is. -/
inductive Server (Client : Type) where
  | accepting
  | reading (client : Client)
  | writing (client : Client) (buf : List UInt8)
  | closing (client : Client)
  | exited
deriving DecidableEq

/-- The connections that wait, those accepted so far, and the standard output. -/
structure State (Client : Type) where
  server : Server Client
  backlog : List Client
  accepted : List Client
  output : List UInt8
  party : Client → Party

/-- The calls that succeed, those that fail, and what comes on a standard input. -/
inductive Action (Client : Type) where
  | client (client : Client) (count : Nat)
  | fail (client : Client)
  | server (count : Nat)
  | failServer (kept : Nat)
  | arrive (client : Client) (bytes : List UInt8)
  | finish (client : Client)

section Programs

variable {Client : Type} [DecidableEq Client]

def State.set (state : State Client) (client : Client) (party : Party) : State Client :=
  { state with party := Function.update state.party client party }

@[simp] theorem State.set_party (state : State Client) (client other : Client) (party : Party) :
    (state.set client party).party other =
      if other = client then party else state.party other :=
  Function.update_apply ..

/-- A call of a client. A `write` goes on until all is written. -/
def clientCall (capacity : Nat) (client : Client) (count : Nat) (state : State Client) :
    Option (State Client) :=
  let party := state.party client
  match party.pc with
  | .connecting =>
      -- the connection is there before the server accepts it
      if state.server ≠ .exited ∧ state.backlog.length ≤ BACKLOG then
        some { state.set client { party with pc := .reading } with
          backlog := state.backlog ++ [client] }
      else none
  | .reading =>
      if party.stdin = [] then
        if party.eof then some (state.set client { party with pc := .exited true }) else none
      else if 0 < count ∧ count ≤ BUF_SIZE ∧ count ≤ party.stdin.length then
        some (state.set client { party with
          pc := .writing (party.stdin.take count)
          stdin := party.stdin.drop count })
      else none
  | .writing buf =>
      if state.server ≠ .exited ∧ 0 < count ∧ count ≤ buf.length ∧
          party.queue.length + count ≤ capacity then
        some (state.set client { party with
          pc := if count = buf.length then .reading else .writing (buf.drop count)
          queue := party.queue ++ buf.take count
          sent := party.sent ++ buf.take count })
      else none
  | .exited _ => none

/-- A call of the server. -/
def serverCall (count : Nat) (state : State Client) : Option (State Client) :=
  match state.server with
  | .accepting =>
      match state.backlog with
      | [] => none
      | client :: rest =>
          some { state with
            server := .reading client
            backlog := rest
            accepted := state.accepted ++ [client] }
  | .reading client =>
      let party := state.party client
      if party.queue = [] then
        if party.pc.isExited then some { state with server := .closing client } else none
      else if 0 < count ∧ count ≤ BUF_SIZE ∧ count ≤ party.queue.length then
        some { state.set client { party with queue := party.queue.drop count } with
          server := .writing client (party.queue.take count) }
      else none
  | .writing client buf =>
      let party := state.party client
      some { state.set client { party with passed := party.passed ++ buf } with
        server := .reading client
        output := state.output ++ buf }
  | .closing _ => some { state with server := .accepting }
  | .exited => none

/-- Every failing call ends the server; a `write` may have written a part. -/
def serverFail (kept : Nat) (state : State Client) : Option (State Client) :=
  match state.server with
  | .exited => none
  | .writing client buf =>
      let party := state.party client
      some { state.set client { party with passed := party.passed ++ buf.take kept } with
        server := .exited
        output := state.output ++ buf.take kept }
  | _ => some { state with server := .exited }

def step (capacity : Nat) : Action Client → State Client → Option (State Client)
  | .client client count, state => clientCall capacity client count state
  | .fail client, state =>
      -- so does every failing call of a client
      if (state.party client).pc.isExited then none
      else some (state.set client { state.party client with pc := .exited false })
  | .server count, state => serverCall count state
  | .failServer kept, state => serverFail kept state
  | .arrive client bytes, state =>
      if (state.party client).eof then none
      else some (state.set client { state.party client with
        stdin := (state.party client).stdin ++ bytes
        typed := (state.party client).typed ++ bytes })
  | .finish client, state =>
      if (state.party client).eof then none
      else some (state.set client { state.party client with eof := true })

/-- The server is in its first `accept`. -/
def started : State Client where
  server := .accepting
  backlog := []
  accepted := []
  output := []
  party _ := ⟨.connecting, [], false, [], [], [], []⟩

/-- All runs. -/
def system (capacity : Nat) : TransitionSystem (State Client) :=
  labelled (· = started) (step capacity)

/-- What happens if no call fails. -/
def Clean : Action Client → State Client → Prop
  | .fail _, _ => False
  | .failServer _, _ => False
  | _, _ => True

instance (action : Action Client) (state : State Client) : Decidable (Clean action state) :=
  match action with
  | .fail _ | .failServer _ => isFalse id
  | .client _ _ | .server _ | .arrive _ _ | .finish _ => isTrue trivial

def cleanSystem (capacity : Nat) : TransitionSystem (State Client) :=
  labelledWhen (· = started) (step capacity) Clean

end Programs

/-! ### What a call can do -/

section Calls

variable {Client : Type} [DecidableEq Client] {capacity : Nat} {state after : State Client}
  {client : Client} {count : Nat}

inductive ClientCalled (capacity : Nat) (client : Client) (state : State Client) :
    State Client → Prop where
  | connected : (state.party client).pc = .connecting → state.server ≠ .exited →
      ClientCalled capacity client state
        { state.set client { state.party client with pc := .reading } with
          backlog := state.backlog ++ [client] }
  | ended : (state.party client).pc = .reading → (state.party client).stdin = [] →
      (state.party client).eof = true →
      ClientCalled capacity client state
        (state.set client { state.party client with pc := .exited true })
  | fetched (count : Nat) : (state.party client).pc = .reading → 0 < count →
      count ≤ (state.party client).stdin.length →
      ClientCalled capacity client state
        (state.set client { state.party client with
          pc := .writing ((state.party client).stdin.take count)
          stdin := (state.party client).stdin.drop count })
  | stored (count : Nat) (buf : List UInt8) : (state.party client).pc = .writing buf →
      state.server ≠ .exited → 0 < count → count ≤ buf.length →
      ClientCalled capacity client state
        (state.set client { state.party client with
          pc := if count = buf.length then .reading else .writing (buf.drop count)
          queue := (state.party client).queue ++ buf.take count
          sent := (state.party client).sent ++ buf.take count })

theorem clientCall_cases (called : clientCall capacity client count state = some after) :
    ClientCalled capacity client state after := by
  rw [clientCall] at called
  cases place : (state.party client).pc with
  | connecting =>
      rw [place] at called
      obtain ⟨⟨there, _⟩, rfl⟩ :=
        Option.ite_none_right_eq_some.mp called |>.imp_right Option.some.inj
      exact .connected place there
  | reading =>
      rw [place] at called
      dsimp only at called
      split at called
      case isTrue empty =>
        obtain ⟨eof, rfl⟩ := Option.ite_none_right_eq_some.mp called |>.imp_right Option.some.inj
        exact .ended place empty eof
      case isFalse =>
        obtain ⟨⟨positive, _, fits⟩, rfl⟩ :=
          Option.ite_none_right_eq_some.mp called |>.imp_right Option.some.inj
        exact .fetched count place positive fits
  | writing buf =>
      rw [place] at called
      obtain ⟨⟨there, positive, fits, _⟩, rfl⟩ :=
        Option.ite_none_right_eq_some.mp called |>.imp_right Option.some.inj
      exact .stored count buf place there positive fits
  | exited success =>
      rw [place] at called
      cases called

inductive ServerCalled (state : State Client) : State Client → Prop where
  | accepted (client : Client) (rest : List Client) : state.server = .accepting →
      state.backlog = client :: rest →
      ServerCalled state { state with
        server := .reading client
        backlog := rest
        accepted := state.accepted ++ [client] }
  | atEnd (client : Client) : state.server = .reading client →
      (state.party client).queue = [] → (state.party client).pc.isExited = true →
      ServerCalled state { state with server := .closing client }
  | fetched (client : Client) (count : Nat) : state.server = .reading client → 0 < count →
      count ≤ (state.party client).queue.length →
      ServerCalled state { state.set client { state.party client with
          queue := (state.party client).queue.drop count } with
        server := .writing client ((state.party client).queue.take count) }
  | stored (client : Client) (buf : List UInt8) : state.server = .writing client buf →
      ServerCalled state { state.set client { state.party client with
          passed := (state.party client).passed ++ buf } with
        server := .reading client
        output := state.output ++ buf }
  | closed (client : Client) : state.server = .closing client →
      ServerCalled state { state with server := .accepting }

theorem serverCall_cases (called : serverCall count state = some after) :
    ServerCalled state after := by
  rw [serverCall] at called
  cases place : state.server with
  | accepting =>
      rw [place] at called
      cases waiting : state.backlog with
      | nil => rw [waiting] at called; cases called
      | cons client rest =>
          rw [waiting] at called
          cases called
          exact .accepted client rest place waiting
  | reading client =>
      rw [place] at called
      dsimp only at called
      split at called
      case isTrue empty =>
        obtain ⟨left, rfl⟩ := Option.ite_none_right_eq_some.mp called |>.imp_right Option.some.inj
        exact .atEnd client place empty left
      case isFalse =>
        obtain ⟨⟨positive, _, fits⟩, rfl⟩ :=
          Option.ite_none_right_eq_some.mp called |>.imp_right Option.some.inj
        exact .fetched client count place positive fits
  | writing client buf =>
      rw [place] at called
      cases called
      exact .stored client buf place
  | closing client =>
      rw [place] at called
      cases called
      exact .closed client place
  | exited =>
      rw [place] at called
      cases called

end Calls

/-! ### What the server has written -/

/-- What the server has read from a client and not yet written. -/
def Server.carried {Client : Type} [DecidableEq Client] : Server Client → Client → List UInt8
  | .writing client buf, other => if other = client then buf else []
  | _, _ => []

/-- Whom the server is at. -/
def Server.current {Client : Type} : Server Client → Option Client
  | .reading client | .writing client _ | .closing client => some client
  | .accepting | .exited => none

/-- The client has gone, and everything it has sent is written. -/
def Served (party : Party) : Prop :=
  party.pc.isExited = true ∧ party.passed = party.sent

/-- What a client has been given is on its way, as long as it is there. -/
def Party.Sound (party : Party) : Prop :=
  match party.pc with
  | .exited success => party.sent <+: party.typed ∧
      (success = true → party.sent = party.typed ∧ party.eof = true)
  | pc => party.sent ++ pc.carried ++ party.stdin = party.typed

/-- One client after the other, each from its start and in order. -/
structure Sound {Client : Type} [DecidableEq Client] (state : State Client) : Prop where
  output : state.output = (state.accepted.map fun client => (state.party client).passed).flatten
  distinct : (state.accepted ++ state.backlog).Nodup
  connecting : ∀ client, (state.party client).pc = .connecting →
    client ∉ state.accepted ++ state.backlog
  fresh : ∀ client, client ∉ state.accepted → (state.party client).passed = []
  current : ∀ client, state.server.current = some client →
    ∃ before, state.accepted = before ++ [client]
  idle : state.server = .accepting → ∀ client ∈ state.accepted, Served (state.party client)
  closing : ∀ client, state.server = .closing client → Served (state.party client)
  earlier : ∀ client ∈ state.accepted.dropLast, Served (state.party client)
  party : ∀ client, (state.party client).Sound
  passing : state.server ≠ .exited → ∀ client, (state.party client).passed ++
    state.server.carried client ++ (state.party client).queue = (state.party client).sent
  inOrder : ∀ client, (state.party client).passed <+: (state.party client).sent

theorem Party.Sound.sent_first {party : Party} (sound : party.Sound) :
    party.sent <+: party.typed := by
  unfold Party.Sound at sound
  split at sound
  · exact sound.1
  · rw [← sound, List.append_assoc]
    exact List.prefix_append _ _

/-- More behind the last part is more at the end. -/
theorem flatten_map_append {Client : Type} {before : List Client} {client : Client}
    (isNew : client ∉ before) {first second : Client → List UInt8} (bytes : List UInt8)
    (here : second client = first client ++ bytes)
    (others : ∀ other, other ≠ client → second other = first other) :
    ((before ++ [client]).map second).flatten =
      ((before ++ [client]).map first).flatten ++ bytes := by
  have same : before.map second = before.map first :=
    List.map_congr_left fun other member => others other fun isClient => isNew (isClient ▸ member)
  rw [List.map_append, List.map_append, List.flatten_append, List.flatten_append, same]
  simp only [List.map_singleton, List.flatten_singleton, here, List.append_assoc]

section Steps

variable {Client : Type} [DecidableEq Client] {capacity : Nat} {state after : State Client}
  {client : Client}

theorem started_sound : Sound (started : State Client) where
  output := rfl
  distinct := List.nodup_nil
  connecting _ _ := List.not_mem_nil
  fresh _ _ := rfl
  current _ isCurrent := nomatch isCurrent
  idle _ _ member := nomatch member
  closing _ isClosing := nomatch isClosing
  earlier _ member := nomatch member
  party _ := rfl
  passing _ _ := rfl
  inOrder _ := List.prefix_rfl

/-- What changes at one client, while the server stays at the one it is at. -/
theorem Sound.update (sound : Sound state) {party : Party} (server : Server Client)
    (passed : party.passed = (state.party client).passed)
    (connecting : party.pc = .connecting → (state.party client).pc = .connecting)
    (served : Served (state.party client) → Served party) (isSound : party.Sound)
    (stays : server = state.server ∨ server.current = state.server.current ∧
      (∃ other, server.current = some other) ∧ ∀ other, server ≠ .closing other)
    (queued : server ≠ .exited → (state.party client).passed ++
      server.carried client ++ party.queue = party.sent)
    (others : ∀ other, other ≠ client → server.carried other = state.server.carried other)
    (inOrder : (state.party client).passed <+: party.sent) :
    Sound { state.set client party with server := server } := by
  have unmoved (other : Client) :
      ((state.set client party).party other).passed = (state.party other).passed := by
    rw [State.set_party]
    split
    case isTrue isClient => rw [passed, isClient]
    case isFalse => rfl
  have kept (other : Client) (before : Served (state.party other)) :
      Served ((state.set client party).party other) := by
    rw [State.set_party]
    split
    case isTrue isClient => exact served (isClient ▸ before)
    case isFalse => exact before
  exact {
    output := sound.output.trans (by simp only [unmoved]; rfl)
    distinct := sound.distinct
    connecting := fun other isConnecting => by
      rw [State.set_party] at isConnecting
      split at isConnecting
      case isTrue isClient => exact sound.connecting other (isClient ▸ connecting isConnecting)
      case isFalse => exact sound.connecting other isConnecting
    fresh := fun other outside => (unmoved other).trans (sound.fresh other outside)
    current := fun other isCurrent => by
      rcases stays with rfl | ⟨same, _⟩
      · exact sound.current other isCurrent
      · exact sound.current other (same.symm.trans isCurrent)
    idle := fun idle other member => by
      rcases stays with rfl | ⟨_, ⟨_, busy⟩, _⟩
      · exact kept other (sound.idle idle other member)
      · subst idle
        cases busy
    closing := fun other isClosing => by
      rcases stays with rfl | ⟨_, _, notClosing⟩
      · exact kept other (sound.closing other isClosing)
      · exact absurd isClosing (notClosing other)
    earlier := fun other member => kept other (sound.earlier other member)
    party := fun other => by
      rw [State.set_party]
      split
      · exact isSound
      · exact sound.party other
    passing := fun there other => by
      rw [State.set_party]
      split
      case isTrue isClient =>
        rw [isClient, passed]
        exact queued there
      case isFalse different =>
        rw [others other different]
        refine sound.passing (fun gone => ?_) other
        rcases stays with rfl | ⟨same, ⟨_, busy⟩, _⟩
        · exact there gone
        · rw [same, gone] at busy
          cases busy
    inOrder := fun other => by
      rw [unmoved, State.set_party]
      split
      case isTrue isClient =>
        rw [isClient]
        exact inOrder
      case isFalse => exact sound.inOrder other }

/-- A client that moves on by itself. -/
theorem Sound.set (sound : Sound state) {party : Party}
    (passed : party.passed = (state.party client).passed)
    (connecting : party.pc = .connecting → (state.party client).pc = .connecting)
    (served : Served (state.party client) → Served party) (isSound : party.Sound)
    (queued : state.server ≠ .exited → (state.party client).passed ++
      state.server.carried client ++ party.queue = party.sent)
    (inOrder : (state.party client).passed <+: party.sent) : Sound (state.set client party) :=
  sound.update state.server passed connecting served isSound (.inl rfl) queued
    (fun _ _ => rfl) inOrder

omit [DecidableEq Client] in
theorem not_served (there : (state.party client).pc.isExited = false) {party : Party}
    (served : Served (state.party client)) : Served party := by
  have left := served.1
  rw [there] at left
  cases left

theorem Sound.clientCall (sound : Sound state) {count : Nat}
    (called : clientCall capacity client count state = some after) : Sound after := by
  have isSound := sound.party client
  unfold Party.Sound at isSound
  cases clientCall_cases called with
  | connected place there =>
      rw [place] at isSound
      have moved : Sound (state.set client { state.party client with pc := .reading }) :=
        sound.set rfl nofun (not_served (by rw [place]; rfl)) isSound
          (fun there => sound.passing there client) (sound.inOrder client)
      have outside := sound.connecting client place
      exact { moved with
        distinct := by
          show (state.accepted ++ (state.backlog ++ [client])).Nodup
          rw [← List.append_assoc]
          exact sound.distinct.append (List.nodup_singleton client)
            (List.disjoint_singleton.mpr outside)
        connecting := fun other isConnecting => by
          show other ∉ state.accepted ++ (state.backlog ++ [client])
          rw [← List.append_assoc, List.mem_append, not_or, List.mem_singleton]
          refine ⟨moved.connecting other isConnecting, fun isClient => ?_⟩
          rw [isClient] at isConnecting
          simp only [State.set_party, if_pos] at isConnecting
          cases isConnecting }
  | ended place empty eof =>
      rw [place] at isSound
      have all : (state.party client).sent = (state.party client).typed := by
        rw [← isSound, empty, List.append_nil]
        exact (List.append_nil _).symm
      exact sound.set rfl nofun (not_served (by rw [place]; rfl))
        ⟨all ▸ List.prefix_rfl, fun _ => ⟨all, eof⟩⟩ (fun there => sound.passing there client)
        (sound.inOrder client)
  | fetched count place =>
      rw [place] at isSound
      refine sound.set rfl nofun (not_served (by rw [place]; rfl)) ?_
        (fun there => sound.passing there client) (sound.inOrder client)
      show (state.party client).sent ++ (state.party client).stdin.take count ++
        (state.party client).stdin.drop count = _
      rw [List.append_assoc, List.take_append_drop, ← isSound]
      exact congrArg (· ++ _) (List.append_nil _).symm
  | stored count buf place =>
      rw [place] at isSound
      refine sound.set rfl (fun isConnecting => ?_) (not_served (by rw [place]; rfl)) ?_
        (fun there => ?_) ((sound.inOrder client).trans (List.prefix_append _ _))
      · dsimp only at isConnecting
        split at isConnecting <;> cases isConnecting
      · unfold Party.Sound
        by_cases all : count = buf.length
        · rw [if_pos all]
          show (state.party client).sent ++ buf.take count ++ [] ++ _ = _
          rw [all, List.take_length, List.append_nil]
          exact isSound
        · rw [if_neg all]
          show (state.party client).sent ++ buf.take count ++ buf.drop count ++ _ = _
          rw [List.append_assoc _ (buf.take count), List.take_append_drop]
          exact isSound
      · rw [← List.append_assoc, sound.passing there client]

theorem Sound.fail (sound : Sound state) (there : (state.party client).pc.isExited = false) :
    Sound (state.set client { state.party client with pc := .exited false }) :=
  sound.set rfl nofun (not_served there) ⟨(sound.party client).sent_first, nofun⟩
    (fun there => sound.passing there client) (sound.inOrder client)

theorem Sound.arrive (sound : Sound state) (isOpen : (state.party client).eof = false)
    (bytes : List UInt8) :
    Sound (state.set client { state.party client with
      stdin := (state.party client).stdin ++ bytes
      typed := (state.party client).typed ++ bytes }) := by
  refine sound.set rfl id id ?_ (fun there => sound.passing there client) (sound.inOrder client)
  have isSound := sound.party client
  unfold Party.Sound at isSound ⊢
  dsimp only
  split
  case h_1 success place =>
    rw [place] at isSound
    refine ⟨isSound.1.trans (List.prefix_append _ _), fun isSuccess => ?_⟩
    have closed := (isSound.2 isSuccess).2
    rw [isOpen] at closed
    cases closed
  case h_2 notExited =>
    split at isSound
    case h_1 success place => exact absurd place (notExited success)
    case h_2 => rw [← List.append_assoc, isSound]

theorem Sound.finish (sound : Sound state) :
    Sound (state.set client { state.party client with eof := true }) := by
  refine sound.set rfl id id ?_ (fun there => sound.passing there client) (sound.inOrder client)
  have isSound := sound.party client
  unfold Party.Sound at isSound ⊢
  dsimp only
  split
  case h_1 success place =>
    rw [place] at isSound
    exact ⟨isSound.1, fun isSuccess => ⟨(isSound.2 isSuccess).1, rfl⟩⟩
  case h_2 notExited =>
    split at isSound
    case h_1 success place => exact absurd place (notExited success)
    case h_2 => exact isSound

/-- The server writes some of what it has read from the client it is at. -/
theorem Sound.pass (sound : Sound state) {buf : List UInt8}
    (place : state.server = .writing client buf) {bytes : List UInt8} (first : bytes <+: buf)
    {server : Server Client}
    (next : server = .exited ∨ server = .reading client ∧ bytes = buf) :
    Sound { state.set client { state.party client with
        passed := (state.party client).passed ++ bytes } with
      server := server
      output := state.output ++ bytes } := by
  obtain ⟨before, accepted⟩ := sound.current client (by rw [place]; rfl)
  have isNew : client ∉ before := by
    have distinct := (List.nodup_append.mp sound.distinct).1
    rw [accepted] at distinct
    exact fun member => (List.nodup_append.mp distinct).2.2 client member client
      (List.mem_singleton_self client) rfl
  have isMember : client ∈ state.accepted := by
    rw [accepted]
    exact List.mem_append_right _ (List.mem_singleton_self client)
  have sent : (state.party client).passed ++ buf ++ (state.party client).queue =
      (state.party client).sent := by
    have passing := sound.passing (by rw [place]; exact nofun) client
    rw [place, Server.carried, if_pos rfl] at passing
    exact passing
  have carried (other : Client) : server.carried other = [] := by
    rcases next with rfl | ⟨rfl, _⟩ <;> rfl
  have unmoved (other : Client) (different : other ≠ client) :
      (state.set client { state.party client with
        passed := (state.party client).passed ++ bytes }).party other = state.party other := by
    rw [State.set_party, if_neg different]
  have moved : (state.set client { state.party client with
      passed := (state.party client).passed ++ bytes }).party client =
        { state.party client with passed := (state.party client).passed ++ bytes } := by
    rw [State.set_party, if_pos rfl]
  exact {
    output := by
      show state.output ++ bytes = (state.accepted.map _).flatten
      rw [sound.output, accepted]
      refine (flatten_map_append isNew bytes ?_ fun other different => ?_).symm
      · rw [moved]
      · rw [unmoved other different]
    distinct := sound.distinct
    connecting := fun other isConnecting => by
      by_cases isClient : other = client
      · subst isClient
        rw [moved] at isConnecting
        exact sound.connecting other isConnecting
      · rw [unmoved other isClient] at isConnecting
        exact sound.connecting other isConnecting
    fresh := fun other outside => by
      rw [unmoved other fun isClient => outside (isClient ▸ isMember)]
      exact sound.fresh other outside
    current := fun other isCurrent => by
      rcases next with rfl | ⟨rfl, _⟩
      · cases isCurrent
      · cases isCurrent
        exact ⟨before, accepted⟩
    idle := fun idle => by
      rcases next with rfl | ⟨rfl, _⟩ <;> cases idle
    closing := fun other isClosing => by
      rcases next with rfl | ⟨rfl, _⟩ <;> cases isClosing
    earlier := fun other member => by
      have inBefore : other ∈ before := by
        change other ∈ state.accepted.dropLast at member
        rw [accepted, List.dropLast_concat] at member
        exact member
      rw [unmoved other fun isClient => isNew (isClient ▸ inBefore)]
      exact sound.earlier other member
    party := fun other => by
      by_cases isClient : other = client
      · subst isClient
        rw [moved]
        exact sound.party other
      · rw [unmoved other isClient]
        exact sound.party other
    passing := fun there other => by
      rw [carried, List.append_nil]
      rcases next with rfl | ⟨rfl, rfl⟩
      · exact absurd rfl there
      by_cases isClient : other = client
      · subst isClient
        rw [moved]
        exact sent
      · have passing := sound.passing (by rw [place]; exact nofun) other
        rw [place, Server.carried, if_neg isClient, List.append_nil] at passing
        rw [unmoved other isClient]
        exact passing
    inOrder := fun other => by
      by_cases isClient : other = client
      · subst isClient
        rw [moved, ← sent]
        exact ((List.prefix_append_right_inj _).mpr first).trans (List.prefix_append _ _)
      · rw [unmoved other isClient]
        exact sound.inOrder other }

theorem Sound.serverCall (sound : Sound state) {count : Nat}
    (called : serverCall count state = some after) : Sound after := by
  cases serverCall_cases called with
  | accepted client rest place waiting =>
      have passing (other : Client) := sound.passing (by rw [place]; exact nofun) other
      rw [place] at passing
      have same : state.accepted ++ [client] ++ rest = state.accepted ++ state.backlog := by
        rw [waiting, List.append_assoc]
        rfl
      have isNew : client ∉ state.accepted := fun member => by
        have distinct := sound.distinct
        rw [waiting] at distinct
        exact (List.nodup_append.mp distinct).2.2 client member client (List.mem_cons_self ..) rfl
      exact {
        output := by
          show state.output = ((state.accepted ++ [client]).map _).flatten
          rw [List.map_append, List.flatten_append, ← sound.output, List.map_singleton,
            sound.fresh client isNew]
          exact (List.append_nil _).symm
        distinct := same ▸ sound.distinct
        connecting := fun other isConnecting => same ▸ sound.connecting other isConnecting
        fresh := fun other outside =>
          sound.fresh other fun member => outside (List.mem_append_left _ member)
        current := fun other isCurrent => by
          cases isCurrent
          exact ⟨state.accepted, rfl⟩
        idle := nofun
        closing := nofun
        earlier := fun other member => by
          rw [List.dropLast_concat] at member
          exact sound.idle place other member
        party := sound.party
        passing := fun _ => passing
        inOrder := sound.inOrder }
  | atEnd client place empty left =>
      have passing (other : Client) := sound.passing (by rw [place]; exact nofun) other
      rw [place] at passing
      exact { sound with
        current := fun other isCurrent => sound.current other (by rw [place]; exact isCurrent)
        idle := nofun
        closing := fun other isClosing => by
          cases isClosing
          refine ⟨left, ?_⟩
          have all : (state.party client).passed ++ [] ++ (state.party client).queue =
              (state.party client).sent := passing client
          rw [empty, List.append_nil, List.append_nil] at all
          exact all
        passing := fun _ => passing }
  | fetched client count place =>
      have passing (other : Client) := sound.passing (by rw [place]; exact nofun) other
      rw [place] at passing
      refine sound.update _ rfl id (fun served => served) (sound.party client)
        (.inr ⟨by rw [place]; rfl, ⟨client, rfl⟩, nofun⟩) (fun _ => ?_)
        (fun other different => ?_) (sound.inOrder client)
      · rw [Server.carried, if_pos rfl, List.append_assoc, List.take_append_drop]
        have all : (state.party client).passed ++ [] ++ (state.party client).queue =
            (state.party client).sent := passing client
        rwa [List.append_nil] at all
      · rw [Server.carried, if_neg different, place]
        rfl
  | stored client buf place => exact sound.pass place List.prefix_rfl (.inr ⟨rfl, rfl⟩)
  | closed client place =>
      have passing (other : Client) := sound.passing (by rw [place]; exact nofun) other
      rw [place] at passing
      exact { sound with
        current := nofun
        idle := fun _ other member => by
          obtain ⟨before, accepted⟩ := sound.current client (by rw [place]; rfl)
          have last := sound.earlier other
          rw [accepted, List.dropLast_concat] at last
          rw [accepted, List.mem_append, List.mem_singleton] at member
          rcases member with inBefore | rfl
          · exact last inBefore
          · exact sound.closing other place
        closing := nofun
        passing := fun _ => passing }

/-- A server that ends while it is not writing. -/
theorem Sound.leave (sound : Sound state) : Sound { state with server := .exited } :=
  { sound with
    current := nofun
    idle := nofun
    closing := nofun
    passing := fun there => absurd rfl there }

/-- The step lemma. -/
theorem Sound.step (sound : Sound state) {action : Action Client}
    (stepped : step capacity action state = some after) : Sound after := by
  cases action with
  | client client count => exact sound.clientCall stepped
  | fail client =>
      obtain ⟨there, rfl⟩ := Option.ite_none_left_eq_some.mp stepped |>.imp_right Option.some.inj
      exact sound.fail (Bool.eq_false_iff.mpr there)
  | server count => exact sound.serverCall stepped
  | failServer kept =>
      rw [StreamTransfer.step, serverFail] at stepped
      cases place : state.server with
      | accepting => rw [place] at stepped; cases stepped; exact sound.leave
      | reading client => rw [place] at stepped; cases stepped; exact sound.leave
      | writing client buf =>
          rw [place] at stepped
          cases stepped
          exact sound.pass place (List.take_prefix _ _) (.inl rfl)
      | closing client => rw [place] at stepped; cases stepped; exact sound.leave
      | exited => rw [place] at stepped; cases stepped
  | arrive client bytes =>
      obtain ⟨isOpen, rfl⟩ := Option.ite_none_left_eq_some.mp stepped |>.imp_right Option.some.inj
      exact sound.arrive (Bool.eq_false_iff.mpr isOpen) bytes
  | finish client =>
      obtain ⟨_, rfl⟩ := Option.ite_none_left_eq_some.mp stepped |>.imp_right Option.some.inj
      exact sound.finish

theorem sound_inductive (capacity : Nat) :
    (system capacity : TransitionSystem (State Client)).Inductive Sound where
  init := by
    rintro state rfl
    exact started_sound
  step := by
    rintro before after sound ⟨action, _, stepped⟩
    exact sound.step stepped

end Steps

/-- In every run, whichever calls fail: the server has written what it has passed on of the
clients it accepted, one after the other, of each a first part of what was typed there.
Every client before the last one had ended by then and all it had sent was passed on; if it
ended well, that is all that was typed. -/
theorem output_inOrder {Client : Type} [DecidableEq Client] {capacity : Nat}
    {state : State Client} (reachable : (system capacity).Reachable state) :
    state.output = (state.accepted.map fun client => (state.party client).passed).flatten ∧
    state.accepted.Nodup ∧
    (∀ client, (state.party client).passed <+: (state.party client).typed) ∧
    ∀ client ∈ state.accepted.dropLast, ∃ success,
      (state.party client).pc = .exited success ∧
      (state.party client).passed = (state.party client).sent ∧
      (success = true → (state.party client).passed = (state.party client).typed) := by
  have sound := (sound_inductive capacity).holds reachable
  refine ⟨sound.output, (List.nodup_append.mp sound.distinct).1,
    fun client => (sound.inOrder client).trans (sound.party client).sent_first,
    fun client member => ?_⟩
  obtain ⟨left, all⟩ := sound.earlier client member
  have isSound := sound.party client
  unfold Party.Sound at isSound
  cases place : (state.party client).pc with
  | connecting => rw [place] at left; cases left
  | reading => rw [place] at left; cases left
  | writing buf => rw [place] at left; cases left
  | exited success =>
      rw [place] at isSound
      exact ⟨success, rfl, all, fun isSuccess => all.trans (isSound.2 isSuccess).1⟩

/-- Two clients, of which the first is killed in the middle. -/
theorem output_inOrder_killed :
    ∃ state : State Bool, (system 4).Reachable state ∧ state.output = [72, 105] ∧
      state.accepted = [true, false] ∧ state.accepted.Nodup := by
  have ran : runLabels (step 4)
      [.client true 0, .client false 0, .arrive true [72, 73], .client true 2, .client true 1,
        .arrive false [105], .client false 1, .client false 1, .fail true, .server 0, .server 1,
        .server 0, .server 0, .server 0, .server 0, .server 1, .server 0]
      (started : State Bool) = some _ := rfl
  have reachable : (system 4).Reachable _ := runLabels_reachable labelled_step (.of_init rfl) ran
  exact ⟨_, reachable, rfl, rfl, (output_inOrder reachable).2.1⟩

/-! ### Runs in which no call fails -/

/-- Nobody has failed, and who is not about to connect has been noted. -/
structure Settled {Client : Type} [DecidableEq Client] (state : State Client) : Prop where
  sound : Sound state
  there : state.server ≠ .exited
  pc : ∀ client, (state.party client).pc ≠ .exited false ∧ (state.party client).pc ≠ .writing []
  connected : ∀ client, (state.party client).pc = .connecting ∨
    client ∈ state.accepted ++ state.backlog

section Clean

variable {Client : Type} [DecidableEq Client] {capacity : Nat} {state after : State Client}
  {client : Client}

/-- What a call of a client does to it and to the others. -/
theorem ClientCalled.spec (called : ClientCalled capacity client state after) :
    (∀ other, other ≠ client → after.party other = state.party other) ∧
    after.server = state.server ∧ after.accepted = state.accepted ∧
    (after.party client).pc ≠ .exited false ∧ (after.party client).pc ≠ .writing [] ∧
    (after.backlog = state.backlog ∧ (state.party client).pc ≠ .connecting ∨
      after.backlog = state.backlog ++ [client]) := by
  have others (party : Party) (other : Client) (different : other ≠ client) :
      (state.set client party).party other = state.party other := by
    rw [State.set_party, if_neg different]
  have here (party : Party) : (state.set client party).party client = party := by
    rw [State.set_party, if_pos rfl]
  cases called with
  | connected place =>
      refine ⟨others _, rfl, rfl, ?_, ?_, .inr rfl⟩ <;>
      · dsimp only
        rw [here]
        exact nofun
  | ended place =>
      refine ⟨others _, rfl, rfl, ?_, ?_, .inl ⟨rfl, by rw [place]; exact nofun⟩⟩ <;>
      · rw [here]
        exact nofun
  | fetched count place positive fits =>
      refine ⟨others _, rfl, rfl, ?_, ?_, .inl ⟨rfl, by rw [place]; exact nofun⟩⟩
      · rw [here]
        exact nofun
      · rw [here]
        intro nothing
        have long := congrArg List.length (Pc.writing.inj nothing)
        rw [List.length_take_of_le fits, List.length_nil] at long
        omega
  | stored count buf place there positive fits =>
      refine ⟨others _, rfl, rfl, ?_, ?_, .inl ⟨rfl, by rw [place]; exact nofun⟩⟩
      · rw [here]
        dsimp only
        split <;> exact nofun
      · rw [here]
        dsimp only
        split
        · exact nofun
        case isFalse some_ =>
          intro nothing
          have long := List.drop_eq_nil_iff.mp (Pc.writing.inj nothing)
          omega

theorem set_pc {party : Party} (same : party.pc = (state.party client).pc) (other : Client) :
    ((state.set client party).party other).pc = (state.party other).pc := by
  rw [State.set_party]
  split
  case isTrue isClient => rw [same, isClient]
  case isFalse => rfl

/-- What a call of the server leaves as it is. -/
theorem ServerCalled.spec (called : ServerCalled state after) :
    (∀ client, (after.party client).pc = (state.party client).pc) ∧ after.server ≠ .exited ∧
    after.accepted ++ after.backlog = state.accepted ++ state.backlog := by
  cases called with
  | accepted client rest place waiting =>
      refine ⟨fun _ => rfl, nofun, ?_⟩
      rw [waiting, List.append_assoc]
      rfl
  | atEnd client place => exact ⟨fun _ => rfl, nofun, rfl⟩
  | fetched client count place => exact ⟨set_pc rfl, nofun, rfl⟩
  | stored client buf place => exact ⟨set_pc rfl, nofun, rfl⟩
  | closed client place => exact ⟨fun _ => rfl, nofun, rfl⟩

/-- What changes at a client without a call of it. -/
theorem Settled.set (settled : Settled state) {party : Party}
    (sound : Sound (state.set client party)) (same : party.pc = (state.party client).pc) :
    Settled (state.set client party) where
  sound := sound
  there := settled.there
  pc other := set_pc same other ▸ settled.pc other
  connected other := set_pc same other ▸ settled.connected other

theorem started_settled : Settled (started : State Client) where
  sound := started_sound
  there := nofun
  pc _ := ⟨nofun, nofun⟩
  connected _ := .inl rfl

/-- The step lemma. -/
theorem Settled.step (settled : Settled state) {action : Action Client}
    (clean : Clean action state) (stepped : step capacity action state = some after) :
    Settled after := by
  have sound := settled.sound.step stepped
  cases action with
  | client client count =>
      obtain ⟨others, server, accepted, succeeds, loaded, backlog⟩ :=
        (clientCall_cases stepped).spec
      refine ⟨sound, server ▸ settled.there, fun other => ?_, fun other => ?_⟩
      · by_cases isClient : other = client
        · exact isClient ▸ ⟨succeeds, loaded⟩
        · rw [others other isClient]
          exact settled.pc other
      · rw [accepted]
        by_cases isClient : other = client
        · subst isClient
          right
          rcases backlog with ⟨same, place⟩ | more
          · rw [same]
            exact (settled.connected other).resolve_left place
          · rw [more, ← List.append_assoc]
            exact List.mem_append_right _ (List.mem_singleton_self other)
        · rw [others other isClient]
          rcases settled.connected other with isConnecting | member
          · exact .inl isConnecting
          · right
            rcases backlog with ⟨same, _⟩ | more
            · rw [same]
              exact member
            · rw [more, ← List.append_assoc]
              exact List.mem_append_left _ member
  | fail client => cases clean
  | server count =>
      obtain ⟨kept, there, same⟩ := (serverCall_cases stepped).spec
      refine ⟨sound, there, fun client => ?_, fun client => ?_⟩
      · rw [kept]
        exact settled.pc client
      · rw [kept, same]
        exact settled.connected client
  | failServer kept => cases clean
  | arrive client bytes =>
      obtain ⟨_, rfl⟩ := Option.ite_none_left_eq_some.mp stepped |>.imp_right Option.some.inj
      exact settled.set sound rfl
  | finish client =>
      obtain ⟨_, rfl⟩ := Option.ite_none_left_eq_some.mp stepped |>.imp_right Option.some.inj
      exact settled.set sound rfl

theorem settled_inductive (capacity : Nat) :
    (cleanSystem capacity : TransitionSystem (State Client)).Inductive Settled where
  init := by
    rintro state rfl
    exact started_settled
  step := by
    rintro before after settled ⟨action, clean, stepped⟩
    exact settled.step clean stepped

/-! #### What a run waits for -/

/-- A call of a client, or of the server. -/
def call (capacity : Nat) : Option Client × Nat → State Client → Option (State Client)
  | (some client, count), state => clientCall capacity client count state
  | (none, count), state => serverCall count state

/-- No call goes on. -/
def Halted (capacity : Nat) (state : State Client) : Prop :=
  ∀ made, call capacity made state = none

/-- The server waits for a client that waits for its standard input. -/
def HeldUp (client : Client) (state : State Client) : Prop :=
  state.server = .reading client ∧ (state.party client).pc = .reading ∧
  (state.party client).stdin = [] ∧ (state.party client).eof = false ∧
  (state.party client).queue = []

/-- Without a failing call, and with nothing typed at this client. -/
def WithoutInput (client : Client) (action : Action Client) (state : State Client) : Prop :=
  Clean action state ∧ action ≠ .finish client ∧ ∀ bytes, action ≠ .arrive client bytes

/-- While nothing is typed at that client, the server makes no call. -/
theorem HeldUp.step (held : HeldUp client state) {action : Action Client}
    (without : WithoutInput client action state)
    (stepped : step capacity action state = some after) :
    HeldUp client after ∧ after.output = state.output := by
  obtain ⟨server, place, stdin, isOpen, queue⟩ := held
  have kept (other : Client) (different : client ≠ other) (party : Party) :
      (state.set other party).party client = state.party client := by
    rw [State.set_party, if_neg different]
  obtain ⟨clean, notFinish, notArrive⟩ := without
  cases action with
  | client other count =>
      have different : client ≠ other := by
        rintro rfl
        rw [StreamTransfer.step, clientCall, place] at stepped
        dsimp only at stepped
        rw [if_pos stdin, isOpen] at stepped
        cases stepped
      obtain ⟨others, server', _⟩ := (clientCall_cases stepped).spec
      refine ⟨?_, ?_⟩
      · rw [HeldUp, others client different, server']
        exact ⟨server, place, stdin, isOpen, queue⟩
      · cases clientCall_cases stepped <;> rfl
  | fail other => cases clean
  | server count =>
      rw [StreamTransfer.step, serverCall, server] at stepped
      dsimp only at stepped
      rw [if_pos queue, place] at stepped
      cases stepped
  | failServer => cases clean
  | arrive other bytes =>
      have different : client ≠ other := by
        rintro rfl
        exact notArrive bytes rfl
      obtain ⟨_, rfl⟩ := Option.ite_none_left_eq_some.mp stepped |>.imp_right Option.some.inj
      refine ⟨?_, rfl⟩
      rw [HeldUp, kept other different]
      exact ⟨server, place, stdin, isOpen, queue⟩
  | finish other =>
      have different : client ≠ other := by
        rintro rfl
        exact notFinish rfl
      obtain ⟨_, rfl⟩ := Option.ite_none_left_eq_some.mp stepped |>.imp_right Option.some.inj
      refine ⟨?_, rfl⟩
      rw [HeldUp, kept other different]
      exact ⟨server, place, stdin, isOpen, queue⟩

theorem HeldUp.follows (held : HeldUp client state) {later : State Client}
    (reachable : (labelledWhen (· = state) (StreamTransfer.step capacity)
      (WithoutInput client)).Reachable later) : later.output = state.output := by
  have kept : (labelledWhen (· = state) (StreamTransfer.step capacity)
      (WithoutInput client)).Inductive
      fun later => HeldUp client later ∧ later.output = state.output := {
    init := by
      rintro first rfl
      exact ⟨held, rfl⟩
    step := by
      rintro before after ⟨there, same⟩ ⟨action, without, stepped⟩
      obtain ⟨there', same'⟩ := there.step without stepped
      exact ⟨there', same'.trans same⟩ }
  exact (kept.holds reachable).2

/-- Nothing goes on when all is done, or while the server waits for the standard input of
the client it is at. -/
theorem Settled.halted_cases (settled : Settled state) (positive : 0 < capacity)
    (halted : Halted capacity state) :
    (state.server = .accepting ∧ ∀ client,
      (state.party client).pc = .exited true ∧ client ∈ state.accepted) ∨
    ∃ client, HeldUp client state := by
  have sound := settled.sound
  cases place : state.server with
  | accepting =>
      have nobody : state.backlog = [] := by
        have none_ := halted (none, 0)
        rw [call, serverCall, place] at none_
        dsimp only at none_
        split at none_
        case h_1 empty => exact empty
        case h_2 => cases none_
      refine .inl ⟨rfl, fun client => ?_⟩
      have member : client ∈ state.accepted := by
        rcases settled.connected client with isConnecting | member
        · have none_ := halted (some client, 0)
          rw [call, clientCall, isConnecting] at none_
          dsimp only at none_
          rw [if_pos ⟨settled.there, by rw [nobody]; exact Nat.zero_le _⟩] at none_
          cases none_
        · rwa [nobody, List.append_nil] at member
      refine ⟨?_, member⟩
      have left := (sound.idle place client member).1
      cases pc : (state.party client).pc with
      | connecting => rw [pc] at left; cases left
      | reading => rw [pc] at left; cases left
      | writing buf => rw [pc] at left; cases left
      | exited success =>
          cases success with
          | true => rfl
          | false => exact absurd pc (settled.pc client).1
  | reading client =>
      refine .inr ⟨client, place, ?_⟩
      have reads (count : Nat) := halted (none, count)
      simp only [call, serverCall, place] at reads
      have queue : (state.party client).queue = [] := by
        by_contra bytes
        have none_ := reads 1
        rw [if_neg bytes, if_pos ⟨Nat.one_pos, by decide, List.length_pos_iff.mpr bytes⟩] at none_
        cases none_
      have stays : (state.party client).pc.isExited = false := by
        have none_ := reads 0
        rw [if_pos queue] at none_
        exact Bool.eq_false_iff.mpr fun left => by rw [if_pos left] at none_; cases none_
      obtain ⟨before, accepted⟩ := sound.current client (by rw [place]; rfl)
      have calls (count : Nat) := halted (some client, count)
      simp only [call, clientCall] at calls
      cases pc : (state.party client).pc with
      | connecting =>
          refine absurd (List.mem_append_left _ ?_) (sound.connecting client pc)
          rw [accepted]
          exact List.mem_append_right _ (List.mem_singleton_self client)
      | reading =>
          simp only [pc] at calls
          have stdin : (state.party client).stdin = [] := by
            by_contra bytes
            have none_ := calls 1
            rw [if_neg bytes, if_pos ⟨Nat.one_pos, by decide, List.length_pos_iff.mpr bytes⟩]
              at none_
            cases none_
          have none_ := calls 0
          rw [if_pos stdin] at none_
          refine ⟨rfl, stdin, Bool.eq_false_iff.mpr fun eof => ?_, queue⟩
          rw [if_pos eof] at none_
          cases none_
      | writing buf =>
          simp only [pc] at calls
          have loaded : buf ≠ [] := fun nothing => (settled.pc client).2 (nothing ▸ pc)
          have none_ := calls 1
          rw [if_pos ⟨settled.there, Nat.one_pos, List.length_pos_iff.mpr loaded, by
            rw [queue]; exact positive⟩] at none_
          cases none_
      | exited success => rw [pc] at stays; cases stays
  | writing client buf =>
      have none_ := halted (none, 0)
      rw [call, serverCall, place] at none_
      cases none_
  | closing client =>
      have none_ := halted (none, 0)
      rw [call, serverCall, place] at none_
      cases none_
  | exited => exact absurd place settled.there

/-! #### How long a run goes on -/

def Pc.weight : Pc → Nat
  | .connecting => 5
  | .reading => 1
  | .writing _ => 1
  | .exited _ => 0

def Server.weight : Server Client → Nat
  | .accepting => 0
  | .reading _ => 2
  | .writing _ _ => 3
  | .closing _ => 1
  | .exited => 0

/-- The calls that are left for a client, each byte with what is left of its way. -/
def Party.work (party : Party) : Nat :=
  party.pc.weight + 4 * party.stdin.length + 3 * party.pc.carried.length + 2 * party.queue.length

/-- A bound for the calls that are left. -/
def callsLeft [Fintype Client] (state : State Client) : Nat :=
  ∑ client, (state.party client).work + 3 * state.backlog.length + state.server.weight

/-- A change at one client, among those that wait, and at the server. -/
theorem callsLeft_update [Fintype Client] (client : Client) (party : Party)
    (backlog : List Client) (server : Server Client) (output : List UInt8)
    (less : party.work + 3 * backlog.length + server.weight <
      (state.party client).work + 3 * state.backlog.length + state.server.weight) :
    callsLeft { state.set client party with
      server := server
      backlog := backlog
      output := output } < callsLeft state := by
  have others : ∀ other, other ≠ client →
      ((state.set client party).party other).work = (state.party other).work := by
    intro other different
    rw [State.set_party, if_neg different]
  have sums := sum_add_eq_sum_add client others
  rw [State.set_party, if_pos rfl] at sums
  show ∑ other, ((state.set client party).party other).work + 3 * backlog.length + server.weight <
    ∑ other, (state.party other).work + 3 * state.backlog.length + state.server.weight
  omega

/-- The step lemma. -/
theorem callsLeft_lt [Fintype Client] {made : Option Client × Nat}
    (called : call capacity made state = some after) : callsLeft after < callsLeft state := by
  obtain ⟨who, count⟩ := made
  cases who with
  | some client =>
      cases clientCall_cases called with
      | connected place =>
          apply callsLeft_update client _ _ state.server state.output
          simp only [Party.work, place, Pc.weight, Pc.carried, List.length_append,
            List.length_singleton]
          omega
      | ended place =>
          apply callsLeft_update client _ state.backlog state.server state.output
          simp only [Party.work, place, Pc.weight, Pc.carried]
          omega
      | fetched count place positive fits =>
          apply callsLeft_update client _ state.backlog state.server state.output
          simp only [Party.work, place, Pc.weight, Pc.carried, List.length_take_of_le fits,
            List.length_drop, List.length_nil]
          omega
      | stored count buf place there positive fits =>
          apply callsLeft_update client _ state.backlog state.server state.output
          by_cases all : count = buf.length
          · rw [if_pos all]
            simp only [Party.work, place, Pc.weight, Pc.carried, List.length_append,
              List.length_take_of_le fits, List.length_nil]
            omega
          · rw [if_neg all]
            simp only [Party.work, place, Pc.weight, Pc.carried, List.length_append,
              List.length_take_of_le fits, List.length_drop]
            omega
  | none =>
      cases serverCall_cases called with
      | accepted client rest place waiting =>
          simp only [callsLeft, place, waiting, Server.weight, List.length_cons]
          omega
      | atEnd client place empty =>
          simp only [callsLeft, place, Server.weight]
          omega
      | fetched client count place positive fits =>
          apply callsLeft_update client _ state.backlog _ state.output
          simp only [Party.work, place, Server.weight, List.length_drop]
          omega
      | stored client buf place =>
          apply callsLeft_update client _ state.backlog
          simp only [Party.work, place, Server.weight]
          omega
      | closed client place =>
          simp only [callsLeft, place, Server.weight]
          omega

end Clean

/-- In every run in which no call fails. From any state on, the programs make a bounded
number of calls for what is there. Where no call goes on, either every client has ended
well, in the order in which they were accepted, and the output is all that was typed; or
the server waits for a client that waits for its standard input and has passed on all that
was typed there: until more is typed there, nothing is written, whatever the other
clients have, and of the clients not yet accepted nothing has been written at all. -/
theorem transfer_halts {Client : Type} [DecidableEq Client] [Fintype Client] {capacity : Nat}
    {state : State Client} (reachable : (cleanSystem capacity).Reachable state) :
    (∃ bound, ∀ (calls : List (Option Client × Nat)) later,
      runLabels (call capacity) calls state = some later → calls.length ≤ bound) ∧
    (0 < capacity → Halted capacity state →
      ((∀ client, (state.party client).pc = .exited true ∧ client ∈ state.accepted) ∧
        state.output = (state.accepted.map fun client => (state.party client).typed).flatten) ∨
      ∃ client, state.server = .reading client ∧
        (state.party client).passed = (state.party client).typed ∧
        (∀ other, other ∉ state.accepted → (state.party other).passed = []) ∧
        ∀ later, (labelledWhen (· = state) (step capacity)
          (WithoutInput client)).Reachable later → later.output = state.output) := by
  have settled := (settled_inductive capacity).holds reachable
  have sound := settled.sound
  refine ⟨⟨callsLeft state, fun calls later ran =>
    length_le_measure callsLeft (fun _ _ _ called => callsLeft_lt called) ran⟩, ?_⟩
  intro positive halted
  rcases settled.halted_cases positive halted with ⟨place, ended⟩ | ⟨client, held⟩
  · refine .inl ⟨ended, sound.output.trans (congrArg List.flatten ?_)⟩
    apply List.map_congr_left
    intro client member
    have isSound := sound.party client
    rw [Party.Sound, (ended client).1] at isSound
    exact (sound.idle place client member).2.trans (isSound.2 rfl).1
  · have stuck : ∀ later, (labelledWhen (· = state) (step capacity)
        (WithoutInput client)).Reachable later → later.output = state.output :=
      fun _ reachable => held.follows reachable
    obtain ⟨place, pc, stdin, _, queue⟩ := held
    refine .inr ⟨client, place, ?_, sound.fresh, stuck⟩
    have isSound := sound.party client
    rw [Party.Sound, pc] at isSound
    have passing : (state.party client).passed ++ [] ++ (state.party client).queue =
        (state.party client).sent := by
      have passing := sound.passing settled.there client
      rw [place] at passing
      exact passing
    rw [queue, List.append_nil, List.append_nil] at passing
    rw [passing, ← isSound, stdin, List.append_nil]
    exact (List.append_nil _).symm

/-- The second client has sent a byte, but the first one has not come to its end. -/
theorem transfer_halts_heldUp :
    ∃ state : State Bool, (cleanSystem 4).Reachable state ∧ state.output = [72] ∧
      (state.party false).sent = [105] ∧
      ∃ client, state.server = .reading client ∧
        (state.party client).passed = (state.party client).typed := by
  obtain ⟨state, ran, server, first, second, output⟩ : ∃ state, runLabels (guarded (step 4) Clean)
      [.client true 0, .client false 0, .arrive true [72], .arrive false [105], .client true 1,
        .client true 1, .client false 1, .client false 1, .server 0, .server 1, .server 0]
      started = some state ∧ state.server = .reading true ∧
      state.party true = ⟨.reading, [], false, [], [72], [72], [72]⟩ ∧
      state.party false = ⟨.reading, [], false, [105], [105], [105], []⟩ ∧ state.output = [72] :=
    ⟨_, rfl, rfl, rfl, rfl, rfl⟩
  have reachable : (cleanSystem 4).Reachable state :=
    runLabels_reachable (fun _ _ _ => guarded_step) (.of_init rfl) ran
  have halted : Halted 4 state := by
    intro made
    obtain ⟨who, count⟩ := made
    rcases who with _ | _ | _
    · simp [call, serverCall, server, first, Pc.isExited]
    · simp [call, clientCall, second]
    · simp [call, clientCall, first]
  refine ⟨state, reachable, output, by rw [second], ?_⟩
  rcases (transfer_halts reachable).2 (Nat.succ_pos 3) halted with
    ⟨ended, _⟩ | ⟨client, serves, all, _⟩
  · have left := (ended true).1
    rw [first] at left
    cases left
  · exact ⟨client, serves, all⟩

end LinuxProgramming.Sockets.StreamTransfer
