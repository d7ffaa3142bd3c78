import LinuxProgramming.Library.TransitionSystem

/-!
Contract: the service loop of `tcp_udp_echo`, one server for two sockets.

Owns:
- the loop and `handler_request`, one system call at a time, over any results of the
  calls;
- which runs serve every connection they accept and every datagram they are told of.

Does not own: the set-up of the two sockets, or what a client sees. The kernel gives out
no descriptor that is open, and `select` without a timeout returns no empty set.
-/

namespace LinuxProgramming.Sockets.TcpUdpEcho

open LinuxProgramming.Library

def BUF_SIZE : Nat := 1024

/-- How the next system call ends; `interrupted` tells that `errno` is `EINTR`. -/
inductive Outcome where
  | selectFailed (interrupted : Bool)
  /-- Which of the two sockets are in `readfds`. -/
  | selected (tcp udp : Bool)
  | acceptFailed
  | accepted (fd : Nat)
  | recvfromFailed
  | received (data : List UInt8)
  | sendtoFailed (interrupted : Bool)
  | sent (numWrite : Nat)
deriving DecidableEq, Repr

/-- Where `handler_request` is. -/
inductive HandlerPc where
  | recvfrom
  /-- In the loop, with the bytes from `ptr` on. -/
  | sendto (data : List UInt8)
deriving DecidableEq, Repr

inductive Pc where
  | select
  /-- At `accept`; `udp` is what the second `FD_ISSET` will be. -/
  | accept (udp : Bool)
  | handler (pc : HandlerPc)
  | exited
deriving DecidableEq, Repr

/-- The server. The loop has come to its round `round`; `accepted` holds the descriptors of
the connections, `handed` the calls of `handler_request` with their rounds, and `udpReady`
the rounds in which the UDP socket was reported ready. -/
structure State where
  pc : Pc
  lfd : Option Nat
  round : Nat
  accepted : List Nat
  handed : List (Nat × Nat)
  udpReady : List Nat
deriving DecidableEq, Repr

/-- One call of `handler_request`; `some none` is its return. -/
def handlerRequest : HandlerPc → Outcome → Option (Option HandlerPc)
  | .recvfrom, .recvfromFailed => some none
  | .recvfrom, .received data =>
      if data.length ≤ BUF_SIZE then some (some (.sendto data)) else none
  | .sendto data, .sendtoFailed interrupted =>
      if interrupted then some (some (.sendto data)) else some none
  | .sendto data, .sent numWrite =>
      if numWrite ≤ data.length then
        if numWrite < data.length then some (some (.sendto (data.drop numWrite)))
        else some none
      else none
  | _, _ => none

/-- `handler_request(lfd)` is called. -/
def State.serve (state : State) (lfd : Nat) : State :=
  { state with
    pc := .handler .recvfrom
    lfd := some lfd
    handed := (state.round, lfd) :: state.handed }

section Server

variable (tcpFd udpFd : Nat)

/-- `accept` returns a descriptor that is not in use. The server closes none. -/
def State.Unused (state : State) (fd : Nat) : Prop :=
  fd ≠ tcpFd ∧ fd ≠ udpFd ∧ fd ∉ state.accepted

instance (state : State) (fd : Nat) : Decidable (state.Unused tcpFd udpFd fd) :=
  inferInstanceAs (Decidable (_ ∧ _ ∧ _))

/-- The server goes on with the next system call. -/
def step (outcome : Outcome) (state : State) : Option State :=
  match state.pc, outcome with
  | .select, .selectFailed interrupted =>
      if interrupted then some state else some { state with pc := .exited }
  | .select, .selected tcp udp =>
      let state := { state with
        round := state.round + 1
        udpReady := if udp then (state.round + 1) :: state.udpReady else state.udpReady }
      if tcp then some { state with pc := .accept udp }
      else if udp then some (state.serve udpFd)
      else none
  | .accept _, .acceptFailed => some { state with pc := .exited }
  | .accept udp, .accepted fd =>
      if state.Unused tcpFd udpFd fd then
        let state := { state with accepted := fd :: state.accepted }
        some (state.serve (if udp then udpFd else fd))
      else none
  | .handler pc, outcome =>
      match handlerRequest pc outcome with
      | none => none
      | some none => some { state with pc := .select }
      | some (some next) => some { state with pc := .handler next }
  | _, _ => none

/-- Both sockets are set up; `lfd` is not assigned. -/
def initial : State :=
  ⟨.select, none, 0, [], [], []⟩

/-! ### What the server is for -/

/-- `handler_request` has been called with this descriptor. -/
def State.Handed (state : State) (fd : Nat) : Prop :=
  ∃ round, (round, fd) ∈ state.handed

/-- An accepted connection has been handed over, or its descriptor is still at hand; a
datagram that was reported has been handled in its round, or the round goes on. -/
structure Serves (state : State) : Prop where
  connections : ∀ fd ∈ state.accepted, state.Handed fd ∨ state.lfd = some fd
  datagrams : ∀ round ∈ state.udpReady, (round, udpFd) ∈ state.handed ∨
    round = state.round ∧ state.pc = .accept true

/-! ### What a step can do -/

/-- The round that `select` opens. -/
def State.opened (state : State) (udp : Bool) : State :=
  { state with
    round := state.round + 1
    udpReady := if udp then (state.round + 1) :: state.udpReady else state.udpReady }

/-- The steps by what they do to the records. -/
inductive Move : Outcome → State → State → Prop where
  /-- `select` fails, or `handler_request` goes on or returns. -/
  | quiet {outcome : Outcome} {state : State} (pc : Pc) (before : ∀ udp, state.pc ≠ .accept udp)
      (after : ∀ udp, pc ≠ .accept udp) (one : outcome ≠ .selected true true) :
      Move outcome state { state with pc := pc }
  | selectTcp {state : State} (udp : Bool) (before : state.pc = .select) :
      Move (.selected true udp) state { state.opened udp with pc := .accept udp }
  | selectUdp {state : State} (before : state.pc = .select) :
      Move (.selected false true) state ((state.opened true).serve udpFd)
  | refuse {state : State} (udp : Bool) (before : state.pc = .accept udp) :
      Move .acceptFailed state { state with pc := .exited }
  | accept {state : State} (udp : Bool) (fd : Nat) (before : state.pc = .accept udp)
      (unused : state.Unused tcpFd udpFd fd) :
      Move (.accepted fd) state
        ({ state with accepted := fd :: state.accepted }.serve (if udp then udpFd else fd))

variable {tcpFd udpFd} {state next : State} {outcome : Outcome}

theorem step_move (stepped : step tcpFd udpFd outcome state = some next) :
    Move tcpFd udpFd outcome state next := by
  unfold step at stepped
  split at stepped
  case h_1 interrupted atSelect =>
      split at stepped
      · cases stepped
        exact .quiet state.pc (by simp [atSelect]) (by simp [atSelect]) (by simp)
      · cases stepped
        exact .quiet .exited (by simp [atSelect]) (by simp) (by simp)
  case h_2 tcp udp atSelect =>
      cases tcp <;> cases udp <;> cases stepped
      · exact .selectUdp atSelect
      · exact .selectTcp false atSelect
      · exact .selectTcp true atSelect
  case h_3 udp atAccept =>
      cases stepped
      exact .refuse udp atAccept
  case h_4 udp fd atAccept =>
      rw [Option.ite_none_right_eq_some] at stepped
      cases stepped.2
      exact .accept udp fd atAccept stepped.1
  case h_5 outcome _ _ pc inHandler =>
      have one : outcome ≠ .selected true true := by
        rintro rfl
        cases pc <;> cases stepped
      split at stepped
      · cases stepped
      · cases stepped
        exact .quiet .select (by simp [inHandler]) (by simp) one
      · cases stepped
        exact .quiet _ (by simp [inHandler]) (by simp) one
  case h_6 => cases stepped

/-! ### Rounds in which one socket is ready -/

/-- What holds while no round has had both sockets ready. -/
structure Prompt (udpFd : Nat) (state : State) : Prop where
  connections : ∀ fd ∈ state.accepted, state.Handed fd
  datagrams : ∀ round ∈ state.udpReady, (round, udpFd) ∈ state.handed
  alone : state.pc ≠ .accept true

theorem Prompt.serves (prompt : Prompt udpFd state) : Serves udpFd state where
  connections fd member := .inl (prompt.connections fd member)
  datagrams round member := .inl (prompt.datagrams round member)

theorem Prompt.initial : Prompt udpFd initial where
  connections := by simp [TcpUdpEcho.initial]
  datagrams := by simp [TcpUdpEcho.initial]
  alone := by decide

/-- A step that reports one socket at most serves what it accepts or is told of. -/
theorem Prompt.step (prompt : Prompt udpFd state) (one : outcome ≠ .selected true true)
    (stepped : step tcpFd udpFd outcome state = some next) : Prompt udpFd next := by
  obtain ⟨connections, datagrams, alone⟩ := prompt
  cases step_move stepped with
  | quiet pc before after _ => exact ⟨connections, datagrams, after true⟩
  | selectTcp udp before =>
      cases udp with
      | false => exact ⟨connections, datagrams, by simp⟩
      | true => exact absurd rfl one
  | selectUdp before =>
      refine ⟨?_, ?_, by simp [State.serve]⟩
      · intro fd member
        obtain ⟨round, handed⟩ := connections fd member
        exact ⟨round, List.mem_cons_of_mem _ handed⟩
      · intro round member
        cases member with
        | head => exact List.mem_cons_self
        | tail _ member => exact List.mem_cons_of_mem _ (datagrams round member)
  | refuse udp before => exact ⟨connections, datagrams, by simp⟩
  | accept udp fd before unused =>
      cases udp with
      | true => exact absurd before alone
      | false =>
          refine ⟨?_, ?_, by simp [State.serve]⟩
          · intro other member
            cases member with
            | head => exact ⟨state.round, List.mem_cons_self⟩
            | tail _ member =>
                obtain ⟨round, handed⟩ := connections other member
                exact ⟨round, List.mem_cons_of_mem _ handed⟩
          · intro round member
            exact List.mem_cons_of_mem _ (datagrams round member)

/-! ### Rounds in which both are ready -/

/-- The records agree: what is handed over is the UDP socket or an accepted connection, in
a round that has come, and a round that is at `accept` has handed over nothing yet. -/
structure Consistent (udpFd : Nat) (state : State) : Prop where
  known : ∀ round fd, (round, fd) ∈ state.handed → fd = udpFd ∨ fd ∈ state.accepted
  come : ∀ round fd, (round, fd) ∈ state.handed → round ≤ state.round
  early : ∀ udp, state.pc = .accept udp → ∀ fd, (state.round, fd) ∉ state.handed

theorem Consistent.step (consistent : Consistent udpFd state)
    (stepped : step tcpFd udpFd outcome state = some next) : Consistent udpFd next := by
  obtain ⟨known, come, early⟩ := consistent
  cases step_move stepped with
  | quiet pc before after _ => exact ⟨known, come, fun udp at_ => absurd at_ (after udp)⟩
  | selectTcp udp before =>
      refine ⟨known, fun round fd handed => Nat.le_succ_of_le (come round fd handed), ?_⟩
      intro _ _ fd handed
      exact absurd (come _ fd handed) (Nat.not_succ_le_self _)
  | selectUdp before =>
      refine ⟨?_, ?_, by simp [State.serve]⟩
      · intro round fd handed
        cases handed with
        | head => exact .inl rfl
        | tail _ handed => exact known round fd handed
      · intro round fd handed
        cases handed with
        | head => exact Nat.le_refl _
        | tail _ handed => exact Nat.le_succ_of_le (come round fd handed)
  | refuse udp before => exact ⟨known, come, by simp⟩
  | accept udp fd before unused =>
      refine ⟨?_, ?_, by simp [State.serve]⟩
      · intro round other handed
        cases handed with
        | head =>
            cases udp with
            | true => exact .inl rfl
            | false => exact .inr List.mem_cons_self
        | tail _ handed =>
            exact (known round other handed).imp_right (List.mem_cons_of_mem _)
      · intro round other handed
        cases handed with
        | head => exact Nat.le_refl _
        | tail _ handed => exact come round other handed

/-- A connection is lost, or the server has ended before it handled a datagram. -/
inductive Broken (udpFd : Nat) (state : State) : Prop where
  | connection (fd : Nat) (member : fd ∈ state.accepted) (other : fd ≠ udpFd)
      (gone : state.lfd ≠ some fd) (never : ¬ state.Handed fd)
  | datagram (round : Nat) (member : round ∈ state.udpReady)
      (never : (round, udpFd) ∉ state.handed) (exited : state.pc = .exited)

theorem Broken.not_serves (broken : Broken udpFd state) : ¬ Serves udpFd state := by
  intro serves
  cases broken with
  | connection fd member other gone never =>
      exact (serves.connections fd member).elim never gone
  | datagram round member never exited =>
      cases serves.datagrams round member with
      | inl handed => exact never handed
      | inr goes_on => exact absurd (exited.symm.trans goes_on.2) (by simp)

/-- What is lost stays lost. -/
theorem Broken.step (broken : Broken udpFd state)
    (stepped : step tcpFd udpFd outcome state = some next) : Broken udpFd next := by
  cases broken with
  | datagram round member never exited =>
      unfold TcpUdpEcho.step at stepped
      rw [exited] at stepped
      cases stepped
  | connection fd member other gone never =>
      cases step_move stepped with
      | quiet pc before after _ => exact .connection fd member other gone never
      | selectTcp udp before => exact .connection fd member other gone never
      | selectUdp before =>
          apply Broken.connection fd
          · exact member
          · exact other
          · intro same
            exact other (Option.some.inj same).symm
          · rintro ⟨round, handed⟩
            cases handed with
            | head => exact other rfl
            | tail _ handed => exact never ⟨round, handed⟩
      | refuse udp before => exact .connection fd member other gone never
      | accept udp fresh before unused =>
          have differs : fd ≠ if udp then udpFd else fresh := by
            split
            · exact other
            · rintro rfl
              exact unused.2.2 member
          apply Broken.connection fd
          · exact List.mem_cons_of_mem _ member
          · exact other
          · intro same
            exact differs (Option.some.inj same).symm
          · rintro ⟨round, handed⟩
            cases handed with
            | head => exact differs rfl
            | tail _ handed => exact never ⟨round, handed⟩

/-- Where both are ready, the next step loses the connection or the datagram. -/
theorem Consistent.breaks (consistent : Consistent udpFd state) (both : state.pc = .accept true)
    (reported : state.round ∈ state.udpReady)
    (stepped : TcpUdpEcho.step tcpFd udpFd outcome state = some next) : Broken udpFd next := by
  cases step_move stepped with
  | quiet pc before after _ => exact absurd both (before true)
  | selectTcp udp before => exact absurd (both.symm.trans before) (by simp)
  | selectUdp before => exact absurd (both.symm.trans before) (by simp)
  | refuse udp before =>
      exact .datagram state.round reported (consistent.early true both udpFd) rfl
  | accept udp fd before unused =>
      cases both.symm.trans before
      apply Broken.connection fd
      · exact List.mem_cons_self
      · exact unused.2.1
      · intro same
        exact unused.2.1 (Option.some.inj same).symm
      · rintro ⟨round, handed⟩
        cases List.mem_cons.mp handed with
        | inl same => exact unused.2.1 (Prod.mk.inj same).2
        | inr handed =>
            cases consistent.known round fd handed with
            | inl same => exact unused.2.1 same
            | inr member => exact unused.2.2 member

/-! ### Whole runs -/

theorem run_prompt {outcomes : List Outcome} (prompt : Prompt udpFd state)
    (one : .selected true true ∉ outcomes)
    (ran : runLabels (step tcpFd udpFd) outcomes state = some next) : Prompt udpFd next := by
  induction outcomes generalizing state with
  | nil =>
      cases ran
      exact prompt
  | cons outcome rest inductionHypothesis =>
      obtain ⟨middle, stepped, ran⟩ := Option.bind_eq_some_iff.mp ran
      rw [List.mem_cons, not_or] at one
      exact inductionHypothesis (prompt.step (Ne.symm one.1) stepped) one.2 ran

theorem run_broken {outcomes : List Outcome} (broken : Broken udpFd state)
    (ran : runLabels (step tcpFd udpFd) outcomes state = some next) : Broken udpFd next := by
  induction outcomes generalizing state with
  | nil =>
      cases ran
      exact broken
  | cons outcome rest inductionHypothesis =>
      obtain ⟨middle, stepped, ran⟩ := Option.bind_eq_some_iff.mp ran
      exact inductionHypothesis (broken.step stepped) ran

/-- Once both have been ready, the loss is there, or comes with the next step. -/
theorem run_both {outcomes : List Outcome} (consistent : Consistent udpFd state)
    (both : .selected true true ∈ outcomes)
    (ran : runLabels (step tcpFd udpFd) outcomes state = some next) :
    next.pc = .accept true ∨ Broken udpFd next := by
  induction outcomes generalizing state with
  | nil => cases both
  | cons outcome rest inductionHypothesis =>
      obtain ⟨middle, stepped, ran⟩ := Option.bind_eq_some_iff.mp ran
      cases List.mem_cons.mp both with
      | inr later => exact inductionHypothesis (consistent.step stepped) later ran
      | inl now =>
          have opened : middle.pc = .accept true ∧ middle.round ∈ middle.udpReady := by
            cases now ▸ step_move stepped with
            | quiet pc before after one => exact absurd rfl one
            | selectTcp udp before => exact ⟨rfl, List.mem_cons_self⟩
          cases rest with
          | nil =>
              cases ran
              exact .inl opened.1
          | cons outcome rest =>
              obtain ⟨broken, stepped', ran⟩ := Option.bind_eq_some_iff.mp ran
              exact .inr (run_broken
                ((consistent.step stepped).breaks opened.1 opened.2 stepped') ran)

theorem Consistent.initial : Consistent udpFd initial where
  known := by simp [TcpUdpEcho.initial]
  come := by simp [TcpUdpEcho.initial]
  early := by simp [TcpUdpEcho.initial]

end Server

/-- While no round reports both sockets, the server serves what it accepts and is told of,
at every point of its run. Once a round has reported both, it no longer does, from what
follows that round's `accept` on. -/
theorem serves_iff (tcpFd udpFd : Nat) (outcomes : List Outcome) (state : State)
    (ran : runLabels (step tcpFd udpFd) outcomes initial = some state) :
    (.selected true true ∉ outcomes → Serves udpFd state) ∧
      (state.pc ≠ .accept true → Serves udpFd state → .selected true true ∉ outcomes) := by
  constructor
  · intro one
    exact (run_prompt .initial one ran).serves
  · intro past serves both
    cases run_both .initial both ran with
    | inl waiting => exact past waiting
    | inr broken => exact broken.not_serves serves

/-- A connection, then a datagram. -/
def inTurn : List Outcome :=
  [.selected true false, .accepted 5, .received [1], .sent 1, .selected false true]

theorem serves_inTurn :
    (.selected true true ∉ inTurn →
        Serves 4 ⟨.handler .recvfrom, some 4, 2, [5], [(2, 4), (1, 5)], [2]⟩) ∧
      (Pc.handler .recvfrom ≠ .accept true →
        Serves 4 ⟨.handler .recvfrom, some 4, 2, [5], [(2, 4), (1, 5)], [2]⟩ →
        .selected true true ∉ inTurn) :=
  serves_iff 3 4 inTurn ⟨.handler .recvfrom, some 4, 2, [5], [(2, 4), (1, 5)], [2]⟩ rfl

/-- Both are ready: descriptor 5 is accepted, and `lfd` becomes the UDP socket. -/
theorem connection_lost :
    ∃ state, runLabels (step 3 4) [.selected true true, .accepted 5] initial = some state ∧
      5 ∈ state.accepted ∧ ¬ state.Handed 5 ∧ state.lfd = some 4 ∧ ¬ Serves 4 state := by
  have lost : ¬ State.Handed ⟨.handler .recvfrom, some 4, 1, [5], [(1, 4)], [1]⟩ 5 := by
    rintro ⟨round, handed⟩
    simp at handed
  refine ⟨⟨.handler .recvfrom, some 4, 1, [5], [(1, 4)], [1]⟩, rfl, by decide, lost, rfl, ?_⟩
  intro serves
  cases serves.connections 5 (by decide) with
  | inl handed => exact lost handed
  | inr held => cases held

end LinuxProgramming.Sockets.TcpUdpEcho
