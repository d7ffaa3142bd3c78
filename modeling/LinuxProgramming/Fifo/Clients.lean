import LinuxProgramming.Fifo.Server
import LinuxProgramming.Library.TransitionSystem
import Mathlib.Logic.Function.Basic

/-!
Contract: one lifetime of `fifo_server` together with any number of `fifo_client` processes.

Owns:
- `main` of the client, one call at a time, and the requests in the FIFO of the server;
- the numbers that clients print, which are disjoint;
- the clients that wait for ever.

Does not own: the backup file across lifetimes, signals, and errors of the server. Its `open`,
`write` and `close` of a client's FIFO are one step: nobody else writes there.
-/

namespace LinuxProgramming.Fifo.Clients

open LinuxProgramming.Library
open CInt

/-- Where `main` of a client is. -/
inductive Pc where
  /-- `mkfifo`. -/
  | making
  /-- `open(SERVER_FIFO, O_WRONLY)`. -/
  | connecting
  /-- `write` of the request. -/
  | requesting
  /-- Before `open(client_fifo, O_RDONLY)`. -/
  | opening
  /-- In this `open`, as a reader, until the FIFO has a writer too. -/
  | waiting
  /-- `read` of the response. -/
  | reading
  | exited (status : Nat) (printed : Option Int)
deriving DecidableEq, Repr

/-- The FIFO of the client is open for reading. -/
def Pc.Reads (pc : Pc) : Prop := pc = .waiting ∨ pc = .reading

instance (pc : Pc) : Decidable pc.Reads :=
  inferInstanceAs (Decidable (_ ∨ _))

/-- The requests that a FIFO of 65536 bytes has room for. -/
def FIFO_REQUESTS : Nat := 65536 / 8

structure State where
  pc : Int → Pc
  /-- Requests in the FIFO of the server. -/
  queue : List Request
  /-- The request that the server has read. -/
  serving : Option Request
  server : Server
  /-- The requests that have been handled, and whether the FIFO of the client was opened. -/
  history : List (Request × Bool)
  /-- What has been written to the FIFO of a client. -/
  inbox : Int → Option Int

/-- Who moves; a client by the result of its call. -/
inductive Mover where
  | server
  | client (pid : Int) (succeeds : Bool)
deriving DecidableEq, Repr

def State.goto (state : State) (pid : Int) (pc : Pc) : State :=
  { state with pc := Function.update state.pc pid pc }

/-- The next call succeeds, or the client exits. -/
def State.proceed (state : State) (pid : Int) (succeeds : Bool) (pc : Pc) : State :=
  state.goto pid (if succeeds then pc else .exited 1 none)

/-- The request is handled: `client_fd` is opened or not. -/
def State.answer (state : State) (req : Request) (opens : Bool) : State :=
  { state with
    serving := none
    server := (handle (.request req opens) state.server).2
    history := state.history ++ [(req, opens)]
    inbox := match (handle (.request req opens) state.server).1 with
      | some grant => Function.update state.inbox req.pid (some grant.seq_num)
      | none => state.inbox }

section Runs

variable (seq_len : Int → Int)

def clientStep (pid : Int) (succeeds : Bool) (state : State) : Option State :=
  match state.pc pid with
  | .making => some (state.proceed pid succeeds .connecting)
  | .connecting => some (state.proceed pid succeeds .requesting)
  | .requesting =>
      if succeeds then
        if state.queue.length < FIFO_REQUESTS then
          some { state.goto pid .opening with queue := state.queue ++ [⟨pid, seq_len pid⟩] }
        else none
      else some (state.goto pid (.exited 1 none))
  | .opening => some (state.proceed pid succeeds .waiting)
  | .waiting => if (state.inbox pid).isSome then some (state.goto pid .reading) else none
  | .reading => some (state.goto pid (.exited 0 (state.inbox pid)))
  | .exited _ _ => none

def serverStep (state : State) : Option State :=
  match state.serving, state.queue with
  | none, [] => none
  | none, req :: rest => some { state with serving := some req, queue := rest }
  | some req, _ => some (state.answer req (decide (state.pc req.pid).Reads))

def step : Mover → State → Option State
  | .server => serverStep
  | .client pid succeeds => clientStep seq_len pid succeeds

def started (backup : List UInt8) : State where
  pc := fun _ => .making
  queue := []
  serving := none
  server := startServer backup
  history := []
  inbox := fun _ => none

/-- All runs of a server that started on this backup file, with any clients. -/
def system (backup : List UInt8) : TransitionSystem State :=
  labelled (fun state => state = started backup) (step seq_len)

end Runs

/-! ### Requests and responses -/

/-- What the request loop of the server has met. -/
def State.incoming (state : State) : List Incoming :=
  state.history.map fun entry => .request entry.1 entry.2

/-- What it has granted. -/
def State.grants (state : State) (backup : List UInt8) : List Grant :=
  (requestLoop state.incoming (startServer backup)).1

/-- All requests that were sent, in this order. -/
def State.sent (state : State) : List Request :=
  state.history.map Prod.fst ++ (state.serving.toList ++ state.queue)

/-- The FIFO of the client could not be opened when its request was handled. -/
def State.Dropped (state : State) (pid : Int) : Prop :=
  ∃ req, (req, false) ∈ state.history ∧ req.pid = pid

structure Invariant (seq_len : Int → Int) (backup : List UInt8) (state : State) : Prop where
  /-- The server is where its loop leads on the requests that were handled. -/
  server : state.server = (requestLoop state.incoming (startServer backup)).2
  asked : ∀ req ∈ state.sent, req.seq_len = seq_len req.pid
  once : (state.sent.map Request.pid).Nodup
  /-- A client that has sent its request goes on behind this call. -/
  behind : ∀ req ∈ state.sent, state.pc req.pid ≠ .making ∧ state.pc req.pid ≠ .connecting ∧
    state.pc req.pid ≠ .requesting
  sends : ∀ pid, state.pc pid = .opening ∨ (state.pc pid).Reads →
    pid ∈ state.sent.map Request.pid
  /-- A response comes from a grant. -/
  granted : ∀ pid number, state.inbox pid = some number →
    ∃ grant ∈ state.grants backup, grant.req.pid = pid ∧ grant.seq_num = number ∧
      (grant.req, true) ∈ state.history
  responds : ∀ req, (req, true) ∈ state.history → state.inbox req.pid ≠ none
  dropped : ∀ pid, state.Dropped pid → state.inbox pid = none
  reads : ∀ pid, state.pc pid = .reading → state.inbox pid ≠ none
  printed : ∀ pid number, state.pc pid = .exited 0 (some number) →
    state.inbox pid = some number

/-! ### Steps -/

section Steps

variable {seq_len : Int → Int} {backup : List UInt8} {state after : State} {pid : Int} {pc : Pc}

theorem requestLoop_concat (earlier : List Incoming) (last : Incoming) (server : Server) :
    requestLoop (earlier ++ [last]) server =
      ((requestLoop earlier server).1 ++ (handle last (requestLoop earlier server).2).1.toList,
        (handle last (requestLoop earlier server).2).2) := by
  induction earlier generalizing server with
  | nil => simp [requestLoop]
  | cons first rest inductionHypothesis => simp [requestLoop, inductionHypothesis]

@[simp] theorem pc_goto_self : (state.goto pid pc).pc pid = pc :=
  Function.update_self ..

theorem pc_goto_of_ne {other : Int} (different : other ≠ pid) :
    (state.goto pid pc).pc other = state.pc other :=
  Function.update_of_ne different ..

/-- A client goes on without sending anything. -/
theorem Invariant.goto (invariant : Invariant seq_len backup state)
    (behind : pid ∈ state.sent.map Request.pid →
      pc ≠ .making ∧ pc ≠ .connecting ∧ pc ≠ .requesting)
    (sends : pc = .opening ∨ pc.Reads → pid ∈ state.sent.map Request.pid)
    (reads : pc = .reading → state.inbox pid ≠ none)
    (printed : ∀ number, pc = .exited 0 (some number) → state.inbox pid = some number) :
    Invariant seq_len backup (state.goto pid pc) where
  server := invariant.server
  asked := invariant.asked
  once := invariant.once
  behind req member := by
    by_cases same : req.pid = pid
    · rw [same, pc_goto_self]
      exact behind (same ▸ List.mem_map_of_mem member)
    · rw [pc_goto_of_ne same]
      exact invariant.behind req member
  sends other := by
    by_cases same : other = pid
    · subst same
      rw [pc_goto_self]
      exact sends
    · rw [pc_goto_of_ne same]
      exact invariant.sends other
  granted := invariant.granted
  responds := invariant.responds
  dropped := invariant.dropped
  reads other := by
    by_cases same : other = pid
    · subst same
      rw [pc_goto_self]
      exact reads
    · rw [pc_goto_of_ne same]
      exact invariant.reads other
  printed other number := by
    by_cases same : other = pid
    · subst same
      rw [pc_goto_self]
      exact printed number
    · rw [pc_goto_of_ne same]
      exact invariant.printed other number

theorem Invariant.exit (invariant : Invariant seq_len backup state) :
    Invariant seq_len backup (state.goto pid (.exited 1 none)) :=
  invariant.goto (fun _ => ⟨by simp, by simp, by simp⟩) (by simp [Pc.Reads]) (by simp) (by simp)

theorem Invariant.unsent (invariant : Invariant seq_len backup state)
    (early : state.pc pid = .making ∨ state.pc pid = .connecting ∨ state.pc pid = .requesting) :
    pid ∉ state.sent.map Request.pid := by
  intro member
  obtain ⟨req, isSent, rfl⟩ := List.mem_map.mp member
  have behind := invariant.behind req isSent
  rcases early with place | place | place
  · exact behind.1 place
  · exact behind.2.1 place
  · exact behind.2.2 place

/-- A client writes its request to the FIFO of the server. -/
theorem Invariant.send (invariant : Invariant seq_len backup state)
    (place : state.pc pid = .requesting) :
    Invariant seq_len backup
      { state.goto pid .opening with queue := state.queue ++ [⟨pid, seq_len pid⟩] } := by
  have sent : ({ state.goto pid .opening with queue := state.queue ++ [⟨pid, seq_len pid⟩] } :
      State).sent = state.sent ++ [⟨pid, seq_len pid⟩] := by
    simp only [State.sent, State.goto, List.append_assoc]
  have fresh := invariant.unsent (.inr (.inr place))
  have moved : ∀ other, other ≠ pid → (state.goto pid .opening).pc other = state.pc other :=
    fun other different => pc_goto_of_ne different
  have stays : (state.goto pid .opening).pc pid = .opening := pc_goto_self
  refine ⟨invariant.server, ?_, ?_, ?_, ?_, invariant.granted, invariant.responds,
    invariant.dropped, ?_, ?_⟩
  · rw [sent]
    intro req member
    rcases List.mem_append.mp member with member | member
    · exact invariant.asked req member
    · rw [List.mem_singleton.mp member]
  · rw [sent, List.map_append, List.nodup_append]
    refine ⟨invariant.once, by simp, ?_⟩
    rintro other member _ last rfl
    have same : other = pid := List.mem_singleton.mp last
    exact fresh (same ▸ member)
  · rw [sent]
    intro req member
    by_cases same : req.pid = pid
    · rw [same]
      dsimp only
      rw [stays]
      simp
    · rcases List.mem_append.mp member with member | member
      · dsimp only
        rw [moved _ same]
        exact invariant.behind req member
      · rw [List.mem_singleton.mp member] at same
        exact absurd rfl same
  · rw [sent]
    intro other
    by_cases same : other = pid
    · simp [same]
    · dsimp only
      rw [moved _ same]
      intro reader
      rw [List.map_append]
      exact List.mem_append_left _ (invariant.sends other reader)
  · intro other
    by_cases same : other = pid
    · dsimp only
      rw [same, stays]
      simp
    · dsimp only
      rw [moved _ same]
      exact invariant.reads other
  · intro other number
    by_cases same : other = pid
    · dsimp only
      rw [same, stays]
      simp
    · dsimp only
      rw [moved _ same]
      exact invariant.printed other number

theorem clientStep_invariant {succeeds : Bool} (invariant : Invariant seq_len backup state)
    (ran : clientStep seq_len pid succeeds state = some after) :
    Invariant seq_len backup after := by
  have early : ∀ pc, (pc = .connecting ∨ pc = .requesting) →
      pid ∉ state.sent.map Request.pid → Invariant seq_len backup (state.goto pid pc) := by
    rintro pc place unsent
    apply invariant.goto
    · exact fun sent => absurd sent unsent
    all_goals rcases place with rfl | rfl <;> simp [Pc.Reads]
  rw [clientStep] at ran
  cases place : state.pc pid with
  | making =>
      rw [place] at ran
      cases ran
      cases succeeds with
      | true => exact early _ (.inl rfl) (invariant.unsent (.inl place))
      | false => exact invariant.exit
  | connecting =>
      rw [place] at ran
      cases ran
      cases succeeds with
      | true => exact early _ (.inr rfl) (invariant.unsent (.inr (.inl place)))
      | false => exact invariant.exit
  | requesting =>
      rw [place] at ran
      dsimp only at ran
      split_ifs at ran with succeeded room
      · cases ran
        exact invariant.send place
      · cases ran
        exact invariant.exit
  | opening =>
      rw [place] at ran
      cases ran
      cases succeeds with
      | true =>
          have sent := invariant.sends pid (.inl place)
          exact invariant.goto (fun _ => ⟨by simp, by simp, by simp⟩) (fun _ => sent) (by simp)
            (by simp)
      | false => exact invariant.exit
  | waiting =>
      rw [place] at ran
      dsimp only at ran
      split_ifs at ran with answered
      cases ran
      have sent := invariant.sends pid (.inr (.inl place))
      exact invariant.goto (fun _ => ⟨by simp, by simp, by simp⟩) (fun _ => sent)
        (fun _ => Option.isSome_iff_ne_none.mp answered) (by simp)
  | reading =>
      rw [place] at ran
      cases ran
      exact invariant.goto (fun _ => ⟨by simp, by simp, by simp⟩) (by simp [Pc.Reads]) (by simp)
        (fun number same => by simpa using same)
  | exited status printed =>
      rw [place] at ran
      cases ran

/-- The server reads a request or handles the one it has read. -/
theorem serverStep_cases (ran : serverStep state = some after) :
    (∃ req rest, state.serving = none ∧ state.queue = req :: rest ∧
        after = { state with serving := some req, queue := rest }) ∨
      ∃ req, state.serving = some req ∧
        after = state.answer req (decide (state.pc req.pid).Reads) := by
  rw [serverStep] at ran
  split at ran
  case h_1 => cases ran
  case h_2 req rest idle queued => exact .inl ⟨req, rest, idle, queued, (Option.some.inj ran).symm⟩
  case h_3 req serving => exact .inr ⟨req, serving, (Option.some.inj ran).symm⟩

/-- The request that was read stays among those that were sent. -/
theorem sent_answer {req : Request} (serving : state.serving = some req) (opens : Bool) :
    (state.answer req opens).sent = state.sent := by
  simp [State.sent, State.answer, serving]

/-- Nothing has been handled yet for the client that is served. -/
theorem Invariant.fresh (invariant : Invariant seq_len backup state) {req : Request}
    (serving : state.serving = some req) {entry : Request × Bool}
    (handled : entry ∈ state.history) : entry.1.pid ≠ req.pid := by
  have once := invariant.once
  rw [State.sent, serving, List.map_append, List.nodup_append] at once
  exact once.2.2 entry.1.pid (List.mem_map_of_mem (List.mem_map_of_mem handled)) req.pid
    (by simp)

theorem Invariant.inbox_none (invariant : Invariant seq_len backup state) {req : Request}
    (serving : state.serving = some req) : state.inbox req.pid = none := by
  by_contra some_
  obtain ⟨number, holds⟩ := Option.ne_none_iff_exists'.mp some_
  obtain ⟨grant, -, same, -, handled⟩ := invariant.granted req.pid number holds
  exact invariant.fresh serving handled same

/-- The client reads its FIFO, and the server can open it. -/
theorem Invariant.answer_true (invariant : Invariant seq_len backup state) {req : Request}
    (serving : state.serving = some req) (reader : (state.pc req.pid).Reads) :
    Invariant seq_len backup (state.answer req true) := by
  have sent := sent_answer serving true
  have incoming : (state.answer req true).incoming = state.incoming ++ [.request req true] := by
    simp [State.incoming, State.answer]
  have loop := requestLoop_concat state.incoming (.request req true) (startServer backup)
  rw [← incoming, ← invariant.server] at loop
  have grants : (state.answer req true).grants backup =
      state.grants backup ++ [⟨req, state.server.seq_num⟩] := congrArg Prod.fst loop
  have inboxOther : ∀ pid, pid ≠ req.pid →
      (state.answer req true).inbox pid = state.inbox pid :=
    fun pid different => Function.update_of_ne different ..
  have inboxOwn : (state.answer req true).inbox req.pid = some state.server.seq_num :=
    Function.update_self ..
  have history : ∀ entry, entry ∈ (state.answer req true).history ↔
      entry ∈ state.history ∨ entry = (req, true) := by
    simp [State.answer]
  refine ⟨(congrArg Prod.snd loop).symm, sent ▸ invariant.asked, sent ▸ invariant.once,
    sent ▸ invariant.behind, sent ▸ invariant.sends, ?_, ?_, ?_, ?_, ?_⟩
  · intro pid number holds
    rw [grants]
    by_cases same : pid = req.pid
    · rw [same, inboxOwn] at holds
      cases holds
      exact ⟨_, List.mem_append_right _ (List.mem_singleton_self _), same.symm, rfl,
        (history _).mpr (.inr rfl)⟩
    · rw [inboxOther pid same] at holds
      obtain ⟨grant, granted, samePid, number, handled⟩ := invariant.granted pid _ holds
      exact ⟨grant, List.mem_append_left _ granted, samePid, number,
        (history _).mpr (.inl handled)⟩
  · intro other handled
    rcases (history _).mp handled with handled | now
    · rw [inboxOther _ (invariant.fresh serving handled)]
      exact invariant.responds other handled
    · cases now
      rw [inboxOwn]
      exact Option.some_ne_none _
  · rintro pid ⟨other, handled, rfl⟩
    rcases (history _).mp handled with handled | now
    · rw [inboxOther _ (invariant.fresh serving handled)]
      exact invariant.dropped _ ⟨other, handled, rfl⟩
    · cases now
  · intro pid place
    by_cases same : pid = req.pid
    · rw [same, inboxOwn]
      exact Option.some_ne_none _
    · rw [inboxOther pid same]
      exact invariant.reads pid place
  · intro pid number place
    have different : pid ≠ req.pid := by
      rintro rfl
      change state.pc req.pid = _ at place
      rw [place] at reader
      simp [Pc.Reads] at reader
    rw [inboxOther pid different]
    exact invariant.printed pid number place

/-- The request is dropped. -/
theorem Invariant.answer_false (invariant : Invariant seq_len backup state) {req : Request}
    (serving : state.serving = some req) :
    Invariant seq_len backup (state.answer req false) := by
  have sent := sent_answer serving false
  have incoming : (state.answer req false).incoming = state.incoming ++ [.request req false] := by
    simp [State.incoming, State.answer]
  have loop := requestLoop_concat state.incoming (.request req false) (startServer backup)
  rw [← incoming, ← invariant.server] at loop
  have grants : (state.answer req false).grants backup = state.grants backup := by
    simpa [handle, State.grants] using congrArg Prod.fst loop
  have history : ∀ entry, entry ∈ (state.answer req false).history ↔
      entry ∈ state.history ∨ entry = (req, false) := by
    simp [State.answer]
  refine ⟨(congrArg Prod.snd loop).symm, sent ▸ invariant.asked, sent ▸ invariant.once,
    sent ▸ invariant.behind, sent ▸ invariant.sends, ?_, ?_, ?_, invariant.reads,
    invariant.printed⟩
  · intro pid number holds
    rw [grants]
    obtain ⟨grant, granted, samePid, number, handled⟩ := invariant.granted pid _ holds
    exact ⟨grant, granted, samePid, number, (history _).mpr (.inl handled)⟩
  · intro other handled
    rcases (history _).mp handled with handled | now
    · exact invariant.responds other handled
    · cases now
  · rintro pid ⟨other, handled, rfl⟩
    rcases (history _).mp handled with handled | now
    · exact invariant.dropped _ ⟨other, handled, rfl⟩
    · cases now
      exact invariant.inbox_none serving

theorem system_inductive (seq_len : Int → Int) (backup : List UInt8) :
    (system seq_len backup).Inductive (Invariant seq_len backup) where
  init := by
    rintro state rfl
    exact {
      server := rfl
      asked := by simp [State.sent, started]
      once := by simp [State.sent, started]
      behind := by simp [State.sent, started]
      sends := by simp [started, Pc.Reads]
      granted := by simp [started]
      responds := by simp [started]
      dropped := fun _ _ => rfl
      reads := by simp [started]
      printed := by simp [started] }
  step := by
    rintro before after invariant ⟨mover, -, ran⟩
    cases mover with
    | client pid succeeds => exact clientStep_invariant invariant ran
    | server =>
        rcases serverStep_cases ran with ⟨req, rest, idle, queued, rfl⟩ | ⟨req, serving, rfl⟩
        · have sent : ({ before with serving := some req, queue := rest } : State).sent =
              before.sent := by
            simp [State.sent, idle, queued]
          exact {
            server := invariant.server
            asked := sent ▸ invariant.asked
            once := sent ▸ invariant.once
            behind := sent ▸ invariant.behind
            sends := sent ▸ invariant.sends
            granted := invariant.granted
            responds := invariant.responds
            dropped := invariant.dropped
            reads := invariant.reads
            printed := invariant.printed }
        · by_cases reader : (before.pc req.pid).Reads
          · rw [decide_eq_true reader]
            exact invariant.answer_true serving reader
          · rw [decide_eq_false reader]
            exact invariant.answer_false serving

end Steps

/-! ### The numbers that are printed -/

section Printed

variable {seq_len : Int → Int} {backup : List UInt8} {state : State}

/-- The server answers requests of this system only. -/
theorem Invariant.asked_positive (invariant : Invariant seq_len backup state)
    (positive : ∀ pid, 0 < seq_len pid) : ∀ length ∈ Fifo.asked state.incoming, 0 < length := by
  intro length member
  obtain ⟨req, isServed, rfl⟩ := List.mem_map.mp member
  obtain ⟨incoming, handled, isServed⟩ := List.mem_filterMap.mp isServed
  obtain ⟨⟨other, opens⟩, inHistory, rfl⟩ := List.mem_map.mp handled
  cases opens with
  | false => cases isServed
  | true =>
      cases isServed
      have sent : other ∈ state.sent :=
        List.mem_append_left _ (List.mem_map_of_mem inHistory)
      rw [invariant.asked other sent]
      exact positive other.pid

/-- Two grants of a lifetime to different clients do not meet. -/
theorem Invariant.grants_disjoint (invariant : Invariant seq_len backup state)
    (positive : ∀ pid, 0 < seq_len pid) (fits : ∀ grant ∈ state.grants backup, grant.Fits)
    {grant other : Grant} (granted : grant ∈ state.grants backup)
    (granted' : other ∈ state.grants backup) (different : grant.req.pid ≠ other.req.pid) :
    grant.range.Disjoint other.range := by
  have asked := invariant.asked_positive positive
  have ranges := (requestLoop_grants (isInt_resume backup) ⟨asked, fits⟩).1
  have ordered := Range.consecutive_ordered (resume backup) fun length member =>
    (asked length member).le
  rw [resume, ← ranges, List.pairwise_map] at ordered
  have disjoint := ordered.imp Range.Before.disjoint
  have symmetric : Std.Symm fun first second : Grant => first.range.Disjoint second.range :=
    ⟨fun _ _ apart number both => apart number both.symm⟩
  exact disjoint.forall granted granted' fun same => different (same ▸ rfl)

end Printed

/-- All calls of a client, which comes to its `open` before the server handles the request. -/
def promptClient (pid : Int) : List Mover :=
  List.replicate 4 (.client pid true) ++ [.server, .server] ++ List.replicate 2 (.client pid true)

section Waiting

variable {seq_len : Int → Int} {backup : List UInt8} {state before after : State} {pid : Int}

/-- What is left for the server to do. -/
def State.load (state : State) : Nat :=
  2 * state.queue.length + state.serving.toList.length

/-- The server can always handle what was sent, and no client moves. -/
theorem drain (seq_len : Int → Int) (backup : List UInt8) (state : State) :
    ∃ later, Relation.ReflTransGen (system seq_len backup).Step state later ∧
      later.queue = [] ∧ later.serving = none ∧ later.pc = state.pc ∧ later.sent = state.sent ∧
      ∀ req, (req, false) ∈ later.history →
        (req, false) ∈ state.history ∨ ¬ (state.pc req.pid).Reads := by
  induction load : state.load using Nat.strong_induction_on generalizing state with
  | _ load inductionHypothesis =>
      subst load
      cases serving : state.serving with
      | some req =>
          let opens := decide (state.pc req.pid).Reads
          have less : (state.answer req opens).load < state.load := by
            simp [State.load, State.answer, serving]
          obtain ⟨later, run, queue, idle, pc, sent, dropped⟩ :=
            inductionHypothesis _ less (state.answer req opens) rfl
          have stepped : (system seq_len backup).Step state (state.answer req opens) := by
            refine ⟨.server, trivial, ?_⟩
            simp [step, serverStep, serving, opens]
          refine ⟨later, .head stepped run, queue, idle, pc,
            sent.trans (sent_answer serving opens), ?_⟩
          intro other handled
          rcases dropped other handled with handled | absent
          · rcases List.mem_append.mp handled with handled | now
            · exact .inl handled
            · have same := List.mem_singleton.mp now
              simp only [Prod.mk.injEq, Bool.false_eq, opens, decide_eq_false_iff_not] at same
              exact .inr (same.1 ▸ same.2)
          · exact .inr absent
      | none =>
          cases queued : state.queue with
          | nil => exact ⟨state, .refl, queued, serving, rfl, rfl, fun _ => .inl⟩
          | cons req rest =>
              have less : ({ state with serving := some req, queue := rest } : State).load <
                  state.load := by
                simp only [State.load, serving, queued, List.length_cons, Option.toList_some,
                  Option.toList_none, List.length_nil]
                omega
              obtain ⟨later, run, queue, idle, pc, sent, dropped⟩ :=
                inductionHypothesis _ less { state with serving := some req, queue := rest } rfl
              have stepped : (system seq_len backup).Step state
                  { state with serving := some req, queue := rest } := by
                refine ⟨.server, trivial, ?_⟩
                simp [step, serverStep, serving, queued]
              refine ⟨later, .head stepped run, queue, idle, pc, sent.trans ?_, dropped⟩
              simp [State.sent, serving, queued]

/-- A client whose request has not been dropped can get its number from `open` on. -/
theorem served_of_waiting (invariant : Invariant seq_len backup state)
    (place : state.pc pid = .waiting) (kept : ¬ state.Dropped pid) :
    ∃ later number, Relation.ReflTransGen (system seq_len backup).Step state later ∧
      later.pc pid = .exited 0 (some number) := by
  obtain ⟨later, run, queue, idle, pc, sent, dropped⟩ := drain seq_len backup state
  have invariant' := (system_inductive seq_len backup).follows invariant run
  have place' : later.pc pid = .waiting := (congrFun pc pid).trans place
  obtain ⟨req, isSent, rfl⟩ := List.mem_map.mp (invariant.sends pid (.inr (.inl place)))
  rw [← sent, State.sent, queue, idle, Option.toList_none, List.append_nil, List.append_nil]
    at isSent
  obtain ⟨⟨other, opens⟩, handled, rfl⟩ := List.mem_map.mp isSent
  cases opens with
  | false =>
      rcases dropped _ handled with before | absent
      · exact absurd ⟨_, before, rfl⟩ kept
      · exact absurd (.inl place) absent
  | true =>
      obtain ⟨number, holds⟩ := Option.ne_none_iff_exists'.mp (invariant'.responds _ handled)
      have opensFifo : (system seq_len backup).Step later (later.goto other.pid .reading) := by
        refine ⟨.client other.pid true, trivial, ?_⟩
        simp [step, clientStep, place', holds]
      have reads : (system seq_len backup).Step (later.goto other.pid .reading)
          ((later.goto other.pid .reading).goto other.pid (.exited 0 (some number))) := by
        refine ⟨.client other.pid true, trivial, ?_⟩
        have inbox : (later.goto other.pid .reading).inbox other.pid = some number := holds
        simp [step, clientStep, inbox]
      exact ⟨_, number, (run.tail opensFifo).tail reads, pc_goto_self⟩

/-- A request that has been dropped stays dropped. -/
theorem dropped_step (stepped : (system seq_len backup).Step before after)
    (dropped : before.Dropped pid) : after.Dropped pid := by
  obtain ⟨req, handled, samePid⟩ := dropped
  refine ⟨req, ?_, samePid⟩
  obtain ⟨mover, -, ran⟩ := stepped
  cases mover with
  | server =>
      rcases serverStep_cases ran with ⟨other, rest, -, -, rfl⟩ | ⟨other, -, rfl⟩
      · exact handled
      · exact List.mem_append_left _ handled
  | client other succeeds =>
      have same : after.history = before.history := by
        simp only [step, clientStep] at ran
        split at ran <;> (try split_ifs at ran) <;> cases ran <;> rfl
      rw [same]
      exact handled

/-- A client in `open` whose FIFO nobody has written to stays there. -/
theorem waiting_step (stepped : (system seq_len backup).Step before after)
    (place : before.pc pid = .waiting) (nothing : before.inbox pid = none) :
    after.pc pid = .waiting := by
  obtain ⟨mover, -, ran⟩ := stepped
  cases mover with
  | server =>
      rcases serverStep_cases ran with ⟨other, rest, -, -, rfl⟩ | ⟨other, -, rfl⟩
      · exact place
      · exact place
  | client other succeeds =>
      by_cases same : other = pid
      · subst same
        simp [step, clientStep, place, nothing] at ran
      · have others : after.pc pid = before.pc pid := by
          have different : pid ≠ other := Ne.symm same
          simp only [step, clientStep] at ran
          split at ran <;> (try split_ifs at ran) <;> cases ran <;>
            simp [State.proceed, State.goto, different]
        rw [others, place]

end Waiting

/-- A client waits for ever in `open` exactly if its request was handled before it came there. -/
theorem waitsForEver_iff_dropped (seq_len : Int → Int) (backup : List UInt8) (state : State)
    (reachable : (system seq_len backup).Reachable state) (pid : Int) :
    (∀ later, Relation.ReflTransGen (system seq_len backup).Step state later →
        later.pc pid = .waiting) ↔
      state.pc pid = .waiting ∧ state.Dropped pid := by
  have invariant := (system_inductive seq_len backup).holds reachable
  constructor
  · intro waits
    have place := waits state .refl
    refine ⟨place, ?_⟩
    by_contra kept
    obtain ⟨later, number, run, exited⟩ := served_of_waiting invariant place kept
    rw [waits later run] at exited
    cases exited
  · rintro ⟨place, dropped⟩ later run
    suffices later.pc pid = .waiting ∧ later.Dropped pid from this.1
    induction run with
    | refl => exact ⟨place, dropped⟩
    | tail earlier stepped inductionHypothesis =>
        have invariant' := (system_inductive seq_len backup).follows invariant earlier
        obtain ⟨place', dropped'⟩ := inductionHypothesis
        exact ⟨waiting_step stepped place' (invariant'.dropped pid dropped'),
          dropped_step stepped dropped'⟩

/-- A client that is slower than the server. -/
theorem waitsForEver_iff_dropped_slow : ∃ state, state.pc 7 = .waiting ∧
    ∀ later, Relation.ReflTransGen (system (fun _ => 1) []).Step state later →
      later.pc 7 = .waiting := by
  have ran : runLabels (step fun _ => 1) (List.replicate 3 (.client 7 true) ++
      [.server, .server, .client 7 true]) (started []) = some _ := rfl
  exact ⟨_, rfl, (waitsForEver_iff_dropped (fun _ => 1) [] _
    (runLabels_reachable labelled_step (.of_init rfl) ran) 7).mpr
      ⟨rfl, ⟨7, 1⟩, List.mem_singleton_self _, rfl⟩⟩

end LinuxProgramming.Fifo.Clients
