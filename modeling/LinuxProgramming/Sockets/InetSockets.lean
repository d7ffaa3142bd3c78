import Mathlib.Data.List.Basic
import LinuxProgramming.Library.DescriptorTable

/-!
Contract: the Internet sockets library and the descriptors it opens.

Owns:
- `inetConnect`, `inetListen` and `inetBind`, for every address list and every result of the
  calls on its addresses;
- exactly when a call closes the descriptors that it does not return;
- runs of any number of calls.

Does not own: `getaddrinfo`, the memory of its result, and `inetAddressStr`.
-/

namespace LinuxProgramming.Sockets.InetSockets

open LinuxProgramming.Library

universe u

abbrev Errno := Nat

def EBADF : Errno := 9

def EMFILE : Errno := 24

def ENOSYS : Errno := 38

def AF_UNSPEC : Int := 0

def SOCK_STREAM : Int := 1

def AI_PASSIVE : Int := 1

/-- A text of the caller. -/
abbrev Text := List UInt8

/-- The members of the hints that are not zero or `NULL`. -/
structure Hints where
  ai_family : Int
  ai_socktype : Int
  ai_flags : Int

structure Addrinfo where
  ai_family : Int
  ai_socktype : Int
  ai_protocol : Int
  ai_addr : List UInt8
  ai_addrlen : Nat

/-- An address of the list, and the error of each call that may be made for it. -/
structure Attempt where
  rp : Addrinfo
  socket : Option Errno
  setsockopt : Option Errno
  connect : Option Errno
  bind : Option Errno

/-- What the library cannot foresee in a call. -/
structure World where
  getaddrinfo : Option Text → Text → Hints → Except Int (List Attempt)
  listen : Option Errno

/-- A socket: who it is connected to, what it is bound to, and whether it listens. -/
structure Socket where
  ai_family : Int
  ai_socktype : Int
  ai_protocol : Int
  reuseaddr : Bool
  peer : Option (List UInt8)
  name : Option (List UInt8)
  backlog : Option Int

/-- What a descriptor refers to: a socket of the library, or a file of another kind. -/
inductive File (Other : Type u) where
  | other (file : Other)
  | socket (socket : Socket)

/-- The part of a process that the calls read and change. -/
structure Process (Other : Type u) where
  table : DescriptorTable (File Other)
  errno : Errno

variable {Other : Type u}

/-! ### The calls of the kernel -/

def Process.fail (process : Process Other) (errno : Errno) : Int × Process Other :=
  (-1, { process with errno })

/-- A socket that nothing was done with. -/
def Addrinfo.created (rp : Addrinfo) : Socket where
  ai_family := rp.ai_family
  ai_socktype := rp.ai_socktype
  ai_protocol := rp.ai_protocol
  reuseaddr := false
  peer := none
  name := none
  backlog := none

/-- `socket`, when descriptors are below `limit`. -/
def socket (limit : Nat) (process : Process Other) (attempt : Attempt) : Int × Process Other :=
  match attempt.socket, process.table.lowestFree 0 limit with
  | some errno, _ => process.fail errno
  | none, none => process.fail EMFILE
  | none, some sfd =>
      (sfd, { process with table := process.table.assign sfd (.socket attempt.rp.created) })

/-- A call that changes a socket. -/
def changeSocket (process : Process Other) (sfd : Int) (outcome : Option Errno)
    (change : Socket → Socket) : Int × Process Other :=
  match outcome, process.table.lookup sfd with
  | some errno, _ => process.fail errno
  | none, some (.socket socket) =>
      (0, { process with table := process.table.assign sfd.toNat (.socket (change socket)) })
  | none, _ => process.fail EBADF

/-- `setsockopt` with `SO_REUSEADDR`. -/
def setsockopt (process : Process Other) (sfd : Int) (attempt : Attempt) : Int × Process Other :=
  changeSocket process sfd attempt.setsockopt fun socket => { socket with reuseaddr := true }

def connect (process : Process Other) (sfd : Int) (attempt : Attempt) : Int × Process Other :=
  changeSocket process sfd attempt.connect
    fun socket => { socket with peer := some attempt.rp.ai_addr }

def bind (process : Process Other) (sfd : Int) (attempt : Attempt) : Int × Process Other :=
  changeSocket process sfd attempt.bind
    fun socket => { socket with name := some attempt.rp.ai_addr }

def listen (process : Process Other) (sfd : Int) (outcome : Option Errno) (backlog : Int) :
    Int × Process Other :=
  changeSocket process sfd outcome fun socket => { socket with backlog := some backlog }

def close (process : Process Other) (sfd : Int) : Process Other :=
  match process.table.lookup sfd with
  | none => { process with errno := EBADF }
  | some _ => { process with table := process.table.close sfd.toNat }

/-! ### The library -/

/-- What a function returns, what it stores in `*addrlen`, and the process after it. -/
structure Returned (Other : Type u) where
  value : Int
  addrlen : Option Nat
  process : Process Other

/-- The loop of `inetConnect`: `rp` and `sfd` after it, and the process. -/
def connectLoop (limit : Nat) :
    List Attempt → Int → Process Other → Option Addrinfo × Int × Process Other
  | [], sfd, process => (none, sfd, process)
  | attempt :: rest, _, process =>
      let opened := socket limit process attempt
      let sfd := opened.1
      if sfd = -1 then connectLoop limit rest sfd opened.2
      else
        let connected := connect opened.2 sfd attempt
        if connected.1 ≠ -1 then (some attempt.rp, sfd, connected.2)
        else connectLoop limit rest sfd (close connected.2 sfd)

/-- The end of `inetConnect`, with `rp` and `sfd` after the loop. -/
def connectReturned : Option Addrinfo × Int × Process Other → Returned Other
  | (none, _, process) => ⟨-1, none, process⟩
  | (some _, sfd, process) => ⟨sfd, none, process⟩

def inetConnect (limit : Nat) (world : World) (host : Option Text) (service : Text) (type : Int)
    (process : Process Other) : Returned Other :=
  match world.getaddrinfo host service ⟨AF_UNSPEC, type, 0⟩ with
  | .error _ => ⟨-1, none, { process with errno := ENOSYS }⟩
  | .ok result => connectReturned (connectLoop limit result 0 process)

/-- How the loop of `inetPassiveSocket` ends. -/
inductive PassiveEnd (Other : Type u) where
  /-- `setsockopt` failed. -/
  | returned (process : Process Other)
  | after (rp : Option Addrinfo) (sfd : Int) (process : Process Other)

def passiveLoop (limit : Nat) (doListen : Bool) :
    List Attempt → Int → Process Other → PassiveEnd Other
  | [], sfd, process => .after none sfd process
  | attempt :: rest, _, process =>
      let opened := socket limit process attempt
      let sfd := opened.1
      if sfd = -1 then passiveLoop limit doListen rest sfd opened.2
      else
        let reusable := if doListen then setsockopt opened.2 sfd attempt else (0, opened.2)
        if reusable.1 = -1 then .returned (close reusable.2 sfd)
        else
          let bound := bind reusable.2 sfd attempt
          if bound.1 = 0 then .after (some attempt.rp) sfd bound.2
          else passiveLoop limit doListen rest sfd (close bound.2 sfd)

/-- `inetPassiveSocket` behind the loop. `addrlen` says whether the pointer of this name is
not `NULL`. -/
def passiveReturned (world : World) (addrlen doListen : Bool) (backlog : Int) :
    PassiveEnd Other → Returned Other
  | .returned process => ⟨-1, none, process⟩
  | .after none _ process => ⟨-1, none, process⟩
  | .after (some rp) sfd process =>
      let listening := if doListen then listen process sfd world.listen backlog else (0, process)
      -- Here `sfd` is still open.
      if listening.1 = -1 then ⟨-1, none, listening.2⟩
      else ⟨sfd, if addrlen then some rp.ai_addrlen else none, listening.2⟩

def inetPassiveSocket (limit : Nat) (world : World) (service : Text) (type : Int)
    (addrlen doListen : Bool) (backlog : Int) (process : Process Other) : Returned Other :=
  match world.getaddrinfo none service ⟨AF_UNSPEC, type, AI_PASSIVE⟩ with
  | .error _ => ⟨-1, none, process⟩
  | .ok result =>
      passiveReturned world addrlen doListen backlog (passiveLoop limit doListen result 0 process)

def inetListen (limit : Nat) (world : World) (service : Text) (backlog : Int) (addrlen : Bool)
    (process : Process Other) : Returned Other :=
  inetPassiveSocket limit world service SOCK_STREAM addrlen true backlog process

def inetBind (limit : Nat) (world : World) (service : Text) (type : Int) (addrlen : Bool)
    (process : Process Other) : Returned Other :=
  inetPassiveSocket limit world service type addrlen false 0 process

/-- A call of a function of the library. -/
inductive Call where
  | inetConnect (host : Option Text) (service : Text) (type : Int)
  | inetListen (service : Text) (backlog : Int) (addrlen : Bool)
  | inetBind (service : Text) (type : Int) (addrlen : Bool)

def Call.perform (limit : Nat) (world : World) (process : Process Other) : Call → Returned Other
  | .inetConnect host service type => InetSockets.inetConnect limit world host service type process
  | .inetListen service backlog addrlen =>
      InetSockets.inetListen limit world service backlog addrlen process
  | .inetBind service type addrlen =>
      InetSockets.inetBind limit world service type addrlen process

/-- Calls one after the other: the values returned, and the process after them. -/
def run (limit : Nat) : List (World × Call) → Process Other → List Int × Process Other
  | [], process => ([], process)
  | (world, call) :: rest, process =>
      let returned := call.perform limit world process
      let later := run limit rest returned.process
      (returned.value :: later.1, later.2)

/-! ### The law -/

/-- A call fails and leaves the descriptors as they were, or it returns a descriptor that
was free and now refers to a socket of the kind that was asked for; then no other descriptor
has changed. -/
def Law (Asked : Socket → Prop) (before : DescriptorTable (File Other))
    (returned : Returned Other) : Prop :=
  (returned.value = -1 ∧ returned.process.table = before) ∨
    ∃ (fd : Nat) (socket : Socket), returned.value = fd ∧ before fd = none ∧ Asked socket ∧
      returned.process.table = before.assign fd (.socket socket)

/-- The socket is bound to an address of the list, whose length is stored if it is wanted. -/
def Bound (result : List Attempt) (wanted : Bool) (stored : Option Nat) (socket : Socket) : Prop :=
  ∃ attempt ∈ result, socket.name = some attempt.rp.ai_addr ∧
    stored = if wanted then some attempt.rp.ai_addrlen else none

/-- The socket that a call is asked for. -/
def Call.Asked (world : World) (stored : Option Nat) : Call → Socket → Prop
  | .inetConnect host service type, socket =>
      ∃ result, world.getaddrinfo host service ⟨AF_UNSPEC, type, 0⟩ = .ok result ∧
        ∃ attempt ∈ result, socket.peer = some attempt.rp.ai_addr
  | .inetListen service backlog addrlen, socket =>
      ∃ result, world.getaddrinfo none service ⟨AF_UNSPEC, SOCK_STREAM, AI_PASSIVE⟩ =
          .ok result ∧
        Bound result addrlen stored socket ∧ socket.backlog = some backlog
  | .inetBind service type addrlen, socket =>
      ∃ result, world.getaddrinfo none service ⟨AF_UNSPEC, type, AI_PASSIVE⟩ = .ok result ∧
        Bound result addrlen stored socket

def Call.KeepsLaw (limit : Nat) (world : World) (process : Process Other) (call : Call) : Prop :=
  Law (call.Asked world (call.perform limit world process).addrlen) process.table
    (call.perform limit world process)

/-- One of the addresses gets a socket and is bound: each one before it gets no socket, or
cannot be bound. -/
inductive Binds : List Attempt → Prop
  | here {attempt : Attempt} {rest : List Attempt} (created : attempt.socket = none)
      (reusable : attempt.setsockopt = none) (bound : attempt.bind = none) :
      Binds (attempt :: rest)
  | noSocket {attempt : Attempt} {rest : List Attempt} (refused : attempt.socket ≠ none)
      (later : Binds rest) : Binds (attempt :: rest)
  | notBound {attempt : Attempt} {rest : List Attempt} (reusable : attempt.setsockopt = none)
      (refused : attempt.bind ≠ none) (later : Binds rest) : Binds (attempt :: rest)

/-- `inetListen` has bound a socket, and `listen` fails. -/
def Call.Leaks (limit : Nat) (world : World) (process : Process Other) : Call → Prop
  | .inetListen service _ _ =>
      world.listen ≠ none ∧ process.table.lowestFree 0 limit ≠ none ∧
        ∃ result, world.getaddrinfo none service ⟨AF_UNSPEC, SOCK_STREAM, AI_PASSIVE⟩ =
          .ok result ∧ Binds result
  | _ => False

/-! ### What the calls do -/

/-- Without a socket, only `errno` changes. -/
theorem socket_fails {limit : Nat} {table : DescriptorTable (File Other)} {attempt : Attempt}
    (refused : attempt.socket ≠ none ∨ table.lowestFree 0 limit = none) (errno : Errno) :
    ∃ failure, socket limit ⟨table, errno⟩ attempt = (-1, ⟨table, failure⟩) := by
  unfold socket
  cases asked : attempt.socket with
  | some failure => exact ⟨failure, rfl⟩
  | none =>
      have full : table.lowestFree 0 limit = none := refused.resolve_left fun other => other asked
      exact ⟨EMFILE, by simp only [full]; rfl⟩

theorem socket_opens {limit : Nat} {table : DescriptorTable (File Other)} {attempt : Attempt}
    {fd : Nat} (granted : attempt.socket = none) (lowest : table.lowestFree 0 limit = some fd)
    (errno : Errno) :
    socket limit ⟨table, errno⟩ attempt =
      ((fd : Int), ⟨table.assign fd (.socket attempt.rp.created), errno⟩) := by
  simp only [socket, granted, lowest]

section NewSocket

variable (table : DescriptorTable (File Other)) (fd : Nat) (socket : Socket) (errno : Errno)
  (change : Socket → Socket)

theorem changeSocket_succeeds :
    changeSocket ⟨table.assign fd (.socket socket), errno⟩ fd none change =
      (0, ⟨table.assign fd (.socket (change socket)), errno⟩) := by
  simp [changeSocket, DescriptorTable.assign_assign]

theorem changeSocket_fails (failure : Errno) :
    changeSocket ⟨table.assign fd (.socket socket), errno⟩ fd (some failure) change =
      (-1, ⟨table.assign fd (.socket socket), failure⟩) := by
  simp [changeSocket, Process.fail]

/-- A new descriptor that is closed leaves no trace in the table. -/
theorem close_new (free : table fd = none) :
    close ⟨table.assign fd (.socket socket), errno⟩ fd = ⟨table, errno⟩ := by
  simp [close, DescriptorTable.close_assign free]

end NewSocket

theorem lowestFree_free {table : DescriptorTable (File Other)} {limit fd : Nat}
    (lowest : table.lowestFree 0 limit = some fd) : table fd = none :=
  (DescriptorTable.lowestFree_eq_some.mp lowest).1

theorem natCast_ne_neg_one (fd : Nat) : (fd : Int) ≠ -1 := by omega

/-! ### `inetConnect` -/

/-- How the loop ends: with the table as it was, or at an address with the socket that is
connected to it. -/
inductive ConnectEnds (table : DescriptorTable (File Other)) (attempts : List Attempt) :
    Option Addrinfo × Int × Process Other → Prop
  | nobody (sfd : Int) (errno : Errno) : ConnectEnds table attempts (none, sfd, ⟨table, errno⟩)
  | connected {attempt : Attempt} (member : attempt ∈ attempts) {fd : Nat}
      (free : table fd = none) {socket : Socket} (peer : socket.peer = some attempt.rp.ai_addr)
      (errno : Errno) :
      ConnectEnds table attempts
        (some attempt.rp, (fd : Int), ⟨table.assign fd (.socket socket), errno⟩)

theorem ConnectEnds.cons {table : DescriptorTable (File Other)} {rest : List Attempt}
    {ended : Option Addrinfo × Int × Process Other} (attempt : Attempt)
    (ends : ConnectEnds table rest ended) : ConnectEnds table (attempt :: rest) ended := by
  cases ends with
  | nobody sfd errno => exact .nobody sfd errno
  | connected member free peer errno =>
      exact .connected (List.mem_cons_of_mem _ member) free peer errno

theorem connectLoop_ends (limit : Nat) (table : DescriptorTable (File Other))
    (attempts : List Attempt) (sfd : Int) (errno : Errno) :
    ConnectEnds table attempts (connectLoop limit attempts sfd ⟨table, errno⟩) := by
  induction attempts generalizing sfd errno with
  | nil => exact .nobody sfd errno
  | cons attempt rest inductionHypothesis =>
      simp only [connectLoop]
      by_cases refused : attempt.socket ≠ none ∨ table.lowestFree 0 limit = none
      · obtain ⟨failure, fails⟩ := socket_fails refused errno
        rw [fails]
        exact (inductionHypothesis _ _).cons attempt
      · rw [not_or, not_not] at refused
        obtain ⟨fd, lowest⟩ := Option.ne_none_iff_exists'.mp refused.2
        have free := lowestFree_free lowest
        simp only [socket_opens refused.1 lowest, natCast_ne_neg_one, connect, ↓reduceIte]
        cases asked : attempt.connect with
        | none =>
            rw [changeSocket_succeeds]
            exact .connected List.mem_cons_self free rfl _
        | some failure =>
            simp only [changeSocket_fails, close_new _ _ _ _ free]
            exact (inductionHypothesis _ _).cons attempt

theorem inetConnect_law (limit : Nat) (world : World) (host : Option Text) (service : Text)
    (type : Int) (process : Process Other) :
    (Call.inetConnect host service type).KeepsLaw limit world process := by
  unfold Call.KeepsLaw
  cases resolved : world.getaddrinfo host service ⟨AF_UNSPEC, type, 0⟩ with
  | error _ =>
      rw [Call.perform, inetConnect, resolved]
      exact Or.inl ⟨rfl, rfl⟩
  | ok result =>
      have performs : (Call.inetConnect host service type).perform limit world process =
          connectReturned (connectLoop limit result 0 process) := by
        rw [Call.perform, inetConnect, resolved]
      have ends := connectLoop_ends limit process.table result 0 process.errno
      rw [performs]
      generalize connectLoop limit result 0 process = ended at ends ⊢
      cases ends with
      | nobody sfd errno => exact Or.inl ⟨rfl, rfl⟩
      | connected member free peer errno =>
          exact Or.inr ⟨_, _, rfl, free, ⟨result, resolved, _, member, peer⟩, rfl⟩

/-! ### `inetPassiveSocket` -/

/-- The first of the addresses that can be bound gets a socket. -/
def Served (limit : Nat) (table : DescriptorTable (File Other)) (attempts : List Attempt) : Prop :=
  table.lowestFree 0 limit ≠ none ∧ Binds attempts

theorem not_served_of_full {limit : Nat} {table : DescriptorTable (File Other)}
    (full : table.lowestFree 0 limit = none) (attempts : List Attempt) :
    ¬ Served limit table attempts :=
  fun served => served.1 full

theorem binds_cons_noSocket {attempt : Attempt} {rest : List Attempt}
    (refused : attempt.socket ≠ none) : Binds (attempt :: rest) ↔ Binds rest := by
  constructor
  · intro binds
    cases binds with
    | here created _ _ => exact absurd created refused
    | noSocket _ later => exact later
    | notBound _ _ later => exact later
  · exact .noSocket refused

theorem binds_cons_notBound {attempt : Attempt} {rest : List Attempt}
    (reusable : attempt.setsockopt = none) (refused : attempt.bind ≠ none) :
    Binds (attempt :: rest) ↔ Binds rest := by
  constructor
  · intro binds
    cases binds with
    | here _ _ bound => exact absurd bound refused
    | noSocket _ later => exact later
    | notBound _ _ later => exact later
  · exact .notBound reusable refused

theorem not_binds_of_setsockopt {attempt : Attempt} {rest : List Attempt}
    (created : attempt.socket = none) (fails : attempt.setsockopt ≠ none) :
    ¬ Binds (attempt :: rest) := by
  intro binds
  cases binds with
  | here _ reusable _ => exact fails reusable
  | noSocket refused _ => exact refused created
  | notBound reusable _ _ => exact fails reusable

/-- How the loop ends: with the table as it was, or at an address with the socket that is
bound to it. The options are set only before `listen`, and only there they decide. -/
inductive PassiveEnds (limit : Nat) (table : DescriptorTable (File Other)) (doListen : Bool)
    (attempts : List Attempt) : PassiveEnd Other → Prop
  | returned (errno : Errno) (unserved : doListen = true → ¬ Served limit table attempts) :
      PassiveEnds limit table doListen attempts (.returned ⟨table, errno⟩)
  | nobody (sfd : Int) (errno : Errno)
      (unserved : doListen = true → ¬ Served limit table attempts) :
      PassiveEnds limit table doListen attempts (.after none sfd ⟨table, errno⟩)
  | bound {attempt : Attempt} (member : attempt ∈ attempts) {fd : Nat}
      (free : table fd = none) {socket : Socket} (name : socket.name = some attempt.rp.ai_addr)
      (errno : Errno) (served : doListen = true → Served limit table attempts) :
      PassiveEnds limit table doListen attempts
        (.after (some attempt.rp) fd ⟨table.assign fd (.socket socket), errno⟩)

/-- An address that is passed over neither is bound nor hides one that is. -/
theorem PassiveEnds.cons {limit : Nat} {table : DescriptorTable (File Other)} {doListen : Bool}
    {attempt : Attempt} {rest : List Attempt} {ended : PassiveEnd Other}
    (passed : doListen = true →
      (Served limit table (attempt :: rest) ↔ Served limit table rest))
    (ends : PassiveEnds limit table doListen rest ended) :
    PassiveEnds limit table doListen (attempt :: rest) ended := by
  cases ends with
  | returned errno unserved =>
      exact .returned errno fun asked served => unserved asked ((passed asked).mp served)
  | nobody sfd errno unserved =>
      exact .nobody sfd errno fun asked served => unserved asked ((passed asked).mp served)
  | bound member free name errno served =>
      exact .bound (List.mem_cons_of_mem _ member) free name errno
        fun asked => (passed asked).mpr (served asked)

/-- An address without a socket is passed over. -/
theorem served_cons_refused {limit : Nat} {table : DescriptorTable (File Other)}
    {attempt : Attempt} (rest : List Attempt)
    (refused : attempt.socket ≠ none ∨ table.lowestFree 0 limit = none) :
    Served limit table (attempt :: rest) ↔ Served limit table rest := by
  rcases refused with noSocket | full
  · exact and_congr_right fun _ => binds_cons_noSocket noSocket
  · exact iff_of_false (not_served_of_full full _) (not_served_of_full full _)

/-- The part of the loop behind `setsockopt`. -/
theorem bind_ends {limit : Nat} {table : DescriptorTable (File Other)} {doListen : Bool}
    {attempt : Attempt} {rest : List Attempt} {fd : Nat}
    (lowest : table.lowestFree 0 limit = some fd) (created : attempt.socket = none)
    (reusable : doListen = true → attempt.setsockopt = none) (socket : Socket) (errno : Errno)
    (later : ∀ errno, PassiveEnds limit table doListen rest
      (passiveLoop limit doListen rest fd ⟨table, errno⟩)) :
    PassiveEnds limit table doListen (attempt :: rest)
      (if (bind ⟨table.assign fd (.socket socket), errno⟩ fd attempt).1 = 0
        then .after (some attempt.rp) fd
          (bind ⟨table.assign fd (.socket socket), errno⟩ fd attempt).2
        else passiveLoop limit doListen rest fd
          (close (bind ⟨table.assign fd (.socket socket), errno⟩ fd attempt).2 fd)) := by
  have free := lowestFree_free lowest
  cases asked : attempt.bind with
  | none =>
      rw [bind, asked, changeSocket_succeeds, if_pos rfl]
      refine .bound List.mem_cons_self free rfl errno fun listens => ⟨?_, ?_⟩
      · simp [lowest]
      · exact .here created (reusable listens) asked
  | some failure =>
      rw [bind, asked, changeSocket_fails, if_neg (by simp), close_new _ _ _ _ free]
      refine (later failure).cons fun listens => and_congr_right fun _ => ?_
      exact binds_cons_notBound (reusable listens) (by simp [asked])

theorem passiveLoop_ends (limit : Nat) (table : DescriptorTable (File Other)) (doListen : Bool)
    (attempts : List Attempt) (sfd : Int) (errno : Errno) :
    PassiveEnds limit table doListen attempts
      (passiveLoop limit doListen attempts sfd ⟨table, errno⟩) := by
  induction attempts generalizing sfd errno with
  | nil =>
      refine .nobody sfd errno fun _ served => ?_
      cases served.2
  | cons attempt rest inductionHypothesis =>
      simp only [passiveLoop]
      by_cases refused : attempt.socket ≠ none ∨ table.lowestFree 0 limit = none
      · obtain ⟨failure, fails⟩ := socket_fails refused errno
        rw [fails]
        exact (inductionHypothesis _ _).cons fun _ => served_cons_refused rest refused
      · rw [not_or, not_not] at refused
        obtain ⟨fd, lowest⟩ := Option.ne_none_iff_exists'.mp refused.2
        have free := lowestFree_free lowest
        simp only [socket_opens refused.1 lowest, natCast_ne_neg_one, ↓reduceIte]
        have later := fun errno => inductionHypothesis (fd : Int) errno
        cases doListen with
        | false => exact bind_ends lowest refused.1 (fun listens => by cases listens) _ _ later
        | true =>
            cases asked : attempt.setsockopt with
            | none =>
                simp only [setsockopt, asked, changeSocket_succeeds, ↓reduceIte]
                exact bind_ends lowest refused.1 (fun _ => asked) _ _ later
            | some failure =>
                simp only [setsockopt, asked, changeSocket_fails, ↓reduceIte,
                  close_new _ _ _ _ free]
                refine .returned failure fun _ served => ?_
                exact not_binds_of_setsockopt refused.1 (by simp [asked]) served.2

theorem inetBind_law (limit : Nat) (world : World) (service : Text) (type : Int) (addrlen : Bool)
    (process : Process Other) :
    (Call.inetBind service type addrlen).KeepsLaw limit world process := by
  unfold Call.KeepsLaw
  cases resolved : world.getaddrinfo none service ⟨AF_UNSPEC, type, AI_PASSIVE⟩ with
  | error _ =>
      rw [Call.perform, inetBind, inetPassiveSocket, resolved]
      exact Or.inl ⟨rfl, rfl⟩
  | ok result =>
      have performs : (Call.inetBind service type addrlen).perform limit world process =
          passiveReturned world addrlen false 0 (passiveLoop limit false result 0 process) := by
        rw [Call.perform, inetBind, inetPassiveSocket, resolved]
      have ends := passiveLoop_ends limit process.table false result 0 process.errno
      rw [performs]
      generalize passiveLoop limit false result 0 process = ended at ends ⊢
      cases ends with
      | returned errno _ => exact Or.inl ⟨rfl, rfl⟩
      | nobody sfd errno _ => exact Or.inl ⟨rfl, rfl⟩
      | bound member free name errno _ =>
          exact Or.inr ⟨_, _, rfl, free, ⟨result, resolved, _, member, name, rfl⟩, rfl⟩

theorem inetListen_leaks_iff {limit : Nat} {world : World} {service : Text}
    {process : Process Other} {result : List Attempt} (backlog : Int) (addrlen : Bool)
    (resolved : world.getaddrinfo none service ⟨AF_UNSPEC, SOCK_STREAM, AI_PASSIVE⟩ = .ok result) :
    (Call.inetListen service backlog addrlen).Leaks limit world process ↔
      world.listen ≠ none ∧ Served limit process.table result := by
  simp only [Call.Leaks, Served, resolved, Except.ok.injEq, exists_eq_left']

/-- A call of `inetListen` keeps the law unless `listen` fails on a bound socket. -/
theorem inetListen_law_iff (limit : Nat) (world : World) (service : Text) (backlog : Int)
    (addrlen : Bool) (process : Process Other) :
    (Call.inetListen service backlog addrlen).KeepsLaw limit world process ↔
      ¬ (Call.inetListen service backlog addrlen).Leaks limit world process := by
  unfold Call.KeepsLaw
  cases resolved : world.getaddrinfo none service ⟨AF_UNSPEC, SOCK_STREAM, AI_PASSIVE⟩ with
  | error _ =>
      rw [Call.perform, inetListen, inetPassiveSocket, resolved]
      exact iff_of_true (Or.inl ⟨rfl, rfl⟩) (by simp [Call.Leaks, resolved])
  | ok result =>
      have performs : (Call.inetListen service backlog addrlen).perform limit world process =
          passiveReturned world addrlen true backlog
            (passiveLoop limit true result 0 process) := by
        rw [Call.perform, inetListen, inetPassiveSocket, resolved]
      have ends := passiveLoop_ends limit process.table true result 0 process.errno
      rw [performs, inetListen_leaks_iff backlog addrlen resolved]
      generalize passiveLoop limit true result 0 process = ended at ends ⊢
      cases ends with
      | returned errno unserved =>
          exact iff_of_true (Or.inl ⟨rfl, rfl⟩) fun leaks => unserved rfl leaks.2
      | nobody sfd errno unserved =>
          exact iff_of_true (Or.inl ⟨rfl, rfl⟩) fun leaks => unserved rfl leaks.2
      | @bound attempt member fd free socket name errno served =>
          cases listens : world.listen with
          | none =>
              simp only [passiveReturned, listens, listen, changeSocket_succeeds, ↓reduceIte]
              refine iff_of_true (Or.inr ⟨fd, _, rfl, free, ?_, rfl⟩) fun leaks => leaks.1 rfl
              exact ⟨result, resolved, ⟨attempt, member, name, rfl⟩, rfl⟩
          | some failure =>
              simp only [passiveReturned, listens, listen, changeSocket_fails, ↓reduceIte]
              refine iff_of_false ?_ fun closed => closed ⟨Option.some_ne_none _, served rfl⟩
              rintro (failed | returns)
              · -- The new descriptor was free before.
                have changed : process.table.assign fd (.socket socket) fd = process.table fd :=
                  congrFun failed.2 fd
                rw [DescriptorTable.assign_self, free] at changed
                cases changed
              · obtain ⟨other, _, value, _⟩ := returns
                exact natCast_ne_neg_one other value.symm

/-! ### Runs -/

/-- No call of the run finds a socket bound and fails to listen. -/
def NeverLeaks (limit : Nat) : List (World × Call) → Process Other → Prop
  | [], _ => True
  | (world, call) :: rest, process =>
      ¬ call.Leaks limit world process ∧
        NeverLeaks limit rest (call.perform limit world process).process

theorem perform_law_iff (limit : Nat) (world : World) (call : Call) (process : Process Other) :
    call.KeepsLaw limit world process ↔ ¬ call.Leaks limit world process := by
  cases call with
  | inetConnect host service type =>
      exact iff_of_true (inetConnect_law limit world host service type process) id
  | inetListen service backlog addrlen =>
      exact inetListen_law_iff limit world service backlog addrlen process
  | inetBind service type addrlen =>
      exact iff_of_true (inetBind_law limit world service type addrlen process) id

/-- What a call that keeps the law does to a descriptor that it does not return: nothing. -/
theorem perform_other {limit : Nat} {world : World} {call : Call} {process : Process Other}
    (law : call.KeepsLaw limit world process) {fd : Nat}
    (other : (call.perform limit world process).value ≠ fd) :
    (call.perform limit world process).process.table fd = process.table fd := by
  rcases law with failed | returns
  · rw [failed.2]
  · obtain ⟨returned, socket, value, _, _, table⟩ := returns
    have different : fd ≠ returned := fun same => other (by rw [value, same])
    rw [table, DescriptorTable.assign_other _ _ different]

/-- After any number of calls, only descriptors that were returned refer to something new. -/
theorem run_other {limit : Nat} {calls : List (World × Call)} {process : Process Other}
    (neverLeaks : NeverLeaks limit calls process) {fd : Nat}
    (notReturned : (fd : Int) ∉ (run limit calls process).1) :
    (run limit calls process).2.table fd = process.table fd := by
  induction calls generalizing process with
  | nil => rfl
  | cons first rest inductionHypothesis =>
      obtain ⟨world, call⟩ := first
      rw [run, List.mem_cons, not_or] at notReturned
      have law := (perform_law_iff limit world call process).mpr neverLeaks.1
      rw [run, inductionHypothesis neverLeaks.2 notReturned.2,
        perform_other law (Ne.symm notReturned.1)]

/-- A call closes what it does not return exactly if it does not fail to listen on a bound
socket, and so runs without such calls leave no descriptor behind. -/
theorem calls_close_iff (limit : Nat) (world : World) (call : Call) (process : Process Other)
    (calls : List (World × Call)) :
    (call.KeepsLaw limit world process ↔ ¬ call.Leaks limit world process) ∧
      (NeverLeaks limit calls process → ∀ fd : Nat, (fd : Int) ∉ (run limit calls process).1 →
        (run limit calls process).2.table fd = process.table fd) :=
  ⟨perform_law_iff limit world call process, fun neverLeaks _ => run_other neverLeaks⟩

def loopback : Addrinfo := ⟨2, 1, 6, [127, 0, 0, 1], 16⟩

/-- One address, on which all calls but `listen` succeed. -/
def inUse : World where
  getaddrinfo _ _ _ := .ok [⟨loopback, none, none, none, none⟩]
  listen := some 98

/-- No descriptor is open. -/
def noFiles : Process Nat := ⟨fun _ => none, 0⟩

/-- `inetListen` fails, and descriptor 0 stays open. -/
theorem inetListen_leaves_open :
    ¬ (Call.inetListen [] 5 false).KeepsLaw 1024 inUse noFiles ∧
      ((Call.inetListen [] 5 false).perform 1024 inUse noFiles).value = -1 ∧
      ((Call.inetListen [] 5 false).perform 1024 inUse noFiles).process.table 0 ≠ none := by
  have value : ((Call.inetListen [] 5 false).perform 1024 inUse noFiles).value = -1 := rfl
  have leftOpen :
      ((Call.inetListen [] 5 false).perform 1024 inUse noFiles).process.table 0 ≠ none :=
    Option.some_ne_none _
  refine ⟨?_, value, leftOpen⟩
  rintro (failed | returns)
  · exact leftOpen (congrFun failed.2 0)
  · obtain ⟨fd, _, isFd, _⟩ := returns
    exact natCast_ne_neg_one fd (isFd.symm.trans value)

end LinuxProgramming.Sockets.InetSockets
