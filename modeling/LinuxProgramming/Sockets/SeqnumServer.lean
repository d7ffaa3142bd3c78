import LinuxProgramming.Library.Atoi
import LinuxProgramming.Sockets.Readline

/-!
Contract: the iterative sequence server `is_seqnum_sv`, from `accept` to
`close` of one connection and over any sequence of connections.

Owns:
- `Server`, what `main` keeps across connections, and `serve`;
- the condition under which what a connection gets depends on its bytes alone;
- a connection whose grant changes with the history.

Does not own: the set-up of the listening socket.
-/

namespace LinuxProgramming.Sockets

open LinuxProgramming.Library
open Lines Atoi

def INT_LEN : Nat := 50

/-- The locals of `main` that outlive a connection. -/
structure Server where
  seqNum : UInt32
  reqLenStr : List UInt8
  rlbuf : ReadlineBuf
deriving DecidableEq

/-- The buffers have the sizes they are declared with. -/
structure Server.Valid (server : Server) : Prop where
  requestSize : server.reqLenStr.length = INT_LEN
  bufferSize : server.rlbuf.buf.length = BUF_SIZE

/-- The server after a connection, and what it wrote to the client. -/
structure Served where
  server : Server
  reply : Option String
deriving DecidableEq

/-- `snprintf(seqNumStr, INT_LEN, "%d\\n", seqNum)`: the number is printed as an `int`. -/
def seqNumStr (seqNum : UInt32) : String :=
  toString ((seqNum.toNat : Int).bmod (2 ^ 32)) ++ "\\n"

/-- One iteration of the loop of `main`, for an accepted connection. -/
def serve (cfd : Int) (peer : Peer) (server : Server) : Except Stop Served :=
  match readlineBuf Peer.read (peer.stream.length + 1) (readlineBufInit cfd server.rlbuf)
      (some server.reqLenStr) INT_LEN peer with
  | .error stop => .error stop
  | .ok call =>
      let server := { server with rlbuf := call.rlbuf, reqLenStr := call.buff }
      if call.value ≤ 0 then .ok ⟨server, none⟩
      else match atoi? server.reqLenStr with
        | none => .error .outOfBounds
        | some reqLen =>
            if reqLen ≤ 0 then .ok ⟨server, none⟩
            else .ok ⟨{ server with seqNum := server.seqNum + UInt32.ofInt reqLen },
              some (seqNumStr server.seqNum)⟩

/-- The server after it has served these connections, if it comes to the end of each. -/
def serveAll : List (Int × Peer) → Server → Except Stop Server
  | [], server => .ok server
  | (cfd, peer) :: rest, server =>
      match serve cfd peer server with
      | .error stop => .error stop
      | .ok served => serveAll rest served.server

/-- What a connection gets: whether a range is granted to it, and how much `seqNum`
grows for it. -/
def outcome (cfd : Int) (peer : Peer) (server : Server) : Except Stop (Bool × UInt32) :=
  match serve cfd peer server with
  | .error stop => .error stop
  | .ok served => .ok (served.reply.isSome, served.server.seqNum - server.seqNum)

/-- Whatever came before, on any descriptor, a connection with the bytes of `peer` has the
same outcome, and the server reads nothing outside its buffer. -/
def Isolated (start : Server) (cfd : Int) (peer : Peer) : Prop :=
  ∀ history history' server server' cfd' peer',
    serveAll history start = .ok server → serveAll history' start = .ok server' →
    peer'.stream = peer.stream → peer'.closes = peer.closes →
    outcome cfd peer server = outcome cfd' peer' server' ∧
    outcome cfd peer server ≠ .error .outOfBounds

/-! ### What a connection asks for -/

/-- The part of its first line that the server stores. -/
def request (peer : Peer) : List UInt8 :=
  (firstLine newline peer.stream).take INT_LEN

/-- The peer neither ends its first line nor closes its side. -/
def Peer.Waits (peer : Peer) : Prop :=
  newline ∉ peer.stream ∧ peer.closes = false

instance (peer : Peer) : Decidable peer.Waits :=
  inferInstanceAs (Decidable (_ ∧ _))

/-- The stored bytes settle the number: nothing was received, or a byte that ends the
number is among them. -/
def Settled (peer : Peer) : Prop :=
  request peer = [] ∨ (atoi? (request peer)).isSome

instance (peer : Peer) : Decidable (Settled peer) :=
  inferInstanceAs (Decidable (_ ∨ _))

/-- What the bytes of a connection entitle it to. -/
def entitled (peer : Peer) : Except Stop (Bool × UInt32) :=
  if peer.Waits then .error .blocked
  else match atoi? (request peer) with
    | none => .ok (false, 0)
    | some reqLen => if reqLen ≤ 0 then .ok (false, 0) else .ok (true, UInt32.ofInt reqLen)

/-- What the server reads the number from: the request over the last one. -/
def overwritten (peer : Peer) (server : Server) : List UInt8 :=
  request peer ++ server.reqLenStr.drop (request peer).length

theorem stored_eq_overwritten (peer : Peer) (server : Server) :
    stored INT_LEN server.reqLenStr (firstLine newline peer.stream) =
      overwritten peer server := by
  rw [stored, overwritten, request, List.length_take]

/-- The server as `readline_buf` leaves it. -/
def Server.filled (server : Server) (peer : Peer) (rlbuf : ReadlineBuf) : Server :=
  { server with rlbuf := rlbuf, reqLenStr := overwritten peer server }

theorem Server.Valid.filled {server : Server} (valid : server.Valid) (peer : Peer)
    {rlbuf : ReadlineBuf} (size : rlbuf.buf.length = BUF_SIZE) :
    (server.filled peer rlbuf).Valid := by
  refine ⟨?_, size⟩
  have short : (request peer).length ≤ INT_LEN := List.length_take_le _ _
  have := valid.requestSize
  simp only [Server.filled, overwritten, List.length_append, List.length_drop]
  omega

/-- What `serve` does once a request has come in. -/
theorem serve_received {server : Server} (valid : server.Valid) {peer : Peer}
    (ends : ¬ peer.Waits) (cfd : Int) :
    ∃ rlbuf, rlbuf.buf.length = BUF_SIZE ∧ serve cfd peer server =
      if request peer = [] then .ok ⟨server.filled peer rlbuf, none⟩
      else match atoi? (overwritten peer server) with
        | none => .error .outOfBounds
        | some reqLen =>
            if reqLen ≤ 0 then .ok ⟨server.filled peer rlbuf, none⟩
            else .ok ⟨{ server.filled peer rlbuf with
                seqNum := server.seqNum + UInt32.ofInt reqLen },
              some (seqNumStr server.seqNum)⟩ := by
  have comes : newline ∈ peer.stream ∨ peer.closes = true := by
    by_contra neither
    rw [not_or, Bool.not_eq_true] at neither
    exact ends neither
  have enough : (unread (readlineBufInit cfd server.rlbuf) peer).length <
      peer.stream.length + 1 := by
    rw [unread_init]
    exact Nat.lt_succ_self _
  obtain ⟨rlbuf, peer', ran, valid', -, -⟩ :=
    readlineBuf_line (ReadlineBuf.valid_init valid.bufferSize cfd)
      enough (by decide) (Nat.le_of_eq valid.requestSize.symm) (by rwa [unread_init])
  rw [unread_init, stored_eq_overwritten] at ran
  have counted : min INT_LEN (firstLine newline peer.stream).length = (request peer).length :=
    (List.length_take).symm
  refine ⟨rlbuf, valid'.size, ?_⟩
  rw [serve, ran, counted]
  by_cases nothing : request peer = []
  · rw [if_pos nothing]
    exact if_pos (by simp [nothing])
  · have some_ : 0 < (request peer).length := List.length_pos_of_ne_nil nothing
    rw [if_neg nothing]
    exact if_neg (Int.not_le.mpr (Int.natCast_pos.mpr some_))

theorem serve_waits {server : Server} (valid : server.Valid) {peer : Peer} (waits : peer.Waits)
    (cfd : Int) : serve cfd peer server = .error .blocked := by
  have blocked : readlineBuf Peer.read (peer.stream.length + 1)
      (readlineBufInit cfd server.rlbuf) (some server.reqLenStr) INT_LEN peer =
        .error .blocked := by
    rw [readlineBuf, if_neg (by decide)]
    exact readlineLoop_blocked (ReadlineBuf.valid_init valid.bufferSize cfd) (unread_init _ _ _)
      (Nat.lt_succ_self _) (Nat.zero_le _) (Nat.le_of_eq valid.requestSize.symm) waits.1 waits.2
  rw [serve, blocked]

theorem Server.Valid.serve {server : Server} (valid : server.Valid) {cfd : Int} {peer : Peer}
    {served : Served} (ran : serve cfd peer server = .ok served) : served.server.Valid := by
  by_cases waits : peer.Waits
  · rw [serve_waits valid waits] at ran
    cases ran
  · obtain ⟨rlbuf, size, result⟩ := serve_received valid waits cfd
    have filled := valid.filled peer size
    rw [result] at ran
    split at ran
    · cases ran
      exact filled
    · split at ran
      · cases ran
      · split at ran
        · cases ran
          exact filled
        · cases ran
          exact ⟨filled.requestSize, filled.bufferSize⟩

theorem Server.Valid.serveAll {server final : Server} (valid : server.Valid)
    {history : List (Int × Peer)} (ran : serveAll history server = .ok final) : final.Valid := by
  induction history generalizing server with
  | nil =>
      cases ran
      exact valid
  | cons connection rest inductionHypothesis =>
      obtain ⟨cfd, peer⟩ := connection
      rw [Sockets.serveAll] at ran
      split at ran
      · cases ran
      · next served ranFirst => exact inductionHypothesis (valid.serve ranFirst) ran

/-- A settled request gets what its bytes entitle it to. -/
theorem outcome_settled {server : Server} (valid : server.Valid) {peer : Peer}
    (settled : Settled peer) (cfd : Int) : outcome cfd peer server = entitled peer := by
  by_cases waits : peer.Waits
  · rw [outcome, serve_waits valid waits, entitled, if_pos waits]
  · obtain ⟨rlbuf, -, result⟩ := serve_received valid waits cfd
    rw [outcome, result, entitled, if_neg waits]
    by_cases nothing : request peer = []
    · rw [if_pos nothing, nothing]
      simp [Server.filled, atoi?, strtol?, signed?]
    · obtain ⟨reqLen, number⟩ := Option.isSome_iff_exists.mp (settled.resolve_left nothing)
      rw [if_neg nothing, overwritten, atoi?_append number, number]
      by_cases refused : reqLen ≤ 0
      · simp [refused, Server.filled]
      · simp [refused, UInt32.add_comm server.seqNum]

/-! ### A request that is not settled -/

/-- Fifty bytes without a number that end in digits. -/
def poison : Peer :=
  ⟨[⟨120 :: List.replicate 49 48, List.cons_ne_nil _ _, by decide⟩], true⟩

/-- The server keeps these bytes for the next connection. -/
theorem serve_poison {server : Server} (valid : server.Valid) (cfd : Int) :
    ∃ served, serve cfd poison server = .ok served ∧
      served.server.reqLenStr = 120 :: List.replicate 49 48 := by
  have request_ : request poison = 120 :: List.replicate 49 48 := by decide
  have kept : overwritten poison server = 120 :: List.replicate 49 48 := by
    rw [overwritten, request_, List.drop_eq_nil_of_le (by rw [valid.requestSize]; decide),
      List.append_nil]
  have ends : ¬ poison.Waits := by decide
  obtain ⟨rlbuf, -, result⟩ := serve_received valid ends cfd
  have number : atoi? (120 :: List.replicate 49 48) = some 0 := by decide
  rw [kept, number, request_, if_neg (List.cons_ne_nil _ _)] at result
  exact ⟨_, result, kept⟩

/-- After them, an open number is scanned past the end of the buffer. -/
theorem outcome_open {server : Server} (valid : server.Valid)
    (kept : server.reqLenStr = 120 :: List.replicate 49 48) {peer : Peer}
    (ends : ¬ peer.Waits) (open_ : ¬ Settled peer) (cfd : Int) :
    outcome cfd peer server = .error .outOfBounds := by
  obtain ⟨rlbuf, -, result⟩ := serve_received valid ends cfd
  obtain ⟨something, noNumber⟩ := not_or.mp open_
  rw [Option.not_isSome_iff_eq_none] at noNumber
  have digits : ∀ c ∈ server.reqLenStr.drop (request peer).length, isdigit c := by
    obtain ⟨length, isLength⟩ := Nat.exists_eq_add_one_of_ne_zero
      (Nat.ne_of_gt (List.length_pos_of_ne_nil something))
    intro c member
    rw [kept, isLength, List.drop_succ_cons] at member
    rw [List.eq_of_mem_replicate (List.mem_of_mem_drop member)]
    decide
  rw [outcome, result, if_neg something, overwritten, atoi?_open noNumber digits]

theorem entitled_congr {peer peer' : Peer} (stream : peer'.stream = peer.stream)
    (closes : peer'.closes = peer.closes) : entitled peer' = entitled peer := by
  have waits : peer'.Waits ↔ peer.Waits := by rw [Peer.Waits, Peer.Waits, stream, closes]
  have asked : request peer' = request peer := by rw [request, request, stream]
  simp only [entitled, waits, asked]

theorem entitled_inBounds (peer : Peer) : entitled peer ≠ .error .outOfBounds := by
  rw [entitled]
  split
  · simp
  · split
    · simp
    · split <;> simp

/-- A connection gets what its bytes entitle it to if it waits or its request is settled. -/
theorem outcome_entitled {server : Server} (valid : server.Valid) {peer : Peer}
    (decided : peer.Waits ∨ Settled peer) (cfd : Int) :
    outcome cfd peer server = entitled peer := by
  obtain waits | settled := decided
  · rw [outcome, serve_waits valid waits, entitled, if_pos waits]
  · exact outcome_settled valid settled cfd

/-- A server that was just started, with request buffer and bookkeeping all zero. -/
def fresh : Server :=
  ⟨0, List.replicate INT_LEN 0, ⟨0, List.replicate BUF_SIZE 0, 0, 0⟩⟩

end LinuxProgramming.Sockets
