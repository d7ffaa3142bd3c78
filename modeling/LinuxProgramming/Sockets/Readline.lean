import LinuxProgramming.Library.Lines

/-!
Contract: `readline_buf`, the buffered line reader of the stream sockets.

Owns:
- `ReadlineBuf`, `readlineBufInit` and `readlineBuf`, over any `read`;
- `Peer`, the other end of a connection: bytes that arrive in pieces, and
  whether the peer closes its side after them;
- the specification of one call on a peer, and of a sequence of calls.

Does not own: the server that reads with it.
-/

namespace LinuxProgramming.Sockets

open LinuxProgramming.Library

def BUF_SIZE : Nat := 1024

def EINVAL : Nat := 22

/-- The byte `'\n'`. -/
def newline : UInt8 := 10

/-- What one `read` does: deliver bytes, fail, or wait for ever. -/
inductive ReadResult (W : Type) where
  | data (bytes : List UInt8) (world : W)
  | failed (errno : Nat) (world : W)
  | blocked

/-- Why a call does not return: `read` blocks, an access outside an object, or more
iterations than the fuel allows. -/
inductive Stop where
  | blocked
  | outOfBounds
  | outOfFuel
deriving DecidableEq, Repr

/-- `struct readline_buf`. -/
structure ReadlineBuf where
  fd : Int
  buf : List UInt8
  buf_len : Int
  buf_p : Nat
deriving DecidableEq, Repr

/-- What stands at the top of an iteration once the buffer has been looked after. -/
inductive Refilled (W : Type) where
  | ready (rlbuf : ReadlineBuf) (world : W)
  | atEnd (rlbuf : ReadlineBuf) (world : W)
  | failed (errno : Nat) (rlbuf : ReadlineBuf) (world : W)
  | blocked

/-- What a call returns and what it leaves behind. -/
structure Returned (W : Type) where
  value : Int
  errno : Option Nat
  rlbuf : ReadlineBuf
  buff : List UInt8
  world : W

def readlineBufInit (fd : Int) (rlbuf : ReadlineBuf) : ReadlineBuf :=
  { rlbuf with fd := fd, buf_len := 0, buf_p := 0 }

section Model

variable {W : Type} (read : Int → Nat → W → ReadResult W)

/-- Read more bytes if all buffered ones are used. -/
def refill (rlbuf : ReadlineBuf) (world : W) : Refilled W :=
  if rlbuf.buf_p ≥ rlbuf.buf_len then
    match read rlbuf.fd BUF_SIZE world with
    | .blocked => .blocked
    | .failed errno world => .failed errno { rlbuf with buf_len := -1 } world
    | .data [] world => .atEnd { rlbuf with buf_len := 0 } world
    | .data bytes world =>
        .ready
          { rlbuf with
            buf := bytes ++ rlbuf.buf.drop bytes.length
            buf_len := bytes.length
            buf_p := 0 }
          world
  else .ready rlbuf world

/-- The loop of `readline_buf`. -/
def readlineLoop (n : Nat) :
    Nat → Nat → ReadlineBuf → List UInt8 → W → Except Stop (Returned W)
  | 0, _, _, _, _ => .error .outOfFuel
  | fuel + 1, cnt, rlbuf, buff, world =>
      match refill read rlbuf world with
      | .blocked => .error .blocked
      | .failed errno rlbuf world => .ok ⟨-1, some errno, rlbuf, buff, world⟩
      | .atEnd rlbuf world => .ok ⟨cnt, none, rlbuf, buff, world⟩
      | .ready rlbuf world =>
          match rlbuf.buf[rlbuf.buf_p]? with
          | none => .error .outOfBounds
          | some c =>
              let rlbuf := { rlbuf with buf_p := rlbuf.buf_p + 1 }
              if cnt < n ∧ buff.length ≤ cnt then .error .outOfBounds
              else
                let stored := if cnt < n then buff.set cnt c else buff
                let cnt := if cnt < n then cnt + 1 else cnt
                if c = newline then .ok ⟨cnt, none, rlbuf, stored, world⟩
                else readlineLoop n fuel cnt rlbuf stored world

/-- `readline_buf`; a `buff` of `none` is `NULL`. -/
def readlineBuf (fuel : Nat) (rlbuf : ReadlineBuf) (buff : Option (List UInt8)) (n : Nat)
    (world : W) : Except Stop (Returned W) :=
  match buff with
  | none => .ok ⟨-1, some EINVAL, rlbuf, [], world⟩
  | some buff =>
      if n ≤ 0 then .ok ⟨-1, some EINVAL, rlbuf, buff, world⟩
      else readlineLoop read n fuel 0 rlbuf buff world

end Model

/-! ### The other end of a connection -/

/-- What one `read` delivers: at least a byte, and no more than was asked for. -/
structure Piece where
  bytes : List UInt8
  notEmpty : bytes ≠ []
  fits : bytes.length ≤ BUF_SIZE
deriving DecidableEq

/-- The bytes still to arrive, as successive reads split them, and whether the peer
closes its side after them. -/
structure Peer where
  pieces : List Piece
  closes : Bool
deriving DecidableEq

namespace Peer

/-- The bytes still to arrive. -/
def stream (peer : Peer) : List UInt8 :=
  (peer.pieces.map Piece.bytes).flatten

/-- `read` on the connection. -/
def read (_fd : Int) (_count : Nat) (peer : Peer) : ReadResult Peer :=
  match peer.pieces with
  | piece :: rest => .data piece.bytes { peer with pieces := rest }
  | [] => if peer.closes then .data [] peer else .blocked

end Peer

/-- The buffered bytes that are not used yet. -/
def ReadlineBuf.remainder (rlbuf : ReadlineBuf) : List UInt8 :=
  (rlbuf.buf.take rlbuf.buf_len.toNat).drop rlbuf.buf_p

/-- The structure has its size, and its length field is one. -/
structure ReadlineBuf.Valid (rlbuf : ReadlineBuf) : Prop where
  size : rlbuf.buf.length = BUF_SIZE
  nonneg : 0 ≤ rlbuf.buf_len
  within : rlbuf.buf_len ≤ BUF_SIZE

/-- All bytes of the stream that no call has used: buffered, or still to arrive. -/
def unread (rlbuf : ReadlineBuf) (peer : Peer) : List UInt8 :=
  rlbuf.remainder ++ peer.stream

theorem ReadlineBuf.valid_init {rlbuf : ReadlineBuf} (size : rlbuf.buf.length = BUF_SIZE)
    (fd : Int) : (readlineBufInit fd rlbuf).Valid :=
  ⟨size, Int.le_refl 0, Int.natCast_nonneg _⟩

theorem unread_init (fd : Int) (rlbuf : ReadlineBuf) (peer : Peer) :
    unread (readlineBufInit fd rlbuf) peer = peer.stream := by
  simp [unread, ReadlineBuf.remainder, readlineBufInit]

/-- The buffered byte an iteration takes is the first one that is not used. -/
theorem ReadlineBuf.remainder_cons {rlbuf : ReadlineBuf} (valid : rlbuf.Valid)
    (some_left : ¬ rlbuf.buf_p ≥ rlbuf.buf_len) :
    ∃ c, rlbuf.buf[rlbuf.buf_p]? = some c ∧
      rlbuf.remainder = c :: { rlbuf with buf_p := rlbuf.buf_p + 1 }.remainder := by
  obtain ⟨size, nonneg, within⟩ := valid
  have inBuffer : rlbuf.buf_p < rlbuf.buf.length := by omega
  have inTaken : rlbuf.buf_p < (rlbuf.buf.take rlbuf.buf_len.toNat).length := by
    rw [List.length_take]
    omega
  refine ⟨rlbuf.buf[rlbuf.buf_p], List.getElem?_eq_getElem inBuffer, ?_⟩
  rw [ReadlineBuf.remainder, List.drop_eq_getElem_cons inTaken, List.getElem_take]
  rfl

theorem ReadlineBuf.remainder_eq_nil {rlbuf : ReadlineBuf}
    (used : rlbuf.buf_p ≥ rlbuf.buf_len) : rlbuf.remainder = [] := by
  rw [ReadlineBuf.remainder, List.drop_eq_nil_iff, List.length_take]
  omega

/-- What `refill` does while bytes are left: the next one is buffered. -/
theorem refill_ready {rlbuf : ReadlineBuf} (valid : rlbuf.Valid) {peer : Peer} {c : UInt8}
    {rest : List UInt8} (next : unread rlbuf peer = c :: rest) :
    ∃ rlbuf' peer', refill Peer.read rlbuf peer = .ready rlbuf' peer' ∧ rlbuf'.Valid ∧
      rlbuf'.buf[rlbuf'.buf_p]? = some c ∧
      unread { rlbuf' with buf_p := rlbuf'.buf_p + 1 } peer' = rest ∧
      peer'.closes = peer.closes := by
  by_cases used : rlbuf.buf_p ≥ rlbuf.buf_len
  · rw [unread, ReadlineBuf.remainder_eq_nil used, List.nil_append] at next
    obtain ⟨pieces, closes⟩ := peer
    cases pieces with
    | nil => cases next
    | cons piece pieces =>
        obtain ⟨bytes, notEmpty, fits⟩ := piece
        cases bytes with
        | nil => exact absurd rfl notEmpty
        | cons first others =>
            simp only [Peer.stream, List.map_cons, List.flatten_cons, List.cons_append,
              List.cons.injEq] at next
            obtain ⟨rfl, rfl⟩ := next
            refine ⟨⟨rlbuf.fd, first :: others ++ rlbuf.buf.drop (first :: others).length,
              (first :: others).length, 0⟩, ⟨pieces, closes⟩,
              by simp only [refill, used, if_true, Peer.read], ?_, rfl, ?_, rfl⟩
            · refine ⟨?_, Int.natCast_nonneg _, Int.ofNat_le.mpr fits⟩
              have := valid.size
              simp only [List.length_append, List.length_drop]
              omega
            · simp [unread, ReadlineBuf.remainder, Peer.stream]
  · obtain ⟨first, stands, split⟩ := ReadlineBuf.remainder_cons valid used
    rw [unread, split, List.cons_append, List.cons.injEq] at next
    obtain ⟨rfl, rfl⟩ := next
    exact ⟨rlbuf, peer, if_neg used, valid, stands, rfl, rfl⟩

/-- What `refill` does once all bytes are used. -/
theorem refill_atEnd {rlbuf : ReadlineBuf} (valid : rlbuf.Valid) {peer : Peer}
    (none_left : unread rlbuf peer = []) :
    (peer.closes = true → ∃ rlbuf', refill Peer.read rlbuf peer = .atEnd rlbuf' peer ∧
      rlbuf'.Valid ∧ unread rlbuf' peer = []) ∧
    (peer.closes = false → refill Peer.read rlbuf peer = .blocked) := by
  obtain ⟨remainder, stream⟩ := List.append_eq_nil_iff.mp none_left
  have used : rlbuf.buf_p ≥ rlbuf.buf_len := by
    by_contra some_left
    obtain ⟨c, -, split⟩ := ReadlineBuf.remainder_cons valid some_left
    rw [split] at remainder
    cases remainder
  have noPiece : peer.pieces = [] := by
    cases pieces : peer.pieces with
    | nil => rfl
    | cons piece rest =>
        rw [Peer.stream, pieces, List.map_cons, List.flatten_cons] at stream
        exact absurd (List.append_eq_nil_iff.mp stream).1 piece.notEmpty
  constructor
  · intro closes
    refine ⟨{ rlbuf with buf_len := 0 }, by simp [refill, used, Peer.read, noPiece, closes],
      ⟨valid.size, Int.le_refl 0, Int.natCast_nonneg _⟩, ?_⟩
    simp [unread, ReadlineBuf.remainder, stream]
  · intro closes
    simp [refill, used, Peer.read, noPiece, closes]

/-! ### One call -/

open Lines

/-- A receive buffer of size `n` after `line` was stored from index `cnt` on. -/
def received (n cnt : Nat) (buff line : List UInt8) : List UInt8 :=
  buff.take cnt ++ line.take (n - cnt) ++ buff.drop (cnt + (line.take (n - cnt)).length)

theorem received_nil (n cnt : Nat) (buff : List UInt8) : received n cnt buff [] = buff := by
  simp [received]

theorem received_set {n cnt : Nat} {buff : List UInt8} (room : cnt < n)
    (fits : cnt < buff.length) (c : UInt8) (line : List UInt8) :
    received n (cnt + 1) (buff.set cnt c) line = received n cnt buff (c :: line) := by
  have one_more : n - cnt = n - (cnt + 1) + 1 := by omega
  have taken : (buff.set cnt c).take (cnt + 1) = buff.take cnt ++ [c] := by
    rw [List.take_add_one, List.take_set_of_le (Nat.le_refl cnt),
      List.getElem?_set_self fits]
    rfl
  rw [received, received, one_more, List.take_succ_cons, taken, List.length_cons,
    List.drop_set_of_lt (by omega)]
  simp only [List.append_assoc, List.singleton_append]
  congr 3
  omega

theorem received_full {n cnt : Nat} (full : n ≤ cnt) (buff line : List UInt8) :
    received n cnt buff line = buff := by
  rw [received, Nat.sub_eq_zero_of_le full]
  simp

/-- Storing one byte, if there is room, and then a line. -/
theorem received_cons {n cnt : Nat} {buff : List UInt8} (counted : cnt ≤ n)
    (room : n ≤ buff.length) (c : UInt8) (line : List UInt8) :
    received n (if cnt < n then cnt + 1 else cnt) (if cnt < n then buff.set cnt c else buff)
      line = received n cnt buff (c :: line) := by
  by_cases more : cnt < n
  · rw [if_pos more, if_pos more, received_set more (by omega)]
  · rw [if_neg more, if_neg more, received_full (by omega), received_full (by omega)]

section Counts

variable {n cnt : Nat}

theorem counted_next (counted : cnt ≤ n) : (if cnt < n then cnt + 1 else cnt) ≤ n := by
  split <;> omega

theorem room_next {buff : List UInt8} (room : n ≤ buff.length) (c : UInt8) :
    n ≤ (if cnt < n then buff.set cnt c else buff).length := by
  split <;> simpa using room

/-- Bytes for which there is no room are not counted. -/
theorem min_next (counted : cnt ≤ n) (more : Nat) :
    min n ((if cnt < n then cnt + 1 else cnt) + more) = min n (cnt + (more + 1)) := by
  split <;> omega

theorem min_last (counted : cnt ≤ n) :
    (if cnt < n then cnt + 1 else cnt) = min n (cnt + 1) := by
  have next := min_next counted 0
  rwa [Nat.add_zero, Nat.min_eq_right (counted_next counted)] at next

end Counts

/-- The loop stores the line that comes next, as far as it has room, and uses up
exactly that line. -/
theorem readlineLoop_line {n : Nat} {text : List UInt8} {fuel cnt : Nat} {rlbuf : ReadlineBuf}
    {buff : List UInt8} {peer : Peer} (valid : rlbuf.Valid) (next : unread rlbuf peer = text)
    (enough : text.length < fuel) (counted : cnt ≤ n) (room : n ≤ buff.length)
    (ends : newline ∈ text ∨ peer.closes = true) :
    ∃ rlbuf' peer', readlineLoop Peer.read n fuel cnt rlbuf buff peer =
        .ok ⟨(min n (cnt + (firstLine newline text).length) : Nat), none, rlbuf',
          received n cnt buff (firstLine newline text), peer'⟩ ∧
      rlbuf'.Valid ∧ unread rlbuf' peer' = afterLine newline text ∧
      peer'.closes = peer.closes := by
  induction text generalizing fuel cnt rlbuf buff peer with
  | nil =>
      obtain ⟨fuel, rfl⟩ := Nat.exists_eq_add_one_of_ne_zero (Nat.ne_zero_of_lt enough)
      obtain ⟨rlbuf', refilled, valid', none_left⟩ :=
        (refill_atEnd valid next).1 (ends.resolve_left List.not_mem_nil)
      refine ⟨rlbuf', peer, ?_, valid', none_left, rfl⟩
      rw [readlineLoop, refilled]
      simp [received_nil, Nat.min_eq_right counted]
  | cons c rest inductionHypothesis =>
      obtain ⟨fuel, rfl⟩ := Nat.exists_eq_add_one_of_ne_zero (Nat.ne_zero_of_lt enough)
      obtain ⟨rlbuf', peer', refilled, valid', stands, left, closes⟩ := refill_ready valid next
      have inBounds : ¬ (cnt < n ∧ buff.length ≤ cnt) := by omega
      have valid'' : { rlbuf' with buf_p := rlbuf'.buf_p + 1 }.Valid :=
        ⟨valid'.1, valid'.2, valid'.3⟩
      rw [readlineLoop, refilled]
      simp only [stands, if_neg inBounds]
      by_cases last : c = newline
      · refine ⟨_, peer', ?_, valid'', ?_, closes⟩
        · rw [if_pos last, firstLine, if_pos last, ← received_cons counted room, received_nil,
            min_last counted]
          rfl
        · rw [left, afterLine, if_pos last]
      · have ends' : newline ∈ rest ∨ peer'.closes = true := by
          rw [closes]
          exact ends.imp_left fun member =>
            (List.mem_cons.mp member).resolve_left (Ne.symm last)
        obtain ⟨final, peerFinal, ran, validFinal, leftFinal, closesFinal⟩ :=
          inductionHypothesis valid'' left (by simpa using enough) (counted_next counted)
            (room_next room c) ends'
        refine ⟨final, peerFinal, ?_, validFinal, ?_, closesFinal.trans closes⟩
        · rw [if_neg last, ran, firstLine, if_neg last, List.length_cons, min_next counted,
            received_cons counted room]
        · rw [leftFinal, afterLine, if_neg last]

/-- A peer that neither ends its line nor closes its side keeps the loop waiting. -/
theorem readlineLoop_blocked {n : Nat} {text : List UInt8} {fuel cnt : Nat}
    {rlbuf : ReadlineBuf} {buff : List UInt8} {peer : Peer} (valid : rlbuf.Valid)
    (next : unread rlbuf peer = text) (enough : text.length < fuel) (counted : cnt ≤ n)
    (room : n ≤ buff.length) (noEnd : newline ∉ text) (stays : peer.closes = false) :
    readlineLoop Peer.read n fuel cnt rlbuf buff peer = .error .blocked := by
  induction text generalizing fuel cnt rlbuf buff peer with
  | nil =>
      obtain ⟨fuel, rfl⟩ := Nat.exists_eq_add_one_of_ne_zero (Nat.ne_zero_of_lt enough)
      rw [readlineLoop, (refill_atEnd valid next).2 stays]
  | cons c rest inductionHypothesis =>
      obtain ⟨fuel, rfl⟩ := Nat.exists_eq_add_one_of_ne_zero (Nat.ne_zero_of_lt enough)
      obtain ⟨rlbuf', peer', refilled, valid', stands, left, closes⟩ := refill_ready valid next
      have inBounds : ¬ (cnt < n ∧ buff.length ≤ cnt) := by omega
      have notLast : c ≠ newline := fun last => noEnd (last ▸ List.mem_cons_self)
      rw [readlineLoop, refilled]
      simp only [stands, if_neg inBounds, if_neg notLast]
      refine inductionHypothesis ⟨valid'.1, valid'.2, valid'.3⟩ left (by simpa using enough)
        (counted_next counted) (room_next room c)
        (fun member => noEnd (List.mem_cons_of_mem c member)) (closes.trans stays)

/-- What a call stores and leaves of its receive buffer. -/
def stored (n : Nat) (buff line : List UInt8) : List UInt8 :=
  line.take n ++ buff.drop (min n line.length)

theorem received_zero (n : Nat) (buff line : List UInt8) :
    received n 0 buff line = stored n buff line := by
  simp [received, stored]

/-- One call returns the next line, cut to the receive size; after the last line it
returns 0. -/
theorem readlineBuf_line {n fuel : Nat} {rlbuf : ReadlineBuf} {buff : List UInt8} {peer : Peer}
    (valid : rlbuf.Valid) (enough : (unread rlbuf peer).length < fuel) (positive : 1 ≤ n)
    (room : n ≤ buff.length)
    (ends : newline ∈ unread rlbuf peer ∨ peer.closes = true) :
    ∃ rlbuf' peer', readlineBuf Peer.read fuel rlbuf (some buff) n peer =
        .ok ⟨(min n (firstLine newline (unread rlbuf peer)).length : Nat), none, rlbuf',
          stored n buff (firstLine newline (unread rlbuf peer)), peer'⟩ ∧
      rlbuf'.Valid ∧ unread rlbuf' peer' = afterLine newline (unread rlbuf peer) ∧
      peer'.closes = peer.closes := by
  have ran := readlineLoop_line valid rfl enough (Nat.zero_le n) room ends
  rw [Nat.zero_add, received_zero] at ran
  simpa only [readlineBuf, if_neg (Nat.not_le.mpr positive)] using ran

/-! ### Any number of calls -/

section Model

variable {W : Type} (read : Int → Nat → W → ReadResult W)

/-- Successive calls of `readline_buf`, each with a receive buffer and its size: what
each returned and stored. -/
def readlineCalls (fuel : Nat) :
    List (List UInt8 × Nat) → ReadlineBuf → W → Except Stop (List (Int × List UInt8))
  | [], _, _ => .ok []
  | (buff, n) :: rest, rlbuf, world =>
      match readlineBuf read fuel rlbuf (some buff) n world with
      | .error stop => .error stop
      | .ok call =>
          match readlineCalls fuel rest call.rlbuf call.world with
          | .error stop => .error stop
          | .ok calls => .ok ((call.value, call.buff) :: calls)

end Model

/-- What a call with receive buffer `buff` of size `n` has to return and store when
`line` is next. -/
def delivered (line : List UInt8) (call : List UInt8 × Nat) : Int × List UInt8 :=
  ((min call.2 line.length : Nat), stored call.2 call.1 line)

/-- The lines one call after the other, and after the last line nothing. -/
def deliveries : List (List UInt8) → List (List UInt8 × Nat) → List (Int × List UInt8)
  | _, [] => []
  | [], call :: calls => delivered [] call :: deliveries [] calls
  | line :: lines, call :: calls => delivered line call :: deliveries lines calls

theorem deliveries_cons (text : List UInt8) (call : List UInt8 × Nat)
    (calls : List (List UInt8 × Nat)) :
    deliveries (lines newline text) (call :: calls) =
      delivered (firstLine newline text) call ::
        deliveries (lines newline (afterLine newline text)) calls := by
  by_cases empty : text = []
  · subst empty
    rfl
  · rw [lines_eq_cons empty]
    rfl

/-- The `i`-th delivery is the `i`-th line's. -/
theorem deliveries_getElem? (lines : List (List UInt8)) (calls : List (List UInt8 × Nat))
    (index : Nat) :
    (deliveries lines calls)[index]? = calls[index]?.map (delivered (lines[index]?.getD [])) := by
  induction calls generalizing lines index with
  | nil => cases lines <;> rfl
  | cons call calls inductionHypothesis =>
      cases lines with
      | nil =>
          cases index with
          | zero => rfl
          | succ index => simpa [deliveries] using inductionHypothesis [] index
      | cons line lines =>
          cases index with
          | zero => rfl
          | succ index => simpa [deliveries] using inductionHypothesis lines index

/-- Calls on a peer that closes its side deliver the unread lines. -/
theorem readlineCalls_deliver {fuel : Nat} {calls : List (List UInt8 × Nat)}
    {rlbuf : ReadlineBuf} {peer : Peer} (valid : rlbuf.Valid) (closes : peer.closes = true)
    (enough : (unread rlbuf peer).length < fuel)
    (usable : ∀ call ∈ calls, 1 ≤ call.2 ∧ call.2 ≤ call.1.length) :
    readlineCalls Peer.read fuel calls rlbuf peer =
      .ok (deliveries (lines newline (unread rlbuf peer)) calls) := by
  induction calls generalizing rlbuf peer with
  | nil =>
      rw [readlineCalls]
      cases lines newline (unread rlbuf peer) <;> rfl
  | cons call calls inductionHypothesis =>
      obtain ⟨buff, n⟩ := call
      obtain ⟨positive, room⟩ := usable _ List.mem_cons_self
      obtain ⟨rlbuf', peer', ran, valid', left, closes'⟩ :=
        readlineBuf_line valid enough positive room (.inr closes)
      have shorter : (unread rlbuf' peer').length < fuel := by
        have whole : (firstLine newline (unread rlbuf peer) ++
            afterLine newline (unread rlbuf peer)).length = (unread rlbuf peer).length :=
          congrArg List.length (firstLine_append_afterLine _)
        rw [List.length_append] at whole
        rw [left]
        omega
      have later := inductionHypothesis valid' (closes'.trans closes) shorter
        fun call member => usable call (List.mem_cons_of_mem _ member)
      rw [readlineCalls, ran]
      simp only [later, deliveries_cons, left]
      rfl

theorem deliveries_length (lines : List (List UInt8)) (calls : List (List UInt8 × Nat)) :
    (deliveries lines calls).length = calls.length := by
  induction calls generalizing lines with
  | nil => cases lines <;> rfl
  | cons call calls inductionHypothesis =>
      cases lines <;> simp [deliveries, inductionHypothesis]

/-- However reads split the stream, successive calls return its lines, each cut to the
receive size of its call, and 0 after the last one. -/
theorem readlineBuf_lines (fd : Int) (rlbuf : ReadlineBuf) (size : rlbuf.buf.length = BUF_SIZE)
    (pieces : List Piece) (calls : List (List UInt8 × Nat))
    (usable : ∀ call ∈ calls, 1 ≤ call.2 ∧ call.2 ≤ call.1.length) (fuel : Nat)
    (enough : (pieces.map Piece.bytes).flatten.length < fuel) :
    ∃ results, readlineCalls Peer.read fuel calls (readlineBufInit fd rlbuf) ⟨pieces, true⟩ =
        .ok results ∧
      results.length = calls.length ∧
      ∀ index buff n, calls[index]? = some (buff, n) →
        (∀ line, (lines newline (pieces.map Piece.bytes).flatten)[index]? = some line →
          results[index]? =
            some (((min n line.length : Nat) : Int),
              line.take n ++ buff.drop (min n line.length))) ∧
        ((lines newline (pieces.map Piece.bytes).flatten).length ≤ index →
          results[index]? = some (0, buff)) := by
  have stream : unread (readlineBufInit fd rlbuf) ⟨pieces, true⟩ =
      (pieces.map Piece.bytes).flatten := unread_init fd rlbuf _
  have ran := readlineCalls_deliver (ReadlineBuf.valid_init size fd) rfl
    (stream.symm ▸ enough) usable
  rw [stream] at ran
  refine ⟨_, ran, deliveries_length _ _, ?_⟩
  intro index buff n call
  rw [deliveries_getElem?, call]
  constructor
  · intro line next
    rw [next]
    rfl
  · intro past
    rw [List.getElem?_eq_none past]
    simp [delivered, stored]

/-- Three lines in two pieces, the last one unterminated, and five calls. -/
theorem readlineBuf_lines_twoPieces :
    ∃ results, readlineCalls Peer.read 8
        [([0, 0], 2), ([0, 0, 0], 3), ([0], 1), ([7], 1)]
        (readlineBufInit 3 ⟨0, List.replicate BUF_SIZE 9, 5, 2⟩)
        ⟨[⟨[97, 98], by decide, by decide⟩, ⟨[99, 10, 10, 100, 101], by decide, by decide⟩],
          true⟩ = .ok results ∧
      results[0]? = some (2, [97, 98]) ∧ results[1]? = some (1, [10, 0, 0]) ∧
      results[2]? = some (1, [100]) ∧ results[3]? = some (0, [7]) := by
  obtain ⟨results, ran, -, each⟩ := readlineBuf_lines 3 ⟨0, List.replicate BUF_SIZE 9, 5, 2⟩
    List.length_replicate
    [⟨[97, 98], by decide, by decide⟩, ⟨[99, 10, 10, 100, 101], by decide, by decide⟩]
    [([0, 0], 2), ([0, 0, 0], 3), ([0], 1), ([7], 1)] (by decide) 8 (by decide)
  exact ⟨results, ran, (each 0 _ _ rfl).1 _ rfl, (each 1 _ _ rfl).1 _ rfl,
    (each 2 _ _ rfl).1 _ rfl, (each 3 _ _ rfl).2 (by decide)⟩

end LinuxProgramming.Sockets
