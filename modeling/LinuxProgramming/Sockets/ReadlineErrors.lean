import LinuxProgramming.Library.Interruptions
import LinuxProgramming.Sockets.Readline

/-!
Contract: `readline_buf` on a connection on which `read` fails now and then, called
again after every failure.

Owns:
- `FaultyPeer`, a peer whose bytes arrive in pieces with failures between them;
- what one call takes from such a connection, and a call that is repeated until it
  does not fail;
- the exact condition under which all lines arrive as without the failures.

Does not own: connections without failures.
-/

namespace LinuxProgramming.Sockets

open LinuxProgramming.Library
open Lines

/-- What one `read` does before the stream ends: deliver bytes, or return -1. -/
inductive Reading where
  | delivers (piece : Piece)
  | fails (errno : Nat)
deriving DecidableEq

namespace Reading

def bytes : Reading → List UInt8
  | .delivers piece => piece.bytes
  | .fails _ => []

def piece? : Reading → Option Piece
  | .delivers piece => some piece
  | .fails _ => none

/-- The bytes, or the one interruption. -/
def symbols : Reading → List (Option UInt8)
  | .delivers piece => piece.bytes.map some
  | .fails _ => [none]

end Reading

/-- What successive reads do, and whether the peer closes its side after that. -/
structure FaultyPeer where
  readings : List Reading
  closes : Bool
deriving DecidableEq

namespace FaultyPeer

/-- `read` on the connection. -/
def read (_fd : Int) (_count : Nat) (peer : FaultyPeer) : ReadResult FaultyPeer :=
  match peer.readings with
  | .delivers piece :: rest => .data piece.bytes { peer with readings := rest }
  | .fails errno :: rest => .failed errno { peer with readings := rest }
  | [] => if peer.closes then .data [] peer else .blocked

def symbols (peer : FaultyPeer) : List (Option UInt8) :=
  peer.readings.flatMap Reading.symbols

/-- The same pieces on a connection on which no `read` fails. -/
def steady (peer : FaultyPeer) : Peer :=
  ⟨peer.readings.filterMap Reading.piece?, peer.closes⟩

/-- Whenever a `read` fails, the bytes before it end a line, or there are none. -/
def FailsBetweenLines (peer : FaultyPeer) : Prop :=
  ∀ before errno after, peer.readings = before ++ .fails errno :: after →
    Closed newline (before.flatMap Reading.bytes)

theorem steady_stream (peer : FaultyPeer) : peer.symbols.reduceOption = peer.steady.stream := by
  obtain ⟨readings, closes⟩ := peer
  induction readings with
  | nil => rfl
  | cons reading rest inductionHypothesis =>
      cases reading with
      | delivers piece =>
          have taken : (piece.bytes.map some).reduceOption = piece.bytes := by
            simp [List.reduceOption]
          simp only [symbols, List.flatMap_cons, Reading.symbols, List.reduceOption_append,
            taken] at inductionHypothesis ⊢
          rw [inductionHypothesis]
          rfl
      | fails errno =>
          simp only [symbols, List.flatMap_cons, Reading.symbols, List.singleton_append,
            List.reduceOption_cons_of_none] at inductionHypothesis ⊢
          exact inductionHypothesis

/-- Bytes shift the interruptions behind them. -/
theorem forall_interruption_append {holds : List (Option UInt8) → Prop} (bytes : List UInt8)
    (rest : List (Option UInt8)) :
    (∀ before after, bytes.map some ++ rest = before ++ none :: after → holds before) ↔
      ∀ before after, rest = before ++ none :: after → holds (bytes.map some ++ before) := by
  induction bytes generalizing holds with
  | nil => rfl
  | cons byte bytes inductionHypothesis =>
      rw [List.map_cons, List.cons_append, forall_interruption_cons, and_iff_right nofun,
        inductionHypothesis]
      rfl

/-- The interruptions among the symbols are the failures. -/
theorem forall_interruption_iff {holds : List UInt8 → Prop} (readings : List Reading) :
    (∀ before after, readings.flatMap Reading.symbols = before ++ none :: after →
        holds before.reduceOption) ↔
      ∀ before errno after, readings = before ++ .fails errno :: after →
        holds (before.flatMap Reading.bytes) := by
  induction readings generalizing holds with
  | nil => simp
  | cons reading rest inductionHypothesis =>
      have splits : (∀ before errno after, reading :: rest = before ++ .fails errno :: after →
            holds (before.flatMap Reading.bytes)) ↔
          (∀ errno, reading = .fails errno → holds []) ∧
            ∀ before errno after, rest = before ++ .fails errno :: after →
              holds (reading.bytes ++ before.flatMap Reading.bytes) := by
        constructor
        · intro every
          refine ⟨fun errno isFailure => every [] errno rest (by rw [isFailure]; rfl), ?_⟩
          intro before errno after split
          exact every (reading :: before) errno after (by rw [split]; rfl)
        · rintro ⟨here, later⟩ before errno after split
          cases before with
          | nil =>
              cases split
              exact here errno rfl
          | cons head tail =>
              cases split
              exact later tail errno after rfl
      rw [splits, List.flatMap_cons]
      cases reading with
      | delivers piece =>
          rw [and_iff_right nofun, Reading.symbols, forall_interruption_append]
          have taken : (piece.bytes.map some).reduceOption = piece.bytes := by
            simp [List.reduceOption]
          simp only [List.reduceOption_append, taken]
          exact @inductionHypothesis fun text => holds (piece.bytes ++ text)
      | fails errno =>
          rw [Reading.symbols, List.singleton_append, forall_interruption_cons]
          simp only [List.reduceOption_cons_of_none, Reading.bytes, List.nil_append]
          refine and_congr ?_ inductionHypothesis
          simp [List.reduceOption_nil]

theorem failsBetweenLines_iff (peer : FaultyPeer) :
    peer.FailsBetweenLines ↔ BetweenLines newline peer.symbols :=
  (forall_interruption_iff peer.readings).symm

end FaultyPeer

/-! ### One call -/

/-- The structure has its size; after a failure its length field is -1. -/
structure ReadlineBuf.Usable (rlbuf : ReadlineBuf) : Prop where
  size : rlbuf.buf.length = BUF_SIZE
  within : rlbuf.buf_len ≤ BUF_SIZE

/-- What no call has used: buffered bytes, and what successive reads will do. -/
def upcoming (rlbuf : ReadlineBuf) (peer : FaultyPeer) : List (Option UInt8) :=
  rlbuf.remainder.map some ++ peer.symbols

section Call

variable {rlbuf : ReadlineBuf} {peer : FaultyPeer} {rest : List (Option UInt8)}

theorem upcoming_init (fd : Int) (rlbuf : ReadlineBuf) (peer : FaultyPeer) :
    upcoming (readlineBufInit fd rlbuf) peer = peer.symbols := by
  simp [upcoming, ReadlineBuf.remainder, readlineBufInit]

/-- A byte that comes next is buffered after `refill`. -/
theorem refill_byte (usable : rlbuf.Usable) {c : UInt8}
    (next : upcoming rlbuf peer = some c :: rest) :
    ∃ rlbuf' peer', refill FaultyPeer.read rlbuf peer = .ready rlbuf' peer' ∧ rlbuf'.Usable ∧
      rlbuf'.buf[rlbuf'.buf_p]? = some c ∧
      upcoming { rlbuf' with buf_p := rlbuf'.buf_p + 1 } peer' = rest ∧
      peer'.closes = peer.closes := by
  by_cases used : rlbuf.buf_p ≥ rlbuf.buf_len
  · rw [upcoming, ReadlineBuf.remainder_eq_nil used, List.map_nil, List.nil_append] at next
    obtain ⟨readings, closes⟩ := peer
    cases readings with
    | nil => cases next
    | cons reading readings =>
        cases reading with
        | fails errno => cases next
        | delivers piece =>
            obtain ⟨bytes, notEmpty, fits⟩ := piece
            cases bytes with
            | nil => exact absurd rfl notEmpty
            | cons first others =>
                simp only [FaultyPeer.symbols, List.flatMap_cons, Reading.symbols, List.map_cons,
                  List.cons_append, List.cons.injEq, Option.some.injEq] at next
                obtain ⟨rfl, rfl⟩ := next
                refine ⟨⟨rlbuf.fd, first :: others ++ rlbuf.buf.drop (first :: others).length,
                  (first :: others).length, 0⟩, ⟨readings, closes⟩,
                  by simp only [refill, used, if_true, FaultyPeer.read], ?_, rfl, ?_, rfl⟩
                · refine ⟨?_, Int.ofNat_le.mpr fits⟩
                  have := usable.size
                  simp only [List.length_append, List.length_drop]
                  omega
                · simp [upcoming, ReadlineBuf.remainder, FaultyPeer.symbols]
  · obtain ⟨first, stands, split⟩ := ReadlineBuf.remainder_cons
      ⟨usable.size, by omega, usable.within⟩ used
    rw [upcoming, split, List.map_cons, List.cons_append, List.cons.injEq, Option.some.injEq] at next
    obtain ⟨rfl, rfl⟩ := next
    exact ⟨rlbuf, peer, if_neg used, usable, stands, rfl, rfl⟩

/-- A failure that comes next is met by `refill`. -/
theorem refill_failure (usable : rlbuf.Usable) (next : upcoming rlbuf peer = none :: rest) :
    ∃ errno rlbuf' peer', refill FaultyPeer.read rlbuf peer = .failed errno rlbuf' peer' ∧
      rlbuf'.Usable ∧ upcoming rlbuf' peer' = rest ∧ peer'.closes = peer.closes := by
  have used : rlbuf.buf_p ≥ rlbuf.buf_len := by
    by_contra some_left
    obtain ⟨c, -, split⟩ := ReadlineBuf.remainder_cons
      ⟨usable.size, by omega, usable.within⟩ some_left
    rw [upcoming, split] at next
    cases next
  rw [upcoming, ReadlineBuf.remainder_eq_nil used, List.map_nil, List.nil_append] at next
  obtain ⟨readings, closes⟩ := peer
  cases readings with
  | nil => cases next
  | cons reading readings =>
      cases reading with
      | delivers piece =>
          obtain ⟨bytes, notEmpty, fits⟩ := piece
          cases bytes with
          | nil => exact absurd rfl notEmpty
          | cons first others => cases next
      | fails errno =>
          simp only [FaultyPeer.symbols, List.flatMap_cons, Reading.symbols, List.singleton_append,
            List.cons.injEq, true_and] at next
          refine ⟨errno, { rlbuf with buf_len := -1 }, ⟨readings, closes⟩,
            by simp only [refill, used, if_true, FaultyPeer.read],
            ⟨usable.size, show (-1 : Int) ≤ BUF_SIZE by decide⟩, ?_, rfl⟩
          simpa [upcoming, ReadlineBuf.remainder, FaultyPeer.symbols] using next

/-- After everything is used, `refill` meets the end. -/
theorem refill_end (usable : rlbuf.Usable) (next : upcoming rlbuf peer = [])
    (closes : peer.closes = true) :
    ∃ rlbuf', refill FaultyPeer.read rlbuf peer = .atEnd rlbuf' peer ∧ rlbuf'.Usable ∧
      upcoming rlbuf' peer = [] := by
  obtain ⟨remainder, symbols⟩ := List.append_eq_nil_iff.mp next
  have used : rlbuf.buf_p ≥ rlbuf.buf_len := by
    by_contra some_left
    obtain ⟨c, -, split⟩ := ReadlineBuf.remainder_cons
      ⟨usable.size, by omega, usable.within⟩ some_left
    rw [split] at remainder
    cases remainder
  have noReading : peer.readings = [] := by
    cases readings : peer.readings with
    | nil => rfl
    | cons reading others =>
        rw [FaultyPeer.symbols, readings, List.flatMap_cons] at symbols
        have nothing := (List.append_eq_nil_iff.mp symbols).1
        cases reading with
        | fails errno => cases nothing
        | delivers piece => exact absurd (List.map_eq_nil_iff.mp nothing) piece.notEmpty
  refine ⟨{ rlbuf with buf_len := 0 }, by simp [refill, used, FaultyPeer.read, noReading, closes],
    ⟨usable.size, Int.natCast_nonneg _⟩, ?_⟩
  simp [upcoming, ReadlineBuf.remainder, symbols]

/-- The loop stores what an attempt at a line takes, as far as it has room, and
returns -1 if the attempt is interrupted. -/
theorem readlineLoop_attempt {n : Nat} {stream : List (Option UInt8)} {fuel cnt : Nat}
    {rlbuf : ReadlineBuf} {buff : List UInt8} {peer : FaultyPeer} (usable : rlbuf.Usable)
    (next : upcoming rlbuf peer = stream) (enough : stream.length < fuel) (counted : cnt ≤ n)
    (room : n ≤ buff.length) (closes : peer.closes = true) :
    ∃ errno rlbuf' peer', readlineLoop FaultyPeer.read n fuel cnt rlbuf buff peer =
        .ok ⟨if interrupted newline stream then -1
            else (min n (cnt + (attempt newline stream).length) : Nat), errno, rlbuf',
          received n cnt buff (attempt newline stream), peer'⟩ ∧
      rlbuf'.Usable ∧ upcoming rlbuf' peer' = afterAttempt newline stream ∧
      peer'.closes = true := by
  induction stream generalizing fuel cnt rlbuf buff peer with
  | nil =>
      obtain ⟨fuel, rfl⟩ := Nat.exists_eq_add_one_of_ne_zero (Nat.ne_zero_of_lt enough)
      obtain ⟨rlbuf', refilled, usable', left⟩ := refill_end usable next closes
      refine ⟨none, rlbuf', peer, ?_, usable', left, closes⟩
      rw [readlineLoop, refilled]
      simp [interrupted, attempt, received_nil, Nat.min_eq_right counted]
  | cons symbol rest inductionHypothesis =>
      obtain ⟨fuel, rfl⟩ := Nat.exists_eq_add_one_of_ne_zero (Nat.ne_zero_of_lt enough)
      cases symbol with
      | none =>
          obtain ⟨errno, rlbuf', peer', refilled, usable', left, closes'⟩ :=
            refill_failure usable next
          refine ⟨some errno, rlbuf', peer', ?_, usable', left, closes'.trans closes⟩
          rw [readlineLoop, refilled]
          simp [interrupted, attempt, received_nil]
      | some c =>
          obtain ⟨rlbuf', peer', refilled, usable', stands, left, closes'⟩ :=
            refill_byte usable next
          have inBounds : ¬ (cnt < n ∧ buff.length ≤ cnt) := by omega
          have usable'' : { rlbuf' with buf_p := rlbuf'.buf_p + 1 }.Usable :=
            ⟨usable'.size, usable'.within⟩
          rw [readlineLoop, refilled]
          simp only [stands, if_neg inBounds]
          by_cases last : c = newline
          · refine ⟨none, _, peer', ?_, usable'', ?_, closes'.trans closes⟩
            · rw [if_pos last, interrupted, if_pos last, attempt, if_pos last, min_last counted,
                ← received_cons counted room, received_nil]
              rfl
            · rw [left, afterAttempt, if_pos last]
          · obtain ⟨errno, final, peerFinal, ran, usableFinal, leftFinal, closesFinal⟩ :=
              inductionHypothesis usable'' left (by simpa using enough) (counted_next counted)
                (room_next room c) (closes'.trans closes)
            refine ⟨errno, final, peerFinal, ?_, usableFinal, ?_, closesFinal⟩
            · rw [if_neg last, ran, interrupted, if_neg last, attempt, if_neg last,
                List.length_cons, min_next counted, received_cons counted room]
            · rw [leftFinal, afterAttempt, if_neg last]

/-- One call is one attempt at a line. -/
theorem readlineBuf_attempt {n fuel : Nat} {buff : List UInt8} (usable : rlbuf.Usable)
    (enough : (upcoming rlbuf peer).length < fuel) (positive : 1 ≤ n) (room : n ≤ buff.length)
    (closes : peer.closes = true) :
    ∃ errno rlbuf' peer', readlineBuf FaultyPeer.read fuel rlbuf (some buff) n peer =
        .ok ⟨if interrupted newline (upcoming rlbuf peer) then -1
            else (min n (attempt newline (upcoming rlbuf peer)).length : Nat), errno, rlbuf',
          stored n buff (attempt newline (upcoming rlbuf peer)), peer'⟩ ∧
      rlbuf'.Usable ∧ upcoming rlbuf' peer' = afterAttempt newline (upcoming rlbuf peer) ∧
      peer'.closes = true := by
  have ran := readlineLoop_attempt usable rfl enough (Nat.zero_le n) room closes
  rw [Nat.zero_add, received_zero] at ran
  simpa only [readlineBuf, if_neg (Nat.not_le.mpr positive)] using ran

end Call

/-! ### Calls that are repeated after a failure -/

section Model

variable {W : Type} (read : Int → Nat → W → ReadResult W)

/-- A call, and after a return of -1 the same call again, `tries` times at most. -/
def readlineAgain (fuel n : Nat) :
    Nat → ReadlineBuf → List UInt8 → W → Except Stop (Returned W)
  | 0, _, _, _ => .error .outOfFuel
  | tries + 1, rlbuf, buff, world =>
      match readlineBuf read fuel rlbuf (some buff) n world with
      | .error stop => .error stop
      | .ok call =>
          if call.value = -1 then readlineAgain fuel n tries call.rlbuf call.buff call.world
          else .ok call

/-- Successive calls, each repeated until it does not fail. -/
def repeatedCalls (fuel tries : Nat) :
    List (List UInt8 × Nat) → ReadlineBuf → W → Except Stop (List (Int × List UInt8))
  | [], _, _ => .ok []
  | (buff, n) :: rest, rlbuf, world =>
      match readlineAgain read fuel n tries rlbuf buff world with
      | .error stop => .error stop
      | .ok call =>
          match repeatedCalls fuel tries rest call.rlbuf call.world with
          | .error stop => .error stop
          | .ok calls => .ok ((call.value, call.buff) :: calls)

end Model

/-- What a call that does not fail hands over: its value, and that many bytes of the
receive buffer. -/
def handed (result : Int × List UInt8) : Int × List UInt8 :=
  (result.1, result.2.take result.1.toNat)

theorem handed_delivered (line : List UInt8) (call : List UInt8 × Nat) :
    handed (delivered line call) = (((min call.2 line.length : Nat) : Int), line.take call.2) := by
  have length : (line.take call.2).length = min call.2 line.length := List.length_take
  simp only [handed, delivered, stored, Int.toNat_natCast]
  rw [← length, List.take_left]

section Repeated

variable {rlbuf : ReadlineBuf} {peer : FaultyPeer}

/-- A call that is repeated hands over the next line of the text that survives. The
induction is on the number of tries; each of them but the last meets a failure. -/
theorem readlineAgain_line {n fuel tries : Nat} {buff : List UInt8} (usable : rlbuf.Usable)
    (enough : (upcoming rlbuf peer).length < fuel)
    (often : (upcoming rlbuf peer).length < tries) (positive : 1 ≤ n) (room : n ≤ buff.length)
    (closes : peer.closes = true) :
    ∃ call, readlineAgain FaultyPeer.read fuel n tries rlbuf buff peer = .ok call ∧
      handed (call.value, call.buff) =
        handed (delivered (firstLine newline (surviving newline (upcoming rlbuf peer))) (buff, n)) ∧
      call.rlbuf.Usable ∧
      surviving newline (upcoming call.rlbuf call.world) =
        afterLine newline (surviving newline (upcoming rlbuf peer)) ∧
      (upcoming call.rlbuf call.world).length ≤ (upcoming rlbuf peer).length ∧
      call.world.closes = true := by
  induction tries generalizing rlbuf buff peer with
  | zero => exact absurd often (Nat.not_lt_zero _)
  | succ tries inductionHypothesis =>
      obtain ⟨errno, rlbuf', peer', ran, usable', left, closes'⟩ :=
        readlineBuf_attempt usable enough positive room closes
      rw [readlineAgain, ran]
      dsimp only
      cases stops : interrupted newline (upcoming rlbuf peer) with
      | true =>
          have fewer := length_afterAttempt_lt stops
          rw [← left] at fewer
          have room' : n ≤ (stored n buff (attempt newline (upcoming rlbuf peer))).length := by
            simp only [stored, List.length_append, List.length_take, List.length_drop]
            omega
          obtain ⟨call, ranAgain, hands, usableCall, survives, length, closesCall⟩ :=
            inductionHypothesis usable' (by omega) (by omega) room' closes'
          have same := surviving_of_interrupted stops
          rw [← left] at same
          rw [if_pos rfl, if_pos rfl]
          rw [handed_delivered] at hands
          refine ⟨call, ranAgain, ?_, usableCall, ?_, by omega, closesCall⟩
          · rw [handed_delivered, hands, same]
          · rw [survives, same]
      | false =>
          obtain ⟨first, after⟩ := line_of_complete stops
          rw [if_neg Bool.false_ne_true, if_neg (by omega), first, after]
          have length : (afterAttempt newline (upcoming rlbuf peer)).length ≤
              (upcoming rlbuf peer).length := length_afterAttempt_le _
          rw [← left] at length ⊢
          exact ⟨_, rfl, rfl, usable', rfl, length, closes'⟩

/-- Repeated calls hand over the lines of the text that survives. -/
theorem repeatedCalls_deliver {fuel tries : Nat} {calls : List (List UInt8 × Nat)}
    (usable : rlbuf.Usable) (enough : (upcoming rlbuf peer).length < fuel)
    (often : (upcoming rlbuf peer).length < tries) (closes : peer.closes = true)
    (sizes : ∀ call ∈ calls, 1 ≤ call.2 ∧ call.2 ≤ call.1.length) :
    ∃ results, repeatedCalls FaultyPeer.read fuel tries calls rlbuf peer = .ok results ∧
      results.map handed =
        (deliveries (lines newline (surviving newline (upcoming rlbuf peer))) calls).map handed := by
  induction calls generalizing rlbuf peer with
  | nil =>
      refine ⟨[], rfl, ?_⟩
      cases lines newline (surviving newline (upcoming rlbuf peer)) <;> rfl
  | cons call calls inductionHypothesis =>
      obtain ⟨buff, n⟩ := call
      obtain ⟨positive, room⟩ := sizes _ List.mem_cons_self
      obtain ⟨call, ran, hands, usable', survives, length, closes'⟩ :=
        readlineAgain_line usable enough often positive room closes
      obtain ⟨results, ranRest, hand⟩ := inductionHypothesis usable' (by omega) (by omega) closes'
        fun other member => sizes other (List.mem_cons_of_mem _ member)
      refine ⟨(call.value, call.buff) :: results, ?_, ?_⟩
      · rw [repeatedCalls, ran]
        simp only [ranRest]
      · rw [deliveries_cons, List.map_cons, List.map_cons, hands, hand, survives]

end Repeated

/-! ### When the lines arrive as without the failures -/

/-- As many calls as there may be lines, each with room for every line. -/
def amplyCalls (text : List UInt8) : List (List UInt8 × Nat) :=
  List.replicate (text.length + 1) (List.replicate (text.length + 1) 0, text.length + 1)

/-- Calls with room for every line hand over the whole text. -/
theorem deliveries_flatten {lines : List (List UInt8)} {calls : List (List UInt8 × Nat)}
    (many : lines.length ≤ calls.length)
    (room : ∀ line ∈ lines, ∀ call ∈ calls, line.length ≤ call.2) :
    ((deliveries lines calls).map fun result => (handed result).2).flatten = lines.flatten := by
  induction calls generalizing lines with
  | nil =>
      cases List.length_eq_zero_iff.mp (Nat.le_zero.mp many)
      rfl
  | cons call calls inductionHypothesis =>
      cases lines with
      | nil =>
          have later := @inductionHypothesis [] (Nat.zero_le _) nofun
          rw [deliveries, List.map_cons, List.flatten_cons, later, handed_delivered]
          simp
      | cons line lines =>
          have fits := room line List.mem_cons_self call List.mem_cons_self
          have later := @inductionHypothesis lines (Nat.le_of_succ_le_succ many)
            fun other member call among =>
              room other (List.mem_cons_of_mem _ member) call (List.mem_cons_of_mem _ among)
          rw [deliveries, List.map_cons, List.flatten_cons, later, handed_delivered,
            List.take_of_length_le fits, List.flatten_cons]

theorem amplyCalls_flatten {text part : List UInt8} (within : part.length ≤ text.length) :
    ((deliveries (lines newline part) (amplyCalls text)).map
      fun result => (handed result).2).flatten = part := by
  have whole : (lines newline part).flatten = part := lines_flatten part
  rw [deliveries_flatten, whole]
  · have count : (lines newline part).length =
        part.count newline + if Closed newline part then 0 else 1 := length_lines part
    have few := List.count_le_length (a := newline) (l := part)
    rw [amplyCalls, List.length_replicate, count]
    split <;> omega
  · intro line member call among
    have size := (List.sublist_flatten_of_mem member).length_le
    rw [whole] at size
    rw [List.eq_of_mem_replicate among]
    dsimp only
    omega

/-- On every connection on which reads fail, with every splitting of its bytes: calls
that are repeated after a return of -1 hand over what they would have handed over
without the failures, for every sequence of receive sizes, exactly if every failure
comes between two lines. -/
theorem readlineBuf_repeats_iff (fd : Int) (rlbuf : ReadlineBuf)
    (size : rlbuf.buf.length = BUF_SIZE) (peer : FaultyPeer) (closes : peer.closes = true)
    (fuel tries : Nat) (enough : peer.symbols.length < fuel)
    (often : peer.symbols.length < tries) :
    (∀ calls : List (List UInt8 × Nat), (∀ call ∈ calls, 1 ≤ call.2 ∧ call.2 ≤ call.1.length) →
      ∃ results expected,
        repeatedCalls FaultyPeer.read fuel tries calls (readlineBufInit fd rlbuf) peer =
          .ok results ∧
        readlineCalls Peer.read fuel calls (readlineBufInit fd rlbuf) peer.steady =
          .ok expected ∧
        results.map handed = expected.map handed) ↔
      peer.FailsBetweenLines := by
  have usable : (readlineBufInit fd rlbuf).Usable := ⟨size, Int.natCast_nonneg _⟩
  have start : upcoming (readlineBufInit fd rlbuf) peer = peer.symbols := upcoming_init fd rlbuf peer
  have text := peer.steady_stream
  have shorter : peer.steady.stream.length < fuel := by
    rw [← text]
    exact Nat.lt_of_le_of_lt (List.reduceOption_length_le _) enough
  have expected (calls : List (List UInt8 × Nat))
      (sizes : ∀ call ∈ calls, 1 ≤ call.2 ∧ call.2 ≤ call.1.length) :
      readlineCalls Peer.read fuel calls (readlineBufInit fd rlbuf) peer.steady =
        .ok (deliveries (lines newline peer.steady.stream) calls) := by
    rw [← unread_init fd rlbuf peer.steady]
    exact readlineCalls_deliver (ReadlineBuf.valid_init size fd) closes (by rwa [unread_init]) sizes
  have repeats (calls : List (List UInt8 × Nat))
      (sizes : ∀ call ∈ calls, 1 ≤ call.2 ∧ call.2 ≤ call.1.length) :
      ∃ results, repeatedCalls FaultyPeer.read fuel tries calls (readlineBufInit fd rlbuf) peer =
          .ok results ∧
        results.map handed =
          (deliveries (lines newline (surviving newline peer.symbols)) calls).map handed := by
    rw [← start]
    exact repeatedCalls_deliver usable (by rwa [start]) (by rwa [start]) closes sizes
  rw [peer.failsBetweenLines_iff, ← surviving_eq_iff, text]
  constructor
  · intro same
    have fewer : (survivingFrom newline [] peer.symbols).length ≤
        ([] : List UInt8).length + peer.symbols.reduceOption.length :=
      length_survivingFrom_le [] peer.symbols
    rw [text, List.length_nil, Nat.zero_add] at fewer
    have sizes : ∀ call ∈ amplyCalls peer.steady.stream, 1 ≤ call.2 ∧ call.2 ≤ call.1.length := by
      intro call among
      rw [List.eq_of_mem_replicate among]
      simp
    obtain ⟨results, _, ran, ranSteady, agree⟩ := same _ sizes
    rw [expected _ sizes] at ranSteady
    cases ranSteady
    obtain ⟨results', ran', hand⟩ := repeats _ sizes
    rw [ran] at ran'
    cases ran'
    rw [hand] at agree
    have parts := congrArg (fun handed => (handed.map Prod.snd).flatten) agree
    simp only [List.map_map] at parts
    have left := amplyCalls_flatten fewer
    have right := amplyCalls_flatten (Nat.le_refl peer.steady.stream.length)
    exact left.symm.trans (parts.trans right)
  · intro whole calls sizes
    obtain ⟨results, ran, hand⟩ := repeats calls sizes
    exact ⟨results, _, ran, expected calls sizes, by rw [hand, whole]⟩

/-- `"a\n"`, a failure with `EINTR`, and `"b\n"`. -/
def failsBetween : FaultyPeer where
  readings := [.delivers ⟨[97, 10], by decide, by decide⟩, .fails 4,
    .delivers ⟨[98, 10], by decide, by decide⟩]
  closes := true

theorem readlineBuf_repeats_between :
    ∃ results expected,
      repeatedCalls FaultyPeer.read 9 9 [([0, 0], 2), ([0, 0], 2)]
        (readlineBufInit 3 ⟨0, List.replicate BUF_SIZE 9, 5, 2⟩) failsBetween = .ok results ∧
      readlineCalls Peer.read 9 [([0, 0], 2), ([0, 0], 2)]
        (readlineBufInit 3 ⟨0, List.replicate BUF_SIZE 9, 5, 2⟩) failsBetween.steady =
          .ok expected ∧
      results.map handed = expected.map handed := by
  have between : failsBetween.FailsBetweenLines :=
    failsBetween.failsBetweenLines_iff.mpr ((surviving_eq_iff _).mp (by decide))
  exact (readlineBuf_repeats_iff 3 ⟨0, List.replicate BUF_SIZE 9, 5, 2⟩ List.length_replicate
    failsBetween rfl 9 9 (by decide) (by decide)).mpr between _ (by decide)

/-- `"ab"`, a failure with `EINTR`, and `"c\n"`. -/
def failsInLine : FaultyPeer where
  readings := [.delivers ⟨[97, 98], by decide, by decide⟩, .fails 4,
    .delivers ⟨[99, 10], by decide, by decide⟩]
  closes := true

/-- The call that fails has used up `ab`: the same call again delivers `c`, where
without the failure it delivers `abc`. -/
theorem readlineBuf_loses_bytes :
    ∃ call again steady,
      readlineBuf FaultyPeer.read 6 (readlineBufInit 3 ⟨0, List.replicate BUF_SIZE 9, 5, 2⟩)
        (some (List.replicate 8 0)) 8 failsInLine = .ok call ∧ call.value = -1 ∧
      readlineBuf FaultyPeer.read 6 call.rlbuf (some call.buff) 8 call.world = .ok again ∧
      handed (again.value, again.buff) = (2, [99, 10]) ∧
      readlineBuf Peer.read 6 (readlineBufInit 3 ⟨0, List.replicate BUF_SIZE 9, 5, 2⟩)
        (some (List.replicate 8 0)) 8 failsInLine.steady = .ok steady ∧
      handed (steady.value, steady.buff) = (4, [97, 98, 99, 10]) :=
  ⟨_, _, _, rfl, rfl, rfl, rfl, rfl, rfl⟩

end LinuxProgramming.Sockets
