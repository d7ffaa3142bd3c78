import LinuxProgramming.Library.OpenFile
import Mathlib.Algebra.Order.BigOperators.Group.List
import Mathlib.Algebra.Order.Ring.Nat

/-!
Contract: `my_sendfile`, which copies a part of a file to a descriptor with `read`,
`write` and `lseek`.

Owns:
- the function, over any results of its reads and writes;
- `Transfers`, calls that move fewer bytes than asked for but never fail;
- what is written under such calls, and for which of them it is the part of the file
  that was asked for.

Does not own: descriptors. `in_fd` is a regular file.
-/

namespace LinuxProgramming.Sockets.Sendfile

open LinuxProgramming.Library

def BUF_SIZE : Nat := 1024

/-- The largest `off_t`. -/
def OFF_MAX : Int := 2 ^ 63 - 1

inductive Errno where
  | EINTR
  | EAGAIN
  | other (code : Nat)
deriving DecidableEq, Repr

/-- The errors after which a call is made again. -/
def Errno.retried : Errno → Bool
  | .EINTR => true
  | .EAGAIN => true
  | .other _ => false

/-- What each `read` and each `write` returns, from its number and from how many bytes it
can move at most. -/
structure System where
  read : Nat → Nat → Except Errno Nat
  write : Nat → Nat → Except Errno Nat

/-- A `write` that was made: how far from `buf` it starts, how many bytes it was asked to
write, how many the last `read` had stored, and how many it took. -/
structure WriteCall where
  start : Nat
  asked : Nat
  stored : Nat
  taken : Nat
deriving DecidableEq, Repr

/-- The two files, the memory from `buf` on, and the calls so far. -/
structure World where
  input : OpenFile
  output : List UInt8
  memory : Nat → UInt8
  stored : Nat
  reads : Nat
  writes : List WriteCall

/-- The bytes of `memory` at `count` places from `start` on. -/
def slice (memory : Nat → UInt8) (start count : Nat) : List UInt8 :=
  (List.range' start count).map memory

/-- `memory` with `data` in its first bytes. -/
def fill (memory : Nat → UInt8) (data : List UInt8) (place : Nat) : UInt8 :=
  data.getD place (memory place)

/-- `size_t` of a `ssize_t`. -/
def toSize (value : Int) : Nat := (value % 2 ^ 64).toNat

section Model

variable (system : System)

/-- `read(in_fd, buf, count)`. -/
def read (count : Nat) (world : World) : Except Errno Nat × World :=
  let available := min count (world.input.bytes.length - world.input.offset)
  match system.read world.reads available with
  | .error errno => (.error errno, { world with reads := world.reads + 1 })
  | .ok numRead =>
      let (data, input) := world.input.read numRead
      (.ok data.length,
        { world with
          input := input
          memory := fill world.memory data
          stored := data.length
          reads := world.reads + 1 })

/-- `write(out_fd, buf + start, count)`. -/
def write (start count : Nat) (world : World) : Except Errno Nat × World :=
  match system.write world.writes.length count with
  | .error errno =>
      (.error errno,
        { world with writes := world.writes ++ [⟨start, count, world.stored, 0⟩] })
  | .ok numWrite =>
      (.ok numWrite,
        { world with
          output := world.output ++ slice world.memory start numWrite
          writes := world.writes ++ [⟨start, count, world.stored, numWrite⟩] })

/-- The inner loop. Every `write` is asked for all of `num_read` bytes. -/
def writeLoop (numRead : Nat) : Nat → Nat → Nat → World → Option (Except Errno Nat × World)
  | 0, _, _, _ => none
  | fuel + 1, writeBufStart, totWriten, world =>
      if totWriten < numRead then
        match write system writeBufStart numRead world with
        | (.error errno, world) =>
            if errno.retried then writeLoop numRead fuel writeBufStart totWriten world
            else some (.error errno, world)
        | (.ok numWrite, world) =>
            writeLoop numRead fuel (writeBufStart + numWrite) (totWriten + numWrite) world
      else some (.ok totWriten, world)

/-- The outer loop. After an error that is retried, its step adds the `-1` in `num_read`. -/
def transferLoop (count : UInt64) :
    Nat → Int → Int → World → Option (Except Errno Int × World)
  | 0, _, _, _ => none
  | fuel + 1, transNum, totWriten, world =>
      if toSize transNum < count.toNat then
        let readNum := toSize (count.toNat - transNum)
        let readNum := if readNum > BUF_SIZE then BUF_SIZE else readNum
        match read system readNum world with
        | (.error errno, world) =>
            if errno.retried then transferLoop count fuel (transNum + -1) totWriten world
            else some (.error errno, world)
        | (.ok 0, world) => some (.ok totWriten, world)
        | (.ok numRead, world) =>
            match writeLoop system numRead fuel 0 0 world with
            | none => none
            | some (.error errno, world) => some (.error errno, world)
            | some (.ok totWriten, world) =>
                transferLoop count fuel (transNum + numRead) totWriten world
      else some (.ok totWriten, world)

/-- What a call returns, what it leaves in `*offset`, and the files after it. -/
structure Returned where
  value : Int
  offset : Option Int
  world : World

/-- `lseek(in_fd, distance, SEEK_CUR)`. -/
def seekCurrent (distance : Int) (world : World) : Option World :=
  let target := world.input.offset + distance
  if 0 ≤ target ∧ target ≤ OFF_MAX then
    some { world with input := world.input.seek target.toNat }
  else none

/-- `in_fd` is moved before the transfer if `offset` is not `NULL`. -/
def position (offset : Option Int) (world : World) : Option World :=
  match offset with
  | none => some world
  | some distance => seekCurrent distance world

/-- `my_sendfile`; `totWriten` is what the variable holds before it is assigned. -/
def mySendfile (fuel : Nat) (offset : Option Int) (count : UInt64) (totWriten : Int)
    (world : World) : Option Returned :=
  let originOffset := world.input.offset
  match position offset world with
  | none => some ⟨-1, offset, world⟩
  | some world =>
      match transferLoop system count fuel 0 totWriten world with
      | none => none
      | some (.error _, world) => some ⟨-1, offset, world⟩
      | some (.ok totWriten, world) =>
          some ⟨totWriten, offset.map fun _ => (world.input.offset : Int),
            { world with input := world.input.seek originOffset }⟩

end Model

/-! ### Short reads and partial writes -/

/-- Calls that move at least one byte when they can, and no more than that. -/
structure Transfers where
  moved : Nat → Nat → Nat
  positive : ∀ call most, 0 < most → 0 < moved call most
  within : ∀ call most, moved call most ≤ most

/-- No call fails. -/
def Transfers.system (reads writes : Transfers) : System where
  read call most := .ok (reads.moved call most)
  write call most := .ok (writes.moved call most)

/-- The counts of the writes that follow a `read` of `numRead` bytes, from one of them
on, when `done` bytes have been taken. -/
def Transfers.counts (writes : Transfers) (numRead call done : Nat) : List Nat :=
  if done < numRead then
    writes.moved call numRead ::
      writes.counts numRead (call + 1) (done + writes.moved call numRead)
  else []
termination_by numRead - done
decreasing_by
  have := writes.positive call numRead (by omega)
  omega

/-- What one `read` delivers, and what the writes after it take. -/
structure Round where
  read : Nat
  writes : List Nat
deriving DecidableEq, Repr

/-- The writes take as many bytes as the `read` delivered. -/
def Round.Settled (round : Round) : Prop :=
  round.writes.sum = round.read

/-- One `write` takes them all. -/
def Round.Complete (round : Round) : Prop :=
  round.writes = [round.read]

theorem Round.Complete.settled {round : Round} (complete : round.Complete) : round.Settled := by
  rw [Settled, complete, List.sum_singleton]

/-- The transfers of `remaining` bytes, from one `read` and one `write` on. -/
def rounds (reads writes : Transfers) (readCall writeCall remaining : Nat) : List Round :=
  if remaining = 0 then []
  else
    let numRead := reads.moved readCall (min BUF_SIZE remaining)
    let counts := writes.counts numRead writeCall 0
    ⟨numRead, counts⟩ ::
      rounds reads writes (readCall + 1) (writeCall + counts.length) (remaining - numRead)
termination_by remaining
decreasing_by
  have := reads.positive readCall (min BUF_SIZE remaining) (by unfold BUF_SIZE; omega)
  omega

/-- Before any call: nothing is written, and the stack holds what it holds. -/
def World.initial (input : OpenFile) (memory : Nat → UInt8) : World :=
  ⟨input, [], memory, 0, 0, []⟩

/-! ### What the calls write -/

theorem slice_add (memory : Nat → UInt8) (start first second : Nat) :
    slice memory start (first + second) =
      slice memory start first ++ slice memory (start + first) second := by
  rw [slice, slice, slice, ← List.map_append, List.range'_append_1]

@[simp] theorem length_slice (memory : Nat → UInt8) (start count : Nat) :
    (slice memory start count).length = count := by
  rw [slice, List.length_map, List.length_range']

/-- The bytes just read stand at the start of the buffer. -/
theorem slice_fill (memory : Nat → UInt8) (data : List UInt8) (more : Nat) :
    slice (fill memory data) 0 (data.length + more) =
      data ++ slice (fill memory data) data.length more := by
  have stored : slice (fill memory data) 0 data.length = data := by
    apply List.ext_getElem
    · simp [slice]
    · intro place inSlice inData
      simp [slice, fill, inData]
  rw [slice_add, stored, Nat.zero_add]

/-- The writes that follow a `read` of `numRead` bytes, as they are made. -/
def callsOf (numRead : Nat) : Nat → List Nat → List WriteCall
  | _, [] => []
  | start, taken :: rest =>
      ⟨start, numRead, numRead, taken⟩ :: callsOf numRead (start + taken) rest

theorem length_callsOf (numRead start : Nat) (counts : List Nat) :
    (callsOf numRead start counts).length = counts.length := by
  induction counts generalizing start with
  | nil => rfl
  | cons taken rest inductionHypothesis =>
      show (callsOf numRead (start + taken) rest).length + 1 = rest.length + 1
      rw [inductionHypothesis]

section Short

variable (reads writes : Transfers)

theorem write_short (start count : Nat) (world : World) :
    write (reads.system writes) start count world =
      (.ok (writes.moved world.writes.length count),
        { world with
          output := world.output ++ slice world.memory start
            (writes.moved world.writes.length count)
          writes := world.writes ++
            [⟨start, count, world.stored, writes.moved world.writes.length count⟩] }) :=
  rfl

/-- The inner loop ends once the bytes of the `read` have been counted. -/
theorem Transfers.le_sum_counts (numRead call done : Nat) :
    numRead ≤ done + (writes.counts numRead call done).sum := by
  fun_induction writes.counts numRead call done with
  | case1 call done some_left inductionHypothesis =>
      rw [List.sum_cons]
      omega
  | case2 call done none_left => omega

/-- The inner loop takes what the counts say, from one place of the memory after the
other. -/
theorem writeLoop_counts (numRead : Nat) :
    ∀ (fuel done : Nat) (world : World), numRead - done < fuel → world.stored = numRead →
      writeLoop (reads.system writes) numRead fuel done done world =
        some (.ok (done + (writes.counts numRead world.writes.length done).sum),
          { world with
            output := world.output ++ slice world.memory done
              (writes.counts numRead world.writes.length done).sum
            writes := world.writes ++ callsOf numRead done
              (writes.counts numRead world.writes.length done) })
  | 0, _, _, enough, _ => absurd enough (Nat.not_lt_zero _)
  | fuel + 1, done, world, enough, stored => by
      rw [Transfers.counts]
      unfold writeLoop
      by_cases some_left : done < numRead
      · have positive := writes.positive world.writes.length numRead (by omega)
        rw [if_pos some_left, if_pos some_left]
        rw [write_short]
        show writeLoop (reads.system writes) numRead fuel _ _ _ = _
        rw [writeLoop_counts numRead fuel (done + writes.moved world.writes.length numRead) _
          (by omega) (by exact stored)]
        simp only [List.length_append, List.length_singleton, List.sum_cons, callsOf, slice_add,
          List.append_assoc, List.singleton_append, Nat.add_assoc, stored]
      · rw [if_neg some_left, if_neg some_left]
        simp [slice, callsOf]

/-- What is left of the input. -/
def World.rest (world : World) : List UInt8 :=
  world.input.bytes.drop world.input.offset

/-- The next bytes of the input, as many as a `read` delivers, stand in the buffer. -/
def World.buffered (world : World) (numRead : Nat) : World :=
  { world with
    input := world.input.seek (world.input.offset + numRead)
    memory := fill world.memory (world.rest.take numRead)
    stored := numRead
    reads := world.reads + 1 }

theorem read_short (count : Nat) (world : World) :
    read (reads.system writes) count world =
      (.ok (reads.moved world.reads (min count world.rest.length)),
        world.buffered (reads.moved world.reads (min count world.rest.length))) := by
  have within := reads.within world.reads (min count world.rest.length)
  have taken : (world.rest.take (reads.moved world.reads (min count world.rest.length))).length =
      reads.moved world.reads (min count world.rest.length) := by
    rw [List.length_take]
    omega
  have left : world.input.bytes.length - world.input.offset = world.rest.length := by
    rw [World.rest, List.length_drop]
  simp only [read, Transfers.system, left, OpenFile.read, World.buffered, OpenFile.seek]
  rw [World.rest] at taken
  simp only [World.rest, taken]

/-- The writes after a `read` have emitted its bytes, and what they took beyond them. -/
def World.drained (world : World) (numRead : Nat) (counts : List Nat) (extra : List UInt8) :
    World :=
  { world.buffered numRead with
    output := world.output ++ (world.rest.take numRead ++ extra)
    writes := world.writes ++ callsOf numRead 0 counts }

theorem World.length_rest_drained (world : World) (numRead : Nat) (counts : List Nat)
    (extra : List UInt8) :
    (world.drained numRead counts extra).rest.length = world.rest.length - numRead := by
  rw [World.rest, World.rest, List.length_drop, List.length_drop]
  show world.input.bytes.length - (world.input.offset + numRead) = _
  omega

theorem World.length_writes_drained (world : World) (numRead : Nat) (counts : List Nat)
    (extra : List UInt8) :
    (world.drained numRead counts extra).writes.length = world.writes.length + counts.length := by
  rw [World.drained, List.length_append, length_callsOf]

theorem writeLoop_buffered (numRead fuel : Nat) (world : World) (enough : numRead < fuel)
    (available : numRead ≤ world.rest.length) :
    ∃ extra : List UInt8,
      extra.length + numRead = (writes.counts numRead world.writes.length 0).sum ∧
      writeLoop (reads.system writes) numRead fuel 0 0 (world.buffered numRead) =
        some (.ok (writes.counts numRead world.writes.length 0).sum,
          world.drained numRead (writes.counts numRead world.writes.length 0) extra) := by
  have counted := writes.le_sum_counts numRead world.writes.length 0
  obtain ⟨more, total⟩ := Nat.exists_eq_add_of_le counted
  rw [Nat.zero_add] at total
  have length : (world.rest.take numRead).length = numRead := by
    rw [List.length_take, Nat.min_eq_left available]
  have emitted := slice_fill world.memory (world.rest.take numRead) more
  rw [length, ← total] at emitted
  refine ⟨slice (world.buffered numRead).memory numRead more, ?_, ?_⟩
  · rw [length_slice, total, Nat.add_comm]
  · rw [writeLoop_counts reads writes numRead fuel 0 (world.buffered numRead) (by omega) rfl,
      Nat.zero_add]
    simp only [World.buffered, World.drained]
    rw [emitted]

/-- What a call leaves once it has made the transfers of these rounds. -/
structure Transferred (before after : World) (made : List Round) (count : Nat) : Prop where
  input : after.input = before.input.seek (before.input.offset + count)
  writes : after.writes =
    before.writes ++ made.flatMap fun round => callsOf round.read 0 round.writes
  length : after.output.length =
    before.output.length + (made.map fun round => round.writes.sum).sum
  bytes : (∀ round ∈ made, round.Settled) →
    after.output = before.output ++ before.rest.take count

theorem Transferred.refl (world : World) : Transferred world world [] 0 where
  input := rfl
  writes := by simp
  length := rfl
  bytes _ := by simp

/-- A round, and then the others. -/
theorem Transferred.cons {before after : World} {numRead count : Nat} {counts : List Nat}
    {extra : List UInt8} {made : List Round} (available : numRead ≤ before.rest.length)
    (counted : extra.length + numRead = counts.sum)
    (others : Transferred (before.drained numRead counts extra) after made count) :
    Transferred before after (⟨numRead, counts⟩ :: made) (numRead + count) := by
  refine ⟨?_, ?_, ?_, ?_⟩
  · rw [others.input]
    show before.input.seek (before.input.offset + numRead + count) = _
    rw [Nat.add_assoc]
  · rw [others.writes, List.flatMap_cons, ← List.append_assoc]
    rfl
  · rw [others.length, List.map_cons, List.sum_cons]
    show (before.output ++ (before.rest.take numRead ++ extra)).length + _ =
      before.output.length + (counts.sum + _)
    rw [List.length_append, List.length_append, List.length_take]
    omega
  · intro settled
    have none_extra : extra = [] := by
      have sum : counts.sum = numRead := settled ⟨numRead, counts⟩ List.mem_cons_self
      exact List.eq_nil_of_length_eq_zero (by omega)
    have next : (before.drained numRead counts extra).rest = before.rest.drop numRead := by
      rw [World.rest, World.rest, List.drop_drop]
      rfl
    rw [others.bytes fun other member => settled other (List.mem_cons_of_mem _ member), next,
      List.take_add, ← List.append_assoc, World.drained, none_extra, List.append_nil]

theorem toSize_eq (count : UInt64) (value : Nat) (below : value ≤ count.toNat) :
    toSize value = value := by
  have sized := count.toNat_lt
  unfold toSize
  omega

theorem toSize_sub (count : UInt64) {value : Nat} (below : value ≤ count.toNat) :
    toSize (count.toNat - value) = count.toNat - value := by
  have sized := count.toNat_lt
  unfold toSize
  omega

/-- `read_num` and what is there bound the same number of bytes as the buffer and what
remains. -/
theorem most_eq (asked left : Nat) :
    min (if asked > BUF_SIZE then BUF_SIZE else asked) left = min BUF_SIZE (min asked left) := by
  split <;> omega

/-- The outer loop makes the rounds of all bytes that are asked for and there. -/
theorem transferLoop_rounds (count : UInt64) :
    ∀ (fuel transNum : Nat) (totWriten : Int) (world : World), transNum ≤ count.toNat →
      count.toNat - transNum + BUF_SIZE + 1 < fuel →
      ∃ result after, transferLoop (reads.system writes) count fuel transNum totWriten world =
          some (.ok result, after) ∧
        Transferred world after
          (rounds reads writes world.reads world.writes.length
            (min (count.toNat - transNum) world.rest.length))
          (min (count.toNat - transNum) world.rest.length)
  | 0, _, _, _, _, enough => absurd enough (Nat.not_lt_zero _)
  | fuel + 1, transNum, totWriten, world, below, enough => by
      unfold transferLoop
      rw [toSize_eq count transNum below]
      by_cases some_asked : transNum < count.toNat
      · rw [if_pos some_asked, toSize_sub count below]
        simp only [read_short, most_eq]
        generalize remaining_def : min (count.toNat - transNum) world.rest.length = remaining
        by_cases none_left : remaining = 0
        · have nothing : reads.moved world.reads (min BUF_SIZE remaining) = 0 := by
            have within := reads.within world.reads (min BUF_SIZE remaining)
            omega
          rw [nothing, rounds, if_pos none_left, none_left]
          exact ⟨totWriten, _, rfl, rfl, (List.append_nil _).symm, rfl,
            fun _ => (List.append_nil _).symm⟩
        · have positive := reads.positive world.reads (min BUF_SIZE remaining)
            (by unfold BUF_SIZE; omega)
          have within := reads.within world.reads (min BUF_SIZE remaining)
          rw [rounds, if_neg none_left]
          generalize reads.moved world.reads (min BUF_SIZE remaining) = numRead at *
          obtain ⟨less, rfl⟩ := Nat.exists_eq_add_of_le' positive
          obtain ⟨extra, counted, written⟩ :=
            writeLoop_buffered reads writes (less + 1) fuel world (by omega) (by omega)
          simp only [written]
          obtain ⟨result, after, ran, transferred⟩ :=
            transferLoop_rounds count fuel (transNum + (less + 1))
              (writes.counts (less + 1) world.writes.length 0).sum
              (world.drained (less + 1) (writes.counts (less + 1) world.writes.length 0) extra)
              (by omega) (by omega)
          rw [World.length_rest_drained, World.length_writes_drained,
            show min (count.toNat - (transNum + (less + 1))) (world.rest.length - (less + 1)) =
              remaining - (less + 1) by omega] at transferred
          have whole := transferred.cons (by omega) counted
          rw [show less + 1 + (remaining - (less + 1)) = remaining by omega] at whole
          exact ⟨result, after, ran, whole⟩
      · have none_asked : min (count.toNat - transNum) world.rest.length = 0 := by omega
        rw [if_neg some_asked, none_asked, rounds, if_pos rfl]
        exact ⟨totWriten, world, rfl, .refl world⟩

/-! ### Which transfers copy what was asked for -/

/-- No `write` takes a byte behind those stored, if all of them together do not. -/
theorem callsOf_taken_iff (numRead : Nat) :
    ∀ (counts : List Nat) (start : Nat), start ≤ numRead →
      ((∀ call ∈ callsOf numRead start counts, call.start + call.taken ≤ call.stored) ↔
        start + counts.sum ≤ numRead)
  | [], start, below => by simp [callsOf, below]
  | taken :: rest, start, below => by
      rw [callsOf, List.forall_mem_cons, List.sum_cons, ← Nat.add_assoc]
      show start + taken ≤ numRead ∧ _ ↔ _
      by_cases inside : start + taken ≤ numRead
      · rw [callsOf_taken_iff numRead rest (start + taken) inside]
        exact and_iff_right inside
      · constructor
        · intro bounded
          exact absurd bounded.1 inside
        · intro bounded
          omega

/-- A second `write` is asked for bytes behind those stored. -/
theorem callsOf_asked_iff {numRead call : Nat} (positive : 0 < numRead) :
    (∀ made ∈ callsOf numRead 0 (writes.counts numRead call 0),
        made.start + made.asked ≤ made.stored) ↔
      writes.counts numRead call 0 = [numRead] := by
  have within := writes.within call numRead
  have some_taken := writes.positive call numRead positive
  rw [Transfers.counts, if_pos positive, Nat.zero_add]
  constructor
  · intro inside
    rw [Transfers.counts] at inside ⊢
    by_cases partial_ : writes.moved call numRead < numRead
    · rw [if_pos partial_] at inside
      have second : writes.moved call numRead + numRead ≤ numRead := by
        simpa using inside ⟨writes.moved call numRead, numRead, numRead, _⟩
          (List.mem_cons_of_mem _ (by rw [Nat.zero_add]; exact List.mem_cons_self))
      omega
    · rw [if_neg partial_, show writes.moved call numRead = numRead by omega]
  · intro complete made member
    rw [complete] at member
    rw [List.mem_singleton.mp member]
    simp

theorem rounds_positive (readCall writeCall remaining : Nat) :
    ∀ round ∈ rounds reads writes readCall writeCall remaining, 0 < round.read ∧
      ∃ call, round.writes = writes.counts round.read call 0 := by
  fun_induction rounds reads writes readCall writeCall remaining with
  | case1 readCall writeCall => simp
  | case2 readCall writeCall remaining some_left numRead counts inductionHypothesis =>
      intro round member
      cases member with
      | head =>
          exact ⟨reads.positive readCall _ (by unfold BUF_SIZE; omega), writeCall, rfl⟩
      | tail _ member => exact inductionHypothesis round member

theorem sum_rounds (readCall writeCall remaining : Nat) :
    ((rounds reads writes readCall writeCall remaining).map Round.read).sum = remaining := by
  fun_induction rounds reads writes readCall writeCall remaining with
  | case1 readCall writeCall => rfl
  | case2 readCall writeCall remaining some_left numRead counts inductionHypothesis =>
      have within := reads.within readCall (min BUF_SIZE remaining)
      rw [List.map_cons, List.sum_cons, inductionHypothesis]
      show numRead + (remaining - numRead) = remaining
      omega

/-- Rounds that take at least what they read, and no more all together, are settled. -/
theorem settled_of_sum :
    ∀ made : List Round, (∀ round ∈ made, round.read ≤ round.writes.sum) →
      (made.map fun round => round.writes.sum).sum = (made.map Round.read).sum →
      ∀ round ∈ made, round.Settled
  | [], _, _ => by simp
  | first :: others, enough, same => by
      have othersEnough := List.sum_le_sum fun round member =>
        enough round (List.mem_cons_of_mem first member)
      have firstEnough := enough first List.mem_cons_self
      rw [List.map_cons, List.map_cons, List.sum_cons, List.sum_cons] at same
      intro round member
      cases member with
      | head =>
          unfold Round.Settled
          omega
      | tail _ member =>
          exact settled_of_sum others (fun other inside =>
            enough other (List.mem_cons_of_mem first inside)) (by omega) round member

/-- What the calls of some rounds write, and where they write it from. -/
theorem transfers_iff {world after : World} {count : Nat} (empty : world.writes = [])
    (nothing : world.output = []) (available : count ≤ world.rest.length)
    (transferred : Transferred world after (rounds reads writes 0 0 count) count) :
    (after.output = world.rest.take count ↔
        ∀ round ∈ rounds reads writes 0 0 count, round.Settled) ∧
      ((∀ call ∈ after.writes, call.start + call.taken ≤ call.stored) ↔
        ∀ round ∈ rounds reads writes 0 0 count, round.Settled) ∧
      ((∀ call ∈ after.writes, call.start + call.asked ≤ call.stored) ↔
        ∀ round ∈ rounds reads writes 0 0 count, round.Complete) := by
  have shape := rounds_positive reads writes 0 0 count
  have length := transferred.length
  have bytes := transferred.bytes
  rw [nothing] at length bytes
  have enough : ∀ round ∈ rounds reads writes 0 0 count, round.read ≤ round.writes.sum := by
    intro round member
    obtain ⟨_, call, counts⟩ := shape round member
    have counted := writes.le_sum_counts round.read call 0
    rwa [counts, ← Nat.zero_add (writes.counts round.read call 0).sum]
  have logged : ∀ property : WriteCall → Prop, (∀ call ∈ after.writes, property call) ↔
      ∀ round ∈ rounds reads writes 0 0 count, ∀ call ∈ callsOf round.read 0 round.writes,
        property call := by
    intro property
    rw [transferred.writes, empty, List.nil_append]
    simp only [List.mem_flatMap]
    grind
  refine ⟨⟨?_, bytes⟩, ?_, ?_⟩
  · intro written
    rw [written, List.length_take, Nat.min_eq_left available, List.length_nil] at length
    apply settled_of_sum _ enough
    rw [sum_rounds]
    omega
  · rw [logged]
    apply forall₂_congr
    intro round member
    rw [callsOf_taken_iff round.read round.writes 0 (Nat.zero_le _), Round.Settled]
    have := enough round member
    omega
  · rw [logged]
    apply forall₂_congr
    intro round member
    obtain ⟨positive, call, counts⟩ := shape round member
    rw [Round.Complete, counts]
    exact callsOf_asked_iff writes positive

end Short

theorem position_initial {offset : Option Int} {input : OpenFile} {memory : Nat → UInt8}
    {start : World} (positioned : position offset (World.initial input memory) = some start) :
    start.reads = 0 ∧ start.writes = [] ∧ start.output = [] := by
  cases offset with
  | none =>
      cases positioned
      exact ⟨rfl, rfl, rfl⟩
  | some distance =>
      rw [position, seekCurrent, Option.ite_none_right_eq_some] at positioned
      cases positioned.2
      exact ⟨rfl, rfl, rfl⟩

/-- The calls of `my_sendfile` copy the bytes that were asked for, and each asks for bytes
that are stored, exactly if no `write` is partial. Without regard to what a `write` asks
for, it is enough that the writes after each `read` take as many bytes as it delivered. -/
theorem mySendfile_copies_iff (reads writes : Transfers) (offset : Option Int) (count : UInt64)
    (totWriten : Int) (input : OpenFile) (memory : Nat → UInt8) {start : World} {fuel : Nat}
    (positioned : position offset (World.initial input memory) = some start)
    (enough : count.toNat + BUF_SIZE + 1 < fuel) :
    ∃ returned, mySendfile (reads.system writes) fuel offset count totWriten
        (World.initial input memory) = some returned ∧
      (returned.world.output = start.rest.take count.toNat ↔
        ∀ round ∈ rounds reads writes 0 0 (min count.toNat start.rest.length), round.Settled) ∧
      ((∀ call ∈ returned.world.writes, call.start + call.taken ≤ call.stored) ↔
        ∀ round ∈ rounds reads writes 0 0 (min count.toNat start.rest.length), round.Settled) ∧
      (returned.world.output = start.rest.take count.toNat ∧
          (∀ call ∈ returned.world.writes, call.start + call.asked ≤ call.stored) ↔
        ∀ round ∈ rounds reads writes 0 0 (min count.toNat start.rest.length),
          round.Complete) := by
  obtain ⟨reads_none, writes_none, nothing⟩ := position_initial positioned
  obtain ⟨result, after, ran, transferred⟩ := transferLoop_rounds reads writes count fuel 0
    totWriten start (Nat.zero_le _) (by omega)
  rw [Nat.sub_zero, reads_none, writes_none, List.length_nil] at transferred
  have copied := transfers_iff reads writes writes_none nothing (Nat.min_le_right _ _) transferred
  rw [← List.take_eq_take_min] at copied
  obtain ⟨bytes, taken, asked⟩ := copied
  have returned : mySendfile (reads.system writes) fuel offset count totWriten
      (World.initial input memory) = some ⟨result, offset.map fun _ => (after.input.offset : Int),
        { after with input := after.input.seek input.offset }⟩ := by
    unfold mySendfile
    rw [positioned]
    simp only
    rw [show (0 : Int) = ((0 : Nat) : Int) from rfl, ran]
    rfl
  refine ⟨_, returned, bytes, taken, ?_⟩
  constructor
  · intro copied
    exact asked.mp copied.2
  · intro complete
    exact ⟨bytes.mpr fun round member => (complete round member).settled, asked.mpr complete⟩

/-- Calls that move at most `count + 1` bytes. -/
def Transfers.upTo (count : Nat) : Transfers where
  moved _ most := min most (count + 1)
  positive _ most some_asked := by omega
  within _ most := Nat.min_le_left most (count + 1)

/-- Three bytes from the second on, read two at a time and written at once. -/
theorem mySendfile_copies_three :
    ∃ returned, mySendfile ((Transfers.upTo 1).system (Transfers.upTo 1023)) 2000 none 3 0
        (World.initial ⟨[1, 2, 3, 4, 5], 1⟩ fun _ => 0) = some returned ∧
      (returned.world.output = [2, 3, 4] ↔
        ∀ round ∈ rounds (.upTo 1) (.upTo 1023) 0 0 3, round.Settled) ∧
      ((∀ call ∈ returned.world.writes, call.start + call.taken ≤ call.stored) ↔
        ∀ round ∈ rounds (.upTo 1) (.upTo 1023) 0 0 3, round.Settled) ∧
      (returned.world.output = [2, 3, 4] ∧
          (∀ call ∈ returned.world.writes, call.start + call.asked ≤ call.stored) ↔
        ∀ round ∈ rounds (.upTo 1) (.upTo 1023) 0 0 3, round.Complete) :=
  mySendfile_copies_iff (.upTo 1) (.upTo 1023) none 3 0 ⟨[1, 2, 3, 4, 5], 1⟩ (fun _ => 0) rfl
    (by decide)

/-- Of three bytes the first `write` takes two. The second is asked for three more, takes
two, and the file gets a byte that was never read. -/
theorem mySendfile_overruns :
    ∃ returned, mySendfile ((Transfers.upTo 1023).system (Transfers.upTo 1)) 8 none 3 0
        (World.initial ⟨[1, 2, 3], 0⟩ fun _ => 0) = some returned ∧
      returned.world.output = [1, 2, 3, 0] ∧
      returned.world.writes = [⟨0, 3, 3, 2⟩, ⟨2, 3, 3, 2⟩] :=
  ⟨_, rfl, rfl, rfl⟩

end LinuxProgramming.Sockets.Sendfile
