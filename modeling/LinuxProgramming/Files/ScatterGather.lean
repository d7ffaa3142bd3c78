import Mathlib.Data.List.Basic
import LinuxProgramming.Library.Gather

/-!
Contract: `myreadv` and `mywritev` when their calls transfer less than they are asked to.

Owns:
- the two functions on any vector of buffers, with any result of each call;
- which bytes they transfer, each with its place in the concatenated buffers;
- exactly when these are the first bytes of the concatenated buffers.

Does not own: descriptors, and buffers that overlap.
-/

namespace LinuxProgramming.Files.ScatterGather

open LinuxProgramming.Library

abbrev Errno := Nat

/-- A buffer of the vector, and what the call on it gives. -/
structure Call where
  buffer : List UInt8
  result : Except Errno Nat

/-- A byte, and its place in the concatenated buffers. -/
abbrev Byte := UInt8 × Nat

/-- What `read` or `write` returns: no more than it is asked for. -/
def Call.transferred (call : Call) : Except Errno Nat :=
  match call.result with
  | .error errno => .error errno
  | .ok count => .ok (min count call.buffer.length)

/-- The loop of `mywritev` from the buffer at `place` on: the result, and what is written. -/
def writeLoop : List Call → Nat → Int → List Byte → Int × List Byte
  | [], _, write_num, output => (write_num, output)
  | call :: rest, place, write_num, output =>
      match call.transferred with
      | .error _ => (-1, output)
      | .ok tmp_num =>
          writeLoop rest (place + call.buffer.length) (write_num + tmp_num)
            (output ++ (call.buffer.zipIdx place).take tmp_num)

def mywritev (calls : List Call) : Int × List Byte := writeLoop calls 0 0 []

/-- The result of `myreadv`, the buffers after it, and the bytes in the order in which they
were read, each with the place where it was stored. -/
structure Scattered where
  value : Int
  buffers : List (List UInt8)
  stored : List Byte

/-- The loop of `myreadv`, when `position` bytes of the input have been read. -/
def readLoop (input : Nat → UInt8) : List Call → Nat → Nat → Int → Scattered
  | [], _, _, read_num => ⟨read_num, [], []⟩
  | call :: rest, place, position, read_num =>
      match call.transferred with
      | .error _ => ⟨-1, call.buffer :: rest.map Call.buffer, []⟩
      | .ok tmp_num =>
          let data := (List.range' position tmp_num).map input
          let later := readLoop input rest (place + call.buffer.length) (position + tmp_num)
            (read_num + tmp_num)
          ⟨later.value, (data ++ call.buffer.drop tmp_num) :: later.buffers,
            data.zipIdx place ++ later.stored⟩

def myreadv (input : Nat → UInt8) (calls : List Call) : Scattered := readLoop input calls 0 0 0

/-! ### The law -/

/-- The concatenated buffers. -/
def concatenated (buffers : List (List UInt8)) : List Byte := buffers.flatten.zipIdx

/-- A result that is not negative is the number of bytes written, and these are the first
ones of the concatenated buffers, in order. -/
def WritevLaw (calls : List Call) : Prop :=
  0 ≤ (mywritev calls).1 →
    (mywritev calls).2 =
      (concatenated (calls.map Call.buffer)).take (mywritev calls).1.toNat

/-- A result that is not negative is the number of bytes read, and these are stored as the
first ones of the concatenated buffers, in order. -/
def ReadvLaw (input : Nat → UInt8) (calls : List Call) : Prop :=
  0 ≤ (myreadv input calls).value →
    (myreadv input calls).stored.map Prod.fst =
        (List.range (myreadv input calls).value.toNat).map input ∧
      (myreadv input calls).stored =
        (concatenated (myreadv input calls).buffers).take (myreadv input calls).value.toNat

/-- How much a call transfers. -/
def Call.count (call : Call) : Nat :=
  match call.result with
  | .error _ => 0
  | .ok count => min count call.buffer.length

def Call.Fails (call : Call) : Prop := ∃ errno, call.result = .error errno

/-- Some call fails, or no call transfers a byte after one that was short. -/
def NoneAfterShort (calls : List Call) : Prop :=
  (∃ call ∈ calls, call.Fails) ∨
    calls.Pairwise fun first second =>
      first.buffer.length ≤ first.count ∨ second.buffer.length = 0 ∨ second.count = 0

/-! ### `mywritev` -/

theorem Call.transferred_ok {call : Call} (succeeds : ¬ call.Fails) :
    call.transferred = .ok call.count := by
  unfold transferred count
  cases returned : call.result with
  | error errno => exact absurd ⟨errno, returned⟩ succeeds
  | ok count => rfl

theorem Call.transferred_error {call : Call} (fails : call.Fails) :
    ∃ errno, call.transferred = .error errno := by
  obtain ⟨errno, returned⟩ := fails
  exact ⟨errno, by rw [transferred, returned]⟩

theorem Call.count_le (call : Call) : call.count ≤ call.buffer.length := by
  unfold count
  cases call.result with
  | error errno => exact Nat.zero_le _
  | ok count => exact Nat.min_le_right _ _

/-- What is written from each buffer. -/
def writeShares : List Call → Nat → List (Gather.Share Byte)
  | [], _ => []
  | call :: rest, place =>
      ⟨call.buffer.zipIdx place, call.count⟩ :: writeShares rest (place + call.buffer.length)

theorem whole_writeShares (calls : List Call) (place : Nat) :
    Gather.whole (writeShares calls place) = (calls.map Call.buffer).flatten.zipIdx place := by
  induction calls generalizing place with
  | nil => rfl
  | cons call rest inductionHypothesis =>
      rw [List.map_cons, List.flatten_cons, List.zipIdx_append, ← inductionHypothesis]
      rfl

/-- The loop without failures. -/
theorem writeLoop_succeeds {calls : List Call} (succeed : ∀ call ∈ calls, ¬ call.Fails)
    (place : Nat) (write_num : Int) (output : List Byte) :
    writeLoop calls place write_num output =
      (write_num + (Gather.taken (writeShares calls place)).length,
        output ++ Gather.taken (writeShares calls place)) := by
  induction calls generalizing place write_num output with
  | nil => simp [writeLoop, writeShares, Gather.taken]
  | cons call rest inductionHypothesis =>
      have succeedRest : ∀ other ∈ rest, ¬ other.Fails :=
        fun other member => succeed other (List.mem_cons_of_mem _ member)
      have within := call.count_le
      have takenCons : Gather.taken (writeShares (call :: rest) place) =
          (call.buffer.zipIdx place).take call.count ++
            Gather.taken (writeShares rest (place + call.buffer.length)) := List.flatMap_cons
      rw [writeLoop, Call.transferred_ok (succeed call List.mem_cons_self)]
      show writeLoop rest _ _ _ = _
      rw [inductionHypothesis succeedRest, takenCons, List.length_append, List.append_assoc,
        List.length_take, List.length_zipIdx, Nat.min_eq_left within, Int.natCast_add,
        Int.add_assoc]

theorem writeLoop_fails {calls : List Call} (fails : ∃ call ∈ calls, call.Fails)
    (place : Nat) (write_num : Int) (output : List Byte) :
    (writeLoop calls place write_num output).1 = -1 := by
  induction calls generalizing place write_num output with
  | nil => simp at fails
  | cons call rest inductionHypothesis =>
      rw [writeLoop]
      by_cases failsHere : call.Fails
      · obtain ⟨errno, failed⟩ := Call.transferred_error failsHere
        rw [failed]
      · have failsLater : ∃ other ∈ rest, other.Fails := by
          simpa [failsHere] using fails
        rw [Call.transferred_ok failsHere]
        exact inductionHypothesis failsLater _ _ _

/-- The sizes and the counts of the calls. -/
def amounts (calls : List Call) : List (Nat × Nat) :=
  calls.map fun call => (call.buffer.length, call.count)

theorem noneAfterShort_iff_amounts {calls : List Call} (succeed : ∀ call ∈ calls, ¬ call.Fails) :
    NoneAfterShort calls ↔ (amounts calls).Pairwise
      fun first second => first.1 ≤ first.2 ∨ second.1 = 0 ∨ second.2 = 0 := by
  rw [NoneAfterShort, amounts, List.pairwise_map]
  constructor
  · intro condition
    apply condition.resolve_left
    rintro ⟨call, member, fails⟩
    exact succeed call member fails
  · exact Or.inr

/-- What is taken is as much of the whole as its length says, exactly if no call transfers
a byte after a short one. -/
theorem taken_eq_take_iff {calls : List Call} (succeed : ∀ call ∈ calls, ¬ call.Fails)
    {shares : List (Gather.Share Byte)} {buffers : List (List UInt8)}
    (sizes : shares.map (fun share => (share.part.length, share.count)) = amounts calls)
    (wholeIs : Gather.whole shares = concatenated buffers) :
    Gather.taken shares = (concatenated buffers).take (Gather.taken shares).length ↔
      NoneAfterShort calls := by
  have distinct : (Gather.whole shares).Nodup := by
    apply List.Nodup.of_map Prod.snd
    rw [wholeIs, concatenated, List.zipIdx_map_snd]
    exact List.nodup_range'
  rw [← wholeIs, ← List.prefix_iff_eq_take, Gather.taken_prefix_iff distinct,
    Gather.noGap_iff_sizes, sizes, noneAfterShort_iff_amounts succeed]

theorem sizes_writeShares (calls : List Call) (place : Nat) :
    (writeShares calls place).map (fun share => (share.part.length, share.count)) =
      amounts calls := by
  induction calls generalizing place with
  | nil => rfl
  | cons call rest inductionHypothesis =>
      rw [writeShares, List.map_cons, inductionHypothesis, List.length_zipIdx]
      rfl

theorem writevLaw_iff (calls : List Call) : WritevLaw calls ↔ NoneAfterShort calls := by
  by_cases fails : ∃ call ∈ calls, call.Fails
  · refine iff_of_true (fun returns => ?_) (Or.inl fails)
    rw [mywritev, writeLoop_fails fails] at returns
    exact absurd returns (by decide)
  · have succeed : ∀ call ∈ calls, ¬ call.Fails :=
      fun call member failed => fails ⟨call, member, failed⟩
    have ends : mywritev calls = (((Gather.taken (writeShares calls 0)).length : Int),
        Gather.taken (writeShares calls 0)) := by
      rw [mywritev, writeLoop_succeeds succeed, Int.zero_add, List.nil_append]
    rw [WritevLaw, ends, ← taken_eq_take_iff succeed (sizes_writeShares calls 0)
      (whole_writeShares calls 0)]
    show (0 ≤ ((Gather.taken (writeShares calls 0)).length : Int) → _) ↔ _
    rw [Int.toNat_natCast]
    exact ⟨fun law => law (Int.natCast_nonneg _), fun law _ => law⟩

/-- Without the places, the law is about the bytes that are written. -/
theorem mywritev_bytes {calls : List Call} (law : WritevLaw calls)
    (returns : 0 ≤ (mywritev calls).1) :
    (mywritev calls).2.map Prod.fst =
      (calls.map Call.buffer).flatten.take (mywritev calls).1.toNat := by
  rw [law returns, concatenated, List.map_take, List.zipIdx_map_fst]

/-! ### `myreadv` -/

/-- A buffer after `read`: behind the new bytes the old ones stay. -/
def Call.filled (call : Call) (input : Nat → UInt8) (position : Nat) : List UInt8 :=
  (List.range' position call.count).map input ++ call.buffer.drop call.count

theorem Call.length_filled (call : Call) (input : Nat → UInt8) (position : Nat) :
    (call.filled input position).length = call.buffer.length := by
  have within := call.count_le
  rw [filled, List.length_append, List.length_map, List.length_range', List.length_drop]
  omega

/-- What is read into each buffer. -/
def readShares (input : Nat → UInt8) : List Call → Nat → Nat → List (Gather.Share Byte)
  | [], _, _ => []
  | call :: rest, place, position =>
      ⟨(call.filled input position).zipIdx place, call.count⟩ ::
        readShares input rest (place + call.buffer.length) (position + call.count)

theorem sizes_readShares (input : Nat → UInt8) (calls : List Call) (place position : Nat) :
    (readShares input calls place position).map (fun share => (share.part.length, share.count)) =
      amounts calls := by
  induction calls generalizing place position with
  | nil => rfl
  | cons call rest inductionHypothesis =>
      rw [readShares, List.map_cons, inductionHypothesis, List.length_zipIdx, Call.length_filled]
      rfl

theorem taken_filled (call : Call) (input : Nat → UInt8) (place position : Nat) :
    ((call.filled input position).zipIdx place).take call.count =
      ((List.range' position call.count).map input).zipIdx place := by
  rw [Call.filled, List.zipIdx_append, List.take_left']
  rw [List.length_zipIdx, List.length_map, List.length_range']

/-- The loop without failures. -/
theorem readLoop_succeeds (input : Nat → UInt8) {calls : List Call}
    (succeed : ∀ call ∈ calls, ¬ call.Fails) (place position : Nat) (read_num : Int) :
    ∃ buffers : List (List UInt8),
      readLoop input calls place position read_num =
          ⟨read_num + (Gather.taken (readShares input calls place position)).length, buffers,
            Gather.taken (readShares input calls place position)⟩ ∧
        Gather.whole (readShares input calls place position) = buffers.flatten.zipIdx place ∧
        (Gather.taken (readShares input calls place position)).map Prod.fst =
          (List.range' position
            (Gather.taken (readShares input calls place position)).length).map input := by
  induction calls generalizing place position read_num with
  | nil => exact ⟨[], by simp [readLoop, readShares, Gather.taken], rfl, rfl⟩
  | cons call rest inductionHypothesis =>
      have succeedRest : ∀ other ∈ rest, ¬ other.Fails :=
        fun other member => succeed other (List.mem_cons_of_mem _ member)
      obtain ⟨buffers, ends, wholeRest, valuesRest⟩ := inductionHypothesis succeedRest
        (place + call.buffer.length) (position + call.count) (read_num + call.count)
      have takenCons : Gather.taken (readShares input (call :: rest) place position) =
          ((List.range' position call.count).map input).zipIdx place ++
            Gather.taken (readShares input rest (place + call.buffer.length)
              (position + call.count)) := by
        rw [← taken_filled call input place position]
        exact List.flatMap_cons
      have lengthCons : (Gather.taken (readShares input (call :: rest) place position)).length =
          call.count + (Gather.taken (readShares input rest (place + call.buffer.length)
            (position + call.count))).length := by
        rw [takenCons, List.length_append, List.length_zipIdx, List.length_map,
          List.length_range']
      refine ⟨call.filled input position :: buffers, ?_, ?_, ?_⟩
      · rw [readLoop, Call.transferred_ok (succeed call List.mem_cons_self)]
        show Scattered.mk (readLoop input rest _ _ _).value _ _ = _
        rw [ends, lengthCons, takenCons, Int.natCast_add, Int.add_assoc]
        rfl
      · rw [List.flatten_cons, List.zipIdx_append, Call.length_filled, ← wholeRest]
        rfl
      · rw [lengthCons, takenCons, List.map_append, List.zipIdx_map_fst, valuesRest,
          ← List.range'_append_1, List.map_append]

theorem readLoop_fails (input : Nat → UInt8) {calls : List Call}
    (fails : ∃ call ∈ calls, call.Fails) (place position : Nat) (read_num : Int) :
    (readLoop input calls place position read_num).value = -1 := by
  induction calls generalizing place position read_num with
  | nil => simp at fails
  | cons call rest inductionHypothesis =>
      rw [readLoop]
      by_cases failsHere : call.Fails
      · obtain ⟨errno, failed⟩ := Call.transferred_error failsHere
        rw [failed]
      · have failsLater : ∃ other ∈ rest, other.Fails := by
          simpa [failsHere] using fails
        rw [Call.transferred_ok failsHere]
        exact inductionHypothesis failsLater _ _ _

theorem readvLaw_iff (input : Nat → UInt8) (calls : List Call) :
    ReadvLaw input calls ↔ NoneAfterShort calls := by
  by_cases fails : ∃ call ∈ calls, call.Fails
  · refine iff_of_true (fun returns => ?_) (Or.inl fails)
    rw [myreadv, readLoop_fails input fails] at returns
    exact absurd returns (by decide)
  · have succeed : ∀ call ∈ calls, ¬ call.Fails :=
      fun call member failed => fails ⟨call, member, failed⟩
    obtain ⟨buffers, ends, wholeIs, values⟩ := readLoop_succeeds input succeed 0 0 0
    rw [ReadvLaw, myreadv, ends,
      ← taken_eq_take_iff succeed (sizes_readShares input calls 0 0) wholeIs]
    rw [Int.zero_add]
    show (0 ≤ ((Gather.taken (readShares input calls 0 0)).length : Int) → _) ↔ _
    rw [Int.toNat_natCast, List.range_eq_range']
    exact ⟨fun law => (law (Int.natCast_nonneg _)).2, fun law _ => ⟨values, law⟩⟩

/-! ### Both functions -/

/-- The counts tell what was transferred exactly if a call fails, or no call transfers a
byte after one that was short. -/
theorem transfers_first_bytes_iff (input : Nat → UInt8) (calls : List Call) :
    (WritevLaw calls ↔ NoneAfterShort calls) ∧ (ReadvLaw input calls ↔ NoneAfterShort calls) :=
  ⟨writevLaw_iff calls, readvLaw_iff input calls⟩

/-- One of two bytes is written, and then the next buffer. -/
def oneOfTwo : List Call := [⟨[1, 2], .ok 1⟩, ⟨[3], .ok 1⟩]

theorem mywritev_leaves_gap :
    ¬ WritevLaw oneOfTwo ∧
      (mywritev oneOfTwo).1 = 2 ∧ (mywritev oneOfTwo).2.map Prod.fst = [1, 3] ∧
      ¬ ReadvLaw (fun _ => 9) oneOfTwo := by
  unfold WritevLaw ReadvLaw
  decide

end LinuxProgramming.Files.ScatterGather
