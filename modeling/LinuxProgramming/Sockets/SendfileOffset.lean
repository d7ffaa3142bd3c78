import LinuxProgramming.Sockets.Sendfile

/-!
Contract: the positions that `my_sendfile` reads from and leaves.

Owns:
- calls that all succeed, with writes that take all bytes;
- the law of `sendfile` for its offset and for the position of `in_fd`;
- exactly when the law holds, and what consecutive calls without an offset copy.

Does not own: the value that is returned.
-/

namespace LinuxProgramming.Sockets.Sendfile

open LinuxProgramming.Library

/-- Each call moves all it is asked to. -/
def Transfers.whole : Transfers where
  moved _ most := most
  positive _ _ positive := positive
  within _ _ := Nat.le_refl _

/-- A `write` that takes everything ends the inner loop. -/
theorem counts_whole {numRead : Nat} (positive : 0 < numRead) (call : Nat) :
    Transfers.whole.counts numRead call 0 = [numRead] := by
  have ended : ¬ 0 + Transfers.whole.moved call numRead < numRead := by
    simp [Transfers.whole]
  rw [Transfers.counts, if_pos positive, Transfers.counts, if_neg ended]
  rfl

/-- What a call leaves when all its calls succeed: the bytes from where `in_fd` was put are
written, `*offset` is where they end, and `in_fd` is put back. -/
theorem mySendfile_whole (reads : Transfers) {offset : Option Int} (count : UInt64)
    (totWriten : Int) {before start : World} {fuel : Nat}
    (positioned : position offset before = some start)
    (enough : count.toNat + BUF_SIZE + 1 < fuel) :
    ∃ returned, mySendfile (reads.system .whole) fuel offset count totWriten before =
        some returned ∧
      returned.world.output = start.output ++ start.rest.take count.toNat ∧
      returned.world.input = start.input.seek before.input.offset ∧
      returned.offset = offset.map fun _ =>
        ((start.input.offset + (start.rest.take count.toNat).length : Nat) : Int) := by
  obtain ⟨result, after, ran, transferred⟩ := transferLoop_rounds reads .whole count fuel 0
    totWriten start (Nat.zero_le _) (by omega)
  have settled : ∀ round ∈ rounds reads .whole start.reads start.writes.length
      (min (count.toNat - 0) start.rest.length), round.Settled := by
    intro round member
    obtain ⟨positive, call, counts⟩ := rounds_positive reads .whole _ _ _ round member
    rw [counts_whole positive call] at counts
    exact Round.Complete.settled counts
  have written := transferred.bytes settled
  rw [Nat.sub_zero, ← List.take_eq_take_min] at written
  have moved := transferred.input
  rw [Nat.sub_zero, ← List.length_take] at moved
  refine ⟨⟨result, offset.map fun _ => (after.input.offset : Int),
    { after with input := after.input.seek before.input.offset }⟩, ?_, written, ?_, ?_⟩
  · unfold mySendfile
    rw [positioned]
    simp only
    rw [show (0 : Int) = ((0 : Nat) : Int) from rfl, ran]
  · show after.input.seek before.input.offset = _
    rw [moved]
    rfl
  · show offset.map (fun _ => (after.input.offset : Int)) = _
    rw [moved]
    rfl

/-! ### The law -/

/-- The law of `sendfile`: the data come from `*offset`, which is advanced, and the position
stays; or they come from the position, which is advanced. -/
def OffsetLaw (offset : Option Int) (count : Nat) (before : World) (returned : Returned) : Prop :=
  ∃ data, returned.world.output = before.output ++ data ∧
    match offset with
    | some distance =>
        0 ≤ distance ∧ data = (before.input.bytes.drop distance.toNat).take count ∧
          returned.offset = some (distance + data.length) ∧
          returned.world.input = before.input
    | none =>
        data = before.rest.take count ∧
          returned.world.input = before.input.seek (before.input.offset + data.length)

/-- When the law holds: `*offset` counts from the position, which must be 0 for that; and the
position is never advanced. -/
def PositionFits (offset : Option Int) (count : Nat) (before : World) : Prop :=
  match offset with
  | some _ => before.input.offset = 0
  | none => count = 0 ∨ before.input.bytes.length ≤ before.input.offset

/-- Without an offset the law holds of a copy that leaves the position if there is nothing to
copy. -/
theorem offsetLaw_none_iff {count : Nat} {before : World} {returned : Returned}
    (output : returned.world.output = before.output ++ before.rest.take count)
    (input : returned.world.input = before.input) :
    OffsetLaw none count before returned ↔ PositionFits none count before := by
  constructor
  · intro law
    obtain ⟨data, written, fromPosition, advanced⟩ := law
    have same : before.input.offset = before.input.offset + data.length :=
      congrArg OpenFile.offset (input.symm.trans advanced)
    have length := congrArg List.length fromPosition
    rw [List.length_take, World.rest, List.length_drop] at length
    show count = 0 ∨ before.input.bytes.length ≤ before.input.offset
    omega
  · intro nothing
    have none_taken : before.rest.take count = [] := by
      rcases nothing with none_asked | none_left
      · rw [none_asked, List.take_zero]
      · rw [World.rest, List.drop_eq_nil_of_le none_left, List.take_nil]
    refine ⟨[], ?_, none_taken.symm, input⟩
    rw [output, none_taken]

/-- With an offset the law holds of a copy that counts it from the position if that is 0. -/
theorem offsetLaw_some_iff {distance : Int} {count : Nat} {before : World} {returned : Returned}
    (target : 0 ≤ before.input.offset + distance)
    (output : returned.world.output = before.output ++
      (before.input.bytes.drop (before.input.offset + distance).toNat).take count)
    (input : returned.world.input = before.input)
    (newOffset : returned.offset = some (before.input.offset + distance +
      ((before.input.bytes.drop (before.input.offset + distance).toNat).take count).length)) :
    OffsetLaw (some distance) count before returned ↔
      PositionFits (some distance) count before := by
  constructor
  · intro law
    obtain ⟨data, written, nonneg, _, advanced, _⟩ := law
    have sameData := List.append_cancel_left (written.symm.trans output)
    rw [newOffset, ← sameData, Option.some.injEq] at advanced
    show before.input.offset = 0
    omega
  · intro atStart
    replace atStart : before.input.offset = 0 := atStart
    have sameTarget : before.input.offset + distance = distance := by omega
    rw [sameTarget] at output newOffset
    exact ⟨_, output, by omega, rfl, newOffset, input⟩

theorem mySendfile_offsetLaw_iff (reads : Transfers) {offset : Option Int} {count : UInt64}
    (totWriten : Int) {before start : World} {fuel : Nat}
    (positioned : position offset before = some start)
    (enough : count.toNat + BUF_SIZE + 1 < fuel) :
    ∃ returned, mySendfile (reads.system .whole) fuel offset count totWriten before =
        some returned ∧
      (OffsetLaw offset count.toNat before returned ↔
        PositionFits offset count.toNat before) := by
  obtain ⟨returned, called, output, input, newOffset⟩ :=
    mySendfile_whole reads count totWriten positioned enough
  refine ⟨returned, called, ?_⟩
  cases offset with
  | none =>
      cases positioned
      exact offsetLaw_none_iff output input
  | some distance =>
      rw [position, seekCurrent, Option.ite_none_right_eq_some] at positioned
      obtain ⟨inRange, isStart⟩ := positioned
      cases isStart
      apply offsetLaw_some_iff inRange.1 output input
      rw [newOffset, Option.map_some, Option.some.injEq]
      simp only [OpenFile.seek, Int.natCast_add, Int.toNat_of_nonneg inRange.1]
      rfl

/-- Four bytes, of which the second is the next one to be read. -/
def fromSecond : World := World.initial ⟨[1, 2, 3, 4], 1⟩ fun _ => 0

theorem mySendfile_offsetLaw_fromSecond :
    position none fromSecond = some fromSecond ∧ (2 : UInt64).toNat + BUF_SIZE + 1 < 1028 ∧
      ∃ returned, mySendfile (Transfers.whole.system .whole) 1028 none 2 0 fromSecond =
          some returned ∧
        (OffsetLaw none (2 : UInt64).toNat fromSecond returned ↔
          PositionFits none (2 : UInt64).toNat fromSecond) :=
  ⟨rfl, by decide, mySendfile_offsetLaw_iff .whole 0 rfl (by decide)⟩

theorem position_fromSecond :
    position (some 1) fromSecond = some { fromSecond with input := ⟨[1, 2, 3, 4], 2⟩ } := by
  rw [position, seekCurrent, if_pos]
  · rfl
  · unfold OFF_MAX
    exact ⟨by decide, by decide⟩

/-- An offset of 1 is taken from the position, which is 1 too: the third byte is sent. -/
theorem mySendfile_offset_counts_from_position :
    ∃ returned, mySendfile (Transfers.whole.system .whole) 1028 (some 1) 1 0 fromSecond =
        some returned ∧
      ¬ OffsetLaw (some 1) 1 fromSecond returned := by
  have enough : (1 : UInt64).toNat + BUF_SIZE + 1 < 1028 := by decide
  obtain ⟨returned, called, output, _, _⟩ :=
    mySendfile_whole .whole 1 0 position_fromSecond enough
  refine ⟨returned, called, ?_⟩
  intro law
  obtain ⟨data, written, _, isSecond, _, _⟩ := law
  rw [isSecond, output] at written
  exact absurd written (by decide)

/-! ### Consecutive calls -/

/-- Calls without an offset, one after the other. -/
def sendAll (reads : Transfers) : List UInt64 → World → Option World
  | [], world => some world
  | count :: rest, world =>
      match mySendfile (reads.system .whole) (count.toNat + BUF_SIZE + 2) none count 0 world with
      | none => none
      | some returned => sendAll reads rest returned.world

/-- Every call copies the part of the file that the first one copies. -/
theorem sendAll_repeats (reads : Transfers) (counts : List UInt64) (world : World) :
    ∃ after, sendAll reads counts world = some after ∧ after.input = world.input ∧
      after.output =
        world.output ++ counts.flatMap fun count => world.rest.take count.toNat := by
  induction counts generalizing world with
  | nil => exact ⟨world, rfl, rfl, (List.append_nil _).symm⟩
  | cons count rest inductionHypothesis =>
      have positioned : position none world = some world := rfl
      obtain ⟨returned, called, output, input, _⟩ :=
        mySendfile_whole reads count 0 positioned (Nat.lt_succ_self _)
      obtain ⟨after, ran, sameInput, written⟩ := inductionHypothesis returned.world
      have sameRest : returned.world.rest = world.rest := by
        rw [World.rest, input]
        rfl
      refine ⟨after, ?_, sameInput.trans input, ?_⟩
      · rw [sendAll, called]
        exact ran
      · rw [written, output, sameRest, List.append_assoc, List.flatMap_cons]

end LinuxProgramming.Sockets.Sendfile
