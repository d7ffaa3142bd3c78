import LinuxProgramming.Sockets.Sendfile

/-!
Contract: what `my_sendfile` returns when no call fails for good.

Owns:
- reads that are interrupted any finite number of times, with writes that take all bytes;
- the value that a run returns: that of the last block, or whatever the variable held;
- exactly when this is the number of bytes that were asked for and there.

Does not own: partial writes.
-/

namespace LinuxProgramming.Sockets.Sendfile

open LinuxProgramming.Library

/-- Reads that may fail with an error after which they are made again, but not forever. -/
structure Interrupted where
  reads : Transfers
  fails : Nat → Bool
  errno : Nat → Errno
  retried : ∀ call, (errno call).retried = true
  recovers : ∀ call, ∃ more, fails (call + more) = false

/-- Writes take all they are asked to. -/
def Interrupted.system (interrupted : Interrupted) : System where
  read call most :=
    if interrupted.fails call then .error (interrupted.errno call)
    else .ok (interrupted.reads.moved call most)
  write _ most := .ok most

/-- The bytes that the buffer holds have been written. -/
def World.written (world : World) (numRead : Nat) : World :=
  { world with
    output := world.output ++ slice world.memory 0 numRead
    writes := world.writes ++ [⟨0, numRead, world.stored, numRead⟩] }

section Interruptions

variable (interrupted : Interrupted)

/-- One `write` takes the block. -/
theorem writeLoop_whole {numRead : Nat} (positive : 0 < numRead) (fuel : Nat) (world : World) :
    writeLoop interrupted.system numRead (fuel + 2) 0 0 world =
      some (.ok numRead, world.written numRead) := by
  rw [writeLoop, if_pos positive]
  show writeLoop interrupted.system numRead (fuel + 1) (0 + numRead) (0 + numRead) _ = _
  rw [writeLoop, if_neg (by omega), Nat.zero_add]
  rfl

theorem writeLoop_result {numRead fuel : Nat} (positive : 0 < numRead) {world after : World}
    {result : Except Errno Nat}
    (ran : writeLoop interrupted.system numRead fuel 0 0 world = some (result, after)) :
    result = .ok numRead ∧ after = world.written numRead := by
  match fuel with
  | 0 => cases ran
  | 1 =>
      rw [writeLoop, if_pos positive] at ran
      cases ran
  | fuel + 2 =>
      rw [writeLoop_whole interrupted positive fuel world] at ran
      cases ran
      exact ⟨rfl, rfl⟩

theorem read_fails {count : Nat} {world : World}
    (fails : interrupted.fails world.reads = true) :
    read interrupted.system count world =
      (.error (interrupted.errno world.reads), { world with reads := world.reads + 1 }) := by
  simp [read, Interrupted.system, fails]

theorem read_delivers {count : Nat} {world : World}
    (succeeds : interrupted.fails world.reads = false) :
    read interrupted.system count world =
      (.ok (interrupted.reads.moved world.reads (min count world.rest.length)),
        world.buffered (interrupted.reads.moved world.reads (min count world.rest.length))) := by
  rw [← read_short interrupted.reads interrupted.reads count world]
  simp [read, Interrupted.system, Transfers.system, succeeds]

/-- What the next `read` delivers unless it fails. -/
def nextRead (count : UInt64) (transNum : Int) (world : World) : Nat :=
  interrupted.reads.moved world.reads
    (min BUF_SIZE (min (toSize (count.toNat - transNum)) world.rest.length))

/-- What one turn of the loop can do in a run that ends. -/
inductive Turn (count : UInt64) (fuel : Nat) (transNum totWriten : Int) (world : World)
    (result : Except Errno Int) (after : World) : Prop where
  | done (all : ¬ toSize transNum < count.toNat) (value : result = .ok totWriten)
      (same : after = world)
  | again (fails : interrupted.fails world.reads = true)
      (later : transferLoop interrupted.system count fuel (transNum + -1) totWriten
        { world with reads := world.reads + 1 } = some (result, after))
  | ended (value : result = .ok totWriten) (same : after.output = world.output)
  | block (succeeds : interrupted.fails world.reads = false)
      (positive : 0 < nextRead interrupted count transNum world)
      (later : transferLoop interrupted.system count fuel
        (transNum + nextRead interrupted count transNum world)
        (nextRead interrupted count transNum world)
        ((world.buffered (nextRead interrupted count transNum world)).written
          (nextRead interrupted count transNum world)) = some (result, after))

theorem transferLoop_turn {count : UInt64} {fuel : Nat} {transNum totWriten : Int}
    {world after : World} {result : Except Errno Int}
    (ran : transferLoop interrupted.system count (fuel + 1) transNum totWriten world =
      some (result, after)) :
    Turn interrupted count fuel transNum totWriten world result after := by
  rw [transferLoop] at ran
  by_cases asked : toSize transNum < count.toNat
  · rw [if_pos asked] at ran
    cases fails : interrupted.fails world.reads with
    | true =>
        simp only [read_fails interrupted fails, interrupted.retried, ↓reduceIte] at ran
        exact .again fails ran
    | false =>
        simp only [read_delivers interrupted fails, most_eq] at ran
        have isNext : interrupted.reads.moved world.reads
            (min BUF_SIZE (min (toSize (count.toNat - transNum)) world.rest.length)) =
            nextRead interrupted count transNum world := rfl
        rw [isNext] at ran
        cases numRead : nextRead interrupted count transNum world with
        | zero =>
            rw [numRead] at ran
            cases ran
            exact .ended rfl rfl
        | succ less =>
            rw [numRead] at ran
            simp only at ran
            cases block : writeLoop interrupted.system (less + 1) fuel 0 0
                (world.buffered (less + 1)) with
            | none =>
                rw [block] at ran
                cases ran
            | some blockEnd =>
                obtain ⟨blockResult, afterBlock⟩ := blockEnd
                obtain ⟨rfl, rfl⟩ := writeLoop_result interrupted (Nat.succ_pos less) block
                simp only [block] at ran
                exact .block fails (by omega) (numRead.symm ▸ ran)
  · rw [if_neg asked] at ran
    cases ran
    exact .done asked rfl rfl

/-! ### The value of a run -/

/-- A run ends without an error. It returns what `tot_writen` held before, and nothing was
written, or the size of the last block, which is at most what was written. -/
theorem transferLoop_value {count : UInt64} {fuel : Nat} {transNum totWriten : Int}
    {world after : World} {result : Except Errno Int}
    (ran : transferLoop interrupted.system count fuel transNum totWriten world =
      some (result, after)) :
    (result = .ok totWriten ∧ after.output = world.output) ∨
      ∃ last : Nat, result = .ok last ∧ 0 < last ∧
        world.output.length + last ≤ after.output.length := by
  induction fuel generalizing transNum totWriten world with
  | zero => cases ran
  | succ fuel inductionHypothesis =>
      cases transferLoop_turn interrupted ran with
      | done all value same => exact Or.inl ⟨value, by rw [same]⟩
      | again fails later =>
          have fromLater := inductionHypothesis later
          exact fromLater
      | ended value same => exact Or.inl ⟨value, same⟩
      | block succeeds positive later =>
          have grown (numRead : Nat) : ((world.buffered numRead).written numRead).output.length =
              world.output.length + numRead := by
            simp [World.written, World.buffered]
          rcases inductionHypothesis later with same | more
          · refine Or.inr ⟨_, same.1, positive, ?_⟩
            rw [same.2, grown]
          · obtain ⟨last, isLast, lastPositive, longer⟩ := more
            rw [grown] at longer
            exact Or.inr ⟨last, isLast, lastPositive, by omega⟩

/-- At the end of the file a run ends, with nothing more written: with a `read` that finds
nothing, or with the `-1` that failing reads have made of `trans_num`. -/
theorem transferLoop_exhausted (count : UInt64) (totWriten : Int) :
    ∀ (more fuel : Nat) (transNum : Int) (world : World), -1 ≤ transNum →
      transNum ≤ count.toNat → world.rest = [] → interrupted.fails (world.reads + more) = false →
      more < fuel →
      ∃ after, transferLoop interrupted.system count fuel transNum totWriten world =
        some (.ok totWriten, after) ∧ after.output = world.output
  | more, 0, _, _, _, _, _, _, enough => absurd enough (Nat.not_lt_zero more)
  | more, fuel + 1, transNum, world, atLeast, atMost, exhausted, recovers, enough => by
      rw [transferLoop]
      by_cases asked : toSize transNum < count.toNat
      · rw [if_pos asked]
        have nonneg : 0 ≤ transNum := by
          have sized := count.toNat_lt
          by_contra negative
          have minusOne : transNum = -1 := by omega
          rw [minusOne, toSize] at asked
          omega
        cases fails : interrupted.fails world.reads with
        | true =>
            simp only [read_fails interrupted fails, interrupted.retried, ↓reduceIte]
            cases more with
            | zero =>
                rw [Nat.add_zero, fails] at recovers
                cases recovers
            | succ less =>
                rw [← Nat.add_assoc, Nat.add_right_comm] at recovers
                have later := transferLoop_exhausted count totWriten less fuel (transNum + -1)
                  { world with reads := world.reads + 1 } (by omega) (by omega) exhausted recovers
                  (by omega)
                exact later
        | false =>
            have within := interrupted.reads.within world.reads
            have nothing (most : Nat) :
                interrupted.reads.moved world.reads (min most world.rest.length) = 0 := by
              have atMostNone := within (min most world.rest.length)
              rw [exhausted, List.length_nil, Nat.min_zero] at atMostNone ⊢
              omega
            simp only [read_delivers interrupted fails, nothing]
            exact ⟨_, rfl, rfl⟩
      · rw [if_neg asked]
        exact ⟨world, rfl, rfl⟩

/-- The first turn of the loop, when the first `read` succeeds. -/
theorem transferLoop_first {count : UInt64} (fuel : Nat) (totWriten : Int) {world : World}
    (asked : 0 < count.toNat) (succeeds : interrupted.fails world.reads = false)
    {numRead : Nat} (positive : 0 < numRead)
    (delivered : interrupted.reads.moved world.reads
      (min BUF_SIZE (min count.toNat world.rest.length)) = numRead) :
    transferLoop interrupted.system count (fuel + 3) 0 totWriten world =
      transferLoop interrupted.system count (fuel + 2) numRead numRead
        ((world.buffered numRead).written numRead) := by
  have zero : toSize 0 = 0 := rfl
  have whole : toSize (count.toNat - 0) = count.toNat := toSize_sub count (Nat.zero_le _)
  obtain ⟨less, rfl⟩ := Nat.exists_eq_add_of_le' positive
  rw [transferLoop, zero, if_pos asked]
  simp only [whole, read_delivers interrupted succeeds, most_eq, delivered,
    writeLoop_whole interrupted positive, Int.zero_add]

/-- From the start a run writes what the first `read` delivers and returns its size, or it
returns another number than it has written. -/
theorem transferLoop_start {count : UInt64} {fuel : Nat} {totWriten : Int}
    {world after : World} {value : Nat} (nothing : world.output = [])
    (ran : transferLoop interrupted.system count fuel 0 totWriten world = some (.ok value, after))
    (transferred : after.output.length = value) (other : totWriten ≠ value) :
    interrupted.fails world.reads = false ∧ 0 < value ∧
      nextRead interrupted count 0 world = value := by
  cases fuel with
  | zero => cases ran
  | succ fuel =>
      cases transferLoop_turn interrupted ran with
      | done all sameValue same => exact absurd (Except.ok.inj sameValue).symm other
      | ended sameValue same => exact absurd (Except.ok.inj sameValue).symm other
      | again fails later =>
          -- `trans_num` is `-1`, which is no less than any count.
          cases fuel with
          | zero => cases later
          | succ fuel =>
              have minusOne : ¬ toSize (0 + -1) < count.toNat := by
                have sized := count.toNat_lt
                unfold toSize
                omega
              rw [transferLoop, if_neg minusOne] at later
              cases later
              exact absurd rfl other
      | block succeeds positive later =>
          rcases transferLoop_value interrupted later with same | more
          · have isValue := Except.ok.inj same.1
            exact ⟨succeeds, by omega, by omega⟩
          · obtain ⟨last, isLast, lastPositive, longer⟩ := more
            have isValue := Except.ok.inj isLast
            have grown (numRead : Nat) :
                ((world.buffered numRead).written numRead).output.length = numRead := by
              simp [World.written, World.buffered, nothing]
            rw [grown] at longer
            omega

end Interruptions

/-- A call returns what its loop does. -/
theorem mySendfile_ok {system : System} {fuel : Nat} {offset : Option Int} {count : UInt64}
    {totWriten value : Int} {before start after : World}
    (positioned : position offset before = some start)
    (ran : transferLoop system count fuel 0 totWriten start = some (.ok value, after)) :
    mySendfile system fuel offset count totWriten before =
      some ⟨value, offset.map fun _ => (after.input.offset : Int),
        { after with input := after.input.seek before.input.offset }⟩ := by
  unfold mySendfile
  rw [positioned]
  simp only [ran]

theorem mySendfile_result {system : System} {fuel : Nat} {offset : Option Int} {count : UInt64}
    {totWriten : Int} {before start : World} {returned : Returned}
    (positioned : position offset before = some start) (notFailed : returned.value ≠ -1)
    (called : mySendfile system fuel offset count totWriten before = some returned) :
    ∃ after, transferLoop system count fuel 0 totWriten start = some (.ok returned.value, after) ∧
      returned.world.output = after.output := by
  cases ran : transferLoop system count fuel 0 totWriten start with
  | none =>
      unfold mySendfile at called
      rw [positioned] at called
      simp [ran] at called
  | some ended =>
      obtain ⟨result, after⟩ := ended
      cases result with
      | error errno =>
          unfold mySendfile at called
          rw [positioned] at called
          simp only [ran] at called
          cases called
          exact absurd rfl notFailed
      | ok value =>
          rw [mySendfile_ok positioned ran] at called
          cases called
          exact ⟨after, rfl, rfl⟩

/-- A call returns the number of bytes that were asked for and there, and has written them,
whatever `tot_writen` holds before it is assigned. -/
def ReturnsTransferred (interrupted : Interrupted) (offset : Option Int) (count : UInt64)
    (before start : World) : Prop :=
  ∀ totWriten, ∃ fuel returned,
    mySendfile interrupted.system fuel offset count totWriten before = some returned ∧
      returned.value = (min count.toNat start.rest.length : Nat) ∧
      returned.world.output = start.rest.take count.toNat

/-- There is something to transfer, and the first `read` delivers all of it. -/
structure InOneRead (interrupted : Interrupted) (count : UInt64) (start : World) : Prop where
  positive : 0 < min count.toNat start.rest.length
  succeeds : interrupted.fails 0 = false
  delivered : interrupted.reads.moved 0 (min BUF_SIZE (min count.toNat start.rest.length)) =
    min count.toNat start.rest.length

section Result

variable {interrupted : Interrupted} {offset : Option Int} {count : UInt64} {input : OpenFile}
  {memory : Nat → UInt8} {start : World}

theorem inOneRead_of_returns
    (positioned : position offset (World.initial input memory) = some start)
    (returns : ReturnsTransferred interrupted offset count (World.initial input memory) start) :
    InOneRead interrupted count start := by
  obtain ⟨reads_none, _, nothing⟩ := position_initial positioned
  have whole : toSize (count.toNat - 0) = count.toNat := toSize_sub count (Nat.zero_le _)
  obtain ⟨fuel, returned, called, value, written⟩ :=
    returns (min count.toNat start.rest.length + 1 : Nat)
  obtain ⟨after, ran, same⟩ := mySendfile_result positioned (by omega) called
  rw [value] at ran
  have transferred : after.output.length = min count.toNat start.rest.length := by
    rw [← same, written, List.length_take]
  have first := transferLoop_start interrupted nothing ran transferred (by omega)
  rw [nextRead, whole, reads_none] at first
  exact ⟨first.2.1, first.1, first.2.2⟩

theorem returns_of_inOneRead
    (positioned : position offset (World.initial input memory) = some start)
    (inOneRead : InOneRead interrupted count start) :
    ReturnsTransferred interrupted offset count (World.initial input memory) start := by
  intro totWriten
  obtain ⟨reads_none, _, nothing⟩ := position_initial positioned
  obtain ⟨positive, succeeds, delivered⟩ := inOneRead
  rw [← reads_none] at succeeds delivered
  obtain ⟨numRead, transferred⟩ : ∃ numRead, min count.toNat start.rest.length = numRead :=
    ⟨_, rfl⟩
  rw [transferred] at positive
  have block (more : Nat) := transferLoop_first interrupted more totWriten (by omega) succeeds
    positive (delivered.trans transferred)
  have written : ((start.buffered numRead).written numRead).output =
      start.rest.take count.toNat := by
    have length : (start.rest.take numRead).length = numRead := by
      rw [List.length_take]
      omega
    have emitted := slice_fill start.memory (start.rest.take numRead) 0
    have noMore : slice (fill start.memory (start.rest.take numRead)) numRead 0 = [] := rfl
    rw [Nat.add_zero, length, noMore, List.append_nil] at emitted
    rw [List.take_eq_take_min, transferred, ← emitted]
    show start.output ++ _ = _
    rw [nothing, List.nil_append]
    rfl
  have ends : ∃ fuel after, transferLoop interrupted.system count fuel 0 totWriten start =
      some (.ok numRead, after) ∧
      after.output = ((start.buffered numRead).written numRead).output := by
    by_cases all : numRead = count.toNat
    · refine ⟨3, _, ?_, rfl⟩
      rw [block 0, transferLoop, if_neg]
      rw [toSize_eq count numRead (by omega)]
      omega
    · have exhausted : ((start.buffered numRead).written numRead).rest = [] := by
        have past := List.length_drop (l := start.input.bytes) (i := start.input.offset)
        refine List.drop_eq_nil_of_le ?_
        show start.input.bytes.length ≤ start.input.offset + numRead
        rw [World.rest] at transferred
        omega
      obtain ⟨more, recovers⟩ := interrupted.recovers (start.reads + 1)
      obtain ⟨after, ran, same⟩ := transferLoop_exhausted interrupted count numRead more (more + 2)
        numRead _ (by omega) (by omega) exhausted recovers (by omega)
      exact ⟨more + 3, after, by rw [block more, ran], same⟩
  obtain ⟨fuel, after, ran, same⟩ := ends
  refine ⟨fuel, _, mySendfile_ok positioned ran, ?_, ?_⟩
  · rw [transferred]
  · exact same.trans written

end Result

/-- The result is right if and only if there is something to transfer and the first `read`
delivers all of it. -/
theorem mySendfile_returns_iff (interrupted : Interrupted) {offset : Option Int} (count : UInt64)
    {input : OpenFile} {memory : Nat → UInt8} {start : World}
    (positioned : position offset (World.initial input memory) = some start) :
    ReturnsTransferred interrupted offset count (World.initial input memory) start ↔
      InOneRead interrupted count start := by
  constructor
  · exact inOneRead_of_returns positioned
  · exact returns_of_inOneRead positioned

theorem recovers_after_second (call : Nat) : ∃ more, decide (call + more = 1) = false :=
  ⟨2, decide_eq_false (by omega)⟩

/-- A `read` delivers as much as the buffer holds, and the second one is interrupted. -/
def secondInterrupted : Interrupted where
  reads := .upTo 1023
  fails call := call = 1
  errno _ := .EINTR
  retried _ := rfl
  recovers := recovers_after_second

theorem mySendfile_returns_three :
    position none (World.initial ⟨[1, 2, 3], 0⟩ fun _ => 0) =
        some (World.initial ⟨[1, 2, 3], 0⟩ fun _ => 0) ∧
      (ReturnsTransferred secondInterrupted none 3 (World.initial ⟨[1, 2, 3], 0⟩ fun _ => 0)
          (World.initial ⟨[1, 2, 3], 0⟩ fun _ => 0) ↔
        InOneRead secondInterrupted 3 (World.initial ⟨[1, 2, 3], 0⟩ fun _ => 0)) :=
  ⟨rfl, mySendfile_returns_iff secondInterrupted 3 rfl⟩

/-- A file of one byte more than the buffer holds, from its start. -/
def overBuffer : World := World.initial ⟨List.replicate 1025 0, 0⟩ fun _ => 0

/-- The file is sent in two blocks. -/
theorem mySendfile_returns_last_block :
    position none overBuffer = some overBuffer ∧
      ¬ ReturnsTransferred secondInterrupted none 1025 overBuffer overBuffer := by
  refine ⟨rfl, fun returns => ?_⟩
  have delivered := (inOneRead_of_returns rfl returns).delivered
  have left : overBuffer.rest.length = 1025 := by
    show (List.drop 0 (List.replicate 1025 (0 : UInt8))).length = 1025
    rw [List.drop_zero, List.length_replicate]
  rw [left] at delivered
  exact absurd delivered (by decide)

end LinuxProgramming.Sockets.Sendfile
