import LinuxProgramming.SharedMemory.Invariant

/-!
Contract: what a run of the shared-memory transfer delivers.

Owns:
- the position of the output within the input at every moment of a run;
- exclusive use of the segment by the reader;
- the result and the reports once both loops have been left.

Does not own: absence of deadlock and the removal of the objects.
-/

namespace LinuxProgramming.SharedMemory

open LinuxProgramming.Library

/-- The output is the concatenation of the first few chunks. -/
def AtBoundary (chunks : List (List Byte)) (output : List Byte) : Prop :=
  ∃ whole rest, chunks = whole ++ rest ∧ output = whole.flatten

/-- The output is the concatenation of the first few chunks and the first
`done` bytes of the next. -/
def InChunk (chunks : List (List Byte)) (done : Nat) (output : List Byte) : Prop :=
  ∃ whole chunk rest, chunks = whole ++ chunk :: rest ∧ done ≤ chunk.length ∧
    output = whole.flatten ++ chunk.take done

/-- The output ends at a chunk boundary, or inside the chunk being output. -/
def OutputPosition (chunks : List (List Byte)) (state : State) : Prop :=
  match state.reader with
  | .writing _ done => InChunk chunks done state.stdout
  | _ => AtBoundary chunks state.stdout

theorem AtBoundary.isPrefix {chunks : List (List Byte)} {output : List Byte}
    (boundary : AtBoundary chunks output) : output <+: chunks.flatten := by
  obtain ⟨whole, rest, split, rfl⟩ := boundary
  exact ⟨rest.flatten, by rw [split, List.flatten_append]⟩

theorem InChunk.isPrefix {chunks : List (List Byte)} {done : Nat} {output : List Byte}
    (inside : InChunk chunks done output) : output <+: chunks.flatten := by
  obtain ⟨whole, chunk, rest, split, _, rfl⟩ := inside
  refine ⟨chunk.drop done ++ rest.flatten, ?_⟩
  rw [split, List.flatten_append, List.flatten_cons, List.append_assoc,
    ← List.append_assoc (chunk.take done), List.take_append_drop]

theorem OutputPosition.isPrefix {chunks : List (List Byte)} {state : State}
    (position : OutputPosition chunks state) : state.stdout <+: chunks.flatten := by
  unfold OutputPosition at position
  split at position
  · exact position.isPrefix
  · exact position.isPrefix

section Results

variable {chunks sent received : List (List Byte)} {state : State}
  (invariant : Invariant chunks sent received state)

include invariant

theorem Invariant.outputPosition : OutputPosition chunks state := by
  have read := invariant.reader
  have split := invariant.split
  obtain ⟨next, leads⟩ := invariant.leads
  have atReceived (output : state.stdout = received.flatten) :
      AtBoundary chunks state.stdout :=
    ⟨received, next ++ state.unread, by rw [split, ← leads, List.append_assoc], output⟩
  have atSent (output : state.stdout = sent.flatten) : AtBoundary chunks state.stdout :=
    ⟨sent, state.unread, split, output⟩
  unfold ReaderAt at read
  unfold OutputPosition
  cases pc : state.reader <;> simp only [pc] at read ⊢
  case waitRead => exact atReceived read.1
  case testCnt => exact atReceived read.1
  case countBytes =>
    obtain ⟨chunk, _, output, _⟩ := read
    exact atReceived output
  case callWrite =>
    obtain ⟨chunk, _, output, _⟩ := read
    exact atReceived output
  case writing count done =>
    obtain ⟨chunk, current, _, within, output, _⟩ := read
    refine ⟨received, chunk, state.unread, ?_, within, output⟩
    rw [split, current.2.1, List.append_assoc, List.singleton_append]
  case testWritten result =>
    obtain ⟨chunk, _, _, output, _⟩ := read
    exact atSent output
  case postWrite =>
    obtain ⟨chunk, _, output, _⟩ := read
    exact atSent output
  case countXfr =>
    obtain ⟨earlier, chunk, _, output, _⟩ := read
    exact atReceived output
  case detach => exact atReceived read.2.2.2.1
  case finalPost => exact atReceived read.2.2.2.1
  case cleanup => exact atReceived read.2.2.2.1

/-- The writer does not touch the segment while the reader holds it. -/
theorem Invariant.segment_kept {variant : Variant} {after : State}
    (holds : state.reader.holdsSegment = true)
    (step : SharedMemory.writerStep variant state = some after) :
    after.seg = state.seg := by
  obtain ⟨_, _, idle⟩ := invariant.reader_alone holds
  unfold SharedMemory.writerStep State.waitWriteSem State.postReadSem at step
  cases pc : state.writer <;> simp only [pc, WriterPc.holdsSegment] at step idle
  case waitWrite | finalWait =>
    split at step
    · cases step; rfl
    · cases step
  case testCnt =>
    split at step <;> cases step <;> rfl
  case countXfr | countBytes => cases step; rfl
  all_goals cases idle

/-- After both loops everything read has been output, and the counters agree. -/
theorem Invariant.finished (writerLeft : state.writer.leftLoop = true)
    (readerLeft : state.reader.leftLoop = true) :
    state.stdout = chunks.flatten ∧
      Counted state.writerXfrs state.writerBytes chunks chunks ∧
      Counted state.readerXfrs state.readerBytes chunks chunks := by
  have written := invariant.writer
  have read := invariant.reader
  have split := invariant.split
  unfold WriterAt at written
  unfold ReaderAt at read
  have writerDone : state.unread = [] ∧
      Counted state.writerXfrs state.writerBytes sent sent := by
    cases pc : state.writer <;> simp only [pc, WriterPc.leftLoop] at written writerLeft
    case finalWait | cleanup => exact ⟨written.1, written.2.2⟩
    all_goals cases writerLeft
  have readerDone : sent = received ∧ state.stdout = received.flatten ∧
      Counted state.readerXfrs state.readerBytes received received := by
    cases pc : state.reader <;> simp only [pc, ReaderPc.leftLoop] at read readerLeft
    case detach | finalPost | cleanup => exact ⟨read.1, read.2.2.2⟩
    all_goals cases readerLeft
  rw [writerDone.1, List.append_nil] at split
  rw [split]
  exact ⟨readerDone.1 ▸ readerDone.2.1, writerDone.2, readerDone.1 ▸ readerDone.2.2⟩

end Results

/-- Every interleaving of one writer and one reader, for every input and every
splitting of it by `read`: the output is a prefix of the input that ends at a
chunk boundary or in the chunk being output; the writer leaves the segment alone
between the reader's taking of the read semaphore and its release of the write
semaphore; and once both loops have been left the output is the input and both
processes report its length and the number of chunks. -/
theorem transfer_correct (variant : Variant) {input : List Byte} (splitting : Splitting input)
    {state : State} (reachable : (transfer variant splitting).Reachable state) :
    (state.stdout <+: input ∧ OutputPosition splitting.chunks state) ∧
    (∀ after, state.reader.holdsSegment = true → writerStep variant state = some after →
      after.seg = state.seg) ∧
    (state.writer.leftLoop = true → state.reader.leftLoop = true →
      state.stdout = input ∧
      state.writerBytes = state.readerBytes ∧ state.writerXfrs = state.readerXfrs ∧
      state.readerBytes = BitVec.ofNat 32 input.length ∧
      state.readerXfrs = BitVec.ofNat 32 splitting.chunks.length) := by
  obtain ⟨sent, received, invariant⟩ :=
    (invariant_inductive variant splitting).holds reachable
  have position := invariant.outputPosition
  refine ⟨⟨splitting.joined ▸ position.isPrefix, position⟩, ?_, ?_⟩
  · intro after holds step
    exact invariant.segment_kept holds step
  · intro writerLeft readerLeft
    obtain ⟨output, ⟨writerXfrs, writerBytes⟩, readerXfrs, readerBytes⟩ :=
      invariant.finished writerLeft readerLeft
    rw [splitting.joined] at output writerBytes readerBytes
    exact ⟨output, writerBytes.trans readerBytes.symm, writerXfrs.trans readerXfrs.symm,
      readerBytes, readerXfrs⟩

/-! ### A complete run -/

/-- Two bytes that arrive in two reads. -/
def twoReads : Splitting [7, 8] where
  chunks := [[7], [8]]
  joined := rfl
  nonempty := by decide
  fits := by decide

def blankSegment : Shmseg := ⟨0, Vector.replicate bufSize 0⟩

/-- The writer waits for the next message while the reader still outputs. -/
def twoReadsSchedule : List Side :=
  List.replicate 6 Side.left ++ List.replicate 9 Side.right ++ List.replicate 8 Side.left ++
    List.replicate 9 Side.right ++ List.replicate 8 Side.left ++ List.replicate 4 Side.right ++
    List.replicate 4 Side.left

def twoReadsEnd : Option State :=
  replay (stepOf systemV) twoReadsSchedule (initial twoReads blankSegment)

theorem transfer_correct_twoReads :
    ∃ state, twoReadsEnd = some state ∧ state.stdout = [7, 8] ∧
      state.writerBytes = state.readerBytes ∧ state.writerXfrs = state.readerXfrs := by
  have ends : twoReadsEnd.map (fun state => (state.writer.leftLoop, state.reader.leftLoop)) =
      some (true, true) := by decide +kernel
  obtain ⟨state, replayed, left⟩ := Option.map_eq_some_iff.mp ends
  have reachable : (transfer systemV twoReads).Reachable state :=
    replay_reachable (.of_init ⟨blankSegment, rfl⟩) replayed
  obtain ⟨output, bytes, xfrs, _⟩ :=
    (transfer_correct systemV twoReads reachable).2.2 (congrArg Prod.fst left)
      (congrArg Prod.snd left)
  exact ⟨state, replayed, output, bytes, xfrs⟩

end LinuxProgramming.SharedMemory
