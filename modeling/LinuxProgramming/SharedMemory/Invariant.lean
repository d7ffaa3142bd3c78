import Mathlib.Tactic
import LinuxProgramming.SharedMemory.Model

/-!
Contract: the inductive invariant of the shared-memory transfer.

Owns:
- `Invariant`, which relates both program counters, both semaphores, the
  segment and the chunks handed over so far;
- one preservation lemma for each process and the invariant of every
  reachable state.

Does not own: what the invariant says about the output (`Transfer`).

One token moves between the two semaphores and the two processes. The process
that holds it is alone in using the segment for the message in transit; the
writer's reads of `shmp->cnt` after its release are harmless because the
segment keeps the last message until the writer itself fills it again.
-/

namespace LinuxProgramming.SharedMemory

open LinuxProgramming.Library

/-! ### The segment -/

/-- The buffer starts with `chunk`. -/
def Holds (buf : Vector Byte bufSize) (chunk : List Byte) : Prop :=
  ∀ index (below : index < chunk.length), buf[index]? = some chunk[index]

theorem Shmseg.fill_holds (seg : Shmseg) (chunk : List Byte) (fits : chunk.length ≤ bufSize) :
    Holds (seg.fill chunk).buf chunk := by
  intro index below
  have inBuffer : index < bufSize := by omega
  simp [Shmseg.fill, inBuffer, below]

/-- A chunk of the input: what a `read` that does not meet the end returns. -/
def Splitting.IsChunk (chunk : List Byte) : Prop :=
  0 < chunk.length ∧ chunk.length ≤ bufSize

theorem Splitting.isChunk {input : List Byte} (splitting : Splitting input) {chunk : List Byte}
    (member : chunk ∈ splitting.chunks) : Splitting.IsChunk chunk :=
  ⟨splitting.nonempty chunk member, splitting.fits chunk member⟩

/-! ### Counters -/

/-- `xfrs` counts the chunks of one list, `bytes` the bytes of another. -/
def Counted (xfrs bytes : BitVec 32) (transfers data : List (List Byte)) : Prop :=
  xfrs = BitVec.ofNat 32 transfers.length ∧ bytes = BitVec.ofNat 32 data.flatten.length

theorem addInt_ofNat (total amount : Nat) :
    addInt (BitVec.ofNat 32 total) amount = BitVec.ofNat 32 (total + amount) := by
  rw [addInt, BitVec.ofInt_natCast, BitVec.ofNat_add]

theorem Counted.xfr {xfrs bytes : BitVec 32} {transfers data : List (List Byte)}
    (counted : Counted xfrs bytes transfers data) (chunk : List Byte) :
    Counted (addInt xfrs 1) bytes (transfers ++ [chunk]) data := by
  refine ⟨?_, counted.2⟩
  have oneMore := addInt_ofNat transfers.length 1
  rw [counted.1, List.length_append, List.length_singleton, ← oneMore]
  rfl

theorem Counted.bytes {xfrs bytes : BitVec 32} {transfers data : List (List Byte)}
    (counted : Counted xfrs bytes transfers data) (chunk : List Byte) :
    Counted xfrs (addInt bytes chunk.length) transfers (data ++ [chunk]) := by
  refine ⟨counted.1, ?_⟩
  rw [counted.2, addInt_ofNat, List.flatten_append, List.length_append, List.flatten_singleton]

/-! ### The invariant -/

/-- The message in transit: the next chunk, or the end of the input. `cnt` is
its length as the writer is about to store it or has stored it. -/
inductive Message (sent received unread : List (List Byte)) (buf : Vector Byte bufSize)
    (cnt : Int) : Prop where
  | data (chunk : List Byte) (isChunk : Splitting.IsChunk chunk)
      (next : sent = received ++ [chunk]) (length : cnt = chunk.length)
      (holds : Holds buf chunk)
  | finish (all : sent = received) (atEnd : unread = []) (length : cnt = 0)

/-- The writer's counters before it has counted a message of length `cnt`. -/
inductive Uncounted (sent unread : List (List Byte)) (xfrs bytes : BitVec 32) (cnt : Int) :
    Prop where
  | data (earlier : List (List Byte)) (chunk : List Byte) (isChunk : Splitting.IsChunk chunk)
      (last : sent = earlier ++ [chunk]) (length : cnt = chunk.length)
      (counted : Counted xfrs bytes earlier earlier)
  | finish (atEnd : unread = []) (length : cnt = 0) (counted : Counted xfrs bytes sent sent)

/-- What the writer's program counter says about the chunks it has read. -/
def WriterAt (sent : List (List Byte)) (state : State) : Prop :=
  match state.writer with
  | .waitWrite | .readStdin => Counted state.writerXfrs state.writerBytes sent sent
  | .storeCnt result =>
      Uncounted sent state.unread state.writerXfrs state.writerBytes result
  | .testError | .postRead | .testCnt =>
      Uncounted sent state.unread state.writerXfrs state.writerBytes state.seg.cnt
  | .countXfr =>
      ∃ earlier chunk, Splitting.IsChunk chunk ∧ sent = earlier ++ [chunk] ∧
        state.seg.cnt = chunk.length ∧
        Counted state.writerXfrs state.writerBytes earlier earlier
  | .countBytes =>
      ∃ earlier chunk, Splitting.IsChunk chunk ∧ sent = earlier ++ [chunk] ∧
        state.seg.cnt = chunk.length ∧
        Counted state.writerXfrs state.writerBytes sent earlier
  | .finalWait | .cleanup _ =>
      state.unread = [] ∧ state.seg.cnt = 0 ∧
        Counted state.writerXfrs state.writerBytes sent sent
  | .failed => False

/-- The chunk the reader is busy with is the last one sent. -/
def Current (sent received : List (List Byte)) (state : State) (chunk : List Byte) : Prop :=
  Splitting.IsChunk chunk ∧ sent = received ++ [chunk] ∧ state.seg.cnt = chunk.length ∧
    Holds state.seg.buf chunk

/-- What the reader's program counter says about the chunks it has output. -/
def ReaderAt (sent received : List (List Byte)) (state : State) : Prop :=
  match state.reader with
  | .waitRead | .testCnt =>
      state.stdout = received.flatten ∧
        Counted state.readerXfrs state.readerBytes received received
  | .countBytes =>
      ∃ chunk, Current sent received state chunk ∧ state.stdout = received.flatten ∧
        Counted state.readerXfrs state.readerBytes received received
  | .callWrite =>
      ∃ chunk, Current sent received state chunk ∧ state.stdout = received.flatten ∧
        Counted state.readerXfrs state.readerBytes received sent
  | .writing count done =>
      ∃ chunk, Current sent received state chunk ∧ count = chunk.length ∧
        done ≤ chunk.length ∧ state.stdout = received.flatten ++ chunk.take done ∧
        Counted state.readerXfrs state.readerBytes received sent
  | .testWritten result =>
      ∃ chunk, Current sent received state chunk ∧ result = chunk.length ∧
        state.stdout = sent.flatten ∧
        Counted state.readerXfrs state.readerBytes received sent
  | .postWrite =>
      ∃ chunk, Current sent received state chunk ∧ state.stdout = sent.flatten ∧
        Counted state.readerXfrs state.readerBytes received sent
  | .countXfr =>
      ∃ earlier chunk, received = earlier ++ [chunk] ∧ state.stdout = received.flatten ∧
        Counted state.readerXfrs state.readerBytes earlier received
  | .detach | .finalPost | .cleanup _ =>
      sent = received ∧ state.unread = [] ∧ state.seg.cnt = 0 ∧
        state.stdout = received.flatten ∧
        Counted state.readerXfrs state.readerBytes received received

/-- The writer has handed over the end-of-input message. -/
def Ended (state : State) : Prop :=
  match state.writer with
  | .testCnt => state.seg.cnt = 0
  | .finalWait | .cleanup _ => True
  | _ => False

/-- The reader has let go of the semaphores. -/
def ReaderPc.finished : ReaderPc → Prop
  | .cleanup _ => True
  | _ => False

/-- The writer has filled the buffer for the next message but not posted it. -/
def Filled (sent received : List (List Byte)) (state : State) : Prop :=
  match state.writer with
  | .storeCnt result => Message sent received state.unread state.seg.buf result
  | .testError | .postRead =>
      Message sent received state.unread state.seg.buf state.seg.cnt
  | .waitWrite | .readStdin => state.writer.holdsSegment → sent = received
  | .testCnt | .countXfr | .countBytes | .finalWait | .cleanup _ | .failed => True

structure Invariant (chunks sent received : List (List Byte)) (state : State) : Prop where
  split : chunks = sent ++ state.unread
  leads : received <+: sent
  token : state.writeSem + state.readSem + state.writer.holdsSegment.toNat +
    state.reader.holdsSegment.toNat = 1
  writer : WriterAt sent state
  reader : ReaderAt sent received state
  empty : 0 < state.writeSem → sent = received
  filled : Filled sent received state
  posted : 0 < state.readSem ∨ state.reader = .testCnt →
    Message sent received state.unread state.seg.buf state.seg.cnt
  ended : Ended state → 0 < state.readSem ∨ state.reader.holdsSegment ∨ state.reader.finished
  finishedAfterEnd : state.reader.leftLoop → Ended state
  lastPosted : 0 < state.readSem ∨ state.reader = .testCnt → state.seg.cnt = 0 → Ended state

/-! ### What the token excludes -/

namespace Invariant

variable {chunks sent received : List (List Byte)} {state : State}

/-- While the writer uses the segment both semaphores are 0 and the reader is
outside its critical section. -/
theorem writer_alone (invariant : Invariant chunks sent received state)
    (holds : state.writer.holdsSegment = true) :
    state.writeSem = 0 ∧ state.readSem = 0 ∧ state.reader.holdsSegment = false := by
  have token := invariant.token
  rw [holds] at token
  cases reading : state.reader.holdsSegment <;> simp [reading] at token ⊢
  omega

theorem reader_alone (invariant : Invariant chunks sent received state)
    (holds : state.reader.holdsSegment = true) :
    state.writeSem = 0 ∧ state.readSem = 0 ∧ state.writer.holdsSegment = false := by
  have token := invariant.token
  rw [holds] at token
  cases writing : state.writer.holdsSegment <;> simp [writing] at token ⊢
  omega

/-- Before the end of the input is handed over the reader is in its loop. -/
theorem reader_inLoop (invariant : Invariant chunks sent received state)
    (running : ¬ Ended state) : state.reader.leftLoop = false := by
  by_contra left
  exact running (invariant.finishedAfterEnd (by simpa using left))

/-- A semaphore the writer can take leaves no posted message. -/
theorem not_posted_of_writeSem (invariant : Invariant chunks sent received state)
    (free : 0 < state.writeSem) : ¬ (0 < state.readSem ∨ state.reader = .testCnt) := by
  have token := invariant.token
  rintro (posted | testing)
  · omega
  · rw [testing] at token
    simp [ReaderPc.holdsSegment] at token
    omega

/-- While the writer holds the segment nothing is posted. -/
theorem not_posted_of_holds (invariant : Invariant chunks sent received state)
    (holds : state.writer.holdsSegment = true) :
    ¬ (0 < state.readSem ∨ state.reader = .testCnt) := by
  obtain ⟨_, noneToRead, idle⟩ := invariant.writer_alone holds
  rintro (posted | testing)
  · omega
  · rw [testing] at idle
    simp [ReaderPc.holdsSegment] at idle

end Invariant

/-- Outside its critical section and inside its loop the reader depends on
nothing the writer changes. -/
theorem ReaderAt.frame {sent sent' received : List (List Byte)} {before after : State}
    (at_ : ReaderAt sent received before)
    (idle : before.reader.holdsSegment = false) (inLoop : before.reader.leftLoop = false)
    (sameReader : after.reader = before.reader) (sameStdout : after.stdout = before.stdout)
    (sameXfrs : after.readerXfrs = before.readerXfrs)
    (sameBytes : after.readerBytes = before.readerBytes) :
    ReaderAt sent' received after := by
  unfold ReaderAt at at_ ⊢
  rw [sameReader, sameStdout, sameXfrs, sameBytes]
  cases pc : before.reader <;>
    simp_all [ReaderPc.holdsSegment, ReaderPc.leftLoop]

/-! ### Steps of the writer -/

section Writer

variable {chunks sent sent' received : List (List Byte)} {before after : State}
  (invariant : Invariant chunks sent received before)

include invariant

/-- A step inside the writer's critical section may change the segment: the
reader does not look at it. -/
theorem Invariant.writerFills {seg : Shmseg} {unread : List (List Byte)} {pc : WriterPc}
    (holds : before.writer.holdsSegment = true) (holds' : pc.holdsSegment = true)
    (running : ¬ Ended before)
    (running' : ¬ Ended { before with seg := seg, unread := unread, writer := pc })
    (split : chunks = sent' ++ unread) (leads : received <+: sent')
    (written : WriterAt sent' { before with seg := seg, unread := unread, writer := pc })
    (filled : Filled sent' received { before with seg := seg, unread := unread, writer := pc }) :
    Invariant chunks sent' received
      { before with seg := seg, unread := unread, writer := pc } := by
  obtain ⟨noneToWrite, _, idle⟩ := invariant.writer_alone holds
  have inLoop := invariant.reader_inLoop running
  have token := invariant.token
  have noPost := invariant.not_posted_of_holds holds
  exact {
    split := split
    leads := leads
    token := by rw [← token, holds, holds']
    writer := written
    reader := invariant.reader.frame idle inLoop rfl rfl rfl rfl
    empty := fun free => by simp [noneToWrite] at free
    filled := filled
    posted := fun posted => absurd posted noPost
    ended := fun ended => absurd ended running'
    finishedAfterEnd := by simp [inLoop]
    lastPosted := fun posted => absurd posted noPost }

/-- A step of the writer on its own program counter and counters. -/
theorem Invariant.writerMoves {pc : WriterPc} {xfrs bytes : BitVec 32}
    (outside : before.writer.holdsSegment = false) (outside' : pc.holdsSegment = false)
    (same : Ended { before with writer := pc, writerXfrs := xfrs, writerBytes := bytes } ↔
      Ended before)
    (written : WriterAt sent
      { before with writer := pc, writerXfrs := xfrs, writerBytes := bytes })
    (filled : Filled sent received
      { before with writer := pc, writerXfrs := xfrs, writerBytes := bytes }) :
    Invariant chunks sent received
      { before with writer := pc, writerXfrs := xfrs, writerBytes := bytes } where
  split := invariant.split
  leads := invariant.leads
  token := by
    have token := invariant.token
    simpa [outside, outside'] using token
  writer := written
  reader := invariant.reader
  empty := invariant.empty
  filled := filled
  posted := invariant.posted
  ended ended := invariant.ended (same.mp ended)
  finishedAfterEnd left := same.mpr (invariant.finishedAfterEnd left)
  lastPosted posted zero := same.mpr (invariant.lastPosted posted zero)

/-- The writer takes its semaphore, when the reader has handled all that was sent. -/
theorem Invariant.takesWriteSem {next : WriterPc} (outside : before.writer.holdsSegment = false)
    (inside : next.holdsSegment = true) (step : before.waitWriteSem next = some after)
    (same : Ended { before with writeSem := before.writeSem - 1, writer := next } ↔ Ended before)
    (written : WriterAt sent { before with writeSem := before.writeSem - 1, writer := next })
    (filled : sent = received →
      Filled sent received { before with writeSem := before.writeSem - 1, writer := next }) :
    Invariant chunks sent received after := by
  unfold State.waitWriteSem at step
  split at step
  case isFalse => cases step
  case isTrue free =>
  cases step
  have token := invariant.token
  have noPost := invariant.not_posted_of_writeSem free.2
  rw [outside] at token
  exact {
    split := invariant.split
    leads := invariant.leads
    token := by simp [inside] at token ⊢; omega
    writer := written
    reader := invariant.reader
    empty := fun _ => invariant.empty free.2
    filled := filled (invariant.empty free.2)
    posted := fun posted => absurd posted noPost
    ended := fun ended => invariant.ended (same.mp ended)
    finishedAfterEnd := fun left => same.mpr (invariant.finishedAfterEnd left)
    lastPosted := fun posted => absurd posted noPost }

theorem Invariant.waitWrite (pc : before.writer = .waitWrite)
    (step : before.waitWriteSem .readStdin = some after) :
    Invariant chunks sent received after := by
  have written := invariant.writer
  simp only [WriterAt, pc] at written
  apply invariant.takesWriteSem (by rw [pc]; rfl) rfl step
  · simp [Ended, pc]
  · exact written
  · exact fun handled _ => handled

theorem Invariant.readEnd (pc : before.writer = .readStdin) (atEnd : before.unread = []) :
    Invariant chunks sent received { before with writer := .storeCnt 0 } := by
  have written := invariant.writer
  have filled := invariant.filled
  simp only [WriterAt, pc] at written
  simp only [Filled, pc, WriterPc.holdsSegment, forall_const] at filled
  apply invariant.writerFills (by simp [pc, WriterPc.holdsSegment]) rfl (by simp [Ended, pc])
    (by simp [Ended]) invariant.split invariant.leads
  · exact .finish atEnd rfl written
  · exact .finish filled atEnd rfl

theorem Invariant.readChunk {chunk : List Byte} {rest : List (List Byte)}
    (isChunk : Splitting.IsChunk chunk)
    (pc : before.writer = .readStdin) (more : before.unread = chunk :: rest) :
    Invariant chunks (sent ++ [chunk]) received
      { before with
        seg := before.seg.fill chunk
        unread := rest
        writer := .storeCnt chunk.length } := by
  have written := invariant.writer
  have filled := invariant.filled
  simp only [WriterAt, pc] at written
  simp only [Filled, pc, WriterPc.holdsSegment, forall_const] at filled
  apply invariant.writerFills (by simp [pc, WriterPc.holdsSegment]) rfl (by simp [Ended, pc])
    (by simp [Ended])
  · rw [invariant.split, more]
    simp
  · exact invariant.leads.trans (List.prefix_append sent [chunk])
  · exact .data sent chunk isChunk rfl rfl written
  · exact .data chunk isChunk (by rw [filled]) rfl
      (before.seg.fill_holds chunk isChunk.2)

theorem Invariant.storeCnt {result : Int} (pc : before.writer = .storeCnt result) :
    Invariant chunks sent received
      { before with seg := { before.seg with cnt := result }, writer := .testError } := by
  have written := invariant.writer
  have filled := invariant.filled
  simp only [WriterAt, pc] at written
  simp only [Filled, pc] at filled
  apply invariant.writerFills (by simp [pc, WriterPc.holdsSegment]) rfl (by simp [Ended, pc])
    (by simp [Ended]) invariant.split invariant.leads
  · exact written
  · exact filled

/-- `read` never reports an error here, so the error branch is dead. -/
theorem Invariant.testError (pc : before.writer = .testError) :
    before.seg.cnt ≠ -1 ∧
      Invariant chunks sent received { before with writer := .postRead } := by
  have written := invariant.writer
  have filled := invariant.filled
  simp only [WriterAt, pc] at written
  simp only [Filled, pc] at filled
  constructor
  · cases filled with
    | data chunk isChunk next length holds => omega
    | finish all atEnd length => omega
  apply invariant.writerFills (by simp [pc, WriterPc.holdsSegment]) rfl (by simp [Ended, pc])
    (by simp [Ended]) invariant.split invariant.leads
  · exact written
  · exact filled

theorem Invariant.postRead (pc : before.writer = .postRead)
    (step : before.postReadSem .testCnt = some after) :
    Invariant chunks sent received after := by
  unfold State.postReadSem at step
  split at step
  case isFalse => cases step
  case isTrue =>
  cases step
  have token := invariant.token
  have written := invariant.writer
  have filled := invariant.filled
  obtain ⟨noneToWrite, _, idle⟩ :=
    invariant.writer_alone (by simp [pc, WriterPc.holdsSegment])
  have inLoop := invariant.reader_inLoop (by simp [Ended, pc])
  simp only [WriterAt, pc] at written
  simp only [Filled, pc] at filled
  rw [pc] at token
  exact {
    split := invariant.split
    leads := invariant.leads
    token := by simp [WriterPc.holdsSegment] at token ⊢; omega
    writer := written
    reader := invariant.reader.frame idle inLoop rfl rfl rfl rfl
    empty := fun free => by simp [noneToWrite] at free
    filled := trivial
    posted := fun _ => filled
    ended := fun _ => .inl (Nat.succ_pos _)
    finishedAfterEnd := by simp [inLoop]
    lastPosted := fun _ zero => zero }

theorem Invariant.testCntEnd (pc : before.writer = .testCnt) (zero : before.seg.cnt = 0) :
    Invariant chunks sent received { before with writer := .finalWait } := by
  have written := invariant.writer
  simp only [WriterAt, pc] at written
  apply invariant.writerMoves (by simp [pc, WriterPc.holdsSegment]) rfl
  · simp [Ended, pc, zero]
  · cases written with
    | data earlier chunk isChunk last length counted =>
        have := isChunk.1
        omega
    | finish atEnd length counted => exact ⟨atEnd, zero, counted⟩
  · trivial

theorem Invariant.testCntMore (pc : before.writer = .testCnt) (more : before.seg.cnt ≠ 0) :
    Invariant chunks sent received { before with writer := .countXfr } := by
  have written := invariant.writer
  simp only [WriterAt, pc] at written
  apply invariant.writerMoves (by simp [pc, WriterPc.holdsSegment]) rfl
  · simp [Ended, pc, more]
  · cases written with
    | data earlier chunk isChunk last length counted =>
        exact ⟨earlier, chunk, isChunk, last, length, counted⟩
    | finish atEnd length counted => exact absurd length more
  · trivial

theorem Invariant.writerCountXfr (pc : before.writer = .countXfr) :
    Invariant chunks sent received
      { before with writerXfrs := addInt before.writerXfrs 1, writer := .countBytes } := by
  have written := invariant.writer
  simp only [WriterAt, pc] at written
  obtain ⟨earlier, chunk, isChunk, last, length, counted⟩ := written
  apply invariant.writerMoves (by simp [pc, WriterPc.holdsSegment]) rfl
  · simp [Ended, pc]
  · exact ⟨earlier, chunk, isChunk, last, length, last ▸ counted.xfr chunk⟩
  · trivial

theorem Invariant.writerCountBytes (pc : before.writer = .countBytes) :
    Invariant chunks sent received
      { before with
        writerBytes := addInt before.writerBytes before.seg.cnt
        writer := .waitWrite } := by
  have written := invariant.writer
  simp only [WriterAt, pc] at written
  obtain ⟨earlier, chunk, isChunk, last, length, counted⟩ := written
  apply invariant.writerMoves (by simp [pc, WriterPc.holdsSegment]) rfl
  · simp [Ended, pc]
  · show Counted _ _ _ _
    have total := counted.bytes chunk
    rw [← last] at total
    rw [length]
    exact total
  · simp [Filled, WriterPc.holdsSegment]

theorem Invariant.finalWait {calls : List Cleanup} (pc : before.writer = .finalWait)
    (step : before.waitWriteSem (.cleanup calls) = some after) :
    Invariant chunks sent received after := by
  have written := invariant.writer
  simp only [WriterAt, pc] at written
  apply invariant.takesWriteSem (by rw [pc]; rfl) rfl step
  · simp [Ended, pc]
  · exact written
  · exact fun _ => trivial

theorem Invariant.writerCleanup {call : Cleanup} {calls : List Cleanup}
    (pc : before.writer = .cleanup (call :: calls)) :
    Invariant chunks sent received { before.release call with writer := .cleanup calls } := by
  have token := invariant.token
  have written := invariant.writer
  have noPost := invariant.not_posted_of_holds (by simp [pc, WriterPc.holdsSegment])
  have ended := invariant.ended (by simp [Ended, pc])
  simp only [WriterAt, pc] at written
  rw [pc] at token
  cases call <;>
  exact {
    split := invariant.split
    leads := invariant.leads
    token := token
    writer := written
    reader := invariant.reader
    empty := invariant.empty
    filled := trivial
    posted := fun posted => absurd posted noPost
    ended := fun _ => ended
    finishedAfterEnd := fun _ => trivial
    lastPosted := fun posted => absurd posted noPost }

end Writer

/-- One step of the writer keeps the invariant; only a `read` extends the
chunks sent. -/
theorem Invariant.writerStep {variant : Variant} {input : List Byte}
    (splitting : Splitting input) {sent received : List (List Byte)} {before after : State}
    (invariant : Invariant splitting.chunks sent received before)
    (step : writerStep variant before = some after) :
    ∃ sent', Invariant splitting.chunks sent' received after := by
  unfold SharedMemory.writerStep at step
  split at step
  case h_1 pc => exact ⟨sent, invariant.waitWrite pc step⟩
  case h_2 pc =>
    split at step
    case h_1 atEnd =>
      cases step
      exact ⟨sent, invariant.readEnd pc atEnd⟩
    case h_2 chunk rest more =>
      cases step
      have member : chunk ∈ splitting.chunks := by
        rw [invariant.split, more]
        simp
      exact ⟨_, invariant.readChunk (splitting.isChunk member) pc more⟩
  case h_3 pc =>
    cases step
    exact ⟨sent, invariant.storeCnt pc⟩
  case h_4 pc =>
    rw [if_neg (invariant.testError pc).1] at step
    cases step
    exact ⟨sent, (invariant.testError pc).2⟩
  case h_5 pc => exact ⟨sent, invariant.postRead pc step⟩
  case h_6 pc =>
    split at step
    case isTrue zero =>
      cases step
      exact ⟨sent, invariant.testCntEnd pc zero⟩
    case isFalse more =>
      cases step
      exact ⟨sent, invariant.testCntMore pc more⟩
  case h_7 pc =>
    cases step
    exact ⟨sent, invariant.writerCountXfr pc⟩
  case h_8 pc =>
    cases step
    exact ⟨sent, invariant.writerCountBytes pc⟩
  case h_9 pc => exact ⟨sent, invariant.finalWait pc step⟩
  case h_10 => cases step
  case h_11 pc =>
    cases step
    exact ⟨sent, invariant.writerCleanup pc⟩
  case h_12 => cases step

/-! ### Steps of the reader -/

section Reader

variable {chunks sent received : List (List Byte)} {before after : State}
  (invariant : Invariant chunks sent received before)

include invariant

/-- A step inside the reader's critical section. -/
theorem Invariant.readerInside {pc : ReaderPc} {stdout : List Byte} {bytes : BitVec 32}
    {attached : Bool} {complaints : Nat}
    (holds : before.reader.holdsSegment = true) (holds' : pc.holdsSegment = true)
    (moved : pc ≠ .testCnt) (left : pc.leftLoop = true → Ended before)
    (read : ReaderAt sent received
      { before with
        readerAttached := attached, stdout := stdout, reader := pc, readerBytes := bytes
        complaints := complaints }) :
    Invariant chunks sent received
      { before with
        readerAttached := attached, stdout := stdout, reader := pc, readerBytes := bytes
        complaints := complaints } := by
  have token := invariant.token
  obtain ⟨noneToWrite, noneToRead, idle⟩ := invariant.reader_alone holds
  have noPost : ¬ (0 < before.readSem ∨ pc = .testCnt) := by
    rintro (posted | testing)
    · omega
    · exact moved testing
  exact {
    split := invariant.split
    leads := invariant.leads
    token := by rw [← token, holds, holds']
    writer := invariant.writer
    reader := read
    empty := invariant.empty
    filled := invariant.filled
    posted := fun posted => absurd posted noPost
    ended := fun _ => .inr (.inl holds')
    finishedAfterEnd := left
    lastPosted := fun posted => absurd posted noPost }

theorem Invariant.waitRead (pc : before.reader = .waitRead)
    (step : before.waitReadSem .testCnt = some after) :
    Invariant chunks sent received after := by
  unfold State.waitReadSem at step
  split at step
  case isFalse => cases step
  case isTrue free =>
  cases step
  have token := invariant.token
  have read := invariant.reader
  simp only [ReaderAt, pc] at read
  rw [pc] at token
  have idle : before.writer.holdsSegment = false := by
    cases writing : before.writer.holdsSegment
    · rfl
    · have := invariant.writer_alone writing
      omega
  exact {
    split := invariant.split
    leads := invariant.leads
    token := by simp [ReaderPc.holdsSegment, idle] at token ⊢; omega
    writer := invariant.writer
    reader := read
    empty := invariant.empty
    filled := invariant.filled
    posted := fun _ => invariant.posted (.inl free.2)
    ended := fun _ => .inr (.inl rfl)
    finishedAfterEnd := by simp [ReaderPc.leftLoop]
    lastPosted := fun _ zero => invariant.lastPosted (.inl free.2) zero }

theorem Invariant.readerTestCntEnd (pc : before.reader = .testCnt)
    (zero : before.seg.cnt = 0) :
    Invariant chunks sent received { before with reader := .detach } := by
  have read := invariant.reader
  simp only [ReaderAt, pc] at read
  apply invariant.readerInside (by simp [pc, ReaderPc.holdsSegment]) rfl (by simp)
    (fun _ => invariant.lastPosted (.inr pc) zero)
  cases invariant.posted (.inr pc) with
  | data chunk isChunk next length holds =>
      have := isChunk.1
      omega
  | finish all atEnd length => exact ⟨all, atEnd, zero, read⟩

theorem Invariant.readerTestCntMore (pc : before.reader = .testCnt)
    (more : before.seg.cnt ≠ 0) :
    Invariant chunks sent received { before with reader := .countBytes } := by
  have read := invariant.reader
  simp only [ReaderAt, pc] at read
  apply invariant.readerInside (by simp [pc, ReaderPc.holdsSegment]) rfl (by simp)
    (by simp [ReaderPc.leftLoop])
  cases invariant.posted (.inr pc) with
  | data chunk isChunk next length holds =>
      exact ⟨chunk, ⟨isChunk, next, length, holds⟩, read⟩
  | finish all atEnd length => exact absurd length more

theorem Invariant.readerCountBytes (pc : before.reader = .countBytes) :
    Invariant chunks sent received
      { before with
        readerBytes := addInt before.readerBytes before.seg.cnt
        reader := .callWrite } := by
  have read := invariant.reader
  simp only [ReaderAt, pc] at read
  obtain ⟨chunk, current, stdout, counted⟩ := read
  apply invariant.readerInside (by simp [pc, ReaderPc.holdsSegment]) rfl (by simp)
    (by simp [ReaderPc.leftLoop])
  refine ⟨chunk, current, stdout, ?_⟩
  have total := counted.bytes chunk
  rw [← current.2.1, ← current.2.2.1] at total
  exact total

theorem Invariant.callWrite (pc : before.reader = .callWrite) :
    Invariant chunks sent received
      { before with reader := .writing before.seg.cnt 0 } := by
  have read := invariant.reader
  simp only [ReaderAt, pc] at read
  obtain ⟨chunk, current, stdout, counted⟩ := read
  apply invariant.readerInside (by simp [pc, ReaderPc.holdsSegment]) rfl (by simp)
    (by simp [ReaderPc.leftLoop])
  exact ⟨chunk, current, current.2.2.1, Nat.zero_le _, by simpa using stdout, counted⟩

/-- The bytes `write` reads are those of the current chunk. -/
theorem Invariant.writeByte {count : Int} {done : Nat}
    (pc : before.reader = .writing count done) (more : (done : Int) < count) :
    ∃ byte, before.seg.buf[done]? = some byte ∧
      Invariant chunks sent received
        { before with
          stdout := before.stdout ++ [byte]
          reader := .writing count (done + 1) } := by
  have read := invariant.reader
  simp only [ReaderAt, pc] at read
  obtain ⟨chunk, current, length, _, stdout, counted⟩ := read
  have below : done < chunk.length := by omega
  refine ⟨chunk[done], current.2.2.2 done below, ?_⟩
  apply invariant.readerInside (by simp [pc, ReaderPc.holdsSegment]) rfl (by simp)
    (by simp [ReaderPc.leftLoop])
  refine ⟨chunk, current, length, below, ?_, counted⟩
  show before.stdout ++ [chunk[done]] = received.flatten ++ chunk.take (done + 1)
  rw [stdout, List.append_assoc, List.take_succ_eq_append_getElem below]

theorem Invariant.writeDone {count : Int} {done : Nat}
    (pc : before.reader = .writing count done) (complete : ¬ (done : Int) < count) :
    Invariant chunks sent received { before with reader := .testWritten count } := by
  have read := invariant.reader
  simp only [ReaderAt, pc] at read
  obtain ⟨chunk, current, length, _, stdout, counted⟩ := read
  apply invariant.readerInside (by simp [pc, ReaderPc.holdsSegment]) rfl (by simp)
    (by simp [ReaderPc.leftLoop])
  refine ⟨chunk, current, length, ?_, counted⟩
  show before.stdout = sent.flatten
  rw [stdout, List.take_of_length_le (by omega), current.2.1]
  simp

/-- A full write is never reported as partial. -/
theorem Invariant.testWritten {result : Int} (pc : before.reader = .testWritten result) :
    result = before.seg.cnt ∧
      Invariant chunks sent received { before with reader := .postWrite } := by
  have read := invariant.reader
  simp only [ReaderAt, pc] at read
  obtain ⟨chunk, current, length, stdout, counted⟩ := read
  refine ⟨length.trans current.2.2.1.symm, ?_⟩
  apply invariant.readerInside (by simp [pc, ReaderPc.holdsSegment]) rfl (by simp)
    (by simp [ReaderPc.leftLoop])
  exact ⟨chunk, current, stdout, counted⟩

/-- Releasing the write semaphore in the loop makes the current chunk received. -/
theorem Invariant.postWrite (pc : before.reader = .postWrite)
    (step : before.postWriteSem .countXfr = some after) :
    Invariant chunks sent sent after := by
  unfold State.postWriteSem at step
  split at step
  case isFalse => cases step
  case isTrue =>
  cases step
  have token := invariant.token
  have read := invariant.reader
  obtain ⟨noneToWrite, noneToRead, idle⟩ :=
    invariant.reader_alone (by simp [pc, ReaderPc.holdsSegment])
  simp only [ReaderAt, pc] at read
  obtain ⟨chunk, current, stdout, counted⟩ := read
  have running : ¬ Ended before := by
    intro ended
    have written := invariant.writer
    have := current.1.1
    have := current.2.2.1
    unfold Ended at ended
    unfold WriterAt at written
    cases writing : before.writer <;> simp [writing] at ended written <;> omega
  rw [pc] at token
  have noPost : ¬ (0 < before.readSem ∨ ReaderPc.countXfr = .testCnt) := by
    simp [noneToRead]
  exact {
    split := invariant.split
    leads := List.prefix_rfl
    token := by simp [ReaderPc.holdsSegment, idle, noneToWrite, noneToRead]
    writer := invariant.writer
    reader := ⟨received, chunk, current.2.1, stdout, counted⟩
    empty := fun _ => rfl
    filled := by
      unfold Filled
      cases writing : before.writer <;> simp_all [WriterPc.holdsSegment]
    posted := fun posted => absurd posted noPost
    ended := fun ended => absurd ended running
    finishedAfterEnd := by simp [ReaderPc.leftLoop]
    lastPosted := fun posted => absurd posted noPost }

theorem Invariant.detach (pc : before.reader = .detach) :
    Invariant chunks sent received
      { before with readerAttached := false, reader := .finalPost } := by
  have read := invariant.reader
  simp only [ReaderAt, pc] at read
  exact invariant.readerInside (by simp [pc, ReaderPc.holdsSegment]) rfl (by simp)
    (fun _ => invariant.finishedAfterEnd (by simp [pc, ReaderPc.leftLoop])) read

theorem Invariant.finalPost {calls : List Cleanup} (pc : before.reader = .finalPost)
    (step : before.postWriteSem (.cleanup calls) = some after) :
    Invariant chunks sent received after := by
  unfold State.postWriteSem at step
  split at step
  case isFalse => cases step
  case isTrue =>
  cases step
  have read := invariant.reader
  obtain ⟨noneToWrite, noneToRead, idle⟩ :=
    invariant.reader_alone (by simp [pc, ReaderPc.holdsSegment])
  have ended := invariant.finishedAfterEnd (by simp [pc, ReaderPc.leftLoop])
  simp only [ReaderAt, pc] at read
  have noPost : ¬ (0 < before.readSem ∨ ReaderPc.cleanup calls = .testCnt) := by
    simp [noneToRead]
  exact {
    split := invariant.split
    leads := invariant.leads
    token := by simp [ReaderPc.holdsSegment, idle, noneToWrite, noneToRead]
    writer := invariant.writer
    reader := read
    empty := fun _ => read.1
    filled := by
      unfold Filled
      cases writing : before.writer <;> simp_all [WriterPc.holdsSegment]
    posted := fun posted => absurd posted noPost
    ended := fun _ => .inr (.inr trivial)
    finishedAfterEnd := fun _ => ended
    lastPosted := fun posted => absurd posted noPost }

theorem Invariant.readerCleanup {call : Cleanup} {calls : List Cleanup}
    (pc : before.reader = .cleanup (call :: calls)) :
    Invariant chunks sent received { before with reader := .cleanup calls } := by
  have token := invariant.token
  have read := invariant.reader
  have ended := invariant.finishedAfterEnd (by simp [pc, ReaderPc.leftLoop])
  simp only [ReaderAt, pc] at read
  rw [pc] at token
  exact {
    split := invariant.split
    leads := invariant.leads
    token := token
    writer := invariant.writer
    reader := read
    empty := invariant.empty
    filled := invariant.filled
    posted := fun posted => invariant.posted (posted.imp_right (by simp))
    ended := fun _ => .inr (.inr trivial)
    finishedAfterEnd := fun _ => ended
    lastPosted := fun _ _ => ended }

theorem Invariant.readerCountXfr (pc : before.reader = .countXfr) :
    Invariant chunks sent received
      { before with readerXfrs := addInt before.readerXfrs 1, reader := .waitRead } := by
  have token := invariant.token
  have read := invariant.reader
  simp only [ReaderAt, pc] at read
  obtain ⟨earlier, chunk, last, stdout, counted⟩ := read
  rw [pc] at token
  exact {
    split := invariant.split
    leads := invariant.leads
    token := token
    writer := invariant.writer
    reader := ⟨stdout, last ▸ counted.xfr chunk⟩
    empty := invariant.empty
    filled := invariant.filled
    posted := fun posted => invariant.posted (posted.imp_right (by simp))
    ended := fun ended => by
      have := invariant.ended ended
      simpa [pc, ReaderPc.holdsSegment, ReaderPc.finished] using this
    finishedAfterEnd := by simp [ReaderPc.leftLoop]
    lastPosted := fun posted => invariant.lastPosted (posted.imp_right (by simp)) }

end Reader

/-- One step of the reader keeps the invariant; only a release of the write
semaphore extends the chunks received. -/
theorem Invariant.readerStep {variant : Variant} {chunks sent received : List (List Byte)}
    {before after : State} (invariant : Invariant chunks sent received before)
    (step : readerStep variant before = some after) :
    ∃ received', Invariant chunks sent received' after := by
  unfold SharedMemory.readerStep at step
  split at step
  case h_1 pc => exact ⟨received, invariant.waitRead pc step⟩
  case h_2 pc =>
    split at step
    case isTrue zero =>
      cases step
      exact ⟨received, invariant.readerTestCntEnd pc zero⟩
    case isFalse more =>
      cases step
      exact ⟨received, invariant.readerTestCntMore pc more⟩
  case h_3 pc =>
    cases step
    exact ⟨received, invariant.readerCountBytes pc⟩
  case h_4 pc =>
    cases step
    exact ⟨received, invariant.callWrite pc⟩
  case h_5 pc =>
    split at step
    case isTrue more =>
      obtain ⟨byte, stored, kept⟩ := invariant.writeByte pc more
      rw [stored] at step
      cases step
      exact ⟨received, kept⟩
    case isFalse complete =>
      cases step
      exact ⟨received, invariant.writeDone pc complete⟩
  case h_6 pc =>
    rw [if_pos (invariant.testWritten pc).1] at step
    cases step
    exact ⟨received, (invariant.testWritten pc).2⟩
  case h_7 pc => exact ⟨sent, invariant.postWrite pc step⟩
  case h_8 pc =>
    cases step
    exact ⟨received, invariant.readerCountXfr pc⟩
  case h_9 pc =>
    cases step
    exact ⟨received, invariant.detach pc⟩
  case h_10 pc => exact ⟨received, invariant.finalPost pc step⟩
  case h_11 => cases step
  case h_12 pc =>
    cases step
    exact ⟨received, invariant.readerCleanup pc⟩

/-! ### Every reachable state -/

theorem initial_invariant {input : List Byte} (splitting : Splitting input) (seg : Shmseg) :
    Invariant splitting.chunks [] [] (initial splitting seg) where
  split := rfl
  leads := List.prefix_rfl
  token := rfl
  writer := ⟨rfl, rfl⟩
  reader := ⟨rfl, rfl, rfl⟩
  empty _ := rfl
  filled _ := rfl
  posted posted := by simp [initial] at posted
  ended ended := by simp [Ended, initial] at ended
  finishedAfterEnd left := by simp [initial, ReaderPc.leftLoop] at left
  lastPosted posted := by simp [initial] at posted

theorem invariant_inductive (variant : Variant) {input : List Byte}
    (splitting : Splitting input) :
    (transfer variant splitting).Inductive
      (fun state => ∃ sent received, Invariant splitting.chunks sent received state) where
  init := by
    rintro state ⟨seg, rfl⟩
    exact ⟨[], [], initial_invariant splitting seg⟩
  step := by
    rintro before after ⟨sent, received, invariant⟩ ⟨side, step⟩
    cases side with
    | left =>
        obtain ⟨sent', kept⟩ := invariant.writerStep splitting step
        exact ⟨sent', received, kept⟩
    | right =>
        obtain ⟨received', kept⟩ := invariant.readerStep step
        exact ⟨sent, received', kept⟩

end LinuxProgramming.SharedMemory
