import Mathlib.Data.List.Basic
import LinuxProgramming.Library.TransitionSystem

/-!
Contract: the writer and the reader of the shared-memory transfer programs
(`svshm_xfr_write.c`, `svshm_xfr_read.c`), one atomic step at a time.

Owns:
- `struct shmseg`, the two semaphores and the program counters of both mains;
- `writerStep` and `readerStep`, one arm for each statement of the source;
- the three variants of the programs, which differ in their cleanup only.

Does not own: any invariant of the protocol. Every system call is taken to
succeed on an object that still exists; `write` delivers its bytes one by one.
-/

namespace LinuxProgramming.SharedMemory

open LinuxProgramming.Library

abbrev Byte := UInt8

/-- `BUF_SIZE`. -/
def bufSize : Nat := 1024

/-- `struct shmseg`: the number of bytes in use, then the bytes. -/
structure Shmseg where
  cnt : Int
  buf : Vector Byte bufSize

/-- `read` puts `chunk` at the front of the buffer and leaves the rest as it was. -/
def Shmseg.fill (seg : Shmseg) (chunk : List Byte) : Shmseg :=
  { seg with buf := Vector.ofFn fun index => chunk[index.val]?.getD seg.buf[index] }

/-- The successive nonempty results of `read` on standard input: a splitting of
the input into chunks of 1 to `BUF_SIZE` bytes. -/
structure Splitting (input : List Byte) where
  chunks : List (List Byte)
  joined : chunks.flatten = input
  nonempty : ∀ chunk ∈ chunks, 0 < chunk.length
  fits : ∀ chunk ∈ chunks, chunk.length ≤ bufSize

/-- The calls with which the programs let go of their objects. -/
inductive Cleanup where
  /-- `semctl(semid, 0, IPC_RMID, dummy)`: both semaphores go. -/
  | removeSemaphores
  /-- `sem_unlink(SEM_WRITE)`. -/
  | unlinkWriteSem
  /-- `sem_unlink(SEM_READ)`. -/
  | unlinkReadSem
  /-- `sem_close`. -/
  | closeSem
  /-- `shmdt` or `munmap`. -/
  | detach
  /-- `shmctl(shmid, IPC_RMID, 0)` or `shm_unlink`. -/
  | removeSegment
deriving DecidableEq, Repr

/-- What follows the two loops in one variant of the programs. -/
structure Variant where
  writerCleanup : List Cleanup
  /-- After the reader's last semaphore operation. -/
  readerCleanup : List Cleanup

/-- Section_48: System V semaphores and shared memory. -/
def systemV : Variant where
  writerCleanup := [.removeSemaphores, .detach, .removeSegment]
  readerCleanup := []

/-- Section_53: POSIX named semaphores, System V shared memory. -/
def posixSemaphores : Variant where
  writerCleanup :=
    [.unlinkWriteSem, .unlinkReadSem, .closeSem, .closeSem, .detach, .removeSegment]
  readerCleanup := [.closeSem, .closeSem]

/-- Section_54: System V semaphores, a POSIX shared memory object. -/
def posixMemory : Variant where
  writerCleanup := [.removeSemaphores, .detach, .removeSegment]
  readerCleanup := []

inductive WriterPc where
  /-- `semop` -1 or `sem_wait` on the write semaphore, in the loop. -/
  | waitWrite
  /-- `read(STDIN_FILENO, shmp->buf, BUF_SIZE)`. -/
  | readStdin
  /-- The assignment of its result to `shmp->cnt`. -/
  | storeCnt (result : Int)
  /-- `if (shmp->cnt == -1)`. -/
  | testError
  /-- `semop` +1 or `sem_post` on the read semaphore. -/
  | postRead
  /-- `if (shmp->cnt == 0) break;`. -/
  | testCnt
  /-- `xfrs++`. -/
  | countXfr
  /-- `bytes += shmp->cnt`. -/
  | countBytes
  /-- The wait on the write semaphore after the loop. -/
  | finalWait
  | cleanup (calls : List Cleanup)
  /-- `exit(EXIT_FAILURE)` after a failed `read`. -/
  | failed
deriving DecidableEq, Repr

inductive ReaderPc where
  /-- `semop` -1 or `sem_wait` on the read semaphore. -/
  | waitRead
  /-- `if (shmp->cnt == 0) break;`. -/
  | testCnt
  /-- `bytes += shmp->cnt`. -/
  | countBytes
  /-- The arguments of `write(STDOUT_FILENO, shmp->buf, shmp->cnt)`. -/
  | callWrite
  /-- `write` has delivered `sent` of its `count` bytes. -/
  | writing (count : Int) (sent : Nat)
  /-- The comparison of its result with `shmp->cnt`. -/
  | testWritten (result : Int)
  /-- `semop` +1 or `sem_post` on the write semaphore, in the loop. -/
  | postWrite
  /-- `xfrs++`. -/
  | countXfr
  /-- `shmdt` or `munmap`. -/
  | detach
  /-- The release of the write semaphore after the loop. -/
  | finalPost
  | cleanup (calls : List Cleanup)
deriving DecidableEq, Repr

/-- Both processes, the objects they share and the two ends of the transfer.
The counters are C `int`s; `complaints` counts the reader's `perror` calls. -/
structure State where
  writeSem : Nat
  readSem : Nat
  seg : Shmseg
  semaphoresExist : Bool
  segmentExists : Bool
  readerAttached : Bool
  unread : List (List Byte)
  stdout : List Byte
  writer : WriterPc
  writerXfrs : BitVec 32
  writerBytes : BitVec 32
  reader : ReaderPc
  readerXfrs : BitVec 32
  readerBytes : BitVec 32
  complaints : Nat

/-- `WRITE_SEM` is 1, `READ_SEM` is 0, both loops are about to start. -/
def initial {input : List Byte} (splitting : Splitting input) (seg : Shmseg) : State where
  writeSem := 1
  readSem := 0
  seg := seg
  semaphoresExist := true
  segmentExists := true
  readerAttached := true
  unread := splitting.chunks
  stdout := []
  writer := .waitWrite
  writerXfrs := 0
  writerBytes := 0
  reader := .waitRead
  readerXfrs := 0
  readerBytes := 0
  complaints := 0

/-- A C `int` counter after `+= amount`. -/
def addInt (counter : BitVec 32) (amount : Int) : BitVec 32 :=
  counter + BitVec.ofInt 32 amount

/-- Effect of one of the writer's cleanup calls on the objects. -/
def State.release (state : State) : Cleanup → State
  | .removeSemaphores => { state with semaphoresExist := false }
  | .unlinkWriteSem => { state with semaphoresExist := false }
  | .unlinkReadSem => { state with semaphoresExist := false }
  | .closeSem => state
  | .detach => state
  | .removeSegment => { state with segmentExists := false }

/-- Take a semaphore: blocked while it is 0. -/
def State.waitWriteSem (state : State) (next : WriterPc) : Option State :=
  if state.semaphoresExist ∧ 0 < state.writeSem then
    some { state with writeSem := state.writeSem - 1, writer := next }
  else none

def State.waitReadSem (state : State) (next : ReaderPc) : Option State :=
  if state.semaphoresExist ∧ 0 < state.readSem then
    some { state with readSem := state.readSem - 1, reader := next }
  else none

def State.postReadSem (state : State) (next : WriterPc) : Option State :=
  if state.semaphoresExist then
    some { state with readSem := state.readSem + 1, writer := next }
  else none

def State.postWriteSem (state : State) (next : ReaderPc) : Option State :=
  if state.semaphoresExist then
    some { state with writeSem := state.writeSem + 1, reader := next }
  else none

/-- One step of the writer's `main`. -/
def writerStep (variant : Variant) (state : State) : Option State :=
  match state.writer with
  | .waitWrite => state.waitWriteSem .readStdin
  | .readStdin =>
      match state.unread with
      | [] => some { state with writer := .storeCnt 0 }
      | chunk :: rest =>
          some { state with
            seg := state.seg.fill chunk
            unread := rest
            writer := .storeCnt chunk.length }
  | .storeCnt result =>
      some { state with seg := { state.seg with cnt := result }, writer := .testError }
  | .testError =>
      if state.seg.cnt = -1 then some { state with writer := .failed }
      else some { state with writer := .postRead }
  | .postRead => state.postReadSem .testCnt
  | .testCnt =>
      if state.seg.cnt = 0 then some { state with writer := .finalWait }
      else some { state with writer := .countXfr }
  | .countXfr =>
      some { state with writerXfrs := addInt state.writerXfrs 1, writer := .countBytes }
  | .countBytes =>
      some { state with
        writerBytes := addInt state.writerBytes state.seg.cnt
        writer := .waitWrite }
  | .finalWait => state.waitWriteSem (.cleanup variant.writerCleanup)
  | .cleanup [] => none
  | .cleanup (call :: rest) => some { state.release call with writer := .cleanup rest }
  | .failed => none

/-- One step of the reader's `main`. -/
def readerStep (variant : Variant) (state : State) : Option State :=
  match state.reader with
  | .waitRead => state.waitReadSem .testCnt
  | .testCnt =>
      if state.seg.cnt = 0 then some { state with reader := .detach }
      else some { state with reader := .countBytes }
  | .countBytes =>
      some { state with
        readerBytes := addInt state.readerBytes state.seg.cnt
        reader := .callWrite }
  | .callWrite => some { state with reader := .writing state.seg.cnt 0 }
  | .writing count sent =>
      if (sent : Int) < count then
        match state.seg.buf[sent]? with
        | some byte =>
            some { state with
              stdout := state.stdout ++ [byte]
              reader := .writing count (sent + 1) }
        | none => none
      else some { state with reader := .testWritten count }
  | .testWritten result =>
      if result = state.seg.cnt then some { state with reader := .postWrite }
      else some { state with complaints := state.complaints + 1, reader := .postWrite }
  | .postWrite => state.postWriteSem .countXfr
  | .countXfr =>
      some { state with readerXfrs := addInt state.readerXfrs 1, reader := .waitRead }
  | .detach => some { state with readerAttached := false, reader := .finalPost }
  | .finalPost => state.postWriteSem (.cleanup variant.readerCleanup)
  | .cleanup [] => none
  | .cleanup (_ :: rest) => some { state with reader := .cleanup rest }

def stepOf (variant : Variant) : Side → State → Option State
  | .left => writerStep variant
  | .right => readerStep variant

/-- All interleavings of one writer and one reader, from any earlier contents
of the segment. -/
def transfer (variant : Variant) {input : List Byte} (splitting : Splitting input) :
    TransitionSystem State :=
  interleaving (fun state => ∃ seg, state = initial splitting seg) (stepOf variant)

/-! ### What the claims about a run speak of -/

/-- Between the reader's taking of `READ_SEM` and its release of `WRITE_SEM`. -/
def ReaderPc.holdsSegment : ReaderPc → Bool
  | .testCnt | .countBytes | .callWrite | .writing _ _ | .testWritten _ | .postWrite
  | .detach | .finalPost => true
  | .waitRead | .countXfr | .cleanup _ => false

/-- Between the writer's taking of `WRITE_SEM` and its release of `READ_SEM`,
or after its last wait. -/
def WriterPc.holdsSegment : WriterPc → Bool
  | .readStdin | .storeCnt _ | .testError | .postRead | .cleanup _ | .failed => true
  | .waitWrite | .testCnt | .countXfr | .countBytes | .finalWait => false

def WriterPc.leftLoop : WriterPc → Bool
  | .finalWait | .cleanup _ => true
  | _ => false

def ReaderPc.leftLoop : ReaderPc → Bool
  | .detach | .finalPost | .cleanup _ => true
  | _ => false

end LinuxProgramming.SharedMemory
