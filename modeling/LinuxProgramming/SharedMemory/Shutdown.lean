import LinuxProgramming.SharedMemory.Invariant

/-!
Contract: the end of the shared-memory transfer.

Owns:
- a reader that starts at any time after the writer has created the objects;
- which objects exist, and to what the reader is attached, at every moment of a run;
- absence of deadlock, and the removal of the objects by the writer.

Does not own: what is transferred (`Transfer`).
-/

namespace LinuxProgramming.SharedMemory

open LinuxProgramming.Library

/-! ### A reader that starts late -/

/-- The calls with which the reader gets hold of the objects. -/
inductive Opening where
  /-- `semget` or `sem_open`. -/
  | semaphores
  /-- `shmget` and `shmat`, or `shm_open` and `mmap`. -/
  | segment
deriving DecidableEq, Repr

/-- The state of a run, and the reader's calls before its loop. -/
structure LateState where
  shared : State
  openings : List Opening

/-- The reader is attached from its last opening call until it detaches. -/
def LateState.attached (state : LateState) : Bool :=
  state.openings.isEmpty && state.shared.readerAttached

/-- An opening call succeeds if the object exists. -/
def State.has (state : State) : Opening → Bool
  | .semaphores => state.semaphoresExist
  | .segment => state.segmentExists

def lateStepOf (variant : Variant) : Side → LateState → Option LateState
  | .left, state => (writerStep variant state.shared).map (⟨·, state.openings⟩)
  | .right, ⟨shared, opening :: rest⟩ => if shared.has opening then some ⟨shared, rest⟩ else none
  | .right, ⟨shared, []⟩ => (readerStep variant shared).map (⟨·, []⟩)

/-- All interleavings of a writer that has created the objects and a reader that
starts with the calls `openings`. -/
def lateTransfer (variant : Variant) (openings : List Opening) {input : List Byte}
    (splitting : Splitting input) : TransitionSystem LateState :=
  interleaving (fun state => ∃ seg, state = ⟨initial splitting seg, openings⟩)
    (lateStepOf variant)

/-! ### The objects -/

/-- Neither process has anything left to do. -/
def Finished (state : LateState) : Prop :=
  state.openings = [] ∧ state.shared.writer = .cleanup [] ∧ state.shared.reader = .cleanup []

def WriterPc.removing : WriterPc → Bool
  | .cleanup _ => true
  | _ => false

def ReaderPc.detached : ReaderPc → Bool
  | .finalPost | .cleanup _ => true
  | _ => false

/-- The objects exist until the writer cleans up, the reader is attached until it
detaches, and once it has left its loop nothing is posted for it. -/
structure Objects (state : State) : Prop where
  exist : state.writer.removing = false →
    state.semaphoresExist = true ∧ state.segmentExists = true
  attached : state.readerAttached = !state.reader.detached
  drained : state.reader.leftLoop = true → state.readSem = 0

theorem initial_objects {input : List Byte} (splitting : Splitting input) (seg : Shmseg) :
    Objects (initial splitting seg) := ⟨fun _ => ⟨rfl, rfl⟩, rfl, nofun⟩

section Steps

variable {chunks sent received : List (List Byte)} {variant : Variant} {before after : State}

/-- What a step of the writer leaves as it was. -/
structure WriterFrame (before after : State) : Prop where
  reader : after.reader = before.reader
  attached : after.readerAttached = before.readerAttached
  objects : before.writer.removing = false →
    after.semaphoresExist = before.semaphoresExist ∧ after.segmentExists = before.segmentExists
  goesOn : after.writer.removing = false → before.writer.removing = false
  readSem : before.writer ≠ .postRead → after.readSem = before.readSem

theorem writerStep_frame (step : writerStep variant before = some after) :
    WriterFrame before after := by
  unfold SharedMemory.writerStep State.waitWriteSem State.postReadSem at step
  split at step
  case h_1 pc | h_9 pc =>
    split at step
    · cases step
      exact ⟨rfl, rfl, fun _ => ⟨rfl, rfl⟩, fun _ => by rw [pc]; rfl, fun _ => rfl⟩
    · cases step
  case h_2 pc =>
    split at step <;> cases step <;>
      exact ⟨rfl, rfl, fun _ => ⟨rfl, rfl⟩, fun _ => by rw [pc]; rfl, fun _ => rfl⟩
  case h_4 pc | h_6 pc =>
    split at step <;> cases step <;>
      exact ⟨rfl, rfl, fun _ => ⟨rfl, rfl⟩, fun _ => by rw [pc]; rfl, fun _ => rfl⟩
  case h_5 pc =>
    split at step
    · cases step
      exact ⟨rfl, rfl, fun _ => ⟨rfl, rfl⟩, fun _ => by rw [pc]; rfl, fun other => absurd pc other⟩
    · cases step
  case h_3 pc | h_7 pc | h_8 pc =>
    cases step
    exact ⟨rfl, rfl, fun _ => ⟨rfl, rfl⟩, fun _ => by rw [pc]; rfl, fun _ => rfl⟩
  case h_11 call rest pc =>
    cases step
    cases call <;> exact ⟨rfl, rfl, fun idle => by simp [pc, WriterPc.removing] at idle, nofun,
      fun _ => rfl⟩
  case h_10 | h_12 => cases step

theorem Objects.writerStep (objects : Objects before)
    (invariant : Invariant chunks sent received before)
    (step : SharedMemory.writerStep variant before = some after) : Objects after := by
  have frame := writerStep_frame step
  constructor
  · intro idle
    have idle' := frame.goesOn idle
    rw [(frame.objects idle').1, (frame.objects idle').2]
    exact objects.exist idle'
  · rw [frame.attached, frame.reader]
    exact objects.attached
  · intro left
    rw [frame.reader] at left
    have notPosting : before.writer ≠ .postRead := by
      intro posting
      have inLoop := invariant.reader_inLoop (by simp [Ended, posting])
      rw [left] at inLoop
      cases inLoop
    rw [frame.readSem notPosting]
    exact objects.drained left

/-- What a step of the reader leaves as it was. -/
structure ReaderFrame (before after : State) : Prop where
  writer : after.writer = before.writer
  objects : after.semaphoresExist = before.semaphoresExist ∧
    after.segmentExists = before.segmentExists
  attached : before.readerAttached = !before.reader.detached →
    after.readerAttached = !after.reader.detached
  readSem : after.readSem ≤ before.readSem
  leaves : after.reader.leftLoop = true → before.reader.leftLoop = true ∨
    before.reader = .testCnt

theorem readerStep_frame (step : readerStep variant before = some after) :
    ReaderFrame before after := by
  unfold SharedMemory.readerStep State.waitReadSem State.postWriteSem at step
  split at step
  case h_1 pc =>
    split at step
    · cases step
      refine ⟨rfl, ⟨rfl, rfl⟩, fun same => ?_, Nat.sub_le _ _, nofun⟩
      rw [pc] at same
      exact same
    · cases step
  case h_2 pc =>
    split at step <;> cases step <;> refine ⟨rfl, ⟨rfl, rfl⟩, fun same => ?_, Nat.le_refl _,
      fun _ => .inr pc⟩ <;> (rw [pc] at same; exact same)
  case h_3 pc | h_4 pc | h_8 pc =>
    cases step
    refine ⟨rfl, ⟨rfl, rfl⟩, fun same => ?_, Nat.le_refl _, nofun⟩
    rw [pc] at same
    exact same
  case h_5 pc =>
    split at step
    · split at step
      · cases step
        refine ⟨rfl, ⟨rfl, rfl⟩, fun same => ?_, Nat.le_refl _, nofun⟩
        rw [pc] at same
        exact same
      · cases step
    · cases step
      refine ⟨rfl, ⟨rfl, rfl⟩, fun same => ?_, Nat.le_refl _, nofun⟩
      rw [pc] at same
      exact same
  case h_6 pc =>
    split at step <;> cases step <;> refine ⟨rfl, ⟨rfl, rfl⟩, fun same => ?_, Nat.le_refl _,
      nofun⟩ <;> (rw [pc] at same; exact same)
  case h_7 pc =>
    split at step
    · cases step
      refine ⟨rfl, ⟨rfl, rfl⟩, fun same => ?_, Nat.le_refl _, nofun⟩
      rw [pc] at same
      exact same
    · cases step
  case h_9 pc =>
    cases step
    exact ⟨rfl, ⟨rfl, rfl⟩, fun _ => rfl, Nat.le_refl _, fun _ => .inl (by rw [pc]; rfl)⟩
  case h_10 pc =>
    split at step
    · cases step
      refine ⟨rfl, ⟨rfl, rfl⟩, fun same => ?_, Nat.le_refl _, fun _ => .inl (by rw [pc]; rfl)⟩
      rw [pc] at same
      exact same
    · cases step
  case h_11 => cases step
  case h_12 pc =>
    cases step
    refine ⟨rfl, ⟨rfl, rfl⟩, fun same => ?_, Nat.le_refl _, fun _ => .inl (by rw [pc]; rfl)⟩
    rw [pc] at same
    exact same

theorem Objects.readerStep (objects : Objects before)
    (invariant : Invariant chunks sent received before)
    (step : SharedMemory.readerStep variant before = some after) : Objects after := by
  have frame := readerStep_frame step
  constructor
  · intro idle
    rw [frame.writer] at idle
    rw [frame.objects.1, frame.objects.2]
    exact objects.exist idle
  · exact frame.attached objects.attached
  · intro left
    have none_ : before.readSem = 0 := by
      rcases frame.leaves left with already | testing
      · exact objects.drained already
      · exact (invariant.reader_alone (by rw [testing]; rfl)).2.1
    exact Nat.le_zero.mp (none_ ▸ frame.readSem)

end Steps

/-! ### Who is blocked -/

section Blocked

variable {chunks sent received : List (List Byte)} {variant : Variant} {state : State}

/-- Whenever the writer cleans up, the reader has performed its last operation. -/
theorem Invariant.reader_finished (invariant : Invariant chunks sent received state)
    (removing : state.writer.removing = true) : ∃ calls, state.reader = .cleanup calls := by
  have ended : Ended state := by
    cases pc : state.writer <;> simp only [pc, WriterPc.removing] at removing
    case cleanup => simp [Ended, pc]
    all_goals cases removing
  have holds : state.writer.holdsSegment = true := by
    cases pc : state.writer <;> simp only [pc, WriterPc.removing] at removing
    case cleanup => rfl
    all_goals cases removing
  obtain ⟨_, drained, idle⟩ := invariant.writer_alone holds
  rcases invariant.ended ended with posted | reading | finished
  · omega
  · rw [idle] at reading
    cases reading
  · cases pc : state.reader <;> simp only [pc, ReaderPc.finished] at finished
    case cleanup calls => exact ⟨calls, rfl⟩

/-- A writer that cannot move waits for the write semaphore, or has finished. -/
theorem writer_blocked (invariant : Invariant chunks sent received state)
    (objects : Objects state) (blocked : writerStep variant state = none) :
    (state.writer = .waitWrite ∨ state.writer = .finalWait) ∧ state.writeSem = 0 ∨
      state.writer = .cleanup [] := by
  have written := invariant.writer
  have exist := objects.exist
  unfold writerStep State.waitWriteSem State.postReadSem at blocked
  unfold WriterAt at written
  cases pc : state.writer <;> simp only [pc, WriterPc.removing] at blocked written exist
  case waitWrite | finalWait =>
    left
    rw [(exist trivial).1] at blocked
    exact ⟨by simp, by simpa using blocked⟩
  case readStdin => split at blocked <;> cases blocked
  case storeCnt | countXfr | countBytes => cases blocked
  case testError | testCnt => split at blocked <;> cases blocked
  case postRead =>
    rw [if_pos (exist trivial).1] at blocked
    cases blocked
  case cleanup calls =>
    cases calls with
    | nil => exact .inr rfl
    | cons call rest => cases blocked

/-- A reader that cannot move waits for the read semaphore, or has finished. -/
theorem reader_blocked (invariant : Invariant chunks sent received state)
    (exist : state.semaphoresExist = true) (blocked : readerStep variant state = none) :
    state.reader = .waitRead ∧ state.readSem = 0 ∨ state.reader = .cleanup [] := by
  have read := invariant.reader
  unfold readerStep State.waitReadSem State.postWriteSem at blocked
  unfold ReaderAt at read
  cases pc : state.reader <;> simp only [pc, exist] at blocked read
  case waitRead =>
    left
    exact ⟨rfl, by simpa using blocked⟩
  case testCnt | testWritten => split at blocked <;> cases blocked
  case countBytes | callWrite | countXfr | detach => cases blocked
  case writing count done =>
    obtain ⟨chunk, ⟨_, _, _, holds⟩, rfl, _⟩ := read
    by_cases more : (done : Int) < chunk.length
    · rw [if_pos more, holds done (by omega)] at blocked
      cases blocked
    · rw [if_neg more] at blocked
      cases blocked
  case postWrite | finalPost =>
    rw [if_pos trivial] at blocked
    cases blocked
  case cleanup calls =>
    cases calls with
    | nil => exact .inr rfl
    | cons call rest => cases blocked

/-- There is no deadlock: if neither can move, both have finished. -/
theorem blocked_finished (invariant : Invariant chunks sent received state)
    (objects : Objects state) (writerBlocked : writerStep variant state = none)
    (readerBlocked : readerStep variant state = none) :
    state.writer = .cleanup [] ∧ state.reader = .cleanup [] := by
  have token := invariant.token
  rcases writer_blocked invariant objects writerBlocked with ⟨waiting, taken⟩ | done
  · have idle : state.writer.removing = false ∧ state.writer.holdsSegment = false := by
      rcases waiting with pc | pc <;> rw [pc] <;> exact ⟨rfl, rfl⟩
    rw [taken, idle.2] at token
    rcases reader_blocked invariant (objects.exist idle.1).1 readerBlocked with
      ⟨pc, drained⟩ | pc
    · rw [drained, pc] at token
      cases token
    · rw [objects.drained (by rw [pc]; rfl), pc] at token
      cases token
  · obtain ⟨calls, pc⟩ := invariant.reader_finished (by rw [done]; rfl)
    refine ⟨done, ?_⟩
    cases calls with
    | nil => exact pc
    | cons call rest =>
        rw [readerStep, pc] at readerBlocked
        cases readerBlocked

end Blocked

/-! ### Runs -/

/-- What holds in every state of a run. -/
structure LateInvariant (chunks : List (List Byte)) (state : LateState) : Prop where
  shared : ∃ sent received, Invariant chunks sent received state.shared
  objects : Objects state.shared
  /-- A reader that is still opening the objects has not entered its loop. -/
  waits : state.openings ≠ [] → state.shared.reader = .waitRead

theorem lateInvariant_inductive (variant : Variant) (openings : List Opening)
    {input : List Byte} (splitting : Splitting input) :
    (lateTransfer variant openings splitting).Inductive (LateInvariant splitting.chunks) where
  init := by
    rintro state ⟨seg, rfl⟩
    exact ⟨⟨[], [], initial_invariant splitting seg⟩, initial_objects splitting seg, fun _ => rfl⟩
  step := by
    rintro ⟨shared, left⟩ after ⟨⟨sent, received, invariant⟩, objects, waits⟩ ⟨side, step⟩
    cases side with
    | left =>
        obtain ⟨shared', stepped, rfl⟩ := Option.map_eq_some_iff.mp step
        obtain ⟨sent', kept⟩ := invariant.writerStep splitting stepped
        refine ⟨⟨sent', received, kept⟩, objects.writerStep invariant stepped, fun more => ?_⟩
        rw [(writerStep_frame stepped).reader]
        exact waits more
    | right =>
        cases left with
        | nil =>
            obtain ⟨shared', stepped, rfl⟩ := Option.map_eq_some_iff.mp step
            obtain ⟨received', kept⟩ := invariant.readerStep stepped
            exact ⟨⟨sent, received', kept⟩, objects.readerStep invariant stepped,
              fun more => absurd rfl more⟩
        | cons opening rest =>
            simp only [lateStepOf] at step
            split at step
            · cases step
              exact ⟨⟨sent, received, invariant⟩, objects, fun _ => waits (List.cons_ne_nil _ _)⟩
            · cases step

/-- Every interleaving of one writer and one reader that starts after the writer has
created the objects, for every input and every splitting of it by `read`: as long as
not both have finished, one of them can take a step; and the writer releases an
object only when the reader has detached from the segment and performed its last
operation on the semaphores. -/
theorem shutdown_correct (variant : Variant) (openings : List Opening) {input : List Byte}
    (splitting : Splitting input) {state : LateState}
    (reachable : (lateTransfer variant openings splitting).Reachable state) :
    (¬ Finished state → ∃ side after, lateStepOf variant side state = some after) ∧
    (∀ call rest, state.shared.writer = .cleanup (call :: rest) →
      state.openings = [] ∧ state.shared.readerAttached = false ∧
        ∃ calls, state.shared.reader = .cleanup calls) := by
  obtain ⟨shared, left⟩ := state
  obtain ⟨⟨sent, received, invariant⟩, objects, waits⟩ :=
    (lateInvariant_inductive variant openings splitting).holds reachable
  constructor
  · intro unfinished
    by_contra blocked
    simp only [not_exists] at blocked
    have writerBlocked : writerStep variant shared = none :=
      Option.eq_none_iff_forall_ne_some.mpr fun after stepped =>
        blocked .left ⟨after, left⟩ (by rw [lateStepOf, stepped]; rfl)
    cases left with
    | nil =>
        have readerBlocked : readerStep variant shared = none :=
          Option.eq_none_iff_forall_ne_some.mpr fun after stepped =>
            blocked .right ⟨after, []⟩ (by rw [lateStepOf, stepped]; rfl)
        obtain ⟨writerDone, readerDone⟩ :=
          blocked_finished invariant objects writerBlocked readerBlocked
        exact unfinished ⟨rfl, writerDone, readerDone⟩
    | cons opening rest =>
        -- the writer waits for this reader before it removes anything
        have idle : shared.writer.removing = false := by
          by_contra removing
          obtain ⟨calls, pc⟩ := invariant.reader_finished (by simpa using removing)
          rw [waits (List.cons_ne_nil _ _)] at pc
          cases pc
        obtain ⟨semaphores, segment⟩ := objects.exist idle
        have has : shared.has opening = true := by
          cases opening
          · exact semaphores
          · exact segment
        exact blocked .right ⟨shared, rest⟩ (by rw [lateStepOf, if_pos has])
  · intro call rest removing
    obtain ⟨calls, pc⟩ := invariant.reader_finished (by rw [removing]; rfl)
    refine ⟨?_, ?_, calls, pc⟩
    · by_contra more
      rw [waits more] at pc
      cases pc
    · rw [objects.attached, pc]
      rfl

/-! ### A run without input -/

def noInput : Splitting [] where
  chunks := []
  joined := rfl
  nonempty := nofun
  fits := nofun

/-- `semget`, `shmget` and `shmat`. -/
def systemVOpenings : List Opening := [.semaphores, .segment, .segment]

/-- The writer sends the end of the input before the reader has started. -/
def noInputSchedule : List Side :=
  List.replicate 6 Side.left ++ List.replicate 7 Side.right ++ [Side.left]

theorem shutdown_correct_noInput :
    ∃ state, replay (lateStepOf systemV) noInputSchedule
        ⟨initial noInput ⟨0, Vector.replicate bufSize 0⟩, systemVOpenings⟩ = some state ∧
      state.shared.writer = .cleanup systemV.writerCleanup ∧
      state.shared.readerAttached = false ∧
      ∃ side after, lateStepOf systemV side state = some after := by
  have ends : (replay (lateStepOf systemV) noInputSchedule
      ⟨initial noInput ⟨0, Vector.replicate bufSize 0⟩, systemVOpenings⟩).map
        (fun state => state.shared.writer) = some (.cleanup systemV.writerCleanup) := by
    decide +kernel
  obtain ⟨state, replayed, atCleanup⟩ := Option.map_eq_some_iff.mp ends
  have reachable : (lateTransfer systemV systemVOpenings noInput).Reachable state :=
    replay_reachable (.of_init ⟨_, rfl⟩) replayed
  obtain ⟨progress, removal⟩ := shutdown_correct systemV systemVOpenings noInput reachable
  refine ⟨state, replayed, atCleanup, (removal _ _ atCleanup).2.1, progress fun finished => ?_⟩
  exact absurd (atCleanup.symm.trans finished.2.1) (by decide)

end LinuxProgramming.SharedMemory
