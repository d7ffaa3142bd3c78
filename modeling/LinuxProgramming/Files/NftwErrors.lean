import LinuxProgramming.Files.Faults
import LinuxProgramming.Files.Getcwd
import LinuxProgramming.Files.NftwStop
import LinuxProgramming.Files.RealpathWalk

/-!
Contract: what `my_nftw` leaves behind when it returns, whatever its system calls
do.

Owns:
- `Settles`, the account of a part of the walk: open streams against failed calls,
  and what is as before if none of these calls has failed;
- the exact condition under which a walk leaves everything as it was.

Does not own: what the walk visits.
-/

namespace LinuxProgramming.Files

open LinuxProgramming.Library

/-- The calls of which a failure makes `my_nftw` return from inside its loop at
once. -/
def abrupt : List Syscall := [.getcwd, .openFile, .chdir, .fchdir]

/-- How many of these calls have failed. -/
def Faulty.broken (world : Faulty) : Nat := world.failures.countP (· ∈ abrupt)

/-- The process stands in a directory of the tree. -/
def FileSystem.Standing (fs : FileSystem) (process : Process) : Prop :=
  ∃ info entries, fs.tree.at? process.cwd = some (.dir info entries)

/-- What a part of a walk does that opens `change` streams more than it closes. Each
failure of an abrupt call leaves one more stream open; without one the level, the
working directory and the open descriptors are as before. -/
structure Settles (fs : FileSystem) (change : Int) (before after : Walk Faulty) : Prop where
  grows : before.world.broken ≤ after.world.broken
  streams : (after.world.process.streams : Int) + before.world.broken =
    before.world.process.streams + change + after.world.broken
  clean : fs.Standing before.world.process → after.world.broken = before.world.broken →
    after.level = before.level ∧ after.world.process.cwd = before.world.process.cwd ∧
      ∀ fd, after.world.process.opened? fd = before.world.process.opened? fd

namespace Settles

variable {fs : FileSystem} {change change' : Int} {before between after : Walk Faulty}

theorem refl : Settles fs 0 before before where
  grows := Nat.le_refl _
  streams := by omega
  clean := fun _ _ => ⟨rfl, rfl, fun _ => rfl⟩

theorem trans (first : Settles fs change before between)
    (second : Settles fs change' between after) : Settles fs (change + change') before after where
  grows := first.grows.trans second.grows
  streams := by
    have := first.streams
    have := second.streams
    omega
  clean := by
    intro standing same
    have grows := first.grows
    have grows' := second.grows
    obtain ⟨level, cwd, opened⟩ := first.clean standing (by omega)
    have standing' : fs.Standing between.world.process := by
      rw [FileSystem.Standing, cwd]
      exact standing
    obtain ⟨level', cwd', opened'⟩ := second.clean standing' (by omega)
    exact ⟨level'.trans level, cwd'.trans cwd, fun fd => (opened' fd).trans (opened fd)⟩

/-- A part that ends with the failure of an abrupt call leaves the stream that it
would have closed. -/
theorem of_broken (broken : before.world.broken < after.world.broken)
    (streams : (after.world.process.streams : Int) + before.world.broken =
      before.world.process.streams + change + after.world.broken) :
    Settles fs change before after where
  grows := Nat.le_of_lt broken
  streams := streams
  clean := fun _ same => absurd same (Nat.ne_of_gt broken)

end Settles

/-! ### Single calls -/

section Calls

variable {fs : FileSystem} {leftover : Stat} {flags : Flags}

/-- A call that is not abrupt breaks nothing. -/
theorem broken_of_logged {failed : Bool} {syscall : Syscall} {before after : Faulty}
    (log : after.failures = logged failed syscall before.failures) (other : syscall ∉ abrupt) :
    after.broken = before.broken := by
  rw [Faulty.broken, Faulty.broken, log, logged]
  split
  · exact List.countP_cons_of_neg (by simpa using other)
  · rfl

theorem broken_of_abrupt {failed : Bool} {syscall : Syscall} {before after : Faulty}
    (log : after.failures = logged failed syscall before.failures) (isAbrupt : syscall ∈ abrupt) :
    after.broken = before.broken + if failed then 1 else 0 := by
  rw [Faulty.broken, Faulty.broken, log, logged]
  split
  · exact List.countP_cons_of_pos (by simpa using isAbrupt)
  · rfl

theorem statEntry_returns (pathname : CString) (world : Faulty) :
    Returns (statEntry (faultyKernel fs leftover) flags pathname) world fun _ after =>
      after.process = world.process ∧ after.broken = world.broken := by
  rw [statEntry]
  split
  · exact (faulty_lstat pathname world).mono fun _ _ ran =>
      ⟨ran.1, broken_of_logged ran.2 (by decide)⟩
  · exact (faulty_stat pathname world).mono fun _ _ ran =>
      ⟨ran.1, broken_of_logged ran.2 (by decide)⟩

/-- What entering a directory does. -/
structure Entered (fs : FileSystem) (entering : Entering) (before after : Faulty) : Prop where
  streams : after.process.streams = before.process.streams
  broken : after.broken = before.broken + if entering = .failed then 1 else 0
  stayed : entering = .stayed → after.process = before.process
  moved : ∀ fd, entering = .moved fd → fs.Standing after.process ∧
    fd = before.process.descriptors.length ∧
    ∃ position, (fs.Standing before.process → position = before.process.cwd) ∧
      after.process.descriptors = before.process.descriptors ++ [some position]

theorem Entered.refl {before : Faulty} : Entered fs .stayed before before :=
  ⟨rfl, rfl, fun _ => rfl, fun fd moves => by cases moves⟩

theorem Entered.of_failed {before after : Faulty}
    (streams : after.process.streams = before.process.streams)
    (broken : after.broken = before.broken + 1) : Entered fs .failed before after where
  streams := streams
  broken := broken
  stayed stays := by cases stays
  moved _ moves := by cases moves

/-- What happened before, without the process, does not matter. -/
theorem Entered.from_same {entering : Entering} {earlier before after : Faulty}
    (entered : Entered fs entering before after) (process : before.process = earlier.process)
    (broken : before.broken = earlier.broken) : Entered fs entering earlier after where
  streams := by rw [entered.streams, process]
  broken := by rw [entered.broken, broken]
  stayed stays := by rw [entered.stayed stays, process]
  moved := by
    rw [FileSystem.Standing, ← process]
    exact entered.moved

theorem enter_returns (pathname : CString) (status : Option Errno × Stat) (world : Faulty) :
    Returns (enter (faultyKernel fs leftover) flags pathname status) world fun entering after =>
      Entered fs entering world after := by
  rw [enter]
  refine Returns.ite (fun _ => ?_) fun _ => .pure .refl
  refine .bind (faulty_getcwd PATH_MAX world) fun cwd opening gotten => ?_
  obtain ⟨⟨same, isCwd⟩, log⟩ := gotten
  have broken := broken_of_abrupt log (by decide)
  cases cwd with
  | none => exact .pure (.of_failed (by rw [same]) broken)
  | some cwd =>
      obtain ⟨rfl, fits⟩ := isCwd cwd rfl
      refine .bind (faulty_openFile _ opening) fun fd changing recorded => ?_
      obtain ⟨recorded, log'⟩ := recorded
      have broken' := broken_of_abrupt log' (by decide)
      rcases recorded with ⟨rfl, same'⟩ | ⟨found, finds, rfl, isChanging⟩
      · exact .pure (.of_failed (by rw [same', same]) (by rw [broken', broken]; rfl))
      · have position (standing : fs.Standing world.process) : found.1 = world.process.cwd := by
          obtain ⟨info, entries, located⟩ := standing
          rw [find_canonical located fits] at finds
          exact congrArg Prod.fst (Except.ok.inj finds).symm
        refine .bind (faulty_chdir pathname changing) fun changed after moved => ?_
        obtain ⟨moved, log''⟩ := moved
        have broken'' := broken_of_abrupt log'' (by decide)
        rcases moved with ⟨rfl, same''⟩ | ⟨position', info, entries, located, rfl, isAfter⟩
        · exact .pure (.of_failed (by rw [same'', isChanging, same])
            (by rw [broken'', broken', broken]; rfl))
        · refine .pure ⟨by rw [isAfter, isChanging, same], by rw [broken'', broken', broken]; rfl,
            by simp, ?_⟩
          rintro fd ⟨⟩
          refine ⟨⟨info, entries, by rw [isAfter]; exact located⟩, by rw [same], found.1,
            position, by rw [isAfter, isChanging, same]⟩

/-- What leaving it does. -/
structure Left (entering : Entering) (left : Bool) (before after : Faulty) : Prop where
  streams : after.process.streams = before.process.streams
  broken : after.broken = before.broken + if left then 0 else 1
  stayed : entering = .stayed → after.process = before.process
  moved : ∀ fd, entering = .moved fd → left = true →
    before.process.opened? fd = some after.process.cwd ∧
    ∀ other, after.process.opened? other =
      if other = fd then none else before.process.opened? other

theorem Left.of_moved {fd : Nat} {left : Bool} {before after : Faulty}
    (streams : after.process.streams = before.process.streams)
    (broken : after.broken = before.broken + if left then 0 else 1)
    (returned : left = true → before.process.opened? fd = some after.process.cwd ∧
      ∀ other, after.process.opened? other =
        if other = fd then none else before.process.opened? other) :
    Left (.moved fd) left before after where
  streams := streams
  broken := broken
  stayed stays := by cases stays
  moved _ moves := by
    cases moves
    exact returned

theorem leave_returns (entering : Entering) (world : Faulty) :
    Returns (leave (faultyKernel fs leftover) entering) world fun left after =>
      Left entering left world after := by
  cases entering with
  | failed => exact .pure ⟨rfl, rfl, by simp, by simp⟩
  | stayed => exact .pure ⟨rfl, rfl, fun _ => rfl, by simp⟩
  | moved fd =>
      rw [leave]
      refine .bind (faulty_fchdir fd world) fun returned closing back => ?_
      obtain ⟨back, log⟩ := back
      have broken := broken_of_abrupt log (by decide)
      rcases back with ⟨rfl, same⟩ | ⟨position, isOpen, rfl, isClosing⟩
      · exact .pure (.of_moved (by rw [same]) broken (by simp))
      · refine .bind (faulty_close fd closing) fun closed after released => ?_
        obtain ⟨released, log'⟩ := released
        have broken' := broken_of_logged log' (by decide)
        refine .pure (.of_moved (by rw [released, isClosing]) (by rw [broken', broken]; rfl) ?_)
        refine fun _ => ⟨by rw [isOpen, released, isClosing], fun other => ?_⟩
        rw [Process.opened?, Process.opened?, released, isClosing]
        dsimp only
        rw [List.getElem?_set]
        split
        case isTrue same =>
          rw [if_pos same.symm]
          split <;> rfl
        case isFalse different => rw [if_neg fun same => different same.symm]

end Calls

/-! ### The walk -/

section Walk

variable {fs : FileSystem} {leftover : Stat} {flags : Flags} {func : Func}

/-- A part of the walk that changes neither the process nor the level. -/
theorem settles_of_same {before after : Walk Faulty}
    (process : after.world.process = before.world.process)
    (broken : after.world.broken = before.world.broken) (level : after.level = before.level) :
    Settles fs 0 before after where
  grows := Nat.le_of_eq broken.symm
  streams := by rw [process, broken]; omega
  clean := fun _ _ => ⟨level, by rw [process], fun _ => by rw [process]⟩

theorem closedir_settles (stream : List CString) {walk : Walk Faulty}
    (opened : 0 < walk.world.process.streams) :
    Returns (onWorld (call ((faultyKernel fs leftover).closedir (some stream)))) walk
      fun _ after => Settles fs (-1) walk after := by
  refine (onWorld_returns (faulty_closedir _ walk.world)).mono fun closed after ran => ?_
  obtain ⟨⟨process, log⟩, same⟩ := ran
  have broken := broken_of_logged log (by decide)
  refine ⟨Nat.le_of_eq broken.symm, ?_, fun _ _ => ⟨by rw [same], by rw [process], fun fd => ?_⟩⟩
  · rw [process, broken]
    simp only [Option.isSome_some, if_true]
    omega
  · rw [process]
    rfl

/-- A descriptor that is opened behind the others and closed again leaves them as they
were. -/
theorem opened?_closed_last {before inside : Process} {recorded : Option (Position CString)}
    (descriptors : inside.descriptors = before.descriptors ++ [recorded]) (other : Nat) :
    (if other = before.descriptors.length then none else inside.opened? other) =
      before.opened? other := by
  split
  case isTrue isNew =>
    rw [isNew, Process.opened?, List.getElem?_eq_none (Nat.le_refl _)]
    rfl
  case isFalse different =>
    rw [Process.opened?, Process.opened?, descriptors]
    by_cases below : other < before.descriptors.length
    · rw [List.getElem?_append_left below]
    · rw [List.getElem?_eq_none (Nat.not_lt.mp below), List.getElem?_eq_none]
      rw [List.length_append, List.length_singleton]
      omega

/-- One entry: from before it is entered to after it has been left. -/
theorem entered_settles {entering : Entering} {left : Bool} {walk inside outside after : Walk Faulty}
    (entered : Entered fs entering walk.world inside.world) (raised : inside.level = walk.level + 1)
    (notFailed : entering ≠ .failed) (visited : Settles fs 0 inside outside)
    (leaves : Left entering left outside.world after.world)
    (lowered : after.level = outside.level - 1) :
    Settles fs (if left then 0 else -1) walk after := by
  have broken := entered.broken
  rw [if_neg notFailed] at broken
  have streams := entered.streams
  have grows := visited.grows
  have balance := visited.streams
  have broken' := leaves.broken
  have streams' := leaves.streams
  cases left with
  | false =>
      simp only [Bool.false_eq_true, if_false] at broken' ⊢
      exact .of_broken (by omega) (by omega)
  | true =>
      simp only [if_true] at broken' ⊢
      refine ⟨by omega, by omega, fun standing same => ?_⟩
      cases entering with
      | failed => exact absurd rfl notFailed
      | stayed =>
          have process := entered.stayed rfl
          have process' := leaves.stayed rfl
          have standing' : fs.Standing inside.world.process := process ▸ standing
          obtain ⟨level, cwd, opened⟩ := visited.clean standing' (by omega)
          refine ⟨by omega, by rw [process', cwd, process], fun fd => ?_⟩
          rw [process', opened, process]
      | moved fd =>
          obtain ⟨standing', rfl, position, isCwd, descriptors⟩ := entered.moved fd rfl
          obtain ⟨back, closed⟩ := leaves.moved _ rfl rfl
          obtain ⟨level, cwd, opened⟩ := visited.clean standing' (by omega)
          have recorded : inside.world.process.opened? walk.world.process.descriptors.length =
              some position := by
            rw [Process.opened?, descriptors]
            exact congrArg Option.join List.getElem?_concat_length
          refine ⟨by omega, ?_, fun other => ?_⟩
          · rw [opened, recorded] at back
            rw [← isCwd standing]
            exact (Option.some.inj back).symm
          · rw [closed other, opened]
            exact opened?_closed_last descriptors other

/-- The streams opened by the loop over the entries, less those closed. -/
def LoopEnd.streams {S : Type} : LoopEnd S → Int
  | .finished _ => 0
  | .returned _ => -1

/-- The loop over the entries. A return from inside it gives up the stream, or leaves
it open on account of a failure. The induction is on the entries left. -/
theorem readEntries_settles {self : CString → Prog (Walk Faulty) Int}
    (selfSettles : ∀ pathname walk, Returns (self pathname) walk fun _ after =>
      Settles fs 0 walk after) (dirpath : CString) (fuel : Nat) (dir_p : List CString)
    (walk : Walk Faulty) (opened : 0 < walk.world.process.streams) :
    Returns (readEntries (faultyKernel fs leftover) flags self dirpath fuel dir_p) walk
      fun ended after => Settles fs ended.streams walk after := by
  induction fuel generalizing dir_p walk with
  | zero => exact .of_error rfl
  | succ fuel inductionHypothesis =>
      rw [readEntries]
      refine .bind (onWorld_returns (faulty_readdir dir_p walk.world)) fun read reading ran => ?_
      obtain ⟨⟨process, log⟩, same⟩ := ran
      have unchanged : Settles fs 0 walk reading :=
        settles_of_same process (broken_of_logged log (by decide)) (by rw [same])
      have stillOpen : 0 < reading.world.process.streams := by rw [process]; exact opened
      cases read with
      | failed =>
          exact .bind (closedir_settles dir_p stillOpen) fun _ after closed =>
            .pure (unchanged.trans closed)
      | last => exact .pure unchanged
      | entry d_name dir_p =>
          have onward (entered : Walk Faulty) (settled : Settles fs 0 reading entered) :
              Returns (readEntries (faultyKernel fs leftover) flags self dirpath fuel dir_p)
                entered fun ended after => Settles fs ended.streams walk after := by
            have grows := settled.grows
            have balance := settled.streams
            refine (inductionHypothesis dir_p entered (by omega)).mono fun ended after rest => ?_
            have whole := (unchanged.trans settled).trans rest
            rwa [Int.add_zero, Int.zero_add] at whole
          refine .ite (fun _ => onward reading .refl) fun _ => .ite (fun _ => .of_error rfl) fun _ => ?_
          refine .through (fun _ raised => raised = { reading with level := reading.level + 1 })
            (.of_ok rfl rfl) fun _ raised isRaised => ?_
          refine .bind (onWorld_returns (statEntry_returns _ raised.world)) fun status stated ran => ?_
          obtain ⟨⟨process', broken'⟩, same'⟩ := ran
          refine .bind (onWorld_returns (enter_returns _ status stated.world))
            fun entering inside ran => ?_
          obtain ⟨entered, same''⟩ := ran
          have enteredHere : Entered fs entering reading.world inside.world :=
            entered.from_same (by rw [process', isRaised]) (by rw [broken', isRaised])
          have isInside : inside.level = reading.level + 1 := by rw [same'', same', isRaised]
          refine .ite (fun failed => .pure ?_) fun notFailed => ?_
          · have broken := enteredHere.broken
            have streams := enteredHere.streams
            rw [if_pos failed] at broken
            have ends : Settles fs (-1) reading inside := .of_broken (by omega) (by omega)
            exact unchanged.trans ends
          refine .bind (selfSettles _ inside) fun my_nftw_retval outside visited => ?_
          refine .through (fun _ lowered =>
              lowered = { outside with level := outside.level - 1 })
            (.of_ok rfl rfl) fun _ lowered isLowered => ?_
          refine .bind (onWorld_returns (leave_returns entering lowered.world))
            fun left after ran => ?_
          obtain ⟨leaves, sameLevel⟩ := ran
          have settled := entered_settles enteredHere isInside notFailed visited
            (show Left entering left outside.world after.world by rw [isLowered] at leaves; exact leaves)
            (by rw [sameLevel, isLowered])
          refine .ite (fun failed => .pure ?_) fun succeeded => ?_
          · rw [failed] at settled
            exact unchanged.trans settled
          rw [Bool.not_eq_false] at succeeded
          rw [succeeded, if_pos rfl] at settled
          have grows := settled.grows
          have balance := settled.streams
          refine .ite (fun _ => ?_) fun _ => onward after settled
          refine .bind (closedir_settles dir_p (by omega)) fun _ closed closes => .pure ?_
          exact (unchanged.trans settled).trans closes

variable (fs) in
theorem callFunc_settles (visit : Visit) (walk : Walk Faulty) :
    Returns (callFunc func visit) walk fun _ after => Settles fs 0 walk after :=
  .of_ok rfl (settles_of_same rfl rfl rfl)

variable (fs) in
theorem callWhen_settles (now : Bool) (visit : Visit) (walk : Walk Faulty) :
    Returns (callWhen func now visit) walk fun _ after => Settles fs 0 walk after := by
  rw [callWhen]
  exact .ite (fun _ => callFunc_settles fs visit walk) fun _ => .pure .refl

/-- The end of a directory: its stream, if there is one, is closed. -/
theorem closing_settles (dir_p : Option (List CString)) {before walk : Walk Faulty}
    (settled : Settles fs (if dir_p.isSome then 1 else 0) before walk) :
    Returns (onWorld (call ((faultyKernel fs leftover).closedir dir_p))) walk
      fun _ after => Settles fs 0 before after := by
  cases dir_p with
  | none =>
      refine (onWorld_returns (faulty_closedir none walk.world)).mono fun closed after ran => ?_
      obtain ⟨⟨process, log⟩, same⟩ := ran
      exact settled.trans
        (settles_of_same process (broken_of_logged log (by decide)) (by rw [same]))
  | some stream =>
      have grows := settled.grows
      have balance := settled.streams
      rw [Option.isSome_some, if_pos rfl] at settled balance
      exact (closedir_settles stream (by omega)).mono fun _ _ closed => settled.trans closed

/-- How the loop over the entries leaves the resources: a stream is still to be closed
unless the function has returned from inside it. -/
def LoopSettles (fs : FileSystem) (before : Walk Faulty) (ended : LoopEnd (Option (List CString)))
    (after : Walk Faulty) : Prop :=
  match ended with
  | .finished dir_p => Settles fs (if dir_p.isSome then 1 else 0) before after
  | .returned _ => Settles fs 0 before after

theorem visitDirectory_settles {self : CString → Prog (Walk Faulty) Int}
    (selfSettles : ∀ pathname walk, Returns (self pathname) walk fun _ after =>
      Settles fs 0 walk after) (fuel : Nat) (dirpath : CString) (visit : TypeFlag → Visit)
    (walk : Walk Faulty) :
    Returns (visitDirectory (faultyKernel fs leftover) flags func self fuel dirpath visit) walk
      fun _ after => Settles fs 0 walk after := by
  rw [visitDirectory]
  refine .bind (onWorld_returns (faulty_opendir dirpath walk.world)) fun dir_p opened ran => ?_
  obtain ⟨⟨process, log⟩, same⟩ := ran
  have broken := broken_of_logged log (by decide)
  have opens : Settles fs (if dir_p.isSome then 1 else 0) walk opened := by
    refine ⟨Nat.le_of_eq broken.symm, ?_,
      fun _ _ => ⟨by rw [same], by rw [process], fun fd => by rw [process]; rfl⟩⟩
    rw [process, broken]
    split <;> simp only [Nat.cast_add, Nat.cast_one, Nat.cast_zero]
  refine .bind (callWhen_settles fs _ _ opened) fun func_retval called calls => ?_
  have settled := opens.trans calls
  rw [Int.add_zero] at settled
  refine .ite (fun _ => .bind (closing_settles dir_p settled) fun _ _ closed => .pure closed)
    fun _ => ?_
  have read : Returns (readDirectory (faultyKernel fs leftover) flags self fuel dirpath dir_p)
      called (LoopSettles fs walk) := by
    cases dir_p with
    | none => exact .pure settled
    | some stream =>
        rw [Option.isSome_some, if_pos rfl] at settled
        have grows := settled.grows
        have balance := settled.streams
        refine .bind (readEntries_settles selfSettles dirpath fuel stream called (by omega))
          fun ended after rest => .pure ?_
        cases ended with
        | finished dir_p => exact settled.trans rest
        | returned retval => exact settled.trans rest
  refine .bind read fun ended after whole => ?_
  cases ended with
  | returned retval => exact .pure whole
  | finished dir_p =>
      refine .bind (callWhen_settles fs _ _ after) fun func_retval final calls => ?_
      have settled := whole.trans calls
      rw [Int.add_zero] at settled
      exact .ite (fun _ => .bind (closing_settles dir_p settled) fun _ _ closed => .pure closed)
        fun _ => .bind (closing_settles dir_p settled) fun _ _ closed => .pure closed

theorem visitFile_settles (dirpath : CString) (statbuf : Stat) (visit : TypeFlag → Visit)
    (walk : Walk Faulty) :
    Returns (visitFile (faultyKernel fs leftover) flags func dirpath statbuf visit) walk
      fun _ after => Settles fs 0 walk after := by
  have called (visit : Visit) {before between : Walk Faulty} (settled : Settles fs 0 before between) :
      Returns (callFunc func visit >>= fun _ => (pure 0 : Prog (Walk Faulty) Int)) between
        fun _ after => Settles fs 0 before after :=
    .bind (callFunc_settles fs visit between) fun _ _ calls => .pure (settled.trans calls)
  rw [visitFile]
  refine .ite (fun _ => ?_) fun _ => called _ .refl
  refine .bind (onWorld_returns (faulty_stat dirpath walk.world)) fun lnk_status after ran => ?_
  obtain ⟨⟨process, log⟩, same⟩ := ran
  have settled : Settles fs 0 walk after :=
    settles_of_same process (broken_of_logged log (by decide)) (by rw [same])
  split
  · exact .ite (fun _ => called _ settled) fun _ => .pure settled
  · exact called _ settled

/-- The induction is on the fuel, which bounds the depth of the recursion. -/
theorem myNftw_settles (fuel : Nat) (dirpath : CString) (walk : Walk Faulty) :
    Returns (myNftw (faultyKernel fs leftover) flags func fuel dirpath) walk fun _ after =>
      Settles fs 0 walk after := by
  induction fuel generalizing dirpath walk with
  | zero => exact .of_error rfl
  | succ fuel inductionHypothesis =>
      rw [myNftw]
      refine .through (fun _ reading => reading = walk) (.of_ok rfl rfl)
        fun level reading isReading => ?_
      subst isReading
      refine .bind (onWorld_returns (statEntry_returns dirpath reading.world))
        fun status stated ran => ?_
      obtain ⟨⟨process, broken⟩, same⟩ := ran
      have settled : Settles fs 0 reading stated := settles_of_same process broken (by rw [same])
      refine .through (fun _ recorded => Settles fs 0 reading recorded)
        (.of_ok rfl ⟨settled.grows, settled.streams, settled.clean⟩) fun devno recorded settled => ?_
      refine .ite (fun _ => .pure settled) fun _ => .ite (fun _ => .ite (fun _ => ?_) fun _ => ?_)
        fun _ => ?_
      · exact (visitDirectory_settles inductionHypothesis fuel dirpath _ recorded).mono
          fun _ _ rest => settled.trans rest
      · exact (visitFile_settles dirpath _ _ recorded).mono fun _ _ rest => settled.trans rest
      · exact .bind (callFunc_settles fs _ recorded) fun _ _ calls => .pure (settled.trans calls)

end Walk

/-- The walk leaves the level, the working directory, the streams and the open
descriptors as they were. -/
structure LeavesClean (before after : Walk Faulty) : Prop where
  level : after.level = before.level
  cwd : after.world.process.cwd = before.world.process.cwd
  streams : after.world.process.streams = before.world.process.streams
  descriptors : ∀ fd, after.world.process.opened? fd = before.world.process.opened? fd

/-- For every tree, start, flags, callback and outcome of every call: a walk that
returns, whatever it returns, leaves everything as it was if and only if no call of
`getcwd`, `open`, `chdir` or `fchdir` has failed in it. -/
theorem myNftw_leavesClean_iff (fs : FileSystem) (leftover : Stat) (flags : Flags) (func : Func)
    (process : Process) (standing : fs.Standing process) (faults : Nat → Option Errno)
    (level devno : Nat) (visits : List Visit) (fuel : Nat) (dirpath : CString)
    {retval : Int} {after : Walk Faulty}
    (returns : myNftw (faultyKernel fs leftover) flags func fuel dirpath
      ⟨Faulty.start process faults, level, devno, visits⟩ = .ok (retval, after)) :
    LeavesClean ⟨Faulty.start process faults, level, devno, visits⟩ after ↔
      ∀ syscall ∈ [Syscall.getcwd, .openFile, .chdir, .fchdir],
        syscall ∉ after.world.failures := by
  have settles : Settles fs 0 ⟨Faulty.start process faults, level, devno, visits⟩ after :=
    myNftw_settles fuel dirpath _ retval after returns
  have balance : (after.world.process.streams : Int) + (0 : Nat) =
      process.streams + 0 + after.world.broken := settles.streams
  have unbroken : after.world.broken = 0 ↔ ∀ syscall ∈ [Syscall.getcwd, .openFile, .chdir, .fchdir],
      syscall ∉ after.world.failures := by
    rw [Faulty.broken, List.countP_eq_zero]
    constructor
    · intro none_ syscall member failed
      exact none_ syscall failed (decide_eq_true member)
    · intro none_ syscall failed member
      exact none_ syscall (of_decide_eq_true member) failed
  rw [← unbroken]
  constructor
  · intro clean
    have streams : after.world.process.streams = process.streams := clean.streams
    omega
  · intro same
    obtain ⟨sameLevel, cwd, descriptors⟩ := settles.clean standing same
    have streams : after.world.process.streams = process.streams := by omega
    exact ⟨sameLevel, cwd, streams, descriptors⟩

/-- Two directories, with `FTW_CHDIR`, and nothing fails. -/
theorem myNftw_leavesClean_nested :
    ∃ after, myNftw (faultyKernel nested ⟨⟨0, 0⟩, .other⟩) ⟨false, false, false, true⟩ (fun _ => 0)
        9 [47, 97] ⟨Faulty.start ⟨[], [], 0⟩ fun _ => none, 0, 0, []⟩ = .ok (0, after) ∧
      LeavesClean ⟨Faulty.start ⟨[], [], 0⟩ fun _ => none, 0, 0, []⟩ after := by
  obtain ⟨⟨retval, after⟩, returns, ends⟩ := exists_of_map_ok
    (myNftw (faultyKernel nested ⟨⟨0, 0⟩, .other⟩) ⟨false, false, false, true⟩
      (fun _ => 0) 9 [47, 97] ⟨Faulty.start ⟨[], [], 0⟩ fun _ => none, 0, 0, []⟩)
    (fun returned => (returned.1, returned.2.world.failures)) (0, []) (by decide +kernel)
  obtain ⟨rfl, none_⟩ := Prod.mk.inj ends
  refine ⟨after, returns, (myNftw_leavesClean_iff nested _ _ _ _ ⟨⟨1, 1⟩, _, rfl⟩ _ 0 0 [] 9 _
    returns).mpr fun syscall _ => ?_⟩
  rw [none_]
  exact List.not_mem_nil

/-- `getcwd` fails before the directory `b` is entered: the level is 1 and the stream
of `/a` is open. -/
theorem myNftw_leaves_level :
    ∃ after, myNftw (faultyKernel nested ⟨⟨0, 0⟩, .other⟩) ⟨false, false, false, true⟩ (fun _ => 0)
        9 [47, 97] ⟨Faulty.start ⟨[], [], 0⟩ fun made => if made = 6 then some .erange else none,
          0, 0, []⟩ = .ok (-1, after) ∧
      after.level = 1 ∧ after.world.process.streams = 1 ∧
      ¬ LeavesClean ⟨Faulty.start ⟨[], [], 0⟩ fun made => if made = 6 then some .erange else none,
        0, 0, []⟩ after := by
  obtain ⟨⟨retval, after⟩, returns, ends⟩ := exists_of_map_ok
    (myNftw (faultyKernel nested ⟨⟨0, 0⟩, .other⟩) ⟨false, false, false, true⟩
      (fun _ => 0) 9 [47, 97] ⟨Faulty.start ⟨[], [], 0⟩
        fun made => if made = 6 then some .erange else none, 0, 0, []⟩)
    (fun returned => (returned.1, returned.2.level, returned.2.world.process.streams)) (-1, 1, 1)
    (by decide +kernel)
  obtain ⟨rfl, level, streams⟩ := Prod.mk.inj ends |>.imp_right Prod.mk.inj
  refine ⟨after, returns, level, streams, fun clean => ?_⟩
  have same := clean.level
  rw [level] at same
  cases same

end LinuxProgramming.Files
