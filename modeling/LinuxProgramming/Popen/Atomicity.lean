import LinuxProgramming.Popen.Table

/-!
Contract: what a `my_popen` that returns `NULL` leaves behind.

Owns:
- which of its failures leave the counter, the table and the descriptors as they were;
- that the counter is the number of open streams in runs without other failures.

Does not own: the child, which is there once `fork` has succeeded.
-/

namespace LinuxProgramming.Popen

open LinuxProgramming.Library

/-- What a call that returns `NULL` has to leave alone. -/
structure Unchanged (before after : State) : Prop where
  fd_pid_sum : after.fd_pid_sum = before.fd_pid_sum
  table : after.fd_pid.isSome = before.fd_pid.isSome
  descriptors : ∀ fd, (after.descriptors fd).isSome = (before.descriptors fd).isSome

/-- The descriptor is free after the call. -/
def Closing.releases : Closing → Bool
  | .closed => true
  | .failed _ released => released

/-- A failure before anything is left behind: of the mode, of `pipe`, or of `fork` with
both ends released. -/
def PopenCalls.FailsEarly (mode : CString) (calls : PopenCalls) : Prop :=
  (mode ≠ modeWrite ∧ mode ≠ modeRead) ∨ (∃ errno, calls.pipe = .error errno) ∨
    (∃ errno, calls.fork = .error errno) ∧ calls.firstClose.releases = true ∧
      calls.secondClose.releases = true

/-- Nothing fails from `fork` on. -/
structure PopenCalls.Completes (calls : PopenCalls) (state : State) : Prop where
  fork : ∃ pid, calls.fork = .ok pid
  registry : ∃ table, registry calls state = .ok table
  firstClose : calls.firstClose = .closed
  fdopen : ∃ file, calls.fdopen = .ok file

/-- A `my_popen` fails early, or not at all. -/
def Call.AllOrNothing (state : State) : Call → Prop
  | .popen _ mode calls => calls.FailsEarly mode ∨ calls.Completes state
  | .pclose _ _ => True

/-- Runs of such calls. -/
def allOrNothing : TransitionSystem State :=
  labelledWhen Initial step fun call state => call.Possible state ∧ call.AllOrNothing state

/-! ### Descriptors -/

theorem Descriptors.afterClose_apply (descriptors : Descriptors) (other : Nat)
    (closing : Closing) (fd : Nat) :
    descriptors.afterClose other closing fd =
      if fd = other ∧ closing.releases = true then none else descriptors fd := by
  cases closing with
  | closed =>
      simp only [afterClose, close, Function.update_apply, Closing.releases, and_true]
  | failed errno released =>
      cases released with
      | false => simp [afterClose, Closing.releases]
      | true => simp [afterClose, close, Function.update_apply, Closing.releases]

/-- The two ends are gone exactly if both were released. -/
theorem afterClose_both_iff {descriptors : Descriptors} {fd : Nat × Nat} (pipe : Nat)
    (first second : Closing) (different : fd.1 ≠ fd.2)
    (free : descriptors fd.1 = none ∧ descriptors fd.2 = none) :
    (∀ other, ((((descriptors.addPipe fd pipe).afterClose fd.1 first).afterClose fd.2 second)
        other).isSome = (descriptors other).isSome) ↔
      first.releases = true ∧ second.releases = true := by
  constructor
  · intro same
    have firstEnd := same fd.1
    have secondEnd := same fd.2
    rw [free.1, Descriptors.afterClose_apply, if_neg (fun both => different both.1),
      Descriptors.afterClose_apply, Descriptors.addPipe_apply_fst _ _ different] at firstEnd
    rw [free.2, Descriptors.afterClose_apply, Descriptors.afterClose_apply_of_ne _ different.symm,
      Descriptors.addPipe_apply_snd] at secondEnd
    simpa using And.intro firstEnd secondEnd
  · rintro ⟨firstReleased, secondReleased⟩ other
    simp only [Descriptors.afterClose_apply, firstReleased, secondReleased, and_true]
    split_ifs with isSecond isFirst
    · rw [isSecond, free.2]
    · rw [isFirst, free.1]
    · rw [Descriptors.addPipe_apply_of_ne _ _ isFirst isSecond]

/-! ### What is left behind -/

theorem wrap_succ_ne (value : Int) : CInt.wrap (value + 1) ≠ value := by
  rw [CInt.wrap, Int.bmod_def]
  omega

/-- A `my_popen` that returns `NULL` leaves everything as it was exactly if it fails early. -/
theorem unchanged_iff {command mode : CString} {calls : PopenCalls} {before after : State}
    {errno : Errno} (possible : calls.Possible before)
    (ran : myPopen command mode calls before = .ok (.error errno, after)) :
    Unchanged before after ↔ calls.FailsEarly mode := by
  cases myPopen_ends ran with
  | badMode bad => exact iff_of_true ⟨rfl, rfl, fun _ => rfl⟩ (.inl bad)
  | noPipe piped => exact iff_of_true ⟨rfl, rfl, fun _ => rfl⟩ (.inr (.inl ⟨_, piped⟩))
  | noFork good piped forked =>
      obtain ⟨different, free⟩ := possible.pipe _ piped
      rw [PopenCalls.FailsEarly, or_iff_right good, or_iff_right (by simp [piped]),
        and_iff_right ⟨_, forked⟩, ← afterClose_both_iff before.pipes _ _ different free]
      exact ⟨Unchanged.descriptors, fun same => ⟨rfl, rfl, same⟩⟩
  | @forked fd _ _ _ good piped forked ends =>
      obtain ⟨different, free⟩ := possible.pipe fd piped
      have late : ¬ calls.FailsEarly mode := by
        rw [PopenCalls.FailsEarly, or_iff_right good]
        simp [piped, forked]
      refine iff_of_false (fun unchanged => ?_) late
      cases ends with
      | noTable =>
          -- the first end is open, and was not
          have first : (before.descriptors.addPipe fd before.pipes fd.1).isSome =
              (before.descriptors fd.1).isSome := unchanged.descriptors fd.1
          rw [Descriptors.addPipe_apply_fst _ _ different, free.1] at first
          cases first
      | noStream => exact wrap_succ_ne _ unchanged.fd_pid_sum

/-! ### The counter in runs -/

/-- A call that would complete returns `NULL` only if it fails early. -/
theorem failsEarly_of_error {command mode : CString} {calls : PopenCalls} {before after : State}
    {errno : Errno} (either : calls.FailsEarly mode ∨ calls.Completes before)
    (ran : myPopen command mode calls before = .ok (.error errno, after)) :
    calls.FailsEarly mode := by
  rcases either with early | completes
  · exact early
  cases myPopen_ends ran with
  | badMode bad => exact .inl bad
  | noPipe piped => exact .inr (.inl ⟨_, piped⟩)
  | noFork _ _ failed =>
      obtain ⟨child_pid, forked⟩ := completes.fork
      rw [failed] at forked
      cases forked
  | forked _ _ _ ends =>
      cases ends with
      | noTable failed =>
          obtain ⟨table, entered⟩ := completes.registry
          have notEntered : registry calls before = .error errno := failed
          rw [notEntered] at entered
          cases entered
      | noStream _ failed =>
          obtain ⟨file, opened⟩ := completes.fdopen
          rcases failed with notClosed | ⟨reason, failed⟩
          · exact absurd completes.firstClose notClosed
          · rw [failed] at opened
            cases opened

theorem myPopen_counts {command mode : CString} {calls : PopenCalls} {before after : State}
    {file : Nat} (ran : myPopen command mode calls before = .ok (.ok file, after)) :
    after.fd_pid_sum = CInt.wrap (before.fd_pid_sum + 1) := by
  cases myPopen_ends ran with
  | forked _ _ _ ends =>
      cases ends with
      | stream => rfl

theorem myPclose_counts {file : Nat} {calls : PcloseCalls} {before after : State}
    {result : PcloseResult} (ran : myPclose file calls before = .ok (result, after)) :
    after.fd_pid_sum = CInt.wrap (before.fd_pid_sum - 1) := by
  unfold myPclose at ran
  split at ran
  · cases ran
  case h_2 stream found =>
    cases entered : readTable before.fd_pid stream.fd with
    | error fault =>
        rw [entered] at ran
        cases ran
    | ok child_pid =>
        rw [entered] at ran
        cases fclosed : calls.fclose with
        | failed errno released =>
            rw [fclosed] at ran
            cases ran
            rfl
        | closed =>
            rw [fclosed] at ran
            cases waited : calls.waitpid with
            | error errno =>
                rw [waited] at ran
                cases ran
                rfl
            | ok status =>
                rw [waited] at ran
                cases ran
                rfl

/-- As many streams as the counter says. -/
structure Counted (state : State) : Prop where
  consistent : Consistent state
  exact_ : state.fd_pid_sum = state.streams.length

theorem ran_of_step {α : Type} {ran : Except Fault (α × State)} {after : State}
    (stepped : ran.toOption.map Prod.snd = some after) : ∃ result, ran = .ok (result, after) := by
  obtain ⟨⟨result, next⟩, ended, rfl⟩ := Option.map_eq_some_iff.mp stepped
  cases ran with
  | error fault => cases ended
  | ok pair => exact ⟨result, congrArg Except.ok (Option.some.inj ended)⟩

theorem counted_inductive : allOrNothing.Inductive Counted where
  init state initial := by
    refine ⟨Initial.consistent initial, ?_⟩
    rw [initial.fd_pid_sum, initial.streams]
    rfl
  step before after counted := by
    rintro ⟨call, ⟨possible, allOrNothing⟩, stepped⟩
    have consistent : Consistent after :=
      consistent_inductive.step before after counted.consistent ⟨call, possible, stepped⟩
    refine ⟨consistent, ?_⟩
    cases call with
    | popen command mode calls =>
        obtain ⟨result, ran⟩ := ran_of_step stepped
        have streams := myPopen_returns ran
        cases result with
        | error errno =>
            have early := failsEarly_of_error allOrNothing ran
            rw [((unchanged_iff possible ran).mpr early).fd_pid_sum, counted.exact_, streams]
        | ok file =>
            obtain ⟨stream, isNew, -⟩ := streams
            have atLeast := consistent.counted
            rw [isNew, List.length_cons] at atLeast ⊢
            rw [myPopen_counts ran, counted.exact_] at atLeast ⊢
            have atMost : CInt.wrap ((before.streams.length : Int) + 1) ≤
                (before.streams.length : Int) + 1 := CInt.wrap_le (by omega)
            omega
    | pclose file calls =>
        obtain ⟨result, ran⟩ := ran_of_step stepped
        obtain ⟨stream, member, rfl⟩ := possible
        obtain ⟨_, _, ran', streams, -⟩ := myPclose_consistent counted.consistent member calls
        rw [ran] at ran'
        cases ran'
        have wrapped := counted.consistent.wrap_pred member
        have some_ : 0 < before.streams.length := List.length_pos_of_mem member
        have erased : (before.streams.eraseP fun other => other.file = stream.file).length =
            before.streams.length - 1 := List.length_eraseP_of_mem member (by simp)
        rw [myPclose_counts ran, wrapped, counted.exact_, streams, erased]
        omega

/-- A `my_popen` that returns `NULL` leaves the counter, the table and the open descriptors
as they were exactly if it fails in its mode, in `pipe`, or in `fork` and then releases both
ends; the counter is the number of open streams in every run without other failures. -/
theorem myPopen_atomic_iff {command mode : CString} {calls : PopenCalls} {before after : State}
    {errno : Errno} (possible : calls.Possible before)
    (ran : myPopen command mode calls before = .ok (.error errno, after)) {state : State}
    (reachable : allOrNothing.Reachable state) :
    (Unchanged before after ↔ calls.FailsEarly mode) ∧
      state.fd_pid_sum = state.streams.length :=
  ⟨unchanged_iff possible ran, (counted_inductive.holds reachable).exact_⟩

/-- A `fork` that fails with `EAGAIN`. -/
def forkFails : PopenCalls :=
  { callsAt (3, 4) 0 (.ok 50) with fork := .error 11 }

theorem myPopen_atomic_forkFails :
    ∃ after, myPopen [] modeRead forkFails console = .ok (.error 11, after) ∧
      (Unchanged console after ↔ forkFails.FailsEarly modeRead) ∧
      console.fd_pid_sum = console.streams.length := by
  have possible : forkFails.Possible console := by
    refine ⟨?_, ?_, ?_, ?_⟩
    · rintro fd ⟨⟩
      decide
    · rintro fd pids ⟨⟩ ⟨⟩
      decide
    · rintro pid ⟨⟩
    · simp [console]
  have fails : ∃ after, myPopen [] modeRead forkFails console = .ok (.error 11, after) := ⟨_, rfl⟩
  obtain ⟨after, ran⟩ := fails
  exact ⟨after, ran, myPopen_atomic_iff possible ran (.of_init console_initial)⟩

/-- A `my_popen` that fails in `fdopen` has counted a stream, and there is none. -/
theorem myPopen_counts_failure :
    ∃ after, system.Reachable after ∧
      myPopen [] modeWrite (callsAt (3, 4) 100 (.error 12)) console =
        .ok (.error 12, after) ∧
      ¬ Unchanged console after ∧ after.fd_pid_sum ≠ after.streams.length := by
  have start : system.Reachable console := .of_init console_initial
  refine ⟨_, start.tail ⟨.popen [] modeWrite (callsAt (3, 4) 100 (.error 12)),
    callsAt_possible (by decide) (by decide) (by decide) (by decide) (by simp [console])
      (by simp [console]) (by simp), rfl⟩, rfl, ?_, by decide⟩
  intro unchanged
  exact absurd unchanged.fd_pid_sum (by decide)

end LinuxProgramming.Popen
