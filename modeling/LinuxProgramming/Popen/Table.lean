import Mathlib.Tactic.SplitIfs
import LinuxProgramming.Library.KeyedList
import LinuxProgramming.Popen.Model

/-!
Contract: the table of pids that `my_popen` and `my_pclose` share.

Owns:
- the invariant between the counter, the table, the open streams and the children, and that
  every call keeps it;
- that every access to the table is inside it, and which child `my_pclose` waits for.

Does not own: what the children inherit.
-/

namespace LinuxProgramming.Popen

open LinuxProgramming.Library

/-! ### Descriptors -/

namespace Descriptors

variable (descriptors : Descriptors) {fd : Nat}

@[simp] theorem close_apply_of_ne {other : Nat} (different : fd ≠ other) :
    descriptors.close other fd = descriptors fd := by
  rw [close, Function.update_of_ne different]

@[simp] theorem afterClose_apply_of_ne {other : Nat} (different : fd ≠ other)
    (closing : Closing) : descriptors.afterClose other closing fd = descriptors fd := by
  cases closing with
  | closed => exact close_apply_of_ne descriptors different
  | failed _ released =>
      cases released with
      | false => rfl
      | true => exact close_apply_of_ne descriptors different

theorem addPipe_apply_of_ne {ends : Nat × Nat} (pipe : Nat) (notFirst : fd ≠ ends.1)
    (notSecond : fd ≠ ends.2) : descriptors.addPipe ends pipe fd = descriptors fd := by
  rw [addPipe, Function.update_of_ne notSecond, Function.update_of_ne notFirst]

theorem addPipe_apply_fst {ends : Nat × Nat} (pipe : Nat) (different : ends.1 ≠ ends.2) :
    descriptors.addPipe ends pipe ends.1 = some (.readEnd pipe) := by
  rw [addPipe, Function.update_of_ne different, Function.update_self]

theorem addPipe_apply_snd {ends : Nat × Nat} (pipe : Nat) :
    descriptors.addPipe ends pipe ends.2 = some (.writeEnd pipe) := by
  rw [addPipe, Function.update_self]

end Descriptors

/-! ### The invariant -/

/-- The counter is at least the number of open streams: a `my_popen` that fails after it
counted is not taken back. It is at most the number of children, whose pids differ. -/
structure Consistent (state : State) : Prop where
  allocated : state.fd_pid.isSome ↔ 0 < state.fd_pid_sum
  counted : (state.streams.length : Int) ≤ state.fd_pid_sum
  born : state.fd_pid_sum ≤ state.children.length
  pids : (state.children.map Child.pid).Nodup
  pidRange : ∀ child ∈ state.children, 0 < child.pid ∧ child.pid ≤ CInt.INT_MAX
  registered : ∀ stream ∈ state.streams, readTable state.fd_pid stream.fd = .ok stream.pid
  opened : ∀ stream ∈ state.streams, state.descriptors stream.fd ≠ none
  fds : (state.streams.map Stream.fd).Nodup
  files : (state.streams.map Stream.file).Nodup

theorem Initial.consistent {state : State} (initial : Initial state) : Consistent state where
  allocated := by simp [initial.fd_pid, initial.fd_pid_sum]
  counted := by simp [initial.streams, initial.fd_pid_sum]
  born := by simp [initial.children, initial.fd_pid_sum]
  pids := by simp [initial.children]
  pidRange := by simp [initial.children]
  registered := by simp [initial.streams]
  opened := by simp [initial.streams]
  fds := by simp [initial.streams]
  files := by simp [initial.streams]

namespace Consistent

variable {state : State}

/-- A free descriptor is not that of a stream. -/
theorem fresh (invariant : Consistent state) {fd : Nat} (free : state.descriptors fd = none) :
    ∀ stream ∈ state.streams, stream.fd ≠ fd := by
  rintro stream member rfl
  exact invariant.opened stream member free

theorem fd_pid_sum_nonneg (invariant : Consistent state) : 0 ≤ state.fd_pid_sum :=
  Int.le_trans (Int.natCast_nonneg _) invariant.counted

theorem children_length_le (invariant : Consistent state) :
    (state.children.length : Int) ≤ CInt.INT_MAX := by
  have nonneg : 0 ≤ CInt.INT_MAX := by decide
  exact KeyedList.length_le_of_nodup Child.pid nonneg invariant.pids invariant.pidRange

/-- New contents of the descriptors that are not those of streams. -/
theorem withDescriptors (invariant : Consistent state) {descriptors : Descriptors} (pipes : Nat)
    (opened : ∀ stream ∈ state.streams, descriptors stream.fd ≠ none) :
    Consistent { state with descriptors, pipes } :=
  { invariant with opened }

/-- A child with a pid of its own. -/
theorem addChild (invariant : Consistent state) (child : Child)
    (range : 0 < child.pid ∧ child.pid ≤ CInt.INT_MAX)
    (fresh : ∀ other ∈ state.children, other.pid ≠ child.pid) :
    Consistent { state with children := child :: state.children } where
  allocated := invariant.allocated
  counted := invariant.counted
  born := by
    have born := invariant.born
    simp only [List.length_cons]
    omega
  pids := by
    simp only [List.map_cons, List.nodup_cons, List.mem_map, not_exists, not_and]
    exact ⟨fresh, invariant.pids⟩
  pidRange := List.forall_mem_cons.mpr ⟨range, invariant.pidRange⟩
  registered := invariant.registered
  opened := invariant.opened
  fds := invariant.fds
  files := invariant.files

theorem wrap_succ (invariant : Consistent state)
    (room : state.fd_pid_sum < state.children.length) :
    CInt.wrap (state.fd_pid_sum + 1) = state.fd_pid_sum + 1 := by
  have nonneg := invariant.fd_pid_sum_nonneg
  have bound := invariant.children_length_le
  exact CInt.wrap_of_nonneg (by omega) (by omega)

/-- `fd_pid_sum++`, where a child was created that does not count yet. -/
theorem count (invariant : Consistent state) {calls : PopenCalls} {fd_pid : Option (List Int)}
    (room : state.fd_pid_sum < state.children.length)
    (entered : registry calls state = .ok fd_pid) :
    ∃ pids, fd_pid = some pids ∧
      Consistent { state with
        fd_pid
        fd_pid_sum := CInt.wrap (state.fd_pid_sum + 1) } := by
  have nonneg := invariant.fd_pid_sum_nonneg
  have wrapped := invariant.wrap_succ room
  have table : ∃ pids, fd_pid = some pids ∧
      ∀ stream ∈ state.streams, readTable fd_pid stream.fd = .ok stream.pid := by
    unfold registry at entered
    split_ifs at entered with empty
    · obtain ⟨pids, rfl⟩ : ∃ pids, fd_pid = some pids := by
        cases allocated : calls.malloc with
        | error errno => simp [allocated, Except.map] at entered
        | ok pids => exact ⟨pids, by simpa [allocated, Except.map] using entered.symm⟩
      have noStreams : state.streams = [] := by
        have counted := invariant.counted
        exact List.eq_nil_of_length_eq_zero (by omega)
      exact ⟨pids, rfl, by simp [noStreams]⟩
    · cases entered
      have isSome := invariant.allocated.mpr (by omega)
      obtain ⟨pids, table⟩ := Option.isSome_iff_exists.mp isSome
      exact ⟨pids, table, invariant.registered⟩
  obtain ⟨pids, rfl, registered⟩ := table
  have counted := invariant.counted
  refine ⟨pids, rfl, { invariant with allocated := ?_, counted := ?_, born := ?_, registered }⟩
  · simp only [Option.isSome_some, true_iff, wrapped]
    omega
  · simp only [wrapped]
    omega
  · simp only [wrapped]
    omega

/-- A stream enters the table. -/
theorem register (invariant : Consistent state) {pids : List Int}
    (table : state.fd_pid = some pids) (stream : Stream)
    (room : (state.streams.length : Int) < state.fd_pid_sum)
    (inside : stream.fd < pids.length) (isOpen : state.descriptors stream.fd ≠ none)
    (freshFd : ∀ other ∈ state.streams, other.fd ≠ stream.fd)
    (freshFile : ∀ other ∈ state.streams, other.file ≠ stream.file) :
    Consistent { state with
      fd_pid := some (pids.set stream.fd stream.pid)
      streams := stream :: state.streams } where
  allocated := by
    rw [← invariant.allocated, table]
    simp
  counted := by
    simp only [List.length_cons]
    omega
  born := invariant.born
  pids := invariant.pids
  pidRange := invariant.pidRange
  registered := by
    intro other member
    rcases List.mem_cons.mp member with rfl | member
    · simp [readTable, inside]
    · have registered := invariant.registered other member
      have different := freshFd other member
      rw [table] at registered
      simpa [readTable, List.getElem?_set, different.symm] using registered
  opened := List.forall_mem_cons.mpr ⟨isOpen, invariant.opened⟩
  fds := by
    simp only [List.map_cons, List.nodup_cons, List.mem_map, not_exists, not_and]
    exact ⟨freshFd, invariant.fds⟩
  files := by
    simp only [List.map_cons, List.nodup_cons, List.mem_map, not_exists, not_and]
    exact ⟨freshFile, invariant.files⟩

theorem wrap_pred (invariant : Consistent state) {stream : Stream}
    (member : stream ∈ state.streams) :
    CInt.wrap (state.fd_pid_sum - 1) = state.fd_pid_sum - 1 := by
  have nonempty : 0 < state.streams.length := List.length_pos_of_mem member
  have counted := invariant.counted
  have born := invariant.born
  have bound := invariant.children_length_le
  exact CInt.wrap_of_nonneg (by omega) (by omega)

/-- `fd_pid_sum--` for a stream that is closed; the table goes with the last one. -/
theorem unregister (invariant : Consistent state) {stream : Stream} {rest : List Stream}
    (split : state.streams.Perm (stream :: rest)) (closing : Closing) :
    Consistent { state with
      fd_pid := if CInt.wrap (state.fd_pid_sum - 1) = 0 then none else state.fd_pid
      fd_pid_sum := CInt.wrap (state.fd_pid_sum - 1)
      descriptors := state.descriptors.afterClose stream.fd closing
      streams := rest } := by
  have length := split.length_eq
  rw [List.length_cons] at length
  have counted := invariant.counted
  have born := invariant.born
  have wrapped := invariant.wrap_pred (split.mem_iff.mpr List.mem_cons_self)
  have members : ∀ other ∈ rest, other ∈ state.streams := fun other member =>
    split.mem_iff.mpr (List.mem_cons_of_mem stream member)
  have fds := (split.map Stream.fd).nodup_iff.mp invariant.fds
  have files := (split.map Stream.file).nodup_iff.mp invariant.files
  simp only [List.map_cons, List.nodup_cons, List.mem_map, not_exists, not_and] at fds files
  rw [wrapped]
  refine
    { invariant with
      allocated := ?_, counted := ?_, born := ?_, registered := ?_, opened := ?_
      fds := fds.2, files := files.2 }
  · dsimp only
    split_ifs with last
    · simp [last]
    · rw [invariant.allocated]
      omega
  · dsimp only
    omega
  · dsimp only
    omega
  · intro other member
    dsimp only
    rw [if_neg, invariant.registered other (members other member)]
    have nonempty : 0 < rest.length := List.length_pos_of_mem member
    omega
  · intro other member
    dsimp only
    rw [Descriptors.afterClose_apply_of_ne _ (fds.1 other member)]
    exact invariant.opened other (members other member)

/-- A child that was waited for no longer counts. -/
theorem reap (invariant : Consistent state) (room : state.fd_pid_sum < state.children.length)
    (pid : Int) :
    Consistent { state with
      children := state.children.eraseP fun child => child.pid = pid } :=
  { invariant with
    born := by
      dsimp only
      rw [List.length_eraseP]
      split_ifs <;> omega
    pids := invariant.pids.sublist ((List.eraseP_sublist).map Child.pid)
    pidRange := fun child member => invariant.pidRange child (List.mem_of_mem_eraseP member) }

end Consistent

/-! ### The functions -/

theorem ends_of_both (Holds : Nat → Prop) {is_pw : Bool} {fd : Nat × Nat} (first : Holds fd.1)
    (second : Holds fd.2) : Holds (parent_pipe_fd is_pw fd) ∧ Holds (unusedFd is_pw fd) := by
  cases is_pw with
  | false => exact ⟨first, second⟩
  | true => exact ⟨second, first⟩

theorem parent_ne_unused (is_pw : Bool) {fd : Nat × Nat} (different : fd.1 ≠ fd.2) :
    parent_pipe_fd is_pw fd ≠ unusedFd is_pw fd := by
  cases is_pw with
  | false => exact different
  | true => exact different.symm

theorem registry_error {calls : PopenCalls} {state : State} (invariant : Consistent state)
    {errno : Errno} (failed : registry calls state = .error errno) : state.fd_pid = none := by
  unfold registry at failed
  split_ifs at failed with empty
  have noTable := invariant.allocated.not.mpr (by omega)
  exact Option.not_isSome_iff_eq_none.mp noTable

/-- An end of the pipe that was just opened. -/
structure NewEnd (state : State) (fd : Nat) : Prop where
  isOpen : state.descriptors fd ≠ none
  fresh : ∀ stream ∈ state.streams, stream.fd ≠ fd

theorem popenParent_consistent {is_pw : Bool} {fd : Nat × Nat} {pipe : Nat} {child_pid : Int}
    {calls : PopenCalls} {state : State} (invariant : Consistent state)
    (room : state.fd_pid_sum < state.children.length) (different : fd.1 ≠ fd.2)
    (first : NewEnd state fd.1) (second : NewEnd state fd.2)
    (limit : ∀ pids, registry calls state = .ok (some pids) →
      fd.1 < pids.length ∧ fd.2 < pids.length)
    (freshFile : ∀ file, calls.fdopen = .ok file →
      ∀ stream ∈ state.streams, stream.file ≠ file) :
    ∃ result after, popenParent is_pw fd pipe child_pid calls state = .ok (result, after) ∧
      Consistent after := by
  unfold popenParent
  cases entered : registry calls state with
  | error errno =>
      refine ⟨_, _, rfl, ?_⟩
      rw [← registry_error invariant entered]
      exact invariant
  | ok fd_pid =>
      obtain ⟨pids, rfl, counted⟩ := invariant.count room entered
      obtain ⟨firstInside, secondInside⟩ := limit pids entered
      obtain ⟨parent, unused⟩ :
          NewEnd state (parent_pipe_fd is_pw fd) ∧ NewEnd state (unusedFd is_pw fd) :=
        ends_of_both (NewEnd state) first second
      have inside : parent_pipe_fd is_pw fd < pids.length :=
        (ends_of_both (· < pids.length) firstInside secondInside).1
      have distinct := parent_ne_unused is_pw different
      -- the streams keep their descriptors, whether the two ends are closed or leak
      have kept : ∀ stream ∈ state.streams,
          state.descriptors.afterClose (unusedFd is_pw fd) calls.firstClose stream.fd ≠ none := by
        intro stream member
        rw [Descriptors.afterClose_apply_of_ne _ (unused.fresh stream member)]
        exact invariant.opened stream member
      have keptBoth : ∀ stream ∈ state.streams,
          (state.descriptors.afterClose (unusedFd is_pw fd) calls.firstClose).afterClose
            (parent_pipe_fd is_pw fd) calls.secondClose stream.fd ≠ none := by
        intro stream member
        rw [Descriptors.afterClose_apply_of_ne _ (parent.fresh stream member)]
        exact kept stream member
      dsimp only
      split
      · exact ⟨_, _, rfl, counted.withDescriptors _ keptBoth⟩
      · exact ⟨_, _, rfl, counted.withDescriptors _ keptBoth⟩
      · rename_i file _ opened
        have isOpen : state.descriptors.afterClose (unusedFd is_pw fd) calls.firstClose
            (parent_pipe_fd is_pw fd) ≠ none := by
          rw [Descriptors.afterClose_apply_of_ne _ distinct]
          exact parent.isOpen
        have room : (state.streams.length : Int) < CInt.wrap (state.fd_pid_sum + 1) := by
          rw [invariant.wrap_succ room]
          have counted := invariant.counted
          omega
        have registered := (counted.withDescriptors state.pipes kept).register rfl
          ⟨file, parent_pipe_fd is_pw fd, is_pw, pipe, child_pid⟩ room inside isOpen parent.fresh
          (freshFile file opened)
        rw [writeTable, if_pos inside]
        exact ⟨_, _, rfl, registered⟩

theorem myPopen_consistent (command mode : CString) {calls : PopenCalls} {state : State}
    (invariant : Consistent state) (possible : calls.Possible state) :
    ∃ result after, myPopen command mode calls state = .ok (result, after) ∧
      Consistent after := by
  unfold myPopen
  split_ifs with badMode
  · exact ⟨_, _, rfl, invariant⟩
  cases piped : calls.pipe with
  | error errno => exact ⟨_, _, rfl, invariant⟩
  | ok fd =>
      obtain ⟨different, firstFree, secondFree⟩ := possible.pipe fd piped
      have freshFirst := invariant.fresh firstFree
      have freshSecond := invariant.fresh secondFree
      have kept : ∀ stream ∈ state.streams,
          state.descriptors.addPipe fd state.pipes stream.fd ≠ none := by
        intro stream member
        rw [Descriptors.addPipe_apply_of_ne _ _ (freshFirst stream member)
          (freshSecond stream member)]
        exact invariant.opened stream member
      dsimp only
      cases forked : calls.fork with
      | error errno =>
          refine ⟨_, _, rfl, invariant.withDescriptors _ ?_⟩
          intro stream member
          rw [Descriptors.afterClose_apply_of_ne _ (freshSecond stream member),
            Descriptors.afterClose_apply_of_ne _ (freshFirst stream member)]
          exact kept stream member
      | ok child_pid =>
          obtain ⟨positive, bounded, freshPid⟩ := possible.fork child_pid forked
          have opened := (invariant.withDescriptors (state.pipes + 1) kept).addChild
            ⟨child_pid, shellArguments ++ [command],
              childDescriptors (mode ≠ modeRead) fd calls.child
                (state.descriptors.addPipe fd state.pipes)⟩ ⟨positive, bounded⟩ freshPid
          have born := invariant.born
          refine popenParent_consistent opened ?_ different ⟨?_, freshFirst⟩ ⟨?_, freshSecond⟩
            ?_ possible.fdopen
          · simp only [List.length_cons]
            omega
          · simp [Descriptors.addPipe_apply_fst, different]
          · simp [Descriptors.addPipe_apply_snd]
          · exact fun pids entered => possible.limit fd pids piped entered

theorem myPclose_consistent {state : State} (invariant : Consistent state) {stream : Stream}
    (member : stream ∈ state.streams) (calls : PcloseCalls) :
    ∃ result after, myPclose stream.file calls state = .ok (result, after) ∧
      (after.streams = state.streams.eraseP fun other => other.file = stream.file) ∧
      (result.waited = if calls.fclose = .closed then some stream.pid else none) ∧
      Consistent after := by
  have found := KeyedList.find?_key Stream.file invariant.files member
  have split := KeyedList.perm_of_find? found
  have closed := invariant.unregister split calls.fclose
  rw [myPclose, found]
  dsimp only
  rw [invariant.registered stream member]
  cases fclosed : calls.fclose with
  | failed errno released => exact ⟨_, _, rfl, rfl, rfl, fclosed ▸ closed⟩
  | closed =>
      cases calls.waitpid with
      | error errno => exact ⟨_, _, rfl, rfl, rfl, fclosed ▸ closed⟩
      | ok status =>
          refine ⟨_, _, rfl, rfl, rfl, ?_⟩
          rw [fclosed] at closed
          cases status.terminated with
          | false => exact closed
          | true =>
              refine closed.reap ?_ stream.pid
              have born := invariant.born
              rw [invariant.wrap_pred member]
              dsimp only
              omega

theorem consistent_inductive : system.Inductive Consistent where
  init _ := Initial.consistent
  step before after invariant := by
    rintro ⟨call, possible, stepped⟩
    cases call with
    | popen command mode calls =>
        obtain ⟨result, next, ran, consistent⟩ := myPopen_consistent command mode invariant possible
        rw [step, ran] at stepped
        cases stepped
        exact consistent
    | pclose file calls =>
        obtain ⟨stream, member, rfl⟩ := possible
        obtain ⟨result, next, ran, -, -, consistent⟩ :=
          myPclose_consistent invariant member calls
        rw [step, ran] at stepped
        cases stepped
        exact consistent

/-- The stream that `my_popen` returns carries the pid of the child it created. -/
def Returns (calls : PopenCalls) (before after : List Stream) : Except Errno Nat → Prop
  | .error _ => after = before
  | .ok file => ∃ stream, after = stream :: before ∧ stream.file = file ∧
      calls.fork = .ok stream.pid

/-! ### How the two functions end -/

/-- The ways in which `popenParent` ends, and what it leaves. -/
inductive ParentEnds (is_pw : Bool) (fd : Nat × Nat) (pipe : Nat) (child_pid : Int)
    (calls : PopenCalls) (state : State) : Except Errno Nat → State → Prop where
  | noTable {errno : Errno} (failed : registry calls state = .error errno) :
      ParentEnds is_pw fd pipe child_pid calls state (.error errno) { state with fd_pid := none }
  /-- The unused end cannot be closed, or no stream can be made of the other one. -/
  | noStream {fd_pid : Option (List Int)} {errno : Errno}
      (entered : registry calls state = .ok fd_pid)
      (failed : calls.firstClose ≠ .closed ∨ ∃ reason, calls.fdopen = .error reason) :
      ParentEnds is_pw fd pipe child_pid calls state (.error errno)
        { state with
          fd_pid
          fd_pid_sum := CInt.wrap (state.fd_pid_sum + 1)
          descriptors :=
            (state.descriptors.afterClose (unusedFd is_pw fd) calls.firstClose).afterClose
              (parent_pipe_fd is_pw fd) calls.secondClose }
  | stream {fd_pid table : Option (List Int)} {file : Nat}
      (entered : registry calls state = .ok fd_pid) (closed : calls.firstClose = .closed)
      (opened : calls.fdopen = .ok file)
      (written : writeTable fd_pid (parent_pipe_fd is_pw fd) child_pid = .ok table) :
      ParentEnds is_pw fd pipe child_pid calls state (.ok file)
        { state with
          fd_pid := table
          fd_pid_sum := CInt.wrap (state.fd_pid_sum + 1)
          descriptors := state.descriptors.afterClose (unusedFd is_pw fd) calls.firstClose
          streams := ⟨file, parent_pipe_fd is_pw fd, is_pw, pipe, child_pid⟩ :: state.streams }

theorem popenParent_ends {is_pw : Bool} {fd : Nat × Nat} {pipe : Nat} {child_pid : Int}
    {calls : PopenCalls} {state after : State} {result : Except Errno Nat}
    (ran : popenParent is_pw fd pipe child_pid calls state = .ok (result, after)) :
    ParentEnds is_pw fd pipe child_pid calls state result after := by
  unfold popenParent at ran
  cases entered : registry calls state with
  | error errno =>
      rw [entered] at ran
      cases ran
      exact .noTable entered
  | ok fd_pid =>
      rw [entered] at ran
      dsimp only at ran
      split at ran
      case h_1 errno released failed =>
        cases ran
        exact .noStream entered (.inl (by simp [failed]))
      case h_2 errno closed failed =>
        cases ran
        exact .noStream entered (.inr ⟨errno, failed⟩)
      case h_3 file closed opened =>
        cases written : writeTable fd_pid (parent_pipe_fd is_pw fd) child_pid with
        | error fault =>
            rw [written] at ran
            cases ran
        | ok table =>
            rw [written] at ran
            cases ran
            exact .stream entered closed opened written

/-- The caller once the child is there. -/
def afterFork (command mode : CString) (fd : Nat × Nat) (child_pid : Int) (calls : PopenCalls)
    (state : State) : State :=
  { state with
    descriptors := state.descriptors.addPipe fd state.pipes
    children :=
      ⟨child_pid, shellArguments ++ [command],
        childDescriptors (mode ≠ modeRead) fd calls.child
          (state.descriptors.addPipe fd state.pipes)⟩ :: state.children
    pipes := state.pipes + 1 }

/-- The ways in which `my_popen` ends, and what it leaves. -/
inductive PopenEnds (command mode : CString) (calls : PopenCalls) (state : State) :
    Except Errno Nat → State → Prop where
  | badMode (bad : mode ≠ modeWrite ∧ mode ≠ modeRead) :
      PopenEnds command mode calls state (.error EINVAL) state
  | noPipe {errno : Errno} (piped : calls.pipe = .error errno) :
      PopenEnds command mode calls state (.error errno) state
  | noFork {fd : Nat × Nat} {reason errno : Errno}
      (good : ¬ (mode ≠ modeWrite ∧ mode ≠ modeRead)) (piped : calls.pipe = .ok fd)
      (forked : calls.fork = .error reason) :
      PopenEnds command mode calls state (.error errno)
        { state with
          descriptors :=
            ((state.descriptors.addPipe fd state.pipes).afterClose fd.1
              calls.firstClose).afterClose fd.2 calls.secondClose
          pipes := state.pipes + 1 }
  | forked {fd : Nat × Nat} {child_pid : Int} {result : Except Errno Nat} {after : State}
      (good : ¬ (mode ≠ modeWrite ∧ mode ≠ modeRead)) (piped : calls.pipe = .ok fd)
      (forked : calls.fork = .ok child_pid)
      (ends : ParentEnds (mode ≠ modeRead) fd state.pipes child_pid calls
        (afterFork command mode fd child_pid calls state) result after) :
      PopenEnds command mode calls state result after

theorem myPopen_ends {command mode : CString} {calls : PopenCalls} {state after : State}
    {result : Except Errno Nat}
    (ran : myPopen command mode calls state = .ok (result, after)) :
    PopenEnds command mode calls state result after := by
  unfold myPopen at ran
  split_ifs at ran with bad
  · cases ran
    exact .badMode bad
  cases piped : calls.pipe with
  | error errno =>
      rw [piped] at ran
      cases ran
      exact .noPipe piped
  | ok fd =>
      rw [piped] at ran
      dsimp only at ran
      cases forked : calls.fork with
      | error errno =>
          rw [forked] at ran
          cases ran
          exact .noFork bad piped forked
      | ok child_pid =>
          rw [forked] at ran
          exact .forked bad piped forked (popenParent_ends ran)

theorem myPopen_returns {command mode : CString} {calls : PopenCalls} {state after : State}
    {result : Except Errno Nat}
    (ran : myPopen command mode calls state = .ok (result, after)) :
    Returns calls state.streams after.streams result := by
  cases myPopen_ends ran with
  | badMode | noPipe | noFork => rfl
  | forked _ _ forked ends =>
      cases ends with
      | noTable | noStream => rfl
      | stream => exact ⟨_, rfl, rfl, forked⟩

/-- In every run every access to the table is inside it, and `my_pclose` waits for the child
that was created with the stream, unless `fclose` fails. -/
theorem myPclose_waits {state : State} (reachable : system.Reachable state) :
    (∀ command mode calls, calls.Possible state →
      ∃ result after, myPopen command mode calls state = .ok (result, after) ∧
        Returns calls state.streams after.streams result) ∧
    ∀ stream ∈ state.streams, ∀ calls,
      ∃ result after, myPclose stream.file calls state = .ok (result, after) ∧
        (after.streams = state.streams.eraseP fun other => other.file = stream.file) ∧
        result.waited = if calls.fclose = .closed then some stream.pid else none := by
  have invariant := consistent_inductive.holds reachable
  constructor
  · intro command mode calls possible
    obtain ⟨result, after, ran, -⟩ := myPopen_consistent command mode invariant possible
    exact ⟨result, after, ran, myPopen_returns ran⟩
  · intro stream member calls
    obtain ⟨result, after, ran, erased, waited, -⟩ :=
      myPclose_consistent invariant member calls
    exact ⟨result, after, ran, erased, waited⟩

/-- A process with three descriptors of its own. -/
def console : State where
  descriptors fd := if fd < 3 then some (.other fd) else none
  fd_pid := none
  fd_pid_sum := 0
  streams := []
  children := []
  pipes := 0

theorem console_initial : Initial console where
  descriptors fd file isOpen := by
    simp only [console, Option.ite_none_right_eq_some, Option.some.injEq] at isOpen
    exact ⟨fd, isOpen.2.symm⟩
  fd_pid := rfl
  fd_pid_sum := rfl
  streams := rfl
  children := rfl

/-- Calls that succeed except perhaps `fdopen`, in a process with a limit of 8. -/
def callsAt (fd : Nat × Nat) (pid : Int) (fdopen : Except Errno Nat) : PopenCalls where
  pipe := .ok fd
  fork := .ok pid
  child := ⟨true, true, true, true⟩
  malloc := .ok (List.replicate 8 0)
  firstClose := .closed
  fdopen := fdopen
  secondClose := .closed

theorem callsAt_possible {state : State} {fd : Nat × Nat} {pid : Int} {fdopen : Except Errno Nat}
    (different : fd.1 ≠ fd.2) (inside : fd.1 < 8 ∧ fd.2 < 8)
    (free : state.descriptors fd.1 = none ∧ state.descriptors fd.2 = none)
    (range : 0 < pid ∧ pid ≤ CInt.INT_MAX) (freshPid : ∀ child ∈ state.children, child.pid ≠ pid)
    (table : ∀ pids, state.fd_pid = some pids → pids.length = 8)
    (freshFile : ∀ file, fdopen = .ok file → ∀ stream ∈ state.streams, stream.file ≠ file) :
    (callsAt fd pid fdopen).Possible state where
  pipe fd' piped := by
    cases piped
    exact ⟨different, free⟩
  limit fd' pids piped entered := by
    cases piped
    have length : pids.length = 8 := by
      unfold registry at entered
      split_ifs at entered
      · cases entered
        exact List.length_replicate
      · exact table pids (Except.ok.inj entered)
    rwa [length]
  fork pid' forked := by
    cases forked
    exact ⟨range.1, range.2, freshPid⟩
  fdopen := freshFile

/-- A call that fails in `fdopen`, and one that gets the same descriptors. -/
def reused : State :=
  ((runLabels step [.popen [] modeWrite (callsAt (3, 4) 100 (.error 12)),
    .popen [] modeWrite (callsAt (3, 4) 101 (.ok 50))]) console).getD console

theorem myPclose_waits_reused :
    ∃ result after, myPclose 50 ⟨.closed, .ok ⟨0, true⟩⟩ reused = .ok (result, after) ∧
      result.waited = some 101 := by
  have start : system.Reachable console := .of_init console_initial
  have first := start.tail ⟨.popen [] modeWrite (callsAt (3, 4) 100 (.error 12)),
    callsAt_possible (by decide) (by decide) (by decide) (by decide) (by simp [console])
      (by simp [console]) (by simp), rfl⟩
  have second : system.Reachable reused := first.tail
    ⟨.popen [] modeWrite (callsAt (3, 4) 101 (.ok 50)),
      callsAt_possible (by decide) (by decide) (by decide) (by decide) (by simp [console])
        (by simp) (by simp [console]), rfl⟩
  obtain ⟨result, after, ran, -, waited⟩ := (myPclose_waits second).2
    ⟨50, 4, true, 1, 101⟩ List.mem_cons_self ⟨.closed, .ok ⟨0, true⟩⟩
  exact ⟨result, after, ran, waited⟩

end LinuxProgramming.Popen
