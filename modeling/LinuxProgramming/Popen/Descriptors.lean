import LinuxProgramming.Popen.Table

/-!
Contract: what the children of `my_popen` inherit when all calls succeed.

Owns:
- the descriptors with which a child executes its command;
- whose pipes the descriptors of the caller and of its children lead to, in every run;
- when no child keeps the caller's end of an open stream, and the end-of-file that follows;
- when a child has its end of the pipe where its command looks for it.

Does not own: a command that opens or passes on descriptors itself.
-/

namespace LinuxProgramming.Popen

open LinuxProgramming.Library

/-! ### Calls that succeed -/

structure PopenCalls.Succeed (calls : PopenCalls) : Prop where
  pipe : ∃ fd, calls.pipe = .ok fd
  fork : ∃ pid, calls.fork = .ok pid
  child : calls.child = ⟨true, true, true, true⟩
  malloc : ∃ pids, calls.malloc = .ok pids
  firstClose : calls.firstClose = .closed
  fdopen : ∃ file, calls.fdopen = .ok file

structure PcloseCalls.Succeed (calls : PcloseCalls) : Prop where
  fclose : calls.fclose = .closed
  waitpid : ∃ status, calls.waitpid = .ok status

def Call.Succeeds : Call → Prop
  | .popen _ _ calls => calls.Succeed
  | .pclose _ calls => calls.Succeed

/-- Runs in which all calls succeed. -/
def succeeding : TransitionSystem State :=
  labelledWhen Initial step fun call state => call.Possible state ∧ call.Succeeds

/-! ### The child -/

/-- The end of the pipe that the caller keeps, and the one for the child. -/
def callerEnd (is_pw : Bool) (pipe : Nat) : File :=
  if is_pw then .writeEnd pipe else .readEnd pipe

def childEnd (is_pw : Bool) (pipe : Nat) : File :=
  if is_pw then .readEnd pipe else .writeEnd pipe

/-- The descriptors that `dup2` replaces in the child. -/
def replaced (is_pw : Bool) : List Nat :=
  if is_pw then [STDIN_FILENO] else [STDOUT_FILENO, STDERR_FILENO]

/-- The descriptors at `execl`: those of the caller, apart from the ends of the new pipe
and from the descriptors that were replaced. -/
def inherited (is_pw : Bool) (fd : Nat × Nat) (pipe : Nat) (descriptors : Descriptors) :
    Descriptors := fun other =>
  if other = unusedFd is_pw fd then none
  else if other ∈ replaced is_pw then some (childEnd is_pw pipe)
  else if other = parent_pipe_fd is_pw fd then none
  else descriptors other

theorem childDescriptors_eq (is_pw : Bool) {fd : Nat × Nat} (different : fd.1 ≠ fd.2)
    (descriptors : Descriptors) (pipe : Nat) :
    childDescriptors is_pw fd ⟨true, true, true, true⟩ (descriptors.addPipe fd pipe) =
      some (inherited is_pw fd pipe descriptors) := by
  cases is_pw with
  | true =>
      have writes : childDescriptors true fd ⟨true, true, true, true⟩
          (descriptors.addPipe fd pipe) =
          some ((((descriptors.addPipe fd pipe).close fd.2).dup2 fd.1 STDIN_FILENO).close fd.1) :=
        rfl
      rw [writes, Option.some.injEq]
      funext other
      simp only [Descriptors.close, Descriptors.dup2, Descriptors.addPipe, Function.update_apply,
        inherited, unusedFd, parent_pipe_fd, replaced, childEnd, ↓reduceIte, List.mem_singleton,
        different]
      grind
  | false =>
      have writes : childDescriptors false fd ⟨true, true, true, true⟩
          (descriptors.addPipe fd pipe) =
          some (((((descriptors.addPipe fd pipe).close fd.1).dup2 fd.2 STDOUT_FILENO).dup2 fd.2
            STDERR_FILENO).close fd.2) :=
        rfl
      rw [writes, Option.some.injEq]
      funext other
      simp only [Descriptors.close, Descriptors.dup2, Descriptors.addPipe, Function.update_apply,
        inherited, unusedFd, parent_pipe_fd, replaced, childEnd, ↓reduceIte,
        different.symm]
      grind

/-- What a new child holds was the caller's, apart from its own end. -/
theorem inherited_cases {is_pw : Bool} {fd : Nat × Nat} {other pipe : Nat} {file : File}
    {descriptors : Descriptors} (holds : inherited is_pw fd pipe descriptors other = some file) :
    file = childEnd is_pw pipe ∨ other ∉ replaced is_pw ∧ descriptors other = some file := by
  unfold inherited at holds
  split_ifs at holds with isUnused isReplaced isParent
  · exact .inl (Option.some.inj holds).symm
  · exact .inr ⟨isReplaced, holds⟩

theorem ne_of_free {descriptors : Descriptors} {fd other : Nat} {file : File}
    (holds : descriptors fd = some file) (free : descriptors other = none) : fd ≠ other := by
  rintro rfl
  rw [free] at holds
  cases holds

/-- The descriptors of the caller once it has closed the end for the child. -/
theorem callerDescriptors_apply (is_pw : Bool) (fd : Nat × Nat) (descriptors : Descriptors)
    (pipe other : Nat) :
    (descriptors.addPipe fd pipe).close (unusedFd is_pw fd) other =
      if other = unusedFd is_pw fd then none
      else if other = parent_pipe_fd is_pw fd then some (callerEnd is_pw pipe)
      else descriptors other := by
  simp only [Descriptors.close, Descriptors.addPipe, Function.update_apply]
  cases is_pw with
  | true => grind [unusedFd, parent_pipe_fd, callerEnd]
  | false => grind [unusedFd, parent_pipe_fd, callerEnd]

/-! ### What a call changes -/

/-- What a successful `my_popen` adds. -/
structure Opened (is_pw : Bool) (fd : Nat × Nat) (stream : Stream) (child : Child)
    (before after : State) : Prop where
  stream_fd : stream.fd = parent_pipe_fd is_pw fd
  stream_is_pw : stream.is_pw = is_pw
  stream_pipe : stream.pipe = before.pipes
  child_descriptors : child.descriptors = some (inherited is_pw fd before.pipes before.descriptors)
  streams : after.streams = stream :: before.streams
  children : after.children = child :: before.children
  pipes : after.pipes = before.pipes + 1
  descriptors : after.descriptors =
    (before.descriptors.addPipe fd before.pipes).close (unusedFd is_pw fd)

theorem registry_succeeds {calls : PopenCalls} (succeed : calls.Succeed) (state : State) :
    ∃ fd_pid, registry calls state = .ok fd_pid := by
  obtain ⟨pids, allocated⟩ := succeed.malloc
  rw [registry, allocated]
  split_ifs
  · exact ⟨some pids, rfl⟩
  · exact ⟨state.fd_pid, rfl⟩

theorem popen_cases {command mode : CString} {calls : PopenCalls} {before after : State}
    (possible : calls.Possible before) (succeed : calls.Succeed)
    (stepped : step (.popen command mode calls) before = some after) :
    (mode ≠ modeWrite ∧ mode ≠ modeRead) ∧ after = before ∨
      (mode = modeWrite ∨ mode = modeRead) ∧ ∃ fd stream child,
        calls.pipe = .ok fd ∧ Opened (mode ≠ modeRead) fd stream child before after := by
  obtain ⟨fd, piped⟩ := succeed.pipe
  obtain ⟨pid, forked⟩ := succeed.fork
  obtain ⟨file, opened⟩ := succeed.fdopen
  rw [step, myPopen] at stepped
  split_ifs at stepped with badMode
  · cases stepped
    exact .inl ⟨badMode, rfl⟩
  right
  refine ⟨by tauto, fd, ?_⟩
  simp only [piped, forked, popenParent, succeed.firstClose, succeed.child, opened] at stepped
  generalize decide (mode ≠ modeRead) = is_pw at stepped ⊢
  obtain ⟨fd_pid, entered⟩ := registry_succeeds succeed before
  simp only [registry] at entered stepped
  rw [entered] at stepped
  dsimp only at stepped
  cases written : writeTable fd_pid (parent_pipe_fd is_pw fd) pid with
  | error fault =>
      rw [written] at stepped
      cases stepped
  | ok table =>
      rw [written] at stepped
      cases stepped
      exact ⟨_, _, piped, rfl, rfl, rfl,
        childDescriptors_eq is_pw (possible.pipe fd piped).1 before.descriptors before.pipes,
        rfl, rfl, rfl, rfl⟩

/-- A successful `my_pclose`. -/
structure Closed (stream : Stream) (before after : State) : Prop where
  streams : before.streams.Perm (stream :: after.streams)
  children : after.children ⊆ before.children
  pipes : after.pipes = before.pipes
  descriptors : after.descriptors = before.descriptors.close stream.fd

theorem pclose_cases {file : Nat} {calls : PcloseCalls} {before after : State}
    (succeed : calls.Succeed) (stepped : step (.pclose file calls) before = some after) :
    ∃ stream, stream.file = file ∧ Closed stream before after := by
  obtain ⟨status, waited⟩ := succeed.waitpid
  rw [step, myPclose] at stepped
  split at stepped
  · cases stepped
  rename_i stream found
  cases entered : readTable before.fd_pid stream.fd with
  | error fault =>
      rw [entered] at stepped
      cases stepped
  | ok child_pid =>
      rw [entered] at stepped
      simp only [succeed.fclose, waited] at stepped
      cases stepped
      refine ⟨stream, by simpa using List.find?_some found,
        KeyedList.perm_of_find? found, ?_, rfl, rfl⟩
      dsimp only
      split_ifs
      · exact List.eraseP_subset
      · exact List.Subset.refl _

/-! ### Whose pipes -/

/-- The pipe that a file is an end of. -/
def File.pipe? : File → Option Nat
  | .readEnd pipe | .writeEnd pipe => some pipe
  | .other _ => none

@[simp] theorem pipe?_callerEnd (is_pw : Bool) (pipe : Nat) :
    (callerEnd is_pw pipe).pipe? = some pipe := by
  cases is_pw <;> rfl

@[simp] theorem pipe?_childEnd (is_pw : Bool) (pipe : Nat) :
    (childEnd is_pw pipe).pipe? = some pipe := by
  cases is_pw <;> rfl

theorem callerEnd_ne_childEnd (is_pw : Bool) (pipe other : Nat) :
    callerEnd is_pw pipe ≠ childEnd is_pw other := by
  cases is_pw <;> nofun

/-- The caller's end of a stream's pipe. -/
def Stream.parentEnd (stream : Stream) : File := callerEnd stream.is_pw stream.pipe

/-- The caller holds its end of the pipe of every open stream, once, and no other pipe. The
children know none of the pipes to come. -/
structure Held (state : State) : Prop where
  caller : ∀ fd file, state.descriptors fd = some file → file.pipe? = none ∨
    ∃ stream ∈ state.streams, stream.fd = fd ∧ stream.parentEnd = file
  streams : ∀ stream ∈ state.streams, state.descriptors stream.fd = some stream.parentEnd
  below : ∀ stream ∈ state.streams, stream.pipe < state.pipes
  pipes : (state.streams.map Stream.pipe).Nodup
  children : ∀ child ∈ state.children, ∀ descriptors, child.descriptors = some descriptors →
    ∀ fd file, descriptors fd = some file → ∀ pipe ∈ file.pipe?, pipe < state.pipes

theorem Initial.held {state : State} (initial : Initial state) : Held state where
  caller fd file isOpen := by
    obtain ⟨number, rfl⟩ := initial.descriptors fd file isOpen
    exact .inl rfl
  streams := by simp [initial.streams]
  below := by simp [initial.streams]
  pipes := by simp [initial.streams]
  children := by simp [initial.children]

namespace Held

variable {before after : State}

/-- The caller holds no pipe that is still to come. -/
theorem lt_pipes (held : Held before) {fd : Nat} {file : File} {pipe : Nat}
    (isOpen : before.descriptors fd = some file) (isEnd : file.pipe? = some pipe) :
    pipe < before.pipes := by
  rcases held.caller fd file isOpen with noPipe | ⟨stream, member, -, rfl⟩
  · rw [noPipe] at isEnd
    cases isEnd
  · rw [Stream.parentEnd, pipe?_callerEnd, Option.some.injEq] at isEnd
    exact isEnd ▸ held.below stream member

/-- It holds its end of a stream's pipe at the descriptor of that stream only. -/
theorem eq_fd (held : Held before) {fd : Nat} {stream : Stream} (member : stream ∈ before.streams)
    (isOpen : before.descriptors fd = some stream.parentEnd) : fd = stream.fd := by
  rcases held.caller fd _ isOpen with noPipe | ⟨other, isOther, rfl, same⟩
  · simp [Stream.parentEnd] at noPipe
  · have samePipe : other.pipe = stream.pipe := by
      simpa [Stream.parentEnd] using congrArg File.pipe? same
    rw [List.inj_on_of_nodup_map held.pipes isOther member samePipe]

theorem popen (held : Held before) {is_pw : Bool} {fd : Nat × Nat} {stream : Stream}
    {child : Child} (different : fd.1 ≠ fd.2)
    (free : before.descriptors fd.1 = none ∧ before.descriptors fd.2 = none)
    (opened : Opened is_pw fd stream child before after) : Held after := by
  obtain ⟨freeParent, freeUnused⟩ : before.descriptors (parent_pipe_fd is_pw fd) = none ∧
      before.descriptors (unusedFd is_pw fd) = none :=
    ends_of_both (fun fd => before.descriptors fd = none) free.1 free.2
  have stream_end : stream.parentEnd = callerEnd is_pw before.pipes := by
    rw [Stream.parentEnd, opened.stream_is_pw, opened.stream_pipe]
  refine ⟨?_, ?_, ?_, ?_, ?_⟩
  · intro other file isOpen
    rw [opened.descriptors, callerDescriptors_apply] at isOpen
    split_ifs at isOpen with isUnused isParent
    · right
      refine ⟨stream, opened.streams ▸ List.mem_cons_self, opened.stream_fd.trans isParent.symm, ?_⟩
      rw [stream_end]
      exact Option.some.inj isOpen
    · apply (held.caller other file isOpen).imp_right
      rintro ⟨old, member, isFd, isEnd⟩
      exact ⟨old, opened.streams ▸ List.mem_cons_of_mem stream member, isFd, isEnd⟩
  · rw [opened.streams, opened.descriptors]
    refine List.forall_mem_cons.mpr ⟨?_, ?_⟩
    · rw [callerDescriptors_apply, opened.stream_fd, if_neg (parent_ne_unused is_pw different),
        if_pos rfl, stream_end]
    · intro old member
      have holds := held.streams old member
      rw [callerDescriptors_apply, if_neg (ne_of_free holds freeUnused),
        if_neg (ne_of_free holds freeParent), holds]
  · rw [opened.streams, opened.pipes]
    refine List.forall_mem_cons.mpr ⟨?_, fun old member => ?_⟩
    · rw [opened.stream_pipe]
      exact Nat.lt_succ_self _
    · exact Nat.lt_succ_of_lt (held.below old member)
  · rw [opened.streams, List.map_cons, List.nodup_cons]
    refine ⟨?_, held.pipes⟩
    intro reused
    obtain ⟨old, member, same⟩ := List.mem_map.mp reused
    have below := held.below old member
    rw [same, opened.stream_pipe] at below
    exact Nat.lt_irrefl _ below
  · rw [opened.children, opened.pipes]
    refine List.forall_mem_cons.mpr ⟨?_, ?_⟩
    · intro descriptors executes other file isOpen pipe isEnd
      rw [opened.child_descriptors, Option.some.injEq] at executes
      subst executes
      rcases inherited_cases isOpen with rfl | ⟨-, isOpen⟩
      · rw [pipe?_childEnd, Option.mem_some_iff] at isEnd
        exact isEnd ▸ Nat.lt_succ_self _
      · exact Nat.lt_succ_of_lt (held.lt_pipes isOpen isEnd)
    · intro old member descriptors executes other file isOpen pipe isEnd
      exact Nat.lt_succ_of_lt
        (held.children old member descriptors executes other file isOpen pipe isEnd)

theorem pclose (held : Held before) {stream : Stream} (closed : Closed stream before after) :
    Held after := by
  have members : ∀ other ∈ after.streams, other ∈ before.streams := fun other member =>
    closed.streams.mem_iff.mpr (List.mem_cons_of_mem stream member)
  have isStream : stream ∈ before.streams := closed.streams.mem_iff.mpr List.mem_cons_self
  have pipes := (closed.streams.map Stream.pipe).nodup_iff.mp held.pipes
  rw [List.map_cons, List.nodup_cons] at pipes
  refine ⟨?_, ?_, ?_, pipes.2, ?_⟩
  · intro fd file isOpen
    rw [closed.descriptors, Descriptors.close, Function.update_apply] at isOpen
    split_ifs at isOpen with isClosed
    apply (held.caller fd file isOpen).imp_right
    rintro ⟨other, member, isFd, isEnd⟩
    refine ⟨other, ?_, isFd, isEnd⟩
    apply (List.mem_cons.mp (closed.streams.mem_iff.mp member)).resolve_left
    rintro rfl
    exact isClosed isFd.symm
  · intro other member
    rw [closed.descriptors, Descriptors.close_apply_of_ne,
      held.streams other (members other member)]
    intro sameFd
    -- two streams with one descriptor would have one pipe
    have holds := held.streams other (members other member)
    rw [sameFd, held.streams stream isStream, Option.some.injEq] at holds
    have samePipe : stream.pipe = other.pipe := by
      simpa [Stream.parentEnd] using congrArg File.pipe? holds
    exact pipes.1 (samePipe ▸ List.mem_map_of_mem member)
  · intro other member
    rw [closed.pipes]
    exact held.below other (members other member)
  · intro child member
    rw [closed.pipes]
    exact held.children child (closed.children member)

end Held
theorem held_inductive : succeeding.Inductive Held where
  init _ := Initial.held
  step before after held := by
    rintro ⟨call, ⟨possible, succeed⟩, stepped⟩
    cases call with
    | popen command mode calls =>
        rcases popen_cases possible succeed stepped with
          ⟨-, rfl⟩ | ⟨-, fd, stream, child, piped, opened⟩
        · exact held
        · obtain ⟨different, free⟩ := possible.pipe fd piped
          exact held.popen different free opened
    | pclose file calls =>
        obtain ⟨stream, -, closed⟩ := pclose_cases succeed stepped
        exact held.pclose closed

/-! ### What the children inherit -/

/-- No child executes its command with the caller's end of an open stream. -/
def NoneInherits (state : State) : Prop :=
  ∀ child ∈ state.children, ∀ descriptors, child.descriptors = some descriptors →
    ∀ stream ∈ state.streams, ∀ fd, descriptors fd ≠ some stream.parentEnd

/-- When `my_pclose` has closed a stream that was written to, neither the caller nor a child
can write to its pipe, whose reader then gets end-of-file. -/
def GivesEndOfFile (state : State) : Prop :=
  ∀ stream ∈ state.streams, stream.is_pw = true → ∀ calls : PcloseCalls, calls.Succeed →
    ∃ result after, myPclose stream.file calls state = .ok (result, after) ∧
      (∀ fd, after.descriptors fd ≠ some (.writeEnd stream.pipe)) ∧
      ∀ child ∈ state.children, ∀ descriptors, child.descriptors = some descriptors →
        ∀ fd, descriptors fd ≠ some (.writeEnd stream.pipe)

/-- Every open stream has a descriptor that the new child replaces. -/
def Call.Separate (state : State) : Call → Prop
  | .popen _ mode _ => mode = modeWrite ∨ mode = modeRead →
      ∀ stream ∈ state.streams, stream.fd ∈ replaced (mode ≠ modeRead)
  | .pclose _ _ => True

/-- Runs in which all calls succeed and all children are separate. -/
def separating : TransitionSystem State :=
  labelledWhen Initial step fun call state =>
    (call.Possible state ∧ call.Succeeds) ∧ call.Separate state

theorem succeeding_of_separating {state : State} (reachable : separating.Reachable state) :
    succeeding.Reachable state :=
  reachable_mono (fun _ _ => And.left) reachable

theorem system_of_succeeding {state : State} (reachable : succeeding.Reachable state) :
    system.Reachable state :=
  reachable_mono (fun _ _ => And.left) reachable

theorem noneInherits_popen {is_pw : Bool} {fd : Nat × Nat} {stream : Stream} {child : Child}
    {before after : State} (held : Held before) (none : NoneInherits before)
    (separate : ∀ stream ∈ before.streams, stream.fd ∈ replaced is_pw)
    (opened : Opened is_pw fd stream child before after) : NoneInherits after := by
  have stream_end : stream.parentEnd = callerEnd is_pw before.pipes := by
    rw [Stream.parentEnd, opened.stream_is_pw, opened.stream_pipe]
  rw [NoneInherits, opened.children, opened.streams]
  refine List.forall_mem_cons.mpr ⟨?_, ?_⟩
  · intro descriptors executes
    rw [opened.child_descriptors, Option.some.injEq] at executes
    subst executes
    refine List.forall_mem_cons.mpr ⟨?_, ?_⟩
    · intro other holds
      rw [stream_end] at holds
      rcases inherited_cases holds with same | ⟨-, isOpen⟩
      · exact callerEnd_ne_childEnd _ _ _ same
      · exact Nat.lt_irrefl _ (held.lt_pipes isOpen (pipe?_callerEnd _ _))
    · intro old member other holds
      rcases inherited_cases holds with same | ⟨notReplaced, isOpen⟩
      · have samePipe : old.pipe = before.pipes := by
          simpa [Stream.parentEnd] using congrArg File.pipe? same
        exact Nat.ne_of_lt (held.below old member) samePipe
      · exact notReplaced (held.eq_fd member isOpen ▸ separate old member)
  · intro old member descriptors executes
    refine List.forall_mem_cons.mpr ⟨?_, none old member descriptors executes⟩
    intro other holds
    have below := held.children old member descriptors executes other _ holds before.pipes
    rw [stream_end, pipe?_callerEnd] at below
    exact Nat.lt_irrefl _ (below rfl)

theorem noneInherits_pclose {stream : Stream} {before after : State}
    (none : NoneInherits before) (closed : Closed stream before after) : NoneInherits after := by
  intro child isChild descriptors executes other member
  exact none child (closed.children isChild) descriptors executes other
    (closed.streams.mem_iff.mpr (List.mem_cons_of_mem stream member))

theorem noneInherits_inductive :
    separating.Inductive fun state => Held state ∧ NoneInherits state where
  init state initial := by
    refine ⟨initial.held, ?_⟩
    rw [NoneInherits, initial.children]
    exact fun child member => absurd member List.not_mem_nil
  step before after invariant := by
    rintro ⟨call, ⟨⟨possible, succeed⟩, separate⟩, stepped⟩
    have held := held_inductive.step before after invariant.1 ⟨call, ⟨possible, succeed⟩, stepped⟩
    refine ⟨held, ?_⟩
    cases call with
    | popen command mode calls =>
        rcases popen_cases possible succeed stepped with
          ⟨-, rfl⟩ | ⟨goodMode, fd, stream, child, -, opened⟩
        · exact invariant.2
        · exact noneInherits_popen invariant.1 invariant.2 (separate goodMode) opened
    | pclose file calls =>
        obtain ⟨stream, -, closed⟩ := pclose_cases succeed stepped
        exact noneInherits_pclose invariant.2 closed

/-- A child that is not separate has the caller's end of an open stream. -/
theorem not_noneInherits {command mode : CString} {calls : PopenCalls} {before after : State}
    (held : Held before) (possible : calls.Possible before) (succeed : calls.Succeed)
    (together : ¬ (Call.popen command mode calls).Separate before)
    (stepped : step (.popen command mode calls) before = some after) : ¬ NoneInherits after := by
  simp only [Call.Separate, Classical.not_imp, not_forall] at together
  obtain ⟨goodMode, stream, member, notReplaced⟩ := together
  rcases popen_cases possible succeed stepped with
    ⟨⟨notWrite, notRead⟩, -⟩ | ⟨-, fd, opening, child, piped, opened⟩
  · exact absurd goodMode (by tauto)
  intro none
  have holds := held.streams stream member
  obtain ⟨different, firstFree, secondFree⟩ := possible.pipe fd piped
  obtain ⟨freeParent, freeUnused⟩ : before.descriptors (parent_pipe_fd _ fd) = Option.none ∧
      before.descriptors (unusedFd (mode ≠ modeRead) fd) = Option.none :=
    ends_of_both (fun fd => before.descriptors fd = Option.none) firstFree secondFree
  refine none child (opened.children ▸ List.mem_cons_self) _ opened.child_descriptors stream
    (opened.streams ▸ List.mem_cons_of_mem opening member) stream.fd ?_
  rw [inherited, if_neg (ne_of_free holds freeUnused), if_neg notReplaced,
    if_neg (ne_of_free holds freeParent), holds]

theorem givesEndOfFile {state : State} (consistent : Consistent state) (held : Held state)
    (none : NoneInherits state) : GivesEndOfFile state := by
  intro stream member isWriter calls succeed
  have isEnd : stream.parentEnd = .writeEnd stream.pipe := by
    rw [Stream.parentEnd, isWriter]
    rfl
  obtain ⟨result, after, ran, -⟩ := myPclose_consistent consistent member calls
  have stepped : step (.pclose stream.file calls) state = some after := by
    rw [step, ran]
    rfl
  obtain ⟨closing, sameFile, closed⟩ := pclose_cases succeed stepped
  have isClosing : closing ∈ state.streams := closed.streams.mem_iff.mpr List.mem_cons_self
  obtain rfl : closing = stream :=
    List.inj_on_of_nodup_map consistent.files isClosing member sameFile
  refine ⟨result, after, ran, ?_, ?_⟩
  · intro fd holds
    rw [closed.descriptors, Descriptors.close, Function.update_apply] at holds
    split_ifs at holds with isClosed
    exact isClosed (held.eq_fd member (isEnd ▸ holds))
  · intro child isChild descriptors executes fd holds
    exact none child isChild descriptors executes closing member fd (isEnd ▸ holds)

/-- The children are separate, and a closed stream gives end-of-file, in every run in which
each open stream has a descriptor that the next child replaces. Any other `my_popen` creates
a child that keeps the caller's end of an open stream. -/
theorem myPopen_separate (state : State) :
    (separating.Reachable state → NoneInherits state ∧ GivesEndOfFile state) ∧
      (succeeding.Reachable state → ∀ command mode calls after,
        calls.Possible state → calls.Succeed →
        step (.popen command mode calls) state = some after →
        ¬ (Call.popen command mode calls).Separate state → ¬ NoneInherits after) := by
  constructor
  · intro reachable
    obtain ⟨held, none⟩ := noneInherits_inductive.holds reachable
    have consistent := consistent_inductive.holds
      (system_of_succeeding (succeeding_of_separating reachable))
    exact ⟨none, givesEndOfFile consistent held none⟩
  · intro reachable command mode calls after possible succeed stepped together
    exact not_noneInherits (held_inductive.holds reachable) possible succeed together stepped

theorem callsAt_succeed (fd : Nat × Nat) (pid : Int) (file : Nat) :
    (callsAt fd pid (.ok file)).Succeed where
  pipe := ⟨fd, rfl⟩
  fork := ⟨pid, rfl⟩
  child := rfl
  malloc := ⟨_, rfl⟩
  firstClose := rfl
  fdopen := ⟨file, rfl⟩

/-- A stream to write to. -/
def oneStream : State :=
  (step (.popen [] modeWrite (callsAt (3, 4) 100 (.ok 50))) console).getD console

theorem oneStream_possible : (callsAt (3, 4) 100 (.ok 50)).Possible console :=
  callsAt_possible (by decide) (by decide) (by decide) (by decide) (by simp [console])
    (by simp [console]) (by simp [console])

theorem myPopen_separate_oneStream : NoneInherits oneStream ∧ GivesEndOfFile oneStream := by
  apply (myPopen_separate oneStream).1
  have start : separating.Reachable console := .of_init console_initial
  exact start.tail ⟨.popen [] modeWrite (callsAt (3, 4) 100 (.ok 50)),
    ⟨⟨oneStream_possible, callsAt_succeed _ _ _⟩, by simp [Call.Separate, console]⟩, rfl⟩

/-- A second one, whose child has the descriptor 4 of the first. -/
def twoStreams : State :=
  (step (.popen [] modeWrite (callsAt (3, 5) 101 (.ok 51))) oneStream).getD oneStream

theorem myPopen_inherits :
    ∃ state, succeeding.Reachable state ∧ ¬ NoneInherits state ∧ ¬ GivesEndOfFile state := by
  have start : succeeding.Reachable console := .of_init console_initial
  have first : succeeding.Reachable oneStream := start.tail
    ⟨.popen [] modeWrite (callsAt (3, 4) 100 (.ok 50)),
      ⟨oneStream_possible, callsAt_succeed _ _ _⟩, rfl⟩
  have possible : (callsAt (3, 5) 101 (.ok 51)).Possible oneStream := by
    refine callsAt_possible (by decide) (by decide) (by decide) (by decide) ?_ ?_ ?_
    · exact List.forall_mem_singleton.mpr (by decide)
    · rintro pids ⟨⟩
      rfl
    · rintro file ⟨⟩
      exact List.forall_mem_singleton.mpr (by decide)
  refine ⟨twoStreams, first.tail ⟨.popen [] modeWrite (callsAt (3, 5) 101 (.ok 51)),
    ⟨possible, callsAt_succeed _ _ _⟩, rfl⟩, ?_, ?_⟩
  · intro none
    exact none _ List.mem_cons_self _ rfl ⟨50, 4, true, 0, 100⟩
      (List.mem_cons_of_mem _ List.mem_cons_self) 4 rfl
  · intro ends
    obtain ⟨result, after, -, -, children⟩ := ends ⟨50, 4, true, 0, 100⟩
      (List.mem_cons_of_mem _ List.mem_cons_self) rfl ⟨.closed, .ok ⟨0, true⟩⟩ ⟨rfl, _, rfl⟩
    exact children _ List.mem_cons_self _ rfl 4 rfl

/-! ### The standard descriptors of the child -/

/-- What `pipe` gives: the two lowest free descriptors. -/
structure LowestFree (descriptors : Descriptors) (fd : Nat × Nat) : Prop where
  ordered : fd.1 < fd.2
  free : descriptors fd.1 = none ∧ descriptors fd.2 = none
  taken : ∀ other < fd.2, other ≠ fd.1 → descriptors other ≠ none

/-- The command has its end of the pipe in its standard descriptors, and nothing else of it. -/
structure Connected (is_pw : Bool) (pipe : Nat) (descriptors : Descriptors) : Prop where
  standard : ∀ fd ∈ replaced is_pw, descriptors fd = some (childEnd is_pw pipe)
  others : ∀ fd ∉ replaced is_pw, ∀ file, descriptors fd = some file → file.pipe? ≠ some pipe

/-- The standard descriptors that the caller has closed. -/
def closedStandard (descriptors : Descriptors) : List Nat :=
  [STDIN_FILENO, STDOUT_FILENO, STDERR_FILENO].filter fun fd => descriptors fd = none

/-- The caller has its standard input open for a command that reads; for one that writes,
at most one of the three descriptors is closed. -/
def StandardOpen (is_pw : Bool) (descriptors : Descriptors) : Prop :=
  if is_pw then STDIN_FILENO ∉ closedStandard descriptors
  else (closedStandard descriptors).length ≤ 1

theorem ParentEnds.children {is_pw : Bool} {fd : Nat × Nat} {pipe : Nat} {child_pid : Int}
    {calls : PopenCalls} {state after : State} {result : Except Errno Nat}
    (ends : ParentEnds is_pw fd pipe child_pid calls state result after) :
    after.children = state.children := by
  cases ends with
  | noTable | noStream | stream => rfl

section Standard

variable {is_pw : Bool} {descriptors : Descriptors} {fd : Nat × Nat} {pipe : Nat}

/-- Nothing but the end that is closed last can be missing. -/
theorem connected_inherited_iff
    (fresh : ∀ other file, descriptors other = some file → file.pipe? ≠ some pipe) :
    Connected is_pw pipe (inherited is_pw fd pipe descriptors) ↔
      unusedFd is_pw fd ∉ replaced is_pw := by
  constructor
  · intro connected isStandard
    have closed := connected.standard _ isStandard
    rw [inherited, if_pos rfl] at closed
    cases closed
  · intro apart
    constructor
    · intro other isStandard
      have notUnused : other ≠ unusedFd is_pw fd := fun same => apart (same ▸ isStandard)
      rw [inherited, if_neg notUnused, if_pos isStandard]
    · intro other notStandard file holds
      rw [inherited, if_neg notStandard] at holds
      split_ifs at holds
      exact fresh other file holds

/-- The end that the child closes last is a standard descriptor if those were closed. -/
theorem unusedFd_notMem_iff (lowest : LowestFree descriptors fd) :
    unusedFd is_pw fd ∉ replaced is_pw ↔ StandardOpen is_pw descriptors := by
  obtain ⟨ordered, ⟨firstFree, secondFree⟩, taken⟩ := lowest
  cases is_pw with
  | true =>
      have first : fd.1 = 0 ↔ descriptors 0 = none := by
        constructor
        · intro isFirst
          rw [← isFirst, firstFree]
        · intro closed
          by_contra other
          exact taken 0 (by omega) (Ne.symm other) closed
      simp [unusedFd, replaced, StandardOpen, closedStandard, STDIN_FILENO, STDOUT_FILENO,
        STDERR_FILENO, first]
  | false =>
      have split : StandardOpen false descriptors ↔ (closedStandard descriptors).length ≤ 1 := Iff.rfl
      rw [split]
      by_cases high : 3 ≤ fd.2
      · -- of the three only the first end can be free
        have isFirst : ∀ other < 3, descriptors other = none ↔ other = fd.1 := by
          intro other low
          constructor
          · intro closed
            by_contra apart
            exact taken other (by omega) apart closed
          · rintro rfl
            exact firstFree
        have closed : closedStandard descriptors = [0, 1, 2].filter fun other => other = fd.1 :=
          List.filter_congr fun other member => by
            have low : other < 3 := by
              simp only [STDIN_FILENO, STDOUT_FILENO, STDERR_FILENO, List.mem_cons,
                List.not_mem_nil, or_false] at member
              omega
            simp only [isFirst other low]
        have distinct : ([0, 1, 2].filter fun other => other = fd.1).length ≤ 1 := by
          rw [List.filter_eq, List.length_replicate]
          exact List.nodup_iff_count_le_one.mp (by decide) fd.1
        refine iff_of_true ?_ (closed ▸ distinct)
        simp only [unusedFd, replaced, STDOUT_FILENO, STDERR_FILENO, Bool.false_eq_true, if_false,
          List.mem_cons, List.not_mem_nil, or_false]
        omega
      · have row : [fd.1, fd.2].Sublist [STDIN_FILENO, STDOUT_FILENO, STDERR_FILENO] := by
          have places : fd.1 = 0 ∧ fd.2 = 1 ∨ fd.1 = 0 ∧ fd.2 = 2 ∨ fd.1 = 1 ∧ fd.2 = 2 := by
            omega
          rcases places with ⟨first, second⟩ | ⟨first, second⟩ | ⟨first, second⟩ <;>
            rw [first, second] <;> decide
        have both : [fd.1, fd.2].Sublist (closedStandard descriptors) := by
          have kept := row.filter fun other => descriptors other = none
          rwa [List.filter_eq_self.mpr (by simp [firstFree, secondFree])] at kept
        refine iff_of_false (not_not_intro ?_) (Nat.not_le.mpr both.length_le)
        simp only [unusedFd, replaced, STDOUT_FILENO, STDERR_FILENO, Bool.false_eq_true, if_false,
          List.mem_cons, List.not_mem_nil, or_false]
        omega

end Standard

/-- A child whose calls succeed executes its command with its end of the pipe in its
standard descriptors, and nothing else of it, exactly if the caller has its standard input
open, for a command that reads, or at most one of the three standard descriptors closed,
for one that writes. -/
theorem myPopen_connects_iff {command mode : CString} {calls : PopenCalls} {before after : State}
    {result : Except Errno Nat} {fd : Nat × Nat} {pid : Int}
    (goodMode : mode = modeWrite ∨ mode = modeRead) (piped : calls.pipe = .ok fd)
    (lowest : LowestFree before.descriptors fd) (forked : calls.fork = .ok pid)
    (succeeds : calls.child = ⟨true, true, true, true⟩)
    (fresh : ∀ other file, before.descriptors other = some file →
      file.pipe? ≠ some before.pipes)
    (ran : myPopen command mode calls before = .ok (result, after)) :
    ∃ child descriptors, after.children = child :: before.children ∧ child.pid = pid ∧
      child.descriptors = some descriptors ∧
      (Connected (mode ≠ modeRead) before.pipes descriptors ↔
        StandardOpen (mode ≠ modeRead) before.descriptors) := by
  have different : fd.1 ≠ fd.2 := Nat.ne_of_lt lowest.ordered
  cases myPopen_ends ran with
  | badMode bad => exact absurd goodMode (not_or.mpr bad)
  | noPipe failed =>
      rw [failed] at piped
      cases piped
  | noFork _ _ failed =>
      rw [failed] at forked
      cases forked
  | forked _ piped' forked' ends =>
      rw [piped] at piped'
      rw [forked] at forked'
      cases piped'
      cases forked'
      refine ⟨_, inherited (mode ≠ modeRead) fd before.pipes before.descriptors, ends.children,
        rfl, ?_, (connected_inherited_iff fresh).trans (unusedFd_notMem_iff lowest)⟩
      rw [succeeds, childDescriptors_eq _ different]

theorem console_lowestFree : LowestFree console.descriptors (3, 4) where
  ordered := by decide
  free := ⟨rfl, rfl⟩
  taken := by
    intro other low notFirst
    have standard : other < 3 := by
      dsimp only at low notFirst
      omega
    simp [console, standard]

theorem myPopen_connects_console :
    ∃ child descriptors, oneStream.children = child :: console.children ∧ child.pid = 100 ∧
      child.descriptors = some descriptors ∧
      (Connected (modeWrite ≠ modeRead) console.pipes descriptors ↔
        StandardOpen (modeWrite ≠ modeRead) console.descriptors) := by
  have ran : myPopen [] modeWrite (callsAt (3, 4) 100 (.ok 50)) console =
      .ok (.ok 50, oneStream) := rfl
  refine myPopen_connects_iff (.inl rfl) rfl console_lowestFree rfl rfl ?_ ran
  intro other file holds
  obtain ⟨number, rfl⟩ := console_initial.descriptors other file holds
  simp [File.pipe?]

/-- A process that has closed its standard input. -/
def noInput : State :=
  { console with
    descriptors := fun fd => if fd = 1 ∨ fd = 2 then some (.other fd) else none }

/-- The read end is the descriptor 0 itself, and the child closes it. -/
theorem myPopen_closes_input :
    LowestFree noInput.descriptors (0, 3) ∧
      ∃ file after, myPopen [] modeWrite (callsAt (0, 3) 100 (.ok 50)) noInput =
          .ok (.ok file, after) ∧
        ∃ child ∈ after.children, ∃ descriptors, child.descriptors = some descriptors ∧
          descriptors STDIN_FILENO = none ∧ ¬ Connected true noInput.pipes descriptors := by
  refine ⟨⟨by decide, ⟨rfl, rfl⟩, ?_⟩, 50, _, rfl, _, List.mem_cons_self, _, rfl, rfl, ?_⟩
  · intro other low notFirst
    have standard : other = 1 ∨ other = 2 := by
      dsimp only at low notFirst
      omega
    simp [noInput, standard]
  · intro connected
    have standard := connected.standard STDIN_FILENO List.mem_cons_self
    cases standard

end LinuxProgramming.Popen
