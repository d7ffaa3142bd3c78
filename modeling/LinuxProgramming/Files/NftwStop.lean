import Mathlib.Data.List.Induction
import LinuxProgramming.Files.Nftw

/-!
Contract: when a callback that returns a nonzero value stops `my_nftw`.

Owns:
- `replay`, what a walk makes of its survey: only the value of a callback for a
  directory is looked at;
- the simulation of `my_nftw` by `replay`, over every kernel on which a recorded
  working directory can be returned to;
- the exact condition for stopping at the first nonzero value.

Does not own: the survey of any particular tree.
-/

namespace LinuxProgramming.Files

/-- The entries for which `my_nftw` looks at the value of the callback. -/
def TypeFlag.IsDirectory (typeflag : TypeFlag) : Prop := typeflag = .FTW_D ∨ typeflag = .FTW_DNR

instance (typeflag : TypeFlag) : Decidable typeflag.IsDirectory :=
  inferInstanceAs (Decidable (_ ∨ _))

/-- The callbacks after those `seen`, and the value that stops the walk, if one
does. -/
def replay (func : Func) (seen : List Visit) : List Visit → List Visit × Option Int
  | [] => (seen, none)
  | visit :: rest =>
      if visit.typeflag.IsDirectory ∧ func (seen ++ [visit]) ≠ 0 then
        (seen ++ [visit], some (func (seen ++ [visit])))
      else replay func (seen ++ [visit]) rest

section Replay

variable {func : Func} {seen first second : List Visit}

theorem replay_append_stopped {value : Int} (stopped : (replay func seen first).2 = some value) :
    replay func seen (first ++ second) = replay func seen first := by
  induction first generalizing seen with
  | nil => cases stopped
  | cons visit rest inductionHypothesis =>
      rw [List.cons_append, replay]
      rw [replay] at stopped
      split
      case isTrue stops => rw [replay, if_pos stops]
      case isFalse goesOn =>
        rw [if_neg goesOn] at stopped
        rw [inductionHypothesis stopped, replay, if_neg goesOn]

theorem replay_append (goesOn : (replay func seen first).2 = none) :
    replay func seen (first ++ second) = replay func (seen ++ first) second := by
  induction first generalizing seen with
  | nil => rw [List.nil_append, List.append_nil]
  | cons visit rest inductionHypothesis =>
      rw [replay] at goesOn
      split at goesOn
      · cases goesOn
      case isFalse goesOn' =>
        rw [List.cons_append, replay, if_neg goesOn', inductionHypothesis goesOn,
          List.append_assoc, List.singleton_append]

theorem replay_visits (goesOn : (replay func seen first).2 = none) :
    (replay func seen first).1 = seen ++ first := by
  have whole : replay func seen (first ++ []) = _ := replay_append goesOn
  rw [List.append_nil, replay] at whole
  rw [whole]

theorem replay_value_ne {value : Int} (stopped : (replay func seen first).2 = some value) :
    value ≠ 0 := by
  induction first generalizing seen with
  | nil => cases stopped
  | cons visit rest inductionHypothesis =>
      rw [replay] at stopped
      split at stopped
      case isTrue stops =>
        cases stopped
        exact stops.2
      case isFalse => exact inductionHypothesis stopped

end Replay

/-! ### Kernels on which a walk can go back -/

/-- `holds world fd` says that `fd` is open on a directory. `open` returns a
descriptor that is not in use, only `close` gives one up, and `fchdir` to an open
directory succeeds. -/
structure Kernel.Descriptors {W S : Type} (kernel : Kernel W S) (holds : W → Nat → Prop) :
    Prop where
  stat : ∀ pathname world fd, holds world fd → holds (kernel.stat pathname world).2 fd
  lstat : ∀ pathname world fd, holds world fd → holds (kernel.lstat pathname world).2 fd
  opendir : ∀ pathname world fd, holds world fd → holds (kernel.opendir pathname world).2 fd
  readdir : ∀ stream world fd, holds world fd → holds (kernel.readdir stream world).2 fd
  closedir : ∀ stream world fd, holds world fd → holds (kernel.closedir stream world).2 fd
  getcwd : ∀ size world fd, holds world fd → holds (kernel.getcwd size world).2 fd
  openFile : ∀ pathname world fd, holds world fd → holds (kernel.openFile pathname world).2 fd
  chdir : ∀ pathname world fd, holds world fd → holds (kernel.chdir pathname world).2 fd
  fchdir : ∀ other world fd, holds world fd → holds (kernel.fchdir other world).2 fd
  close : ∀ other world fd, holds world fd → fd ≠ other → holds (kernel.close other world).2 fd
  opened : ∀ pathname world fd, (kernel.openFile pathname world).1 = some fd →
    holds (kernel.openFile pathname world).2 fd ∧ ¬ holds world fd
  returns : ∀ fd world, holds world fd → (kernel.fchdir fd world).1 = true

/-- `fd` is open. -/
def Process.Holds (process : Process) (fd : Nat) : Prop :=
  (process.descriptors[fd]?).join.isSome

section TreeKernel

variable {process : Process} {fd : Nat}

theorem Process.Holds.lt_length (open' : process.Holds fd) : fd < process.descriptors.length := by
  by_contra outside
  rw [Process.Holds, List.getElem?_eq_none (Nat.le_of_not_lt outside)] at open'
  cases open'

theorem treeKernel_descriptors (fs : FileSystem) (leftover : Stat) :
    (treeKernel fs leftover).Descriptors Process.Holds where
  stat := by
    intro pathname process fd open'
    simp only [treeKernel]
    split <;> exact open'
  lstat := by
    intro pathname process fd open'
    simp only [treeKernel]
    split <;> exact open'
  opendir := by
    intro pathname process fd open'
    simp only [treeKernel]
    split
    · exact open'
    · split <;> exact open'
  readdir := by
    intro stream process fd open'
    simp only [treeKernel]
    split <;> exact open'
  closedir := by
    intro stream process fd open'
    simp only [treeKernel]
    split <;> exact open'
  getcwd := by
    intro size process fd open'
    simp only [treeKernel]
    split <;> exact open'
  openFile := by
    intro pathname process fd open'
    simp only [treeKernel]
    split
    · exact open'
    · show ((process.descriptors ++ [some _])[fd]?).join.isSome
      rw [List.getElem?_append_left open'.lt_length]
      exact open'
  chdir := by
    intro pathname process fd open'
    simp only [treeKernel]
    split
    · exact open'
    · split <;> exact open'
  fchdir := by
    intro other process fd open'
    simp only [treeKernel]
    split <;> exact open'
  close := by
    intro other process fd open' different
    simp only [treeKernel]
    split
    · exact open'
    · show ((process.descriptors.set other none)[fd]?).join.isSome
      rw [List.getElem?_set_ne (Ne.symm different)]
      exact open'
  opened := by
    intro pathname process fd opens
    simp only [treeKernel] at opens ⊢
    split at opens
    · cases opens
    · cases opens
      constructor
      · show ((process.descriptors ++ [some _])[process.descriptors.length]?).join.isSome
        rw [List.getElem?_concat_length]
        rfl
      · intro open'
        exact absurd open'.lt_length (Nat.lt_irrefl _)
  returns := by
    intro fd process open'
    obtain ⟨position, isOpen⟩ := Option.isSome_iff_exists.mp open'
    simp only [treeKernel, isOpen]

end TreeKernel

section Simulation

variable {W S : Type} {kernel : Kernel W S} {flags : Flags} {func : Func}
  {holds : W → Nat → Prop}

theorem bind_eq_ok {α β : Type} {program : Prog W α} {next : α → Prog W β} {world : W}
    {result : β × W} (ran : (program >>= next) world = .ok result) :
    ∃ middle world', program world = .ok (middle, world') ∧ next middle world' = .ok result := by
  have unfolded : (program world).bind (fun pair => next pair.1 pair.2) = .ok result := ran
  cases started : program world with
  | error reason =>
      rw [started] at unfolded
      cases unfolded
  | ok pair =>
      rw [started] at unfolded
      exact ⟨pair.1, pair.2, rfl, unfolded⟩

theorem onWorld_ok {α : Type} {program : Prog W α} (walk : Walk W) {result : α} {world : W}
    (ran : program walk.world = .ok (result, world)) :
    onWorld program walk = .ok (result, { walk with world := world }) := by
  simp only [onWorld, ran]

theorem onWorld_bind {α β : Type} {program : Prog W α} {next : α → Prog (Walk W) β}
    {walk : Walk W} {result : α} {world : W} (ran : program walk.world = .ok (result, world)) :
    (onWorld program >>= next) walk = next result { walk with world := world } :=
  bind_ok (onWorld_ok walk ran)

theorem onWorld_call_bind {α β : Type} (syscall : W → α × W) (next : α → Prog (Walk W) β)
    (walk : Walk W) :
    (onWorld (call syscall) >>= next) walk =
      next (syscall walk.world).1 { walk with world := (syscall walk.world).2 } :=
  onWorld_bind rfl

theorem statEntry_ok (flags : Flags) (laws : kernel.Descriptors holds) (pathname : CString)
    (world : W) :
    ∃ status world', statEntry kernel flags pathname world = .ok (status, world') ∧
      ∀ fd, holds world fd → holds world' fd := by
  rw [statEntry]
  split
  · exact ⟨_, _, rfl, laws.lstat pathname world⟩
  · exact ⟨_, _, rfl, laws.stat pathname world⟩

/-- Entering a directory: the descriptor recorded, if any, is a new one. -/
theorem enter_ok (flags : Flags) (laws : kernel.Descriptors holds) (pathname : CString)
    (status : Option Errno × Stat) (world : W) :
    ∃ entering world', enter kernel flags pathname status world = .ok (entering, world') ∧
      (∀ fd, holds world fd → holds world' fd) ∧
      ∀ fd, entering = .moved fd → holds world' fd ∧ ¬ holds world fd := by
  rw [enter]
  split
  · rw [call_step]
    have gotten := laws.getcwd PATH_MAX world
    cases cwdIs : (kernel.getcwd PATH_MAX world).1 with
    | none => exact ⟨.failed, _, rfl, gotten, nofun⟩
    | some cwd =>
        dsimp only
        rw [call_step]
        have opened := laws.openFile cwd (kernel.getcwd PATH_MAX world).2
        cases fdIs : (kernel.openFile cwd (kernel.getcwd PATH_MAX world).2).1 with
        | none => exact ⟨.failed, _, rfl, fun fd held => opened fd (gotten fd held), nofun⟩
        | some fd =>
            obtain ⟨fresh, unused⟩ := laws.opened cwd _ fd fdIs
            dsimp only
            rw [call_step]
            refine ⟨_, _, rfl, fun other held =>
              laws.chdir pathname _ other (opened other (gotten other held)), ?_⟩
            intro other isMoved
            split at isMoved
            · cases isMoved
              exact ⟨laws.chdir pathname _ fd fresh, fun held => unused (gotten fd held)⟩
            · cases isMoved
  · exact ⟨.stayed, world, rfl, fun _ => id, nofun⟩

theorem leave_ok (laws : kernel.Descriptors holds) {entering : Entering} {world : W}
    (recorded : ∀ fd, entering = .moved fd → holds world fd) :
    ∃ world', leave kernel entering world = .ok (true, world') ∧
      ∀ fd, holds world fd → entering ≠ .moved fd → holds world' fd := by
  cases entering with
  | failed => exact ⟨world, rfl, fun _ held _ => held⟩
  | stayed => exact ⟨world, rfl, fun _ held _ => held⟩
  | moved fd =>
      refine ⟨(kernel.close fd (kernel.fchdir fd world).2).2, ?_, ?_⟩
      · rw [leave, call_step, laws.returns fd world (recorded fd rfl)]
        rfl
      · intro other held different
        refine laws.close fd _ other (laws.fchdir fd world other held) ?_
        rintro rfl
        exact different rfl

/-- What a run of `my_nftw` has to do with a survey from the same state: the
callbacks and the value are those of the replay, and if the walk goes on, so
does the rest of the state. -/
structure Replays (holds : W → Nat → Prop) (func : Func) (walk : Walk W) (survey : Survey)
    (world : W) (retval : Int) (walk' : Walk W) : Prop where
  visits : walk'.visits = (replay func walk.visits survey.1).1
  value : retval = (replay func walk.visits survey.1).2.getD survey.2
  descriptors : ∀ fd, holds walk.world fd → holds walk'.world fd
  goesOn : retval = 0 → walk'.world = world ∧ walk'.level = walk.level ∧
    (0 < walk.level → walk'.devno = walk.devno)

/-- The same for the loop over the entries of a directory. -/
structure ReplaysEntries (holds : W → Nat → Prop) (func : Func) (walk : Walk W)
    (listed : List Visit × Option S) (world : W) (ended : LoopEnd S) (walk' : Walk W) :
    Prop where
  visits : walk'.visits = (replay func walk.visits listed.1).1
  descriptors : ∀ fd, holds walk.world fd → holds walk'.world fd
  stopped : ∀ value, (replay func walk.visits listed.1).2 = some value → ended = .returned value
  aborted : (replay func walk.visits listed.1).2 = none → listed.2 = none →
    ended = .returned (-1)
  finished : ∀ left, (replay func walk.visits listed.1).2 = none → listed.2 = some left →
    ended = .finished left ∧ walk'.world = world ∧ walk'.level = walk.level ∧
      walk'.devno = walk.devno

/-- Only a walk that nothing has stopped returns 0: the values that stop one are
not 0. -/
theorem Replays.silent {walk walk' : Walk W} {survey : Survey} {world : W} {retval : Int}
    (replays : Replays holds func walk survey world retval walk') (zero : retval = 0) :
    (replay func walk.visits survey.1).2 = none ∧ survey.2 = 0 := by
  have isValue := replays.value
  cases stopped : (replay func walk.visits survey.1).2 with
  | none =>
      rw [stopped] at isValue
      exact ⟨rfl, isValue.symm.trans zero⟩
  | some value =>
      rw [stopped] at isValue
      exact absurd (isValue.symm.trans zero) (replay_value_ne stopped)

/-- Nothing visited, and -1 from inside the loop. -/
theorem ReplaysEntries.abort {walk walk' : Walk W} {world : W}
    (visits : walk'.visits = walk.visits)
    (descriptors : ∀ fd, holds walk.world fd → holds walk'.world fd) :
    ReplaysEntries (S := S) holds func walk ([], none) world (.returned (-1)) walk' where
  visits := visits
  descriptors := descriptors
  stopped := nofun
  aborted := fun _ _ => rfl
  finished := nofun

/-- The rest of the loop, after visits that have not stopped the walk. -/
theorem ReplaysEntries.onward {walk between walk' : Walk W} {below : List Visit}
    {others : List Visit × Option S} {world : W} {ended : LoopEnd S}
    (notStopped : (replay func walk.visits below).2 = none)
    (visits : between.visits = walk.visits ++ below)
    (kept : ∀ fd, holds walk.world fd → holds between.world fd)
    (level : between.level = walk.level) (devno : between.devno = walk.devno)
    (rest : ReplaysEntries holds func between others world ended walk') :
    ReplaysEntries holds func walk (below ++ others.1, others.2) world ended walk' := by
  have combined : replay func walk.visits (below ++ others.1) =
      replay func between.visits others.1 := by
    rw [visits]
    exact replay_append notStopped
  refine ⟨?_, ?_, ?_, ?_, ?_⟩
  · rw [combined]
    exact rest.visits
  · exact fun fd held => rest.descriptors fd (kept fd held)
  · rw [combined]
    exact rest.stopped
  · rw [combined]
    exact rest.aborted
  · rw [combined]
    intro stream onward isStream
    obtain ⟨finished, world', level', devno'⟩ := rest.finished stream onward isStream
    exact ⟨finished, world', level'.trans level, devno'.trans devno⟩

/-- What follows the loop, after visits that have not stopped the walk. -/
theorem Replays.onward {walk between walk' : Walk W} {below : List Visit} {others : Survey}
    {world : W} {retval : Int} (notStopped : (replay func walk.visits below).2 = none)
    (visits : between.visits = walk.visits ++ below)
    (kept : ∀ fd, holds walk.world fd → holds between.world fd)
    (level : between.level = walk.level) (devno : between.devno = walk.devno)
    (rest : Replays holds func between others world retval walk') :
    Replays holds func walk (below ++ others.1, others.2) world retval walk' := by
  have combined : replay func walk.visits (below ++ others.1) =
      replay func between.visits others.1 := by
    rw [visits]
    exact replay_append notStopped
  refine ⟨?_, ?_, ?_, ?_⟩
  · rw [combined]
    exact rest.visits
  · rw [combined]
    exact rest.value
  · exact fun fd held => rest.descriptors fd (kept fd held)
  · intro isZero
    obtain ⟨world', level', devno'⟩ := rest.goesOn isZero
    refine ⟨world', level'.trans level, fun deep => ?_⟩
    exact (devno' (level ▸ deep)).trans devno

/-- A loop that has ended the walk gives it its value. -/
theorem Replays.of_ended {walk walk' : Walk W} {listed : List Visit × Option S}
    {inside : Survey} {world world' : W} {value : Int}
    (entries : ReplaysEntries holds func walk listed world (.returned value) walk')
    (same : replay func walk.visits inside.1 = replay func walk.visits listed.1)
    (isValue : value = (replay func walk.visits listed.1).2.getD inside.2)
    (notZero : value ≠ 0) : Replays holds func walk inside world' value walk' := by
  refine ⟨?_, ?_, entries.descriptors, fun isZero => absurd isZero notZero⟩
  · rw [same]
    exact entries.visits
  · rw [same]
    exact isValue

/-- The loop ends with the value of a callback or a system call below. -/
theorem ReplaysEntries.halt {walk walk' : Walk W} {below : Survey}
    {listed : List Visit × Option S} {world : W} {retval : Int}
    (same : replay func walk.visits listed.1 = replay func walk.visits below.1)
    (failed : (replay func walk.visits below.1).2 = none → listed.2 = none ∧ below.2 = -1)
    (visits : walk'.visits = (replay func walk.visits below.1).1)
    (kept : ∀ fd, holds walk.world fd → holds walk'.world fd)
    (isValue : retval = (replay func walk.visits below.1).2.getD below.2) :
    ReplaysEntries (S := S) holds func walk listed world (.returned retval) walk' := by
  refine ⟨?_, kept, ?_, ?_, ?_⟩
  · rw [same]
    exact visits
  · intro value stopped
    rw [same] at stopped
    rw [isValue, stopped]
    rfl
  · intro onward _
    rw [same] at onward
    rw [isValue, onward, (failed onward).2]
    rfl
  · intro stream onward isStream
    rw [same] at onward
    rw [(failed onward).1] at isStream
    cases isStream

/-- Once an entry has ended the walk, what the survey lists behind it does not matter. -/
theorem survey_ended {seen : List Visit} {below : Survey} {left : Bool} {dir_p : S}
    {surveyLoop : Prog W (List Visit × Option S)} {listed : List Visit × Option S}
    {before after : W} {retval : Int} (endings : below.2 = 0 ∨ below.2 = -1)
    (isValue : retval = (replay func seen below.1).2.getD below.2) (ended : retval ≠ 0)
    (surveyed : (if left = false then pure (below.1, none)
        else if below.2 ≠ 0 then do
          let _ ← call (kernel.closedir (some dir_p))
          pure (below.1, none)
        else do
          let rest ← surveyLoop
          pure (below.1 ++ rest.1, rest.2) : Prog W (List Visit × Option S)) before =
      .ok (listed, after)) :
    replay func seen listed.1 = replay func seen below.1 ∧
      ((replay func seen below.1).2 = none → listed.2 = none ∧ below.2 = -1) := by
  cases stopped : (replay func seen below.1).2 with
  | some value =>
      refine ⟨?_, nofun⟩
      split_ifs at surveyed with isLeft ends
      · cases surveyed
        rfl
      · cases surveyed
        rfl
      · obtain ⟨others, _, _, surveyed⟩ := bind_eq_ok surveyed
        cases surveyed
        exact replay_append_stopped stopped
  | none =>
      rw [stopped] at isValue
      have ends : below.2 ≠ 0 := fun zero => ended (isValue.trans zero)
      have minusOne := endings.resolve_left ends
      split_ifs at surveyed with isLeft
      · cases surveyed
        exact ⟨rfl, fun _ => ⟨rfl, minusOne⟩⟩
      · cases surveyed
        exact ⟨rfl, fun _ => ⟨rfl, minusOne⟩⟩

/-- One entry: `rest` is the remainder of the loop. -/
theorem readEntry_replays (laws : kernel.Descriptors holds) {pathname : CString}
    {self : CString → Prog (Walk W) Int} {surveySelf : CString → Prog W Survey}
    {loop : Prog (Walk W) (LoopEnd S)} {surveyLoop : Prog W (List Visit × Option S)}
    {depth device : Nat} {dir_p : S} {walk : Walk W} {read world : W}
    {listed : List Visit × Option S}
    (recursion : ∀ (walk : Walk W) pathname survey world, walk.level = depth + 1 →
      (flags.FTW_MOUNT = true → walk.devno = device) →
      surveySelf pathname walk.world = .ok (survey, world) →
      (survey.2 = 0 ∨ survey.2 = -1) ∧ ∃ retval walk', self pathname walk = .ok (retval, walk') ∧
        Replays holds func walk survey world retval walk')
    (rest : ∀ {walk : Walk W} {listed : List Visit × Option S} {world : W},
      walk.level = depth → (flags.FTW_MOUNT = true → walk.devno = device) →
      surveyLoop walk.world = .ok (listed, world) →
      ∃ ended walk', loop walk = .ok (ended, walk') ∧
        ReplaysEntries holds func walk listed world ended walk')
    (afterRead : ∀ fd, holds walk.world fd → holds read fd)
    (atDepth : walk.level = depth) (onDevice : flags.FTW_MOUNT = true → walk.devno = device)
    (surveyed : (do
        let status ← statEntry kernel flags pathname
        let entering ← enter kernel flags pathname status
        if entering = .failed then pure ([], none)
        else do
          let below ← surveySelf pathname
          let left ← leave kernel entering
          if left = false then pure (below.1, none)
          else if below.2 ≠ 0 then do
            let _ ← call (kernel.closedir (some dir_p))
            pure (below.1, none)
          else do
            let rest ← surveyLoop
            pure (below.1 ++ rest.1, rest.2) : Prog W (List Visit × Option S)) read =
      .ok (listed, world)) :
    ∃ ended walk', (do
        setLevel (· + 1)
        let local_status ← onWorld (statEntry kernel flags pathname)
        let entering ← onWorld (enter kernel flags pathname local_status)
        if entering = .failed then pure (.returned (-1))
        else do
          let my_nftw_retval ← self pathname
          setLevel (· - 1)
          let left ← onWorld (leave kernel entering)
          if left = false then pure (.returned (-1))
          else if my_nftw_retval ≠ 0 then do
            let _ ← onWorld (call (kernel.closedir (some dir_p)))
            pure (.returned my_nftw_retval)
          else loop : Prog (Walk W) (LoopEnd S)) { walk with world := read } =
        .ok (ended, walk') ∧
      ReplaysEntries holds func walk listed world ended walk' := by
  obtain ⟨status, stat_world, stated, keptStat⟩ := statEntry_ok flags laws pathname read
  have afterStat : ∀ fd, holds walk.world fd → holds stat_world fd :=
    fun fd held => keptStat fd (afterRead fd held)
  obtain ⟨entering, entered, entersTo, afterEnter, recorded⟩ :=
    enter_ok flags laws pathname status stat_world
  have levelled : (setLevel (· + 1) : Prog (Walk W) Unit) { walk with world := read } =
      .ok ((), { walk with world := read, level := walk.level + 1 }) := rfl
  rw [bind_ok stated, bind_ok entersTo] at surveyed
  rw [bind_ok levelled, onWorld_bind stated, onWorld_bind entersTo]
  by_cases fails : entering = .failed
  · rw [if_pos fails] at surveyed ⊢
    cases surveyed
    exact ⟨_, _, rfl, .abort rfl fun fd held => afterEnter fd (afterStat fd held)⟩
  rw [if_neg fails] at surveyed ⊢
  obtain ⟨below, below_world, surveyedBelow, surveyed⟩ := bind_eq_ok surveyed
  let walk₁ : Walk W := { walk with world := entered, level := walk.level + 1 }
  obtain ⟨endings, retval, walk₂, ran, replays⟩ :=
    recursion walk₁ pathname below below_world (congrArg (· + 1) atDepth) onDevice surveyedBelow
  have keptBelow : ∀ fd, holds walk.world fd → holds walk₂.world fd :=
    fun fd held => replays.descriptors fd (afterEnter fd (afterStat fd held))
  obtain ⟨left_world, leaves, afterLeave⟩ := leave_ok laws
    fun fd isMoved => replays.descriptors fd (recorded fd isMoved).1
  have keptLeave : ∀ fd, holds walk.world fd → holds left_world fd := by
    intro fd held
    apply afterLeave fd (keptBelow fd held)
    intro isMoved
    exact (recorded fd isMoved).2 (afterStat fd held)
  have lowered : (setLevel (· - 1) : Prog (Walk W) Unit) walk₂ =
      .ok ((), { walk₂ with level := walk₂.level - 1 }) := rfl
  rw [bind_ok ran, bind_ok lowered,
    bind_ok (onWorld_ok { walk₂ with level := walk₂.level - 1 } leaves), if_neg (by simp)]
  obtain ⟨left, survey_left, surveyLeaves, surveyed⟩ := bind_eq_ok surveyed
  by_cases goesOn : retval = 0
  · -- the recursive call returned 0: nothing has stopped the walk
    obtain ⟨sameWorld, sameLevel, sameDevno⟩ := replays.goesOn goesOn
    obtain ⟨notStopped, ending⟩ := replays.silent goesOn
    rw [← sameWorld, leaves] at surveyLeaves
    cases surveyLeaves
    rw [if_neg (by simp), if_neg (by simp [ending])] at surveyed
    rw [if_neg (by simp [goesOn])]
    obtain ⟨others, _, surveyedRest, surveyed⟩ := bind_eq_ok surveyed
    cases surveyed
    let walk₃ : Walk W := { walk₂ with level := walk₂.level - 1, world := left_world }
    have level₃ : walk₃.level = depth := by
      show walk₂.level - 1 = depth
      rw [sameLevel]
      exact atDepth
    have devno₃ : walk₃.devno = walk.devno := sameDevno (Nat.succ_pos _)
    have visits₃ : walk₃.visits = walk.visits ++ below.1 :=
      replays.visits.trans (replay_visits notStopped)
    obtain ⟨ended, walk', ranRest, replaysRest⟩ :=
      rest level₃ (fun mounted => devno₃.trans (onDevice mounted)) surveyedRest
    exact ⟨ended, walk', ranRest,
      .onward notStopped visits₃ keptLeave (level₃.trans atDepth.symm) devno₃ replaysRest⟩
  · -- a callback or a system call below has ended the walk
    rw [if_pos goesOn, onWorld_call_bind]
    have isValue := replays.value
    rw [show walk₁.visits = walk.visits from rfl] at isValue
    have listedIs := survey_ended endings isValue goesOn surveyed
    exact ⟨_, _, rfl, .halt listedIs.1 listedIs.2 replays.visits
      (fun fd held => laws.closedir _ _ fd (keptLeave fd held)) isValue⟩

/-- The loop, if each recursive call replays its survey. The induction is on the
number of entries still read. -/
theorem readEntries_replays (laws : kernel.Descriptors holds) {dirpath : CString}
    {self : CString → Prog (Walk W) Int} {surveySelf : CString → Prog W Survey}
    {depth device : Nat}
    (recursion : ∀ (walk : Walk W) pathname survey world, walk.level = depth + 1 →
      (flags.FTW_MOUNT = true → walk.devno = device) →
      surveySelf pathname walk.world = .ok (survey, world) →
      (survey.2 = 0 ∨ survey.2 = -1) ∧ ∃ retval walk', self pathname walk = .ok (retval, walk') ∧
        Replays holds func walk survey world retval walk')
    (fuel : Nat) {dir_p : S} {walk : Walk W} {listed : List Visit × Option S} {world : W}
    (atDepth : walk.level = depth) (onDevice : flags.FTW_MOUNT = true → walk.devno = device)
    (surveyed : surveyEntries kernel flags surveySelf dirpath fuel dir_p walk.world =
      .ok (listed, world)) :
    ∃ ended walk', readEntries kernel flags self dirpath fuel dir_p walk = .ok (ended, walk') ∧
      ReplaysEntries holds func walk listed world ended walk' := by
  induction fuel generalizing dir_p walk listed world with
  | zero => cases surveyed
  | succ fuel inductionHypothesis =>
      rw [surveyEntries, call_step] at surveyed
      rw [readEntries, onWorld_call_bind]
      have afterRead := laws.readdir dir_p walk.world
      cases isRead : (kernel.readdir dir_p walk.world).1 with
      | failed =>
          rw [isRead] at surveyed
          cases surveyed
          dsimp only
          rw [onWorld_call_bind]
          exact ⟨_, _, rfl, .abort rfl fun fd held => laws.closedir _ _ fd (afterRead fd held)⟩
      | last =>
          rw [isRead] at surveyed
          cases surveyed
          refine ⟨_, _, rfl, rfl, afterRead, nofun, nofun, ?_⟩
          rintro left _ ⟨⟩
          exact ⟨rfl, rfl, rfl, rfl⟩
      | entry d_name dir_p' =>
          rw [isRead] at surveyed
          dsimp only at surveyed ⊢
          by_cases dots : d_name = dotDot ∨ d_name = dot
          · rw [if_pos dots] at surveyed ⊢
            let walk₁ := { walk with world := (kernel.readdir dir_p walk.world).2 }
            obtain ⟨ended, walk', ran, replays⟩ :=
              inductionHypothesis (show walk₁.level = depth from atDepth) onDevice surveyed
            exact ⟨ended, walk', ran, replays.visits,
              fun fd held => replays.descriptors fd (afterRead fd held), replays.stopped,
              replays.aborted, replays.finished⟩
          · rw [if_neg dots] at surveyed ⊢
            by_cases long : PATH_MAX < dirpath.length + 1 + d_name.length + 1
            · rw [if_pos long] at surveyed
              cases surveyed
            · rw [if_neg long] at surveyed ⊢
              exact readEntry_replays laws recursion
                (fun atDepth onDevice surveyed => inductionHypothesis atDepth onDevice surveyed)
                afterRead atDepth onDevice surveyed

/-! ### Single files -/

section Files

variable {walk : Walk W} {visit : TypeFlag → Visit} {dirpath : CString} {survey : Survey}
  {world : W}

/-- A callback whose value is dropped. -/
theorem replays_dropped (visit : TypeFlag → Visit) (typeflag : TypeFlag)
    (flagged : (visit typeflag).typeflag = typeflag)
    (dropped : ¬ typeflag.IsDirectory) {changed : W}
    (descriptors : ∀ fd, holds walk.world fd → holds changed fd) :
    Replays holds func walk ([visit typeflag], 0) changed 0
      { walk with world := changed, visits := walk.visits ++ [visit typeflag] } := by
  have silent : replay func walk.visits [visit typeflag] =
      (walk.visits ++ [visit typeflag], none) := by
    rw [replay, if_neg (by rw [flagged]; exact fun stops => dropped stops.1), replay]
  constructor
  · rw [silent]
  · rw [silent]
    rfl
  · exact descriptors
  · exact fun _ => ⟨rfl, rfl, fun _ => rfl⟩

theorem visitFile_replays (laws : kernel.Descriptors holds) (walk : Walk W)
    (flagged : ∀ typeflag, (visit typeflag).typeflag = typeflag) {statbuf : Stat}
    (surveyed : surveyFile kernel flags dirpath statbuf visit walk.world =
      .ok (survey, world)) :
    (survey.2 = 0 ∨ survey.2 = -1) ∧ ∃ retval walk',
      visitFile kernel flags func dirpath statbuf visit walk = .ok (retval, walk') ∧
        Replays holds func walk survey world retval walk' := by
  rw [surveyFile] at surveyed
  rw [visitFile]
  split at surveyed
  case isTrue isLink =>
    rw [if_pos isLink, onWorld_call_bind]
    rw [call_step] at surveyed
    have afterStat := laws.stat dirpath walk.world
    cases isStat : (kernel.stat dirpath walk.world).1.1 with
    | some errno =>
        rw [isStat] at surveyed
        dsimp only at surveyed ⊢
        split at surveyed
        case isTrue dangling =>
          cases surveyed
          rw [if_pos dangling]
          exact ⟨.inl rfl, 0, _, rfl, replays_dropped visit _ (flagged _) (by decide) afterStat⟩
        case isFalse broken =>
          cases surveyed
          rw [if_neg broken]
          exact ⟨.inr rfl, -1, _, rfl, rfl, rfl, afterStat, fun zero => absurd zero (by decide)⟩
    | none =>
        rw [isStat] at surveyed
        cases surveyed
        exact ⟨.inl rfl, 0, _, rfl, replays_dropped visit _ (flagged _) (by decide) afterStat⟩
  case isFalse plain =>
    cases surveyed
    rw [if_neg plain]
    exact ⟨.inl rfl, 0, _, rfl, replays_dropped visit _ (flagged _) (by decide) fun _ => id⟩

/-- The directory's own callback: its value, if not 0, stops the walk. -/
theorem replay_directory (func : Func) (seen rest : List Visit) {own : Visit}
    (isDirectory : own.typeflag.IsDirectory) :
    replay func seen (own :: rest) =
      if func (seen ++ [own]) = 0 then replay func (seen ++ [own]) rest
      else (seen ++ [own], some (func (seen ++ [own]))) := by
  rw [replay]
  by_cases zero : func (seen ++ [own]) = 0
  · rw [if_neg fun stops => stops.2 zero, if_pos zero]
  · rw [if_pos ⟨isDirectory, zero⟩, if_neg zero]

/-- The end of a directory whose callback has been made or is still to come. -/
theorem endDirectory_replays (flags : Flags) (func : Func) (laws : kernel.Descriptors holds)
    {own : Visit}
    (isDirectory : own.typeflag.IsDirectory) (walk : Walk W) (dir_p : Option S) :
    ∃ retval walk', (do
        let func_retval ← callWhen func flags.FTW_DEPTH own
        if func_retval ≠ 0 then do
          let _ ← onWorld (call (kernel.closedir dir_p))
          pure func_retval
        else do
          let closed ← onWorld (call (kernel.closedir dir_p))
          pure (if closed then 0 else -1) : Prog (Walk W) Int) walk = .ok (retval, walk') ∧
      Replays holds func walk (if flags.FTW_DEPTH then [own] else [],
        if (kernel.closedir dir_p walk.world).1 then 0 else -1)
        (kernel.closedir dir_p walk.world).2 retval walk' := by
  have afterClose := laws.closedir dir_p walk.world
  cases flags.FTW_DEPTH with
  | false =>
      have skipped : callWhen func false own walk = .ok (0, walk) := rfl
      rw [bind_ok skipped, if_neg (by simp), onWorld_call_bind]
      exact ⟨_, _, rfl, rfl, rfl, afterClose, fun _ => ⟨rfl, rfl, fun _ => rfl⟩⟩
  | true =>
      have called : callWhen func true own walk =
          .ok (func (walk.visits ++ [own]), { walk with visits := walk.visits ++ [own] }) := rfl
      rw [bind_ok called]
      have replayed := replay_directory func walk.visits [] isDirectory
      by_cases zero : func (walk.visits ++ [own]) = 0
      · rw [if_neg (by simp [zero]), onWorld_call_bind]
        rw [if_pos zero, replay] at replayed
        refine ⟨_, _, rfl, ?_, ?_, afterClose, fun _ => ⟨rfl, rfl, fun _ => rfl⟩⟩
        · rw [if_pos rfl, replayed]
        · rw [if_pos rfl, replayed]
          rfl
      · rw [if_pos zero, onWorld_call_bind]
        rw [if_neg zero] at replayed
        refine ⟨_, _, rfl, ?_, ?_, afterClose, fun isZero => absurd isZero zero⟩
        · rw [if_pos rfl, replayed]
        · rw [if_pos rfl, replayed]
          rfl

end Files

/-! ### Directories and whole walks -/

section Directories

variable {dirpath : CString} {self : CString → Prog (Walk W) Int}
  {surveySelf : CString → Prog W Survey} {depth device fuel : Nat}
  (laws : kernel.Descriptors holds)
  (recursion : ∀ (walk : Walk W) pathname survey world, walk.level = depth + 1 →
    (flags.FTW_MOUNT = true → walk.devno = device) →
    surveySelf pathname walk.world = .ok (survey, world) →
    (survey.2 = 0 ∨ survey.2 = -1) ∧ ∃ retval walk', self pathname walk = .ok (retval, walk') ∧
      Replays holds func walk survey world retval walk')

include laws recursion

/-- A directory from the opening of its stream on. -/
theorem inside_replays (walk : Walk W) {own : Visit} (isDirectory : own.typeflag.IsDirectory)
    {dir_p : Option S} {inside : Survey} {world : W}
    (atDepth : walk.level = depth) (onDevice : flags.FTW_MOUNT = true → walk.devno = device)
    (surveyed : surveyInside kernel flags surveySelf fuel dirpath own dir_p walk.world =
      .ok (inside, world)) :
    (inside.2 = 0 ∨ inside.2 = -1) ∧ ∃ retval walk', (do
        match ← readDirectory kernel flags self fuel dirpath dir_p with
        | .returned retval => pure retval
        | .finished dir_p => do
            let func_retval ← callWhen func flags.FTW_DEPTH own
            if func_retval ≠ 0 then do
              let _ ← onWorld (call (kernel.closedir dir_p))
              pure func_retval
            else do
              let closed ← onWorld (call (kernel.closedir dir_p))
              pure (if closed then 0 else -1) : Prog (Walk W) Int) walk = .ok (retval, walk') ∧
      Replays holds func walk inside world retval walk' := by
  have zeroOrMinusOne (closed : Bool) :
      (if closed then 0 else -1 : Int) = 0 ∨ (if closed then 0 else -1 : Int) = -1 := by
    cases closed
    · exact .inr rfl
    · exact .inl rfl
  cases dir_p with
  | none =>
      rw [surveyInside, call_step] at surveyed
      cases surveyed
      have skipped : readDirectory kernel flags self fuel dirpath none walk =
          .ok (.finished none, walk) := rfl
      rw [bind_ok skipped]
      exact ⟨zeroOrMinusOne _, endDirectory_replays flags func laws isDirectory walk none⟩
  | some dir_p =>
      rw [surveyInside] at surveyed
      obtain ⟨below, below_world, surveyedBelow, surveyed⟩ := bind_eq_ok surveyed
      obtain ⟨ended, walk₁, ran, replays⟩ :=
        readEntries_replays laws recursion fuel atDepth onDevice surveyedBelow
      have read : readDirectory kernel flags self fuel dirpath (some dir_p) walk =
          .ok (ended.notNull, walk₁) := by
        rw [readDirectory, bind_ok ran]
        rfl
      rw [bind_ok read]
      cases onward : (replay func walk.visits below.1).2 with
      | some value =>
          -- a callback below has stopped the walk
          have notZero := replay_value_ne onward
          have isReturned := replays.stopped value onward
          subst isReturned
          have extended : (inside.2 = 0 ∨ inside.2 = -1) ∧
              replay func walk.visits inside.1 = replay func walk.visits below.1 := by
            cases isLeft : below.2 with
            | none =>
                rw [isLeft] at surveyed
                cases surveyed
                exact ⟨.inr rfl, rfl⟩
            | some left =>
                rw [isLeft] at surveyed
                cases surveyed
                exact ⟨zeroOrMinusOne _, replay_append_stopped onward⟩
          have isValue : value = (replay func walk.visits below.1).2.getD inside.2 := by
            rw [onward]
            rfl
          exact ⟨extended.1, value, walk₁, rfl, .of_ended replays extended.2 isValue notZero⟩
      | none =>
          cases isLeft : below.2 with
          | none =>
              rw [isLeft] at surveyed
              cases surveyed
              have isReturned := replays.aborted onward isLeft
              subst isReturned
              have isValue : (-1 : Int) = (replay func walk.visits below.1).2.getD (-1) := by
                rw [onward]
                rfl
              exact ⟨.inr rfl, -1, walk₁, rfl, .of_ended replays rfl isValue (by decide)⟩
          | some left =>
              rw [isLeft] at surveyed
              cases surveyed
              obtain ⟨isFinished, sameWorld, sameLevel, sameDevno⟩ :=
                replays.finished left onward isLeft
              subst isFinished
              rw [← sameWorld]
              obtain ⟨retval, walk', ended, replaysEnd⟩ :=
                endDirectory_replays flags func laws isDirectory walk₁ (some left)
              have visits₁ : walk₁.visits = walk.visits ++ below.1 :=
                replays.visits.trans (replay_visits onward)
              exact ⟨zeroOrMinusOne _, retval, walk', ended,
                .onward onward visits₁ replays.descriptors sameLevel sameDevno replaysEnd⟩

theorem visitDirectory_replays (walk : Walk W) {visit : TypeFlag → Visit}
    (flagged : ∀ typeflag, (visit typeflag).typeflag = typeflag)
    {survey : Survey} {world : W} (atDepth : walk.level = depth)
    (onDevice : flags.FTW_MOUNT = true → walk.devno = device)
    (surveyed : surveyDirectory kernel flags surveySelf fuel dirpath visit walk.world =
      .ok (survey, world)) :
    (survey.2 = 0 ∨ survey.2 = -1) ∧ ∃ retval walk',
      visitDirectory kernel flags func self fuel dirpath visit walk = .ok (retval, walk') ∧
        Replays holds func walk survey world retval walk' := by
  rw [surveyDirectory, call_step] at surveyed
  obtain ⟨inside, _, surveyedInside, surveyed⟩ := bind_eq_ok surveyed
  cases surveyed
  rw [visitDirectory, onWorld_call_bind]
  have afterOpen := laws.opendir dirpath walk.world
  let dir_p := (kernel.opendir dirpath walk.world).1
  let own := visit (if dir_p.isNone then .FTW_DNR else .FTW_D)
  have isDirectory : own.typeflag.IsDirectory := by
    simp only [own, flagged]
    split
    · exact .inr rfl
    · exact .inl rfl
  let walk₁ : Walk W := { walk with world := (kernel.opendir dirpath walk.world).2 }
  by_cases order : flags.FTW_DEPTH = true
  · have skipped : callWhen func (!flags.FTW_DEPTH) own walk₁ = .ok (0, walk₁) := by
      rw [order]
      rfl
    rw [if_pos order, bind_ok skipped, if_neg (by simp)]
    obtain ⟨endings, retval, walk', ran, replays⟩ :=
      inside_replays laws recursion walk₁ isDirectory atDepth onDevice surveyedInside
    exact ⟨endings, retval, walk', ran, replays.visits, replays.value,
      fun fd held => replays.descriptors fd (afterOpen fd held), replays.goesOn⟩
  · let walk₂ : Walk W := { walk₁ with visits := walk.visits ++ [own] }
    have called : callWhen func (!flags.FTW_DEPTH) own walk₁ =
        .ok (func (walk.visits ++ [own]), walk₂) := by
      rw [Bool.not_eq_true] at order
      rw [order]
      rfl
    have replayed := replay_directory func walk.visits inside.1 isDirectory
    rw [if_neg order, bind_ok called]
    obtain ⟨endings, retval, walk', ran, replays⟩ :=
      inside_replays laws recursion walk₂ isDirectory atDepth onDevice surveyedInside
    refine ⟨endings, ?_⟩
    by_cases zero : func (walk.visits ++ [own]) = 0
    · rw [if_pos zero] at replayed
      rw [if_neg (not_not.mpr zero)]
      refine ⟨retval, walk', ran, ?_, ?_,
        fun fd held => replays.descriptors fd (afterOpen fd held), replays.goesOn⟩
      · exact replays.visits.trans (congrArg Prod.fst replayed).symm
      · rw [replayed]
        exact replays.value
    · rw [if_neg zero] at replayed
      rw [if_pos zero, onWorld_call_bind]
      refine ⟨_, _, rfl, ?_, ?_, fun fd held => laws.closedir _ _ fd (afterOpen fd held),
        fun isZero => absurd isZero zero⟩
      · exact (congrArg Prod.fst replayed).symm
      · rw [replayed]
        rfl

end Directories

/-- `my_nftw` makes the callbacks of its survey up to the first directory whose
callback returns a nonzero value, and returns that value. -/
theorem myNftw_replays (func : Func) (laws : kernel.Descriptors holds) (fuel : Nat) :
    ∀ (walk : Walk W) {depth device : Nat} {dirpath : CString} {surveyed : Survey} {world : W},
      walk.level = depth → (flags.FTW_MOUNT = true → 0 < depth → walk.devno = device) →
      survey kernel flags fuel depth device dirpath walk.world = .ok (surveyed, world) →
      (surveyed.2 = 0 ∨ surveyed.2 = -1) ∧ ∃ retval walk',
        myNftw kernel flags func fuel dirpath walk = .ok (retval, walk') ∧
          Replays holds func walk surveyed world retval walk' := by
  induction fuel with
  | zero => intro _ _ _ _ _ _ _ _ surveyed; cases surveyed
  | succ fuel inductionHypothesis =>
      intro walk depth device dirpath listed world atDepth onDevice surveyed
      subst atDepth
      obtain ⟨status, stat_world, stated, keptStat⟩ :=
        statEntry_ok flags laws dirpath walk.world
      rw [survey, bind_ok stated] at surveyed
      let devno := if flags.FTW_MOUNT = true ∧ walk.level = 0 then status.2.inode.st_dev
        else walk.devno
      let walk₁ : Walk W := { walk with world := stat_world }
      let walk₂ : Walk W := { walk₁ with devno := devno }
      have levelled : (getLevel : Prog (Walk W) Nat) walk = .ok (walk.level, walk) := rfl
      have recorded : recordDevice flags status.2.inode.st_dev walk₁ = .ok (devno, walk₂) := rfl
      have sameDevice : flags.FTW_MOUNT = true →
          devno = if walk.level = 0 then status.2.inode.st_dev else device := by
        intro mounted
        by_cases top : walk.level = 0
        · rw [if_pos top]
          exact if_pos ⟨mounted, top⟩
        · rw [if_neg top]
          exact (if_neg fun both => top both.2).trans
            (onDevice mounted (Nat.pos_of_ne_zero top))
      have sameDevno : 0 < walk.level → devno = walk.devno :=
        fun deep => if_neg fun both => absurd both.2 (Nat.ne_of_gt deep)
      rw [myNftw, bind_ok levelled, onWorld_bind stated]
      dsimp only
      rw [bind_ok recorded]
      -- the part after the device check runs in `walk₂`
      have transfer {listed : Survey} {world : W} {retval : Int} {walk' : Walk W}
          (replays : Replays holds func walk₂ listed world retval walk') :
          Replays holds func walk listed world retval walk' := by
        refine ⟨replays.visits, replays.value,
          fun fd held => replays.descriptors fd (keptStat fd held), fun zero => ?_⟩
        obtain ⟨world', level', devno'⟩ := replays.goesOn zero
        exact ⟨world', level', fun deep => (devno' deep).trans (sameDevno deep)⟩
      by_cases pruned : flags.FTW_MOUNT = true ∧ devno ≠ status.2.inode.st_dev
      · rw [if_pos pruned]
        rw [sameDevice pruned.1] at pruned
        rw [if_pos pruned] at surveyed
        cases surveyed
        exact ⟨.inl rfl, 0, walk₂, rfl, transfer
          ⟨rfl, rfl, fun _ => id, fun _ => ⟨rfl, rfl, fun _ => rfl⟩⟩⟩
      · rw [if_neg pruned]
        rw [if_neg fun both => pruned ⟨both.1, by rw [sameDevice both.1]; exact both.2⟩]
          at surveyed
        by_cases readable : status.1 = none
        · rw [if_pos readable] at surveyed ⊢
          by_cases isDirectory : status.2.st_mode = .directory
          · rw [if_pos isDirectory] at surveyed ⊢
            have below (inner : Walk W) (pathname : CString) (listed : Survey) (world : W)
                (deeper : inner.level = walk.level + 1)
                (onDevice : flags.FTW_MOUNT = true → inner.devno =
                  if walk.level = 0 then status.2.inode.st_dev else device)
                (surveyed : survey kernel flags fuel (walk.level + 1)
                    (if walk.level = 0 then status.2.inode.st_dev else device) pathname
                    inner.world = .ok (listed, world)) :=
              inductionHypothesis inner deeper (fun mounted _ => onDevice mounted) surveyed
            obtain ⟨endings, retval, walk', ran, replays⟩ := visitDirectory_replays laws below
              walk₂ (fun _ => rfl) rfl sameDevice surveyed
            exact ⟨endings, retval, walk', ran, transfer replays⟩
          · rw [if_neg isDirectory] at surveyed ⊢
            obtain ⟨endings, retval, walk', ran, replays⟩ :=
              visitFile_replays laws walk₂ (fun _ => rfl) surveyed
            exact ⟨endings, retval, walk', ran, transfer replays⟩
        · rw [if_neg readable] at surveyed ⊢
          cases surveyed
          exact ⟨.inl rfl, 0, _, rfl, transfer (replays_dropped
            (fun typeflag => ⟨dirpath, status.2, typeflag, scanBase dirpath dirpath.length,
              walk.level⟩) .FTW_NS rfl (by decide) fun _ => id)⟩

end Simulation

/-! ### The first nonzero value -/

/-- Every one of these callbacks returns 0. -/
def Quiet (func : Func) (visits : List Visit) : Prop :=
  ∀ before visit after, visits = before ++ visit :: after → func (before ++ [visit]) = 0

/-- No callback follows the first that returns a nonzero value, and the walk returns
that value. -/
def StopsAtFirst (func : Func) (visits : List Visit) (retval : Int) : Prop :=
  ∀ before visit after, visits = before ++ visit :: after → Quiet func before →
    func (before ++ [visit]) ≠ 0 → after = [] ∧ retval = func (before ++ [visit])

/-- The first entry of the survey for which the callback returns a nonzero value, if
there is one, is a directory; or it is the last entry, a system call then ends the
walk with -1, and the callback happens to return -1. -/
def Heeded (func : Func) (surveyed : Survey) : Prop :=
  ∀ before visit after, surveyed.1 = before ++ visit :: after → Quiet func before →
    func (before ++ [visit]) ≠ 0 →
      visit.typeflag.IsDirectory ∨ after = [] ∧ surveyed.2 = func (before ++ [visit])

section First

variable {func : Func}

theorem quiet_or_first (func : Func) (visits : List Visit) :
    Quiet func visits ∨ ∃ before visit after, visits = before ++ visit :: after ∧
      Quiet func before ∧ func (before ++ [visit]) ≠ 0 := by
  induction visits using List.reverseRecOn with
  | nil =>
      left
      intro before visit after split
      exact absurd split (by simp)
  | append_singleton before last inductionHypothesis =>
      rcases inductionHypothesis with quiet | ⟨first, visit, after, rfl, quiet, nonzero⟩
      · by_cases zero : func (before ++ [last]) = 0
        · left
          intro first visit after split
          rcases List.eq_nil_or_concat after with rfl | ⟨rest, final, rfl⟩
          · obtain ⟨rfl, same⟩ := List.append_inj' split rfl
            cases same
            exact zero
          · have shorter : before = first ++ visit :: rest := by
              rw [List.concat_eq_append, ← List.cons_append, ← List.append_assoc] at split
              exact (List.append_inj' split rfl).1
            exact quiet first visit rest shorter
        · exact .inr ⟨before, last, [], rfl, quiet, zero⟩
      · exact .inr ⟨first, visit, after ++ [last], by simp, quiet, nonzero⟩

/-- There is only one first nonzero value. -/
theorem first_unique {before before' after after' : List Visit} {visit visit' : Visit}
    (same : before ++ visit :: after = before' ++ visit' :: after')
    (quiet : Quiet func before) (quiet' : Quiet func before')
    (nonzero : func (before ++ [visit]) ≠ 0) (nonzero' : func (before' ++ [visit']) ≠ 0) :
    before = before' ∧ visit = visit' ∧ after = after' := by
  rcases List.append_eq_append_iff.mp same with ⟨gap, isLonger, rest⟩ | ⟨gap, isLonger, rest⟩
  · cases gap with
    | nil =>
        rw [List.append_nil] at isLonger
        cases rest
        exact ⟨isLonger.symm, rfl, rfl⟩
    | cons first more =>
        cases rest
        exact absurd (quiet' before visit more isLonger) nonzero
  · cases gap with
    | nil =>
        rw [List.append_nil] at isLonger
        cases rest
        exact ⟨isLonger, rfl, rfl⟩
    | cons first more =>
        cases rest
        exact absurd (quiet before' visit' more isLonger) nonzero'

theorem replay_quiet {seen visits : List Visit} (quiet : Quiet func (seen ++ visits)) :
    replay func seen visits = (seen ++ visits, none) := by
  induction visits generalizing seen with
  | nil => rw [List.append_nil, replay]
  | cons visit rest inductionHypothesis =>
      have zero := quiet seen visit rest rfl
      rw [replay, if_neg fun stops => stops.2 zero]
      rw [List.append_cons] at quiet
      rw [inductionHypothesis quiet, ← List.append_cons]

theorem replay_extends (func : Func) (seen visits : List Visit) :
    ∃ more, (replay func seen visits).1 = seen ++ more ∧ (visits ≠ [] → more ≠ []) := by
  induction visits generalizing seen with
  | nil => exact ⟨[], by rw [replay, List.append_nil], fun notEmpty => absurd rfl notEmpty⟩
  | cons visit rest inductionHypothesis =>
      rw [replay]
      split
      · exact ⟨[visit], rfl, fun _ => by simp⟩
      · obtain ⟨more, extended, _⟩ := inductionHypothesis (seen ++ [visit])
        exact ⟨visit :: more, by rw [extended, List.append_assoc, List.singleton_append], by simp⟩

/-- A replay stops at the first nonzero value exactly when that value is heeded. -/
theorem stopsAtFirst_replay_iff (surveyed : Survey) :
    StopsAtFirst func (replay func [] surveyed.1).1
        ((replay func [] surveyed.1).2.getD surveyed.2) ↔ Heeded func surveyed := by
  obtain ⟨visits, ending⟩ := surveyed
  rcases quiet_or_first func visits with quiet | ⟨before, visit, after, rfl, quiet, nonzero⟩
  · have whole : replay func [] visits = (visits, none) := replay_quiet quiet
    rw [whole]
    constructor
    · intro _ before visit after split _ nonzero
      exact absurd (quiet before visit after split) nonzero
    · intro _ before visit after split _ nonzero
      exact absurd (quiet before visit after split) nonzero
  · have untilFirst : replay func [] before = (before, none) := replay_quiet quiet
    have onward : replay func [] (before ++ visit :: after) =
        replay func before (visit :: after) :=
      replay_append (by rw [untilFirst])
    -- both sides are about the one split at the first nonzero value
    have heeded_iff : Heeded func (before ++ visit :: after, ending) ↔
        visit.typeflag.IsDirectory ∨ after = [] ∧ ending = func (before ++ [visit]) := by
      constructor
      · intro heeded
        exact heeded before visit after rfl quiet nonzero
      · rintro holds before' visit' after' split quiet' nonzero'
        obtain ⟨rfl, rfl, rfl⟩ := first_unique split quiet quiet' nonzero nonzero'
        exact holds
    have stops_iff {rest : List Visit} {retval : Int} :
        StopsAtFirst func (before ++ visit :: rest) retval ↔
          rest = [] ∧ retval = func (before ++ [visit]) := by
      constructor
      · intro stops
        exact stops before visit rest rfl quiet nonzero
      · rintro holds before' visit' rest' split quiet' nonzero'
        obtain ⟨rfl, rfl, rfl⟩ := first_unique split quiet quiet' nonzero nonzero'
        exact holds
    rw [heeded_iff]
    dsimp only
    rw [onward, replay]
    by_cases isDirectory : visit.typeflag.IsDirectory
    · rw [if_pos ⟨isDirectory, nonzero⟩]
      exact iff_of_true (stops_iff.mpr ⟨rfl, rfl⟩) (.inl isDirectory)
    · rw [if_neg fun stops => isDirectory stops.1]
      cases after with
      | nil =>
          rw [replay]
          exact stops_iff.trans ⟨fun ⟨_, same⟩ => .inr ⟨rfl, same⟩,
            fun holds => (holds.resolve_left isDirectory)⟩
      | cons next later =>
          obtain ⟨more, extended, notEmpty⟩ :=
            replay_extends func (before ++ [visit]) (next :: later)
          rw [extended, List.append_assoc, List.singleton_append, stops_iff]
          refine iff_of_false (fun stops => notEmpty (by simp) stops.1) ?_
          rintro (directory | ⟨empty, _⟩)
          · exact isDirectory directory
          · cases empty

end First

/-- For every kernel, every combination of flags, every callback and every start:
the walk makes no callback after the first one that returns a nonzero value, and
returns that value, exactly when that callback is for a directory (or the walk ends
there anyway, with that value). -/
theorem stopsAtFirst_iff_heeded {W S : Type} (kernel : Kernel W S) (holds : W → Nat → Prop)
    (laws : kernel.Descriptors holds) (flags : Flags) (func : Func) (fuel : Nat)
    (dirpath : CString) (world world' : W) (devno : Nat) (surveyed : Survey)
    (complete : survey kernel flags fuel 0 devno dirpath world = .ok (surveyed, world')) :
    ∃ retval walk', myNftw kernel flags func fuel dirpath ⟨world, 0, devno, []⟩ =
        .ok (retval, walk') ∧
      (StopsAtFirst func walk'.visits retval ↔ Heeded func surveyed) := by
  obtain ⟨_, retval, walk', ran, replays⟩ := myNftw_replays func laws fuel
    ⟨world, 0, devno, []⟩ rfl (fun _ deep => absurd deep (Nat.lt_irrefl 0)) complete
  refine ⟨retval, walk', ran, ?_⟩
  rw [replays.visits, replays.value]
  exact stopsAtFirst_replay_iff surveyed

/-- The root with the two files `a` and `b`. -/
def twoFiles : FileSystem :=
  FileSystem.ofTree
    (.dir ⟨1, 1⟩ [([97], .leaf ⟨⟨1, 2⟩, none⟩), ([98], .leaf ⟨⟨1, 3⟩, none⟩)]) trivial (by decide)

/-- Every callback with this type flag returns 7. -/
def stopAt (typeflag : TypeFlag) : Func := fun visits =>
  if visits.getLast?.map Visit.typeflag = some typeflag then 7 else 0

/-- A walk from the root of `twoFiles` without flags. -/
def walkTwoFiles (func : Func) : Except Stop (Int × Walk Process) :=
  myNftw (treeKernel twoFiles ⟨⟨0, 0⟩, .other⟩) ⟨false, false, false, false⟩ func 6 [slash]
    ⟨⟨[], [], 0⟩, 0, 0, []⟩

def twoFilesVisits : List Visit :=
  [⟨[47], ⟨⟨1, 1⟩, .directory⟩, .FTW_D, 0, 0⟩, ⟨[47, 47, 97], ⟨⟨1, 2⟩, .other⟩, .FTW_F, 1, 1⟩,
    ⟨[47, 47, 98], ⟨⟨1, 3⟩, .other⟩, .FTW_F, 1, 1⟩]

theorem stopsAtFirst_iff_heeded_twoFiles :
    ∃ retval walk', walkTwoFiles (stopAt .FTW_D) = .ok (retval, walk') ∧
      (StopsAtFirst (stopAt .FTW_D) walk'.visits retval ↔
        Heeded (stopAt .FTW_D) (twoFilesVisits, 0)) :=
  stopsAtFirst_iff_heeded (treeKernel twoFiles ⟨⟨0, 0⟩, .other⟩) Process.Holds
    (treeKernel_descriptors twoFiles ⟨⟨0, 0⟩, .other⟩) ⟨false, false, false, false⟩
    (stopAt .FTW_D) 6 [slash] ⟨[], [], 0⟩ ⟨[], [], 0⟩ 0 (twoFilesVisits, 0) (by decide +kernel)

/-- The callback returns 7 for `a`, and the walk goes on to `b`. -/
theorem walk_goes_on_after_file :
    ∃ walk', walkTwoFiles (stopAt .FTW_F) = .ok (0, walk') ∧
      ¬ StopsAtFirst (stopAt .FTW_F) walk'.visits 0 := by
  have ran : walkTwoFiles (stopAt .FTW_F) = .ok (0, ⟨⟨[], [], 0⟩, 0, 0, twoFilesVisits⟩) := by
    decide +kernel
  refine ⟨_, ran, fun stops => ?_⟩
  have quiet : Quiet (stopAt .FTW_F) (twoFilesVisits.take 1) := by
    intro before visit after split
    obtain ⟨rfl, rfl, rfl⟩ :
        before = [] ∧ twoFilesVisits.head (by decide) = visit ∧ after = [] := by
      cases before with
      | nil =>
          cases split
          exact ⟨rfl, rfl, rfl⟩
      | cons first rest => exact absurd (congrArg List.length split) (by simp [twoFilesVisits])
    decide
  have stopped := stops (twoFilesVisits.take 1) _ _ rfl quiet (by decide)
  exact absurd stopped.1 (by decide)

end LinuxProgramming.Files
