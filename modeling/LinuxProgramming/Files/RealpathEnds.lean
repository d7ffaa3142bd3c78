import Mathlib.Data.Set.Finite.List
import LinuxProgramming.Library.Pushdown
import LinuxProgramming.Files.RealpathState
import LinuxProgramming.Files.Resolution

/-!
Contract: when the loop of `my_realpath` ends, on trees with links.

Owns:
- what an iteration does to the buffer, the cursor and the list of components,
  whatever the tree and the state;
- the loop as work on a stack, with finitely many heads;
- `myRealpath` ends exactly if no component is met within its own expansion.

Does not own: what the function returns.
-/

namespace LinuxProgramming.Files

open LinuxProgramming.Library

/-! ### One iteration -/

/-- The components of all targets, as far as `readlink` puts them into the buffer. -/
def targetComponents (fs : FileSystem) : List CString :=
  (fs.tree.preorder []).flatMap fun listed =>
    match targetOf listed.2 with
    | none => []
    | some target => Pathname.pieces slash (target.take PATH_MAX)

/-- An iteration, of which the components left behind the one it takes are open. -/
abbrev Iteration := List CString → Except Stop (Progress × Process)

/-- The loop goes on with a buffer and a cursor, and with components put in front of
those that are left, whichever these are. -/
def Onward (process : Process) (iteration : Iteration) (after : List UInt8 × Nat)
    (pushed : List CString) : Prop :=
  ∀ rest, iteration rest = .ok (.next ⟨after.1, after.2, pushed ++ rest⟩, process)

/-- The loop ends, with a failure, with a write outside the buffer or because nothing
is left. -/
def Final (iteration : Iteration) : Prop :=
  ∀ rest, iteration rest = .error .overflow ∨
    (∃ errno process', iteration rest = .ok (.failed errno, process')) ∨
    ∃ buffer lrp_p process', iteration rest = .ok (.next ⟨buffer, lrp_p, []⟩, process')

/-- What bounds the states of the loop. -/
structure Bounded (fs : FileSystem) (size limit : Nat) (after : List UInt8 × Nat)
    (pushed : List CString) : Prop where
  size : after.1.length = size
  cursor : after.2 ≤ limit
  names : ∀ name ∈ pushed, name ∈ targetComponents fs

/-- Every iteration is of one of the two kinds. -/
def EndsOrGoesOn (fs : FileSystem) (process : Process) (size limit : Nat) (iteration : Iteration) :
    Prop :=
  Final iteration ∨ ∃ after pushed, Onward process iteration after pushed ∧
    Bounded fs size limit after pushed

section Iteration

variable {fs : FileSystem} {leftover : Stat} {process : Process} {buffer : List UInt8}
  {lrp_p size limit : Nat} {name : CString}

theorem mem_targetComponents {position : Position CString} {found : Tree} {target : CString}
    (located : fs.tree.at? position = some found) (isLink : targetOf found = some target)
    (member : name ∈ Pathname.pieces slash (target.take PATH_MAX)) :
    name ∈ targetComponents fs := by
  refine List.mem_flatMap.mpr ⟨_, FileTree.mem_preorder located, ?_⟩
  simpa only [List.append_nil, isLink] using member

/-- There are none in a tree without links. -/
theorem FileSystem.NoLinks.targetComponents (noLinks : fs.NoLinks) : targetComponents fs = [] := by
  refine List.flatMap_eq_nil_iff.mpr fun listed member => ?_
  obtain ⟨position, found⟩ := listed
  have located := (FileTree.mem_preorder_iff fs.uniqueNames).mp member
  dsimp only
  rw [noLinks position found located]

theorem EndsOrGoesOn.stopped {iteration : Iteration}
    (stops : ∀ rest, iteration rest = .error .overflow) :
    EndsOrGoesOn fs process size limit iteration :=
  .inl fun rest => .inl (stops rest)

theorem EndsOrGoesOn.failed {iteration : Iteration} (errno : Option Errno)
    (fails : ∀ rest, iteration rest = .ok (.failed errno, process)) :
    EndsOrGoesOn fs process size limit iteration :=
  .inl fun rest => .inr (.inl ⟨_, _, fails rest⟩)

/-- A write, and what comes behind it if it stays inside the buffer. -/
theorem EndsOrGoesOn.put {index : Nat} {symbols : List UInt8}
    {next : List CString → List UInt8 → Prog Process Progress}
    (writes : ∀ buffer', CBuffer.write? buffer index symbols = some buffer' →
      EndsOrGoesOn fs process size limit fun rest => next rest buffer' process) :
    EndsOrGoesOn fs process size limit fun rest =>
      (Files.put buffer index symbols >>= next rest) process := by
  cases written : CBuffer.write? buffer index symbols with
  | none => exact .stopped fun rest => put_bind_overflow written _ _
  | some buffer' =>
      simp only [put_bind written]
      exact writes buffer' written

theorem goesOn {buffer' : List UInt8} {lrp_p' : Nat} (pushed : List CString)
    (bounded : Bounded fs size limit (buffer', lrp_p') pushed) :
    EndsOrGoesOn fs process size limit fun rest =>
      (pure (.next ⟨buffer', lrp_p', pushed ++ rest⟩) : Prog Process Progress) process :=
  .inr ⟨(buffer', lrp_p'), pushed, fun _ => rfl, bounded⟩

theorem readlink_cases (fs : FileSystem) (leftover : Stat) (pathname : CString)
    (process : Process) :
    (∃ errno, (treeKernel fs leftover).readlink pathname process = (.error errno, process)) ∨
    ∃ target position found, fs.tree.at? position = some found ∧ targetOf found = some target ∧
      (treeKernel fs leftover).readlink pathname process = (.ok target, process) := by
  cases finds : fs.find false process.cwd pathname with
  | error errno => exact .inl ⟨errno, by simp only [treeKernel, finds]⟩
  | ok found =>
      cases isLink : targetOf found.2 with
      | none => exact .inl ⟨.einval, by simp only [treeKernel, finds, isLink]⟩
      | some target =>
          exact .inr ⟨target, found.1, found.2, FileSystem.at?_of_find finds, isLink,
            by simp only [treeKernel, finds, isLink]⟩

theorem lstat_world (fs : FileSystem) (leftover : Stat) (pathname : CString) (process : Process) :
    ∃ status, (treeKernel fs leftover).lstat pathname process = (status, process) := by
  simp only [treeKernel]
  split <;> exact ⟨_, rfl⟩

theorem followLink_endsOrGoesOn (long : buffer.length = size) (cursor : lrp_p ≤ limit)
    (positive : 1 ≤ limit) :
    EndsOrGoesOn fs process size limit fun rest =>
      followLink (treeKernel fs leftover) buffer lrp_p name rest process := by
  rcases readlink_cases fs leftover (CBuffer.string 0 buffer) process with
    ⟨errno, reads⟩ | ⟨target, position, found, located, isLink, reads⟩
  · refine .failed (some errno) fun rest => ?_
    rw [followLink, call_bind _ reads]
    rfl
  simp only [followLink, call_bind _ reads]
  have capped : (if (target.take PATH_MAX).head? = some slash then 1 else lrp_p) ≤ limit := by
    split
    · exact positive
    · exact cursor
  generalize (if (target.take PATH_MAX).head? = some slash then 1 else lrp_p) = cursor' at capped
  split
  · exact .stopped fun _ => rfl
  cases parsed : getPartPath (some (target.take PATH_MAX)) with
  | none => exact .stopped fun _ => rfl
  | some list =>
      obtain ⟨nodes, ended⟩ := getPartPath_ended parsed
      dsimp only
      split
      · exact .put fun buffer' written => goesOn []
          ⟨(CBuffer.of_write? written).2.trans long, positive, nofun⟩
      split
      · exact .stopped fun _ => rfl
      · refine .put fun buffer' written => ?_
        simp only [ended.linkAfter_eq]
        refine goesOn _ ⟨(CBuffer.of_write? written).2.trans long,
          Nat.le_trans (Nat.sub_le _ _) capped, fun other member => ?_⟩
        exact mem_targetComponents located isLink (nodes ▸ member)

/-- The step lemma: every iteration ends the loop or keeps its states bounded. -/
theorem resolveComponent_endsOrGoesOn (long : buffer.length = size) (cursor : lrp_p ≤ limit)
    (room : size + 1 ≤ limit) :
    EndsOrGoesOn fs process size limit fun rest =>
      resolveComponent (treeKernel fs leftover) buffer lrp_p name rest process := by
  have positive : 1 ≤ limit := Nat.le_trans (Nat.le_add_left 1 size) room
  by_cases isDotDot : name = dotDot
  · simp only [resolveComponent, if_pos isDotDot]
    refine .put fun buffer' written => goesOn [] ?_
    exact ⟨(CBuffer.of_write? written).2.trans long,
      Nat.le_trans (scanSlash_le _ _) (Nat.max_le.mpr ⟨cursor, positive⟩), nofun⟩
  by_cases isDot : name = dot
  · simp only [resolveComponent, if_neg isDotDot, if_pos isDot]
    exact goesOn [] ⟨long, cursor, nofun⟩
  simp only [resolveComponent, if_neg isDotDot, if_neg isDot]
  refine .put fun slashed isSlashed => .put fun buffer' written => ?_
  have slashedLong := (CBuffer.of_write? isSlashed).2
  obtain ⟨fits, sameLong⟩ := CBuffer.of_write? written
  rw [List.length_append, List.length_singleton] at fits
  have long' : buffer'.length = size := by omega
  have cursor' : lrp_p + 1 + name.length ≤ limit := by omega
  obtain ⟨status, looks⟩ := lstat_world fs leftover (CBuffer.string 0 buffer') process
  simp only [call_bind _ looks]
  split
  · exact .failed status.1 fun _ => rfl
  cases status.2.st_mode with
  | directory => exact goesOn [] ⟨long', cursor', nofun⟩
  | symbolicLink => exact followLink_endsOrGoesOn long' (by omega) positive
  | other =>
      refine .inl fun rest => ?_
      dsimp only
      by_cases more : rest ≠ []
      · rw [if_pos more]
        exact .inr (.inl ⟨_, _, rfl⟩)
      · rw [if_neg more, not_not.mp more]
        exact .inr (.inr ⟨_, _, _, rfl⟩)

end Iteration

/-! ### The loop as work on a stack -/

/-- The components are the stack, the buffer and the cursor the state. A rule is an
iteration after which the loop goes on. -/
def expansion (fs : FileSystem) (leftover : Stat) (process : Process) :
    Pushdown (List UInt8 × Nat) CString where
  Rule before name after pushed :=
    Onward process
      (fun rest => resolveComponent (treeKernel fs leftover) before.1 before.2 name rest process)
      after pushed

section Stack

variable {fs : FileSystem} {leftover : Stat} {process : Process} {buffer : List UInt8}
  {lrp_p size limit : Nat} {name : CString} {pending : List CString}

theorem Onward.not_final {iteration : Iteration} {after : List UInt8 × Nat}
    {pushed : List CString} (onward : Onward process iteration after pushed) :
    ¬ Final iteration := by
  intro final
  have goes := onward [dot]
  rcases final [dot] with stops | ⟨errno, process', fails⟩ | ⟨buffer, lrp_p, process', ends⟩
  · rw [stops] at goes
    cases goes
  · rw [fails] at goes
    cases goes
  · rw [ends] at goes
    simp at goes

theorem Onward.unique {iteration : Iteration} {after after' : List UInt8 × Nat}
    {pushed pushed' : List CString} (onward : Onward process iteration after pushed)
    (onward' : Onward process iteration after' pushed') : after = after' ∧ pushed = pushed' := by
  have same := (onward []).symm.trans (onward' [])
  simp only [List.append_nil, Except.ok.injEq, Prod.mk.injEq, Progress.next.injEq,
    Resolving.mk.injEq, and_true] at same
  obtain ⟨sameBuffer, sameCursor, samePushed⟩ := same
  exact ⟨Prod.ext sameBuffer sameCursor, samePushed⟩

theorem rule_bounded {before after : List UInt8 × Nat} {pushed : List CString}
    (rule : (expansion fs leftover process).Rule before name after pushed)
    (long : before.1.length = size) (cursor : before.2 ≤ limit) (room : size + 1 ≤ limit) :
    Bounded fs size limit after pushed := by
  rcases resolveComponent_endsOrGoesOn long cursor room with
    final | ⟨after', pushed', onward, bounded⟩
  · exact absurd final (Onward.not_final rule)
  · obtain ⟨rfl, rfl⟩ := Onward.unique rule onward
    exact bounded

/-- What holds of every configuration of a run. -/
theorem run_bounded {start after : (List UInt8 × Nat) × List CString}
    (run : Relation.ReflTransGen (expansion fs leftover process).Step start after) :
    after.1.1.length = start.1.1.length ∧ after.1.2 ≤ max start.1.2 (start.1.1.length + 1) ∧
      ∀ name ∈ after.2, name ∈ start.2 ++ targetComponents fs := by
  induction run with
  | refl =>
      exact ⟨rfl, Nat.le_max_left _ _, fun name member => List.mem_append_left _ member⟩
  | tail _ step inductionHypothesis =>
      obtain ⟨long, cursor, names⟩ := inductionHypothesis
      obtain ⟨rest, rule⟩ := step
      have bounded := rule_bounded rule long cursor (Nat.le_max_right _ _)
      refine ⟨bounded.size, bounded.cursor, fun name member => ?_⟩
      rcases List.mem_append.mp member with pushed | left
      · exact List.mem_append_right _ (bounded.names name pushed)
      · exact names name (List.mem_cons_of_mem _ left)

theorem finite_heads (fs : FileSystem) (leftover : Stat) (process : Process)
    (start : (List UInt8 × Nat) × List CString) :
    {head | (expansion fs leftover process).Meets start head}.Finite := by
  have bytes : Finite UInt8 := .of_injective UInt8.toFin fun _ _ => UInt8.toFin_inj.mp
  have buffers : {buffer : List UInt8 | buffer.length = start.1.1.length}.Finite :=
    List.finite_length_eq UInt8 _
  have cursors : {cursor | cursor ≤ max start.1.2 (start.1.1.length + 1)}.Finite :=
    Set.finite_le_nat _
  have names : {name | name ∈ start.2 ++ targetComponents fs}.Finite := List.finite_toSet _
  refine ((buffers.prod cursors).prod names).subset ?_
  rintro ⟨state, name⟩ ⟨rest, run⟩
  obtain ⟨long, cursor, member⟩ := run_bounded run
  exact ⟨⟨long, cursor⟩, member name List.mem_cons_self⟩

theorem resolveComponents_onward {after : List UInt8 × Nat} {pushed : List CString}
    (rule : (expansion fs leftover process).Rule (buffer, lrp_p) name after pushed) (fuel : Nat)
    (rest : List CString) :
    resolveComponents (treeKernel fs leftover) (fuel + 1) ⟨buffer, lrp_p, name :: rest⟩ process =
      resolveComponents (treeKernel fs leftover) fuel ⟨after.1, after.2, pushed ++ rest⟩
        process :=
  resolveComponents_next (rule rest) fuel

theorem resolveComponents_final (fuel : Nat) (rest : List CString)
    (final : Final fun rest =>
      resolveComponent (treeKernel fs leftover) buffer lrp_p name rest process) :
    resolveComponents (treeKernel fs leftover) (fuel + 1) ⟨buffer, lrp_p, name :: rest⟩ process ≠
      .error .outOfFuel := by
  rcases final rest with stops | ⟨errno, process', fails⟩ | ⟨buffer', lrp_p', process', ends⟩
  · rw [resolveComponents_stopped stops]
    nofun
  · rw [resolveComponents_failed fails]
    nofun
  · rw [resolveComponents_next ends, resolveComponents_nil]
    nofun

/-- The induction is on the runs of the stack. -/
theorem resolveComponents_of_ends {start : (List UInt8 × Nat) × List CString}
    (ends : (expansion fs leftover process).Ends start) :
    ∃ bound, ∀ fuel, bound ≤ fuel → resolveComponents (treeKernel fs leftover) fuel
      ⟨start.1.1, start.1.2, start.2⟩ process ≠ .error .outOfFuel := by
  induction ends with
  | intro start _ inductionHypothesis =>
      obtain ⟨⟨buffer, lrp_p⟩, pending⟩ := start
      cases pending with
      | nil =>
          refine ⟨0, fun fuel _ => ?_⟩
          rw [resolveComponents_nil]
          nofun
      | cons name rest =>
          have endsOrGoesOn : EndsOrGoesOn fs process buffer.length
              (max lrp_p (buffer.length + 1)) fun rest =>
                resolveComponent (treeKernel fs leftover) buffer lrp_p name rest process :=
            resolveComponent_endsOrGoesOn rfl (Nat.le_max_left _ _) (Nat.le_max_right _ _)
          rcases endsOrGoesOn with final | ⟨after, pushed, onward, _⟩
          · refine ⟨1, fun fuel enough => ?_⟩
            obtain ⟨fuel, rfl⟩ := Nat.exists_eq_succ_of_ne_zero (Nat.ne_of_gt enough)
            exact resolveComponents_final fuel rest final
          · obtain ⟨bound, runs⟩ := inductionHypothesis (after, pushed ++ rest) (.apply rest onward)
            refine ⟨bound + 1, fun fuel enough => ?_⟩
            obtain ⟨fuel, rfl⟩ := Nat.exists_eq_succ_of_ne_zero
              (Nat.ne_of_gt (Nat.lt_of_lt_of_le (Nat.succ_pos bound) enough))
            rw [resolveComponents_onward onward]
            exact runs fuel (Nat.le_of_succ_le_succ enough)

/-- The induction is on the fuel with which the loop ends. -/
theorem ends_of_resolveComponents (fuel : Nat)
    (returns : resolveComponents (treeKernel fs leftover) fuel ⟨buffer, lrp_p, pending⟩ process ≠
      .error .outOfFuel) :
    (expansion fs leftover process).Ends ((buffer, lrp_p), pending) := by
  induction fuel generalizing buffer lrp_p pending with
  | zero =>
      cases pending with
      | nil => exact Pushdown.ends_nil _
      | cons name rest => exact absurd rfl returns
  | succ fuel inductionHypothesis =>
      cases pending with
      | nil => exact Pushdown.ends_nil _
      | cons name rest =>
          refine .intro _ ?_
          rintro _ ⟨_, rule⟩
          rw [resolveComponents_onward rule] at returns
          exact inductionHypothesis returns

end Stack

/-! ### The function -/

/-- From the start of the function, a component is met while what its own link has
put in its place is not used up: with the same buffer and cursor, so that it is
expanded in the same way again. -/
def ExpandsItself (fs : FileSystem) (leftover : Stat) (process : Process) (pathname : CString)
    (buffer : List UInt8) : Prop :=
  ∃ state list head,
    startPath (treeKernel fs leftover) pathname buffer process = .ok (some state, process) ∧
    getPartPath (some pathname) = some list ∧
    (expansion fs leftover process).Meets (state, list.nodes) head ∧
    (expansion fs leftover process).Within head head

/-- Without links every component is used up at once. -/
theorem FileSystem.NoLinks.not_expandsItself {fs : FileSystem} (noLinks : fs.NoLinks)
    (leftover : Stat) (process : Process) (pathname : CString) (buffer : List UInt8) :
    ¬ ExpandsItself fs leftover process pathname buffer := by
  rintro ⟨_, _, head, _, _, _, rest, run⟩
  obtain ⟨_, ⟨_, rule⟩, run⟩ := Relation.TransGen.head'_iff.mp run
  have bounded := rule_bounded rule rfl (Nat.le_max_left _ _) (Nat.le_max_right _ _)
  have empty := List.eq_nil_iff_forall_not_mem.mpr fun name member =>
    absurd (bounded.names name member) (by rw [noLinks.targetComponents]; exact List.not_mem_nil)
  rw [empty, List.append_nil] at run
  rcases run.cases_head with same | ⟨_, step, _⟩
  · exact List.cons_ne_nil _ _ (Prod.mk.inj same).2.symm
  · cases step

theorem startPath_cases (fs : FileSystem) (leftover : Stat) (process : Process)
    (pathname : CString) (buffer : List UInt8) :
    startPath (treeKernel fs leftover) pathname buffer process = .error .overflow ∨
    ∃ started, startPath (treeKernel fs leftover) pathname buffer process =
      .ok (started, process) := by
  rw [startPath]
  cases isSlashed : CBuffer.write? buffer 0 [slash] with
  | none => exact .inl (put_bind_overflow isSlashed _ _)
  | some slashed =>
      rw [put_bind isSlashed]
      cases isWritten : CBuffer.write? slashed 1 [0] with
      | none => exact .inl (put_bind_overflow isWritten _ _)
      | some written =>
          rw [put_bind isWritten]
          split
          · have gets : ∃ cwd,
                (treeKernel fs leftover).getcwd PATH_MAX process = (cwd, process) := by
              simp only [treeKernel]
              split <;> exact ⟨_, rfl⟩
            obtain ⟨cwd, gets⟩ := gets
            rw [call_bind _ gets]
            cases cwd with
            | none => exact .inr ⟨_, rfl⟩
            | some cwd =>
                dsimp only
                cases isCopied : CBuffer.write? written 0 (cwd ++ [0]) with
                | none => exact .inl (put_bind_overflow isCopied _ _)
                | some copied =>
                    rw [put_bind isCopied]
                    exact .inr ⟨_, rfl⟩
          · exact .inr ⟨_, rfl⟩

theorem myRealpath_eq {fs : FileSystem} {leftover : Stat} {process : Process}
    {pathname : CString} {resolved_path allocated : Option (List UInt8)} {buffer : List UInt8}
    {state : List UInt8 × Nat} {list : PartPath} (short : pathname.length ≤ PATH_MAX)
    (given : resolved_path.or allocated = some buffer)
    (started : startPath (treeKernel fs leftover) pathname buffer process =
      .ok (some state, process))
    (parsed : getPartPath (some pathname) = some list) (fuel : Nat) :
    myRealpath (treeKernel fs leftover) fuel (some pathname) resolved_path allocated process =
      resolveComponents (treeKernel fs leftover) fuel ⟨state.1, state.2, list.nodes⟩ process := by
  rw [myRealpath, if_neg (Nat.not_lt.mpr short), given]
  dsimp only
  rw [bind_ok started]
  dsimp only
  rw [parsed]

/-- The function ends before the loop, or there is a state to start it from. -/
theorem myRealpath_cases (fs : FileSystem) (leftover : Stat) (process : Process)
    (pathname : CString) (resolved_path allocated : Option (List UInt8)) :
    (∀ fuel, myRealpath (treeKernel fs leftover) fuel (some pathname) resolved_path allocated
      process ≠ .error .outOfFuel) ∨
    ∃ buffer state list, pathname.length ≤ PATH_MAX ∧ resolved_path.or allocated = some buffer ∧
      startPath (treeKernel fs leftover) pathname buffer process = .ok (some state, process) ∧
      getPartPath (some pathname) = some list := by
  by_cases short : pathname.length ≤ PATH_MAX
  swap
  · refine .inl fun fuel => ?_
    rw [myRealpath, if_pos (Nat.not_le.mp short)]
    nofun
  cases given : resolved_path.or allocated with
  | none =>
      refine .inl fun fuel => ?_
      rw [myRealpath, if_neg (Nat.not_lt.mpr short), given]
      nofun
  | some buffer =>
      rcases startPath_cases fs leftover process pathname buffer with stops | ⟨_ | state, started⟩
      · refine .inl fun fuel => ?_
        rw [myRealpath, if_neg (Nat.not_lt.mpr short), given]
        show (startPath _ _ _ process).bind _ ≠ _
        rw [stops]
        nofun
      · refine .inl fun fuel => ?_
        rw [myRealpath, if_neg (Nat.not_lt.mpr short), given]
        dsimp only
        rw [bind_ok started]
        nofun
      · cases parsed : getPartPath (some pathname) with
        | none =>
            refine .inl fun fuel => ?_
            rw [myRealpath, if_neg (Nat.not_lt.mpr short), given]
            dsimp only
            rw [bind_ok started]
            dsimp only
            rw [parsed]
            nofun
        | some list => exact .inr ⟨buffer, state, list, short, rfl, started, rfl⟩

/-- The root with the link `a`, which leads to `a`. -/
def selfLinkTree : Tree := .dir ⟨1, 1⟩ [([97], .leaf ⟨⟨1, 2⟩, some [97]⟩)]

def selfLink : FileSystem := FileSystem.ofTree selfLinkTree trivial (by decide)

/-- `"/a"` -/
def selfPathname : CString := [47, 97]

/-- One iteration leads back to the same component with the same cursor, and to a
buffer with the empty string in front of the name. -/
theorem selfLink_again (first second third : UInt8) (others : List UInt8) :
    resolveComponent (treeKernel selfLink ⟨⟨0, 0⟩, .other⟩) (first :: second :: third :: others) 0
        [97] [] ⟨[], [], 0⟩ =
      .ok (.next ⟨0 :: 97 :: 0 :: others, 0, [[97]]⟩, ⟨[], [], 0⟩) := by
  have slashed : CBuffer.write? (first :: second :: third :: others) 0 [slash] =
      some (slash :: second :: third :: others) := by simp [CBuffer.write?]
  have named : CBuffer.write? (slash :: second :: third :: others) (0 + 1) ([97] ++ [0]) =
      some (slash :: 97 :: 0 :: others) := by simp [CBuffer.write?]
  have cleared : CBuffer.write? (slash :: 97 :: 0 :: others) (0 + 1 - [(97 : UInt8)].length) [0] =
      some (0 :: 97 :: 0 :: others) := by simp [CBuffer.write?]
  have string : CBuffer.string 0 (slash :: 97 :: 0 :: others) = selfPathname := rfl
  have looks : (treeKernel selfLink ⟨⟨0, 0⟩, .other⟩).lstat selfPathname ⟨[], [], 0⟩ =
      ((none, ⟨⟨1, 2⟩, .symbolicLink⟩), ⟨[], [], 0⟩) := rfl
  have reads : (treeKernel selfLink ⟨⟨0, 0⟩, .other⟩).readlink selfPathname ⟨[], [], 0⟩ =
      (.ok [97], ⟨[], [], 0⟩) := rfl
  rw [resolveComponent, if_neg (by decide), if_neg (by decide), put_bind slashed, put_bind named,
    string, call_bind _ looks]
  dsimp only
  rw [if_neg (by decide), followLink, string, call_bind _ reads]
  exact put_bind cleared _ _

theorem selfLink_loops (fuel : Nat) (first second third : UInt8) (others : List UInt8) :
    resolveComponents (treeKernel selfLink ⟨⟨0, 0⟩, .other⟩) fuel
      ⟨first :: second :: third :: others, 0, [[97]]⟩ ⟨[], [], 0⟩ = .error .outOfFuel := by
  induction fuel generalizing first second third with
  | zero => rfl
  | succ fuel inductionHypothesis =>
      rw [resolveComponents_next (selfLink_again first second third others)]
      exact inductionHypothesis 0 97 0

theorem selfLink_starts (first second : UInt8) (others : List UInt8) :
    startPath (treeKernel selfLink ⟨⟨0, 0⟩, .other⟩) selfPathname (first :: second :: others)
      ⟨[], [], 0⟩ = .ok (some (slash :: 0 :: others, 0), ⟨[], [], 0⟩) := by
  have slashed : CBuffer.write? (first :: second :: others) 0 [slash] =
      some (slash :: second :: others) := by simp [CBuffer.write?]
  have written : CBuffer.write? (slash :: second :: others) 1 [0] =
      some (slash :: 0 :: others) := by simp [CBuffer.write?]
  rw [startPath, put_bind slashed, put_bind written]
  rfl

end LinuxProgramming.Files
