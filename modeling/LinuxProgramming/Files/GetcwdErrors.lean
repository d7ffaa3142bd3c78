import LinuxProgramming.Library.PartialCorrectness
import LinuxProgramming.Files.Faults
import LinuxProgramming.Files.Getcwd

/-!
Contract: what `my_getcwd` leaves behind when it returns, whatever its system
calls do.

Owns:
- `CleansUp`, the state a caller expects to find;
- the descriptor that is open after every return, and the working directory after
  a return of the path.

Does not own: what the function computes.
-/

namespace LinuxProgramming.Files

open LinuxProgramming.Library

/-- The working directory is the one of the call, and so are the open descriptors. -/
structure CleansUp (before after : Process) : Prop where
  cwd : after.cwd = before.cwd
  descriptors : ∀ fd, after.opened? fd = before.opened? fd

/-- The program opens and closes no descriptor. -/
def KeepsDescriptors {α : Type} (program : Prog Faulty α) : Prop :=
  ∀ world, Returns program world fun _ world' =>
    world'.process.descriptors = world.process.descriptors

namespace KeepsDescriptors

variable {α β : Type}

theorem pure (result : α) : KeepsDescriptors (pure result) := fun _ => Returns.pure rfl

theorem stop (reason : Stop) : KeepsDescriptors (stop (α := α) reason) :=
  fun _ => Returns.of_error rfl

theorem bind {program : Prog Faulty α} {next : α → Prog Faulty β}
    (first : KeepsDescriptors program) (rest : ∀ result, KeepsDescriptors (next result)) :
    KeepsDescriptors (program >>= next) :=
  fun world => (first world).bind fun result world' same =>
    (rest result world').mono fun _ _ => (·.trans same)

theorem ite {condition : Prop} [Decidable condition] {yes no : Prog Faulty α}
    (whenYes : KeepsDescriptors yes) (whenNo : KeepsDescriptors no) :
    KeepsDescriptors (if condition then yes else no) := by
  split
  · exact whenYes
  · exact whenNo

end KeepsDescriptors

section Descriptors

variable {fs : FileSystem} {leftover : Stat}

theorem stat_keeps (pathname : CString) :
    KeepsDescriptors (call ((faultyKernel fs leftover).stat pathname)) :=
  fun world => (faulty_stat pathname world).mono fun _ _ same => congrArg _ same.1

theorem findSon_keeps (sondir : Inode) (fuel : Nat) (father_path : List CString)
    (path_list : List CString) :
    KeepsDescriptors (findSon (faultyKernel fs leftover) sondir fuel father_path path_list) := by
  induction fuel generalizing father_path with
  | zero => exact .stop _
  | succ fuel inductionHypothesis =>
      rw [findSon]
      refine .bind (fun world => (faulty_readdir father_path world).mono
        fun _ _ same => congrArg _ same.1) fun read => ?_
      cases read with
      | failed => exact .pure _
      | last => exact .pure _
      | entry d_name father_path =>
          exact .ite (inductionHypothesis father_path) (.bind (stat_keeps d_name) fun _ =>
            .ite (.pure _) (.ite (.pure _) (inductionHypothesis father_path)))

theorem climb_keeps (fuel : Nat) (path_list : List CString) :
    KeepsDescriptors (climb (faultyKernel fs leftover) fuel path_list) := by
  induction fuel generalizing path_list with
  | zero => exact .stop _
  | succ fuel inductionHypothesis =>
      rw [climb]
      refine .bind (stat_keeps dot) fun _ => .ite (.pure _) ?_
      refine .bind (stat_keeps dotDot) fun _ => .ite (.pure _) (.ite (.pure _) ?_)
      refine .bind (fun world => (faulty_opendir dotDot world).mono
        fun _ _ opened => by rw [opened.1]) fun opened => ?_
      cases opened with
      | none => exact .pure _
      | some father_path =>
          refine .bind (fun world => (faulty_chdir dotDot world).mono fun _ _ changed => ?_)
            fun _ => .ite (.pure _) ?_
          · rcases changed.1 with ⟨_, same⟩ | ⟨_, _, _, _, _, same⟩ <;> rw [same]
          refine .bind (findSon_keeps _ fuel father_path path_list) fun found => ?_
          cases found with
          | none => exact .pure _
          | some found =>
              exact .bind (fun world => (faulty_closedir (some found.2) world).mono
                fun _ _ closed => by rw [closed.1]) fun _ =>
                  .ite (.pure _) (inductionHypothesis found.1)

theorem buildPath_keeps (size : Nat) (names : List CString) (buf_ind : Int)
    (cwdbuf : List UInt8) : KeepsDescriptors (buildPath size names buf_ind cwdbuf) := by
  induction names generalizing buf_ind cwdbuf with
  | nil => exact .pure _
  | cons name rest inductionHypothesis =>
      rw [buildPath]
      refine .ite (.pure _) (.ite (.stop _) ?_)
      split
      · exact .stop _
      · split
        · exact .stop _
        · exact inductionHypothesis _ _

/-- A return leaves one more descriptor, which is open on the directory recorded at
the start. -/
theorem myGetcwd_leaves (fuel : Nat) (cwdbuf : List UInt8) (size : Nat) (world : Faulty) :
    Returns (myGetcwd (faultyKernel fs leftover) fuel cwdbuf size) world fun result world' =>
      ∃ found, fs.find true world.process.cwd dot = .ok found ∧
        world'.process.descriptors = world.process.descriptors ++ [some found.1] ∧
        (result.isSome → world'.process.cwd = found.1) := by
  rw [myGetcwd]
  refine .bind (faulty_openFile dot world) fun opened climbing recorded => ?_
  rcases recorded.1 with ⟨rfl, _⟩ | ⟨found, looked, rfl, isClimbing⟩
  · exact .of_error rfl
  have recorded : climbing.process.descriptors =
      world.process.descriptors ++ [some found.1] := by rw [isClimbing]
  refine .bind (climb_keeps fuel [] climbing) fun collected building kept => ?_
  cases collected with
  | none => exact .pure ⟨found, looked, kept.trans recorded, nofun⟩
  | some path_list =>
      refine .bind (buildPath_keeps size path_list 0 cwdbuf building) fun built going same => ?_
      have standing := same.trans (kept.trans recorded)
      cases built with
      | error errno => exact .pure ⟨found, looked, standing, nofun⟩
      | ok cwdbuf =>
          refine .bind (faulty_fchdir _ going) fun returned final back => ?_
          rcases back.1 with ⟨rfl, _⟩ | ⟨position, isOpen, rfl, isFinal⟩
          · exact .of_error rfl
          · refine .pure ⟨found, looked, isFinal ▸ standing, fun _ => ?_⟩
            rw [Process.opened?, standing, List.getElem?_concat_length] at isOpen
            rw [isFinal]
            exact (Option.some.inj isOpen).symm

end Descriptors

/-- For every tree, working directory, buffer and outcome of every call: whenever
`my_getcwd` returns, the path or `NULL`, it has not cleaned up. -/
theorem myGetcwd_not_cleansUp (fs : FileSystem) (leftover : Stat) (process : Process)
    (faults : Nat → Option Errno) (fuel : Nat) (cwdbuf : List UInt8) (size : Nat)
    {result : Option (List UInt8)} {world : Faulty}
    (returns : myGetcwd (faultyKernel fs leftover) fuel cwdbuf size
      (Faulty.start process faults) = .ok (result, world)) :
    ¬ CleansUp process world.process := by
  obtain ⟨found, _, left, _⟩ := myGetcwd_leaves fuel cwdbuf size _ result world returns
  intro clean
  have before : process.opened? process.descriptors.length = none := by
    rw [Process.opened?, List.getElem?_eq_none (Nat.le_refl _)]
    rfl
  have after : world.process.opened? process.descriptors.length = some found.1 := by
    rw [Process.opened?, left]
    exact congrArg Option.join List.getElem?_concat_length
  have same := clean.descriptors process.descriptors.length
  rw [before, after] at same
  cases same

/-- Nothing fails, and `/a/b` is returned to a caller in that directory. -/
theorem myGetcwd_not_cleansUp_nested :
    ∃ world, myGetcwd (faultyKernel nested ⟨⟨0, 0⟩, .other⟩) 9 (List.replicate 8 9) 8
        (Faulty.start ⟨[[98], [97]], [], 0⟩ fun _ => none) =
          .ok (some [47, 97, 47, 98, 0, 9, 9, 9], world) ∧
      ¬ CleansUp ⟨[[98], [97]], [], 0⟩ world.process := by
  obtain ⟨⟨result, world⟩, returns, rfl⟩ := exists_of_map_ok
    (myGetcwd (faultyKernel nested ⟨⟨0, 0⟩, .other⟩) 9 (List.replicate 8 9) 8
      (Faulty.start ⟨[[98], [97]], [], 0⟩ fun _ => none))
    Prod.fst (some [47, 97, 47, 98, 0, 9, 9, 9]) (by decide +kernel)
  exact ⟨world, returns, myGetcwd_not_cleansUp nested _ _ _ 9 _ 8 returns⟩

/-- The first `readdir` fails: `NULL` is returned in the directory above, and the
descriptor is open. -/
theorem myGetcwd_leaks :
    ∃ world, myGetcwd (faultyKernel nested ⟨⟨0, 0⟩, .other⟩) 9 (List.replicate 8 9) 8
        (Faulty.start ⟨[[98], [97]], [], 0⟩
          fun made => if made = 5 then some (.other 5) else none) = .ok (none, world) ∧
      world.process = ⟨[[97]], [some [[98], [97]]], 1⟩ ∧
      ¬ CleansUp ⟨[[98], [97]], [], 0⟩ world.process := by
  obtain ⟨⟨result, world⟩, returns, ends⟩ := exists_of_map_ok
    (myGetcwd (faultyKernel nested ⟨⟨0, 0⟩, .other⟩) 9 (List.replicate 8 9) 8
      (Faulty.start ⟨[[98], [97]], [], 0⟩
        fun made => if made = 5 then some (.other 5) else none))
    (fun returned => (returned.1, returned.2.process))
    (none, ⟨[[97]], [some [[98], [97]]], 1⟩) (by decide +kernel)
  obtain ⟨rfl, standing⟩ := Prod.mk.inj ends
  refine ⟨world, returns, standing, fun clean => ?_⟩
  have returned := clean.cwd
  rw [standing] at returned
  cases returned

end LinuxProgramming.Files
