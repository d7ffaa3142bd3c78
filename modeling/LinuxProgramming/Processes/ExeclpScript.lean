import LinuxProgramming.Processes.Execlp

/-!
Contract: the call of the shell in `my_execlp`.

Owns:
- the argument vector that `my_execlp` builds, whatever the number of arguments;
- the vector that the shell is given for a script, and the store behind its end.

Does not own: the search for the script.
-/

namespace LinuxProgramming.Processes.Execlp

/-- The arguments as pointers. -/
def pointersTo (arguments : List CString) : Pointers :=
  arguments.map fun argument => some argument.bytes

/-- What the shell has to be given for a script, and nothing written outside. -/
structure IsShellCall (arguments : List CString) (pathname : List UInt8)
    (sh_argv : ShellArguments) : Prop where
  vector : sh_argv.slots =
    some SHELL_PATH :: some pathname :: pointersTo arguments.tail ++ [none]
  inside : sh_argv.outside = 0

/-! ### The arguments -/

/-- The vector is longer than `argc`, which counts the null pointer. -/
structure Collected (stored : Pointers) (argc : Nat) (argv : Pointers) : Prop where
  room : argc < argv.length
  stored_ : argv.take argc = stored

theorem Collected.set {stored argv : Pointers} {argc : Nat} (collected : Collected stored argc argv)
    (room : argc + 1 < argv.length) (pointer : Option (List UInt8)) :
    Collected (stored ++ [pointer]) (argc + 1) (argv.set argc pointer) where
  room := by
    rw [List.length_set]
    exact room
  stored_ := by
    rw [List.take_add_one, List.take_set_of_le (Nat.le_refl argc), collected.stored_,
      List.getElem?_set_self collected.room]
    rfl

/-- The vector after `realloc`, where it was full. -/
theorem Collected.grow {stored argv : Pointers} {argc : Nat} (collected : Collected stored argc argv)
    (pointers : Nat → Option (List UInt8)) :
    let grown :=
      if argc + 1 ≥ argv.length then
        argv ++ (List.range 100).map fun j => pointers (argv.length + j)
      else argv
    Collected stored argc grown ∧ argc + 1 < grown.length := by
  have room := collected.room
  dsimp only
  split
  case isTrue =>
    have longer : (argv ++ (List.range 100).map fun j => pointers (argv.length + j)).length =
        argv.length + 100 := by
      rw [List.length_append, List.length_map, List.length_range]
    refine ⟨⟨?_, ?_⟩, ?_⟩
    · omega
    · rw [List.take_append_of_le_length (Nat.le_of_lt room)]
      exact collected.stored_
    · omega
  case isFalse fits => exact ⟨collected, Nat.lt_of_not_le fits⟩

/-- The induction is on the arguments still to come. -/
theorem collect_collected (pointers : Nat → Option (List UInt8)) (arguments : List CString)
    {stored argv : Pointers} {argc : Nat} (collected : Collected stored argc argv) :
    let result := collect pointers arguments argc argv
    result.1 = argc + arguments.length + 1 ∧
      Collected (stored ++ pointersTo arguments ++ [none]) result.1 result.2 := by
  induction arguments generalizing stored argv argc with
  | nil =>
      obtain ⟨grown, room⟩ := collected.grow pointers
      refine ⟨rfl, ?_⟩
      rw [pointersTo, List.map_nil, List.append_nil]
      exact grown.set room none
  | cons next rest inductionHypothesis =>
      obtain ⟨grown, room⟩ := collected.grow pointers
      obtain ⟨count, later⟩ := inductionHypothesis (grown.set room (some next.bytes))
      rw [List.append_assoc stored] at later
      refine ⟨?_, later⟩
      rw [List.length_cons]
      exact count.trans (by omega)

/-- `argc` counts the arguments and the null pointer, and that many are in the vector. -/
theorem program_collected (pointers : Nat → Option (List UInt8))
    (arguments environ : List CString) :
    (program pointers arguments environ).argc = arguments.length + 1 ∧
      Collected (pointersTo arguments ++ [none]) (program pointers arguments environ).argc
        (program pointers arguments environ).argv := by
  cases arguments with
  | nil =>
      refine ⟨rfl, ⟨?_, rfl⟩⟩
      change 1 < (List.replicate 100 (none : Option (List UInt8))).length
      rw [List.length_replicate]
      decide
  | cons arg rest =>
      have start : Collected [some arg.bytes] 1
          ((List.replicate 100 none).set 0 (some arg.bytes)) := by
        refine ⟨?_, rfl⟩
        rw [List.length_set, List.length_replicate]
        decide
      obtain ⟨count, later⟩ := collect_collected pointers rest start
      refine ⟨?_, later⟩
      rw [List.length_cons]
      exact count.trans (by omega)

/-! ### The vector for the shell -/

/-- The stores that are inside. -/
theorem foldl_store {argc count : Nat} (argv : Pointers) (inside : count ≤ argc)
    (within : argc ≤ argv.length) :
    (List.range count).foldl
        (fun (array : ShellArguments) j => array.store (j + 1) (argv.getD j none))
        (ShellArguments.store ⟨List.replicate (argc + 1) none, 0⟩ 0 (some SHELL_PATH)) =
      ⟨some SHELL_PATH :: (argv.take count ++ List.replicate (argc - count) none), 0⟩ := by
  induction count with
  | zero =>
      have first : 0 < (List.replicate (argc + 1) (none : Option (List UInt8))).length := by
        rw [List.length_replicate]
        exact Nat.succ_pos argc
      rw [List.range_zero, List.foldl_nil, ShellArguments.store, if_pos first]
      rfl
  | succ count inductionHypothesis =>
      obtain ⟨more, isMore⟩ : ∃ more, argc - count = more + 1 := ⟨argc - count - 1, by omega⟩
      have here : count < argv.length := by omega
      have length : (argv.take count).length = count := by
        rw [List.length_take]
        omega
      have room : count + 1 < (some SHELL_PATH ::
          (argv.take count ++ List.replicate (argc - count) none)).length := by
        rw [List.length_cons, List.length_append, length, List.length_replicate]
        omega
      have left : argc - (count + 1) = more := by omega
      rw [List.range_succ, List.foldl_append, inductionHypothesis (Nat.le_of_succ_le inside),
        List.foldl_cons, List.foldl_nil, ShellArguments.store, if_pos room, left, isMore]
      simp only [ShellArguments.mk.injEq, and_true, List.set_cons_succ, List.cons.injEq, true_and]
      rw [List.set_append_right _ _ (Nat.le_of_eq length), length, Nat.sub_self,
        List.replicate_succ, List.set_cons_zero, List.take_add_one, List.append_assoc,
        List.getD_eq_getElem?_getD, List.getElem?_eq_getElem here]
      rfl

/-- The shell gets the arguments as they are, and one pointer is stored behind the vector. -/
theorem shArgv_eq {argc : Nat} {stored argv : Pointers} (collected : Collected stored argc argv) :
    shArgv argc argv = ⟨some SHELL_PATH :: stored, 1⟩ := by
  have room := collected.room
  have full : (some SHELL_PATH :: argv.take argc).length = argc + 1 := by
    rw [List.length_cons, List.length_take]
    omega
  rw [shArgv, List.range_succ, List.foldl_append,
    foldl_store argv (Nat.le_refl argc) (Nat.le_of_lt room), Nat.sub_self, List.replicate_zero,
    List.append_nil, List.foldl_cons, List.foldl_nil, ShellArguments.store,
    if_neg (by rw [full]; exact Nat.lt_irrefl _), collected.stored_]

theorem tryPathname_script {W : Type} {kernel : Kernel W} {program : Program}
    {pathname : List UInt8} {world : W}
    (noexec : (kernel.execve pathname program.argv program.envp world).1 = some ENOEXEC) :
    ∃ shellError, (tryPathname kernel program pathname world).1.script =
      some (shArgv program.argc program.argv, shellError) := by
  unfold tryPathname
  cases tried : kernel.execve pathname program.argv program.envp world with
  | mk error next =>
      rw [tried] at noexec
      dsimp only at noexec ⊢
      rw [if_pos noexec]
      exact ⟨_, rfl⟩

/-- For every script and every number of arguments the shell is given the caller's first
argument where the pathname should stand, and one pointer is stored behind the vector. -/
theorem execShScript_never {W : Type} (kernel : Kernel W) (arguments environ : List CString)
    (pathname : List UInt8) (world : W)
    (noexec : (kernel.execve pathname (program kernel.pointers arguments environ).argv
      (program kernel.pointers arguments environ).envp world).1 = some ENOEXEC) :
    ∃ sh_argv shellError,
      (tryPathname kernel (program kernel.pointers arguments environ) pathname world).1.script =
        some (sh_argv, shellError) ∧
      sh_argv = ⟨some SHELL_PATH :: (pointersTo arguments ++ [none]), 1⟩ ∧
      ¬ IsShellCall arguments pathname sh_argv := by
  have filled := shArgv_eq (program_collected kernel.pointers arguments environ).2
  obtain ⟨shellError, called⟩ := tryPathname_script noexec
  refine ⟨_, shellError, called, filled, fun isCall => ?_⟩
  have inside := isCall.inside
  rw [filled] at inside
  cases inside

/-- A world in which every file is a script. -/
def scripts : Kernel Unit where
  execve _ _ _ _ := (some ENOEXEC, ())
  memory _ _ := 1
  pointers _ := none

/-- The script `"./s"`, called with `"x"` as its first argument, and with `"y"`. -/
theorem execShScript_never_twoArguments :
    ∃ sh_argv shellError,
      (tryPathname scripts
          (program scripts.pointers [⟨[120], by decide⟩, ⟨[121], by decide⟩] [])
          [46, 47, 115] ()).1.script = some (sh_argv, shellError) ∧
      sh_argv = ⟨some SHELL_PATH ::
        (pointersTo [⟨[120], by decide⟩, ⟨[121], by decide⟩] ++ [none]), 1⟩ ∧
      ¬ IsShellCall [⟨[120], by decide⟩, ⟨[121], by decide⟩] [46, 47, 115] sh_argv :=
  execShScript_never scripts [⟨[120], by decide⟩, ⟨[121], by decide⟩] [] [46, 47, 115] () rfl

/-- With a first argument alone the shell runs the file of that name, not `"./s"`. -/
theorem execShScript_loses_pathname :
    shArgv (program scripts.pointers [⟨[120], by decide⟩] []).argc
        (program scripts.pointers [⟨[120], by decide⟩] []).argv =
      ⟨[some SHELL_PATH, some [120], none], 1⟩ ∧
    ¬ IsShellCall [⟨[120], by decide⟩] [46, 47, 115]
      (shArgv (program scripts.pointers [⟨[120], by decide⟩] []).argc
        (program scripts.pointers [⟨[120], by decide⟩] []).argv) := by
  have called : shArgv (program scripts.pointers [⟨[120], by decide⟩] []).argc
      (program scripts.pointers [⟨[120], by decide⟩] []).argv =
      ⟨[some SHELL_PATH, some [120], none], 1⟩ := by
    decide +kernel
  refine ⟨called, fun isCall => ?_⟩
  have inside := isCall.inside
  rw [called] at inside
  cases inside

end LinuxProgramming.Processes.Execlp
