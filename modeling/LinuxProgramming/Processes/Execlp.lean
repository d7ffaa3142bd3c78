import Mathlib.Data.List.TakeWhile
import Mathlib.Tactic.SplitIfs
import LinuxProgramming.Library.CBuffer
import LinuxProgramming.Library.Search

/-!
Contract: `my_execlp`.

Owns:
- the argument vector, the search through `PATH` and the call of the shell for a script,
  over any `execve`;
- the pathnames that are tried, and the error that is reported.

Does not own: allocations that fail.
-/

namespace LinuxProgramming.Processes.Execlp

open LinuxProgramming.Library

def nul : UInt8 := 0

def slash : UInt8 := 47

def colon : UInt8 := 58

def dot : UInt8 := 46

/-- A C string: the bytes before its terminator. -/
structure CString where
  bytes : List UInt8
  terminated : nul ∉ bytes
deriving DecidableEq, Repr

/-- A value of `errno`. -/
abbrev Errno := Nat

def ENOEXEC : Errno := 8

def EACCES : Errno := 13

/-- `"/bin/sh"`. -/
def SHELL_PATH : List UInt8 := [47, 98, 105, 110, 47, 115, 104]

/-- `"PATH="`. -/
def pathEquals : List UInt8 := [80, 65, 84, 72, 61]

/-- A vector of pointers to strings. -/
abbrev Pointers := List (Option (List UInt8))

/-- What surrounds the program, over any state `W`. -/
structure Kernel (W : Type) where
  /-- The pathname, the arguments and the environment; `none` if the call does not return. -/
  execve : List UInt8 → Pointers → List (List UInt8) → W → Option Errno × W
  /-- The bytes in memory that `malloc` returns. -/
  memory : W → Nat → UInt8
  /-- The pointers that `realloc` adds to a vector. -/
  pointers : Nat → Option (List UInt8)

variable {W : Type}

/-! ### The arguments -/

/-- The loop over the arguments, from the one behind the `argc` that were stored; none of
these is a null pointer. -/
def collect (pointers : Nat → Option (List UInt8)) :
    List CString → Nat → Pointers → Nat × Pointers
  | arguments, argc, argv =>
      let argv :=
        if argc + 1 ≥ argv.length then
          argv ++ (List.range 100).map fun j => pointers (argv.length + j)
        else argv
      match arguments with
      | [] => (argc + 1, argv.set argc none)
      | next :: rest => collect pointers rest (argc + 1) (argv.set argc (some next.bytes))

/-- What is to be executed: `argc` counts the null pointer at the end of the arguments. -/
structure Program where
  argc : Nat
  argv : Pointers
  envp : List (List UInt8)
deriving DecidableEq, Repr

def program (pointers : Nat → Option (List UInt8)) (arguments environ : List CString) : Program :=
  let argv := List.replicate 100 none
  let (argc, argv) :=
    match arguments with
    | [] => (1, argv)
    | arg :: rest => collect pointers rest 1 (argv.set 0 (some arg.bytes))
  { argc, argv, envp := environ.map CString.bytes }

/-- `getenv("PATH")`. -/
def getenvPath (environ : List CString) : Option (List UInt8) :=
  environ.findSome? fun entry =>
    if pathEquals <+: entry.bytes then some (entry.bytes.drop pathEquals.length) else none

/-! ### One attempt -/

/-- A vector with a count of the stores behind its end. -/
structure ShellArguments where
  slots : Pointers
  outside : Nat
deriving DecidableEq, Repr

def ShellArguments.store (array : ShellArguments) (index : Nat)
    (pointer : Option (List UInt8)) : ShellArguments :=
  if index < array.slots.length then { array with slots := array.slots.set index pointer }
  else { array with outside := array.outside + 1 }

/-- The vector that `exec_sh_script` allocates and fills. -/
def shArgv (argc : Nat) (argv : Pointers) : ShellArguments :=
  (List.range (argc + 1)).foldl
    (fun array j => array.store (j + 1) (argv.getD j none))
    (ShellArguments.store ⟨List.replicate (argc + 1) none, 0⟩ 0 (some SHELL_PATH))

/-- The outcome of `execve` for a pathname, and of the call of the shell if there is one. -/
structure Attempt where
  error : Option Errno
  script : Option (ShellArguments × Option Errno)
deriving DecidableEq, Repr

/-- Whether one of the calls does not return. -/
def Attempt.executes (attempt : Attempt) : Bool :=
  attempt.error.isNone || attempt.script.any fun script => script.2.isNone

/-- The `errno` of the pathname, where its `execve` fails. -/
def Attempt.errno (attempt : Attempt) : Errno := attempt.error.getD 0

def tryPathname (kernel : Kernel W) (program : Program) (pathname : List UInt8) (world : W) :
    Attempt × W :=
  let (error, world) := kernel.execve pathname program.argv program.envp world
  if error = some ENOEXEC then
    let sh_argv := shArgv program.argc program.argv
    let (shellError, world) := kernel.execve SHELL_PATH sh_argv.slots program.envp world
    (⟨error, some (sh_argv, shellError)⟩, world)
  else (⟨error, none⟩, world)

/-! ### The search -/

/-- The attempts with their pathnames, and the reported error unless one of them executes. -/
structure Run (W : Type) where
  attempts : List (List UInt8 × Attempt)
  errno : Option Errno
  world : W
deriving DecidableEq, Repr

/-- The string in the allocated buffer; `none` is a store behind its end. -/
def buildPathname (memory : Nat → UInt8) (element filename : List UInt8) :
    Option (List UInt8) := do
  let size := max 1 element.length + filename.length + 2
  let pathname ← CBuffer.write? ((List.range size).map memory) 0 [nul]
  let pathname ← CBuffer.strcat? nul pathname (if element = [] then [dot] else element)
  let pathname ← CBuffer.strcat? nul pathname [slash]
  let pathname ← CBuffer.strcat? nul pathname filename
  some (CBuffer.string nul pathname)

/-- The loop over the elements, with the rest of `PATH` at `pr_start`. -/
def searchFrom (kernel : Kernel W) (program : Program) (filename : List UInt8)
    (pr_start : List UInt8) (fnd_EACCES : Bool) (world : W) : Option (Run W) :=
  let element := pr_start.takeWhile (· ≠ colon)
  match buildPathname (kernel.memory world) element filename with
  | none => none
  | some pathname =>
      let (attempt, world) := tryPathname kernel program pathname world
      if attempt.executes then some ⟨[(pathname, attempt)], none, world⟩
      else
        let fnd_EACCES := fnd_EACCES || attempt.errno = EACCES
        match _ : pr_start.drop element.length with
        | [] =>
            some ⟨[(pathname, attempt)],
              some (if fnd_EACCES then EACCES else attempt.errno), world⟩
        | _ :: next =>
            (searchFrom kernel program filename next fnd_EACCES world).map fun run =>
              { run with attempts := (pathname, attempt) :: run.attempts }
termination_by pr_start.length
decreasing_by
  have length := congrArg List.length ‹pr_start.drop _ = _ :: next›
  rw [List.length_drop, List.length_cons] at length
  omega

/-- The string that is searched. -/
def searchPath (environ : List CString) : List UInt8 :=
  match getenvPath environ with
  | none => [dot]
  | some path => if path = [] then [dot] else path

def myExeclp (kernel : Kernel W) (filename : CString) (arguments environ : List CString)
    (world : W) : Option (Run W) :=
  let program := program kernel.pointers arguments environ
  if slash ∈ filename.bytes then
    let (attempt, world) := tryPathname kernel program filename.bytes world
    some ⟨[(filename.bytes, attempt)],
      if attempt.executes then none else some attempt.errno, world⟩
  else searchFrom kernel program filename.bytes (searchPath environ) false world

/-! ### The pathnames -/

/-- An element of `PATH`, where an empty one is the working directory. -/
def directory (element : List UInt8) : List UInt8 := if element = [] then [dot] else element

/-- The pathname for an element of `PATH`. -/
def candidate (filename element : List UInt8) : List UInt8 :=
  directory element ++ [slash] ++ filename

/-- The elements of `PATH`. -/
def elements : Option (List UInt8) → List (List UInt8)
  | none => [[dot]]
  | some path => if path = [] then [[dot]] else path.splitOn colon

theorem elements_getenvPath (environ : List CString) :
    elements (getenvPath environ) = (searchPath environ).splitOn colon := by
  unfold searchPath
  cases getenvPath environ with
  | none => rfl
  | some path =>
      dsimp only [elements]
      split_ifs with empty
      · rfl
      · rfl

theorem terminated_searchPath (environ : List CString) : nul ∉ searchPath environ := by
  unfold searchPath
  cases found : getenvPath environ with
  | none => decide
  | some path =>
      dsimp only
      split_ifs with empty
      · decide
      · obtain ⟨entry, -, named⟩ := List.exists_of_findSome?_eq_some found
        rw [Option.ite_none_right_eq_some, Option.some.injEq] at named
        rw [← named.2]
        exact fun member => entry.terminated (List.mem_of_mem_drop member)

theorem terminated_directory {element : List UInt8} (free : nul ∉ element) :
    nul ∉ directory element := by
  unfold directory
  split_ifs with empty
  · decide
  · exact free

theorem length_directory (element : List UInt8) :
    (directory element).length = max 1 element.length := by
  rw [directory]
  split_ifs with empty
  · rw [empty]
    rfl
  · have nonempty := List.length_pos_of_ne_nil empty
    omega

/-- The buffer has exactly the bytes that are written. -/
theorem buildPathname_eq (memory : Nat → UInt8) {element filename : List UInt8}
    (elementFree : nul ∉ element) (filenameFree : nul ∉ filename) :
    buildPathname memory element filename = some (candidate filename element) := by
  have directoryFree := terminated_directory elementFree
  have directoryLength := length_directory element
  have separatorFree : nul ∉ directory element ++ [slash] := by
    simpa using ⟨directoryFree, by decide⟩
  have candidateFree : nul ∉ candidate filename element := by
    simpa [candidate] using ⟨directoryFree, by decide, filenameFree⟩
  rw [buildPathname]
  generalize allocated :
    (List.range (max 1 element.length + filename.length + 2)).map memory = block
  have size : block.length = max 1 element.length + filename.length + 2 := by
    rw [← allocated, List.length_map, List.length_range]
  have blockStarts : [] <+: block := List.nil_prefix
  obtain ⟨empty, wroteEmpty, emptyStarts, emptyLength⟩ :=
    CBuffer.exists_write? blockStarts [nul] (by simp [size])
  have directoryFits :
      ([] : List UInt8).length + (directory element).length + 1 ≤ empty.length := by
    simp only [List.length_nil]
    omega
  obtain ⟨first, wroteFirst, firstStarts, firstLength⟩ :=
    CBuffer.exists_strcat? List.not_mem_nil emptyStarts directoryFits
  have separatorFits : (directory element).length + [slash].length + 1 ≤ first.length := by
    simp only [List.length_singleton]
    omega
  obtain ⟨second, wroteSecond, secondStarts, secondLength⟩ :=
    CBuffer.exists_strcat? directoryFree firstStarts separatorFits
  have filenameFits :
      (directory element ++ [slash]).length + filename.length + 1 ≤ second.length := by
    simp only [List.length_append, List.length_singleton]
    omega
  obtain ⟨third, wroteThird, thirdStarts, -⟩ :=
    CBuffer.exists_strcat? separatorFree secondStarts filenameFits
  rw [List.length_nil] at wroteEmpty
  rw [directory] at wroteFirst
  simp only [wroteEmpty, wroteFirst, wroteSecond, wroteThird, Option.bind_eq_bind,
    Option.bind_some, CBuffer.string_eq candidateFree thirdStarts]

/-- Either no colon follows the element, or the next element does. -/
theorem element_cases (pr_start : List UInt8) :
    let element := pr_start.takeWhile (· ≠ colon)
    pr_start.drop element.length = [] ∧ pr_start.splitOn colon = [element] ∨
      ∃ next, pr_start.drop element.length = colon :: next ∧
        pr_start.splitOn colon = element :: next.splitOn colon := by
  intro element
  have noColon : colon ∉ element := by
    intro member
    simpa using List.mem_takeWhile_imp member
  have whole : element ++ pr_start.drop element.length = pr_start :=
    List.prefix_iff_eq_append.mp (List.takeWhile_prefix _)
  have dropped : pr_start.drop element.length = pr_start.dropWhile (· ≠ colon) :=
    List.append_cancel_left (whole.trans List.takeWhile_append_dropWhile.symm)
  cases rest : pr_start.drop element.length with
  | nil =>
      rw [rest, List.append_nil] at whole
      refine .inl ⟨rfl, ?_⟩
      conv_lhs => rw [← whole]
      exact List.splitOn_eq_singleton noColon
  | cons first next =>
      have isColon : first = colon := by
        have head := List.head?_dropWhile_not (· ≠ colon) pr_start
        rw [← dropped, rest] at head
        simpa using head
      subst isColon
      refine .inr ⟨next, rfl, ?_⟩
      conv_lhs => rw [← whole, rest]
      exact List.splitOn_append_cons_self_of_not_mem noColon next

/-! ### The search and its report -/

/-- What is reported after the attempts, where an earlier one may have met `EACCES`. -/
def report (fnd_EACCES : Bool) (tried : List (List UInt8 × Attempt)) : Option Errno :=
  if tried.any fun entry => entry.2.executes then none
  else if fnd_EACCES || tried.any fun entry => entry.2.errno = EACCES then some EACCES
  else tried.getLast?.map fun entry => entry.2.errno

theorem report_singleton_of_executes (fnd_EACCES : Bool) (pathname : List UInt8)
    {attempt : Attempt} (executes : attempt.executes = true) :
    report fnd_EACCES [(pathname, attempt)] = none := by
  simp [report, executes]

theorem report_singleton_of_fails (fnd_EACCES : Bool) (pathname : List UInt8)
    {attempt : Attempt} (fails : ¬ attempt.executes = true) :
    report fnd_EACCES [(pathname, attempt)] =
      some (if fnd_EACCES || attempt.errno = EACCES then EACCES else attempt.errno) := by
  simp only [report, List.any_cons, List.any_nil, Bool.or_false, fails, List.getLast?_singleton,
    Option.map_some, Bool.false_eq_true, ↓reduceIte]
  split_ifs <;> rfl

/-- An attempt that fails passes on whether it met `EACCES`. -/
theorem report_cons_of_fails (fnd_EACCES : Bool) (pathname : List UInt8) {attempt : Attempt}
    (fails : ¬ attempt.executes = true) {tried : List (List UInt8 × Attempt)}
    (nonempty : tried ≠ []) :
    report fnd_EACCES ((pathname, attempt) :: tried) =
      report (fnd_EACCES || attempt.errno = EACCES) tried := by
  obtain ⟨entry, rest, rfl⟩ := List.exists_cons_of_ne_nil nonempty
  simp only [report, List.any_cons, fails, Bool.false_or, Bool.or_assoc, List.getLast?_cons_cons]

theorem buildElement_eq (memory : Nat → UInt8) {filename pr_start : List UInt8}
    (filenameFree : nul ∉ filename) (pathFree : nul ∉ pr_start) :
    buildPathname memory (pr_start.takeWhile (· ≠ colon)) filename =
      some (candidate filename (pr_start.takeWhile (· ≠ colon))) :=
  buildPathname_eq memory (fun member => pathFree (List.takeWhile_subset _ member)) filenameFree

/-- The search tries the pathnames in order until one executes. -/
theorem searchFrom_eq (kernel : Kernel W) (program : Program) {filename : List UInt8}
    (filenameFree : nul ∉ filename) (pr_start : List UInt8) (pathFree : nul ∉ pr_start)
    (fnd_EACCES : Bool) (world : W) :
    let search := Search.tryInOrder (tryPathname kernel program) Attempt.executes
      ((pr_start.splitOn colon).map (candidate filename)) world
    searchFrom kernel program filename pr_start fnd_EACCES world =
      some ⟨search.1, report fnd_EACCES search.1, search.2⟩ := by
  dsimp only
  fun_induction searchFrom kernel program filename pr_start fnd_EACCES world with
  | case1 pr_start fnd_EACCES world element overflow =>
      rw [buildElement_eq _ filenameFree pathFree] at overflow
      cases overflow
  | case2 pr_start fnd_EACCES world element pathname built attempt world' attempted executes =>
      rw [buildElement_eq _ filenameFree pathFree, Option.some.injEq] at built
      subst built
      rcases element_cases pr_start with ⟨-, split⟩ | ⟨next, -, split⟩
      · rw [split, List.map_cons,
          Search.tryInOrder_cons_of_succeeds _ attempted executes,
          report_singleton_of_executes _ _ executes]
      · rw [split, List.map_cons,
          Search.tryInOrder_cons_of_succeeds _ attempted executes,
          report_singleton_of_executes _ _ executes]
  | case3 pr_start fnd_EACCES world element pathname built attempt world' attempted fails
      fnd_EACCES' ends =>
      rw [buildElement_eq _ filenameFree pathFree, Option.some.injEq] at built
      subst built
      rcases element_cases pr_start with ⟨-, split⟩ | ⟨next, goesOn, split⟩
      · rw [split, List.map_cons, List.map_nil, Search.tryInOrder_cons_of_fails _ attempted fails]
        simp only [Search.tryInOrder, report_singleton_of_fails _ _ fails]
        rfl
      · cases ends.symm.trans goesOn
  | case4 pr_start fnd_EACCES world element pathname built attempt world' attempted fails
      fnd_EACCES' separator next rest inductionHypothesis =>
      rw [buildElement_eq _ filenameFree pathFree, Option.some.injEq] at built
      subst built
      rcases element_cases pr_start with ⟨ends, -⟩ | ⟨next', goesOn, split⟩
      · cases ends.symm.trans rest
      · cases goesOn.symm.trans rest
        have nextFree : nul ∉ next := by
          intro member
          have inRest : nul ∈ pr_start.drop element.length := by
            rw [rest]
            exact List.mem_cons_of_mem _ member
          exact pathFree (List.mem_of_mem_drop inRest)
        have candidates : (next.splitOn colon).map (candidate filename) ≠ [] := by
          simp
        rw [inductionHypothesis nextFree, split, List.map_cons,
          Search.tryInOrder_cons_of_fails _ attempted fails,
          report_cons_of_fails _ _ fails (Search.tryInOrder_ne_nil _ _ _ _ candidates)]
        rfl

theorem error_of_fails {attempt : Attempt} (fails : attempt.executes = false) :
    attempt.error = some attempt.errno := by
  obtain ⟨error, script⟩ := attempt
  cases error with
  | none => simp [Attempt.executes] at fails
  | some errno => rfl

theorem executes_of_report {fnd_EACCES : Bool} {tried : List (List UInt8 × Attempt)}
    (nonempty : tried ≠ []) (reported : report fnd_EACCES tried = none) :
    ∃ entry ∈ tried, entry.2.executes = true := by
  unfold report at reported
  split_ifs at reported with executes
  · exact List.any_eq_true.mp executes
  · rw [Option.map_eq_none_iff, List.getLast?_eq_none_iff] at reported
    exact absurd reported nonempty

theorem fails_of_report {fnd_EACCES : Bool} {tried : List (List UInt8 × Attempt)} {errno : Errno}
    (reported : report fnd_EACCES tried = some errno) :
    ∀ entry ∈ tried, entry.2.executes = false := by
  unfold report at reported
  split_ifs at reported with executes <;>
    simpa only [List.any_eq_true, not_exists, not_and, Bool.not_eq_true] using executes

/-- The reported error, as the errors of the attempts tell it. -/
def Reported (tried : List (List UInt8 × Attempt)) (errno : Errno) : Prop :=
  if ∃ entry ∈ tried, entry.2.error = some EACCES then errno = EACCES
  else ∃ entry ∈ tried.getLast?, entry.2.error = some errno

theorem reported_of_report {tried : List (List UInt8 × Attempt)} {errno : Errno}
    (reported : report false tried = some errno) : Reported tried errno := by
  have fails := fails_of_report reported
  have met : (tried.any fun entry => entry.2.errno = EACCES) = true ↔
      ∃ entry ∈ tried, entry.2.error = some EACCES := by
    simp only [List.any_eq_true, decide_eq_true_eq]
    refine exists_congr fun entry => and_congr_right fun member => ?_
    rw [error_of_fails (fails entry member), Option.some.injEq]
  rw [report, Bool.false_or] at reported
  unfold Reported
  split_ifs at reported with executes anyMet
  · rw [if_pos (met.mp anyMet)]
    exact (Option.some.inj reported).symm
  · rw [if_neg (met.not.mp anyMet)]
    obtain ⟨entry, isLast, rfl⟩ := Option.map_eq_some_iff.mp reported
    exact ⟨entry, isLast, error_of_fails (fails entry (List.mem_of_getLast? isLast))⟩

/-- The attempts at some pathnames: in order, up to the first that executes. If none does,
the call returns `-1` with `EACCES` if any attempt met it, else with the error of the last. -/
structure Searched (pathnames : List (List UInt8)) (run : Run W) : Prop where
  inOrder : run.attempts.map Prod.fst <+: pathnames
  stops : ∀ entry ∈ run.attempts.dropLast, entry.2.executes = false
  executes : run.errno = none → ∃ entry ∈ run.attempts, entry.2.executes = true
  returns : ∀ errno, run.errno = some errno →
    run.attempts.map Prod.fst = pathnames ∧
      (∀ entry ∈ run.attempts, entry.2.executes = false) ∧ Reported run.attempts errno

theorem searched_report (attempt : List UInt8 → W → Attempt × W) {pathnames : List (List UInt8)}
    (nonempty : pathnames ≠ []) (world : W) :
    let search := Search.tryInOrder attempt Attempt.executes pathnames world
    Searched pathnames ⟨search.1, report false search.1, search.2⟩ where
  inOrder := Search.map_fst_tryInOrder_prefix _ _ _ _
  stops := Search.not_succeeds_of_mem_dropLast _ _ _ _
  executes := executes_of_report (Search.tryInOrder_ne_nil _ _ _ _ nonempty)
  returns _ reported :=
    have fails := fails_of_report reported
    ⟨Search.map_fst_tryInOrder _ _ _ _ fails, fails, reported_of_report reported⟩

/-- A world in which no pathname can be executed, and the second tried is not permitted. -/
def forbidding : Kernel Nat where
  execve _ _ _ tries := (some (if tries = 1 then EACCES else 2), tries + 1)
  memory _ _ := 1
  pointers _ := none

end LinuxProgramming.Processes.Execlp
