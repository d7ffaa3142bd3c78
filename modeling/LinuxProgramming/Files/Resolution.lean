import LinuxProgramming.Files.Kernel

/-!
Contract: pathname resolution, mostly in trees without symbolic links.

Owns:
- `walk`, one component after the other, and its laws;
- `lookup` and `find` as walks;
- `.`, `..` and plain names, in trees with links too;
- what the calls do on pathnames that lead somewhere.

Does not own: the programs.
-/

namespace LinuxProgramming.Files

open LinuxProgramming.Library

/-- No file is a symbolic link. -/
def FileSystem.NoLinks (fs : FileSystem) : Prop :=
  ∀ position found, fs.tree.at? position = some found → targetOf found = none

namespace FileSystem

variable (fs : FileSystem)

/-- One component of a pathname: only a directory can be left, `.` stays, `..`
goes to the parent, a name to the entry of that name. -/
def step (position : Position CString) (name : CString) : Except Errno (Position CString) :=
  match fs.tree.at? position with
  | none => .error .enoent
  | some (.leaf _) => .error .enotdir
  | some (.dir _ _) =>
      if name = dot then .ok position
      else if name = dotDot then .ok position.tail
      else if (fs.tree.at? (name :: position)).isSome then .ok (name :: position)
      else .error .enoent

def walk (position : Position CString) (names : List CString) :
    Except Errno (Position CString) :=
  names.foldlM fs.step position

theorem walk_cons (position : Position CString) (name : CString) (rest : List CString) :
    fs.walk position (name :: rest) = (fs.step position name).bind (fs.walk · rest) := by
  rw [walk, List.foldlM_cons]
  rfl

theorem walk_append (position : Position CString) (first second : List CString) :
    fs.walk position (first ++ second) =
      (fs.walk position first).bind (fs.walk · second) := by
  rw [walk, List.foldlM_append]
  rfl

variable {fs}

/-- The parent of a position in the tree is a directory. -/
theorem tail_isDir {position : Position CString} {found : Tree}
    (located : fs.tree.at? position = some found) :
    ∃ info entries, fs.tree.at? position.tail = some (.dir info entries) := by
  have isDir : ∃ above, fs.tree.at? position.tail = some above ∧ above.IsDir := by
    cases position with
    | nil => exact ⟨_, rfl, fs.rootIsDir⟩
    | cons name parent =>
        obtain ⟨above, aboveAt, _, isDir⟩ := FileTree.exists_parent located
        exact ⟨above, aboveAt, isDir⟩
  obtain ⟨above, aboveAt, isDir⟩ := isDir
  cases above with
  | leaf content => cases isDir
  | dir info entries => exact ⟨info, entries, aboveAt⟩

/-- Whatever is found in the tree is found under valid names. -/
theorem validName_of_mem {position : Position CString} {found : Tree}
    (located : fs.tree.at? position = some found) : ∀ name ∈ position, ValidName name := by
  induction position generalizing found with
  | nil => nofun
  | cons last parent inductionHypothesis =>
      obtain ⟨above, aboveAt, child, isDir⟩ := FileTree.exists_parent located
      intro name member
      rcases List.mem_cons.mp member with rfl | higher
      · cases above with
        | leaf content => cases isDir
        | dir info entries =>
            exact fs.validName aboveAt (FileTree.mem_names_of_child? child)
      · exact inductionHypothesis aboveAt name higher

theorem uniqueNames (fs : FileSystem) : fs.tree.UniqueNames := by
  intro position found located
  cases found with
  | leaf content => exact List.nodup_nil
  | dir info entries => exact fs.distinct position info entries located

/-- Without links resolution is a walk. -/
theorem resolveFrom_eq_walk (noLinks : fs.NoLinks)
    (expand : Position CString → List CString → Except Errno (Position CString)) (follow : Bool)
    (position : Position CString) (names : List CString) :
    fs.resolveFrom expand follow position names = fs.walk position names := by
  induction names generalizing position with
  | nil => rfl
  | cons name rest inductionHypothesis =>
      rw [resolveFrom, walk_cons, step]
      cases located : fs.tree.at? position with
      | none => rfl
      | some tree =>
          cases tree with
          | leaf content => rfl
          | dir info entries =>
              dsimp only
              by_cases isDot : name = dot
              · rw [if_pos isDot, if_pos isDot]
                exact inductionHypothesis position
              · rw [if_neg isDot, if_neg isDot]
                by_cases isDotDot : name = dotDot
                · rw [if_pos isDotDot, if_pos isDotDot]
                  exact inductionHypothesis position.tail
                · rw [if_neg isDotDot, if_neg isDotDot]
                  cases foundAt : fs.tree.at? (name :: position) with
                  | none => rfl
                  | some found =>
                      dsimp only
                      rw [noLinks _ _ foundAt]
                      exact inductionHypothesis (name :: position)

theorem walk_ne_eloop (position : Position CString) (names : List CString) :
    fs.walk position names ≠ .error .eloop := by
  induction names generalizing position with
  | nil => nofun
  | cons name rest inductionHypothesis =>
      rw [walk_cons]
      cases stepped : fs.step position name with
      | ok next => exact inductionHypothesis next
      | error errno =>
          rintro ⟨⟩
          rw [step] at stepped
          split at stepped
          · cases stepped
          · cases stepped
          · split_ifs at stepped
            cases stepped

theorem resolve_eq_walk (noLinks : fs.NoLinks) (follow : Bool) (links : Nat)
    (position : Position CString) (names : List CString) :
    fs.resolve follow links position names = fs.walk position names := by
  cases links with
  | zero => exact resolveFrom_eq_walk noLinks _ _ _ _
  | succ links => exact resolveFrom_eq_walk noLinks _ _ _ _

/-- A pathname that is neither empty nor too long, in any of its components. -/
structure Admissible (pathname : CString) : Prop where
  notEmpty : pathname ≠ []
  short : pathname.length < PATH_MAX
  namesFit : ∀ name ∈ Pathname.pieces slash pathname, name.length ≤ NAME_MAX

/-- Where a pathname starts. -/
def origin (cwd : Position CString) (pathname : CString) : Position CString :=
  if pathname.head? = some slash then [] else cwd

theorem lookup_eq_resolve (follow : Bool) (cwd : Position CString) {pathname : CString}
    (admissible : Admissible pathname) :
    fs.lookup follow cwd pathname =
      fs.resolve (follow || pathname.getLast? = some slash) 40 (origin cwd pathname)
        (Pathname.pieces slash pathname) := by
  have fits : ¬ ∃ name ∈ Pathname.pieces slash pathname, NAME_MAX < name.length := by
    rintro ⟨name, member, long⟩
    exact absurd (admissible.namesFit name member) (by omega)
  rw [lookup, if_neg admissible.notEmpty, if_neg (Nat.not_le.mpr admissible.short), if_neg fits]
  rfl

theorem admissible_of_lookup {follow : Bool} {cwd position : Position CString}
    {pathname : CString} (looked : fs.lookup follow cwd pathname = .ok position) :
    Admissible pathname := by
  rw [lookup] at looked
  split at looked
  · cases looked
  split at looked
  · cases looked
  split at looked
  · cases looked
  case isFalse notEmpty short fits =>
    exact ⟨notEmpty, Nat.not_le.mp short, fun name member =>
      Nat.not_lt.mp fun long => fits ⟨name, member, long⟩⟩

theorem lookup_eq_walk (noLinks : fs.NoLinks) (follow : Bool) (cwd : Position CString)
    {pathname : CString} (admissible : Admissible pathname) :
    fs.lookup follow cwd pathname =
      fs.walk (origin cwd pathname) (Pathname.pieces slash pathname) := by
  rw [lookup_eq_resolve follow cwd admissible, resolve_eq_walk noLinks]

theorem find_of_lookup {follow : Bool} {cwd position : Position CString} {pathname : CString}
    {found : Tree} (looked : fs.lookup follow cwd pathname = .ok position)
    (located : fs.tree.at? position = some found)
    (allowed : pathname.getLast? = some slash → found.IsDir) :
    fs.find follow cwd pathname = .ok (position, found) := by
  simp only [find, looked, bind, Except.bind, located]
  rw [if_neg (fun bad => bad.2 (allowed bad.1))]

theorem find_fails {follow : Bool} {cwd : Position CString} {pathname : CString} {errno : Errno}
    (looked : fs.lookup follow cwd pathname = .error errno) :
    fs.find follow cwd pathname = .error errno := by
  rw [find, looked]
  rfl

theorem lookup_of_find {follow : Bool} {cwd position : Position CString} {pathname : CString}
    {found : Tree} (finds : fs.find follow cwd pathname = .ok (position, found)) :
    fs.lookup follow cwd pathname = .ok position ∧ fs.tree.at? position = some found ∧
      (pathname.getLast? = some slash → found.IsDir) := by
  rw [find] at finds
  cases looked : fs.lookup follow cwd pathname with
  | error errno =>
      rw [looked] at finds
      cases finds
  | ok reached =>
      simp only [looked, bind, Except.bind] at finds
      cases located : fs.tree.at? reached with
      | none =>
          rw [located] at finds
          cases finds
      | some file =>
          rw [located] at finds
          dsimp only at finds
          split at finds
          · cases finds
          case isFalse allowed =>
            cases finds
            exact ⟨rfl, located, fun last => not_not.mp fun notDir => allowed ⟨last, notDir⟩⟩

/-- What is found is what stands there. -/
theorem at?_of_find {follow : Bool} {cwd position : Position CString} {pathname : CString}
    {found : Tree} (finds : fs.find follow cwd pathname = .ok (position, found)) :
    fs.tree.at? position = some found :=
  (lookup_of_find finds).2.1

/-- Following links changes nothing where the pathname does not end at one. -/
theorem resolveFrom_follow
    {expand expand' : Position CString → List CString → Except Errno (Position CString)}
    {reached : Position CString} {found : Tree} (located : fs.tree.at? reached = some found)
    (noLink : targetOf found = none)
    (agree : ∀ position names, expand position names = .ok reached →
      expand' position names = .ok reached) {names : List CString} :
    ∀ {position : Position CString}, fs.resolveFrom expand false position names = .ok reached →
      fs.resolveFrom expand' true position names = .ok reached := by
  induction names with
  | nil => exact id
  | cons name rest inductionHypothesis =>
      intro position resolved
      rw [resolveFrom] at resolved ⊢
      cases here : fs.tree.at? position with
      | none =>
          rw [here] at resolved
          cases resolved
      | some tree =>
          rw [here] at resolved
          cases tree with
          | leaf content => cases resolved
          | dir info entries =>
              dsimp only at resolved ⊢
              by_cases isDot : name = dot
              · rw [if_pos isDot] at resolved ⊢
                exact inductionHypothesis resolved
              rw [if_neg isDot] at resolved ⊢
              by_cases isDotDot : name = dotDot
              · rw [if_pos isDotDot] at resolved ⊢
                exact inductionHypothesis resolved
              rw [if_neg isDotDot] at resolved ⊢
              cases foundAt : fs.tree.at? (name :: position) with
              | none =>
                  rw [foundAt] at resolved
                  cases resolved
              | some file =>
                  rw [foundAt] at resolved
                  dsimp only at resolved ⊢
                  cases isLink : targetOf file with
                  | none =>
                      rw [isLink] at resolved
                      exact inductionHypothesis resolved
                  | some target =>
                      rw [isLink] at resolved
                      dsimp only at resolved ⊢
                      by_cases last : rest = [] ∧ false = false
                      · rw [if_pos last] at resolved
                        cases resolved
                        rw [located] at foundAt
                        cases foundAt
                        rw [noLink] at isLink
                        cases isLink
                      · rw [if_neg last] at resolved
                        rw [if_neg (by simp)]
                        exact agree _ _ resolved

theorem resolve_follow {reached : Position CString} {found : Tree}
    (located : fs.tree.at? reached = some found) (noLink : targetOf found = none) (links : Nat) :
    ∀ {position : Position CString} {names : List CString},
      fs.resolve false links position names = .ok reached →
        fs.resolve true links position names = .ok reached := by
  induction links with
  | zero =>
      intro position names resolved
      refine resolveFrom_follow located noLink ?_ resolved
      intro _ _ isLoop
      cases isLoop
  | succ links inductionHypothesis =>
      intro position names resolved
      exact resolveFrom_follow located noLink (fun _ _ => inductionHypothesis) resolved

/-- What is found without following a link at the end, and is none, is found anyhow. -/
theorem find_follow {follow : Bool} {cwd position : Position CString} {pathname : CString}
    {found : Tree} (finds : fs.find follow cwd pathname = .ok (position, found))
    (noLink : targetOf found = none) : fs.find true cwd pathname = .ok (position, found) := by
  cases follow with
  | true => exact finds
  | false =>
      obtain ⟨looked, located, allowed⟩ := lookup_of_find finds
      refine find_of_lookup ?_ located allowed
      have admissible := admissible_of_lookup looked
      rw [lookup_eq_resolve _ cwd admissible] at looked ⊢
      cases last : decide (pathname.getLast? = some slash) with
      | true =>
          rw [last] at looked
          exact looked
      | false =>
          rw [last] at looked
          exact resolve_follow located noLink 40 looked

/-- A pathname without trailing slash leads to whatever the walk ends at. -/
theorem find_of_walk (noLinks : fs.NoLinks) (follow : Bool) (cwd : Position CString)
    {pathname : CString} (admissible : Admissible pathname) {position : Position CString}
    {found : Tree}
    (walked : fs.walk (origin cwd pathname) (Pathname.pieces slash pathname) = .ok position)
    (located : fs.tree.at? position = some found)
    (allowed : pathname.getLast? = some slash → found.IsDir) :
    fs.find follow cwd pathname = .ok (position, found) :=
  find_of_lookup ((lookup_eq_walk noLinks follow cwd admissible).trans walked) located allowed

/-! ### Single components -/

theorem step_name {cwd : Position CString} {info : Inode} {entries : List (CString × Tree)}
    (located : fs.tree.at? cwd = some (.dir info entries)) {name : CString}
    (notDot : name ≠ dot) (notDotDot : name ≠ dotDot)
    {found : Tree} (foundAt : fs.tree.at? (name :: cwd) = some found) :
    fs.step cwd name = .ok (name :: cwd) := by
  rw [step, located]
  dsimp only
  rw [if_neg notDot, if_neg notDotDot, foundAt]
  rfl

section Single

variable (follow : Bool) {cwd : Position CString} {info : Inode}
  {entries : List (CString × Tree)}

/-- A pathname of one component, in trees with links too. -/
theorem lookup_single {name : CString} (noSlash : slash ∉ name) (notEmpty : name ≠ [])
    (fits : name.length ≤ NAME_MAX) :
    fs.lookup follow cwd name = fs.resolveFrom (fs.resolve follow 39) follow cwd [name] := by
  have pieces : Pathname.pieces slash name = [name] :=
    Pathname.pieces_of_notMem slash noSlash notEmpty
  have relative : name.head? ≠ some slash :=
    fun first => noSlash (List.mem_of_mem_head? first)
  have open' : name.getLast? ≠ some slash := fun last => noSlash (List.mem_of_getLast? last)
  have admissible : Admissible name := by
    refine ⟨notEmpty, Nat.lt_of_le_of_lt fits (by decide), fun piece member => ?_⟩
    rw [pieces, List.mem_singleton] at member
    exact member ▸ fits
  rw [lookup_eq_resolve follow cwd admissible, origin, if_neg relative, pieces,
    decide_eq_false open', Bool.or_false]
  rfl

variable (located : fs.tree.at? cwd = some (.dir info entries))

include located

theorem find_dot : fs.find follow cwd dot = .ok (cwd, .dir info entries) := by
  refine find_of_lookup ?_ located fun last => absurd last (by decide)
  rw [lookup_single follow (by decide) (by decide) (by decide), resolveFrom, located]
  rfl

theorem find_dotDot {above : Tree} (aboveAt : fs.tree.at? cwd.tail = some above) :
    fs.find follow cwd dotDot = .ok (cwd.tail, above) := by
  refine find_of_lookup ?_ aboveAt fun last => absurd last (by decide)
  rw [lookup_single follow (by decide) (by decide) (by decide), resolveFrom, located]
  rfl

/-- An entry that is no link. -/
theorem find_name {name : CString} (valid : ValidName name) {found : Tree}
    (foundAt : fs.tree.at? (name :: cwd) = some found) (noLink : targetOf found = none) :
    fs.find follow cwd name = .ok (name :: cwd, found) := by
  refine find_of_lookup ?_ foundAt fun last => absurd (List.mem_of_getLast? last) valid.noSlash
  rw [lookup_single follow valid.noSlash valid.notEmpty valid.fits, resolveFrom, located]
  dsimp only
  rw [if_neg valid.notDot, if_neg valid.notDotDot, foundAt]
  dsimp only
  rw [noLink]
  rfl

end Single

end FileSystem

/-! ### Calls on pathnames that lead somewhere -/

section Calls

variable {fs : FileSystem} {leftover : Stat} {process : Process} {pathname : CString}
  {position : Position CString} {file : Tree} {info : Inode} {entries : List (CString × Tree)}

theorem treeKernel_stat (found : fs.find true process.cwd pathname = .ok (position, file)) :
    (treeKernel fs leftover).stat pathname process = ((none, statOf file), process) := by
  simp only [treeKernel, found]

theorem treeKernel_lstat (found : fs.find false process.cwd pathname = .ok (position, file)) :
    (treeKernel fs leftover).lstat pathname process = ((none, statOf file), process) := by
  simp only [treeKernel, found]

theorem treeKernel_lstat_fails {errno : Errno}
    (fails : fs.find false process.cwd pathname = .error errno) :
    (treeKernel fs leftover).lstat pathname process = ((some errno, leftover), process) := by
  simp only [treeKernel, fails]

theorem treeKernel_readlink {target : CString}
    (found : fs.find false process.cwd pathname = .ok (position, file))
    (isLink : targetOf file = some target) :
    (treeKernel fs leftover).readlink pathname process = (.ok target, process) := by
  simp only [treeKernel, found, isLink]

theorem treeKernel_opendir
    (found : fs.find true process.cwd pathname = .ok (position, .dir info entries)) :
    (treeKernel fs leftover).opendir pathname process =
      (some (fs.order position), { process with streams := process.streams + 1 }) := by
  simp only [treeKernel, found]
  exact if_pos trivial

theorem treeKernel_chdir
    (found : fs.find true process.cwd pathname = .ok (position, .dir info entries)) :
    (treeKernel fs leftover).chdir pathname process =
      (true, { process with cwd := position }) := by
  simp only [treeKernel, found]
  exact if_pos trivial

end Calls

end LinuxProgramming.Files
