import LinuxProgramming.Library.CBuffer
import LinuxProgramming.Library.CInt
import LinuxProgramming.Files.Resolution

/-!
Contract: `my_getcwd.c`, and the names its climbing loop collects.

Owns:
- `myGetcwd`, over any kernel: the climb, the string-building loop and the way
  back;
- `sightings`, the names under which the climb finds each directory in its parent,
  in any tree;
- the climb in a tree without links: it ends at the root with the names on the
  path, whatever the order in which `readdir` delivers entries.

Does not own: the strings it builds, or calls that fail.
-/

namespace LinuxProgramming.Files

open LinuxProgramming.Library

section Program

variable {W S : Type} (kernel : Kernel W S)

/-- The inner loop of the climb: look for the directory with inode `sondir` among
the entries of its parent and put its name before `path_list`. Without a list
the function returns `NULL`. -/
def findSon (sondir : Inode) : Nat → S → List CString → Prog W (Option (List CString × S))
  | 0, _, _ => stop .outOfFuel
  | fuel + 1, father_path, path_list => do
      match ← call (kernel.readdir father_path) with
      | .failed => pure none
      | .last => pure (some (path_list, father_path))
      | .entry d_name father_path =>
          if d_name = dot ∨ d_name = dotDot then findSon sondir fuel father_path path_list
          else do
            let fatherson ← call (kernel.stat d_name)
            if fatherson.1.isSome then pure none
            else if fatherson.2.inode = sondir then pure (some (d_name :: path_list, father_path))
            else findSon sondir fuel father_path path_list

/-- The climbing loop. -/
def climb : Nat → List CString → Prog W (Option (List CString))
  | 0, _ => stop .outOfFuel
  | fuel + 1, path_list => do
      let sondir ← call (kernel.stat dot)
      if sondir.1.isSome then pure none
      else do
        let fatherdir ← call (kernel.stat dotDot)
        if fatherdir.1.isSome then pure none
        else if fatherdir.2.inode = sondir.2.inode then pure (some path_list)
        else do
          match ← call (kernel.opendir dotDot) with
          | none => pure none
          | some father_path =>
              let changed ← call (kernel.chdir dotDot)
              if changed = false then pure none
              else
                match ← findSon kernel sondir.2.inode fuel father_path path_list with
                | none => pure none
                | some (path_list, father_path) =>
                    let closed ← call (kernel.closedir (some father_path))
                    if closed = false then pure none else climb fuel path_list

/-- The string-building loop; `buf_ind` is the `int` index to write at next. The
test for space is made in `size_t` and takes the length of `name + 1`, the name
without its first byte. A write outside the buffer, or the sum `buf_ind + 1` beyond
the range of `int`, ends the run. -/
def buildPath (size : Nat) :
    List CString → Int → List UInt8 → Prog W (Except Errno (List UInt8))
  | [], _, cwdbuf => pure (.ok cwdbuf)
  | name :: rest, buf_ind, cwdbuf =>
      if size < CInt.toSize (buf_ind + (name.drop 1).length) then pure (.error .erange)
      else if buf_ind < 0 ∨ buf_ind = CInt.INT_MAX then stop .overflow
      else
        match CBuffer.strcpy? 0 cwdbuf buf_ind.toNat [slash] with
        | none => stop .overflow
        | some cwdbuf =>
            match CBuffer.strcpy? 0 cwdbuf (buf_ind.toNat + 1) name with
            | none => stop .overflow
            | some cwdbuf =>
                buildPath size rest (CInt.wrap (buf_ind + (name.length + 1))) cwdbuf

/-- `my_getcwd`: the caller's buffer afterwards, or `none` for `NULL`. -/
def myGetcwd (fuel : Nat) (cwdbuf : List UInt8) (size : Nat) : Prog W (Option (List UInt8)) := do
  match ← call (kernel.openFile dot) with
  | none => stop .exited
  | some fd =>
      match ← climb kernel fuel [] with
      | none => pure none
      | some path_list =>
          match ← buildPath size path_list 0 cwdbuf with
          | .error _ => pure none
          | .ok cwdbuf =>
              let returned ← call (kernel.fchdir fd)
              if returned = false then stop .exited else pure (some cwdbuf)

end Program

/-! ### What the climb finds -/

/-- No two files share an inode. -/
def FileSystem.DistinctInodes (fs : FileSystem) : Prop :=
  ∀ first second firstFile secondFile, fs.tree.at? first = some firstFile →
    fs.tree.at? second = some secondFile → inodeOf firstFile = inodeOf secondFile →
    first = second

/-- No file shares the inode of a directory. -/
def FileSystem.OwnInodes (fs : FileSystem) : Prop :=
  ∀ first second info entries file, fs.tree.at? first = some (.dir info entries) →
    fs.tree.at? second = some file → inodeOf file = info → second = first

theorem FileSystem.DistinctInodes.ownInodes {fs : FileSystem} (distinct : fs.DistinctInodes) :
    fs.OwnInodes :=
  fun first second _ _ _ firstAt secondAt same => distinct second first _ _ secondAt firstAt same

namespace FileSystem

variable (fs : FileSystem)

/-- The search for the directory `name` passes an entry of its parent by: it is `.` or
`..`, or leads to another file. -/
def passesBy (name : CString) (parent : Position CString) (entry : CString) : Bool :=
  entry = dot || entry = dotDot ||
    match fs.find true parent entry with
    | .error _ => false
    | .ok found => found.1 ≠ name :: parent

/-- The name under which the directory `name` is found in its parent: the first entry
that is not passed by. There is none if that entry leads nowhere. -/
def sighted (name : CString) (parent : Position CString) : Option CString :=
  ((fs.order parent).find? fun entry => !fs.passesBy name parent entry).filter
    fun entry => (fs.find true parent entry).toOption.isSome

/-- The names found on the way from a directory to the root, the highest first. -/
def sightings : Position CString → Option (List CString)
  | [] => some []
  | name :: parent => do
      let above ← sightings parent
      let entry ← fs.sighted name parent
      pure (above ++ [entry])

end FileSystem

section Climb

variable {fs : FileSystem} {leftover : Stat}

/-- What the stream of a directory delivers. -/
theorem delivered_of_order {position : Position CString} {info : Inode}
    {entries : List (CString × Tree)}
    (located : fs.tree.at? position = some (.dir info entries)) :
    ∀ other ∈ fs.order position, other = dot ∨ other = dotDot ∨
      ValidName other ∧ ∃ file, fs.tree.at? (other :: position) = some file := by
  intro other member
  by_cases dots : other ≠ dot ∧ other ≠ dotDot
  · have named : other ∈ entries.map Prod.fst := (fs.mem_names_iff located).mpr ⟨member, dots⟩
    obtain ⟨file, found⟩ : ∃ file, (FileTree.dir info entries).child? other = some file :=
      FileTree.exists_child? named
    refine .inr (.inr ⟨fs.validName located named, file, ?_⟩)
    rw [FileTree.at?_cons, located]
    exact found
  · rcases Decidable.not_and_iff_not_or_not.mp dots with isDot | isDotDot
    · exact .inl (not_not.mp isDot)
    · exact .inr (.inl (not_not.mp isDotDot))

theorem mem_order {position : Position CString} {name : CString} {file : Tree}
    (located : fs.tree.at? (name :: position) = some file) :
    name ∈ fs.order position ∧ ValidName name := by
  obtain ⟨above, aboveAt, child, isDir⟩ := FileTree.exists_parent located
  cases above with
  | leaf content => cases isDir
  | dir info entries =>
      have named : name ∈ entries.map Prod.fst := FileTree.mem_names_of_child? child
      exact ⟨((fs.mem_names_iff aboveAt).mp named).1, fs.validName aboveAt named⟩

/-- A directory is not passed by under its own name, so that some entry is not. -/
theorem exists_sight {name : CString} {parent : Position CString} {info : Inode}
    {entries : List (CString × Tree)}
    (located : fs.tree.at? (name :: parent) = some (.dir info entries)) :
    ∃ entry, (fs.order parent).find? (fun entry => !fs.passesBy name parent entry) =
      some entry := by
  obtain ⟨member, valid⟩ := mem_order located
  obtain ⟨parentInfo, parentEntries, parentAt⟩ := FileSystem.tail_isDir located
  have own : fs.passesBy name parent name = false := by
    have finds := FileSystem.find_name true parentAt valid located rfl
    rw [List.tail_cons] at finds
    simp only [FileSystem.passesBy, finds, valid.notDot, valid.notDotDot, decide_false,
      Bool.false_or, ne_eq, not_true_eq_false]
  apply Option.isSome_iff_exists.mp
  rw [List.find?_isSome]
  exact ⟨name, member, by rw [own]; rfl⟩

variable (leftover) in
/-- The inner loop ends at the first entry that is not passed by. The induction is on
what is left of the directory stream. -/
theorem findSon_sights (own : fs.OwnInodes) {name : CString} {parent : Position CString}
    {info : Inode} {entries : List (CString × Tree)}
    (sonAt : fs.tree.at? (name :: parent) = some (.dir info entries)) (process : Process)
    (atParent : process.cwd = parent) {stream : List CString} {entry : CString}
    (sight : stream.find? (fun entry => !fs.passesBy name parent entry) = some entry)
    (path_list : List CString) {fuel : Nat} (enough : stream.length ≤ fuel) :
    match fs.find true parent entry with
    | .error _ => findSon (treeKernel fs leftover) info fuel stream path_list process =
        .ok (none, process)
    | .ok _ => ∃ rest, findSon (treeKernel fs leftover) info fuel stream path_list process =
        .ok (some (entry :: path_list, rest), process) := by
  subst atParent
  induction stream generalizing fuel with
  | nil => cases sight
  | cons other rest inductionHypothesis =>
      obtain ⟨fuel, rfl⟩ : ∃ less, fuel = less + 1 :=
        Nat.exists_eq_succ_of_ne_zero (by simp only [List.length_cons] at enough; omega)
      simp only [List.length_cons, Nat.add_le_add_iff_right] at enough
      have read : (treeKernel fs leftover).readdir (other :: rest) process =
          (.entry other rest, process) := rfl
      rw [findSon, call_bind _ read]
      dsimp only
      by_cases dots : other = dot ∨ other = dotDot
      · have passed : fs.passesBy name process.cwd other = true := by
          rcases dots with rfl | rfl <;> rfl
        rw [List.find?_cons_of_neg (by rw [passed]; decide)] at sight
        simp only [if_pos dots]
        exact inductionHypothesis enough sight
      · obtain ⟨notDot, notDotDot⟩ := not_or.mp dots
        simp only [if_neg dots]
        cases looked : fs.find true process.cwd other with
        | error errno =>
            have stops : fs.passesBy name process.cwd other = false := by
              simp only [FileSystem.passesBy, looked, notDot, notDotDot, decide_false,
                Bool.or_self]
            have fails : (treeKernel fs leftover).stat other process =
                ((some errno, leftover), process) := by simp only [treeKernel, looked]
            rw [List.find?_cons_of_pos (by rw [stops]; decide)] at sight
            cases sight
            simp only [looked]
            rw [call_bind _ fails]
            rfl
        | ok found =>
            obtain ⟨position, file⟩ := found
            have fileAt := FileSystem.at?_of_find looked
            rw [call_bind _ (treeKernel_stat looked)]
            simp only [statOf_inode, Option.isSome_none, Bool.false_eq_true, if_false]
            by_cases isSon : position = name :: process.cwd
            · subst isSon
              have stops : fs.passesBy name process.cwd other = false := by
                simp only [FileSystem.passesBy, looked, notDot, notDotDot, decide_false,
                  Bool.false_or, ne_eq, not_true_eq_false]
              rw [List.find?_cons_of_pos (by rw [stops]; decide)] at sight
              cases sight
              rw [sonAt] at fileAt
              cases fileAt
              simp only [looked]
              exact ⟨rest, by rw [if_pos (show inodeOf (.dir info entries) = info from rfl)]; rfl⟩
            · have passed : fs.passesBy name process.cwd other = true := by
                simp only [FileSystem.passesBy, looked, ne_eq, isSon, not_false_eq_true,
                  decide_true, Bool.or_true]
              have different : inodeOf file ≠ info := fun same =>
                isSon (own _ _ _ _ _ sonAt fileAt same)
              rw [List.find?_cons_of_neg (by rw [passed]; decide)] at sight
              simp only [if_neg different]
              exact inductionHypothesis enough sight

variable (leftover) in
/-- At the root the climb is over. -/
theorem climb_root {info : Inode} {entries : List (CString × Tree)} {process : Process}
    (located : fs.tree.at? [] = some (.dir info entries)) (standing : process.cwd = [])
    (fuel : Nat) (path_list : List CString) :
    climb (treeKernel fs leftover) (fuel + 1) path_list process =
      .ok (some path_list, process) := by
  rw [← standing] at located
  have aboveAt : fs.tree.at? process.cwd.tail = some (.dir info entries) := by
    rw [standing] at located ⊢
    exact located
  rw [climb, call_bind _ (treeKernel_stat (FileSystem.find_dot true located))]
  dsimp only
  rw [if_neg (by simp),
    call_bind _ (treeKernel_stat (FileSystem.find_dotDot true located aboveAt))]
  dsimp only
  rw [if_neg (by simp), if_pos rfl]
  rfl

variable (leftover) in
/-- Below the root one turn of the climb is a search in the parent, and goes on from there
if it succeeds. -/
theorem climb_parent (own : fs.OwnInodes) {name : CString} {parent : Position CString}
    {info parentInfo : Inode} {entries parentEntries : List (CString × Tree)} {process : Process}
    (located : fs.tree.at? (name :: parent) = some (.dir info entries))
    (parentAt : fs.tree.at? parent = some (.dir parentInfo parentEntries))
    (standing : process.cwd = name :: parent) {fuel : Nat} {path_list : List CString}
    (found : Option (List CString × List CString))
    (searched : findSon (treeKernel fs leftover) info fuel (fs.order parent) path_list
        { process with streams := process.streams + 1, cwd := parent } =
      .ok (found, { process with streams := process.streams + 1, cwd := parent })) :
    climb (treeKernel fs leftover) (fuel + 1) path_list process =
      found.elim (.ok (none, { process with streams := process.streams + 1, cwd := parent }))
        fun found => climb (treeKernel fs leftover) fuel found.1 { process with cwd := parent } := by
  have sought : findSon (treeKernel fs leftover) (statOf (.dir info entries)).inode fuel
      (fs.order parent) path_list
      { process with streams := process.streams + 1, cwd := parent } =
      .ok (found, { process with streams := process.streams + 1, cwd := parent }) := searched
  let opened : Process := { process with streams := process.streams + 1 }
  let moved : Process := { opened with cwd := parent }
  have cwdAt : fs.tree.at? process.cwd = some (.dir info entries) := standing ▸ located
  have upward : fs.find true process.cwd dotDot =
      .ok (parent, .dir parentInfo parentEntries) := by
    have parentIs : process.cwd.tail = parent := by rw [standing, List.tail_cons]
    have found := FileSystem.find_dotDot true cwdAt (parentIs.symm ▸ parentAt)
    rwa [parentIs] at found
  have changing : (treeKernel fs leftover).chdir dotDot opened = (true, moved) :=
    treeKernel_chdir upward
  have different : parentInfo ≠ info := by
    rintro rfl
    have same := own _ _ _ _ _ parentAt located rfl
    exact absurd (congrArg List.length same) (by simp)
  rw [climb, call_bind _ (treeKernel_stat (FileSystem.find_dot true cwdAt))]
  dsimp only
  rw [if_neg (by simp), call_bind _ (treeKernel_stat upward)]
  dsimp only
  rw [if_neg (by simp), if_neg (by exact different), call_bind _ (treeKernel_opendir upward)]
  dsimp only
  rw [call_bind _ changing, if_neg (by simp), bind_ok sought]
  cases found with
  | none => rfl
  | some found =>
      have closing : (treeKernel fs leftover).closedir (some found.2) moved =
          (true, { process with cwd := parent }) := rfl
      dsimp only
      rw [call_bind _ closing, if_neg (by simp)]
      rfl

variable (leftover) in
/-- The climb from a directory of any tree: the names sighted, or a failure. The
induction is on the depth of the directory. -/
theorem climb_sights (own : fs.OwnInodes) (position : Position CString) :
    ∀ {info : Inode} {entries : List (CString × Tree)} (process : Process)
      (path_list : List CString), fs.tree.at? position = some (.dir info entries) →
      process.cwd = position →
      ∃ bound, ∀ fuel, bound ≤ fuel →
        match fs.sightings position with
        | some names => climb (treeKernel fs leftover) fuel path_list process =
            .ok (some (names ++ path_list), { process with cwd := [] })
        | none => ∃ process', climb (treeKernel fs leftover) fuel path_list process =
            .ok (none, process') := by
  induction position with
  | nil =>
      intro info entries process path_list located standing
      refine ⟨1, fun fuel enough => ?_⟩
      obtain ⟨fuel, rfl⟩ := Nat.exists_eq_succ_of_ne_zero (Nat.ne_of_gt enough)
      show climb (treeKernel fs leftover) (fuel + 1) path_list process = _
      rw [climb_root leftover located standing]
      cases process
      cases standing
      rfl
  | cons name parent inductionHypothesis =>
      intro info entries process path_list located standing
      obtain ⟨parentInfo, parentEntries, parentAt⟩ := FileSystem.tail_isDir located
      rw [List.tail_cons] at parentAt
      obtain ⟨entry, sight⟩ := exists_sight located
      obtain ⟨bound, climbs⟩ := inductionHypothesis
        { process with cwd := parent } (entry :: path_list) parentAt rfl
      refine ⟨max bound (fs.order parent).length + 1, fun fuel enough => ?_⟩
      obtain ⟨fuel, rfl⟩ : ∃ less, fuel = less + 1 :=
        Nat.exists_eq_succ_of_ne_zero (by omega)
      have room : (fs.order parent).length ≤ fuel := by omega
      have searched := findSon_sights leftover own located
        { process with streams := process.streams + 1, cwd := parent } rfl sight path_list room
      rw [FileSystem.sightings, FileSystem.sighted, sight]
      cases looked : fs.find true parent entry with
      | error errno =>
          simp only [looked] at searched
          have failed : ((some entry).filter fun entry =>
              (fs.find true parent entry).toOption.isSome) = none := by
            rw [Option.filter_some, looked]
            rfl
          have ends := climb_parent leftover own located parentAt standing none searched
          rw [failed]
          cases fs.sightings parent with
          | none => exact ⟨_, ends⟩
          | some names => exact ⟨_, ends⟩
      | ok found =>
          simp only [looked] at searched
          obtain ⟨rest, finds⟩ := searched
          have succeeded : ((some entry).filter fun entry =>
              (fs.find true parent entry).toOption.isSome) = some entry := by
            rw [Option.filter_some, looked]
            rfl
          have rises := climbs fuel (by omega)
          rw [succeeded, climb_parent leftover own located parentAt standing _ finds]
          cases above : fs.sightings parent with
          | none =>
              rw [above] at rises
              exact rises
          | some names =>
              rw [above] at rises
              show _ = Except.ok (some (names ++ [entry] ++ path_list), _)
              rw [List.append_assoc]
              exact rises

end Climb

/-- Without links every directory is found under its own name. -/
theorem sighted_name {fs : FileSystem} (noLinks : fs.NoLinks) {name : CString}
    {parent : Position CString} {info : Inode} {entries : List (CString × Tree)}
    (located : fs.tree.at? (name :: parent) = some (.dir info entries)) :
    fs.sighted name parent = some name := by
  obtain ⟨parentInfo, parentEntries, parentAt⟩ := FileSystem.tail_isDir located
  rw [List.tail_cons] at parentAt
  obtain ⟨entry, sight⟩ := exists_sight located
  have isName : entry = name := by
    have stops : fs.passesBy name parent entry = false := by simpa using List.find?_some sight
    rcases delivered_of_order parentAt entry (List.mem_of_find?_eq_some sight) with
      rfl | rfl | ⟨valid, file, fileAt⟩
    · cases stops
    · cases stops
    · have finds := FileSystem.find_name true parentAt valid fileAt (noLinks _ _ fileAt)
      simpa [FileSystem.passesBy, finds, valid.notDot, valid.notDotDot] using stops
  subst isName
  obtain ⟨_, valid⟩ := mem_order located
  have finds := FileSystem.find_name true parentAt valid located rfl
  rw [FileSystem.sighted, sight, Option.filter_some, finds]
  rfl

theorem sightings_eq {fs : FileSystem} (noLinks : fs.NoLinks) {position : Position CString}
    {info : Inode} {entries : List (CString × Tree)}
    (located : fs.tree.at? position = some (.dir info entries)) :
    fs.sightings position = some position.reverse := by
  induction position generalizing info entries with
  | nil => rfl
  | cons name parent inductionHypothesis =>
      obtain ⟨parentInfo, parentEntries, parentAt⟩ := FileSystem.tail_isDir located
      rw [FileSystem.sightings, inductionHypothesis parentAt, sighted_name noLinks located,
        List.reverse_cons]
      rfl

/-- In every tree without links whose files have distinct inodes, from every
directory: the loop ends with the process at the root and the names on the path
from the root to that directory. -/
theorem climb_correct (fs : FileSystem) (leftover : Stat) (noLinks : fs.NoLinks)
    (distinct : fs.DistinctInodes) (start : Position CString) (info : Inode)
    (entries : List (CString × Tree)) (located : fs.tree.at? start = some (.dir info entries))
    (process : Process) (standing : process.cwd = start) :
    ∃ bound, ∀ fuel, bound ≤ fuel →
      climb (treeKernel fs leftover) fuel [] process =
        .ok (some start.reverse, { process with cwd := [] }) := by
  obtain ⟨bound, climbs⟩ := climb_sights leftover distinct.ownInodes start process [] located
    standing
  refine ⟨bound, fun fuel enough => ?_⟩
  have arrives := climbs fuel enough
  rw [sightings_eq noLinks located] at arrives
  dsimp only at arrives
  rwa [List.append_nil] at arrives

/-- The root with the directory `a`, which holds the directory `b`. -/
def nestedTree : Tree :=
  .dir ⟨1, 1⟩ [([97], .dir ⟨1, 2⟩ [([98], .dir ⟨1, 3⟩ [])])]

def nested : FileSystem := FileSystem.ofTree nestedTree trivial (by decide)

theorem nested_noLinks : nested.NoLinks := by
  intro position found located
  have plain : ∀ listed ∈ nestedTree.preorder [], targetOf listed.2 = none := by
    simp [nestedTree, FileTree.preorder, FileTree.preorderEntries, targetOf]
  exact plain _ (FileTree.mem_preorder located)

theorem climb_correct_nested :
    ∃ bound, ∀ fuel, bound ≤ fuel →
      climb (treeKernel nested ⟨⟨0, 0⟩, .other⟩) fuel [] ⟨[[98], [97]], [], 0⟩ =
        .ok (some [[97], [98]], ⟨[], [], 0⟩) := by
  have distinct : nested.DistinctInodes := by
    intro first second firstFile secondFile firstAt secondAt same
    have apart : ∀ one ∈ nestedTree.preorder [], ∀ other ∈ nestedTree.preorder [],
        inodeOf one.2 = inodeOf other.2 → one.1 = other.1 := by
      simp [nestedTree, FileTree.preorder, FileTree.preorderEntries, inodeOf]
    exact apart _ (FileTree.mem_preorder firstAt) _ (FileTree.mem_preorder secondAt) same
  exact climb_correct nested ⟨⟨0, 0⟩, .other⟩ nested_noLinks distinct [[98], [97]] ⟨1, 3⟩ [] rfl
    ⟨[[98], [97]], [], 0⟩ rfl

end LinuxProgramming.Files
