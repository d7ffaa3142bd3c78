import Mathlib.Data.List.TakeWhile
import LinuxProgramming.Files.GetcwdPath
import LinuxProgramming.Files.RealpathState

/-!
Contract: `my_getcwd` on two trees that differ in symbolic links.

Owns:
- `answer`, what `my_getcwd` makes of the names its climb has collected;
- `AddsLinks`, a tree with symbolic links added to the directories above a start,
  and the exact condition under which both trees give the same answer.

Does not own: buffers that are too small.
-/

namespace LinuxProgramming.Files

open LinuxProgramming.Library

/-! ### The answer -/

/-- `NULL`, or the string built of the names in the caller's buffer. -/
def answer (found : Option (List CString)) (cwdbuf : List UInt8) (size : Nat) :
    Except Stop (Option (List UInt8)) :=
  match found with
  | none => .ok none
  | some names => (buildPath size names 0 cwdbuf ()).map fun built => built.1.toOption

/-- The string-building loop makes no system call. -/
theorem buildPath_world {W : Type} (world : W) (size : Nat) (names : List CString) (buf_ind : Int)
    (cwdbuf : List UInt8) :
    buildPath size names buf_ind cwdbuf world =
      (buildPath size names buf_ind cwdbuf ()).map fun built => (built.1, world) := by
  induction names generalizing buf_ind cwdbuf with
  | nil => rfl
  | cons name rest inductionHypothesis =>
      rw [buildPath, buildPath]
      split
      · rfl
      split
      · rfl
      cases CBuffer.strcpy? 0 cwdbuf buf_ind.toNat [slash] with
      | none => rfl
      | some slashed =>
          dsimp only
          cases CBuffer.strcpy? 0 slashed (buf_ind.toNat + 1) name with
          | none => rfl
          | some copied => exact inductionHypothesis _ _

section Answer

variable {fs : FileSystem}

/-- On every tree: what `my_getcwd` returns is built of the names sighted. -/
theorem myGetcwd_answers (leftover : Stat) (own : fs.OwnInodes) {start : Position CString}
    {info : Inode} {entries : List (CString × Tree)}
    (located : fs.tree.at? start = some (.dir info entries)) (process : Process)
    (standing : process.cwd = start) :
    ∃ bound, ∀ fuel, bound ≤ fuel → ∀ cwdbuf size,
      (myGetcwd (treeKernel fs leftover) fuel cwdbuf size process).map Prod.fst =
        answer (fs.sightings start) cwdbuf size := by
  let opened : Process :=
    { process with descriptors := process.descriptors ++ [some process.cwd] }
  obtain ⟨bound, climbs⟩ := climb_sights leftover own start opened [] located standing
  refine ⟨bound, fun fuel enough cwdbuf size => ?_⟩
  have opening : (treeKernel fs leftover).openFile dot process =
      (some process.descriptors.length, opened) := by
    have finds : fs.find true process.cwd dot = .ok (process.cwd, .dir info entries) :=
      FileSystem.find_dot true (standing.symm ▸ located)
    simp only [treeKernel, finds]
    rfl
  have arrives := climbs fuel enough
  rw [myGetcwd, call_bind _ opening]
  dsimp only
  cases sighted : fs.sightings start with
  | none =>
      rw [sighted] at arrives
      obtain ⟨process', fails⟩ := arrives
      rw [bind_ok fails]
      rfl
  | some names =>
      rw [sighted] at arrives
      dsimp only at arrives
      rw [List.append_nil] at arrives
      rw [bind_ok arrives]
      dsimp only [answer]
      let risen : Process := { opened with cwd := [] }
      have building := buildPath_world risen size names 0 cwdbuf
      have going : (treeKernel fs leftover).fchdir process.descriptors.length risen =
          (true, { risen with cwd := process.cwd }) := by
        have recorded : (risen.descriptors[process.descriptors.length]?).join =
            some process.cwd := congrArg Option.join List.getElem?_concat_length
        simp only [treeKernel, recorded]
      show ((buildPath size names 0 cwdbuf risen).bind _).map Prod.fst = _
      rw [building]
      cases buildPath size names 0 cwdbuf () with
      | error reason => rfl
      | ok built =>
          obtain ⟨written, _⟩ := built
          cases written with
          | error errno => rfl
          | ok cwdbuf =>
              show ((call _ >>= _) risen).map Prod.fst = _
              rw [call_bind _ going]
              rfl

end Answer

/-! ### Two trees -/

/-- On the way to the root, the search for some directory ends at an entry that leads
nowhere. -/
def Obstructed (fs : FileSystem) (start : Position CString) : Prop :=
  ∃ name parent, name :: parent <:+ start ∧ fs.sighted name parent = none

/-- In both trees some search ends at an entry that leads nowhere, or in neither, and
every search ends at an entry of the same name. -/
def SearchesAlike (fs fs' : FileSystem) (start : Position CString) : Prop :=
  Obstructed fs start ∧ Obstructed fs' start ∨
    ¬ Obstructed fs start ∧
      ∀ name parent, name :: parent <:+ start → fs'.sighted name parent = fs.sighted name parent

section Sightings

variable {fs fs' : FileSystem} {start : Position CString}

theorem obstructed_cons {name : CString} {parent : Position CString} :
    Obstructed fs (name :: parent) ↔ fs.sighted name parent = none ∨ Obstructed fs parent := by
  constructor
  · rintro ⟨entry, above, suffix, fails⟩
    rcases List.suffix_cons_iff.mp suffix with same | higher
    · cases same
      exact .inl fails
    · exact .inr ⟨entry, above, higher, fails⟩
  · rintro (fails | ⟨entry, above, suffix, fails⟩)
    · exact ⟨name, parent, List.suffix_refl _, fails⟩
    · exact ⟨entry, above, suffix.trans (List.suffix_cons _ _), fails⟩

theorem sightings_eq_none_iff : fs.sightings start = none ↔ Obstructed fs start := by
  induction start with
  | nil => exact iff_of_false nofun fun ⟨_, _, suffix, _⟩ => by simp at suffix
  | cons name parent inductionHypothesis =>
      rw [obstructed_cons, ← inductionHypothesis, FileSystem.sightings]
      cases fs.sightings parent <;> cases fs.sighted name parent <;> simp

/-- If nothing obstructs the searches in one tree, the names are the same in both
exactly if every search ends alike. The induction is on the depth of the start. -/
theorem sightings_same_iff (clear : ¬ Obstructed fs start) :
    fs'.sightings start = fs.sightings start ↔
      ∀ name parent, name :: parent <:+ start →
        fs'.sighted name parent = fs.sighted name parent := by
  induction start with
  | nil => exact iff_of_true rfl fun _ _ suffix => by simp at suffix
  | cons name parent inductionHypothesis =>
      obtain ⟨seen, clearAbove⟩ := not_or.mp (obstructed_cons.not.mp clear)
      have onward : (∀ entry above, entry :: above <:+ name :: parent →
            fs'.sighted entry above = fs.sighted entry above) ↔
          fs'.sighted name parent = fs.sighted name parent ∧
            fs'.sightings parent = fs.sightings parent := by
        rw [inductionHypothesis clearAbove]
        constructor
        · intro every
          exact ⟨every _ _ (List.suffix_refl _),
            fun entry above suffix => every _ _ (suffix.trans (List.suffix_cons _ _))⟩
        · rintro ⟨here, above⟩ entry higher suffix
          rcases List.suffix_cons_iff.mp suffix with same | suffix
          · cases same
            exact here
          · exact above entry higher suffix
      rw [onward, FileSystem.sightings, FileSystem.sightings]
      obtain ⟨entry, isEntry⟩ := Option.ne_none_iff_exists'.mp seen
      obtain ⟨names, areNames⟩ := Option.ne_none_iff_exists'.mp
        (sightings_eq_none_iff.not.mpr clearAbove)
      rw [isEntry, areNames]
      constructor
      · intro same
        cases above : fs'.sightings parent with
        | none => rw [above] at same; cases same
        | some names' =>
            cases here : fs'.sighted name parent with
            | none => rw [above, here] at same; cases same
            | some entry' =>
                rw [above, here] at same
                have joined : names' ++ [entry'] = names ++ [entry] := Option.some.inj same
                obtain ⟨sameNames, sameEntry⟩ := List.append_inj' joined rfl
                rw [sameNames, List.cons.inj sameEntry |>.1]
                exact ⟨rfl, rfl⟩
      · rintro ⟨here, above⟩
        rw [here, above]

theorem searchesAlike_iff :
    fs'.sightings start = fs.sightings start ↔ SearchesAlike fs fs' start := by
  by_cases obstructed : Obstructed fs start
  · rw [sightings_eq_none_iff.mpr obstructed, sightings_eq_none_iff, SearchesAlike,
      and_iff_right obstructed, or_iff_left fun clear => clear.1 obstructed]
  · rw [sightings_same_iff obstructed, SearchesAlike, or_iff_right fun both => obstructed both.1,
      and_iff_right obstructed]

end Sightings

/-! ### Different names, different paths -/

theorem pieces_absolutePath {names : List CString}
    (plain : ∀ name ∈ names, name ≠ [] ∧ slash ∉ name) :
    Pathname.pieces slash (absolutePath names) = names := by
  rw [absolutePath]
  split
  case isTrue empty => rw [empty]; rfl
  case isFalse =>
    have isText : componentText names = pathText [] names.reverse := by
      rw [pathText, List.reverse_reverse, List.nil_append, componentText]
    rw [isText, pieces_pathText (.inl rfl), List.reverse_reverse]
    exact fun name member => plain name (List.mem_reverse.mp member)

section Plain

variable {fs : FileSystem}

/-- What is sighted is an entry. -/
theorem valid_of_sighted {name entry : CString} {parent : Position CString} {info : Inode}
    {entries : List (CString × Tree)}
    (parentAt : fs.tree.at? parent = some (.dir info entries))
    (sight : fs.sighted name parent = some entry) : ValidName entry := by
  obtain ⟨found, _⟩ := Option.filter_eq_some_iff.mp sight
  have stops : fs.passesBy name parent entry = false := by simpa using List.find?_some found
  rcases delivered_of_order parentAt entry (List.mem_of_find?_eq_some found) with
    rfl | rfl | ⟨valid, _⟩
  · cases stops
  · cases stops
  · exact valid

theorem plain_of_sightings {position : Position CString} {info : Inode}
    {entries : List (CString × Tree)} {names : List CString}
    (located : fs.tree.at? position = some (.dir info entries))
    (sights : fs.sightings position = some names) : ∀ name ∈ names, name ≠ [] ∧ slash ∉ name := by
  induction position generalizing info entries names with
  | nil =>
      cases sights
      nofun
  | cons last parent inductionHypothesis =>
      obtain ⟨parentInfo, parentEntries, parentAt⟩ := FileSystem.tail_isDir located
      rw [List.tail_cons] at parentAt
      rw [FileSystem.sightings] at sights
      cases above : fs.sightings parent with
      | none => rw [above] at sights; cases sights
      | some higher =>
          cases here : fs.sighted last parent with
          | none => rw [above, here] at sights; cases sights
          | some entry =>
              rw [above, here] at sights
              have joined : higher ++ [entry] = names := Option.some.inj sights
              intro name member
              rw [← joined] at member
              rcases List.mem_append.mp member with before | last
              · exact inductionHypothesis parentAt above name before
              · have valid := valid_of_sighted parentAt here
                rw [List.mem_singleton.mp last]
                exact ⟨valid.notEmpty, valid.noSlash⟩

end Plain

/-- The paths of two searches are the same exactly if the names are. -/
theorem map_absolutePath_iff {fs fs' : FileSystem} {start : Position CString}
    {info info' : Inode} {entries entries' : List (CString × Tree)}
    (located : fs.tree.at? start = some (.dir info entries))
    (located' : fs'.tree.at? start = some (.dir info' entries')) :
    (fs'.sightings start).map absolutePath = (fs.sightings start).map absolutePath ↔
      fs'.sightings start = fs.sightings start := by
  refine ⟨fun same => ?_, fun same => by rw [same]⟩
  cases here : fs.sightings start with
  | none =>
      rw [here, Option.map_none, Option.map_eq_none_iff] at same
      exact same
  | some names =>
      rw [here, Option.map_some] at same
      obtain ⟨names', sights, samePath⟩ := Option.map_eq_some_iff.mp same
      rw [sights, ← pieces_absolutePath (plain_of_sightings located here), ← samePath,
        pieces_absolutePath (plain_of_sightings located' sights)]

/-! ### Added links -/

/-- `fs'` is `fs` with symbolic links added to the directories above `start`, anywhere
among the entries that `readdir` delivers. -/
structure FileSystem.AddsLinks (fs fs' : FileSystem) (start : Position CString) : Prop where
  kept : ∀ position file, fs.tree.at? position = some file →
    ∃ file', fs'.tree.at? position = some file' ∧ statOf file' = statOf file ∧
      targetOf file' = targetOf file
  added : ∀ name position file, fs'.tree.at? (name :: position) = some file →
    fs.tree.at? (name :: position) = none →
    (targetOf file).isSome ∧ ∃ son, son :: position <:+ start
  order : ∀ position info entries, fs.tree.at? position = some (.dir info entries) →
    (fs'.order position).filter (fun name =>
      name = dot ∨ name = dotDot ∨ (fs.tree.at? (name :: position)).isSome) = fs.order position

section Added

variable {fs fs' : FileSystem} {start : Position CString} {info : Inode}
  {entries : List (CString × Tree)}

theorem eq_dir_of_statOf {file : Tree} (same : statOf file = statOf (.dir info entries)) :
    ∃ entries', file = .dir info entries' := by
  cases file with
  | leaf content =>
      have mode := congrArg Stat.st_mode same
      simp only [statOf] at mode
      split at mode <;> cases mode
  | dir info' entries' =>
      have sameInfo : info' = info := congrArg Stat.inode same
      exact ⟨entries', by rw [sameInfo]⟩

namespace FileSystem.AddsLinks

variable (adds : fs.AddsLinks fs' start)

include adds

theorem dir {position : Position CString}
    (located : fs.tree.at? position = some (.dir info entries)) :
    ∃ entries', fs'.tree.at? position = some (.dir info entries') := by
  obtain ⟨file, fileAt, same, _⟩ := adds.kept position _ located
  obtain ⟨entries', rfl⟩ := eq_dir_of_statOf same
  exact ⟨entries', fileAt⟩

theorem ownInodes (own : fs'.OwnInodes) : fs.OwnInodes := by
  intro first second info entries file firstAt secondAt same
  obtain ⟨entries', firstAt'⟩ := adds.dir firstAt
  obtain ⟨file', secondAt', sameStat, _⟩ := adds.kept second file secondAt
  refine own first second info entries' file' firstAt' secondAt' ?_
  rw [← statOf_inode, sameStat, statOf_inode, same]

end FileSystem.AddsLinks

end Added

/-- The first match is a given member exactly if nothing before it matches. -/
theorem find?_eq_iff_takeWhile {α : Type} [DecidableEq α] {items : List α} {item : α}
    {holds : α → Bool} (member : item ∈ items) (here : holds item = true) :
    items.find? holds = some item ↔ ∀ other ∈ items.takeWhile (· ≠ item), holds other = false := by
  induction items with
  | nil => cases member
  | cons first rest inductionHypothesis =>
      by_cases isItem : first = item
      · subst isItem
        rw [List.find?_cons_of_pos here, List.takeWhile_cons_of_neg (by simp)]
        exact iff_of_true rfl nofun
      · have later := (List.mem_cons.mp member).resolve_left (Ne.symm isItem)
        rw [List.takeWhile_cons_of_pos (by simpa using isItem), List.forall_mem_cons]
        cases matched : holds first with
        | true =>
            rw [List.find?_cons_of_pos matched]
            exact iff_of_false (fun same => isItem (Option.some.inj same)) nofun
        | false =>
            rw [List.find?_cons_of_neg (by rw [matched]; decide), inductionHypothesis later,
              and_iff_right rfl]

section LinkFree

variable {fs fs' : FileSystem} {start : Position CString} {info : Inode}
  {entries : List (CString × Tree)}

/-- A directory above the start, as an entry of its parent. -/
theorem at?_of_suffix {position : Position CString}
    (located : fs.tree.at? start = some (.dir info entries)) (suffix : position <:+ start) :
    ∃ info entries, fs.tree.at? position = some (.dir info entries) := by
  obtain ⟨below, rfl⟩ := suffix
  induction below generalizing info entries with
  | nil => exact ⟨info, entries, located⟩
  | cons last above inductionHypothesis =>
      obtain ⟨aboveInfo, aboveEntries, aboveAt⟩ := FileSystem.tail_isDir located
      exact inductionHypothesis aboveAt

/-- Every added link that stands before the entry of a directory above the start leads
to another file than that directory. -/
def LinksPassedBy (fs fs' : FileSystem) (start : Position CString) : Prop :=
  ∀ name parent, name :: parent <:+ start →
    ∀ link ∈ (fs'.order parent).takeWhile (· ≠ name), link ≠ dot → link ≠ dotDot →
      fs.tree.at? (link :: parent) = none →
      ∃ found, fs'.find true parent link = .ok found ∧ found.1 ≠ name :: parent

/-- A directory is sighted under its own name exactly if all entries before it are
passed by. -/
theorem sighted_name_iff {name : CString} {parent : Position CString}
    (located : fs.tree.at? (name :: parent) = some (.dir info entries)) :
    fs.sighted name parent = some name ↔
      ∀ entry ∈ (fs.order parent).takeWhile (· ≠ name), fs.passesBy name parent entry = true := by
  obtain ⟨member, valid⟩ := mem_order located
  obtain ⟨parentInfo, parentEntries, parentAt⟩ := FileSystem.tail_isDir located
  rw [List.tail_cons] at parentAt
  have finds := FileSystem.find_name true parentAt valid located rfl
  have stops : fs.passesBy name parent name = false := by
    simp only [FileSystem.passesBy, finds, valid.notDot, valid.notDotDot, decide_false,
      Bool.false_or, ne_eq, not_true_eq_false]
  have leads : (fs.find true parent name).toOption.isSome = true := by rw [finds]; rfl
  have first : fs.sighted name parent = some name ↔
      (fs.order parent).find? (fun entry => !fs.passesBy name parent entry) = some name := by
    rw [FileSystem.sighted, Option.filter_eq_some_iff, and_iff_left leads]
  rw [first, find?_eq_iff_takeWhile member (by rw [stops]; rfl)]
  simp only [Bool.not_eq_false']

/-- On a tree without links the searches stay alike exactly if every added link before
the entry that is looked for leads elsewhere. -/
theorem searchesAlike_iff_of_noLinks (noLinks : fs.NoLinks) (adds : fs.AddsLinks fs' start)
    (located : fs.tree.at? start = some (.dir info entries)) :
    SearchesAlike fs fs' start ↔ LinksPassedBy fs fs' start := by
  have ownName {name : CString} {parent : Position CString} (suffix : name :: parent <:+ start) :
      fs.sighted name parent = some name := by
    obtain ⟨info, entries, sonAt⟩ := at?_of_suffix located suffix
    exact sighted_name noLinks sonAt
  have clear : ¬ Obstructed fs start := by
    rintro ⟨name, parent, suffix, fails⟩
    rw [ownName suffix] at fails
    cases fails
  rw [SearchesAlike, or_iff_right fun both => clear both.1, and_iff_right clear]
  refine forall₃_congr fun name parent suffix => ?_
  obtain ⟨sonInfo, sonEntries, sonAt⟩ := at?_of_suffix located suffix
  obtain ⟨sonEntries', sonAt'⟩ := adds.dir sonAt
  obtain ⟨parentInfo, parentEntries, parentAt⟩ := FileSystem.tail_isDir sonAt
  rw [List.tail_cons] at parentAt
  obtain ⟨parentEntries', parentAt'⟩ := adds.dir parentAt
  rw [ownName suffix, sighted_name_iff sonAt']
  constructor
  · intro passed link before notDot notDotDot _
    have passes := passed link before
    rw [FileSystem.passesBy, decide_eq_false notDot, decide_eq_false notDotDot, Bool.or_self,
      Bool.false_or] at passes
    cases looked : fs'.find true parent link with
    | error errno => rw [looked] at passes; cases passes
    | ok found =>
        rw [looked] at passes
        exact ⟨found, rfl, of_decide_eq_true passes⟩
  · intro passed entry before
    by_cases dots : entry = dot ∨ entry = dotDot
    · rcases dots with rfl | rfl <;> rfl
    · obtain ⟨notDot, notDotDot⟩ := not_or.mp dots
      have elsewhere : ∃ found, fs'.find true parent entry = .ok found ∧
          found.1 ≠ name :: parent := by
        cases old : fs.tree.at? (entry :: parent) with
        | none => exact passed entry before notDot notDotDot old
        | some file =>
            -- an entry of the tree without links leads to itself
            obtain ⟨_, valid⟩ := mem_order old
            obtain ⟨file', fileAt', _, sameTarget⟩ := adds.kept _ _ old
            refine ⟨_, FileSystem.find_name true parentAt' valid fileAt'
              (sameTarget.trans (noLinks _ _ old)), fun same => ?_⟩
            have different : entry ≠ name := by
              simpa using List.mem_takeWhile_imp before
            exact different (List.cons.inj same).1
      obtain ⟨found, looked, different⟩ := elsewhere
      rw [FileSystem.passesBy, looked]
      simp only [ne_eq, different, not_false_eq_true, decide_true, Bool.or_true]

end LinkFree

/-- For every tree, links included, every starting directory and all links added to
the directories above it: on each tree `my_getcwd` builds its answer of the names
found; success and path are the same on both exactly if the searches for the
directories on the way to the root end alike. If the tree has no links of its own,
this says that every added link before the entry looked for leads elsewhere. -/
theorem myGetcwd_links_iff (fs fs' : FileSystem) (leftover leftover' : Stat)
    (start : Position CString) (info : Inode) (entries : List (CString × Tree))
    (located : fs.tree.at? start = some (.dir info entries)) (adds : fs.AddsLinks fs' start)
    (own : fs'.OwnInodes) (process : Process) (standing : process.cwd = start) :
    ∃ found found' : Option (List CString),
      (∃ bound, ∀ fuel, bound ≤ fuel → ∀ cwdbuf size,
        (myGetcwd (treeKernel fs leftover) fuel cwdbuf size process).map Prod.fst =
            answer found cwdbuf size ∧
          (myGetcwd (treeKernel fs' leftover') fuel cwdbuf size process).map Prod.fst =
            answer found' cwdbuf size) ∧
      (found'.map absolutePath = found.map absolutePath ↔ SearchesAlike fs fs' start) ∧
      (fs.NoLinks → (SearchesAlike fs fs' start ↔ LinksPassedBy fs fs' start)) := by
  obtain ⟨entries', located'⟩ := adds.dir located
  obtain ⟨bound, answers⟩ :=
    myGetcwd_answers leftover (adds.ownInodes own) located process standing
  obtain ⟨bound', answers'⟩ := myGetcwd_answers leftover' own located' process standing
  refine ⟨fs.sightings start, fs'.sightings start, ⟨max bound bound', ?_⟩, ?_, ?_⟩
  · intro fuel enough cwdbuf size
    exact ⟨answers fuel (by omega) cwdbuf size, answers' fuel (by omega) cwdbuf size⟩
  · rw [map_absolutePath_iff located located', searchesAlike_iff]
  · exact fun noLinks => searchesAlike_iff_of_noLinks noLinks adds located

/-- The tree `nested` with a link `x` in the root, before the directory `a`. -/
def crossedTree (target : CString) : Tree :=
  .dir ⟨1, 1⟩ [([120], .leaf ⟨⟨1, 4⟩, some target⟩),
    ([97], .dir ⟨1, 2⟩ [([98], .dir ⟨1, 3⟩ [])])]

def crossed (target : CString) : FileSystem :=
  FileSystem.ofTree (crossedTree target) trivial rfl

theorem crossed_adds (target : CString) :
    nested.AddsLinks (crossed target) [[98], [97]] where
  kept := by
    intro position file located
    have listed : ∀ old ∈ nestedTree.preorder [], ∃ file',
        (crossedTree target).at? old.1 = some file' ∧ statOf file' = statOf old.2 ∧
          targetOf file' = targetOf old.2 := by
      simp [nestedTree, crossedTree, FileTree.preorder, FileTree.preorderEntries, FileTree.at?_cons,
        FileTree.child?, statOf, targetOf]
    exact listed _ (FileTree.mem_preorder located)
  added := by
    intro name position file located absent
    have listed : ∀ new ∈ (crossedTree target).preorder [],
        (nestedTree.at? new.1).isSome ∨ (targetOf new.2).isSome ∧ new.1 = [[120]] := by
      simp [nestedTree, crossedTree, FileTree.preorder, FileTree.preorderEntries, FileTree.at?_cons,
        FileTree.child?, targetOf]
    rcases listed _ (FileTree.mem_preorder located) with old | ⟨isLink, here⟩
    · have gone : nestedTree.at? (name :: position) = none := absent
      rw [gone] at old
      cases old
    · cases here
      exact ⟨isLink, [97], by simp⟩
  order := by
    intro position info entries located
    have listed : ∀ old ∈ nestedTree.preorder [],
        ((crossed target).order old.1).filter (fun name =>
          name = dot ∨ name = dotDot ∨ (nestedTree.at? (name :: old.1)).isSome) =
            nested.order old.1 := by
      simp [nested, crossed, FileSystem.ofTree, nestedTree, crossedTree, FileTree.preorder,
        FileTree.preorderEntries, FileTree.at?_cons, FileTree.child?, FileTree.names, dot, dotDot]
    exact listed _ (FileTree.mem_preorder located)

theorem crossed_ownInodes (target : CString) : (crossed target).OwnInodes := by
  intro first second info entries file firstAt secondAt same
  have apart : ∀ one ∈ (crossedTree target).preorder [], ∀ other ∈ (crossedTree target).preorder [],
      inodeOf one.2 = inodeOf other.2 → one.1 = other.1 := by
    simp [crossedTree, FileTree.preorder, FileTree.preorderEntries, inodeOf]
  exact apart _ (FileTree.mem_preorder secondAt) _ (FileTree.mem_preorder firstAt) same

/-- A link to `/a/b` before the directory `a` is passed by. -/
theorem myGetcwd_links_iff_nested :
    ∃ found found' : Option (List CString),
      (∃ bound, ∀ fuel, bound ≤ fuel → ∀ cwdbuf size,
        (myGetcwd (treeKernel nested ⟨⟨0, 0⟩, .other⟩) fuel cwdbuf size
            ⟨[[98], [97]], [], 0⟩).map Prod.fst = answer found cwdbuf size ∧
          (myGetcwd (treeKernel (crossed [47, 97, 47, 98]) ⟨⟨0, 0⟩, .other⟩) fuel cwdbuf size
            ⟨[[98], [97]], [], 0⟩).map Prod.fst = answer found' cwdbuf size) ∧
      found'.map absolutePath = found.map absolutePath := by
  have passed : LinksPassedBy nested (crossed [47, 97, 47, 98]) [[98], [97]] := by
    intro name parent suffix link before notDot notDotDot absent
    rcases List.suffix_cons_iff.mp suffix with same | suffix
    · cases same
      have isDots : link = dot ∨ link = dotDot := by
        have listed : link ∈ [dot, dotDot] := before
        simpa using listed
      exact absurd isDots (by simp [notDot, notDotDot])
    · rcases List.suffix_cons_iff.mp suffix with same | suffix
      · cases same
        have isLink : link = [120] := by
          have listed : link ∈ [dot, dotDot, [120]] := before
          simpa [notDot, notDotDot] using listed
        subst isLink
        exact ⟨([[98], [97]], .dir ⟨1, 3⟩ []), rfl, by decide⟩
      · simp at suffix
  obtain ⟨found, found', answers, same, linkFree⟩ := myGetcwd_links_iff nested
    (crossed [47, 97, 47, 98]) ⟨⟨0, 0⟩, .other⟩ ⟨⟨0, 0⟩, .other⟩ [[98], [97]] ⟨1, 3⟩ [] rfl
    (crossed_adds _) (crossed_ownInodes _) ⟨[[98], [97]], [], 0⟩ rfl
  exact ⟨found, found', answers, same.mpr ((linkFree nested_noLinks).mpr passed)⟩

/-- A dangling link before the directory `a`: `/a/b` is no longer found. -/
theorem myGetcwd_dangling_link :
    (myGetcwd (treeKernel nested ⟨⟨0, 0⟩, .other⟩) 9 (List.replicate 8 9) 8
        ⟨[[98], [97]], [], 0⟩).map Prod.fst = .ok (some [47, 97, 47, 98, 0, 9, 9, 9]) ∧
      nested.AddsLinks (crossed [121]) [[98], [97]] ∧
      (myGetcwd (treeKernel (crossed [121]) ⟨⟨0, 0⟩, .other⟩) 9 (List.replicate 8 9) 8
        ⟨[[98], [97]], [], 0⟩).map Prod.fst = .ok none :=
  ⟨by decide +kernel, crossed_adds [121], by decide +kernel⟩

end LinuxProgramming.Files
