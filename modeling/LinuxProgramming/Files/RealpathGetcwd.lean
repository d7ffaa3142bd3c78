import LinuxProgramming.Files.RealpathBounds
import LinuxProgramming.Files.GetcwdLinks

/-!
Contract: `my_realpath` on its own results, and beside `my_getcwd`.

Owns:
- the run of `my_realpath` on the text of a file, which passes no link;
- a second run on what a first one returned;
- the two ways of a program to the name of a directory: `my_realpath`, or `chdir`
  and `my_getcwd`.

Does not own: which pathnames the first run takes.
-/

namespace LinuxProgramming.Files

open LinuxProgramming.Library

/-! ### The text of a file -/

/-- The text of a position as the buffer holds it. -/
def bufferText (lead : CString) (position : Position CString) : CString :=
  if pathText lead position = [] then [slash] else pathText lead position

section Text

variable {fs : FileSystem} {lead : CString} {position : Position CString} {found : Tree}

theorem canonical_eq_bufferText (position : Position CString) :
    canonical position = bufferText [] position := by
  rw [canonical_eq, bufferText]
  by_cases atRoot : position = []
  · rw [atRoot]
    rfl
  · rw [if_neg atRoot, if_neg (pathText_ne_nil atRoot)]

theorem head_bufferText (isLead : IsLead lead) (position : Position CString) :
    (bufferText lead position).head? = some slash := by
  rw [bufferText]
  split
  case isTrue => rfl
  case isFalse notEmpty => exact head_pathText isLead position notEmpty

theorem pieces_bufferText (isLead : IsLead lead) (located : fs.tree.at? position = some found) :
    Pathname.pieces slash (bufferText lead position) = position.reverse := by
  have plain := plain_of_located located
  rw [bufferText]
  split
  case isTrue empty =>
    have atRoot : position = [] := by
      by_contra below
      exact pathText_ne_nil below empty
    rw [atRoot]
    rfl
  case isFalse => exact pieces_pathText isLead plain

theorem bufferText_noTerminator (isLead : IsLead lead)
    (located : fs.tree.at? position = some found) : (0 : UInt8) ∉ bufferText lead position := by
  rw [bufferText]
  split
  case isTrue => decide
  case isFalse =>
    exact pathText_noTerminator isLead fun name member =>
      (FileSystem.validName_of_mem located name member).noTerminator

/-- The texts of a position are its canonical pathname, and below the root that with one
slash more. -/
theorem bufferText_cases (isLead : IsLead lead) :
    bufferText lead position = canonical position ∨
      bufferText lead position = slash :: canonical position := by
  rw [canonical_eq_bufferText]
  rcases isLead with rfl | rfl
  · exact .inl rfl
  · by_cases atRoot : position = []
    · rw [atRoot]
      exact .inl rfl
    · right
      rw [bufferText, bufferText, if_neg (pathText_ne_nil atRoot), if_neg (pathText_ne_nil atRoot)]
      rfl

/-- A text is the canonical pathname exactly if its form is canonical. -/
theorem bufferText_canonical_iff (isLead : IsLead lead)
    (located : fs.tree.at? position = some found) :
    bufferText lead position = canonical position ↔ CanonicalForm (bufferText lead position) := by
  have valid := FileSystem.validName_of_mem located
  rw [bufferText, canonicalForm_iff isLead valid, ← bufferText]
  constructor
  · intro same
    have form : CanonicalForm (bufferText lead position) := by
      rw [same, canonical_eq_bufferText, bufferText]
      exact (canonicalForm_iff (.inl rfl) valid).mpr (.inr (by decide))
    exact (canonicalForm_iff isLead valid).mp form
  · rintro (atRoot | notSlash)
    · rw [atRoot]
      rcases isLead with rfl | rfl <;> rfl
    · rw [isLead.resolve_right notSlash, canonical_eq_bufferText]

end Text

/-! ### The run on the text of a file -/

section Straight

variable {fs : FileSystem} {leftover : Stat} {process : Process} {buffer : List UInt8}
  {lrp_p : Nat} {above : Position CString} {name : CString} {names : List CString} {found : Tree}

/-- The way down to a file leads through directories. -/
theorem exists_on_the_way (located : fs.tree.at? (names.reverse ++ name :: above) = some found) :
    (∃ info entries, fs.tree.at? above = some (.dir info entries)) ∧
      ∃ next, fs.tree.at? (name :: above) = some next ∧ (names ≠ [] → next.IsDir) ∧
        (targetOf found = none → targetOf next = none) := by
  by_cases last : names = []
  · subst last
    rw [List.reverse_nil, List.nil_append] at located
    exact ⟨FileSystem.tail_isDir located, found, located, fun more => absurd rfl more, id⟩
  · have below : names.reverse ≠ [] := fun empty => last (List.reverse_eq_nil_iff.mp empty)
    obtain ⟨lowest, others, isCons⟩ := List.exists_cons_of_ne_nil below
    rw [isCons, List.cons_append] at located
    obtain ⟨info, entries, parentAt⟩ := FileSystem.tail_isDir located
    rw [List.tail_cons] at parentAt
    obtain ⟨nextInfo, nextEntries, nextAt⟩ :=
      at?_of_suffix parentAt (List.suffix_append others (name :: above))
    exact ⟨FileSystem.tail_isDir nextAt, _, nextAt, fun _ => trivial, fun _ => rfl⟩

/-- A name on the way is taken as it stands. -/
theorem resolveComponent_straight (targets : fs.ValidTargets)
    (located : fs.tree.at? (names.reverse ++ name :: above) = some found)
    (noLink : targetOf found = none)
    (fits : (pathText [] (names.reverse ++ name :: above)).length < PATH_MAX)
    (ready : Ready buffer lrp_p [] above (name :: names)) :
    ∃ buffer' lrp_p', resolveComponent (treeKernel fs leftover) buffer lrp_p name names process =
        .ok (.next ⟨buffer', lrp_p', names⟩, process) ∧
      Ready buffer' lrp_p' [] (name :: above) names := by
  obtain ⟨⟨info, entries, aboveAt⟩, next, nextAt, isDir, plain⟩ := exists_on_the_way located
  have valid := FileSystem.validName_of_mem nextAt name List.mem_cons_self
  have component : Component name :=
    ⟨valid.notEmpty, valid.noSlash, valid.noTerminator, valid.fits⟩
  have ok : PlaceOk fs ⟨[], above, name :: names⟩ := by
    constructor
    · rintro _ _ ⟨⟩ _ _
      rw [length_pathText] at fits ⊢
      rw [pathLength, List.map_append, List.sum_append] at fits
      rw [pathLength]
      dsimp only at fits ⊢
      omega
    · rintro _ _ _ target ⟨⟩ isNext isLink
      rw [nextAt] at isNext
      cases isNext
      rw [plain noLink] at isLink
      cases isLink
  have advances : fs.advance [] above name names = .ok ⟨[], name :: above, names⟩ := by
    rw [FileSystem.advance_plain [] names aboveAt valid.notDot valid.notDotDot nextAt
      (plain noLink), if_neg fun blocked => blocked.2 (isDir blocked.1)]
  have stepped := resolveComponent_spec leftover process targets aboveAt component ready ok
  rw [advances] at stepped
  exact stepped

variable (leftover process) in
/-- The run lemma. The induction is on the names that are left. -/
theorem resolveComponents_straight (targets : fs.ValidTargets)
    (located : fs.tree.at? (names.reverse ++ above) = some found)
    (noLink : targetOf found = none)
    (fits : (pathText [] (names.reverse ++ above)).length < PATH_MAX)
    (ready : Ready buffer lrp_p [] above names) {fuel : Nat} (enough : names.length ≤ fuel) :
    ∃ buffer', resolveComponents (treeKernel fs leftover) fuel ⟨buffer, lrp_p, names⟩ process =
        .ok (.ok buffer', process) ∧
      CBuffer.string 0 buffer' = canonical (names.reverse ++ above) := by
  induction names generalizing buffer lrp_p above fuel with
  | nil =>
      rw [List.reverse_nil, List.nil_append] at located ⊢
      refine ⟨buffer, ?_, ?_⟩
      · rw [resolveComponents_nil]
        rfl
      · obtain ⟨isLead, starts⟩ := ready.at_end rfl
        rw [canonical_eq_bufferText]
        exact CBuffer.string_eq (bufferText_noTerminator isLead located) starts
  | cons name names inductionHypothesis =>
      rw [List.reverse_cons, List.append_assoc, List.singleton_append] at located fits ⊢
      obtain ⟨buffer', lrp_p', stepped, ready'⟩ :=
        resolveComponent_straight targets located noLink fits ready
      obtain ⟨fuel, rfl⟩ : ∃ less, fuel = less + 1 :=
        Nat.exists_eq_succ_of_ne_zero (Nat.ne_of_gt (Nat.lt_of_lt_of_le (Nat.succ_pos _) enough))
      rw [resolveComponents_next stepped]
      exact inductionHypothesis located fits ready' (Nat.le_of_succ_le_succ enough)

variable (leftover) in
/-- On a text of a file that is no link, the function returns the canonical pathname,
wherever it is called. -/
theorem myRealpath_bufferText (targets : fs.ValidTargets) {position : Position CString}
    (located : fs.tree.at? position = some found) (noLink : targetOf found = none)
    {lead : CString} (isLead : IsLead lead) (room : (pathText lead position).length < PATH_MAX)
    {here : Tree} (cwdAt : fs.tree.at? process.cwd = some here)
    {resolved_path allocated : Option (List UInt8)}
    (given : resolved_path.or allocated = some buffer) (size : buffer.length = PATH_MAX)
    {fuel : Nat} (enough : position.length ≤ fuel) :
    ∃ buffer', myRealpath (treeKernel fs leftover) fuel (some (bufferText lead position))
        resolved_path allocated process = .ok (.ok buffer', process) ∧
      CBuffer.string 0 buffer' = canonical position := by
  have absolute := head_bufferText isLead position
  have pieces := pieces_bufferText isLead located
  have short : (bufferText lead position).length ≤ PATH_MAX := by
    rw [bufferText]
    split
    · decide
    · exact room.le
  have components : ∀ piece ∈ Pathname.pieces slash (bufferText lead position),
      piece.length ≤ NAME_MAX := by
    intro piece member
    rw [pieces, List.mem_reverse] at member
    exact (FileSystem.validName_of_mem located piece member).fits
  have start : startPlace process.cwd (bufferText lead position) =
      ⟨[], [], Pathname.pieces slash (bufferText lead position)⟩ := if_pos absolute
  obtain ⟨started, lrp_p, starts, standing⟩ := startPath_spec leftover size
    (fun relative => absurd absolute relative) cwdAt
  rw [start] at standing
  obtain ⟨list, parsed, nodes, _⟩ := getPartPath_eq components
  rw [myRealpath_started short given starts parsed, nodes, pieces]
  have fits : (pathText [] position).length < PATH_MAX := by
    rw [length_pathText] at room ⊢
    rw [List.length_nil]
    omega
  have whole : position.reverse.reverse ++ [] = position := by
    rw [List.reverse_reverse, List.append_nil]
  have runs := resolveComponents_straight leftover process targets
    (whole.symm ▸ located) noLink (whole.symm ▸ fits) (.standing standing)
    (List.length_reverse.trans_le enough)
  rwa [whole] at runs

end Straight

/-- In every tree, links or not, for every pathname whose resolution `my_realpath` keeps
up with: called on the string it returned, from anywhere in the tree, the function returns
the canonical pathname of the file. It is the same string exactly if the first one was in
canonical form, and otherwise the first one had one slash more. -/
theorem myRealpath_again (fs : FileSystem) (leftover : Stat) (targets : fs.ValidTargets)
    (process : Process) (info : Inode) (entries : List (CString × Tree))
    (cwdAt : fs.tree.at? process.cwd = some (.dir info entries)) (pathname : CString)
    (terminated : (0 : UInt8) ∉ pathname) (short : pathname.length ≤ PATH_MAX)
    (components : ∀ piece ∈ Pathname.pieces slash pathname, piece.length ≤ NAME_MAX)
    (cwdFits : pathname.head? ≠ some slash → (canonical process.cwd).length < PATH_MAX)
    (position : Position CString)
    (resolves : fs.Resolves (startPlace process.cwd pathname) (.ok position))
    (ok : ∀ place, (fs.resolution (startPlace process.cwd pathname)).Reachable place →
      PlaceOk fs place)
    (resolved_path allocated : Option (List UInt8)) (buffer : List UInt8)
    (given : resolved_path.or allocated = some buffer) (size : buffer.length = PATH_MAX) :
    ∃ bound, ∀ fuel, bound ≤ fuel → ∃ first,
      myRealpath (treeKernel fs leftover) fuel (some pathname) resolved_path allocated process =
        .ok (.ok first, process) ∧
      ∀ elsewhere here, fs.tree.at? elsewhere.cwd = some here → ∃ second,
        myRealpath (treeKernel fs leftover) fuel (some (CBuffer.string 0 first)) resolved_path
            allocated elsewhere = .ok (.ok second, elsewhere) ∧
          CBuffer.string 0 second = canonical position ∧
          (CBuffer.string 0 first = CBuffer.string 0 second ↔
            CanonicalForm (CBuffer.string 0 first)) ∧
          (CBuffer.string 0 first = CBuffer.string 0 second ∨
            CBuffer.string 0 first = slash :: CBuffer.string 0 second) := by
  obtain ⟨bound, runs⟩ := myRealpath_spec leftover targets process cwdAt terminated short
    components cwdFits given size resolves ok
  refine ⟨max bound position.length, fun fuel enough => ?_⟩
  obtain ⟨first, found, ran, ⟨lead, isLead, string, room⟩, located, noLink⟩ :=
    runs fuel (le_of_max_le_left enough)
  refine ⟨first, ran, fun elsewhere here elsewhereAt => ?_⟩
  have isText : CBuffer.string 0 first = bufferText lead position := string
  rw [isText]
  obtain ⟨second, again, isCanonical⟩ := myRealpath_bufferText leftover targets
    located noLink isLead room elsewhereAt given size (le_of_max_le_right enough)
  refine ⟨second, again, isCanonical, ?_, ?_⟩
  · rw [isCanonical]
    exact bufferText_canonical_iff isLead located
  · rw [isCanonical]
    exact bufferText_cases isLead

theorem linked_resolves :
    linked.Resolves (startPlace [] shortLink) (.ok [[102], [100]]) := by
  have resolved : linked.resolve true 1 [] (Pathname.pieces slash shortLink) =
      .ok [[102], [100]] := rfl
  exact FileSystem.resolves_of_resolve linked_validTargets 1 _ _ _ _ resolved nofun

theorem myRealpath_again_linked :
    ∃ bound, ∀ fuel, bound ≤ fuel → ∃ first second,
      myRealpath (treeKernel linked ⟨⟨0, 0⟩, .other⟩) fuel (some shortLink)
        (some (List.replicate PATH_MAX 0)) none ⟨[], [], 0⟩ = .ok (.ok first, ⟨[], [], 0⟩) ∧
      myRealpath (treeKernel linked ⟨⟨0, 0⟩, .other⟩) fuel (some (CBuffer.string 0 first))
        (some (List.replicate PATH_MAX 0)) none ⟨[[100]], [], 0⟩ =
          .ok (.ok second, ⟨[[100]], [], 0⟩) ∧
      CBuffer.string 0 second = [47, 100, 47, 102] := by
  obtain ⟨bound, runs⟩ := myRealpath_again linked ⟨⟨0, 0⟩, .other⟩ linked_validTargets
    ⟨[], [], 0⟩ _ _ rfl shortLink (by decide) (by decide) (by decide) (by decide) _
    linked_resolves linked_ok (some (List.replicate PATH_MAX 0)) none _ rfl List.length_replicate
  refine ⟨bound, fun fuel enough => ?_⟩
  obtain ⟨first, ran, again⟩ := runs fuel enough
  obtain ⟨second, ran', isCanonical, _⟩ := again ⟨[[100]], [], 0⟩ _ rfl
  exact ⟨first, second, ran, ran', isCanonical⟩

/-! ### Two ways to the name of a directory -/

/-- The string-building loop from the start of the buffer. -/
theorem buildPath_start_iff {W : Type} (world : W) {name : CString} {rest : List CString}
    {size : Nat} {cwdbuf : List UInt8}
    (usable : ∀ other ∈ name :: rest, other ≠ [] ∧ other.length ≤ NAME_MAX)
    (long : cwdbuf.length = size) :
    Builds (componentText (name :: rest)) size world
        (buildPath size (name :: rest) 0 cwdbuf world) ↔
      Suits size (componentText (name :: rest)).length 0 (name :: rest) := by
  obtain ⟨⟨notEmpty, short⟩, usable⟩ := List.forall_mem_cons.mp usable
  have text : componentText (name :: rest) = [] ++ slash :: name ++ componentText rest := rfl
  rw [text]
  refine buildPath_component [] List.nil_prefix long (by decide) notEmpty short
    (List.prefix_append _ _) fun _ written heldName writtenLong => ?_
  have inRange : (slash :: name).length ≤ CInt.INT_MAX + (NAME_MAX + 1) := by
    have longest : NAME_MAX = 255 := rfl
    have limit : CInt.INT_MAX = 2147483647 := rfl
    rw [List.length_cons]
    omega
  have next := buildPath_builds_iff world usable heldName writtenLong inRange
  simpa using next

section Getcwd

variable {fs : FileSystem} {start : Position CString}

theorem componentText_reverse (below : start ≠ []) :
    componentText start.reverse = canonical start := by
  rw [canonical, if_neg below]
  rfl

theorem componentText_prefix {initial names : List CString} (begins : initial <+: names) :
    (componentText initial).length ≤ (componentText names).length := by
  obtain ⟨later, rfl⟩ := begins
  rw [componentText, componentText, List.flatMap_append, List.length_append]
  exact Nat.le_add_right _ _

/-- In a buffer that has room for it, `my_getcwd` writes the canonical pathname of a
directory below the root. -/
theorem myGetcwd_canonical (leftover : Stat) (noLinks : fs.NoLinks) (own : fs.OwnInodes)
    {info : Inode} {entries : List (CString × Tree)}
    (located : fs.tree.at? start = some (.dir info entries)) (below : start ≠ [])
    (process : Process) (standing : process.cwd = start) :
    ∃ bound, ∀ fuel, bound ≤ fuel → ∀ cwdbuf, (canonical start).length < cwdbuf.length →
      cwdbuf.length ≤ CInt.INT_MAX → ∃ answered,
        (myGetcwd (treeKernel fs leftover) fuel cwdbuf cwdbuf.length process).map Prod.fst =
            .ok (some answered) ∧ CBuffer.string 0 answered = canonical start := by
  obtain ⟨bound, answers⟩ := myGetcwd_answers leftover own located process standing
  refine ⟨bound, fun fuel enough cwdbuf room small => ?_⟩
  have valid := FileSystem.validName_of_mem located
  have usable : ∀ other ∈ start.reverse, other ≠ [] ∧ other.length ≤ NAME_MAX := by
    intro other member
    have named := valid other (List.mem_reverse.mp member)
    exact ⟨named.notEmpty, named.fits⟩
  have suits : Suits cwdbuf.length (componentText start.reverse).length 0 start.reverse := by
    apply (suits_iff small (Nat.zero_lt_of_lt room)).mpr
    intro initial begins
    left
    have shorter := componentText_prefix begins
    rw [componentText_reverse below] at shorter
    omega
  have builds : Builds (canonical start) cwdbuf.length ()
      (buildPath cwdbuf.length start.reverse 0 cwdbuf ()) := by
    rw [← componentText_reverse below]
    obtain ⟨name, rest, isCons⟩ :=
      List.exists_cons_of_ne_nil (fun empty => below (List.reverse_eq_nil_iff.mp empty))
    rw [isCons] at usable suits ⊢
    exact (buildPath_start_iff () usable rfl).mpr suits
  rw [Builds, if_pos room] at builds
  obtain ⟨answered, built, held, _⟩ := builds
  refine ⟨answered, ?_, CBuffer.string_eq ?_ held⟩
  · rw [answers fuel enough, sightings_eq noLinks located, answer, built]
    rfl
  · rw [canonical_eq_bufferText]
    exact bufferText_noTerminator (.inl rfl) located

end Getcwd

section Agreement

variable {fs : FileSystem} {leftover : Stat} {process there : Process} {pathname : CString}

/-- Where a `chdir` that succeeds has gone. -/
theorem find_of_chdir (changed : (treeKernel fs leftover).chdir pathname process = (true, there)) :
    ∃ info entries, fs.find true process.cwd pathname = .ok (there.cwd, .dir info entries) := by
  simp only [treeKernel] at changed
  cases finds : fs.find true process.cwd pathname with
  | error errno =>
      rw [finds] at changed
      cases changed
  | ok found =>
      obtain ⟨position, file⟩ := found
      rw [finds] at changed
      dsimp only at changed
      cases file with
      | leaf content =>
          have notDir : ¬ (FileTree.leaf content : Tree).IsDir := id
          rw [if_neg notDir] at changed
          cases changed
      | dir info entries =>
          have isDir : (FileTree.dir info entries : Tree).IsDir := trivial
          rw [if_pos isDir] at changed
          cases changed
          exact ⟨info, entries, rfl⟩

/-- Without links, `chdir` goes where the walk along the components goes. -/
theorem walk_of_find (noLinks : fs.NoLinks) {position : Position CString} {found : Tree}
    (finds : fs.find true process.cwd pathname = .ok (position, found)) :
    FileSystem.Admissible pathname ∧ fs.walk (FileSystem.origin process.cwd pathname)
      (Pathname.pieces slash pathname) = .ok position := by
  have looked := (FileSystem.lookup_of_find finds).1
  have admissible := FileSystem.admissible_of_lookup looked
  exact ⟨admissible, FileSystem.lookup_eq_walk noLinks true process.cwd admissible ▸ looked⟩

/-- What `my_realpath` returned for a pathname that leads below the root is canonical
exactly if its walk does not start over. -/
theorem myRealpath_canonical_iff (noLinks : fs.NoLinks) {info : Inode}
    {entries : List (CString × Tree)}
    (cwdAt : fs.tree.at? process.cwd = some (.dir info entries))
    (terminated : (0 : UInt8) ∉ pathname) {position : Position CString} (below : position ≠ [])
    (walked : fs.walk (FileSystem.origin process.cwd pathname) (Pathname.pieces slash pathname) =
      .ok position)
    {resolved_path allocated : Option (List UInt8)} {buffer resolved : List UInt8}
    (given : resolved_path.or allocated = some buffer) (size : buffer.length = PATH_MAX)
    {fuel : Nat} {after : Process}
    (returned : myRealpath (treeKernel fs leftover) fuel (some pathname) resolved_path allocated
      process = .ok (.ok resolved, after)) :
    CBuffer.string 0 resolved = canonical position ↔ ¬ StartsOver fs process.cwd pathname := by
  obtain ⟨lead, reached, found, walked', located, isLead, slashIff, string⟩ :=
    myRealpath_holdsEnd noLinks cwdAt terminated given size fuel _ _ returned resolved rfl
  rw [startPlace_position, startPlace_pending] at walked' slashIff
  rw [walked, Except.ok.injEq] at walked'
  subst walked'
  have isText : CBuffer.string 0 resolved = bufferText lead position := string
  rw [isText, bufferText_canonical_iff isLead located, bufferText,
    canonicalForm_iff isLead (FileSystem.validName_of_mem located), or_iff_right below, Ne,
    slashIff, startPlace_lead]
  rfl

end Agreement

theorem nested_ownInodes : nested.OwnInodes := by
  have distinct : nested.DistinctInodes := by
    intro first second firstFile secondFile firstAt secondAt same
    have apart : ∀ one ∈ nestedTree.preorder [], ∀ other ∈ nestedTree.preorder [],
        inodeOf one.2 = inodeOf other.2 → one.1 = other.1 := by
      simp [nestedTree, FileTree.preorder, FileTree.preorderEntries, inodeOf]
    exact apart _ (FileTree.mem_preorder firstAt) _ (FileTree.mem_preorder secondAt) same
  exact distinct.ownInodes

end LinuxProgramming.Files
