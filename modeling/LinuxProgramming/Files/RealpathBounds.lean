import LinuxProgramming.Files.RealpathForm

/-!
Contract: when `my_realpath` writes behind the end of its buffer.

Owns:
- `NamesFit`, what every name of a pathname has to fit behind;
- the writes of an iteration and of the whole loop on trees without links;
- `myRealpath` on trees without links, and an input behind which it writes.

Does not own: which file the pathname leads to.
-/

namespace LinuxProgramming.Files

open LinuxProgramming.Library

/-! ### What has to fit -/

/-- The bytes of the names of a position, each behind a slash. -/
def pathLength (position : Position CString) : Nat :=
  (position.map fun name => name.length + 1).sum

theorem length_pathText (lead : CString) (position : Position CString) :
    (pathText lead position).length = lead.length + pathLength position := by
  induction position with
  | nil =>
      rw [pathText_nil]
      rfl
  | cons name parent inductionHypothesis =>
      rw [pathText_cons, List.length_append, List.length_cons, inductionHypothesis, pathLength,
        pathLength, List.map_cons, List.sum_cons]
      omega

/-- A position whose names fit into the buffer with their terminator, and if `slashed`
then behind one slash more. -/
def TextFits (slashed : Prop) (position : Position CString) : Prop :=
  pathLength position < PATH_MAX ∧ (slashed → pathLength position + 1 < PATH_MAX)

theorem textFits_iff {lead : CString} (isLead : IsLead lead) (position : Position CString) :
    TextFits (lead = [slash]) position ↔ (pathText lead position).length < PATH_MAX := by
  rw [length_pathText, TextFits]
  rcases isLead with rfl | rfl
  · rw [List.length_nil, Nat.zero_add]
    exact and_iff_left fun slashed => absurd slashed (by decide)
  · rw [List.length_singleton, Nat.add_comm 1]
    exact ⟨fun fits => fits.2 rfl, fun fits => ⟨Nat.lt_of_succ_lt fits, fun _ => fits⟩⟩

/-- Every name that a walk looks up fits behind the directory it is looked up in. One
slash more stands in front from the start if `slashed`, or since the walk was back at
the root. -/
def NamesFitFrom (fs : FileSystem) (slashed : Prop) (position : Position CString)
    (names : List CString) : Prop :=
  ∀ before name after directory info entries, names = before ++ name :: after →
    name ≠ dot → name ≠ dotDot → fs.walk position before = .ok directory →
    fs.tree.at? directory = some (.dir info entries) →
    TextFits (slashed ∨ ReturnsToRoot fs position before) (name :: directory)

section Walks

variable {fs : FileSystem} {slashed : Prop} {position next : Position CString} {name : CString}
  {rest : List CString}

theorem namesFitFrom_nil : NamesFitFrom fs slashed position [] := by
  intro before name after directory info entries isNil
  simp at isNil

/-- Nothing is looked up in a file. -/
theorem namesFitFrom_leaf {content : Leaf} (located : fs.tree.at? position = some (.leaf content)) :
    NamesFitFrom fs slashed position rest := by
  intro before name after directory info entries _ _ _ walked isDir
  cases before with
  | nil =>
      cases walked
      rw [located] at isDir
      cases isDir
  | cons first before =>
      rw [FileSystem.walk_cons, FileSystem.step, located] at walked
      cases walked

/-- What the first name needs, and the names behind it. -/
theorem namesFitFrom_cons {info : Inode} {entries : List (CString × Tree)}
    (located : fs.tree.at? position = some (.dir info entries)) :
    NamesFitFrom fs slashed position (name :: rest) ↔
      (name ≠ dot → name ≠ dotDot → TextFits slashed (name :: position)) ∧
        ∀ next, fs.step position name = .ok next →
          NamesFitFrom fs (slashed ∨ name = dotDot ∧ next = []) next rest := by
  constructor
  · refine fun fit => ⟨fun notDot notDotDot => ?_, fun next stepped => ?_⟩
    · have here := fit [] name rest position info entries rfl notDot notDotDot rfl located
      rwa [or_iff_left not_returnsToRoot_nil] at here
    · rintro before other after directory info' entries' rfl notDot notDotDot walked isDir
      have walked' : fs.walk position (name :: before) = .ok directory := by
        rw [FileSystem.walk_cons, stepped]
        exact walked
      have there := fit (name :: before) other after directory info' entries' rfl notDot notDotDot
        walked' isDir
      rwa [returnsToRoot_cons stepped, ← or_assoc] at there
  · rintro ⟨here, there⟩ before other after directory info' entries' isNames notDot notDotDot
      walked isDir
    cases before with
    | nil =>
        obtain ⟨rfl, rfl⟩ := List.cons.inj isNames
        cases walked
        rw [or_iff_left not_returnsToRoot_nil]
        exact here notDot notDotDot
    | cons first before =>
        obtain ⟨rfl, rfl⟩ := List.cons.inj isNames
        rw [FileSystem.walk_cons] at walked
        cases stepped : fs.step position name with
        | error errno =>
            rw [stepped] at walked
            cases walked
        | ok next =>
            rw [stepped] at walked
            rw [returnsToRoot_cons stepped, ← or_assoc]
            exact there next stepped before other after directory info' entries' rfl notDot
              notDotDot walked isDir

/-- Where resolution fails, a walk has arrived at a file or fails too. -/
theorem leaf_of_advance_error (noLinks : fs.NoLinks) {lead : CString} {errno : Errno}
    (advances : fs.advance lead position name rest = .error errno)
    (stepped : fs.step position name = .ok next) :
    ∃ content, fs.tree.at? next = some (.leaf content) := by
  rw [FileSystem.advance] at advances
  rw [FileSystem.step] at stepped
  cases located : fs.tree.at? position with
  | none =>
      rw [located] at stepped
      cases stepped
  | some tree =>
      rw [located] at advances stepped
      cases tree with
      | leaf content => cases stepped
      | dir info entries =>
          dsimp only at advances stepped
          by_cases isDot : name = dot
          · rw [if_pos isDot] at advances
            cases advances
          rw [if_neg isDot] at advances stepped
          by_cases isDotDot : name = dotDot
          · rw [if_pos isDotDot] at advances
            cases advances
          rw [if_neg isDotDot] at advances stepped
          cases foundAt : fs.tree.at? (name :: position) with
          | none =>
              rw [foundAt] at stepped
              cases stepped
          | some found =>
              rw [foundAt] at advances stepped
              dsimp only at advances
              rw [noLinks _ _ foundAt] at advances
              cases stepped
              cases found with
              | leaf content => exact ⟨content, foundAt⟩
              | dir info' entries' =>
                  dsimp only at advances
                  rw [if_neg fun blocked => blocked.2 trivial] at advances
                  cases advances

end Walks

/-! ### The writes of the loop -/

section Loop

variable {fs : FileSystem} {leftover : Stat} {process : Process} {buffer : List UInt8}
  {lrp_p : Nat} {lead : CString} {position : Position CString} {name : CString}
  {rest : List CString}

/-- A name that does not fit is written all the same. -/
theorem resolveComponent_overflows {W S : Type} (kernel : Kernel W S) (world : W)
    (notDot : name ≠ dot) (notDotDot : name ≠ dotDot)
    (ready : Ready buffer lrp_p lead position (name :: rest))
    (long : PATH_MAX ≤ (pathText lead (name :: position)).length) :
    resolveComponent kernel buffer lrp_p name rest world = .error .overflow := by
  obtain ⟨size, _, atCursor, _⟩ := ready.before_name (nextComponent_cons notDot rest) notDotDot
  rw [pathText_cons, List.length_append, List.length_cons, ← atCursor] at long
  rw [resolveComponent, if_neg notDotDot, if_neg notDot]
  cases isSlashed : CBuffer.write? buffer lrp_p [slash] with
  | none => exact put_bind_overflow isSlashed _ _
  | some slashed =>
      rw [put_bind isSlashed]
      cases isWritten : CBuffer.write? slashed (lrp_p + 1) (name ++ [0]) with
      | none => exact put_bind_overflow isWritten _ _
      | some buffer' =>
          have room := (CBuffer.of_write? isWritten).1
          rw [(CBuffer.of_write? isSlashed).2, size, List.length_append,
            List.length_singleton] at room
          omega

/-- What the first name needs, in a state of the loop. -/
theorem textFits_of_ready (ready : Ready buffer lrp_p lead position (name :: rest)) :
    (name ≠ dot → name ≠ dotDot → TextFits (lead = [slash]) (name :: position)) ↔
      (name ≠ dot → name ≠ dotDot → (pathText lead (name :: position)).length < PATH_MAX) := by
  refine forall_congr' fun notDot => forall_congr' fun notDotDot => ?_
  obtain ⟨_, isLead, _⟩ := ready.before_name (nextComponent_cons notDot rest) notDotDot
  exact textFits_iff isLead (name :: position)

/-- The step lemma: an iteration for a name that fits stays inside the buffer, and ends
the loop at a file or leads to where the walk does. -/
theorem resolveComponent_inside (noLinks : fs.NoLinks)
    (sound : Sound fs ⟨lead, position, name :: rest⟩)
    (ready : Ready buffer lrp_p lead position (name :: rest))
    (fits : name ≠ dot → name ≠ dotDot → (pathText lead (name :: position)).length < PATH_MAX) :
    (∃ errno, resolveComponent (treeKernel fs leftover) buffer lrp_p name rest process =
        .ok (.failed errno, process) ∧
      ∀ next, fs.step position name = .ok next →
        ∃ content, fs.tree.at? next = some (.leaf content)) ∨
    ∃ place, fs.step position name = .ok place.position ∧ place.pending = rest ∧
      (place.lead = [slash] ↔ lead = [slash] ∨ name = dotDot ∧ place.position = []) ∧
      Sound fs place ∧
      ArrivesAt (resolveComponent (treeKernel fs leftover) buffer lrp_p name rest process)
        process place := by
  have ok : PlaceOk fs ⟨lead, position, name :: rest⟩ := by
    apply noLinks.placeOk
    rintro _ _ ⟨⟩
    exact fits
  obtain ⟨info, entries, located⟩ := sound.dir
  have spec := resolveComponent_spec leftover process noLinks.validTargets located
    (sound.components name List.mem_cons_self) ready ok
  cases advances : fs.advance lead position name rest with
  | error errno =>
      rw [advances] at spec
      obtain ⟨errno', failed⟩ := spec
      exact .inl
        ⟨errno', failed, fun next stepped => leaf_of_advance_error noLinks advances stepped⟩
  | ok place =>
      rw [advances] at spec
      obtain ⟨stepped, samePending, _⟩ := advance_noLinks noLinks advances
      exact .inr ⟨place, stepped, samePending, lead_slash_iff noLinks advances,
        advance_sound noLinks.validTargets sound ok advances, spec⟩

variable (leftover process) in
/-- The run lemma: the loop stays inside the buffer exactly if every name fits that it
looks up. The induction is on the components, one of which each iteration takes. -/
theorem resolveComponents_inside_iff (noLinks : fs.NoLinks)
    (sound : Sound fs ⟨lead, position, rest⟩) (ready : Ready buffer lrp_p lead position rest) :
    (∀ fuel, resolveComponents (treeKernel fs leftover) fuel ⟨buffer, lrp_p, rest⟩ process ≠
        .error .overflow) ↔
      NamesFitFrom fs (lead = [slash]) position rest := by
  induction rest generalizing buffer lrp_p lead position with
  | nil =>
      refine iff_of_true (fun fuel => ?_) namesFitFrom_nil
      rw [resolveComponents_nil]
      exact fun stopped => by cases stopped
  | cons name rest inductionHypothesis =>
      obtain ⟨info, entries, located⟩ := sound.dir
      rw [namesFitFrom_cons located, textFits_of_ready ready]
      by_cases fits : name ≠ dot → name ≠ dotDot →
          (pathText lead (name :: position)).length < PATH_MAX
      · rw [and_iff_right fits]
        rcases resolveComponent_inside noLinks sound ready fits with
          ⟨errno, failed, atFile⟩ | ⟨place, stepped, rfl, slashed, sound', arrives⟩
        · -- the walk fails too, or has left the directories
          refine iff_of_true (fun fuel => ?_) fun next stepped => ?_
          · cases fuel with
            | zero => exact fun stopped => by cases stopped
            | succ fuel =>
                rw [resolveComponents_failed failed]
                exact fun stopped => by cases stopped
          · obtain ⟨content, isLeaf⟩ := atFile next stepped
            exact namesFitFrom_leaf isLeaf
        · obtain ⟨buffer', lrp_p', ran, ready'⟩ := arrives
          have onward := resolveComponents_next ran
          have rest_iff := inductionHypothesis sound' ready'
          rw [slashed] at rest_iff
          constructor
          · intro inside next stepped'
            rw [stepped] at stepped'
            cases stepped'
            refine rest_iff.mp fun fuel => ?_
            rw [← onward fuel]
            exact inside (fuel + 1)
          · intro fit fuel
            cases fuel with
            | zero => exact fun stopped => by cases stopped
            | succ fuel =>
                rw [onward fuel]
                exact rest_iff.mpr (fit place.position stepped) fuel
      · refine iff_of_false (fun inside => ?_) fun fit => fits fit.1
        obtain ⟨notDot, more⟩ := Classical.not_imp.mp fits
        obtain ⟨notDotDot, long⟩ := Classical.not_imp.mp more
        apply inside 1
        exact resolveComponents_stopped (resolveComponent_overflows (treeKernel fs leftover)
          process notDot notDotDot ready (Nat.not_lt.mp long)) 0

end Loop

/-! ### The function -/

/-- When a run stays inside the buffer. Either the working directory is too deep for
`getcwd`, so that nothing is resolved, or every component fits into its node and every
name that is looked up fits behind its directory. -/
def StaysInside (fs : FileSystem) (cwd : Position CString) (pathname : CString) : Prop :=
  (pathname.head? ≠ some slash ∧ PATH_MAX ≤ (canonical cwd).length) ∨
    ((∀ piece ∈ Pathname.pieces slash pathname, piece.length ≤ NAME_MAX) ∧
      NamesFitFrom fs (pathname.head? ≠ some slash ∧ cwd = []) (FileSystem.origin cwd pathname)
        (Pathname.pieces slash pathname))

section Function

variable {fs : FileSystem} {leftover : Stat} {process : Process} {pathname : CString}
  {resolved_path allocated : Option (List UInt8)} {buffer : List UInt8}

theorem myRealpath_noCwd (short : pathname.length ≤ PATH_MAX)
    (given : resolved_path.or allocated = some buffer) (size : buffer.length = PATH_MAX)
    (relative : pathname.head? ≠ some slash) (long : PATH_MAX ≤ (canonical process.cwd).length)
    (fuel : Nat) :
    myRealpath (treeKernel fs leftover) fuel (some pathname) resolved_path allocated process =
      .ok (.error none, process) := by
  rw [myRealpath, if_neg (Nat.not_lt.mpr short), given]
  dsimp only
  rw [bind_ok (startPath_refused size relative long)]
  rfl

theorem myRealpath_longComponent {W S : Type} {kernel : Kernel W S} {world world' : W}
    (short : pathname.length ≤ PATH_MAX) (given : resolved_path.or allocated = some buffer)
    {buffer' : List UInt8} {lrp_p : Nat}
    (started : startPath kernel pathname buffer world = .ok (some (buffer', lrp_p), world'))
    (long : ¬ ∀ piece ∈ Pathname.pieces slash pathname, piece.length ≤ NAME_MAX) (fuel : Nat) :
    myRealpath kernel fuel (some pathname) resolved_path allocated world = .error .overflow := by
  rw [myRealpath, if_neg (Nat.not_lt.mpr short), given]
  dsimp only
  rw [bind_ok started]
  dsimp only
  cases parsed : getPartPath (some pathname) with
  | none => rfl
  | some list => exact absurd (partPathFrom_fits parsed) long

end Function

/-- For every tree without links, every working directory and every pathname that the
length test accepts: a run writes inside the buffer exactly if the names fit. -/
theorem myRealpath_inside_iff (fs : FileSystem) (leftover : Stat) (noLinks : fs.NoLinks)
    (process : Process) (info : Inode) (entries : List (CString × Tree))
    (cwdAt : fs.tree.at? process.cwd = some (.dir info entries)) (pathname : CString)
    (terminated : (0 : UInt8) ∉ pathname) (short : pathname.length ≤ PATH_MAX)
    (resolved_path allocated : Option (List UInt8)) (buffer : List UInt8)
    (given : resolved_path.or allocated = some buffer) (size : buffer.length = PATH_MAX) :
    (∀ fuel, myRealpath (treeKernel fs leftover) fuel (some pathname) resolved_path allocated
        process ≠ .error .overflow) ↔
      StaysInside fs process.cwd pathname := by
  by_cases cwdFits : pathname.head? ≠ some slash → (canonical process.cwd).length < PATH_MAX
  · have notDeep : ¬ (pathname.head? ≠ some slash ∧ PATH_MAX ≤ (canonical process.cwd).length) :=
      fun deep => absurd (cwdFits deep.1) (Nat.not_lt.mpr deep.2)
    rw [StaysInside, or_iff_right notDeep]
    obtain ⟨buffer', lrp_p, started, standing⟩ := startPath_spec leftover size cwdFits cwdAt
    by_cases components : ∀ piece ∈ Pathname.pieces slash pathname, piece.length ≤ NAME_MAX
    · rw [and_iff_right components]
      obtain ⟨list, parsed, nodes, _⟩ := getPartPath_eq components
      have sound : Sound fs ⟨(startPlace process.cwd pathname).lead,
          (startPlace process.cwd pathname).position, (startPlace process.cwd pathname).pending⟩ :=
        sound_startPlace cwdAt terminated components
      have loop := resolveComponents_inside_iff leftover process noLinks sound (.standing standing)
      rw [startPlace_lead, startPlace_position, startPlace_pending] at loop
      rw [← loop]
      refine forall_congr' fun fuel => ?_
      rw [myRealpath_started short given started parsed, nodes]
    · refine iff_of_false (fun inside => ?_) fun stays => components stays.1
      exact inside 0 (myRealpath_longComponent short given started components 0)
  · obtain ⟨relative, deep⟩ := Classical.not_imp.mp cwdFits
    refine iff_of_true (fun fuel => ?_) (.inl ⟨relative, Nat.not_lt.mp deep⟩)
    rw [myRealpath_noCwd short given size relative (Nat.not_lt.mp deep)]
    exact fun stopped => by cases stopped

theorem oneFile_staysInside : StaysInside oneFile [] onePathname := by
  have absolute : ¬ (onePathname.head? ≠ some slash ∧ ([] : Position CString) = []) :=
    fun relative => relative.1 rfl
  refine .inr ⟨by decide, ?_⟩
  show NamesFitFrom oneFile _ [] [[100], [102]]
  rw [namesFitFrom_cons rfl]
  refine ⟨fun _ _ => ⟨by decide, fun slashed => absurd slashed absolute⟩, ?_⟩
  rintro next ⟨⟩
  rw [namesFitFrom_cons rfl]
  refine ⟨fun _ _ => ⟨by decide, fun _ => by decide⟩, ?_⟩
  rintro next ⟨⟩
  exact namesFitFrom_nil

theorem myRealpath_inside_oneFile :
    StaysInside oneFile [] onePathname ∧
    ∀ fuel, myRealpath (treeKernel oneFile ⟨⟨0, 0⟩, .other⟩) fuel (some onePathname)
      (some (List.replicate PATH_MAX 0)) none ⟨[], [], 0⟩ ≠ .error .overflow := by
  refine ⟨oneFile_staysInside, ?_⟩
  exact (myRealpath_inside_iff oneFile ⟨⟨0, 0⟩, .other⟩ oneFile_noLinks ⟨[], [], 0⟩ _ _ rfl
    onePathname (by decide) (by decide) (some (List.replicate PATH_MAX 0)) none _ rfl
    List.length_replicate).mpr oneFile_staysInside

/-! ### Deep trees -/

/-- A name of `NAME_MAX` bytes. -/
def longName : CString := List.replicate NAME_MAX 97

/-- Directories of the same name, each in the one above. -/
def deepTree : Nat → Tree
  | 0 => .dir ⟨1, 1⟩ []
  | depth + 1 => .dir ⟨1, depth + 2⟩ [(longName, deepTree depth)]

theorem longName_length : longName.length = NAME_MAX := List.length_replicate

theorem notMem_longName {symbol : UInt8} (other : symbol ≠ 97) : symbol ∉ longName :=
  fun member => other (List.eq_of_mem_replicate member)

theorem longName_valid : ValidName longName where
  notEmpty := by decide
  noSlash := notMem_longName (by decide)
  noTerminator := notMem_longName (by decide)
  notDot := fun same => absurd (congrArg List.length same) (by rw [longName_length]; decide)
  notDotDot := fun same => absurd (congrArg List.length same) (by rw [longName_length]; decide)
  fits := Nat.le_of_eq longName_length

theorem deepTree_wellNamed (depth : Nat) : wellNamed (deepTree depth) = true := by
  induction depth with
  | zero => decide
  | succ depth inductionHypothesis =>
      simpa [deepTree, wellNamed, wellNamedEntries, inductionHypothesis] using longName_valid

theorem deepTree_isDir (depth : Nat) : (deepTree depth).IsDir := by
  cases depth <;> trivial

/-- A tree with directories to a depth, none of which is a link. -/
def deep (depth : Nat) : FileSystem :=
  FileSystem.ofTree (deepTree depth) (deepTree_isDir depth) (deepTree_wellNamed depth)

theorem exists_deepTree (depth : Nat) {position : Position CString} {found : Tree}
    (located : (deepTree depth).at? position = some found) : ∃ below, found = deepTree below := by
  induction position generalizing found with
  | nil =>
      cases located
      exact ⟨depth, rfl⟩
  | cons name parent inductionHypothesis =>
      obtain ⟨above, aboveAt, child, _⟩ := FileTree.exists_parent located
      obtain ⟨below, rfl⟩ := inductionHypothesis aboveAt
      cases below with
      | zero => cases child
      | succ below =>
          obtain ⟨entry, foundEntry, rfl⟩ := Option.map_eq_some_iff.mp child
          have member := List.mem_of_find?_eq_some foundEntry
          rw [List.mem_singleton] at member
          exact ⟨below, by rw [member]⟩

theorem deep_noLinks (depth : Nat) : (deep depth).NoLinks := by
  intro position found located
  obtain ⟨below, rfl⟩ := exists_deepTree depth located
  cases below <;> rfl

theorem deepTree_at (depth : Nat) :
    ∃ info entries, (deepTree depth).at? (List.replicate depth longName) =
      some (.dir info entries) := by
  induction depth with
  | zero => exact ⟨⟨1, 1⟩, [], rfl⟩
  | succ depth inductionHypothesis =>
      obtain ⟨info, entries, located⟩ := inductionHypothesis
      have first : (deepTree (depth + 1)).at? [longName] = some (deepTree depth) := by
        simp [deepTree, FileTree.at?_cons, FileTree.child?]
      refine ⟨info, entries, ?_⟩
      rw [List.replicate_succ', FileTree.at?_append, first]
      exact located

theorem pathLength_deep (depth : Nat) :
    pathLength (List.replicate depth longName) = depth * (NAME_MAX + 1) := by
  rw [pathLength, List.map_replicate, longName_length, List.sum_replicate]
  rfl

/-- A single component, and yet the text that is looked up has `PATH_MAX` bytes without its
terminator. -/
theorem myRealpath_overruns :
    (deep 15).NoLinks ∧
    (∃ info entries, (deep 15).tree.at? (List.replicate 15 longName) = some (.dir info entries)) ∧
    ValidName longName ∧ longName.length ≤ PATH_MAX ∧
    myRealpath (treeKernel (deep 15) ⟨⟨0, 0⟩, .other⟩) 1 (some longName)
      (some (List.replicate PATH_MAX 0)) none ⟨List.replicate 15 longName, [], 0⟩ =
        .error .overflow := by
  obtain ⟨info, entries, cwdAt⟩ := deepTree_at 15
  have short : longName.length ≤ PATH_MAX := by
    rw [longName_length]
    decide
  refine ⟨deep_noLinks 15, ⟨info, entries, cwdAt⟩, longName_valid, short, ?_⟩
  have relative : longName.head? ≠ some slash := by decide
  have pieces : Pathname.pieces slash longName = [longName] :=
    Pathname.pieces_of_notMem slash longName_valid.noSlash longName_valid.notEmpty
  have cwdLength : (canonical (List.replicate 15 longName)).length = 3840 := by
    rw [canonical_eq, length_pathText, pathLength_deep]
    rfl
  have components : ∀ piece ∈ Pathname.pieces slash longName, piece.length ≤ NAME_MAX := by
    rw [pieces]
    exact fun piece member => List.mem_singleton.mp member ▸ longName_valid.fits
  obtain ⟨buffer, lrp_p, started, standing⟩ := @startPath_spec (deep 15) ⟨⟨0, 0⟩, .other⟩
    ⟨List.replicate 15 longName, [], 0⟩ longName (List.replicate PATH_MAX 0)
    List.length_replicate (fun _ => by rw [cwdLength]; decide) _ cwdAt
  rw [startPlace, if_neg relative] at standing
  obtain ⟨list, parsed, nodes, _⟩ := getPartPath_eq components
  rw [myRealpath_started short rfl started parsed, nodes, pieces]
  apply resolveComponents_stopped
  apply resolveComponent_overflows _ _ longName_valid.notDot longName_valid.notDotDot
    (.standing standing)
  rw [length_pathText, ← List.replicate_succ, pathLength_deep]
  exact Nat.le_add_left PATH_MAX _

end LinuxProgramming.Files
