import LinuxProgramming.Files.RealpathWalk

/-!
Contract: when `my_realpath` returns a pathname of the file the kernel finds.

Owns:
- the start of the function: the buffer before the first component;
- `myRealpath` on trees without links;
- `myRealpath` on trees with links, and what each state of its loop stands for.

Does not own: the form of the pathname it returns.
-/

namespace LinuxProgramming.Files

open LinuxProgramming.Library

/-! ### The start -/

/-- Where the resolution of a pathname starts. The working directory `/` is a text
of its own. -/
def startPlace (cwd : Position CString) (pathname : CString) : Place :=
  if pathname.head? = some slash then ⟨[], [], Pathname.pieces slash pathname⟩
  else ⟨if cwd = [] then [slash] else [], cwd, Pathname.pieces slash pathname⟩

section Start

variable {fs : FileSystem} {leftover : Stat} {process : Process} {pathname : CString}
  {buffer : List UInt8}

theorem startPlace_pending (cwd : Position CString) (pathname : CString) :
    (startPlace cwd pathname).pending = Pathname.pieces slash pathname := by
  rw [startPlace]
  split <;> rfl

theorem startPlace_position (cwd : Position CString) (pathname : CString) :
    (startPlace cwd pathname).position = FileSystem.origin cwd pathname := by
  rw [startPlace, FileSystem.origin]
  split <;> rfl

theorem put_start (size : buffer.length = PATH_MAX) :
    ∃ slashed buffer', CBuffer.write? buffer 0 [slash] = some slashed ∧
      CBuffer.write? slashed 1 [0] = some buffer' ∧ buffer'.length = PATH_MAX ∧
      [slash, 0] <+: buffer' := by
  obtain ⟨slashed, isSlashed, starts, size'⟩ :=
    CBuffer.exists_write? (List.nil_prefix : [] <+: buffer) [slash] (by rw [size]; decide)
  obtain ⟨buffer', isWritten, starts', size''⟩ :=
    CBuffer.exists_write? starts [0] (by rw [size', size]; decide)
  exact ⟨slashed, buffer', isSlashed, isWritten, by omega, starts'⟩

variable (leftover) in
/-- The function starts out standing at the start of the pathname. -/
theorem startPath_spec (size : buffer.length = PATH_MAX)
    (cwdFits : pathname.head? ≠ some slash → (canonical process.cwd).length < PATH_MAX)
    {found : Tree} (cwdAt : fs.tree.at? process.cwd = some found) :
    ∃ buffer' lrp_p, startPath (treeKernel fs leftover) pathname buffer process =
        .ok (some (buffer', lrp_p), process) ∧
      Standing buffer' lrp_p (startPlace process.cwd pathname).lead
        (startPlace process.cwd pathname).position := by
  obtain ⟨slashed, buffer', isSlashed, isWritten, size', starts⟩ := put_start size
  rw [startPath, put_bind isSlashed, put_bind isWritten, startPlace]
  by_cases absolute : pathname.head? = some slash
  · rw [if_neg (not_not.mpr absolute), if_pos absolute]
    exact ⟨buffer', 0, rfl, size', .inl rfl, rfl, starts⟩
  · rw [if_pos absolute, if_neg absolute]
    have fits := cwdFits absolute
    have gets : (treeKernel fs leftover).getcwd PATH_MAX process =
        (some (canonical process.cwd), process) := if_pos fits
    obtain ⟨buffer'', isWritten', starts', size''⟩ :=
      CBuffer.exists_write? (List.nil_prefix : [] <+: buffer') (canonical process.cwd ++ [0])
        (by simp; omega)
    have isLead : IsLead (if process.cwd = [] then [slash] else []) := by
      split
      · exact .inr rfl
      · exact .inl rfl
    have text := canonical_eq process.cwd
    have notEmpty : pathText (if process.cwd = [] then [slash] else []) process.cwd ≠ [] := by
      by_cases empty : process.cwd = []
      · rw [empty]
        decide
      · exact pathText_ne_nil empty
    have free : (0 : UInt8) ∉ canonical process.cwd := by
      rw [text]
      exact pathText_noTerminator isLead fun name member =>
        (FileSystem.validName_of_mem cwdAt name member).noTerminator
    rw [List.nil_append] at starts'
    rw [call_bind _ gets]
    dsimp only
    rw [show 0 = List.length ([] : List UInt8) from rfl, put_bind isWritten',
      CBuffer.string_eq free starts']
    refine ⟨buffer'', _, rfl, size''.trans size', isLead, by rw [← text], ?_⟩
    rw [if_neg notEmpty, ← text]
    exact starts'

theorem sound_startPlace {info : Inode} {entries : List (CString × Tree)}
    (cwdAt : fs.tree.at? process.cwd = some (.dir info entries))
    (terminated : (0 : UInt8) ∉ pathname)
    (components : ∀ piece ∈ Pathname.pieces slash pathname, piece.length ≤ NAME_MAX) :
    Sound fs (startPlace process.cwd pathname) := by
  rw [startPlace]
  split
  · exact sound_of_dir (root_dir fs) (component_of_pieces terminated components)
  · exact sound_of_dir ⟨info, entries, cwdAt⟩ (component_of_pieces terminated components)

end Start

/-- Behind its start the function is the loop over the components. -/
theorem myRealpath_started {W S : Type} {kernel : Kernel W S} {world world' : W}
    {pathname : CString} (short : pathname.length ≤ PATH_MAX)
    {resolved_path allocated : Option (List UInt8)} {buffer : List UInt8}
    (given : resolved_path.or allocated = some buffer) {buffer' : List UInt8} {lrp_p : Nat}
    (started : startPath kernel pathname buffer world = .ok (some (buffer', lrp_p), world'))
    {list : PartPath} (parsed : getPartPath (some pathname) = some list) {fuel : Nat} :
    myRealpath kernel fuel (some pathname) resolved_path allocated world =
      resolveComponents kernel fuel ⟨buffer', lrp_p, list.nodes⟩ world' := by
  rw [myRealpath, if_neg (Nat.not_lt.mpr short), given]
  dsimp only
  rw [bind_ok started]
  dsimp only
  rw [parsed]

/-- `myRealpath` ends where the resolution does, if every component on the way can
be taken. -/
theorem myRealpath_spec {fs : FileSystem} (leftover : Stat) (targets : fs.ValidTargets)
    (process : Process) {info : Inode} {entries : List (CString × Tree)}
    (cwdAt : fs.tree.at? process.cwd = some (.dir info entries)) {pathname : CString}
    (terminated : (0 : UInt8) ∉ pathname) (short : pathname.length ≤ PATH_MAX)
    (components : ∀ piece ∈ Pathname.pieces slash pathname, piece.length ≤ NAME_MAX)
    (cwdFits : pathname.head? ≠ some slash → (canonical process.cwd).length < PATH_MAX)
    {resolved_path allocated : Option (List UInt8)} {buffer : List UInt8}
    (given : resolved_path.or allocated = some buffer) (size : buffer.length = PATH_MAX)
    {result : Except Errno (Position CString)}
    (resolves : fs.Resolves (startPlace process.cwd pathname) result)
    (ok : ∀ place, (fs.resolution (startPlace process.cwd pathname)).Reachable place →
      PlaceOk fs place) :
    ∃ bound, ∀ fuel, bound ≤ fuel →
      match result with
      | .error _ => ∃ errno, myRealpath (treeKernel fs leftover) fuel (some pathname)
          resolved_path allocated process = .ok (.error errno, process)
      | .ok position => ∃ buffer' found, myRealpath (treeKernel fs leftover) fuel (some pathname)
          resolved_path allocated process = .ok (.ok buffer', process) ∧
            Shows buffer' position ∧ fs.tree.at? position = some found ∧
            targetOf found = none := by
  obtain ⟨buffer', lrp_p, started, standing⟩ :=
    startPath_spec leftover size cwdFits cwdAt
  obtain ⟨list, parsed, nodes, _⟩ := getPartPath_eq components
  have sound := sound_startPlace cwdAt terminated components
  obtain ⟨bound, runs⟩ := resolveComponents_spec leftover process targets resolves
    sound ok (.standing standing)
  refine ⟨bound, fun fuel enough => ?_⟩
  rw [myRealpath_started short given started parsed, nodes, ← startPlace_pending process.cwd]
  exact runs fuel enough

/-! ### Trees without links -/

theorem FileSystem.NoLinks.validTargets {fs : FileSystem} (noLinks : fs.NoLinks) :
    fs.ValidTargets where
  notEmpty position found target located isLink := by
    rw [noLinks _ _ located] at isLink
    cases isLink
  short position found target located isLink := by rw [noLinks _ _ located] at isLink; cases isLink
  noTerminator position found target located isLink := by
    rw [noLinks _ _ located] at isLink
    cases isLink

/-- Every path the loop builds, behind the text it starts with, fits into the
buffer. -/
def IntermediatePathsFit (fs : FileSystem) (start : Place) : Prop :=
  ∀ place, (fs.resolution start).Reachable place → ∀ name rest, place.pending = name :: rest →
    name ≠ dot → name ≠ dotDot →
    (pathText place.lead (name :: place.position)).length < PATH_MAX

theorem FileSystem.NoLinks.resolves {fs : FileSystem} (noLinks : fs.NoLinks)
    (cwd : Position CString) (pathname : CString) :
    fs.Resolves (startPlace cwd pathname)
      (fs.walk (FileSystem.origin cwd pathname) (Pathname.pieces slash pathname)) := by
  have whole := FileSystem.resolves_of_resolve noLinks.validTargets 0
    (startPlace cwd pathname).lead _ _ _ (FileSystem.resolve_eq_walk noLinks true 0
      (FileSystem.origin cwd pathname) (Pathname.pieces slash pathname))
    (FileSystem.walk_ne_eloop _ _)
  rwa [← startPlace_position, ← startPlace_pending cwd] at whole ⊢

theorem FileSystem.NoLinks.placeOk {fs : FileSystem} (noLinks : fs.NoLinks) {place : Place}
    (fits : ∀ name rest, place.pending = name :: rest → name ≠ dot → name ≠ dotDot →
      (pathText place.lead (name :: place.position)).length < PATH_MAX) : PlaceOk fs place where
  fits := fits
  links name rest found target _ foundAt isLink := by
    rw [noLinks _ _ foundAt] at isLink
    cases isLink

theorem IntermediatePathsFit.placeOk {fs : FileSystem} (noLinks : fs.NoLinks) {start : Place}
    (fit : IntermediatePathsFit fs start) (place : Place)
    (reachable : (fs.resolution start).Reachable place) : PlaceOk fs place :=
  noLinks.placeOk (fit place reachable)

/-- In every tree without links, for every pathname of at most `PATH_MAX` bytes: the
function succeeds exactly if the walk along the components does, and the string it
returns leads to where the walk ends. -/
theorem myRealpath_walks (fs : FileSystem) (leftover : Stat) (noLinks : fs.NoLinks)
    (process : Process) (info : Inode) (entries : List (CString × Tree))
    (cwdAt : fs.tree.at? process.cwd = some (.dir info entries)) (pathname : CString)
    (terminated : (0 : UInt8) ∉ pathname) (short : pathname.length ≤ PATH_MAX)
    (components : ∀ piece ∈ Pathname.pieces slash pathname, piece.length ≤ NAME_MAX)
    (cwdFits : pathname.head? ≠ some slash → (canonical process.cwd).length < PATH_MAX)
    (fit : IntermediatePathsFit fs (startPlace process.cwd pathname))
    (resolved_path allocated : Option (List UInt8)) (buffer : List UInt8)
    (given : resolved_path.or allocated = some buffer) (size : buffer.length = PATH_MAX) :
    ∃ bound, ∀ fuel, bound ≤ fuel → ∃ outcome,
      myRealpath (treeKernel fs leftover) fuel (some pathname) resolved_path allocated process =
        .ok (outcome, process) ∧
      ((∃ buffer', outcome = .ok buffer') ↔ ∃ position,
        fs.walk (FileSystem.origin process.cwd pathname) (Pathname.pieces slash pathname) =
          .ok position) ∧
      ∀ buffer', outcome = .ok buffer' → ∃ position found,
        fs.walk (FileSystem.origin process.cwd pathname) (Pathname.pieces slash pathname) =
          .ok position ∧
        ∀ cwd, fs.find true cwd (CBuffer.string 0 buffer') = .ok (position, found) := by
  obtain ⟨bound, runs⟩ := myRealpath_spec leftover noLinks.validTargets process cwdAt terminated
    short components cwdFits given size (noLinks.resolves process.cwd pathname)
    (fit.placeOk noLinks)
  refine ⟨bound, fun fuel enough => ?_⟩
  have run := runs fuel enough
  cases walked : fs.walk (FileSystem.origin process.cwd pathname)
      (Pathname.pieces slash pathname) with
  | error errno =>
      rw [walked] at run
      obtain ⟨errno', ran⟩ := run
      exact ⟨_, ran, by simp, nofun⟩
  | ok position =>
      rw [walked] at run
      obtain ⟨buffer', found, ran, shows, located, noLink⟩ := run
      refine ⟨_, ran, iff_of_true ⟨_, rfl⟩ ⟨_, rfl⟩, ?_⟩
      rintro _ ⟨⟩
      exact ⟨position, found, rfl, shows.find located noLink true⟩

/-- The root with the directory `d`, which holds the file `f`. -/
def oneFileTree : Tree := .dir ⟨1, 1⟩ [([100], .dir ⟨1, 2⟩ [([102], .leaf ⟨⟨1, 3⟩, none⟩)])]

def oneFile : FileSystem := FileSystem.ofTree oneFileTree trivial (by decide)

/-- `"/d/f"` -/
def onePathname : CString := [47, 100, 47, 102]

theorem oneFile_noLinks : oneFile.NoLinks := by
  intro position found located
  have plain : ∀ listed ∈ oneFileTree.preorder [], targetOf listed.2 = none := by
    simp [oneFileTree, FileTree.preorder, FileTree.preorderEntries, targetOf]
  exact plain _ (FileTree.mem_preorder located)

theorem oneFile_places (place : Place)
    (reachable : (oneFile.resolution (startPlace [] onePathname)).Reachable place) :
    place ∈ [(⟨[], [], [[100], [102]]⟩ : Place), ⟨[], [[100]], [[102]]⟩,
      ⟨[], [[102], [100]], []⟩] := by
  have kept : (oneFile.resolution (startPlace [] onePathname)).Inductive
      (· ∈ [(⟨[], [], [[100], [102]]⟩ : Place), ⟨[], [[100]], [[102]]⟩,
        ⟨[], [[102], [100]], []⟩]) := by
    constructor
    · rintro place rfl
      decide
    · rintro before after member ⟨name, rest, next, advances⟩
      simp only [List.mem_cons, List.not_mem_nil, or_false] at member
      rcases member with rfl | rfl | rfl
      · cases next
        have here : oneFile.advance [] [] [100] [[102]] = .ok ⟨[], [[100]], [[102]]⟩ := rfl
        rw [here] at advances
        cases advances
        decide
      · cases next
        have here : oneFile.advance [] [[100]] [102] [] = .ok ⟨[], [[102], [100]], []⟩ := rfl
        rw [here] at advances
        cases advances
        decide
      · cases next
  exact kept.holds reachable

theorem oneFile_fit : IntermediatePathsFit oneFile (startPlace [] onePathname) := by
  intro place reachable name rest next _ _
  have member := oneFile_places place reachable
  simp only [List.mem_cons, List.not_mem_nil, or_false] at member
  rcases member with rfl | rfl | rfl <;> cases next <;> decide

theorem myRealpath_walks_oneFile :
    ∃ bound, ∀ fuel, bound ≤ fuel → ∃ outcome,
      myRealpath (treeKernel oneFile ⟨⟨0, 0⟩, .other⟩) fuel (some onePathname)
        (some (List.replicate PATH_MAX 0)) none ⟨[], [], 0⟩ = .ok (outcome, ⟨[], [], 0⟩) ∧
      ∃ buffer', outcome = .ok buffer' := by
  obtain ⟨bound, runs⟩ := myRealpath_walks oneFile ⟨⟨0, 0⟩, .other⟩ oneFile_noLinks ⟨[], [], 0⟩
    _ _ rfl onePathname (by decide) (by decide) (by decide) (fun relative => absurd rfl relative)
    oneFile_fit (some (List.replicate PATH_MAX 0)) none _ rfl List.length_replicate
  refine ⟨bound, fun fuel enough => ?_⟩
  obtain ⟨outcome, ran, succeeds, _⟩ := runs fuel enough
  exact ⟨outcome, ran, succeeds.mpr ⟨[[102], [100]], by decide⟩⟩

/-- The root again, written with more slashes than the length test allows. -/
def manySlashes : CString := List.replicate (PATH_MAX + 1) slash

theorem myRealpath_refuses_manySlashes :
    (∀ piece ∈ Pathname.pieces slash manySlashes, piece.length ≤ NAME_MAX) ∧
    IntermediatePathsFit oneFile (startPlace [] manySlashes) ∧
    oneFile.walk (FileSystem.origin [] manySlashes) (Pathname.pieces slash manySlashes) = .ok [] ∧
    ∀ fuel, myRealpath (treeKernel oneFile ⟨⟨0, 0⟩, .other⟩) fuel (some manySlashes)
      (some (List.replicate PATH_MAX 0)) none ⟨[], [], 0⟩ =
        .ok (.error (some .enametoolong), ⟨[], [], 0⟩) := by
  have none_ : Pathname.pieces slash manySlashes = [] := Pathname.pieces_replicate slash _
  have absolute : manySlashes.head? = some slash := rfl
  have long : PATH_MAX < manySlashes.length := by rw [manySlashes, List.length_replicate]; decide
  rw [none_, FileSystem.origin, if_pos absolute]
  refine ⟨by simp, ?_, rfl, fun fuel => ?_⟩
  · have ended : (oneFile.resolution (startPlace [] manySlashes)).Inductive
        (fun place => place.pending = []) := by
      constructor
      · rintro place rfl
        rw [startPlace_pending, none_]
      · rintro before after empty ⟨name, rest, next, _⟩
        rw [empty] at next
        cases next
    intro place reachable name rest next
    rw [ended.holds reachable] at next
    cases next
  · rw [myRealpath, if_pos long]
    rfl

/-! ### Trees with links -/

section Loop

variable {W S : Type}

/-- The states the loop goes through, from the start of the function. -/
def resolving (kernel : Kernel W S) (pathname : CString) (buffer : List UInt8) (world : W) :
    TransitionSystem (Resolving × W) where
  Init state := ∃ buffer' lrp_p world' list,
    startPath kernel pathname buffer world = .ok (some (buffer', lrp_p), world') ∧
    getPartPath (some pathname) = some list ∧ state = (⟨buffer', lrp_p, list.nodes⟩, world')
  Step before after := ∃ name rest, before.1.ppnn = name :: rest ∧
    resolveComponent kernel before.1.local_resolved_path before.1.lrp_p name rest before.2 =
      .ok (.next after.1, after.2)

end Loop

/-- The pathname consists of the names of a position, from the root on. -/
def Names (pathname : CString) (position : Position CString) : Prop :=
  pathname.head? = some slash ∧ Pathname.pieces slash pathname = position.reverse

/-- What the loop does next, it does in the directory at a position: a name is
looked up there, `..` leads to its parent, and if nothing is left the string names
the position. -/
def ContinuesFrom (state : Resolving) (position : Position CString) : Prop :=
  match nextComponent state.ppnn with
  | none => Names (CBuffer.string 0 state.local_resolved_path) position
  | some name =>
      if name = dotDot then
        ∃ buffer, CBuffer.write? state.local_resolved_path
            (scanSlash state.local_resolved_path (max state.lrp_p 1)) [0] = some buffer ∧
          Names (CBuffer.string 0 buffer) position.tail
      else Names (state.local_resolved_path.take state.lrp_p ++ slash :: name) (name :: position)

section Links

variable {fs : FileSystem} {leftover : Stat} {process : Process}

theorem names_pathText {lead : CString} {position : Position CString} (isLead : IsLead lead)
    (plain : ∀ name ∈ position, name ≠ [] ∧ slash ∉ name) :
    Names (if pathText lead position = [] then [slash] else pathText lead position) position := by
  split
  case isTrue empty =>
    have isRoot : position = [] := not_not.mp fun below => pathText_ne_nil below empty
    rw [isRoot]
    exact ⟨rfl, rfl⟩
  case isFalse notEmpty =>
    exact ⟨head_pathText isLead position notEmpty, pieces_pathText isLead plain⟩

theorem names_of_starts {buffer : List UInt8} {lead : CString} {position : Position CString}
    {found : Tree} (isLead : IsLead lead) (located : fs.tree.at? position = some found)
    (starts : (if pathText lead position = [] then [slash] else pathText lead position) ++ [0] <+:
      buffer) : Names (CBuffer.string 0 buffer) position := by
  have free : (0 : UInt8) ∉
      (if pathText lead position = [] then [slash] else pathText lead position) := by
    split
    · decide
    · exact pathText_noTerminator isLead fun name member =>
        (FileSystem.validName_of_mem located name member).noTerminator
  rw [CBuffer.string_eq free starts]
  exact names_pathText isLead (plain_of_located located)

theorem Ready.continuesFrom {state : Resolving} {lead : CString} {position : Position CString}
    {found : Tree} (located : fs.tree.at? position = some found)
    (components : ∀ name ∈ state.ppnn, Component name)
    (ready : Ready state.local_resolved_path state.lrp_p lead position state.ppnn) :
    ContinuesFrom state position := by
  rw [ContinuesFrom]
  cases next : nextComponent state.ppnn with
  | none =>
      obtain ⟨isLead, starts⟩ := ready.at_end next
      exact names_of_starts isLead located starts
  | some name =>
      dsimp only
      have component := components name (List.mem_of_find?_eq_some next)
      by_cases isDotDot : name = dotDot
      · rw [if_pos isDotDot]
        rw [isDotDot] at next
        obtain ⟨buffer, isWritten, standing⟩ := ready.up (plain_of_located located) next
        obtain ⟨info, entries, parentAt⟩ := FileSystem.tail_isDir located
        exact ⟨buffer, isWritten, names_of_starts standing.isLead parentAt standing.starts⟩
      · rw [if_neg isDotDot]
        obtain ⟨_, isLead, cursor, starts⟩ := ready.before_name next isDotDot
        have text : state.local_resolved_path.take state.lrp_p ++ slash :: name =
            pathText lead (name :: position) := by
          rw [cursor, ← List.prefix_iff_eq_take.mp starts, pathText_cons]
        have plain : ∀ other ∈ name :: position, other ≠ [] ∧ slash ∉ other :=
          List.forall_mem_cons.mpr
            ⟨⟨component.notEmpty, component.noSlash⟩, plain_of_located located⟩
        have named := names_pathText isLead plain
        rw [if_neg (pathText_ne_nil (List.cons_ne_nil _ _))] at named
        rwa [text]

/-- A state of the loop and the place of the resolution it stands for. -/
structure StandsFor (fs : FileSystem) (process : Process) (state : Resolving × Process)
    (place : Place) : Prop where
  world : state.2 = process
  pending : state.1.ppnn = place.pending
  sound : Sound fs place
  ready : Ready state.1.local_resolved_path state.1.lrp_p place.lead place.position place.pending

variable {pathname : CString} {buffer : List UInt8}

/-- The loop is simulated by the resolution, as long as every component on the way
can be taken. -/
theorem resolving_simulation (leftover : Stat) (targets : fs.ValidTargets) {info : Inode}
    {entries : List (CString × Tree)}
    (cwdAt : fs.tree.at? process.cwd = some (.dir info entries))
    (terminated : (0 : UInt8) ∉ pathname)
    (components : ∀ piece ∈ Pathname.pieces slash pathname, piece.length ≤ NAME_MAX)
    (cwdFits : pathname.head? ≠ some slash → (canonical process.cwd).length < PATH_MAX)
    (size : buffer.length = PATH_MAX)
    (ok : ∀ place, (fs.resolution (startPlace process.cwd pathname)).Reachable place →
      PlaceOk fs place) :
    TransitionSystem.Simulation (resolving (treeKernel fs leftover) pathname buffer process)
      (fs.resolution (startPlace process.cwd pathname)) (StandsFor fs process) where
  init := by
    rintro state ⟨buffer', lrp_p, world', list, started, parsed, rfl⟩
    obtain ⟨buffer'', lrp_p', started', standing⟩ := startPath_spec leftover size cwdFits cwdAt
    rw [started'] at started
    cases started
    obtain ⟨list', parsed', nodes, _⟩ := getPartPath_eq components
    rw [parsed'] at parsed
    cases parsed
    have sound := sound_startPlace cwdAt terminated components
    exact ⟨_, rfl, rfl, nodes.trans (startPlace_pending _ _).symm, sound, .standing standing⟩
  step := by
    rintro before after ⟨lead, position, pending⟩ reachable related ⟨name, rest, next, stepped⟩
    obtain ⟨world, samePending, sound, ready⟩ := related
    have isCons : pending = name :: rest := samePending.symm.trans next
    subst isCons
    obtain ⟨info, entries, located⟩ := sound.dir
    have here := ok _ reachable
    have spec := resolveComponent_spec leftover process targets located
      (sound.components name List.mem_cons_self) ready here
    rw [world] at stepped
    cases advances : fs.advance lead position name rest with
    | error errno =>
        rw [advances] at spec
        obtain ⟨errno', failed⟩ := spec
        rw [failed] at stepped
        cases stepped
    | ok place =>
        rw [advances] at spec
        obtain ⟨buffer', lrp_p', arrives, ready'⟩ := spec
        rw [arrives, Except.ok.injEq, Prod.mk.injEq, Progress.next.injEq] at stepped
        obtain ⟨isState, isWorld⟩ := stepped
        refine ⟨place, ⟨name, rest, rfl, advances⟩, isWorld.symm, ?_,
          advance_sound targets sound here advances, ?_⟩
        · rw [← isState]
        · rw [← isState]
          exact ready'

end Links

/-- For every tree with links, every absolute pathname whose resolution ends, and as
long as every component on the way can be taken: in every state the loop reaches the
cursor is inside the buffer, and what comes next (after a link the components of its
target and then those left) is resolved from the directory at which the resolution
of the kernel continues; the function fails if that resolution does, and otherwise
returns a string that leads to the same file. -/
theorem myRealpath_follows_links (fs : FileSystem) (leftover : Stat) (targets : fs.ValidTargets)
    (process : Process) (info : Inode) (entries : List (CString × Tree))
    (cwdAt : fs.tree.at? process.cwd = some (.dir info entries)) (pathname : CString)
    (terminated : (0 : UInt8) ∉ pathname) (short : pathname.length ≤ PATH_MAX)
    (components : ∀ piece ∈ Pathname.pieces slash pathname, piece.length ≤ NAME_MAX)
    (absolute : pathname.head? = some slash) (links : Nat)
    (result : Except Errno (Position CString))
    (resolved : fs.resolve true links [] (Pathname.pieces slash pathname) = result)
    (finite : result ≠ .error .eloop)
    (ok : ∀ place, (fs.resolution (startPlace process.cwd pathname)).Reachable place →
      PlaceOk fs place)
    (resolved_path allocated : Option (List UInt8)) (buffer : List UInt8)
    (given : resolved_path.or allocated = some buffer) (size : buffer.length = PATH_MAX) :
    (∀ state, (resolving (treeKernel fs leftover) pathname buffer process).Reachable state →
      ∃ place, (fs.resolution (startPlace process.cwd pathname)).Reachable place ∧
        state.1.ppnn = place.pending ∧ state.1.lrp_p < PATH_MAX ∧
        ContinuesFrom state.1 place.position) ∧
    ∃ bound, ∀ fuel, bound ≤ fuel → ∃ outcome,
      myRealpath (treeKernel fs leftover) fuel (some pathname) resolved_path allocated process =
        .ok (outcome, process) ∧
      match result with
      | .error _ => ∃ errno, outcome = .error errno
      | .ok position => ∃ buffer' found, outcome = .ok buffer' ∧
          ∀ cwd, fs.find true cwd (CBuffer.string 0 buffer') = .ok (position, found) := by
  have noCwd : pathname.head? ≠ some slash → (canonical process.cwd).length < PATH_MAX :=
    fun relative => absurd absolute relative
  constructor
  · intro state reachable
    obtain ⟨place, placeReachable, related⟩ :=
      (resolving_simulation leftover targets cwdAt terminated components noCwd size ok).reachable
        reachable
    obtain ⟨found, located, _⟩ := related.sound.located
    refine ⟨place, placeReachable, related.pending, related.ready.cursor_lt, ?_⟩
    apply Ready.continuesFrom located
    · rw [related.pending]
      exact related.sound.components
    · rw [related.pending]
      exact related.ready
  · have start : startPlace process.cwd pathname = ⟨[], [], Pathname.pieces slash pathname⟩ :=
      if_pos absolute
    have resolves : fs.Resolves (startPlace process.cwd pathname) result := by
      rw [start]
      exact FileSystem.resolves_of_resolve targets links _ _ _ _ resolved finite
    obtain ⟨bound, runs⟩ := myRealpath_spec leftover targets process cwdAt terminated short
      components noCwd given size resolves ok
    refine ⟨bound, fun fuel enough => ?_⟩
    have run := runs fuel enough
    cases result with
    | error errno =>
        obtain ⟨errno', ran⟩ := run
        exact ⟨_, ran, errno', rfl⟩
    | ok position =>
        obtain ⟨buffer', found, ran, shows, located, noLink⟩ := run
        exact ⟨_, ran, buffer', found, rfl, shows.find located noLink true⟩

/-- The root with the directory `d`, which holds the file `f` and two links to it, `l`
and `ln`. -/
def linkedTree : Tree :=
  .dir ⟨1, 1⟩ [([100], .dir ⟨1, 2⟩ [([102], .leaf ⟨⟨1, 3⟩, none⟩),
    ([108], .leaf ⟨⟨1, 4⟩, some [102]⟩), ([108, 110], .leaf ⟨⟨1, 5⟩, some [102]⟩)])]

def linked : FileSystem := FileSystem.ofTree linkedTree trivial (by decide)

/-- `"/d/l"` -/
def shortLink : CString := [47, 100, 47, 108]

/-- `"/d/ln"` -/
def longLink : CString := [47, 100, 47, 108, 110]

theorem linked_validTargets : linked.ValidTargets := by
  have target_eq : ∀ position found target, linked.tree.at? position = some found →
      targetOf found = some target → target = [102] := by
    intro position found target located isLink
    have same : ∀ listed ∈ linkedTree.preorder [], ∀ target, targetOf listed.2 = some target →
        target = [102] := by
      simp [linkedTree, FileTree.preorder, FileTree.preorderEntries, targetOf]
    exact same _ (FileTree.mem_preorder located) target isLink
  constructor <;> intro position found target located isLink <;>
    rw [target_eq position found target located isLink] <;> decide

theorem linked_places (place : Place)
    (reachable : (linked.resolution (startPlace [] shortLink)).Reachable place) :
    place ∈ [(⟨[], [], [[100], [108]]⟩ : Place), ⟨[], [[100]], [[108]]⟩, ⟨[], [[100]], [[102]]⟩,
      ⟨[], [[102], [100]], []⟩] := by
  have kept : (linked.resolution (startPlace [] shortLink)).Inductive
      (· ∈ [(⟨[], [], [[100], [108]]⟩ : Place), ⟨[], [[100]], [[108]]⟩, ⟨[], [[100]], [[102]]⟩,
        ⟨[], [[102], [100]], []⟩]) := by
    constructor
    · rintro place rfl
      decide
    · rintro before after member ⟨name, rest, next, advances⟩
      simp only [List.mem_cons, List.not_mem_nil, or_false] at member
      rcases member with rfl | rfl | rfl | rfl
      · cases next
        have here : linked.advance [] [] [100] [[108]] = .ok ⟨[], [[100]], [[108]]⟩ := rfl
        rw [here] at advances
        cases advances
        decide
      · cases next
        have here : linked.advance [] [[100]] [108] [] = .ok ⟨[], [[100]], [[102]]⟩ := rfl
        rw [here] at advances
        cases advances
        decide
      · cases next
        have here : linked.advance [] [[100]] [102] [] = .ok ⟨[], [[102], [100]], []⟩ := rfl
        rw [here] at advances
        cases advances
        decide
      · cases next
  exact kept.holds reachable

theorem linked_ok (place : Place)
    (reachable : (linked.resolution (startPlace [] shortLink)).Reachable place) :
    PlaceOk linked place := by
  have member := linked_places place reachable
  simp only [List.mem_cons, List.not_mem_nil, or_false] at member
  constructor
  · intro name rest next _ _
    rcases member with rfl | rfl | rfl | rfl <;> cases next <;> decide
  · intro name rest found target next foundAt isLink
    rcases member with rfl | rfl | rfl | rfl
    · cases next
      cases foundAt
      cases isLink
    · cases next
      cases foundAt
      cases isLink
      exact ⟨by decide, .inr (.inl ⟨rfl, by decide⟩)⟩
    · cases next
      cases foundAt
      cases isLink
    · cases next

theorem myRealpath_follows_links_short :
    ∃ bound, ∀ fuel, bound ≤ fuel → ∃ buffer' found,
      myRealpath (treeKernel linked ⟨⟨0, 0⟩, .other⟩) fuel (some shortLink)
        (some (List.replicate PATH_MAX 0)) none ⟨[], [], 0⟩ = .ok (.ok buffer', ⟨[], [], 0⟩) ∧
      ∀ cwd, linked.find true cwd (CBuffer.string 0 buffer') = .ok ([[102], [100]], found) := by
  obtain ⟨_, bound, runs⟩ := myRealpath_follows_links linked ⟨⟨0, 0⟩, .other⟩
    linked_validTargets ⟨[], [], 0⟩ _ _ rfl shortLink (by decide) (by decide) (by decide) rfl 1
    (.ok [[102], [100]]) rfl nofun linked_ok (some (List.replicate PATH_MAX 0)) none _ rfl
    List.length_replicate
  refine ⟨bound, fun fuel enough => ?_⟩
  obtain ⟨_, ran, buffer', found, rfl, finds⟩ := runs fuel enough
  exact ⟨buffer', found, ran, finds⟩

/-- The cursor is set back by two bytes although it stands one byte behind the text:
`f` is looked up in the root. -/
theorem myRealpath_loses_directory :
    linked.resolve true 1 [] (Pathname.pieces slash longLink) = .ok [[102], [100]] ∧
    myRealpath (treeKernel linked ⟨⟨0, 0⟩, .other⟩) 5 (some longLink)
      (some (List.replicate PATH_MAX 0)) none ⟨[], [], 0⟩ =
        .ok (.error (some .enoent), ⟨[], [], 0⟩) :=
  ⟨rfl, by decide +kernel⟩

end LinuxProgramming.Files
