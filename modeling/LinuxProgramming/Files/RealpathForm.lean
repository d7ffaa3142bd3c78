import LinuxProgramming.Library.PartialCorrectness
import LinuxProgramming.Files.RealpathCorrect

/-!
Contract: the form of the pathname `my_realpath` returns.

Owns:
- `CanonicalForm`, and which of the texts the loop builds have it;
- when a walk is back at the root, which leaves a slash in the buffer;
- `myRealpath` on trees without links.

Does not own: which file the pathname leads to.
-/

namespace LinuxProgramming.Files

open LinuxProgramming.Library

/-! ### The form -/

/-- The canonical form of an absolute pathname. What stands behind the slashes are
its components. -/
structure CanonicalForm (text : CString) : Prop where
  oneSlash : text.head? = some slash ∧ text[1]? ≠ some slash
  components : text ≠ [slash] → ∀ component ∈ (text.splitOn slash).tail,
    component ≠ [] ∧ component ≠ dot ∧ component ≠ dotDot
  noSlashAtEnd : text.getLast? = some slash → text = [slash]

section Text

variable {fs : FileSystem} {position : Position CString} {found : Tree}

theorem splitOn_pathText (valid : ∀ name ∈ position, ValidName name) :
    (pathText [] position).splitOn slash = [] :: position.reverse := by
  induction position with
  | nil => rfl
  | cons name parent inductionHypothesis =>
      have noSlash := (valid name List.mem_cons_self).noSlash
      rw [pathText_cons, List.splitOn_append_cons_self,
        inductionHypothesis fun other member => valid other (List.mem_cons_of_mem _ member),
        List.splitOn_eq_singleton noSlash, List.reverse_cons, List.cons_append]

theorem pathText_second (valid : ∀ name ∈ position, ValidName name) :
    (pathText [] position)[1]? ≠ some slash := by
  induction position with
  | nil => nofun
  | cons name parent inductionHypothesis =>
      have here := valid name List.mem_cons_self
      rw [pathText_cons]
      cases parent with
      | nil =>
          rw [pathText_nil, List.nil_append, List.getElem?_cons_succ]
          exact fun first => here.noSlash (List.mem_of_getElem? first)
      | cons above higher =>
          have long : 1 < (pathText [] (above :: higher)).length := by
            have notEmpty := List.length_pos_iff.mpr (valid above (by simp)).notEmpty
            rw [pathText_cons, List.length_append, List.length_cons]
            omega
          rw [List.getElem?_append_left long]
          exact inductionHypothesis fun other member => valid other (List.mem_cons_of_mem _ member)

theorem canonicalForm_pathText (below : position ≠ [])
    (valid : ∀ name ∈ position, ValidName name) : CanonicalForm (pathText [] position) where
  oneSlash := ⟨head_pathText (.inl rfl) position (pathText_ne_nil below), pathText_second valid⟩
  components _ component member := by
    rw [splitOn_pathText valid, List.tail_cons, List.mem_reverse] at member
    exact ⟨(valid component member).notEmpty, (valid component member).notDot,
      (valid component member).notDotDot⟩
  noSlashAtEnd last := by
    cases position with
    | nil => exact absurd rfl below
    | cons name parent =>
        have here := valid name List.mem_cons_self
        exact absurd last (getLast_pathText
          ⟨here.notEmpty, here.noSlash, here.noTerminator, here.fits⟩)

/-- The texts of positions that are canonical: the root's, and those without a slash
in front. -/
theorem canonicalForm_iff {lead : CString} (isLead : IsLead lead)
    (valid : ∀ name ∈ position, ValidName name) :
    CanonicalForm (if pathText lead position = [] then [slash] else pathText lead position) ↔
      position = [] ∨ lead ≠ [slash] := by
  by_cases atRoot : position = []
  · have text : (if pathText lead position = [] then [slash] else pathText lead position) =
        [slash] := by
      rcases isLead with rfl | rfl <;> rw [atRoot] <;> rfl
    rw [text]
    exact iff_of_true ⟨by decide, fun other => absurd rfl other, fun _ => rfl⟩ (.inl atRoot)
  · rw [if_neg (pathText_ne_nil atRoot), or_iff_right atRoot]
    rcases isLead with rfl | rfl
    · exact iff_of_true (canonicalForm_pathText atRoot valid) (by decide)
    · refine iff_of_false (fun form => ?_) (fun other => other rfl)
      have doubled : pathText [slash] position = slash :: pathText [] position := rfl
      have first := head_pathText (.inl rfl) position (pathText_ne_nil atRoot)
      rw [doubled] at form
      apply form.oneSlash.2
      rw [List.getElem?_cons_succ, ← List.head?_eq_getElem?]
      exact first

end Text

/-! ### Back at the root -/

/-- The walk stands at the root behind one of its `..`. -/
def ReturnsToRoot (fs : FileSystem) (position : Position CString) (names : List CString) : Prop :=
  ∃ before after, names = before ++ dotDot :: after ∧
    fs.walk position (before ++ [dotDot]) = .ok []

/-- A slash stands in the buffer before the last name is put behind one: the walk is
back at the root, or it starts there because the working directory is the root. -/
def StartsOver (fs : FileSystem) (cwd : Position CString) (pathname : CString) : Prop :=
  (pathname.head? ≠ some slash ∧ cwd = []) ∨
    ReturnsToRoot fs (FileSystem.origin cwd pathname) (Pathname.pieces slash pathname)

section Walks

variable {fs : FileSystem} {position next : Position CString} {name : CString}
  {rest : List CString}

theorem not_returnsToRoot_nil : ¬ ReturnsToRoot fs position [] := by
  rintro ⟨before, after, isNil, _⟩
  simp at isNil

theorem returnsToRoot_cons (stepped : fs.step position name = .ok next) :
    ReturnsToRoot fs position (name :: rest) ↔
      name = dotDot ∧ next = [] ∨ ReturnsToRoot fs next rest := by
  constructor
  · rintro ⟨before, after, isCons, walked⟩
    cases before with
    | nil =>
        obtain ⟨rfl, rfl⟩ := List.cons.inj isCons
        rw [List.nil_append, FileSystem.walk_cons, stepped] at walked
        exact .inl ⟨rfl, Except.ok.inj walked⟩
    | cons first before =>
        obtain ⟨rfl, rfl⟩ := List.cons.inj isCons
        rw [List.cons_append, FileSystem.walk_cons, stepped] at walked
        exact .inr ⟨before, after, rfl, walked⟩
  · rintro (⟨rfl, rfl⟩ | ⟨before, after, rfl, walked⟩)
    · refine ⟨[], rest, rfl, ?_⟩
      rw [List.nil_append, FileSystem.walk_cons, stepped]
      rfl
    · refine ⟨name :: before, after, rfl, ?_⟩
      rw [List.cons_append, FileSystem.walk_cons, stepped]
      exact walked

/-- Without links, one step of resolution is one of the walk, and the slash in front
comes from a `..` that leads to the root. -/
theorem advance_noLinks (noLinks : fs.NoLinks) {lead : CString} {place : Place}
    (advances : fs.advance lead position name rest = .ok place) :
    fs.step position name = .ok place.position ∧ place.pending = rest ∧
      place.lead = if name = dotDot ∧ place.position = [] then [slash] else lead := by
  rw [FileSystem.advance] at advances
  rw [FileSystem.step]
  cases located : fs.tree.at? position with
  | none =>
      rw [located] at advances
      cases advances
  | some tree =>
      rw [located] at advances
      cases tree with
      | leaf content => cases advances
      | dir info entries =>
          dsimp only at advances ⊢
          by_cases isDot : name = dot
          · rw [if_pos isDot] at advances
            cases advances
            rw [if_pos isDot, if_neg (fun up => by rw [isDot] at up; exact absurd up.1 (by decide))]
            exact ⟨rfl, rfl, rfl⟩
          rw [if_neg isDot] at advances ⊢
          by_cases isDotDot : name = dotDot
          · rw [if_pos isDotDot] at advances
            cases advances
            simp only [isDotDot, if_true, true_and]
          rw [if_neg isDotDot] at advances ⊢
          cases foundAt : fs.tree.at? (name :: position) with
          | none =>
              rw [foundAt] at advances
              cases advances
          | some found =>
              rw [foundAt] at advances
              dsimp only at advances
              rw [noLinks _ _ foundAt] at advances
              dsimp only at advances
              split at advances
              · cases advances
              · cases advances
                exact ⟨rfl, rfl, (if_neg fun up => isDotDot up.1).symm⟩

/-- Where the slash in front comes from. -/
theorem lead_slash_iff (noLinks : fs.NoLinks) {lead : CString} {place : Place}
    (advances : fs.advance lead position name rest = .ok place) :
    place.lead = [slash] ↔ lead = [slash] ∨ name = dotDot ∧ place.position = [] := by
  rw [(advance_noLinks noLinks advances).2.2]
  split
  case isTrue up => exact iff_of_true rfl (.inr up)
  case isFalse notUp => exact (or_iff_left notUp).symm

end Walks

/-! ### The loop -/

theorem returns_put {W : Type} (buffer : List UInt8) (index : Nat) (symbols : List UInt8)
    (world : W) : Returns (put buffer index symbols) world fun buffer' _ =>
      CBuffer.write? buffer index symbols = some buffer' := by
  cases written : CBuffer.write? buffer index symbols with
  | none => exact .of_error (by rw [put, written]; rfl)
  | some buffer' => exact .of_ok (by rw [put, written]; rfl) rfl

section Loop

variable {fs : FileSystem} {leftover : Stat} {process : Process} {buffer : List UInt8}
  {lrp_p : Nat} {lead : CString} {position : Position CString} {name : CString}
  {rest : List CString}

variable (fs leftover process) in
/-- Whatever an iteration comes to, the name has been written. -/
theorem resolveComponent_fits (notDot : name ≠ dot) (notDotDot : name ≠ dotDot)
    (ready : Ready buffer lrp_p lead position (name :: rest)) :
    Returns (resolveComponent (treeKernel fs leftover) buffer lrp_p name rest) process
      fun _ _ => (pathText lead (name :: position)).length < PATH_MAX := by
  obtain ⟨size, _, atCursor, _⟩ := ready.before_name (nextComponent_cons notDot rest) notDotDot
  rw [resolveComponent, if_neg notDotDot, if_neg notDot]
  refine Returns.bind (returns_put _ _ _ _) fun slashed _ isSlashed => ?_
  refine Returns.bind (returns_put _ _ _ _) fun buffer' _ isWritten => ?_
  intro _ _ _
  have room := (CBuffer.of_write? isWritten).1
  rw [(CBuffer.of_write? isSlashed).2, size, atCursor, List.length_append,
    List.length_singleton] at room
  rw [pathText_cons, List.length_append, List.length_cons]
  omega

/-- The step lemma of the loop, in a tree without links. -/
theorem resolveComponent_returns (noLinks : fs.NoLinks)
    (sound : Sound fs ⟨lead, position, name :: rest⟩)
    (ready : Ready buffer lrp_p lead position (name :: rest)) :
    Returns (resolveComponent (treeKernel fs leftover) buffer lrp_p name rest) process
      fun progress process' => process' = process ∧ ∀ state, progress = .next state →
        ∃ place, fs.advance lead position name rest = .ok place ∧ Sound fs place ∧
          state.ppnn = place.pending ∧
          Ready state.local_resolved_path state.lrp_p place.lead place.position place.pending := by
  intro progress process' ran
  have ok : PlaceOk fs ⟨lead, position, name :: rest⟩ := by
    apply noLinks.placeOk
    rintro _ _ ⟨⟩ notDot notDotDot
    exact resolveComponent_fits fs leftover process notDot notDotDot ready _ _ ran
  obtain ⟨info, entries, located⟩ := sound.dir
  have spec := resolveComponent_spec leftover process noLinks.validTargets located
    (sound.components name List.mem_cons_self) ready ok
  cases advances : fs.advance lead position name rest with
  | error errno =>
      rw [advances] at spec
      obtain ⟨errno', failed⟩ := spec
      rw [failed] at ran
      cases ran
      exact ⟨rfl, nofun⟩
  | ok place =>
      rw [advances] at spec
      obtain ⟨buffer', lrp_p', arrives, ready'⟩ := spec
      rw [arrives] at ran
      cases ran
      refine ⟨rfl, ?_⟩
      rintro _ ⟨⟩
      exact ⟨place, rfl, advance_sound noLinks.validTargets sound ok advances, rfl, ready'⟩

/-- The buffer holds the text of the position where a walk ends; the slash in front is
there from the start or since the walk was back at the root. -/
def HoldsEnd (fs : FileSystem) (lead : CString) (position : Position CString)
    (names : List CString) (buffer : List UInt8) : Prop :=
  ∃ lead' position' found, fs.walk position names = .ok position' ∧
    fs.tree.at? position' = some found ∧ IsLead lead' ∧
    (lead' = [slash] ↔ lead = [slash] ∨ ReturnsToRoot fs position names) ∧
    CBuffer.string 0 buffer =
      if pathText lead' position' = [] then [slash] else pathText lead' position'

theorem holdsEnd_nil {found : Tree} (located : fs.tree.at? position = some found)
    (ready : Ready buffer lrp_p lead position []) : HoldsEnd fs lead position [] buffer := by
  obtain ⟨isLead, starts⟩ := ready.at_end rfl
  refine ⟨lead, position, found, rfl, located, isLead,
    (or_iff_left not_returnsToRoot_nil).symm, CBuffer.string_eq ?_ starts⟩
  split
  · decide
  · exact pathText_noTerminator isLead fun name member =>
      (FileSystem.validName_of_mem located name member).noTerminator

theorem holdsEnd_cons (noLinks : fs.NoLinks) {place : Place}
    (advances : fs.advance lead position name rest = .ok place)
    (holds : HoldsEnd fs place.lead place.position place.pending buffer) :
    HoldsEnd fs lead position (name :: rest) buffer := by
  obtain ⟨stepped, samePending, _⟩ := advance_noLinks noLinks advances
  obtain ⟨lead', position', found, walked, located, isLead, slashIff, string⟩ := holds
  rw [samePending] at walked slashIff
  refine ⟨lead', position', found, ?_, located, isLead, ?_, string⟩
  · rw [FileSystem.walk_cons, stepped]
    exact walked
  · rw [slashIff, returnsToRoot_cons stepped, lead_slash_iff noLinks advances, or_assoc]

theorem returns_nil (fuel : Nat) (sound : Sound fs ⟨lead, position, []⟩)
    (ready : Ready buffer lrp_p lead position []) :
    Returns (resolveComponents (treeKernel fs leftover) fuel ⟨buffer, lrp_p, []⟩) process
      fun outcome _ => ∀ buffer', outcome = .ok buffer' →
        HoldsEnd fs lead position [] buffer' := by
  obtain ⟨found, located, _⟩ := sound.located
  rw [resolveComponents_nil]
  refine Returns.pure ?_
  rintro _ ⟨⟩
  exact holdsEnd_nil located ready

/-- The run lemma. The induction is on the components, one of which each iteration
takes. -/
theorem resolveComponents_returns (noLinks : fs.NoLinks) (fuel : Nat)
    (sound : Sound fs ⟨lead, position, rest⟩) (ready : Ready buffer lrp_p lead position rest) :
    Returns (resolveComponents (treeKernel fs leftover) fuel ⟨buffer, lrp_p, rest⟩) process
      fun outcome _ => ∀ buffer', outcome = .ok buffer' →
        HoldsEnd fs lead position rest buffer' := by
  induction fuel generalizing buffer lrp_p lead position rest process with
  | zero =>
      cases rest with
      | nil => exact returns_nil 0 sound ready
      | cons name rest => exact .of_error rfl
  | succ fuel inductionHypothesis =>
      cases rest with
      | nil => exact returns_nil (fuel + 1) sound ready
      | cons name rest =>
          rw [resolveComponents]
          refine Returns.bind (resolveComponent_returns noLinks sound ready) ?_
          rintro progress _ ⟨rfl, onward⟩
          cases progress with
          | failed errno => exact Returns.pure (by simp)
          | next state =>
              obtain ⟨place, advances, sound', samePending, ready'⟩ := onward state rfl
              obtain ⟨buffer', lrp_p', ppnn⟩ := state
              cases samePending
              exact (inductionHypothesis sound' ready').mono fun outcome _ holds buffer' isOk =>
                holdsEnd_cons noLinks advances (holds buffer' isOk)

end Loop

/-! ### The function -/

theorem startPlace_lead (cwd : Position CString) (pathname : CString) :
    (startPlace cwd pathname).lead = [slash] ↔ pathname.head? ≠ some slash ∧ cwd = [] := by
  rw [startPlace]
  split
  case isTrue absolute => exact iff_of_false (by simp) fun relative => relative.1 absolute
  case isFalse relative =>
    rw [and_iff_right relative]
    dsimp only
    split
    case isTrue atRoot => exact iff_of_true rfl atRoot
    case isFalse below => exact iff_of_false (by simp) below

/-- A working directory that is too deep for `getcwd`. -/
theorem startPath_refused {fs : FileSystem} {leftover : Stat} {process : Process}
    {pathname : CString} {buffer : List UInt8} (size : buffer.length = PATH_MAX)
    (relative : pathname.head? ≠ some slash) (long : PATH_MAX ≤ (canonical process.cwd).length) :
    startPath (treeKernel fs leftover) pathname buffer process = .ok (none, process) := by
  obtain ⟨slashed, buffer', isSlashed, isWritten, _⟩ := put_start size
  have refuses : (treeKernel fs leftover).getcwd PATH_MAX process = (none, process) :=
    if_neg (Nat.not_lt.mpr long)
  rw [startPath, put_bind isSlashed, put_bind isWritten, if_pos relative, call_bind _ refuses]
  rfl

theorem startPath_returns {fs : FileSystem} {leftover : Stat} {process : Process}
    {pathname : CString} {buffer : List UInt8} (size : buffer.length = PATH_MAX) {found : Tree}
    (cwdAt : fs.tree.at? process.cwd = some found) :
    Returns (startPath (treeKernel fs leftover) pathname buffer) process
      fun started process' => process' = process ∧ ∀ buffer' lrp_p,
        started = some (buffer', lrp_p) →
          Standing buffer' lrp_p (startPlace process.cwd pathname).lead
            (startPlace process.cwd pathname).position := by
  by_cases cwdFits : pathname.head? ≠ some slash → (canonical process.cwd).length < PATH_MAX
  · obtain ⟨buffer', lrp_p, started, standing⟩ := startPath_spec leftover size cwdFits cwdAt
    refine .of_ok started ⟨rfl, ?_⟩
    rintro _ _ ⟨⟩
    exact standing
  · obtain ⟨relative, long⟩ := Classical.not_imp.mp cwdFits
    exact .of_ok (startPath_refused size relative (Nat.not_lt.mp long)) ⟨rfl, by simp⟩

theorem myRealpath_holdsEnd {fs : FileSystem} {leftover : Stat} (noLinks : fs.NoLinks)
    {process : Process} {info : Inode} {entries : List (CString × Tree)}
    (cwdAt : fs.tree.at? process.cwd = some (.dir info entries)) {pathname : CString}
    (terminated : (0 : UInt8) ∉ pathname) {resolved_path allocated : Option (List UInt8)}
    {buffer : List UInt8} (given : resolved_path.or allocated = some buffer)
    (size : buffer.length = PATH_MAX) (fuel : Nat) :
    Returns (myRealpath (treeKernel fs leftover) fuel (some pathname) resolved_path allocated)
      process fun outcome _ => ∀ buffer', outcome = .ok buffer' →
        HoldsEnd fs (startPlace process.cwd pathname).lead
          (startPlace process.cwd pathname).position (startPlace process.cwd pathname).pending
          buffer' := by
  rw [myRealpath]
  refine Returns.ite (fun _ => Returns.pure (by simp)) fun _ => ?_
  rw [given]
  refine Returns.bind (startPath_returns size cwdAt) ?_
  rintro started process' ⟨same, standing⟩
  subst process'
  rcases started with _ | ⟨buffer', lrp_p⟩
  · exact Returns.pure (by simp)
  cases parsed : getPartPath (some pathname) with
  | none => exact .of_error rfl
  | some list =>
      have components : ∀ piece ∈ Pathname.pieces slash pathname, piece.length ≤ NAME_MAX :=
        partPathFrom_fits parsed
      have nodes : list.nodes = (startPlace process.cwd pathname).pending :=
        (getPartPath_ended parsed).1.trans (startPlace_pending _ _).symm
      have sound : Sound fs (startPlace process.cwd pathname) :=
        sound_startPlace cwdAt terminated components
      dsimp only
      rw [nodes]
      exact resolveComponents_returns noLinks fuel sound (.standing (standing _ _ rfl))

/-- For every tree without links, every working directory and pathname: the string
the function returns is in canonical form exactly if the pathname leads to the root,
or its walk neither starts over from the root as the working directory nor is back
at the root on the way. It does return one for every pathname that leads somewhere,
if all paths on the way fit. -/
theorem myRealpath_canonicalForm_iff (fs : FileSystem) (leftover : Stat) (noLinks : fs.NoLinks)
    (process : Process) (info : Inode) (entries : List (CString × Tree))
    (cwdAt : fs.tree.at? process.cwd = some (.dir info entries)) (pathname : CString)
    (terminated : (0 : UInt8) ∉ pathname)
    (resolved_path allocated : Option (List UInt8)) (buffer : List UInt8)
    (given : resolved_path.or allocated = some buffer) (size : buffer.length = PATH_MAX) :
    (∀ fuel buffer' process', myRealpath (treeKernel fs leftover) fuel (some pathname)
        resolved_path allocated process = .ok (.ok buffer', process') →
      (CanonicalForm (CBuffer.string 0 buffer') ↔
        fs.walk (FileSystem.origin process.cwd pathname) (Pathname.pieces slash pathname) =
          .ok [] ∨ ¬ StartsOver fs process.cwd pathname)) ∧
    ((∃ position, fs.walk (FileSystem.origin process.cwd pathname)
          (Pathname.pieces slash pathname) = .ok position) →
      pathname.length ≤ PATH_MAX →
      (∀ piece ∈ Pathname.pieces slash pathname, piece.length ≤ NAME_MAX) →
      (pathname.head? ≠ some slash → (canonical process.cwd).length < PATH_MAX) →
      IntermediatePathsFit fs (startPlace process.cwd pathname) →
      ∃ bound, ∀ fuel, bound ≤ fuel → ∃ buffer', myRealpath (treeKernel fs leftover) fuel
        (some pathname) resolved_path allocated process = .ok (.ok buffer', process)) := by
  constructor
  · intro fuel buffer' process' returned
    obtain ⟨lead, position, found, walked, located, isLead, slashIff, string⟩ :=
      myRealpath_holdsEnd noLinks cwdAt terminated given size fuel _ _ returned buffer' rfl
    rw [startPlace_position, startPlace_pending] at walked slashIff
    rw [string, canonicalForm_iff isLead (FileSystem.validName_of_mem located), walked,
      Except.ok.injEq, Ne, slashIff, startPlace_lead]
    rfl
  · rintro ⟨position, walked⟩ short components cwdFits fit
    obtain ⟨bound, runs⟩ := myRealpath_spec leftover noLinks.validTargets process cwdAt terminated
      short components cwdFits given size (noLinks.resolves process.cwd pathname)
      (fit.placeOk noLinks)
    refine ⟨bound, fun fuel enough => ?_⟩
    have run := runs fuel enough
    rw [walked] at run
    obtain ⟨buffer', _, ran, _⟩ := run
    exact ⟨buffer', ran⟩

/-- `"/d/../d"` -/
def upAndDown : CString := [47, 100, 47, 46, 46, 47, 100]

theorem myRealpath_canonicalForm_oneFile :
    ∃ bound, ∀ fuel, bound ≤ fuel → ∃ buffer',
      myRealpath (treeKernel oneFile ⟨⟨0, 0⟩, .other⟩) fuel (some onePathname)
        (some (List.replicate PATH_MAX 0)) none ⟨[], [], 0⟩ = .ok (.ok buffer', ⟨[], [], 0⟩) ∧
      CanonicalForm (CBuffer.string 0 buffer') := by
  obtain ⟨formIff, returns⟩ := myRealpath_canonicalForm_iff oneFile ⟨⟨0, 0⟩, .other⟩
    oneFile_noLinks ⟨[], [], 0⟩ _ _ rfl onePathname (by decide) (some (List.replicate PATH_MAX 0))
    none _ rfl List.length_replicate
  have notOver : ¬ StartsOver oneFile [] onePathname := by
    rintro (⟨relative, _⟩ | ⟨before, after, isNames, _⟩)
    · exact relative rfl
    · have member : dotDot ∈ Pathname.pieces slash onePathname := by
        rw [isNames]
        exact List.mem_append_right _ List.mem_cons_self
      exact absurd member (by decide)
  obtain ⟨bound, runs⟩ := returns ⟨[[102], [100]], by decide⟩ (by decide) (by decide)
    (fun relative => absurd rfl relative) oneFile_fit
  refine ⟨bound, fun fuel enough => ?_⟩
  obtain ⟨buffer', returned⟩ := runs fuel enough
  exact ⟨buffer', returned, (formIff fuel buffer' _ returned).mpr (.inr notOver)⟩

/-- `/d/../d` leads to `/d`, and the function returns `//d`. -/
theorem myRealpath_doubles_slash :
    oneFile.walk [] (Pathname.pieces slash upAndDown) = .ok [[100]] ∧
    ∃ buffer', myRealpath (treeKernel oneFile ⟨⟨0, 0⟩, .other⟩) 3 (some upAndDown)
        (some (List.replicate PATH_MAX 0)) none ⟨[], [], 0⟩ = .ok (.ok buffer', ⟨[], [], 0⟩) ∧
      CBuffer.string 0 buffer' = [slash, slash, 100] ∧
      ¬ CanonicalForm (CBuffer.string 0 buffer') := by
  refine ⟨by decide, ?_⟩
  obtain ⟨⟨result, process⟩, returned, ends⟩ := exists_of_map_ok
    (myRealpath (treeKernel oneFile ⟨⟨0, 0⟩, .other⟩) 3 (some upAndDown)
      (some (List.replicate PATH_MAX 0)) none ⟨[], [], 0⟩)
    (fun ended => (ended.1.map (CBuffer.string 0), ended.2))
    (.ok [slash, slash, 100], ⟨[], [], 0⟩) (by decide +kernel)
  obtain ⟨isString, rfl⟩ := Prod.mk.inj ends
  cases result with
  | error errno => cases isString
  | ok buffer' =>
      have string : CBuffer.string 0 buffer' = [slash, slash, 100] := Except.ok.inj isString
      exact ⟨buffer', returned, string, fun form => (string ▸ form).oneSlash.2 rfl⟩

end LinuxProgramming.Files
