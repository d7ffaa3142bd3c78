import Mathlib.Data.List.TakeWhile
import LinuxProgramming.Files.NftwChdir

/-!
Contract: walks of `my_nftw` that change to a directory and do not find it again from
there.

Owns:
- what one call does: its callbacks are for files at or below its pathname, and if it
  returns 0 the walk is back in the directory from which it was called;
- the callback such a walk owes and never makes.

Does not own: the walks on which `FTW_CHDIR` changes nothing.
-/

namespace LinuxProgramming.Files

open LinuxProgramming.Library

/-! ### Files at or below a pathname -/

/-- The pathname is `dirpath`, or one that a walk from `dirpath` builds. -/
def AtOrBelow (dirpath pathname : CString) : Prop :=
  pathname = dirpath ∨ dirpath ++ [slash] <+: pathname

theorem AtOrBelow.prefix_entry {dirpath name pathname : CString}
    (below : AtOrBelow (dirpath ++ slash :: name) pathname) :
    dirpath ++ slash :: name <+: pathname := by
  rcases below with rfl | ⟨rest, rfl⟩
  · exact List.prefix_rfl
  · exact ⟨slash :: rest, by simp⟩

theorem AtOrBelow.of_entry {dirpath name pathname : CString}
    (below : AtOrBelow (dirpath ++ slash :: name) pathname) : AtOrBelow dirpath pathname := by
  have start : dirpath ++ [slash] <+: dirpath ++ slash :: name := ⟨name, by simp⟩
  exact .inr (start.trans below.prefix_entry)

theorem AtOrBelow.ne_of_entry {dirpath name pathname : CString}
    (below : AtOrBelow (dirpath ++ slash :: name) pathname) : pathname ≠ dirpath := by
  rintro rfl
  have longer := below.prefix_entry.length_le
  rw [List.length_append, List.length_cons] at longer
  omega

/-- A file is below one entry of a directory. -/
theorem AtOrBelow.name_unique {dirpath name other pathname : CString} (plain : slash ∉ name)
    (otherPlain : slash ∉ other) (below : AtOrBelow (dirpath ++ slash :: name) pathname)
    (otherBelow : AtOrBelow (dirpath ++ slash :: other) pathname) : name = other := by
  have first {name : CString} (plain : slash ∉ name)
      (below : AtOrBelow (dirpath ++ slash :: name) pathname) :
      ∃ rest, pathname = dirpath ++ slash :: rest ∧ rest.takeWhile (· ≠ slash) = name := by
    have inName : ∀ byte ∈ name, decide (byte ≠ slash) = true := fun byte member =>
      decide_eq_true fun isSlash => plain (isSlash ▸ member)
    rcases below with rfl | ⟨rest, rfl⟩
    · exact ⟨name, rfl, List.takeWhile_eq_self_iff.mpr inName⟩
    · refine ⟨name ++ slash :: rest, by simp, ?_⟩
      rw [List.takeWhile_append_of_pos inName, List.takeWhile_cons_of_neg (by simp),
        List.append_nil]
  obtain ⟨rest, isPathname, isName⟩ := first plain below
  obtain ⟨rest', isPathname', isOther⟩ := first otherPlain otherBelow
  have same : rest = rest' := by
    rw [isPathname] at isPathname'
    exact List.tail_eq_of_cons_eq (List.append_cancel_left isPathname')
  rw [← isName, ← isOther, same]

/-! ### The way back -/

/-- The process is where it was, with the descriptors it had. -/
structure Home (before after : Process) : Prop where
  cwd : after.cwd = before.cwd
  descriptors : before.descriptors <+: after.descriptors

theorem Home.refl (process : Process) : Home process process := ⟨rfl, List.prefix_rfl⟩

theorem Home.trans {before between after : Process} (first : Home before between)
    (second : Home between after) : Home before after :=
  ⟨second.cwd.trans first.cwd, first.descriptors.trans second.descriptors⟩

/-- A part of a walk that is whole goes back. -/
structure Stretch (good : Visit → Prop) (whole : Prop) (before after : Walk Process) : Prop where
  adds : Adds good before after
  home : whole → Home before.world after.world

namespace Stretch

variable {good : Visit → Prop} {whole whole' : Prop} {before between after : Walk Process}

theorem of_same (same : after.visits = before.visits) (home : Home before.world after.world) :
    Stretch good whole before after := ⟨.of_same same, fun _ => home⟩

theorem trans (first : Stretch good True before between)
    (second : Stretch good whole between after) : Stretch good whole before after :=
  ⟨first.adds.trans second.adds, fun holds => (first.home trivial).trans (second.home holds)⟩

theorem imp (stretch : Stretch good whole before after) (weaker : whole' → whole) :
    Stretch good whole' before after := ⟨stretch.adds, fun holds => stretch.home (weaker holds)⟩

theorem mono {good' : Visit → Prop} (stretch : Stretch good whole before after)
    (weaker : ∀ visit, good visit → good' visit) : Stretch good' whole before after :=
  ⟨stretch.adds.mono weaker, stretch.home⟩

end Stretch

/-! ### The loop over the entries -/

section Loop

variable {fs : FileSystem} {leftover : Stat} {flags : Flags} {here : Position CString}
  {dirpath pathname : CString} {good : Visit → Prop}

/-- Where the walk is during the call for a pathname. -/
def goesTo (fs : FileSystem) (flags : Flags) (here : Position CString) (pathname : CString) :
    Position CString :=
  if flags.FTW_CHDIR = true then inside fs flags here here pathname else here

theorem goesTo_hasDir (hasDir : fs.HasDir here) (flags : Flags) (pathname : CString) :
    fs.HasDir (goesTo fs flags here pathname) := by
  rw [goesTo]
  split
  · rcases inside_cases fs flags here here pathname with
      ⟨below, info, entries, sees, isInside⟩ | ⟨isHere, _⟩
    · rw [isInside]
      exact ⟨info, entries, FileSystem.at?_of_find sees⟩
    · rw [isHere]
      exact hasDir
  · exact hasDir

/-- The walk does not get into the entry, or is where the call for it expects it. -/
theorem enter_goesTo (leftover : Stat) (pathname : CString) {walk : Walk Process}
    (isHere : walk.world.cwd = here) (hasDir : fs.HasDir here) :
    ∃ entering inner, onWorld (enter (treeKernel fs leftover) flags pathname
        (statusOf fs leftover (!flags.FTW_PHYS) here pathname)) walk = .ok (entering, inner) ∧
      (entering = .failed ∧ inner.visits = walk.visits ∨
        GoesInto here (goesTo fs flags here pathname) walk inner entering) := by
  obtain ⟨info, entries, hereAt⟩ := hasDir
  obtain ⟨phys, depth, mount, chdir⟩ := flags
  cases chdir with
  | false =>
      have stays : enter (treeKernel fs leftover) ⟨phys, depth, mount, false⟩ pathname
          (statusOf fs leftover (!phys) here pathname) walk.world = .ok (.stayed, walk.world) :=
        enter_stays ⟨phys, depth, mount, false⟩ pathname _ _
      exact ⟨_, _, onWorld_ok walk stays, .inr (.stays rfl rfl)⟩
  | true =>
      by_cases recorded : ∀ below innerInfo innerEntries,
          seen fs ⟨phys, depth, mount, true⟩ here pathname =
            .ok (below, .dir innerInfo innerEntries) → (canonical here).length < PATH_MAX
      · obtain ⟨entering, inner, enters, goesInto⟩ := enter_goesInto leftover walk hereAt isHere
          (fun _ => rfl) recorded
        exact ⟨entering, inner, enters, .inr goesInto⟩
      · push Not at recorded
        obtain ⟨below, innerInfo, innerEntries, sees, long⟩ := recorded
        refine ⟨.failed, walk, onWorld_ok walk ?_, .inl ⟨rfl, rfl⟩⟩
        have refuses : (treeKernel fs leftover).getcwd PATH_MAX walk.world =
            (none, walk.world) := if_neg (by rw [isHere]; omega)
        rw [status_of_seen sees, enter, if_pos ⟨rfl, rfl, rfl⟩, call_bind _ refuses]
        rfl

theorem GoesInto.cwd {below : Position CString} {raised inner : Walk Process}
    {entering : Entering} (goesInto : GoesInto here below raised inner entering)
    (isHere : raised.world.cwd = here) : inner.world.cwd = below := by
  cases goesInto with
  | stays same sameWalk => rw [sameWalk, isHere, same]
  | moves isMoved => rw [isMoved]

theorem GoesInto.visits {below : Position CString} {raised inner : Walk Process}
    {entering : Entering} (goesInto : GoesInto here below raised inner entering) :
    inner.visits = raised.visits := by
  cases goesInto with
  | stays same sameWalk => rw [sameWalk]
  | moves isMoved => rw [isMoved]

/-- The call for one entry, and the way back if it returns 0. -/
theorem entry_stretch {α : Type} {below : Position CString} {raised inner : Walk Process}
    {entering : Entering} {self : Prog (Walk Process) Int} {done : List Visit → Prop}
    {next : Int → Bool → Prog (Walk Process) α} {post : α → Walk Process → Prop}
    (goesInto : GoesInto here below raised inner entering) (isHere : raised.world.cwd = here)
    (calls : Returns self inner fun retval after =>
      Stretch good (retval = 0) inner after ∧ (retval = 0 → done after.visits))
    (goesOn : ∀ after, Stretch good True raised after → done after.visits →
      Returns (next 0 true) after post)
    (ends : ∀ retval left after, retval ≠ 0 → Adds good raised after →
      Returns (next retval left) after post) :
    Returns
      (do
        let retval ← self
        setLevel (· - 1)
        let left ← onWorld (leave (treeKernel fs leftover) entering)
        next retval left) inner post := by
  refine .bind calls fun retval outside called => ?_
  obtain ⟨stretch, isDone⟩ := called
  refine .through (fun _ lowered => lowered = { outside with level := outside.level - 1 })
    (.of_ok rfl rfl) fun _ lowered isLowered => ?_
  have adds : Adds good raised lowered := by
    rw [isLowered]
    exact (Adds.of_same goesInto.visits).trans stretch.adds
  by_cases zero : retval = 0
  · obtain ⟨cwd, descriptors⟩ := stretch.home zero
    obtain ⟨world, leaves, back, kept⟩ := leave_goesBack fs leftover lowered goesInto
      (by rw [isLowered]; exact cwd.trans (goesInto.cwd isHere)) (by rw [isLowered]; exact descriptors)
    refine .of_eq (bind_ok leaves) ?_
    rw [zero]
    refine goesOn _ ⟨adds, fun _ => ⟨back.trans isHere.symm, kept⟩⟩ ?_
    rw [isLowered]
    exact isDone zero
  · exact .bind (onWorld_adds _ lowered) fun left after leaves =>
      ends retval left after zero (adds.trans leaves)

/-- What the loop does: if it uses up its stream, the walk is back and the entries are
done, and otherwise it does not return 0. -/
def LoopStretch {S : Type} (good : Visit → Prop) (done : List Visit → Prop)
    (before : Walk Process) (ended : LoopEnd S) (after : Walk Process) : Prop :=
  match ended with
  | .finished _ => Stretch good True before after ∧ done after.visits
  | .returned retval => retval ≠ 0 ∧ Adds good before after

/-- Each entry of the stream is done. -/
def AllDone (done : CString → List Visit → Prop) (names : List CString) (visits : List Visit) :
    Prop :=
  ∀ name ∈ names, name ≠ dotDot → name ≠ dot → done name visits

theorem AllDone.grow {done : CString → List Visit → Prop}
    (grows : ∀ name visits more, done name visits → done name (visits ++ more))
    {names : List CString} {before after : Walk Process} (adds : Adds good before after)
    (allDone : AllDone done names before.visits) : AllDone done names after.visits := by
  obtain ⟨made, visits, _⟩ := adds
  rw [visits]
  exact fun name member notDotDot notDot =>
    grows name _ made (allDone name member notDotDot notDot)

/-- The induction is on the fuel. -/
theorem readEntries_stretch {done : CString → List Visit → Prop}
    (grows : ∀ name visits more, done name visits → done name (visits ++ more))
    {self : CString → Prog (Walk Process) Int} (hasDir : fs.HasDir here) (fuel : Nat)
    {names : List CString} {walk : Walk Process} (isHere : walk.world.cwd = here)
    (calls : ∀ name ∈ names, name ≠ dotDot → name ≠ dot → ∀ inner : Walk Process,
      inner.world.cwd = goesTo fs flags here (dirpath ++ slash :: name) →
      Returns (self (dirpath ++ slash :: name)) inner fun retval after =>
        Stretch good (retval = 0) inner after ∧ (retval = 0 → done name after.visits)) :
    Returns (readEntries (treeKernel fs leftover) flags self dirpath fuel names) walk
      (LoopStretch good (AllDone done names) walk) := by
  induction fuel generalizing names walk with
  | zero => exact .of_error rfl
  | succ fuel inductionHypothesis =>
      cases names with
      | nil => exact .of_ok rfl ⟨.of_same rfl (.refl _), by simp [AllDone]⟩
      | cons name names =>
          have onward {between : Walk Process} (stretch : Stretch good True walk between)
              (isDone : name ≠ dotDot → name ≠ dot → done name between.visits) :
              Returns (readEntries (treeKernel fs leftover) flags self dirpath fuel names)
                between (LoopStretch good (AllDone done (name :: names)) walk) := by
            refine (inductionHypothesis ((stretch.home trivial).cwd.trans isHere)
              fun other member => calls other (List.mem_cons_of_mem _ member)).mono
                fun ended after rest => ?_
            cases ended with
            | returned retval => exact ⟨rest.1, stretch.adds.trans rest.2⟩
            | finished dir_p =>
                refine ⟨stretch.trans rest.1, fun other member => ?_⟩
                rcases List.mem_cons.mp member with rfl | member
                · obtain ⟨made, visits, _⟩ := rest.1.adds
                  rw [visits]
                  exact fun notDotDot notDot => grows _ _ made (isDone notDotDot notDot)
                · exact rest.2 other member
          have read : onWorld (call ((treeKernel fs leftover).readdir (name :: names))) walk =
              .ok (.entry name names, walk) := rfl
          rw [readEntries]
          refine .of_eq (bind_ok read) ?_
          dsimp only
          refine .ite (fun isDots => onward (.of_same rfl (.refl _)) ?_) fun isEntry => ?_
          · exact fun notDotDot notDot => absurd isDots (not_or.mpr ⟨notDotDot, notDot⟩)
          rw [not_or] at isEntry
          refine .ite (fun _ => .of_error rfl) fun _ => ?_
          refine .through (fun _ raised => raised = { walk with level := walk.level + 1 })
            (.of_ok rfl rfl) fun _ raised isRaised => ?_
          have raisedHere : raised.world.cwd = here := by rw [isRaised]; exact isHere
          have raises : Stretch good True walk raised := by
            rw [isRaised]
            exact .of_same rfl (.refl _)
          refine .of_eq (bind_ok (onWorld_statEntry fs leftover flags _ raised)) ?_
          rw [raisedHere]
          obtain ⟨entering, inner, enters, goesInto⟩ :=
            enter_goesTo leftover (dirpath ++ slash :: name) raisedHere hasDir
          refine .of_eq (bind_ok enters) ?_
          rcases goesInto with ⟨failed, visits⟩ | goesInto
          · rw [if_pos failed]
            exact .pure ⟨by decide, raises.adds.trans (.of_same visits)⟩
          rw [if_neg goesInto.not_failed]
          refine entry_stretch goesInto raisedHere
            (calls name List.mem_cons_self isEntry.1 isEntry.2 inner (goesInto.cwd raisedHere))
            (fun after stretch isDone => ?_) fun retval left after nonzero adds => ?_
          · rw [if_neg (by simp), if_neg (by simp)]
            exact onward (raises.trans stretch) fun _ _ => isDone
          · have added : Adds good walk after := raises.adds.trans adds
            refine .ite (fun _ => .pure ⟨by decide, added⟩) fun _ =>
              .ite (fun _ => ?_) fun zero => absurd (not_not.mp zero) nonzero
            exact .bind (onWorld_adds _ after) fun _ _ closes =>
              .pure ⟨nonzero, added.trans closes⟩

end Loop

/-! ### One call -/

section Call

variable {fs : FileSystem} {leftover : Stat} {flags : Flags} {func : Func}
  {here : Position CString} {dirpath : CString} {good : Visit → Prop}

theorem callWhen_stretch (now : Bool) {visit : Visit} (isGood : good visit)
    (walk : Walk Process) :
    Returns (callWhen func now visit) walk fun _ after =>
      Stretch good True walk after ∧ (now = true → visit ∈ after.visits) := by
  cases now with
  | false => exact .pure ⟨.of_same rfl (.refl _), by simp⟩
  | true =>
      refine .of_ok rfl ⟨⟨?_, fun _ => .refl _⟩, fun _ => List.mem_concat_self⟩
      exact ⟨[visit], rfl, fun _ member => List.mem_singleton.mp member ▸ isGood⟩

theorem closedir_stretch (dir_p : Option (List CString)) (walk : Walk Process) :
    Returns (onWorld (call ((treeKernel fs leftover).closedir dir_p))) walk fun _ after =>
      Stretch good True walk after := by
  cases dir_p with
  | none => exact .of_ok rfl (.of_same rfl (.refl _))
  | some stream => exact .of_ok rfl (.of_same rfl ⟨rfl, List.prefix_rfl⟩)

theorem visitFile_stretch (statbuf : Stat) {visit : TypeFlag → Visit}
    (isGood : ∀ typeflag, typeflag ≠ .FTW_D → good (visit typeflag)) (walk : Walk Process) :
    Returns (visitFile (treeKernel fs leftover) flags func dirpath statbuf visit) walk
      fun _ after => Stretch good True walk after := by
  have called (typeflag : TypeFlag) (other : typeflag ≠ .FTW_D) :
      Returns (callFunc func (visit typeflag) >>= fun _ => (pure 0 : Prog (Walk Process) Int))
        walk fun _ after => Stretch good True walk after :=
    .bind (callWhen_stretch true (isGood typeflag other) walk) fun _ _ calls => .pure calls.1
  rw [visitFile]
  refine .ite (fun _ => ?_) fun _ => called _ (by decide)
  refine .of_eq (bind_ok (onWorld_ok walk (congrArg Except.ok (stat_eq ..)))) ?_
  split
  · exact .ite (fun _ => called _ (by decide)) fun _ => .pure (.of_same rfl (.refl _))
  · exact called _ (by decide)

/-- A directory that is opened: if the call returns 0, it has been reported and every
entry is done. -/
theorem visitDirectory_stretch {done : CString → List Visit → Prop}
    (grows : ∀ name visits more, done name visits → done name (visits ++ more))
    {self : CString → Prog (Walk Process) Int} (hasDir : fs.HasDir here) (fuel : Nat)
    {position : Position CString} {info : Inode} {entries : List (CString × Tree)}
    (finds : fs.find true here dirpath = .ok (position, .dir info entries))
    {visit : TypeFlag → Visit} (isGood : good (visit .FTW_D)) {walk : Walk Process}
    (isHere : walk.world.cwd = here)
    (calls : ∀ name ∈ fs.order position, name ≠ dotDot → name ≠ dot → ∀ inner : Walk Process,
      inner.world.cwd = goesTo fs flags here (dirpath ++ slash :: name) →
      Returns (self (dirpath ++ slash :: name)) inner fun retval after =>
        Stretch good (retval = 0) inner after ∧ (retval = 0 → done name after.visits)) :
    Returns (visitDirectory (treeKernel fs leftover) flags func self fuel dirpath visit) walk
      fun retval after => Stretch good (retval = 0) walk after ∧ (retval = 0 →
        visit .FTW_D ∈ after.visits ∧ AllDone done (fs.order position) after.visits) := by
  have opens : (treeKernel fs leftover).opendir dirpath walk.world = _ :=
    treeKernel_opendir (isHere.symm ▸ finds)
  rw [visitDirectory]
  refine .of_eq (bind_ok (onWorld_ok walk (congrArg Except.ok opens))) ?_
  rw [if_neg (show ¬ (some (fs.order position)).isNone = true by simp)]
  refine .bind (callWhen_stretch _ isGood _) fun func_retval called ran => ?_
  obtain ⟨calledFirst, reportedFirst⟩ := ran
  have opened : Stretch good True walk
      { walk with world := { walk.world with streams := walk.world.streams + 1 } } :=
    .of_same rfl ⟨rfl, List.prefix_rfl⟩
  have start : Stretch good True walk called := opened.trans calledFirst
  refine .ite (fun stops => ?_) fun _ => ?_
  · exact .bind (closedir_stretch _ called) fun _ _ closes =>
      .pure ⟨(start.trans closes).imp fun _ => trivial, fun zero => absurd zero stops⟩
  rw [readDirectory, bind_assoc]
  refine .bind (readEntries_stretch grows hasDir fuel
    ((start.home trivial).cwd.trans isHere) calls) fun ended read loop => ?_
  rw [pure_bind]
  cases ended with
  | returned retval =>
      exact .pure ⟨⟨start.adds.trans loop.2, fun zero => absurd zero loop.1⟩,
        fun zero => absurd zero loop.1⟩
  | finished dir_p =>
      obtain ⟨looped, allDone⟩ := loop
      refine .bind (callWhen_stretch _ isGood _) fun func_retval final ran => ?_
      obtain ⟨calledLast, reportedLast⟩ := ran
      have before : Stretch good True walk final := start.trans (looped.trans calledLast)
      refine .ite (fun stops => ?_) fun _ => ?_
      · exact .bind (closedir_stretch _ final) fun _ _ closes =>
          .pure ⟨(before.trans closes).imp fun _ => trivial, fun zero => absurd zero stops⟩
      · refine .bind (closedir_stretch _ final) fun closed after closes =>
          .pure ⟨(before.trans closes).imp fun _ => trivial, fun _ => ⟨?_, ?_⟩⟩
        · cases order : flags.FTW_DEPTH with
          | true => exact closes.adds.mem (reportedLast order)
          | false =>
              have reported := reportedFirst (by rw [order]; rfl)
              exact closes.adds.mem (calledLast.adds.mem (looped.adds.mem reported))
        · exact allDone.grow grows (calledLast.adds.trans closes.adds)

variable (good) in
/-- One call: what holds of the callbacks of the entries' calls, and of its own, holds of
all. If it returns 0 for a directory, the directory is reported and its entries are
done. -/
theorem myNftw_stretch (done : CString → List Visit → Prop)
    (grows : ∀ name visits more, done name visits → done name (visits ++ more))
    (hasDir : fs.HasDir here) (fuel : Nat) {walk : Walk Process} (isHere : walk.world.cwd = here)
    (other : ∀ visit : Visit, visit.pathname = dirpath → visit.typeflag ≠ .FTW_D → good visit)
    (own : ∀ visit : Visit, visit.pathname = dirpath → ∀ position info entries,
      seen fs flags here dirpath = .ok (position, .dir info entries) → good visit)
    (calls : ∀ position info entries,
      seen fs flags here dirpath = .ok (position, .dir info entries) →
      ∀ name ∈ fs.order position, name ≠ dotDot → name ≠ dot → ∀ inner : Walk Process,
      inner.world.cwd = goesTo fs flags here (dirpath ++ slash :: name) →
      Returns (myNftw (treeKernel fs leftover) flags func fuel (dirpath ++ slash :: name)) inner
        fun retval after =>
          Stretch good (retval = 0) inner after ∧ (retval = 0 → done name after.visits)) :
    Returns (myNftw (treeKernel fs leftover) flags func (fuel + 1) dirpath) walk
      fun retval after => Stretch good (retval = 0) walk after ∧
        (retval = 0 → flags.FTW_MOUNT = false → ∀ position info entries,
          seen fs flags here dirpath = .ok (position, .dir info entries) →
          (∃ visit ∈ after.visits, visit.pathname = dirpath ∧ visit.typeflag = .FTW_D) ∧
          AllDone done (fs.order position) after.visits) := by
  rw [myNftw]
  have levelled : (getLevel : Prog (Walk Process) Nat) walk = .ok (walk.level, walk) := rfl
  refine .of_eq (bind_ok levelled) (.of_eq (bind_ok (onWorld_statEntry fs leftover flags _ walk)) ?_)
  rw [isHere]
  generalize isStatus : statusOf fs leftover (!flags.FTW_PHYS) here dirpath = status
  refine .through (fun _ recorded => Stretch good True walk recorded ∧ recorded.world = walk.world)
    (.of_ok rfl ⟨.of_same rfl (.refl _), rfl⟩) fun devno recorded records => ?_
  obtain ⟨records, sameWorld⟩ := records
  refine .ite (fun left => ?_) fun _ => ?_
  · refine .pure ⟨records.imp fun _ => trivial, fun _ noMount => ?_⟩
    rw [noMount] at left
    exact absurd left.1 (by simp)
  have notDirectory (retval : Int) {after : Walk Process} (stretch : Stretch good True recorded after)
      (unseen : ¬ (status.1 = none ∧ status.2.st_mode = .directory)) :
      Stretch good (retval = 0) walk after ∧ (retval = 0 → flags.FTW_MOUNT = false →
        ∀ position info entries, seen fs flags here dirpath = .ok (position, .dir info entries) →
        (∃ visit ∈ after.visits, visit.pathname = dirpath ∧ visit.typeflag = .FTW_D) ∧
        AllDone done (fs.order position) after.visits) := by
    refine ⟨(records.trans stretch).imp fun _ => trivial, fun _ _ position info entries sees => ?_⟩
    rw [← isStatus, status_of_seen sees] at unseen
    exact absurd ⟨rfl, rfl⟩ unseen
  refine .ite (fun readable => .ite (fun isDirectory => ?_) fun notDir => ?_) fun unreadable => ?_
  · obtain ⟨position, found, sees, isStat⟩ := seen_of_status isStatus readable
    obtain ⟨info, entries, rfl⟩ := dir_of_mode (isStat ▸ isDirectory)
    refine (visitDirectory_stretch grows hasDir fuel (FileSystem.find_follow sees rfl)
      (own _ rfl position info entries sees) (sameWorld ▸ isHere)
      (calls position info entries sees)).mono fun retval after visited => ?_
    refine ⟨records.trans visited.1, fun zero _ position' info' entries' sees' => ?_⟩
    rw [sees] at sees'
    cases sees'
    exact ⟨⟨_, (visited.2 zero).1, rfl, rfl⟩, (visited.2 zero).2⟩
  · exact (visitFile_stretch status.2 (fun typeflag different => other _ rfl different)
      recorded).mono fun retval _ stretch => notDirectory retval stretch fun both => notDir both.2
  · exact .bind (callWhen_stretch true (other _ rfl (show TypeFlag.FTW_NS ≠ .FTW_D by decide))
      recorded) fun _ _ calls => .pure (notDirectory 0 calls.1 fun both => unreadable both.1)

end Call

/-! ### Whole walks -/

section Walks

variable {fs : FileSystem} {leftover : Stat} {flags : Flags} {func : Func}
  {cwd here : Position CString} {start dirpath name target : CString}

/-- A call makes callbacks for files at or below its pathname only. -/
theorem myNftw_atOrBelow (fuel : Nat) {walk : Walk Process} (hasDir : fs.HasDir walk.world.cwd) :
    Returns (myNftw (treeKernel fs leftover) flags func fuel dirpath) walk fun retval after =>
      Stretch (fun visit => AtOrBelow dirpath visit.pathname) (retval = 0) walk after := by
  induction fuel generalizing dirpath walk with
  | zero => exact .of_error rfl
  | succ fuel inductionHypothesis =>
      refine (myNftw_stretch _ (fun _ _ => True) (fun _ _ _ => id) hasDir fuel rfl
        (fun _ same _ => .inl same) (fun _ same _ _ _ _ => .inl same) ?_).mono
          fun _ _ called => called.1
      intro position info entries sees name member notDotDot notDot inner isInner
      have innerDir : fs.HasDir inner.world.cwd := isInner ▸ goesTo_hasDir hasDir flags _
      refine (inductionHypothesis innerDir).mono fun retval after stretch => ?_
      exact ⟨stretch.mono fun visit below => below.of_entry, fun _ => trivial⟩

variable (fs leftover flags func) in
/-- A call for `dirpath` from there never reports `target` as a directory. -/
def Misses (here : Position CString) (dirpath target : CString) : Prop :=
  ∀ fuel walk, walk.world.cwd = here →
    Returns (myNftw (treeKernel fs leftover) flags func fuel dirpath) walk fun retval after =>
      Stretch (fun visit => ¬ (visit.pathname = target ∧ visit.typeflag = .FTW_D)) (retval = 0)
        walk after

/-- It is no directory from there. -/
theorem Misses.of_seen (hasDir : fs.HasDir here)
    (noDir : ∀ position info entries, seen fs flags here target ≠ .ok (position, .dir info entries)) :
    Misses fs leftover flags func here target target := by
  intro fuel walk isHere
  cases fuel with
  | zero => exact .of_error rfl
  | succ fuel =>
      refine (myNftw_stretch (fun visit => ¬ (visit.pathname = target ∧ visit.typeflag = .FTW_D))
        (fun _ _ => True) (fun _ _ _ => id) hasDir fuel isHere (fun _ _ other both => other both.2)
        (fun _ _ _ _ _ sees => absurd sees (noDir _ _ _)) ?_).mono fun _ _ called => called.1
      exact fun _ _ _ sees => absurd sees (noDir _ _ _)

/-- It is missed in the directory if it is missed from where the walk goes for the one
entry that it is below. -/
theorem Misses.of_entry (hasDir : fs.HasDir here) (plain : slash ∉ name)
    (below : AtOrBelow (dirpath ++ slash :: name) target)
    (misses : Misses fs leftover flags func (goesTo fs flags here (dirpath ++ slash :: name))
      (dirpath ++ slash :: name) target) :
    Misses fs leftover flags func here dirpath target := by
  intro fuel walk isHere
  cases fuel with
  | zero => exact .of_error rfl
  | succ fuel =>
      have other (visit : Visit) (same : visit.pathname = dirpath) :
          ¬ (visit.pathname = target ∧ visit.typeflag = .FTW_D) := by
        rintro ⟨isTarget, _⟩
        exact below.ne_of_entry (isTarget.symm.trans same)
      refine (myNftw_stretch (fun visit => ¬ (visit.pathname = target ∧ visit.typeflag = .FTW_D))
        (fun _ _ => True) (fun _ _ _ => id) hasDir fuel isHere (fun visit same _ => other visit same)
        (fun visit same _ _ _ _ => other visit same) ?_).mono fun _ _ called => called.1
      intro position info entries sees entry member notDotDot notDot inner isInner
      by_cases same : entry = name
      · subst same
        exact (misses fuel inner isInner).mono fun _ _ stretch => ⟨stretch, fun _ => trivial⟩
      · have innerDir : fs.HasDir inner.world.cwd := isInner ▸ goesTo_hasDir hasDir flags _
        refine (myNftw_atOrBelow fuel innerDir).mono fun _ _ stretch => ⟨?_, fun _ => trivial⟩
        refine stretch.mono fun visit atEntry both => same ?_
        rw [both.1] at atEntry
        have located := FileSystem.at?_of_find sees
        have named : entry ∈ entries.map Prod.fst :=
          (fs.mem_names_iff located).mpr ⟨member, notDot, notDotDot⟩
        exact AtOrBelow.name_unique (fs.validName located named).noSlash plain atEntry below

variable (fs leftover flags func) in
/-- A call for `dirpath` from there that returns 0 has reported `target` as a directory. -/
def Reports (here : Position CString) (dirpath target : CString) : Prop :=
  ∀ fuel walk, walk.world.cwd = here →
    Returns (myNftw (treeKernel fs leftover) flags func fuel dirpath) walk fun retval after =>
      retval = 0 → ∃ visit ∈ after.visits, visit.pathname = target ∧ visit.typeflag = .FTW_D

/-- It is a directory from there. -/
theorem Reports.of_seen (noMount : flags.FTW_MOUNT = false) (hasDir : fs.HasDir here)
    {position : Position CString} {info : Inode} {entries : List (CString × Tree)}
    (sees : seen fs flags here target = .ok (position, .dir info entries)) :
    Reports fs leftover flags func here target target := by
  intro fuel walk isHere
  cases fuel with
  | zero => exact .of_error rfl
  | succ fuel =>
      refine (myNftw_stretch (fun _ => True) (fun _ _ => True) (fun _ _ _ => id) hasDir fuel isHere
        (fun _ _ _ => trivial) (fun _ _ _ _ _ _ => trivial) ?_).mono
          fun _ _ called zero => (called.2 zero noMount _ _ _ sees).1
      intro _ _ _ _ name _ _ _ inner isInner
      have innerDir : fs.HasDir inner.world.cwd := isInner ▸ goesTo_hasDir hasDir flags _
      exact (myNftw_atOrBelow fuel innerDir).mono fun _ _ stretch =>
        ⟨stretch.mono fun _ _ => trivial, fun _ => trivial⟩

/-- It is reported by the call for the directory if it is by the call for an entry. -/
theorem Reports.of_entry (noMount : flags.FTW_MOUNT = false) (hasDir : fs.HasDir here)
    {position : Position CString} {info : Inode} {entries : List (CString × Tree)}
    (sees : seen fs flags here dirpath = .ok (position, .dir info entries))
    (member : name ∈ entries.map Prod.fst)
    (reports : Reports fs leftover flags func (goesTo fs flags here (dirpath ++ slash :: name))
      (dirpath ++ slash :: name) target) :
    Reports fs leftover flags func here dirpath target := by
  intro fuel walk isHere
  cases fuel with
  | zero => exact .of_error rfl
  | succ fuel =>
      have delivered := (fs.mem_names_iff (FileSystem.at?_of_find sees)).mp member
      refine (myNftw_stretch (fun _ => True) (fun entry visits => entry = name →
          ∃ visit ∈ visits, visit.pathname = target ∧ visit.typeflag = .FTW_D) ?_ hasDir fuel
        isHere (fun _ _ _ => trivial) (fun _ _ _ _ _ _ => trivial) ?_).mono
          fun _ _ called zero => (called.2 zero noMount _ _ _ sees).2 name delivered.1
            delivered.2.2 delivered.2.1 rfl
      · intro entry visits more reported same
        obtain ⟨visit, isMember, isTarget⟩ := reported same
        exact ⟨visit, List.mem_append_left more isMember, isTarget⟩
      intro _ _ _ _ entry _ _ _ inner isInner
      have innerDir : fs.HasDir inner.world.cwd := isInner ▸ goesTo_hasDir hasDir flags _
      have adds : Returns (myNftw (treeKernel fs leftover) flags func fuel
          (dirpath ++ slash :: entry)) inner fun retval after =>
            Stretch (fun _ => True) (retval = 0) inner after :=
        (myNftw_atOrBelow fuel innerDir).mono fun _ _ stretch => stretch.mono fun _ _ => trivial
      by_cases same : entry = name
      · subst same
        exact (adds.and (reports fuel inner isInner)).mono fun _ _ both =>
          ⟨both.1, fun zero _ => both.2 zero⟩
      · exact adds.mono fun _ _ stretch => ⟨stretch, fun _ isName => absurd isName same⟩

end Walks

/-! ### Directories that are not found again -/

section Astray

variable (fs : FileSystem) (flags : Flags) (cwd : Position CString) (start : CString)

/-- The directories of the walk that stays, with the working directory in which the
walk that moves calls for them. -/
inductive CalledFrom : CString → Position CString → Prop where
  | start : CalledFrom start cwd
  | entry {dirpath here position info entries name} :
      CalledFrom dirpath here → seen fs flags cwd dirpath = .ok (position, .dir info entries) →
      name ∈ entries.map Prod.fst →
      CalledFrom (dirpath ++ slash :: name)
        (goesTo fs flags.moving here (dirpath ++ slash :: name))

/-- A pathname leads to a directory from the caller's working directory, and to none
from where the walk has gone. -/
def Astray (pathname : CString) : Prop :=
  ∃ here, CalledFrom fs flags cwd start pathname here ∧
    (∃ position info entries, seen fs flags cwd pathname = .ok (position, .dir info entries)) ∧
    ∀ position info entries, seen fs flags here pathname ≠ .ok (position, .dir info entries)

variable {fs flags cwd start} {leftover : Stat} {func : Func} {dirpath here target : CString}
  {here : Position CString}

theorem CalledFrom.hasDir (hasDir : fs.HasDir cwd)
    (called : CalledFrom fs flags cwd start dirpath here) : fs.HasDir here := by
  induction called with
  | start => exact hasDir
  | entry _ _ _ inductionHypothesis => exact goesTo_hasDir inductionHypothesis _ _

/-- What a call made by the walk that moves misses, the whole walk misses. -/
theorem CalledFrom.misses (hasDir : fs.HasDir cwd)
    (called : CalledFrom fs flags cwd start dirpath here) (below : AtOrBelow dirpath target)
    (misses : Misses fs leftover flags.moving func here dirpath target) :
    Misses fs leftover flags.moving func cwd start target := by
  induction called with
  | start => exact misses
  | entry above sees member inductionHypothesis =>
      have plain := (fs.validName (FileSystem.at?_of_find sees) member).noSlash
      exact inductionHypothesis below.of_entry (misses.of_entry (above.hasDir hasDir) plain below)

/-- What a call made by the walk that stays reports, the whole walk reports. -/
theorem CalledFrom.reports (noMount : flags.FTW_MOUNT = false) (hasDir : fs.HasDir cwd)
    (called : CalledFrom fs flags cwd start dirpath here)
    (reports : Reports fs leftover flags.staying func cwd dirpath target) :
    Reports fs leftover flags.staying func cwd start target := by
  induction called with
  | start => exact reports
  | entry above sees member inductionHypothesis =>
      exact inductionHypothesis (reports.of_entry noMount hasDir sees member)

/-- A walk that goes astray does not visit what the walk that stays does, if that one
comes to its end. -/
theorem Astray.visits_differ (noMount : flags.FTW_MOUNT = false) {process : Process} {devno : Nat}
    (hasDir : fs.HasDir process.cwd) (astray : Astray fs flags process.cwd start target) {fuel : Nat}
    {after : Walk Process}
    (ends : myNftw (treeKernel fs leftover) flags.staying func fuel start ⟨process, 0, devno, []⟩ =
      .ok (0, after)) :
    visited (myNftw (treeKernel fs leftover) flags.moving func fuel start
      ⟨process, 0, devno, []⟩) ≠
    visited (myNftw (treeKernel fs leftover) flags.staying func fuel start
      ⟨process, 0, devno, []⟩) := by
  obtain ⟨here, called, ⟨position, info, entries, sees⟩, noDir⟩ := astray
  have misses : Misses fs leftover flags.moving func process.cwd start target :=
    called.misses hasDir (.inl rfl) (.of_seen (called.hasDir hasDir) noDir)
  have reports : Reports fs leftover flags.staying func process.cwd start target :=
    called.reports noMount hasDir (.of_seen noMount hasDir sees)
  obtain ⟨visit, reported, isTarget⟩ := reports fuel _ rfl 0 after ends rfl
  intro same
  cases moves : myNftw (treeKernel fs leftover) flags.moving func fuel start
      ⟨process, 0, devno, []⟩ with
  | error reason =>
      rw [moves, ends] at same
      cases same
  | ok returned =>
      obtain ⟨made, visits, missed⟩ := (misses fuel _ rfl returned.1 returned.2 moves).adds
      rw [moves, ends] at same
      have pairs : (returned.2.visits.map fun visit => (visit.pathname, visit.typeflag)) =
          after.visits.map fun visit => (visit.pathname, visit.typeflag) := Except.ok.inj same
      have member : (visit.pathname, visit.typeflag) ∈
          returned.2.visits.map fun visit => (visit.pathname, visit.typeflag) := by
        rw [pairs]
        exact List.mem_map_of_mem reported
      obtain ⟨other, isMade, samePair⟩ := List.mem_map.mp member
      rw [visits, List.nil_append] at isMade
      refine missed other isMade ⟨?_, ?_⟩
      · exact (congrArg Prod.fst samePair).trans isTarget.1
      · exact (congrArg Prod.snd samePair).trans isTarget.2

end Astray

end LinuxProgramming.Files
