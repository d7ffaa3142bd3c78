import LinuxProgramming.Inotify.Events

/-!
Contract: when `inotify_dirs` has all directories watched.

Owns:
- the runs in which changes of the directories and the handling of events alternate freely;
- the invariant that every directory is either watched or will be led to by an event;
- in which runs every directory is watched once all events have been handled.

Does not own: what a single step does.
-/

namespace LinuxProgramming.Inotify.Events

open LinuxProgramming.Library

variable {start : CString} {state before after : State} {place : Place} {inode : Nat}

/-! ### What is followed -/

/-- The descriptor of the watch on the directory at a place. -/
def State.watchAt (state : State) (place : Place) : Option Int :=
  (state.inodeOf place).bind state.watchOf

/-- A new directory can be watched: there is memory for its entry, its pathname fits, and it
still exists under it. -/
def CanFollow (start : CString) (allocated : Bool) (state : State) : InotifyEvent → Prop
  | ⟨wd, .IN_CREATE name, true⟩ =>
      allocated = true ∧
        ∀ entry ∈ state.pathname_wd_list.find? fun entry => entry.wd = wd,
          (entry.pathname ++ slash :: name.bytes).length < PATH_MAX ∧
            ((placeOf start (entry.pathname ++ slash :: name.bytes)).bind state.inodeOf).isSome
  | _ => True

instance (allocated : Bool) (event : InotifyEvent) :
    Decidable (CanFollow start allocated state event) :=
  match event with
  | ⟨_, .IN_CREATE _, true⟩ => inferInstanceAs (Decidable (_ ∧ ∀ entry ∈ List.find? _ _, _ ∧ _))
  | ⟨_, .IN_CREATE _, false⟩ | ⟨_, .IN_DELETE _, _⟩ | ⟨_, .IN_MOVED_FROM _, _⟩
  | ⟨_, .IN_MOVED_TO _, _⟩ | ⟨_, .IN_DELETE_SELF, _⟩ | ⟨_, .IN_MOVE_SELF, _⟩
  | ⟨_, .IN_IGNORED, _⟩ => isTrue trivial

/-- Directories are only created in watched ones and never renamed, those of which an event
is handled still exist, and no event about a watched directory itself has `IN_ISDIR`. -/
def Allowed (selfIsDir : Bool) (start : CString) : Label → State → Prop
  | .mkdir parent _, state => (state.watchAt parent).isSome
  | .rmdir parent name, state =>
      selfIsDir = false ∨ state.watchAt (parent ++ [name.bytes]) = none
  | .rename .., _ => False
  | .handle allocated, state => ∀ event ∈ state.queue.head?, CanFollow start allocated state event

instance (selfIsDir : Bool) (label : Label) : Decidable (Allowed selfIsDir start label state) :=
  match label with
  | .mkdir _ _ => inferInstanceAs (Decidable (_ = true))
  | .rmdir _ _ => inferInstanceAs (Decidable (_ ∨ _))
  | .rename .. => isFalse id
  | .handle allocated =>
      inferInstanceAs (Decidable (∀ event ∈ state.queue.head?,
        CanFollow start allocated state event))

/-- The entries with a descriptor, at least one, hold a pathname of the place. -/
def Records (start : CString) (entries : List PathnameWd) (wd : Int) (place : Place) : Prop :=
  (∃ entry ∈ entries, entry.wd = wd) ∧
    ∀ entry ∈ entries, entry.wd = wd → placeOf start entry.pathname = some place

/-- Every directory is watched, and its entry holds its current pathname. -/
def Covered (start : CString) (state : State) : Prop :=
  ∀ directory ∈ state.directories, ∃ wd, state.watchOf directory.inode = some wd ∧
    Records start state.pathname_wd_list wd directory.place

instance : Decidable (Covered start state) :=
  inferInstanceAs (Decidable (∀ directory ∈ state.directories,
    ∃ wd ∈ state.watchOf directory.inode,
      (∃ entry ∈ state.pathname_wd_list, entry.wd = wd) ∧
        ∀ entry ∈ state.pathname_wd_list, entry.wd = wd →
          placeOf start entry.pathname = some directory.place))

structure Init (start : CString) (state : State) : Prop where
  wellFormed : WellFormed state
  quiet : state.queue = []
  running : state.halted = none
  covered : Covered start state
/-! ### The invariant -/

/-- An event is queued that will lead to this directory. -/
def Reported (state : State) (directory : Directory) : Prop :=
  ∃ parent ∈ state.directories, ∃ wd name,
    directory.place = parent.place ++ [name.bytes] ∧ state.watchOf parent.inode = some wd ∧
      ⟨wd, .IN_CREATE name, true⟩ ∈ state.queue

/-- The handler finds the entry of an event. -/
def Expected (entries : List PathnameWd) : InotifyEvent → Prop
  | ⟨wd, .IN_CREATE _, _⟩ => ∃ entry ∈ entries, entry.wd = wd
  | ⟨_, .IN_DELETE_SELF, isDir⟩ => isDir = false
  | _ => True

/-- Every directory is either watched and recorded, or an event about it is queued. -/
structure Tracked (start : CString) (state : State) : Prop extends WellFormed state where
  running : state.halted = none
  recorded : ∀ directory ∈ state.directories, ∀ wd,
    state.watchOf directory.inode = some wd →
      Records start state.pathname_wd_list wd directory.place
  reported : ∀ directory ∈ state.directories, state.watchOf directory.inode = none →
    Reported state directory
  expected : ∀ event ∈ state.queue, Expected state.pathname_wd_list event

theorem Init.tracked {start : CString} {state : State} (initial : Init start state) :
    Tracked start state := by
  refine { initial.wellFormed with
    running := initial.running, recorded := ?_, reported := ?_, expected := ?_ }
  · intro directory member wd watched
    obtain ⟨wd', watched', records⟩ := initial.covered directory member
    rw [watched] at watched'
    cases watched'
    exact records
  · intro directory member unwatched
    obtain ⟨wd, watched, -⟩ := initial.covered directory member
    rw [unwatched] at watched
    cases watched
  · intro event queued
    rw [initial.quiet] at queued
    cases queued

theorem Tracked.covered {start : CString} {state : State} (tracked : Tracked start state)
    (handled : state.queue = []) : Covered start state := by
  intro directory member
  cases watched : state.watchOf directory.inode with
  | some wd => exact ⟨wd, rfl, tracked.recorded directory member wd watched⟩
  | none =>
      obtain ⟨_, _, _, _, _, _, queued⟩ := tracked.reported directory member watched
      rw [handled] at queued
      cases queued
/-! ### Creation -/

theorem mkdir_tracked {parent : Place} {name : EntryName} (tracked : Tracked start before)
    (watched : (before.watchAt parent).isSome) (made : mkdir parent name before = some after) :
    Tracked start after := by
  obtain ⟨inode, found, missing, rfl⟩ := mkdir_cases made
  obtain ⟨wd, isWatched⟩ := Option.isSome_iff_exists.mp watched
  unfold State.watchAt at isWatched
  rw [found] at isWatched
  change before.watchOf inode = some wd at isWatched
  have created : before.notified inode (.IN_CREATE name) true =
      [⟨wd, .IN_CREATE name, true⟩] := by
    unfold State.notified
    rw [isWatched]
  rw [created]
  have above := mem_of_inodeOf found
  have unwatched : before.watchOf before.nextInode = none := by
    cases other : before.watchOf before.nextInode with
    | none => rfl
    | some wd' => exact absurd (tracked.watch_lt _ _ other).1 (Nat.lt_irrefl _)
  refine
    { places := ?_, inodes := ?_, inode_lt := ?_, watch_lt := ?_
      watch_unique := tracked.watch_unique, entry_lt := tracked.entry_lt
      running := tracked.running, recorded := ?_, reported := ?_, expected := ?_ }
  · show (_ :: _).Nodup
    apply List.nodup_cons.mpr
    refine ⟨fun listed => ?_, tracked.places⟩
    obtain ⟨directory, member, same⟩ := List.mem_map.mp listed
    exact place_ne_of_inodeOf missing directory member same
  · show (_ :: _).Nodup
    apply List.nodup_cons.mpr
    refine ⟨fun listed => ?_, tracked.inodes⟩
    obtain ⟨directory, member, same⟩ := List.mem_map.mp listed
    exact absurd (tracked.inode_lt directory member) (by simp [same])
  · intro directory member
    show directory.inode < before.nextInode + 1
    rcases List.mem_cons.mp member with rfl | old
    · exact Nat.lt_succ_self _
    · exact Nat.lt_succ_of_lt (tracked.inode_lt directory old)
  · intro watchedInode wd' holds
    obtain ⟨inodeLt, wdLt⟩ := tracked.watch_lt watchedInode wd' holds
    exact ⟨Nat.lt_succ_of_lt inodeLt, wdLt⟩
  · intro directory member wd' holds
    rcases List.mem_cons.mp member with rfl | old
    · have nothing : before.watchOf before.nextInode = some wd' := holds
      rw [unwatched] at nothing
      cases nothing
    · exact tracked.recorded directory old wd' holds
  · intro directory member holds
    rcases List.mem_cons.mp member with rfl | old
    · exact ⟨⟨parent, inode⟩, List.mem_cons_of_mem _ above, wd, name, rfl, isWatched,
        List.mem_append_right _ (List.mem_singleton_self _)⟩
    · obtain ⟨directory', member', wd', name', place, isWatched', queued⟩ :=
        tracked.reported directory old holds
      exact ⟨directory', List.mem_cons_of_mem _ member', wd', name', place, isWatched',
        List.mem_append_left _ queued⟩
  · intro event queued
    rcases List.mem_append.mp queued with old | new
    · exact tracked.expected event old
    · obtain rfl := List.mem_singleton.mp new
      exact (tracked.recorded ⟨parent, inode⟩ above wd isWatched).1
/-! ### Removal -/

theorem rmdir_tracked {selfIsDir : Bool} {parent : Place} {name : EntryName}
    (tracked : Tracked start before)
    (allowed : selfIsDir = false ∨ before.watchAt (parent ++ [name.bytes]) = none)
    (removed : rmdir selfIsDir parent name before = some after) : Tracked start after := by
  obtain ⟨inode, events, found, empty, reports, rfl⟩ := rmdir_cases removed
  have target := mem_of_inodeOf found
  have watchAfter (other : Nat) :
      State.watchOf { before with
        directories := before.directories.filter (·.place ≠ parent ++ [name.bytes])
        watches := before.watches.filter (·.inode ≠ inode)
        queue := before.queue ++ events } other =
        if other = inode then none else before.watchOf other :=
    watchOf_without before.watches inode
  have stays {other : Nat} {wd : Int} (holds : (if other = inode then none else
      before.watchOf other) = some wd) : before.watchOf other = some wd := by
    split at holds
    · cases holds
    · exact holds
  have others {directory : Directory}
      (member : directory ∈ before.directories.filter (·.place ≠ parent ++ [name.bytes])) :
      directory ∈ before.directories ∧ directory.place ≠ parent ++ [name.bytes] ∧
        directory.inode ≠ inode := by
    obtain ⟨old, elsewhere⟩ := List.mem_filter.mp member
    have elsewhere : directory.place ≠ parent ++ [name.bytes] := of_decide_eq_true elsewhere
    exact ⟨old, elsewhere, tracked.toWellFormed.inode_ne old target elsewhere⟩
  refine
    { places := tracked.places.sublist (List.filter_sublist.map _)
      inodes := tracked.inodes.sublist (List.filter_sublist.map _)
      inode_lt := fun directory member => tracked.inode_lt directory (others member).1
      watch_lt := ?_, watch_unique := ?_, entry_lt := tracked.entry_lt
      running := tracked.running, recorded := ?_, reported := ?_, expected := ?_ }
  · intro other wd holds
    rw [watchAfter] at holds
    exact tracked.watch_lt other wd (stays holds)
  · intro first second wd holdsFirst holdsSecond
    rw [watchAfter] at holdsFirst holdsSecond
    exact tracked.watch_unique first second wd (stays holdsFirst) (stays holdsSecond)
  · intro directory member wd holds
    rw [watchAfter] at holds
    exact tracked.recorded directory (others member).1 wd (stays holds)
  · intro directory member unwatched
    obtain ⟨old, elsewhere, otherInode⟩ := others member
    rw [watchAfter, if_neg otherInode] at unwatched
    obtain ⟨above, aboveMember, wd, entry, place, isWatched, queued⟩ :=
      tracked.reported directory old unwatched
    have aboveStays := empty.not_parent old elsewhere place
    have aboveOther := tracked.toWellFormed.inode_ne aboveMember target aboveStays
    refine ⟨above, List.mem_filter.mpr ⟨aboveMember, decide_eq_true aboveStays⟩, wd, entry,
      place, ?_, List.mem_append_left _ queued⟩
    rw [watchAfter, if_neg aboveOther]
    exact isWatched
  · intro event queued
    rcases List.mem_append.mp queued with old | new
    · exact tracked.expected event old
    · obtain ⟨wd, change, isDir⟩ := event
      rcases reports _ new with deleted | ignored | ⟨itself, flag, watched⟩
      · cases deleted
        trivial
      · cases ignored
        trivial
      · cases itself
        rcases allowed with noFlag | unwatched
        · exact flag.trans noFlag
        · unfold State.watchAt at unwatched
          rw [found] at unwatched
          change before.watchOf inode = none at unwatched
          rw [unwatched] at watched
          cases watched
/-! ### Handling an event -/

/-- The entries that were there under the descriptor hold the place of the directory. -/
theorem Adds.recorded {wd : Int} (adds : Adds before inode wd after)
    (wellFormed : WellFormed before)
    (records : ∀ wd, before.watchOf inode = some wd →
      Records start before.pathname_wd_list wd place) :
    ∀ entry ∈ before.pathname_wd_list, entry.wd = wd →
      placeOf start entry.pathname = some place := by
  intro entry member sameWd
  rcases adds.origin with kept | ⟨-, fresh⟩
  · exact (records wd kept).2 entry member sameWd
  · have old := wellFormed.entry_lt entry member
    rw [sameWd, fresh] at old
    exact absurd old (Int.lt_irrefl _)

theorem Expected.cons {entries : List PathnameWd} {event : InotifyEvent}
    (expected : Expected entries event) (entry : PathnameWd) :
    Expected (entry :: entries) event := by
  obtain ⟨wd, change, isDir⟩ := event
  cases change with
  | IN_CREATE name =>
      obtain ⟨old, member, sameWd⟩ := expected
      exact ⟨old, List.mem_cons_of_mem _ member, sameWd⟩
  | IN_DELETE_SELF => exact expected
  | IN_DELETE => trivial
  | IN_MOVED_FROM => trivial
  | IN_MOVED_TO => trivial
  | IN_MOVE_SELF => trivial
  | IN_IGNORED => trivial

section Handling

variable {rest : List InotifyEvent} {wd : Int} {name : EntryName}

/-- An event that the handler passes over was about no directory to be watched. -/
theorem Tracked.dequeue {event : InotifyEvent} (tracked : Tracked start before)
    (queued : before.queue = event :: rest)
    (passed : ∀ wd name, event ≠ ⟨wd, .IN_CREATE name, true⟩) :
    Tracked start { before with queue := rest } := by
  refine { tracked with reported := ?_, expected := ?_ }
  · intro directory member unwatched
    obtain ⟨parent, parentMember, wd, name, place, watched, waiting⟩ :=
      tracked.reported directory member unwatched
    rw [queued] at waiting
    rcases List.mem_cons.mp waiting with handled | later
    · exact absurd handled.symm (passed wd name)
    · exact ⟨parent, parentMember, wd, name, place, watched, later⟩
  · intro other later
    apply tracked.expected other
    rw [queued]
    exact List.mem_cons_of_mem _ later

/-- The directory that an event reports is found under the pathname the handler makes. -/
theorem Tracked.place_of_event (tracked : Tracked start before) {parent : Directory}
    (member : parent ∈ before.directories) (watched : before.watchOf parent.inode = some wd)
    {entry : PathnameWd} (listed : entry ∈ before.pathname_wd_list) (sameWd : entry.wd = wd)
    (name : EntryName) :
    placeOf start (entry.pathname ++ slash :: name.bytes) =
      some (parent.place ++ [name.bytes]) := by
  apply placeOf_append
  exact (tracked.recorded parent member wd watched).2 entry listed sameWd

/-- The watch and the entry `made` of a directory that the first event, about the one with
`entry`, has reported. -/
structure Follows (start : CString) (name : EntryName) (entry made : PathnameWd) (place : Place)
    (inode : Nat) (before after : State) : Prop where
  queued : before.queue = ⟨entry.wd, .IN_CREATE name, true⟩ :: after.queue
  listed : entry ∈ before.pathname_wd_list
  pathname : made.pathname = entry.pathname ++ slash :: name.bytes
  leads : placeOf start made.pathname = some place
  found : before.inodeOf place = some inode
  adds : Adds { before with queue := after.queue } inode made.wd after

namespace Follows

variable {entry made : PathnameWd}

theorem recorded (follows : Follows start name entry made place inode before after)
    (tracked : Tracked start before) :
    ∀ directory ∈ before.directories, ∀ wd, after.watchOf directory.inode = some wd →
      Records start (made :: before.pathname_wd_list) wd directory.place := by
  have wellFormed : WellFormed { before with queue := after.queue } :=
    { tracked.toWellFormed with }
  have target := mem_of_inodeOf follows.found
  intro directory member wd watched
  rw [follows.adds.watchOf] at watched
  split at watched
  case isTrue isTarget =>
    cases watched
    obtain rfl := tracked.toWellFormed.ext_inode member target isTarget
    refine ⟨⟨made, List.mem_cons_self, rfl⟩, fun other listed sameWd => ?_⟩
    rcases List.mem_cons.mp listed with rfl | old
    · exact follows.leads
    · exact follows.adds.recorded wellFormed (tracked.recorded _ target) other old sameWd
  case isFalse otherInode =>
    obtain ⟨⟨old, oldListed, oldWd⟩, records⟩ := tracked.recorded directory member wd watched
    refine ⟨⟨old, List.mem_cons_of_mem _ oldListed, oldWd⟩, fun other listed sameWd => ?_⟩
    rcases List.mem_cons.mp listed with rfl | listed
    · rw [← sameWd] at watched
      exact absurd (follows.adds.unique wellFormed watched) otherInode
    · exact records other listed sameWd

/-- A directory that is still without a watch has an event behind the first one. -/
theorem reported (follows : Follows start name entry made place inode before after)
    (tracked : Tracked start before) :
    ∀ directory ∈ before.directories, after.watchOf directory.inode = none →
      Reported after directory := by
  intro directory member unwatched
  rw [follows.adds.watchOf] at unwatched
  split at unwatched
  case isTrue => cases unwatched
  case isFalse otherInode =>
    obtain ⟨parent, parentMember, wd, name', parentPlace, watched, waiting⟩ :=
      tracked.reported directory member unwatched
    rw [follows.queued] at waiting
    rcases List.mem_cons.mp waiting with handled | later
    · -- The event was about this directory, which has been watched just now.
      cases handled
      have samePlace := tracked.place_of_event parentMember watched follows.listed rfl name
      rw [← follows.pathname, follows.leads, ← parentPlace] at samePlace
      have isTarget := tracked.toWellFormed.ext_place member (mem_of_inodeOf follows.found)
        (Option.some.inj samePlace).symm
      exact absurd (congrArg Directory.inode isTarget) otherInode
    · refine ⟨parent, ?_, wd, name', parentPlace, follows.adds.keeps watched, later⟩
      rw [follows.adds.changed]
      exact parentMember

theorem tracked (follows : Follows start name entry made place inode before after)
    (tracked : Tracked start before) :
    Tracked start { after with pathname_wd_list := made :: after.pathname_wd_list } := by
  have wellFormed : WellFormed { before with queue := after.queue } :=
    { tracked.toWellFormed with }
  have afterFormed := follows.adds.wellFormed wellFormed follows.found
  have sameDirectories : after.directories = before.directories := by
    rw [follows.adds.changed]
  have sameList : after.pathname_wd_list = before.pathname_wd_list := by
    rw [follows.adds.changed]
  refine
    { afterFormed with
      entry_lt := ?_, running := ?_, recorded := ?_, reported := ?_, expected := ?_ }
  · intro other member
    rcases List.mem_cons.mp member with rfl | old
    · exact follows.adds.wd_lt
    · exact afterFormed.entry_lt other old
  · rw [follows.adds.changed]
    exact tracked.running
  · show ∀ directory ∈ after.directories, ∀ wd, after.watchOf directory.inode = some wd →
      Records start (made :: after.pathname_wd_list) wd directory.place
    rw [sameDirectories, sameList]
    exact follows.recorded tracked
  · show ∀ directory ∈ after.directories, after.watchOf directory.inode = none →
      Reported after directory
    rw [sameDirectories]
    exact follows.reported tracked
  · show ∀ event ∈ after.queue, Expected (made :: after.pathname_wd_list) event
    intro event later
    rw [sameList]
    apply Expected.cons
    apply tracked.expected event
    rw [follows.queued]
    exact List.mem_cons_of_mem _ later

end Follows

theorem addWatch_tracked {allocated : Bool} (tracked : Tracked start before)
    (queued : before.queue = ⟨wd, .IN_CREATE name, true⟩ :: rest)
    (follows : CanFollow start allocated before ⟨wd, .IN_CREATE name, true⟩) :
    Tracked start (addWatch start allocated wd name { before with queue := rest }) := by
  obtain ⟨rfl, follows⟩ := follows
  have expected : ∃ entry ∈ before.pathname_wd_list, entry.wd = wd :=
    tracked.expected ⟨wd, .IN_CREATE name, true⟩ (by rw [queued]; exact List.mem_cons_self)
  unfold addWatch
  cases search : before.pathname_wd_list.find? fun entry => entry.wd = wd with
  | none =>
      obtain ⟨entry, listed, sameWd⟩ := expected
      exact absurd (decide_eq_true sameWd) (List.find?_eq_none.mp search entry listed)
  | some entry =>
      have sameWd : entry.wd = wd := by simpa using List.find?_some search
      obtain ⟨fits, exists_⟩ := follows entry search
      obtain ⟨inode, resolves⟩ := Option.isSome_iff_exists.mp exists_
      obtain ⟨place, leads, found⟩ := Option.bind_eq_some_iff.mp resolves
      have wellFormed : WellFormed { before with queue := rest } :=
        { tracked.toWellFormed with }
      obtain ⟨made, after, added, adds⟩ := inotify_add_watch_adds wellFormed resolves
      simp only [not_true_eq_false, ↓reduceIte, fits, ↓reduceDIte, added]
      subst sameWd
      have sameQueue : after.queue = rest := by rw [adds.changed]
      have isFollowed : Follows start name entry ⟨_, made, fits⟩ place inode before after :=
        { queued := by rw [sameQueue]; exact queued
          listed := List.mem_of_find?_eq_some search
          pathname := rfl
          leads := leads
          found := found
          adds := by rw [sameQueue]; exact adds }
      exact isFollowed.tracked tracked

theorem handle_tracked {allocated : Bool} (tracked : Tracked start before)
    (follows : ∀ event ∈ before.queue.head?, CanFollow start allocated before event)
    (handled : handle start allocated before = some after) : Tracked start after := by
  unfold handle at handled
  split at handled
  case h_2 => cases handled
  case h_1 event rest _ queued =>
    cases handled
    have follows := follows event (by rw [queued]; rfl)
    have expected := tracked.expected event (by rw [queued]; exact List.mem_cons_self)
    obtain ⟨wd, change, isDir⟩ := event
    unfold display_modify_inotify_event
    cases isDir with
    | false =>
        apply tracked.dequeue queued
        intro _ _ same
        cases same
    | true =>
        cases change with
        | IN_CREATE name => exact addWatch_tracked tracked queued follows
        | IN_DELETE_SELF => cases expected
        | _ =>
            apply tracked.dequeue queued
            intro _ _ same
            cases same

end Handling
/-! ### Runs -/

/-- Changes of the directories and handled events in any order. -/
def changing (selfIsDir : Bool) (start : CString) : TransitionSystem State :=
  labelled (Init start) (step selfIsDir start)

/-- Those runs in which the monitor can follow. -/
def followed (selfIsDir : Bool) (start : CString) : TransitionSystem State :=
  labelledWhen (Init start) (step selfIsDir start) (Allowed selfIsDir start)

theorem step_tracked {selfIsDir : Bool} {label : Label} (tracked : Tracked start before)
    (allowed : Allowed selfIsDir start label before)
    (stepped : step selfIsDir start label before = some after) : Tracked start after := by
  cases label with
  | mkdir parent name => exact mkdir_tracked tracked allowed stepped
  | rmdir parent name => exact rmdir_tracked tracked allowed stepped
  | rename => exact absurd allowed id
  | handle allocated => exact handle_tracked tracked allowed stepped

theorem inductive_tracked (selfIsDir : Bool) (start : CString) :
    (followed selfIsDir start).Inductive (Tracked start) where
  init _ initial := initial.tracked
  step _ _ tracked := fun ⟨_, allowed, stepped⟩ => step_tracked tracked allowed stepped

/-- In such a run the monitor never stops, and it covers all directories whenever it has
handled all events. -/
theorem covered_once_handled (selfIsDir : Bool) (start : CString) (state : State)
    (reachable : (followed selfIsDir start).Reachable state) :
    state.halted = none ∧ (state.queue = [] → Covered start state) := by
  have tracked := (inductive_tracked selfIsDir start).holds reachable
  exact ⟨tracked.running, tracked.covered⟩

/-- A watched start with nothing in it. -/
def lone : State where
  directories := [⟨[], 0⟩]
  nextInode := 1
  watches := [⟨0, 1⟩]
  nextWd := 2
  queue := []
  pathname_wd_list := [⟨[98], 1, by decide⟩]
  halted := none

theorem lone_watchOf {wd : Int} (watched : lone.watchOf inode = some wd) :
    inode = 0 ∧ wd = 1 := by
  obtain ⟨watch, found, rfl⟩ := Option.map_eq_some_iff.mp watched
  have listed : watch = ⟨0, 1⟩ := List.mem_singleton.mp (List.mem_of_find?_eq_some found)
  subst listed
  exact ⟨Eq.symm (by simpa using List.find?_some found), rfl⟩

theorem lone_init : Init [98] lone where
  wellFormed :=
    { places := by decide
      inodes := by decide
      inode_lt := by decide
      watch_lt := by
        intro inode wd watched
        obtain ⟨rfl, rfl⟩ := lone_watchOf watched
        decide
      watch_unique := by
        intro first second wd isFirst isSecond
        rw [(lone_watchOf isFirst).1, (lone_watchOf isSecond).1]
      entry_lt := by decide }
  quiet := rfl
  running := rfl
  covered := by decide

theorem nameA_notEmpty : ([97] : CString) ≠ [] := List.cons_ne_nil _ _

def nameA : EntryName := ⟨⟨[97], nameA_notEmpty⟩, by decide, by decide⟩

def nameC : EntryName := ⟨⟨[99], by decide⟩, by decide, by decide⟩

/-- A directory, then one in it, each handled before the next change. -/
theorem covered_once_handled_nested :
    ∃ state, (followed false [98]).Reachable state ∧
      state.directories.map (·.place) = [[[97], [99]], [[97]], []] ∧
      state.halted = none ∧ Covered [98] state := by
  have ran : runLabels (guarded (step false [98]) (Allowed false [98]))
      [.mkdir [] nameA, .handle true, .mkdir [[97]] nameC, .handle true] lone = some _ := rfl
  have reachable : (followed false [98]).Reachable _ :=
    runLabels_reachable (fun _ _ _ => guarded_step) (.of_init lone_init) ran
  obtain ⟨running, covered⟩ := covered_once_handled false [98] _ reachable
  exact ⟨_, reachable, rfl, running, covered rfl⟩

/-- The inner directory is created before the outer one has a watch. -/
def nestedEarly : List Label := [.mkdir [] nameA, .mkdir [[97]] nameC, .handle true]

/-- The entry of a directory keeps the pathname that it had before it was renamed. -/
def staleName : List Label :=
  [.mkdir [] nameA, .handle true, .rename [] nameA [] nameC, .handle true, .handle true,
    .handle true]

/-- After this run all events are handled, and a directory is missing. -/
def Escapes (labels : List Label) : Prop :=
  ∃ state, runLabels (step false [98]) labels lone = some state ∧
    (changing false [98]).Reachable state ∧ state.halted = none ∧ state.queue = [] ∧
      ¬ Covered [98] state

theorem changing_escapes : Escapes nestedEarly ∧ Escapes staleName := by
  constructor
  · refine ⟨_, rfl, ?_, rfl, rfl, by decide⟩
    apply runLabels_reachable labelled_step (.of_init lone_init)
    show runLabels (step false [98]) nestedEarly lone = some _
    rfl
  · refine ⟨_, rfl, ?_, rfl, rfl, by decide⟩
    apply runLabels_reachable labelled_step (.of_init lone_init)
    show runLabels (step false [98]) staleName lone = some _
    rfl

end LinuxProgramming.Inotify.Events
