import LinuxProgramming.Inotify.Coverage
import LinuxProgramming.Library.KeyedList
import LinuxProgramming.Library.Pathname
import LinuxProgramming.Library.TransitionSystem

/-!
Contract: how `inotify_dirs` follows changes of the directories it watches.

Owns:
- the directories below the start, their watches, and the events that changes queue;
- `display_modify_inotify_event` and the list it keeps;
- what a change of the directories and the adding of a watch leave as it was.

Does not own: the walk that sets up the first watches, files that are not directories, what
is printed, an event queue that overflows.
-/

namespace LinuxProgramming.Inotify.Events

open LinuxProgramming.Library

/-! ### Directories and watches -/

/-- The names that lead from the start to a directory. -/
abbrev Place := List CString

/-- A name that a directory can be given. -/
structure EntryName extends Name where
  noSlash : slash ∉ bytes
  notDots : bytes ≠ [46] ∧ bytes ≠ [46, 46]
deriving DecidableEq, Repr

structure Directory where
  place : Place
  inode : Nat
deriving DecidableEq, Repr

/-- A watch belongs to the directory, whatever its name becomes. -/
structure Watch where
  inode : Nat
  wd : Int
deriving DecidableEq, Repr

/-- What an event reports. The first four concern an entry of the watched directory, which
they name, the others the watched directory itself. -/
inductive Change where
  | IN_CREATE (name : EntryName)
  | IN_DELETE (name : EntryName)
  | IN_MOVED_FROM (name : EntryName)
  | IN_MOVED_TO (name : EntryName)
  | IN_DELETE_SELF
  | IN_MOVE_SELF
  | IN_IGNORED
deriving DecidableEq, Repr

structure InotifyEvent where
  wd : Int
  change : Change
  /-- `IN_ISDIR`. -/
  isDir : Bool
deriving DecidableEq, Repr

/-- Why the program does not go on. -/
inductive Halt where
  | exit
  /-- A string that does not fit into `pathname`. -/
  | overflow
  | nullPointer
deriving DecidableEq, Repr

structure State where
  directories : List Directory
  nextInode : Nat
  watches : List Watch
  nextWd : Int
  /-- The events that are not yet handled, whether `read` has returned them or not. -/
  queue : List InotifyEvent
  pathname_wd_list : List PathnameWd
  halted : Option Halt
deriving DecidableEq, Repr

namespace State

def inodeOf (state : State) (place : Place) : Option Nat :=
  (state.directories.find? fun directory => directory.place = place).map (·.inode)

def watchOf (state : State) (inode : Nat) : Option Int :=
  (state.watches.find? fun watch => watch.inode = inode).map (·.wd)

/-- An event is queued just if the directory is watched. -/
def notified (state : State) (inode : Nat) (change : Change) (isDir : Bool) :
    List InotifyEvent :=
  match state.watchOf inode with
  | none => []
  | some wd => [⟨wd, change, isDir⟩]

end State

/-- Where a pathname leads that begins with that of the start. -/
def placeOf (start pathname : CString) : Option Place :=
  if start <+: pathname then
    let rest := pathname.drop start.length
    if rest = [] ∨ rest.head? = some slash ∨ start.getLast? = some slash then
      some (Pathname.pieces slash rest)
    else none
  else none

/-- A directory that has a watch keeps its descriptor. Other descriptors count up. -/
def inotify_add_watch (start pathname : CString) (state : State) : Option Int × State :=
  match (placeOf start pathname).bind state.inodeOf with
  | none => (none, state)
  | some inode =>
      match state.watchOf inode with
      | some wd => (some wd, state)
      | none =>
          (some state.nextWd,
            { state with
              watches := ⟨inode, state.nextWd⟩ :: state.watches
              nextWd := state.nextWd + 1 })

/-- Whether there was such a watch. -/
def inotify_rm_watch (wd : Int) (state : State) : Bool × State :=
  if ∃ watch ∈ state.watches, watch.wd = wd then
    (true,
      { state with
        watches := state.watches.filter fun watch => watch.wd ≠ wd
        queue := state.queue ++ [⟨wd, .IN_IGNORED, false⟩] })
  else (false, state)

/-! ### Changes of the directories -/

def mkdir (parent : Place) (name : EntryName) (state : State) : Option State :=
  match state.inodeOf parent, state.inodeOf (parent ++ [name.bytes]) with
  | some inode, none =>
      some
        { state with
          directories := ⟨parent ++ [name.bytes], state.nextInode⟩ :: state.directories
          nextInode := state.nextInode + 1
          queue := state.queue ++ state.notified inode (.IN_CREATE name) true }
  | _, _ => none

/-- No directory lies in this one. -/
def Empty (state : State) (place : Place) : Prop :=
  ∀ directory ∈ state.directories, place <+: directory.place → directory.place = place

instance (state : State) (place : Place) : Decidable (Empty state place) :=
  inferInstanceAs (Decidable (∀ directory ∈ state.directories, _))

/-- The directory goes with its watch. `selfIsDir` is whether the kernel sets `IN_ISDIR` in
an event about the watched directory itself. -/
def discard (selfIsDir : Bool) (place : Place) (inode : Nat) (state : State) : State :=
  { state with
    directories := state.directories.filter fun directory => directory.place ≠ place
    watches := state.watches.filter fun watch => watch.inode ≠ inode
    queue := state.queue ++ state.notified inode .IN_DELETE_SELF selfIsDir ++
      state.notified inode .IN_IGNORED false }

def rmdir (selfIsDir : Bool) (parent : Place) (name : EntryName) (state : State) :
    Option State :=
  match state.inodeOf parent, state.inodeOf (parent ++ [name.bytes]) with
  | some parentInode, some inode =>
      if Empty state (parent ++ [name.bytes]) then
        let removed := discard selfIsDir (parent ++ [name.bytes]) inode state
        some
          { removed with
            queue := removed.queue ++ removed.notified parentInode (.IN_DELETE name) true }
      else none
  | _, _ => none

/-- The place that `place` becomes when `old` becomes `new`. -/
def moved (old new place : Place) : Place :=
  if old <+: place then new ++ place.drop old.length else place

/-- An empty directory at the new place is replaced. -/
def rename (selfIsDir : Bool) (oldParent : Place) (oldName : EntryName) (newParent : Place)
    (newName : EntryName) (state : State) : Option State :=
  let old := oldParent ++ [oldName.bytes]
  let new := newParent ++ [newName.bytes]
  match state.inodeOf oldParent, state.inodeOf newParent, state.inodeOf old with
  | some oldInode, some newInode, some inode =>
      -- A rename to the same name changes nothing.
      if old <+: new ∨ ¬ Empty state new then none
      else
        let events := state.notified oldInode (.IN_MOVED_FROM oldName) true ++
          state.notified newInode (.IN_MOVED_TO newName) true ++
          state.notified inode .IN_MOVE_SELF selfIsDir
        let reported := { state with queue := state.queue ++ events }
        let replaced := (state.inodeOf new).elim reported fun target =>
          discard selfIsDir new target reported
        some
          { replaced with
            directories := replaced.directories.map fun directory =>
              { directory with place := moved old new directory.place } }
  | _, _, _ => none

/-! ### The monitor -/

def halt (why : Halt) (state : State) : State := { state with halted := some why }

/-- The branch of `IN_CREATE`. `allocated` is whether `malloc` succeeds, which is not checked. -/
def addWatch (start : CString) (allocated : Bool) (wd : Int) (name : EntryName)
    (state : State) : State :=
  match state.pathname_wd_list.find? fun entry => entry.wd = wd with
  | none => halt .exit state
  | some entry =>
      let pathname := entry.pathname ++ slash :: name.bytes
      if ¬ allocated then halt .nullPointer state
      else if fits : pathname.length < PATH_MAX then
        match inotify_add_watch start pathname state with
        | (none, state) => halt .exit state
        | (some wd, state) =>
            { state with pathname_wd_list := ⟨pathname, wd, fits⟩ :: state.pathname_wd_list }
      else halt .overflow state

/-- The branch of `IN_DELETE_SELF`. The last entry before the one that is found is `tmp_p`. -/
def removeWatch (wd : Int) (state : State) : State :=
  match state.pathname_wd_list.span fun entry => entry.wd ≠ wd with
  | (_, []) => halt .exit state
  | ([], _ :: _) => halt .nullPointer state
  | (first :: between, _ :: after) =>
      let unlinked := { state with pathname_wd_list := first :: between ++ after }
      match inotify_rm_watch wd unlinked with
      | (false, state) => halt .exit state
      | (true, state) => state

def display_modify_inotify_event (start : CString) (allocated : Bool) (event : InotifyEvent)
    (state : State) : State :=
  if event.isDir then
    match event.change with
    | .IN_CREATE name => addWatch start allocated event.wd name state
    | .IN_DELETE_SELF => removeWatch event.wd state
    | _ => state
  else state

/-- One turn of the loop over the events. -/
def handle (start : CString) (allocated : Bool) (state : State) : Option State :=
  match state.halted, state.queue with
  | none, event :: rest =>
      some (display_modify_inotify_event start allocated event { state with queue := rest })
  | _, _ => none

/-- What happens next. -/
inductive Label where
  | mkdir (parent : Place) (name : EntryName)
  | rmdir (parent : Place) (name : EntryName)
  | rename (oldParent : Place) (oldName : EntryName) (newParent : Place) (newName : EntryName)
  | handle (allocated : Bool)
deriving DecidableEq, Repr

def step (selfIsDir : Bool) (start : CString) : Label → State → Option State
  | .mkdir parent name => mkdir parent name
  | .rmdir parent name => rmdir selfIsDir parent name
  | .rename oldParent oldName newParent newName =>
      rename selfIsDir oldParent oldName newParent newName
  | .handle allocated => handle start allocated

/-! ### Lookups -/

structure WellFormed (state : State) : Prop where
  places : (state.directories.map (·.place)).Nodup
  inodes : (state.directories.map (·.inode)).Nodup
  inode_lt : ∀ directory ∈ state.directories, directory.inode < state.nextInode
  watch_lt : ∀ inode wd, state.watchOf inode = some wd →
    inode < state.nextInode ∧ wd < state.nextWd
  watch_unique : ∀ first second wd, state.watchOf first = some wd →
    state.watchOf second = some wd → first = second
  entry_lt : ∀ entry ∈ state.pathname_wd_list, entry.wd < state.nextWd

variable {start : CString} {state before after : State} {place : Place} {inode : Nat}

theorem mem_of_inodeOf (found : state.inodeOf place = some inode) :
    ⟨place, inode⟩ ∈ state.directories := by
  obtain ⟨directory, isFirst, rfl⟩ := Option.map_eq_some_iff.mp found
  have samePlace : directory.place = place := by simpa using List.find?_some isFirst
  subst samePlace
  exact List.mem_of_find?_eq_some isFirst

theorem place_ne_of_inodeOf (missing : state.inodeOf place = none) :
    ∀ directory ∈ state.directories, directory.place ≠ place := by
  intro directory member samePlace
  have noMatch := List.find?_eq_none.mp (Option.map_eq_none_iff.mp missing) directory member
  exact noMatch (decide_eq_true samePlace)

theorem WellFormed.ext_inode (wellFormed : WellFormed state) {first second : Directory}
    (isFirst : first ∈ state.directories) (isSecond : second ∈ state.directories)
    (same : first.inode = second.inode) : first = second :=
  List.inj_on_of_nodup_map wellFormed.inodes isFirst isSecond same

theorem WellFormed.ext_place (wellFormed : WellFormed state) {first second : Directory}
    (isFirst : first ∈ state.directories) (isSecond : second ∈ state.directories)
    (same : first.place = second.place) : first = second :=
  List.inj_on_of_nodup_map wellFormed.places isFirst isSecond same

theorem WellFormed.inode_ne (wellFormed : WellFormed state) {first second : Directory}
    (isFirst : first ∈ state.directories) (isSecond : second ∈ state.directories)
    (other : first.place ≠ second.place) : first.inode ≠ second.inode := by
  intro same
  apply other
  rw [wellFormed.ext_inode isFirst isSecond same]

/-- An empty directory is not the parent of another. -/
theorem Empty.not_parent (empty : Empty state place) {directory : Directory}
    (member : directory ∈ state.directories) (other : directory.place ≠ place) {above : Place}
    {name : CString} (below : directory.place = above ++ [name]) : above ≠ place := by
  rintro rfl
  exact other (empty directory member ⟨[name], below.symm⟩)

theorem mem_notified {change : Change} {isDir : Bool} {event : InotifyEvent} :
    event ∈ state.notified inode change isDir ↔
      ∃ wd, state.watchOf inode = some wd ∧ event = ⟨wd, change, isDir⟩ := by
  unfold State.notified
  cases state.watchOf inode with
  | none => simp
  | some wd => simp

/-- What the handler appends to a pathname leads to the entry of that name. -/
theorem placeOf_append {pathname : CString} (found : placeOf start pathname = some place)
    (name : EntryName) :
    placeOf start (pathname ++ slash :: name.bytes) = some (place ++ [name.bytes]) := by
  unfold placeOf at found
  split at found
  case isFalse => cases found
  case isTrue begins =>
    obtain ⟨rest, rfl⟩ := begins
    simp only [List.drop_left] at found
    split at found
    case isFalse => cases found
    case isTrue boundary =>
      cases found
      unfold placeOf
      rw [List.append_assoc, if_pos (List.prefix_append _ _), List.drop_left]
      have split : Pathname.pieces slash (rest ++ slash :: name.bytes) =
          Pathname.pieces slash rest ++ [name.bytes] := by
        rw [Pathname.pieces_append_separator,
          Pathname.pieces_of_notMem slash name.noSlash name.notEmpty]
      have boundary' : rest ++ slash :: name.bytes = [] ∨
          (rest ++ slash :: name.bytes).head? = some slash ∨ start.getLast? = some slash := by
        cases rest with
        | nil => exact .inr (.inl rfl)
        | cons first others =>
            rcases boundary with empty | other
            · cases empty
            · exact .inr other
      dsimp only
      rw [if_pos boundary', split]
/-! ### What a step changes -/

theorem mkdir_cases {parent : Place} {name : EntryName}
    (made : mkdir parent name before = some after) :
    ∃ inode, before.inodeOf parent = some inode ∧
      before.inodeOf (parent ++ [name.bytes]) = none ∧
      after =
        { before with
          directories := ⟨parent ++ [name.bytes], before.nextInode⟩ :: before.directories
          nextInode := before.nextInode + 1
          queue := before.queue ++ before.notified inode (.IN_CREATE name) true } := by
  unfold mkdir at made
  split at made
  case h_1 inode found missing =>
    cases made
    exact ⟨inode, found, missing, rfl⟩
  case h_2 => cases made

theorem rmdir_cases {selfIsDir : Bool} {parent : Place} {name : EntryName}
    (removed : rmdir selfIsDir parent name before = some after) :
    ∃ inode events, before.inodeOf (parent ++ [name.bytes]) = some inode ∧
      Empty before (parent ++ [name.bytes]) ∧
      (∀ event ∈ events, event.change = .IN_DELETE name ∨ event.change = .IN_IGNORED ∨
        event.change = .IN_DELETE_SELF ∧ event.isDir = selfIsDir ∧
          (before.watchOf inode).isSome) ∧
      after =
        { before with
          directories := before.directories.filter (·.place ≠ parent ++ [name.bytes])
          watches := before.watches.filter (·.inode ≠ inode)
          queue := before.queue ++ events } := by
  unfold rmdir at removed
  split at removed
  case h_2 => cases removed
  case h_1 parentInode inode _ found =>
    split at removed
    case isFalse => cases removed
    case isTrue empty =>
      cases removed
      refine ⟨inode, before.notified inode .IN_DELETE_SELF selfIsDir ++
        before.notified inode .IN_IGNORED false ++
        (discard selfIsDir (parent ++ [name.bytes]) inode before).notified parentInode
          (.IN_DELETE name) true, found, empty, ?_, ?_⟩
      · intro event queued
        rcases List.mem_append.mp queued with itself | above
        · rcases List.mem_append.mp itself with deleted | ignored
          · obtain ⟨wd, watched, rfl⟩ := mem_notified.mp deleted
            exact .inr (.inr ⟨rfl, rfl, by rw [watched]; rfl⟩)
          · obtain ⟨wd, -, rfl⟩ := mem_notified.mp ignored
            exact .inr (.inl rfl)
        · obtain ⟨wd, -, rfl⟩ := mem_notified.mp above
          exact .inl rfl
      · simp only [discard, List.append_assoc]
/-- The watches of the other directories stay. -/
theorem watchOf_without (watches : List Watch) (gone : Nat) :
    State.watchOf { before with watches := watches.filter (·.inode ≠ gone) } inode =
      if inode = gone then none else State.watchOf { before with watches := watches } inode := by
  unfold State.watchOf
  rw [KeyedList.find?_filter_key_ne (·.inode) watches gone inode]
  split
  · rfl
  · rfl

/-- What adding a watch does to the watches. -/
structure Adds (before : State) (inode : Nat) (wd : Int) (after : State) : Prop where
  changed : after = { before with watches := after.watches, nextWd := after.nextWd }
  watchOf : ∀ other, after.watchOf other =
    if other = inode then some wd else before.watchOf other
  origin : before.watchOf inode = some wd ∨ before.watchOf inode = none ∧ wd = before.nextWd
  grows : before.nextWd ≤ after.nextWd
  wd_lt : wd < after.nextWd

theorem inotify_add_watch_adds {pathname : CString} (wellFormed : WellFormed before)
    (found : (placeOf start pathname).bind before.inodeOf = some inode) :
    ∃ wd after, inotify_add_watch start pathname before = (some wd, after) ∧
      Adds before inode wd after := by
  unfold inotify_add_watch
  rw [found]
  dsimp only
  cases watched : before.watchOf inode with
  | some wd =>
      refine ⟨wd, before, rfl, rfl, fun other => ?_, .inl watched, Int.le_refl _,
        (wellFormed.watch_lt inode wd watched).2⟩
      split
      case isTrue same =>
        rw [same]
        exact watched
      case isFalse => rfl
  | none =>
      refine ⟨_, _, rfl, rfl, fun other => ?_, .inr ⟨watched, rfl⟩, ?_, ?_⟩
      · unfold State.watchOf
        rw [List.find?_cons]
        by_cases same : inode = other
        · simp [same]
        · simp [same, Ne.symm same]
      · show before.nextWd ≤ before.nextWd + 1
        omega
      · show before.nextWd < before.nextWd + 1
        omega

namespace Adds

variable {wd : Int}

/-- The descriptor belongs to no other directory. -/
theorem unique (adds : Adds before inode wd after) (wellFormed : WellFormed before) {other : Nat}
    (watched : before.watchOf other = some wd) : other = inode := by
  rcases adds.origin with kept | ⟨-, rfl⟩
  · exact wellFormed.watch_unique other inode wd watched kept
  · exact absurd (wellFormed.watch_lt other _ watched).2 (Int.lt_irrefl _)

/-- A watch that existed is still there. -/
theorem keeps (adds : Adds before inode wd after) {other : Nat} {wd' : Int}
    (watched : before.watchOf other = some wd') : after.watchOf other = some wd' := by
  rw [adds.watchOf]
  split
  case isTrue same =>
    subst same
    rcases adds.origin with kept | ⟨unwatched, -⟩
    · rw [← kept]
      exact watched
    · rw [unwatched] at watched
      cases watched
  case isFalse => exact watched

theorem wellFormed (adds : Adds before inode wd after) (wellFormed : WellFormed before)
    (found : before.inodeOf place = some inode) : WellFormed after := by
  have sameDirectories : after.directories = before.directories := by rw [adds.changed]
  have sameInode : after.nextInode = before.nextInode := by rw [adds.changed]
  have sameList : after.pathname_wd_list = before.pathname_wd_list := by rw [adds.changed]
  refine
    { places := ?_, inodes := ?_, inode_lt := ?_, watch_lt := ?_, watch_unique := ?_
      entry_lt := ?_ }
  · rw [sameDirectories]
    exact wellFormed.places
  · rw [sameDirectories]
    exact wellFormed.inodes
  · rw [sameDirectories, sameInode]
    exact wellFormed.inode_lt
  · intro other wd' watched
    rw [adds.watchOf] at watched
    rw [sameInode]
    split at watched
    case isTrue same =>
      cases watched
      subst same
      exact ⟨wellFormed.inode_lt _ (mem_of_inodeOf found), adds.wd_lt⟩
    case isFalse =>
      obtain ⟨inodeLt, wdLt⟩ := wellFormed.watch_lt other wd' watched
      exact ⟨inodeLt, Int.lt_of_lt_of_le wdLt adds.grows⟩
  · intro first second wd' watchedFirst watchedSecond
    rw [adds.watchOf] at watchedFirst watchedSecond
    split at watchedFirst
    case isTrue isTarget =>
      split at watchedSecond
      case isTrue isTarget' => rw [isTarget, isTarget']
      case isFalse =>
        cases watchedFirst
        rw [isTarget, adds.unique wellFormed watchedSecond]
    case isFalse =>
      split at watchedSecond
      case isTrue isTarget =>
        cases watchedSecond
        rw [isTarget, adds.unique wellFormed watchedFirst]
      case isFalse => exact wellFormed.watch_unique first second wd' watchedFirst watchedSecond
  · intro entry member
    rw [sameList] at member
    exact Int.lt_of_lt_of_le (wellFormed.entry_lt entry member) adds.grows

end Adds

end LinuxProgramming.Inotify.Events
