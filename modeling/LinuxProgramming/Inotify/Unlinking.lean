import Mathlib.Data.List.TakeWhile
import LinuxProgramming.Inotify.Events
import LinuxProgramming.Library.LinkedCells

/-!
Contract: the list of watches of `inotify_dirs` as cells in memory.

Owns:
- the branches of `display_modify_inotify_event` that change the list, with their searches;
- that they do to the list in memory what the branches do to the list of entries;
- exactly when the removal of an entry succeeds, and where a new entry stands.

Does not own: the kernel, whose answers are given, and the event queue.
-/

namespace LinuxProgramming.Inotify.Unlinking

open LinuxProgramming.Library LinuxProgramming.Inotify.Events

/-- The entries that are allocated, and `pathname_wd_list.next`. -/
structure Memory where
  cells : Cells PathnameWd
  next : Link

/-- The list that begins at `pathname_wd_list.next`. -/
def Memory.Represents (memory : Memory) (entries : List PathnameWd) : Prop :=
  memory.cells.Represents memory.next entries

/-- What the calls of a branch give: the address of a new entry, a watch descriptor, and
whether there was such a watch. -/
structure Calls where
  malloc : Option Nat
  inotify_add_watch : Option Int
  inotify_rm_watch : Bool

/-- How a branch ends. -/
inductive Ending where
  | returned
  | halted (why : Halt)
  /-- An access to an entry that is not allocated. -/
  | dangling
  | outOfFuel
deriving DecidableEq, Repr

/-- `p` and `tmp_p` at the end of a search. -/
inductive Search where
  | ended (p tmp_p : Link)
  | dangling
  | outOfFuel
deriving DecidableEq, Repr

/-- The loop that looks for a descriptor. -/
def search (cells : Cells PathnameWd) (wd : Int) : Nat → Link → Link → Search
  | _, none, tmp_p => .ended none tmp_p
  | 0, some _, _ => .outOfFuel
  | fuel + 1, some p, tmp_p =>
      match cells p with
      | none => .dangling
      | some cell =>
          if cell.item.wd = wd then .ended (some p) tmp_p
          else search cells wd fuel cell.next (some p)

/-- The branch of `IN_DELETE_SELF`. -/
def removeEntry (fuel : Nat) (calls : Calls) (wd : Int) (memory : Memory) : Ending × Memory :=
  match search memory.cells wd fuel memory.next none with
  | .outOfFuel => (.outOfFuel, memory)
  | .dangling => (.dangling, memory)
  | .ended none _ => (.halted .exit, memory)
  | .ended (some _) none => (.halted .nullPointer, memory)
  | .ended (some p) (some tmp_p) =>
      match memory.cells p, memory.cells tmp_p with
      | some entry, some front =>
          let linked := Function.update memory.cells tmp_p (some ⟨front.item, entry.next⟩)
          let memory := { memory with cells := Function.update linked p none }
          (if calls.inotify_rm_watch then .returned else .halted .exit, memory)
      | _, _ => (.dangling, memory)

/-- The branch of `IN_CREATE`, whose search has no use for `tmp_p`. -/
def addEntry (fuel : Nat) (calls : Calls) (wd : Int) (name : CString) (memory : Memory) :
    Ending × Memory :=
  match search memory.cells wd fuel memory.next none with
  | .outOfFuel => (.outOfFuel, memory)
  | .dangling => (.dangling, memory)
  | .ended none _ => (.halted .exit, memory)
  | .ended (some p) _ =>
      match memory.cells p with
      | none => (.dangling, memory)
      | some parent =>
          let pathname := parent.item.pathname ++ slash :: name
          match calls.malloc with
          | none => (.halted .nullPointer, memory)
          | some new_p =>
              if fits : pathname.length < PATH_MAX then
                match calls.inotify_add_watch with
                | none => (.halted .exit, memory)
                | some wd =>
                    let cells :=
                      Function.update memory.cells new_p (some ⟨⟨pathname, wd, fits⟩, memory.next⟩)
                    (.returned, ⟨cells, some new_p⟩)
              else (.halted .overflow, memory)

/-- `display_modify_inotify_event`. -/
def displayModify (fuel : Nat) (calls : Calls) (event : InotifyEvent) (memory : Memory) :
    Ending × Memory :=
  if event.isDir then
    match event.change with
    | .IN_CREATE name => addEntry fuel calls event.wd name.bytes memory
    | .IN_DELETE_SELF => removeEntry fuel calls event.wd memory
    | _ => (.returned, memory)
  else (.returned, memory)

/-! ### The search -/

/-- `tmp_p` after these entries. -/
def lastOf : List (Nat × PathnameWd) → Link → Link
  | [], tmp_p => tmp_p
  | node :: rest, _ => lastOf rest (some node.1)

theorem lastOf_append_singleton (before : List (Nat × PathnameWd)) (node : Nat × PathnameWd)
    (tmp_p : Link) : lastOf (before ++ [node]) tmp_p = some node.1 := by
  induction before generalizing tmp_p with
  | nil => rfl
  | cons first rest inductionHypothesis => exact inductionHypothesis (some first.1)

/-- The search passes the entries with other descriptors. -/
theorem search_segment {cells : Cells PathnameWd} {wd : Int} {start stop : Link}
    {before : List (Nat × PathnameWd)} (segment : cells.Segment start before stop)
    (others : ∀ node ∈ before, node.2.wd ≠ wd) (fuel : Nat) (tmp_p : Link) :
    search cells wd (before.length + fuel) start tmp_p =
      search cells wd fuel stop (lastOf before tmp_p) := by
  induction before generalizing start tmp_p with
  | nil =>
      rw [Cells.segment_nil.mp segment, List.length_nil, Nat.zero_add]
      rfl
  | cons node rest inductionHypothesis =>
      obtain ⟨address, item⟩ := node
      obtain ⟨rfl, next, found, segmentRest⟩ := segment
      have other : item.wd ≠ wd := others _ List.mem_cons_self
      have othersRest : ∀ node ∈ rest, node.2.wd ≠ wd :=
        fun node member => others node (List.mem_cons_of_mem _ member)
      have passed := inductionHypothesis segmentRest othersRest (some address)
      rw [List.length_cons, Nat.add_right_comm, search, found]
      simp only [other, ↓reduceIte]
      exact passed

theorem search_missing {cells : Cells PathnameWd} {wd : Int} {start : Link}
    {nodes : List (Nat × PathnameWd)} (segment : cells.Segment start nodes none)
    (others : ∀ node ∈ nodes, node.2.wd ≠ wd) {fuel : Nat} (enough : nodes.length < fuel)
    (tmp_p : Link) : search cells wd fuel start tmp_p = .ended none (lastOf nodes tmp_p) := by
  obtain ⟨more, rfl⟩ := Nat.exists_eq_add_of_lt enough
  rw [Nat.add_assoc, search_segment segment others (more + 1) tmp_p, search]

theorem search_found {cells : Cells PathnameWd} {start : Link}
    (before : List (Nat × PathnameWd)) {after : List (Nat × PathnameWd)} {address : Nat}
    {entry : PathnameWd}
    (segment : cells.Segment start (before ++ (address, entry) :: after) none)
    (others : ∀ node ∈ before, node.2.wd ≠ entry.wd) {fuel : Nat} (enough : before.length < fuel)
    (tmp_p : Link) :
    search cells entry.wd fuel start tmp_p = .ended (some address) (lastOf before tmp_p) := by
  obtain ⟨more, rfl⟩ := Nat.exists_eq_add_of_lt enough
  obtain ⟨middle, first, rfl, next, found, _⟩ := (Cells.segment_append before _).mp segment
  rw [Nat.add_assoc, search_segment first others (more + 1) tmp_p, search, found]
  simp only [↓reduceIte]

/-! ### The removal -/

variable {fuel : Nat} {calls : Calls} {memory : Memory} {entries : List PathnameWd}

/-- The removal of the first entry: there is no entry in front, and `tmp_p` is null. -/
theorem removeEntry_first {entry : PathnameWd} {after : List PathnameWd}
    (represents : memory.Represents (entry :: after)) (enough : 0 < fuel) :
    removeEntry fuel calls entry.wd memory = (.halted .nullPointer, memory) := by
  obtain ⟨nodes, segment, items⟩ := represents
  obtain ⟨⟨address, first⟩, rest, rfl, rfl, rfl⟩ := List.map_eq_cons_iff.mp items
  have found := search_found [] segment (by simp) enough none
  rw [removeEntry, found]
  rfl

/-- The removal of a later entry. -/
theorem removeEntry_later (calls : Calls) {before after : List PathnameWd} {entry : PathnameWd}
    (represents : memory.Represents (before ++ entry :: after)) (notFirst : before ≠ [])
    (others : ∀ other ∈ before, other.wd ≠ entry.wd) (enough : before.length < fuel) :
    ∃ removed, removeEntry fuel calls entry.wd memory =
        (if calls.inotify_rm_watch then .returned else .halted .exit, removed) ∧
      removed.Represents (before ++ after) := by
  obtain ⟨nodes, segment, items⟩ := represents
  obtain ⟨passedFront, _, rfl, rfl, itemsLater⟩ := List.map_eq_append_iff.mp items
  obtain ⟨⟨address, entry⟩, rest, rfl, rfl, rfl⟩ := List.map_eq_cons_iff.mp itemsLater
  have someFront : passedFront ≠ [] := fun none => notFirst (by rw [none, List.map_nil])
  obtain ⟨passed, ⟨frontAddress, front⟩, rfl⟩ :=
    (List.eq_nil_or_concat' passedFront).resolve_left someFront
  have othersNodes : ∀ node ∈ passed ++ [(frontAddress, front)], node.2.wd ≠ entry.wd :=
    fun node member => others node.2 (List.mem_map_of_mem member)
  have found := search_found _ segment othersNodes (by simpa using enough) none
  rw [lastOf_append_singleton] at found
  rw [List.append_assoc, List.singleton_append] at segment
  obtain ⟨next, frontFound, entryFound, unlinked⟩ := Cells.segment_unlink segment
  let linked := Function.update memory.cells frontAddress (some ⟨front, next⟩)
  refine ⟨⟨Function.update linked address none, memory.next⟩, ?_, ⟨_, unlinked, by simp⟩⟩
  rw [removeEntry, found]
  simp only [entryFound, frontFound, linked]

/-- Where the entry with a descriptor stands. -/
theorem split_at_entry {entry : PathnameWd} (distinct : (entries.map (·.wd)).Nodup)
    (member : entry ∈ entries) :
    ∃ before after, entries = before ++ entry :: after ∧
      (∀ other ∈ before, other.wd ≠ entry.wd) ∧ entries.erase entry = before ++ after := by
  obtain ⟨before, after, rfl⟩ := List.append_of_mem member
  rw [List.map_append, List.map_cons, List.nodup_append] at distinct
  have others : ∀ other ∈ before, other.wd ≠ entry.wd := fun other isBefore =>
    distinct.2.2 other.wd (List.mem_map_of_mem isBefore) entry.wd List.mem_cons_self
  have notBefore : entry ∉ before := fun isBefore => others entry isBefore rfl
  refine ⟨before, after, rfl, others, ?_⟩
  rw [List.erase_append_right _ notBefore, List.erase_cons_head]

theorem fits_root : [slash].length < PATH_MAX := by decide

theorem fits_below : [slash, 97].length < PATH_MAX := by decide

/-- The watches of a directory and of one that was created in it. -/
def rootWatch : PathnameWd := ⟨[slash], 1, fits_root⟩

def belowWatch : PathnameWd := ⟨[slash, 97], 2, fits_below⟩

def twoEntries : Memory where
  cells address :=
    if address = 0 then some ⟨rootWatch, none⟩
    else if address = 1 then some ⟨belowWatch, some 0⟩
    else none
  next := some 1

theorem twoEntries_represents : twoEntries.Represents [belowWatch, rootWatch] :=
  ⟨[(1, belowWatch), (0, rootWatch)], ⟨rfl, some 0, rfl, rfl, none, rfl, rfl⟩, rfl⟩

/-- Calls that succeed, without memory for a new entry. -/
def succeed : Calls := ⟨none, none, true⟩

/-- A new entry stands in front of the others. -/
theorem addEntry_returned {after : Memory} {wd : Int} {name : CString}
    (returned : addEntry fuel calls wd name memory = (.returned, after)) :
    ∃ new_p new_wd entry, calls.inotify_add_watch = some new_wd ∧ entry.wd = new_wd ∧
      after = ⟨Function.update memory.cells new_p (some ⟨entry, memory.next⟩), some new_p⟩ := by
  unfold addEntry at returned
  cases searched : search memory.cells wd fuel memory.next none with
  | outOfFuel => simp [searched] at returned
  | dangling => simp [searched] at returned
  | ended p tmp_p =>
      cases p with
      | none => simp [searched] at returned
      | some p =>
          cases parentCell : memory.cells p with
          | none => simp [searched, parentCell] at returned
          | some parent =>
              cases allocated : calls.malloc with
              | none => simp [searched, parentCell, allocated] at returned
              | some new_p =>
                  simp only [searched, parentCell, allocated] at returned
                  split at returned
                  case isFalse => cases returned
                  case isTrue fits =>
                    cases added : calls.inotify_add_watch with
                    | none => simp [added] at returned
                    | some new_wd =>
                        rw [added] at returned
                        cases returned
                        exact ⟨new_p, new_wd, _, rfl, rfl, rfl⟩

/-- A directory that is deleted while its entry is the newest one halts the program. -/
theorem created_deleteSelf {after : Memory} {wd new_wd : Int} {name : EntryName}
    (created : displayModify fuel calls ⟨wd, .IN_CREATE name, true⟩ memory = (.returned, after))
    (watched : calls.inotify_add_watch = some new_wd) (later : Nat) (others : Calls) :
    displayModify (later + 1) others ⟨new_wd, .IN_DELETE_SELF, true⟩ after =
      (.halted .nullPointer, after) := by
  obtain ⟨new_p, answered, entry, added, rfl, rfl⟩ := addEntry_returned created
  obtain rfl : entry.wd = new_wd := Option.some.inj (added.symm.trans watched)
  have found : search (Function.update memory.cells new_p (some ⟨entry, memory.next⟩)) entry.wd
      (later + 1) (some new_p) none = .ended (some new_p) none := by
    rw [search, Function.update_self]
    exact if_pos rfl
  show removeEntry (later + 1) others entry.wd _ = _
  rw [removeEntry, found]

/-! ### The entries in memory and the list of entries -/

/-- The calls give what the kernel gives in a state of the monitor. -/
structure Answers (start : CString) (allocated : Bool) (event : InotifyEvent) (state : State)
    (memory : Memory) (calls : Calls) : Prop where
  malloc : if allocated then ∃ new_p, calls.malloc = some new_p ∧ memory.cells new_p = none
    else calls.malloc = none
  add_watch : ∀ entry name,
    (state.pathname_wd_list.find? fun entry => entry.wd = event.wd) = some entry →
    event.change = .IN_CREATE name →
    calls.inotify_add_watch =
      (inotify_add_watch start (entry.pathname ++ slash :: name.bytes) state).1
  rm_watch : calls.inotify_rm_watch = (inotify_rm_watch event.wd state).1

/-- How a branch ends that leaves a state of the monitor. -/
def endingOf : Option Halt → Ending
  | none => .returned
  | some why => .halted why

/-- A branch on the memory agrees with a state of the monitor after the branch. -/
def Agrees (outcome : Ending × Memory) (state : State) : Prop :=
  outcome.1 = endingOf state.halted ∧ outcome.2.Represents state.pathname_wd_list

variable {state : State} {start : CString} {allocated : Bool} {wd : Int}

theorem inotify_rm_watch_keeps (wd : Int) (state : State) :
    (inotify_rm_watch wd state).2.pathname_wd_list = state.pathname_wd_list ∧
      (inotify_rm_watch wd state).2.halted = state.halted := by
  unfold inotify_rm_watch
  split
  · exact ⟨rfl, rfl⟩
  · exact ⟨rfl, rfl⟩

theorem inotify_add_watch_keeps (start pathname : CString) (state : State) :
    (inotify_add_watch start pathname state).2.pathname_wd_list = state.pathname_wd_list ∧
      (inotify_add_watch start pathname state).2.halted = state.halted := by
  unfold inotify_add_watch
  split
  · exact ⟨rfl, rfl⟩
  · split
    · exact ⟨rfl, rfl⟩
    · exact ⟨rfl, rfl⟩

/-- Either no entry has the descriptor, or there is a first one. -/
theorem entry_cases (entries : List PathnameWd) (wd : Int) :
    (∀ entry ∈ entries, entry.wd ≠ wd) ∨
      ∃ before entry after, entries = before ++ entry :: after ∧ entry.wd = wd ∧
        ∀ other ∈ before, other.wd ≠ wd := by
  cases found : entries.find? fun entry => entry.wd = wd with
  | none =>
      refine Or.inl fun entry member => ?_
      simpa using List.find?_eq_none.mp found entry member
  | some entry =>
      obtain ⟨matching, before, after, shape, others⟩ := List.find?_eq_some_iff_append.mp found
      refine Or.inr ⟨before, entry, after, shape, by simpa using matching, ?_⟩
      intro other member
      simpa using others other member

theorem removeEntry_missing (represents : memory.Represents entries)
    (others : ∀ entry ∈ entries, entry.wd ≠ wd) (enough : entries.length < fuel) :
    removeEntry fuel calls wd memory = (.halted .exit, memory) := by
  obtain ⟨nodes, segment, rfl⟩ := represents
  have othersNodes : ∀ node ∈ nodes, node.2.wd ≠ wd :=
    fun node member => others node.2 (List.mem_map_of_mem member)
  rw [removeEntry, search_missing segment othersNodes (by simpa using enough) none]

theorem span_entry (before after : List PathnameWd) {entry : PathnameWd}
    (others : ∀ other ∈ before, other.wd ≠ entry.wd) :
    (before ++ entry :: after).span (fun other => other.wd ≠ entry.wd) =
      (before, entry :: after) := by
  rw [List.span_eq_takeWhile_dropWhile, List.takeWhile_append_of_pos (by simpa using others),
    List.dropWhile_append_of_pos (by simpa using others)]
  simp

theorem removeWatch_missing (others : ∀ entry ∈ state.pathname_wd_list, entry.wd ≠ wd) :
    removeWatch wd state = halt .exit state := by
  have spanEq : state.pathname_wd_list.span (fun entry => entry.wd ≠ wd) =
      (state.pathname_wd_list, []) := by
    rw [List.span_eq_takeWhile_dropWhile, List.takeWhile_eq_self_iff.mpr (by simpa using others),
      List.dropWhile_eq_nil_iff.mpr (by simpa using others)]
  unfold removeWatch
  rw [spanEq]

theorem removeWatch_first {entry : PathnameWd} {after : List PathnameWd}
    (shape : state.pathname_wd_list = entry :: after) :
    removeWatch entry.wd state = halt .nullPointer state := by
  have others : ∀ other ∈ ([] : List PathnameWd), other.wd ≠ entry.wd := by simp
  have spanEq := span_entry [] after others
  rw [List.nil_append, ← shape] at spanEq
  unfold removeWatch
  rw [spanEq, shape]

theorem removeWatch_later {before after : List PathnameWd} {entry : PathnameWd}
    (shape : state.pathname_wd_list = before ++ entry :: after) (notFirst : before ≠ [])
    (others : ∀ other ∈ before, other.wd ≠ entry.wd) :
    removeWatch entry.wd state =
      let answered := inotify_rm_watch entry.wd { state with pathname_wd_list := before ++ after }
      if answered.1 then answered.2 else halt .exit answered.2 := by
  have spanEq := span_entry before after others
  rw [← shape] at spanEq
  obtain ⟨first, between, rfl⟩ := List.exists_cons_of_ne_nil notFirst
  unfold removeWatch
  rw [spanEq]
  dsimp only
  cases inotify_rm_watch entry.wd { state with pathname_wd_list := first :: between ++ after } with
  | mk success later =>
      cases success with
      | true => rfl
      | false => rfl

/-- What the kernel answers does not depend on the list. -/
theorem inotify_rm_watch_relist (wd : Int) (state : State) (entries : List PathnameWd) :
    (inotify_rm_watch wd { state with pathname_wd_list := entries }).1 =
      (inotify_rm_watch wd state).1 := by
  unfold inotify_rm_watch
  split
  · rfl
  · rfl

theorem removeEntry_agrees (running : state.halted = none)
    (represents : memory.Represents state.pathname_wd_list)
    (enough : state.pathname_wd_list.length < fuel)
    (answer : calls.inotify_rm_watch = (inotify_rm_watch wd state).1) :
    Agrees (removeEntry fuel calls wd memory) (removeWatch wd state) := by
  rcases entry_cases state.pathname_wd_list wd with missing | found
  · rw [removeEntry_missing represents missing enough, removeWatch_missing missing]
    exact ⟨rfl, represents⟩
  · obtain ⟨before, entry, after, shape, rfl, others⟩ := found
    by_cases isFirst : before = []
    · subst isFirst
      rw [removeWatch_first shape]
      rw [shape] at represents enough
      rw [removeEntry_first represents (Nat.zero_lt_of_lt enough)]
      exact ⟨rfl, shape.symm ▸ represents⟩
    · rw [removeWatch_later shape isFirst others]
      rw [shape] at represents enough
      have shorter : before.length < fuel := by
        rw [List.length_append] at enough
        exact Nat.lt_of_le_of_lt (Nat.le_add_right _ _) enough
      obtain ⟨removed, ends, representsRemoved⟩ :=
        removeEntry_later calls represents isFirst others shorter
      have keeps := inotify_rm_watch_keeps entry.wd
        { state with pathname_wd_list := before ++ after }
      rw [ends, answer, ← inotify_rm_watch_relist entry.wd state (before ++ after)]
      dsimp only
      split
      · refine ⟨?_, keeps.1.symm ▸ representsRemoved⟩
        rw [keeps.2, running]
        rfl
      · exact ⟨rfl, keeps.1.symm ▸ representsRemoved⟩

/-- The search of `IN_CREATE` finds the entry that `find?` finds. -/
theorem search_find? {entry : PathnameWd} (represents : memory.Represents entries)
    (found : (entries.find? fun entry => entry.wd = wd) = some entry)
    (enough : entries.length < fuel) :
    ∃ p tmp_p next, search memory.cells wd fuel memory.next none = .ended (some p) tmp_p ∧
      memory.cells p = some ⟨entry, next⟩ := by
  obtain ⟨matching, before, after, rfl, others⟩ := List.find?_eq_some_iff_append.mp found
  obtain rfl : entry.wd = wd := by simpa using matching
  obtain ⟨nodes, segment, items⟩ := represents
  obtain ⟨passed, _, rfl, rfl, itemsLater⟩ := List.map_eq_append_iff.mp items
  obtain ⟨⟨address, entry⟩, rest, rfl, rfl, rfl⟩ := List.map_eq_cons_iff.mp itemsLater
  have othersNodes : ∀ node ∈ passed, node.2.wd ≠ entry.wd := by
    intro node member
    simpa using others node.2 (List.mem_map_of_mem member)
  have shorter : passed.length < fuel := by
    simp only [List.length_append, List.length_map] at enough
    omega
  obtain ⟨middle, _, rfl, next, foundCell, _⟩ := (Cells.segment_append passed _).mp segment
  exact ⟨address, _, next, search_found passed segment othersNodes shorter none, foundCell⟩

theorem addEntry_agrees {event : InotifyEvent} {name : EntryName}
    (running : state.halted = none) (represents : memory.Represents state.pathname_wd_list)
    (enough : state.pathname_wd_list.length < fuel)
    (answers : Answers start allocated event state memory calls)
    (creates : event.change = .IN_CREATE name) :
    Agrees (addEntry fuel calls event.wd name.bytes memory)
      (addWatch start allocated event.wd name state) := by
  unfold addWatch
  cases found : state.pathname_wd_list.find? fun entry => entry.wd = event.wd with
  | none =>
      have others : ∀ entry ∈ state.pathname_wd_list, entry.wd ≠ event.wd := by
        intro entry member
        simpa using List.find?_eq_none.mp found entry member
      obtain ⟨nodes, segment, items⟩ := represents
      have othersNodes : ∀ node ∈ nodes, node.2.wd ≠ event.wd :=
        fun node member => others node.2 (items ▸ List.mem_map_of_mem member)
      have enoughNodes : nodes.length < fuel := by
        rw [← items, List.length_map] at enough
        exact enough
      rw [addEntry, search_missing segment othersNodes enoughNodes none]
      exact ⟨rfl, nodes, segment, items⟩
  | some entry =>
      obtain ⟨p, tmp_p, next, searched, foundCell⟩ := search_find? represents found enough
      have mallocAnswer := answers.malloc
      have addAnswer := answers.add_watch entry name found creates
      have keeps := inotify_add_watch_keeps start (entry.pathname ++ slash :: name.bytes) state
      unfold addEntry
      simp only [searched, foundCell]
      cases allocated with
      | false =>
          rw [if_neg Bool.false_ne_true] at mallocAnswer
          simp only [mallocAnswer, Bool.false_eq_true, not_false_eq_true, ↓reduceIte]
          exact ⟨rfl, represents⟩
      | true =>
          rw [if_pos rfl] at mallocAnswer
          obtain ⟨new_p, allocates, free⟩ := mallocAnswer
          simp only [allocates, not_true_eq_false, ↓reduceIte]
          by_cases fits : (entry.pathname ++ slash :: name.bytes).length < PATH_MAX
          · simp only [fits, ↓reduceDIte, addAnswer]
            generalize inotify_add_watch start (entry.pathname ++ slash :: name.bytes) state =
              added at keeps ⊢
            obtain ⟨answer, later⟩ := added
            cases answer with
            | none => exact ⟨rfl, keeps.1.symm ▸ represents⟩
            | some wd =>
                refine ⟨?_, ?_⟩
                · show Ending.returned = endingOf later.halted
                  rw [keeps.2, running]
                  rfl
                · show Cells.Represents _ _ (_ :: later.pathname_wd_list)
                  rw [keeps.1]
                  exact Cells.represents_push represents free _
          · simp only [fits, ↓reduceDIte]
            exact ⟨rfl, represents⟩

/-- The handler on the entries in memory does what it does on the list of entries. -/
theorem displayModify_agrees {event : InotifyEvent} (running : state.halted = none)
    (represents : memory.Represents state.pathname_wd_list)
    (enough : state.pathname_wd_list.length < fuel)
    (answers : Answers start allocated event state memory calls) :
    Agrees (displayModify fuel calls event memory)
      (display_modify_inotify_event start allocated event state) := by
  have unchanged : Agrees (.returned, memory) state := ⟨by rw [running, endingOf], represents⟩
  unfold displayModify display_modify_inotify_event
  split
  · cases changes : event.change with
    | IN_CREATE name => exact addEntry_agrees running represents enough answers changes
    | IN_DELETE_SELF => exact removeEntry_agrees running represents enough answers.rm_watch
    | IN_DELETE name => exact unchanged
    | IN_MOVED_FROM name => exact unchanged
    | IN_MOVED_TO name => exact unchanged
    | IN_MOVE_SELF => exact unchanged
    | IN_IGNORED => exact unchanged
  · exact unchanged

end LinuxProgramming.Inotify.Unlinking
