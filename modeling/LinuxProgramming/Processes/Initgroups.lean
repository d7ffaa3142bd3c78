import Mathlib.Data.List.Basic

/-!
Contract: `my_initgroups`, called once or twice in one process.

Owns:
- the array `grouplist` and the position in the group database, which outlive a call;
- the list that a call passes to `setgroups`, from any state of the process;
- exactly when a second call passes the list that it passes in a process of its own.

Does not own: what the kernel makes of the list. An error while the group database is read
is taken for its end, as in the program.
-/

namespace LinuxProgramming.Processes.Initgroups

def NGROUPS_MAX : Nat := 65536

structure Passwd where
  pw_name : List UInt8
  pw_gid : UInt32
deriving DecidableEq, Repr

structure Group where
  gr_gid : UInt32
  gr_mem : List (List UInt8)
deriving DecidableEq, Repr

structure Databases where
  passwd : List Passwd
  groups : List Group
deriving DecidableEq, Repr

def Databases.getpwnam (databases : Databases) (name : List UInt8) : Option Passwd :=
  databases.passwd.find? fun entry => entry.pw_name = name

/-- What outlives a call: the first `grouplist_size` entries of `grouplist`, and how many
groups `getgrent` has returned. -/
structure Process where
  grouplist : List UInt32
  position : Nat
deriving DecidableEq, Repr

def Process.initial : Process := ⟨[], 0⟩

/-- `grouplist[grouplist_size++] = gid`; `none` if it writes past the end of the array. -/
def Process.store (process : Process) (gid : UInt32) : Option Process :=
  if process.grouplist.length < NGROUPS_MAX + 1 then
    some { process with grouplist := process.grouplist ++ [gid] }
  else none

/-- One iteration of the loop over the group database. -/
def visit (user : List UInt8) (process : Process) (group : Group) : Option Process :=
  let process := { process with position := process.position + 1 }
  if group.gr_mem.any (· = user) then process.store group.gr_gid else some process

/-- The result of a call, and the list that it passes to `setgroups` if it comes to that. -/
structure Returned where
  retval : Int
  passed : Option (List UInt32)
  process : Process
deriving DecidableEq, Repr

/-- `my_initgroups`: `getgrent` goes on where it has stopped. -/
def myInitgroups (setgroups : List UInt32 → Int) (databases : Databases) (user : List UInt8)
    (group : UInt32) (process : Process) : Option Returned :=
  match databases.getpwnam user with
  | none => some ⟨-1, none, process⟩
  | some user_msg => do
      let process ← process.store user_msg.pw_gid
      let process ← (databases.groups.drop process.position).foldlM (visit user) process
      let process ← process.store group
      return ⟨setgroups process.grouplist, some process.grouplist, process⟩

/-! ### One call -/

/-- The groups among these that list the user. -/
def memberGroups (user : List UInt8) (groups : List Group) : List UInt32 :=
  (groups.filter fun group => group.gr_mem.any (· = user)).map Group.gr_gid

@[simp]
theorem memberGroups_nil (user : List UInt8) : memberGroups user [] = [] := rfl

theorem memberGroups_cons (user : List UInt8) (group : Group) (rest : List Group) :
    memberGroups user (group :: rest) =
      if group.gr_mem.any (· = user) then group.gr_gid :: memberGroups user rest
      else memberGroups user rest := by
  rw [memberGroups, List.filter_cons]
  split <;> rfl

/-- The loop over the group database: it stores the groups of the user, if they fit. -/
theorem foldlM_visit (user : List UInt8) (groups : List Group) {process : Process}
    (room : process.grouplist.length ≤ NGROUPS_MAX + 1) :
    groups.foldlM (visit user) process =
      if process.grouplist.length + (memberGroups user groups).length ≤ NGROUPS_MAX + 1 then
        some ⟨process.grouplist ++ memberGroups user groups, process.position + groups.length⟩
      else none := by
  induction groups generalizing process with
  | nil =>
      rw [if_pos (by simpa using room), memberGroups_nil, List.append_nil]
      rfl
  | cons group rest inductionHypothesis =>
      rw [List.foldlM_cons, visit, memberGroups_cons]
      by_cases listed : group.gr_mem.any (· = user)
      · rw [if_pos listed, if_pos listed, Process.store, List.length_cons]
        by_cases free : process.grouplist.length < NGROUPS_MAX + 1
        · have roomLater : (process.grouplist ++ [group.gr_gid]).length ≤ NGROUPS_MAX + 1 := by
            rw [List.length_append, List.length_singleton]
            omega
          rw [if_pos free, Option.bind_eq_bind, Option.bind_some, inductionHypothesis roomLater]
          simp only [List.length_append, List.length_cons, List.length_nil, List.append_assoc,
            List.singleton_append, Nat.add_assoc, Nat.zero_add, Nat.add_comm 1]
        · rw [if_neg free, if_neg (by omega)]
          rfl
      · have roomLater : (⟨process.grouplist, process.position + 1⟩ : Process).grouplist.length ≤
            NGROUPS_MAX + 1 := room
        rw [if_neg listed, if_neg listed, Option.bind_eq_bind, Option.bind_some,
          inductionHypothesis roomLater]
        simp only [List.length_cons, Nat.add_assoc, Nat.add_comm 1]

/-- The list that a call stores behind what is in the array. -/
def stored (databases : Databases) (user : List UInt8) (pw_gid group : UInt32) (position : Nat) :
    List UInt32 :=
  pw_gid :: (memberGroups user (databases.groups.drop position) ++ [group])

theorem length_stored (databases : Databases) (user : List UInt8) (pw_gid group : UInt32)
    (position : Nat) : (stored databases user pw_gid group position).length =
      (memberGroups user (databases.groups.drop position)).length + 2 := by
  rw [stored, List.length_cons, List.length_append, List.length_singleton]

/-- A call, from any state of the process. -/
theorem myInitgroups_eq (setgroups : List UInt32 → Int) {databases : Databases}
    {user : List UInt8} {user_msg : Passwd} (found : databases.getpwnam user = some user_msg)
    (group : UInt32) (process : Process) :
    myInitgroups setgroups databases user group process =
      let list := process.grouplist ++ stored databases user user_msg.pw_gid group process.position
      if list.length ≤ NGROUPS_MAX + 1 then
        some ⟨setgroups list, some list,
          ⟨list, process.position + (databases.groups.drop process.position).length⟩⟩
      else none := by
  simp only [List.length_append, length_stored]
  rw [myInitgroups, found]
  simp only [Process.store, Option.bind_eq_bind]
  by_cases free : process.grouplist.length < NGROUPS_MAX + 1
  · have room : (process.grouplist ++ [user_msg.pw_gid]).length ≤ NGROUPS_MAX + 1 := by
      rw [List.length_append, List.length_singleton]
      omega
    rw [if_pos free, Option.bind_some, foldlM_visit user _ room, List.length_append,
      List.length_singleton]
    by_cases fits : process.grouplist.length + 1 +
        (memberGroups user (databases.groups.drop process.position)).length ≤ NGROUPS_MAX + 1
    · rw [if_pos fits, Option.bind_some]
      simp only [List.length_append, List.length_singleton]
      by_cases last : process.grouplist.length + 1 +
          (memberGroups user (databases.groups.drop process.position)).length < NGROUPS_MAX + 1
      · rw [if_pos last, if_pos (by omega)]
        simp [stored]
      · rw [if_neg last, if_neg (by omega)]
        rfl
    · rw [if_neg fits, if_neg (by omega)]
      rfl
  · rw [if_neg free, if_neg (by omega)]
    rfl

/-! ### A call after another one -/

/-- What a call in a process of its own passes to `setgroups`. -/
def passedAlone (setgroups : List UInt32 → Int) (databases : Databases) (user : List UInt8)
    (group : UInt32) : Option (Option (List UInt32)) :=
  (myInitgroups setgroups databases user group Process.initial).map Returned.passed

/-- What a call passes to `setgroups` in a process that has called for another user. -/
def passedSecond (setgroups : List UInt32 → Int) (databases : Databases) (first : List UInt8)
    (firstGroup : UInt32) (user : List UInt8) (group : UInt32) :
    Option (Option (List UInt32)) :=
  (myInitgroups setgroups databases first firstGroup Process.initial).bind fun returned =>
    (myInitgroups setgroups databases user group returned.process).map Returned.passed

/-- The list of the user fits into the array. -/
def Databases.Fits (databases : Databases) (user : List UInt8) : Prop :=
  (memberGroups user databases.groups).length + 2 ≤ NGROUPS_MAX + 1

/-- A call for `first` does not show in one for `user`: one of the two does not exist, or the
groups of `user` go on where the list of `first` ends. -/
def Databases.Harmless (databases : Databases) (first : List UInt8) (firstGroup : UInt32)
    (user : List UInt8) : Prop :=
  match databases.getpwnam first, databases.getpwnam user with
  | none, none => True
  | none, some _ => databases.Fits user
  | some _, none => databases.Fits first
  | some firstMsg, some userMsg =>
      databases.Fits user ∧ firstMsg.pw_gid = userMsg.pw_gid ∧
        memberGroups user databases.groups =
          memberGroups first databases.groups ++ [firstGroup, userMsg.pw_gid]

/-- A user that does not exist leaves the process as it is. -/
theorem myInitgroups_absent (setgroups : List UInt32 → Int) {databases : Databases}
    {user : List UInt8} (absent : databases.getpwnam user = none) (group : UInt32)
    (process : Process) : myInitgroups setgroups databases user group process =
      some ⟨-1, none, process⟩ := by
  rw [myInitgroups, absent]

/-- What a call is to pass: the group of the password file, those that list the user, and
the one that is asked for. -/
def Databases.supplementary (databases : Databases) (user : List UInt8) (pw_gid group : UInt32) :
    List UInt32 :=
  pw_gid :: (memberGroups user databases.groups ++ [group])

theorem Databases.fits_iff (databases : Databases) (user : List UInt8) (pw_gid group : UInt32) :
    databases.Fits user ↔
      (databases.supplementary user pw_gid group).length ≤ NGROUPS_MAX + 1 := by
  rw [Databases.supplementary, List.length_cons, List.length_append, List.length_singleton]
  rfl

/-- The first call for a user in a process. -/
theorem myInitgroups_initial (setgroups : List UInt32 → Int) {databases : Databases}
    {user : List UInt8} {user_msg : Passwd} (found : databases.getpwnam user = some user_msg)
    (group : UInt32) :
    myInitgroups setgroups databases user group Process.initial =
      let list := databases.supplementary user user_msg.pw_gid group
      if list.length ≤ NGROUPS_MAX + 1 then
        some ⟨setgroups list, some list, ⟨list, databases.groups.length⟩⟩
      else none := by
  rw [myInitgroups_eq setgroups found]
  simp only [Process.initial, stored, List.nil_append, List.drop_zero, Nat.zero_add]
  rfl

theorem myInitgroups_fits (setgroups : List UInt32 → Int) {databases : Databases}
    {user : List UInt8} {user_msg : Passwd} (found : databases.getpwnam user = some user_msg)
    (group : UInt32) (fits : databases.Fits user) :
    myInitgroups setgroups databases user group Process.initial =
      let list := databases.supplementary user user_msg.pw_gid group
      some ⟨setgroups list, some list, ⟨list, databases.groups.length⟩⟩ := by
  rw [myInitgroups_initial setgroups found]
  exact if_pos ((databases.fits_iff user user_msg.pw_gid group).mp fits)

theorem myInitgroups_overflows (setgroups : List UInt32 → Int) {databases : Databases}
    {user : List UInt8} {user_msg : Passwd} (found : databases.getpwnam user = some user_msg)
    (group : UInt32) (long : ¬ databases.Fits user) :
    myInitgroups setgroups databases user group Process.initial = none := by
  rw [myInitgroups_initial setgroups found]
  exact if_neg fun short => long ((databases.fits_iff user user_msg.pw_gid group).mpr short)

/-- A call after the group database has been read to its end. -/
theorem myInitgroups_later (setgroups : List UInt32 → Int) {databases : Databases}
    {user : List UInt8} {user_msg : Passwd} (found : databases.getpwnam user = some user_msg)
    (group : UInt32) (grouplist : List UInt32) :
    myInitgroups setgroups databases user group ⟨grouplist, databases.groups.length⟩ =
      let list := grouplist ++ [user_msg.pw_gid, group]
      if list.length ≤ NGROUPS_MAX + 1 then
        some ⟨setgroups list, some list, ⟨list, databases.groups.length⟩⟩
      else none := by
  rw [myInitgroups_eq setgroups found]
  simp only [stored, List.drop_length, memberGroups_nil, List.nil_append, List.length_nil,
    Nat.add_zero]

/-- The list of the second call is right exactly if the groups of its user go on where those
of the first one end. -/
theorem supplementary_append_eq_iff (databases : Databases) (first user : List UInt8)
    (before own g h : UInt32) :
    databases.supplementary first before g ++ [own, h] = databases.supplementary user own h ↔
      before = own ∧ memberGroups user databases.groups =
        memberGroups first databases.groups ++ [g, own] := by
  rw [Databases.supplementary, Databases.supplementary, List.cons_append, List.cons.injEq]
  refine and_congr_right fun _ => ?_
  have regroup (listed : List UInt32) : listed ++ [g] ++ [own, h] = listed ++ [g, own] ++ [h] := by
    simp
  rw [regroup, List.append_cancel_right_eq, eq_comm]

/-- Two calls for users that both exist. -/
theorem passedSecond_of_both (setgroups : List UInt32 → Int) {databases : Databases}
    {first user : List UInt8} {firstMsg userMsg : Passwd}
    (isFirst : databases.getpwnam first = some firstMsg)
    (isUser : databases.getpwnam user = some userMsg) (firstGroup group : UInt32)
    (fits : databases.Fits user) :
    passedSecond setgroups databases first firstGroup user group =
        some (some (databases.supplementary user userMsg.pw_gid group)) ↔
      firstMsg.pw_gid = userMsg.pw_gid ∧ memberGroups user databases.groups =
        memberGroups first databases.groups ++ [firstGroup, userMsg.pw_gid] := by
  rw [← supplementary_append_eq_iff (h := group), passedSecond]
  have short := (databases.fits_iff user userMsg.pw_gid group).mp fits
  by_cases fitsFirst : databases.Fits first
  · rw [myInitgroups_fits setgroups isFirst firstGroup fitsFirst, Option.bind_some,
      myInitgroups_later setgroups isUser]
    by_cases room : (databases.supplementary first firstMsg.pw_gid firstGroup ++
        [userMsg.pw_gid, group]).length ≤ NGROUPS_MAX + 1
    · simp only [if_pos room, Option.map_some, Option.some.injEq]
    · refine iff_of_false ?_ fun same => room (same ▸ short)
      simp only [if_neg room, Option.map_none, reduceCtorEq, not_false_eq_true]
  · rw [myInitgroups_overflows setgroups isFirst firstGroup fitsFirst]
    refine iff_of_false (by simp) fun same => fitsFirst ?_
    rw [databases.fits_iff first firstMsg.pw_gid firstGroup]
    have : (databases.supplementary first firstMsg.pw_gid firstGroup ++
        [userMsg.pw_gid, group]).length ≤ NGROUPS_MAX + 1 := same ▸ short
    rw [List.length_append] at this
    omega

/-- The second call passes what it passes in a process of its own only in these cases. -/
theorem passedSecond_alone_iff (setgroups : List UInt32 → Int) (databases : Databases)
    (first : List UInt8) (firstGroup : UInt32) (user : List UInt8) (group : UInt32) :
    (∃ passed, passedAlone setgroups databases user group = some passed ∧
        passedSecond setgroups databases first firstGroup user group = some passed) ↔
      databases.Harmless first firstGroup user := by
  rw [Databases.Harmless]
  cases isFirst : databases.getpwnam first with
  | none =>
      rw [passedAlone, passedSecond, myInitgroups_absent setgroups isFirst, Option.bind_some]
      cases isUser : databases.getpwnam user with
      | none => simp [myInitgroups_absent setgroups isUser]
      | some userMsg =>
          by_cases fits : databases.Fits user
          · rw [myInitgroups_fits setgroups isUser group fits]
            exact iff_of_true ⟨_, rfl, rfl⟩ fits
          · rw [myInitgroups_overflows setgroups isUser group fits]
            exact iff_of_false (by simp) fits
  | some firstMsg =>
      cases isUser : databases.getpwnam user with
      | none =>
          rw [passedAlone, passedSecond, myInitgroups_absent setgroups isUser]
          by_cases fits : databases.Fits first
          · rw [myInitgroups_fits setgroups isFirst firstGroup fits, Option.bind_some,
              myInitgroups_absent setgroups isUser]
            exact iff_of_true ⟨_, rfl, rfl⟩ fits
          · rw [myInitgroups_overflows setgroups isFirst firstGroup fits]
            exact iff_of_false (by simp) fits
      | some userMsg =>
          by_cases fits : databases.Fits user
          · have alone : passedAlone setgroups databases user group =
                some (some (databases.supplementary user userMsg.pw_gid group)) := by
              rw [passedAlone, myInitgroups_fits setgroups isUser group fits]
              rfl
            rw [alone]
            simp only [Option.some.injEq, exists_eq_left', fits, true_and,
              passedSecond_of_both setgroups isFirst isUser firstGroup group fits]
          · rw [passedAlone, myInitgroups_overflows setgroups isUser group fits]
            exact iff_of_false (by simp) fun harmless => fits harmless.1

/-- User 97 with group 1, and user 98 with group 2, whom group 7 lists. -/
def twoUsers : Databases where
  passwd := [⟨[97], 1⟩, ⟨[98], 2⟩]
  groups := [⟨7, [[98]]⟩]

/-- The second user gets the groups of the first one, and not the group that lists it. -/
theorem passedSecond_leaks :
    passedAlone (fun _ => 0) twoUsers [98] 6 = some (some [2, 7, 6]) ∧
      passedSecond (fun _ => 0) twoUsers [97] 5 [98] 6 = some (some [1, 5, 2, 6]) := by
  decide

end LinuxProgramming.Processes.Initgroups
