import LinuxProgramming.Library.PartialCorrectness
import LinuxProgramming.Files.NftwTree

/-!
Contract: walks over trees with directories that cannot be opened.

Owns:
- `lockedKernel`, on which `opendir` fails for some directories;
- `ReportsLocked`, what a walk owes to the files it meets, and that no walk that
  meets such a directory does it.

Does not own: what a walk visits if every directory can be opened.
-/

namespace LinuxProgramming.Files

open LinuxProgramming.Library

/-- A tree on which the directories at the positions in `locked` cannot be opened. -/
def lockedKernel (fs : FileSystem) (leftover : Stat) (locked : Position CString → Bool) :
    Kernel Process (List CString) :=
  { treeKernel fs leftover with
    opendir := fun pathname process =>
      match fs.find true process.cwd pathname with
      | .error _ => (none, process)
      | .ok found =>
          if locked found.1 then (none, process)
          else (treeKernel fs leftover).opendir pathname process }

section Meets

variable (fs : FileSystem) (flags : Flags) (locked : Position CString → Bool)
  (cwd : Position CString) (dirpath : CString)

/-- What a walk from `dirpath`, a file on `device`, has to visit, with the pathname it
builds: the start, and the entries of every directory that can be opened, with
`FTW_MOUNT` only those on the device. Links are followed without `FTW_PHYS`. -/
inductive Meets (device : Nat) : CString → Position CString → Tree → Prop where
  | start {position : Position CString} {file : Tree}
      (finds : fs.find (!flags.FTW_PHYS) cwd dirpath = .ok (position, file))
      (isDevice : (inodeOf file).st_dev = device) : Meets device dirpath position file
  | entry {pathname name : CString} {above position : Position CString} {info : Inode}
      {entries : List (CString × Tree)} {file : Tree}
      (met : Meets device pathname above (.dir info entries)) (readable : locked above = false)
      (member : name ∈ entries.map Prod.fst)
      (finds : fs.find (!flags.FTW_PHYS) cwd (pathname ++ slash :: name) = .ok (position, file))
      (onDevice : flags.FTW_MOUNT = true → (inodeOf file).st_dev = device) :
      Meets device (pathname ++ slash :: name) position file

/-- The walk returns 0 and visits whatever it has to, and reports every directory that
cannot be opened once, with `FTW_DNR`. -/
def ReportsLocked (outcome : Except Stop (Int × Walk Process)) : Prop :=
  ∃ after, outcome = .ok (0, after) ∧
    ∀ device pathname position file, Meets fs flags locked cwd dirpath device pathname position file →
      (∃ visit ∈ after.visits, visit.pathname = pathname) ∧
      (file.IsDir → locked position = true →
        (after.visits.filter fun visit => visit.pathname = pathname).map
          (fun visit => visit.typeflag) = [.FTW_DNR])

end Meets

/-! ### A return of 0 -/

/-- A part of the walk makes no callback for a directory that could not be opened. -/
abbrev Readable {W : Type} : Walk W → Walk W → Prop :=
  Adds fun visit => visit.typeflag ≠ .FTW_DNR

section Readable

variable {W S : Type} {before between after : Walk W} {kernel : Kernel W S} {flags : Flags}
  {func : Func}

theorem onWorld_readable {α : Type} (program : Prog W α) (walk : Walk W) :
    Returns (onWorld program) walk fun _ after => Readable walk after :=
  onWorld_adds program walk

theorem callWhen_readable (now : Bool) {visit : Visit} (readable : visit.typeflag ≠ .FTW_DNR)
    (walk : Walk W) : Returns (callWhen func now visit) walk fun _ after => Readable walk after :=
  callWhen_adds now readable walk

/-- The same for the loop: one that returns from inside does not return 0. -/
def LoopReadable (before : Walk W) (ended : LoopEnd S) (after : Walk W) : Prop :=
  match ended with
  | .finished _ => Readable before after
  | .returned retval => retval ≠ 0

theorem LoopReadable.aborted : LoopReadable (S := S) before (.returned (-1)) after :=
  show (-1 : Int) ≠ 0 by decide

theorem LoopReadable.prepend {ended : LoopEnd S} (first : Readable before between)
    (rest : LoopReadable between ended after) : LoopReadable before ended after := by
  cases ended with
  | finished dir_p => exact first.trans rest
  | returned retval => exact rest

/-- The induction is on the entries left in the stream. -/
theorem readEntries_readable {self : CString → Prog (Walk W) Int}
    (selfReadable : ∀ pathname walk, Returns (self pathname) walk fun retval after =>
      retval = 0 → Readable walk after) (dirpath : CString) (fuel : Nat) (dir_p : S)
    (walk : Walk W) :
    Returns (readEntries kernel flags self dirpath fuel dir_p) walk (LoopReadable walk) := by
  induction fuel generalizing dir_p walk with
  | zero => exact .of_error rfl
  | succ fuel inductionHypothesis =>
      have onward (dir_p : S) {between : Walk W} (readable : Readable walk between) :
          Returns (readEntries kernel flags self dirpath fuel dir_p) between
            (LoopReadable walk) :=
        (inductionHypothesis dir_p between).mono fun _ _ rest => rest.prepend readable
      rw [readEntries]
      refine .bind (onWorld_readable _ walk) fun read reading readable => ?_
      cases read with
      | failed => exact .bind (onWorld_readable _ reading) fun _ _ _ => .pure .aborted
      | last => exact .pure readable
      | entry d_name dir_p =>
          refine .ite (fun _ => onward dir_p readable) fun _ => .ite (fun _ => .of_error rfl)
            fun _ => ?_
          refine .through (fun _ raised => Readable walk raised)
            (.of_ok rfl (readable.trans (.of_same rfl))) fun _ raised readable => ?_
          refine .bind (onWorld_readable _ raised) fun status stated states => ?_
          refine .bind (onWorld_readable _ stated) fun entering inside enters => ?_
          refine .ite (fun _ => .pure .aborted) fun _ => ?_
          refine .bind (selfReadable _ inside) fun my_nftw_retval outside visited => ?_
          refine .through (fun _ lowered => lowered.visits = outside.visits)
            (.of_ok rfl rfl) fun _ lowered same => ?_
          refine .bind (onWorld_readable _ lowered) fun left after leaves => ?_
          refine .ite (fun _ => .pure .aborted) fun _ => .ite (fun stops => ?_) fun goesOn => ?_
          · exact .bind (onWorld_readable _ after) fun _ _ _ => .pure stops
          · exact onward dir_p (readable.trans (states.trans (enters.trans
              ((visited (not_not.mp goesOn)).trans ((Adds.of_same same).trans leaves)))))

/-- `closedir` fails for a directory that could not be opened. -/
theorem visitDirectory_readable (refuses : ∀ world, (kernel.closedir none world).1 = false)
    {self : CString → Prog (Walk W) Int}
    (selfReadable : ∀ pathname walk, Returns (self pathname) walk fun retval after =>
      retval = 0 → Readable walk after) (fuel : Nat) (dirpath : CString) {visit : TypeFlag → Visit}
    (typed : ∀ typeflag, (visit typeflag).typeflag = typeflag) (walk : Walk W) :
    Returns (visitDirectory kernel flags func self fuel dirpath visit) walk fun retval after =>
      retval = 0 → Readable walk after := by
  have stops {value : Int} (different : value ≠ 0) (closing : Walk W) (dir_p : Option S) :
      Returns (onWorld (call (kernel.closedir dir_p)) >>= fun _ =>
        (pure value : Prog (Walk W) Int)) closing
        fun retval after => retval = 0 → Readable walk after :=
    .bind (onWorld_readable _ closing) fun _ _ _ => .pure fun zero => absurd zero different
  rw [visitDirectory]
  refine .bind (onWorld_readable _ walk) fun dir_p opened opens => ?_
  cases dir_p with
  | none =>
      refine .through (fun _ _ => True) (fun _ _ _ => trivial) fun func_retval called _ => ?_
      refine .ite (fun stopped => stops stopped called none) fun _ => ?_
      refine .through (fun (ended : LoopEnd (Option S)) _ => ended = .finished none) (.pure rfl)
        fun ended read isEnded => ?_
      subst isEnded
      refine .through (fun _ _ => True) (fun _ _ _ => trivial) fun func_retval final _ => ?_
      refine .ite (fun stopped => stops stopped final none) fun _ => ?_
      refine .through (fun closed _ => closed = false) ?_ fun closed after refused => ?_
      · exact .of_ok (onWorld_ok final rfl) (refuses final.world)
      · rw [refused]
        exact .pure (by simp)
  | some stream =>
      have readableType : (visit .FTW_D).typeflag ≠ .FTW_DNR := by
        rw [typed]
        decide
      refine .bind (callWhen_readable _ readableType opened) fun func_retval called calls => ?_
      refine .ite (fun stopped => stops stopped called (some stream)) fun _ => ?_
      have loop : Returns (readDirectory kernel flags self fuel dirpath (some stream)) called
          (LoopReadable called) := by
        refine .bind (readEntries_readable selfReadable dirpath fuel stream called)
          fun ended after read => .pure ?_
        cases ended with
        | finished dir_p => exact read
        | returned retval => exact read
      refine .bind loop fun ended after read => ?_
      cases ended with
      | returned retval => exact .pure fun zero => absurd zero read
      | finished dir_p =>
          refine .bind (callWhen_readable _ readableType after) fun func_retval final calls' => ?_
          refine .ite (fun stopped => stops stopped final dir_p) fun _ => ?_
          exact .bind (onWorld_readable _ final) fun _ _ closes => .pure fun _ =>
            opens.trans (calls.trans (read.trans (calls'.trans closes)))

theorem visitFile_readable (dirpath : CString) (statbuf : Stat) {visit : TypeFlag → Visit}
    (typed : ∀ typeflag, (visit typeflag).typeflag = typeflag) (walk : Walk W) :
    Returns (visitFile kernel flags func dirpath statbuf visit) walk fun retval after =>
      retval = 0 → Readable walk after := by
  have called {typeflag : TypeFlag} (readable : typeflag ≠ .FTW_DNR) {calling : Walk W}
      (before : Readable walk calling) :
      Returns (callFunc func (visit typeflag) >>= fun _ => (pure 0 : Prog (Walk W) Int)) calling
        fun retval after => retval = 0 → Readable walk after := by
    have readableType : (visit typeflag).typeflag ≠ .FTW_DNR := by rwa [typed]
    exact .bind (callFunc_adds readableType calling) fun _ _ calls =>
      .pure fun _ => before.trans calls
  rw [visitFile]
  refine .ite (fun _ => ?_) fun _ => called (by decide) (.of_same rfl)
  refine .bind (onWorld_readable _ walk) fun lnk_status stated states => ?_
  split
  · exact .ite (fun _ => called (by decide) states) fun _ => .pure (by simp)
  · exact called (by decide) states

/-- A walk that returns 0 has reported no directory as one that cannot be opened, on
any kernel whose `closedir` refuses a null stream. -/
theorem myNftw_readable (refuses : ∀ world, (kernel.closedir none world).1 = false)
    (fuel : Nat) (dirpath : CString) (walk : Walk W) :
    Returns (myNftw kernel flags func fuel dirpath) walk fun retval after =>
      retval = 0 → Readable walk after := by
  induction fuel generalizing dirpath walk with
  | zero => exact .of_error rfl
  | succ fuel inductionHypothesis =>
      rw [myNftw]
      refine .through (fun _ reading => reading = walk) (.of_ok rfl rfl)
        fun level reading isReading => ?_
      subst isReading
      refine .bind (onWorld_readable _ reading) fun status stated states => ?_
      refine .through (fun _ recorded => Readable reading recorded)
        (.of_ok rfl (states.trans (.of_same rfl))) fun devno recorded readable => ?_
      refine .ite (fun _ => .pure fun _ => readable) fun _ => .ite (fun _ => .ite (fun _ => ?_)
        fun _ => ?_) fun _ => ?_
      · exact (visitDirectory_readable refuses inductionHypothesis fuel dirpath (fun _ => rfl)
          recorded).mono fun _ _ rest zero => readable.trans (rest zero)
      · exact (visitFile_readable dirpath _ (fun _ => rfl) recorded).mono
          fun _ _ rest zero => readable.trans (rest zero)
      · exact .bind (callFunc_adds (show TypeFlag.FTW_NS ≠ .FTW_DNR by decide) recorded) fun _ _ calls =>
          .pure fun _ => readable.trans calls

end Readable

/-! ### Directories that have to be reported -/

/-- For every tree, links included, and all flags, with a callback that always returns
0: a walk that meets a directory that cannot be opened never does what it owes. -/
theorem myNftw_not_reportsLocked (fs : FileSystem) (leftover : Stat)
    (locked : Position CString → Bool) (flags : Flags) (process : Process) (devno : Nat)
    (dirpath : CString) (device : Nat) (pathname : CString) (position : Position CString)
    (info : Inode) (entries : List (CString × Tree))
    (met : Meets fs flags locked process.cwd dirpath device pathname position (.dir info entries))
    (isLocked : locked position = true) (fuel : Nat) :
    ¬ ReportsLocked fs flags locked process.cwd dirpath
      (myNftw (lockedKernel fs leftover locked) flags (fun _ => 0) fuel dirpath
        ⟨process, 0, devno, []⟩) := by
  rintro ⟨after, returns, owed⟩
  have reported := (owed device pathname position _ met).2 trivial isLocked
  obtain ⟨visit, member, isDnr⟩ : ∃ visit ∈ after.visits, visit.typeflag = .FTW_DNR := by
    have listed : TypeFlag.FTW_DNR ∈
        (after.visits.filter fun visit => visit.pathname = pathname).map
          (fun visit => visit.typeflag) := by
      rw [reported]
      exact List.mem_singleton_self _
    obtain ⟨visit, member, isDnr⟩ := List.mem_map.mp listed
    exact ⟨visit, (List.mem_filter.mp member).1, isDnr⟩
  obtain ⟨made, visits, readable⟩ :=
    myNftw_readable (fun _ => rfl) fuel dirpath _ 0 after returns rfl
  rw [visits] at member
  exact readable visit member isDnr

/-- The root with the directory `a`, which holds the directory `b` and the file `c`. -/
def siblingTree : Tree :=
  .dir ⟨1, 1⟩ [([97], .dir ⟨1, 2⟩ [([98], .dir ⟨1, 3⟩ []), ([99], .leaf ⟨⟨1, 4⟩, none⟩)])]

def siblings : FileSystem := FileSystem.ofTree siblingTree trivial (by decide)

/-- `/a/b` cannot be opened. -/
theorem myNftw_not_reportsLocked_siblings :
    ¬ ReportsLocked siblings ⟨false, false, false, false⟩ (· = [[98], [97]]) [] [47, 97]
      (myNftw (lockedKernel siblings ⟨⟨0, 0⟩, .other⟩ (· = [[98], [97]]))
        ⟨false, false, false, false⟩ (fun _ => 0) 9 [47, 97] ⟨⟨[], [], 0⟩, 0, 0, []⟩) := by
  have start : Meets siblings ⟨false, false, false, false⟩ (· = [[98], [97]]) [] [47, 97] 1
      [47, 97] [[97]] (.dir ⟨1, 2⟩ [([98], .dir ⟨1, 3⟩ []), ([99], .leaf ⟨⟨1, 4⟩, none⟩)]) :=
    .start rfl rfl
  have met : Meets siblings ⟨false, false, false, false⟩ (· = [[98], [97]]) [] [47, 97] 1
      ([47, 97] ++ slash :: [98]) [[98], [97]] (.dir ⟨1, 3⟩ []) :=
    .entry start (by decide) List.mem_cons_self rfl fun _ => rfl
  exact myNftw_not_reportsLocked siblings _ _ _ ⟨[], [], 0⟩ 0 _ 1 _ _ _ _ met (by decide) 9

/-- The walk over `/a` reports `/a/b`, returns -1 and never comes to `/a/c`. -/
theorem myNftw_stops_at_locked :
    (myNftw (lockedKernel siblings ⟨⟨0, 0⟩, .other⟩ (· = [[98], [97]]))
        ⟨false, false, false, false⟩ (fun _ => 0) 9 [47, 97] ⟨⟨[], [], 0⟩, 0, 0, []⟩).map
      (fun returned => (returned.1,
        returned.2.visits.map fun visit => (visit.pathname, visit.typeflag))) =
    .ok (-1, [([47, 97], .FTW_D), ([47, 97, 47, 98], .FTW_DNR)]) := by decide +kernel

end LinuxProgramming.Files
