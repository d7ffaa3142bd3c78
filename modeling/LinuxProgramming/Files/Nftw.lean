import LinuxProgramming.Files.Kernel
import LinuxProgramming.Library.PartialCorrectness

/-!
Contract: `my_nftw`, over any kernel and any callback.

Owns:
- the walk with its static level and device, and a record of all callbacks;
- the survey of a walk: what it visits as long as nothing stops it;
- `Adds`, the callbacks a part of a walk makes.

Does not own: what the walk visits on a given tree, or what a callback does.
-/

namespace LinuxProgramming.Files

open LinuxProgramming.Library

/-- The `typeflag` of a callback. `FTW_F` is 0, the value `type_flags` starts
with. -/
inductive TypeFlag where
  | FTW_F
  | FTW_D
  | FTW_DNR
  | FTW_NS
  | FTW_SL
  | FTW_SLN
deriving DecidableEq, Repr

structure Flags where
  FTW_PHYS : Bool
  FTW_DEPTH : Bool
  FTW_MOUNT : Bool
  FTW_CHDIR : Bool
deriving DecidableEq, Repr

/-- The arguments of one callback, `ftwbuf` last. -/
structure Visit where
  pathname : CString
  statbuf : Stat
  typeflag : TypeFlag
  base : Nat
  level : Nat
deriving DecidableEq, Repr

/-- The callback: its result for the last of the calls made to it so far. -/
abbrev Func := List Visit → Int

/-- The kernel, the two static variables, and the callbacks made. -/
structure Walk (W : Type) where
  world : W
  level : Nat
  devno : Nat
  visits : List Visit
deriving DecidableEq

/-- The index at which the scan for the last slash before `index` stops. -/
def scanBase (dirpath : CString) : Nat → Nat
  | 0 => 0
  | index + 1 => if dirpath[index]? = some slash then index else scanBase dirpath index

/-- What a directory of which an entry was entered has to go back to. -/
inductive Entering where
  | failed
  | stayed
  | moved (fd : Nat)
deriving DecidableEq, Repr

/-- The end of the loop over the entries: the stream is used up, or `my_nftw`
returns from inside the loop. -/
inductive LoopEnd (S : Type) where
  | finished (dir_p : S)
  | returned (retval : Int)

/-- The stream left by a loop that was not skipped. -/
def LoopEnd.notNull {S : Type} : LoopEnd S → LoopEnd (Option S)
  | finished dir_p => finished (some dir_p)
  | returned retval => returned retval

section Program

variable {W S : Type} (kernel : Kernel W S) (flags : Flags)

/-- `lstat` or `stat`. -/
def statEntry (pathname : CString) : Prog W (Option Errno × Stat) :=
  call (if flags.FTW_PHYS then kernel.lstat pathname else kernel.stat pathname)

/-- With `FTW_CHDIR`, record the working directory and change it. -/
def enter (pathname : CString) (status : Option Errno × Stat) : Prog W Entering :=
  if status.1 = none ∧ flags.FTW_CHDIR = true ∧ status.2.st_mode = .directory then do
    match ← call (kernel.getcwd PATH_MAX) with
    | none => pure .failed
    | some cwd =>
        match ← call (kernel.openFile cwd) with
        | none => pure .failed
        | some fd =>
            let changed ← call (kernel.chdir pathname)
            pure (if changed then .moved fd else .failed)
  else pure .stayed

/-- Go back to the recorded working directory, if there is one. -/
def leave : Entering → Prog W Bool
  | .moved fd => do
      let returned ← call (kernel.fchdir fd)
      if returned then do
        let _ ← call (kernel.close fd)
        pure true
      else pure false
  | _ => pure true

/-- A part of the program that only makes system calls. -/
def onWorld {α : Type} (program : Prog W α) : Prog (Walk W) α := fun walk =>
  match program walk.world with
  | .error reason => .error reason
  | .ok (result, world) => .ok (result, { walk with world := world })

variable (func : Func)

/-- `func(pathname, &statbuf, type_flags, &ftw_buf)`. -/
def callFunc (visit : Visit) : Prog (Walk W) Int := fun walk =>
  .ok (func (walk.visits ++ [visit]), { walk with visits := walk.visits ++ [visit] })

def setLevel (change : Nat → Nat) : Prog (Walk W) Unit := fun walk =>
  .ok ((), { walk with level := change walk.level })

/-- The loop over the entries of `dirpath`; `self` is the recursive call. -/
def readEntries (self : CString → Prog (Walk W) Int) (dirpath : CString) :
    Nat → S → Prog (Walk W) (LoopEnd S)
  | 0, _ => stop .outOfFuel
  | fuel + 1, dir_p => do
      match ← onWorld (call (kernel.readdir dir_p)) with
      | .failed => do
          let _ ← onWorld (call (kernel.closedir (some dir_p)))
          pure (.returned (-1))
      | .last => pure (.finished dir_p)
      | .entry d_name dir_p =>
          if d_name = dotDot ∨ d_name = dot then readEntries self dirpath fuel dir_p
          else if PATH_MAX < dirpath.length + 1 + d_name.length + 1 then stop .overflow
          else do
            let local_pathname := dirpath ++ slash :: d_name
            setLevel (· + 1)
            let local_status ← onWorld (statEntry kernel flags local_pathname)
            let entering ← onWorld (enter kernel flags local_pathname local_status)
            if entering = .failed then pure (.returned (-1))
            else do
              let my_nftw_retval ← self local_pathname
              setLevel (· - 1)
              let left ← onWorld (leave kernel entering)
              if left = false then pure (.returned (-1))
              else if my_nftw_retval ≠ 0 then do
                let _ ← onWorld (call (kernel.closedir (some dir_p)))
                pure (.returned my_nftw_retval)
              else readEntries self dirpath fuel dir_p

/-- The callback of a directory, made only if `now` is set. -/
def callWhen (now : Bool) (visit : Visit) : Prog (Walk W) Int :=
  if now then callFunc func visit else pure 0

/-- The loop is skipped for a directory that could not be opened. -/
def readDirectory (self : CString → Prog (Walk W) Int) (fuel : Nat) (dirpath : CString) :
    Option S → Prog (Walk W) (LoopEnd (Option S))
  | none => pure (.finished none)
  | some dir_p => do
      let ended ← readEntries kernel flags self dirpath fuel dir_p
      pure ended.notNull

/-- A directory: the callback before or after its entries. -/
def visitDirectory (self : CString → Prog (Walk W) Int) (fuel : Nat) (dirpath : CString)
    (visit : TypeFlag → Visit) : Prog (Walk W) Int := do
  let dir_p ← onWorld (call (kernel.opendir dirpath))
  let type_flags := if dir_p.isNone then .FTW_DNR else .FTW_D
  let func_retval ← callWhen func (!flags.FTW_DEPTH) (visit type_flags)
  if func_retval ≠ 0 then do
    let _ ← onWorld (call (kernel.closedir dir_p))
    pure func_retval
  else do
    match ← readDirectory kernel flags self fuel dirpath dir_p with
    | .returned retval => pure retval
    | .finished dir_p => do
        let func_retval ← callWhen func flags.FTW_DEPTH (visit type_flags)
        if func_retval ≠ 0 then do
          let _ ← onWorld (call (kernel.closedir dir_p))
          pure func_retval
        else do
          let closed ← onWorld (call (kernel.closedir dir_p))
          pure (if closed then 0 else -1)

/-- Any other file. The result of the callback is dropped. -/
def visitFile (dirpath : CString) (statbuf : Stat) (visit : TypeFlag → Visit) :
    Prog (Walk W) Int := do
  if flags.FTW_PHYS = true ∧ statbuf.st_mode = .symbolicLink then do
    let lnk_status ← onWorld (call (kernel.stat dirpath))
    match lnk_status.1 with
    | some errno =>
        if errno = .enoent then do
          let _ ← callFunc func (visit .FTW_SLN)
          pure 0
        else pure (-1)
    | none => do
        let _ ← callFunc func (visit .FTW_SL)
        pure 0
  else do
    let _ ← callFunc func (visit .FTW_F)
    pure 0

/-- With `FTW_MOUNT` the walk records the device it starts on. The value is the
device to compare with. -/
def recordDevice (device : Nat) : Prog (Walk W) Nat := fun walk =>
  let devno := if flags.FTW_MOUNT = true ∧ walk.level = 0 then device else walk.devno
  .ok (devno, { walk with devno := devno })

def getLevel : Prog (Walk W) Nat := fun walk => .ok (walk.level, walk)

/-- `my_nftw`. The argument `nopenfd` is never used. -/
def myNftw : Nat → CString → Prog (Walk W) Int
  | 0, _ => stop .outOfFuel
  | fuel + 1, dirpath => do
      let level ← getLevel
      let status ← onWorld (statEntry kernel flags dirpath)
      let visit (typeflag : TypeFlag) : Visit :=
        ⟨dirpath, status.2, typeflag, scanBase dirpath dirpath.length, level⟩
      let devno ← recordDevice flags status.2.inode.st_dev
      if flags.FTW_MOUNT = true ∧ devno ≠ status.2.inode.st_dev then pure 0
      else if status.1 = none then
        if status.2.st_mode = .directory then
          visitDirectory kernel flags func (myNftw fuel) fuel dirpath visit
        else visitFile kernel flags func dirpath status.2 visit
      else do
        let _ ← callFunc func (visit .FTW_NS)
        pure 0

/-! ### The survey -/

/-- The entries a walk visits one after the other, and 0, or -1 if a system call
ends it. -/
abbrev Survey := List Visit × Int

/-- The survey of the entries of `dirpath`; a stream that is left is still open. -/
def surveyEntries (self : CString → Prog W Survey) (dirpath : CString) :
    Nat → S → Prog W (List Visit × Option S)
  | 0, _ => stop .outOfFuel
  | fuel + 1, dir_p => do
      match ← call (kernel.readdir dir_p) with
      | .failed => do
          let _ ← call (kernel.closedir (some dir_p))
          pure ([], none)
      | .last => pure ([], some dir_p)
      | .entry d_name dir_p =>
          if d_name = dotDot ∨ d_name = dot then surveyEntries self dirpath fuel dir_p
          else if PATH_MAX < dirpath.length + 1 + d_name.length + 1 then stop .overflow
          else do
            let pathname := dirpath ++ slash :: d_name
            let status ← statEntry kernel flags pathname
            let entering ← enter kernel flags pathname status
            if entering = .failed then pure ([], none)
            else do
              let below ← self pathname
              let left ← leave kernel entering
              if left = false then pure (below.1, none)
              else if below.2 ≠ 0 then do
                let _ ← call (kernel.closedir (some dir_p))
                pure (below.1, none)
              else do
                let rest ← surveyEntries self dirpath fuel dir_p
                pure (below.1 ++ rest.1, rest.2)

/-- The survey of an opened directory, its own callback included only if that
comes last. -/
def surveyInside (self : CString → Prog W Survey) (fuel : Nat) (dirpath : CString) (own : Visit) :
    Option S → Prog W Survey
  | none => do
      let closed ← call (kernel.closedir none)
      pure (if flags.FTW_DEPTH then [own] else [], if closed then 0 else -1)
  | some dir_p => do
      let below ← surveyEntries kernel flags self dirpath fuel dir_p
      match below.2 with
      | none => pure (below.1, -1)
      | some dir_p => do
          let closed ← call (kernel.closedir (some dir_p))
          pure (below.1 ++ if flags.FTW_DEPTH then [own] else [], if closed then 0 else -1)

def surveyDirectory (self : CString → Prog W Survey) (fuel : Nat) (dirpath : CString)
    (visit : TypeFlag → Visit) : Prog W Survey := do
  let dir_p ← call (kernel.opendir dirpath)
  let own := visit (if dir_p.isNone then .FTW_DNR else .FTW_D)
  let inside ← surveyInside kernel flags self fuel dirpath own dir_p
  pure (if flags.FTW_DEPTH then inside.1 else own :: inside.1, inside.2)

def surveyFile (dirpath : CString) (statbuf : Stat) (visit : TypeFlag → Visit) :
    Prog W Survey := do
  if flags.FTW_PHYS = true ∧ statbuf.st_mode = .symbolicLink then do
    let lnk_status ← call (kernel.stat dirpath)
    match lnk_status.1 with
    | some errno => pure (if errno = .enoent then ([visit .FTW_SLN], 0) else ([], -1))
    | none => pure ([visit .FTW_SL], 0)
  else pure ([visit .FTW_F], 0)

/-- What a walk visits from `dirpath` on, `depth` levels below its start, if the
start is on `device`. -/
def survey : Nat → Nat → Nat → CString → Prog W Survey
  | 0, _, _, _ => stop .outOfFuel
  | fuel + 1, depth, device, dirpath => do
      let status ← statEntry kernel flags dirpath
      let visit (typeflag : TypeFlag) : Visit :=
        ⟨dirpath, status.2, typeflag, scanBase dirpath dirpath.length, depth⟩
      let device := if depth = 0 then status.2.inode.st_dev else device
      if flags.FTW_MOUNT = true ∧ device ≠ status.2.inode.st_dev then pure ([], 0)
      else if status.1 = none then
        if status.2.st_mode = .directory then
          surveyDirectory kernel flags (survey fuel (depth + 1) device) fuel dirpath visit
        else surveyFile kernel flags dirpath status.2 visit
      else pure ([visit .FTW_NS], 0)

end Program

/-! ### Parts of a walk -/

/-- A part of the walk makes callbacks, all of them good. -/
def Adds {W : Type} (good : Visit → Prop) (before after : Walk W) : Prop :=
  ∃ made, after.visits = before.visits ++ made ∧ ∀ visit ∈ made, good visit

section Parts

variable {W : Type} {good : Visit → Prop} {before between after : Walk W} {func : Func}

theorem Adds.of_same (same : after.visits = before.visits) : Adds good before after :=
  ⟨[], by rw [same, List.append_nil], nofun⟩

theorem Adds.trans (first : Adds good before between) (second : Adds good between after) :
    Adds good before after := by
  obtain ⟨made, visits, areGood⟩ := first
  obtain ⟨made', visits', areGood'⟩ := second
  refine ⟨made ++ made', by rw [visits', visits, List.append_assoc], fun visit member => ?_⟩
  rcases List.mem_append.mp member with earlier | later
  · exact areGood visit earlier
  · exact areGood' visit later

theorem Adds.mono {good' : Visit → Prop} (adds : Adds good before after)
    (weaker : ∀ visit, good visit → good' visit) : Adds good' before after := by
  obtain ⟨made, visits, areGood⟩ := adds
  exact ⟨made, visits, fun visit member => weaker visit (areGood visit member)⟩

theorem Adds.mem (adds : Adds good before after) {visit : Visit} (member : visit ∈ before.visits) :
    visit ∈ after.visits := by
  obtain ⟨made, visits, _⟩ := adds
  rw [visits]
  exact List.mem_append_left made member

theorem onWorld_returns {α : Type} {program : Prog W α} {walk : Walk W} {post : α → W → Prop}
    (returns : Returns program walk.world post) :
    Returns (onWorld program) walk fun result after =>
      post result after.world ∧ after = { walk with world := after.world } := by
  intro result after ran
  unfold onWorld at ran
  split at ran
  · cases ran
  case h_2 result' world started =>
    cases ran
    exact ⟨returns _ _ started, rfl⟩

theorem onWorld_adds {α : Type} (program : Prog W α) (walk : Walk W) :
    Returns (onWorld program) walk fun _ after => Adds good walk after :=
  (onWorld_returns fun _ _ _ => trivial).mono fun _ after ran =>
    .of_same (show after.visits = walk.visits by rw [ran.2])

theorem callFunc_adds {visit : Visit} (isGood : good visit) (walk : Walk W) :
    Returns (callFunc func visit) walk fun _ after => Adds good walk after :=
  .of_ok rfl ⟨[visit], rfl, fun _ member => List.mem_singleton.mp member ▸ isGood⟩

theorem callWhen_adds (now : Bool) {visit : Visit} (isGood : good visit) (walk : Walk W) :
    Returns (callWhen func now visit) walk fun _ after => Adds good walk after := by
  rw [callWhen]
  exact .ite (fun _ => callFunc_adds isGood walk) fun _ => .pure (.of_same rfl)

end Parts

end LinuxProgramming.Files
