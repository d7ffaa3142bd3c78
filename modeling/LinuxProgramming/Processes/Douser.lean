import LinuxProgramming.Library.CBuffer
import LinuxProgramming.Library.Credentials
import LinuxProgramming.Library.Lines

/-!
Contract: `douser`, which executes a command as another user.

Owns:
- how the user is read and authenticated, with every way in which that ends;
- the calls that change the credentials, up to `execvp`;
- exactly when the command runs with the credentials of the user and nothing of the caller.

Does not own: the databases and `crypt`, the prompts, and what is left of the password in
memory.
-/

namespace LinuxProgramming.Processes.Douser

open LinuxProgramming.Library

abbrev CString := List UInt8

abbrev Errno := Nat

def EACCES : Errno := 13

def newline : UInt8 := 10

/-- User 0. -/
def root : UInt32 := 0

structure Passwd where
  pw_name : CString
  pw_passwd : CString
  pw_uid : UInt32
  pw_gid : UInt32
deriving DecidableEq, Repr

structure Spwd where
  sp_namp : CString
  sp_pwdp : CString
deriving DecidableEq, Repr

structure Group where
  gr_gid : UInt32
  gr_mem : List CString
deriving DecidableEq, Repr

/-- What the calls before the change of credentials give. `getspnam` without a record comes
with `errno`, and `getpass` fails without a terminal. -/
structure System where
  sysconf : Int
  malloc : Bool
  stdin : List UInt8
  getpwnam : CString → Option Passwd
  getspnam : CString → Except Errno Spwd
  getpass : Option CString
  crypt : CString → CString → Option CString

/-- The ways to end before the credentials are changed. The last two have no defined
behaviour: a line that starts with a null byte, and a null pointer for `crypt`. -/
inductive Stop where
  | malloc
  | endOfInput
  | noPasswordRecord
  | noPermission
  | crypt
  | incorrectPassword
  | beforeUsername
  | noPassword
deriving DecidableEq, Repr

/-- The size of the buffer for the user name. -/
def lnmax (system : System) : Nat :=
  if system.sysconf = -1 then 256 else system.sysconf.toNat

/-- `fgets` and the removal of the newline. -/
def readUsername (system : System) : Except Stop CString :=
  let line := (Lines.firstLine newline system.stdin).take (lnmax system - 1)
  if line = [] then .error .endOfInput
  else
    let username := CBuffer.string 0 line
    match username.getLast? with
    | none => .error .beforeUsername
    | some last => .ok (if last = newline then username.dropLast else username)

/-- The password record, with the password of the shadow record if there is one. -/
def findUser (system : System) (username : CString) : Except Stop Passwd :=
  match system.getpwnam username with
  | none => .error .noPasswordRecord
  | some pwd =>
      match system.getspnam username with
      | .error errno => if errno = EACCES then .error .noPermission else .ok pwd
      | .ok spwd => .ok { pwd with pw_passwd := spwd.sp_pwdp }

/-- The password is asked for and compared. -/
def checkPassword (system : System) (pwd : Passwd) : Except Stop Unit :=
  match system.getpass with
  | none => .error .noPassword
  | some password =>
      match system.crypt password pwd.pw_passwd with
      | none => .error .crypt
      | some encrypted =>
          if encrypted = pwd.pw_passwd then .ok () else .error .incorrectPassword

/-- The part of `main` before the change of credentials. -/
def authenticate (system : System) : Except Stop Passwd :=
  if system.malloc then
    (readUsername system).bind fun username =>
      (findUser system username).bind fun pwd =>
        (checkPassword system pwd).map fun _ => pwd
  else .error .malloc

inductive Outcome where
  | stopped (stop : Stop)
  | setuidFails
  | setgidFails
  /-- The arguments of `execvp`, and the credentials it is called with. -/
  | execvp (file : Option CString) (arguments : List CString) (credentials : Credentials UInt32)
deriving DecidableEq, Repr

/-- The change of credentials and the call of `execvp`. -/
def becomeUser (pwd : Passwd) (argv : List CString) (credentials : Credentials UInt32) :
    Outcome :=
  match credentials.setuid root pwd.pw_uid with
  | none => .setuidFails
  | some credentials =>
      match credentials.setgid root pwd.pw_gid with
      | none => .setgidFails
      | some credentials => .execvp argv[1]? (argv.drop 1) credentials

/-- `main`. -/
def main (system : System) (argv : List CString) (credentials : Credentials UInt32) : Outcome :=
  match authenticate system with
  | .error stop => .stopped stop
  | .ok pwd => becomeUser pwd argv credentials

/-! ### Authentication -/

/-- The record that the program finds for the user who is named on standard input. -/
def Found (system : System) (pwd : Passwd) : Prop :=
  ∃ username, readUsername system = .ok username ∧ findUser system username = .ok pwd

theorem checkPassword_iff (system : System) (pwd : Passwd) :
    checkPassword system pwd = .ok () ↔
      ∃ password, system.getpass = some password ∧
        system.crypt password pwd.pw_passwd = some pwd.pw_passwd := by
  unfold checkPassword
  cases system.getpass with
  | none => simp
  | some password =>
      cases encryption : system.crypt password pwd.pw_passwd with
      | none => simp [encryption]
      | some encrypted => simp [encryption]

/-- A user is authenticated by the password that is stored for them. -/
theorem authenticate_iff (system : System) (pwd : Passwd) :
    authenticate system = .ok pwd ↔
      system.malloc = true ∧ Found system pwd ∧
        ∃ password, system.getpass = some password ∧
          system.crypt password pwd.pw_passwd = some pwd.pw_passwd := by
  rw [← checkPassword_iff]
  unfold authenticate Found
  cases allocated : system.malloc with
  | false => simp
  | true =>
      cases named : readUsername system with
      | error stop => simp [Except.bind]
      | ok username =>
          cases found : findUser system username with
          | error stop => simp [found, Except.bind]
          | ok record =>
              cases checked : checkPassword system record with
              | error stop =>
                  -- The record is the one whose password is checked.
                  have refused (same : record = pwd) : checkPassword system pwd ≠ .ok () := by
                    rw [← same, checked]
                    simp
                  simpa [found, checked, Except.bind, Except.map] using refused
              | ok done =>
                  have accepted (same : record = pwd) : checkPassword system pwd = .ok () := by
                    rw [← same, checked]
                  simpa [found, checked, Except.bind, Except.map] using accepted

/-! ### The credentials of the command -/

/-- The groups of a user: their own, and those that list them. -/
def IsGroupOf (groups : List Group) (pwd : Passwd) (gid : UInt32) : Prop :=
  gid = pwd.pw_gid ∨ ∃ group ∈ groups, group.gr_gid = gid ∧ pwd.pw_name ∈ group.gr_mem

/-- The command is executed with the ids of the user, and with no group of the caller that
is not one of the user. -/
def Becomes (groups : List Group) (pwd : Passwd) (before : Credentials UInt32) :
    Outcome → Prop
  | .execvp _ _ after =>
      after.uid = Ids.all pwd.pw_uid ∧ after.gid = Ids.all pwd.pw_gid ∧
        ∀ gid ∈ after.groups, gid ∈ before.groups → IsGroupOf groups pwd gid
  | _ => False

/-- With privilege `setuid` succeeds, and `setgid` then has the privilege of the user. -/
theorem becomeUser_privileged (pwd : Passwd) (argv : List CString)
    {credentials : Credentials UInt32} (privileged : credentials.uid.effective = root) :
    becomeUser pwd argv credentials =
      match { credentials with uid := Ids.all pwd.pw_uid }.setgid root pwd.pw_gid with
      | none => .setgidFails
      | some after => .execvp argv[1]? (argv.drop 1) after := by
  rw [becomeUser, Credentials.setuid_privileged privileged]

/-- The user ids of the command are those of the user in any case. -/
theorem becomeUser_uid (pwd : Passwd) (argv : List CString) {credentials : Credentials UInt32}
    (privileged : credentials.uid.effective = root) {file : Option CString}
    {arguments : List CString} {after : Credentials UInt32}
    (executes : becomeUser pwd argv credentials = .execvp file arguments after) :
    after.uid = Ids.all pwd.pw_uid := by
  rw [becomeUser_privileged pwd argv privileged] at executes
  cases changed : { credentials with uid := Ids.all pwd.pw_uid }.setgid root pwd.pw_gid with
  | none =>
      rw [changed] at executes
      cases executes
  | some set =>
      rw [changed] at executes
      cases executes
      exact (Credentials.setgid_keeps changed).2

/-- The command gets the ids of the user if and only if the user is user 0 or the caller has
no other real and saved group id, and it gets rid of no supplementary group. -/
theorem becomeUser_becomes_iff (groups : List Group) (pwd : Passwd) (argv : List CString)
    {credentials : Credentials UInt32} (privileged : credentials.uid.effective = root) :
    Becomes groups pwd credentials (becomeUser pwd argv credentials) ↔
      (pwd.pw_uid = root ∨
        credentials.gid.real = pwd.pw_gid ∧ credentials.gid.saved = pwd.pw_gid) ∧
      ∀ gid ∈ credentials.groups, IsGroupOf groups pwd gid := by
  have setgidIff := Credentials.setgid_eq_some_all_iff root
    { credentials with uid := Ids.all pwd.pw_uid } pwd.pw_gid
  rw [becomeUser_privileged pwd argv privileged]
  cases changed : { credentials with uid := Ids.all pwd.pw_uid }.setgid root pwd.pw_gid with
  | none =>
      rw [changed] at setgidIff
      refine iff_of_false id fun conditions => ?_
      cases setgidIff.mpr conditions.1
  | some after =>
      have keeps := Credentials.setgid_keeps changed
      rw [changed] at setgidIff
      have gidIff : after.gid = Ids.all pwd.pw_gid ↔
          pwd.pw_uid = root ∨
            credentials.gid.real = pwd.pw_gid ∧ credentials.gid.saved = pwd.pw_gid := by
        refine Iff.trans ?_ setgidIff
        rw [Option.some.injEq]
        constructor
        · intro allSet
          exact Credentials.ext keeps.2 allSet keeps.1
        · intro same
          rw [same]
      have groupsIff : (∀ gid ∈ after.groups, gid ∈ credentials.groups →
          IsGroupOf groups pwd gid) ↔ ∀ gid ∈ credentials.groups, IsGroupOf groups pwd gid := by
        rw [keeps.1]
        refine forall₂_congr fun gid member => ?_
        exact ⟨fun isGroup => isGroup member, fun isGroup _ => isGroup⟩
      show after.uid = _ ∧ after.gid = _ ∧ _ ↔ _
      rw [gidIff, groupsIff]
      exact and_iff_right keeps.2

/-- `douser` for a user who is authenticated. -/
theorem main_becomes_iff (system : System) (groups : List Group) (argv : List CString)
    {pwd : Passwd} (authenticated : authenticate system = .ok pwd)
    {credentials : Credentials UInt32} (privileged : credentials.uid.effective = root) :
    Becomes groups pwd credentials (main system argv credentials) ↔
      (pwd.pw_uid = root ∨
        credentials.gid.real = pwd.pw_gid ∧ credentials.gid.saved = pwd.pw_gid) ∧
      ∀ gid ∈ credentials.groups, IsGroupOf groups pwd gid := by
  rw [main, authenticated]
  exact becomeUser_becomes_iff groups pwd argv privileged

/-- User 1001 with group 1001, and a terminal on which their password is typed. -/
def userB : Passwd := ⟨[98], [112], 1001, 1001⟩

def loginB : System where
  sysconf := -1
  malloc := true
  stdin := [98, newline]
  getpwnam name := if name = userB.pw_name then some userB else none
  getspnam _ := .error EACCES.succ
  getpass := some [112]
  crypt password _ := some password

/-- The program is installed for user 0 and started by user 1000. -/
def startedBy (gid : UInt32) (groups : List UInt32) : Credentials UInt32 :=
  ⟨⟨1000, root, root⟩, Ids.all gid, groups⟩

theorem main_becomes_loginB :
    authenticate loginB = .ok userB ∧ (startedBy 1001 [1001]).uid.effective = root ∧
      (Becomes [] userB (startedBy 1001 [1001]) (main loginB [] (startedBy 1001 [1001])) ↔
        (userB.pw_uid = root ∨ (1001 : UInt32) = userB.pw_gid ∧ (1001 : UInt32) = userB.pw_gid) ∧
          ∀ gid ∈ [1001], IsGroupOf [] userB gid) :=
  ⟨rfl, rfl, main_becomes_iff loginB [] [] rfl rfl⟩

/-- A caller of group 1000 is authenticated as user 1001, and `setgid` fails. -/
theorem main_stops_at_setgid :
    authenticate loginB = .ok userB ∧ (startedBy 1000 [1000, 27]).uid.effective = root ∧
      ¬ Becomes [] userB (startedBy 1000 [1000, 27])
        (main loginB [] (startedBy 1000 [1000, 27])) := by
  refine ⟨rfl, rfl, ?_⟩
  have stops : main loginB [] (startedBy 1000 [1000, 27]) = .setgidFails := rfl
  rw [stops]
  exact id

end LinuxProgramming.Processes.Douser
