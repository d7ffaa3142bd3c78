import Mathlib.Data.List.TakeWhile
import LinuxProgramming.Library.Atoi
import LinuxProgramming.Library.LastWrite

/-!
Contract: `my_getfacl`, from its arguments to the line it prints.

Owns:
- the arguments, the lookup of the name and the loop over the entries of the ACL;
- what an access ACL is, and the entry that answers for a user or a group;
- exactly when the program prints that entry.

Does not own: how libacl reads an ACL. `acl_get_perm` does not fail on a permission set
of an entry.
-/

namespace LinuxProgramming.Files.Getfacl

open LinuxProgramming.Library

/-! ### ACLs in memory -/

inductive Tag where
  | userObj | user | groupObj | group | mask | other
deriving DecidableEq, Repr

structure Permset where
  read : Bool
  write : Bool
  execute : Bool
deriving DecidableEq, Repr

/-- An entry; `acl_get_qualifier` is called on those of named users and groups only. -/
structure Entry where
  tag : Tag
  qualifier : UInt32
  permset : Permset
deriving DecidableEq, Repr

inductive AclType where
  | access | default
deriving DecidableEq, Repr

inductive FileType where
  | regular | directory | other
deriving DecidableEq, Repr

structure Stat where
  st_mode : FileType
  st_uid : UInt32
  st_gid : UInt32
deriving DecidableEq, Repr

/-- The calls that the loop makes for one entry. -/
inductive Call where
  | getEntry | getTagType | getPermset | getQualifier | free
deriving DecidableEq, Repr

/-- What the program reads; `fails` tells which calls of the loop fail, entry by entry. -/
structure System where
  stat : Option Stat
  getpwnam : List UInt8 → Option UInt32
  getgrnam : List UInt8 → Option UInt32
  acl_get_file : AclType → Option (List Entry)
  fails : Nat → Call → Bool

/-- Why no line of permissions is printed to its end. -/
inductive Stop where
  /-- `exit(EXIT_FAILURE)` after this message. -/
  | exit (message : String)
  /-- A permission set is read that no entry has supplied. -/
  | indeterminate
deriving DecidableEq, Repr

def orExit {α : Type} (message : String) : Option α → Except Stop α
  | none => .error (.exit message)
  | some value => .ok value

/-! ### The lookup of the name -/

/-- What follows the sign of a number, if it has one. -/
def unsigned (number : List UInt8) : List UInt8 :=
  if number.head? = some 45 ∨ number.head? = some 43 then number.tail else number

/-- What `strtol` leaves in `endptr`: the string itself if it has no digits to convert. -/
def endptr (string : List UInt8) : List UInt8 :=
  let digits := unsigned (string.dropWhile Atoi.isspace)
  if digits.takeWhile Atoi.isdigit = [] then string else digits.dropWhile Atoi.isdigit

/-- `strtol` to an id, which keeps 32 bits; the terminator of the string ends the number. -/
def strtolId (string : List UInt8) : UInt32 :=
  UInt32.ofInt ((Atoi.strtol? (string ++ [0])).getD 0)

/-- `uid_from_username` and `gid_from_groupname`, which differ in the database they ask. -/
def idFromName (missing lookup : String) (database : List UInt8 → Option UInt32)
    (name : List UInt8) : Except Stop UInt32 :=
  if name = [] then .error (.exit missing)
  else if endptr name = [] then .ok (strtolId name)
  else orExit lookup (database name)

def uidFromUsername (system : System) : List UInt8 → Except Stop UInt32 :=
  idFromName "username not exist!" "getpwnam" system.getpwnam

def gidFromGroupname (system : System) : List UInt8 → Except Stop UInt32 :=
  idFromName "groupname not exist!" "getgrnam" system.getgrnam

/-! ### The loop -/

/-- What is asked for: `u_g_id` is a `long`. -/
structure Query where
  is_user : Bool
  is_own_user_group : Bool
  u_g_id : Int
deriving DecidableEq, Repr

/-- The locals that the loop sets; a permission set is `none` before an entry supplies it. -/
structure Locals where
  acl_perm : Option Permset
  acl_mask : Option Permset
  acl_other_perm : Option Permset
  u_g_exist : Bool
  mask_exist : Bool
deriving DecidableEq, Repr

def Locals.initial : Locals := ⟨none, none, none, false, false⟩

def Call.function : Call → String
  | .getEntry => "acl_get_entry"
  | .getTagType => "acl_get_tag_type"
  | .getPermset => "acl_get_permset"
  | .getQualifier => "acl_get_qualifier"
  | .free => "acl_free"

/-- A call, after which the program exits if it fails; the message tells the function and,
where there are several calls of it, the place. -/
def perform (fails : Call → Bool) (call : Call) (place : String) : Except Stop Unit :=
  if fails call then .error (.exit (call.function ++ place)) else .ok ()

/-- The branches of `ACL_USER_OBJ` and `ACL_GROUP_OBJ`. -/
def readOwn (fails : Call → Bool) (tag : String) (locals : Locals) (entry : Entry) :
    Except Stop Locals := do
  perform fails .getPermset (" in " ++ tag)
  return { locals with acl_perm := some entry.permset, u_g_exist := true }

/-- `acl_perm` after the qualifier of the entry is known. -/
def readMatching (fails : Call → Bool) (tag : String) (u_g_id : Int) (acl_perm : Option Permset)
    (entry : Entry) : Except Stop (Option Permset) :=
  if entry.qualifier = UInt32.ofInt u_g_id then do
    perform fails .getPermset (" in " ++ tag)
    return some entry.permset
  else .ok acl_perm

/-- The branches of `ACL_USER` and `ACL_GROUP`. -/
def readNamed (fails : Call → Bool) (tag : String) (u_g_id : Int) (locals : Locals)
    (entry : Entry) : Except Stop Locals := do
  perform fails .getQualifier (" in " ++ tag)
  let acl_perm ← readMatching fails tag u_g_id locals.acl_perm entry
  perform fails .free (" in " ++ tag)
  return { locals with acl_perm, u_g_exist := true }

/-- The body of the loop after `acl_get_entry`. -/
def readEntry (fails : Call → Bool) (query : Query) (locals : Locals) (entry : Entry) :
    Except Stop Locals := do
  perform fails .getTagType ""
  if entry.tag = .userObj ∧ query.is_user ∧ query.is_own_user_group then
    readOwn fails "ACL_USER_OBJ" locals entry
  else if entry.tag = .user ∧ query.is_user then
    readNamed fails "ACL_USER" query.u_g_id locals entry
  else if entry.tag = .groupObj ∧ ¬ query.is_user ∧ query.is_own_user_group then
    readOwn fails "ACL_GROUP_OBJ" locals entry
  else if entry.tag = .group ∧ ¬ query.is_user then
    readNamed fails "ACL_GROUP" query.u_g_id locals entry
  else if entry.tag = .mask then do
    perform fails .getPermset " in ACL_MASK"
    return { locals with acl_mask := some entry.permset, mask_exist := true }
  else if entry.tag = .other then do
    perform fails .getPermset " in ACL_OTHER"
    return { locals with acl_other_perm := some entry.permset }
  else return locals

/-- The loop from the entry at `position` on. -/
def readEntries (fails : Nat → Call → Bool) (query : Query) :
    Nat → Locals → List Entry → Except Stop Locals
  | position, locals, [] => do
      perform (fails position) .getEntry ""
      return locals
  | position, locals, entry :: rest => do
      perform (fails position) .getEntry ""
      let locals ← readEntry (fails position) query locals entry
      readEntries fails query (position + 1) locals rest

/-! ### The output -/

def initialised : Option Permset → Except Stop Permset
  | none => .error .indeterminate
  | some permset => .ok permset

/-- `perm_convert`: the three characters it prints. -/
def permConvert (acl_perm acl_mask : Option Permset) (mask_use : Bool) :
    Except Stop (List Char) := do
  let perm ← initialised acl_perm
  let mask ← if mask_use then initialised acl_mask else pure ⟨true, true, true⟩
  return [if perm.read && mask.read then 'r' else '-',
    if perm.write && mask.write then 'w' else '-',
    if perm.execute && mask.execute then 'x' else '-']

/-- `"%20s"` of the label, spelled as the program spells it. -/
def effectiveLabel : List Char :=
  List.replicate 9 ' ' ++ ['#', 'e', 'f', 'f', 'i', 'c', 't', 'i', 'v', 'e', ':']

/-- `print_perm`. -/
def printPerm (acl_perm acl_mask : Option Permset) (mask_exist : Bool) :
    Except Stop (List Char) := do
  let own ← permConvert acl_perm acl_mask false
  if mask_exist then do
    let effective ← permConvert acl_perm acl_mask true
    return own ++ effectiveLabel ++ effective ++ ['\n']
  else return own ++ ['\n']

/-- The output of `main`, after the loop. -/
def printAnswer (query : Query) (locals : Locals) : Except Stop (List Char) :=
  if locals.u_g_exist then
    if query.is_user ∧ query.is_own_user_group then
      printPerm locals.acl_perm locals.acl_mask false
    else printPerm locals.acl_perm locals.acl_mask locals.mask_exist
  else printPerm locals.acl_other_perm locals.acl_mask false

def usage : Stop := .exit "Usage: %s [u|g] [username|group]."

/-- `"u"` or `"g"`. -/
def letter (is_user : Bool) : List UInt8 := if is_user then [117] else [103]

/-- The user or the group that the file belongs to. -/
def Stat.own (statbuf : Stat) (is_user : Bool) : UInt32 :=
  if is_user then statbuf.st_uid else statbuf.st_gid

def lookup (system : System) (is_user : Bool) : List UInt8 → Except Stop UInt32 :=
  if is_user then uidFromUsername system else gidFromGroupname system

theorem ofInt_toNat (id : UInt32) : UInt32.ofInt (id.toNat : Int) = id := by
  have inRange : ((id.toNat : Int) % 2 ^ 32).toNat = id.toNat := by
    have := id.toNat_lt
    omega
  rw [UInt32.ofInt, inRange, UInt32.ofNat_toNat]

theorem endptr_numeral {text : List UInt8} {value : Int}
    (numeral : Atoi.IsNumeral text value) : endptr text = [] := by
  obtain ⟨digits, some_, all, signed⟩ := numeral
  have isNumber : unsigned (text.dropWhile Atoi.isspace) = digits := by
    obtain ⟨rfl, -⟩ | ⟨rfl, -⟩ := signed
    · cases text with
      | nil => exact absurd rfl some_
      | cons c rest =>
          have digit : Atoi.isdigit c := all c List.mem_cons_self
          have noSign : ¬ (c = 45 ∨ c = 43) := by
            rintro (rfl | rfl) <;> exact absurd digit (by decide)
          rw [List.dropWhile_cons_of_neg (Atoi.not_isspace_of_isdigit digit), unsigned,
            if_neg (by simpa using noSign)]
    · rw [List.dropWhile_cons_of_neg (by decide)]
      rfl
  have allDigits : digits.takeWhile Atoi.isdigit = digits := List.takeWhile_eq_self_iff.mpr all
  rw [endptr, isNumber, if_neg (by rwa [allDigits])]
  exact List.dropWhile_eq_nil_iff.mpr all

/-- Every user and every group can be asked for by its number. -/
theorem lookup_numeral (system : System) (is_user : Bool) {text : List UInt8} {id : UInt32}
    (numeral : Atoi.IsNumeral text id.toNat) : lookup system is_user text = .ok id := by
  have inRange := id.toNat_lt
  have parsed : Atoi.strtol? (text ++ [0]) = some (id.toNat : Int) :=
    Atoi.strtol?_numeral numeral (by unfold Atoi.LONG_MIN; omega) (by unfold Atoi.LONG_MAX; omega)
      (by decide) []
  have isId : strtolId text = id := by
    rw [strtolId, parsed, Option.getD_some, ofInt_toNat]
  have found (missing unknown : String) (database : List UInt8 → Option UInt32) :
      idFromName missing unknown database text = .ok id := by
    rw [idFromName, if_neg numeral.ne_nil, if_pos (endptr_numeral numeral), isId]
  cases is_user <;> exact found _ _ _

def aclType : FileType → Except Stop AclType
  | .regular => .ok .access
  | .directory => .ok .default
  | .other => .error (.exit "Not regular file or directory.")

/-- `main` after the check of the arguments. -/
def answer (system : System) (is_user : Bool) (name : List UInt8) : Except Stop (List Char) := do
  let statbuf ← orExit "stat" system.stat
  let acl_type ← aclType statbuf.st_mode
  let id ← lookup system is_user name
  let query : Query := ⟨is_user, (id.toNat : Int) = ((statbuf.own is_user).toNat : Int), id.toNat⟩
  let acl ← orExit "acl_get_file" (system.acl_get_file acl_type)
  let locals ← readEntries system.fails query 0 Locals.initial acl
  printAnswer query locals

def myGetfacl (system : System) (argv : List (List UInt8)) : Except Stop (List Char) :=
  match argv with
  | [_, kind, name] =>
      if kind = letter true then answer system true name
      else if kind = letter false then answer system false name
      else .error usage
  | _ => .error usage

/-! ### Messages -/

/-- A failed call is the only reason for which the program stops. -/
def StopsAt {α : Type} (fails : Call → Bool) (program : Except Stop α) : Prop :=
  ∀ stop, program = .error stop →
    ∃ call place, fails call = true ∧ stop = .exit (call.function ++ place)

theorem StopsAt.of_ok {α : Type} (fails : Call → Bool) (value : α) :
    StopsAt fails (.ok value) := by
  intro stop failed
  cases failed

theorem StopsAt.bind {α β : Type} {fails : Call → Bool} {program : Except Stop α}
    {next : α → Except Stop β} (first : StopsAt fails program)
    (later : ∀ value, StopsAt fails (next value)) : StopsAt fails (program >>= next) := by
  intro stop failed
  cases ran : program with
  | error reason =>
      rw [ran] at failed
      cases failed
      exact first stop ran
  | ok value =>
      rw [ran] at failed
      exact later value stop failed

theorem stopsAt_perform (fails : Call → Bool) (call : Call) (place : String) :
    StopsAt fails (perform fails call place) := by
  intro stop failed
  rw [perform] at failed
  split at failed
  · next isFailing =>
      cases failed
      exact ⟨call, place, isFailing, rfl⟩
  · cases failed

theorem stopsAt_readOwn (fails : Call → Bool) (tag : String) (locals : Locals) (entry : Entry) :
    StopsAt fails (readOwn fails tag locals entry) :=
  (stopsAt_perform fails _ _).bind fun _ => .of_ok fails _

theorem stopsAt_readNamed (fails : Call → Bool) (tag : String) (u_g_id : Int) (locals : Locals)
    (entry : Entry) : StopsAt fails (readNamed fails tag u_g_id locals entry) := by
  refine (stopsAt_perform fails _ _).bind fun _ => StopsAt.bind ?_ fun acl_perm =>
    (stopsAt_perform fails _ _).bind fun _ => .of_ok fails _
  rw [readMatching]
  split
  · exact (stopsAt_perform fails _ _).bind fun _ => .of_ok fails _
  · exact .of_ok fails _

theorem stopsAt_readEntry (fails : Call → Bool) (query : Query) (locals : Locals)
    (entry : Entry) : StopsAt fails (readEntry fails query locals entry) := by
  refine (stopsAt_perform fails _ _).bind fun _ => ?_
  split
  · exact stopsAt_readOwn fails _ locals entry
  split
  · exact stopsAt_readNamed fails _ _ locals entry
  split
  · exact stopsAt_readOwn fails _ locals entry
  split
  · exact stopsAt_readNamed fails _ _ locals entry
  split
  · exact (stopsAt_perform fails _ _).bind fun _ => .of_ok fails _
  split
  · exact (stopsAt_perform fails _ _).bind fun _ => .of_ok fails _
  · exact .of_ok fails _

/-- The loop is left early only after a call has failed, with the message of that call. -/
theorem readEntries_error {fails : Nat → Call → Bool} {query : Query} {position : Nat}
    {locals : Locals} {entries : List Entry} {stop : Stop}
    (failed : readEntries fails query position locals entries = .error stop) :
    ∃ entry call place, fails entry call = true ∧ stop = .exit (call.function ++ place) := by
  induction entries generalizing position locals with
  | nil =>
      exact ⟨position, ((stopsAt_perform (fails position) .getEntry "").bind fun _ =>
        .of_ok _ locals) stop failed⟩
  | cons entry rest inductionHypothesis =>
      rw [readEntries] at failed
      cases got : perform (fails position) .getEntry "" with
      | error reason =>
          rw [got] at failed
          cases failed
          exact ⟨position, stopsAt_perform _ _ _ stop got⟩
      | ok done =>
          cases stepped : readEntry (fails position) query locals entry with
          | error reason =>
              rw [got, stepped] at failed
              cases failed
              exact ⟨position, stopsAt_readEntry _ _ _ _ stop stepped⟩
          | ok locals' =>
              rw [got, stepped] at failed
              exact inductionHypothesis failed

/-! ### What the loop leaves -/

/-- The tag of the entry of the file's own user or group. -/
def ownTag (is_user : Bool) : Tag := if is_user then .userObj else .groupObj

/-- The tag of the entries of named users or groups. -/
def namedTag (is_user : Bool) : Tag := if is_user then .user else .group

/-- The entry is that of the file's own user or group, who is asked for. -/
def Query.owns (query : Query) (entry : Entry) : Bool :=
  entry.tag = ownTag query.is_user ∧ query.is_own_user_group

/-- The entry names the user or group that is asked for. -/
def Query.names (query : Query) (entry : Entry) : Bool :=
  entry.tag = namedTag query.is_user ∧ entry.qualifier = UInt32.ofInt query.u_g_id

/-- The entry raises `u_g_exist`: a named entry does so whomever it names. -/
def Query.raises (query : Query) (entry : Entry) : Bool :=
  query.owns entry || entry.tag = namedTag query.is_user

section Succeeding

variable {fails : Call → Bool} (calls : ∀ call, fails call = false)

include calls

theorem perform_eq (call : Call) (place : String) : perform fails call place = .ok () := by
  rw [perform, calls call]
  rfl

theorem readOwn_eq (tag : String) (locals : Locals) (entry : Entry) :
    readOwn fails tag locals entry =
      .ok { locals with acl_perm := some entry.permset, u_g_exist := true } := by
  rw [readOwn, perform_eq calls]
  rfl

theorem readNamed_eq (tag : String) (u_g_id : Int) (locals : Locals) (entry : Entry) :
    readNamed fails tag u_g_id locals entry =
      .ok { locals with
        acl_perm := if entry.qualifier = UInt32.ofInt u_g_id then some entry.permset
          else locals.acl_perm
        u_g_exist := true } := by
  rw [readNamed, perform_eq calls, readMatching, perform_eq calls, perform_eq calls]
  split <;> rfl

/-- One entry, whatever its tag: which of the locals it sets. -/
theorem readEntry_eq (query : Query) (locals : Locals) (entry : Entry) :
    readEntry fails query locals entry = .ok
      { acl_perm := if query.owns entry || query.names entry then some entry.permset
          else locals.acl_perm
        acl_mask := if entry.tag = .mask then some entry.permset else locals.acl_mask
        acl_other_perm := if entry.tag = .other then some entry.permset
          else locals.acl_other_perm
        u_g_exist := locals.u_g_exist || query.raises entry
        mask_exist := locals.mask_exist || entry.tag = .mask } := by
  obtain ⟨is_user, is_own_user_group, u_g_id⟩ := query
  rw [readEntry, perform_eq calls]
  simp only [readOwn_eq calls, readNamed_eq calls, perform_eq calls, bind, Except.bind, pure,
    Except.pure]
  cases isTag : entry.tag <;> cases is_user <;> cases is_own_user_group <;>
    simp [Query.raises, Query.owns, Query.names, ownTag, namedTag, isTag]

end Succeeding

/-- The permission set of the last entry that supplies one. -/
def suppliedBy (supplies : Entry → Bool) (before : Option Permset) (entries : List Entry) :
    Option Permset :=
  lastWrite (fun entry => if supplies entry then some (some entry.permset) else none) before
    entries

theorem suppliedBy_cons (supplies : Entry → Bool) (before : Option Permset) (entry : Entry)
    (rest : List Entry) : suppliedBy supplies before (entry :: rest) =
      suppliedBy supplies (if supplies entry then some entry.permset else before) rest := by
  rw [suppliedBy, lastWrite_cons]
  cases decided : supplies entry <;> simp [suppliedBy]

theorem suppliedBy_append (supplies : Entry → Bool) (before : Option Permset)
    (earlier later : List Entry) : suppliedBy supplies before (earlier ++ later) =
      suppliedBy supplies (suppliedBy supplies before earlier) later :=
  lastWrite_append _ before earlier later

theorem suppliedBy_congr {supplies supplies' : Entry → Bool} {entries : List Entry}
    (same : ∀ entry ∈ entries, supplies entry = supplies' entry) (before : Option Permset) :
    suppliedBy supplies before entries = suppliedBy supplies' before entries := by
  induction entries generalizing before with
  | nil => rfl
  | cons entry rest inductionHypothesis =>
      obtain ⟨first, later⟩ := List.forall_mem_cons.mp same
      rw [suppliedBy_cons, suppliedBy_cons, first, inductionHypothesis later]

theorem suppliedBy_eq_find? {supplies : Entry → Bool} {entries : List Entry}
    (unique : entries.Pairwise fun first second => supplies first → ¬ supplies second)
    (before : Option Permset) : suppliedBy supplies before entries =
      ((entries.find? supplies).map fun entry => some entry.permset).getD before :=
  lastWrite_eq_find? (fun entry : Entry => some entry.permset) before unique

theorem suppliedBy_of_forall_not {supplies : Entry → Bool} {entries : List Entry}
    (silent : ∀ entry ∈ entries, ¬ supplies entry) (before : Option Permset) :
    suppliedBy supplies before entries = before := by
  induction entries with
  | nil => rfl
  | cons entry rest inductionHypothesis =>
      obtain ⟨first, later⟩ := List.forall_mem_cons.mp silent
      rw [suppliedBy_cons, if_neg first, inductionHypothesis later]

/-- Once a permission set is supplied, one stays supplied; it stays the same exactly if the
one entry that may replace it has the same. -/
theorem suppliedBy_some (supplies : Entry → Bool) {entries : List Entry}
    (unique : entries.Pairwise fun first second => supplies first → ¬ supplies second)
    (permset : Permset) : ∃ shown, suppliedBy supplies (some permset) entries = some shown ∧
      (shown = permset ↔ ∀ entry ∈ entries, supplies entry → entry.permset = permset) := by
  induction entries with
  | nil => exact ⟨permset, rfl, by simp⟩
  | cons entry rest inductionHypothesis =>
      obtain ⟨others, uniqueLater⟩ := List.pairwise_cons.mp unique
      rw [suppliedBy_cons]
      by_cases supplied : supplies entry
      · have silent : ∀ other ∈ rest, ¬ supplies other :=
          fun other member => others other member supplied
        rw [if_pos supplied, suppliedBy_of_forall_not silent]
        refine ⟨entry.permset, rfl, ?_⟩
        rw [List.forall_mem_cons]
        exact ⟨fun same => ⟨fun _ => same, fun other member supplied =>
          absurd supplied (silent other member)⟩, fun all => all.1 supplied⟩
      · rw [if_neg supplied]
        obtain ⟨shown, stays, same⟩ := inductionHypothesis uniqueLater
        refine ⟨shown, stays, ?_⟩
        rw [same, List.forall_mem_cons]
        exact ⟨fun all => ⟨fun supplied' => absurd supplied' supplied, all⟩, fun all => all.2⟩

/-- What the loop leaves: each local is the last one that an entry has set. -/
theorem readEntries_eq {fails : Nat → Call → Bool}
    (calls : ∀ position call, fails position call = false) (query : Query) (position : Nat)
    (locals : Locals) (entries : List Entry) :
    readEntries fails query position locals entries = .ok
      { acl_perm := suppliedBy (fun entry => query.owns entry || query.names entry)
          locals.acl_perm entries
        acl_mask := suppliedBy (fun entry => entry.tag = .mask) locals.acl_mask entries
        acl_other_perm := suppliedBy (fun entry => entry.tag = .other) locals.acl_other_perm
          entries
        u_g_exist := locals.u_g_exist || entries.any query.raises
        mask_exist := locals.mask_exist || entries.any fun entry => entry.tag = .mask } := by
  have performed (position : Nat) : perform (fails position) .getEntry "" = .ok () := by
    rw [perform, calls]
    rfl
  induction entries generalizing position locals with
  | nil =>
      rw [readEntries, performed]
      simp [suppliedBy, lastWrite, pure, bind, Except.pure, Except.bind]
  | cons entry rest inductionHypothesis =>
      rw [readEntries, performed, readEntry_eq (calls position)]
      simp only [bind, Except.bind]
      rw [inductionHypothesis]
      simp only [suppliedBy_cons, decide_eq_true_eq, List.any_cons, Bool.or_assoc]

/-! ### The line -/

def Permset.text (permset : Permset) : List Char :=
  [if permset.read then 'r' else '-', if permset.write then 'w' else '-',
    if permset.execute then 'x' else '-']

/-- The permissions that a mask leaves. -/
def Permset.masked (permset mask : Permset) : Permset :=
  ⟨permset.read && mask.read, permset.write && mask.write, permset.execute && mask.execute⟩

/-- The line for a permission set, with what the mask leaves of it if there is one. -/
def line (permset : Permset) : Option Permset → List Char
  | none => permset.text ++ ['\n']
  | some mask => permset.text ++ effectiveLabel ++ (permset.masked mask).text ++ ['\n']

theorem Permset.text_injective : Function.Injective Permset.text := by
  intro first second same
  obtain ⟨read, write, execute⟩ := first
  obtain ⟨read', write', execute'⟩ := second
  revert read write execute read' write' execute'
  decide

/-- Another permission set makes another line, with the same mask or without one. -/
theorem line_injective (mask : Option Permset) : Function.Injective fun permset =>
    line permset mask := by
  intro first second same
  cases mask with
  | none => exact Permset.text_injective (List.append_cancel_right same)
  | some mask =>
      apply Permset.text_injective
      simp only [line, List.append_assoc] at same
      exact (List.append_inj same rfl).1

theorem permConvert_plain (permset : Permset) (mask : Option Permset) :
    permConvert (some permset) mask false = .ok permset.text := by
  simp [permConvert, initialised, Permset.text, pure, bind, Except.pure, Except.bind]

theorem printPerm_plain (permset : Permset) (mask : Option Permset) :
    printPerm (some permset) mask false = .ok (line permset none) := by
  rw [printPerm, permConvert_plain]
  rfl

theorem printPerm_masked (permset : Permset) (mask : Option Permset) :
    printPerm (some permset) mask mask.isSome = .ok (line permset mask) := by
  cases mask with
  | none => exact printPerm_plain permset none
  | some mask =>
      rw [printPerm, permConvert_plain]
      rfl

/-! ### Access ACLs -/

/-- The tag needs a qualifier. -/
def Tag.Named (tag : Tag) : Prop := tag = .user ∨ tag = .group

/-- Two entries of one ACL that would stand for the same user, group or class. -/
def Entry.Clashes (first second : Entry) : Prop :=
  first.tag = second.tag ∧ (first.tag.Named → first.qualifier = second.qualifier)

instance (tag : Tag) : Decidable tag.Named := inferInstanceAs (Decidable (_ ∨ _))

instance (first second : Entry) : Decidable (first.Clashes second) :=
  inferInstanceAs (Decidable (_ ∧ (_ → _)))

/-- A valid access ACL, its entries in any order. -/
structure AccessAcl where
  entries : List Entry
  distinct : entries.Pairwise fun first second => ¬ first.Clashes second
  required : ∀ tag ∈ [Tag.userObj, .groupObj, .other], ∃ entry ∈ entries, entry.tag = tag
  masked : ∀ entry ∈ entries, entry.tag.Named → ∃ mask ∈ entries, mask.tag = .mask

namespace AccessAcl

variable (acl : AccessAcl)

/-- The entry of a tag that is not for named users or groups. -/
def entryOf (tag : Tag) : Option Entry := acl.entries.find? fun entry => entry.tag = tag

/-- The entry of a named user or group. -/
def named (is_user : Bool) (id : UInt32) : Option Entry :=
  acl.entries.find? fun entry => entry.tag = namedTag is_user ∧ entry.qualifier = id

def mask : Option Permset := (acl.entryOf .mask).map Entry.permset

/-- What is to be printed: the permissions of the file's own user without a mask, as it does
not apply to them, and those of its own group, of a named user or of a named group with the
mask; else those of all others. -/
def expected (is_user : Bool) (own id : UInt32) : Option (List Char) :=
  if id = own then
    (acl.entryOf (ownTag is_user)).map fun entry =>
      line entry.permset (if is_user then none else acl.mask)
  else match acl.named is_user id with
    | some entry => some (line entry.permset acl.mask)
    | none => (acl.entryOf .other).map fun entry => line entry.permset none

/-- No entry that names the file's own user or group with other permissions comes after the
entry that stands for it. -/
def OwnPrevails (is_user : Bool) (own : UInt32) : Prop :=
  acl.entries.Pairwise fun first second => first.tag = ownTag is_user →
    second.tag = namedTag is_user → second.qualifier = own → second.permset = first.permset

/-- The user or the group is named, or no entry names any user or group. -/
def NamedOrNone (is_user : Bool) (id : UInt32) : Prop :=
  (∃ entry ∈ acl.entries, entry.tag = namedTag is_user ∧ entry.qualifier = id) ∨
    ∀ entry ∈ acl.entries, entry.tag ≠ namedTag is_user

theorem unique_tag {tag : Tag} (plain : ¬ tag.Named) :
    acl.entries.Pairwise fun first second => first.tag = tag → ¬ second.tag = tag := by
  refine acl.distinct.imp fun apart isFirst isSecond => apart ⟨isFirst.trans isSecond.symm, ?_⟩
  intro named
  exact absurd (isFirst ▸ named) plain

theorem unique_named (is_user : Bool) (id : UInt32) :
    acl.entries.Pairwise fun first second =>
      (first.tag = namedTag is_user ∧ first.qualifier = id) →
        ¬ (second.tag = namedTag is_user ∧ second.qualifier = id) := by
  refine acl.distinct.imp fun apart isFirst isSecond => apart ⟨?_, fun _ => ?_⟩
  · exact isFirst.1.trans isSecond.1.symm
  · exact isFirst.2.trans isSecond.2.symm

theorem suppliedBy_tag {tag : Tag} (plain : ¬ tag.Named) :
    suppliedBy (fun entry => entry.tag = tag) none acl.entries =
      (acl.entryOf tag).map Entry.permset := by
  rw [suppliedBy_eq_find? (by simpa using acl.unique_tag plain), entryOf]
  cases acl.entries.find? fun entry => entry.tag = tag <;> rfl

theorem suppliedBy_named (is_user : Bool) (id : UInt32) :
    suppliedBy (fun entry => entry.tag = namedTag is_user ∧ entry.qualifier = id) none
      acl.entries = (acl.named is_user id).map Entry.permset := by
  rw [suppliedBy_eq_find? (by simpa using acl.unique_named is_user id), named]
  cases acl.entries.find? fun entry => entry.tag = namedTag is_user ∧ entry.qualifier = id <;>
    rfl

theorem entryOf_eq_some {tag : Tag} {entry : Entry} (found : acl.entryOf tag = some entry) :
    entry ∈ acl.entries ∧ entry.tag = tag := by
  refine ⟨List.mem_of_find?_eq_some found, ?_⟩
  exact of_decide_eq_true (List.find?_some (p := fun entry : Entry => entry.tag = tag) found)

theorem exists_entryOf {tag : Tag} (listed : ∃ entry ∈ acl.entries, entry.tag = tag) :
    ∃ entry, acl.entryOf tag = some entry := by
  refine Option.isSome_iff_exists.mp ?_
  simpa [entryOf] using listed

theorem named_eq_some {is_user : Bool} {id : UInt32} {entry : Entry}
    (found : acl.named is_user id = some entry) :
    entry ∈ acl.entries ∧ entry.tag = namedTag is_user ∧ entry.qualifier = id := by
  refine ⟨List.mem_of_find?_eq_some found, ?_⟩
  exact of_decide_eq_true (List.find?_some
    (p := fun entry : Entry => entry.tag = namedTag is_user ∧ entry.qualifier = id) found)

theorem any_mask : (acl.entries.any fun entry => entry.tag = .mask) = acl.mask.isSome := by
  rw [mask, Option.isSome_map, entryOf, List.isSome_find?]

theorem ownTag_plain (is_user : Bool) : ¬ (ownTag is_user).Named := by
  cases is_user <;> simp [ownTag, Tag.Named]

/-- The one entry of the file's own user or group, and where it stands. -/
theorem exists_own (is_user : Bool) : ∃ earlier entry later,
    acl.entries = earlier ++ entry :: later ∧ acl.entryOf (ownTag is_user) = some entry ∧
      entry.tag = ownTag is_user ∧ (∀ other ∈ earlier, other.tag ≠ ownTag is_user) ∧
      ∀ other ∈ later, other.tag ≠ ownTag is_user := by
  obtain ⟨entry, found⟩ := acl.exists_entryOf
    (acl.required (ownTag is_user) (by cases is_user <;> simp [ownTag]))
  obtain ⟨-, isOwn⟩ := acl.entryOf_eq_some found
  obtain ⟨-, earlier, later, split, others⟩ := List.find?_eq_some_iff_append.mp found
  have unique := acl.unique_tag (ownTag_plain is_user)
  rw [split, List.pairwise_append, List.pairwise_cons] at unique
  exact ⟨earlier, entry, later, split, found, isOwn, by simpa using others,
    fun other member => unique.2.1.1 other member isOwn⟩

/-- What the loop has at its end for the file's own user or group. -/
theorem suppliedBy_own (is_user : Bool) (own : UInt32) : ∃ entry shown,
    acl.entryOf (ownTag is_user) = some entry ∧
      suppliedBy (fun entry => entry.tag = ownTag is_user ∨
        entry.tag = namedTag is_user ∧ entry.qualifier = own) none acl.entries = some shown ∧
      (shown = entry.permset ↔ acl.OwnPrevails is_user own) := by
  obtain ⟨earlier, entry, later, split, found, isOwn, before, after⟩ := acl.exists_own is_user
  have unique := acl.unique_named is_user own
  rw [split, List.pairwise_append, List.pairwise_cons] at unique
  obtain ⟨shown, supplied, same⟩ := suppliedBy_some
    (fun entry => entry.tag = namedTag is_user ∧ entry.qualifier = own)
    (by simpa using unique.2.1.2) entry.permset
  refine ⟨entry, shown, found, ?_, ?_⟩
  · rw [split, suppliedBy_append, suppliedBy_cons, if_pos (by simp [isOwn]), ← supplied]
    exact suppliedBy_congr (fun other member => by simp [after other member]) _
  · rw [same, OwnPrevails, split, List.pairwise_append, List.pairwise_cons]
    constructor
    · intro all
      refine ⟨?_, ⟨?_, ?_⟩, ?_⟩
      · exact List.pairwise_of_forall_mem_list fun first member _ _ isOwn =>
          absurd isOwn (before first member)
      · intro named member _ isNamed isOwner
        exact all named member (decide_eq_true ⟨isNamed, isOwner⟩)
      · exact List.pairwise_of_forall_mem_list fun first member _ _ isOwn =>
          absurd isOwn (after first member)
      · intro first member second _ isOwn
        exact absurd isOwn (before first member)
    · intro pairs named member isNamed
      obtain ⟨isNamed, isOwner⟩ := of_decide_eq_true isNamed
      exact pairs.2.1.1 named member isOwn isNamed isOwner

end AccessAcl

/-! ### When the right line is printed -/

/-- The locals at the end of the loop over an access ACL. -/
def Locals.atEnd (acl : AccessAcl) (query : Query) : Locals where
  acl_perm := suppliedBy (fun entry => query.owns entry || query.names entry) none acl.entries
  acl_mask := acl.mask
  acl_other_perm := (acl.entryOf .other).map Entry.permset
  u_g_exist := acl.entries.any query.raises
  mask_exist := acl.mask.isSome

/-- The run on an access ACL, as far as its output. -/
theorem answer_eq {system : System}
    (calls : ∀ position call, system.fails position call = false) {name : List UInt8}
    {is_user : Bool} {statbuf : Stat} (acl : AccessAcl) {id : UInt32}
    (file : system.stat = some statbuf) (regular : statbuf.st_mode = .regular)
    (queried : lookup system is_user name = .ok id)
    (read : system.acl_get_file .access = some acl.entries) :
    answer system is_user name =
      printAnswer ⟨is_user, id = statbuf.own is_user, id.toNat⟩
        (Locals.atEnd acl ⟨is_user, id = statbuf.own is_user, id.toNat⟩) := by
  have sameId : decide ((id.toNat : Int) = ((statbuf.own is_user).toNat : Int)) =
      decide (id = statbuf.own is_user) := by
    simp only [Int.natCast_inj, UInt32.toNat_inj]
  have maskPlain : ¬ Tag.mask.Named := by simp [Tag.Named]
  have otherPlain : ¬ Tag.other.Named := by simp [Tag.Named]
  rw [answer, file, queried]
  simp only [orExit, bind, Except.bind, regular, aclType, read, sameId]
  rw [readEntries_eq calls]
  simp only [Locals.initial, acl.suppliedBy_tag maskPlain, acl.suppliedBy_tag otherPlain,
    acl.any_mask, Bool.false_or, AccessAcl.mask, Locals.atEnd]

/-- The file's own user or group is asked for. -/
theorem printAnswer_own (acl : AccessAcl) (is_user : Bool) (own : UInt32) :
    (∃ text, acl.expected is_user own own = some text ∧
        printAnswer ⟨is_user, true, own.toNat⟩ (Locals.atEnd acl ⟨is_user, true, own.toNat⟩) =
          .ok text) ↔ acl.OwnPrevails is_user own := by
  obtain ⟨entry, shown, found, supplied, same⟩ := acl.suppliedBy_own is_user own
  have isSupplied : (Locals.atEnd acl ⟨is_user, true, own.toNat⟩).acl_perm = some shown := by
    rw [← supplied, Locals.atEnd]
    refine suppliedBy_congr (fun other _ => ?_) none
    simp only [Query.owns, Query.names, ofInt_toNat, and_true, Bool.decide_or]
  have raised : (Locals.atEnd acl ⟨is_user, true, own.toNat⟩).u_g_exist = true := by
    obtain ⟨member, isOwn⟩ := acl.entryOf_eq_some found
    exact List.any_eq_true.mpr ⟨entry, member, by simp [Query.raises, Query.owns, isOwn]⟩
  have printed : printAnswer ⟨is_user, true, own.toNat⟩
      (Locals.atEnd acl ⟨is_user, true, own.toNat⟩) =
        .ok (line shown (if is_user then none else acl.mask)) := by
    rw [printAnswer, if_pos raised, isSupplied]
    cases is_user with
    | true => exact printPerm_plain shown acl.mask
    | false => exact printPerm_masked shown acl.mask
  rw [AccessAcl.expected, if_pos rfl, found, printed, ← same]
  simp [(line_injective _).eq_iff, eq_comm]

/-- Someone else is asked for. -/
theorem printAnswer_other (acl : AccessAcl) (is_user : Bool) {own id : UInt32} (apart : id ≠ own) :
    (∃ text, acl.expected is_user own id = some text ∧
        printAnswer ⟨is_user, false, id.toNat⟩ (Locals.atEnd acl ⟨is_user, false, id.toNat⟩) =
          .ok text) ↔ acl.NamedOrNone is_user id := by
  have supplied : (Locals.atEnd acl ⟨is_user, false, id.toNat⟩).acl_perm =
      (acl.named is_user id).map Entry.permset := by
    rw [← acl.suppliedBy_named, Locals.atEnd]
    refine suppliedBy_congr (fun other _ => ?_) none
    simp [Query.owns, Query.names, ofInt_toNat]
  have raised : (Locals.atEnd acl ⟨is_user, false, id.toNat⟩).u_g_exist = true ↔
      ∃ entry ∈ acl.entries, entry.tag = namedTag is_user := by
    simp [Locals.atEnd, Query.raises, Query.owns]
  rw [AccessAcl.expected, if_neg apart, printAnswer, supplied]
  cases found : acl.named is_user id with
  | some entry =>
      obtain ⟨member, isNamed, isId⟩ := acl.named_eq_some found
      rw [if_pos (raised.mpr ⟨entry, member, isNamed⟩), if_neg (by simp)]
      exact iff_of_true ⟨_, rfl, printPerm_masked entry.permset acl.mask⟩
        (.inl ⟨entry, member, isNamed, isId⟩)
  | none =>
      have absent : ¬ ∃ entry ∈ acl.entries, entry.tag = namedTag is_user ∧
          entry.qualifier = id := by
        simpa [AccessAcl.named] using found
      by_cases others : ∃ entry ∈ acl.entries, entry.tag = namedTag is_user
      · -- `acl_perm` has never been set
        rw [if_pos (raised.mpr others), if_neg (by simp)]
        refine iff_of_false ?_ ?_
        · rintro ⟨text, -, printed⟩
          cases printed
        · rintro (named | nobody)
          · exact absent named
          · obtain ⟨entry, member, isNamed⟩ := others
            exact nobody entry member isNamed
      · obtain ⟨other, isOther⟩ := acl.exists_entryOf (acl.required .other (by simp))
        rw [if_neg fun exist => others (raised.mp exist), isOther]
        refine iff_of_true ⟨_, rfl, ?_⟩ (.inr fun entry member isNamed =>
          others ⟨entry, member, isNamed⟩)
        rw [Locals.atEnd, isOther]
        exact printPerm_plain other.permset acl.mask

/-- The program prints the right line exactly if the entry of the file's own user or group is
not overwritten, and nobody else is named where the one who is asked for is not. -/
theorem myGetfacl_correct_iff {system : System}
    (calls : ∀ position call, system.fails position call = false) {program name : List UInt8}
    {is_user : Bool} {statbuf : Stat} (acl : AccessAcl) {id : UInt32}
    (file : system.stat = some statbuf) (regular : statbuf.st_mode = .regular)
    (queried : lookup system is_user name = .ok id)
    (read : system.acl_get_file .access = some acl.entries) :
    (∃ text, acl.expected is_user (statbuf.own is_user) id = some text ∧
        myGetfacl system [program, letter is_user, name] = .ok text) ↔
      (id = statbuf.own is_user → acl.OwnPrevails is_user id) ∧
        (id ≠ statbuf.own is_user → acl.NamedOrNone is_user id) := by
  have started : myGetfacl system [program, letter is_user, name] = answer system is_user name := by
    cases is_user <;> rfl
  rw [started, answer_eq calls acl file regular queried read]
  by_cases isOwn : id = statbuf.own is_user
  · rw [← isOwn, decide_eq_true (rfl : id = id), printAnswer_own]
    exact ⟨fun prevails => ⟨fun _ => prevails, fun apart => absurd rfl apart⟩,
      fun both => both.1 rfl⟩
  · rw [decide_eq_false isOwn, printAnswer_other acl is_user isOwn]
    exact ⟨fun either => ⟨fun same => absurd same isOwn, fun _ => either⟩,
      fun both => both.2 isOwn⟩

/-- Of user 0; user 1 is named. -/
def sharedEntries : List Entry :=
  [⟨.userObj, 0, ⟨true, true, false⟩⟩, ⟨.user, 1, ⟨true, true, false⟩⟩,
    ⟨.groupObj, 0, ⟨true, false, false⟩⟩, ⟨.mask, 0, ⟨true, false, false⟩⟩,
    ⟨.other, 0, ⟨false, false, false⟩⟩]

theorem sharedEntries_distinct :
    sharedEntries.Pairwise fun first second => ¬ first.Clashes second := by
  decide

theorem sharedEntries_required : ∀ tag ∈ [Tag.userObj, .groupObj, .other],
    ∃ entry ∈ sharedEntries, entry.tag = tag := by
  decide

theorem sharedEntries_masked : ∀ entry ∈ sharedEntries, entry.tag.Named →
    ∃ mask ∈ sharedEntries, mask.tag = .mask := by
  decide

def sharedAcl : AccessAcl :=
  ⟨sharedEntries, sharedEntries_distinct, sharedEntries_required, sharedEntries_masked⟩

/-- A regular file with this ACL; no name of a user or a group is known. -/
def sharedFile : System where
  stat := some ⟨.regular, 0, 0⟩
  getpwnam _ := none
  getgrnam _ := none
  acl_get_file
    | .access => some sharedAcl.entries
    | .default => some []
  fails _ _ := false

theorem myGetfacl_correct_named :
    (∃ text, sharedAcl.expected true 0 1 = some text ∧
        myGetfacl sharedFile [[97], letter true, [49]] = .ok text) ↔
      ((1 : UInt32) = 0 → sharedAcl.OwnPrevails true 1) ∧
        ((1 : UInt32) ≠ 0 → sharedAcl.NamedOrNone true 1) := by
  have file : sharedFile.stat = some ⟨.regular, 0, 0⟩ := rfl
  exact myGetfacl_correct_iff (fun _ _ => rfl) sharedAcl file rfl rfl rfl

/-- User 2 has the permissions of all others, but the program prints a permission set that
no entry has supplied, as user 1 is named. -/
theorem myGetfacl_prints_nobody :
    sharedAcl.expected true 0 2 = some ['-', '-', '-', '\n'] ∧
      myGetfacl sharedFile [[97], letter true, [50]] = .error .indeterminate :=
  ⟨rfl, rfl⟩

end LinuxProgramming.Files.Getfacl
