import Mathlib.Data.List.Basic

/-!
Contract: the credentials of a process, over any type of ids with a privileged one.

Owns:
- real, effective and saved ids of users and groups, and the supplementary groups;
- `setuid` and `setgid` with and without privilege.

Does not own: capabilities that are kept apart from the user id.
-/

namespace LinuxProgramming.Library

universe u

/-- The three ids of one class. -/
structure Ids (Id : Type u) where
  real : Id
  effective : Id
  saved : Id
deriving DecidableEq, Repr

/-- All three ids are this one. -/
def Ids.all {Id : Type u} (id : Id) : Ids Id := ⟨id, id, id⟩

@[ext]
structure Credentials (Id : Type u) where
  uid : Ids Id
  gid : Ids Id
  groups : List Id
deriving DecidableEq, Repr

namespace Credentials

variable {Id : Type u} [DecidableEq Id] (root : Id)

/-- What a process may do with one class of ids; `none` is `EPERM`. -/
def changed (privileged : Bool) (ids : Ids Id) (id : Id) : Option (Ids Id) :=
  if privileged then some (Ids.all id)
  else if id = ids.real ∨ id = ids.saved then some { ids with effective := id } else none

def privileged (credentials : Credentials Id) : Bool := credentials.uid.effective = root

def setuid (credentials : Credentials Id) (uid : Id) : Option (Credentials Id) :=
  (changed (credentials.privileged root) credentials.uid uid).map fun uid =>
    { credentials with uid }

def setgid (credentials : Credentials Id) (gid : Id) : Option (Credentials Id) :=
  (changed (credentials.privileged root) credentials.gid gid).map fun gid =>
    { credentials with gid }

variable {root}

theorem changed_all_iff {privileged : Bool} {ids : Ids Id} {id : Id} :
    changed privileged ids id = some (Ids.all id) ↔
      privileged = true ∨ ids.real = id ∧ ids.saved = id := by
  cases privileged with
  | true => simp [changed]
  | false =>
      simp only [changed, Bool.false_eq_true, ↓reduceIte, false_or]
      constructor
      · intro unchanged
        split at unchanged
        case isTrue accepted =>
          have fields := Option.some.inj unchanged
          simpa [Ids.all] using fields
        case isFalse refused => cases unchanged
      · intro same
        rw [if_pos (Or.inl same.1.symm), Ids.all, same.1, same.2]

/-- With privilege all three user ids are set, and nothing else changes. -/
theorem setuid_privileged {credentials : Credentials Id}
    (isRoot : credentials.uid.effective = root) (uid : Id) :
    credentials.setuid root uid = some { credentials with uid := Ids.all uid } := by
  simp [setuid, changed, privileged, isRoot]

/-- The group ids after `setgid` are all three the new one if the process has privilege or
has no other real or saved one. -/
theorem setgid_eq_some_all_iff (root : Id) (credentials : Credentials Id) (gid : Id) :
    credentials.setgid root gid = some { credentials with gid := Ids.all gid } ↔
      credentials.uid.effective = root ∨
        credentials.gid.real = gid ∧ credentials.gid.saved = gid := by
  have isRoot : credentials.uid.effective = root ↔ credentials.privileged root = true := by
    simp [privileged]
  rw [isRoot, ← changed_all_iff, setgid]
  cases changed (credentials.privileged root) credentials.gid gid with
  | none => simp
  | some ids => simp

/-- `setgid` leaves the supplementary groups and the user ids. -/
theorem setgid_keeps {credentials after : Credentials Id} {gid : Id}
    (accepted : credentials.setgid root gid = some after) :
    after.groups = credentials.groups ∧ after.uid = credentials.uid := by
  obtain ⟨ids, _, rfl⟩ := Option.map_eq_some_iff.mp accepted
  exact ⟨rfl, rfl⟩

end Credentials

end LinuxProgramming.Library
