import Mathlib.Data.List.Basic
import Mathlib.Logic.Function.Basic

/-!
Contract: tables of descriptors, over any type of open files.

Owns:
- what a descriptor refers to, descriptors that are not numbers of the table included;
- `close`, `assign` and `dup2`, and what they leave as it was;
- the lowest free descriptor in a range.

Does not own: which calls a program makes, and how they fail.
-/

namespace LinuxProgramming.Library

universe u

/-- What each descriptor refers to. -/
abbrev DescriptorTable (File : Type u) := Nat → Option File

namespace DescriptorTable

variable {File : Type u}

/-- What an `int` refers to. -/
def lookup (table : DescriptorTable File) (fd : Int) : Option File :=
  if 0 ≤ fd then table fd.toNat else none

def close (table : DescriptorTable File) (fd : Nat) : DescriptorTable File :=
  Function.update table fd none

def assign (table : DescriptorTable File) (fd : Nat) (file : File) : DescriptorTable File :=
  Function.update table fd (some file)

/-- A copy of `old` under the number `new`. -/
def dup2 (table : DescriptorTable File) (old new : Nat) : DescriptorTable File :=
  Function.update table new (table old)

/-- The lowest free descriptor from `first` on and below `limit`. -/
def lowestFree (table : DescriptorTable File) (first limit : Nat) : Option Nat :=
  (List.range' first (limit - first)).find? fun fd => (table fd).isNone

@[simp] theorem lookup_natCast (table : DescriptorTable File) (fd : Nat) :
    table.lookup fd = table fd := by
  simp [lookup]

@[simp] theorem close_self (table : DescriptorTable File) (fd : Nat) :
    table.close fd fd = none := by
  rw [close, Function.update_self]

theorem close_other (table : DescriptorTable File) {fd other : Nat} (different : other ≠ fd) :
    table.close fd other = table other := by
  rw [close, Function.update_of_ne different]

@[simp] theorem assign_self (table : DescriptorTable File) (fd : Nat) (file : File) :
    table.assign fd file fd = some file := by
  rw [assign, Function.update_self]

theorem assign_other (table : DescriptorTable File) {fd other : Nat} (file : File)
    (different : other ≠ fd) : table.assign fd file other = table other := by
  rw [assign, Function.update_of_ne different]

@[simp] theorem dup2_new (table : DescriptorTable File) (old new : Nat) :
    table.dup2 old new new = table old := by
  rw [dup2, Function.update_self]

theorem dup2_other (table : DescriptorTable File) (old : Nat) {new other : Nat}
    (different : other ≠ new) : table.dup2 old new other = table other := by
  rw [dup2, Function.update_of_ne different]

/-- Copies of one file under several numbers, one after the other: the file may already have
one of these numbers. -/
theorem dup2_foldl (table : DescriptorTable File) (old : Nat) (targets : List Nat) (fd : Nat) :
    targets.foldl (fun table new => table.dup2 old new) table fd =
      if fd ∈ targets then table old else table fd := by
  induction targets generalizing table with
  | nil => simp
  | cons new rest inductionHypothesis =>
      have kept : table.dup2 old new old = table old := by
        by_cases same : old = new
        · rw [same, dup2_new]
        · exact dup2_other table old same
      rw [List.foldl_cons, inductionHypothesis, kept]
      by_cases later : fd ∈ rest
      · rw [if_pos later, if_pos (List.mem_cons_of_mem _ later)]
      · rw [if_neg later]
        by_cases same : fd = new
        · rw [if_pos (by simp [same]), same, dup2_new]
        · rw [if_neg (by simp [same, later]), dup2_other table old same]

/-- To close a descriptor that was free before it was assigned leaves no trace. -/
theorem close_assign {table : DescriptorTable File} {fd : Nat} (free : table fd = none)
    (file : File) : (table.assign fd file).close fd = table := by
  rw [close, assign, Function.update_idem, ← free, Function.update_eq_self]

/-- A descriptor that is assigned again keeps the last file. -/
theorem assign_assign (table : DescriptorTable File) (fd : Nat) (file last : File) :
    (table.assign fd file).assign fd last = table.assign fd last := by
  rw [assign, assign, Function.update_idem, assign]

/-- A new file is copied to some numbers, and its first number is closed unless it is one of
them: then these numbers refer to the file, and nothing else has changed. -/
theorem moved {table : DescriptorTable File} {fd : Nat} (free : table fd = none) (file : File)
    (targets : List Nat) (other : Nat) :
    (if fd ∈ targets
      then targets.foldl (fun table new => table.dup2 fd new) (table.assign fd file)
      else (targets.foldl (fun table new => table.dup2 fd new) (table.assign fd file)).close fd)
        other =
      if other ∈ targets then some file else table other := by
  have copied := dup2_foldl (table.assign fd file) fd targets other
  rw [assign_self] at copied
  by_cases standard : fd ∈ targets
  · rw [if_pos standard, copied]
    by_cases target : other ∈ targets
    · rw [if_pos target, if_pos target]
    · have different : other ≠ fd := fun same => target (same ▸ standard)
      rw [if_neg target, if_neg target, assign_other table file different]
  · rw [if_neg standard]
    by_cases same : other = fd
    · rw [same, close_self, if_neg standard, free]
    · rw [close_other _ same, copied, assign_other table file same]

theorem lookup_close (table : DescriptorTable File) {fd : Int} (nonneg : 0 ≤ fd) (other : Int) :
    (table.close fd.toNat).lookup other = if other = fd then none else table.lookup other := by
  unfold lookup
  by_cases same : other = fd
  · simp [same]
  · rw [if_neg same]
    by_cases otherNonneg : 0 ≤ other
    · have different : other.toNat ≠ fd.toNat := by omega
      rw [if_pos otherNonneg, if_pos otherNonneg, close_other table different]
    · rw [if_neg otherNonneg, if_neg otherNonneg]

theorem lookup_assign (table : DescriptorTable File) {fd : Int} (nonneg : 0 ≤ fd) (file : File)
    (other : Int) :
    (table.assign fd.toNat file).lookup other =
      if other = fd then some file else table.lookup other := by
  unfold lookup
  by_cases same : other = fd
  · simp [same, nonneg]
  · rw [if_neg same]
    by_cases otherNonneg : 0 ≤ other
    · have different : other.toNat ≠ fd.toNat := by omega
      rw [if_pos otherNonneg, if_pos otherNonneg, assign_other table file different]
    · rw [if_neg otherNonneg, if_neg otherNonneg]

theorem nonneg_of_lookup {table : DescriptorTable File} {fd : Int}
    (isOpen : table.lookup fd ≠ none) : 0 ≤ fd := by
  by_contra negative
  exact isOpen (if_neg negative)

theorem lowestFree_eq_some {table : DescriptorTable File} {first limit fd : Nat} :
    table.lowestFree first limit = some fd ↔
      table fd = none ∧ (first ≤ fd ∧ fd < limit) ∧
        ∀ other, first ≤ other → other < fd → table other ≠ none := by
  rw [lowestFree, List.find?_range'_eq_some, List.mem_range'_1]
  simp only [Option.isNone_iff_eq_none, Bool.not_eq_true', Option.isNone_eq_false_iff,
    Option.isSome_iff_ne_none]
  refine and_congr_right fun _ => and_congr_left fun _ => ?_
  omega

/-- The first descriptor of the range is taken if it is free. -/
theorem lowestFree_first {table : DescriptorTable File} {first limit : Nat}
    (free : table first = none) (below : first < limit) :
    table.lowestFree first limit = some first := by
  apply lowestFree_eq_some.mpr
  refine ⟨free, ⟨Nat.le_refl first, below⟩, ?_⟩
  intro other atLeast less
  omega

end DescriptorTable

end LinuxProgramming.Library
