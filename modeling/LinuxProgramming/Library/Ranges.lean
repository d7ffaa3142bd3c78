import Mathlib.Data.List.Pairwise
import Mathlib.Algebra.Order.BigOperators.Group.List
import Mathlib.Algebra.Order.Ring.Int

/-!
Contract: half-open ranges of integers, as a sequence allocator hands them out.

Owns:
- `Range`, its members, disjointness, and rows of ranges in ascending order;
- ranges of given lengths laid end to end.

Does not own: any allocator.
-/

namespace LinuxProgramming.Library

/-- The integers from `first` on, `length` many. -/
structure Range where
  first : Int
  length : Int
deriving DecidableEq, Repr

namespace Range

/-- The first integer behind the range. -/
def finish (range : Range) : Int := range.first + range.length

def Has (range : Range) (number : Int) : Prop :=
  range.first ≤ number ∧ number < range.finish

def Disjoint (left right : Range) : Prop :=
  ∀ number, ¬ (left.Has number ∧ right.Has number)

/-- The left range ends before the right one starts. -/
def Before (left right : Range) : Prop :=
  left.finish ≤ right.first

theorem Before.disjoint {left right : Range} (before : left.Before right) :
    left.Disjoint right := by
  rintro number ⟨⟨-, below⟩, ⟨above, -⟩⟩
  exact absurd (Int.lt_of_lt_of_le below before) (Int.not_lt.mpr above)

/-- Two ranges with the same start that are not empty meet. -/
theorem not_disjoint_of_first_eq {left right : Range} (start : left.first = right.first)
    (leftSome : 0 < left.length) (rightSome : 0 < right.length) : ¬ left.Disjoint right := by
  intro disjoint
  refine disjoint left.first ⟨⟨Int.le_refl _, ?_⟩, ⟨?_, ?_⟩⟩
  · rw [finish]
    omega
  · omega
  · rw [finish]
    omega

/-- Ranges of the given lengths, one behind the other. -/
def consecutive (first : Int) : List Int → List Range
  | [] => []
  | length :: rest => ⟨first, length⟩ :: consecutive (first + length) rest

theorem first_le_of_mem_consecutive {first : Int} {lengths : List Int}
    (nonneg : ∀ length ∈ lengths, 0 ≤ length) {range : Range}
    (member : range ∈ consecutive first lengths) : first ≤ range.first := by
  induction lengths generalizing first with
  | nil => cases member
  | cons length rest inductionHypothesis =>
      obtain rfl | later := List.mem_cons.mp member
      · exact Int.le_refl _
      · have := nonneg length List.mem_cons_self
        have := inductionHypothesis
          (fun other inRest => nonneg other (List.mem_cons_of_mem _ inRest)) later
        omega

theorem finish_le_of_mem_consecutive {first : Int} {lengths : List Int}
    (nonneg : ∀ length ∈ lengths, 0 ≤ length) {range : Range}
    (member : range ∈ consecutive first lengths) : range.finish ≤ first + lengths.sum := by
  induction lengths generalizing first with
  | nil => cases member
  | cons length rest inductionHypothesis =>
      have nonnegRest : ∀ other ∈ rest, 0 ≤ other := fun other inRest =>
        nonneg other (List.mem_cons_of_mem _ inRest)
      rw [List.sum_cons]
      obtain rfl | later := List.mem_cons.mp member
      · have := List.sum_nonneg nonnegRest
        simp only [finish]
        omega
      · have := inductionHypothesis nonnegRest later
        omega

/-- Consecutive ranges are in order. -/
theorem consecutive_ordered (first : Int) {lengths : List Int}
    (nonneg : ∀ length ∈ lengths, 0 ≤ length) :
    (consecutive first lengths).Pairwise Before := by
  induction lengths generalizing first with
  | nil => exact .nil
  | cons length rest inductionHypothesis =>
      have nonnegRest : ∀ other ∈ rest, 0 ≤ other := fun other inRest =>
        nonneg other (List.mem_cons_of_mem _ inRest)
      exact .cons (fun range member => first_le_of_mem_consecutive nonnegRest member)
        (inductionHypothesis (first + length) nonnegRest)

end Range

end LinuxProgramming.Library
