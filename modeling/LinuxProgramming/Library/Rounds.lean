import LinuxProgramming.Library.TransitionSystem
import Mathlib.Algebra.BigOperators.Group.Finset.Basic
import Mathlib.Algebra.Order.BigOperators.Group.Finset
import Mathlib.Data.Fintype.BigOperators

/-!
Contract: schedules in rounds, for processes that each do a step of their own.

Owns:
- a run in which each process of a finite set does one step on its own place;
- sums over processes of which one has moved;
- which lanes take part in a round, when a given number of rounds is left for their work.

Does not own: what a step does to anything shared.
-/

namespace LinuxProgramming.Library

universe u v

/-- Where each of some processes can do its step whatever the others do, all of them can. -/
theorem run_each {Process Place : Type u} {State : Type v} [DecidableEq Process]
    {Step : State → State → Prop} (state : (Process → Place) → State)
    (before after : Process → Place) (chosen : Finset Process)
    (steps : ∀ process ∈ chosen, ∀ places, places process = before process →
      Step (state places) (state (Function.update places process (after process))))
    (places : Process → Place) (ready : ∀ process ∈ chosen, places process = before process) :
    Relation.ReflTransGen Step (state places)
      (state fun process => if process ∈ chosen then after process else places process) := by
  induction chosen using Finset.induction_on with
  | empty => simpa using Relation.ReflTransGen.refl
  | insert process chosen fresh inductionHypothesis =>
      have run := inductionHypothesis
        (fun other member => steps other (Finset.mem_insert_of_mem member))
        (fun other member => ready other (Finset.mem_insert_of_mem member))
      have stepped := steps process (Finset.mem_insert_self ..)
        (fun other => if other ∈ chosen then after other else places other)
        ((if_neg fresh).trans (ready process (Finset.mem_insert_self ..)))
      have same : Function.update (fun other => if other ∈ chosen then after other
          else places other) process (after process) =
          fun other => if other ∈ insert process chosen then after other else places other := by
        funext other
        by_cases here : other = process
        · subst here
          simp
        · simp [here]
      rw [same] at stepped
      exact run.tail stepped

/-- Two sums that differ in one summand. -/
theorem sum_add_eq_sum_add {Process : Type u} [Fintype Process] [DecidableEq Process]
    {first second : Process → Nat} (process : Process)
    (same : ∀ other, other ≠ process → first other = second other) :
    ∑ other, first other + second process = ∑ other, second other + first process := by
  have firstSum := Finset.add_sum_erase Finset.univ first (Finset.mem_univ process)
  have secondSum := Finset.add_sum_erase Finset.univ second (Finset.mem_univ process)
  have others : ∑ other ∈ Finset.univ.erase process, first other =
      ∑ other ∈ Finset.univ.erase process, second other :=
    Finset.sum_congr rfl fun other member => same other (Finset.ne_of_mem_erase member)
  omega

section Lanes

variable {Lane : Type u} [Fintype Lane]

/-- With one round more than `rounds` left, some lanes can take part so that no lane has more
work than rounds afterwards, and there is work for each round. -/
theorem exists_round {work : Lane → Nat} {rounds : Nat} (fits : ∀ lane, work lane ≤ rounds + 1)
    (enough : rounds + 1 ≤ ∑ lane, work lane) :
    ∃ chosen : Finset Lane, chosen.Nonempty ∧ (∀ lane ∈ chosen, 0 < work lane) ∧
      (∀ lane ∉ chosen, work lane ≤ rounds) ∧ rounds + chosen.card ≤ ∑ lane, work lane := by
  classical
  let urgent := Finset.univ.filter fun lane => work lane = rounds + 1
  by_cases nonempty : urgent.Nonempty
  · refine ⟨urgent, nonempty, ?_, ?_, ?_⟩
    · intro lane member
      rw [(Finset.mem_filter.mp member).2]
      exact Nat.succ_pos rounds
    · intro lane absent
      have different : work lane ≠ rounds + 1 := fun same =>
        absent (Finset.mem_filter.mpr ⟨Finset.mem_univ lane, same⟩)
      have bound := fits lane
      omega
    · have total : urgent.card * (rounds + 1) ≤ ∑ lane, work lane := by
        calc urgent.card * (rounds + 1) = ∑ lane ∈ urgent, work lane :=
              (Finset.sum_const_nat fun lane member => (Finset.mem_filter.mp member).2).symm
          _ ≤ ∑ lane, work lane := Finset.sum_le_univ_sum_of_nonneg fun _ => Nat.zero_le _
      have positive := nonempty.card_pos
      have more : rounds ≤ urgent.card * rounds := Nat.le_mul_of_pos_left rounds positive
      rw [Nat.mul_succ] at total
      omega
  · -- nobody is in a hurry: one lane that has work is enough
    have someWork : ∃ lane, 0 < work lane := by
      by_contra! none
      have zero : ∑ lane, work lane = 0 :=
        Finset.sum_eq_zero fun lane _ => Nat.le_zero.mp (none lane)
      omega
    obtain ⟨lane, positive⟩ := someWork
    refine ⟨{lane}, ⟨lane, Finset.mem_singleton_self lane⟩, ?_, ?_, ?_⟩
    · intro other member
      rwa [Finset.mem_singleton.mp member]
    · intro other _
      have different : work other ≠ rounds + 1 := fun same =>
        nonempty ⟨other, Finset.mem_filter.mpr ⟨Finset.mem_univ other, same⟩⟩
      have bound := fits other
      omega
    · rw [Finset.card_singleton]
      exact enough

end Lanes

end LinuxProgramming.Library
