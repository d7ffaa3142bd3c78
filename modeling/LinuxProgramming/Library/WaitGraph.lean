import LinuxProgramming.Library.TransitionSystem
import Mathlib.Data.Fintype.Card
import Mathlib.Order.WellFounded

/-!
Contract: who waits for whom, as a relation, and runs that come to an end.

Owns:
- a cycle among finitely many nodes of which each has a successor among them;
- the nodes on cycles, of which each has a successor on a cycle;
- states in which a system is stuck, and a measure that leads to one.

Does not own: locks, messages or processes.
-/

namespace LinuxProgramming.Library

universe u

section Cycles

variable {Node : Type u} {Edge : Node → Node → Prop}

/-- Where everybody waits for somebody of the same finite set, some wait in a circle. -/
theorem exists_cycle_of_successors [Finite Node] {nodes : Set Node} (nonempty : nodes.Nonempty)
    (successor : ∀ node ∈ nodes, ∃ next ∈ nodes, Edge node next) :
    ∃ node, Relation.TransGen Edge node node := by
  by_contra acyclic
  have irreflexive : Std.Irrefl (Relation.TransGen (Function.swap Edge)) := by
    constructor
    intro node cycle
    exact acyclic ⟨node, Relation.transGen_swap.mp cycle⟩
  have wellFounded := Finite.wellFounded_of_trans_of_irrefl
    (Relation.TransGen (Function.swap Edge))
  obtain ⟨last, member, isLast⟩ := wellFounded.has_min nodes nonempty
  obtain ⟨next, member', edge⟩ := successor last member
  exact isLast next member' (.single edge)

/-- On a cycle one goes on on a cycle. -/
theorem exists_next_on_cycle {node : Node} (cycle : Relation.TransGen Edge node node) :
    ∃ next, Edge node next ∧ Relation.TransGen Edge next next := by
  obtain ⟨next, edge, back⟩ := Relation.TransGen.head'_iff.mp cycle
  exact ⟨next, edge, Relation.TransGen.tail' back edge⟩

end Cycles

namespace TransitionSystem

variable {State : Type u} (system : TransitionSystem State)

/-- No step is possible. -/
def Stuck (state : State) : Prop :=
  ∀ next, ¬ system.Step state next

variable {system}

/-- A run along which a measure decreases can be followed to its end. -/
theorem reaches_stuck (left : State → Nat)
    (decreases : ∀ before after, system.Step before after → left after < left before)
    (state : State) :
    ∃ last, Relation.ReflTransGen system.Step state last ∧ system.Stuck last := by
  induction state using (measure left).wf.induction with
  | _ state inductionHypothesis =>
      by_cases stuck : system.Stuck state
      · exact ⟨state, .refl, stuck⟩
      · simp only [Stuck, not_forall, not_not] at stuck
        obtain ⟨next, step⟩ := stuck
        obtain ⟨last, run, isStuck⟩ := inductionHypothesis next (decreases state next step)
        exact ⟨last, .head step run, isStuck⟩

end TransitionSystem

/-- A run along which a measure decreases has at most as many steps as the measure says. -/
theorem length_le_measure {State : Type u} {Label : Type} {stepOf : Label → State → Option State}
    (left : State → Nat)
    (decreases : ∀ label before after, stepOf label before = some after →
      left after < left before) {labels : List Label} {before after : State}
    (ran : runLabels stepOf labels before = some after) : labels.length ≤ left before := by
  induction labels generalizing before with
  | nil => exact Nat.zero_le _
  | cons label rest inductionHypothesis =>
      obtain ⟨next, stepped, ran⟩ := Option.bind_eq_some_iff.mp ran
      have less := decreases label before next stepped
      have bound := inductionHypothesis ran
      rw [List.length_cons]
      omega

end LinuxProgramming.Library
