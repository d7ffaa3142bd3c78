import Mathlib.Data.Fintype.Card
import Mathlib.Data.Set.Finite.Basic
import Mathlib.Logic.Relation

/-!
Contract: work on a stack, where each rule takes the top in some state and puts
symbols in its place.

Owns:
- `Pushdown`, its steps, and that a run is not disturbed by what lies below;
- which heads are met, and which of them within the work on another;
- the criterion for all runs to end: no head is met within the work on itself.

Does not own: any particular states, symbols or rules.
-/

namespace LinuxProgramming.Library

universe u v

/-- Rules that take the top of the stack in a state, leave another state and put
symbols in place of the top. -/
structure Pushdown (State : Type u) (Symbol : Type v) where
  Rule : State → Symbol → State → List Symbol → Prop

namespace Pushdown

open Relation

variable {State : Type u} {Symbol : Type v} (system : Pushdown State Symbol)

/-- One application of a rule. -/
inductive Step : State × List Symbol → State × List Symbol → Prop where
  | apply {before after top pushed} (rest) : system.Rule before top after pushed →
      Step (before, top :: rest) (after, pushed ++ rest)

/-- Every run from the configuration ends. -/
def Ends (start : State × List Symbol) : Prop :=
  Acc (fun after before => system.Step before after) start

/-- The symbol is on top in the state, at some time in a run. -/
def Meets (start : State × List Symbol) (head : State × Symbol) : Prop :=
  ∃ rest, ReflTransGen system.Step start (head.1, head.2 :: rest)

/-- The inner head is met later, before the outer symbol and what was put in its
place are used up. -/
def Within (outer inner : State × Symbol) : Prop :=
  ∃ rest, TransGen system.Step (outer.1, [outer.2]) (inner.1, inner.2 :: rest)

variable {system}

/-! ### What lies below -/

section Below

variable {before after : State × List Symbol}

theorem Step.frame (step : system.Step before after) (below : List Symbol) :
    system.Step (before.1, before.2 ++ below) (after.1, after.2 ++ below) := by
  obtain ⟨rest, rule⟩ := step
  rw [List.append_assoc]
  exact .apply (rest ++ below) rule

theorem frame_reflTransGen (run : ReflTransGen system.Step before after) (below : List Symbol) :
    ReflTransGen system.Step (before.1, before.2 ++ below) (after.1, after.2 ++ below) :=
  run.lift (fun configuration => (configuration.1, configuration.2 ++ below))
    fun _ _ step => step.frame below

theorem frame_transGen (run : TransGen system.Step before after) (below : List Symbol) :
    TransGen system.Step (before.1, before.2 ++ below) (after.1, after.2 ++ below) :=
  run.lift (fun configuration => (configuration.1, configuration.2 ++ below))
    fun _ _ step => step.frame below

end Below

/-- The inner head, with what is left of the outer symbol and what lies below it. -/
theorem Within.run {outer inner : State × Symbol} (within : system.Within outer inner)
    (below : List Symbol) : ∃ rest, TransGen system.Step (outer.1, outer.2 :: below)
      (inner.1, inner.2 :: rest) := by
  obtain ⟨rest, run⟩ := within
  exact ⟨rest ++ below, frame_transGen run below⟩

theorem Within.trans {outer middle inner : State × Symbol} (first : system.Within outer middle)
    (second : system.Within middle inner) : system.Within outer inner := by
  obtain ⟨rest, run⟩ := first
  obtain ⟨rest', run'⟩ := second.run rest
  exact ⟨rest', run.trans run'⟩

theorem Meets.within {start : State × List Symbol} {outer inner : State × Symbol}
    (meets : system.Meets start outer) (within : system.Within outer inner) :
    system.Meets start inner := by
  obtain ⟨rest, run⟩ := meets
  obtain ⟨rest', run'⟩ := within.run rest
  exact ⟨rest', run.trans run'.to_reflTransGen⟩

/-! ### Runs that end -/

theorem ends_nil (state : State) : system.Ends (state, []) := by
  refine .intro _ ?_
  rintro _ ⟨⟩

/-- The work on a stack in two parts. -/
theorem Ends.append {state : State} {first rest : List Symbol}
    (ends : system.Ends (state, first))
    (later : ∀ state', ReflTransGen system.Step (state, first) (state', []) →
      system.Ends (state', rest)) : system.Ends (state, first ++ rest) := by
  generalize isStart : (state, first) = start at ends later
  induction ends generalizing state first with
  | intro start _ inductionHypothesis =>
      subst isStart
      cases first with
      | nil => exact later state .refl
      | cons top others =>
          rw [List.cons_append]
          refine .intro _ ?_
          rintro _ ⟨_, rule⟩
          rw [← List.append_assoc]
          exact inductionHypothesis _ (.apply others rule) rfl
            fun state' run => later state' (.head (.apply others rule) run)

/-- The induction is on the stack. -/
theorem ends_of_heads {state : State} {stack : List Symbol}
    (heads : ∀ head, system.Meets (state, stack) head → system.Ends (head.1, [head.2])) :
    system.Ends (state, stack) := by
  induction stack generalizing state with
  | nil => exact ends_nil state
  | cons top rest inductionHypothesis =>
      have alone : system.Ends (state, [top]) := heads (state, top) ⟨rest, .refl⟩
      refine Ends.append alone fun state' run => inductionHypothesis fun head meets => ?_
      obtain ⟨below, run'⟩ := meets
      exact heads head ⟨below, (frame_reflTransGen run rest).trans run'⟩

/-- The heads met form a finite set on which `Within` is well-founded, and the work on
a head ends if that on all heads within does. -/
theorem ends_of_not_within {start : State × List Symbol}
    (finite : {head | system.Meets start head}.Finite)
    (never : ∀ head, system.Meets start head → ¬ system.Within head head) :
    system.Ends start := by
  let Inside (inner outer : {head // system.Meets start head}) : Prop :=
    system.Within outer.1 inner.1
  have wellFounded : WellFounded Inside := by
    have : Finite {head // system.Meets start head} := finite
    have : IsTrans _ Inside := ⟨fun _ _ _ inner outer => outer.trans inner⟩
    have : Std.Irrefl Inside := ⟨fun head => never head.1 head.2⟩
    exact Finite.wellFounded_of_trans_of_irrefl Inside
  have alone (head : {head // system.Meets start head}) :
      system.Ends (head.1.1, [head.1.2]) := by
    induction head using wellFounded.induction with
    | _ head inductionHypothesis =>
        refine .intro _ fun after step => ends_of_heads fun inner meets => ?_
        obtain ⟨below, run⟩ := meets
        have within : system.Within head.1 inner := ⟨below, .head' step run⟩
        exact inductionHypothesis ⟨inner, head.2.within within⟩ within
  exact ends_of_heads fun head meets => alone ⟨head, meets⟩

theorem not_ends_of_within {start : State × List Symbol} {head : State × Symbol}
    (meets : system.Meets start head) (again : system.Within head head) :
    ¬ system.Ends start := by
  intro ends
  obtain ⟨rest, run⟩ := meets
  have reached : Acc (TransGen fun after before => system.Step before after)
      (head.1, head.2 :: rest) := by
    rcases reflTransGen_iff_eq_or_transGen.mp run with same | run
    · exact same ▸ ends.transGen
    · exact ends.transGen.inv (transGen_swap.mpr run)
  -- the head is met again, with more below it
  generalize isHead : (head.1, head.2 :: rest) = reached' at reached
  induction reached generalizing rest with
  | intro _ _ inductionHypothesis =>
      subst isHead
      obtain ⟨rest', run'⟩ := again.run rest
      exact inductionHypothesis _ (transGen_swap.mpr run') rest'
        (run.trans run'.to_reflTransGen) rfl

/-- With finitely many heads, every run ends exactly if no head is met within the
work on itself. -/
theorem ends_iff {start : State × List Symbol}
    (finite : {head | system.Meets start head}.Finite) :
    system.Ends start ↔ ∀ head, system.Meets start head → ¬ system.Within head head :=
  ⟨fun ends _ meets again => not_ends_of_within meets again ends, ends_of_not_within finite⟩

end Pushdown

end LinuxProgramming.Library
