import Mathlib.Logic.Relation

/-!
Contract: transition systems over an arbitrary state type, their reachable
states, and the induction rule that lifts a one-step fact to whole runs.

Owns:
- `TransitionSystem`, `Reachable` and inductive invariants;
- simulations between two systems;
- the two-process interleaving of partial step functions, and systems whose steps carry
  a label, all of them or those that meet a condition;
- replaying a finite schedule, as a way to exhibit a reachable state.

Does not own: any particular program, its states or its steps.
-/

namespace LinuxProgramming.Library

universe u

/-- Initial states and one atomic step. -/
structure TransitionSystem (State : Type u) where
  Init : State → Prop
  Step : State → State → Prop

namespace TransitionSystem

variable {State : Type u} (system : TransitionSystem State)

/-- A state some finite run from an initial state ends in. -/
def Reachable (state : State) : Prop :=
  ∃ start, system.Init start ∧ Relation.ReflTransGen system.Step start state

/-- A predicate that holds initially and is kept by every step. -/
structure Inductive (Invariant : State → Prop) : Prop where
  init : ∀ state, system.Init state → Invariant state
  step : ∀ before after, Invariant before → system.Step before after → Invariant after

variable {system}

theorem Reachable.of_init {state : State} (initial : system.Init state) :
    system.Reachable state :=
  ⟨state, initial, .refl⟩

theorem Reachable.tail {before after : State} (reachable : system.Reachable before)
    (step : system.Step before after) : system.Reachable after := by
  obtain ⟨start, initial, run⟩ := reachable
  exact ⟨start, initial, run.tail step⟩

/-- An inductive predicate holds in every reachable state. -/
theorem Inductive.holds {Invariant : State → Prop} (inductive_ : system.Inductive Invariant)
    {state : State} (reachable : system.Reachable state) : Invariant state := by
  obtain ⟨start, initial, run⟩ := reachable
  induction run with
  | refl => exact inductive_.init start initial
  | tail _ step inductionHypothesis =>
      exact inductive_.step _ _ inductionHypothesis step

/-- An inductive predicate holds from any state on that it holds in. -/
theorem Inductive.follows {Invariant : State → Prop} (inductive_ : system.Inductive Invariant)
    {state later : State} (holds : Invariant state)
    (run : Relation.ReflTransGen system.Step state later) : Invariant later := by
  induction run with
  | refl => exact holds
  | tail _ step inductionHypothesis =>
      exact inductive_.step _ _ inductionHypothesis step

/-- Every step of one system, between states related to reachable states of another,
is matched by a step of the other. -/
structure Simulation {Concrete Abstract : Type u} (concrete : TransitionSystem Concrete)
    (abstract : TransitionSystem Abstract) (Related : Concrete → Abstract → Prop) : Prop where
  init : ∀ state, concrete.Init state → ∃ image, abstract.Init image ∧ Related state image
  step : ∀ before after image, abstract.Reachable image → Related before image →
    concrete.Step before after → ∃ next, abstract.Step image next ∧ Related after next

/-- A reachable state is related to a reachable one. -/
theorem Simulation.reachable {Concrete Abstract : Type u} {concrete : TransitionSystem Concrete}
    {abstract : TransitionSystem Abstract} {Related : Concrete → Abstract → Prop}
    (simulation : Simulation concrete abstract Related) {state : Concrete}
    (reachable : concrete.Reachable state) :
    ∃ image, abstract.Reachable image ∧ Related state image := by
  obtain ⟨start, initial, run⟩ := reachable
  induction run with
  | refl =>
      obtain ⟨image, isInit, related⟩ := simulation.init start initial
      exact ⟨image, .of_init isInit, related⟩
  | tail _ step inductionHypothesis =>
      obtain ⟨image, isReachable, related⟩ := inductionHypothesis
      obtain ⟨next, stepped, related'⟩ := simulation.step _ _ image isReachable related step
      exact ⟨next, isReachable.tail stepped, related'⟩

end TransitionSystem

/-! ### Two processes that interleave -/

/-- Which of two processes takes the next step. -/
inductive Side where
  | left
  | right
deriving DecidableEq, Repr

/-- Two processes over one shared state. A process whose step is `none` is
blocked or has ended. -/
def interleaving {State : Type u} (Init : State → Prop)
    (stepOf : Side → State → Option State) : TransitionSystem State where
  Init := Init
  Step before after := ∃ side, stepOf side before = some after

/-- Replay one schedule; `none` when it asks a blocked process to move. -/
def replay {State : Type u} (stepOf : Side → State → Option State) :
    List Side → State → Option State
  | [], state => some state
  | side :: rest, state => (stepOf side state).bind (replay stepOf rest)

theorem replay_reachable {State : Type u} {Init : State → Prop}
    {stepOf : Side → State → Option State} {schedule : List Side} {before after : State}
    (reachable : (interleaving Init stepOf).Reachable before)
    (replayed : replay stepOf schedule before = some after) :
    (interleaving Init stepOf).Reachable after := by
  induction schedule generalizing before with
  | nil =>
      simp only [replay, Option.some.injEq] at replayed
      exact replayed ▸ reachable
  | cons side rest inductionHypothesis =>
      simp only [replay, Option.bind_eq_some_iff] at replayed
      obtain ⟨next, stepped, replayed⟩ := replayed
      exact inductionHypothesis (reachable.tail ⟨side, stepped⟩) replayed

/-! ### Labelled steps -/

/-- Steps of a partial function that takes a label, such as the process that moves and what
a system call returns to it; only those that meet a condition on the label and the state
before. -/
def labelledWhen {State : Type u} {Label : Type} (Init : State → Prop)
    (stepOf : Label → State → Option State) (Allowed : Label → State → Prop) :
    TransitionSystem State where
  Init := Init
  Step before after := ∃ label, Allowed label before ∧ stepOf label before = some after

/-- All steps of such a function. -/
def labelled {State : Type u} {Label : Type} (Init : State → Prop)
    (stepOf : Label → State → Option State) : TransitionSystem State :=
  labelledWhen Init stepOf fun _ _ => True

section Labelled

variable {State : Type u} {Label : Type} {Init : State → Prop}
  {stepOf : Label → State → Option State} {Allowed : Label → State → Prop}

theorem labelled_step (label : Label) (before after : State)
    (stepped : stepOf label before = some after) : (labelled Init stepOf).Step before after :=
  ⟨label, trivial, stepped⟩

/-- A run whose steps all meet a condition is one whose steps meet a weaker condition. -/
theorem reachable_mono {Weaker : Label → State → Prop}
    (weaker : ∀ label state, Allowed label state → Weaker label state) {state : State}
    (reachable : (labelledWhen Init stepOf Allowed).Reachable state) :
    (labelledWhen Init stepOf Weaker).Reachable state := by
  obtain ⟨start, initial, run⟩ := reachable
  refine ⟨start, initial, Relation.ReflTransGen.mono ?_ _ _ run⟩
  rintro before after ⟨label, allowed, stepped⟩
  exact ⟨label, weaker label before allowed, stepped⟩

/-- The state after the steps with these labels. -/
def runLabels (stepOf : Label → State → Option State) : List Label → State → Option State
  | [], state => some state
  | label :: rest, state => (stepOf label state).bind (runLabels stepOf rest)

theorem runLabels_reachable {system : TransitionSystem State}
    (steps : ∀ label before after, stepOf label before = some after → system.Step before after)
    {labels : List Label} {before after : State} (reachable : system.Reachable before)
    (ran : runLabels stepOf labels before = some after) : system.Reachable after := by
  induction labels generalizing before with
  | nil =>
      cases ran
      exact reachable
  | cons label rest inductionHypothesis =>
      obtain ⟨next, stepped, ran⟩ := Option.bind_eq_some_iff.mp ran
      exact inductionHypothesis (reachable.tail (steps label before next stepped)) ran

/-- The function on the steps that meet the condition. -/
def guarded (stepOf : Label → State → Option State) (Allowed : Label → State → Prop)
    [∀ label state, Decidable (Allowed label state)] (label : Label) (state : State) :
    Option State :=
  if Allowed label state then stepOf label state else none

theorem guarded_step [∀ label state, Decidable (Allowed label state)] {label : Label}
    {before after : State} (stepped : guarded stepOf Allowed label before = some after) :
    (labelledWhen Init stepOf Allowed).Step before after := by
  rw [guarded, Option.ite_none_right_eq_some] at stepped
  exact ⟨label, stepped⟩

end Labelled

end LinuxProgramming.Library
