import Mathlib.Logic.Basic

/-!
Contract: partial correctness of computations that pass a state along and may
stop with an error.

Owns:
- `Returns`: whenever the computation ends without an error, its result and
  final state satisfy a postcondition;
- the rules for sequencing, branching and weakening.

Does not own: any particular state, or proofs that a computation ends.
-/

namespace LinuxProgramming.Library

universe u

variable {σ ε α β : Type u}

/-- If `program` started in `state` ends without an error, `post` holds. -/
def Returns (program : StateT σ (Except ε) α) (state : σ) (post : α → σ → Prop) : Prop :=
  ∀ result state', program state = .ok (result, state') → post result state'

namespace Returns

variable {program : StateT σ (Except ε) α} {next : α → StateT σ (Except ε) β} {state : σ}

theorem pure {result : α} {post : α → σ → Prop} (holds : post result state) :
    Returns (pure result : StateT σ (Except ε) α) state post := by
  rintro _ _ ⟨⟩
  exact holds

theorem of_error {reason : ε} {post : α → σ → Prop} (stopped : program state = .error reason) :
    Returns program state post := by
  intro result state' ran
  rw [stopped] at ran
  cases ran

theorem of_ok {result : α} {state' : σ} {post : α → σ → Prop}
    (ran : program state = .ok (result, state')) (holds : post result state') :
    Returns program state post := by
  intro _ _ ran'
  rw [ran] at ran'
  cases ran'
  exact holds

/-- Another computation with the same outcome. -/
theorem of_eq {program' : StateT σ (Except ε) α} {state' : σ} {post : α → σ → Prop}
    (same : program state = program' state') (returns : Returns program' state' post) :
    Returns program state post := by
  intro result final ran
  rw [same] at ran
  exact returns result final ran

theorem mono {post post' : α → σ → Prop} (returns : Returns program state post)
    (weaker : ∀ result state', post result state' → post' result state') :
    Returns program state post' :=
  fun result state' ran => weaker result state' (returns result state' ran)

theorem and {post post' : α → σ → Prop} (first : Returns program state post)
    (second : Returns program state post') :
    Returns program state fun result state' => post result state' ∧ post' result state' :=
  fun result state' ran => ⟨first result state' ran, second result state' ran⟩

/-- Sequencing: the first postcondition is what the rest starts from. -/
theorem bind {middle : α → σ → Prop} {post : β → σ → Prop}
    (first : Returns program state middle)
    (rest : ∀ result state', middle result state' → Returns (next result) state' post) :
    Returns (program >>= next) state post := by
  intro result state' ran
  have unfolded : (program state).bind (fun pair => next pair.1 pair.2) =
      .ok (result, state') := ran
  cases started : program state with
  | error reason =>
      rw [started] at unfolded
      cases unfolded
  | ok pair =>
      rw [started] at unfolded
      exact rest pair.1 pair.2 (first pair.1 pair.2 started) result state' unfolded

/-- Sequencing, with what holds between the two written out. -/
theorem through (middle : α → σ → Prop) {post : β → σ → Prop}
    (first : Returns program state middle)
    (rest : ∀ result state', middle result state' → Returns (next result) state' post) :
    Returns (program >>= next) state post :=
  bind first rest

theorem ite {condition : Prop} [Decidable condition] {yes no : StateT σ (Except ε) α}
    {post : α → σ → Prop} (whenYes : condition → Returns yes state post)
    (whenNo : ¬ condition → Returns no state post) :
    Returns (if condition then yes else no) state post := by
  split
  case isTrue holds => exact whenYes holds
  case isFalse fails => exact whenNo fails

end Returns

end LinuxProgramming.Library
