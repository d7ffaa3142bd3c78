import Mathlib.Logic.Basic

/-!
Contract: two computations that pass a state along, may stop with an error, and run
in lockstep.

Owns:
- `Lockstep`: both stop for the same reason, or both end with the same result and
  with states that a postcondition relates;
- the rules for sequencing, branching and weakening.

Does not own: any particular state, or which computations are compared.
-/

namespace LinuxProgramming.Library

universe u

variable {σ ε α β : Type u}

/-- Started in their states, the two programs come to the same. -/
def Lockstep (program program' : StateT σ (Except ε) α) (state state' : σ)
    (post : α → σ → σ → Prop) : Prop :=
  (∃ reason, program state = .error reason ∧ program' state' = .error reason) ∨
  ∃ result after after', program state = .ok (result, after) ∧
    program' state' = .ok (result, after') ∧ post result after after'

namespace Lockstep

variable {program program' : StateT σ (Except ε) α} {next next' : α → StateT σ (Except ε) β}
  {state state' : σ}

theorem stopped {reason : ε} {post : α → σ → σ → Prop} (stops : program state = .error reason)
    (stops' : program' state' = .error reason) : Lockstep program program' state state' post :=
  .inl ⟨reason, stops, stops'⟩

theorem ended {result : α} {after after' : σ} {post : α → σ → σ → Prop}
    (ends : program state = .ok (result, after)) (ends' : program' state' = .ok (result, after'))
    (holds : post result after after') : Lockstep program program' state state' post :=
  .inr ⟨result, after, after', ends, ends', holds⟩

/-- Other programs, in other states, that come to the same as the two. -/
theorem of_eq {first first' : StateT σ (Except ε) α} {before before' : σ}
    {post : α → σ → σ → Prop} (same : program state = first before)
    (same' : program' state' = first' before')
    (lockstep : Lockstep first first' before before' post) :
    Lockstep program program' state state' post := by
  rw [Lockstep, same, same']
  exact lockstep

theorem pure {result : α} {post : α → σ → σ → Prop} (holds : post result state state') :
    Lockstep (pure result) (pure result : StateT σ (Except ε) α) state state' post :=
  ended rfl rfl holds

theorem mono {post post' : α → σ → σ → Prop}
    (lockstep : Lockstep program program' state state' post)
    (weaker : ∀ result after after', post result after after' → post' result after after') :
    Lockstep program program' state state' post' := by
  rcases lockstep with ⟨reason, stops, stops'⟩ | ⟨result, after, after', ends, ends', holds⟩
  · exact stopped stops stops'
  · exact ended ends ends' (weaker _ _ _ holds)

/-- Sequencing: what relates the states in between is what the rest starts from. -/
theorem bind {middle : α → σ → σ → Prop} {post : β → σ → σ → Prop}
    (first : Lockstep program program' state state' middle)
    (rest : ∀ result after after', middle result after after' →
      Lockstep (next result) (next' result) after after' post) :
    Lockstep (program >>= next) (program' >>= next') state state' post := by
  have whole (program : StateT σ (Except ε) α) (next : α → StateT σ (Except ε) β) (state : σ) :
      (program >>= next) state = (program state).bind fun pair => next pair.1 pair.2 := rfl
  rcases first with ⟨reason, stops, stops'⟩ | ⟨result, after, after', ends, ends', holds⟩
  · exact stopped (by rw [whole, stops]; rfl) (by rw [whole, stops']; rfl)
  · rcases rest result after after' holds with
      ⟨reason, stops, stops'⟩ | ⟨result', final, final', ends₂, ends₂', holds'⟩
    · exact stopped (by rw [whole, ends]; exact stops) (by rw [whole, ends']; exact stops')
    · exact ended (by rw [whole, ends]; exact ends₂) (by rw [whole, ends']; exact ends₂') holds'

/-- Sequencing, with what relates the states in between written out. -/
theorem through (middle : α → σ → σ → Prop) {post : β → σ → σ → Prop}
    (first : Lockstep program program' state state' middle)
    (rest : ∀ result after after', middle result after after' →
      Lockstep (next result) (next' result) after after' post) :
    Lockstep (program >>= next) (program' >>= next') state state' post :=
  bind first rest

theorem ite {condition : Prop} [Decidable condition] {yes yes' no no' : StateT σ (Except ε) α}
    {post : α → σ → σ → Prop}
    (whenYes : condition → Lockstep yes yes' state state' post)
    (whenNo : ¬ condition → Lockstep no no' state state' post) :
    Lockstep (if condition then yes else no) (if condition then yes' else no') state state'
      post := by
  split
  case isTrue holds => exact whenYes holds
  case isFalse fails => exact whenNo fails

end Lockstep

end LinuxProgramming.Library
