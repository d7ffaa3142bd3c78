import Mathlib.Data.List.Basic

/-!
Contract: a search that tries candidates in order and stops at the first success.

Owns:
- the search, over any state that an attempt may change, and the attempts it makes;
- that these are the first candidates, that only the last can have succeeded, and that all
  are tried if none succeeds.

Does not own: any particular attempt.
-/

namespace LinuxProgramming.Library.Search

universe u

variable {Candidate Result State : Type u}

/-- Attempts at the candidates in order, up to and including the first that succeeds. -/
def tryInOrder (attempt : Candidate → State → Result × State) (succeeds : Result → Bool) :
    List Candidate → State → List (Candidate × Result) × State
  | [], state => ([], state)
  | candidate :: rest, state =>
      let (result, state) := attempt candidate state
      if succeeds result then ([(candidate, result)], state)
      else
        let (tried, state) := tryInOrder attempt succeeds rest state
        ((candidate, result) :: tried, state)

section Steps

variable {attempt : Candidate → State → Result × State} {succeeds : Result → Bool}
  {candidate : Candidate} {result : Result} {before after : State}

theorem tryInOrder_cons (rest : List Candidate) :
    tryInOrder attempt succeeds (candidate :: rest) before =
      if succeeds (attempt candidate before).1 then
        ([(candidate, (attempt candidate before).1)], (attempt candidate before).2)
      else
        ((candidate, (attempt candidate before).1) ::
            (tryInOrder attempt succeeds rest (attempt candidate before).2).1,
          (tryInOrder attempt succeeds rest (attempt candidate before).2).2) := rfl

theorem tryInOrder_cons_of_succeeds (rest : List Candidate)
    (attempted : attempt candidate before = (result, after)) (succeeded : succeeds result = true) :
    tryInOrder attempt succeeds (candidate :: rest) before = ([(candidate, result)], after) := by
  rw [tryInOrder_cons, attempted, if_pos succeeded]

theorem tryInOrder_cons_of_fails (rest : List Candidate)
    (attempted : attempt candidate before = (result, after)) (failed : ¬ succeeds result = true) :
    tryInOrder attempt succeeds (candidate :: rest) before =
      ((candidate, result) :: (tryInOrder attempt succeeds rest after).1,
        (tryInOrder attempt succeeds rest after).2) := by
  rw [tryInOrder_cons, attempted, if_neg failed]

end Steps

variable (attempt : Candidate → State → Result × State) (succeeds : Result → Bool)
  (candidates : List Candidate) (state : State)

theorem tryInOrder_ne_nil (nonempty : candidates ≠ []) :
    (tryInOrder attempt succeeds candidates state).1 ≠ [] := by
  obtain ⟨candidate, rest, rfl⟩ := List.exists_cons_of_ne_nil nonempty
  rw [tryInOrder_cons]
  split
  · exact List.cons_ne_nil _ _
  · exact List.cons_ne_nil _ _

theorem map_fst_tryInOrder_prefix :
    (tryInOrder attempt succeeds candidates state).1.map Prod.fst <+: candidates := by
  induction candidates generalizing state with
  | nil => exact List.nil_prefix
  | cons candidate rest inductionHypothesis =>
      rw [tryInOrder_cons]
      split
      · exact List.prefix_append [candidate] rest
      · exact List.cons_prefix_cons.mpr ⟨rfl, inductionHypothesis _⟩

/-- Nothing is tried after a success. -/
theorem not_succeeds_of_mem_dropLast :
    ∀ entry ∈ (tryInOrder attempt succeeds candidates state).1.dropLast,
      succeeds entry.2 = false := by
  induction candidates generalizing state with
  | nil => exact fun entry member => absurd member List.not_mem_nil
  | cons candidate rest inductionHypothesis =>
      rw [tryInOrder_cons]
      split
      · exact fun entry member => absurd member List.not_mem_nil
      · rename_i fails
        have later := inductionHypothesis (attempt candidate state).2
        dsimp only
        cases tried : (tryInOrder attempt succeeds rest (attempt candidate state).2).1 with
        | nil => exact fun entry member => absurd member List.not_mem_nil
        | cons second others =>
            rw [tried] at later
            rw [List.dropLast_cons_cons]
            exact List.forall_mem_cons.mpr ⟨Bool.eq_false_iff.mpr fails, later⟩

theorem map_fst_tryInOrder
    (fails : ∀ entry ∈ (tryInOrder attempt succeeds candidates state).1,
      succeeds entry.2 = false) :
    (tryInOrder attempt succeeds candidates state).1.map Prod.fst = candidates := by
  induction candidates generalizing state with
  | nil => rfl
  | cons candidate rest inductionHypothesis =>
      rw [tryInOrder_cons] at fails ⊢
      split at fails
      · rename_i succeeded
        rw [fails _ List.mem_cons_self] at succeeded
        cases succeeded
      · rename_i failed
        rw [if_neg failed, List.map_cons, inductionHypothesis]
        exact fun entry member => fails entry (List.mem_cons_of_mem _ member)

end LinuxProgramming.Library.Search
