import Mathlib.Data.List.Induction

/-!
Contract: values that a sequence of operations sets from time to time.

Owns:
- `lastWrite`: the value the last operation has set, or else the initial one;
- how it splits along the sequence;
- the rule that a value every operation sets or keeps is the last one written;
- values that at most one operation sets.

Does not own: any particular operations.
-/

namespace LinuxProgramming.Library

universe u v w

variable {Operation : Type u} {Value : Type v} {State : Type w}

/-- The last value written; `write?` tells which value an operation writes, if any. -/
def lastWrite (write? : Operation → Option Value) (initial : Value)
    (operations : List Operation) : Value :=
  (operations.filterMap write?).getLast?.getD initial

theorem lastWrite_concat (write? : Operation → Option Value) (initial : Value)
    (operations : List Operation) (last : Operation) :
    lastWrite write? initial (operations ++ [last]) =
      (write? last).getD (lastWrite write? initial operations) := by
  rw [lastWrite, List.filterMap_append]
  cases written : write? last with
  | none => simp [written, lastWrite]
  | some value => simp [written]

theorem lastWrite_append (write? : Operation → Option Value) (initial : Value)
    (earlier later : List Operation) :
    lastWrite write? initial (earlier ++ later) =
      lastWrite write? (lastWrite write? initial earlier) later := by
  rw [lastWrite, List.filterMap_append, List.getLast?_append]
  unfold lastWrite
  cases (later.filterMap write?).getLast? <;> rfl

theorem lastWrite_cons (write? : Operation → Option Value) (initial : Value)
    (first : Operation) (later : List Operation) :
    lastWrite write? initial (first :: later) =
      lastWrite write? ((write? first).getD initial) later := by
  rw [← List.singleton_append, lastWrite_append]
  congr 1
  exact lastWrite_concat write? initial [] first

/-- A value that at most one operation sets is the one that operation sets. -/
theorem lastWrite_eq_find? {sets : Operation → Bool} (value : Operation → Value)
    (initial : Value) {operations : List Operation}
    (unique : operations.Pairwise fun earlier later => sets earlier → ¬ sets later) :
    lastWrite (fun operation => if sets operation then some (value operation) else none) initial
      operations = ((operations.find? sets).map value).getD initial := by
  induction operations generalizing initial with
  | nil => rfl
  | cons first later inductionHypothesis =>
      obtain ⟨others, uniqueLater⟩ := List.pairwise_cons.mp unique
      rw [lastWrite_cons, inductionHypothesis _ uniqueLater]
      cases decided : sets first with
      | false => rw [List.find?_cons_of_neg (by simp [decided])]; rfl
      | true =>
          have noOther : later.find? sets = none :=
            List.find?_eq_none.mpr fun other member => others other member decided
          rw [List.find?_cons_of_pos decided, noOther]
          rfl

/-- The operations act one after another; each sets what is observed or keeps it. -/
theorem observe_foldl (observe : State → Value) {apply : State → Operation → State}
    {write? : Operation → Option Value} {Allowed : Operation → Prop}
    (effect : ∀ state operation, Allowed operation →
      observe (apply state operation) = (write? operation).getD (observe state))
    {operations : List Operation} (allowed : ∀ operation ∈ operations, Allowed operation)
    (state : State) :
    observe (operations.foldl apply state) = lastWrite write? (observe state) operations := by
  induction operations using List.reverseRecOn with
  | nil => rfl
  | append_singleton earlier last inductionHypothesis =>
      rw [List.forall_mem_append] at allowed
      rw [List.foldl_append, lastWrite_concat, ← inductionHypothesis allowed.1]
      exact effect _ last (allowed.2 last (List.mem_singleton_self last))

end LinuxProgramming.Library
