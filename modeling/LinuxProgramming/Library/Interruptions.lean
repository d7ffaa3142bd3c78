import Mathlib.Data.List.ReduceOption
import LinuxProgramming.Library.Lines

/-!
Contract: reading lines from a stream that is interrupted now and then, by a reader
that starts a line again after an interruption.

Owns:
- what one attempt at a line takes from the stream, and whether it is interrupted;
- `surviving`, the text that such a reader gets in the end;
- when that is the whole text.

Does not own: buffers, or any particular reader.
-/

namespace LinuxProgramming.Library.Lines

universe u

variable {α : Type u} [DecidableEq α] (newline : α)

/-! ### One attempt -/

/-- The symbols up to the first separator, which is included, or up to the first
interruption. An interruption is `none`. -/
def attempt : List (Option α) → List α
  | [] => []
  | none :: _ => []
  | some symbol :: rest => if symbol = newline then [symbol] else symbol :: attempt rest

/-- An interruption comes before the first separator. -/
def interrupted : List (Option α) → Bool
  | [] => false
  | none :: _ => true
  | some symbol :: rest => if symbol = newline then false else interrupted rest

/-- What follows the first separator or interruption. -/
def afterAttempt : List (Option α) → List (Option α)
  | [] => []
  | none :: rest => rest
  | some symbol :: rest => if symbol = newline then rest else afterAttempt rest

/-! ### All attempts -/

/-- The text of complete attempts; `pending` has been read since the last separator
and is lost at an interruption. -/
def survivingFrom : List α → List (Option α) → List α
  | pending, [] => pending
  | _, none :: rest => survivingFrom [] rest
  | pending, some symbol :: rest =>
      if symbol = newline then pending ++ symbol :: survivingFrom [] rest
      else survivingFrom (pending ++ [symbol]) rest

def surviving (stream : List (Option α)) : List α := survivingFrom newline [] stream

variable {newline}

theorem survivingFrom_eq (pending : List α) (stream : List (Option α)) :
    survivingFrom newline pending stream =
      if interrupted newline stream then surviving newline (afterAttempt newline stream)
      else pending ++ attempt newline stream ++ surviving newline (afterAttempt newline stream) := by
  induction stream generalizing pending with
  | nil => simp [survivingFrom, interrupted, attempt, afterAttempt, surviving]
  | cons next rest inductionHypothesis =>
      cases next with
      | none => rfl
      | some symbol =>
          rw [survivingFrom, interrupted, attempt, afterAttempt]
          by_cases ends : symbol = newline
          · simp [ends, surviving]
          · rw [if_neg ends, if_neg ends, if_neg ends, if_neg ends, inductionHypothesis]
            simp only [List.append_assoc, List.cons_append, List.nil_append]

/-- An interrupted attempt adds nothing. -/
theorem surviving_of_interrupted {stream : List (Option α)}
    (stops : interrupted newline stream = true) :
    surviving newline stream = surviving newline (afterAttempt newline stream) := by
  rw [surviving, survivingFrom_eq, if_pos stops]

/-- A complete attempt takes the next line of the text. -/
theorem line_of_complete {stream : List (Option α)}
    (complete : interrupted newline stream = false) :
    firstLine newline (surviving newline stream) = attempt newline stream ∧
      afterLine newline (surviving newline stream) =
        surviving newline (afterAttempt newline stream) := by
  rw [surviving, survivingFrom_eq, if_neg (by simp [complete]), List.nil_append]
  induction stream with
  | nil => exact ⟨rfl, rfl⟩
  | cons next rest inductionHypothesis =>
      cases next with
      | none => cases complete
      | some symbol =>
          rw [interrupted] at complete
          rw [attempt, afterAttempt]
          by_cases ends : symbol = newline
          · simp [firstLine, afterLine, ends]
          · rw [if_neg ends] at complete
            obtain ⟨first, after⟩ := inductionHypothesis complete
            rw [if_neg ends, if_neg ends, List.cons_append, firstLine, afterLine, if_neg ends,
              if_neg ends, first, after]
            exact ⟨rfl, rfl⟩

theorem length_afterAttempt_lt {stream : List (Option α)}
    (stops : interrupted newline stream = true) :
    (afterAttempt newline stream).length < stream.length := by
  induction stream with
  | nil => cases stops
  | cons next rest inductionHypothesis =>
      cases next with
      | none => exact Nat.lt_succ_self _
      | some symbol =>
          rw [interrupted] at stops
          split at stops
          · cases stops
          case isFalse continues =>
            rw [afterAttempt, if_neg continues]
            exact Nat.lt_succ_of_lt (inductionHypothesis stops)

theorem length_afterAttempt_le (stream : List (Option α)) :
    (afterAttempt newline stream).length ≤ stream.length := by
  induction stream with
  | nil => exact Nat.le_refl _
  | cons next rest inductionHypothesis =>
      cases next with
      | none => exact Nat.le_succ _
      | some symbol =>
          rw [afterAttempt]
          split
          · exact Nat.le_succ _
          · exact Nat.le_succ_of_le inductionHypothesis

/-! ### When nothing is lost -/

theorem length_survivingFrom_le (pending : List α) (stream : List (Option α)) :
    (survivingFrom newline pending stream).length ≤
      pending.length + stream.reduceOption.length := by
  induction stream generalizing pending with
  | nil => exact Nat.le_add_right _ _
  | cons next rest inductionHypothesis =>
      cases next with
      | none =>
          have fewer := inductionHypothesis []
          rw [survivingFrom, List.reduceOption_cons_of_none]
          rw [List.length_nil] at fewer
          omega
      | some symbol =>
          rw [survivingFrom, List.reduceOption_cons_of_some, List.length_cons]
          split
          · have fewer := inductionHypothesis []
            rw [List.length_append, List.length_cons]
            rw [List.length_nil] at fewer
            omega
          · have fewer := inductionHypothesis (pending ++ [symbol])
            rw [List.length_append, List.length_singleton] at fewer
            omega

/-- Every interruption comes where a line has just ended, or at the very start. -/
def BetweenLines (newline : α) (stream : List (Option α)) : Prop :=
  ∀ before after, stream = before ++ none :: after → Closed newline before.reduceOption

omit [DecidableEq α] in
theorem closed_iff_of_notMem {pending : List α} (free : newline ∉ pending) :
    Closed newline pending ↔ pending = [] := by
  constructor
  · intro closed
    rcases List.eq_nil_or_concat pending with empty | ⟨before, last, rfl⟩
    · exact empty
    · rw [List.concat_eq_append] at closed free
      have ends : last = newline := closed last (by simp)
      exact absurd (by simp [ends]) free
  · rintro rfl
    exact closed_nil

omit [DecidableEq α] in
/-- The interruptions of a stream are the first symbol, if it is one, and those of the
rest. -/
theorem forall_interruption_cons {holds : List (Option α) → Prop} (next : Option α)
    (rest : List (Option α)) :
    (∀ before after, next :: rest = before ++ none :: after → holds before) ↔
      (next = none → holds []) ∧
        ∀ before after, rest = before ++ none :: after → holds (next :: before) := by
  constructor
  · intro every
    refine ⟨fun isNone => every [] rest (by rw [isNone, List.nil_append]), ?_⟩
    intro before after split
    exact every (next :: before) after (by rw [split, List.cons_append])
  · rintro ⟨here, later⟩ before after split
    cases before with
    | nil =>
        cases split
        exact here rfl
    | cons head tail =>
        cases split
        exact later tail after rfl

/-- The induction is on the stream; `pending` is what has been read of a line. -/
theorem survivingFrom_eq_iff {pending : List α} (free : newline ∉ pending)
    (stream : List (Option α)) :
    survivingFrom newline pending stream = pending ++ stream.reduceOption ↔
      ∀ before after, stream = before ++ none :: after →
        Closed newline (pending ++ before.reduceOption) := by
  induction stream generalizing pending with
  | nil => simp [survivingFrom, List.reduceOption_nil]
  | cons next rest inductionHypothesis =>
      rw [forall_interruption_cons]
      have fromStart := @inductionHypothesis [] List.not_mem_nil
      cases next with
      | none =>
          simp only [survivingFrom, List.reduceOption_cons_of_none, List.reduceOption_nil,
            List.append_nil, closed_iff_of_notMem free, true_implies]
          by_cases empty : pending = []
          · rw [and_iff_right empty, empty]
            exact fromStart
          · refine iff_of_false (fun whole => ?_) fun both => empty both.1
            -- what was pending is missing
            have fewer : (survivingFrom newline [] rest).length ≤
                ([] : List α).length + rest.reduceOption.length := length_survivingFrom_le [] rest
            rw [whole, List.length_append, List.length_nil] at fewer
            exact empty (List.length_eq_zero_iff.mp (by omega))
      | some symbol =>
          rw [and_iff_right nofun, survivingFrom]
          simp only [List.reduceOption_cons_of_some]
          by_cases ends : symbol = newline
          · subst ends
            rw [if_pos rfl, List.append_cancel_left_eq, List.cons.injEq, and_iff_right rfl]
            simpa only [closed_append_cons, List.nil_append] using fromStart
          · rw [if_neg ends]
            have later := @inductionHypothesis (pending ++ [symbol])
              (by simpa [free] using Ne.symm ends)
            simpa only [List.append_assoc, List.singleton_append] using later

/-- Nothing is lost exactly if all interruptions come between lines. -/
theorem surviving_eq_iff (stream : List (Option α)) :
    surviving newline stream = stream.reduceOption ↔ BetweenLines newline stream :=
  survivingFrom_eq_iff List.not_mem_nil stream

end LinuxProgramming.Library.Lines
