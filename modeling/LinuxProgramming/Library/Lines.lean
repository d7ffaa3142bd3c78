import Mathlib.Data.List.Basic

/-!
Contract: the lines of a text, over any alphabet with a line separator.

Owns:
- `firstLine` and `afterLine`, which cut a text after its first separator;
- `lines`, the pieces that end in the separator, and a last one that need not;
- how `lines` unfolds one line at a time;
- `Closed` texts, whose last line is terminated, and the number of lines;
- what a reader gets whose buffer holds so much of a line.

Does not own: buffers, files, or any particular separator.
-/

namespace LinuxProgramming.Library.Lines

universe u

variable {α : Type u} [DecidableEq α] (newline : α)

/-- Up to the first separator, which is included. -/
def firstLine : List α → List α
  | [] => []
  | symbol :: rest => if symbol = newline then [symbol] else symbol :: firstLine rest

/-- What follows the first separator. -/
def afterLine : List α → List α
  | [] => []
  | symbol :: rest => if symbol = newline then rest else afterLine rest

/-- The pieces of a text that end in a separator, and a last unterminated one. -/
def lines : List α → List (List α)
  | [] => []
  | symbol :: rest =>
      if symbol = newline then [symbol] :: lines rest
      else match lines rest with
        | [] => [[symbol]]
        | line :: more => (symbol :: line) :: more

variable {newline}

@[simp] theorem firstLine_nil : firstLine newline [] = [] := rfl

@[simp] theorem afterLine_nil : afterLine newline [] = [] := rfl

@[simp] theorem lines_nil : lines newline [] = [] := rfl

theorem firstLine_append_afterLine (text : List α) :
    firstLine newline text ++ afterLine newline text = text := by
  induction text with
  | nil => rfl
  | cons symbol rest inductionHypothesis =>
      by_cases ends : symbol = newline
      · simp [firstLine, afterLine, ends]
      · simpa [firstLine, afterLine, ends] using inductionHypothesis

/-- A text that is not empty is its first line and the lines after it. -/
theorem lines_eq_cons {text : List α} (notEmpty : text ≠ []) :
    lines newline text = firstLine newline text :: lines newline (afterLine newline text) := by
  induction text with
  | nil => exact absurd rfl notEmpty
  | cons symbol rest inductionHypothesis =>
      by_cases ends : symbol = newline
      · simp [lines, firstLine, afterLine, ends]
      · cases rest with
        | nil => simp [lines, firstLine, afterLine, ends]
        | cons next more =>
            have unfolded := inductionHypothesis (List.cons_ne_nil _ _)
            rw [lines, if_neg ends, unfolded]
            simp [firstLine, afterLine, ends]

/-- The lines of a text are the text. -/
theorem lines_flatten (text : List α) : (lines newline text).flatten = text := by
  induction text with
  | nil => rfl
  | cons symbol rest inductionHypothesis =>
      by_cases ends : symbol = newline
      · simp [lines, ends, inductionHypothesis]
      · rw [lines, if_neg ends]
        cases split : lines newline rest with
        | nil => simp_all
        | cons line more => simp_all

/-- A text has no line exactly if it is empty. -/
theorem lines_eq_nil {text : List α} : lines newline text = [] ↔ text = [] := by
  constructor
  · intro none_
    have whole : (lines newline text).flatten = text := lines_flatten text
    rw [← whole, none_, List.flatten_nil]
  · rintro rfl
    rfl

/-! ### Their number -/

/-- Nothing follows the last separator. -/
def Closed (newline : α) (text : List α) : Prop :=
  ∀ symbol ∈ text.getLast?, symbol = newline

instance (text : List α) : Decidable (Closed newline text) :=
  inferInstanceAs (Decidable (∀ symbol ∈ text.getLast?, symbol = newline))

omit [DecidableEq α] in
theorem closed_nil : Closed newline [] := by
  simp [Closed]

omit [DecidableEq α] in
theorem closed_append (before : List α) {text : List α} (some_ : text ≠ []) :
    Closed newline (before ++ text) ↔ Closed newline text := by
  rw [Closed, Closed, List.getLast?_append_of_ne_nil _ some_]

omit [DecidableEq α] in
theorem closed_append_cons (before text : List α) :
    Closed newline (before ++ newline :: text) ↔ Closed newline text := by
  rw [closed_append _ (List.cons_ne_nil newline text)]
  cases text with
  | nil => simp [Closed]
  | cons symbol rest =>
      exact closed_append [newline] (List.cons_ne_nil symbol rest)

/-- A text has a line for each separator, and one more if it is not closed. -/
theorem length_lines (text : List α) :
    (lines newline text).length =
      text.count newline + if Closed newline text then 0 else 1 := by
  induction text with
  | nil => simp [closed_nil]
  | cons symbol rest inductionHypothesis =>
      by_cases ends : symbol = newline
      · subst ends
        have same : Closed symbol (symbol :: rest) ↔ Closed symbol rest :=
          closed_append_cons [] rest
        simp only [lines, if_pos, List.length_cons, inductionHypothesis, List.count_cons_self, same]
        omega
      · rw [List.count_cons_of_ne ends]
        cases rest with
        | nil => simp [lines, ends, Closed]
        | cons next more =>
            have same : Closed newline (symbol :: next :: more) ↔ Closed newline (next :: more) :=
              closed_append [symbol] (List.cons_ne_nil next more)
            rw [lines, if_neg ends]
            cases split : lines newline (next :: more) with
            | nil => exact absurd (lines_eq_nil.mp split) (List.cons_ne_nil next more)
            | cons line others =>
                rw [split] at inductionHypothesis
                simpa only [same, List.length_cons] using inductionHypothesis

/-! ### Lines in a buffer -/

theorem firstLine_ne_nil {text : List α} (notEmpty : text ≠ []) : firstLine newline text ≠ [] := by
  cases text with
  | nil => exact absurd rfl notEmpty
  | cons symbol rest =>
      rw [firstLine]
      split <;> exact List.cons_ne_nil _ _

/-- The first line is taken, and the lines after it are left. -/
theorem drop_length_firstLine (text : List α) :
    text.drop (firstLine newline text).length = afterLine newline text := by
  have split : firstLine newline text ++ afterLine newline text = text :=
    firstLine_append_afterLine text
  have dropped := congrArg (List.drop (firstLine newline text).length) split
  rw [List.drop_left] at dropped
  exact dropped.symm

variable (newline) in
/-- What `fgets` gets, call after call: a line, or as much of it as the buffer holds
with a terminator. -/
def fgetsAll (size : Nat) (text : List α) : List (List α) :=
  let buffer := (firstLine newline text).take (size - 1)
  if buffer = [] then [] else buffer :: fgetsAll size (text.drop buffer.length)
termination_by text.length
decreasing_by
  have some_ : 0 < buffer.length := List.length_pos_iff.mpr ‹buffer ≠ []›
  have more : text ≠ [] := by
    rintro rfl
    simp [buffer] at some_
  have := List.length_pos_iff.mpr more
  change (text.drop buffer.length).length < text.length
  rw [List.length_drop]
  omega

theorem fgetsAll_of_ne_nil {size : Nat} {text : List α}
    (some_ : (firstLine newline text).take (size - 1) ≠ []) :
    fgetsAll newline size text = (firstLine newline text).take (size - 1) ::
      fgetsAll newline size (text.drop ((firstLine newline text).take (size - 1)).length) := by
  rw [fgetsAll.eq_def]
  exact if_neg some_

/-- A buffer that holds every line gets the lines. -/
theorem fgetsAll_eq_lines {size : Nat} (text : List α)
    (fit : ∀ line ∈ lines newline text, line.length ≤ size - 1) :
    fgetsAll newline size text = lines newline text := by
  induction length : text.length using Nat.strongRecOn generalizing text with
  | ind length_ inductionHypothesis =>
      by_cases empty : text = []
      · subst empty
        rw [fgetsAll.eq_def]
        exact if_pos List.take_nil
      · have some_ : firstLine newline text ≠ [] := firstLine_ne_nil empty
        rw [lines_eq_cons empty] at fit ⊢
        obtain ⟨first, others⟩ := List.forall_mem_cons.mp fit
        have shorter : (afterLine newline text).length < length_ := by
          rw [← drop_length_firstLine, List.length_drop, length]
          have := List.length_pos_iff.mpr some_
          have := List.length_pos_iff.mpr empty
          omega
        rw [fgetsAll_of_ne_nil (by rwa [List.take_of_length_le first]),
          List.take_of_length_le first, drop_length_firstLine,
          inductionHypothesis _ shorter _ others rfl]

end LinuxProgramming.Library.Lines
