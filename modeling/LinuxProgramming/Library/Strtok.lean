import Mathlib.Data.List.Basic
import Mathlib.Data.List.TakeWhile

/-!
Contract: `strtok`, which cuts tokens off a text, one call at a time.

Owns:
- one call, on a new text or on what the call before has left;
- the token that a call finds, and what it leaves for the next one.

Does not own: any particular delimiters; each call may have others.
-/

namespace LinuxProgramming.Library

universe u

variable {α : Type u} [DecidableEq α]

/-- One call: the token, if there is one, and what is left behind the delimiter that
ends it. -/
def strtok (delimiters text : List α) : Option (List α) × List α :=
  let start := text.dropWhile (· ∈ delimiters)
  if start = [] then (none, [])
  else (some (start.takeWhile (· ∉ delimiters)), (start.dropWhile (· ∉ delimiters)).tail)

variable {delimiters token : List α}

/-- Delimiters before a token are skipped. -/
theorem strtok_cons_of_mem {symbol : α} (isDelimiter : symbol ∈ delimiters) (text : List α) :
    strtok delimiters (symbol :: text) = strtok delimiters text := by
  unfold strtok
  rw [List.dropWhile_cons, if_pos (decide_eq_true isDelimiter)]

/-- No delimiter in front of the text. -/
theorem strtok_of_dropWhile_eq {text : List α}
    (start : text.dropWhile (· ∈ delimiters) = text) (nonempty : text ≠ []) :
    strtok delimiters text =
      (some (text.takeWhile (· ∉ delimiters)), (text.dropWhile (· ∉ delimiters)).tail) := by
  unfold strtok
  rw [start, if_neg nonempty]

theorem dropWhile_token (free : ∀ symbol ∈ token, symbol ∉ delimiters) (nonempty : token ≠ [])
    (rest : List α) :
    (token ++ rest).dropWhile (· ∈ delimiters) = token ++ rest := by
  cases token with
  | nil => exact absurd rfl nonempty
  | cons first others =>
      exact List.dropWhile_cons_of_neg (by simpa using free first List.mem_cons_self)

/-- A token up to a delimiter. -/
theorem strtok_append (free : ∀ symbol ∈ token, symbol ∉ delimiters) (nonempty : token ≠ [])
    {delimiter : α} (isDelimiter : delimiter ∈ delimiters) (rest : List α) :
    strtok delimiters (token ++ delimiter :: rest) = (some token, rest) := by
  have all : ∀ symbol ∈ token, decide (symbol ∉ delimiters) = true :=
    fun symbol member => decide_eq_true (free symbol member)
  have stops : ¬ decide (delimiter ∉ delimiters) = true := by simpa using isDelimiter
  rw [strtok_of_dropWhile_eq (dropWhile_token free nonempty _) (by simp),
    List.takeWhile_append_of_pos all, List.dropWhile_append_of_pos all,
    List.takeWhile_cons, List.dropWhile_cons, if_neg stops, if_neg stops, List.append_nil]
  rfl

/-- A token up to the end of the text. -/
theorem strtok_token (free : ∀ symbol ∈ token, symbol ∉ delimiters) (nonempty : token ≠ []) :
    strtok delimiters token = (some token, []) := by
  have all : ∀ symbol ∈ token, decide (symbol ∉ delimiters) = true :=
    fun symbol member => decide_eq_true (free symbol member)
  have start := dropWhile_token free nonempty []
  rw [List.append_nil] at start
  rw [strtok_of_dropWhile_eq start nonempty, List.takeWhile_eq_self_iff.mpr all,
    List.dropWhile_eq_nil_iff.mpr all]
  rfl

/-- No token is empty. -/
theorem strtok_ne_nil (delimiters text : List α) : (strtok delimiters text).1 ≠ some [] := by
  unfold strtok
  simp only
  split
  case isTrue => simp
  case isFalse nonempty =>
    obtain ⟨first, others, start⟩ := List.exists_cons_of_ne_nil nonempty
    have head := List.head?_dropWhile_not (fun symbol => decide (symbol ∈ delimiters)) text
    rw [start, List.head?_cons] at head
    rw [start, List.takeWhile_cons, if_pos (by simpa using head)]
    simp

/-- A token is taken from the text. -/
theorem length_strtok_lt {text : List α} (found : (strtok delimiters text).1 ≠ none) :
    (strtok delimiters text).2.length < text.length := by
  unfold strtok at found ⊢
  simp only at found ⊢
  split at found
  case isTrue => exact absurd rfl found
  case isFalse nonempty =>
    have kept := (text.dropWhile_suffix (fun symbol => decide (symbol ∈ delimiters))).length_le
    have left := ((text.dropWhile (· ∈ delimiters)).dropWhile_suffix
      (fun symbol => decide (symbol ∉ delimiters))).length_le
    have some_ := List.length_pos_of_ne_nil nonempty
    rw [if_neg nonempty, List.length_tail]
    omega

end LinuxProgramming.Library
