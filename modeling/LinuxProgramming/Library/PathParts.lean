import Mathlib.Data.List.DropRight

/-!
Contract: the last component of a path and what stands before it, over any
alphabet with a separator.

Owns:
- a path without trailing separators, its last component and the part before it;
- runs of separators collapsed to one;
- the last component and the directory part as POSIX has them.

Does not own: how a program computes them.
-/

namespace LinuxProgramming.Library.PathParts

universe u

variable {α : Type u} [DecidableEq α] (separator : α)

/-- The path without trailing separators. -/
def core (path : List α) : List α := path.rdropWhile (· = separator)

/-- The longest piece without separators before the trailing ones. -/
def lastPart (path : List α) : List α := (core separator path).rtakeWhile (· ≠ separator)

/-- What stands before the last component. -/
def before (path : List α) : List α := (core separator path).rdropWhile (· ≠ separator)

/-- The part before the last component, without trailing separators. -/
def directory (path : List α) : List α := core separator (before separator path)

/-- Runs of separators become one. -/
def collapse : List α → List α
  | [] => []
  | [symbol] => [symbol]
  | symbol :: next :: rest =>
      if symbol = separator ∧ next = separator then collapse (next :: rest)
      else symbol :: collapse (next :: rest)

/-- The POSIX basename; `dot` is the name of the current directory. -/
def basename (dot path : List α) : List α :=
  if path = [] then dot
  else if core separator path = [] then [separator]
  else lastPart separator path

/-- The POSIX dirname, with runs of separators collapsed. -/
def dirname (dot path : List α) : List α :=
  if path = [] then dot
  else if core separator path = [] then [separator]
  else if before separator path = [] then dot
  else if directory separator path = [] then [separator]
  else collapse separator (directory separator path)

variable {separator}

theorem core_concat (path : List α) :
    core separator (path ++ [separator]) = core separator path := by
  rw [core, List.rdropWhile_concat_pos _ _ _ (by simp)]
  rfl

theorem core_eq_nil {path : List α} :
    core separator path = [] ↔ path = List.replicate path.length separator := by
  rw [core, List.rdropWhile_eq_nil_iff, List.eq_replicate_iff]
  simp

/-- Trailing separators are a row of separators. -/
theorem eq_core_append (path : List α) :
    ∃ count, path = core separator path ++ List.replicate count separator := by
  refine ⟨(path.rtakeWhile (· = separator)).length, ?_⟩
  have trailing : path.rtakeWhile (· = separator) =
      List.replicate (path.rtakeWhile (· = separator)).length separator := by
    refine List.eq_replicate_iff.mpr ⟨rfl, fun symbol member => ?_⟩
    simpa using List.mem_rtakeWhile_imp member
  rw [← trailing, core, List.rdropWhile_append_rtakeWhile]

theorem core_eq_append (path : List α) :
    core separator path = before separator path ++ lastPart separator path :=
  List.rdropWhile_append_rtakeWhile.symm

theorem separator_notMem_lastPart (path : List α) : separator ∉ lastPart separator path := by
  intro member
  simpa using List.mem_rtakeWhile_imp member

/-- A path that is not made of separators has a last component. -/
theorem lastPart_ne_nil {path : List α} (some_ : core separator path ≠ []) :
    lastPart separator path ≠ [] := by
  rw [lastPart, Ne, List.rtakeWhile_eq_nil_iff]
  intro ends
  have last := List.rdropWhile_last_not (· = separator) path some_
  have separates := ends some_
  simp only [decide_eq_true_eq] at last
  simp only [decide_eq_true_eq, not_not] at separates
  exact last separates

/-- What stands before the last component ends in a separator. -/
theorem before_eq_concat {path : List α} (some_ : before separator path ≠ []) :
    ∃ rest, before separator path = rest ++ [separator] := by
  have last := List.rdropWhile_last_not (· ≠ separator) (core separator path) some_
  simp only [decide_eq_true_eq, not_not] at last
  refine ⟨(before separator path).dropLast, ?_⟩
  conv_lhs => rw [← List.dropLast_append_getLast some_]
  rw [show (before separator path).getLast some_ = separator from last]

/-! ### Collapsed runs -/

theorem collapse_cons_cons (symbol next : α) (rest : List α) :
    collapse separator (symbol :: next :: rest) =
      if symbol = separator ∧ next = separator then collapse separator (next :: rest)
      else symbol :: collapse separator (next :: rest) := rfl

theorem collapse_ne_nil {path : List α} (some_ : path ≠ []) : collapse separator path ≠ [] := by
  induction path with
  | nil => exact absurd rfl some_
  | cons symbol rest inductionHypothesis =>
      cases rest with
      | nil => exact List.cons_ne_nil _ _
      | cons next more =>
          rw [collapse_cons_cons]
          split
          · exact inductionHypothesis (List.cons_ne_nil _ _)
          · exact List.cons_ne_nil _ _

theorem length_collapse_le (path : List α) : (collapse separator path).length ≤ path.length := by
  fun_induction collapse separator path with
  | case1 | case2 => exact Nat.le_refl _
  | case3 symbol next rest both inductionHypothesis =>
      exact Nat.le_succ_of_le inductionHypothesis
  | case4 symbol next rest apart inductionHypothesis =>
      exact Nat.succ_le_succ inductionHypothesis

/-- A row of separators becomes one. -/
theorem collapse_replicate (count : Nat) :
    collapse separator (List.replicate (count + 1) separator) = [separator] := by
  induction count with
  | zero => rfl
  | succ count inductionHypothesis =>
      rw [List.replicate_succ, List.replicate_succ, collapse_cons_cons, if_pos ⟨rfl, rfl⟩,
        ← List.replicate_succ]
      exact inductionHypothesis

theorem collapse_cons {symbol : α} {path : List α} (some_ : path ≠ [])
    (apart : ¬ (symbol = separator ∧ path.head? = some separator)) :
    collapse separator (symbol :: path) = symbol :: collapse separator path := by
  cases path with
  | nil => exact absurd rfl some_
  | cons next rest =>
      rw [collapse_cons_cons, if_neg]
      simpa using apart

theorem collapse_cons_separator {path : List α} (again : path.head? = some separator) :
    collapse separator (separator :: path) = collapse separator path := by
  cases path with
  | nil => cases again
  | cons next rest =>
      rw [collapse_cons_cons, if_pos ⟨rfl, by simpa using again⟩]

/-- A trailing run is one separator behind the rest. -/
theorem collapse_core_append {path : List α} (some_ : core separator path ≠ []) (count : Nat) :
    collapse separator (core separator path ++ List.replicate (count + 1) separator) =
      collapse separator (core separator path) ++ [separator] := by
  have last := List.rdropWhile_last_not (· = separator) path some_
  simp only [decide_eq_true_eq] at last
  change (core separator path).getLast some_ ≠ separator at last
  generalize core separator path = text at some_ last ⊢
  induction text with
  | nil => exact absurd rfl some_
  | cons symbol rest inductionHypothesis =>
      cases rest with
      | nil =>
          have apart : symbol ≠ separator := by simpa using last
          rw [List.singleton_append,
            collapse_cons (by simp) (fun both => apart both.1), collapse_replicate]
          rfl
      | cons next more =>
          have rest := inductionHypothesis (List.cons_ne_nil _ _) (by simpa using last)
          by_cases both : symbol = separator ∧ next = separator
          · have longer : collapse separator (separator :: (separator :: more ++
                List.replicate (count + 1) separator)) =
              collapse separator (separator :: more ++ List.replicate (count + 1) separator) :=
              collapse_cons_separator rfl
            have shorter : collapse separator (separator :: separator :: more) =
              collapse separator (separator :: more) := collapse_cons_separator rfl
            rw [both.2] at rest
            rw [both.1, both.2, List.cons_append, longer, rest, shorter]
          · rw [List.cons_append, collapse_cons (by simp) (by simpa using both), rest,
              collapse_cons (List.cons_ne_nil _ _) (by simpa using both), List.cons_append]

/-- Collapsed up to a separator at its end, and without it, a path is its core collapsed. -/
theorem dropLast_collapse_concat (path : List α) :
    (collapse separator (path ++ [separator])).dropLast =
      collapse separator (core separator path) := by
  obtain ⟨count, whole⟩ : ∃ count, path =
      core separator path ++ List.replicate count separator := eq_core_append path
  have longer : path ++ [separator] =
      core separator path ++ List.replicate (count + 1) separator := by
    conv_lhs => rw [whole]
    rw [List.append_assoc, List.replicate_succ']
  rw [longer]
  by_cases none_ : core separator path = []
  · rw [none_, List.nil_append, collapse_replicate]
    rfl
  · rw [collapse_core_append none_, List.dropLast_concat]

end LinuxProgramming.Library.PathParts
