import Mathlib.Data.List.Basic

/-!
Contract: splitting a sequence into its maximal pieces without separator.

Owns:
- `pieces` and how it acts on concatenations;
- what every piece looks like.

Does not own: the meaning of any piece.
-/

namespace LinuxProgramming.Library.Pathname

universe u

variable {α : Type u} [DecidableEq α] (separator : α)

/-- The piece collected so far, unless it is empty. -/
def flush (current : List α) : List (List α) := if current = [] then [] else [current]

/-- The pieces of a sequence of which `current` has just been read. -/
def piecesFrom : List α → List α → List (List α)
  | current, [] => flush current
  | current, symbol :: rest =>
      if symbol = separator then flush current ++ piecesFrom [] rest
      else piecesFrom (current ++ [symbol]) rest

/-- The maximal non-empty pieces without separator, in order. -/
def pieces (sequence : List α) : List (List α) := piecesFrom separator [] sequence

theorem piecesFrom_nil (current : List α) : piecesFrom separator current [] = flush current := rfl

theorem piecesFrom_cons (current : List α) (symbol : α) (rest : List α) :
    piecesFrom separator current (symbol :: rest) =
      if symbol = separator then flush current ++ piecesFrom separator [] rest
      else piecesFrom separator (current ++ [symbol]) rest := rfl

theorem piecesFrom_append_separator (first second : List α) (current : List α) :
    piecesFrom separator current (first ++ separator :: second) =
      piecesFrom separator current first ++ pieces separator second := by
  induction first generalizing current with
  | nil => simp [piecesFrom_nil, piecesFrom_cons, pieces]
  | cons symbol rest inductionHypothesis =>
      rw [List.cons_append, piecesFrom_cons, piecesFrom_cons]
      split
      · rw [inductionHypothesis, List.append_assoc]
      · exact inductionHypothesis _

theorem pieces_append_separator (first second : List α) :
    pieces separator (first ++ separator :: second) =
      pieces separator first ++ pieces separator second :=
  piecesFrom_append_separator separator first second []

theorem pieces_replicate (count : Nat) :
    pieces separator (List.replicate count separator) = [] := by
  induction count with
  | zero => rfl
  | succ count inductionHypothesis =>
      rw [List.replicate_succ, pieces, piecesFrom_cons, if_pos rfl, flush, if_pos rfl]
      exact inductionHypothesis

theorem piecesFrom_of_notMem {sequence : List α} (free : separator ∉ sequence)
    (current : List α) : piecesFrom separator current sequence = flush (current ++ sequence) := by
  induction sequence generalizing current with
  | nil => simp [piecesFrom_nil]
  | cons symbol rest inductionHypothesis =>
      simp only [List.mem_cons, not_or] at free
      rw [piecesFrom_cons, if_neg (Ne.symm free.1), inductionHypothesis free.2]
      simp

/-- A sequence without separator is its own only piece. -/
theorem pieces_of_notMem {sequence : List α} (free : separator ∉ sequence)
    (notEmpty : sequence ≠ []) : pieces separator sequence = [sequence] := by
  rw [pieces, piecesFrom_of_notMem separator free, List.nil_append, flush, if_neg notEmpty]

omit [DecidableEq α] in
theorem mem_flush {current piece : List α} (member : piece ∈ flush current) :
    piece = current ∧ current ≠ [] := by
  rw [flush] at member
  split at member
  · cases member
  case isFalse notEmpty => exact ⟨List.mem_singleton.mp member, notEmpty⟩

/-- What has been read becomes the start of a piece. -/
theorem exists_piece_of_current (sequence : List α) {current : List α} (notEmpty : current ≠ []) :
    ∃ piece ∈ piecesFrom separator current sequence, current.length ≤ piece.length := by
  induction sequence generalizing current with
  | nil =>
      rw [piecesFrom_nil, flush, if_neg notEmpty]
      exact ⟨current, List.mem_singleton_self _, Nat.le_refl _⟩
  | cons symbol rest inductionHypothesis =>
      rw [piecesFrom_cons]
      split
      · rw [flush, if_neg notEmpty]
        exact ⟨current, List.mem_append_left _ (List.mem_singleton_self _), Nat.le_refl _⟩
      · obtain ⟨piece, member, longer⟩ := inductionHypothesis (List.concat_ne_nil symbol current)
        refine ⟨piece, member, ?_⟩
        rw [List.length_append] at longer
        exact Nat.le_trans (Nat.le_add_right _ _) longer

/-- Every symbol of a piece comes from the sequence. -/
theorem mem_of_mem_piecesFrom {sequence current piece : List α} {symbol : α}
    (member : piece ∈ piecesFrom separator current sequence) (inside : symbol ∈ piece) :
    symbol ∈ current ∨ symbol ∈ sequence := by
  induction sequence generalizing current with
  | nil =>
      rw [(mem_flush member).1] at inside
      exact .inl inside
  | cons first rest inductionHypothesis =>
      rw [piecesFrom_cons] at member
      split at member
      · rcases List.mem_append.mp member with flushed | later
        · rw [(mem_flush flushed).1] at inside
          exact .inl inside
        · rcases inductionHypothesis later with none_ | behind
          · cases none_
          · exact .inr (List.mem_cons_of_mem _ behind)
      · rcases inductionHypothesis member with before | behind
        · rcases List.mem_append.mp before with earlier | here
          · exact .inl earlier
          · exact .inr (List.mem_cons.mpr (.inl (List.mem_singleton.mp here)))
        · exact .inr (List.mem_cons_of_mem _ behind)

/-- A sequence without pieces consists of separators. -/
theorem eq_separator_of_pieces_eq_nil {sequence : List α} (empty : pieces separator sequence = [])
    {symbol : α} (member : symbol ∈ sequence) : symbol = separator := by
  induction sequence with
  | nil => cases member
  | cons first rest inductionHypothesis =>
      rw [pieces, piecesFrom_cons] at empty
      split at empty
      case isTrue isSeparator =>
        rcases List.mem_cons.mp member with rfl | later
        · exact isSeparator
        · exact inductionHypothesis (List.append_eq_nil_iff.mp empty).2 later
      case isFalse =>
        obtain ⟨piece, listed, _⟩ :=
          exists_piece_of_current separator rest (List.concat_ne_nil first [])
        rw [empty] at listed
        cases listed

theorem of_mem_piecesFrom {sequence current piece : List α} (free : separator ∉ current)
    (member : piece ∈ piecesFrom separator current sequence) :
    piece ≠ [] ∧ separator ∉ piece := by
  induction sequence generalizing current with
  | nil =>
      obtain ⟨rfl, notEmpty⟩ := mem_flush member
      exact ⟨notEmpty, free⟩
  | cons symbol rest inductionHypothesis =>
      rw [piecesFrom_cons] at member
      split at member
      · rcases List.mem_append.mp member with flushed | later
        · obtain ⟨rfl, notEmpty⟩ := mem_flush flushed
          exact ⟨notEmpty, free⟩
        · exact inductionHypothesis (by simp) later
      case isFalse other =>
        apply inductionHypothesis ?_ member
        simp only [List.mem_append, List.mem_singleton, not_or]
        exact ⟨free, Ne.symm other⟩

/-- Pieces are non-empty and hold no separator. -/
theorem of_mem_pieces {sequence piece : List α} (member : piece ∈ pieces separator sequence) :
    piece ≠ [] ∧ separator ∉ piece :=
  of_mem_piecesFrom separator (by simp) member

end LinuxProgramming.Library.Pathname
