import Mathlib.Data.List.Basic
import Mathlib.Data.List.TakeWhile

/-!
Contract: fixed-size buffers and the terminated strings in them.

Owns:
- bounded writes, `strcpy`, `strncpy`, `strcat`, and the string a buffer holds;
- what a write after a known prefix leaves in the buffer.

Does not own: any particular buffer size or alphabet; the terminator is a
parameter.
-/

namespace LinuxProgramming.Library.CBuffer

universe u

variable {α : Type u}

/-- Write `symbols` from `index` on, if they fit. -/
def write? (buffer : List α) (index : Nat) (symbols : List α) : Option (List α) :=
  if index + symbols.length ≤ buffer.length then
    some (buffer.take index ++ symbols ++ buffer.drop (index + symbols.length))
  else none

/-- Write a string and its terminator from `index` on, if they fit. -/
def strcpy? (terminator : α) (buffer : List α) (index : Nat) (string : List α) :
    Option (List α) :=
  write? buffer index (string ++ [terminator])

/-- The symbols before the first terminator. -/
def string [DecidableEq α] (terminator : α) (buffer : List α) : List α :=
  buffer.takeWhile (· ≠ terminator)

/-- A write keeps what stands before it. -/
theorem exists_write? {buffer kept : List α} (starts : kept <+: buffer) (symbols : List α)
    (fits : kept.length + symbols.length ≤ buffer.length) :
    ∃ buffer', write? buffer kept.length symbols = some buffer' ∧
      kept ++ symbols <+: buffer' ∧ buffer'.length = buffer.length := by
  refine ⟨_, if_pos fits, ?_, ?_⟩
  · rw [List.prefix_iff_eq_take.mp starts, List.length_take, Nat.min_eq_left starts.length_le]
    exact List.prefix_append _ _
  · simp only [List.length_append, List.length_take, List.length_drop]
    omega

theorem of_write? {buffer buffer' symbols : List α} {index : Nat}
    (written : write? buffer index symbols = some buffer') :
    index + symbols.length ≤ buffer.length ∧ buffer'.length = buffer.length := by
  rw [write?] at written
  split at written
  case isTrue fits =>
    cases written
    refine ⟨fits, ?_⟩
    simp only [List.length_append, List.length_take, List.length_drop]
    omega
  case isFalse => cases written

theorem string_eq [DecidableEq α] {terminator : α} {text buffer : List α}
    (free : terminator ∉ text) (starts : text ++ [terminator] <+: buffer) :
    string terminator buffer = text := by
  obtain ⟨rest, rfl⟩ := starts
  rw [string, List.append_assoc, List.takeWhile_append_of_pos]
  · simp
  · intro symbol member
    exact decide_eq_true fun same => free (same ▸ member)

/-- A text without terminator is continued by what follows it in the buffer. -/
theorem string_append [DecidableEq α] {terminator : α} {text : List α}
    (free : terminator ∉ text) (rest : List α) :
    string terminator (text ++ rest) = text ++ string terminator rest := by
  refine List.takeWhile_append_of_pos fun symbol member => ?_
  exact decide_eq_true fun same => free (same ▸ member)

/-- What follows a terminator does not matter. -/
theorem string_append_cons [DecidableEq α] (terminator : α) (text rest : List α) :
    string terminator (text ++ terminator :: rest) = string terminator text := by
  induction text with
  | nil => simp [string]
  | cons symbol more inductionHypothesis =>
      unfold string at inductionHypothesis ⊢
      by_cases same : symbol = terminator
      · simp [same]
      · simpa [List.takeWhile_cons, same] using inductionHypothesis

theorem string_eq_nil_iff [DecidableEq α] {terminator : α} {buffer : List α} :
    string terminator buffer = [] ↔ ∀ symbol, buffer[0]? = some symbol → symbol = terminator := by
  cases buffer with
  | nil => simp [string]
  | cons symbol rest =>
      by_cases same : symbol = terminator
      · simp [string, same]
      · simp [string, same]

theorem not_mem_string [DecidableEq α] (terminator : α) (buffer : List α) :
    terminator ∉ string terminator buffer := by
  intro member
  rw [string] at member
  simpa using List.mem_takeWhile_imp member

/-- `strncpy` into a buffer of `count` symbols: the rest is filled with terminators, and a
text that is too long has none. -/
def strncpy [DecidableEq α] (terminator : α) (source : List α) (count : Nat) : List α :=
  (string terminator source).take count ++
    List.replicate (count - (string terminator source).length) terminator

theorem string_strncpy [DecidableEq α] {terminator : α} {source : List α} {count : Nat}
    (fits : (string terminator source).length < count) :
    string terminator (strncpy terminator source count) = string terminator source := by
  have pads : ∃ more, count - (string terminator source).length = more + 1 :=
    Nat.exists_eq_add_one_of_ne_zero (by omega)
  obtain ⟨more, pad⟩ := pads
  rw [strncpy, List.take_of_length_le (Nat.le_of_lt fits), pad, List.replicate_succ]
  exact string_eq (not_mem_string terminator source) ⟨List.replicate more terminator, by simp⟩

/-- Write a string behind the one that the buffer holds. -/
def strcat? [DecidableEq α] (terminator : α) (buffer text : List α) : Option (List α) :=
  strcpy? terminator buffer (string terminator buffer).length text

theorem exists_strcat? [DecidableEq α] {terminator : α} {buffer kept text : List α}
    (free : terminator ∉ kept) (starts : kept ++ [terminator] <+: buffer)
    (fits : kept.length + text.length + 1 ≤ buffer.length) :
    ∃ buffer', strcat? terminator buffer text = some buffer' ∧
      kept ++ text ++ [terminator] <+: buffer' ∧ buffer'.length = buffer.length := by
  have before : kept <+: buffer := (List.prefix_append _ _).trans starts
  rw [strcat?, string_eq free starts, strcpy?, List.append_assoc]
  exact exists_write? before (text ++ [terminator]) (by simpa [Nat.add_assoc] using fits)

end LinuxProgramming.Library.CBuffer
