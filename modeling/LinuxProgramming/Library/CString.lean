import Mathlib.Data.List.Basic

/-!
Contract: comparison of C strings, given as their bytes before the terminator, and the
search for a byte in the memory that a string is in.

Owns:
- `strncmp` and when it finds its arguments equal;
- `strchr`, which fails if it would leave the memory, and what it passes.

Does not own: what is done to the memory.
-/

namespace LinuxProgramming.Library.CString

/-- `strncmp`: the sign of the first difference within `count` bytes. -/
def strncmp : List UInt8 → List UInt8 → Nat → Int
  | _, _, 0 => 0
  | [], [], _ + 1 => 0
  | [], _ :: _, _ + 1 => -1
  | _ :: _, [], _ + 1 => 1
  | first :: rest, second :: others, count + 1 =>
      if first = second then strncmp rest others count
      else if first < second then -1 else 1

theorem strncmp_eq_zero (left right : List UInt8) (count : Nat) :
    strncmp left right count = 0 ↔ left.take count = right.take count := by
  fun_induction strncmp left right count with
  | case1 => simp
  | case2 => simp
  | case3 => simp
  | case4 => simp
  | case5 first rest others count inductionHypothesis => simpa using inductionHypothesis
  | case6 first rest second others count different => simp [different]
  | case7 first rest second others count different => simp [different]

/-- A comparison of as many bytes as the second string has tests for a prefix. -/
theorem strncmp_prefix (left right : List UInt8) :
    strncmp left right right.length = 0 ↔ right <+: left := by
  rw [strncmp_eq_zero, List.take_length, List.prefix_iff_eq_take]
  exact eq_comm

/-! ### Search -/

/-- `strchr`: the distance to the first byte that is sought, if it comes before the terminator
or is the terminator; `none` if the memory ends before. -/
def strchr? (sought : UInt8) : List UInt8 → Option (Option Nat)
  | [] => none
  | c :: rest =>
      if c = sought then some (some 0)
      else if c = 0 then some none
      else (strchr? sought rest).map (Option.map (· + 1))

/-- Bytes that are neither sought nor a terminator are passed. -/
theorem strchr?_append {sought : UInt8} {front : List UInt8} (other : sought ∉ front)
    (free : 0 ∉ front) (memory : List UInt8) :
    strchr? sought (front ++ memory) =
      (strchr? sought memory).map (Option.map (front.length + ·)) := by
  induction front with
  | nil => simp
  | cons c rest inductionHypothesis =>
      rw [List.mem_cons, not_or] at other free
      rw [List.cons_append, strchr?, if_neg (Ne.symm other.1), if_neg (Ne.symm free.1),
        inductionHypothesis other.2 free.2, Option.map_map]
      congr 1
      funext found
      rw [Function.comp_apply, Option.map_map, List.length_cons]
      congr 1
      funext distance
      exact Nat.add_right_comm ..

theorem strchr?_found {sought : UInt8} {front : List UInt8} (other : sought ∉ front)
    (free : 0 ∉ front) (rest : List UInt8) :
    strchr? sought (front ++ sought :: rest) = some (some front.length) := by
  rw [strchr?_append other free, strchr?, if_pos rfl]
  rfl

theorem strchr?_absent {sought : UInt8} {front : List UInt8} (other : sought ∉ front)
    (free : 0 ∉ front) (notEnd : sought ≠ 0) (rest : List UInt8) :
    strchr? sought (front ++ 0 :: rest) = some none := by
  rw [strchr?_append other free, strchr?, if_neg notEnd.symm, if_pos rfl]
  rfl

end LinuxProgramming.Library.CString
