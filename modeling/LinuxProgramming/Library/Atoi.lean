import Mathlib.Data.List.Basic
import Mathlib.Algebra.Order.Ring.Int

/-!
Contract: `strtol` to base 10 and `atoi`, on the bytes of one object of memory.

Owns:
- the scan of blanks, sign and digits, which fails if it would leave the object;
- the conversion to `long`, which saturates, and to `int`, which wraps around;
- how the result depends on the bytes after the number;
- decimal numerals, which are read as their value, and the decimal text of a number.

Does not own: any particular buffer or program.
-/

namespace LinuxProgramming.Library.Atoi

def LONG_MAX : Int := 2 ^ 63 - 1

def LONG_MIN : Int := -2 ^ 63

def isspace (c : UInt8) : Bool := c = 32 || (9 ≤ c && c ≤ 13)

def isdigit (c : UInt8) : Bool := 48 ≤ c && c ≤ 57

/-- The digits a memory starts with; `none` if no other byte ends them. -/
def digits? : List UInt8 → Option (List UInt8)
  | [] => none
  | c :: rest => if isdigit c then (digits? rest).map (c :: ·) else some []

/-- The value of a row of decimal digits. -/
def magnitude (digits : List UInt8) : Nat :=
  digits.foldl (fun value c => 10 * value + (c.toNat - 48)) 0

/-- A value as a `long`: too large ones become the largest, or the smallest. -/
def saturate (value : Int) : Int := max LONG_MIN (min LONG_MAX value)

/-- The number after the blanks. -/
def signed? : List UInt8 → Option Int
  | [] => none
  | c :: rest =>
      if c = 45 then (digits? rest).map fun digits => saturate (-magnitude digits)
      else if c = 43 then (digits? rest).map fun digits => saturate (magnitude digits)
      else (digits? (c :: rest)).map fun digits => saturate (magnitude digits)

def strtol? (memory : List UInt8) : Option Int := signed? (memory.dropWhile isspace)

/-- `(int) strtol(nptr, NULL, 10)`. -/
def atoi? (memory : List UInt8) : Option Int :=
  (strtol? memory).map fun value => value.bmod (2 ^ 32)

/-! ### What follows the number -/

theorem digits?_append {memory digits : List UInt8} (found : digits? memory = some digits)
    (beyond : List UInt8) : digits? (memory ++ beyond) = some digits := by
  induction memory generalizing digits with
  | nil => cases found
  | cons c rest inductionHypothesis =>
      rw [digits?] at found
      rw [List.cons_append, digits?]
      split at found
      · next digit =>
          obtain ⟨others, foundRest, rfl⟩ := Option.map_eq_some_iff.mp found
          rw [if_pos digit, inductionHypothesis foundRest]
          rfl
      · next other => rw [if_neg other, found]

/-- An open number stays open when more digits follow. -/
theorem digits?_open {memory beyond : List UInt8} (open_ : digits? memory = none)
    (more : ∀ c ∈ beyond, isdigit c) : digits? (memory ++ beyond) = none := by
  induction memory with
  | nil =>
      induction beyond with
      | nil => rfl
      | cons c rest inductionHypothesis =>
          have digit : isdigit c := more c List.mem_cons_self
          have later : digits? rest = none := inductionHypothesis fun other member =>
            more other (List.mem_cons_of_mem c member)
          rw [List.nil_append, digits?, if_pos digit, later]
          rfl
  | cons c rest inductionHypothesis =>
      rw [digits?] at open_
      split at open_
      · next digit =>
          rw [List.cons_append, digits?, if_pos digit,
            inductionHypothesis (Option.map_eq_none_iff.mp open_)]
          rfl
      · cases open_

theorem signed?_append {memory : List UInt8} {value : Int} (found : signed? memory = some value)
    (beyond : List UInt8) : signed? (memory ++ beyond) = some value := by
  cases memory with
  | nil => cases found
  | cons c rest =>
      rw [signed?] at found
      rw [List.cons_append, signed?]
      split at found
      · next minus =>
          obtain ⟨digits, scanned, rfl⟩ := Option.map_eq_some_iff.mp found
          rw [if_pos minus, digits?_append scanned]
          rfl
      split at found
      · next notMinus plus =>
          obtain ⟨digits, scanned, rfl⟩ := Option.map_eq_some_iff.mp found
          rw [if_neg notMinus, if_pos plus, digits?_append scanned]
          rfl
      · next notMinus notPlus =>
          obtain ⟨digits, scanned, rfl⟩ := Option.map_eq_some_iff.mp found
          rw [if_neg notMinus, if_neg notPlus, ← List.cons_append, digits?_append scanned]
          rfl

theorem signed?_open {memory beyond : List UInt8} (notEmpty : memory ≠ [])
    (open_ : signed? memory = none) (more : ∀ c ∈ beyond, isdigit c) :
    signed? (memory ++ beyond) = none := by
  cases memory with
  | nil => exact absurd rfl notEmpty
  | cons c rest =>
      rw [signed?] at open_
      rw [List.cons_append, signed?]
      split at open_
      · next minus =>
          rw [if_pos minus, digits?_open (Option.map_eq_none_iff.mp open_) more]
          rfl
      split at open_
      · next notMinus plus =>
          rw [if_neg notMinus, if_pos plus, digits?_open (Option.map_eq_none_iff.mp open_) more]
          rfl
      · next notMinus notPlus =>
          rw [if_neg notMinus, if_neg notPlus, ← List.cons_append,
            digits?_open (Option.map_eq_none_iff.mp open_) more]
          rfl

/-- Digits are the number themselves when nothing precedes them. -/
theorem signed?_digits {memory : List UInt8} (all : ∀ c ∈ memory, isdigit c) :
    signed? memory = none := by
  cases memory with
  | nil => rfl
  | cons c rest =>
      have open_ : digits? ([] ++ c :: rest) = none := digits?_open rfl all
      have digit : isdigit c := all c List.mem_cons_self
      have notMinus : c ≠ 45 := by
        rintro rfl
        exact absurd digit (by decide)
      have notPlus : c ≠ 43 := by
        rintro rfl
        exact absurd digit (by decide)
      rw [List.nil_append] at open_
      rw [signed?, if_neg notMinus, if_neg notPlus, open_]
      rfl

theorem not_isspace_of_isdigit {c : UInt8} (digit : isdigit c) : ¬ isspace c := by
  simp only [isdigit, Bool.and_eq_true, decide_eq_true_eq, UInt8.le_iff_toNat_le] at digit
  simp only [isspace, Bool.or_eq_true, Bool.and_eq_true, decide_eq_true_eq,
    UInt8.le_iff_toNat_le, ← UInt8.toNat_inj]
  have : (48 : UInt8).toNat = 48 := rfl
  have : (32 : UInt8).toNat = 32 := rfl
  have : (13 : UInt8).toNat = 13 := rfl
  omega

theorem dropWhile_append_of_ne_nil {α : Type*} {p : α → Bool} {left : List α}
    (stops : left.dropWhile p ≠ []) (right : List α) :
    (left ++ right).dropWhile p = left.dropWhile p ++ right := by
  rw [List.dropWhile_append]
  simp [List.isEmpty_iff, stops]

/-- A number that ends inside the memory does not depend on what follows it. -/
theorem strtol?_append {memory : List UInt8} {value : Int} (found : strtol? memory = some value)
    (beyond : List UInt8) : strtol? (memory ++ beyond) = some value := by
  have stops : memory.dropWhile isspace ≠ [] := by
    intro blank
    rw [strtol?, blank] at found
    cases found
  rw [strtol?, dropWhile_append_of_ne_nil stops]
  exact signed?_append found beyond

/-- A number that is open at the end of the memory is open for ever if only digits
follow. -/
theorem strtol?_open {memory beyond : List UInt8} (open_ : strtol? memory = none)
    (more : ∀ c ∈ beyond, isdigit c) : strtol? (memory ++ beyond) = none := by
  by_cases blank : memory.dropWhile isspace = []
  · have noBlank : beyond.dropWhile isspace = beyond := by
      cases beyond with
      | nil => rfl
      | cons c rest =>
          exact List.dropWhile_cons_of_neg
            (not_isspace_of_isdigit (more c List.mem_cons_self))
    rw [strtol?, List.dropWhile_append, blank, List.isEmpty_nil, if_pos rfl, noBlank]
    exact signed?_digits more
  · rw [strtol?, dropWhile_append_of_ne_nil blank]
    exact signed?_open blank open_ more

theorem atoi?_append {memory : List UInt8} {value : Int} (found : atoi? memory = some value)
    (beyond : List UInt8) : atoi? (memory ++ beyond) = some value := by
  obtain ⟨number, parsed, rfl⟩ := Option.map_eq_some_iff.mp found
  rw [atoi?, strtol?_append parsed]
  rfl

theorem atoi?_open {memory beyond : List UInt8} (open_ : atoi? memory = none)
    (more : ∀ c ∈ beyond, isdigit c) : atoi? (memory ++ beyond) = none := by
  rw [atoi?, strtol?_open (Option.map_eq_none_iff.mp open_) more]
  rfl

/-! ### Numerals -/

/-- Decimal digits with a value, or a minus sign before them. -/
def IsNumeral (text : List UInt8) (value : Int) : Prop :=
  ∃ digits, digits ≠ [] ∧ (∀ c ∈ digits, isdigit c) ∧
    (text = digits ∧ value = magnitude digits ∨ text = 45 :: digits ∧ value = -magnitude digits)

theorem IsNumeral.ne_nil {text : List UInt8} {value : Int} (numeral : IsNumeral text value) :
    text ≠ [] := by
  obtain ⟨digits, some_, -, ⟨rfl, -⟩ | ⟨rfl, -⟩⟩ := numeral
  · exact some_
  · exact List.cons_ne_nil _ _

theorem IsNumeral.notMem {text : List UInt8} {value : Int} (numeral : IsNumeral text value)
    {c : UInt8} (notDigit : ¬ isdigit c) (notMinus : c ≠ 45) : c ∉ text := by
  obtain ⟨digits, -, all, ⟨rfl, -⟩ | ⟨rfl, -⟩⟩ := numeral
  · exact fun member => notDigit (all c member)
  · intro member
    obtain same | later := List.mem_cons.mp member
    · exact notMinus same
    · exact notDigit (all c later)

theorem digits?_terminated {digits : List UInt8} (all : ∀ c ∈ digits, isdigit c) {c : UInt8}
    (notDigit : ¬ isdigit c) (rest : List UInt8) : digits? (digits ++ c :: rest) = some digits := by
  induction digits with
  | nil => rw [List.nil_append, digits?, if_neg notDigit]
  | cons first others inductionHypothesis =>
      obtain ⟨digit, later⟩ := List.forall_mem_cons.mp all
      rw [List.cons_append, digits?, if_pos digit, inductionHypothesis later]
      rfl

theorem saturate_eq {value : Int} (low : LONG_MIN ≤ value) (high : value ≤ LONG_MAX) :
    saturate value = value := by
  rw [saturate, min_eq_right high, max_eq_right low]

/-- A numeral in the range of `long` is read as its value, whatever ends it. -/
theorem strtol?_numeral {text : List UInt8} {value : Int} (numeral : IsNumeral text value)
    (low : LONG_MIN ≤ value) (high : value ≤ LONG_MAX) {c : UInt8} (notDigit : ¬ isdigit c)
    (rest : List UInt8) : strtol? (text ++ c :: rest) = some value := by
  obtain ⟨digits, some_, all, ⟨rfl, isValue⟩ | ⟨rfl, isValue⟩⟩ := numeral
  · cases text with
    | nil => exact absurd rfl some_
    | cons first others =>
        have digit : isdigit first := all first List.mem_cons_self
        have scanned := digits?_terminated all notDigit rest
        have notMinus : first ≠ 45 := by
          rintro rfl
          exact absurd digit (by decide)
        have notPlus : first ≠ 43 := by
          rintro rfl
          exact absurd digit (by decide)
        rw [List.cons_append] at scanned ⊢
        rw [strtol?, List.dropWhile_cons_of_neg (not_isspace_of_isdigit digit), signed?,
          if_neg notMinus, if_neg notPlus, scanned, Option.map_some, ← isValue,
          saturate_eq low high]
  · have scanned := digits?_terminated all notDigit rest
    rw [List.cons_append, strtol?, List.dropWhile_cons_of_neg (by decide), signed?, if_pos rfl,
      scanned, Option.map_some, ← isValue, saturate_eq low high]

/-- A numeral in the range of `int` is read as its value, whatever ends it. -/
theorem atoi?_numeral {text : List UInt8} {value : Int} (numeral : IsNumeral text value)
    (low : -2 ^ 31 ≤ value) (high : value < 2 ^ 31) {c : UInt8} (notDigit : ¬ isdigit c)
    (rest : List UInt8) : atoi? (text ++ c :: rest) = some value := by
  have lowLong : LONG_MIN ≤ value := Int.le_trans (by decide) low
  have highLong : value ≤ LONG_MAX := Int.le_trans (Int.le_of_lt high) (by decide)
  rw [atoi?, strtol?_numeral numeral lowLong highLong notDigit, Option.map_some, Int.bmod_def]
  congr 1
  omega

/-! ### Decimal text -/

def digit (value : Nat) : UInt8 := UInt8.ofNat (48 + value)

/-- The decimal digits of a number, without leading zeros. -/
def decimal (value : Nat) : List UInt8 :=
  if value < 10 then [digit value] else decimal (value / 10) ++ [digit (value % 10)]

theorem toNat_digit {value : Nat} (below : value < 10) : (digit value).toNat = 48 + value := by
  rw [digit, UInt8.toNat_ofNat']
  omega

theorem isdigit_digit {value : Nat} (below : value < 10) : isdigit (digit value) := by
  have byte := toNat_digit below
  simp only [isdigit, Bool.and_eq_true, decide_eq_true_eq, UInt8.le_iff_toNat_le, byte]
  have : (48 : UInt8).toNat = 48 := rfl
  have : (57 : UInt8).toNat = 57 := rfl
  omega

theorem magnitude_concat (digits : List UInt8) (c : UInt8) :
    magnitude (digits ++ [c]) = 10 * magnitude digits + (c.toNat - 48) := by
  rw [magnitude, List.foldl_append]
  rfl

/-- The induction is on the number of digits. -/
theorem decimal_digits (value : Nat) :
    decimal value ≠ [] ∧ (∀ c ∈ decimal value, isdigit c) ∧ magnitude (decimal value) = value := by
  induction value using decimal.induct with
  | case1 value below =>
      have byte := toNat_digit below
      rw [decimal, if_pos below]
      refine ⟨List.cons_ne_nil _ _, ?_, ?_⟩
      · exact List.forall_mem_singleton.mpr (isdigit_digit below)
      · change 10 * 0 + ((digit value).toNat - 48) = value
        omega
  | case2 value above inductionHypothesis =>
      obtain ⟨-, all, number⟩ := inductionHypothesis
      have last : value % 10 < 10 := Nat.mod_lt value (by decide)
      have byte := toNat_digit last
      rw [decimal, if_neg above]
      refine ⟨List.concat_ne_nil _ _, ?_, ?_⟩
      · intro c member
        rcases List.mem_append.mp member with earlier | here
        · exact all c earlier
        · rw [List.mem_singleton.mp here]
          exact isdigit_digit last
      · rw [magnitude_concat, number]
        omega

theorem isNumeral_decimal (value : Nat) : IsNumeral (decimal value) value := by
  obtain ⟨some_, all, number⟩ := decimal_digits value
  exact ⟨decimal value, some_, all, .inl ⟨rfl, by rw [number]⟩⟩

end LinuxProgramming.Library.Atoi
