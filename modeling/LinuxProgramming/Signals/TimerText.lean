import Mathlib.Data.List.TakeWhile
import LinuxProgramming.Library.Atoi
import LinuxProgramming.Library.CInt
import LinuxProgramming.Library.CString

/-!
Contract: `itimerspecFromStr`, which reads `secs[/nsecs][:int-secs[/int-nsecs]]`.

Owns:
- the function, with the cuts that it makes in the string;
- that it reads the text of every setting as this setting.

Does not own: texts of another form.
-/

namespace LinuxProgramming.Signals.TimerText

open LinuxProgramming.Library
open LinuxProgramming.Library.Atoi
open LinuxProgramming.Library.CInt
open LinuxProgramming.Library.CString

/-- `'/'`. -/
def slash : UInt8 := 47

/-- `':'`. -/
def colon : UInt8 := 58

structure Timespec where
  tv_sec : Int
  tv_nsec : Int
deriving DecidableEq, Repr

structure Itimerspec where
  it_interval : Timespec
  it_value : Timespec
deriving DecidableEq, Repr

/-! ### The function -/

/-- `strchr(str + start, c)`, as a distance from `str`. -/
def strchrFrom (str : List UInt8) (start : Nat) (c : UInt8) : Option (Option Nat) :=
  (strchr? c (str.drop start)).map (Option.map (start + ·))

/-- A terminator in the place of the separator, if there is one. -/
def cut (str : List UInt8) : Option Nat → List UInt8
  | none => str
  | some separator => str.set separator 0

/-- What is done for the value and, behind the colon, for the interval: the seconds and the
nanoseconds from `start` on, and the string with its cut. -/
def timespecFrom (str : List UInt8) (start : Nat) : Option (Timespec × List UInt8) := do
  let sptr ← strchrFrom str start slash
  let str := cut str sptr
  let tv_sec ← atoi? (str.drop start)
  let tv_nsec ← sptr.elim (some 0) fun separator => atoi? (str.drop (separator + 1))
  return (⟨tv_sec, tv_nsec⟩, str)

/-- `itimerspecFromStr`; `none` if it leaves the memory of the string. -/
def itimerspecFromStr (str : List UInt8) : Option (Itimerspec × List UInt8) := do
  let cptr ← strchrFrom str 0 colon
  let str := cut str cptr
  let (it_value, str) ← timespecFrom str 0
  match cptr with
  | none => return (⟨⟨0, 0⟩, it_value⟩, str)
  | some separator => do
      let (it_interval, str) ← timespecFrom str (separator + 1)
      return (⟨it_interval, it_value⟩, str)

/-! ### Settings and their text -/

/-- An `int` that is not negative. -/
abbrev NonnegInt := { value : Nat // (value : Int) ≤ INT_MAX }

/-- Seconds, and perhaps nanoseconds. -/
structure Half where
  sec : NonnegInt
  nsec : Option NonnegInt
deriving DecidableEq, Repr

/-- A time, and perhaps an interval. -/
structure Setting where
  value : Half
  interval : Option Half
deriving DecidableEq, Repr

/-- `sec` or `sec/nsec`. -/
def Half.text (half : Half) : List UInt8 :=
  decimal half.sec ++ half.nsec.elim [] fun nsec => slash :: decimal nsec

/-- `value` or `value:interval`. -/
def Setting.text (setting : Setting) : List UInt8 :=
  setting.value.text ++ setting.interval.elim [] fun interval => colon :: interval.text

def Half.timespec (half : Half) : Timespec :=
  ⟨(half.sec : Nat), half.nsec.elim 0 fun nsec => (nsec : Nat)⟩

def Setting.itimerspec (setting : Setting) : Itimerspec :=
  ⟨setting.interval.elim ⟨0, 0⟩ Half.timespec, setting.value.timespec⟩

theorem notMem_decimal (value : Nat) {c : UInt8} (notDigit : ¬isdigit c) (notMinus : c ≠ 45) :
    c ∉ decimal value :=
  (isNumeral_decimal value).notMem notDigit notMinus

/-- What is neither a digit nor a slash is not in a half. -/
theorem Half.notMem_text (half : Half) {c : UInt8} (notDigit : ¬isdigit c) (notMinus : c ≠ 45)
    (notSlash : c ≠ slash) : c ∉ half.text := by
  have notSec := notMem_decimal half.sec notDigit notMinus
  cases half with
  | mk sec nsec =>
      cases nsec with
      | none => simpa [Half.text] using notSec
      | some nsec =>
          have notNsec := notMem_decimal nsec notDigit notMinus
          simpa [Half.text] using ⟨notSec, notSlash, notNsec⟩

theorem atoi?_decimal (value : NonnegInt) (rest : List UInt8) :
    atoi? (decimal value ++ 0 :: rest) = some ((value : Nat) : Int) := by
  have fits := value.property
  unfold INT_MAX at fits
  exact atoi?_numeral (isNumeral_decimal value) (by omega) (by omega) (by decide) rest

/-! ### One half -/

theorem strchrFrom_append (front memory : List UInt8) (c : UInt8) :
    strchrFrom (front ++ memory) front.length c =
      (strchr? c memory).map (Option.map (front.length + ·)) := by
  rw [strchrFrom, List.drop_left]

/-- A cut at a separator behind some front of the memory. -/
theorem cut_append (front before after : List UInt8) (separator : UInt8) :
    cut (front ++ (before ++ separator :: after)) (some (front.length + before.length)) =
      front ++ (before ++ 0 :: after) := by
  rw [cut, List.set_append_right _ _ (Nat.le_add_right ..), Nat.add_sub_cancel_left,
    List.set_append_right _ _ (Nat.le_refl _), Nat.sub_self, List.set_cons_zero]

/-- The memory behind a byte. -/
theorem drop_behind (front before after : List UInt8) (separator : UInt8) :
    (front ++ (before ++ separator :: after)).drop (front.length + before.length + 1) =
      after := by
  have regroup : front ++ (before ++ separator :: after) =
      (front ++ before ++ [separator]) ++ after := by
    simp only [List.append_assoc, List.singleton_append]
  rw [regroup]
  exact List.drop_left' (by simp only [List.length_append, List.length_singleton])

/-- A half behind some front of the memory is read as its value, and the cut is inside it. -/
theorem timespecFrom_half (front : List UInt8) (half : Half) (rest : List UInt8) :
    ∃ text, timespecFrom (front ++ (half.text ++ 0 :: rest)) front.length =
        some (half.timespec, front ++ (text ++ 0 :: rest)) ∧
      text.length = half.text.length := by
  have noSlash := notMem_decimal half.sec (c := slash) (by decide) (by decide)
  have noEnd := notMem_decimal half.sec (c := 0) (by decide) (by decide)
  obtain ⟨sec, nsec⟩ := half
  cases nsec with
  | none =>
      have text : Half.text ⟨sec, none⟩ = decimal sec := List.append_nil _
      refine ⟨decimal sec, ?_, congrArg List.length text.symm⟩
      rw [text, timespecFrom, strchrFrom_append,
        strchr?_absent noSlash noEnd (by decide), Option.map_some, Option.map_none]
      change ((atoi? ((front ++ (decimal sec ++ 0 :: rest)).drop front.length)).bind _) = _
      rw [List.drop_left, atoi?_decimal]
      rfl
  | some nsec =>
      have text : Half.text ⟨sec, some nsec⟩ ++ 0 :: rest =
          decimal sec ++ slash :: (decimal nsec ++ 0 :: rest) := by
        rw [Half.text, Option.elim_some, List.append_assoc, List.cons_append]
      refine ⟨decimal sec ++ 0 :: decimal nsec, ?_, ?_⟩
      · rw [text, timespecFrom, strchrFrom_append, strchr?_found noSlash noEnd, Option.map_some,
          Option.map_some]
        change ((atoi? ((cut _ (some (front.length + _))).drop front.length)).bind _) = _
        rw [cut_append, List.drop_left, atoi?_decimal]
        change ((atoi? ((front ++ _).drop (front.length + (decimal sec).length + 1))).bind _) = _
        rw [drop_behind, atoi?_decimal, List.append_assoc]
        rfl
      · rw [Half.text, Option.elim_some, List.length_append, List.length_append]
        rfl

/-! ### The whole text -/

/-- A time without an interval. -/
theorem itimerspecFromStr_value (value : Half) (beyond : List UInt8) :
    (itimerspecFromStr (value.text ++ 0 :: beyond)).map Prod.fst =
      some ⟨⟨0, 0⟩, value.timespec⟩ := by
  have noColon := value.notMem_text (c := colon) (by decide) (by decide) (by decide)
  have noEnd := value.notMem_text (c := 0) (by decide) (by decide) (by decide)
  obtain ⟨text, read, -⟩ := timespecFrom_half [] value beyond
  rw [List.nil_append, List.length_nil] at read
  rw [itimerspecFromStr, strchrFrom, List.drop_zero, strchr?_absent noColon noEnd (by decide)]
  change (((timespecFrom (value.text ++ 0 :: beyond) 0).bind _).map Prod.fst) = _
  rw [read]
  rfl

/-- A time and an interval: the first half is read up to the cut in the place of the colon, and
the second one from there. -/
theorem itimerspecFromStr_interval (value interval : Half) (beyond : List UInt8) :
    (itimerspecFromStr (value.text ++ colon :: (interval.text ++ 0 :: beyond))).map Prod.fst =
      some ⟨interval.timespec, value.timespec⟩ := by
  have noColon := value.notMem_text (c := colon) (by decide) (by decide) (by decide)
  have noEnd := value.notMem_text (c := 0) (by decide) (by decide) (by decide)
  obtain ⟨text, read, sameLength⟩ := timespecFrom_half [] value (interval.text ++ 0 :: beyond)
  obtain ⟨_, readInterval, -⟩ := timespecFrom_half (text ++ [0]) interval beyond
  have cutColon := cut_append [] value.text (interval.text ++ 0 :: beyond) colon
  have behind : (text ++ [0]).length = 0 + value.text.length + 1 := by
    rw [List.length_append, sameLength, Nat.zero_add]
    rfl
  rw [List.nil_append, List.length_nil] at read
  rw [behind, List.append_assoc, List.singleton_append] at readInterval
  rw [itimerspecFromStr, strchrFrom, List.drop_zero, strchr?_found noColon noEnd]
  change (((timespecFrom (cut _ (some (0 + value.text.length))) 0).bind _).map Prod.fst) = _
  rw [List.nil_append, List.nil_append, List.length_nil] at cutColon
  rw [cutColon, read]
  change (((timespecFrom (text ++ _) (0 + value.text.length + 1)).bind _).map Prod.fst) = _
  rw [readInterval]
  rfl

/-- The text of any setting, in each of its forms, is read as this setting, whatever is in
memory behind it. -/
theorem itimerspecFromStr_text (setting : Setting) (beyond : List UInt8) :
    (itimerspecFromStr (setting.text ++ 0 :: beyond)).map Prod.fst = some setting.itimerspec := by
  obtain ⟨value, interval⟩ := setting
  cases interval with
  | none =>
      have text : Setting.text ⟨value, none⟩ = value.text := List.append_nil _
      rw [text]
      exact itimerspecFromStr_value value beyond
  | some interval =>
      have text : Setting.text ⟨value, some interval⟩ ++ 0 :: beyond =
          value.text ++ colon :: (interval.text ++ 0 :: beyond) := by
        rw [Setting.text, Option.elim_some, List.append_assoc, List.cons_append]
      rw [text]
      exact itimerspecFromStr_interval value interval beyond

end LinuxProgramming.Signals.TimerText
