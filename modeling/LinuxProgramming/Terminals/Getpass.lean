import LinuxProgramming.Library.CBuffer
import LinuxProgramming.Library.DescriptorTable

/-!
Contract: `my_getpass`.

Owns:
- the function with every result of the calls it makes;
- the attributes of the terminal, the descriptors and the password array after it, and exactly
  when they are as they have to be.

Does not own: signals that arrive while the password is typed.
-/

namespace LinuxProgramming.Terminals.Getpass

open LinuxProgramming.Library

universe u

def ECHO : BitVec 32 := 0x00000008

def PASSWD_LEN : Nat := 256

structure Termios where
  c_iflag : BitVec 32
  c_oflag : BitVec 32
  c_cflag : BitVec 32
  c_lflag : BitVec 32
  c_line : UInt8
  c_cc : List UInt8
deriving DecidableEq, Repr

/-- What a descriptor refers to. -/
inductive File (Other : Type u) where
  | inherited (file : Other)
  | controlTty
deriving DecidableEq, Repr

/-- `passwd`. -/
abbrev Passwd := { bytes : List UInt8 // bytes.length = PASSWD_LEN }

/-- What `read` delivers. -/
abbrev Input := { bytes : List UInt8 // bytes.length ≤ PASSWD_LEN }

/-- The controlling terminal, and what the function reads and changes of the process. -/
structure Process (Other : Type u) where
  attributes : Termios
  table : DescriptorTable (File Other)
  passwd : Passwd
  stdout : List UInt8
  /-- The number of stores that are not in `passwd`. -/
  outside : Nat

/-- Which calls succeed, and what is read. -/
structure Outcomes where
  open_ : Bool
  tcgetattr : Bool
  tcsetattr : Bool
  read : Option Input
  tcgetattrAgain : Bool
  tcsetattrAgain : Bool

variable {Other : Type u}

/-! ### The function -/

/-- The descriptor of `open`, the lowest one that is free below the limit. -/
def openTty (limit : Nat) (succeeds : Bool) (table : DescriptorTable (File Other)) : Option Nat :=
  if succeeds then table.lowestFree 0 limit else none

/-- The bytes are put at the start of `passwd`. -/
def Passwd.receive (passwd : Passwd) (input : Input) : Passwd :=
  ⟨input.val ++ passwd.val.drop input.val.length, by
    rw [List.length_append, List.length_drop, passwd.property]
    exact Nat.add_sub_cancel' input.property⟩

/-- `passwd[index] = '\0'`. -/
def Process.terminate (process : Process Other) (index : Int) : Process Other :=
  if 0 ≤ index ∧ index < PASSWD_LEN then
    { process with
      passwd := ⟨process.passwd.val.set index.toNat 0, by
        rw [List.length_set]
        exact process.passwd.property⟩ }
  else { process with outside := process.outside + 1 }

/-- `read` into `passwd`, its last byte overwritten, and a newline. -/
def Process.receive (process : Process Other) (input : Input) : Process Other :=
  let num_read : Int := input.val.length
  let process := { process with passwd := process.passwd.receive input }
  let process := process.terminate (num_read - 1)
  { process with stdout := process.stdout ++ [10] }

/-- `my_getpass`: the string that is returned, or a null pointer. -/
def myGetpass (limit : Nat) (outcomes : Outcomes) (prompt : Option (List UInt8))
    (process : Process Other) : Option (List UInt8) × Process Other :=
  match openTty limit outcomes.open_ process.table with
  | none => (none, process)
  | some fd =>
      let process := { process with table := process.table.assign fd .controlTty }
      if outcomes.tcgetattr = false then (none, process)
      else
        let tp := process.attributes
        let tp := { tp with c_lflag := tp.c_lflag &&& ~~~ECHO }
        if outcomes.tcsetattr = false then (none, process)
        else
          let process := { process with attributes := tp }
          let process := { process with stdout := process.stdout ++ prompt.getD [] }
          match outcomes.read with
          | none => (none, process)
          | some input =>
              let process := process.receive input
              if outcomes.tcgetattrAgain = false then (none, process)
              else
                let tp := process.attributes
                let tp := { tp with c_lflag := tp.c_lflag ||| ECHO }
                if outcomes.tcsetattrAgain = false then (none, process)
                else
                  let process := { process with attributes := tp }
                  let process := { process with table := process.table.close fd }
                  (some (CBuffer.string 0 process.passwd.val), process)

/-! ### What has to hold afterwards -/

structure Law (before after : Process Other) : Prop where
  attributes : after.attributes = before.attributes
  descriptors : after.table = before.table
  inside : after.outside = before.outside

/-- The terminal is not opened; or everything succeeds, at least one byte is read, and the
terminal has echoed. -/
def Undisturbed (limit : Nat) (outcomes : Outcomes) (process : Process Other) : Prop :=
  openTty limit outcomes.open_ process.table = none ∨
    outcomes.tcgetattr = true ∧ outcomes.tcsetattr = true ∧
      (∃ input, outcomes.read = some input ∧ input.val ≠ []) ∧
      outcomes.tcgetattrAgain = true ∧ outcomes.tcsetattrAgain = true ∧
      process.attributes.c_lflag &&& ECHO = ECHO

/-- A flag that is cleared and set again is as before exactly if it was set. -/
theorem clear_set_eq_iff {w : Nat} {flags flag : BitVec w} :
    flags &&& ~~~flag ||| flag = flags ↔ flags &&& flag = flag := by
  rw [BitVec.eq_of_getLsbD_eq_iff, BitVec.eq_of_getLsbD_eq_iff]
  refine forall₂_congr fun i inside => ?_
  simp only [BitVec.getLsbD_or, BitVec.getLsbD_and, BitVec.getLsbD_not, inside, decide_true,
    Bool.true_and]
  cases flags.getLsbD i <;> cases flag.getLsbD i <;> decide

/-! ### One call -/

/-- What is read changes `passwd` and the output; the store behind it is in `passwd` exactly if
something was read. -/
theorem exists_receive (process : Process Other) (input : Input) :
    ∃ passwd outside, process.receive input =
        { process with passwd, stdout := process.stdout ++ [10], outside } ∧
      (outside = process.outside ↔ input.val ≠ []) := by
  have short := input.property
  unfold Process.receive Process.terminate
  dsimp only
  split
  case isTrue inside =>
    refine ⟨_, _, rfl, iff_of_true rfl fun empty => ?_⟩
    rw [empty] at inside
    exact absurd inside.1 (by decide)
  case isFalse outside =>
    refine ⟨_, _, rfl, iff_of_false (Nat.succ_ne_self process.outside) fun nonempty => ?_⟩
    have positive := List.length_pos_of_ne_nil nonempty
    omega

theorem free_of_openTty {limit fd : Nat} {succeeds : Bool} {table : DescriptorTable (File Other)}
    (opened : openTty limit succeeds table = some fd) : table fd = none := by
  unfold openTty at opened
  split at opened
  case isTrue => exact (DescriptorTable.lowestFree_eq_some.mp opened).1
  case isFalse => cases opened

/-- To leave the descriptor open is against the law. -/
theorem not_law_of_open {before after : Process Other} {fd : Nat} (free : before.table fd = none)
    (left : after.table = before.table.assign fd .controlTty) : ¬Law before after := by
  intro law
  have same := congrFun (left.symm.trans law.descriptors) fd
  rw [DescriptorTable.assign_self, free] at same
  cases same

/-- The function is right exactly if the terminal is not opened, or nothing fails, something
is read and the terminal has echoed. -/
theorem myGetpass_law_iff (limit : Nat) (outcomes : Outcomes) (prompt : Option (List UInt8))
    (process : Process Other) :
    Law process (myGetpass limit outcomes prompt process).2 ↔
      Undisturbed limit outcomes process := by
  unfold myGetpass Undisturbed
  cases opened : openTty limit outcomes.open_ process.table with
  | none => exact iff_of_true ⟨rfl, rfl, rfl⟩ (.inl rfl)
  | some fd =>
      have free := free_of_openTty opened
      rw [or_iff_right (Option.some_ne_none fd)]
      dsimp only
      by_cases getFails : outcomes.tcgetattr = false
      · rw [if_pos getFails]
        refine iff_of_false (not_law_of_open free rfl) fun all => ?_
        exact Bool.false_ne_true (getFails.symm.trans all.1)
      rw [if_neg getFails]
      by_cases setFails : outcomes.tcsetattr = false
      · rw [if_pos setFails]
        refine iff_of_false (not_law_of_open free rfl) fun all => ?_
        exact Bool.false_ne_true (setFails.symm.trans all.2.1)
      rw [if_neg setFails]
      cases read : outcomes.read with
      | none =>
          refine iff_of_false (not_law_of_open free rfl) ?_
          rintro ⟨-, -, ⟨input, nothing, -⟩, -⟩
          cases nothing
      | some input =>
          obtain ⟨passwd, outside, received, inside⟩ := exists_receive
            { process with
              attributes :=
                { process.attributes with c_lflag := process.attributes.c_lflag &&& ~~~ECHO }
              table := process.table.assign fd .controlTty
              stdout := process.stdout ++ prompt.getD [] } input
          dsimp only
          rw [received]
          by_cases getAgainFails : outcomes.tcgetattrAgain = false
          · rw [if_pos getAgainFails]
            refine iff_of_false (not_law_of_open free rfl) fun all => ?_
            exact Bool.false_ne_true (getAgainFails.symm.trans all.2.2.2.1)
          rw [if_neg getAgainFails]
          by_cases setAgainFails : outcomes.tcsetattrAgain = false
          · rw [if_pos setAgainFails]
            refine iff_of_false (not_law_of_open free rfl) fun all => ?_
            exact Bool.false_ne_true (setAgainFails.symm.trans all.2.2.2.2.1)
          rw [if_neg setAgainFails]
          -- Everything has succeeded: the input and the flags decide.
          constructor
          · intro law
            have flags := congrArg Termios.c_lflag law.attributes
            exact ⟨Bool.of_not_eq_false getFails, Bool.of_not_eq_false setFails,
              ⟨input, rfl, inside.mp law.inside⟩, Bool.of_not_eq_false getAgainFails,
              Bool.of_not_eq_false setAgainFails, clear_set_eq_iff.mp flags⟩
          · rintro ⟨-, -, ⟨input', same, nonempty⟩, -, -, echo⟩
            obtain rfl : input = input' := Option.some.inj same
            refine ⟨?_, DescriptorTable.close_assign free _, inside.mpr nonempty⟩
            have flags : process.attributes.c_lflag &&& ~~~ECHO ||| ECHO =
                process.attributes.c_lflag := clear_set_eq_iff.mpr echo
            dsimp only
            rw [flags]

/-- `read` fails, on a terminal that echoes. -/
theorem myGetpass_readFails :
    let before : Process Unit :=
      ⟨⟨0, 0, 0, ECHO, 0, []⟩, fun _ => none, ⟨List.replicate PASSWD_LEN 0, List.length_replicate⟩,
        [], 0⟩
    let after := (myGetpass 1 ⟨true, true, true, none, true, true⟩ none before).2
    after.attributes.c_lflag &&& ECHO = 0 ∧ after.table 0 = some .controlTty ∧
      ¬Law before after := by
  dsimp only
  refine ⟨by decide, rfl, fun law => ?_⟩
  have same := congrFun law.descriptors 0
  cases same

end LinuxProgramming.Terminals.Getpass
